import Sluice.Proofs.Double.ShortestDigits
import Sluice.Text.Split

set_option autoImplicit false

namespace Sluice.Double

section

variable (front back : List Char)

theorem digitsValue_append :
    digitsValue (front ++ back) = digitsValue front * 10 ^ back.length + digitsValue back := by
  change Nat.ofDigitChars 10 (front ++ back) 0 = _
  rw [Nat.ofDigitChars_append, Nat.ofDigitChars_eq_ofDigitChars_zero, mul_comm]
  rfl

theorem digitsValue_zeros (n : Nat) : digitsValue (List.replicate n '0') = 0 := by
  change Nat.ofDigitChars 10 (List.replicate n '0') 0 = 0
  rw [Nat.ofDigitChars_replicate_zero, mul_zero]

theorem digitsValue_toDigits (n : Nat) : digitsValue (Nat.toDigits 10 n) = n :=
  Nat.ofDigitChars_toDigits (by decide) le_rfl

end

structure Decimals (text : List Char) : Prop where
  nonempty : text ≠ []
  digit : ∀ c ∈ text, c.isDigit = true

theorem decimals_toDigits (n : Nat) : Decimals (Nat.toDigits 10 n) :=
  ⟨Nat.toDigits_ne_nil, fun _ listed => Nat.isDigit_of_mem_toDigits (by decide) le_rfl listed⟩

theorem zeros_digit {n : Nat} {c : Char} (listed : c ∈ List.replicate n '0') :
    c.isDigit = true := by
  rw [List.eq_of_mem_replicate listed]
  rfl

theorem trimZeros_append (most : Nat) (digits : List Char) :
    ∃ zeros ≤ most, digits = trimZeros most digits ++ List.replicate zeros '0' := by
  induction most generalizing digits with
  | zero => exact ⟨0, le_rfl, by simp [trimZeros]⟩
  | succ most ih =>
    unfold trimZeros
    split
    next rest last =>
      obtain ⟨zeros, atMost, whole⟩ := ih rest.reverse
      refine ⟨zeros + 1, by omega, ?_⟩
      rw [List.replicate_succ', ← List.append_assoc, ← whole, ← List.reverse_cons, ← last,
        List.reverse_reverse]
    next => exact ⟨0, by omega, by simp⟩

theorem decimal_nearest {m : Nat} (positive : 0 < m) (finite : m < infinite) :
    let (digits, e) := decimal m
    Decimals digits ∧ Nearest m (digitsValue digits * 10 ^ (e + 1 - digits.length)) ∧
      -347 < e + 1 - digits.length := by
  have ⟨nearest, least⟩ := shortest_nearest positive finite
  unfold decimal
  generalize shortest m = found at nearest least
  obtain ⟨n, k⟩ := found
  dsimp only at nearest least ⊢
  have ⟨_, letters⟩ := decimals_toDigits n
  have value := digitsValue_toDigits n
  have long : 0 < (Nat.toDigits 10 n).length := Nat.length_toDigits_pos
  generalize Nat.toDigits 10 n = digits at *
  obtain ⟨zeros, atMost, whole⟩ := trimZeros_append (digits.length - 1) digits
  generalize trimZeros (digits.length - 1) digits = kept at *
  -- Every zero that is dropped raises the exponent of the last digit by one.
  have size : digits.length = kept.length + zeros := by rw [whole]; simp
  have place : (digits.length : ℤ) - 1 + k + 1 - kept.length = zeros + k := by omega
  refine ⟨⟨?_, fun c listed => letters c ?_⟩, ?_, by omega⟩
  · rintro rfl
    simp only [List.length_nil] at size
    omega
  · rw [whole]
    exact List.mem_append_left _ listed
  · rw [place, zpow_add₀ (by norm_num), ← mul_assoc, zpow_natCast]
    rw [whole, digitsValue_append, digitsValue_zeros, List.length_replicate, add_zero] at value
    rw [← value] at nearest
    exact_mod_cast nearest

section

variable (negative : Bool) {whole part tail : List Char}

theorem span_digits {run rest : List Char} (inside : ∀ c ∈ run, c.isDigit = true)
    (stop : ∀ c ∈ rest.head?, c.isDigit = false) : (run ++ rest).span Char.isDigit = (run, rest) := by
  rw [List.span_eq_takeWhile_dropWhile, Text.takeWhile_append_stop inside stop,
    Text.dropWhile_append_stop inside stop]

theorem readNumeral_whole (decimals : Decimals whole)
    (stop : ∀ c ∈ tail.head?, c.isDigit = false ∧ c ≠ '.') :
    readNumeral negative (whole ++ tail) =
      (readExponent tail).map fun e => ofDecimal negative (digitsValue whole) e := by
  unfold readNumeral
  rw [span_digits decimals.digit fun c first => (stop c first).1]
  dsimp only
  split
  next => exact absurd rfl (stop '.' rfl).2
  next => simp [decimals.nonempty]

theorem readNumeral_point (decimals : Decimals whole) (digits : ∀ c ∈ part, c.isDigit = true)
    (stop : ∀ c ∈ tail.head?, c.isDigit = false) :
    readNumeral negative (whole ++ '.' :: (part ++ tail)) =
      (readExponent tail).map fun e =>
        ofDecimal negative (digitsValue (whole ++ part)) (e - part.length) := by
  unfold readNumeral
  rw [span_digits decimals.digit fun c first => by cases first; rfl]
  simp only [span_digits digits stop]
  simp [decimals.nonempty]

theorem readNumeral_part (decimals : Decimals whole) (digits : ∀ c ∈ part, c.isDigit = true) :
    readNumeral negative (whole ++ '.' :: part) =
      some (ofDecimal negative (digitsValue (whole ++ part)) (-part.length)) := by
  have read := readNumeral_point negative decimals digits
    (show ∀ c ∈ ([] : List Char).head?, c.isDigit = false by simp)
  rwa [List.append_nil, readExponent, Option.map_some, zero_sub] at read

theorem readExponent_mark (e : ℤ) :
    readExponent ('e' :: (if e < 0 then '-' else '+') :: Nat.toDigits 10 e.natAbs) = some e := by
  have decimals := decimals_toDigits e.natAbs
  have value := digitsValue_toDigits e.natAbs
  have sign : readSign ((if e < 0 then '-' else '+') :: Nat.toDigits 10 e.natAbs) =
      (decide (e < 0), Nat.toDigits 10 e.natAbs) := by
    split <;> simp [readSign, *]
  rw [readExponent, sign]
  simp only [decide_true, Bool.true_or, List.isEmpty_eq_false_iff.mpr decimals.nonempty,
    Bool.not_false, List.all_eq_true.mpr decimals.digit, Bool.and_self, if_true, value,
    decide_eq_true_eq, Option.some.injEq]
  split <;> omega

end

def Spells (text digits : List Char) (e : ℤ) : Prop :=
  ∀ negative, ∃ n e', readNumeral negative text = some (ofDecimal negative n e') ∧
    (n : ℚ) * 10 ^ e' = digitsValue digits * 10 ^ (e + 1 - digits.length) ∧
    min (e + 1 - digits.length) (-1) ≤ e'

section

variable {digits : List Char} (decimals : Decimals digits) (e : ℤ)
include decimals

theorem spells_exponent : Spells
    (digits.take 1 ++ (if digits.length ≤ 1 then [] else '.' :: digits.drop 1) ++
      'e' :: (if e < 0 then '-' else '+') :: Nat.toDigits 10 e.natAbs) digits e := by
  have ⟨nonempty, letters⟩ := decimals
  intro negative
  obtain ⟨d, rest, rfl⟩ := List.exists_cons_of_ne_nil nonempty
  have first : Decimals [d] := ⟨by simp, by simpa using letters d List.mem_cons_self⟩
  have stop : ∀ c ∈ ('e' :: (if e < 0 then '-' else '+') :: Nat.toDigits 10 e.natAbs).head?,
      c.isDigit = false ∧ c ≠ '.' := by simp
  cases rest with
  -- A digit alone is written without a point, so it is the exponent that tells it from an integer.
  | nil =>
    refine ⟨digitsValue [d], e, ?_, by simp, by simp⟩
    have read := readNumeral_whole negative first stop
    rwa [readExponent_mark] at read
  | cons next rest =>
    refine ⟨digitsValue (d :: next :: rest), e - (next :: rest).length, ?_, ?_, by simp⟩
    · have read := readNumeral_point negative first
        (fun c listed => letters c (List.mem_cons_of_mem d listed))
        fun c mark => (stop c mark).1
      rwa [readExponent_mark] at read
    · congr 2
      simp

theorem spells_fraction (before : e < 0) : Spells
    ('0' :: '.' :: (List.replicate (e.natAbs - 1) '0' ++ digits)) digits e := by
  intro negative
  have zero : Decimals ['0'] := ⟨by simp, by simp⟩
  have part : ∀ c ∈ List.replicate (e.natAbs - 1) '0' ++ digits, c.isDigit = true := fun c listed =>
    (List.mem_append.mp listed).elim zeros_digit (decimals.digit c)
  have value : digitsValue (['0'] ++ (List.replicate (e.natAbs - 1) '0' ++ digits)) =
      digitsValue digits := by
    rw [← List.append_assoc, digitsValue_append, List.singleton_append, ← List.replicate_succ,
      digitsValue_zeros, zero_mul, zero_add]
  have places : (-(List.replicate (e.natAbs - 1) '0' ++ digits).length : ℤ) =
      e + 1 - digits.length := by
    rw [List.length_append, List.length_replicate]
    omega
  have read := readNumeral_part negative zero part
  rw [value, places] at read
  exact ⟨_, _, read, rfl, min_le_left _ _⟩

theorem spells_whole (after : 0 ≤ e) : Spells
    (digits.take (e.toNat + 1) ++ List.replicate (e.toNat + 1 - digits.length) '0' ++
      '.' :: (if (digits.drop (e.toNat + 1)).isEmpty then ['0'] else digits.drop (e.toNat + 1)))
    digits e := by
  have ⟨nonempty, letters⟩ := decimals
  intro negative
  by_cases short : digits.length ≤ e.toNat + 1
  -- Zeros take the places up to the point, and one the place behind it.
  · have whole : Decimals (digits ++ List.replicate (e.toNat + 1 - digits.length) '0') :=
      ⟨by simp [nonempty], fun c listed =>
        (List.mem_append.mp listed).elim (letters c) zeros_digit⟩
    have read := readNumeral_part negative whole (show ∀ c ∈ ['0'], c.isDigit = true by simp)
    rw [List.take_of_length_le short, List.drop_eq_nil_of_le short]
    refine ⟨_, _, read, ?_, min_le_right _ _⟩
    have places : e + 1 - digits.length = (e.toNat + 1 - digits.length : Nat) := by omega
    have value : digitsValue (digits ++ List.replicate (e.toNat + 1 - digits.length) '0' ++ ['0']) =
        digitsValue digits * 10 ^ (e.toNat + 1 - digits.length + 1) := by
      rw [List.append_assoc, ← List.replicate_succ', digitsValue_append, digitsValue_zeros,
        List.length_replicate, add_zero]
    rw [value, places, zpow_natCast, pow_succ]
    push_cast
    rw [List.length_singleton, Nat.cast_one, zpow_neg_one, ← mul_assoc,
      mul_inv_cancel_right₀ (by norm_num)]
  -- The point stands between two digits.
  · have whole : Decimals (digits.take (e.toNat + 1)) :=
      ⟨by simp [nonempty], fun c listed => letters c (List.mem_of_mem_take listed)⟩
    have part : ∀ c ∈ digits.drop (e.toNat + 1), c.isDigit = true := fun c listed =>
      letters c (List.mem_of_mem_drop listed)
    have more : (digits.drop (e.toNat + 1)).isEmpty = false := by
      rw [List.isEmpty_eq_false_iff, Ne, List.drop_eq_nil_iff]
      exact short
    have places : (-(digits.drop (e.toNat + 1)).length : ℤ) = e + 1 - digits.length := by
      rw [List.length_drop]
      omega
    have read := readNumeral_part negative whole part
    rw [List.take_append_drop, places] at read
    rw [more, show e.toNat + 1 - digits.length = 0 by omega, List.replicate_zero, List.append_nil]
    exact ⟨_, _, read, rfl, min_le_left _ _⟩

theorem spells_layout : Spells (layout digits e) digits e := by
  unfold layout
  split
  · exact spells_exponent decimals e
  · split
    next before => exact spells_fraction decimals e before
    next after => exact spells_whole decimals e (by omega)

end

def NumeralLetter (c : Char) : Prop :=
  c.isDigit = true ∨ c = '.' ∨ c = 'e' ∨ c = '+' ∨ c = '-'

structure Numeral (text : List Char) : Prop where
  first : ∃ d rest, text = d :: rest ∧ d.isDigit = true
  letter : ∀ c ∈ text, NumeralLetter c
  marked : '.' ∈ text ∨ 'e' ∈ text

theorem numeral_layout {digits : List Char} (decimals : Decimals digits) (e : ℤ) :
    Numeral (layout digits e) := by
  obtain ⟨d, rest, rfl⟩ := List.exists_cons_of_ne_nil decimals.nonempty
  have digit {text : List Char} (inside : ∀ c ∈ text, c.isDigit = true) :
      ∀ c ∈ text, NumeralLetter c := fun c listed => .inl (inside c listed)
  have first := decimals.digit d List.mem_cons_self
  have zeros (n : Nat) : ∀ c ∈ List.replicate n '0', NumeralLetter c := digit fun _ => zeros_digit
  have taken (n : Nat) : ∀ c ∈ (d :: rest).take n, NumeralLetter c :=
    digit fun c listed => decimals.digit c (List.mem_of_mem_take listed)
  have dropped (n : Nat) : ∀ c ∈ (d :: rest).drop n, NumeralLetter c :=
    digit fun c listed => decimals.digit c (List.mem_of_mem_drop listed)
  unfold layout
  dsimp only
  split
  · refine ⟨⟨d, _, rfl, first⟩, ?_, .inr (by simp)⟩
    rw [List.forall_mem_append, List.forall_mem_append, List.forall_mem_cons, List.forall_mem_cons]
    refine ⟨⟨taken 1, ?_⟩, by simp [NumeralLetter], ?_, digit (decimals_toDigits _).digit⟩
    · split
      · simp
      · exact List.forall_mem_cons.mpr ⟨by simp [NumeralLetter], dropped 1⟩
    · split <;> simp [NumeralLetter]
  · split
    · refine ⟨⟨'0', _, rfl, rfl⟩, ?_, .inl (by simp)⟩
      rw [List.forall_mem_cons, List.forall_mem_cons, List.forall_mem_append]
      exact ⟨.inl rfl, by simp [NumeralLetter], zeros _, digit decimals.digit⟩
    · refine ⟨⟨d, _, rfl, first⟩, ?_, .inl (by simp)⟩
      rw [List.forall_mem_append, List.forall_mem_append, List.forall_mem_cons]
      refine ⟨⟨taken _, zeros _⟩, by simp [NumeralLetter], ?_⟩
      split
      · exact digit (by simp)
      · exact dropped _

theorem unsignedText_spec {m : Nat} (finite : m < infinite) : Numeral (unsignedText m) ∧
    ∀ negative, readNumeral negative (unsignedText m) = some ⟨negative, m⟩ := by
  unfold unsignedText
  split
  next zero =>
    subst zero
    refine ⟨⟨⟨'0', _, rfl, rfl⟩, by simp [NumeralLetter], .inl (by simp)⟩, fun negative => ?_⟩
    cases negative <;> rfl
  next nonzero =>
    rw [if_neg finite.ne]
    have spelled := decimal_nearest (Nat.pos_of_ne_zero nonzero) finite
    generalize decimal m = found at *
    obtain ⟨digits, e⟩ := found
    obtain ⟨decimals, nearest, least⟩ := spelled
    refine ⟨numeral_layout decimals e, fun negative => ?_⟩
    obtain ⟨n, e', read, same, bound⟩ := spells_layout decimals e negative
    rw [← same] at nearest
    rw [read, ofDecimal_eq negative nearest finite (by omega)]

theorem toLower_of_isDigit {c : Char} (digit : c.isDigit = true) : c.toLower = c := by
  simp only [Char.isDigit, Bool.and_eq_true, decide_eq_true_eq, ge_iff_le, UInt32.le_iff_toNat_le] at digit
  refine dif_neg fun upper => ?_
  simp only [ge_iff_le, UInt32.le_iff_toNat_le] at upper
  have bounds : '9'.val.toNat = 57 ∧ 'A'.val.toNat = 65 := ⟨rfl, rfl⟩
  omega

theorem read_of_numeral {negative : Bool} {text : List Char} (numeral : Numeral text) :
    read (String.ofList (if negative then '-' :: text else text)) = readNumeral negative text := by
  obtain ⟨⟨d, rest, rfl, digit⟩, -, -⟩ := numeral
  have sign : readSign (if negative then '-' :: d :: rest else d :: rest) =
      (negative, d :: rest) := by
    cases negative with
    | true => rfl
    | false =>
      simp only [Bool.false_eq_true, if_false]
      unfold readSign
      split
      next same => cases same; cases digit
      next same => cases same; cases digit
      next => rfl
  -- A text that starts with a digit is none of the words for numbers without digits.
  have word (letters : String) (other : letters.toList.head?.any Char.isDigit = false) :
      String.ofList ((d :: rest).map Char.toLower) ≠ letters := by
    rintro rfl
    rw [String.toList_ofList, List.map_cons, toLower_of_isDigit digit] at other
    exact Bool.false_ne_true (other.symm.trans digit)
  unfold read
  rw [String.toList_ofList, sign]
  simp only [word "inf" (by decide), word "infinity" (by decide), word "nan" (by decide),
    decide_false, Bool.or_self, Bool.false_eq_true, if_false]

theorem toText_numeral {x : Double} (finite : x.isFinite = true) : Numeral (unsignedText x.magnitude) ∧
    x.toText = String.ofList
      (if x.negative then '-' :: unsignedText x.magnitude else unsignedText x.magnitude) := by
  have finite : x.magnitude < infinite := by simpa [isFinite] using finite
  have number : x.isNaN = false := by simp [isNaN, finite.le]
  rw [toText, number]
  exact ⟨(unsignedText_spec finite).1, rfl⟩

theorem read_toText {x : Double} (finite : x.isFinite = true) : read x.toText = some x := by
  have ⟨numeral, text⟩ := toText_numeral finite
  rw [text, read_of_numeral numeral]
  exact (unsignedText_spec (by simpa [isFinite] using finite)).2 x.negative

end Sluice.Double
