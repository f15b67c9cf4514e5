import Mathlib.Data.List.Induction
import Mathlib.Tactic.Basic
import Sluice.Literal
import Sluice.Proofs.Double.DecimalText

set_option autoImplicit false

namespace Sluice.Literal

/-- Digits of a base, of which each stands for as many of the next as the base says. -/
inductive Digits (base : Nat) : List Char → Nat → Prop where
  | one {c : Char} {d : Nat} (digit : digit? base c = some d) : Digits base [c] d
  | more {front : List Char} {n : Nat} {c : Char} {d : Nat} (before : Digits base front n)
      (digit : digit? base c = some d) : Digits base (front ++ [c]) (n * base + d)

inductive Sign : List Char → Int → Prop where
  | none : Sign [] 1
  | plus : Sign ['+'] 1
  | minus : Sign ['-'] (-1)

/-- The texts that an integer is written as: decimal digits after an optional sign, or hexadecimal
ones with the sign after the mark. -/
inductive Writes : List Char → Int → Prop where
  | decimal {sign digits : List Char} {unit : Int} {n : Nat} (signed : Sign sign unit)
      (number : Digits 10 digits n) : Writes (sign ++ digits) (unit * n)
  | hexadecimal {mark : Char} {sign digits : List Char} {unit : Int} {n : Nat}
      (marked : mark = 'x' ∨ mark = 'X') (signed : Sign sign unit) (number : Digits 16 digits n) :
      Writes ('0' :: mark :: (sign ++ digits)) (unit * n)

section

variable {base : Nat}

theorem readDigits_append (n : Nat) (front : List Char) (c : Char) :
    readDigits base n (front ++ [c]) =
      (readDigits base n front).bind fun m => (digit? base c).map fun d => m * base + d := by
  induction front generalizing n with
  | nil =>
    simp only [List.nil_append, readDigits, Option.bind_some]
    cases digit? base c <;> rfl
  | cons first rest ih =>
    simp only [List.cons_append, readDigits]
    cases digit? base first with
    | none => rfl
    | some d => exact ih (n * base + d)

theorem readNat_iff {text : List Char} {n : Nat} :
    readNat base text = some n ↔ Digits base text n := by
  -- Digits are read left to right, so the induction is from the right: the last digit is the one
  -- added.
  induction text using List.reverseRecOn generalizing n with
  | nil =>
    refine ⟨nofun, fun digits => ?_⟩
    generalize empty : ([] : List Char) = text at digits
    cases digits <;> simp at empty
  | append_singleton front c ih =>
    have read : readNat base (front ++ [c]) = readDigits base 0 (front ++ [c]) := by
      simp [readNat]
    rw [read, readDigits_append]
    constructor
    · intro found
      obtain ⟨m, before, found⟩ := Option.bind_eq_some_iff.mp found
      obtain ⟨d, digit, rfl⟩ := Option.map_eq_some_iff.mp found
      by_cases first : front = []
      · subst first
        cases before
        rw [Nat.zero_mul, Nat.zero_add]
        exact .one digit
      · have read : readNat base front = some m := by simpa [readNat, first] using before
        exact .more (ih.mp read) digit
    · intro digits
      generalize whole : front ++ [c] = text at digits
      cases digits with
      | one digit =>
        obtain ⟨rfl, same⟩ := List.append_inj' (show front ++ [c] = [] ++ [_] from whole) rfl
        obtain rfl := List.singleton_inj.mp same
        simp [readDigits, digit]
      | more before digit =>
        obtain ⟨rfl, same⟩ := List.append_inj' whole rfl
        obtain rfl := List.singleton_inj.mp same
        have read := ih.mpr before
        have nonempty : front ≠ [] := by
          rintro rfl
          cases read
        have inside : readDigits base 0 front = readNat base front := by simp [readNat, nonempty]
        rw [inside, read, Option.bind_some, digit, Option.map_some]

theorem Digits.head {text : List Char} {n : Nat} (digits : Digits base text n) :
    ∃ c rest d, text = c :: rest ∧ digit? base c = some d := by
  induction digits with
  | one digit => exact ⟨_, [], _, rfl, digit⟩
  | more _ _ ih =>
    obtain ⟨c, rest, d, rfl, digit⟩ := ih
    exact ⟨c, rest ++ [_], d, rfl, digit⟩

theorem digit?_of_sign : digit? base '+' = none ∧ digit? base '-' = none := by
  have other (n : Nat) : (if n < n then some n else none) = none := if_neg (Nat.lt_irrefl n)
  exact ⟨other base, other base⟩

theorem readSign_append {sign text : List Char} {unit : Int} {n : Nat} (signed : Sign sign unit)
    (digits : Digits base text n) :
    Double.readSign (sign ++ text) = (decide (unit = -1), text) := by
  cases signed with
  | plus | minus => rfl
  | none =>
    obtain ⟨c, rest, d, rfl, digit⟩ := digits.head
    unfold Double.readSign
    split
    next same =>
      cases same
      cases digit.symm.trans digit?_of_sign.2
    next same =>
      cases same
      cases digit.symm.trans digit?_of_sign.1
    next => rfl

theorem readSign_cases (text : List Char) : ∃ sign unit, Sign sign unit ∧
    Double.readSign text = (decide (unit = -1), (Double.readSign text).2) ∧
    text = sign ++ (Double.readSign text).2 := by
  unfold Double.readSign
  split
  next => exact ⟨_, _, .minus, rfl, rfl⟩
  next => exact ⟨_, _, .plus, rfl, rfl⟩
  next => exact ⟨_, _, .none, rfl, rfl⟩

theorem readInt_iff {text : List Char} {n : Int} : readInt base text = some n ↔
    Value.fits n = true ∧ ∃ sign digits unit m, Sign sign unit ∧ Digits base digits m ∧
      text = sign ++ digits ∧ n = unit * m := by
  have signed {unit : Int} {sign : List Char} (signed : Sign sign unit) (m : Nat) :
      (if decide (unit = -1) then -(m : Int) else m) = unit * m := by
    cases signed <;> simp
  have reads (digits : List Char) (unit : Int) {sign : List Char} (sign' : Sign sign unit)
      (read : Double.readSign text = (decide (unit = -1), digits)) :
      readInt base text = some n ↔ ∃ m : Nat, Digits base digits m ∧ n = unit * m ∧ Value.fits n = true := by
    simp only [readInt, read, Option.bind_eq_some_iff, readNat_iff, signed sign']
    grind
  constructor
  · intro found
    obtain ⟨sign, unit, sign', read, whole⟩ := readSign_cases text
    obtain ⟨m, digits, rfl, fits⟩ := (reads _ unit sign' read).mp found
    exact ⟨fits, sign, _, unit, m, sign', digits, whole, rfl⟩
  · rintro ⟨fits, sign, digits, unit, m, sign', number, rfl, rfl⟩
    exact (reads digits unit sign' (readSign_append sign' number)).mpr ⟨m, number, rfl, fits⟩

end

theorem Digits.letters {base : Nat} {text : List Char} {n : Nat} (digits : Digits base text n) :
    ∀ c ∈ text, ∃ d, digit? base c = some d := by
  induction digits with
  | one digit => exact fun c listed => ⟨_, List.mem_singleton.mp listed ▸ digit⟩
  | more _ digit ih =>
    intro c listed
    rcases List.mem_append.mp listed with listed | listed
    · exact ih c listed
    · exact ⟨_, List.mem_singleton.mp listed ▸ digit⟩

theorem readHex_iff {text : List Char} {n : Int} : readHex text = some n ↔
    ∃ mark rest, (mark = 'x' ∨ mark = 'X') ∧ text = '0' :: mark :: rest ∧
      readInt 16 rest = some n := by
  constructor
  · intro found
    unfold readHex at found
    split at found
    next rest => exact ⟨'x', rest, .inl rfl, rfl, found⟩
    next rest => exact ⟨'X', rest, .inr rfl, rfl, found⟩
    next => cases found
  · rintro ⟨_, rest, rfl | rfl, rfl, found⟩
    · exact found
    · exact found

theorem readInt_of_marked {mark : Char} (marked : mark = 'x' ∨ mark = 'X') (rest : List Char) :
    readInt 10 ('0' :: mark :: rest) = none := by
  have stop : digit? 10 mark = none := by rcases marked with rfl | rfl <;> rfl
  have read : readNat 10 ('0' :: mark :: rest) = none := by
    change readDigits 10 0 (mark :: rest) = none
    rw [readDigits, stop, Option.bind_none]
  change (readNat 10 ('0' :: mark :: rest)).bind _ = none
  rw [read, Option.bind_none]

theorem readWord_ne_int (text : String) (n : Int) : readWord text ≠ .int n := by
  unfold readWord
  split <;> simp

theorem convert_cases (text : String) :
    (∃ n, readInt 10 text.toList = some n ∧ convert text = .int n) ∨
    (∃ n, readInt 10 text.toList = none ∧ readHex text.toList = some n ∧ convert text = .int n) ∨
    (∃ x, readFloat text = some x ∧ convert text = .float x) ∨
    (readInt 10 text.toList = none ∧ readHex text.toList = none ∧ readFloat text = none ∧
      convert text = readWord text) := by
  unfold convert
  cases readInt 10 text.toList <;> cases readHex text.toList <;> cases readFloat text <;> simp

theorem convert_eq_int_iff {text : String} {n : Int} :
    convert text = .int n ↔ Writes text.toList n ∧ Value.fits n = true := by
  constructor
  · intro made
    rcases convert_cases text with ⟨m, read, same⟩ | ⟨m, -, read, same⟩ | ⟨x, -, same⟩ |
      ⟨-, -, -, same⟩
    · cases made.symm.trans same
      obtain ⟨fits, sign, digits, unit, m, signed, number, whole, rfl⟩ := readInt_iff.mp read
      exact ⟨whole ▸ .decimal signed number, fits⟩
    · cases made.symm.trans same
      obtain ⟨mark, rest, marked, whole, read⟩ := readHex_iff.mp read
      obtain ⟨fits, sign, digits, unit, m, signed, number, rfl, rfl⟩ := readInt_iff.mp read
      exact ⟨whole ▸ .hexadecimal marked signed number, fits⟩
    · cases made.symm.trans same
    · exact absurd (same.symm.trans made) (readWord_ne_int text n)
  · rintro ⟨writes, fits⟩
    generalize whole : text.toList = letters at writes
    cases writes with
    | decimal signed number =>
      have read := readInt_iff.mpr ⟨fits, _, _, _, _, signed, number, rfl, rfl⟩
      simp only [convert, whole, read]
    -- A hexadecimal number is tried only after it has failed as a decimal one, as it does.
    | hexadecimal marked signed number =>
      have read := readHex_iff.mpr ⟨_, _, marked, rfl,
        readInt_iff.mpr ⟨fits, _, _, _, _, signed, number, rfl, rfl⟩⟩
      simp only [convert, whole, readInt_of_marked marked, read]

theorem digit?_of_isDigit {c : Char} (digit : c.isDigit = true) :
    digit? 10 c = some (c.toNat - '0'.toNat) := by
  have bound : c.toNat - '0'.toNat < 10 := by
    have ⟨_, atMost⟩ : '0'.toNat ≤ c.toNat ∧ c.toNat ≤ '9'.toNat := by
      simpa [Char.isDigit, UInt32.le_iff_toNat_le] using digit
    have : '9'.toNat = 57 ∧ '0'.toNat = 48 := ⟨rfl, rfl⟩
    omega
  simp only [digit?, digit, if_true, bound]

theorem readDigits_ten (n : Nat) {text : List Char} (digits : ∀ c ∈ text, c.isDigit = true) :
    readDigits 10 n text = some (Nat.ofDigitChars 10 text n) := by
  induction text generalizing n with
  | nil => rfl
  | cons c rest ih =>
    rw [List.forall_mem_cons] at digits
    rw [readDigits, digit?_of_isDigit digits.1, Option.bind_some, ih _ digits.2,
      Nat.ofDigitChars_cons, mul_comm n]

theorem digits_toDigits (n : Nat) : Digits 10 (Nat.toDigits 10 n) n := by
  have ⟨nonempty, digits⟩ := Double.decimals_toDigits n
  rw [← readNat_iff, readNat, if_neg (by simp [nonempty]), readDigits_ten 0 digits,
    Nat.ofDigitChars_ten_toDigits]

theorem writes_toString (n : Int) : Writes (toString n).toList n := by
  cases n with
  | ofNat n =>
    have text : (toString (Int.ofNat n)).toList = [] ++ Nat.toDigits 10 n := by
      change n.repr.toList = _
      rw [Nat.repr_eq_ofList_toDigits, String.toList_ofList, List.nil_append]
    have := Writes.decimal .none (digits_toDigits n)
    rwa [one_mul, ← text] at this
  | negSucc n =>
    have text : (toString (Int.negSucc n)).toList = ['-'] ++ Nat.toDigits 10 (n + 1) := by
      change ("-" ++ (n + 1).repr).toList = _
      rw [Nat.repr_eq_ofList_toDigits, String.toList_append, String.toList_ofList]
      simp
    have := Writes.decimal .minus (digits_toDigits (n + 1))
    rwa [neg_one_mul, ← text] at this

section

variable {x : Double} (finite : x.isFinite = true)
include finite

theorem toText_letters : (∀ c ∈ x.toText.toList, Double.NumeralLetter c) ∧
    ('.' ∈ x.toText.toList ∨ 'e' ∈ x.toText.toList) := by
  have ⟨⟨_, letters, marked⟩, text⟩ := Double.toText_numeral finite
  rw [text, String.toList_ofList]
  split
  · exact ⟨List.forall_mem_cons.mpr ⟨by simp [Double.NumeralLetter], letters⟩,
      marked.imp (List.mem_cons_of_mem _) (List.mem_cons_of_mem _)⟩
  · exact ⟨letters, marked⟩

theorem readInt_toText : readInt 10 x.toText.toList = none := by
  rw [Option.eq_none_iff_forall_ne_some]
  intro n read
  obtain ⟨-, sign, digits, unit, m, signed, number, whole, -⟩ := readInt_iff.mp read
  -- A point or an exponent is what an integer cannot have.
  have marked := (toText_letters finite).2
  rw [whole] at marked
  have stop (c : Char) (other : c ≠ '+' ∧ c ≠ '-' ∧ digit? 10 c = none) : c ∉ sign ++ digits := by
    intro listed
    rcases List.mem_append.mp listed with listed | listed
    · cases signed <;> simp_all
    · obtain ⟨d, digit⟩ := number.letters c listed
      cases digit.symm.trans other.2.2
  exact marked.elim (stop '.' (by decide)) (stop 'e' (by decide))

theorem readHex_toText : readHex x.toText.toList = none := by
  rw [Option.eq_none_iff_forall_ne_some]
  intro n read
  obtain ⟨mark, rest, marked, whole, -⟩ := readHex_iff.mp read
  have letter := (toText_letters finite).1 mark (by rw [whole]; simp)
  rcases marked with rfl | rfl <;> revert letter <;> simp [Double.NumeralLetter]

theorem readFloat_toText : readFloat x.toText = some x := by
  have ⟨letters, marked⟩ := toText_letters finite
  have nonempty : x.toText ≠ "" := by
    intro empty
    rw [empty] at marked
    revert marked
    decide
  have numeric : x.toText.toList.all isNumeric = true := by
    rw [List.all_eq_true]
    intro c listed
    rcases letters c listed with digit | rfl | rfl | rfl | rfl
    · simp [isNumeric, digit]
    all_goals rfl
  have inside : (x.toText != "" && x.toText.toList.all isNumeric) = true := by
    rw [bne_iff_ne.mpr nonempty, numeric]
    rfl
  rw [readFloat, if_pos inside, Double.read_toText finite, Option.filter_some, if_pos finite]

theorem convert_toText : convert x.toText = .float x := by
  simp only [convert, readInt_toText finite, readHex_toText finite, readFloat_toText finite]

end

theorem isFinite_of_readFloat {text : String} {x : Double} (read : readFloat text = some x) :
    x.isFinite = true := by
  unfold readFloat at read
  split at read
  · exact (Option.filter_eq_some_iff.mp read).2
  · cases read

theorem readWord_cases (text : String) : readWord text ∈
    [.bool true, .bool false, .null, .text "", .text " ", .text text] := by
  unfold readWord
  split <;> simp

/-- Rendering a literal and reading it again changes neither its value nor its type. -/
theorem convert_render (text : String) : convert (convert text).render = convert text := by
  have whole {n : Int} (int : convert text = .int n) : convert (toString n) = .int n :=
    convert_eq_int_iff.mpr ⟨writes_toString n, (convert_eq_int_iff.mp int).2⟩
  -- Each class of literals is rendered in a way that only the same class reads.
  rcases convert_cases text with ⟨n, -, same⟩ | ⟨n, -, -, same⟩ | ⟨x, read, same⟩ | ⟨-, -, -, same⟩
  · rw [same]
    exact whole same
  · rw [same]
    exact whole same
  · rw [same]
    exact convert_toText (isFinite_of_readFloat read)
  · have word := readWord_cases text
    rw [← same] at word
    simp only [List.mem_cons, List.not_mem_nil, or_false] at word
    -- Every word is spelled like the value that it stands for, and other texts stay as they are.
    rcases word with word | word | word | word | word | word
    · rw [word]; rfl
    · rw [word]; rfl
    · rw [word]; rfl
    · rw [word]; rfl
    · rw [word]; rfl
    · rw [word]
      exact word

end Sluice.Literal
