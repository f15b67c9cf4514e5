import Mathlib.Algebra.Order.Field.Power
import Mathlib.Data.Rat.Cast.Order
import Mathlib.Tactic.FieldSimp
import Mathlib.Tactic.Linarith
import Mathlib.Tactic.Positivity
import Mathlib.Tactic.Ring
import Sluice.Double

set_option autoImplicit false

namespace Sluice.Double

/-- What a magnitude is worth. Infinity counts as the power of two that comes next. -/
def worth (magnitude : Nat) : ℚ := significand magnitude * 2 ^ exponent magnitude

def toRat (x : Double) : ℚ := if x.negative then -worth x.magnitude else worth x.magnitude

/-- Magnitudes lie in stretches of equal steps, the first of which starts at zero and is twice as
long as it would be otherwise. -/
theorem magnitude_cases (m : Nat) : ∃ k, m = k * normal + significand m ∧
    significand m < 2 * normal ∧ (k = 0 ∨ normal ≤ significand m) ∧ exponent m = k - 1074 := by
  unfold significand exponent
  split
  · exact ⟨0, by omega, by omega, .inl rfl, rfl⟩
  next large =>
    refine ⟨m / normal - 1, ?_, ?_, .inr (by omega), ?_⟩ <;> simp only [normal] at * <;> omega

theorem exponent_le_succ (m : Nat) : exponent m ≤ exponent (m + 1) := by
  unfold exponent
  split <;> split <;> simp only [normal] at * <;> omega

theorem worth_at {k q : Nat} (small : q ≤ 2 * normal) (large : k = 0 ∨ normal ≤ q) :
    worth (k * normal + q) = q * 2 ^ ((k : ℤ) - 1074) := by
  -- A significand of 54 digits carries into the next stretch, where it is worth the same.
  have whole : significand (k * normal + q) = q ∧ exponent (k * normal + q) = k - 1074 ∨
      q = 2 * normal ∧ significand (k * normal + q) = normal ∧
        exponent (k * normal + q) = (k - 1074) + 1 := by
    unfold significand exponent
    split <;> simp only [normal] at * <;> omega
  rcases whole with ⟨same, step⟩ | ⟨rfl, next, step⟩
  · rw [worth, same, step]
  · rw [worth, next, step, zpow_add_one₀ two_ne_zero]
    push_cast
    ring

theorem worth_succ (m : Nat) : worth (m + 1) = worth m + 2 ^ exponent m := by
  obtain ⟨k, whole, small, large, step⟩ := magnitude_cases m
  have next : m + 1 = k * normal + (significand m + 1) := by omega
  rw [next, worth_at (by omega) (by omega), worth, step]
  push_cast
  ring

theorem worth_strictMono : StrictMono worth := strictMono_nat_of_lt_succ fun m => by
  rw [worth_succ]
  exact lt_add_of_pos_right _ (by positivity)

@[simp] theorem worth_zero : worth 0 = 0 := by
  simp [worth, significand, normal]

theorem worth_nonneg (m : Nat) : 0 ≤ worth m := by
  unfold worth
  positivity

theorem worth_pos {m : Nat} (positive : 0 < m) : 0 < worth m := by
  rw [← worth_zero]
  exact worth_strictMono positive

theorem normal_eq : (normal : ℚ) = 2 ^ (52 : ℤ) := by
  norm_num [normal]

theorem worth_infinite : worth infinite = 2 ^ (1024 : ℤ) := by
  have place : infinite = 2046 * normal + normal := by decide
  rw [place, worth_at (by decide) (.inr le_rfl), normal_eq, ← zpow_add₀ two_ne_zero]
  norm_num only

theorem order_lt_iff (x y : Double) : x.order < y.order ↔ x.toRat < y.toRat := by
  obtain ⟨xNegative, m⟩ := x
  obtain ⟨yNegative, n⟩ := y
  have mm := worth_nonneg m
  have nn := worth_nonneg n
  cases xNegative <;> cases yNegative <;>
    simp only [order, toRat, Bool.false_eq_true, if_false, if_true, neg_lt_neg_iff, Nat.cast_lt,
      worth_strictMono.lt_iff_lt]
  · constructor <;> intro less
    · omega
    · linarith
  -- Zero is the one number that both signs have.
  · constructor <;> intro less
    · rcases Nat.eq_zero_or_pos m with rfl | positive
      · have := worth_pos (m := n) (by omega)
        linarith [worth_zero]
      · have := worth_pos positive
        linarith
    · by_contra zeros
      obtain ⟨rfl, rfl⟩ : m = 0 ∧ n = 0 := by omega
      simp at less

theorem order_eq_iff (x y : Double) : x.order = y.order ↔ x.toRat = y.toRat := by
  rw [le_antisymm_iff, le_antisymm_iff, ← not_lt, ← not_lt, ← not_lt, ← not_lt, order_lt_iff,
    order_lt_iff]

theorem zpow_of_nonneg {b : ℚ} {e : ℤ} (whole : 0 ≤ e) : b ^ e = b ^ e.toNat := by
  rw [← zpow_natCast, Int.toNat_of_nonneg whole]

theorem zpow_of_neg {b : ℚ} {e : ℤ} (part : e < 0) : b ^ e = (b ^ (-e).toNat)⁻¹ := by
  rw [← zpow_natCast, Int.toNat_of_nonneg (by omega), zpow_neg, inv_inv]

theorem toInt?_eq_some_iff (x : Double) (n : ℤ) :
    x.toInt? = some n ↔ x.isFinite = true ∧ x.toRat = n := by
  have signed (w : Nat) : (if x.negative then -(w : ℤ) else w) = n ↔
      (if x.negative then -(w : ℚ) else w) = n := by
    split <;> norm_cast
  unfold toInt?
  cases x.isFinite with
  | false => simp
  | true =>
    simp only [Bool.not_true, Bool.false_eq_true, if_false, true_and, toRat, worth, Nat.pow_eq]
    split
    next whole =>
      rw [Option.some.injEq, signed, zpow_of_nonneg whole]
      push_cast
      rfl
    next part =>
      rw [zpow_of_neg (by omega), ← div_eq_mul_inv]
      generalize (-exponent x.magnitude).toNat = places
      have scaled : (2 : ℚ) ^ places ≠ 0 := by positivity
      split
      next divides =>
        obtain ⟨w, quotient⟩ := Nat.dvd_of_mod_eq_zero divides
        rw [Option.some.injEq, signed, quotient, Nat.mul_div_cancel_left _ (by positivity)]
        push_cast
        rw [mul_div_cancel_left₀ _ scaled]
      next remains =>
        -- A remainder is left: were the value whole, the significand would be a multiple of the
        -- scale.
        simp only [reduceCtorEq, false_iff]
        intro same
        have size : (significand x.magnitude : ℚ) / 2 ^ places = n.natAbs := by
          rw [Nat.cast_natAbs, Int.cast_abs, ← same]
          split <;> simp [abs_div]
        rw [div_eq_iff scaled] at size
        have whole : significand x.magnitude = n.natAbs * 2 ^ places := by exact_mod_cast size
        rw [whole] at remains
        exact remains (Nat.mul_mod_left _ _)

structure NearestInt (q : Nat) (y : ℚ) : Prop where
  above : 2 * (q : ℚ) - 1 ≤ 2 * y
  below : 2 * y ≤ 2 * (q : ℚ) + 1
  odd : q % 2 = 1 → 2 * (q : ℚ) - 1 < 2 * y ∧ 2 * y < 2 * (q : ℚ) + 1

structure Nearest (m : Nat) (x : ℚ) : Prop where
  above : worth (m - 1) + worth m ≤ 2 * x
  below : 2 * x ≤ worth m + worth (m + 1)
  odd : m % 2 = 1 → worth (m - 1) + worth m < 2 * x ∧ 2 * x < worth m + worth (m + 1)

theorem roundDiv_cases (num den : Nat) :
    (roundDiv num den = num / den ∧ 2 * (num % den) ≤ den ∧
        (2 * (num % den) = den → roundDiv num den % 2 = 0)) ∨
      (roundDiv num den = num / den + 1 ∧ den ≤ 2 * (num % den) ∧
        (2 * (num % den) = den → roundDiv num den % 2 = 0)) := by
  unfold roundDiv
  dsimp only
  split
  · exact .inl ⟨rfl, by omega, by omega⟩
  · split
    · exact .inr ⟨rfl, by omega, by omega⟩
    · rcases Nat.mod_two_eq_zero_or_one (num / den) with even | odd
      · exact .inl ⟨by omega, by omega, by omega⟩
      · exact .inr ⟨by omega, by omega, by omega⟩

theorem roundDiv_nearest (num : Nat) {den : Nat} (positive : 0 < den) :
    NearestInt (roundDiv num den) (num / den) := by
  have scaled : (0 : ℚ) < den := by exact_mod_cast positive
  have part : ((num % den : Nat) : ℚ) < den := by exact_mod_cast Nat.mod_lt num positive
  -- Division with remainder, over the rationals: rounding compares twice the remainder with the
  -- divisor.
  have whole : (num : ℚ) = (num / den : Nat) * den + (num % den : Nat) := by
    exact_mod_cast (Nat.div_add_mod' num den).symm
  have tie (parity : roundDiv num den % 2 = 1)
      (even : 2 * (num % den) = den → roundDiv num den % 2 = 0) :
      2 * ((num % den : Nat) : ℚ) ≠ den := by
    intro same
    have := even (by exact_mod_cast same)
    omega
  have cross : 2 * ((num : ℚ) / den) = 2 * num / den := by ring
  rcases roundDiv_cases num den with ⟨same, half, even⟩ | ⟨same, half, even⟩
  · have half : 2 * ((num % den : Nat) : ℚ) ≤ den := by exact_mod_cast half
    have nonneg : (0 : ℚ) ≤ (num % den : Nat) := Nat.cast_nonneg _
    refine ⟨?_, ?_, fun parity => ⟨?_, ?_⟩⟩ <;> rw [cross, same]
    · rw [le_div_iff₀ scaled]
      linarith
    · rw [div_le_iff₀ scaled]
      linarith
    · rw [lt_div_iff₀ scaled]
      linarith
    · rw [div_lt_iff₀ scaled]
      have := lt_of_le_of_ne half (tie parity even)
      linarith
  · have half : (den : ℚ) ≤ 2 * (num % den : Nat) := by exact_mod_cast half
    refine ⟨?_, ?_, fun parity => ⟨?_, ?_⟩⟩ <;> rw [cross, same] <;> push_cast
    · rw [le_div_iff₀ scaled]
      linarith
    · rw [div_le_iff₀ scaled]
      linarith
    · rw [lt_div_iff₀ scaled]
      have := lt_of_le_of_ne half (tie parity even).symm
      linarith
    · rw [div_lt_iff₀ scaled]
      linarith

theorem Nearest.le_of_le {m n : Nat} {x y : ℚ} (first : Nearest m x) (later : Nearest n y)
    (less : x ≤ y) : m ≤ n := by
  by_contra behind
  have next : worth (n + 1) ≤ worth m := worth_strictMono.monotone (by omega)
  have previous : worth n ≤ worth (m - 1) := worth_strictMono.monotone (by omega)
  have above := first.above
  have below := later.below
  -- Both lie on the half between two neighbours, one of which is odd.
  have same : worth n = worth (m - 1) := by linarith
  have neighbours := worth_strictMono.injective same
  rcases Nat.mod_two_eq_zero_or_one m with even | odd
  · have := (later.odd (by omega)).2
    linarith
  · have := (first.odd odd).1
    linarith

theorem Nearest.unique {m n : Nat} {x : ℚ} (one : Nearest m x) (also : Nearest n x) : m = n :=
  Nat.le_antisymm (one.le_of_le also le_rfl) (also.le_of_le one le_rfl)

theorem nearest_worth (m : Nat) : Nearest m (worth m) := by
  have previous : worth (m - 1) ≤ worth m := worth_strictMono.monotone (Nat.sub_le m 1)
  have next : worth m < worth (m + 1) := worth_strictMono (Nat.lt_succ_self m)
  refine ⟨by linarith, by linarith, fun odd => ⟨?_, by linarith⟩⟩
  have : worth (m - 1) < worth m := worth_strictMono (by omega)
  linarith

theorem exponent_at {k q : Nat} (large : k = 0 ∨ normal ≤ q) :
    (k : ℤ) - 1074 ≤ exponent (k * normal + q) := by
  unfold exponent
  split <;> simp only [normal] at * <;> omega

theorem worth_before {k q : Nat} (small : q ≤ 2 * normal) (large : k = 0 ∨ normal ≤ q) :
    worth (k * normal + q - 1) ≤ (q - 1) * 2 ^ ((k : ℤ) - 1074) ∨ k = 0 ∧ q = 0 ∨
      k ≠ 0 ∧ q = normal := by
  rcases Nat.eq_zero_or_pos q with rfl | positive
  · exact .inr (.inl ⟨by simpa [normal] using large, rfl⟩)
  -- The step is only half as long before the first significand of a stretch.
  by_cases first : k ≠ 0 ∧ q = normal
  · exact .inr (.inr first)
  left
  have place : k * normal + q - 1 = k * normal + (q - 1) := by omega
  rw [place, worth_at (by omega) (by omega), Nat.cast_sub positive, Nat.cast_one]

/-- A significand that is rounded to an integer is that of the nearest magnitude, as long as it has
53 digits or belongs to the smallest magnitudes. -/
theorem NearestInt.nearest {k q : Nat} {y : ℚ} (rounded : NearestInt q y) (positive : 0 ≤ y)
    (large : k = 0 ∨ (normal : ℚ) ≤ y) (small : y < 2 * normal) :
    q ≤ 2 * normal ∧ (k = 0 ∨ normal ≤ q) ∧
      Nearest (k * normal + q) (y * 2 ^ ((k : ℤ) - 1074)) := by
  obtain ⟨above, below, odd⟩ := rounded
  have atMost : q ≤ 2 * normal := by
    have : (2 * q : ℚ) < 2 * (2 * normal) + 1 := by linarith
    have : 2 * q < 2 * (2 * normal) + 1 := by exact_mod_cast this
    omega
  have atLeast : k = 0 ∨ normal ≤ q := by
    refine large.imp_right fun large => ?_
    have : (2 * normal : ℚ) ≤ 2 * q + 1 := by linarith
    have : 2 * normal ≤ 2 * q + 1 := by exact_mod_cast this
    omega
  refine ⟨atMost, atLeast, ?_⟩
  have here := worth_at atMost atLeast
  have next := worth_succ (k * normal + q)
  have before := worth_before atMost atLeast
  have step : (2 : ℚ) ^ ((k : ℤ) - 1074) ≤ 2 ^ exponent (k * normal + q) :=
    zpow_le_zpow_right₀ one_le_two (exponent_at atLeast)
  have unit : (0 : ℚ) < 2 ^ ((k : ℤ) - 1074) := by positivity
  have parity : (k * normal + q) % 2 = q % 2 := by
    simp only [normal]
    omega
  generalize (2 : ℚ) ^ ((k : ℤ) - 1074) = u at *
  have above' := mul_le_mul_of_nonneg_right above unit.le
  have below' := mul_le_mul_of_nonneg_right below unit.le
  refine ⟨?_, by linarith, fun odd' => ⟨?_, ?_⟩⟩
  -- Below the first of a stretch halfway is nearer, but there the number is not less than it.
  · rcases before with before | ⟨rfl, rfl⟩ | ⟨later, rfl⟩
    · linarith
    · have := mul_nonneg positive unit.le
      simpa using this
    · have first := mul_le_mul_of_nonneg_right (large.resolve_left later) unit.le
      have := worth_strictMono.monotone (Nat.sub_le (k * normal + normal) 1)
      linarith
  · rcases before with before | ⟨rfl, rfl⟩ | ⟨later, rfl⟩
    · have := mul_lt_mul_of_pos_right (odd (parity ▸ odd')).1 unit
      linarith
    · simp at odd'
    · rw [parity] at odd'
      simp [normal] at odd'
  · have := mul_lt_mul_of_pos_right (odd (parity ▸ odd')).2 unit
    linarith

theorem pow_le_ratio_iff (num : Nat) {den : Nat} (positive : 0 < den) (l : ℤ) :
    (if l < 0 then den ≤ num * Nat.pow 2 (-l).toNat else den * Nat.pow 2 l.toNat ≤ num) ↔
      (2 : ℚ) ^ l ≤ num / den := by
  have scaled : (0 : ℚ) < den := by exact_mod_cast positive
  rw [le_div_iff₀ scaled]
  split
  next part =>
    rw [zpow_of_neg part, inv_mul_le_iff₀ (by positivity), Nat.pow_eq, mul_comm]
    norm_cast
  next whole =>
    rw [zpow_of_nonneg (by omega), Nat.pow_eq, mul_comm]
    norm_cast

theorem two_zpow_log2_le {n : Nat} (nonzero : n ≠ 0) : (2 : ℚ) ^ (n.log2 : ℤ) ≤ n := by
  exact_mod_cast Nat.log2_self_le nonzero

theorem lt_two_zpow_log2 (n : Nat) : (n : ℚ) < 2 ^ ((n.log2 : ℤ) + 1) := by
  exact_mod_cast Nat.lt_log2_self (n := n)

theorem ratio_bounds {num den : Nat} (nonzero : num ≠ 0) (positive : 0 < den) :
    (2 : ℚ) ^ ((num.log2 : ℤ) - den.log2 - 1) ≤ num / den ∧
      (num : ℚ) / den < 2 ^ ((num.log2 : ℤ) - den.log2 + 1) := by
  have scaled : (0 : ℚ) < den := by exact_mod_cast positive
  have denAtLeast := two_zpow_log2_le positive.ne'
  have denBelow := lt_two_zpow_log2 den
  rw [le_div_iff₀ scaled, div_lt_iff₀ scaled]
  constructor
  · calc (2 : ℚ) ^ ((num.log2 : ℤ) - den.log2 - 1) * den
        ≤ 2 ^ ((num.log2 : ℤ) - den.log2 - 1) * 2 ^ ((den.log2 : ℤ) + 1) := by gcongr
      _ = 2 ^ (num.log2 : ℤ) := by
        rw [← zpow_add₀ two_ne_zero]
        congr 1
        omega
      _ ≤ num := two_zpow_log2_le nonzero
  · calc (num : ℚ) < 2 ^ ((num.log2 : ℤ) + 1) := lt_two_zpow_log2 num
      _ = 2 ^ ((num.log2 : ℤ) - den.log2 + 1) * 2 ^ (den.log2 : ℤ) := by
        rw [← zpow_add₀ two_ne_zero]
        congr 1
        omega
      _ ≤ 2 ^ ((num.log2 : ℤ) - den.log2 + 1) * den := by gcongr

theorem scale_cases {num den : Nat} (nonzero : num ≠ 0) (positive : 0 < den) :
    ∃ l : ℤ, scale num den = max (-1074) (l - 52) ∧ (2 : ℚ) ^ l ≤ num / den ∧
      (num : ℚ) / den < 2 ^ (l + 1) := by
  have ⟨above, below⟩ := ratio_bounds nonzero positive
  have reaches := pow_le_ratio_iff num positive ((num.log2 : ℤ) - den.log2)
  unfold scale
  generalize (num.log2 : ℤ) - den.log2 = l at *
  dsimp only
  -- The lengths leave two exponents to choose from, and one comparison decides.
  by_cases reached : (2 : ℚ) ^ l ≤ num / den
  · rw [if_pos (reaches.mpr reached)]
    exact ⟨l, rfl, reached, below⟩
  · rw [if_neg fun holds => reached (reaches.mp holds)]
    refine ⟨l - 1, by omega, above, ?_⟩
    rw [Int.sub_add_cancel]
    exact lt_of_not_ge reached

theorem scale_bounds {num den : Nat} (nonzero : num ≠ 0) (positive : 0 < den) :
    -1074 ≤ scale num den ∧ (num : ℚ) / den < 2 * normal * 2 ^ scale num den ∧
      (scale num den = -1074 ∨ normal * (2 : ℚ) ^ scale num den ≤ num / den) := by
  obtain ⟨l, chosen, above, below⟩ := scale_cases nonzero positive
  have grows {a b : ℤ} (le : a ≤ b) : (2 : ℚ) ^ a ≤ 2 ^ b := zpow_le_zpow_right₀ one_le_two le
  refine ⟨by omega, ?_, ?_⟩
  · calc (num : ℚ) / den < 2 ^ (l + 1) := below
      _ ≤ 2 ^ (1 + 52 + scale num den) := grows (by omega)
      _ = 2 * normal * 2 ^ scale num den := by
        rw [zpow_add₀ two_ne_zero, zpow_add₀ two_ne_zero, normal_eq, zpow_one]
  · by_cases smallest : scale num den = -1074
    · exact .inl smallest
    · right
      calc (normal : ℚ) * 2 ^ scale num den = 2 ^ (52 + scale num den) := by
            rw [zpow_add₀ two_ne_zero, normal_eq]
        _ ≤ 2 ^ l := grows (by omega)
        _ ≤ num / den := above

def roundAt (num den : Nat) (e : Int) : Nat :=
  if e < 0 then roundDiv (num * Nat.pow 2 (-e).toNat) den
  else roundDiv num (den * Nat.pow 2 e.toNat)

theorem roundAt_nearest (num : Nat) {den : Nat} (positive : 0 < den) (e : ℤ) :
    NearestInt (roundAt num den e) (num / den / 2 ^ e) := by
  unfold roundAt
  split
  next part =>
    have nearest := roundDiv_nearest (num * Nat.pow 2 (-e).toNat) positive
    have same : ((num * Nat.pow 2 (-e).toNat : Nat) : ℚ) / den = num / den / 2 ^ e := by
      rw [zpow_of_neg part, Nat.pow_eq]
      push_cast
      field_simp
    rwa [same] at nearest
  next whole =>
    have scaled : 0 < den * Nat.pow 2 e.toNat := Nat.mul_pos positive (Nat.pow_pos (by decide))
    have nearest := roundDiv_nearest num scaled
    have same : (num : ℚ) / (den * Nat.pow 2 e.toNat : Nat) = num / den / 2 ^ e := by
      rw [zpow_of_nonneg (by omega), Nat.pow_eq]
      push_cast
      rw [div_div]
    rwa [same] at nearest

theorem ofRatio_of_ne_zero (negative : Bool) {num : Nat} (nonzero : num ≠ 0) (den : Nat) :
    ofRatio negative num den = ⟨negative, min infinite
      ((scale num den + 1074).toNat * normal + roundAt num den (scale num den))⟩ := by
  rw [ofRatio, if_neg nonzero]
  rfl

theorem roundAt_place {num den : Nat} (nonzero : num ≠ 0) (positive : 0 < den) :
    roundAt num den (scale num den) ≤ 2 * normal ∧
      ((scale num den + 1074).toNat = 0 ∨ normal ≤ roundAt num den (scale num den)) ∧
      Nearest ((scale num den + 1074).toNat * normal + roundAt num den (scale num den))
        (num / den) := by
  have ⟨smallest, small, large⟩ := scale_bounds nonzero positive
  have unit : (0 : ℚ) < 2 ^ scale num den := by positivity
  have place : ((scale num den + 1074).toNat : ℤ) - 1074 = scale num den := by omega
  have nearest := (roundAt_nearest num positive (scale num den)).nearest
    (k := (scale num den + 1074).toNat) (by positivity)
    (large.imp (fun least => by rw [least]; rfl) fun large => by rwa [le_div_iff₀ unit])
    (by rwa [div_lt_iff₀ unit])
  rwa [place, div_mul_cancel₀ _ unit.ne'] at nearest

theorem ofRatio_nearest (negative : Bool) (num : Nat) {den : Nat} (positive : 0 < den) :
    ∃ m, ofRatio negative num den = ⟨negative, min infinite m⟩ ∧ Nearest m (num / den) := by
  by_cases nonzero : num = 0
  · refine ⟨0, by rw [ofRatio, if_pos nonzero, Nat.min_zero], ?_⟩
    rw [nonzero, Nat.cast_zero, zero_div, ← worth_zero]
    exact nearest_worth 0
  · exact ⟨_, ofRatio_of_ne_zero negative nonzero den, (roundAt_place nonzero positive).2.2⟩

theorem ofRatio_eq (negative : Bool) {num den m : Nat} (positive : 0 < den)
    (finite : m ≤ infinite) (nearest : Nearest m (num / den)) :
    ofRatio negative num den = ⟨negative, m⟩ := by
  obtain ⟨m', rounded, nearest'⟩ := ofRatio_nearest negative num positive
  obtain rfl := nearest.unique nearest'
  rw [rounded, Nat.min_eq_right finite]

def lastPlace (n : Int) : Nat := 2 ^ (n.natAbs.log2 - 52)

def roundInt (n : Int) : Int := n.sign * (roundDiv n.natAbs (lastPlace n) * lastPlace n : Nat)

theorem roundDiv_mul (q : Nat) {den : Nat} (positive : 0 < den) : roundDiv (q * den) den = q := by
  simp [roundDiv, Nat.mul_div_cancel q positive, positive]

theorem scale_one {n : Nat} (nonzero : n ≠ 0) : scale n 1 = max (-1074) ((n.log2 : ℤ) - 52) := by
  have length : ((1 : Nat).log2 : ℤ) = 0 := rfl
  have reaches : (2 : ℚ) ^ (n.log2 : ℤ) ≤ n / (1 : Nat) := by
    rw [Nat.cast_one, div_one]
    exact two_zpow_log2_le nonzero
  unfold scale
  dsimp only
  rw [length, Int.sub_zero, if_pos ((pow_le_ratio_iff n Nat.one_pos _).mpr reaches)]

theorem roundAt_one (n : Nat) : (roundAt n 1 ((n.log2 : ℤ) - 52) : ℚ) * 2 ^ ((n.log2 : ℤ) - 52) =
    (roundDiv n (2 ^ (n.log2 - 52)) * 2 ^ (n.log2 - 52) : Nat) := by
  unfold roundAt
  split
  -- All digits are kept.
  next short =>
    have exact := roundDiv_mul (n * 2 ^ (52 - n.log2)) Nat.one_pos
    have exact' := roundDiv_mul n Nat.one_pos
    rw [Nat.mul_one] at exact exact'
    have places : (-((n.log2 : ℤ) - 52)).toNat = 52 - n.log2 := by omega
    have none : n.log2 - 52 = 0 := by omega
    rw [zpow_of_neg short, Nat.pow_eq, places, none, pow_zero, exact, exact', Nat.mul_one]
    push_cast
    field_simp
  next long =>
    have places : ((n.log2 : ℤ) - 52).toNat = n.log2 - 52 := by omega
    rw [zpow_of_nonneg (by omega), Nat.pow_eq, places, Nat.one_mul]
    push_cast
    rfl

theorem ofInt_toRat {n : Int} (large : n.natAbs.log2 < 1023) :
    (ofInt n).isFinite = true ∧ (ofInt n).toRat = roundInt n := by
  by_cases nonzero : n.natAbs = 0
  · obtain rfl : n = 0 := by omega
    exact ⟨by decide, by simp [ofInt, ofRatio, toRat, roundInt]⟩
  have ⟨atMost, atLeast, _⟩ := roundAt_place nonzero Nat.one_pos
  have worth := worth_at atMost atLeast
  have rounded := ofRatio_of_ne_zero (decide (n < 0)) nonzero 1
  have chosen : scale n.natAbs 1 = (n.natAbs.log2 : ℤ) - 52 := by
    rw [scale_one nonzero]
    omega
  have place : (((n.natAbs.log2 : ℤ) - 52 + 1074).toNat : ℤ) - 1074 = (n.natAbs.log2 : ℤ) - 52 := by
    omega
  rw [chosen] at atMost worth rounded
  rw [place, roundAt_one] at worth
  have finite : ((n.natAbs.log2 : ℤ) - 52 + 1074).toNat * normal +
      roundAt n.natAbs 1 ((n.natAbs.log2 : ℤ) - 52) < infinite := by
    simp only [infinite, normal] at *
    omega
  rw [Nat.min_eq_right finite.le] at rounded
  rw [ofInt, rounded]
  refine ⟨decide_eq_true finite, ?_⟩
  rw [toRat, worth, roundInt, lastPlace]
  rcases lt_or_gt_of_ne (show n ≠ 0 by omega) with negative | positive
  · rw [if_pos (decide_eq_true negative), Int.sign_eq_neg_one_of_neg negative]
    push_cast
    ring
  · rw [if_neg (by simpa using positive.le), Int.sign_eq_one_of_pos positive]
    push_cast
    ring

theorem ofInt_order_mono {a b : Int} (less : a ≤ b) : (ofInt a).order ≤ (ofInt b).order := by
  obtain ⟨m, left, nearest⟩ := ofRatio_nearest (decide (a < 0)) a.natAbs Nat.one_pos
  obtain ⟨m', right, nearest'⟩ := ofRatio_nearest (decide (b < 0)) b.natAbs Nat.one_pos
  rw [Nat.cast_one, div_one] at nearest nearest'
  have forward : a.natAbs ≤ b.natAbs → m ≤ m' := fun le =>
    nearest.le_of_le nearest' (by exact_mod_cast le)
  have back : b.natAbs ≤ a.natAbs → m' ≤ m := fun le =>
    nearest'.le_of_le nearest (by exact_mod_cast le)
  rw [ofInt, ofInt, left, right]
  simp only [order, decide_eq_true_eq]
  split <;> split <;> omega

theorem roundInt_mono {a b : Int} (left : a.natAbs.log2 < 1023) (right : b.natAbs.log2 < 1023)
    (less : a ≤ b) : roundInt a ≤ roundInt b := by
  have kept := ofInt_order_mono less
  rw [← not_lt, order_lt_iff, not_lt, (ofInt_toRat left).2, (ofInt_toRat right).2] at kept
  exact_mod_cast kept

theorem roundInt_of_lastPlace_one {n : Int} (all : lastPlace n = 1) : roundInt n = n := by
  have exact := roundDiv_mul n.natAbs Nat.one_pos
  rw [Nat.mul_one] at exact
  rw [roundInt, all, Nat.mul_one, exact, Int.sign_mul_natAbs]

theorem roundInt_of_small {n : Int} (small : n.natAbs < 2 ^ 53) : roundInt n = n := by
  refine roundInt_of_lastPlace_one ?_
  rw [lastPlace]
  by_cases nonzero : n.natAbs = 0
  · rw [nonzero]
    rfl
  · have := (Nat.log2_lt nonzero).mpr small
    rw [show n.natAbs.log2 - 52 = 0 by omega, pow_zero]

theorem roundInt_error (n : Int) : 2 * (roundInt n - n).natAbs ≤ lastPlace n := by
  have positive : 0 < lastPlace n := Nat.pow_pos (by decide)
  have bound : 2 * (((roundDiv n.natAbs (lastPlace n) * lastPlace n : Nat) : Int) -
      n.natAbs).natAbs ≤ lastPlace n := by
    have whole := Nat.div_add_mod' n.natAbs (lastPlace n)
    rcases roundDiv_cases n.natAbs (lastPlace n) with ⟨same, half, -⟩ | ⟨same, half, -⟩
    · rw [same]
      omega
    · have part := Nat.mod_lt n.natAbs positive
      rw [same, Nat.add_one_mul (n.natAbs / lastPlace n)]
      omega
  rw [roundInt]
  generalize ((roundDiv n.natAbs (lastPlace n) * lastPlace n : Nat) : Int) = r at *
  rcases lt_trichotomy n 0 with negative | rfl | positive
  · rw [Int.sign_eq_neg_one_of_neg negative]
    omega
  · rw [Int.sign_zero]
    omega
  · rw [Int.sign_eq_one_of_pos positive]
    omega

theorem lastPlace_le {n : Int} (short : n.natAbs.log2 < 64) : lastPlace n ≤ 2 ^ 11 :=
  Nat.pow_le_pow_right (by decide) (by omega)

theorem roundInt_lt {a b : Int} (left : a.natAbs.log2 < 64) (right : b.natAbs.log2 < 64)
    (less : a < b) (apart : a.natAbs < 2 ^ 53 ∨ b.natAbs < 2 ^ 53 ∨ 2 ^ 11 < (a - b).natAbs) :
    roundInt a < roundInt b := by
  -- Rounding leaves 2 ^ 53 where it is, so that it still stands between the two. Integers that are
  -- far apart are each moved by half of 2 ^ 11 at most.
  rcases apart with small | small | far
  · rw [roundInt_of_small small]
    by_cases also : b.natAbs < 2 ^ 53
    · rwa [roundInt_of_small also]
    · have bound := roundInt_mono (a := 2 ^ 53) (b := b) (by decide) (by omega) (by omega)
      rw [show roundInt (2 ^ 53) = 2 ^ 53 by decide] at bound
      omega
  · rw [roundInt_of_small small]
    by_cases also : a.natAbs < 2 ^ 53
    · rwa [roundInt_of_small also]
    · have bound := roundInt_mono (a := a) (b := -2 ^ 53) (by omega) (by decide) (by omega)
      rw [show roundInt (-2 ^ 53) = -2 ^ 53 by decide] at bound
      omega
  · have := roundInt_error a
    have := roundInt_error b
    have := lastPlace_le left
    have := lastPlace_le right
    omega

theorem lt_of_roundInt_lt {a b : Int} (left : a.natAbs.log2 < 64) (right : b.natAbs.log2 < 64)
    (less : roundInt a < roundInt b) : a < b := by
  by_contra behind
  have := roundInt_mono (a := b) (b := a) (by omega) (by omega) (by omega)
  omega

theorem isNaN_of_isFinite {x : Double} (finite : x.isFinite = true) : x.isNaN = false := by
  simp only [isFinite, isNaN, decide_eq_true_eq, decide_eq_false_iff_not] at *
  omega

theorem ofInt_equal {a b : Int} (left : a.natAbs.log2 < 1023) (right : b.natAbs.log2 < 1023) :
    (ofInt a).equal (ofInt b) = decide (roundInt a = roundInt b) := by
  have ⟨finite, same⟩ := ofInt_toRat left
  have ⟨finite', same'⟩ := ofInt_toRat right
  simp [equal, Bool.beq_eq_decide_eq, order_eq_iff, same, same', isNaN_of_isFinite, finite, finite']

theorem ofInt_less {a b : Int} (left : a.natAbs.log2 < 1023) (right : b.natAbs.log2 < 1023) :
    (ofInt a).less (ofInt b) = decide (roundInt a < roundInt b) := by
  have ⟨finite, same⟩ := ofInt_toRat left
  have ⟨finite', same'⟩ := ofInt_toRat right
  simp [less, order_lt_iff, same, same', isNaN_of_isFinite, finite, finite']

theorem ofInt_rank {n : Int} (short : n.natAbs.log2 < 64) :
    (n < 0 → (ofInt n).order < 0 ∧ (ofInt n).rank = (ofInt n).order - 1) ∧
      (0 ≤ n → 0 ≤ (ofInt n).order ∧ (ofInt n).rank = (ofInt n).order) := by
  obtain ⟨m, shape, -⟩ := ofRatio_nearest (decide (n < 0)) n.natAbs Nat.one_pos
  change ofInt n = _ at shape
  constructor
  · intro negative
    have less := roundInt_lt (b := 0) short (by decide) negative (.inr (.inl (by decide)))
    have below : (ofInt n).order < (ofInt 0).order := by
      rw [order_lt_iff, (ofInt_toRat (n := n) (by omega)).2, (ofInt_toRat (n := 0) (by decide)).2]
      exact_mod_cast less
    have zero : (ofInt 0).order = 0 := by decide
    exact ⟨by omega, by simp [shape, rank, order, negative]⟩
  · intro nonnegative
    simp [shape, rank, order, Int.not_lt.mpr nonnegative]

section

variable {a b : Int} (left : a.natAbs.log2 < 64) (right : b.natAbs.log2 < 64)

include left right

theorem ofInt_rank_lt : (ofInt a).rank < (ofInt b).rank ↔ roundInt a < roundInt b := by
  have ⟨_, same⟩ := ofInt_toRat (n := a) (by omega)
  have ⟨_, same'⟩ := ofInt_toRat (n := b) (by omega)
  have ordered : (ofInt a).order < (ofInt b).order ↔ roundInt a < roundInt b := by
    simp [order_lt_iff, same, same']
  have ⟨below, above⟩ := ofInt_rank left
  have ⟨below', above'⟩ := ofInt_rank right
  rw [← ordered]
  omega

theorem ofInt_rank_eq : (ofInt a).rank = (ofInt b).rank ↔ roundInt a = roundInt b := by
  have less := ofInt_rank_lt left right
  have more := ofInt_rank_lt right left
  omega

end

end Sluice.Double
