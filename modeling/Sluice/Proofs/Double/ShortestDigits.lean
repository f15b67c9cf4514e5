import Mathlib.Tactic.LinearCombination
import Sluice.Double.Read
import Sluice.Double.Shortest
import Sluice.Proofs.Double.Nearest

set_option autoImplicit false

namespace Sluice.Double

structure Bracket.Measures (b : Bracket) (m : Nat) (step : ℚ) : Prop where
  den : 0 < b.den
  low : 2 * (b.low : ℚ) * step = (worth (m - 1) + worth m) * b.den
  value : (b.value : ℚ) * step = worth m * b.den
  high : 2 * (b.high : ℚ) * step = (worth m + worth (m + 1)) * b.den

theorem worth_scaled {m n : Nat} (above : m ≤ n) :
    ∃ half, significand n * Nat.pow 2 (exponent n - (exponent m - 1)).toNat = 2 * half ∧
      worth n = 2 * half * 2 ^ (exponent m - 1) := by
  have grows : exponent m ≤ exponent n := by
    induction n, above using Nat.le_induction with
    | base => exact le_rfl
    | succ n _ ih => exact ih.trans (exponent_le_succ n)
  -- The unit is half a step of the lower magnitude, so that halfway is a whole number of units.
  have places : (exponent n - (exponent m - 1)).toNat = (exponent n - exponent m).toNat + 1 := by
    omega
  refine ⟨significand n * 2 ^ (exponent n - exponent m).toNat, ?_, ?_⟩
  · rw [places, Nat.pow_eq, pow_succ]
    ring
  · have step : (2 : ℚ) ^ exponent n =
        2 ^ (exponent n - exponent m).toNat * 2 * 2 ^ (exponent m - 1) := by
      rw [← zpow_of_nonneg (by omega), ← zpow_add_one₀ two_ne_zero, ← zpow_add₀ two_ne_zero]
      congr 1
      omega
    rw [worth, step]
    push_cast
    ring

theorem pow_toNat {base : Nat} (positive : 0 < base) (e : ℤ) :
    ((Nat.pow base e.toNat : Nat) : ℚ) = (base : ℚ) ^ e * (Nat.pow base (-e).toNat : Nat) := by
  have nonzero : (base : ℚ) ≠ 0 := by exact_mod_cast positive.ne'
  rw [Nat.pow_eq, Nat.pow_eq]
  push_cast
  rcases le_or_gt 0 e with whole | part
  · rw [zpow_of_nonneg whole, show (-e).toNat = 0 by omega, pow_zero, mul_one]
  · rw [zpow_of_neg part, show e.toNat = 0 by omega, pow_zero, inv_mul_cancel₀ (by positivity)]

theorem bracket_measures {m : Nat} (positive : 0 < m) : (bracket m).Measures m 1 := by
  obtain ⟨below, low, lowWorth⟩ := worth_scaled (m := m - 1) (n := m - 1) le_rfl
  obtain ⟨here, value, valueWorth⟩ := worth_scaled (m := m - 1) (n := m) (by omega)
  obtain ⟨above, high, highWorth⟩ := worth_scaled (m := m - 1) (n := m + 1) (by omega)
  have up := pow_toNat two_pos (exponent (m - 1) - 1)
  refine ⟨Nat.pow_pos (by decide), ?_, ?_, ?_⟩
  · simp only [bracket, low, value]
    rw [← Nat.mul_add, Nat.mul_div_cancel_left _ two_pos, Nat.cast_mul, up, lowWorth, valueWorth]
    push_cast
    ring
  · simp only [bracket, value]
    rw [Nat.cast_mul, up, valueWorth]
    push_cast
    ring
  · simp only [bracket, high, value]
    rw [← Nat.mul_add, Nat.mul_div_cancel_left _ two_pos, Nat.cast_mul, up, highWorth, valueWorth]
    push_cast
    ring

namespace Bracket

variable {b : Bracket} {m : Nat}

theorem Measures.inSteps (measures : b.Measures m 1) (k : ℤ) : (b.inSteps k).Measures m (10 ^ k) := by
  have up := pow_toNat (show 0 < 10 by decide) k
  obtain ⟨den, low, value, high⟩ := measures
  refine ⟨Nat.mul_pos den (Nat.pow_pos (by decide)), ?_, ?_, ?_⟩ <;>
    simp only [Bracket.inSteps, Nat.cast_mul, up, Nat.cast_ofNat]
  · linear_combination (Nat.pow 10 (-k).toNat : Nat) * (10 : ℚ) ^ k * low
  · linear_combination (Nat.pow 10 (-k).toNat : Nat) * (10 : ℚ) ^ k * value
  · linear_combination (Nat.pow 10 (-k).toNat : Nat) * (10 : ℚ) ^ k * high

theorem end_le_iff {x n den : Nat} {w step : ℚ} (positive : 0 < step) (scaled : 0 < den)
    (measure : 2 * (x : ℚ) * step = w * den) :
    (x ≤ n * den ↔ w ≤ 2 * (n * step)) ∧ (n * den ≤ x ↔ 2 * (n * step) ≤ w) := by
  have scaled : (0 : ℚ) < den := by exact_mod_cast scaled
  have unit : (0 : ℚ) < 2 * step := by positivity
  have size : (x : ℚ) * (2 * step) = w * den := by linarith
  have steps : ((n * den : Nat) : ℚ) * (2 * step) = 2 * (n * step) * den := by
    push_cast
    ring
  constructor <;>
    rw [← Nat.cast_le (α := ℚ), ← mul_le_mul_iff_left₀ unit, size, steps,
      mul_le_mul_iff_left₀ scaled]

theorem Measures.holds_iff {step : ℚ} (measures : b.Measures m step) (positive : 0 < step) (n : Nat) :
    b.holds (m % 2 = 0) n = true ↔ Nearest m (n * step) := by
  have ⟨lowLe, leLow⟩ := end_le_iff (n := n) positive measures.den measures.low
  have ⟨highLe, leHigh⟩ := end_le_iff (n := n) positive measures.den measures.high
  by_cases even : m % 2 = 0
  · simp only [holds, even, decide_true, if_true, Bool.and_eq_true, decide_eq_true_eq, lowLe, leHigh]
    exact ⟨fun ⟨above, below⟩ => ⟨above, below, fun odd => by omega⟩,
      fun nearest => ⟨nearest.above, nearest.below⟩⟩
  · simp only [holds, even, decide_false, Bool.false_eq_true, if_false, Bool.and_eq_true,
      decide_eq_true_eq, ← not_le, leLow, highLe]
    exact ⟨fun ⟨above, below⟩ => ⟨(not_le.mp above).le, (not_le.mp below).le, fun _ =>
        ⟨not_le.mp above, not_le.mp below⟩⟩,
      fun nearest => ⟨not_le.mpr (nearest.odd (by omega)).1, not_le.mpr (nearest.odd (by omega)).2⟩⟩

theorem holds_of_nearest? {ends : Bool} {n : Nat} (found : b.nearest? ends = some n) :
    b.holds ends n = true := by
  unfold nearest? at found
  dsimp only at found
  split at found <;> cases found
  next here next => split <;> assumption
  next here _ => exact here
  next _ next => exact next

theorem holds_of_nearest?_none {ends : Bool} (found : b.nearest? ends = none) :
    b.holds ends (b.value / b.den) = false ∧ b.holds ends (b.value / b.den + 1) = false := by
  unfold nearest? at found
  dsimp only at found
  split at found <;> cases found
  next here next => exact ⟨here, next⟩

theorem Measures.floor {step : ℚ} (measures : b.Measures m step) (positive : 0 < step) :
    (b.value / b.den : Nat) * step ≤ worth m ∧ worth m < ((b.value / b.den : Nat) + 1) * step := by
  have scaled : (0 : ℚ) < b.den := by exact_mod_cast measures.den
  have down : ((b.value / b.den : Nat) : ℚ) * b.den ≤ b.value := by
    exact_mod_cast Nat.div_mul_le_self b.value b.den
  have up : (b.value : ℚ) < ((b.value / b.den : Nat) + 1) * b.den := by
    rw [mul_comm]
    exact_mod_cast Nat.lt_mul_div_succ b.value measures.den
  rw [← mul_le_mul_iff_left₀ scaled, ← mul_lt_mul_iff_left₀ scaled, ← measures.value,
    mul_right_comm, mul_right_comm _ step]
  exact ⟨mul_le_mul_of_nonneg_right down positive.le, mul_lt_mul_of_pos_right up positive⟩

theorem Measures.nearest?_ne_none {step : ℚ} (measures : b.Measures m step) (positive : 0 < step)
    (above : 0 < m) (fine : step < 2 ^ exponent (m - 1)) : b.nearest? (m % 2 = 0) ≠ none := by
  intro missing
  have ⟨here, next⟩ := holds_of_nearest?_none missing
  have ⟨down, up⟩ := measures.floor positive
  have lower := worth_succ (m - 1)
  have upper := worth_succ m
  have grows : (2 : ℚ) ^ exponent (m - 1) ≤ 2 ^ exponent m := by
    have := exponent_le_succ (m - 1)
    rw [Nat.sub_add_cancel above] at this
    exact zpow_le_zpow_right₀ one_le_two this
  rw [Nat.sub_add_cancel above] at lower
  -- The steps on both sides of the value cannot both be beyond halfway to its neighbours.
  by_cases near : worth (m - 1) + worth m < 2 * ((b.value / b.den : Nat) * step)
  · refine Bool.false_ne_true (here.symm.trans ((measures.holds_iff positive _).mpr ?_))
    exact ⟨near.le, by linarith, fun _ => ⟨near, by linarith⟩⟩
  · refine Bool.false_ne_true (next.symm.trans ((measures.holds_iff positive _).mpr ?_))
    push_cast
    exact ⟨by linarith, by linarith, fun _ => ⟨by linarith, by linarith⟩⟩

theorem reaches_iff (measures : b.Measures m 1) (p : ℤ) :
    b.den * Nat.pow 10 p.toNat ≤ b.value * Nat.pow 10 (-p).toNat ↔ (10 : ℚ) ^ p ≤ worth m := by
  have scaled : (0 : ℚ) < b.den := by exact_mod_cast measures.den
  have places : (0 : ℚ) < (Nat.pow 10 (-p).toNat : Nat) := by
    exact_mod_cast Nat.pow_pos (show 0 < 10 by decide)
  have value := measures.value
  rw [mul_one] at value
  rw [← Nat.cast_le (α := ℚ), Nat.cast_mul, Nat.cast_mul, value, pow_toNat (show 0 < 10 by decide),
    ← mul_assoc, mul_le_mul_iff_left₀ places, mul_comm, mul_le_mul_iff_left₀ scaled]
  rfl

end Bracket

theorem zpow_le_of_approximation {l p q : ℤ} {n : Nat} (positive : n ≠ 0)
    (near : ((10 : ℚ) ^ n) ^ p ≤ (2 ^ l) ^ p) (le : l * p ≤ n * q) : (10 : ℚ) ^ p ≤ 2 ^ q := by
  rw [← pow_le_pow_iff_left₀ (by positivity) (by positivity) positive]
  calc ((10 : ℚ) ^ p) ^ n = (10 ^ n) ^ p := by
        rw [← zpow_natCast, ← zpow_natCast, zpow_comm]
    _ ≤ (2 ^ l) ^ p := near
    _ = 2 ^ (l * p) := by rw [← zpow_mul]
    _ ≤ 2 ^ (n * q) := zpow_le_zpow_right₀ one_le_two le
    _ = (2 ^ q) ^ n := by rw [← zpow_natCast, ← zpow_mul, mul_comm]

theorem ten_zpow_le {p q : ℤ} (large : 196 * p ≤ 59 * q) (small : 93 * p ≤ 28 * q) :
    (10 : ℚ) ^ p ≤ 2 ^ q := by
  rcases le_or_gt 0 p with whole | part
  · refine zpow_le_of_approximation (l := 196) (n := 59) (by decide) ?_ large
    exact zpow_le_zpow_left₀ whole (by positivity) (by norm_num)
  · refine zpow_le_of_approximation (l := 93) (n := 28) (by decide) ?_ small
    rw [← inv_le_inv₀ (by positivity) (by positivity), ← zpow_neg, ← zpow_neg]
    exact zpow_le_zpow_left₀ (by omega) (by positivity) (by norm_num)

theorem two_zpow_le {p q : ℤ} (large : 59 * q ≤ 196 * p) (small : 28 * q ≤ 93 * p) :
    (2 : ℚ) ^ q ≤ 10 ^ p := by
  have inverse := ten_zpow_le (p := -p) (q := -q) (by omega) (by omega)
  rwa [zpow_neg, zpow_neg, inv_le_inv₀ (by positivity) (by positivity)] at inverse

theorem least_le_worth {m : Nat} (positive : 0 < m) : (2 : ℚ) ^ (-1074 : ℤ) ≤ worth m := by
  have least : worth 1 = 2 ^ (-1074 : ℤ) := by
    rw [worth_succ 0, worth_zero, zero_add]
    rfl
  rw [← least]
  exact worth_strictMono.monotone positive

theorem worth_lt_of_finite {m : Nat} (finite : m < infinite) : worth m < 2 ^ (1024 : ℤ) := by
  rw [← worth_infinite]
  exact worth_strictMono finite

theorem worth_le_steps {m : Nat} (positive : 0 < m) :
    worth m ≤ 2 ^ 53 * 2 ^ exponent (m - 1) := by
  obtain ⟨-, -, small, -, -⟩ := magnitude_cases (m - 1)
  have digits : (significand (m - 1) : ℚ) + 1 ≤ 2 ^ 53 := by
    simp only [normal] at small
    exact_mod_cast small
  have next := worth_succ (m - 1)
  rw [Nat.sub_add_cancel positive] at next
  calc worth m = ((significand (m - 1) : ℚ) + 1) * 2 ^ exponent (m - 1) := by
        rw [next, worth, add_mul, one_mul]
    _ ≤ 2 ^ 53 * 2 ^ exponent (m - 1) := by gcongr

theorem Bracket.leading_le {b : Bracket} {m : Nat} (measures : b.Measures m 1) (positive : 0 < m)
    (finite : m < infinite) : (10 : ℚ) ^ b.leading ≤ worth m ∧ -330 < b.leading := by
  have scaled : (0 : ℚ) < b.den := by exact_mod_cast measures.den
  have size : (b.value : ℚ) / b.den = worth m := by
    rw [div_eq_iff scaled.ne', ← measures.value, mul_one]
  have nonzero : b.value ≠ 0 := by
    intro zero
    rw [zero, Nat.cast_zero, zero_div] at size
    exact (worth_pos positive).ne size
  have ⟨atLeast, below⟩ := ratio_bounds nonzero measures.den
  rw [size] at atLeast below
  unfold leading
  generalize (b.value.log2 : ℤ) - b.den.log2 = l at *
  have lower : -1075 < l := by
    have := (zpow_lt_zpow_iff_right₀ one_lt_two).mp ((least_le_worth positive).trans_lt below)
    omega
  have upper : l < 1025 := by
    have := (zpow_lt_zpow_iff_right₀ one_lt_two).mp (atLeast.trans_lt (worth_lt_of_finite finite))
    omega
  -- The guess takes 0.30103 for the decimal logarithm of two, which is off by less than one here.
  have ⟨down, up⟩ : Int.fdiv (l * 30103) 100000 * 100000 ≤ l * 30103 ∧
      l * 30103 < (Int.fdiv (l * 30103) 100000 + 1) * 100000 := by
    rw [Int.fdiv_eq_ediv_of_nonneg _ (by decide)]
    omega
  simp only [decide_eq_true_eq, reaches_iff measures]
  generalize Int.fdiv (l * 30103) 100000 = guess at *
  split
  next next => exact ⟨next, by omega⟩
  · split
    next here => exact ⟨here, by omega⟩
    · refine ⟨?_, by omega⟩
      calc (10 : ℚ) ^ (guess - 1) ≤ 2 ^ (l - 1) := ten_zpow_le (by omega) (by omega)
        _ ≤ worth m := atLeast

theorem search_nearest {b : Bracket} {m : Nat} (measures : b.Measures m 1) (leading : ℤ)
    {places more p : Nat} (before : places ≤ p) (within : p < places + more)
    (found : (b.inSteps (leading - p)).nearest? (m % 2 = 0) ≠ none) :
    let (n, k) := search b (m % 2 = 0) leading places more
    Nearest m (n * 10 ^ k) ∧ leading - (places + more) < k := by
  -- The search goes on to `p` at the latest, where digits are found.
  induction more generalizing places with
  | zero => omega
  | succ more ih =>
    unfold search
    dsimp only
    split
    next n here =>
      refine ⟨?_, by omega⟩
      exact ((measures.inSteps _).holds_iff (by positivity) n).mp (Bracket.holds_of_nearest? here)
    next missing =>
      have later : places ≠ p := by
        rintro rfl
        exact found missing
      have := ih (show places + 1 ≤ p by omega) (by omega)
      revert this
      dsimp only
      exact fun ⟨nearest, bound⟩ => ⟨nearest, by omega⟩

theorem shortest_nearest {m : Nat} (positive : 0 < m) (finite : m < infinite) :
    Nearest m ((shortest m).1 * 10 ^ (shortest m).2) ∧ -347 < (shortest m).2 := by
  have measures := bracket_measures positive
  have ⟨atMost, bound⟩ := Bracket.leading_le measures positive finite
  have steps := worth_le_steps positive
  -- Seventeen digits are enough for 53 binary ones.
  have fine : (10 : ℚ) ^ ((bracket m).leading - (16 : Nat)) < 2 ^ exponent (m - 1) := by
    have unit : (0 : ℚ) < 2 ^ exponent (m - 1) := by positivity
    rw [zpow_sub₀ (by norm_num), div_lt_iff₀ (by positivity)]
    calc (10 : ℚ) ^ (bracket m).leading ≤ worth m := atMost
      _ ≤ 2 ^ 53 * 2 ^ exponent (m - 1) := steps
      _ < 10 ^ 16 * 2 ^ exponent (m - 1) := by
        exact mul_lt_mul_of_pos_right (by norm_num) unit
      _ = 2 ^ exponent (m - 1) * 10 ^ ((16 : Nat) : ℤ) := by rw [mul_comm]; rfl
  have found := search_nearest measures (bracket m).leading (show 0 ≤ 16 by decide)
    (show 16 < 0 + 17 by decide) ((measures.inSteps _).nearest?_ne_none (by positivity) positive fine)
  exact ⟨found.1, by have := found.2; dsimp only [shortest]; omega⟩

section

variable {n : Nat} {e : ℤ}

theorem log2_bounds (nonzero : n ≠ 0) (e : ℤ) : 2 ^ (n.log2 : ℤ) * (10 : ℚ) ^ e ≤ n * 10 ^ e ∧
    n * (10 : ℚ) ^ e < 2 ^ ((n.log2 : ℤ) + 1) * 10 ^ e := by
  have atLeast := two_zpow_log2_le nonzero
  have below := lt_two_zpow_log2 n
  constructor <;> gcongr

theorem log2_lt (nonzero : n ≠ 0) (least : -400 ≤ e) (small : n * (10 : ℚ) ^ e ≤ 2 ^ (1024 : ℤ)) :
    n.log2 < 2355 := by
  have : (2 : ℚ) ^ ((n.log2 : ℤ) + (-1330)) ≤ 2 ^ (1024 : ℤ) := by
    calc (2 : ℚ) ^ ((n.log2 : ℤ) + (-1330)) = 2 ^ (n.log2 : ℤ) * 2 ^ (-1330 : ℤ) :=
          zpow_add₀ two_ne_zero _ _
      _ ≤ 2 ^ (n.log2 : ℤ) * 10 ^ e := by
        have := two_zpow_le (p := e) (q := -1330) (by omega) (by omega)
        gcongr
      _ ≤ n * 10 ^ e := (log2_bounds nonzero e).1
      _ ≤ 2 ^ (1024 : ℤ) := small
  have := (zpow_le_zpow_iff_right₀ one_lt_two).mp this
  omega

theorem places_le (nonzero : n ≠ 0) (least : -400 ≤ e)
    (small : n * (10 : ℚ) ^ e ≤ 2 ^ (1024 : ℤ)) : (n.log2 * 30103 / 100000 : Nat) + e ≤ 310 := by
  have short := log2_lt nonzero least small
  generalize places : n.log2 * 30103 / 100000 = p
  have : (10 : ℚ) ^ ((p : ℤ) - 1 + e) ≤ 10 ^ (309 : ℤ) := by
    calc (10 : ℚ) ^ ((p : ℤ) - 1 + e) = 10 ^ ((p : ℤ) - 1) * 10 ^ e := zpow_add₀ (by norm_num) _ _
      _ ≤ 2 ^ (n.log2 : ℤ) * 10 ^ e := by
        have := ten_zpow_le (p := (p : ℤ) - 1) (q := n.log2) (by omega) (by omega)
        gcongr
      _ ≤ n * 10 ^ e := (log2_bounds nonzero e).1
      _ ≤ 2 ^ (1024 : ℤ) := small
      _ ≤ 10 ^ (309 : ℤ) := two_zpow_le (by decide) (by decide)
  have := (zpow_le_zpow_iff_right₀ (by norm_num)).mp this
  omega

theorem le_places (nonzero : n ≠ 0) (short : n.log2 < 2355)
    (large : (2 : ℚ) ^ (-1075 : ℤ) ≤ n * 10 ^ e) : -330 ≤ (n.log2 * 30103 / 100000 : Nat) + e := by
  generalize places : n.log2 * 30103 / 100000 = p
  by_contra tiny
  refine lt_irrefl ((2 : ℚ) ^ (-1075 : ℤ)) ?_
  calc (2 : ℚ) ^ (-1075 : ℤ) ≤ n * 10 ^ e := large
    _ < 2 ^ ((n.log2 : ℤ) + 1) * 10 ^ e := (log2_bounds nonzero e).2
    _ ≤ 10 ^ ((p : ℤ) + 2) * 10 ^ e := by
      have := two_zpow_le (p := (p : ℤ) + 2) (q := (n.log2 : ℤ) + 1) (by omega) (by omega)
      gcongr
    _ = 10 ^ ((p : ℤ) + 2 + e) := (zpow_add₀ (by norm_num) _ _).symm
    _ ≤ 2 ^ (-1075 : ℤ) := ten_zpow_le (by omega) (by omega)

end

theorem Nearest.le_of_finite {m : Nat} {x : ℚ} (nearest : Nearest m x) (finite : m < infinite) :
    x ≤ 2 ^ (1024 : ℤ) := by
  have next := worth_strictMono.monotone (show m + 1 ≤ infinite from finite)
  have := worth_lt_of_finite finite
  rw [worth_infinite] at next
  linarith [nearest.below]

theorem Nearest.le_of_pos {m : Nat} {x : ℚ} (nearest : Nearest m x) (positive : 0 < m) :
    2 ^ (-1075 : ℤ) ≤ x := by
  have half : (2 : ℚ) ^ (-1075 : ℤ) = 2 ^ (-1074 : ℤ) * 2⁻¹ := zpow_sub_one₀ two_ne_zero (-1074)
  have := least_le_worth positive
  have := worth_nonneg (m - 1)
  linarith [nearest.above]

theorem ofDecimal_eq (negative : Bool) {n m : Nat} {e : ℤ} (nearest : Nearest m (n * 10 ^ e))
    (finite : m < infinite) (least : -400 ≤ e) : ofDecimal negative n e = ⟨negative, m⟩ := by
  unfold ofDecimal
  dsimp only
  split
  next zero =>
    subst zero
    rw [Nat.cast_zero, zero_mul, ← worth_zero] at nearest
    rw [(nearest_worth 0).unique nearest]
  next nonzero =>
    have small := nearest.le_of_finite finite
    -- Nothing finite is so large that it is not computed.
    rw [if_neg (places_le nonzero least small).not_gt]
    split
    -- What is so small that it is not computed is nearest to zero.
    next tiny =>
      rcases Nat.eq_zero_or_pos m with rfl | positive
      · rfl
      · have := le_places nonzero (log2_lt nonzero least small) (nearest.le_of_pos positive)
        omega
    · split
      next whole =>
        refine ofRatio_eq negative Nat.one_pos finite.le ?_
        rw [zpow_of_nonneg whole] at nearest
        rwa [Nat.pow_eq, Nat.cast_mul, Nat.cast_pow, Nat.cast_ofNat, Nat.cast_one, div_one]
      next part =>
        refine ofRatio_eq negative (Nat.pow_pos (by decide)) finite.le ?_
        rw [zpow_of_neg (by omega), ← div_eq_mul_inv] at nearest
        rwa [Nat.pow_eq, Nat.cast_pow, Nat.cast_ofNat]

end Sluice.Double
