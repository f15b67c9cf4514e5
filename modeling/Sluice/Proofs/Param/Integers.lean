import Sluice.Param.Table
import Sluice.Proofs.Double.Nearest
import Sluice.Proofs.Literal.Numerals

set_option autoImplicit false

namespace Sluice

namespace Value

def Storable : Value → Prop
  | .int n => least ≤ n ∧ n < 2 ^ 64
  | _ => True

instance (v : Value) : Decidable v.Storable := by
  cases v <;> unfold Storable <;> infer_instance

def isNumber : Value → Bool
  | .int _ => true
  | .float _ => true
  | _ => false

inductive Denotes : Value → Int → Prop where
  | int (n : Int) : Denotes (.int n) n
  | float {x : Double} {n : Int} (finite : x.isFinite = true) (whole : x.toRat = n) :
      Denotes (.float x) n
  | text {s : String} {n : Int} (written : Literal.Writes s.toList n) : Denotes (.text s) n

theorem fits_iff_between {n : Int} : fits n = true ↔ least ≤ n ∧ n ≤ greatest := by
  simp [fits]

theorem clamp_of_fits {n : Int} (within : fits n = true) : clamp n = n := by
  rw [fits_iff_between] at within
  unfold clamp
  omega

theorem Storable.log2 {n : Int} (storable : (Value.int n).Storable) : n.natAbs.log2 < 64 := by
  by_cases zero : n.natAbs = 0
  · rw [zero]
    decide
  · refine (Nat.log2_lt zero).mpr ?_
    simp only [Storable, least] at storable
    omega

end Value

namespace ParamTable

theorem readInt_large {n : Int} (storable : (Value.int n).Storable) (large : Value.greatest < n) :
    readInt (.int n) = some Value.greatest := by
  have unfit : Value.fits n = false := by
    rw [← Bool.not_eq_true, Value.fits_iff_between]
    omega
  have ⟨finite, rounded⟩ := Double.ofInt_toRat (n := n) (by have := storable.log2; omega)
  -- It is rounded, but not to below the power of two that it has reached.
  have bound : 2 ^ 63 ≤ Double.roundInt n := by
    have exact : Double.roundInt (2 ^ 63) = 2 ^ 63 := by decide +kernel
    rw [← exact]
    refine Double.roundInt_mono (by decide +kernel) (by have := storable.log2; omega) ?_
    simp only [Value.greatest] at large
    omega
  have read := (Double.toInt?_eq_some_iff (Double.ofInt n) (Double.roundInt n)).mpr ⟨finite, rounded⟩
  rw [readInt, if_neg (by rw [unfit]; decide), read, Option.map_some, Value.clamp]
  simp only [Value.greatest, Value.least, Option.some.injEq]
  omega

/-- What is read is the integer that a value denotes. A number beyond the range is brought to its
nearest end, and a text beyond it is not read. -/
theorem readInt_iff {v : Value} (storable : v.Storable) (n : Int) : readInt v = some n ↔
    ∃ m, v.Denotes m ∧ n = Value.clamp m ∧ (Value.fits m = true ∨ v.isNumber = true) := by
  cases v with
  | int m =>
    have only : (∃ k, (Value.int m).Denotes k ∧ n = Value.clamp k ∧
        (Value.fits k = true ∨ (Value.int m).isNumber = true)) ↔ n = Value.clamp m := by
      constructor
      · rintro ⟨_, ⟨⟩, same, -⟩
        exact same
      · exact fun same => ⟨m, .int m, same, .inr rfl⟩
    rw [only, eq_comm (a := n)]
    by_cases within : Value.fits m = true
    · rw [readInt, if_pos within, Value.clamp_of_fits within, Option.some.injEq]
    · have ends := mt Value.fits_iff_between.mpr within
      have ⟨least, _⟩ := storable
      have large : Value.greatest < m := by omega
      have last : Value.clamp m = Value.greatest := by
        simp only [Value.clamp, Value.greatest, Value.least] at *
        omega
      rw [readInt_large storable large, last, Option.some.injEq]
  | float x =>
    rw [readInt, Option.map_eq_some_iff]
    refine exists_congr fun m => ?_
    rw [Double.toInt?_eq_some_iff]
    constructor
    · rintro ⟨⟨finite, whole⟩, rfl⟩
      exact ⟨.float finite whole, rfl, .inr rfl⟩
    · rintro ⟨⟨⟩, rfl, -⟩
      exact ⟨⟨‹_›, ‹_›⟩, rfl⟩
  | text s =>
    -- A text is no number that could be brought into the range: it is read only if it fits.
    have reads : readInt (.text s) = some n ↔ Literal.Writes s.toList n ∧ Value.fits n = true := by
      rw [readInt, ← Literal.convert_eq_int_iff]
      constructor
      · intro found
        unfold Value.asInt? at found
        split at found
        next m made =>
          split at found
          next => rw [made, Option.some.inj found]
          next => cases found
        next => cases found
      · intro made
        have within := (Literal.convert_eq_int_iff.mp made).2
        rw [made, Value.asInt?, if_pos within]
    rw [reads]
    constructor
    · rintro ⟨written, within⟩
      exact ⟨n, .text written, (Value.clamp_of_fits within).symm, .inl within⟩
    · rintro ⟨m, ⟨⟩, same, within | number⟩
      · rw [Value.clamp_of_fits within] at same
        exact ⟨same ▸ ‹_›, same ▸ within⟩
      · cases number
  | null | bool | list | record =>
    refine ⟨nofun, ?_⟩
    rintro ⟨m, ⟨⟩, -⟩

/-- Reading an integer parameter gives the integer that it denotes, but for a number outside of the
range, in whose place the nearest end of the range is given. All else is refused. -/
theorem int_exact_or_nearest_end (t : ParamTable) {key : String} {v : Value}
    (bound : t.get? key = some v) (storable : v.Storable) :
    (∀ n, t.int key = .ok n ↔
      ∃ m, v.Denotes m ∧ n = Value.clamp m ∧ (Value.fits m = true ∨ v.isNumber = true)) ∧
    ((∀ n, t.int key ≠ .ok n) → t.int key =
      .error (.invalidValue t.stage key ("expected an integer, found " ++ v.print))) := by
  have read : t.int key = (readInt v).elim
      (.error (.invalidValue t.stage key ("expected an integer, found " ++ v.print))) .ok := by
    have wording : "expected " ++ "an integer" ++ ", found " = "expected an integer, found " := by
      decide
    rw [int, readAs, value, bound, wording]
    dsimp only [Except.bind]
    cases readInt v <;> rfl
  rw [read]
  constructor
  · intro n
    rw [← readInt_iff storable]
    cases readInt v <;> simp
  · intro refused
    cases found : readInt v with
    | none => rfl
    | some n =>
      rw [found] at refused
      exact absurd rfl (refused n)

theorem unsigned_read_as_greatest :
    ((make "tank" "tank_queue").put "size" (.int (2 ^ 63))).int "size" = .ok Value.greatest ∧
      (Value.int (2 ^ 63)).Denotes (2 ^ 63) ∧ Value.greatest ≠ 2 ^ 63 := by
  have storable : (Value.int (2 ^ 63)).Storable := by decide
  have ⟨reads, _⟩ := int_exact_or_nearest_end ((make "tank" "tank_queue").put "size" (.int (2 ^ 63)))
    (show ParamTable.get? _ "size" = _ from rfl) storable
  exact ⟨(reads _).mpr ⟨2 ^ 63, .int _, by decide, .inr rfl⟩, .int _, by decide⟩

end ParamTable

end Sluice
