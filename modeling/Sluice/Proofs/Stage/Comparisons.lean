import Sluice.Proofs.Graph.FactorialLoop
import Sluice.Proofs.Param.Integers

set_option autoImplicit false

namespace Sluice

open Double (roundInt)

namespace Comparison

def Holds : Comparison → Int → Int → Prop
  | .equals, a, b => a = b
  | .notEquals, a, b => a ≠ b
  | .lessThan, a, b => a < b
  | .greaterThan, a, b => b < a

instance : (c : Comparison) → (a b : Int) → Decidable (c.Holds a b)
  | .equals, a, b => inferInstanceAs (Decidable (a = b))
  | .notEquals, a, b => inferInstanceAs (Decidable (a ≠ b))
  | .lessThan, a, b => inferInstanceAs (Decidable (a < b))
  | .greaterThan, a, b => inferInstanceAs (Decidable (b < a))

theorem holds_rounded (c : Comparison) {a b : Int} (left : a.natAbs.log2 < 1023)
    (right : b.natAbs.log2 < 1023) :
    c.holds (.int a) (.int b) = .ok (decide (c.Holds (roundInt a) (roundInt b))) := by
  cases c <;> simp only [holds, areEqual, isLess?, Value.asDouble?, Double.ofInt_equal,
    Double.ofInt_less, left, right]
  case notEquals => exact congrArg Except.ok decide_not.symm
  all_goals rfl

end Comparison

namespace BranchIf

open Comparison (Holds)

/-- A parcel goes by the comparison of two integers rounded to 53 binary digits. That is how they
compare themselves if one of them has fewer digits or if they are more than 2048 apart, and what is
told apart by it stands in the same order. -/
theorem branches_on_rounded {b : BranchIf} {left right : Int}
    (storable : (Value.int left).Storable) (storable' : (Value.int right).Storable)
    (against : b.against = .int right) {g : Graph Stock} {h : Handle}
    (here : b.left? (g.store.read h) = some (.int left)) :
    (∀ again id place, (Traffic.interpret again id ((Stock.branchIf b).accept place h)).start g =
      (Traffic.forward again id h
        (if b.comparison.Holds (roundInt left) (roundInt right) then .branch else .main)).start g) ∧
    (left.natAbs < 2 ^ 53 ∨ right.natAbs < 2 ^ 53 ∨ 2 ^ 11 < (left - right).natAbs →
      (b.comparison.Holds (roundInt left) (roundInt right) ↔ b.comparison.Holds left right)) ∧
    (roundInt left < roundInt right → left < right) ∧
    (roundInt right < roundInt left → right < left) := by
  have short := storable.log2
  have short' := storable'.log2
  refine ⟨fun again id place => ?_, fun apart => ?_, Double.lt_of_roundInt_lt short short',
    Double.lt_of_roundInt_lt short' short⟩
  · have decided : b.decideEdge (g.store.read h) =
        .ok (if b.comparison.Holds (roundInt left) (roundInt right) then .branch else .main) := by
      simp only [decideEdge, here, against]
      rw [Comparison.holds_rounded _ (by omega) (by omega)]
      simp [Except.map]
    change (Traffic.interpret again id (Program.mapState Stock.branchIf
      (act place.path h (b.decideEdge (g.store.read h))))).start g = _
    rw [decided]
    exact Traffic.interpret_forward again id h _ g
  · rcases lt_trichotomy left right with less | rfl | more
    · have := Double.roundInt_lt short short' less apart
      cases b.comparison <;> simp only [Holds] <;> omega
    · cases b.comparison <;> simp only [Holds] <;> omega
    · have := Double.roundInt_lt short' short more (by omega)
      cases b.comparison <;> simp only [Holds] <;> omega

def demanding (right : Int) : BranchIf := ⟨"n", .equals, .int right, true, .make "" ""⟩

def carrying (left : Int) : Graph Stock :=
  { Graph.make #[] 0 .empty [] with store := ⟨#[Parcel.empty.setAttr "n" (.int left)]⟩ }

theorem neighbours_taken_for_equal :
    (∀ again id place, (Traffic.interpret again id
      ((Stock.branchIf (demanding (2 ^ 53))).accept place 0)).start (carrying (2 ^ 53 + 1)) =
        (Traffic.forward again id 0 .branch).start (carrying (2 ^ 53 + 1))) ∧
      ¬ Comparison.equals.Holds (2 ^ 53 + 1) (2 ^ 53) := by
  have ⟨sends, _⟩ := branches_on_rounded (show (Value.int (2 ^ 53 + 1)).Storable by decide)
    (show (Value.int (2 ^ 53)).Storable by decide)
    (show (demanding (2 ^ 53)).against = .int (2 ^ 53) from rfl)
    (show (demanding (2 ^ 53)).left? ((carrying (2 ^ 53 + 1)).store.read 0) = _ from rfl)
  exact ⟨sends, by decide⟩

end BranchIf

end Sluice
