import Sluice.Stage.Configuring
import Sluice.Stage.Program

set_option autoImplicit false

namespace Sluice

inductive Comparison where
  | equals
  | notEquals
  | lessThan
  | greaterThan
  deriving DecidableEq, Repr

namespace Comparison

def ofName? : String → Option Comparison
  | "equals" => some .equals
  | "not_equals" => some .notEquals
  | "less_than" => some .lessThan
  | "greater_than" => some .greaterThan
  | _ => none

def areEqual (left right : Value) : Bool :=
  match left.asDouble?, right.asDouble? with
  | some l, some r => l.equal r
  | _, _ => left == right

def isLess? : Value → Value → Option Bool
  | .text l, .text r => some (decide (l < r))
  | .bool l, .bool r => some (!l && r)
  | left, right =>
    match left.asDouble?, right.asDouble? with
    | some l, some r => some (l.less r)
    | _, _ => none

def cannotOrder (left right : Value) : String :=
  "cannot order " ++ left.print ++ " against " ++ right.print

def holds (c : Comparison) (left right : Value) : Except String Bool :=
  let ordered : Option Bool → Except String Bool := fun answer =>
    match answer with
    | some b => .ok b
    | none => .error (cannotOrder left right)
  match c with
  | .equals => .ok (areEqual left right)
  | .notEquals => .ok (!areEqual left right)
  | .lessThan => ordered (isLess? left right)
  | .greaterThan => ordered (isLess? right left)

end Comparison

/-- Sends a parcel to the branch when a value of its own, or a parameter, compares so. -/
structure BranchIf where
  key : String
  comparison : Comparison
  against : Value
  ofParcel : Bool
  params : ParamTable

namespace BranchIf

def empty : BranchIf := ⟨"", .equals, .null, false, .make "" ""⟩

def left? (b : BranchIf) (p : Parcel) : Option Value :=
  if b.ofParcel then p.attr? b.key else b.params.get? b.key

def decideEdge (b : BranchIf) (p : Parcel) : Except String Edge :=
  match b.left? p with
  | none => .error s!"no value for branch_key '{b.key}'"
  | some left => (b.comparison.holds left b.against).map fun holds =>
    if holds then .branch else .main

def accept (path : String) (b : BranchIf) (h : Handle) : Program BranchIf Unit := do
  let p ← Program.look h
  match b.decideEdge p with
  | .ok edge => Program.forward h edge
  | .error reason => .fail (.data path reason)

def configure (params : ParamTable) : Configuring BranchIf Unit := do
  let key ← Configuring.get (params.text "branch_key")
  modify fun b => { b with key }
  let name ← Configuring.get (params.text "comparison")
  match Comparison.ofName? name with
  | none => throw (params.invalid "comparison" s!"unknown comparison '{name}'")
  | some comparison => modify fun b => { b with comparison }
  let against ← Configuring.get (params.value "compare_value")
  modify fun b => { b with against }
  let ofParcel ← Configuring.get (params.flag "branch_on_packet")
  modify fun b => { b with ofParcel, params }

end BranchIf

end Sluice
