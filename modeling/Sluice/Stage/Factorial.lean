import Sluice.Stage.Program

set_option autoImplicit false

namespace Sluice

/-- One step of a factorial that a parcel carries along in its attributes: `x` is multiplied into
`pending` and counted down; at one or zero the product is the result. -/
def Factorial.integer (p : Parcel) (key : String) : Except String (Option Int) :=
  match p.attr? key with
  | none => .ok none
  | some value =>
    match value.asInt? with
    | some n => .ok (some n)
    | none => .error (s!"attribute '{key}' is not an integer: " ++ value.print)

namespace Factorial

def finish (p : Parcel) (result : Int) : Parcel :=
  (p.setAttr "x_factorial" (.int result)).setAttr "recurse" (.bool false)

def multiply (p : Parcel) (x product : Int) : Parcel :=
  ((p.setAttr "pending" (.int product)).setAttr "x" (.int (x - 1))).setAttr "recurse" (.bool true)

def step (p : Parcel) : Except String Parcel := do
  let found ← integer p "x"
  let some x := found | .error "unit has no 'x' attribute"
  if x < 0 then .error s!"cannot take the factorial of {x}"
  else
    let pending ← integer p "pending"
    if x ≤ 1 then .ok (finish p (pending.getD 1))
    else
      let product := pending.getD 1 * x
      if Value.fits product then .ok (multiply p x product)
      else .error s!"factorial overflows at x = {x}"

def accept {σ : Type} (path : String) (h : Handle) : Program σ Unit := do
  let p ← Program.look h
  match step p with
  | .ok p => do
    Program.edit h p
    Program.forward h .main
  | .error reason => .fail (.data path reason)

end Factorial

end Sluice
