import Sluice.Stage.Configuring
import Sluice.Stage.Program

set_option autoImplicit false

namespace Sluice

structure Reset where
  destination : String
  param : String
  newValue : Value

namespace Reset

def empty : Reset := ⟨"", "", .null⟩

/-- With null the parcel's attribute of the parameter's name counts; a text that names an attribute
stands for it. -/
def valueFor (r : Reset) (p : Parcel) : Except String Value :=
  match r.newValue with
  | .null =>
    match p.attr? r.param with
    | some value => .ok value
    | none => .error s!"unit has no '{r.param}' attribute to reset from"
  | .text name => .ok ((p.attr? name).getD (.text name))
  | value => .ok value

def messageFor (path : String) (r : Reset) (p : Parcel) : Except EngineError Message :=
  match r.valueFor p with
  | .error reason => .error (.data path reason)
  | .ok value => (Message.make r.destination "reset" [.text r.param, value]).mapError .message

def accept (path : String) (r : Reset) (h : Handle) : Program Reset Unit := do
  let p ← Program.look h
  match r.messageFor path p with
  | .error e => .fail e
  | .ok m => do
    Program.post m
    Program.forward h .main

def configure (params : ParamTable) : Configuring Reset Unit := do
  let destination ← Configuring.get (params.text "destination")
  modify fun r => { r with destination }
  let param ← Configuring.get (params.value "param_name")
  modify fun r => { r with param := param.render }
  let newValue ← Configuring.get (params.value "new_value")
  modify fun r => { r with newValue }

end Reset

end Sluice
