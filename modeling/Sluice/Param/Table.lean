import Sluice.Error
import Sluice.Literal

set_option autoImplicit false

namespace Sluice

structure ParamTable where
  stage : String
  typeName : String
  values : Dict Value

namespace ParamTable

def make (stage typeName : String) : ParamTable := ⟨stage, typeName, []⟩

instance : Inhabited ParamTable := ⟨make "" ""⟩

def put (t : ParamTable) (key : String) (value : Value) : ParamTable :=
  { t with values := t.values.put key value }

def get? (t : ParamTable) (key : String) : Option Value := t.values.at? key

def has (t : ParamTable) (key : String) : Bool := t.values.has key

def differs (t : ParamTable) (key : String) (value : Value) : Bool :=
  match t.get? key with
  | some previous => previous != value
  | none => true

/-- Binds a value once: the same value again is fine, a blank one never displaces another, and a
different one is a conflict. -/
def bind (t : ParamTable) (key : String) (value : Value) : Except ConfigError ParamTable :=
  match t.get? key with
  | none => .ok (t.put key value)
  | some existing =>
    if existing == value || value.isBlank then .ok t
    else if existing.isBlank then .ok (t.put key value)
    else .error (.conflictingValue t.stage key existing.print value.print)

def putDefault (t : ParamTable) (key : String) (value : Value) : ParamTable :=
  if t.has key then t else t.put key value

def invalid (t : ParamTable) (key reason : String) : ConfigError :=
  .invalidValue t.stage key reason

def value (t : ParamTable) (key : String) : Except ConfigError Value :=
  match t.get? key with
  | some value => .ok value
  | none => .error (.missingParameter t.stage key t.typeName)

def text (t : ParamTable) (key : String) : Except ConfigError String :=
  (t.value key).map Value.render

def readAs {α : Type} (t : ParamTable) (wanted : String) (read : Value → Option α)
    (key : String) : Except ConfigError α :=
  (t.value key).bind fun value =>
    match read value with
    | some x => .ok x
    | none => .error (t.invalid key ("expected " ++ wanted ++ ", found " ++ value.print))

/-- A number that is an integer, brought into 64 bits; a text is read as a literal first. -/
def readInt : Value → Option Int
  | .int n => if Value.fits n then some n else (Double.ofInt n).toInt?.map Value.clamp
  | .float x => x.toInt?.map Value.clamp
  | .text s => (Literal.convert s).asInt?
  | _ => none

def readDouble : Value → Option Double
  | .text s => (Literal.convert s).asDouble?
  | value => value.asDouble?

def readFlag : Value → Option Bool
  | .bool b => some b
  | .text s => (Literal.convert s).asBool?
  | value => value.asDouble?.map fun x => !x.equal .zero

def int (t : ParamTable) (key : String) : Except ConfigError Int :=
  t.readAs "an integer" readInt key

def double (t : ParamTable) (key : String) : Except ConfigError Double :=
  t.readAs "a number" readDouble key

def flag (t : ParamTable) (key : String) : Except ConfigError Bool :=
  t.readAs "a boolean" readFlag key

end ParamTable

end Sluice
