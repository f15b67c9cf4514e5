import Sluice.Literal
import Sluice.Text.Split

set_option autoImplicit false

namespace Sluice

structure Environment where
  entries : Dict String

namespace Environment

def empty : Environment := ⟨[]⟩

def ofPairs (pairs : List (String × String)) : Environment := ⟨Dict.ofPairs pairs⟩

def set (e : Environment) (name text : String) : Environment := ⟨e.entries.put name text⟩

def remove (e : Environment) (name : String) : Environment := ⟨e.entries.without name⟩

def get? (e : Environment) (name : String) : Option String := e.entries.at? name

def resolve (e : Environment) (name : String) : Option Value := (e.get? name).map Literal.convert

end Environment

inductive Source where
  | literal (value : Value)
  | env (name : String)

namespace Source

def isVariableLetter (c : Char) : Bool := c.isUpper || c.isDigit || c == '_'

def variableName? : Value → Option String
  | .text s =>
    match s.toList with
    | '%' :: name =>
      if !name.isEmpty && name.all isVariableLetter then some (String.ofList name) else none
    | _ => none
  | _ => none

/-- Where dynamic parameters are on, `%NAME` refers to a variable. -/
def classify (value : Value) (dynamic : Bool) : Source :=
  match variableName? value with
  | some name => if dynamic then .env name else .literal value
  | none => .literal value

end Source

end Sluice
