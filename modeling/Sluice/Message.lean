import Sluice.Error
import Sluice.Literal
import Sluice.Parcel
import Sluice.Text.Blank

set_option autoImplicit false

namespace Sluice

/-- A control message for the stages of a name, a path or a type. The first stage that opens a
`singleUse` message keeps it. -/
structure Message where
  destination : String
  verb : String
  values : List Value
  singleUse : Bool

namespace Message

def make (destination verb : String) (values : List Value) : Except MessageError Message :=
  if Text.isAllBlank destination then .error .emptyDestination
  else if Text.isAllBlank verb then .error .emptyVerb
  else .ok ⟨destination, verb, values, true⟩

def parse (destination command : String) : Except MessageError Message :=
  let (verb, values) := Literal.split (Text.trim command)
  make destination verb values

def text (m : Message) : String :=
  ":".intercalate ((m.destination ++ " <- " ++ m.verb) :: m.values.map Value.render)

end Message

inductive Packet where
  | parcel (h : Handle)
  | message (m : Message)

end Sluice
