import Sluice.Dict
import Sluice.Double

set_option autoImplicit false

namespace Sluice

inductive Value where
  | null
  | bool (b : Bool)
  | int (n : Int)
  | float (x : Double)
  | text (s : String)
  | list (items : List Value)
  | record (fields : List (String × Value))

namespace Value

instance : Inhabited Value := ⟨.null⟩

mutual

/-- Integers and floating point numbers are never the same; the two floating point zeros are. -/
def same : Value → Value → Bool
  | .null, .null => true
  | .bool a, .bool b => a == b
  | .int a, .int b => a == b
  | .float a, .float b => a.equal b
  | .text a, .text b => a == b
  | .list a, .list b => sameItems a b
  | .record a, .record b => sameFields a b
  | _, _ => false

def sameItems : List Value → List Value → Bool
  | [], [] => true
  | a :: as, b :: bs => same a b && sameItems as bs
  | _, _ => false

def sameFields : List (String × Value) → List (String × Value) → Bool
  | [], [] => true
  | (j, a) :: as, (k, b) :: bs => j == k && same a b && sameFields as bs
  | _, _ => false

end

instance : BEq Value := ⟨same⟩

def least : Int := -0x8000000000000000

def greatest : Int := 0x7fffffffffffffff

def fits (n : Int) : Bool := least ≤ n && n ≤ greatest

def clamp (n : Int) : Int := max least (min greatest n)

def asInt? : Value → Option Int
  | .int n => if fits n then some n else none
  | _ => none

def asDouble? : Value → Option Double
  | .int n => some (Double.ofInt n)
  | .float x => some x
  | _ => none

def asBool? : Value → Option Bool
  | .bool b => some b
  | _ => none

def asText? : Value → Option String
  | .text s => some s
  | _ => none

def isBlank : Value → Bool
  | .null => true
  | .text s => s == ""
  | _ => false

end Value

end Sluice
