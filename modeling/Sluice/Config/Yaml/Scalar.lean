import Sluice.Config.Datum

set_option autoImplicit false

namespace Sluice.Yaml.Scalar

def isNull (text : String) : Bool :=
  text == "null" || text == "Null" || text == "NULL" || text == "~"

def bool? : String → Option Bool
  | "true" | "True" | "TRUE" => some true
  | "false" | "False" | "FALSE" => some false
  | _ => none

def dropPlus : List Char → List Char
  | '+' :: rest => rest
  | text => text

def isSign (c : Char) : Bool := c == '+' || c == '-'

def isPadded (text : List Char) : Bool :=
  match text with
  | c :: rest => padded (if isSign c then rest else text)
  | [] => false
where
  padded : List Char → Bool
    | '0' :: d :: rest => (d :: rest).all Char.isDigit
    | _ => false

def based? : List Char → Option Nat
  | '0' :: 'x' :: rest => Literal.readNat 16 rest
  | '0' :: 'o' :: rest => Literal.readNat 8 rest
  | '0' :: 'b' :: rest => Literal.readNat 2 rest
  | _ => none

def nat? (text : List Char) : Option Nat :=
  match based? text with
  | some n => some n
  | none => if isPadded text then none else Literal.readNat 10 text

def int? (text : List Char) : Option Int :=
  match text with
  | '-' :: rest => (nat? rest).map fun n => -(n : Int)
  | text => (nat? (dropPlus text)).map Int.ofNat

def infinity? : String → Option Double
  | ".inf" | ".Inf" | ".INF" | "+.inf" | "+.Inf" | "+.INF" => some (.infinity false)
  | "-.inf" | "-.Inf" | "-.INF" => some (.infinity true)
  | ".nan" | ".NaN" | ".NAN" => some .notANumber
  | _ => none

def double? (text : String) : Option Double :=
  match infinity? text with
  | some x => some x
  | none =>
    let digits := dropPlus text.toList
    if text.startsWith "+" && digits.head?.any isSign then none
    else (Double.read (String.ofList digits)).filter Double.isFinite

/-- Integers need a sign and 63 bits, or 64 bits and no sign. -/
def inRange (n : Int) : Bool := Value.least ≤ n && n ≤ 0xffffffffffffffff

/-- Integers that do not fit but could be held in 128 bits are an error. -/
def isHuge (n : Int) : Bool :=
  -0x80000000000000000000000000000000 ≤ n && n ≤ 0xffffffffffffffffffffffffffffffff

def plain (text : String) : Option Datum :=
  if text == "" || isNull text then some .null
  else
    match bool? text with
    | some b => some (.bool b)
    | none =>
      match (int? text.toList).filter isHuge with
      | some n => if inRange n then some (.int n) else none
      | none =>
        if isPadded text.toList then some (.text text)
        else some (((double? text).map Datum.float).getD (.text text))

def standard (name : String) : String := "tag:yaml.org,2002:" ++ name

def tagged (tag text : String) : Option Datum :=
  if tag = standard "bool" then (bool? text).map Datum.bool
  else if tag = standard "int" then ((int? text.toList).filter inRange).map Datum.int
  else if tag = standard "float" then (double? text).map Datum.float
  else if tag = standard "null" then (if isNull text then some .null else none)
  else some (.text text)

end Sluice.Yaml.Scalar
