import Sluice.Value.Print
import Sluice.Double.Read
import Sluice.Text.Case
import Sluice.Text.Split

set_option autoImplicit false

namespace Sluice.Literal

def digit? (base : Nat) (c : Char) : Option Nat :=
  let n :=
    if c.isDigit then c.toNat - '0'.toNat
    else if 'a' ≤ c ∧ c ≤ 'z' then c.toNat - 'a'.toNat + 10
    else if 'A' ≤ c ∧ c ≤ 'Z' then c.toNat - 'A'.toNat + 10
    else base
  if n < base then some n else none

def readDigits (base : Nat) : Nat → List Char → Option Nat
  | n, [] => some n
  | n, c :: rest => (digit? base c).bind fun d => readDigits base (n * base + d) rest

def readNat (base : Nat) (text : List Char) : Option Nat :=
  if text.isEmpty then none else readDigits base 0 text

def readInt (base : Nat) (text : List Char) : Option Int :=
  let (negative, digits) := Double.readSign text
  (readNat base digits).bind fun n =>
    let n : Int := if negative then -n else n
    if Value.fits n then some n else none

def readHex : List Char → Option Int
  | '0' :: 'x' :: rest => readInt 16 rest
  | '0' :: 'X' :: rest => readInt 16 rest
  | _ => none

def charOfHex? (digits : List Char) : Option Char :=
  (readNat 16 digits).bind fun n => if n.isValidChar then some (Char.ofNat n) else none

def isNumeric (c : Char) : Bool :=
  c.isDigit || c == '.' || c == 'e' || c == 'E' || c == '+' || c == '-'

def readFloat (text : String) : Option Double :=
  if text != "" && text.toList.all isNumeric then (Double.read text).filter Double.isFinite
  else none

def readWord (text : String) : Value :=
  match Text.lowerAscii text with
  | "true" | "t" => .bool true
  | "false" | "f" => .bool false
  | "none" => .null
  | "empty" => .text ""
  | "space" => .text " "
  | _ => .text text

/-- The value that a written text stands for: an integer, a hexadecimal one, a decimal number, one
of a few words, and otherwise itself. -/
def convert (text : String) : Value :=
  match readInt 10 text.toList with
  | some n => .int n
  | none =>
    match readHex text.toList with
    | some n => .int n
    | none =>
      match readFloat text with
      | some x => .float x
      | none => readWord text

def split (reference : String) : String × List Value :=
  match Text.pieces ':' reference with
  | [] => ("", [])
  | name :: values => (name, values.map convert)

def bareName (reference : String) : String := Text.before ':' reference

def dropLast (drops : Char → Bool) (text : List Char) : List Char :=
  (text.reverse.dropWhile drops).reverse

/-- Joins the first `n`, `n - 1`, ... segments; texts already there and empty ones are left out. -/
def addShorter (segments : List String) : Nat → List String → List String
  | 0, found => found
  | n + 1, found =>
    let candidate := "_".intercalate (segments.take (n + 1))
    addShorter segments n
      (if candidate = "" || found.contains candidate then found else found ++ [candidate])

/-- The type names to try for a stage name: the name, the name without a number at its end, and
then ever fewer of its segments between underscores. -/
def candidates (name : String) : List String :=
  let stripped := dropLast (· == '_') (dropLast Char.isDigit name.toList)
  if stripped.isEmpty then [name]
  else
    let segments := Text.pieces '_' (String.ofList stripped)
    addShorter segments segments.length [name]

end Sluice.Literal
