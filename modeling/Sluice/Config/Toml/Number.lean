import Sluice.Config.Datum

set_option autoImplicit false

namespace Sluice.Toml.Number

def digits (isDigit : Char → Bool) : List Char → Option (List Char)
  | [] => none
  | [c] => if isDigit c then some [c] else none
  | c :: '_' :: d :: rest =>
    if isDigit c && isDigit d then (digits isDigit (d :: rest)).map (c :: ·) else none
  | c :: d :: rest =>
    if isDigit c then (digits isDigit (d :: rest)).map (c :: ·) else none

def decimal (text : List Char) : Option (List Char) :=
  match text with
  | ['0'] => some ['0']
  | '0' :: _ => none
  | text => digits Char.isDigit text

def inBase (base : Nat) (text : List Char) : Option Datum := do
  let text ← digits (fun c => (Literal.digit? base c).isSome) text
  let n ← Literal.readInt base text
  return .int n

def integer (negative : Bool) (text : List Char) : Option Datum := do
  let text ← decimal text
  let n ← Literal.readInt 10 (if negative then '-' :: text else text)
  return .int n

def exponent (text : List Char) : Option (List Char) :=
  match text with
  | '-' :: rest => (digits Char.isDigit rest).map ('-' :: ·)
  | '+' :: rest => digits Char.isDigit rest
  | rest => digits Char.isDigit rest

def isExponentMark (c : Char) : Bool := c == 'e' || c == 'E'

def tail (text : List Char) : Option (List Char) :=
  match text with
  | '.' :: rest =>
    let (fraction, rest) := rest.span fun c => !isExponentMark c
    match digits Char.isDigit fraction, rest with
    | some fraction, [] => some ('.' :: fraction)
    | some fraction, _ :: power => (exponent power).map fun power => '.' :: fraction ++ 'e' :: power
    | none, _ => none
  | c :: power => if isExponentMark c then (exponent power).map ('e' :: ·) else none
  | [] => none

def double (negative : Bool) (text : List Char) : Option Datum := do
  let (whole, rest) := text.span fun c => c != '.' && !isExponentMark c
  let text := (← decimal whole) ++ (← tail rest)
  let x ← Double.read (String.ofList (if negative then '-' :: text else text))
  if x.isFinite || x.negative then some (.float x) else none

def word? (negative : Bool) : String → Option Datum
  | "inf" => some (.float (.infinity negative))
  | "nan" => some (.float .notANumber)
  | _ => none

def unsigned (negative : Bool) (text : List Char) : Option Datum :=
  (word? negative (String.ofList text)).or ((integer negative text).or (double negative text))

def read (text : List Char) : Option Datum :=
  match text with
  | '+' :: rest => unsigned false rest
  | '-' :: rest => unsigned true rest
  | '0' :: 'x' :: rest => inBase 16 rest
  | '0' :: 'o' :: rest => inBase 8 rest
  | '0' :: 'b' :: rest => inBase 2 rest
  | text =>
    match String.ofList text with
    | "true" => some (.bool true)
    | "false" => some (.bool false)
    | _ => unsigned false text

end Sluice.Toml.Number
