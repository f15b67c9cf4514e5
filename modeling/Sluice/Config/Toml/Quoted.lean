import Sluice.Literal

set_option autoImplicit false

namespace Sluice.Toml

def isBlank (c : Char) : Bool := c == ' ' || c == '\t'

def isVisible (c : Char) : Bool := c == '\t' || (' ' ≤ c && c != '\x7f')

def newline? : List Char → Option (List Char)
  | '\n' :: rest => some rest
  | '\r' :: '\n' :: rest => some rest
  | _ => none

namespace Quoted

def escape? : Char → Option Char
  | 'b' => some '\x08'
  | 't' => some '\t'
  | 'n' => some '\n'
  | 'f' => some '\x0c'
  | 'r' => some '\r'
  | '"' => some '"'
  | '\\' => some '\\'
  | _ => none

def escaped : List Char → Option (Char × List Char)
  | 'u' :: a :: b :: c :: d :: rest =>
    (Literal.charOfHex? [a, b, c, d]).map fun x => (x, rest)
  | 'U' :: a :: b :: c :: d :: e :: f :: g :: h :: rest =>
    (Literal.charOfHex? [a, b, c, d, e, f, g, h]).map fun x => (x, rest)
  | c :: rest => (escape? c).map fun x => (x, rest)
  | [] => none

/-- Reads a text on one line up to its closing quote; the characters so far stand last first. As
many characters as given are read at most. -/
def basic : Nat → List Char → List Char → Option (String × List Char)
  | 0, _, _ => none
  | _, _, [] => none
  | n + 1, text, c :: rest =>
    if c == '"' then some (String.ofList text.reverse, rest)
    else if c == '\\' then (escaped rest).bind fun (x, rest) => basic n (x :: text) rest
    else if isVisible c then basic n (c :: text) rest
    else none

def literal : List Char → List Char → Option (String × List Char)
  | _, [] => none
  | text, c :: rest =>
    if c == '\'' then some (String.ofList text.reverse, rest)
    else if isVisible c then literal (c :: text) rest
    else none

/-- Ends a text of several lines at three quotes; up to two more before them belong to it. -/
def closing? (quote : Char) (text : List Char) : Option (List Char × List Char) :=
  let run := min 5 (text.takeWhile (· == quote)).length
  if 3 ≤ run then some (List.replicate (run - 3) quote, text.drop run) else none

def continued? (text : List Char) : Option (List Char) :=
  (newline? (text.dropWhile isBlank)).map fun rest =>
    rest.dropWhile fun c => isBlank c || c == '\n' || c == '\r'

def lines (quote : Char) : Nat → List Char → List Char → Option (String × List Char)
  | 0, _, _ => none
  | _, _, [] => none
  | n + 1, text, c :: rest =>
    match closing? quote (c :: rest) with
    | some (more, rest) => some (String.ofList (text.reverse ++ more), rest)
    | none =>
      match newline? (c :: rest) with
      | some rest => lines quote n ('\n' :: text) rest
      | none =>
        if quote == '"' && c == '\\' then
          match continued? rest with
          | some rest => lines quote n text rest
          | none => (escaped rest).bind fun (x, rest) => lines quote n (x :: text) rest
        else if isVisible c then lines quote n (c :: text) rest
        else none

def startLines (quote : Char) (text : List Char) : Option (String × List Char) :=
  lines quote (text.length + 1) [] ((newline? text).getD text)

def short : List Char → Option (String × List Char)
  | '"' :: rest => basic (rest.length + 1) [] rest
  | '\'' :: rest => literal [] rest
  | _ => none

def read : List Char → Option (String × List Char)
  | '"' :: '"' :: '"' :: rest => startLines '"' rest
  | '\'' :: '\'' :: '\'' :: rest => startLines '\'' rest
  | text => short text

end Quoted

end Sluice.Toml
