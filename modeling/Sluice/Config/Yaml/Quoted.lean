import Sluice.Config.Yaml.Cursor
import Sluice.Literal

set_option autoImplicit false

namespace Sluice.Yaml.Quoted

def escape? : Char → Option Char
  | '0' => some '\x00'
  | 'a' => some '\x07'
  | 'b' => some '\x08'
  | 't' | '\t' => some '\t'
  | 'n' => some '\n'
  | 'v' => some '\x0b'
  | 'f' => some '\x0c'
  | 'r' => some '\r'
  | 'e' => some '\x1b'
  | ' ' => some ' '
  | '"' => some '"'
  | '/' => some '/'
  | '\\' => some '\\'
  | 'N' => some '\u0085'
  | '_' => some '\u00a0'
  | 'L' => some '\u2028'
  | 'P' => some '\u2029'
  | _ => none

def scanSingle : List Char → Nat → List Char → Gap → Option (List Char × List Char)
  | [], _, _, _ => none
  | '\'' :: '\'' :: rest, column, text, gap =>
    scanSingle rest (column + 2) ('\'' :: (gap.folded ++ text)) .empty
  | '\'' :: rest, _, text, gap => some (gap.folded ++ text, rest)
  | c :: rest, column, text, gap =>
    if isBreak c then scanSingle rest 0 text (gap.push c)
    else if isBlank c then scanSingle rest (column + 1) text (gap.push c)
    else if Cursor.isDocumentMark column (c :: rest) then none
    else scanSingle rest (column + 1) (c :: (gap.folded ++ text)) .empty

def scanDouble : List Char → Nat → List Char → Gap → Option (List Char × List Char)
  | [], _, _, _ => none
  | '"' :: rest, _, text, gap => some (gap.folded ++ text, rest)
  | '\\' :: 'x' :: a :: b :: rest, column, text, gap =>
    (Literal.charOfHex? [a, b]).bind fun c =>
      scanDouble rest (column + 4) (c :: (gap.folded ++ text)) .empty
  | '\\' :: 'u' :: a :: b :: c :: d :: rest, column, text, gap =>
    (Literal.charOfHex? [a, b, c, d]).bind fun c =>
      scanDouble rest (column + 6) (c :: (gap.folded ++ text)) .empty
  | '\\' :: 'U' :: a :: b :: c :: d :: e :: f :: g :: h :: rest, column, text, gap =>
    (Literal.charOfHex? [a, b, c, d, e, f, g, h]).bind fun c =>
      scanDouble rest (column + 10) (c :: (gap.folded ++ text)) .empty
  | '\\' :: c :: rest, column, text, gap =>
    if isBreak c then scanDouble rest 0 (gap.folded ++ text) (.breaks none [])
    else (escape? c).bind fun c =>
      scanDouble rest (column + 2) (c :: (gap.folded ++ text)) .empty
  | c :: rest, column, text, gap =>
    if isBreak c then scanDouble rest 0 text (gap.push c)
    else if isBlank c then scanDouble rest (column + 1) text (gap.push c)
    else if Cursor.isDocumentMark column (c :: rest) then none
    else scanDouble rest (column + 1) (c :: (gap.folded ++ text)) .empty

end Sluice.Yaml.Quoted
