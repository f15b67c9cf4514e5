set_option autoImplicit false

namespace Sluice.Yaml

def isBlank (c : Char) : Bool := c == ' ' || c == '\t'

def isBreak (c : Char) : Bool := c == '\n' || c == '\u2028' || c == '\u2029'

def isGap (c : Char) : Bool := isBlank c || isBreak c

def endsWord : List Char → Bool
  | [] => true
  | c :: _ => isGap c

def isAllowed (c : Char) : Bool :=
  let n := c.toNat
  n == 0x9 || n == 0xA || n == 0xD || (0x20 ≤ n && n ≤ 0x7E) || n == 0x85 ||
    (0xA0 ≤ n && n ≤ 0xFFFD && n != 0xFEFF) || 0x10000 ≤ n

def unifyBreaks : List Char → List Char
  | '\r' :: '\n' :: rest => '\n' :: unifyBreaks rest
  | '\r' :: rest => '\n' :: unifyBreaks rest
  | '\u0085' :: rest => '\n' :: unifyBreaks rest
  | c :: rest => c :: unifyBreaks rest
  | [] => []

/-- The characters of a text, without a byte order mark at its start. -/
def characters (text : String) : Option (List Char) :=
  let all := match text.toList with
    | '\ufeff' :: rest => rest
    | all => all
  if all.all isAllowed then some (unifyBreaks all) else none

structure Cursor where
  rest : List Char
  line : Nat
  column : Nat
  offset : Nat

namespace Cursor

def start (rest : List Char) : Cursor := ⟨rest, 0, 0, 0⟩

def skip (c : Cursor) : Cursor :=
  match c.rest with
  | [] => c
  | x :: rest =>
    if isBreak x then ⟨rest, c.line + 1, 0, c.offset + 1⟩
    else ⟨rest, c.line, c.column + 1, c.offset + 1⟩

def skipBy : Nat → Cursor → Cursor
  | 0, c => c
  | n + 1, c => skipBy n c.skip

def moveTo (rest : List Char) (c : Cursor) : Cursor := skipBy (c.rest.length - rest.length) c

def isDocumentMark (column : Nat) : List Char → Bool
  | '-' :: '-' :: '-' :: rest => column == 0 && endsWord rest
  | '.' :: '.' :: '.' :: rest => column == 0 && endsWord rest
  | _ => false

end Cursor

/-- Blanks and line breaks inside a scalar, read but not yet written. The parts stand last first. -/
inductive Gap where
  | blanks (seen : List Char)
  /-- The first line break, unless that was escaped, and those after it. -/
  | breaks (first : Option Char) (more : List Char)

namespace Gap

def empty : Gap := .blanks []

def isEmpty : Gap → Bool
  | .blanks seen => seen.isEmpty
  | .breaks _ _ => false

def hasBreak : Gap → Bool
  | .blanks _ => false
  | .breaks _ _ => true

def push (c : Char) : Gap → Gap
  | .blanks seen => if isBreak c then .breaks (some c) [] else .blanks (c :: seen)
  | .breaks first more => if isBreak c then .breaks first (c :: more) else .breaks first more

/-- What a gap is folded to: a single line break becomes a space, and of several the first is left
out. -/
def folded : Gap → List Char
  | .blanks seen => seen
  | .breaks (some '\n') [] => [' ']
  | .breaks (some '\n') more => more
  | .breaks first more => more ++ first.toList

end Gap

end Sluice.Yaml
