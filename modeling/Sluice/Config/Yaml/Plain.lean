import Sluice.Config.Yaml.Cursor

set_option autoImplicit false

namespace Sluice.Yaml

/-- A scalar that has been read: its characters, last first, whether a line break comes after it,
and the rest. -/
structure Scanned where
  text : List Char
  brokeOff : Bool
  rest : List Char

namespace Plain

def isFlowMark (c : Char) : Bool := c == ',' || c == '[' || c == ']' || c == '\x7b' || c == '\x7d'

def endsAt (flow : Bool) (c : Char) (next : List Char) : Bool :=
  (c == ':' && endsWord next) || (flow && isFlowMark c)

def isClash (flow : Bool) (c : Char) (next : List Char) : Bool :=
  flow && c == ':' && (next.head?.any fun d => d == '?' || isFlowMark d)

def scan (flow : Bool) (indent : Nat) :
    List Char → Nat → List Char → Gap → Option Scanned
  | [], _, text, gap => some ⟨text, gap.hasBreak, []⟩
  | c :: rest, column, text, gap =>
    if isBlank c then
      if gap.hasBreak && decide (column < indent) && c == '\t' then none
      else scan flow indent rest (column + 1) text (gap.push c)
    else if isBreak c then scan flow indent rest 0 text (gap.push c)
    else if !gap.isEmpty && (Cursor.isDocumentMark column (c :: rest) || c == '#' ||
        (!flow && decide (column < indent))) then
      some ⟨text, gap.hasBreak, c :: rest⟩
    else if isClash flow c rest then none
    else if endsAt flow c rest then some ⟨text, gap.hasBreak, c :: rest⟩
    else scan flow indent rest (column + 1) (c :: (gap.folded ++ text)) .empty

end Plain

end Sluice.Yaml
