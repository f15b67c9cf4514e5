import Sluice.Config.Yaml.Block
import Sluice.Config.Yaml.Plain
import Sluice.Config.Yaml.Quoted
import Sluice.Config.Yaml.Tag

set_option autoImplicit false

namespace Sluice.Yaml

inductive Style where
  | plain
  | quoted
  | literal
  | folded
  deriving DecidableEq, Repr

inductive Token where
  | version (major minor : Nat)
  | tagPrefix (handle uri : String)
  | documentStart
  | documentEnd
  | blockSequence
  | blockMapping
  | blockEnd
  | openSequence
  | closeSequence
  | openMapping
  | closeMapping
  | blockEntry
  | flowEntry
  | key
  | value
  | alias (name : String)
  | anchor (name : String)
  | tag (handle suffix : String)
  | scalar (style : Style) (text : String)
  deriving DecidableEq, Repr

structure PossibleKey where
  isRequired : Bool
  position : Nat
  line : Nat
  column : Nat
  offset : Nat

structure Lexer where
  cursor : Cursor
  tokens : List Token
  indent : Int
  outer : List Int
  keyAllowed : Bool
  /-- What may be a key, in each of the brackets that are open, innermost first. -/
  keys : List (Option PossibleKey)

namespace Lexer

def start (text : List Char) : Lexer :=
  { cursor := .start text, tokens := [], indent := -1, outer := [], keyAllowed := true,
    keys := [none] }

def rest (l : Lexer) : List Char := l.cursor.rest

def column (l : Lexer) : Int := l.cursor.column

def flow (l : Lexer) : Bool := decide (1 < l.keys.length)

def push (token : Token) (l : Lexer) : Lexer := { l with tokens := token :: l.tokens }

def moveTo (rest : List Char) (l : Lexer) : Lexer := { l with cursor := l.cursor.moveTo rest }

def skip (n : Nat) (l : Lexer) : Lexer := { l with cursor := l.cursor.skipBy n }

def allowKey (allowed : Bool) (l : Lexer) : Lexer := { l with keyAllowed := allowed }

def insert (token : Token) (position : Nat) (l : Lexer) : Lexer :=
  let behind := l.tokens.length - position
  { l with tokens := l.tokens.take behind ++ token :: l.tokens.drop behind }

/-- Drops what cannot be a key any more, because the line has ended or it is too long. -/
def dropStale (l : Lexer) : Option Lexer := do
  let keys ← l.keys.mapM fun key =>
    match key with
    | none => some none
    | some k =>
      if k.line < l.cursor.line || k.offset + 1024 < l.cursor.offset then
        if k.isRequired then none else some none
      else some key
  return { l with keys }

def removeKey (l : Lexer) : Option Lexer :=
  match l.keys with
  | some key :: outer => if key.isRequired then none else some { l with keys := none :: outer }
  | _ => some l

def saveKey (l : Lexer) : Option Lexer :=
  if l.keyAllowed then do
    let isRequired := !l.flow && l.indent == l.column
    let l ← l.removeKey
    let key : PossibleKey :=
      ⟨isRequired, l.tokens.length, l.cursor.line, l.cursor.column, l.cursor.offset⟩
    return { l with keys := some key :: l.keys.tail }
  else some l

def roll (column : Int) (position : Nat) (token : Token) (l : Lexer) : Lexer :=
  if !l.flow && decide (l.indent < column) then
    { l.insert token position with indent := column, outer := l.indent :: l.outer }
  else l

def rollHere (token : Token) (l : Lexer) : Lexer := l.roll l.column l.tokens.length token

def unrollBlocks (column : Int) : List Int → Lexer → Lexer
  | [], l => l
  | around :: outer, l =>
    if column < l.indent then
      unrollBlocks column outer { l.push .blockEnd with indent := around, outer }
    else l

def unroll (column : Int) (l : Lexer) : Lexer :=
  if l.flow then l else unrollBlocks column l.outer l

/-- Passes over blanks, comments and empty lines. Where a key may start, a tab is no blank. -/
def passOver (flow : Bool) : Bool → Bool → List Char → List Char × Bool
  | allowed, _, [] => ([], allowed)
  | allowed, comment, c :: rest =>
    if isBreak c then passOver flow (allowed || !flow) false rest
    else if comment || c == ' ' || (c == '\t' && (flow || !allowed)) then
      passOver flow allowed comment rest
    else if c == '#' then passOver flow allowed true rest
    else (c :: rest, allowed)

def toNext (l : Lexer) : Lexer :=
  let (rest, allowed) := passOver l.flow l.keyAllowed false l.rest
  (l.moveTo rest).allowKey allowed

def documentMark (token : Token) (l : Lexer) : Option Lexer := do
  let l ← (l.unroll (-1)).removeKey
  return ((l.allowKey false).push token).skip 3

def openBracket (token : Token) (l : Lexer) : Option Lexer := do
  let l ← l.saveKey
  return (({ l with keys := none :: l.keys }.allowKey true).push token).skip 1

def closeBracket (token : Token) (l : Lexer) : Option Lexer := do
  let l ← l.removeKey
  let keys := if l.flow then l.keys.tail else l.keys
  return (({ l with keys }.allowKey false).push token).skip 1

def flowEntry (l : Lexer) : Option Lexer := do
  let l ← l.removeKey
  return ((l.allowKey true).push .flowEntry).skip 1

def blockEntry (l : Lexer) : Option Lexer :=
  if !l.flow && !l.keyAllowed then none
  else do
    let l ← (l.rollHere .blockSequence).removeKey
    return ((l.allowKey true).push .blockEntry).skip 1

def explicitKey (l : Lexer) : Option Lexer :=
  if !l.flow && !l.keyAllowed then none
  else do
    let l ← (l.rollHere .blockMapping).removeKey
    return ((l.allowKey !l.flow).push .key).skip 1

/-- A colon makes what may be a key one, and otherwise stands for a value without a key. -/
def value (l : Lexer) : Option Lexer :=
  match l.keys with
  | some key :: outer =>
    let l := { l with keys := none :: outer }.insert .key key.position
    let l := l.roll key.column key.position .blockMapping
    some (((l.allowKey false).push .value).skip 1)
  | _ =>
    if !l.flow && !l.keyAllowed then none
    else some ((((l.rollHere .blockMapping).allowKey !l.flow).push .value).skip 1)

def anchor (make : String → Token) (l : Lexer) : Option Lexer := do
  let l ← l.saveKey
  let (name, rest) ← Tag.scanAnchor (l.rest.drop 1)
  return ((l.allowKey false).push (make name)).moveTo rest

def tag (l : Lexer) : Option Lexer := do
  let l ← l.saveKey
  let ((handle, suffix), rest) ← Tag.scan l.flow (l.rest.drop 1)
  return ((l.allowKey false).push (.tag handle suffix)).moveTo rest

def block (style : Style) (l : Lexer) : Option Lexer := do
  let l ← l.removeKey
  let least := (l.indent + 1).toNat
  let (text, rest) ← Block.scan (style == .folded) least l.indent.toNat (l.rest.drop 1)
  return ((l.allowKey true).push (.scalar style (String.ofList text.reverse))).moveTo rest

def quoted (scan : List Char → Nat → List Char → Gap → Option (List Char × List Char))
    (l : Lexer) : Option Lexer := do
  let l ← l.saveKey
  let (text, rest) ← scan (l.rest.drop 1) (l.cursor.column + 1) [] .empty
  return ((l.allowKey false).push (.scalar .quoted (String.ofList text.reverse))).moveTo rest

def plain (l : Lexer) : Option Lexer := do
  let l ← l.saveKey
  let found ← Plain.scan l.flow (l.indent + 1).toNat l.rest l.cursor.column [] .empty
  let l := (l.allowKey found.brokeOff).push (.scalar .plain (String.ofList found.text.reverse))
  return l.moveTo found.rest

def startsPlain (flow : Bool) (c : Char) (next : List Char) : Bool :=
  (!isGap c && !"-?:,[]\x7b\x7d#&*!|>'\"%@\x60".toList.contains c) ||
    (c == '-' && !(next.head?.any isBlank)) ||
    (!flow && (c == '?' || c == ':') && !endsWord next)

def number (text : List Char) : Option (Nat × List Char) :=
  let (digits, rest) := text.span Char.isDigit
  if 9 < digits.length then none else (Literal.readNat 10 digits).map fun n => (n, rest)

def endLine (text : List Char) : Option (List Char) :=
  match text.dropWhile isBlank with
  | [] => some []
  | c :: rest =>
    if isBreak c then some (c :: rest)
    else if c == '#' then some (rest.dropWhile fun d => !isBreak d)
    else none

def versionNumber (text : List Char) : Option (Token × List Char) := do
  let (major, rest) ← number text
  match rest with
  | '.' :: rest => do
    let (minor, rest) ← number rest
    return (.version major minor, rest)
  | _ => none

def tagPrefix (text : List Char) : Option (Token × List Char) :=
  match text with
  | '!' :: rest => do
    let (name, rest) := Tag.word rest
    let (handle, rest) ← match rest with
      | '!' :: rest => some ("!" ++ String.ofList name ++ "!", rest)
      | _ => if name.isEmpty then some ("!", rest) else none
    if !(rest.head?.any isBlank) then none
    else do
      let (uri, rest) ← Tag.uri true (rest.dropWhile isBlank)
      if uri = "" || !endsWord rest then none else some (.tagPrefix handle uri, rest)
  | _ => none

def directive (l : Lexer) : Option Lexer := do
  let l ← (l.unroll (-1)).removeKey
  let (name, rest) := Tag.word (l.rest.drop 1)
  let rest := rest.dropWhile isBlank
  let (token, rest) ← match String.ofList name with
    | "YAML" => versionNumber rest
    | "TAG" => tagPrefix rest
    | _ => none
  return ((l.allowKey false).push token).moveTo (← endLine rest)

def readToken (l : Lexer) (c : Char) (next : List Char) : Option Lexer :=
  let column := l.cursor.column
  if column == 0 && c == '%' then l.directive
  else if Cursor.isDocumentMark column (c :: next) then
    l.documentMark (if c == '-' then .documentStart else .documentEnd)
  else if c == '[' then l.openBracket .openSequence
  else if c == '\x7b' then l.openBracket .openMapping
  else if c == ']' then l.closeBracket .closeSequence
  else if c == '\x7d' then l.closeBracket .closeMapping
  else if c == ',' then l.flowEntry
  else if c == '-' && endsWord next then l.blockEntry
  else if c == '?' && (l.flow || endsWord next) then l.explicitKey
  else if c == ':' && (l.flow || endsWord next) then l.value
  else if c == '*' then l.anchor .alias
  else if c == '&' then l.anchor .anchor
  else if c == '!' then l.tag
  else if c == '|' && !l.flow then l.block .literal
  else if c == '>' && !l.flow then l.block .folded
  else if c == '\'' then l.quoted Quoted.scanSingle
  else if c == '"' then l.quoted Quoted.scanDouble
  else if startsPlain l.flow c next then l.plain
  else none

def run : Nat → Lexer → Option (List Token)
  | 0, _ => none
  | n + 1, l => do
    let l ← l.toNext.dropStale
    let l := l.unroll l.column
    match l.rest with
    | [] => do
      let l ← (l.unroll (-1)).removeKey
      return l.tokens.reverse
    | c :: next => run n (← l.readToken c next)

end Lexer

def tokens (text : String) : Option (List Token) := do
  let chars ← characters text
  Lexer.run (chars.length + 1) (.start chars)

end Sluice.Yaml
