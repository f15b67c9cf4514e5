import Sluice.Config.Yaml.Cursor

set_option autoImplicit false

namespace Sluice.Yaml.Block

structure Line where
  text : List Char
  ending : Option Char

def linesFrom (current : List Char) : List Char → List Line
  | [] => if current.isEmpty then [] else [⟨current.reverse, none⟩]
  | c :: rest =>
    if isBreak c then ⟨current.reverse, some c⟩ :: linesFrom [] rest
    else linesFrom (c :: current) rest

def Line.chars (line : Line) : List Char := line.text ++ line.ending.toList

inductive Chomp where
  | strip
  | clip
  | keep

structure Header where
  chomp : Chomp
  given : Option Nat

def chomp? : Char → Option Chomp
  | '+' => some .keep
  | '-' => some .strip
  | _ => none

def digit? (c : Char) : Option Nat :=
  if c.isDigit && c != '0' then some (c.toNat - '0'.toNat) else none

def readHeader : List Char → Option (Header × List Char)
  | a :: b :: rest =>
    match chomp? a, digit? a with
    | some chomp, _ =>
      if b == '0' then none
      else match digit? b with
        | some n => some (⟨chomp, some n⟩, rest)
        | none => some (⟨chomp, none⟩, b :: rest)
    | none, some n =>
      match chomp? b with
      | some chomp => some (⟨chomp, some n⟩, rest)
      | none => some (⟨.clip, some n⟩, b :: rest)
    | none, none => if a == '0' then none else some (⟨.clip, none⟩, a :: b :: rest)
  | [a] =>
    match chomp? a, digit? a with
    | some chomp, _ => some (⟨chomp, none⟩, [])
    | none, some n => some (⟨.clip, some n⟩, [])
    | none, none => if a == '0' then none else some (⟨.clip, none⟩, [a])
  | [] => some (⟨.clip, none⟩, [])

def endHeader (text : List Char) : Option (List Char) :=
  match text.dropWhile isBlank with
  | [] => some []
  | c :: rest =>
    if isBreak c then some rest
    else if c == '#' then some ((rest.dropWhile fun d => !isBreak d).drop 1)
    else none

def spaces (line : Line) : Nat := (line.text.takeWhile (· == ' ')).length

/-- How far the lines are indented when that is not given: as far as the first line with text, or
an empty line before it if that is longer. A tab must not come into it. -/
def detect : List Line → Nat → Option Nat
  | [], deepest => some deepest
  | line :: rest, deepest =>
    let n := spaces line
    match line.text.drop n with
    | [] => detect rest (max deepest n)
    | c :: _ => if c == '\t' then none else some (max deepest n)

def skipEmpty (indent : Nat) : List Line → List Char → Option (List Char × List Line)
  | [], breaks => some (breaks, [])
  | line :: rest, breaks =>
    let n := min indent (spaces line)
    match line.text.drop n with
    | '\t' :: _ => if n < indent then none else some (breaks, line :: rest)
    | [] =>
      match line.ending with
      | some c => skipEmpty indent rest (c :: breaks)
      | none => some (breaks, [])
    | _ => some (breaks, line :: rest)

/-- The text so far, last first; the break after the last line of it, and those of empty lines after
that; and whether the last line began with a blank. -/
structure State where
  text : List Char
  ending : List Char
  breaks : List Char
  afterBlank : Bool

/-- Joins the next line on. Folding turns a single break between two lines that do not begin with a
blank into a space. -/
def State.join (fold : Bool) (s : State) (body : List Char) : List Char :=
  let startsBlank := body.head?.any isBlank
  let between :=
    if fold && s.ending == ['\n'] && !s.afterBlank && !startsBlank then
      if s.breaks.isEmpty then [' '] else s.breaks
    else s.breaks ++ s.ending
  body.reverse ++ between ++ s.text

/-- Reads lines that are indented far enough; with the empty lines between them, as many as given at
most. -/
def readLines (fold : Bool) (indent : Nat) :
    Nat → List Line → State → Option (State × List Line)
  | 0, lines, s => some (s, lines)
  | n + 1, lines, s =>
    match skipEmpty indent lines [] with
    | none => none
    | some (breaks, rest) =>
      let s := { s with breaks }
      match rest with
      | [] => some (s, [])
      | line :: rest =>
        if spaces line < indent then some (s, line :: rest)
        else
          let body := line.text.drop indent
          readLines fold indent n rest
            ⟨s.join fold body, line.ending.toList, [], body.head?.any isBlank⟩

def chomped (chomp : Chomp) (s : State) : List Char :=
  match chomp with
  | .strip => s.text
  | .clip => s.ending ++ s.text
  | .keep => s.breaks ++ s.ending ++ s.text

/-- Reads a block scalar from after its first mark; outside it is indented by one less than the
least column. The characters stand last first. -/
def scan (fold : Bool) (least : Nat) (outside : Nat) (text : List Char) :
    Option (List Char × List Char) := do
  let (header, text) ← readHeader text
  let lines := linesFrom [] (← endHeader text)
  let indent ← match header.given with
    | some n => some (outside + n)
    | none => (detect lines 0).map fun n => max n (max least 1)
  let (s, rest) ← readLines fold indent (lines.length + 1) lines ⟨[], [], [], false⟩
  return (chomped header.chomp s, rest.flatMap Line.chars)

end Sluice.Yaml.Block
