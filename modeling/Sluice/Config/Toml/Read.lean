import Sluice.Config.Toml.Number
import Sluice.Config.Toml.Quoted
import Sluice.Config.Toml.Table

set_option autoImplicit false

namespace Sluice.Toml

abbrev Reader := StateT (List Char) Option

namespace Reader

def take {α : Type} (split : List Char → Option (α × List Char)) : Reader α :=
  fun text => split text

def blanks : Reader Unit := modify fun text => text.dropWhile isBlank

def accept (c : Char) : Reader Bool := do
  match ← get with
  | d :: rest =>
    if c = d then
      set rest
      return true
    else return false
  | [] => return false

def expect (c : Char) : Reader Unit := do
  if !(← accept c) then failure

def comment : Reader Unit := do
  if ← accept '#' then modify fun text => text.dropWhile isVisible

def space : Nat → Reader Unit
  | 0 => pure ()
  | n + 1 => do
    blanks
    comment
    match newline? (← get) with
    | some rest =>
      set rest
      space n
    | none => pure ()

def endLine : Reader Unit := do
  blanks
  comment
  let text ← get
  match newline? text with
  | some rest => set rest
  | none => if !text.isEmpty then failure

def isBareLetter (c : Char) : Bool := c.isAlphanum || c == '_' || c == '-'

def bare (text : List Char) : Option (String × List Char) :=
  let (key, rest) := text.span isBareLetter
  if key.isEmpty then none else some (String.ofList key, rest)

def keyPart : Reader String := do
  blanks
  let part ← take fun text => (Quoted.short text).or (bare text)
  blanks
  return part

/-- The parts of a key between its dots, as many as given at most, the last of them apart. -/
def key : Nat → Reader (List String × String)
  | 0 => failure
  | n + 1 => do
    let first ← keyPart
    if ← accept '.' then
      let (path, last) ← key n
      return (first :: path, last)
    else return ([], first)

def isNumberLetter (c : Char) : Bool :=
  c.isAlphanum || c == '_' || c == '.' || c == '+' || c == '-' || c == ':'

def number (text : List Char) : Option (Datum × List Char) :=
  let (run, rest) := text.span isNumberLetter
  (Number.read run).map fun d => (d, rest)

section

variable (value : Reader Item)

def pair (n : Nat) : Reader Entries.Pair := do
  let (path, key) ← key n
  expect '='
  blanks
  let item ← value
  return ⟨path, key, item⟩

def items : Nat → Reader (List Datum)
  | 0 => failure
  | n + 1 => do
    space n
    if ← accept ']' then return []
    let item ← value
    space n
    if ← accept ',' then return item.datum :: (← items n)
    expect ']'
    return [item.datum]

def pairs : Nat → Reader (List Entries.Pair)
  | 0 => failure
  | n + 1 => do
    let first ← pair value n
    blanks
    if ← accept ',' then return first :: (← pairs n)
    expect '\x7d'
    return [first]

def inlineTable (n : Nat) : Reader Item := do
  blanks
  if ← accept '\x7d' then return .value (.map [])
  let found ← pairs value n
  match Entries.addPairs found [] with
  | some entries => return .value (.map (entryData entries))
  | none => failure

end

def value : Nat → Reader Item
  | 0 => failure
  | n + 1 => do
    if ← accept '[' then return .value (.list (← items (value n) (n + 1)))
    else if ← accept '\x7b' then inlineTable (value n) (n + 1)
    else return .value (← take fun text =>
      ((Quoted.read text).map fun (s, rest) => (Datum.text s, rest)).or (number text))

structure Header where
  isList : Bool
  path : List String
  key : String

def header (n : Nat) : Reader Header := do
  let isList ← accept '['
  let (path, key) ← key n
  expect ']'
  if isList then expect ']'
  endLine
  return ⟨isList, path, key⟩

def body : Nat → Reader (List Entries.Pair)
  | 0 => failure
  | n + 1 => do
    space (n + 1)
    match ← get with
    | [] => return []
    | '[' :: _ => return []
    | _ => do
      let first ← pair (value n) n
      endLine
      return first :: (← body n)

def tables : Nat → Entries → Reader Entries
  | 0, _ => failure
  | n + 1, entries => do
    if ← accept '[' then
      let header ← header n
      let pairs ← body n
      let add := if header.isList then Entries.addToTables else Entries.addTable
      match add header.path header.key pairs entries with
      | some entries => tables n entries
      | none => failure
    else if (← get).isEmpty then return entries
    else failure

def document (n : Nat) : Reader Entries := do
  let pairs ← body n
  match Entries.addPairs pairs [] with
  | some entries => tables n entries
  | none => failure

end Reader

def read (text : String) : Option Datum := do
  let chars := match text.toList with
    | '\ufeff' :: rest => rest
    | chars => chars
  let (entries, _) ← (Reader.document (chars.length + 2)).run chars
  return .map (entryData entries)

end Sluice.Toml
