import Sluice.Config.Yaml.Lexer

set_option autoImplicit false

namespace Sluice.Yaml

inductive Node where
  | scalar (tag : Option String) (style : Style) (text : String)
  | sequence (tag : Option String) (items : List Node)
  | mapping (tag : Option String) (entries : List (Node × Node))

namespace Node

def nothing : Node := .scalar none .plain ""

instance : Inhabited Node := ⟨nothing⟩

end Node

structure Stream where
  tokens : List Token
  anchors : List (String × Node)
  handles : List (String × String)

abbrev Reader := StateT Stream Option

namespace Reader

def standardHandles : List (String × String) := [("!", "!"), ("!!", "tag:yaml.org,2002:")]

def peek : Reader (Option Token) := return (← get).tokens.head?

def skip : Reader Unit := modify fun s => { s with tokens := s.tokens.drop 1 }

def accept (token : Token) : Reader Bool := do
  if (← peek) = some token then
    skip
    return true
  else return false

def expect (token : Token) : Reader Unit := do
  if !(← accept token) then failure

def comes (tokens : List Token) : Reader Bool := return (← peek).any fun token => token ∈ tokens

def resolveTag (handle suffix : String) : Reader String := do
  if handle = "" then return suffix
  match (← get).handles.lookup handle with
  | some start => return start ++ suffix
  | none => failure

def properties : Reader (Option String × Option String) := do
  match ← peek with
  | some (.anchor name) => do
    skip
    match ← peek with
    | some (.tag handle suffix) => do
      skip
      return (some (← resolveTag handle suffix), some name)
    | _ => return (none, some name)
  | some (.tag handle suffix) => do
    skip
    match ← peek with
    | some (.anchor name) => do
      skip
      return (some (← resolveTag handle suffix), some name)
    | _ => return (some (← resolveTag handle suffix), none)
  | _ => return (none, none)

def remember (anchor : Option String) (node : Node) : Reader Unit :=
  match anchor with
  | some name => modify fun s => { s with anchors := (name, node) :: s.anchors }
  | none => pure ()

structure Place where
  block : Bool
  /-- Whether a block sequence may stand here without being indented. -/
  indentless : Bool

def inBlock : Place := ⟨true, false⟩

def asEntry : Place := ⟨true, true⟩

def inFlow : Place := ⟨false, false⟩

section

variable (node : Place → Reader Node)

def nodeUnless (ends : List Token) (place : Place) : Reader Node := do
  if ← comes ends then return .nothing else node place

def dashes (ends : List Token) : Nat → Reader (List Node)
  | 0 => failure
  | n + 1 => do
    if ← accept .blockEntry then
      let item ← nodeUnless node ends inBlock
      return item :: (← dashes ends n)
    else return []

def blockSequence (n : Nat) : Reader (List Node) := do
  skip
  let items ← dashes node [.blockEntry, .blockEnd] n
  expect .blockEnd
  return items

def indentlessSequence (n : Nat) : Reader (List Node) :=
  dashes node [.blockEntry, .key, .value, .blockEnd] n

def mappingEnds : List Token := [.key, .value, .blockEnd]

def blockEntries : Nat → Reader (List (Node × Node))
  | 0 => failure
  | n + 1 => do
    if ← accept .key then
      let key ← nodeUnless node mappingEnds asEntry
      let item ← if ← accept .value then nodeUnless node mappingEnds asEntry else pure .nothing
      return (key, item) :: (← blockEntries n)
    else
      expect .blockEnd
      return []

def blockMapping (n : Nat) : Reader (List (Node × Node)) := do
  skip
  blockEntries node n

def flowValue (ends : List Token) : Reader Node := do
  if ← accept .value then nodeUnless node ends inFlow else return .nothing

def singlePair : Reader Node := do
  let ends := [Token.flowEntry, .closeSequence]
  let key ← if ← comes (.value :: ends) then do
      skip
      pure .nothing
    else node inFlow
  return .mapping none [(key, ← flowValue node ends)]

def flowItem : Reader Node := do
  if ← accept .key then singlePair node else node inFlow

def flowItems : Nat → Bool → Reader (List Node)
  | 0, _ => failure
  | n + 1, isFirst => do
    if ← accept .closeSequence then return []
    if !isFirst then expect .flowEntry
    if ← accept .closeSequence then return []
    let item ← flowItem node
    return item :: (← flowItems n false)

def flowPair : Reader (Node × Node) := do
  let ends := [Token.flowEntry, .closeMapping]
  if ← accept .key then
    let key ← nodeUnless node (.value :: ends) inFlow
    return (key, ← flowValue node ends)
  else return (← node inFlow, .nothing)

def flowPairs : Nat → Bool → Reader (List (Node × Node))
  | 0, _ => failure
  | n + 1, isFirst => do
    if ← accept .closeMapping then return []
    if !isFirst then expect .flowEntry
    if ← accept .closeMapping then return []
    let pair ← flowPair node
    return pair :: (← flowPairs n false)

def content (n : Nat) (place : Place) (tag anchor : Option String) : Reader Node := do
  match ← peek with
  | some .blockEntry =>
    if place.indentless then return .sequence tag (← indentlessSequence node n)
    else absent
  | some (.scalar style text) => do
    skip
    return .scalar tag style text
  | some .openSequence => do
    skip
    return .sequence tag (← flowItems node n true)
  | some .openMapping => do
    skip
    return .mapping tag (← flowPairs node n true)
  | some .blockSequence =>
    if place.block then return .sequence tag (← blockSequence node n) else absent
  | some .blockMapping =>
    if place.block then return .mapping tag (← blockMapping node n) else absent
  | _ => absent
where
  absent : Reader Node :=
    if tag.isNone && anchor.isNone then failure else return .scalar tag .plain ""

def nodeWith (n : Nat) (place : Place) : Reader Node := do
  match ← peek with
  | some (.alias name) => do
    skip
    match (← get).anchors.lookup name with
    | some node => return node
    | none => failure
  | _ => do
    let (tag, anchor) ← properties
    let node ← content node n place tag anchor
    remember anchor node
    return node

end

def node : Nat → Place → Reader Node
  | 0, _ => failure
  | n + 1, place => nodeWith (node n) (n + 1) place

def directives : Nat → Bool → List (String × String) → Reader Unit
  | 0, _, _ => failure
  | n + 1, versioned, handles => do
    match ← peek with
    | some (.version major minor) =>
      if versioned || major != 1 || (minor != 1 && minor != 2) then failure
      else do
        skip
        directives n true handles
    | some (.tagPrefix handle uri) =>
      if (handles.lookup handle).isSome then failure
      else do
        skip
        directives n versioned ((handle, uri) :: handles)
    | _ => modify fun s => { s with handles := handles ++ standardHandles }

def document (n : Nat) : Reader Node := do
  match ← peek with
  | none => return .nothing
  | some .documentStart => explicit
  | some (.version ..) => explicit
  | some (.tagPrefix ..) => explicit
  | _ => node n inBlock
where
  explicit : Reader Node := do
    directives n false []
    expect .documentStart
    match ← peek with
    | none | some .documentStart | some .documentEnd | some (.version ..) | some (.tagPrefix ..) =>
      return .nothing
    | _ => node n inBlock

def skipEnds : Nat → Reader Unit
  | 0 => pure ()
  | n + 1 => do
    if ← accept .documentEnd then skipEnds n

def only (n : Nat) : Reader Node := do
  let found ← document n
  skipEnds n
  if (← peek).isSome then failure
  return found

end Reader

def Node.read (text : String) : Option Node := do
  let tokens ← tokens text
  let n := tokens.length + 1
  let (found, _) ← (Reader.only n).run ⟨tokens, [], Reader.standardHandles⟩
  return found

end Sluice.Yaml
