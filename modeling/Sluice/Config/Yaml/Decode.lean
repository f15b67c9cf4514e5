import Sluice.Config.Decode
import Sluice.Config.Yaml.Node
import Sluice.Config.Yaml.Scalar

set_option autoImplicit false

namespace Sluice.Yaml.Node

def localTag? (tag : Option String) : Option String :=
  tag.bind fun tag =>
    match tag.toList with
    | '!' :: name => some (String.ofList name)
    | _ => none

/-- Puts a local tag on data. A tag has to have a name, and none may occur where tags are not
allowed. -/
def tagWith (tagsAllowed : Bool) (tag : Option String) (d : Datum) : Option Datum :=
  match localTag? tag with
  | none => some d
  | some name => if tagsAllowed && name != "" then some (.tagged name d) else none

def scalarDatum (tag : Option String) (style : Style) (text : String) : Option Datum :=
  let untagged := if style = .plain then Scalar.plain text else some (.text text)
  match tag with
  | none => untagged
  | some name => if (localTag? tag).isSome then untagged else Scalar.tagged name text

def keysDiffer : List (Datum × Datum) → Bool
  | [] => true
  | (key, _) :: rest => !(rest.any fun entry => key.same entry.1) && keysDiffer rest

mutual

/-- The data that a node stands for, nested no deeper than given. Two keys of a mapping must not be
the same. -/
def datum (tagsAllowed : Bool) : Nat → Node → Option Datum
  | _, .scalar tag style text => (scalarDatum tag style text).bind (tagWith tagsAllowed tag)
  | 0, _ => none
  | depth + 1, .sequence tag items =>
    (data tagsAllowed depth items).bind fun items => tagWith tagsAllowed tag (.list items)
  | depth + 1, .mapping tag entries =>
    (dataPairs tagsAllowed depth entries).bind fun entries =>
      if keysDiffer entries then tagWith tagsAllowed tag (.map entries) else none

def data (tagsAllowed : Bool) (depth : Nat) : List Node → Option (List Datum)
  | [] => some []
  | item :: rest =>
    (datum tagsAllowed depth item).bind fun d =>
      (data tagsAllowed depth rest).map fun rest => d :: rest

def dataPairs (tagsAllowed : Bool) (depth : Nat) :
    List (Node × Node) → Option (List (Datum × Datum))
  | [] => some []
  | (key, item) :: rest =>
    (datum tagsAllowed depth key).bind fun k =>
      (datum tagsAllowed depth item).bind fun d =>
        (dataPairs tagsAllowed depth rest).map fun rest => (k, d) :: rest

end

def maxDepth : Nat := 128

def toDatum (node : Node) : Option Datum := datum true maxDepth node

def text? : Node → Option String
  | .scalar _ _ text => some text
  | _ => none

def isNothing : Node → Bool
  | .scalar _ .plain "" => true
  | _ => false

def bool? : Node → Option Bool
  | .scalar _ .plain text => Scalar.bool? text
  | .scalar (some tag) .literal text =>
    if tag = Scalar.standard "bool" then Scalar.bool? text else none
  | _ => none

def list? : Node → Option (List Node)
  | .sequence _ items => some items
  | node => if node.isNothing then some [] else none

/-- Where a mapping is wanted, nothing is an empty one. Its keys have to be scalars. -/
def fields? : Node → Option (List (String × Node))
  | .mapping _ entries => entries.mapM fun entry => entry.1.text?.map fun key => (key, entry.2)
  | node => if node.isNothing then some [] else none

def field? (fields : List (String × Node)) (name : String) : Option (Option Node) :=
  match fields.filter fun entry => entry.1 == name with
  | [] => some none
  | [entry] => some (some entry.2)
  | _ => none

def required? {α : Type} (fields : List (String × Node)) (name : String)
    (read : Node → Option α) : Option α := do
  match ← field? fields name with
  | some node => read node
  | none => none

def fieldOr? {α : Type} (fields : List (String × Node)) (name : String) (missing : α)
    (read : Node → Option α) : Option α := do
  match ← field? fields name with
  | some node => read node
  | none => some missing

def listOf? {α : Type} (read : Node → Option α) (node : Node) : Option (List α) :=
  node.list?.bind fun items => items.mapM read

def dictOf? {α : Type} (read : Node → Option α) (node : Node) : Option (Dict α) := do
  let entries ← (← node.fields?).mapM fun entry => (read entry.2).map fun a => (entry.1, a)
  return Dict.ofPairs entries

def typeName? : Node → Option (Option String)
  | .scalar tag .plain text =>
    if tag = some (Scalar.standard "null") then (if Scalar.isNull text then some none else none)
    else if tag.isNone && (text == "" || Scalar.isNull text) then some none
    else some (some text)
  | .scalar _ _ text => some (some text)
  | _ => none

def section? (node : Node) : Option Section := do
  let fields ← node.fields?
  let typeName? ← fieldOr? fields "type" none typeName?
  let params := fields.filter fun entry => entry.1 != "type"
  let params ← params.mapM fun entry =>
    (datum false (maxDepth - 3) entry.2).map fun d => (entry.1, d)
  return ⟨typeName?, Dict.ofPairs params⟩

def pipeline? (node : Node) : Option Pipeline := do
  let fields ← node.fields?
  let main ← required? fields "main" fields?
  return {
    typeName := ← required? main "type" text?
    description := ← fieldOr? main "description" "" text?
    keys := ← fieldOr? main "keys" [] (listOf? text?)
    dynamic := ← fieldOr? main "dynamic" false bool?
    route := ← required? fields "route" text?
    sections := ← fieldOr? fields "stages" [] (dictOf? section?) }

def library? (node : Node) : Option Library := do
  let fields ← node.fields?
  return {
    essentials := ← fieldOr? fields "essentials" [] (dictOf? (datum true (maxDepth - 2)))
    pipelines := ← fieldOr? fields "pipelines" [] (listOf? pipeline?) }

end Sluice.Yaml.Node
