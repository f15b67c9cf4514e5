import Sluice.Config.Pipeline

set_option autoImplicit false

namespace Sluice

namespace Datum

def text? : Datum → Option String
  | .text s => some s
  | _ => none

def bool? : Datum → Option Bool
  | .bool b => some b
  | _ => none

def list? : Datum → Option (List Datum)
  | .list items => some items
  | _ => none

def fields? : Datum → Option (List (String × Datum))
  | .map entries => entries.mapM fun (key, item) => key.text?.map fun key => (key, item)
  | _ => none

/-- The fields of a structure. They may also be given as a list in the order of their names, of
which those at the end may be missing. -/
def structure? (names : List String) : Datum → Option (List (String × Datum))
  | .list items => some (names.zip items)
  | d => d.fields?

def fieldOr {α : Type} (fields : List (String × Datum)) (name : String) (missing : α)
    (read : Datum → Option α) : Option α :=
  match fields.lookup name with
  | some d => read d
  | none => some missing

def field? {α : Type} (fields : List (String × Datum)) (name : String)
    (read : Datum → Option α) : Option α :=
  (fields.lookup name).bind read

def listOf? {α : Type} (read : Datum → Option α) (d : Datum) : Option (List α) :=
  d.list?.bind fun items => items.mapM read

def dictOf? {α : Type} (read : Datum → Option α) (d : Datum) : Option (Dict α) :=
  d.fields?.bind fun fields =>
    (fields.mapM fun entry => (read entry.2).map fun a => (entry.1, a)).map Dict.ofPairs

end Datum

namespace Section

def ofDatum? (d : Datum) : Option Section := do
  let fields ← d.fields?
  let typeName? ← Datum.fieldOr fields "type" none fun d =>
    match d with
    | .null => some none
    | d => d.text?.map some
  return ⟨typeName?, Dict.ofPairs (fields.filter fun entry => entry.1 != "type")⟩

end Section

namespace Pipeline

/-- Reads a description in which every field is of its type. What is not a field is passed over. -/
def ofDatum? (d : Datum) : Option Pipeline := do
  let fields ← d.structure? ["main", "stages", "route"]
  let main ← Datum.field? fields "main"
    (Datum.structure? ["type", "description", "keys", "dynamic"])
  return {
    typeName := ← Datum.field? main "type" Datum.text?
    description := ← Datum.fieldOr main "description" "" Datum.text?
    keys := ← Datum.fieldOr main "keys" [] (Datum.listOf? Datum.text?)
    dynamic := ← Datum.fieldOr main "dynamic" false Datum.bool?
    route := ← Datum.field? fields "route" Datum.text?
    sections := ← Datum.fieldOr fields "stages" [] (Datum.dictOf? Section.ofDatum?) }

end Pipeline

namespace Library

def ofDatum? (d : Datum) : Option Library := do
  let fields ← d.fields?
  return {
    essentials := ← Datum.fieldOr fields "essentials" [] (Datum.dictOf? some)
    pipelines := ← Datum.fieldOr fields "pipelines" [] (Datum.listOf? Pipeline.ofDatum?) }

end Library

end Sluice
