import Sluice.Config.Datum

set_option autoImplicit false

namespace Sluice.Toml

inductive Origin where
  | header
  | enclosing
  | dotted
  deriving DecidableEq, Repr

inductive Item where
  | value (d : Datum)
  | table (origin : Origin) (entries : List (String × Item))
  | tables (all : List (List (String × Item)))

abbrev Entries := List (String × Item)

namespace Entries

def put (key : String) (item : Item) : Entries → Entries
  | [] => [(key, item)]
  | (k, old) :: rest => if k = key then (key, item) :: rest else (k, old) :: put key item rest

/-- Changes the table that a path leads to, and makes those on the way that there are not. Of
several tables in a list the last is meant. A dotted key cannot lead through a table with a
header. -/
def change (made : Origin) (f : Origin → Entries → Option Entries) :
    List String → Origin → Entries → Option Entries
  | [], origin, entries => f origin entries
  | key :: path, _, entries =>
    match entries.lookup key with
    | none => (change made f path made []).map fun inner => put key (.table made inner) entries
    | some (.value _) => none
    | some (.table origin inner) =>
      if made = .dotted ∧ origin = .header then none
      else (change made f path origin inner).map fun inner => put key (.table origin inner) entries
    | some (.tables all) =>
      match all.reverse with
      | [] => none
      | last :: before => (change made f path .header last).map fun last =>
          put key (.tables (before.reverse ++ [last])) entries

/-- Adds a key once. A key written with dots may only be added to a table made by such keys. -/
def addPair (path : List String) (key : String) (item : Item) (entries : Entries) :
    Option Entries :=
  let add (origin : Origin) (entries : Entries) : Option Entries :=
    if !path.isEmpty && origin != .dotted then none
    else if (entries.lookup key).isSome then none
    else some (put key item entries)
  change .dotted add path .header entries

structure Pair where
  path : List String
  key : String
  item : Item

def addPairs (pairs : List Pair) (entries : Entries) : Option Entries :=
  pairs.foldlM (fun entries pair => addPair pair.path pair.key pair.item entries) entries

/-- Fills the table of a header. One that is there only because of tables inside it can be
filled. -/
def addTable (path : List String) (key : String) (pairs : List Pair) (entries : Entries) :
    Option Entries :=
  let add (_ : Origin) (entries : Entries) : Option Entries := do
    let inner ← match entries.lookup key with
      | none => some []
      | some (.table .enclosing inner) => some inner
      | some _ => none
    return put key (.table .header (← addPairs pairs inner)) entries
  change .enclosing add path .header entries

def addToTables (path : List String) (key : String) (pairs : List Pair) (entries : Entries) :
    Option Entries :=
  let add (_ : Origin) (entries : Entries) : Option Entries := do
    let before ← match entries.lookup key with
      | none => some []
      | some (.tables all) => some all
      | some _ => none
    return put key (.tables (before ++ [← addPairs pairs []])) entries
  change .enclosing add path .header entries

end Entries

mutual

def Item.datum : Item → Datum
  | .value d => d
  | .table _ entries => .map (entryData entries)
  | .tables all => .list (tableData all)

def entryData : List (String × Item) → List (Datum × Datum)
  | [] => []
  | (key, item) :: rest => (.text key, item.datum) :: entryData rest

def tableData : List (List (String × Item)) → List Datum
  | [] => []
  | entries :: rest => .map (entryData entries) :: tableData rest

end

end Sluice.Toml
