import Sluice.Literal

set_option autoImplicit false

namespace Sluice

/-- Data as written in a config file. The keys of a mapping can be any data. -/
inductive Datum where
  | null
  | bool (b : Bool)
  | int (n : Int)
  | float (x : Double)
  | text (s : String)
  | list (items : List Datum)
  | map (entries : List (Datum × Datum))
  | tagged (tag : String) (content : Datum)

namespace Datum

instance : Inhabited Datum := ⟨.null⟩

def keyText? : Datum → Option String
  | .text s => some s
  | .tagged _ content => content.keyText?
  | _ => none

def ofFloat (x : Double) : Value := if x.isFinite then .float x else .null

mutual

/-- The value that data stands for. Texts are read as literals, tags do not count, and of a mapping
what has a text for its key stays. -/
def toValue : Datum → Value
  | .null => .null
  | .bool b => .bool b
  | .int n => .int n
  | .float x => ofFloat x
  | .text s => Literal.convert s
  | .list items => .list (itemValues items)
  | .map entries => .record (entryValues entries [])
  | .tagged _ content => content.toValue

def itemValues : List Datum → List Value
  | [] => []
  | item :: rest => item.toValue :: itemValues rest

def entryValues : List (Datum × Datum) → Dict Value → Dict Value
  | [], found => found
  | (key, item) :: rest, found =>
    match key.keyText? with
    | some key => entryValues rest (Dict.put key item.toValue found)
    | none => entryValues rest found

end

mutual

def written : Datum → Value
  | .null => .null
  | .bool b => .bool b
  | .int n => .int n
  | .float x => ofFloat x
  | .text s => .text s
  | .list items => .list (itemsWritten items)
  | .map entries => .record (entriesWritten entries [])
  | .tagged tag content => .record [(tag, content.written)]

def itemsWritten : List Datum → List Value
  | [] => []
  | item :: rest => item.written :: itemsWritten rest

def entriesWritten : List (Datum × Datum) → Dict Value → Dict Value
  | [], found => found
  | (key, item) :: rest, found =>
    match key.keyText? with
    | some key => entriesWritten rest (Dict.put key item.written found)
    | none => entriesWritten rest found

end

mutual

/-- Whether two keys are the same. The order of the entries of a mapping does not count. -/
def same : Datum → Datum → Bool
  | .null, .null => true
  | .bool a, .bool b => a == b
  | .int a, .int b => a == b
  | .float a, .float b => a.equal b || (a.isNaN && b.isNaN)
  | .text a, .text b => a == b
  | .list a, .list b => sameItems a b
  | .map a, .map b => a.length == b.length && allAmong a b
  | .tagged s a, .tagged t b => s == t && same a b
  | _, _ => false

def sameItems : List Datum → List Datum → Bool
  | [], [] => true
  | a :: as, b :: bs => same a b && sameItems as bs
  | _, _ => false

def allAmong : List (Datum × Datum) → List (Datum × Datum) → Bool
  | [], _ => true
  | (j, a) :: rest, entries =>
    (entries.any fun (k, b) => same j k && same a b) && allAmong rest entries

end

end Datum

end Sluice
