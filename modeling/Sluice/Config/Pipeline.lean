import Sluice.Config.Datum

set_option autoImplicit false

namespace Sluice

/-- What is set for one stage: its type, if it is not to be told from the name, and parameters. -/
structure Section where
  typeName? : Option String
  params : Dict Datum

structure Pipeline where
  /-- The name under which it can be a stage of other pipelines. -/
  typeName : String
  description : String
  keys : List String
  dynamic : Bool
  route : String
  sections : Dict Section

/-- Pipelines to be used as stages, and values for parameters that nothing else binds. -/
structure Library where
  essentials : Dict Datum
  pipelines : List Pipeline

def Section.empty : Section := ⟨none, []⟩

namespace Section

def values (s : Section) : Dict Value := s.params.map fun (key, data) => (key, data.toValue)

def written (s : Section) : Value :=
  let params := s.params.map fun (key, data) => (key, data.written)
  .record (match s.typeName? with
    | some typeName => Dict.put "type" (.text typeName) params
    | none => params)

end Section

namespace Pipeline

instance : Inhabited Pipeline := ⟨⟨"", "", [], false, "", []⟩⟩

def written (p : Pipeline) : Value :=
  .record [
    ("main", .record [
      ("description", .text p.description),
      ("dynamic", .bool p.dynamic),
      ("keys", .list (p.keys.map Value.text)),
      ("type", .text p.typeName)]),
    ("route", .text p.route),
    ("stages", .record (p.sections.map fun (name, s) => (name, s.written)))]

end Pipeline

end Sluice
