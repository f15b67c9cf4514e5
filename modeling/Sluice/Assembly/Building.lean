import Sluice.Graph.Basic

set_option autoImplicit false

namespace Sluice

/-- Builds something of a graph. What happens on the way goes into its history, the latest first,
also when building fails. -/
abbrev Building (σ α : Type) : Type := ExceptT EngineError (StateM (List (Event σ))) α

namespace Building

variable {σ α : Type}

def run (b : Building σ α) : Except EngineError α × List (Event σ) :=
  Id.run (StateT.run (ExceptT.run b) [])

def get (result : Except EngineError α) : Building σ α := ExceptT.mk (pure result)

def ofConfig (result : Except ConfigError α) : Building σ α := get (result.mapError .config)

def remember (event : Event σ) : Building σ Unit := modify fun history => event :: history

def report (r : Report) : Building σ Unit := remember (.report r)

def noteAll : List String → Building σ Unit
  | [] => pure ()
  | line :: rest => do
    remember (.note line)
    noteAll rest

def ofReporting (r : Reporting (Except ConfigError α)) : Building σ α := do
  let (result, reports) := Id.run (StateT.run r [])
  modify fun history => (reports.map Event.report).reverse ++ history
  ofConfig result

end Building

end Sluice
