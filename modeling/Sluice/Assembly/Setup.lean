import Sluice.Assembly.Build
import Sluice.Config.Format
import Sluice.Graph.Run

set_option autoImplicit false

namespace Sluice

def reportAll : List Report → Reporting Unit
  | [] => pure ()
  | r :: rest => do
    report r
    reportAll rest

namespace Blueprint

variable {σ : Type}

def load (registry : Registry σ) (files : Files) (path : String) :
    ExceptT ConfigError Reporting (Blueprint σ) := do
  let pipeline ← Pipeline.loadValid files path
  return { pipeline, registry, params := [], environment := .empty }

def register (change : Registry.Change σ Unit) (b : Blueprint σ) :
    ExceptT ConfigError Reporting (Blueprint σ) := do
  let (result, registry) ← ExceptT.lift (change.run b.registry)
  ExceptT.mk (pure result)
  return { b with registry }

def addLibrary (files : Files) (b : Blueprint σ) (path : String) :
    ExceptT ConfigError Reporting (Blueprint σ) := do
  register (Registry.Change.registerLibrary (← Library.load files path)) b

def buildReporting [Stage σ] (b : Blueprint σ) : ExceptT EngineError Reporting (Graph σ) := do
  let (built, history) := b.build
  ExceptT.lift (reportAll (history.reverse.filterMap Event.report?))
  ExceptT.mk (pure built)

end Blueprint

def Run.reporting {σ α : Type} (run : Run σ α) (g : Graph σ) :
    Reporting (Option (Except EngineError α × Graph σ)) := do
  let finished := run.start g
  if let some (_, after) := finished then reportAll (after.reportsSince g.history.length)
  return finished

end Sluice
