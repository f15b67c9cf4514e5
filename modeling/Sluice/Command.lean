import Sluice.Assembly.Setup
import Sluice.Graph.Use
import Sluice.Invocation
import Sluice.Stage.Catalogue

set_option autoImplicit false

namespace Sluice

/-- Why a command came to nothing: which part of it failed, and why if there is more to say. -/
structure Failure where
  message : String
  cause : Option (ConfigError ⊕ EngineError)

abbrev Command (α : Type) : Type := ExceptT Failure Reporting α

structure Readers where
  pipeline : Format → String → String → Except ConfigError Pipeline
  library : Format → String → String → Except ConfigError Library

def Readers.standard : Readers := ⟨Pipeline.parse, Library.parse⟩

namespace Command

variable {α : Type}

def ofExcept {ε : Type} (failure : ε → Failure) (result : Except ε α) : Command α :=
  ExceptT.mk (pure (result.mapError failure))

def config (message : String) (e : ConfigError) : Failure := ⟨message, some (.inl e)⟩

def engine (message : String) (e : EngineError) : Failure := ⟨message, some (.inr e)⟩

def bare {ε : Type} (message : String) (_ : ε) : Failure := ⟨message, none⟩

def readPipeline (readers : Readers) (files : Files) (path : String) : Command Pipeline := do
  let text ← ofExcept (bare s!"Failed to read pipeline '{path}'") (files path)
  let p ← ofExcept (config s!"Failed to parse pipeline '{path}'")
    (readers.pipeline (.ofPath path) inlinePath text)
  let valid ← ExceptT.lift p.validate
  ofExcept (config s!"Invalid pipeline '{path}'") valid
  return p

def readLibrary (readers : Readers) (files : Files) (path : String) : Command Library := do
  let text ← ofExcept (bare s!"Failed to read library '{path}'") (files path)
  ofExcept (config s!"Failed to parse library '{path}'")
    (readers.library (.ofPath path) inlinePath text)

def part {ε : Type} (failure : ε → Failure) (result : ExceptT ε Reporting α) : Command α :=
  ExceptT.mk ((·.mapError failure) <$> ExceptT.run result)

def addLibrary (library : Library) (b : Blueprint Stock) : Command (Blueprint Stock) :=
  part (config "Failed to register library")
    (b.register (Registry.Change.registerLibrary library))

def parcels (i : Invocation) : List Parcel :=
  let inputs := if i.inputs.isEmpty then [""] else i.inputs
  inputs.map fun input =>
    i.attrs.foldl (fun p (key, value) => p.setAttr key value) (Parcel.ofText input)

def line (p : Parcel) : String := p.text ++ "\t" ++ (Value.record p.attrs).print

def depth : Nat := 1000000

def onGraph (run : Run Stock α) (g : Graph Stock) :
    Command (Except EngineError α × Graph Stock) := do
  match ← ExceptT.lift (run.reporting g) with
  | some finished => return finished
  | none => throw ⟨"Calls within the graph are nested too deeply", none⟩

/-- Sends everything through the graph and shuts it down, also after a failure. What has come out is
looked at when all that is done. -/
def pumpAndClose (g : Graph Stock) (parcels : List Parcel) : Command (List Parcel) := do
  let (pumped, g) ← onGraph (Graph.pumpHandles depth parcels) g
  let (closed, g) ← onGraph (Graph.shutdown depth) g
  let results ← ofExcept (engine "Pipeline failed") pumped
  ofExcept (engine "Shutdown failed") closed
  return results.map g.store.read

def runWith (readers : Readers) (files : Files) (environment : Environment)
    (arguments : List String) : Command (List String) := do
  let i ← ofExcept (fun message => ⟨message, none⟩) (Invocation.parse arguments)
  let pipeline ← readPipeline readers files i.pipeline
  let library ← match i.library with
    | some path => some <$> readLibrary readers files path
    | none => pure none
  let b : Blueprint Stock :=
    { pipeline, registry := Stock.registry, params := i.params, environment }
  let b ← match library with
    | some library => addLibrary library b
    | none => pure b
  let g ← part (engine "Failed to build graph") b.buildReporting
  let results ← pumpAndClose g (parcels i)
  return results.map line

def run : Files → Environment → List String → Command (List String) := runWith .standard

end Command

end Sluice
