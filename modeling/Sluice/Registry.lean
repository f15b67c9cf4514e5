import Sluice.Config.Check
import Sluice.Param.Set
import Sluice.Stage.Stock

set_option autoImplicit false

namespace Sluice

/-- A type of stage, and the state in which its stages start. -/
structure Descriptor (σ : Type) where
  typeName : String
  description : String
  params : ParamSet
  ownKeys : List String
  initial : σ

namespace Descriptor

variable {σ τ : Type}

/-- Its own keys come after those of what it builds on, and override their defaults. -/
def make (typeName description : String) (bases : List (List String)) (keys : List String)
    (initial : σ) : Descriptor σ where
  typeName
  description
  params := ParamSet.latestDefaults ((bases ++ [keys]).map ParamSet.parse)
  ownKeys := keys.map fun key => (ParamSpec.parse key).name
  initial

def map (f : σ → τ) (d : Descriptor σ) : Descriptor τ := { d with initial := f d.initial }

def checkName (d : Descriptor σ) : Except ConfigError Unit :=
  if Text.isAllBlank d.typeName then .error (.invalidConfig "stage type name must not be empty")
  else if Text.isLowerCase d.typeName then .ok ()
  else .error (.notLowerCase d.typeName)

def repeated? (before : List String) : List String → Option String
  | [] => none
  | name :: rest => if name ∈ before then some name else repeated? (name :: before) rest

def checkParams (d : Descriptor σ) : Except ConfigError Unit :=
  match d.params.names.find? fun name => !Text.isLowerCase name with
  | some name => .error (.notLowerCase (d.typeName ++ "." ++ name))
  | none =>
    match repeated? [] d.ownKeys with
    | some name => .error (.duplicateParameter d.typeName name)
    | none => .ok ()

end Descriptor

/-- What can be used in a pipeline: types of stages, other pipelines, and values for parameters that
nothing else binds. -/
structure Registry (σ : Type) where
  stages : Dict (Descriptor σ)
  graphs : Dict Pipeline
  essentials : Dict Value

namespace Registry

variable {σ τ : Type}

def empty : Registry σ := ⟨[], [], []⟩

def map (f : σ → τ) (r : Registry σ) : Registry τ :=
  { r with stages := r.stages.map fun (name, d) => (name, d.map f) }

def register (d : Descriptor σ) (r : Registry σ) : Except ConfigError (Registry σ) := do
  d.checkName
  d.checkParams
  if r.stages.has d.typeName then .error (.duplicateType d.typeName)
  else .ok { r with stages := r.stages.put d.typeName d }

def setEssential (name : String) (value : Value) (r : Registry σ) : Registry σ :=
  { r with essentials := r.essentials.put name value }

/-- A registry that changes step by step; what changed before a failure stays. -/
abbrev Change (σ α : Type) : Type := ExceptT ConfigError (StateT (Registry σ) Reporting) α

namespace Change

def run {α : Type} (change : Change σ α) (r : Registry σ) :
    Reporting (Except ConfigError α × Registry σ) :=
  StateT.run (ExceptT.run change) r

def register (d : Descriptor σ) : Change σ Unit := do
  match Registry.register d (← get) with
  | .ok r => set r
  | .error e => throw e

def registerGraph (p : Pipeline) : Change σ Unit := do
  ExceptT.mk (StateT.lift p.validate)
  let r ← get
  if r.graphs.has p.typeName then throw (.duplicateType p.typeName)
  else set { r with graphs := r.graphs.put p.typeName p }

def registerGraphs : List Pipeline → Change σ Unit
  | [] => pure ()
  | p :: rest => do
    registerGraph p
    registerGraphs rest

def registerLibrary (library : Library) : Change σ Unit := do
  modify fun r => library.essentials.foldl
    (fun r (name, data) => r.setEssential name data.toValue) r
  registerGraphs library.pipelines

end Change

end Registry

end Sluice
