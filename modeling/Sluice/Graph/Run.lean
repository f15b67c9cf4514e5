import Sluice.Graph.Basic

set_option autoImplicit false

namespace Sluice

/-- A run on a graph. What was done before an error stays done. A run that has not come to its end
has no result. -/
abbrev Run (σ α : Type) : Type := ExceptT EngineError (StateT (Graph σ) Option) α

namespace Run

variable {σ α : Type}

def unfinished : Run σ α := ExceptT.mk fun _ => none

def start (run : Run σ α) (g : Graph σ) : Option (Except EngineError α × Graph σ) :=
  StateT.run (ExceptT.run run) g

def attempt (run : Run σ α) : Run σ (Except EngineError α) :=
  ExceptT.mk (Except.ok <$> ExceptT.run run)

def get (result : Except EngineError α) : Run σ α := ExceptT.mk (Pure.pure result)

def graph : Run σ (Graph σ) := MonadState.get

def update (f : Graph σ → Graph σ) : Run σ Unit := modify f

def remember (event : Event σ) : Run σ Unit :=
  update fun g => { g with history := event :: g.history }

def report (r : Report) : Run σ Unit := remember (.report r)

def noteAll : List String → Run σ Unit
  | [] => pure ()
  | line :: rest => do
    remember (.note line)
    noteAll rest

def atNode (id : NodeId) (f : Node σ → Run σ Unit) : Run σ Unit := do
  match (← graph).node? id with
  | some node => f node
  | none => pure ()

def updateNode (id : NodeId) (f : Node σ → Node σ) : Run σ Unit := update (·.updateNode id f)

def setState (id : NodeId) (s : σ) : Run σ Unit :=
  updateNode id fun node => { node with kind := .stage s }

def setTank (id : NodeId) (t : Tank) : Run σ Unit :=
  updateNode id fun node => { node with tank := t }

def setPhase (id : NodeId) (phase : Phase) : Run σ Unit :=
  updateNode id fun node => { node with phase }

def tankOf (id : NodeId) : Run σ Tank := do
  return (((← graph).node? id).map Node.tank).getD .empty

def look (h : Handle) : Run σ Parcel := return (← graph).store.read h

def edit (h : Handle) (p : Parcel) : Run σ Unit :=
  update fun g => { g with store := g.store.write h p }

def add (p : Parcel) : Run σ Handle := do
  let g ← graph
  let (h, store) := g.store.add p
  set { g with store }
  return h

def began (id : NodeId) (hook : Hook) : Run σ Unit :=
  atNode id fun node => remember (.began id node hook)

def holding (id : NodeId) (run : Run σ α) : Run σ α := do
  updateNode id fun node => { node with busy := true }
  let result ← attempt run
  updateNode id fun node => { node with busy := false }
  get result

end Run

end Sluice
