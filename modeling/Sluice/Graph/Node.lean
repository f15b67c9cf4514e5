import Sluice.Param.Set
import Sluice.Stage.Basic

set_option autoImplicit false

namespace Sluice

inductive Phase where
  | running
  | flushing
  | closing
  | closed
  deriving DecidableEq, Repr

def Phase.name : Phase → String
  | .running => "Running"
  | .flushing => "Flushing"
  | .closing => "Closing"
  | .closed => "Closed"

inductive NodeKind (σ : Type) where
  | stage (state : σ)
  | fanOut
  /-- Its first node, and the node that what follows it comes after. -/
  | subGraph (entry exit : Option NodeId)

structure Node (σ : Type) where
  name : String
  path : String
  typeName : String
  kind : NodeKind σ
  main : Option NodeId
  branch : Option NodeId
  declared : ParamSet
  params : ParamTable
  /-- Parameters with the variable that each of them follows. -/
  dynamic : List (String × String)
  phase : Phase
  busy : Bool
  /-- Whether the stage is to be closed once its active call has returned. -/
  closeDeferred : Bool
  tank : Tank

namespace Node

variable {σ : Type}

def make (name path typeName : String) (kind : NodeKind σ) : Node σ where
  name
  path
  typeName
  kind
  main := none
  branch := none
  declared := .empty
  params := .make path typeName
  dynamic := []
  phase := .running
  busy := false
  closeDeferred := false
  tank := .empty

def state? (node : Node σ) : Option σ :=
  match node.kind with
  | .stage state => some state
  | _ => none

def isFanOut (node : Node σ) : Bool :=
  match node.kind with
  | .fanOut => true
  | _ => false

def entry (node : Node σ) : Option NodeId :=
  match node.kind with
  | .subGraph entry _ => entry
  | _ => none

def exit (node : Node σ) : Option NodeId :=
  match node.kind with
  | .subGraph _ exit => exit
  | _ => none

def answersTo (node : Node σ) (destination : String) : Bool :=
  destination = node.name || destination = node.path || destination = node.typeName

def here (node : Node σ) (id : NodeId) : Here := ⟨id, node.path, node.typeName⟩

end Node

end Sluice
