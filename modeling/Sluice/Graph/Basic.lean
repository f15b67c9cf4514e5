import Sluice.Graph.Node

set_option autoImplicit false

namespace Sluice

inductive Hook where
  /-- Following the variables, before a parcel. -/
  | refresh (e : Environment)
  | accept (h : Handle) (p : Parcel)
  | notice (m : Message)
  | opening (m : Message)
  | flush
  | close

/-- What happened in a graph, as it is kept in its history. -/
inductive Event (σ : Type) where
  | report (r : Report)
  | note (line : String)
  /-- A call of a stage began, with the node as it was then. -/
  | began (id : NodeId) (node : Node σ) (hook : Hook)
  /-- A call that was to flush or close a stage ended with an error. -/
  | failed (id : NodeId) (hook : Hook) (e : EngineError)
  /-- A packet came to a stage that was closed. -/
  | refused (id : NodeId) (packet : Packet)

namespace Event

variable {σ : Type}

def report? : Event σ → Option Report
  | .report r => some r
  | _ => none

def note? : Event σ → Option String
  | .note line => some line
  | _ => none

end Event

/-- A linked graph. The root node stands for the whole of it; the pump sink is a node that nothing
leads to until results are collected. -/
structure Graph (σ : Type) where
  nodes : Array (Node σ)
  root : NodeId
  pumpSink : NodeId
  environment : Environment
  shuttingDown : Bool
  store : Store
  /-- What happened, the latest first. -/
  history : List (Event σ)

namespace Graph

variable {σ : Type}

def node? (g : Graph σ) (id : NodeId) : Option (Node σ) := g.nodes[id]?

def updateNode (g : Graph σ) (id : NodeId) (f : Node σ → Node σ) : Graph σ :=
  { g with nodes := g.nodes.modify id f }

def rootNode? (g : Graph σ) : Option (Node σ) := g.node? g.root

def pipeline (g : Graph σ) : String := (g.rootNode?.map Node.typeName).getD ""

def entry (g : Graph σ) : Option NodeId := g.rootNode?.bind Node.entry

def exit (g : Graph σ) : Option NodeId := g.rootNode?.bind Node.exit

def pathOf (g : Graph σ) (id : NodeId) : String := ((g.node? id).map Node.path).getD ""

def entryName (g : Graph σ) : Option String := g.entry.map g.pathOf

def exitName (g : Graph σ) : Option String := g.exit.map g.pathOf

/-- Sets the main successor of a node. The exit of a sub-graph is linked onward with it, and so is
the exit of that, as deep as given. -/
def linkMainBy : Nat → NodeId → Option NodeId → Array (Node σ) → Array (Node σ)
  | 0, _, _, nodes => nodes
  | depth + 1, source, target, nodes =>
    let nodes := nodes.modify source fun node => { node with main := target }
    match nodes[source]?.bind Node.exit with
    | some exit => linkMainBy depth exit target nodes
    | none => nodes

/-- No sub-graph is nested deeper than there are nodes. -/
def linkMain (source : NodeId) (target : Option NodeId) (nodes : Array (Node σ)) :
    Array (Node σ) :=
  linkMainBy nodes.size source target nodes

def pumpSinkName : String := "pump_sink"

def pumpSinkNode [Stage σ] : Node σ :=
  let params := ParamTable.make pumpSinkName "sink"
  { Node.make pumpSinkName pumpSinkName "sink" (.stage (Stage.ofSink .empty)) with
    params := (params.put "max_results" (.int 0)).put "capture_msgs" (.bool false) }

def make [Stage σ] (nodes : Array (Node σ)) (root : NodeId) (environment : Environment)
    (history : List (Event σ)) : Graph σ where
  nodes := nodes.push pumpSinkNode
  root
  pumpSink := nodes.size
  environment
  shuttingDown := false
  store := .empty
  history

def numbered (g : Graph σ) : List (NodeId × Node σ) :=
  (g.nodes.toList.zipIdx.map fun (node, id) => (id, node)).filter fun entry =>
    entry.1 != g.pumpSink

def find? (g : Graph σ) (path : String) : Option (NodeId × Node σ) :=
  g.numbered.find? fun entry => entry.2.path == path

def nodeNames (g : Graph σ) : List String :=
  (g.numbered.filter fun entry => entry.1 != g.root).map fun entry => entry.2.path

def param? (g : Graph σ) (path key : String) : Option Value :=
  (g.find? path).bind fun entry => entry.2.params.get? key

def phase? (g : Graph σ) (path : String) : Option Phase :=
  (g.find? path).map fun entry => entry.2.phase

def inspect {α : Type} (g : Graph σ) (path : String) (wanted : String)
    (read : Node σ → σ → Option α) : Except EngineError α :=
  match g.find? path with
  | none => .error (.config (.unknownStage path))
  | some (_, node) =>
    match node.kind with
    | .stage state =>
      match read node state with
      | some a => .ok a
      | none =>
        .error (.config (.invalidValue node.path "type"
          s!"stage is a '{node.typeName}', not a {wanted}"))
    | _ => .error (.config (.unknownStage path))

def reportsSince (g : Graph σ) (length : Nat) : List Report :=
  ((g.history.take (g.history.length - length)).filterMap Event.report?).reverse

def notesSince (g : Graph σ) (length : Nat) : List String :=
  ((g.history.take (g.history.length - length)).filterMap Event.note?).reverse

end Graph

end Sluice
