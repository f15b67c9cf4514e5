import Sluice.Assembly.Layout

set_option autoImplicit false

namespace Sluice.Wiring

variable {σ : Type}

def lookup (s : Level) (reference : String) : Except ConfigError NodeId :=
  match s.find? (Literal.bareName reference) with
  | some id => .ok id
  | none => .error (.unknownStage reference)

structure Linked (σ : Type) where
  nodes : Array (Node σ)
  entry : Option NodeId
  exit : Option NodeId

def linkBranch (source target : NodeId) (nodes : Array (Node σ)) : Array (Node σ) :=
  nodes.modify source fun node => { node with branch := some target }

/-- Links one hop. The first leads away from the entry, and the last that ends ends at the exit. -/
def linkHop (s : Level) (linked : Linked σ) (hop : Route.Hop) :
    Except ConfigError (Linked σ) := do
  let source ← lookup s hop.source
  let linked := { linked with entry := linked.entry.or (some source) }
  match hop.target with
  | none => return { linked with exit := some source }
  | some target => do
    let target ← lookup s target
    match hop.edge with
    | .branch => return { linked with nodes := linkBranch source target linked.nodes }
    | .main => return { linked with nodes := Graph.linkMain source (some target) linked.nodes }

def setEnds (entry exit : Option NodeId) (node : Node σ) : Node σ :=
  match node.kind with
  | .subGraph _ _ => { node with kind := .subGraph entry exit }
  | _ => node

def linkLevel (nodes : Array (Node σ)) (s : Level) : Except ConfigError (Array (Node σ)) := do
  let linked ← s.plan.hops.foldlM (linkHop s) ⟨nodes, none, none⟩
  return linked.nodes.modify s.node (setEnds linked.entry linked.exit)

def linkAll (layout : Layout σ) : Except ConfigError (Layout σ) := do
  let nodes ← layout.levels.reverse.foldlM linkLevel layout.nodes
  return { layout with nodes }

def successorOf [Stage σ] (nodes : Array (Node σ)) (node : Node σ) : Option Successor :=
  node.main.bind fun id => (nodes[id]?).map fun next =>
    ⟨id, next.path, next.typeName, next.state?.any Stage.hasTank⟩

def attachFrom [Stage σ] : Nat → NodeId → Array (Node σ) → Building σ (Array (Node σ))
  | 0, _, nodes => return nodes
  | count + 1, id, nodes =>
    match nodes[id]? with
    | none => return nodes
    | some node =>
      match node.kind with
      | .stage state => do
        let (lines, attached) := Stage.attach node.path (successorOf nodes node) state
        Building.noteAll lines
        let state ← Building.get (attached.mapError .routing)
        attachFrom count (id + 1)
          (nodes.setIfInBounds id { node with kind := .stage state })
      | _ => attachFrom count (id + 1) nodes

def attachAll [Stage σ] (nodes : Array (Node σ)) : Building σ (Array (Node σ)) :=
  attachFrom nodes.size 0 nodes

end Sluice.Wiring
