import Sluice.Assembly.Outline

set_option autoImplicit false

namespace Sluice

/-- One level of a graph: a pipeline whose members have nodes. -/
structure Level where
  node : NodeId
  pipeline : Pipeline
  plan : Route.Plan
  members : List (NodeId × Member)

namespace Level

/-- The node of a member; of two with one name the later. -/
def find? (s : Level) (name : String) : Option NodeId :=
  (s.members.reverse.find? fun entry => entry.2.name == name).map Prod.fst

end Level

/-- The nodes of a graph before they are linked, and the pipelines they belong to, each before
those nested in it. -/
structure Layout (σ : Type) where
  nodes : Array (Node σ)
  levels : List Level

namespace Layout

variable {σ : Type}

def joinPath (parent name : String) : String := if parent = "" then name else parent ++ "." ++ name

def nodeOf (parent : String) (part : Part σ) : Node σ :=
  let member := part.member
  let node := Node.make member.name (joinPath parent member.name) member.typeName
  match part with
  | .fanOut _ => node .fanOut
  | .stage _ type => { node (.stage type.initial) with declared := type.params }
  | .subGraph _ inner => { node (.subGraph none none) with declared := inner.declared }

def addMembers (parent : String) (parts : List (Part σ)) (layout : Layout σ) : Layout σ :=
  { layout with nodes := layout.nodes ++ (parts.map (nodeOf parent)).toArray }

def level (node first : NodeId) (pipeline : Pipeline) (plan : Route.Plan)
    (parts : List (Part σ)) : Level where
  node
  pipeline
  plan
  members := parts.zipIdx first |>.map fun (part, id) => (id, part.member)

mutual

def addOutline (node : NodeId) (path : String) : Outline σ → Layout σ → Layout σ
  | .make pipeline plan parts, layout =>
    let first := layout.nodes.size
    let layout := addMembers path parts layout
    let layout :=
      { layout with levels := layout.levels ++ [level node first pipeline plan parts] }
    addInner first path parts layout

def addInner (id : NodeId) (parent : String) : List (Part σ) → Layout σ → Layout σ
  | [], layout => layout
  | part :: rest, layout => addInner (id + 1) parent rest (addPart id parent part layout)

def addPart (id : NodeId) (parent : String) : Part σ → Layout σ → Layout σ
  | .subGraph member inner, layout => addOutline id (joinPath parent member.name) inner layout
  | .fanOut _, layout => layout
  | .stage _ _, layout => layout

end

def rootNode (o : Outline σ) : Node σ :=
  { Node.make o.pipeline.typeName "" o.pipeline.typeName (.subGraph none none) with
    declared := o.declared }

def ofOutline (o : Outline σ) : Layout σ := addOutline 0 "" o ⟨#[rootNode o], []⟩

end Layout

end Sluice
