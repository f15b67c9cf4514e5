import Sluice.Assembly.Layout
import Sluice.Assembly.Reference

set_option autoImplicit false

namespace Sluice.Binding

variable {σ : Type}

/-- Binds what neither the route nor a section has: a default, or a value from the pool. -/
def fillDefaults (essentials : Dict Value) (declared : ParamSet) (t : ParamTable) : ParamTable :=
  declared.specs.foldl (fun t spec =>
    match spec.default?.or (essentials.at? spec.name) with
    | some value => t.putDefault spec.name value
    | none => t) t

def bindRoot (essentials : Dict Value) (overrides : List (String × Value)) (root : Node σ) :
    Except ConfigError (Node σ) := do
  let t ← overrides.foldlM (fun t (key, value) =>
    if root.declared.declares key then t.bind key value
    else .error (.undeclaredParameter root.name key root.typeName)) root.params
  return { root with params := fillDefaults essentials root.declared t }

def bindEach (enclosing : ParamTable) (path : String) (t : ParamTable)
    (pairs : List (String × Value)) : Except ConfigError ParamTable :=
  pairs.foldlM (fun t (key, value) => do
    t.bind key (← Reference.resolve enclosing path key value)) t

def bindValues (enclosing : ParamTable) (node : Node σ) (t : ParamTable) (values : List Value) :
    Except ConfigError ParamTable :=
  if node.declared.size < values.length then
    .error (.tooManyValues node.path node.typeName values.length node.declared.size)
  else bindEach enclosing node.path t (node.declared.names.zip values)

def resolveBound (enclosing : ParamTable) (path : String) (t : ParamTable) :
    Except ConfigError ParamTable :=
  t.values.foldlM (fun t (key, value) => do
    return t.put key (← Reference.resolve enclosing path key value)) t

def followVariables (env : Environment) (path : String) (t : ParamTable) :
    Except ConfigError (ParamTable × List (String × String)) :=
  t.values.foldlM (fun (t, dynamic) (key, value) =>
    match Source.classify value true with
    | .literal _ => .ok (t, dynamic)
    | .env name =>
      match env.resolve name with
      | some value => .ok (t.put key value, dynamic ++ [(key, name)])
      | none => .error (.unresolvedEnvironment path key name)) (t, [])

/-- Binds the parameters of a member: first what the references on the route give it, then its
section, then what is left. -/
def bindMember (essentials : Dict Value) (env : Environment) (enclosing : ParamTable)
    (dynamic : Bool) (member : Member) (node : Node σ) : Except ConfigError (Node σ) := do
  let t ← member.routeValues.foldlM (bindValues enclosing node) node.params
  let declared := member.settings.filter fun (key, _) => node.declared.declares key
  let t ← bindEach enclosing node.path t declared
  let t := fillDefaults essentials node.declared t
  let t ← resolveBound enclosing node.path t
  if dynamic then
    let (params, dynamic) ← followVariables env node.path t
    return { node with params, dynamic }
  else return { node with params := t }

def paramsOf (nodes : Array (Node σ)) (id : NodeId) : ParamTable :=
  ((nodes[id]?).map Node.params).getD default

def bindLevel (essentials : Dict Value) (env : Environment) (nodes : Array (Node σ))
    (s : Level) : Except ConfigError (Array (Node σ)) :=
  let enclosing := paramsOf nodes s.node
  s.members.foldlM (fun nodes (id, member) =>
    match nodes[id]? with
    | some node => do
      let node ← bindMember essentials env enclosing s.pipeline.dynamic member node
      return nodes.setIfInBounds id node
    | none => .ok nodes) nodes

def bindAll (essentials : Dict Value) (env : Environment) (overrides : List (String × Value))
    (layout : Layout σ) : Except ConfigError (Layout σ) := do
  let nodes ← match layout.nodes[0]? with
    | some root => do
      let root ← bindRoot essentials overrides root
      pure (layout.nodes.setIfInBounds 0 root)
    | none => pure layout.nodes
  let nodes ← layout.levels.foldlM (bindLevel essentials env) nodes
  return { layout with nodes }

end Sluice.Binding
