import Sluice.Assembly.Layout

set_option autoImplicit false

namespace Sluice.Inspection

variable {σ : Type}

def checkEssentials (node : Node σ) : Except ConfigError Unit :=
  match node.declared.essentials.find? fun spec => !node.params.has spec.name with
  | some spec =>
    let stage := if node.path = "" then node.name else node.path
    .error (.missingParameter stage spec.name node.typeName)
  | none => .ok ()

def checkKeys (typeName : String) : List String → List String → Except ConfigError Unit
  | _, [] => .ok ()
  | before, name :: rest =>
    if !Text.isLowerCase name then .error (.notLowerCase (typeName ++ "." ++ name))
    else if name ∈ before then .error (.duplicateParameter typeName name)
    else checkKeys typeName (name :: before) rest

def reservedKeys : List String := ["type"]

def checkSettings (member : Member) (node : Node σ) : Except ConfigError Unit :=
  match member.settings.keys.find? fun key =>
    !reservedKeys.contains key && !node.declared.declares key with
  | some key => .error (.undeclaredParameter node.path key node.typeName)
  | none => .ok ()

def checkMember (member : Member) (node : Node σ) : Except ConfigError Unit := do
  if !Text.isLowerCase node.name then throw (.notLowerCase node.path)
  checkSettings member node
  checkEssentials node

def inspectMembers (nodes : Array (Node σ)) : List (NodeId × Member) → Building σ Unit
  | [] => pure ()
  | (id, member) :: rest => do
    if let some node := nodes[id]? then
      Building.ofConfig (checkMember member node)
      if !member.connected then Building.report (.unconnectedStage node.path)
    inspectMembers nodes rest

def inspectLevels (nodes : Array (Node σ)) : List Level → Building σ Unit
  | [] => pure ()
  | s :: rest => do
    let names := s.pipeline.keys.map fun key => (ParamSpec.parse key).name
    Building.ofConfig (checkKeys s.pipeline.typeName [] names)
    inspectMembers nodes s.members
    inspectLevels nodes rest

def inspect (layout : Layout σ) : Building σ Unit := do
  if let some root := layout.nodes[0]? then Building.ofConfig (checkEssentials root)
  inspectLevels layout.nodes layout.levels

end Sluice.Inspection
