import Sluice.Assembly.Building
import Sluice.Registry
import Sluice.Route.Plan

set_option autoImplicit false

namespace Sluice

structure Member where
  name : String
  typeName : String
  /-- The values at each reference on the route that has some. -/
  routeValues : List (List Value)
  settings : Dict Value
  connected : Bool

mutual

inductive Outline (σ : Type) where
  | make (pipeline : Pipeline) (plan : Route.Plan) (parts : List (Part σ))

inductive Part (σ : Type) where
  | fanOut (member : Member)
  | stage (member : Member) (type : Descriptor σ)
  | subGraph (member : Member) (inner : Outline σ)

end

variable {σ : Type}

def Part.member : Part σ → Member
  | .fanOut member => member
  | .stage member _ => member
  | .subGraph member _ => member

namespace Outline

def pipeline : Outline σ → Pipeline
  | .make pipeline _ _ => pipeline

def plan : Outline σ → Route.Plan
  | .make _ plan _ => plan

def parts : Outline σ → List (Part σ)
  | .make _ _ parts => parts

def declared (o : Outline σ) : ParamSet := .parse o.pipeline.keys

def fanOutType : String := "fan_out"

def maxNesting : Nat := 50

def memberNames (p : Pipeline) (plan : Route.Plan) : List String :=
  plan.names ++ p.sections.keys.filter fun name => !plan.names.contains name

def valuesOf (plan : Route.Plan) (name : String) : List (List Value) :=
  let own := plan.references.filter fun reference => Literal.bareName reference == name
  (own.map fun reference => (Literal.split reference).2).filter fun values => !values.isEmpty

def member (p : Pipeline) (plan : Route.Plan) (name typeName : String) : Member where
  name
  typeName
  routeValues := valuesOf plan name
  settings := ((p.sections.at? name).map Section.values).getD []
  connected := plan.names.contains name

/-- The first of some type names that is registered, with what it is registered as. -/
def firstRegistered {α : Type} (entries : Dict α) (candidates : List String) :
    Option (String × α) :=
  candidates.findSome? fun name => (entries.at? name).map fun found => (name, found)

/-- Settles the type of a member: a type of stage if any of its type names is one, and otherwise a
pipeline. -/
def part (r : Registry σ) (inner : Pipeline → Building σ (Outline σ)) (p : Pipeline)
    (plan : Route.Plan) (name : String) : Building σ (Part σ) := do
  if plan.fanOuts.contains name then return .fanOut (member p plan name fanOutType)
  let given := (p.sections.at? name).bind Section.typeName?
  let candidates := (given.map fun typeName => [typeName]).getD (Literal.candidates name)
  match firstRegistered r.stages candidates with
  | some (typeName, type) => return .stage (member p plan name typeName) type
  | none =>
    match firstRegistered r.graphs candidates with
    | some (typeName, graph) => return .subGraph (member p plan name typeName) (← inner graph)
    | none => throw (.config (.unknownType name (given.getD name)))

def parts? (r : Registry σ) (inner : Pipeline → Building σ (Outline σ)) (p : Pipeline)
    (plan : Route.Plan) : List String → Building σ (List (Part σ))
  | [] => return []
  | name :: rest => do
    let first ← part r inner p plan name
    return first :: (← parts? r inner p plan rest)

def declareWithin (r : Registry σ) : Nat → Pipeline → Building σ (Outline σ)
  | 0, p => throw (.config (.nestingTooDeep p.typeName maxNesting))
  | depth + 1, p => do
    let plan ← Building.ofReporting ((·.mapError .route) <$> Route.Plan.compile p.route)
    return .make p plan (← parts? r (declareWithin r depth) p plan (memberNames p plan))

def declare (r : Registry σ) (p : Pipeline) : Building σ (Outline σ) :=
  declareWithin r (maxNesting + 1) p

end Outline

end Sluice
