import Sluice.Edge
import Sluice.Literal
import Sluice.Report
import Sluice.Route.Element

set_option autoImplicit false

namespace Sluice.Route

/-- An edge of a compiled route, between references; without a target it ends there. -/
structure Hop where
  source : String
  edge : Edge
  target : Option String
  deriving DecidableEq, Repr

def Hop.text (hop : Hop) : String :=
  let arrow := match hop.edge with | .main => ">>>" | .branch => "^^^"
  hop.source ++ " " ++ arrow ++ " " ++ hop.target.getD "None"

/-- A compiled route. -/
structure Plan where
  /-- Names in the order of their positions, fan-outs included, each once. -/
  names : List String
  hops : List Hop
  references : List String
  deriving DecidableEq, Repr

def fanOutStart : String := "hidden_brancher_"

def isFanOutName (name : String) : Bool := fanOutStart.toList.isPrefixOf name.toList

def Plan.fanOuts (plan : Plan) : List String := plan.names.filter isFanOutName

def fanOutName (n : Nat) : String :=
  fanOutStart ++ (if n < 10 then "0" else "") ++ toString n

structure Tagged (α : Type) where
  position : Nat
  item : α

/-- A route being compiled. Stages stand ten positions apart, and a fan-out five behind its
stage. -/
structure Draft where
  position : Nat
  fanOutCount : Nat
  hops : List (Tagged Hop)
  names : List (Tagged String)
  references : List String

def Draft.empty : Draft := ⟨0, 0, [], [], []⟩

def Draft.hop (d : Draft) (source : Tagged String) (edge : Edge) (target : Option String) : Draft :=
  { d with hops := d.hops ++ [⟨source.position, ⟨source.item, edge, target⟩⟩] }

/-- A sequence being walked: its first reference, the node that the next one follows, and the
draft so far. -/
structure Walk where
  head : Option String
  previous : Option (Tagged String)
  draft : Draft

def Walk.start (draft : Draft) : Walk := ⟨none, none, draft⟩

def Walk.stage (w : Walk) (reference : String) : Walk :=
  let position := w.draft.position + 10
  let d := { w.draft with
    position
    names := w.draft.names ++ [⟨position, Literal.bareName reference⟩]
    references := w.draft.references ++ [reference] }
  { head := some (w.head.getD reference)
    previous := some ⟨position, reference⟩
    draft := match w.previous with
      | some source => d.hop source .main (some reference)
      | none => d }

def Walk.finish (w : Walk) : String × Draft :=
  (w.head.getD "", match w.previous with
    | some source => w.draft.hop source .main none
    | none => w.draft)

def Walk.fanOut (source : Tagged String) (d : Draft) : Tagged String × Draft :=
  let count := d.fanOutCount + 1
  let node : Tagged String := ⟨source.position + 5, fanOutName count⟩
  let d := { d with fanOutCount := count, names := d.names ++ [node] }
  (node, d.hop source .main (some node.item))

mutual

def Walk.element (w : Walk) : Element → Walk
  | .stage reference => w.stage reference
  | .branch inner =>
    match w.previous with
    | none => w
    | some source =>
      let (node, d) := Walk.fanOut source w.draft
      let (head, d) := (Walk.elements (.start d) inner).finish
      { w with previous := some node, draft := d.hop node .branch (some head) }

def Walk.elements (w : Walk) : List Element → Walk
  | [] => w
  | element :: rest => Walk.elements (Walk.element w element) rest

end

def insertBy {α : Type} (key : α → Nat) (x : α) : List α → List α
  | [] => [x]
  | y :: rest => if key x ≤ key y then x :: y :: rest else y :: insertBy key x rest

def sortBy {α : Type} (key : α → Nat) (items : List α) : List α :=
  items.foldr (insertBy key) []

def hopKey (hop : Tagged Hop) : Nat :=
  2 * hop.position + match hop.item.edge with | .branch => 0 | .main => 1

def distinct {α : Type} [DecidableEq α] (items : List α) : List α :=
  items.foldl (fun found x => if x ∈ found then found else found ++ [x]) []

def Draft.plan (d : Draft) : Plan where
  names := distinct ((sortBy Tagged.position d.names).map Tagged.item)
  hops := distinct ((sortBy hopKey d.hops).map Tagged.item)
  references := d.references

def Plan.ofElements (route : List Element) : Plan :=
  (Walk.elements (.start .empty) route).finish.2.plan

def Plan.read (text : String) : Except RouteError Plan := (Route.read text).map Plan.ofElements

end Sluice.Route

namespace Sluice.Route.Plan

def compile (route : String) : Reporting (Except RouteError Plan) := do
  let result := read route
  match result with
  | .ok plan => report (.routeCompiled route plan.names.length plan.hops.length)
  | .error e => report (.routeRejected route e.message)
  return result

end Sluice.Route.Plan
