import Sluice.Assembly.Binding
import Sluice.Assembly.Inspection
import Sluice.Assembly.Wiring

set_option autoImplicit false

namespace Sluice

structure Blueprint (σ : Type) where
  pipeline : Pipeline
  registry : Registry σ
  params : List (String × Value)
  environment : Environment

namespace Blueprint

variable {σ : Type} [Stage σ]

def configureNode (node : Node σ) : Except ConfigError (Node σ) :=
  match node.kind with
  | .stage state =>
    let (result, fitted) := (Stage.configure node.params).run ⟨state, node.tank⟩
    result.map fun _ => { node with kind := .stage fitted.state, tank := fitted.tank }
  | _ => .ok node

/-- Settles types, lays out nodes, binds parameters, links, checks and configures, each for the
whole graph before the next. -/
def assemble (b : Blueprint σ) : Building σ (Array (Node σ)) := do
  let outline ← Outline.declare b.registry b.pipeline
  let layout := Layout.ofOutline outline
  let layout ← Building.ofConfig
    (Binding.bindAll b.registry.essentials b.environment b.params layout)
  let layout ← Building.ofConfig (Wiring.linkAll layout)
  let nodes ← Wiring.attachAll layout.nodes
  Inspection.inspect { layout with nodes }
  Building.ofConfig (nodes.mapM configureNode)

/-- Builds the graph and reports how that went. The second part of the answer is what happened on
the way. -/
def build (b : Blueprint σ) : Except EngineError (Graph σ) × List (Event σ) :=
  let name := b.pipeline.typeName
  let started : Event σ := .report (.assemblyStarted name b.pipeline.route)
  let (result, history) := b.assemble.run
  let history := history ++ [started]
  match result with
  | .error e => (.error e, .report (.assemblyFailed name e.text) :: history)
  | .ok nodes =>
    let entry := (Graph.make nodes 0 b.environment []).entryName.getD "none"
    let history :=
      .report (.assemblyCompleted name (nodes.size - 1) entry .zero) :: history
    (.ok (Graph.make nodes 0 b.environment history), history)

end Blueprint

end Sluice
