import Mathlib.Tactic.IntervalCases
import Sluice.Proofs.Graph.TrampolineRuns
import Sluice.Proofs.Graph.Supervision

set_option autoImplicit false

namespace Sluice

/-- A script goes over a parcel again and again while an attribute of the parcel asks for it. -/
def trampoline (f : Body) (environment : Environment) : Blueprint Stock where
  pipeline := ⟨"trampoline", "", [], false,
    "tank_queue:0 body branch_if:recurse (tank_feed tank_queue) sink", []⟩
  registry := { Stock.registry with
    stages := Stock.registry.stages.put "body" (Stock.scriptType "body" [] f.script) }
  params := []
  environment

theorem Blueprint.build_assembled {σ : Type} [Stage σ] {b : Blueprint σ} {nodes : Array (Node σ)}
    (assembled : b.assemble.run.1 = .ok nodes) :
    ∃ history, b.build.1 = .ok (Graph.make nodes 0 b.environment history) := by
  unfold build
  rcases ran : b.assemble.run with ⟨result, history⟩
  rw [ran] at assembled
  cases assembled
  exact ⟨_, rfl⟩

def Graph.tankOf (g : Graph Stock) (path : String) : Except EngineError Tank :=
  g.inspect path "tank_queue" fun node s => match s with
    | .tankQueue => some node.tank
    | _ => none

namespace Bouncing

theorem Node.card_rescript (run : Script) (node : Node Stock) :
    (node.map (Stock.rescript run)).card = node.card := by
  obtain ⟨_, _, _, kind, _, _, _, _, _, _, _, _, _⟩ := node
  cases kind with
  | stage s => cases s <;> rfl
  | fanOut => rfl
  | subGraph entry exit => rfl

def still : Body := fun c => (c, none)

theorem still_recast (f : Body) (environment : Environment) :
    (trampoline still environment).recast (Stock.rescript f.script) = trampoline f environment := by
  -- No other type of stage has a script to begin with.
  rfl

def trampolining (f : Body) : Job := ⟨f, "trampoline", "body"⟩

def calculates : Stock → Bool
  | .factorial => true
  | _ => false

/-- What a node has to be before anything comes into the graph. The step is either for scripts or for
the stage that comes with the engine. -/
def rests (own : Bool) (node : Node Stock) : Bool :=
  !node.busy && node.tank.buffer.slots.isEmpty && decide (node.tank.capacity = 0) &&
    (node.state?.all fun s => s.duty != .body || calculates s == own) &&
    (node.state?.bind Stock.toSink?).all fun s => s.results.isEmpty

def ready (j : Job) (own : Bool) (nodes : Array (Node Stock)) : Bool :=
  decide (nodes.map Node.card = cards j none) && nodes.all (rests own)

set_option maxRecDepth 100000 in
theorem still_assembled : ∃ nodes, (trampoline still .empty).assemble.run.1 = .ok nodes ∧
    ready (trampolining still) false (nodes.push Graph.pumpSinkNode) = true := by
  have checked : (match (trampoline still .empty).assemble.run.1 with
      | .ok nodes => ready (trampolining still) false (nodes.push Graph.pumpSinkNode)
      | .error _ => false) = true := by decide +kernel
  split at checked
  next nodes assembled => exact ⟨nodes, assembled, checked⟩
  next => cases checked

theorem still_static (outline : Outline Stock)
    (declared : (Outline.declare (trampoline still .empty).registry
      (trampoline still .empty).pipeline).run.1 = .ok outline)
    (s : Level) (member : s ∈ (Layout.ofOutline outline).levels) :
    s.pipeline.dynamic = false := by
  have checked : (match (Outline.declare (trampoline still .empty).registry
      (trampoline still .empty).pipeline).run.1 with
      | .ok outline => (Layout.ofOutline outline).levels.all fun s => !s.pipeline.dynamic
      | .error _ => false) = true := by decide +kernel
  rw [declared] at checked
  simpa using List.all_eq_true.mp checked s member

variable {j : Job} {last : Option NodeId} {active : List NodeId} {load : Load} {g : Graph Stock}

theorem Turning.tankOf (w : Turning j last active load g) :
    g.tankOf "tank_queue" = .ok load.tank := by
  have listed : g.nodes.toList.map Node.card = (Bouncing.cards j last).toList := by
    rw [← Array.toList_map, w.cards]
  -- Of the nodes with that path the queue is the first, as only the root comes before it.
  obtain ⟨root, later, nodes, atRoot, listed⟩ := List.map_eq_cons_iff.mp listed
  obtain ⟨node, later, rfl, atQueue, -⟩ := List.map_eq_cons_iff.mp listed
  have outer : root.path = "" := congrArg Card.path atRoot
  have path : node.path = "tank_queue" := congrArg Card.path atQueue
  have stage : node.kind = .stage .tankQueue := Node.card_fits atQueue
  have tank : node.tank = load.tank := by
    have tank := w.tank
    rw [Graph.tank?, Graph.node?, ← Array.getElem?_toList, nodes] at tank
    exact Option.some.inj tank
  have found : g.find? "tank_queue" = some (queue, node) := by
    rw [Graph.find?, Graph.numbered, nodes, w.collector]
    simp [List.zipIdx_cons, outer, path, pumpSink]
  rw [Graph.tankOf, Graph.inspect, found]
  simp only [stage, tank]

theorem ready_turning {own : Bool} (ready : ready j own g.nodes = true) (root : g.root = 0)
    (collector : g.nodes.size = g.pumpSink + 1) (store : g.store = .empty)
    (does : ∀ (id : NodeId) (node : Node Stock) (s : Stock), g.node? id = some node →
      node.kind = .stage s → s.duty = .body → calculates s = own → s.Does j.step) :
    ∃ tank, Idle tank ∧ Turning j none [] ⟨tank, [], .empty⟩ g := by
  obtain ⟨cards, rest⟩ := (Bool.and_eq_true _ _).mp ready
  have cards := of_decide_eq_true cards
  have rest (id : NodeId) (node : Node Stock) (found : g.node? id = some node) := by
    have rest := Array.all_eq_true'.mp rest node (Array.mem_of_getElem? found)
    simpa only [rests, Bool.and_eq_true, Bool.not_eq_true', List.isEmpty_iff, decide_eq_true_eq,
      and_assoc] using rest
  -- Nodes are known by their cards, so each is found at its number.
  have there (id : NodeId) {card : Card} (listed : (Bouncing.cards j none)[id]? = some card) :
      ∃ node, g.node? id = some node ∧ node.card = card := by
    rw [← cards, Array.getElem?_map] at listed
    exact Option.map_eq_some_iff.mp listed
  obtain ⟨node, found, -⟩ := there queue rfl
  obtain ⟨-, empty, capacity, -, -⟩ := rest queue node found
  refine ⟨node.tank, ⟨empty, capacity⟩,
    { root
      collector := ?_
      cards
      does id node s found stage duty := ?_
      idle id node found _ := (rest id node found).1
      tank := ?_
      kept := ?_
      store }⟩
  · have size : g.nodes.size = 8 := by
      rw [← Array.size_map (f := Node.card), cards]
      rfl
    exact Nat.succ.inj (collector.symm.trans size)
  · obtain ⟨-, -, -, steps, -⟩ := rest id node found
    rw [Node.state?, stage] at steps
    exact does id node s found stage duty (by simpa [duty] using steps)
  · rw [Graph.tank?, found]
    rfl
  · obtain ⟨last, found, card⟩ := there pumpSink rfl
    obtain ⟨s, stage, -⟩ := Node.card_fits card
    obtain ⟨-, -, -, -, sinks⟩ := rest pumpSink last found
    rw [Node.state?, stage] at sinks
    have none' : s.results = [] := by simpa [Stock.toSink?] using sinks
    simp [Graph.kept?, found, Node.state?, stage, Stock.toSink?, none']

theorem ready_rescript (f : Body) (run : Script) (nodes : Array (Node Stock)) :
    ready (trampolining f) false (nodes.map (Node.map (Stock.rescript run))) =
      ready (trampolining still) false nodes := by
  have rest (node : Node Stock) :
      rests false (node.map (Stock.rescript run)) = rests false node := by
    obtain ⟨_, _, _, kind, _, _, _, _, _, _, _, _, _⟩ := node
    cases kind with
    | stage s => cases s <;> rfl
    | fanOut => rfl
    | subGraph entry exit => rfl
  have cards : (nodes.map (Node.map (Stock.rescript run))).map Node.card = nodes.map Node.card := by
    rw [Array.map_map]
    exact congrArg (fun view => Array.map view nodes) (funext (Node.card_rescript run))
  have all : (nodes.map (Node.map (Stock.rescript run))).all (rests false) =
      nodes.all (rests false) := by
    rw [Array.all_map]
    exact congrArg (fun check => Array.all nodes check) (funext rest)
  rw [ready, ready, cards, all]
  rfl

theorem scripted {s : Stock} (duty : s.duty = .body) (other : calculates s = false) :
    ∃ run params, s = .script run params := by
  cases s with
  | script run params => exact ⟨run, params, rfl⟩
  | factorial => cases other
  | branchIf b =>
    rw [Stock.duty] at duty
    split at duty <;> cases duty
  | _ => cases duty

theorem rescript_script {run own : Script} {kind : NodeKind Stock} {params : ParamTable}
    (stage : kind.map (Stock.rescript run) = .stage (.script own params)) : own = run := by
  cases kind with
  | stage s => cases s <;> cases stage; rfl
  | fanOut => cases stage
  | subGraph entry exit => cases stage

theorem trampoline_built (f : Body) (environment : Environment) :
    ∃ g tank, (trampoline f environment).build.1 = .ok g ∧ Idle tank ∧
      Turning (trampolining f) none [] ⟨tank, [], .empty⟩ g := by
  -- The nodes are worked out once, for a script that does nothing, and carried over from there.
  obtain ⟨nodes, assembled, ready⟩ := still_assembled
  have surroundings : (trampoline still environment).assemble.run =
      (trampoline still .empty).assemble.run :=
    Blueprint.assemble_environment (b := trampoline still .empty) still_static environment
  have assembled : (trampoline f environment).assemble.run.1 =
      .ok (nodes.map (Node.map (Stock.rescript f.script))) := by
    rw [← still_recast, Blueprint.assemble_recast (Stock.rescript_recasts f.script), surroundings,
      assembled]
    rfl
  obtain ⟨history, built⟩ := Blueprint.build_assembled assembled
  have made : (nodes.push Graph.pumpSinkNode).map (Node.map (Stock.rescript f.script)) =
      (nodes.map (Node.map (Stock.rescript f.script))).push Graph.pumpSinkNode := Array.map_push
  let g := Graph.make (nodes.map (Node.map (Stock.rescript f.script))) 0 environment history
  have nodes' : g.nodes = (nodes.push Graph.pumpSinkNode).map (Node.map (Stock.rescript f.script)) :=
    made.symm
  have ready : Bouncing.ready (trampolining f) false g.nodes = true := by
    rw [nodes', ready_rescript, ready]
  obtain ⟨tank, idle, w⟩ := ready_turning ready rfl (Array.size_push _) rfl
    fun id node s found stage duty other => by
      rw [Graph.node?, nodes', Array.getElem?_map] at found
      obtain ⟨before, -, rfl⟩ := Option.map_eq_some_iff.mp found
      obtain ⟨run, params, rfl⟩ := scripted duty other
      obtain rfl := rescript_script stage
      exact Stock.script_does f params
  exact ⟨g, tank, built, idle, w⟩

open Run (Below Returns)

inductive Pumped (f : Body) (g : Graph Stock) : Graph Stock → Prop
  | start : Pumped f g g
  | pump {before after : Graph Stock} {parcels units : List Parcel} {rounds : Parcel → Nat}
      {depth : Nat} (earlier : Pumped f g before)
      (settles : ∀ p ∈ parcels, f.Settles p.content (rounds p))
      (pumped : (Graph.pump depth parcels).start before = some (.ok units, after)) :
      Pumped f g after

theorem Pumped.turning {f : Body} {g before : Graph Stock} (pumped : Pumped f g before) {tank : Tank}
    {store : Store} (idle : Idle tank) (w : Turning (trampolining f) none [] ⟨tank, [], store⟩ g) :
    ∃ tank store, Idle tank ∧ Turning (trampolining f) none [] ⟨tank, [], store⟩ before := by
  induction pumped with
  | start => exact ⟨tank, store, idle, w⟩
  | pump _ settles pumped ih =>
    -- However deep the pump went, it ended as any deeper one does.
    obtain ⟨tank, store, idle, w⟩ := ih
    obtain ⟨-, store, w⟩ := Below.returned (fun deep => Graph.pump_below deep _)
      (pump_settles w idle rfl settles) pumped
    exact ⟨_, store, idle.turned _, w⟩

/-- A pump takes the script over each parcel until it has settled, and answers with what has come of
the parcels in their order; the queue counts the applications and holds nothing in the end. Where
the script fails, the pump fails with its reason. -/
theorem trampoline_iterates (f : Body) (environment : Environment) :
    ∃ g, (trampoline f environment).build.1 = .ok g ∧
      ∀ before, Pumped f g before → ∀ (parcels : List Parcel) (rounds : Parcel → Nat),
        (∀ p ∈ parcels, f.Settles p.content (rounds p)) →
        (∃ tank, before.tankOf "tank_queue" = .ok tank ∧
          Returns (fun depth => Graph.pump depth parcels) before fun result after =>
            result = .ok (parcels.map fun p => outcome f p (rounds p)) ∧
              ∃ later, after.tankOf "tank_queue" = .ok later ∧
                later.released = tank.released + (parcels.map rounds).sum ∧ later.size = 0) ∧
        ∀ p rest k reason, f.Fails p.content k reason →
          Returns (fun depth => Graph.pump depth (parcels ++ p :: rest)) before fun result _ =>
            result = .error (.data "body" reason) := by
  obtain ⟨g, tank, built, idle, w⟩ := trampoline_built f environment
  refine ⟨g, built, fun before pumped parcels rounds settles => ?_⟩
  obtain ⟨tank, store, idle, w⟩ := pumped.turning idle w
  constructor
  · refine ⟨tank, w.tankOf, (pump_settles w idle rfl settles).mono fun result after ⟨out, last⟩ => ?_⟩
    obtain ⟨store, w⟩ := last
    exact ⟨out, _, w.tankOf, rfl, rfl⟩
  · intro p rest k reason fails
    exact pump_fails w idle settles fails rest

def factorial : Body := fun c =>
  match Factorial.step (c.parcel .main none) with
  | .ok p => (p.content, none)
  | .error reason => (c, some reason)

def asked (x : Int) : Parcel := { Parcel.empty with attrs := [("x", .int x)] }

theorem factorial_trampoline : ∃ g tank, (trampoline factorial .empty).build.1 = .ok g ∧
    g.tankOf "tank_queue" = .ok tank ∧
    Returns (fun depth => Graph.pump depth [asked 5, asked 3]) g (fun result after =>
      (∃ p q, result = .ok [p, q] ∧ p.attr? "x_factorial" = some (.int 120) ∧
        q.attr? "x_factorial" = some (.int 6)) ∧
      ∃ later, after.tankOf "tank_queue" = .ok later ∧ later.released = tank.released + 8 ∧
        later.size = 0) ∧
    Returns (fun depth => Graph.pump depth [asked 5, asked (-1), asked 3]) g fun result _ =>
      result = .error (.data "body" "cannot take the factorial of -1") := by
  have five : factorial.Settles (asked 5).content 5 := by
    refine ⟨by decide, by decide +kernel, fun j least less => ?_, .bool false, rfl, by rintro ⟨⟩⟩
    interval_cases j <;> rfl
  have three : factorial.Settles (asked 3).content 3 := by
    refine ⟨by decide, by decide +kernel, fun j least less => ?_, .bool false, rfl, by rintro ⟨⟩⟩
    interval_cases j <;> rfl
  have negative : factorial.Fails (asked (-1)).content 0 "cannot take the factorial of -1" :=
    ⟨fun j less => absurd less (Nat.not_lt_zero j), fun j least less => by omega, by decide +kernel⟩
  let rounds (p : Parcel) : Nat := (((p.attr? "x").bind Value.asInt?).getD 0).toNat
  obtain ⟨g, built, pumps⟩ := trampoline_iterates factorial .empty
  obtain ⟨⟨tank, queued, pumped⟩, -⟩ :=
    pumps g .start [asked 5, asked 3] rounds (by
      simp only [List.mem_cons, List.not_mem_nil, or_false, forall_eq_or_imp, forall_eq]
      exact ⟨five, three⟩)
  obtain ⟨-, fails⟩ := pumps g .start [asked 5] rounds (by
    simp only [List.mem_cons, List.not_mem_nil, or_false, forall_eq]
    exact five)
  refine ⟨g, tank, built, queued, pumped.mono fun result after ended => ?_,
    fails (asked (-1)) [asked 3] 0 _ negative⟩
  obtain ⟨out, counted⟩ := ended
  exact ⟨⟨_, _, out, rfl, rfl⟩, counted⟩

end Bouncing

end Sluice
