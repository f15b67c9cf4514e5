import Sluice.Proofs.Graph.Pump
import Sluice.Proofs.Graph.Tracks
import Sluice.Proofs.Stage.Settings
import Sluice.Proofs.Tank.Releases

set_option autoImplicit false

namespace Sluice

variable {σ α β : Type}

namespace Run

def Yields (run : Run σ α) (g : Graph σ) (good : α → Graph σ → Prop) : Prop :=
  run.Ends g fun result after => ∀ a, result = .ok a → good a after

namespace Yields

variable {run : Run σ α} {g : Graph σ} {good better : α → Graph σ → Prop}

theorem mono (yields : run.Yields g good) (implies : ∀ a after, good a after → better a after) :
    run.Yields g better :=
  Ends.mono yields fun _ after holds a ok => implies a after (holds a ok)

theorem pure {a : α} (holds : good a g) : (Pure.pure a : Run σ α).Yields g good := by
  rintro _ ⟨⟩
  exact holds

theorem throw (e : EngineError) : (MonadExcept.throw e : Run σ α).Yields g good := nofun

theorem get {result : Except EngineError α} (holds : ∀ a, result = .ok a → good a g) :
    (Run.get result).Yields g good := holds

theorem bind {next : α → Run σ β} {last : β → Graph σ → Prop} (first : run.Yields g good)
    (rest : ∀ a after, good a after → (next a).Yields after last) : (run >>= next).Yields g last := by
  unfold Yields
  rw [ends_bind]
  refine Ends.mono first fun result after holds => ?_
  cases result with
  | ok a => exact rest a after (holds a rfl)
  | error e => exact nofun

theorem reading {next : Graph σ → Run σ α} (rest : (next g).Yields g good) :
    (graph >>= next).Yields g good := by
  unfold Yields
  rw [ends_bind, ends_graph]
  exact rest

theorem written {f : Graph σ → Graph σ} {good : Unit → Graph σ → Prop} (holds : good () (f g)) :
    (update f).Yields g good := fun _ _ => holds

theorem updating {f : Graph σ → Graph σ} {next : Unit → Run σ α}
    (rest : (next ()).Yields (f g) good) :
    (update f >>= next).Yields g good := by
  unfold Yields
  rw [ends_bind, ends_update]
  exact rest

theorem atNode {id : NodeId} {node : Node σ} {f : Node σ → Run σ Unit} {good : Unit → Graph σ → Prop}
    (found : g.node? id = some node) (there : (f node).Yields g good) :
    (Run.atNode id f).Yields g good :=
  Ends.at found there

theorem attempting {next : Except EngineError α → Run σ β} {last : β → Graph σ → Prop}
    (first : run.Yields g good) (rest : ∀ a after, good a after → (next (.ok a)).Yields after last)
    (failed : ∀ e after, (next (.error e)).Yields after last) :
    (run.attempt >>= next).Yields g last := by
  unfold Yields
  rw [ends_bind, ends_attempt]
  refine Ends.mono first fun result after holds => ?_
  cases result with
  | ok a => exact rest a after (holds a rfl)
  | error e => exact failed e after

theorem holding {id : NodeId}
    (yields : run.Yields (g.mark id true) fun a after => good a (after.mark id false)) :
    (Run.holding id run).Yields g good :=
  .updating (.attempting yields (fun _ _ holds => .updating (.get (by rintro _ ⟨⟩; exact holds)))
    fun _ _ => .updating (.get nofun))

end Yields

end Run

/-- What a stage of a chain does with a parcel that it accepts: it hands it on, or takes it in and
hands on what is in excess, or collects it for the pump. -/
inductive Channel.Duty where
  | relay
  | queue
  | collect
  deriving DecidableEq

def Stock.duty? : Stock → Option Channel.Duty
  | .passThrough => some .relay
  | .reverseString => some .relay
  | .wrap _ => some .relay
  | .seqPacket _ => some .relay
  | .tankQueue => some .queue
  | .sink s => if s.maxResults = 0 then some .collect else none
  | _ => none

def Node.caught (node : Node Stock) : Nat :=
  match node.kind with
  | .stage (.sink s) => s.results.length
  | _ => 0

def Node.load (node : Node Stock) : Nat := node.tank.held + node.caught

theorem Stock.duty?_sink {s : Sink} {d : Channel.Duty} (duty : (Stock.sink s).duty? = some d) :
    d = .collect ∧ s.maxResults = 0 := by
  have duty : (if s.maxResults = 0 then some Channel.Duty.collect else none) = some d := duty
  split at duty
  next unlimited =>
    cases duty
    exact ⟨rfl, unlimited⟩
  next => cases duty

theorem Stock.duty?_queue {s : Stock} (duty : s.duty? = some .queue) : s = .tankQueue := by
  cases s with
  | tankQueue => rfl
  | sink s => cases (duty?_sink duty).1
  | _ => cases duty

theorem Stock.duty?_collect {s : Stock} (duty : s.duty? = some .collect) : ∃ kept, s = .sink kept := by
  cases s with
  | sink kept => exact ⟨kept, rfl⟩
  | _ => cases duty

theorem Node.caught_of_duty {node : Node Stock} {s : Stock} {d : Channel.Duty} (stage : node.kind = .stage s)
    (duty : s.duty? = some d) (apart : d ≠ .collect) : node.caught = 0 := by
  unfold caught
  rw [stage]
  cases s with
  | sink s => exact absurd (Stock.duty?_sink duty).1 apart
  | _ => rfl

theorem foldr_modify {γ : Type} (weight : γ → Nat) (f : γ → γ) {items : List γ} {i : Nat} {x : γ}
    (there : items[i]? = some x) :
    (items.modify i f).foldr (fun x n => weight x + n) 0 + weight x =
      items.foldr (fun x n => weight x + n) 0 + weight (f x) := by
  induction items generalizing i with
  | nil => cases there
  | cons first rest ih =>
    cases i with
    | zero =>
      cases there
      simp only [List.modify_zero_cons, List.foldr_cons]
      omega
    | succ i =>
      have later := ih there
      simp only [List.modify_succ_cons, List.foldr_cons]
      omega

namespace Graph

def retained (g : Graph σ) : Nat := g.nodes.toList.foldr (fun node n => node.tank.held + n) 0

theorem retained_zero {g : Graph σ} (dry : ∀ id node, g.node? id = some node → node.tank.held = 0) :
    g.retained = 0 := by
  have none (nodes : List (Node σ)) (dry : ∀ node ∈ nodes, node.tank.held = 0) :
      nodes.foldr (fun node n => node.tank.held + n) 0 = 0 := by
    induction nodes with
    | nil => rfl
    | cons node rest ih =>
      obtain ⟨first, later⟩ := List.forall_mem_cons.mp dry
      rw [List.foldr_cons, first, ih later]
  refine none _ fun node listed => ?_
  obtain ⟨id, found⟩ := List.mem_iff_getElem?.mp listed
  rw [Array.getElem?_toList] at found
  exact dry id node found

theorem retained_updateNode {g : Graph σ} {id : NodeId} {node : Node σ} {f : Node σ → Node σ}
    (found : g.node? id = some node) : (g.updateNode id f).retained + node.tank.held =
      g.retained + (f node).tank.held := by
  unfold retained updateNode
  rw [Array.toList_modify]
  exact foldr_modify (fun node => node.tank.held) f (by rwa [Array.getElem?_toList])

theorem linkMain_map {β : Type} {f : Node σ → β} (aside : ∀ node main, f { node with main } = f node)
    (source : NodeId) (target : Option NodeId) (nodes : Array (Node σ)) :
    (linkMain source target nodes).map f = nodes.map f := by
  refine Array.ext_getElem? fun id => ?_
  rw [Array.getElem?_map, Array.getElem?_map, linkMain, linkMainBy_getElem?, Option.map_map]
  refine congrArg (nodes[id]?.map ·) (funext fun node => ?_)
  dsimp only [Function.comp]
  split
  · exact aside node _
  · rfl

theorem retained_relink (g : Graph σ) (source : NodeId) (target : Option NodeId) :
    Graph.retained { g with nodes := linkMain source target g.nodes } = g.retained := by
  have same := congrArg (fun counts => counts.toList.foldr (fun held n => held + n) 0)
    (linkMain_map (f := fun node : Node σ => node.tank.held) (fun _ _ => rfl) source target g.nodes)
  simp only [Array.toList_map, List.foldr_map] at same
  exact same

def caught (g : Graph Stock) : Nat := ((g.node? g.pumpSink).map Node.caught).getD 0

def load (g : Graph Stock) : Nat := g.retained + g.caught

variable {g : Graph Stock} {id : NodeId} {node : Node Stock} {f : Node Stock → Node Stock}

theorem load_updateNode (found : g.node? id = some node)
    (aside : id = g.pumpSink ∨ (f node).caught = node.caught) :
    (g.updateNode id f).load + node.load = g.load + (f node).load := by
  have retained := retained_updateNode (f := f) found
  have there := node?_updateNode g id g.pumpSink f
  have sink : (g.updateNode id f).pumpSink = g.pumpSink := rfl
  unfold load caught
  rw [sink, there]
  unfold Node.load
  by_cases here : id = g.pumpSink
  · subst here
    rw [if_pos rfl, found]
    simp only [Option.map_some, Option.getD_some]
    omega
  · rw [if_neg here]
    have same := aside.resolve_left here
    omega

end Graph

abbrev Channel : Type := NodeId → Option Channel.Duty

namespace Channel

structure Mans (c : Channel) (g : Graph Stock) (id : NodeId) (d : Duty) (node : Node Stock) : Prop where
  stage : ∃ s, node.kind = .stage s ∧ s.duty? = some d
  prompt : node.closeDeferred = false
  main : d ≠ .collect → ∃ next d, node.main = some next ∧ c next = some d
  collects : d = .collect → id = g.pumpSink ∧ node.main = none ∧ node.dynamic = []

/-- Whatever enters a graph comes into a channel and flows on in it. Only its queues have parcels in
their tanks, and these have nothing in excess but for some. -/
structure Holds (c : Channel) (lax : NodeId → Prop) (g : Graph Stock) : Prop where
  lasting : g.shuttingDown = false
  enters : ∃ node entry exit d, g.rootNode? = some node ∧ node.kind = .subGraph (some entry) exit ∧
    c entry = some d
  mans : ∀ id d, c id = some d → ∃ node, g.node? id = some node ∧ c.Mans g id d node
  queues : ∀ id node, g.node? id = some node → node.tank.held ≠ 0 → c id = some .queue
  relieved : ∀ id, ¬lax id → g.Relieved id

structure Loaded (c : Channel) (lax : NodeId → Prop) (n : Nat) (g : Graph Stock) : Prop
    extends c.Holds lax g where
  load : g.load = n

end Channel

structure Node.Stays (before node : Node Stock) : Prop where
  kind : node.kind = before.kind ∨
    ∃ s t, before.kind = .stage s ∧ node.kind = .stage t ∧ t.duty? = s.duty?
  main : node.main = before.main
  dynamic : node.dynamic = before.dynamic
  prompt : node.closeDeferred = before.closeDeferred

namespace Channel

variable {c : Channel} {lax more : NodeId → Prop} {n m : Nat} {g after : Graph Stock} {id : NodeId}
  {d : Channel.Duty} {node : Node Stock}

theorem Mans.stays {last : Graph Stock} (mans : c.Mans g id d node) (sink : last.pumpSink = g.pumpSink)
    {after : Node Stock} (stays : node.Stays after) : c.Mans last id d after where
  stage := by
    obtain ⟨s, stage, duty⟩ := mans.stage
    rcases stays.kind with same | ⟨s', t, before, kind, same⟩
    · exact ⟨s, same.trans stage, duty⟩
    · obtain rfl : s = s' := NodeKind.stage.inj (stage.symm.trans before)
      exact ⟨t, kind, same.trans duty⟩
  prompt := stays.prompt.trans mans.prompt
  main := stays.main ▸ mans.main
  collects := by
    rw [stays.main, stays.dynamic, sink]
    exact mans.collects

namespace Holds

variable (holds : c.Holds lax g)
include holds

theorem update {f : Node Stock → Node Stock} (found : g.node? id = some node) (stays : node.Stays (f node))
    (held : c id = some .queue ∨ (f node).tank.held = node.tank.held)
    (relieved : lax id ∨ (f node).tank.popExcess = none) : c.Holds lax (g.updateNode id f) where
  lasting := holds.lasting
  enters := by
    obtain ⟨root, entry, exit, d, there, kind, inside⟩ := holds.enters
    have moved := Graph.node?_updateNode g id g.root f
    by_cases here : id = g.root
    · subst here
      obtain rfl := Option.some.inj (found.symm.trans there)
      rw [if_pos rfl, found] at moved
      refine ⟨f node, entry, exit, d, moved, ?_, inside⟩
      rcases stays.kind with same | ⟨s, _, stage, -⟩
      · exact same.trans kind
      · cases stage.symm.trans kind
    · rw [if_neg here] at moved
      exact ⟨root, entry, exit, d, moved.trans there, kind, inside⟩
  mans := by
    intro other d inside
    obtain ⟨last, there, mans⟩ := holds.mans other d inside
    have moved := Graph.node?_updateNode g id other f
    have sink : (g.updateNode id f).pumpSink = g.pumpSink := rfl
    by_cases here : id = other
    · subst here
      obtain rfl := Option.some.inj (found.symm.trans there)
      rw [if_pos rfl, found] at moved
      exact ⟨f node, moved, mans.stays sink stays⟩
    · rw [if_neg here] at moved
      exact ⟨last, moved.trans there, mans.stays sink ⟨.inl rfl, rfl, rfl, rfl⟩⟩
  queues := by
    intro other last there filled
    obtain ⟨before, was, ⟨rfl, rfl⟩ | ⟨-, rfl⟩⟩ := Graph.updateNode_cases there
    · obtain rfl := Option.some.inj (found.symm.trans was)
      rcases held with queue | same
      · exact queue
      · exact holds.queues id node found (same ▸ filled)
    · exact holds.queues other last was filled
  relieved := by
    intro other strict last there
    obtain ⟨before, was, ⟨rfl, rfl⟩ | ⟨-, rfl⟩⟩ := Graph.updateNode_cases there
    · obtain rfl := Option.some.inj (found.symm.trans was)
      exact relieved.resolve_left strict
    · exact holds.relieved other strict _ was

theorem same (nodes : after.nodes = g.nodes) (root : after.root = g.root)
    (sink : after.pumpSink = g.pumpSink) (lasting : after.shuttingDown = g.shuttingDown) :
    c.Holds lax after := by
  have there (id : NodeId) : after.node? id = g.node? id := by rw [Graph.node?, nodes, Graph.node?]
  refine
    { lasting := lasting.trans holds.lasting
      enters := ?_
      mans id d inside := ?_
      queues id node found := ?_
      relieved id strict node found := ?_ }
  · rw [Graph.rootNode?, root, there]
    exact holds.enters
  · obtain ⟨node, found, mans⟩ := holds.mans id d inside
    exact ⟨node, (there id).trans found, mans.stays sink ⟨.inl rfl, rfl, rfl, rfl⟩⟩
  · exact holds.queues id node ((there id).symm.trans found)
  · exact holds.relieved id strict node ((there id).symm.trans found)

end Holds

namespace Loaded

variable (loaded : c.Loaded lax n g)
include loaded

theorem update {f : Node Stock → Node Stock} (found : g.node? id = some node) (stays : node.Stays (f node))
    (held : c id = some .queue ∨ (f node).tank.held = node.tank.held)
    (relieved : lax id ∨ (f node).tank.popExcess = none)
    (aside : id = g.pumpSink ∨ (f node).caught = node.caught)
    (moved : (f node).load + n = node.load + m) : c.Loaded lax m (g.updateNode id f) := by
  refine ⟨loaded.toHolds.update found stays held relieved, ?_⟩
  have load := Graph.load_updateNode found aside
  have before := loaded.load
  omega

theorem same (nodes : after.nodes = g.nodes) (root : after.root = g.root)
    (sink : after.pumpSink = g.pumpSink) (lasting : after.shuttingDown = g.shuttingDown) :
    c.Loaded lax n after := by
  refine ⟨loaded.toHolds.same nodes root sink lasting, ?_⟩
  rw [← loaded.load, Graph.load, Graph.load, Graph.retained, Graph.retained, Graph.caught, Graph.caught,
    sink, Graph.node?, Graph.node?, nodes]

theorem remember (event : Event Stock) : c.Loaded lax n (g.remember event) := loaded.same rfl rfl rfl rfl

theorem store (store : Store) : c.Loaded lax n { g with store } := loaded.same rfl rfl rfl rfl

theorem relax (weaker : ∀ id, lax id → more id) : c.Loaded more n g where
  lasting := loaded.lasting
  enters := loaded.enters
  mans := loaded.mans
  queues := loaded.queues
  relieved := fun id strict => loaded.relieved id fun loose => strict (weaker id loose)
  load := loaded.load

theorem tighten (relieved : g.Relieved id) (only : ∀ other, lax other → more other ∨ other = id) :
    c.Loaded more n g where
  lasting := loaded.lasting
  enters := loaded.enters
  mans := loaded.mans
  queues := loaded.queues
  relieved := by
    intro other strict
    by_cases loose : lax other
    · exact (only other loose).resolve_left strict ▸ relieved
    · exact loaded.relieved other loose
  load := loaded.load

theorem excess {t : Tank} (found : g.node? id = some node) (same : t = node.tank) :
    lax id ∨ t.popExcess = none := by
  subst same
  by_cases loose : lax id
  · exact .inl loose
  · exact .inr (loaded.relieved id loose node found)

theorem mark (found : g.node? id = some node) (busy : Bool) : c.Loaded lax n (g.mark id busy) :=
  loaded.update found ⟨.inl rfl, rfl, rfl, rfl⟩ (.inr rfl) (loaded.excess found rfl) (.inr rfl) rfl

theorem bound (found : g.node? id = some node) (key : String) (value : Value) : c.Loaded lax n
    (g.updateNode id fun node => { node with params := node.params.put key value }) :=
  loaded.update found ⟨.inl rfl, rfl, rfl, rfl⟩ (.inr rfl) (loaded.excess found rfl) (.inr rfl) rfl

theorem state {s t : Stock} (found : g.node? id = some node) (stage : node.kind = .stage s)
    (hands : s.duty? = some d) (apart : d ≠ .collect) (same : t.duty? = some d) :
    c.Loaded lax n (g.updateNode id fun node => { node with kind := .stage t }) := by
  have before := Node.caught_of_duty stage hands apart
  have later : ({ node with kind := .stage t } : Node Stock).caught = 0 :=
    Node.caught_of_duty rfl same apart
  refine loaded.update found ⟨.inr ⟨s, t, stage, rfl, same.trans hands.symm⟩, rfl, rfl, rfl⟩ (.inr rfl)
    (loaded.excess found rfl) (.inr (later.trans before.symm)) ?_
  simp only [Node.load, before, later]

theorem becomes (inside : c id = some d) (apart : d ≠ .collect) {t : Stock} (same : t.duty? = some d) :
    c.Loaded lax n (g.updateNode id fun node => { node with kind := .stage t }) := by
  obtain ⟨node, found, mans⟩ := loaded.mans id d inside
  obtain ⟨s, stage, duty⟩ := mans.stage
  exact loaded.state found stage duty apart same

theorem tank {t : Tank} (found : g.node? id = some node) (relieved : lax id ∨ t.popExcess = none)
    (held : t.held = node.tank.held) :
    c.Loaded lax n (g.updateNode id fun node => { node with tank := t }) := by
  have same : ({ node with tank := t } : Node Stock).caught = node.caught := rfl
  refine loaded.update found ⟨.inl rfl, rfl, rfl, rfl⟩ (.inr held) relieved (.inr same) ?_
  simp only [Node.load, same, held]

theorem taken {t : Tank} (inside : c id = some .queue) (found : g.node? id = some node) (loose : lax id)
    (held : t.held + 1 = node.tank.held) :
    ∃ m, n = m + 1 ∧ c.Loaded lax m (g.updateNode id fun node => { node with tank := t }) := by
  have same : ({ node with tank := t } : Node Stock).caught = node.caught := rfl
  have load := Graph.load_updateNode (f := fun node => { node with tank := t }) found (.inr same)
  have before := loaded.load
  simp only [Node.load, same] at load
  have fewer := loaded.toHolds.update (f := fun node => { node with tank := t }) found
    ⟨.inl rfl, rfl, rfl, rfl⟩ (.inl inside) (.inl loose)
  exact ⟨_, by omega, fewer, rfl⟩

theorem fed (inside : c id = some .queue) (found : g.node? id = some node) (loose : lax id) (h : Handle)
    (p : Parcel) :
    c.Loaded lax (n + 1) (g.updateNode id fun node => { node with tank := node.tank.push h p }) := by
  have held := node.tank.push_held h p
  have same : ({ node with tank := node.tank.push h p } : Node Stock).caught = node.caught := rfl
  refine loaded.update found ⟨.inl rfl, rfl, rfl, rfl⟩ (.inl inside) (.inl loose) (.inr same) ?_
  simp only [Node.load, same]
  omega

end Loaded

end Channel

end Sluice
