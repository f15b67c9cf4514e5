import Mathlib.Data.List.Forall2
import Sluice.Proofs.Graph.Returns
import Sluice.Proofs.Stage.Twins

set_option autoImplicit false

namespace Sluice

variable {σ α β : Type}

def Event.Strays (foreign : String → Prop) : Event σ → Prop
  | .began _ _ (.notice m) => foreign m.destination
  | _ => False

def Strays (foreign : String → Prop) (history : List (Event σ)) : Prop :=
  ∃ event ∈ history, event.Strays foreign

def Event.hook? : Event σ → Option (NodeId × Hook)
  | .began id _ hook => some (id, hook)
  | _ => none

def hooks (history : List (Event σ)) : List (NodeId × Hook) := history.filterMap Event.hook?

def Hook.accepted? : Hook → Option (Handle × Parcel)
  | .accept h p => some (h, p)
  | _ => none

/-- The parcels that a stage has accepted as they were then, the first of them first. -/
def received (id : NodeId) (history : List (Event σ)) : List (Handle × Parcel) :=
  ((hooks history).filterMap fun call =>
    if call.1 = id then call.2.accepted? else none).reverse

theorem strays_guards (foreign : String → Prop) :
    Traffic.Guards (fun _ => False) (fun _ => True) (fun _ _ => True)
      fun g : Graph Stock => Strays foreign g.history :=
  Traffic.Unowned.guards
    { changed := fun holds _ => holds
      state := fun holds _ => holds
      programs := fun _ _ _ =>
        (Stock.obeys _ _).mono (fun _ _ => trivial) (fun _ _ => trivial) fun _ _ => trivial
      logged := fun _ strays =>
        strays.imp fun _ here => ⟨List.mem_cons_of_mem _ here.1, here.2⟩
      store := fun _ holds => holds
      requested := fun holds => holds
      environment := fun _ holds => holds }

/-- Which nodes of two graphs stand for each other. The first graph may have nodes besides that only
hand on what comes to them. Either its run leads, and that of the other has to follow it to its end,
or the other way round. -/
structure Pairing where
  stage : NodeId → NodeId → Prop
  fork : NodeId → NodeId → Prop
  nest : NodeId → NodeId → Prop
  passes : NodeId → NodeId → Prop
  /-- The paths that a stage has in one graph and not in the other. -/
  foreign : String → Prop
  leads : Bool
  left : ∀ {a b c}, stage a b → stage a c → b = c
  right : ∀ {a b c}, stage a c → stage b c → a = b

namespace Pairing

inductive Pairs (p : Pairing) (a b : NodeId) : Prop
  | stage (both : p.stage a b)
  | fork (both : p.fork a b)
  | nest (both : p.nest a b)

inductive Meets (p : Pairing) : Option NodeId → Option NodeId → Prop
  | nowhere : Meets p none none
  | there {a b : NodeId} (pairs : p.Pairs a b) : Meets p (some a) (some b)
  | through {a inner b : NodeId} (passes : p.passes a inner) (pairs : p.Pairs inner b)
      (first : ¬p.fork inner b) : Meets p (some a) (some b)

def Hidden (p : Pairing) (node : Node Stock) : Prop := node.path = node.name ∨ p.foreign node.path

structure Stands (p : Pairing) (node other : Node Stock) : Prop where
  kind : ∃ s s', node.kind = .stage s ∧ other.kind = .stage s' ∧ Stock.Twin p.stage s s'
  main : p.Meets node.main other.main
  name : other.name = node.name
  typeName : other.typeName = node.typeName
  path : other.path = node.path ∨ p.Hidden node ∧ p.Hidden other
  declared : other.declared = node.declared
  params : node.params.Alike other.params
  dynamic : other.dynamic = node.dynamic
  phase : other.phase = node.phase
  busy : other.busy = node.busy
  tank : other.tank = node.tank
  calm : node.closeDeferred = false
  calm' : other.closeDeferred = false

def Echoes (p : Pairing) (call call' : NodeId × Hook) : Prop :=
  p.stage call.1 call'.1 ∧ call'.2 = call.2

structure Mirrors (p : Pairing) (g g' : Graph Stock) : Prop where
  root : p.nest g.root g'.root
  stages : ∀ {a b}, p.stage a b →
    ∃ node other, g.node? a = some node ∧ g'.node? b = some other ∧ p.Stands node other
  forks : ∀ {a b}, p.fork a b → ∃ node other, g.node? a = some node ∧ g'.node? b = some other ∧
    node.kind = .fanOut ∧ other.kind = .fanOut ∧
      p.Meets node.main other.main ∧ p.Meets node.branch other.branch
  nests : ∀ {a b}, p.nest a b → ∃ node other entry exit entry' exit',
    g.node? a = some node ∧ g'.node? b = some other ∧ node.kind = .subGraph entry exit ∧
      other.kind = .subGraph entry' exit' ∧ p.Meets entry entry'
  passing : ∀ {a inner}, p.passes a inner →
    ∃ node exit, g.node? a = some node ∧ node.kind = .subGraph (some inner) exit
  environment : g'.environment = g.environment
  running : g.shuttingDown = false
  running' : g'.shuttingDown = false
  store : g'.store = g.store
  calls : List.Forall₂ p.Echoes (hooks g.history) (hooks g'.history)

end Pairing

namespace Pairing

variable {p : Pairing} {g g' : Graph Stock} {a b : NodeId}

namespace Mirrors

variable (mirrors : p.Mirrors g g')
include mirrors

theorem received (both : p.stage a b) : received b g'.history = received a g.history := by
  have same {calls calls' : List (NodeId × Hook)} (echoes : List.Forall₂ p.Echoes calls calls') :
      (calls'.filterMap fun call => if call.1 = b then call.2.accepted? else none) =
        calls.filterMap fun call => if call.1 = a then call.2.accepted? else none := by
    induction echoes with
    | nil => rfl
    | @cons call call' _ _ echo _ ih =>
      obtain ⟨pair, hook⟩ := echo
      have here : call'.1 = b ↔ call.1 = a :=
        ⟨fun there => p.right (there ▸ pair) both, fun there => p.left (there ▸ pair) both⟩
      simp only [List.filterMap_cons, here, hook, ih]
  exact congrArg List.reverse (same mirrors.calls)

theorem stored (f : Store → Store) :
    p.Mirrors { g with store := f g.store } { g' with store := f g'.store } :=
  { mirrors with store := congrArg f mirrors.store }

theorem logged {event event' : Event Stock} (silent : event.hook? = none)
    (silent' : event'.hook? = none) : p.Mirrors (g.remember event) (g'.remember event') :=
  { mirrors with
    calls := by
      rw [Graph.remember, Graph.remember, hooks, hooks, List.filterMap_cons_none silent,
        List.filterMap_cons_none silent']
      exact mirrors.calls }

theorem began (both : p.stage a b) (node other : Node Stock) (hook : Hook) :
    p.Mirrors (g.remember (.began a node hook)) (g'.remember (.began b other hook)) :=
  { mirrors with calls := .cons ⟨both, rfl⟩ mirrors.calls }

theorem update (both : p.stage a b) {f f' : Node Stock → Node Stock}
    (keeps : ∀ node other, g.node? a = some node → g'.node? b = some other →
      p.Stands node other → p.Stands (f node) (f' other)) :
    p.Mirrors (g.updateNode a f) (g'.updateNode b f') := by
  obtain ⟨node, other, found, found', stands⟩ := mirrors.stages both
  obtain ⟨s, s', kind, kind', -⟩ := stands.kind
  -- Only a stage changes, so that a node of another kind is another node.
  have still {id : NodeId} {node' : Node Stock} (there : g.node? id = some node')
      (plain : ∀ s, node'.kind ≠ .stage s) : (g.updateNode a f).node? id = some node' := by
    rw [Graph.node?_updateNode, if_neg, there]
    rintro rfl
    obtain rfl := Option.some.inj (found.symm.trans there)
    exact plain s kind
  have still' {id : NodeId} {node' : Node Stock} (there : g'.node? id = some node')
      (plain : ∀ s, node'.kind ≠ .stage s) : (g'.updateNode b f').node? id = some node' := by
    rw [Graph.node?_updateNode, if_neg, there]
    rintro rfl
    obtain rfl := Option.some.inj (found'.symm.trans there)
    exact plain s' kind'
  refine { mirrors with stages := ?_, forks := ?_, nests := ?_, passing := ?_ }
  · intro c d pair
    rw [Graph.node?_updateNode, Graph.node?_updateNode]
    by_cases here : a = c
    · subst here
      obtain rfl := p.left both pair
      rw [if_pos rfl, if_pos rfl, found, found']
      exact ⟨_, _, rfl, rfl, keeps node other found found' stands⟩
    · rw [if_neg here, if_neg fun same : b = d => here (p.right both (same ▸ pair))]
      exact mirrors.stages pair
  · intro c d pair
    obtain ⟨node, other, there, there', fork, fork', rest⟩ := mirrors.forks pair
    exact ⟨node, other, still there (by simp [fork]), still' there' (by simp [fork']), fork, fork', rest⟩
  · intro c d pair
    obtain ⟨node, other, entry, exit, entry', exit', there, there', nest, nest', rest⟩ :=
      mirrors.nests pair
    exact ⟨node, other, entry, exit, entry', exit', still there (by simp [nest]),
      still' there' (by simp [nest']), nest, nest', rest⟩
  · intro c inner pass
    obtain ⟨node, exit, there, nest⟩ := mirrors.passing pass
    exact ⟨node, exit, still there (by simp [nest]), nest⟩

theorem mark (both : p.stage a b) (busy : Bool) : p.Mirrors (g.mark a busy) (g'.mark b busy) :=
  mirrors.update both fun _ _ _ _ stands => { stands with busy := rfl }

theorem setTank (both : p.stage a b) (f : Tank → Tank) :
    p.Mirrors (g.updateNode a fun node => { node with tank := f node.tank })
      (g'.updateNode b fun node => { node with tank := f node.tank }) :=
  mirrors.update both fun _ _ _ _ stands => { stands with tank := congrArg f stands.tank }

theorem setParam (both : p.stage a b) (key : String) (value : Value) :
    p.Mirrors (g.updateNode a fun node => { node with params := node.params.put key value })
      (g'.updateNode b fun node => { node with params := node.params.put key value }) :=
  mirrors.update both fun _ _ _ _ stands => { stands with params := stands.params.put key value }

theorem setState (both : p.stage a b) {s s' : Stock} (twin : Stock.Twin p.stage s s') :
    p.Mirrors (g.updateNode a fun node => { node with kind := .stage s })
      (g'.updateNode b fun node => { node with kind := .stage s' }) :=
  mirrors.update both fun _ _ _ _ stands => { stands with kind := ⟨s, s', rfl, rfl, twin⟩ }

end Mirrors

/-- How two runs end that mirror each other. What happens once a message has had a foreign destination
does not matter. -/
inductive Joins (p : Pairing) (post : α → Graph Stock → Graph Stock → Prop) :
    Option (Except EngineError α × Graph Stock) → Option (Except EngineError α × Graph Stock) → Prop
  | behind {other : Option (Except EngineError α × Graph Stock)} (leads : p.leads = true) :
      Joins p post none other
  | ahead {ended : Option (Except EngineError α × Graph Stock)} (leads : p.leads = false) :
      Joins p post ended none
  | strays {x y : Option (Except EngineError α × Graph Stock)}
      (left : ∀ ended, x = some ended → Strays p.foreign ended.2.history)
      (right : ∀ ended, y = some ended → Strays p.foreign ended.2.history) : Joins p post x y
  | done {a : α} {g g' : Graph Stock} (holds : post a g g') :
      Joins p post (some (.ok a, g)) (some (.ok a, g'))
  | failed {e e' : EngineError} {g g' : Graph Stock} (mirrors : p.Mirrors g g') :
      Joins p post (some (.error e, g)) (some (.error e', g'))

def Locks (p : Pairing) (run run' : Run Stock α) (g g' : Graph Stock)
    (post : α → Graph Stock → Graph Stock → Prop) : Prop :=
  p.Joins post (run.start g) (run'.start g')

abbrev Recalls (p : Pairing) (run : Run Stock α) : Prop := run.Keeps fun g => Strays p.foreign g.history

namespace Locks

variable {run run' : Run Stock α} {post mid : α → Graph Stock → Graph Stock → Prop}

theorem bind_strays {next : α → Run Stock β} (recalls : ∀ a, p.Recalls (next a))
    {x : Option (Except EngineError α × Graph Stock)}
    (strays : ∀ ended, x = some ended → Strays p.foreign ended.2.history) :
    ∀ ended, (x.bind fun ended => match ended.1 with
      | .ok a => (next a).start ended.2
      | .error e => some (.error e, ended.2)) = some ended → Strays p.foreign ended.2.history := by
  intro ended same
  obtain ⟨⟨result, after⟩, rfl, same⟩ := Option.bind_eq_some_iff.mp same
  have strays := strays _ rfl
  cases result with
  | ok a => exact (recalls a after strays).of_start same
  | error e =>
    cases same
    exact strays

theorem mono (locks : p.Locks run run' g g' mid)
    (implies : ∀ a g g', mid a g g' → post a g g') : p.Locks run run' g g' post := by
  unfold Locks at locks ⊢
  generalize run.start g = x, run'.start g' = y at locks ⊢
  cases locks with
  | behind leads => exact .behind leads
  | ahead leads => exact .ahead leads
  | strays left right => exact .strays left right
  | done holds => exact .done (implies _ _ _ holds)
  | failed mirrors => exact .failed mirrors

theorem pure {a : α} (holds : post a g g') :
    p.Locks (Pure.pure a) (Pure.pure a) g g' post := .done holds

theorem throw {e e' : EngineError} (mirrors : p.Mirrors g g') :
    p.Locks (MonadExcept.throw e) (MonadExcept.throw e') g g' post := .failed mirrors

theorem throw_bind {e e' : EngineError} {next next' : α → Run Stock β}
    {post : β → Graph Stock → Graph Stock → Prop} (mirrors : p.Mirrors g g') :
    p.Locks ((MonadExcept.throw e : Run Stock α) >>= next)
      ((MonadExcept.throw e' : Run Stock α) >>= next') g g' post := .failed mirrors

theorem bind {next next' : α → Run Stock β} {post : β → Graph Stock → Graph Stock → Prop}
    (first : p.Locks run run' g g' mid)
    (rest : ∀ a g g', mid a g g' → p.Locks (next a) (next' a) g g' post)
    (recalls : ∀ a, p.Recalls (next a)) (recalls' : ∀ a, p.Recalls (next' a)) :
    p.Locks (run >>= next) (run' >>= next') g g' post := by
  unfold Locks at first ⊢
  rw [Run.start_bind, Run.start_bind]
  generalize run.start g = x, run'.start g' = y at first
  cases first with
  | behind leads => exact .behind leads
  | ahead leads => exact .ahead leads
  | strays left right =>
    refine .strays (bind_strays recalls left) (bind_strays recalls' right)
  | done holds => exact rest _ _ _ holds
  | failed mirrors => exact .failed mirrors

theorem ite {c c' : Prop} [Decidable c] [Decidable c'] {other other' : Run Stock α} (same : c ↔ c')
    (holds : c → p.Locks run run' g g' post) (fails : ¬c → p.Locks other other' g g' post) :
    p.Locks (if c then run else other) (if c' then run' else other') g g' post := by
  by_cases this : c
  · rw [if_pos this, if_pos (same.mp this)]
    exact holds this
  · rw [if_neg this, if_neg (mt same.mpr this)]
    exact fails this

theorem graph_bind {next next' : Graph Stock → Run Stock α}
    (rest : p.Locks (next g) (next' g') g g' post) :
    p.Locks (Run.graph >>= next) (Run.graph >>= next') g g' post := rest

theorem look_bind {h : Handle} {next next' : Parcel → Run Stock α}
    (rest : p.Locks (next (g.store.read h)) (next' (g'.store.read h)) g g' post) :
    p.Locks (Run.look h >>= next) (Run.look h >>= next') g g' post := rest

theorem update_bind {f f' : Graph Stock → Graph Stock} {next next' : Unit → Run Stock α}
    (rest : p.Locks (next ()) (next' ()) (f g) (f' g') post) :
    p.Locks (Run.update f >>= next) (Run.update f' >>= next') g g' post := rest

theorem update {f f' : Graph Stock → Graph Stock} {post : Unit → Graph Stock → Graph Stock → Prop}
    (holds : post () (f g) (f' g')) : p.Locks (Run.update f) (Run.update f') g g' post :=
  .done holds

theorem atNode {f f' : Node Stock → Run Stock Unit} {post : Unit → Graph Stock → Graph Stock → Prop}
    {node other : Node Stock} (found : g.node? a = some node) (found' : g'.node? b = some other)
    (rest : p.Locks (f node) (f' other) g g' post) :
    p.Locks (Run.atNode a f) (Run.atNode b f') g g' post := by
  unfold Locks at rest ⊢
  rwa [Run.atNode_start found, Run.atNode_start found']

theorem atStage {f f' : Node Stock → Run Stock Unit} {post : Unit → Graph Stock → Graph Stock → Prop}
    (mirrors : p.Mirrors g g') (both : p.stage a b)
    (there : ∀ node other, g.node? a = some node → g'.node? b = some other → p.Stands node other →
      p.Locks (f node) (f' other) g g' post) :
    p.Locks (Run.atNode a f) (Run.atNode b f') g g' post := by
  obtain ⟨node, other, found, found', stands⟩ := mirrors.stages both
  exact .atNode found found' (there node other found found' stands)

theorem holding (both : p.stage a b)
    (locks : p.Locks run run' (g.mark a true) (g'.mark b true) fun x g g' =>
      post x (g.mark a false) (g'.mark b false)) :
    p.Locks (Run.holding a run) (Run.holding b run') g g' post := by
  unfold Locks at locks ⊢
  rw [Run.holding_start, Run.holding_start]
  generalize run.start _ = x, run'.start _ = y at locks
  cases locks with
  | behind leads => exact .behind leads
  | ahead leads => exact .ahead leads
  | strays left right =>
    refine .strays (fun ended same => ?_) fun ended same => ?_
    · obtain ⟨last, rfl, rfl⟩ := Option.map_eq_some_iff.mp same
      exact left last rfl
    · obtain ⟨last, rfl, rfl⟩ := Option.map_eq_some_iff.mp same
      exact right last rfl
  | done holds => exact .done holds
  | failed mirrors => exact .failed (mirrors.mark both false)

theorem attempt_bind {next next' : Except EngineError α → Run Stock β}
    {post : β → Graph Stock → Graph Stock → Prop} (first : p.Locks run run' g g' mid)
    (rest : ∀ a g g', mid a g g' → p.Locks (next (.ok a)) (next' (.ok a)) g g' post)
    (fails : ∀ e e' g g', p.Mirrors g g' → p.Locks (next (.error e)) (next' (.error e')) g g' post)
    (recalls : ∀ r, p.Recalls (next r)) (recalls' : ∀ r, p.Recalls (next' r)) :
    p.Locks (run.attempt >>= next) (run'.attempt >>= next') g g' post := by
  unfold Locks at first ⊢
  rw [Run.start_bind, Run.start_bind, Run.attempt_start, Run.attempt_start]
  generalize run.start g = x, run'.start g' = y at first
  cases first with
  | behind leads => exact .behind leads
  | ahead leads => exact .ahead leads
  | strays left right =>
    refine .strays (bind_strays recalls fun ended same => ?_) (bind_strays recalls' fun ended same => ?_)
    · obtain ⟨last, rfl, same⟩ := Option.bind_eq_some_iff.mp same
      cases same
      exact left last rfl
    · obtain ⟨last, rfl, same⟩ := Option.bind_eq_some_iff.mp same
      cases same
      exact right last rfl
  | done holds => exact rest _ _ _ holds
  | failed mirrors => exact fails _ _ _ _ mirrors

end Locks

end Pairing

end Sluice
