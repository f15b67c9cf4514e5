import Sluice.Proofs.Graph.Calm
import Sluice.Proofs.Graph.Returns
import Sluice.Proofs.Stage.Heedless

set_option autoImplicit false

namespace Sluice

variable {σ α β : Type}

def Parcel.bare (p : Parcel) : Parcel := { p with fork := .main, origin := none }

theorem Parcel.sent_eq {p q : Parcel} (same : p.bare = q.bare) (fork : Edge)
    (origin : Option String) : { p with fork, origin } = { q with fork, origin } :=
  congrArg (fun bare : Parcel => { bare with fork, origin }) same

theorem Tank.push_eq {p q : Parcel} (same : p.bare = q.bare) (t : Tank) (h : Handle) :
    t.push h p = t.push h q := by
  have priority : t.priority p.bare = t.priority q.bare := congrArg t.priority same
  exact congrArg (fun priority => { t with buffer := t.buffer.push h priority }) priority

theorem Graph.Calm.updateNode {g : Graph σ} (calm : g.Calm) (id : NodeId) {f : Node σ → Node σ}
    (same : ∀ node, (f node).closeDeferred = node.closeDeferred) : (g.updateNode id f).Calm := by
  refine ⟨calm.1, fun other node found => ?_⟩
  obtain ⟨before, was, ⟨-, rfl⟩ | ⟨-, rfl⟩⟩ := updateNode_cases found
  · rw [same]
    exact calm.2 _ before was
  · exact calm.2 _ _ was

namespace Store

structure Agrees (knows : Handle → Prop) (s t : Store) : Prop where
  size : s.cells.size = t.cells.size
  bare : ∀ h, (s.read h).bare = (t.read h).bare
  known : ∀ h, knows h → s.read h = t.read h

theorem read_write (s : Store) (h other : Handle) (p : Parcel) :
    (s.write h p).read other = if other = h ∧ h < s.cells.size then p else s.read other := by
  by_cases same : other = h
  · subst same
    by_cases within : other < s.cells.size
    · rw [read_write_self s p within, if_pos ⟨rfl, within⟩]
    · rw [if_neg fun both => within both.2, write, Array.setIfInBounds, dif_neg within]
  · rw [read_write_of_ne s p (Ne.symm same), if_neg fun both => same both.1]

theorem read_add (s : Store) (p : Parcel) (h : Handle) :
    (s.add p).2.read h = if h = s.cells.size then p else s.read h := by
  simp only [add, read, Array.getElem?_push]
  split <;> rfl

namespace Agrees

variable {knows less : Handle → Prop} {s t : Store} (agrees : Agrees knows s t)
include agrees

theorem mono (implies : ∀ h, less h → knows h) : Agrees less s t :=
  { agrees with known := fun h known => agrees.known h (implies h known) }

theorem write (h : Handle) (p : Parcel) :
    Agrees (fun other => other = h ∨ knows other) (s.write h p) (t.write h p) where
  size := by simpa [Store.write] using agrees.size
  bare := by
    intro other
    rw [read_write, read_write, agrees.size]
    split
    · rfl
    · exact agrees.bare other
  known := by
    intro other known
    rw [read_write, read_write, agrees.size]
    split
    · rfl
    next outside =>
      rcases known with rfl | known
      · have absent : t.cells.size ≤ other := Nat.le_of_not_lt fun within => outside ⟨rfl, within⟩
        simp [read, absent, agrees.size]
      · exact agrees.known other known

theorem forwarded (h : Handle) (fork : Edge) (origin : Option String) :
    Agrees (fun _ => False) (s.write h { s.read h with fork, origin }) t where
  size := by simpa [Store.write] using agrees.size
  bare := by
    intro other
    rw [read_write]
    split
    next both =>
      rw [both.1]
      exact agrees.bare h
    next => exact agrees.bare other
  known := fun _ => False.elim

theorem add {p q : Parcel} (same : p.bare = q.bare) :
    Agrees (fun h => h = s.cells.size ∧ p = q) (s.add p).2 (t.add q).2 where
  size := by simp [Store.add, agrees.size]
  bare := by
    intro h
    rw [read_add, read_add, agrees.size]
    split
    · exact same
    · exact agrees.bare h
  known := by
    rintro h ⟨rfl, rfl⟩
    rw [read_add, read_add, agrees.size, if_pos rfl, if_pos rfl]

end Agrees

end Store

def Hook.bare : Hook → Hook
  | .accept h p => .accept h p.bare
  | hook => hook

def Event.call? (sink : NodeId) : Event σ → Option (NodeId × Hook)
  | .began id _ hook => if id = sink then none else some (id, hook.bare)
  | _ => none

def Event.opens (sink : NodeId) : Event σ → Bool
  | .began id _ (.opening _) => id == sink
  | _ => false

/-- The calls of all stages but one, the first of them first, with what they were called for. -/
def calls (sink : NodeId) (history : List (Event σ)) : List (NodeId × Hook) :=
  (history.filterMap (Event.call? sink)).reverse

def openings (id : NodeId) (history : List (Event σ)) : Nat := history.countP (Event.opens id)

theorem calls_cons {sink : NodeId} {event event' : Event σ} {history history' : List (Event σ)}
    (same : event.call? sink = event'.call? sink)
    (before : calls sink history = calls sink history') :
    calls sink (event :: history) = calls sink (event' :: history') := by
  unfold calls at *
  rw [List.filterMap_cons, List.filterMap_cons, same, List.reverse_inj.mp before]

theorem calls_cons_of_none {sink : NodeId} {event : Event σ} (silent : event.call? sink = none)
    (history : List (Event σ)) : calls sink (event :: history) = calls sink history := by
  rw [calls, List.filterMap_cons_none silent]
  rfl

theorem openings_cons {id : NodeId} {event : Event σ} (quiet : event.opens id = false)
    (history : List (Event σ)) : openings id (event :: history) = openings id history := by
  simp [openings, quiet]

structure Node.Beside (sink : NodeId) (node tapped : Node σ) : Prop where
  same : tapped = { node with main := tapped.main }
  main : tapped.main = node.main ∨ tapped.main = some sink ∧ node.main = none

theorem Node.Beside.update {sink : NodeId} {node tapped : Node σ} (beside : node.Beside sink tapped)
    {f : Node σ → Node σ} (linked : ∀ node main, f { node with main } = { f node with main }) :
    (f node).Beside sink (f tapped) := by
  have main (node : Node σ) : (f node).main = node.main := by
    have relinked : f node = { f node with main := node.main } := linked node node.main
    exact (congrArg Node.main relinked).trans rfl
  refine ⟨?_, by rw [main, main]; exact beside.main⟩
  rw [main]
  exact (congrArg f beside.same).trans (linked node tapped.main)

/-- What is watched when the pump sink is attached to a graph: the node of the sink, how many
messages it had opened, and which stages have a tank. Either the run with the sink leads, and the
other one has to follow it to its end, or the other way round. -/
structure Tap where
  sink : NodeId
  -- Up to the start of the two runs.
  opened : Nat
  -- Whether a stage has a tank decides what it may know of parcels, and never changes.
  tanks : NodeId → Bool
  leads : Bool

/-- Two graphs that differ in that the sink follows some nodes in the first, in what has become of
the sink, and in what forwarding to the sink has written. -/
structure Tap.Shadows [Stage σ] (tap : Tap) (knows : Handle → Prop) (tapped plain : Graph σ) :
    Prop where
  nodes : ∀ id, id ≠ tap.sink →
    Option.Rel (Node.Beside tap.sink) (plain.node? id) (tapped.node? id)
  apart : ∀ id node, plain.node? id = some node → ¬node.Leads tap.sink
  root : tapped.root = plain.root
  within : plain.root ≠ tap.sink
  environment : tapped.environment = plain.environment
  calm : tapped.Calm
  running : plain.shuttingDown = false
  store : Store.Agrees knows tapped.store plain.store
  -- Of each history all that has to be the same is which stages were called, and for what.
  calls : calls tap.sink tapped.history = calls tap.sink plain.history
  opened : openings tap.sink tapped.history = tap.opened
  tanks : ∀ id node s, id ≠ tap.sink → plain.node? id = some node → node.kind = .stage s →
    Stage.hasTank s = tap.tanks id

structure Node.Catches [Stage σ] (node : Node σ) (s : Sink) : Prop where
  stage : node.kind = .stage (Stage.ofSink s)
  main : node.main = none
  declared : node.declared = .empty
  dynamic : node.dynamic = []
  ongoing : node.phase ≠ .closed

structure Tap.Couples [Stage σ] (tap : Tap) (knows : Handle → Prop) (tapped plain : Graph σ) :
    Prop extends tap.Shadows knows tapped plain where
  sink : ∃ node s, tapped.node? tap.sink = some node ∧ node.Catches s ∧ node.busy = false

namespace Tap

variable [Stage σ] {tap : Tap} {knows less : Handle → Prop} {tapped plain : Graph σ} {id : NodeId}

namespace Shadows

variable (shadows : tap.Shadows knows tapped plain)
include shadows

theorem node (other : id ≠ tap.sink) {node : Node σ} (found : plain.node? id = some node) :
    ∃ beside, tapped.node? id = some beside ∧ node.Beside tap.sink beside := by
  have related := shadows.nodes id other
  rw [found] at related
  generalize there : tapped.node? id = beside at related
  cases related with
  | some beside => exact ⟨_, rfl, beside⟩

theorem sinks {f : Node σ → Node σ} (calm : ∀ node, (f node).closeDeferred = node.closeDeferred) :
    tap.Shadows knows (tapped.updateNode tap.sink f) plain where
  nodes := by
    intro id other
    rw [Graph.node?_updateNode, if_neg (Ne.symm other)]
    exact shadows.nodes id other
  apart := shadows.apart
  root := shadows.root
  within := shadows.within
  environment := shadows.environment
  calm := shadows.calm.updateNode _ calm
  running := shadows.running
  store := shadows.store
  calls := shadows.calls
  opened := shadows.opened
  tanks := shadows.tanks

theorem logged (event : Event σ) (silent : event.call? tap.sink = none)
    (quiet : event.opens tap.sink = false) : tap.Shadows knows (tapped.remember event) plain :=
  { shadows with
    calm := shadows.calm
    calls := (calls_cons_of_none silent _).trans shadows.calls
    opened := (openings_cons quiet _).trans shadows.opened }

end Shadows

namespace Couples

variable (couples : tap.Couples knows tapped plain)
include couples

theorem mono (implies : ∀ h, less h → knows h) : tap.Couples less tapped plain :=
  { couples with store := couples.store.mono implies }

theorem stored {store store' : Store} (agrees : Store.Agrees less store store') :
    tap.Couples less { tapped with store } { plain with store := store' } :=
  { couples with calm := couples.calm, store := agrees }

theorem logged (event : Event σ) (silent : event.call? tap.sink = none)
    (quiet : event.opens tap.sink = false) : tap.Couples knows (tapped.remember event) plain :=
  { couples.toShadows.logged event silent quiet with sink := couples.sink }

theorem remembered {event event' : Event σ} (same : event.call? tap.sink = event'.call? tap.sink)
    (quiet : event.opens tap.sink = false) :
    tap.Couples knows (tapped.remember event) (plain.remember event') :=
  { couples with
    calm := couples.calm
    calls := calls_cons same couples.calls
    opened := (openings_cons quiet _).trans couples.opened }

theorem noted (event : Event σ) (quiet : event.opens tap.sink = false) :
    tap.Couples knows (tapped.remember event) (plain.remember event) :=
  couples.remembered rfl quiet

theorem update {f : Node σ → Node σ}
    (linked : ∀ node main, f { node with main } = { f node with main })
    (calm : ∀ node, (f node).closeDeferred = node.closeDeferred)
    (narrows : ∀ (node : Node σ) (target : NodeId), (f node).Leads target → node.Leads target)
    (tanks : id ≠ tap.sink → ∀ (node : Node σ) (s : σ), plain.node? id = some node →
      (f node).kind = .stage s → Stage.hasTank s = tap.tanks id)
    (kept : id = tap.sink → ∀ (node : Node σ) (s : Sink), node.Catches s →
      (f node).Catches s ∧ (f node).busy = node.busy) :
    tap.Couples knows (tapped.updateNode id f) (plain.updateNode id f) where
  nodes := by
    intro other away
    have related := couples.nodes other away
    rw [Graph.node?_updateNode, Graph.node?_updateNode]
    split
    -- The update is the same on both sides, so related nodes stay related.
    · generalize plain.node? other = x, tapped.node? other = y at related ⊢
      cases related with
      | none => exact .none
      | some beside => exact .some (beside.update linked)
    · exact related
  apart := by
    intro other node found leads
    obtain ⟨before, was, ⟨-, rfl⟩ | ⟨-, rfl⟩⟩ := Graph.updateNode_cases found
    · exact couples.apart _ before was (narrows before _ leads)
    · exact couples.apart other _ was leads
  root := couples.root
  within := couples.within
  environment := couples.environment
  calm := couples.calm.updateNode id calm
  running := couples.running
  store := couples.store
  calls := couples.calls
  opened := couples.opened
  tanks := by
    intro other node s away found stage
    obtain ⟨before, was, ⟨rfl, rfl⟩ | ⟨-, rfl⟩⟩ := Graph.updateNode_cases found
    · exact tanks away before s was stage
    · exact couples.tanks other _ s away was stage
  sink := by
    obtain ⟨node, s, found, catches, idle⟩ := couples.sink
    rw [Graph.node?_updateNode, found]
    split
    next same =>
      have ⟨catches, busy⟩ := kept same node s catches
      exact ⟨f node, s, rfl, catches, busy.trans idle⟩
    next => exact ⟨node, s, rfl, catches, idle⟩

theorem changed {f : Node σ → Node σ}
    (linked : ∀ node main, f { node with main } = { f node with main })
    (around : ∀ node : Node σ, node.Around (f node))
    (calm : ∀ node, (f node).closeDeferred = node.closeDeferred)
    (kept : id = tap.sink → ∀ (node : Node σ), node.Retains (f node) ∧
      (f node).phase = node.phase ∧ (f node).busy = node.busy) :
    tap.Couples knows (tapped.updateNode id f) (plain.updateNode id f) := by
  refine couples.update linked calm (fun node target leads => leads.of_around (around node)) ?_ ?_
  · intro away node s found stage
    exact couples.tanks id node s away found ((around node).kind.symm.trans stage)
  · intro same node s catches
    have ⟨retains, phase, busy⟩ := kept same node
    exact ⟨
      { stage := (around node).kind.trans catches.stage
        main := (around node).main.trans catches.main
        declared := retains.declared.trans catches.declared
        dynamic := retains.dynamic.trans catches.dynamic
        ongoing := phase.symm ▸ catches.ongoing }, busy⟩

theorem setTank (id : NodeId) (f : Tank → Tank) :
    tap.Couples knows (tapped.updateNode id fun node => { node with tank := f node.tank })
      (plain.updateNode id fun node => { node with tank := f node.tank }) :=
  couples.changed (fun _ _ => rfl) (fun _ => ⟨rfl, rfl, rfl⟩) (fun _ => rfl)
    fun _ _ => ⟨⟨rfl, rfl⟩, rfl, rfl⟩

theorem setParams (other : id ≠ tap.sink) (f : ParamTable → ParamTable) :
    tap.Couples knows (tapped.updateNode id fun node => { node with params := f node.params })
      (plain.updateNode id fun node => { node with params := f node.params }) :=
  couples.changed (fun _ _ => rfl) (fun _ => ⟨rfl, rfl, rfl⟩) (fun _ => rfl)
    fun same => absurd same other

theorem mark (other : id ≠ tap.sink) (busy : Bool) :
    tap.Couples knows (tapped.mark id busy) (plain.mark id busy) :=
  couples.changed (fun _ _ => rfl) (fun _ => ⟨rfl, rfl, rfl⟩) (fun _ => rfl)
    fun same => absurd same other

theorem setState (other : id ≠ tap.sink) {s : σ} (tank : Stage.hasTank s = tap.tanks id) :
    tap.Couples knows (tapped.updateNode id fun node => { node with kind := .stage s })
      (plain.updateNode id fun node => { node with kind := .stage s }) := by
  refine couples.update (fun _ _ => rfl) (fun _ => rfl) (fun node target leads => ?_) ?_
    fun same => absurd same other
  · rcases leads with main | branch | entry
    · exact .inl main
    · exact .inr (.inl branch)
    · cases entry
  · rintro - node _ - ⟨⟩
    exact tank

theorem plain_calm (other : id ≠ tap.sink) : (plain.node? id).any Node.closeDeferred = false := by
  cases found : plain.node? id with
  | none => rfl
  | some node =>
    obtain ⟨beside, there, same, -⟩ := couples.node other found
    have deferred := couples.calm.2 id beside there
    rw [same] at deferred
    exact deferred

end Couples

structure Spoilt (tap : Tap) (g : Graph σ) : Prop where
  opened : openings tap.sink g.history ≠ tap.opened
  calm : g.Calm

omit [Stage σ] in
theorem Spoilt.mark {g : Graph σ} (spoilt : tap.Spoilt g) (id : NodeId) (busy : Bool) :
    tap.Spoilt (g.mark id busy) :=
  ⟨spoilt.opened, spoilt.calm.updateNode id fun _ => rfl⟩

/-- How two runs end that do the same apart from the sink. What is different once the sink has
opened a message does not matter. -/
inductive Joins (tap : Tap) (post : α → Graph σ → Graph σ → Prop) :
    Option (Except EngineError α × Graph σ) → Option (Except EngineError α × Graph σ) → Prop
  | behind {other : Option (Except EngineError α × Graph σ)} (leads : tap.leads = true) :
      Joins tap post none other
  | ahead {ended : Option (Except EngineError α × Graph σ)} (leads : tap.leads = false) :
      Joins tap post ended none
  | spoilt {e : EngineError} {tapped : Graph σ} {other : Option (Except EngineError α × Graph σ)}
      (spoilt : tap.Spoilt tapped) :
      Joins tap post (some (.error e, tapped)) other
  | done {a : α} {tapped plain : Graph σ} (holds : post a tapped plain) :
      Joins tap post (some (.ok a, tapped)) (some (.ok a, plain))
  | failed {e : EngineError} {tapped plain : Graph σ}
      (couples : tap.Couples (fun _ => False) tapped plain) :
      Joins tap post (some (.error e, tapped)) (some (.error e, plain))

def Locks (tap : Tap) (run run' : Run σ α) (tapped plain : Graph σ)
    (post : α → Graph σ → Graph σ → Prop) : Prop :=
  tap.Joins post (run.start tapped) (run'.start plain)

namespace Locks

variable {run run' : Run σ α} {post mid : α → Graph σ → Graph σ → Prop}

theorem mono (locks : tap.Locks run run' tapped plain mid)
    (implies : ∀ a tapped plain, mid a tapped plain → post a tapped plain) :
    tap.Locks run run' tapped plain post := by
  unfold Locks at locks ⊢
  generalize run.start tapped = x, run'.start plain = y at locks ⊢
  cases locks with
  | behind leads => exact .behind leads
  | ahead leads => exact .ahead leads
  | spoilt spoilt => exact .spoilt spoilt
  | done holds => exact .done (implies _ _ _ holds)
  | failed couples => exact .failed couples

theorem pure {a : α} (holds : post a tapped plain) :
    tap.Locks (Pure.pure a) (Pure.pure a) tapped plain post := .done holds

theorem throw {e : EngineError} (couples : tap.Couples knows tapped plain) :
    tap.Locks (MonadExcept.throw e) (MonadExcept.throw e) tapped plain post :=
  .failed (couples.mono fun _ => False.elim)

theorem bind {next next' : α → Run σ β} {post : β → Graph σ → Graph σ → Prop}
    (first : tap.Locks run run' tapped plain mid)
    (rest : ∀ a tapped plain, mid a tapped plain → tap.Locks (next a) (next' a) tapped plain post) :
    tap.Locks (run >>= next) (run' >>= next') tapped plain post := by
  unfold Locks at first ⊢
  rw [Run.start_bind, Run.start_bind]
  generalize run.start tapped = x, run'.start plain = y at first
  -- Only where both have done the first part does the rest matter.
  cases first with
  | behind leads => exact .behind leads
  | ahead leads => exact .ahead leads
  | spoilt spoilt => exact .spoilt spoilt
  | done holds => exact rest _ _ _ holds
  | failed couples => exact .failed couples

theorem holding (other : id ≠ tap.sink)
    (locks : tap.Locks run run' (tapped.mark id true) (plain.mark id true) fun a tapped plain =>
      post a (tapped.mark id false) (plain.mark id false)) :
    tap.Locks (Run.holding id run) (Run.holding id run') tapped plain post := by
  unfold Locks at locks ⊢
  rw [Run.holding_start, Run.holding_start]
  generalize run.start _ = x, run'.start _ = y at locks
  cases locks with
  | behind leads => exact .behind leads
  | ahead leads => exact .ahead leads
  | spoilt spoilt => exact .spoilt (spoilt.mark id false)
  | done holds => exact .done holds
  | failed couples => exact .failed (couples.mark other false)

theorem of_start {result : Except EngineError α}
    (started : run.start tapped = some (result, tapped))
    (started' : run'.start plain = some (result, plain)) (couples : tap.Couples knows tapped plain)
    (holds : ∀ a, result = .ok a → post a tapped plain) :
    tap.Locks run run' tapped plain post := by
  unfold Locks
  rw [started, started']
  cases result with
  | ok a => exact .done (holds a rfl)
  | error e => exact .failed (couples.mono fun _ => False.elim)

theorem throw_bind {e : EngineError} {next next' : α → Run σ β}
    {post : β → Graph σ → Graph σ → Prop} (couples : tap.Couples knows tapped plain) :
    tap.Locks ((MonadExcept.throw e : Run σ α) >>= next) ((MonadExcept.throw e : Run σ α) >>= next')
      tapped plain post :=
  .failed (couples.mono fun _ => False.elim)

theorem ite {c c' : Prop} [Decidable c] [Decidable c'] {other other' : Run σ α} (same : c ↔ c')
    (holds : c → tap.Locks run run' tapped plain post)
    (fails : ¬c → tap.Locks other other' tapped plain post) :
    tap.Locks (if c then run else other) (if c' then run' else other') tapped plain post := by
  by_cases this : c
  · rw [if_pos this, if_pos (same.mp this)]
    exact holds this
  · rw [if_neg this, if_neg (mt same.mpr this)]
    exact fails this

theorem graph_bind {next next' : Graph σ → Run σ α}
    (rest : tap.Locks (next tapped) (next' plain) tapped plain post) :
    tap.Locks (Run.graph >>= next) (Run.graph >>= next') tapped plain post := rest

theorem look_bind {h : Handle} {next next' : Parcel → Run σ α}
    (rest : tap.Locks (next (tapped.store.read h)) (next' (plain.store.read h)) tapped plain post) :
    tap.Locks (Run.look h >>= next) (Run.look h >>= next') tapped plain post := rest

theorem update_bind {f f' : Graph σ → Graph σ} {next next' : Unit → Run σ α}
    (rest : tap.Locks (next ()) (next' ()) (f tapped) (f' plain) post) :
    tap.Locks (Run.update f >>= next) (Run.update f' >>= next') tapped plain post := rest

theorem update {f f' : Graph σ → Graph σ} {post : Unit → Graph σ → Graph σ → Prop}
    (holds : post () (f tapped) (f' plain)) :
    tap.Locks (Run.update f) (Run.update f') tapped plain post := .done holds

theorem atNode {f f' : Node σ → Run σ Unit} {post : Unit → Graph σ → Graph σ → Prop}
    (couples : tap.Couples knows tapped plain) (other : id ≠ tap.sink)
    (absent : post () tapped plain)
    (there : ∀ (node : Node σ) (main : Option NodeId), plain.node? id = some node →
      tapped.node? id = some { node with main } →
        (main = node.main ∨ main = some tap.sink ∧ node.main = none) →
          tap.Locks (f { node with main }) (f' node) tapped plain post) :
    tap.Locks (Run.atNode id f) (Run.atNode id f') tapped plain post := by
  cases found : plain.node? id with
  | none =>
    have related := couples.nodes id other
    rw [found] at related
    generalize gone : tapped.node? id = beside at related
    cases related with
    | none =>
      exact .of_start (Run.atNode_start_none gone f) (Run.atNode_start_none found f') couples
        fun _ _ => absent
  | some node =>
    obtain ⟨beside, found', same, main⟩ := couples.node other found
    rw [same] at found'
    have rest := there node beside.main found found' main
    unfold Locks at rest ⊢
    rwa [Run.atNode_start found, Run.atNode_start found']

end Locks

end Tap

end Sluice
