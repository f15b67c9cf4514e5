import Sluice.Proofs.Graph.Calm
import Sluice.Proofs.Graph.CloseCalls
import Sluice.Proofs.Graph.CloseWalk
import Sluice.Proofs.Stage.Roles

set_option autoImplicit false

namespace Sluice

theorem Tank.popExcess_size {t rest : Tank} {slot : Option Handle}
    (popped : t.popExcess = some (slot, rest)) : rest.size + 1 = t.size := by
  unfold popExcess at popped
  split at popped
  · cases popped
  · obtain ⟨⟨slot, buffer⟩, first, same⟩ := Option.map_eq_some_iff.mp popped
    cases same
    unfold Buffer.pop at first
    split at first
    · cases first
    next slots =>
      cases first
      simp [size, Buffer.size, slots]

theorem Tank.popExcess_none {t : Tank} (none : t.popExcess = none) (capacity : t.capacity = 0) :
    t.size = 0 := by
  unfold popExcess at none
  split at none
  next fits =>
    simp only [capacity, Bool.or_eq_true, decide_eq_true_eq] at fits
    unfold size
    omega
  next =>
    unfold Buffer.pop at none
    split at none
    next slots => simp [size, Buffer.size, slots]
    next => cases none

theorem Tank.releaseBy_none (n : Nat) (t : Tank) (enough : t.size ≤ n) (capacity : t.capacity = 0)
    (none : (releaseBy n t).1 = none) : (releaseBy n t).2.size = 0 := by
  induction n generalizing t with
  | zero => exact Nat.le_zero.mp enough
  | succ n ih =>
    unfold releaseBy at none ⊢
    split at none
    next last => exact popExcess_none last capacity
    next rest popped =>
      have size := popExcess_size popped
      exact ih rest (by omega) ((popExcess_fits popped).1.trans capacity) none
    next => cases none

theorem Tank.release_none {t : Tank} (capacity : t.capacity = 0) (none : t.release.1 = none) :
    t.release.2.size = 0 :=
  releaseBy_none t.size t (Nat.le_refl _) capacity none

theorem Tank.held_of_size {t : Tank} (size : t.size = 0) : t.held = 0 := by
  have slots : t.buffer.slots = [] := List.eq_nil_of_length_eq_zero size
  simp [held, Buffer.held, Buffer.items, slots]

def NodeKind.role : NodeKind Stock → NodeKind Stock
  | .stage s => .stage s.role
  | kind => kind

def Node.still (node : Node Stock) : Node Stock :=
  { node with
    kind := node.kind.role
    params := .make "" ""
    busy := false
    tank := .empty }

namespace Node

theorem still_next (node : Node Stock) : node.still.next = node.next := by
  have loops (s : Stock) : Stage.feedsBack s.role = Stage.feedsBack s := s.feedsBack_role
  unfold next still NodeKind.role
  cases node.kind <;> simp [loops]

section

variable {before node : Node Stock} (same : node.still = before.still)
include same

theorem next_of_still : node.next = before.next := by
  rw [← still_next node, same, still_next]

theorem phase_of_still : node.phase = before.phase :=
  have same : node.still.phase = before.still.phase := congrArg Node.phase same
  same

theorem main_of_still : node.main = before.main :=
  have same : node.still.main = before.still.main := congrArg Node.main same
  same

theorem closeDeferred_of_still : node.closeDeferred = before.closeDeferred :=
  have same : node.still.closeDeferred = before.still.closeDeferred := congrArg Node.closeDeferred same
  same

theorem stage_of_still {s : Stock} (stage : node.kind = .stage s) :
    ∃ t, before.kind = .stage t ∧ s.role = t.role := by
  have role : node.kind.role = before.kind.role := congrArg Node.kind same
  rw [stage] at role
  cases kind : before.kind with
  | stage t =>
    rw [kind] at role
    exact ⟨t, rfl, NodeKind.stage.inj role⟩
  | _ => rw [kind] at role; cases role

end

end Node

theorem Node.tankQueue_of_hasTank {node : Node Stock} (tank : node.state?.any Stock.hasTank = true) :
    node.kind = .stage .tankQueue := by
  obtain ⟨s, state, tank⟩ := (Option.any_eq_true _ _).mp tank
  have kind := Node.kind_of_state state
  cases s with
  | tankQueue => exact kind
  | _ => cases tank

namespace Graph

def tank? (g : Graph Stock) (id : NodeId) : Option Tank := (g.node? id).map Node.tank

def Queue (g : Graph Stock) (id : NodeId) : Prop :=
  ∃ node, g.node? id = some node ∧ node.kind = .stage .tankQueue

def hasQueue (g : Graph Stock) (id : NodeId) : Bool := (g.node? id).any fun node => node.state?.any Stock.hasTank

theorem hasQueue_iff {g : Graph Stock} {id : NodeId} : g.hasQueue id = true ↔ g.Queue id := by
  constructor
  · intro has
    obtain ⟨node, found, tank⟩ := (Option.any_eq_true _ _).mp has
    exact ⟨node, found, Node.tankQueue_of_hasTank tank⟩
  · rintro ⟨node, found, stage⟩
    simp [hasQueue, found, Node.state?, stage, Stock.hasTank]

def Emptied (g : Graph Stock) (id : NodeId) : Prop := ∃ t, g.tank? id = some t ∧ t.size = 0

def Still (g after : Graph Stock) : Prop :=
  ∀ id, (after.node? id).map Node.still = (g.node? id).map Node.still

variable {g mid after : Graph Stock} {id : NodeId}

theorem Still.trans (first : g.Still mid) (second : mid.Still after) : g.Still after :=
  fun id => (second id).trans (first id)

theorem Still.node (still : g.Still after) {node : Node Stock} (found : after.node? id = some node) :
    ∃ before, g.node? id = some before ∧ node.still = before.still := by
  have same := still id
  rw [found] at same
  obtain ⟨before, was, same⟩ := Option.map_eq_some_iff.mp same.symm
  exact ⟨before, was, same.symm⟩

theorem Still.update {f : Node Stock → Node Stock}
    (same : ∀ node, g.node? id = some node → (f node).still = node.still) :
    g.Still (g.updateNode id f) := map_updateNode same

theorem tank?_update (f : Node Stock → Node Stock) (other : NodeId) :
    (g.updateNode id f).tank? other =
      if id = other then (g.node? other).map fun node => (f node).tank else g.tank? other := by
  rw [tank?, node?_updateNode]
  split
  · rw [Option.map_map]
    rfl
  · rfl

theorem tank?_same {f : Node Stock → Node Stock} (same : ∀ node, (f node).tank = node.tank)
    (other : NodeId) : (g.updateNode id f).tank? other = g.tank? other := by
  rw [tank?_update]
  split
  · exact Option.map_congr fun node _ => same node
  · rfl

@[simp] theorem tank?_mark (busy : Bool) (other : NodeId) :
    (g.mark id busy).tank? other = g.tank? other := by
  refine tank?_same (fun _ => ?_) other
  rfl

@[simp] theorem tank?_defer (closeDeferred : Bool) (other : NodeId) :
    (g.defer id closeDeferred).tank? other = g.tank? other := by
  refine tank?_same (fun _ => ?_) other
  rfl

end Graph

def Event.refusal? {σ : Type} : Event σ → Option (NodeId × Packet)
  | .refused id packet => some (id, packet)
  | _ => none

def Graph.refusals {σ : Type} (g : Graph σ) : List (NodeId × Packet) :=
  g.history.filterMap Event.refusal?

structure Graph.Drained (g : Graph Stock) (own : NodeId) (locked : NodeId → Prop) (refuses : Prop)
    (result : Except EngineError Unit) (after : Graph Stock) : Prop where
  still : g.Still after
  advances : g.Advances after
  locked : ∀ id, locked id → after.tank? id = g.tank? id
  refusals : ¬refuses → after.refusals = g.refusals
  admits : ∀ e, result = .error e → e.isStageClosed = false ∨ refuses
  emptied : result = .ok () → g.Queue own → after.Emptied own

/-- A tank queue is being flushed. The tanks of some closed stages stay as they are, and no packet
is refused unless that is expected. -/
structure Flushing where
  start : Graph Stock
  own : NodeId
  queue : start.Queue own
  kept : ∀ id node, start.node? id = some node → node.closeDeferred = false
  locked : NodeId → Prop
  shut : ∀ id node, locked id → start.node? id = some node → node.phase = .closed
  unfed : ∀ id node f target, start.Downstream own id → start.node? id = some node →
    node.kind = .stage (.tankFeed f) → f.target = some target → ¬locked target
  refuses : Prop
  closed : ∀ id node s, start.Downstream own id → start.node? id = some node →
    node.kind = .stage s → node.phase = .closed → refuses

namespace Flushing

variable (flush : Flushing)

structure Flows (g : Graph Stock) : Prop where
  still : flush.start.Still g
  closing : g.shuttingDown = true
  held : g.Held flush.own

structure Moves (g after : Graph Stock) : Prop where
  advances : g.Advances after
  locked : ∀ id, flush.locked id → after.tank? id = g.tank? id
  capacity : (after.tank? flush.own).map Tank.capacity = (g.tank? flush.own).map Tank.capacity
  refusals : ¬flush.refuses → after.refusals = g.refusals

def error (e : EngineError) : Prop := e.isStageClosed = false ∨ flush.refuses

def Acts (id : NodeId) : Prop :=
  flush.start.Downstream flush.own id ∧ id ≠ flush.own ∧
    ∃ node s, flush.start.node? id = some node ∧ node.kind = .stage s ∧ node.phase ≠ .closed

def regime : Regime Stock where
  inv := flush.Flows
  rel := flush.Moves
  during := fun id g after => flush.Moves g (after.defer id false)
  error := flush.error
  scope := flush.start.Downstream flush.own
  acts := flush.Acts
  ready := fun id g => g.Held id
  asks := fun id r => ∀ node s, flush.start.node? id = some node → node.kind = .stage s →
    Stock.Asks id s.role r
  keeps := fun id t => ∀ node s, flush.start.node? id = some node → node.kind = .stage s →
    t.role = s.role

variable {flush} {g mid after : Graph Stock} {id : NodeId}

theorem Moves.refl (g : Graph Stock) : flush.Moves g g :=
  ⟨.refl g, fun _ _ => rfl, rfl, fun _ => rfl⟩

theorem Moves.trans (first : flush.Moves g mid) (second : flush.Moves mid after) :
    flush.Moves g after :=
  ⟨first.advances.trans second.advances,
    fun id locked => (second.locked id locked).trans (first.locked id locked),
    second.capacity.trans first.capacity,
    fun strict => (second.refusals strict).trans (first.refusals strict)⟩

theorem Moves.update {f : Node Stock → Node Stock} (advances : g.Advances (g.updateNode id f))
    (unlocked : ¬flush.locked id ∨ ∀ node, g.node? id = some node → (f node).tank = node.tank)
    (capacity : id = flush.own → ∀ node, g.node? id = some node →
      (f node).tank.capacity = node.tank.capacity) : flush.Moves g (g.updateNode id f) := by
  refine ⟨advances, fun other locked => ?_, ?_, fun _ => rfl⟩
  · rw [Graph.tank?_update]
    split
    next here =>
      subst here
      refine Option.map_congr fun node found => ?_
      exact unlocked.resolve_left (not_not_intro locked) node found
    next => rfl
  · rw [Graph.tank?_update]
    split
    next here =>
      subst here
      rw [Graph.tank?, Option.map_map, Option.map_map]
      exact Option.map_congr fun node found => capacity rfl node found
    next => rfl

theorem Flows.moved (flows : flush.Flows g) (advances : g.Advances after)
    (still : g.Still after) : flush.Flows after :=
  ⟨flows.still.trans still, advances.shuttingDown flows.closing, flows.held.advances advances⟩

theorem Flows.stage (flows : flush.Flows g) {node : Node Stock} {s : Stock}
    (found : g.node? id = some node) (stage : node.kind = .stage s) :
    ∃ before t, flush.start.node? id = some before ∧ node.still = before.still ∧
      before.kind = .stage t ∧ s.role = t.role := by
  obtain ⟨before, was, same⟩ := flows.still.node found
  obtain ⟨t, kind, role⟩ := Node.stage_of_still same stage
  exact ⟨before, t, was, same, kind, role⟩

theorem Acts.unlocked (acts : flush.Acts id) : ¬flush.locked id := by
  obtain ⟨-, -, node, s, found, -, ongoing⟩ := acts
  exact fun locked => ongoing (flush.shut id node locked found)

theorem allows_same {after : Graph Stock} (flows : flush.Flows g) (nodes : after.nodes = g.nodes)
    (advances : g.Advances after) (refusals : ¬flush.refuses → after.refusals = g.refusals) :
    flush.regime.Allows g after := by
  have same (id : NodeId) : after.node? id = g.node? id := by rw [Graph.node?, nodes]; rfl
  refine ⟨flows.moved advances fun id => by rw [same], advances, fun id _ => ?_, ?_, refusals⟩
  · rw [Graph.tank?, Graph.tank?, same]
  · rw [Graph.tank?, Graph.tank?, same]

theorem allows_update {f : Node Stock → Node Stock} (flows : flush.Flows g)
    (advances : g.Advances (g.updateNode id f))
    (still : ∀ node, g.node? id = some node → (f node).still = node.still)
    (unlocked : ¬flush.locked id ∨ ∀ node, g.node? id = some node → (f node).tank = node.tank)
    (capacity : id = flush.own → ∀ node, g.node? id = some node →
      (f node).tank.capacity = node.tank.capacity) :
    flush.regime.Allows g (g.updateNode id f) :=
  ⟨flows.moved advances (.update still), .update advances unlocked capacity⟩

theorem Flows.elsewhere (flows : flush.Flows g) (opened : g.Open id) : id ≠ flush.own := by
  rintro rfl
  obtain ⟨node, _, found, -, idle, -⟩ := opened
  obtain ⟨last, _, there, -, busy, -⟩ := flows.held
  obtain rfl : node = last := Option.some.inj (found.symm.trans there)
  rw [idle] at busy
  cases busy

theorem Flows.mark (flows : flush.Flows g) (other : id ≠ flush.own) (busy : Bool) :
    flush.Flows (g.mark id busy) := by
  refine ⟨flows.still.trans (.update fun _ _ => rfl), flows.closing, ?_⟩
  obtain ⟨last, s, there, rest⟩ := flows.held
  refine ⟨last, s, ?_, rest⟩
  rw [Graph.mark, Graph.node?_updateNode, if_neg other]
  exact there

theorem regime_lawful (flush : Flushing) : flush.regime.Lawful where
  refl := Moves.refl
  trans := Moves.trans
  during_trans := by
    intro id g mid after during later
    refine ⟨during.advances.trans later.advances.deferBoth, fun other locked => ?_, ?_,
      fun strict => (later.refusals strict).trans (during.refusals strict)⟩
    · simpa [later.locked other locked] using during.locked other locked
    · simpa [later.capacity] using during.capacity
  advances := Moves.advances
  error := fun _ => .inl
  closed := by
    intro g id node s packet flows scope found stage closed
    obtain ⟨before, t, was, same, kind, -⟩ := flows.stage found stage
    have refuses : flush.refuses :=
      flush.closed id before t scope was kind ((Node.phase_of_still same).symm.trans closed)
    exact ⟨allows_same flows rfl (.remember _ _) fun strict => absurd refuses strict, .inr refuses⟩
  logged := by
    intro g event flows logged
    refine allows_same flows rfl (.remember _ _) fun _ => List.filterMap_cons_none ?_
    cases event <;> first | rfl | cases logged
  store := fun store flows => allows_same flows rfl (.store _ store) fun _ => rfl
  enter := by
    intro g id flows scope opened
    have ⟨node, s, found, stage, idle, ongoing⟩ := opened
    obtain ⟨before, t, was, same, kind, -⟩ := flows.stage found stage
    have other := flows.elsewhere opened
    exact ⟨⟨scope, other, before, t, was, kind, Node.phase_of_still same ▸ ongoing⟩,
      flows.mark other true, opened.held⟩
  leave := by
    intro g id after flows scope opened ⟨later, moves⟩
    have other := flows.elsewhere opened
    refine ⟨later.mark other false, opened.released moves.advances, fun id locked => ?_, ?_,
      moves.refusals⟩
    · simpa using moves.locked id locked
    · simpa using moves.capacity
  ready_held := fun held => held
  ready_rel := fun held moves => held.advances moves.advances
  called := fun flows _ _ _ => allows_same flows rfl (.remember _ _) fun _ => rfl
  state := by
    intro g id s flows acts held keeps
    refine allows_update flows (.state held s) (fun node found => ?_) (.inr fun _ _ => rfl)
      fun _ _ _ => rfl
    obtain ⟨last, t, there, stage, -⟩ := held
    obtain rfl : last = node := Option.some.inj (there.symm.trans found)
    obtain ⟨before, u, was, -, kind, role⟩ := flows.stage found stage
    have same : s.role = t.role := (keeps before u was kind).trans role.symm
    simp only [Node.still, NodeKind.role, stage, same]
  params := fun f flows _ _ => allows_update flows (.params _ _ _) (fun _ _ => rfl)
    (.inr fun _ _ => rfl) fun _ _ _ => rfl
  refill := fun flows acts _ _ => allows_update flows (.tank _ _ _) (fun _ _ => rfl)
    (.inl acts.unlocked) fun same => absurd same acts.2.1
  released := fun flows acts _ _ => allows_update flows (.tank _ _ _) (fun _ _ => rfl)
    (.inl acts.unlocked) fun same => absurd same acts.2.1
  -- A stage puts parcels into its own tank, which is not locked as the stage can be called, or
  -- else it is a feeder.
  fed := by
    intro g id target h p flows acts asks
    refine allows_update flows (.tank _ _ _) (fun _ _ => rfl) (.inl fun locked => ?_)
      fun _ _ _ => rfl
    obtain ⟨node, s, found, stage, -⟩ := acts.2.2
    rcases (asks node s found stage).fed with rfl | ⟨f, rfl, fed⟩
    · exact acts.unlocked locked
    · exact flush.unfed id node f target acts.1 found stage fed locked
  programs := by
    intro g id node s flows acts found stage
    obtain ⟨before, t, was, -, kind, role⟩ := flows.stage found stage
    refine (Stock.obeys (node.here id) s).mono (fun r asks other u there same => ?_)
      (fun last keeps other u there same => ?_) fun _ => .inl
    · obtain rfl : before = other := Option.some.inj (was.symm.trans there)
      obtain rfl := NodeKind.stage.inj (kind.symm.trans same)
      exact role ▸ asks
    · obtain rfl : before = other := Option.some.inj (was.symm.trans there)
      obtain rfl := NodeKind.stage.inj (kind.symm.trans same)
      exact keeps.trans role
  next := by
    intro g id node target flows scope found leads
    obtain ⟨before, was, same⟩ := flows.still.node found
    exact scope.onward was (Node.next_of_still same ▸ leads)
  sends := by
    intro g id node target r flows acts found main asks sends
    obtain ⟨before, was, same⟩ := flows.still.node found
    obtain ⟨scope, -, other, s, there, stage, -⟩ := acts
    obtain rfl : before = other := Option.some.inj (was.symm.trans there)
    have loops : Stage.feedsBack s = false := (asks before s was stage).sent sends
    refine scope.onward was ?_
    simp [Node.next, stage, loops, ← Node.main_of_still same, main]

variable {again : Call → Run Stock Unit}

theorem Flows.settle (flows : flush.Flows mid) (moves : flush.Moves g (mid.defer id false))
    {result : Except EngineError Unit} (admits : flush.regime.Admits result) :
    (Traffic.settle again id result).Ends mid fun result after =>
      flush.regime.Allows g after ∧ flush.regime.Admits result := by
  have kept : (mid.node? id).any Node.closeDeferred = false := by
    cases found : mid.node? id with
    | none => rfl
    | some node =>
      obtain ⟨before, was, same⟩ := flows.still.node found
      exact (Node.closeDeferred_of_still same).trans (flush.kept id before was)
  refine Traffic.settle_ends (fun _ => ⟨⟨flows, ?_⟩, admits⟩) fun deferred => ?_
  · refine ⟨moves.advances.trans (.undefer kept), fun id locked => ?_, ?_, moves.refusals⟩
    · simpa using moves.locked id locked
    · simpa using moves.capacity
  · rw [kept] at deferred
    cases deferred

theorem perform_serves (flush : Flushing) (depth : Nat) :
    flush.regime.Serves (Traffic.perform depth) := by
  have shutdown {g : Graph Stock} {id : NodeId} {again : Call → Run Stock Unit}
      (acts : flush.Acts id) (asks : flush.regime.asks id .shutdown) :
      flush.regime.Follows (Traffic.shutdown again) g := by
    obtain ⟨-, -, node, s, found, stage, -⟩ := acts
    cases asks node s found stage
  induction depth with
  | zero => exact ⟨fun _ _ _ => trivial, fun _ _ _ _ => trivial, fun _ acts _ asks =>
      shutdown acts asks, fun _ _ _ flows moves admits => flows.settle moves admits⟩
  | succ depth ih =>
    exact ⟨fun packet flows scope => flush.regime_lawful.deliver ih flows scope packet,
      fun flows acts held asks => flush.regime_lawful.drain ih flows acts held asks,
      fun _ acts _ asks => shutdown acts asks,
      fun _ _ _ flows moves admits => flows.settle moves admits⟩

theorem Flows.main (flows : flush.Flows g) {node : Node Stock} {target : NodeId}
    (found : g.node? flush.own = some node) (main : node.main = some target) :
    flush.start.Downstream flush.own target := by
  obtain ⟨before, was, same⟩ := flows.still.node found
  obtain ⟨other, there, queue⟩ := flush.queue
  obtain rfl : before = other := Option.some.inj (was.symm.trans there)
  have loops : Stage.feedsBack Stock.tankQueue = false := rfl
  refine .next was ?_
  simp [Node.next, queue, loops, ← Node.main_of_still same, main]

theorem Flows.unlocked (flows : flush.Flows g) : ¬flush.locked flush.own := by
  obtain ⟨node, _, found, -, -, ongoing⟩ := flows.held
  obtain ⟨before, was, same⟩ := flows.still.node found
  exact fun locked => ongoing ((Node.phase_of_still same).trans (flush.shut _ _ locked was))

def Flushed (flush : Flushing) (g : Graph Stock) (result : Except EngineError Unit)
    (after : Graph Stock) : Prop :=
  (flush.regime.Allows g after ∧ flush.regime.Admits result) ∧
    (result = .ok () → after.Emptied flush.own)

theorem Flushed.since (before : flush.regime.rel g mid) {result : Except EngineError Unit}
    (flushed : flush.Flushed mid result after) : flush.Flushed g result after :=
  ⟨⟨⟨flushed.1.1.1, before.trans flushed.1.1.2⟩, flushed.1.2⟩, flushed.2⟩

theorem drainOn_flushed (serves : flush.regime.Serves again)
    (drains : ∀ {g : Graph Stock} {t : Tank}, flush.Flows g → g.tank? flush.own = some t →
      t.capacity = 0 → (again (.drain flush.own)).Ends g (flush.Flushed g))
    (flows : flush.Flows g) {t : Tank} (tank : g.tank? flush.own = some t) (capacity : t.capacity = 0)
    (h : Handle) (r : Report) :
    (do
      Run.report r
      Traffic.forward again flush.own h .main
      again (.drain flush.own) : Run Stock Unit).Ends g (flush.Flushed g) := by
  have lawful := flush.regime_lawful
  have start : flush.regime.Follows (do
      Run.report r
      Traffic.forward again flush.own h .main) g :=
    lawful.bind (lawful.report flows r) fun _ _ flows _ =>
      lawful.forward serves flows (fun _ _ => flows.main) h .main
  rw [← bind_assoc, Run.ends_bind]
  refine start.mono fun result mid ⟨⟨flows, moves⟩, admits⟩ => ?_
  cases result with
  | error e => exact ⟨⟨⟨flows, moves⟩, Regime.admits_error (admits e rfl)⟩, nofun⟩
  | ok _ =>
    have kept := moves.capacity
    rw [tank] at kept
    obtain ⟨last, there, same⟩ := Option.map_eq_some_iff.mp kept
    exact (drains flows there (same.trans capacity)).mono fun _ _ => Flushed.since moves

theorem drain_flushed (depth : Nat) {t : Tank} (flows : flush.Flows g)
    (tank : g.tank? flush.own = some t) (capacity : t.capacity = 0) :
    (Traffic.perform depth (.drain flush.own)).Ends g (flush.Flushed g) := by
  -- Each round is another call, so that parcels that come back meanwhile leave in a later one.
  induction depth generalizing g t with
  | zero => exact trivial
  | succ depth ih =>
    obtain ⟨node, -, found, -⟩ := flows.held
    obtain rfl : node.tank = t := by
      rw [Graph.tank?, found] at tank
      exact Option.some.inj tank
    have fits := node.tank.release_fits.1
    have opened : (Traffic.perform (depth + 1) (.drain flush.own) : Run Stock Unit) =
      Traffic.drain (Traffic.perform depth) flush.own := rfl
    rw [opened, Traffic.drain_ends found, Run.ends_bind]
    have allows : flush.regime.Allows g (g.updateNode flush.own fun other =>
        { other with tank := node.tank.release.2 }) :=
      allows_update flows (.tank _ _ _) (fun _ _ => rfl) (.inl flows.unlocked) fun _ other there =>
        Option.some.inj (found.symm.trans there) ▸ fits
    have left : (g.updateNode flush.own fun other =>
        { other with tank := node.tank.release.2 }).tank? flush.own = some node.tank.release.2 := by
      rw [Graph.tank?_update, if_pos rfl, found]
      rfl
    cases released : node.tank.release.1 with
    | none =>
      exact ⟨⟨allows, flush.regime.admits_ok ()⟩, fun _ => ⟨_, left,
        Tank.release_none capacity released⟩⟩
    | some h =>
      have rest := drainOn_flushed (flush.perform_serves depth) ih allows.1 left
        (fits.trans capacity) h (.tankForwarded ((g.updateNode flush.own fun other =>
          { other with tank := node.tank.release.2 }).pathOf flush.own) node.tank.release.2.released)
      refine (Run.ends_bind _ _).mpr ?_
      exact rest.mono fun _ _ => Flushed.since allows.2

theorem flush_drained (depth : Nat) (flows : flush.Flows flush.start) :
    (Traffic.runStage (Traffic.perform depth) flush.own fun here _ s => Stage.flush here s).Ends
      flush.start (flush.start.Drained flush.own flush.locked flush.refuses) := by
  obtain ⟨node, found, queue⟩ := flush.queue
  refine (Run.ends_atNode _ _).mpr ⟨fun other there => ?_, fun none => ?_⟩
  · obtain rfl : node = other := Option.some.inj (found.symm.trans there)
    rw [queue]
    -- A flush sets the capacity to zero and drains.
    have opened : Traffic.interpret (Traffic.perform depth) flush.own
        (Stage.flush (node.here flush.own) Stock.tankQueue) = (do
          let t ← Run.tankOf flush.own
          Run.setTank flush.own { t with capacity := 0 }
          Traffic.perform depth (.drain flush.own)
          pure ()) := rfl
    dsimp only
    rw [opened]
    unfold Run.tankOf Run.setTank Run.updateNode
    simp only [Run.ends_bind, Run.ends_graph, Run.ends_pure, Run.ends_update, found]
    have still : flush.start.Still (flush.start.updateNode flush.own fun other =>
        { other with tank := { node.tank with capacity := 0 } }) := .update fun _ _ => rfl
    have advances : flush.start.Advances (flush.start.updateNode flush.own fun other =>
        { other with tank := { node.tank with capacity := 0 } }) := .tank _ _ _
    have tank : (flush.start.updateNode flush.own fun other =>
        { other with tank := { node.tank with capacity := 0 } }).tank? flush.own =
          some { node.tank with capacity := 0 } := by
      rw [Graph.tank?_update, if_pos rfl, found]
      rfl
    refine (drain_flushed depth (flows.moved advances still) tank rfl).mono
      fun result after flushed => ?_
    obtain ⟨⟨⟨ended, moves⟩, admits⟩, empty⟩ := flushed
    have drained : flush.start.Drained flush.own flush.locked flush.refuses result after := by
      refine
        { still := ended.still
          advances := advances.trans moves.advances
          locked id locked := ?_
          refusals := moves.refusals
          admits
          emptied ok _ := empty ok }
      -- Only the queue's own tank is resized, and it is not among the locked ones.
      rw [moves.locked id locked, Graph.tank?_update, if_neg]
      rintro rfl
      exact flows.unlocked locked
    cases result <;> exact drained
  · rw [found] at none
    cases none

end Flushing

end Sluice
