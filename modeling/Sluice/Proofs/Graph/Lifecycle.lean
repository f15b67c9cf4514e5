import Sluice.Proofs.Graph.CloseCalls

set_option autoImplicit false

namespace Sluice

variable {σ : Type}

namespace Event

def phase? (id : NodeId) : Event σ → Option Phase
  | .began other node _ => if other = id then some node.phase else none
  | _ => none

def lastCall? (id : NodeId) : Event σ → Option Hook
  | .began other _ hook => if other = id ∧ hook.last = true then some hook else none
  | _ => none

end Event

def phasesSeen (id : NodeId) (history : List (Event σ)) : List Phase :=
  history.filterMap (Event.phase? id)

def lastCalls (id : NodeId) (history : List (Event σ)) : List Hook :=
  history.filterMap (Event.lastCall? id)

/-- The calls that have begun by the time a stage is in a phase, the latest first. -/
def Phase.calls : Phase → List Hook
  | .running => []
  | .flushing => [.flush]
  | .closing => [.close, .flush]
  | .closed => [.close, .flush]

/-- A stage was left in a phase on its way because a call that was to close it failed. -/
def Stuck (id : NodeId) (history : List (Event σ)) : Phase → Prop
  | .flushing => ∃ e, .failed id .flush e ∈ history
  | .closing => ∃ e, .failed id .close e ∈ history
  | _ => False

def Receding (phases : List Phase) : Prop :=
  phases.Pairwise fun later earlier => earlier.rank ≤ later.rank

structure Node.Orderly (id : NodeId) (shuttingDown : Bool) (history : List (Event σ))
    (node : Node σ) : Prop where
  waking : shuttingDown = false → node.phase = .running ∧ node.closeDeferred = false
  calls : ∀ s, node.kind = .stage s → lastCalls id history = node.phase.calls
  stuck : node.busy = false →
    node.phase = .running ∨ node.phase = .closed ∨ Stuck id history node.phase
  seen : Receding (node.phase :: phasesSeen id history)

/-- Calls that do not close a stage begin while it is running, or stuck on its way. -/
def Timely (history : List (Event σ)) : Prop :=
  ∀ id node hook older, (.began id node hook :: older) <:+ history → hook.last = false →
    node.phase = .running ∨ Stuck id older node.phase

structure Graph.Orderly (g : Graph σ) : Prop where
  nodes : ∀ id node, g.node? id = some node → node.Orderly id g.shuttingDown g.history
  timely : Timely g.history

theorem Stuck.mono {id : NodeId} {history more : List (Event σ)} {phase : Phase}
    (stuck : Stuck id history phase) (suffix : history <:+ more) : Stuck id more phase := by
  cases phase with
  | running => exact stuck
  | closed => exact stuck
  | flushing =>
    obtain ⟨e, member⟩ := stuck
    exact ⟨e, suffix.subset member⟩
  | closing =>
    obtain ⟨e, member⟩ := stuck
    exact ⟨e, suffix.subset member⟩

theorem Receding.cons_of_rank {phases : List Phase} {earlier later : Phase}
    (receding : Receding (earlier :: phases)) (rank : earlier.rank ≤ later.rank) :
    Receding (later :: phases) := by
  obtain ⟨first, rest⟩ := List.pairwise_cons.mp receding
  exact List.pairwise_cons.mpr ⟨fun phase member => Nat.le_trans (first phase member) rank, rest⟩

theorem Receding.again {phases : List Phase} {phase : Phase}
    (receding : Receding (phase :: phases)) : Receding (phase :: phase :: phases) := by
  refine List.pairwise_cons.mpr ⟨fun other member => ?_, receding⟩
  rcases List.mem_cons.mp member with rfl | member
  · exact Nat.le_refl _
  · exact (List.pairwise_cons.mp receding).1 other member

namespace Timely

variable {history : List (Event σ)}

theorem cons (timely : Timely history) {event : Event σ}
    (first : ∀ id node hook, event = .began id node hook → hook.last = false →
      node.phase = .running ∨ Stuck id history node.phase) : Timely (event :: history) := by
  intro id node hook older suffix ordinary
  rcases List.suffix_cons_iff.mp suffix with same | suffix
  · obtain ⟨rfl, rfl⟩ := List.cons.inj same
    exact first id node hook rfl ordinary
  · exact timely id node hook older suffix ordinary

theorem silent (timely : Timely history) {event : Event σ}
    (silent : ∀ id node hook, event = .began id node hook → hook.last = true) :
    Timely (event :: history) := by
  refine timely.cons fun id node hook same ordinary => ?_
  rw [silent id node hook same] at ordinary
  cases ordinary

end Timely

namespace Node.Orderly

variable {id : NodeId} {shuttingDown : Bool} {history : List (Event σ)} {node : Node σ}

theorem cons (orderly : node.Orderly id shuttingDown history) {event : Event σ}
    (elsewhere : ∀ other before hook, event = .began other before hook → other ≠ id) :
    node.Orderly id shuttingDown (event :: history) := by
  have call : event.lastCall? id = none := by
    cases event with
    | began other before hook => simp [Event.lastCall?, elsewhere other before hook rfl]
    | _ => rfl
  have phase : event.phase? id = none := by
    cases event with
    | began other before hook => simp [Event.phase?, elsewhere other before hook rfl]
    | _ => rfl
  constructor
  · exact orderly.waking
  · intro s stage
    rw [lastCalls, List.filterMap_cons_none call]
    exact orderly.calls s stage
  · exact fun idle => (orderly.stuck idle).imp_right fun left =>
      left.imp_right fun stuck => stuck.mono (List.suffix_cons _ _)
  · rw [phasesSeen, List.filterMap_cons_none phase]
    exact orderly.seen

theorem alike (orderly : node.Orderly id shuttingDown history) {next : Node σ}
    (phase : next.phase = node.phase) (busy : next.busy = node.busy)
    (deferred : next.closeDeferred = true → node.closeDeferred = true)
    (kind : ∀ s, next.kind = .stage s → ∃ t, node.kind = .stage t) :
    next.Orderly id shuttingDown history := by
  refine ⟨fun running => ?_, fun s stage => ?_, ?_, ?_⟩
  · have ⟨first, kept⟩ := orderly.waking running
    refine ⟨phase.trans first, Bool.eq_false_iff.mpr fun late => ?_⟩
    rw [deferred late] at kept
    cases kept
  · obtain ⟨t, stage⟩ := kind s stage
    exact phase ▸ orderly.calls t stage
  · rw [phase, busy]
    exact orderly.stuck
  · exact phase ▸ orderly.seen

theorem called (orderly : node.Orderly id shuttingDown history) {hook : Hook}
    (ordinary : hook.last = false) :
    node.Orderly id shuttingDown (.began id node hook :: history) := by
  have call : (Event.began id node hook).lastCall? id = none := by simp [Event.lastCall?, ordinary]
  have phase : (Event.began id node hook).phase? id = some node.phase := by simp [Event.phase?]
  constructor
  · exact orderly.waking
  · intro s stage
    rw [lastCalls, List.filterMap_cons_none call]
    exact orderly.calls s stage
  · exact fun idle => (orderly.stuck idle).imp_right fun left =>
      left.imp_right fun stuck => stuck.mono (List.suffix_cons _ _)
  · rw [phasesSeen, List.filterMap_cons_some phase]
    exact orderly.seen.again

theorem turned (orderly : node.Orderly id true history) {next : Node σ} {hook : Hook}
    (last : hook.last = true) (kind : ∀ s, next.kind = .stage s → ∃ t, node.kind = .stage t)
    (calls : next.phase.calls = hook :: node.phase.calls)
    (rank : node.phase.rank ≤ next.phase.rank) (busy : next.busy = true) :
    next.Orderly id true (.began id next hook :: history) := by
  have call : (Event.began id next hook).lastCall? id = some hook := by
    simp [Event.lastCall?, last]
  have phase : (Event.began id next hook).phase? id = some next.phase := by simp [Event.phase?]
  constructor
  · exact nofun
  · intro s stage
    obtain ⟨t, before⟩ := kind s stage
    rw [lastCalls, List.filterMap_cons_some call, calls]
    exact congrArg (hook :: ·) (orderly.calls t before)
  · intro idle
    rw [busy] at idle
    cases idle
  · rw [phasesSeen, List.filterMap_cons_some phase]
    exact (orderly.seen.cons_of_rank rank).again

end Node.Orderly

namespace Graph.Orderly

variable {g after : Graph σ} {id : NodeId}

theorem waking (orderly : g.Orderly) (running : g.shuttingDown = false) {node : Node σ}
    (found : g.node? id = some node) : node.phase = .running ∧ node.closeDeferred = false :=
  (orderly.nodes id node found).waking running

theorem update (orderly : g.Orderly) {f : Node σ → Node σ}
    (keeps : ∀ node, g.node? id = some node → node.Orderly id g.shuttingDown g.history →
      (f node).Orderly id g.shuttingDown g.history) : (g.updateNode id f).Orderly where
  nodes := by
    intro other node found
    obtain ⟨before, was, ⟨rfl, rfl⟩ | ⟨-, rfl⟩⟩ := updateNode_cases found
    · exact keeps before was (orderly.nodes id before was)
    · exact orderly.nodes other node was
  timely := orderly.timely

theorem modify (orderly : g.Orderly) {f : Node σ → Node σ}
    (phase : ∀ node, (f node).phase = node.phase) (busy : ∀ node, (f node).busy = node.busy)
    (deferred : ∀ node, (f node).closeDeferred = true → node.closeDeferred = true)
    (kind : ∀ node s, g.node? id = some node → (f node).kind = .stage s →
      ∃ t, node.kind = .stage t) : (g.updateNode id f).Orderly :=
  orderly.update fun node found before =>
    before.alike (phase node) (busy node) (deferred node) fun s => kind node s found

theorem remember (orderly : g.Orderly) {event : Event σ}
    (silent : ∀ other before hook, event ≠ .began other before hook) :
    (g.remember event).Orderly where
  nodes := fun id node found =>
    (orderly.nodes id node found).cons fun _ _ _ same => absurd same (silent _ _ _)
  timely := orderly.timely.silent fun _ _ _ same => absurd same (silent _ _ _)

theorem rememberCall (orderly : g.Orderly) {node : Node σ} {hook : Hook}
    (found : g.node? id = some node)
    (here : node.Orderly id g.shuttingDown (.began id node hook :: g.history))
    (timely : hook.last = false → node.phase = .running ∨ Stuck id g.history node.phase) :
    (g.remember (.began id node hook)).Orderly where
  nodes := by
    intro other now there
    by_cases same : other = id
    · subst same
      obtain rfl : node = now := Option.some.inj (found.symm.trans there)
      exact here
    · refine (orderly.nodes other now there).cons fun _ _ _ event => ?_
      cases event
      exact Ne.symm same
  timely := by
    refine orderly.timely.cons fun _ _ _ event ordinary => ?_
    cases event
    exact timely ordinary

end Graph.Orderly

namespace Graph

def Ready (id : NodeId) (g : Graph σ) : Prop :=
  ∃ node s, g.node? id = some node ∧ node.kind = .stage s ∧ node.busy = true ∧
    (node.phase = .running ∨ Stuck id g.history node.phase)

variable {g after : Graph σ} {id : NodeId}

theorem Ready.held (ready : g.Ready id) : g.Held id := by
  obtain ⟨node, s, found, stage, busy, left⟩ := ready
  refine ⟨node, s, found, stage, busy, fun closed => ?_⟩
  rw [closed] at left
  rcases left with left | left <;> cases left

theorem Ready.advances (ready : g.Ready id) (advances : g.Advances after) : after.Ready id := by
  obtain ⟨before, s, found, stage, busy, left⟩ := ready
  obtain ⟨node, there, moved⟩ := advances.node found
  obtain ⟨t, kind⟩ := Node.stage_of_fixed moved.fixed stage
  refine ⟨node, t, there, kind, moved.busy.trans busy, ?_⟩
  rw [moved.held s stage busy]
  exact left.imp_right fun stuck => stuck.mono advances.history

theorem Orderly.mark (orderly : g.Orderly) : (g.mark id true).Orderly := by
  refine orderly.update fun node _ before => ⟨before.waking, before.calls, ?_, before.seen⟩
  rintro ⟨⟩

theorem Orderly.left (orderly : g.Orderly) (opened : g.Open id) {node : Node σ}
    (found : g.node? id = some node) : node.phase = .running ∨ Stuck id g.history node.phase := by
  obtain ⟨other, s, there, -, idle, ongoing⟩ := opened
  obtain rfl : other = node := Option.some.inj (there.symm.trans found)
  rcases (orderly.nodes id other found).stuck idle with running | closed | stuck
  · exact .inl running
  · exact absurd closed ongoing
  · exact .inr stuck

theorem Orderly.ready (orderly : g.Orderly) (opened : g.Open id) : (g.mark id true).Ready id := by
  have ⟨node, s, found, stage, _, _⟩ := opened
  have left := orderly.left opened found
  exact ⟨_, s, node?_mark found true, stage, rfl, left⟩

theorem Orderly.unmark (orderly : after.Orderly)
    (left : ∀ node, after.node? id = some node →
      node.phase = .running ∨ node.phase = .closed ∨ Stuck id after.history node.phase) :
    (after.mark id false).Orderly :=
  orderly.update fun node found before =>
    ⟨before.waking, before.calls, fun _ => left node found, before.seen⟩

theorem Orderly.leave (orderly : g.Orderly) (opened : g.Open id) (later : after.Orderly)
    (advances : (g.mark id true).Advances after) : (after.mark id false).Orderly := by
  refine later.unmark fun node there => ?_
  have ⟨before, s, found, stage, _, _⟩ := opened
  obtain ⟨other, last, moved⟩ := advances.node (node?_mark found true)
  obtain rfl : other = node := Option.some.inj (last.symm.trans there)
  rw [moved.held s stage rfl]
  exact (orderly.left opened found).imp_right fun stuck => .inr (stuck.mono advances.history)

end Graph

def lifecycle (σ : Type) : Regime σ where
  inv := Graph.Orderly
  rel := Graph.Advances
  during := fun id g after => g.Advances (after.defer id false)
  error := fun _ => True
  scope := fun _ => True
  acts := fun _ => True
  ready := fun id g => g.Ready id
  asks := fun _ _ => True
  keeps := fun _ _ => True

theorem lifecycle_lawful [Stage σ] : (lifecycle σ).Lawful where
  refl := Graph.Advances.refl
  trans := Graph.Advances.trans
  during_trans := fun during later => during.trans later.deferBoth
  advances := id
  error := fun _ _ => trivial
  closed := by
    intro g id node s packet orderly _ _ _ _
    refine ⟨⟨orderly.remember fun _ _ _ same => ?_, .remember g _⟩, trivial⟩
    cases same
  logged := by
    intro g event orderly logged
    refine ⟨orderly.remember fun _ _ _ same => ?_, .remember g event⟩
    rw [same] at logged
    cases logged
  store := fun store orderly => ⟨⟨orderly.nodes, orderly.timely⟩, .store _ store⟩
  enter := fun orderly _ opened => ⟨trivial, orderly.mark, orderly.ready opened⟩
  leave := fun orderly _ opened allows =>
    ⟨orderly.leave opened allows.1 allows.2, opened.released allows.2⟩
  ready_held := Graph.Ready.held
  ready_rel := Graph.Ready.advances
  called := by
    intro g id node hook orderly ready found ordinary
    obtain ⟨other, s, there, -, -, left⟩ := ready
    obtain rfl : other = node := Option.some.inj (there.symm.trans found)
    refine ⟨orderly.rememberCall found ?_ fun _ => left, .remember g _⟩
    exact (orderly.nodes id other found).called ordinary
  state := by
    intro g id s orderly _ held _
    refine ⟨orderly.modify (fun _ => rfl) (fun _ => rfl) (fun _ late => late) ?_, .state held s⟩
    intro node _ found _
    obtain ⟨other, t, there, stage, -, -⟩ := held
    obtain rfl : other = node := Option.some.inj (there.symm.trans found)
    exact ⟨t, stage⟩
  params := fun f orderly _ _ => ⟨orderly.modify (fun _ => rfl) (fun _ => rfl) (fun _ late => late)
    fun _ s _ stage => ⟨s, stage⟩, .params _ _ _⟩
  refill := fun orderly _ _ _ => ⟨orderly.modify (fun _ => rfl) (fun _ => rfl) (fun _ late => late)
    fun _ s _ stage => ⟨s, stage⟩, .tank _ _ _⟩
  released := fun orderly _ _ _ => ⟨orderly.modify (fun _ => rfl) (fun _ => rfl) (fun _ late => late)
    fun _ s _ stage => ⟨s, stage⟩, .tank _ _ _⟩
  fed := fun _ orderly _ _ => ⟨orderly.modify (fun _ => rfl) (fun _ => rfl) (fun _ late => late)
    fun _ s _ stage => ⟨s, stage⟩, .tank _ _ _⟩
  programs := fun _ _ _ _ => Stage.obeys_any (fun _ => trivial) (fun _ => trivial)
    (fun _ => trivial) _ _
  next := fun _ _ _ _ => trivial
  sends := fun _ _ _ _ _ _ => trivial

def Call.Fits (g : Graph σ) : Call → Prop
  | .deliver _ _ => True
  | .close _ => g.shuttingDown = true
  | .drain id => g.Held id

namespace Graph

variable {g now : Graph σ} {id : NodeId} {phase : Phase}

theorem Orderly.turnCall (orderly : g.Orderly) (closing : g.shuttingDown = true) {node : Node σ}
    (found : g.node? id = some node) {hook : Hook} (last : hook.last = true)
    (calls : phase.calls = hook :: node.phase.calls) (rank : node.phase.rank ≤ phase.rank)
    (busy : node.busy = true) :
    ((g.turn id phase).remember (.began id { node with phase } hook)).Orderly where
  nodes := by
    intro other next there
    obtain ⟨before, was, ⟨rfl, rfl⟩ | ⟨ne, rfl⟩⟩ := updateNode_cases there
    · obtain rfl : node = before := Option.some.inj (found.symm.trans was)
      have here := closing ▸ orderly.nodes id node found
      exact closing ▸ here.turned last (fun s stage => ⟨s, stage⟩) calls rank busy
    · refine (orderly.nodes other next was).cons fun _ _ _ event => ?_
      cases event
      exact ne
  timely := by
    refine orderly.timely.silent fun _ _ _ event => ?_
    cases event
    exact last

theorem Orderly.turnClosed (orderly : g.Orderly) (closing : g.shuttingDown = true)
    (late : ∀ node s, g.node? id = some node → node.kind = .stage s → node.phase = .closing) :
    (g.turn id .closed).Orderly := by
  refine orderly.update fun node found before => ⟨?_, fun s stage => ?_, fun _ => .inr (.inl rfl), ?_⟩
  · intro running
    rw [closing] at running
    cases running
  · rw [before.calls s stage, late node s found stage]
    rfl
  · exact before.seen.cons_of_rank node.phase.rank_le_closed

theorem Orderly.defer (orderly : g.Orderly) (closing : g.shuttingDown = true)
    (closeDeferred : Bool) : (g.defer id closeDeferred).Orderly := by
  refine orderly.update fun node _ before => ⟨fun running => ?_, before.calls, before.stuck,
    before.seen⟩
  rw [closing] at running
  cases running

theorem Orderly.failed (orderly : now.Orderly) (closing : g.Closing id phase now) {hook : Hook}
    {e : EngineError} (stuck : Stuck id (.failed id hook e :: now.history) phase) :
    ((now.remember (.failed id hook e)).mark id false).Orderly := by
  refine (orderly.remember fun _ _ _ => by rintro ⟨⟩).unmark fun node found => ?_
  obtain ⟨last, _, there, -, -, rfl⟩ := closing.node
  obtain rfl : last = node := Option.some.inj (there.symm.trans found)
  exact .inr (.inr stuck)

theorem Orderly.report (orderly : g.Orderly) (r : Report) : (g.remember (.report r)).Orderly :=
  orderly.remember fun _ _ _ => nofun

end Graph

namespace Traffic

open Sluice.Graph (Orderly)

variable [Stage σ] {again : Call → Run σ Unit} {g : Graph σ} {id : NodeId}
  (follows : ∀ {g : Graph σ} (call : Call), g.Orderly → call.Fits g →
    (lifecycle σ).Follows (again call) g)
include follows

theorem shutdown_orderly (orderly : g.Orderly) :
    (lifecycle σ).Follows (shutdown again) g := by
  refine shutdown_ends (fun _ => lifecycle_lawful.pure orderly ()) fun running => ?_
  have requested : ({ g with shuttingDown := true } : Graph σ).Orderly := by
    refine ⟨fun id node found => ?_, orderly.timely⟩
    have before := orderly.nodes id node found
    exact ⟨nofun, before.calls, before.stuck, before.seen⟩
  have began := requested.report (.shutdownStarted g.pipeline)
  have advances : g.Advances (({ g with shuttingDown := true } : Graph σ).remember
      (.report (.shutdownStarted g.pipeline))) :=
    .of_same rfl rfl rfl rfl (fun _ => rfl) (List.suffix_cons _ _)
  refine (follows (.close g.root) began rfl).mono fun result after ⟨⟨later, more⟩, _⟩ => ?_
  cases result with
  | error e => exact ⟨⟨later, advances.trans more⟩, fun _ _ => trivial⟩
  | ok _ =>
    exact ⟨⟨later.report _, (advances.trans more).trans (.remember _ _)⟩,
      fun _ _ => trivial⟩

omit [Stage σ] in
theorem settle_orderly {mid : Graph σ} (orderly : mid.Orderly)
    (advances : g.Advances (mid.defer id false)) (result : Except EngineError Unit) :
    (settle again id result).Ends mid fun result after =>
      (lifecycle σ).Allows g after ∧ (lifecycle σ).Admits result := by
  refine settle_ends (fun kept => ?_) fun deferred => ?_
  · exact ⟨⟨orderly, advances.trans (.undefer kept)⟩, fun _ _ => trivial⟩
  -- A close can only have been put off if shutdown has been requested.
  have closing : mid.shuttingDown = true := by
    obtain ⟨node, found, deferred⟩ := (Option.any_eq_true _ _).mp deferred
    refine Decidable.by_contra fun running => ?_
    have waking := (orderly.waking (Bool.eq_false_iff.mpr running) found).2
    rw [waking] at deferred
    cases deferred
  refine (follows (.close id) (orderly.defer closing false) closing).mono
    fun closed after ⟨⟨later, more⟩, _⟩ => ?_
  exact ⟨⟨later, advances.trans more⟩, fun _ _ => trivial⟩

theorem lifecycle_serves : (lifecycle σ).Serves again where
  deliver := fun packet orderly _ => follows (.deliver _ packet) orderly trivial
  drain := fun orderly _ held _ => follows (.drain _) orderly held
  shutdown := fun orderly _ _ _ => shutdown_orderly follows orderly
  settle := fun _ _ _ later advances _ => settle_orderly follows later advances _

theorem onward_close_orderly (orderly : g.Orderly) (closing : g.shuttingDown = true)
    (target : Option NodeId) : (lifecycle σ).Follows (onward again target .close) g := by
  unfold onward
  split
  next id => exact follows (.close id) orderly closing
  next => exact lifecycle_lawful.pure orderly ()

theorem callLast_orderly {now : Graph σ} {phase : Phase} {hook : Hook}
    {program : Here → σ → Program σ Unit} (closing : g.Closing id phase now)
    (ongoing : phase ≠ .closed)
    (began : ∀ node, now.node? id = some node → (now.remember (.began id node hook)).Orderly)
    (stuck : ∀ e (history : List (Event σ)), Stuck id (.failed id hook e :: history) phase) :
    (callLast again id hook program).Ends now fun result after =>
      g.Closing id phase after ∧ match result with
        | .ok _ => after.Orderly
        | .error _ => (after.mark id false).Orderly := by
  obtain ⟨node, s, there, -⟩ := closing.node
  rw [callLast_ends there]
  have called := closing.advances (.remember now (.began id node hook))
  refine (lifecycle_lawful.runStage (lifecycle_serves follows) (began node there) trivial
    (called.held ongoing) fun _ _ _ _ => Program.obeys_any (fun _ => trivial) (fun _ => trivial)
      (fun _ => trivial) _).mono fun result after ⟨⟨later, advances⟩, _⟩ => ?_
  have ended := called.advances advances
  cases result with
  | ok _ => exact ⟨ended, later⟩
  | error e =>
    -- The stage is released in the phase that it had come to.
    exact ⟨ended.advances (.remember after _), later.failed ended (stuck e after.history)⟩

theorem closeStage_orderly (orderly : g.Orderly) (began : g.shuttingDown = true)
    {node : Node σ} {s : σ} (found : g.node? id = some node) (stage : node.kind = .stage s) :
    (lifecycle σ).Follows (closeStage again id node) g := by
  refine closeStage_ends (fun _ => lifecycle_lawful.pure orderly ()) (fun running busy => ?_)
    fun running idle => ?_
  · exact ⟨⟨(orderly.defer began true).report _, (Graph.Advances.putOff found busy running).trans
      (.remember _ _)⟩, fun _ _ => trivial⟩
  -- First the flush, from running to flushing; the close hook is called only if it ended well.
  have start := Graph.Closing.start found stage .flushing nofun
  refine (callLast_orderly follows start nofun (fun last there => ?_) fun e _ =>
    ⟨e, List.mem_cons_self⟩).mono fun result mid ⟨flushed, ended⟩ => ?_
  · obtain rfl := Option.some.inj
      ((Graph.node?_turn (Graph.node?_mark found true) .flushing).symm.trans there)
    refine orderly.mark.turnCall began (Graph.node?_mark found true) rfl ?_ ?_ rfl
    · rw [running]; rfl
    · rw [running]; decide
  cases result with
  | error e => exact ⟨⟨ended, flushed.finish found running idle⟩, fun _ _ => trivial⟩
  | ok _ =>
    dsimp only at ended ⊢
    -- Then the close hook, from flushing to closing.
    have closing := flushed.around.shuttingDown began
    have turned := flushed.turn .closing nofun
    refine (callLast_orderly follows turned nofun (fun last there => ?_) fun e _ =>
      ⟨e, List.mem_cons_self⟩).mono fun result last ⟨closed, ended⟩ => ?_
    · obtain ⟨before, _, was, -, busy, phase⟩ := flushed.node
      obtain rfl := Option.some.inj ((Graph.node?_turn was .closing).symm.trans there)
      refine ended.turnCall closing was rfl ?_ ?_ busy
      · rw [phase]; rfl
      · rw [phase]; decide
    cases result with
    | error e => exact ⟨⟨ended, closed.finish found running idle⟩, fun _ _ => trivial⟩
    | ok _ =>
      -- Both ended well: the stage is closed, and what follows is told of it.
      have gone := closed.turn .closed nofun
      have closing := gone.around.shuttingDown began
      have turned : (last.turn id .closed).Orderly := ended.turnClosed closing fun other _ there _ => by
        obtain ⟨before, _, was, -, -, phase⟩ := closed.node
        exact Option.some.inj (was.symm.trans there) ▸ phase
      have later := turned.unmark fun other there => by
        obtain ⟨before, _, was, -, -, phase⟩ := gone.node
        exact .inr (.inl (Option.some.inj (was.symm.trans there) ▸ phase))
      refine lifecycle_lawful.afterwards ((gone.finish found running idle).trans (.remember _ _)) ?_
      split
      · exact lifecycle_lawful.pure (later.report _) ()
      · exact onward_close_orderly follows (later.report _) closing node.main

theorem close_orderly (orderly : g.Orderly) (began : g.shuttingDown = true) :
    (lifecycle σ).Follows (close again id) g := by
  refine lifecycle_lawful.atNode orderly fun node found => ?_
  have passive (kind : ∀ s, node.kind ≠ .stage s) : (lifecycle σ).Allows g (g.turn id .closed) := by
    have none (other : Node σ) (s : σ) (there : g.node? id = some other) : other.kind ≠ .stage s :=
      Option.some.inj (found.symm.trans there) ▸ kind s
    exact ⟨orderly.turnClosed began fun other s there stage => absurd stage (none other s there),
      .turnClosed g id none⟩
  split
  next s stage => exact closeStage_orderly follows orderly began found stage
  next kind =>
    split
    · exact lifecycle_lawful.pure orderly ()
    · have ⟨later, advances⟩ := passive (by simp [kind])
      refine lifecycle_lawful.bind (Regime.update ⟨later, advances⟩) fun _ mid later more => ?_
      have closing := more.shuttingDown began
      refine lifecycle_lawful.bind (onward_close_orderly follows later closing _)
        fun _ mid later more => ?_
      exact onward_close_orderly follows later (more.shuttingDown closing) _
  next kind =>
    split
    · exact lifecycle_lawful.pure orderly ()
    · have ⟨later, advances⟩ := passive (by simp [kind])
      refine lifecycle_lawful.bind (Regime.update ⟨later, advances⟩) fun _ mid later more => ?_
      exact onward_close_orderly follows later (more.shuttingDown began) _

omit follows in
theorem perform_orderly (depth : Nat) (call : Call) (orderly : g.Orderly) (fits : call.Fits g) :
    (lifecycle σ).Follows (perform depth call) g := by
  induction depth generalizing g call with
  | zero => exact trivial
  | succ depth ih =>
    have follows {g : Graph σ} (call : Call) (orderly : g.Orderly) (fits : call.Fits g) :=
      ih call orderly fits
    have serves := lifecycle_serves follows
    cases call with
    | deliver id packet => exact lifecycle_lawful.deliver serves orderly trivial packet
    | close id => exact close_orderly follows orderly fits
    | drain id => exact lifecycle_lawful.drain serves orderly trivial fits trivial

end Traffic

end Sluice
