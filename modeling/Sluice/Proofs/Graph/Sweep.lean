import Sluice.Proofs.Graph.CloseCalls

set_option autoImplicit false

namespace Sluice

variable {σ : Type}

def Clean (history : List (Event σ)) : Prop := ∀ id hook e, .failed id hook e ∉ history

theorem Clean.of_suffix {history older : List (Event σ)} (clean : Clean history)
    (suffix : older <:+ history) : Clean older :=
  fun id hook e member => clean id hook e (suffix.subset member)

structure Node.Still [Stage σ] (before node : Node σ) : Prop where
  phase : before.phase ≠ .running → node.phase ≠ .running
  deferred : before.closeDeferred = true → node.closeDeferred = true
  closed : node.phase = .closed → before.phase = .closed ∧ node.next = before.next

namespace Graph

def Reached (g : Graph σ) (id : NodeId) : Prop :=
  ∀ node, g.node? id = some node → node.phase ≠ .running ∨ node.closeDeferred = true

section

variable [Stage σ]

def Swept (pending : NodeId → Prop) (g : Graph σ) : Prop :=
  ∀ id node, g.node? id = some node → node.phase = .closed →
    ∀ target ∈ node.next, g.Reached target ∨ pending target

structure Sweeps (left : List NodeId) (g after : Graph σ) : Prop where
  swept : ∀ pending, g.Swept pending → after.Swept fun id => id ∈ left ∨ pending id
  reached : ∀ id, g.Reached id → after.Reached id
  requested : after.shuttingDown = true → g.shuttingDown = true ∨ after.Reached g.root
  root : after.root = g.root

end

variable [Stage σ] {left : List NodeId} {g mid after : Graph σ} {id : NodeId}

theorem Swept.mono {pending more : NodeId → Prop} (swept : g.Swept pending)
    (implies : ∀ id, pending id → more id) : g.Swept more :=
  fun id node found closed target next => (swept id node found closed target next).imp_right
    (implies target)

namespace Sweeps

theorem append {more : List NodeId} (first : g.Sweeps left mid) (second : mid.Sweeps more after) :
    g.Sweeps (left ++ more) after where
  swept := fun pending swept => (second.swept _ (first.swept pending swept)).mono fun id => by
    rw [List.mem_append, or_assoc]
    exact or_left_comm.mp
  reached := fun id reached => second.reached id (first.reached id reached)
  requested := by
    intro closing
    rcases second.requested closing with before | reached
    · exact (first.requested before).imp_right (second.reached _)
    · exact .inr (first.root ▸ reached)
  root := second.root.trans first.root

theorem trans (first : g.Sweeps [] mid) (second : mid.Sweeps left after) : g.Sweeps left after :=
  first.append second

theorem onward (first : g.Sweeps left mid) (second : mid.Sweeps [] after) :
    g.Sweeps left after :=
  List.append_nil left ▸ first.append second

theorem settled (sweeps : g.Sweeps left after) (reached : ∀ id ∈ left, after.Reached id) :
    g.Sweeps [] after :=
  { sweeps with
    swept := by
      intro pending swept id node found closed target next
      rcases sweeps.swept pending swept id node found closed target next with before | late | more
      · exact .inl before
      · exact .inl (reached target late)
      · exact .inr (.inr more) }

theorem of_still (nodes : ∀ id node, after.node? id = some node →
      ∃ before, g.node? id = some before ∧ before.Still node)
    (shuttingDown : after.shuttingDown = g.shuttingDown) (root : after.root = g.root) :
    g.Sweeps [] after := by
  have reached (id : NodeId) (before : g.Reached id) : after.Reached id := by
    intro node found
    obtain ⟨was, there, still⟩ := nodes id node found
    exact (before was there).imp still.phase still.deferred
  refine ⟨fun pending swept id node found closed target next => ?_, reached,
    fun closing => .inl (shuttingDown ▸ closing), root⟩
  obtain ⟨before, was, still⟩ := nodes id node found
  have ⟨closed, same⟩ := still.closed closed
  exact (swept id before was closed target (same ▸ next)).imp (reached target) .inr

theorem of_same (nodes : after.nodes = g.nodes) (shuttingDown : after.shuttingDown = g.shuttingDown)
    (root : after.root = g.root) : g.Sweeps [] after := by
  refine of_still (fun id node found => ?_) shuttingDown root
  rw [node?, nodes] at found
  exact ⟨node, found, fun phase => phase, fun deferred => deferred, fun closed => ⟨closed, rfl⟩⟩

theorem refl (g : Graph σ) : g.Sweeps [] g := of_same rfl rfl rfl

theorem update {f : Node σ → Node σ}
    (still : ∀ node, g.node? id = some node → node.Still (f node)) :
    g.Sweeps [] (g.updateNode id f) := by
  refine of_still (fun other node found => ?_) rfl rfl
  obtain ⟨before, was, ⟨rfl, rfl⟩ | ⟨-, rfl⟩⟩ := updateNode_cases found
  · exact ⟨before, was, still before was⟩
  · exact ⟨node, was, fun phase => phase, fun deferred => deferred, fun closed => ⟨closed, rfl⟩⟩

theorem remember (g : Graph σ) (event : Event σ) : g.Sweeps [] (g.remember event) :=
  of_same rfl rfl rfl

theorem mark (g : Graph σ) (id : NodeId) (busy : Bool) : g.Sweeps [] (g.mark id busy) :=
  update fun _ _ => ⟨fun phase => phase, fun deferred => deferred, fun closed => ⟨closed, rfl⟩⟩

theorem putOff (g : Graph σ) (id : NodeId) : g.Sweeps [] (g.defer id true) :=
  update fun _ _ => ⟨fun phase => phase, fun _ => rfl, fun closed => ⟨closed, rfl⟩⟩

theorem state (held : g.Held id) (s : σ) :
    g.Sweeps [] (g.updateNode id fun node => { node with kind := .stage s }) := by
  obtain ⟨before, t, found, stage, -, ongoing⟩ := held
  refine update fun node same => ?_
  obtain rfl : before = node := Option.some.inj (found.symm.trans same)
  exact ⟨fun phase => phase, fun deferred => deferred, fun closed => absurd closed ongoing⟩

theorem turn (g : Graph σ) (id : NodeId) {phase : Phase} (begun : phase ≠ .running)
    (ongoing : phase ≠ .closed) : g.Sweeps [] (g.turn id phase) :=
  update fun _ _ => ⟨fun _ => begun, fun deferred => deferred, fun closed => absurd closed ongoing⟩

theorem turnClosed {node : Node σ} (found : g.node? id = some node) :
    g.Sweeps node.next (g.turn id .closed) := by
  have reached (other : NodeId) (before : g.Reached other) : (g.turn id .closed).Reached other := by
    intro last there
    obtain ⟨was, first, ⟨-, rfl⟩ | ⟨-, rfl⟩⟩ := updateNode_cases there
    · exact .inl nofun
    · exact before last first
  refine ⟨fun pending swept other last there closed target next => ?_, reached, .inl, rfl⟩
  obtain ⟨was, first, ⟨rfl, rfl⟩ | ⟨-, rfl⟩⟩ := updateNode_cases there
  · obtain rfl : node = was := Option.some.inj (found.symm.trans first)
    exact .inr (.inl next)
  · exact (swept other last first closed target next).imp (reached target) .inr

theorem resumed (sweeps : (g.defer id false).Sweeps [] after) (reached : after.Reached id) :
    g.Sweeps [] after := by
  have elsewhere {other : NodeId} (ne : other ≠ id) (before : g.Reached other) :
      (g.defer id false).Reached other := by
    intro node found
    rw [defer, node?_updateNode, if_neg (Ne.symm ne)] at found
    exact before node found
  -- Until the stage is closed it counts as pending.
  have late {pending : NodeId → Prop} (swept : g.Swept pending) :
      (g.defer id false).Swept fun other => other = id ∨ pending other := by
    intro other node found closed target next
    by_cases same : target = id
    · exact .inr (.inl same)
    have before : g.Reached target ∨ pending target := by
      obtain ⟨before, was, ⟨-, rfl⟩ | ⟨-, rfl⟩⟩ := updateNode_cases found
      · exact swept other before was closed target next
      · exact swept other node was closed target next
    exact before.imp (elsewhere same) .inr
  refine ⟨fun pending swept other node found closed target next => ?_, fun other before => ?_,
    sweeps.requested, sweeps.root⟩
  · rcases sweeps.swept _ (late swept) other node found closed target next with before | more
    · exact .inl before
    · rcases more.resolve_left List.not_mem_nil with rfl | more
      · exact .inl reached
      · exact .inr (.inr more)
  · by_cases same : other = id
    · exact same ▸ reached
    · exact sweeps.reached other (elsewhere same before)

end Sweeps

end Graph

section

variable [Stage σ] {left : List NodeId} {g mid after : Graph σ} {id : NodeId}

def Graph.Proceeds (g after : Graph σ) : Prop :=
  g.Advances after ∧ (Clean after.history → g.Sweeps [] after)

namespace Graph.Proceeds

theorem refl (g : Graph σ) : g.Proceeds g := ⟨.refl g, fun _ => .refl g⟩

theorem trans (first : g.Proceeds mid) (second : mid.Proceeds after) : g.Proceeds after :=
  ⟨first.1.trans second.1, fun clean =>
    (first.2 (clean.of_suffix second.1.history)).trans (second.2 clean)⟩

theorem remember (g : Graph σ) (event : Event σ) : g.Proceeds (g.remember event) :=
  ⟨.remember g event, fun _ => .remember g event⟩

end Graph.Proceeds

def Run.Closes (targets : List NodeId) (run : Run σ Unit) (g : Graph σ) : Prop :=
  run.Ends g fun result after => g.Proceeds after ∧
    (Clean after.history → result = .ok () ∧ ∀ id ∈ targets, after.Reached id)

end

def sweeping (σ : Type) [Stage σ] : Regime σ where
  inv := fun _ => True
  rel := Graph.Proceeds
  during := fun id g after =>
    g.Advances (after.defer id false) ∧ (Clean after.history → g.Sweeps [] after)
  error := fun _ => True
  scope := fun _ => True
  acts := fun _ => True
  ready := fun id g => g.Held id
  asks := fun _ _ => True
  keeps := fun _ _ => True

theorem sweeping_lawful [Stage σ] : (sweeping σ).Lawful where
  refl := Graph.Proceeds.refl
  trans := Graph.Proceeds.trans
  during_trans := fun ⟨during, sweeps⟩ ⟨later, more⟩ => ⟨during.trans later.deferBoth, fun clean =>
    (sweeps (clean.of_suffix later.history)).trans (more clean)⟩
  advances := And.left
  error := fun _ _ => trivial
  closed := fun _ _ _ _ _ _ => ⟨⟨trivial, .remember _ _⟩, trivial⟩
  logged := fun _ _ => ⟨trivial, .remember _ _⟩
  store := fun store _ => ⟨trivial, .store _ store, fun _ => .of_same rfl rfl rfl⟩
  enter := fun _ _ opened => ⟨trivial, trivial, opened.held⟩
  leave := fun _ _ opened ⟨_, advances, sweeps⟩ => ⟨trivial, opened.released advances, fun clean =>
    ((Graph.Sweeps.mark _ _ true).trans (sweeps clean)).trans (.mark _ _ false)⟩
  ready_held := id
  ready_rel := fun held rel => held.advances rel.1
  called := fun _ _ _ _ => ⟨trivial, .remember _ _⟩
  state := fun _ _ held _ => ⟨trivial, .state held _, fun _ => .state held _⟩
  params := fun _ _ _ _ => ⟨trivial, .params _ _ _, fun _ => .update fun _ _ =>
    ⟨id, id, fun closed => ⟨closed, rfl⟩⟩⟩
  refill := fun _ _ _ _ => ⟨trivial, .tank _ _ _, fun _ => .update fun _ _ =>
    ⟨id, id, fun closed => ⟨closed, rfl⟩⟩⟩
  released := fun _ _ _ _ => ⟨trivial, .tank _ _ _, fun _ => .update fun _ _ =>
    ⟨id, id, fun closed => ⟨closed, rfl⟩⟩⟩
  fed := fun _ _ _ _ => ⟨trivial, .tank _ _ _, fun _ => .update fun _ _ =>
    ⟨id, id, fun closed => ⟨closed, rfl⟩⟩⟩
  programs := fun _ _ _ _ => Stage.obeys_any (fun _ => trivial) (fun _ => trivial)
    (fun _ => trivial) _ _
  next := fun _ _ _ _ => trivial
  sends := fun _ _ _ _ _ _ => trivial

namespace Run.Closes

variable [Stage σ] {g mid : Graph σ} {targets more : List NodeId} {run next : Run σ Unit}

theorem pure (g : Graph σ) : (Pure.pure () : Run σ Unit).Closes [] g :=
  ⟨.refl g, fun _ => ⟨rfl, nofun⟩⟩

theorem bind (first : run.Closes targets g) (rest : ∀ after, next.Closes more after) :
    (run >>= fun _ => next).Closes (targets ++ more) g := by
  unfold Closes
  rw [ends_bind]
  refine first.mono fun result mid ⟨proceeds, clean⟩ => ?_
  cases result with
  | error e => exact ⟨proceeds, fun ok => nomatch (clean ok).1⟩
  | ok _ =>
    refine (rest mid).mono fun result after ⟨later, ok⟩ => ⟨proceeds.trans later, fun last => ?_⟩
    have before := (clean (last.of_suffix later.1.history)).2
    refine ⟨(ok last).1, fun id member => ?_⟩
    rcases List.mem_append.mp member with member | member
    · exact (later.2 last).reached id (before id member)
    · exact (ok last).2 id member

end Run.Closes

theorem Run.Closes.closed [Stage σ] {run : Run σ Unit} {g mid : Graph σ} (left : List NodeId)
    {id : NodeId} (rest : run.Closes left mid) (advances : g.Advances mid)
    (sweeps : Clean mid.history → g.Sweeps left mid) (reached : mid.Reached id) :
    run.Ends mid fun result after => g.Proceeds after ∧
      (Clean after.history → result = .ok () ∧ ∀ other ∈ [id], after.Reached other) := by
  refine rest.mono fun result after ⟨⟨later, more⟩, clean⟩ => ⟨⟨advances.trans later, ?_⟩, ?_⟩
  · intro ok
    have before := sweeps (ok.of_suffix later.history)
    exact (before.onward (more ok)).settled (clean ok).2
  · refine fun ok => ⟨(clean ok).1, fun other member => ?_⟩
    exact List.mem_singleton.mp member ▸ (more ok).reached id reached

namespace Traffic

variable [Stage σ] {again : Call → Run σ Unit} {g : Graph σ} {id : NodeId}

section

variable (closes : ∀ (g : Graph σ) (id : NodeId), (again (.close id)).Closes [id] g)
include closes

theorem onward_closes (g : Graph σ) (target : Option NodeId) :
    (onward again target .close).Closes target.toList g := by
  cases target with
  | none => exact .pure g
  | some id => exact closes g id

theorem shutdown_sweeps (g : Graph σ) : (sweeping σ).Follows (shutdown again) g := by
  refine shutdown_ends (fun _ => sweeping_lawful.pure trivial ()) fun _ => ?_
  have start : g.Advances (({ g with shuttingDown := true } : Graph σ).remember
      (.report (.shutdownStarted g.pipeline))) :=
    .of_same rfl rfl rfl rfl (fun _ => rfl) (List.suffix_cons _ _)
  refine (closes _ g.root).mono fun result after ⟨⟨advances, sweeps⟩, clean⟩ => ?_
  -- Shutdown counts as requested only once closing has got to the root.
  have proceeds : g.Proceeds after := by
    refine ⟨start.trans advances, fun ok => ?_⟩
    have ⟨swept, reached, _, root⟩ := sweeps ok
    exact ⟨swept, reached, fun _ => .inr ((clean ok).2 _ List.mem_cons_self), root⟩
  cases result with
  | error e => exact ⟨⟨trivial, proceeds⟩, fun _ _ => trivial⟩
  | ok _ => exact ⟨⟨trivial, proceeds.trans (.remember _ _)⟩, fun _ _ => trivial⟩

theorem settle_sweeps {mid : Graph σ} (advances : g.Advances (mid.defer id false))
    (sweeps : Clean mid.history → g.Sweeps [] mid) (result : Except EngineError Unit) :
    (settle again id result).Ends mid fun result after =>
      (sweeping σ).Allows g after ∧ (sweeping σ).Admits result := by
  refine settle_ends (fun kept => ?_) fun deferred => ?_
  · exact ⟨⟨trivial, advances.trans (.undefer kept), sweeps⟩, fun _ _ => trivial⟩
  refine (closes _ id).mono fun result after ⟨⟨later, more⟩, clean⟩ => ?_
  refine ⟨⟨trivial, advances.trans later, fun ok => ?_⟩, fun _ _ => trivial⟩
  have before := sweeps (ok.of_suffix later.history)
  exact before.trans (.resumed (more ok) ((clean ok).2 id List.mem_cons_self))

end

section

variable (serves : (sweeping σ).Serves again)
include serves

theorem callLast_sweeps {now : Graph σ} {phase : Phase} {hook : Hook}
    {program : Here → σ → Program σ Unit} (closing : g.Closing id phase now)
    (ongoing : phase ≠ .closed) :
    (callLast again id hook program).Ends now fun result after =>
      now.Proceeds after ∧ (Clean after.history → result = .ok ()) := by
  obtain ⟨node, s, there, -⟩ := closing.node
  rw [callLast_ends there]
  have called := closing.advances (.remember now (.began id node hook))
  refine (sweeping_lawful.runStage serves trivial trivial (called.held ongoing) fun _ _ _ _ =>
    Program.obeys_any (fun _ => trivial) (fun _ => trivial) (fun _ => trivial) _).mono
      fun result after ⟨⟨_, proceeds⟩, _⟩ => ?_
  have proceeds := (Graph.Proceeds.remember now _).trans proceeds
  cases result with
  | ok _ => exact ⟨proceeds, fun _ => rfl⟩
  | error e =>
    exact ⟨proceeds.trans (.remember _ _), fun clean => absurd List.mem_cons_self (clean id hook e)⟩

end

section

variable (closes : ∀ (g : Graph σ) (id : NodeId), (again (.close id)).Closes [id] g)
  (serves : (sweeping σ).Serves again)
include closes serves

theorem closeStage_sweeps {node : Node σ} {s : σ} (found : g.node? id = some node)
    (stage : node.kind = .stage s) : (closeStage again id node).Closes [id] g := by
  have here (other : NodeId) (member : other ∈ [id]) : other = id := List.mem_singleton.mp member
  refine closeStage_ends (fun left => ?_) (fun running busy => ?_) fun running idle => ?_
  · refine ⟨.refl g, fun _ => ⟨rfl, fun other member last there => .inl ?_⟩⟩
    obtain rfl := here other member
    exact Option.some.inj (found.symm.trans there) ▸ left
  · refine ⟨?_, fun _ => ⟨rfl, fun other member last there => .inr ?_⟩⟩
    · exact .trans ⟨.putOff found busy running, fun _ => .putOff g id⟩ (.remember _ _)
    obtain rfl := here other member
    exact Option.some.inj ((Graph.node?_defer found true).symm.trans there) ▸ rfl
  -- The sweep reaches this stage alone; what is behind it is closed only once both hooks have
  -- ended.
  have start := Graph.Closing.start found stage .flushing nofun
  have began : g.Sweeps [] ((g.mark id true).turn id .flushing) :=
    (Graph.Sweeps.mark g id true).trans (.turn _ id nofun nofun)
  refine (callLast_sweeps serves start nofun).mono fun result mid ⟨flush, ok⟩ => ?_
  have flushed := start.advances flush.1
  cases result with
  | error e =>
    exact ⟨⟨flushed.finish found running idle, fun clean => nomatch ok clean⟩,
      fun clean => nomatch ok clean⟩
  | ok _ =>
    have start := flushed.turn .closing nofun
    refine (callLast_sweeps serves start nofun).mono fun result last ⟨close, ok⟩ => ?_
    have ended := start.advances close.1
    cases result with
    | error e =>
      exact ⟨⟨ended.finish found running idle, fun clean => nomatch ok clean⟩,
        fun clean => nomatch ok clean⟩
    | ok _ =>
      dsimp only
      have closed := ended.turn .closed nofun
      obtain ⟨first, _, before, was, _, there, same⟩ := ended.here
      obtain rfl : first = node := Option.some.inj (was.symm.trans found)
      obtain ⟨t, kind⟩ := Node.stage_of_fixed same.fixed stage
      have gone := Graph.node?_mark (Graph.node?_turn there .closed) false
      refine Run.Closes.closed before.next ?_
        ((closed.finish found running idle).trans (.remember _ _)) (fun clean => ?_) ?_
      -- A stage that feeds back does not pass the close on.
      · have loops : (last.turn id .closed).feedsBack id = Stage.feedsBack t := by
          rw [Graph.feedsBack, Graph.node?_turn there]
          simp [Node.state?, kind]
        rw [loops, Node.next, kind, Node.main_of_fixed same.fixed]
        dsimp only
        split
        · exact .pure _
        · exact onward_closes closes _ _
      · have clean : Clean last.history := clean.of_suffix (List.suffix_cons _ _)
        have started := flush.2 (clean.of_suffix close.1.history)
        have turned : mid.Sweeps [] (mid.turn id .closing) := .turn mid id nofun nofun
        have ended := ((began.trans started).trans turned).trans (close.2 clean)
        exact (ended.trans (.turnClosed there)).onward ((Graph.Sweeps.mark _ id false).trans
          (.remember _ _))
      · intro node here
        exact .inl (Option.some.inj (gone.symm.trans here) ▸ Phase.noConfusion)

omit closes serves in
theorem passClosing_sweeps {node : Node σ} {run : Run σ Unit} (found : g.node? id = some node)
    (passive : ∀ s, node.kind ≠ .stage s) (rest : ∀ mid, run.Closes node.next mid) :
    (if node.phase = Phase.closed then pure () else do
      Run.setPhase id .closed
      run).Closes [id] g := by
  have here {mid : Graph σ} {last : Node σ} (there : mid.node? id = some last)
      (closed : last.phase = .closed) : mid.Reached id := by
    intro other same
    exact .inl (Option.some.inj (there.symm.trans same) ▸ closed ▸ nofun)
  split
  next closed =>
    refine ⟨.refl g, fun _ => ⟨rfl, fun other member => ?_⟩⟩
    exact List.mem_singleton.mp member ▸ here found closed
  next =>
    unfold Run.Closes
    rw [Run.ends_bind]
    have none (other : Node σ) (s : σ) (there : g.node? id = some other) : other.kind ≠ .stage s :=
      Option.some.inj (found.symm.trans there) ▸ passive s
    exact (rest (g.turn id .closed)).closed _ (.turnClosed g id none) (fun _ => .turnClosed found)
      (here (Graph.node?_turn found .closed) rfl)

theorem close_sweeps (g : Graph σ) (id : NodeId) : (close again id).Closes [id] g := by
  refine (Run.ends_atNode id _).mpr ⟨fun node found => ?_, fun none => ?_⟩
  · split
    next s stage => exact closeStage_sweeps closes serves found stage
    next kind =>
      refine passClosing_sweeps found (by simp [kind]) fun mid => ?_
      rw [Node.next, kind]
      exact (onward_closes closes mid _).bind fun after => onward_closes closes after _
    next entry _ kind =>
      refine passClosing_sweeps found (by simp [kind]) fun mid => ?_
      rw [Node.next, kind]
      exact onward_closes closes mid entry
  · refine ⟨.refl g, fun _ => ⟨rfl, fun other member node there => ?_⟩⟩
    rw [List.mem_singleton.mp member, none] at there
    cases there

end

structure Sweep (again : Call → Run σ Unit) : Prop where
  deliver : ∀ {g id} packet, (sweeping σ).Follows (again (.deliver id packet)) g
  close : ∀ g id, (again (.close id)).Closes [id] g
  drain : ∀ {g id}, g.Held id → (sweeping σ).Follows (again (.drain id)) g

theorem Sweep.serves (sweep : Sweep again) : (sweeping σ).Serves again where
  deliver := fun packet _ _ => sweep.deliver packet
  drain := fun _ _ held _ => sweep.drain held
  shutdown := fun _ _ _ _ => shutdown_sweeps sweep.close _
  settle := fun _ _ _ _ ⟨advances, sweeps⟩ _ => settle_sweeps sweep.close advances sweeps _

theorem perform_sweeps (depth : Nat) : Sweep (perform depth : Call → Run σ Unit) := by
  induction depth with
  | zero => exact ⟨fun _ => trivial, fun _ _ => trivial, fun _ => trivial⟩
  | succ depth ih =>
    constructor
    · exact fun packet => sweeping_lawful.deliver ih.serves trivial trivial packet
    · exact close_sweeps ih.close ih.serves
    · exact fun held => sweeping_lawful.drain ih.serves trivial trivial held trivial

end Traffic

end Sluice
