import Sluice.Proofs.Assembly.Trials
import Sluice.Proofs.Graph.Lifecycle
import Sluice.Proofs.Graph.Sessions

set_option autoImplicit false

namespace Sluice

variable {σ : Type}

structure Node.Lasts (before node : Node σ) : Prop where
  path : node.path = before.path
  shape : node.kind.shape = before.kind.shape
  phase : before.phase.rank ≤ node.phase.rank

theorem Node.Lasts.trans {before mid node : Node σ} (first : before.Lasts mid)
    (second : mid.Lasts node) : before.Lasts node :=
  ⟨second.path.trans first.path, second.shape.trans first.shape,
    Nat.le_trans first.phase second.phase⟩

structure Node.Stands (before node : Node σ) : Prop where
  path : node.path = before.path
  shape : node.kind.shape = before.kind.shape
  phase : node.phase = before.phase
  busy : node.busy = before.busy
  closeDeferred : node.closeDeferred = before.closeDeferred

namespace Graph

structure Lasts (g after : Graph σ) : Prop where
  nodes : ∀ id, Option.Rel Node.Lasts (g.node? id) (after.node? id)
  root : after.root = g.root
  shuttingDown : g.shuttingDown = true → after.shuttingDown = true
  history : g.history <:+ after.history

structure Resting (g : Graph σ) : Prop where
  orderly : g.Orderly
  idle : ∀ id node, g.node? id = some node → node.busy = false ∧ node.closeDeferred = false

namespace Lasts

variable {g mid after : Graph σ}

theorem of_advances (advances : g.Advances after) : g.Lasts after where
  nodes := by
    intro id
    have node := advances.nodes id not_false
    generalize g.node? id = x, after.node? id = y at node
    cases node with
    | none => exact .none
    | some moved =>
      exact .some ⟨Node.path_of_fixed moved.fixed, Node.shape_of_fixed moved.fixed, moved.phase⟩
  root := advances.root
  shuttingDown := advances.shuttingDown
  history := advances.history

theorem refl (g : Graph σ) : g.Lasts g := of_advances (.refl g)

theorem trans (first : g.Lasts mid) (second : mid.Lasts after) : g.Lasts after where
  nodes := by
    intro id
    have before := first.nodes id
    have later := second.nodes id
    generalize g.node? id = x, mid.node? id = y, after.node? id = z at before later
    cases before with
    | none =>
      cases later
      exact .none
    | some before =>
      cases later with
      | some later => exact .some (before.trans later)
  root := second.root.trans first.root
  shuttingDown := fun began => second.shuttingDown (first.shuttingDown began)
  history := first.history.trans second.history

theorem node (lasts : g.Lasts after) {id : NodeId} {before : Node σ}
    (found : g.node? id = some before) : ∃ node, after.node? id = some node ∧ before.Lasts node := by
  have related := lasts.nodes id
  rw [found] at related
  generalize last : after.node? id = there at related
  cases related with
  | some lasts => exact ⟨_, rfl, lasts⟩

theorem node_before (lasts : g.Lasts after) {id : NodeId} {node : Node σ}
    (found : after.node? id = some node) :
    ∃ before, g.node? id = some before ∧ before.Lasts node := by
  have related := lasts.nodes id
  rw [found] at related
  generalize first : g.node? id = there at related
  cases related with
  | some lasts => exact ⟨_, rfl, lasts⟩

end Lasts

namespace Resting

variable {g after : Graph σ}

theorem advances (resting : g.Resting) (orderly : after.Orderly) (advances : g.Advances after) :
    after.Resting := by
  refine ⟨orderly, fun id node found => ?_⟩
  obtain ⟨before, was, moved⟩ := advances.node_before found
  have ⟨idle, kept⟩ := resting.idle id before was
  refine ⟨moved.busy.trans idle, Bool.eq_false_iff.mpr fun deferred => ?_⟩
  rcases moved.deferred deferred with deferred | ⟨busy, -⟩
  · rw [kept] at deferred
    cases deferred
  · rw [idle] at busy
    cases busy

theorem rebuilt (resting : g.Resting) (nodes : Array (Node σ))
    (stands : ∀ (id : NodeId) (node : Node σ), nodes[id]? = some node →
      ∃ before, g.node? id = some before ∧ before.Stands node)
    (size : nodes.size = g.nodes.size) :
    ({ g with nodes } : Graph σ).Resting ∧ g.Lasts { g with nodes } := by
  refine ⟨⟨⟨fun id node found => ?_, resting.orderly.timely⟩, fun id node found => ?_⟩, fun id => ?_,
    rfl, fun began => began, List.suffix_refl _⟩
  · obtain ⟨before, was, stands⟩ := stands id node found
    refine (resting.orderly.nodes id before was).alike stands.phase stands.busy
      (fun late => stands.closeDeferred ▸ late) fun s stage => ?_
    exact NodeKind.stage_of_shape stands.shape.symm stage
  · obtain ⟨before, was, stands⟩ := stands id node found
    have ⟨idle, kept⟩ := resting.idle id before was
    exact ⟨stands.busy.trans idle, stands.closeDeferred.trans kept⟩
  · cases found : nodes[id]? with
    | none =>
      have none : g.node? id = none := by
        rw [node?, Array.getElem?_eq_none_iff, ← size]
        exact Array.getElem?_eq_none_iff.mp found
      rw [none, node?, found]
      exact .none
    | some node =>
      obtain ⟨before, was, stands⟩ := stands id node found
      rw [was, node?, found]
      exact .some ⟨stands.path, stands.shape, stands.phase ▸ Nat.le_refl _⟩

end Resting

def Rested (g after : Graph σ) : Prop := after.Resting ∧ g.Lasts after

theorem Rested.mono {g mid after : Graph σ} (first : g.Lasts mid) (rested : mid.Rested after) :
    g.Rested after :=
  ⟨rested.1, first.trans rested.2⟩

def Advanced (g after : Graph σ) : Prop := after.Resting ∧ g.Advances after

open Run (Keeps)

theorem rested_of_advanced {α : Type} {g : Graph σ} {run : Run σ α}
    (advanced : ∀ mid : Graph σ, Keeps mid.Advanced run) : Keeps g.Rested run := by
  intro mid ⟨resting, lasts⟩
  refine (advanced mid mid ⟨resting, .refl mid⟩).mono fun _ after ⟨last, advances⟩ => ?_
  exact Rested.mono lasts ⟨last, .of_advances advances⟩

theorem relink_rested (g : Graph σ) (source : NodeId) (target : Option NodeId) :
    Keeps g.Rested (Run.update fun g => { g with nodes := linkMain source target g.nodes }) := by
  intro mid ⟨resting, lasts⟩
  refine Rested.mono lasts (resting.rebuilt _ (fun id node found => ?_) (linkMainBy_size _ _ _ _))
  obtain ⟨before, main, was, rfl⟩ := linkMainBy_main _ found
  exact ⟨before, was, rfl, rfl, rfl, rfl, rfl⟩

theorem add_advanced (g : Graph σ) (p : Parcel) : Keeps g.Advanced (Run.add p) := by
  intro mid ⟨resting, advances⟩
  exact ⟨⟨⟨resting.orderly.nodes, resting.orderly.timely⟩, resting.idle⟩,
    advances.trans (.store mid _)⟩

variable [Stage σ]

theorem deliver_advanced (g : Graph σ) (depth : Nat) (id : NodeId) (packet : Packet) :
    Keeps g.Advanced (Traffic.perform depth (.deliver id packet)) := by
  intro mid ⟨resting, advances⟩
  refine (Traffic.perform_orderly depth (.deliver id packet) resting.orderly trivial).mono
    fun _ after ⟨⟨orderly, more⟩, _⟩ => ?_
  exact ⟨resting.advances orderly more, advances.trans more⟩

theorem send_advanced (g : Graph σ) (depth : Nat) (p : Parcel) :
    Keeps g.Advanced (send depth p) :=
  .bind (add_advanced g p) fun _ => .bind .graph fun _ => deliver_advanced g depth _ _

theorem sendMessage_advanced (g : Graph σ) (depth : Nat) (m : Message) :
    Keeps g.Advanced (sendMessage depth m) :=
  .bind .graph fun _ => deliver_advanced g depth _ _

theorem sendAll_advanced (g : Graph σ) (depth : Nat) (parcels : List Parcel) :
    Keeps g.Advanced (sendAll depth parcels) := by
  induction parcels with
  | nil => exact .pure _
  | cons p rest ih => exact .bind (send_advanced g depth p) fun _ => ih

theorem shutdown_advanced (g : Graph σ) (depth : Nat) : Keeps g.Advanced (shutdown depth) := by
  intro mid ⟨resting, advances⟩
  refine (Traffic.shutdown_orderly (fun call orderly fits =>
    Traffic.perform_orderly depth call orderly fits) resting.orderly).mono
      fun _ after ⟨⟨orderly, more⟩, _⟩ => ?_
  exact ⟨resting.advances orderly more, advances.trans more⟩

theorem send_rested (g : Graph σ) (depth : Nat) (p : Parcel) : Keeps g.Rested (send depth p) :=
  rested_of_advanced fun mid => send_advanced mid depth p

theorem sendMessage_rested (g : Graph σ) (depth : Nat) (m : Message) :
    Keeps g.Rested (sendMessage depth m) :=
  rested_of_advanced fun mid => sendMessage_advanced mid depth m

theorem sendAll_rested (g : Graph σ) (depth : Nat) (parcels : List Parcel) :
    Keeps g.Rested (sendAll depth parcels) :=
  rested_of_advanced fun mid => sendAll_advanced mid depth parcels

theorem shutdown_rested (g : Graph σ) (depth : Nat) : Keeps g.Rested (shutdown depth) :=
  rested_of_advanced fun mid => shutdown_advanced mid depth

theorem takeResults_rested (g : Graph σ) : Keeps g.Rested (takeResults : Run σ (List Parcel)) := by
  refine takeResults_keeps_of fun mid node s sink ⟨resting, lasts⟩ found kind _ => ?_
  refine Rested.mono lasts (resting.rebuilt _ (fun id last there => ?_) Array.size_modify)
  obtain ⟨before, was, ⟨rfl, rfl⟩ | ⟨-, rfl⟩⟩ := updateNode_cases there
  · obtain rfl : node = before := Option.some.inj (found.symm.trans was)
    refine ⟨node, was, rfl, ?_, rfl, rfl, rfl⟩
    rw [kind]
    rfl
  · exact ⟨last, was, rfl, rfl, rfl, rfl, rfl⟩

theorem pump_rested (g : Graph σ) (depth : Nat) (parcels : List Parcel) :
    Keeps g.Rested (pump depth parcels) := by
  apply pump_keeps_of
  · intro source target mid rested
    exact relink_rested g source target mid rested
  · exact sendAll_rested g depth parcels
  · exact takeResults_rested g

theorem act_rested {g after : Graph σ} {depth : Nat} {act : Act} (resting : g.Resting)
    (ran : g.act depth act = some after) : g.Rested after := by
  have start : g.Rested g := ⟨resting, .refl g⟩
  have kept {α : Type} {run : Run σ α} (keeps : Keeps g.Rested run)
      (ran : (run.start g).map Prod.snd = some after) : g.Rested after := by
    obtain ⟨⟨result, last⟩, started, rfl⟩ := Option.map_eq_some_iff.mp ran
    exact (keeps g start).of_start started
  have environment (environment : Environment) : g.Rested { g with environment } := by
    obtain ⟨rested, lasts⟩ := resting.rebuilt g.nodes
      (fun id node found => ⟨node, found, rfl, rfl, rfl, rfl, rfl⟩) rfl
    exact ⟨⟨⟨rested.orderly.nodes, rested.orderly.timely⟩, rested.idle⟩,
      lasts.nodes, rfl, fun began => began, List.suffix_refl _⟩
  cases act with
  | setVariable name text =>
    cases ran
    exact environment _
  | removeVariable name =>
    cases ran
    exact environment _
  | send p => exact kept (send_rested g depth p) ran
  | message m => exact kept (sendMessage_rested g depth m) ran
  | pump parcels => exact kept (pump_rested g depth parcels) ran

inductive Operation where
  | act (a : Act)
  | shutdown

def operate (depth : Nat) (g : Graph σ) : Operation → Option (Graph σ)
  | .act a => g.act depth a
  | .shutdown => ((shutdown depth).start g).map Prod.snd

def operateAll (depth : Nat) (operations : List Operation) (g : Graph σ) : Option (Graph σ) :=
  operations.foldlM (operate depth) g

inductive Leads (g : Graph σ) : Graph σ → Prop
  | refl : g.Leads g
  | operate {mid after : Graph σ} {depth : Nat} {operation : Operation} (before : g.Leads mid)
      (ran : mid.operate depth operation = some after) : g.Leads after

theorem operate_rested {g after : Graph σ} {depth : Nat} {operation : Operation}
    (resting : g.Resting) (ran : g.operate depth operation = some after) : g.Rested after := by
  cases operation with
  | act a => exact act_rested resting ran
  | shutdown =>
    obtain ⟨⟨result, last⟩, started, rfl⟩ := Option.map_eq_some_iff.mp ran
    exact (shutdown_rested g depth g ⟨resting, .refl g⟩).of_start started

theorem Leads.rested {g after : Graph σ} (leads : g.Leads after) (resting : g.Resting) :
    g.Rested after := by
  induction leads with
  | refl => exact ⟨resting, .refl g⟩
  | operate _ ran ih => exact Rested.mono ih.2 (operate_rested ih.1 ran)

theorem Leads.trans {g mid after : Graph σ} (first : g.Leads mid) (second : mid.Leads after) :
    g.Leads after := by
  induction second with
  | refl => exact first
  | operate _ ran ih => exact ih.operate ran

theorem Leads.of_all {g mid after : Graph σ} {depth : Nat} {operations : List Operation}
    (before : g.Leads mid) (ran : operateAll depth operations mid = some after) :
    g.Leads after := by
  induction operations generalizing mid with
  | nil =>
    cases ran
    exact before
  | cons operation rest ih =>
    obtain ⟨next, first, ran⟩ := Option.bind_eq_some_iff.mp ran
    exact ih (before.operate first) ran

theorem make_fresh {nodes : Array (Node σ)} {e : Environment} {history : List (Event σ)}
    (configured : Blueprint.AllConfigured nodes) {id : NodeId} {node : Node σ}
    (found : (make nodes 0 e history).node? id = some node) : node.Fresh := by
  rcases Array.mem_push.mp (Array.mem_of_getElem? found) with member | rfl
  · obtain ⟨before, fresh, done⟩ := configured node member
    rcases Blueprint.configureNode_cases done with ⟨_, _, -, -, rfl⟩ | ⟨-, rfl⟩
    · exact fresh.1
    · exact fresh.1
  · exact ⟨rfl, rfl, rfl⟩

end Graph

theorem Uncalled.silent {history : List (Event σ)} (uncalled : Uncalled history) {α : Type}
    {read : Event σ → Option α} (silent : ∀ event, event.begins = false → read event = none) :
    history.filterMap read = [] :=
  List.filterMap_eq_nil_iff.mpr fun event member => silent event (uncalled event member)

theorem Node.Fresh.orderly {node : Node σ} (fresh : node.Fresh) {history : List (Event σ)}
    (uncalled : Uncalled history) (id : NodeId) (shuttingDown : Bool) :
    node.Orderly id shuttingDown history := by
  have calls : lastCalls id history = [] :=
    uncalled.silent fun event silent => by cases event <;> first | rfl | cases silent
  have seen : phasesSeen id history = [] :=
    uncalled.silent fun event silent => by cases event <;> first | rfl | cases silent
  refine ⟨fun _ => ⟨fresh.1, fresh.2.2⟩, fun _ _ => ?_, fun _ => .inl fresh.1, ?_⟩
  · rw [fresh.1]
    exact calls
  · rw [seen]
    exact List.pairwise_singleton _ _

theorem Blueprint.build_resting [Stage σ] {b : Blueprint σ} {g : Graph σ}
    (built : b.build.1 = .ok g) : g.Resting := by
  obtain ⟨nodes, history, rfl, uncalled, configured⟩ := build_configured built
  refine ⟨⟨fun id node found => ?_, fun id node hook older suffix => ?_⟩, fun id node found => ?_⟩
  · exact (Graph.make_fresh configured found).orderly uncalled id false
  · cases uncalled _ (suffix.subset List.mem_cons_self)
  · exact (Graph.make_fresh configured found).2

end Sluice

namespace Sluice.Graph

/-- Stages go through their phases one way, with one call to flush and one to close each of them on
the way. Other calls begin while a stage is running, or when the call that was to bring it out of
the phase it is in has failed. -/
theorem phases_one_way {σ : Type} [Stage σ] {b : Blueprint σ} {g mid after : Graph σ}
    (built : b.build.1 = .ok g) (first : g.Leads mid) (second : mid.Leads after) :
    (∀ id node, mid.node? id = some node → ∃ last, after.node? id = some last ∧
      node.phase.rank ≤ last.phase.rank) ∧
    (∀ id node s, after.node? id = some node → node.kind = .stage s →
      Receding (node.phase :: phasesSeen id after.history) ∧
        lastCalls id after.history = node.phase.calls) ∧
    Timely after.history := by
  have rested := first.rested (b.build_resting built)
  have ⟨last, lasts⟩ := second.rested rested.1
  refine ⟨fun id node found => ?_, fun id node s found stage => ?_, last.orderly.timely⟩
  · obtain ⟨later, there, lasted⟩ := lasts.node found
    exact ⟨later, there, lasted.phase⟩
  · have orderly := last.orderly.nodes id node found
    exact ⟨orderly.seen, orderly.calls s stage⟩

def stalling : Blueprint Stock where
  pipeline := ⟨"line", "", [], false, "tank_queue:1 factorial_calc", []⟩
  registry := Stock.registry
  params := []
  environment := .empty

def acceptedLate : Event Stock → Bool
  | .began _ node (.accept _ _) => node.phase = .flushing
  | _ => false

theorem stalling_accepts_late : ∃ g mid after, stalling.build.1 = .ok g ∧ g.Leads mid ∧
    mid.Leads after ∧ after.history.any acceptedLate = true := by
  have runs : stalling.passes (fun g =>
      (operateAll 6 [.act (.send (.ofText "one")), .shutdown] g).any fun mid =>
        (mid.operate 6 (.act (.send (.ofText "two")))).any fun after =>
          after.history.any acceptedLate) = true := by decide +kernel
  obtain ⟨g, built, runs⟩ := Blueprint.of_passes runs
  obtain ⟨mid, first, runs⟩ := (Option.any_eq_true _ _).mp runs
  obtain ⟨after, second, runs⟩ := (Option.any_eq_true _ _).mp runs
  exact ⟨g, mid, after, built, .of_all .refl first, .operate .refl second, runs⟩

theorem stalled_phases_one_way : ∃ g mid after, stalling.build.1 = .ok g ∧ g.Leads mid ∧
    mid.Leads after ∧ after.history.any acceptedLate = true ∧ Timely after.history ∧
      ∀ id node, mid.node? id = some node → ∃ last, after.node? id = some last ∧
        node.phase.rank ≤ last.phase.rank := by
  obtain ⟨g, mid, after, built, first, second, late⟩ := stalling_accepts_late
  have ⟨advance, _, timely⟩ := phases_one_way built first second
  exact ⟨g, mid, after, built, first, second, late, timely, advance⟩

/-- A parcel is accepted by a stage that is no longer running. -/
theorem flushing_stage_accepts : ∃ g after id node h p older, stalling.build.1 = .ok g ∧
    g.Leads after ∧ (.began id node (.accept h p) :: older) <:+ after.history ∧
      node.phase = .flushing := by
  obtain ⟨g, mid, after, built, first, second, late⟩ := stalling_accepts_late
  obtain ⟨event, member, late⟩ := List.any_eq_true.mp late
  obtain ⟨newer, older, split⟩ := List.append_of_mem member
  unfold acceptedLate at late
  split at late
  next id node h p =>
    exact ⟨g, after, id, node, h, p, older, built, first.trans second, ⟨newer, split.symm⟩,
      of_decide_eq_true late⟩
  next => cases late

end Sluice.Graph
