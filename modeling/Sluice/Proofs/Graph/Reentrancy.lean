import Sluice.Proofs.Assembly.Trials
import Sluice.Proofs.Graph.Conduct

set_option autoImplicit false

namespace Sluice

variable {σ : Type}

namespace Graph

def CalledSince (start g : Graph σ) (id : NodeId) (path : String) : Prop :=
  ∃ node hook older, node.path = path ∧ (.began id node hook :: older) <:+ g.history ∧
    start.history <:+ older

structure Traced (start g : Graph σ) : Prop where
  history : start.history <:+ g.history
  active : ∀ id node, g.node? id = some node → node.busy = true → start.CalledSince g id node.path

variable {start g after : Graph σ} {id : NodeId}

theorem CalledSince.later {path : String} (called : start.CalledSince g id path)
    (history : g.history <:+ after.history) : start.CalledSince after id path := by
  obtain ⟨node, hook, older, same, began, since⟩ := called
  exact ⟨node, hook, older, same, began.trans history, since⟩

theorem Traced.stays (traced : start.Traced g) (stays : g.Stays after) : start.Traced after := by
  refine ⟨traced.history.trans stays.history, fun id node found busy => ?_⟩
  obtain ⟨before, was, same⟩ := stays.node_before found
  have path := Node.path_of_fixed (Node.fixed_of_stance same)
  rw [Node.busy_of_stance same] at busy
  exact path ▸ (traced.active id before was busy).later stays.history

theorem Traced.began (traced : start.Traced g) {node : Node σ} (found : after.node? id = some node)
    (others : ∀ other, other ≠ id → after.node? other = g.node? other)
    (history : after.history = g.history) (hook : Hook) :
    start.Traced (after.remember (.began id node hook)) := by
  have suffix : g.history <:+ (after.remember (.began id node hook)).history :=
    history ▸ List.suffix_cons _ _
  refine ⟨traced.history.trans suffix, fun other last there busy => ?_⟩
  by_cases same : other = id
  · subst same
    obtain rfl := Option.some.inj (found.symm.trans there)
    exact ⟨node, hook, after.history, rfl, List.suffix_refl _, history ▸ traced.history⟩
  · exact (traced.active other last ((others other same).symm.trans there) busy).later suffix

theorem Traced.unmark (traced : start.Traced g) (id : NodeId) : start.Traced (g.mark id false) := by
  refine ⟨traced.history, fun other node there busy => ?_⟩
  obtain ⟨before, was, ⟨rfl, rfl⟩ | ⟨-, rfl⟩⟩ := updateNode_cases there
  · cases busy
  · exact traced.active other node was busy

end Graph

def tracing (start : Graph σ) : Conduct σ where
  inv _ := start.Traced
  bad e g := start.Traced g ∧ ∀ path, e = .reentrancy path → ∃ id, start.CalledSince g id path
  may _ _ := True
  slack _ _ := False

/-- No program of a stage fails like a stage that is called while it is active. -/
def Stage.Honest (σ : Type) [Stage σ] : Prop :=
  ∀ here (s : σ), Stage.Obeys (fun _ => True) (fun _ => True) (fun e => e.isReentrancy = false) here s

theorem tracing_lawful [Stage σ] (honest : Stage.Honest σ) (start : Graph σ) :
    (tracing start).Lawful := by
  have failed {g : Graph σ} {e : EngineError} (traced : start.Traced g) (other : e.isReentrancy = false) :
      (tracing start).bad e g := by
    refine ⟨traced, fun path same => ?_⟩
    rw [same] at other
    cases other
  have steady : (tracing start).Steady :=
      -- Only a reentrancy error has anything to show, and the node it names is found busy where it
      -- is raised.
      { outward := id
        may_stays _ _ := trivial
        store _ traced := traced.stays (.store _ _)
        logged traced _ := traced.stays (.remember _ _)
        failed }
  have permits {g : Graph σ} {id : NodeId} (active : g.Active id) :
      (tracing start).Permits id g (fun _ => True) (fun _ => True) (fun e => e.isReentrancy = false) := by
    refine ⟨fun {mid r} traced _ _ => ?_, fun traced stays _ =>
      traced.stays ((active.stays stays).state _), failed⟩
    cases r with
    | forward h edge => exact fun _ _ _ _ => trivial
    | post message => exact fun _ _ _ _ => trivial
    | refill t => exact traced.stays (.update fun _ _ => rfl)
    | feed target h => exact traced.stays (.update fun _ _ => rfl)
    | shutdown => exact ⟨traced.stays ⟨fun _ => rfl, rfl, List.suffix_refl _⟩, trivial⟩
    | _ => trivial
  exact
    { steady with
      may_mark := fun _ => trivial
      refused := fun traced => traced.stays (.remember _ _)
      turned := fun _ _ traced => traced.stays (.update fun _ _ => rfl)
      reentered := fun traced found busy => ⟨traced, fun _ same => by
        cases same
        exact ⟨_, traced.active _ _ found busy⟩⟩
      bad_mark := fun id bad => ⟨bad.1.unmark id, bad.2⟩
      bad_failed := fun id hook bad => ⟨bad.1.stays (.remember _ _), fun path same =>
        (bad.2 path same).imp fun _ called => called.later (List.suffix_cons _ _)⟩
      deferred := fun traced _ _ _ => traced.stays (.update fun _ _ => rfl)
      resumed := fun left _ =>
        have traced := left.elim id fun ⟨_, bad⟩ => bad.1
        ⟨traced.stays (.update fun _ _ => rfl), trivial⟩
      outlasts := fun bad stays left => ⟨left.elim id fun ⟨_, bad⟩ => bad.1, fun path same =>
        (bad.2 path same).imp fun _ called => called.later stays.history⟩
      enter := fun traced _ found _ _ _ => traced.began (Graph.node?_mark found true)
        (fun _ ne => Graph.node?_updateNode_of_ne _ ne _) rfl _
      closing := fun {g id _ _} traced _ found _ _ => by
        have others (other : NodeId) (ne : other ≠ id) :
            ((g.mark id true).turn id .flushing).node? other = g.node? other :=
          (Graph.node?_updateNode_of_ne _ ne _).trans (Graph.node?_updateNode_of_ne _ ne _)
        exact traced.began (Graph.node?_turn (Graph.node?_mark found true) .flushing) others rfl _
      leave := fun traced => traced.unmark _
      called := fun traced _ _ => traced.stays (.remember _ _)
      params := fun _ _ traced => traced.stays (.update fun _ _ => rfl)
      noticed := fun _ traced found stage => traced.stays (.state found stage _)
      accepts := fun h serves traced active _ => steady.takeIn serves (permits active) traced active h
        (fun p traced _ _ => traced.stays (.remember _ _)) fun {_ node s} _ _ _ =>
          have obeys := honest (node.here _) s
          ⟨obeys.beforeAccept h, obeys.accept h, obeys.afterAccept⟩
      reconfigures := fun changed serves traced active =>
        steady.runStage serves (permits active) traced active fun node s _ _ =>
          (honest _ s).reconfigure node.params changed
      opens := fun message serves traced active =>
        steady.runStage serves (permits active) traced active fun _ s _ _ => (honest _ s).onMessage message
      flushes := fun serves _ traced active =>
        steady.runStage serves (permits active) traced active fun _ s _ _ => (honest _ s).flush
      closes := fun serves _ traced active =>
        steady.runStage serves (permits active) traced active fun _ s _ _ => (honest _ s).close
      next := fun _ _ _ _ => trivial
      passes := fun _ _ _ => trivial
      ends := fun _ _ _ => trivial
      released := fun traced _ _ => ⟨traced.stays (.update fun _ _ => rfl), fun _ _ _ => trivial⟩ }

namespace Graph

variable [Stage σ]

def Operation.isPump : Operation → Bool
  | .act (.pump _) => true
  | _ => false

inductive Undergoes (g : Graph σ) : Graph σ → Prop
  | refl : g.Undergoes g
  | operate {mid after : Graph σ} {depth : Nat} {operation : Operation} (before : g.Undergoes mid)
      (direct : operation.isPump = false) (ran : mid.operate depth operation = some after) :
      g.Undergoes after

theorem Undergoes.leads {g after : Graph σ} (undergoes : g.Undergoes after) : g.Leads after := by
  induction undergoes with
  | refl => exact .refl
  | operate _ _ ran ih => exact ih.operate ran

structure Persists (g after : Graph σ) : Prop where
  nodes : ∀ id, (after.node? id).map Node.fixed = (g.node? id).map Node.fixed
  root : after.root = g.root
  pumpSink : after.pumpSink = g.pumpSink

omit [Stage σ] in
theorem Advances.persists {g after : Graph σ} (advances : g.Advances after) : g.Persists after := by
  refine ⟨fun id => ?_, advances.root, advances.pumpSink⟩
  have node := advances.nodes id not_false
  generalize g.node? id = x, after.node? id = y at node
  cases node with
  | none => rfl
  | some moved => exact congrArg some moved.fixed

theorem operate_persists {g after : Graph σ} {depth : Nat} {operation : Operation}
    (resting : g.Resting) (direct : operation.isPump = false)
    (ran : g.operate depth operation = some after) : g.Persists after := by
  have advanced {α : Type} {run : Run σ α} (keeps : Run.Keeps g.Advanced run)
      (ran : (run.start g).map Prod.snd = some after) : g.Persists after := by
    obtain ⟨⟨result, last⟩, started, rfl⟩ := Option.map_eq_some_iff.mp ran
    exact ((keeps g ⟨resting, .refl g⟩).of_start started).2.persists
  cases operation with
  | shutdown => exact advanced (shutdown_advanced g depth) ran
  | act act =>
    cases act with
    | setVariable name text =>
      cases ran
      exact ⟨fun _ => rfl, rfl, rfl⟩
    | removeVariable name =>
      cases ran
      exact ⟨fun _ => rfl, rfl, rfl⟩
    | send p => exact advanced (send_advanced g depth p) ran
    | message m => exact advanced (sendMessage_advanced g depth m) ran
    | pump parcels => cases direct

theorem Undergoes.persists {g after : Graph σ} (undergoes : g.Undergoes after) (resting : g.Resting) :
    g.Persists after := by
  induction undergoes with
  | refl => exact ⟨fun _ => rfl, rfl, rfl⟩
  | operate before direct ran ih =>
    have step := operate_persists (before.leads.rested resting).1 direct ran
    exact ⟨fun id => (step.nodes id).trans (ih.nodes id), step.root.trans ih.root,
      step.pumpSink.trans ih.pumpSink⟩

omit [Stage σ] in
theorem Resting.traced {g : Graph σ} (resting : g.Resting) : g.Traced g := by
  refine ⟨List.suffix_refl _, fun id node found busy => ?_⟩
  rw [(resting.idle id node found).1] at busy
  cases busy

theorem operate_traced (honest : Stage.Honest σ) {g after : Graph σ} (resting : g.Resting) {depth : Nat}
    {operation : Operation} (direct : operation.isPump = false) {path : String}
    (failed : (operation.run depth).start g = some (.error (.reentrancy path), after)) :
    ∃ id, g.CalledSince after id path := by
  have lawful := tracing_lawful honest g
  have serves := lawful.serves depth
  have ends {run : Run σ Unit} {mid : Graph σ}
      (follows : (tracing g).Follows run run mid fun _ after => (tracing g).inv none after)
      (started : run.start mid = some (.error (.reentrancy path), after)) :
      ∃ id, g.CalledSince after id path :=
    (follows.2.of_start started).2.2 path rfl
  have traced : (tracing g).inv none g := resting.traced
  cases operation with
  | shutdown =>
    refine ends (lawful.shutdown serves traced ?_ trivial) failed
    exact resting.traced.stays ⟨fun _ => rfl, rfl, List.suffix_refl _⟩
  | act act =>
    cases act with
    | setVariable name text => cases failed
    | removeVariable name => cases failed
    | send p =>
      refine ends ((lawful.add traced p).bind fun h _ _ inv => .reading ?_) failed
      exact (serves.call inv trivial).mono fun _ _ _ done => done.1
    | message m =>
      refine ends (.reading ?_) failed
      exact (serves.call traced trivial).mono fun _ _ _ done => done.1
    | pump parcels => cases direct

/-- Whatever is sent or closed, and however that ends, no stage is left active, nor with its close put
off; all links are as built, and every node is running unless shutdown was requested. So a stage is
found to be active only by an operation that has called it itself. -/
theorem failures_leave_quiescent {b : Blueprint σ} {g after : Graph σ} (built : b.build.1 = .ok g)
    (undergoes : g.Undergoes after) :
    (∀ id node, after.node? id = some node → node.busy = false ∧ node.closeDeferred = false) ∧
      (after.shuttingDown = false → ∀ id node, after.node? id = some node → node.phase = .running) ∧
      g.Persists after ∧
      (Stage.Honest σ → ∀ depth (operation : Operation) path last, operation.isPump = false →
        (operation.run depth).start after = some (.error (.reentrancy path), last) →
          ∃ id, after.CalledSince last id path) := by
  have resting := Blueprint.build_resting built
  have rests := (undergoes.leads.rested resting).1
  refine ⟨rests.idle, fun waking id node found => (rests.orderly.waking waking found).1,
    undergoes.persists resting, fun honest depth operation path last direct failed => ?_⟩
  exact operate_traced honest rests direct failed

def reenters (result : Except EngineError Unit) : Bool :=
  match result with
  | .error e => e.isReentrancy
  | .ok _ => false

def reversing : Blueprint Stock := line "reverse_string wrap reverse_string"

theorem reversing_leaves_quiescent : ∃ g after last e path, reversing.build.1 = .ok g ∧
    (send 12 (.ofText "one")).start g = some (.error e, after) ∧
      (send 12 (.ofText "two")).start after = some (.error (.reentrancy path), last) ∧
        (∀ id node, after.node? id = some node → node.busy = false ∧ node.phase = .running) ∧
          g.Persists after ∧ ∃ id, after.CalledSince last id path := by
  have runs : reversing.passes (fun g => ((send 12 (.ofText "one")).passes g fun first after =>
      reenters first && !after.shuttingDown && (send 12 (.ofText "two")).passes after fun second _ =>
        reenters second)) = true := by decide +kernel
  obtain ⟨g, built, runs⟩ := Blueprint.of_passes runs
  obtain ⟨first, after, sent, runs⟩ := Run.of_passes runs
  simp only [Bool.and_eq_true, Bool.not_eq_true'] at runs
  obtain ⟨⟨failed, waking⟩, runs⟩ := runs
  obtain ⟨second, last, again, failed'⟩ := Run.of_passes runs
  cases first with
  | ok _ => cases failed
  | error e =>
    cases second with
    | ok _ => cases failed'
    | error e' =>
      cases e' with
      | reentrancy path =>
        have ran : g.operate 12 (.act (.send (.ofText "one"))) = some after :=
          congrArg (Option.map Prod.snd) sent
        have undergoes : g.Undergoes after := .operate .refl rfl ran
        have ⟨idle, running, persists, called⟩ := failures_leave_quiescent built undergoes
        exact ⟨g, after, last, e, path, built, sent, again, fun id node found =>
          ⟨(idle id node found).1, running waking id node found⟩, persists,
            called Stock.honest 12 (.act (.send (.ofText "two"))) path last rfl again⟩
      | _ => cases failed'

end Graph

end Sluice
