import Sluice.Proofs.Graph.Operations

set_option autoImplicit false

namespace Sluice

variable {σ α β : Type}

namespace Run

def Upholds (inv : Graph σ → Prop) (error : EngineError → Prop) (good : α → Prop) (run : Run σ α) :
    Prop :=
  ∀ g, inv g → run.Ends g fun result after => inv after ∧ match result with
    | .ok a => good a
    | .error e => error e

def Admitted (error : EngineError → Prop) (good : α → Prop) : Except EngineError α → Prop
  | .ok a => good a
  | .error e => error e

namespace Upholds

variable {inv : Graph σ → Prop} {error : EngineError → Prop} {good : α → Prop} {fine : β → Prop}

theorem pure {a : α} (holds : good a) : Upholds inv error good (pure a : Run σ α) :=
  fun _ kept => ⟨kept, holds⟩

theorem throw {e : EngineError} (allowed : error e) :
    Upholds inv error good (MonadExcept.throw e : Run σ α) := fun _ kept => ⟨kept, allowed⟩

theorem get {result : Except EngineError α} (admitted : Admitted error good result) :
    Upholds inv error good (Run.get result) := by
  intro g kept
  cases result with
  | ok a => exact ⟨kept, admitted⟩
  | error e => exact ⟨kept, admitted⟩

theorem graph {good : Graph σ → Prop} (holds : ∀ g, inv g → good g) :
    Upholds inv error good (graph : Run σ (Graph σ)) := fun g kept => ⟨kept, holds g kept⟩

theorem update {f : Graph σ → Graph σ} (keeps : ∀ g, inv g → inv (f g)) :
    Upholds inv error (fun _ => True) (update f) := fun g kept => ⟨keeps g kept, trivial⟩

theorem bind {run : Run σ α} {next : α → Run σ β} (first : Upholds inv error good run)
    (rest : ∀ a, good a → Upholds inv error fine (next a)) :
    Upholds inv error fine (run >>= next) := by
  intro g kept
  rw [ends_bind]
  refine (first g kept).mono fun result after ⟨kept, holds⟩ => ?_
  cases result with
  | ok a => exact rest a holds after kept
  | error e => exact ⟨kept, holds⟩

theorem andThen {run : Run σ α} {next : α → Run σ β} (first : Upholds inv error (fun _ => True) run)
    (rest : ∀ a, Upholds inv error fine (next a)) : Upholds inv error fine (run >>= next) :=
  first.bind fun a _ => rest a

theorem throw_bind {e : EngineError} (allowed : error e) (next : α → Run σ β) :
    Upholds inv error fine ((MonadExcept.throw e : Run σ α) >>= next) := fun _ kept => ⟨kept, allowed⟩

theorem attempt {run : Run σ α} (upholds : Upholds inv error good run) :
    Upholds inv error (Admitted error good) run.attempt := by
  intro g kept
  rw [ends_attempt]
  refine (upholds g kept).mono fun result after ⟨kept, holds⟩ => ⟨kept, ?_⟩
  cases result <;> exact holds

theorem atNode {id : NodeId} {f : Node σ → Run σ Unit}
    (upholds : ∀ g node, inv g → g.node? id = some node → Upholds inv error (fun _ => True) (f node)) :
    Upholds inv error (fun _ => True) (atNode id f) := by
  intro g kept
  rw [ends_atNode]
  exact ⟨fun node found => upholds g node kept found g kept, fun _ => ⟨kept, trivial⟩⟩

theorem holding {id : NodeId} {run : Run σ α} (upholds : Upholds inv error good run)
    (mark : ∀ g busy, inv g → inv (g.updateNode id fun node => { node with busy })) :
    Upholds inv error good (holding id run) :=
  .bind (.update fun g => mark g true) fun _ _ => .bind upholds.attempt fun _ admitted =>
    .bind (.update fun g => mark g false) fun _ _ => .get admitted

end Upholds

end Run

def EngineError.isIncidental : EngineError → Bool
  | .config _ => false
  | .routing (.missingBranch _) => false
  | _ => true

/-- What is to hold of each node all along, what its stage may become, which of its parameters may be
written, and which errors there may be. -/
structure Charter (σ : Type) where
  node : NodeId → Node σ → Prop
  keeps : NodeId → σ → Prop
  writes : NodeId → String → Prop
  error : EngineError → Prop

structure Node.Same (before node : Node σ) : Prop where
  kind : node.kind = before.kind
  branch : node.branch = before.branch
  declared : node.declared = before.declared
  params : node.params = before.params
  dynamic : node.dynamic = before.dynamic

structure Stage.Minds [Stage σ] (keeps : σ → Prop) (error : EngineError → Prop) (here : Here)
    (params : ParamTable) (s : σ) : Prop where
  accept : ∀ h, (Stage.accept here s h).Obeys (fun _ => True) keeps error
  beforeAccept : ∀ h, (Stage.beforeAccept here s h).Obeys (fun _ => True) keeps error
  afterAccept : (Stage.afterAccept here s).Obeys (fun _ => True) keeps error
  notice : ∀ m, keeps (Stage.notice m s).1
  onMessage : ∀ m, (Stage.onMessage here s m).Obeys (fun _ => True) keeps error
  reconfigure : ∀ changed, (Stage.reconfigure here params changed s).Obeys (fun _ => True) keeps error
  flush : (Stage.flush here s).Obeys (fun _ => True) keeps error
  close : (Stage.close here s).Obeys (fun _ => True) keeps error

namespace Charter

/-- A charter holds of all nodes, also as they were when calls of their stages began. -/
structure Holds (c : Charter σ) (g : Graph σ) : Prop where
  nodes : ∀ id node, g.node? id = some node → c.node id node
  began : ∀ id node hook, .began id node hook ∈ g.history → c.node id node

structure Lawful [Stage σ] (c : Charter σ) : Prop where
  same : ∀ {id} {before node : Node σ}, before.Same node → c.node id before → c.node id node
  state : ∀ {id node s}, c.node id node → c.keeps id s → c.node id { node with kind := .stage s }
  written : ∀ {id node} value {key}, c.node id node → c.writes id key →
    c.node id { node with params := node.params.put key value }
  declared : ∀ {id node key}, c.node id node → node.declared.declares key = true → c.writes id key
  followed : ∀ {id} {node : Node σ} {key name}, c.node id node → (key, name) ∈ node.dynamic →
    c.writes id key
  incidental : ∀ e, e.isIncidental = true → c.error e
  missing : ∀ {id} {node : Node σ}, c.node id node → node.kind = .fanOut → node.branch = none →
    c.error (.routing (.missingBranch node.path))
  programs : ∀ {id node s}, c.node id node → node.kind = .stage s →
    Stage.Minds (c.keeps id) c.error (node.here id) node.params s
  taken : ∀ {id node s sink}, c.node id node → node.kind = .stage s → Stage.toSink? s = some sink →
    c.keeps id (Stage.ofSink sink.take.2)

abbrev Upholds (c : Charter σ) (run : Run σ α) : Prop := run.Upholds c.Holds c.error fun _ => True

end Charter

namespace Traffic

section

variable {c : Charter σ}

theorem holds_update {g : Graph σ} (holds : c.Holds g) (id : NodeId) {f : Node σ → Node σ}
    (keeps : ∀ node, c.node id node → c.node id (f node)) : c.Holds (g.updateNode id f) := by
  refine ⟨fun other node found => ?_, holds.began⟩
  obtain ⟨before, was, ⟨rfl, rfl⟩ | ⟨-, rfl⟩⟩ := Graph.updateNode_cases found
  · exact keeps before (holds.nodes id before was)
  · exact holds.nodes other node was

theorem uphold_remember {event : Event σ} (other : ∀ id node hook, event ≠ .began id node hook) :
    c.Upholds (Run.remember event) := by
  refine .update fun g holds => ⟨holds.nodes, fun id node hook listed => ?_⟩
  rcases List.mem_cons.mp listed with same | listed
  · exact absurd same.symm (other id node hook)
  · exact holds.began id node hook listed

theorem uphold_began (id : NodeId) (hook : Hook) : c.Upholds (Run.began id hook) := by
  refine .atNode fun g node holds found => .update fun g' holds' => ⟨holds'.nodes, ?_⟩
  intro other node' hook' listed
  rcases List.mem_cons.mp listed with same | listed
  · cases same
    exact holds.nodes id node found
  · exact holds'.began other node' hook' listed

theorem uphold_noteAll (lines : List String) : c.Upholds (Run.noteAll lines : Run σ Unit) := by
  induction lines with
  | nil => exact .pure trivial
  | cons line rest ih => exact .bind (uphold_remember fun _ _ _ => nofun) fun _ _ => ih

theorem uphold_edit (h : Handle) (p : Parcel) : c.Upholds (Run.edit h p : Run σ Unit) :=
  .update fun _ holds => ⟨holds.nodes, holds.began⟩

theorem uphold_look (h : Handle) : c.Upholds (Run.look h : Run σ Parcel) :=
  fun _ holds => ⟨holds, trivial⟩

theorem uphold_add (p : Parcel) : c.Upholds (Run.add p : Run σ Handle) :=
  fun _ holds => ⟨⟨holds.nodes, holds.began⟩, trivial⟩

theorem uphold_reading {next : Graph σ → Run σ α} (rest : ∀ g, c.Holds g → c.Upholds (next g)) :
    c.Upholds (Run.graph >>= next) :=
  Run.Upholds.bind (Run.Upholds.graph fun _ holds => holds) rest

theorem uphold_onward {again : Call → Run σ Unit} (serves : ∀ call, c.Upholds (again call))
    (target : Option NodeId) (call : NodeId → Call) : c.Upholds (onward again target call) := by
  unfold onward
  split
  · exact serves _
  · exact .pure trivial

theorem uphold_shutdown {again : Call → Run σ Unit} (serves : ∀ call, c.Upholds (again call)) :
    c.Upholds (shutdown again) := by
  refine uphold_reading fun g holds => ?_
  split
  · exact .pure trivial
  · refine .andThen (fun _ _ => ⟨⟨holds.nodes, holds.began⟩, trivial⟩) fun _ => ?_
    exact .bind (uphold_remember fun _ _ _ => nofun) fun _ _ => .bind (serves _) fun _ _ =>
      uphold_remember fun _ _ _ => nofun

end

variable [Stage σ] {c : Charter σ} (lawful : c.Lawful)
include lawful

theorem uphold_around (id : NodeId) {f : Node σ → Node σ} (around : ∀ node : Node σ, node.Same (f node)) :
    c.Upholds (Run.updateNode id f) :=
  .update fun _ holds => holds_update holds id fun node => lawful.same (around node)

theorem uphold_mark (id : NodeId) (g : Graph σ) (busy : Bool) (holds : c.Holds g) :
    c.Holds (g.updateNode id fun node => { node with busy }) :=
  holds_update holds id fun _ => lawful.same ⟨rfl, rfl, rfl, rfl, rfl⟩

section

variable {again : Call → Run σ Unit} (serves : ∀ call, c.Upholds (again call))
include serves

theorem uphold_forward (id : NodeId) (h : Handle) (edge : Edge) :
    c.Upholds (forward again id h edge) := by
  refine .atNode fun _ node _ _ => uphold_reading fun g _ => ?_
  dsimp only
  split
  · exact .throw_bind (lawful.incidental _ rfl) _
  · split
    · exact .pure trivial
    · exact .bind (uphold_edit _ _) fun _ _ => .bind (uphold_remember fun _ _ _ => nofun)
        fun _ _ => serves _

theorem uphold_answer (id : NodeId) (r : Request) : c.Upholds (answer again id r) := by
  cases r with
  | look h => exact uphold_look h
  | edit h p => exact uphold_edit h p
  | copy h => exact .bind (uphold_look h) fun p _ => uphold_add p
  | forward h edge => exact uphold_forward lawful serves id h edge
  | post m => exact .atNode fun _ node _ _ => uphold_onward serves _ _
  | gauge => exact .bind (.graph fun _ _ => trivial) fun _ _ => .pure trivial
  | refill t => exact uphold_around lawful id fun _ => ⟨rfl, rfl, rfl, rfl, rfl⟩
  | drain => exact serves _
  | feed target h =>
    exact .bind (uphold_look h) fun p _ => uphold_around lawful target fun _ => ⟨rfl, rfl, rfl, rfl, rfl⟩
  | shutdown => exact uphold_shutdown serves
  | closing => exact .bind (.graph fun _ _ => trivial) fun _ _ => .pure trivial
  | environment => exact .bind (.graph fun _ _ => trivial) fun _ _ => .pure trivial
  | report r => exact uphold_remember fun _ _ _ => nofun
  | note line => exact uphold_remember fun _ _ _ => nofun

theorem uphold_interpret (id : NodeId) (program : Program σ α)
    (obeys : program.Obeys (fun _ => True) (c.keeps id) c.error) :
    c.Upholds (interpret again id program) := by
  induction program with
  | done a => exact .pure trivial
  | fail e => exact .throw obeys
  | keep s next ih =>
    refine .bind (.update fun _ holds => ?_) fun _ _ => ih obeys.2
    exact holds_update holds id fun _ node => lawful.state node obeys.1
  | ask r next ih => exact .bind (uphold_answer lawful serves id r) fun a _ => ih a (obeys.2 a)

theorem uphold_runStage (id : NodeId) {program : Here → Node σ → σ → Program σ Unit}
    (obeys : ∀ node s, Stage.Minds (c.keeps id) c.error (node.here id) node.params s →
      (program (node.here id) node s).Obeys (fun _ => True) (c.keeps id) c.error) :
    c.Upholds (runStage again id program) := by
  refine .atNode fun g node holds found => ?_
  split
  next s stage =>
    have minds := lawful.programs (holds.nodes id node found) stage
    exact uphold_interpret lawful serves id _ (obeys node s minds)
  next => exact .pure trivial

theorem uphold_reconfigure (id : NodeId) (changed : List String) :
    c.Upholds (reconfigure again id changed) :=
  uphold_runStage lawful serves id fun _ _ minds => minds.reconfigure changed

omit serves in
theorem uphold_put (id : NodeId) {key : String} (value : Value) (writes : c.writes id key) :
    c.Upholds (Run.updateNode id fun node => { node with params := node.params.put key value }) :=
  .update fun _ holds => holds_update holds id fun _ node => lawful.written value node writes

omit serves in
theorem uphold_refreshEach (id : NodeId) (path : String) (pairs : List (String × String))
    (changed : List String) (writes : ∀ pair ∈ pairs, c.writes id pair.1) :
    c.Upholds (refreshEach id path pairs changed) := by
  induction pairs generalizing changed with
  | nil => exact .pure trivial
  | cons pair rest ih =>
    have later (changed : List String) : c.Upholds (refreshEach id path rest changed) :=
      ih changed fun pair listed => writes pair (List.mem_cons_of_mem _ listed)
    refine uphold_reading fun g _ => ?_
    dsimp only
    split
    · exact .throw (lawful.incidental _ rfl)
    · refine .bind (uphold_put lawful id _ (writes pair List.mem_cons_self)) fun _ _ => ?_
      split
      · exact .bind (uphold_remember fun _ _ _ => nofun) fun _ _ => later _
      · exact later _

theorem uphold_refresh (id : NodeId) : c.Upholds (refresh again id) := by
  refine uphold_reading fun g _ => .bind (uphold_began id _) fun _ _ => ?_
  refine .atNode fun g node holds found => ?_
  refine .bind (uphold_refreshEach lawful id _ _ _ fun pair listed => ?_) fun changed _ => ?_
  · exact lawful.followed (holds.nodes id node found) listed
  · split
    · exact .pure trivial
    · exact uphold_reconfigure lawful serves id _

theorem uphold_accept (id : NodeId) (h : Handle) : c.Upholds (accept again id h) := by
  refine .bind (uphold_refresh lawful serves id) fun _ _ => ?_
  refine .bind (uphold_runStage lawful serves id fun _ _ minds => minds.beforeAccept h) fun _ _ => ?_
  refine .bind (uphold_look h) fun p _ => .bind (uphold_began id _) fun _ _ => ?_
  refine .bind (uphold_runStage lawful serves id fun _ _ minds => minds.accept h) fun _ _ => ?_
  exact uphold_runStage lawful serves id fun _ _ minds => minds.afterAccept

theorem uphold_resetParameter (id : NodeId) (m : Message) :
    c.Upholds (resetParameter again id m) := by
  refine .atNode fun g node holds found => ?_
  split
  next name value _ =>
    dsimp only
    split
    · exact .throw_bind (lawful.incidental _ rfl) _
    next declares =>
      have declares : node.declared.declares name.render = true := by simpa using declares
      have writes := lawful.declared (holds.nodes id node found) declares
      exact .bind (uphold_put lawful id value writes) fun _ _ =>
        .bind (uphold_remember fun _ _ _ => nofun) fun _ _ => uphold_reconfigure lawful serves id _
  next => exact .throw (lawful.incidental _ rfl)

theorem uphold_openMessage (id : NodeId) (node : Node σ) (m : Message) :
    c.Upholds (openMessage again id node m) := by
  unfold openMessage
  split
  · refine .bind (uphold_remember fun _ _ _ => nofun) fun _ _ => .bind (uphold_began id _) fun _ _ => ?_
    dsimp only
    split
    · exact .bind (uphold_resetParameter lawful serves id m) fun _ _ => .pure trivial
    · exact .bind (uphold_runStage lawful serves id fun _ _ minds => minds.onMessage m) fun _ _ =>
        .pure trivial
  · exact .pure trivial

omit serves in
theorem uphold_notice (id : NodeId) (m : Message) : c.Upholds (notice (σ := σ) id m) := by
  refine .bind (uphold_began id _) fun _ _ => .atNode fun g node holds found => ?_
  split
  next s stage =>
    have kept := (lawful.programs (holds.nodes id node found) stage).notice m
    refine .bind (.update fun _ holds => ?_) fun _ _ => uphold_noteAll _
    exact holds_update holds id fun _ node => lawful.state node kept
  next => exact .pure trivial

theorem uphold_pass (id : NodeId) (node : Node σ) (m : Message) :
    c.Upholds (pass again id node m) := by
  refine .andThen (.holding ?_ (uphold_mark lawful id)) fun ends => ?_
  · exact .bind (uphold_notice lawful id m) fun _ _ =>
      .bind (uphold_openMessage lawful serves id node m) fun _ _ =>
        .andThen (.bind (.graph fun _ _ => trivial) fun _ _ => .pure trivial) fun _ => .pure trivial
  · split
    · exact .pure trivial
    · exact uphold_onward serves _ _

theorem uphold_settle (id : NodeId) {result : Except EngineError Unit}
    (admitted : Run.Admitted c.error (fun _ => True) result) :
    c.Upholds (settle again id result) := by
  refine uphold_reading fun g _ => ?_
  dsimp only
  split
  · refine .bind (uphold_around lawful id fun _ => ⟨rfl, rfl, rfl, rfl, rfl⟩) fun _ _ => ?_
    exact .bind (serves _).attempt fun _ closed => .bind (.get admitted) fun _ _ => .get closed
  · exact .get admitted

theorem uphold_deliverToStage (id : NodeId) (node : Node σ) (packet : Packet) :
    c.Upholds (deliverToStage again id node packet) := by
  unfold deliverToStage
  split
  · exact .bind (uphold_remember fun _ _ _ => nofun) fun _ _ => .throw (lawful.incidental _ rfl)
  · split
    · refine uphold_reading fun g _ => ?_
      split
      · exact uphold_remember fun _ _ _ => nofun
      · exact .throw (lawful.incidental _ rfl)
    · have settles {run : Run σ Unit} (takes : c.Upholds run) :
          c.Upholds (Run.attempt run >>= fun result => settle again id result) :=
        takes.attempt.bind fun result admitted => uphold_settle lawful serves id admitted
      cases packet with
      | parcel h => exact settles (.holding (uphold_accept lawful serves id h) (uphold_mark lawful id))
      | message m => exact settles (uphold_pass lawful serves id node m)

omit [Stage σ] lawful in
theorem uphold_fanOut {node : Node σ} (missing : node.branch = none →
    c.error (.routing (.missingBranch node.path))) (packet : Packet) :
    c.Upholds (fanOut again node packet) := by
  cases packet with
  | parcel h =>
    refine .bind (uphold_look h) fun p _ => .bind (uphold_edit _ _) fun _ _ =>
      .bind (uphold_remember fun _ _ _ => nofun) fun _ _ => ?_
    split
    next none => exact .throw (missing none)
    · exact serves _
    · exact uphold_onward serves _ _
  | message m => exact .bind (uphold_onward serves _ _) fun _ _ => uphold_onward serves _ _

theorem uphold_deliver (id : NodeId) (packet : Packet) : c.Upholds (deliver again id packet) := by
  refine .atNode fun g node holds found => ?_
  split
  · exact uphold_onward serves _ _
  next forks => exact uphold_fanOut serves (lawful.missing (holds.nodes id node found) forks) packet
  · exact uphold_deliverToStage lawful serves id node packet

theorem uphold_callLast (id : NodeId) (hook : Hook) {program : Here → σ → Program σ Unit}
    (obeys : ∀ (node : Node σ) s, Stage.Minds (c.keeps id) c.error (node.here id) node.params s →
      (program (node.here id) s).Obeys (fun _ => True) (c.keeps id) c.error) :
    c.Upholds (callLast again id hook program) := by
  refine .bind (uphold_began id hook) fun _ _ => ?_
  refine .bind (uphold_runStage lawful serves id obeys).attempt fun result admitted => ?_
  split
  · exact .pure trivial
  · exact .bind (uphold_remember fun _ _ _ => nofun) fun _ _ => .throw admitted

theorem uphold_closeStage (id : NodeId) (node : Node σ) : c.Upholds (closeStage again id node) := by
  have around (f : Node σ → Node σ) (same : ∀ node : Node σ, node.Same (f node)) :=
    uphold_around lawful id same
  unfold closeStage
  split
  · exact .pure trivial
  · split
    · exact .bind (around _ fun _ => ⟨rfl, rfl, rfl, rfl, rfl⟩) fun _ _ =>
        uphold_remember fun _ _ _ => nofun
    · refine .andThen (.holding ?_ (uphold_mark lawful id)) fun loops => ?_
      · exact .bind (around _ fun _ => ⟨rfl, rfl, rfl, rfl, rfl⟩) fun _ _ =>
          .bind (uphold_callLast lawful serves id _ fun _ _ minds => minds.flush) fun _ _ =>
            .bind (around _ fun _ => ⟨rfl, rfl, rfl, rfl, rfl⟩) fun _ _ =>
              .bind (uphold_callLast lawful serves id _ fun _ _ minds => minds.close) fun _ _ =>
                .bind (around _ fun _ => ⟨rfl, rfl, rfl, rfl, rfl⟩) fun _ _ =>
                  .bind (.graph fun _ _ => trivial) fun _ _ => .pure trivial
      · refine .bind (uphold_remember fun _ _ _ => nofun) fun _ _ => ?_
        split
        · exact .pure trivial
        · exact uphold_onward serves _ _

theorem uphold_close (id : NodeId) : c.Upholds (close again id) := by
  refine .atNode fun g node holds found => ?_
  have closed : c.Upholds (Run.setPhase id .closed : Run σ Unit) :=
    uphold_around lawful id fun _ => ⟨rfl, rfl, rfl, rfl, rfl⟩
  split
  · exact uphold_closeStage lawful serves id node
  · split
    · exact .pure trivial
    · exact .bind closed fun _ _ => .bind (uphold_onward serves _ _) fun _ _ => uphold_onward serves _ _
  · split
    · exact .pure trivial
    · exact .bind closed fun _ _ => uphold_onward serves _ _

theorem uphold_drain (id : NodeId) : c.Upholds (drain again id) := by
  refine .andThen (.bind (.graph fun _ _ => trivial) fun _ _ => .pure trivial) fun t => ?_
  refine .bind (uphold_around lawful id fun _ => ⟨rfl, rfl, rfl, rfl, rfl⟩) fun _ _ => ?_
  dsimp only
  split
  · exact .pure trivial
  · exact uphold_reading fun g _ => .bind (uphold_remember fun _ _ _ => nofun) fun _ _ =>
      .bind (uphold_forward lawful serves id _ _) fun _ _ => serves _

theorem uphold_step (call : Call) : c.Upholds (step again call) := by
  cases call with
  | deliver id packet => exact uphold_deliver lawful serves id packet
  | close id => exact uphold_close lawful serves id
  | drain id => exact uphold_drain lawful serves id

end

theorem uphold_perform (depth : Nat) (call : Call) : c.Upholds (perform depth call) := by
  induction depth generalizing call with
  | zero => exact fun _ _ => trivial
  | succ depth ih => exact uphold_step lawful ih call

end Traffic

namespace Graph

variable [Stage σ]

def Operation.run (depth : Nat) : Operation → Run σ Unit
  | .act (.setVariable name text) =>
    Run.update fun g => { g with environment := g.environment.set name text }
  | .act (.removeVariable name) =>
    Run.update fun g => { g with environment := g.environment.remove name }
  | .act (.send p) => send depth p
  | .act (.message m) => sendMessage depth m
  | .act (.pump parcels) => do
    let _ ← pump depth parcels
  | .shutdown => Graph.shutdown depth

theorem operate_eq (depth : Nat) (g : Graph σ) (operation : Operation) :
    g.operate depth operation = ((operation.run depth).start g).map Prod.snd := by
  cases operation with
  | shutdown => rfl
  | act act =>
    cases act with
    | pump parcels =>
      have opened : ((Operation.act (.pump parcels)).run depth).start g =
          ((pump depth parcels >>= fun _ => pure ()) : Run σ Unit).start g := rfl
      rw [opened, Run.start_bind]
      simp only [operate, act]
      cases (pump depth parcels).start g with
      | none => rfl
      | some ended =>
        obtain ⟨result, after⟩ := ended
        cases result <;> rfl
    | _ => rfl

section

variable {c : Charter σ} (lawful : c.Lawful)
include lawful

theorem uphold_send (depth : Nat) (p : Parcel) : c.Upholds (send depth p : Run σ Unit) :=
  .bind (Traffic.uphold_add p) fun _ _ => Traffic.uphold_reading fun _ _ =>
    Traffic.uphold_perform lawful depth _

theorem uphold_sendAll (depth : Nat) (parcels : List Parcel) :
    c.Upholds (sendAll depth parcels : Run σ Unit) := by
  induction parcels with
  | nil => exact .pure trivial
  | cons p rest ih => exact .bind (uphold_send lawful depth p) fun _ _ => ih

theorem uphold_takeResults : c.Upholds (takeResults : Run σ (List Parcel)) := by
  intro g holds
  refine takeResults_ends.mpr ⟨fun _ => ⟨holds, trivial⟩, fun sink kept => ⟨?_, trivial⟩⟩
  obtain ⟨s, state, sinks⟩ := Option.bind_eq_some_iff.mp kept
  obtain ⟨node, found, state⟩ := Option.bind_eq_some_iff.mp state
  have taken := lawful.taken (holds.nodes _ node found) (Node.kind_of_state state) sinks
  exact Traffic.holds_update holds _ fun _ node => lawful.state node taken

theorem uphold_relink (g : Graph σ) (holds : c.Holds g) (source : NodeId) (target : Option NodeId) :
    c.Holds { g with nodes := linkMain source target g.nodes } := by
  refine ⟨fun id node found => ?_, holds.began⟩
  obtain ⟨before, main, was, rfl⟩ := linkMainBy_main _ found
  have same : before.Same { before with main } := ⟨rfl, rfl, rfl, rfl, rfl⟩
  exact lawful.same same (holds.nodes id before was)

theorem uphold_pump (depth : Nat) (parcels : List Parcel) :
    c.Upholds (pump depth parcels : Run σ (List Parcel)) := by
  rw [pump_eq]
  refine Traffic.uphold_reading fun g holds => ?_
  split
  · exact .pure trivial
  · refine .andThen (fun _ _ => ⟨uphold_relink lawful g holds _ _, trivial⟩) fun _ => ?_
    refine .bind (uphold_sendAll lawful depth parcels).attempt fun result admitted => ?_
    refine .bind (.update fun g holds => uphold_relink lawful g holds _ _) fun _ _ => ?_
    exact .bind (.get admitted) fun _ _ => uphold_takeResults lawful

theorem uphold_operation (depth : Nat) (operation : Operation) :
    c.Upholds (operation.run depth : Run σ Unit) := by
  cases operation with
  | shutdown => exact Traffic.uphold_shutdown fun call => Traffic.uphold_perform lawful depth call
  | act act =>
    cases act with
    | setVariable name text => exact .update fun _ holds => ⟨holds.nodes, holds.began⟩
    | removeVariable name => exact .update fun _ holds => ⟨holds.nodes, holds.began⟩
    | send p => exact uphold_send lawful depth p
    | message m => exact Traffic.uphold_reading fun _ _ => Traffic.uphold_perform lawful depth _
    | pump parcels => exact .bind (uphold_pump lawful depth parcels) fun _ _ => .pure trivial

theorem Leads.upheld {g after : Graph σ} (leads : g.Leads after) (holds : c.Holds g) :
    c.Holds after := by
  induction leads with
  | refl => exact holds
  | @operate mid after depth operation before ran ih =>
    rw [operate_eq] at ran
    obtain ⟨⟨result, last⟩, started, rfl⟩ := Option.map_eq_some_iff.mp ran
    exact ((uphold_operation lawful depth operation mid ih).of_start started).1

theorem Leads.allowed {g mid after : Graph σ} (leads : g.Leads mid) (holds : c.Holds g) {depth : Nat}
    {operation : Operation} {e : EngineError}
    (failed : (operation.run depth).start mid = some (.error e, after)) : c.error e :=
  ((uphold_operation lawful depth operation mid (leads.upheld lawful holds)).of_start failed).2

end

end Graph

end Sluice
