import Sluice.Proofs.Assembly.Trials
import Sluice.Proofs.Graph.Guards
import Sluice.Proofs.Graph.Sessions
import Sluice.Proofs.Stage.AllowedSettings

set_option autoImplicit false

namespace Sluice

variable {σ : Type}

def Graph.released (g after : Graph σ) : Bool :=
  (after.reportsSince g.history.length).any fun r =>
    match r with
    | .tankForwarded _ _ => true
    | _ => false

def Graph.now (g : Graph σ) : Graph σ := { g with history := [] }

def Node.rebound (key : String) (value : Value) (node : Node σ) : Node σ :=
  { node with params := node.params.put key value }

/-- The parameter that a message is to set and its value, if the node has such a parameter. -/
def Node.resets? (node : Node σ) (m : Message) : Option (String × Value) :=
  match m.values with
  | [name, value] =>
    if node.declared.declares name.render then some (name.render, value) else none
  | _ => none

theorem Node.accepts_of_idle {node : Node Stock} (idle : node.fitted? = none) : node.Accepts := by
  intro fitted there
  rw [idle] at there
  cases there

theorem ParamTable.put_put (t : ParamTable) (key : String) (value later : Value) :
    (t.put key value).put key later = t.put key later := by
  have twice (d : Dict Value) : (d.put key value).put key later = d.put key later := by
    induction d with
    | nil => simp [Dict.put]
    | cons entry rest ih =>
      obtain ⟨k, v⟩ := entry
      simp only [Dict.put]
      split
      next => simp [Dict.put]
      next ne =>
        split
        next => simp [Dict.put]
        next before => simp [Dict.put, ne, before, ih]
  simp [put, twice]

namespace Graph

theorem updateNode_eq {g : Graph σ} {id : NodeId} {node : Node σ} (found : g.node? id = some node)
    (f : Node σ → Node σ) : g.updateNode id f = g.updateNode id fun _ => f node := by
  unfold updateNode
  congr 1
  refine Array.ext_getElem? fun other => ?_
  rw [Array.getElem?_modify, Array.getElem?_modify]
  by_cases same : id = other
  · subst same
    rw [if_pos rfl, if_pos rfl]
    change (g.node? id).map f = (g.node? id).map fun _ => f node
    rw [found]
    rfl
  · rw [if_neg same, if_neg same]

theorem updateNode_updateNode (g : Graph σ) (id : NodeId) (f next : Node σ → Node σ) :
    (g.updateNode id f).updateNode id next = g.updateNode id (next ∘ f) := by
  unfold updateNode
  congr 1
  refine Array.ext_getElem? fun other => ?_
  simp only [Array.getElem?_modify]
  split
  · rw [Option.map_map]
  · rfl

theorem now_updateNode (g : Graph σ) (id : NodeId) (f : Node σ → Node σ) :
    (g.updateNode id f).now = g.now.updateNode id f := rfl

theorem node?_of_now {g after : Graph σ} (same : after.now = g.now) (id : NodeId) :
    after.node? id = g.node? id := by
  change after.now.node? id = g.now.node? id
  rw [same]

theorem released_of_history {g after : Graph σ} {events older : List (Event σ)} {path : String}
    {count : Nat} (grown : after.history = events ++ .report (.tankForwarded path count) :: older)
    (since : g.history <:+ older) : g.released after = true := by
  obtain ⟨between, rfl⟩ := since
  have whole : after.history =
      (events ++ .report (.tankForwarded path count) :: between) ++ g.history := by
    rw [grown, List.append_assoc, List.cons_append]
  have room : after.history.length - g.history.length =
      (events ++ .report (.tankForwarded path count) :: between).length := by
    rw [whole, List.length_append, Nat.add_sub_cancel]
  unfold released reportsSince
  rw [room, whole, List.take_left]
  refine List.any_eq_true.mpr ⟨.tankForwarded path count, ?_, rfl⟩
  rw [List.mem_reverse, List.mem_filterMap]
  exact ⟨_, List.mem_append_right _ List.mem_cons_self, rfl⟩

end Graph

namespace Traffic

open Run (Keeps)

theorem history_guards (older : List (Event Stock)) :
    Guards (fun _ => False) (fun _ => True) (fun _ _ => True)
      fun g : Graph Stock => older <:+ g.history :=
  Unowned.guards
    { changed := fun holds _ => holds
      state := fun holds _ => holds
      programs := fun _ _ _ =>
        (Stock.obeys _ _).mono (fun _ _ => trivial) (fun _ _ => trivial) fun _ _ => trivial
      logged := fun _ holds => holds.trans (List.suffix_cons _ _)
      store := fun _ holds => holds
      requested := fun holds => holds
      environment := fun _ holds => holds }

theorem drain_fails_released (depth : Nat) (id : NodeId) {g start : Graph Stock}
    (since : start.history <:+ g.history) : (perform depth (.drain id)).Ends g fun result after =>
      ∀ e, result = .error e → start.released after = true := by
  cases depth with
  | zero => exact trivial
  | succ depth =>
    change (drain (perform depth) id).Ends g _
    unfold drain Run.tankOf Run.setTank Run.updateNode
    simp only [Run.ends_bind, Run.ends_graph, Run.ends_pure, Run.ends_update]
    split
    · rintro _ ⟨⟩
    next h _ =>
      rw [Run.ends_bind, Run.ends_graph]
      dsimp only
      rw [Run.report, Run.remember, Run.ends_bind, Run.ends_update]
      have serves (older : List (Event Stock)) (call : Call) :
          Keeps (fun g : Graph Stock => older <:+ g.history) (perform depth call) :=
        (history_guards older).perform depth call trivial
      have rest (older : List (Event Stock)) : Keeps (fun g : Graph Stock => older <:+ g.history) (do
          forward (perform depth) id h .main
          perform depth (.drain id)) :=
        .bind ((history_guards older).forward (fun call _ => serves older call) trivial h .main)
          fun _ => serves older (.drain id)
      refine (rest _ _ (List.suffix_refl _)).mono fun result after guarded e _ => ?_
      obtain ⟨events, grown⟩ := guarded
      exact Graph.released_of_history grown.symm since

theorem accepts_iff {node : Node Stock} {state : Stock} (stage : node.kind = .stage state) :
    node.Accepts ↔ ((Stock.configure node.params).run ⟨state, node.tank⟩).1 = .ok () := by
  unfold Node.Accepts
  rw [Node.fitted?_stage stage]
  exact ⟨fun all => all _ rfl, fun done fitted same => Option.some.inj same ▸ done⟩

theorem configured_eq {node : Node Stock} {state : Stock} (stage : node.kind = .stage state) :
    node.configured =
      { node with
        kind := .stage ((Stock.configure node.params).run ⟨state, node.tank⟩).2.state
        tank := ((Stock.configure node.params).run ⟨state, node.tank⟩).2.tank } := by
  unfold Node.configured
  rw [Node.fitted?_stage stage]
  rfl

/-- A stage is told that it is to take over the parameters of its node. It may fail because it does
not take them, having set what comes before that, or else only after something has been let go. -/
def Rejects {α : Type} (id : NodeId) (node : Node Stock) (start g : Graph Stock)
    (result : Except EngineError α) (after : Graph Stock) : Prop :=
  (node.Accepts ∧ ∀ e, result = .error e → start.released after = true) ∨
    (¬node.Accepts ∧ after.now = (g.updateNode id fun _ => node.configured).now ∧
      ∃ e, result = .error e)

section

variable {id : NodeId} {g start : Graph Stock} {node : Node Stock} (found : g.node? id = some node)
include found

theorem configureAgain_rejects {again : Call → Run Stock Unit} {state : Stock}
    (stage : node.kind = .stage state) :
    (interpret again id (Fitted.configureAgain Stock.configure node.params state)).Ends g
      (Rejects id node start g) := by
  rw [interpret_configureAgain, Run.ends_bind, tankOf_ends found]
  dsimp only
  unfold Run.setState Run.setTank Run.updateNode
  simp only [Run.ends_bind, Run.ends_update]
  cases ran : ((Stock.configure node.params).run ⟨state, node.tank⟩).1 with
  | ok _ => exact .inl ⟨(accepts_iff stage).mpr ran, fun _ failed => by cases failed⟩
  | error e =>
    refine .inr ⟨mt (accepts_iff stage).mp (by rw [ran]; rintro ⟨⟩), ?_, _, rfl⟩
    rw [Graph.updateNode_updateNode, Graph.updateNode_eq found, configured_eq stage]
    rfl

theorem reconfigure_seqPacket_rejects {again : Call → Run Stock Unit} {s : SeqPacket}
    (changed : List String) (stage : node.kind = .stage (.seqPacket s)) :
    (interpret again id ((s.reconfigure node.params changed).mapState .seqPacket)).Ends g
      (Rejects id node start g) := by
  have configure : (Stock.configure node.params).run ⟨Stock.seqPacket s, node.tank⟩ = _ :=
    Stock.configure_run node.params (.seqPacket s) node.tank
  rw [interpret_reconfigure_seqPacket]
  unfold Run.setState Run.updateNode
  simp only [Run.ends_bind, Run.ends_update]
  rcases ran : (SeqPacket.settings node.params).run s with ⟨e | _, t⟩
  · have failed := SeqPacket.configure_failed ran
    refine .inr ⟨(accepts_iff stage).not.mpr ?_, ?_, _, rfl⟩
    · rw [configure]
      simp [failed]
    · rw [Graph.updateNode_eq found, configured_eq stage, configure]
      simp [failed]
  · have accepts : node.Accepts := by
      refine (accepts_iff stage).mpr ((Stock.configure_ok_iff _ _ _).mpr ?_)
      exact (SeqPacket.settings_ok_iff node.params s).mp (by rw [ran])
    dsimp only [Program.ofConfig, Program.bind]
    split <;> exact .inl ⟨accepts, fun _ failed => by cases failed⟩

theorem reconfigure_tankQueue_rejects (depth : Nat) (stage : node.kind = .stage .tankQueue)
    (since : start.history <:+ g.history) :
    (interpret (perform depth) id (TankQueue.reconfigure (node.here id) node.params)).Ends g
      (Rejects id node start g) := by
  have configure : (Stock.configure node.params).run ⟨Stock.tankQueue, node.tank⟩ = _ :=
    Stock.configure_run node.params .tankQueue node.tank
  rw [interpret_reconfigure_tankQueue, Run.ends_bind, tankOf_ends found]
  dsimp only
  unfold Run.setTank Run.updateNode
  simp only [Run.ends_bind, Run.ends_update]
  rcases ran : (TankQueue.settings node.params).run node.tank with ⟨e | _, t⟩
  · have failed := TankQueue.configure_failed ran
    refine .inr ⟨(accepts_iff stage).not.mpr ?_, ?_, _, rfl⟩
    · rw [configure]
      simp [failed]
    · rw [Graph.updateNode_eq found, configured_eq stage, configure]
      simp [failed, stage]
  · have accepts : node.Accepts := by
      refine (accepts_iff stage).mpr ((Stock.configure_ok_iff _ _ _).mpr ?_)
      exact (TankQueue.settings_ok_iff node.params node.tank).mp (by rw [ran])
    -- Nothing but draining can fail any more.
    let rest : Run Stock Unit := do
      let t ← Run.tankOf id
      Run.setTank id t.pad
      Run.report (.tankResized node.path t.pad.capacity t.pad.held t.pad.size)
    have drained : ((perform depth (.drain id) : Run Stock Unit) >>= fun _ : Unit => rest).Ends
        (g.updateNode id fun node => { node with tank := t }) (Rejects id node start g) := by
      rw [Run.ends_bind]
      refine (drain_fails_released depth id (g := g.updateNode id _) since).mono ?_
      intro result after fails
      cases result with
      | error e => exact .inl ⟨accepts, fun _ _ => fails e rfl⟩
      | ok _ => exact .inl ⟨accepts, fun _ failed => by cases failed⟩
    exact drained

end

theorem reconfigure_rejects (depth : Nat) (id : NodeId) (changed : List String)
    {g start : Graph Stock} {node : Node Stock} (found : g.node? id = some node)
    (since : start.history <:+ g.history) :
    (reconfigure (perform depth) id changed).Ends g (Rejects id node start g) := by
  have idle (kind : node.fitted? = none) : Rejects id node start g (.ok ()) g :=
    .inl ⟨Node.accepts_of_idle kind, fun _ => nofun⟩
  unfold reconfigure runStage
  refine .at found ?_
  cases kind : node.kind with
  | fanOut => exact idle (by simp [Node.fitted?, Node.state?, kind])
  | subGraph entry exit => exact idle (by simp [Node.fitted?, Node.state?, kind])
  | stage state =>
    have program : Stage.reconfigure (node.here id) node.params changed state =
        Stock.reconfigure (node.here id) node.params changed state := rfl
    dsimp only
    rw [program]
    unfold Stock.reconfigure
    split
    next s => exact reconfigure_seqPacket_rejects found changed kind
    next => exact reconfigure_tankQueue_rejects found depth kind since
    next => exact configureAgain_rejects found kind

section

variable [Stage σ] (again : Call → Run σ Unit) {id : NodeId} {m : Message} {g : Graph σ}
  {node : Node σ}

theorem resetParameter_refused (found : g.node? id = some node) (unnamed : node.resets? m = none) :
    ∃ e, (resetParameter again id m).start g = some (.error e, g) := by
  unfold resetParameter
  rw [Run.atNode_start found]
  split
  next name value values =>
    have undeclared : node.declared.declares name.render = false := by
      simpa [Node.resets?, values] using unnamed
    dsimp only
    rw [undeclared]
    exact ⟨_, rfl⟩
  next => exact ⟨_, rfl⟩

theorem resetParameter_written {key : String} {value : Value} (found : g.node? id = some node)
    (named : node.resets? m = some (key, value)) :
    (resetParameter again id m).start g = (reconfigure again id [key]).start
      ((g.updateNode id (Node.rebound key value)).remember
        (.report (.parameterReset node.path key value))) := by
  unfold Node.resets? at named
  split at named
  next name written values =>
    split at named
    next declares =>
      cases named
      unfold resetParameter
      rw [Run.atNode_start found, values]
      dsimp only
      rw [declares]
      rfl
    next => cases named
  next => cases named

end

/-- A message that resets a parameter is opened. One that does not name a parameter and a value for
it fails and leaves no trace but in the history. -/
def Resets {α : Type} (id : NodeId) (node : Node Stock) (m : Message) (start g : Graph Stock)
    (result : Except EngineError α) (after : Graph Stock) : Prop :=
  match node.resets? m with
  | none => after.now = g.now ∧ ∃ e, result = .error e
  | some (key, value) => Rejects id (node.rebound key value) start g result after

section

variable {id : NodeId} {m : Message} {g start : Graph Stock} {node : Node Stock}

theorem Resets.retype {α β : Type} {result : Except EngineError α} {other : Except EngineError β}
    {after : Graph Stock} (reset : Resets id node m start g result after)
    (same : ∀ e, result = .error e ↔ other = .error e) : Resets id node m start g other after := by
  simpa only [Resets, Rejects, same] using reset

theorem resetParameter_resets (depth : Nat) (found : g.node? id = some node)
    (since : start.history <:+ g.history) :
    (resetParameter (perform depth) id m).Ends g (Resets id node m start g) := by
  unfold Resets Run.Ends
  cases named : node.resets? m with
  | none =>
    obtain ⟨e, refused⟩ := resetParameter_refused (perform depth) found named
    rw [refused]
    exact ⟨rfl, e, rfl⟩
  | some entry =>
    obtain ⟨key, value⟩ := entry
    rw [resetParameter_written (perform depth) found named]
    -- The value is in the table before the stage reads it, so a refusal leaves it there.
    let put : Graph Stock := (g.updateNode id (Node.rebound key value)).remember
      (.report (.parameterReset node.path key value))
    have here : put.node? id = some (node.rebound key value) := by
      change (g.updateNode id (Node.rebound key value)).node? id = _
      exact Graph.node?_updateNode_self found _
    have since : start.history <:+ put.history := since.trans (List.suffix_cons _ _)
    refine (reconfigure_rejects depth id [key] here since).mono
      fun result after ends => ends.imp_right fun blocks => ?_
    obtain ⟨refused, left, fails⟩ := blocks
    refine ⟨refused, left.trans ?_, fails⟩
    have now : put.now = (g.updateNode id (Node.rebound key value)).now := rfl
    rw [Graph.now_updateNode, now, ← Graph.now_updateNode, Graph.updateNode_updateNode]
    rfl

theorem openMessage_resets (depth : Nat) {shown : Node Stock} (found : g.node? id = some node)
    (answers : shown.answersTo m.destination = true) (resets : m.verb = resetVerb)
    (since : start.history <:+ g.history) :
    (openMessage (perform depth) id shown m).Ends g (Resets id node m start g) := by
  unfold openMessage
  rw [if_pos answers, if_pos resets]
  unfold Run.report Run.began Run.remember
  rw [Run.ends_bind, Run.ends_update]
  dsimp only
  rw [Run.ends_bind]
  refine .at found ?_
  rw [Run.ends_update]
  dsimp only
  rw [Run.ends_bind]
  have ends := resetParameter_resets (m := m) depth
    (g := { g with
      history := .began id node (.opening m) :: .report (.messageOpened shown.path m) :: g.history })
    found (since.trans ((List.suffix_cons _ _).trans (List.suffix_cons _ _)))
  refine ends.mono fun result after reset => ?_
  cases result with
  | ok _ => exact reset.retype fun e => iff_of_false nofun nofun
  | error _ => exact reset.retype fun e => by simp

end

/-- A value that a stage rejected has stayed in the table of its node, where all the rest is as it
was. -/
structure Blocked (id : NodeId) (node : Node Stock) (key : String) (value : Value)
    (g after : Graph Stock) : Prop where
  left : after.now = (g.updateNode id (Node.rebound key value)).now
  offends : ∃ s, node.kind = .stage s ∧ key ∈ s.reads ∧ s.allows key value = false
  /-- Once the parameter is set to something else, nothing of it remains. -/
  mended : ∀ later, (after.updateNode id (Node.rebound key later)).now =
    (g.updateNode id (Node.rebound key later)).now
  /-- Until then no reset of another parameter of the stage succeeds. -/
  blocks : ∀ (depth : Nat) (shown : Node Stock) (m : Message),
    shown.answersTo m.destination = true → m.verb = resetVerb →
    (∀ later, node.resets? m ≠ some (key, later)) →
    (openMessage (perform depth) id shown m).Ends after fun result _ => ∃ e, result = .error e

section

variable {id : NodeId} {g after : Graph Stock} {node : Node Stock} {key : String} {value : Value}

theorem rebound_rejected (current : node.Current) (refused : ¬(node.rebound key value).Accepts) :
    (node.rebound key value).configured = node.rebound key value ∧
      ∃ s, node.kind = .stage s ∧ key ∈ s.reads ∧ s.allows key value = false := by
  have idle (stateless : node.fitted? = none) : (node.rebound key value).Accepts :=
    Node.accepts_of_idle stateless
  cases kind : node.kind with
  | fanOut => exact absurd (idle (by simp [Node.fitted?, Node.state?, kind])) refused
  | subGraph entry exit => exact absurd (idle (by simp [Node.fitted?, Node.state?, kind])) refused
  | stage s =>
    have stage : (node.rebound key value).kind = .stage s := kind
    have fitted := Node.fitted?_stage kind
    have same := current.2
    rw [Node.configured_settings fitted, Node.settings, fitted] at same
    obtain ⟨kept, listed, rejects⟩ := Stock.configure_rejected ((accepts_iff kind).mp current.1)
      (Option.some.inj same) (mt (accepts_iff stage).mpr refused)
    refine ⟨?_, s, rfl, listed, rejects⟩
    rw [configured_eq stage]
    have kept : ((Stock.configure (node.rebound key value).params).run
        ⟨s, (node.rebound key value).tank⟩).2 = ⟨s, node.tank⟩ := kept
    rw [kept, ← stage]
    rfl

theorem blocked_of_left (found : g.node? id = some node)
    (left : after.now = (g.updateNode id (Node.rebound key value)).now)
    (offends : ∃ s, node.kind = .stage s ∧ key ∈ s.reads ∧ s.allows key value = false) :
    Blocked id node key value g after where
  left := left
  offends := offends
  mended := by
    intro later
    rw [Graph.now_updateNode, left, ← Graph.now_updateNode, Graph.updateNode_updateNode]
    congr 2
    funext node
    exact congrArg (fun params => { node with params }) (node.params.put_put key value later)
  blocks := by
    intro depth shown m answers resets other
    obtain ⟨s, stage, listed, rejects⟩ := offends
    have here : after.node? id = some (node.rebound key value) := by
      rw [Graph.node?_of_now left]
      exact Graph.node?_updateNode_self found _
    refine (openMessage_resets depth here answers resets (List.suffix_refl _)).mono
      fun result last reset => ?_
    have same : (node.rebound key value).resets? m = node.resets? m := rfl
    unfold Resets at reset
    rw [same] at reset
    split at reset
    next => exact reset.2
    next name later named =>
      rcases reset with ⟨accepts, -⟩ | ⟨-, -, fails⟩
      · have ne : name ≠ key := fun same => other later (same ▸ named)
        have kind : ((node.rebound key value).rebound name later).kind = .stage s := stage
        have allows := (Stock.configure_ok_iff _ _ _).mp ((accepts_iff kind).mp accepts)
        exact absurd allows (Stock.not_allows_put node.params listed rejects ne later)
      · exact fails

end

/-- A reset that fails before a tank has let go of anything either names no parameter, and leaves all
as it was, or has put the value that the stage rejects into the table. Then the stage has set what
it reads before that value. That is nothing new if it had the settings of its table. -/
theorem rejected_reset_leaves {depth : Nat} {id : NodeId} {g after : Graph Stock}
    {node shown : Node Stock} {m : Message} {e : EngineError} (found : g.node? id = some node)
    (resets : m.verb = resetVerb)
    (ran : (openMessage (perform depth) id shown m).start g = some (.error e, after))
    (unreleased : g.released after = false) :
    (node.resets? m = none ∧ after.now = g.now) ∨
      ∃ key value, node.resets? m = some (key, value) ∧ ¬(node.rebound key value).Accepts ∧
        after.now = (g.updateNode id fun _ => (node.rebound key value).configured).now ∧
        (node.Current → Blocked id node key value g after) := by
  have answers : shown.answersTo m.destination = true := by
    by_contra deaf
    unfold openMessage at ran
    rw [if_neg deaf] at ran
    cases ran
  have reset := (openMessage_resets depth found answers resets (List.suffix_refl _)).of_start ran
  unfold Resets at reset
  split at reset
  next unnamed => exact .inl ⟨unnamed, reset.1⟩
  next key value named =>
    rcases reset with ⟨-, releases⟩ | ⟨refused, left, -⟩
    · exact absurd (releases e rfl) (by simp [unreleased])
    · refine .inr ⟨key, value, named, refused, left, fun current => ?_⟩
      obtain ⟨kept, offends⟩ := rebound_rejected current refused
      rw [kept, ← Graph.updateNode_eq found] at left
      exact blocked_of_left found left offends

def collecting : Blueprint Stock where
  pipeline := ⟨"line", "", [], false, "sink", []⟩
  registry := Stock.registry
  params := []
  environment := .ofPairs []

def setSink (parameter value : String) : Message :=
  ⟨"sink", resetVerb, [.text parameter, .text value], false⟩

theorem misspelt_flag_stays : ∃ g node after e, collecting.build.1 = .ok g ∧
    g.node? 1 = some node ∧ node.Current ∧
    (openMessage (perform 2) 1 node (setSink "capture_msgs" "maybe")).start g =
      some (.error e, after) ∧ g.released after = false ∧
    ∃ key value, node.resets? (setSink "capture_msgs" "maybe") = some (key, value) ∧
      Blocked 1 node key value g after := by
  have runs : collecting.passes (fun g => (g.node? 1).any fun node =>
      (openMessage (perform 2) 1 node (setSink "capture_msgs" "maybe")).fails g fun after =>
        !g.released after && (node.resets? (setSink "capture_msgs" "maybe")).isSome) = true := by
    decide +kernel
  obtain ⟨g, built, runs⟩ := Blueprint.of_passes runs
  obtain ⟨node, found, runs⟩ := (Option.any_eq_true _ _).mp runs
  obtain ⟨e, after, ran, runs⟩ := Run.of_fails runs
  simp only [Bool.and_eq_true, Bool.not_eq_true'] at runs
  obtain ⟨held, resets⟩ := runs
  have configured := built
  obtain ⟨nodes, history, rfl, -, configured⟩ := Blueprint.build_configured configured
  have current := (Graph.make_node? configured found).1
  refine ⟨_, node, after, e, built, found, current, ran, held, ?_⟩
  rcases rejected_reset_leaves found rfl ran held with ⟨unnamed, -⟩ | named
  · rw [unnamed] at resets
    cases resets
  · obtain ⟨key, value, named, -, -, blocked⟩ := named
    exact ⟨key, value, named, blocked current⟩

/-- After a flag that cannot be read, no other limit can be set, though it could have been before. -/
theorem misspelt_flag_blocks : ∃ g after next last e e', collecting.build.1 = .ok g ∧
    (Graph.sendMessage 3 (setSink "capture_msgs" "maybe")).start g = some (.error e, after) ∧
    g.released after = false ∧
    (g.param? "sink" "capture_msgs").map Value.render = some "false" ∧
    (after.param? "sink" "capture_msgs").map Value.render = some "maybe" ∧
    (Graph.sendMessage 3 (setSink "max_results" "1")).start g = some (.ok (), next) ∧
    (Graph.sendMessage 3 (setSink "max_results" "1")).start after = some (.error e', last) := by
  have runs : collecting.passes (fun g =>
      (Graph.sendMessage 3 (setSink "max_results" "1")).succeeds g (fun _ _ => true) &&
        (Graph.sendMessage 3 (setSink "capture_msgs" "maybe")).fails g fun after =>
          (Graph.sendMessage 3 (setSink "max_results" "1")).fails after fun _ => !g.released after &&
            decide ((g.param? "sink" "capture_msgs").map Value.render = some "false") &&
              decide ((after.param? "sink" "capture_msgs").map Value.render = some "maybe")) = true := by
    decide +kernel
  obtain ⟨g, built, runs⟩ := Blueprint.of_passes runs
  obtain ⟨done, runs⟩ := (Bool.and_eq_true _ _).mp runs
  obtain ⟨_, next, done, -⟩ := Run.of_succeeds done
  obtain ⟨e, after, failed, runs⟩ := Run.of_fails runs
  obtain ⟨e', last, failed', runs⟩ := Run.of_fails runs
  simp only [Bool.and_eq_true, Bool.not_eq_true', decide_eq_true_eq] at runs
  obtain ⟨⟨held, before⟩, blocked⟩ := runs
  exact ⟨g, after, next, last, e, e', built, failed, held, before, blocked, done, failed'⟩

end Traffic

end Sluice
