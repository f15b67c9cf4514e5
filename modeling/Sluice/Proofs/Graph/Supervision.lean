import Sluice.Proofs.Graph.Returns

set_option autoImplicit false

namespace Sluice

variable {σ α β : Type}

namespace Run

def Below (run more : Run σ α) : Prop :=
  ∀ g ended, run.start g = some ended → more.start g = some ended

namespace Below

theorem refl (run : Run σ α) : Below run run := fun _ _ started => started

theorem unfinished (run : Run σ α) : Below Run.unfinished run := fun _ _ started => by cases started

theorem ends {run more : Run σ α} (below : Below run more) {g : Graph σ}
    {post : Except EngineError α → Graph σ → Prop} (ends : more.Ends g post) : run.Ends g post := by
  unfold Ends at *
  split
  · trivial
  next started =>
    rw [below g _ started] at ends
    exact ends

theorem returned {run : Nat → Run σ α}
    (grows : ∀ {depth more : Nat}, depth ≤ more → Below (run depth) (run more)) {g : Graph σ}
    {post : Except EngineError α → Graph σ → Prop} (returns : Returns run g post) {depth : Nat}
    {result : Except EngineError α} {after : Graph σ}
    (started : (run depth).start g = some (result, after)) : post result after := by
  obtain ⟨enough, result', after', returned, holds⟩ := returns
  have same := (grows (Nat.le_max_right enough depth) g _ started).symm.trans
    (returned _ (Nat.le_max_left enough depth))
  cases same
  exact holds

theorem bind {run more : Run σ α} {next then' : α → Run σ β} (first : Below run more)
    (rest : ∀ a, Below (next a) (then' a)) : Below (run >>= next) (more >>= then') := by
  intro g ended started
  rw [start_bind] at started ⊢
  obtain ⟨⟨result, mid⟩, before, later⟩ := Option.bind_eq_some_iff.mp started
  rw [first g _ before, Option.bind_some]
  cases result with
  | ok a => exact rest a mid ended later
  | error e => exact later

theorem throw_bind (e : EngineError) (next then' : α → Run σ β) :
    Below (MonadExcept.throw e >>= next) (MonadExcept.throw e >>= then') :=
  fun _ _ started => started

theorem attempt {run more : Run σ α} (below : Below run more) :
    Below run.attempt more.attempt := by
  intro g ended started
  rw [attempt_start] at started ⊢
  obtain ⟨_, before, same⟩ := Option.bind_eq_some_iff.mp started
  rw [below g _ before]
  exact same

theorem atNode {id : NodeId} {f f' : Node σ → Run σ Unit} (below : ∀ node, Below (f node) (f' node)) :
    Below (atNode id f) (Run.atNode id f') := by
  refine .bind (.refl _) fun g => ?_
  cases g.node? id with
  | none => exact .refl _
  | some node => exact below node

theorem holding {id : NodeId} {run more : Run σ α} (below : Below run more) :
    Below (holding id run) (Run.holding id more) :=
  .bind (.refl _) fun _ => .bind below.attempt fun _ => .refl _

end Below

end Run

namespace Traffic

open Run (Below)

variable {again more : Call → Run σ Unit}

-- Each function comes to the same ends, or to more, if the further calls do.
section

variable (below : ∀ call, Below (again call) (more call))
include below

theorem onward_below (target : Option NodeId) (call : NodeId → Call) :
    Below (onward again target call) (onward more target call) := by
  cases target with
  | none => exact .refl _
  | some id => exact below (call id)

theorem forward_below (id : NodeId) (h : Handle) (edge : Edge) :
    Below (forward again id h edge) (forward more id h edge) := by
  refine .atNode fun node => .bind (.refl _) fun g => ?_
  dsimp only
  split
  · exact .throw_bind _ _ _
  · split
    · exact .refl _
    · exact .bind (.refl _) fun _ => .bind (.refl _) fun _ => below _

theorem shutdown_below : Below (shutdown again) (shutdown more) := by
  refine .bind (.refl _) fun g => ?_
  split
  · exact .refl _
  · exact .bind (.refl _) fun _ => .bind (.refl _) fun _ => .bind (below _) fun _ => .refl _

theorem answer_below (id : NodeId) (r : Request) : Below (answer again id r) (answer more id r) := by
  cases r with
  | forward h edge => exact forward_below below id h edge
  | post m => exact .atNode fun node => onward_below below node.main _
  | drain => exact below _
  | shutdown => exact shutdown_below below
  | _ => exact .refl _

theorem interpret_below (id : NodeId) (program : Program σ α) :
    Below (interpret again id program) (interpret more id program) := by
  induction program with
  | done a => exact .refl _
  | fail e => exact .refl _
  | keep s next ih => exact .bind (.refl _) fun _ => ih
  | ask r next ih => exact .bind (answer_below below id r) ih

theorem runStage_below (id : NodeId) (program : Here → Node σ → σ → Program σ Unit) :
    Below (runStage again id program) (runStage more id program) := by
  refine .atNode fun node => ?_
  cases node.kind with
  | stage s => exact interpret_below below id _
  | _ => exact .refl _

variable [Stage σ]

theorem refresh_below (id : NodeId) : Below (refresh again id) (refresh more id) := by
  refine .bind (.refl _) fun g => .bind (.refl _) fun _ => .atNode fun node => ?_
  refine .bind (.refl _) fun changed => ?_
  split
  · exact .refl _
  · exact runStage_below below id _

theorem accept_below (id : NodeId) (h : Handle) : Below (accept again id h) (accept more id h) :=
  .bind (refresh_below below id) fun _ => .bind (runStage_below below id _) fun _ =>
    .bind (.refl _) fun _ => .bind (.refl _) fun _ => .bind (runStage_below below id _) fun _ =>
      runStage_below below id _

theorem resetParameter_below (id : NodeId) (m : Message) :
    Below (resetParameter again id m) (resetParameter more id m) := by
  refine .atNode fun node => ?_
  split
  · dsimp only
    split
    · exact .throw_bind _ _ _
    · exact .bind (.refl _) fun _ => .bind (.refl _) fun _ => runStage_below below id _
  · exact .refl _

theorem openMessage_below (id : NodeId) (node : Node σ) (m : Message) :
    Below (openMessage again id node m) (openMessage more id node m) := by
  unfold openMessage
  split
  · refine .bind (.refl _) fun _ => .bind (.refl _) fun _ => ?_
    dsimp only
    split
    · exact .bind (resetParameter_below below id m) fun _ => .refl _
    · exact .bind (runStage_below below id _) fun _ => .refl _
  · exact .refl _

theorem pass_below (id : NodeId) (node : Node σ) (m : Message) :
    Below (pass again id node m) (pass more id node m) := by
  refine .bind (.holding (.bind (.refl _) fun _ => ?_)) fun ends => ?_
  · exact .bind (openMessage_below below id node m) fun _ => .refl _
  · split
    · exact .refl _
    · exact onward_below below node.main _

omit [Stage σ] in
theorem settle_below (id : NodeId) (result : Except EngineError Unit) :
    Below (settle again id result) (settle more id result) := by
  refine .bind (.refl _) fun g => ?_
  dsimp only
  split
  · exact .bind (.refl _) fun _ => .bind (below _).attempt fun _ => .refl _
  · exact .refl _

theorem deliverToStage_below (id : NodeId) (node : Node σ) (packet : Packet) :
    Below (deliverToStage again id node packet) (deliverToStage more id node packet) := by
  unfold deliverToStage
  split
  · exact .refl _
  · split
    · exact .refl _
    · refine .bind (Below.attempt ?_) fun result => settle_below below id result
      cases packet with
      | parcel h => exact .holding (accept_below below id h)
      | message m => exact pass_below below id node m

omit [Stage σ] in
theorem fanOut_below (node : Node σ) (packet : Packet) :
    Below (fanOut again node packet) (fanOut more node packet) := by
  cases packet with
  | parcel h =>
    refine .bind (.refl _) fun p => .bind (.refl _) fun _ => .bind (.refl _) fun _ => ?_
    split
    · exact .refl _
    · exact below _
    · exact onward_below below node.main _
  | message m =>
    exact .bind (onward_below below node.branch _) fun _ => onward_below below node.main _

theorem deliver_below (id : NodeId) (packet : Packet) :
    Below (deliver again id packet) (deliver more id packet) := by
  refine .atNode fun node => ?_
  cases node.kind with
  | subGraph entry exit => exact onward_below below entry _
  | fanOut => exact fanOut_below below node packet
  | stage s => exact deliverToStage_below below id node packet

omit [Stage σ] in
theorem callLast_below (id : NodeId) (hook : Hook) (program : Here → σ → Program σ Unit) :
    Below (callLast again id hook program) (callLast more id hook program) :=
  .bind (.refl _) fun _ => .bind (runStage_below below id _).attempt fun _ => .refl _

theorem closeStage_below (id : NodeId) (node : Node σ) :
    Below (closeStage again id node) (closeStage more id node) := by
  unfold closeStage
  split
  · exact .refl _
  · split
    · exact .refl _
    · refine .bind (.holding ?_) fun loops => .bind (.refl _) fun _ => ?_
      · exact .bind (.refl _) fun _ => .bind (callLast_below below id .flush _) fun _ =>
          .bind (.refl _) fun _ => .bind (callLast_below below id .close _) fun _ => .refl _
      · split
        · exact .refl _
        · exact onward_below below node.main _

theorem close_below (id : NodeId) : Below (close again id) (close more id) := by
  refine .atNode fun node => ?_
  cases node.kind with
  | stage s => exact closeStage_below below id node
  | fanOut =>
    dsimp only
    split
    · exact .refl _
    · exact .bind (.refl _) fun _ => .bind (onward_below below node.branch _) fun _ =>
        onward_below below node.main _
  | subGraph entry exit =>
    dsimp only
    split
    · exact .refl _
    · exact .bind (.refl _) fun _ => onward_below below entry _

omit [Stage σ] in
theorem drain_below (id : NodeId) : Below (drain again id) (drain more id) := by
  refine .bind (.refl _) fun t => .bind (.refl _) fun _ => ?_
  split
  · exact .refl _
  · exact .bind (.refl _) fun g => .bind (.refl _) fun _ =>
      .bind (forward_below below id _ .main) fun _ => below _

theorem step_below (call : Call) : Below (step again call) (step more call) := by
  cases call with
  | deliver id packet => exact deliver_below below id packet
  | close id => exact close_below below id
  | drain id => exact drain_below below id

end

variable [Stage σ]

def accepting (g : Graph σ) : Call → Option (NodeId × Handle)
  | .deliver id (.parcel h) =>
    match g.node? id with
    | some node =>
      if node.state?.isSome ∧ node.phase ≠ .closed ∧ node.busy = false then some (id, h) else none
    | none => none
  | _ => none

/-- As `perform`, but with a record of the stages by which a parcel is being accepted. The run does
not go on where one of these is to accept another. -/
def supervise : Nat → List NodeId → Call → Run σ Unit
  | 0, _, _ => Run.unfinished
  | depth + 1, active, call => do
    match accepting (← Run.graph) call with
    | some (id, h) =>
      if id ∈ active then Run.unfinished
      else do
        let result ← Run.attempt (Run.holding id (accept (supervise depth (id :: active)) id h))
        settle (supervise depth active) id result
    | none => step (supervise depth active) call

theorem supervise_start (depth : Nat) (active : List NodeId) (call : Call) (g : Graph σ) :
    (supervise (depth + 1) active call).start g = (match accepting g call with
      | some (id, h) =>
        if id ∈ active then Run.unfinished
        else do
          let result ← Run.attempt (Run.holding id (accept (supervise depth (id :: active)) id h))
          settle (supervise depth active) id result
      | none => step (supervise depth active) call : Run σ Unit).start g := rfl

omit [Stage σ] in
theorem accepting_open {g : Graph σ} {call : Call} {id : NodeId} {h : Handle}
    (accepts : accepting g call = some (id, h)) :
    call = .deliver id (.parcel h) ∧ g.Open id := by
  unfold accepting at accepts
  split at accepts
  next id' h' =>
    split at accepts
    next node found =>
      split at accepts
      next free =>
        cases accepts
        obtain ⟨s, state⟩ := Option.isSome_iff_exists.mp free.1
        exact ⟨rfl, node, s, found, Node.kind_of_state state, free.2.2, free.2.1⟩
      next => cases accepts
    next => cases accepts
  next => cases accepts

theorem supervise_below (depth : Nat) (active : List NodeId) (call : Call) :
    Below (supervise depth active call : Run σ Unit) (perform depth call) := by
  induction depth generalizing active call with
  | zero => exact .unfinished _
  | succ depth ih =>
    intro g ended started
    rw [supervise_start] at started
    split at started
    next id h accepts =>
      obtain ⟨rfl, opened⟩ := accepting_open accepts
      split at started
      · cases started
      · change (deliver (perform depth) id (.parcel h)).start g = some ended
        rw [deliver_open opened]
        refine Below.bind (Below.attempt (.holding ?_)) (fun result => ?_) g ended started
        · exact accept_below (ih (id :: active)) id h
        · exact settle_below (ih active) id result
    next => exact step_below (ih active) call g ended started

theorem perform_below {depth more : Nat} (deep : depth ≤ more) (call : Call) :
    Run.Below (perform depth call : Run σ Unit) (perform more call) := by
  induction depth generalizing more call with
  | zero => exact .unfinished _
  | succ depth ih =>
    obtain ⟨more, rfl⟩ : ∃ less, more = less + 1 := ⟨more - 1, by omega⟩
    exact step_below (fun call => ih (Nat.le_of_succ_le_succ deep) call) call

section

variable {g : Graph σ} {active : List NodeId} {call : Call}
  {post : Except EngineError Unit → Graph σ → Prop}

theorem supervise_returns (none' : accepting g call = none)
    (returns : Run.Returns (fun depth => step (supervise depth active) call) g post) :
    Run.Returns (fun depth => supervise depth active call) g post :=
  .deeper (fun depth => by rw [supervise_start, none']) returns

theorem supervise_accepts {id : NodeId} {h : Handle} (accepts : accepting g call = some (id, h))
    (free : id ∉ active)
    (returns : Run.Returns (fun depth => do
      let result ← Run.attempt (Run.holding id (accept (supervise depth (id :: active)) id h))
      settle (supervise depth active) id result) g post) :
    Run.Returns (fun depth => supervise depth active call) g post :=
  .deeper (fun depth => by rw [supervise_start, accepts]; dsimp only; rw [if_neg free]) returns

end

end Traffic

namespace Graph

variable [Stage σ]

/-- Sends a parcel in, as long as no stage is to accept a parcel while it accepts another. -/
def sendSupervised (depth : Nat) (p : Parcel) : Run σ Unit := do
  let h ← Run.add p
  let g ← Run.graph
  Traffic.supervise depth [] (.deliver g.root (.parcel h))

theorem sendSupervised_below (depth : Nat) (p : Parcel) :
    Run.Below (sendSupervised depth p : Run σ Unit) (send depth p) :=
  .bind (.refl _) fun _ => .bind (.refl _) fun _ => Traffic.supervise_below depth [] _

theorem send_below {depth more : Nat} (deep : depth ≤ more) (p : Parcel) :
    Run.Below (send depth p : Run σ Unit) (send more p) :=
  .bind (.refl _) fun _ => .bind (.refl _) fun _ => Traffic.perform_below deep _

theorem sendAll_below {depth more : Nat} (deep : depth ≤ more) (parcels : List Parcel) :
    Run.Below (sendAll depth parcels : Run σ Unit) (sendAll more parcels) := by
  induction parcels with
  | nil => exact .refl _
  | cons p rest ih => exact .bind (send_below deep p) fun _ => ih

theorem pump_below {depth more : Nat} (deep : depth ≤ more) (parcels : List Parcel) :
    Run.Below (pump depth parcels : Run σ (List Parcel)) (pump more parcels) := by
  refine .bind (.bind (.refl _) fun g => ?_) fun _ => .refl _
  cases g.exit with
  | none => exact .refl _
  | some exit =>
    exact .bind (.refl _) fun _ => .bind (.attempt (sendAll_below deep parcels)) fun _ => .refl _

end Graph

end Sluice
