import Sluice.Proofs.Graph.Regime

set_option autoImplicit false

namespace Sluice

variable {σ : Type}

namespace Graph

def feedsBack [Stage σ] (g : Graph σ) (id : NodeId) : Bool :=
  ((g.node? id).bind Node.state?).any Stage.feedsBack

theorem Advances.turnClosed (g : Graph σ) (id : NodeId)
    (passive : ∀ node s, g.node? id = some node → node.kind ≠ .stage s) :
    g.Advances (g.turn id .closed) :=
  .update fun node found =>
    { Node.Advances.refl node with
      phase := node.phase.rank_le_closed
      held s stage := absurd stage (passive node s found) }

end Graph

structure Node.Closes (phase : Phase) (before node : Node σ) : Prop where
  fixed : node.fixed = before.fixed
  busy : node.busy = true
  phase : node.phase = phase
  deferred : node.closeDeferred = true → before.closeDeferred = true

namespace Graph

structure Closing (g : Graph σ) (id : NodeId) (phase : Phase) (now : Graph σ) : Prop where
  begun : phase ≠ .running
  around : g.AdvancesBut (· = id) now
  here : ∃ before s node, g.node? id = some before ∧ before.kind = .stage s ∧
    now.node? id = some node ∧ before.Closes phase node

namespace Closing

variable {g now later : Graph σ} {id : NodeId} {phase : Phase}

theorem start {node : Node σ} {s : σ} (found : g.node? id = some node)
    (stage : node.kind = .stage s) (phase : Phase) (begun : phase ≠ .running) :
    g.Closing id phase ((g.mark id true).turn id phase) where
  begun := begun
  around := (AdvancesBut.update g id _).trans (.update _ id _)
  here := ⟨node, s, _, found, stage, node?_turn (node?_mark found true) phase,
    ⟨rfl, rfl, rfl, fun deferred => deferred⟩⟩

theorem node (closing : g.Closing id phase now) :
    ∃ node s, now.node? id = some node ∧ node.kind = .stage s ∧ node.busy = true ∧
      node.phase = phase := by
  obtain ⟨_, s, node, -, stage, there, closes⟩ := closing.here
  obtain ⟨t, kind⟩ := Node.stage_of_fixed closes.fixed stage
  exact ⟨node, t, there, kind, closes.busy, closes.phase⟩

theorem held (closing : g.Closing id phase now) (ongoing : phase ≠ .closed) : now.Held id := by
  obtain ⟨node, s, there, stage, busy, rfl⟩ := closing.node
  exact ⟨node, s, there, stage, busy, ongoing⟩

theorem advances (closing : g.Closing id phase now) (advances : now.Advances later) :
    g.Closing id phase later where
  begun := closing.begun
  around := closing.around.trans advances.but
  here := by
    obtain ⟨before, s, node, found, stage, there, closes⟩ := closing.here
    obtain ⟨next, after, moved⟩ := advances.node there
    obtain ⟨t, kind⟩ := Node.stage_of_fixed closes.fixed stage
    refine ⟨before, s, next, found, stage, after, moved.fixed.trans closes.fixed,
      moved.busy.trans closes.busy, (moved.held t kind closes.busy).trans closes.phase, ?_⟩
    intro deferred
    rcases moved.deferred deferred with deferred | ⟨-, running⟩
    · exact closes.deferred deferred
    · exact absurd (closes.phase.symm.trans running) closing.begun

theorem turn (closing : g.Closing id phase now) (next : Phase) (begun : next ≠ .running) :
    g.Closing id next (now.turn id next) where
  begun := begun
  around := closing.around.trans (.update _ id _)
  here := by
    obtain ⟨before, s, node, found, stage, there, closes⟩ := closing.here
    exact ⟨before, s, _, found, stage, node?_turn there next,
      ⟨closes.fixed, closes.busy, rfl, closes.deferred⟩⟩

theorem finish (closing : g.Closing id phase now) {node : Node σ} (found : g.node? id = some node)
    (running : node.phase = .running) (idle : node.busy = false) :
    g.Advances (now.mark id false) := by
  obtain ⟨before, s, last, found', -, there, closes⟩ := closing.here
  obtain rfl : before = node := Option.some.inj (found'.symm.trans found)
  have around : g.AdvancesBut (· = id) (now.mark id false) :=
    closing.around.trans (.update now id _)
  refine around.settled ?_
  rw [found, node?_mark there]
  exact .some
    { fixed := closes.fixed
      phase := by simp [running, Phase.rank]
      busy := idle.symm
      held := by simp [idle]
      deferred deferred := .inl (closes.deferred deferred)
      closed := by simp [running] }

end Closing

end Graph

namespace Traffic

variable {again : Call → Run σ Unit} {g : Graph σ} {id : NodeId} {node : Node σ}
  {post : Except EngineError Unit → Graph σ → Prop}

theorem callLast_ends {hook : Hook} {program : Here → σ → Program σ Unit}
    (found : g.node? id = some node) : (callLast again id hook program).Ends g post ↔
      (runStage again id fun here _ s => program here s).Ends (g.remember (.began id node hook))
        fun result after => match result with
          | .ok _ => post (.ok ()) after
          | .error e => post (.error e) (after.remember (.failed id hook e)) := by
  unfold callLast Run.began
  rw [Run.ends_bind, Run.ends_atNode]
  constructor
  next =>
    intro ends
    have ends := ends.1 node found
    unfold Run.remember at ends
    rw [Run.ends_update] at ends
    dsimp only at ends
    rw [Run.ends_bind, Run.ends_attempt] at ends
    refine ends.mono fun result after holds => ?_
    cases result <;> exact holds
  next =>
    intro ends
    rw [← Run.ends_atNode]
    refine .at found ?_
    unfold Run.remember
    rw [Run.ends_update]
    dsimp only
    rw [Run.ends_bind, Run.ends_attempt]
    refine ends.mono fun result after holds => ?_
    cases result <;> exact holds

theorem closeStage_ends [Stage σ]
    (gone : node.phase ≠ .running → post (.ok ()) g)
    (later : node.phase = .running → node.busy = true →
      post (.ok ()) ((g.defer id true).remember (.report (.closeDeferred node.path))))
    (now : node.phase = .running → node.busy = false →
      (callLast again id .flush Stage.flush).Ends ((g.mark id true).turn id .flushing)
        fun result mid => match result with
          | .error e => post (.error e) (mid.mark id false)
          | .ok _ => (callLast again id .close Stage.close).Ends (mid.turn id .closing)
            fun result last => match result with
              | .error e => post (.error e) (last.mark id false)
              | .ok _ =>
                (if (last.turn id .closed).feedsBack id then pure ()
                  else onward again node.main .close : Run σ Unit).Ends
                    (((last.turn id .closed).mark id false).remember
                      (.report (.stageClosed node.path node.typeName))) post) :
    (closeStage again id node).Ends g post := by
  unfold closeStage
  split
  next phase => exact gone phase
  next phase =>
    split
    next busy => exact later (Decidable.of_not_not phase) busy
    next idle =>
      rw [Run.ends_bind, Run.ends_holding, Run.ends_bind]
      unfold Run.setPhase Run.updateNode
      rw [Run.ends_update]
      dsimp only
      rw [Run.ends_bind]
      refine (now (Decidable.of_not_not phase) (by simpa using idle)).mono
        fun result mid holds => ?_
      cases result with
      | error e => exact holds
      | ok _ =>
        dsimp only at holds ⊢
        rw [Run.ends_bind, Run.ends_update]
        dsimp only
        rw [Run.ends_bind]
        have ends : (callLast again id .close Stage.close).Ends (mid.turn id .closing) _ := holds
        refine ends.mono fun result last holds => ?_
        cases result with
        | error e => exact holds
        | ok _ => exact holds

theorem settle_ends {result : Except EngineError Unit}
    (kept : (g.node? id).any Node.closeDeferred = false → post result g)
    (closes : (g.node? id).any Node.closeDeferred = true →
      (again (.close id)).Ends (g.defer id false) fun closed after =>
        post (result.bind fun _ => closed) after) :
    (settle again id result).Ends g post := by
  unfold settle
  rw [Run.ends_bind, Run.ends_graph]
  dsimp only
  split
  next deferred =>
    unfold Run.updateNode
    rw [Run.ends_bind, Run.ends_update]
    dsimp only
    rw [Run.ends_bind, Run.ends_attempt]
    refine (closes deferred).mono fun closed after holds => ?_
    cases result with
    | error e => exact holds
    | ok _ => exact holds
  next kept_ => exact kept (by simpa using kept_)

theorem shutdown_ends
    (began : g.shuttingDown = true → post (.ok ()) g)
    (closes : g.shuttingDown = false →
      (again (.close g.root)).Ends
        ({ g with shuttingDown := true }.remember (.report (.shutdownStarted g.pipeline)))
        fun result after => match result with
          | .error e => post (.error e) after
          | .ok _ => post (.ok ()) (after.remember (.report (.shutdownCompleted g.pipeline .zero)))) :
    (shutdown again).Ends g post := by
  unfold shutdown
  rw [Run.ends_bind, Run.ends_graph]
  dsimp only
  split
  next running => exact began running
  next running =>
    rw [Run.ends_bind, Run.ends_set]
    unfold Run.report Run.remember
    dsimp only
    rw [Run.ends_bind, Run.ends_update]
    dsimp only
    rw [Run.ends_bind]
    refine (closes (by simpa using running)).mono fun result after holds => ?_
    cases result with
    | error e => exact holds
    | ok _ => exact holds

end Traffic

end Sluice
