import Sluice.Proofs.Graph.Conduct
import Sluice.Proofs.Graph.Flush
import Sluice.Proofs.Stage.Feeds

set_option autoImplicit false

namespace Sluice

variable {σ : Type}

namespace Graph

def feed (g : Graph σ) (queue : NodeId) (h : Handle) (p : Parcel) : Graph σ :=
  g.updateNode queue fun node => { node with tank := node.tank.push h p }

def taken (g : Graph σ) (id : NodeId) (node : Node σ) (queue : NodeId) (h : Handle) : Graph σ :=
  (g.remember (.began id node (.accept h (g.store.read h)))).feed queue h (g.store.read h)

def refill (g : Graph σ) (id : NodeId) (tank : Tank) : Graph σ :=
  g.updateNode id fun node => { node with tank }

def Rests {σ : Type} (g : Graph σ) (id : NodeId) : Prop :=
  ∀ node, g.node? id = some node → node.busy = false

theorem Active.mark {g : Graph σ} {queue : NodeId} (active : g.Active queue) (id : NodeId) :
    (g.mark id true).Active queue := by
  obtain ⟨node, s, found, stage, busy⟩ := active
  have there := node?_updateNode g id queue fun node => { node with busy := true }
  rw [found] at there
  split at there
  next => exact ⟨_, s, there, stage, rfl⟩
  next => exact ⟨node, s, there, stage, busy⟩

theorem Active.not_rests {g : Graph σ} {id : NodeId} (active : g.Active id) : ¬g.Rests id := by
  obtain ⟨node, _, found, -, busy⟩ := active
  intro rests
  rw [rests node found] at busy
  cases busy

theorem Stays.feed (g : Graph σ) (queue : NodeId) (h : Handle) (p : Parcel) :
    g.Stays (g.feed queue h p) := .update fun _ _ => rfl

theorem Stays.taken (g : Graph σ) (id : NodeId) (node : Node σ) (queue : NodeId) (h : Handle) :
    g.Stays (g.taken id node queue h) := .trans (.remember g _) (.feed _ queue h _)

theorem Stays.refill (g : Graph σ) (id : NodeId) (tank : Tank) : g.Stays (g.refill id tank) :=
  .update fun _ _ => rfl

section

variable {g : Graph Stock} {id : NodeId} {node : Node Stock}

def role (g : Graph Stock) (id : NodeId) : Option (NodeKind Stock) :=
  (g.node? id).map fun node => node.kind.role

theorem role_of_stage {s : Stock} (found : g.node? id = some node) (stage : node.kind = .stage s) :
    g.role id = some (.stage s.role) := by
  rw [role, found, Option.map_some, stage]
  rfl

theorem stage_of_role {s t : Stock} (found : g.node? id = some node) (stage : node.kind = .stage s)
    (role : g.role id = some (.stage t)) : s.role = t :=
  NodeKind.stage.inj (Option.some.inj ((role_of_stage found stage).symm.trans role))

theorem Queue.role (held : g.Queue id) : g.role id = some (.stage .tankQueue) := by
  obtain ⟨node, found, stage⟩ := held
  exact role_of_stage found stage

theorem stage_at_role {r : Stock} (role : g.role id = some (.stage r)) :
    ∃ node s, g.node? id = some node ∧ node.kind = .stage s ∧ s.role = r := by
  obtain ⟨node, found, role⟩ := Option.map_eq_some_iff.mp role
  cases stage : node.kind with
  | stage s =>
    rw [stage] at role
    exact ⟨node, s, found, stage, NodeKind.stage.inj role⟩
  | _ =>
    rw [stage] at role
    cases role

theorem queue_of_role (role : g.role id = some (.stage .tankQueue)) : g.Queue id := by
  obtain ⟨node, s, found, stage, same⟩ := stage_at_role role
  exact ⟨node, found, Stock.role_tankQueue same ▸ stage⟩

theorem role_updateNode {f : Node Stock → Node Stock}
    (same : ∀ node, g.node? id = some node → (f node).kind.role = node.kind.role) (other : NodeId) :
    (g.updateNode id f).role other = g.role other := by
  unfold Graph.role
  exact map_updateNode same other

theorem role_taken (g : Graph Stock) (id : NodeId) (node : Node Stock) (queue : NodeId) (h : Handle)
    (other : NodeId) : (g.taken id node queue h).role other = g.role other := by
  unfold taken feed
  refine (role_updateNode ?_ other).trans rfl
  exact fun _ _ => rfl

end

end Graph

namespace Conduct

variable {m : Conduct σ} {again other : Call → Run σ Unit} {g : Graph σ} {id : NodeId}

theorem Follows.called {node : Node σ} {s : σ} {program : Here → Node σ → σ → Program σ Unit}
    {good : Unit → Graph σ → Prop} (found : g.node? id = some node) (stage : node.kind = .stage s)
    (follows : m.Follows (Traffic.interpret again id (program (node.here id) node s))
      (Traffic.interpret other id (program (node.here id) node s)) g good) :
    m.Follows (Traffic.runStage again id program) (Traffic.runStage other id program) g good := by
  refine .at found ?_
  rw [stage]
  exact follows

end Conduct

namespace Conduct

variable {m : Conduct Stock} {again other : Call → Run Stock Unit} (serves : m.Serves again other)
  {g : Graph Stock} {id queue : NodeId} {node : Node Stock}

theorem Follows.admits {s : Stock} {h : Handle} {good : Graph Stock → Prop}
    (found : g.node? id = some node) (stage : node.kind = .stage s)
    (follows : m.Follows (Traffic.interpret again id (s.accept (node.here id) h))
      (Traffic.interpret other id (s.accept (node.here id) h))
        (g.remember (.began id node (.accept h (g.store.read h)))) fun _ after => good after) :
    m.Follows (Traffic.takeIn again id h) (Traffic.takeIn other id h) g fun _ after => good after := by
  have before : m.Follows
      (Traffic.runStage again id fun here _ s => Stage.beforeAccept here s h)
      (Traffic.runStage other id fun here _ s => Stage.beforeAccept here s h) g
      fun _ after => after = g := .called found stage (.pure rfl)
  refine before.bind fun _ mid _ same => ?_
  rw [same]
  have began : m.Follows (Run.look h >>= fun p => Run.began id (.accept h p))
      (Run.look h >>= fun p => Run.began id (.accept h p)) g
      fun _ after => after = g.remember (.began id node (.accept h (g.store.read h))) :=
    .reading (.at found (.update (.remember _ _) rfl))
  refine began.bind fun _ mid _ same => ?_
  rw [same]
  have taken : m.Follows (Traffic.runStage again id fun here _ s => Stage.accept here s h)
      (Traffic.runStage other id fun here _ s => Stage.accept here s h)
      (g.remember (.began id node (.accept h (g.store.read h)))) fun _ after => good after :=
    .called found stage follows
  refine taken.bind fun _ after stays holds => .atNode (fun last there => ?_) fun _ => holds
  split
  · exact .pure holds
  · exact .pure holds

theorem Follows.fed (m : Conduct Stock) (g : Graph Stock) (queue : NodeId) (h : Handle) :
    m.Follows (Traffic.feed queue h) (Traffic.feed queue h) g
      fun _ after => after = g.feed queue h (g.store.read h) :=
  .reading (.update (.update fun _ _ => rfl) rfl)

theorem Follows.fills {h : Handle} (found : g.node? id = some node)
    (stage : node.kind = .stage (.tankFeed ⟨some queue⟩)) :
    m.Follows (Traffic.takeIn again id h) (Traffic.takeIn other id h) g
      fun _ after => after = g.taken id node queue h := by
  refine .admits found stage ?_
  change m.Follows (Traffic.feed queue h >>= fun _ => Pure.pure ())
    (Traffic.feed queue h >>= fun _ => Pure.pure ()) _ _
  exact (Follows.fed m _ queue h).bind fun _ _ _ same => .pure same

theorem Follows.gauged (m : Conduct Stock) (found : g.node? id = some node) :
    m.Follows (Run.tankOf id) (Run.tankOf id) g fun t after => t = node.tank ∧ after = g := by
  refine .reading (.pure ⟨?_, rfl⟩)
  rw [found]
  rfl

section

include serves

theorem Serves.pour {h : Handle} (found : g.node? queue = some node)
    (stage : node.kind = .stage .tankQueue) (inv : m.inv none (g.taken queue node queue h))
    (may : m.may (.drain queue) (g.taken queue node queue h)) :
    m.Follows (Traffic.takeIn again queue h) (Traffic.takeIn other queue h) g
      fun _ after => m.inv none after ∧ after.Relieved queue := by
  refine .admits found stage ?_
  change m.Follows (do Traffic.feed queue h; again (.drain queue); pure ())
    (do Traffic.feed queue h; other (.drain queue); pure ()) _ _
  refine (Follows.fed m _ queue h).bind fun _ _ _ same => ?_
  rw [same]
  exact (serves.call inv may).bind fun _ _ _ done => .pure done

theorem Serves.empty (found : g.node? queue = some node) (stage : node.kind = .stage .tankQueue)
    (inv : m.inv none (g.refill queue { node.tank with capacity := 0 }))
    (may : m.may (.drain queue) (g.refill queue { node.tank with capacity := 0 })) :
    m.Follows (Traffic.runStage again queue fun here _ s => Stage.flush here s)
      (Traffic.runStage other queue fun here _ s => Stage.flush here s) g
        fun _ after => m.inv none after ∧ after.Relieved queue := by
  refine .called found stage ?_
  change m.Follows
    (do let t ← Run.tankOf queue; Run.setTank queue { t with capacity := 0 }; again (.drain queue); pure ())
    (do let t ← Run.tankOf queue; Run.setTank queue { t with capacity := 0 }; other (.drain queue); pure ())
    _ _
  refine (Follows.gauged m found).bind fun t _ _ ⟨read, same⟩ => ?_
  rw [same, read]
  refine .updating (.refill g queue _) ?_
  exact (serves.call inv may).bind fun _ _ _ done => .pure done

end

theorem Follows.resizes {changed : List String} (drained : Graph Stock → Prop)
    {good : Graph Stock → Prop} (found : g.node? queue = some node)
    (stage : node.kind = .stage .tankQueue)
    (fails : ∀ e, ((TankQueue.settings node.params).run node.tank).1 = .error e →
      m.bad (.config e) (g.refill queue ((TankQueue.settings node.params).run node.tank).2))
    (drains : ((TankQueue.settings node.params).run node.tank).1 = .ok () →
      m.Follows (again (.drain queue)) (other (.drain queue))
        (g.refill queue ((TankQueue.settings node.params).run node.tank).2) fun _ after => drained after)
    (pads : ∀ after last report, drained after → after.node? queue = some last →
      good ((after.refill queue last.tank.pad).remember (.report report))) :
    m.Follows (Traffic.reconfigure again queue changed) (Traffic.reconfigure other queue changed) g
      fun _ after => good after := by
  -- Settings are read first and may fail; the drain and the padding follow.
  refine .called found stage ?_
  change m.Follows
    (Run.tankOf queue >>= fun t =>
      Traffic.interpret again queue (TankQueue.resize node.path node.params t))
    (Run.tankOf queue >>= fun t =>
      Traffic.interpret other queue (TankQueue.resize node.path node.params t)) _ _
  refine (Follows.gauged m found).bind fun t _ _ ⟨read, same⟩ => ?_
  rw [same, read]
  unfold TankQueue.resize
  generalize (TankQueue.settings node.params).run node.tank = ended at fails drains ⊢
  obtain ⟨result, set⟩ := ended
  cases result with
  | error e =>
    exact Follows.updating (.refill g queue set) (.throw (fails e rfl))
  | ok _ =>
    refine Follows.updating (.refill g queue set) ?_
    refine Follows.bind (drains rfl) fun _ after stays drained => ?_
    obtain ⟨last, there, -⟩ := (Graph.Stays.trans (.refill g queue set) stays).node found
    refine (Follows.gauged m there).bind fun t _ _ ⟨read, same⟩ => ?_
    rw [same, read]
    exact .updating (.refill after queue _) (.updating (.remember _ _) (.pure (pads _ _ _ drained there)))

end Conduct

namespace Run

variable {σ α β : Type}

def Leaves (run : Run σ α) (good : Graph σ → Prop) : Prop :=
  ∀ g, run.Ends g fun result after => (∃ a, result = .ok a) → good after

namespace Leaves

variable {run : Run σ α} {next : α → Run σ β} {left good : Graph σ → Prop}

theorem bind (first : run.Leaves left)
    (rest : ∀ a g, left g → (next a).Ends g fun result after => (∃ b, result = .ok b) → good after) :
    (run >>= next).Leaves good := by
  intro g
  rw [ends_bind]
  refine (first g).mono fun result after holds => ?_
  cases result with
  | ok a => exact rest a after (holds ⟨a, rfl⟩)
  | error e => rintro ⟨_, same⟩; cases same

theorem any (run : Run σ α) : run.Leaves fun _ => True := by
  intro g
  unfold Ends
  split
  · trivial
  · exact fun _ => trivial

theorem last (run : Run σ α) (rest : ∀ a, (next a).Leaves good) : (run >>= next).Leaves good :=
  (any run).bind fun a g _ => rest a g

theorem throw (e : EngineError) (good : Graph σ → Prop) :
    (MonadExcept.throw e : Run σ α).Leaves good := by
  rintro g ⟨_, same⟩
  cases same

end Leaves

end Run

namespace Traffic

variable {σ : Type} [Stage σ]

theorem drain_relieves (depth : Nat) (id : NodeId) :
    (perform depth (.drain id) : Run σ Unit).Leaves fun after => after.Relieved id := by
  induction depth with
  | zero => exact fun _ => trivial
  | succ depth ih =>
    intro g
    generalize there : ((g.node? id).map Node.tank).getD .empty = tank
    suffices ends : (do
        Run.setTank id tank.release.2
        sendOn (perform depth) id tank.release.2.released tank.release.1 : Run σ Unit).Ends g
          fun result after => (∃ a, result = .ok a) → after.Relieved id by
      unfold Run.Ends at ends ⊢
      rwa [← drain_start there] at ends
    cases released : tank.release.1 with
    | none =>
      intro _ node found
      obtain ⟨before, _, ⟨-, rfl⟩ | ⟨other, -⟩⟩ := Graph.updateNode_cases found
      · exact tank.release_releases.relieved released
      · exact absurd rfl other
    | some h =>
      have sends : (sendOn (perform depth) id tank.release.2.released (some h) : Run σ Unit).Leaves
          fun after => after.Relieved id := .last _ fun _ => .last _ fun _ => .last _ fun _ => ih
      exact Run.Leaves.last _ (fun _ => sends) g

theorem reconfigure_fills {again : Call → Run Stock Unit} {queue : NodeId}
    (drains : (again (.drain queue)).Leaves fun after => after.Relieved queue) {g : Graph Stock}
    (held : g.Queue queue) (changed : List String) :
    (reconfigure again queue changed).Ends g fun result after => (∃ a, result = .ok a) →
      ∀ node, after.node? queue = some node → node.tank.Full := by
  obtain ⟨node, found, stage⟩ := held
  unfold reconfigure runStage
  rw [Run.ends_atNode]
  refine ⟨fun other there => ?_, fun none => nomatch found.symm.trans none⟩
  obtain rfl := Option.some.inj (found.symm.trans there)
  rw [stage]
  change (Run.tankOf queue >>= fun t =>
    interpret again queue (TankQueue.resize node.path node.params t)).Ends g _
  refine Run.Leaves.last _ (fun t => ?_) g
  unfold TankQueue.resize
  obtain ⟨result, set⟩ := (TankQueue.settings node.params).run t
  cases result with
  | error e => exact .last _ fun _ => .throw _ _
  | ok _ =>
    refine .last _ fun _ => drains.bind fun _ mid relieved _ last there => ?_
    obtain ⟨before, was, ⟨-, rfl⟩ | ⟨other, -⟩⟩ := Graph.updateNode_cases there
    · change (((mid.node? queue).map Node.tank).getD .empty).pad.Full
      rw [was]
      exact Tank.pad_full (relieved before was)
    · exact absurd rfl other

end Traffic

end Sluice
