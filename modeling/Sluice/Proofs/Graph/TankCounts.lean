import Sluice.Proofs.Assembly.ParamTables
import Sluice.Proofs.Assembly.Trials
import Sluice.Proofs.Graph.Recovery
import Sluice.Proofs.Graph.TankLoads
import Sluice.Proofs.Graph.RejectedResets

set_option autoImplicit false

namespace Sluice

/-- Whether a parcel is about to be put into the tank there, by its own stage or by a feeder. -/
def Event.fills (queue : NodeId) : Event Stock → Bool
  | .began id node (.accept _ _) => id == queue || node.state?.any (Stock.feeds queue)
  | _ => false

theorem Event.fills_began {queue id : NodeId} {node : Node Stock} {hook : Hook}
    (other : hook.accepts = false) : (Event.began id node hook).fills queue = false := by
  cases hook with
  | accept _ _ => cases other
  | _ => rfl

structure Node.Tallied (node : Node Stock) (pushes : Nat) : Prop where
  bound : ∀ key ∈ Stock.tankQueue.reads, node.params.has key = true
  sound : node.tank.buffer.Sound
  filled : node.tank.Filled
  intake : node.tank.intake = pushes

namespace Graph

def pushes (g : Graph Stock) (queue : NodeId) : Nat := g.history.countP (Event.fills queue)

structure Tallied (start : Graph Stock) (queue : NodeId) (g : Graph Stock) : Prop where
  roles : ∀ id, g.role id = start.role id
  tank : ∀ node, g.node? queue = some node → node.Tallied (g.pushes queue)

variable {start g after : Graph Stock} {queue id : NodeId}

namespace Tallied

variable (tallied : start.Tallied queue g)
include tallied

theorem logged {event : Event Stock} (quiet : event.fills queue = false) :
    start.Tallied queue (g.remember event) := by
  have pushes : (g.remember event).pushes queue = g.pushes queue := by
    unfold pushes remember
    rw [List.countP_cons_of_neg (by simp [quiet])]
  exact ⟨tallied.roles, fun node found => pushes ▸ tallied.tank node found⟩

theorem update {f : Node Stock → Node Stock}
    (role : ∀ node, g.node? id = some node → (f node).kind.role = node.kind.role)
    (tank : id = queue → ∀ node, g.node? id = some node → node.Tallied (g.pushes queue) →
      (f node).Tallied (g.pushes queue)) : start.Tallied queue (g.updateNode id f) := by
  refine ⟨fun other => (role_updateNode role other).trans (tallied.roles other), fun node found => ?_⟩
  · obtain ⟨before, was, ⟨here, rfl⟩ | ⟨-, rfl⟩⟩ := updateNode_cases found
    · subst here
      exact tank rfl before was (tallied.tank before was)
    · exact tallied.tank node was

theorem around {f : Node Stock → Node Stock}
    (same : ∀ node, (f node).kind = node.kind ∧ (f node).params = node.params ∧ (f node).tank = node.tank) :
    start.Tallied queue (g.updateNode id f) := by
  refine tallied.update (fun node _ => congrArg NodeKind.role (same node).1) fun _ node _ kept => ?_
  obtain ⟨-, params, tank⟩ := same node
  exact ⟨params ▸ kept.bound, tank ▸ kept.sound, tank ▸ kept.filled, tank ▸ kept.intake⟩

theorem state {t : Stock} (role : start.role id = some (.stage t.role)) :
    start.Tallied queue (g.updateNode id fun node => { node with kind := .stage t }) := by
  refine tallied.update (fun node found => ?_) fun _ _ _ kept =>
    ⟨kept.bound, kept.sound, kept.filled, kept.intake⟩
  have same := (tallied.roles id).trans role
  rw [Graph.role, found] at same
  exact (Option.some.inj same).symm

theorem refill (tank : Tank) (fits : id = queue → ∀ node, g.node? id = some node →
      node.Tallied (g.pushes queue) → tank.buffer.Sound ∧ tank.Filled ∧ tank.intake = node.tank.intake) :
    start.Tallied queue (g.refill id tank) := by
  refine tallied.update (fun _ _ => rfl) fun here node found kept => ?_
  obtain ⟨sound, filled, intake⟩ := fits here node found kept
  exact ⟨kept.bound, sound, filled, intake.trans kept.intake⟩

theorem taken {node : Node Stock} {h : Handle}
    (fills : ∀ h p, (Event.began id node (.accept h p)).fills queue = true) :
    start.Tallied queue (g.taken id node queue h) := by
  have pushes (f : Node Stock → Node Stock) : Graph.pushes
      ((g.remember (.began id node (.accept h (g.store.read h)))).updateNode queue f) queue =
        g.pushes queue + 1 := List.countP_cons_of_pos (fills _ _)
  refine ⟨fun other => (role_taken g id node queue h other).trans (tallied.roles other),
    fun last found => ?_⟩
  · obtain ⟨before, was, ⟨-, rfl⟩ | ⟨other, -⟩⟩ := updateNode_cases found
    · have kept := tallied.tank before was
      refine ⟨kept.bound, kept.sound.addSlot nofun, kept.filled.push, ?_⟩
      unfold Graph.taken Graph.feed
      rw [pushes, ← kept.intake]
      exact Tank.push_intake ..
    · exact absurd rfl other

theorem released {node : Node Stock} (found : g.node? id = some node) :
    start.Tallied queue (g.updateNode id fun other => { other with tank := node.tank.release.2 }) := by
  refine tallied.refill _ fun _ other there kept => ?_
  obtain rfl := Option.some.inj (found.symm.trans there)
  have releases := node.tank.release_releases
  exact ⟨releases.sound kept.sound, releases.filled kept.filled, releases.intake⟩

theorem padded (relieved : g.Relieved queue) {node : Node Stock} (found : g.node? queue = some node) :
    start.Tallied queue (g.refill queue node.tank.pad) := by
  refine tallied.refill _ fun _ other there kept => ?_
  obtain rfl := Option.some.inj (found.symm.trans there)
  have full := Tank.pad_full (relieved node found)
  exact ⟨Tank.padBy_sound _ kept.sound, full.filled, node.tank.pad_intake⟩

end Tallied

end Graph

open Conduct (Follows)

def tally (start : Graph Stock) (queue : NodeId) : Conduct Stock where
  inv _ := start.Tallied queue
  bad _ := start.Tallied queue
  may _ _ := True
  slack id g := id = queue ∧ g.Active queue

section

variable {start : Graph Stock} {queue : NodeId}

theorem tally_steady : (tally start queue).Steady := by
  refine
    { outward := id
      may_stays _ _ := trivial
      store _ tallied := ⟨tallied.roles, tallied.tank⟩
      logged := fun {_ _ event} tallied logged => tallied.logged ?_
      failed tallied _ := tallied }
  cases event with
  | report _ => rfl
  | note _ => rfl
  | _ => cases logged

theorem tally_permits {id : NodeId} {s : Stock} (role : start.role id = some (.stage s.role))
    (g : Graph Stock) : (tally start queue).Permits id g
      (fun r => (∀ h, r ≠ .feed queue h) ∧ (id = queue → ∀ t, r ≠ .refill t))
      (fun t => t.role = s.role) fun _ => True := by
  refine ⟨fun {mid r} tallied _ ⟨feeds, refills⟩ => ?_, fun tallied _ same =>
    tallied.state (same ▸ role), fun tallied _ => tallied⟩
  cases r with
  | forward h edge => exact fun _ _ _ _ => trivial
  | post message => exact fun _ _ _ _ => trivial
  | refill t => exact tallied.refill t fun here => absurd rfl (refills here t)
  | feed target h =>
    refine tallied.update (fun _ _ => rfl) fun here => ?_
    subst here
    exact absurd rfl (feeds h)
  | shutdown => exact ⟨⟨tallied.roles, tallied.tank⟩, trivial⟩
  | _ => trivial

variable {again other : Call → Run Stock Unit} (serves : (tally start queue).Serves again other)
  {g : Graph Stock} {id : NodeId}
include serves

theorem tally_pours (tallied : start.Tallied queue g) {node : Node Stock}
    (found : g.node? queue = some node) (stage : node.kind = .stage .tankQueue) (h : Handle) :
    (tally start queue).Follows (Traffic.takeIn again queue h) (Traffic.takeIn other queue h) g
      fun _ after => start.Tallied queue after ∧ after.Relieved queue :=
  serves.pour found stage (tallied.taken fun _ _ => by simp [Event.fills]) trivial

theorem tally_accepts (held : start.role queue = some (.stage .tankQueue))
    (tallied : start.Tallied queue g) (active : g.Active id) (h : Handle) :
    (tally start queue).Follows (Traffic.takeIn again id h) (Traffic.takeIn other id h) g
      fun _ after => start.Tallied queue after := by
  have ⟨node, s, found, stage, _⟩ := active
  have role := (tallied.roles id).symm.trans (Graph.role_of_stage found stage)
  -- Three stages matter: a feeder of the tank, the queue itself, and the others, which leave it
  -- alone.
  by_cases fills : (s.feeds queue = true)
  next =>
    obtain rfl := Stock.feeds_iff.mp fills
    refine (Follows.fills found stage).mono fun _ after _ same => ?_
    rw [same]
    refine tallied.taken fun _ _ => ?_
    simp [Event.fills, Node.state?, stage, Stock.feeds]
  by_cases own : id = queue
  next =>
    subst own
    obtain rfl := Stock.role_tankQueue (NodeKind.stage.inj (Option.some.inj (role.symm.trans held)))
    exact (tally_pours serves tallied found stage h).mono fun _ _ _ done => done.1
  refine tally_steady.takeIn serves (tally_permits role g) tallied active h
    (fun {mid last} p tallied _ there => tallied.logged ?_) fun {mid last t} tallied there kind => ?_
  · have quiet : last.state?.any (Stock.feeds queue) = false := by
      cases state : last.state? with
      | none => rfl
      | some t =>
        have same : t.role = s.role :=
          Graph.stage_of_role there (Node.kind_of_state state) ((tallied.roles id).trans role)
        rw [Option.any_some, ← t.feeds_role, same, s.feeds_role]
        exact eq_false_of_ne_true fills
    simp [Event.fills, own, quiet]
  · have same : t.role = s.role :=
      Graph.stage_of_role there kind ((tallied.roles id).trans role)
    have asks {r : Request} (asks : Stock.Asks id s.role r) :
        (∀ h, r ≠ .feed queue h) ∧ (id = queue → ∀ t, r ≠ .refill t) := by
      refine ⟨fun h fed => ?_, fun here => absurd here own⟩
      subst fed
      rcases asks.fed with here | ⟨f, rfl, target⟩
      · exact own here.symm
      · exact fills (by simp [Stock.feeds, target])
    have plays := Stock.accept_plays (last.here id) t h
    rw [same] at plays
    exact ⟨trivial, plays.mono (fun _ => asks) (fun _ kept => kept) fun _ _ => trivial, trivial⟩

theorem tally_resizes (tallied : start.Tallied queue g) (active : g.Active queue) {node : Node Stock}
    (found : g.node? queue = some node) (stage : node.kind = .stage .tankQueue) (changed : List String) :
    (tally start queue).Follows (Traffic.reconfigure again queue changed)
      (Traffic.reconfigure other queue changed) g fun _ after => start.Tallied queue after := by
  have kept := tallied.tank node found
  obtain ⟨buffer, released⟩ := TankQueue.settings_buffer node.params node.tank
  generalize set : ((TankQueue.settings node.params).run node.tank).2 = tank at buffer released
  -- Only the capacity and the field are read anew: what the tank holds and has counted stays.
  have there : (g.refill queue tank).node? queue = some { node with tank } :=
    Graph.node?_updateNode_self found _
  have sound : tank.buffer.Sound := buffer ▸ kept.sound
  have intake : tank.intake = node.tank.intake := by
    simp only [Tank.intake, Tank.held, buffer, released]
  have resized (filled : tank.Filled) : start.Tallied queue (g.refill queue tank) :=
    tallied.refill tank fun _ other same _ => by
      obtain rfl := Option.some.inj (found.symm.trans same)
      exact ⟨sound, filled, intake⟩
  refine .resizes (fun after => ∀ last, after.node? queue = some last →
    start.Tallied queue (after.refill queue last.tank.pad)) found stage (fun e failed => ?_)
      (fun _ => ?_) fun after last report drained there => (drained last there).logged rfl
  · have same := TankQueue.settings_failed (kept.bound _ (by decide)) failed
    rw [set] at same ⊢
    exact resized (same ▸ kept.filled)
  · rw [set]
    -- Without excess nothing is drained and the tank is padded at once.
    cases excess : tank.popExcess with
    | none =>
      have relieved : (g.refill queue tank).Relieved queue := fun last same => by
        obtain rfl := Option.some.inj (there.symm.trans same)
        exact excess
      have padded : start.Tallied queue ((g.refill queue tank).refill queue tank.pad) := by
        unfold Graph.refill
        rw [Graph.updateNode_updateNode]
        refine tallied.refill tank.pad fun _ other same _ => ?_
        obtain rfl := Option.some.inj (found.symm.trans same)
        exact ⟨Tank.padBy_sound _ sound, (Tank.pad_full excess).filled, tank.pad_intake.trans intake⟩
      refine Run.Tracks.mono (serves.relieved ⟨rfl, active.stays (.refill g queue tank)⟩ relieved) ?_
      rintro _ _ ⟨rfl, rfl⟩
      refine ⟨.refl _, fun last same => ?_⟩
      obtain rfl := Option.some.inj (there.symm.trans same)
      exact padded
    | some popped =>
      have filled : tank.Filled := by
        obtain ⟨_, more, _⟩ := Tank.popExcess_some excess
        exact Int.le_of_lt more
      exact (serves.call (resized filled) trivial).mono fun _ after _ drained last there =>
        drained.1.padded drained.2 there

omit serves in
theorem tally_stage (tallied : start.Tallied queue g) {s : Stock}
    (role : start.role id = some (.stage s.role)) {node : Node Stock} {t : Stock}
    (found : g.node? id = some node) (stage : node.kind = .stage t) : t.role = s.role :=
  Graph.stage_of_role found stage ((tallied.roles id).trans role)

theorem tally_runs (tallied : start.Tallied queue g) (active : g.Active id) (apart : id ≠ queue)
    {program : Here → Node Stock → Stock → Program Stock Unit}
    (tends : ∀ node (s : Stock), s.Tends (program (node.here id) node s)) :
    (tally start queue).Follows (Traffic.runStage again id program) (Traffic.runStage other id program) g
      fun _ after => start.Tallied queue after := by
  have ⟨node, s, found, stage, _⟩ := active
  have role := (tallied.roles id).symm.trans (Graph.role_of_stage found stage)
  refine tally_steady.runStage serves (tally_permits role g) tallied active fun last t there kind => ?_
  have same := tally_stage tallied role there kind
  refine (tends last t).mono (fun r quiet => ⟨fun h fed => ?_, fun here => absurd here apart⟩)
    (fun _ kept => kept.trans same) fun _ _ => trivial
  subst fed
  cases quiet.1

theorem tally_opens (tallied : start.Tallied queue g) (active : g.Active id) (message : Message) :
    (tally start queue).Follows
      (Traffic.runStage again id fun here _ s => Stage.onMessage here s message)
      (Traffic.runStage other id fun here _ s => Stage.onMessage here s message) g
      fun _ after => start.Tallied queue after := by
  have ⟨node, s, found, stage, _⟩ := active
  have role := (tallied.roles id).symm.trans (Graph.role_of_stage found stage)
  refine tally_steady.runStage serves (tally_permits role g) tallied active fun last t there kind => ?_
  have same := tally_stage tallied role there kind
  exact (t.onMessage_asks _ message).mono (fun _ never => never.elim) (fun _ kept => kept.trans same)
    fun _ _ => trivial

theorem tally_flushes (held : start.role queue = some (.stage .tankQueue))
    (tallied : start.Tallied queue g) (active : g.Active id) :
    (tally start queue).Follows (Traffic.runStage again id fun here _ s => Stage.flush here s)
      (Traffic.runStage other id fun here _ s => Stage.flush here s) g
      fun _ after => start.Tallied queue after := by
  by_cases here : id = queue
  · subst here
    have ⟨node, s, found, stage, _⟩ := active
    obtain rfl := Stock.role_tankQueue (tally_stage (s := .tankQueue) tallied held found stage)
    -- A flush drains under a capacity of zero, which needs no padding to count as filled.
    refine (serves.empty found stage (tallied.refill _ fun _ other there kept => ?_) trivial).mono
      fun _ _ _ done => done.1
    obtain rfl := Option.some.inj (found.symm.trans there)
    exact ⟨kept.sound, Int.natCast_nonneg _, rfl⟩
  · exact tally_runs serves tallied active here fun _ s => s.flush_tends

end

theorem tally_lawful {start : Graph Stock} {queue : NodeId}
    (held : start.role queue = some (.stage .tankQueue)) : (tally start queue).Lawful := by
  have own {g : Graph Stock} {node : Node Stock} {s : Stock} (tallied : start.Tallied queue g)
      (found : g.node? queue = some node) (stage : node.kind = .stage s) : s = .tankQueue :=
    Stock.role_tankQueue (tally_stage (s := .tankQueue) tallied held found stage)
  exact
    { tally_steady with
      may_mark := fun _ => trivial
      refused := fun tallied => tallied.logged rfl
      turned := fun _ _ tallied => tallied.around fun _ => ⟨rfl, rfl, rfl⟩
      reentered := fun tallied _ _ => tallied
      bad_mark := fun _ tallied => tallied.around fun _ => ⟨rfl, rfl, rfl⟩
      bad_failed := fun _ _ tallied => tallied.logged rfl
      deferred := fun tallied _ _ _ => tallied.around fun _ => ⟨rfl, rfl, rfl⟩
      resumed := fun left _ =>
        have tallied := left.elim id fun ⟨_, bad⟩ => bad
        ⟨tallied.around fun _ => ⟨rfl, rfl, rfl⟩, trivial⟩
      outlasts := fun _ _ left => left.elim id fun ⟨_, bad⟩ => bad
      enter := fun {g id _ _ _ _} tallied _ _ _ _ other =>
        have marked : start.Tallied queue (g.mark id true) := tallied.around fun _ => ⟨rfl, rfl, rfl⟩
        marked.logged (Event.fills_began other)
      closing := fun {g id _ _} tallied _ _ _ _ =>
        have marked : start.Tallied queue (g.mark id true) := tallied.around fun _ => ⟨rfl, rfl, rfl⟩
        have turned : start.Tallied queue ((g.mark id true).turn id .flushing) :=
          marked.around fun _ => ⟨rfl, rfl, rfl⟩
        turned.logged rfl
      leave := fun tallied => tallied.around fun _ => ⟨rfl, rfl, rfl⟩
      called := fun tallied _ other => tallied.logged (Event.fills_began other)
      params := fun key value tallied => by
        refine tallied.update (fun _ _ => rfl) fun _ node _ kept => ?_
        refine ⟨fun other listed => ?_, kept.sound, kept.filled, kept.intake⟩
        exact (ParamTable.has_put_iff ..).mpr (.inr (kept.bound other listed))
      noticed := fun {g id node s} message tallied found stage => by
        refine tallied.state ((tallied.roles id).symm.trans ?_)
        rw [Graph.role_of_stage found stage]
        exact congrArg (some ∘ NodeKind.stage) ((s.obeys (node.here id)).notice message).symm
      accepts := fun h serves tallied active _ => tally_accepts serves held tallied active h
      reconfigures := fun {_ _ g id} changed serves tallied active => by
        by_cases here : id = queue
        · subst here
          have ⟨node, s, found, stage, _⟩ := active
          obtain rfl := own tallied found stage
          exact tally_resizes serves tallied active found stage changed
        · exact tally_runs serves tallied active here fun node s =>
            s.reconfigure_tends _ node.params changed
      opens := fun message serves tallied active => tally_opens serves tallied active message
      flushes := fun serves _ tallied active => tally_flushes serves held tallied active
      closes := fun {_ _ _ g id} serves _ tallied active => by
        have ⟨node, s, found, stage, _⟩ := active
        have role := (tallied.roles id).symm.trans (Graph.role_of_stage found stage)
        exact tally_steady.runStage serves (tally_permits role g) tallied active fun _ _ _ _ => trivial
      next := fun _ _ _ _ => trivial
      passes := fun _ _ _ => trivial
      ends := fun _ _ _ => trivial
      released := fun tallied _ found => ⟨tallied.released found, fun _ _ _ => trivial⟩ }

theorem tally_open {start : Graph Stock} {queue : NodeId} : (tally start queue).Open where
  may := trivial
  recovers := fun tallied => tallied
  environment := fun _ tallied => ⟨tallied.roles, tallied.tank⟩
  requested := fun tallied => ⟨tallied.roles, tallied.tank⟩
  relinked := by
    intro g source target tallied
    have linked (id : NodeId) : Graph.node? { g with nodes := Graph.linkMain source target g.nodes } id =
        (g.node? id).map fun node =>
          if id ∈ Graph.exitsBy g.nodes.size source g.nodes then { node with main := target } else node :=
      Graph.linkMainBy_getElem? g.nodes.size source id target g.nodes
    refine ⟨fun id => ?_, fun node found => ?_⟩
    · refine Eq.trans ?_ (tallied.roles id)
      unfold Graph.role
      rw [linked, Option.map_map]
      refine Option.map_congr fun node _ => ?_
      rw [Function.comp_apply]
      split <;> rfl
    · obtain ⟨before, main, was, rfl⟩ := Graph.linkMainBy_main _ found
      have kept := tallied.tank before was
      exact ⟨kept.bound, kept.sound, kept.filled, kept.intake⟩
  taken := by
    intro g node s sink tallied found stage sinks
    refine tallied.state ((tallied.roles _).symm.trans ?_)
    rw [Graph.role_of_stage found stage]
    cases s with
    | sink _ => rfl
    | _ => cases sinks

namespace Blueprint

theorem configureNode_queue {before node : Node Stock} (done : configureNode before = .ok node)
    (stage : node.kind = .stage .tankQueue) :
    ((TankQueue.configure before.params).run before.tank).1 = .ok () ∧
      node.tank = ((TankQueue.configure before.params).run before.tank).2 := by
  rcases configureNode_cases done with ⟨s, ⟨state, tank⟩, kind, ended, rfl⟩ | ⟨other, rfl⟩
  · have ended : (Stock.configure before.params).run ⟨s, before.tank⟩ = (.ok (), ⟨state, tank⟩) := ended
    have role := Stock.configure_role before.params s before.tank
    rw [ended] at role
    obtain rfl : state = .tankQueue := NodeKind.stage.inj stage
    obtain rfl := Stock.role_tankQueue role.symm
    obtain ⟨result, same⟩ := Prod.mk.inj (ended.symm.trans (Stock.configure_run before.params _ before.tank))
    exact ⟨result.symm, congrArg Fitted.tank same⟩
  · exact absurd stage (other _)

theorem configureNode_tallied {before node : Node Stock} (new : before.New)
    (done : configureNode before = .ok node) (stage : node.kind = .stage .tankQueue) :
    node.Tallied 0 := by
  have ⟨result, tank⟩ := configureNode_queue done stage
  rw [new.2] at result tank
  rw [TankQueue.configure_pads result] at tank
  have ⟨buffer, released⟩ := TankQueue.settings_buffer before.params .empty
  generalize ((TankQueue.settings before.params).run .empty).2 = set at buffer released tank
  have sound : set.buffer.Sound := buffer ▸ .empty
  have size : set.size = 0 := congrArg Buffer.size buffer
  have relieved : set.popExcess = none := Tank.popExcess_none_iff.mpr (by omega)
  have intake : set.intake = 0 := by
    simp only [Tank.intake, Tank.held, buffer, released]
    rfl
  refine ⟨(configureNode_suits done stage).reads, ?_, ?_, ?_⟩
  · exact tank ▸ Tank.padBy_sound _ sound
  · exact tank ▸ (Tank.pad_full relieved).filled
  · exact tank ▸ set.pad_intake.trans intake

end Blueprint

namespace Graph

theorem pushes_uncalled {history : List (Event Stock)} (uncalled : Uncalled history) (queue : NodeId) :
    history.countP (Event.fills queue) = 0 := by
  refine List.countP_eq_zero.mpr fun event listed => ?_
  have quiet := uncalled event listed
  cases event with
  | began _ _ _ => cases quiet
  | _ => exact Bool.false_ne_true

theorem build_tallied {b : Blueprint Stock} {g : Graph Stock} (built : b.build.1 = .ok g)
    {queue : NodeId} (held : g.Queue queue) : g.Tallied queue g := by
  obtain ⟨nodes, history, rfl, uncalled, configured⟩ := Blueprint.build_configured built
  refine ⟨fun _ => rfl, fun node found => ?_⟩
  obtain ⟨last, there, stage⟩ := held
  obtain rfl := Option.some.inj (found.symm.trans there)
  have none : (Graph.make nodes 0 b.environment history).pushes queue = 0 := pushes_uncalled uncalled queue
  rw [none]
  rcases Blueprint.node?_make_cases found with found | ⟨-, rfl⟩
  · obtain ⟨before, new, done⟩ := configured node (Array.mem_of_getElem? found)
    exact Blueprint.configureNode_tallied new done stage
  · cases stage

/-- All that was put into the tank there has left it or is held, and the tank is no less than full. -/
def Even (g : Graph Stock) (queue : NodeId) : Prop :=
  ∀ node, g.node? queue = some node → g.pushes queue = node.tank.released + node.tank.held ∧
    (0 ≤ node.tank.capacity → node.tank.capacity ≤ node.tank.size)

def Brimful (g : Graph Stock) (queue : NodeId) : Prop :=
  ∀ node, g.node? queue = some node → 0 ≤ node.tank.capacity → (node.tank.size : Int) = node.tank.capacity

/-- Around a call, the tank there is even unless its stage is active, and when the stage has accepted a
parcel it has just as many slots as its capacity. -/
structure Balances (queue : NodeId) (again : Call → Run Stock Unit) (call : Call) (g : Graph Stock) :
    Prop where
  before : g.Rests queue → g.Even queue
  after : (Traffic.step again call).Ends g fun _ after => after.Rests queue → after.Even queue
  accepts : ∀ h, call = .deliver queue (.parcel h) → g.Rests queue →
    (Run.holding queue (Traffic.accept again queue h)).Ends g fun result after =>
      result = .ok () → after.Brimful queue

/-- What a tank lets go is in one of its slots, and if that comes after the placeholders then more is
held than its capacity. -/
def HoldsBack (queue : NodeId) (_ : Call → Run Stock Unit) (call : Call) (g : Graph Stock) : Prop :=
  call = .drain queue → ∀ node h, g.node? queue = some node → node.tank.release.1 = some h →
    ∃ slot ∈ node.tank.buffer.slots, slot.item = some h ∧
      (Buffer.placeholderPriority.rank < slot.priority.rank → node.tank.capacity < node.tank.held)

section

variable {start g : Graph Stock} {queue : NodeId}

theorem Tallied.even (tallied : start.Tallied queue g) : g.Even queue := by
  intro node found
  have kept := tallied.tank node found
  exact ⟨kept.intake.symm, fun _ => kept.filled⟩

theorem Tallied.brimful (tallied : start.Tallied queue g) (relieved : g.Relieved queue) :
    g.Brimful queue :=
  fun node found => (tallied.tank node found).filled.full (relieved node found)

theorem tally_balances (held : start.role queue = some (.stage .tankQueue))
    {again other : Call → Run Stock Unit} {call : Call} (serves : (tally start queue).Serves again other)
    (tallied : start.Tallied queue g) : Balances queue other call g := by
  have lawful := tally_lawful held
  refine ⟨fun _ => tallied.even, ?_, fun h _ idle => ?_⟩
  · refine (lawful.step serves tallied trivial).other_ends.mono fun result after meets _ => ?_
    cases result with
    | ok _ => exact Tallied.even meets.2.1
    | error _ => exact Tallied.even meets.2
  · rw [Run.ends_holding]
    have marked : start.Tallied queue (g.mark queue true) := tallied.around fun _ => ⟨rfl, rfl, rfl⟩
    obtain ⟨node, found, stage⟩ := queue_of_role ((tallied.roles queue).trans held)
    have active : (g.mark queue true).Active queue := ⟨_, _, node?_mark found true, stage, rfl⟩
    have accepts : (tally start queue).Follows (Traffic.accept again queue h)
        (Traffic.accept other queue h) (g.mark queue true)
        fun _ after => start.Tallied queue after ∧ after.Relieved queue := by
      rw [Traffic.accept_eq, Traffic.accept_eq]
      refine (lawful.refresh serves (fun _ _ => marked.logged rfl) active).bind fun _ mid _ tallied => ?_
      obtain ⟨node, found, stage⟩ := queue_of_role ((tallied.roles queue).trans held)
      exact tally_pours serves tallied found stage h
    refine accepts.other_ends.mono fun result after meets done => ?_
    subst done
    have ⟨tallied, relieved⟩ := meets.2
    have returned : start.Tallied queue (after.mark queue false) := tallied.around fun _ => ⟨rfl, rfl, rfl⟩
    refine returned.brimful fun last there => ?_
    obtain ⟨before, was, ⟨-, rfl⟩ | ⟨-, rfl⟩⟩ := updateNode_cases there
    · exact relieved before was
    · exact relieved last was

theorem tally_holds_back (tallied : start.Tallied queue g) (other : Call → Run Stock Unit) (call : Call) :
    HoldsBack queue other call g := fun _ node _ found leaves =>
  node.tank.release_releases.holds_back (tallied.tank node found).sound leaves

theorem Leads.tallied (held : start.role queue = some (.stage .tankQueue)) (leads : start.Leads g)
    (tallied : start.Tallied queue start) : start.Tallied queue g := by
  induction leads with
  | refl => exact tallied
  | @operate mid after depth operation _ ran ih =>
    have lawful := tally_lawful held
    rw [operate_eq, ← Operation.via_perform] at ran
    obtain ⟨⟨result, last⟩, started, rfl⟩ := Option.map_eq_some_iff.mp ran
    exact (Conduct.Open.operation lawful.toSteady tally_open (lawful.serves depth) ih operation).2.of_start
      started

theorem audited_eq (held : start.role queue = some (.stage .tankQueue))
    {fits : (Call → Run Stock Unit) → Call → Graph Stock → Prop}
    (sound : ∀ {again other : Call → Run Stock Unit} {call g}, (tally start queue).Serves again other →
      start.Tallied queue g → fits other call g)
    (idle : ∀ {other : Call → Run Stock Unit} {g : Graph Stock}, g.Active queue → g.Relieved queue →
      fits other (.drain queue) g)
    (tallied : start.Tallied queue g) (depth : Nat) (operation : Operation) :
    (operation.audited fits depth).start g = (operation.run depth).start g := by
  have lawful := tally_lawful held
  have serves : (tally start queue).Serves (Traffic.perform depth) (Traffic.audited fits depth) := by
    refine lawful.audits (fun serves inv _ => sound serves inv) (fun slack relieved => ?_) depth
    obtain ⟨rfl, active⟩ := slack
    exact idle active relieved
  rw [← Operation.via_perform]
  exact (Conduct.Open.operation lawful.toSteady tally_open serves tallied operation).1.symm

end

section

variable {b : Blueprint Stock} {g before : Graph Stock} (built : b.build.1 = .ok g)
  (leads : g.Leads before) {queue : NodeId} (held : g.Queue queue)
include built leads held

theorem Leads.tallied_of_build : g.Tallied queue before :=
  leads.tallied held.role (build_tallied built held)

/-- In whatever has become of a graph, and all along while more is done with it, every parcel that was
ever put into the tank of a queue has left it or is held, and the tank is no less than full, unless its
own stage is active. Once the stage has accepted a parcel or was configured again, the tank has just as
many slots as its capacity. -/
theorem tanks_keep_count : before.Even queue ∧
    (∀ depth (operation : Operation), (operation.audited (Balances queue) depth).start before =
      (operation.run depth).start before) ∧
    ∀ (mid : Graph Stock) depth changed, mid.Queue queue →
      (Traffic.reconfigure (Traffic.perform depth) queue changed).Ends mid fun result after =>
        result = .ok () → after.Brimful queue := by
  have tallied := leads.tallied_of_build built held
  refine ⟨tallied.even, fun depth operation => ?_, fun mid depth changed queue => ?_⟩
  · refine audited_eq held.role (tally_balances held.role) (fun active relieved => ?_) tallied depth operation
    refine ⟨fun rests => absurd rests active.not_rests, ?_, nofun⟩
    unfold Run.Ends Traffic.step
    rw [Traffic.drain_relieved relieved]
    exact fun rests => absurd rests active.not_rests
  · refine (Traffic.reconfigure_fills (Traffic.drain_relieves depth _) queue changed).mono
      fun result after fills done => fills ⟨(), done⟩

end

def retaining : Blueprint Stock := line "wrap tank_queue:1 sink"

theorem retaining_keeps_count : ∃ g after node, retaining.build.1 = .ok g ∧
    (send 12 (.ofText "one")).start g = some (.ok (), after) ∧ after.node? 2 = some node ∧
      node.tank.capacity = 1 ∧ node.tank.held = 1 ∧ after.pushes 2 = 1 ∧ after.Even 2 ∧
        (∀ depth (operation : Operation), (operation.audited (Balances 2) depth).start after =
          (operation.run depth).start after) ∧
        ∀ (mid : Graph Stock) depth changed, mid.Queue 2 →
          (Traffic.reconfigure (Traffic.perform depth) 2 changed).Ends mid fun result after =>
            result = .ok () → after.Brimful 2 := by
  have runs : retaining.passes (fun g => ((send 12 (.ofText "one")).passes g fun result after =>
      result.isOk && g.hasQueue 2 && (after.node? 2).any fun node =>
        node.tank.capacity == 1 && node.tank.held == 1 && after.pushes 2 == 1)) = true := by
    decide +kernel
  obtain ⟨g, built, runs⟩ := Blueprint.of_passes runs
  obtain ⟨result, after, sent, runs⟩ := Run.of_passes runs
  simp only [Bool.and_eq_true] at runs
  obtain ⟨⟨ended, queue⟩, there⟩ := runs
  obtain ⟨node, found, there⟩ := (Option.any_eq_true _ _).mp there
  simp only [Bool.and_eq_true, beq_iff_eq] at there
  obtain ⟨⟨capacity, holds⟩, pushes⟩ := there
  cases result with
  | error e => cases ended
  | ok _ =>
    have ran : g.operate 12 (.act (.send (.ofText "one"))) = some after :=
      congrArg (Option.map Prod.snd) sent
    have leads : g.Leads after := .operate .refl ran
    exact ⟨g, after, node, built, sent, found, capacity, holds, pushes,
      tanks_keep_count built leads (hasQueue_iff.mp queue)⟩

/-- Whenever a parcel leaves the tank of a queue, it was held there, and if its priority comes after that
of the placeholders then more than the capacity was held. -/
theorem releases_hold_back {b : Blueprint Stock} {g before : Graph Stock} (built : b.build.1 = .ok g)
    (leads : g.Leads before) {queue : NodeId} (held : g.Queue queue) (depth : Nat) (operation : Operation) :
    (operation.audited (HoldsBack queue) depth).start before = (operation.run depth).start before := by
  have tallied := leads.tallied_of_build built held
  refine audited_eq held.role (fun _ tallied => tally_holds_back tallied _ _) (fun _ relieved => ?_) tallied
    depth operation
  intro _ node h found leaves
  rw [Tank.release_relieved (relieved node found)] at leaves
  cases leaves

def urgent : Parcel := { Parcel.ofText "one" with seq := some (-2000) }

theorem urgent_not_held_back : ∃ g after node, retaining.build.1 = .ok g ∧
    (send 12 urgent).start g = some (.ok (), after) ∧ after.node? 2 = some node ∧
      node.tank.capacity = 1 ∧ after.pushes 2 = 1 ∧ node.tank.released = 1 ∧ node.tank.held = 0 ∧
        ∀ depth (operation : Operation), (operation.audited (HoldsBack 2) depth).start after =
          (operation.run depth).start after := by
  have runs : retaining.passes (fun g => ((send 12 urgent).passes g fun result after =>
      result.isOk && g.hasQueue 2 && (after.node? 2).any fun node =>
        node.tank.capacity == 1 && after.pushes 2 == 1 && node.tank.released == 1 &&
          node.tank.held == 0)) = true := by decide +kernel
  obtain ⟨g, built, runs⟩ := Blueprint.of_passes runs
  obtain ⟨result, after, sent, runs⟩ := Run.of_passes runs
  simp only [Bool.and_eq_true] at runs
  obtain ⟨⟨ended, queue⟩, there⟩ := runs
  obtain ⟨node, found, there⟩ := (Option.any_eq_true _ _).mp there
  simp only [Bool.and_eq_true, beq_iff_eq] at there
  obtain ⟨⟨⟨capacity, pushes⟩, released⟩, holds⟩ := there
  cases result with
  | error e => cases ended
  | ok _ =>
    have ran : g.operate 12 (.act (.send urgent)) = some after := congrArg (Option.map Prod.snd) sent
    have leads : g.Leads after := .operate .refl ran
    exact ⟨g, after, node, built, sent, found, capacity, pushes, released, holds,
      releases_hold_back built leads (hasQueue_iff.mp queue)⟩

end Graph

end Sluice
