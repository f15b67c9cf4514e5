import Sluice.Proofs.Assembly.Trials
import Sluice.Proofs.Graph.Recovery
import Sluice.Proofs.Graph.TankLoads

set_option autoImplicit false

namespace Sluice

def Event.takes (id : NodeId) : Event Stock → Bool
  | .began other _ (.accept _ _) => other == id
  | _ => false

theorem Node.Leads.of_fixed {σ : Type} {before node : Node σ} {target : NodeId} (leads : node.Leads target)
    (fixed : node.fixed = before.fixed) : before.Leads target := by
  have entry (node : Node σ) : node.fixed.entry = node.entry := by
    cases stage : node.kind <;> simp only [Node.entry, Node.fixed, stage, NodeKind.shape]
  rcases leads with main | branch | inner
  · exact .inl ((Node.main_of_fixed fixed).symm.trans main)
  · exact .inr (.inl ((congrArg (fun node : Node Unit => node.branch) fixed).symm.trans branch))
  · rw [← entry, fixed, entry] at inner
    exact .inr (.inr inner)

theorem Event.takes_began {queue id : NodeId} {node : Node Stock} {hook : Hook}
    (other : hook.accepts = false) : (Event.began id node hook).takes queue = false := by
  cases hook with
  | accept _ _ => cases other
  | _ => rfl

namespace Graph

def accepted (g : Graph Stock) (id : NodeId) : Nat := g.history.countP (Event.takes id)

/-- Where parcels can come to while the queue is not active: from the root, and from other queues, as far
as to the queue. -/
inductive Beyond (g : Graph Stock) (queue : NodeId) : NodeId → Prop
  | root : g.Beyond queue g.root
  | other {id : NodeId} (held : g.Queue id) (apart : id ≠ queue) : g.Beyond queue id
  | next {id target : NodeId} {node : Node Stock} (before : g.Beyond queue id) (apart : id ≠ queue)
      (found : g.node? id = some node) (leads : node.Leads target) : g.Beyond queue target

/-- Parcels come to the feeders of the queue only while the queue is active. -/
def Encloses (g : Graph Stock) (queue : NodeId) : Prop :=
  ∀ id node, g.Beyond queue id → g.node? id = some node →
    node.kind ≠ .stage (.tankFeed ⟨some queue⟩)

def Laid (start g : Graph Stock) : Prop :=
  ∀ id, (g.node? id).map Node.fixed = (start.node? id).map Node.fixed

structure Kept (start g : Graph Stock) : Prop where
  fixed : start.Laid g
  roles : ∀ id, g.role id = start.role id
  settled : ∀ id node, g.node? id = some node → node.closeDeferred = false

def Due (start : Graph Stock) (queue : NodeId) (g : Graph Stock) : Prop :=
  start.Relieved queue ∨ start.accepted queue < g.accepted queue

structure Eased (start : Graph Stock) (queue : NodeId) (act : Option NodeId) (g : Graph Stock) :
    Prop where
  kept : start.Kept g
  eased : act = some queue ∨ g.Rests queue → start.Due queue g → g.Relieved queue

variable {start g after : Graph Stock} {queue id : NodeId} {act : Option NodeId}

namespace Laid

theorem stays (laid : start.Laid g) (stays : g.Stays after) : start.Laid after := by
  intro id
  refine Eq.trans ?_ (laid id)
  have same := stays.nodes id
  cases found : g.node? id with
  | none =>
    rw [found] at same
    rw [Option.map_eq_none_iff.mp same]
  | some before =>
    obtain ⟨node, there, stance⟩ := stays.node found
    rw [there]
    exact congrArg some (Node.fixed_of_stance stance)

theorem update (laid : start.Laid g) {f : Node Stock → Node Stock}
    (same : ∀ node, g.node? id = some node → (f node).fixed = node.fixed) :
    start.Laid (g.updateNode id f) :=
  fun other => (map_updateNode same other).trans (laid other)

theorem leads (laid : start.Laid g) {node : Node Stock} {target : NodeId}
    (beyond : start.Beyond queue id) (apart : id ≠ queue) (found : g.node? id = some node)
    (leads : node.Leads target) : start.Beyond queue target := by
  have same := laid id
  rw [found] at same
  obtain ⟨before, was, fixed⟩ := Option.map_eq_some_iff.mp same.symm
  exact beyond.next apart was (leads.of_fixed fixed.symm)

end Laid

namespace Kept

theorem update (kept : start.Kept g) {f : Node Stock → Node Stock}
    (same : ∀ node, g.node? id = some node → (f node).fixed = node.fixed ∧
      (f node).kind.role = node.kind.role ∧ (f node).closeDeferred = node.closeDeferred) :
    start.Kept (g.updateNode id f) := by
  refine ⟨kept.fixed.update fun node found => (same node found).1, fun other => ?_,
    fun other node found => ?_⟩
  · exact (role_updateNode (fun node found => (same node found).2.1) other).trans (kept.roles other)
  · obtain ⟨before, was, ⟨rfl, rfl⟩ | ⟨-, rfl⟩⟩ := updateNode_cases found
    · exact (same before was).2.2.trans (kept.settled _ before was)
    · exact kept.settled _ node was

theorem around (kept : start.Kept g) {f : Node Stock → Node Stock}
    (same : ∀ node, (f node).fixed = node.fixed ∧ (f node).kind = node.kind ∧
      (f node).closeDeferred = node.closeDeferred) : start.Kept (g.updateNode id f) :=
  kept.update fun node _ => ⟨(same node).1, congrArg NodeKind.role (same node).2.1, (same node).2.2⟩

theorem state (kept : start.Kept g) {t : Stock} (role : start.role id = some (.stage t.role)) :
    start.Kept (g.updateNode id fun node => { node with kind := .stage t }) := by
  refine kept.update fun node found => ?_
  have same := (kept.roles id).trans role
  rw [Graph.role, found] at same
  have roles : node.kind.role = .stage t.role := Option.some.inj same
  refine ⟨?_, roles.symm, rfl⟩
  cases stage : node.kind with
  | stage s => simp only [Node.fixed, stage, NodeKind.shape]
  | _ =>
    rw [stage] at roles
    cases roles

theorem taken (kept : start.Kept g) (node : Node Stock) (h : Handle) :
    start.Kept (g.taken id node queue h) := by
  have began : start.Kept (g.remember (.began id node (.accept h (g.store.read h)))) :=
    ⟨kept.fixed, kept.roles, kept.settled⟩
  exact began.around fun _ => ⟨rfl, rfl, rfl⟩

end Kept

theorem accepted_remember {event : Event Stock} (other : event.takes queue = false) :
    (g.remember event).accepted queue = g.accepted queue := by
  unfold accepted remember
  rw [List.countP_cons_of_neg (by simp [other])]

theorem rests_updateNode {f : Node Stock → Node Stock}
    (same : id = queue → ∀ node, (f node).busy = node.busy) (rests : (g.updateNode id f).Rests queue) :
    g.Rests queue := by
  intro node found
  have there := node?_updateNode g id queue f
  split at there
  next here =>
    subst here
    rw [found] at there
    exact (same rfl node).symm.trans (rests (f node) there)
  next => exact rests node (there.trans found)

namespace Eased

variable (eased : start.Eased queue act g)
include eased

theorem moved {act' : Option NodeId} (kept : start.Kept after)
    (rests : act' = some queue ∨ after.Rests queue → act = some queue ∨ g.Rests queue)
    (accepted : after.accepted queue = g.accepted queue)
    (tank : ∀ node, after.node? queue = some node → ∃ before, g.node? queue = some before ∧
      node.tank = before.tank) : start.Eased queue act' after := by
  refine ⟨kept, fun idle due node found => ?_⟩
  rw [Due, accepted] at due
  obtain ⟨before, was, same⟩ := tank node found
  rw [same]
  exact eased.eased (rests idle) due before was

theorem logged {event : Event Stock} (quiet : event.takes queue = false) :
    start.Eased queue act (g.remember event) :=
  eased.moved ⟨eased.kept.fixed, eased.kept.roles, eased.kept.settled⟩ id (accepted_remember quiet)
    fun node found => ⟨node, found, rfl⟩

theorem turned {act' : Option NodeId} {f : Node Stock → Node Stock}
    (kept : start.Kept (g.updateNode id f)) (tank : id = queue → ∀ node, (f node).tank = node.tank)
    (rests : act' = some queue ∨ (g.updateNode id f).Rests queue → act = some queue ∨ g.Rests queue) :
    start.Eased queue act' (g.updateNode id f) := by
  refine eased.moved kept rests rfl fun node found => ?_
  obtain ⟨before, was, ⟨here, rfl⟩ | ⟨-, rfl⟩⟩ := updateNode_cases found
  · exact ⟨before, was, tank here before⟩
  · exact ⟨node, was, rfl⟩

theorem update {f : Node Stock → Node Stock} (kept : start.Kept (g.updateNode id f))
    (same : id = queue → ∀ node, (f node).busy = node.busy ∧ (f node).tank = node.tank) :
    start.Eased queue act (g.updateNode id f) :=
  eased.turned kept (fun here node => (same here node).2) fun idle =>
    idle.imp_right (rests_updateNode fun here node => (same here node).1)

theorem outward : start.Eased queue none g :=
  ⟨eased.kept, fun rests => eased.eased (.inr (rests.resolve_left nofun))⟩

theorem inward (apart : id ≠ queue) : start.Eased queue (some id) g :=
  ⟨eased.kept, fun rests => eased.eased (.inr (rests.resolve_left fun same => apart (Option.some.inj same)))⟩

omit eased in
theorem busy (kept : start.Kept after) (active : after.Active queue) : start.Eased queue none after :=
  ⟨kept, fun rests => absurd (rests.resolve_left nofun) active.not_rests⟩

omit eased in
theorem entered {node : Node Stock} (eased : start.Eased queue none g)
    (found : g.node? id = some node) (idle : node.busy = false) :
    start.Eased queue (some id) (g.mark id true) := by
  -- A call that enters the queue itself finds it at rest; any other leaves what was known.
  refine eased.turned (eased.kept.around fun _ => ⟨rfl, rfl, rfl⟩) (fun _ _ => rfl) fun rests => .inr ?_
  by_cases here : id = queue
  · subst here
    exact fun last there => Option.some.inj (found.symm.trans there) ▸ idle
  · have rests := rests.resolve_left fun same => here (Option.some.inj same)
    exact Graph.rests_updateNode (fun same => absurd same here) rests

omit eased in
theorem left (eased : start.Eased queue (some id) g) : start.Eased queue none (g.mark id false) := by
  refine eased.turned (eased.kept.around fun _ => ⟨rfl, rfl, rfl⟩) (fun _ _ => rfl) fun rests => ?_
  by_cases here : id = queue
  · exact .inl (congrArg some here)
  · exact .inr (Graph.rests_updateNode (fun same => absurd same here) (rests.resolve_left nofun))

end Eased

end Graph

def relief (start : Graph Stock) (queue : NodeId) : Conduct Stock where
  inv := start.Eased queue
  bad _ := start.Kept
  may
    | .deliver id (.parcel _), g => start.Laid g ∧ (g.Active queue ∨ start.Beyond queue id)
    | .deliver _ (.message _), g => start.Laid g
    | .drain id, g => start.Laid g ∧ (g.Active queue ∨ start.Beyond queue id ∧ id ≠ queue)
    | .close _, _ => False
  slack _ _ := False

open Conduct (Follows)

section

variable {start : Graph Stock} {queue : NodeId}

def Graph.Onward (start : Graph Stock) (queue id : NodeId) (g : Graph Stock) : Prop :=
  g.Active queue ∨ start.Beyond queue id

theorem relief_steady : (relief start queue).Steady := by
  refine
    { outward eased := eased.outward
      may_stays := fun {call g after} may stays => ?_
      store store eased := ⟨⟨eased.kept.fixed, eased.kept.roles, eased.kept.settled⟩, eased.eased⟩
      logged := fun {_ _ event} eased logged => eased.logged ?_
      failed eased _ := eased.kept }
  · cases call with
    | deliver id packet =>
      cases packet with
      | parcel h => exact ⟨may.1.stays stays, may.2.imp_left fun active => active.stays stays⟩
      | message m => exact may.stays stays
    | drain id => exact ⟨may.1.stays stays, may.2.imp_left fun active => active.stays stays⟩
    | close id => exact may
  · cases event with
    | report _ => rfl
    | note _ => rfl
    | _ => cases logged

structure Graph.Asking (start : Graph Stock) (queue id : NodeId) (g : Graph Stock) (r : Request) : Prop where
  feeds : ∀ h, r = .feed queue h → g.Active queue
  shuts : r ≠ .shutdown
  sends : ∀ h edge, r = .forward h edge → start.Onward queue id g
  drains : r = .drain → start.Onward queue id g

theorem relief_permits {id : NodeId} (apart : id ≠ queue) {s : Stock}
    (role : start.role id = some (.stage s.role)) (g : Graph Stock) :
    (relief start queue).Permits id g (start.Asking queue id g) (fun t => t.role = s.role)
      fun _ => True := by
  refine ⟨fun {mid r} eased stays asks => ?_, fun eased _ same =>
    eased.update (eased.kept.state (same ▸ role)) fun here => absurd here apart, fun eased _ => eased.kept⟩
  cases r with
  | forward h edge =>
    refine fun node target found main => ⟨eased.kept.fixed, ?_⟩
    rcases asks.sends h edge rfl with active | beyond
    · exact .inl (active.stays stays)
    · exact .inr (eased.kept.fixed.leads beyond apart found (.inl main))
  | post message => exact fun _ _ _ _ => eased.kept.fixed
  | refill t => exact eased.update (eased.kept.around fun _ => ⟨rfl, rfl, rfl⟩) fun here => absurd here apart
  | drain =>
    exact ⟨eased.kept.fixed, (asks.drains rfl).imp (fun active => active.stays stays) fun beyond =>
      ⟨beyond, apart⟩⟩
  | feed target h =>
    have kept : start.Kept (mid.feed target h (mid.store.read h)) :=
      eased.kept.around fun _ => ⟨rfl, rfl, rfl⟩
    by_cases here : target = queue
    · subst here
      exact .busy kept (((asks.feeds h rfl).stays stays).stays (.feed mid target h _))
    · exact eased.update kept fun same => absurd same here
  | shutdown => exact absurd rfl asks.shuts
  | _ => trivial

variable {again other : Call → Run Stock Unit} (serves : (relief start queue).Serves again other)
  {g : Graph Stock} {id : NodeId}
include serves

theorem relief_pours (eased : start.Eased queue (some queue) g) (active : g.Active queue)
    {node : Node Stock} (found : g.node? queue = some node) (stage : node.kind = .stage .tankQueue)
    (h : Handle) :
    (relief start queue).Follows (Traffic.takeIn again queue h) (Traffic.takeIn other queue h) g
      fun _ after => start.Eased queue (some queue) after := by
  have kept : start.Kept (g.taken queue node queue h) := eased.kept.taken node h
  have active := active.stays (.taken g queue node queue h)
  refine (serves.pour found stage (.busy kept active) ⟨kept.fixed, .inl active⟩).mono
    fun _ after _ ⟨eased, relieved⟩ => ⟨eased.kept, fun _ _ => relieved⟩

theorem relief_accepts (encloses : start.Encloses queue) (apart : id ≠ queue)
    (eased : start.Eased queue none g) (active : g.Active id)
    {h : Handle} (onward : start.Onward queue id g) :
    (relief start queue).Follows (Traffic.takeIn again id h) (Traffic.takeIn other id h) g
      fun _ after => start.Eased queue none after := by
  have ⟨node, s, found, stage, _⟩ := active
  have role := (eased.kept.roles id).symm.trans (Graph.role_of_stage found stage)
  refine relief_steady.takeIn serves (relief_permits apart role g) eased active h
    (fun {mid last} p eased _ there => eased.logged ?_) fun {mid last t} eased there kind => ?_
  · exact beq_false_of_ne apart
  · have same : t.role = s.role := Graph.stage_of_role there kind ((eased.kept.roles id).trans role)
    have asks {r : Request} (asks : Stock.Asks id s.role r) : start.Asking queue id g r := by
      refine ⟨fun h fed => ?_, fun shuts => ?_, fun _ _ _ => onward, fun _ => onward⟩
      · subst fed
        obtain ⟨f, rfl, target⟩ := asks.fed.resolve_left fun here => apart here.symm
        refine onward.resolve_right fun beyond => ?_
        obtain ⟨first, t, there, kind, same⟩ := Graph.stage_at_role role
        obtain rfl := Stock.role_tankFeed same
        obtain ⟨_⟩ := f
        obtain rfl := target
        exact encloses id first beyond there kind
      · subst shuts
        cases s <;> cases asks
    have plays := Stock.accept_plays (last.here id) t h
    rw [same] at plays
    exact ⟨trivial, plays.mono (fun _ => asks) (fun _ kept => kept) fun _ _ => trivial, trivial⟩

theorem relief_resizes (eased : start.Eased queue (some queue) g) (active : g.Active queue)
    {node : Node Stock} (found : g.node? queue = some node) (stage : node.kind = .stage .tankQueue)
    (changed : List String) :
    (relief start queue).Follows (Traffic.reconfigure again queue changed)
      (Traffic.reconfigure other queue changed) g fun _ after => start.Eased queue (some queue) after := by
  have refilled {mid : Graph Stock} (kept : start.Kept mid) (tank : Tank) :
      start.Kept (mid.refill queue tank) := kept.around fun _ => ⟨rfl, rfl, rfl⟩
  refine .resizes (fun after => start.Kept after ∧ after.Relieved queue) found stage
    (fun _ _ => refilled eased.kept _) (fun _ => ?_) fun after last report ⟨kept, relieved⟩ there => ?_
  · have kept := refilled eased.kept ((TankQueue.settings node.params).run node.tank).2
    have active := active.stays (.refill g queue ((TankQueue.settings node.params).run node.tank).2)
    have may : (relief start queue).may (.drain queue) (g.refill queue _) := ⟨kept.fixed, .inl active⟩
    exact (serves.call (.busy kept active) may).mono
      fun _ after _ ⟨eased, relieved⟩ => ⟨eased.kept, relieved⟩
  · have kept := refilled kept last.tank.pad
    refine ⟨⟨kept.fixed, kept.roles, kept.settled⟩, fun _ _ node found => ?_⟩
    obtain ⟨before, _, ⟨-, rfl⟩ | ⟨apart, -⟩⟩ := Graph.updateNode_cases found
    · exact (Tank.pad_full (relieved last there)).relieved
    · exact absurd rfl apart

theorem relief_tends (apart : id ≠ queue) (eased : start.Eased queue none g) (active : g.Active id)
    {program : Here → Node Stock → Stock → Program Stock Unit}
    (tends : ∀ node (s : Stock), s.Tends (program (node.here id) node s)) :
    (relief start queue).Follows (Traffic.runStage again id program) (Traffic.runStage other id program) g
      fun _ after => start.Eased queue none after := by
  have ⟨node, s, found, stage, _⟩ := active
  have role := (eased.kept.roles id).symm.trans (Graph.role_of_stage found stage)
  refine relief_steady.runStage serves (relief_permits apart role g) eased active fun last t there kind => ?_
  have same : t.role = s.role := Graph.stage_of_role there kind ((eased.kept.roles id).trans role)
  refine (tends last t).mono (fun r quiet => ⟨fun h fed => ?_, fun shuts => ?_, fun h edge sent => ?_,
    fun drains => ?_⟩) (fun _ kept => kept.trans same) fun _ _ => trivial
  · rw [fed] at quiet
    cases quiet.1
  · rw [shuts] at quiet
    cases quiet.1
  · rw [sent] at quiet
    cases quiet.1
  · obtain rfl := quiet.2 drains
    rw [← same] at role
    exact .inr (.other (Graph.queue_of_role role) apart)

theorem relief_opens (held : start.Queue queue) (eased : start.Eased queue (some id) g)
    (active : g.Active id) (message : Message) :
    (relief start queue).Follows
      (Traffic.runStage again id fun here _ s => Stage.onMessage here s message)
      (Traffic.runStage other id fun here _ s => Stage.onMessage here s message) g
      fun _ after => start.Eased queue (some id) after := by
  have ⟨node, s, found, stage, _⟩ := active
  have role := (eased.kept.roles id).symm.trans (Graph.role_of_stage found stage)
  by_cases here : id = queue
  · subst here
    obtain rfl := Stock.role_tankQueue (Graph.stage_of_role found stage ((eased.kept.roles id).trans held.role))
    exact .called found stage (.throw eased.kept)
  · refine (relief_steady.runStage serves (relief_permits here role g) eased.outward active
      fun last t there kind => ?_).mono fun _ _ _ eased => eased.inward here
    have same : t.role = s.role := Graph.stage_of_role there kind ((eased.kept.roles id).trans role)
    exact (t.onMessage_asks _ message).mono (fun _ never => never.elim)
      (fun _ kept => kept.trans same) fun _ _ => trivial

omit serves in
theorem relief_leads (held : start.Queue queue) {node : Node Stock} {target : NodeId}
    {packet : Packet} (may : (relief start queue).may (.deliver id packet) g)
    (found : g.node? id = some node) (apart : ∀ s, node.kind ≠ .stage s) (leads : node.Leads target) :
    (relief start queue).may (.deliver target packet) g := by
  cases packet with
  | message m => exact may
  | parcel h =>
    -- A node that is not a stage is not the queue, so what it leads to lies beyond the queue too.
    refine ⟨may.1, may.2.imp_right fun beyond => may.1.leads beyond (fun here => ?_) found leads⟩
    subst here
    obtain ⟨first, was, stage⟩ := held
    have same := may.1 id
    rw [found, was] at same
    obtain ⟨s, kind⟩ := Node.stage_of_fixed (Option.some.inj same) stage
    exact apart s kind

omit serves in
theorem relief_released {node : Node Stock} (eased : start.Eased queue none g)
    (may : (relief start queue).may (.drain id) g) (found : g.node? id = some node) :
    start.Eased queue none (g.refill id node.tank.release.2) ∧
      ∀ h target, node.main = some target → (relief start queue).may (.deliver target (.parcel h)) g := by
  have kept : start.Kept (g.refill id node.tank.release.2) :=
    eased.kept.around fun _ => ⟨rfl, rfl, rfl⟩
  rcases may.2 with active | ⟨beyond, apart⟩
  · have later := active.stays (.refill g id node.tank.release.2)
    exact ⟨.busy kept later, fun h target _ => ⟨may.1, .inl active⟩⟩
  · refine ⟨eased.update kept fun here => absurd here apart, fun h target main => ?_⟩
    exact ⟨may.1, .inr (may.1.leads beyond apart found (.inl main))⟩

omit serves in
theorem relief_lawful (held : start.Queue queue) (encloses : start.Encloses queue) :
    (relief start queue).Lawful := by
  have own {g : Graph Stock} {node : Node Stock} {s : Stock} (kept : start.Kept g)
      (found : g.node? queue = some node) (stage : node.kind = .stage s) : s = .tankQueue :=
    Stock.role_tankQueue (Graph.stage_of_role found stage ((kept.roles queue).trans held.role))
  have left {g : Graph Stock} (left : start.Eased queue none g ∨ ∃ _ : EngineError, start.Kept g) :
      start.Kept g := left.elim (fun eased => eased.kept) fun ⟨_, kept⟩ => kept
  exact
    { relief_steady with
      may_mark := fun {id packet g} may => by
        have laid {g : Graph Stock} (laid : start.Laid g) : start.Laid (g.mark id true) :=
          laid.update fun _ _ => rfl
        cases packet with
        | parcel h => exact ⟨laid may.1, may.2.imp_left fun active => active.mark id⟩
        | message m => exact laid may
      refused := fun eased => eased.logged rfl
      turned := fun {_ g} id phase eased =>
        eased.update (eased.kept.around fun _ => ⟨rfl, rfl, rfl⟩) fun _ _ => ⟨rfl, rfl⟩
      reentered := fun eased _ _ => eased.kept
      bad_mark := fun _ kept => kept.around fun _ => ⟨rfl, rfl, rfl⟩
      bad_failed := fun _ _ kept => ⟨kept.fixed, kept.roles, kept.settled⟩
      deferred := fun _ may => may.elim
      resumed := fun ended late => by
        obtain ⟨node, found, late⟩ := (Option.any_eq_true _ _).mp late
        rw [(left ended).settled _ node found] at late
        cases late
      outlasts := fun _ _ ended => left ended
      enter := fun eased _ found _ idle other => (eased.entered found idle).logged (Event.takes_began other)
      closing := fun _ may => may.elim
      leave := fun eased => eased.left
      called := fun eased _ other => eased.logged (Event.takes_began other)
      params := fun {g id} key value eased =>
        eased.update (eased.kept.around fun _ => ⟨rfl, rfl, rfl⟩) fun _ _ => ⟨rfl, rfl⟩
      noticed := fun {g id node s} message eased found stage => by
        refine eased.update (eased.kept.state ((eased.kept.roles id).symm.trans ?_)) fun _ _ => ⟨rfl, rfl⟩
        rw [Graph.role_of_stage found stage]
        exact congrArg (some ∘ NodeKind.stage) ((s.obeys (node.here id)).notice message).symm
      accepts := fun {_ _ g id} h serves eased active may => by
        -- The queue drains its own tank; every other stage works further down, with the queue still
        -- closed off.
        by_cases here : id = queue
        · subst here
          have ⟨node, s, found, stage, _⟩ := active
          obtain rfl := own eased.kept found stage
          exact relief_pours serves eased active found stage h
        · exact (relief_accepts serves encloses here eased.outward active may.2).mono
            fun _ _ _ eased => eased.inward here
      reconfigures := fun {_ _ g id} changed serves eased active => by
        by_cases here : id = queue
        · subst here
          have ⟨node, s, found, stage, _⟩ := active
          obtain rfl := own eased.kept found stage
          exact relief_resizes serves eased active found stage changed
        · exact (relief_tends serves here eased.outward active fun node s =>
            s.reconfigure_tends _ node.params changed).mono fun _ _ _ eased => eased.inward here
      opens := fun message serves eased active => relief_opens serves held eased active message
      flushes := fun _ may => may.elim
      closes := fun _ may => may.elim
      next := fun may found apart leads => relief_leads held may found apart leads
      passes := fun may _ _ => may
      ends := fun may => may.elim
      released := fun eased may found => relief_released eased may found }

end

namespace Graph

def FeedsActive (queue : NodeId) (_ : Call → Run Stock Unit) (call : Call) (g : Graph Stock) : Prop :=
  ∀ id node h, call = .deliver id (.parcel h) → g.node? id = some node →
    node.kind = .stage (.tankFeed ⟨some queue⟩) → g.Active queue

section

variable {start : Graph Stock} {queue : NodeId}

theorem relief_feeds (encloses : start.Encloses queue) {call : Call} {g : Graph Stock}
    (eased : start.Eased queue none g) (may : (relief start queue).may call g)
    (again : Call → Run Stock Unit) : FeedsActive queue again call g := by
  rintro id node h rfl found stage
  refine may.2.resolve_right fun beyond => ?_
  have role := (eased.kept.roles id).symm.trans (role_of_stage found stage)
  obtain ⟨first, s, there, kind, same⟩ := stage_at_role role
  obtain rfl := Stock.role_tankFeed same
  exact encloses id first beyond there kind

theorem Resting.eased (resting : start.Resting) : start.Eased queue none start := by
  refine ⟨⟨fun _ => rfl, fun _ => rfl, fun id node found => (resting.idle id node found).2⟩, fun _ due => ?_⟩
  exact due.resolve_right (Nat.lt_irrefl _)

theorem relief_sends {again other : Call → Run Stock Unit}
    (serves : (relief start queue).Serves again other) (resting : start.Resting) (p : Parcel) :
    (relief start queue).Follows (sendBy again p) (sendBy other p) start
      fun _ after => start.Eased queue none after := by
  refine (relief_steady.add resting.eased p).bind fun h mid stays eased => .reading ?_
  have may : (relief start queue).may (.deliver mid.root (.parcel h)) mid :=
    ⟨eased.kept.fixed, .inr (stays.root ▸ .root)⟩
  exact (serves.call eased may).mono fun _ _ _ done => done.1

/-- As long as parcels come to the feeders of a queue through the queue alone, they come there only while
it is active. So when a parcel has been sent in without an error, nothing is in excess in the tank of the
queue, unless something was before and the queue has accepted nothing since. -/
theorem fed_parcels_drain {b : Blueprint Stock} {g before : Graph Stock} (built : b.build.1 = .ok g)
    (leads : g.Leads before) (held : before.Queue queue) (encloses : before.Encloses queue) (depth : Nat)
    (p : Parcel) : (sendBy (Traffic.audited (FeedsActive queue) depth) p).start before =
        (send depth p).start before ∧
      ∀ after, (send depth p).start before = some (.ok (), after) →
        before.Relieved queue ∨ before.accepted queue < after.accepted queue →
          ∀ node, after.node? queue = some node → 0 ≤ node.tank.capacity →
            (node.tank.size : Int) ≤ node.tank.capacity := by
  have lawful := relief_lawful held encloses
  have resting := (leads.rested (Blueprint.build_resting built)).1
  have serves : (relief before queue).Serves (Traffic.perform depth)
      (Traffic.audited (FeedsActive queue) depth) :=
    lawful.audits (fun _ eased may => relief_feeds encloses eased may _) (fun slack => slack.elim) depth
  refine ⟨(relief_sends serves resting p).1.symm, fun after sent due node found bounded => ?_⟩
  -- Nothing is under way after the send, so the queue is at rest and its last drain emptied the
  -- excess.
  have ⟨stays, eased⟩ := (relief_sends (lawful.serves depth) resting p).2.of_start sent
  have rests : after.Rests queue := fun last there => by
    obtain ⟨first, was, same⟩ := stays.node_before there
    exact (Node.busy_of_stance same).trans (resting.idle queue first was).1
  have relieved := eased.eased (.inr rests) due node found
  exact (Tank.popExcess_none_iff.mp relieved).resolve_left (Int.not_lt.mpr bounded)

end

def confines (g : Graph Stock) (queue : NodeId) (region : List NodeId) : Bool :=
  region.contains g.root &&
    (List.range g.nodes.size).all (fun id => id == queue || !g.hasQueue id || region.contains id) &&
    region.all fun id => (g.node? id).all fun node =>
      !node.state?.any (Stock.feeds queue) && (id == queue ||
        (node.main.toList ++ node.branch.toList ++ node.entry.toList).all region.contains)

theorem encloses_of_confines {g : Graph Stock} {queue : NodeId} {region : List NodeId}
    (confines : g.confines queue region = true) : g.Encloses queue := by
  simp only [Graph.confines, Bool.and_eq_true, List.contains_iff_mem, List.all_eq_true, Bool.or_eq_true,
    beq_iff_eq, Bool.not_eq_true', Option.all_eq_true] at confines
  obtain ⟨⟨root, queues⟩, closed⟩ := confines
  have within {id : NodeId} (beyond : g.Beyond queue id) : id ∈ region := by
    -- The region is closed under every way on but the queue's, so it holds what is reached past it.
    induction beyond with
    | root => exact root
    | @other id held apart =>
      have inside : id < g.nodes.size := by
        obtain ⟨node, found, -⟩ := held
        exact (Array.getElem?_eq_some_iff.mp found).1
      rcases queues id (List.mem_range.mpr inside) with (here | none) | inside
      · exact absurd here apart
      · rw [hasQueue_iff.mpr held] at none
        cases none
      · exact inside
    | @next id target node _ apart found leads ih =>
      have inside := ((closed id ih node found).2.resolve_left apart) target
      refine inside ?_
      rcases leads with main | branch | entry
      · simp [main]
      · simp [branch]
      · simp [entry]
  intro id node beyond found stage
  have none := (closed id (within beyond) node found).1
  simp [Node.state?, stage, Stock.feeds] at none

def recursing : Blueprint Stock :=
  line "tank_queue:0 factorial_calc branch_if:recurse (tank_feed tank_queue) sink"

def asking (x : Int) : Parcel := { Parcel.empty with attrs := [("x", .int x)] }

theorem recursing_drains : ∃ g after node, recursing.build.1 = .ok g ∧ g.Queue 1 ∧ g.Encloses 1 ∧
    (send 40 (asking 3)).start g = some (.ok (), after) ∧ after.node? 1 = some node ∧
      node.tank.released = 3 ∧ (node.tank.size : Int) ≤ node.tank.capacity := by
  have runs : recursing.passes (fun g => g.hasQueue 1 && g.confines 1 [0, 1] &&
      ((send 40 (asking 3)).passes g fun result after => result.isOk && (after.node? 1).any fun node =>
        g.accepted 1 == 0 && after.accepted 1 == 1 && node.tank.released == 3 &&
          node.tank.capacity == 0)) = true := by decide +kernel
  obtain ⟨g, built, runs⟩ := Blueprint.of_passes runs
  simp only [Bool.and_eq_true] at runs
  obtain ⟨⟨queue, confined⟩, runs⟩ := runs
  obtain ⟨result, after, sent, runs⟩ := Run.of_passes runs
  simp only [Bool.and_eq_true] at runs
  obtain ⟨ended, there⟩ := runs
  obtain ⟨node, found, there⟩ := (Option.any_eq_true _ _).mp there
  simp only [Bool.and_eq_true, beq_iff_eq] at there
  obtain ⟨⟨⟨none, accepted⟩, released⟩, capacity⟩ := there
  have held := hasQueue_iff.mp queue
  have encloses := encloses_of_confines confined
  cases result with
  | error e => cases ended
  | ok _ =>
    have drained := (fed_parcels_drain built .refl held encloses 40 (asking 3)).2 after sent
      (.inr (by omega)) node found (Int.le_of_eq capacity.symm)
    exact ⟨g, after, node, built, held, encloses, sent, found, released, drained⟩

end Graph

end Sluice
