import Sluice.Proofs.Graph.Calm
import Sluice.Proofs.Graph.Operations

set_option autoImplicit false

namespace Sluice

variable {σ α : Type}

def Call.node : Call → NodeId
  | .deliver id _ => id
  | .close id => id
  | .drain id => id

def Node.Leads (node : Node σ) (target : NodeId) : Prop :=
  node.main = some target ∨ node.branch = some target ∨ node.entry = some target

structure Node.Around (before node : Node σ) : Prop where
  kind : node.kind = before.kind
  main : node.main = before.main
  branch : node.branch = before.branch

theorem Node.Leads.of_around {before node : Node σ} {target : NodeId} (leads : node.Leads target)
    (around : before.Around node) : before.Leads target := by
  rwa [Leads, entry, around.kind, around.main, around.branch] at leads

structure Node.Retains (before node : Node σ) : Prop where
  declared : node.declared = before.declared
  dynamic : node.dynamic = before.dynamic

def Graph.reads {β : Type} (read : σ → β) (g : Graph σ) (id : NodeId) : Option β :=
  ((g.node? id).bind Node.state?).map read

namespace Traffic

open Run (Keeps)

section

variable [Stage σ]

/-- Shows a message to the stage at a node; the answer is whether it ends there. -/
def meet (again : Call → Run σ Unit) (id : NodeId) (node : Node σ) (m : Message) : Run σ Bool :=
  Run.holding id do
    notice id m
    let kept ← openMessage again id node m
    let loops ← feedsBack id
    return kept || loops

theorem pass_eq (again : Call → Run σ Unit) (id : NodeId) (node : Node σ) (m : Message) :
    pass again id node m = (do
      let ends ← meet again id node m
      if ends then pure () else onward again node.main (.deliver · (.message m)) : Run σ Unit) :=
  rfl

end

/-- An invariant, with the nodes that it is about, those that calls may get to, and the states that
the stages at other nodes keep to. What happens around its own nodes keeps it, and so does each of
their calls, if they can get there. -/
structure Guards [Stage σ] (own scope : NodeId → Prop) (keeps : NodeId → σ → Prop)
    (inv : Graph σ → Prop) : Prop where
  changed : ∀ {g id f}, inv g → (∀ node : Node σ, node.Around (f node)) →
    (own id → ∀ node : Node σ, node.Retains (f node)) → inv (g.updateNode id f)
  state : ∀ {g id s}, inv g → ¬own id → keeps id s →
    inv (g.updateNode id fun node => { node with kind := .stage s })
  programs : ∀ {g id node s}, inv g → ¬own id → g.node? id = some node → node.kind = .stage s →
    Stage.Obeys (fun _ => True) (keeps id) (fun _ => True) (node.here id) s
  logged : ∀ {g event}, inv g → (∀ id node hook, event = .began id node hook → ¬own id) →
    inv { g with history := event :: g.history }
  store : ∀ {g} store, inv g → inv { g with store }
  requested : ∀ {g}, inv g → inv { g with shuttingDown := true }
  environment : ∀ {g} environment, inv g → inv { g with environment }
  root : ∀ {g}, inv g → scope g.root
  next : ∀ {g id node target}, inv g → scope id → g.node? id = some node → node.Leads target →
    scope target
  accept : ∀ again : Call → Run σ Unit, (∀ call, scope call.node → Keeps inv (again call)) →
    ∀ id h, own id → scope id → Keeps inv (accept again id h)
  notice : ∀ id m, own id → scope id → Keeps inv (notice id m)
  openMessage : ∀ again : Call → Run σ Unit, (∀ call, scope call.node → Keeps inv (again call)) →
    ∀ id node m, own id → scope id → Keeps inv (openMessage again id node m)
  flush : ∀ again : Call → Run σ Unit, (∀ call, scope call.node → Keeps inv (again call)) →
    ∀ id, own id → scope id → Keeps inv (callLast again id .flush Stage.flush)
  close : ∀ again : Call → Run σ Unit, (∀ call, scope call.node → Keeps inv (again call)) →
    ∀ id, own id → scope id → Keeps inv (callLast again id .close Stage.close)

namespace Guards

variable [Stage σ] {id : NodeId} {own scope : NodeId → Prop} {keeps : NodeId → σ → Prop}
  {inv : Graph σ → Prop} (guards : Guards own scope keeps inv)
include guards

theorem setTank (id : NodeId) (f : Node σ → Tank) :
    Keeps inv (Run.updateNode id fun node => { node with tank := f node }) :=
  .update fun _ holds => guards.changed holds (fun _ => ⟨rfl, rfl, rfl⟩) fun _ _ => ⟨rfl, rfl⟩

theorem setPhase (id : NodeId) (phase : Phase) : Keeps inv (Run.setPhase id phase) :=
  .update fun _ holds => guards.changed holds (fun _ => ⟨rfl, rfl, rfl⟩) fun _ _ => ⟨rfl, rfl⟩

theorem setDeferred (id : NodeId) (closeDeferred : Bool) :
    Keeps inv (Run.updateNode id fun node => { node with closeDeferred }) :=
  .update fun _ holds => guards.changed holds (fun _ => ⟨rfl, rfl, rfl⟩) fun _ _ => ⟨rfl, rfl⟩

theorem setState (other : ¬own id) {s : σ} (kept : keeps id s) : Keeps inv (Run.setState id s) :=
  .update fun _ holds => guards.state holds other kept

theorem setParams (other : ¬own id) (f : Node σ → ParamTable) :
    Keeps inv (Run.updateNode id fun node => { node with params := f node }) :=
  .update fun _ holds => guards.changed holds (fun _ => ⟨rfl, rfl, rfl⟩) fun own => absurd own other

theorem report (r : Report) : Keeps inv (Run.report r) :=
  .update fun _ holds => guards.logged holds fun _ _ _ => nofun

theorem note (line : String) : Keeps inv (Run.remember (.note line)) :=
  .update fun _ holds => guards.logged holds fun _ _ _ => nofun

theorem noteAll (lines : List String) : Keeps inv (Run.noteAll lines) := by
  induction lines with
  | nil => exact .pure _
  | cons line rest ih => exact .bind (guards.note line) fun _ => ih

theorem began (other : ¬own id) (hook : Hook) : Keeps inv (Run.began id hook) :=
  .atNode fun _ => .update fun _ holds => guards.logged holds fun _ _ _ same => by
    cases same
    exact other

theorem edit (h : Handle) (p : Parcel) : Keeps inv (Run.edit h p) :=
  .update fun _ holds => guards.store _ holds

theorem add (p : Parcel) : Keeps inv (Run.add p) := fun _ holds => guards.store _ holds

theorem holding {run : Run σ α} (keeps : Keeps inv run) : Keeps inv (Run.holding id run) :=
  keeps.holding fun _ _ holds =>
    guards.changed holds (fun _ => ⟨rfl, rfl, rfl⟩) fun _ _ => ⟨rfl, rfl⟩

theorem atStage (other : ¬own id) {f : Node σ → Run σ Unit}
    (passive : ∀ node, (∀ s, node.kind ≠ .stage s) → Keeps inv (f node))
    (active : ∀ node s, node.kind = .stage s →
      Stage.Obeys (fun _ => True) (keeps id) (fun _ => True) (node.here id) s →
        Keeps inv (f node)) : Keeps inv (Run.atNode id f) := by
  intro g holds
  rw [Run.ends_atNode]
  refine ⟨fun node found => ?_, fun _ => holds⟩
  -- What a stage may keep depends on its state, which is known only once the node is looked up.
  by_cases stage : ∃ s, node.kind = .stage s
  · obtain ⟨s, stage⟩ := stage
    exact active node s stage (guards.programs holds other found stage) g holds
  · exact passive node (fun s kind => stage ⟨s, kind⟩) g holds

theorem atNode {f : Node σ → Run σ Unit} (within : scope id)
    (keeps : ∀ node, (∀ target, node.Leads target → scope target) → Keeps inv (f node)) :
    Keeps inv (Run.atNode id f) := by
  intro g holds
  rw [Run.ends_atNode]
  refine ⟨fun node found => ?_, fun _ => holds⟩
  exact keeps node (fun _ leads => guards.next holds within found leads) g holds

variable {again : Call → Run σ Unit} (serves : ∀ call, scope call.node → Keeps inv (again call))
include serves

omit [Stage σ] guards in
theorem onward {target : Option NodeId} {call : NodeId → Call} (goes : ∀ id, (call id).node = id)
    (within : ∀ id, target = some id → scope id) : Keeps inv (onward again target call) := by
  unfold Traffic.onward
  split
  next id => exact serves _ ((goes id).symm ▸ within id rfl)
  next => exact .pure _

theorem forward (within : scope id) (h : Handle) (edge : Edge) :
    Keeps inv (forward again id h edge) := by
  refine guards.atNode within fun node leads => .bind .graph fun g => ?_
  dsimp only
  split
  · exact .throw_bind _ _
  · split
    · exact .pure _
    next target next follows =>
      have main := (Graph.next_after follows).1
      exact .bind (guards.edit _ _) fun _ => .bind (guards.report _) fun _ =>
        serves _ (leads _ (.inl main))

theorem shutdown : Keeps inv (shutdown again) := by
  intro g holds
  refine shutdown_ends (fun _ => holds) fun _ => ?_
  have began : inv ({ g with shuttingDown := true }.remember
      (.report (.shutdownStarted g.pipeline))) :=
    guards.logged (guards.requested holds) fun _ _ _ => nofun
  refine (serves (.close g.root) (guards.root holds) _ began).mono fun result after holds => ?_
  cases result with
  | error e => exact holds
  | ok _ => exact guards.logged holds fun _ _ _ => nofun

theorem answer (within : scope id) (r : Request) : Keeps inv (answer again id r) := by
  cases r with
  | look h => exact keeps_look h
  | edit h p => exact guards.edit h p
  | copy h => exact .bind (keeps_look h) fun p => guards.add p
  | forward h edge => exact guards.forward serves within h edge
  | post m =>
    refine guards.atNode within fun node leads => ?_
    exact onward serves (fun _ => rfl) fun _ main => leads _ (.inl main)
  | gauge => exact .bind .graph fun _ => .pure _
  | refill t => exact guards.setTank id _
  | drain => exact serves _ within
  | feed target h => exact .bind (keeps_look h) fun p => guards.setTank target _
  | shutdown => exact guards.shutdown serves
  | closing => exact .bind .graph fun _ => .pure _
  | environment => exact .bind .graph fun _ => .pure _
  | report r => exact guards.report r
  | note line => exact guards.note line

theorem interpret (within : scope id) (other : ¬own id) (program : Program σ α)
    (obeys : program.Obeys (fun _ => True) (keeps id) (fun _ => True)) :
    Keeps inv (interpret again id program) := by
  induction program with
  | done a => exact .pure a
  | fail e => exact .throw e
  | keep s next ih => exact .bind (guards.setState other obeys.1) fun _ => ih obeys.2
  | ask r next ih => exact .bind (guards.answer serves within r) fun a => ih a (obeys.2 a)

theorem runStage (within : scope id) (other : ¬own id)
    {program : Here → Node σ → σ → Program σ Unit}
    (obeys : ∀ here node s, Stage.Obeys (fun _ => True) (keeps id) (fun _ => True) here s →
      (program here node s).Obeys (fun _ => True) (keeps id) (fun _ => True)) :
    Keeps inv (runStage again id program) := by
  refine guards.atStage other (fun node passive => ?_) fun node s stage stages => ?_
  · split
    next s stage => exact absurd stage (passive s)
    next => exact .pure _
  · rw [stage]
    exact guards.interpret serves within other _ (obeys _ node s stages)

theorem reconfigure (within : scope id) (other : ¬own id) (changed : List String) :
    Keeps inv (reconfigure again id changed) :=
  guards.runStage serves within other fun _ node _ obeys => obeys.reconfigure node.params changed

omit serves in
theorem refreshEach (other : ¬own id) (path : String) (pairs : List (String × String))
    (changed : List String) : Keeps inv (refreshEach id path pairs changed) := by
  induction pairs generalizing changed with
  | nil => exact .pure _
  | cons pair rest ih =>
    refine .bind .graph fun g => ?_
    dsimp only
    split
    · exact .throw _
    · refine .bind (guards.setParams other _) fun _ => ?_
      split
      · exact .bind (guards.report _) fun _ => ih _
      · exact ih _

theorem refresh (within : scope id) (other : ¬own id) : Keeps inv (refresh again id) := by
  refine .bind .graph fun g => .bind (guards.began other _) fun _ => .atNode fun node => ?_
  refine .bind (guards.refreshEach other _ _ _) fun changed => ?_
  split
  · exact .pure _
  · exact guards.reconfigure serves within other _

theorem acceptAt (within : scope id) (h : Handle) : Keeps inv (Traffic.accept again id h) := by
  by_cases mine : own id
  · exact guards.accept again serves id h mine within
  refine .bind (guards.refresh serves within mine) fun _ => ?_
  refine .bind (guards.runStage serves within mine fun _ _ _ obeys => obeys.beforeAccept h)
    fun _ => .bind (keeps_look h) fun p => .bind (guards.began mine _) fun _ => ?_
  refine .bind (guards.runStage serves within mine fun _ _ _ obeys => obeys.accept h) fun _ => ?_
  exact guards.runStage serves within mine fun _ _ _ obeys => obeys.afterAccept

theorem resetParameter (within : scope id) (other : ¬own id) (m : Message) :
    Keeps inv (resetParameter again id m) := by
  refine .atNode fun node => ?_
  split
  · dsimp only
    split
    · exact .throw_bind _ _
    · exact .bind (guards.setParams other _) fun _ => .bind (guards.report _) fun _ =>
        guards.reconfigure serves within other _
  · exact .throw _

theorem openMessageAt (within : scope id) (node : Node σ) (m : Message) :
    Keeps inv (Traffic.openMessage again id node m) := by
  by_cases mine : own id
  · exact guards.openMessage again serves id node m mine within
  unfold Traffic.openMessage
  split
  · refine .bind (guards.report _) fun _ => .bind (guards.began mine _) fun _ => ?_
    dsimp only
    split
    · exact .bind (guards.resetParameter serves within mine m) fun _ => .pure _
    · exact .bind (guards.runStage serves within mine fun _ _ _ obeys => obeys.onMessage m)
        fun _ => .pure _
  · exact .pure _

omit serves in
theorem noticeAt (within : scope id) (m : Message) : Keeps inv (Traffic.notice (σ := σ) id m) := by
  by_cases mine : own id
  · exact guards.notice id m mine within
  refine .bind (guards.began mine _) fun _ => ?_
  refine guards.atStage mine (fun node passive => ?_) fun node s stage obeys => ?_
  · split
    next s stage => exact absurd stage (passive s)
    next => exact .pure _
  · rw [stage]
    exact .bind (guards.setState mine (obeys.notice m)) fun _ => guards.noteAll _

theorem meet (within : scope id) (node : Node σ) (m : Message) :
    Keeps inv (meet again id node m) :=
  guards.holding <| .bind (guards.noticeAt within m) fun _ =>
    .bind (guards.openMessageAt serves within node m) fun _ =>
      .bind (.bind .graph fun _ => .pure _) fun _ => .pure _

theorem pass (within : scope id) {node : Node σ}
    (leads : ∀ target, node.Leads target → scope target) (m : Message) :
    Keeps inv (pass again id node m) := by
  rw [pass_eq]
  refine .bind (guards.meet serves within node m) fun ends => ?_
  split
  · exact .pure _
  · exact onward serves (fun _ => rfl) fun _ main => leads _ (.inl main)

theorem settle (within : scope id)
    (result : Except EngineError Unit) : Keeps inv (settle again id result) := by
  intro g holds
  refine settle_ends (fun _ => holds) fun _ => ?_
  refine serves (.close id) within _ ?_
  exact guards.changed holds (fun _ => ⟨rfl, rfl, rfl⟩) fun _ _ => ⟨rfl, rfl⟩

theorem deliverToStage (within : scope id) {node : Node σ}
    (leads : ∀ target, node.Leads target → scope target) (packet : Packet) :
    Keeps inv (deliverToStage again id node packet) := by
  unfold Traffic.deliverToStage
  split
  · exact .bind (.update fun _ holds => guards.logged holds fun _ _ _ => nofun) fun _ => .throw _
  · split
    · refine .bind .graph fun g => ?_
      split
      · exact guards.report _
      · exact .throw _
    · refine .bind (.attempt ?_) fun result => guards.settle serves within result
      cases packet with
      | parcel h => exact guards.holding (guards.acceptAt serves within h)
      | message m => exact guards.pass serves within leads m

theorem fanOut {node : Node σ} (leads : ∀ target, node.Leads target → scope target)
    (packet : Packet) : Keeps inv (fanOut again node packet) := by
  have main : ∀ id, node.main = some id → scope id := fun _ main => leads _ (.inl main)
  cases packet with
  | parcel h =>
    refine .bind (keeps_look h) fun p => .bind (guards.edit _ _) fun _ =>
      .bind (guards.report _) fun _ => ?_
    split
    · exact .throw _
    next branch _ follows => exact serves _ (leads _ (.inr (.inl follows)))
    · exact onward serves (fun _ => rfl) main
  | message m =>
    refine .bind (onward serves (fun _ => rfl) fun _ branch => leads _ (.inr (.inl branch)))
      fun _ => onward serves (fun _ => rfl) main

theorem deliver (within : scope id) (packet : Packet) : Keeps inv (deliver again id packet) := by
  refine guards.atNode within fun node leads => ?_
  split
  next entry _ kind =>
    refine onward serves (fun _ => rfl) fun target same => leads target (.inr (.inr ?_))
    rw [Node.entry, kind, same]
  next => exact guards.fanOut serves leads packet
  next => exact guards.deliverToStage serves within leads packet

theorem callLast (within : scope id) (other : ¬own id) (hook : Hook)
    {program : Here → σ → Program σ Unit}
    (obeys : ∀ here s, Stage.Obeys (fun _ => True) (keeps id) (fun _ => True) here s →
      (program here s).Obeys (fun _ => True) (keeps id) (fun _ => True)) :
    Keeps inv (callLast again id hook program) := by
  refine .bind (guards.began other hook) fun _ => ?_
  refine .bind (.attempt (guards.runStage serves within other fun here _ s => obeys here s))
    fun result => ?_
  split
  · exact .pure _
  · exact .bind (.update fun _ holds => guards.logged holds fun _ _ _ => nofun) fun _ => .throw _

theorem lastCalls (within : scope id) :
    Keeps inv (Traffic.callLast again id .flush Stage.flush) ∧
      Keeps inv (Traffic.callLast again id .close Stage.close) := by
  by_cases mine : own id
  · exact ⟨guards.flush again serves id mine within, guards.close again serves id mine within⟩
  · exact ⟨guards.callLast serves within mine _ fun _ _ obeys => obeys.flush,
      guards.callLast serves within mine _ fun _ _ obeys => obeys.close⟩

theorem closeStage (within : scope id) {node : Node σ}
    (leads : ∀ target, node.Leads target → scope target) : Keeps inv (closeStage again id node) := by
  unfold Traffic.closeStage
  split
  · exact .pure _
  · split
    · exact .bind (guards.setDeferred id true) fun _ => guards.report _
    · have ⟨flush, close⟩ := guards.lastCalls serves within
      refine .bind (guards.holding ?_) fun loops => .bind (guards.report _) fun _ => ?_
      · exact .bind (guards.setPhase id _) fun _ => .bind flush fun _ =>
          .bind (guards.setPhase id _) fun _ => .bind close fun _ =>
            .bind (guards.setPhase id _) fun _ => .bind .graph fun _ => .pure _
      · split
        · exact .pure _
        · exact onward serves (fun _ => rfl) fun _ main => leads _ (.inl main)

theorem closeAt (within : scope id) : Keeps inv (Traffic.close again id) := by
  refine guards.atNode within fun node leads => ?_
  split
  · exact guards.closeStage serves within leads
  · split
    · exact .pure _
    · refine .bind (guards.setPhase id _) fun _ => .bind ?_ fun _ => ?_
      · exact onward serves (fun _ => rfl) fun _ branch => leads _ (.inr (.inl branch))
      · exact onward serves (fun _ => rfl) fun _ main => leads _ (.inl main)
  next entry _ kind =>
    split
    · exact .pure _
    · refine .bind (guards.setPhase id _) fun _ => ?_
      refine onward serves (fun _ => rfl) fun target same => leads target (.inr (.inr ?_))
      rw [Node.entry, kind, same]

theorem drain (within : scope id) : Keeps inv (drain again id) := by
  refine .bind (.bind .graph fun _ => .pure _) fun t => .bind (guards.setTank id _) fun _ => ?_
  dsimp only
  split
  · exact .pure _
  · exact .bind .graph fun _ => .bind (guards.report _) fun _ =>
      .bind (guards.forward serves within _ _) fun _ => serves _ within

theorem step (call : Call) (within : scope call.node) : Keeps inv (step again call) := by
  cases call with
  | deliver id packet => exact guards.deliver serves within packet
  | close id => exact guards.closeAt serves within
  | drain id => exact guards.drain serves within

omit serves in
theorem perform (depth : Nat) (call : Call) (within : scope call.node) :
    Keeps inv (perform depth call) := by
  induction depth generalizing call with
  | zero => exact .unfinished
  | succ depth ih => exact guards.step ih call within

omit serves in
theorem deliverRoot (depth : Nat) (packet : Packet) : Keeps inv (do
    let g ← Run.graph
    Traffic.perform depth (.deliver g.root packet) : Run σ Unit) :=
  fun g holds => guards.perform depth (.deliver g.root packet) (guards.root holds) g holds

omit serves in
theorem send (depth : Nat) (p : Parcel) : Keeps inv (Graph.send (σ := σ) depth p) :=
  .bind (guards.add p) fun h => guards.deliverRoot depth (.parcel h)

omit serves in
theorem sendAll (depth : Nat) (parcels : List Parcel) :
    Keeps inv (Graph.sendAll (σ := σ) depth parcels) := by
  induction parcels with
  | nil => exact .pure _
  | cons p rest ih => exact .bind (guards.send depth p) fun _ => ih

omit serves in
theorem operate {g after : Graph σ} {depth : Nat} {operation : Graph.Operation}
    (ran : g.operate depth operation = some after)
    (still : ∀ parcels, operation ≠ .act (.pump parcels)) (holds : inv g) : inv after := by
  have kept {run : Run σ Unit} (keeps : Keeps inv run)
      (ran : (run.start g).map Prod.snd = some after) : inv after := by
    obtain ⟨⟨result, last⟩, started, rfl⟩ := Option.map_eq_some_iff.mp ran
    exact (keeps g holds).of_start started
  cases operation with
  | shutdown => exact kept (guards.shutdown fun call => guards.perform depth call) ran
  | act act =>
    cases act with
    | setVariable name text =>
      cases ran
      exact guards.environment _ holds
    | removeVariable name =>
      cases ran
      exact guards.environment _ holds
    | send p => exact kept (guards.send depth p) ran
    | message m => exact kept (guards.deliverRoot depth (.message m)) ran
    | pump parcels => exact absurd rfl (still parcels)

end Guards

/-- An invariant without nodes of its own: nothing that goes on at any node undoes it. -/
structure Unowned [Stage σ] (keeps : NodeId → σ → Prop) (inv : Graph σ → Prop) : Prop where
  changed : ∀ {g id f}, inv g → (∀ node : Node σ, node.Around (f node)) → inv (g.updateNode id f)
  state : ∀ {g id s}, inv g → keeps id s →
    inv (g.updateNode id fun node => { node with kind := .stage s })
  programs : ∀ {g id node s}, inv g → g.node? id = some node → node.kind = .stage s →
    Stage.Obeys (fun _ => True) (keeps id) (fun _ => True) (node.here id) s
  logged : ∀ {g} event, inv g → inv { g with history := event :: g.history }
  store : ∀ {g} store, inv g → inv { g with store }
  requested : ∀ {g}, inv g → inv { g with shuttingDown := true }
  environment : ∀ {g} environment, inv g → inv { g with environment }

theorem Unowned.guards [Stage σ] {keeps : NodeId → σ → Prop} {inv : Graph σ → Prop}
    (unowned : Unowned keeps inv) : Guards (fun _ => False) (fun _ => True) keeps inv where
  changed := fun holds around _ => unowned.changed holds around
  state := fun holds _ kept => unowned.state holds kept
  programs := fun holds _ found stage => unowned.programs holds found stage
  logged := fun holds _ => unowned.logged _ holds
  store := unowned.store
  requested := unowned.requested
  environment := unowned.environment
  root := fun _ => trivial
  next := fun _ _ _ _ => trivial
  accept := fun _ _ _ _ mine => absurd mine not_false
  notice := fun _ _ mine => absurd mine not_false
  openMessage := fun _ _ _ _ _ mine => absurd mine not_false
  flush := fun _ _ _ mine => absurd mine not_false
  close := fun _ _ _ mine => absurd mine not_false

theorem reading_guards {β : Type} [Stage σ] (read : σ → β)
    (obeys : ∀ here (s : σ), Stage.Obeys (fun _ => True) (fun t => read t = read s)
      (fun _ => True) here s) (start : Graph σ) :
    Guards (fun _ => False) (fun _ => True) (fun id s => start.reads read id = some (read s))
      (fun g => ∀ id, g.reads read id = start.reads read id) :=
  Unowned.guards
    { changed := by
        intro g id f holds around other
        rw [← holds other, Graph.reads, Graph.reads, Graph.node?_updateNode]
        split
        · cases g.node? other with
          | none => rfl
          | some node =>
            dsimp only [Option.map_some, Option.bind_some]
            rw [Node.state?, (around node).kind, Node.state?]
        · rfl
      state := by
        intro g id s holds kept other
        rw [Graph.reads, Graph.node?_updateNode]
        split
        next same =>
          subst same
          cases found : g.node? id with
          | none =>
            rw [← holds id, Graph.reads, found]
            rfl
          | some node => exact kept.symm
        next => exact holds other
      programs := by
        intro g id node s holds found stage
        rw [← holds id, Graph.reads, found]
        refine (obeys _ s).mono (fun _ _ => trivial) (fun t same => ?_) fun _ _ => trivial
        simp [Node.state?, stage, same]
      logged := fun _ holds => holds
      store := fun _ holds => holds
      requested := fun holds => holds
      environment := fun _ holds => holds }

end Traffic

namespace Graph

theorem feedsBack_eq [Stage σ] (g : Graph σ) (id : NodeId) :
    g.feedsBack id = (g.reads Stage.feedsBack id).getD false := by
  unfold feedsBack reads
  cases (g.node? id).bind Node.state? <;> rfl

end Graph

end Sluice
