import Sluice.Proofs.Graph.Tracks
import Sluice.Proofs.Stage.ParamReads
import Sluice.Proofs.Tank.Releases

set_option autoImplicit false

namespace Sluice

variable {σ α β : Type}

def Hook.accepts : Hook → Bool
  | .accept _ _ => true
  | _ => false

def Call.Done : Call → Graph σ → Prop
  | .drain id, g => g.Relieved id
  | _, _ => True

namespace Graph

def Active (g : Graph σ) (id : NodeId) : Prop :=
  ∃ node s, g.node? id = some node ∧ node.kind = .stage s ∧ node.busy = true

variable {g after : Graph σ} {id : NodeId}

theorem Active.stays (active : g.Active id) (stays : g.Stays after) : after.Active id := by
  obtain ⟨before, s, found, stage, busy⟩ := active
  obtain ⟨node, there, same⟩ := stays.node found
  obtain ⟨t, kind⟩ := Node.stage_of_fixed (Node.fixed_of_stance same) stage
  exact ⟨node, t, there, kind, (Node.busy_of_stance same).trans busy⟩

theorem Stays.state {node : Node σ} {t : σ} (found : g.node? id = some node)
    (stage : node.kind = .stage t) (s : σ) :
    g.Stays (g.updateNode id fun node => { node with kind := .stage s }) := by
  refine .update fun other same => ?_
  obtain rfl : node = other := Option.some.inj (found.symm.trans same)
  simp only [Node.stance, Node.fixed, stage, NodeKind.shape]

theorem Active.state (active : g.Active id) (s : σ) :
    g.Stays (g.updateNode id fun node => { node with kind := .stage s }) := by
  obtain ⟨_, _, found, stage, -⟩ := active
  exact .state found stage s

theorem node?_updateNode_of_ne (g : Graph σ) {other : NodeId} (ne : other ≠ id)
    (f : Node σ → Node σ) : (g.updateNode id f).node? other = g.node? other := by
  rw [node?_updateNode, if_neg (Ne.symm ne)]

theorem updateNode_same {f : Node σ → Node σ} (same : ∀ node, g.node? id = some node → f node = node) :
    g.updateNode id f = g := by
  have nodes : g.nodes.modify id f = g.nodes := by
    refine Array.ext_getElem? fun other => ?_
    have moved := node?_updateNode g id other f
    unfold updateNode node? at moved
    rw [moved]
    split
    next here =>
      subst here
      cases found : g.nodes[id]? with
      | none => rfl
      | some node => exact congrArg some (same node found)
    next => rfl
  unfold updateNode
  rw [nodes]

end Graph

namespace Traffic

def sendOn (again : Call → Run σ Unit) (id : NodeId) (cycle : Nat) : Option Handle → Run σ Unit
  | none => pure ()
  | some h => do
    let path := (← Run.graph).pathOf id
    Run.report (.tankForwarded path cycle)
    forward again id h .main
    again (.drain id)

theorem drain_start {g : Graph σ} {id : NodeId} {tank : Tank}
    (there : ((g.node? id).map Node.tank).getD .empty = tank) (again : Call → Run σ Unit) :
    (drain again id).start g = (do
      Run.setTank id tank.release.2
      sendOn again id tank.release.2.released tank.release.1 : Run σ Unit).start g := by
  subst there
  rfl

variable [Stage σ]

def takeIn (again : Call → Run σ Unit) (id : NodeId) (h : Handle) : Run σ Unit := do
  runStage again id fun here _ s => Stage.beforeAccept here s h
  Run.began id (.accept h (← Run.look h))
  runStage again id fun here _ s => Stage.accept here s h
  runStage again id fun here _ s => Stage.afterAccept here s

theorem accept_eq (again : Call → Run σ Unit) (id : NodeId) (h : Handle) :
    accept again id h = (do
      refresh again id
      takeIn again id h : Run σ Unit) := rfl

end Traffic

/-- What holds where calls begin and return, and between the programs that a call of one stage runs;
what an error leaves; which calls may be made; and where else a tank with nothing in excess may be
drained. -/
structure Conduct (σ : Type) where
  inv : Option NodeId → Graph σ → Prop
  bad : EngineError → Graph σ → Prop
  may : Call → Graph σ → Prop
  slack : NodeId → Graph σ → Prop

namespace Conduct

def Meets (m : Conduct σ) (g : Graph σ) (good : α → Graph σ → Prop) :
    Except EngineError α → Graph σ → Prop
  | .ok a, after => g.Stays after ∧ good a after
  | .error e, after => g.Stays after ∧ m.bad e after

def Follows (m : Conduct σ) (run other : Run σ α) (g : Graph σ) (good : α → Graph σ → Prop) : Prop :=
  run.Tracks other g (m.Meets g good)

/-- Two ways to make further calls that come to the same as long as the calls may be made. To drain a
tank that has nothing in excess does nothing. -/
structure Serves (m : Conduct σ) (again other : Call → Run σ Unit) : Prop where
  call : ∀ {call g}, m.inv none g → m.may call g →
    m.Follows (again call) (other call) g fun _ after => m.inv none after ∧ call.Done after
  relieved : ∀ {id g}, m.slack id g → g.Relieved id →
    (again (.drain id)).Tracks (other (.drain id)) g fun result after => result = .ok () ∧ after = g

structure Steady (m : Conduct σ) : Prop where
  outward : ∀ {id g}, m.inv (some id) g → m.inv none g
  may_stays : ∀ {call g after}, m.may call g → g.Stays after → m.may call after
  store : ∀ {act g} store, m.inv act g → m.inv act { g with store }
  logged : ∀ {act g event}, m.inv act g → event.logged = true → m.inv act (g.remember event)
  failed : ∀ {g e}, m.inv none g → e.isReentrancy = false → m.bad e g

structure Lawful [Stage σ] (m : Conduct σ) : Prop extends m.Steady where
  may_mark : ∀ {id packet g}, m.may (.deliver id packet) g → m.may (.deliver id packet) (g.mark id true)
  refused : ∀ {g id packet}, m.inv none g → m.inv none (g.remember (.refused id packet))
  turned : ∀ {act g} id phase, m.inv act g → m.inv act (g.turn id phase)
  reentered : ∀ {g id node}, m.inv none g → g.node? id = some node → node.busy = true →
    m.bad (.reentrancy node.path) g
  bad_mark : ∀ {e g} id, m.bad e g → m.bad e (g.mark id false)
  bad_failed : ∀ {e g} id hook, m.bad e g → m.bad e (g.remember (.failed id hook e))
  deferred : ∀ {g id node}, m.inv none g → m.may (.close id) g → g.node? id = some node →
    node.busy = true → m.inv none (g.defer id true)
  resumed : ∀ {g id}, m.inv none g ∨ (∃ e, m.bad e g) → (g.node? id).any Node.closeDeferred = true →
    m.inv none (g.defer id false) ∧ m.may (.close id) (g.defer id false)
  outlasts : ∀ {e g after}, m.bad e g → g.Stays after → m.inv none after ∨ (∃ e, m.bad e after) →
    m.bad e after
  enter : ∀ {g id node s packet hook}, m.inv none g → m.may (.deliver id packet) g →
    g.node? id = some node → node.kind = .stage s → node.busy = false → hook.accepts = false →
      m.inv (some id) ((g.mark id true).remember (.began id { node with busy := true } hook))
  closing : ∀ {g id node s}, m.inv none g → m.may (.close id) g → g.node? id = some node →
    node.kind = .stage s → node.busy = false →
      m.inv (some id) (((g.mark id true).turn id .flushing).remember
        (.began id { node with busy := true, phase := .flushing } .flush))
  leave : ∀ {g id}, m.inv (some id) g → m.inv none (g.mark id false)
  called : ∀ {g id node hook}, m.inv (some id) g → g.node? id = some node → hook.accepts = false →
    m.inv (some id) (g.remember (.began id node hook))
  params : ∀ {g id} key value, m.inv (some id) g →
    m.inv (some id) (g.updateNode id fun node => { node with params := node.params.put key value })
  noticed : ∀ {g id node s} message, m.inv (some id) g → g.node? id = some node →
    node.kind = .stage s → m.inv (some id)
      (g.updateNode id fun node => { node with kind := .stage (Stage.notice message s).1 })
  accepts : ∀ {again other g id} h, m.Serves again other → m.inv (some id) g → g.Active id →
    m.may (.deliver id (.parcel h)) g →
      m.Follows (Traffic.takeIn again id h) (Traffic.takeIn other id h) g
        fun _ after => m.inv (some id) after
  reconfigures : ∀ {again other g id} changed, m.Serves again other → m.inv (some id) g →
    g.Active id → m.Follows (Traffic.reconfigure again id changed) (Traffic.reconfigure other id changed) g
      fun _ after => m.inv (some id) after
  opens : ∀ {again other g id} message, m.Serves again other → m.inv (some id) g → g.Active id →
    m.Follows (Traffic.runStage again id fun here _ s => Stage.onMessage here s message)
      (Traffic.runStage other id fun here _ s => Stage.onMessage here s message) g
        fun _ after => m.inv (some id) after
  flushes : ∀ {again other start g id}, m.Serves again other → m.may (.close id) start →
    m.inv (some id) g → g.Active id →
      m.Follows (Traffic.runStage again id fun here _ s => Stage.flush here s)
        (Traffic.runStage other id fun here _ s => Stage.flush here s) g
          fun _ after => m.inv (some id) after
  closes : ∀ {again other start g id}, m.Serves again other → m.may (.close id) start →
    m.inv (some id) g → g.Active id →
      m.Follows (Traffic.runStage again id fun here _ s => Stage.close here s)
        (Traffic.runStage other id fun here _ s => Stage.close here s) g
          fun _ after => m.inv (some id) after
  next : ∀ {g id node target packet}, m.may (.deliver id packet) g → g.node? id = some node →
    (∀ s, node.kind ≠ .stage s) → node.Leads target → m.may (.deliver target packet) g
  passes : ∀ {g id node target message}, m.may (.deliver id (.message message)) g →
    g.node? id = some node → node.main = some target → m.may (.deliver target (.message message)) g
  ends : ∀ {g id node target}, m.may (.close id) g → g.node? id = some node → node.Leads target →
    m.may (.close target) g
  released : ∀ {g id node}, m.inv none g → m.may (.drain id) g → g.node? id = some node →
    m.inv none (g.updateNode id fun other => { other with tank := node.tank.release.2 }) ∧
      ∀ h target, node.main = some target → m.may (.deliver target (.parcel h)) g

section

variable {m : Conduct σ} {run other : Run σ α} {g : Graph σ} {good better : α → Graph σ → Prop}

theorem Meets.stays {result : Except EngineError α} {after : Graph σ}
    (meets : m.Meets g good result after) : g.Stays after := by
  cases result with
  | ok _ => exact meets.1
  | error _ => exact meets.1

theorem Meets.left {result : Except EngineError α} {after : Graph σ}
    (meets : m.Meets g good result after) (implies : ∀ a, good a after → m.inv none after) :
    m.inv none after ∨ ∃ e, m.bad e after := by
  cases result with
  | ok a => exact .inl (implies a meets.2)
  | error e => exact .inr ⟨e, meets.2⟩

theorem Follows.mono (follows : m.Follows run other g good)
    (implies : ∀ a after, g.Stays after → good a after → better a after) : m.Follows run other g better := by
  refine Run.Tracks.mono follows fun result after meets => ?_
  cases result with
  | ok a => exact ⟨meets.1, implies a after meets.1 meets.2⟩
  | error e => exact meets

theorem Follows.bind {next then' : α → Run σ β} {good : β → Graph σ → Prop}
    {mid : α → Graph σ → Prop} (first : m.Follows run other g mid)
    (rest : ∀ a after, g.Stays after → mid a after → m.Follows (next a) (then' a) after good) :
    m.Follows (run >>= next) (other >>= then') g good := by
  refine Run.Tracks.bind first (fun a after ⟨stays, holds⟩ => ?_) fun e after meets => meets
  refine Run.Tracks.mono (rest a after stays holds) fun result last meets => ?_
  cases result with
  | ok b => exact ⟨stays.trans meets.1, meets.2⟩
  | error e => exact ⟨stays.trans meets.1, meets.2⟩

theorem Follows.pure {a : α} (holds : good a g) : m.Follows (pure a) (pure a) g good :=
  .of_ends ⟨.refl g, holds⟩

theorem Follows.throw {e : EngineError} (bad : m.bad e g) :
    m.Follows (MonadExcept.throw e : Run σ α) (MonadExcept.throw e) g good :=
  .of_ends ⟨.refl g, bad⟩

theorem Follows.throw_bind {e : EngineError} {next then' : α → Run σ β} {good : β → Graph σ → Prop}
    (bad : m.bad e g) : m.Follows ((MonadExcept.throw e : Run σ α) >>= next)
      ((MonadExcept.throw e : Run σ α) >>= then') g good :=
  Follows.bind (Follows.throw bad : m.Follows _ _ g fun _ _ => False) fun _ _ _ never => never.elim

theorem Follows.reading {next then' : Graph σ → Run σ α} (rest : m.Follows (next g) (then' g) g good) :
    m.Follows (Run.graph >>= next) (Run.graph >>= then') g good :=
  Run.Tracks.reading rest

theorem Follows.update {f : Graph σ → Graph σ} {good : Unit → Graph σ → Prop} (stays : g.Stays (f g))
    (holds : good () (f g)) : m.Follows (Run.update f) (Run.update f) g good :=
  .of_ends ⟨stays, holds⟩

theorem Follows.updating {f : Graph σ → Graph σ} {next then' : Unit → Run σ α}
    (stays : g.Stays (f g)) (rest : m.Follows (next ()) (then' ()) (f g) good) :
    m.Follows (Run.update f >>= next) (Run.update f >>= then') g good := by
  have first : m.Follows (Run.update f) (Run.update f) g fun _ after => after = f g := .update stays rfl
  exact first.bind fun _ _ _ here => here ▸ rest

theorem Follows.atNode {id : NodeId} {f f' : Node σ → Run σ Unit} {good : Unit → Graph σ → Prop}
    (there : ∀ node, g.node? id = some node → m.Follows (f node) (f' node) g good)
    (absent : g.node? id = none → good () g) :
    m.Follows (Run.atNode id f) (Run.atNode id f') g good :=
  Run.Tracks.atNode there fun none => ⟨.refl g, absent none⟩

theorem Follows.at {id : NodeId} {node : Node σ} (found : g.node? id = some node)
    {f f' : Node σ → Run σ Unit} {good : Unit → Graph σ → Prop}
    (there : m.Follows (f node) (f' node) g good) :
    m.Follows (Run.atNode id f) (Run.atNode id f') g good :=
  .atNode (fun _ same => Option.some.inj (found.symm.trans same) ▸ there)
    fun none => nomatch found.symm.trans none

theorem Follows.of_start {run' other' : Run σ α} (same : run.start g = run'.start g)
    (same' : other.start g = other'.start g) (follows : m.Follows run' other' g good) :
    m.Follows run other g good := by
  refine ⟨same.trans (follows.1.trans same'.symm), ?_⟩
  unfold Run.Ends
  rw [same]
  exact follows.2

end

def Grants (m : Conduct σ) (id : NodeId) (g : Graph σ) : Request → Prop
  | .forward h _ => ∀ node target, g.node? id = some node → node.main = some target →
      m.may (.deliver target (.parcel h)) g
  | .post message => ∀ node target, g.node? id = some node → node.main = some target →
      m.may (.deliver target (.message message)) g
  | .refill t => m.inv none (g.updateNode id fun node => { node with tank := t })
  | .drain => m.may (.drain id) g
  | .feed target h => m.inv none
      (g.updateNode target fun node => { node with tank := node.tank.push h (g.store.read h) })
  | .shutdown => m.inv none { g with shuttingDown := true } ∧ m.may (.close g.root) g
  | _ => True

structure Permits (m : Conduct σ) (id : NodeId) (g : Graph σ) (asks : Request → Prop)
    (keeps : σ → Prop) (error : EngineError → Prop) : Prop where
  grants : ∀ {mid r}, m.inv none mid → g.Stays mid → asks r → m.Grants id mid r
  keeps : ∀ {mid s}, m.inv none mid → g.Stays mid → keeps s →
    m.inv none (mid.updateNode id fun node => { node with kind := .stage s })
  fails : ∀ {mid e}, m.inv none mid → error e → m.bad e mid

theorem Permits.stays {m : Conduct σ} {id : NodeId} {g mid : Graph σ} {asks : Request → Prop}
    {keeps : σ → Prop} {error : EngineError → Prop} (permits : m.Permits id g asks keeps error)
    (stays : g.Stays mid) : m.Permits id mid asks keeps error :=
  ⟨fun inv later => permits.grants inv (stays.trans later),
    fun inv later => permits.keeps inv (stays.trans later), permits.fails⟩

theorem Follows.look {m : Conduct σ} {g : Graph σ} {good : Graph σ → Prop} (holds : good g) (h : Handle) :
    m.Follows (Run.look h) (Run.look h) g fun _ after => good after :=
  .reading (.pure holds)

theorem Serves.onward {m : Conduct σ} {again other : Call → Run σ Unit} (serves : m.Serves again other)
    {g : Graph σ} (inv : m.inv none g) {target : Option NodeId} {call : NodeId → Call}
    (may : ∀ id, target = some id → m.may (call id) g) :
    m.Follows (Traffic.onward again target call) (Traffic.onward other target call) g
      fun _ after => m.inv none after := by
  cases target with
  | none => exact .pure inv
  | some id => exact (serves.call inv (may id rfl)).mono fun _ _ _ done => done.1

namespace Steady

variable {m : Conduct σ} (steady : m.Steady) {g : Graph σ} {id : NodeId} {act : Option NodeId}
include steady

theorem report (inv : m.inv act g) (r : Report) :
    m.Follows (Run.report r) (Run.report r) g fun _ after => m.inv act after :=
  .update (.remember g _) (steady.logged inv rfl)

theorem note (inv : m.inv act g) (line : String) :
    m.Follows (Run.remember (.note line)) (Run.remember (.note line)) g fun _ after => m.inv act after :=
  .update (.remember g _) (steady.logged inv rfl)

theorem noteAll (inv : m.inv act g) (lines : List String) :
    m.Follows (Run.noteAll lines) (Run.noteAll lines) g fun _ after => m.inv act after := by
  induction lines generalizing g with
  | nil => exact .pure inv
  | cons line rest ih => exact (steady.note inv line).bind fun _ _ _ inv => ih inv

theorem edit (inv : m.inv act g) (h : Handle) (p : Parcel) :
    m.Follows (Run.edit h p) (Run.edit h p) g fun _ after => m.inv act after :=
  .update (.store g _) (steady.store _ inv)

theorem add (inv : m.inv act g) (p : Parcel) :
    m.Follows (Run.add p) (Run.add p) g fun _ after => m.inv act after :=
  .of_ends ⟨.store g _, steady.store _ inv⟩

section

variable {again other : Call → Run σ Unit} (serves : m.Serves again other)
include serves

theorem forward (inv : m.inv none g) {h : Handle}
    (may : ∀ node target, g.node? id = some node → node.main = some target →
      m.may (.deliver target (.parcel h)) g) (edge : Edge) :
    m.Follows (Traffic.forward again id h edge) (Traffic.forward other id h edge) g
      fun _ after => m.inv none after := by
  refine .atNode (fun node found => .reading ?_) fun _ => inv
  dsimp only
  split
  · exact .throw_bind (steady.failed inv rfl)
  · split
    · exact .pure inv
    next target next follows =>
      have main := (Graph.next_after follows).1
      refine (steady.edit inv _ _).bind fun _ mid stays inv => ?_
      refine (steady.report inv _).bind fun _ _ later inv => ?_
      refine (serves.call inv (steady.may_stays ?_ (stays.trans later))).mono fun _ _ _ done => done.1
      exact may node target found main

theorem shutdown (inv : m.inv none g) (requested : m.inv none { g with shuttingDown := true })
    (may : m.may (.close g.root) g) :
    m.Follows (Traffic.shutdown again) (Traffic.shutdown other) g fun _ after => m.inv none after := by
  refine .reading ?_
  split
  · exact .pure inv
  · have stays : g.Stays { g with shuttingDown := true } := ⟨fun _ => rfl, rfl, List.suffix_refl _⟩
    refine .updating stays ((steady.report requested _).bind fun _ _ later inv => ?_)
    refine (serves.call inv (steady.may_stays may (stays.trans later))).bind fun _ _ _ done => ?_
    exact steady.report done.1 _

theorem answer (inv : m.inv none g) {r : Request} (grants : m.Grants id g r) :
    m.Follows (Traffic.answer again id r) (Traffic.answer other id r) g
      fun _ after => m.inv none after := by
  cases r with
  | look h => exact Follows.look inv h
  | edit h p => exact steady.edit inv h p
  | copy h => exact (Follows.look inv h).bind fun p _ _ inv => steady.add inv p
  | forward h edge => exact steady.forward serves inv grants edge
  | post message =>
    exact .atNode (fun node found => serves.onward inv fun target main => grants node target found main)
      fun _ => inv
  | gauge => exact .reading (.pure inv)
  | refill t => exact .update (.update fun _ _ => rfl) grants
  | drain => exact (serves.call inv grants).mono fun _ _ _ done => done.1
  | feed target h => exact .reading (.update (.update fun _ _ => rfl) grants)
  | shutdown => exact steady.shutdown serves inv grants.1 grants.2
  | closing => exact .reading (.pure inv)
  | environment => exact .reading (.pure inv)
  | report r => exact steady.report inv r
  | note line => exact steady.note inv line

section

variable {asks : Request → Prop} {keeps : σ → Prop} {error : EngineError → Prop}

theorem interpret (permits : m.Permits id g asks keeps error) (inv : m.inv none g)
    (active : g.Active id) {program : Program σ α} (obeys : program.Obeys asks keeps error) :
    m.Follows (Traffic.interpret again id program) (Traffic.interpret other id program) g
      fun _ after => m.inv none after := by
  induction program generalizing g with
  | done a => exact .pure inv
  | fail e => exact .throw (permits.fails inv obeys)
  | keep s next ih =>
    have stays := active.state s
    have inv := permits.keeps inv (.refl g) obeys.1
    exact .updating stays (ih (permits.stays stays) inv (active.stays stays) obeys.2)
  | ask r next ih =>
    refine (steady.answer serves inv (permits.grants inv (.refl g) obeys.1)).bind
      fun a _ stays inv => ?_
    exact ih a (permits.stays stays) inv (active.stays stays) (obeys.2 a)

theorem runStage (permits : m.Permits id g asks keeps error) (inv : m.inv none g)
    (active : g.Active id) {program : Here → Node σ → σ → Program σ Unit}
    (obeys : ∀ node s, g.node? id = some node → node.kind = .stage s →
      (program (node.here id) node s).Obeys asks keeps error) :
    m.Follows (Traffic.runStage again id program) (Traffic.runStage other id program) g
      fun _ after => m.inv none after := by
  refine .atNode (fun node found => ?_) fun _ => inv
  split
  next s stage => exact steady.interpret serves permits inv active (obeys node s found stage)
  next => exact .pure inv

theorem takeIn [Stage σ] (permits : m.Permits id g asks keeps error) (inv : m.inv none g)
    (active : g.Active id) (h : Handle)
    (begins : ∀ {mid node} p, m.inv none mid → g.Stays mid → mid.node? id = some node →
      m.inv none (mid.remember (.began id node (.accept h p))))
    (obeys : ∀ {mid node s}, m.inv none mid → mid.node? id = some node → node.kind = .stage s →
      (Stage.beforeAccept (node.here id) s h).Obeys asks keeps error ∧
        (Stage.accept (node.here id) s h).Obeys asks keeps error ∧
          (Stage.afterAccept (node.here id) s).Obeys asks keeps error) :
    m.Follows (Traffic.takeIn again id h) (Traffic.takeIn other id h) g fun _ after => m.inv none after := by
  have stage {mid : Graph σ} (stays : g.Stays mid) (inv : m.inv none mid)
      {program : Here → Node σ → σ → Program σ Unit}
      (obeys : ∀ node s, mid.node? id = some node → node.kind = .stage s →
        (program (node.here id) node s).Obeys asks keeps error) :
      m.Follows (Traffic.runStage again id program) (Traffic.runStage other id program) mid
        fun _ after => m.inv none after :=
    steady.runStage serves (permits.stays stays) inv (active.stays stays) obeys
  refine (stage (.refl g) inv fun _ _ found kind => (obeys inv found kind).1).bind
    fun _ _ stays inv => ?_
  refine (Follows.look inv h).bind fun p _ later inv => ?_
  have stays := stays.trans later
  have began : m.Follows (Run.began id (.accept h p)) (Run.began id (.accept h p)) _
      fun _ after => m.inv none after :=
    .atNode (fun node found => .update (.remember _ _) (begins p inv stays found)) fun _ => inv
  refine began.bind fun _ _ later inv => ?_
  have stays := stays.trans later
  refine (stage stays inv fun _ _ found kind => (obeys inv found kind).2.1).bind
    fun _ _ later inv => ?_
  have stays := stays.trans later
  exact stage stays inv fun _ _ found kind => (obeys inv found kind).2.2

end

end

end Steady

namespace Lawful

variable [Stage σ] {m : Conduct σ} (lawful : m.Lawful) {g : Graph σ} {id : NodeId}
  {act : Option NodeId}
include lawful

theorem phase (inv : m.inv act g) (id : NodeId) (phase : Phase) :
    m.Follows (Run.setPhase id phase) (Run.setPhase id phase) g fun _ after => m.inv act after :=
  .update (.update fun _ _ => rfl) (lawful.turned id phase inv)

theorem began (inv : m.inv (some id) g) {hook : Hook} (other : hook.accepts = false) :
    m.Follows (Run.began id hook) (Run.began id hook) g fun _ after => m.inv (some id) after :=
  .atNode (fun _ found => .update (.remember g _) (lawful.called inv found other)) fun _ => inv

section

variable {again other : Call → Run σ Unit} (serves : m.Serves again other)
include serves

omit serves in
theorem refreshEach (inv : m.inv (some id) g) (path : String) (pairs : List (String × String))
    (changed : List String) :
    m.Follows (Traffic.refreshEach id path pairs changed) (Traffic.refreshEach id path pairs changed) g
      fun _ after => m.inv (some id) after := by
  induction pairs generalizing g changed with
  | nil => exact .pure inv
  | cons pair rest ih =>
    refine .reading ?_
    dsimp only
    split
    · exact .throw (lawful.failed (lawful.outward inv) rfl)
    next value _ =>
      have inv := lawful.params pair.1 value inv
      refine .updating (.update fun _ _ => rfl) ?_
      split
      · exact (lawful.report inv _).bind fun _ _ _ inv => ih inv _
      · exact ih inv _

theorem refresh (entered : ∀ node, g.node? id = some node →
      m.inv (some id) (g.remember (.began id node (.refresh g.environment))))
    (active : g.Active id) :
    m.Follows (Traffic.refresh again id) (Traffic.refresh other id) g
      fun _ after => m.inv (some id) after := by
  have ⟨node, _, found, _⟩ := active
  have began : m.Follows (Run.began id (.refresh g.environment)) (Run.began id (.refresh g.environment))
      g fun _ after => m.inv (some id) after :=
    .at found (.update (.remember g _) (entered node found))
  refine .reading (began.bind fun _ mid stays inv => ?_)
  have active := active.stays stays
  refine .atNode (fun node _ => ?_) fun _ => inv
  refine (lawful.refreshEach inv node.path _ _).bind fun changed _ stays inv => ?_
  split
  · exact .pure inv
  · exact lawful.reconfigures changed serves inv (active.stays stays)

theorem accept (entered : ∀ node, g.node? id = some node →
      m.inv (some id) (g.remember (.began id node (.refresh g.environment))))
    (active : g.Active id) {h : Handle} (may : m.may (.deliver id (.parcel h)) g) :
    m.Follows (Traffic.accept again id h) (Traffic.accept other id h) g
      fun _ after => m.inv (some id) after := by
  rw [Traffic.accept_eq, Traffic.accept_eq]
  refine (lawful.refresh serves entered active).bind fun _ mid stays inv => ?_
  exact lawful.accepts h serves inv (active.stays stays) (lawful.may_stays may stays)

theorem resetParameter (inv : m.inv (some id) g) (active : g.Active id) (message : Message) :
    m.Follows (Traffic.resetParameter again id message) (Traffic.resetParameter other id message) g
      fun _ after => m.inv (some id) after := by
  refine .atNode (fun node _ => ?_) fun _ => inv
  split
  next name value _ =>
    dsimp only
    split
    · exact .throw_bind (lawful.failed (lawful.outward inv) rfl)
    · have inv := lawful.params name.render value inv
      have stays : g.Stays (g.updateNode id fun node =>
          { node with params := node.params.put name.render value }) := .update fun _ _ => rfl
      refine .updating stays ((lawful.report inv _).bind fun _ _ later inv => ?_)
      exact lawful.reconfigures _ serves inv (active.stays (stays.trans later))
  next => exact .throw (lawful.failed (lawful.outward inv) rfl)

theorem openMessage (inv : m.inv (some id) g) (active : g.Active id) (node : Node σ)
    (message : Message) :
    m.Follows (Traffic.openMessage again id node message) (Traffic.openMessage other id node message) g
      fun _ after => m.inv (some id) after := by
  unfold Traffic.openMessage
  split
  · refine (lawful.report inv _).bind fun _ _ stays inv => ?_
    refine (lawful.began inv rfl).bind fun _ _ later inv => ?_
    have active := active.stays (stays.trans later)
    dsimp only
    split
    · exact (lawful.resetParameter serves inv active message).bind fun _ _ _ inv => .pure inv
    · exact (lawful.opens message serves inv active).bind fun _ _ _ inv => .pure inv
  · exact .pure inv

omit serves in
theorem notice (message : Message) (entered : ∀ node, g.node? id = some node →
      m.inv (some id) (g.remember (.began id node (.notice message)))) (active : g.Active id) :
    m.Follows (Traffic.notice id message) (Traffic.notice id message) g
      fun _ after => m.inv (some id) after := by
  have ⟨node, _, found, _⟩ := active
  have began : m.Follows (Run.began id (.notice message)) (Run.began id (.notice message)) g
      fun _ after => m.inv (some id) after := .at found (.update (.remember g _) (entered node found))
  refine began.bind fun _ mid stays inv => ?_
  have active := active.stays stays
  refine .atNode (fun node found => ?_) fun _ => inv
  split
  next s stage =>
    exact .updating (active.state _) (lawful.noteAll (lawful.noticed message inv found stage) _)
  next => exact .pure inv

omit serves in
theorem holding {run run' : Run σ α} {node : Node σ} (found : g.node? id = some node)
    (idle : node.busy = false)
    (follows : m.Follows run run' (g.mark id true) fun _ after => m.inv (some id) after) :
    m.Follows (Run.holding id run) (Run.holding id run') g fun _ after => m.inv none after := by
  refine Run.Tracks.holding (Run.Tracks.mono follows fun result after meets => ?_)
  cases result with
  | ok a => exact ⟨.unmarked found idle meets.1, lawful.leave meets.2⟩
  | error e => exact ⟨.unmarked found idle meets.1, lawful.bad_mark id meets.2⟩

theorem meet (inv : m.inv none g) {message : Message}
    (may : m.may (.deliver id (.message message)) g) {node : Node σ} {s : σ}
    (found : g.node? id = some node) (stage : node.kind = .stage s) (idle : node.busy = false) :
    m.Follows (Traffic.meet again id node message) (Traffic.meet other id node message) g
      fun _ after => m.inv none after := by
  have active : (g.mark id true).Active id := ⟨_, s, Graph.node?_mark found true, stage, rfl⟩
  refine lawful.holding found idle ((lawful.notice message (fun last there => ?_) active).bind
    fun _ _ stays inv => ?_)
  · obtain rfl := Option.some.inj ((Graph.node?_mark found true).symm.trans there)
    exact lawful.enter inv may found stage idle rfl
  · refine (lawful.openMessage serves inv (active.stays stays) node message).bind
      fun kept _ _ inv => ?_
    exact .reading (.pure inv)

theorem pass (inv : m.inv none g) {message : Message}
    (may : m.may (.deliver id (.message message)) g) {node : Node σ} {s : σ}
    (found : g.node? id = some node) (stage : node.kind = .stage s) (idle : node.busy = false) :
    m.Follows (Traffic.pass again id node message) (Traffic.pass other id node message) g
      fun _ after => m.inv none after := by
  rw [Traffic.pass_eq, Traffic.pass_eq]
  refine (lawful.meet serves inv may found stage idle).bind fun ends _ stays inv => ?_
  split
  · exact .pure inv
  · exact serves.onward inv fun target main =>
      lawful.may_stays (lawful.passes may found main) stays

theorem settle {run run' : Run σ Unit}
    (follows : m.Follows run run' g fun _ after => m.inv none after) :
    m.Follows (do
        let result ← run.attempt
        Traffic.settle again id result)
      (do
        let result ← run'.attempt
        Traffic.settle other id result) g fun _ after => m.inv none after := by
  refine Run.Tracks.bind (Run.Tracks.attempt follows) (fun result mid ended => ?_)
    fun e mid ended => by obtain ⟨_, same, _⟩ := ended; cases same
  obtain ⟨_, same, meets⟩ := ended
  obtain rfl := Except.ok.inj same
  have stays := meets.stays
  have ends : m.Follows (Run.get result) (Run.get result) mid fun _ after => m.inv none after := by
    cases result with
    | ok _ => exact .of_ends ⟨.refl mid, meets.2⟩
    | error e => exact .of_ends ⟨.refl mid, meets.2⟩
  suffices settles : m.Follows (Traffic.settle again id result) (Traffic.settle other id result) mid
      fun _ after => m.inv none after from Run.Tracks.mono settles fun last after ended => by
    cases last with
    | ok _ => exact ⟨stays.trans ended.1, ended.2⟩
    | error e => exact ⟨stays.trans ended.1, ended.2⟩
  · refine .reading ?_
    dsimp only
    split
    next late =>
      have ⟨inv, may⟩ := lawful.resumed (meets.left fun _ inv => inv) late
      have stays : mid.Stays (mid.defer id false) := .update fun _ _ => rfl
      refine .updating stays ?_
      refine Run.Tracks.bind (Run.Tracks.attempt (serves.call inv may)) (fun closed last ended => ?_)
        fun e last ended => by obtain ⟨_, same, _⟩ := ended; cases same
      obtain ⟨_, same, closing⟩ := ended
      obtain rfl := Except.ok.inj same
      -- The error of the call itself comes before one from closing.
      cases result with
      | ok _ =>
        cases closed with
        | ok _ => exact .of_ends ⟨closing.1, closing.2.1⟩
        | error e => exact .of_ends closing
      | error e =>
        have left := closing.left fun _ done => done.1
        exact .of_ends ⟨closing.stays, lawful.outlasts meets.2 (stays.trans closing.stays) left⟩
    next => exact ends

theorem deliverToStage (inv : m.inv none g) {packet : Packet} (may : m.may (.deliver id packet) g)
    {node : Node σ} {s : σ} (found : g.node? id = some node) (stage : node.kind = .stage s) :
    m.Follows (Traffic.deliverToStage again id node packet)
      (Traffic.deliverToStage other id node packet) g fun _ after => m.inv none after := by
  unfold Traffic.deliverToStage
  split
  · exact .updating (.remember g _) (.throw (lawful.failed (lawful.refused inv) rfl))
  · split
    next busy =>
      refine .reading ?_
      split
      · exact lawful.report inv _
      · exact .throw (lawful.reentered inv found busy)
    next idle =>
      have idle : node.busy = false := by simpa using idle
      refine lawful.settle serves ?_
      cases packet with
      | message message => exact lawful.pass serves inv may found stage idle
      | parcel h =>
        have active : (g.mark id true).Active id := ⟨_, s, Graph.node?_mark found true, stage, rfl⟩
        refine lawful.holding found idle (lawful.accept serves (fun last there => ?_) active
          (lawful.may_mark may))
        obtain rfl := Option.some.inj ((Graph.node?_mark found true).symm.trans there)
        exact lawful.enter inv may found stage idle rfl

theorem fanOut (inv : m.inv none g) {packet : Packet} {node : Node σ}
    (may : ∀ target, node.Leads target → m.may (.deliver target packet) g) :
    m.Follows (Traffic.fanOut again node packet) (Traffic.fanOut other node packet) g
      fun _ after => m.inv none after := by
  cases packet with
  | parcel h =>
    refine (Follows.look inv h).bind fun p _ stays inv => ?_
    refine (lawful.edit inv _ _).bind fun _ _ later inv => ?_
    have stays := stays.trans later
    refine (lawful.report inv _).bind fun _ _ later inv => ?_
    have stays := stays.trans later
    split
    · exact .throw (lawful.failed inv rfl)
    next branch _ leads =>
      refine (serves.call inv (lawful.may_stays ?_ stays)).mono fun _ _ _ done => done.1
      exact may branch (.inr (.inl leads))
    · exact serves.onward inv fun target main => lawful.may_stays (may target (.inl main)) stays
  | message message =>
    refine (serves.onward inv fun target branch => may target (.inr (.inl branch))).bind
      fun _ _ stays inv => ?_
    exact serves.onward inv fun target main => lawful.may_stays (may target (.inl main)) stays

theorem deliver (inv : m.inv none g) {packet : Packet} (may : m.may (.deliver id packet) g) :
    m.Follows (Traffic.deliver again id packet) (Traffic.deliver other id packet) g
      fun _ after => m.inv none after := by
  refine .atNode (fun node found => ?_) fun _ => inv
  split
  next entry _ kind =>
    refine serves.onward inv fun target same => ?_
    refine lawful.next may found (fun s stage => ?_) (.inr (.inr ?_))
    · rw [kind] at stage
      cases stage
    · rw [Node.entry, kind, same]
  next kind =>
    refine lawful.fanOut serves inv fun target leads => lawful.next may found (fun s stage => ?_) leads
    rw [kind] at stage
    cases stage
  next s stage => exact lawful.deliverToStage serves inv may found stage

omit serves in
theorem callLast {hook : Hook} {program : Here → σ → Program σ Unit}
    (began : ∀ node, g.node? id = some node → m.inv (some id) (g.remember (.began id node hook)))
    (active : g.Active id)
    (follows : ∀ mid, m.inv (some id) mid → mid.Active id →
      m.Follows (Traffic.runStage again id fun here _ s => program here s)
        (Traffic.runStage other id fun here _ s => program here s) mid
          fun _ after => m.inv (some id) after) :
    m.Follows (Traffic.callLast again id hook program) (Traffic.callLast other id hook program) g
      fun _ after => m.inv (some id) after := by
  have ⟨node, _, found, _⟩ := active
  have first : m.Follows (Run.began id hook) (Run.began id hook) g
      fun _ after => m.inv (some id) after := .at found (.update (.remember g _) (began node found))
  refine first.bind fun _ mid stays inv => ?_
  have called := follows mid inv (active.stays stays)
  refine Run.Tracks.bind (Run.Tracks.attempt called) (fun result last ended => ?_)
    fun e last ended => by obtain ⟨_, same, _⟩ := ended; cases same
  obtain ⟨_, same, meets⟩ := ended
  obtain rfl := Except.ok.inj same
  cases result with
  | ok _ => exact .of_ends meets
  | error e =>
    have meets : m.Meets mid (fun _ after => m.inv (some id) after)
        (.error e : Except EngineError Unit) (last.remember (.failed id hook e)) :=
      ⟨meets.1.trans (.remember last _), lawful.bad_failed id hook meets.2⟩
    exact .of_ends meets

theorem closeStage (inv : m.inv none g) (may : m.may (.close id) g) {node : Node σ} {s : σ}
    (found : g.node? id = some node) (stage : node.kind = .stage s) :
    m.Follows (Traffic.closeStage again id node) (Traffic.closeStage other id node) g
      fun _ after => m.inv none after := by
  unfold Traffic.closeStage
  split
  · exact .pure inv
  · split
    next busy =>
      exact .updating (.update fun _ _ => rfl) (lawful.report (lawful.deferred inv may found busy) _)
    next idle =>
      have idle : node.busy = false := by simpa using idle
      -- The stage holds its lock through both hooks; only then is the close passed on.
      refine (lawful.holding found idle ?_).bind fun loops _ stays inv => ?_
      · have there : ((g.mark id true).turn id .flushing).node? id =
            some { node with busy := true, phase := .flushing } :=
          Graph.node?_turn (Graph.node?_mark found true) .flushing
        have active : ((g.mark id true).turn id .flushing).Active id := ⟨_, s, there, stage, rfl⟩
        refine .updating (.update fun _ _ => rfl) ?_
        refine (lawful.callLast (fun last same => ?_) active fun mid inv active =>
          lawful.flushes serves may inv active).bind fun _ _ stays inv => ?_
        · obtain rfl := Option.some.inj (there.symm.trans same)
          exact lawful.closing inv may found stage idle
        · have active := active.stays stays
          refine (lawful.phase inv id .closing).bind fun _ _ stays inv => ?_
          have active := active.stays stays
          refine (lawful.callLast (fun last same => lawful.called inv same rfl) active
            fun mid inv active => lawful.closes serves may inv active).bind fun _ _ stays inv => ?_
          refine (lawful.phase inv id .closed).bind fun _ _ _ inv => ?_
          exact .reading (.pure inv)
      · refine (lawful.report inv _).bind fun _ _ later inv => ?_
        split
        · exact .pure inv
        · exact serves.onward inv fun target main =>
            lawful.may_stays (lawful.ends may found (.inl main)) (stays.trans later)

theorem close (inv : m.inv none g) (may : m.may (.close id) g) :
    m.Follows (Traffic.close again id) (Traffic.close other id) g fun _ after => m.inv none after := by
  refine .atNode (fun node found => ?_) fun _ => inv
  have ends (target : NodeId) (leads : node.Leads target) : m.may (.close target) g :=
    lawful.ends may found leads
  split
  next s stage => exact lawful.closeStage serves inv may found stage
  · split
    · exact .pure inv
    · refine (lawful.phase inv id .closed).bind fun _ _ stays inv => ?_
      refine (serves.onward inv fun target branch =>
        lawful.may_stays (ends target (.inr (.inl branch))) stays).bind fun _ _ later inv => ?_
      exact serves.onward inv fun target main =>
        lawful.may_stays (ends target (.inl main)) (stays.trans later)
  next entry _ kind =>
    split
    · exact .pure inv
    · refine (lawful.phase inv id .closed).bind fun _ _ stays inv => ?_
      refine serves.onward inv fun target same => lawful.may_stays (ends target ?_) stays
      exact .inr (.inr (by rw [Node.entry, kind, same]))

theorem drain (inv : m.inv none g) (may : m.may (.drain id) g) :
    m.Follows (Traffic.drain again id) (Traffic.drain other id) g
      fun _ after => m.inv none after ∧ after.Relieved id := by
  cases found : g.node? id with
  | none =>
    -- A node that is not there has an empty tank, and releasing from it changes nothing.
    have tank : ((g.node? id).map Node.tank).getD .empty = .empty := by
      rw [found]
      rfl
    have same : g.updateNode id (fun node => { node with tank := Tank.empty.release.2 }) = g :=
      Graph.updateNode_same fun _ there => nomatch found.symm.trans there
    refine .of_start (Traffic.drain_start tank again) (Traffic.drain_start tank other) ?_
    refine .updating (.update fun _ _ => rfl) ?_
    rw [same]
    exact .pure ⟨inv, fun _ there => nomatch found.symm.trans there⟩
  | some node =>
    have tank : ((g.node? id).map Node.tank).getD .empty = node.tank := by
      rw [found]
      rfl
    have releases := node.tank.release_releases
    have ⟨inv, leads⟩ := lawful.released inv may found
    have stays : g.Stays (g.updateNode id fun other => { other with tank := node.tank.release.2 }) :=
      .update fun _ _ => rfl
    refine .of_start (Traffic.drain_start tank again) (Traffic.drain_start tank other) ?_
    refine .updating stays ?_
    cases left : node.tank.release.1 with
    | none =>
      refine .pure ⟨inv, fun last there => ?_⟩
      rw [Graph.node?_updateNode, if_pos rfl, found] at there
      cases there
      exact releases.relieved left
    | some h =>
      refine .reading ((lawful.report inv _).bind fun _ _ later inv => ?_)
      have stays := stays.trans later
      refine (lawful.forward serves inv (fun last target there main => ?_) .main).bind
        fun _ _ later inv => ?_
      -- The forward may have changed stages, but no links, so the target is still the one that was
      -- allowed.
      · obtain ⟨before, was, same⟩ := stays.node_before there
        obtain rfl : node = before := Option.some.inj (found.symm.trans was)
        have main := (Node.main_of_fixed (Node.fixed_of_stance same)).symm.trans main
        exact lawful.may_stays (leads h target main) stays
      · exact serves.call inv (lawful.may_stays may (stays.trans later))

theorem step {call : Call} (inv : m.inv none g) (may : m.may call g) :
    m.Follows (Traffic.step again call) (Traffic.step other call) g
      fun _ after => m.inv none after ∧ call.Done after := by
  cases call with
  | deliver id packet =>
    exact (lawful.deliver serves inv may).mono fun _ _ _ inv => ⟨inv, trivial⟩
  | close id => exact (lawful.close serves inv may).mono fun _ _ _ inv => ⟨inv, trivial⟩
  | drain id => exact lawful.drain serves inv may

end

end Lawful

end Conduct

namespace Traffic

theorem drain_relieved {g : Graph σ} {id : NodeId} (relieved : g.Relieved id)
    (again : Call → Run σ Unit) : (drain again id).start g = some (.ok (), g) := by
  obtain ⟨tank, there, stopped⟩ : ∃ tank, ((g.node? id).map Node.tank).getD .empty = tank ∧
      tank.popExcess = none := by
    cases found : g.node? id with
    | none => exact ⟨_, rfl, rfl⟩
    | some node => exact ⟨_, rfl, relieved node found⟩
  have same : g.updateNode id (fun node => { node with tank }) = g := by
    refine Graph.updateNode_same fun node found => ?_
    rw [found] at there
    subst there
    rfl
  rw [drain_start there, Tank.release_relieved stopped]
  have opened : (do
      Run.setTank id tank
      sendOn again id tank.released none : Run σ Unit).start g =
        some (.ok (), g.updateNode id fun node => { node with tank }) := rfl
  rw [opened, same]

variable [Stage σ]

open Classical in
/-- Performs a call like `perform`, but gets stuck at the first call within it that is not in order, if
there is one. -/
noncomputable def audited (fits : (Call → Run σ Unit) → Call → Graph σ → Prop) : Nat → Call → Run σ Unit
  | 0, _ => Run.unfinished
  | depth + 1, call => do
    if fits (audited fits depth) call (← Run.graph) then step (audited fits depth) call
    else Run.unfinished

end Traffic

namespace Conduct

variable [Stage σ] {m : Conduct σ}

theorem Lawful.serves (lawful : m.Lawful) (depth : Nat) :
    m.Serves (Traffic.perform depth) (Traffic.perform depth) := by
  induction depth with
  | zero => exact ⟨fun _ _ => ⟨rfl, trivial⟩, fun _ _ => ⟨rfl, trivial⟩⟩
  | succ depth ih =>
    refine ⟨lawful.step ih, fun _ relieved => ?_⟩
    have drained := Traffic.drain_relieved relieved (Traffic.perform depth)
    exact .of_start drained drained ⟨rfl, rfl⟩

theorem Lawful.audits (lawful : m.Lawful) {fits : (Call → Run σ Unit) → Call → Graph σ → Prop}
    (sound : ∀ {again other : Call → Run σ Unit} {call g}, m.Serves again other → m.inv none g →
      m.may call g → fits other call g)
    (idle : ∀ {other : Call → Run σ Unit} {id g}, m.slack id g → g.Relieved id →
      fits other (.drain id) g)
    (depth : Nat) : m.Serves (Traffic.perform depth) (Traffic.audited fits depth) := by
  induction depth with
  | zero => exact ⟨fun _ _ => ⟨rfl, trivial⟩, fun _ _ => ⟨rfl, trivial⟩⟩
  | succ depth ih =>
    have opened {call : Call} {g : Graph σ} (holds : fits (Traffic.audited fits depth) call g) :
        (Traffic.audited fits (depth + 1) call).start g =
          (Traffic.step (Traffic.audited fits depth) call).start g := by
      have looked : (Run.graph : Run σ (Graph σ)).start g = some (.ok g, g) := rfl
      rw [Traffic.audited, Run.start_bind, looked, Option.bind_some]
      dsimp only
      rw [if_pos holds]
    refine ⟨fun inv may => ?_, fun slack relieved => ?_⟩
    · exact .of_start rfl (opened (sound ih inv may)) (lawful.step ih inv may)
    · have drained := Traffic.drain_relieved relieved (Traffic.perform depth)
      have audited := (opened (idle slack relieved)).trans (Traffic.drain_relieved relieved _)
      exact .of_start drained audited ⟨rfl, rfl⟩

end Conduct

end Sluice
