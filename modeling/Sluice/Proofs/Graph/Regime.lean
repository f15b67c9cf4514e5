import Sluice.Proofs.Graph.Advance

set_option autoImplicit false

namespace Sluice

variable {σ α β : Type}

def EngineError.isStageClosed : EngineError → Bool
  | .routing (.stageClosed _) => true
  | _ => false

def Event.logged : Event σ → Bool
  | .report _ => true
  | .note _ => true
  | _ => false

def Hook.last : Hook → Bool
  | .flush => true
  | .close => true
  | _ => false

def Request.sends : Request → Bool
  | .forward _ _ => true
  | .post _ => true
  | .drain => true
  | _ => false

def Node.next [Stage σ] (node : Node σ) : List NodeId :=
  match node.kind with
  | .stage s => if Stage.feedsBack s then [] else node.main.toList
  | .fanOut => node.branch.toList ++ node.main.toList
  | .subGraph entry _ => entry.toList

def Program.Obeys (asks : Request → Prop) (keeps : σ → Prop) (error : EngineError → Prop) :
    Program σ α → Prop
  | .done _ => True
  | .fail e => error e
  | .keep s next => keeps s ∧ next.Obeys asks keeps error
  | .ask r next => asks r ∧ ∀ a, (next a).Obeys asks keeps error

structure Stage.Obeys [Stage σ] (asks : Request → Prop) (keeps : σ → Prop)
    (error : EngineError → Prop) (here : Here) (s : σ) : Prop where
  accept : ∀ h, (Stage.accept here s h).Obeys asks keeps error
  beforeAccept : ∀ h, (Stage.beforeAccept here s h).Obeys asks keeps error
  afterAccept : (Stage.afterAccept here s).Obeys asks keeps error
  notice : ∀ m, keeps (Stage.notice m s).1
  onMessage : ∀ m, (Stage.onMessage here s m).Obeys asks keeps error
  reconfigure : ∀ params changed, (Stage.reconfigure here params changed s).Obeys asks keeps error
  flush : (Stage.flush here s).Obeys asks keeps error
  close : (Stage.close here s).Obeys asks keeps error

theorem Program.obeys_any {asks : Request → Prop} {keeps : σ → Prop} {error : EngineError → Prop}
    (anything : ∀ r, asks r) (anywhere : ∀ s, keeps s) (anyhow : ∀ e, error e)
    (program : Program σ α) : program.Obeys asks keeps error := by
  induction program with
  | done a => exact trivial
  | fail e => exact anyhow e
  | keep s next ih => exact ⟨anywhere s, ih⟩
  | ask r next ih => exact ⟨anything r, ih⟩

theorem Stage.obeys_any [Stage σ] {asks : Request → Prop} {keeps : σ → Prop}
    {error : EngineError → Prop} (anything : ∀ r, asks r) (anywhere : ∀ s, keeps s)
    (anyhow : ∀ e, error e) (here : Here) (s : σ) : Stage.Obeys asks keeps error here s := by
  have any {α : Type} (program : Program σ α) : program.Obeys asks keeps error :=
    program.obeys_any anything anywhere anyhow
  constructor
  case notice => exact fun _ => anywhere _
  all_goals (intros; exact any _)

theorem Program.Obeys.mono {asks asks' : Request → Prop} {keeps keeps' : σ → Prop}
    {error error' : EngineError → Prop} {program : Program σ α} (obeys : program.Obeys asks keeps error)
    (more : ∀ r, asks r → asks' r) (wider : ∀ s, keeps s → keeps' s)
    (looser : ∀ e, error e → error' e) : program.Obeys asks' keeps' error' := by
  induction program with
  | done a => exact trivial
  | fail e => exact looser e obeys
  | keep s next ih => exact ⟨wider s obeys.1, ih obeys.2⟩
  | ask r next ih => exact ⟨more r obeys.1, fun a => ih a (obeys.2 a)⟩

theorem Stage.Obeys.mono [Stage σ] {asks asks' : Request → Prop} {keeps keeps' : σ → Prop}
    {error error' : EngineError → Prop} {here : Here} {s : σ}
    (obeys : Stage.Obeys asks keeps error here s) (more : ∀ r, asks r → asks' r)
    (wider : ∀ s, keeps s → keeps' s) (looser : ∀ e, error e → error' e) :
    Stage.Obeys asks' keeps' error' here s where
  accept := fun h => (obeys.accept h).mono more wider looser
  beforeAccept := fun h => (obeys.beforeAccept h).mono more wider looser
  afterAccept := obeys.afterAccept.mono more wider looser
  notice := fun m => wider _ (obeys.notice m)
  onMessage := fun m => (obeys.onMessage m).mono more wider looser
  reconfigure := fun params changed => (obeys.reconfigure params changed).mono more wider looser
  flush := obeys.flush.mono more wider looser
  close := obeys.close.mono more wider looser

theorem Traffic.drain_ends {again : Call → Run σ Unit} {g : Graph σ} {id : NodeId} {node : Node σ}
    {post : Except EngineError Unit → Graph σ → Prop} (found : g.node? id = some node) :
    (drain again id).Ends g post ↔ (do
      Run.setTank id node.tank.release.2
      match node.tank.release.1 with
      | none => pure ()
      | some h => do
        let path := (← Run.graph).pathOf id
        Run.report (.tankForwarded path node.tank.release.2.released)
        forward again id h .main
        again (.drain id) : Run σ Unit).Ends g post := by
  unfold drain Run.tankOf
  simp only [Run.ends_bind, Run.ends_graph, Run.ends_pure]
  rw [found]
  rfl

/-- What holds around the calls of a run: of a graph, between two graphs, and of errors. The nodes
that packets get to and the stages that are called may be limited. -/
structure Regime (σ : Type) where
  inv : Graph σ → Prop
  rel : Graph σ → Graph σ → Prop
  /-- From the start of a delivery to a stage to the end of all but a close that was put off. -/
  during : NodeId → Graph σ → Graph σ → Prop
  error : EngineError → Prop
  scope : NodeId → Prop
  acts : NodeId → Prop
  ready : NodeId → Graph σ → Prop
  asks : NodeId → Request → Prop
  keeps : NodeId → σ → Prop

namespace Regime

def Allows (m : Regime σ) (g after : Graph σ) : Prop := m.inv after ∧ m.rel g after

def Admits (m : Regime σ) (result : Except EngineError α) : Prop :=
  ∀ e, result = .error e → m.error e

def Follows (m : Regime σ) (run : Run σ α) (g : Graph σ) : Prop :=
  run.Ends g fun result after => m.Allows g after ∧ m.Admits result

structure Lawful [Stage σ] (m : Regime σ) : Prop where
  refl : ∀ g, m.rel g g
  trans : ∀ {g mid after}, m.rel g mid → m.rel mid after → m.rel g after
  during_trans : ∀ {id g mid after}, m.during id g mid → m.rel mid after → m.during id g after
  advances : ∀ {g after}, m.rel g after → g.Advances after
  error : ∀ e, e.isStageClosed = false → m.error e
  closed : ∀ {g id node s} packet, m.inv g → m.scope id → g.node? id = some node →
    node.kind = .stage s → node.phase = .closed →
      m.Allows g { g with history := .refused id packet :: g.history } ∧
        m.error (.routing (.stageClosed node.path))
  logged : ∀ {g event}, m.inv g → event.logged = true →
    m.Allows g { g with history := event :: g.history }
  store : ∀ {g} store, m.inv g → m.Allows g { g with store }
  enter : ∀ {g id}, m.inv g → m.scope id → g.Open id →
    m.acts id ∧ m.inv (g.mark id true) ∧ m.ready id (g.mark id true)
  leave : ∀ {g id after}, m.inv g → m.scope id → g.Open id → m.Allows (g.mark id true) after →
    m.inv (after.mark id false) ∧ m.during id g (after.mark id false)
  ready_held : ∀ {g id}, m.ready id g → g.Held id
  ready_rel : ∀ {g after id}, m.ready id g → m.rel g after → m.ready id after
  called : ∀ {g id node hook}, m.inv g → m.ready id g → g.node? id = some node →
    hook.last = false → m.Allows g { g with history := .began id node hook :: g.history }
  state : ∀ {g id s}, m.inv g → m.acts id → g.Held id → m.keeps id s →
    m.Allows g (g.updateNode id fun node => { node with kind := .stage s })
  params : ∀ {g id} (f : ParamTable → ParamTable), m.inv g → m.acts id → g.Held id →
    m.Allows g (g.updateNode id fun node => { node with params := f node.params })
  refill : ∀ {g id t}, m.inv g → m.acts id → g.Held id → m.asks id (.refill t) →
    m.Allows g (g.updateNode id fun node => { node with tank := t })
  released : ∀ {g id node}, m.inv g → m.acts id → g.Held id → g.node? id = some node →
    m.Allows g (g.updateNode id fun other => { other with tank := node.tank.release.2 })
  fed : ∀ {g id target h} p, m.inv g → m.acts id → m.asks id (.feed target h) →
    m.Allows g (g.updateNode target fun node => { node with tank := node.tank.push h p })
  programs : ∀ {g id node s}, m.inv g → m.acts id → g.node? id = some node →
    node.kind = .stage s → Stage.Obeys (m.asks id) (m.keeps id) m.error (node.here id) s
  next : ∀ {g id node target}, m.inv g → m.scope id → g.node? id = some node →
    target ∈ node.next → m.scope target
  sends : ∀ {g id node target r}, m.inv g → m.acts id → g.node? id = some node →
    node.main = some target → m.asks id r → r.sends = true → m.scope target

/-- Further calls keep to a regime, and so do shutting down and closing what was put off. -/
structure Serves [Stage σ] (m : Regime σ) (again : Call → Run σ Unit) : Prop where
  deliver : ∀ {g id} packet, m.inv g → m.scope id → m.Follows (again (.deliver id packet)) g
  drain : ∀ {g id}, m.inv g → m.acts id → g.Held id → m.asks id .drain →
    m.Follows (again (.drain id)) g
  shutdown : ∀ {g id}, m.inv g → m.acts id → g.Held id → m.asks id .shutdown →
    m.Follows (Traffic.shutdown again) g
  settle : ∀ {g mid id} {result : Except EngineError Unit}, m.inv g → m.scope id → g.Open id →
    m.inv mid → m.during id g mid → m.Admits result →
      (Traffic.settle again id result).Ends mid fun result after =>
        m.Allows g after ∧ m.Admits result

theorem admits_ok (m : Regime σ) (a : α) : m.Admits (.ok a) := by
  rintro e ⟨⟩

theorem admits_error {m : Regime σ} {e : EngineError} (error : m.error e) :
    m.Admits (.error e : Except EngineError α) := by
  rintro _ ⟨⟩
  exact error

theorem update {m : Regime σ} {g : Graph σ} {f : Graph σ → Graph σ} (allows : m.Allows g (f g)) :
    m.Follows (Run.update f) g :=
  ⟨allows, m.admits_ok ()⟩

-- Reading the graph changes nothing, so that what is known of it stays known.
theorem reading {m : Regime σ} {g : Graph σ} {next : Graph σ → Run σ β}
    (rest : m.Follows (next g) g) : m.Follows (Run.graph >>= next) g := by
  unfold Follows
  rw [Run.ends_bind, Run.ends_graph]
  exact rest

namespace Lawful

variable [Stage σ] {m : Regime σ} (lawful : m.Lawful) {g after : Graph σ} {id : NodeId}
include lawful

theorem allows_refl (inv : m.inv g) : m.Allows g g := ⟨inv, lawful.refl g⟩

theorem afterwards {mid : Graph σ} {run : Run σ α} (before : m.rel g mid) (follows : m.Follows run mid) :
    run.Ends mid fun result after => m.Allows g after ∧ m.Admits result :=
  follows.mono fun _ _ ⟨⟨inv, rel⟩, admits⟩ => ⟨⟨inv, lawful.trans before rel⟩, admits⟩

theorem pure (inv : m.inv g) (a : α) : m.Follows (pure a : Run σ α) g :=
  ⟨lawful.allows_refl inv, m.admits_ok a⟩

theorem throw (inv : m.inv g) {e : EngineError} (error : m.error e) :
    m.Follows (MonadExcept.throw e : Run σ α) g :=
  ⟨lawful.allows_refl inv, admits_error error⟩

theorem bind {run : Run σ α} {next : α → Run σ β} (first : m.Follows run g)
    (rest : ∀ a after, m.inv after → m.rel g after → m.Follows (next a) after) :
    m.Follows (run >>= next) g := by
  unfold Follows
  rw [Run.ends_bind]
  refine first.mono fun result after ⟨⟨inv, rel⟩, admits⟩ => ?_
  cases result with
  | ok a =>
    refine (rest a after inv rel).mono fun result last ⟨⟨inv', rel'⟩, admits'⟩ => ?_
    exact ⟨⟨inv', lawful.trans rel rel'⟩, admits'⟩
  | error e => exact ⟨⟨inv, rel⟩, admits_error (admits e rfl)⟩

theorem atNode (inv : m.inv g) {f : Node σ → Run σ Unit}
    (follows : ∀ node, g.node? id = some node → m.Follows (f node) g) :
    m.Follows (Run.atNode id f) g := by
  unfold Follows
  rw [Run.ends_atNode]
  exact ⟨follows, fun _ => ⟨lawful.allows_refl inv, m.admits_ok ()⟩⟩

theorem report (inv : m.inv g) (r : Report) : m.Follows (Run.report r) g :=
  update (lawful.logged inv rfl)

theorem note (inv : m.inv g) (line : String) : m.Follows (Run.remember (.note line)) g :=
  update (lawful.logged inv rfl)

theorem noteAll (inv : m.inv g) (lines : List String) : m.Follows (Run.noteAll lines) g := by
  induction lines generalizing g with
  | nil => exact lawful.pure inv ()
  | cons line rest ih => exact lawful.bind (lawful.note inv line) fun _ _ inv _ => ih inv

theorem look (inv : m.inv g) (h : Handle) : m.Follows (Run.look h) g :=
  reading (lawful.pure inv _)

theorem edit (inv : m.inv g) (h : Handle) (p : Parcel) : m.Follows (Run.edit h p) g :=
  update (lawful.store _ inv)

theorem add (inv : m.inv g) (p : Parcel) : m.Follows (Run.add p) g :=
  ⟨lawful.store _ inv, m.admits_ok _⟩

theorem began (inv : m.inv g) (ready : m.ready id g) {hook : Hook} (ordinary : hook.last = false) :
    m.Follows (Run.began id hook) g :=
  lawful.atNode inv fun _ found => update (lawful.called inv ready found ordinary)

section

variable {again : Call → Run σ Unit} (serves : m.Serves again)
include serves

theorem onward (inv : m.inv g) {target : Option NodeId} (packet : Packet)
    (within : ∀ id, target = some id → m.scope id) :
    m.Follows (Traffic.onward again target (.deliver · packet)) g := by
  unfold Traffic.onward
  split
  next id => exact serves.deliver packet inv (within id rfl)
  next => exact lawful.pure inv ()

theorem forward (inv : m.inv g)
    (within : ∀ node target, g.node? id = some node → node.main = some target → m.scope target)
    (h : Handle) (edge : Edge) : m.Follows (Traffic.forward again id h edge) g := by
  refine lawful.atNode inv fun node found => reading ?_
  dsimp only
  split
  · exact lawful.throw inv (lawful.error _ rfl)
  · split
    · exact lawful.pure inv ()
    next target next follows =>
      have main := (Graph.next_after follows).1
      exact lawful.bind (lawful.edit inv _ _) fun _ _ inv _ =>
        lawful.bind (lawful.report inv _) fun _ _ inv _ =>
          serves.deliver _ inv (within node target found main)

theorem answer (inv : m.inv g) (acts : m.acts id) (held : g.Held id) (r : Request)
    (asks : m.asks id r) : m.Follows (Traffic.answer again id r) g := by
  cases r with
  | look h => exact lawful.look inv h
  | edit h p => exact lawful.edit inv h p
  | copy h => exact lawful.bind (lawful.look inv h) fun p _ inv _ => lawful.add inv p
  | forward h edge =>
    exact lawful.forward serves inv (fun _ _ found main => lawful.sends inv acts found main asks rfl)
      h edge
  | post message =>
    refine lawful.atNode inv fun node found => lawful.onward serves inv _ fun target main => ?_
    exact lawful.sends inv acts found main asks rfl
  | gauge => exact reading (lawful.pure inv _)
  | refill t => exact update (lawful.refill inv acts held asks)
  | drain => exact serves.drain inv acts held asks
  | feed target h =>
    exact lawful.bind (lawful.look inv h) fun p _ inv _ => update (lawful.fed p inv acts asks)
  | shutdown => exact serves.shutdown inv acts held asks
  | closing => exact reading (lawful.pure inv _)
  | environment => exact reading (lawful.pure inv _)
  | report r => exact lawful.report inv r
  | note line => exact lawful.note inv line

theorem interpret (inv : m.inv g) (acts : m.acts id) (held : g.Held id) (program : Program σ α)
    (obeys : program.Obeys (m.asks id) (m.keeps id) m.error) :
    m.Follows (Traffic.interpret again id program) g := by
  induction program generalizing g with
  | done a => exact lawful.pure inv a
  | fail e => exact lawful.throw inv obeys
  | keep s next ih =>
    refine lawful.bind (update (lawful.state inv acts held obeys.1)) fun _ after inv rel => ?_
    exact ih inv (held.advances (lawful.advances rel)) obeys.2
  | ask r next ih =>
    refine lawful.bind (lawful.answer serves inv acts held r obeys.1) fun a after inv rel => ?_
    exact ih a inv (held.advances (lawful.advances rel)) (obeys.2 a)

theorem runStage (inv : m.inv g) (acts : m.acts id) (held : g.Held id)
    {program : Here → Node σ → σ → Program σ Unit}
    (obeys : ∀ here node s, Stage.Obeys (m.asks id) (m.keeps id) m.error here s →
      (program here node s).Obeys (m.asks id) (m.keeps id) m.error) :
    m.Follows (Traffic.runStage again id program) g := by
  refine lawful.atNode inv fun node found => ?_
  split
  next s stage =>
    exact lawful.interpret serves inv acts held _
      (obeys _ node s (lawful.programs inv acts found stage))
  next => exact lawful.pure inv ()

theorem reconfigure (inv : m.inv g) (acts : m.acts id) (held : g.Held id)
    (changed : List String) : m.Follows (Traffic.reconfigure again id changed) g :=
  lawful.runStage serves inv acts held fun _ node _ obeys => obeys.reconfigure node.params changed

omit serves in
theorem refreshEach (inv : m.inv g) (acts : m.acts id) (held : g.Held id) (path : String)
    (pairs : List (String × String)) (changed : List String) :
    m.Follows (Traffic.refreshEach id path pairs changed) g := by
  induction pairs generalizing g changed with
  | nil => exact lawful.pure inv _
  | cons pair rest ih =>
    refine reading ?_
    dsimp only
    split
    · exact lawful.throw inv (lawful.error _ rfl)
    next value _ =>
      have writes := lawful.params (fun params => params.put pair.1 value) inv acts held
      refine lawful.bind (update writes) fun _ after inv rel => ?_
      have held := held.advances (lawful.advances rel)
      split
      · exact lawful.bind (lawful.report inv _) fun _ _ inv rel =>
          ih inv (held.advances (lawful.advances rel)) _
      · exact ih inv held _

theorem refresh (inv : m.inv g) (acts : m.acts id) (ready : m.ready id g) :
    m.Follows (Traffic.refresh again id) g := by
  refine reading (lawful.bind (lawful.began inv ready rfl) fun _ mid inv rel => ?_)
  have held := (lawful.ready_held ready).advances (lawful.advances rel)
  refine lawful.atNode inv fun node _ => ?_
  refine lawful.bind (lawful.refreshEach inv acts held node.path _ _) fun changed _ inv rel => ?_
  split
  · exact lawful.pure inv ()
  · exact lawful.reconfigure serves inv acts (held.advances (lawful.advances rel)) changed

theorem accept (inv : m.inv g) (acts : m.acts id) (ready : m.ready id g) (h : Handle) :
    m.Follows (Traffic.accept again id h) g := by
  refine lawful.bind (lawful.refresh serves inv acts ready) fun _ mid inv rel => ?_
  have ready := lawful.ready_rel ready rel
  refine lawful.bind (lawful.runStage serves inv acts (lawful.ready_held ready)
    fun _ _ _ obeys => obeys.beforeAccept h) fun _ mid inv rel => ?_
  have ready := lawful.ready_rel ready rel
  refine lawful.bind (lawful.look inv h) fun p mid inv rel => ?_
  have ready := lawful.ready_rel ready rel
  refine lawful.bind (lawful.began inv ready rfl) fun _ mid inv rel => ?_
  have held := (lawful.ready_held ready).advances (lawful.advances rel)
  refine lawful.bind (lawful.runStage serves inv acts held
    fun _ _ _ obeys => obeys.accept h) fun _ mid inv rel => ?_
  exact lawful.runStage serves inv acts (held.advances (lawful.advances rel))
    fun _ _ _ obeys => obeys.afterAccept

theorem resetParameter (inv : m.inv g) (acts : m.acts id) (held : g.Held id)
    (message : Message) : m.Follows (Traffic.resetParameter again id message) g := by
  refine lawful.atNode inv fun node _ => ?_
  split
  next name value _ =>
    dsimp only
    split
    · exact lawful.throw inv (lawful.error _ rfl)
    · have writes := lawful.params (fun params => params.put name.render value) inv acts held
      refine lawful.bind (update writes) fun _ _ inv rel => ?_
      have held := held.advances (lawful.advances rel)
      refine lawful.bind (lawful.report inv _) fun _ _ inv rel => ?_
      exact lawful.reconfigure serves inv acts (held.advances (lawful.advances rel)) _
  next => exact lawful.throw inv (lawful.error _ rfl)

theorem openMessage (inv : m.inv g) (acts : m.acts id) (ready : m.ready id g) (node : Node σ)
    (message : Message) : m.Follows (Traffic.openMessage again id node message) g := by
  unfold Traffic.openMessage
  split
  · refine lawful.bind (lawful.report inv _) fun _ _ inv rel => ?_
    have ready := lawful.ready_rel ready rel
    refine lawful.bind (lawful.began inv ready rfl) fun _ _ inv rel => ?_
    have held := (lawful.ready_held ready).advances (lawful.advances rel)
    dsimp only
    split
    · exact lawful.bind (lawful.resetParameter serves inv acts held message) fun _ _ inv _ =>
        lawful.pure inv _
    · exact lawful.bind (lawful.runStage serves inv acts held fun _ _ _ obeys =>
        obeys.onMessage message) fun _ _ inv _ => lawful.pure inv _
  · exact lawful.pure inv _

omit serves in
theorem notice (inv : m.inv g) (acts : m.acts id) (ready : m.ready id g) (message : Message) :
    m.Follows (Traffic.notice id message) g := by
  refine lawful.bind (lawful.began inv ready rfl) fun _ mid inv rel => ?_
  have held := (lawful.ready_held ready).advances (lawful.advances rel)
  refine lawful.atNode inv fun node found => ?_
  split
  next s stage =>
    have keeps := (lawful.programs inv acts found stage).notice message
    exact lawful.bind (update (lawful.state inv acts held keeps)) fun _ _ inv _ =>
      lawful.noteAll inv _
  next => exact lawful.pure inv ()

/-- What a delivery to a stage leaves, except for closing the stage if that was put off. -/
def Within (m : Regime σ) (id : NodeId) (run : Run σ Unit) (g : Graph σ) : Prop :=
  run.Ends g fun result after => m.inv after ∧ m.during id g after ∧ m.Admits result

theorem holding (inv : m.inv g) (within : m.scope id) (opened : g.Open id) (h : Handle) :
    Within m id (Run.holding id (Traffic.accept again id h)) g := by
  obtain ⟨acts, held, ready⟩ := lawful.enter inv within opened
  unfold Within
  rw [Run.ends_holding]
  refine (lawful.accept serves held acts ready h).mono fun result after ⟨allows, admits⟩ => ?_
  have ⟨inv, during⟩ := lawful.leave inv within opened allows
  exact ⟨inv, during, admits⟩

theorem shown (inv : m.inv g) (acts : m.acts id) (ready : m.ready id g) (node : Node σ)
    (message : Message) :
    (do
      Traffic.notice id message
      let kept ← Traffic.openMessage again id node message
      let loops ← Traffic.feedsBack id
      return kept || loops : Run σ Bool).Ends g fun result after =>
        (m.Allows g after ∧ m.Admits result) ∧ (result = .ok false →
          ∀ node s, after.node? id = some node → node.kind = .stage s → Stage.feedsBack s = false)
    := by
  rw [Run.ends_bind]
  refine (lawful.notice inv acts ready message).mono fun result mid ⟨⟨inv, rel⟩, admits⟩ => ?_
  cases result with
  | error e => exact ⟨⟨⟨inv, rel⟩, admits_error (admits e rfl)⟩, nofun⟩
  | ok _ =>
    dsimp only
    rw [Run.ends_bind]
    refine (lawful.openMessage serves inv acts (lawful.ready_rel ready rel) node message).mono
      fun result after ⟨⟨inv, rel'⟩, admits⟩ => ?_
    have allows : m.Allows g after := ⟨inv, lawful.trans rel rel'⟩
    cases result with
    | error e => exact ⟨⟨allows, admits_error (admits e rfl)⟩, nofun⟩
    | ok kept =>
      refine ⟨⟨allows, m.admits_ok _⟩, fun ends other s there stage => ?_⟩
      have loops := (Bool.or_eq_false_iff.mp (Except.ok.inj ends)).2
      rw [there] at loops
      simpa [Node.state?, stage] using loops

theorem pass (inv : m.inv g) (within : m.scope id) (opened : g.Open id) {node : Node σ}
    (found : g.node? id = some node) (message : Message) :
    Within m id (Traffic.pass again id node message) g := by
  obtain ⟨acts, held, ready⟩ := lawful.enter inv within opened
  unfold Within Traffic.pass
  rw [Run.ends_bind, Run.ends_holding]
  refine (lawful.shown serves held acts ready node message).mono
    fun result after ⟨⟨allows, admits⟩, onward⟩ => ?_
  have ⟨inv, during⟩ := lawful.leave inv within opened allows
  cases result with
  | error e => exact ⟨inv, during, admits_error (admits e rfl)⟩
  | ok ends =>
    cases ends with
    | true => exact ⟨inv, during, m.admits_ok ()⟩
    | false =>
      obtain ⟨last, s, there, stage, main⟩ := opened.leaves found (lawful.advances allows.2)
      have leads (target : NodeId) (leads : node.main = some target) : m.scope target := by
        refine lawful.next inv within (Graph.node?_mark there false) ?_
        simp [Node.next, stage, onward rfl last s there stage, main, leads]
      exact (lawful.onward serves inv (.message message) leads).mono
        fun result final ⟨⟨inv, rel⟩, admits⟩ => ⟨inv, lawful.during_trans during rel, admits⟩

theorem deliverToStage (inv : m.inv g) (within : m.scope id) {node : Node σ} {s : σ}
    (found : g.node? id = some node) (stage : node.kind = .stage s) (packet : Packet) :
    m.Follows (Traffic.deliverToStage again id node packet) g := by
  unfold Traffic.deliverToStage
  split
  next closed =>
    have ⟨allows, error⟩ := lawful.closed packet inv within found stage closed
    exact lawful.bind (update allows) fun _ _ inv _ => lawful.throw inv error
  next ongoing =>
    split
    · refine reading ?_
      split
      · exact lawful.report inv _
      · exact lawful.throw inv (lawful.error _ rfl)
    next idle =>
      have opened : g.Open id := ⟨node, s, found, stage, by simpa using idle, ongoing⟩
      have settles {run : Run σ Unit} (inside : Within m id run g) :
          m.Follows (Run.attempt run >>= fun result => Traffic.settle again id result) g := by
        unfold Follows
        rw [Run.ends_bind, Run.ends_attempt]
        exact inside.mono fun result mid ⟨inv', during, admits⟩ =>
          serves.settle inv within opened inv' during admits
      cases packet with
      | parcel h => exact settles (lawful.holding serves inv within opened h)
      | message message => exact settles (lawful.pass serves inv within opened found message)

theorem fanOut (inv : m.inv g) {node : Node σ} (leads : ∀ target ∈ node.next, m.scope target)
    (kind : node.kind = .fanOut) (packet : Packet) :
    m.Follows (Traffic.fanOut again node packet) g := by
  have main (target : NodeId) (main : node.main = some target) : m.scope target :=
    leads target (by simp [Node.next, kind, main])
  have branch (target : NodeId) (branch : node.branch = some target) : m.scope target :=
    leads target (by simp [Node.next, kind, branch])
  cases packet with
  | parcel h =>
    refine lawful.bind (lawful.look inv h) fun p _ inv _ => ?_
    refine lawful.bind (lawful.edit inv _ _) fun _ _ inv _ => ?_
    refine lawful.bind (lawful.report inv _) fun _ _ inv _ => ?_
    split
    · exact lawful.throw inv (lawful.error _ rfl)
    next target _ there => exact serves.deliver _ inv (branch target there)
    · exact lawful.onward serves inv _ main
  | message message =>
    exact lawful.bind (lawful.onward serves inv _ branch) fun _ _ inv _ =>
      lawful.onward serves inv _ main

theorem deliver (inv : m.inv g) (within : m.scope id) (packet : Packet) :
    m.Follows (Traffic.deliver again id packet) g := by
  refine lawful.atNode inv fun node found => ?_
  have leads : ∀ target ∈ node.next, m.scope target := fun target next =>
    lawful.next inv within found next
  split
  next entry _ kind =>
    exact lawful.onward serves inv _ fun target same =>
      leads target (by simp [Node.next, kind, same])
  next kind => exact lawful.fanOut serves inv leads kind packet
  next s stage => exact lawful.deliverToStage serves inv within found stage packet

theorem drain (inv : m.inv g) (acts : m.acts id) (held : g.Held id) (asks : m.asks id .drain) :
    m.Follows (Traffic.drain again id) g := by
  have ⟨node, _, found, _⟩ := held
  unfold Follows
  rw [Traffic.drain_ends found]
  have emptied := lawful.released inv acts held found
  refine lawful.bind (update emptied) fun _ after inv rel => ?_
  have held := held.advances (lawful.advances rel)
  split
  · exact lawful.pure inv ()
  · refine reading (lawful.bind (lawful.report inv _) fun _ _ inv rel => ?_)
    have held := held.advances (lawful.advances rel)
    refine lawful.bind (lawful.forward serves inv (fun _ _ found main =>
      lawful.sends inv acts found main asks rfl) _ _) fun _ _ inv rel => ?_
    exact serves.drain inv acts (held.advances (lawful.advances rel)) asks

end

end Lawful

end Regime

end Sluice
