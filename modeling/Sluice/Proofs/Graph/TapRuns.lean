import Sluice.Proofs.Graph.Tap

set_option autoImplicit false

namespace Sluice

open Stage (Heedless Knows LawfulSinks)

variable {σ α β : Type}

def Packet.Shows : Packet → Handle → Prop
  | .parcel h, other => other = h
  | .message _, _ => False

namespace Tap

section

variable [Stage σ] {tap : Tap} {knows still : Handle → Prop} {tapped plain : Graph σ} {id : NodeId}

abbrev Runs (tap : Tap) (run run' : Run σ Unit) (tapped plain : Graph σ) : Prop :=
  tap.Locks run run' tapped plain fun _ => tap.Couples fun _ => False

structure Tandem (tap : Tap) (again again' : Call → Run σ Unit) : Prop where
  deliver : ∀ {tapped plain id packet}, id ≠ tap.sink → tap.Couples packet.Shows tapped plain →
    tap.Runs (again (.deliver id packet)) (again' (.deliver id packet)) tapped plain
  drain : ∀ {tapped plain id}, id ≠ tap.sink → tap.Couples (fun _ => False) tapped plain →
    tap.Runs (again (.drain id)) (again' (.drain id)) tapped plain
  sink : ∀ {tapped plain packet}, tap.Couples (fun _ => False) tapped plain →
    tap.Runs (again (.deliver tap.sink packet)) (pure ()) tapped plain

namespace Couples

variable (couples : tap.Couples knows tapped plain)
include couples

theorem blank : tap.Couples (fun _ => False) tapped plain := couples.mono fun _ => False.elim

theorem reads {β : Type} (other : id ≠ tap.sink) {f : Node σ → β}
    (same : ∀ node main, f { node with main } = f node) :
    (tapped.node? id).map f = (plain.node? id).map f := by
  have related := couples.nodes id other
  generalize plain.node? id = x, tapped.node? id = y at related
  cases related with
  | none => rfl
  | @some node beside both =>
    rw [Option.map_some, Option.map_some, both.same, same]

theorem began (other : id ≠ tap.sink) {hook hook' : Hook} (same : hook.bare = hook'.bare) :
    tap.Locks (Run.began id hook) (Run.began id hook') tapped plain
      fun _ => tap.Couples knows := by
  refine .atNode couples other couples fun node main _ _ _ => .update ?_
  refine couples.remembered (by simp [Event.call?, other, same]) ?_
  cases hook <;> simp [Event.opens, other]

theorem report (r : Report) :
    tap.Locks (Run.report r) (Run.report r) tapped plain fun _ => tap.Couples knows :=
  .update (couples.noted (.report r) rfl)

theorem add {p q : Parcel} (same : p.bare = q.bare) :
    tap.Locks (Run.add p) (Run.add q) tapped plain fun h =>
      tap.Couples fun other => other = h ∧ p = q := by
  have added := couples.stored (couples.store.add same)
  change tap.Joins _ (some (.ok (tapped.store.add p).1, _)) (some (.ok (plain.store.add q).1, _))
  rw [show (plain.store.add q).1 = (tapped.store.add p).1 from couples.store.size.symm]
  exact .done added

theorem tankOf (other : id ≠ tap.sink) :
    tap.Locks (Run.tankOf (σ := σ) id) (Run.tankOf id) tapped plain fun _ => tap.Couples knows := by
  have same := couples.reads other (f := Node.tank) fun _ _ => rfl
  refine .graph_bind ?_
  rw [same]
  exact .pure couples

theorem pathOf (other : id ≠ tap.sink) :
    tapped.pathOf id = plain.pathOf id :=
  congrArg (·.getD "") (couples.reads other fun _ _ => rfl)

theorem noteAll (lines : List String) :
    tap.Locks (Run.noteAll lines) (Run.noteAll lines) tapped plain fun _ => tap.Couples knows := by
  induction lines generalizing tapped plain with
  | nil => exact .pure couples
  | cons line rest ih => exact .update_bind (ih (couples.noted (.note line) rfl))

end Couples

section

variable {again again' : Call → Run σ Unit} (tandem : tap.Tandem again again')
include tandem

theorem onward (packet : Packet) (couples : tap.Couples packet.Shows tapped plain)
    {target : Option NodeId} (apart : target ≠ some tap.sink) :
    tap.Runs (Traffic.onward again target (.deliver · packet))
      (Traffic.onward again' target (.deliver · packet)) tapped plain := by
  cases target with
  | none => exact .pure couples.blank
  | some id => exact tandem.deliver (fun same => apart (congrArg some same)) couples

theorem onward_main (packet : Packet) (couples : tap.Couples packet.Shows tapped plain)
    {node : Node σ} (apart : ¬node.Leads tap.sink) {main : Option NodeId}
    (mains : main = node.main ∨ main = some tap.sink ∧ node.main = none) :
    tap.Runs (Traffic.onward again main (.deliver · packet))
      (Traffic.onward again' node.main (.deliver · packet)) tapped plain := by
  obtain rfl | ⟨rfl, none⟩ := mains
  · exact onward tandem packet couples fun same => apart (.inl same)
  · rw [none]
    exact tandem.sink couples.blank

theorem forward (couples : tap.Couples knows tapped plain) (other : id ≠ tap.sink) (h : Handle)
    (edge : Edge) :
    tap.Runs (Traffic.forward again id h edge) (Traffic.forward again' id h edge) tapped plain := by
  refine .atNode couples other couples.blank fun node main found there mains => .graph_bind ?_
  have nowhere : tap.Runs
      (if edge = .branch then throw (.routing (.noFanOut node.path)) else pure ())
      (if edge = .branch then throw (.routing (.noFanOut node.path)) else pure ())
      tapped plain := .ite Iff.rfl (fun _ => .throw couples) fun _ => .pure couples.blank
  -- A link that the tap replaced leads to the sink on one side and nowhere on the other.
  obtain rfl | ⟨rfl, none⟩ := mains
  · cases main : node.main with
    | none => simpa using nowhere
    | some target =>
      have away : target ≠ tap.sink := fun same =>
        couples.apart id node found (.inl (main.trans (congrArg some same)))
      cases reached : plain.node? target with
      | none =>
        have gone := couples.reads away (f := fun _ => ()) fun _ _ => rfl
        rw [reached, Option.map_none, Option.map_eq_none_iff] at gone
        simpa [gone, reached] using nowhere
      | some next =>
        obtain ⟨beside, reached', same, -⟩ := couples.node away reached
        rw [same] at reached'
        simp only [Option.bind_some, reached, reached', Option.map_some, Option.any_some]
        refine .ite Iff.rfl (fun _ => .throw_bind couples) fun _ => ?_
        refine .update_bind (.update_bind (tandem.deliver away ?_))
        rw [Parcel.sent_eq (couples.store.bare h)]
        exact (couples.stored ((couples.store.write h _).mono fun _ => .inl)).noted _ rfl
  · -- What goes to the sink on one side goes nowhere on the other.
    obtain ⟨sink, s, caught, catches, -⟩ := couples.sink
    simp only [none, Option.bind_some, caught, Option.map_some, Option.any_some, Option.bind_none,
      Option.any_none]
    have stage : sink.isFanOut = false := by rw [Node.isFanOut, catches.stage]
    refine .ite (by rw [stage]) (fun _ => .throw_bind couples) fun _ => ?_
    have written := couples.stored (couples.store.forwarded h edge (some node.name))
    exact tandem.sink (written.logged (.report _) rfl rfl)

theorem answer (couples : tap.Couples knows tapped plain) (other : id ≠ tap.sink) (r : Request)
    (fits : r.Fits knows) :
    tap.Locks (Traffic.answer again id r) (Traffic.answer again' id r) tapped plain
      fun _ => tap.Couples (r.leaves knows) := by
  cases r with
  | look h =>
    refine .look_bind ?_
    rw [couples.store.known h fits]
    exact .pure couples
  | edit h p => exact .update (couples.stored ((couples.store.write h p).mono fun _ => .inr))
  | copy h =>
    exact (couples.add (couples.store.bare h)).mono fun _ _ _ couples => couples.blank
  | forward h edge => exact forward tandem couples other h edge
  | post m =>
    refine .atNode couples other couples.blank fun node main found _ mains => ?_
    exact onward_main tandem (.message m) couples.blank (couples.apart id node found) mains
  | gauge => exact couples.tankOf other
  | refill t => exact .update (couples.setTank id fun _ => t)
  | drain => exact tandem.drain other couples.blank
  | feed target h =>
    refine .update (?_ : tap.Couples knows _ _)
    have same (t : Tank) := Tank.push_eq (couples.store.bare h) t h
    -- The priority of a parcel depends on nothing that forwarding writes.
    simpa only [same] using couples.setTank target (·.push h (plain.store.read h))
  | shutdown => exact fits.elim
  | closing =>
    refine .graph_bind ?_
    rw [couples.calm.1, couples.running]
    exact .pure couples
  | environment =>
    refine .graph_bind ?_
    rw [couples.environment]
    exact .pure couples
  | report r => exact couples.report r
  | note line => exact .update (couples.noted (.note line) rfl)

theorem interpret (couples : tap.Couples knows tapped plain) (other : id ≠ tap.sink)
    (program : Program σ α)
    (heedless : program.Heedless (Stage.hasTank · = tap.tanks id) still knows) :
    tap.Locks (Traffic.interpret again id program) (Traffic.interpret again' id program)
      tapped plain fun _ => tap.Couples still := by
  -- What is known of parcels shrinks with each request, as the program allows for.
  induction program generalizing tapped plain knows with
  | done a => exact .pure (couples.mono heedless)
  | fail e => exact .throw couples
  | keep s next ih => exact .update_bind (ih (couples.setState other heedless.1) heedless.2)
  | ask r next ih =>
    exact .bind (answer tandem couples other r heedless.1) fun a _ _ couples =>
      ih a couples (heedless.2 a)

theorem runStage (couples : tap.Couples knows tapped plain) (other : id ≠ tap.sink)
    (less : ∀ h, still h → knows h) {program : Here → Node σ → σ → Program σ Unit}
    (unlinked : ∀ here node main s, program here { node with main } s = program here node s)
    (heedless : ∀ here node s, Stage.hasTank s = tap.tanks id →
      (program here node s).Heedless (Stage.hasTank · = tap.tanks id) still knows) :
    tap.Locks (Traffic.runStage again id program) (Traffic.runStage again' id program)
      tapped plain fun _ => tap.Couples still := by
  refine .atNode couples other (couples.mono less) fun node main found _ _ => ?_
  have linked : ({ node with main } : Node σ).kind = node.kind := rfl
  have same := unlinked (node.here id) node main
  have here : ({ node with main } : Node σ).here id = node.here id := rfl
  generalize ({ node with main } : Node σ) = beside at linked same here ⊢
  rw [linked]
  cases kind : node.kind with
  | stage s =>
    dsimp only
    rw [here, same]
    exact interpret tandem couples other _
      (heedless _ node s (couples.tanks id node s other found kind))
  | _ => exact .pure (couples.mono less)

variable [Heedless σ]

theorem reconfigure (couples : tap.Couples (Knows (tap.tanks id) knows) tapped plain)
    (other : id ≠ tap.sink) (changed : List String) :
    tap.Locks (Traffic.reconfigure again id changed) (Traffic.reconfigure again' id changed)
      tapped plain fun _ => tap.Couples (Knows (tap.tanks id) knows) :=
  runStage tandem couples other (fun _ known => known) (fun _ _ _ _ => rfl) fun here node s tank =>
    tank ▸ Heedless.reconfigure here node.params changed s knows

omit tandem [Heedless σ] in
theorem refreshEach (couples : tap.Couples knows tapped plain) (other : id ≠ tap.sink)
    (path : String) (pairs : List (String × String)) (changed : List String) :
    tap.Locks (Traffic.refreshEach id path pairs changed)
      (Traffic.refreshEach id path pairs changed) tapped plain fun _ => tap.Couples knows := by
  induction pairs generalizing tapped plain changed with
  | nil => exact .pure couples
  | cons pair rest ih =>
    obtain ⟨parameter, variableName⟩ := pair
    refine .graph_bind ?_
    rw [couples.environment]
    cases plain.environment.resolve variableName with
    | none => exact .throw couples
    | some value =>
      have same := couples.reads other (f := fun node => node.params.differs parameter value)
        fun _ _ => rfl
      have differs : (tapped.node? id).any (fun node => node.params.differs parameter value) =
          (plain.node? id).any fun node => node.params.differs parameter value := by
        simpa only [Option.any_map] using congrArg (Option.any fun differs => differs) same
      dsimp only
      rw [differs]
      have written := couples.setParams other (·.put parameter value)
      refine .update_bind (.ite Iff.rfl (fun _ => ?_) fun _ => ih written changed)
      exact .update_bind (ih (written.noted _ rfl) _)

theorem refresh (couples : tap.Couples (Knows (tap.tanks id) knows) tapped plain)
    (other : id ≠ tap.sink) :
    tap.Locks (Traffic.refresh again id) (Traffic.refresh again' id) tapped plain
      fun _ => tap.Couples (Knows (tap.tanks id) knows) := by
  refine .graph_bind ?_
  rw [couples.environment]
  refine .bind (couples.began other rfl) fun _ tapped plain couples => ?_
  refine .atNode couples other couples fun node main _ _ _ => ?_
  refine .bind (refreshEach couples other _ _ _) fun changed tapped plain couples => ?_
  exact .ite Iff.rfl (fun _ => .pure couples) fun _ => reconfigure tandem couples other changed

theorem accept {h : Handle} (couples : tap.Couples (· = h) tapped plain) (other : id ≠ tap.sink) :
    tap.Runs (Traffic.accept again id h) (Traffic.accept again' id h) tapped plain := by
  -- The parcel has just been handed on, and is known as long as nothing is drained.
  have couples : tap.Couples (Knows (tap.tanks id) (· = h)) tapped plain :=
    couples.mono fun _ known => known.2
  refine .bind (refresh tandem couples other) fun _ tapped plain couples => ?_
  refine .bind (runStage tandem couples other (fun _ known => known) (fun _ _ _ _ => rfl)
    fun here _ s tank => tank ▸ Heedless.beforeAccept here s h) fun _ tapped plain couples => ?_
  have same :
      (Hook.accept h (tapped.store.read h)).bare = (Hook.accept h (plain.store.read h)).bare :=
    congrArg (Hook.accept h) (couples.store.bare h)
  refine .look_bind (.bind (couples.began other same) fun _ tapped plain couples => ?_)
  refine .bind (runStage tandem couples other (fun _ => False.elim) (fun _ _ _ _ => rfl)
    fun here _ s tank => tank ▸ Heedless.accept here s h) fun _ tapped plain couples => ?_
  exact runStage tandem couples other (fun _ => False.elim) (fun _ _ _ _ => rfl)
    fun here _ s tank => tank ▸ Heedless.afterAccept here s

theorem resetParameter (couples : tap.Couples (fun _ => False) tapped plain) (other : id ≠ tap.sink)
    (m : Message) :
    tap.Runs (Traffic.resetParameter again id m) (Traffic.resetParameter again' id m)
      tapped plain := by
  refine .atNode couples other couples fun node main _ _ _ => ?_
  rcases m.values with _ | ⟨name, _ | ⟨value, _ | _⟩⟩
  · exact .throw couples
  · exact .throw couples
  · refine .ite Iff.rfl (fun _ => .throw_bind couples) fun _ => ?_
    have written := couples.setParams other (·.put name.render value)
    refine .update_bind (.bind (written.report _) fun _ tapped plain couples => ?_)
    have couples : tap.Couples (Knows (tap.tanks id) fun _ => False) tapped plain :=
      couples.mono fun _ known => known.2
    exact (reconfigure tandem couples other _).mono fun _ _ _ couples => couples.blank
  · exact .throw couples

theorem openMessage (couples : tap.Couples (fun _ => False) tapped plain) (other : id ≠ tap.sink)
    (node : Node σ) (main : Option NodeId) (m : Message) :
    tap.Locks (Traffic.openMessage again id { node with main } m)
      (Traffic.openMessage again' id node m) tapped plain
        fun _ => tap.Couples fun _ => False := by
  refine .ite Iff.rfl (fun _ => ?_) fun _ => .pure couples
  refine .bind (couples.report _) fun _ tapped plain couples => ?_
  refine .bind (couples.began other rfl) fun _ tapped plain couples => ?_
  refine .ite Iff.rfl (fun _ => ?_) fun _ => ?_
  · exact .bind (resetParameter tandem couples other m) fun _ _ _ couples => .pure couples
  · refine .bind (runStage tandem couples other (fun _ => False.elim) (fun _ _ _ _ => rfl)
      fun here _ s tank => tank ▸ Heedless.onMessage here s m) fun _ _ _ couples => .pure couples

omit tandem in
theorem notice (couples : tap.Couples (fun _ => False) tapped plain) (other : id ≠ tap.sink)
    (m : Message) : tap.Runs (Traffic.notice id m) (Traffic.notice id m) tapped plain := by
  refine .bind (couples.began other rfl) fun _ tapped plain couples => ?_
  refine .atNode couples other couples fun node main found _ _ => ?_
  have linked : ({ node with main } : Node σ).kind = node.kind := rfl
  rw [linked]
  cases kind : node.kind with
  | stage s =>
    have tank := (Heedless.notice m s).trans (couples.tanks id node s other found kind)
    exact .update_bind (Couples.noteAll (couples.setState other tank) _)
  | _ => exact .pure couples

omit tandem [Heedless σ] in
theorem feedsBack (couples : tap.Couples (fun _ => False) tapped plain) (other : id ≠ tap.sink) :
    tap.Locks (Traffic.feedsBack (σ := σ) id) (Traffic.feedsBack id) tapped plain
      fun _ => tap.Couples fun _ => False := by
  have same := couples.reads other (f := Node.state?) fun _ _ => rfl
  have state : (tapped.node? id).bind Node.state? = (plain.node? id).bind Node.state? := by
    have bound := congrArg (fun state : Option (Option σ) => state.bind fun s => s) same
    rwa [Option.bind_map, Option.bind_map] at bound
  refine .graph_bind ?_
  rw [state]
  exact .pure couples

theorem pass {m : Message} (couples : tap.Couples (fun _ => False) tapped plain)
    (other : id ≠ tap.sink) {node : Node σ} (apart : ¬node.Leads tap.sink) {main : Option NodeId}
    (mains : main = node.main ∨ main = some tap.sink ∧ node.main = none) :
    tap.Runs (Traffic.pass again id { node with main } m) (Traffic.pass again' id node m)
      tapped plain := by
  have met : tap.Locks (Traffic.meet again id { node with main } m) (Traffic.meet again' id node m)
      tapped plain fun _ => tap.Couples fun _ => False := by
    refine .holding other ?_
    refine .bind (notice (couples.mark other true) other m) fun _ tapped plain couples => ?_
    refine .bind (openMessage tandem couples other node main m) fun _ tapped plain couples => ?_
    refine .bind (feedsBack couples other) fun _ tapped plain couples => ?_
    exact .pure (couples.mark other false)
  rw [Traffic.pass_eq, Traffic.pass_eq]
  refine met.bind fun ends tapped plain couples => ?_
  refine .ite Iff.rfl (fun _ => .pure couples) fun _ => ?_
  exact onward_main tandem (.message m) couples apart mains

omit tandem [Heedless σ] in
theorem settled {run run' : Run σ Unit} (other : id ≠ tap.sink)
    (runs : tap.Runs run run' tapped plain) :
    tap.Runs (do Traffic.settle again id (← Run.attempt run))
      (do Traffic.settle again' id (← Run.attempt run')) tapped plain := by
  unfold Runs Locks at runs ⊢
  rw [Run.start_bind, Run.start_bind, Run.attempt_start, Run.attempt_start]
  generalize run.start tapped = x, run'.start plain = y at runs
  -- Nothing is closed, so that the result stays.
  cases runs with
  | behind leads => exact .behind leads
  | ahead leads => exact .ahead leads
  | spoilt spoilt =>
    dsimp only [Option.bind_some]
    rw [Traffic.settle_start (spoilt.calm.kept id)]
    exact .spoilt spoilt
  | done couples =>
    dsimp only [Option.bind_some]
    rw [Traffic.settle_start (couples.calm.kept id),
      Traffic.settle_start (couples.plain_calm other)]
    exact .done couples
  | failed couples =>
    dsimp only [Option.bind_some]
    rw [Traffic.settle_start (couples.calm.kept id),
      Traffic.settle_start (couples.plain_calm other)]
    exact .failed couples

theorem deliverToStage {packet : Packet} (couples : tap.Couples packet.Shows tapped plain)
    (other : id ≠ tap.sink) {node : Node σ} (apart : ¬node.Leads tap.sink) {main : Option NodeId}
    (mains : main = node.main ∨ main = some tap.sink ∧ node.main = none) :
    tap.Runs (Traffic.deliverToStage again id { node with main } packet)
      (Traffic.deliverToStage again' id node packet) tapped plain := by
  refine .ite Iff.rfl (fun _ => ?_) fun _ => .ite Iff.rfl (fun _ => ?_) fun _ => ?_
  · exact .update_bind (.throw (couples.noted (.refused id packet) rfl))
  · refine .graph_bind ?_
    rw [couples.calm.1, couples.running]
    exact .throw couples
  · refine settled other ?_
    cases packet with
    | parcel h =>
      exact .holding other ((accept tandem (couples.mark other true) other).mono
        fun _ _ _ couples => couples.mark other false)
    | message m => exact pass tandem couples other apart mains

omit [Heedless σ] in
theorem fanOut {packet : Packet} (couples : tap.Couples packet.Shows tapped plain)
    {node : Node σ} (apart : ¬node.Leads tap.sink) {main : Option NodeId}
    (mains : main = node.main ∨ main = some tap.sink ∧ node.main = none) :
    tap.Runs (Traffic.fanOut again { node with main } packet) (Traffic.fanOut again' node packet)
      tapped plain := by
  cases packet with
  | parcel h =>
    refine .look_bind ?_
    rw [couples.store.known h rfl]
    have edited := couples.stored (couples.store.write h { plain.store.read h with fork := .main })
    refine .update_bind (.bind (edited.report _) fun _ _ _ couples => ?_)
    have couples : tap.Couples (· = h) _ _ := couples.mono fun _ => .inl
    cases (plain.store.read h).fork with
    | main => exact onward_main tandem (.parcel h) couples apart mains
    | branch =>
      dsimp only
      cases branch : node.branch with
      | none => exact .throw couples
      | some target =>
        exact tandem.deliver (fun same => apart (.inr (.inl (branch.trans (congrArg some same)))))
          couples
  | message m =>
    have branched := onward tandem (.message m) couples fun same => apart (.inr (.inl same))
    refine .bind branched fun _ _ _ couples => ?_
    exact onward_main tandem (.message m) couples apart mains

theorem deliver {packet : Packet} (couples : tap.Couples packet.Shows tapped plain)
    (other : id ≠ tap.sink) :
    tap.Runs (Traffic.deliver again id packet) (Traffic.deliver again' id packet) tapped plain := by
  refine .atNode couples other couples.blank fun node main found _ mains => ?_
  have apart := couples.apart id node found
  have staged := deliverToStage tandem couples other apart mains
  have fanned := fanOut tandem couples apart mains
  have linked : ({ node with main } : Node σ).kind = node.kind := rfl
  generalize ({ node with main } : Node σ) = beside at linked staged fanned ⊢
  rw [linked]
  cases kind : node.kind with
  | subGraph entry exit =>
    exact onward tandem packet couples fun same =>
      apart (.inr (.inr (by rw [Node.entry, kind, same])))
  | fanOut => exact fanned
  | stage s => exact staged

omit [Heedless σ] in
theorem drain (couples : tap.Couples (fun _ => False) tapped plain) (other : id ≠ tap.sink) :
    tap.Runs (Traffic.drain again id) (Traffic.drain again' id) tapped plain := by
  refine .bind (couples.tankOf other) fun tank tapped plain couples => ?_
  cases tank.release with
  | mk released rest =>
  have emptied := couples.setTank id fun _ => rest
  refine .update_bind ?_
  cases released with
  | none => exact .pure emptied.blank
  | some h =>
    refine .graph_bind ?_
    rw [emptied.pathOf other]
    refine .bind (emptied.report _) fun _ _ _ couples => ?_
    exact .bind (forward tandem couples other h .main) fun _ _ _ couples =>
      tandem.drain other couples

end

section

open Run (Returns)

variable {g : Graph σ} (again : Call → Run σ Unit)

def Serves (tap : Tap) (plain g : Graph σ) : Prop :=
  tap.Shadows (fun _ => False) g plain ∧
    ∃ node s, g.node? tap.sink = some node ∧ node.Catches s

def Takes (tap : Tap) (plain : Graph σ) (result : Except EngineError α) (after : Graph σ) : Prop :=
  match result with
  | .ok _ => tap.Serves plain after
  | .error _ => tap.Spoilt after

theorem Takes.bind {run : Run σ α} {next : α → Run σ β}
    (first : Returns (fun _ => run) g (tap.Takes plain))
    (rest : ∀ a after, tap.Serves plain after →
      Returns (fun _ => next a) after (tap.Takes plain)) :
    Returns (fun _ => run >>= next) g (tap.Takes plain) := by
  refine Returns.bind (first.mono fun result after takes => ?_)
  cases result with
  | ok a => exact rest a after takes
  | error e => exact takes

namespace Serves

omit [Stage σ] in
theorem atNode_returns {f : Node σ → Run σ Unit} {node : Node σ}
    {post : Except EngineError Unit → Graph σ → Prop} (found : g.node? tap.sink = some node)
    (returns : Returns (fun _ => f node) g post) :
    Returns (fun _ => Run.atNode tap.sink f) g post := by
  refine .atNode (fun absent => ?_) fun other same => ?_
  · rw [found] at absent
    cases absent
  · obtain rfl : node = other := Option.some.inj (found.symm.trans same)
    exact returns

variable (serves : tap.Serves plain g)
include serves

theorem logged (event : Event σ) (silent : event.call? tap.sink = none)
    (quiet : event.opens tap.sink = false) : tap.Serves plain (g.remember event) :=
  ⟨serves.1.logged event silent quiet, serves.2⟩

theorem atNode {f : Node σ → Run σ Unit} {post : Except EngineError Unit → Graph σ → Prop}
    (each : ∀ node s, g.node? tap.sink = some node → node.Catches s →
      Returns (fun _ => f node) g post) :
    Returns (fun _ => Run.atNode tap.sink f) g post := by
  obtain ⟨shadows, node, s, found, catches⟩ := serves
  exact atNode_returns found (each node s found catches)

theorem began {hook : Hook} (quiet : ∀ m, hook ≠ .opening m) :
    Returns (fun _ => Run.began tap.sink hook) g (tap.Takes plain) := by
  refine serves.atNode fun node s _ _ => .update (serves.logged _ (by simp [Event.call?]) ?_)
  cases hook with
  | opening m => exact absurd rfl (quiet m)
  | _ => rfl

theorem setState {node : Node σ} {s : Sink} (found : g.node? tap.sink = some node)
    (catches : node.Catches s) (next : Sink) : tap.Serves plain
      (g.updateNode tap.sink fun node => { node with kind := .stage (Stage.ofSink next) }) := by
  refine ⟨serves.1.sinks fun _ => rfl, { node with kind := .stage (Stage.ofSink next) }, next, ?_,
    { catches with stage := rfl }⟩
  exact Graph.node?_updateNode_self found _

theorem runStage {program : Here → Node σ → σ → Program σ Unit}
    (idle : ∀ here node s, program here node (Stage.ofSink s) = Program.skip) :
    Returns (fun _ => Traffic.runStage again tap.sink program) g (tap.Takes plain) := by
  refine serves.atNode fun node s _ catches => ?_
  rw [catches.stage]
  dsimp only
  rw [idle]
  exact .pure serves

theorem refresh : Returns (fun _ => Traffic.refresh again tap.sink) g (tap.Takes plain) := by
  refine .graph_bind ?_
  refine Takes.bind (serves.began fun _ same => by cases same) fun _ after serves => ?_
  refine serves.atNode fun node s _ catches => ?_
  rw [catches.dynamic]
  exact .pure serves

variable [LawfulSinks σ]

theorem keep (h : Handle) :
    Returns (fun _ => Traffic.runStage again tap.sink fun here _ s => Stage.accept here s h) g
      (tap.Takes plain) := by
  refine serves.atNode fun node s found catches => ?_
  rw [catches.stage]
  dsimp only
  rw [LawfulSinks.accept_ofSink]
  have serves := serves.setState found catches (s.keep h)
  refine .update_bind (Takes.bind (serves.atNode fun node s _ catches => .graph_bind ?_)
    fun _ _ serves => .pure serves)
  simp only [catches.main, Option.bind_none, Option.any_none, reduceCtorEq, false_and, if_false]
  exact .pure serves

theorem accept (h : Handle) :
    Returns (fun _ => Traffic.accept again tap.sink h) g (tap.Takes plain) := by
  refine Takes.bind (serves.refresh again) fun _ after serves => ?_
  refine Takes.bind (serves.runStage again fun _ _ _ => by simp) fun _ after serves => ?_
  refine .graph_bind ?_
  refine Takes.bind (serves.began fun _ same => by cases same) fun _ after serves => ?_
  refine Takes.bind (serves.keep again h) fun _ after serves => ?_
  exact serves.runStage again fun _ _ _ => by simp

theorem notice (m : Message) :
    Returns (fun _ => Traffic.notice tap.sink m) g (tap.Takes plain) := by
  refine Takes.bind (serves.began fun _ same => by cases same) fun _ after serves => ?_
  refine serves.atNode fun node s found catches => ?_
  rw [catches.stage]
  dsimp only
  rw [LawfulSinks.notice_ofSink]
  exact .update_bind (.pure (serves.setState found catches _))

theorem openMessage (shown : Node σ) (m : Message) :
    Returns (fun _ => Traffic.openMessage again tap.sink shown m) g (tap.Takes plain) := by
  unfold Traffic.openMessage
  split
  next answersTo =>
    have ⟨shadows, node, s, found, catches⟩ :=
      serves.logged (.report (.messageOpened shown.path m)) rfl rfl
    refine .update_bind (.bind (atNode_returns found (.update ?_)))
    -- It fails whatever the message says, and there is one opening more already.
    have spoilt : tap.Spoilt ((g.remember (.report (.messageOpened shown.path m))).remember
        (.began tap.sink node (.opening m))) := by
      refine ⟨?_, shadows.calm⟩
      have one_more : openings tap.sink (.began tap.sink node (.opening m) ::
          (g.remember (.report (.messageOpened shown.path m))).history) = tap.opened + 1 := by
        rw [openings, List.countP_cons, if_pos (by simp [Event.opens])]
        exact congrArg (· + 1) shadows.opened
      exact one_more.symm ▸ Nat.succ_ne_self _
    have there : ((g.remember (.report (.messageOpened shown.path m))).remember
        (.began tap.sink node (.opening m))).node? tap.sink = some node := found
    dsimp only
    split
    · refine .bind (atNode_returns there ?_)
      split
      · rw [catches.declared]
        exact .of_start rfl spoilt
      · exact .throw spoilt
    · refine .bind (atNode_returns there ?_)
      rw [catches.stage]
      dsimp only
      rw [LawfulSinks.onMessage_ofSink]
      exact .throw spoilt
  next => exact .pure serves

omit [LawfulSinks σ] in
theorem feedsBack : Returns (fun _ => Traffic.feedsBack tap.sink) g (tap.Takes plain) :=
  .graph_bind (.pure serves)

end Serves

namespace Couples

variable (couples : tap.Couples knows tapped plain)
include couples

theorem enter : tap.Serves plain (tapped.mark tap.sink true) := by
  obtain ⟨node, s, found, catches, -⟩ := couples.sink
  refine ⟨couples.blank.toShadows.sinks fun _ => rfl, { node with busy := true }, s,
    Graph.node?_mark found true, { catches with }⟩

end Couples

theorem Serves.leave (serves : tap.Serves plain g) :
    tap.Couples (fun _ => False) (g.mark tap.sink false) plain := by
  obtain ⟨shadows, node, s, found, catches⟩ := serves
  exact
    { toShadows := shadows.sinks fun _ => rfl
      sink := ⟨{ node with busy := false }, s, Graph.node?_mark found false,
        { catches with }, rfl⟩ }

def Taken (tap : Tap) (plain : Graph σ) (result : Except EngineError α) (after : Graph σ) : Prop :=
  match result with
  | .ok _ => tap.Couples (fun _ => False) after plain
  | .error _ => tap.Spoilt after

theorem Takes.holding {run : Run σ α} (couples : tap.Couples knows tapped plain)
    (takes : ∀ g, tap.Serves plain g → Returns (fun _ => run) g (tap.Takes plain)) :
    Returns (fun _ => Run.holding tap.sink run) tapped (tap.Taken plain) := by
  refine .holding ((takes _ couples.enter).mono fun result after takes => ?_)
  cases result with
  | ok a => exact Serves.leave takes
  | error e => exact Spoilt.mark takes _ _

theorem Taken.settle {result : Except EngineError Unit} (taken : tap.Taken plain result g) :
    Returns (fun _ => Traffic.settle again tap.sink result) g (tap.Taken plain) := by
  have calm : g.Calm := by
    cases result with
    | ok _ => exact (Couples.toShadows taken).calm
    | error e => exact Spoilt.calm taken
  exact .of_start (Traffic.settle_start (calm.kept _)) taken

variable [LawfulSinks σ]

theorem pass_taken (couples : tap.Couples knows tapped plain) {node : Node σ}
    (main : node.main = none) (m : Message) :
    Returns (fun _ => Traffic.pass again tap.sink node m) tapped (tap.Taken plain) := by
  refine .bind (.mono (Takes.holding couples fun g serves => ?_) fun result after taken => ?_)
  · refine Takes.bind (serves.notice m) fun _ _ serves => ?_
    refine Takes.bind (serves.openMessage again node m) fun _ _ serves => ?_
    exact Takes.bind serves.feedsBack fun _ _ serves => .pure serves
  · cases result with
    | error e => exact taken
    | ok ends =>
      dsimp only
      rw [main]
      cases ends <;> exact .pure taken

theorem sink_runs (couples : tap.Couples knows tapped plain) (packet : Packet) :
    tap.Runs (Traffic.step again (.deliver tap.sink packet)) (pure ()) tapped plain := by
  have returns : Returns (fun _ => Traffic.step again (.deliver tap.sink packet)) tapped
      (tap.Taken plain) := by
    obtain ⟨node, s, found, catches, idle⟩ := couples.sink
    refine Serves.atNode_returns found ?_
    rw [catches.stage]
    dsimp only
    unfold Traffic.deliverToStage
    rw [if_neg catches.ongoing, idle, if_neg Bool.false_ne_true]
    refine .bind (.attempt (.mono ?_ fun result after taken => Taken.settle again taken))
    cases packet with
    | parcel h => exact Takes.holding couples fun g serves => serves.accept again h
    | message m => exact pass_taken again couples catches.main m
  obtain ⟨depth, result, after, started, holds⟩ := returns
  unfold Runs Locks
  rw [started depth (Nat.le_refl _)]
  cases result with
  | ok _ => exact .done holds
  | error e => exact .spoilt holds

end

section

variable [Heedless σ] [LawfulSinks σ]

theorem Tandem.step {again again' : Call → Run σ Unit} (tandem : tap.Tandem again again') :
    tap.Tandem (Traffic.step again) (Traffic.step again') where
  deliver other couples := Tap.deliver tandem couples other
  drain other couples := Tap.drain tandem couples other
  sink couples := sink_runs again couples _

def spare (tap : Tap) : Nat := if tap.leads then 0 else 1

theorem perform_tandem (tap : Tap) (depth : Nat) :
    tap.Tandem (Traffic.perform (σ := σ) (depth + tap.spare)) (Traffic.perform depth) := by
  induction depth with
  | succ depth ih =>
    rw [Nat.succ_add]
    exact ih.step
  | zero =>
    -- One side does not get to its end here, which is the one that may run ahead or stay behind.
    unfold spare
    cases leads : tap.leads with
    | true => exact ⟨fun _ _ => .behind leads, fun _ _ => .behind leads, fun _ => .behind leads⟩
    | false =>
      exact ⟨fun _ _ => .ahead leads, fun _ _ => .ahead leads, fun couples => sink_runs _ couples _⟩

theorem send_runs (couples : tap.Couples (fun _ => False) tapped plain) (depth : Nat) (p : Parcel) :
    tap.Runs (Graph.send (depth + tap.spare) p) (Graph.send depth p) tapped plain := by
  refine .bind (couples.add rfl) fun h tapped plain couples => .graph_bind ?_
  rw [couples.root]
  have couples : tap.Couples (Packet.parcel h).Shows tapped plain :=
    couples.mono fun _ same => ⟨same, rfl⟩
  exact (perform_tandem tap depth).deliver couples.within couples

theorem sendAll_runs (couples : tap.Couples (fun _ => False) tapped plain) (depth : Nat)
    (parcels : List Parcel) :
    tap.Runs (Graph.sendAll (depth + tap.spare) parcels) (Graph.sendAll depth parcels)
      tapped plain := by
  induction parcels generalizing tapped plain with
  | nil => exact .pure couples
  | cons p rest ih => exact .bind (send_runs couples depth p) fun _ _ _ couples => ih couples

end

end

end Tap

end Sluice
