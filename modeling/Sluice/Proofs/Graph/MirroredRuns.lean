import Sluice.Proofs.Graph.PairedGraphs
import Sluice.Proofs.Graph.Sessions

set_option autoImplicit false

namespace Sluice.Pairing

variable {α : Type} {p : Pairing} {g g' : Graph Stock} {a b : NodeId}

abbrev Runs (p : Pairing) (run run' : Run Stock Unit) (g g' : Graph Stock) : Prop :=
  p.Locks run run' g g' fun _ => p.Mirrors

structure Tandem (p : Pairing) (again again' : Call → Run Stock Unit) : Prop where
  deliver : ∀ {g g' a b packet}, p.Meets (some a) (some b) → p.Mirrors g g' →
    p.Runs (again (.deliver a packet)) (again' (.deliver b packet)) g g'
  drain : ∀ {g g' a b}, p.stage a b → p.Mirrors g g' →
    p.Runs (again (.drain a)) (again' (.drain b)) g g'
  recalls : ∀ call, p.Recalls (again call)
  recalls' : ∀ call, p.Recalls (again' call)

theorem recalls_interpret {again : Call → Run Stock Unit} (recalls : ∀ call, p.Recalls (again call))
    (id : NodeId) (program : Program Stock α) : p.Recalls (Traffic.interpret again id program) := by
  induction program with
  | done a => exact .pure a
  | fail e => exact .throw e
  | keep s next ih => exact .bind (.update fun _ strays => strays) fun _ => ih
  | ask r next ih =>
    exact .bind ((strays_guards p.foreign).answer (fun call _ => recalls call) trivial r) ih

theorem recalls_runStage {again : Call → Run Stock Unit} (recalls : ∀ call, p.Recalls (again call))
    (id : NodeId) (program : Here → Node Stock → Stock → Program Stock Unit) :
    p.Recalls (Traffic.runStage again id program) := by
  refine .atNode fun node => ?_
  split
  · exact recalls_interpret recalls id _
  · exact .pure _

theorem notice_strays {id : NodeId} {node : Node Stock} (found : g.node? id = some node) {m : Message}
    (astray : p.foreign m.destination) :
    ∀ ended, (Traffic.notice id m).start g = some ended → Strays p.foreign ended.2.history := by
  have seen : Strays p.foreign (g.remember (.began id node (.notice m))).history :=
    ⟨_, List.mem_cons_self, astray⟩
  have ends : (Traffic.notice id m).Ends g fun _ after => Strays p.foreign after.history := by
    rw [Traffic.notice, Run.ends_bind, Run.began, Run.ends_atNode]
    refine ⟨fun other there => ?_, fun absent => ?_⟩
    · obtain rfl := Option.some.inj (found.symm.trans there)
      refine (Run.Keeps.atNode fun node => ?_ : p.Recalls (Run.atNode id _)) _ seen
      split
      · exact .bind (.update fun _ strays => strays) fun _ => (strays_guards p.foreign).noteAll _
      · exact .pure _
    · rw [found] at absent
      cases absent
  exact fun ended started => ends.of_start started

namespace Mirrors

variable (mirrors : p.Mirrors g g')
include mirrors

theorem met (meets : p.Meets (some a) (some b)) : ∃ node other, g.node? a = some node ∧
    g'.node? b = some other ∧ other.isFanOut = node.isFanOut := by
  have pairs {a b : NodeId} (pairs : p.Pairs a b) : ∃ node other, g.node? a = some node ∧
      g'.node? b = some other ∧ other.isFanOut = node.isFanOut ∧
        (node.isFanOut = true → p.fork a b) := by
    cases pairs with
    | stage both =>
      obtain ⟨node, other, found, found', stands⟩ := mirrors.stages both
      obtain ⟨s, s', kind, kind', -⟩ := stands.kind
      exact ⟨node, other, found, found', by simp [Node.isFanOut, kind, kind']⟩
    | fork both =>
      obtain ⟨node, other, found, found', kind, kind', -⟩ := mirrors.forks both
      exact ⟨node, other, found, found', by simp [Node.isFanOut, kind, kind'], fun _ => both⟩
    | nest both =>
      obtain ⟨node, other, _, _, _, _, found, found', kind, kind', -⟩ := mirrors.nests both
      exact ⟨node, other, found, found', by simp [Node.isFanOut, kind, kind']⟩
  cases meets with
  | there both =>
    obtain ⟨node, other, found, found', same, -⟩ := pairs both
    exact ⟨node, other, found, found', same⟩
  | through passes both first =>
    obtain ⟨node, exit, found, kind⟩ := mirrors.passing passes
    obtain ⟨inner, other, -, found', same, forks⟩ := pairs both
    refine ⟨node, other, found, found', ?_⟩
    have plain : node.isFanOut = false := by rw [Node.isFanOut, kind]
    rw [same, plain, ← Bool.not_eq_true]
    exact fun fork => first (forks fork)

theorem reads {β : Type} (both : p.stage a b) {f : Node Stock → β}
    (same : ∀ node other, p.Stands node other → f other = f node) :
    (g'.node? b).map f = (g.node? a).map f := by
  obtain ⟨node, other, found, found', stands⟩ := mirrors.stages both
  rw [found, found', Option.map_some, Option.map_some, same node other stands]

theorem begin_bind (both : p.stage a b) {hook : Hook} {next next' : Unit → Run Stock α}
    {post : α → Graph Stock → Graph Stock → Prop}
    (rest : ∀ g g', p.Mirrors g g' → p.Locks (next ()) (next' ()) g g' post) :
    p.Locks (Run.began a hook >>= next) (Run.began b hook >>= next') g g' post := by
  obtain ⟨node, other, found, found', -⟩ := mirrors.stages both
  have began := rest _ _ (mirrors.began both node other hook)
  unfold Locks at began ⊢
  rw [Run.start_bind, Run.start_bind, Run.began, Run.began, Run.atNode_start found,
    Run.atNode_start found']
  exact began

theorem reported (r r' : Report) :
    p.Mirrors (g.remember (.report r)) (g'.remember (.report r')) := mirrors.logged rfl rfl

theorem report (r r' : Report) : p.Runs (Run.report r) (Run.report r') g g' :=
  .update (mirrors.reported r r')

theorem tankOf_bind (both : p.stage a b) {next next' : Tank → Run Stock α}
    {post : α → Graph Stock → Graph Stock → Prop}
    (rest : ∀ t, p.Locks (next t) (next' t) g g' post) :
    p.Locks (Run.tankOf a >>= next) (Run.tankOf b >>= next') g g' post := by
  obtain ⟨node, other, found, found', stands⟩ := mirrors.stages both
  have read {g : Graph Stock} {id : NodeId} {node : Node Stock} (found : g.node? id = some node)
      (next : Tank → Run Stock α) : (Run.tankOf id >>= next).start g = (next node.tank).start g := by
    have read : (Run.tankOf id >>= next).start g =
        (next (((g.node? id).map Node.tank).getD .empty)).start g := rfl
    rw [read, found]
    rfl
  have rest := rest node.tank
  unfold Locks at rest ⊢
  rwa [read found, read found', stands.tank]

end Mirrors

section

variable {again again' : Call → Run Stock Unit} (tandem : p.Tandem again again')
include tandem

theorem onward (mirrors : p.Mirrors g g') {target target' : Option NodeId}
    (meets : p.Meets target target') (packet : Packet) :
    p.Runs (Traffic.onward again target (.deliver · packet))
      (Traffic.onward again' target' (.deliver · packet)) g g' := by
  cases meets with
  | nowhere => exact .pure mirrors
  | there both => exact tandem.deliver (.there both) mirrors
  | through passes both first => exact tandem.deliver (.through passes both first) mirrors

theorem forward (mirrors : p.Mirrors g g') (both : p.stage a b) (h : Handle) (edge : Edge) :
    p.Runs (Traffic.forward again a h edge) (Traffic.forward again' b h edge) g g' := by
  refine .atStage mirrors both fun node other found found' stands => .graph_bind ?_
  have meets := stands.main
  generalize node.main = target, other.main = target' at meets
  by_cases nowhere : target = none
  · subst nowhere
    cases meets
    refine .ite Iff.rfl (fun _ => .throw_bind mirrors) fun _ => .pure mirrors
  · obtain ⟨c, rfl⟩ := Option.ne_none_iff_exists'.mp nowhere
    obtain ⟨d, rfl⟩ : ∃ d, target' = some d := by cases meets <;> exact ⟨_, rfl⟩
    obtain ⟨next, next', reached, reached', fork⟩ := mirrors.met meets
    simp only [Option.bind_some, reached, reached', Option.map_some, Option.any_some, fork]
    refine .ite Iff.rfl (fun _ => .throw_bind mirrors) fun _ => ?_
    rw [mirrors.store, stands.name]
    refine .update_bind (.update_bind (tandem.deliver meets ?_))
    have written := mirrors.stored (·.write h
      { g.store.read h with fork := edge, origin := some node.name })
    exact written.reported (.parcelForwarded node.path next.path edge)
      (.parcelForwarded other.path next'.path edge)

theorem answer (mirrors : p.Mirrors g g') (both : p.stage a b) {r : Request}
    (plain : Program.Plain r) :
    p.Locks (Traffic.answer again a r) (Traffic.answer again' b r) g g' fun _ => p.Mirrors := by
  cases r with
  | look h =>
    refine .look_bind ?_
    rw [mirrors.store]
    exact .pure mirrors
  | edit h x => exact .update (mirrors.stored (·.write h x))
  | copy h =>
    -- Both sides add the same parcel to equal stores, so the handle is the same.
    refine .look_bind ?_
    rw [mirrors.store]
    have added := mirrors.stored (fun store => (store.add (g.store.read h)).2)
    change p.Joins _ (some (.ok (g.store.add (g.store.read h)).1, _))
      (some (.ok (g'.store.add (g.store.read h)).1, _))
    rw [mirrors.store] at added ⊢
    exact .done added
  | forward h edge => exact forward tandem mirrors both h edge
  | post m =>
    exact .atStage mirrors both fun _ _ _ _ stands => onward tandem mirrors stands.main (.message m)
  | gauge => exact mirrors.tankOf_bind both fun _ => .pure mirrors
  | refill t => exact .update (mirrors.setTank both fun _ => t)
  | drain => exact tandem.drain both mirrors
  | feed target h => exact plain.elim
  | shutdown => exact plain.elim
  | closing =>
    refine .graph_bind ?_
    rw [mirrors.running, mirrors.running']
    exact .pure mirrors
  | environment =>
    refine .graph_bind ?_
    rw [mirrors.environment]
    exact .pure mirrors
  | report r => exact mirrors.report r r
  | note line => exact .update (mirrors.logged rfl rfl)

omit tandem in
theorem feed (mirrors : p.Mirrors g g') (both : p.stage a b) (h : Handle) :
    p.Runs (Traffic.feed a h) (Traffic.feed b h) g g' := by
  refine .look_bind (.update ?_)
  rw [mirrors.store]
  exact mirrors.setTank both (·.push h (g.store.read h))

theorem interpret {program program' : Program Stock α}
    (twin : Program.Twin p.stage (Stock.Twin p.stage) program program') (mirrors : p.Mirrors g g')
    (both : p.stage a b) :
    p.Locks (Traffic.interpret again a program) (Traffic.interpret again' b program') g g'
      fun _ => p.Mirrors := by
  induction twin generalizing g g' with
  | done x => exact .pure mirrors
  | fail e e' => exact .throw mirrors
  | keep kept _ ih => exact .update_bind (ih (mirrors.setState both kept))
  | ask plain _ ih =>
    exact .bind (answer tandem mirrors both plain) (fun x _ _ mirrors => ih x mirrors)
      (fun _ => recalls_interpret tandem.recalls _ _) fun _ => recalls_interpret tandem.recalls' _ _
  | report _ ih => exact .update_bind (ih (mirrors.logged rfl rfl))
  | feed fed _ ih =>
    exact .bind (feed mirrors fed _) (fun _ _ _ mirrors => ih mirrors)
      (fun _ => recalls_interpret tandem.recalls _ _) fun _ => recalls_interpret tandem.recalls' _ _

theorem runStage (mirrors : p.Mirrors g g') (both : p.stage a b)
    {program : Here → Node Stock → Stock → Program Stock Unit}
    (twin : ∀ node other s s', p.Stands node other → Stock.Twin p.stage s s' →
      Stock.Doubles p.stage (program (node.here a) node s) (program (other.here b) other s')) :
    p.Runs (Traffic.runStage again a program) (Traffic.runStage again' b program) g g' := by
  refine .atStage mirrors both fun node other _ _ stands => ?_
  obtain ⟨s, s', kind, kind', same⟩ := stands.kind
  rw [kind, kind']
  exact interpret tandem (twin node other s s' stands same) mirrors both

theorem reconfigure (mirrors : p.Mirrors g g') (both : p.stage a b) (changed : List String) :
    p.Runs (Traffic.reconfigure again a changed) (Traffic.reconfigure again' b changed) g g' :=
  runStage tandem mirrors both fun _ _ _ _ stands same =>
    Stock.reconfigure_twin stands.params same changed

omit tandem in
theorem refreshEach (mirrors : p.Mirrors g g') (both : p.stage a b) (path path' : String)
    (pairs : List (String × String)) (changed : List String) :
    p.Locks (Traffic.refreshEach a path pairs changed) (Traffic.refreshEach b path' pairs changed)
      g g' fun _ => p.Mirrors := by
  induction pairs generalizing g g' changed with
  | nil => exact .pure mirrors
  | cons pair rest ih =>
    obtain ⟨parameter, variableName⟩ := pair
    refine .graph_bind ?_
    rw [mirrors.environment]
    cases g.environment.resolve variableName with
    | none => exact .throw mirrors
    | some value =>
      have same := mirrors.reads both (f := fun node => node.params.differs parameter value)
        fun _ _ stands => stands.params.differs parameter value
      have differs : (g'.node? b).any (fun node => node.params.differs parameter value) =
          (g.node? a).any fun node => node.params.differs parameter value := by
        simpa only [Option.any_map] using congrArg (Option.any fun differs => differs) same
      dsimp only
      rw [differs]
      have written := mirrors.setParam both parameter value
      refine .update_bind (.ite Iff.rfl (fun _ => ?_) fun _ => ih written changed)
      exact .update_bind (ih (written.logged rfl rfl) _)

theorem refresh (mirrors : p.Mirrors g g') (both : p.stage a b) :
    p.Runs (Traffic.refresh again a) (Traffic.refresh again' b) g g' := by
  refine .graph_bind ?_
  rw [mirrors.environment]
  refine mirrors.begin_bind both fun g g' mirrors => ?_
  refine .atStage mirrors both fun node other _ _ stands => ?_
  rw [stands.dynamic]
  refine .bind (refreshEach mirrors both _ _ _ _) (fun changed g g' mirrors => ?_) ?_ ?_
  · exact .ite Iff.rfl (fun _ => .pure mirrors) fun _ => reconfigure tandem mirrors both changed
  all_goals
    intro changed
    split
    · exact .pure _
  · exact recalls_runStage tandem.recalls _ _
  · exact recalls_runStage tandem.recalls' _ _

theorem accept (mirrors : p.Mirrors g g') (both : p.stage a b) (h : Handle) :
    p.Runs (Traffic.accept again a h) (Traffic.accept again' b h) g g' := by
  have accepting {again : Call → Run Stock Unit} (recalls : ∀ call, p.Recalls (again call))
      (id : NodeId) : p.Recalls (do
        Run.began id (.accept h (← Run.look h))
        Traffic.runStage again id fun here _ s => Stage.accept here s h
        Traffic.runStage again id fun here _ s => Stage.afterAccept here s) :=
    .bind (Traffic.keeps_look h) fun _ => .bind ((strays_guards p.foreign).began not_false _) fun _ =>
      .bind (recalls_runStage recalls _ _) fun _ => recalls_runStage recalls _ _
  have idle {again : Call → Run Stock Unit} (recalls : ∀ call, p.Recalls (again call)) (id : NodeId) :
      p.Recalls (do
        Traffic.runStage again id fun here _ s => Stage.beforeAccept here s h
        Run.began id (.accept h (← Run.look h))
        Traffic.runStage again id fun here _ s => Stage.accept here s h
        Traffic.runStage again id fun here _ s => Stage.afterAccept here s) :=
    .bind (recalls_runStage recalls _ _) fun _ => accepting recalls id
  refine .bind (refresh tandem mirrors both) (fun _ g g' mirrors => ?_)
    (fun _ => idle tandem.recalls a) fun _ => idle tandem.recalls' b
  -- A stock stage does nothing before it accepts, and nothing after.
  refine .bind (runStage tandem mirrors both fun _ _ _ _ _ _ => .done ())
    (fun _ g g' mirrors => ?_) ?_ ?_
  · refine .look_bind ?_
    rw [mirrors.store]
    refine mirrors.begin_bind both fun g g' mirrors => ?_
    refine .bind (runStage tandem mirrors both fun _ _ _ _ _ same => Stock.accept_twin both same h)
      (fun _ g g' mirrors => runStage tandem mirrors both fun _ _ _ _ _ _ => .done ()) ?_ ?_
    · exact fun _ => recalls_runStage tandem.recalls _ _
    · exact fun _ => recalls_runStage tandem.recalls' _ _
  · exact fun _ => accepting tandem.recalls a
  · exact fun _ => accepting tandem.recalls' b

theorem resetParameter (mirrors : p.Mirrors g g') (both : p.stage a b) (m : Message) :
    p.Runs (Traffic.resetParameter again a m) (Traffic.resetParameter again' b m) g g' := by
  refine .atStage mirrors both fun node other _ _ stands => ?_
  rcases m.values with _ | ⟨name, _ | ⟨value, _ | _⟩⟩
  · exact .throw mirrors
  · exact .throw mirrors
  · dsimp only
    rw [stands.declared]
    refine .ite Iff.rfl (fun _ => .throw_bind mirrors) fun _ => ?_
    have written := (mirrors.setParam both name.render value).reported
      (.parameterReset node.path name.render value) (.parameterReset other.path name.render value)
    exact .update_bind (.update_bind (reconfigure tandem written both _))
  · exact .throw mirrors

omit tandem in
theorem Stands.answersTo {node other : Node Stock} (stands : p.Stands node other)
    {destination : String} (plain : ¬p.foreign destination) :
    other.answersTo destination = node.answersTo destination := by
  simp only [Node.answersTo, stands.name, stands.typeName]
  rcases stands.path with same | ⟨hidden, hidden'⟩
  · rw [same]
  · have named {node : Node Stock} (hidden : p.Hidden node) :
        destination = node.path → destination = node.name := by
      rintro rfl
      exact hidden.resolve_right plain
    have := named hidden
    have := named hidden'
    rw [stands.name] at this
    grind

theorem openMessage (mirrors : p.Mirrors g g') (both : p.stage a b) {node other : Node Stock}
    (stands : p.Stands node other) {m : Message} (plain : ¬p.foreign m.destination) :
    p.Locks (Traffic.openMessage again a node m) (Traffic.openMessage again' b other m) g g'
      fun _ => p.Mirrors := by
  unfold Traffic.openMessage
  rw [stands.answersTo plain]
  refine .ite Iff.rfl (fun _ => ?_) fun _ => .pure mirrors
  refine .update_bind (Mirrors.begin_bind (mirrors.reported _ _) both fun g g' mirrors => ?_)
  refine .ite Iff.rfl (fun _ => ?_) fun _ => ?_
  · exact .bind (resetParameter tandem mirrors both m) (fun _ _ _ mirrors => .pure mirrors)
      (fun _ => .pure _) fun _ => .pure _
  · exact .bind (runStage tandem mirrors both fun _ _ _ _ _ same => Stock.onMessage_twin same m)
      (fun _ _ _ mirrors => .pure mirrors) (fun _ => .pure _) fun _ => .pure _

omit tandem in
theorem feedsBack (mirrors : p.Mirrors g g') (both : p.stage a b) :
    p.Locks (Traffic.feedsBack (σ := Stock) a) (Traffic.feedsBack b) g g' fun _ => p.Mirrors := by
  have same := mirrors.reads both (f := fun node => node.state?.any Stage.feedsBack)
    fun node other stands => by
      obtain ⟨s, s', kind, kind', twin⟩ := stands.kind
      simp only [Node.state?, kind, kind', Option.any_some]
      exact Stock.feedsBack_twin twin
  have loops : ((g'.node? b).bind Node.state?).any Stage.feedsBack =
      ((g.node? a).bind Node.state?).any Stage.feedsBack := by
    have := congrArg (fun loops : Option Bool => loops.getD false) same
    cases found : g.node? a <;> cases found' : g'.node? b <;> simp_all
  refine .graph_bind ?_
  rw [loops]
  exact .pure mirrors

omit tandem in
theorem notice (mirrors : p.Mirrors g g') (both : p.stage a b) (m : Message) :
    p.Locks (Traffic.notice a m) (Traffic.notice b m) g g'
      fun _ g g' => p.Mirrors g g' ∧ ¬p.foreign m.destination := by
  obtain ⟨node, other, found, found', -⟩ := mirrors.stages both
  by_cases astray : p.foreign m.destination
  · exact .strays (notice_strays found astray) (notice_strays found' astray)
  · refine mirrors.begin_bind both fun g g' mirrors => ?_
    refine .atStage mirrors both fun node other _ _ stands => ?_
    obtain ⟨s, s', kind, kind', same⟩ := stands.kind
    rw [kind, kind']
    exact .update_bind (.pure ⟨mirrors.setState both (Stock.notice_twin same m), astray⟩)

theorem meet (mirrors : p.Mirrors g g') (both : p.stage a b) {node other : Node Stock}
    (stands : p.Stands node other) (m : Message) :
    p.Locks (Traffic.meet again a node m) (Traffic.meet again' b other m) g g'
      fun _ => p.Mirrors := by
  have opening {again : Call → Run Stock Unit} (recalls : ∀ call, p.Recalls (again call)) (id : NodeId)
      (node : Node Stock) : p.Recalls (do
        let kept ← Traffic.openMessage again id node m
        let loops ← Traffic.feedsBack id
        return kept || loops) :=
    .bind ((strays_guards p.foreign).openMessageAt (fun call _ => recalls call) trivial node m) fun _ =>
      .bind (.bind .graph fun _ => .pure _) fun _ => .pure _
  have ending (id : NodeId) (kept : Bool) : p.Recalls (do
      let loops ← Traffic.feedsBack id
      return kept || loops) := .bind (.bind .graph fun _ => .pure _) fun _ => .pure _
  refine .holding both (.bind (notice (mirrors.mark both true) both m) (fun _ g g' noticed => ?_)
    (fun _ => opening tandem.recalls a node) fun _ => opening tandem.recalls' b other)
  obtain ⟨mirrors, plain⟩ := noticed
  refine .bind (openMessage tandem mirrors both stands plain) (fun kept g g' mirrors => ?_)
    (fun _ => ending a _) fun _ => ending b _
  exact .bind (feedsBack mirrors both) (fun loops g g' mirrors => .pure (mirrors.mark both false))
    (fun _ => .pure _) fun _ => .pure _

theorem pass (mirrors : p.Mirrors g g') (both : p.stage a b) {node other : Node Stock}
    (stands : p.Stands node other) (m : Message) :
    p.Runs (Traffic.pass again a node m) (Traffic.pass again' b other m) g g' := by
  rw [Traffic.pass_eq, Traffic.pass_eq]
  refine .bind (meet tandem mirrors both stands m) (fun ends g g' mirrors => ?_) ?_ ?_
  · exact .ite Iff.rfl (fun _ => .pure mirrors) fun _ => onward tandem mirrors stands.main (.message m)
  all_goals
    intro ends
    split
    · exact .pure _
  · exact Traffic.keeps_onward (fun call _ => tandem.recalls call) _ fun _ => rfl
  · exact Traffic.keeps_onward (fun call _ => tandem.recalls' call) _ fun _ => rfl

omit tandem in
theorem settle (mirrors : p.Mirrors g g') (both : p.stage a b) (again again' : Call → Run Stock Unit)
    {r r' : Except EngineError Unit} (get : p.Runs (Run.get r) (Run.get r') g g') :
    p.Runs (Traffic.settle again a r) (Traffic.settle again' b r') g g' := by
  obtain ⟨node, other, found, found', stands⟩ := mirrors.stages both
  refine .graph_bind ?_
  simp only [found, found', Option.any_some, stands.calm, stands.calm']
  exact get

theorem deliverToStage (mirrors : p.Mirrors g g') (both : p.stage a b) {node other : Node Stock}
    (stands : p.Stands node other) (packet : Packet) :
    p.Runs (Traffic.deliverToStage again a node packet) (Traffic.deliverToStage again' b other packet)
      g g' := by
  unfold Traffic.deliverToStage
  rw [stands.phase, stands.busy]
  refine .ite Iff.rfl (fun _ => .update_bind (.throw (mirrors.logged rfl rfl))) fun _ => ?_
  refine .ite Iff.rfl (fun _ => .graph_bind ?_) fun _ => ?_
  · rw [mirrors.running, mirrors.running']
    exact .throw mirrors
  · have settles {run run' : Run Stock Unit} (called : p.Runs run run' g g') : p.Runs
        (Run.attempt run >>= fun result => Traffic.settle again a result)
        (Run.attempt run' >>= fun result => Traffic.settle again' b result) g g' := by
      refine .attempt_bind called (fun _ g g' mirrors => ?_) (fun e e' g g' mirrors => ?_) ?_ ?_
      · exact settle mirrors both _ _ (.pure mirrors)
      · exact settle mirrors both _ _ (.throw mirrors)
      · exact fun r => (strays_guards p.foreign).settle (fun call _ => tandem.recalls call) trivial r
      · exact fun r => (strays_guards p.foreign).settle (fun call _ => tandem.recalls' call) trivial r
    cases packet with
    | parcel h =>
      refine settles (.holding both ?_)
      exact (accept tandem (mirrors.mark both true) both h).mono fun _ _ _ mirrors =>
        mirrors.mark both false
    | message m => exact settles (pass tandem mirrors both stands m)

theorem fanOut (mirrors : p.Mirrors g g') {node other : Node Stock}
    (main : p.Meets node.main other.main) (branch : p.Meets node.branch other.branch)
    (packet : Packet) :
    p.Runs (Traffic.fanOut again node packet) (Traffic.fanOut again' other packet) g g' := by
  cases packet with
  | parcel h =>
    refine .look_bind ?_
    rw [mirrors.store]
    have routed := (mirrors.stored (·.write h { g.store.read h with fork := .main })).reported
      (.fanOutRouted node.path (g.store.read h).fork) (.fanOutRouted other.path (g.store.read h).fork)
    refine .update_bind (.update_bind ?_)
    generalize (g.store.read h).fork = fork, node.branch = target, other.branch = target' at *
    cases fork with
    | main => exact onward tandem routed main (.parcel h)
    | branch =>
      cases branch with
      | nowhere => exact .throw routed
      | there both => exact tandem.deliver (.there both) routed
      | through passes both first => exact tandem.deliver (.through passes both first) routed
  | message m =>
    refine .bind (onward tandem mirrors branch (.message m)) (fun _ g g' mirrors => ?_) ?_ ?_
    · exact onward tandem mirrors main (.message m)
    · exact fun _ => Traffic.keeps_onward (fun call _ => tandem.recalls call) _ fun _ => rfl
    · exact fun _ => Traffic.keeps_onward (fun call _ => tandem.recalls' call) _ fun _ => rfl

theorem deliver (mirrors : p.Mirrors g g') (pairs : p.Pairs a b) (packet : Packet) :
    p.Runs (Traffic.deliver again a packet) (Traffic.deliver again' b packet) g g' := by
  cases pairs with
  | stage both =>
    refine .atStage mirrors both fun node other _ _ stands => ?_
    obtain ⟨s, s', kind, kind', -⟩ := stands.kind
    rw [kind, kind']
    exact deliverToStage tandem mirrors both stands packet
  | fork both =>
    obtain ⟨node, other, found, found', kind, kind', main, branch⟩ := mirrors.forks both
    refine .atNode found found' ?_
    rw [kind, kind']
    exact fanOut tandem mirrors main branch packet
  | nest both =>
    obtain ⟨node, other, entry, exit, entry', exit', found, found', kind, kind', enters⟩ :=
      mirrors.nests both
    refine .atNode found found' ?_
    rw [kind, kind']
    exact onward tandem mirrors enters packet

theorem drain (mirrors : p.Mirrors g g') (both : p.stage a b) :
    p.Runs (Traffic.drain again a) (Traffic.drain again' b) g g' := by
  unfold Traffic.drain
  refine mirrors.tankOf_bind both fun t => ?_
  generalize t.release = ended
  obtain ⟨released, rest⟩ := ended
  have emptied := mirrors.setTank both fun _ => rest
  refine .update_bind ?_
  cases released with
  | none => exact .pure emptied
  | some h =>
    refine .graph_bind (.update_bind ?_)
    refine .bind (forward tandem (emptied.reported _ _) both h .main) (fun _ g g' mirrors => ?_)
      (fun _ => tandem.recalls _) fun _ => tandem.recalls' _
    exact tandem.drain both mirrors

end

/-- How deep the run that follows has to be let go so that it comes as far as the one that leads. Each
call of the second run may take two in the first. -/
def Reaches (p : Pairing) (depth depth' : Nat) : Prop :=
  if p.leads = true then depth ≤ depth' else 2 * depth' ≤ depth

theorem Reaches.less {depth depth' : Nat} (reaches : p.Reaches (depth + 1) (depth' + 1)) :
    p.Reaches depth depth' := by
  unfold Reaches at *
  split at reaches
  next leads => rw [if_pos leads]; omega
  next follows => rw [if_neg follows]; omega

theorem Reaches.through {depth depth' : Nat} (reaches : p.Reaches (depth + 2) (depth' + 1)) :
    p.Reaches depth depth' := by
  unfold Reaches at *
  split at reaches
  next leads => rw [if_pos leads]; omega
  next follows => rw [if_neg follows]; omega

theorem Reaches.behind {depth depth' : Nat} (reaches : p.Reaches depth depth') (shallow : depth ≤ 1)
    {run run' : Run Stock Unit} (left : run.start g = none)
    (right : depth' = 0 → run'.start g' = none) : p.Runs run run' g g' := by
  unfold Reaches at reaches
  unfold Runs Locks
  cases leads : p.leads with
  | true =>
    rw [left]
    exact .behind leads
  | false =>
    rw [if_neg (by simp [leads])] at reaches
    rw [right (by omega)]
    exact .ahead leads

theorem Reaches.ahead {depth : Nat} (reaches : p.Reaches (depth + 1) 0)
    {run run' : Run Stock Unit} (right : run'.start g' = none) : p.Runs run run' g g' := by
  unfold Reaches at reaches
  unfold Runs Locks
  cases leads : p.leads with
  | true =>
    rw [if_pos leads] at reaches
    omega
  | false =>
    rw [right]
    exact .ahead leads

theorem recalls_perform (depth : Nat) (call : Call) : p.Recalls (Traffic.perform depth call) :=
  (strays_guards p.foreign).perform depth call trivial

theorem perform_tandem {depth depth' : Nat} (reaches : p.Reaches depth depth') :
    p.Tandem (Traffic.perform depth) (Traffic.perform depth') := by
  -- By induction on how deep the first run is followed. A node that only hands on takes two levels.
  induction depth using Nat.strong_induction_on generalizing depth' with
  | _ depth ih =>
  refine ⟨fun {g g' a b packet} meets mirrors => ?_, fun {g g' a b} both mirrors => ?_,
    recalls_perform depth, recalls_perform depth'⟩
  · have unfinished (call : Call) : depth' = 0 → (Traffic.perform depth' call).start g' = none := by
      rintro rfl
      rfl
    cases meets with
    | there pairs =>
      obtain _ | depth := depth
      · exact reaches.behind (by omega) rfl (unfinished _)
      obtain _ | depth' := depth'
      · exact reaches.ahead rfl
      exact deliver (ih depth (by omega) reaches.less) mirrors pairs packet
    | @through _ inner _ passes pairs first =>
      obtain ⟨node, exit, found, kind⟩ := mirrors.passing passes
      have handed (depth : Nat) : (Traffic.perform (depth + 1) (.deliver a packet)).start g =
          (Traffic.perform depth (.deliver inner packet)).start g := by
        change (Traffic.deliver (Traffic.perform depth) a packet).start g = _
        rw [Traffic.deliver, Run.atNode_start found, kind]
        rfl
      obtain _ | _ | depth := depth
      · exact reaches.behind (by omega) rfl (unfinished _)
      · exact reaches.behind (by omega) (handed 0) (unfinished _)
      obtain _ | depth' := depth'
      · exact reaches.ahead rfl
      unfold Runs Locks
      rw [handed]
      exact deliver (ih depth (by omega) reaches.through) mirrors pairs packet
  · have unfinished : depth' = 0 → (Traffic.perform depth' (.drain b)).start g' = none := by
      rintro rfl
      rfl
    obtain _ | depth := depth
    · exact reaches.behind (by omega) rfl unfinished
    obtain _ | depth' := depth'
    · exact reaches.ahead rfl
    exact drain (ih depth (by omega) reaches.less) mirrors both

theorem send_locks {depth depth' : Nat} (reaches : p.Reaches depth depth') (mirrors : p.Mirrors g g')
    (x : Parcel) : p.Runs (Graph.send depth x) (Graph.send depth' x) g g' := by
  have added := mirrors.stored (fun store => (store.add x).2)
  have sent : p.Runs (Traffic.perform depth (.deliver g.root (.parcel (g.store.add x).1)))
      (Traffic.perform depth' (.deliver g'.root (.parcel (g'.store.add x).1)))
      { g with store := (g.store.add x).2 } { g' with store := (g'.store.add x).2 } := by
    rw [mirrors.store] at added ⊢
    exact (perform_tandem reaches).deliver (.there (.nest mirrors.root)) added
  exact sent

inductive Tallies (p : Pairing) : Option (Graph Stock) → Option (Graph Stock) → Prop
  | behind {other : Option (Graph Stock)} (leads : p.leads = true) : Tallies p none other
  | ahead {ended : Option (Graph Stock)} (leads : p.leads = false) : Tallies p ended none
  | strays {x y : Option (Graph Stock)} (left : ∀ g, x = some g → Strays p.foreign g.history)
      (right : ∀ g, y = some g → Strays p.foreign g.history) : Tallies p x y
  | done {g g' : Graph Stock} (mirrors : p.Mirrors g g') : Tallies p (some g) (some g')

theorem Locks.tallies {run run' : Run Stock Unit} (locks : p.Runs run run' g g') :
    p.Tallies ((run.start g).map Prod.snd) ((run'.start g').map Prod.snd) := by
  unfold Runs Locks at locks
  generalize run.start g = x, run'.start g' = y at locks
  cases locks with
  | behind leads => exact .behind leads
  | ahead leads => exact .ahead leads
  | strays left right =>
    refine .strays (fun g same => ?_) fun g same => ?_
    · obtain ⟨ended, rfl, rfl⟩ := Option.map_eq_some_iff.mp same
      exact left ended rfl
    · obtain ⟨ended, rfl, rfl⟩ := Option.map_eq_some_iff.mp same
      exact right ended rfl
  | done mirrors => exact .done mirrors
  | failed mirrors => exact .done mirrors

theorem sent_strays {depth : Nat} {parcels : List Parcel} {g after : Graph Stock}
    (strays : Strays p.foreign g.history) (ran : Graph.actAll depth (parcels.map .send) g = some after) :
    Strays p.foreign after.history := by
  induction parcels generalizing g with
  | nil =>
    cases ran
    exact strays
  | cons x rest ih =>
    obtain ⟨next, first, ran⟩ := Option.bind_eq_some_iff.mp ran
    obtain ⟨ended, sent, rfl⟩ := Option.map_eq_some_iff.mp first
    refine ih ?_ ran
    have recalls : p.Recalls (Graph.send depth x) :=
      .bind ((strays_guards p.foreign).add x) fun h => .bind .graph fun g => recalls_perform depth _
    exact (recalls g strays).of_start sent

theorem sent_tallies {depth depth' : Nat} (reaches : p.Reaches depth depth')
    (mirrors : p.Mirrors g g') (parcels : List Parcel) :
    p.Tallies (Graph.actAll depth (parcels.map .send) g)
      (Graph.actAll depth' (parcels.map .send) g') := by
  induction parcels generalizing g g' with
  | nil => exact .done mirrors
  | cons x rest ih =>
    have first := (send_locks reaches mirrors x).tallies
    change p.Tallies (((Graph.send depth x).start g).map Prod.snd >>= Graph.actAll depth (rest.map .send))
      (((Graph.send depth' x).start g').map Prod.snd >>= Graph.actAll depth' (rest.map .send))
    generalize ((Graph.send depth x).start g).map Prod.snd = y,
      ((Graph.send depth' x).start g').map Prod.snd = z at first
    cases first with
    | behind leads => exact .behind leads
    | ahead leads => exact .ahead leads
    | strays left right =>
      refine .strays (fun g same => ?_) fun g same => ?_
      · obtain ⟨next, rfl, ran⟩ := Option.bind_eq_some_iff.mp same
        exact sent_strays (left next rfl) ran
      · obtain ⟨next, rfl, ran⟩ := Option.bind_eq_some_iff.mp same
        exact sent_strays (right next rfl) ran
    | done mirrors => exact ih mirrors

end Sluice.Pairing
