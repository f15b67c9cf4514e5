import Sluice.Proofs.Graph.Recovery
import Sluice.Proofs.Graph.Guards
import Sluice.Proofs.Graph.TankLoads
import Sluice.Proofs.Stage.HeldParcels

set_option autoImplicit false

namespace Sluice

variable {α β : Type}

/-- Which nodes calls get to, which parcels they may touch, and what of the store stays good as long as
they touch no others. A parcel that is new may be touched. -/
structure Custody where
  scope : NodeId → Prop
  may : Store → Handle → Prop
  good : Store → Prop
  write : ∀ {s h k} p, may s h → may (s.write k p) h
  wrote : ∀ {s k} p, good s → may s k → good (s.write k p)
  add : ∀ {s h} p, may s h → may (s.add p).2 h
  fresh : ∀ {s} p, good s → may (s.add p).2 (s.add p).1
  added : ∀ {s} p, good s → good (s.add p).2

namespace Custody

/-- The tanks that calls get to hold nothing but what may be touched, and no way leads out of scope. -/
structure Holds (c : Custody) (g : Graph Stock) : Prop where
  good : c.good g.store
  tanks : ∀ {id node h}, c.scope id → g.node? id = some node → h ∈ node.tank.handles →
    c.may g.store h
  leads : ∀ {id node target}, c.scope id → g.node? id = some node → node.Leads target → c.scope target

structure Later (c : Custody) (g after : Graph Stock) : Prop where
  holds : c.Holds after
  may : ∀ {h}, c.may g.store h → c.may after.store h

def Makes (c : Custody) : Call → Graph Stock → Prop
  | .deliver id (.parcel h), g => c.scope id ∧ c.may g.store h
  | .deliver id (.message _), _ => c.scope id
  | .close id, _ => c.scope id
  | .drain id, _ => c.scope id

def Follows (c : Custody) (run other : Run Stock α) (g : Graph Stock)
    (good : α → Graph Stock → Prop := fun _ _ => True) : Prop :=
  run.Tracks other g fun result after => c.Later g after ∧ ∀ a, result = .ok a → good a after

def Serves (c : Custody) (again other : Call → Run Stock Unit) : Prop :=
  ∀ {call g}, c.Holds g → c.Makes call g → c.Follows (again call) (other call) g

variable {c : Custody} {g mid after : Graph Stock} {id : NodeId}

theorem Later.refl (holds : c.Holds g) : c.Later g g := ⟨holds, fun may => may⟩

theorem Later.trans (first : c.Later g mid) (second : c.Later mid after) : c.Later g after :=
  ⟨second.holds, fun may => second.may (first.may may)⟩

theorem Makes.within {call : Call} (makes : c.Makes call g) : c.scope call.node := by
  cases call with
  | deliver id packet =>
    cases packet with
    | parcel h => exact makes.1
    | message m => exact makes
  | close id => exact makes
  | drain id => exact makes

theorem Makes.onward {packet : Packet} {target : NodeId} (makes : c.Makes (.deliver id packet) g)
    (within : c.scope target) : c.Makes (.deliver target packet) g := by
  cases packet with
  | parcel h => exact ⟨within, makes.2⟩
  | message m => exact within

namespace Holds

variable (holds : c.Holds g)
include holds

theorem update {f : Node Stock → Node Stock}
    (leads : ∀ node target, (f node).Leads target → node.Leads target)
    (tank : ∀ node h, c.scope id → g.node? id = some node → h ∈ (f node).tank.handles →
      c.may g.store h) : c.Later g (g.updateNode id f) := by
  refine ⟨⟨holds.good, fun within found held => ?_, fun within found leading => ?_⟩, fun may => may⟩
  · obtain ⟨before, was, ⟨here, rfl⟩ | ⟨-, rfl⟩⟩ := Graph.updateNode_cases found
    · subst here
      exact tank before _ within was held
    · exact holds.tanks within was held
  · obtain ⟨before, was, ⟨here, rfl⟩ | ⟨-, rfl⟩⟩ := Graph.updateNode_cases found
    · subst here
      exact holds.leads within was (leads before _ leading)
    · exact holds.leads within was leading

theorem around {f : Node Stock → Node Stock} (same : ∀ node : Node Stock, node.Around (f node))
    (tank : ∀ node, (f node).tank = node.tank) : c.Later g (g.updateNode id f) :=
  holds.update (fun node _ leads => leads.of_around (same node)) fun node _ within found held =>
    holds.tanks within found (tank node ▸ held)

theorem mark (id : NodeId) (busy : Bool) : c.Later g (g.mark id busy) :=
  holds.around (fun _ => ⟨rfl, rfl, rfl⟩) fun _ => rfl

theorem refill {t : Tank} (fits : c.scope id → ∀ h ∈ t.handles, c.may g.store h) :
    c.Later g (g.refill id t) :=
  holds.update (fun _ _ leads => leads) fun _ h within _ held => fits within h held

theorem feed {h : Handle} (may : c.may g.store h) (p : Parcel) : c.Later g (g.feed id h p) := by
  refine holds.update (fun _ _ leads => leads) fun node k within found held => ?_
  rcases Tank.mem_handles_push.mp held with rfl | held
  · exact may
  · exact holds.tanks within found held

theorem state (s : Stock) : c.Later g (g.updateNode id fun node => { node with kind := .stage s }) := by
  refine holds.update (fun node target leads => ?_) fun _ _ within found held =>
    holds.tanks within found held
  rcases leads with main | branch | entry
  · exact .inl main
  · exact .inr (.inl branch)
  · cases entry

theorem remember (event : Event Stock) : c.Later g (g.remember event) :=
  ⟨⟨holds.good, holds.tanks, holds.leads⟩, fun may => may⟩

theorem edit {h : Handle} (may : c.may g.store h) (p : Parcel) :
    c.Later g { g with store := g.store.write h p } :=
  ⟨⟨c.wrote p holds.good may, fun within found held => c.write p (holds.tanks within found held),
    holds.leads⟩, c.write p⟩

theorem add (p : Parcel) : c.Later g { g with store := (g.store.add p).2 } :=
  ⟨⟨c.added p holds.good, fun within found held => c.add p (holds.tanks within found held),
    holds.leads⟩, c.add p⟩

end Holds

section

variable {run other : Run Stock α} {good better : α → Graph Stock → Prop}

theorem Follows.mono (follows : c.Follows run other g good)
    (implies : ∀ a after, c.Later g after → good a after → better a after) :
    c.Follows run other g better :=
  Run.Tracks.mono follows fun _ after ⟨later, holds⟩ =>
    ⟨later, fun a same => implies a after later (holds a same)⟩

theorem Follows.since (later : c.Later g mid) (follows : c.Follows run other mid good) :
    run.Tracks other mid fun result after => c.Later g after ∧ ∀ a, result = .ok a → good a after :=
  Run.Tracks.mono follows fun _ _ meets => ⟨later.trans meets.1, meets.2⟩

theorem Follows.bind {next then' : α → Run Stock β} {better : β → Graph Stock → Prop}
    (first : c.Follows run other g good)
    (rest : ∀ a after, c.Later g after → good a after → c.Follows (next a) (then' a) after better) :
    c.Follows (run >>= next) (other >>= then') g better :=
  Run.Tracks.bind first (fun a after ⟨later, holds⟩ => (rest a after later (holds a rfl)).since later)
    fun _ _ meets => ⟨meets.1, nofun⟩

theorem Follows.pure {a : α} (holds : c.Holds g) (meets : good a g) :
    c.Follows (Pure.pure a) (Pure.pure a) g good :=
  .of_ends ⟨.refl holds, fun _ same => Except.ok.inj same ▸ meets⟩

theorem Follows.throw {e : EngineError} (holds : c.Holds g) :
    c.Follows (MonadExcept.throw e : Run Stock α) (MonadExcept.throw e) g good :=
  .of_ends ⟨.refl holds, nofun⟩

theorem Follows.throw_bind {e : EngineError} {next then' : α → Run Stock β}
    {good : β → Graph Stock → Prop} (holds : c.Holds g) :
    c.Follows ((MonadExcept.throw e : Run Stock α) >>= next)
      ((MonadExcept.throw e : Run Stock α) >>= then') g good :=
  Follows.bind (Follows.throw holds : c.Follows _ _ g fun _ _ => False) fun _ _ _ never => never.elim

theorem Follows.reading {next then' : Graph Stock → Run Stock α}
    (rest : c.Follows (next g) (then' g) g good) :
    c.Follows (Run.graph >>= next) (Run.graph >>= then') g good :=
  Run.Tracks.reading rest

theorem Follows.update {f : Graph Stock → Graph Stock} (later : c.Later g (f g)) :
    c.Follows (Run.update f) (Run.update f) g :=
  .of_ends ⟨later, fun _ _ => trivial⟩

theorem Follows.updating {f : Graph Stock → Graph Stock} {next then' : Unit → Run Stock α}
    (later : c.Later g (f g)) (rest : c.Follows (next ()) (then' ()) (f g) good) :
    c.Follows (Run.update f >>= next) (Run.update f >>= then') g good := by
  have first : c.Follows (Run.update f) (Run.update f) g fun _ after => after = f g :=
    .of_ends ⟨later, fun _ _ => rfl⟩
  exact first.bind fun _ _ _ here => here ▸ rest

theorem Follows.atNode {f f' : Node Stock → Run Stock Unit} (holds : c.Holds g)
    (there : ∀ node, g.node? id = some node → c.Follows (f node) (f' node) g) :
    c.Follows (Run.atNode id f) (Run.atNode id f') g :=
  Run.Tracks.atNode there fun _ => ⟨.refl holds, fun _ _ => trivial⟩

theorem Follows.attempt (follows : c.Follows run other g) :
    c.Follows run.attempt other.attempt g :=
  Run.Tracks.mono (Run.Tracks.attempt follows) fun _ _ ⟨_, _, meets⟩ => ⟨meets.1, fun _ _ => trivial⟩

theorem Follows.get (holds : c.Holds g) (result : Except EngineError Unit) :
    c.Follows (Run.get result) (Run.get result) g :=
  .of_ends ⟨.refl holds, fun _ _ => trivial⟩

theorem Follows.holding (holds : c.Holds g)
    (follows : ∀ {mid}, c.Holds mid → c.Follows run other mid) :
    c.Follows (Run.holding id run) (Run.holding id other) g := by
  have marked := holds.mark id true
  refine Run.Tracks.holding (Run.Tracks.mono (follows marked.holds) fun _ after meets => ?_)
  exact ⟨(marked.trans meets.1).trans (meets.1.holds.mark id false), fun _ _ => trivial⟩

theorem Follows.look (holds : c.Holds g) (h : Handle) : c.Follows (Run.look h) (Run.look h) g :=
  .reading (.pure holds trivial)

theorem Follows.report (holds : c.Holds g) (r : Report) : c.Follows (Run.report r) (Run.report r) g :=
  .update (holds.remember _)

theorem Follows.note (holds : c.Holds g) (line : String) :
    c.Follows (Run.remember (.note line)) (Run.remember (.note line)) g :=
  .update (holds.remember _)

theorem Follows.noteAll (holds : c.Holds g) (lines : List String) :
    c.Follows (Run.noteAll lines) (Run.noteAll lines) g := by
  induction lines generalizing g with
  | nil => exact .pure holds trivial
  | cons line rest ih => exact (Follows.note holds line).bind fun _ _ later _ => ih later.holds

theorem Follows.began (holds : c.Holds g) (hook : Hook) :
    c.Follows (Run.began id hook) (Run.began id hook) g :=
  .atNode holds fun _ _ => .update (holds.remember _)

theorem Follows.around (holds : c.Holds g) {f : Node Stock → Node Stock}
    (same : ∀ node : Node Stock, node.Around (f node)) (tank : ∀ node, (f node).tank = node.tank) :
    c.Follows (Run.updateNode id f) (Run.updateNode id f) g :=
  .update (holds.around same tank)

theorem Follows.phase (holds : c.Holds g) (phase : Phase) :
    c.Follows (Run.setPhase id phase) (Run.setPhase id phase) g :=
  .around holds (fun _ => ⟨rfl, rfl, rfl⟩) fun _ => rfl

theorem Follows.edit (holds : c.Holds g) {h : Handle} (may : c.may g.store h) (p : Parcel) :
    c.Follows (Run.edit h p) (Run.edit h p) g :=
  .update (holds.edit may p)

theorem Follows.add (holds : c.Holds g) (p : Parcel) :
    c.Follows (Run.add p) (Run.add p) g fun h after => c.may after.store h :=
  .of_ends ⟨holds.add p, fun _ same => Except.ok.inj same ▸ c.fresh p holds.good⟩

end

section

variable {again other : Call → Run Stock Unit} (serves : c.Serves again other) (holds : c.Holds g)
include serves holds

theorem onward {target : Option NodeId} {call : NodeId → Call}
    (makes : ∀ id, target = some id → c.Makes (call id) g) :
    c.Follows (Traffic.onward again target call) (Traffic.onward other target call) g := by
  cases target with
  | none => exact .pure holds trivial
  | some id => exact serves holds (makes id rfl)

theorem forward (within : c.scope id) {h : Handle} (may : c.may g.store h) (edge : Edge) :
    c.Follows (Traffic.forward again id h edge) (Traffic.forward other id h edge) g := by
  refine .atNode holds fun node found => .reading ?_
  dsimp only
  split
  · exact .throw_bind holds
  · split
    · exact .pure holds trivial
    next target next follows =>
      have main := (Graph.next_after follows).1
      refine (Follows.edit holds may _).bind fun _ _ first _ => ?_
      refine (Follows.report first.holds _).bind fun _ _ second _ => ?_
      exact serves second.holds ⟨holds.leads within found (.inl main), second.may (first.may may)⟩

omit serves in
theorem feed {target : NodeId} {h : Handle} (may : c.may g.store h) :
    c.Follows (Traffic.feed target h) (Traffic.feed target h) g :=
  .reading (.update (holds.feed may _))

variable (within : c.scope id)
include within

theorem answer {r : Request} (uses : r.Uses (c.may g.store)) :
    c.Follows (Traffic.answer again id r) (Traffic.answer other id r) g
      fun a after => ∀ h, r.Gives a h → c.may after.store h := by
  -- Most requests hand no parcel back; a copy and the tank do.
  have nothing {run run' : Run Stock r.Answer} (gives : ∀ a h, ¬r.Gives a h)
      (follows : c.Follows run run' g) :
      c.Follows run run' g fun a after => ∀ h, r.Gives a h → c.may after.store h :=
    follows.mono fun a _ _ _ h given => absurd given (gives a h)
  cases r with
  | look h => exact nothing (fun _ _ => not_false) (.look holds h)
  | edit h p => exact nothing (fun _ _ => not_false) (.edit holds uses p)
  | copy h =>
    refine (Follows.look holds h).bind fun p _ later _ => (Follows.add later.holds p).mono ?_
    exact fun copied _ _ may h same => same ▸ may
  | forward h edge => exact nothing (fun _ _ => not_false) (forward serves holds within uses edge)
  | post m =>
    refine nothing (fun _ _ => not_false) (.atNode holds fun node found =>
      onward serves holds fun target main => ?_)
    exact holds.leads within found (.inl main)
  | gauge =>
    refine .reading (.pure holds fun h given => ?_)
    cases found : g.node? id with
    | none =>
      rw [found] at given
      cases given
    | some node =>
      rw [found] at given
      exact holds.tanks within found given
  | refill t => exact nothing (fun _ _ => not_false) (.update (holds.refill fun _ => uses))
  | drain => exact nothing (fun _ _ => not_false) (serves holds within)
  | feed target h => exact nothing (fun _ _ => not_false) (feed holds uses)
  | shutdown => exact uses.elim
  | closing => exact nothing (fun _ _ => not_false) (.reading (.pure holds trivial))
  | environment => exact nothing (fun _ _ => not_false) (.reading (.pure holds trivial))
  | report r => exact nothing (fun _ _ => not_false) (.report holds r)
  | note line => exact nothing (fun _ _ => not_false) (.note holds line)

theorem interpret {program : Program Stock Unit} (uses : program.Uses (c.may g.store)) :
    c.Follows (Traffic.interpret again id program) (Traffic.interpret other id program) g := by
  induction program generalizing g with
  | done a => exact .pure holds trivial
  | fail e => exact .throw holds
  | keep s next ih =>
    have later : c.Later g (g.updateNode id fun node => { node with kind := .stage s }) := holds.state s
    exact .updating later (ih later.holds uses)
  | ask r next ih =>
    refine (answer serves holds within uses.1).bind fun a _ later given => ?_
    exact ih a later.holds ((uses.2 a).mono fun h => Or.rec later.may (given h))

theorem runStage {program : Here → Node Stock → Stock → Program Stock Unit}
    (uses : ∀ here node s, (program here node s).Uses (c.may g.store)) :
    c.Follows (Traffic.runStage again id program) (Traffic.runStage other id program) g := by
  refine .atNode holds fun node _ => ?_
  split
  · exact interpret serves holds within (uses _ _ _)
  · exact .pure holds trivial

theorem reconfigure (changed : List String) :
    c.Follows (Traffic.reconfigure again id changed) (Traffic.reconfigure other id changed) g :=
  runStage serves holds within fun here node s => s.reconfigure_uses here node.params changed

omit serves within in
theorem refreshEach (path : String) (pairs : List (String × String)) (changed : List String) :
    c.Follows (Traffic.refreshEach id path pairs changed) (Traffic.refreshEach id path pairs changed) g := by
  induction pairs generalizing g changed with
  | nil => exact .pure holds trivial
  | cons pair rest ih =>
    refine .reading ?_
    dsimp only
    split
    · exact .throw holds
    · refine Follows.bind (.around holds (fun _ => ⟨rfl, rfl, rfl⟩) fun _ => rfl) fun _ _ later _ => ?_
      split
      · exact (Follows.report later.holds _).bind fun _ _ later _ => ih later.holds _
      · exact ih later.holds _

theorem refresh : c.Follows (Traffic.refresh again id) (Traffic.refresh other id) g := by
  refine .reading ((Follows.began holds _).bind fun _ _ later _ => ?_)
  refine .atNode later.holds fun node _ => ?_
  refine (refreshEach later.holds node.path _ _).bind fun changed _ later _ => ?_
  split
  · exact .pure later.holds trivial
  · exact reconfigure serves later.holds within changed

theorem accept {h : Handle} (may : c.may g.store h) :
    c.Follows (Traffic.accept again id h) (Traffic.accept other id h) g := by
  refine (refresh serves holds within).bind fun _ _ first _ => ?_
  refine Follows.bind (runStage serves first.holds within fun _ _ _ => trivial) fun _ _ second _ => ?_
  refine (Follows.look second.holds h).bind fun p _ third _ => ?_
  refine (Follows.began third.holds _).bind fun _ _ fourth _ => ?_
  have may := fourth.may (third.may (second.may (first.may may)))
  refine Follows.bind (runStage serves fourth.holds within fun here _ s => ?_) fun _ _ fifth _ => ?_
  · exact (s.accept_uses here h).mono fun _ same => same ▸ may
  · exact runStage serves fifth.holds within fun _ _ _ => trivial

theorem resetParameter (m : Message) :
    c.Follows (Traffic.resetParameter again id m) (Traffic.resetParameter other id m) g := by
  refine .atNode holds fun node _ => ?_
  split
  · dsimp only
    split
    · exact .throw_bind holds
    · refine Follows.bind (.around holds (fun _ => ⟨rfl, rfl, rfl⟩) fun _ => rfl) fun _ _ later _ => ?_
      refine (Follows.report later.holds _).bind fun _ _ later _ => ?_
      exact reconfigure serves later.holds within _
  · exact .throw holds

theorem openMessage (node : Node Stock) (m : Message) :
    c.Follows (Traffic.openMessage again id node m) (Traffic.openMessage other id node m) g := by
  unfold Traffic.openMessage
  split
  · refine (Follows.report holds _).bind fun _ _ first _ => ?_
    refine (Follows.began first.holds _).bind fun _ _ second _ => ?_
    dsimp only
    split
    · exact (resetParameter serves second.holds within m).bind fun _ _ later _ => .pure later.holds trivial
    · refine Follows.bind (runStage serves second.holds within fun here _ s => s.onMessage_uses here m)
        fun _ _ later _ => .pure later.holds trivial
  · exact .pure holds trivial

omit serves within in
theorem notice (m : Message) : c.Follows (Traffic.notice id m) (Traffic.notice id m) g := by
  refine (Follows.began holds _).bind fun _ _ later _ => .atNode later.holds fun node _ => ?_
  split
  next s _ =>
    have kept : c.Later _
        (Graph.updateNode _ id fun node => { node with kind := .stage (Stage.notice m s).1 }) :=
      later.holds.state _
    exact .updating kept (.noteAll kept.holds _)
  · exact .pure later.holds trivial

theorem pass (node : Node Stock) (leads : ∀ target, node.Leads target → c.scope target) (m : Message) :
    c.Follows (Traffic.pass again id node m) (Traffic.pass other id node m) g := by
  rw [Traffic.pass_eq, Traffic.pass_eq]
  have meets : c.Follows (Traffic.meet again id node m) (Traffic.meet other id node m) g := by
    refine .holding holds fun holds => (notice holds m).bind fun _ _ later _ => ?_
    refine (openMessage serves later.holds within node m).bind fun _ _ later _ => ?_
    exact .reading (.pure later.holds trivial)
  refine meets.bind fun ends _ later _ => ?_
  split
  · exact .pure later.holds trivial
  · exact onward serves later.holds fun target main => leads target (.inl main)

theorem settle (result : Except EngineError Unit) :
    c.Follows (Traffic.settle again id result) (Traffic.settle other id result) g := by
  refine .reading ?_
  dsimp only
  split
  · refine Follows.bind (.around holds (fun _ => ⟨rfl, rfl, rfl⟩) fun _ => rfl) fun _ _ later _ => ?_
    refine Follows.bind (.attempt (serves later.holds within)) fun closed _ later _ => ?_
    exact (Follows.get later.holds result).bind fun _ _ later _ => .get later.holds closed
  · exact .get holds result

theorem deliverToStage (node : Node Stock) (leads : ∀ target, node.Leads target → c.scope target)
    {packet : Packet} (makes : c.Makes (.deliver id packet) g) :
    c.Follows (Traffic.deliverToStage again id node packet)
      (Traffic.deliverToStage other id node packet) g := by
  unfold Traffic.deliverToStage
  split
  · exact .updating (holds.remember _) (.throw (holds.remember _).holds)
  · split
    · refine .reading ?_
      split
      · exact .report holds _
      · exact .throw holds
    · refine Follows.bind (.attempt ?_) fun result _ later _ => settle serves later.holds within result
      cases packet with
      | parcel h =>
        have marked := holds.mark id true
        refine Run.Tracks.holding (Run.Tracks.mono
          (accept serves marked.holds within (marked.may makes.2)) fun _ after meets => ?_)
        exact ⟨(marked.trans meets.1).trans (meets.1.holds.mark id false), fun _ _ => trivial⟩
      | message m => exact pass serves holds within node leads m

omit within in
theorem fanOut (node : Node Stock) (leads : ∀ target, node.Leads target → c.scope target)
    {packet : Packet} (makes : c.Makes (.deliver id packet) g) :
    c.Follows (Traffic.fanOut again node packet) (Traffic.fanOut other node packet) g := by
  cases packet with
  | parcel h =>
    refine (Follows.look holds h).bind fun p _ first _ => ?_
    refine (Follows.edit first.holds (first.may makes.2) _).bind fun _ _ second _ => ?_
    refine (Follows.report second.holds _).bind fun _ _ third _ => ?_
    have may := third.may (second.may (first.may makes.2))
    split
    · exact .throw third.holds
    next branch _ follows => exact serves third.holds ⟨leads branch (.inr (.inl follows)), may⟩
    · exact onward serves third.holds fun target main => ⟨leads target (.inl main), may⟩
  | message m =>
    refine Follows.bind (onward serves holds fun target branch => leads target (.inr (.inl branch)))
      fun _ _ later _ => ?_
    exact onward serves later.holds fun target main => leads target (.inl main)

omit within in
theorem deliver {packet : Packet} (makes : c.Makes (.deliver id packet) g) :
    c.Follows (Traffic.deliver again id packet) (Traffic.deliver other id packet) g := by
  have within : c.scope id := makes.within
  refine .atNode holds fun node found => ?_
  have leads (target : NodeId) : node.Leads target → c.scope target := holds.leads within found
  split
  next entry _ kind =>
    refine onward serves holds fun target same => makes.onward (leads target (.inr (.inr ?_)))
    rw [Node.entry, kind, same]
  next => exact fanOut serves holds node leads makes
  next => exact deliverToStage serves holds within node leads makes

theorem callLast (hook : Hook) {program : Here → Stock → Program Stock Unit}
    (uses : ∀ here s, (program here s).Uses (c.may g.store)) :
    c.Follows (Traffic.callLast again id hook program) (Traffic.callLast other id hook program) g := by
  refine (Follows.began holds _).bind fun _ _ first _ => ?_
  refine (Follows.attempt (runStage serves first.holds within fun here _ s =>
    (uses here s).mono fun _ => first.may)).bind fun result _ second _ => ?_
  split
  · exact .pure second.holds trivial
  · exact .updating (second.holds.remember _) (.throw (second.holds.remember _).holds)

theorem closeStage (node : Node Stock) (leads : ∀ target, node.Leads target → c.scope target) :
    c.Follows (Traffic.closeStage again id node) (Traffic.closeStage other id node) g := by
  unfold Traffic.closeStage
  split
  · exact .pure holds trivial
  · split
    · exact Follows.bind (.around holds (fun _ => ⟨rfl, rfl, rfl⟩) fun _ => rfl) fun _ _ later _ =>
        .report later.holds _
    · refine (Follows.holding holds fun holds => ?_).bind fun loops _ later _ =>
        (Follows.report later.holds _).bind fun _ _ later _ => ?_
      · refine (Follows.phase holds _).bind fun _ _ later _ => ?_
        refine (callLast serves later.holds within _ fun _ s => s.flush_uses).bind fun _ _ later _ => ?_
        refine (Follows.phase later.holds _).bind fun _ _ later _ => ?_
        refine Follows.bind (callLast serves later.holds within _ fun _ _ => trivial) fun _ _ later _ => ?_
        refine (Follows.phase later.holds _).bind fun _ _ later _ => ?_
        exact .reading (.pure later.holds trivial)
      · split
        · exact .pure later.holds trivial
        · exact onward serves later.holds fun target main => leads target (.inl main)

theorem close : c.Follows (Traffic.close again id) (Traffic.close other id) g := by
  refine .atNode holds fun node found => ?_
  have leads (target : NodeId) : node.Leads target → c.scope target := holds.leads within found
  split
  · exact closeStage serves holds within node leads
  · split
    · exact .pure holds trivial
    · refine (Follows.phase holds _).bind fun _ _ later _ => ?_
      refine Follows.bind (onward serves later.holds fun target branch => leads target (.inr (.inl branch)))
        fun _ _ later _ => ?_
      exact onward serves later.holds fun target main => leads target (.inl main)
  next entry _ kind =>
    split
    · exact .pure holds trivial
    · refine (Follows.phase holds _).bind fun _ _ later _ => ?_
      refine onward serves later.holds fun target same => leads target (.inr (.inr ?_))
      rw [Node.entry, kind, same]

theorem drain : c.Follows (Traffic.drain again id) (Traffic.drain other id) g := by
  obtain ⟨t, there, held⟩ : ∃ t, ((g.node? id).map Node.tank).getD .empty = t ∧
      ∀ h ∈ t.handles, c.may g.store h := by
    cases found : g.node? id with
    | none => exact ⟨_, rfl, nofun⟩
    | some node => exact ⟨_, rfl, fun h => holds.tanks within found⟩
  have releases := t.release_releases.handles
  have left : c.Later g (g.refill id t.release.2) :=
    holds.refill fun _ h kept => held h (releases.2 h kept)
  suffices sends : c.Follows (do
      Run.setTank id t.release.2
      Traffic.sendOn again id t.release.2.released t.release.1) (do
      Run.setTank id t.release.2
      Traffic.sendOn other id t.release.2.released t.release.1) g from
    ⟨(Traffic.drain_start there again).trans (sends.1.trans (Traffic.drain_start there other).symm), by
      unfold Run.Ends
      rw [Traffic.drain_start there again]
      exact sends.2⟩
  refine .updating left ?_
  cases taken : t.release.1 with
  | none => exact .pure left.holds trivial
  | some h =>
    have may := left.may (held h (releases.1 h taken))
    refine .reading ((Follows.report left.holds _).bind fun _ _ later _ => ?_)
    refine (forward serves later.holds within (later.may may) .main).bind fun _ _ later _ => ?_
    exact serves later.holds within

omit within in
theorem step {call : Call} (makes : c.Makes call g) :
    c.Follows (Traffic.step again call) (Traffic.step other call) g := by
  cases call with
  | deliver id packet => exact deliver serves holds makes
  | close id => exact close serves holds makes
  | drain id => exact drain serves holds makes

end

theorem serves_perform (depth : Nat) : c.Serves (Traffic.perform depth) (Traffic.perform depth) := by
  induction depth with
  | zero => exact fun _ _ => ⟨rfl, trivial⟩
  | succ depth ih => exact fun holds makes => step ih holds makes

theorem serves_audited {fits : Call → Graph Stock → Prop}
    (sound : ∀ {call g}, c.Holds g → c.Makes call g → fits call g) (depth : Nat) :
    c.Serves (Traffic.perform depth) (Traffic.audited (fun _ => fits) depth) := by
  induction depth with
  | zero => exact fun _ _ => ⟨rfl, trivial⟩
  | succ depth ih =>
    intro call g holds makes
    have opened : (Traffic.audited (fun _ => fits) (depth + 1) call).start g =
        (Traffic.step (Traffic.audited (fun _ => fits) depth) call).start g := by
      have looked : (Run.graph : Run Stock (Graph Stock)).start g = some (.ok g, g) := rfl
      rw [Traffic.audited, Run.start_bind, looked, Option.bind_some]
      dsimp only
      rw [if_pos (sound holds makes)]
    have follows := step ih holds makes
    exact ⟨follows.1.trans opened.symm, follows.2⟩

-- What is done from outside, where calls may get to every node.
section

variable {again other : Call → Run Stock Unit} (serves : c.Serves again other) (holds : c.Holds g)
  (all : ∀ id, c.scope id)
include serves holds all

theorem send (p : Parcel) : c.Follows (Graph.sendBy again p) (Graph.sendBy other p) g := by
  refine (Follows.add holds p).bind fun h _ later may => ?_
  exact .reading (serves later.holds ⟨all _, may⟩)

theorem sendAll (parcels : List Parcel) :
    c.Follows (Graph.sendAllBy again parcels) (Graph.sendAllBy other parcels) g := by
  induction parcels generalizing g with
  | nil => exact .pure holds trivial
  | cons p rest ih => exact (send serves holds all p).bind fun _ _ later _ => ih later.holds

omit serves in
theorem Holds.relinked (source : NodeId) (target : Option NodeId) :
    c.Later g { g with nodes := Graph.linkMain source target g.nodes } := by
  refine ⟨⟨holds.good, fun within found held => ?_, fun _ _ _ => all _⟩, fun may => may⟩
  obtain ⟨before, _, was, rfl⟩ := Graph.linkMainBy_main _ found
  exact holds.tanks within was held

theorem pump (parcels : List Parcel) :
    c.Follows (Graph.pumpBy again parcels) (Graph.pumpBy other parcels) g := by
  refine .reading ?_
  split
  · exact .pure holds trivial
  next exit _ =>
    have relinked {g : Graph Stock} (holds : c.Holds g) (target : Option NodeId) :
        c.Later g { g with nodes := Graph.linkMain exit target g.nodes } := holds.relinked all exit target
    have attached : c.Follows (set { g with nodes := Graph.linkMain exit (some g.pumpSink) g.nodes })
        (set { g with nodes := Graph.linkMain exit (some g.pumpSink) g.nodes }) g :=
      .of_ends ⟨relinked holds _, fun _ _ => trivial⟩
    refine attached.bind fun _ _ later _ => ?_
    refine Follows.bind (.attempt (sendAll serves later.holds all parcels)) fun result _ later _ => ?_
    refine Follows.bind (.update (relinked later.holds _)) fun _ mid later _ => ?_
    refine (Follows.get later.holds result).bind fun _ mid later _ => .of_ends ?_
    refine Run.Ends.mono (Graph.takeResults_keeps_of (fun _ _ _ _ kept _ _ _ =>
      kept.trans (kept.holds.state _)) mid (.refl later.holds)) fun _ _ kept => ⟨kept, fun _ _ => trivial⟩

theorem shutdown : c.Follows (Traffic.shutdown again) (Traffic.shutdown other) g := by
  refine .reading ?_
  split
  · exact .pure holds trivial
  · have requested : c.Later g { g with shuttingDown := true } :=
      ⟨⟨holds.good, holds.tanks, holds.leads⟩, fun may => may⟩
    have set : c.Follows (set { g with shuttingDown := true }) (set { g with shuttingDown := true }) g :=
      .of_ends ⟨requested, fun _ _ => trivial⟩
    refine set.bind fun _ _ later _ => (Follows.report later.holds _).bind fun _ _ later _ => ?_
    exact Follows.bind (serves later.holds (all _)) fun _ _ later _ => .report later.holds _

theorem operation (operation : Graph.Operation) :
    c.Follows (operation.via again) (operation.via other) g := by
  have environment (environment : Environment) : c.Later g { g with environment } :=
    ⟨⟨holds.good, holds.tanks, holds.leads⟩, fun may => may⟩
  cases operation with
  | shutdown => exact shutdown serves holds all
  | act act =>
    cases act with
    | setVariable name text => exact .update (environment _)
    | removeVariable name => exact .update (environment _)
    | send p => exact send serves holds all p
    | message m => exact .reading (serves holds (all _))
    | pump parcels => exact (pump serves holds all parcels).bind fun _ _ later _ => .pure later.holds trivial

end

theorem Holds.leads_to (holds : c.Holds g) (all : ∀ id, c.scope id) (leads : g.Leads after) :
    c.Holds after := by
  induction leads with
  | refl => exact holds
  | @operate mid after depth operation _ ran ih =>
    rw [Graph.operate_eq, ← Graph.Operation.via_perform] at ran
    obtain ⟨⟨result, last⟩, started, rfl⟩ := Option.map_eq_some_iff.mp ran
    exact ((Custody.operation (serves_perform depth) ih all operation).2.of_start started).1.holds

end Custody

namespace Graph

/-- Every call that comes of an operation is in order, as it is made, if the operation comes to an end. -/
def Throughout (g : Graph Stock) (depth : Nat) (operation : Operation)
    (fits : Call → Graph Stock → Prop) : Prop :=
  (operation.audited (fun _ => fits) depth).start g = (operation.run depth).start g

theorem Throughout.of_custody {c : Custody} {g : Graph Stock} (holds : c.Holds g)
    (all : ∀ id, c.scope id) {fits : Call → Graph Stock → Prop}
    (sound : ∀ {call g}, c.Holds g → c.Makes call g → fits call g) (depth : Nat)
    (operation : Operation) :
    g.Throughout depth operation fits := by
  have follows := Custody.operation (Custody.serves_audited sound depth) holds all operation
  rw [Operation.via_perform] at follows
  exact follows.1.symm

end Graph

end Sluice
