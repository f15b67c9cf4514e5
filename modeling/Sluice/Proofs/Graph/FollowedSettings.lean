import Sluice.Proofs.Graph.Refresh

set_option autoImplicit false

namespace Sluice

namespace Traffic

open Sluice.Graph (Rewritten)

theorem settles_iff {e : Environment} {node next : Node Stock} {before : Prop}
    (current : node.Current ↔ before) (params : next.params = (node.written e).params)
    (settings : next.settings =
      if node.reconfigures e then (node.written e).configured.settings else node.settings) :
    next.Current ↔ node.Settles e before := by
  unfold Node.Settles
  by_cases reconfigures : node.reconfigures e = true
  · rw [if_pos reconfigures] at settings ⊢
    rw [Node.current_congr (params.trans (Node.configured_params _).symm) settings]
    exact Node.configured_current_iff _
  · rw [if_neg reconfigures] at settings ⊢
    have written : next.Current ↔ (node.written e).Current := Node.current_congr params settings
    -- Without new parameters everything is as the refresh before has left it.
    by_cases same : (node.written e).params = node.params
    · have alike : (node.written e).Current ↔ node.Current := Node.current_congr same rfl
      simp [written, same, alike, current]
    · simp [written, same]

theorem refresh_followed {id : NodeId} {node next : Node Stock} {g after : Graph Stock}
    (followed : Followed g) (found : g.node? id = some node)
    (rewritten : Rewritten id next
      { g with history := .began id node (.refresh g.environment) :: g.history } after)
    (params : next.params = (node.written g.environment).params)
    (settings : next.settings = if node.reconfigures g.environment
      then (node.written g.environment).configured.settings else node.settings)
    (deferred : next.closeDeferred = node.closeDeferred) : Followed after := by
  obtain ⟨calm, sound⟩ := followed
  refine ⟨rewritten.calm calm (deferred.trans (calm.2 id node found)), fun unreset => ?_⟩
  obtain ⟨events, plain, grown⟩ := rewritten.history
  rw [grown] at unreset
  have ⟨nodes, accepted⟩ := sound unreset.of_append.of_cons
  constructor
  · intro other now found'
    rw [grown, settled_append other _ plain, Settled]
    rcases rewritten.cases found' with ⟨rfl, rfl⟩ | ⟨ne, found'⟩
    · rw [if_pos rfl]
      exact settles_iff (nodes other node found) params settings
    · rw [if_neg (Ne.symm ne)]
      exact nodes other now found'
  · intro other now h p older suffix
    rw [grown] at suffix
    have suffix := accepted_suffix plain rfl suffix
    rcases List.suffix_cons_iff.mp suffix with same | suffix
    · cases same
    · exact accepted other now h p older suffix

variable {again : Call → Run Stock Unit}

theorem refresh_keeps (keeps : ∀ call, call.closes = false → Run.Keeps Followed (again call))
    (id : NodeId) : Run.Keeps Followed (refresh again id) := by
  intro g followed
  unfold refresh Run.began
  rw [Run.ends_bind, Run.ends_graph]
  dsimp only
  rw [Run.ends_bind, Run.ends_atNode]
  constructor
  next =>
    intro node found
    unfold Run.remember
    rw [Run.ends_update]
    dsimp only
    rw [Run.ends_atNode]
    refine ⟨fun other same => ?_, fun absent => ?_⟩
    · obtain rfl : node = other := Option.some.inj (found.symm.trans same)
      rw [Run.ends_bind]
      refine (refreshEach_ends id node.path node.dynamic [] (Rewritten.refl same)).mono ?_
      rintro result after ⟨rewritten, outcome⟩
      -- A missing variable and nothing found changed have one thing in common: the settings stay.
      have stands (same : node.reconfigures g.environment = false) : Followed after :=
        refresh_followed followed found rewritten rfl (by rw [same]; rfl) rfl
      cases result with
      | error e => exact stands (by rw [Node.reconfigures, ← outcome]; rfl)
      | ok changed =>
        have changes : node.reconfigures g.environment = !changed.isEmpty := by
          rw [Node.reconfigures, ← outcome]
          rfl
        dsimp only
        split
        next none => exact stands (by rw [changes, none]; rfl)
        next filled =>
          refine reconfigure_ends keeps id changed rewritten.here ?_
          intro next last moved params settings deferred
          refine refresh_followed followed found (rewritten.trans moved) params ?_ deferred
          rw [changes, settings]
          simp only [filled]
          rfl
    · exact absurd (found.symm.trans absent) (by simp)
  next =>
    intro absent
    rw [Run.ends_atNode, absent]
    exact ⟨fun _ same => absurd same (by simp), fun _ => followed⟩

end Traffic

def Request.mild : Request → Bool
  | .refill _ => false
  | .shutdown => false
  | _ => true

def Request.inside : Request → Bool
  | .forward _ _ => false
  | .post _ => false
  | .drain => false
  | .shutdown => false
  | _ => true

def Program.Gentle {α : Type} : Program Stock α → Option Stock → Prop
  | .done _, _ => True
  | .fail _, _ => True
  | .keep s next, held => held = some s.settings ∧ next.Gentle held
  | .ask r next, held =>
    r.mild = true ∧ ∀ a, (next a).Gentle (if r.inside then held else none)

namespace Traffic

variable {inv : Graph Stock → Prop} {again : Call → Run Stock Unit}

theorem Idle.feed (kept : Idle inv) (id : NodeId) (h : Handle) : Run.Keeps inv (feed id h) :=
  .bind (keeps_look h) fun p => .update fun g =>
    kept.idle _ _ (.tank g id (fun node => node.tank.push h p) fun _ _ => ⟨rfl, rfl⟩)

theorem Idle.answer_inside (kept : Idle inv) (id : NodeId) (r : Request) (mild : r.mild = true)
    (inside : r.inside = true) : Run.Keeps inv (answer again id r) := by
  cases r with
  | look h => exact keeps_look h
  | edit h p => exact kept.edit h p
  | copy h => exact .bind (keeps_look h) fun p => kept.add p
  | gauge => exact .bind .graph fun _ => .pure _
  | feed node h => exact kept.feed node h
  | closing => exact .bind .graph fun _ => .pure _
  | environment => exact .bind .graph fun _ => .pure _
  | report r => exact kept.report r
  | note line => exact .update fun g => kept.idle _ _ (.note g line)
  | refill t => cases mild
  | _ => cases inside

theorem Idle.answer (kept : Idle inv)
    (keeps : ∀ call, call.closes = false → Run.Keeps inv (again call)) (id : NodeId) (r : Request)
    (mild : r.mild = true) : Run.Keeps inv (answer again id r) := by
  cases inside : r.inside with
  | true => exact kept.answer_inside id r mild inside
  | false =>
    cases r with
    | forward h edge => exact kept.forward keeps id h edge
    | post m => exact .atNode fun node => keeps_onward keeps _ fun _ => rfl
    | drain => exact keeps _ rfl
    | shutdown => cases mild
    | _ => cases inside

def Holds (id : NodeId) (settings : Stock) (g : Graph Stock) : Prop :=
  ∀ node, g.node? id = some node → ∃ state, node.kind = .stage state ∧ state.settings = settings

theorem Holds.idle {id : NodeId} {settings : Stock} {g after : Graph Stock}
    (holds : Holds id settings g) (idle : Graph.Idle g after) : Holds id settings after := by
  intro node found
  cases idle with
  | report r => exact holds node found
  | note line => exact holds node found
  | refused other packet => exact holds node found
  | store store => exact holds node found
  | busy other busy =>
    obtain ⟨before, was, ⟨-, rfl⟩ | ⟨-, rfl⟩⟩ := Graph.updateNode_cases found
    · exact holds before was
    · exact holds node was
  | tank other fill fits =>
    obtain ⟨before, was, ⟨-, rfl⟩ | ⟨-, rfl⟩⟩ := Graph.updateNode_cases found
    · exact holds before was
    · exact holds node was

theorem idle_holds (id : NodeId) (settings : Stock) :
    Idle fun g => Followed g ∧ Holds id settings g where
  calm := fun _ kept => kept.1.1
  idle := fun _ _ idle kept => ⟨followed_idle.idle _ _ idle kept.1, kept.2.idle idle⟩

theorem setState_followed {id : NodeId} {g : Graph Stock} (state : Stock) (followed : Followed g)
    (holds : Holds id state.settings g) :
    Followed (g.updateNode id fun node => { node with kind := .stage state }) ∧
      Holds id state.settings (g.updateNode id fun node => { node with kind := .stage state }) := by
  constructor
  · have alike : Graph.Alike g
        (g.updateNode id fun node => { node with kind := .stage state }) := by
      refine .update g id fun node found => ⟨rfl, ?_, rfl⟩
      obtain ⟨before, kind, same⟩ := holds node found
      rw [Node.settings, Node.settings, Node.fitted?_stage kind]
      exact congrArg (fun state => some (Fitted.mk state node.tank.emptied)) same.symm
    exact alike.followed followed
  · intro node found
    obtain ⟨before, -, ⟨-, rfl⟩ | ⟨ne, -⟩⟩ := Graph.updateNode_cases found
    · exact ⟨state, rfl, rfl⟩
    · exact absurd rfl ne

theorem interpret_ends {α : Type}
    (keeps : ∀ call, call.closes = false → Run.Keeps Followed (again call)) (id : NodeId)
    (program : Program Stock α) (held : Option Stock) (gentle : program.Gentle held)
    (g : Graph Stock) (followed : Followed g)
    (holds : ∀ settings, held = some settings → Holds id settings g) :
    (interpret again id program).Ends g fun _ after => Followed after := by
  -- `held` is dropped at the first call of another stage, which may lead back and refresh this one.
  induction program generalizing held g with
  | done a => exact followed
  | fail e => exact followed
  | keep s next ih =>
    obtain ⟨same, gentle⟩ := gentle
    have ⟨followed, holds⟩ := setState_followed s followed (holds _ same)
    refine ih held gentle _ followed fun settings other => ?_
    obtain rfl : s.settings = settings := Option.some.inj (same.symm.trans other)
    exact holds
  | ask r next ih =>
    obtain ⟨mild, gentle⟩ := gentle
    unfold interpret
    rw [Run.ends_bind]
    cases held with
    | none =>
      refine (followed_idle.answer keeps id r mild g followed).mono fun result after followed => ?_
      cases result with
      | ok a => exact ih a none (by simpa using gentle a) after followed nofun
      | error e => exact followed
    | some settings =>
      cases inside : r.inside with
      | false =>
        have kept := followed_idle.answer keeps id r mild g followed
        refine kept.mono fun result after followed => ?_
        cases result with
        | ok a => exact ih a none (by simpa [inside] using gentle a) after followed nofun
        | error e => exact followed
      | true =>
        have kept : Run.Keeps _ (answer again id r) :=
          (idle_holds id settings).answer_inside id r mild inside
        refine (kept g ⟨followed, holds settings rfl⟩).mono fun result after kept => ?_
        cases result with
        | ok a =>
          refine ih a (some settings) (by simpa [inside] using gentle a) after kept.1 ?_
          rintro _ ⟨⟩
          exact kept.2
        | error e => exact kept.1

end Traffic

namespace Stock

theorem accept_gentle (here : Here) (s : Stock) (h : Handle) :
    (accept here s h).Gentle (some s.settings) := by
  cases s with
  | passThrough => exact ⟨rfl, fun _ => trivial⟩
  | waste discarded => exact ⟨rfl, trivial⟩
  | sink s => exact ⟨rfl, rfl, fun _ => trivial⟩
  | reverseString =>
    refine ⟨rfl, fun p => ⟨rfl, fun _ => ?_⟩⟩
    dsimp only
    split
    · exact ⟨rfl, fun _ => trivial⟩
    · exact ⟨rfl, fun _ => ⟨rfl, fun _ => ⟨rfl, fun _ => trivial⟩⟩⟩
  | wrap w => exact ⟨rfl, fun p => ⟨rfl, fun _ => ⟨rfl, fun _ => trivial⟩⟩⟩
  | seqPacket s => exact ⟨rfl, fun p => ⟨rfl, fun _ => ⟨rfl, rfl, fun _ => trivial⟩⟩⟩
  | branchClone => exact ⟨rfl, fun copy => ⟨rfl, fun _ => ⟨rfl, fun _ => trivial⟩⟩⟩
  | branchRef => exact ⟨rfl, fun _ => ⟨rfl, fun _ => trivial⟩⟩
  | branchIf b =>
    refine ⟨rfl, fun p => ?_⟩
    dsimp only [Program.bind]
    split
    · exact ⟨rfl, fun _ => trivial⟩
    · trivial
  | factorial =>
    refine ⟨rfl, fun p => ?_⟩
    dsimp only [Program.bind]
    split
    · exact ⟨rfl, fun _ => ⟨rfl, fun _ => trivial⟩⟩
    · trivial
  | tankQueue => exact ⟨rfl, fun _ => ⟨rfl, fun _ => trivial⟩⟩
  | tankFeed f =>
    obtain ⟨target⟩ := f
    cases target with
    | none => trivial
    | some node => exact ⟨rfl, fun _ => trivial⟩
  | sendMessage s =>
    obtain ⟨message⟩ := s
    cases message with
    | none => exact ⟨rfl, fun _ => trivial⟩
    | some m => exact ⟨rfl, fun _ => ⟨rfl, fun _ => trivial⟩⟩
  | reset r =>
    refine ⟨rfl, fun p => ?_⟩
    dsimp only [Program.bind]
    split
    · trivial
    · exact ⟨rfl, fun _ => ⟨rfl, fun _ => trivial⟩⟩
  | script run params =>
    refine ⟨rfl, fun p => ⟨rfl, fun _ => ?_⟩⟩
    dsimp only [Program.bind]
    split
    · exact ⟨rfl, fun _ => trivial⟩
    · exact ⟨rfl, fun _ => trivial⟩

theorem notice_settings (m : Message) (s : Stock) : (s.notice m).settings = s.settings := by
  cases s with
  | sink s =>
    change Stock.sink (s.notice m).emptied = .sink s.emptied
    unfold Sink.notice
    split <;> rfl
  | _ => rfl

theorem onMessage_gentle (here : Here) (s : Stock) (m : Message) :
    (onMessage here s m).Gentle (some s.settings) := by
  cases s with
  | seqPacket s =>
    change (Program.mapState Stock.seqPacket (if m.verb = "reset_counter"
      then Program.become { s with counter := s.start }
      else .fail (.message (.unrecognised here.path m.verb)))).Gentle _
    split
    · exact ⟨rfl, trivial⟩
    · trivial
  | _ => trivial

end Stock

namespace Traffic

open Sluice.Graph (Rewritten)

variable {again : Call → Run Stock Unit}

theorem runStage_keeps (keeps : ∀ call, call.closes = false → Run.Keeps Followed (again call))
    (id : NodeId) {program : Here → Node Stock → Stock → Program Stock Unit}
    (gentle : ∀ here node s, (program here node s).Gentle (some s.settings)) :
    Run.Keeps Followed (runStage again id program) := by
  intro g followed
  unfold runStage
  rw [Run.ends_atNode]
  refine ⟨fun node found => ?_, fun _ => followed⟩
  split
  next s stage =>
    refine interpret_ends keeps id _ _ (gentle _ node s) g followed ?_
    rintro _ ⟨⟩ other same
    obtain rfl : node = other := Option.some.inj (found.symm.trans same)
    exact ⟨s, stage, rfl⟩
  next => exact followed

theorem began_accept_keeps (id : NodeId) (h : Handle) (p : Parcel) :
    Run.Keeps Followed (Run.began id (.accept h p) : Run Stock Unit) := by
  intro g followed
  unfold Run.began
  rw [Run.ends_atNode]
  refine ⟨fun node found => ⟨followed.1, fun unreset => ?_⟩, fun _ => followed⟩
  have ⟨nodes, accepted⟩ := followed.2 (Unreset.of_cons unreset)
  refine ⟨nodes, fun other node' h' p' older suffix => ?_⟩
  -- Either this is the event just remembered, or the parcel was accepted before.
  rcases List.suffix_cons_iff.mp suffix with same | suffix
  · cases same
    exact nodes id node found
  · exact accepted other node' h' p' older suffix

theorem began_keeps (id : NodeId) {hook : Hook}
    (plain : ∀ node, (Event.began id node hook : Event Stock).plain = true) :
    Run.Keeps Followed (Run.began id hook : Run Stock Unit) :=
  .atNode fun node => .update fun g => (Graph.Alike.remember g (plain node)).followed

theorem accept_keeps (keeps : ∀ call, call.closes = false → Run.Keeps Followed (again call))
    (id : NodeId) (h : Handle) : Run.Keeps Followed (accept again id h) :=
  .bind (refresh_keeps keeps id) fun _ =>
    .bind (runStage_keeps keeps id fun _ _ _ => trivial) fun _ =>
      .bind (keeps_look h) fun p => .bind (began_accept_keeps id h p) fun _ =>
        .bind (runStage_keeps keeps id fun here _ s => s.accept_gentle here h) fun _ =>
          runStage_keeps keeps id fun _ _ _ => trivial

theorem notice_keeps (id : NodeId) (m : Message) :
    Run.Keeps Followed (notice id m : Run Stock Unit) := by
  refine .bind (began_keeps id fun _ => rfl) fun _ => ?_
  intro g followed
  rw [Run.ends_atNode]
  refine ⟨fun node found => ?_, fun _ => followed⟩
  split
  next s stage =>
    refine (setState_followed (s.notice m) followed ?_).1
    intro other same
    obtain rfl : node = other := Option.some.inj (found.symm.trans same)
    exact ⟨s, stage, (Stock.notice_settings m s).symm⟩
  next => exact followed

theorem rewritten_reset {id : NodeId} {next : Node Stock} {g after : Graph Stock} (calm : g.Calm)
    (reset : ¬Unreset g.history) (rewritten : Rewritten id next g after)
    (kept : next.closeDeferred = false) : Followed after := by
  obtain ⟨events, -, grown⟩ := rewritten.history
  refine ⟨rewritten.calm calm kept, fun unreset => ?_⟩
  rw [grown] at unreset
  exact absurd unreset.of_append reset

theorem resetParameter_ends
    (keeps : ∀ call, call.closes = false → Run.Keeps Followed (again call)) (id : NodeId)
    (m : Message) {g : Graph Stock} (calm : g.Calm) (reset : ¬Unreset g.history) :
    (resetParameter again id m).Ends g fun _ after => Followed after := by
  have followed : Followed g := ⟨calm, fun unreset => absurd unreset reset⟩
  unfold resetParameter
  rw [Run.ends_atNode]
  refine ⟨fun node found => ?_, fun _ => followed⟩
  split
  next name value _ =>
    dsimp only
    split
    · exact followed
    · have wrote : Rewritten id { node with params := node.params.put name.render value } g
          (g.updateNode id fun node =>
            { node with params := node.params.put name.render value }) :=
        (Rewritten.refl found).update rfl
      have put := wrote.remember (.report (.parameterReset node.path name.render value)) rfl
      unfold Run.updateNode Run.report Run.remember
      simp only [Run.ends_bind, Run.ends_update]
      refine reconfigure_ends keeps id _ put.here fun next after moved _ _ deferred => ?_
      exact rewritten_reset calm reset (put.trans moved) (deferred.trans (calm.2 id node found))
  next => exact followed

theorem openMessage_keeps (keeps : ∀ call, call.closes = false → Run.Keeps Followed (again call))
    (id : NodeId) (node : Node Stock) (m : Message) :
    Run.Keeps Followed (openMessage again id node m) := by
  unfold openMessage
  split
  · refine .bind (followed_idle.report _) fun _ => ?_
    dsimp only
    split
    next resets =>
      intro g followed
      unfold Run.began
      rw [Run.ends_bind, Run.ends_atNode]
      constructor
      next =>
        intro other found
        -- From here on the history has a reset in it.
        have reset : ¬Unreset (.began id other (.opening m) :: g.history) := fun unreset =>
          unreset id other m List.mem_cons_self resets
        unfold Run.remember
        rw [Run.ends_update]
        dsimp only
        rw [Run.ends_bind]
        have ends := resetParameter_ends keeps id m
          (g := { g with history := .began id other (.opening m) :: g.history }) followed.1 reset
        refine ends.mono fun result after kept => ?_
        cases result <;> exact kept
      next =>
        intro absent
        unfold resetParameter
        dsimp only
        rw [Run.ends_bind, Run.ends_atNode, absent]
        exact ⟨fun _ same => absurd same (by simp), fun _ => followed⟩
    next =>
      exact .bind (began_keeps id fun _ => rfl) fun _ =>
        .bind (runStage_keeps keeps id fun here _ s => s.onMessage_gentle here m) fun _ => .pure _
  · exact .pure _

theorem followed_steady : Steady Followed where
  toIdle := followed_idle
  accept := fun _ keeps id h => accept_keeps keeps id h
  notice := notice_keeps
  openMessage := fun _ keeps id node m => openMessage_keeps keeps id node m

end Traffic

end Sluice
