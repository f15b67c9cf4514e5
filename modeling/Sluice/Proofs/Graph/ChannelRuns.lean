import Sluice.Proofs.Graph.PumpSink
import Sluice.Proofs.Graph.Conduct
import Sluice.Proofs.Graph.Channel
import Sluice.Proofs.Graph.EndlessCalls
import Sluice.Proofs.Stage.Feeds

set_option autoImplicit false

namespace Sluice

theorem Tank.Releases.held {t : Tank} {ended : Option Handle × Tank} (releases : t.Releases ended) :
    ended.2.held + ended.1.toList.length = t.held := by
  induction releases with
  | stop => rfl
  | drop popped _ ih => exact ih.trans (popExcess_held popped)
  | take popped =>
    obtain ⟨-, -, slot, slots, same, parcel, rfl⟩ := popExcess_some popped
    simp only [Tank.held, Buffer.held, Buffer.items, same, List.filterMap_cons_some parcel.symm,
      List.length_cons, Option.toList_some, List.length_nil]

structure Channel.Serves (c : Channel) (again : Call → Run Stock Unit) : Prop where
  deliver : ∀ {lax n g id d} h, c.Loaded lax n g → c id = some d →
    (again (.deliver id (.parcel h))).Yields g fun _ after => c.Loaded lax (n + 1) after
  drain : ∀ {lax n g id}, c.Loaded lax n g → c id = some .queue → lax id →
    (again (.drain id)).Yields g fun _ after => c.Loaded lax n after ∧ after.Relieved id

namespace Run.Yields

variable {α β : Type} {g : Graph Stock} {good : α → Graph Stock → Prop}
  {again : Call → Run Stock Unit} {id : NodeId}

theorem looking {h : Handle} {next : Parcel → Run Stock α} (rest : (next (g.store.read h)).Yields g good) :
    (look h >>= next).Yields g good := by
  have first : (look h).Yields g fun p after => p = g.store.read h ∧ after = g :=
    .reading (.pure ⟨rfl, rfl⟩)
  exact first.bind fun _ _ ⟨read, same⟩ => read ▸ same ▸ rest

theorem ask {r : Request} {next : r.Answer → Program Stock α} {mid : r.Answer → Graph Stock → Prop}
    (first : (Traffic.answer again id r).Yields g mid)
    (rest : ∀ a after, mid a after → (Traffic.interpret again id (next a)).Yields after good) :
    (Traffic.interpret again id (.ask r next)).Yields g good :=
  first.bind rest

theorem keep {s : Stock} {next : Program Stock α} (rest : (Traffic.interpret again id next).Yields
      (g.updateNode id fun node => { node with kind := .stage s }) good) :
    (Traffic.interpret again id (.keep s next)).Yields g good :=
  .updating rest

theorem gauging {node : Node Stock} {next : Tank → Run Stock α} (found : g.node? id = some node)
    (rest : (next node.tank).Yields g good) : (tankOf id >>= next).Yields g good := by
  have first : (tankOf id).Yields g fun tank after => tank = node.tank ∧ after = g := by
    refine .reading (.pure ⟨?_, rfl⟩)
    rw [found]
    rfl
  exact first.bind fun _ _ ⟨read, same⟩ => read ▸ same ▸ rest

theorem stage {node : Node Stock} {s : Stock} {program : Here → Node Stock → Stock → Program Stock Unit}
    {good : Unit → Graph Stock → Prop} (found : g.node? id = some node) (stage : node.kind = .stage s)
    (yields : (Traffic.interpret again id (program (node.here id) node s)).Yields g good) :
    (Traffic.runStage again id program).Yields g good := by
  unfold Run.Yields Run.Ends
  rw [Traffic.runStage_start found stage]
  exact yields

end Run.Yields

namespace Traffic

open Run (Yields)

variable {c : Channel} {lax : NodeId → Prop} {n : Nat} {g : Graph Stock} {id : NodeId} {d : Channel.Duty}
  {again : Call → Run Stock Unit} (serves : c.Serves again)

section

variable (loaded : c.Loaded lax n g) (inside : c id = some d) (apart : d ≠ .collect)
include loaded inside

include serves apart in
theorem forward_loads (h : Handle) : (forward again id h .main).Yields g fun _ after =>
    c.Loaded lax (n + 1) after := by
  obtain ⟨node, found, mans⟩ := loaded.mans id d inside
  obtain ⟨next, d', main, follows⟩ := mans.main apart
  obtain ⟨other, leads, -⟩ := loaded.mans next d' follows
  exact forward_ends found main leads h fun store history =>
    serves.deliver h (loaded.same rfl rfl rfl rfl) follows

include serves apart in
theorem handOn_loads (h : Handle) : (interpret again id (Program.forward h .main)).Yields g
    fun _ after => c.Loaded lax (n + 1) after :=
  .ask (forward_loads serves loaded inside apart h) fun _ _ loaded => .pure loaded

omit inside in
theorem edit_loads {α : Type} {good : α → Graph Stock → Prop} {next : Unit → Program Stock α}
    (h : Handle) (p : Parcel)
    (rest : ∀ after, c.Loaded lax n after → (interpret again id (next ())).Yields after good) :
    (interpret again id (.ask (.edit h p) next)).Yields g good :=
  .updating (rest _ (loaded.store _))

end

include serves in
theorem relay_accepts (loaded : c.Loaded lax n g) (inside : c id = some .relay) (here : Here) {s : Stock}
    (duty : s.duty? = some .relay) (h : Handle) :
    (interpret again id (s.accept here h)).Yields g fun _ after => c.Loaded lax (n + 1) after := by
  have hands {g : Graph Stock} (loaded : c.Loaded lax n g) := handOn_loads serves loaded inside nofun h
  cases s with
  | passThrough => exact hands loaded
  | reverseString =>
    refine .looking (.updating ?_)
    have loaded := loaded.remember (.report (.processingStarted here.path (g.store.read h).data.length))
    dsimp only
    split
    next => exact .updating nofun
    next => exact edit_loads loaded h _ fun _ loaded => .updating (hands (loaded.remember _))
  | wrap w => exact .looking (edit_loads loaded h _ fun _ => hands)
  | seqPacket s =>
    refine .looking (edit_loads loaded h _ fun after loaded => ?_)
    obtain ⟨node, found, mans⟩ := loaded.mans id _ inside
    obtain ⟨s', stage, duty⟩ := mans.stage
    exact .keep (hands (loaded.state found stage duty nofun rfl))
  | sink s => exact absurd (Stock.duty?_sink duty).1 nofun
  | _ => cases duty

include serves in
theorem queue_accepts (loaded : c.Loaded lax n g) (inside : c id = some .queue) (loose : lax id)
    {here : Here} (own : here.id = id) (h : Handle) :
    (interpret again id (TankQueue.accept here h)).Yields g fun _ after =>
      c.Loaded lax (n + 1) after ∧ after.Relieved id := by
  subst own
  obtain ⟨node, found, -⟩ := loaded.mans _ _ inside
  have feeds : (answer again here.id (.feed here.id h)).Yields g fun _ after => c.Loaded lax (n + 1) after :=
    .looking (.written (loaded.fed inside found loose h _))
  exact .ask feeds fun _ _ fed => .ask (serves.drain fed inside loose) fun _ _ ended => .pure ended

omit serves in
theorem ofConfig_yields {good : Unit → Graph Stock → Prop} (holds : good () g)
    (result : Except ConfigError Unit) : (interpret again id (Program.ofConfig result)).Yields g good := by
  cases result with
  | ok _ => exact .pure holds
  | error e => exact .throw _

omit serves in
theorem configureAgain_loads (loaded : c.Loaded lax n g) (inside : c id = some .relay) (params : ParamTable)
    {s : Stock} (kept : ∀ tank, ((Stock.configure params).run ⟨s, tank⟩).2.state.duty? = some .relay ∧
      ((Stock.configure params).run ⟨s, tank⟩).2.tank = tank) :
    (interpret again id (Fitted.configureAgain Stock.configure params s)).Yields g
      fun _ after => c.Loaded lax n after := by
  obtain ⟨node, found, -⟩ := loaded.mans id _ inside
  obtain ⟨duty, dry⟩ := kept node.tank
  rw [interpret_configureAgain]
  refine .gauging found ?_
  generalize (Stock.configure params).run ⟨s, node.tank⟩ = ended at duty dry ⊢
  have changed := loaded.becomes inside nofun duty
  have there : (g.updateNode id fun node => { node with kind := .stage ended.2.state }).node? id =
      some { node with kind := .stage ended.2.state } :=
    Graph.node?_updateNode_self found _
  have emptied := changed.tank there (changed.excess there dry) (congrArg Tank.held dry)
  exact .updating (.updating (ofConfig_yields emptied _))

omit serves in
theorem relay_reconfigures (loaded : c.Loaded lax n g) (inside : c id = some .relay) (here : Here) {s : Stock}
    (duty : s.duty? = some .relay) (params : ParamTable) (changed : List String) :
    (interpret again id (s.reconfigure here params changed)).Yields g
      fun _ after => c.Loaded lax n after := by
  unfold Stock.reconfigure
  cases s with
  | passThrough => exact configureAgain_loads loaded inside params fun _ => by simp [Stock.duty?]
  | reverseString => exact configureAgain_loads loaded inside params fun _ => by simp [Stock.duty?]
  | wrap w => exact configureAgain_loads loaded inside params fun _ => by simp [Stock.duty?]
  | seqPacket s =>
    have settled := loaded.becomes inside nofun (t := .seqPacket ((SeqPacket.settings params).run s).2) rfl
    dsimp only
    rw [interpret_reconfigure_seqPacket]
    refine .updating ?_
    cases ((SeqPacket.settings params).run s).1 with
    | error e => exact .throw _
    | ok _ =>
      dsimp only [Program.ofConfig, Program.bind]
      split
      · exact .keep (.pure (settled.becomes inside nofun rfl))
      · exact .pure settled
  | sink s => exact absurd (Stock.duty?_sink duty).1 nofun
  | _ => cases duty

include serves in
theorem queue_reconfigures (loaded : c.Loaded lax n g) (inside : c id = some .queue) (loose : lax id)
    (here : Here) (params : ParamTable) :
    (interpret again id (TankQueue.reconfigure here params)).Yields g
      fun _ after => c.Loaded lax n after := by
  have padded {g : Graph Stock} (loaded : c.Loaded lax n g) : (do
      let t ← Run.tankOf id
      Run.setTank id t.pad
      Run.report (.tankResized here.path t.pad.capacity t.pad.held t.pad.size)
      pure () : Run Stock Unit).Yields g fun _ after => c.Loaded lax n after := by
    obtain ⟨node, found, -⟩ := loaded.mans id _ inside
    have more := loaded.tank found (t := node.tank.pad) (.inl loose)
      (Tank.padBy_held node.tank.room node.tank.buffer)
    exact .gauging found (.updating (.updating (.pure (more.remember _))))
  obtain ⟨node, found, -⟩ := loaded.mans id _ inside
  have buffer := (TankQueue.settings_buffer params node.tank).1
  have held : ((TankQueue.settings params).run node.tank).2.held = node.tank.held :=
    congrArg Buffer.held buffer
  have resized := loaded.tank found (.inl loose) held
  rw [interpret_reconfigure_tankQueue]
  refine .gauging found (.updating ?_)
  cases ((TankQueue.settings params).run node.tank).1 with
  | error e => exact .throw _
  | ok _ => exact .bind (serves.drain resized inside loose) fun _ _ drained => padded drained.1

theorem sink_accepts (loaded : c.Loaded lax n g) (inside : c id = some .collect) {node : Node Stock}
    {s : Sink} (found : g.node? id = some node) (stage : node.kind = .stage (.sink s)) (h : Handle) :
    (interpret again id ((s.accept h).mapState .sink)).Yields g
      fun _ after => c.Loaded lax (n + 1) after := by
  obtain ⟨other, same, mans⟩ := loaded.mans id _ inside
  obtain rfl := Option.some.inj (found.symm.trans same)
  obtain ⟨sink, main, -⟩ := mans.collects rfl
  obtain ⟨s', stage', duty⟩ := mans.stage
  obtain rfl : .sink s = s' := NodeKind.stage.inj (stage.symm.trans stage')
  have unlimited := (Stock.duty?_sink duty).2
  have kept : (s.keep h).results = s.results ++ [h] := by simp [Sink.keep, unlimited]
  have more : c.Loaded lax (n + 1)
      (g.updateNode id fun node => { node with kind := .stage (.sink (s.keep h)) }) := by
    refine loaded.update found ⟨.inr ⟨_, _, stage, rfl, ?_⟩, rfl, rfl, rfl⟩ (.inr rfl)
      (loaded.excess found rfl) (.inl sink) ?_
    · simp only [Stock.duty?, (show (s.keep h).maxResults = s.maxResults from rfl)]
    · simp only [Node.load, Node.caught, stage, kept, List.length_append, List.length_singleton]
      omega
  obtain ⟨later, there, mans⟩ := more.mans id _ inside
  refine .keep (.ask (r := .forward h .main) ?_ fun _ _ loaded => .pure loaded)
  exact forward_nowhere there (mans.collects rfl).2.1 h fun _ _ => more

include serves in
theorem reconfigure_loads (loaded : c.Loaded lax n g) (inside : c id = some d) (apart : d ≠ .collect)
    (loose : d = .queue → lax id) (changed : List String) :
    (reconfigure again id changed).Yields g fun _ after => c.Loaded lax n after := by
  obtain ⟨node, found, mans⟩ := loaded.mans id d inside
  obtain ⟨s, stage, duty⟩ := mans.stage
  refine .stage found stage ?_
  cases d with
  | relay => exact relay_reconfigures loaded inside _ duty _ changed
  | queue =>
    obtain rfl := Stock.duty?_queue duty
    exact queue_reconfigures serves loaded inside (loose rfl) _ _
  | collect => exact absurd rfl apart

omit serves in
theorem refreshEach_loads (loaded : c.Loaded lax n g) (inside : c id = some d) (path : String)
    (pairs : List (String × String)) (changed : List String) :
    (refreshEach id path pairs changed).Yields g fun _ after => c.Loaded lax n after := by
  induction pairs generalizing g changed with
  | nil => exact .pure loaded
  | cons pair rest ih =>
    obtain ⟨node, found, -⟩ := loaded.mans id d inside
    unfold refreshEach
    refine .reading ?_
    split
    next => exact .throw _
    next value _ =>
      have bound := loaded.bound found pair.1 value
      refine .updating ?_
      split
      · exact .updating (ih (bound.remember _) _)
      · exact ih bound _

theorem began_loads (loaded : c.Loaded lax n g) (inside : c id = some d) (hook : Hook) :
    (Run.began id hook).Yields g fun _ after => c.Loaded lax n after := by
  obtain ⟨node, found, -⟩ := loaded.mans id d inside
  exact .atNode found (.written (loaded.remember _))

include serves in
theorem refresh_loads (loaded : c.Loaded lax n g) (inside : c id = some d) (loose : d = .queue → lax id) :
    (refresh again id).Yields g fun _ after => c.Loaded lax n after := by
  refine .reading (.bind (began_loads loaded inside _) fun _ after loaded => ?_)
  obtain ⟨node, found, mans⟩ := loaded.mans id d inside
  refine .atNode found ?_
  by_cases collects : d = .collect
  · rw [(mans.collects collects).2.2]
    exact .pure loaded
  · refine .bind (refreshEach_loads loaded inside _ _ _) fun changed after loaded => ?_
    split
    · exact .pure loaded
    · exact reconfigure_loads serves loaded inside collects loose changed

include serves in
theorem accept_loads (loaded : c.Loaded lax n g) (inside : c id = some d) (loose : d = .queue → lax id)
    (h : Handle) : (accept again id h).Yields g fun _ after =>
      c.Loaded lax (n + 1) after ∧ (d = .queue → after.Relieved id) := by
  -- The hooks around an accept ask for nothing in these stages.
  have idle {g : Graph Stock} {m : Nat} (loaded : c.Loaded lax m g) :
      (runStage again id fun here _ s => Stage.beforeAccept here s h).Yields g
        fun _ after => after = g := by
    obtain ⟨node, found, mans⟩ := loaded.mans id d inside
    obtain ⟨s, stage, -⟩ := mans.stage
    exact .stage found stage (.pure rfl)
  have last {g : Graph Stock} {m : Nat} (loaded : c.Loaded lax m g) :
      (runStage again id fun here _ s => Stage.afterAccept here s).Yields g fun _ after => after = g := by
    obtain ⟨node, found, mans⟩ := loaded.mans id d inside
    obtain ⟨s, stage, -⟩ := mans.stage
    exact .stage found stage (.pure rfl)
  have accepts {g : Graph Stock} (loaded : c.Loaded lax n g) :
      (runStage again id fun here _ s => Stage.accept here s h).Yields g fun _ after =>
        c.Loaded lax (n + 1) after ∧ (d = .queue → after.Relieved id) := by
    obtain ⟨node, found, mans⟩ := loaded.mans id d inside
    obtain ⟨s, stage, duty⟩ := mans.stage
    refine .stage found stage ?_
    cases d with
    | relay => exact (relay_accepts serves loaded inside _ duty h).mono fun _ _ loaded => ⟨loaded, nofun⟩
    | queue =>
      obtain rfl := Stock.duty?_queue duty
      exact (queue_accepts serves loaded inside (loose rfl) rfl h).mono fun _ _ ended =>
        ⟨ended.1, fun _ => ended.2⟩
    | collect =>
      obtain ⟨kept, rfl⟩ := Stock.duty?_collect duty
      exact (sink_accepts loaded inside found stage h).mono fun _ _ loaded => ⟨loaded, nofun⟩
  refine .bind (refresh_loads serves loaded inside loose) fun _ _ loaded => ?_
  refine .bind (idle loaded) ?_
  rintro _ _ rfl
  refine .looking (.bind (began_loads loaded inside _) fun _ _ loaded => ?_)
  refine .bind (accepts loaded) fun _ _ ended => (last ended.1).mono ?_
  rintro _ _ rfl
  exact ended

omit serves in
theorem settle_fails (e : EngineError) {good : Unit → Graph Stock → Prop} :
    (settle again id (.error e)).Yields g good := by
  have ends (run : Run Stock Unit) (g : Graph Stock) : run.Yields g fun _ _ => True := by
    unfold Run.Yields Run.Ends
    split
    · trivial
    · exact fun _ _ => trivial
  refine .reading ?_
  dsimp only
  split
  · exact .updating (.attempting (ends _ _) (fun _ _ _ => .throw e) fun _ _ => .throw e)
  · exact .throw e

include serves in
theorem deliver_loads (loaded : c.Loaded lax n g) (inside : c id = some d) (h : Handle) :
    (deliver again id (.parcel h)).Yields g fun _ after => c.Loaded lax (n + 1) after := by
  obtain ⟨node, found, mans⟩ := loaded.mans id d inside
  obtain ⟨s, stage, -⟩ := mans.stage
  refine .atNode found ?_
  rw [stage]
  unfold deliverToStage
  dsimp only
  split
  · exact .updating (.throw _)
  split
  · refine .reading ?_
    rw [loaded.lasting]
    exact .throw _
  have accepted : (Run.holding id (accept again id h)).Yields g
      fun _ after => c.Loaded lax (n + 1) after := by
    -- While the queue's own call runs its tank may be over-full; the drain in it makes that good.
    let more (other : NodeId) : Prop := lax other ∨ other = id ∧ d = .queue
    have marked : c.Loaded more n (g.mark id true) := (loaded.mark found true).relax fun _ => .inl
    refine .holding ((accept_loads serves marked inside (fun queue => .inr ⟨rfl, queue⟩) h).mono ?_)
    rintro _ after ⟨loaded, relieved⟩
    have strict : c.Loaded lax (n + 1) after := by
      by_cases queue : d = .queue
      · exact loaded.tighten (relieved queue) fun other loose => loose.imp_right And.left
      · exact loaded.relax fun other loose => loose.resolve_right fun both => queue both.2
    obtain ⟨later, there, -⟩ := strict.mans id d inside
    exact strict.mark there false
  refine .attempting accepted (fun _ after loaded => ?_) fun e _ => settle_fails e
  obtain ⟨later, there, mans⟩ := loaded.mans id d inside
  unfold settle
  refine .reading ?_
  rw [there, Option.any_some, mans.prompt]
  exact .pure loaded

include serves in
theorem drain_loads (loaded : c.Loaded lax n g) (inside : c id = some .queue) (loose : lax id) :
    (drain again id).Yields g fun _ after => c.Loaded lax n after ∧ after.Relieved id := by
  obtain ⟨node, found, -⟩ := loaded.mans id _ inside
  have releases := node.tank.release_releases
  have held := releases.held
  have there : ((g.node? id).map Node.tank).getD .empty = node.tank := by rw [found]; rfl
  unfold Run.Yields Run.Ends
  rw [drain_start there]
  change (Run.setTank id node.tank.release.2 >>= fun _ =>
    sendOn again id node.tank.release.2.released node.tank.release.1 : Run Stock Unit).Yields g _
  refine .updating ?_
  cases released : node.tank.release.1 with
  | none =>
    rw [released] at held
    refine .pure ⟨loaded.tank found (.inl loose) held, fun last there => ?_⟩
    rw [Graph.node?_updateNode, if_pos rfl, found] at there
    cases there
    exact releases.relieved released
  | some h =>
    rw [released] at held
    obtain ⟨m, rfl, fewer⟩ := loaded.taken inside found loose held
    refine .reading (.updating (.bind (forward_loads serves (fewer.remember _) inside nofun h) ?_))
    exact fun _ _ more => serves.drain more inside loose

theorem step_serves (serves : c.Serves again) : c.Serves (step again) where
  deliver h loaded inside := deliver_loads serves loaded inside h
  drain loaded inside loose := drain_loads serves loaded inside loose

theorem perform_serves (c : Channel) (depth : Nat) : c.Serves (perform depth) := by
  induction depth with
  | zero => exact ⟨fun _ _ _ => trivial, fun _ _ _ => trivial⟩
  | succ depth ih => exact step_serves ih

end Traffic

namespace Graph

variable {c : Channel} {lax : NodeId → Prop} {n : Nat} {g : Graph Stock}

theorem send_loads (depth : Nat) (loaded : c.Loaded lax n g) (p : Parcel) :
    (send depth p).Yields g fun _ after => c.Loaded lax (n + 1) after := by
  have added : (Run.add p).Yields g fun _ after => c.Loaded lax n after := fun _ _ => loaded.store _
  refine .bind added fun h after loaded => .reading ?_
  obtain ⟨node, entry, exit, d, found, kind, inside⟩ := loaded.enters
  cases depth with
  | zero => trivial
  | succ depth =>
    refine .atNode found ?_
    rw [kind]
    exact (Traffic.perform_serves c depth).deliver h loaded inside

theorem sendAll_loads (depth : Nat) (loaded : c.Loaded lax n g) (parcels : List Parcel) :
    (sendAll depth parcels).Yields g fun _ after => c.Loaded lax (n + parcels.length) after := by
  induction parcels generalizing n g with
  | nil => exact .pure loaded
  | cons p rest ih =>
    refine .bind (send_loads depth loaded p) fun _ after loaded => (ih loaded).mono ?_
    intro _ last loaded
    rwa [List.length_cons, Nat.add_comm rest.length, ← Nat.add_assoc]

theorem collector?_relink (g : Graph Stock) (source : NodeId) (target : Option NodeId) :
    collector? { g with nodes := linkMain source target g.nodes } = g.collector? := by
  unfold collector? Graph.node? linkMain
  dsimp only
  rw [linkMainBy_getElem?]
  cases g.nodes[g.pumpSink]? with
  | none => rfl
  | some node =>
    rw [Option.map_some]
    split <;> rfl

end Graph

def Channel.Retains (c : Channel) (g : Graph Stock) : Prop :=
  ∀ id node, g.node? id = some node → node.tank.held ≠ 0 →
    c id = some .queue ∧ node.kind = .stage .tankQueue ∧ node.tank.popExcess = none

theorem Channel.Loaded.retains {c : Channel} {n : Nat} {g : Graph Stock}
    (loaded : c.Loaded (fun _ => False) n g) : c.Retains g := by
  intro id node found filled
  have queue := loaded.queues id node found filled
  obtain ⟨other, there, mans⟩ := loaded.mans id .queue queue
  obtain rfl := Option.some.inj (found.symm.trans there)
  obtain ⟨s, stage, duty⟩ := mans.stage
  exact ⟨queue, Stock.duty?_queue duty ▸ stage, loaded.relieved id not_false node found⟩

theorem Channel.Retains.relink {c : Channel} {g : Graph Stock} (retains : c.Retains g) (source : NodeId)
    (target : Option NodeId) : c.Retains { g with nodes := Graph.linkMain source target g.nodes } := by
  intro id node found
  obtain ⟨before, main, was, rfl⟩ := Graph.linkMainBy_main _ found
  exact retains id before was

namespace Graph

variable {c : Channel} {g : Graph Stock}

theorem takeResults_conserves {kept : Sink} (keeps : g.collector? = some kept) (retains : c.Retains g)
    (apart : c g.pumpSink ≠ some .queue) :
    takeResults.Yields g fun results after =>
      results.length + after.retained = g.retained + kept.results.length ∧ c.Retains after := by
  refine takeResults_ends.mpr ⟨fun none => ?_, fun taken takes => ?_⟩
  · cases keeps.symm.trans none
  obtain rfl := Option.some.inj (keeps.symm.trans takes)
  obtain ⟨s, state, -⟩ := Option.bind_eq_some_iff.mp keeps
  obtain ⟨node, found, -⟩ := Option.bind_eq_some_iff.mp state
  have same := retained_updateNode
    (f := fun node => { node with kind := .stage (Stage.ofSink kept.take.2) }) found
  have taken : (kept.take.1.map g.store.read).length = kept.results.length := List.length_map _
  rintro results ⟨⟩
  refine ⟨?_, fun id later there filled => ?_⟩
  · dsimp only at same
    omega
  · obtain ⟨before, was, ⟨rfl, rfl⟩ | ⟨-, rfl⟩⟩ := updateNode_cases there
    · exact absurd (retains _ before was filled).1 apart
    · exact retains id later was filled

theorem pump_conserves {exit : NodeId} (leaves : g.exit = some exit) (depth : Nat)
    (loaded : c.Loaded (fun _ => False) 0 { g with nodes := linkMain exit (some g.pumpSink) g.nodes })
    (collects : c g.pumpSink = some .collect) (parcels : List Parcel) :
    (pump depth parcels).Yields g fun results after =>
      results.length + after.retained = parcels.length ∧ c.Retains after := by
  refine (pump_ends leaves depth parcels).mpr (Run.Ends.mono (sendAll_loads depth loaded parcels) ?_)
  intro result mid ended
  cases result with
  | error e => rintro _ ⟨⟩
  | ok _ =>
    have loaded := ended () rfl
    obtain ⟨node, found, mans⟩ := loaded.mans _ _ collects
    obtain ⟨sink, -, -⟩ := mans.collects rfl
    obtain ⟨s, stage, duty⟩ := mans.stage
    obtain ⟨kept, rfl⟩ := Stock.duty?_collect duty
    rw [sink] at found collects
    have keeps : mid.collector? = some kept := by
      rw [collector?, found, Option.bind_some, Node.state?, stage]
      rfl
    have caught : mid.caught = kept.results.length := by
      rw [Graph.caught, found, Option.map_some, Option.getD_some, Node.caught, stage]
    have load : mid.retained + mid.caught = 0 + parcels.length := loaded.load
    have retained := retained_relink mid exit ((g.node? exit).bind Node.main)
    have apart : c mid.pumpSink ≠ some .queue := by
      rw [collects]
      rintro ⟨⟩
    refine Run.Yields.mono (takeResults_conserves ((collector?_relink mid exit _).trans keeps)
      (loaded.retains.relink exit _) apart) ?_
    rintro results after ⟨all, retains⟩
    exact ⟨by omega, retains⟩

end Graph

end Sluice
