import Sluice.Proofs.Assembly.RouteEdges
import Sluice.Proofs.Graph.PumpSink
import Sluice.Proofs.Graph.RejectedResets
import Sluice.Proofs.Stage.SinkLimits

set_option autoImplicit false

namespace Sluice

open Sink (Input)

/-- The parameters that a message leaves a node with, if it names one of them and a value. -/
def Node.reset? (node : Node Stock) (m : Message) : Option Input :=
  (node.resets? m).map fun (key, value) => .settings (node.rebound key value).params

def Node.input? (node : Node Stock) : Hook → Option Input
  | .accept h _ => some (.parcel h)
  | .notice m => some (.message m)
  | .opening m => if m.verb = Traffic.resetVerb then node.reset? m else none
  | .refresh e => if node.reconfigures e then some (.settings (node.written e).params) else none
  | _ => none

def Event.input? (own : NodeId) : Event Stock → Option Input
  | .began id node hook => if id = own then node.input? hook else none
  | _ => none

def inputs (own : NodeId) (history : List (Event Stock)) : List Input :=
  (history.filterMap (Event.input? own)).reverse

theorem inputs_cons (own : NodeId) (event : Event Stock) (history : List (Event Stock)) :
    inputs own (event :: history) = inputs own history ++ (event.input? own).toList := by
  unfold inputs
  cases came : event.input? own with
  | none => rw [List.filterMap_cons_none came, Option.toList_none, List.append_nil]
  | some i => rw [List.filterMap_cons_some came, List.reverse_cons, Option.toList_some]

theorem Event.input?_began (own : NodeId) (node : Node Stock) (hook : Hook) :
    (Event.began own node hook).input? own = node.input? hook := if_pos rfl

theorem Event.input?_of_ne {own : NodeId} {event : Event Stock}
    (other : ∀ node hook, event ≠ .began own node hook) : event.input? own = none := by
  unfold input?
  split
  next id node hook => exact if_neg fun same => other node hook (by rw [same])
  next => rfl

theorem inputs_parcels (own : NodeId) (history : List (Event Stock)) :
    (inputs own history).filterMap Input.parcel? = arrivals own history := by
  have same (event : Event Stock) : (event.input? own).bind Input.parcel? = event.arrival? own := by
    cases event with
    | began id node hook =>
      by_cases mine : id = own
      · subst mine
        rw [Event.input?_began]
        cases hook with
        | accept h p => exact (if_pos rfl).symm
        | opening m =>
          unfold Node.input? Node.reset? Event.arrival?
          dsimp only
          split
          · cases node.resets? m <;> rfl
          · rfl
        | refresh e =>
          unfold Node.input? Event.arrival?
          dsimp only
          split <;> rfl
        | _ => rfl
      · rw [Event.input?_of_ne fun _ _ same => mine (Event.began.inj same).1,
          Event.arrival?_of_ne fun _ _ same => mine (Event.began.inj same).1]
        rfl
    | _ => rfl
  unfold inputs arrivals
  rw [List.filterMap_reverse, List.filterMap_filterMap]
  exact congrArg (fun read => (history.filterMap read).reverse) (funext same)

/-- Whenever a call began, the stage was the sink that comes of what had come to it before. -/
def Showed (own : NodeId) (start : Sink) (history : List (Event Stock)) : Prop :=
  ∀ node hook older, (.began own node hook :: older) <:+ history →
    node.kind = .stage (.sink (start.meetAll (inputs own older)))

theorem Showed.cons {own : NodeId} {start : Sink} {history : List (Event Stock)}
    {event : Event Stock} (showed : Showed own start history)
    (shows : ∀ node hook, event = .began own node hook →
      node.kind = .stage (.sink (start.meetAll (inputs own history)))) :
    Showed own start (event :: history) := by
  intro node hook older suffix
  rcases List.suffix_cons_iff.mp suffix with same | suffix
  · obtain ⟨rfl, rfl⟩ := List.cons.inj same
    exact shows node hook rfl
  · exact showed node hook older suffix

namespace Graph

structure Heard (own : NodeId) (start : Sink) (came : List Input) (g : Graph Stock) : Prop where
  apart : g.pumpSink ≠ own
  came : inputs own g.history = came
  showed : Showed own start g.history

def Stands (own : NodeId) (s : Sink) (g : Graph Stock) : Prop :=
  ∃ node, g.node? own = some node ∧ node.kind = .stage (.sink s)

def Met (own : NodeId) (start : Sink) (g : Graph Stock) : Prop :=
  ∃ came, g.Heard own start came ∧ g.Stands own (start.meetAll came)

section

variable {own : NodeId} {start s : Sink} {came : List Input} {g : Graph Stock} {node : Node Stock}

theorem Heard.began (heard : g.Heard own start came)
    (stage : node.kind = .stage (.sink (start.meetAll came))) (hook : Hook) :
    Heard own start (came ++ (node.input? hook).toList)
      { g with history := .began own node hook :: g.history } where
  apart := heard.apart
  came := by rw [inputs_cons, Event.input?_began, heard.came]
  showed := heard.showed.cons fun _ _ same => by
    cases same
    rw [heard.came]
    exact stage

theorem Heard.logged {event : Event Stock} (heard : g.Heard own start came)
    (other : ∀ node hook, event ≠ .began own node hook) :
    Heard own start came { g with history := event :: g.history } where
  apart := heard.apart
  came := by rw [inputs_cons, Event.input?_of_ne other, Option.toList_none, List.append_nil, heard.came]
  showed := heard.showed.cons fun node hook same => absurd same (other node hook)

theorem Heard.reported (heard : g.Heard own start came) (r : Report) :
    Heard own start came { g with history := .report r :: g.history } :=
  heard.logged fun _ _ same => by cases same

theorem Stands.changed {id : NodeId} {f : Node Stock → Node Stock} (stands : g.Stands own s)
    (same : id = own → ∀ node, (f node).kind = node.kind) : (g.updateNode id f).Stands own s := by
  obtain ⟨node, found, stage⟩ := stands
  by_cases mine : id = own
  · refine ⟨f node, ?_, (same mine node).trans stage⟩
    rw [node?_updateNode, if_pos mine, found]
    rfl
  · refine ⟨node, ?_, stage⟩
    rw [node?_updateNode, if_neg mine]
    exact found

theorem Stands.become (stands : g.Stands own s) (next : Sink) :
    (g.updateNode own fun node => { node with kind := .stage (.sink next) }).Stands own next := by
  obtain ⟨node, found, -⟩ := stands
  refine ⟨{ node with kind := .stage (.sink next) }, ?_, rfl⟩
  exact node?_updateNode_self found _

theorem Stands.relink (stands : g.Stands own s) (source : NodeId) (target : Option NodeId) :
    Stands own s { g with nodes := linkMain source target g.nodes } := by
  obtain ⟨node, found, stage⟩ := stands
  refine ⟨_, (linkMainBy_getElem? _ _ _ _ _).trans (congrArg _ found), ?_⟩
  dsimp only
  split <;> exact stage

end

end Graph

theorem Node.configured_sink {node : Node Stock} {s : Sink} (stage : node.kind = .stage (.sink s)) :
    node.configured.kind = .stage (.sink (s.meet (.settings node.params))) := by
  have ran : (Stage.configure node.params).run ⟨Stock.sink s, node.tank⟩ = _ :=
    Stock.configure_run node.params (.sink s) node.tank
  unfold configured
  rw [fitted?_stage stage]
  dsimp only
  rw [ran]
  rfl

namespace Traffic

open Sluice.Graph (Heard Stands Met Rewritten)
open Run (Keeps)

section

variable {inv : Graph Stock → Prop}
  (updates : ∀ g id f, inv g → inv (Graph.updateNode g id f))
include updates

theorem refreshEach_keeps (logs : ∀ g r, inv g → inv { g with history := .report r :: g.history })
    (id : NodeId) (path : String) (pairs : List (String × String)) (changed : List String) :
    Keeps inv (refreshEach id path pairs changed) := by
  induction pairs generalizing changed with
  | nil => exact .pure _
  | cons pair rest ih =>
    refine .bind .graph fun g => ?_
    dsimp only
    split
    · exact .throw _
    · refine .bind (.update fun g holds => updates g _ _ holds) fun _ => ?_
      split
      · exact .bind (.update fun g holds => logs g _ holds) fun _ => ih _
      · exact ih _

theorem configureAgain_keeps (again : Call → Run Stock Unit) (id : NodeId) (params : ParamTable)
    (state : Stock) :
    Keeps inv (interpret again id (Fitted.configureAgain Stock.configure params state)) := by
  refine .bind (.bind .graph fun _ => .pure _) fun tank => ?_
  refine .bind (.update fun g holds => updates g _ _ holds) fun _ => ?_
  refine .bind (.update fun g holds => updates g _ _ holds) fun _ => ?_
  exact fun g holds => ofConfig_ends holds _

end

variable {own : NodeId} {start : Sink}

theorem began_ends {g : Graph Stock} {node : Node Stock} {hook : Hook}
    {post : Except EngineError Unit → Graph Stock → Prop} (found : g.node? own = some node)
    (holds : post (.ok ()) { g with history := .began own node hook :: g.history }) :
    (Run.began own hook).Ends g post := by
  unfold Run.began Run.remember
  refine .at found ?_
  exact holds

theorem keeps_met {f : Node Stock → Run Stock Unit}
    (ends : ∀ g node came, g.Heard own start came → g.node? own = some node →
      node.kind = .stage (.sink (start.meetAll came)) →
        (f node).Ends g fun _ after => after.Met own start) :
    Keeps (Graph.Met own start) (Run.atNode own f) := by
  rintro g ⟨came, heard, node, found, stage⟩
  refine .at found ?_
  exact ends g node came heard found stage

theorem began_met {hook : Hook} (silent : ∀ node : Node Stock, node.input? hook = none) :
    Keeps (Graph.Met own start) (Run.began own hook) := by
  refine keeps_met fun g node came heard found stage => ⟨came, ?_, node, found, stage⟩
  have began := heard.began stage hook
  rwa [silent, Option.toList_none, List.append_nil] at began

theorem report_met (r : Report) : Keeps (Graph.Met own start) (Run.report r) :=
  .update fun _ ⟨came, heard, stands⟩ => ⟨came, heard.reported r, stands⟩

theorem runStage_met (again : Call → Run Stock Unit)
    (program : Here → Node Stock → Stock → Program Stock Unit)
    (idle : ∀ here node s, program here node (.sink s) = Program.skip ∨
      ∃ e, program here node (.sink s) = .fail e) :
    Keeps (Graph.Met own start) (runStage again own program) := by
  refine keeps_met fun g node came heard found stage => ?_
  rw [stage]
  dsimp only
  rcases idle (node.here own) node _ with skips | ⟨e, fails⟩
  · rw [skips]
    exact ⟨came, heard, node, found, stage⟩
  · rw [fails]
    exact ⟨came, heard, node, found, stage⟩

theorem reconfigure_met (again : Call → Run Stock Unit) (changed : List String) {g : Graph Stock}
    {node : Node Stock} {came : List Input} (found : g.node? own = some node)
    (stage : node.kind = .stage (.sink (start.meetAll came)))
    (heard : g.Heard own start (came ++ [.settings node.params])) :
    (reconfigure again own changed).Ends g fun _ after => after.Met own start := by
  unfold reconfigure runStage
  refine .at found ?_
  rw [stage]
  dsimp only
  have configures : (interpret again own (Fitted.configureAgain Stock.configure node.params
      (.sink (start.meetAll came)))).Ends g fun _ after => Rewritten own node.configured g after :=
    configureAgain_ends found stage fun _ rewritten => rewritten
  have hears : Keeps (Graph.Heard own start (came ++ [.settings node.params])) (interpret again own
      (Fitted.configureAgain Stock.configure node.params (.sink (start.meetAll came)))) :=
    configureAgain_keeps (fun _ _ _ heard => { heard with }) again own _ _
  refine (configures.and (hears g heard)).mono fun _ after ⟨rewritten, heard⟩ => ?_
  refine ⟨_, heard, node.configured, rewritten.here, ?_⟩
  rw [Node.configured_sink stage, Sink.meetAll_concat]

theorem refresh_met (again : Call → Run Stock Unit) :
    Keeps (Graph.Met own start) (refresh again own) := by
  rintro g ⟨came, heard, node, found, stage⟩
  unfold refresh
  rw [Run.ends_bind, Run.ends_graph]
  dsimp only
  rw [Run.ends_bind]
  refine began_ends found ?_
  dsimp only
  refine .at found ?_
  rw [Run.ends_bind]
  have heard := heard.began stage (.refresh g.environment)
  have each := refreshEach_ends own node.path node.dynamic []
    (g := { g with history := .began own node (.refresh g.environment) :: g.history })
    (Rewritten.refl found)
  have hears := refreshEach_keeps (fun _ _ _ heard => { heard with })
    (fun _ r heard => heard.reported r) own node.path node.dynamic [] _ heard
  refine (each.and hears).mono fun result mid ⟨⟨rewritten, rebound⟩, heard⟩ => ?_
  have written : mid.node? own = some (node.written g.environment) := rewritten.here
  have same : node.reconfigures g.environment = result.toOption.any fun changed => !changed.isEmpty :=
    congrArg (Option.any _) rebound.symm
  unfold Node.input? at heard
  dsimp only at heard
  rw [same] at heard
  cases result with
  | error e => exact ⟨came, List.append_nil came ▸ heard, _, written, stage⟩
  | ok changed =>
    dsimp only [Except.toOption, Option.any] at heard ⊢
    cases changed with
    | nil => exact ⟨came, List.append_nil came ▸ heard, _, written, stage⟩
    | cons _ _ => exact reconfigure_met again _ written stage heard

theorem forward_met {again : Call → Run Stock Unit}
    (serves : ∀ call, Keeps (Graph.Met own start) (again call)) (h : Handle) :
    Keeps (Graph.Met own start) (forward again own h .main) := by
  have edits (p : Parcel) : Keeps (Graph.Met own start) (Run.edit h p) :=
    .update fun _ ⟨came, heard, stands⟩ => ⟨came, { heard with }, stands⟩
  refine .atNode fun node => .bind .graph fun g => ?_
  dsimp only
  split
  · exact .throw_bind _ _
  · split
    · exact .pure _
    · exact .bind (edits _) fun _ => .bind (report_met _) fun _ => serves _

theorem take_met {again : Call → Run Stock Unit}
    (serves : ∀ call, Keeps (Graph.Met own start) (again call)) (h : Handle) (p : Parcel) :
    Keeps (Graph.Met own start) (do
      Run.began own (.accept h p)
      runStage again own fun here _ s => Stage.accept here s h : Run Stock Unit) := by
  rintro g ⟨came, heard, node, found, stage⟩
  rw [Run.ends_bind]
  refine began_ends found ?_
  dsimp only
  unfold runStage
  refine .at found ?_
  rw [stage]
  have heard := heard.began stage (.accept h p)
  change (do
    Run.setState own (.sink ((start.meetAll came).keep h))
    forward again own h .main
    pure () : Run Stock Unit).Ends _ _
  unfold Run.setState Run.updateNode
  rw [Run.ends_bind, Run.ends_update]
  refine (Keeps.bind (forward_met serves h) fun _ => .pure ()) _ ⟨_, { heard with }, ?_⟩
  change Stands own (start.meetAll (came ++ [.parcel h])) _
  rw [Sink.meetAll_concat]
  exact Stands.become ⟨node, found, stage⟩ _

theorem accept_met {again : Call → Run Stock Unit}
    (serves : ∀ call, Keeps (Graph.Met own start) (again call)) (h : Handle) :
    Keeps (Graph.Met own start) (accept again own h) := by
  refine .bind (refresh_met again) fun _ => ?_
  refine .bind (runStage_met again _ fun _ _ _ => .inl rfl) fun _ => ?_
  refine .bind (keeps_look h) fun p => ?_
  have rest := (take_met serves h p).bind fun _ =>
    runStage_met again (fun here _ s => Stage.afterAccept here s) fun _ _ _ => .inl rfl
  rwa [bind_assoc] at rest

theorem notice_met (m : Message) : Keeps (Graph.Met own start) (notice own m : Run Stock Unit) := by
  rintro g ⟨came, heard, node, found, stage⟩
  unfold notice
  rw [Run.ends_bind]
  refine began_ends found ?_
  dsimp only
  refine .at found ?_
  rw [stage]
  have heard := heard.began stage (.notice m)
  refine ⟨_, { heard with }, ?_⟩
  change Stands own (start.meetAll (came ++ [.message m])) _
  rw [Sink.meetAll_concat]
  exact Stands.become ⟨node, found, stage⟩ _

theorem resetParameter_met (again : Call → Run Stock Unit) (m : Message) {g : Graph Stock}
    {node : Node Stock} {came : List Input} (found : g.node? own = some node)
    (stage : node.kind = .stage (.sink (start.meetAll came)))
    (heard : g.Heard own start (came ++ (node.reset? m).toList)) :
    (resetParameter again own m).Ends g fun _ after => after.Met own start := by
  unfold Node.reset? at heard
  unfold Run.Ends
  cases named : node.resets? m with
  | none =>
    obtain ⟨e, refused⟩ := resetParameter_refused again found named
    rw [refused]
    rw [named] at heard
    exact ⟨came, List.append_nil came ▸ heard, node, found, stage⟩
  | some entry =>
    obtain ⟨key, value⟩ := entry
    rw [resetParameter_written again found named]
    rw [named] at heard
    have written : (g.updateNode own (Node.rebound key value)).node? own =
        some (node.rebound key value) :=
      Graph.node?_updateNode_self found _
    have heard : Heard own start (came ++ [.settings (node.rebound key value).params])
        (g.updateNode own (Node.rebound key value)) := { heard with }
    exact reconfigure_met again _ written stage (heard.reported _)

theorem openMessage_met (again : Call → Run Stock Unit) (shown : Node Stock) (m : Message) :
    Keeps (Graph.Met own start) (openMessage again own shown m) := by
  unfold openMessage
  split
  · refine .bind (report_met _) fun _ => ?_
    rintro g ⟨came, heard, node, found, stage⟩
    rw [Run.ends_bind]
    refine began_ends found ?_
    have heard := heard.began stage (.opening m)
    unfold Node.input? at heard
    dsimp only at heard ⊢
    split
    next resets =>
      rw [if_pos resets] at heard
      rw [Run.ends_bind]
      have resets := resetParameter_met again m
        (g := { g with history := .began own node (.opening m) :: g.history }) found stage heard
      refine resets.mono fun result after met => ?_
      cases result <;> exact met
    next other =>
      rw [if_neg other, Option.toList_none, List.append_nil] at heard
      refine Keeps.bind (runStage_met again _ fun _ _ _ => ?_) (fun _ => .pure _) _
        ⟨came, heard, node, found, stage⟩
      exact .inr ⟨_, rfl⟩
  · exact .pure _

theorem callLast_met (again : Call → Run Stock Unit) {hook : Hook}
    (silent : ∀ node : Node Stock, node.input? hook = none)
    {program : Here → Stock → Program Stock Unit}
    (idle : ∀ here s, program here (.sink s) = Program.skip) :
    Keeps (Graph.Met own start) (callLast again own hook program) := by
  refine .bind (began_met silent) fun _ => ?_
  refine .bind (.attempt (runStage_met again _ fun here _ s => .inl (idle here s))) fun result => ?_
  split
  · exact .pure _
  · refine .bind (.update ?_) fun _ => .throw _
    exact fun g ⟨came, heard, stands⟩ => ⟨came, heard.logged fun _ _ => nofun, stands⟩

theorem met_guards (own : NodeId) (start : Sink) :
    Guards (σ := Stock) (· = own) (fun _ => True) (fun _ _ => True) (Graph.Met own start) where
  changed := fun ⟨came, heard, stands⟩ around _ =>
    ⟨came, { heard with }, stands.changed fun _ node => (around node).kind⟩
  state := fun ⟨came, heard, stands⟩ other _ =>
    ⟨came, { heard with }, stands.changed fun same => absurd same other⟩
  programs := fun _ _ _ _ => Stage.obeys_any (fun _ => trivial) (fun _ => trivial)
    (fun _ => trivial) _ _
  logged := fun ⟨came, heard, stands⟩ other =>
    ⟨came, heard.logged fun _ _ same => other _ _ _ same rfl, stands⟩
  store := fun _ ⟨came, heard, stands⟩ => ⟨came, { heard with }, stands⟩
  requested := fun ⟨came, heard, stands⟩ => ⟨came, { heard with }, stands⟩
  environment := fun _ ⟨came, heard, stands⟩ => ⟨came, { heard with }, stands⟩
  root := fun _ => trivial
  next := fun _ _ _ _ => trivial
  accept := fun _ serves _ h mine _ => mine ▸ accept_met (fun call => serves call trivial) h
  notice := fun _ m mine _ => mine ▸ notice_met m
  openMessage := fun again _ _ node m mine _ => mine ▸ openMessage_met again node m
  flush := fun again _ _ mine _ => mine ▸ callLast_met again (fun _ => rfl) fun _ _ => rfl
  close := fun again _ _ mine _ => mine ▸ callLast_met again (fun _ => rfl) fun _ _ => rfl

end Traffic

namespace Graph

variable {own : NodeId} {start : Sink}

theorem pump_met (depth : Nat) (parcels : List Parcel) :
    Run.Keeps (Met own start) (pump depth parcels : Run Stock (List Parcel)) := by
  apply pump_keeps_of
  · exact fun source target g ⟨came, heard, stands⟩ =>
      ⟨came, { heard with }, stands.relink source target⟩
  · exact (Traffic.met_guards own start).sendAll depth parcels
  · exact takeResults_keeps_of fun g node s sink ⟨came, heard, stands⟩ _ _ _ =>
      ⟨came, { heard with }, stands.changed fun same => absurd same heard.apart⟩

theorem Leads.met {g after : Graph Stock} (met : g.Met own start) (leads : g.Leads after) :
    after.Met own start := by
  induction leads with
  | refl => exact met
  | @operate mid after depth operation before ran ih =>
    by_cases pumps : ∃ parcels, operation = .act (.pump parcels)
    · obtain ⟨parcels, rfl⟩ := pumps
      obtain ⟨⟨result, last⟩, started, rfl⟩ := Option.map_eq_some_iff.mp ran
      exact (pump_met depth parcels mid ih).of_start started
    · exact (Traffic.met_guards own start).operate ran (fun parcels same => pumps ⟨parcels, same⟩) ih

end Graph

theorem Stock.configure_sink {params : ParamTable} {state : Stock} {tank : Tank} {s : Sink}
    (sink : ((configure params).run ⟨state, tank⟩).2.state = .sink s) : ∃ t, state = .sink t := by
  rw [configure_run] at sink
  cases state with
  | sink t => exact ⟨t, rfl⟩
  | _ => cases sink

theorem Blueprint.configureNode_sink {before node : Node Stock} {s : Sink}
    (done : configureNode before = .ok node) (stage : node.kind = .stage (.sink s)) :
    ¬s.Overfull := by
  obtain ⟨accepts, rfl⟩ := configureNode_ok done
  cases fitted : before.fitted? with
  | none =>
    have same : before.configured = before := by simp only [Node.configured, fitted]
    rw [same] at stage
    cases fitted.symm.trans (Node.fitted?_stage stage)
  | some stands =>
    obtain ⟨state, tank⟩ := stands
    have there := (Node.configured_fitted? fitted).symm.trans (Node.fitted?_stage stage)
    obtain ⟨t, rfl⟩ := Stock.configure_sink (congrArg Fitted.state (Option.some.inj there))
    have ran : (Stage.configure before.params).run ⟨Stock.sink t, tank⟩ = _ :=
      Stock.configure_run before.params (.sink t) tank
    have accepts := accepts _ fitted
    rw [ran] at there accepts
    obtain rfl := Stock.sink.inj (congrArg Fitted.state (Option.some.inj there))
    exact Sink.configure_fits accepts

namespace Graph

theorem build_met {b : Blueprint Stock} {g : Graph Stock} (built : b.build.1 = .ok g)
    {own : NodeId} {first : Node Stock} {s : Sink} (found : g.node? own = some first)
    (stage : first.kind = .stage (.sink s)) (apart : g.pumpSink ≠ own) :
    g.Met own s ∧ ¬s.Overfull := by
  obtain ⟨nodes, history, rfl, uncalled, configured⟩ := Blueprint.build_configured built
  have silent : history.filterMap (Event.input? own) = [] :=
    uncalled.silent fun event silent => by cases event <;> first | rfl | cases silent
  have came : inputs own history = [] := congrArg List.reverse silent
  refine ⟨⟨[], ⟨apart, came, fun node hook older suffix => ?_⟩, first, found, stage⟩, ?_⟩
  · cases uncalled _ (suffix.subset List.mem_cons_self)
  · rcases Blueprint.node?_make_cases found with found | ⟨same, -⟩
    · obtain ⟨before, -, done⟩ := configured first (Array.mem_of_getElem? found)
      exact Blueprint.configureNode_sink done stage
    · exact absurd same.symm apart

/-- What is kept in a sink is what came last. More than the limit is kept just when the parameters
that the limit was last read in were refused, and nothing is dropped but what is over the limit. -/
theorem sinks_keep_latest {b : Blueprint Stock} {g after : Graph Stock} (built : b.build.1 = .ok g)
    (leads : g.Leads after) {own : NodeId} {first : Node Stock} {start : Sink}
    (found : g.node? own = some first) (stage : first.kind = .stage (.sink start))
    (apart : g.pumpSink ≠ own) :
    (∃ node, after.node? own = some node ∧
      node.kind = .stage (.sink (start.meetAll (inputs own after.history)))) ∧
    Showed own start after.history ∧
    (inputs own after.history).filterMap Input.parcel? = arrivals own after.history ∧
    ∀ past later, inputs own after.history = past ++ later →
      (start.meetAll past).results <:+ start.results ++ past.filterMap Input.parcel? ∧
      ((start.meetAll past).Overfull ↔ start.Unheeded past) ∧
      ∀ i ∈ later.head?, (start.meetAll past).Sheds i.parcel?.toList (start.meetAll (past ++ [i])) := by
  have ⟨met, fits⟩ := build_met built found stage apart
  obtain ⟨came, heard, node, found, stage⟩ := leads.met met
  obtain rfl := heard.came
  refine ⟨⟨node, found, stage⟩, heard.showed, inputs_parcels own after.history, ?_⟩
  intro past later _
  refine ⟨start.meetAll_suffix past, Sink.overfull_iff_unheeded fits past, fun i _ => ?_⟩
  rw [Sink.meetAll_concat]
  exact (start.meetAll past).meet_sheds i

def flooding : List Operation := [.act (.send (.ofText "one")), .act (.send (.ofText "two")),
  .act (.send (.ofText "three")), .act (.message (Traffic.setSink "capture_msgs" "maybe")),
  .act (.message (Traffic.setSink "max_results" "1")), .act (.send (.ofText "four"))]

def sink? (g : Graph Stock) (id : NodeId) : Option Sink :=
  ((g.node? id).bind Node.state?).bind Stock.toSink?

theorem node_of_sink? {g : Graph Stock} {id : NodeId} {s : Sink} (sink : g.sink? id = some s) :
    ∃ node, g.node? id = some node ∧ node.kind = .stage (.sink s) := by
  obtain ⟨state, held, sink⟩ := Option.bind_eq_some_iff.mp sink
  obtain ⟨node, found, state'⟩ := Option.bind_eq_some_iff.mp held
  cases state with
  | sink t =>
    cases sink
    exact ⟨node, found, Node.kind_of_state state'⟩
  | _ => cases sink

theorem flooded_sink_keeps_latest : ∃ g after first start, Traffic.collecting.build.1 = .ok g ∧
    g.Leads after ∧ g.node? 1 = some first ∧ first.kind = .stage (.sink start) ∧ g.pumpSink ≠ 1 ∧
      start.results = [] ∧
      (start.meetAll (inputs 1 after.history)).Overfull ∧
      start.Unheeded (inputs 1 after.history) ∧
      (start.meetAll (inputs 1 after.history)).results <:+ arrivals 1 after.history := by
  have runs : Traffic.collecting.passes (fun g => g.pumpSink != 1 && (g.sink? 1).any fun start =>
      start.results.isEmpty && (operateAll 6 flooding g).any fun after =>
        (after.sink? 1).any fun s => decide s.Overfull) = true := by decide +kernel
  obtain ⟨g, built, runs⟩ := Blueprint.of_passes runs
  obtain ⟨apart, runs⟩ := (Bool.and_eq_true _ _).mp runs
  obtain ⟨start, sink, runs⟩ := (Option.any_eq_true _ _).mp runs
  obtain ⟨empty, runs⟩ := (Bool.and_eq_true _ _).mp runs
  obtain ⟨after, ran, runs⟩ := (Option.any_eq_true _ _).mp runs
  obtain ⟨last, sink', full⟩ := (Option.any_eq_true _ _).mp runs
  obtain ⟨first, found, stage⟩ := node_of_sink? sink
  obtain ⟨node', found', stage'⟩ := node_of_sink? sink'
  have leads : g.Leads after := .of_all .refl ran
  have apart : g.pumpSink ≠ 1 := bne_iff_ne.mp apart
  have empty : start.results = [] := List.isEmpty_iff.mp empty
  obtain ⟨⟨node, there, kept⟩, -, came, all⟩ := sinks_keep_latest built leads found stage apart
  obtain ⟨latest, iff, -⟩ := all _ [] (List.append_nil _).symm
  obtain rfl : node = node' := Option.some.inj (there.symm.trans found')
  obtain rfl : last = _ := Stock.sink.inj (NodeKind.stage.inj (stage'.symm.trans kept))
  rw [empty, List.nil_append, came] at latest
  have full : Sink.Overfull _ := of_decide_eq_true full
  exact ⟨g, after, first, start, built, leads, found, stage, apart, empty, full, iff.mp full, latest⟩

end Graph

end Sluice
