import Sluice.Proofs.Assembly.Trials
import Sluice.Proofs.Assembly.Exits
import Sluice.Proofs.Graph.Guards
import Sluice.Proofs.Graph.RestoredLinks
import Sluice.Proofs.Stage.Laws

set_option autoImplicit false

namespace Sluice

open Stage (LawfulSinks)

variable {σ : Type}

def Event.arrival? (id : NodeId) : Event σ → Option Handle
  | .began other _ (.accept h _) => if other = id then some h else none
  | _ => none

def arrivals (id : NodeId) (history : List (Event σ)) : List Handle :=
  (history.filterMap (Event.arrival? id)).reverse

theorem arrivals_append (id : NodeId) (newer older : List (Event σ)) :
    arrivals id (newer ++ older) = arrivals id older ++ arrivals id newer := by
  simp [arrivals]

theorem arrivals_cons_of_none {id : NodeId} {event : Event σ} (silent : event.arrival? id = none)
    (history : List (Event σ)) : arrivals id (event :: history) = arrivals id history := by
  rw [arrivals, List.filterMap_cons_none silent]
  rfl

theorem arrivals_cons_accept (id : NodeId) (node : Node σ) (h : Handle) (p : Parcel)
    (history : List (Event σ)) :
    arrivals id (.began id node (.accept h p) :: history) = arrivals id history ++ [h] := by
  simp [arrivals, Event.arrival?]

theorem Event.arrival?_of_ne {id : NodeId} {event : Event σ}
    (other : ∀ node hook, event ≠ .began id node hook) : event.arrival? id = none := by
  unfold arrival?
  split
  next here node h p => exact if_neg fun same => other node (.accept h p) (by rw [same])
  next => rfl

namespace Graph

variable [Stage σ]

/-- The node of a sink that keeps all that arrives and leads nowhere. What it has is what has come
to it, apart from what has been taken. -/
structure Collects (own : NodeId) (taken : List Handle) (g : Graph σ) (node : Node σ) (s : Sink) :
    Prop where
  sink : g.pumpSink = own
  found : g.node? own = some node
  stage : node.kind = .stage (Stage.ofSink s)
  unlimited : s.maxResults = 0
  main : node.main = none
  declared : node.declared = .empty
  dynamic : node.dynamic = []
  results : arrivals own g.history = taken ++ s.results

def Collecting (own : NodeId) (taken : List Handle) (g : Graph σ) : Prop :=
  ∃ node s, g.Collects own taken node s

namespace Collects

variable {own : NodeId} {taken : List Handle} {g : Graph σ} {node : Node σ} {s : Sink}
  (collects : g.Collects own taken node s)
include collects

theorem changed {id : NodeId} {f : Node σ → Node σ}
    (retains : id = own → node.Around (f node) ∧ node.Retains (f node)) :
    ∃ node, (g.updateNode id f).Collects own taken node s := by
  by_cases same : id = own
  · subst same
    have ⟨around, kept⟩ := retains rfl
    refine ⟨f node,
      { collects with
        found := ?_
        stage := around.kind.trans collects.stage
        main := around.main.trans collects.main
        declared := kept.declared.trans collects.declared
        dynamic := kept.dynamic.trans collects.dynamic }⟩
    exact node?_updateNode_self collects.found _
  · refine ⟨node, { collects with found := ?_ }⟩
    rw [node?_updateNode, if_neg same]
    exact collects.found

theorem logged {event : Event σ} (silent : event.arrival? own = none) :
    Collects own taken { g with history := event :: g.history } node s :=
  { collects with results := (arrivals_cons_of_none silent _).trans collects.results }

theorem kept {next : Sink} (unlimited : next.maxResults = 0) (results : next.results = s.results) :
    (g.updateNode own fun node => { node with kind := .stage (Stage.ofSink next) }).Collects own
      taken { node with kind := .stage (Stage.ofSink next) } next where
  sink := collects.sink
  found :=
    node?_updateNode_self collects.found _
  stage := rfl
  unlimited := unlimited
  main := collects.main
  declared := collects.declared
  dynamic := collects.dynamic
  results := results ▸ collects.results

theorem arrived (h : Handle) (p : Parcel) :
    (({ g with history := .began own node (.accept h p) :: g.history } : Graph σ).updateNode own
      fun node => { node with kind := .stage (Stage.ofSink (s.keep h)) }).Collects own taken
        { node with kind := .stage (Stage.ofSink (s.keep h)) } (s.keep h) where
  sink := collects.sink
  found := by
    rw [node?_updateNode, if_pos rfl]
    exact congrArg (Option.map _) collects.found
  stage := rfl
  unlimited := collects.unlimited
  main := collects.main
  declared := collects.declared
  dynamic := collects.dynamic
  results := by
    have whole : (s.keep h).results = s.results ++ [h] := by simp [Sink.keep, collects.unlimited]
    rw [whole, ← List.append_assoc, ← collects.results]
    exact arrivals_cons_accept own node h p g.history

theorem relink (depth : Nat) {source : NodeId} (target : Option NodeId)
    (outside : own ∉ exitsBy depth source g.nodes) :
    Collects own taken { g with nodes := linkMainBy depth source target g.nodes } node s :=
  { collects with
    found := by
      have found : g.nodes[own]? = some node := collects.found
      rw [node?, linkMainBy_getElem?, found, Option.map_some, if_neg outside] }

end Collects

end Graph

namespace Traffic

open Sluice.Graph (Collects Collecting)
open Run (Keeps)

variable [Stage σ] {own : NodeId} {taken : List Handle}

theorem keeps_at {f : Node σ → Run σ Unit}
    (ends : ∀ g node s, g.Collects own taken node s →
      (f node).Ends g fun _ after => after.Collecting own taken) :
    Keeps (Collecting own taken) (Run.atNode own f) := by
  rintro g ⟨node, s, collects⟩
  exact .at collects.found (ends g node s collects)

theorem began_collecting (hook : Hook) (silent : ∀ h p, hook ≠ .accept h p) :
    Keeps (Collecting own taken) (Run.began own hook : Run σ Unit) := by
  refine keeps_at fun g node s collects => ?_
  refine ⟨node, s, collects.logged ?_⟩
  cases hook with
  | accept h p => exact absurd rfl (silent h p)
  | _ => rfl

theorem runStage_collecting (again : Call → Run σ Unit)
    (program : Here → Node σ → σ → Program σ Unit)
    (idle : ∀ here node s, program here node (Stage.ofSink s) = Program.skip ∨
      ∃ e, program here node (Stage.ofSink s) = .fail e) :
    Keeps (Collecting own taken) (runStage again own program) := by
  refine keeps_at fun g node s collects => ?_
  rw [collects.stage]
  dsimp only
  rcases idle (node.here own) node s with skips | ⟨e, fails⟩
  · rw [skips]
    exact ⟨node, s, collects⟩
  · rw [fails]
    exact ⟨node, s, collects⟩

theorem refresh_collecting (again : Call → Run σ Unit) :
    Keeps (Collecting own taken) (refresh again own) := by
  refine .bind .graph fun g => .bind (began_collecting _ fun _ _ => nofun) fun _ => ?_
  refine keeps_at fun g node s collects => ?_
  rw [collects.dynamic]
  exact ⟨node, s, collects⟩

theorem callLast_collecting (again : Call → Run σ Unit) {hook : Hook}
    (silent : ∀ h p, hook ≠ .accept h p) {program : Here → σ → Program σ Unit}
    (idle : ∀ here s, program here (Stage.ofSink s) = Program.skip) :
    Keeps (Collecting own taken) (callLast again own hook program) := by
  refine .bind (began_collecting hook silent) fun _ => ?_
  refine .bind (.attempt (runStage_collecting again _ fun here _ s => .inl (idle here s)))
    fun result => ?_
  split
  · exact .pure _
  · refine .bind (.update ?_) fun _ => .throw _
    exact fun g ⟨node, s, collects⟩ => ⟨node, s, collects.logged rfl⟩

omit [Stage σ] in
theorem forward_nowhere {again : Call → Run σ Unit} {g : Graph σ} {id : NodeId} {node : Node σ}
    {post : Except EngineError Unit → Graph σ → Prop} (found : g.node? id = some node)
    (main : node.main = none) (h : Handle) (holds : post (.ok ()) g) :
    (forward again id h .main).Ends g post := by
  unfold forward
  refine .at found ?_
  rw [Run.ends_bind, Run.ends_graph]
  simpa [main] using holds

variable [LawfulSinks σ]

theorem accept_collecting (again : Call → Run σ Unit) (h : Handle) :
    Keeps (Collecting own taken) (accept again own h) := by
  refine .bind (refresh_collecting again) fun _ => ?_
  refine .bind (runStage_collecting again _ fun _ _ _ => .inl (by simp)) fun _ => ?_
  -- Between the beginning of the call and what the sink makes of it the new parcel is not counted.
  have kept (p : Parcel) : Keeps (Collecting own taken) (do
      Run.began own (.accept h p)
      runStage again own fun here _ s => Stage.accept here s h : Run σ Unit) := by
    rintro g ⟨node, s, collects⟩
    rw [Run.ends_bind]
    unfold Run.began runStage
    refine .at collects.found ?_
    unfold Run.remember
    rw [Run.ends_update]
    refine .at collects.found ?_
    rw [collects.stage]
    dsimp only
    rw [LawfulSinks.accept_ofSink]
    have arrived := collects.arrived h p
    change (do
      Run.setState own (Stage.ofSink (s.keep h))
      forward again own h .main
      pure () : Run σ Unit).Ends _ _
    unfold Run.setState Run.updateNode
    rw [Run.ends_bind, Run.ends_update]
    dsimp only
    rw [Run.ends_bind]
    exact forward_nowhere arrived.found arrived.main h ⟨_, _, arrived⟩
  refine .bind (keeps_look h) fun p => ?_
  have rest := (kept p).bind fun _ =>
    runStage_collecting again (fun here _ s => Stage.afterAccept here s) fun _ _ _ => .inl (by simp)
  rwa [bind_assoc] at rest

theorem notice_collecting (m : Message) :
    Keeps (Collecting own taken) (notice own m : Run σ Unit) := by
  refine .bind (began_collecting _ fun _ _ => nofun) fun _ => ?_
  refine keeps_at fun g node s collects => ?_
  rw [collects.stage]
  dsimp only
  rw [LawfulSinks.notice_ofSink]
  have ⟨limit, results⟩ : (s.notice m).maxResults = s.maxResults ∧
      (s.notice m).results = s.results := by
    unfold Sink.notice
    split <;> exact ⟨rfl, rfl⟩
  exact ⟨_, _, collects.kept (limit.trans collects.unlimited) results⟩

theorem openMessage_collecting (again : Call → Run σ Unit) (node : Node σ) (m : Message) :
    Keeps (Collecting own taken) (openMessage again own node m) := by
  unfold openMessage
  split
  · refine .bind ?_ fun _ => .bind (began_collecting _ fun _ _ => nofun) fun _ => ?_
    · exact .update fun g ⟨node, s, collects⟩ => ⟨node, s, collects.logged rfl⟩
    dsimp only
    split
    · -- It has no parameters of its own that could be set.
      refine .bind (keeps_at fun g node s collects => ?_) fun _ => .pure _
      split
      · rw [collects.declared]
        exact ⟨node, s, collects⟩
      · exact ⟨node, s, collects⟩
    · refine .bind (runStage_collecting again _ fun _ _ _ => ?_) fun _ => .pure _
      exact .inr ⟨_, LawfulSinks.onMessage_ofSink _ _ _⟩
  · exact .pure _

theorem collecting_guards (own : NodeId) (taken : List Handle) :
    Guards (σ := σ) (· = own) (fun _ => True) (fun _ _ => True) (Collecting own taken) where
  changed := fun ⟨_, s, collects⟩ around retains =>
    have ⟨node, collects⟩ := collects.changed fun same => ⟨around _, retains same _⟩
    ⟨node, s, collects⟩
  state := fun ⟨_, s, collects⟩ other _ =>
    have ⟨node, collects⟩ := collects.changed fun same => absurd same other
    ⟨node, s, collects⟩
  programs := fun _ _ _ _ => Stage.obeys_any (fun _ => trivial) (fun _ => trivial)
    (fun _ => trivial) _ _
  logged := fun ⟨node, s, collects⟩ other => ⟨node, s, collects.logged <|
    Event.arrival?_of_ne fun _ _ same => other _ _ _ same rfl⟩
  store := fun _ ⟨node, s, collects⟩ => ⟨node, s, { collects with }⟩
  requested := fun ⟨node, s, collects⟩ => ⟨node, s, { collects with }⟩
  environment := fun _ ⟨node, s, collects⟩ => ⟨node, s, { collects with }⟩
  root := fun _ => trivial
  next := fun _ _ _ _ => trivial
  accept := fun again _ _ h mine _ => mine ▸ accept_collecting again h
  notice := fun _ m mine _ => mine ▸ notice_collecting m
  openMessage := fun again _ _ node m mine _ => mine ▸ openMessage_collecting again node m
  flush := fun again _ _ mine _ => mine ▸ callLast_collecting again
    (fun _ _ same => by cases same) LawfulSinks.flush_ofSink
  close := fun again _ _ mine _ => mine ▸ callLast_collecting again
    (fun _ _ same => by cases same) LawfulSinks.close_ofSink

end Traffic

namespace Graph

structure Apart (own : NodeId) (came : List Handle) (g : Graph σ) : Prop where
  sink : g.pumpSink = own
  root : g.root ≠ own
  leads : ∀ id node, g.node? id = some node → ¬node.Leads own
  arrivals : arrivals own g.history = came

theorem Apart.changed {own id : NodeId} {came : List Handle} {g : Graph σ} {f : Node σ → Node σ}
    (apart : g.Apart own came)
    (narrows : ∀ (node : Node σ) (target : NodeId), (f node).Leads target → node.Leads target) :
    (g.updateNode id f).Apart own came := by
  refine ⟨apart.sink, apart.root, fun other node found leads => ?_, apart.arrivals⟩
  obtain ⟨before, was, ⟨rfl, rfl⟩ | ⟨-, rfl⟩⟩ := updateNode_cases found
  · exact apart.leads _ before was (narrows before own leads)
  · exact apart.leads other node was leads

variable [Stage σ]

theorem apart_guards (own : NodeId) (came : List Handle) :
    Traffic.Guards (σ := σ) (· = own) (· ≠ own) (fun _ _ => True) (Apart own came) where
  changed := fun apart around _ => apart.changed fun node target leads =>
    leads.of_around (around node)
  state := fun apart _ _ => apart.changed fun _ target leads => by
    rcases leads with main | branch | entry
    · exact .inl main
    · exact .inr (.inl branch)
    · cases entry
  programs := fun _ _ _ _ => Stage.obeys_any (fun _ => trivial) (fun _ => trivial)
    (fun _ => trivial) _ _
  logged := fun apart other => { apart with
    arrivals := (arrivals_cons_of_none (Event.arrival?_of_ne fun _ _ same =>
      other _ _ _ same rfl) _).trans apart.arrivals }
  store := fun _ apart => { apart with }
  requested := fun apart => { apart with }
  environment := fun _ apart => { apart with }
  root := Apart.root
  next := fun apart _ found leads same => apart.leads _ _ found (same ▸ leads)
  accept := fun _ _ _ _ => absurd
  notice := fun _ _ => absurd
  openMessage := fun _ _ _ _ _ => absurd
  flush := fun _ _ _ => absurd
  close := fun _ _ _ => absurd

omit [Stage σ] in
theorem Wired.apart {g : Graph σ} (wired : g.Wired) :
    g.Apart g.pumpSink (Sluice.arrivals g.pumpSink g.history) := by
  refine ⟨rfl, fun same => Nat.lt_irrefl _ (same ▸ wired.root), fun id node found leads => ?_, rfl⟩
  have bounded := wired.nodes id node found
  rcases leads with main | branch | entry
  · exact Nat.lt_irrefl _ (bounded.main _ main)
  · exact Nat.lt_irrefl _ (bounded.branch _ branch)
  · exact Nat.lt_irrefl _ (bounded.entry _ entry)

def collected (g : Graph σ) : List Handle := arrivals g.pumpSink g.history

theorem operate_collected {g after : Graph σ} {depth : Nat} {operation : Operation}
    (wired : g.Wired) (ran : g.operate depth operation = some after)
    (still : ∀ parcels, operation ≠ .act (.pump parcels)) : after.collected = g.collected := by
  have apart := (apart_guards g.pumpSink g.collected).operate ran still wired.apart
  rw [collected, apart.sink]
  exact apart.arrivals

inductive Untaken (g : Graph σ) : Graph σ → List Handle → Prop
  | start : Untaken g g []
  | taken {mid after : Graph σ} {left : List Handle} {depth : Nat} {parcels results : List Parcel}
      (before : Untaken g mid left)
      (ran : (pump depth parcels).start mid = some (.ok results, after)) : Untaken g after []
  | failed {mid after : Graph σ} {left new : List Handle} {depth : Nat} {parcels : List Parcel}
      {e : EngineError} (before : Untaken g mid left)
      (ran : (pump depth parcels).start mid = some (.error e, after))
      (came : after.collected = mid.collected ++ new) : Untaken g after (left ++ new)
  | other {mid after : Graph σ} {left : List Handle} {depth : Nat} {operation : Operation}
      (before : Untaken g mid left) (ran : mid.operate depth operation = some after)
      (still : ∀ parcels, operation ≠ .act (.pump parcels)) : Untaken g after left

theorem Untaken.leads {g after : Graph σ} {left : List Handle} (untaken : Untaken g after left) :
    g.Leads after := by
  have pumped {mid after : Graph σ} {depth : Nat} {parcels : List Parcel}
      {result : Except EngineError (List Parcel)} (before : g.Leads mid)
      (ran : (pump depth parcels).start mid = some (result, after)) : g.Leads after := by
    have operated : mid.operate depth (.act (.pump parcels)) = some after := by
      rw [operate, act, ran]
      rfl
    exact before.operate operated
  induction untaken with
  | start => exact .refl
  | taken _ ran ih => exact pumped ih ran
  | failed _ ran _ ih => exact pumped ih ran
  | other _ ran _ ih => exact ih.operate ran

variable [LawfulSinks σ]

theorem takeResults_collects {g : Graph σ} {own : NodeId} {taken : List Handle} {node : Node σ}
    {s : Sink} (collects : g.Collects own taken node s) :
    takeResults.Ends g fun result after =>
      result = .ok (s.results.map after.store.read) ∧
        ∃ node, after.Collects own (taken ++ s.results) node { s with results := [] } := by
  have kept : g.collector? = some s := by
    rw [collector?, collects.sink, collects.found]
    simp [Node.state?, collects.stage]
  refine takeResults_ends.mpr ⟨fun none => by simp [none] at kept, fun sink some => ?_⟩
  obtain rfl : s = sink := Option.some.inj (kept.symm.trans some)
  rw [collects.sink]
  refine ⟨rfl, { node with kind := .stage (Stage.ofSink { s with results := [] }) }, ?_⟩
  refine
    { collects with
      found := ?_
      stage := rfl
      results := ?_ }
  · exact node?_updateNode_self collects.found _
  · rw [List.append_nil]
    exact collects.results

theorem pump_collects {g : Graph σ} (resting : g.Resting) (wired : g.Wired) {exit : NodeId}
    (leaves : g.exit = some exit) {own : NodeId} {taken : List Handle} {node : Node σ} {s : Sink}
    (collects : g.Collects own taken node s) (depth : Nat) (parcels : List Parcel) :
    (pump depth parcels).Ends g fun result after => match result with
      | .error _ => Collecting own taken after
      | .ok results => ∃ held node s, results = held.map after.store.read ∧
          after.Collects own (taken ++ held) node s ∧ s.results = [] := by
  have outside : own ∉ exitsBy g.nodes.size exit g.nodes := fun member =>
    collects.sink ▸ wired.sink_outside leaves <| (mem_exitsBy wired.descends (Nat.le_add_right _ _)
      (wired.exit_within_nodes leaves)).mp member
  rw [pump_ends leaves]
  have linked := collects.relink g.nodes.size (some g.pumpSink) outside
  have wiring := relink_rested g exit (some g.pumpSink) g ⟨resting, .refl g⟩
  have sent := (sendAll_advanced _ depth parcels _ ⟨wiring.1, .refl _⟩).and
    ((Traffic.collecting_guards own taken).sendAll depth parcels _ ⟨node, s, linked⟩)
  refine sent.mono fun result mid ⟨⟨_, advances⟩, node', s', collects'⟩ => ?_
  have same := SameWiring.of_advances advances
  -- Nor is the sink one of the exits that are linked back afterwards.
  have outside : own ∉ exitsBy mid.nodes.size exit mid.nodes := by
    have size : mid.nodes.size = g.nodes.size := same.nodes.size.trans (linkMainBy_size _ _ _ _)
    rw [exitsBy_congr fun id => (same.nodes.exit id).trans (exit_linkMainBy _ _ _ _ _), size]
    exact outside
  have back := collects'.relink mid.nodes.size ((g.node? exit).bind Node.main) outside
  cases result with
  | error e => exact ⟨_, _, back⟩
  | ok _ =>
    refine (takeResults_collects back).mono fun result after ⟨results, node, left⟩ => ?_
    subst results
    exact ⟨s'.results, node, _, rfl, left, rfl⟩

theorem Untaken.collects {g after : Graph σ} {left : List Handle} (resting : g.Resting)
    (wired : g.Wired) {exit : NodeId} (leaves : g.exit = some exit) {taken : List Handle}
    {node : Node σ} {s : Sink} (fresh : g.Collects g.pumpSink taken node s)
    (empty : s.results = []) (untaken : Untaken g after left) :
    ∃ taken node s, after.Collects g.pumpSink taken node s ∧ s.results = left := by
  have still {mid : Graph σ} {left : List Handle} (before : Untaken g mid left) :
      mid.exit = some exit := (before.leads.rested resting).2.exit.trans leaves
  induction untaken with
  | start => exact ⟨taken, node, s, fresh, empty⟩
  | @taken mid after left depth parcels results before ran ih =>
    obtain ⟨taken, node, s, collects, rfl⟩ := ih
    have rested := (before.leads.rested resting).1
    obtain ⟨held, node, s, -, last, empty⟩ := (pump_collects rested
      (before.leads.wired resting wired) (still before) collects depth parcels).of_start ran
    exact ⟨_, node, s, last, empty⟩
  | @failed mid after left new depth parcels e before ran came ih =>
    obtain ⟨taken, node, s, collects, rfl⟩ := ih
    have rested := (before.leads.rested resting).1
    obtain ⟨node', s', collects'⟩ := (pump_collects rested (before.leads.wired resting wired)
      (still before) collects depth parcels).of_start ran
    refine ⟨taken, node', s', collects', ?_⟩
    -- What has come is what was taken and what is left, before and after.
    rw [collected, collected, collects'.sink, collects.sink, collects'.results,
      collects.results, List.append_assoc] at came
    exact List.append_cancel_left came
  | @other mid after left depth operation before ran still ih =>
    obtain ⟨taken, node, s, collects, rfl⟩ := ih
    have same := operate_collected (before.leads.wired resting wired) ran still
    obtain ⟨node', s', collects'⟩ :=
      (Traffic.collecting_guards g.pumpSink taken).operate ran still ⟨node, s, collects⟩
    refine ⟨taken, node', s', collects', ?_⟩
    rw [collected, collected, collects'.sink, collects.sink, collects'.results,
      collects.results] at same
    exact List.append_cancel_left same

omit [LawfulSinks σ] in
theorem build_collects {b : Blueprint σ} {g : Graph σ}
    (built : b.build.1 = .ok g) : g.Collects g.pumpSink [] pumpSinkNode .empty := by
  obtain ⟨nodes, history, rfl, uncalled, -⟩ := Blueprint.build_configured built
  -- While a graph is built no stage is called.
  refine
    { sink := rfl
      found := Array.getElem?_push_size
      stage := rfl
      unlimited := rfl
      main := rfl
      declared := rfl
      dynamic := rfl
      results := ?_ }
  have silent : history.filterMap (Event.arrival? nodes.size) = [] :=
    uncalled.silent fun event silent => by cases event <;> first | rfl | cases silent
  exact congrArg List.reverse silent

omit [LawfulSinks σ] in
theorem Leads.untaken {g after : Graph σ} (leads : g.Leads after) (resting : g.Resting) :
    ∃ left, Untaken g after left := by
  induction leads with
  | refl => exact ⟨[], .start⟩
  | @operate mid after depth operation before ran ih =>
    obtain ⟨left, untaken⟩ := ih
    by_cases pumps : ∃ parcels, operation = .act (.pump parcels)
    · obtain ⟨parcels, rfl⟩ := pumps
      obtain ⟨⟨result, last⟩, started, rfl⟩ := Option.map_eq_some_iff.mp ran
      cases result with
      | ok results => exact ⟨[], untaken.taken started⟩
      | error e =>
        have ⟨rested, _⟩ := before.rested resting
        have ⟨_, lasts⟩ := operate_rested rested ran
        obtain ⟨newer, history⟩ := lasts.history
        have sink : last.pumpSink = mid.pumpSink := by
          cases leaves : mid.exit with
          | none => cases ((pump_none leaves depth parcels).of_start started).1
          | some exit => exact ((pump_wiring rested leaves depth parcels).of_start started).pumpSink
        have came : last.collected = mid.collected ++ arrivals mid.pumpSink newer := by
          rw [collected, collected, sink, ← history, arrivals_append]
        exact ⟨_, untaken.failed started came⟩
    · exact ⟨left, untaken.other ran fun parcels same => pumps ⟨parcels, same⟩⟩

/-- What a pump that succeeds gives is what has come to the pump sink since results were last
taken: what earlier pumps that failed have left there, and then what comes during this one. -/
theorem pump_takes_untaken {b : Blueprint σ} {g before after : Graph σ} {depth : Nat}
    {parcels results : List Parcel} (built : b.build.1 = .ok g) (leads : g.Leads before)
    (ran : (pump depth parcels).start before = some (.ok results, after)) :
    (∃ left, Untaken g before left) ∧ ∀ left, Untaken g before left →
      ∃ new, after.collected = before.collected ++ new ∧
        results = (left ++ new).map after.store.read := by
  have resting := b.build_resting built
  have wired := b.build_wired built
  have ⟨rested, lasts⟩ := leads.rested resting
  obtain ⟨exit, leaves⟩ := b.build_exit built
  refine ⟨leads.untaken resting, fun left untaken => ?_⟩
  obtain ⟨taken, node, s, collects, rfl⟩ :=
    untaken.collects resting wired leaves (build_collects built) rfl
  obtain ⟨held, _, s', rfl, last, empty⟩ := (pump_collects rested (leads.wired resting wired)
    (lasts.exit.trans leaves) collects depth parcels).of_start ran
  have ⟨_, lasts⟩ := (pump_rested before depth parcels before ⟨rested, .refl before⟩).of_start ran
  obtain ⟨newer, history⟩ := lasts.history
  have came : arrivals g.pumpSink after.history =
      arrivals g.pumpSink before.history ++ arrivals g.pumpSink newer := by
    rw [← history, arrivals_append]
  refine ⟨arrivals g.pumpSink newer, ?_, ?_⟩
  · rw [collected, collected, last.sink, collects.sink, came]
  · -- Nothing is held after the pump, so that what is new is what was held and what was sent.
    rw [last.results, empty, List.append_nil, collects.results, List.append_assoc] at came
    rw [List.append_cancel_left came]

def multiplying : Blueprint Stock where
  pipeline := ⟨"line", "", [], false, "factorial_calc", []⟩
  registry := Stock.registry
  params := []
  environment := .empty

def spoiled : List Parcel :=
  [(Parcel.ofText "one").setAttr "x" (.int 1), (Parcel.ofText "two").setAttr "x" (.int (-1))]

def sound : List Parcel := [(Parcel.ofText "three").setAttr "x" (.int 1)]

theorem spoiled_pump_leaves_result : ∃ g mid after left new results,
    multiplying.build.1 = .ok g ∧ Untaken g mid left ∧ left ≠ [] ∧
      (pump 6 sound).start mid = some (.ok results, after) ∧
        after.collected = mid.collected ++ new ∧ results = (left ++ new).map after.store.read := by
  have runs : multiplying.passes (fun g => (pump 6 spoiled).fails g fun mid => g.collected.isEmpty &&
      !mid.collected.isEmpty && (pump 6 sound).succeeds mid fun _ _ => true) = true := by decide +kernel
  obtain ⟨g, built, runs⟩ := Blueprint.of_passes runs
  obtain ⟨e, mid, failed, runs⟩ := Run.of_fails runs
  simp only [Bool.and_eq_true, Bool.not_eq_true', List.isEmpty_iff] at runs
  obtain ⟨⟨none, some⟩, runs⟩ := runs
  obtain ⟨results, after, ran, -⟩ := Run.of_succeeds runs
  have untaken : Untaken g mid ([] ++ mid.collected) := .failed .start failed (by rw [none]; rfl)
  obtain ⟨new, came, results⟩ := (pump_takes_untaken built untaken.leads ran).2 _ untaken
  refine ⟨g, mid, after, _, new, _, built, untaken, fun empty => ?_, ran, came, results⟩
  rw [List.nil_append] at empty
  rw [empty] at some
  cases some

end Graph

end Sluice
