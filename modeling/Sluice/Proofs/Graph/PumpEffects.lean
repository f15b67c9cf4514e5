import Sluice.Proofs.Assembly.Trials
import Sluice.Proofs.Assembly.Exits
import Sluice.Proofs.Graph.PumpSink
import Sluice.Proofs.Graph.TapRuns

set_option autoImplicit false

namespace Sluice

open Stage (Heedless LawfulSinks)

variable {σ : Type}

namespace Tap

namespace Joins

variable [Stage σ] {tap : Tap} {x y : Option (Except EngineError Unit × Graph σ)}
  {sent result : Except EngineError Unit} {mid last : Graph σ}

theorem follows (joins : tap.Joins (fun _ => tap.Couples fun _ => False) (some (sent, mid)) y)
    (leads : tap.leads = true) (unopened : openings tap.sink mid.history = tap.opened) :
    ∃ last, y = some (sent, last) ∧ calls tap.sink mid.history = calls tap.sink last.history := by
  cases joins with
  | ahead follows => rw [leads] at follows; cases follows
  | spoilt spoilt => exact absurd unopened spoilt.opened
  | done couples => exact ⟨_, rfl, couples.calls⟩
  | failed couples => exact ⟨_, rfl, couples.calls⟩

theorem leads (joins : tap.Joins (fun _ => tap.Couples fun _ => False) x (some (result, last)))
    (follows : tap.leads = false) :
    ∃ sent mid, x = some (sent, mid) ∧ (openings tap.sink mid.history = tap.opened →
      sent = result ∧ calls tap.sink mid.history = calls tap.sink last.history) := by
  cases joins with
  | behind leads => rw [follows] at leads; cases leads
  | spoilt spoilt => exact ⟨_, _, rfl, fun unopened => absurd unopened spoilt.opened⟩
  | done couples => exact ⟨_, _, rfl, fun _ => ⟨rfl, couples.calls⟩⟩
  | failed couples => exact ⟨_, _, rfl, fun _ => ⟨rfl, couples.calls⟩⟩

end Joins

end Tap

namespace Graph

variable [Stage σ]

def tap (g : Graph σ) (leads : Bool) : Tap where
  sink := g.pumpSink
  opened := openings g.pumpSink g.history
  tanks id := (g.reads Stage.hasTank id).getD false
  leads

omit [Stage σ] in
def EndsAtExit (g : Graph σ) : Prop :=
  ∀ exit id node, g.exit = some exit → id = exit ∨ g.Inside exit id → g.node? id = some node →
    node.main = none

omit [Stage σ] in
theorem endsAtExit_of_all {g : Graph σ} (wired : g.Wired)
    (all : (g.exit.toList.flatMap fun exit => exitsBy g.nodes.size exit g.nodes).all
      fun id => ((g.node? id).bind Node.main).isNone) : g.EndsAtExit := by
  intro exit id node leaves inside found
  have member := (mem_exitsBy wired.descends (Nat.le_add_right _ _)
    (wired.exit_within_nodes leaves)).mpr inside
  have none := List.all_eq_true.mp all id
    (List.mem_flatMap.mpr ⟨exit, Option.mem_toList.mpr leaves, member⟩)
  simpa [found] using none

theorem tapped_couples {g : Graph σ} (resting : g.Resting) (wired : g.Wired)
    (running : g.shuttingDown = false) {exit : NodeId} (leaves : g.exit = some exit)
    (ends : g.EndsAtExit)
    {taken : List Handle} {node : Node σ} {s : Sink} (collects : g.Collects g.pumpSink taken node s)
    (leads : Bool) :
    (g.tap leads).Couples (fun _ => False)
      { g with nodes := linkMain exit (some g.pumpSink) g.nodes } g where
  nodes := by
    intro id other
    change Option.Rel _ (g.node? id) (linkMain exit (some g.pumpSink) g.nodes)[id]?
    cases found : g.node? id with
    | none =>
      have absent : (linkMain exit (some g.pumpSink) g.nodes)[id]? = none := by
        rw [linkMain, linkMainBy_getElem?, ← node?, found, Option.map_none]
      rw [absent]
      exact .none
    | some node =>
      obtain ⟨linked, left⟩ := linkMain_node? g wired.descends (wired.exit_within_nodes leaves)
        (some g.pumpSink) found
      -- The sink comes only where nothing followed.
      by_cases there : id = exit ∨ g.Inside exit id
      · rw [linked there]
        exact .some ⟨rfl, .inr ⟨rfl, ends exit id node leaves there found⟩⟩
      · rw [left there]
        exact .some ⟨rfl, .inl rfl⟩
  apart := wired.apart.leads
  root := rfl
  within := wired.apart.root
  environment := rfl
  calm := by
    refine ⟨running, fun id node found => ?_⟩
    obtain ⟨before, main, was, rfl⟩ := linkMainBy_main _ found
    exact (resting.idle id before was).2
  running := running
  store := ⟨rfl, fun _ => rfl, fun _ _ => rfl⟩
  calls := rfl
  opened := rfl
  tanks := by
    intro id node s _ found stage
    simp [tap, reads, found, Node.state?, stage]
  sink := by
    have found := (linkMain_node? g wired.descends (wired.exit_within_nodes leaves)
      (some g.pumpSink) collects.found).2 (wired.sink_outside leaves)
    have phase := ((resting.orderly.nodes _ node collects.found).waking running).1
    exact ⟨node, s, found,
      { collects with ongoing := by rw [phase]; decide }, (resting.idle _ node collects.found).1⟩

theorem takeResults_start (g : Graph σ) :
    ∃ results after, takeResults.start g = some (.ok results, after) ∧
      after.history = g.history := by
  rw [takeResults_eq]
  split
  · exact ⟨_, _, rfl, rfl⟩
  · exact ⟨_, _, rfl, rfl⟩

theorem pump_start {g : Graph σ} {exit : NodeId} (leaves : g.exit = some exit) (depth : Nat)
    (parcels : List Parcel) :
    match (sendAll depth parcels).start
      { g with nodes := linkMain exit (some g.pumpSink) g.nodes } with
    | none => (pump depth parcels).start g = none
    | some (sent, mid) => ∃ result after, (pump depth parcels).start g = some (result, after) ∧
        result.map (fun _ => ()) = sent ∧ after.history = mid.history := by
  rw [pump_attached leaves, Run.start_bind, Run.attempt_start]
  cases (sendAll depth parcels).start
      { g with nodes := linkMain exit (some g.pumpSink) g.nodes } with
  | none => rfl
  | some ended =>
    obtain ⟨sent, mid⟩ := ended
    cases sent with
    -- The results stay in the sink then.
    | error e => exact ⟨_, _, rfl, rfl, rfl⟩
    | ok _ =>
      obtain ⟨results, after, taken, history⟩ := takeResults_start
        { mid with nodes := linkMain exit ((g.node? exit).bind Node.main) mid.nodes }
      exact ⟨.ok results, after, taken, rfl, history⟩

section

variable [LawfulSinks σ] [Heedless σ]

/-- In a graph that ends at its exit a pump ends as sending the parcels does, with the same calls of
the same stages. Only the pump sink can make a difference, by opening a message. -/
theorem pump_only_observes {b : Blueprint σ} {g before : Graph σ} (built : b.build.1 = .ok g)
    (leads : g.Leads before) (running : before.shuttingDown = false) (ends : before.EndsAtExit)
    (parcels : List Parcel) :
    (∀ depth result after, (pump depth parcels).start before = some (result, after) →
      openings before.pumpSink after.history = openings before.pumpSink before.history →
        ∃ last, (sendAll depth parcels).start before = some (result.map fun _ => (), last) ∧
          calls before.pumpSink after.history = calls before.pumpSink last.history) ∧
    (∀ depth result last, (sendAll depth parcels).start before = some (result, last) →
      ∃ answer after, (pump (depth + 1) parcels).start before = some (answer, after) ∧
        (openings before.pumpSink after.history = openings before.pumpSink before.history →
          answer.map (fun _ => ()) = result ∧
            calls before.pumpSink after.history = calls before.pumpSink last.history)) := by
  have resting := b.build_resting built
  have wired := b.build_wired built
  have ⟨rested, lasts⟩ := leads.rested resting
  obtain ⟨exit, leaves⟩ := b.build_exit built
  have exits := lasts.exit.trans leaves
  obtain ⟨left, untaken⟩ := leads.untaken resting
  obtain ⟨taken, node, s, collects, -⟩ :=
    untaken.collects resting wired leaves (build_collects built) rfl
  have couples := tapped_couples rested (leads.wired resting wired) running exits ends
    (collects.sink.symm ▸ collects)
  refine ⟨fun depth result after ran unopened => ?_, fun depth result last ran => ?_⟩
  -- What comes to the pump sink takes one level of calls more than sending does: where the pump
  -- ends sending ends, and where sending ends the pump does one level further down.
  · have joins : (before.tap true).Joins _ ((sendAll depth parcels).start _) _ :=
      Tap.sendAll_runs (couples true) depth parcels
    have pumped := pump_start exits depth parcels
    cases sends : (sendAll depth parcels).start
        { before with nodes := linkMain exit (some before.pumpSink) before.nodes } with
    | none =>
      rw [sends] at pumped
      rw [pumped] at ran
      cases ran
    | some ended =>
      obtain ⟨sent, mid⟩ := ended
      rw [sends] at pumped joins
      obtain ⟨_, _, same, rfl, history⟩ := pumped
      cases same.symm.trans ran
      rw [history] at unopened ⊢
      exact joins.follows rfl unopened
  · have joins : (before.tap false).Joins _ ((sendAll (depth + 1) parcels).start _) _ :=
      Tap.sendAll_runs (couples false) depth parcels
    have pumped := pump_start exits (depth + 1) parcels
    rw [ran] at joins
    obtain ⟨sent, mid, sends, same⟩ := joins.leads rfl
    rw [sends] at pumped
    obtain ⟨answer, after, pumps, rfl, history⟩ := pumped
    rw [← history] at same
    exact ⟨answer, after, pumps, same⟩

end

def one : List Parcel := [.ofText "one"]

def nesting : Blueprint Stock where
  pipeline := ⟨"line", "", [], false, "inner", []⟩
  registry := { Stock.registry with
    graphs := [("inner", ⟨"inner", "", [], false, "branch_ref (reverse_string) wrap", []⟩)] }
  params := []
  environment := .empty

theorem nested_pump_observes : ∃ g results after last, nesting.build.1 = .ok g ∧ g.EndsAtExit ∧
    (pump 8 one).start g = some (.ok results, after) ∧ results ≠ [] ∧
      (sendAll 8 one).start g = some (.ok (), last) ∧
        calls g.pumpSink after.history = calls g.pumpSink last.history := by
  have runs : nesting.passes (fun g => !g.shuttingDown &&
      (g.exit.toList.flatMap fun exit => exitsBy g.nodes.size exit g.nodes).all
        (fun id => ((g.node? id).bind Node.main).isNone) &&
          (pump 8 one).succeeds g fun results after => !results.isEmpty &&
            openings g.pumpSink after.history == openings g.pumpSink g.history) = true := by
    decide +kernel
  obtain ⟨g, built, runs⟩ := Blueprint.of_passes runs
  simp only [Bool.and_eq_true, Bool.not_eq_true'] at runs
  obtain ⟨⟨running, all⟩, runs⟩ := runs
  obtain ⟨results, after, ran, runs⟩ := Run.of_succeeds runs
  simp only [Bool.and_eq_true, Bool.not_eq_true', beq_iff_eq] at runs
  obtain ⟨some, unopened⟩ := runs
  have ends := endsAtExit_of_all (nesting.build_wired built) all
  obtain ⟨last, sends, same⟩ :=
    (pump_only_observes built .refl running ends one).1 8 _ after ran unopened
  refine ⟨g, results, after, last, built, ends, ran, fun none => ?_, sends, same⟩
  rw [none] at some
  cases some

/-- A loop through the exit: what comes there again is taken by the pump sink. -/
def revisiting : Blueprint Stock where
  pipeline := ⟨"line", "", [], false, "reverse_string wrap reverse_string", []⟩
  registry := Stock.registry
  params := []
  environment := .empty

def messaging : Blueprint Stock where
  pipeline := ⟨"line", "", [], false, "send_message:sink:go", []⟩
  registry := Stock.registry
  params := []
  environment := .empty

def outcomes (b : Blueprint Stock) : Option (Bool × Bool) :=
  match b.build.1 with
  | .error _ => none
  | .ok g =>
    match (pump 8 one).start g, (sendAll 8 one).start g with
    | some (pumped, _), some (sent, _) => some (pumped.toBool, sent.toBool)
    | _, _ => none

theorem outcomes_eq {b : Blueprint Stock} {pumps sends : Bool}
    (ended : outcomes b = some (pumps, sends)) : ∃ g pumped after sent last,
      b.build.1 = .ok g ∧ (pump 8 one).start g = some (pumped, after) ∧
        (sendAll 8 one).start g = some (sent, last) ∧ pumped.toBool = pumps ∧
          sent.toBool = sends := by
  unfold outcomes at ended
  split at ended
  next => cases ended
  next g built =>
    split at ended
    next pumped after sent last pumps' sends' =>
      cases ended
      exact ⟨g, pumped, after, sent, last, built, pumps', sends', rfl, rfl⟩
    next => cases ended

/-- A pump can succeed where sending fails, and fail where sending succeeds. -/
theorem pump_makes_difference :
    (∃ g pumped after sent last, revisiting.build.1 = .ok g ∧
      (pump 8 one).start g = some (pumped, after) ∧ (sendAll 8 one).start g = some (sent, last) ∧
        pumped.toBool = true ∧ sent.toBool = false) ∧
    ∃ g pumped after sent last, messaging.build.1 = .ok g ∧
      (pump 8 one).start g = some (pumped, after) ∧ (sendAll 8 one).start g = some (sent, last) ∧
        pumped.toBool = false ∧ sent.toBool = true :=
  ⟨outcomes_eq (by decide +kernel), outcomes_eq (by decide +kernel)⟩

end Graph

end Sluice
