import Sluice.Proofs.Assembly.Trials
import Sluice.Proofs.Graph.Operations
import Sluice.Proofs.Graph.Sweep

set_option autoImplicit false

namespace Sluice

variable {σ : Type} [Stage σ]

namespace Traffic

variable {g : Graph σ} {id : NodeId} {node : Node σ}

theorem deliver_closed {s : σ} (depth : Nat) (packet : Packet) (found : g.node? id = some node)
    (stage : node.kind = .stage s) (closed : node.phase = .closed) :
    (perform (depth + 1) (.deliver id packet)).start g =
      some (.error (.routing (.stageClosed node.path)), g.remember (.refused id packet)) := by
  have opened : (perform (depth + 1) (.deliver id packet) : Run σ Unit) =
      deliver (perform depth) id packet := rfl
  rw [opened, deliver, Run.atNode_start found, stage]
  dsimp only
  unfold deliverToStage
  rw [if_pos closed]
  rfl

end Traffic

def Event.fails : Event σ → Bool
  | .failed _ _ _ => true
  | _ => false

omit [Stage σ] in
theorem Clean.of_any {history : List (Event σ)} (quiet : history.any Event.fails = false) :
    Clean history := by
  intro id hook e member
  exact absurd rfl (List.any_eq_false.mp quiet _ member)

omit [Stage σ] in
theorem Clean.unstuck {history : List (Event σ)} (clean : Clean history) {id : NodeId}
    {phase : Phase} : ¬Stuck id history phase := by
  cases phase with
  | flushing => exact fun ⟨e, member⟩ => clean id .flush e member
  | closing => exact fun ⟨e, member⟩ => clean id .close e member
  | _ => exact not_false

def Node.linked (node : Node σ) : List NodeId :=
  match node.kind with
  | .stage s => if Stage.feedsBack s then [] else node.main.toList
  | .fanOut => node.branch.toList ++ node.main.toList
  | .subGraph entry _ => entry.toList ++ node.main.toList

namespace Graph

/-- Nodes that are linked to the root, the main links of sub-graphs included. -/
inductive Linked (g : Graph σ) : NodeId → Prop
  | root : g.Linked g.root
  | next {id target : NodeId} {node : Node σ} (before : g.Linked id)
      (found : g.node? id = some node) (leads : target ∈ node.linked) : g.Linked target

/-- Nodes that are reached from the root. Nothing goes on from a stage that feeds back, and a
sub-graph leads to its entry only: what its main link points at is reached from its exit. -/
inductive Reachable (g : Graph σ) : NodeId → Prop
  | root : g.Reachable g.root
  | next {id target : NodeId} {node : Node σ} (before : g.Reachable id)
      (found : g.node? id = some node) (leads : target ∈ node.next) : g.Reachable target

inductive Outer where
  | send (p : Parcel)
  | message (m : Message)
  | shutdown

def Outer.run (depth : Nat) : Outer → Run σ Unit
  | .send p => Graph.send depth p
  | .message m => sendMessage depth m
  | .shutdown => Graph.shutdown depth

theorem Outer.run_rested (g : Graph σ) (depth : Nat) (outer : Outer) :
    Run.Keeps g.Rested (outer.run depth) := by
  cases outer with
  | send p => exact send_rested g depth p
  | message m => exact sendMessage_rested g depth m
  | shutdown => exact shutdown_rested g depth

theorem Outer.run_proceeds (g : Graph σ) (depth : Nat) (outer : Outer) :
    (outer.run depth).Ends g fun _ after => g.Proceeds after := by
  have sweep := Traffic.perform_sweeps (σ := σ) depth
  have follows {run : Run σ Unit} {mid : Graph σ} (before : g.Proceeds mid)
      (follows : (sweeping σ).Follows run mid) : run.Ends mid fun _ after => g.Proceeds after :=
    follows.mono fun _ _ ⟨⟨_, proceeds⟩, _⟩ => before.trans proceeds
  cases outer with
  | send p =>
    have added : g.Proceeds { g with store := (g.store.add p).2 } :=
      ⟨.store g _, fun _ => .of_same rfl rfl rfl⟩
    unfold run Graph.send
    rw [Run.ends_bind]
    exact follows added (sweep.deliver _)
  | message m => exact follows (.refl g) (sweep.deliver (.message m))
  | shutdown => exact follows (.refl g) (Traffic.shutdown_sweeps sweep.close g)

section

variable {g : Graph σ} (resting : g.Resting) (clean : Clean g.history)
include resting clean

omit [Stage σ] in
theorem Resting.closed {id : NodeId} {node : Node σ} (reached : g.Reached id)
    (found : g.node? id = some node) : node.phase = .closed := by
  have ⟨idle, kept⟩ := resting.idle id node found
  rcases reached node found with begun | deferred
  · rcases (resting.orderly.nodes id node found).stuck idle with running | closed | stuck
    · exact absurd running begun
    · exact closed
    · exact absurd stuck clean.unstuck
  · rw [kept] at deferred
    cases deferred

theorem Resting.reachable (swept : g.Swept fun _ => False) (root : g.Reached g.root) {id : NodeId}
    (reachable : g.Reachable id) : g.Reached id := by
  induction reachable with
  | root => exact root
  | next _ found leads ih =>
    exact (swept _ _ found (resting.closed clean ih found) _ leads).resolve_right not_false

end

omit [Stage σ] in
theorem entry_kind {g : Graph σ} {entry : NodeId} (enters : g.entry = some entry) :
    ∃ root exit, g.node? g.root = some root ∧ root.kind = .subGraph (some entry) exit := by
  obtain ⟨root, found, leads⟩ := Option.bind_eq_some_iff.mp enters
  unfold Node.entry at leads
  split at leads
  next kind => exact ⟨root, _, found, leads ▸ kind⟩
  next => cases leads

theorem send_closed {g : Graph σ} {entry : NodeId} {node : Node σ} {s : σ}
    (enters : g.entry = some entry) (found : g.node? entry = some node)
    (stage : node.kind = .stage s) (closed : node.phase = .closed) (depth : Nat) (p : Parcel) :
    (Graph.send (depth + 2) p).start g = some (.error (.routing (.stageClosed node.path)),
      { g with store := (g.store.add p).2 }.remember (.refused entry (.parcel (g.store.add p).1))) := by
  obtain ⟨root, _, there, kind⟩ := entry_kind enters
  have opened : (Graph.send (depth + 2) p).start g =
      (Traffic.deliver (Traffic.perform (depth + 1)) g.root (.parcel (g.store.add p).1)).start
        { g with store := (g.store.add p).2 } := rfl
  have there : ({ g with store := (g.store.add p).2 } : Graph σ).node? g.root = some root := there
  rw [opened, Traffic.deliver, Run.atNode_start there, kind]
  exact Traffic.deliver_closed depth (.parcel (g.store.add p).1) found stage closed

/-- The call that shutdown is first requested in closes every node that is reached from the root,
each stage with one call to flush and then one to close it, and no parcel gets in after that. -/
theorem shutdown_closes_reachable {b : Blueprint σ} {g before after : Graph σ} {depth : Nat}
    {outer : Outer} {result : Except EngineError Unit} (built : b.build.1 = .ok g)
    (leads : g.Leads before) (ran : (outer.run depth).start before = some (result, after))
    (running : before.shuttingDown = false) (requested : after.shuttingDown = true)
    (clean : Clean after.history) :
    (∀ id node, after.Reachable id → after.node? id = some node → node.phase = .closed ∧
      ∀ s, node.kind = .stage s → lastCalls id after.history = [.close, .flush]) ∧
    ∀ later, after.Leads later → ∀ entry node s, later.entry = some entry →
      later.node? entry = some node → node.kind = .stage s → ∀ depth p,
        (send (depth + 2) p).start later = some (.error (.routing (.stageClosed node.path)),
          { later with store := (later.store.add p).2 }.remember
            (.refused entry (.parcel (later.store.add p).1))) := by
  have ⟨rested, _⟩ := leads.rested (b.build_resting built)
  have ⟨resting, _⟩ := (outer.run_rested before depth before ⟨rested, .refl before⟩).of_start ran
  have sweeps := ((outer.run_proceeds before depth).of_start ran).2 clean
  -- Before the request nothing has been closed, so that there was nothing to go on from.
  have unclosed : before.Swept fun _ => False := by
    intro id node found closed
    rw [(rested.orderly.waking running found).1] at closed
    cases closed
  have swept : after.Swept fun _ => False :=
    (sweeps.swept _ unclosed).mono fun _ left => left.resolve_left nofun
  have root : after.Reached after.root := by
    rcases sweeps.requested requested with already | reached
    · rw [running] at already
      cases already
    · exact sweeps.root ▸ reached
  have closed {id : NodeId} {node : Node σ} (reachable : after.Reachable id)
      (found : after.node? id = some node) : node.phase = .closed :=
    resting.closed clean (resting.reachable clean swept root reachable) found
  refine ⟨fun id node reachable found => ⟨closed reachable found, fun s stage => ?_⟩, ?_⟩
  · rw [(resting.orderly.nodes id node found).calls s stage, closed reachable found]
    rfl
  intro later leads entry node s enters found stage depth p
  have ⟨_, lasts⟩ := leads.rested resting
  refine send_closed enters found stage (Phase.closed_of_rank ?_) depth p
  -- The entry is the same as when shutdown ended, and was reached then.
  have reachable : after.Reachable entry := by
    obtain ⟨last, exit, there, kind⟩ := entry_kind enters
    obtain ⟨root, was, lasted⟩ := lasts.node_before (lasts.root ▸ there)
    have shape := lasted.shape.symm
    rw [kind] at shape
    refine .next .root was ?_
    cases kind : root.kind with
    | subGraph enter _ =>
      rw [kind] at shape
      obtain rfl := (NodeKind.subGraph.inj shape).1
      simp [Node.next, kind]
    | _ => rw [kind] at shape; cases shape
  obtain ⟨first, was, lasted⟩ := lasts.node_before found
  exact closed reachable was ▸ lasted.phase

end Graph

inductive Halting where
  | halting

instance : Stage Halting where
  accept _ _ h := do
    Program.shutdown
    Program.forward h .main
  ofSink _ := .halting
  toSink? _ := none

namespace Graph

def halting : Blueprint Halting where
  pipeline := ⟨"line", "", [], false, "halt_a halt_b", []⟩
  registry := ⟨[("halt", .make "halt" "" [] [] .halting)], [], []⟩
  params := []
  environment := .empty

theorem halting_closes_reachable : ∃ g after, halting.build.1 = .ok g ∧
    ((Outer.send (.ofText "one")).run 7).start g = some (.ok (), after) ∧
      g.shuttingDown = false ∧ after.shuttingDown = true ∧ Clean after.history ∧
        ∀ id node, after.Reachable id → after.node? id = some node → node.phase = .closed := by
  have runs : halting.passes (fun g => ((Outer.send (.ofText "one")).run 7).succeeds g fun _ after =>
      !g.shuttingDown && after.shuttingDown && !after.history.any Event.fails) = true := by decide +kernel
  obtain ⟨g, built, runs⟩ := Blueprint.of_passes runs
  obtain ⟨_, after, ran, runs⟩ := Run.of_succeeds runs
  simp only [Bool.and_eq_true, Bool.not_eq_true'] at runs
  obtain ⟨⟨running, requested⟩, quiet⟩ := runs
  have clean := Clean.of_any quiet
  have closed := (shutdown_closes_reachable built .refl ran running requested clean).1
  exact ⟨g, after, built, ran, running, requested, clean, fun id node reachable found =>
    (closed id node reachable found).1⟩

def fedSub : Blueprint Stock where
  pipeline := ⟨"line", "", [], false, "sub sink", []⟩
  registry := { Stock.registry with
    graphs := [("sub", ⟨"sub", "", [], false, "tank_feed tank_queue", []⟩)] }
  params := []
  environment := .empty

/-- What follows a sub-graph stays open if closing does not get to the exit of the sub-graph. -/
theorem linked_behind_sub_graph_runs_on : ∃ g after, fedSub.build.1 = .ok g ∧
    (Outer.shutdown.run 7).start g = some (.ok (), after) ∧ g.shuttingDown = false ∧
      after.shuttingDown = true ∧ Clean after.history ∧
        ∃ id node, after.Linked id ∧ after.node? id = some node ∧ node.phase = .running := by
  have runs : fedSub.passes (fun g => (Outer.shutdown.run 7).succeeds g fun _ after =>
      !g.shuttingDown && after.shuttingDown && !after.history.any Event.fails &&
        decide (after.root = 0) && (after.node? 0).any (fun root => root.linked.contains 1) &&
          (after.node? 1).any (fun sub => sub.linked.contains 2) &&
            (after.node? 2).any (fun node => decide (node.phase = .running))) = true := by
    decide +kernel
  obtain ⟨g, built, runs⟩ := Blueprint.of_passes runs
  obtain ⟨_, after, ran, runs⟩ := Run.of_succeeds runs
  simp only [Bool.and_eq_true, Bool.not_eq_true', decide_eq_true_eq] at runs
  obtain ⟨⟨⟨⟨⟨⟨running, requested⟩, quiet⟩, root⟩, toSub⟩, toSink⟩, open'⟩ := runs
  obtain ⟨first, there, leads⟩ := (Option.any_eq_true _ _).mp toSub
  obtain ⟨sub, found, onward⟩ := (Option.any_eq_true _ _).mp toSink
  obtain ⟨node, last, open'⟩ := (Option.any_eq_true _ _).mp open'
  have start : after.Linked 0 := root ▸ .root
  have linked : after.Linked 2 :=
    .next (.next start there (by simpa using leads)) found (by simpa using onward)
  exact ⟨g, after, built, ran, running, requested, Clean.of_any quiet, 2, node, linked, last,
    of_decide_eq_true open'⟩

end Graph

end Sluice
