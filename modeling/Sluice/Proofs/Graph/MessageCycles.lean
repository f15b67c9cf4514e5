import Mathlib.Data.Finset.Card
import Sluice.Proofs.Assembly.Trials
import Sluice.Proofs.Graph.Sessions
import Sluice.Proofs.Graph.Shutdown
import Sluice.Proofs.Graph.EndlessCalls
import Sluice.Proofs.Stage.Laws

set_option autoImplicit false

namespace Sluice

open Stage (LawfulFeeders)

variable {σ : Type} [Stage σ]

theorem Node.next_of_fixed {before node : Node σ} (fixed : node.fixed = before.fixed)
    (feeds : (node.state?).any Stage.feedsBack = (before.state?).any Stage.feedsBack) :
    node.next = before.next := by
  have main := main_of_fixed fixed
  have branch : node.branch = before.branch := congrArg (fun node : Node Unit => node.branch) fixed
  have shape := shape_of_fixed fixed
  unfold state? at feeds
  unfold next
  rw [main, branch]
  cases kind : node.kind with
  | stage s =>
    obtain ⟨t, stage⟩ := NodeKind.stage_of_shape shape.symm kind
    rw [kind, stage] at feeds
    rw [stage]
    simpa using congrArg (fun feeds => if feeds = true then [] else before.main.toList) feeds
  | _ =>
    rw [kind] at shape
    cases other : before.kind <;> rw [other] at shape <;> cases shape <;> rfl

namespace Graph

variable {g mid after : Graph σ} {id : NodeId}

omit [Stage σ] in
theorem Advances.fixed (advances : g.Advances after) (id : NodeId) :
    (after.node? id).map Node.fixed = (g.node? id).map Node.fixed := by
  have node := advances.nodes id not_false
  generalize g.node? id = x, after.node? id = y at node ⊢
  cases node with
  | none => rfl
  | some moved => exact congrArg some moved.fixed

omit [Stage σ] in
theorem defer_fixed (g : Graph σ) (id : NodeId) (closeDeferred : Bool) (other : NodeId) :
    ((g.defer id closeDeferred).node? other).map Node.fixed = (g.node? other).map Node.fixed := by
  rw [defer, node?_updateNode]
  split
  · rw [Option.map_map]
    rfl
  · rfl

structure Carries (g after : Graph σ) : Prop where
  orderly : after.Orderly
  fixed : ∀ id, (after.node? id).map Node.fixed = (g.node? id).map Node.fixed
  feeders : ∀ id, after.feedsBack id = g.feedsBack id

theorem Carries.node (carries : g.Carries after) {node : Node σ}
    (found : after.node? id = some node) :
    ∃ before, g.node? id = some before ∧ node.fixed = before.fixed ∧ node.next = before.next := by
  have fixed := carries.fixed id
  rw [found] at fixed
  obtain ⟨before, was, same⟩ := Option.map_eq_some_iff.mp fixed.symm
  refine ⟨before, was, same.symm, Node.next_of_fixed same.symm ?_⟩
  have feeds := carries.feeders id
  unfold Graph.feedsBack at feeds
  rwa [found, was] at feeds

end Graph

namespace Traffic

variable {g : Graph σ} {id : NodeId}

theorem meet_ends (orderly : g.Orderly) (opened : g.Open id) (depth : Nat) (node : Node σ)
    (m : Message) : (meet (perform depth) id node m).Ends g fun result after =>
      after.Orderly ∧ g.Advances (after.defer id false) ∧
        (result = .ok false → after.feedsBack id = false) := by
  have serves : (lifecycle σ).Serves (perform depth) :=
    lifecycle_serves fun call orderly fits => perform_orderly depth call orderly fits
  obtain ⟨acts, held, ready⟩ := lifecycle_lawful.enter orderly trivial opened
  unfold meet
  rw [Run.ends_holding]
  refine (lifecycle_lawful.shown serves held acts ready node m).mono
    fun result after ⟨⟨allows, _⟩, onward⟩ => ?_
  have ⟨orderly, during⟩ := lifecycle_lawful.leave orderly trivial opened allows
  refine ⟨orderly, during, fun ends => ?_⟩
  obtain ⟨last, s, there, stage, -⟩ := opened.leaves opened.choose_spec.choose_spec.1 allows.2
  unfold Graph.feedsBack
  rw [Graph.node?_mark there]
  simpa [Node.state?, stage] using onward ends last s there stage

end Traffic

namespace Graph

variable {g mid after : Graph σ} {id : NodeId} {m : Message}

/-- The graphs that a message meets with: the one that it is sent into, and what showing it to a
stage or taking it to a node makes of another. -/
inductive Meets (m : Message) (g : Graph σ) : Graph σ → Prop
  | sent : Meets m g g
  | shown {mid after : Graph σ} {id : NodeId} {node : Node σ} {depth : Nat}
      {result : Except EngineError Bool} (before : Meets m g mid) (opened : mid.Open id)
      (found : mid.node? id = some node)
      (ran : (Traffic.meet (Traffic.perform depth) id node m).start mid = some (result, after)) :
      Meets m g after
  | taken {mid after : Graph σ} {id : NodeId} {depth : Nat} {result : Except EngineError Unit}
      (before : Meets m g mid) (ran : (Traffic.perform depth (.deliver id (.message m))).start mid =
        some (result, after)) : Meets m g after

theorem Meets.kept {own : NodeId → Prop} {keeps : NodeId → σ → Prop} {inv : Graph σ → Prop}
    (guards : Traffic.Guards own (fun _ => True) keeps inv) (meets : Meets m g after)
    (holds : inv g) : inv after := by
  induction meets with
  | sent => exact holds
  | @shown mid after id node depth result before opened found ran ih =>
    have serves (call : Call) (_ : True) := guards.perform depth call trivial
    exact (guards.meet serves trivial node m mid ih).of_start ran
  | @taken mid after id depth result before ran ih =>
    exact (guards.perform depth (.deliver id (.message m)) trivial mid ih).of_start ran

theorem Meets.carries [LawfulFeeders σ] (meets : Meets m g after) (orderly : g.Orderly) :
    g.Carries after := by
  have feeders := meets.kept (Traffic.reading_guards Stage.feedsBack LawfulFeeders.obeys g)
    fun _ => rfl
  suffices kept : after.Orderly ∧
      ∀ id, (after.node? id).map Node.fixed = (g.node? id).map Node.fixed from
    ⟨kept.1, kept.2, fun id => by rw [feedsBack_eq, feedsBack_eq, feeders]⟩
  clear feeders
  -- A close that is put off meanwhile changes neither kinds nor links.
  induction meets with
  | sent => exact ⟨orderly, fun _ => rfl⟩
  | @shown mid after id node depth result before opened found ran ih =>
    have ⟨last, advances, _⟩ := (Traffic.meet_ends ih.1 opened depth node m).of_start ran
    exact ⟨last, fun other => by rw [← defer_fixed, advances.fixed, ih.2]⟩
  | @taken mid after id depth result before ran ih =>
    have ⟨⟨last, advances⟩, _⟩ := (Traffic.perform_orderly depth (.deliver id (.message m))
      ih.1 trivial).of_start ran
    exact ⟨last, fun other => (advances.fixed other).trans (ih.2 other)⟩

/-- The nodes that a message comes to, each with the graph as it is then. Past a fan-out it comes
to the main successor when it has been through the branch, and past a stage when that has been
shown it. -/
inductive Visits (m : Message) (g : Graph σ) : NodeId → Graph σ → Prop
  | sent : Visits m g g.root g
  | inside {mid : Graph σ} {id target : NodeId} {exit : Option NodeId} {node : Node σ}
      (before : Visits m g id mid) (found : mid.node? id = some node)
      (kind : node.kind = .subGraph (some target) exit) : Visits m g target mid
  | branch {mid : Graph σ} {id target : NodeId} {node : Node σ} (before : Visits m g id mid)
      (found : mid.node? id = some node) (kind : node.kind = .fanOut)
      (leads : node.branch = some target) : Visits m g target mid
  | rejoined {mid after : Graph σ} {id target : NodeId} {node : Node σ} {depth : Nat}
      (before : Visits m g id mid) (found : mid.node? id = some node) (kind : node.kind = .fanOut)
      (ran : (Traffic.onward (Traffic.perform depth) node.branch (.deliver · (.message m))).start
        mid = some (.ok (), after)) (leads : node.main = some target) : Visits m g target after
  | passed {mid after : Graph σ} {id target : NodeId} {node : Node σ} {depth : Nat}
      (before : Visits m g id mid) (opened : mid.Open id) (found : mid.node? id = some node)
      (ran : (Traffic.meet (Traffic.perform depth) id node m).start mid = some (.ok false, after))
      (leads : node.main = some target) : Visits m g target after

theorem Visits.meets (visits : Visits m g id mid) : Meets m g mid := by
  induction visits with
  | sent => exact .sent
  | inside _ _ _ ih => exact ih
  | branch _ _ _ _ ih => exact ih
  | @rejoined mid after id target node depth before found kind ran leads ih =>
    cases branch : node.branch with
    | none =>
      rw [branch] at ran
      cases ran
      exact ih
    | some next =>
      rw [branch] at ran
      exact ih.taken ran
  | passed _ opened found ran _ ih => exact ih.shown opened found ran

/-- A stage that a message comes to and is for, if it makes further calls when it opens the
message, returns from that; and so does a close that has been put off meanwhile. -/
structure Answers (m : Message) (g : Graph σ) : Prop where
  opens : ∀ mid id node s, Visits m g id mid → mid.Open id → mid.node? id = some node →
    node.kind = .stage s → node.answersTo m.destination = true →
      ¬Traffic.Quietly m (Stage.notice m s).1 →
        Run.Returns (fun depth => Traffic.meet (Traffic.perform depth) id node m) mid
          fun _ _ => True
  closes : ∀ mid after id node depth result, Visits m g id mid → mid.Open id →
    mid.node? id = some node →
      (Traffic.pass (Traffic.perform depth) id node m).start mid = some (result, after) →
        (after.node? id).any Node.closeDeferred = true →
          Run.Returns (fun depth => Traffic.perform depth (.close id)) (after.defer id false)
            fun _ _ => True

end Graph

namespace Graph

theorem Downstream.of_next {g : Graph σ} {id target last : NodeId} {node : Node σ}
    (found : g.node? id = some node) (leads : target ∈ node.next)
    (downstream : g.Downstream target last) : g.Downstream id last := by
  induction downstream with
  | next there further => exact .onward (.next found leads) there further
  | onward _ there further ih => exact ih.onward there further

open Classical in
noncomputable def reach (g : Graph σ) (id : NodeId) : Finset NodeId :=
  (Finset.range g.nodes.size).filter (g.Downstream id)

theorem mem_reach {g : Graph σ} {id last : NodeId} :
    last ∈ g.reach id ↔ last ∈ Finset.range g.nodes.size ∧ g.Downstream id last := by
  classical exact Finset.mem_filter

theorem reach_ssubset {g : Graph σ} {id target : NodeId} {node : Node σ}
    (found : g.node? id = some node) (leads : target ∈ node.next)
    (within : target ∈ Finset.range g.nodes.size) (once : ¬g.Downstream target target) :
    g.reach target ⊂ g.reach id := by
  refine Finset.ssubset_iff.mpr ⟨target, fun member => once (mem_reach.mp member).2, ?_⟩
  refine Finset.insert_subset (mem_reach.mpr ⟨within, .next found leads⟩) fun last member => ?_
  obtain ⟨there, downstream⟩ := mem_reach.mp member
  exact mem_reach.mpr ⟨there, downstream.of_next found leads⟩

end Graph

namespace Traffic

open Sluice.Graph (Visits Answers)
open Run (Returns)

variable [LawfulFeeders σ] {before mid : Graph σ} {id : NodeId} {m : Message}

theorem pass_returns (orderly : before.Orderly) (answers : Answers m before)
    (visits : Visits m before id mid) (opened : mid.Open id) {node : Node σ} {s : σ}
    (found : mid.node? id = some node) (stage : node.kind = .stage s)
    (takes : ∀ target ∈ node.next, ∀ mid, Visits m before target mid →
      Returns (fun depth => perform depth (.deliver target (.message m))) mid fun _ _ => True) :
    Returns (fun depth => pass (perform depth) id node m) mid fun _ _ => True := by
  have shows : Returns (fun depth => meet (perform depth) id node m) mid fun _ _ => True := by
    by_cases quiet : node.answersTo m.destination = true → Quietly m (Stage.notice m s).1
    · exact meet_returns perform found stage quiet
    · obtain ⟨answersTo, loud⟩ := Classical.not_imp.mp quiet
      exact answers.opens mid id node s visits opened found stage answersTo loud
  have carries := visits.meets.carries orderly
  have passes := shows.started.and_ends fun depth => meet_ends carries.orderly opened depth node m
  refine .bind (passes.mono fun result after ⟨⟨_, depth, ran⟩, _, _, ends⟩ => ?_)
  cases result with
  | error e => trivial
  | ok ended =>
    cases ended with
    | true => exact .pure trivial
    | false =>
      refine onward_returns (fun _ => trivial) fun target leads => ?_
      refine takes target ?_ after (visits.passed opened found ran leads)
      -- It is not a feeder at the end, so that it was none before.
      have last := visits.meets.shown opened found ran
      have feeds : mid.feedsBack id = false := by
        rw [carries.feeders, ← (last.carries orderly).feeders]
        exact ends rfl
      rw [Graph.feedsBack, found] at feeds
      simp_all [Node.state?, Node.next]

theorem deliver_returns (orderly : before.Orderly) (answers : Answers m before)
    (visits : Visits m before id mid) {node : Node σ} (found : mid.node? id = some node)
    (takes : ∀ target ∈ node.next, ∀ mid, Visits m before target mid →
      Returns (fun depth => perform depth (.deliver target (.message m))) mid fun _ _ => True) :
    Returns (fun depth => deliver (perform depth) id (.message m)) mid fun _ _ => True := by
  refine .atNode (fun _ => trivial) fun other same => ?_
  obtain rfl : node = other := Option.some.inj (found.symm.trans same)
  cases kind : node.kind with
  | subGraph entry exit =>
    refine onward_returns (fun _ => trivial) fun target leads => ?_
    subst leads
    exact takes target (by simp [Node.next, kind]) mid (visits.inside found kind)
  | fanOut =>
    have branches : Returns (fun depth => onward (perform depth) node.branch
        (.deliver · (.message m))) mid fun _ _ => True :=
      onward_returns (fun _ => trivial) fun target leads =>
        takes target (by simp [Node.next, kind, leads]) mid (visits.branch found kind leads)
    -- The main link is taken only when the branch returned.
    refine .bind (branches.started.mono fun result after started => ?_)
    obtain ⟨-, depth, ran⟩ := started
    cases result with
    | error e => trivial
    | ok _ =>
      refine onward_returns (fun _ => trivial) fun target leads => ?_
      exact takes target (by simp [Node.next, kind, leads]) after
        (visits.rejoined found kind ran leads)
  | stage s =>
    dsimp only
    unfold deliverToStage
    split
    · exact .update_bind (.throw trivial)
    next ongoing =>
      split
      · refine .graph_bind ?_
        split
        · exact .update trivial
        · exact .throw trivial
      next idle =>
        have opened : mid.Open id := ⟨node, s, found, kind, by simpa using idle, ongoing⟩
        have passes := (pass_returns orderly answers visits opened found kind takes).started
        refine .bind (.attempt (passes.mono fun result after started => ?_))
        obtain ⟨-, depth, ran⟩ := started
        exact settle_returns (fun _ => trivial) fun deferred =>
          (answers.closes mid after id node depth result visits opened found ran deferred).mono
            fun _ _ _ => trivial

end Traffic

namespace Graph

variable [LawfulFeeders σ] {before mid : Graph σ} {id : NodeId} {m : Message}

theorem Answers.perform_returns (answers : Answers m before) (orderly : before.Orderly)
    (once : ∀ id, before.Downstream before.root id → ¬before.Downstream id id)
    (within : id = before.root ∨ before.Downstream before.root id)
    (visits : Visits m before id mid) :
    Run.Returns (fun depth => Traffic.perform depth (.deliver id (.message m))) mid
      fun _ _ => True := by
  -- There is less to reach from each node that it is taken to.
  induction reached : before.reach id using Finset.lt_wf.induction generalizing id mid with
  | _ nodes ih =>
    subst reached
    refine Traffic.perform_returns ?_
    cases found : mid.node? id with
    | none => exact .atNode (fun _ => trivial) fun node there => by rw [found] at there; cases there
    | some node =>
      obtain ⟨first, was, -, next⟩ := (visits.meets.carries orderly).node found
      refine Traffic.deliver_returns orderly answers visits found fun target leads mid visits => ?_
      rw [next] at leads
      have downstream : before.Downstream before.root target := by
        rcases within with rfl | within
        · exact .next was leads
        · exact within.onward was leads
      by_cases inside : target ∈ Finset.range before.nodes.size
      · exact ih _ (reach_ssubset was leads inside (once target downstream)) (.inr downstream)
          visits rfl
      · refine Traffic.perform_returns (.atNode (fun _ => trivial) fun node there => ?_)
        obtain ⟨_, was, -⟩ := (visits.meets.carries orderly).node there
        exact absurd (Finset.mem_range.mpr (Array.getElem?_eq_some_iff.mp was).1) inside

end Graph

namespace Stock

theorem quietly {s : Stock} (untanked : s.role ≠ .tankQueue) (m : Message) :
    Traffic.Quietly m s where
  onMessage := by
    intro here
    change (s.onMessage here m).Quiet
    unfold Stock.onMessage
    split
    next s =>
      refine .mapState ?_
      unfold SeqPacket.onMessage
      split
      · exact .become trivial
      · exact trivial
    next => exact trivial
  reconfigure := by
    intro here params changed
    change (s.reconfigure here params changed).Quiet
    unfold Stock.reconfigure
    split
    next s =>
      refine .mapState (.bind (.become trivial) fun _ => ?_)
      refine .bind (.ofConfig (fun _ => trivial) _) fun _ => ?_
      split
      · exact .become trivial
      · exact trivial
    next => exact absurd rfl untanked
    next =>
      exact .bind (.request rfl) fun t => .bind (.become trivial) fun _ =>
        .bind (.request rfl) fun _ => .ofConfig (fun _ => trivial) _

end Stock

namespace Graph

theorem Meets.followed {m : Message} {g after : Graph Stock} (meets : Meets m g after)
    (followed : Followed g) : Followed after := by
  have steady := Traffic.followed_steady
  induction meets with
  | sent => exact followed
  | @shown mid after id node depth result before opened found ran ih =>
    have keeps : Run.Keeps Followed (Traffic.meet (Traffic.perform depth) id node m) :=
      steady.holding <| .bind (steady.notice id m) fun _ =>
        .bind (steady.openMessage _ (steady.perform depth) id node m) fun _ =>
          .bind (.bind .graph fun _ => .pure _) fun _ => .pure _
    exact (keeps mid ih).of_start ran
  | @taken mid after id depth result before ran ih =>
    exact (steady.perform depth (.deliver id (.message m)) rfl mid ih).of_start ran

theorem answers_of_untanked {m : Message} {g : Graph Stock} (orderly : g.Orderly)
    (followed : Followed g) (untanked : ∀ id node, g.node? id = some node →
      node.answersTo m.destination = true → node.kind ≠ .stage .tankQueue) : Answers m g where
  opens := by
    intro mid id node s visits opened found stage answersTo loud
    have meets := visits.meets
    obtain ⟨first, was, fixed, -⟩ := (meets.carries orderly).node found
    have role : g.reads Stock.role id = some s.role := by
      rw [← meets.kept (Traffic.reading_guards Stock.role (fun here s => (s.obeys here).mono
        (fun _ _ => trivial) (fun _ same => same) fun _ _ => trivial) g) (fun _ => rfl) id]
      rw [reads, found]
      simp [Node.state?, stage]
    refine absurd (Stock.quietly ?_ m) loud
    have noticed : (Stage.notice m s).1.role = s.role := (s.obeys (node.here id)).notice m
    rw [noticed]
    intro tank
    have same : node.answersTo m.destination = first.answersTo m.destination :=
      congrArg (fun node : Node Unit => node.answersTo m.destination) fixed
    refine untanked id first was (same ▸ answersTo) ?_
    rw [tank, reads, was] at role
    obtain ⟨t, state, queue⟩ := Option.map_eq_some_iff.mp role
    rw [Stock.role_tankQueue queue] at state
    exact Node.kind_of_state state
  closes := by
    intro mid after id node depth result visits opened found ran deferred
    obtain ⟨last, there, deferred⟩ := (Option.any_eq_true _ _).mp deferred
    have passes := Traffic.followed_steady.pass (Traffic.followed_steady.perform depth) id node m
    have followed := (passes mid (visits.meets.followed followed)).of_start ran
    rw [followed.1.2 id last there] at deferred
    cases deferred

theorem Downstream.ascends {σ : Type} [Stage σ] {g : Graph σ} {id last : Nat}
    (ascends : ∀ id target : Nat, ∀ node, g.node? id = some node → target ∈ node.next → id < target)
    (downstream : g.Downstream id last) : id < last := by
  induction downstream with
  | next found leads => exact ascends _ _ _ found leads
  | onward _ found leads ih => exact Nat.lt_trans ih (ascends _ _ _ found leads)

section

variable [LawfulFeeders σ] {before : Graph σ} {m : Message}

/-- A message that is sent into a graph comes to rest if every loop is closed by a feeder, and if
the stages that it is for return from opening it, which is a question only where they make further
calls. -/
theorem message_comes_to_rest {b : Blueprint σ} {g : Graph σ} (built : b.build.1 = .ok g)
    (leads : g.Leads before)
    (once : ∀ id, before.Downstream before.root id → ¬before.Downstream id id)
    (answers : Answers m before) :
    ∃ depth result after, ∀ more, depth ≤ more →
      (sendMessage more m).start before = some (result, after) := by
  have ⟨resting, _⟩ := leads.rested (b.build_resting built)
  obtain ⟨depth, result, after, started, -⟩ :=
    answers.perform_returns resting.orderly once (.inl rfl) .sent
  exact ⟨depth, result, after, started⟩

end

def ascends (g : Graph Stock) : Bool := (List.range g.nodes.size).all fun id =>
  (g.node? id).all fun node => node.next.all fun target => decide (id < target)

theorem once_of_ascends {g : Graph Stock} (checked : g.ascends = true) (id : NodeId) :
    ¬g.Downstream id id := by
  refine fun loops => Nat.lt_irrefl id (loops.ascends fun id target node found leads => ?_)
  have within := (Array.getElem?_eq_some_iff.mp found).1
  have here := List.all_eq_true.mp checked id (List.mem_range.mpr within)
  rw [found, Option.all_some, List.all_eq_true] at here
  exact of_decide_eq_true (here target leads)

def fedRing : Blueprint Stock where
  pipeline := ⟨"line", "", [], false, "tank_queue wrap tank_feed tank_queue", []⟩
  registry := Stock.registry
  params := []
  environment := .empty

def rewrap : Message := ⟨"wrap", "reset", [.text "data_prefix", .text "<"], false⟩

theorem rewrap_comes_to_rest : ∃ g, fedRing.build.1 = .ok g ∧
    (∀ id, g.Downstream g.root id → ¬g.Downstream id id) ∧ Answers rewrap g ∧
      ∃ depth result after, ∀ more, depth ≤ more →
        (sendMessage more rewrap).start g = some (result, after) := by
  have runs : fedRing.passes (fun g => g.ascends && g.nodes.toList.all fun node =>
      !node.answersTo rewrap.destination || !node.state?.any Stock.hasTank) = true := by decide +kernel
  obtain ⟨g, built, runs⟩ := Blueprint.of_passes runs
  obtain ⟨ascends, untanked⟩ := (Bool.and_eq_true _ _).mp runs
  have once (id : NodeId) (_ : g.Downstream g.root id) := once_of_ascends ascends id
  have answers : Answers rewrap g := by
    refine answers_of_untanked (fedRing.build_resting built).orderly
      (fedRing.build_followed built) fun id node found answersTo tank => ?_
    have quiet := List.all_eq_true.mp untanked node (Array.mem_of_getElem? found).val
    simp [answersTo, tank, Node.state?, Stock.hasTank] at quiet
  exact ⟨g, built, once, answers, message_comes_to_rest built .refl once answers⟩

end Graph

namespace Traffic

variable {g : Graph σ} {id : NodeId} {node : Node σ} {s : σ} {m : Message}

theorem deliver_endless (found : g.node? id = some node) (stage : node.kind = .stage s)
    (ongoing : node.phase ≠ .closed) (idle : node.busy = false) {depth : Nat}
    (endless : Run.Endless (pass (perform depth) id node m) g) :
    Run.Endless (perform (depth + 1) (.deliver id (.message m))) g := by
  change Run.Endless (deliver (perform depth) id (.message m)) g
  refine .atNode found ?_
  rw [stage]
  dsimp only
  unfold deliverToStage
  rw [if_neg ongoing, if_neg (by simp [idle])]
  exact .bind (.attempt endless)

end Traffic

namespace Graph

theorem sendMessage_endless {g : Graph σ} {entry : NodeId} {m : Message}
    (enters : g.entry = some entry)
    (endless : ∀ depth, Run.Endless (Traffic.perform depth (.deliver entry (.message m))) g)
    (depth : Nat) : (sendMessage depth m).start g = none := by
  obtain ⟨root, exit, found, kind⟩ := entry_kind enters
  rw [Graph.sendMessage, Run.start_bind]
  change (Traffic.perform depth (.deliver g.root (.message m))).start g = none
  cases depth with
  | zero => rfl
  | succ depth =>
    change (Traffic.deliver (Traffic.perform depth) g.root (.message m)).start g = none
    refine Run.Endless.start (.atNode found ?_)
    rw [kind]
    exact endless depth

section

variable [LawfulFeeders σ] {before mid : Graph σ} {id : NodeId} {m : Message}

def Circling (m : Message) (loop : NodeId → Prop) (g : Graph σ) : Prop :=
  ∀ id, loop id → ∃ node s target, g.node? id = some node ∧ node.kind = .stage s ∧
    Stage.feedsBack s = false ∧ node.busy = false ∧ node.phase ≠ .closed ∧
      node.answersTo m.destination = false ∧ node.main = some target ∧ loop target

theorem Circling.meet {loop : NodeId → Prop} (circling : mid.Circling m loop) (on : loop id)
    {node : Node σ} (found : mid.node? id = some node) (again : Call → Run σ Unit) :
    ∃ after, (Traffic.meet again id node m).start mid = some (.ok false, after) ∧
      after.Circling m loop := by
  -- The loop has no stage the message is meant for, so it is noticed and passed on, and nothing
  -- changes.
  obtain ⟨other, s, target, same, stage, feeds, -, ongoing, answersTo, main, next⟩ :=
    circling id on
  obtain rfl : node = other := Option.some.inj (found.symm.trans same)
  obtain ⟨history, noticed⟩ := Traffic.notice_start (node?_mark found true) stage m
  have still : Stage.feedsBack (Stage.notice m s).1 = false :=
    ((LawfulFeeders.obeys (node.here id) s).notice m).trans feeds
  let after : Graph σ := { (mid.mark id true).updateNode id fun node =>
    { node with kind := .stage (Stage.notice m s).1 } with history }
  have there (other : NodeId) : after.node? other = if id = other then
      some { node with kind := .stage (Stage.notice m s).1, busy := true } else mid.node? other := by
    change ((mid.mark id true).updateNode id _).node? other = _
    rw [node?_updateNode, mark, node?_updateNode]
    by_cases same : id = other
    · subst same
      simp [found]
    · simp [same]
  have feeding : after.feedsBack id = false := by
    rw [Graph.feedsBack, there, if_pos rfl]
    exact still
  refine ⟨after.mark id false, ?_, fun other on => ?_⟩
  · unfold Traffic.meet Traffic.openMessage
    rw [Run.holding_start, Run.start_bind, noticed]
    simp only [answersTo, Bool.false_eq_true, if_false]
    change some (Except.ok (false || after.feedsBack id), after.mark id false) = _
    rw [feeding]
    rfl
  · rw [mark, node?_updateNode, there]
    split
    next same =>
      subst same
      exact ⟨_, _, target, rfl, rfl, still, rfl, ongoing, answersTo, main, next⟩
    next => exact circling other on

theorem Circling.deliver {loop : NodeId → Prop} (circling : mid.Circling m loop) (on : loop id)
    (depth : Nat) : Run.Endless (Traffic.perform depth (.deliver id (.message m))) mid := by
  induction depth generalizing mid id with
  | zero => exact trivial
  | succ depth ih =>
    obtain ⟨node, s, target, found, stage, -, idle, ongoing, -, main, next⟩ := circling id on
    -- It is shown to the stage here, and is then where the loop goes on.
    obtain ⟨after, meets, circling⟩ := circling.meet on found (Traffic.perform depth)
    refine Traffic.deliver_endless found stage ongoing idle ?_
    rw [Traffic.pass_eq, main]
    exact .bind_of_start meets (ih circling next)

end

def ring : Blueprint Stock where
  pipeline := ⟨"line", "", [], false, "pass_through wrap pass_through", []⟩
  registry := Stock.registry
  params := []
  environment := .empty

def lost : Message := ⟨"nobody", "reset", [], true⟩

def circles (m : Message) (on : List NodeId) (g : Graph Stock) : Bool :=
  on.all fun id => (g.node? id).any fun node =>
    (match node.kind with
      | .stage s => !Stage.feedsBack s
      | _ => false) && !node.busy && node.phase != .closed && !node.answersTo m.destination &&
        node.main.any (on.contains ·)

theorem circling_of_circles {m : Message} {on : List NodeId} {g : Graph Stock}
    (checked : circles m on g = true) : g.Circling m (· ∈ on) := by
  intro id member
  have here := List.all_eq_true.mp checked id member
  obtain ⟨node, found, here⟩ := (Option.any_eq_true _ _).mp here
  simp only [Bool.and_eq_true, Bool.not_eq_true', bne_iff_ne] at here
  obtain ⟨⟨⟨⟨feeds, idle⟩, ongoing⟩, answersTo⟩, next⟩ := here
  obtain ⟨target, main, within⟩ := (Option.any_eq_true _ _).mp next
  split at feeds
  next s stage =>
    exact ⟨node, s, target, found, stage, by simpa using feeds, idle, ongoing, answersTo, main,
      by simpa using within⟩
  next => cases feeds

def refeeding : Blueprint Stock where
  pipeline := ⟨"line", "", [], false, "tank_queue:1 tank_feed tank_queue", []⟩
  registry := Stock.registry
  params := []
  environment := .empty

def unbinding : Message := ⟨"tank_queue", "reset", [.text "tank_size", .text "0"], false⟩

def unbinds (m : Message) (queue feeder : NodeId) (g : Graph Stock) : Bool :=
  match g.node? queue, g.node? feeder, m.values with
  | some q, some f, [name, value] =>
    match q.kind, f.kind, (TankQueue.settings (q.params.put name.render value)).run q.tank with
    | .stage .tankQueue, .stage (.tankFeed ⟨some target⟩), (.ok (), t) =>
      decide (m.verb = Traffic.resetVerb ∧ q.main = some feeder ∧ q.busy = false ∧
        q.phase ≠ .closed ∧ q.answersTo m.destination = true ∧
          q.declared.declares name.render = true ∧ target = queue ∧ feeder ≠ queue ∧
            f.dynamic = [] ∧ f.phase ≠ .closed ∧ f.busy = false ∧ f.closeDeferred = false ∧
              t.capacity = 0 ∧ 0 < t.held)
    | _, _, _ => false
  | _, _, _ => false

theorem deliver_of_unbinds {m : Message} {queue feeder : NodeId} {g : Graph Stock}
    (checked : unbinds m queue feeder g = true) (depth : Nat) :
    Run.Endless (Traffic.perform depth (.deliver queue (.message m))) g := by
  cases depth with
  | zero => exact trivial
  | succ depth =>
    unfold unbinds at checked
    split at checked
    next q f name value found leads values =>
      split at checked
      next target t stage feeds resized =>
        -- The queue drains its tank before it has dealt with the message.
        obtain ⟨verb, main, idle, ongoing, answersTo, declares, rfl, apart, static, unclosed, free,
          kept, capacity, held⟩ := of_decide_eq_true checked
        refine Traffic.deliver_endless found stage ongoing idle ?_
        rw [Traffic.pass_eq]
        refine .bind (Traffic.meet_endless found stage answersTo verb values declares resized ?_)
        rintro after ⟨last, there, same, rfl⟩ rest
        refine Spins.drain ⟨apart, ⟨last, there, same.trans main, capacity⟩, ?_⟩
          ⟨last, there, held⟩ depth
        exact ⟨f, (rest feeder apart).trans leads, feeds, static, unclosed, free, kept⟩
      next => cases checked
    next => cases checked

/-- A message never comes to rest on a loop without a feeder; and on one with a feeder a tank queue
that opens it may never return. -/
theorem lost_message_never_rests :
    (∃ g, ring.build.1 = .ok g ∧ ∀ depth, (sendMessage depth lost).start g = none) ∧
    ∃ g mid, refeeding.build.1 = .ok g ∧ (∀ id, ¬g.Downstream id id) ∧
      (Graph.send 8 (.ofText "one")).start g = some (.ok (), mid) ∧
        ∀ depth, (sendMessage depth unbinding).start mid = none := by
  constructor
  · have runs : ring.passes (fun g => decide (g.entry = some 1) && circles lost [1, 2] g) = true := by
      decide +kernel
    obtain ⟨g, built, runs⟩ := Blueprint.of_passes runs
    obtain ⟨enters, circles⟩ := (Bool.and_eq_true _ _).mp runs
    exact ⟨g, built, sendMessage_endless (of_decide_eq_true enters)
      ((circling_of_circles circles).deliver (by simp))⟩
  · have runs : refeeding.passes (fun g => g.ascends && (Graph.send 8 (.ofText "one")).succeeds g
        fun _ mid => decide (mid.entry = some 1) && unbinds unbinding 1 2 mid) = true := by
      decide +kernel
    obtain ⟨g, built, runs⟩ := Blueprint.of_passes runs
    obtain ⟨ascends, runs⟩ := (Bool.and_eq_true _ _).mp runs
    obtain ⟨_, mid, sent, runs⟩ := Run.of_succeeds runs
    obtain ⟨enters, unbinds⟩ := (Bool.and_eq_true _ _).mp runs
    exact ⟨g, mid, built, once_of_ascends ascends, sent,
      sendMessage_endless (of_decide_eq_true enters) (deliver_of_unbinds unbinds)⟩

end Graph

end Sluice
