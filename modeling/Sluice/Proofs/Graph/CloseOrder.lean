import Sluice.Proofs.Graph.Flush

set_option autoImplicit false

namespace Sluice

def Node.turned (node : Node Stock) (phase : Phase) : Node Stock :=
  { node with phase, closeDeferred := false }

theorem Node.turned_next (node : Node Stock) (phase : Phase) : (node.turned phase).next = node.next :=
  rfl

theorem Traffic.runStage_skip {σ : Type} {again : Call → Run σ Unit} {g : Graph σ} {id : NodeId}
    {node : Node σ} {s : σ} {program : Here → Node σ → σ → Program σ Unit}
    {post : Except EngineError Unit → Graph σ → Prop} (found : g.node? id = some node)
    (stage : node.kind = .stage s) (skips : program (node.here id) node s = Program.skip) :
    (runStage again id program).Ends g post ↔ post (.ok ()) g := by
  unfold runStage
  rw [Run.ends_atNode]
  constructor
  next =>
    intro ends
    have ends := ends.1 node found
    rw [stage] at ends
    dsimp only at ends
    rwa [skips] at ends
  next =>
    intro holds
    refine ⟨fun other there => ?_, fun none => by rw [found] at none; cases none⟩
    obtain rfl : node = other := Option.some.inj (found.symm.trans there)
    rw [stage]
    dsimp only
    rw [skips]
    exact holds

namespace Graph

def ClosesBefore {σ : Type} [Stage σ] (g : Graph σ) (earlier later : NodeId) : Prop :=
  [earlier, later].Sublist g.closeOrder

def Refilled (g : Graph Stock) (id : NodeId) : Prop :=
  ∃ later feeder node f, g.ClosesBefore id later ∧ g.Queue later ∧ g.Downstream later feeder ∧
    g.node? feeder = some node ∧ node.kind = .stage (.tankFeed f) ∧ f.target = some id

def Overtaken (g : Graph Stock) : Prop :=
  ∃ id later node s, g.ClosesBefore id later ∧ g.Queue later ∧ g.Downstream later id ∧
    g.node? id = some node ∧ node.kind = .stage s

def Phased (start : Graph Stock) (phase : NodeId → Phase) (g : Graph Stock) : Prop :=
  ∀ id, (g.node? id).map Node.still = (start.node? id).map fun node => (node.turned (phase id)).still

namespace Phased

variable {start g after : Graph Stock} {phase : NodeId → Phase} {id : NodeId}

theorem node (phased : start.Phased phase g) {node : Node Stock} (found : g.node? id = some node) :
    ∃ before, start.node? id = some before ∧
      node.still = (before.turned (phase id)).still := by
  have same := phased id
  rw [found] at same
  obtain ⟨before, was, same⟩ := Option.map_eq_some_iff.mp same.symm
  exact ⟨before, was, same.symm⟩

theorem still (phased : start.Phased phase g) (still : g.Still after) : start.Phased phase after :=
  fun id => (still id).trans (phased id)

theorem turn (phased : start.Phased phase g) (id : NodeId) (next : Phase) :
    start.Phased (fun other => if other = id then next else phase other) (g.turn id next) := by
  intro other
  dsimp only
  rw [Graph.turn, node?_updateNode]
  split
  next here =>
    subst here
    rw [if_pos rfl]
    cases found : g.node? id with
    | none =>
      have none := phased id
      rw [found] at none
      rw [Option.map_eq_none_iff.mp none.symm]
      rfl
    | some node =>
      obtain ⟨before, was, same⟩ := phased.node found
      rw [was]
      have turned : ({ node with phase := next } : Node Stock).still =
          { node.still with phase := next } := rfl
      exact congrArg some (turned.trans (by rw [same]; rfl))
  next elsewhere =>
    rw [if_neg (Ne.symm elsewhere)]
    exact phased other

theorem downstream (phased : start.Phased phase g) {target : NodeId}
    (downstream : g.Downstream id target) : start.Downstream id target := by
  have next {other : NodeId} {node : Node Stock} (found : g.node? other = some node) :
      ∃ before, start.node? other = some before ∧ node.next = before.next := by
    obtain ⟨before, was, same⟩ := phased.node found
    exact ⟨before, was, (Node.next_of_still same).trans (before.turned_next _)⟩
  induction downstream with
  | next found leads =>
    obtain ⟨before, was, same⟩ := next found
    exact .next was (same ▸ leads)
  | onward _ found leads ih =>
    obtain ⟨before, was, same⟩ := next found
    exact ih.onward was (same ▸ leads)

theorem queue (phased : start.Phased phase g) : g.Queue id ↔ start.Queue id := by
  constructor
  next =>
    rintro ⟨node, found, kind⟩
    obtain ⟨before, was, same⟩ := phased.node found
    obtain ⟨s, stage, role⟩ := Node.stage_of_still same kind
    exact ⟨before, was, Stock.role_tankQueue role.symm ▸ stage⟩
  next =>
    rintro ⟨before, was, kind⟩
    have same := phased id
    rw [was] at same
    obtain ⟨node, found, same⟩ := Option.map_eq_some_iff.mp same
    have kind : (before.turned (phase id)).kind = .stage .tankQueue := kind
    obtain ⟨s, stage, role⟩ := Node.stage_of_still same.symm kind
    exact ⟨node, found, Stock.role_tankQueue role.symm ▸ stage⟩

end Phased

def phaseIn (seen : List NodeId) (id : NodeId) : Phase := if id ∈ seen then .closed else .running

structure Closed (start : Graph Stock) (seen : List NodeId) (g : Graph Stock) : Prop where
  phased : start.Phased (phaseIn seen) g
  idle : ∀ id node, g.node? id = some node → node.busy = false
  closing : g.shuttingDown = true
  emptied : ∀ id ∈ seen, start.Queue id → ¬start.Refilled id → g.Emptied id
  refusals : ¬start.Overtaken → g.refusals = start.refusals

structure Leaves (start : Graph Stock) (seen : List NodeId) (result : Except EngineError Unit)
    (after : Graph Stock) : Prop where
  closed : result = .ok () → start.Closed seen after
  refusals : ¬start.Overtaken → after.refusals = start.refusals
  admits : ∀ e, result = .error e → e.isStageClosed = false ∨ start.Overtaken

variable {start g mid after : Graph Stock} {seen : List NodeId} {id : NodeId}

theorem Closed.leaves (closed : start.Closed seen g) : start.Leaves seen (.ok ()) g :=
  ⟨fun _ => closed, closed.refusals, nofun⟩

theorem Leaves.error {e : EngineError} (refusals : ¬start.Overtaken → after.refusals = start.refusals)
    (admits : e.isStageClosed = false ∨ start.Overtaken) :
    start.Leaves seen (.error e) after := by
  refine ⟨nofun, refusals, fun other same => ?_⟩
  cases same
  exact admits

theorem Closed.found (closed : start.Closed seen g) {node : Node Stock}
    (found : g.node? id = some node) : ∃ before, start.node? id = some before ∧
      node.next = before.next ∧ node.phase = phaseIn seen id ∧ node.closeDeferred = false := by
  obtain ⟨before, was, same⟩ := closed.phased.node found
  exact ⟨before, was, (Node.next_of_still same).trans (before.turned_next _),
    Node.phase_of_still same, Node.closeDeferred_of_still same⟩

@[simp] theorem tank?_turn (phase : Phase) (other : NodeId) :
    (g.turn id phase).tank? other = g.tank? other := by
  refine tank?_same (fun _ => ?_) other
  rfl

@[simp] theorem tank?_remember (event : Event Stock) (other : NodeId) :
    (g.remember event).tank? other = g.tank? other := rfl

theorem Emptied.of_same (emptied : g.Emptied id) (same : after.tank? id = g.tank? id) :
    after.Emptied id := by
  unfold Emptied
  rw [same]
  exact emptied

theorem closesBefore_of_seen (ahead : seen ++ [id] <+: start.closeOrder) {earlier : NodeId}
    (member : earlier ∈ seen) : start.ClosesBefore earlier id :=
  ((List.singleton_sublist.mpr member).append (List.Sublist.refl [id])).trans ahead.sublist

def flushAt (g : Graph Stock) (id : NodeId) (node : Node Stock) : Graph Stock :=
  ((g.mark id true).turn id .flushing).remember (.began id node .flush)

def closeAt (g : Graph Stock) (id : NodeId) (node : Node Stock) : Graph Stock :=
  ((g.turn id .closing).remember (.began id node .close)).turn id .closed

theorem closeAt_feedsBack {node : Node Stock} {s : Stock} (found : g.node? id = some node)
    (stage : node.kind = .stage s) (before : Node Stock) :
    (g.closeAt id before).feedsBack id = Stage.feedsBack s := by
  have called : ((g.turn id .closing).remember (.began id before .close)).node? id =
      some { node with phase := .closing } := node?_turn found .closing
  rw [closeAt, Graph.feedsBack, node?_turn called]
  simp [Node.state?, stage]

def phaseAt (seen : List NodeId) (id : NodeId) (phase : Phase) (other : NodeId) : Phase :=
  if other = id then phase else phaseIn seen other

theorem phaseAt_closed (seen : List NodeId) (id : NodeId) :
    phaseAt seen id .closed = phaseIn (seen ++ [id]) := by
  funext other
  by_cases here : other = id <;> simp [phaseAt, phaseIn, here]

theorem Phased.again {phase next : Phase} (phased : start.Phased (phaseAt seen id phase) g) :
    start.Phased (phaseAt seen id next) (g.turn id next) := by
  have turned := phased.turn id next
  have same : (fun other => if other = id then next else phaseAt seen id phase other) =
      phaseAt seen id next := by
    funext other
    by_cases here : other = id <;> simp [phaseAt, here]
  exact same ▸ turned

section

variable {node : Node Stock} {s : Stock} (closed : start.Closed seen g)
include closed

theorem Closed.flushes : start.Phased (phaseAt seen id .flushing) (g.flushAt id node) :=
  (closed.phased.still (.update (f := fun node => { node with busy := true }) fun _ _ => rfl)).turn
    id .flushing

def Closed.flushing (fresh : id ∉ seen) (ahead : seen ++ [id] <+: start.closeOrder)
    (queue : start.Queue id) (node : Node Stock) : Flushing where
  start := g.flushAt id node
  own := id
  queue := closed.flushes.queue.mpr queue
  kept := fun other last found => by
    obtain ⟨before, _, same⟩ := closed.flushes.node found
    exact Node.closeDeferred_of_still same
  locked := fun other => other ∈ seen ∧ ¬start.Refilled other
  shut := fun other last ⟨member, _⟩ found => by
    obtain ⟨before, _, same⟩ := closed.flushes.node found
    have elsewhere : other ≠ id := fun same => fresh (same ▸ member)
    rw [Node.phase_of_still same]
    simp [Node.turned, phaseAt, phaseIn, elsewhere, member]
  unfed := fun other last f target downstream found stage feeds ⟨member, unfilled⟩ => by
    obtain ⟨before, was, same⟩ := closed.flushes.node found
    obtain ⟨t, kind, role⟩ := Node.stage_of_still same stage
    have kind : before.kind = .stage (.tankFeed f) := Stock.role_tankFeed role.symm ▸ kind
    exact unfilled ⟨id, other, before, f, closesBefore_of_seen ahead member, queue,
      closed.flushes.downstream downstream, was, kind, feeds⟩
  refuses := start.Overtaken
  closed := fun other last t downstream found stage gone => by
    obtain ⟨before, was, same⟩ := closed.flushes.node found
    obtain ⟨u, kind, _⟩ := Node.stage_of_still same stage
    have phase : phaseAt seen id .flushing other = .closed := (Node.phase_of_still same).symm.trans gone
    have member : other ∈ seen := by
      unfold phaseAt phaseIn at phase
      split at phase
      · cases phase
      · split at phase
        next member => exact member
        next => cases phase
    exact ⟨other, id, before, u, closesBefore_of_seen ahead member, queue,
      closed.flushes.downstream downstream, was, kind⟩

variable (found : g.node? id = some node) (stage : node.kind = .stage s) (fresh : id ∉ seen)
  (ahead : seen ++ [id] <+: start.closeOrder)
include found stage fresh ahead

theorem Closed.flush (depth : Nat) (before : Node Stock) :
    (Traffic.runStage (Traffic.perform depth) id fun here _ s => Stage.flush here s).Ends
      (g.flushAt id before) ((g.flushAt id before).Drained id
        (fun other => other ∈ seen ∧ ¬start.Refilled other) start.Overtaken) := by
  have there : (g.flushAt id before).node? id = some { node with busy := true, phase := .flushing } :=
    node?_turn (node?_mark found true) .flushing
  -- Only a tank queue has anything to flush.
  by_cases queue : start.Queue id
  · have held : (g.flushAt id before).Held id := ⟨_, s, there, stage, rfl, nofun⟩
    exact (closed.flushing fresh ahead queue before).flush_drained depth
      ⟨fun _ => rfl, closed.closing, held⟩
  · have skips : s.flush = Program.skip := by
      cases s with
      | tankQueue => exact absurd (closed.phased.queue.mp ⟨node, found, stage⟩) queue
      | _ => rfl
    refine (Traffic.runStage_skip there stage skips).mpr ?_
    exact
      { still _ := rfl
        advances := .refl _
        locked _ _ := rfl
        refusals _ := rfl
        admits := nofun
        emptied _ here := absurd (closed.flushes.queue.mp here) queue }

omit ahead in
theorem Closed.visited {before last : Node Stock} (report : Report)
    (drained : (g.flushAt id before).Drained id (fun other => other ∈ seen ∧ ¬start.Refilled other)
      start.Overtaken (.ok ()) mid) :
    start.Closed (seen ++ [id]) (((mid.closeAt id last).mark id false).remember (.report report)) := by
  -- The stage runs through flushing and closing to closed, holding its lock.
  have flushed : g.Closing id .flushing mid :=
    ((Closing.start found stage .flushing nofun).advances (.remember _ _)).advances drained.advances
  have closing : g.Closing id .closed (mid.closeAt id last) :=
    ((flushed.turn .closing nofun).advances (.remember _ _)).turn .closed nofun
  have running : node.phase = .running := by
    obtain ⟨-, -, -, phase, -⟩ := closed.found found
    exact phase.trans (if_neg fresh)
  have advances : g.Advances (((mid.closeAt id last).mark id false).remember (.report report)) :=
    (closing.finish found running (closed.idle id node found)).trans (.remember _ _)
  have called : start.Phased (phaseAt seen id .closing)
      ((mid.turn id .closing).remember (.began id last .close)) :=
    (closed.flushes.still drained.still).again
  have phased : start.Phased (phaseAt seen id .closed) (mid.closeAt id last) := called.again
  refine
    { phased := ?_
      idle other node there := ?_
      closing := advances.shuttingDown closed.closing
      emptied other member queue unfilled := ?_
      refusals strict := ?_ }
  · exact phaseAt_closed seen id ▸ phased.still (.update (f := fun node => { node with busy := false })
      fun _ _ => rfl)
  · obtain ⟨first, was, moved⟩ := advances.node_before there
    exact moved.busy.trans (closed.idle other first was)
  · -- A tank that was flushed before is locked meanwhile, and the one that was flushed is empty.
    have emptied : mid.Emptied other := by
      rcases List.mem_append.mp member with member | here
      · refine (closed.emptied other member queue unfilled).of_same ?_
        rw [drained.locked other ⟨member, unfilled⟩]
        simp [flushAt]
      · obtain rfl := List.mem_singleton.mp here
        exact drained.emptied rfl (closed.flushes.queue.mpr queue)
    exact emptied.of_same (by simp [closeAt])
  · exact (drained.refusals strict).trans (closed.refusals strict)

end

theorem Closed.passed {node : Node Stock} (closed : start.Closed seen g)
    (found : g.node? id = some node) (passive : ∀ s, node.kind ≠ .stage s) :
    start.Closed (seen ++ [id]) (g.turn id .closed) := by
  have advances : g.Advances (g.turn id .closed) := .turnClosed g id fun other s there => by
    obtain rfl : node = other := Option.some.inj (found.symm.trans there)
    exact passive s
  refine
    { phased := ?_
      idle other last there := ?_
      closing := closed.closing
      emptied other member queue unfilled := ?_
      refusals := closed.refusals }
  · exact phaseAt_closed seen id ▸ closed.phased.turn id .closed
  · obtain ⟨first, was, moved⟩ := advances.node_before there
    exact moved.busy.trans (closed.idle other first was)
  · rcases List.mem_append.mp member with member | here
    · exact (closed.emptied other member queue unfilled).of_same (by simp)
    · obtain rfl := List.mem_singleton.mp here
      obtain ⟨last, there, kind⟩ := closed.phased.queue.mpr queue
      obtain rfl : node = last := Option.some.inj (found.symm.trans there)
      exact absurd kind (passive _)

end Graph

namespace Traffic

open Sluice.Graph

variable {start g : Graph Stock} {seen : List NodeId} {id : NodeId} {depth : Nat}
  {again : Call → Run Stock Unit}

section

variable (closes : ∀ {g : Graph Stock} {seen : List NodeId} (id : NodeId), start.Closed seen g →
  start.walk depth id seen <+: start.closeOrder →
    (again (.close id)).Ends g (start.Leaves (start.walk depth id seen)))
include closes

theorem onward_leaves (closed : start.Closed seen g) (target : Option NodeId)
    (ahead : start.walkAll depth target.toList seen <+: start.closeOrder) :
    (onward again target .close).Ends g (start.Leaves (start.walkAll depth target.toList seen)) := by
  cases target with
  | none => exact closed.leaves
  | some id => exact closes id closed ahead

theorem fanOut_leaves {node : Node Stock} (closed : start.Closed seen g)
    (ahead : start.walkAll depth (node.branch.toList ++ node.main.toList) seen <+:
      start.closeOrder) :
    (do
      onward again node.branch .close
      onward again node.main .close : Run Stock Unit).Ends g
        (start.Leaves (start.walkAll depth (node.branch.toList ++ node.main.toList) seen)) := by
  rw [walkAll_append] at ahead ⊢
  have first := (walkAll_grows (walk_grows depth)).trans ahead
  rw [Run.ends_bind]
  refine (onward_leaves closes closed node.branch first).mono fun result mid leaves => ?_
  cases result with
  | error e => exact .error leaves.refusals (leaves.admits e rfl)
  | ok _ => exact onward_leaves closes (leaves.closed rfl) node.main ahead

theorem closedStage_leaves {node : Node Stock} {s : Stock} {event : Event Stock}
    (visited : start.Closed (seen ++ [id]) ((g.mark id false).remember event))
    (loops : g.feedsBack id = Stage.feedsBack s) (stage : node.kind = .stage s)
    (ahead : start.walkAll depth node.next (seen ++ [id]) <+: start.closeOrder) :
    (if g.feedsBack id then pure () else onward again node.main .close : Run Stock Unit).Ends
      ((g.mark id false).remember event)
        (start.Leaves (start.walkAll depth node.next (seen ++ [id]))) := by
  rw [Node.next, stage] at ahead ⊢
  dsimp only at ahead ⊢
  rw [loops]
  split
  next => exact visited.leaves
  next leads =>
    rw [if_neg leads] at ahead
    exact onward_leaves closes visited node.main ahead

end

theorem closeStage_leaves {most : Nat} {node : Node Stock} {s : Stock}
    (closes : ∀ {g : Graph Stock} {seen : List NodeId} (id : NodeId), start.Closed seen g →
      start.walk most id seen <+: start.closeOrder →
        (perform depth (.close id)).Ends g (start.Leaves (start.walk most id seen)))
    (closed : start.Closed seen g) (found : g.node? id = some node) (stage : node.kind = .stage s)
    (fresh : id ∉ seen)
    (ahead : start.walkAll most node.next (seen ++ [id]) <+: start.closeOrder) :
    (closeStage (perform depth) id node).Ends g
      (start.Leaves (start.walkAll most node.next (seen ++ [id]))) := by
  obtain ⟨-, -, -, phase, -⟩ := closed.found found
  have running : node.phase = .running := phase.trans (if_neg fresh)
  -- It is running and idle, since the walk has not come here before.
  have idle := closed.idle id node found
  have within := (walkAll_grows (walk_grows most)).trans ahead
  refine closeStage_ends (fun gone => absurd running gone)
    (fun _ busy => by rw [idle] at busy; cases busy) fun _ _ => ?_
  refine (callLast_ends (node?_turn (node?_mark found true) .flushing)).mpr ?_
  refine (closed.flush found stage fresh within depth _).mono fun result mid drained => ?_
  cases result with
  | error e =>
    exact .error (fun strict => (drained.refusals strict).trans (closed.refusals strict))
      (drained.admits e rfl)
  | ok _ =>
    have flushed := node?_turn (node?_mark found true) .flushing
    obtain ⟨last, there, -⟩ := drained.advances.node flushed
    obtain ⟨first, was, same⟩ := drained.still.node there
    obtain rfl := Option.some.inj (flushed.symm.trans was)
    obtain ⟨t, kind, role⟩ := Node.stage_of_still same.symm stage
    have closing := node?_turn there .closing
    have called : ((mid.turn id .closing).remember
        (.began id { last with phase := .closing } .close)).node? id = _ := closing
    refine (callLast_ends closing).mpr ((runStage_skip called kind rfl).mpr ?_)
    have loops := (closeAt_feedsBack there kind { last with phase := .closing }).trans
      (Stock.feedsBack_of_role role.symm)
    exact closedStage_leaves closes (closed.visited found stage fresh _ drained) loops stage ahead

theorem close_leaves {most : Nat} (deep : depth ≤ most) (id : NodeId)
    (closed : start.Closed seen g) (ahead : start.walk most id seen <+: start.closeOrder) :
    (perform depth (.close id)).Ends g (start.Leaves (start.walk most id seen)) := by
  -- The walk may go deeper than the run does, so that one walk serves for runs of any depth.
  induction depth generalizing most g seen id with
  | zero => exact trivial
  | succ depth ih =>
    obtain ⟨most, rfl⟩ : ∃ n, most = n + 1 := ⟨most - 1, by omega⟩
    refine (Run.ends_atNode id _).mpr ⟨fun node found => ?_, fun gone => ?_⟩
    · obtain ⟨before, was, next, phase, -⟩ := closed.found found
      by_cases member : id ∈ seen
      · have gone : node.phase = .closed := phase.trans (if_pos member)
        rw [walk_seen member]
        split
        · exact closeStage_ends (fun _ => closed.leaves)
            (fun running _ => by rw [gone] at running; cases running)
            fun running _ => by rw [gone] at running; cases running
        · rw [if_pos gone]
          exact closed.leaves
        · rw [if_pos gone]
          exact closed.leaves
      · have ongoing : node.phase ≠ .closed := by simp [phase, phaseIn, member]
        rw [walk_next was member, ← next] at ahead ⊢
        have again {g : Graph Stock} {seen : List NodeId} (id : NodeId) (closed : start.Closed seen g)
            (ahead : start.walk most id seen <+: start.closeOrder) :=
          ih (by omega) id closed ahead
        split
        next s stage => exact closeStage_leaves again closed found stage member ahead
        next kind =>
          rw [if_neg ongoing]
          have passed := closed.passed found (by simp [kind])
          rw [Node.next, kind] at ahead ⊢
          exact fanOut_leaves again passed ahead
        next entry _ kind =>
          rw [if_neg ongoing]
          have passed := closed.passed found (by simp [kind])
          rw [Node.next, kind] at ahead ⊢
          exact onward_leaves again passed entry ahead
    · have absent : start.node? id = none := by
        have same := closed.phased id
        rw [gone] at same
        exact Option.map_eq_none_iff.mp same.symm
      rw [walk_absent absent]
      exact closed.leaves

end Traffic

end Sluice
