import Sluice.Proofs.Assembly.Trials
import Sluice.Proofs.Graph.CloseOrder
import Sluice.Proofs.Graph.Shutdown

set_option autoImplicit false

namespace Sluice

namespace Graph

theorem Reachable.closes {σ : Type} [Stage σ] {g : Graph σ} {id : NodeId} {node : Node σ}
    (reachable : g.Reachable id) (found : g.node? id = some node) : id ∈ g.closeOrder := by
  induction reachable generalizing node with
  | root => exact (walk_explored g.root [] g.unseen_start).2 node found
  | next _ was leads ih => exact closeOrder_next (ih was) was leads found

theorem walkAll_reachable {σ : Type} [Stage σ] {g : Graph σ} {depth : Nat} {targets seen : List NodeId}
    (walked : ∀ target seen, g.Reachable target → (∀ id ∈ seen, g.Reachable id) →
      ∀ id ∈ g.walk depth target seen, g.Reachable id)
    (leads : ∀ target ∈ targets, g.Reachable target) (start : ∀ id ∈ seen, g.Reachable id) :
    ∀ id ∈ g.walkAll depth targets seen, g.Reachable id := by
  induction targets generalizing seen with
  | nil => exact start
  | cons target rest ih =>
    refine ih (fun other member => leads other (List.mem_cons_of_mem target member)) ?_
    exact walked target seen (leads target List.mem_cons_self) start

theorem walk_reachable {σ : Type} [Stage σ] {g : Graph σ} (depth : Nat) (id : NodeId)
    (seen : List NodeId) (reachable : g.Reachable id) (start : ∀ other ∈ seen, g.Reachable other) :
    ∀ other ∈ g.walk depth id seen, g.Reachable other := by
  induction depth generalizing id seen with
  | zero => exact start
  | succ depth ih =>
    by_cases member : id ∈ seen
    · rw [walk_seen member]
      exact start
    · cases found : g.node? id with
      | none =>
        rw [walk_absent found]
        exact start
      | some node =>
        rw [walk_next found member]
        refine walkAll_reachable ih (fun target leads => reachable.next found leads) ?_
        intro other there
        rcases List.mem_append.mp there with there | here
        · exact start other there
        · exact List.mem_singleton.mp here ▸ reachable

theorem reachable_of_closes {σ : Type} [Stage σ] {g : Graph σ} {id : NodeId}
    (member : id ∈ g.closeOrder) : g.Reachable id :=
  walk_reachable _ g.root [] .root nofun id member

variable {before after : Graph Stock} {seen : List NodeId}

theorem Closed.start (resting : before.Resting) (running : before.shuttingDown = false)
    (event : Event Stock) (silent : event.refusal? = none) :
    before.Closed [] ({ before with shuttingDown := true }.remember event) := by
  refine
    { phased id := ?_
      idle id node found := (resting.idle id node found).1
      closing := rfl
      emptied := nofun
      refusals _ := List.filterMap_cons_none silent }
  refine Option.map_congr fun node found => congrArg Node.still ?_
  have waking := ((resting.orderly.nodes id node found).waking running).1
  have kept := (resting.idle id node found).2
  unfold Node.turned
  simp [phaseIn, ← waking, ← kept]

theorem Leaves.remember {result : Except EngineError Unit} (leaves : before.Leaves seen result after)
    (event : Event Stock) (silent : event.refusal? = none) :
    before.Leaves seen result (after.remember event) where
  closed ok :=
    { leaves.closed ok with
      refusals strict :=
        (List.filterMap_cons_none silent).trans ((leaves.closed ok).refusals strict) }
  refusals := fun strict => (List.filterMap_cons_none silent).trans (leaves.refusals strict)
  admits := leaves.admits

theorem Resting.shutdown_leaves (resting : before.Resting) (running : before.shuttingDown = false)
    (depth : Nat) : (Graph.shutdown depth).Ends before (before.Leaves before.closeOrder) := by
  refine Traffic.shutdown_ends (fun began => by rw [running] at began; cases began) fun _ => ?_
  have order := walk_root (Nat.le_max_right depth (before.nodes.size + 1))
  have start := Closed.start resting running (.report (.shutdownStarted before.pipeline)) rfl
  refine (Traffic.close_leaves (Nat.le_max_left depth (before.nodes.size + 1)) before.root start
    (by simp [order])).mono fun result last leaves => ?_
  rw [order] at leaves
  cases result with
  | error e => exact leaves
  | ok _ => exact leaves.remember _ rfl

/-- After shutdown from outside nothing is left in a tank, unless one that is flushed later sends
parcels to a feeder of this one. -/
theorem shutdown_empties_tank {b : Blueprint Stock} {g before after : Graph Stock} {depth : Nat}
    (built : b.build.1 = .ok g) (leads : g.Leads before) (running : before.shuttingDown = false)
    (ran : (shutdown depth).start before = some (.ok (), after)) {id : NodeId} {node : Node Stock}
    (reachable : before.Reachable id) (found : after.node? id = some node)
    (queue : node.kind = .stage .tankQueue) (unfilled : ¬before.Refilled id) :
    node.tank.held = 0 := by
  have ⟨resting, _⟩ := leads.rested (b.build_resting built)
  have closed := ((resting.shutdown_leaves running depth).of_start ran).closed rfl
  have there : before.Queue id := closed.phased.queue.mp ⟨node, found, queue⟩
  have ⟨_, was, _⟩ := there
  obtain ⟨t, tank, size⟩ := closed.emptied id (reachable.closes was) there unfilled
  obtain rfl : node.tank = t := by
    rw [tank?, found] at tank
    exact Option.some.inj tank
  exact Tank.held_of_size size

def followed (g : Graph Stock) (id : NodeId) : Bool :=
  (g.closeOrder.dropWhile (· != id)).tail.any fun later =>
    ((g.node? later).bind Node.state?).any Stock.hasTank

theorem mem_after {ids : List NodeId} {id later : NodeId} (sublist : [id, later].Sublist ids) :
    later ∈ (ids.dropWhile (· != id)).tail := by
  induction ids with
  | nil => cases sublist
  | cons first rest ih =>
    by_cases here : first = id
    · subst here
      have rest : later ∈ rest := by
        cases sublist with
        | cons _ sublist => exact sublist.subset (by simp)
        | cons_cons _ sublist => exact List.singleton_sublist.mp sublist
      simpa using rest
    · have sublist : [id, later].Sublist rest := by
        cases sublist with
        | cons _ sublist => exact sublist
        | cons_cons => exact absurd rfl here
      simpa [here] using ih sublist

theorem ClosesBefore.followed {g : Graph Stock} {id later : NodeId}
    (closes : g.ClosesBefore id later) (queue : g.Queue later) : g.followed id = true := by
  obtain ⟨node, found, kind⟩ := queue
  refine List.any_eq_true.mpr ⟨later, mem_after closes, ?_⟩
  simp [found, Node.state?, kind, Stock.hasTank]

def shutAfter (b : Blueprint Stock) (p : Parcel)
    (check : Graph Stock → Except EngineError Unit → Graph Stock → Bool) : Bool :=
  b.passes fun g => (g.operate 12 (.act (.send p))).any fun before =>
    !before.shuttingDown && (shutdown 12).passes before (check before)

theorem of_shutAfter (b : Blueprint Stock) (p : Parcel)
    (check : Graph Stock → Except EngineError Unit → Graph Stock → Bool)
    (checks : shutAfter b p check = true) : ∃ g before result after, b.build.1 = .ok g ∧
      g.Leads before ∧ before.shuttingDown = false ∧
        (shutdown 12).start before = some (result, after) ∧ check before result after = true := by
  obtain ⟨g, built, checks⟩ := Blueprint.of_passes checks
  obtain ⟨before, sent, checks⟩ := (Option.any_eq_true _ _).mp checks
  rw [Bool.and_eq_true, Bool.not_eq_true'] at checks
  obtain ⟨running, checks⟩ := checks
  obtain ⟨result, after, ran, checks⟩ := Run.of_passes checks
  exact ⟨g, before, result, after, built, .operate .refl sent, running, ran, checks⟩

def holds (g : Graph Stock) (path : String) (held : Nat) : Bool :=
  (List.range g.nodes.size).any fun id => (g.node? id).any fun node =>
    node.path == path && node.tank.held == held

def looping : Blueprint Stock :=
  line "tank_queue_a factorial_calc branch_if:recurse (tank_queue_b:1 tank_feed tank_queue_a) sink"

def strands (before : Graph Stock) (result : Except EngineError Unit) (after : Graph Stock) : Bool :=
  match result with
  | .ok _ => after.holds "tank_queue_a" 1 && before.closeOrder.any fun id =>
      !before.followed id && (after.node? id).any fun node =>
        node.path == "tank_queue_b" && node.state?.any Stock.hasTank
  | .error _ => false

theorem looping_strands : ∃ g before after, looping.build.1 = .ok g ∧ g.Leads before ∧
    before.shuttingDown = false ∧ (shutdown 12).start before = some (.ok (), after) ∧
      after.holds "tank_queue_a" 1 = true ∧
        ∃ id node, after.node? id = some node ∧ node.path = "tank_queue_b" ∧ node.tank.held = 0 := by
  obtain ⟨g, before, result, after, built, leads, running, ran, checks⟩ :=
    of_shutAfter looping ((Parcel.ofText "one").setAttr "x" (.int 2)) strands (by decide +kernel)
  cases result with
  | error e => cases checks
  | ok _ =>
    obtain ⟨left, last⟩ := Bool.and_eq_true_iff.mp checks
    obtain ⟨id, member, last⟩ := List.any_eq_true.mp last
    obtain ⟨unfollowed, last⟩ := Bool.and_eq_true_iff.mp last
    obtain ⟨node, found, last⟩ := (Option.any_eq_true _ _).mp last
    simp only [Bool.and_eq_true, beq_iff_eq] at last
    have unfilled : ¬before.Refilled id := by
      rintro ⟨_, _, _, _, closes, queue, _⟩
      rw [closes.followed queue] at unfollowed
      cases unfollowed
    exact ⟨g, before, after, built, leads, running, ran, left, id, node, found, last.1,
      shutdown_empties_tank built leads running ran (reachable_of_closes member) found
        (Node.tankQueue_of_hasTank last.2) unfilled⟩

/-- Shutdown from outside brings no packet to a closed stage, unless a tank sends parcels to a stage
that is closed before it. -/
theorem shutdown_refuses_nothing {b : Blueprint Stock} {g before after : Graph Stock} {depth : Nat}
    {result : Except EngineError Unit} (built : b.build.1 = .ok g) (leads : g.Leads before)
    (running : before.shuttingDown = false)
    (ran : (shutdown depth).start before = some (result, after)) (timely : ¬before.Overtaken) :
    (∀ path, result ≠ .error (.routing (.stageClosed path))) ∧
      ∃ newer, after.history = newer ++ before.history ∧ ∀ id packet, .refused id packet ∉ newer := by
  have ⟨resting, _⟩ := leads.rested (b.build_resting built)
  have leaves := (resting.shutdown_leaves running depth).of_start ran
  have ⟨_, lasts⟩ := (shutdown_rested before depth before ⟨resting, .refl before⟩).of_start ran
  refine ⟨fun path failed => ?_, ?_⟩
  · rcases leaves.admits _ failed with other | overtaken
    · cases other
    · exact timely overtaken
  · obtain ⟨newer, grown⟩ := lasts.history
    refine ⟨newer, grown.symm, fun id packet member => ?_⟩
    have same := leaves.refusals timely
    unfold refusals at same
    rw [← grown, List.filterMap_append, List.append_left_eq_self] at same
    have refused : (id, packet) ∈ newer.filterMap Event.refusal? :=
      List.mem_filterMap.mpr ⟨_, member, rfl⟩
    rw [same] at refused
    cases refused

def sharing : Blueprint Stock := line "tank_queue:1 branch_clone (sink) sink"

def timely (before : Graph Stock) (result : Except EngineError Unit) (_ : Graph Stock) : Bool :=
  match result with
  | .ok _ => before.holds "tank_queue" 1 && !before.closeOrder.any fun id =>
      before.followed id && ((before.node? id).bind Node.state?).isSome
  | .error _ => false

theorem sharing_refuses_nothing : ∃ g before after, sharing.build.1 = .ok g ∧ g.Leads before ∧
    before.shuttingDown = false ∧ (shutdown 12).start before = some (.ok (), after) ∧
      before.holds "tank_queue" 1 = true ∧ ¬before.Overtaken ∧
        ∃ newer, after.history = newer ++ before.history ∧
          ∀ id packet, .refused id packet ∉ newer := by
  obtain ⟨g, before, result, after, built, leads, running, ran, checks⟩ :=
    of_shutAfter sharing (.ofText "one") timely (by decide +kernel)
  cases result with
  | error e => cases checks
  | ok _ =>
    obtain ⟨held, order⟩ := Bool.and_eq_true_iff.mp checks
    have order := (Bool.not_eq_true' _).mp order
    have timely : ¬before.Overtaken := fun ⟨id, later, node, s, closes, queue, _, found, stage⟩ => by
      have none := List.any_eq_false.mp order id (closes.subset (by simp))
      simp [closes.followed queue, found, Node.state?, stage] at none
    exact ⟨g, before, after, built, leads, running, ran, held, timely,
      (shutdown_refuses_nothing built leads running ran timely).2⟩

def crossing : Blueprint Stock := line "branch_clone (sink) tank_queue:1 sink"

def refuses (before : Graph Stock) (result : Except EngineError Unit) (after : Graph Stock) : Bool :=
  match result with
  | .error (.routing (.stageClosed path)) =>
    before.refusals.isEmpty && path == "sink" && after.refusals.any fun refusal =>
      match refusal.2 with
      | .parcel _ => true
      | .message _ => false
  | _ => false

/-- The sink is closed with the branch, before the tank that leads to it is flushed. -/
theorem crossing_refuses : ∃ g before after, crossing.build.1 = .ok g ∧ g.Leads before ∧
    before.shuttingDown = false ∧ before.refusals = [] ∧
      (shutdown 12).start before = some (.error (.routing (.stageClosed "sink")), after) ∧
        ∃ id h, (id, .parcel h) ∈ after.refusals := by
  obtain ⟨g, before, result, after, built, leads, running, ran, checks⟩ :=
    of_shutAfter crossing (.ofText "one") refuses (by decide +kernel)
  unfold refuses at checks
  split at checks
  next path =>
    simp only [Bool.and_eq_true, beq_iff_eq, List.isEmpty_iff] at checks
    obtain ⟨⟨quiet, rfl⟩, refused⟩ := checks
    obtain ⟨⟨id, packet⟩, member, parcel⟩ := List.any_eq_true.mp refused
    cases packet with
    | message m => cases parcel
    | parcel h => exact ⟨g, before, after, built, leads, running, quiet, ran, id, h, member⟩
  next => cases checks

end Graph

end Sluice
