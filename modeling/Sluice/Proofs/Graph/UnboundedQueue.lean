import Mathlib.Data.List.Perm.Basic
import Sluice.Proofs.Graph.Trampoline
import Sluice.Proofs.Tank.Queue

set_option autoImplicit false

namespace Sluice

/-- Parcels wait in a queue without limit, and a sink without limit comes after it. -/
def hoard (environment : Environment) : Blueprint Stock where
  pipeline := ⟨"hoard", "", [], false, "tank_queue:-1 sink", [("sink", ⟨none, [("max_results", .int 0)]⟩)]⟩
  registry := Stock.registry
  params := []
  environment

def Graph.keptAt (g : Graph Stock) (path : String) : Except EngineError (List Parcel) :=
  g.inspect path "sink" fun _ s => s.toSink?.map fun sink => sink.results.map g.store.read

namespace Hoarding

open Run (Returns)

abbrev queue : NodeId := 1
abbrev sink : NodeId := 2

structure Frame where
  root : Node Stock
  queue : Node Stock
  sink : Node Stock
  environment : Environment
  kind : Sink

structure Moment where
  tank : Tank
  kept : List Handle
  store : Store
  history : List (Event Stock)
  closing : Bool := false
  active : Bool := false
  rootPhase : Phase := .running
  queuePhase : Phase := .running
  sinkPhase : Phase := .running

def graph (f : Frame) (m : Moment) : Graph Stock where
  nodes := #[
    { f.root with path := "", kind := .subGraph (some queue) (some sink), phase := m.rootPhase },
    { f.queue with
      name := "tank_queue", path := "tank_queue", kind := .stage .tankQueue, main := some sink
      dynamic := [], phase := m.queuePhase, busy := m.active, closeDeferred := false
      tank := m.tank },
    { f.sink with
      name := "sink", path := "sink", main := none
      kind := .stage (.sink { f.kind with results := m.kept, maxResults := 0 })
      dynamic := [], phase := m.sinkPhase, busy := false, closeDeferred := false },
    Graph.pumpSinkNode]
  root := 0
  pumpSink := 3
  environment := f.environment
  shuttingDown := m.closing
  store := m.store
  history := m.history

variable {f : Frame} {m : Moment}

theorem graph_keptAt : (graph f m).keptAt "sink" = .ok (m.kept.map m.store.read) := by
  simp [Graph.keptAt, Graph.inspect, Graph.find?, Graph.numbered, graph, List.zipIdx_cons,
    Stock.toSink?]

theorem sink_keeps (running : m.sinkPhase = .running) (h : Handle) : ∃ history, ∀ depth,
    (Traffic.perform (depth + 1) (.deliver sink (.parcel h))).start (graph f m) =
      some (.ok (), graph f { m with kept := m.kept ++ [h], history }) := by
  obtain ⟨_, _, _, _, _, _, _, _, phase⟩ := m
  subst running
  exact ⟨_, fun _ => rfl⟩

theorem tankOf_start : (Run.tankOf queue).start (graph f m) = some (.ok m.tank, graph f m) := rfl

theorem drain_stops {tank : Tank} (relieved : m.tank.release = (none, tank)) (depth : Nat) :
    (Traffic.perform (depth + 1) (.drain queue)).start (graph f m) =
      some (.ok (), graph f { m with tank }) := by
  change (Traffic.drain (Traffic.perform depth) queue).start (graph f m) = _
  unfold Traffic.drain
  rw [Run.start_bind_of_start tankOf_start, relieved]
  rfl

def sent (p : Parcel) : Parcel := { p with fork := .main, origin := some "tank_queue" }

theorem drain_round {tank : Tank} {h : Handle} (released : m.tank.release = (some h, tank))
    (running : m.sinkPhase = .running) : ∃ history, ∀ depth,
    (Traffic.perform (depth + 2) (.drain queue)).start (graph f m) =
      (Traffic.perform (depth + 1) (.drain queue)).start (graph f { m with
        tank, kept := m.kept ++ [h], store := m.store.update h sent, history }) := by
  let report : Event Stock := .report (.tankForwarded "tank_queue" tank.released)
  have opened (again : Call → Run Stock Unit) : (Traffic.drain again queue).start (graph f m) = (do
      Traffic.forward again queue h .main
      again (.drain queue) : Run Stock Unit).start
        (graph f { m with tank, history := report :: m.history }) := by
    unfold Traffic.drain
    rw [Run.start_bind_of_start tankOf_start, released]
    rfl
  let handed : Moment := { m with
    tank, store := m.store.update h sent
    history := .report (.parcelForwarded "tank_queue" "sink" .main) :: report :: m.history }
  have forwarded (again : Call → Run Stock Unit) : (Traffic.forward again queue h .main).start
      (graph f { m with tank, history := report :: m.history }) =
        (again (.deliver sink (.parcel h))).start (graph f handed) := rfl
  obtain ⟨history, kept⟩ := sink_keeps (f := f) (m := handed) running h
  refine ⟨history, fun depth => ?_⟩
  change (Traffic.drain (Traffic.perform (depth + 1)) queue).start _ = _
  rw [opened, Run.start_bind, forwarded, kept depth]
  rfl

theorem push_release {t : Tank} (unlimited : t.capacity < 0) (h : Handle) (p : Parcel) :
    (t.push h p).release = (none, t.push h p) :=
  Tank.release_relieved (Tank.popExcess_none_iff.mpr (.inl unlimited))

theorem send_waits (unlimited : m.tank.capacity < 0) (running : m.queuePhase = .running)
    (idle : m.active = false) (p : Parcel) :
    Returns (fun depth => Graph.send depth p) (graph f m) fun result after =>
      result = .ok () ∧ ∃ history, after = graph f { m with
        tank := m.tank.push m.store.cells.size p, store := (m.store.add p).2, history } := by
  obtain ⟨was, kept, store, history, closing, active, rootPhase, phase, sinkPhase⟩ := m
  subst running idle
  let h : Handle := store.cells.size
  let added : Moment :=
    { tank := was, kept, store := (store.add p).2, history, closing, active := false, rootPhase,
      queuePhase := .running, sinkPhase }
  -- A parcel goes through the root to the queue, which stores it and drains; without a limit that
  -- ends at once.
  have read : added.store.read h = p := Store.read_add_self store p
  have sends (depth : Nat) : (Graph.send depth p).start (graph f
    { tank := was, kept, store, history, closing, active := false, rootPhase,
      queuePhase := .running, sinkPhase }) =
        (Traffic.perform depth (.deliver 0 (.parcel h))).start (graph f added) := rfl
  have enters (depth : Nat) : (Traffic.step (Traffic.perform depth) (.deliver 0 (.parcel h))).start
      (graph f added) = (Traffic.perform depth (.deliver queue (.parcel h))).start (graph f added) := rfl
  refine .congr sends (Traffic.perform_returns (.congr enters (Traffic.perform_returns ?_)))
  have opened : (graph f added).Open queue := ⟨_, .tankQueue, rfl, rfl, rfl, (nofun : Phase.running ≠ .closed)⟩
  refine .congr (fun depth => Traffic.deliver_open opened _ h) (.bind (.attempt (.holding ?_)))
  refine Bouncing.accept_returns rfl rfl rfl h fun history => ?_
  let fed : Moment :=
    { tank := was.push h p, kept, store := (store.add p).2, history, closing, active := true,
      rootPhase, queuePhase := .running, sinkPhase }
  have feeds (depth : Nat) : (Traffic.interpret (Traffic.perform depth) queue
      (Stock.tankQueue.accept ⟨queue, "tank_queue", f.queue.typeName⟩ h)).start
        (graph f { added with active := true, history }) =
          (Traffic.perform depth (.drain queue) >>= fun _ => pure ()).start
            (graph f { fed with tank := was.push h (added.store.read h) }) := rfl
  rw [read] at feeds
  refine .congr feeds (.bind ⟨1, .ok (), graph f fed, fun depth deep => ?_, ?_⟩)
  · obtain ⟨less, rfl⟩ : ∃ less, depth = less + 1 := ⟨depth - 1, by omega⟩
    exact drain_stops (m := fed) (push_release unlimited h p) less
  · refine ⟨0, .ok (), _, fun _ _ => rfl, ?_⟩
    refine ⟨0, .ok (), _, fun _ _ => rfl, rfl, _, rfl⟩

def fill (t : Tank) (store : Store) : List Parcel → Tank × Store
  | [] => (t, store)
  | p :: rest => fill (t.push store.cells.size p) (store.add p).2 rest

theorem sendAll_waits (unlimited : m.tank.capacity < 0) (running : m.queuePhase = .running)
    (idle : m.active = false) (parcels : List Parcel) :
    Returns (fun depth => Graph.sendAll depth parcels) (graph f m) fun result after =>
      result = .ok () ∧ ∃ history, after = graph f { m with
        tank := (fill m.tank m.store parcels).1, store := (fill m.tank m.store parcels).2, history } := by
  induction parcels generalizing m with
  | nil => exact .of_start rfl ⟨rfl, m.history, rfl⟩
  | cons p rest ih =>
    refine .bind ((send_waits unlimited running idle p).mono fun result after ends => ?_)
    obtain ⟨rfl, history, rfl⟩ := ends
    exact ih unlimited running idle

theorem release_first {t : Tank} {slot : Slot Handle} {rest : List (Slot Handle)} {h : Handle}
    (capacity : t.capacity = 0) (slots : t.buffer.slots = slot :: rest) (item : slot.item = some h) :
    t.release = (some h,
      { t with buffer := { t.buffer with slots := rest }, released := t.released + 1 }) := by
  have excess : ¬(rest.length : Int) + 1 ≤ 0 := by omega
  simp [Tank.release, Tank.releaseBy, Tank.popExcess, Tank.size, Buffer.size, Buffer.pop, slots,
    capacity, item, excess]

def sendOn (store : Store) (hs : List Handle) : Store :=
  hs.foldl (fun store h => store.update h sent) store

theorem drain_empties (capacity : m.tank.capacity = 0) (running : m.sinkPhase = .running)
    {hs : List Handle} (filled : m.tank.buffer.slots.map Slot.item = hs.map some) :
    Returns (fun depth => Traffic.perform depth (.drain queue)) (graph f m) fun result after =>
      result = .ok () ∧ ∃ tank history, after = graph f { m with
        tank, kept := m.kept ++ hs, store := sendOn m.store hs, history } := by
  induction hs generalizing m with
  | nil =>
    have empty : m.tank.buffer.slots = [] := List.map_eq_nil_iff.mp filled
    refine ⟨1, .ok (), graph f m, fun depth deep => ?_, rfl, m.tank, m.history, ?_⟩
    · obtain ⟨less, rfl⟩ : ∃ less, depth = less + 1 := ⟨depth - 1, by omega⟩
      exact drain_stops (Tank.release_empty empty) less
    · simp [sendOn]
  | cons h rest ih =>
    obtain ⟨slot, slots, same, item, filled⟩ := List.map_eq_cons_iff.mp filled
    obtain ⟨history, round⟩ := drain_round (f := f) (release_first capacity same item) running
    let next : Moment := { m with
      tank := { m.tank with
        buffer := { m.tank.buffer with slots }, released := m.tank.released + 1 }
      kept := m.kept ++ [h], store := m.store.update h sent, history }
    obtain ⟨depth, result, after, started, ended, tank, history, last⟩ :=
      ih (m := next) capacity running filled
    refine ⟨depth + 2, result, after, fun more deep => ?_, ended, tank, history, ?_⟩
    · obtain ⟨less, rfl⟩ : ∃ less, more = less + 2 := ⟨more - 2, by omega⟩
      exact (round less).trans (started (less + 1) (by omega))
    · rw [last]
      simp [next, sendOn]

theorem flush_opened : ∃ history, ∀ depth,
    (Traffic.callLast (Traffic.perform depth) queue .flush Stage.flush).start (graph f m) = (do
      match ← Run.attempt (Traffic.perform depth (.drain queue) >>= fun _ => pure ()) with
      | .ok () => pure ()
      | .error e => do
        Run.remember (.failed queue .flush e)
        throw e : Run Stock Unit).start
          (graph f { m with tank := { m.tank with capacity := 0 }, history }) :=
  ⟨_, fun _ => rfl⟩

theorem queue_flushes (running : m.sinkPhase = .running)
    {hs : List Handle} (filled : m.tank.buffer.slots.map Slot.item = hs.map some) :
    Returns (fun depth => Traffic.callLast (Traffic.perform depth) queue .flush Stage.flush) (graph f m)
      fun result after => result = .ok () ∧ ∃ tank history, after = graph f { m with
        tank, kept := m.kept ++ hs, store := sendOn m.store hs, history } := by
  obtain ⟨history, opened⟩ := flush_opened (f := f) (m := m)
  refine .congr opened (.bind (.attempt (.bind ?_)))
  refine (drain_empties (m := { m with tank := { m.tank with capacity := 0 }, history }) rfl running
    filled).mono fun result after ends => ?_
  obtain ⟨rfl, tank, history, rfl⟩ := ends
  exact .of_start rfl (.of_start rfl ⟨rfl, tank, history, rfl⟩)

theorem stage_closes {node : Node Stock} {s : Stock} (id : NodeId) {g : Graph Stock}
    (found : g.node? id = some node) (stage : node.kind = .stage s) (running : node.phase = .running)
    (idle : node.busy = false) (again : Call → Run Stock Unit) :
    (Traffic.step again (.close id)).start g = (do
      let loops ← Run.holding id do
        Run.setPhase id .flushing
        Traffic.callLast again id .flush Stage.flush
        Run.setPhase id .closing
        Traffic.callLast again id .close Stage.close
        Run.setPhase id .closed
        Traffic.feedsBack id
      Run.report (.stageClosed node.path node.typeName)
      if loops then pure () else Traffic.onward again node.main .close : Run Stock Unit).start g := by
  change (Traffic.close again id).start g = _
  unfold Traffic.close
  rw [Run.atNode_start found, stage]
  dsimp only
  rw [Traffic.closeStage, if_neg (by simp [running]), if_neg (by simp [idle])]

theorem sink_closes (running : m.sinkPhase = .running) : ∃ history, ∀ depth,
    (Traffic.perform (depth + 1) (.close sink)).start (graph f m) =
      some (.ok (), graph f { m with sinkPhase := .closed, history }) := by
  obtain ⟨tank, kept, store, history, closing, active, rootPhase, queuePhase, phase⟩ := m
  subst running
  have opened := stage_closes sink (g := graph f
    { tank, kept, store, history, closing, active, rootPhase, queuePhase, sinkPhase := .running })
    rfl rfl rfl rfl
  exact ⟨_, fun depth => (opened _).trans rfl⟩

theorem queue_closes (was : Moment) (first : was.queuePhase = .running) (idle : was.active = false)
    (last : was.sinkPhase = .running) {hs : List Handle}
    (filled : was.tank.buffer.slots.map Slot.item = hs.map some) :
    Returns (fun depth => Traffic.perform depth (.close queue)) (graph f was) fun result after =>
      result = .ok () ∧ ∃ m, after = graph f m ∧ m.kept = was.kept ++ hs ∧
        m.store = sendOn was.store hs := by
  obtain ⟨tank, kept, store, history, closing, active, rootPhase, phase, sinkPhase⟩ := was
  subst first idle last
  let open' : Moment :=
    { tank, kept, store, history, closing, active := false, rootPhase, queuePhase := .running,
      sinkPhase := .running }
  have opened := stage_closes queue (g := graph f open') rfl rfl rfl rfl
  refine Traffic.perform_returns (.congr (fun depth => opened _) (.bind (.holding (.update_bind
    (.bind ?_)))))
  refine (queue_flushes (m := { open' with active := true, queuePhase := .flushing }) rfl
    filled).mono fun result after ends => ?_
  obtain ⟨rfl, tank, history, rfl⟩ := ends
  let flushed : Moment :=
    { tank, kept := kept ++ hs, store := sendOn store hs, history, closing, active := true,
      rootPhase, queuePhase := .flushing, sinkPhase := .running }
  -- Closing it sends nothing.
  obtain ⟨history, ended⟩ : ∃ history', ∀ depth, (do
      Run.setPhase queue .closing
      Traffic.callLast (Traffic.perform depth) queue .close Stage.close
      Run.setPhase queue .closed
      Traffic.feedsBack queue : Run Stock Bool).start
        (graph f flushed) =
          some (.ok false, graph f { flushed with history := history', queuePhase := .closed }) :=
    ⟨_, fun _ => rfl⟩
  refine ⟨0, .ok false, _, fun depth _ => ended depth, ?_⟩
  let reported : Moment :=
    { tank, kept := kept ++ hs, store := sendOn store hs,
      history := .report (.stageClosed "tank_queue" f.queue.typeName) :: history, closing,
      active := false, rootPhase, queuePhase := .closed, sinkPhase := .running }
  obtain ⟨history, last⟩ := sink_closes (f := f) (m := reported) rfl
  refine .update_bind ⟨1, .ok (), _, fun depth deep => ?_, rfl, { reported with
    sinkPhase := .closed, history }, rfl, rfl, rfl⟩
  obtain ⟨less, rfl⟩ : ∃ less, depth = less + 1 := ⟨depth - 1, by omega⟩
  exact last less

theorem shutdown_empties {was : Moment} (first : was.queuePhase = .running)
    (idle : was.active = false) (last : was.sinkPhase = .running) (root : was.rootPhase = .running)
    (ongoing : was.closing = false) {hs : List Handle}
    (filled : was.tank.buffer.slots.map Slot.item = hs.map some) :
    Returns Graph.shutdown (graph f was) fun result after =>
      result = .ok () ∧ ∃ m, after = graph f m ∧ m.kept = was.kept ++ hs ∧
        m.store = sendOn was.store hs := by
  obtain ⟨tank, kept, store, history, closing, active, rootPhase, phase, sinkPhase⟩ := was
  subst first idle last root ongoing
  let open' : Moment :=
    { tank, kept, store, history, closing := false, active := false, rootPhase := .running,
      queuePhase := .running, sinkPhase := .running }
  obtain ⟨history, began⟩ : ∃ history', ∀ depth, (Graph.shutdown depth).start (graph f open') = (do
        Traffic.perform depth (.close 0)
        Run.report (.shutdownCompleted f.root.typeName .zero) : Run Stock Unit).start
        (graph f { open' with history := history', closing := true }) :=
    ⟨_, fun _ => rfl⟩
  let leaving : Moment := { open' with history, closing := true }
  have entered (depth : Nat) :
      (Traffic.step (Traffic.perform depth) (.close 0)).start (graph f leaving) =
        (Traffic.perform depth (.close queue)).start
          (graph f { leaving with rootPhase := .closed }) := rfl
  refine .congr began (.bind (Traffic.perform_returns (.congr entered ?_)))
  refine (queue_closes { leaving with rootPhase := .closed } rfl rfl rfl filled).mono fun result after ends => ?_
  obtain ⟨rfl, m, rfl, kept, store⟩ := ends
  exact .update ⟨rfl, { m with
    history := .report (.shutdownCompleted f.root.typeName .zero) :: m.history }, rfl, kept, store⟩

def cards : List Card := [
  ⟨.whole (some queue) (some sink), "hoard", "", none, none, true⟩,
  ⟨.queue, "tank_queue", "tank_queue", some sink, none, true⟩,
  ⟨.sink 0, "sink", "sink", none, none, true⟩]

def ready (nodes : Array (Node Stock)) : Bool :=
  decide (nodes.toList.map Node.card = cards) &&
    nodes.all (fun node => !node.busy && decide (node.phase = .running)) &&
    (nodes[queue]?.any fun node =>
      node.tank.buffer.slots.isEmpty && decide (node.tank.buffer.arrived = 0) &&
        decide (node.tank.capacity = -1) && decide (node.tank.field = Tank.seqField)) &&
    nodes[sink]?.any fun node =>
      (node.state?.bind Stock.toSink?).any fun s => s.results.isEmpty

set_option maxRecDepth 100000 in
theorem hoard_assembled : ∃ nodes, (hoard .empty).assemble.run.1 = .ok nodes ∧ ready nodes = true := by
  have checked : (match (hoard .empty).assemble.run.1 with
      | .ok nodes => ready nodes
      | .error _ => false) = true := by decide +kernel
  split at checked
  next nodes assembled => exact ⟨nodes, assembled, checked⟩
  next => cases checked

theorem hoard_static (outline : Outline Stock)
    (declared : (Outline.declare (hoard .empty).registry (hoard .empty).pipeline).run.1 = .ok outline)
    (s : Level) (member : s ∈ (Layout.ofOutline outline).levels) :
    s.pipeline.dynamic = false := by
  have checked : (match (Outline.declare (hoard .empty).registry (hoard .empty).pipeline).run.1 with
      | .ok outline => (Layout.ofOutline outline).levels.all fun s => !s.pipeline.dynamic
      | .error _ => false) = true := by decide +kernel
  rw [declared] at checked
  simpa using List.all_eq_true.mp checked s member

theorem node_of_card {node : Node Stock} {card : Card} (same : node.card = card)
    (steady : card.steady = true) (running : node.phase = .running) (idle : node.busy = false) :
    node = { node with
      name := card.name, path := card.path, main := card.main, dynamic := [], phase := .running
      busy := false, closeDeferred := false } := by
  have steady : node.card.steady = true := same ▸ steady
  obtain ⟨-, static, ended⟩ := Bouncing.steady_of_card steady
  subst same
  cases node
  simp_all [Node.card]

theorem ready_graph {nodes : Array (Node Stock)} (ready : ready nodes = true)
    (environment : Environment) (history : List (Event Stock)) : ∃ f tank,
    Graph.make nodes 0 environment history = graph f { tank, kept := [], store := .empty, history } ∧
      tank.buffer = .empty ∧ tank.capacity < 0 ∧ tank.field = Tank.seqField := by
  obtain ⟨nodes⟩ := nodes
  simp only [Hoarding.ready, Bool.and_eq_true, decide_eq_true_eq, Option.any_eq_true,
    List.isEmpty_iff] at ready
  obtain ⟨⟨⟨listed, quiet⟩, node, there, ⟨⟨slots, arrived⟩, capacity⟩, field⟩, last, own, sink', holds,
    kept⟩ := ready
  obtain ⟨root, later, rfl, rootCard, listed⟩ := List.map_eq_cons_iff.mp listed
  obtain ⟨tankNode, later, rfl, queueCard, listed⟩ := List.map_eq_cons_iff.mp listed
  obtain ⟨sinkNode, later, rfl, sinkCard, listed⟩ := List.map_eq_cons_iff.mp listed
  obtain rfl := List.map_eq_nil_iff.mp listed
  obtain rfl : tankNode = node := Option.some.inj there
  obtain rfl : sinkNode = last := Option.some.inj own
  simp only [List.all_toArray, List.all_cons, List.all_nil, Bool.and_true, Bool.and_eq_true,
    Bool.not_eq_true', decide_eq_true_eq] at quiet
  obtain ⟨⟨rootIdle, rootPhase⟩, ⟨queueIdle, queuePhase⟩, sinkIdle, sinkPhase⟩ := quiet
  have atRoot := node_of_card rootCard rfl rootPhase rootIdle
  have atQueue := node_of_card queueCard rfl queuePhase queueIdle
  have atSink := node_of_card sinkCard rfl sinkPhase sinkIdle
  have rootKind : root.kind = .subGraph (some queue) (some sink) := Node.card_fits rootCard
  have queueKind : tankNode.kind = .stage .tankQueue := Node.card_fits queueCard
  obtain ⟨s, sinkKind, limit⟩ := Node.card_fits sinkCard
  obtain rfl : s = sink' := by simpa [Node.state?, sinkKind, Stock.toSink?] using holds
  have plain : s = { s with results := [], maxResults := 0 } := by rw [← kept, ← limit]
  -- Every field of the three nodes is known, so the graph is one of the family by reflexivity.
  refine ⟨⟨root, tankNode, sinkNode, environment, s⟩, tankNode.tank, ?_, ?_, ?_, field⟩
  · have first : root = { root with
        path := "", kind := .subGraph (some queue) (some sink), phase := .running } := by
      rw [atRoot, rootKind]
    have second : tankNode = { tankNode with
        name := "tank_queue", path := "tank_queue", kind := .stage .tankQueue, main := some sink
        dynamic := [], phase := .running, busy := false, closeDeferred := false } := by
      rw [atQueue, queueKind]
    have third : sinkNode = { sinkNode with
        name := "sink", path := "sink", main := none
        kind := .stage (.sink { s with results := [], maxResults := 0 })
        dynamic := [], phase := .running, busy := false, closeDeferred := false } := by
      rw [atSink, sinkKind, ← plain]
    change Graph.mk #[root, tankNode, sinkNode, Graph.pumpSinkNode] 0 3 _ _ _ _ = _
    conv_lhs => rw [first, second, third]
    rfl
  · rw [show tankNode.tank.buffer = ⟨tankNode.tank.buffer.slots, tankNode.tank.buffer.arrived⟩ from rfl,
      slots, arrived]
    rfl
  · omega

theorem hoard_built (environment : Environment) : ∃ g f tank history,
    (hoard environment).build.1 = .ok g ∧
      g = graph f { tank, kept := [], store := .empty, history } ∧
      tank.buffer = .empty ∧ tank.capacity < 0 ∧ tank.field = Tank.seqField := by
  obtain ⟨nodes, assembled, ready⟩ := hoard_assembled
  have surroundings : (hoard environment).assemble.run = (hoard .empty).assemble.run :=
    Blueprint.assemble_environment (b := hoard .empty) hoard_static environment
  rw [← surroundings] at assembled
  obtain ⟨history, built⟩ := Blueprint.build_assembled assembled
  obtain ⟨f, tank, same, kept⟩ := ready_graph ready environment history
  exact ⟨_, f, tank, history, built, same, kept⟩

def pushes (t : Tank) (h : Handle) (parcels : List Parcel) : List (Buffer.Operation Handle) :=
  (parcels.zipIdx h).map fun (p, h) => .push h (t.priority p)

theorem fill_eq (t : Tank) (store : Store) (parcels : List Parcel) :
    fill t store parcels =
      ({ t with buffer := (t.buffer.performAll (pushes t store.cells.size parcels)).2 },
        ⟨store.cells ++ parcels.toArray⟩) := by
  induction parcels generalizing t store with
  | nil => simp [fill, pushes, Buffer.performAll]
  | cons p rest ih =>
    have size : (store.add p).2.cells.size = store.cells.size + 1 := Array.size_push _
    have same (h : Handle) : pushes (t.push store.cells.size p) h rest = pushes t h rest := rfl
    rw [fill, ih, size, same]
    simp [pushes, Buffer.performAll, Buffer.perform, Store.add, Tank.push]

def place (p : Parcel) (n : Nat) : Double :=
  match p.seq with
  | some number => Double.ofInt number
  | none => ((p.attr? "seq_num").bind Value.asDouble?).getD (Double.ofInt n)

def Precedes (first later : Parcel × Nat) : Prop :=
  (place first.1 first.2).rank < (place later.1 later.2).rank ∨
    (place first.1 first.2).rank = (place later.1 later.2).rank ∧ first.2 < later.2

def slot (entry : Parcel × Nat) : Slot Handle := ⟨place entry.1 entry.2, entry.2, some (entry.2 - 1)⟩

theorem performAll_pushes (b : Buffer Handle) (t : Tank) (h : Handle) (parcels : List Parcel) :
    (b.performAll (pushes t h parcels)).1 = [] := by
  induction parcels generalizing b h with
  | nil => rfl
  | cons p rest ih => exact ih _ (h + 1)

theorem arrivals_pushes {t : Tank} (field : t.field = Tank.seqField) (parcels : List Parcel) (n : Nat) :
    Buffer.arrivals n (pushes t n parcels) = (parcels.zipIdx (n + 1)).map slot := by
  induction parcels generalizing n with
  | nil => rfl
  | cons p rest ih =>
    have placed : (t.priority p).getD (Double.ofInt (n + 1)) = place p (n + 1) := by
      cases seq : p.seq <;> simp [Tank.priority, place, Tank.attrPriority, seq, field, Tank.seqField]
    have later := ih (n + 1)
    unfold pushes at later ⊢
    simp [Buffer.arrivals, slot, placed, later]

theorem fill_sorts {t : Tank} (empty : t.buffer = .empty) (field : t.field = Tank.seqField)
    (parcels : List Parcel) : ∃ order : List (Parcel × Nat),
      order.Perm (parcels.zipIdx 1) ∧ order.Pairwise Precedes ∧
        (fill t .empty parcels).1.buffer.slots = order.map slot := by
  have ⟨ordered, perm⟩ := Buffer.performAll_keeps (α := Handle) .empty (pushes t 0 parcels)
  rw [performAll_pushes] at perm
  replace perm : (Buffer.empty.performAll (pushes t 0 parcels)).2.slots.Perm
      ((parcels.zipIdx 1).map slot) := arrivals_pushes field parcels 0 ▸ perm
  have filled : (fill t .empty parcels).1.buffer = (Buffer.empty.performAll (pushes t 0 parcels)).2 := by
    rw [fill_eq, empty]
    rfl
  -- The slots are those of the parcels in another order of the parcels.
  have reordered := congrFun (congrFun (List.eq_map_comp_perm slot)
    (Buffer.empty.performAll (pushes t 0 parcels)).2.slots) (parcels.zipIdx 1)
  obtain ⟨order, same, moved⟩ := reordered.mpr perm
  have leaving := ordered.leaving
  rw [same, Slot.Leaving, List.pairwise_map] at leaving
  refine ⟨order, moved, leaving.imp fun before => Slot.before_iff.mp before, ?_⟩
  rw [filled, same]

theorem read_sendOn {store : Store} {h : Handle} (inside : h < store.cells.size) (hs : List Handle) :
    (sendOn store hs).read h = if h ∈ hs then sent (store.read h) else store.read h := by
  induction hs generalizing store with
  | nil => simp [sendOn]
  | cons other rest ih =>
    have within : h < (store.update other sent).cells.size := by
      simpa [Store.update, Store.write] using inside
    change (sendOn (store.update other sent) rest).read h = _
    rw [ih within]
    by_cases same : h = other
    · subst same
      have written : (store.update h sent).read h = sent (store.read h) :=
        Store.read_write_self store _ inside
      simp [written, sent]
    · have written : (store.update other sent).read h = store.read h :=
        Store.read_write_of_ne store _ (Ne.symm same)
      simp [written, same]

theorem sendOn_reads {order : List (Parcel × Nat)} {parcels : List Parcel}
    (perm : order.Perm (parcels.zipIdx 1)) :
    (order.map fun entry => entry.2 - 1).map
        (sendOn ⟨parcels.toArray⟩ (order.map fun entry => entry.2 - 1)).read =
      order.map fun entry => sent entry.1 := by
  rw [List.map_map]
  refine List.map_congr_left fun entry member => ?_
  obtain ⟨p, n⟩ := entry
  obtain ⟨least, below, same⟩ := List.mem_zipIdx (perm.mem_iff.mp member)
  have inside : n - 1 < (⟨parcels.toArray⟩ : Store).cells.size := by
    simp
    omega
  have there : n - 1 ∈ order.map fun entry => entry.2 - 1 := List.mem_map_of_mem member
  have read : (⟨parcels.toArray⟩ : Store).read (n - 1) = p := by
    rw [Store.read, same]
    simp [show n - 1 < parcels.length by omega]
  change (sendOn _ _).read (n - 1) = sent p
  rw [read_sendOn inside, if_pos there, read]

/-- Parcels wait until the shutdown, and come out in their order then. -/
theorem unbounded_queue_sorts (environment : Environment) :
    ∃ g, (hoard environment).build.1 = .ok g ∧ ∀ parcels,
      Returns (fun depth => Graph.sendAll depth parcels) g fun result mid =>
        result = .ok () ∧ mid.keptAt "sink" = .ok [] ∧
          Returns Graph.shutdown mid fun result after =>
            result = .ok () ∧ ∃ order : List (Parcel × Nat),
              order.Perm (parcels.zipIdx 1) ∧ order.Pairwise Precedes ∧
                after.keptAt "sink" = .ok (order.map fun entry => sent entry.1) := by
  obtain ⟨g, f, tank, history, built, rfl, empty, unlimited, field⟩ := hoard_built environment
  refine ⟨_, built, fun parcels => ?_⟩
  refine (sendAll_waits unlimited rfl rfl parcels).mono fun result mid ⟨ended, history, waits⟩ => ?_
  subst ended waits
  refine ⟨rfl, graph_keptAt, ?_⟩
  obtain ⟨order, perm, sorted, slots⟩ := fill_sorts empty field parcels
  have filled : (fill tank .empty parcels).1.buffer.slots.map Slot.item =
      (order.map fun entry => entry.2 - 1).map some := by
    rw [slots, List.map_map, List.map_map]
    rfl
  refine (shutdown_empties rfl rfl rfl rfl rfl filled).mono fun result after ends => ?_
  obtain ⟨rfl, m, rfl, kept, store⟩ := ends
  refine ⟨rfl, order, perm, sorted, ?_⟩
  rw [graph_keptAt, kept, store, fill_eq, ← sendOn_reads perm]
  simp [Store.empty]

end Hoarding

end Sluice
