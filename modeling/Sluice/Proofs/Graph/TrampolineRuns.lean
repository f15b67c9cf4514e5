import Mathlib.Algebra.GroupWithZero.Nat
import Sluice.Proofs.Graph.TrampolineGraph
import Sluice.Proofs.Graph.Pump
import Sluice.Proofs.Graph.ExitChains

set_option autoImplicit false

namespace Sluice

namespace Tank

def turned (t : Tank) (n : Nat) : Tank :=
  { t with buffer := ⟨[], t.buffer.arrived + n⟩, released := t.released + n }

@[simp] theorem turned_turned (t : Tank) (m n : Nat) : (t.turned m).turned n = t.turned (m + n) := by
  simp [turned, Nat.add_assoc]

theorem turned_zero {t : Tank} (empty : t.buffer.slots = []) : t.turned 0 = t := by
  obtain ⟨⟨slots, arrived⟩, _, _, _⟩ := t
  cases empty
  rfl

theorem push_release {t : Tank} (empty : t.buffer.slots = []) (capacity : t.capacity = 0) (h : Handle)
    (p : Parcel) : (t.push h p).release = (some h, t.turned 1) := by
  simp [release, releaseBy, popExcess, push, size, Buffer.size, Buffer.push, Buffer.addSlot,
    Buffer.pop, Slot.insert, empty, capacity, turned]

theorem release_empty {t : Tank} (empty : t.buffer.slots = []) : t.release = (none, t) := by
  simp [release, releaseBy, size, Buffer.size, empty]

end Tank

namespace Run.Returns

open Bouncing

variable {j : Job} {last : Option NodeId} {active : List NodeId} {g : Graph Stock}
  {first : Nat → Run Stock Unit}

theorem next {load : Load}
    (returns : Returns first g (Comes j last active (.ok load))) {next : Nat → Run Stock Unit}
    {post : Except EngineError Unit → Graph Stock → Prop}
    (rest : ∀ after, Turning j last active load after → Returns next after post) :
    Returns (fun depth => first depth >>= fun _ => next depth) g post := by
  refine .bind (returns.mono fun result after comes => ?_)
  cases result with
  | error e => exact comes.elim
  | ok _ => exact rest after comes

theorem stop {failure : Breakdown}
    (returns : Returns first g (Comes j last active (.error failure))) {next : Nat → Run Stock Unit} :
    Returns (fun depth => first depth >>= fun _ => next depth) g
      (Comes j last active (.error failure)) := by
  refine .bind (returns.mono fun result after comes => ?_)
  cases result with
  | error e => exact comes
  | ok _ => exact comes.elim

end Run.Returns

namespace Bouncing

open Run (Returns)

structure Idle (t : Tank) : Prop where
  empty : t.buffer.slots = []
  capacity : t.capacity = 0

theorem Idle.turned {t : Tank} (idle : Idle t) (n : Nat) : Idle (t.turned n) := ⟨rfl, idle.capacity⟩

section

variable {j : Job} {tank : Tank} {kept : List Handle} {base store : Store} {p : Parcel} {h : Handle}
  {g : Graph Stock} {reason : String}

theorem tankOf_start {last : Option NodeId} {active : List NodeId}
    (w : Turning j last active ⟨tank, kept, store⟩ g) :
    (Run.tankOf queue).start g = some (.ok tank, g) := by
  change some (Except.ok ((g.tank? queue).getD .empty), g) = _
  rw [w.tank]
  rfl

theorem drain_ends (idle : Idle tank)
    (w : Turning j (some pumpSink) [queue] ⟨tank, kept, store⟩ g) :
    Returns (fun depth => Traffic.perform depth (.drain queue)) g
      (Comes j (some pumpSink) [queue] (.ok ⟨tank, kept, store⟩)) := by
  have opened (depth : Nat) : (Traffic.step (Traffic.perform depth) (.drain queue)).start g =
      some (.ok (), g.updateNode queue fun node => { node with tank := tank }) := by
    change (Traffic.drain (Traffic.perform depth) queue).start g = _
    unfold Traffic.drain
    rw [Run.start_bind_of_start (tankOf_start w), Tank.release_empty idle.empty]
    rfl
  exact Traffic.perform_returns ⟨0, _, _, fun depth _ => opened depth, w.refill fun _ => tank⟩

theorem drain_round (inside : h < base.cells.size) (idle : Idle tank)
    (w : Turning j (some pumpSink) [queue] ⟨tank.push h p, kept, base.write h p⟩ g) :
    ∃ mid, Turning j (some pumpSink) [queue] ⟨tank.turned 1, kept,
        base.write h { p with fork := .main, origin := some "tank_queue" }⟩ mid ∧
      ∀ depth, (Traffic.step (Traffic.perform depth) (.drain queue)).start g = (do
        Traffic.perform depth (.deliver body (.parcel h))
        Traffic.perform depth (.drain queue) : Run Stock Unit).start mid := by
  let refilled := g.updateNode queue fun node => { node with tank := tank.turned 1 }
  let released := refilled.remember
    (.report (.tankForwarded (refilled.pathOf queue) (tank.turned 1).released))
  have left : Turning j (some pumpSink) [queue] ⟨tank.turned 1, kept, base.write h p⟩ released :=
    (w.refill fun _ => tank.turned 1).during _
  obtain ⟨mid, w', forwards⟩ := left.forward inside queue rfl rfl rfl .main nofun
  refine ⟨mid, w', fun depth => ?_⟩
  have opened : (Traffic.step (Traffic.perform depth) (.drain queue)).start g = (do
      Traffic.forward (Traffic.perform depth) queue h .main
      Traffic.perform depth (.drain queue) : Run Stock Unit).start released := by
    change (Traffic.drain (Traffic.perform depth) queue).start g = _
    unfold Traffic.drain
    rw [Run.start_bind_of_start (tankOf_start w), Tank.push_release idle.empty idle.capacity]
    rfl
  rw [opened, Run.start_bind, Run.start_bind, forwards]

theorem drain_settles (inside : h < base.cells.size) (idle : Idle tank)
    (w : Turning j (some pumpSink) [queue] ⟨tank.push h p, kept, base.write h p⟩ g) {k : Nat}
    (settles : j.step.Settles p.content k) :
    Returns (fun depth => Traffic.perform depth (.drain queue)) g
      (Comes j (some pumpSink) [queue] (.ok ⟨tank.turned k, kept ++ [h],
        base.write h ((j.step.turn^[k] p.content).parcel .main (some "sink"))⟩)) := by
  -- After a round there is the same to show of the parcel as the script has left it.
  induction k generalizing p tank g with
  | zero => exact absurd settles.some (Nat.not_succ_le_zero 0)
  | succ k ih =>
    have works : (j.step p.content).2 = none := settles.works 0 (Nat.succ_pos k)
    obtain ⟨mid, w, opened⟩ := drain_round inside idle w
    refine Traffic.perform_returns (.congr opened ?_)
    cases k with
    | zero =>
      -- The last round: the parcel leaves, and nothing has been put into the tank.
      obtain ⟨v, has, left⟩ := settles.stops
      exact (body_stops inside w works has left).next fun after w => drain_ends (idle.turned 1) w
    | succ k =>
      have has := settles.again 1 (Nat.le_refl 1) (by omega)
      refine (body_again inside w works has).next fun after w => ?_
      have rest := ih (idle.turned 1) w settles.turned
      rwa [Tank.turned_turned, Nat.add_comm 1] at rest

theorem drain_fails (inside : h < base.cells.size) (idle : Idle tank)
    (w : Turning j (some pumpSink) [queue] ⟨tank.push h p, kept, base.write h p⟩ g) {k : Nat}
    (fails : j.step.Fails p.content k reason) :
    Returns (fun depth => Traffic.perform depth (.drain queue)) g
      (Comes j (some pumpSink) [queue]
        (.error ⟨.data j.name reason, tank.turned (k + 1), kept⟩)) := by
  induction k generalizing p tank g with
  | zero =>
    obtain ⟨mid, w, opened⟩ := drain_round inside idle w
    exact Traffic.perform_returns (.congr opened (body_fails inside w fails.fails).stop)
  | succ k ih =>
    have works : (j.step p.content).2 = none := fails.works 0 (Nat.succ_pos k)
    have has := fails.again 1 (Nat.le_refl 1) (by omega)
    obtain ⟨mid, w, opened⟩ := drain_round inside idle w
    refine Traffic.perform_returns (.congr opened ?_)
    refine (body_again inside w works has).next fun after w => ?_
    have rest := ih (idle.turned 1) w fails.turned
    rwa [Tank.turned_turned, Nat.add_comm 1] at rest

theorem enters (inside : h < base.cells.size)
    (w : Turning j (some pumpSink) [] ⟨tank, kept, base.write h p⟩ g)
    {outcome : Except Breakdown Load}
    (drains : ∀ mid, Turning j (some pumpSink) [queue] ⟨tank.push h p, kept, base.write h p⟩ mid →
      Returns (fun depth => Traffic.perform depth (.drain queue)) mid
        (Comes j (some pumpSink) [queue] outcome)) :
    Returns (fun depth => Traffic.perform depth (.deliver g.root (.parcel h))) g
      (Comes j (some pumpSink) [] outcome) := by
  obtain ⟨root, found, card⟩ := w.node 0 rfl
  have kind : root.kind = .subGraph (some queue) (some sink) := Node.card_fits card
  have opened (depth : Nat) : (Traffic.step (Traffic.perform depth) (.deliver g.root (.parcel h))).start g =
      (Traffic.perform depth (.deliver queue (.parcel h))).start g := by
    rw [w.root]
    change (Traffic.deliver (Traffic.perform depth) 0 (.parcel h)).start g = _
    unfold Traffic.deliver
    rw [Run.atNode_start found, kind]
    rfl
  obtain ⟨node, found, card⟩ := w.node queue rfl
  have stage : node.kind = .stage .tankQueue := Node.card_fits card
  refine Traffic.perform_returns (.congr opened ?_)
  refine w.deliver found stage (congrArg Card.steady card) (by decide) h fun mid w there => ?_
  have fed := w.refill fun tank => tank.push h (mid.store.read h)
  have accepted (depth : Nat) : (Traffic.interpret (Traffic.perform depth) queue
      (Stock.tankQueue.accept (node.here queue) h)).start mid =
        (Traffic.perform depth (.drain queue)).start (mid.updateNode queue fun node =>
          { node with tank := node.tank.push h (mid.store.read h) }) := by
    change (Traffic.perform depth (.drain queue) >>= fun _ => pure ()).start _ = _
    rw [bind_pure_unit]
    rfl
  rw [w.read inside] at fed accepted
  exact .congr accepted (drains _ fed)

end

def outcome (f : Body) (p : Parcel) (k : Nat) : Parcel :=
  (f.turn^[k] p.content).parcel .main (some "sink")

def Load.sent (load : Load) (k : Nat) (p : Parcel) : Load :=
  ⟨load.tank.turned k, load.kept ++ [load.store.cells.size], (load.store.add p).2⟩

section

variable {j : Job} {load : Load} {p : Parcel} {g : Graph Stock} {k : Nat} {reason : String}

theorem add_written (store : Store) (p q : Parcel) :
    (store.add p).2.write store.cells.size q = (store.add q).2 := by
  refine congrArg Store.mk (Array.ext_getElem? fun i => ?_)
  by_cases here : store.cells.size = i
  · subst here
    simp [Store.add]
  · simp [Store.add, Array.getElem?_push, here, Ne.symm here]

theorem send_opened (w : Turning j (some pumpSink) [] load g) (p : Parcel) :
    ∃ mid, Turning j (some pumpSink) []
        ⟨load.tank, load.kept, (load.store.add p).2.write load.store.cells.size p⟩ mid ∧
      ∀ depth, (Graph.send depth p).start g =
        (Traffic.perform depth (.deliver mid.root (.parcel load.store.cells.size))).start mid := by
  refine ⟨{ g with store := (g.store.add p).2 }, ?_, fun depth => ?_⟩
  · rw [add_written, ← w.store]
    exact w.stored _
  · rw [← w.store]
    rfl

theorem send_settles (w : Turning j (some pumpSink) [] load g) (idle : Idle load.tank)
    (settles : j.step.Settles p.content k) :
    Returns (fun depth => Graph.send depth p) g
      (Comes j (some pumpSink) [] (.ok (load.sent k (outcome j.step p k)))) := by
  obtain ⟨mid, w, sent⟩ := send_opened w p
  have inside : load.store.cells.size < (load.store.add p).2.cells.size := by simp [Store.add]
  refine .congr sent (enters inside w fun mid w => ?_)
  have drained := drain_settles inside idle w settles
  rwa [add_written] at drained

theorem send_fails (w : Turning j (some pumpSink) [] load g) (idle : Idle load.tank)
    (fails : j.step.Fails p.content k reason) :
    Returns (fun depth => Graph.send depth p) g (Comes j (some pumpSink) []
      (.error ⟨.data j.name reason, load.tank.turned (k + 1), load.kept⟩)) := by
  obtain ⟨mid, w, sent⟩ := send_opened w p
  have inside : load.store.cells.size < (load.store.add p).2.cells.size := by simp [Store.add]
  exact .congr sent (enters inside w fun mid w => drain_fails inside idle w fails)

def Load.sentAll (f : Body) (rounds : Parcel → Nat) (load : Load) (parcels : List Parcel) : Load :=
  parcels.foldl (fun load p => load.sent (rounds p) (outcome f p (rounds p))) load

variable {rounds : Parcel → Nat} {parcels : List Parcel}

theorem sendAll_settles (w : Turning j (some pumpSink) [] load g) (idle : Idle load.tank)
    (settles : ∀ p ∈ parcels, j.step.Settles p.content (rounds p)) :
    Returns (fun depth => Graph.sendAll depth parcels) g
      (Comes j (some pumpSink) [] (.ok (load.sentAll j.step rounds parcels))) := by
  induction parcels generalizing load g with
  | nil => exact .pure w
  | cons p rest ih =>
    refine (send_settles w idle (settles p List.mem_cons_self)).next fun after w => ?_
    exact ih w (idle.turned _) fun q member => settles q (List.mem_cons_of_mem p member)

theorem sendAll_fails (w : Turning j (some pumpSink) [] load g) (idle : Idle load.tank)
    (settles : ∀ p ∈ parcels, j.step.Settles p.content (rounds p)) (fails : j.step.Fails p.content k reason)
    (rest : List Parcel) :
    Returns (fun depth => Graph.sendAll depth (parcels ++ p :: rest)) g
      (Comes j (some pumpSink) [] (.error ⟨.data j.name reason,
        (load.sentAll j.step rounds parcels).tank.turned (k + 1),
        (load.sentAll j.step rounds parcels).kept⟩)) := by
  induction parcels generalizing load g with
  | nil => exact (send_fails w idle fails).stop
  | cons first later ih =>
    refine (send_settles w idle (settles first List.mem_cons_self)).next fun after w => ?_
    exact ih w (idle.turned _) fun q member => settles q (List.mem_cons_of_mem first member)

end

section

variable (f : Body) (rounds : Parcel → Nat)

theorem sentAll_tank (load : Load) (idle : Idle load.tank) (parcels : List Parcel) :
    (load.sentAll f rounds parcels).tank = load.tank.turned (parcels.map rounds).sum := by
  induction parcels generalizing load with
  | nil => exact (Tank.turned_zero idle.empty).symm
  | cons p rest ih =>
    have later := ih (load.sent (rounds p) (outcome f p (rounds p))) (idle.turned _)
    rw [List.map_cons, List.sum_cons, ← Tank.turned_turned]
    exact later

theorem sentAll_results (load : Load) (stored : ∀ h ∈ load.kept, h < load.store.cells.size)
    (parcels : List Parcel) :
    (load.sentAll f rounds parcels).kept.map (load.sentAll f rounds parcels).store.read =
      load.kept.map load.store.read ++ parcels.map fun p => outcome f p (rounds p) := by
  induction parcels generalizing load with
  | nil => simp [Load.sentAll]
  | cons p rest ih =>
    let next := load.sent (rounds p) (outcome f p (rounds p))
    -- The next parcel has a place of its own in the store, after those that are kept.
    have within : ∀ h ∈ next.kept, h < next.store.cells.size := by
      intro h member
      have size : next.store.cells.size = load.store.cells.size + 1 := Array.size_push _
      rcases List.mem_append.mp member with member | member
      · rw [size]
        exact Nat.lt_succ_of_lt (stored h member)
      · rw [size, List.mem_singleton.mp member]
        exact Nat.lt_succ_self _
    have before : next.kept.map next.store.read =
        load.kept.map load.store.read ++ [outcome f p (rounds p)] := by
      have same : load.kept.map next.store.read = load.kept.map load.store.read :=
        List.map_congr_left fun h member => Store.read_add_of_lt _ _ (stored h member)
      have last : next.store.read load.store.cells.size = outcome f p (rounds p) :=
        Store.read_add_self _ _
      rw [show next.kept = load.kept ++ [load.store.cells.size] from rfl, List.map_append, same]
      simp [last]
    have later := ih next within
    rw [before, List.append_assoc] at later
    exact later

end

section

variable {j : Job} {last : Option NodeId} {active : List NodeId} {load : Load} {g : Graph Stock}

theorem Turning.relink (w : Turning j last active load g) (next : Option NodeId) :
    Turning j next active load { g with nodes := Graph.linkMain sink next g.nodes } := by
  obtain ⟨node, found, card⟩ := w.node sink rfl
  obtain ⟨s, stage, -⟩ := Node.card_fits card
  have size : g.nodes.size = 8 := by
    rw [← Array.size_map (f := Node.card), w.cards]
    rfl
  -- The sink is no sub-graph, so that nothing but itself is linked anew.
  have linked : Graph.linkMain sink next g.nodes =
      g.nodes.modify sink fun node => { node with main := next } := by
    have ends : g.nodes[sink]?.bind Node.exit = none := by
      rw [show g.nodes[sink]? = some node from found, Option.bind_some, Node.exit, stage]
    unfold Graph.linkMain
    rw [size, Graph.linkMainBy, Graph.exit_modify_main, ends]
  rw [linked]
  have after : ({ g with nodes := g.nodes.modify sink fun node => { node with main := next } } :
    Graph Stock) = g.updateNode sink fun node => { node with main := next } := rfl
  rw [after]
  refine
    { root := w.root
      collector := w.collector
      cards := ?_
      does id node s there stage duty := ?_
      idle id node there outside := ?_
      tank := ?_
      kept := ?_
      store := w.store }
  · have moved : (g.nodes.map Node.card).modify sink (fun card => { card with main := next }) =
        (g.nodes.modify sink fun node => { node with main := next }).map Node.card :=
      modify_map Node.card (fun _ => rfl) g.nodes sink
    rw [w.cards] at moved
    exact moved.symm
  · obtain ⟨before, was, ⟨rfl, rfl⟩ | ⟨-, rfl⟩⟩ := Graph.updateNode_cases there
    · exact w.does _ before s was stage duty
    · exact w.does _ _ s was stage duty
  · obtain ⟨before, was, ⟨rfl, rfl⟩ | ⟨-, rfl⟩⟩ := Graph.updateNode_cases there
    · exact w.idle _ before was outside
    · exact w.idle _ _ was outside
  · rw [Graph.tank?_same, w.tank]
    exact fun _ => rfl
  · rw [Graph.kept?_update (.inl (by decide)), w.kept]

theorem takeResults_takes (w : Turning j last active load g) :
    Returns (fun _ => Graph.takeResults) g fun result after =>
      result = .ok (load.kept.map load.store.read) ∧
        Turning j last active { load with kept := [] } after := by
  obtain ⟨node, found, card⟩ := w.node pumpSink rfl
  obtain ⟨s, stage, -⟩ := Node.card_fits card
  have taken := w.hold found stage s.take.2 rfl
  have kept : g.collector? = some s := by
    rw [Graph.collector?, w.collector, found, Option.bind_some, Node.state?, stage]
    rfl
  have opened : Graph.takeResults.start g = some (.ok (load.kept.map load.store.read),
      g.updateNode pumpSink fun node => { node with kind := .stage (.sink s.take.2) }) := by
    rw [Graph.takeResults_eq, kept, w.collector, ← w.sinks found stage, ← w.store]
    rfl
  exact .of_start opened ⟨rfl, taken⟩

theorem pump_opened (w : Turning j none [] load g) (parcels : List Parcel) :
    ∃ mid, Turning j (some pumpSink) [] load mid ∧
      ∀ depth, (Graph.pump depth parcels).start g = (do
        let result ← Run.attempt (Graph.sendAll depth parcels)
        Run.update fun after => { after with nodes := Graph.linkMain sink none after.nodes }
        Run.get result
        Graph.takeResults : Run Stock (List Parcel)).start mid := by
  obtain ⟨root, found, card⟩ := w.node 0 rfl
  have kind : root.kind = .subGraph (some queue) (some sink) := Node.card_fits card
  have exits : g.exit = some sink := by
    rw [Graph.exit, Graph.rootNode?, w.root, found, Option.bind_some, Node.exit, kind]
  obtain ⟨node, there, card⟩ := w.node sink rfl
  have follows : (g.node? sink).bind Node.main = none := by
    rw [there]
    exact congrArg Card.main card
  refine ⟨_, w.relink (some pumpSink), fun depth => ?_⟩
  rw [Graph.pump_attached exits, follows, w.collector]

variable {parcels : List Parcel} {rounds : Parcel → Nat}

theorem pump_settles (w : Turning j none [] load g) (idle : Idle load.tank) (fresh : load.kept = [])
    (settles : ∀ p ∈ parcels, j.step.Settles p.content (rounds p)) :
    Returns (fun depth => Graph.pump depth parcels) g fun result after =>
      result = .ok (parcels.map fun p => outcome j.step p (rounds p)) ∧
        ∃ store, Turning j none [] ⟨load.tank.turned (parcels.map rounds).sum, [], store⟩ after := by
  obtain ⟨mid, w, opened⟩ := pump_opened w parcels
  refine .congr opened (.bind (.attempt ((sendAll_settles w idle settles).mono fun sent mid comes => ?_)))
  cases sent with
  | error e => exact comes.elim
  | ok _ =>
    have back := Turning.relink comes none
    refine .update_bind (.bind (.of_start rfl ?_))
    refine (takeResults_takes back).mono fun result after ⟨results, taken⟩ => ?_
    rw [sentAll_results j.step rounds load (by simp [fresh]), fresh] at results
    rw [sentAll_tank j.step rounds load idle] at taken
    exact ⟨results, _, taken⟩

/-- A pump that fails leaves the graph as it was but for the turns that were made, and keeps what has
come out before. -/
theorem pump_interrupted (w : Turning j none [] load g) (idle : Idle load.tank)
    (settles : ∀ p ∈ parcels, j.step.Settles p.content (rounds p)) {p : Parcel} {k : Nat}
    {reason : String} (fails : j.step.Fails p.content k reason) (rest : List Parcel) :
    Returns (fun depth => Graph.pump depth (parcels ++ p :: rest)) g fun result after =>
      result = .error (.data j.name reason) ∧ ∃ store, Turning j none []
        ⟨load.tank.turned ((parcels.map rounds).sum + (k + 1)),
          (load.sentAll j.step rounds parcels).kept, store⟩ after := by
  obtain ⟨mid, w, opened⟩ := pump_opened w (parcels ++ p :: rest)
  refine .congr opened (.bind (.attempt ((sendAll_fails w idle settles fails rest).mono
    fun sent mid comes => ?_)))
  cases sent with
  | error e =>
    obtain ⟨rfl, store, back⟩ := comes
    rw [sentAll_tank j.step rounds load idle, Tank.turned_turned] at back
    exact .update_bind (.bind (.of_start rfl ⟨rfl, store, back.relink none⟩))
  | ok _ => exact comes.elim

theorem pump_fails (w : Turning j none [] load g) (idle : Idle load.tank)
    (settles : ∀ p ∈ parcels, j.step.Settles p.content (rounds p)) {p : Parcel} {k : Nat}
    {reason : String} (fails : j.step.Fails p.content k reason) (rest : List Parcel) :
    Returns (fun depth => Graph.pump depth (parcels ++ p :: rest)) g fun result _ =>
      result = .error (.data j.name reason) :=
  (pump_interrupted w idle settles fails rest).mono fun _ _ ended => ended.1

end

end Bouncing

end Sluice
