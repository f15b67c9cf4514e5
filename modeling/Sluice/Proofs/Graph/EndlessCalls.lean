import Sluice.Proofs.Graph.Flush
import Sluice.Proofs.Graph.Returns
import Sluice.Proofs.Tank.Releases

set_option autoImplicit false

namespace Sluice

variable {σ α β : Type}

namespace Tank

theorem popExcess_held {t rest : Tank} (popped : t.popExcess = some (none, rest)) :
    rest.held = t.held := by
  unfold popExcess at popped
  split at popped
  next => cases popped
  next =>
    obtain ⟨⟨slot, buffer⟩, took, same⟩ := Option.map_eq_some_iff.mp popped
    obtain ⟨placeholder, rfl⟩ := Prod.mk.inj same
    unfold Buffer.pop at took
    split at took
    next => cases took
    next slots =>
      cases took
      simp only [held, Buffer.held, Buffer.items, slots, List.filterMap_cons_none placeholder]

theorem releaseBy_held (n : Nat) (t : Tank) (none : (releaseBy n t).1 = none) :
    (releaseBy n t).2.held = t.held := by
  induction n generalizing t with
  | zero => rfl
  | succ n ih =>
    unfold releaseBy at none ⊢
    split at none
    next => rfl
    next rest popped => exact (ih rest none).trans (popExcess_held popped)
    next => cases none

theorem release_some {t : Tank} (capacity : t.capacity = 0) (held : 0 < t.held) :
    ∃ h, t.release.1 = some h := by
  cases released : t.release.1 with
  | some h => exact ⟨h, rfl⟩
  | none =>
    have same : t.release.2.held = t.held := releaseBy_held _ t released
    have none := held_of_size (release_none capacity released)
    omega

end Tank

namespace Run

theorem start_bind_of_start {run : Run σ α} {next : α → Run σ β} {g after : Graph σ} {a : α}
    (started : run.start g = some (.ok a, after)) :
    (run >>= next).start g = (next a).start after := by
  rw [start_bind, started]
  rfl

theorem ends_of_start {run : Run σ α} {g after : Graph σ} {result : Except EngineError α}
    {post : Except EngineError α → Graph σ → Prop} (started : run.start g = some (result, after))
    (holds : post result after) : run.Ends g post := by
  unfold Ends
  rwa [started]

def Endless (run : Run σ α) (g : Graph σ) : Prop := run.Ends g fun _ _ => False

namespace Endless

variable {g : Graph σ} {run : Run σ α} {next : α → Run σ β}

theorem start (endless : Endless run g) : run.start g = none := by
  cases started : run.start g with
  | none => rfl
  | some ended => exact (Ends.of_start endless started).elim

theorem ends (endless : Endless run g) (post : Except EngineError α → Graph σ → Prop) :
    run.Ends g post := Ends.mono endless fun _ _ => False.elim

theorem bind (endless : Endless run g) : Endless (run >>= next) g :=
  (ends_bind run next).mpr (endless.ends _)

theorem bind_of_start {after : Graph σ} {a : α} (started : run.start g = some (.ok a, after))
    (endless : Endless (next a) after) : Endless (run >>= next) g :=
  (ends_bind run next).mpr (ends_of_start started endless)

theorem attempt (endless : Endless run g) : Endless run.attempt g := (ends_attempt run).mpr endless

theorem holding {id : NodeId} (endless : Endless run (g.mark id true)) :
    Endless (holding id run) g := by
  unfold Endless
  rw [ends_holding]
  exact endless

theorem atNode {id : NodeId} {node : Node σ} {f : Node σ → Run σ Unit}
    (found : g.node? id = some node) (endless : Endless (f node) g) : Endless (atNode id f) g := by
  refine (ends_atNode id f).mpr ⟨fun other same => ?_, fun absent => ?_⟩
  · obtain rfl := Option.some.inj (found.symm.trans same)
    exact endless
  · rw [found] at absent
    cases absent

end Endless

end Run

namespace Traffic

variable {g : Graph σ} {id : NodeId} {node : Node σ} {again : Call → Run σ Unit}

theorem runStage_start {s : σ} (found : g.node? id = some node) (stage : node.kind = .stage s)
    (program : Here → Node σ → σ → Program σ Unit) :
    (runStage again id program).start g =
      (interpret again id (program (node.here id) node s)).start g := by
  unfold runStage
  rw [Run.atNode_start found, stage]

theorem forward_ends {post : Except EngineError Unit → Graph σ → Prop} {target : NodeId}
    {next : Node σ} (found : g.node? id = some node) (main : node.main = some target)
    (leads : g.node? target = some next) (h : Handle)
    (ends : ∀ store history,
      (again (.deliver target (.parcel h))).Ends { g with store, history } post) :
    (forward again id h .main).Ends g post := by
  unfold forward
  rw [Run.ends_atNode]
  refine ⟨fun other same => ?_, fun absent => ?_⟩
  · obtain rfl := Option.some.inj (found.symm.trans same)
    simp only [Run.ends_bind, Run.ends_graph, main, Option.bind_some, leads, Option.map_some,
      reduceCtorEq, false_and, if_false]
    exact ends _ _
  · rw [found] at absent
    cases absent

theorem refresh_start [Stage σ] (found : g.node? id = some node) (static : node.dynamic = []) :
    (refresh again id).start g =
      some (.ok (), g.remember (.began id node (.refresh g.environment))) := by
  have opened : (refresh again id).start g =
      (do Run.began id (.refresh g.environment)
          Run.atNode id fun node => do
            let changed ← refreshEach id node.path node.dynamic []
            if changed.isEmpty then pure () else reconfigure again id changed :
        Run σ Unit).start g := rfl
  have there : (g.remember (.began id node (.refresh g.environment))).node? id = some node := found
  rw [opened, Run.start_bind, Run.began, Run.atNode_start found]
  refine (Run.atNode_start there _).trans ?_
  rw [static]
  rfl

theorem accept_begins {g : Graph Stock} {id : NodeId} {node : Node Stock} {s : Stock}
    (again : Call → Run Stock Unit) (found : g.node? id = some node) (stage : node.kind = .stage s)
    (static : node.dynamic = []) (h : Handle) :
    (accept again id h).start g = (do
      runStage again id fun here _ s => Stage.accept here s h
      runStage again id fun here _ s => Stage.afterAccept here s : Run Stock Unit).start
        ((g.remember (.began id node (.refresh g.environment))).remember
          (.began id node (.accept h (g.store.read h)))) := by
  let refreshed := g.remember (.began id node (.refresh g.environment))
  have shown : refreshed.node? id = some node := found
  have before : (runStage again id fun here _ s => Stage.beforeAccept here s h).start refreshed =
      some (.ok (), refreshed) := runStage_start shown stage _
  have looked : (Run.look h).start refreshed = some (.ok (g.store.read h), refreshed) := rfl
  have begins : (Run.began id (.accept h (g.store.read h))).start refreshed =
      some (.ok (), refreshed.remember (.began id node (.accept h (g.store.read h)))) :=
    Run.atNode_start shown _
  unfold accept
  rw [Run.start_bind_of_start (refresh_start found static), Run.start_bind_of_start before,
    Run.start_bind_of_start looked, Run.start_bind_of_start begins]

theorem accept_start {g : Graph Stock} {feeder queue : NodeId} {node : Node Stock}
    (again : Call → Run Stock Unit) (apart : feeder ≠ queue) (found : g.node? feeder = some node)
    (stage : node.kind = .stage (.tankFeed ⟨some queue⟩)) (static : node.dynamic = [])
    (h : Handle) : ∃ history, (accept again feeder h).start g =
      some (.ok (), { g.updateNode queue fun node =>
        { node with tank := node.tank.push h (g.store.read h) } with history }) := by
  let began := (g.remember (.began feeder node (.refresh g.environment))).remember
    (.began feeder node (.accept h (g.store.read h)))
  let fed := began.updateNode queue fun node =>
    { node with tank := node.tank.push h (g.store.read h) }
  have there : began.node? feeder = some node := found
  have still : fed.node? feeder = some node := by
    rw [Graph.node?_updateNode, if_neg apart.symm, there]
  have takes : (runStage again feeder fun here _ s => Stage.accept here s h).start began =
      some (.ok (), fed) := runStage_start there stage _
  have after : (runStage again feeder fun here _ s => Stage.afterAccept here s).start fed =
      some (.ok (), fed) := runStage_start still stage _
  refine ⟨began.history, ?_⟩
  rw [accept_begins again found stage static, Run.start_bind_of_start takes]
  exact after

end Traffic

namespace Graph

def Holds (g : Graph σ) (id : NodeId) : Prop :=
  ∃ node, g.node? id = some node ∧ 0 < node.tank.held

structure Spins (g : Graph Stock) (queue feeder : NodeId) : Prop where
  apart : feeder ≠ queue
  lets : ∃ node, g.node? queue = some node ∧ node.main = some feeder ∧ node.tank.capacity = 0
  feeds : ∃ node, g.node? feeder = some node ∧ node.kind = .stage (.tankFeed ⟨some queue⟩) ∧
    node.dynamic = [] ∧ node.phase ≠ .closed ∧ node.busy = false ∧ node.closeDeferred = false

namespace Spins

variable {g : Graph Stock} {queue feeder : NodeId} (spins : g.Spins queue feeder)
include spins

theorem refilled {f : Node Stock → Tank}
    (fits : ∀ node, node.tank.capacity = 0 → (f node).capacity = 0) :
    (g.updateNode queue fun node => { node with tank := f node }).Spins queue feeder := by
  obtain ⟨node, found, main, capacity⟩ := spins.lets
  refine ⟨spins.apart, ⟨{ node with tank := f node }, ?_, main, fits node capacity⟩, ?_⟩
  · exact node?_updateNode_self found _
  · rw [node?_updateNode, if_neg spins.apart.symm]
    exact spins.feeds

theorem during (store : Store) (history : List (Event Stock)) :
    ({ g with store, history } : Graph Stock).Spins queue feeder :=
  ⟨spins.apart, spins.lets, spins.feeds⟩

theorem fed (depth : Nat) (h : Handle) :
    (Traffic.perform depth (.deliver feeder (.parcel h))).Ends g fun result after =>
      result = .ok () ∧ after.Spins queue feeder ∧ after.Holds queue := by
  cases depth with
  | zero => exact trivial
  | succ depth =>
    obtain ⟨node, found, stage, static, ongoing, idle, kept⟩ := spins.feeds
    obtain ⟨queued, held, main, capacity⟩ := spins.lets
    have marked := node?_mark found true
    obtain ⟨history, accepts⟩ :=
      Traffic.accept_start (Traffic.perform depth) spins.apart marked stage static h
    -- The queue may be busy itself, as its tank is written without a call of it.
    let fed : Graph Stock := { (g.mark feeder true).updateNode queue fun node =>
      { node with tank := node.tank.push h (g.store.read h) } with history }
    have there : fed.node? feeder = some { node with busy := true } := by
      change ((g.mark feeder true).updateNode queue _).node? feeder = _
      rw [node?_updateNode, if_neg spins.apart.symm, marked]
    have filled : (fed.mark feeder false).node? queue =
        some { queued with tank := queued.tank.push h (g.store.read h) } := by
      rw [mark, node?_updateNode, if_neg spins.apart]
      change ((g.mark feeder true).updateNode queue _).node? queue = _
      rw [node?_updateNode, if_pos rfl, mark, node?_updateNode, if_neg spins.apart, held]
      rfl
    have settled : (Traffic.settle (Traffic.perform depth) feeder (.ok ())).start
        (fed.mark feeder false) = some (.ok (), fed.mark feeder false) := by
      refine Traffic.settle_start ?_
      rw [node?_mark there, Option.any_some, kept]
    have delivered : (Traffic.perform (depth + 1) (.deliver feeder (.parcel h))).start g =
        some (.ok (), fed.mark feeder false) := by
      change (Traffic.deliver (Traffic.perform depth) feeder (.parcel h)).start g = _
      rw [Traffic.deliver_open ⟨node, _, found, stage, idle, ongoing⟩, Run.start_bind,
        Run.attempt_start, Run.holding_start, accepts]
      exact settled
    refine Run.ends_of_start delivered ⟨rfl, ⟨spins.apart, ?_, ?_⟩, ?_⟩
    · exact ⟨_, filled, main, capacity⟩
    · exact ⟨_, node?_mark there false, stage, static, ongoing, rfl, kept⟩
    · exact ⟨_, filled, (Tank.push_held _ _ _).symm ▸ Nat.succ_pos _⟩

theorem forwarded (depth : Nat) (h : Handle) (history : List (Event Stock)) :
    (Traffic.forward (Traffic.perform depth) queue h .main).Ends { g with history }
      fun result after => result = .ok () ∧ after.Spins queue feeder ∧ after.Holds queue := by
  obtain ⟨node, found, main, -⟩ := spins.lets
  obtain ⟨next, leads, -⟩ := spins.feeds
  exact Traffic.forward_ends (g := { g with history }) found main leads h fun store history =>
    (spins.during store history).fed depth h

theorem drain (holds : g.Holds queue) (depth : Nat) :
    Run.Endless (Traffic.perform depth (.drain queue)) g := by
  induction depth generalizing g with
  | zero => exact trivial
  | succ depth ih =>
    obtain ⟨node, found, main, capacity⟩ := spins.lets
    obtain ⟨_, same, held⟩ := holds
    obtain rfl := Option.some.inj (found.symm.trans same)
    obtain ⟨h, released⟩ := Tank.release_some capacity held
    have opened : (Traffic.perform (depth + 1) (.drain queue) : Run Stock Unit) =
      Traffic.drain (Traffic.perform depth) queue := rfl
    have left : (g.updateNode queue fun other =>
        { other with tank := node.tank.release.2 }).Spins queue feeder :=
      spins.refilled fun _ _ => node.tank.release_fits.1.trans capacity
    rw [Run.Endless, opened, Traffic.drain_ends found]
    simp only [released, Run.setTank, Run.updateNode, Run.report, Run.remember, Run.ends_bind,
      Run.ends_update, Run.ends_graph]
    -- What is released comes back before the next round.
    refine (left.forwarded depth h _).mono fun result after back => ?_
    obtain ⟨rfl, spins, holds⟩ := back
    exact ih spins holds

end Spins

end Graph

namespace Traffic

variable {g : Graph Stock} {id : NodeId} {node : Node Stock} {t : Tank}
  {again : Call → Run Stock Unit}

theorem reconfigure_endless (found : g.node? id = some node)
    (stage : node.kind = .stage .tankQueue)
    (resized : (TankQueue.settings node.params).run node.tank = (.ok (), t)) (changed : List String)
    (endless : Run.Endless (again (.drain id))
      (g.updateNode id fun node => { node with tank := t })) :
    Run.Endless (reconfigure again id changed) g := by
  have gauged : (Run.tankOf (σ := Stock) id).start g = some (.ok node.tank, g) := by
    have opened : (Run.tankOf (σ := Stock) id).start g =
      some (.ok (((g.node? id).map Node.tank).getD .empty), g) := rfl
    rw [opened, found]
    rfl
  refine .atNode found ?_
  rw [stage]
  -- Up to where it drains, the program only reads and writes the tank.
  refine .bind_of_start gauged ?_
  change Run.Endless (interpret again id (TankQueue.resize node.path node.params node.tank)) g
  unfold TankQueue.resize
  rw [resized]
  refine .bind_of_start (rfl : (Run.setTank id t).start g = _) ?_
  exact endless.bind

theorem resetParameter_endless {m : Message} {name value : Value} (found : g.node? id = some node)
    (stage : node.kind = .stage .tankQueue) (values : m.values = [name, value])
    (declares : node.declared.declares name.render = true)
    (resized : (TankQueue.settings (node.params.put name.render value)).run node.tank = (.ok (), t))
    (endless : ∀ after : Graph Stock, (∃ last, after.node? id = some last ∧
        last.main = node.main ∧ last.tank = t) →
      (∀ other, other ≠ id → after.node? other = g.node? other) →
        Run.Endless (again (.drain id)) after) :
    Run.Endless (resetParameter again id m) g := by
  let put := g.updateNode id fun node =>
    { node with params := node.params.put name.render value }
  let reported := put.remember (.report (.parameterReset node.path name.render value))
  have there : put.node? id =
      some { node with params := node.params.put name.render value } :=
    Graph.node?_updateNode_self found _
  refine .atNode found ?_
  rw [values]
  simp only [declares, Bool.not_true, Bool.false_eq_true, if_false]
  refine .bind_of_start (rfl : _ = some (_, put)) (.bind_of_start (rfl : _ = some (_, reported)) ?_)
  refine reconfigure_endless (g := reported) there stage resized _ (endless _ ?_ ?_)
  · refine ⟨{ node with params := node.params.put name.render value, tank := t }, ?_, rfl, rfl⟩
    rw [Graph.node?_updateNode, if_pos rfl]
    exact congrArg _ there
  · intro other apart
    rw [Graph.node?_updateNode, if_neg apart.symm]
    exact (Graph.node?_updateNode ..).trans (if_neg apart.symm)

theorem meet_endless {m : Message} {name value : Value} (found : g.node? id = some node)
    (stage : node.kind = .stage .tankQueue) (answersTo : node.answersTo m.destination = true)
    (reset : m.verb = resetVerb) (values : m.values = [name, value])
    (declares : node.declared.declares name.render = true)
    (resized : (TankQueue.settings (node.params.put name.render value)).run node.tank = (.ok (), t))
    (endless : ∀ after : Graph Stock, (∃ last, after.node? id = some last ∧
        last.main = node.main ∧ last.tank = t) →
      (∀ other, other ≠ id → after.node? other = g.node? other) →
        Run.Endless (again (.drain id)) after) :
    Run.Endless (meet again id node m) g := by
  obtain ⟨history, noticed⟩ := notice_start (Graph.node?_mark found true) stage m
  let shown : Graph Stock := { (g.mark id true).updateNode id fun node =>
    { node with kind := .stage .tankQueue } with history }
  let reported := shown.remember (.report (.messageOpened node.path m))
  have there : shown.node? id = some { node with busy := true, kind := .stage .tankQueue } := by
    change ((g.mark id true).updateNode id _).node? id = _
    exact Graph.node?_updateNode_self (Graph.node?_mark found _) _
  refine .holding (.bind_of_start noticed (.bind ?_))
  unfold openMessage
  rw [if_pos answersTo]
  refine .bind_of_start (rfl : _ = some (_, reported)) ?_
  refine .bind_of_start (Run.atNode_start (g := reported) there _) ?_
  rw [if_pos reset]
  refine .bind (resetParameter_endless (g := reported.remember _) there rfl values declares resized
    fun after last rest => endless after last fun other apart => (rest other apart).trans ?_)
  change ((g.mark id true).updateNode id _).node? other = _
  rw [Graph.node?_updateNode, if_neg apart.symm, Graph.mark, Graph.node?_updateNode,
    if_neg apart.symm]

end Traffic

end Sluice
