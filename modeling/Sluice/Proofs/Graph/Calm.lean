import Sluice.Graph.Run
import Sluice.Graph.Use

set_option autoImplicit false

namespace Sluice

theorem Graph.next_after {σ : Type} {g : Graph σ} {node next : Node σ} {target : NodeId}
    (follows : (node.main.bind fun target => (g.node? target).map fun next => (target, next)) =
      some (target, next)) : node.main = some target ∧ g.node? target = some next := by
  obtain ⟨_, main, rest⟩ := Option.bind_eq_some_iff.mp follows
  obtain ⟨_, found, same⟩ := Option.map_eq_some_iff.mp rest
  cases same
  exact ⟨main, found⟩

namespace Run

variable {σ α β : Type}

/-- If the run comes to its end, then with this result and graph. -/
def Ends (run : Run σ α) (g : Graph σ) (post : Except EngineError α → Graph σ → Prop) : Prop :=
  match run.start g with
  | none => True
  | some (result, after) => post result after

variable {g : Graph σ} {post weaker : Except EngineError α → Graph σ → Prop}

theorem Ends.mono {run : Run σ α} (ends : run.Ends g post)
    (implies : ∀ result after, post result after → weaker result after) : run.Ends g weaker := by
  unfold Ends at *
  split at ends
  · trivial
  · exact implies _ _ ends

theorem Ends.and {run : Run σ α} (first : run.Ends g post) (second : run.Ends g weaker) :
    run.Ends g fun result after => post result after ∧ weaker result after := by
  unfold Ends at *
  split at first
  · trivial
  next started =>
    rw [started] at second
    exact ⟨first, second⟩

theorem Ends.of_start {run : Run σ α} (ends : run.Ends g post) {result : Except EngineError α}
    {after : Graph σ} (started : run.start g = some (result, after)) : post result after := by
  unfold Ends at ends
  rwa [started] at ends

@[simp] theorem ends_pure (a : α) : (pure a : Run σ α).Ends g post ↔ post (.ok a) g := Iff.rfl

@[simp] theorem ends_graph {post : Except EngineError (Graph σ) → Graph σ → Prop} :
    graph.Ends g post ↔ post (.ok g) g := Iff.rfl

@[simp] theorem ends_set {post : Except EngineError PUnit → Graph σ → Prop} (next : Graph σ) :
    (set next : Run σ PUnit).Ends g post ↔ post (.ok ()) next := Iff.rfl

@[simp] theorem ends_update {post : Except EngineError Unit → Graph σ → Prop}
    (f : Graph σ → Graph σ) : (update f).Ends g post ↔ post (.ok ()) (f g) := Iff.rfl

theorem start_bind (run : Run σ α) (next : α → Run σ β) (g : Graph σ) :
    (run >>= next).start g = (run.start g).bind fun ended =>
      match ended.1 with
      | .ok a => (next a).start ended.2
      | .error e => some (.error e, ended.2) := by
  unfold start
  rw [ExceptT.run_bind, StateT.run_bind]
  cases StateT.run (ExceptT.run run) g with
  | none => rfl
  | some ended =>
    obtain ⟨result, after⟩ := ended
    cases result <;> rfl

theorem attempt_start (run : Run σ α) (g : Graph σ) :
    run.attempt.start g = (run.start g).bind fun ended => some (.ok ended.1, ended.2) := rfl

theorem atNode_elim (g : Graph σ) (id : NodeId) (f : Node σ → Run σ Unit) :
    (atNode id f).start g = ((g.node? id).elim (Pure.pure ()) f : Run σ Unit).start g := by
  unfold atNode
  rw [start_bind]
  change Run.start _ g = _
  cases g.node? id <;> rfl

theorem atNode_start {g : Graph σ} {id : NodeId} {node : Node σ} (found : g.node? id = some node)
    (f : Node σ → Run σ Unit) : (atNode id f).start g = (f node).start g := by
  rw [atNode_elim, found, Option.elim_some]

theorem atNode_start_none {g : Graph σ} {id : NodeId} (absent : g.node? id = none)
    (f : Node σ → Run σ Unit) : (atNode id f).start g = some (.ok (), g) := by
  rw [atNode_elim, absent]
  rfl

@[simp] theorem ends_bind {post : Except EngineError β → Graph σ → Prop} (run : Run σ α)
    (next : α → Run σ β) :
    (run >>= next).Ends g post ↔ run.Ends g fun result after =>
      match result with
      | .ok a => (next a).Ends after post
      | .error e => post (.error e) after := by
  unfold Ends
  rw [start_bind]
  cases run.start g with
  | none => rfl
  | some ended =>
    obtain ⟨result, after⟩ := ended
    cases result <;> rfl

@[simp] theorem ends_attempt {post : Except EngineError (Except EngineError α) → Graph σ → Prop}
    (run : Run σ α) : run.attempt.Ends g post ↔ run.Ends g fun result after =>
      post (.ok result) after := by
  unfold Ends
  rw [attempt_start]
  cases run.start g <;> rfl

@[simp] theorem ends_atNode {post : Except EngineError Unit → Graph σ → Prop} (id : NodeId)
    (f : Node σ → Run σ Unit) :
    (atNode id f).Ends g post ↔
      (∀ node, g.node? id = some node → (f node).Ends g post) ∧
        (g.node? id = none → post (.ok ()) g) := by
  unfold atNode
  simp only [ends_bind, ends_graph]
  cases found : g.node? id <;> simp

theorem Ends.at {post : Except EngineError Unit → Graph σ → Prop} {id : NodeId} {node : Node σ}
    {f : Node σ → Run σ Unit} (found : g.node? id = some node) (ends : (f node).Ends g post) :
    (atNode id f).Ends g post := by
  unfold Ends
  rw [atNode_start found]
  exact ends

def Keeps (inv : Graph σ → Prop) (run : Run σ α) : Prop :=
  ∀ g, inv g → run.Ends g fun _ after => inv after

namespace Keeps

variable {inv : Graph σ → Prop}

theorem pure (a : α) : Keeps inv (pure a : Run σ α) := fun _ holds => holds

theorem throw (e : EngineError) : Keeps inv (MonadExcept.throw e : Run σ α) :=
  fun _ holds => holds

theorem unfinished : Keeps inv (unfinished : Run σ α) := fun _ _ => trivial

theorem get (result : Except EngineError α) : Keeps inv (Run.get result) := fun _ holds => holds

theorem graph : Keeps inv (graph : Run σ (Graph σ)) := fun _ holds => holds

theorem update {f : Graph σ → Graph σ} (keeps : ∀ g, inv g → inv (f g)) : Keeps inv (update f) :=
  keeps

theorem bind {run : Run σ α} {next : α → Run σ β} (first : Keeps inv run)
    (rest : ∀ a, Keeps inv (next a)) : Keeps inv (run >>= next) := by
  intro g holds
  rw [ends_bind]
  refine (first g holds).mono fun result after holds => ?_
  cases result with
  | ok a => exact rest a after holds
  | error e => exact holds

theorem throw_bind (e : EngineError) (next : α → Run σ β) :
    Keeps inv ((MonadExcept.throw e : Run σ α) >>= next) := fun _ holds => holds

theorem attempt {run : Run σ α} (keeps : Keeps inv run) : Keeps inv run.attempt := by
  intro g holds
  rw [ends_attempt]
  exact keeps g holds

theorem atNode {id : NodeId} {f : Node σ → Run σ Unit} (keeps : ∀ node, Keeps inv (f node)) :
    Keeps inv (atNode id f) := by
  intro g holds
  rw [ends_atNode]
  exact ⟨fun node _ => keeps node g holds, fun _ => holds⟩

theorem holding {id : NodeId} {run : Run σ α} (keeps : Keeps inv run)
    (mark : ∀ g busy, inv g → inv (g.updateNode id fun node => { node with busy })) :
    Keeps inv (holding id run) :=
  .bind (.update fun g => mark g true) fun _ => .bind keeps.attempt fun result =>
    .bind (.update fun g => mark g false) fun _ => .get result

end Keeps

end Run

variable {σ α : Type}

def Graph.Calm (g : Graph σ) : Prop :=
  g.shuttingDown = false ∧ ∀ id node, g.node? id = some node → node.closeDeferred = false

theorem Graph.Calm.kept {g : Graph σ} (calm : g.Calm) (id : NodeId) :
    (g.node? id).any Node.closeDeferred = false := by
  cases found : g.node? id with
  | none => rfl
  | some node => exact calm.2 id node found

def Call.closes : Call → Bool
  | .close _ => true
  | _ => false

inductive Graph.Idle : Graph σ → Graph σ → Prop where
  | report (g : Graph σ) (r : Report) : Idle g { g with history := .report r :: g.history }
  | note (g : Graph σ) (line : String) : Idle g { g with history := .note line :: g.history }
  | refused (g : Graph σ) (id : NodeId) (packet : Packet) :
      Idle g { g with history := .refused id packet :: g.history }
  | store (g : Graph σ) (store : Store) : Idle g { g with store }
  | busy (g : Graph σ) (id : NodeId) (busy : Bool) :
      Idle g (g.updateNode id fun node => { node with busy })
  | tank (g : Graph σ) (id : NodeId) (fill : Node σ → Tank)
      (fits : ∀ node, g.node? id = some node →
        (fill node).capacity = node.tank.capacity ∧ (fill node).field = node.tank.field) :
      Idle g (g.updateNode id fun node => { node with tank := fill node })

theorem Tank.popExcess_fits {t rest : Tank} {slot : Option Handle}
    (popped : t.popExcess = some (slot, rest)) :
    rest.capacity = t.capacity ∧ rest.field = t.field := by
  unfold popExcess at popped
  split at popped
  · cases popped
  · obtain ⟨entry, -, same⟩ := Option.map_eq_some_iff.mp popped
    cases same
    exact ⟨rfl, rfl⟩

theorem Tank.releaseBy_fits (n : Nat) (t : Tank) :
    (releaseBy n t).2.capacity = t.capacity ∧ (releaseBy n t).2.field = t.field := by
  induction n generalizing t with
  | zero => exact ⟨rfl, rfl⟩
  | succ n ih =>
    unfold releaseBy
    split
    · exact ⟨rfl, rfl⟩
    next rest popped =>
      have same := popExcess_fits popped
      exact ⟨(ih rest).1.trans same.1, (ih rest).2.trans same.2⟩
    next popped =>
      have same := popExcess_fits popped
      exact same

theorem Tank.release_fits (t : Tank) :
    t.release.2.capacity = t.capacity ∧ t.release.2.field = t.field := releaseBy_fits _ t

namespace Traffic

open Run (Keeps)

structure Idle (inv : Graph σ → Prop) : Prop where
  calm : ∀ g, inv g → g.Calm
  idle : ∀ g after, Graph.Idle g after → inv g → inv after

structure Steady [Stage σ] (inv : Graph σ → Prop) : Prop extends Idle inv where
  accept : ∀ again : Call → Run σ Unit, (∀ call, call.closes = false → Keeps inv (again call)) →
    ∀ id h, Keeps inv (accept again id h)
  notice : ∀ id m, Keeps inv (notice id m)
  openMessage : ∀ again : Call → Run σ Unit,
    (∀ call, call.closes = false → Keeps inv (again call)) →
      ∀ id node m, Keeps inv (openMessage again id node m)

section

variable {inv : Graph σ → Prop} {again : Call → Run σ Unit}

theorem keeps_look (h : Handle) : Keeps inv (Run.look h : Run σ Parcel) :=
  .bind .graph fun _ => .pure _

theorem keeps_onward (keeps : ∀ call, call.closes = false → Keeps inv (again call))
    (target : Option NodeId) {call : NodeId → Call} (flows : ∀ id, (call id).closes = false) :
    Keeps inv (onward again target call) := by
  unfold onward
  split
  · exact keeps _ (flows _)
  · exact .pure _

end

namespace Idle

variable {inv : Graph σ → Prop} {again : Call → Run σ Unit} (kept : Idle inv)
include kept

theorem report (r : Report) : Keeps inv (Run.report r) :=
  .update fun g => kept.idle _ _ (.report g r)

theorem edit (h : Handle) (p : Parcel) : Keeps inv (Run.edit h p) :=
  .update fun g => kept.idle _ _ (.store g _)

theorem add (p : Parcel) : Keeps inv (Run.add p) :=
  fun g holds => kept.idle _ _ (.store g _) holds

theorem settle [Stage σ] (again : Call → Run σ Unit) (id : NodeId)
    (result : Except EngineError Unit) : Keeps inv (settle again id result) := by
  intro g holds
  -- No close has been put off, so that only the result is passed on.
  unfold Traffic.settle
  simp only [Run.ends_bind, Run.ends_graph, (kept.calm g holds).kept id]
  exact holds

theorem holding {id : NodeId} {run : Run σ α} (keeps : Keeps inv run) :
    Keeps inv (Run.holding id run) :=
  keeps.holding fun g busy => kept.idle _ _ (.busy g id busy)

variable (keeps : ∀ call, call.closes = false → Keeps inv (again call))
include keeps

theorem forward (id : NodeId) (h : Handle) (edge : Edge) : Keeps inv (forward again id h edge) := by
  refine .atNode fun node => .bind .graph fun g => ?_
  dsimp only
  split
  · exact .throw_bind _ _
  · split
    · exact .pure _
    · exact .bind (kept.edit _ _) fun _ => .bind (kept.report _) fun _ => keeps _ rfl

theorem fanOut (node : Node σ) (packet : Packet) : Keeps inv (fanOut again node packet) := by
  cases packet with
  | parcel h =>
    refine .bind (keeps_look h) fun p => .bind (kept.edit _ _) fun _ =>
      .bind (kept.report _) fun _ => ?_
    split
    · exact .throw _
    · exact keeps _ rfl
    · exact keeps_onward keeps _ fun _ => rfl
  | message m =>
    exact .bind (keeps_onward keeps _ fun _ => rfl) fun _ => keeps_onward keeps _ fun _ => rfl

theorem drain (id : NodeId) : Keeps inv (drain again id) := by
  intro g holds
  unfold Traffic.drain Run.tankOf
  simp only [Run.ends_bind, Run.ends_graph, Run.ends_pure]
  -- What is left is a tank of the same capacity and field.
  have emptied := kept.idle _ _ (.tank g id
    (fun _ => (((g.node? id).map Node.tank).getD .empty).release.2)
    fun node found => by simpa [found] using node.tank.release_fits) holds
  revert emptied
  generalize (((g.node? id).map Node.tank).getD .empty).release = ended
  obtain ⟨released, tank⟩ := ended
  intro emptied
  cases released with
  | none => exact emptied
  | some h =>
    have rest : Keeps inv (do
        let path := (← Run.graph).pathOf id
        Run.report (.tankForwarded path tank.released)
        Traffic.forward again id h .main
        again (.drain id)) :=
      .bind .graph fun _ => .bind (kept.report _) fun _ =>
        .bind (kept.forward keeps id h .main) fun _ => keeps _ rfl
    exact rest _ emptied

end Idle

namespace Steady

variable [Stage σ] {inv : Graph σ → Prop} {again : Call → Run σ Unit} (steady : Steady inv)
  (keeps : ∀ call, call.closes = false → Keeps inv (again call))
include steady keeps

theorem pass (id : NodeId) (node : Node σ) (m : Message) : Keeps inv (pass again id node m) := by
  refine .bind (steady.holding ?_) fun ends => ?_
  · exact .bind (steady.notice id m) fun _ =>
      .bind (steady.openMessage again keeps id node m) fun _ =>
        .bind (.bind .graph fun _ => .pure _) fun _ => .pure _
  · split
    · exact .pure _
    · exact keeps_onward keeps _ fun _ => rfl

theorem deliverToStage (id : NodeId) (node : Node σ) (packet : Packet) :
    Keeps inv (deliverToStage again id node packet) := by
  unfold Traffic.deliverToStage
  split
  · exact .bind (.update fun g => steady.idle _ _ (.refused g id packet)) fun _ => .throw _
  · split
    · refine .bind .graph fun g => ?_
      split
      · exact steady.report _
      · exact .throw _
    · refine .bind (.attempt ?_) fun result => steady.settle again id result
      cases packet with
      | parcel h => exact steady.holding (steady.accept again keeps id h)
      | message m => exact steady.pass keeps id node m

theorem deliver (id : NodeId) (packet : Packet) : Keeps inv (deliver again id packet) := by
  refine .atNode fun node => ?_
  split
  · exact keeps_onward keeps _ fun _ => rfl
  · exact steady.toIdle.fanOut keeps node packet
  · exact steady.deliverToStage keeps id node packet

theorem step (call : Call) (flows : call.closes = false) : Keeps inv (step again call) := by
  cases call with
  | deliver id packet => exact steady.deliver keeps id packet
  | close id => cases flows
  | drain id => exact steady.drain keeps id

omit keeps in
theorem perform (depth : Nat) (call : Call) (flows : call.closes = false) :
    Keeps inv (perform depth call) := by
  -- A run that would go deeper has no end, and nothing to show.
  induction depth generalizing call with
  | zero => exact .unfinished
  | succ depth ih => exact steady.step ih call flows

end Steady

end Traffic

end Sluice
