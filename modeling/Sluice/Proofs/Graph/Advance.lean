import Sluice.Graph.Use
import Sluice.Proofs.Graph.Refresh

set_option autoImplicit false

namespace Sluice

variable {σ α : Type}

def Phase.rank : Phase → Nat
  | .running => 0
  | .flushing => 1
  | .closing => 2
  | .closed => 3

theorem Phase.closed_of_rank {phase : Phase} (least : Phase.closed.rank ≤ phase.rank) :
    phase = .closed := by
  cases phase <;> simp [rank] at least ⊢

theorem Phase.running_of_rank {phase : Phase} (most : phase.rank ≤ Phase.running.rank) :
    phase = .running := by
  cases phase <;> simp [rank] at most ⊢

theorem Phase.rank_le_closed (phase : Phase) : phase.rank ≤ Phase.closed.rank := by
  cases phase <;> decide

def NodeKind.shape : NodeKind σ → NodeKind Unit
  | .stage _ => .stage ()
  | .fanOut => .fanOut
  | .subGraph entry exit => .subGraph entry exit

theorem NodeKind.stage_of_shape {before after : NodeKind σ} (shape : after.shape = before.shape)
    {s : σ} (stage : before = .stage s) : ∃ t, after = .stage t := by
  subst stage
  cases after with
  | stage t => exact ⟨t, rfl⟩
  | _ => cases shape

namespace Node

theorem kind_of_state {node : Node σ} {s : σ} (state : node.state? = some s) :
    node.kind = .stage s := by
  unfold state? at state
  split at state
  next kind =>
    cases state
    exact kind
  next => cases state

def fixed (node : Node σ) : Node Unit :=
  { node with
    kind := node.kind.shape
    params := .make "" ""
    phase := .running
    busy := false
    closeDeferred := false
    tank := .empty }

/-- What becomes of a node while others are called. A stage that is active is not closed but its
close is put off, and one that is closed stays as it is. -/
structure Advances (before after : Node σ) : Prop where
  fixed : after.fixed = before.fixed
  phase : before.phase.rank ≤ after.phase.rank
  busy : after.busy = before.busy
  held : ∀ s, before.kind = .stage s → before.busy = true → after.phase = before.phase
  deferred : after.closeDeferred = true →
    before.closeDeferred = true ∨ before.busy = true ∧ before.phase = .running
  closed : before.phase = .closed → after.kind = before.kind

section

variable {before after : Node σ} (fixed : after.fixed = before.fixed)
include fixed

theorem path_of_fixed : after.path = before.path :=
  congrArg (fun node : Node Unit => node.path) fixed

theorem main_of_fixed : after.main = before.main :=
  congrArg (fun node : Node Unit => node.main) fixed

theorem shape_of_fixed : after.kind.shape = before.kind.shape :=
  congrArg (fun node : Node Unit => node.kind) fixed

theorem stage_of_fixed {s : σ} (stage : before.kind = .stage s) : ∃ t, after.kind = .stage t :=
  NodeKind.stage_of_shape (shape_of_fixed fixed) stage

end

theorem Advances.refl (node : Node σ) : node.Advances node where
  fixed := rfl
  phase := Nat.le_refl _
  busy := rfl
  held _ _ _ := rfl
  deferred := .inl
  closed _ := rfl

theorem Advances.trans {before mid after : Node σ} (first : before.Advances mid)
    (second : mid.Advances after) : before.Advances after where
  fixed := second.fixed.trans first.fixed
  phase := Nat.le_trans first.phase second.phase
  busy := second.busy.trans first.busy
  held := by
    intro s stage busy
    obtain ⟨t, kind⟩ := stage_of_fixed first.fixed stage
    exact (second.held t kind (first.busy.trans busy)).trans (first.held s stage busy)
  deferred := by
    intro deferred
    rcases second.deferred deferred with deferred | ⟨busy, running⟩
    · exact first.deferred deferred
    · exact .inr ⟨first.busy.symm.trans busy, Phase.running_of_rank (running ▸ first.phase)⟩
  closed := by
    intro closed
    have still : mid.phase = .closed := Phase.closed_of_rank (closed ▸ first.phase)
    exact (second.closed still).trans (first.closed closed)

end Node

namespace Graph

structure AdvancesBut (own : NodeId → Prop) (g after : Graph σ) : Prop where
  nodes : ∀ id, ¬own id → Option.Rel Node.Advances (g.node? id) (after.node? id)
  root : after.root = g.root
  pumpSink : after.pumpSink = g.pumpSink
  environment : after.environment = g.environment
  shuttingDown : g.shuttingDown = true → after.shuttingDown = true
  history : g.history <:+ after.history

def Advances (g after : Graph σ) : Prop := g.AdvancesBut (fun _ => False) after

namespace AdvancesBut

variable {own : NodeId → Prop} {g mid after : Graph σ}

theorem refl (own : NodeId → Prop) (g : Graph σ) : g.AdvancesBut own g where
  nodes := by
    intro id _
    cases g.node? id with
    | none => exact .none
    | some node => exact .some (.refl node)
  root := rfl
  pumpSink := rfl
  environment := rfl
  shuttingDown := id
  history := List.suffix_refl _

theorem trans (first : g.AdvancesBut own mid) (second : mid.AdvancesBut own after) :
    g.AdvancesBut own after where
  nodes := by
    intro id other
    have before := first.nodes id other
    have later := second.nodes id other
    revert before later
    generalize g.node? id = x, mid.node? id = y, after.node? id = z
    intro before later
    cases before with
    | none =>
      cases later
      exact .none
    | some before =>
      cases later with
      | some later => exact .some (before.trans later)
  root := second.root.trans first.root
  pumpSink := second.pumpSink.trans first.pumpSink
  environment := second.environment.trans first.environment
  shuttingDown := fun began => second.shuttingDown (first.shuttingDown began)
  history := first.history.trans second.history

theorem mono {more : NodeId → Prop} (advances : g.AdvancesBut own after)
    (implies : ∀ id, own id → more id) : g.AdvancesBut more after :=
  { advances with nodes := fun id other => advances.nodes id fun mine => other (implies id mine) }

theorem update (g : Graph σ) (id : NodeId) (f : Node σ → Node σ) :
    g.AdvancesBut (· = id) (g.updateNode id f) :=
  { refl (· = id) g with
    nodes := by
      intro other ne
      rw [node?_updateNode, if_neg (Ne.symm ne)]
      exact (refl (· = id) g).nodes other ne }

theorem revert (g : Graph σ) (id : NodeId) (f : Node σ → Node σ) :
    (g.updateNode id f).AdvancesBut (· = id) g :=
  { refl (· = id) g with
    nodes := by
      intro other ne
      rw [node?_updateNode, if_neg (Ne.symm ne)]
      exact (refl (· = id) g).nodes other ne }

theorem settled {id : NodeId} (advances : g.AdvancesBut (· = id) after)
    (node : Option.Rel Node.Advances (g.node? id) (after.node? id)) : g.Advances after :=
  { advances with
    nodes := by
      intro other _
      by_cases same : other = id
      · exact same ▸ node
      · exact advances.nodes other same }

end AdvancesBut

namespace Advances

variable {g mid after : Graph σ}

theorem refl (g : Graph σ) : g.Advances g := AdvancesBut.refl _ g

theorem trans (first : g.Advances mid) (second : mid.Advances after) : g.Advances after :=
  AdvancesBut.trans first second

theorem but {own : NodeId → Prop} (advances : g.Advances after) : g.AdvancesBut own after :=
  advances.mono fun _ => False.elim

theorem node (advances : g.Advances after) {id : NodeId} {before : Node σ}
    (found : g.node? id = some before) :
    ∃ node, after.node? id = some node ∧ before.Advances node := by
  have related := advances.nodes id not_false
  rw [found] at related
  generalize last : after.node? id = there at related
  cases related with
  | some advances => exact ⟨_, rfl, advances⟩

theorem node_before (advances : g.Advances after) {id : NodeId} {node : Node σ}
    (found : after.node? id = some node) :
    ∃ before, g.node? id = some before ∧ before.Advances node := by
  have related := advances.nodes id not_false
  rw [found] at related
  generalize first : g.node? id = there at related
  cases related with
  | some advances => exact ⟨_, rfl, advances⟩

theorem of_same (nodes : after.nodes = g.nodes) (root : after.root = g.root)
    (pumpSink : after.pumpSink = g.pumpSink) (environment : after.environment = g.environment)
    (shuttingDown : g.shuttingDown = true → after.shuttingDown = true)
    (history : g.history <:+ after.history) : g.Advances after where
  nodes := by
    intro id other
    rw [node?, node?, nodes]
    exact (refl g).nodes id other
  root := root
  pumpSink := pumpSink
  environment := environment
  shuttingDown := shuttingDown
  history := history

theorem remember (g : Graph σ) (event : Event σ) :
    g.Advances { g with history := event :: g.history } :=
  of_same rfl rfl rfl rfl id (List.suffix_cons _ _)

theorem store (g : Graph σ) (store : Store) : g.Advances { g with store } :=
  of_same rfl rfl rfl rfl id (List.suffix_refl _)

theorem update {id : NodeId} {f : Node σ → Node σ}
    (advances : ∀ node, g.node? id = some node → node.Advances (f node)) :
    g.Advances (g.updateNode id f) := by
  refine (AdvancesBut.update g id f).settled ?_
  rw [node?_updateNode, if_pos rfl]
  cases found : g.node? id with
  | none => exact .none
  | some node => exact .some (advances node found)

end Advances

def Held (g : Graph σ) (id : NodeId) : Prop :=
  ∃ node s, g.node? id = some node ∧ node.kind = .stage s ∧ node.busy = true ∧
    node.phase ≠ .closed

theorem Held.advances {g after : Graph σ} {id : NodeId} (held : g.Held id)
    (advances : g.Advances after) : after.Held id := by
  obtain ⟨before, s, found, stage, busy, ongoing⟩ := held
  obtain ⟨node, there, moved⟩ := advances.node found
  obtain ⟨t, kind⟩ := Node.stage_of_fixed moved.fixed stage
  exact ⟨node, t, there, kind, moved.busy.trans busy, moved.held s stage busy ▸ ongoing⟩

namespace Advances

theorem params (g : Graph σ) (id : NodeId) (f : Node σ → ParamTable) :
    g.Advances (g.updateNode id fun node => { node with params := f node }) :=
  .update fun node _ => { Node.Advances.refl node with }

theorem tank (g : Graph σ) (id : NodeId) (f : Node σ → Tank) :
    g.Advances (g.updateNode id fun node => { node with tank := f node }) :=
  .update fun node _ => { Node.Advances.refl node with }

theorem state {g : Graph σ} {id : NodeId} (held : g.Held id) (s : σ) :
    g.Advances (g.updateNode id fun node => { node with kind := .stage s }) := by
  obtain ⟨before, t, found, stage, -, ongoing⟩ := held
  refine .update fun node same => ?_
  obtain rfl : before = node := Option.some.inj (found.symm.trans same)
  have shape : ({ before with kind := .stage s } : Node σ).fixed = before.fixed := by
    simp only [Node.fixed, stage]
    rfl
  exact { Node.Advances.refl before with
    fixed := shape
    closed closed := absurd closed ongoing }

end Advances

def remember (g : Graph σ) (event : Event σ) : Graph σ := { g with history := event :: g.history }

def turn (g : Graph σ) (id : NodeId) (phase : Phase) : Graph σ :=
  g.updateNode id fun node => { node with phase }

theorem node?_turn {g : Graph σ} {id : NodeId} {node : Node σ} (found : g.node? id = some node)
    (phase : Phase) : (g.turn id phase).node? id = some { node with phase } :=
  node?_updateNode_self found _

def defer (g : Graph σ) (id : NodeId) (closeDeferred : Bool) : Graph σ :=
  g.updateNode id fun node => { node with closeDeferred }

def mark (g : Graph σ) (id : NodeId) (busy : Bool) : Graph σ :=
  g.updateNode id fun node => { node with busy }

def Open (g : Graph σ) (id : NodeId) : Prop :=
  ∃ node s, g.node? id = some node ∧ node.kind = .stage s ∧ node.busy = false ∧
    node.phase ≠ .closed

variable {g after : Graph σ} {id : NodeId}

theorem node?_defer {node : Node σ} (found : g.node? id = some node) (closeDeferred : Bool) :
    (g.defer id closeDeferred).node? id = some { node with closeDeferred } :=
  node?_updateNode_self found _

theorem node?_mark {node : Node σ} (found : g.node? id = some node) (busy : Bool) :
    (g.mark id busy).node? id = some { node with busy } :=
  node?_updateNode_self found _

theorem Open.held (opened : g.Open id) : (g.mark id true).Held id := by
  obtain ⟨node, s, found, stage, -, ongoing⟩ := opened
  exact ⟨_, s, node?_mark found true, stage, rfl, ongoing⟩

theorem Advances.putOff {node : Node σ} (found : g.node? id = some node) (busy : node.busy = true)
    (running : node.phase = .running) : g.Advances (g.defer id true) := by
  refine .update fun other same => ?_
  obtain rfl : node = other := Option.some.inj (found.symm.trans same)
  exact { Node.Advances.refl node with deferred _ := .inr ⟨busy, running⟩ }

theorem Advances.deferBoth (advances : g.Advances after) :
    (g.defer id false).Advances (after.defer id false) := by
  have around : (g.defer id false).AdvancesBut (· = id) (after.defer id false) :=
    ((AdvancesBut.revert g id _).trans advances.but).trans (.update after id _)
  refine around.settled ?_
  rw [Graph.defer, Graph.defer, node?_updateNode, node?_updateNode, if_pos rfl, if_pos rfl]
  have node := advances.nodes id not_false
  generalize g.node? id = x, after.node? id = y at node
  cases node with
  | none => exact .none
  | some moved =>
    exact .some { moved with deferred := nofun }

theorem Advances.undefer (kept : (g.node? id).any Node.closeDeferred = false) :
    (g.defer id false).Advances g := by
  refine (AdvancesBut.revert g id _).settled ?_
  rw [node?_updateNode, if_pos rfl]
  cases found : g.node? id with
  | none => exact .none
  | some node =>
    rw [found] at kept
    exact .some { Node.Advances.refl node with
      deferred deferred := absurd deferred (Bool.eq_false_iff.mp kept) }

/-- A call of a stage that was not active before: what others have become counts, and the stage
itself has kept its phase. -/
theorem Open.released (opened : g.Open id) (advances : (g.mark id true).Advances after) :
    g.Advances ((after.mark id false).defer id false) := by
  obtain ⟨node, s, found, stage, idle, ongoing⟩ := opened
  obtain ⟨later, there, moved⟩ := advances.node (node?_mark found true)
  have around : g.AdvancesBut (· = id) ((after.mark id false).defer id false) :=
    (((AdvancesBut.update g id _).trans advances.but).trans (.update after id _)).trans
      (.update _ id _)
  refine around.settled ?_
  rw [found, node?_defer (node?_mark there false) false]
  exact .some { moved with
    busy := idle.symm
    held := by simp [idle]
    deferred := nofun
    closed := by simp [ongoing] }

theorem Open.leaves {node : Node σ} (opened : g.Open id) (found : g.node? id = some node)
    (advances : (g.mark id true).Advances after) :
    ∃ last s, after.node? id = some last ∧ last.kind = .stage s ∧ last.main = node.main := by
  obtain ⟨before, s, there, stage, -, -⟩ := opened
  obtain rfl : before = node := Option.some.inj (there.symm.trans found)
  obtain ⟨last, there, moved⟩ := advances.node (node?_mark found true)
  obtain ⟨t, kind⟩ := Node.stage_of_fixed moved.fixed stage
  exact ⟨last, t, there, kind, Node.main_of_fixed moved.fixed⟩

end Graph

namespace Run

theorem ends_holding {post : Except EngineError α → Graph σ → Prop} {g : Graph σ} {id : NodeId}
    {run : Run σ α} : (holding id run).Ends g post ↔
      run.Ends (g.mark id true) fun result after => post result (after.mark id false) := by
  unfold holding updateNode
  simp only [ends_bind, ends_update, ends_attempt]
  rfl

end Run

end Sluice
