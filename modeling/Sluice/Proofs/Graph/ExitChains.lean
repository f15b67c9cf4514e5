import Sluice.Graph.Use

set_option autoImplicit false

namespace Sluice.Graph

variable {σ : Type}

def exitsBy : Nat → NodeId → Array (Node σ) → List NodeId
  | 0, _, _ => []
  | depth + 1, source, nodes =>
    source :: match nodes[source]?.bind Node.exit with
      | some exit => exitsBy depth exit nodes
      | none => []

inductive Inside (g : Graph σ) (id : NodeId) : NodeId → Prop
  | exit {inner : NodeId} {node : Node σ} (found : g.node? id = some node)
      (leaves : node.exit = some inner) : g.Inside id inner
  | nested {mid inner : NodeId} {node : Node σ} (before : g.Inside id mid)
      (found : g.node? mid = some node) (leaves : node.exit = some inner) : g.Inside id inner

def Descends (nodes : Array (Node σ)) : Prop :=
  ∀ id inner : Nat, nodes[id]?.bind Node.exit = some inner → id < inner ∧ inner < nodes.size

theorem exit_modify_main (source id : NodeId) (target : Option NodeId) (nodes : Array (Node σ)) :
    (nodes.modify source fun node => { node with main := target })[id]?.bind Node.exit =
      nodes[id]?.bind Node.exit := by
  rw [Array.getElem?_modify]
  split
  · cases nodes[id]? <;> rfl
  · rfl

theorem exitsBy_congr {nodes after : Array (Node σ)}
    (same : ∀ id : NodeId, after[id]?.bind Node.exit = nodes[id]?.bind Node.exit) (depth : Nat)
    (source : NodeId) : exitsBy depth source after = exitsBy depth source nodes := by
  induction depth generalizing source with
  | zero => rfl
  | succ depth ih =>
    unfold exitsBy
    rw [same source]
    cases nodes[source]?.bind Node.exit with
    | none => rfl
    | some exit => exact congrArg (source :: ·) (ih exit)

theorem linkMainBy_getElem? (depth : Nat) (source id : NodeId) (target : Option NodeId)
    (nodes : Array (Node σ)) :
    (linkMainBy depth source target nodes)[id]? = nodes[id]?.map fun node =>
      if id ∈ exitsBy depth source nodes then { node with main := target } else node := by
  induction depth generalizing source nodes with
  | zero =>
    unfold linkMainBy exitsBy
    cases nodes[id]? <;> rfl
  | succ depth ih =>
    have exits := fun id => exit_modify_main source id target nodes
    have modified : (nodes.modify source fun node => { node with main := target })[id]? =
        nodes[id]?.map fun node => if id = source then { node with main := target } else node := by
      rw [Array.getElem?_modify]
      by_cases same : id = source
      · subst same
        simp
      · rw [if_neg (Ne.symm same)]
        simp [same]
    unfold linkMainBy exitsBy
    dsimp only
    rw [exits source]
    cases nodes[source]?.bind Node.exit with
    | none =>
      simp only [List.mem_singleton]
      exact modified
    | some exit =>
      dsimp only
      rw [ih, modified, exitsBy_congr exits, Option.map_map]
      refine congrArg (nodes[id]?.map ·) (funext fun node => ?_)
      -- What is set twice is set to the same.
      by_cases here : id = source <;> by_cases deeper : id ∈ exitsBy depth exit nodes <;>
        simp [here, deeper]

theorem exit_linkMainBy (depth : Nat) (source id : NodeId) (target : Option NodeId)
    (nodes : Array (Node σ)) :
    (linkMainBy depth source target nodes)[id]?.bind Node.exit = nodes[id]?.bind Node.exit := by
  rw [linkMainBy_getElem?]
  cases nodes[id]? with
  | none => rfl
  | some node => rw [Option.map_some]; split <;> rfl

theorem linkMainBy_size (depth : Nat) (source : NodeId) (target : Option NodeId)
    (nodes : Array (Node σ)) : (linkMainBy depth source target nodes).size = nodes.size := by
  induction depth generalizing source nodes with
  | zero => rfl
  | succ depth ih =>
    unfold linkMainBy
    dsimp only
    split
    · rw [ih, Array.size_modify]
    · exact Array.size_modify

theorem linkMainBy_main (depth : Nat) {source id : NodeId} {target : Option NodeId}
    {nodes : Array (Node σ)} {node : Node σ}
    (found : (linkMainBy depth source target nodes)[id]? = some node) :
    ∃ before main, nodes[id]? = some before ∧ node = { before with main } := by
  rw [linkMainBy_getElem?] at found
  obtain ⟨before, was, rfl⟩ := Option.map_eq_some_iff.mp found
  split
  · exact ⟨before, target, was, rfl⟩
  · exact ⟨before, before.main, was, rfl⟩

section

variable {g : Graph σ} {id inner : NodeId}

theorem inside_exit (leaves : (g.node? id).bind Node.exit = some inner) : g.Inside id inner := by
  obtain ⟨node, found, leaves⟩ := Option.bind_eq_some_iff.mp leaves
  exact .exit found leaves

theorem Inside.of_inner {mid : NodeId} (leaves : (g.node? id).bind Node.exit = some mid)
    (inside : g.Inside mid inner) : g.Inside id inner := by
  induction inside with
  | exit found leaves' => exact .nested (inside_exit leaves) found leaves'
  | nested _ found leaves' ih => exact .nested ih found leaves'

theorem Inside.split (inside : g.Inside id inner) : ∃ mid,
    (g.node? id).bind Node.exit = some mid ∧ (inner = mid ∨ g.Inside mid inner) := by
  induction inside with
  | exit found leaves => exact ⟨_, by rw [found]; exact leaves, .inl rfl⟩
  | nested _ found leaves ih =>
    obtain ⟨mid, first, rfl | inside⟩ := ih
    · exact ⟨_, first, .inr (.exit found leaves)⟩
    · exact ⟨mid, first, .inr (.nested inside found leaves)⟩

theorem mem_exitsBy (descends : Descends g.nodes) {depth source : Nat}
    (enough : g.nodes.size ≤ depth + source) (within : source < g.nodes.size) :
    id ∈ exitsBy depth source g.nodes ↔ id = source ∨ g.Inside source id := by
  induction depth generalizing source with
  | zero => omega
  | succ depth ih =>
    unfold exitsBy
    cases leaves : g.nodes[source]?.bind Node.exit with
    | none =>
      refine List.mem_singleton.trans ⟨.inl, fun either => either.resolve_right fun inside => ?_⟩
      obtain ⟨mid, first, -⟩ := inside.split
      rw [node?, leaves] at first
      cases first
    | some exit =>
      have ⟨deeper, within⟩ := descends source exit leaves
      rw [List.mem_cons, ih (by omega) within]
      refine or_congr_right ⟨fun either => ?_, fun inside => ?_⟩
      · rcases either with rfl | inside
        · exact inside_exit leaves
        · exact inside.of_inner leaves
      · obtain ⟨mid, first, either⟩ := inside.split
        obtain rfl := Option.some.inj (leaves.symm.trans first)
        exact either

end

theorem linkMain_node? (g : Graph σ) (descends : Descends g.nodes) {source : NodeId}
    (within : source < g.nodes.size) (target : Option NodeId) {id : NodeId} {node : Node σ}
    (found : g.node? id = some node) :
    (id = source ∨ g.Inside source id → (linkMain source target g.nodes)[id]? =
      some { node with main := target }) ∧
    (¬(id = source ∨ g.Inside source id) → (linkMain source target g.nodes)[id]? = some node) := by
  have linked := linkMainBy_getElem? g.nodes.size source id target g.nodes
  rw [← node?, found, Option.map_some] at linked
  have member : id ∈ exitsBy g.nodes.size source g.nodes ↔ id = source ∨ g.Inside source id :=
    mem_exitsBy descends (Nat.le_add_right _ source) within
  refine ⟨fun either => ?_, fun neither => ?_⟩
  · rw [linkMain, linked, if_pos (member.mpr either)]
  · rw [linkMain, linked, if_neg fun within => neither (member.mp within)]

end Sluice.Graph
