import Sluice.Proofs.Graph.Regime

set_option autoImplicit false

namespace Sluice.Graph

variable {σ : Type} [Stage σ]

inductive Downstream (g : Graph σ) (id : NodeId) : NodeId → Prop
  | next {target : NodeId} {node : Node σ} (found : g.node? id = some node)
      (leads : target ∈ node.next) : g.Downstream id target
  | onward {mid target : NodeId} {node : Node σ} (before : g.Downstream id mid)
      (found : g.node? mid = some node) (leads : target ∈ node.next) : g.Downstream id target

/-- What has been seen after going depth first to a node, no deeper than given. -/
def walk (g : Graph σ) : Nat → NodeId → List NodeId → List NodeId
  | 0, _, seen => seen
  | depth + 1, id, seen =>
    if id ∈ seen then seen
    else
      match g.node? id with
      | none => seen
      | some node => node.next.foldl (fun seen target => g.walk depth target seen) (seen ++ [id])

def walkAll (g : Graph σ) (depth : Nat) (targets seen : List NodeId) : List NodeId :=
  targets.foldl (fun seen target => g.walk depth target seen) seen

def closeOrder (g : Graph σ) : List NodeId := g.walk (g.nodes.size + 1) g.root []

variable {g : Graph σ} {id : NodeId} {seen : List NodeId} {depth : Nat}

theorem walk_seen (member : id ∈ seen) : g.walk depth id seen = seen := by
  cases depth with
  | zero => rfl
  | succ depth => rw [walk, if_pos member]

theorem walk_absent (absent : g.node? id = none) : g.walk depth id seen = seen := by
  cases depth with
  | zero => rfl
  | succ depth =>
    rw [walk, absent]
    split <;> rfl

theorem walk_next {node : Node σ} (found : g.node? id = some node) (unseen : id ∉ seen) :
    g.walk (depth + 1) id seen = g.walkAll depth node.next (seen ++ [id]) := by
  rw [walk, if_neg unseen, found]
  rfl

@[simp] theorem walkAll_cons (target : NodeId) (rest : List NodeId) :
    g.walkAll depth (target :: rest) seen = g.walkAll depth rest (g.walk depth target seen) := rfl

theorem walkAll_append (targets more : List NodeId) :
    g.walkAll depth (targets ++ more) seen = g.walkAll depth more (g.walkAll depth targets seen) :=
  List.foldl_append

theorem walkAll_grows {targets : List NodeId}
    (walked : ∀ target seen, seen <+: g.walk depth target seen) :
    seen <+: g.walkAll depth targets seen := by
  induction targets generalizing seen with
  | nil => exact List.prefix_refl _
  | cons target rest ih => exact (walked target seen).trans ih

theorem walk_grows (depth : Nat) (id : NodeId) (seen : List NodeId) :
    seen <+: g.walk depth id seen := by
  induction depth generalizing id seen with
  | zero => exact List.prefix_refl _
  | succ depth ih =>
    by_cases member : id ∈ seen
    · simp [walk_seen member]
    · cases found : g.node? id with
      | none => simp [walk_absent found]
      | some node =>
        rw [walk_next found member]
        exact (List.prefix_append seen [id]).trans (walkAll_grows ih)

def unseen (g : Graph σ) (seen : List NodeId) : Nat :=
  (List.range g.nodes.size).countP fun id => id ∉ seen

omit [Stage σ] in
theorem unseen_mono {more : List NodeId} (grown : seen <+: more) : g.unseen more ≤ g.unseen seen :=
  List.countP_mono_left fun id _ fresh => by
    simp only [decide_eq_true_eq] at fresh ⊢
    exact fun member => fresh (grown.subset member)

omit [Stage σ] in
theorem unseen_visit {node : Node σ} (found : g.node? id = some node) (fresh : id ∉ seen) :
    g.unseen (seen ++ [id]) < g.unseen seen := by
  have inside : id ∈ List.range g.nodes.size :=
    List.mem_range.mpr (Array.getElem?_eq_some_iff.mp found).1
  obtain ⟨before, rest, split⟩ := List.append_of_mem inside
  have fewer (ids : List NodeId) : ids.countP (fun id' => id' ∉ seen ++ [id]) ≤
      ids.countP fun id' => id' ∉ seen := by
    refine List.countP_mono_left fun other _ out => ?_
    simp only [decide_eq_true_eq] at out ⊢
    exact fun member => out (List.mem_append_left _ member)
  unfold unseen
  rw [split, List.countP_append, List.countP_append, List.countP_cons_of_neg (by simp),
    List.countP_cons_of_pos (by simpa using fresh)]
  have := fewer before
  have := fewer rest
  omega

theorem walkAll_deep {more : Nat} {targets : List NodeId}
    (deep : ∀ target seen, g.unseen seen < depth → g.walk more target seen = g.walk depth target seen)
    (enough : g.unseen seen < depth) : g.walkAll more targets seen = g.walkAll depth targets seen := by
  induction targets generalizing seen with
  | nil => rfl
  | cons target rest ih =>
    rw [walkAll_cons, walkAll_cons, deep target seen enough]
    exact ih (Nat.lt_of_le_of_lt (unseen_mono (walk_grows _ _ _)) enough)

theorem walk_deep {more : Nat} (least : depth ≤ more) (id : NodeId) (seen : List NodeId)
    (enough : g.unseen seen < depth) : g.walk more id seen = g.walk depth id seen := by
  -- Every step on the way sees another node.
  induction depth generalizing more id seen with
  | zero => omega
  | succ depth ih =>
    obtain ⟨more, rfl⟩ : ∃ n, more = n + 1 := ⟨more - 1, by omega⟩
    by_cases member : id ∈ seen
    · rw [walk_seen member, walk_seen member]
    · cases found : g.node? id with
      | none => rw [walk_absent found, walk_absent found]
      | some node =>
        rw [walk_next found member, walk_next found member]
        refine walkAll_deep (fun target seen => ih (by omega) target seen) ?_
        have := unseen_visit found member
        omega

omit [Stage σ] in
theorem unseen_start (g : Graph σ) : g.unseen [] < g.nodes.size + 1 :=
  Nat.lt_succ_of_le (Nat.le_trans List.countP_le_length (Nat.le_of_eq List.length_range))

theorem walk_root {more : Nat} (least : g.nodes.size + 1 ≤ more) :
    g.walk more g.root [] = g.closeOrder :=
  walk_deep least g.root [] g.unseen_start

def Explored (g : Graph σ) (seen all : List NodeId) : Prop :=
  ∀ id ∈ all, id ∉ seen → ∀ node, g.node? id = some node → ∀ target ∈ node.next,
    ∀ next, g.node? target = some next → target ∈ all

theorem Explored.trans {all more : List NodeId} (first : g.Explored seen all)
    (second : g.Explored all more) (grown : all <+: more) : g.Explored seen more := by
  intro id member fresh node found target leads next there
  by_cases before : id ∈ all
  · exact grown.subset (first id before fresh node found target leads next there)
  · exact second id member before node found target leads next there

theorem walkAll_explored (targets : List NodeId)
    (explored : ∀ target seen, g.unseen seen < depth → g.Explored seen (g.walk depth target seen) ∧
      ∀ node, g.node? target = some node → target ∈ g.walk depth target seen)
    (enough : g.unseen seen < depth) : g.Explored seen (g.walkAll depth targets seen) ∧
      ∀ target ∈ targets, ∀ node, g.node? target = some node →
        target ∈ g.walkAll depth targets seen := by
  induction targets generalizing seen with
  | nil => exact ⟨fun id member fresh => absurd member fresh, fun _ member => by cases member⟩
  | cons target rest ih =>
    rw [walkAll_cons]
    have ⟨first, gets⟩ := explored target seen enough
    have grown : g.walk depth target seen <+: g.walkAll depth rest (g.walk depth target seen) :=
      walkAll_grows (walk_grows depth)
    have enough := Nat.lt_of_le_of_lt (unseen_mono (walk_grows (g := g) depth target seen)) enough
    have ⟨second, rests⟩ := ih enough
    refine ⟨first.trans second grown, fun other member node found => ?_⟩
    rcases List.mem_cons.mp member with rfl | member
    · exact grown.subset (gets node found)
    · exact rests other member node found

theorem walk_explored (id : NodeId) (seen : List NodeId) (enough : g.unseen seen < depth) :
    g.Explored seen (g.walk depth id seen) ∧
      ∀ node, g.node? id = some node → id ∈ g.walk depth id seen := by
  induction depth generalizing id seen with
  | zero => omega
  | succ depth ih =>
    by_cases member : id ∈ seen
    · rw [walk_seen member]
      exact ⟨fun id member fresh => absurd member fresh, fun _ _ => member⟩
    · cases found : g.node? id with
      | none =>
        rw [walk_absent found]
        exact ⟨fun id member fresh => absurd member fresh, fun _ there => by cases there⟩
      | some node =>
        have enough : g.unseen (seen ++ [id]) < depth := by
          have := unseen_visit found member
          omega
        have ⟨explored, gets⟩ := walkAll_explored node.next (fun target seen => ih target seen)
          enough
        rw [walk_next found member]
        have visited : id ∈ g.walkAll depth node.next (seen ++ [id]) :=
          (walkAll_grows (walk_grows depth)).subset (by simp)
        refine ⟨fun other there fresh last found' target leads next present => ?_, fun _ _ => visited⟩
        by_cases same : other = id
        · subst same
          obtain rfl : node = last := Option.some.inj (found.symm.trans found')
          exact gets target leads next present
        · exact explored other there (by simp [fresh, same]) last found' target leads next present

theorem closeOrder_next {node next : Node σ} {target : NodeId} (member : id ∈ g.closeOrder)
    (found : g.node? id = some node) (leads : target ∈ node.next)
    (there : g.node? target = some next) : target ∈ g.closeOrder :=
  (walk_explored g.root [] g.unseen_start).1 id member List.not_mem_nil node found target leads next
    there

end Sluice.Graph
