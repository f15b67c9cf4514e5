import Sluice.Proofs.Graph.Returns
import Sluice.Proofs.Graph.Charter

set_option autoImplicit false

namespace Sluice

variable {σ α β : Type}

namespace Run

def Tracks (run other : Run σ α) (g : Graph σ) (post : Except EngineError α → Graph σ → Prop) : Prop :=
  run.start g = other.start g ∧ run.Ends g post

namespace Tracks

variable {run other : Run σ α} {g : Graph σ} {post weaker : Except EngineError α → Graph σ → Prop}

theorem of_ends (ends : run.Ends g post) : run.Tracks run g post := ⟨rfl, ends⟩

theorem of_start {result : Except EngineError α} {after : Graph σ}
    (first : run.start g = some (result, after)) (second : other.start g = some (result, after))
    (holds : post result after) : run.Tracks other g post := by
  refine ⟨first.trans second.symm, ?_⟩
  unfold Ends
  rw [first]
  exact holds

theorem mono (tracks : run.Tracks other g post)
    (implies : ∀ result after, post result after → weaker result after) : run.Tracks other g weaker :=
  ⟨tracks.1, tracks.2.mono implies⟩

theorem other_ends (tracks : run.Tracks other g post) : other.Ends g post := by
  unfold Ends
  rw [← tracks.1]
  exact tracks.2

theorem bind {next then' : α → Run σ β} {post : Except EngineError β → Graph σ → Prop}
    {mid : Except EngineError α → Graph σ → Prop} (first : run.Tracks other g mid)
    (ok : ∀ a after, mid (.ok a) after → (next a).Tracks (then' a) after post)
    (error : ∀ e after, mid (.error e) after → post (.error e) after) :
    (run >>= next).Tracks (other >>= then') g post := by
  obtain ⟨same, ends⟩ := first
  constructor
  · rw [start_bind, start_bind, ← same]
    cases started : run.start g with
    | none => rfl
    | some ended =>
      obtain ⟨result, after⟩ := ended
      cases result with
      | ok a => exact (ok a after (ends.of_start started)).1
      | error e => rfl
  · rw [ends_bind]
    refine ends.mono fun result after holds => ?_
    cases result with
    | ok a => exact (ok a after holds).2
    | error e => exact error e after holds

theorem attempt (tracks : run.Tracks other g post) : run.attempt.Tracks other.attempt g
    fun result after => ∃ ended, result = .ok ended ∧ post ended after := by
  constructor
  · rw [attempt_start, attempt_start, tracks.1]
  · rw [ends_attempt]
    exact tracks.2.mono fun ended after holds => ⟨ended, rfl, holds⟩

theorem atNode {id : NodeId} {f f' : Node σ → Run σ Unit}
    {post : Except EngineError Unit → Graph σ → Prop}
    (there : ∀ node, g.node? id = some node → (f node).Tracks (f' node) g post)
    (absent : g.node? id = none → post (.ok ()) g) :
    (Run.atNode id f).Tracks (Run.atNode id f') g post := by
  cases found : g.node? id with
  | none =>
    refine ⟨by rw [atNode_start_none found, atNode_start_none found], ?_⟩
    rw [ends_atNode]
    exact ⟨fun node same => (nomatch found.symm.trans same), fun _ => absent found⟩
  | some node =>
    refine ⟨by rw [atNode_start found, atNode_start found, (there node found).1], ?_⟩
    rw [ends_atNode]
    exact ⟨fun other same => (there other same).2, fun none => nomatch found.symm.trans none⟩

theorem reading {next then' : Graph σ → Run σ α} (rest : (next g).Tracks (then' g) g post) :
    (graph >>= next).Tracks (graph >>= then') g post := by
  refine ⟨?_, by rw [ends_bind, ends_graph]; exact rest.2⟩
  rw [start_bind, start_bind]
  exact rest.1

theorem holding {id : NodeId} (tracks : run.Tracks other (g.mark id true) fun result after =>
    post result (after.mark id false)) : (Run.holding id run).Tracks (Run.holding id other) g post := by
  constructor
  · rw [holding_start, holding_start, tracks.1]
  · rw [ends_holding]
    exact tracks.2

end Tracks

end Run

def Node.stance (node : Node σ) : Node Unit := { node.fixed with busy := node.busy }

section

variable {before node : Node σ} (same : node.stance = before.stance)
include same

theorem Node.fixed_of_stance : node.fixed = before.fixed :=
  congrArg (fun node : Node Unit => { node with busy := false }) same

theorem Node.busy_of_stance : node.busy = before.busy :=
  congrArg (fun node : Node Unit => node.busy) same

end

namespace Graph

structure Stays (g after : Graph σ) : Prop where
  nodes : ∀ id, (after.node? id).map Node.stance = (g.node? id).map Node.stance
  root : after.root = g.root
  history : g.history <:+ after.history

namespace Stays

variable {g mid after : Graph σ} {id : NodeId}

theorem refl (g : Graph σ) : g.Stays g := ⟨fun _ => rfl, rfl, List.suffix_refl _⟩

theorem trans (first : g.Stays mid) (second : mid.Stays after) : g.Stays after :=
  ⟨fun id => (second.nodes id).trans (first.nodes id), second.root.trans first.root,
    first.history.trans second.history⟩

theorem node (stays : g.Stays after) {before : Node σ} (found : g.node? id = some before) :
    ∃ node, after.node? id = some node ∧ node.stance = before.stance := by
  have same := stays.nodes id
  rw [found] at same
  exact Option.map_eq_some_iff.mp same

theorem node_before (stays : g.Stays after) {node : Node σ} (found : after.node? id = some node) :
    ∃ before, g.node? id = some before ∧ node.stance = before.stance := by
  have same := stays.nodes id
  rw [found] at same
  obtain ⟨before, was, same⟩ := Option.map_eq_some_iff.mp same.symm
  exact ⟨before, was, same.symm⟩

theorem update {f : Node σ → Node σ}
    (same : ∀ node, g.node? id = some node → (f node).stance = node.stance) :
    g.Stays (g.updateNode id f) :=
  ⟨map_updateNode same, rfl, List.suffix_refl _⟩

theorem remember (g : Graph σ) (event : Event σ) : g.Stays (g.remember event) :=
  ⟨fun _ => rfl, rfl, List.suffix_cons _ _⟩

theorem store (g : Graph σ) (store : Store) : g.Stays { g with store } :=
  ⟨fun _ => rfl, rfl, List.suffix_refl _⟩

theorem unmarked {node : Node σ} (found : g.node? id = some node) (idle : node.busy = false)
    (stays : (g.mark id true).Stays after) : g.Stays (after.mark id false) := by
  refine ⟨fun other => ?_, stays.root, stays.history⟩
  have same := stays.nodes other
  rw [mark, node?_updateNode] at same ⊢
  split at same
  next here =>
    subst here
    rw [found] at same ⊢
    obtain ⟨last, there, same⟩ := Option.map_eq_some_iff.mp same
    rw [if_pos rfl, there]
    have fixed : last.fixed = ({ node with busy := true } : Node σ).fixed := Node.fixed_of_stance same
    have stance : ({ last with busy := false } : Node σ).stance = node.stance := by
      unfold Node.stance
      rw [idle]
      exact fixed
    exact congrArg some stance
  next other => rwa [if_neg other]

end Stays

def Relieved (g : Graph σ) (id : NodeId) : Prop :=
  ∀ node, g.node? id = some node → node.tank.popExcess = none

end Graph

end Sluice
