import Sluice.Proofs.Assembly.Bounds
import Sluice.Proofs.Route.Edges

set_option autoImplicit false

namespace Sluice

variable {σ : Type}

namespace Route

theorem edgesOf_ends (opened : Nat) : (route : List Element) → route ≠ [] →
    ∃ hop ∈ edgesOf opened route, hop.target = none
  | [.stage reference], _ => ⟨⟨reference, .main, none⟩, by simp [edgesOf, Element.edges, follower], rfl⟩
  | [.branch inner], _ =>
    ⟨⟨fanOutName (opened + 1), .main, none⟩, by simp [edgesOf, Element.edges, follower], rfl⟩
  | element :: next :: rest, _ =>
    have ⟨hop, member, ends⟩ := edgesOf_ends (opened + element.branchCount) (next :: rest) (by simp)
    ⟨hop, List.mem_append_right _ member, ends⟩

theorem read_ends {text : String} {plan : Plan} (done : Plan.read text = .ok plan) :
    ∃ hop ∈ plan.hops, hop.target = none := by
  obtain ⟨route, read, rfl⟩ := (Plan.read_ok_iff text plan).mp done
  have proper := ((read_ok_iff text route).mp read).1
  obtain ⟨hop, member, ends⟩ := edgesOf_ends 0 route proper.1
  rw [ofElements_hops proper]
  exact ⟨hop, List.mem_eraseDups.mpr member, ends⟩

end Route

theorem foldlM_reaches {ε γ δ : Type} {f : γ → δ → Except ε γ} {before after : γ → Prop}
    {items : List δ} {x : δ} (member : x ∈ items)
    (waits : ∀ y ∈ items, ∀ found next, before found → f found y = .ok next → before next)
    (sets : ∀ found next, before found → f found x = .ok next → after next)
    (keeps : ∀ y ∈ items, ∀ found next, after found → f found y = .ok next → after next)
    {start last : γ} (begins : before start) (done : items.foldlM f start = .ok last) :
    after last := by
  obtain ⟨earlier, later, rfl⟩ := List.append_of_mem member
  rw [List.foldlM_append] at done
  obtain ⟨found, first, done⟩ := except_bind_ok done
  have found := foldlM_keeps (fun y within => waits y (List.mem_append_left _ within)) begins first
  rw [List.foldlM_cons] at done
  obtain ⟨next, one, done⟩ := except_bind_ok done
  refine foldlM_keeps (fun y within => keeps y ?_) (sets _ next found one) done
  exact List.mem_append_right _ (List.mem_cons_of_mem x within)

structure Node.Aside {β : Type} (f : Node σ → β) : Prop where
  main : ∀ node main, f { node with main } = f node
  branch : ∀ node branch, f { node with branch } = f node

namespace Wiring

def Encloses (id : Nat) (nodes : Array (Node σ)) : Prop :=
  ∃ node entry exit, nodes[id]? = some node ∧ node.kind = .subGraph entry exit

def Left (id : Nat) (nodes : Array (Node σ)) : Prop :=
  ∃ exit, nodes[id]?.bind Node.exit = some exit

theorem linkHop_same {β : Type} {f : Node σ → β} (aside : Node.Aside f) {s : Level}
    {linked next : Linked σ} {hop : Route.Hop} (done : linkHop s linked hop = .ok next) :
    next.nodes.map f = linked.nodes.map f := by
  obtain ⟨source, ⟨-, rfl⟩ | ⟨target, -, rfl | rfl⟩⟩ := linkHop_cases done
  · rfl
  · exact map_modify_same fun node _ => aside.branch node _
  · refine Array.ext_getElem? fun id => ?_
    rw [Array.getElem?_map, Array.getElem?_map, Graph.linkMain, Graph.linkMainBy_getElem?,
      Option.map_map]
    refine congrArg (linked.nodes[id]?.map ·) (funext fun node => ?_)
    dsimp only [Function.comp]
    split
    · exact aside.main node _
    · rfl

theorem linkHop_kinds {s : Level} {linked next : Linked σ} {hop : Route.Hop}
    (done : linkHop s linked hop = .ok next) :
    next.nodes.map Node.kind = linked.nodes.map Node.kind :=
  linkHop_same ⟨fun _ _ => rfl, fun _ _ => rfl⟩ done

theorem linkHop_exit {s : Level} {linked next : Linked σ} {hop : Route.Hop}
    (ends : linked.exit.isSome ∨ hop.target = none) (done : linkHop s linked hop = .ok next) :
    next.exit.isSome := by
  obtain ⟨source, ⟨-, rfl⟩ | ⟨target, onward, rfl | rfl⟩⟩ := linkHop_cases done
  · rfl
  · exact ends.resolve_right onward
  · exact ends.resolve_right onward

theorem Left.encloses {id : Nat} {nodes : Array (Node σ)} (left : Left id nodes) :
    Encloses id nodes := by
  obtain ⟨exit, leaves⟩ := left
  obtain ⟨node, found, leaves⟩ := Option.bind_eq_some_iff.mp leaves
  unfold Node.exit at leaves
  split at leaves
  next entry exit kind => exact ⟨node, entry, exit, found, kind⟩
  next => cases leaves

theorem linkLevel_left {s : Level} (terminal : ∃ hop ∈ s.plan.hops, hop.target = none)
    {nodes next : Array (Node σ)} (done : linkLevel nodes s = .ok next) (id : Nat) :
    (Encloses id nodes → Encloses id next ∧ (s.node = id → Left id next)) ∧
      (Left id nodes → Left id next) := by
  obtain ⟨linked, hops, ended⟩ := except_bind_ok done
  cases ended
  have kinds : linked.nodes.map Node.kind = nodes.map Node.kind :=
    foldlM_keeps (fun _ _ _ _ same done => (linkHop_kinds done).trans same) rfl hops
  obtain ⟨hop, member, ends⟩ := terminal
  -- The exit is noted at an edge that leads nowhere, and no later edge takes that back.
  have leaves : linked.exit.isSome :=
    foldlM_reaches member (fun _ _ _ _ (holds : True) _ => holds)
      (fun _ _ _ done => linkHop_exit (.inr ends) done)
      (fun _ _ _ _ leaves done => linkHop_exit (.inl leaves) done) trivial hops
  obtain ⟨exit, leaves⟩ := Option.isSome_iff_exists.mp leaves
  have kept (kind : NodeKind σ) : nodes[id]?.map Node.kind = some kind →
      ∃ last, linked.nodes[id]? = some last ∧ last.kind = kind := fun was => by
    rw [← Array.getElem?_map, ← kinds, Array.getElem?_map] at was
    exact Option.map_eq_some_iff.mp was
  by_cases here : s.node = id
  · -- Whatever was left somewhere is a sub-graph, and is left at the exit now.
    have set (encloses : Encloses id nodes) : Left id (linked.nodes.modify s.node
        (setEnds linked.entry linked.exit)) := by
      obtain ⟨node, entry, inner, found, kind⟩ := encloses
      obtain ⟨last, there, kind⟩ := kept (.subGraph entry inner) (by rw [found, ← kind]; rfl)
      refine ⟨exit, ?_⟩
      rw [Array.getElem?_modify, if_pos here, there, leaves]
      simp [setEnds, kind, Node.exit]
    exact ⟨fun encloses => ⟨(set encloses).encloses, fun _ => set encloses⟩,
      fun left => set left.encloses⟩
  · have same (node : Node σ) (found : nodes[id]? = some node) : ∃ last,
        (linked.nodes.modify s.node (setEnds linked.entry linked.exit))[id]? = some last ∧
          last.kind = node.kind := by
      obtain ⟨last, there, kind⟩ := kept node.kind (by rw [found]; rfl)
      exact ⟨last, by rw [Array.getElem?_modify, if_neg here, there], kind⟩
    constructor
    · rintro ⟨node, entry, inner, found, kind⟩
      obtain ⟨last, there, same⟩ := same node found
      exact ⟨⟨last, entry, inner, there, same.trans kind⟩, fun there => absurd there here⟩
    · rintro ⟨exit, leaves⟩
      obtain ⟨node, found, leaves⟩ := Option.bind_eq_some_iff.mp leaves
      obtain ⟨last, there, same⟩ := same node found
      refine ⟨exit, ?_⟩
      rw [there, Option.bind_some, Node.exit, same]
      exact leaves

theorem linkAll_left {layout linked : Layout σ} (declared : ∀ s ∈ layout.levels, s.Declared)
    {s : Level} (member : s ∈ layout.levels) (encloses : Encloses s.node layout.nodes)
    (done : linkAll layout = .ok linked) : Left s.node linked.nodes := by
  obtain ⟨nodes, levels, ended⟩ := except_bind_ok done
  cases ended
  have terminal (other : Level) (member : other ∈ layout.levels.reverse) :
      ∃ hop ∈ other.plan.hops, hop.target = none :=
    Route.read_ends (declared other (List.mem_reverse.mp member)).1
  have member := List.mem_reverse.mpr member
  -- Pipelines are linked from the innermost one on, and the others keep what is said of this one.
  exact foldlM_reaches member
    (fun other member _ _ encloses done =>
      ((linkLevel_left (terminal other member) done _).1 encloses).1)
    (fun _ _ encloses done => ((linkLevel_left (terminal s member) done _).1 encloses).2 rfl)
    (fun other member _ _ left done => (linkLevel_left (terminal other member) done _).2 left)
    encloses levels

end Wiring

namespace Layout

structure Grows (layout after : Layout σ) : Prop where
  nodes : ∀ (id : Nat) (node : Node σ), layout.nodes[id]? = some node → after.nodes[id]? = some node
  levels : layout.levels ⊆ after.levels

theorem Grows.trans {layout mid after : Layout σ} (first : layout.Grows mid)
    (second : mid.Grows after) : layout.Grows after :=
  ⟨fun id node found => second.nodes id node (first.nodes id node found),
    List.Subset.trans first.levels second.levels⟩

theorem addMembers_grows (parent : String) (parts : List (Part σ)) (layout : Layout σ)
    (more : List Level) :
    layout.Grows { addMembers parent parts layout with levels := layout.levels ++ more } where
  nodes id node found := by
    have within := (Array.getElem?_eq_some_iff.mp found).1
    simpa [addMembers, Array.getElem?_append, within] using found
  levels := List.subset_append_left _ _

mutual

theorem addOutline_grows (node : Nat) (path : String) : (outline : Outline σ) →
    (layout : Layout σ) → layout.Grows (addOutline node path outline layout)
  | .make _ _ parts, layout =>
    (addMembers_grows path parts layout _).trans (addInner_grows layout.nodes.size path parts _)

theorem addInner_grows (id : Nat) (parent : String) : (parts : List (Part σ)) →
    (layout : Layout σ) → layout.Grows (addInner id parent parts layout)
  | [], _ => ⟨fun _ _ found => found, List.Subset.refl _⟩
  | part :: rest, layout =>
    (addPart_grows id parent part layout).trans (addInner_grows (id + 1) parent rest _)

theorem addPart_grows (id : Nat) (parent : String) : (part : Part σ) →
    (layout : Layout σ) → layout.Grows (addPart id parent part layout)
  | .subGraph member inner, layout => addOutline_grows id (joinPath parent member.name) inner layout
  | .fanOut _, _ => ⟨fun _ _ found => found, List.Subset.refl _⟩
  | .stage _ _, _ => ⟨fun _ _ found => found, List.Subset.refl _⟩

end

theorem ofOutline_root (outline : Outline σ) :
    Wiring.Encloses 0 (ofOutline outline).nodes ∧ ∃ s ∈ (ofOutline outline).levels, s.node = 0 := by
  obtain ⟨p, plan, parts⟩ := outline
  have grown := addOutline_grows 0 "" (.make p plan parts) ⟨#[rootNode (.make p plan parts)], []⟩
  have inner := addInner_grows 1 "" parts
    { addMembers "" parts ⟨#[rootNode (.make p plan parts)], []⟩ with
      levels := [] ++ [level 0 1 p plan parts] }
  exact ⟨⟨rootNode (.make p plan parts), none, none, grown.nodes 0 _ rfl, rfl⟩,
    level 0 1 p plan parts, inner.levels (by simp), rfl⟩

end Layout

theorem SameLinks.encloses {nodes after : Array (Node σ)} (same : SameLinks nodes after) {id : Nat}
    (encloses : Wiring.Encloses id nodes) : Wiring.Encloses id after := by
  obtain ⟨node, entry, exit, found, kind⟩ := encloses
  obtain ⟨last, there, links⟩ := same.symm.node found
  have shape := Node.shape_of_links links
  rw [kind] at shape
  cases other : last.kind with
  | subGraph entry exit => exact ⟨last, entry, exit, there, other⟩
  | _ => rw [other] at shape; cases shape

theorem SameLinks.left {nodes after : Array (Node σ)} (same : SameLinks nodes after) {id : Nat}
    (left : Wiring.Left id nodes) : Wiring.Left id after := by
  obtain ⟨exit, leaves⟩ := left
  exact ⟨exit, (same.exit id).trans leaves⟩

namespace Blueprint

open Building (Yields)

variable [Stage σ]

theorem assemble_left (b : Blueprint σ) : b.assemble.Yields (Wiring.Left 0) := by
  refine (Outline.declareWithin_yields b.registry _ b.pipeline).bind fun outline declared => ?_
  have ⟨encloses, s, member, root⟩ := Layout.ofOutline_root outline
  have declared := (Layout.ofOutline_declared declared).levels
  refine .bind (.ofConfig fun bound done => Binding.bindAll_links done)
    fun bound ⟨before, levels⟩ => ?_
  refine .bind (.ofConfig fun linked done => Wiring.linkAll_left (s := s) (levels ▸ declared)
    (levels ▸ member) (root ▸ before.encloses encloses) done) fun linked left => ?_
  refine (Wiring.attachFrom_links _ 0 (.refl linked.nodes)).bind fun nodes attached => ?_
  refine (Inspection.inspect_yields _).bind fun _ _ => ?_
  exact .ofConfig fun configured done => root ▸ (attached.trans (configureAll_links done)).left left

theorem build_exit {b : Blueprint σ} {g : Graph σ} (built : b.build.1 = .ok g) :
    ∃ exit, g.exit = some exit := by
  obtain ⟨nodes, history, rfl, -, exit, leaves⟩ := build_yields b.assemble_left built
  obtain ⟨node, found, leaves⟩ := Option.bind_eq_some_iff.mp leaves
  have within := (Array.getElem?_eq_some_iff.mp found).1
  refine ⟨exit, Option.bind_eq_some_iff.mpr ⟨node, ?_, leaves⟩⟩
  exact (Array.getElem?_push.trans (if_neg (Nat.ne_of_lt within))).trans found

end Blueprint

end Sluice
