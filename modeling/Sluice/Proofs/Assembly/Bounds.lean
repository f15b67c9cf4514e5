import Sluice.Proofs.Assembly.Build
import Sluice.Proofs.Graph.Advance
import Sluice.Proofs.Graph.ExitChains

set_option autoImplicit false

namespace Sluice

variable {σ : Type}

theorem map_modify_same {α β : Type} {f : α → β} {next : α → α} {items : Array α} {i : Nat}
    (keeps : ∀ x, items[i]? = some x → f (next x) = f x) :
    (items.modify i next).map f = items.map f := by
  refine Array.ext_getElem? fun j => ?_
  rw [Array.getElem?_map, Array.getElem?_map, Array.getElem?_modify]
  split
  next here =>
    subst here
    cases found : items[i]? with
    | none => rfl
    | some x => exact congrArg some (keeps x found)
  next => rfl

theorem map_set_same {α β : Type} {f : α → β} {items : Array α} {i : Nat} {x y : α}
    (found : items[i]? = some x) (same : f y = f x) :
    (items.setIfInBounds i y).map f = items.map f := by
  refine Array.ext_getElem? fun j => ?_
  rw [Array.getElem?_map, Array.getElem?_map, Array.getElem?_setIfInBounds]
  split
  next here =>
    subst here
    rw [found]
    split
    · exact congrArg some same
    next outside => exact absurd (Array.getElem?_eq_some_iff.mp found).1 outside
  next => rfl

structure Node.Steady {β : Type} (f : Node σ → β) : Prop where
  configured : ∀ node s t tank, node.kind = .stage s → f { node with kind := .stage t, tank } = f node

structure Node.Settled {β : Type} (f : Node σ → β) : Prop extends Node.Steady f where
  bound : ∀ node params dynamic, f { node with params, dynamic } = f node

def Node.links (node : Node σ) : NodeKind Unit × Option NodeId × Option NodeId :=
  (node.kind.shape, node.main, node.branch)

theorem Node.links_settled : Node.Settled (Node.links : Node σ → _) where
  bound _ _ _ := rfl
  configured node s t tank stage := by simp [Node.links, stage, NodeKind.shape]

theorem Node.isFanOut_settled : Node.Settled (Node.isFanOut : Node σ → Bool) where
  bound _ _ _ := rfl
  configured node s t tank stage := by simp [Node.isFanOut, stage]

def SameLinks (nodes after : Array (Node σ)) : Prop :=
  after.map Node.links = nodes.map Node.links

structure Node.Bounded (size id : Nat) (node : Node σ) : Prop where
  main : ∀ target : Nat, node.main = some target → target < size
  branch : ∀ target : Nat, node.branch = some target → target < size
  entry : ∀ target : Nat, node.entry = some target → target < size
  exit : ∀ target : Nat, node.exit = some target → id < target ∧ target < size

def AllBounded (nodes : Array (Node σ)) : Prop :=
  ∀ (id : Nat) (node : Node σ), nodes[id]? = some node → node.Bounded nodes.size id

namespace Node

theorem ends_of_shape {node other : Node σ} (shape : node.kind.shape = other.kind.shape) :
    node.entry = other.entry ∧ node.exit = other.exit := by
  unfold entry exit
  cases kind : node.kind <;> cases kind' : other.kind <;> rw [kind, kind'] at shape <;>
    cases shape <;> exact ⟨rfl, rfl⟩

variable {node other : Node σ} (same : node.links = other.links)
include same

theorem main_of_links : node.main = other.main := congrArg (fun links => links.2.1) same

theorem branch_of_links : node.branch = other.branch := congrArg (fun links => links.2.2) same

theorem shape_of_links : node.kind.shape = other.kind.shape := congrArg Prod.fst same

theorem ends_of_links : node.entry = other.entry ∧ node.exit = other.exit :=
  ends_of_shape (shape_of_links same)

theorem Bounded.of_links {size id : Nat} (bounded : other.Bounded size id) :
    node.Bounded size id where
  main := main_of_links same ▸ bounded.main
  branch := branch_of_links same ▸ bounded.branch
  entry := (ends_of_links same).1 ▸ bounded.entry
  exit := (ends_of_links same).2 ▸ bounded.exit

end Node

namespace SameLinks

variable {nodes mid after : Array (Node σ)}

theorem refl (nodes : Array (Node σ)) : SameLinks nodes nodes := rfl

theorem trans (first : SameLinks nodes mid) (second : SameLinks mid after) :
    SameLinks nodes after := Eq.trans second first

theorem symm (same : SameLinks nodes after) : SameLinks after nodes := Eq.symm same

theorem size (same : SameLinks nodes after) : after.size = nodes.size := by
  rw [← Array.size_map (f := Node.links), same, Array.size_map]

theorem node (same : SameLinks nodes after) {id : NodeId} {node : Node σ}
    (found : after[id]? = some node) :
    ∃ before, nodes[id]? = some before ∧ node.links = before.links := by
  have links := congrArg (·[id]?) same
  simp only [Array.getElem?_map, found, Option.map_some] at links
  obtain ⟨before, was, links⟩ := Option.map_eq_some_iff.mp links.symm
  exact ⟨before, was, links.symm⟩

theorem getElem? (same : SameLinks nodes after) (id : NodeId) :
    after[id]?.map Node.links = nodes[id]?.map Node.links := by
  rw [← Array.getElem?_map, ← Array.getElem?_map, same]

theorem bind (same : SameLinks nodes after) {α : Type} {f : Node σ → Option α}
    (reads : ∀ {node other : Node σ}, node.links = other.links → f node = f other) (id : NodeId) :
    after[id]?.bind f = nodes[id]?.bind f := by
  have related := same.getElem? id
  cases was : nodes[id]? with
  | none =>
    rw [was] at related
    rw [Option.map_eq_none_iff.mp related]
  | some node =>
    obtain ⟨last, there, links⟩ := Option.map_eq_some_iff.mp (related.trans (by rw [was]; rfl))
    rw [there]
    exact reads links

theorem exit (same : SameLinks nodes after) (id : NodeId) :
    after[id]?.bind Node.exit = nodes[id]?.bind Node.exit :=
  same.bind (fun links => (Node.ends_of_links links).2) id

theorem modify {id : NodeId} {f : Node σ → Node σ}
    (keeps : ∀ node, nodes[id]? = some node → (f node).links = node.links) :
    SameLinks nodes (nodes.modify id f) := map_modify_same keeps

theorem bounded (same : SameLinks nodes after) (bounded : AllBounded nodes) : AllBounded after := by
  intro id node found
  obtain ⟨before, was, links⟩ := same.node found
  exact same.size ▸ (bounded id before was).of_links links

end SameLinks

def Level.Placed (size : Nat) (s : Level) : Prop :=
  ∀ entry ∈ s.members, (s.node : Nat) < entry.1 ∧ (entry.1 : Nat) < size

def Node.Unlinked (node : Node σ) : Prop :=
  node.main = none ∧ node.branch = none ∧ node.entry = none ∧ node.exit = none

theorem Node.Unlinked.bounded {node : Node σ} (unlinked : node.Unlinked) (size id : Nat) :
    node.Bounded size id := by
  obtain ⟨main, branch, entry, exit⟩ := unlinked
  constructor <;> simp [main, branch, entry, exit]

namespace Layout

structure Placed (layout : Layout σ) : Prop where
  unlinked : ∀ node ∈ layout.nodes, node.Unlinked
  levels : ∀ s ∈ layout.levels, s.Placed layout.nodes.size

theorem nodeOf_unlinked (parent : String) (part : Part σ) : (nodeOf parent part).Unlinked := by
  cases part <;> exact ⟨rfl, rfl, rfl, rfl⟩

theorem level_placed {node first size : Nat} {p : Pipeline} {plan : Route.Plan}
    {parts : List (Part σ)} (after : node < first) (room : first + parts.length ≤ size) :
    (level node first p plan parts).Placed size := by
  intro entry member
  obtain ⟨⟨part, id⟩, numbered, rfl⟩ := List.mem_map.mp member
  have least := List.le_snd_of_mem_zipIdx numbered
  have most := List.snd_lt_add_of_mem_zipIdx numbered
  exact ⟨Nat.lt_of_lt_of_le after least,
    Nat.lt_of_lt_of_le (Nat.add_comm _ _ ▸ most) room⟩

theorem addMembers_size (parent : String) (parts : List (Part σ)) (layout : Layout σ) :
    (addMembers parent parts layout).nodes.size = layout.nodes.size + parts.length := by
  simp [addMembers]

theorem addMembers_unlinked {layout : Layout σ} (placed : layout.Placed) (parent : String)
    (parts : List (Part σ)) : ∀ node ∈ (addMembers parent parts layout).nodes, node.Unlinked := by
  intro node member
  rcases Array.mem_append.mp member with member | member
  · exact placed.unlinked node member
  · obtain ⟨part, -, rfl⟩ := List.mem_map.mp (by simpa using member)
    exact nodeOf_unlinked parent part

mutual

theorem addOutline_placed (node : Nat) (path : String) : (outline : Outline σ) →
    (layout : Layout σ) → node < layout.nodes.size → layout.Placed →
    (addOutline node path outline layout).Placed ∧
      layout.nodes.size ≤ (addOutline node path outline layout).nodes.size
  | .make p plan parts, layout, within, placed => by
    have size := addMembers_size path parts layout
    have ⟨whole, grown⟩ := addInner_placed layout.nodes.size path parts
      { addMembers path parts layout with
        levels := layout.levels ++ [level node layout.nodes.size p plan parts] }
      (Nat.le_of_eq size.symm) ⟨addMembers_unlinked placed path parts, fun s member => by
        rcases List.mem_append.mp member with member | member
        · intro entry inside
          have ⟨after, within⟩ := placed.levels s member entry inside
          exact ⟨after, Nat.lt_of_lt_of_le within (size ▸ Nat.le_add_right _ _)⟩
        · obtain rfl := List.mem_singleton.mp member
          exact level_placed within (Nat.le_of_eq size.symm)⟩
    exact ⟨whole, Nat.le_trans (size ▸ Nat.le_add_right _ _) grown⟩

theorem addInner_placed (id : Nat) (parent : String) : (parts : List (Part σ)) →
    (layout : Layout σ) → id + parts.length ≤ layout.nodes.size → layout.Placed →
    (addInner id parent parts layout).Placed ∧
      layout.nodes.size ≤ (addInner id parent parts layout).nodes.size
  | [], _, _, placed => ⟨placed, Nat.le_refl _⟩
  | part :: rest, layout, room, placed => by
    rw [List.length_cons] at room
    -- The room for the parts was made before, and what is inside of the first only adds to it.
    have ⟨first, grown⟩ := addPart_placed id parent part layout (by omega) placed
    have ⟨whole, more⟩ := addInner_placed (id + 1) parent rest _ (by omega) first
    exact ⟨whole, Nat.le_trans grown more⟩

theorem addPart_placed (id : Nat) (parent : String) : (part : Part σ) →
    (layout : Layout σ) → id < layout.nodes.size → layout.Placed →
    (addPart id parent part layout).Placed ∧
      layout.nodes.size ≤ (addPart id parent part layout).nodes.size
  | .subGraph member inner, layout, within, placed =>
    addOutline_placed id (joinPath parent member.name) inner layout within placed
  | .fanOut _, _, _, placed => ⟨placed, Nat.le_refl _⟩
  | .stage _ _, _, _, placed => ⟨placed, Nat.le_refl _⟩

end

theorem ofOutline_placed (outline : Outline σ) :
    (ofOutline outline).Placed ∧ 0 < (ofOutline outline).nodes.size := by
  have ⟨placed, grown⟩ := addOutline_placed 0 "" outline ⟨#[rootNode outline], []⟩ Nat.one_pos
    ⟨fun node member => by
      obtain rfl := Array.mem_singleton.mp member
      exact ⟨rfl, rfl, rfl, rfl⟩, fun _ member => by cases member⟩
  exact ⟨placed, grown⟩

theorem Placed.bounded {layout : Layout σ} (placed : layout.Placed) : AllBounded layout.nodes :=
  fun id _ found => (placed.unlinked _ (Array.mem_of_getElem? found)).bounded _ id

end Layout

namespace Binding

section

variable {β : Type} {f : Node σ → β} (settled : Node.Settled f)
include settled

theorem bindMember_same {essentials : Dict Value} {env : Environment} {enclosing : ParamTable}
    {dynamic : Bool} {member : Member} {node bound : Node σ}
    (done : bindMember essentials env enclosing dynamic member node = .ok bound) :
    f bound = f node := by
  obtain ⟨_, _, rfl⟩ := bindMember_form done
  exact settled.bound _ _ _

theorem bindLevel_same {essentials : Dict Value} {env : Environment}
    {nodes bound : Array (Node σ)} {s : Level}
    (done : bindLevel essentials env nodes s = .ok bound) : bound.map f = nodes.map f := by
  -- Each member is bound at its own node.
  refine @foldlM_keeps _ _ _ _ (fun current => current.map f = nodes.map f) _ ?_ _ _ rfl done
  rintro ⟨id, member⟩ - current next same done
  dsimp only at done
  cases found : current[id]? with
  | none =>
    rw [found] at done
    cases done
    exact same
  | some node =>
    rw [found] at done
    obtain ⟨bound, one, ended⟩ := except_bind_ok done
    cases ended
    exact (map_set_same found (bindMember_same settled one)).trans same

theorem bindAll_same {essentials : Dict Value} {env : Environment}
    {overrides : List (String × Value)} {layout bound : Layout σ}
    (done : bindAll essentials env overrides layout = .ok bound) :
    bound.nodes.map f = layout.nodes.map f ∧ bound.levels = layout.levels := by
  have members {nodes : Array (Node σ)} (same : nodes.map f = layout.nodes.map f)
      (done : (do
        let nodes ← layout.levels.foldlM (bindLevel essentials env) nodes
        return { layout with nodes }) = Except.ok bound) :
      bound.nodes.map f = layout.nodes.map f ∧ bound.levels = layout.levels := by
    obtain ⟨last, members, ended⟩ := except_bind_ok done
    cases ended
    have step (s : Level) (_ : s ∈ layout.levels) (current next : Array (Node σ))
        (same : current.map f = layout.nodes.map f)
        (done : bindLevel essentials env current s = .ok next) :
        next.map f = layout.nodes.map f :=
      (bindLevel_same settled done).trans same
    exact ⟨foldlM_keeps step same members, rfl⟩
  unfold bindAll at done
  dsimp only at done
  split at done
  next root found =>
    obtain ⟨rooted, one, done⟩ := except_bind_ok done
    obtain ⟨table, -, ended⟩ := except_bind_ok one
    cases ended
    exact members (map_set_same found (settled.bound root _ root.dynamic)) done
  next => exact members rfl done

end

theorem bindAll_links {essentials : Dict Value} {env : Environment}
    {overrides : List (String × Value)} {layout bound : Layout σ}
    (done : bindAll essentials env overrides layout = .ok bound) :
    SameLinks layout.nodes bound.nodes ∧ bound.levels = layout.levels :=
  bindAll_same Node.links_settled done

end Binding

namespace AllBounded

variable {nodes : Array (Node σ)} (bounded : AllBounded nodes)
include bounded

theorem linkMain {source target : Nat} (within : target < nodes.size) :
    AllBounded (Graph.linkMain source (some target) nodes) := by
  intro id node found
  rw [Graph.linkMain, Graph.linkMainBy_size]
  rw [Graph.linkMain, Graph.linkMainBy_getElem?] at found
  obtain ⟨before, was, rfl⟩ := Option.map_eq_some_iff.mp found
  have before' := bounded id before was
  split
  · refine ⟨?_, before'.branch, before'.entry, before'.exit⟩
    rintro _ ⟨⟩
    exact within
  · exact before'

theorem linkBranch {source target : Nat} (within : target < nodes.size) :
    AllBounded (Wiring.linkBranch source target nodes) := by
  intro id node found
  rw [Wiring.linkBranch, Array.size_modify]
  rw [Wiring.linkBranch, Array.getElem?_modify] at found
  split at found
  · obtain ⟨before, was, rfl⟩ := Option.map_eq_some_iff.mp found
    have before' := bounded id before was
    refine ⟨before'.main, ?_, before'.entry, before'.exit⟩
    rintro _ ⟨⟩
    exact within
  · exact bounded id node found

theorem setEnds {source : Nat} {entry exit : Option NodeId}
    (enters : ∀ target : Nat, entry = some target → target < nodes.size)
    (leaves : ∀ target : Nat, exit = some target → source < target ∧ target < nodes.size) :
    AllBounded (nodes.modify source (Wiring.setEnds entry exit)) := by
  intro id node found
  rw [Array.size_modify]
  rw [Array.getElem?_modify] at found
  split at found
  next here =>
    subst here
    obtain ⟨before, was, rfl⟩ := Option.map_eq_some_iff.mp found
    have before' := bounded _ before was
    unfold Wiring.setEnds
    split
    · exact ⟨before'.main, before'.branch, enters, leaves⟩
    · exact before'
  next => exact bounded id node found

end AllBounded

namespace Wiring

open Building (Yields)

structure Linked.Bounded (size node : Nat) (linked : Linked σ) : Prop where
  nodes : AllBounded linked.nodes
  whole : linked.nodes.size = size
  entry : ∀ target : Nat, linked.entry = some target → target < size
  exit : ∀ target : Nat, linked.exit = some target → node < target ∧ target < size

theorem lookup_placed {s : Level} {size : Nat} (placed : s.Placed size) {reference : String}
    {id : NodeId} (done : lookup s reference = .ok id) : (s.node : Nat) < id ∧ (id : Nat) < size := by
  unfold lookup at done
  split at done
  next id' found =>
    cases done
    unfold Level.find? at found
    obtain ⟨entry, first, rfl⟩ := Option.map_eq_some_iff.mp found
    exact placed entry (List.mem_reverse.mp (List.mem_of_find?_eq_some first))
  next => cases done

theorem linkHop_bounded {s : Level} {size : Nat} (placed : s.Placed size)
    {linked next : Linked σ} {hop : Route.Hop} (bounded : linked.Bounded size s.node)
    (done : linkHop s linked hop = .ok next) : next.Bounded size s.node := by
  obtain ⟨source, leads, done⟩ := except_bind_ok done
  have starts := lookup_placed placed leads
  -- The first hop settles where the pipeline is entered; the later ones leave that alone.
  have entry (target : Nat) (enters : linked.entry.or (some source) = some target) :
      target < size := by
    cases first : linked.entry with
    | none =>
      rw [first] at enters
      cases enters
      exact starts.2
    | some id =>
      rw [first] at enters
      cases enters
      exact bounded.entry _ first
  cases ends : hop.target with
  | none =>
    rw [ends] at done
    cases done
    refine ⟨bounded.nodes, bounded.whole, entry, ?_⟩
    rintro _ ⟨⟩
    exact starts
  | some reference =>
    rw [ends] at done
    obtain ⟨target, follows, done⟩ := except_bind_ok done
    have within : target < linked.nodes.size := bounded.whole ▸ (lookup_placed placed follows).2
    split at done
    · cases done
      exact ⟨bounded.nodes.linkBranch within, Array.size_modify.trans bounded.whole, entry,
        bounded.exit⟩
    · cases done
      exact ⟨bounded.nodes.linkMain within, (Graph.linkMainBy_size _ _ _ _).trans bounded.whole,
        entry, bounded.exit⟩

theorem linkLevel_bounded {s : Level} {nodes next : Array (Node σ)}
    (placed : s.Placed nodes.size) (bounded : AllBounded nodes)
    (done : linkLevel nodes s = .ok next) : AllBounded next ∧ next.size = nodes.size := by
  obtain ⟨linked, hops, ended⟩ := except_bind_ok done
  cases ended
  have start : (Linked.mk nodes none none).Bounded nodes.size s.node :=
    ⟨bounded, rfl, fun _ => nofun, fun _ => nofun⟩
  have linked : linked.Bounded nodes.size s.node :=
    foldlM_keeps (fun _ _ _ _ bounded done => linkHop_bounded placed bounded done) start hops
  refine ⟨linked.nodes.setEnds ?_ ?_, Array.size_modify.trans linked.whole⟩
  · exact linked.whole ▸ linked.entry
  · exact linked.whole ▸ linked.exit

theorem linkAll_bounded {layout linked : Layout σ}
    (placed : ∀ s ∈ layout.levels, s.Placed layout.nodes.size) (bounded : AllBounded layout.nodes)
    (done : linkAll layout = .ok linked) :
    AllBounded linked.nodes ∧ linked.nodes.size = layout.nodes.size := by
  obtain ⟨nodes, levels, ended⟩ := except_bind_ok done
  cases ended
  have step (s : Level) (member : s ∈ layout.levels.reverse) (current next : Array (Node σ))
      (before : AllBounded current ∧ current.size = layout.nodes.size)
      (done : linkLevel current s = .ok next) :
      AllBounded next ∧ next.size = layout.nodes.size := by
    have placed := placed s (List.mem_reverse.mp member)
    have ⟨after, size⟩ := linkLevel_bounded (before.2.symm ▸ placed) before.1 done
    exact ⟨after, size.trans before.2⟩
  exact foldlM_keeps step ⟨bounded, rfl⟩ levels

theorem attachFrom_same [Stage σ] {β : Type} {f : Node σ → β} (steady : Node.Steady f)
    (count : Nat) (id : NodeId) {nodes start : Array (Node σ)}
    (same : nodes.map f = start.map f) :
    (attachFrom count id nodes).Yields fun after => after.map f = start.map f := by
  induction count generalizing id nodes with
  | zero => exact .pure same
  | succ count ih =>
    unfold attachFrom
    split
    · exact .pure same
    next node found =>
      split
      next state kind =>
        refine (Yields.noteAll _).bind fun _ _ => ?_
        refine .bind (.get fun _ _ => trivial) fun state' _ => ih _ (.trans ?_ same)
        exact map_set_same found (steady.configured node state state' node.tank kind)
      · exact ih _ same

theorem attachFrom_links [Stage σ] (count : Nat) (id : NodeId) {nodes start : Array (Node σ)}
    (same : SameLinks start nodes) : (attachFrom count id nodes).Yields (SameLinks start) :=
  attachFrom_same Node.links_settled.toSteady count id same

end Wiring

namespace Blueprint

open Building (Yields)

variable [Stage σ]

section

variable {β : Type} {f : Node σ → β} (steady : Node.Steady f)
include steady

theorem configureNode_same {node configured : Node σ} (done : configureNode node = .ok configured) :
    f configured = f node := by
  rcases configureNode_cases done with ⟨s, fitted, kind, -, rfl⟩ | ⟨-, rfl⟩
  · exact steady.configured node s _ _ kind
  · rfl

theorem configureAll_same {nodes configured : Array (Node σ)}
    (done : nodes.mapM configureNode = .ok configured) : configured.map f = nodes.map f := by
  -- By induction over lists, since `mapM` over an array is defined by one over its list.
  have listed (items : List (Node σ)) (out : List (Node σ))
      (done : items.mapM configureNode = .ok out) : out.map f = items.map f := by
    induction items generalizing out with
    | nil =>
      cases done
      rfl
    | cons item rest ih =>
      rw [List.mapM_cons] at done
      obtain ⟨first, one, done⟩ := except_bind_ok done
      obtain ⟨later, more, ended⟩ := except_bind_ok done
      cases ended
      rw [List.map_cons, List.map_cons, configureNode_same steady one, ih later more]
  have lists : nodes.toList.mapM configureNode = .ok configured.toList := by
    rw [← Array.toList_mapM, done]
    rfl
  have same := listed _ _ lists
  exact Array.ext' (by simpa using same)

end

theorem configureAll_links {nodes configured : Array (Node σ)}
    (done : nodes.mapM configureNode = .ok configured) : SameLinks nodes configured :=
  configureAll_same Node.links_settled.toSteady done

structure Linked (nodes : Array (Node σ)) : Prop where
  bounded : AllBounded nodes
  inhabited : 0 < nodes.size

theorem assemble_linked (b : Blueprint σ) : b.assemble.Yields Linked := by
  refine (Outline.declareWithin_yields b.registry _ b.pipeline).bind fun outline _ => ?_
  have ⟨placed, inhabited⟩ := Layout.ofOutline_placed outline
  refine .bind (.ofConfig fun bound done => Binding.bindAll_links done)
    fun bound ⟨before, levels⟩ => ?_
  refine .bind (.ofConfig fun linked done => Wiring.linkAll_bounded
    (levels ▸ before.size ▸ placed.levels) (before.bounded placed.bounded) done)
      fun linked ⟨bounded, size⟩ => ?_
  refine (Wiring.attachFrom_links _ 0 (.refl linked.nodes)).bind fun nodes attached => ?_
  refine (Inspection.inspect_yields _).bind fun _ _ => ?_
  refine .ofConfig fun configured done => ?_
  have same := attached.trans (configureAll_links done)
  refine ⟨same.bounded bounded, ?_⟩
  rw [same.size, size, before.size]
  exact inhabited

theorem build_linked {b : Blueprint σ} {g : Graph σ} (built : b.build.1 = .ok g) :
    ∃ nodes history, g = Graph.make nodes 0 b.environment history ∧ Linked nodes := by
  obtain ⟨nodes, history, made, -, linked⟩ := build_yields b.assemble_linked built
  exact ⟨nodes, history, made, linked⟩

end Blueprint

end Sluice
