import Sluice.Proofs.Assembly.Connections
import Sluice.Proofs.Assembly.Outlines

set_option autoImplicit false

namespace Sluice

variable {σ : Type}

theorem mapM_getElem? {ε α β : Type} {f : α → Except ε β} {items : Array α} {out : Array β}
    (done : items.mapM f = .ok out) {i : Nat} {y : β} (found : out[i]? = some y) :
    ∃ x, items[i]? = some x ∧ f x = .ok y := by
  -- By induction over lists, as `mapM` over an array comes down to one over its list.
  have listed (items : List α) (out : List β) (done : items.mapM f = .ok out) (i : Nat)
      (found : out[i]? = some y) : ∃ x, items[i]? = some x ∧ f x = .ok y := by
    induction items generalizing out i with
    | nil =>
      cases done
      cases found
    | cons item rest ih =>
      rw [List.mapM_cons] at done
      obtain ⟨first, one, done⟩ := except_bind_ok done
      obtain ⟨later, more, ended⟩ := except_bind_ok done
      cases ended
      cases i with
      | zero =>
        cases found
        exact ⟨item, rfl, one⟩
      | succ i => exact ih later more i found
  have lists : items.toList.mapM f = .ok out.toList := by
    rw [← Array.toList_mapM, done]
    rfl
  obtain ⟨x, at', one⟩ := listed _ _ lists i (by rwa [Array.getElem?_toList])
  exact ⟨x, by rwa [Array.getElem?_toList] at at', one⟩

namespace Binding

variable {essentials : Dict Value} {env : Environment}

def BindsTo (essentials : Dict Value) (env : Environment) (enclosing : ParamTable) (dynamic : Bool)
    (nodes bound : Array (Node σ)) (entry : NodeId × Member) : Prop :=
  ∃ node after, nodes[entry.1]? = some node ∧
    bindMember essentials env enclosing dynamic entry.2 node = .ok after ∧
      bound[entry.1]? = some after

theorem bindLevel_binds {nodes bound : Array (Node σ)} {s : Level} (distinct : s.ids.Nodup)
    (there : ∀ id ∈ s.ids, nodes[id]?.isSome = true)
    (done : bindLevel essentials env nodes s = .ok bound) :
    (∀ id, id ∉ s.ids → bound[id]? = nodes[id]?) ∧ ∀ entry ∈ s.members,
      BindsTo essentials env (paramsOf nodes s.node) s.pipeline.dynamic nodes bound entry := by
  unfold bindLevel at done
  dsimp only at done
  unfold Level.ids at *
  generalize paramsOf nodes s.node = enclosing at *
  generalize s.members = members at *
  -- Members are bound one after the other, each at its own node: what was bound before stays, and
  -- what comes later has not been touched.
  induction members generalizing nodes with
  | nil =>
    cases done
    exact ⟨fun _ _ => rfl, nofun⟩
  | cons entry rest ih =>
    obtain ⟨id, member⟩ := entry
    obtain ⟨node, found⟩ := Option.isSome_iff_exists.mp (there id List.mem_cons_self)
    obtain ⟨next, first, done⟩ := except_bind_ok done
    dsimp only at first
    rw [found] at first
    obtain ⟨after, one, ended⟩ := except_bind_ok first
    cases ended
    obtain ⟨apart, distinct⟩ := List.nodup_cons.mp distinct
    have set (other : Nat) (other' : other ≠ id) :
        (nodes.setIfInBounds id after)[other]? = nodes[other]? :=
      Array.getElem?_setIfInBounds_ne other'.symm
    have others {other : Nat} (later : other ∈ rest.map Prod.fst) : other ≠ id :=
      fun same => apart (same ▸ later)
    obtain ⟨left, binds⟩ := ih distinct (fun other later => by
      rw [set other (others later)]
      exact there other (List.mem_cons_of_mem _ later)) done
    refine ⟨fun other outside => ?_, List.forall_mem_cons.mpr ⟨⟨node, after, found, one, ?_⟩, ?_⟩⟩
    · rw [List.map_cons, List.mem_cons, not_or] at outside
      rw [left other outside.2, set other outside.1]
    · rw [left id apart, Array.getElem?_setIfInBounds_self_of_lt (Array.getElem?_eq_some_iff.mp found).1]
    · rintro entry later
      obtain ⟨node, after, found, one, last⟩ := binds entry later
      rw [set _ (others (List.mem_map_of_mem later))] at found
      exact ⟨node, after, found, one, last⟩

theorem bindLevels_binds {levels : List Level} (ordered : levels.Pairwise Level.Before)
    (distinct : ∀ s ∈ levels, s.ids.Nodup) (own : ∀ s ∈ levels, s.node ∉ s.ids)
    {nodes bound : Array (Node σ)} (there : ∀ s ∈ levels, ∀ id ∈ s.ids, nodes[id]?.isSome = true)
    (done : levels.foldlM (bindLevel essentials env) nodes = .ok bound) :
    (∀ id, (∀ s ∈ levels, id ∉ s.ids) → bound[id]? = nodes[id]?) ∧
      ∀ s ∈ levels, ∀ entry ∈ s.members,
        BindsTo essentials env (paramsOf bound s.node) s.pipeline.dynamic nodes bound entry := by
  induction ordered generalizing nodes with
  | nil =>
    cases done
    exact ⟨fun _ _ => rfl, nofun⟩
  -- The parameters of the enclosing node are final by then: its own pipeline comes earlier.
  | @cons s rest before _ ih =>
    obtain ⟨next, first, done⟩ := except_bind_ok done
    rw [List.forall_mem_cons] at distinct own there
    obtain ⟨left, binds⟩ := bindLevel_binds distinct.1 there.1 first
    have apart {later : Level} (member : later ∈ rest) {id : Nat} (inside : id ∈ later.ids) :
        id ∉ s.ids := fun inside' => Nat.lt_irrefl _ ((before later member).members id inside' id inside)
    obtain ⟨left', binds'⟩ := ih distinct.2 own.2 (fun later member id inside => by
      rw [left id (apart member inside)]
      exact there.2 later member id inside) done
    have enclosing : paramsOf bound s.node = paramsOf nodes s.node := by
      unfold paramsOf
      rw [left' s.node fun later member inside =>
        Nat.lt_irrefl _ ((before later member).own s.node inside), left s.node own.1]
    refine ⟨fun id outside => ?_, List.forall_mem_cons.mpr ⟨fun entry inside => ?_, ?_⟩⟩
    · rw [List.forall_mem_cons] at outside
      rw [left' id outside.2, left id outside.1]
    · obtain ⟨node, after, found, one, last⟩ := binds entry inside
      refine ⟨node, after, found, enclosing ▸ one, ?_⟩
      rw [left' entry.1 fun later member inside' =>
        apart member inside' (List.mem_map_of_mem inside), last]
    · intro later member entry inside
      obtain ⟨node, after, found, one, last⟩ := binds' later member entry inside
      rw [left entry.1 (apart member (List.mem_map_of_mem inside))] at found
      exact ⟨node, after, found, one, last⟩

structure Binds (essentials : Dict Value) (env : Environment) (overrides : List (String × Value))
    (layout bound : Layout σ) : Prop where
  levels : bound.levels = layout.levels
  root : ∃ root after, layout.nodes[0]? = some root ∧ bindRoot essentials overrides root = .ok after ∧
    bound.nodes[0]? = some after
  members : ∀ s ∈ layout.levels, ∀ entry ∈ s.members,
    BindsTo essentials env (paramsOf bound.nodes s.node) s.pipeline.dynamic layout.nodes bound.nodes
      entry

theorem bindAll_binds {overrides : List (String × Value)} {outline : Outline σ} {bound : Layout σ}
    (done : bindAll essentials env overrides (Layout.ofOutline outline) = .ok bound) :
    Binds essentials env overrides (Layout.ofOutline outline) bound := by
  have ordered := Layout.ofOutline_ordered outline
  have ⟨placed, _⟩ := Layout.ofOutline_placed outline
  obtain ⟨⟨root, entry, exit, first, kind⟩, -⟩ := Layout.ofOutline_root outline
  have above {s : Level} (member : s ∈ (Layout.ofOutline outline).levels) {id : Nat}
      (inside : id ∈ s.ids) : id > s.node := ((placed.levels s member).after inside).1
  unfold bindAll at done
  rw [first] at done
  dsimp only at done
  obtain ⟨after, one, done⟩ := except_bind_ok done
  rw [pure_bind] at done
  obtain ⟨nodes, members, ended⟩ := except_bind_ok done
  cases ended
  -- The root is bound first, and no member stands at its number.
  have set (id : Nat) (other : id > 0) :
      ((Layout.ofOutline outline).nodes.setIfInBounds 0 after)[id]? =
        (Layout.ofOutline outline).nodes[id]? :=
    Array.getElem?_setIfInBounds_ne (Nat.ne_of_lt other)
  obtain ⟨left, binds⟩ := bindLevels_binds ordered.order ordered.distinct
    (fun s member inside => Nat.lt_irrefl _ (above member inside)) (fun s member id inside => by
      rw [set id (Nat.zero_lt_of_lt (above member inside))]
      simpa using ordered.members s member id inside) members
  refine ⟨rfl, ⟨root, after, first, one, ?_⟩, fun s member entry inside => ?_⟩
  · rw [left 0 fun s member inside => Nat.not_lt_zero _ (above member inside)]
    exact Array.getElem?_setIfInBounds_self_of_lt (Array.getElem?_eq_some_iff.mp first).1
  · obtain ⟨node, after, found, one, last⟩ := binds s member entry inside
    rw [set _ (Nat.zero_lt_of_lt (above member (List.mem_map_of_mem inside)))] at found
    exact ⟨node, after, found, one, last⟩

end Binding

def Node.bare (node : Node σ) : Node σ :=
  { node with kind := .fanOut, main := none, branch := none, tank := .empty }

theorem Node.bare_steady : Node.Steady (Node.bare : Node σ → Node σ) where
  configured _ _ _ _ _ := rfl

theorem Node.bare_loose : Wiring.Loose (Node.bare : Node σ → Node σ) where
  main _ _ := rfl
  branch _ _ := rfl
  ends _ _ _ _ _ _ := rfl

namespace Node

section

variable {node other : Node σ} (same : other.bare = node.bare)
include same

theorem path_of_bare : other.path = node.path := congrArg (fun node => node.path) same

theorem declared_of_bare : other.declared = node.declared := congrArg (fun node => node.declared) same

theorem params_of_bare : other.params = node.params := congrArg (fun node => node.params) same

theorem dynamic_of_bare : other.dynamic = node.dynamic := congrArg (fun node => node.dynamic) same

end

end Node

namespace Blueprint

open Building (Starts Yields)

variable [Stage σ]

structure Course (σ : Type) where
  outline : Outline σ
  bound : Layout σ
  linked : Layout σ
  attached : Array (Node σ)

structure Takes (b : Blueprint σ) (c : Course σ) (nodes : Array (Node σ)) : Prop where
  declared : (Outline.declare b.registry b.pipeline).run.1 = .ok c.outline
  bound : Binding.bindAll b.registry.essentials b.environment b.params
    (Layout.ofOutline c.outline) = .ok c.bound
  linked : Wiring.linkAll c.bound = .ok c.linked
  attached : (Wiring.attachAll c.linked.nodes).Gives c.attached
  inspected : Inspection.Inspected { c.linked with nodes := c.attached }
  configured : c.attached.mapM configureNode = .ok nodes

theorem assemble_takes (b : Blueprint σ) : b.assemble.Starts fun nodes => ∃ c, b.Takes c nodes := by
  refine Starts.bind (Outline.declareWithin_yields b.registry _ b.pipeline)
    fun outline declared _ => ?_
  refine .bind (.ofConfig fun bound done => done) fun bound bound' => ?_
  refine .bind (.ofConfig fun linked done => done) fun linked linked' => ?_
  refine .bind (Wiring.attachFrom_links _ 0 (.refl linked.nodes)).gives fun attached attached' => ?_
  refine (Inspection.inspect_yields _).bind fun _ inspected => ?_
  exact .ofConfig fun nodes configured =>
    ⟨⟨outline, bound, linked, attached⟩,
      { declared
        bound := bound'
        linked := linked'
        attached := attached'
        inspected
        configured }⟩

theorem build_takes {b : Blueprint σ} {g : Graph σ} (built : b.build.1 = .ok g) :
    ∃ c nodes history, g = Graph.make nodes 0 b.environment history ∧ Uncalled history ∧
      b.Takes c nodes := by
  obtain ⟨nodes, history, made, uncalled, c, takes⟩ := build_starts b.assemble_takes built
  exact ⟨c, nodes, history, made, uncalled, takes⟩

namespace Takes

variable {b : Blueprint σ} {c : Course σ} {nodes : Array (Node σ)} (takes : b.Takes c nodes)
include takes

theorem binds : Binding.Binds b.registry.essentials b.environment b.params
    (Layout.ofOutline c.outline) c.bound := Binding.bindAll_binds takes.bound

theorem levels : c.linked.levels = (Layout.ofOutline c.outline).levels :=
  (Wiring.linkAll_same Node.bare_loose takes.linked).2.trans takes.binds.levels

theorem attached_bare : c.attached.map Node.bare = c.bound.nodes.map Node.bare :=
  (takes.attached.yields (Wiring.attachFrom_same Node.bare_steady _ 0 rfl)).trans
    (Wiring.linkAll_same Node.bare_loose takes.linked).1

theorem attached_node {id : NodeId} {node : Node σ} (found : c.bound.nodes[id]? = some node) :
    ∃ after, c.attached[id]? = some after ∧ after.bare = node.bare := by
  have same := congrArg (·[id]?) takes.attached_bare
  simp only [Array.getElem?_map, found, Option.map_some] at same
  exact Option.map_eq_some_iff.mp same

end Takes

end Blueprint

end Sluice
