import Mathlib.Data.List.Nodup
import Sluice.Proofs.Assembly.Exits

set_option autoImplicit false

namespace Sluice

variable {σ : Type}

def Level.ids (s : Level) : List Nat := s.members.map Prod.fst

structure Level.Before (s later : Level) : Prop where
  node : s.node ≠ later.node
  own : ∀ id ∈ later.ids, id > s.node
  members : ∀ id ∈ s.ids, ∀ other ∈ later.ids, id < other

theorem Level.find?_mem {s : Level} {name : String} {id : Nat} (found : s.find? name = some id) :
    id ∈ s.ids := by
  obtain ⟨entry, first, rfl⟩ := Option.map_eq_some_iff.mp found
  exact List.mem_map_of_mem (List.mem_reverse.mp (List.mem_of_find?_eq_some first))

theorem Level.find?_name {s : Level} {name : String} {id : Nat} (found : s.find? name = some id) :
    ∃ member, (id, member) ∈ s.members ∧ member.name = name := by
  obtain ⟨⟨id, member⟩, first, rfl⟩ := Option.map_eq_some_iff.mp found
  have named := List.find?_some first
  exact ⟨member, List.mem_reverse.mp (List.mem_of_find?_eq_some first), by simpa using named⟩

theorem Level.find?_inj {s : Level} (distinct : s.ids.Nodup) {name other : String} {id : Nat}
    (found : s.find? name = some id) (found' : s.find? other = some id) : name = other := by
  obtain ⟨member, within, rfl⟩ := find?_name found
  obtain ⟨member', within', rfl⟩ := find?_name found'
  have same := List.inj_on_of_nodup_map distinct within within' rfl
  rw [(Prod.mk.inj same).2]

theorem Level.Placed.after {size : Nat} {s : Level} (placed : s.Placed size) {id : Nat}
    (member : id ∈ s.ids) : id > s.node ∧ id < size := by
  obtain ⟨entry, within, rfl⟩ := List.mem_map.mp member
  exact placed entry within

theorem ordered_unique {levels : List Level} (ordered : levels.Pairwise Level.Before)
    {s other : Level} (member : s ∈ levels) (member' : other ∈ levels) {id : Nat}
    (within : id ∈ s.ids) (within' : id ∈ other.ids) : s = other := by
  induction ordered with
  | nil => cases member
  | cons first _ ih =>
    rcases List.mem_cons.mp member with rfl | later <;>
      rcases List.mem_cons.mp member' with rfl | later'
    · rfl
    · exact absurd ((first _ later').members id within id within') (Nat.lt_irrefl _)
    · exact absurd ((first _ later).members id within' id within) (Nat.lt_irrefl _)
    · exact ih later later'

namespace Layout

theorem Grows.size {layout after : Layout σ} (grows : layout.Grows after) :
    layout.nodes.size ≤ after.nodes.size := by
  by_contra less
  -- The first number that is missing afterwards was that of a node.
  have within : after.nodes.size < layout.nodes.size := by omega
  have found := grows.nodes after.nodes.size _ (Array.getElem?_eq_getElem within)
  rw [Array.getElem?_size] at found
  cases found

structure Ordered (layout : Layout σ) : Prop where
  order : layout.levels.Pairwise Level.Before
  nodes : ∀ s ∈ layout.levels, layout.nodes.size > s.node
  members : ∀ s ∈ layout.levels, ∀ id ∈ s.ids, id < layout.nodes.size
  distinct : ∀ s ∈ layout.levels, s.ids.Nodup

def Untaken (layout : Layout σ) (id : Nat) : Prop := ∀ s ∈ layout.levels, s.node ≠ id

theorem level_ids (node first : Nat) (p : Pipeline) (plan : Route.Plan)
    (parts : List (Part σ)) :
    (level node first p plan parts).ids = List.range' first parts.length := by
  rw [← List.zipIdx_map_snd, Level.ids, level, List.map_map]
  rfl

theorem mem_level_ids {node first : Nat} {p : Pipeline} {plan : Route.Plan}
    {parts : List (Part σ)} {id : Nat} (member : id ∈ (level node first p plan parts).ids) :
    first ≤ id ∧ id < first + parts.length := by
  rw [level_ids] at member
  exact List.mem_range'_1.mp member

theorem addMembers_ordered {layout : Layout σ} (ordered : layout.Ordered) {node : Nat}
    (within : node < layout.nodes.size) (untaken : layout.Untaken node) (path : String)
    (p : Pipeline) (plan : Route.Plan) (parts : List (Part σ)) :
    Ordered { addMembers path parts layout with
      levels := layout.levels ++ [level node layout.nodes.size p plan parts] } := by
  have size := addMembers_size path parts layout
  refine ⟨List.pairwise_append.mpr ⟨ordered.order, List.pairwise_singleton .., ?_⟩, ?_, ?_, ?_⟩
  -- The new pipeline comes after all others, and its members have the next free numbers.
  · intro s member other last
    obtain rfl := List.mem_singleton.mp last
    refine ⟨untaken s member, fun id inside => ?_, fun id inside other' inside' => ?_⟩
    · have := ordered.nodes s member
      have := (mem_level_ids inside).1
      omega
    · have := ordered.members s member id inside
      have := (mem_level_ids inside').1
      omega
  · intro s member
    dsimp only
    rcases List.mem_append.mp member with member | member
    · have := ordered.nodes s member
      omega
    · obtain rfl := List.mem_singleton.mp member
      change node < _
      omega
  · intro s member id inside
    dsimp only
    rcases List.mem_append.mp member with member | member
    · have := ordered.members s member id inside
      omega
    · obtain rfl := List.mem_singleton.mp member
      have := (mem_level_ids inside).2
      omega
  · intro s member
    rcases List.mem_append.mp member with member | member
    · exact ordered.distinct s member
    · obtain rfl := List.mem_singleton.mp member
      rw [level_ids]
      exact List.nodup_range'

mutual

theorem addOutline_ordered (node : Nat) (path : String) : (outline : Outline σ) →
    (layout : Layout σ) → layout.Ordered → node < layout.nodes.size → layout.Untaken node →
    (addOutline node path outline layout).Ordered ∧
      ∀ id : Nat, id < layout.nodes.size → id ≠ node → layout.Untaken id →
        (addOutline node path outline layout).Untaken id
  | .make p plan parts, layout, ordered, within, untaken => by
    have size := addMembers_size path parts layout
    have started := addMembers_ordered ordered within untaken path p plan parts
    have free (id : Nat) (other : id ≠ node) (untaken : layout.Untaken id) :
        Untaken { addMembers path parts layout with
          levels := layout.levels ++ [level node layout.nodes.size p plan parts] } id := by
      intro s member
      rcases List.mem_append.mp member with member | member
      · exact untaken s member
      · obtain rfl := List.mem_singleton.mp member
        exact other.symm
    have ⟨whole, left⟩ := addInner_ordered layout.nodes.size path parts _ started
      (Nat.le_of_eq size.symm) fun id low _ => free id (by omega) fun s member =>
        Nat.ne_of_lt (Nat.lt_of_lt_of_le (ordered.nodes s member) low)
    refine ⟨whole, fun id small other untaken => ?_⟩
    exact left id (by dsimp only; omega) (.inl small) (free id other untaken)

theorem addInner_ordered (first : Nat) (parent : String) : (parts : List (Part σ)) →
    (layout : Layout σ) → layout.Ordered → first + parts.length ≤ layout.nodes.size →
    (∀ id : Nat, first ≤ id → id < first + parts.length → layout.Untaken id) →
    (addInner first parent parts layout).Ordered ∧
      ∀ id : Nat, id < layout.nodes.size → id < first ∨ first + parts.length ≤ id →
        layout.Untaken id → (addInner first parent parts layout).Untaken id
  | [], _, ordered, _, _ => ⟨ordered, fun _ _ _ untaken => untaken⟩
  | part :: rest, layout, ordered, room, untaken => by
    rw [List.length_cons] at room untaken ⊢
    have ⟨inner, left⟩ := addPart_ordered first parent part layout ordered (by omega)
      (untaken first (by omega) (by omega))
    have size := (addPart_grows first parent part layout).size
    have ⟨whole, left'⟩ := addInner_ordered (first + 1) parent rest _ inner (by omega)
      fun id low high => left id (by omega) (by omega) (untaken id (by omega) (by omega))
    refine ⟨whole, fun id small outside untaken => ?_⟩
    exact left' id (by omega) (by omega) (left id small (by omega) untaken)

theorem addPart_ordered (id : Nat) (parent : String) : (part : Part σ) →
    (layout : Layout σ) → layout.Ordered → id < layout.nodes.size → layout.Untaken id →
    (addPart id parent part layout).Ordered ∧
      ∀ other : Nat, other < layout.nodes.size → other ≠ id → layout.Untaken other →
        (addPart id parent part layout).Untaken other
  | .subGraph member inner, layout, ordered, within, untaken =>
    addOutline_ordered id (joinPath parent member.name) inner layout ordered within untaken
  | .fanOut _, _, ordered, _, _ => ⟨ordered, fun _ _ _ untaken => untaken⟩
  | .stage _ _, _, ordered, _, _ => ⟨ordered, fun _ _ _ untaken => untaken⟩

end

theorem ofOutline_ordered (outline : Outline σ) : (ofOutline outline).Ordered :=
  (addOutline_ordered 0 "" outline ⟨#[rootNode outline], []⟩
    ⟨.nil, nofun, nofun, nofun⟩ Nat.one_pos nofun).1

def Covers (layout : Layout σ) (id : Nat) : Prop :=
  Wiring.Encloses id layout.nodes → ∃ s ∈ layout.levels, s.node = id

theorem Grows.covers {layout after : Layout σ} (grows : layout.Grows after) {id : Nat}
    (within : id < layout.nodes.size) (covers : layout.Covers id) : after.Covers id := by
  rintro ⟨node, entry, exit, found, kind⟩
  have was := Array.getElem?_eq_getElem within
  obtain rfl := Option.some.inj (found.symm.trans (grows.nodes id _ was))
  obtain ⟨s, member, here⟩ := covers ⟨_, entry, exit, was, kind⟩
  exact ⟨s, grows.levels member, here⟩

def Holds (layout : Layout σ) (first : Nat) (parent : String) (parts : List (Part σ)) : Prop :=
  ∀ (i : Nat) (part : Part σ), parts[i]? = some part →
    layout.nodes[first + i]? = some (nodeOf parent part)

theorem Grows.holds {layout after : Layout σ} (grows : layout.Grows after) {first : Nat}
    {parent : String} {parts : List (Part σ)} (holds : layout.Holds first parent parts) :
    after.Holds first parent parts :=
  fun i part at' => grows.nodes _ _ (holds i part at')

theorem Holds.tail {layout : Layout σ} {first : Nat} {parent : String} {part : Part σ}
    {rest : List (Part σ)} (holds : layout.Holds first parent (part :: rest)) :
    layout.Holds (first + 1) parent rest := fun i later found => by
  have := holds (i + 1) later found
  rwa [Nat.add_comm i, ← Nat.add_assoc] at this

theorem addMembers_holds (path : String) (parts : List (Part σ)) (layout : Layout σ)
    (levels : List Level) :
    Holds { addMembers path parts layout with levels } layout.nodes.size path parts := by
  intro i part found
  simp [addMembers, Array.getElem?_append, found]

theorem covers_of_other {layout : Layout σ} {first id : Nat} {other : Node σ}
    (found : layout.nodes[first]? = some other) (plain : ∀ entry exit, other.kind ≠ .subGraph entry exit)
    (covers : id < layout.nodes.size → id ≠ first → layout.Covers id) : layout.Covers id := by
  rintro ⟨node, entry, exit, there, kind⟩
  by_cases here : id = first
  · subst here
    obtain rfl := Option.some.inj (found.symm.trans there)
    exact absurd kind (plain entry exit)
  · exact covers (Array.getElem?_eq_some_iff.mp there).1 here ⟨node, entry, exit, there, kind⟩

mutual

theorem addOutline_covers (node : Nat) (path : String) : (outline : Outline σ) →
    (layout : Layout σ) → node < layout.nodes.size → ∀ id : Nat,
    (id < layout.nodes.size → id ≠ node → layout.Covers id) →
    (addOutline node path outline layout).Covers id
  | .make p plan parts, layout, within, id, covers => by
    have size := addMembers_size path parts layout
    have grows := addMembers_grows path parts layout [level node layout.nodes.size p plan parts]
    refine addInner_covers layout.nodes.size path parts _ (addMembers_holds path parts layout _) id
      fun small outside => ?_
    by_cases here : id = node
    · exact fun _ => ⟨_, List.mem_append_right _ (List.mem_singleton_self _), here.symm⟩
    · dsimp only at small
      exact grows.covers (by omega) (covers (by omega) here)

theorem addInner_covers (first : Nat) (parent : String) : (parts : List (Part σ)) →
    (layout : Layout σ) → layout.Holds first parent parts → ∀ id : Nat,
    (id < layout.nodes.size → id < first ∨ first + parts.length ≤ id → layout.Covers id) →
    (addInner first parent parts layout).Covers id
  | [], layout, _, id, covers => by
    by_cases small : id < layout.nodes.size
    · exact covers small (by simp; omega)
    · rintro ⟨node, _, _, found, _⟩
      exact absurd (Array.getElem?_eq_some_iff.mp found).1 small
  | part :: rest, layout, holds, id, covers => by
    have grows := addPart_grows first parent part layout
    refine addInner_covers (first + 1) parent rest _ (grows.holds holds.tail) id
      fun small outside => ?_
    refine addPart_covers first parent part layout (holds 0 part rfl) id fun small other => ?_
    refine covers small ?_
    rw [List.length_cons]
    omega

theorem addPart_covers (first : Nat) (parent : String) : (part : Part σ) →
    (layout : Layout σ) → layout.nodes[first]? = some (nodeOf parent part) → ∀ id : Nat,
    (id < layout.nodes.size → id ≠ first → layout.Covers id) →
    (addPart first parent part layout).Covers id
  | .subGraph member inner, layout, found, id, covers =>
    addOutline_covers first (joinPath parent member.name) inner layout
      (Array.getElem?_eq_some_iff.mp found).1 id covers
  | .fanOut _, _, found, _, covers => covers_of_other found nofun covers
  | .stage _ _, _, found, _, covers => covers_of_other found nofun covers

end

theorem ofOutline_covers (outline : Outline σ) (id : Nat) : (ofOutline outline).Covers id :=
  addOutline_covers 0 "" outline ⟨#[rootNode outline], []⟩ Nat.one_pos id fun small other =>
    absurd (Nat.lt_one_iff.mp small) other

def Forks (layout : Layout σ) : Prop :=
  ∀ s ∈ layout.levels, ∀ id member, (id, member) ∈ s.members →
    ∃ node, layout.nodes[id]? = some node ∧
      (node.isFanOut = true → Route.isFanOutName member.name = true)

theorem nodeOf_forks {part : Part σ} (declared : part.Declared) (parent : String)
    (forks : (nodeOf parent part).isFanOut = true) :
    Route.isFanOutName part.member.name = true := by
  cases part with
  | fanOut member => exact declared
  | stage _ _ => cases forks
  | subGraph _ _ => cases forks

theorem addMembers_forks {layout : Layout σ} (forks : layout.Forks) {parts : List (Part σ)}
    (declared : PartsDeclared parts) (node : Nat) (path : String) (p : Pipeline) (plan : Route.Plan) :
    Forks { addMembers path parts layout with
      levels := layout.levels ++ [level node layout.nodes.size p plan parts] } := by
  have grows := addMembers_grows path parts layout []
  intro s listed id member inside
  rcases List.mem_append.mp listed with before | new
  · obtain ⟨first, found, named⟩ := forks s before id member inside
    exact ⟨first, grows.nodes id first found, named⟩
  · obtain rfl := List.mem_singleton.mp new
    obtain ⟨⟨part, other⟩, numbered, same⟩ := List.mem_map.mp inside
    cases same
    obtain ⟨i, at', rfl⟩ : ∃ i, parts[i]? = some part ∧ layout.nodes.size + i = id := by
      obtain ⟨i, found⟩ := List.mem_iff_getElem?.mp numbered
      rw [List.getElem?_zipIdx] at found
      obtain ⟨part', at', same⟩ := Option.map_eq_some_iff.mp found
      cases same
      exact ⟨i, at', rfl⟩
    exact ⟨_, addMembers_holds path parts layout [] i part at',
      nodeOf_forks (declared.mem (List.mem_of_getElem? at')) path⟩

mutual

theorem addOutline_forks (node : Nat) (path : String) : (outline : Outline σ) →
    (layout : Layout σ) → outline.Declared → layout.Forks → (addOutline node path outline layout).Forks
  | .make p plan parts, _, ⟨_, _, declared⟩, forks =>
    addInner_forks _ path parts _ declared (addMembers_forks forks declared node path p plan)

theorem addInner_forks (id : Nat) (parent : String) : (parts : List (Part σ)) →
    (layout : Layout σ) → PartsDeclared parts → layout.Forks → (addInner id parent parts layout).Forks
  | [], _, _, forks => forks
  | part :: rest, layout, ⟨first, later⟩, forks =>
    addInner_forks (id + 1) parent rest _ later (addPart_forks id parent part layout first forks)

theorem addPart_forks (id : Nat) (parent : String) : (part : Part σ) →
    (layout : Layout σ) → part.Declared → layout.Forks → (addPart id parent part layout).Forks
  | .subGraph member inner, layout, declared, forks =>
    addOutline_forks id (joinPath parent member.name) inner layout declared forks
  | .fanOut _, _, _, forks => forks
  | .stage _ _, _, _, forks => forks

end

theorem ofOutline_forks {outline : Outline σ} (declared : outline.Declared) :
    (ofOutline outline).Forks :=
  addOutline_forks 0 "" outline ⟨#[rootNode outline], []⟩ declared nofun

end Layout

end Sluice
