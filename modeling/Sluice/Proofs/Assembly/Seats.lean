import Sluice.Proofs.Assembly.Phases
import Sluice.Proofs.Assembly.Offsets

set_option autoImplicit false

namespace Sluice

variable {σ : Type} {r : Registry σ}

theorem Outline.AllTyped.inner {p : Pipeline} {plan : Route.Plan} {parts : List (Part σ)}
    {member : Member} {o : Outline σ} (allTyped : (Outline.make p plan parts).AllTyped r)
    (listed : Part.subGraph member o ∈ parts) : o.AllTyped r :=
  fun sub within => allTyped sub (.inner listed within)

mutual

theorem outline_unique : (o o' : Outline σ) → o.AllTyped r → o'.AllTyped r →
    o'.pipeline = o.pipeline → o' = o
  | .make p plan parts, .make _ plan' parts', allTyped, allTyped', same => by
    cases same
    have typed := allTyped _ (.refl _)
    have typed' := allTyped' _ (.refl _)
    obtain rfl : plan = plan' := Except.ok.inj (typed.read.symm.trans typed'.read)
    rw [parts_unique parts parts' typed.parts typed'.parts (fun _ _ => allTyped.inner)
      (fun _ _ => allTyped'.inner) (typed'.names.trans typed.names.symm)]

theorem parts_unique {p : Pipeline} {plan : Route.Plan} : (parts parts' : List (Part σ)) →
    (∀ part ∈ parts, Part.Of r p plan part.member.name part) →
    (∀ part ∈ parts', Part.Of r p plan part.member.name part) →
    (∀ member o, Part.subGraph member o ∈ parts → o.AllTyped r) →
    (∀ member o, Part.subGraph member o ∈ parts' → o.AllTyped r) →
    parts'.map (fun part => part.member.name) = parts.map (fun part => part.member.name) →
      parts' = parts
  | [], [], _, _, _, _, _ => rfl
  | part :: rest, part' :: rest', of, of', allTyped, allTyped', names => by
    rw [List.forall_mem_cons] at of of'
    obtain ⟨name, names⟩ := List.cons.inj names
    replace name : part'.member.name = part.member.name := name
    rw [part_unique part part' of.1 (name ▸ of'.1)
      (fun member o same => allTyped member o (same ▸ List.mem_cons_self))
      (fun member o same => allTyped' member o (same ▸ List.mem_cons_self)),
      parts_unique rest rest' of.2 of'.2
        (fun member o listed => allTyped member o (List.mem_cons_of_mem _ listed))
        (fun member o listed => allTyped' member o (List.mem_cons_of_mem _ listed)) names]

theorem part_unique {p : Pipeline} {plan : Route.Plan} {name : String} : (part part' : Part σ) →
    Part.Of r p plan name part → Part.Of r p plan name part' →
    (∀ member o, part = .subGraph member o → o.AllTyped r) →
    (∀ member o, part' = .subGraph member o → o.AllTyped r) → part' = part
  | .subGraph member o, part', of, of', allTyped, allTyped' => by
    -- Which of the three a name stands for is decided by the plan and the registry, so the mixed
    -- cases contradict each other.
    cases of with
    | subGraph plain other found =>
      cases of' with
      | fanOut forks => exact absurd forks plain
      | stage _ found' =>
        rw [other] at found'
        cases found'
      | @subGraph typeName' o' _ _ found' =>
        obtain ⟨rfl, same⟩ := Prod.mk.inj (Option.some.inj (found.symm.trans found'))
        rw [outline_unique o o' (allTyped _ o rfl) (allTyped' _ o' rfl) same.symm]
  | .fanOut member, part', of, of', _, _ => by
    cases of with
    | fanOut forks =>
      cases of' with
      | fanOut _ => rfl
      | stage plain _ => exact absurd forks plain
      | subGraph plain _ _ => exact absurd forks plain
  | .stage member type, part', of, of', _, _ => by
    cases of with
    | stage plain found =>
      cases of' with
      | fanOut forks => exact absurd forks plain
      | stage _ found' =>
        obtain ⟨rfl, rfl⟩ := Prod.mk.inj (Option.some.inj (found.symm.trans found'))
        rfl
      | subGraph _ other _ =>
        rw [other] at found
        cases found

end

structure Member.Same (m m' : Member) : Prop where
  name : m'.name = m.name
  typeName : m'.typeName = m.typeName
  routeValues : m'.routeValues = m.routeValues
  settings : m'.settings = m.settings

inductive Part.Peers : Part σ → Part σ → Prop
  | fanOut (m m' : Member) : Peers (.fanOut m) (.fanOut m')
  | stage {m m' : Member} (same : m.Same m') (type : Descriptor σ) :
      Peers (.stage m type) (.stage m' type)
  | subGraph {m m' : Member} (same : m.Same m') (o : Outline σ) :
      Peers (.subGraph m o) (.subGraph m' o)

theorem Part.Peers.refl : (part : Part σ) → part.Peers part
  | .fanOut m => .fanOut m m
  | .stage _ type => .stage ⟨rfl, rfl, rfl, rfl⟩ type
  | .subGraph _ o => .subGraph ⟨rfl, rfl, rfl, rfl⟩ o

theorem Part.Of.peers {p p' : Pipeline} {plan plan' : Route.Plan} {name : String}
    {part part' : Part σ} (of : Part.Of r p plan name part) (of' : Part.Of r p' plan' name part')
    (plain : name ∉ plan.fanOuts) (plain' : name ∉ plan'.fanOuts)
    (sections : p'.sections.at? name = p.sections.at? name)
    (values : Outline.valuesOf plan' name = Outline.valuesOf plan name)
    (allTyped : ∀ member o, part = .subGraph member o → o.AllTyped r)
    (allTyped' : ∀ member o, part' = .subGraph member o → o.AllTyped r) : part.Peers part' := by
  have types : Outline.typeNames p' name = Outline.typeNames p name := by
    rw [Outline.typeNames, sections, Outline.typeNames]
  have same (typeName : String) : (Outline.member p plan name typeName).Same
      (Outline.member p' plan' name typeName) :=
    ⟨rfl, rfl, values, by rw [Outline.member, Outline.member, sections]⟩
  -- Both pipelines try the same type names, so they find the same type.
  cases of with
  | fanOut forks => exact absurd forks plain
  | stage _ found =>
    cases of' with
    | fanOut forks => exact absurd forks plain'
    | stage _ found' =>
      obtain ⟨rfl, rfl⟩ := Prod.mk.inj (Option.some.inj (found.symm.trans (types ▸ found')))
      exact .stage (same _) _
    | subGraph _ other _ =>
      rw [types, found] at other
      cases other
  | subGraph _ other found =>
    cases of' with
    | fanOut forks => exact absurd forks plain'
    | stage _ found' =>
      rw [types, other] at found'
      cases found'
    | @subGraph typeName' o' _ _ found' =>
      obtain ⟨rfl, pipeline⟩ := Prod.mk.inj (Option.some.inj (found.symm.trans (types ▸ found')))
      rw [outline_unique _ o' (allTyped _ _ rfl) (allTyped' _ _ rfl) pipeline.symm]
      exact .subGraph (same _) _

theorem ordered_node {levels : List Level} (ordered : levels.Pairwise Level.Before)
    {s other : Level} (member : s ∈ levels) (member' : other ∈ levels)
    (same : s.node = other.node) : s = other := by
  induction ordered with
  | nil => cases member
  | cons first _ ih =>
    rcases List.mem_cons.mp member with rfl | later <;>
      rcases List.mem_cons.mp member' with rfl | later'
    · rfl
    · exact absurd same (first _ later').node
    · exact absurd same.symm (first _ later).node
    · exact ih later later'

namespace Layout

structure Seats (layout : Layout σ) (s : Level) (id : Nat) (path : String) (part : Part σ) :
    Prop where
  listed : s ∈ layout.levels
  inside : (id, part.member) ∈ s.members
  node : layout.nodes[id]? = some (nodeOf path part)
  inner : ∀ member o, part = .subGraph member o →
    ∃ first, layout.Has id first (joinPath path member.name) o

section

variable {layout : Layout σ} {node first i : Nat} {path : String} {o : Outline σ} {part : Part σ}

theorem Has.listed (has : layout.Has node first path o) :
    level node first o.pipeline o.plan o.parts ∈ layout.levels := by
  cases has with
  | make listed _ _ _ => exact listed

theorem Has.seats (has : layout.Has node first path o) (at' : o.parts[i]? = some part) :
    layout.Seats (level node first o.pipeline o.plan o.parts) (first + i) path part := by
  cases has with
  | @make _ _ _ _ _ parts listed holds firsts inner =>
    refine ⟨listed, ?_, holds i part at', fun member o same => ⟨firsts i, inner i member o (same ▸ at')⟩⟩
    have at' : parts[i]? = some part := at'
    have numbered : (part, first + i) ∈ parts.zipIdx first := by
      rw [List.mem_iff_getElem?]
      exact ⟨i, by rw [List.getElem?_zipIdx, at']; rfl⟩
    exact List.mem_map_of_mem (f := fun entry : Part σ × Nat => (entry.2, entry.1.member)) numbered

theorem Has.seats_of_mem (has : layout.Has node first path o) {id : Nat} {member : Member}
    (inside : (id, member) ∈ (level node first o.pipeline o.plan o.parts).members) :
    ∃ part ∈ o.parts, layout.Seats (level node first o.pipeline o.plan o.parts) id path part ∧
      part.member = member := by
  obtain ⟨i, part, at', rfl, rfl⟩ := mem_level inside
  exact ⟨part, List.mem_of_getElem? at', has.seats at', rfl⟩

end

/-- Nodes of two layouts that stand for each other: some to begin with, and then the members of
every pipeline that two such nodes share. -/
inductive Faces (layout layout' : Layout σ) (base : Nat → Nat → Part σ → Part σ → Prop) :
    Nat → Nat → Part σ → Part σ → Prop
  | base {a b : Nat} {part part' : Part σ} (starts : base a b part part') :
      Faces layout layout' base a b part part'
  | deeper {a b first first' i : Nat} {path path' : String} {member member' : Member}
      {o : Outline σ} {part : Part σ}
      (outer : Faces layout layout' base a b (.subGraph member o) (.subGraph member' o))
      (has : layout.Has a first path o) (has' : layout'.Has b first' path' o)
      (at' : o.parts[i]? = some part) : Faces layout layout' base (first + i) (first' + i) part part

theorem Seats.id_mem {layout : Layout σ} {s : Level} {id : Nat} {path : String} {part : Part σ}
    (seats : layout.Seats s id path part) : id ∈ s.ids := List.mem_map_of_mem seats.inside

theorem Has.first_eq {layout : Layout σ} (ordered : layout.levels.Pairwise Level.Before)
    {node first first' i : Nat} {path path' : String} {o o' : Outline σ} {part : Part σ}
    (has : layout.Has node first path o) (has' : layout.Has node first' path' o')
    (at' : o.parts[i]? = some part) : first = first' := by
  have same := congrArg Level.ids (ordered_node ordered has.listed has'.listed rfl)
  have inside := (List.getElem?_eq_some_iff.mp at').1
  rw [level_ids, level_ids] at same
  have lengths := congrArg List.length same
  simp only [List.length_range'] at lengths
  have head := congrArg List.head? same
  rw [← lengths] at head
  simpa [List.head?_range', Nat.ne_zero_of_lt inside] using head

namespace Faces

variable {layout layout' : Layout σ} {base : Nat → Nat → Part σ → Part σ → Prop}
  {a b c : Nat} {part part' : Part σ}

theorem symm (faces : layout.Faces layout' base a b part part') :
    layout'.Faces layout (fun b a part' part => base a b part part') b a part' part := by
  induction faces with
  | base starts => exact .base starts
  | deeper _ has has' at' ih => exact .deeper ih has' has at'

section

variable {roots : Nat → Prop} (ordered : layout.levels.Pairwise Level.Before)
  (placed : ∀ s ∈ layout.levels, ∀ id ∈ s.ids, id > s.node)
  (own : ∀ a b part part', base a b part part' →
    ¬roots a ∧ ∃ s ∈ layout.levels, roots s.node ∧ a ∈ s.ids)
  (closed : ∀ a, roots a → a = 0 ∨ ∃ s ∈ layout.levels, roots s.node ∧ a ∈ s.ids)
include ordered placed own closed

theorem not_root (faces : layout.Faces layout' base a b part part') : ¬roots a := by
  induction faces with
  | base starts => exact (own _ _ _ _ starts).1
  | @deeper x _ first _ i _ _ _ _ o _ _ has _ at' ih =>
    intro root
    have inside := (has.seats at').id_mem
    rcases closed _ root with zero | ⟨s, listed, root, inside'⟩
    · have := placed _ has.listed _ inside
      omega
    · have same : s.node = x :=
        congrArg Level.node (ordered_unique ordered listed has.listed inside' inside)
      exact ih (same ▸ root)

theorem unique (ordered' : layout'.levels.Pairwise Level.Before)
    (once : ∀ a b c part part' other other', base a b part part' → base a c other other' → b = c)
    (faces : layout.Faces layout' base a b part part') {other other' : Part σ}
    (faces' : layout.Faces layout' base a c other other') : b = c := by
  -- A member of a pipeline to begin with belongs to no other one.
  have apart {a b x first i : Nat} {path : String} {o : Outline σ} {part part' member : Part σ}
      (starts : base a b part part') (fresh : ¬roots x) (has : layout.Has x first path o)
      (at' : o.parts[i]? = some member) (same : a = first + i) : False := by
    obtain ⟨-, s, listed, root, inside⟩ := own _ _ _ _ starts
    have here : s.node = x := congrArg Level.node
      (ordered_unique ordered listed has.listed inside (same ▸ (has.seats at').id_mem))
    exact fresh (here ▸ root)
  induction faces generalizing c other other' with
  | @base a _ _ _ starts =>
    generalize same : a = x at faces'
    cases faces' with
    | base starts' => exact once _ _ _ _ _ _ _ starts (same ▸ starts')
    | deeper outer has _ at' =>
      exact (apart starts (outer.not_root ordered placed own closed) has at' same).elim
  | @deeper x y first first' i _ _ _ _ o part outer has has' at' ih =>
    generalize same : first + i = z at faces'
    cases faces' with
    | base starts =>
      exact (apart starts (outer.not_root ordered placed own closed) has at' same.symm).elim
    | @deeper x₂ y₂ first₂ first₂' j _ _ _ _ o₂ _ outer₂ has₂ has₂' at₂ =>
      have here := ordered_unique ordered has.listed has₂.listed (has.seats at').id_mem
        (same ▸ (has₂.seats at₂).id_mem)
      have nodes : x = x₂ := congrArg Level.node here
      subst nodes
      obtain rfl := ih outer₂
      obtain rfl := has.first_eq ordered has₂ at'
      obtain rfl := has'.first_eq ordered' has₂' at'
      omega

end

end Faces

end Layout

end Sluice
