import Sluice.Proofs.Assembly.NodeIds

set_option autoImplicit false

namespace Sluice

variable {σ : Type}

inductive Outline.Within : Outline σ → Outline σ → Prop
  | refl (o : Outline σ) : Within o o
  | inner {sub inner : Outline σ} {p : Pipeline} {plan : Route.Plan} {parts : List (Part σ)}
      {member : Member} (listed : Part.subGraph member inner ∈ parts) (within : Within sub inner) :
      Within sub (.make p plan parts)

def Outline.typeNames (p : Pipeline) (name : String) : List String :=
  (((p.sections.at? name).bind Section.typeName?).map fun typeName => [typeName]).getD
    (Literal.candidates name)

inductive Part.Of (r : Registry σ) (p : Pipeline) (plan : Route.Plan) (name : String) : Part σ → Prop
  | fanOut (forks : name ∈ plan.fanOuts) :
      Of r p plan name (.fanOut (Outline.member p plan name Outline.fanOutType))
  | stage {typeName : String} {type : Descriptor σ} (plain : name ∉ plan.fanOuts)
      (found : Outline.firstRegistered r.stages (Outline.typeNames p name) = some (typeName, type)) :
      Of r p plan name (.stage (Outline.member p plan name typeName) type)
  | subGraph {typeName : String} {inner : Outline σ} (plain : name ∉ plan.fanOuts)
      (other : Outline.firstRegistered r.stages (Outline.typeNames p name) = none)
      (found : Outline.firstRegistered r.graphs (Outline.typeNames p name) =
        some (typeName, inner.pipeline)) :
      Of r p plan name (.subGraph (Outline.member p plan name typeName) inner)

structure Outline.Typed (r : Registry σ) (o : Outline σ) : Prop where
  read : Route.Plan.read o.pipeline.route = .ok o.plan
  names : o.parts.map (fun part => part.member.name) = memberNames o.pipeline o.plan
  parts : ∀ part ∈ o.parts, Part.Of r o.pipeline o.plan part.member.name part

theorem Part.Of.member_eq {r : Registry σ} {p : Pipeline} {plan : Route.Plan} {name : String}
    {part : Part σ} (of : Part.Of r p plan name part) :
    ∃ typeName, part.member = Outline.member p plan name typeName := by
  cases of with
  | fanOut forks => exact ⟨_, rfl⟩
  | stage plain found => exact ⟨_, rfl⟩
  | subGraph plain other found => exact ⟨_, rfl⟩

theorem Part.Of.name_eq {r : Registry σ} {p : Pipeline} {plan : Route.Plan} {name : String}
    {part : Part σ} (of : Part.Of r p plan name part) : part.member.name = name := by
  obtain ⟨typeName, same⟩ := of.member_eq
  rw [same]
  rfl

namespace Outline

open Building (Yields)

variable {r : Registry σ}

def AllTyped (r : Registry σ) (o : Outline σ) : Prop := ∀ sub : Outline σ, sub.Within o → sub.Typed r

/-- The four ways in which the type of a member is settled. -/
theorem part_cases (r : Registry σ) (inner : Pipeline → Building σ (Outline σ)) (p : Pipeline)
    (plan : Route.Plan) (name : String) :
    (name ∈ plan.fanOuts ∧
        part r inner p plan name = pure (.fanOut (member p plan name fanOutType))) ∨
      name ∉ plan.fanOuts ∧
        ((∃ typeName type, firstRegistered r.stages (typeNames p name) = some (typeName, type) ∧
            part r inner p plan name = pure (.stage (member p plan name typeName) type)) ∨
          firstRegistered r.stages (typeNames p name) = none ∧
            ((∃ typeName graph,
                firstRegistered r.graphs (typeNames p name) = some (typeName, graph) ∧
                  part r inner p plan name =
                    inner graph >>= fun o => pure (.subGraph (member p plan name typeName) o)) ∨
              firstRegistered r.graphs (typeNames p name) = none ∧
                part r inner p plan name = throw (.config (.unknownType name
                  (((p.sections.at? name).bind Section.typeName?).getD name))))) := by
  unfold part
  split
  next forks => exact .inl ⟨by simpa using forks, rfl⟩
  next plain =>
    refine .inr ⟨by simpa using plain, ?_⟩
    dsimp only
    split
    next typeName type found => exact .inl ⟨typeName, type, found, rfl⟩
    next other =>
      refine .inr ⟨other, ?_⟩
      split
      next typeName graph found => exact .inl ⟨typeName, graph, found, rfl⟩
      next missing => exact .inr ⟨missing, rfl⟩

theorem part_allTyped {inner : Pipeline → Building σ (Outline σ)}
    (allTyped : ∀ p, (inner p).Yields fun o => o.pipeline = p ∧ o.AllTyped r) (p : Pipeline)
    (plan : Route.Plan) (name : String) :
    (part r inner p plan name).Yields fun part => Part.Of r p plan name part ∧
      ∀ member inner, part = .subGraph member inner → inner.AllTyped r := by
  rcases part_cases r inner p plan name with ⟨forks, settled⟩ | ⟨plain, ⟨typeName, type, found, settled⟩ |
    ⟨other, ⟨typeName, graph, found, settled⟩ | ⟨-, settled⟩⟩⟩ <;> rw [settled]
  · exact .pure ⟨.fanOut forks, nofun⟩
  · exact .pure ⟨.stage plain found, nofun⟩
  · refine (allTyped graph).bind fun o ⟨same, nested⟩ => ?_
    subst same
    exact .pure ⟨.subGraph plain other found, by rintro _ _ ⟨⟩; exact nested⟩
  · exact .throw _ _

theorem parts_allTyped {inner : Pipeline → Building σ (Outline σ)}
    (allTyped : ∀ p, (inner p).Yields fun o => o.pipeline = p ∧ o.AllTyped r) (p : Pipeline)
    (plan : Route.Plan) (names : List String) :
    (parts? r inner p plan names).Yields fun parts =>
      parts.map (fun part => part.member.name) = names ∧
        (∀ part ∈ parts, Part.Of r p plan part.member.name part) ∧
          ∀ member inner, Part.subGraph member inner ∈ parts → inner.AllTyped r := by
  induction names with
  | nil => exact .pure ⟨rfl, nofun, nofun⟩
  | cons name rest ih =>
    refine (part_allTyped allTyped p plan name).bind fun first ⟨of, nested⟩ => ?_
    refine ih.bind fun later ⟨names, whole, nested'⟩ => ?_
    refine .pure ⟨by rw [List.map_cons, of.name_eq, names], ?_, fun member inner listed => ?_⟩
    · exact List.forall_mem_cons.mpr ⟨of.name_eq.symm ▸ of, whole⟩
    · rcases List.mem_cons.mp listed with same | listed
      · exact nested member inner same.symm
      · exact nested' member inner listed

theorem declareWithin_allTyped (r : Registry σ) (depth : Nat) (p : Pipeline) :
    (declareWithin r depth p).Yields fun o => o.pipeline = p ∧ o.AllTyped r := by
  induction depth generalizing p with
  | zero => exact .throw _ _
  | succ depth ih =>
    refine (compile_yields p).bind fun plan read =>
      (parts_allTyped ih p plan _).bind fun parts whole => ?_
    refine .pure ⟨rfl, fun sub within => ?_⟩
    cases within with
    | refl => exact ⟨read, whole.1, whole.2.1⟩
    | inner listed within => exact whole.2.2 _ _ listed sub within

theorem declare_allTyped {p : Pipeline} {o : Outline σ} (declared : (declare r p).run.1 = .ok o) :
    o.pipeline = p ∧ o.AllTyped r :=
  (declareWithin_allTyped r (maxNesting + 1) p [] .nil).2 o declared

end Outline

namespace Layout

inductive Has (layout : Layout σ) : Nat → Nat → String → Outline σ → Prop
  | make {node first : Nat} {path : String} {p : Pipeline} {plan : Route.Plan}
      {parts : List (Part σ)} (listed : level node first p plan parts ∈ layout.levels)
      (holds : layout.Holds first path parts) (firsts : Nat → Nat)
      (inner : ∀ (i : Nat) (member : Member) (inner : Outline σ),
        parts[i]? = some (.subGraph member inner) →
          Has layout (first + i) (firsts i) (joinPath path member.name) inner) :
      Has layout node first path (.make p plan parts)

theorem Grows.has {layout after : Layout σ} (grows : layout.Grows after) {node first : Nat}
    {path : String} {o : Outline σ} (has : layout.Has node first path o) :
    after.Has node first path o := by
  induction has with
  | make listed holds firsts _ ih =>
    exact .make (grows.levels listed) (grows.holds holds) firsts ih

mutual

theorem addOutline_has (node : Nat) (path : String) : (outline : Outline σ) →
    (layout : Layout σ) →
      (addOutline node path outline layout).Has node layout.nodes.size path outline
  | .make p plan parts, layout => by
    have grows := addInner_grows layout.nodes.size path parts { addMembers path parts layout with
      levels := layout.levels ++ [level node layout.nodes.size p plan parts] }
    obtain ⟨firsts, inner⟩ := addInner_has layout.nodes.size path parts
      { addMembers path parts layout with
        levels := layout.levels ++ [level node layout.nodes.size p plan parts] }
    refine .make (grows.levels ?_) (grows.holds ?_) firsts inner
    · exact List.mem_append_right _ (List.mem_singleton_self _)
    · exact addMembers_holds path parts layout _

theorem addInner_has (first : Nat) (parent : String) : (parts : List (Part σ)) →
    (layout : Layout σ) → ∃ firsts : Nat → Nat, ∀ (i : Nat) (member : Member) (inner : Outline σ),
      parts[i]? = some (.subGraph member inner) → (addInner first parent parts layout).Has
        (first + i) (firsts i) (joinPath parent member.name) inner
  | [], _ => ⟨id, nofun⟩
  | part :: rest, layout => by
    obtain ⟨firsts, later⟩ := addInner_has (first + 1) parent rest (addPart first parent part layout)
    refine ⟨fun i => i.casesOn layout.nodes.size firsts, fun i member inner at' => ?_⟩
    cases i with
    | zero =>
      exact (addInner_grows (first + 1) parent rest _).has
        (addPart_has first parent part layout member inner (Option.some.inj at'))
    | succ i =>
      have later := later i member inner at'
      rwa [Nat.add_assoc, Nat.add_comm 1 i] at later

theorem addPart_has (id : Nat) (parent : String) : (part : Part σ) → (layout : Layout σ) →
    (member : Member) → (inner : Outline σ) → part = .subGraph member inner →
      (addPart id parent part layout).Has id layout.nodes.size (joinPath parent member.name) inner
  | .subGraph member inner, layout, _, _, same => by
    cases same
    exact addOutline_has id (joinPath parent member.name) inner layout
  | .fanOut _, _, _, _, same => nomatch same
  | .stage _ _, _, _, _, same => nomatch same

end

def Lays (layout : Layout σ) (o : Outline σ) (s : Level) : Prop :=
  ∃ sub first path, sub.Within o ∧ s = level s.node first sub.pipeline sub.plan sub.parts ∧
    layout.Has s.node first path sub

theorem Lays.mono {layout after : Layout σ} (grows : layout.Grows after) {o outer : Outline σ}
    (within : ∀ sub : Outline σ, sub.Within o → sub.Within outer) {s : Level}
    (lays : layout.Lays o s) : after.Lays outer s := by
  obtain ⟨sub, first, path, inside, same, has⟩ := lays
  exact ⟨sub, first, path, within sub inside, same, grows.has has⟩

mutual

theorem addOutline_lays (node : Nat) (path : String) : (outline : Outline σ) →
    (layout : Layout σ) → ∀ s ∈ (addOutline node path outline layout).levels,
      s ∈ layout.levels ∨ (addOutline node path outline layout).Lays outline s
  | .make p plan parts, layout, s, listed => by
    rcases addInner_lays layout.nodes.size path parts _ s listed with before | ⟨member, inner, within, lays⟩
    · rcases List.mem_append.mp before with before | here
      · exact .inl before
      · obtain rfl := List.mem_singleton.mp here
        exact .inr ⟨_, _, path, .refl _, rfl, addOutline_has node path (.make p plan parts) layout⟩
    · exact .inr (lays.mono ⟨fun _ _ found => found, List.Subset.refl _⟩ fun _ inside =>
        .inner within inside)

theorem addInner_lays (first : Nat) (parent : String) : (parts : List (Part σ)) →
    (layout : Layout σ) → ∀ s ∈ (addInner first parent parts layout).levels,
      s ∈ layout.levels ∨ ∃ member inner, Part.subGraph member inner ∈ parts ∧
        (addInner first parent parts layout).Lays inner s
  | [], _, s, listed => .inl listed
  | part :: rest, layout, s, listed => by
    have grows := addInner_grows (first + 1) parent rest (addPart first parent part layout)
    rcases addInner_lays (first + 1) parent rest _ s listed with before | ⟨member, inner, within, lays⟩
    · rcases addPart_lays first parent part layout s before with before | ⟨member, inner, rfl, lays⟩
      · exact .inl before
      · exact .inr ⟨member, inner, List.mem_cons_self, lays.mono grows fun _ inside => inside⟩
    · exact .inr ⟨member, inner, List.mem_cons_of_mem _ within, lays⟩

theorem addPart_lays (id : Nat) (parent : String) : (part : Part σ) →
    (layout : Layout σ) → ∀ s ∈ (addPart id parent part layout).levels,
      s ∈ layout.levels ∨ ∃ member inner, part = Part.subGraph member inner ∧
        (addPart id parent part layout).Lays inner s
  | .subGraph member inner, layout, s, listed =>
    (addOutline_lays id (joinPath parent member.name) inner layout s listed).imp_right
      fun lays => ⟨member, inner, rfl, lays⟩
  | .fanOut _, _, _, listed => .inl listed
  | .stage _ _, _, _, listed => .inl listed

end

theorem ofOutline_has (outline : Outline σ) : (ofOutline outline).Has 0 1 "" outline :=
  addOutline_has 0 "" outline _

theorem ofOutline_lays {outline : Outline σ} {s : Level}
    (listed : s ∈ (ofOutline outline).levels) : (ofOutline outline).Lays outline s := by
  rcases addOutline_lays 0 "" outline _ s listed with before | lays
  · cases before
  · exact lays

def Owned (layout : Layout σ) (size : Nat) : Prop :=
  ∀ id : Nat, id < layout.nodes.size → id < size ∨ ∃ s ∈ layout.levels, id ∈ s.ids

mutual

theorem addOutline_owned (node : Nat) (path : String) (size : Nat) : (outline : Outline σ) →
    (layout : Layout σ) → layout.Owned size → (addOutline node path outline layout).Owned size
  | .make p plan parts, layout, owned => by
    refine addInner_owned layout.nodes.size path size parts _ fun id within => ?_
    have room := addMembers_size path parts layout
    dsimp only at within
    by_cases old : id < layout.nodes.size
    · rcases owned id old with small | ⟨s, listed, inside⟩
      · exact .inl small
      · exact .inr ⟨s, List.mem_append_left _ listed, inside⟩
    · refine .inr ⟨_, List.mem_append_right _ (List.mem_singleton_self _), ?_⟩
      rw [level_ids]
      exact List.mem_range'_1.mpr ⟨Nat.le_of_not_lt old, by omega⟩

theorem addInner_owned (first : Nat) (parent : String) (size : Nat) : (parts : List (Part σ)) →
    (layout : Layout σ) → layout.Owned size → (addInner first parent parts layout).Owned size
  | [], _, owned => owned
  | part :: rest, layout, owned =>
    addInner_owned (first + 1) parent size rest _ (addPart_owned first parent size part layout owned)

theorem addPart_owned (id : Nat) (parent : String) (size : Nat) : (part : Part σ) →
    (layout : Layout σ) → layout.Owned size → (addPart id parent part layout).Owned size
  | .subGraph member inner, layout, owned =>
    addOutline_owned id (joinPath parent member.name) size inner layout owned
  | .fanOut _, _, owned => owned
  | .stage _ _, _, owned => owned

end

theorem ofOutline_owned (outline : Outline σ) : (ofOutline outline).Owned 1 :=
  addOutline_owned 0 "" 1 outline _ fun _ within => .inl within

theorem mem_level {node first id : Nat} {p : Pipeline} {plan : Route.Plan} {parts : List (Part σ)}
    {member : Member} (inside : (id, member) ∈ (level node first p plan parts).members) :
    ∃ i part, parts[i]? = some part ∧ id = first + i ∧ part.member = member := by
  obtain ⟨⟨part, other⟩, numbered, same⟩ := List.mem_map.mp inside
  cases same
  obtain ⟨i, found⟩ := List.mem_iff_getElem?.mp numbered
  rw [List.getElem?_zipIdx] at found
  obtain ⟨part', at', same⟩ := Option.map_eq_some_iff.mp found
  cases same
  exact ⟨i, part, at', rfl, rfl⟩

theorem Lays.member {layout : Layout σ} {r : Registry σ} {o : Outline σ} (allTyped : o.AllTyped r)
    {s : Level} (lays : layout.Lays o s) {id : Nat} {member : Member}
    (inside : (id, member) ∈ s.members) : ∃ part path, Part.Of r s.pipeline s.plan member.name part ∧
      part.member = member ∧ layout.nodes[id]? = some (nodeOf path part) := by
  obtain ⟨sub, first, path, within, same, has⟩ := lays
  have typed := allTyped sub within
  rw [same] at inside ⊢
  obtain ⟨i, part, at', rfl, rfl⟩ := mem_level inside
  refine ⟨part, path, typed.parts part (List.mem_of_getElem? at'), rfl, ?_⟩
  cases has with
  | make _ holds _ _ => exact holds i part at'

end Layout

end Sluice
