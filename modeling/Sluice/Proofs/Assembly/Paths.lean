import Sluice.Proofs.Assembly.Attachment
import Sluice.Proofs.Assembly.StageTypes
import Sluice.Proofs.Assembly.Inlines
import Sluice.Proofs.Param.TableOrder

set_option autoImplicit false

namespace Sluice

variable {σ : Type}

open Layout (joinPath)

mutual

def Outline.paths (path : String) : Outline σ → List String
  | .make _ _ parts =>
    parts.map (fun part => joinPath path part.member.name) ++ Outline.innerPaths path parts

def Outline.innerPaths (path : String) : List (Part σ) → List String
  | [] => []
  | part :: rest => part.innerPaths path ++ Outline.innerPaths path rest

def Part.innerPaths (path : String) : Part σ → List String
  | .subGraph member inner => inner.paths (joinPath path member.name)
  | .fanOut _ => []
  | .stage _ _ => []

end

namespace Layout

def paths (layout : Layout σ) : List String := layout.nodes.toList.map Node.path

theorem nodeOf_path (parent : String) (part : Part σ) :
    (nodeOf parent part).path = joinPath parent part.member.name := by
  cases part <;> rfl

theorem addMembers_paths (parent : String) (parts : List (Part σ)) (layout : Layout σ) :
    (addMembers parent parts layout).paths =
      layout.paths ++ parts.map fun part => joinPath parent part.member.name := by
  simp [paths, addMembers, nodeOf_path, Function.comp_def]

mutual

theorem addOutline_paths (node : NodeId) (path : String) : (outline : Outline σ) →
    (layout : Layout σ) → (addOutline node path outline layout).paths =
      layout.paths ++ outline.paths path
  | .make p plan parts, layout => by
    unfold addOutline Outline.paths
    rw [addInner_paths, ← List.append_assoc]
    exact congrArg (· ++ _) (addMembers_paths path parts layout)

theorem addInner_paths (id : NodeId) (parent : String) : (parts : List (Part σ)) →
    (layout : Layout σ) → (addInner id parent parts layout).paths =
      layout.paths ++ Outline.innerPaths parent parts
  | [], layout => by
    unfold addInner Outline.innerPaths
    rw [List.append_nil]
  | part :: rest, layout => by
    unfold addInner Outline.innerPaths
    rw [addInner_paths, addPart_paths, List.append_assoc]

theorem addPart_paths (id : NodeId) (parent : String) : (part : Part σ) →
    (layout : Layout σ) → (addPart id parent part layout).paths =
      layout.paths ++ part.innerPaths parent
  | .subGraph member inner, layout => by
    unfold addPart Part.innerPaths
    exact addOutline_paths id (joinPath parent member.name) inner layout
  | .fanOut _, layout => by
    unfold addPart Part.innerPaths
    rw [List.append_nil]
  | .stage _ _, layout => by
    unfold addPart Part.innerPaths
    rw [List.append_nil]

end

theorem ofOutline_paths (outline : Outline σ) :
    (ofOutline outline).paths = "" :: outline.paths "" :=
  addOutline_paths 0 "" outline _

theorem joinPath_of_filled {path : String} (filled : path ≠ "") (name : String) :
    joinPath path name = path ++ "." ++ name := if_neg filled

theorem joinPath_filled {path name : String} (filled : path ≠ "" ∨ name ≠ "") :
    joinPath path name ≠ "" := by
  unfold joinPath
  split
  next root => exact filled.resolve_left fun ne => ne root
  next => simp

theorem joinPath_lead (path : String) : ∃ lead, ∀ name, joinPath path name = lead ++ name := by
  by_cases root : path = ""
  · exact ⟨"", fun name => by rw [joinPath, if_pos root, String.empty_append]⟩
  · exact ⟨path ++ ".", fun name => joinPath_of_filled root name⟩

end Layout

/-- Where two texts with a dot after them begin the same text, they are one, or one of them goes on
after the other with a dot. -/
theorem dotted_cases {a b r s : String} (same : a ++ "." ++ r = b ++ "." ++ s) :
    a = b ∨ (∃ t, b = a ++ "." ++ t) ∨ ∃ t, a = b ++ "." ++ t := by
  have further {a b r s : String} {t : List Char} (longer : b.toList = a.toList ++ t)
      (rest : '.' :: r.toList = t ++ '.' :: s.toList) : a = b ∨ ∃ t, b = a ++ "." ++ t := by
    cases t with
    | nil => exact .inl (String.toList_inj.mp (by rw [longer, List.append_nil]))
    | cons c t =>
      obtain rfl : '.' = c := (List.cons.inj rest).1
      exact .inr ⟨String.ofList t, String.toList_inj.mp (by simp [longer])⟩
  have lists := congrArg String.toList same
  simp only [String.toList_append, List.append_assoc] at lists
  rcases List.append_eq_append_iff.mp lists with ⟨t, longer, rest⟩ | ⟨t, longer, rest⟩
  · rcases further longer rest with same | goes
    · exact .inl same
    · exact .inr (.inl goes)
  · rcases further longer rest with same | goes
    · exact .inl same.symm
    · exact .inr (.inr goes)

theorem Part.Of.registered {r : Registry σ} {p : Pipeline} {plan : Route.Plan} {name : String}
    {member : Member} {inner : Outline σ} (of : Part.Of r p plan name (.subGraph member inner)) :
    ∃ typeName, r.graphs.at? typeName = some inner.pipeline := by
  cases of with
  | subGraph _ _ found => exact ⟨_, (Outline.firstRegistered_some found).2⟩

namespace Outline

mutual

theorem paths_under (path : String) (filled : path ≠ "") : (o : Outline σ) →
    ∀ q ∈ o.paths path, ∃ rest, q = path ++ "." ++ rest
  | .make p plan parts, q, listed => by
    unfold paths at listed
    rcases List.mem_append.mp listed with member | inner
    · obtain ⟨part, -, rfl⟩ := List.mem_map.mp member
      exact ⟨_, Layout.joinPath_of_filled filled _⟩
    · obtain ⟨member, _, rest, -, rfl⟩ :=
        innerPaths_under path parts (fun _ _ => Layout.joinPath_filled (.inl filled)) q inner
      refine ⟨member.name ++ "." ++ rest, ?_⟩
      rw [Layout.joinPath_of_filled filled]
      simp only [String.append_assoc]

theorem innerPaths_under (path : String) : (parts : List (Part σ)) →
    (filled : ∀ part ∈ parts, joinPath path part.member.name ≠ "") →
    ∀ q ∈ innerPaths path parts, ∃ member inner rest, Part.subGraph member inner ∈ parts ∧
      q = joinPath path member.name ++ "." ++ rest
  | [], _, q, listed => by
    unfold innerPaths at listed
    cases listed
  | part :: rest, filled, q, listed => by
    unfold innerPaths at listed
    rcases List.mem_append.mp listed with first | later
    · obtain ⟨member, inner, rest, rfl, same⟩ :=
        part_under path part (filled part List.mem_cons_self) q first
      exact ⟨member, inner, rest, List.mem_cons_self, same⟩
    · obtain ⟨member, inner, text, listed, same⟩ := innerPaths_under path rest
        (fun part listed => filled part (List.mem_cons_of_mem _ listed)) q later
      exact ⟨member, inner, text, List.mem_cons_of_mem _ listed, same⟩

theorem part_under (path : String) : (part : Part σ) →
    (filled : joinPath path part.member.name ≠ "") → ∀ q ∈ part.innerPaths path,
      ∃ member inner rest, part = .subGraph member inner ∧
        q = joinPath path member.name ++ "." ++ rest
  | .subGraph member inner, filled, q, listed => by
    unfold Part.innerPaths at listed
    obtain ⟨rest, same⟩ := paths_under (joinPath path member.name) filled inner q listed
    exact ⟨member, inner, rest, rfl, same⟩
  | .fanOut _, _, q, listed => by
    unfold Part.innerPaths at listed
    cases listed
  | .stage _ _, _, q, listed => by
    unfold Part.innerPaths at listed
    cases listed

end

def Undotted (parts : List (Part σ)) : Prop :=
  ∀ member inner, Part.subGraph member inner ∈ parts → ∀ part ∈ parts, ∀ rest,
    part.member.name ≠ member.name ++ "." ++ rest

structure Apart (parts : List (Part σ)) : Prop where
  distinct : (parts.map fun part => part.member.name).Nodup
  undotted : Undotted parts

theorem Apart.rest {part : Part σ} {rest : List (Part σ)} (apart : Apart (part :: rest)) :
    Apart rest :=
  ⟨(List.nodup_cons.mp apart.distinct).2, fun member inner sub other listed =>
    apart.undotted member inner (List.mem_cons_of_mem _ sub) other (List.mem_cons_of_mem _ listed)⟩

theorem Apart.below {parts : List (Part σ)} (apart : Apart parts) {path r s : String}
    {member other : Member} {inner inner' : Outline σ} (listed : Part.subGraph member inner ∈ parts)
    (listed' : Part.subGraph other inner' ∈ parts)
    (same : joinPath path member.name ++ "." ++ r = joinPath path other.name ++ "." ++ s) :
    member.name = other.name := by
  obtain ⟨lead, joined⟩ := Layout.joinPath_lead path
  simp only [joined, String.append_assoc, String.append_right_inj] at same
  rw [← String.append_assoc, ← String.append_assoc] at same
  rcases dotted_cases same with same | ⟨t, longer⟩ | ⟨t, longer⟩
  · exact same
  · exact absurd longer (apart.undotted member inner listed _ listed' t)
  · exact absurd longer (apart.undotted other inner' listed' _ listed t)

theorem paths_filled {o : Outline σ} (filled : ∀ part ∈ o.parts, joinPath "" part.member.name ≠ "") :
    ∀ q ∈ o.paths "", q ≠ "" := by
  obtain ⟨p, plan, parts⟩ := o
  intro q listed
  unfold paths at listed
  rcases List.mem_append.mp listed with own | below
  · obtain ⟨part, inside, rfl⟩ := List.mem_map.mp own
    exact filled part inside
  · obtain ⟨member, inner, rest, -, rfl⟩ := innerPaths_under "" parts filled q below
    simp

mutual

theorem paths_nodup (path : String) : (o : Outline σ) →
    (apart : ∀ sub : Outline σ, sub.Within o → Apart sub.parts) →
    (filled : ∀ part ∈ o.parts, joinPath path part.member.name ≠ "") → (o.paths path).Nodup
  | .make p plan parts, apart, filled => by
    have here : Apart parts := apart _ (.refl _)
    obtain ⟨lead, joined⟩ := Layout.joinPath_lead path
    unfold paths
    refine List.nodup_append.mpr ⟨?_, innerPaths_nodup path parts here
      (fun member inner listed sub within => apart sub (.inner listed within)) filled, ?_⟩
    · have names := here.distinct.map (f := joinPath path) fun name other same => by
        rwa [joined, joined, String.append_right_inj] at same
      rwa [List.map_map] at names
    · rintro q own q' below rfl
      obtain ⟨part, listed, rfl⟩ := List.mem_map.mp own
      obtain ⟨member, inner, rest, sub, same⟩ := innerPaths_under path parts filled _ below
      simp only [joined, String.append_assoc, String.append_right_inj] at same
      rw [← String.append_assoc] at same
      exact here.undotted member inner sub part listed rest same

theorem innerPaths_nodup (path : String) : (parts : List (Part σ)) → (here : Apart parts) →
    (apart : ∀ member inner, Part.subGraph member inner ∈ parts →
      ∀ sub : Outline σ, sub.Within inner → Apart sub.parts) →
    (filled : ∀ part ∈ parts, joinPath path part.member.name ≠ "") →
      (innerPaths path parts).Nodup
  | [], _, _, _ => by
    unfold innerPaths
    exact .nil
  | part :: rest, here, apart, filled => by
    have first := filled part List.mem_cons_self
    have later : ∀ part ∈ rest, joinPath path part.member.name ≠ "" :=
      fun part listed => filled part (List.mem_cons_of_mem _ listed)
    unfold innerPaths
    refine List.nodup_append.mpr ⟨part_nodup path part (fun member inner same =>
        apart member inner (same ▸ List.mem_cons_self)) first,
      innerPaths_nodup path rest here.rest (fun member inner listed =>
        apart member inner (List.mem_cons_of_mem _ listed)) later, ?_⟩
    rintro q below q' below' rfl
    obtain ⟨member, inner, r, rfl, same⟩ := part_under path part first q below
    obtain ⟨other, inner', s, listed, same'⟩ := innerPaths_under path rest later q below'
    have one := here.below List.mem_cons_self (List.mem_cons_of_mem _ listed)
      (same.symm.trans same')
    exact (List.nodup_cons.mp here.distinct).1 (List.mem_map.mpr ⟨_, listed, one.symm⟩)

theorem part_nodup (path : String) : (part : Part σ) →
    (apart : ∀ member inner, part = Part.subGraph member inner →
      ∀ sub : Outline σ, sub.Within inner → Apart sub.parts) →
    (filled : joinPath path part.member.name ≠ "") → (part.innerPaths path).Nodup
  | .subGraph member inner, apart, filled => by
    unfold Part.innerPaths
    exact paths_nodup (joinPath path member.name) inner (apart member inner rfl)
      fun _ _ => Layout.joinPath_filled (.inl filled)
  | .fanOut _, _, _ => by
    unfold Part.innerPaths
    exact .nil
  | .stage _ _, _, _ => by
    unfold Part.innerPaths
    exact .nil

end

theorem undotted_of_plain {parts : List (Part σ)}
    (plain : ∀ part ∈ parts, '.' ∉ part.member.name.toList) : Undotted parts := by
  intro member _ _ part listed rest same
  refine plain part listed ?_
  rw [same]
  simp

theorem memberNames_nodup {p : Pipeline} {plan : Route.Plan}
    (read : Route.Plan.read p.route = .ok plan) (ordered : p.sections.Ordered) :
    (memberNames p plan).Nodup := by
  refine List.nodup_append.mpr ⟨Route.read_names_nodup read, ordered.nodup.filter _, ?_⟩
  rintro name onRoute _ added rfl
  have absent := (List.mem_filter.mp added).2
  simp [onRoute] at absent

theorem AllTyped.registered {r : Registry σ} {sub o : Outline σ} (within : sub.Within o)
    (allTyped : o.AllTyped r) :
    sub.pipeline = o.pipeline ∨ ∃ typeName, r.graphs.at? typeName = some sub.pipeline := by
  induction within with
  | refl => exact .inl rfl
  | @inner inner p plan parts member listed within ih =>
    refine .inr ?_
    rcases ih fun sub' inside => allTyped sub' (.inner listed inside) with same | registered
    · obtain ⟨typeName, found⟩ := ((allTyped _ (.refl _)).parts _ listed).registered
      exact ⟨typeName, same ▸ found⟩
    · exact registered

end Outline

namespace Blueprint

structure SectionsOrdered (b : Blueprint σ) : Prop where
  pipeline : b.pipeline.sections.Ordered
  graphs : ∀ typeName p, b.registry.graphs.at? typeName = some p → p.sections.Ordered

theorem SectionsOrdered.distinct {b : Blueprint σ} (ordered : b.SectionsOrdered) {o sub : Outline σ}
    (declared : (Outline.declare b.registry b.pipeline).run.1 = .ok o) (within : sub.Within o) :
    (sub.parts.map fun part => part.member.name).Nodup := by
  obtain ⟨pipeline, allTyped⟩ := Outline.declare_allTyped declared
  have typed := allTyped sub within
  rw [typed.names]
  refine Outline.memberNames_nodup typed.read ?_
  rcases allTyped.registered within with same | ⟨typeName, found⟩
  · rw [same, pipeline]
    exact ordered.pipeline
  · exact ordered.graphs typeName _ found

variable [Stage σ]

theorem Takes.paths {b : Blueprint σ} {c : Course σ} {nodes : Array (Node σ)}
    (takes : b.Takes c nodes) : nodes.toList.map Node.path = "" :: c.outline.paths "" := by
  have kept := takes.kept (f := fun node => node.path) ⟨⟨fun _ _ _ _ _ => rfl⟩, fun _ _ _ => rfl⟩
    ⟨⟨fun _ _ => rfl, fun _ _ => rfl⟩, fun _ _ _ _ _ _ => rfl⟩
  rw [← Layout.ofOutline_paths, Layout.paths]
  simpa using congrArg Array.toList kept

/-- The paths of a built graph tell its nodes apart, if every member of the pipeline itself has a
name and no member anywhere has one that goes on after that of a sub-graph with a dot. -/
theorem paths_identify {b : Blueprint σ} {g : Graph σ} (built : b.build.1 = .ok g)
    (ordered : b.SectionsOrdered) :
    ∃ outline, (Outline.declare b.registry b.pipeline).run.1 = .ok outline ∧
      ((∀ part ∈ outline.parts, part.member.name ≠ "") →
        (∀ sub : Outline σ, sub.Within outline → Outline.Undotted sub.parts) →
          (∀ id other node node', id ≠ g.pumpSink → other ≠ g.pumpSink → g.node? id = some node →
            g.node? other = some node' → node.path = node'.path → id = other) ∧
          ∀ id node, id ≠ g.pumpSink → g.node? id = some node →
            g.find? node.path = some (id, node)) := by
  obtain ⟨c, nodes, history, rfl, -, takes⟩ := build_takes built
  refine ⟨c.outline, takes.declared, fun named undotted => ?_⟩
  have filled : ∀ part ∈ c.outline.parts, joinPath "" part.member.name ≠ "" :=
    fun part listed => Layout.joinPath_filled (.inr (named part listed))
  -- No two nodes have one path, since the paths are just those that the outline spells out.
  have distinct : (nodes.toList.map Node.path).Nodup := by
    rw [takes.paths]
    refine List.nodup_cons.mpr ⟨fun listed => ?_, Outline.paths_nodup "" c.outline
      (fun sub within => ⟨ordered.distinct takes.declared within, undotted sub within⟩) filled⟩
    exact Outline.paths_filled filled "" listed rfl
  have own {id : NodeId} {node : Node σ} (other : id ≠ nodes.size)
      (found : (Graph.make nodes 0 b.environment history).node? id = some node) :
      nodes[id]? = some node :=
    (node?_make_cases found).resolve_right fun last => other last.1
  have one {id other : Nat} {node node' : Node σ} (found : nodes[id]? = some node)
      (found' : nodes[other]? = some node') (same : node.path = node'.path) : id = other := by
    have path {i : Nat} {node : Node σ} (found : nodes[i]? = some node) :
        (nodes.toList.map Node.path)[i]? = some node.path := by
      rw [List.getElem?_map, Array.getElem?_toList, found]
      rfl
    obtain ⟨within, -⟩ := List.getElem?_eq_some_iff.mp (path found)
    exact (List.getElem?_inj within distinct).mp ((path found).trans (same ▸ (path found').symm))
  refine ⟨fun id other node node' stage stage' found found' same =>
    one (own stage found) (own stage' found') same, fun id node stage found => ?_⟩
  exact Graph.find?_make (own stage found) fun j other early there same =>
    Nat.ne_of_lt early (one there (own stage found) same)

def dotless : Blueprint Stock where
  pipeline := ⟨"line", "", [], false, "twice reverse_string sink", []⟩
  registry := { Stock.registry with
    graphs := [("twice", ⟨"twice", "turns texts around and back", [], false,
      "reverse_string reverse_string_2", []⟩)] }
  params := []
  environment := .empty

theorem dotless_paths : dotless.SectionsOrdered ∧ ∃ g, dotless.build.1 = .ok g ∧
    ∀ id node, id ≠ g.pumpSink → g.node? id = some node → g.find? node.path = some (id, node) := by
  have ordered : dotless.SectionsOrdered := by
    refine ⟨.nil, fun typeName p found => ?_⟩
    cases List.mem_singleton.mp (Dict.mem_of_at? found)
    exact .nil
  have plain : ([dotless.pipeline] ++ dotless.registry.graphs.map Prod.snd).all (fun p =>
      (Route.Plan.read p.route).toOption.any fun plan => (Outline.memberNames p plan).all fun name =>
        name != "" && !name.toList.contains '.') = true := by decide +kernel
  have builds : dotless.passes (fun _ => true) = true := by decide +kernel
  obtain ⟨g, built, -⟩ := of_passes builds
  obtain ⟨outline, declared, tells⟩ := paths_identify built ordered
  obtain ⟨pipeline, allTyped⟩ := Outline.declare_allTyped declared
  have named (sub : Outline Stock) (within : sub.Within outline) :
      ∀ part ∈ sub.parts, part.member.name ≠ "" ∧ '.' ∉ part.member.name.toList := by
    intro part listed
    have typed := allTyped sub within
    have one : sub.pipeline ∈ [dotless.pipeline] ++ dotless.registry.graphs.map Prod.snd := by
      rcases allTyped.registered within with same | ⟨typeName, found⟩
      · exact List.mem_append_left _ (List.mem_singleton.mpr (same.trans pipeline))
      · exact List.mem_append_right _ (List.mem_map_of_mem (Dict.mem_of_at? found))
    -- The check above ran over all registered pipelines, so it covers every one that is nested
    -- here.
    have checked := List.all_eq_true.mp plain _ one
    rw [typed.read] at checked
    have within : part.member.name ∈ Outline.memberNames sub.pipeline sub.plan :=
      typed.names ▸ List.mem_map_of_mem listed
    simpa using List.all_eq_true.mp checked _ within
  exact ⟨ordered, g, built, (tells (fun part listed => (named outline (.refl _) part listed).1)
    fun sub within => Outline.undotted_of_plain fun part listed => (named sub within part listed).2).2⟩

end Blueprint

end Sluice
