import Sluice.Proofs.Route.Branches

set_option autoImplicit false

namespace Sluice.Route

def Element.width (element : Element) : Nat := element.stageCount + element.branchCount

def widthOf (route : List Element) : Nat := stageCountOf route + branchCountOf route

/-- A node of a route by its number in document order, with the numbers of those it leads to. A stage
has its reference, and a fan-out has none. -/
structure Spot where
  place : Nat
  reference : Option String
  main : Option Nat
  branch : Option Nat

def Spot.move (f : Nat → Nat) (g : Nat → Option Nat) (s : Spot) : Spot :=
  ⟨f s.place, s.reference, s.main.bind g, s.branch.bind g⟩

mutual

/-- The nodes of an element that has a number. What follows it in its sequence comes onward; at the
end of the sequence the last node of all leads to what comes after the route. -/
def Element.spots (start : Nat) (onward after : Option Nat) : Element → List Spot
  | .stage reference => [⟨start, some reference, onward.or after, none⟩]
  | .branch inner =>
    ⟨start, none, onward, if inner.isEmpty then none else some (start + 1)⟩ ::
      spotsOf (start + 1) after inner

def spotsOf (start : Nat) (after : Option Nat) : List Element → List Spot
  | [] => []
  | element :: rest =>
    element.spots start (if rest.isEmpty then none else some (start + element.width))
      (if rest.isEmpty then after else none) ++ spotsOf (start + element.width) after rest

end

@[simp] theorem width_stage (reference : String) : (Element.stage reference).width = 1 := rfl

@[simp] theorem width_branch (inner : List Element) :
    (Element.branch inner).width = widthOf inner + 1 := rfl

@[simp] theorem widthOf_nil : widthOf [] = 0 := rfl

@[simp] theorem widthOf_cons (element : Element) (rest : List Element) :
    widthOf (element :: rest) = element.width + widthOf rest := by
  simp only [widthOf, Element.width, stageCountOf, branchCountOf]
  omega

mutual

theorem spots_places (start : Nat) (onward after : Option Nat) : (element : Element) →
    (element.spots start onward after).map Spot.place = List.range' start element.width
  | .stage _ => rfl
  | .branch inner => by
    rw [Element.spots, List.map_cons, spotsOf_places (start + 1) after inner, width_branch,
      List.range'_succ]

theorem spotsOf_places (start : Nat) (after : Option Nat) : (route : List Element) →
    (spotsOf start after route).map Spot.place = List.range' start (widthOf route)
  | [] => rfl
  | element :: rest => by
    rw [spotsOf, List.map_append, spots_places, spotsOf_places, widthOf_cons, List.range'_append_1]

end

mutual

theorem spots_references (start : Nat) (onward after : Option Nat) : (element : Element) →
    (element.spots start onward after).filterMap Spot.reference = element.stages
  | .stage _ => rfl
  | .branch inner => by
    rw [Element.spots, List.filterMap_cons_none rfl, spotsOf_references (start + 1) after inner,
      Element.stages]

theorem spotsOf_references (start : Nat) (after : Option Nat) : (route : List Element) →
    (spotsOf start after route).filterMap Spot.reference = stagesOf route
  | [] => rfl
  | element :: rest => by
    rw [spotsOf, List.filterMap_append, spots_references, spotsOf_references, stagesOf]

end

theorem Element.width_pos : (element : Element) → 0 < element.width
  | .stage _ => Nat.one_pos
  | .branch _ => Nat.succ_pos _

theorem widthOf_pos {route : List Element} (filled : route ≠ []) : 0 < widthOf route := by
  cases route with
  | nil => exact absurd rfl filled
  | cons element rest =>
    have := element.width_pos
    rw [widthOf_cons]
    omega

def Shifts (f : Nat → Nat) (g : Nat → Option Nat) (start start' width : Nat) : Prop :=
  ∀ i < width, f (start + i) = start' + i ∧ g (start + i) = some (start' + i)

namespace Shifts

variable {f : Nat → Nat} {g : Nat → Option Nat} {start start' width width' : Nat}

theorem here (shifts : Shifts f g start start' width) (some' : 0 < width) : f start = start' :=
  (shifts 0 some').1

theorem left (shifts : Shifts f g start start' (width + width')) : Shifts f g start start' width :=
  fun i within => shifts i (by omega)

theorem right (shifts : Shifts f g start start' (width + width')) :
    Shifts f g (start + width) (start' + width) width' := fun i within => by
  rw [Nat.add_assoc, Nat.add_assoc]
  exact shifts (width + i) (by omega)

theorem first (route : List Element) (shifts : Shifts f g start start' (widthOf route)) :
    (if route.isEmpty then none else some start') =
      (if route.isEmpty then none else some start).bind g := by
  cases route with
  | nil => rfl
  | cons element rest => exact (shifts 0 (widthOf_pos (List.cons_ne_nil element rest))).2.symm

end Shifts

mutual

theorem spots_move {f : Nat → Nat} {g : Nat → Option Nat} {start start' : Nat}
    {onward after : Option Nat} (either : onward = none ∨ after = none) : (element : Element) →
      Shifts f g start start' element.width → element.spots start' (onward.bind g) (after.bind g) =
        (element.spots start onward after).map (Spot.move f g)
  | .stage _, shifts => by
    have leads : (onward.bind g).or (after.bind g) = (onward.or after).bind g := by
      rcases either with rfl | rfl
      · rfl
      · rw [Option.bind_none, Option.or_none, Option.or_none]
    simp [Element.spots, Spot.move, shifts.here Nat.one_pos, leads]
  | .branch inner, shifts => by
    rw [width_branch, Nat.add_comm] at shifts
    rw [Element.spots, Element.spots, List.map_cons, spotsOf_move after inner shifts.right,
      Spot.move, shifts.here (by omega), shifts.right.first inner]

theorem spotsOf_move {f : Nat → Nat} {g : Nat → Option Nat} {start start' : Nat}
    (after : Option Nat) : (route : List Element) → Shifts f g start start' (widthOf route) →
      spotsOf start' (after.bind g) route = (spotsOf start after route).map (Spot.move f g)
  | [], _ => rfl
  | element :: rest, shifts => by
    rw [widthOf_cons] at shifts
    have last : (if rest.isEmpty then after.bind g else none) =
        (if rest.isEmpty then after else none).bind g := by
      split <;> rfl
    have either : (if rest.isEmpty then none else some (start + element.width)) = none ∨
        (if rest.isEmpty then after else none) = none := by
      split
      · exact .inl rfl
      · exact .inr rfl
    rw [spotsOf, spotsOf, List.map_append, ← spotsOf_move after rest shifts.right,
      ← spots_move either element shifts.left, last, ← shifts.right.first rest]

end

def Names (name : Nat → String) (start opened : Nat) (route : List Element) : Prop :=
  nodesOf opened route = (List.range' start (widthOf route)).map name

mutual

theorem nodes_length (opened : Nat) : (element : Element) →
    (element.nodes opened).length = element.width
  | .stage _ => rfl
  | .branch inner => by
    rw [Element.nodes, List.length_cons, nodesOf_length (opened + 1) inner, width_branch]

theorem nodesOf_length (opened : Nat) : (route : List Element) →
    (nodesOf opened route).length = widthOf route
  | [] => rfl
  | element :: rest => by
    rw [nodesOf, List.length_append, nodes_length, nodesOf_length, widthOf_cons]

end

section

variable {name : Nat → String} {start opened : Nat}

theorem Names.cons {element : Element} {rest : List Element}
    (names : Names name start opened (element :: rest)) :
    element.nodes opened = (List.range' start element.width).map name ∧
      Names name (start + element.width) (opened + element.branchCount) rest := by
  unfold Names at names ⊢
  rw [nodesOf, widthOf_cons, ← List.range'_append_1, List.map_append] at names
  exact List.append_inj names (by rw [nodes_length, List.length_map, List.length_range'])

theorem Names.branch {inner : List Element}
    (names : (Element.branch inner).nodes opened =
      (List.range' start (Element.branch inner).width).map name) :
    name start = fanOutName (opened + 1) ∧ Names name (start + 1) (opened + 1) inner := by
  rw [width_branch, List.range'_succ, List.map_cons, Element.nodes] at names
  exact ⟨(List.cons.inj names).1.symm, (List.cons.inj names).2⟩

theorem Names.head {route : List Element} (names : Names name start opened route) :
    (nodesOf opened route).head? = (if route.isEmpty then none else some start).map name := by
  cases route with
  | nil => rfl
  | cons element rest =>
    obtain ⟨width, more⟩ :=
      Nat.exists_eq_add_of_lt (widthOf_pos (List.cons_ne_nil element rest))
    rw [Nat.zero_add] at more
    rw [names, more, List.range'_succ]
    rfl

theorem follower_head (opened : Nat) (route : List Element) :
    follower opened route = (nodesOf opened route).head? := by
  rcases route with _ | ⟨_ | _, _⟩ <;> rfl

theorem headOf_head (opened : Nat) {route : List Element} (proper : ProperRoute route) :
    headOf route = (nodesOf opened route).head? := by
  obtain ⟨filled, proper⟩ := proper
  match route with
  | [] => exact absurd rfl filled
  | .stage _ :: _ => rfl
  | .branch _ :: _ => exact absurd (proper.1 rfl) Bool.false_ne_true

def Spot.hops (name : Nat → String) (s : Spot) : List Hop :=
  match s.reference with
  | some _ => [⟨name s.place, .main, s.main.map name⟩]
  | none => [⟨name s.place, .branch, s.branch.map name⟩, ⟨name s.place, .main, s.main.map name⟩]

mutual

theorem edges_hops (start opened : Nat) (onward : Option Nat) : (element : Element) → element.Proper →
    element.nodes opened = (List.range' start element.width).map name →
      element.edges opened (onward.map name) =
        (element.spots start onward none).flatMap (Spot.hops name)
  | .stage reference, _, names => by
    obtain rfl : reference = name start := (List.cons.inj names).1
    simp [Element.edges, Element.spots, Spot.hops]
  | .branch inner, proper, names => by
    obtain ⟨fork, names⟩ := Names.branch names
    rw [Element.edges, Element.spots, List.flatMap_cons, headOf_head (opened + 1) proper, names.head,
      ← fork, edgesOf_hops (start + 1) (opened + 1) false inner proper.2 names]
    rfl

theorem edgesOf_hops (start opened : Nat) (ready : Bool) : (route : List Element) → ProperFrom ready route →
    Names name start opened route →
      edgesOf opened route = (spotsOf start none route).flatMap (Spot.hops name)
  | [], _, _ => rfl
  | element :: rest, proper, names => by
    obtain ⟨here, later⟩ := names.cons
    rw [edgesOf, spotsOf, List.flatMap_append, ite_self, follower_head, later.head,
      edges_hops start opened _ element proper.2.1 here, edgesOf_hops _ _ _ rest proper.2.2 later]

end

def Spot.Named (name : Nat → String) (s : Spot) : Prop :=
  match s.reference with
  | some reference => name s.place = reference
  | none => ∃ n, name s.place = fanOutName n

mutual

theorem spots_named (start opened : Nat) (onward after : Option Nat) : (element : Element) →
    element.nodes opened = (List.range' start element.width).map name →
      ∀ s ∈ element.spots start onward after, s.Named name
  | .stage _, names, s, listed => by
    obtain rfl := List.mem_singleton.mp listed
    exact (List.cons.inj names).1.symm
  | .branch inner, names, s, listed => by
    obtain ⟨fork, names⟩ := Names.branch names
    rcases List.mem_cons.mp listed with rfl | listed
    · exact ⟨_, fork⟩
    · exact spotsOf_named _ _ after inner names s listed

theorem spotsOf_named (start opened : Nat) (after : Option Nat) : (route : List Element) →
    Names name start opened route → ∀ s ∈ spotsOf start after route, s.Named name
  | [], _, _, listed => by cases listed
  | element :: rest, names, s, listed => by
    obtain ⟨here, later⟩ := names.cons
    rcases List.mem_append.mp listed with listed | listed
    · exact spots_named start opened _ _ element here s listed
    · exact spotsOf_named _ _ after rest later s listed

end

end

mutual

theorem nodes_perm (opened : Nat) : (element : Element) → (element.nodes opened).Perm
    (element.stages ++ (List.range' (opened + 1) element.branchCount).map fanOutName)
  | .stage _ => .refl _
  | .branch inner => by
    rw [Element.nodes, Element.stages, Element.branchCount, List.range'_succ, List.map_cons]
    exact ((nodesOf_perm (opened + 1) inner).cons _).trans List.perm_middle.symm

theorem nodesOf_perm (opened : Nat) : (route : List Element) → (nodesOf opened route).Perm
    (stagesOf route ++ (List.range' (opened + 1) (branchCountOf route)).map fanOutName)
  | [] => .refl _
  | element :: rest => by
    rw [nodesOf, stagesOf, branchCountOf, ← List.range'_append_1, List.map_append,
      Nat.add_right_comm opened 1, List.append_assoc]
    refine ((nodes_perm opened element).append (nodesOf_perm _ rest)).trans ?_
    rw [List.append_assoc]
    exact (List.perm_append_comm_assoc ..).append_left _

end

structure Distinct (route : List Element) : Prop where
  stages : ((stagesOf route).map Literal.bareName).Nodup
  written : ∀ reference ∈ stagesOf route, isFanOutName (Literal.bareName reference) = false

theorem Distinct.nodes {route : List Element} (distinct : Distinct route) :
    ((nodesOf 0 route).map Literal.bareName).Nodup := by
  have plain : Literal.bareName ∘ fanOutName = fanOutName := funext bareName_fanOutName
  have counted : (List.range' (0 + 1) (branchCountOf route)).Nodup := List.nodup_range'
  rw [((nodesOf_perm 0 route).map _).nodup_iff, List.map_append, List.map_map, plain]
  refine List.nodup_append.mpr ⟨distinct.stages, counted.map fanOutName_injective, ?_⟩
  intro name stage other fork same
  obtain ⟨reference, listed, rfl⟩ := List.mem_map.mp stage
  obtain ⟨n, -, rfl⟩ := List.mem_map.mp fork
  have written := distinct.written reference listed
  rw [same, isFanOutName_fanOutName] at written
  cases written

mutual

theorem spots_within (start : Nat) (onward after : Option Nat) : (element : Element) →
    ∀ s ∈ element.spots start onward after, (∀ t, s.main = some t →
      onward = some t ∨ after = some t ∨ start ≤ t ∧ t < start + element.width) ∧
        ∀ t, s.branch = some t → start ≤ t ∧ t < start + element.width
  | .stage _, s, listed => by
    obtain rfl := List.mem_singleton.mp listed
    exact ⟨fun t leads => (Option.or_eq_some_iff.mp leads).imp_right fun ⟨_, leads⟩ => .inl leads,
      nofun⟩
  | .branch inner, s, listed => by
    rw [width_branch]
    rcases List.mem_cons.mp listed with rfl | listed
    · refine ⟨fun t leads => .inl leads, fun t leads => ?_⟩
      cases inner with
      | nil => cases leads
      | cons element rest =>
        cases leads
        have := widthOf_pos (List.cons_ne_nil element rest)
        omega
    · have ⟨main, branch⟩ := spotsOf_within (start + 1) after inner s listed
      refine ⟨fun t leads => .inr ((main t leads).imp_right fun _ => by omega), fun t leads => ?_⟩
      have := branch t leads
      omega

theorem spotsOf_within (start : Nat) (after : Option Nat) : (route : List Element) →
    ∀ s ∈ spotsOf start after route, (∀ t, s.main = some t →
      after = some t ∨ start ≤ t ∧ t < start + widthOf route) ∧
        ∀ t, s.branch = some t → start ≤ t ∧ t < start + widthOf route
  | [], _, listed => by cases listed
  | element :: rest, s, listed => by
    rw [widthOf_cons]
    rcases List.mem_append.mp listed with listed | listed
    · have ⟨main, branch⟩ := spots_within start _ _ element s listed
      refine ⟨fun t leads => ?_, fun t leads => ?_⟩
      · rcases main t leads with onward | leads | inside
        · cases rest with
          | nil => cases onward
          | cons next later =>
            cases onward
            have := widthOf_pos (List.cons_ne_nil next later)
            omega
        · cases rest with
          | nil => exact .inl leads
          | cons next later => cases leads
        · omega
      · have := branch t leads
        omega
    · have ⟨main, branch⟩ := spotsOf_within (start + element.width) after rest s listed
      refine ⟨fun t leads => (main t leads).imp_right fun _ => by omega, fun t leads => ?_⟩
      have := branch t leads
      omega

end

mutual

theorem spots_last (start : Nat) : (element : Element) → element.Proper →
    ∃ before place reference, ∀ after, element.spots start none after =
      before ++ [⟨place, some reference, after, none⟩]
  | .stage reference, _ => ⟨[], start, reference, fun after => by simp [Element.spots]⟩
  | .branch inner, proper => by
    obtain ⟨before, place, reference, last⟩ := spotsOf_last (start + 1) false inner proper.2 proper.1
    exact ⟨_ :: before, place, reference, fun after => by rw [Element.spots, last, List.cons_append]⟩

theorem spotsOf_last (start : Nat) (ready : Bool) : (route : List Element) →
    ProperFrom ready route → route ≠ [] → ∃ before place reference, ∀ after,
      spotsOf start after route = before ++ [⟨place, some reference, after, none⟩]
  | [], _, filled => absurd rfl filled
  | [element], proper, _ => by
    obtain ⟨before, place, reference, last⟩ := spots_last start element proper.2.1
    exact ⟨before, place, reference, fun after => by simp [spotsOf, last]⟩
  | element :: next :: rest, proper, _ => by
    obtain ⟨before, place, reference, last⟩ := spotsOf_last (start + element.width) _ (next :: rest)
      proper.2.2 (List.cons_ne_nil next rest)
    exact ⟨element.spots start (some (start + element.width)) none ++ before, place, reference,
      fun after => by rw [spotsOf, last, List.append_assoc]; rfl⟩

end

theorem spotsOf_ends (start : Nat) {ready : Bool} {route : List Element}
    (proper : ProperFrom ready route) (filled : route ≠ []) : ∃ before reference, ∀ after,
      spotsOf start after route =
        before ++ [⟨start + (widthOf route - 1), some reference, after, none⟩] := by
  obtain ⟨before, place, reference, last⟩ := spotsOf_last start ready route proper filled
  have places := congrArg List.getLast? (spotsOf_places start none route)
  have here : place = start + (widthOf route - 1) := by
    simpa [last, List.getLast?_range', (widthOf_pos filled).ne', Nat.add_sub_assoc (widthOf_pos filled)]
      using places
  exact ⟨before, reference, here ▸ last⟩

end Sluice.Route
