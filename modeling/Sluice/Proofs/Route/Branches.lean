import Sluice.Proofs.Route.FanOuts

set_option autoImplicit false

namespace Sluice.Route

mutual

def Element.branches : Element → List (List Element)
  | .stage _ => []
  | .branch inner => inner :: branchesOf inner

def branchesOf : List Element → List (List Element)
  | [] => []
  | element :: rest => element.branches ++ branchesOf rest

end

mutual

theorem branches_length : (element : Element) → element.branches.length = element.branchCount
  | .stage _ => rfl
  | .branch inner => by
    rw [Element.branches, List.length_cons, branchesOf_length inner, Element.branchCount]

theorem branchesOf_length : (route : List Element) →
    (branchesOf route).length = branchCountOf route
  | [] => rfl
  | element :: rest => by
    rw [branchesOf, List.length_append, branches_length element, branchesOf_length rest, branchCountOf]

end

def branchHop (n : Nat) (inner : List Element) : Hop := ⟨fanOutName n, .branch, headOf inner⟩

mutual

theorem branch_hop (opened : Nat) (next : Option String) : (element : Element) → ∀ (i : Nat) inner,
    element.branches[i]? = some inner →
      branchHop (opened + i + 1) inner ∈ element.edges opened next
  | .stage _, i, _, at' => by cases at'
  | .branch inner, 0, _, at' => by
    obtain rfl := Option.some.inj at'
    exact List.mem_cons_self
  | .branch inner, i + 1, _, at' => by
    have inside := branchesOf_hop (opened + 1) inner i _ at'
    rw [Nat.add_right_comm opened] at inside
    exact List.mem_cons_of_mem _ (List.mem_cons_of_mem _ inside)

theorem branchesOf_hop (opened : Nat) : (route : List Element) → ∀ (i : Nat) inner,
    (branchesOf route)[i]? = some inner → branchHop (opened + i + 1) inner ∈ edgesOf opened route
  | [], _, _, at' => by cases at'
  | element :: rest, i, inner, at' => by
    rw [branchesOf, List.getElem?_append, branches_length] at at'
    refine List.mem_append.mpr ?_
    split at at'
    · exact .inl (branch_hop opened _ element i inner at')
    next later =>
      have inside := branchesOf_hop (opened + element.branchCount) rest _ inner at'
      have same : opened + element.branchCount + (i - element.branchCount) = opened + i := by omega
      rw [same] at inside
      exact .inr inside

end

mutual

theorem branches_proper : (element : Element) → element.Proper →
    ∀ inner ∈ element.branches, ProperRoute inner
  | .stage _, _, _, listed => by cases listed
  | .branch inner, proper, _, listed => by
    rcases List.mem_cons.mp listed with rfl | listed
    · exact proper
    · exact branchesOf_proper false inner proper.2 _ listed

theorem branchesOf_proper (ready : Bool) : (route : List Element) → ProperFrom ready route →
    ∀ inner ∈ branchesOf route, ProperRoute inner
  | [], _, _, listed => by cases listed
  | element :: rest, proper, inner, listed => by
    rcases List.mem_append.mp listed with here | later
    · exact branches_proper element proper.2.1 inner here
    · exact branchesOf_proper _ rest proper.2.2 inner later

end

theorem headOf_proper {route : List Element} (proper : ProperRoute route) :
    ∃ reference, headOf route = some reference := by
  obtain ⟨filled, proper⟩ := proper
  cases route with
  | nil => exact absurd rfl filled
  | cons element rest =>
    cases element with
    | stage reference => exact ⟨reference, rfl⟩
    | branch inner => exact absurd (proper.1 rfl) (by decide)

mutual

theorem mem_nodes (opened : Nat) (name : String) : (element : Element) →
    (name ∈ element.nodes opened ↔ name ∈ element.stages ∨
      ∃ n, opened < n ∧ n ≤ opened + element.branchCount ∧ name = fanOutName n)
  | .stage _ => by
    simp only [Element.nodes, Element.stages, Element.branchCount]
    refine ⟨.inl, fun either => either.elim id fun ⟨n, low, high, _⟩ => by omega⟩
  | .branch inner => by
    simp only [Element.nodes, Element.stages, Element.branchCount, List.mem_cons,
      mem_nodesOf (opened + 1) name inner]
    constructor
    · rintro (rfl | inside | ⟨n, low, high, rfl⟩)
      · exact .inr ⟨_, by omega, by omega, rfl⟩
      · exact .inl inside
      · exact .inr ⟨n, by omega, by omega, rfl⟩
    · rintro (inside | ⟨n, low, high, rfl⟩)
      · exact .inr (.inl inside)
      · by_cases first : n = opened + 1
        · exact .inl (congrArg fanOutName first)
        · exact .inr (.inr ⟨n, by omega, by omega, rfl⟩)

theorem mem_nodesOf (opened : Nat) (name : String) : (route : List Element) →
    (name ∈ nodesOf opened route ↔ name ∈ stagesOf route ∨
      ∃ n, opened < n ∧ n ≤ opened + branchCountOf route ∧ name = fanOutName n)
  | [] => by
    simp only [nodesOf, stagesOf, branchCountOf]
    refine ⟨.inl, fun either => either.elim id fun ⟨n, low, high, _⟩ => by omega⟩
  | element :: rest => by
    simp only [nodesOf, stagesOf, branchCountOf, List.mem_append, mem_nodes opened name element,
      mem_nodesOf (opened + element.branchCount) name rest]
    constructor
    · rintro ((here | ⟨n, low, high, rfl⟩) | later | ⟨n, low, high, rfl⟩)
      · exact .inl (.inl here)
      · exact .inr ⟨n, low, by omega, rfl⟩
      · exact .inl (.inr later)
      · exact .inr ⟨n, by omega, by omega, rfl⟩
    · rintro ((here | later) | ⟨n, low, high, rfl⟩)
      · exact .inl (.inl here)
      · exact .inr (.inl later)
      · by_cases within : n ≤ opened + element.branchCount
        · exact .inl (.inr ⟨n, low, within, rfl⟩)
        · exact .inr (.inr ⟨n, by omega, by omega, rfl⟩)

end

theorem distinct_nodup {α : Type} [DecidableEq α] (items : List α) : (distinct items).Nodup := by
  have from' (rest found : List α) (apart : found.Nodup) :
      (rest.foldl (fun found x => if x ∈ found then found else found ++ [x]) found).Nodup := by
    induction rest generalizing found with
    | nil => exact apart
    | cons x rest ih =>
      refine ih _ ?_
      dsimp only
      split
      next => exact apart
      next new => exact (List.nodup_cons.mpr ⟨new, apart⟩).perm (List.perm_append_singleton x found).symm
  exact from' items [] List.nodup_nil

theorem read_names_nodup {text : String} {plan : Plan} (done : Plan.read text = .ok plan) :
    plan.names.Nodup := by
  obtain ⟨route, -, rfl⟩ := (Plan.read_ok_iff text plan).mp done
  exact distinct_nodup _

theorem isFanOutName_fanOutName (n : Nat) : isFanOutName (fanOutName n) = true := by
  unfold isFanOutName fanOutName
  rw [List.isPrefixOf_iff_prefix, String.append_assoc, String.toList_append]
  exact List.prefix_append _ _

/-- The nodes that are taken for fan-outs are those of the branches, and those that were written with
such a name. -/
theorem mem_fanOuts_iff {route : List Element} (proper : ProperRoute route) (name : String) :
    name ∈ (Plan.ofElements route).fanOuts ↔
      (isFanOutName name = true ∧ name ∈ (stagesOf route).map Literal.bareName) ∨
        ∃ i, i < (branchesOf route).length ∧ name = fanOutName (i + 1) := by
  unfold Plan.fanOuts
  rw [List.mem_filter, mem_ofElements_names proper, branchesOf_length]
  constructor
  · rintro ⟨listed, forks⟩
    obtain ⟨reference, node, rfl⟩ := List.mem_map.mp listed
    rcases (mem_nodesOf 0 reference route).mp node with stage | ⟨n, low, high, rfl⟩
    · exact .inl ⟨forks, List.mem_map_of_mem stage⟩
    · obtain ⟨i, rfl⟩ := Nat.exists_eq_add_of_lt low
      exact .inr ⟨i, by omega, by rw [bareName_fanOutName, Nat.zero_add]⟩
  · rintro (⟨forks, listed⟩ | ⟨i, within, rfl⟩)
    · obtain ⟨reference, stage, rfl⟩ := List.mem_map.mp listed
      exact ⟨List.mem_map_of_mem ((mem_nodesOf 0 reference route).mpr (.inl stage)), forks⟩
    · refine ⟨List.mem_map.mpr ⟨fanOutName (i + 1), ?_, bareName_fanOutName _⟩,
        isFanOutName_fanOutName _⟩
      exact (mem_nodesOf 0 _ route).mpr (.inr ⟨i + 1, by omega, by omega, rfl⟩)

end Sluice.Route
