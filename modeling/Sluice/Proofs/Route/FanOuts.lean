import Mathlib.Data.List.Nodup
import Sluice.Proofs.Route.Edges

set_option autoImplicit false

namespace Sluice.Route

theorem fanOutName_injective : Function.Injective fanOutName := by
  intro m n same
  -- A zero in front does not change what the digits read as.
  have read (k : Nat) :
      Nat.ofDigitChars 10 ((fanOutName k).toList.drop fanOutStart.toList.length) 0 = k := by
    rw [fanOutName, String.append_assoc, String.toList_append, List.drop_left, String.toList_append,
      Nat.toString_eq_ofList_toDigits, String.toList_ofList]
    split <;> simp [Nat.ofDigitChars_cons]
  rw [← read m, same, read n]

def Hop.isBranch (hop : Hop) : Bool := hop.edge = .branch

mutual

theorem branch_sources (opened : Nat) (next : Option String) : (element : Element) →
    ((element.edges opened next).filter Hop.isBranch).map Hop.source =
      (List.range' (opened + 1) element.branchCount).map fanOutName
  | .stage _ => rfl
  | .branch inner => by
    have inside := branchesOf_sources (opened + 1) inner
    simp [Element.edges, Element.branchCount, Hop.isBranch, List.range'_succ] at inside ⊢
    exact inside

theorem branchesOf_sources (opened : Nat) : (route : List Element) →
    ((edgesOf opened route).filter Hop.isBranch).map Hop.source =
      (List.range' (opened + 1) (branchCountOf route)).map fanOutName
  | [] => rfl
  | element :: rest => by
    rw [edgesOf, List.filter_append, List.map_append, branch_sources, branchesOf_sources,
      branchCountOf, ← List.map_append, ← List.range'_append_1, Nat.add_right_comm]

end

theorem read_branch_unique {text : String} {plan : Plan} (done : Plan.read text = .ok plan)
    {hop other : Hop} (member : hop ∈ plan.hops) (member' : other ∈ plan.hops)
    (branch : hop.edge = .branch) (branch' : other.edge = .branch)
    (same : Literal.bareName hop.source = Literal.bareName other.source) : hop = other := by
  obtain ⟨route, parsed, rfl⟩ := (Plan.read_ok_iff text plan).mp done
  rw [ofElements_hops ((read_ok_iff text route).mp parsed).1, List.mem_eraseDups] at member member'
  have listed : hop ∈ (edgesOf 0 route).filter Hop.isBranch :=
    List.mem_filter.mpr ⟨member, decide_eq_true branch⟩
  have listed' : other ∈ (edgesOf 0 route).filter Hop.isBranch :=
    List.mem_filter.mpr ⟨member', decide_eq_true branch'⟩
  have sources := branchesOf_sources 0 route
  -- The source of a branch is the name of a fan-out, which has no values.
  have plain {hop : Hop} (listed : hop ∈ (edgesOf 0 route).filter Hop.isBranch) :
      Literal.bareName hop.source = hop.source := by
    have named := List.mem_map_of_mem (f := Hop.source) listed
    rw [sources] at named
    obtain ⟨n, -, named⟩ := List.mem_map.mp named
    rw [← named, bareName_fanOutName]
  have distinct : (((edgesOf 0 route).filter Hop.isBranch).map Hop.source).Nodup := by
    rw [sources]
    have counted : (List.range' 1 (branchCountOf route)).Nodup := List.nodup_range'
    exact counted.map fanOutName_injective
  rw [plain listed, plain listed'] at same
  exact List.inj_on_of_nodup_map distinct listed listed' same

mutual

def Element.stages : Element → List String
  | .stage reference => [reference]
  | .branch inner => stagesOf inner

def stagesOf : List Element → List String
  | [] => []
  | element :: rest => element.stages ++ stagesOf rest

end

theorem Walk.stage_references (w : Walk) (reference : String) :
    (w.stage reference).draft.references = w.draft.references ++ [reference] := by
  unfold Walk.stage
  cases w.previous <;> rfl

theorem elements_references (w : Walk) (ready : Bool) : (route : List Element) →
    ProperFrom ready route → (ready = true → w.previous.isSome) →
    (Walk.elements w route).finish.2.references = w.draft.references ++ stagesOf route
  | [], _, _ => by
    cases behind : w.previous <;>
      simp [Walk.elements, Walk.finish, behind, Draft.hop, stagesOf]
  | .stage reference :: rest, proper, _ => by
    have later := elements_references (w.stage reference) true rest proper.2.2 fun _ => by simp
    rw [Walk.stage_references] at later
    simpa [Walk.elements, Walk.element, stagesOf, Element.stages] using later
  | .branch inner :: rest, proper, ready => by
    obtain ⟨source, before⟩ := Option.isSome_iff_exists.mp (ready (proper.1 rfl))
    have inside := elements_references (.start (Walk.fanOut source w.draft).2) false inner
      proper.2.1.2 (by simp)
    have opened : (w.element (.branch inner)).draft.references =
        w.draft.references ++ stagesOf inner := by
      rw [Walk.element_branch before proper.2.1]
      exact inside
    rw [Walk.elements, elements_references (w.element (.branch inner)) false rest proper.2.2 (by simp),
      opened]
    simp [stagesOf, Element.stages]

theorem ofElements_references {route : List Element} (proper : ProperRoute route) :
    (Plan.ofElements route).references = stagesOf route := by
  have read := elements_references (.start .empty) false route proper.2 (by simp)
  simpa [Plan.ofElements, Draft.plan, Walk.start, Draft.empty] using read

theorem headOf_stage {route : List Element} {reference : String}
    (head : headOf route = some reference) : reference ∈ stagesOf route := by
  cases route with
  | nil => cases head
  | cons element rest =>
    cases element with
    | stage _ => simp_all [headOf, stagesOf, Element.stages]
    | branch _ => cases head

theorem follower_stage {opened : Nat} {route : List Element} {reference : String}
    (proper : ProperFrom false route) (next : follower opened route = some reference) :
    reference ∈ stagesOf route := by
  cases route with
  | nil => cases next
  | cons element rest =>
    cases element with
    | stage _ => simp_all [follower, stagesOf, Element.stages]
    | branch _ => exact absurd (proper.1 rfl) (by decide)

mutual

theorem branch_target (opened : Nat) (next : Option String) : (element : Element) →
    element.Proper → ∀ hop ∈ element.edges opened next,
    hop.source ∈ element.stages ∨ ∀ reference, hop.target = some reference →
      element.isBranch = true ∧ next = some reference ∨ reference ∈ element.stages
  | .stage _, _, hop, member => by
    obtain rfl := List.mem_singleton.mp member
    exact .inl (List.mem_singleton_self _)
  | .branch inner, proper, hop, member => by
    rcases List.mem_cons.mp member with rfl | member
    · exact .inr fun reference head => .inr (headOf_stage head)
    · rcases List.mem_cons.mp member with rfl | member
      · exact .inr fun reference target => .inl ⟨rfl, target⟩
      · exact (branchesOf_target (opened + 1) false inner proper.2 hop member).imp_right
          fun leads reference target => .inr (leads reference target)

theorem branchesOf_target (opened : Nat) (ready : Bool) : (route : List Element) →
    ProperFrom ready route → ∀ hop ∈ edgesOf opened route,
    hop.source ∈ stagesOf route ∨
      ∀ reference, hop.target = some reference → reference ∈ stagesOf route
  | [], _, _, member => by cases member
  | element :: rest, proper, hop, member => by
    rw [stagesOf, List.mem_append]
    rcases List.mem_append.mp member with member | member
    · refine (branch_target opened _ element proper.2.1 hop member).imp .inl
        fun leads reference target => ?_
      rw [List.mem_append]
      rcases leads reference target with ⟨branch, next⟩ | inside
      · have later := proper.2.2
        rw [branch] at later
        exact .inr (follower_stage later next)
      · exact .inl inside
    · refine (branchesOf_target _ _ rest proper.2.2 hop member).imp .inr
        fun leads reference target => ?_
      exact List.mem_append_right _ (leads reference target)

end

/-- An edge out of a fan-out leads to a stage as it was written, and so does the way in, as long as
no stage was written with the name of a fan-out. -/
theorem read_stages {text : String} {plan : Plan} (done : Plan.read text = .ok plan)
    (written : ∀ reference ∈ plan.references, isFanOutName (Literal.bareName reference) = false) :
    (∀ hop ∈ plan.hops, isFanOutName (Literal.bareName hop.source) = true →
      ∀ reference, hop.target = some reference →
        isFanOutName (Literal.bareName reference) = false) ∧
    ∀ hop, plan.hops.head? = some hop →
      isFanOutName (Literal.bareName hop.source) = false := by
  obtain ⟨route, parsed, rfl⟩ := (Plan.read_ok_iff text plan).mp done
  have proper := ((read_ok_iff text route).mp parsed).1
  rw [ofElements_references proper] at written
  rw [ofElements_hops proper]
  refine ⟨fun hop member forks reference target => ?_, fun hop first => ?_⟩
  · rcases branchesOf_target 0 false route proper.2 hop (List.mem_eraseDups.mp member) with
      starts | leads
    · rw [written _ starts] at forks
      cases forks
    · exact written _ (leads reference target)
  · obtain ⟨filled, proper⟩ := proper
    cases route with
    | nil => exact absurd rfl filled
    | cons element rest =>
      cases element with
      | branch inner => exact absurd (proper.1 rfl) (by decide)
      | stage reference =>
        simp only [edgesOf, Element.edges, List.singleton_append, List.eraseDups_cons,
          List.head?_cons, Option.some.injEq] at first
        subst first
        exact written reference (by simp [stagesOf, Element.stages])

end Sluice.Route
