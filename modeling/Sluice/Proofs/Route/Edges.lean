import Sluice.Proofs.Route.Grammar
import Sluice.Route.Plan

set_option autoImplicit false

namespace Sluice.Route

theorem insertBy_perm {α : Type} (key : α → Nat) (x : α) (items : List α) :
    (insertBy key x items).Perm (x :: items) := by
  induction items with
  | nil => exact .refl _
  | cons y rest ih =>
    unfold insertBy
    split
    · exact .refl _
    · exact (ih.cons y).trans (.swap x y rest)

theorem insertBy_sorted {α : Type} (key : α → Nat) (x : α) {items : List α}
    (sorted : items.Pairwise fun a b => key a ≤ key b) :
    (insertBy key x items).Pairwise fun a b => key a ≤ key b := by
  induction items with
  | nil => simp [insertBy]
  | cons y rest ih =>
    have ⟨first, later⟩ := List.pairwise_cons.mp sorted
    unfold insertBy
    split
    next le =>
      refine List.pairwise_cons.mpr ⟨fun z member => ?_, sorted⟩
      rcases List.mem_cons.mp member with rfl | member
      · exact le
      · exact Nat.le_trans le (first z member)
    next gt =>
      refine List.pairwise_cons.mpr ⟨fun z member => ?_, ih later⟩
      rcases List.mem_cons.mp ((insertBy_perm key x rest).mem_iff.mp member) with rfl | member
      · omega
      · exact first z member

theorem sortBy_perm {α : Type} (key : α → Nat) (items : List α) :
    (sortBy key items).Perm items := by
  induction items with
  | nil => exact .refl _
  | cons x rest ih => exact (insertBy_perm key x _).trans (ih.cons x)

theorem sortBy_sorted {α : Type} (key : α → Nat) (items : List α) :
    (sortBy key items).Pairwise fun a b => key a ≤ key b := by
  induction items with
  | nil => exact .nil
  | cons x rest ih => exact insertBy_sorted key x ih

theorem eq_of_strict {α : Type} {key : α → Nat} {items : List α}
    (strict : items.Pairwise fun a b => key a < key b) {a b : α} (am : a ∈ items)
    (bm : b ∈ items) (same : key a = key b) : a = b := by
  obtain ⟨i, hi, rfl⟩ := List.mem_iff_getElem.mp am
  obtain ⟨j, hj, rfl⟩ := List.mem_iff_getElem.mp bm
  have rising := List.pairwise_iff_getElem.mp strict
  rcases Nat.lt_trichotomy i j with lt | rfl | lt
  · have := rising i j hi hj lt
    omega
  · rfl
  · have := rising j i hj hi lt
    omega

theorem sortBy_eq_of_perm {α : Type} (key : α → Nat) {items rising : List α}
    (perm : items.Perm rising) (strict : rising.Pairwise fun a b => key a < key b) :
    sortBy key items = rising := by
  have same := (sortBy_perm key items).trans perm
  -- Both lists are sorted, and of equal keys there is only one item.
  refine List.Perm.eq_of_pairwise ?_ (sortBy_sorted key items)
    (strict.imp fun lt => Nat.le_of_lt lt) same
  intro a b am bm ab ba
  exact eq_of_strict strict (same.mem_iff.mp am) bm (Nat.le_antisymm ab ba)

theorem distinct_from {α : Type} [DecidableEq α] (items found : List α) :
    items.foldl (fun found x => if x ∈ found then found else found ++ [x]) found =
      found ++ (items.filter (· ∉ found)).eraseDups := by
  induction items generalizing found with
  | nil => simp
  | cons x rest ih =>
    rw [List.foldl_cons]
    by_cases old : x ∈ found
    · simp [old, ih]
    · have both (y : α) : (y ∉ found ++ [x]) = (y ≠ x ∧ y ∉ found) := by
        simp [and_comm]
      simp only [old, if_false, ih, both]
      have differs (y : α) : (!y == x) = !decide (y = x) := rfl
      simp [old, List.eraseDups_cons, List.filter_filter, differs]

theorem distinct_eq_eraseDups {α : Type} [DecidableEq α] (items : List α) :
    distinct items = items.eraseDups := by
  have all : items.filter (· ∉ ([] : List α)) = items := List.filter_eq_self.mpr (by simp)
  have folded := distinct_from items []
  rwa [all] at folded

theorem mem_distinct {α : Type} [DecidableEq α] (x : α) (items : List α) :
    x ∈ distinct items ↔ x ∈ items := by
  rw [distinct_eq_eraseDups, List.mem_eraseDups]

mutual

def Element.stageCount : Element → Nat
  | .stage _ => 1
  | .branch inner => stageCountOf inner

def stageCountOf : List Element → Nat
  | [] => 0
  | element :: rest => element.stageCount + stageCountOf rest

end

mutual

def Element.branchCount : Element → Nat
  | .stage _ => 0
  | .branch inner => branchCountOf inner + 1

def branchCountOf : List Element → Nat
  | [] => 0
  | element :: rest => element.branchCount + branchCountOf rest

end

def headOf : List Element → Option String
  | .stage reference :: _ => some reference
  | _ => none

def follower (opened : Nat) : List Element → Option String
  | [] => none
  | .stage reference :: _ => some reference
  | .branch _ :: _ => some (fanOutName (opened + 1))

mutual

def Element.edges (opened : Nat) (next : Option String) : Element → List Hop
  | .stage reference => [⟨reference, .main, next⟩]
  | .branch inner =>
    ⟨fanOutName (opened + 1), .branch, headOf inner⟩ ::
      ⟨fanOutName (opened + 1), .main, next⟩ :: edgesOf (opened + 1) inner

def edgesOf (opened : Nat) : List Element → List Hop
  | [] => []
  | element :: rest =>
    element.edges opened (follower (opened + element.branchCount) rest) ++
      edgesOf (opened + element.branchCount) rest

end

mutual

def Element.nodes (opened : Nat) : Element → List String
  | .stage reference => [reference]
  | .branch inner => fanOutName (opened + 1) :: nodesOf (opened + 1) inner

def nodesOf (opened : Nat) : List Element → List String
  | [] => []
  | element :: rest => element.nodes opened ++ nodesOf (opened + element.branchCount) rest

end

def Hop.ends (hop : Hop) : List String := hop.source :: hop.target.toList

-- The edges once more, with the positions at which the walk puts them.
mutual

def Element.tagged (position opened : Nat) (next : Option String) : Element → List (Tagged Hop)
  | .stage reference => [⟨position + 10, ⟨reference, .main, next⟩⟩]
  | .branch inner =>
    ⟨position + 5, ⟨fanOutName (opened + 1), .branch, headOf inner⟩⟩ ::
      ⟨position + 5, ⟨fanOutName (opened + 1), .main, next⟩⟩ :: taggedOf position (opened + 1) inner

def taggedOf (position opened : Nat) : List Element → List (Tagged Hop)
  | [] => []
  | element :: rest =>
    element.tagged position opened (follower (opened + element.branchCount) rest) ++
      taggedOf (position + 10 * element.stageCount) (opened + element.branchCount) rest

end

mutual

theorem tagged_item (position opened : Nat) (next : Option String) : (element : Element) →
    (element.tagged position opened next).map Tagged.item = element.edges opened next
  | .stage _ => rfl
  | .branch inner => by
    simp [Element.tagged, Element.edges, taggedOf_item position (opened + 1) inner]

theorem taggedOf_item (position opened : Nat) : (route : List Element) →
    (taggedOf position opened route).map Tagged.item = edgesOf opened route
  | [] => rfl
  | element :: rest => by
    simp [taggedOf, edgesOf, tagged_item _ _ _ element, taggedOf_item _ _ rest]

end

theorem hopKey_main (position : Nat) (source : String) (target : Option String) :
    hopKey ⟨position, ⟨source, .main, target⟩⟩ = 2 * position + 1 := rfl

theorem hopKey_branch (position : Nat) (source : String) (target : Option String) :
    hopKey ⟨position, ⟨source, .branch, target⟩⟩ = 2 * position := rfl

def Between (low high : Nat) (hops : List (Tagged Hop)) : Prop :=
  hops.Pairwise (fun a b => hopKey a < hopKey b) ∧
    ∀ hop ∈ hops, low < hopKey hop ∧ hopKey hop ≤ high

theorem Between.cons {low middle high : Nat} {hop : Tagged Hop} {rest : List (Tagged Hop)}
    (first : low < hopKey hop) (next : hopKey hop ≤ middle) (top : middle ≤ high)
    (later : Between middle high rest) : Between low high (hop :: rest) := by
  refine ⟨List.pairwise_cons.mpr ⟨fun other member => ?_, later.1⟩, fun other member => ?_⟩
  · have := later.2 other member
    omega
  · rcases List.mem_cons.mp member with rfl | member
    · omega
    · have := later.2 other member
      omega

theorem Between.append {low middle high : Nat} {left right : List (Tagged Hop)}
    (first : Between low middle left) (under : low ≤ middle) (top : middle ≤ high)
    (later : Between middle high right) : Between low high (left ++ right) := by
  refine ⟨List.pairwise_append.mpr ⟨first.1, later.1, fun a am b bm => ?_⟩, fun hop member => ?_⟩
  · have := first.2 a am
    have := later.2 b bm
    omega
  · rcases List.mem_append.mp member with member | member
    · have := first.2 hop member
      omega
    · have := later.2 hop member
      omega

theorem taggedOf_between (position opened : Nat) (ready : Bool) : (route : List Element) →
    ProperFrom ready route →
    Between (2 * position + if ready then 1 else 11)
      (2 * (position + 10 * stageCountOf route) + 11) (taggedOf position opened route)
  | [], _ => by simp [taggedOf, Between]
  | .stage reference :: rest, proper => by
    -- The fan-out behind this stage has its edges before the next stage has its own.
    have later := taggedOf_between (position + 10) opened true rest proper.2.2
    have total : position + 10 * (1 + stageCountOf rest) =
        position + 10 + 10 * stageCountOf rest := by omega
    simp only [taggedOf, Element.tagged, Element.stageCount, Element.branchCount, stageCountOf,
      List.singleton_append, Nat.mul_one, Nat.add_zero, total]
    refine Between.cons ?_ ?_ ?_ later
    · rw [hopKey_main]
      split <;> omega
    · rw [hopKey_main]
      simp
    · rw [if_pos rfl]
      omega
  | .branch inner :: rest, proper => by
    obtain rfl : ready = true := proper.1 rfl
    -- Inside the branch the position is still that of the stage before it.
    have inside := taggedOf_between position (opened + 1) false inner proper.2.1.2
    have later := taggedOf_between (position + 10 * stageCountOf inner)
      (opened + (branchCountOf inner + 1)) false rest proper.2.2
    have total : position + 10 * (stageCountOf inner + stageCountOf rest) =
        position + 10 * stageCountOf inner + 10 * stageCountOf rest := by omega
    simp only [taggedOf, Element.tagged, Element.stageCount, Element.branchCount, stageCountOf,
      List.cons_append, total]
    have whole := inside.append (by simp only [Bool.false_eq_true, if_false]; omega) (by omega)
      later
    refine Between.cons ?_ (Nat.le_refl _) ?_ (Between.cons ?_ ?_ ?_ whole)
    all_goals simp only [hopKey_main, hopKey_branch, Bool.false_eq_true, if_false, if_true]
    all_goals omega

def Walk.pending (w : Walk) (next : Option String) : List (Tagged Hop) :=
  match w.previous with
  | some source => [⟨source.position, ⟨source.item, .main, next⟩⟩]
  | none => []

@[simp] theorem Walk.stage_previous (w : Walk) (reference : String) :
    (w.stage reference).previous = some ⟨w.draft.position + 10, reference⟩ := rfl

@[simp] theorem Walk.stage_position (w : Walk) (reference : String) :
    (w.stage reference).draft.position = w.draft.position + 10 := by
  unfold Walk.stage
  cases w.previous <;> rfl

@[simp] theorem Walk.stage_count (w : Walk) (reference : String) :
    (w.stage reference).draft.fanOutCount = w.draft.fanOutCount := by
  unfold Walk.stage
  cases w.previous <;> rfl

@[simp] theorem Walk.stage_names (w : Walk) (reference : String) :
    (w.stage reference).draft.names =
      w.draft.names ++ [⟨w.draft.position + 10, Literal.bareName reference⟩] := by
  unfold Walk.stage
  cases w.previous <;> rfl

@[simp] theorem Walk.stage_hops (w : Walk) (reference : String) :
    (w.stage reference).draft.hops = w.draft.hops ++ w.pending (some reference) := by
  unfold Walk.stage Walk.pending
  cases w.previous <;> simp [Draft.hop]

theorem bareName_fanOutName (n : Nat) : Literal.bareName (fanOutName n) = fanOutName n := by
  have plain : ∀ c ∈ (fanOutName n).toList, (c != ':') = true := by
    intro c member
    -- Only a colon could end the name early, and no part has one.
    have zero : (if n < 10 then "0" else "").toList.all (· != ':') = true := by
      split <;> rfl
    have start : fanOutStart.toList.all (· != ':') = true := by rfl
    have digits : ∀ c ∈ (toString n).toList, c ≠ ':' := by
      intro c member
      rw [Nat.toString_eq_repr, Nat.repr_eq_ofList_toDigits, String.toList_ofList] at member
      have digit := Nat.isDigit_of_mem_toDigits (by decide) (by decide) member
      rintro rfl
      exact absurd digit (by decide)
    simp only [fanOutName, String.toList_append, List.mem_append, bne_iff_ne] at member ⊢
    rcases member with (member | member) | member
    · exact bne_iff_ne.mp (List.all_eq_true.mp start c member)
    · exact bne_iff_ne.mp (List.all_eq_true.mp zero c member)
    · exact digits c member
  rw [Literal.bareName, Text.before, List.takeWhile_eq_self_iff.mpr plain, String.ofList_toList]

theorem Walk.element_head (w : Walk) (element : Element) {reference : String}
    (started : w.head = some reference) : (w.element element).head = some reference := by
  cases element with
  | stage _ => simp [Walk.element, Walk.stage, started]
  | branch inner =>
    unfold Walk.element
    split
    · exact started
    · exact started

theorem Walk.elements_head (w : Walk) (route : List Element) {reference : String}
    (started : w.head = some reference) : (Walk.elements w route).head = some reference := by
  induction route generalizing w with
  | nil => exact started
  | cons element rest ih => exact ih (w.element element) (w.element_head element started)

theorem Walk.finish_head (draft : Draft) {route : List Element} (proper : ProperRoute route) :
    some (Walk.elements (.start draft) route).finish.1 = headOf route := by
  obtain ⟨filled, proper⟩ := proper
  cases route with
  | nil => exact absurd rfl filled
  | cons element rest =>
    cases element with
    | branch inner => exact absurd (proper.1 rfl) (by decide)
    | stage reference =>
      have head : (Walk.elements ((Walk.start draft).stage reference) rest).head = some reference :=
        Walk.elements_head _ rest rfl
      simp [Walk.finish, Walk.elements, Walk.element, head, headOf]

structure Walked (w : Walk) (route : List Element) (d : Draft) : Prop where
  position : d.position = w.draft.position + 10 * stageCountOf route
  count : d.fanOutCount = w.draft.fanOutCount + branchCountOf route
  names : d.names.map Tagged.item =
    w.draft.names.map Tagged.item ++ (nodesOf w.draft.fanOutCount route).map Literal.bareName
  hops : d.hops.Perm (w.draft.hops ++ w.pending (follower w.draft.fanOutCount route) ++
    taggedOf w.draft.position w.draft.fanOutCount route)

theorem Walked.nil (w : Walk) : Walked w [] (Walk.elements w []).finish.2 := by
  refine ⟨?_, ?_, ?_, ?_⟩ <;>
    (cases behind : w.previous <;>
      simp [Walk.elements, Walk.finish, Walk.pending, behind, Draft.hop, stageCountOf,
        branchCountOf, nodesOf, taggedOf, follower])

theorem Walked.stage {w : Walk} {reference : String} {rest : List Element} {d : Draft}
    (later : Walked (w.stage reference) rest d) : Walked w (.stage reference :: rest) d := by
  obtain ⟨position, count, names, hops⟩ := later
  simp only [Walk.stage_position, Walk.stage_count, Walk.stage_names, Walk.stage_hops]
    at position count names hops
  refine ⟨?_, ?_, ?_, ?_⟩
  · rw [position, stageCountOf, Element.stageCount]
    omega
  · simp [count, branchCountOf, Element.branchCount]
  · simp [names, nodesOf, Element.nodes, Element.branchCount]
  · simpa [Walk.pending, follower, taggedOf, Element.tagged, Element.branchCount,
      Element.stageCount] using hops

theorem Walk.element_branch {w : Walk} {source : Tagged String} {inner : List Element}
    (before : w.previous = some source) (proper : ProperRoute inner) :
    w.element (.branch inner) =
      { w with
        previous := some (Walk.fanOut source w.draft).1
        draft := ((Walk.elements (.start (Walk.fanOut source w.draft).2) inner).finish.2.hop
          (Walk.fanOut source w.draft).1 .branch (headOf inner)) } := by
  rw [← Walk.finish_head (Walk.fanOut source w.draft).2 proper]
  unfold Walk.element
  rw [before]

theorem fan_out_first {α : Type} (before inside later : List α) (branch main : α) :
    (before ++ inside ++ [branch] ++ [main] ++ later).Perm
      (before ++ branch :: main :: (inside ++ later)) := by
  simp only [List.append_assoc, List.singleton_append]
  refine List.Perm.append_left before ?_
  exact List.perm_middle.trans (List.perm_middle.cons branch)

theorem Walked.branch {w : Walk} {inner rest : List Element} {reference : String} {d : Draft}
    (before : w.previous = some ⟨w.draft.position, reference⟩) (proper : ProperRoute inner)
    (inside : ∀ draft, Walked (.start draft) inner (Walk.elements (.start draft) inner).finish.2)
    (later : Walked (w.element (.branch inner)) rest d) : Walked w (.branch inner :: rest) d := by
  rw [Walk.element_branch before proper] at later
  -- The walk adds the edges of the branch first and those of its fan-out after them.
  have inside := inside (Walk.fanOut ⟨w.draft.position, reference⟩ w.draft).2
  generalize (Walk.elements _ inner).finish.2 = between at later inside
  obtain ⟨position, count, names, hops⟩ := later
  simp only [Draft.hop, Walk.fanOut, Walk.pending] at position count names hops inside
  obtain ⟨position', count', names', hops'⟩ := inside
  simp only [Walk.start, Walk.pending] at position' count' names' hops'
  have opened : w.draft.fanOutCount + (branchCountOf inner + 1) =
      w.draft.fanOutCount + 1 + branchCountOf inner := by omega
  rw [position'] at position hops
  rw [count'] at count names hops
  refine ⟨?_, ?_, ?_, ?_⟩
  · simp only [position, stageCountOf, Element.stageCount]
    omega
  · simp only [count, branchCountOf, Element.branchCount]
    omega
  · simp [names, names', nodesOf, Element.nodes, Element.branchCount, bareName_fanOutName, opened]
  · have moved := hops.trans
      ((((hops'.append_right _).append_right _).append_right _).trans (fan_out_first ..))
    simpa only [Walk.pending, follower, taggedOf, Element.tagged, Element.branchCount,
      Element.stageCount, before, opened, List.append_nil, List.cons_append] using moved

theorem walked (w : Walk) (ready : Bool) : (route : List Element) → ProperFrom ready route →
    (ready = true → ∃ reference, w.previous = some ⟨w.draft.position, reference⟩) →
    Walked w route (Walk.elements w route).finish.2
  | [], _, _ => .nil w
  | .stage reference :: rest, proper, _ =>
    .stage (walked (w.stage reference) true rest proper.2.2 fun _ => ⟨reference, by simp⟩)
  | .branch inner :: rest, proper, ready => by
    obtain ⟨reference, before⟩ := ready (proper.1 rfl)
    exact .branch before proper.2.1
      (fun draft => walked (.start draft) false inner proper.2.1.2 (by simp))
      (walked (w.element (.branch inner)) false rest proper.2.2 (by simp))

theorem ofElements_hops {route : List Element} (proper : ProperRoute route) :
    (Plan.ofElements route).hops = (edgesOf 0 route).eraseDups := by
  have done := walked (.start .empty) false route proper.2 (by simp)
  -- The keys rise in document order, so that sorting puts the edges back into it.
  have strict := (taggedOf_between 0 0 false route proper.2).1
  have sorted := sortBy_eq_of_perm hopKey done.hops strict
  simp only [Plan.ofElements, Draft.plan, distinct_eq_eraseDups, ← taggedOf_item 0 0 route]
  exact congrArg (fun hops => (hops.map Tagged.item).eraseDups) sorted

theorem mem_ofElements_names {route : List Element} (proper : ProperRoute route) (name : String) :
    name ∈ (Plan.ofElements route).names ↔ name ∈ (nodesOf 0 route).map Literal.bareName := by
  have done := (walked (.start .empty) false route proper.2 (by simp)).names
  have sorted := (sortBy_perm Tagged.position
    (Walk.elements (.start .empty) route).finish.2.names).map Tagged.item
  simp only [Plan.ofElements, Draft.plan, mem_distinct, sorted.mem_iff, done]
  rfl

theorem follower_mem (opened : Nat) {route : List Element} {name : String}
    (next : follower opened route = some name) : name ∈ nodesOf opened route := by
  cases route with
  | nil => cases next
  | cons element rest =>
    cases element <;> simp_all [follower, nodesOf, Element.nodes]

theorem headOf_mem (opened : Nat) {route : List Element} {name : String}
    (head : headOf route = some name) : name ∈ nodesOf opened route := by
  cases route with
  | nil => cases head
  | cons element rest =>
    cases element <;> simp_all [headOf, nodesOf, Element.nodes]

mutual

theorem source_mem (opened : Nat) (next : Option String) : (element : Element) →
    ∀ name, (∃ hop ∈ element.edges opened next, hop.source = name) ↔ name ∈ element.nodes opened
  | .stage _, name => by simp [Element.edges, Element.nodes, eq_comm]
  | .branch inner, name => by
    have inside := sourceOf_mem (opened + 1) inner name
    simp only [Element.edges, Element.nodes, List.mem_cons, ← inside]
    simp only [or_and_right, exists_or, exists_eq_left, eq_comm (a := name), or_self_left]

theorem sourceOf_mem (opened : Nat) : (route : List Element) →
    ∀ name, (∃ hop ∈ edgesOf opened route, hop.source = name) ↔ name ∈ nodesOf opened route
  | [], name => by simp [edgesOf, nodesOf]
  | element :: rest, name => by
    have here := source_mem opened (follower (opened + element.branchCount) rest) element name
    have later := sourceOf_mem (opened + element.branchCount) rest name
    simp only [edgesOf, nodesOf, List.mem_append, or_and_right, exists_or, here, later]

end

mutual

theorem target_mem (opened : Nat) (next : Option String) : (element : Element) →
    ∀ hop ∈ element.edges opened next, ∀ name, hop.target = some name →
      next = some name ∨ name ∈ element.nodes opened
  | .stage _, hop, member, name, target => by
    obtain rfl := List.mem_singleton.mp member
    exact .inl target
  | .branch inner, hop, member, name, target => by
    rcases List.mem_cons.mp member with rfl | member
    · exact .inr (List.mem_cons_of_mem _ (headOf_mem (opened + 1) target))
    · rcases List.mem_cons.mp member with rfl | member
      · exact .inl target
      · exact .inr (List.mem_cons_of_mem _ (targetOf_mem (opened + 1) inner hop member name target))

theorem targetOf_mem (opened : Nat) : (route : List Element) →
    ∀ hop ∈ edgesOf opened route, ∀ name, hop.target = some name → name ∈ nodesOf opened route
  | [], _, member, _, _ => by cases member
  | element :: rest, hop, member, name, target => by
    refine List.mem_append.mpr ?_
    rcases List.mem_append.mp member with member | member
    · rcases target_mem opened _ element hop member name target with next | inside
      · exact .inr (follower_mem _ next)
      · exact .inl inside
    · exact .inr (targetOf_mem _ rest hop member name target)

end

theorem mem_ends_iff (opened : Nat) (route : List Element) (name : String) :
    (∃ hop ∈ edgesOf opened route, name ∈ hop.ends) ↔ name ∈ nodesOf opened route := by
  constructor
  · rintro ⟨hop, member, either⟩
    rcases List.mem_cons.mp either with source | target
    · exact (sourceOf_mem opened route name).mp ⟨hop, member, source.symm⟩
    · exact targetOf_mem opened route hop member name (Option.mem_toList.mp target)
  · intro member
    obtain ⟨hop, edge, rfl⟩ := (sourceOf_mem opened route name).mpr member
    exact ⟨hop, edge, List.mem_cons_self⟩

theorem ofElements_names {route : List Element} (proper : ProperRoute route) (name : String) :
    name ∈ (Plan.ofElements route).names ↔
      ∃ hop ∈ (Plan.ofElements route).hops, name ∈ hop.ends.map Literal.bareName := by
  rw [mem_ofElements_names proper, ofElements_hops proper]
  simp only [List.mem_map, ← mem_ends_iff, List.mem_eraseDups]
  constructor
  · rintro ⟨reference, ⟨hop, member, either⟩, rfl⟩
    exact ⟨hop, member, reference, either, rfl⟩
  · rintro ⟨hop, member, reference, either, rfl⟩
    exact ⟨reference, ⟨hop, member, either⟩, rfl⟩

theorem read_names {text : String} {plan : Plan} (done : Plan.read text = .ok plan)
    (name : String) :
    name ∈ plan.names ↔ ∃ hop ∈ plan.hops, name ∈ hop.ends.map Literal.bareName := by
  obtain ⟨route, parsed, rfl⟩ := (Plan.read_ok_iff text plan).mp done
  exact ofElements_names ((read_ok_iff text route).mp parsed).1 name

end Sluice.Route
