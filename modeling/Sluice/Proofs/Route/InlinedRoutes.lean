import Sluice.Proofs.Route.RoundTrip
import Sluice.Proofs.Route.Spots

set_option autoImplicit false

namespace Sluice.Route

mutual

def Element.graft (rest : List Element) : Element → List Element
  | .stage reference => .stage reference :: rest
  | .branch inner => [.branch (graftOf rest inner)]

def graftOf (rest : List Element) : List Element → List Element
  | [] => rest
  | element :: more => if more.isEmpty then element.graft rest else element :: graftOf rest more

end

mutual

def Element.inline (name : String) (body rest : List Element) : Element → List Element
  | .stage reference =>
    if Literal.bareName reference = name then graftOf rest body else .stage reference :: rest
  | .branch inner => .branch (inlineOf name body inner) :: rest

def inlineOf (name : String) (body : List Element) : List Element → List Element
  | [] => []
  | element :: rest => element.inline name body (inlineOf name body rest)

end

theorem graftOf_cons (rest : List Element) (element : Element) {more : List Element}
    (filled : more ≠ []) : graftOf rest (element :: more) = element :: graftOf rest more := by
  rw [graftOf, List.isEmpty_eq_false_iff.mpr filled]
  rfl

mutual

theorem graft_filled (rest : List Element) : (element : Element) → element.graft rest ≠ []
  | .stage _ => List.cons_ne_nil _ _
  | .branch _ => List.cons_ne_nil _ _

theorem graftOf_filled (rest : List Element) : {body : List Element} → body ≠ [] →
    graftOf rest body ≠ []
  | [], filled => absurd rfl filled
  | element :: more, _ => by
    rw [graftOf]
    split
    · exact graft_filled rest element
    · exact List.cons_ne_nil _ _

end

mutual

theorem inline_absent {name : String} {body : List Element} (rest : List Element) :
    (element : Element) → name ∉ element.stages.map Literal.bareName →
      element.inline name body rest = element :: rest
  | .stage reference, absent => by
    rw [Element.inline, if_neg fun same => absent (by simp [Element.stages, same])]
  | .branch inner, absent => by
    rw [Element.inline, inlineOf_absent inner absent]

theorem inlineOf_absent {name : String} {body : List Element} : (route : List Element) →
    name ∉ (stagesOf route).map Literal.bareName → inlineOf name body route = route
  | [], _ => rfl
  | element :: rest, absent => by
    rw [stagesOf, List.map_append, List.mem_append, not_or] at absent
    rw [inlineOf, inlineOf_absent rest absent.2, inline_absent rest element absent.1]

end

mutual

theorem spotsOf_graft (start : Nat) (after : Option Nat) (rest : List Element) :
    (element : Element) → element.Proper → spotsOf start after (element.graft rest) =
      element.spots start none (if rest.isEmpty then after else some (start + element.width)) ++
        spotsOf (start + element.width) after rest
  | .stage reference, _ => by
    rw [Element.graft, spotsOf, Element.spots, Element.spots]
    cases rest <;> rfl
  | .branch inner, proper => by
    have filled := graftOf_filled rest proper.1
    have beyond : start + (Element.branch inner).width = start + 1 + widthOf inner := by
      rw [width_branch]
      omega
    rw [Element.graft, spotsOf, Element.spots, Element.spots, spotsOf, List.append_nil,
      List.isEmpty_eq_false_iff.mpr filled, List.isEmpty_eq_false_iff.mpr proper.1, beyond,
      List.cons_append, ← spotsOf_graftOf (start + 1) after rest false inner proper.2]
    rfl

theorem spotsOf_graftOf (start : Nat) (after : Option Nat) (rest : List Element) (ready : Bool) :
    (body : List Element) → ProperFrom ready body → spotsOf start after (graftOf rest body) =
      spotsOf start (if rest.isEmpty then after else some (start + widthOf body)) body ++
        spotsOf (start + widthOf body) after rest
  | [], _ => rfl
  | [element], proper => by
    have whole : widthOf [element] = element.width := by simp
    rw [whole]
    exact (spotsOf_graft start after rest element proper.2.1).trans (by simp [spotsOf])
  | element :: next :: more, proper => by
    have filled : next :: more ≠ [] := List.cons_ne_nil next more
    rw [graftOf_cons rest element filled, spotsOf,
      spotsOf_graftOf _ after rest _ (next :: more) proper.2.2,
      List.isEmpty_eq_false_iff.mpr (graftOf_filled rest filled), widthOf_cons element,
      ← Nat.add_assoc, ← List.append_assoc]
    rfl

end

def widened (place width i : Nat) : Nat := if i ≤ place then i else i + (width - 1)

def Spot.widened (place width : Nat) : Spot → Spot :=
  .move (Route.widened place width) (some ∘ Route.widened place width)

section

variable {place width start start' : Nat}

theorem spots_widened (onward : Nat) (element : Element)
    (shifts : ∀ i < element.width, widened place width (start + i) = start' + i) :
    element.spots start' (some (widened place width onward)) none =
      (element.spots start (some onward) none).map (.widened place width) := by
  have either : some onward = none ∨ (none : Option Nat) = none := .inr rfl
  exact spots_move (g := some ∘ widened place width) either element fun i low =>
    ⟨shifts i low, congrArg some (shifts i low)⟩

theorem spotsOf_widened (after : Option Nat) (route : List Element)
    (shifts : ∀ i < widthOf route, widened place width (start + i) = start' + i) :
    spotsOf start' (after.map (widened place width)) route =
      (spotsOf start after route).map (.widened place width) := by
  rw [Option.map_eq_bind]
  exact spotsOf_move after route fun i low => ⟨shifts i low, congrArg some (shifts i low)⟩

end

/-- A route stands in place of one node of another: at its end it leads to where that node led, and
the rest stays, in another numbering. -/
structure Splices (name : String) (body : List Element) (start : Nat) (after : Option Nat)
    (route : List Element) (before : List Spot) (here : Spot) (later : List Spot) : Prop where
  whole : spotsOf start after route = before ++ here :: later
  named : ∃ reference, here.reference = some reference ∧ Literal.bareName reference = name
  plain : here.branch = none
  inlined : spotsOf start (after.map (widened here.place (widthOf body))) (inlineOf name body route) =
    before.map (.widened here.place (widthOf body)) ++
      spotsOf here.place (here.main.map (widened here.place (widthOf body))) body ++
        later.map (.widened here.place (widthOf body))

theorem spotsOf_length (start : Nat) (after : Option Nat) (route : List Element) :
    (spotsOf start after route).length = widthOf route := by
  rw [← List.length_map Spot.place, spotsOf_places, List.length_range']

theorem spot_place {start : Nat} {after : Option Nat} {route : List Element} {s : Spot}
    (listed : s ∈ spotsOf start after route) : start ≤ s.place ∧ s.place < start + widthOf route := by
  have place := List.mem_map_of_mem (f := Spot.place) listed
  rwa [spotsOf_places, List.mem_range'_1] at place

mutual

theorem inline_filled {name : String} {body : List Element} (rest : List Element)
    (filled : body ≠ []) : (element : Element) → element.inline name body rest ≠ []
  | .stage _ => by
    rw [Element.inline]
    split
    · exact graftOf_filled rest filled
    · exact List.cons_ne_nil _ _
  | .branch _ => List.cons_ne_nil _ _

theorem inlineOf_filled {name : String} {body : List Element} (filled : body ≠ []) :
    {route : List Element} → route ≠ [] → inlineOf name body route ≠ []
  | [], empty => absurd rfl empty
  | element :: _, _ => inline_filled _ filled element

end

section

variable {name : String} {body route rest : List Element} {start : Nat} {after : Option Nat}
  {before later : List Spot} {here : Spot}

namespace Splices

theorem listed (splices : Splices name body start after route before here later) :
    here ∈ spotsOf start after route := by
  rw [splices.whole]
  exact List.mem_append_right _ List.mem_cons_self

theorem place (splices : Splices name body start after route before here later) :
    start ≤ here.place ∧ here.place < start + widthOf route := spot_place splices.listed

theorem width (splices : Splices name body start after route before here later)
    (filled : body ≠ []) :
    widthOf (inlineOf name body route) = widthOf route + (widthOf body - 1) := by
  have some' := widthOf_pos filled
  have old := congrArg List.length splices.whole
  have new := congrArg List.length splices.inlined
  simp only [spotsOf_length, List.length_append, List.length_map, List.length_cons] at old new
  omega

theorem first {reference : String} (named : Literal.bareName reference = name) {ready : Bool}
    (proper : ProperFrom ready body) (filled : body ≠ [])
    (absent : name ∉ (stagesOf rest).map Literal.bareName) :
    Splices name body start after (.stage reference :: rest) []
      ⟨start, some reference, if rest.isEmpty then after else some (start + 1), none⟩
      (spotsOf (start + 1) after rest) := by
  have some' := widthOf_pos filled
  have beyond (i : Nat) : widened start (widthOf body) (start + 1 + i) = start + widthOf body + i := by
    unfold widened
    split <;> omega
  have onward : (if rest.isEmpty then after.map (widened start (widthOf body)) else
      some (start + widthOf body)) =
        (if rest.isEmpty then after else some (start + 1)).map (widened start (widthOf body)) := by
    split
    · rfl
    · exact congrArg some (beyond 0).symm
  refine ⟨?_, ⟨reference, rfl, named⟩, rfl, ?_⟩
  · rw [spotsOf, Element.spots, width_stage]
    cases rest <;> rfl
  · rw [inlineOf, inlineOf_absent rest absent, Element.inline, if_pos named,
      spotsOf_graftOf start _ rest ready body proper, onward,
      spotsOf_widened after rest fun i _ => beyond i]
    rfl

theorem further {element : Element} (filled : body ≠ []) (next : rest ≠ [])
    (absent : name ∉ element.stages.map Literal.bareName)
    (splices : Splices name body (start + element.width) after rest before here later) :
    Splices name body start after (element :: rest)
      (element.spots start (some (start + element.width)) none ++ before) here later := by
  obtain ⟨low, high⟩ := splices.place
  -- The numbers up to the reference stay.
  have still (i : Nat) (within : i ≤ here.place) : widened here.place (widthOf body) i = i :=
    if_pos within
  have moved := spots_widened (start + element.width) element
    fun i within => still (start + i) (by omega)
  rw [still _ low] at moved
  refine ⟨?_, splices.named, splices.plain, ?_⟩
  · rw [spotsOf, splices.whole, List.isEmpty_eq_false_iff.mpr next, List.append_assoc]
    rfl
  · rw [inlineOf, inline_absent _ element absent, spotsOf, splices.inlined,
      List.isEmpty_eq_false_iff.mpr (inlineOf_filled filled next), List.map_append, ← moved]
    simp only [List.append_assoc]
    rfl

theorem inside {inner : List Element} (filled : body ≠ []) (proper : inner ≠ [])
    (absent : name ∉ (stagesOf rest).map Literal.bareName)
    (splices : Splices name body (start + 1) (if rest.isEmpty then after else none) inner
      before here later) :
    Splices name body start after (.branch inner :: rest)
      (⟨start, none, if rest.isEmpty then none else some (start + (Element.branch inner).width),
        some (start + 1)⟩ :: before) here
      (later ++ spotsOf (start + (Element.branch inner).width) after rest) := by
  obtain ⟨low, high⟩ := splices.place
  have some' := widthOf_pos filled
  -- Positions up to the place keep their number and later ones move by the width that was put in.
  have still (i : Nat) (within : i ≤ here.place) : widened here.place (widthOf body) i = i :=
    if_pos within
  have beyond (i : Nat) : widened here.place (widthOf body) (start + (Element.branch inner).width + i) =
      start + (Element.branch (inlineOf name body inner)).width + i := by
    rw [width_branch, width_branch, splices.width filled, widened, if_neg (by omega)]
    omega
  have onward : (if rest.isEmpty then none else
      some (start + (Element.branch (inlineOf name body inner)).width)) =
        (if rest.isEmpty then none else some (start + (Element.branch inner).width)).map
          (widened here.place (widthOf body)) := by
    split
    · rfl
    · exact congrArg some (beyond 0).symm
  have last : (if rest.isEmpty then after.map (widened here.place (widthOf body)) else none) =
      (if rest.isEmpty then after else none).map (widened here.place (widthOf body)) := by
    split <;> rfl
  have fork : Spot.widened here.place (widthOf body) ⟨start, none, if rest.isEmpty then none else
      some (start + (Element.branch inner).width), some (start + 1)⟩ =
        ⟨start, none, if rest.isEmpty then none else
          some (start + (Element.branch (inlineOf name body inner)).width), some (start + 1)⟩ := by
    rw [Spot.widened, Spot.move, ← Option.map_eq_bind, onward, still start (by omega),
      Option.bind_some, Function.comp_apply, still (start + 1) low]
  refine ⟨?_, splices.named, splices.plain, ?_⟩
  · rw [spotsOf, Element.spots, splices.whole, List.isEmpty_eq_false_iff.mpr proper]
    simp
  · rw [inlineOf, inlineOf_absent rest absent, Element.inline, spotsOf, Element.spots, last,
      splices.inlined, List.isEmpty_eq_false_iff.mpr (inlineOf_filled filled proper),
      spotsOf_widened after rest fun i _ => beyond i, List.map_cons, fork]
    simp

end Splices

theorem later_of_absent {element : Element}
    (there : name ∈ (stagesOf (element :: rest)).map Literal.bareName)
    (absent : name ∉ element.stages.map Literal.bareName) :
    rest ≠ [] ∧ name ∈ (stagesOf rest).map Literal.bareName := by
  rw [stagesOf, List.map_append, List.mem_append] at there
  have later := there.resolve_left absent
  refine ⟨?_, later⟩
  rintro rfl
  cases later

theorem inlineOf_splices {ready : Bool} (proper : ProperFrom ready body) (filled : body ≠ [])
    (start : Nat) (after : Option Nat) (from' : Bool) : (route : List Element) →
    ProperFrom from' route → ((stagesOf route).map Literal.bareName).Nodup →
    name ∈ (stagesOf route).map Literal.bareName →
      ∃ before here later, Splices name body start after route before here later
  | [], _, _, there => by cases there
  | .stage reference :: rest, whole, distinct, there => by
    rw [stagesOf, List.map_append] at distinct
    obtain ⟨-, later, apart⟩ := List.nodup_append.mp distinct
    by_cases named : Literal.bareName reference = name
    · exact ⟨_, _, _, .first named proper filled fun again =>
        apart _ (List.mem_singleton_self _) _ again named⟩
    · have absent : name ∉ (Element.stage reference).stages.map Literal.bareName :=
        fun here => named (List.mem_singleton.mp here).symm
      have ⟨next, there⟩ := later_of_absent there absent
      obtain ⟨before, here, tail, splices⟩ := inlineOf_splices proper filled _ after _ rest
        whole.2.2 later there
      exact ⟨_, here, tail, .further filled next absent splices⟩
  | .branch inner :: rest, whole, distinct, there => by
    rw [stagesOf, List.map_append] at distinct
    obtain ⟨within, later, apart⟩ := List.nodup_append.mp distinct
    by_cases inside : name ∈ (stagesOf inner).map Literal.bareName
    · obtain ⟨before, here, tail, splices⟩ := inlineOf_splices proper filled (start + 1)
        (if rest.isEmpty then after else none) false inner whole.2.1.2 within inside
      exact ⟨_, here, _, .inside filled whole.2.1.1 (fun again => apart _ inside _ again rfl) splices⟩
    · have ⟨next, there⟩ := later_of_absent there inside
      obtain ⟨before, here, tail, splices⟩ := inlineOf_splices proper filled _ after _ rest
        whole.2.2 later there
      exact ⟨_, here, tail, .further filled next inside splices⟩

def Spot.spliced (place width : Nat) (after : Option Nat) (s : Spot) : Spot :=
  ⟨place + s.place, s.reference, if s.place = width - 1 then after else s.main.map (place + ·),
    s.branch.map (place + ·)⟩

theorem spotsOf_spliced {ready : Bool} (proper : ProperFrom ready body) (place : Nat)
    (after : Option Nat) {s : Spot} (listed : s ∈ spotsOf 0 none body) :
    s.spliced place (widthOf body) after ∈ spotsOf place after body := by
  have filled : body ≠ [] := by
    rintro rfl
    cases listed
  obtain ⟨before, reference, last⟩ := spotsOf_ends place proper filled
  have shifts : Shifts (place + ·) (some ∘ (place + ·)) 0 place (widthOf body) := fun i _ => by simp
  have moved := spotsOf_move none body shifts
  have there := List.mem_map_of_mem (f := Spot.move (place + ·) (some ∘ (place + ·))) listed
  rw [← moved, Option.bind_none, last] at there
  have distinct := spotsOf_places place none body
  rw [last none, List.map_append] at distinct
  rw [last]
  rcases List.mem_append.mp there with inside | here
  · have early : s.place ≠ widthOf body - 1 := by
      intro same
      have apart : (before.map Spot.place ++ [place + (widthOf body - 1)]).Nodup :=
        distinct ▸ List.nodup_range'
      refine (List.nodup_append.mp apart).2.2 (place + s.place) (List.mem_map_of_mem inside) _
        (List.mem_singleton_self _) (by rw [same])
    refine List.mem_append_left _ ?_
    rw [Spot.spliced, if_neg early]
    simpa [Spot.move, Option.map_eq_bind] using inside
  · refine List.mem_append_right _ ?_
    obtain ⟨i, written, main, branch⟩ := s
    simp only [List.mem_singleton, Spot.move, Spot.mk.injEq, Nat.add_left_cancel_iff] at here
    obtain ⟨rfl, rfl, -, nowhere⟩ := here
    cases branch with
    | none => simp [Spot.spliced]
    | some _ => cases nowhere

namespace Splices

variable (splices : Splices name body 0 none route before here later)
include splices

theorem outer {s : Spot} (listed : s ∈ spotsOf 0 none route) (other : s.place ≠ here.place) :
    s.widened here.place (widthOf body) ∈ spotsOf 0 none (inlineOf name body route) := by
  have inlined := splices.inlined
  rw [Option.map_none] at inlined
  rw [splices.whole] at listed
  rw [inlined]
  rcases List.mem_append.mp listed with early | late
  · exact List.mem_append_left _ (List.mem_append_left _ (List.mem_map_of_mem early))
  · rcases List.mem_cons.mp late with rfl | late
    · exact absurd rfl other
    · exact List.mem_append_right _ (List.mem_map_of_mem late)

theorem inner {ready : Bool} (proper : ProperFrom ready body) {s : Spot}
    (listed : s ∈ spotsOf 0 none body) : s.spliced here.place (widthOf body)
      (here.main.map (widened here.place (widthOf body))) ∈
        spotsOf 0 none (inlineOf name body route) := by
  have inlined := splices.inlined
  rw [Option.map_none] at inlined
  rw [inlined]
  exact List.mem_append_left _ (List.mem_append_right _ (spotsOf_spliced proper _ _ listed))

theorem stages : ∃ earlier reference following, Literal.bareName reference = name ∧
    stagesOf route = earlier ++ reference :: following ∧
      stagesOf (inlineOf name body route) = earlier ++ stagesOf body ++ following := by
  obtain ⟨reference, written, named⟩ := splices.named
  have same (spots : List Spot) : (spots.map (Spot.widened here.place (widthOf body))).filterMap
      Spot.reference = spots.filterMap Spot.reference := List.filterMap_map
  refine ⟨before.filterMap Spot.reference, reference, later.filterMap Spot.reference, named, ?_, ?_⟩
  · rw [← spotsOf_references 0 none route, splices.whole, List.filterMap_append,
      List.filterMap_cons_some written]
  · have inlined := splices.inlined
    rw [Option.map_none] at inlined
    rw [← spotsOf_references 0 none (inlineOf name body route), inlined, List.filterMap_append,
      List.filterMap_append, same, same, spotsOf_references]

end Splices

structure Apart (route body : List Element) : Prop where
  stages : ((stagesOf route ++ stagesOf body).map Literal.bareName).Nodup
  written : ∀ reference ∈ stagesOf route ++ stagesOf body,
    isFanOutName (Literal.bareName reference) = false

namespace Apart

theorem outer (apart : Apart route body) : Distinct route where
  stages := by
    have stages := apart.stages
    rw [List.map_append] at stages
    exact (List.nodup_append.mp stages).1
  written reference listed := apart.written reference (List.mem_append_left _ listed)

theorem inner (apart : Apart route body) : Distinct body where
  stages := by
    have stages := apart.stages
    rw [List.map_append] at stages
    exact (List.nodup_append.mp stages).2.1
  written reference listed := apart.written reference (List.mem_append_right _ listed)

theorem ne (apart : Apart route body) {reference other : String} (listed : reference ∈ stagesOf route)
    (listed' : other ∈ stagesOf body) : Literal.bareName reference ≠ Literal.bareName other := by
  have stages := apart.stages
  rw [List.map_append] at stages
  exact (List.nodup_append.mp stages).2.2 _ (List.mem_map_of_mem listed) _ (List.mem_map_of_mem listed')

theorem flat (apart : Apart route body) (splices : Splices name body 0 none route before here later) :
    Distinct (inlineOf name body route) := by
  obtain ⟨earlier, reference, following, -, outer, flat⟩ := splices.stages
  have moved : (earlier ++ stagesOf body ++ following ++ [reference]).Perm
      (stagesOf route ++ stagesOf body) := by
    rw [outer]
    refine List.perm_iff_count.mpr fun x => ?_
    simp only [List.count_append, List.count_cons, List.count_nil]
    omega
  constructor
  · have stages := (moved.map Literal.bareName).nodup_iff.mpr apart.stages
    rw [flat]
    rw [List.map_append] at stages
    exact (List.nodup_append.mp stages).1
  · intro other listed
    rw [flat] at listed
    exact apart.written other (moved.subset (List.mem_append_left _ listed))

theorem filter_outer (apart : Apart route body)
    (splices : Splices name body 0 none route before here later) {reference : String}
    (listed : reference ∈ stagesOf route) (other : Literal.bareName reference ≠ name) :
    (stagesOf (inlineOf name body route)).filter
        (fun written => Literal.bareName written == Literal.bareName reference) =
      (stagesOf route).filter fun written => Literal.bareName written == Literal.bareName reference := by
  have none : (stagesOf body).filter
      (fun written => Literal.bareName written == Literal.bareName reference) = [] :=
    List.filter_eq_nil_iff.mpr fun written inside => by simpa using (apart.ne listed inside).symm
  obtain ⟨earlier, written, following, named, outer, flat⟩ := splices.stages
  have without : (written :: following).filter
      (fun written => Literal.bareName written == Literal.bareName reference) =
        following.filter fun written => Literal.bareName written == Literal.bareName reference :=
    List.filter_cons_of_neg (by simpa [named] using other.symm)
  rw [flat, outer, List.filter_append, List.filter_append, List.filter_append, none, List.append_nil,
    without]

theorem filter_inner (apart : Apart route body)
    (splices : Splices name body 0 none route before here later) {reference : String}
    (listed : reference ∈ stagesOf body) :
    (stagesOf (inlineOf name body route)).filter
        (fun written => Literal.bareName written == Literal.bareName reference) =
      (stagesOf body).filter fun written => Literal.bareName written == Literal.bareName reference := by
  obtain ⟨earlier, written, following, -, outer, flat⟩ := splices.stages
  have none {others : List String} (within : others ⊆ stagesOf route) : others.filter
      (fun written => Literal.bareName written == Literal.bareName reference) = [] :=
    List.filter_eq_nil_iff.mpr fun written inside => by simpa using apart.ne (within inside) listed
  have early : earlier ⊆ stagesOf route := outer ▸ List.subset_append_left _ _
  have late : following ⊆ stagesOf route := by
    rw [outer]
    exact fun x inside => List.mem_append_right _ (List.mem_cons_of_mem _ inside)
  rw [flat, List.filter_append, List.filter_append, none early, none late, List.nil_append,
    List.append_nil]

end Apart

end

theorem spot_at {route : List Element} {i : Nat} (within : i < widthOf route) :
    ∃ s ∈ spotsOf 0 none route, s.place = i := by
  have listed : i ∈ (spotsOf 0 none route).map Spot.place := by
    rw [spotsOf_places]
    exact List.mem_range'_1.mpr (by omega)
  obtain ⟨s, inside, same⟩ := List.mem_map.mp listed
  exact ⟨s, inside, same⟩

mutual

theorem mem_tokens {reference : String} : (element : Element) → reference ∈ element.stages →
    Token.name reference ∈ element.tokens
  | .stage _, listed => by
    obtain rfl := List.mem_singleton.mp listed
    exact List.mem_singleton_self _
  | .branch inner, listed =>
    List.mem_cons_of_mem _ (List.mem_append_left _ (mem_tokensOf inner listed))

theorem mem_tokensOf {reference : String} : (route : List Element) → reference ∈ stagesOf route →
    Token.name reference ∈ Element.tokensOf route
  | [], listed => by cases listed
  | element :: rest, listed => by
    rcases List.mem_append.mp listed with here | later
    · exact List.mem_append_left _ (mem_tokens element here)
    · exact List.mem_append_right _ (mem_tokensOf rest later)

end

theorem bareName_filled {text : String} {route : List Element} (done : read text = .ok route)
    {reference : String} (listed : reference ∈ stagesOf route) : Literal.bareName reference ≠ "" := by
  obtain ⟨c, letters, whole, start, -⟩ :=
    ((read_ok_iff text route).mp done).2.named reference (mem_tokensOf route listed)
  have letter : (c != ':') = true := by
    refine bne_iff_ne.mpr ?_
    rintro rfl
    exact absurd start (by decide)
  intro empty
  have none := congrArg String.toList empty
  rw [Literal.bareName, Text.before, String.toList_ofList, whole, List.takeWhile_cons, if_pos letter] at none
  cases none

theorem spot_first {route : List Element} (proper : ProperRoute route) :
    ∃ s ∈ spotsOf 0 none route, s.place = 0 ∧ s.reference.isSome = true := by
  obtain ⟨filled, proper⟩ := proper
  match route with
  | [] => exact absurd rfl filled
  | .stage _ :: _ => exact ⟨_, List.mem_cons_self, rfl, rfl⟩
  | .branch _ :: _ => exact absurd (proper.1 rfl) Bool.false_ne_true

end Sluice.Route
