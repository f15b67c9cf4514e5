import Sluice.Proofs.Assembly.LevelEnds
import Sluice.Proofs.Route.Branches

set_option autoImplicit false

namespace Sluice

variable {σ : Type}

theorem eraseDups_of_nodup {α : Type} [DecidableEq α] {items : List α} (distinct : items.Nodup) :
    items.eraseDups = items := by
  induction items with
  | nil => rfl
  | cons x rest ih =>
    obtain ⟨fresh, distinct⟩ := List.nodup_cons.mp distinct
    have whole : rest.filter (fun y => !y == x) = rest := by
      refine List.filter_eq_self.mpr fun y listed => ?_
      have other : y ≠ x := by
        rintro rfl
        exact fresh listed
      simpa using other
    rw [List.eraseDups_cons, whole, ih distinct]

theorem findSome?_eq {α β : Type} {f : α → Option β} {items : List α} {r : Option β}
    (all : ∀ x ∈ items, f x = none ∨ f x = r) (some' : r ≠ none → ∃ x ∈ items, f x = r) :
    items.findSome? f = r := by
  cases found : items.findSome? f with
  | none =>
    by_contra other
    obtain ⟨x, listed, here⟩ := some' (Ne.symm other)
    rw [List.findSome?_eq_none_iff.mp found x listed] at here
    exact other here
  | some y =>
    obtain ⟨x, listed, here⟩ := List.exists_of_findSome?_eq_some found
    rcases all x listed with none | same
    · rw [none] at here
      cases here
    · rw [← here, same]

namespace Level

def shift (first : Nat) (s : Level) : Level :=
  { s with members := s.members.map fun entry => (first + entry.1, entry.2) }

section

variable (first : Nat) (s : Level)

theorem find?_shift (name : String) : (s.shift first).find? name = (s.find? name).map (first + ·) := by
  unfold find? shift
  rw [← List.map_reverse, List.find?_map, Option.map_map, Option.map_map]
  rfl

theorem leadsFrom_shift (edge : Edge) (id : Nat) (hop : Route.Hop) :
    Wiring.leadsFrom edge (first + id) (s.shift first) hop =
      (Wiring.leadsFrom edge id s hop).map (first + ·) := by
  unfold Wiring.leadsFrom
  have starts (name : String) : (s.find? name).map (first + ·) = some (first + id) ↔
      s.find? name = some id := by
    cases s.find? name <;> simp
  simp only [find?_shift, starts]
  split
  · rw [Option.map_bind]
    rfl
  · rfl

theorem next_shift (edge : Edge) (id : Nat) :
    (s.shift first).next edge (first + id) = (s.next edge id).map (first + ·) := by
  unfold next
  rw [List.map_findSome?]
  exact congrArg (List.findSome? · _) (funext (leadsFrom_shift first s edge id))

theorem enters_shift : (s.shift first).enters = s.enters.map (first + ·) := by
  unfold enters
  rw [Option.map_bind]
  exact congrArg _ (funext fun hop => find?_shift first s _)

theorem leaves_shift : (s.shift first).leaves = s.leaves.map (first + ·) := by
  unfold leaves
  rw [List.map_findSome?]
  refine congrArg (List.findSome? · _) (funext fun hop => ?_)
  dsimp only [Function.comp_apply]
  split
  · exact find?_shift first s _
  · rfl

end

end Level

def Outline.level (o : Outline σ) : Level := Layout.level 0 0 o.pipeline o.plan o.parts

namespace Layout

theorem level_shift (node first : Nat) (p : Pipeline) (plan : Route.Plan) (parts : List (Part σ)) :
    level node first p plan parts =
      { (Outline.make p plan parts).level.shift first with node } := by
  have members : (parts.zipIdx first).map (fun entry => (entry.2, entry.1.member)) =
      ((parts.zipIdx 0).map fun entry => (entry.2, entry.1.member)).map
        fun entry => (first + entry.1, entry.2) := by
    rw [List.zipIdx_eq_map_add, List.map_map, List.map_map]
    rfl
  exact congrArg (Level.mk node p plan) members

variable {node first : Nat} {o : Outline σ}

theorem level_next (edge : Edge) (i : Nat) :
    (level node first o.pipeline o.plan o.parts).next edge (first + i) =
      (o.level.next edge i).map (first + ·) := by
  rw [level_shift]
  exact o.level.next_shift first edge i

theorem level_enters : (level node first o.pipeline o.plan o.parts).enters =
    o.level.enters.map (first + ·) := by
  rw [level_shift]
  exact o.level.enters_shift first

theorem level_leaves : (level node first o.pipeline o.plan o.parts).leaves =
    o.level.leaves.map (first + ·) := by
  rw [level_shift]
  exact o.level.leaves_shift first

end Layout

namespace Route

def nameAt (route : List Element) (i : Nat) : String := (nodesOf 0 route).getD i ""

theorem nameAt_names (route : List Element) : Names (nameAt route) 0 0 route := by
  refine List.ext_getElem (by rw [nodesOf_length, List.length_map, List.length_range']) ?_
  intro i here _
  simp [nameAt, List.getElem?_eq_getElem here]

def Spot.out (s : Spot) : Edge → Option Nat
  | .main => s.main
  | .branch => s.branch

theorem Spot.out_widened (place width : Nat) (s : Spot) (edge : Edge) :
    (s.widened place width).out edge = (s.out edge).map (Route.widened place width) := by
  cases edge <;> exact Option.map_eq_bind.symm

theorem Spot.out_spliced (place width : Nat) (after : Option Nat) (s : Spot) (edge : Edge) :
    (s.spliced place width after).out edge = if edge = .main ∧ s.place = width - 1 then after
      else (s.out edge).map (place + ·) := by
  cases edge <;> simp [spliced, out]

theorem Spot.mem_hops {name : Nat → String} {s : Spot} {hop : Hop} : hop ∈ s.hops name →
    hop.source = name s.place ∧ hop.target = (s.out hop.edge).map name := by
  intro listed
  unfold Spot.hops at listed
  split at listed
  · obtain rfl := List.mem_singleton.mp listed
    exact ⟨rfl, rfl⟩
  · rcases List.mem_cons.mp listed with rfl | listed
    · exact ⟨rfl, rfl⟩
    · obtain rfl := List.mem_singleton.mp listed
      exact ⟨rfl, rfl⟩

mutual

theorem spots_stage (start : Nat) (onward after : Option Nat) : (element : Element) →
    ∀ s ∈ element.spots start onward after, s.reference.isSome = true → s.branch = none
  | .stage _, s, listed, _ => by
    obtain rfl := List.mem_singleton.mp listed
    rfl
  | .branch inner, s, listed, stage => by
    rcases List.mem_cons.mp listed with rfl | listed
    · cases stage
    · exact spotsOf_stage _ _ inner s listed stage

theorem spotsOf_stage (start : Nat) (after : Option Nat) : (route : List Element) →
    ∀ s ∈ spotsOf start after route, s.reference.isSome = true → s.branch = none
  | [], _, listed, _ => by cases listed
  | element :: rest, s, listed, stage => by
    rcases List.mem_append.mp listed with listed | listed
    · exact spots_stage _ _ _ element s listed stage
    · exact spotsOf_stage _ _ rest s listed stage

end

theorem Spot.hop_mem {start : Nat} {after : Option Nat} {route : List Element} {s : Spot}
    (listed : s ∈ spotsOf start after route) (name : Nat → String) {edge : Edge}
    (leads : s.out edge ≠ none) : ⟨name s.place, edge, (s.out edge).map name⟩ ∈ s.hops name := by
  unfold Spot.hops
  cases reference : s.reference with
  | none => cases edge <;> simp [Spot.out]
  | some _ =>
    cases edge with
    | main => simp [Spot.out]
    | branch => exact absurd (spotsOf_stage start after route s listed (by simp [reference])) leads

theorem spotsOf_place_inj {start : Nat} {after : Option Nat} {route : List Element} {s other : Spot}
    (listed : s ∈ spotsOf start after route) (listed' : other ∈ spotsOf start after route)
    (same : s.place = other.place) : s = other := by
  refine List.inj_on_of_nodup_map ?_ listed listed' same
  rw [spotsOf_places]
  exact List.nodup_range'

theorem spot_within {route : List Element} {s : Spot} (listed : s ∈ spotsOf 0 none route) :
    s.place < widthOf route := by
  have := spot_place listed
  omega

theorem out_within {route : List Element} {s : Spot} (listed : s ∈ spotsOf 0 none route)
    {edge : Edge} {t : Nat} (leads : s.out edge = some t) : t < widthOf route := by
  obtain ⟨main, branch⟩ := spotsOf_within 0 none route s listed
  cases edge with
  | main =>
    rcases main t leads with none | inside
    · cases none
    · omega
  | branch =>
    have := branch t leads
    omega

theorem out_last {route : List Element} (proper : ProperRoute route) {s : Spot}
    (listed : s ∈ spotsOf 0 none route) (last : s.place = widthOf route - 1) : s.out .main = none := by
  obtain ⟨filled, proper⟩ := proper
  obtain ⟨before, reference, ends⟩ := spotsOf_ends 0 proper filled
  have there : ⟨0 + (widthOf route - 1), some reference, none, none⟩ ∈ spotsOf 0 none route := by
    rw [ends]
    exact List.mem_append_right _ (List.mem_singleton_self _)
  have same := spotsOf_place_inj listed there (by rw [last, Nat.zero_add])
  rw [same]
  rfl

end Route

structure Level.Reads (s : Level) (route : List Route.Element) : Prop where
  read : Route.read s.pipeline.route = .ok route
  declared : s.Declared
  ids : s.ids.Nodup
  distinct : Route.Distinct route

namespace Level

open Route (nameAt spotsOf widthOf Spot)

def seat (s : Level) (route : List Route.Element) (i : Nat) : Nat :=
  (s.find? (Literal.bareName (nameAt route i))).getD 0

namespace Reads

variable {s : Level} {route : List Route.Element} (reads : s.Reads route)
include reads

theorem proper : Route.ProperRoute route := ((Route.read_ok_iff _ _).mp reads.read).1

theorem plan : s.plan = Route.Plan.ofElements route := by
  obtain ⟨route', parsed, same⟩ := (Route.Plan.read_ok_iff _ _).mp reads.declared.1
  obtain rfl := Except.ok.inj (reads.read.symm.trans parsed)
  exact same.symm

theorem bare_inj {i j : Nat} (low : i < widthOf route) (high : j < widthOf route)
    (same : Literal.bareName (nameAt route i) = Literal.bareName (nameAt route j)) : i = j := by
  have distinct := reads.distinct.nodes
  rw [Route.nameAt_names route, List.map_map] at distinct
  exact List.inj_on_of_nodup_map distinct (List.mem_range'_1.mpr (by omega))
    (List.mem_range'_1.mpr (by omega)) same

theorem named {i : Nat} (within : i < widthOf route) :
    Literal.bareName (nameAt route i) ∈ s.plan.names := by
  rw [reads.plan, Route.mem_ofElements_names reads.proper, Route.nameAt_names route]
  exact List.mem_map_of_mem (List.mem_map_of_mem (List.mem_range'_1.mpr (by omega)))

theorem found {i : Nat} (within : i < widthOf route) :
    s.find? (Literal.bareName (nameAt route i)) = some (s.seat route i) := by
  obtain ⟨id, found⟩ := Wiring.lookup_ok reads.declared (reads.named within)
  rw [seat, Wiring.lookup_found found]
  rfl

theorem seat_mem {i : Nat} (within : i < widthOf route) : s.seat route i ∈ s.ids :=
  find?_mem (reads.found within)

theorem seat_inj {i j : Nat} (low : i < widthOf route) (high : j < widthOf route)
    (same : s.seat route i = s.seat route j) : i = j :=
  reads.bare_inj low high (find?_inj reads.ids (reads.found low) (same ▸ reads.found high))

theorem seat_member {i : Nat} (within : i < widthOf route) :
    ∃ member, (s.seat route i, member) ∈ s.members ∧
      member.name = Literal.bareName (nameAt route i) :=
  find?_name (reads.found within)

theorem hops : s.plan.hops = (spotsOf 0 none route).flatMap (Spot.hops (nameAt route)) := by
  have edges := Route.edgesOf_hops 0 0 false route reads.proper.2 (Route.nameAt_names route)
  rw [reads.plan, Route.ofElements_hops reads.proper, edges]
  refine eraseDups_of_nodup (List.nodup_flatMap.mpr ⟨fun spot _ => ?_, ?_⟩)
  · unfold Spot.hops
    split <;> simp
  · have places : ((spotsOf 0 none route).map Spot.place).Nodup := by
      rw [Route.spotsOf_places]
      exact List.nodup_range'
    refine (List.pairwise_map.mp places).imp_of_mem fun {spot other} listed listed' apart => ?_
    intro hop here there
    refine apart (reads.bare_inj (Route.spot_within listed) (Route.spot_within listed') ?_)
    rw [← (Spot.mem_hops here).1, ← (Spot.mem_hops there).1]

theorem next {spot : Spot} (listed : spot ∈ spotsOf 0 none route) (edge : Edge) :
    s.next edge (s.seat route spot.place) = (spot.out edge).map (s.seat route) := by
  have found := reads.found (Route.spot_within listed)
  have leads {hop : Route.Hop} (source : hop.source = nameAt route spot.place)
      (target : hop.target = (spot.out hop.edge).map (nameAt route)) (same : hop.edge = edge) :
      Wiring.leadsFrom edge (s.seat route spot.place) s hop =
        (spot.out edge).map (s.seat route) := by
    rw [Wiring.leadsFrom, if_pos ⟨same, source ▸ found⟩, target, same]
    cases out : spot.out edge with
    | none => rfl
    | some t => exact reads.found (Route.out_within listed out)
  refine findSome?_eq (fun hop inside => ?_) fun some' => ?_
  · rw [List.mem_reverse, reads.hops, List.mem_flatMap] at inside
    obtain ⟨other, listed', hop'⟩ := inside
    obtain ⟨source, target⟩ := Spot.mem_hops hop'
    by_cases starts : hop.edge = edge ∧
        s.find? (Literal.bareName hop.source) = some (s.seat route spot.place)
    · -- Only the edges of a node start at its member.
      have place : other.place = spot.place := by
        refine reads.seat_inj (Route.spot_within listed') (Route.spot_within listed) (Option.some.inj ?_)
        rw [← reads.found (Route.spot_within listed'), ← source, starts.2]
      obtain rfl := Route.spotsOf_place_inj listed' listed place
      exact .inr (leads source target starts.1)
    · exact .inl (if_neg starts)
  · have out : spot.out edge ≠ none := fun none => some' (by rw [none]; rfl)
    refine ⟨⟨nameAt route spot.place, edge, (spot.out edge).map (nameAt route)⟩, ?_,
      leads rfl rfl rfl⟩
    rw [List.mem_reverse, reads.hops, List.mem_flatMap]
    exact ⟨spot, listed, Spot.hop_mem listed (nameAt route) out⟩

theorem enters : s.enters = some (s.seat route 0) := by
  obtain ⟨filled, proper⟩ := reads.proper
  have first := reads.found (Route.widthOf_pos filled)
  rw [Level.enters, reads.hops]
  cases route with
  | nil => exact absurd rfl filled
  | cons element rest =>
    cases element with
    | stage reference => exact first
    | branch inner => exact absurd (proper.1 rfl) Bool.false_ne_true

theorem leaves : s.leaves = some (s.seat route (widthOf route - 1)) := by
  obtain ⟨filled, proper⟩ := reads.proper
  obtain ⟨before, reference, last⟩ := Route.spotsOf_ends 0 proper filled
  have some' := Route.widthOf_pos filled
  have found := reads.found (i := widthOf route - 1) (by omega)
  rw [Level.leaves, reads.hops, last, List.flatMap_append, List.reverse_append, Nat.zero_add]
  exact (List.findSome?_cons_of_isSome (by simp [found])).trans found

end Reads

end Level

end Sluice
