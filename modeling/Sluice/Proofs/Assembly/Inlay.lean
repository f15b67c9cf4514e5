import Sluice.Proofs.Assembly.Mates

set_option autoImplicit false

namespace Sluice

variable {σ : Type}

open Layout (joinPath ofOutline)
open Route (Element Spot Splices inlineOf nameAt spotsOf stagesOf widened widthOf)

def Outline.root (o : Outline σ) : Level := Layout.level 0 1 o.pipeline o.plan o.parts

/-- A path that leads into a sub-graph, or into one of those that are on its route. -/
def LeadsInto (name : String) (body : List Element) (path : String) : Prop :=
  ∃ outer ∈ name :: (stagesOf body).map Literal.bareName, ∃ inner, path = joinPath outer inner

theorem joinPath_joinPath (outer middle inner : String) :
    ∃ rest, joinPath (joinPath outer middle) inner = joinPath outer rest := by
  by_cases none : outer = ""
  · subst none
    exact ⟨joinPath middle inner, rfl⟩
  · exact ⟨middle ++ "." ++ inner, by simp [joinPath, none, String.append_assoc]⟩

theorem LeadsInto.inward {name : String} {body : List Element} (path inner : String)
    (leads : LeadsInto name body path) : LeadsInto name body (joinPath path inner) := by
  obtain ⟨outer, listed, middle, rfl⟩ := leads
  obtain ⟨rest, same⟩ := joinPath_joinPath outer middle inner
  exact ⟨outer, listed, rest, same⟩

theorem Outline.AllTyped.part {r : Registry σ} {o : Outline σ} (allTyped : o.AllTyped r) {part : Part σ}
    (listed : part ∈ o.parts) (member : Member) (inner : Outline σ)
    (same : part = .subGraph member inner) : inner.AllTyped r := by
  subst same
  cases o with
  | make p plan parts => exact allTyped.inner listed

namespace Layout

structure Sits (layout : Layout σ) (node first : Nat) (path : String) (o : Outline σ)
    (route : List Element) (i : Nat) (part : Part σ) : Prop where
  within : i < widthOf route
  listed : part ∈ o.parts
  seats : layout.Seats (level node first o.pipeline o.plan o.parts)
    ((level node first o.pipeline o.plan o.parts).seat route i) path part
  named : part.member.name = Literal.bareName (nameAt route i)

variable {layout layout' : Layout σ} {node first node' first' i j : Nat} {path path' : String}
  {o o' : Outline σ} {route body : List Element} {part part' : Part σ} {s s' : Spot}

theorem Has.sits (has : layout.Has node first path o)
    (reads : (level node first o.pipeline o.plan o.parts).Reads route) (within : i < widthOf route) :
    ∃ part, layout.Sits node first path o route i part := by
  obtain ⟨member, inside, named⟩ := reads.seat_member within
  obtain ⟨part, listed, seats, rfl⟩ := has.seats_of_mem inside
  exact ⟨part, within, listed, seats, named⟩

namespace Sits

variable (sits : layout.Sits node first path o route i part)
  (reads : (level node first o.pipeline o.plan o.parts).Reads route) {r : Registry σ}
  (allTyped : o.AllTyped r) (listed : s ∈ spotsOf 0 none route) (here : s.place = i)
include sits

theorem of (allTyped : o.AllTyped r) : Part.Of r o.pipeline o.plan part.member.name part :=
  (allTyped o (.refl o)).parts part sits.listed

include reads allTyped listed here

theorem forks (unwritten : s.reference = none) : ∃ member, part = .fanOut member := by
  have called := Route.spotsOf_named 0 0 none route (Route.nameAt_names route) s listed
  unfold Spot.Named at called
  rw [unwritten, here] at called
  obtain ⟨n, called⟩ := called
  have named : part.member.name ∈ o.plan.fanOuts := by
    refine List.mem_filter.mpr ⟨sits.named ▸ reads.named sits.within, ?_⟩
    rw [sits.named, called, Route.bareName_fanOutName, Route.isFanOutName_fanOutName]
  have of := sits.of allTyped
  generalize part.member.name = name at of named
  cases of with
  | fanOut _ => exact ⟨_, rfl⟩
  | stage plain _ => exact absurd named plain
  | subGraph plain _ _ => exact absurd named plain

omit reads allTyped in
theorem written {reference : String} (written : s.reference = some reference) :
    part.member.name = Literal.bareName reference ∧ reference ∈ stagesOf route := by
  have called := Route.spotsOf_named 0 0 none route (Route.nameAt_names route) s listed
  unfold Spot.Named at called
  rw [written, here] at called
  refine ⟨called ▸ sits.named, ?_⟩
  rw [← Route.spotsOf_references 0 none route]
  exact List.mem_filterMap.mpr ⟨s, listed, written⟩

theorem plain {reference : String} (written : s.reference = some reference) :
    part.member.name ∉ o.plan.fanOuts ∧ part.forks = false := by
  obtain ⟨named, inside⟩ := sits.written listed here written
  have plain : part.member.name ∉ o.plan.fanOuts := fun forks => by
    have forks := (List.mem_filter.mp forks).2
    rw [named, reads.distinct.written reference inside] at forks
    cases forks
  refine ⟨plain, ?_⟩
  have of := sits.of allTyped
  generalize part.member.name = name at of plain
  cases of with
  | fanOut forks => exact absurd forks plain
  | stage _ _ => rfl
  | subGraph _ _ _ => rfl

/-- Two pipelines of which one has the node of the other on its route make the same of it if they say
the same of it. -/
theorem peers (sits' : layout'.Sits node' first' path' o' body j part')
    (reads' : (level node' first' o'.pipeline o'.plan o'.parts).Reads body) (allTyped' : o'.AllTyped r)
    (listed' : s' ∈ spotsOf 0 none body) (there : s'.place = j) (same : s'.reference = s.reference)
    (sections : ∀ reference, s.reference = some reference →
      o'.pipeline.sections.at? (Literal.bareName reference) =
        o.pipeline.sections.at? (Literal.bareName reference))
    (values : ∀ reference, s.reference = some reference →
      (stagesOf body).filter (fun other => Literal.bareName other == Literal.bareName reference) =
        (stagesOf route).filter fun other => Literal.bareName other == Literal.bareName reference) :
    part.Peers part' := by
  cases written : s.reference with
  | none =>
    obtain ⟨member, rfl⟩ := sits.forks reads allTyped listed here written
    obtain ⟨member', rfl⟩ := sits'.forks reads' allTyped' listed' there (same.trans written)
    exact .fanOut member member'
  | some reference =>
    have named := (sits.written listed here written).1
    have named' := (sits'.written listed' there (same.trans written)).1
    have of' := sits'.of allTyped'
    have plain' := (sits'.plain reads' allTyped' listed' there (same.trans written)).1
    rw [named', ← named] at of' plain'
    have plan : o.plan = Route.Plan.ofElements route := reads.plan
    have plan' : o'.plan = Route.Plan.ofElements body := reads'.plan
    refine (sits.of allTyped).peers of'
      (sits.plain reads allTyped listed here written).1 plain' (named ▸ sections reference written) ?_
      (allTyped.part sits.listed) (allTyped'.part sits'.listed)
    rw [Outline.valuesOf, Outline.valuesOf, plan, plan', Route.ofElements_references reads.proper,
      Route.ofElements_references reads'.proper, named, values reference written]

end Sits

end Layout

structure Inlay (o o' : Outline σ) (name : String) (route body : List Element) where
  before : List Spot
  here : Spot
  later : List Spot
  member : Member
  graph : Outline σ
  first : Nat
  splices : Splices name body 0 none route before here later
  outer : o.root.Reads route
  flat : o'.root.Reads (inlineOf name body route)
  seats : (ofOutline o).Seats o.root (o.root.seat route here.place) "" (.subGraph member graph)
  named : member.name = name
  listed : .subGraph member graph ∈ o.parts
  has : (ofOutline o).Has (o.root.seat route here.place) first (joinPath "" member.name) graph
  inner : (Layout.level (o.root.seat route here.place) first graph.pipeline graph.plan
    graph.parts).Reads body

namespace Inlay

variable {o o' : Outline σ} {name : String} {route body : List Element}
  (inlay : Inlay o o' name route body)

def node : Nat := o.root.seat route inlay.here.place

def level : Level :=
  Layout.level inlay.node inlay.first inlay.graph.pipeline inlay.graph.plan inlay.graph.parts

def moved (i : Nat) : Nat := widened inlay.here.place (widthOf body) i

section

include inlay

theorem filled : 0 < widthOf body := Route.widthOf_pos inlay.inner.proper.1

theorem place_within : inlay.here.place < widthOf route := by
  have := inlay.splices.place
  omega

theorem width : widthOf (inlineOf name body route) = widthOf route + (widthOf body - 1) :=
  inlay.splices.width inlay.inner.proper.1

end

theorem moved_within {i : Nat} (within : i < widthOf route) :
    inlay.moved i < widthOf (inlineOf name body route) := by
  have := inlay.width
  have := inlay.filled
  have := inlay.place_within
  unfold moved widened
  split <;> omega

theorem spliced_within {j : Nat} (within : j < widthOf body) :
    inlay.here.place + j < widthOf (inlineOf name body route) := by
  have := inlay.width
  have := inlay.place_within
  omega

theorem moved_early {i : Nat} (early : i ≤ inlay.here.place) : inlay.moved i = i := by
  rw [moved, widened, if_pos early]

theorem moved_inj {i j : Nat} (same : inlay.moved i = inlay.moved j) : i = j := by
  unfold moved widened at same
  split at same <;> split at same <;> omega

theorem moved_apart {i j : Nat} (other : i ≠ inlay.here.place) (within : j < widthOf body) :
    inlay.moved i ≠ inlay.here.place + j := by
  unfold moved widened
  split <;> omega

theorem next_outer {x : Spot} (listed : x ∈ spotsOf 0 none route) (other : x.place ≠ inlay.here.place)
    (edge : Edge) :
    o'.root.next edge (o'.root.seat (inlineOf name body route) (inlay.moved x.place)) =
      ((x.out edge).map inlay.moved).map (o'.root.seat (inlineOf name body route)) := by
  have next := inlay.flat.next (inlay.splices.outer listed other) edge
  rwa [Spot.out_widened] at next

theorem next_inner {x : Spot} (listed : x ∈ spotsOf 0 none body) (edge : Edge) :
    o'.root.next edge (o'.root.seat (inlineOf name body route) (inlay.here.place + x.place)) =
      (if edge = .main ∧ x.place = widthOf body - 1 then (inlay.here.out .main).map inlay.moved
        else (x.out edge).map (inlay.here.place + ·)).map (o'.root.seat (inlineOf name body route)) := by
  have next := inlay.flat.next (inlay.splices.inner inlay.inner.proper.2 listed) edge
  rwa [Spot.out_spliced] at next

theorem root_listed (o : Outline σ) : o.root ∈ (ofOutline o).levels := (Layout.ofOutline_has o).listed

theorem reads : inlay.level.Reads body := inlay.inner

theorem level_listed : inlay.level ∈ (ofOutline o).levels := inlay.has.listed

theorem node_inside : inlay.node ∈ o.root.ids := inlay.seats.id_mem

theorem node_pos : inlay.node ≠ 0 := by
  have : inlay.node > o.root.node := Facing.placed o _ (root_listed o) _ inlay.node_inside
  omega

theorem apart {id : Nat} (inside : id ∈ o.root.ids) : id ∉ inlay.level.ids := by
  intro inside'
  have same := ordered_unique (Layout.ofOutline_ordered o).order (root_listed o) inlay.level_listed
    inside inside'
  exact inlay.node_pos (congrArg Level.node same).symm

inductive Starts : Nat → Nat → Part σ → Part σ → Prop
  | outer {i : Nat} {part part' : Part σ} (other : i ≠ inlay.here.place)
      (sits : (ofOutline o).Sits 0 1 "" o route i part)
      (sits' : (ofOutline o').Sits 0 1 "" o' (inlineOf name body route) (inlay.moved i) part') :
      Starts (o.root.seat route i) (o'.root.seat (inlineOf name body route) (inlay.moved i)) part part'
  | inner {j : Nat} {part part' : Part σ}
      (sits : (ofOutline o).Sits inlay.node inlay.first name inlay.graph body j part)
      (sits' : (ofOutline o').Sits 0 1 "" o' (inlineOf name body route) (inlay.here.place + j) part') :
      Starts (inlay.level.seat body j)
        (o'.root.seat (inlineOf name body route) (inlay.here.place + j)) part part'

section

theorem sits_outer {i : Nat} (within : i < widthOf route) :
    ∃ part part', (ofOutline o).Sits 0 1 "" o route i part ∧
      (ofOutline o').Sits 0 1 "" o' (inlineOf name body route) (inlay.moved i) part' := by
  obtain ⟨part, sits⟩ := (Layout.ofOutline_has o).sits inlay.outer within
  obtain ⟨part', sits'⟩ := (Layout.ofOutline_has o').sits inlay.flat (inlay.moved_within within)
  exact ⟨part, part', sits, sits'⟩

theorem sits_inner {j : Nat} (within : j < widthOf body) :
    ∃ part part', (ofOutline o).Sits inlay.node inlay.first name inlay.graph body j part ∧
      (ofOutline o').Sits 0 1 "" o' (inlineOf name body route) (inlay.here.place + j) part' := by
  have has := inlay.has
  have path : Layout.joinPath "" inlay.member.name = name := inlay.named
  rw [path] at has
  obtain ⟨part, sits⟩ := has.sits inlay.inner within
  obtain ⟨part', sits'⟩ := (Layout.ofOutline_has o').sits inlay.flat (inlay.spliced_within within)
  exact ⟨part, part', sits, sits'⟩

end

namespace Starts

variable {inlay} {a b c : Nat} {part part' other other' : Part σ}

theorem own (starts : inlay.Starts a b part part') : ¬(a = 0 ∨ a = inlay.node) ∧
    ∃ s ∈ (ofOutline o).levels, (s.node = 0 ∨ s.node = inlay.node) ∧ a ∈ s.ids := by
  cases starts with
  | outer other sits sits' =>
    have after : o.root.seat route _ > o.root.node :=
      Facing.placed o _ (root_listed o) _ sits.seats.id_mem
    refine ⟨fun root => ?_, _, root_listed o, .inl rfl, sits.seats.id_mem⟩
    rcases root with zero | same
    · omega
    · exact other (inlay.outer.seat_inj sits.within inlay.place_within same)
  | inner sits sits' =>
    have after : inlay.level.seat body _ > inlay.node :=
      Facing.placed o _ inlay.level_listed _ sits.seats.id_mem
    refine ⟨fun root => ?_, _, inlay.level_listed, .inr rfl, sits.seats.id_mem⟩
    omega

theorem own' (starts : inlay.Starts a b part part') : ¬b = 0 ∧
    ∃ s ∈ (ofOutline o').levels, s.node = 0 ∧ b ∈ s.ids := by
  have inside : b ∈ o'.root.ids := by
    cases starts with
    | outer _ _ sits' => exact sits'.seats.id_mem
    | inner _ sits' => exact sits'.seats.id_mem
  have after : b > o'.root.node := Facing.placed o' _ (root_listed o') _ inside
  exact ⟨by omega, _, root_listed o', rfl, inside⟩

theorem once (starts : inlay.Starts a b part part') (starts' : inlay.Starts a c other other') :
    b = c := by
  generalize same : a = d at starts'
  cases starts with
  | outer _ sits _ =>
    cases starts' with
    | outer _ sits' _ => rw [inlay.outer.seat_inj sits.within sits'.within same]
    | inner sits' _ => exact (inlay.apart sits.seats.id_mem (same ▸ sits'.seats.id_mem)).elim
  | inner sits _ =>
    cases starts' with
    | outer _ sits' _ => exact (inlay.apart sits'.seats.id_mem (same ▸ sits.seats.id_mem)).elim
    | inner sits' _ => rw [inlay.inner.seat_inj sits.within sits'.within same]

theorem once' (starts : inlay.Starts a c part part') (starts' : inlay.Starts b c other other') :
    a = b := by
  generalize same : c = d at starts'
  cases starts with
  | outer other sits sits' =>
    cases starts' with
    | outer other' there there' =>
      rw [inlay.moved_inj (inlay.flat.seat_inj sits'.within there'.within same)]
    | inner there there' =>
      exact (inlay.moved_apart other there.within
        (inlay.flat.seat_inj sits'.within there'.within same)).elim
  | inner sits sits' =>
    cases starts' with
    | outer other' there there' =>
      exact (inlay.moved_apart other' sits.within
        (inlay.flat.seat_inj there'.within sits'.within same.symm)).elim
    | inner there there' =>
      rw [Nat.add_left_cancel (inlay.flat.seat_inj sits'.within there'.within same)]

end Starts

def facing : Facing o o' where
  base := inlay.Starts
  roots a := a = 0 ∨ a = inlay.node
  roots' b := b = 0
  foreign := LeadsInto name body
  own _ _ _ _ := Starts.own
  own' _ _ _ _ := Starts.own'
  closed := by
    rintro a (rfl | rfl)
    · exact .inl rfl
    · exact .inr ⟨_, root_listed o, .inl rfl, inlay.node_inside⟩
  closed' _ := .inl
  once _ _ _ _ _ _ _ := Starts.once
  once' _ _ _ _ _ _ _ := Starts.once'
  inward := LeadsInto.inward

end Inlay

end Sluice
