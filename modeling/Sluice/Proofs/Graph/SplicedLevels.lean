import Sluice.Proofs.Assembly.Inlines
import Sluice.Proofs.Graph.MirroredGraphs

set_option autoImplicit false

namespace Sluice

open Blueprint (Course Shaped Takes)
open Layout (ofOutline)
open Route (Element Spot inlineOf spotsOf widened widthOf)

theorem Layout.nodeOf_isFanOut {σ : Type} (path : String) (part : Part σ) :
    (nodeOf path part).isFanOut = part.forks := by
  cases part <;> rfl

namespace Blueprint.Shaped

variable {σ : Type} {outline : Outline σ} {nodes : Array (Node σ)} (shaped : Shaped outline nodes)
include shaped

theorem main_root {id : Nat} (inside : id ∈ outline.root.ids) :
    nodes[id]?.bind Node.main = outline.root.next .main id := by
  have nowhere : nodes[0]?.bind Node.main = none := by
    refine shaped.wired.outside 0 fun s listed inside => ?_
    have := Facing.placed outline s (by simpa using listed) 0 inside
    omega
  have outward : Wiring.outward nodes outline.root id = none := by
    unfold Wiring.outward
    split
    · exact nowhere
    · rfl
  rw [shaped.main (Inlay.root_listed outline) inside, outward, Option.none_or]

theorem main_last {s : Level} (listed : s ∈ (ofOutline outline).levels) {node : Node σ}
    {entry : Option NodeId} (found : nodes[s.node]? = some node)
    (kind : node.kind = .subGraph entry s.leaves) {id : Nat} (inside : id ∈ s.ids) :
    nodes[id]?.bind Node.main =
      (if s.leaves = some id then node.main else none).or (s.next .main id) := by
  rw [shaped.main listed inside, Wiring.outward, found, Option.bind_some, Option.bind_some, Node.exit, kind]

end Blueprint.Shaped

namespace Inlay

section

variable {o o' : Outline Stock} {name : String} {route body : List Element}
  (inlay : Inlay o o' name route body)

def passes (a inner : NodeId) : Prop := a = inlay.node ∧ inner = inlay.level.seat body 0

abbrev pairing (leads : Bool) : Pairing := inlay.facing.pairing inlay.passes leads

end

variable {b : Blueprint Stock} {sub q : Pipeline} {c c' : Course Stock} {nodes nodes' : Array (Node Stock)}
  {name : String} {route body : List Element} {inlay : Inlay c.outline c'.outline name route body}
  {leads : Bool} (takes : b.Takes c nodes) (takes' : Takes { b with pipeline := q } c' nodes')
  (inlines : Inlines b.registry b.pipeline sub q name route body) (inside : inlay.graph.pipeline = sub)
include takes takes' inlines inside

theorem peers {x y : Nat} {part part' : Part Stock} (starts : inlay.Starts x y part part') :
    part.Peers part' := by
  have ⟨whole, allTyped⟩ := Outline.declare_allTyped takes.declared
  have ⟨whole', allTyped'⟩ := Outline.declare_allTyped takes'.declared
  exact starts.peers inlines whole whole' inside allTyped allTyped'

theorem mates : ∀ x y part part', inlay.facing.base x y part part' → ∃ s s' path path',
    (ofOutline c.outline).Mates (ofOutline c'.outline) inlay.facing.foreign s s' x y path path' part part' ∧
      (Binding.paramsOf c.bound.nodes s.node).Covers (Binding.paramsOf c'.bound.nodes s'.node) := by
  intro x y part part' starts
  have ⟨whole, allTyped⟩ := Outline.declare_allTyped takes.declared
  have ⟨whole', allTyped'⟩ := Outline.declare_allTyped takes'.declared
  obtain ⟨s, s', path, path', places, mates⟩ :=
    starts.mates inlines whole whole' inside allTyped allTyped'
  refine ⟨s, s', path, path', mates, ?_⟩
  rcases places with ⟨rfl, rfl⟩ | ⟨rfl, rfl⟩
  · have same := takes.root_params takes' rfl rfl inlines.typeName inlines.keys
    change (Binding.paramsOf c.bound.nodes 0).Covers (Binding.paramsOf c'.bound.nodes 0)
    rw [same]
    exact (ParamTable.Alike.refl _).covers
  · exact ParamTable.covers_of_empty (takes.params_empty inlay.seats (inside ▸ inlines.keyless)) _

theorem outer_pairs {i : Nat} (within : i < widthOf route) (other : i ≠ inlay.here.place) :
    (inlay.pairing leads).Pairs (c.outline.root.seat route i)
      (c'.outline.root.seat (inlineOf name body route) (inlay.moved i)) := by
  obtain ⟨part, part', sits, sits'⟩ := inlay.sits_outer within
  have starts := Starts.outer other sits sits'
  exact Facing.pairs (.base starts) (peers takes takes' inlines inside starts)

theorem inner_pairs {j : Nat} (within : j < widthOf body) :
    (inlay.pairing leads).Pairs (inlay.level.seat body j)
      (c'.outline.root.seat (inlineOf name body route) (inlay.here.place + j)) := by
  obtain ⟨part, part', sits, sits'⟩ := inlay.sits_inner within
  have starts := Starts.inner sits sits'
  exact Facing.pairs (.base starts) (peers takes takes' inlines inside starts)

theorem first_plain {y : Nat} : ¬(inlay.pairing leads).fork (inlay.level.seat body 0) y := by
  rintro ⟨m, m', faces⟩
  obtain ⟨s, s', path, path', mates, -⟩ :=
    inlay.facing.held takes.binds takes'.binds (mates takes takes' inlines inside) faces
  obtain ⟨part, -, sits, -⟩ := inlay.sits_inner inlay.filled
  obtain ⟨x, listed, place, stage⟩ := Route.spot_first inlay.inner.proper
  obtain ⟨reference, written⟩ := Option.isSome_iff_exists.mp stage
  have allTyped := (Outline.declare_allTyped takes.declared).2.part inlay.listed _ _ rfl
  have plain := (sits.plain inlay.inner allTyped listed place written).2
  have same := Option.some.inj (sits.seats.node.symm.trans mates.seats.node)
  have forks := congrArg Node.isFanOut same
  rw [Layout.nodeOf_isFanOut, Layout.nodeOf_isFanOut, plain] at forks
  cases forks

theorem outer_meets {t : Nat} (within : t < widthOf route) :
    (inlay.pairing leads).Meets (some (c.outline.root.seat route t))
      (some (c'.outline.root.seat (inlineOf name body route) (inlay.moved t))) := by
  by_cases other : t = inlay.here.place
  · rw [inlay.moved_early (Nat.le_of_eq other), other]
    exact .through ⟨rfl, rfl⟩ (inner_pairs takes takes' inlines inside inlay.filled)
      (first_plain takes takes' inlines inside)
  · exact .there (outer_pairs takes takes' inlines inside within other)

theorem onward_outer {x : Spot} (listed : x ∈ spotsOf 0 none route) (edge : Edge) :
    (inlay.pairing leads).Meets ((x.out edge).map (c.outline.root.seat route))
      (((x.out edge).map inlay.moved).map (c'.outline.root.seat (inlineOf name body route))) := by
  cases out : x.out edge with
  | none => exact .nowhere
  | some t => exact outer_meets takes takes' inlines inside (Route.out_within listed out)

theorem onward_inner {x : Spot} (listed : x ∈ spotsOf 0 none body) (edge : Edge) :
    (inlay.pairing leads).Meets ((x.out edge).map (inlay.level.seat body))
      (((x.out edge).map (inlay.here.place + ·)).map
        (c'.outline.root.seat (inlineOf name body route))) := by
  cases out : x.out edge with
  | none => exact .nowhere
  | some t => exact .there (inner_pairs takes takes' inlines inside (Route.out_within listed out))

section

variable (shaped : Shaped c.outline nodes) (shaped' : Shaped c'.outline nodes')
include shaped shaped'

theorem main_meets : ∀ x y part part', inlay.facing.base x y part part' →
    (inlay.pairing leads).Meets (nodes[x]?.bind Node.main) (nodes'[y]?.bind Node.main) := by
  rintro _ _ _ _ (@⟨i, part, part', other, sits, sits'⟩ | @⟨j, part, part', sits, sits'⟩)
  · obtain ⟨x, listed, rfl⟩ := Route.spot_at sits.within
    rw [shaped.main_root (inlay.outer.seat_mem sits.within),
      shaped'.main_root (inlay.flat.seat_mem sits'.within), inlay.outer.next listed,
      inlay.next_outer listed other]
    exact onward_outer takes takes' inlines inside listed .main
  · obtain ⟨x, listed, rfl⟩ := Route.spot_at sits.within
    obtain ⟨node, found, kind⟩ := shaped.ends inlay.level_listed inlay.seats.node rfl
    have main : node.main = (inlay.here.out .main).map (c.outline.root.seat route) := by
      rw [← inlay.outer.next inlay.splices.listed,
        ← shaped.main_root (inlay.outer.seat_mem inlay.place_within)]
      exact (congrArg (·.bind Node.main) found).symm
    rw [shaped.main_last inlay.level_listed found kind (inlay.reads.seat_mem sits.within),
      shaped'.main_root (inlay.flat.seat_mem sits'.within), inlay.next_inner listed, inlay.reads.leaves,
      inlay.reads.next listed, main]
    by_cases last : x.place = widthOf body - 1
    · -- The last node is where the sub-graph is left.
      have ends : x.out .main = none := Route.out_last inlay.inner.proper listed last
      rw [if_pos (by rw [last]), if_pos ⟨rfl, last⟩, ends, Option.map_none, Option.or_none]
      exact onward_outer takes takes' inlines inside inlay.splices.listed .main
    · have other : inlay.level.seat body (widthOf body - 1) ≠ inlay.level.seat body x.place := by
        intro same
        have := sits.within
        exact last (inlay.reads.seat_inj (by omega) sits.within same).symm
      rw [if_neg fun same => other (Option.some.inj same), if_neg fun both => last both.2, Option.none_or]
      exact onward_inner takes takes' inlines inside listed .main

theorem branch_meets : ∀ x y part part', inlay.facing.base x y part part' →
    (inlay.pairing leads).Meets (nodes[x]?.bind Node.branch) (nodes'[y]?.bind Node.branch) := by
  rintro _ _ _ _ (@⟨i, part, part', other, sits, sits'⟩ | @⟨j, part, part', sits, sits'⟩)
  · obtain ⟨x, listed, rfl⟩ := Route.spot_at sits.within
    rw [shaped.branch (root_listed _) (inlay.outer.seat_mem sits.within),
      shaped'.branch (root_listed _) (inlay.flat.seat_mem sits'.within), inlay.outer.next listed,
      inlay.next_outer listed other]
    exact onward_outer takes takes' inlines inside listed .branch
  · obtain ⟨x, listed, rfl⟩ := Route.spot_at sits.within
    rw [shaped.branch inlay.level_listed (inlay.reads.seat_mem sits.within),
      shaped'.branch (root_listed _) (inlay.flat.seat_mem sits'.within), inlay.reads.next listed,
      inlay.next_inner listed, if_neg nofun]
    exact onward_inner takes takes' inlines inside listed .branch

theorem entry_meets :
    (inlay.pairing leads).Meets (nodes[0]?.bind Node.entry) (nodes'[0]?.bind Node.entry) := by
  have enters {outline : Outline Stock} {nodes : Array (Node Stock)} {route : List Element}
      (shaped : Shaped outline nodes) (reads : outline.root.Reads route) :
      nodes[0]?.bind Node.entry = some (outline.root.seat route 0) := by
    obtain ⟨node, found, kind⟩ :=
      shaped.ends (root_listed outline) (Layout.ofOutline_first outline) rfl
    have found : nodes[0]? = some node := found
    rw [found, Option.bind_some, Node.entry, kind, reads.enters]
  rw [enters shaped inlay.outer, enters shaped' inlay.flat]
  have start := inlay.moved_early (Nat.zero_le _)
  have meets : (inlay.pairing leads).Meets (some (c.outline.root.seat route 0))
      (some (c'.outline.root.seat (inlineOf name body route) (inlay.moved 0))) :=
    outer_meets takes takes' inlines inside (Nat.zero_lt_of_lt inlay.place_within)
  rwa [start] at meets

theorem grounds : Grounds inlay.facing (inlay.pairing leads) nodes nodes' where
  mates := mates takes takes' inlines inside
  main := main_meets takes takes' inlines inside shaped shaped'
  branch := branch_meets takes takes' inlines inside shaped shaped'
  entry := entry_meets takes takes' inlines inside shaped shaped'
  passing := by
    rintro _ _ ⟨rfl, rfl⟩
    obtain ⟨node, found, kind⟩ := shaped.ends inlay.level_listed inlay.seats.node rfl
    rw [inlay.reads.enters] at kind
    exact ⟨node, _, found, kind⟩

end

end Inlay

end Sluice
