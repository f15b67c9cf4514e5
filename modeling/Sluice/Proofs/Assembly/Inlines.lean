import Sluice.Proofs.Assembly.ParamTables
import Sluice.Proofs.Assembly.FanOuts
import Sluice.Proofs.Assembly.Inlay

set_option autoImplicit false

namespace Sluice

variable {σ : Type}

open Layout (joinPath ofOutline)
open Route (Element Spot inlineOf nameAt spotsOf stagesOf widthOf)

/-- A pipeline has a sub-graph that declares no parameters on its route, and another one, which says
the same of all members, has the route of the sub-graph in place of that. -/
structure Inlines (r : Registry σ) (p sub q : Pipeline) (name : String)
    (route body : List Element) : Prop where
  outer : Route.read p.route = .ok route
  inner : Route.read sub.route = .ok body
  flat : Route.read q.route = .ok (inlineOf name body route)
  uses : name ∈ (stagesOf route).map Literal.bareName
  apart : Route.Apart route body
  unstaged : Outline.firstRegistered r.stages (Outline.typeNames p name) = none
  registered : ∃ typeName,
    Outline.firstRegistered r.graphs (Outline.typeNames p name) = some (typeName, sub)
  keyless : sub.keys = []
  typeName : q.typeName = p.typeName
  keys : q.keys = p.keys
  dynamic : q.dynamic = p.dynamic
  dynamic' : sub.dynamic = p.dynamic
  sections : ∀ reference ∈ stagesOf route, Literal.bareName reference ≠ name →
    q.sections.at? (Literal.bareName reference) = p.sections.at? (Literal.bareName reference)
  sections' : ∀ reference ∈ stagesOf body,
    q.sections.at? (Literal.bareName reference) = sub.sections.at? (Literal.bareName reference)

namespace Blueprint.Takes

variable [Stage σ] {b : Blueprint σ} {c : Course σ} {nodes : Array (Node σ)} (takes : b.Takes c nodes)
include takes

theorem reads {s : Level} {p : Pipeline} {route : List Element}
    (listed : s ∈ (ofOutline c.outline).levels) (same : s.pipeline = p)
    (read : Route.read p.route = .ok route) (distinct : Route.Distinct route) : s.Reads route :=
  ⟨same ▸ read, (Layout.ofOutline_declared (Outline.declare_declared takes.declared)).levels s listed,
    (Layout.ofOutline_ordered c.outline).distinct s listed, distinct⟩

theorem inlay {sub q : Pipeline} {name : String} {route body : List Element} {c' : Course σ}
    {nodes' : Array (Node σ)} (takes' : Takes { b with pipeline := q } c' nodes')
    (inlines : Inlines b.registry b.pipeline sub q name route body) :
    ∃ inlay : Inlay c.outline c'.outline name route body, inlay.graph.pipeline = sub := by
  obtain ⟨whole, allTyped⟩ := Outline.declare_allTyped takes.declared
  obtain ⟨whole', allTyped'⟩ := Outline.declare_allTyped takes'.declared
  obtain ⟨-, proper⟩ := ((Route.read_ok_iff _ _).mp inlines.outer).1
  obtain ⟨filled, proper'⟩ := ((Route.read_ok_iff _ _).mp inlines.inner).1
  obtain ⟨before, here, later, splices⟩ := Route.inlineOf_splices proper' filled 0 none false route
    proper inlines.apart.outer.stages inlines.uses
  have outer : c.outline.root.Reads route := takes.reads (Inlay.root_listed _) whole
    inlines.outer inlines.apart.outer
  have flat : c'.outline.root.Reads (inlineOf name body route) := takes'.reads (Inlay.root_listed _)
    whole' inlines.flat (inlines.apart.flat splices)
  -- What stands where the name does is the sub-graph.
  obtain ⟨reference, written, same⟩ := splices.named
  obtain ⟨part, sits⟩ := (Layout.ofOutline_has c.outline).sits outer (Route.spot_within splices.listed)
  have named := (sits.written splices.listed rfl written).1.trans same
  have plain := (sits.plain outer allTyped splices.listed rfl written).1
  have of := sits.of allTyped
  rw [named] at plain of
  rw [whole] at of
  obtain ⟨typeName, found⟩ := inlines.registered
  cases of with
  | fanOut forks => exact absurd forks plain
  | stage _ found' =>
    rw [inlines.unstaged] at found'
    cases found'
  | @subGraph typeName' graph _ _ found' =>
    obtain ⟨-, pipeline⟩ := Prod.mk.inj (Option.some.inj (found.symm.trans found'))
    obtain ⟨first, has⟩ := sits.seats.inner _ graph rfl
    have inner := takes.reads has.listed pipeline.symm inlines.inner inlines.apart.inner
    exact ⟨
      { before, here, later, member := _, graph, first, splices, outer, flat,
        seats := sits.seats, named, listed := sits.listed, has, inner }, pipeline.symm⟩

omit takes in
theorem root_params {b b' : Blueprint σ} {c c' : Course σ} {nodes nodes' : Array (Node σ)}
    (takes : b.Takes c nodes) (takes' : b'.Takes c' nodes')
    (essentials : b'.registry.essentials = b.registry.essentials) (params : b'.params = b.params)
    (typeName : b'.pipeline.typeName = b.pipeline.typeName) (keys : b'.pipeline.keys = b.pipeline.keys) :
    Binding.paramsOf c'.bound.nodes 0 = Binding.paramsOf c.bound.nodes 0 := by
  obtain ⟨root, after, first, done, bound⟩ := takes.binds.root
  obtain ⟨root', after', first', done', bound'⟩ := takes'.binds.root
  obtain rfl := Option.some.inj ((Layout.ofOutline_first c.outline).symm.trans first)
  obtain rfl := Option.some.inj ((Layout.ofOutline_first c'.outline).symm.trans first')
  have same : Layout.rootNode c'.outline = Layout.rootNode c.outline := by
    rw [Layout.rootNode, Layout.rootNode, Outline.declared, Outline.declared,
      (Outline.declare_allTyped takes.declared).1, (Outline.declare_allTyped takes'.declared).1, typeName, keys]
  rw [same, essentials, params, done] at done'
  cases done'
  rw [Binding.paramsOf, Binding.paramsOf, bound, bound']

theorem params_empty {s : Level} {id : Nat} {path : String} {member : Member} {inner : Outline σ}
    (seats : (ofOutline c.outline).Seats s id path (.subGraph member inner))
    (keyless : inner.pipeline.keys = []) : (Binding.paramsOf c.bound.nodes id).values = [] := by
  obtain ⟨node, after, was, done, bound⟩ := takes.binds.members s seats.listed _ seats.inside
  obtain rfl := Option.some.inj (seats.node.symm.trans was)
  have filled := Binding.bindMember_filled (Layout.nodeOf_blank path _) done
  obtain ⟨t, dynamic, rfl⟩ := Binding.bindMember_form done
  have closed (key : String) (has : t.has key = true) : False := by
    have declares := filled.closed key has
    rw [Layout.nodeOf_declared, Part.params, Outline.declared, keyless] at declares
    cases declares
  rw [Binding.paramsOf, bound]
  change t.values = []
  cases values : t.values with
  | nil => rfl
  | cons entry rest => exact (closed entry.1 (by simp [ParamTable.has, values, Dict.has, Dict.at?])).elim

end Blueprint.Takes

section

variable [Stage σ]

theorem Graph.numbered_make (nodes : Array (Node σ)) (root : NodeId) (e : Environment)
    (history : List (Event σ)) : (Graph.make nodes root e history).numbered =
      nodes.toList.zipIdx.map fun entry => (entry.2, entry.1) := by
  have within : ∀ entry ∈ nodes.toList.zipIdx.map fun entry => (entry.2, entry.1),
      (entry.1 != nodes.size) = true := by
    intro entry listed
    obtain ⟨⟨node, id⟩, inside, rfl⟩ := List.mem_map.mp listed
    have high := (List.mem_zipIdx inside).2.1
    rw [Nat.zero_add, Array.length_toList] at high
    exact bne_iff_ne.mpr (Nat.ne_of_lt high)
  have last : (List.map (fun entry : Node σ × Nat => (entry.2, entry.1))
      ([pumpSinkNode].zipIdx nodes.size)).filter (fun entry => entry.1 != nodes.size) = [] := by
    simp
  unfold numbered make
  dsimp only
  rw [Array.toList_push, List.zipIdx_append, List.map_append, List.filter_append, Nat.zero_add,
    Array.length_toList]
  exact (congrArg₂ (· ++ ·) (List.filter_eq_self.mpr within) last).trans (List.append_nil _)

theorem Graph.find?_make {nodes : Array (Node σ)} {root : NodeId} {e : Environment}
    {history : List (Event σ)} {id : Nat} {node : Node σ} (found : nodes[id]? = some node)
    (first : ∀ (j : Nat) (other : Node σ), j < id → nodes[j]? = some other → other.path ≠ node.path) :
    (Graph.make nodes root e history).find? node.path = some (id, node) := by
  rw [find?, numbered_make, List.find?_map]
  have there : (nodes.toList.zipIdx)[id]? = some (node, id) := by
    rw [List.getElem?_zipIdx, Array.getElem?_toList, found, Nat.zero_add]
    rfl
  obtain ⟨within, here⟩ := List.getElem?_eq_some_iff.mp there
  have whole : nodes.toList.zipIdx.find? ((fun entry : NodeId × Node σ => entry.2.path == node.path) ∘
      fun entry : Node σ × Nat => (entry.2, entry.1)) = some (node, id) := by
    refine List.find?_eq_some_iff_getElem.mpr ⟨by simp, id, within, here, fun j early => ?_⟩
    have inside : j < nodes.size := by simpa using Nat.lt_trans early within
    have other := first j nodes[j] early (Array.getElem?_eq_getElem inside)
    simpa using other
  rw [whole]
  rfl

theorem Blueprint.Takes.find?_member {b : Blueprint σ} {c : Course σ} {nodes : Array (Node σ)}
    (takes : b.Takes c nodes) {id : Nat} {member : Member}
    (inside : (id, member) ∈ c.outline.root.members) (onRoute : member.name ∈ c.outline.root.plan.names)
    (filled : member.name ≠ "") (e : Environment) (history : List (Event σ)) :
    ∃ node, nodes[id]? = some node ∧
      (Graph.make nodes 0 e history).find? member.name = some (id, node) := by
  have has := Layout.ofOutline_has c.outline
  have paths := takes.kept (f := fun node => node.path) ⟨⟨fun _ _ _ _ _ => rfl⟩, fun _ _ _ => rfl⟩
    ⟨⟨fun _ _ => rfl, fun _ _ => rfl⟩, fun _ _ _ _ _ _ => rfl⟩
  have path {j : Nat} {part : Part σ} {node : Node σ} (at' : c.outline.parts[j]? = some part)
      (found : nodes[1 + j]? = some node) : node.path = part.member.name := by
    have same := congrArg (·[1 + j]?) paths
    simp only [Array.getElem?_map, found, (has.seats at').node, Option.map_some, Option.some.injEq] at same
    rw [same]
    cases part <;> rfl
  obtain ⟨i, part, at', rfl, rfl⟩ := Layout.mem_level inside
  obtain ⟨node, found⟩ : ∃ node, nodes[1 + i]? = some node := by
    have same := congrArg (·[1 + i]?) paths
    simp only [Array.getElem?_map, (has.seats at').node, Option.map_some] at same
    obtain ⟨node, found, -⟩ := Option.map_eq_some_iff.mp same
    exact ⟨node, found⟩
  refine ⟨node, found, path at' found ▸ Graph.find?_make found fun j other early there same => ?_⟩
  rw [path at' found] at same
  cases j with
  | zero =>
    have root := congrArg (·[0]?) paths
    simp only [Array.getElem?_map, there, Layout.ofOutline_first, Option.map_some,
      Option.some.injEq] at root
    exact filled (same.symm.trans root)
  | succ m =>
    obtain ⟨within, -⟩ := List.getElem?_eq_some_iff.mp at'
    have at'' : c.outline.parts[m]? = some c.outline.parts[m] := List.getElem?_eq_getElem (by omega)
    rw [Nat.add_comm] at there
    have named := (path at'' there).symm.trans same
    -- A name on the route stands for one member.
    have declared : c.outline.root.Declared :=
      (Layout.ofOutline_declared (Outline.declare_declared takes.declared)).levels _ has.listed
    have one := declared.unique inside (has.seats at'').inside named onRoute
    have := congrArg Prod.fst one
    dsimp only at this
    omega

end

namespace Inlay

variable {o o' : Outline σ} {name : String} {route body : List Element}
  (inlay : Inlay o o' name route body)

theorem differs {i : Nat} (within : i < widthOf route) (other : i ≠ inlay.here.place) :
    Literal.bareName (nameAt route i) ≠ name := by
  intro same
  obtain ⟨reference, written, named⟩ := inlay.splices.named
  have called := Route.spotsOf_named 0 0 none route (Route.nameAt_names route) inlay.here
    inlay.splices.listed
  unfold Spot.Named at called
  rw [written] at called
  refine other (inlay.outer.bare_inj within inlay.place_within ?_)
  rw [same, called, named]

variable {inlay} {r : Registry σ} {p sub q : Pipeline} (inlines : Inlines r p sub q name route body)
  (whole : o.pipeline = p) (whole' : o'.pipeline = q) (inside : inlay.graph.pipeline = sub)
  (allTyped : o.AllTyped r) (allTyped' : o'.AllTyped r) {a b : Nat} {part part' : Part σ}
  (starts : inlay.Starts a b part part')
include inlines whole whole' inside allTyped allTyped' starts

theorem Starts.peers : part.Peers part' := by
  cases starts with
  | @outer i _ _ other sits sits' =>
    obtain ⟨x, listed, rfl⟩ := Route.spot_at sits.within
    have written {reference : String} (written : x.reference = some reference) :
        reference ∈ stagesOf route ∧ Literal.bareName reference ≠ name := by
      obtain ⟨named, inside⟩ := sits.written listed rfl written
      exact ⟨inside, named ▸ sits.named ▸ inlay.differs sits.within other⟩
    refine sits.peers inlay.outer allTyped listed rfl sits' inlay.flat allTyped'
      (inlay.splices.outer listed other) rfl rfl (fun reference here => ?_) fun reference here => ?_
    · rw [whole, whole']
      exact inlines.sections reference (written here).1 (written here).2
    · exact inlines.apart.filter_outer inlay.splices (written here).1 (written here).2
  | @inner j _ _ sits sits' =>
    obtain ⟨x, listed, rfl⟩ := Route.spot_at sits.within
    have nested := allTyped.part inlay.listed _ _ rfl
    refine sits.peers inlay.inner nested listed rfl sits' inlay.flat allTyped'
      (inlay.splices.inner inlay.inner.proper.2 listed) rfl rfl (fun reference here => ?_)
      fun reference here => ?_
    · rw [inside, whole']
      exact inlines.sections' reference (sits.written listed rfl here).2
    · exact inlines.apart.filter_inner inlay.splices (sits.written listed rfl here).2

theorem Starts.mates : ∃ s s' path path', (s = o.root ∧ s' = o'.root ∨ s = inlay.level ∧ s' = o'.root) ∧
    (ofOutline o).Mates (ofOutline o') (LeadsInto name body) s s' a b path path' part part' := by
  have peers := starts.peers inlines whole whole' inside allTyped allTyped'
  cases starts with
  | @outer i _ _ other sits sits' =>
    refine ⟨_, _, _, _, .inl ⟨rfl, rfl⟩, sits.seats, sits'.seats, peers, fun plain => ?_, ?_⟩
    · exact .inl (congrArg (joinPath "") (peers.same plain).name)
    · exact (congrArg Pipeline.dynamic whole').trans
        (inlines.dynamic.trans (congrArg Pipeline.dynamic whole.symm))
  | @inner j _ _ sits sits' =>
    refine ⟨_, _, _, _, .inr ⟨rfl, rfl⟩, sits.seats, sits'.seats, peers, fun plain => ?_, ?_⟩
    · obtain ⟨x, listed, rfl⟩ := Route.spot_at sits.within
      have nested := allTyped.part inlay.listed _ _ rfl
      cases written : x.reference with
      | none =>
        obtain ⟨member, rfl⟩ := sits.forks inlay.inner nested listed rfl written
        cases plain
      | some reference =>
        obtain ⟨named, there⟩ := sits.written listed rfl written
        have same := (peers.same plain).name
        refine .inr ⟨⟨name, List.mem_cons_self, _, rfl⟩, .inr ⟨same, fun inner => ?_⟩⟩
        exact ⟨_, List.mem_cons_of_mem _ (List.mem_map_of_mem there), inner,
          congrArg (joinPath · inner) (same.trans named)⟩
    · exact (congrArg Pipeline.dynamic whole').trans (inlines.dynamic.trans
        (inlines.dynamic'.symm.trans (congrArg Pipeline.dynamic inside.symm)))

end Inlay

end Sluice
