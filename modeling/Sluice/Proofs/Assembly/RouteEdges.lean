import Sluice.Proofs.Assembly.Trials
import Sluice.Proofs.Assembly.Connections
import Sluice.Proofs.Assembly.EdgeLinks
import Sluice.Proofs.Route.FanOuts
import Sluice.Stage.Catalogue

set_option autoImplicit false

namespace Sluice

variable {σ : Type}

def Level.Joins (s : Level) (hop : Route.Hop) (source target : Nat) : Prop :=
  s.find? (Literal.bareName hop.source) = some source ∧ ∃ reference,
    hop.target = some reference ∧ s.find? (Literal.bareName reference) = some target

namespace Wiring

theorem follower_last {levels : List Level} (ordered : levels.Pairwise Level.Before)
    {s : Level} (member : s ∈ levels) {earlier later : List Route.Hop} {hop : Route.Hop}
    (split : s.plan.hops = earlier ++ hop :: later) {source target : Nat}
    (joins : s.Joins hop source target)
    (last : ∀ other ∈ later, leadsFrom hop.edge source s other = none) :
    follower hop.edge source (edgesOf levels) = some target := by
  obtain ⟨before, after, rfl⟩ := List.append_of_mem member
  obtain ⟨starts, reference, ends, leads⟩ := joins
  -- Nothing that is linked later starts at this member.
  have outer : follower hop.edge source (edgesOf before) = none := by
    refine List.findSome?_eq_none_iff.mpr fun ⟨other, edge⟩ within => ?_
    obtain ⟨owner, outside, tag⟩ := List.mem_flatMap.mp within
    obtain ⟨_, _, same⟩ := List.mem_map.mp tag
    cases same
    by_contra some'
    obtain ⟨_, leads⟩ := Option.ne_none_iff_exists'.mp some'
    have apart := (List.pairwise_append.mp ordered).2.2 other outside s (by simp)
    exact absurd (apart.members source (leadsFrom_mem leads) source (Level.find?_mem starts))
      (Nat.lt_irrefl _)
  have own : follower hop.edge source (tagged s later) = none := by
    refine List.findSome?_eq_none_iff.mpr fun ⟨other, edge⟩ within => ?_
    obtain ⟨_, listed, same⟩ := List.mem_map.mp within
    cases same
    exact last _ (List.mem_reverse.mp listed)
  have here : leadsFrom hop.edge source s hop = some target := by
    simp [leadsFrom, starts, ends, leads]
  have whole : edgesOf (before ++ s :: after) =
      edgesOf before ++ (tagged s later ++ (s, hop) :: (tagged s earlier ++ edgesOf after)) := by
    simp [edgesOf, tagged, split]
  unfold follower at outer own ⊢
  rw [whole, List.findSome?_append, outer, List.findSome?_append, own, List.findSome?_cons, here]
  rfl

end Wiring

def Graph.onward (g : Graph σ) (outer id : NodeId) : Option NodeId :=
  if (g.node? outer).bind Node.exit = some id then (g.node? outer).bind Node.main else none

structure Level.Kept (s : Level) (g : Graph σ) : Prop where
  compiled : Route.Plan.read s.pipeline.route = .ok s.plan
  joined : ∀ hop ∈ s.plan.hops, hop.target.isSome → ∃ source target, s.Joins hop source target
  branch : ∀ hop ∈ s.plan.hops, hop.edge = .branch → ∀ source target, s.Joins hop source target →
    (g.node? source).bind Node.branch = some target
  /-- Of the main edges out of a node the last counts, unless the pipeline is left there and leads
  on. -/
  main : ∀ earlier hop later, s.plan.hops = earlier ++ hop :: later → hop.edge = .main →
    ∀ source target, s.Joins hop source target →
      (∀ other ∈ later, other.edge = .main → ∀ elsewhere, ¬s.Joins other source elsewhere) →
        (g.node? source).bind Node.main = (g.onward s.node source).or (some target)

namespace Blueprint

variable [Stage σ]

theorem node?_make {nodes : Array (Node σ)} {e : Environment} {history : List (Event σ)} {id : Nat}
    (within : id < nodes.size) : (Graph.make nodes 0 e history).node? id = nodes[id]? :=
  Array.getElem?_push.trans (if_neg (Nat.ne_of_lt within))

theorem node?_make_cases {nodes : Array (Node σ)} {e : Environment} {history : List (Event σ)}
    {id : Nat} {node : Node σ} (found : (Graph.make nodes 0 e history).node? id = some node) :
    nodes[id]? = some node ∨ id = nodes.size ∧ node = Graph.pumpSinkNode := by
  have pushed : (Graph.make nodes 0 e history).node? id =
      if id = nodes.size then some Graph.pumpSinkNode else nodes[id]? := Array.getElem?_push
  rw [found] at pushed
  split at pushed
  next last => exact .inr ⟨last, Option.some.inj pushed⟩
  next => exact .inl pushed.symm

theorem Connected.kept {outline : Outline σ} {nodes : Array (Node σ)} (e : Environment)
    (history : List (Event σ)) (connected : Connected outline nodes) {s : Level}
    (member : s ∈ (Layout.ofOutline outline).levels) :
    s.Kept (Graph.make nodes 0 e history) := by
  have ordered := Layout.ofOutline_ordered outline
  have declared := (Layout.ofOutline_declared connected.declared).levels s member
  have inside {name : String} {id : Nat} (found : s.find? name = some id) : id < nodes.size :=
    connected.size ▸ ordered.members s member id (Level.find?_mem found)
  have onward (id : Nat) : (Graph.make nodes 0 e history).onward s.node id =
      Wiring.outward nodes s id := by
    have within : nodes.size > s.node := connected.size ▸ ordered.nodes s member
    rw [Graph.onward, node?_make within]
    rfl
  refine ⟨declared.1, fun hop listed leads => ?_, fun hop listed edge source target joins => ?_,
    fun earlier hop later split edge source target joins last => ?_⟩
  · obtain ⟨reference, ends⟩ := Option.isSome_iff_exists.mp leads
    obtain ⟨source, starts⟩ := Wiring.lookup_end_ok declared listed List.mem_cons_self
    obtain ⟨target, follows⟩ := Wiring.lookup_end_ok declared listed
      (List.mem_cons_of_mem _ (Option.mem_toList.mpr ends))
    exact ⟨source, target, Wiring.lookup_found starts, reference, ends, Wiring.lookup_found follows⟩
  · -- No other edge is the branch of the same fan-out.
    obtain ⟨later, earlier, split, apart⟩ :=
      List.eq_append_cons_of_mem (List.mem_reverse.mpr listed)
    have split : s.plan.hops = earlier.reverse ++ hop :: later.reverse := by
      rw [← List.reverse_reverse s.plan.hops, split]
      simp
    have follows := Wiring.follower_last ordered.order member split joins fun other within => ?_
    · rw [node?_make (inside joins.1), connected.wired.branch source (inside joins.1), ← edge, follows]
    · unfold Wiring.leadsFrom
      refine if_neg fun ⟨edge', starts⟩ => apart ?_
      have listed' : other ∈ s.plan.hops := by
        rw [split]
        simp [List.mem_reverse.mp within]
      have same := Route.read_branch_unique declared.1 listed listed' edge (edge'.trans edge)
        (Level.find?_inj (ordered.distinct s member) joins.1 starts)
      exact same ▸ List.mem_reverse.mp within
  · have follows := Wiring.follower_last ordered.order member split joins fun other within => ?_
    · rw [node?_make (inside joins.1), onward, connected.wired.main s (by simpa using member) source
        (Level.find?_mem joins.1) (inside joins.1), ← edge, follows]
    · unfold Wiring.leadsFrom
      split
      next starts =>
        cases ends : other.target with
        | none => rfl
        | some reference =>
          rw [Option.bind_some]
          by_contra found
          obtain ⟨elsewhere, found⟩ := Option.ne_none_iff_exists'.mp found
          exact last other within (starts.1.trans edge) elsewhere
            ⟨starts.2, reference, ends, found⟩
      next => rfl

/-- No branch edge of a route is lost, and of the main edges only those that a later one out of the
same node takes the place of, or what comes after a sub-graph at the node where that is left. A
sub-graph that leads on does so where it is left. -/
theorem route_edges_kept {b : Blueprint σ} {g : Graph σ} (built : b.build.1 = .ok g) :
    (∃ outline, (Outline.declare b.registry b.pipeline).run.1 = .ok outline ∧
      ∀ s ∈ (Layout.ofOutline outline).levels, s.Kept g) ∧
    ∀ id node, g.node? id = some node → ∀ entry exit, node.kind = .subGraph entry exit →
      ∀ next, node.main = some next →
        ∃ inner, exit = some inner ∧ (g.node? inner).bind Node.main = some next := by
  obtain ⟨outline, nodes, history, declared, rfl, connected⟩ := b.build_connected built
  refine ⟨⟨outline, declared, fun s member => connected.kept _ _ member⟩, ?_⟩
  intro id node found entry exit kind next leads
  have ordered := Layout.ofOutline_ordered outline
  rcases node?_make_cases found with found | ⟨-, rfl⟩
  · obtain ⟨inner, leaves⟩ := connected.left id ⟨node, entry, exit, found, kind⟩
    obtain ⟨s, member, rfl, inside⟩ := connected.wired.exits id inner leaves
    have room : inner < nodes.size := connected.size ▸ ordered.members s member inner inside
    have outward : Wiring.outward nodes s inner = some next := by
      rw [Wiring.outward, if_pos leaves, found]
      exact leads
    refine ⟨inner, ?_, ?_⟩
    · rw [found, Option.bind_some, Node.exit, kind] at leaves
      exact leaves
    · rw [node?_make room, connected.wired.main s member inner inside room, outward]
      rfl
  · -- The pump sink is a stage.
    cases kind

def spreading : Blueprint Stock where
  pipeline := ⟨"line", "", [], false,
    "inner (wrap (sink) reverse_string wrap) inner (pass_through) sink", []⟩
  registry := { Stock.registry with
    graphs := [("inner", ⟨"inner", "", [], false,
      "reverse_string wrap reverse_string (seq_packet)", []⟩)] }
  params := []
  environment := .empty

theorem spreading_edges_kept : ∃ g outline, spreading.build.1 = .ok g ∧
    (Outline.declare spreading.registry spreading.pipeline).run.1 = .ok outline ∧
      (∀ s ∈ (Layout.ofOutline outline).levels, s.Kept g) ∧
        g.nodes.toList.map Node.main = [none, some 7, some 1, some 4, some 6, none, some 3, some 5,
          none, some 11, some 9, none, some 7, none] := by
  have linked : spreading.passes (fun g => g.nodes.toList.map Node.main == [none, some 7, some 1,
      some 4, some 6, none, some 3, some 5, none, some 11, some 9, none, some 7, none]) = true := by
    decide +kernel
  obtain ⟨g, built, linked⟩ := of_passes linked
  obtain ⟨⟨outline, declared, kept⟩, -⟩ := route_edges_kept built
  exact ⟨g, outline, built, declared, kept, beq_iff_eq.mp linked⟩

def losesEdge (g : Graph σ) (s : Level) (hop : Route.Hop) : Bool :=
  match s.find? (Literal.bareName hop.source), hop.target with
  | some source, some reference =>
    match s.find? (Literal.bareName reference) with
    | some target => hop.edge == .main && (g.node? source).bind Node.main != some target
    | none => false
  | _, _ => false

def lostEdges (b : Blueprint σ) : List Route.Hop :=
  match b.build.1, (Outline.declare b.registry b.pipeline).run.1 with
  | .ok g, .ok outline => (Layout.ofOutline outline).levels.flatMap fun s =>
    s.plan.hops.filter (losesEdge g s)
  | _, _ => []

theorem lostEdges_lost {b : Blueprint σ} {hop : Route.Hop} (lost : hop ∈ lostEdges b) :
    ∃ g outline s source target, b.build.1 = .ok g ∧
      (Outline.declare b.registry b.pipeline).run.1 = .ok outline ∧
        s ∈ (Layout.ofOutline outline).levels ∧ hop ∈ s.plan.hops ∧ hop.edge = .main ∧
          s.Joins hop source target ∧ (g.node? source).bind Node.main ≠ some target := by
  unfold lostEdges at lost
  split at lost
  next g outline built declared =>
    obtain ⟨s, member, lost⟩ := List.mem_flatMap.mp lost
    obtain ⟨listed, lost⟩ := List.mem_filter.mp lost
    unfold losesEdge at lost
    split at lost
    next source reference starts ends =>
      split at lost
      next target follows =>
        simp only [Bool.and_eq_true, beq_iff_eq, bne_iff_ne] at lost
        exact ⟨g, outline, s, source, target, built, declared, member, listed, lost.1,
          ⟨starts, reference, ends, follows⟩, lost.2⟩
      next => cases lost
    next => cases lost
  next => cases lost

def doubling : Blueprint Stock where
  pipeline := ⟨"line", "", [], false, "reverse_string sink reverse_string wrap", []⟩
  registry := Stock.registry
  params := []
  environment := .empty

def continuing : Blueprint Stock where
  pipeline := ⟨"line", "", [], false, "inner sink", []⟩
  registry := { Stock.registry with
    graphs := [("inner", ⟨"inner", "", [], false, "reverse_string wrap reverse_string", []⟩)] }
  params := []
  environment := .empty

/-- Main edges are lost where a name is repeated, and where a sub-graph is left. -/
theorem repeated_name_loses_edge :
    (∃ g outline s hop source target, doubling.build.1 = .ok g ∧
      (Outline.declare doubling.registry doubling.pipeline).run.1 = .ok outline ∧
        s ∈ (Layout.ofOutline outline).levels ∧ hop ∈ s.plan.hops ∧ hop.edge = .main ∧
          s.Joins hop source target ∧ (g.node? source).bind Node.main ≠ some target) ∧
    ∃ g outline s hop source target, continuing.build.1 = .ok g ∧
      (Outline.declare continuing.registry continuing.pipeline).run.1 = .ok outline ∧
        s ∈ (Layout.ofOutline outline).levels ∧ hop ∈ s.plan.hops ∧ hop.edge = .main ∧
          s.Joins hop source target ∧ (g.node? source).bind Node.main ≠ some target := by
  have lost : ⟨"reverse_string", .main, some "sink"⟩ ∈ lostEdges doubling := by decide +kernel
  have lost' : ⟨"reverse_string", .main, some "wrap"⟩ ∈ lostEdges continuing := by decide +kernel
  obtain ⟨g, outline, s, source, target, rest⟩ := lostEdges_lost lost
  obtain ⟨g', outline', s', source', target', rest'⟩ := lostEdges_lost lost'
  exact ⟨⟨g, outline, s, _, source, target, rest⟩, g', outline', s', _, source', target', rest'⟩

end Blueprint

end Sluice
