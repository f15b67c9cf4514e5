import Mathlib.Data.List.FinRange
import Sluice.Proofs.Assembly.Trials
import Sluice.Proofs.Assembly.RouteEdges
import Sluice.Proofs.Assembly.Outlines
import Sluice.Proofs.Assembly.Ranks
import Sluice.Proofs.Route.Branches
import Sluice.Proofs.Stage.ParamReads

set_option autoImplicit false

namespace Sluice

variable {σ : Type}

theorem Level.Declared.unique {s : Level} (declared : s.Declared) {entry other : NodeId × Member}
    (listed : entry ∈ s.members) (listed' : other ∈ s.members)
    (same : other.2.name = entry.2.name) (onRoute : entry.2.name ∈ s.plan.names) : other = entry := by
  have names := declared.2
  unfold Outline.memberNames at names
  obtain ⟨routed, added, split, first, second⟩ := List.map_eq_append_iff.mp names
  have distinct : (routed.map fun entry => entry.2.name).Nodup :=
    first ▸ Route.read_names_nodup declared.1
  have within {x : NodeId × Member} (listed : x ∈ s.members) (onRoute : x.2.name ∈ s.plan.names) :
      x ∈ routed := by
    rw [split] at listed
    rcases List.mem_append.mp listed with here | there
    · exact here
    · -- What is added has names that are not on the route.
      have named := List.mem_map_of_mem (f := fun entry : NodeId × Member => entry.2.name) there
      rw [second] at named
      simp [onRoute] at named
  exact List.inj_on_of_nodup_map distinct (within listed' (same ▸ onRoute)) (within listed onRoute) same

theorem Level.Declared.find? {s : Level} (declared : s.Declared) {id : NodeId} {member : Member}
    (listed : (id, member) ∈ s.members) (onRoute : member.name ∈ s.plan.names) :
    s.find? member.name = some id := by
  cases found : s.find? member.name with
  | none =>
    have absent := List.find?_eq_none.mp (Option.map_eq_none_iff.mp found)
    exact absurd (absent _ (List.mem_reverse.mpr listed)) (by simp)
  | some other =>
    obtain ⟨member', listed', same⟩ := Level.find?_name found
    have one := declared.unique listed listed' same onRoute
    exact congrArg (fun entry => some entry.1) one

/-- The fan-outs of a pipeline in a graph: there is one for each branch of its route, and besides
only what was written on the route with such a name. -/
structure Level.Forked (s : Level) (g : Graph σ) (route : List Route.Element) : Prop where
  branch : ∀ (i : Nat) inner, (Route.branchesOf route)[i]? = some inner →
    ∃ id node head target, s.find? (Route.fanOutName (i + 1)) = some id ∧ g.node? id = some node ∧
      node.isFanOut = true ∧ Route.headOf inner = some head ∧
        s.find? (Literal.bareName head) = some target ∧ node.branch = some target
  only : ∀ id member, (id, member) ∈ s.members → ∃ node, g.node? id = some node ∧
    (node.isFanOut = true ↔
      (Route.isFanOutName member.name = true ∧
        member.name ∈ s.plan.references.map Literal.bareName) ∨
      ∃ i, i < (Route.branchesOf route).length ∧ member.name = Route.fanOutName (i + 1))

/-- Nothing is written on the route, and no section is named, as a fan-out would be. -/
structure Level.Unclaimed (s : Level) : Prop where
  written : ∀ reference ∈ s.plan.references,
    Route.isFanOutName (Literal.bareName reference) = false
  sections : ∀ name ∈ s.pipeline.sections.keys, name ∉ s.plan.fanOuts

def Level.Accounted (s : Level) (route : List Route.Element) : Prop :=
  ∀ reference ∈ s.plan.references, Route.isFanOutName (Literal.bareName reference) = true →
    ∃ i, i < (Route.branchesOf route).length ∧ Literal.bareName reference = Route.fanOutName (i + 1)

/-- The nodes of a pipeline that fan out are given by its branches, in the order in which those open,
and each leads to the head of its branch. None of them is a stage that was written or has a
section. -/
structure Level.Branched (s : Level) (g : Graph σ) (route : List Route.Element)
    (forks : List NodeId) : Prop where
  distinct : forks.Nodup
  all : ∀ id, id ∈ forks ↔ id ∈ s.ids ∧ ∃ node, g.node? id = some node ∧ node.isFanOut = true
  heads : List.Forall₂ (fun id inner => ∃ head target, Route.headOf inner = some head ∧
    s.find? (Literal.bareName head) = some target ∧
      (g.node? id).bind Node.branch = some target) forks (Route.branchesOf route)
  apart : ∀ id member, (id, member) ∈ s.members →
    member.name ∈ s.plan.references.map Literal.bareName ∨
      member.name ∈ s.pipeline.sections.keys → id ∉ forks

namespace Blueprint

variable [Stage σ]

theorem Connected.fans {outline : Outline σ} {nodes : Array (Node σ)} {r : Registry σ}
    (connected : Connected outline nodes) (allTyped : outline.AllTyped r) (e : Environment)
    (history : List (Event σ)) {s : Level} (member : s ∈ (Layout.ofOutline outline).levels)
    {id : NodeId} {inside : Member} (listed : (id, inside) ∈ s.members) :
    ∃ node, (Graph.make nodes 0 e history).node? id = some node ∧
      (node.isFanOut = true ↔ inside.name ∈ s.plan.fanOuts) := by
  obtain ⟨part, path, of, rfl, there⟩ := (Layout.ofOutline_lays member).member allTyped listed
  have kinds := congrArg (·[id]?) connected.forks
  simp only [Array.getElem?_map, there, Option.map_some] at kinds
  obtain ⟨node, found, same⟩ := Option.map_eq_some_iff.mp kinds
  have within := (Array.getElem?_eq_some_iff.mp found).1
  refine ⟨node, by rw [node?_make within, found], ?_⟩
  rw [same]
  generalize part.member.name = name at of ⊢
  cases of with
  | fanOut forks => exact iff_of_true rfl forks
  | stage plain found => exact iff_of_false nofun plain
  | subGraph plain other found => exact iff_of_false nofun plain

theorem Connected.forked {outline : Outline σ} {nodes : Array (Node σ)} {r : Registry σ}
    (connected : Connected outline nodes) (allTyped : outline.AllTyped r) (e : Environment)
    (history : List (Event σ)) {s : Level} (member : s ∈ (Layout.ofOutline outline).levels) :
    ∃ route, Route.read s.pipeline.route = .ok route ∧ s.plan = .ofElements route ∧
      s.Forked (Graph.make nodes 0 e history) route := by
  have declared := (Layout.ofOutline_declared connected.declared).levels s member
  have kept := connected.kept e history member
  obtain ⟨route, parsed, plan⟩ := (Route.Plan.read_ok_iff _ _).mp declared.1
  have plan := plan.symm
  have proper := ((Route.read_ok_iff _ _).mp parsed).1
  have references := Route.ofElements_references proper
  refine ⟨route, parsed, plan, fun i inner at' => ?_, fun id inside listed => ?_⟩
  -- The edge onto the branch is among the edges of the route, so it has been linked.
  · have hop : Route.branchHop (i + 1) inner ∈ s.plan.hops := by
      have inside := Route.branchesOf_hop 0 route i inner at'
      rw [Nat.zero_add] at inside
      rw [plan, Route.ofElements_hops proper]
      exact List.mem_eraseDups.mpr inside
    obtain ⟨head, heads⟩ := Route.headOf_proper
      (Route.branchesOf_proper false route proper.2 inner (List.mem_of_getElem? at'))
    obtain ⟨source, target, joins⟩ := kept.joined _ hop (by simp [Route.branchHop, heads])
    obtain ⟨starts, reference, ends, found⟩ := joins
    have leads := kept.branch _ hop rfl source target ⟨starts, reference, ends, found⟩
    have starts : s.find? (Route.fanOutName (i + 1)) = some source := by
      rwa [Route.branchHop, Route.bareName_fanOutName] at starts
    obtain rfl : head = reference := Option.some.inj (heads.symm.trans ends)
    obtain ⟨node, there, branch⟩ := Option.bind_eq_some_iff.mp leads
    refine ⟨source, node, head, target, starts, there, ?_, heads, found, branch⟩
    obtain ⟨other, listed, named⟩ := Level.find?_name starts
    obtain ⟨node', there', fans⟩ := connected.fans allTyped e history member listed
    obtain rfl : node' = node := Option.some.inj (there'.symm.trans there)
    refine fans.mpr ?_
    rw [named, plan, Route.mem_fanOuts_iff proper]
    exact .inr ⟨i, (List.getElem?_eq_some_iff.mp at').1, rfl⟩
  · obtain ⟨node, there, fans⟩ := connected.fans allTyped e history member listed
    refine ⟨node, there, fans.trans ?_⟩
    rw [plan, Route.mem_fanOuts_iff proper, ← references]

end Blueprint

theorem Level.Forked.branched {s : Level} {g : Graph σ} {route : List Route.Element}
    (forked : s.Forked g route) (declared : s.Declared) (distinct : s.ids.Nodup) (plan : s.plan = .ofElements route)
    (proper : Route.ProperRoute route) (unclaimed : s.Unclaimed) :
    ∃ forks, s.Branched g route forks := by
  have names (i : Nat) (within : i < (Route.branchesOf route).length) :
      Route.fanOutName (i + 1) ∈ s.plan.fanOuts := by
    rw [plan, Route.mem_fanOuts_iff proper]
    exact .inr ⟨i, within, rfl⟩
  -- A name that is written, or that a section has, is not that of a branch.
  have plain {name : String} (claimed : name ∈ s.plan.references.map Literal.bareName ∨
      name ∈ s.pipeline.sections.keys) (i : Nat) (within : i < (Route.branchesOf route).length) :
      name ≠ Route.fanOutName (i + 1) := by
    rintro rfl
    rcases claimed with written | section'
    · obtain ⟨reference, listed, same⟩ := List.mem_map.mp written
      have other := unclaimed.written reference listed
      rw [same, Route.isFanOutName_fanOutName] at other
      cases other
    · exact unclaimed.sections _ section' (names i within)
  have fans {id : NodeId} {member : Member} (listed : (id, member) ∈ s.members) :
      ∃ node, g.node? id = some node ∧ (node.isFanOut = true ↔
        ∃ i, i < (Route.branchesOf route).length ∧ member.name = Route.fanOutName (i + 1)) := by
    obtain ⟨node, found, only⟩ := forked.only id member listed
    refine ⟨node, found, only.trans (or_iff_right fun ⟨forks, written⟩ => ?_)⟩
    obtain ⟨reference, listed, same⟩ := List.mem_map.mp written
    rw [← same, unclaimed.written reference listed] at forks
    cases forks
  have one {id : NodeId} {member : Member} (listed : (id, member) ∈ s.members) {i : Nat}
      (within : i < (Route.branchesOf route).length) (named : member.name = Route.fanOutName (i + 1)) :
      s.find? (Route.fanOutName (i + 1)) = some id := by
    rw [← named]
    exact declared.find? listed (named ▸ (List.mem_filter.mp (names i within)).1)
  have branch (i : Fin (Route.branchesOf route).length) :=
    forked.branch i _ (List.getElem?_eq_getElem i.isLt)
  choose fork node head target starts found forks heads follows leads using branch
  have mem (id : NodeId) : id ∈ List.ofFn fork ↔ ∃ i, fork i = id := List.mem_ofFn
  refine ⟨List.ofFn fork, ?_, fun id => ?_, ?_, fun id member listed claimed inside => ?_⟩
  · refine List.nodup_ofFn.mpr fun i j same => ?_
    have named := Level.find?_inj distinct (starts i) (same ▸ starts j)
    exact Fin.ext (Nat.succ_injective (Route.fanOutName_injective named))
  · rw [mem]
    constructor
    · rintro ⟨i, rfl⟩
      exact ⟨Level.find?_mem (starts i), node i, found i, forks i⟩
    · rintro ⟨inside, node, there, forks⟩
      obtain ⟨⟨_, member⟩, listed, rfl⟩ := List.mem_map.mp inside
      obtain ⟨node', there', only⟩ := fans listed
      obtain rfl : node' = node := Option.some.inj (there'.symm.trans there)
      obtain ⟨i, within, named⟩ := only.mp forks
      exact ⟨⟨i, within⟩, Option.some.inj ((starts ⟨i, within⟩).symm.trans (one listed within named))⟩
  · refine List.forall₂_iff_get.mpr ⟨List.length_ofFn, fun i low high => ?_⟩
    refine ⟨head ⟨i, high⟩, target ⟨i, high⟩, heads ⟨i, high⟩, follows ⟨i, high⟩, ?_⟩
    rw [List.get_ofFn]
    change (g.node? (fork ⟨i, high⟩)).bind Node.branch = _
    rw [found, Option.bind_some, leads]
  · obtain ⟨i, rfl⟩ := (mem id).mp inside
    obtain ⟨other, listed', named⟩ := Level.find?_name (starts i)
    have same : member = other := congrArg Prod.snd
      (List.inj_on_of_nodup_map distinct listed listed' rfl)
    exact plain claimed i i.isLt (same ▸ named)

def forkCharter (σ : Type) : Charter σ where
  node _ node := node.isFanOut = true → node.branch.isSome = true
  keeps _ _ := True
  writes _ _ := True
  error e := ∀ path, e ≠ .routing (.missingBranch path)

theorem forkCharter_lawful : (forkCharter Stock).Lawful where
  same := by
    intro id before node same leads forks
    have forks' : before.isFanOut = true := by
      rwa [Node.isFanOut, same.kind] at forks
    exact same.branch ▸ leads forks'
  state := by
    rintro id node s _ _ ⟨⟩
  written := fun _ _ leads _ => leads
  declared := fun _ _ => trivial
  followed := fun _ _ => trivial
  incidental := by
    rintro e incidental path rfl
    cases incidental
  missing := by
    intro id node leads kind none
    have branch := leads (by rw [Node.isFanOut, kind])
    rw [none] at branch
    cases branch
  programs := by
    intro id node s _ _
    refine Stock.minds (fun _ _ _ => trivial) (fun _ _ _ => trivial) ?_ ?_ _
    · rintro e incidental path rfl
      cases incidental
    · rintro _ _ _ ⟨⟩
  taken := fun _ _ _ => trivial

namespace Blueprint

theorem Connected.holds_forks {outline : Outline Stock} {nodes : Array (Node Stock)}
    (connected : Connected outline nodes) {e : Environment} {history : List (Event Stock)}
    (uncalled : Uncalled history)
    (leads : ∀ s ∈ (Layout.ofOutline outline).levels, ∀ id ∈ s.ids, ∀ node,
      (Graph.make nodes 0 e history).node? id = some node → node.isFanOut = true →
        node.branch.isSome = true) :
    (forkCharter Stock).Holds (Graph.make nodes 0 e history) := by
  refine ⟨fun id node found forks => ?_, fun id node hook listed => ?_⟩
  · rcases node?_make_cases found with found | ⟨-, rfl⟩
    · have within : id < nodes.size := (Array.getElem?_eq_some_iff.mp found).1
      rcases Layout.ofOutline_owned outline id (connected.size ▸ within) with root | ⟨s, listed, inside⟩
      · -- The root is a sub-graph.
        obtain rfl : id = 0 := Nat.lt_one_iff.mp root
        obtain ⟨⟨top, entry, exit, first, kind⟩, -⟩ := Layout.ofOutline_root outline
        have kinds := congrArg (·[0]?) connected.forks
        simp only [Array.getElem?_map, found, first, Option.map_some, Option.some.injEq] at kinds
        rw [kinds, Node.isFanOut, kind] at forks
        cases forks
      · exact leads s listed id inside node (by rw [node?_make within, found]) forks
    · cases forks
  · cases uncalled _ listed

/-- At each level the fan-outs are one for each branch of the route, leading to the head of that
branch, and whatever else was written on the route with such a name. As long as nothing is written
so, the branches account for all of them, and no parcel ever comes to one that leads nowhere. -/
theorem fan_outs_are_branches {b : Blueprint Stock} {g : Graph Stock} (built : b.build.1 = .ok g) :
    ∃ outline, (Outline.declare b.registry b.pipeline).run.1 = .ok outline ∧
      (∀ s ∈ (Layout.ofOutline outline).levels, ∃ route,
        Route.read s.pipeline.route = .ok route ∧ s.Forked g route ∧
          (s.Unclaimed → ∃ forks, s.Branched g route forks)) ∧
      ((∀ s ∈ (Layout.ofOutline outline).levels, ∀ route,
          Route.read s.pipeline.route = .ok route → s.Accounted route) →
        ∀ mid, g.Leads mid → ∀ depth (operation : Graph.Operation) e after,
          (operation.run depth).start mid = some (.error e, after) →
            ∀ path, e ≠ .routing (.missingBranch path)) := by
  obtain ⟨outline, nodes, history, declared, rfl, connected⟩ := b.build_connected built
  have allTyped := (Outline.declare_allTyped declared).2
  have ordered := Layout.ofOutline_ordered outline
  have uncalled : Uncalled history := by
    obtain ⟨nodes', history', same, uncalled, -⟩ := build_configured built
    cases congrArg Graph.history same
    exact uncalled
  refine ⟨outline, declared, fun s member => ?_, fun accounted mid reached depth operation e after failed => ?_⟩
  · obtain ⟨route, parsed, plan, forked⟩ :=
      connected.forked allTyped b.environment history member
    have proper := ((Route.read_ok_iff _ _).mp parsed).1
    have named := (Layout.ofOutline_declared connected.declared).levels s member
    exact ⟨route, parsed, forked, forked.branched named (ordered.distinct s member) plan proper⟩
  · refine reached.allowed forkCharter_lawful (connected.holds_forks uncalled ?_) failed
    intro s member id inside node found forks
    obtain ⟨route, parsed, plan, forked⟩ :=
      connected.forked allTyped b.environment history member
    have named := (Layout.ofOutline_declared connected.declared).levels s member
    obtain ⟨⟨_, member'⟩, listed, rfl⟩ := List.mem_map.mp inside
    obtain ⟨node', there, only⟩ := forked.only _ member' listed
    obtain rfl : node' = node := Option.some.inj (there.symm.trans found)
    -- A fan-out was found, so it is a member written like one, which the hypothesis accounts for,
    -- or that of a branch.
    obtain ⟨i, within, same⟩ : ∃ i, i < (Route.branchesOf route).length ∧
        member'.name = Route.fanOutName (i + 1) := by
      rcases only.mp forks with ⟨like, written⟩ | branch
      · obtain ⟨reference, listed, same⟩ := List.mem_map.mp written
        rw [← same] at like ⊢
        exact accounted s member route parsed reference listed like
      · exact branch
    -- That branch is linked, and by its name it belongs to this very node.
    obtain ⟨other, node, head, target, starts, there', -, -, -, leads⟩ :=
      forked.branch i _ (List.getElem?_eq_getElem within)
    have onRoute : member'.name ∈ s.plan.names := by
      rw [same, plan]
      have forks := (Route.mem_fanOuts_iff ((Route.read_ok_iff _ _).mp parsed).1
        (Route.fanOutName (i + 1))).mpr (.inr ⟨i, within, rfl⟩)
      exact (List.mem_filter.mp forks).1
    rw [← same, named.find? listed onRoute] at starts
    cases starts
    obtain rfl : node' = node := Option.some.inj (found.symm.trans there')
    rw [leads]
    rfl

def branching : Blueprint Stock where
  pipeline := ⟨"line", "", [], false,
    "branch_ref (wrap (inner)) sink", []⟩
  registry := { Stock.registry with
    graphs := [("inner", ⟨"inner", "", [], false, "branch_ref (waste)", [("sink", .empty)]⟩)] }
  params := []
  environment := .empty

theorem branching_fans_out : ∃ g outline, branching.build.1 = .ok g ∧
    (Outline.declare branching.registry branching.pipeline).run.1 = .ok outline ∧
      (∀ s ∈ (Layout.ofOutline outline).levels, ∃ route forks,
        Route.read s.pipeline.route = .ok route ∧ s.Branched g route forks) ∧
      ∀ mid, g.Leads mid → ∀ depth (operation : Graph.Operation) e after,
        (operation.run depth).start mid = some (.error e, after) →
          ∀ path, e ≠ .routing (.missingBranch path) := by
  have works : branching.passes (fun _ => true) = true := by decide +kernel
  have plain : (Outline.declare branching.registry branching.pipeline).run.1.toOption.any (fun outline =>
      (Layout.ofOutline outline).levels.all fun s =>
        (s.plan.references.all fun reference => !Route.isFanOutName (Literal.bareName reference)) &&
          s.pipeline.sections.keys.all fun name => !s.plan.fanOuts.contains name) = true := by
    decide +kernel
  obtain ⟨g, built, -⟩ := of_passes works
  obtain ⟨outline, declared, allTyped, quiet⟩ := fan_outs_are_branches built
  rw [declared] at plain
  change (Layout.ofOutline outline).levels.all _ = true at plain
  simp only [List.all_eq_true, Bool.and_eq_true, Bool.not_eq_true'] at plain
  have unclaimed (s : Level) (member : s ∈ (Layout.ofOutline outline).levels) : s.Unclaimed :=
    ⟨(plain s member).1, fun name listed => by simpa using (plain s member).2 name listed⟩
  refine ⟨g, outline, built, declared, fun s member => ?_,
    quiet fun s member route _ reference listed like => ?_⟩
  · obtain ⟨route, parsed, -, branched⟩ := allTyped s member
    obtain ⟨forks, branched⟩ := branched (unclaimed s member)
    exact ⟨route, forks, parsed, branched⟩
  · rw [(unclaimed s member).written reference listed] at like
    cases like

def claiming : Blueprint Stock where
  pipeline := ⟨"line", "", [], false, "branch_ref hidden_brancher_07", []⟩
  registry := Stock.registry
  params := []
  environment := .empty

-- It is taken for one, although there is no branch.
example : claiming.passes (fun g => (Graph.send 8 (.ofText "one")).passes g fun result _ =>
    match result with
    | .error (.routing (.missingBranch path)) => path == "hidden_brancher_07"
    | _ => false) = true := by decide +kernel

end Blueprint

end Sluice
