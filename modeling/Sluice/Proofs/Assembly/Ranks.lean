import Sluice.Proofs.Assembly.Connections
import Sluice.Proofs.Graph.RestoredLinks
import Sluice.Proofs.Route.FanOuts

set_option autoImplicit false

namespace Sluice

variable {σ : Type}

def ForksAt (nodes : Array (Node σ)) (id : Nat) : Prop :=
  ∃ node, nodes[id]? = some node ∧ node.isFanOut = true

/-- Fan-outs and sub-graphs hand parcels on without a stage being called. They do so in an order:
a sub-graph to a node after its own that is no fan-out, and a fan-out to one that is none either or
that comes before its own. -/
structure Ranked (nodes : Array (Node σ)) : Prop where
  main : ∀ id target : Nat, ForksAt nodes id → nodes[id]?.bind Node.main = some target →
    ForksAt nodes target → target < id
  branch : ∀ id target : Nat, ForksAt nodes id → nodes[id]?.bind Node.branch = some target →
    ¬ForksAt nodes target
  entry : ∀ id inner : Nat, nodes[id]?.bind Node.entry = some inner →
    id < inner ∧ ¬ForksAt nodes inner
  exit : ∀ id inner target : Nat, nodes[id]?.bind Node.exit = some inner →
    nodes[id]?.bind Node.main = some target → target < inner

theorem Node.isFanOut_of_links {node other : Node σ} (same : node.links = other.links) :
    node.isFanOut = other.isFanOut := by
  have shape := shape_of_links same
  unfold isFanOut
  cases kind : node.kind <;> cases kind' : other.kind <;> rw [kind, kind'] at shape <;>
    first | rfl | cases shape

theorem SameLinks.forksAt {nodes after : Array (Node σ)} (same : SameLinks nodes after) {id : Nat} :
    ForksAt after id ↔ ForksAt nodes id := by
  have kept {nodes after : Array (Node σ)} (same : SameLinks nodes after)
      (forks : ForksAt after id) : ForksAt nodes id := by
    obtain ⟨node, found, forks⟩ := forks
    obtain ⟨before, was, links⟩ := same.node found
    exact ⟨before, was, Node.isFanOut_of_links links ▸ forks⟩
  exact ⟨kept same, kept same.symm⟩

theorem SameLinks.ranked {nodes after : Array (Node σ)} (same : SameLinks nodes after)
    (ranked : Ranked nodes) : Ranked after where
  main id target := by
    rw [same.forksAt, same.forksAt, same.bind Node.main_of_links]
    exact ranked.main id target
  branch id target := by
    rw [same.forksAt, same.forksAt, same.bind Node.branch_of_links]
    exact ranked.branch id target
  entry id inner := by
    rw [same.forksAt, same.bind fun links => (Node.ends_of_links links).1]
    exact ranked.entry id inner
  exit id inner target := by
    rw [same.exit, same.bind Node.main_of_links]
    exact ranked.exit id inner target

theorem Ranked.push {nodes : Array (Node σ)} (ranked : Ranked nodes) {node : Node σ}
    (unlinked : node.Unlinked) (plain : node.isFanOut = false) : Ranked (nodes.push node) := by
  have forks (id : Nat) : ForksAt (nodes.push node) id ↔ ForksAt nodes id := by
    unfold ForksAt
    rw [Array.getElem?_push]
    split
    next last => simp [last, plain]
    next => rfl
  have leads {f : Node σ → Option NodeId} (nowhere : f node = none) (id : Nat) :
      (nodes.push node)[id]?.bind f = nodes[id]?.bind f := by
    rw [Array.getElem?_push]
    split
    next last => simp [last, nowhere]
    next => rfl
  obtain ⟨main, branch, entry, exit⟩ := unlinked
  refine ⟨fun id target => ?_, fun id target => ?_, fun id inner => ?_, fun id inner target => ?_⟩
  · rw [forks, forks, leads main]
    exact ranked.main id target
  · rw [forks, forks, leads branch]
    exact ranked.branch id target
  · rw [forks, leads entry]
    exact ranked.entry id inner
  · rw [leads exit, leads main]
    exact ranked.exit id inner target

namespace Graph

variable {nodes : Array (Node σ)}

theorem le_of_exitsBy (descends : Descends nodes) {depth source id : Nat}
    (member : id ∈ exitsBy depth source nodes) : source ≤ id := by
  induction depth generalizing source with
  | zero => cases member
  | succ depth ih =>
    unfold exitsBy at member
    rcases List.mem_cons.mp member with rfl | member
    · exact Nat.le_refl _
    · split at member
      next exit leaves =>
        have := (descends source exit leaves).1
        have := ih member
        omega
      next => cases member

theorem lt_of_exitsBy (ranked : Ranked nodes) (descends : Descends nodes) {depth source id target : Nat}
    (main : nodes[source]?.bind Node.main = some target) (member : id ∈ exitsBy depth source nodes)
    (other : id ≠ source) : target < id := by
  cases depth with
  | zero => cases member
  | succ depth =>
    unfold exitsBy at member
    have member := (List.mem_cons.mp member).resolve_left other
    split at member
    next exit leaves =>
      have := ranked.exit source exit target leaves main
      have := le_of_exitsBy descends member
      omega
    next => cases member

theorem forksAt_linkMain (source : NodeId) (target : Option NodeId) {id : Nat} :
    ForksAt (linkMain source target nodes) id ↔ ForksAt nodes id := by
  unfold ForksAt linkMain
  rw [linkMainBy_getElem?]
  cases nodes[id]? with
  | none => simp
  | some node =>
    simp only [Option.map_some, Option.some.injEq, exists_eq_left']
    split <;> rfl

theorem linkMain_ranked (ranked : Ranked nodes) (descends : Descends nodes) {source : Nat} :
    Ranked (linkMain source (nodes[source]?.bind Node.main) nodes) := by
  have still {α : Type} {f : Node σ → Option α} (same : ∀ node main, f { node with main } = f node)
      (id : Nat) : (linkMain source (nodes[source]?.bind Node.main) nodes)[id]?.bind f =
        nodes[id]?.bind f := linkMainBy_bind same _ _ _ _
  have exits (id : Nat) : (linkMain source (nodes[source]?.bind Node.main) nodes)[id]?.bind
      Node.exit = nodes[id]?.bind Node.exit := still (fun _ _ => rfl) id
  -- A node leads where it did, or it is a nested exit and leads to a node before its own.
  have leads (id target : Nat)
      (main : (linkMain source (nodes[source]?.bind Node.main) nodes)[id]?.bind Node.main =
        some target) : nodes[id]?.bind Node.main = some target ∨ target < id := by
    obtain ⟨node, found, -⟩ := Option.bind_eq_some_iff.mp main
    have within := (Array.getElem?_eq_some_iff.mp found).1
    rw [linkMain, linkMainBy_size] at within
    rw [main_linkMain _ _ within] at main
    by_cases here : id = source
    · subst here
      rw [ite_self] at main
      exact .inl main
    · split at main
      next member => exact .inr (lt_of_exitsBy ranked descends main member here)
      next => exact .inl main
  refine ⟨fun id target => ?_, fun id target => ?_, fun id inner => ?_, fun id inner target => ?_⟩
  · rw [forksAt_linkMain, forksAt_linkMain]
    intro forks main forks'
    rcases leads id target main with before | less
    · exact ranked.main id target forks before forks'
    · exact less
  · rw [forksAt_linkMain, forksAt_linkMain, still fun _ _ => rfl]
    exact ranked.branch id target
  · rw [forksAt_linkMain, still fun _ _ => rfl]
    exact ranked.entry id inner
  · rw [exits]
    intro leaves main
    rcases leads id target main with before | less
    · exact ranked.exit id inner target leaves before
    · have := (descends id inner leaves).1
      omega

section

variable [Stage σ]

theorem Leads.ranked {g after : Graph σ} (leads : g.Leads after) (resting : g.Resting)
    (wired : g.Wired) (ranked : Ranked g.nodes) : Ranked after.nodes := by
  induction leads with
  | refl => exact ranked
  | operate before ran ih =>
    rcases operate_wiring (before.rested resting).1 ran with same | ⟨exit, -, same⟩
    · exact same.nodes.ranked ih
    · exact same.nodes.ranked (linkMain_ranked ih (before.wired resting wired).descends)

end

end Graph

namespace Wiring

theorem before_of_nested {levels : List Level} (ordered : levels.Pairwise Level.Before)
    {size : Nat} (placed : ∀ s ∈ levels, s.Placed size) {outer s : Level}
    (member : s ∈ levels) (member' : outer ∈ levels) (nested : (s.node : Nat) ∈ outer.ids) :
    outer.Before s := by
  induction ordered with
  | nil => cases member
  | @cons first rest later _ ih =>
    rcases List.mem_cons.mp member with rfl | inside <;>
      rcases List.mem_cons.mp member' with rfl | inside'
    · exact absurd ((placed _ member).after nested).1 (Nat.lt_irrefl _)
    · exact absurd ((later _ inside').own _ nested) (Nat.lt_irrefl _)
    · exact later _ inside
    · exact ih (fun s member => placed s (List.mem_cons_of_mem _ member)) inside inside'

theorem follower_found {edge : Edge} {id target : Nat} {levels : List Level}
    (next : follower edge id (edgesOf levels) = some target) : ∃ s ∈ levels,
      ∃ hop ∈ s.plan.hops, s.find? (Literal.bareName hop.source) = some id ∧
        ∃ reference, hop.target = some reference ∧
          s.find? (Literal.bareName reference) = some target := by
  obtain ⟨⟨s, hop⟩, member, leads⟩ := List.exists_of_findSome?_eq_some next
  obtain ⟨s', listed, tagged⟩ := List.mem_flatMap.mp member
  obtain ⟨hop', inside, same⟩ := List.mem_map.mp tagged
  cases same
  unfold leadsFrom at leads
  split at leads
  next starts =>
    obtain ⟨reference, ends, found⟩ := Option.bind_eq_some_iff.mp leads
    exact ⟨s, listed, hop, List.mem_reverse.mp inside, starts.2, reference, ends, found⟩
  next => cases leads

end Wiring

namespace Blueprint

variable {outline : Outline σ} {nodes : Array (Node σ)}

def Unforked (outline : Outline σ) : Prop :=
  ∀ s ∈ (Layout.ofOutline outline).levels, ∀ reference ∈ s.plan.references,
    Route.isFanOutName (Literal.bareName reference) = false

theorem Connected.named (connected : Connected outline nodes) {s : Level}
    (member : s ∈ (Layout.ofOutline outline).levels) {name : String} {id : Nat}
    (found : s.find? name = some id) (forks : ForksAt nodes id) :
    Route.isFanOutName name = true := by
  obtain ⟨inside, listed, rfl⟩ := Level.find?_name found
  obtain ⟨node, there, named⟩ := Layout.ofOutline_forks connected.declared s member id inside listed
  obtain ⟨last, now, forks⟩ := forks
  have same := congrArg (·[id]?) connected.forks
  simp only [Array.getElem?_map, now, there, Option.map_some, Option.some.injEq] at same
  exact named (same ▸ forks)

section

variable (connected : Connected outline nodes)
include connected

theorem Connected.main_before {s : Level}
    (member : s ∈ (Layout.ofOutline outline).levels) {target : Nat}
    (main : nodes[s.node]?.bind Node.main = some target) : ∀ id ∈ s.ids, target < id := by
  have ordered := (Layout.ofOutline_ordered outline).order
  have placed := (Layout.ofOutline_placed outline).1.levels
  -- By strong induction on the node of the pipeline: what follows a nested pipeline was found in
  -- the one around it, whose node has a smaller number.
  induction number : (s.node : Nat) using Nat.strong_induction_on generalizing s target with
  | _ n ih =>
    subst number
    intro id inside
    by_cases nested : ∃ outer ∈ (Layout.ofOutline outline).levels, (s.node : Nat) ∈ outer.ids
    · obtain ⟨outer, member', nested⟩ := nested
      have before := Wiring.before_of_nested ordered placed member member' nested
      have within : (s.node : Nat) < nodes.size :=
        connected.size ▸ ((placed outer member').after nested).2
      have after := ((placed s member).after inside).1
      rw [connected.wired.main outer (by simpa using member') _ nested within] at main
      rcases Option.or_eq_some_iff.mp main with out | ⟨-, next⟩
      · unfold Wiring.outward at out
        split at out
        · have less := ih _ ((placed outer member').after nested).1 member' out rfl _ nested
          exact Nat.lt_trans less after
        · cases out
      · obtain ⟨s', listed, hop, -, starts, reference, -, found⟩ := Wiring.follower_found next
        obtain rfl := ordered_unique ordered listed member' (Level.find?_mem starts) nested
        exact before.members target (Level.find?_mem found) id inside
    · rw [connected.wired.outside _ fun outer listed inside => nested ⟨outer, by simpa using listed,
        inside⟩] at main
      cases main

theorem Connected.ranked (unforked : Unforked outline) : Ranked nodes := by
  have placed := (Layout.ofOutline_placed outline).1.levels
  have declared := (Layout.ofOutline_declared connected.declared).levels
  have stages {s : Level} (member : s ∈ (Layout.ofOutline outline).levels) :=
    Route.read_stages (declared s member).1 (unforked s member)
  -- The way out of a fan-out is written on the route of its own pipeline, unless that is left there.
  have follows {edge : Edge} {id target : Nat} (forks : ForksAt nodes id)
      (next : Wiring.follower edge id (Wiring.edgesOf (Layout.ofOutline outline).levels) =
        some target) : ¬ForksAt nodes target := by
    intro forks'
    obtain ⟨s, member, hop, listed, starts, reference, ends, found⟩ := Wiring.follower_found next
    have written := (stages member).1 hop listed (connected.named member starts forks) reference ends
    rw [connected.named member found forks'] at written
    cases written
  have within {id : Nat} (forks : ForksAt nodes id) : id < nodes.size := by
    obtain ⟨node, found, -⟩ := forks
    exact (Array.getElem?_eq_some_iff.mp found).1
  refine ⟨fun id target forks main forks' => ?_, fun id target forks branch => ?_,
    fun id inner enters => ?_, fun id inner target leaves main => ?_⟩
  · by_cases nested : ∃ s ∈ (Layout.ofOutline outline).levels, id ∈ s.ids
    · obtain ⟨s, member, inside⟩ := nested
      rw [connected.wired.main s (by simpa using member) id inside (within forks)] at main
      rcases Option.or_eq_some_iff.mp main with out | ⟨-, next⟩
      · unfold Wiring.outward at out
        split at out
        · exact connected.main_before member out id inside
        · cases out
      · exact absurd forks' (follows forks next)
    · rw [connected.wired.outside _ fun s listed inside => nested ⟨s, by simpa using listed,
        inside⟩] at main
      cases main
  · rw [connected.wired.branch id (within forks)] at branch
    exact follows forks branch
  · obtain ⟨s, member, rfl, first⟩ := connected.wired.entries id inner enters
    obtain ⟨hop, head, found⟩ := Option.bind_eq_some_iff.mp first
    refine ⟨((placed s member).after (Level.find?_mem found)).1, fun forks => ?_⟩
    have written := (stages member).2 hop head
    rw [connected.named member found forks] at written
    cases written
  · obtain ⟨s, member, rfl, inside⟩ := connected.wired.exits id inner leaves
    exact connected.main_before member main inner inside

end

theorem build_ranked [Stage σ] {b : Blueprint σ} {g : Graph σ} (built : b.build.1 = .ok g)
    (declared : (Outline.declare b.registry b.pipeline).run.1 = .ok outline)
    (unforked : Unforked outline) : Ranked g.nodes := by
  obtain ⟨outline', nodes, history, declared', rfl, connected⟩ := build_connected built
  obtain rfl : outline' = outline := Except.ok.inj (declared'.symm.trans declared)
  exact (connected.ranked unforked).push ⟨rfl, rfl, rfl, rfl⟩ rfl

end Blueprint

end Sluice
