import Sluice.Proofs.Assembly.Phases
import Sluice.Proofs.Assembly.RouteEdges
import Sluice.Proofs.Route.InlinedRoutes

set_option autoImplicit false

namespace Sluice

variable {σ : Type}

namespace Level

def next (edge : Edge) (s : Level) (id : Nat) : Option Nat :=
  s.plan.hops.reverse.findSome? (Wiring.leadsFrom edge id s)

def enters (s : Level) : Option Nat :=
  s.plan.hops.head?.bind fun hop => s.find? (Literal.bareName hop.source)

def leaves (s : Level) : Option Nat :=
  s.plan.hops.reverse.findSome? fun hop =>
    if hop.target.isNone then s.find? (Literal.bareName hop.source) else none

end Level

namespace Wiring

theorem follower_own {levels : List Level} (ordered : levels.Pairwise Level.Before)
    {s : Level} (member : s ∈ levels) {id : Nat} (inside : id ∈ s.ids) (edge : Edge) :
    follower edge id (edgesOf levels) = s.next edge id := by
  obtain ⟨before, after, rfl⟩ := List.append_of_mem member
  have apart {others : List Level} (within : others ⊆ before ++ s :: after)
      (other : ∀ owner ∈ others, owner ≠ s) : follower edge id (edgesOf others) = none := by
    refine List.findSome?_eq_none_iff.mpr fun ⟨owner, hop⟩ listed => ?_
    obtain ⟨owner, outside, tag⟩ := List.mem_flatMap.mp listed
    obtain ⟨_, _, same⟩ := List.mem_map.mp tag
    cases same
    by_contra some'
    obtain ⟨_, leads⟩ := Option.ne_none_iff_exists'.mp some'
    exact other owner outside
      (ordered_unique ordered (within outside) member (leadsFrom_mem leads) inside)
  -- No pipeline stands twice, as it would come before itself.
  obtain ⟨-, second, between⟩ := List.pairwise_append.mp ordered
  have earlier : follower edge id (edgesOf before) = none := apart (by simp) fun owner listed same =>
    (between owner listed s List.mem_cons_self).node (same ▸ rfl)
  have later : follower edge id (edgesOf after) = none :=
    apart (by intro x; simp; tauto) fun owner listed same =>
      ((List.pairwise_cons.mp second).1 owner listed).node (same ▸ rfl)
  unfold follower at earlier later ⊢
  rw [edgesOf, List.flatMap_append, List.flatMap_cons, List.findSome?_append,
    List.findSome?_append]
  rw [edgesOf] at earlier later
  rw [earlier, later, tagged, List.findSome?_map]
  simp only [Option.none_or, Option.or_none]
  rfl

def Ended (linked : List Level) (nodes : Array (Node σ)) : Prop :=
  ∀ s ∈ linked, ∀ node entry exit, nodes[s.node]? = some node → node.kind = .subGraph entry exit →
    entry = s.enters ∧ exit = s.leaves

structure Nearing (s : Level) (seen : List Route.Hop) (current : Linked σ) : Prop where
  entry : current.entry = seen.head?.bind fun hop => s.find? (Literal.bareName hop.source)
  entered : seen ≠ [] → current.entry.isSome = true
  exit : current.exit = seen.reverse.findSome? fun hop =>
    if hop.target.isNone then s.find? (Literal.bareName hop.source) else none

theorem linkHop_nearing {s : Level} {seen : List Route.Hop} {hop : Route.Hop}
    {current next : Linked σ} (nearing : Nearing s seen current)
    (done : linkHop s current hop = .ok next) : Nearing s (seen ++ [hop]) next := by
  obtain ⟨source, leads, done⟩ := except_bind_ok done
  have leads := lookup_found leads
  -- The entry is settled by the first hop, and kept by all that come after it.
  have entry : current.entry.or (some source) = (seen ++ [hop]).head?.bind fun hop =>
      s.find? (Literal.bareName hop.source) := by
    cases seen with
    | nil => rw [nearing.entry, List.nil_append, List.head?_cons, Option.bind_some, leads]; rfl
    | cons first rest =>
      obtain ⟨inner, entered⟩ := Option.isSome_iff_exists.mp (nearing.entered (List.cons_ne_nil _ _))
      rw [List.cons_append, List.head?_cons, ← List.head?_cons (a := first) (l := rest),
        ← nearing.entry, entered]
      rfl
  have entered : (current.entry.or (some source)).isSome = true := by
    cases current.entry <;> rfl
  -- The exit is settled by the last hop without a target, so the latest of them counts.
  have exit : (seen ++ [hop]).reverse.findSome? (fun hop =>
      if hop.target.isNone then s.find? (Literal.bareName hop.source) else none) =
        if hop.target.isNone then some source else current.exit := by
    rw [List.reverse_append, List.reverse_singleton, List.singleton_append, List.findSome?_cons,
      leads, ← nearing.exit]
    cases hop.target.isNone <;> rfl
  cases ends : hop.target with
  | none =>
    rw [ends] at done exit
    cases done
    exact ⟨entry, fun _ => entered, exit.symm⟩
  | some reference =>
    rw [ends] at done exit
    obtain ⟨target, follows, done⟩ := except_bind_ok done
    split at done
    all_goals
      cases done
      exact ⟨entry, fun _ => entered, exit.symm⟩

theorem linkLevel_ended {s : Level} {linked : List Level} {nodes next : Array (Node σ)}
    (apart : ∀ other ∈ linked, s.node ≠ other.node) (ended : Ended linked nodes)
    (done : linkLevel nodes s = .ok next) : Ended (s :: linked) next := by
  obtain ⟨last, hops, same⟩ := except_bind_ok done
  cases same
  have nearing : Nearing s s.plan.hops last :=
    foldlM_tracks (fun _ _ _ _ _ nearing done => linkHop_nearing nearing done)
      ⟨rfl, fun filled => absurd rfl filled, rfl⟩ hops
  have kinds : last.nodes.map Node.kind = nodes.map Node.kind :=
    foldlM_keeps (fun _ _ _ _ same done => (linkHop_kinds done).trans same) rfl hops
  refine List.forall_mem_cons.mpr ⟨fun node entry exit found kind => ?_,
    fun other listed node entry exit found kind => ?_⟩
  · rw [Array.getElem?_modify, if_pos rfl] at found
    obtain ⟨before, -, rfl⟩ := Option.map_eq_some_iff.mp found
    unfold setEnds at kind
    split at kind
    next =>
      cases kind
      exact ⟨nearing.entry, nearing.exit⟩
    next other => exact absurd kind (other _ _)
  · rw [Array.getElem?_modify, if_neg (apart other listed)] at found
    have was := congrArg (·[other.node]?) kinds
    simp only [Array.getElem?_map, found, Option.map_some] at was
    obtain ⟨before, there, same⟩ := Option.map_eq_some_iff.mp was.symm
    exact ended other listed before entry exit there (same.trans kind)

theorem linkLevels_ended {levels : List Level} (ordered : levels.Pairwise Level.Before)
    {nodes next : Array (Node σ)} (done : levels.reverse.foldlM linkLevel nodes = .ok next) :
    Ended levels next := by
  induction ordered generalizing next with
  | nil => exact nofun
  | @cons s rest before _ ih =>
    rw [List.reverse_cons, List.foldlM_append] at done
    obtain ⟨between, inner, last⟩ := except_bind_ok done
    obtain ⟨final, last, same⟩ := except_bind_ok last
    cases same
    exact linkLevel_ended (fun other listed => (before other listed).node) (ih inner) last

theorem linkAll_ended {layout linked : Layout σ} (ordered : layout.levels.Pairwise Level.Before)
    (done : linkAll layout = .ok linked) : Ended layout.levels linked.nodes := by
  obtain ⟨nodes, levels, same⟩ := except_bind_ok done
  cases same
  exact linkLevels_ended ordered levels

end Wiring

end Sluice
