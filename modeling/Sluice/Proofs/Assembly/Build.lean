import Sluice.Assembly.Build
import Sluice.Proofs.Assembly.Declarations
import Sluice.Proofs.Graph.ExitChains

set_option autoImplicit false

namespace Sluice

variable {σ : Type}

namespace Wiring

open Building (Yields)

theorem linkHop_cases {s : Level} {linked next : Linked σ} {hop : Route.Hop}
    (done : linkHop s linked hop = .ok next) :
    ∃ source, (hop.target = none ∧
        next = ⟨linked.nodes, linked.entry.or (some source), some source⟩) ∨
      ∃ target, hop.target ≠ none ∧
        (next = ⟨linkBranch source target linked.nodes, linked.entry.or (some source),
            linked.exit⟩ ∨
          next = ⟨Graph.linkMain source (some target) linked.nodes,
            linked.entry.or (some source), linked.exit⟩) := by
  obtain ⟨source, -, done⟩ := except_bind_ok done
  refine ⟨source, ?_⟩
  cases ends : hop.target with
  | none =>
    rw [ends] at done
    cases done
    exact .inl ⟨rfl, rfl⟩
  | some reference =>
    rw [ends] at done
    obtain ⟨target, -, done⟩ := except_bind_ok done
    refine .inr ⟨target, Option.some_ne_none _, ?_⟩
    cases edge : hop.edge with
    | branch =>
      rw [edge] at done
      cases done
      exact .inl rfl
    | main =>
      rw [edge] at done
      cases done
      exact .inr rfl

theorem linkHop_fresh {s : Level} {linked next : Linked σ} {hop : Route.Hop}
    (fresh : AllFresh linked.nodes) (done : linkHop s linked hop = .ok next) :
    AllFresh next.nodes := by
  obtain ⟨source, ⟨-, rfl⟩ | ⟨target, -, rfl | rfl⟩⟩ := linkHop_cases done
  · exact fresh
  · exact fresh.modify fun _ fresh => fresh
  · intro id node found
    obtain ⟨before, _, was, rfl⟩ := Graph.linkMainBy_main _ found
    exact fresh id before was

theorem setEnds_fresh {entry exit : Option NodeId} {node : Node σ} (fresh : node.New) :
    (setEnds entry exit node).New := by
  unfold setEnds
  split <;> exact fresh

theorem linkLevel_fresh {nodes next : Array (Node σ)} {s : Level} (fresh : AllFresh nodes)
    (done : linkLevel nodes s = .ok next) : AllFresh next := by
  obtain ⟨linked, hops, ended⟩ := except_bind_ok done
  cases ended
  have fresh : AllFresh linked.nodes :=
    foldlM_keeps (fun _ _ _ _ fresh done => linkHop_fresh fresh done) fresh hops
  exact fresh.modify fun _ => setEnds_fresh

theorem linkAll_fresh {layout linked : Layout σ} (fresh : AllFresh layout.nodes)
    (done : linkAll layout = .ok linked) : AllFresh linked.nodes := by
  obtain ⟨nodes, levels, ended⟩ := except_bind_ok done
  cases ended
  exact foldlM_keeps (fun _ _ _ _ fresh done => linkLevel_fresh fresh done) fresh levels

theorem attachFrom_yields [Stage σ] (count : Nat) (id : NodeId) {nodes : Array (Node σ)}
    (fresh : AllFresh nodes) : (attachFrom count id nodes).Yields AllFresh := by
  induction count generalizing id nodes with
  | zero => exact .pure fresh
  | succ count ih =>
    unfold attachFrom
    split
    · exact .pure fresh
    next node found =>
      split
      · refine (Yields.noteAll _).bind fun _ _ => ?_
        exact .bind (.get fun _ _ => trivial) fun _ _ => ih _ (fresh.set (fresh id node found))
      · exact ih _ fresh

end Wiring

namespace Inspection

open Building (Yields)

structure Inspected (layout : Layout σ) : Prop where
  root : ∀ root, layout.nodes[0]? = some root → checkEssentials root = .ok ()
  members : ∀ s ∈ layout.levels, ∀ entry ∈ s.members, ∀ node,
    layout.nodes[entry.1]? = some node → checkMember entry.2 node = .ok ()

theorem inspectMembers_yields (nodes : Array (Node σ)) (members : List (NodeId × Member)) :
    (inspectMembers nodes members).Yields fun _ => ∀ entry ∈ members, ∀ node,
      nodes[entry.1]? = some node → checkMember entry.2 node = .ok () := by
  induction members with
  | nil => exact .pure nofun
  | cons entry rest ih =>
    obtain ⟨id, member⟩ := entry
    -- A member without a node is passed over, so the check is known only of nodes that are found.
    have all (first : ∀ node, nodes[id]? = some node → checkMember member node = .ok ()) :
        (inspectMembers nodes rest).Yields fun _ => ∀ entry ∈ (id, member) :: rest, ∀ node,
          nodes[entry.1]? = some node → checkMember entry.2 node = .ok () :=
      ih.mono fun _ checked => List.forall_mem_cons.mpr ⟨first, checked⟩
    unfold inspectMembers
    dsimp only
    split
    next node found =>
      refine .bind (.ofConfig fun _ checked => checked) fun _ checked => ?_
      have first (other : Node σ) (there : nodes[id]? = some other) :
          checkMember member other = .ok () := by
        obtain rfl := Option.some.inj (found.symm.trans there)
        exact checked
      split
      · exact .bind (.remember rfl) fun _ _ => all first
      · exact all first
    next missing => exact all fun node there => absurd there (missing node)

theorem inspectLevels_yields (nodes : Array (Node σ)) (levels : List Level) :
    (inspectLevels nodes levels).Yields fun _ => ∀ s ∈ levels, ∀ entry ∈ s.members, ∀ node,
      nodes[entry.1]? = some node → checkMember entry.2 node = .ok () := by
  induction levels with
  | nil => exact .pure nofun
  | cons s rest ih =>
    refine .bind (.ofConfig fun _ _ => trivial) fun _ _ => ?_
    refine (inspectMembers_yields nodes s.members).bind fun _ first => ?_
    exact ih.mono fun _ checked => List.forall_mem_cons.mpr ⟨first, checked⟩

theorem inspect_yields (layout : Layout σ) : (inspect layout).Yields fun _ => Inspected layout := by
  have members := inspectLevels_yields layout.nodes layout.levels
  unfold inspect
  split
  next root found =>
    refine .bind (.ofConfig fun _ checked => checked) fun _ checked => members.mono fun _ rest => ?_
    refine ⟨fun other there => ?_, rest⟩
    obtain rfl := Option.some.inj (found.symm.trans there)
    exact checked
  next missing =>
    exact members.mono fun _ rest => ⟨fun other there => absurd there (missing other), rest⟩

end Inspection

namespace Blueprint

open Building (Yields)

variable [Stage σ]

def AllConfigured (nodes : Array (Node σ)) : Prop :=
  ∀ node ∈ nodes, ∃ before : Node σ, before.New ∧ configureNode before = .ok node

theorem configureNode_cases {node configured : Node σ} (done : configureNode node = .ok configured) :
    (∃ s fitted, node.kind = .stage s ∧
      (Stage.configure node.params).run ⟨s, node.tank⟩ = (.ok (), fitted) ∧
      configured = { node with kind := .stage fitted.state, tank := fitted.tank }) ∨
    (∀ s, node.kind ≠ .stage s) ∧ configured = node := by
  unfold configureNode at done
  split at done
  next s kind =>
    dsimp only at done
    rcases ran : (Stage.configure node.params).run ⟨s, node.tank⟩ with ⟨result, fitted⟩
    rw [ran] at done
    cases result with
    | error e => cases done
    | ok _ => exact .inl ⟨s, fitted, kind, ran, (Except.ok.inj done).symm⟩
  next other => exact .inr ⟨other, (Except.ok.inj done).symm⟩

theorem configureAll_configured {nodes configured : Array (Node σ)} (fresh : AllFresh nodes)
    (done : nodes.mapM configureNode = .ok configured) : AllConfigured configured := by
  rw [Array.mapM_eq_foldlM, ← Array.foldlM_toList] at done
  have start : AllConfigured (#[] : Array (Node σ)) := fun node member => by simp at member
  refine foldlM_keeps ?_ start done
  intro before member found next good done
  obtain ⟨id, found⟩ := List.mem_iff_getElem?.mp member
  rw [Array.getElem?_toList] at found
  obtain ⟨node, one, ended⟩ := except_bind_ok done
  cases ended
  intro other member
  rcases Array.mem_push.mp member with member | rfl
  · exact good other member
  · exact ⟨before, fresh id before found, one⟩

theorem assemble_yields (b : Blueprint σ) : b.assemble.Yields AllConfigured := by
  refine (Outline.declareWithin_yields b.registry _ b.pipeline).bind fun outline declared => ?_
  refine .bind (.ofConfig fun layout bound =>
    Binding.bindAll_declared (Layout.ofOutline_declared declared) bound) fun layout declared => ?_
  refine .bind (.ofConfig fun linked done => Wiring.linkAll_fresh declared.fresh done)
    fun linked fresh => ?_
  refine (Wiring.attachFrom_yields _ 0 fresh).bind fun nodes fresh => ?_
  refine (Inspection.inspect_yields _).bind fun _ _ => ?_
  exact .ofConfig fun configured done => configureAll_configured fresh done

theorem build_starts {b : Blueprint σ} {g : Graph σ} {good : Array (Node σ) → Prop}
    (starts : b.assemble.Starts good) (built : b.build.1 = .ok g) :
    ∃ nodes history, g = Graph.make nodes 0 b.environment history ∧ Uncalled history ∧
      good nodes := by
  obtain ⟨quiet, good⟩ := starts
  unfold build at built
  dsimp only at built
  cases done : b.assemble.run.1 with
  | error e =>
    rw [done] at built
    cases built
  | ok nodes =>
    rw [done] at built
    cases built
    refine ⟨nodes, _, rfl, .cons rfl fun event member => ?_, good nodes done⟩
    rcases List.mem_append.mp member with member | member
    · exact quiet event member
    · obtain rfl := List.mem_singleton.mp member
      rfl

theorem build_yields {b : Blueprint σ} {g : Graph σ} {good : Array (Node σ) → Prop}
    (yields : b.assemble.Yields good) (built : b.build.1 = .ok g) :
    ∃ nodes history, g = Graph.make nodes 0 b.environment history ∧ Uncalled history ∧
      good nodes :=
  build_starts yields.starts built

theorem build_configured {b : Blueprint σ} {g : Graph σ} (built : b.build.1 = .ok g) :
    ∃ nodes history, g = Graph.make nodes 0 b.environment history ∧ Uncalled history ∧
      AllConfigured nodes :=
  build_yields b.assemble_yields built

end Blueprint

end Sluice
