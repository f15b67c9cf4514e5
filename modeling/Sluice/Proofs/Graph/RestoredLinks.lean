import Sluice.Proofs.Assembly.Trials
import Sluice.Proofs.Assembly.Bounds
import Sluice.Proofs.Graph.Operations

set_option autoImplicit false

namespace Sluice

variable {σ : Type}

theorem Node.links_of_fixed {before after : Node σ} (fixed : after.fixed = before.fixed) :
    after.links = before.links :=
  congrArg (fun node : Node Unit => (node.kind, node.main, node.branch)) fixed

namespace Graph

structure SameWiring (g after : Graph σ) : Prop where
  nodes : SameLinks g.nodes after.nodes
  root : after.root = g.root
  pumpSink : after.pumpSink = g.pumpSink

namespace SameWiring

variable {g mid after : Graph σ}

theorem trans (first : g.SameWiring mid) (second : mid.SameWiring after) : g.SameWiring after :=
  ⟨first.nodes.trans second.nodes, second.root.trans first.root,
    second.pumpSink.trans first.pumpSink⟩

theorem update {id : NodeId} {f : Node σ → Node σ}
    (keeps : ∀ node, g.node? id = some node → (f node).links = node.links) :
    g.SameWiring (g.updateNode id f) :=
  ⟨.modify keeps, rfl, rfl⟩

theorem of_advances (advances : g.Advances after) : g.SameWiring after := by
  refine ⟨Array.ext_getElem? fun id => ?_, advances.root, advances.pumpSink⟩
  rw [Array.getElem?_map, Array.getElem?_map]
  have node := advances.nodes id not_false
  rw [node?, node?] at node
  generalize g.nodes[id]? = x, after.nodes[id]? = y at node
  cases node with
  | none => rfl
  | some moved => exact congrArg some (Node.links_of_fixed moved.fixed)

theorem node (same : g.SameWiring after) {id : NodeId} {node : Node σ}
    (found : g.node? id = some node) :
    ∃ last, after.node? id = some last ∧ last.links = node.links := by
  obtain ⟨last, there, links⟩ := same.nodes.symm.node found
  exact ⟨last, there, links.symm⟩

end SameWiring

theorem Lasts.exit {g after : Graph σ} (lasts : g.Lasts after) : after.exit = g.exit := by
  have related := lasts.nodes g.root
  unfold Graph.exit rootNode?
  rw [lasts.root]
  generalize g.node? g.root = x, after.node? g.root = y at related
  cases related with
  | none => rfl
  | some lasted => exact (Node.ends_of_shape lasted.shape).2

structure Wired (g : Graph σ) : Prop where
  size : g.nodes.size = g.pumpSink + 1
  root : (g.root : Nat) < g.pumpSink
  nodes : ∀ (id : Nat) (node : Node σ), g.node? id = some node → node.Bounded g.pumpSink id
  sink : ∃ node, g.node? g.pumpSink = some node ∧ node.kind.shape = .stage () ∧ node.main = none

namespace Wired

variable {g after : Graph σ} (wired : g.Wired)
include wired

theorem descends : Descends g.nodes := by
  intro id inner leaves
  obtain ⟨node, found, leaves⟩ := Option.bind_eq_some_iff.mp leaves
  have ⟨deeper, within⟩ := (wired.nodes id node found).exit inner leaves
  exact ⟨deeper, wired.size ▸ Nat.lt_succ_of_lt within⟩

theorem exit_within {exit : Nat} (leaves : g.exit = some exit) : exit < g.pumpSink := by
  obtain ⟨root, found, leaves⟩ := Option.bind_eq_some_iff.mp leaves
  exact ((wired.nodes _ root found).exit exit leaves).2

theorem sameWiring (same : g.SameWiring after) : after.Wired where
  size := by rw [same.nodes.size, wired.size, same.pumpSink]
  root := by rw [same.root, same.pumpSink]; exact wired.root
  nodes := by
    intro id node found
    obtain ⟨before, was, links⟩ := same.nodes.node found
    exact same.pumpSink ▸ (wired.nodes id before was).of_links links
  sink := by
    obtain ⟨node, found, shape, main⟩ := wired.sink
    obtain ⟨last, there, links⟩ := same.node found
    refine ⟨last, same.pumpSink ▸ there, ?_, (Node.main_of_links links).trans main⟩
    exact (Node.shape_of_links links).trans shape

end Wired

theorem linkMain_linkMain (source : NodeId) (first second : Option NodeId)
    (nodes : Array (Node σ)) :
    linkMain source second (linkMain source first nodes) = linkMain source second nodes := by
  refine Array.ext_getElem? fun id => ?_
  unfold linkMain
  -- The exits are nested as before, so that both times the same nodes are linked.
  rw [linkMainBy_getElem?, linkMainBy_getElem?, linkMainBy_getElem?, linkMainBy_size,
    exitsBy_congr fun id => exit_linkMainBy nodes.size source id first nodes, Option.map_map]
  refine congrArg (nodes[id]?.map ·) (funext fun node => ?_)
  by_cases member : id ∈ exitsBy nodes.size source nodes <;> simp [member]

theorem linkMain_links {nodes after : Array (Node σ)} (same : SameLinks nodes after)
    (source : NodeId) (target : Option NodeId) :
    SameLinks (linkMain source target nodes) (linkMain source target after) := by
  refine Array.ext_getElem? fun id => ?_
  unfold linkMain
  rw [Array.getElem?_map, Array.getElem?_map, linkMainBy_getElem?, linkMainBy_getElem?, same.size,
    exitsBy_congr same.exit, Option.map_map, Option.map_map]
  have related := same.getElem? id
  cases was : nodes[id]? with
  | none =>
    rw [was] at related
    rw [Option.map_eq_none_iff.mp related]
  | some node =>
    obtain ⟨last, there, links⟩ := Option.map_eq_some_iff.mp (related.trans (by rw [was]; rfl))
    rw [there]
    have shape := Node.shape_of_links links
    have main := Node.main_of_links links
    have branch := Node.branch_of_links links
    by_cases member : id ∈ exitsBy nodes.size source nodes <;>
      simp [member, Node.links, shape, main, branch]

section

variable [Stage σ]

theorem takeResults_wiring (g : Graph σ) :
    Run.Keeps g.SameWiring (takeResults : Run σ (List Parcel)) := by
  refine takeResults_keeps_of fun mid node s sink same found kind _ => ?_
  refine same.trans (.update fun other there => ?_)
  obtain rfl : node = other := Option.some.inj (found.symm.trans there)
  simp [Node.links, kind, NodeKind.shape]

theorem pump_wiring {g : Graph σ} (resting : g.Resting) {exit : NodeId}
    (leaves : g.exit = some exit) (depth : Nat) (parcels : List Parcel) :
    (pump depth parcels).Ends g fun _ after =>
      ({ g with nodes := linkMain exit ((g.node? exit).bind Node.main) g.nodes } : Graph σ).SameWiring
        after := by
  rw [pump_ends leaves]
  have linked := relink_rested g exit (some g.pumpSink) g ⟨resting, .refl g⟩
  refine (sendAll_advanced _ depth parcels _ ⟨linked.1, .refl _⟩).mono fun result mid ⟨_, sent⟩ => ?_
  -- Sending keeps the links, and of the two times that the exit is linked the second counts.
  have same := SameWiring.of_advances sent
  have back := linkMain_links same.nodes exit ((g.node? exit).bind Node.main)
  dsimp only at back
  rw [linkMain_linkMain] at back
  have restored : ({ g with nodes := linkMain exit ((g.node? exit).bind Node.main) g.nodes } :
      Graph σ).SameWiring
        { mid with nodes := linkMain exit ((g.node? exit).bind Node.main) mid.nodes } :=
    ⟨back, same.root, same.pumpSink⟩
  cases result with
  | error e => exact restored
  | ok _ => exact takeResults_wiring _ _ restored

end

section

variable {g : Graph σ} (wired : g.Wired)
include wired

theorem Wired.sink_outside {exit : NodeId} (leaves : g.exit = some exit) :
    ¬(g.pumpSink = exit ∨ g.Inside exit g.pumpSink) := by
  rintro (same | inside)
  · exact Nat.lt_irrefl _ (same ▸ wired.exit_within leaves)
  · obtain ⟨id, node, found, leaves⟩ : ∃ (id : Nat) (node : Node σ), g.node? id = some node ∧
        node.exit = some g.pumpSink := by
      cases inside with
      | exit found leaves => exact ⟨_, _, found, leaves⟩
      | nested _ found leaves => exact ⟨_, _, found, leaves⟩
    exact Nat.lt_irrefl _ ((wired.nodes id node found).exit _ leaves).2

theorem Wired.exit_within_nodes {exit : NodeId} (leaves : g.exit = some exit) :
    (exit : Nat) < g.nodes.size :=
  wired.size ▸ Nat.lt_succ_of_lt (wired.exit_within leaves)

theorem Wired.relinked {exit : NodeId} (leaves : g.exit = some exit) :
    ({ g with nodes := linkMain exit ((g.node? exit).bind Node.main) g.nodes } : Graph σ).Wired where
  size := (linkMainBy_size _ _ _ _).trans wired.size
  root := wired.root
  nodes := by
    intro id node found
    unfold node? linkMain at found
    rw [linkMainBy_getElem?] at found
    obtain ⟨before, was, rfl⟩ := Option.map_eq_some_iff.mp found
    have before' := wired.nodes id before was
    split
    · refine ⟨fun target main => ?_, before'.branch, before'.entry, before'.exit⟩
      obtain ⟨node, there, main⟩ := Option.bind_eq_some_iff.mp main
      exact (wired.nodes exit node there).main target main
    · exact before'
  sink := by
    obtain ⟨node, found, shape, main⟩ := wired.sink
    exact ⟨node, (linkMain_node? g wired.descends (wired.exit_within_nodes leaves) _ found).2
      (wired.sink_outside leaves), shape, main⟩

end

section

variable [Stage σ]

theorem operate_wiring {g after : Graph σ} {depth : Nat} {operation : Operation}
    (resting : g.Resting) (ran : g.operate depth operation = some after) :
    g.SameWiring after ∨ ∃ exit, g.exit = some exit ∧
      ({ g with nodes := linkMain exit ((g.node? exit).bind Node.main) g.nodes } : Graph σ).SameWiring
        after := by
  have kept {run : Run σ Unit} (keeps : Run.Keeps g.Advanced run)
      (ran : (run.start g).map Prod.snd = some after) : g.SameWiring after := by
    obtain ⟨⟨result, last⟩, started, rfl⟩ := Option.map_eq_some_iff.mp ran
    exact .of_advances ((keeps g ⟨resting, .refl g⟩).of_start started).2
  cases operation with
  | shutdown => exact .inl (kept (shutdown_advanced g depth) ran)
  | act act =>
    cases act with
    | setVariable name text =>
      cases ran
      exact .inl ⟨.refl _, rfl, rfl⟩
    | removeVariable name =>
      cases ran
      exact .inl ⟨.refl _, rfl, rfl⟩
    | send p => exact .inl (kept (send_advanced g depth p) ran)
    | message m => exact .inl (kept (sendMessage_advanced g depth m) ran)
    | pump parcels =>
      obtain ⟨⟨result, last⟩, started, rfl⟩ := Option.map_eq_some_iff.mp ran
      cases leaves : g.exit with
      | none =>
        obtain ⟨-, rfl⟩ := (pump_none leaves depth parcels).of_start started
        exact .inl ⟨.refl _, rfl, rfl⟩
      | some exit =>
        exact .inr ⟨exit, rfl, (pump_wiring resting leaves depth parcels).of_start started⟩

theorem operate_wired {g after : Graph σ} {depth : Nat} {operation : Operation}
    (resting : g.Resting) (wired : g.Wired) (ran : g.operate depth operation = some after) :
    after.Wired := by
  rcases operate_wiring resting ran with same | ⟨exit, leaves, same⟩
  · exact wired.sameWiring same
  · exact (wired.relinked leaves).sameWiring same

theorem Leads.wired {g after : Graph σ} (leads : g.Leads after) (resting : g.Resting)
    (wired : g.Wired) : after.Wired := by
  induction leads with
  | refl => exact wired
  | operate before ran ih => exact operate_wired (before.rested resting).1 ih ran

end

end Graph

theorem Blueprint.build_wired [Stage σ] {b : Blueprint σ} {g : Graph σ}
    (built : b.build.1 = .ok g) : g.Wired := by
  obtain ⟨nodes, history, rfl, linked⟩ := build_linked built
  have old (id : Nat) (node : Node σ) (found : (Graph.make nodes 0 b.environment history).node? id =
      some node) : nodes[id]? = some node ∨ node = Graph.pumpSinkNode := by
    rw [Graph.node?, Graph.make, Array.getElem?_push] at found
    split at found
    · exact .inr (Option.some.inj found).symm
    · exact .inl found
  refine ⟨Array.size_push _, linked.inhabited, fun id node found => ?_, ?_⟩
  · rcases old id node found with within | rfl
    · exact linked.bounded id node within
    · exact Node.Unlinked.bounded ⟨rfl, rfl, rfl, rfl⟩ _ id
  · exact ⟨Graph.pumpSinkNode, Array.getElem?_push_size, rfl, rfl⟩

namespace Graph

variable [Stage σ]

/-- After a pump every node leads where it did before, apart from the nested exits: these come out
with what followed the outermost one. -/
theorem pump_restores_but_nested_exits {b : Blueprint σ} {g before after : Graph σ} {depth : Nat}
    {parcels : List Parcel} {result : Except EngineError (List Parcel)}
    (built : b.build.1 = .ok g) (leads : g.Leads before)
    (ran : (pump depth parcels).start before = some (result, after)) {id : NodeId} {node : Node σ}
    (found : before.node? id = some node) :
    ∃ last, after.node? id = some last ∧ last.branch = node.branch ∧
      (∀ exit, before.exit = some exit → before.Inside exit id →
        last.main = (before.node? exit).bind Node.main) ∧
      ((∀ exit, before.exit = some exit → ¬before.Inside exit id) → last.main = node.main) := by
  have ⟨resting, _⟩ := leads.rested (b.build_resting built)
  have wired := leads.wired (b.build_resting built) (b.build_wired built)
  cases leaves : before.exit with
  | none =>
    obtain ⟨-, rfl⟩ := (pump_none leaves depth parcels).of_start ran
    exact ⟨node, found, rfl, fun _ => nofun, fun _ => rfl⟩
  | some exit =>
    have same := (pump_wiring resting leaves depth parcels).of_start ran
    have ⟨linked, left⟩ := linkMain_node? before wired.descends (wired.exit_within_nodes leaves)
      ((before.node? exit).bind Node.main) found
    -- Only the outermost exit is given back what it had.
    by_cases inside : before.Inside exit id
    · obtain ⟨last, there, links⟩ := same.node (linked (.inr inside))
      refine ⟨last, there, (Node.branch_of_links links).trans rfl, ?_,
        fun none => absurd inside (none exit rfl)⟩
      rintro _ ⟨⟩ -
      exact Node.main_of_links links
    · by_cases here : id = exit
      · subst here
        obtain ⟨last, there, links⟩ := same.node (linked (.inl rfl))
        refine ⟨last, there, (Node.branch_of_links links).trans rfl, ?_, fun _ => ?_⟩
        · rintro _ ⟨⟩ nested
          exact absurd nested inside
        · refine (Node.main_of_links links).trans ?_
          rw [found]
          rfl
      · obtain ⟨last, there, links⟩ := same.node (left (by simp [here, inside]))
        refine ⟨last, there, Node.branch_of_links links, ?_, fun _ => Node.main_of_links links⟩
        rintro _ ⟨⟩ nested
        exact absurd nested inside

def enclosing : Blueprint Stock where
  pipeline := ⟨"line", "", [], false, "ring", []⟩
  registry := { Stock.registry with
    graphs := [("ring", ⟨"ring", "", [], false, "pass_through wrap pass_through", []⟩)] }
  params := []
  environment := .empty

theorem enclosing_pump_opens_loop : ∃ g after node last, enclosing.build.1 = .ok g ∧
    (pump 6 []).start g = some (.ok [], after) ∧ g.node? 2 = some node ∧ node.main = some 3 ∧
      after.node? 2 = some last ∧ last.main = none := by
  have runs : enclosing.passes (fun g => decide (g.exit = some 1) &&
      decide ((g.node? 1).bind Node.main = none) && decide ((g.node? 1).bind Node.exit = some 2) &&
        decide ((g.node? 2).bind Node.main = some 3) &&
          (pump 6 []).succeeds g fun results _ => results.isEmpty) = true := by decide +kernel
  obtain ⟨g, built, runs⟩ := Blueprint.of_passes runs
  simp only [Bool.and_eq_true, decide_eq_true_eq] at runs
  obtain ⟨⟨⟨⟨leaves, follows⟩, inner⟩, main⟩, runs⟩ := runs
  obtain ⟨results, after, ran, empty⟩ := Run.of_succeeds runs
  obtain rfl := List.isEmpty_iff.mp empty
  obtain ⟨node, found, main⟩ := Option.bind_eq_some_iff.mp main
  obtain ⟨last, there, -, relinked, -⟩ := pump_restores_but_nested_exits built .refl ran found
  have main' := relinked 1 leaves (inside_exit inner)
  exact ⟨g, after, node, last, built, ran, found, main, there, main'.trans follows⟩

end Graph

end Sluice
