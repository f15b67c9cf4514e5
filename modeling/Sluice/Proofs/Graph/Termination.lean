import Mathlib.Data.Finset.Card
import Sluice.Proofs.Assembly.Trials
import Sluice.Proofs.Assembly.Ranks
import Sluice.Proofs.Graph.Handover
import Sluice.Stage.Catalogue

set_option autoImplicit false

namespace Sluice

variable {σ : Type}

namespace Ranked

/-- How far a parcel can be handed on from a node before it gets to a stage. -/
def rank (nodes : Array (Node σ)) (id : Nat) : Nat :=
  match nodes[id]?.map Node.kind with
  | some .fanOut => nodes.size + id + 1
  | some (.subGraph _ _) => nodes.size - id
  | _ => 0

variable {nodes : Array (Node σ)} {id target : Nat} {node : Node σ}

theorem rank_of_passing (passing : ¬ForksAt nodes target) : rank nodes target ≤ nodes.size - target := by
  unfold rank
  split
  next kind =>
    obtain ⟨node, found, kind⟩ := Option.map_eq_some_iff.mp kind
    exact absurd ⟨node, found, by rw [Node.isFanOut, kind]⟩ passing
  next => exact Nat.le_refl _
  next => exact Nat.zero_le _

variable (ranked : Ranked nodes) (found : nodes[id]? = some node)
include ranked found

theorem rank_entry {entry exit : Option NodeId} (kind : node.kind = .subGraph entry exit)
    (enters : entry = some target) : rank nodes target < rank nodes id := by
  have ⟨after, passing⟩ := ranked.entry id target (by rw [found]; simp [Node.entry, kind, enters])
  have less := rank_of_passing passing
  have here : rank nodes id = nodes.size - id := by simp [rank, found, kind]
  have := (Array.getElem?_eq_some_iff.mp found).1
  omega

theorem rank_fanOut (kind : node.kind = .fanOut)
    (leads : node.main = some target ∨ node.branch = some target) :
    rank nodes target < rank nodes id := by
  have forks : ForksAt nodes id := ⟨node, found, by rw [Node.isFanOut, kind]⟩
  have here : rank nodes id = nodes.size + id + 1 := by simp [rank, found, kind]
  by_cases forks' : ForksAt nodes target
  · -- From one fan-out to another only along the main edge, and back to an earlier node.
    have before : target < id := by
      rcases leads with main | branch
      · exact ranked.main id target forks (by rw [found]; exact main) forks'
      · exact absurd forks' (ranked.branch id target forks (by rw [found]; exact branch))
    obtain ⟨other, there, forks'⟩ := forks'
    have kind' : other.kind = .fanOut := by
      cases kind : other.kind <;> simp [Node.isFanOut, kind] at forks' ⊢
    have : rank nodes target = nodes.size + target + 1 := by simp [rank, there, kind']
    omega
  · have := rank_of_passing forks'
    omega

end Ranked

namespace Graph

def idle (g : Graph σ) : Finset NodeId :=
  (Finset.range g.nodes.size).filter fun id => (g.node? id).any fun node => !node.busy

variable {g after : Graph σ} {id : NodeId}

theorem mem_idle : id ∈ g.idle ↔ ∃ node, g.node? id = some node ∧ node.busy = false := by
  rw [idle, Finset.mem_filter, Option.any_eq_true]
  simp only [Bool.not_eq_true', and_iff_right_iff_imp, Finset.mem_range]
  rintro ⟨node, found, -⟩
  exact (Array.getElem?_eq_some_iff.mp found).1

theorem idle_of_advances (advances : g.Advances after) : after.idle = g.idle := by
  ext id
  rw [mem_idle, mem_idle]
  constructor
  · rintro ⟨node, found, free⟩
    obtain ⟨before, was, moved⟩ := advances.node_before found
    exact ⟨before, was, moved.busy ▸ free⟩
  · rintro ⟨before, was, free⟩
    obtain ⟨node, found, moved⟩ := advances.node was
    exact ⟨node, found, moved.busy ▸ free⟩

theorem idle_mark (opened : g.Open id) : (g.mark id true).idle ⊂ g.idle := by
  obtain ⟨node, _, found, -, free, -⟩ := opened
  refine Finset.ssubset_iff.mpr ⟨id, fun member => ?_, Finset.insert_subset ?_ fun other member => ?_⟩
  · obtain ⟨last, there, free⟩ := mem_idle.mp member
    rw [node?_mark found] at there
    cases there
    cases free
  · exact mem_idle.mpr ⟨node, found, free⟩
  · obtain ⟨last, there, free⟩ := mem_idle.mp member
    obtain ⟨before, was, ⟨rfl, rfl⟩ | ⟨-, rfl⟩⟩ := updateNode_cases there
    · cases free
    · exact mem_idle.mpr ⟨last, was, free⟩

end Graph

namespace Handover

open Run (Returns)

variable {g : Graph Stock} {active : List NodeId} {id : NodeId}

theorem acceptance_returns (plain : g.Plain) (opened : g.Open id)
    (settles : Settles (id :: active) (g.mark id true)) (h : Handle) :
    Returns (fun depth => do
      let result ← Run.attempt (Run.holding id
        (Traffic.accept (Traffic.supervise depth (id :: active)) id h))
      Traffic.settle (Traffic.supervise depth active) id result) g fun _ _ => True := by
  have marked : (g.mark id true).Plain := plain.update fun node found =>
    ⟨rfl, fun s stage => plain.stages id node s found stage⟩
  have on : Active (g.mark id true) id (g.mark id true) := ⟨.refl _, marked, opened.held⟩
  have accepted := (accept_returns settles on h).and_ends fun depth =>
    (regime_lawful unlocked).accept (supervise_serves unlocked depth (id :: active)) on.calls
      not_false on.held h
  refine .bind (.attempt (.holding (accepted.mono fun result after ⟨_, allows, _⟩ => ?_)))
  refine Traffic.settle_returns (fun _ => trivial) fun deferred => ?_
  -- No close was put off meanwhile.
  obtain ⟨node, found, deferred⟩ := (Option.any_eq_true _ _).mp deferred
  have plain := (on.next allows).plain
  obtain ⟨before, was, ⟨-, rfl⟩ | ⟨-, rfl⟩⟩ := Graph.updateNode_cases found
  · rw [plain.kept id before was] at deferred
    cases deferred
  · rw [plain.kept id node was] at deferred
    cases deferred

theorem refused_returns {again : Nat → Call → Run Stock Unit} {node : Node Stock} {s : Stock}
    {h : Handle} (found : g.node? id = some node) (stage : node.kind = .stage s)
    (refuses : Traffic.accepting g (.deliver id (.parcel h)) = none) :
    Returns (fun depth => Traffic.deliverToStage (again depth) id node (.parcel h)) g
      fun _ _ => True := by
  unfold Traffic.deliverToStage
  split
  · exact .update_bind (.throw trivial)
  next ongoing =>
    split
    · refine .graph_bind ?_
      split
      · exact .update trivial
      · exact .throw trivial
    next free => simp [Traffic.accepting, found, Node.state?, stage, ongoing, free] at refuses

theorem deliver_returns (ranked : Ranked g.nodes) (plain : g.Plain)
    (busy : ∀ id ∈ active, g.Busy id) (id : NodeId) (h : Handle) :
    Returns (fun depth => Traffic.supervise depth active (.deliver id (.parcel h))) g
      fun _ _ => True := by
  -- A stage that accepts is locked, and between stages the rank falls.
  induction free : g.idle using Finset.lt_wf.induction generalizing g active id h with
  | _ nodes fewer =>
    induction steps : Ranked.rank g.nodes id using Nat.strong_induction_on generalizing g id h with
    | _ n nearer =>
      subst steps
      cases accepts : Traffic.accepting g (.deliver id (.parcel h)) with
      | some entry =>
        obtain ⟨id', h'⟩ := entry
        obtain ⟨same, opened⟩ := Traffic.accepting_open accepts
        cases same
        refine Traffic.supervise_accepts accepts (fun member => opened.not_busy (busy id member))
          (acceptance_returns plain opened (fun mid advances plain target h => ?_) h)
        have marked : Ranked (g.mark id true).nodes := by
          have same : g.SameWiring (g.mark id true) := .update fun _ _ => rfl
          exact same.nodes.ranked ranked
        have less : mid.idle < nodes := by
          rw [Graph.idle_of_advances advances, ← free]
          exact Graph.idle_mark opened
        refine fewer _ less ((Graph.SameWiring.of_advances advances).nodes.ranked marked) plain
          (fun other member => ?_) target h rfl
        rcases List.mem_cons.mp member with rfl | member
        · obtain ⟨node, _, found, -⟩ := opened
          exact Graph.Busy.advances ⟨_, Graph.node?_mark found true, rfl⟩ advances
        · exact ((busy other member).mark id).advances advances
      | none =>
        -- Nothing but the parcels and the history changes on the way.
        have onward (store : Store) (history : List (Event Stock)) {target : NodeId}
            (less : Ranked.rank g.nodes target < Ranked.rank g.nodes id) :
            Returns (fun depth => Traffic.supervise depth active (.deliver target (.parcel h)))
              { g with store, history } fun _ _ => True :=
          @nearer _ less { g with store, history } ranked ⟨plain.stages, plain.kept⟩ busy target h
            free rfl
        refine Traffic.supervise_returns accepts (.atNode (fun _ => trivial) fun node found => ?_)
        cases kind : node.kind with
        | subGraph entry exit =>
          exact Traffic.onward_returns (fun _ => trivial) fun inner enters =>
            onward g.store g.history (ranked.rank_entry found kind enters)
        | stage s => exact refused_returns found kind accepts
        | fanOut =>
          refine .graph_bind (.update_bind (.update_bind ?_))
          dsimp only
          split
          · exact .throw trivial
          next target _ there => exact onward _ _ (ranked.rank_fanOut found kind (.inr there))
          · exact Traffic.onward_returns (fun _ => trivial) fun target main =>
              onward _ _ (ranked.rank_fanOut found kind (.inl main))

end Handover

namespace Graph

theorem reads_of_linkMain {β : Type} (read : σ → β) (g : Graph σ) (source : NodeId)
    (target : Option NodeId) (id : NodeId) :
    ({ g with nodes := linkMain source target g.nodes } : Graph σ).reads read id = g.reads read id := by
  unfold reads node? linkMain
  rw [linkMainBy_bind fun _ _ => rfl]

section

variable {β : Type} {read : Stock → β} (obeys : ∀ here s,
  Stage.Obeys (fun _ => True) (fun t => read t = read s) (fun _ => True) here s)
  (sinks : ∀ s t, read (.sink s) = read (.sink t)) (start : Graph Stock)

include obeys sinks

theorem takeResults_reads : Run.Keeps (fun g => ∀ id, g.reads read id = start.reads read id)
    (takeResults : Run Stock (List Parcel)) := by
  refine takeResults_keeps_of fun g node s sink holds found kind sinking => ?_
  have same : start.reads read g.pumpSink = some (read s) := by
    rw [← holds, reads, found, Option.bind_some, Node.state?, kind]
    rfl
  have own : s = .sink sink := by
    cases s with
    | sink s => exact congrArg Stock.sink (Option.some.inj sinking)
    | _ => cases sinking
  rw [own, sinks sink sink.take.2] at same
  exact (Traffic.reading_guards read obeys start).state holds not_false same

theorem pump_reads (depth : Nat) (parcels : List Parcel) :
    Run.Keeps (fun g => ∀ id, g.reads read id = start.reads read id) (pump depth parcels) := by
  apply pump_keeps_of
  · intro source target g holds id
    exact (reads_of_linkMain read g source target id).trans (holds id)
  · exact (Traffic.reading_guards read obeys start).sendAll depth parcels
  · exact takeResults_reads obeys sinks start

theorem Leads.reads {after : Graph Stock} (leads : start.Leads after) (id : NodeId) :
    after.reads read id = start.reads read id := by
  induction leads generalizing id with
  | refl => rfl
  | @operate mid after depth operation before ran ih =>
    by_cases pumps : ∃ parcels, operation = .act (.pump parcels)
    · obtain ⟨parcels, rfl⟩ := pumps
      obtain ⟨⟨result, last⟩, started, rfl⟩ := Option.map_eq_some_iff.mp ran
      exact (pump_reads obeys sinks start depth parcels mid ih).of_start started id
    · exact (Traffic.reading_guards read obeys start).operate ran
        (fun parcels same => pumps ⟨parcels, same⟩) ih id

end

def allPlain (g : Graph Stock) : Bool := g.nodes.all fun node => node.state?.all Stock.isPlain

theorem plain_of_allPlain {g : Graph Stock} (checked : g.allPlain = true) {id : NodeId}
    {node : Node Stock} {s : Stock} (found : g.node? id = some node) (stage : node.kind = .stage s) :
    s.isPlain = true := by
  have here := Array.all_eq_true_iff_forall_mem.mp checked node (Array.mem_of_getElem? found)
  simpa [Node.state?, stage] using here

theorem Leads.plain {g after : Graph Stock} (leads : g.Leads after) (resting : g.Resting)
    (checked : g.allPlain = true) : after.Plain := by
  refine ⟨fun id node s found stage => ?_, fun id node found =>
    ((leads.rested resting).1.idle id node found).2⟩
  have same := leads.reads (fun here s => (Stock.stays_plain here s).mono (fun _ _ => trivial)
    (fun _ same => same) fun _ _ => trivial) (fun _ _ => rfl) g id
  rw [Graph.reads, found, Option.bind_some, Node.state?, stage, Option.map_some] at same
  obtain ⟨t, state, plain⟩ := Option.map_eq_some_iff.mp same.symm
  obtain ⟨before, was, state⟩ := Option.bind_eq_some_iff.mp state
  rw [← plain]
  exact plain_of_allPlain checked was (Node.kind_of_state state)

/-- Without feedback a parcel comes to rest wherever it is sent in, cycles and sub-graphs in sub-graphs
included, and no stage accepts a parcel while it accepts another. A stage could only be taken for a
fan-out if it were written with the name of one. -/
theorem units_come_to_rest {b : Blueprint Stock} {g before : Graph Stock} {outline : Outline Stock}
    (built : b.build.1 = .ok g)
    (declared : (Outline.declare b.registry b.pipeline).run.1 = .ok outline)
    (unforked : Blueprint.Unforked outline) (plain : g.allPlain = true) (leads : g.Leads before)
    (p : Parcel) : ∃ depth result after, ∀ more, depth ≤ more →
      (send more p).start before = some (result, after) ∧
        (sendSupervised more p).start before = some (result, after) := by
  have resting := b.build_resting built
  have ranked := leads.ranked resting (Blueprint.build_wired built)
    (Blueprint.build_ranked built declared unforked)
  have plain := leads.plain resting plain
  let sent : Graph Stock := { before with store := (before.store.add p).2 }
  have rests := @Handover.deliver_returns sent [] ranked ⟨plain.stages, plain.kept⟩ nofun before.root
    (before.store.add p).1
  obtain ⟨depth, result, after, started, -⟩ := rests
  refine ⟨depth, result, after, fun more deep => ?_⟩
  have supervised : (sendSupervised more p).start before = some (result, after) := started more deep
  exact ⟨sendSupervised_below more p before _ supervised, supervised⟩

def winding : Blueprint Stock where
  pipeline := ⟨"line", "", [], false, "tank_queue:1 step outer branch_ref (wrap) tank_queue", []⟩
  registry := { Stock.registry with
    stages := Stock.registry.stages ++
      [("step", Stock.scriptType "step" [] fun _ p => ({ p with data := p.data ++ p.data }, none))]
    graphs := [("outer", ⟨"outer", "", [], false, "branch_clone (inner) inner", []⟩),
      ("inner", ⟨"inner", "", [], false, "wrap reverse_string wrap", []⟩)] }
  params := []
  environment := .empty

theorem winding_comes_to_rest : ∃ g outline, winding.build.1 = .ok g ∧
    (Outline.declare winding.registry winding.pipeline).run.1 = .ok outline ∧
      Blueprint.Unforked outline ∧ g.allPlain = true ∧ g.Leads g ∧
        ∃ depth result after, ∀ more, depth ≤ more →
          (send more (.ofText "one")).start g = some (result, after) ∧
            (sendSupervised more (.ofText "one")).start g = some (result, after) := by
  have runs : winding.passes Graph.allPlain = true := by decide +kernel
  have declares : (Outline.declare winding.registry winding.pipeline).run.1.toOption.any (fun outline =>
      (Layout.ofOutline outline).levels.all fun s => s.plan.references.all fun reference =>
        !Route.isFanOutName (Literal.bareName reference)) = true := by decide +kernel
  obtain ⟨g, built, plain⟩ := Blueprint.of_passes runs
  obtain ⟨outline, declared, written⟩ := except_of_any declares
  have unforked : Blueprint.Unforked outline := by
    intro s member reference listed
    have here := List.all_eq_true.mp (List.all_eq_true.mp written s member) reference listed
    simpa using here
  exact ⟨g, outline, built, declared, unforked, plain, .refl,
    units_come_to_rest built declared unforked plain .refl (.ofText "one")⟩

end Graph

end Sluice
