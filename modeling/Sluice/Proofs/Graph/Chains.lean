import Sluice.Proofs.Assembly.StageTypes
import Sluice.Proofs.Graph.ChannelRuns
import Sluice.Proofs.Graph.SplicedLevels
import Sluice.Stage.Catalogue

set_option autoImplicit false

namespace Sluice

open Blueprint (Course Shaped Takes)
open Layout (ofOutline)
open Route (Element Spot nameAt spotsOf stagesOf widthOf)

namespace Route

theorem stagesOf_chain (references : List String) : stagesOf (references.map .stage) = references := by
  induction references with
  | nil => rfl
  | cons reference rest ih =>
    rw [List.map_cons, stagesOf, ih]
    rfl

theorem widthOf_chain (references : List String) :
    widthOf (references.map Element.stage) = references.length := by
  induction references with
  | nil => rfl
  | cons reference rest ih =>
    rw [List.map_cons, widthOf_cons, ih, width_stage, List.length_cons, Nat.add_comm]

theorem spotsOf_chain (references : List String) (start : Nat) :
    ∀ s ∈ spotsOf start none (references.map .stage), s.reference.isSome = true ∧
      s.main = if s.place + 1 < start + references.length then some (s.place + 1) else none := by
  induction references generalizing start with
  | nil => exact nofun
  | cons reference rest ih =>
    intro s listed
    rw [List.map_cons, spotsOf] at listed
    rcases List.mem_append.mp listed with first | later
    · obtain rfl := List.mem_singleton.mp first
      refine ⟨rfl, ?_⟩
      cases rest with
      | nil => simp
      | cons _ _ => simp
    · obtain ⟨written, main⟩ := ih _ s later
      refine ⟨written, main.trans ?_⟩
      rw [width_stage, List.length_cons, Nat.add_assoc, Nat.add_comm 1]

end Route

def Stock.passing : List String := ["pass_through", "wrap", "reverse_string", "seq_packet", "tank_queue"]

def Pipeline.stageType? (p : Pipeline) (reference : String) : Option String :=
  (Outline.firstRegistered Stock.registry.stages
    (Outline.typeNames p (Literal.bareName reference))).map Prod.fst

structure Pipeline.Chains (p : Pipeline) (references : List String) : Prop where
  read : Route.read p.route = .ok (references.map .stage)
  distinct : (references.map Literal.bareName).Nodup
  plain : ∀ reference ∈ references, Route.isFanOutName (Literal.bareName reference) = false
  passing : ∀ reference ∈ references, ∃ typeName ∈ Stock.passing,
    p.stageType? reference = some typeName

def Pipeline.Queues (p : Pipeline) (references : List String) : Prop :=
  ∃ reference ∈ references, p.stageType? reference = some "tank_queue"

theorem Pipeline.Chains.route {p : Pipeline} {references : List String} (chains : p.Chains references) :
    Route.Distinct (references.map .stage) := by
  refine ⟨?_, fun reference listed => ?_⟩
  · rw [Route.stagesOf_chain]
    exact chains.distinct
  · rw [Route.stagesOf_chain] at listed
    exact chains.plain reference listed

theorem Stock.passing_duty {typeName : String} (listed : typeName ∈ passing) {type : Descriptor Stock}
    (found : registry.stages.at? typeName = some type) :
    ∃ d, type.initial.duty? = some d ∧ d ≠ .collect ∧ (d = .queue → typeName = "tank_queue") := by
  have duties : passing.all (fun name => ((registry.stages.at? name).bind fun type => type.initial.duty?).any
      fun d => d ≠ .collect ∧ (d = .queue → name = "tank_queue")) = true := by decide +kernel
  have duty := List.all_eq_true.mp duties typeName listed
  rw [found] at duty
  obtain ⟨d, known, apart⟩ := (Option.any_eq_true _ _).mp duty
  exact ⟨d, known, of_decide_eq_true apart⟩

namespace Stock

variable {s : Stock} {d : Channel.Duty} (duty : s.duty? = some d) (apart : d ≠ .collect)
include duty

theorem attach_duty (path : String) (successor : Option Successor) : s.attach path successor = .ok s := by
  cases s with
  | tankFeed f => cases duty
  | _ => rfl

include apart in
theorem configure_duty (params : ParamTable) (tank : Tank) :
    ((configure params).run ⟨s, tank⟩).2.state.duty? = some d := by
  rw [configure_run]
  cases s with
  | sink s => exact absurd (duty?_sink duty).1 apart
  | passThrough => exact duty
  | reverseString => exact duty
  | wrap w => exact duty
  | seqPacket s => exact duty
  | tankQueue => exact duty
  | _ => cases duty

end Stock

namespace Blueprint

theorem configure_dry {params : ParamTable} {s : Stock} {fitted : Fitted Stock}
    (done : (Stock.configure params).run ⟨s, .empty⟩ = (.ok (), fitted)) :
    fitted.tank.held = 0 ∧ fitted.tank.popExcess = none := by
  have ran := done.symm.trans (Stock.configure_run params s .empty)
  cases s with
  | tankQueue =>
    have done : ((TankQueue.configure params).run .empty).1 = .ok () := (congrArg Prod.fst ran).symm
    have tank : fitted.tank = ((TankQueue.configure params).run .empty).2 :=
      congrArg (fun ended => ended.2.tank) ran
    have buffer := (TankQueue.settings_buffer params .empty).1
    rw [tank, TankQueue.configure_pads done]
    generalize ((TankQueue.settings params).run .empty).2 = set at buffer
    have size : set.size = 0 := congrArg Buffer.size buffer
    have held : set.held = 0 := congrArg Buffer.held buffer
    have relieved : set.popExcess = none := Tank.popExcess_none_iff.mpr (by omega)
    exact ⟨(Tank.padBy_held _ _).trans held, (Tank.pad_full relieved).relieved⟩
  | _ =>
    obtain rfl := (congrArg Prod.snd ran :)
    exact ⟨rfl, rfl⟩

theorem build_dry {b : Blueprint Stock} {g : Graph Stock} (built : b.build.1 = .ok g) {id : NodeId}
    {node : Node Stock} (found : g.node? id = some node) :
    node.tank.held = 0 ∧ node.tank.popExcess = none := by
  obtain ⟨nodes, history, rfl, -, configured⟩ := build_configured built
  rcases node?_make_cases found with found | ⟨-, rfl⟩
  · obtain ⟨before, new, done⟩ := configured node (Array.mem_of_getElem? found)
    rcases configureNode_cases done with ⟨s, fitted, -, ran, rfl⟩ | ⟨-, rfl⟩
    · have ran : (Stock.configure before.params).run ⟨s, before.tank⟩ = (.ok (), fitted) := ran
      rw [new.2] at ran
      exact configure_dry ran
    · rw [new.2]
      exact ⟨rfl, rfl⟩
  · exact ⟨rfl, rfl⟩

section

variable {b : Blueprint Stock} {c : Course Stock} {nodes : Array (Node Stock)} {references : List String}
  (takes : b.Takes c nodes) (stages : b.registry.stages = Stock.registry.stages)
  (chains : b.pipeline.Chains references)
include takes chains

theorem Takes.chain : c.outline.root.Reads (references.map .stage) := by
  have whole := (Outline.declare_allTyped takes.declared).1
  exact takes.reads (Inlay.root_listed _) whole chains.read chains.route

include stages

theorem Takes.chain_stage {i : Nat} (within : i < references.length) : ∃ node s d,
    nodes[c.outline.root.seat (references.map .stage) i]? = some node ∧ node.kind = .stage s ∧
      s.duty? = some d ∧ d ≠ .collect ∧ (d = .queue → b.pipeline.Queues references) := by
  have reads := takes.chain chains
  obtain ⟨whole, allTyped⟩ := Outline.declare_allTyped takes.declared
  rw [← Route.widthOf_chain] at within
  obtain ⟨part, sits⟩ := (Layout.ofOutline_has c.outline).sits reads within
  obtain ⟨x, listed, rfl⟩ := Route.spot_at sits.within
  obtain ⟨reference, written⟩ := Option.isSome_iff_exists.mp (Route.spotsOf_chain references 0 x listed).1
  obtain ⟨named, inside⟩ := sits.written listed rfl written
  have plain := (sits.plain reads allTyped listed rfl written).1
  rw [Route.stagesOf_chain] at inside
  obtain ⟨typeName, passing, means⟩ := chains.passing reference inside
  obtain ⟨⟨_, type⟩, found, rfl⟩ := Option.map_eq_some_iff.mp means
  have of := sits.of allTyped
  have node := sits.seats.node
  have member := sits.seats.inside
  rw [whole, named] at of
  rw [named] at plain
  -- The root's references are plain names here, so each member is a stage of a passing type.
  cases of with
  | fanOut forks => exact absurd forks plain
  | subGraph _ other _ => rw [stages, found] at other; cases other
  | @stage typeName' type' _ found' =>
    rw [stages, found] at found'
    cases found'
    obtain ⟨d, duty, apart, queues⟩ := Stock.passing_duty passing (Outline.firstRegistered_some found).2
    obtain ⟨before, bound, was, done, there⟩ := takes.binds.members _ (Inlay.root_listed _) _ member
    obtain rfl := Option.some.inj (node.symm.trans was)
    obtain ⟨params, dynamic, rfl⟩ := Binding.bindMember_form done
    obtain ⟨final, last, furnished⟩ := takes.furnished there rfl
    obtain ⟨next, told, t, u, -, attached, configured, kind⟩ := furnished.settled
    -- Its binding and its configuration keep the duty it was registered with.
    have same : Except.ok type.initial = Except.ok told := (Stock.attach_duty duty _ _).symm.trans attached
    cases same
    refine ⟨final, t, d, last, kind, ?_, apart,
      fun queue => ⟨reference, inside, queues queue ▸ means⟩⟩
    have duty' := Stock.configure_duty duty apart params .empty
    have fitted : ((Stock.configure params).run ⟨type.initial, .empty⟩).2 = ⟨t, final.tank⟩ :=
      congrArg Prod.snd configured
    rw [fitted] at duty'
    exact duty'

omit stages in
theorem Takes.chain_main (shaped : Shaped c.outline nodes) {i : Nat} (within : i < references.length) :
    nodes[c.outline.root.seat (references.map .stage) i]?.bind Node.main =
      if i + 1 < references.length then some (c.outline.root.seat (references.map .stage) (i + 1))
      else none := by
  have reads := takes.chain chains
  rw [← Route.widthOf_chain] at within
  obtain ⟨x, listed, rfl⟩ := Route.spot_at within
  have main := (Route.spotsOf_chain references 0 x listed).2
  rw [Nat.zero_add] at main
  rw [shaped.main_root (reads.seat_mem within), reads.next listed, Spot.out, main]
  split <;> rfl

end

end Blueprint

namespace Graph

theorem node?_relink {σ : Type} (g : Graph σ) {source : NodeId} {node : Node σ}
    (found : g.node? source = some node) (plain : node.exit = none) (target : Option NodeId) (id : NodeId) :
    node? { g with nodes := linkMain source target g.nodes } id =
      (g.node? id).map fun node => if id = source then { node with main := target } else node := by
  have alone : exitsBy g.nodes.size source g.nodes = [source] := by
    have within := (Array.getElem?_eq_some_iff.mp found).1
    have found : g.nodes[source]? = some node := found
    obtain ⟨size, same⟩ : ∃ size, g.nodes.size = size + 1 := ⟨g.nodes.size - 1, by omega⟩
    rw [same, exitsBy, found, Option.bind_some, plain]
  unfold node? linkMain
  dsimp only
  rw [linkMainBy_getElem?, alone]
  simp only [List.mem_singleton]

structure Chain (g : Graph Stock) (seat : Nat → NodeId) (width : Nat) : Prop where
  filled : 0 < width
  enters : ∃ node, g.rootNode? = some node ∧
    node.kind = .subGraph (some (seat 0)) (some (seat (width - 1)))
  stage : ∀ i < width, ∃ node s d, g.node? (seat i) = some node ∧ node.kind = .stage s ∧
    s.duty? = some d ∧ d ≠ .collect ∧ node.closeDeferred = false ∧
      node.main = if i + 1 < width then some (seat (i + 1)) else none
  once : ∀ i < width, ∀ j < width, seat i = seat j → i = j

end Graph

theorem Blueprint.build_chain {b : Blueprint Stock} {g : Graph Stock}
    (built : b.build.1 = .ok g) (stages : b.registry.stages = Stock.registry.stages)
    {references : List String} (chains : b.pipeline.Chains references) :
    ∃ seat, g.Chain seat references.length ∧ ∀ i < references.length,
      (g.node? (seat i)).bind Node.state? = some .tankQueue → b.pipeline.Queues references := by
  have resting := build_resting built
  obtain ⟨c, nodes, history, rfl, -, takes, shaped⟩ := build_shaped built
  have reads := takes.chain chains
  have filled : 0 < references.length := by
    have some' := Route.widthOf_pos reads.proper.1
    rwa [Route.widthOf_chain] at some'
  have stage (i : Nat) (within : i < references.length) := takes.chain_stage stages chains within
  have there {i : Nat} {node : Node Stock}
      (found : nodes[c.outline.root.seat (references.map .stage) i]? = some node) :
      (Graph.make nodes 0 b.environment history).node?
        (c.outline.root.seat (references.map .stage) i) = some node :=
    (node?_make (Array.getElem?_eq_some_iff.mp found).1).trans found
  refine ⟨c.outline.root.seat (references.map .stage), ⟨filled, ?_, fun i within => ?_,
    fun i low j high same => ?_⟩, fun i within state => ?_⟩
  · obtain ⟨node, found, kind⟩ :=
      shaped.ends (Inlay.root_listed c.outline) (Layout.ofOutline_first c.outline) rfl
    refine ⟨node, (node?_make (Array.getElem?_eq_some_iff.mp found).1).trans found, ?_⟩
    rw [kind, reads.enters, reads.leaves, Route.widthOf_chain]
  · obtain ⟨node, s, d, found, kind, duty, apart, -⟩ := stage i within
    have main := takes.chain_main chains shaped within
    rw [found, Option.bind_some] at main
    exact ⟨node, s, d, there found, kind, duty, apart, (resting.idle _ node (there found)).2, main⟩
  · rw [← Route.widthOf_chain] at low high
    exact reads.seat_inj low high same
  · obtain ⟨node, s, d, found, kind, duty, -, queues⟩ := stage i within
    rw [there found, Option.bind_some, Node.state?, kind] at state
    obtain rfl : s = .tankQueue := Option.some.inj state
    exact queues (Option.some.inj duty).symm

namespace Graph

def channel (g : Graph Stock) (stages : List NodeId) : Channel := fun id =>
  if id ∈ g.pumpSink :: stages then ((g.node? id).bind Node.state?).bind Stock.duty? else none

theorem channel_duty {g : Graph Stock} {stages : List NodeId} {id : NodeId}
    (inside : id ∈ g.pumpSink :: stages) {node : Node Stock} {s : Stock} (found : g.node? id = some node)
    (stage : node.kind = .stage s) :
    g.channel stages id = s.duty? := by
  rw [channel, if_pos inside, found, Option.bind_some, Node.state?, stage]
  rfl

theorem channel_mem {g : Graph Stock} {stages : List NodeId} {id : NodeId} {d : Channel.Duty}
    (inside : g.channel stages id = some d) : id ∈ g.pumpSink :: stages := by
  by_contra outside
  rw [channel, if_neg outside] at inside
  cases inside

structure Vacant (g : Graph Stock) : Prop where
  lasting : g.shuttingDown = false
  sink : g.node? g.pumpSink = some pumpSinkNode
  dry : ∀ id node, g.node? id = some node → node.tank.held = 0 ∧ node.tank.popExcess = none

namespace Chain

variable {g : Graph Stock} {seat : Nat → NodeId} {width : Nat} (chain : g.Chain seat width)
  (vacant : g.Vacant)
include chain

def stages (seat : Nat → NodeId) (width : Nat) : List NodeId := (List.range width).map seat

omit chain in
theorem mem_stages {i : Nat} (within : i < width) : seat i ∈ g.pumpSink :: stages seat width :=
  List.mem_cons_of_mem _ (List.mem_map_of_mem (List.mem_range.mpr within))

theorem channel_seat {i : Nat} (within : i < width) :
    ∃ d, g.channel (stages seat width) (seat i) = some d ∧ d ≠ .collect := by
  obtain ⟨node, s, d, found, stage, duty, apart, -⟩ := chain.stage i within
  exact ⟨d, (channel_duty (mem_stages within) found stage).trans duty, apart⟩

include vacant

omit chain in
theorem channel_sink (stages : List NodeId) : g.channel stages g.pumpSink = some .collect :=
  channel_duty List.mem_cons_self vacant.sink rfl

theorem relinked : ∃ last, g.node? (seat (width - 1)) = some last ∧ g.pumpSink ≠ seat (width - 1) ∧
    ∀ id, node? { g with nodes := linkMain (seat (width - 1)) (some g.pumpSink) g.nodes } id =
      (g.node? id).map fun node =>
        if id = seat (width - 1) then { node with main := some g.pumpSink } else node := by
  have filled := chain.filled
  obtain ⟨last, s, d, found, stage, duty, apart, -⟩ := chain.stage (width - 1) (by omega)
  have plain : last.exit = none := by rw [Node.exit, stage]
  refine ⟨last, found, fun same => ?_, node?_relink g found plain _⟩
  rw [← same, vacant.sink] at found
  obtain rfl := Option.some.inj found
  obtain rfl : .sink .empty = s := NodeKind.stage.inj stage
  exact apart (Stock.duty?_sink duty).1

theorem loaded : (g.channel (stages seat width)).Loaded (fun _ => False) 0
    { g with nodes := linkMain (seat (width - 1)) (some g.pumpSink) g.nodes } := by
  have filled := chain.filled
  obtain ⟨last, found, beyond, there⟩ := chain.relinked vacant
  have sink : node? { g with nodes := linkMain (seat (width - 1)) (some g.pumpSink) g.nodes } g.pumpSink =
      some pumpSinkNode := by
    rw [there, vacant.sink, Option.map_some, if_neg beyond]
  refine ⟨
    { lasting := vacant.lasting
      enters := ?_
      mans id d inside := ?_
      queues id node found filled := ?_
      relieved id _ node found := ?_ }, ?_⟩
  · obtain ⟨root, found, kind⟩ := chain.enters
    obtain ⟨d, inside, -⟩ := chain.channel_seat filled
    refine ⟨_, _, some (seat (width - 1)), d, (there g.root).trans (congrArg _ found), ?_, inside⟩
    dsimp only
    split <;> exact kind
  -- The member is the collecting sink or one of the stages, the last of which now leads to that
  -- sink.
  · rcases List.mem_cons.mp (channel_mem inside) with rfl | listed
    · obtain rfl : .collect = d := Option.some.inj ((channel_sink vacant _).symm.trans inside)
      exact ⟨_, sink, ⟨_, rfl, rfl⟩, rfl, fun other => absurd rfl other, fun _ => ⟨rfl, rfl, rfl⟩⟩
    · obtain ⟨i, within, rfl⟩ := List.mem_map.mp listed
      rw [List.mem_range] at within
      obtain ⟨node, s, d', found, stage, duty, apart, prompt, main⟩ := chain.stage i within
      obtain rfl : d' = d := Option.some.inj
        (((channel_duty (mem_stages within) found stage).trans duty).symm.trans inside)
      refine ⟨_, (there (seat i)).trans (congrArg _ found), ⟨s, ?_, duty⟩, ?_, fun _ => ?_,
        fun collects => absurd collects apart⟩
      · dsimp only
        split <;> exact stage
      · dsimp only
        split <;> exact prompt
      · by_cases more : i + 1 < width
        · obtain ⟨next, leads, -⟩ := chain.channel_seat more
          have other : seat i ≠ seat (width - 1) := fun same => by
            have := chain.once i within (width - 1) (by omega) same
            omega
          refine ⟨seat (i + 1), next, ?_, leads⟩
          dsimp only
          rw [if_neg other, main, if_pos more]
        · obtain rfl : i = width - 1 := by omega
          refine ⟨g.pumpSink, .collect, ?_, channel_sink vacant _⟩
          dsimp only
          rw [if_pos rfl]
  · obtain ⟨before, main, was, rfl⟩ := linkMainBy_main _ found
    exact absurd (vacant.dry id before was).1 filled
  · obtain ⟨before, main, was, rfl⟩ := linkMainBy_main _ found
    exact (vacant.dry id before was).2
  · have none : g.retained = 0 := retained_zero fun id node found => (vacant.dry id node found).1
    rw [load, retained_relink, none, caught, sink]
    rfl

end Chain

end Graph

theorem Blueprint.build_vacant {b : Blueprint Stock} {g : Graph Stock} (built : b.build.1 = .ok g) :
    g.Vacant := by
  have dry (id : NodeId) (node : Node Stock) (found : g.node? id = some node) := build_dry built found
  obtain ⟨nodes, history, rfl, -, -⟩ := build_configured built
  exact ⟨rfl, Array.getElem?_push_size, dry⟩

/-- Pumping into a chain gives back all that is sent, apart from what the tanks of its queues retain.
None of these holds more than its capacity. -/
theorem Blueprint.chain_conserves {b : Blueprint Stock} {g : Graph Stock} (built : b.build.1 = .ok g)
    (stages : b.registry.stages = Stock.registry.stages) {references : List String}
    (chains : b.pipeline.Chains references) (depth : Nat) (parcels : List Parcel) :
    (Graph.pump depth parcels).Yields g fun results after =>
      results.length + after.retained = parcels.length ∧
        ∀ id node, after.node? id = some node → node.tank.held ≠ 0 → node.kind = .stage .tankQueue ∧
          node.tank.popExcess = none ∧ b.pipeline.Queues references := by
  obtain ⟨seat, chain, queues⟩ := build_chain built stages chains
  have vacant := build_vacant built
  obtain ⟨root, found, kind⟩ := chain.enters
  have leaves : g.exit = some (seat (references.length - 1)) := by
    rw [Graph.exit, found, Option.bind_some, Node.exit, kind]
  refine (Graph.pump_conserves leaves depth (chain.loaded vacant) (Graph.Chain.channel_sink vacant _)
    parcels).mono fun _ after ended => ⟨ended.1, fun id node found filled => ?_⟩
  obtain ⟨queue, stage, relieved⟩ := ended.2 id node found filled
  refine ⟨stage, relieved, ?_⟩
  have listed := Graph.channel_mem queue
  rcases List.mem_cons.mp listed with rfl | listed
  · cases (Graph.Chain.channel_sink vacant _).symm.trans queue
  · obtain ⟨i, within, rfl⟩ := List.mem_map.mp listed
    rw [List.mem_range] at within
    refine queues i within ?_
    rw [Graph.channel, if_pos (Graph.channel_mem queue)] at queue
    obtain ⟨s, state, duty⟩ := Option.bind_eq_some_iff.mp queue
    rw [state, Stock.duty?_queue duty]

end Sluice
