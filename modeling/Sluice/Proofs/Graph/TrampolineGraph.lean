import Sluice.Proofs.Assembly.Bounds
import Sluice.Proofs.Graph.EndlessCalls
import Sluice.Proofs.Stage.Scripts

set_option autoImplicit false

namespace Sluice

def BranchIf.asksRecurse (b : BranchIf) : Bool :=
  b.key == recurseKey && b.comparison == .equals && b.against == .bool true && b.ofParcel

inductive Duty where
  | whole (entry exit : Option NodeId)
  | queue
  | body
  | test
  | fork
  | feeder (target : Option NodeId)
  | sink (limit : Nat)
  | other
  deriving DecidableEq

def Stock.duty : Stock → Duty
  | .tankQueue => .queue
  | .script _ _ => .body
  | .factorial => .body
  | .branchIf b => if b.asksRecurse then .test else .other
  | .tankFeed f => .feeder f.target
  | .sink s => .sink s.maxResults
  | _ => .other

def NodeKind.duty : NodeKind Stock → Duty
  | .stage s => s.duty
  | .fanOut => .fork
  | .subGraph entry exit => .whole entry exit

def Duty.Fits : Duty → NodeKind Stock → Prop
  | .whole entry exit, kind => kind = .subGraph entry exit
  | .queue, kind => kind = .stage .tankQueue
  | .body, kind => ∃ s, kind = .stage s ∧ s.duty = .body
  | .test, kind => ∃ b, kind = .stage (.branchIf b) ∧ b.asksRecurse = true
  | .fork, kind => kind = .fanOut
  | .feeder target, kind => kind = .stage (.tankFeed ⟨target⟩)
  | .sink limit, kind => ∃ s, kind = .stage (.sink s) ∧ s.maxResults = limit
  | .other, _ => True

theorem NodeKind.duty_fits (kind : NodeKind Stock) : kind.duty.Fits kind := by
  cases kind with
  | stage s =>
    cases s with
    | branchIf b =>
      unfold duty Stock.duty
      dsimp only
      split
      next asks => exact ⟨b, rfl, asks⟩
      next => trivial
    | script run params => exact ⟨_, rfl, rfl⟩
    | factorial => exact ⟨_, rfl, rfl⟩
    | sink s => exact ⟨s, rfl, rfl⟩
    | tankQueue => rfl
    | tankFeed f => rfl
    | _ => trivial
  | fanOut => rfl
  | subGraph entry exit => rfl

structure Card where
  duty : Duty
  name : String
  path : String
  main : Option NodeId
  branch : Option NodeId
  /-- Takes parcels, follows no variables and is not about to be closed. -/
  steady : Bool
  deriving DecidableEq

def Node.card (node : Node Stock) : Card where
  duty := node.kind.duty
  name := node.name
  path := node.path
  main := node.main
  branch := node.branch
  steady := decide (node.phase ≠ .closed) && node.dynamic.isEmpty && !node.closeDeferred

theorem Node.card_fits {node : Node Stock} {card : Card} (same : node.card = card) :
    card.duty.Fits node.kind := same ▸ node.kind.duty_fits

namespace Comparison

theorem areEqual_true {v : Value} : areEqual v (.bool true) = true ↔ v = .bool true := by
  have same : areEqual v (.bool true) = (v == .bool true) := by
    unfold areEqual
    split
    next right => cases right
    next => rfl
  rw [same]
  cases v <;> simp [BEq.beq, Value.same]

end Comparison

namespace BranchIf

variable {b : BranchIf} (asks : b.asksRecurse = true)
include asks

theorem decideEdge_recurse {p : Parcel} {v : Value} (has : p.attr? recurseKey = some v) :
    b.decideEdge p = .ok (if Comparison.areEqual v (.bool true) then .branch else .main) := by
  simp only [asksRecurse, Bool.and_eq_true, beq_iff_eq] at asks
  obtain ⟨⟨⟨key, comparison⟩, against⟩, own⟩ := asks
  have against : b.against = .bool true := by
    cases kind : b.against <;> simp_all [BEq.beq, Value.same]
  have left : b.left? p = some v := by rw [left?, own, key]; exact has
  simp only [decideEdge, left, comparison, Comparison.holds, against, Except.map]

def act (path : String) (h : Handle) : Except String Edge → Program BranchIf Unit
  | .ok edge => Program.forward h edge
  | .error reason => .fail (.data path reason)

end BranchIf

theorem Sink.keep_unlimited {s : Sink} (unlimited : s.maxResults = 0) (h : Handle) :
    (s.keep h).results = s.results ++ [h] := by
  simp [keep, unlimited]

theorem Store.write_write (store : Store) (h : Handle) (p q : Parcel) :
    (store.write h p).write h q = store.write h q := by
  simp [write, Array.setIfInBounds_setIfInBounds]

theorem Traffic.interpret_forward {σ : Type} (again : Call → Run σ Unit) (id : NodeId) (h : Handle)
    (edge : Edge) (g : Graph σ) : (interpret again id (Program.forward h edge : Program σ Unit)).start g =
      (forward again id h edge).start g := by
  change (forward again id h edge >>= fun _ => pure ()).start g = _
  rw [bind_pure_unit]

theorem Traffic.forward_none {σ : Type} {again : Call → Run σ Unit} {g : Graph σ} {id : NodeId}
    {node : Node σ} (found : g.node? id = some node) (main : node.main = none) (h : Handle) :
    (forward again id h .main).start g = some (.ok (), g) := by
  unfold forward
  rw [Run.atNode_start found, main]
  rfl

def Graph.stepped (f : Body) (h : Handle) (g : Graph Stock) : Graph Stock :=
  let p := g.store.read h
  { g with store := g.store.write h ((f.turn p.content).parcel p.fork p.origin) }

structure Stock.Does (s : Stock) (f : Body) : Prop where
  works : ∀ (id : NodeId) (here : Here) (h : Handle) (g : Graph Stock),
    (f (g.store.read h).content).2 = none → ∀ again : Call → Run Stock Unit,
      (Traffic.interpret again id (s.accept here h)).start g =
        (Traffic.forward again id h .main).start (g.stepped f h)
  fails : ∀ (id : NodeId) (here : Here) (h : Handle) (g : Graph Stock) (reason : String),
    (f (g.store.read h).content).2 = some reason → ∃ history, ∀ again : Call → Run Stock Unit,
      (Traffic.interpret again id (s.accept here h)).start g =
        some (.error (.data here.path reason), { g.stepped f h with history })

theorem Stock.script_accept (again : Call → Run Stock Unit) (f : Body) (params : ParamTable)
    (id : NodeId) (here : Here) (h : Handle) (g : Graph Stock) :
    (Traffic.interpret again id ((Stock.script f.script params).accept here h)).start g =
      (Traffic.interpret again id (match (f (g.store.read h).content).2 with
        | some reason => Program.failReporting here.path reason
        | none => Program.forward h .main : Program Stock Unit)).start (g.stepped f h) := rfl

theorem Stock.script_does (f : Body) (params : ParamTable) : (Stock.script f.script params).Does f where
  works id here h g works again := by
    rw [Stock.script_accept, works]
    exact Traffic.interpret_forward again id h .main _
  fails id here h g reason failed := by
    refine ⟨.report (.stageFailed here.path (EngineError.data here.path reason).text) :: g.history,
      fun again => ?_⟩
    rw [Stock.script_accept, failed]
    rfl

namespace Graph

def kept? (g : Graph Stock) (id : NodeId) : Option (List Handle) :=
  (((g.node? id).bind Node.state?).bind Stock.toSink?).map Sink.results

theorem kept?_update {g : Graph Stock} {id own : NodeId} {f : Node Stock → Node Stock}
    (apart : id ≠ own ∨ ∀ node, (f node).kind = node.kind) :
    (g.updateNode id f).kept? own = g.kept? own := by
  unfold kept?
  rw [node?_updateNode]
  split
  next here =>
    have same := apart.resolve_left fun apart => apart here
    cases g.node? own with
    | none => rfl
    | some node => simp only [Option.map_some, Option.bind_some, Node.state?, same]
  next => rfl

theorem kept?_mark (g : Graph Stock) (id own : NodeId) (busy : Bool) :
    (g.mark id busy).kept? own = g.kept? own := kept?_update (.inr fun _ => rfl)

end Graph

namespace Bouncing

abbrev queue : NodeId := 1
abbrev body : NodeId := 2
abbrev test : NodeId := 3
abbrev fork : NodeId := 4
abbrev feeder : NodeId := 5
abbrev sink : NodeId := 6
abbrev pumpSink : NodeId := 7

structure Job where
  step : Body
  title : String
  name : String

def cards (j : Job) (last : Option NodeId) : Array Card := #[
  ⟨.whole (some queue) (some sink), j.title, "", none, none, true⟩,
  ⟨.queue, "tank_queue", "tank_queue", some body, none, true⟩,
  ⟨.body, j.name, j.name, some test, none, true⟩,
  ⟨.test, "branch_if", "branch_if", some fork, none, true⟩,
  ⟨.fork, "hidden_brancher_01", "hidden_brancher_01", some sink, some feeder, true⟩,
  ⟨.feeder (some queue), "tank_feed", "tank_feed", some queue, none, true⟩,
  ⟨.sink 30, "sink", "sink", last, none, true⟩,
  ⟨.sink 0, "pump_sink", "pump_sink", none, none, true⟩]

structure Load where
  tank : Tank
  kept : List Handle
  store : Store

structure Turning (j : Job) (last : Option NodeId) (active : List NodeId) (load : Load)
    (g : Graph Stock) : Prop where
  root : g.root = 0
  collector : g.pumpSink = pumpSink
  cards : g.nodes.map Node.card = cards j last
  does : ∀ (id : NodeId) (node : Node Stock) (s : Stock), g.node? id = some node →
    node.kind = .stage s → s.duty = .body → s.Does j.step
  idle : ∀ (id : NodeId) (node : Node Stock), g.node? id = some node → id ∉ active →
    node.busy = false
  tank : g.tank? queue = some load.tank
  kept : g.kept? pumpSink = some load.kept
  store : g.store = load.store

namespace Turning

variable {j : Job} {last : Option NodeId} {active : List NodeId} {load : Load} {g : Graph Stock}
  (w : Turning j last active load g)
include w

theorem node (id : NodeId) {card : Card} (listed : (Bouncing.cards j last)[id]? = some card) :
    ∃ node, g.node? id = some node ∧ node.card = card := by
  rw [← w.cards, Array.getElem?_map] at listed
  exact Option.map_eq_some_iff.mp listed

theorem during (history : List (Event Stock)) : Turning j last active load { g with history } :=
  { w with }

theorem stored (store : Store) : Turning j last active { load with store } { g with store } :=
  { w with store := rfl }

theorem update {id : NodeId} {fn : Node Stock → Node Stock} {active' : List NodeId} {tank : Tank}
    {kept : List Handle} (card : ∀ node, g.node? id = some node → (fn node).card = node.card)
    (does : ∀ node s, (fn node).kind = .stage s → s.duty = .body → node.kind = .stage s)
    (own : ∀ node, g.node? id = some node → id ∉ active' → (fn node).busy = false)
    (others : ∀ other, other ≠ id → other ∉ active' → other ∉ active)
    (tanks : (g.updateNode id fn).tank? queue = some tank)
    (sinks : (g.updateNode id fn).kept? pumpSink = some kept) :
    Turning j last active' ⟨tank, kept, load.store⟩ (g.updateNode id fn) where
  root := w.root
  collector := w.collector
  cards := (map_modify_same card).trans w.cards
  does := by
    intro other node s found stage duty
    obtain ⟨before, was, ⟨rfl, rfl⟩ | ⟨-, rfl⟩⟩ := Graph.updateNode_cases found
    · exact w.does _ before s was (does before s stage duty) duty
    · exact w.does _ _ s was stage duty
  idle := by
    intro other node found outside
    obtain ⟨before, was, ⟨rfl, rfl⟩ | ⟨apart, rfl⟩⟩ := Graph.updateNode_cases found
    · exact own before was outside
    · exact w.idle _ _ was (others other apart.symm outside)
  tank := tanks
  kept := sinks
  store := w.store

theorem mark (id : NodeId) : Turning j last (id :: active) load (g.mark id true) := by
  refine w.update (fun _ _ => rfl) (fun _ _ stage _ => stage) (fun _ _ outside => ?_)
    (fun other _ outside => ?_) ((Graph.tank?_mark true queue).trans w.tank)
    ((Graph.kept?_mark g id pumpSink true).trans w.kept)
  · simp at outside
  · simp at outside
    exact outside.2

omit w in
theorem unmark {id : NodeId} (w : Turning j last (id :: active) load g) :
    Turning j last active load (g.mark id false) := by
  refine w.update (fun _ _ => rfl) (fun _ _ stage _ => stage) (fun _ _ _ => rfl)
    (fun other apart outside => ?_) ((Graph.tank?_mark false queue).trans w.tank)
    ((Graph.kept?_mark g id pumpSink false).trans w.kept)
  simp [apart, outside]

theorem refill (next : Tank → Tank) :
    Turning j last active { load with tank := next load.tank }
      (g.updateNode queue fun node => { node with tank := next node.tank }) := by
  refine w.update (fun _ _ => rfl) (fun _ _ stage _ => stage) (fun node found outside => ?_)
    (fun _ _ outside => outside) ?_ ?_
  · exact w.idle _ node found outside
  · obtain ⟨node, found, tank⟩ := Option.map_eq_some_iff.mp w.tank
    rw [Graph.tank?_update, if_pos rfl, found, Option.map_some, tank]
  · rw [Graph.kept?_update (.inl (by decide)), w.kept]

theorem sinks {node : Node Stock} {s : Sink} (found : g.node? pumpSink = some node)
    (stage : node.kind = .stage (.sink s)) : s.results = load.kept := by
  have kept := w.kept
  simpa [Graph.kept?, found, Node.state?, stage, Stock.toSink?] using kept

theorem hold {id : NodeId} {node : Node Stock} {s : Sink} (found : g.node? id = some node)
    (stage : node.kind = .stage (.sink s)) (s' : Sink) (limit : s'.maxResults = s.maxResults) :
    Turning j last active { load with kept := if id = pumpSink then s'.results else load.kept }
      (g.updateNode id fun node => { node with kind := .stage (.sink s') }) := by
  refine w.update (fun other there => ?_) (fun _ _ stage duty => ?_) (fun node found outside => ?_)
    (fun _ _ outside => outside) ?_ ?_
  · obtain rfl : node = other := Option.some.inj (found.symm.trans there)
    simp [Node.card, stage, NodeKind.duty, Stock.duty, limit]
  · cases stage
    cases duty
  · exact w.idle _ node found outside
  · rw [Graph.tank?_same, w.tank]
    exact fun _ => rfl
  · by_cases here : id = pumpSink
    · subst here
      simp [Graph.kept?, Graph.node?_updateNode, found, Node.state?, Stock.toSink?]
    · rw [if_neg here, Graph.kept?_update (.inl here), w.kept]

end Turning

open Run (Returns)

structure Breakdown where
  error : EngineError
  tank : Tank
  kept : List Handle

def Comes (j : Job) (last : Option NodeId) (active : List NodeId)
    (outcome : Except Breakdown Load) (result : Except EngineError Unit) (after : Graph Stock) :
    Prop :=
  match outcome, result with
  | .ok load, .ok _ => Turning j last active load after
  | .error failure, .error e =>
    e = failure.error ∧ ∃ store, Turning j last active ⟨failure.tank, failure.kept, store⟩ after
  | _, _ => False

section

variable {j : Job} {last : Option NodeId} {active : List NodeId} {load : Load} {g : Graph Stock}
  {id : NodeId} {node : Node Stock} {s : Stock}

theorem Comes.turning {outcome : Except Breakdown Load} {result : Except EngineError Unit}
    (comes : Comes j last active outcome result g) : ∃ load, Turning j last active load g := by
  unfold Comes at comes
  split at comes
  · exact ⟨_, comes⟩
  · exact ⟨_, comes.2.choose_spec⟩
  · exact comes.elim

theorem Comes.unmark {outcome : Except Breakdown Load} {result : Except EngineError Unit}
    (comes : Comes j last (id :: active) outcome result g) :
    Comes j last active outcome result (g.mark id false) := by
  cases outcome with
  | ok load =>
    cases result with
    | ok _ => exact Turning.unmark comes
    | error _ => exact comes.elim
  | error e =>
    cases result with
    | ok _ => exact comes.elim
    | error _ =>
      obtain ⟨same, store, turning⟩ := comes
      exact ⟨same, store, turning.unmark⟩

theorem steady_of_card (steady : node.card.steady = true) :
    node.phase ≠ .closed ∧ node.dynamic = [] ∧ node.closeDeferred = false := by
  simpa [Node.card, and_assoc] using steady

theorem accept_returns (found : g.node? id = some node) (stage : node.kind = .stage s)
    (static : node.dynamic = []) (h : Handle) {post : Except EngineError Unit → Graph Stock → Prop}
    (accepts : ∀ history, Returns (fun depth => Traffic.interpret (Traffic.perform depth) id
      (s.accept (node.here id) h)) { g with history } post) :
    Returns (fun depth => Traffic.accept (Traffic.perform depth) id h) g post := by
  let began := (g.remember (.began id node (.refresh g.environment))).remember
    (.began id node (.accept h (g.store.read h)))
  have there : began.node? id = some node := found
  have after (depth : Nat) (g : Graph Stock) : (Traffic.runStage (Traffic.perform depth) id
      fun here _ s => Stage.afterAccept here s).start g = some (.ok (), g) := by
    cases found : g.node? id with
    | none => exact Run.atNode_start_none found _
    | some node =>
      refine (Run.atNode_start found _).trans ?_
      split <;> rfl
  refine .congr (fun depth => Traffic.accept_begins _ found stage static h) (.bind ?_)
  refine .congr (fun depth => Traffic.runStage_start there stage _) ?_
  refine (accepts began.history).mono fun result last holds => ?_
  cases result with
  | error e => exact holds
  | ok _ => exact ⟨0, .ok (), last, fun depth _ => after depth last, holds⟩

namespace Turning

variable (w : Turning j last active load g)
include w

theorem deliver (found : g.node? id = some node) (stage : node.kind = .stage s)
    (steady : node.card.steady = true) (free : id ∉ active) (h : Handle)
    {outcome : Except Breakdown Load}
    (accepts : ∀ mid, Turning j last (id :: active) load mid →
      mid.node? id = some { node with busy := true } →
      Returns (fun depth => Traffic.interpret (Traffic.perform depth) id
        (s.accept (node.here id) h)) mid (Comes j last (id :: active) outcome)) :
    Returns (fun depth => Traffic.perform depth (.deliver id (.parcel h))) g
      (Comes j last active outcome) := by
  obtain ⟨ongoing, static, kept⟩ := steady_of_card steady
  have opened : g.Open id := ⟨node, s, found, stage, w.idle id node found free, ongoing⟩
  refine Traffic.perform_returns (.congr (fun depth => Traffic.deliver_open opened _ h) ?_)
  refine .bind (.attempt (.holding ?_))
  have marked := Graph.node?_mark found true
  refine accept_returns marked stage static h fun history => ?_
  refine (accepts _ ((w.mark id).during history) marked).mono fun result after comes => ?_
  obtain ⟨ended, turning⟩ := comes.turning
  -- The card is the same afterwards, so that no close has been put off meanwhile.
  have listed : (Bouncing.cards j last)[id]? = some node.card := by
    rw [← w.cards, Array.getElem?_map]
    exact congrArg (Option.map Node.card) found
  obtain ⟨later, there, card⟩ := turning.unmark.node id listed
  have settled (depth : Nat) : (Traffic.settle (Traffic.perform depth) id result).start
      (after.mark id false) = some (result, after.mark id false) := by
    refine Traffic.settle_start ?_
    rw [there, Option.any_some, (steady_of_card (card ▸ steady)).2.2]
  exact ⟨0, result, _, fun depth _ => settled depth, comes.unmark⟩

theorem keep (found : g.node? id = some node) {s : Sink} (stage : node.kind = .stage (.sink s))
    (here : Here) (h : Handle) :
    ∃ after, Turning j last active
        { load with kept := if id = pumpSink then (s.keep h).results else load.kept } after ∧
      ∀ again : Call → Run Stock Unit,
        (Traffic.interpret again id ((Stock.sink s).accept here h)).start g =
          (Traffic.forward again id h .main).start after :=
  ⟨_, w.hold found stage (s.keep h) rfl, fun again => Traffic.interpret_forward again id h .main _⟩

end Turning

end

namespace Turning

variable {j : Job} {last : Option NodeId} {active : List NodeId} {tank : Tank} {kept : List Handle}
  {base : Store} {p : Parcel} {h : Handle} {g : Graph Stock}
  (w : Turning j last active ⟨tank, kept, base.write h p⟩ g)
include w

theorem read (inside : h < base.cells.size) : g.store.read h = p := by
  rw [w.store, Store.read_write_self _ _ inside]

theorem overwrite (q : Parcel) : g.store.write h q = base.write h q := by
  rw [w.store, Store.write_write]

theorem stepped (inside : h < base.cells.size) : Turning j last active
    ⟨tank, kept, base.write h ((j.step.turn p.content).parcel p.fork p.origin)⟩
    (g.stepped j.step h) := by
  rw [Graph.stepped, w.read inside, w.overwrite]
  exact w.stored _

theorem forward (inside : h < base.cells.size) (id : NodeId) {card next : Card}
    (listed : (Bouncing.cards j last)[id]? = some card) {target : NodeId} (main : card.main = some target)
    (leads : (Bouncing.cards j last)[target]? = some next) (edge : Edge)
    (forks : edge = .branch → next.duty = .fork) :
    ∃ mid, Turning j last active
        ⟨tank, kept, base.write h { p with fork := edge, origin := some card.name }⟩ mid ∧
      ∀ again : Call → Run Stock Unit, (Traffic.forward again id h edge).start g =
        (again (.deliver target (.parcel h))).start mid := by
  obtain ⟨node, found, rfl⟩ := w.node id listed
  obtain ⟨after, there, rfl⟩ := w.node target leads
  -- Along the branch a parcel is only sent to a fan-out.
  have forks : edge = .branch → after.isFanOut = true := by
    intro branch
    have kind : after.kind = .fanOut := by
      have fits := after.kind.duty_fits
      rwa [show after.kind.duty = .fork from forks branch] at fits
    rw [Node.isFanOut, kind]
  have follows : (node.main.bind fun target => (g.node? target).map fun next => (target, next)) =
      some (target, after) := by
    rw [show node.main = some target from main, Option.bind_some, there]
    rfl
  have unforked : ¬(edge = .branch ∧ (!after.isFanOut) = true) := by simpa using forks
  have written : g.store.write h { g.store.read h with fork := edge, origin := some node.name } =
      base.write h { p with fork := edge, origin := some node.name } := by
    rw [w.read inside, w.overwrite]
  refine ⟨_, (w.stored _).during (.report (.parcelForwarded node.path after.path edge) :: g.history),
    fun again => ?_⟩
  unfold Traffic.forward
  rw [Run.atNode_start found]
  dsimp only
  change (if edge = .branch ∧ !(Option.any (fun entry : NodeId × Node Stock => entry.2.isFanOut)
      (node.main.bind fun target => (g.node? target).map fun next => (target, next))) then _ else _ :
    Run Stock Unit).start g = _
  rw [follows, Option.any_some, if_neg unforked]
  change (again (.deliver target (.parcel h))).start (Graph.remember { g with store := _ } _) = _
  rw [written]
  rfl

end Turning

section

variable {j : Job} {active : List NodeId} {tank : Tank} {kept : List Handle} {base : Store}
  {p : Parcel} {h : Handle} {g : Graph Stock} (inside : h < base.cells.size)
include inside

omit inside in
theorem pumpSink_comes (w : Turning j (some pumpSink) active ⟨tank, kept, base.write h p⟩ g)
    (free : pumpSink ∉ active) :
    Returns (fun depth => Traffic.perform depth (.deliver pumpSink (.parcel h))) g
      (Comes j (some pumpSink) active (.ok ⟨tank, kept ++ [h], base.write h p⟩)) := by
  obtain ⟨node, found, card⟩ := w.node pumpSink rfl
  obtain ⟨s, stage, unlimited⟩ := Node.card_fits card
  refine w.deliver found stage (congrArg Card.steady card) free h fun mid w there => ?_
  obtain ⟨after, later, kept⟩ := w.keep there stage (node.here pumpSink) h
  have results : (s.keep h).results = _ ++ [h] := Sink.keep_unlimited unlimited h
  rw [if_pos rfl, results, w.sinks there stage] at later
  -- There is nothing after the pump sink.
  obtain ⟨last, found, card⟩ := later.node pumpSink rfl
  have ended (depth : Nat) :=
    (kept (Traffic.perform depth)).trans (Traffic.forward_none found (congrArg Card.main card) h)
  exact ⟨0, _, _, fun depth _ => ended depth, later⟩

theorem sink_comes (w : Turning j (some pumpSink) active ⟨tank, kept, base.write h p⟩ g)
    (free : sink ∉ active) (free' : pumpSink ∉ active) :
    Returns (fun depth => Traffic.perform depth (.deliver sink (.parcel h))) g
      (Comes j (some pumpSink) active
        (.ok ⟨tank, kept ++ [h], base.write h { p with fork := .main, origin := some "sink" }⟩)) := by
  obtain ⟨node, found, card⟩ := w.node sink rfl
  obtain ⟨s, stage, -⟩ := Node.card_fits card
  refine w.deliver found stage (congrArg Card.steady card) free h fun mid w there => ?_
  obtain ⟨after, later, kept⟩ := w.keep there stage (node.here sink) h
  rw [if_neg (by decide)] at later
  obtain ⟨last, w, forwards⟩ := later.forward inside sink rfl rfl rfl .main nofun
  refine .congr (fun _ => (kept _).trans (forwards _)) (pumpSink_comes w ?_)
  simpa using free'

theorem feeder_comes (w : Turning j (some pumpSink) active ⟨tank, kept, base.write h p⟩ g)
    (free : feeder ∉ active) :
    Returns (fun depth => Traffic.perform depth (.deliver feeder (.parcel h))) g
      (Comes j (some pumpSink) active (.ok ⟨tank.push h p, kept, base.write h p⟩)) := by
  obtain ⟨node, found, card⟩ := w.node feeder rfl
  have stage : node.kind = .stage (.tankFeed ⟨some queue⟩) := Node.card_fits card
  refine w.deliver found stage (congrArg Card.steady card) free h fun mid w there => ?_
  -- What the queue holds changes while it is active itself.
  have fed := w.refill fun tank => tank.push h (mid.store.read h)
  have ended (depth : Nat) : (Traffic.interpret (Traffic.perform depth) feeder
      ((Stock.tankFeed ⟨some queue⟩).accept (node.here feeder) h)).start mid =
        some (.ok (), mid.updateNode queue fun node =>
          { node with tank := node.tank.push h (mid.store.read h) }) := rfl
  rw [w.read inside] at fed ended
  exact ⟨0, _, _, fun depth _ => ended depth, fed⟩

def forking (again : Call → Run Stock Unit) (node : Node Stock) (h : Handle) (edge : Edge) :
    Run Stock Unit :=
  match edge, node.branch with
  | .branch, none => throw (.routing (.missingBranch node.path))
  | .branch, some branch => again (.deliver branch (.parcel h))
  | .main, _ => Traffic.onward again node.main (.deliver · (.parcel h))

theorem fork_opened (w : Turning j (some pumpSink) active ⟨tank, kept, base.write h p⟩ g) :
    ∃ mid, Turning j (some pumpSink) active ⟨tank, kept, base.write h { p with fork := .main }⟩ mid ∧
      ∀ depth, (Traffic.step (Traffic.perform depth) (.deliver fork (.parcel h))).start g =
        (Traffic.perform depth (.deliver
          (match p.fork with
            | .branch => feeder
            | .main => sink) (.parcel h))).start mid := by
  obtain ⟨node, found, card⟩ := w.node fork rfl
  have kind : node.kind = .fanOut := Node.card_fits card
  have main : node.main = some sink := congrArg Card.main card
  have branch : node.branch = some feeder := congrArg Card.branch card
  refine ⟨Graph.remember { g with store := base.write h { p with fork := .main } }
    (.report (.fanOutRouted node.path p.fork)), (w.stored _).during _, fun depth => ?_⟩
  change (Traffic.deliver (Traffic.perform depth) fork (.parcel h)).start g = _
  unfold Traffic.deliver
  rw [Run.atNode_start found, kind]
  change (forking (Traffic.perform depth) node h (g.store.read h).fork).start (Graph.remember
    { g with store := g.store.write h { g.store.read h with fork := .main } }
    (.report (.fanOutRouted node.path (g.store.read h).fork))) = _
  rw [w.read inside, w.overwrite]
  unfold forking
  rw [main, branch]
  cases p.fork <;> rfl

theorem fork_main (w : Turning j (some pumpSink) [test, body, queue] ⟨tank, kept, base.write h p⟩ g)
    (goes : p.fork = .main) :
    Returns (fun depth => Traffic.perform depth (.deliver fork (.parcel h))) g
      (Comes j (some pumpSink) [test, body, queue]
        (.ok ⟨tank, kept ++ [h], base.write h { p with fork := .main, origin := some "sink" }⟩)) := by
  obtain ⟨mid, w, routed⟩ := fork_opened inside w
  rw [goes] at routed
  exact Traffic.perform_returns (.congr routed
    (sink_comes (p := { p with fork := .main }) inside w (by decide) (by decide)))

theorem fork_branch (w : Turning j (some pumpSink) [test, body, queue] ⟨tank, kept, base.write h p⟩ g)
    (goes : p.fork = .branch) :
    Returns (fun depth => Traffic.perform depth (.deliver fork (.parcel h))) g
      (Comes j (some pumpSink) [test, body, queue]
        (.ok ⟨tank.push h { p with fork := .main }, kept, base.write h { p with fork := .main }⟩)) := by
  obtain ⟨mid, w, routed⟩ := fork_opened inside w
  rw [goes] at routed
  exact Traffic.perform_returns (.congr routed (feeder_comes inside w (by decide)))

theorem test_opened (w : Turning j (some pumpSink) [body, queue] ⟨tank, kept, base.write h p⟩ g)
    {v : Value} (has : p.content.recurse? = some v)
    {outcome : Except Breakdown Load}
    (rest : ∀ mid, Turning j (some pumpSink) [test, body, queue] ⟨tank, kept, base.write h
        { p with
          fork := if Comparison.areEqual v (.bool true) then .branch else .main
          origin := some "branch_if" }⟩ mid →
      Returns (fun depth => Traffic.perform depth (.deliver fork (.parcel h))) mid
        (Comes j (some pumpSink) [test, body, queue] outcome)) :
    Returns (fun depth => Traffic.perform depth (.deliver test (.parcel h))) g
      (Comes j (some pumpSink) [body, queue] outcome) := by
  obtain ⟨node, found, card⟩ := w.node test rfl
  obtain ⟨b, stage, asks⟩ := Node.card_fits card
  refine w.deliver found stage (congrArg Card.steady card) (by decide) h fun mid w there => ?_
  have decided (depth : Nat) : (Traffic.interpret (Traffic.perform depth) test
      ((Stock.branchIf b).accept (node.here test) h)).start mid =
        (Traffic.forward (Traffic.perform depth) test h
          (if Comparison.areEqual v (.bool true) then .branch else .main)).start mid := by
    refine .trans ?_ (Traffic.interpret_forward _ _ _ _ _)
    change (Traffic.interpret (Traffic.perform depth) test (Program.mapState Stock.branchIf
      (BranchIf.act node.path h (b.decideEdge (mid.store.read h))))).start mid = _
    rw [w.read inside, BranchIf.decideEdge_recurse asks has]
    rfl
  obtain ⟨last, w, forwards⟩ := w.forward inside test rfl rfl rfl _ fun _ => rfl
  exact .congr (fun depth => (decided depth).trans (forwards _)) (rest last w)

theorem test_again (w : Turning j (some pumpSink) [body, queue] ⟨tank, kept, base.write h p⟩ g)
    (has : p.content.recurse? = some (.bool true)) :
    Returns (fun depth => Traffic.perform depth (.deliver test (.parcel h))) g
      (Comes j (some pumpSink) [body, queue]
        (.ok ⟨tank.push h { p with fork := .main, origin := some "branch_if" }, kept,
          base.write h { p with fork := .main, origin := some "branch_if" }⟩)) := by
  refine test_opened inside w has fun mid w => ?_
  rw [Comparison.areEqual_true.mpr rfl] at w
  exact fork_branch inside w rfl

theorem test_stops (w : Turning j (some pumpSink) [body, queue] ⟨tank, kept, base.write h p⟩ g)
    {v : Value} (has : p.content.recurse? = some v) (left : v ≠ .bool true) :
    Returns (fun depth => Traffic.perform depth (.deliver test (.parcel h))) g
      (Comes j (some pumpSink) [body, queue]
        (.ok ⟨tank, kept ++ [h], base.write h { p with fork := .main, origin := some "sink" }⟩)) := by
  refine test_opened inside w has fun mid w => ?_
  rw [if_neg (mt Comparison.areEqual_true.mp left)] at w
  exact fork_main (p := { p with fork := .main, origin := some "branch_if" }) inside w rfl

omit inside in
theorem body_opened (w : Turning j (some pumpSink) [queue] ⟨tank, kept, base.write h p⟩ g)
    {outcome : Except Breakdown Load}
    (rest : ∀ (mid : Graph Stock) (s : Stock) (here : Here),
      Turning j (some pumpSink) [body, queue] ⟨tank, kept, base.write h p⟩ mid → s.Does j.step →
      here.path = j.name →
      Returns (fun depth => Traffic.interpret (Traffic.perform depth) body (s.accept here h)) mid
        (Comes j (some pumpSink) [body, queue] outcome)) :
    Returns (fun depth => Traffic.perform depth (.deliver body (.parcel h))) g
      (Comes j (some pumpSink) [queue] outcome) := by
  obtain ⟨node, found, card⟩ := w.node body rfl
  obtain ⟨s, stage, duty⟩ := Node.card_fits card
  refine w.deliver found stage (congrArg Card.steady card) (by decide) h fun mid mid' _ => ?_
  exact rest mid s _ mid' (w.does body node s found stage duty) (congrArg Card.path card)

theorem body_fails (w : Turning j (some pumpSink) [queue] ⟨tank, kept, base.write h p⟩ g)
    {reason : String} (failed : (j.step p.content).2 = some reason) :
    Returns (fun depth => Traffic.perform depth (.deliver body (.parcel h))) g
      (Comes j (some pumpSink) [queue] (.error ⟨.data j.name reason, tank, kept⟩)) := by
  refine body_opened w fun mid s here w does path => ?_
  rw [← w.read inside] at failed
  obtain ⟨history, fails⟩ := does.fails body here h mid reason failed
  rw [path] at fails
  exact ⟨0, _, _, fun depth _ => fails _, rfl, _, (w.stepped inside).during history⟩

theorem body_works (w : Turning j (some pumpSink) [queue] ⟨tank, kept, base.write h p⟩ g)
    (works : (j.step p.content).2 = none) {outcome : Except Breakdown Load}
    (rest : ∀ mid, Turning j (some pumpSink) [body, queue]
        ⟨tank, kept, base.write h ((j.step.turn p.content).parcel .main (some j.name))⟩ mid →
      Returns (fun depth => Traffic.perform depth (.deliver test (.parcel h))) mid
        (Comes j (some pumpSink) [body, queue] outcome)) :
    Returns (fun depth => Traffic.perform depth (.deliver body (.parcel h))) g
      (Comes j (some pumpSink) [queue] outcome) := by
  refine body_opened w fun mid s here w does path => ?_
  rw [← w.read inside] at works
  obtain ⟨last, w, forwards⟩ := (w.stepped inside).forward inside body rfl rfl rfl .main nofun
  exact .congr (fun _ => (does.works body here h mid works _).trans (forwards _)) (rest last w)

theorem body_again (w : Turning j (some pumpSink) [queue] ⟨tank, kept, base.write h p⟩ g)
    (works : (j.step p.content).2 = none)
    (has : (j.step.turn p.content).recurse? = some (.bool true)) :
    Returns (fun depth => Traffic.perform depth (.deliver body (.parcel h))) g
      (Comes j (some pumpSink) [queue]
        (.ok ⟨tank.push h ((j.step.turn p.content).parcel .main (some "branch_if")), kept,
          base.write h ((j.step.turn p.content).parcel .main (some "branch_if"))⟩)) :=
  body_works inside w works fun _ w => test_again inside w has

theorem body_stops (w : Turning j (some pumpSink) [queue] ⟨tank, kept, base.write h p⟩ g)
    (works : (j.step p.content).2 = none) {v : Value}
    (has : (j.step.turn p.content).recurse? = some v) (left : v ≠ .bool true) :
    Returns (fun depth => Traffic.perform depth (.deliver body (.parcel h))) g
      (Comes j (some pumpSink) [queue] (.ok ⟨tank, kept ++ [h],
        base.write h ((j.step.turn p.content).parcel .main (some "sink"))⟩)) :=
  body_works inside w works fun _ w => test_stops inside w has left

end

end Bouncing

end Sluice
