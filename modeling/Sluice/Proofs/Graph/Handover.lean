import Sluice.Proofs.Graph.Flush
import Sluice.Proofs.Graph.Supervision
import Sluice.Proofs.Stage.Laws

set_option autoImplicit false

namespace Sluice

theorem Tank.releaseBy_size {n : Nat} {t rest : Tank} {h : Handle}
    (released : releaseBy n t = (some h, rest)) : rest.size < t.size := by
  induction n generalizing t with
  | zero => cases released
  | succ n ih =>
    unfold releaseBy at released
    split at released
    next => cases released
    next mid popped =>
      have := popExcess_size popped
      have := ih released
      omega
    next first mid popped =>
      have size := popExcess_size popped
      cases released
      change mid.size < t.size
      omega

theorem Regime.Serves.of_below {σ : Type} [Stage σ] {m : Regime σ} {again more : Call → Run σ Unit}
    (serves : m.Serves more) (below : ∀ call, Run.Below (again call) (more call)) :
    m.Serves again where
  deliver packet inv within := (below _).ends (serves.deliver packet inv within)
  drain inv acts held asks := (below _).ends (serves.drain inv acts held asks)
  shutdown inv acts held asks :=
    (Traffic.shutdown_below below).ends (serves.shutdown inv acts held asks)
  settle inv within opened inv' during admits :=
    (Traffic.settle_below below _ _).ends (serves.settle inv within opened inv' during admits)

namespace Graph

structure Plain (g : Graph Stock) : Prop where
  stages : ∀ id node s, g.node? id = some node → node.kind = .stage s → s.isPlain = true
  kept : ∀ id node, g.node? id = some node → node.closeDeferred = false

def Busy {σ : Type} (g : Graph σ) (id : NodeId) : Prop :=
  ∃ node, g.node? id = some node ∧ node.busy = true

theorem Busy.advances {σ : Type} {g after : Graph σ} {id : NodeId} (busy : g.Busy id)
    (advances : g.Advances after) : after.Busy id := by
  obtain ⟨before, found, busy⟩ := busy
  obtain ⟨node, there, moved⟩ := advances.node found
  exact ⟨node, there, moved.busy.trans busy⟩

theorem Open.not_busy {σ : Type} {g : Graph σ} {id : NodeId} (opened : g.Open id) :
    ¬g.Busy id := by
  obtain ⟨node, _, found, -, idle, -⟩ := opened
  rintro ⟨other, there, busy⟩
  obtain rfl : node = other := Option.some.inj (found.symm.trans there)
  rw [idle] at busy
  cases busy

theorem Busy.mark {σ : Type} {g : Graph σ} {id : NodeId} (busy : g.Busy id) (other : NodeId) :
    (g.mark other true).Busy id := by
  obtain ⟨node, found, busy⟩ := busy
  by_cases here : other = id
  · subst here
    exact ⟨_, node?_mark found true, rfl⟩
  · exact ⟨node, by rw [Graph.mark, node?_updateNode, if_neg here]; exact found, busy⟩

theorem Plain.update {g : Graph Stock} (plain : g.Plain) {id : NodeId} {f : Node Stock → Node Stock}
    (stays : ∀ node, g.node? id = some node → (f node).closeDeferred = node.closeDeferred ∧
      ∀ s, (f node).kind = .stage s → s.isPlain = true) : (g.updateNode id f).Plain := by
  refine ⟨fun other node s found stage => ?_, fun other node found => ?_⟩
  · obtain ⟨before, was, ⟨rfl, rfl⟩ | ⟨-, rfl⟩⟩ := updateNode_cases found
    · exact (stays before was).2 s stage
    · exact plain.stages other node s was stage
  · obtain ⟨before, was, ⟨rfl, rfl⟩ | ⟨-, rfl⟩⟩ := updateNode_cases found
    · exact (stays before was).1.trans (plain.kept _ before was)
    · exact plain.kept other node was

end Graph

namespace Handover

variable {locked : NodeId → Prop} {g mid after : Graph Stock} {id : NodeId}

structure Calls (locked : NodeId → Prop) (g : Graph Stock) : Prop where
  plain : g.Plain
  busy : ∀ id, locked id → g.Busy id

structure Spares (locked : NodeId → Prop) (g after : Graph Stock) : Prop where
  advances : g.Advances after
  tanks : ∀ id, locked id → after.tank? id = g.tank? id

def regime (locked : NodeId → Prop) : Regime Stock where
  inv := Calls locked
  rel := Spares locked
  during := fun id g after => Spares locked g (after.defer id false)
  error := fun _ => True
  scope := fun _ => True
  acts := fun id => ¬locked id
  ready := fun id g => g.Held id
  asks := Stock.Modest
  keeps := fun _ s => s.isPlain = true

theorem Calls.unlocked (calls : Calls locked g) (opened : g.Open id) : ¬locked id :=
  fun mine => opened.not_busy (calls.busy id mine)

theorem allows_same {after : Graph Stock} (calls : Calls locked g) (nodes : after.nodes = g.nodes)
    (advances : g.Advances after) : (regime locked).Allows g after := by
  have same (id : NodeId) : after.node? id = g.node? id := by rw [Graph.node?, nodes]; rfl
  refine ⟨⟨⟨fun id node s found => ?_, fun id node found => ?_⟩,
    fun id mine => (calls.busy id mine).advances advances⟩, advances, fun id _ => ?_⟩
  · exact calls.plain.stages id node s (same id ▸ found)
  · exact calls.plain.kept id node (same id ▸ found)
  · rw [Graph.tank?, Graph.tank?, same]

theorem allows_update {f : Node Stock → Node Stock} (calls : Calls locked g)
    (advances : g.Advances (g.updateNode id f))
    (stays : ∀ node, g.node? id = some node → (f node).closeDeferred = node.closeDeferred ∧
      ∀ s, (f node).kind = .stage s → s.isPlain = true)
    (spares : ¬locked id ∨ ∀ node, (f node).tank = node.tank) :
    (regime locked).Allows g (g.updateNode id f) := by
  refine ⟨⟨calls.plain.update stays, fun other mine => (calls.busy other mine).advances advances⟩,
    advances, fun other mine => ?_⟩
  rcases spares with free | same
  · have apart : id ≠ other := by
      rintro rfl
      exact free mine
    rw [Graph.tank?_update, if_neg apart]
  · exact Graph.tank?_same same other

theorem regime_lawful (locked : NodeId → Prop) : (regime locked).Lawful := by
  -- A write that leaves the kind of a node alone leaves it plain.
  have same {g : Graph Stock} {id : NodeId} {f : Node Stock → Node Stock} (calls : Calls locked g)
      (deferred : ∀ node, (f node).closeDeferred = node.closeDeferred)
      (kind : ∀ node, (f node).kind = node.kind) (node : Node Stock) (found : g.node? id = some node) :
      (f node).closeDeferred = node.closeDeferred ∧
        ∀ s, (f node).kind = .stage s → s.isPlain = true :=
    ⟨deferred node, fun s stage => calls.plain.stages id node s found (kind node ▸ stage)⟩
  constructor
  case refl => exact fun g => ⟨.refl g, fun _ _ => rfl⟩
  case trans =>
    exact fun first second => ⟨first.advances.trans second.advances,
      fun id mine => (second.tanks id mine).trans (first.tanks id mine)⟩
  case during_trans =>
    intro id g mid after during later
    refine ⟨during.advances.trans later.advances.deferBoth, fun other mine => ?_⟩
    simpa [later.tanks other mine] using during.tanks other mine
  case advances => exact Spares.advances
  case error => exact fun _ _ => trivial
  case closed =>
    exact fun _ calls _ _ _ _ => ⟨allows_same calls rfl (.remember _ _), trivial⟩
  case logged => exact fun calls _ => allows_same calls rfl (.remember _ _)
  case store => exact fun store calls => allows_same calls rfl (.store _ store)
  case enter =>
    intro g id calls _ opened
    refine ⟨calls.unlocked opened, ⟨calls.plain.update ?_, fun other mine => ?_⟩, opened.held⟩
    · exact same calls (fun _ => rfl) fun _ => rfl
    · exact (calls.busy other mine).mark id
  case leave =>
    intro g id after calls _ opened ⟨later, spares⟩
    have free := calls.unlocked opened
    refine ⟨⟨later.plain.update ?_, fun other mine => ?_⟩, opened.released spares.advances,
      fun other mine => ?_⟩
    · exact same later (fun _ => rfl) fun _ => rfl
    · obtain ⟨node, found, busy⟩ := later.busy other mine
      have apart : id ≠ other := by
        rintro rfl
        exact free mine
      exact ⟨node, by rw [Graph.mark, Graph.node?_updateNode, if_neg apart]; exact found, busy⟩
    · simpa using spares.tanks other mine
  case ready_held => exact fun held => held
  case ready_rel => exact fun held spares => held.advances spares.advances
  case called => exact fun calls _ _ _ => allows_same calls rfl (.remember _ _)
  case state =>
    intro g id s calls _ held plain
    refine allows_update calls (.state held s) (fun node _ => ⟨rfl, ?_⟩) (.inr fun _ => rfl)
    rintro _ ⟨⟩
    exact plain
  case params =>
    exact fun f calls _ _ => allows_update calls (.params _ _ _)
      (same calls (fun _ => rfl) fun _ => rfl) (.inr fun _ => rfl)
  case refill =>
    exact fun calls free _ _ => allows_update calls (.tank _ _ _)
      (same calls (fun _ => rfl) fun _ => rfl) (.inl free)
  case released =>
    exact fun calls free _ _ => allows_update calls (.tank _ _ _)
      (same calls (fun _ => rfl) fun _ => rfl) (.inl free)
  case fed =>
    rintro g id target h p calls free rfl
    exact allows_update calls (.tank _ _ _) (same calls (fun _ => rfl) fun _ => rfl) (.inl free)
  case programs =>
    intro g id node s calls _ found stage
    have plain := calls.plain.stages id node s found stage
    exact (Stock.stays_plain (node.here id) s).mono (fun _ asks => asks plain)
      (fun _ keeps => keeps.trans plain) fun _ _ => trivial
  case next => exact fun _ _ _ _ => trivial
  case sends => exact fun _ _ _ _ _ _ => trivial

theorem perform_serves (locked : NodeId → Prop) (depth : Nat) :
    (regime locked).Serves (Traffic.perform depth) := by
  have lawful := regime_lawful locked
  have settle {again : Call → Run Stock Unit} {g mid : Graph Stock} {id : NodeId}
      {result : Except EngineError Unit} (calls : Calls locked mid)
      (spares : Spares locked g (mid.defer id false)) (admits : (regime locked).Admits result) :
      (Traffic.settle again id result).Ends mid fun result after =>
        (regime locked).Allows g after ∧ (regime locked).Admits result := by
    have kept : (mid.node? id).any Node.closeDeferred = false := by
      cases found : mid.node? id with
      | none => rfl
      | some node => exact calls.plain.kept id node found
    refine Traffic.settle_ends (fun _ => ⟨⟨calls, ?_⟩, admits⟩) fun deferred => ?_
    · refine ⟨spares.advances.trans (.undefer kept), fun id mine => ?_⟩
      simpa using spares.tanks id mine
    · rw [kept] at deferred
      cases deferred
  induction depth with
  | zero => exact ⟨fun _ _ _ => trivial, fun _ _ _ _ => trivial, fun _ _ _ asks => asks.elim,
      fun _ _ _ calls spares admits => settle calls spares admits⟩
  | succ depth ih =>
    exact ⟨fun packet calls scope => lawful.deliver ih calls scope packet,
      fun calls free held asks => lawful.drain ih calls free held asks,
      fun _ _ _ asks => asks.elim, fun _ _ _ calls spares admits => settle calls spares admits⟩

theorem supervise_serves (locked : NodeId → Prop) (depth : Nat) (active : List NodeId) :
    (regime locked).Serves (Traffic.supervise depth active) :=
  (perform_serves locked depth).of_below (Traffic.supervise_below depth active)

open Run (Returns)

variable {α β : Type} {active : List NodeId} {start : Graph Stock}

structure Active (start : Graph Stock) (id : NodeId) (g : Graph Stock) : Prop where
  advances : start.Advances g
  plain : g.Plain
  held : g.Held id

def Settles (active : List NodeId) (start : Graph Stock) : Prop :=
  ∀ mid, start.Advances mid → mid.Plain → ∀ target h,
    Returns (fun depth => Traffic.supervise depth active (.deliver target (.parcel h))) mid
      fun _ _ => True

def unlocked : NodeId → Prop := fun _ => False

theorem Active.calls (on : Active start id g) : Calls unlocked g :=
  ⟨on.plain, fun _ mine => mine.elim⟩

theorem Active.next (on : Active start id g) (allows : (regime locked).Allows g after) :
    Active start id after :=
  ⟨on.advances.trans allows.2.advances, allows.1.plain, on.held.advances allows.2.advances⟩

theorem Active.bind (on : Active start id g) {run : Nat → Run Stock α} {next : Nat → α → Run Stock β}
    (returns : Returns run g fun _ _ => True)
    (follows : ∀ depth, (regime unlocked).Follows (run depth) g)
    (rest : ∀ a after, Active start id after →
      Returns (fun depth => next depth a) after fun _ _ => True) :
    Returns (fun depth => run depth >>= next depth) g fun _ _ => True := by
  refine .bind ((returns.and_ends follows).mono fun result after ⟨_, allows, _⟩ => ?_)
  cases result with
  | ok a => exact rest a after (on.next allows)
  | error e => trivial

section

variable (settles : Settles active start)
include settles

theorem forward_returns (on : Active start id g) (h : Handle) (edge : Edge) :
    Returns (fun depth => Traffic.forward (Traffic.supervise depth active) id h edge) g
      fun _ _ => True := by
  refine .atNode (fun _ => trivial) fun node _ => .graph_bind ?_
  dsimp only
  split
  · exact .throw trivial
  · split
    · exact .pure trivial
    next target next _ =>
      refine .update_bind (.update_bind (settles _ ?_ ?_ target h))
      · exact on.advances.trans (.trans (.store _ _) (.remember _ _))
      · exact ⟨on.plain.stages, on.plain.kept⟩

theorem drain_returns (on : Active start id g) :
    Returns (fun depth => Traffic.supervise depth active (.drain id)) g fun _ _ => True := by
  obtain ⟨node, s, found, -⟩ := on.held
  -- On the size of the tank: each round takes a parcel out, and a busy queue takes none in.
  induction held : node.tank.size using Nat.strong_induction_on generalizing g node s with
  | _ size ih =>
    have tank : (Run.tankOf id).start g = some (.ok node.tank, g) := by
      change some (Except.ok (((g.node? id).map Node.tank).getD .empty), g) = _
      rw [found]
      rfl
    refine Traffic.supervise_returns rfl (.bind (.of_start tank ?_))
    dsimp only
    have left := on.next ((regime_lawful unlocked).released on.calls not_false on.held found)
    cases released : node.tank.release with
    | mk first rest =>
      rw [released] at left
      refine .update_bind ?_
      cases first with
      | none => exact .pure trivial
      | some h =>
        refine .graph_bind (.update_bind ?_)
        let mid : Graph Stock := (g.updateNode id fun other => { other with tank := rest }).remember
          (.report (.tankForwarded ((g.updateNode id fun other =>
            { other with tank := rest }).pathOf id) rest.released))
        have on : Active start id mid := ⟨left.advances.trans (.remember _ _),
          ⟨left.plain.stages, left.plain.kept⟩, left.held.advances (.remember _ _)⟩
        have busy : Calls (· = id) mid := by
          refine ⟨on.plain, ?_⟩
          rintro _ rfl
          obtain ⟨last, _, there, -, busy, -⟩ := on.held
          exact ⟨last, there, busy⟩
        refine .bind (((forward_returns settles on h .main).and_ends fun depth =>
          (regime_lawful (· = id)).forward (supervise_serves _ depth active) busy
            (fun _ _ _ _ => trivial) h .main).mono fun result after ⟨_, allows, _⟩ => ?_)
        cases result with
        | error e => trivial
        | ok _ =>
          have on := on.next allows
          obtain ⟨last, t, there, -⟩ := on.held
          -- The queue is locked for the round, so its tank is what the release left.
          have same : after.tank? id = some rest := by
            rw [allows.2.tanks id rfl]
            change (g.updateNode id fun other => { other with tank := rest }).tank? id = some rest
            rw [Graph.tank?_update, if_pos rfl, found]
            rfl
          have less : last.tank.size < size := by
            rw [Graph.tank?, there] at same
            obtain rfl : last.tank = rest := Option.some.inj same
            exact held ▸ Tank.releaseBy_size released
          exact ih _ less on last t there rfl

theorem answer_returns (on : Active start id g) {r : Request} (modest : Stock.Modest id r) :
    Returns (fun depth => Traffic.answer (Traffic.supervise depth active) id r) g
      fun _ _ => True := by
  cases r with
  | forward h edge => exact forward_returns settles on h edge
  | drain => exact drain_returns settles on
  | post m => exact modest.elim
  | shutdown => exact modest.elim
  | _ => exact .of_start rfl trivial

theorem interpret_returns (on : Active start id g) {program : Program Stock α}
    (obeys : program.Obeys (Stock.Modest id) (fun s => s.isPlain = true) fun _ => True) :
    Returns (fun depth => Traffic.interpret (Traffic.supervise depth active) id program) g
      fun _ _ => True := by
  have lawful := regime_lawful unlocked
  induction program generalizing g with
  | done a => exact .pure trivial
  | fail e => exact .throw trivial
  | keep s next ih =>
    exact .update_bind (ih (on.next (lawful.state on.calls not_false on.held obeys.1)) obeys.2)
  | ask r next ih =>
    exact on.bind (answer_returns settles on obeys.1)
      (fun depth => lawful.answer (supervise_serves _ depth active) on.calls not_false on.held r obeys.1)
      fun a after on => ih a on (obeys.2 a)

theorem runStage_returns (on : Active start id g) {program : Here → Node Stock → Stock → Program Stock Unit}
    (obeys : ∀ here node s, Stage.Obeys (Stock.Modest id) (fun s => s.isPlain = true)
      (fun _ => True) here s → (program here node s).Obeys (Stock.Modest id)
        (fun s => s.isPlain = true) fun _ => True) :
    Returns (fun depth => Traffic.runStage (Traffic.supervise depth active) id program) g
      fun _ _ => True := by
  refine .atNode (fun _ => trivial) fun node found => ?_
  split
  next s stage =>
    exact interpret_returns settles on (obeys _ node s
      ((regime_lawful unlocked).programs on.calls not_false found stage))
  next => exact .pure trivial

omit settles in
theorem refreshEach_returns (path : String) (pairs : List (String × String)) (changed : List String)
    (g : Graph Stock) :
    Returns (fun _ => Traffic.refreshEach id path pairs changed) g fun _ _ => True := by
  induction pairs generalizing g changed with
  | nil => exact .pure trivial
  | cons pair rest ih =>
    refine .graph_bind ?_
    dsimp only
    split
    · exact .throw trivial
    · refine .update_bind ?_
      split
      · exact .update_bind (ih _ _)
      · exact ih _ _

theorem refresh_returns (on : Active start id g) :
    Returns (fun depth => Traffic.refresh (Traffic.supervise depth active) id) g
      fun _ _ => True := by
  have lawful := regime_lawful unlocked
  refine .graph_bind (on.bind (.atNode (fun _ => trivial) fun _ _ => .update trivial)
    (fun _ => lawful.began on.calls on.held rfl) fun _ mid on => ?_)
  refine .atNode (fun _ => trivial) fun node _ => ?_
  refine on.bind (refreshEach_returns node.path node.dynamic [] mid)
    (fun _ => lawful.refreshEach on.calls not_false on.held _ _ _) fun changed after on => ?_
  split
  · exact .pure trivial
  · exact runStage_returns settles on fun _ node _ obeys => obeys.reconfigure node.params changed

theorem accept_returns (on : Active start id g) (h : Handle) :
    Returns (fun depth => Traffic.accept (Traffic.supervise depth active) id h) g
      fun _ _ => True := by
  have lawful := regime_lawful unlocked
  have serves (depth : Nat) := supervise_serves unlocked depth active
  refine on.bind (refresh_returns settles on)
    (fun depth => lawful.refresh (serves depth) on.calls not_false on.held) fun _ _ on => ?_
  refine on.bind (runStage_returns settles on fun _ _ _ obeys => obeys.beforeAccept h)
    (fun depth => lawful.runStage (serves depth) on.calls not_false on.held
      fun _ _ _ obeys => obeys.beforeAccept h) fun _ _ on => ?_
  refine .graph_bind (on.bind (.atNode (fun _ => trivial) fun _ _ => .update trivial)
    (fun _ => lawful.began on.calls on.held rfl) fun _ _ on => ?_)
  refine on.bind (runStage_returns settles on fun _ _ _ obeys => obeys.accept h)
    (fun depth => lawful.runStage (serves depth) on.calls not_false on.held
      fun _ _ _ obeys => obeys.accept h) fun _ _ on => ?_
  exact runStage_returns settles on fun _ _ _ obeys => obeys.afterAccept

end

end Handover

end Sluice
