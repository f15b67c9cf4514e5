import Sluice.Proofs.Assembly.Trials
import Sluice.Proofs.Assembly.Build
import Sluice.Proofs.Graph.FollowedSettings
import Sluice.Proofs.Graph.Pump
import Sluice.Stage.Catalogue

set_option autoImplicit false

namespace Sluice

namespace Blueprint

theorem configureNode_ok {node configured : Node Stock}
    (done : configureNode node = .ok configured) : node.Accepts ∧ configured = node.configured := by
  rcases configureNode_cases done with ⟨s, ended, stage, ran, rfl⟩ | ⟨other, same⟩
  · have fitted := Node.fitted?_stage stage
    refine ⟨fun other same => ?_, ?_⟩
    · obtain rfl := Option.some.inj (fitted.symm.trans same)
      exact congrArg Prod.fst ran
    · unfold Node.configured
      rw [fitted]
      dsimp only
      rw [ran]
  · obtain rfl := same
    have none : configured.fitted? = none := by
      unfold Node.fitted? Node.state?
      split
      next state stage => exact absurd stage (other state)
      next => rfl
    refine ⟨fun fitted same => ?_, ?_⟩
    · rw [none] at same
      cases same
    · unfold Node.configured
      rw [none]

end Blueprint

namespace Graph

theorem pumpSinkNode_current : (pumpSinkNode : Node Stock).Current := by
  refine ⟨?_, ?_⟩
  · rintro _ ⟨⟩
    rfl
  · rfl

theorem make_node? {nodes : Array (Node Stock)} {e : Environment} {history : List (Event Stock)}
    (configured : Blueprint.AllConfigured nodes) {id : NodeId} {node : Node Stock}
    (found : (make nodes 0 e history).node? id = some node) :
    node.Current ∧ node.closeDeferred = false := by
  rcases Array.mem_push.mp (Array.mem_of_getElem? found) with member | rfl
  · obtain ⟨before, fresh, done⟩ := configured node member
    obtain ⟨accepts, rfl⟩ := Blueprint.configureNode_ok done
    exact ⟨(Node.configured_current_iff before).mpr accepts,
      (Node.configured_closeDeferred before).trans fresh.1.2.2⟩
  · exact ⟨pumpSinkNode_current, rfl⟩

end Graph

theorem Uncalled.settled {history : List (Event Stock)} (uncalled : Uncalled history)
    (id : NodeId) : Settled id history := by
  have plain : ∀ event ∈ history, event.plain = true := by
    intro event member
    cases event with
    | began other node hook => cases uncalled _ member
    | _ => rfl
  rw [← List.append_nil history]
  exact (settled_append id [] plain).mpr trivial

theorem Blueprint.build_followed {b : Blueprint Stock} {g : Graph Stock}
    (built : b.build.1 = .ok g) : Followed g := by
  obtain ⟨nodes, history, rfl, uncalled, configured⟩ := build_configured built
  -- Without any call there is no refresh to be settled and no parcel that was accepted.
  refine ⟨⟨rfl, fun id node found => (Graph.make_node? configured found).2⟩, fun _ => ?_⟩
  constructor
  · intro id node found
    exact iff_of_true (Graph.make_node? configured found).1 (uncalled.settled id)
  · intro id node h p older suffix
    cases uncalled _ (suffix.subset List.mem_cons_self)

namespace Graph

theorem Alike.relink (g : Graph Stock) (depth : Nat) (source : NodeId) (target : Option NodeId) :
    Alike g { g with nodes := linkMainBy depth source target g.nodes } where
  nodes := by
    intro id node found
    obtain ⟨before, _, was, rfl⟩ := linkMainBy_main depth found
    exact ⟨before, was, rfl, rfl, rfl⟩
  shuttingDown := rfl
  history := ⟨[], by simp, rfl⟩

theorem Alike.setEnvironment (g : Graph Stock) (environment : Environment) :
    Alike g { g with environment } :=
  ⟨fun _ node found => ⟨node, found, rfl, rfl, rfl⟩, rfl, [], by simp, rfl⟩

open Run (Keeps)

theorem send_keeps (depth : Nat) (p : Parcel) : Keeps Followed (send depth p : Run Stock Unit) :=
  .bind (followed_idle.add p) fun _ => .bind .graph fun _ =>
    Traffic.followed_steady.perform depth _ rfl

theorem sendMessage_keeps (depth : Nat) (m : Message) :
    Keeps Followed (sendMessage depth m : Run Stock Unit) :=
  .bind .graph fun _ => Traffic.followed_steady.perform depth _ rfl

theorem sendAll_keeps (depth : Nat) (parcels : List Parcel) :
    Keeps Followed (sendAll depth parcels : Run Stock Unit) := by
  induction parcels with
  | nil => exact .pure _
  | cons p rest ih => exact .bind (send_keeps depth p) fun _ => ih

theorem takeResults_keeps : Keeps Followed (takeResults : Run Stock (List Parcel)) := by
  refine takeResults_keeps_of fun g node s sink followed found kind sinks => ?_
  refine (Traffic.setState_followed (.sink sink.take.2) followed fun other there => ?_).1
  obtain rfl : node = other := Option.some.inj (found.symm.trans there)
  cases s with
  | sink s =>
    obtain rfl : s = sink := Option.some.inj sinks
    exact ⟨.sink s, kind, rfl⟩
  | _ => cases sinks

theorem pump_keeps (depth : Nat) (parcels : List Parcel) :
    Keeps Followed (pump depth parcels : Run Stock (List Parcel)) := by
  -- Linking the pump sink and putting back what followed only changes successors.
  apply pump_keeps_of
  · intro source target g followed
    exact (Alike.relink g _ source target).followed followed
  · exact sendAll_keeps depth parcels
  · exact takeResults_keeps

inductive Act where
  | setVariable (name text : String)
  | removeVariable (name : String)
  | send (p : Parcel)
  | message (m : Message)
  | pump (parcels : List Parcel)

def act {σ : Type} [Stage σ] (depth : Nat) (g : Graph σ) : Act → Option (Graph σ)
  | .setVariable name text => some { g with environment := g.environment.set name text }
  | .removeVariable name => some { g with environment := g.environment.remove name }
  | .send p => ((send depth p).start g).map Prod.snd
  | .message m => ((sendMessage depth m).start g).map Prod.snd
  | .pump parcels => ((pump depth parcels).start g).map Prod.snd

def actAll {σ : Type} [Stage σ] (depth : Nat) (acts : List Act) (g : Graph σ) : Option (Graph σ) :=
  acts.foldlM (act depth) g

theorem act_followed {depth : Nat} {g after : Graph Stock} (act : Act) (followed : Followed g)
    (ran : g.act depth act = some after) : Followed after := by
  have kept {α : Type} {run : Run Stock α} (keeps : Keeps Followed run)
      (ran : (run.start g).map Prod.snd = some after) : Followed after := by
    obtain ⟨⟨result, last⟩, started, rfl⟩ := Option.map_eq_some_iff.mp ran
    exact (keeps g followed).of_start started
  cases act with
  | setVariable name text =>
    cases ran
    exact (Alike.setEnvironment g _).followed followed
  | removeVariable name =>
    cases ran
    exact (Alike.setEnvironment g _).followed followed
  | send p => exact kept (send_keeps depth p) ran
  | message m => exact kept (sendMessage_keeps depth m) ran
  | pump parcels => exact kept (pump_keeps depth parcels) ran

theorem actAll_followed {depth : Nat} {acts : List Act} {g after : Graph Stock}
    (followed : Followed g) (ran : actAll depth acts g = some after) : Followed after := by
  induction acts generalizing g with
  | nil =>
    cases ran
    exact followed
  | cons act rest ih =>
    obtain ⟨next, first, ran⟩ := Option.bind_eq_some_iff.mp ran
    exact ih (act_followed act followed first) ran

/-- A stage accepts a parcel with the settings for its parameters just when the last refresh that
wrote anything new to them has settled it. -/
theorem accept_current_iff_settled {b : Blueprint Stock} {g after : Graph Stock} {depth : Nat}
    {acts : List Act} (built : b.build.1 = .ok g) (ran : actAll depth acts g = some after)
    (unreset : Unreset after.history) {id : NodeId} {node : Node Stock} {h : Handle} {p : Parcel}
    {older : List (Event Stock)}
    (accepted : (.began id node (.accept h p) :: older) <:+ after.history) :
    node.Current ↔ Settled id older :=
  ((actAll_followed (b.build_followed built) ran).2 unreset).accepted id node h p older accepted

def wrapping : Blueprint Stock where
  pipeline := ⟨"line", "", [], true, "wrap sink",
    [("wrap", ⟨none, [("data_prefix", .text "%A"), ("data_suffix", .text "%B")]⟩)]⟩
  registry := Stock.registry
  params := []
  environment := .ofPairs [("A", "<"), ("B", ">")]

def interrupted : List Act := [.setVariable "A" "[", .removeVariable "B", .send (.ofText "one"),
  .setVariable "B" ">", .send (.ofText "two")]

def outdated : Event Stock → Bool
  | .began _ node (.accept _ _) =>
    match node.state? with
    | some (.wrap w) => ((Wrap.configure node.params).run w).2.front != w.front
    | _ => false
  | _ => false

def resets : Event Stock → Bool
  | .began _ _ (.opening m) => m.verb == Traffic.resetVerb
  | _ => false

theorem outdated_not_current {event : Event Stock} (late : outdated event = true) :
    ∃ id node h p, event = .began id node (.accept h p) ∧ ¬node.Current := by
  unfold outdated at late
  split at late
  next id node h p =>
    refine ⟨id, node, h, p, rfl, fun current => ?_⟩
    split at late
    next w state =>
      have fitted : node.fitted? = some ⟨.wrap w, node.tank⟩ := by
        unfold Node.fitted?
        rw [state]
        rfl
      have configured : (Stage.configure node.params).run ⟨Stock.wrap w, node.tank⟩ = _ :=
        Stock.configure_run node.params (.wrap w) node.tank
      have same := current.2
      rw [Node.configured_settings fitted, Node.settings, fitted, configured] at same
      have unchanged : ((Wrap.configure node.params).run w).2 = w := by
        simpa [Fitted.settings, Stock.settings] using same
      rw [unchanged, bne_self_eq_false] at late
      cases late
    next => cases late
  next => cases late

theorem interrupted_refresh_leaves_stale :
    ∃ g after id node h p older, wrapping.build.1 = .ok g ∧
      actAll 6 interrupted g = some after ∧ Unreset after.history ∧
      (.began id node (.accept h p) :: older) <:+ after.history ∧
      ¬node.Current ∧ ¬Settled id older := by
  -- Events hold scripts and cannot be compared, so that the runs are evaluated to one truth value.
  have runs : wrapping.passes (fun g => (actAll 6 interrupted g).any fun after =>
      after.history.any outdated && !after.history.any resets) = true := by decide +kernel
  obtain ⟨g, built, runs⟩ := Blueprint.of_passes runs
  obtain ⟨after, ran, runs⟩ := (Option.any_eq_true _ _).mp runs
  simp only [Bool.and_eq_true, Bool.not_eq_true'] at runs
  obtain ⟨late, never⟩ := runs
  have unreset : Unreset after.history := by
    intro id node m member resets
    have quiet := List.any_eq_false.mp never _ member
    exact quiet (by simp [Graph.resets, resets])
  obtain ⟨event, member, late⟩ := List.any_eq_true.mp late
  obtain ⟨id, node, h, p, rfl, stale⟩ := outdated_not_current late
  obtain ⟨newer, older, split⟩ := List.append_of_mem member
  have accepted : (.began id node (.accept h p) :: older) <:+ after.history := ⟨newer, split.symm⟩
  have settled := accept_current_iff_settled built ran unreset accepted
  exact ⟨g, after, id, node, h, p, older, built, ran, unreset, accepted, stale,
    fun last => stale (settled.mpr last)⟩

end Graph

end Sluice
