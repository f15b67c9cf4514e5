import Sluice.Proofs.Graph.Advance

set_option autoImplicit false

namespace Sluice.Graph

variable {σ : Type} [Stage σ]

def collector? (g : Graph σ) : Option Sink :=
  ((g.node? g.pumpSink).bind Node.state?).bind Stage.toSink?

theorem takeResults_eq (g : Graph σ) : (takeResults : Run σ (List Parcel)).start g =
    match g.collector? with
    | none => some (.ok [], g)
    | some sink => some (.ok (sink.take.1.map g.store.read), g.updateNode g.pumpSink fun node =>
        { node with kind := .stage (Stage.ofSink sink.take.2) }) := by
  have opened : (takeHandles : Run σ (List Handle)).start g =
      (match g.collector? with
        | none => pure []
        | some sink => do
          Run.setState g.pumpSink (Stage.ofSink sink.take.2)
          pure sink.take.1 : Run σ (List Handle)).start g := rfl
  rw [takeResults, Run.start_bind, opened]
  cases g.collector? <;> rfl

theorem takeResults_ends {g : Graph σ} {post : Except EngineError (List Parcel) → Graph σ → Prop} :
    takeResults.Ends g post ↔
      (g.collector? = none → post (.ok []) g) ∧
        ∀ sink, g.collector? = some sink → post (.ok (sink.take.1.map g.store.read))
          (g.updateNode g.pumpSink fun node =>
            { node with kind := .stage (Stage.ofSink sink.take.2) }) := by
  unfold Run.Ends
  rw [takeResults_eq]
  cases g.collector? <;> simp

theorem takeResults_keeps_of {inv : Graph σ → Prop}
    (taken : ∀ g node s sink, inv g → g.node? g.pumpSink = some node → node.kind = .stage s →
      Stage.toSink? s = some sink → inv (g.updateNode g.pumpSink fun node =>
        { node with kind := .stage (Stage.ofSink sink.take.2) })) :
    Run.Keeps inv (takeResults : Run σ (List Parcel)) := by
  intro g holds
  refine takeResults_ends.mpr ⟨fun _ => holds, fun sink kept => ?_⟩
  obtain ⟨s, state, sinks⟩ := Option.bind_eq_some_iff.mp kept
  obtain ⟨node, found, state⟩ := Option.bind_eq_some_iff.mp state
  exact taken g node s sink holds found (Node.kind_of_state state) sinks

theorem pump_eq (depth : Nat) (parcels : List Parcel) : pump depth parcels = (do
    let g ← Run.graph
    match g.exit with
    | none => return []
    | some exit => do
      let previous := (g.node? exit).bind Node.main
      set { g with nodes := linkMain exit (some g.pumpSink) g.nodes }
      let result ← Run.attempt (sendAll depth parcels)
      Run.update fun g => { g with nodes := linkMain exit previous g.nodes }
      Run.get result
      takeResults : Run σ (List Parcel)) := by
  unfold pump pumpHandles
  rw [bind_assoc]
  refine congrArg _ (funext fun g => ?_)
  cases g.exit with
  | none => rfl
  | some exit => simp [takeResults]

theorem pump_of_handles {g after : Graph σ} {depth : Nat} {parcels : List Parcel}
    {handles : List Handle} (pumped : (pumpHandles depth parcels).start g = some (.ok handles, after)) :
    (pump depth parcels).start g = some (.ok (handles.map after.store.read), after) := by
  rw [pump, Run.start_bind, pumped]
  rfl

theorem pump_attached {g : Graph σ} {exit : NodeId} (leaves : g.exit = some exit) (depth : Nat)
    (parcels : List Parcel) :
    (pump depth parcels).start g = (do
      let result ← Run.attempt (sendAll depth parcels)
      Run.update fun after =>
        { after with nodes := linkMain exit ((g.node? exit).bind Node.main) after.nodes }
      Run.get result
      takeResults : Run σ (List Parcel)).start
        { g with nodes := linkMain exit (some g.pumpSink) g.nodes } := by
  have found : (Run.graph : Run σ (Graph σ)).start g = some (.ok g, g) := rfl
  have attached (next : Graph σ) : (set next : Run σ PUnit).start g = some (.ok ⟨⟩, next) := rfl
  rw [pump_eq, Run.start_bind, found, Option.bind_some]
  dsimp only
  rw [leaves]
  dsimp only
  rw [Run.start_bind, attached, Option.bind_some]

theorem pump_none {g : Graph σ} (leaves : g.exit = none) (depth : Nat) (parcels : List Parcel) :
    (pump depth parcels).Ends g fun result after => result = .ok [] ∧ after = g := by
  rw [pump_eq, Run.ends_bind, Run.ends_graph]
  dsimp only
  rw [leaves]
  exact ⟨rfl, rfl⟩

theorem pump_ends {g : Graph σ} {exit : NodeId} (leaves : g.exit = some exit) (depth : Nat)
    (parcels : List Parcel) {post : Except EngineError (List Parcel) → Graph σ → Prop} :
    (pump depth parcels).Ends g post ↔
      (sendAll depth parcels).Ends { g with nodes := linkMain exit (some g.pumpSink) g.nodes }
        fun result mid =>
          match result with
          | .ok _ => takeResults.Ends
              { mid with nodes := linkMain exit ((g.node? exit).bind Node.main) mid.nodes } post
          | .error e => post (.error e)
              { mid with nodes := linkMain exit ((g.node? exit).bind Node.main) mid.nodes } := by
  unfold Run.Ends
  rw [pump_attached leaves, Run.start_bind, Run.attempt_start]
  cases (sendAll depth parcels).start
      { g with nodes := linkMain exit (some g.pumpSink) g.nodes } with
  | none => rfl
  | some ended =>
    obtain ⟨result, mid⟩ := ended
    cases result <;> rfl

theorem pump_keeps_of {inv : Graph σ → Prop}
    (relinked : ∀ (source : NodeId) (target : Option NodeId) (g : Graph σ), inv g →
      inv { g with nodes := linkMain source target g.nodes })
    {depth : Nat} {parcels : List Parcel} (sends : Run.Keeps inv (sendAll depth parcels : Run σ Unit))
    (takes : Run.Keeps inv (takeResults : Run σ (List Parcel))) :
    Run.Keeps inv (pump depth parcels : Run σ (List Parcel)) := by
  intro g holds
  cases leaves : g.exit with
  | none => exact (pump_none leaves depth parcels).mono fun _ after ⟨_, same⟩ => same ▸ holds
  | some exit =>
    refine (pump_ends leaves depth parcels).mpr ((sends _ (relinked _ _ g holds)).mono ?_)
    intro result mid holds
    cases result with
    | error e => exact relinked _ _ mid holds
    | ok _ => exact takes _ (relinked _ _ mid holds)

end Sluice.Graph
