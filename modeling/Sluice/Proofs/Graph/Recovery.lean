import Sluice.Proofs.Graph.Conduct

set_option autoImplicit false

namespace Sluice

variable {σ α : Type} [Stage σ]

namespace Graph

-- What is done from outside, with the calls left open that it makes.
section

variable (again : Call → Run σ Unit)

def sendBy (p : Parcel) : Run σ Unit := do
  let h ← Run.add p
  let g ← Run.graph
  again (.deliver g.root (.parcel h))

def sendAllBy : List Parcel → Run σ Unit
  | [] => pure ()
  | p :: rest => do
    sendBy again p
    sendAllBy rest

def pumpBy (parcels : List Parcel) : Run σ (List Parcel) := do
  let g ← Run.graph
  match g.exit with
  | none => return []
  | some exit => do
    let previous := (g.node? exit).bind Node.main
    set { g with nodes := linkMain exit (some g.pumpSink) g.nodes }
    let result ← Run.attempt (sendAllBy again parcels)
    Run.update fun g => { g with nodes := linkMain exit previous g.nodes }
    Run.get result
    takeResults

def Operation.via : Operation → Run σ Unit
  | .act (.setVariable name text) =>
    Run.update fun g => { g with environment := g.environment.set name text }
  | .act (.removeVariable name) =>
    Run.update fun g => { g with environment := g.environment.remove name }
  | .act (.send p) => sendBy again p
  | .act (.message m) => do
    let g ← Run.graph
    again (.deliver g.root (.message m))
  | .act (.pump parcels) => do
    let _ ← pumpBy again parcels
  | .shutdown => Traffic.shutdown again

end

theorem sendAllBy_perform (depth : Nat) (parcels : List Parcel) :
    sendAllBy (Traffic.perform depth) parcels = (sendAll depth parcels : Run σ Unit) := by
  induction parcels with
  | nil => rfl
  | cons p rest ih =>
    rw [sendAllBy, sendAll, ih]
    rfl

theorem Operation.via_perform (depth : Nat) (operation : Operation) :
    operation.via (Traffic.perform depth) = (operation.run depth : Run σ Unit) := by
  cases operation with
  | shutdown => rfl
  | act act =>
    cases act with
    | pump parcels =>
      have same : pumpBy (Traffic.perform depth) parcels = (pump depth parcels : Run σ _) := by
        unfold pumpBy
        rw [sendAllBy_perform]
        exact (pump_eq depth parcels).symm
      rw [via, same]
      rfl
    | _ => rfl

/-- What an operation does as long as all calls are in order that come of it. That this makes no
difference says nothing of a run that does not come to its end. -/
noncomputable def Operation.audited (fits : (Call → Run σ Unit) → Call → Graph σ → Prop) (depth : Nat)
    (operation : Operation) : Run σ Unit :=
  operation.via (Traffic.audited fits depth)

end Graph

namespace Conduct

/-- Any call may be made from outside, errors leave nothing amiss, and what else is done from outside
keeps to the conduct. -/
structure Open (m : Conduct σ) : Prop where
  may : ∀ {call g}, m.may call g
  recovers : ∀ {e g}, m.bad e g → m.inv none g
  environment : ∀ {g} environment, m.inv none g → m.inv none { g with environment }
  requested : ∀ {g}, m.inv none g → m.inv none { g with shuttingDown := true }
  relinked : ∀ {g} source target, m.inv none g →
    m.inv none { g with nodes := Graph.linkMain source target g.nodes }
  taken : ∀ {g node s sink}, m.inv none g → g.node? g.pumpSink = some node → node.kind = .stage s →
    Stage.toSink? s = some sink → m.inv none (g.updateNode g.pumpSink fun node =>
      { node with kind := .stage (Stage.ofSink sink.take.2) })

section

variable {m : Conduct σ} {again other : Call → Run σ Unit} {g : Graph σ}

abbrev Recovers (m : Conduct σ) (run other : Run σ α) (g : Graph σ) : Prop :=
  run.Tracks other g fun _ after => m.inv none after

theorem Follows.recovers {run run' : Run σ α} {good : α → Graph σ → Prop} (free : m.Open)
    (follows : m.Follows run run' g good) (implies : ∀ a after, good a after → m.inv none after) :
    m.Recovers run run' g := by
  refine Run.Tracks.mono follows fun result after meets => ?_
  cases result with
  | ok a => exact implies a after meets.2
  | error e => exact free.recovers meets.2

variable (steady : m.Steady) (free : m.Open) (serves : m.Serves again other)
include steady free serves

theorem Open.send (inv : m.inv none g) (p : Parcel) :
    m.Recovers (Graph.sendBy again p) (Graph.sendBy other p) g := by
  have sends : m.Follows (Graph.sendBy again p) (Graph.sendBy other p) g
      fun _ after => m.inv none after := by
    refine (steady.add inv p).bind fun h mid _ inv => .reading ?_
    exact (serves.call inv free.may).mono fun _ _ _ done => done.1
  exact sends.recovers free fun _ _ inv => inv

theorem Open.sendAll (inv : m.inv none g) (parcels : List Parcel) :
    m.Recovers (Graph.sendAllBy again parcels) (Graph.sendAllBy other parcels) g := by
  induction parcels generalizing g with
  | nil => exact .of_ends inv
  | cons p rest ih =>
    exact (Open.send steady free serves inv p).bind (fun _ _ inv => ih inv) fun _ _ inv => inv

theorem Open.pump (inv : m.inv none g) (parcels : List Parcel) :
    m.Recovers (Graph.pumpBy again parcels) (Graph.pumpBy other parcels) g := by
  refine .reading ?_
  split
  · exact .of_ends inv
  next exit _ =>
    have attached : m.Recovers (set { g with nodes := Graph.linkMain exit (some g.pumpSink) g.nodes })
        (set { g with nodes := Graph.linkMain exit (some g.pumpSink) g.nodes }) g :=
      .of_ends (free.relinked exit (some g.pumpSink) inv)
    refine attached.bind (fun _ mid inv => ?_) fun _ _ inv => inv
    refine (Open.sendAll steady free serves inv parcels).attempt.bind (fun result mid sent => ?_)
      fun _ _ sent => by obtain ⟨_, same, _⟩ := sent; cases same
    obtain ⟨_, same, inv⟩ := sent
    obtain rfl := Except.ok.inj same
    have detached (previous : Option NodeId) : m.Recovers
        (Run.update fun g => { g with nodes := Graph.linkMain exit previous g.nodes })
        (Run.update fun g => { g with nodes := Graph.linkMain exit previous g.nodes }) mid :=
      .of_ends (free.relinked exit previous inv)
    refine (detached _).bind (fun _ last inv => ?_) fun _ _ inv => inv
    cases result with
    | error e => exact .of_ends inv
    | ok _ =>
      exact .of_ends (Graph.takeResults_keeps_of (fun _ _ _ _ => free.taken) last inv)

theorem Open.operation (inv : m.inv none g) (operation : Graph.Operation) :
    m.Recovers (operation.via again) (operation.via other) g := by
  cases operation with
  | shutdown =>
    exact (steady.shutdown serves inv (free.requested inv) free.may).recovers free fun _ _ inv => inv
  | act act =>
    cases act with
    | setVariable name text => exact .of_ends (free.environment _ inv)
    | removeVariable name => exact .of_ends (free.environment _ inv)
    | send p => exact Open.send steady free serves inv p
    | message m' =>
      refine Follows.recovers free (.reading (serves.call inv free.may)) fun _ _ done => done.1
    | pump parcels =>
      refine (Open.pump steady free serves inv parcels).bind (fun _ _ inv => .of_ends inv)
        fun _ _ inv => inv

end

end Conduct

end Sluice
