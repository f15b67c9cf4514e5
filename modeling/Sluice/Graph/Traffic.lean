import Sluice.Graph.Run

set_option autoImplicit false

namespace Sluice

inductive Call where
  | deliver (node : NodeId) (packet : Packet)
  | close (node : NodeId)
  | drain (node : NodeId)

namespace Traffic

variable {σ : Type}

-- Each of these does what is to be done at one node and leaves the rest to further calls.
section

variable (again : Call → Run σ Unit)

def onward (target : Option NodeId) (call : NodeId → Call) : Run σ Unit :=
  match target with
  | some id => again (call id)
  | none => pure ()

/-- Hands a parcel to the successor of a stage. Only a fan-out can take it to a branch. -/
def forward (id : NodeId) (h : Handle) (edge : Edge) : Run σ Unit :=
  Run.atNode id fun node => do
    let g ← Run.graph
    let next := node.main.bind fun target => (g.node? target).map fun next => (target, next)
    if edge = .branch ∧ !(next.any fun entry => entry.2.isFanOut) then
      throw (.routing (.noFanOut node.path))
    match next with
    | none => pure ()
    | some (target, next) => do
      Run.edit h { g.store.read h with fork := edge, origin := some node.name }
      Run.report (.parcelForwarded node.path next.path edge)
      again (.deliver target (.parcel h))

def shutdown : Run σ Unit := do
  let g ← Run.graph
  if g.shuttingDown then pure ()
  else do
    set { g with shuttingDown := true }
    Run.report (.shutdownStarted g.pipeline)
    again (.close g.root)
    Run.report (.shutdownCompleted g.pipeline .zero)

def feed (id : NodeId) (h : Handle) : Run σ Unit := do
  let p ← Run.look h
  Run.updateNode id fun node => { node with tank := node.tank.push h p }

def answer (id : NodeId) : (r : Request) → Run σ r.Answer
  | .look h => Run.look h
  | .edit h p => Run.edit h p
  | .copy h => do Run.add (← Run.look h)
  | .forward h edge => forward again id h edge
  | .post m => Run.atNode id fun node => onward again node.main (.deliver · (.message m))
  | .gauge => Run.tankOf id
  | .refill t => Run.setTank id t
  | .drain => again (.drain id)
  | .feed node h => feed node h
  | .shutdown => shutdown again
  | .closing => return (← Run.graph).shuttingDown
  | .environment => return (← Run.graph).environment
  | .report r => Run.report r
  | .note line => Run.remember (.note line)

def interpret {α : Type} (id : NodeId) : Program σ α → Run σ α
  | .done a => pure a
  | .fail e => throw e
  | .keep s next => do
    Run.setState id s
    interpret id next
  | .ask r next => do
    let a ← answer again id r
    interpret id (next a)

def runStage (id : NodeId) (program : Here → Node σ → σ → Program σ Unit) : Run σ Unit :=
  Run.atNode id fun node =>
    match node.kind with
    | .stage s => interpret again id (program (node.here id) node s)
    | _ => pure ()

variable [Stage σ]

def reconfigure (id : NodeId) (changed : List String) : Run σ Unit :=
  runStage again id fun here node s => Stage.reconfigure here node.params changed s

/-- Writes the variables into the parameters that follow them; the answer is those that changed.
What is written before a variable turns out to be missing stays written. -/
def refreshEach (id : NodeId) (path : String) :
    List (String × String) → List String → Run σ (List String)
  | [], changed => pure changed.reverse
  | (parameter, variableName) :: rest, changed => do
    let g ← Run.graph
    match g.environment.resolve variableName with
    | none =>
      throw (.data path
        s!"environment variable '{variableName}' for parameter '{parameter}' is not set")
    | some value =>
      let differs := (g.node? id).any fun node => node.params.differs parameter value
      Run.updateNode id fun node => { node with params := node.params.put parameter value }
      if differs then do
        Run.report (.parameterRefreshed path parameter variableName)
        refreshEach id path rest (parameter :: changed)
      else refreshEach id path rest changed

def refresh (id : NodeId) : Run σ Unit := do
  Run.began id (.refresh (← Run.graph).environment)
  Run.atNode id fun node => do
    let changed ← refreshEach id node.path node.dynamic []
    if changed.isEmpty then pure () else reconfigure again id changed

def accept (id : NodeId) (h : Handle) : Run σ Unit := do
  refresh again id
  runStage again id fun here _ s => Stage.beforeAccept here s h
  Run.began id (.accept h (← Run.look h))
  runStage again id fun here _ s => Stage.accept here s h
  runStage again id fun here _ s => Stage.afterAccept here s

def resetParameter (id : NodeId) (m : Message) : Run σ Unit :=
  Run.atNode id fun node =>
    match m.values with
    | [name, value] => do
      let parameter := name.render
      if !node.declared.declares parameter then
        throw (.message (.unknownParameter node.path parameter))
      Run.updateNode id fun node => { node with params := node.params.put parameter value }
      Run.report (.parameterReset node.path parameter value)
      reconfigure again id [parameter]
    | values =>
      throw (.message (.malformed node.path m.verb s!"expected 2 values, found {values.length}"))

def resetVerb : String := "reset"

/-- Opens a message that is for this stage; the answer is whether it goes no further. -/
def openMessage (id : NodeId) (node : Node σ) (m : Message) : Run σ Bool :=
  if node.answersTo m.destination then do
    Run.report (.messageOpened node.path m)
    Run.began id (.opening m)
    if m.verb = resetVerb then resetParameter again id m
    else runStage again id fun here _ s => Stage.onMessage here s m
    return m.singleUse
  else pure false

def notice (id : NodeId) (m : Message) : Run σ Unit := do
  Run.began id (.notice m)
  Run.atNode id fun node =>
    match node.kind with
    | .stage s => do
      let (s, lines) := Stage.notice m s
      Run.setState id s
      Run.noteAll lines
    | _ => pure ()

def feedsBack (id : NodeId) : Run σ Bool := do
  return (((← Run.graph).node? id).bind Node.state?).any Stage.feedsBack

def pass (id : NodeId) (node : Node σ) (m : Message) : Run σ Unit := do
  let ends ← Run.holding id do
    notice id m
    let kept ← openMessage again id node m
    let loops ← feedsBack id
    return kept || loops
  if ends then pure () else onward again node.main (.deliver · (.message m))

/-- Closes a stage if that was put off while its call was active. The call's own error comes
before one from closing. -/
def settle (id : NodeId) (result : Except EngineError Unit) : Run σ Unit := do
  let deferred := ((← Run.graph).node? id).any Node.closeDeferred
  if deferred then do
    Run.updateNode id fun node => { node with closeDeferred := false }
    let closed ← Run.attempt (again (.close id))
    Run.get result
    Run.get closed
  else Run.get result

def deliverToStage (id : NodeId) (node : Node σ) (packet : Packet) : Run σ Unit := do
  if node.phase = .closed then do
    Run.remember (.refused id packet)
    throw (.routing (.stageClosed node.path))
  else if node.busy then do
    if (← Run.graph).shuttingDown then Run.report (.reentrancySuppressed node.path)
    else throw (.reentrancy node.path)
  else do
    let result ← Run.attempt <|
      match packet with
      | .parcel h => Run.holding id (accept again id h)
      | .message m => pass again id node m
    settle again id result

omit [Stage σ] in
def fanOut (node : Node σ) : Packet → Run σ Unit
  | .parcel h => do
    let p ← Run.look h
    Run.edit h { p with fork := .main }
    Run.report (.fanOutRouted node.path p.fork)
    match p.fork, node.branch with
    | .branch, none => throw (.routing (.missingBranch node.path))
    | .branch, some branch => again (.deliver branch (.parcel h))
    | .main, _ => onward again node.main (.deliver · (.parcel h))
  | .message m => do
    onward again node.branch (.deliver · (.message m))
    onward again node.main (.deliver · (.message m))

def deliver (id : NodeId) (packet : Packet) : Run σ Unit :=
  Run.atNode id fun node =>
    match node.kind with
    | .subGraph entry _ => onward again entry (.deliver · packet)
    | .fanOut => fanOut again node packet
    | .stage _ => deliverToStage again id node packet

def callLast (id : NodeId) (hook : Hook) (program : Here → σ → Program σ Unit) : Run σ Unit := do
  Run.began id hook
  match ← Run.attempt (runStage again id fun here _ s => program here s) with
  | .ok () => pure ()
  | .error e => do
    Run.remember (.failed id hook e)
    throw e

def closeStage (id : NodeId) (node : Node σ) : Run σ Unit :=
  if node.phase ≠ .running then pure ()
  else if node.busy then do
    Run.updateNode id fun node => { node with closeDeferred := true }
    Run.report (.closeDeferred node.path)
  else do
    let loops ← Run.holding id do
      Run.setPhase id .flushing
      callLast again id .flush Stage.flush
      Run.setPhase id .closing
      callLast again id .close Stage.close
      Run.setPhase id .closed
      feedsBack id
    Run.report (.stageClosed node.path node.typeName)
    if loops then pure () else onward again node.main .close

def close (id : NodeId) : Run σ Unit :=
  Run.atNode id fun node =>
    match node.kind with
    | .stage _ => closeStage again id node
    | .fanOut =>
      if node.phase = .closed then pure ()
      else do
        Run.setPhase id .closed
        onward again node.branch .close
        onward again node.main .close
    | .subGraph entry _ =>
      if node.phase = .closed then pure ()
      else do
        Run.setPhase id .closed
        onward again entry .close

omit [Stage σ] in
def drain (id : NodeId) : Run σ Unit := do
  let (released, tank) := (← Run.tankOf id).release
  Run.setTank id tank
  match released with
  | none => pure ()
  | some h => do
    let path := (← Run.graph).pathOf id
    Run.report (.tankForwarded path tank.released)
    forward again id h .main
    again (.drain id)

/-- One call, with the calls that it makes in turn left open. -/
def step : Call → Run σ Unit
  | .deliver id packet => deliver again id packet
  | .close id => close again id
  | .drain id => drain again id

end

/-- A call with all that it leads to. Calls within calls are followed to a given depth, and beyond
that the run is unfinished. -/
def perform [Stage σ] : Nat → Call → Run σ Unit
  | 0, _ => Run.unfinished
  | depth + 1, call => step (perform depth) call

end Traffic

end Sluice
