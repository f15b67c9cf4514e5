import Sluice.Stage.Sink

set_option autoImplicit false

namespace Sluice

structure Here where
  id : NodeId
  path : String
  typeName : String

structure Successor where
  id : NodeId
  path : String
  typeName : String
  hasTank : Bool

structure Fitted (σ : Type) where
  state : σ
  tank : Tank

def Fitted.configureAgain {σ : Type} (configure : ParamTable → Configuring (Fitted σ) Unit)
    (params : ParamTable) (s : σ) : Program σ Unit := do
  let tank ← Program.gauge
  let (result, fitted) := (configure params).run ⟨s, tank⟩
  Program.become fitted.state
  Program.refill fitted.tank
  Program.ofConfig result

/-- A family of stages: what the stage of each state does when it is called. Every family has
sinks. -/
class Stage (σ : Type) where
  accept : Here → σ → Handle → Program σ Unit
  beforeAccept : Here → σ → Handle → Program σ Unit := fun _ _ _ => Program.skip
  afterAccept : Here → σ → Program σ Unit := fun _ _ => Program.skip
  /-- Sees every message that arrives, and may leave lines in the history. -/
  notice : Message → σ → σ × List String := fun _ s => (s, [])
  /-- Opens a message with any verb but `reset`. -/
  onMessage : Here → σ → Message → Program σ Unit := fun here _ m =>
    .fail (.message (.unrecognised here.path m.verb))
  /-- Takes over the bound parameters, at first. -/
  configure : ParamTable → Configuring (Fitted σ) Unit := fun _ => Configuring.nothing
  /-- Takes them over again after the named ones changed. -/
  reconfigure : Here → ParamTable → List String → σ → Program σ Unit := fun _ params _ s =>
    Fitted.configureAgain configure params s
  flush : Here → σ → Program σ Unit := fun _ _ => Program.skip
  close : Here → σ → Program σ Unit := fun _ _ => Program.skip
  /-- Learns what follows, once the graph is connected; may leave lines in the history. -/
  attach : String → Option Successor → σ → List String × Except RoutingError σ :=
    fun _ _ s => ([], .ok s)
  hasTank : σ → Bool := fun _ => false
  /-- Whether the successor is where a loop closes. Messages and closing stop there. -/
  feedsBack : σ → Bool := fun _ => false
  ofSink : Sink → σ
  toSink? : σ → Option Sink

namespace Stage

variable {σ τ : Type}

def configurePart (put : σ → τ) (state : σ) (tank : Tank)
    (c : Configuring (Fitted σ) Unit) : Configuring (Fitted τ) Unit :=
  Configuring.part (fun fitted => ⟨put fitted.state, fitted.tank⟩) ⟨state, tank⟩ c

def mapAttached (put : σ → τ) (attached : List String × Except RoutingError σ) :
    List String × Except RoutingError τ :=
  (attached.1, attached.2.map put)

instance [Stage σ] [Stage τ] : Stage (σ ⊕ τ) where
  accept here s h := match s with
    | .inl s => (accept here s h).mapState .inl
    | .inr s => (accept here s h).mapState .inr
  beforeAccept here s h := match s with
    | .inl s => (beforeAccept here s h).mapState .inl
    | .inr s => (beforeAccept here s h).mapState .inr
  afterAccept here s := match s with
    | .inl s => (afterAccept here s).mapState .inl
    | .inr s => (afterAccept here s).mapState .inr
  notice m s := match s with
    | .inl s => let (s, lines) := notice m s; (.inl s, lines)
    | .inr s => let (s, lines) := notice m s; (.inr s, lines)
  onMessage here s m := match s with
    | .inl s => (onMessage here s m).mapState .inl
    | .inr s => (onMessage here s m).mapState .inr
  configure params := do
    let fitted ← get
    match fitted.state with
    | .inl s => configurePart .inl s fitted.tank (configure params)
    | .inr s => configurePart .inr s fitted.tank (configure params)
  reconfigure here params changed s := match s with
    | .inl s => (reconfigure here params changed s).mapState .inl
    | .inr s => (reconfigure here params changed s).mapState .inr
  flush here s := match s with
    | .inl s => (flush here s).mapState .inl
    | .inr s => (flush here s).mapState .inr
  close here s := match s with
    | .inl s => (close here s).mapState .inl
    | .inr s => (close here s).mapState .inr
  attach path successor s := match s with
    | .inl s => mapAttached .inl (attach path successor s)
    | .inr s => mapAttached .inr (attach path successor s)
  hasTank s := match s with
    | .inl s => hasTank s
    | .inr s => hasTank s
  feedsBack s := match s with
    | .inl s => feedsBack s
    | .inr s => feedsBack s
  ofSink s := .inl (ofSink s)
  toSink? s := match s with
    | .inl s => toSink? s
    | .inr s => toSink? s

end Stage

end Sluice
