import Sluice.Stage.BranchIf
import Sluice.Stage.Factorial
import Sluice.Stage.Reset
import Sluice.Stage.ReverseString
import Sluice.Stage.SendMessage
import Sluice.Stage.SeqPacket
import Sluice.Stage.TankFeed
import Sluice.Stage.TankQueue
import Sluice.Stage.Wrap

set_option autoImplicit false

namespace Sluice

/-- A step written by the user: what it makes of a parcel, and why it fails if it does. -/
abbrev Script := ParamTable → Parcel → Parcel × Option String

inductive Stock where
  | passThrough
  | waste (discarded : Nat)
  | sink (s : Sink)
  | reverseString
  | wrap (w : Wrap)
  | seqPacket (s : SeqPacket)
  | branchClone
  | branchRef
  | branchIf (b : BranchIf)
  | factorial
  | tankQueue
  | tankFeed (f : TankFeed)
  | sendMessage (s : SendMessage)
  | reset (r : Reset)
  | script (run : Script) (params : ParamTable)

namespace Stock

def acceptCloning (h : Handle) : Program Stock Unit := do
  let copy ← Program.copy h
  Program.forward copy .branch
  Program.forward h .main

/-- Sends one parcel both ways, so that main sees what the branch did to it. -/
def acceptSharing (h : Handle) : Program Stock Unit := do
  Program.forward h .branch
  Program.forward h .main

def acceptScript (path : String) (run : Script) (params : ParamTable) (h : Handle) :
    Program Stock Unit := do
  let p ← Program.look h
  let (p, failure) := run params p
  Program.edit h p
  match failure with
  | some reason => Program.failReporting path reason
  | none => Program.forward h .main

def accept (here : Here) (s : Stock) (h : Handle) : Program Stock Unit :=
  match s with
  | .passThrough => Program.forward h .main
  | .waste discarded => Program.become (.waste (discarded + 1))
  | .sink s => (s.accept h).mapState .sink
  | .reverseString => ReverseString.accept here.path h
  | .wrap w => (w.accept h).mapState .wrap
  | .seqPacket s => (s.accept h).mapState .seqPacket
  | .branchClone => acceptCloning h
  | .branchRef => acceptSharing h
  | .branchIf b => (b.accept here.path h).mapState .branchIf
  | .factorial => Factorial.accept here.path h
  | .tankQueue => TankQueue.accept here h
  | .tankFeed f => (f.accept here.path h).mapState .tankFeed
  | .sendMessage s => (s.accept h).mapState .sendMessage
  | .reset r => (r.accept here.path h).mapState .reset
  | .script run params => acceptScript here.path run params h

def notice (m : Message) : Stock → Stock
  | .sink s => .sink (s.notice m)
  | s => s

def onMessage (here : Here) (s : Stock) (m : Message) : Program Stock Unit :=
  match s with
  | .seqPacket s => (s.onMessage here m).mapState .seqPacket
  | _ => .fail (.message (.unrecognised here.path m.verb))

def configureState {α : Type} (tank : Tank) (put : α → Stock) (a : α) (c : Configuring α Unit) :
    Configuring (Fitted Stock) Unit :=
  Configuring.part (fun a => ⟨put a, tank⟩) a c

def configure (params : ParamTable) : Configuring (Fitted Stock) Unit := do
  let ⟨state, tank⟩ ← get
  match state with
  | .sink s => configureState tank .sink s (Sink.configure params)
  | .wrap w => configureState tank .wrap w (Wrap.configure params)
  | .seqPacket s => configureState tank .seqPacket s (SeqPacket.configure params)
  | .branchIf b => configureState tank .branchIf b (BranchIf.configure params)
  | .tankQueue => Configuring.part (Fitted.mk .tankQueue) tank (TankQueue.configure params)
  | .sendMessage s => configureState tank .sendMessage s (SendMessage.configure params)
  | .reset r => configureState tank .reset r (Reset.configure params)
  | .script run _ => set (Fitted.mk (Stock.script run params) tank)
  | _ => Configuring.nothing

def reconfigure (here : Here) (params : ParamTable) (changed : List String) (s : Stock) :
    Program Stock Unit :=
  match s with
  | .seqPacket s => (s.reconfigure params changed).mapState .seqPacket
  | .tankQueue => TankQueue.reconfigure here params
  | s => Fitted.configureAgain configure params s

def flush : Stock → Program Stock Unit
  | .tankQueue => TankQueue.flush
  | _ => Program.skip

def attach (path : String) (successor : Option Successor) : Stock → Except RoutingError Stock
  | .tankFeed _ => (TankFeed.attach path successor).map .tankFeed
  | s => .ok s

def hasTank : Stock → Bool
  | .tankQueue => true
  | _ => false

def feedsBack : Stock → Bool
  | .tankFeed _ => true
  | _ => false

def toSink? : Stock → Option Sink
  | .sink s => some s
  | _ => none

instance : Stage Stock where
  accept := accept
  notice m s := (s.notice m, [])
  onMessage := onMessage
  configure := configure
  reconfigure := reconfigure
  flush _ s := s.flush
  attach path successor s := ([], s.attach path successor)
  hasTank := hasTank
  feedsBack := feedsBack
  ofSink := .sink
  toSink? := toSink?

end Stock

end Sluice
