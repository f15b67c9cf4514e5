import Sluice.Param.Environment
import Sluice.Report
import Sluice.Tank

set_option autoImplicit false

namespace Sluice

inductive Request where
  | look (h : Handle)
  /-- Overwrites a parcel, for all its holders. -/
  | edit (h : Handle) (p : Parcel)
  /-- Copies a parcel to a new handle. -/
  | copy (h : Handle)
  /-- Hands a parcel to the successor, to take the edge there. -/
  | forward (h : Handle) (edge : Edge)
  | post (m : Message)
  | gauge
  | refill (t : Tank)
  /-- Forwards what the tank of this stage holds beyond its capacity, until nothing is. -/
  | drain
  | feed (node : NodeId) (h : Handle)
  | shutdown
  | closing
  | environment
  | report (r : Report)
  | note (line : String)

def Request.Answer : Request → Type
  | .look _ => Parcel
  | .copy _ => Handle
  | .gauge => Tank
  | .closing => Bool
  | .environment => Environment
  | _ => Unit

/-- What a stage of state `σ` does during one call: it keeps new states of its own and asks for
what it needs, until it is done or fails. A request that fails ends the program. -/
inductive Program (σ α : Type) where
  | done (a : α)
  | fail (e : EngineError)
  | keep (s : σ) (next : Program σ α)
  | ask (r : Request) (next : r.Answer → Program σ α)

namespace Program

variable {σ τ α β : Type}

def bind : Program σ α → (α → Program σ β) → Program σ β
  | .done a, f => f a
  | .fail e, _ => .fail e
  | .keep s next, f => .keep s (next.bind f)
  | .ask r next, f => .ask r fun answer => (next answer).bind f

instance : Monad (Program σ) where
  pure := .done
  bind := bind

def mapState (f : σ → τ) : Program σ α → Program τ α
  | .done a => .done a
  | .fail e => .fail e
  | .keep s next => .keep (f s) (next.mapState f)
  | .ask r next => .ask r fun answer => (next answer).mapState f

def skip : Program σ Unit := .done ()

def become (s : σ) : Program σ Unit := .keep s skip

def request (r : Request) : Program σ r.Answer := .ask r .done

def look (h : Handle) : Program σ Parcel := request (.look h)

def edit (h : Handle) (p : Parcel) : Program σ Unit := request (.edit h p)

def copy (h : Handle) : Program σ Handle := request (.copy h)

def forward (h : Handle) (edge : Edge) : Program σ Unit := request (.forward h edge)

def post (m : Message) : Program σ Unit := request (.post m)

def gauge : Program σ Tank := request .gauge

def refill (t : Tank) : Program σ Unit := request (.refill t)

def drain : Program σ Unit := request .drain

def feed (node : NodeId) (h : Handle) : Program σ Unit := request (.feed node h)

def shutdown : Program σ Unit := request .shutdown

def closing : Program σ Bool := request .closing

def environment : Program σ Environment := request .environment

def report (r : Report) : Program σ Unit := request (.report r)

def note (line : String) : Program σ Unit := request (.note line)

def failReporting (path reason : String) : Program σ Unit := do
  let error := EngineError.data path reason
  report (.stageFailed path error.text)
  .fail error

def ofConfig : Except ConfigError α → Program σ α
  | .ok a => .done a
  | .error e => .fail (.config e)

end Program

end Sluice
