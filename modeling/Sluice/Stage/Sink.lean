import Sluice.Stage.Program
import Sluice.Stage.Configuring

set_option autoImplicit false

namespace Sluice

/-- Keeps the parcels that arrive, the oldest of them dropped once there are more than the limit;
a limit of zero is none. -/
structure Sink where
  results : List Handle
  messages : List Message
  maxResults : Nat
  capture : Bool

namespace Sink

def empty : Sink := ⟨[], [], 0, false⟩

def trim (s : Sink) : Sink :=
  if s.maxResults = 0 then s
  else { s with results := s.results.drop (s.results.length - s.maxResults) }

def keep (s : Sink) (h : Handle) : Sink :=
  let results := s.results ++ [h]
  let crowded := 0 < s.maxResults && s.maxResults < results.length
  { s with results := if crowded then results.drop 1 else results }

def notice (s : Sink) (m : Message) : Sink :=
  if s.capture then { s with messages := s.messages ++ [m] } else s

def accept (s : Sink) (h : Handle) : Program Sink Unit := do
  Program.become (s.keep h)
  Program.forward h .main

/-- The limit counts as changed even when the other parameter turns out to be no flag. -/
def configure (params : ParamTable) : Configuring Sink Unit := do
  let limit ← Configuring.get (params.int "max_results")
  if limit < 0 then throw (params.invalid "max_results" "must not be negative")
  modify fun s => { s with maxResults := limit.toNat }
  let capture ← Configuring.get (params.flag "capture_msgs")
  modify fun s => trim { s with capture }

def take (s : Sink) : List Handle × Sink := (s.results, { s with results := [] })

end Sink

end Sluice
