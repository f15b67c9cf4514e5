import Sluice.Graph.Traffic

set_option autoImplicit false

namespace Sluice.Graph

variable {σ : Type} [Stage σ]

def send (depth : Nat) (p : Parcel) : Run σ Unit := do
  let h ← Run.add p
  let g ← Run.graph
  Traffic.perform depth (.deliver g.root (.parcel h))

def sendMessage (depth : Nat) (m : Message) : Run σ Unit := do
  let g ← Run.graph
  Traffic.perform depth (.deliver g.root (.message m))

def shutdown (depth : Nat) : Run σ Unit := Traffic.shutdown (Traffic.perform depth)

def sendAll (depth : Nat) : List Parcel → Run σ Unit
  | [] => pure ()
  | p :: rest => do
    send depth p
    sendAll depth rest

def takeHandles : Run σ (List Handle) := do
  let g ← Run.graph
  match ((g.node? g.pumpSink).bind Node.state?).bind Stage.toSink? with
  | none => return []
  | some sink => do
    let (results, sink) := sink.take
    Run.setState g.pumpSink (Stage.ofSink sink)
    return results

def takeResults : Run σ (List Parcel) := do
  let results ← takeHandles
  let g ← Run.graph
  return results.map g.store.read

/-- Sends parcels in, and answers with those that come out at the exit. The pump sink follows the
exit for that time. -/
def pumpHandles (depth : Nat) (parcels : List Parcel) : Run σ (List Handle) := do
  let g ← Run.graph
  match g.exit with
  | none => return []
  | some exit => do
    let previous := (g.node? exit).bind Node.main
    set { g with nodes := linkMain exit (some g.pumpSink) g.nodes }
    let result ← Run.attempt (sendAll depth parcels)
    Run.update fun g => { g with nodes := linkMain exit previous g.nodes }
    Run.get result
    takeHandles

def pump (depth : Nat) (parcels : List Parcel) : Run σ (List Parcel) := do
  let results ← pumpHandles depth parcels
  let g ← Run.graph
  return results.map g.store.read

end Sluice.Graph
