import Sluice.Stage.Basic

set_option autoImplicit false

namespace Sluice

/-- Numbers parcels in the order in which they arrive. The counter goes round as a word of 64 bits. -/
structure SeqPacket where
  field : String
  start : Int
  counter : Int

namespace SeqPacket

def empty : SeqPacket := ⟨"", 0, 0⟩

def current (s : SeqPacket) (p : Parcel) : Option Int :=
  if s.field = Tank.seqField then p.seq else (p.attr? s.field).bind Value.asInt?

def number (s : SeqPacket) (p : Parcel) : Parcel :=
  if (s.current p).any (fun n => decide (0 ≤ n)) then p
  else if s.field = Tank.seqField then { p with seq := some s.counter }
  else p.setAttr s.field (.int s.counter)

def accept (s : SeqPacket) (h : Handle) : Program SeqPacket Unit := do
  let p ← Program.look h
  Program.edit h (s.number p)
  Program.become { s with counter := (s.counter + 1).bmod (Nat.pow 2 64) }
  Program.forward h .main

def onMessage (here : Here) (s : SeqPacket) (m : Message) : Program SeqPacket Unit :=
  if m.verb = "reset_counter" then Program.become { s with counter := s.start }
  else .fail (.message (.unrecognised here.path m.verb))

def settings (params : ParamTable) : Configuring SeqPacket Unit := do
  let field ← Configuring.get (params.text "seq_packet_field_name")
  modify fun s => { s with field }
  let start ← Configuring.get (params.int "start")
  modify fun s => { s with start }

def restart (s : SeqPacket) : SeqPacket := { s with counter := s.start }

def configure (params : ParamTable) : Configuring SeqPacket Unit := do
  settings params
  modify restart

def reconfigure (params : ParamTable) (changed : List String) (s : SeqPacket) :
    Program SeqPacket Unit := do
  let (result, s) := (settings params).run s
  Program.become s
  Program.ofConfig result
  if changed.contains "start" then Program.become s.restart

end SeqPacket

end Sluice
