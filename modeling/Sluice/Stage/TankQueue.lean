import Sluice.Stage.Basic

set_option autoImplicit false

namespace Sluice

-- Holds parcels back in its tank.
namespace TankQueue

def settings (params : ParamTable) : Configuring Tank Unit := do
  let capacity ← Configuring.get (params.int "tank_size")
  modify fun t => { t with capacity }
  let field ← Configuring.get (params.text "priority_field_name")
  modify fun t => { t with field }

def configure (params : ParamTable) : Configuring Tank Unit := do
  settings params
  modify Tank.pad

variable {σ : Type}

def accept (here : Here) (h : Handle) : Program σ Unit := do
  Program.feed here.id h
  Program.drain

def reconfigure (here : Here) (params : ParamTable) : Program σ Unit := do
  let t ← Program.gauge
  let (result, t) := (settings params).run t
  Program.refill t
  Program.ofConfig result
  Program.drain
  let t ← Program.gauge
  let t := t.pad
  Program.refill t
  Program.report (.tankResized here.path t.capacity t.held t.size)

def flush : Program σ Unit := do
  let t ← Program.gauge
  Program.refill { t with capacity := 0 }
  Program.drain

end TankQueue

end Sluice
