import Sluice.Stage.Configuring
import Sluice.Stage.Program

set_option autoImplicit false

namespace Sluice

structure SendMessage where
  message : Option Message

namespace SendMessage

def empty : SendMessage := ⟨none⟩

def accept (s : SendMessage) (h : Handle) : Program SendMessage Unit := do
  if let some m := s.message then Program.post m
  Program.forward h .main

def configure (params : ParamTable) : Configuring SendMessage Unit := do
  let destination ← Configuring.get (params.text "destination")
  let command ← Configuring.get (params.text "message")
  match Message.parse destination command with
  | .error e => throw (params.invalid "message" e.message)
  | .ok m =>
    let singleUse ← Configuring.get (params.flag "single_use")
    set (SendMessage.mk (some { m with singleUse }))

end SendMessage

end Sluice
