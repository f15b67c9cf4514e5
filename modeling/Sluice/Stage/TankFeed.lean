import Sluice.Stage.Basic

set_option autoImplicit false

namespace Sluice

structure TankFeed where
  target : Option NodeId

namespace TankFeed

def empty : TankFeed := ⟨none⟩

def accept (path : String) (f : TankFeed) (h : Handle) : Program TankFeed Unit :=
  match f.target with
  | some node => Program.feed node h
  | none => .fail (.routing (.feederWithoutBuffer path none))

def described (s : Successor) : String := s!"'{s.path}' ({s.typeName})"

def attach (path : String) (successor : Option Successor) : Except RoutingError TankFeed :=
  match successor with
  | some s =>
    if s.hasTank then .ok ⟨some s.id⟩
    else .error (.feederWithoutBuffer path (some (described s)))
  | none => .error (.feederWithoutBuffer path none)

end TankFeed

end Sluice
