import Sluice.Stage.Configuring
import Sluice.Stage.Program

set_option autoImplicit false

namespace Sluice

structure Wrap where
  front : List UInt8
  back : List UInt8

namespace Wrap

def empty : Wrap := ⟨[], []⟩

def affix (params : ParamTable) (key : String) : Except ConfigError (List UInt8) :=
  (params.value key).map fun value =>
    match value with
    | .null => []
    | value => Text.encode value.render

def configure (params : ParamTable) : Configuring Wrap Unit := do
  let front ← Configuring.get (affix params "data_prefix")
  modify fun w => { w with front }
  let back ← Configuring.get (affix params "data_suffix")
  modify fun w => { w with back }

def accept (w : Wrap) (h : Handle) : Program Wrap Unit := do
  let p ← Program.look h
  Program.edit h { p with data := w.front ++ p.data ++ w.back }
  Program.forward h .main

end Wrap

end Sluice
