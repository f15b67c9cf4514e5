import Sluice.Stage.Program

set_option autoImplicit false

namespace Sluice

-- Reverses the payload, which has to be text.
namespace ReverseString

variable {σ : Type}

def reversed (text : String) : String := String.ofList text.toList.reverse

def accept (path : String) (h : Handle) : Program σ Unit := do
  let p ← Program.look h
  Program.report (.processingStarted path p.data.length)
  match Text.decode? p.data with
  | .error fault => Program.failReporting path ("Invalid UTF-8 input: " ++ fault.message)
  | .ok text => do
    let data := Text.encode (reversed text)
    Program.edit h { p with data }
    Program.report (.processingCompleted path p.data.length data.length .zero)
    Program.forward h .main

end ReverseString

end Sluice
