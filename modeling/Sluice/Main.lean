import Sluice.Command

set_option autoImplicit false

namespace Sluice.Main

def readFile (path : String) : IO (Except String String) := do
  try
    return .ok (← IO.FS.readFile path)
  catch e =>
    return .error (toString e)

/-- The variables of this process, which the system lists with a zero byte after each. -/
def environment : IO Environment := do
  let bytes ← IO.FS.readBinFile "/proc/self/environ"
  let entries := Text.pieces '\x00' (Text.decode bytes.toList)
  return .ofPairs (entries.filterMap (Text.cut '='))

def paths (arguments : List String) : List String :=
  match Invocation.parse arguments with
  | .ok i => i.pipeline :: i.library.toList
  | .error _ => []

def readFiles (paths : List String) : IO Files := do
  let texts ← paths.mapM fun path => return (path, ← readFile path)
  return fun path => (texts.lookup path).getD (.error "no such file")

def causeText : ConfigError ⊕ EngineError → String
  | .inl e => e.message
  | .inr e => e.text

def failureText (failure : Failure) : String :=
  match failure.cause with
  | some cause => "Error: " ++ failure.message ++ "\n\nCaused by:\n    " ++ causeText cause
  | none => "Error: " ++ failure.message

end Sluice.Main

open Sluice in
def main (arguments : List String) : IO UInt32 := do
  let files ← Main.readFiles (Main.paths arguments)
  let command := Command.run files (← Main.environment) arguments
  let (result, _) := Id.run (StateT.run (ExceptT.run command) [])
  match result with
  | .ok lines =>
    lines.forM IO.println
    return 0
  | .error failure =>
    IO.eprintln (Main.failureText failure)
    return 1
