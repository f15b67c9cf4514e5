import Sluice.Literal
import Sluice.Text.Blank

set_option autoImplicit false

namespace Sluice

structure Invocation where
  pipeline : String
  library : Option String
  params : List (String × Value)
  attrs : List (String × Value)
  inputs : List String

namespace Invocation

def usage : String :=
  "Usage: filterworks <pipeline.yaml|toml> [--library lib.yaml] [--set k=v]... [--attr k=v]... " ++
    "[input ...]"

def keyValue (option argument : String) : Except String (String × Value) :=
  match Text.cut '=' argument with
  | some (key, value) => .ok (Text.trim key, Literal.convert (Text.trim value))
  | none => .error s!"{option} expects k=v, got '{argument}'"

/-- Reads arguments. The first that belongs to no option is the pipeline, and the others are
inputs. -/
def readArguments (pipeline : Option String) (i : Invocation) :
    List String → Except String Invocation
  | [] =>
    match pipeline with
    | some pipeline => .ok { i with pipeline }
    | none => .error usage
  | ["--library"] => .error "--library needs a path"
  | ["--set"] => .error "--set needs a k=v argument"
  | ["--attr"] => .error "--attr needs a k=v argument"
  | "--library" :: path :: rest => readArguments pipeline { i with library := some path } rest
  | "--set" :: argument :: rest => do
    readArguments pipeline { i with params := i.params ++ [← keyValue "--set" argument] } rest
  | "--attr" :: argument :: rest => do
    readArguments pipeline { i with attrs := i.attrs ++ [← keyValue "--attr" argument] } rest
  | argument :: rest =>
    if argument = "-h" ∨ argument = "--help" then .error usage
    else if pipeline.isNone then readArguments (some argument) i rest
    else readArguments pipeline { i with inputs := i.inputs ++ [argument] } rest

def parse (arguments : List String) : Except String Invocation :=
  readArguments none ⟨"", none, [], [], []⟩ arguments

end Invocation

end Sluice
