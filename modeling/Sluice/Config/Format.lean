import Sluice.Config.Check
import Sluice.Config.Toml.Read
import Sluice.Config.Yaml.Decode

set_option autoImplicit false

namespace Sluice

inductive Format where
  | yaml
  | toml
  deriving DecidableEq, Repr

namespace Format

def name : Format → String
  | .yaml => "yaml"
  | .toml => "toml"

def fileName? (path : String) : Option String :=
  match ((Text.pieces '/' path).filter fun part => part != "" && part != ".").getLast? with
  | some ".." => none
  | last => last

def extension? (fileName : String) : Option String :=
  match (Text.pieces '.' fileName).reverse with
  | extension :: before =>
    if before.all (· == "") && before.length < 2 then none else some extension
  | [] => none

def ofPath (path : String) : Format :=
  match (fileName? path).bind extension? with
  | some extension => if Text.lowerAscii extension = "toml" then .toml else .yaml
  | none => .yaml

def parse {α : Type} (ofYaml : Yaml.Node → Option α) (ofDatum : Datum → Option α)
    (format : Format) (path text : String) : Except ConfigError α :=
  let found := match format with
    | .yaml => (Yaml.Node.read text).map ofYaml
    | .toml => (Toml.read text).map ofDatum
  match found with
  | some (some a) => .ok a
  | some none => .error (.unparsable path "a field is missing or of the wrong type")
  | none => .error (.unparsable path s!"not well-formed {format.name}")

end Format

def inlinePath : String := "<inline>"

abbrev Files := String → Except String String

namespace Files

def read (files : Files) (path : String) : Except ConfigError String :=
  (files path).mapError (.unreadable path)

end Files

namespace Pipeline

def parse : Format → String → String → Except ConfigError Pipeline :=
  Format.parse Yaml.Node.pipeline? Pipeline.ofDatum?

def load (files : Files) (path : String) : Except ConfigError Pipeline := do
  parse (.ofPath path) path (← files.read path)

def loadValid (files : Files) (path : String) : ExceptT ConfigError Reporting Pipeline := do
  let p ← ExceptT.mk (pure (load files path))
  ExceptT.mk p.validate
  return p

end Pipeline

namespace Library

def parse : Format → String → String → Except ConfigError Library :=
  Format.parse Yaml.Node.library? Library.ofDatum?

def validateAll : List Pipeline → ExceptT ConfigError Reporting Unit
  | [] => pure ()
  | p :: rest => do
    ExceptT.mk p.validate
    validateAll rest

def load (files : Files) (path : String) : ExceptT ConfigError Reporting Library := do
  let text ← ExceptT.mk (pure (files.read path))
  let library ← ExceptT.mk (pure (parse (.ofPath path) path text))
  validateAll library.pipelines
  return library

end Library

end Sluice
