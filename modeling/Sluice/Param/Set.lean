import Sluice.Literal
import Sluice.Text.Blank

set_option autoImplicit false

namespace Sluice

/-- A declared parameter; without a default it is essential. -/
structure ParamSpec where
  name : String
  default? : Option Value

namespace ParamSpec

def parse (key : String) : ParamSpec :=
  match Text.cut ':' key with
  | some (name, default) => ⟨Text.trim name, some (Literal.convert (Text.trim default))⟩
  | none => ⟨Text.trim key, none⟩

def isEssential (spec : ParamSpec) : Bool := spec.default?.isNone

def update (spec later : ParamSpec) : ParamSpec :=
  { spec with default? := later.default?.or spec.default? }

end ParamSpec

/-- Declared parameters in the order in which values on a route bind them. -/
structure ParamSet where
  specs : List ParamSpec

namespace ParamSet

def empty : ParamSet := ⟨[]⟩

instance : Inhabited ParamSet := ⟨empty⟩

def addSpec (later : ParamSpec) : List ParamSpec → List ParamSpec
  | [] => [later]
  | spec :: rest =>
    if spec.name = later.name then spec.update later :: rest else spec :: addSpec later rest

def add (set : ParamSet) (later : ParamSpec) : ParamSet := ⟨addSpec later set.specs⟩

def merge (set later : ParamSet) : ParamSet := later.specs.foldl add set

def parse (keys : List String) : ParamSet := (keys.map ParamSpec.parse).foldl add empty

def latestDefaults (sets : List ParamSet) : ParamSet := sets.foldl merge empty

def get? (set : ParamSet) (name : String) : Option ParamSpec :=
  set.specs.find? (fun spec => spec.name == name)

def declares (set : ParamSet) (name : String) : Bool := (set.get? name).isSome

def names (set : ParamSet) : List String := set.specs.map ParamSpec.name

def essentials (set : ParamSet) : List ParamSpec := set.specs.filter ParamSpec.isEssential

def size (set : ParamSet) : Nat := set.specs.length

end ParamSet

end Sluice
