import Sluice.Param.Table

set_option autoImplicit false

namespace Sluice

/-- Sets something up from bound parameters. What was set before a failure stays set. -/
abbrev Configuring (α : Type) : Type → Type := ExceptT ConfigError (StateM α)

namespace Configuring

variable {α β : Type}

def get (value : Except ConfigError β) : Configuring α β :=
  match value with
  | .ok b => pure b
  | .error e => throw e

def nothing : Configuring α Unit := pure ()

def part (put : α → β) (a : α) (c : Configuring α Unit) : Configuring β Unit := do
  let (result, a) := StateT.run (ExceptT.run c) a
  set (put a)
  get result

def run (c : Configuring α Unit) (a : α) : Except ConfigError Unit × α :=
  StateT.run (ExceptT.run c) a

end Configuring

end Sluice
