set_option autoImplicit false

namespace Sluice.Route

structure Place where
  line : Nat
  column : Nat
  deriving DecidableEq, Repr

namespace Place

def start : Place := ⟨1, 1⟩

def after (place : Place) (c : Char) : Place :=
  if c = '\n' then ⟨place.line + 1, 1⟩ else ⟨place.line, place.column + 1⟩

end Place

inductive RouteError where
  | illegalCharacter (c : Char) (place : Place)
  | unexpectedToken (token : String) (place : Place)
  | unexpectedEnd (place : Place)
  | emptyBranch (place : Place)
  | branchWithoutStage (place : Place)
  | adjacentBranches (place : Place)
  | emptyRoute (place : Place)
  deriving DecidableEq, Repr

namespace RouteError

def place : RouteError → Place
  | .illegalCharacter _ place | .unexpectedToken _ place | .unexpectedEnd place
  | .emptyBranch place | .branchWithoutStage place | .adjacentBranches place
  | .emptyRoute place => place

def spot (place : Place) : String := s!"line {place.line}, column {place.column}"

def message : RouteError → String
  | .illegalCharacter c p => s!"Illegal character '{c}' in route at {spot p}"
  | .unexpectedToken token p => s!"Unexpected token '{token}' in route at {spot p}"
  | .unexpectedEnd p => s!"Unexpected end of route at {spot p}: unmatched '('"
  | .emptyBranch p => s!"Empty branch '()' in route at {spot p}"
  | .branchWithoutStage p => s!"Branch without a preceding stage at {spot p}"
  | .adjacentBranches p => s!"Adjacent branches at {spot p}: a stage must separate them"
  | .emptyRoute p => s!"Empty route at {spot p}"

end RouteError

end Sluice.Route
