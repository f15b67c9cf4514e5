set_option autoImplicit false

namespace Sluice

inductive Edge where
  | branch
  | main
  deriving DecidableEq, Repr

def Edge.name : Edge → String
  | .branch => "Branch"
  | .main => "Main"

abbrev NodeId := Nat

end Sluice
