import Sluice.Route.Place

set_option autoImplicit false

namespace Sluice

inductive ConfigError where
  | route (error : Route.RouteError)
  | unknownType (stage typeName : String)
  | duplicateType (typeName : String)
  | missingParameter (stage parameter typeName : String)
  | conflictingValue (stage parameter existing attempted : String)
  | tooManyValues (stage typeName : String) (given declared : Nat)
  | undeclaredParameter (stage parameter typeName : String)
  | duplicateParameter (stage parameter : String)
  | notLowerCase (name : String)
  | unresolvedSubstitution (stage parameter reference : String)
  | unresolvedEnvironment (stage parameter name : String)
  | unknownStage (path : String)
  | nestingTooDeep (typeName : String) (depth : Nat)
  | invalidValue (stage parameter reason : String)
  | invalidConfig (reason : String)
  | unreadable (path reason : String)
  | unparsable (path reason : String)
  deriving DecidableEq, Repr

def ConfigError.message : ConfigError → String
  | .route error => error.message
  | .unknownType stage typeName =>
    s!"Stage '{stage}': no stage type or sub-graph named '{typeName}' is registered"
  | .duplicateType typeName => s!"Type '{typeName}' is already registered"
  | .missingParameter stage parameter typeName =>
    s!"Stage '{stage}' (type '{typeName}'): essential parameter '{parameter}' is not bound"
  | .conflictingValue stage parameter existing attempted =>
    s!"Stage '{stage}': parameter '{parameter}' already bound to {existing}, " ++
      s!"cannot rebind to {attempted}"
  | .tooManyValues stage typeName given declared =>
    s!"Stage '{stage}' (type '{typeName}'): {given} route values given but only {declared} " ++
      "parameters declared"
  | .undeclaredParameter stage parameter typeName =>
    s!"Stage '{stage}' (type '{typeName}'): parameter '{parameter}' is not declared"
  | .duplicateParameter stage parameter =>
    s!"Stage '{stage}': parameter '{parameter}' is declared more than once"
  | .notLowerCase name => s!"Name '{name}' must be lower-case"
  | .unresolvedSubstitution stage parameter reference =>
    s!"Stage '{stage}': parameter '{parameter}' references '$" ++ "\x7b" ++ reference ++ "\x7d" ++
      "' which the enclosing graph does not bind"
  | .unresolvedEnvironment stage parameter name =>
    s!"Stage '{stage}': parameter '{parameter}' references environment variable '{name}' " ++
      "which is not set"
  | .unknownStage path => s!"No stage at path '{path}'"
  | .nestingTooDeep typeName depth =>
    s!"Sub-graph '{typeName}' nests deeper than {depth} levels"
  | .invalidValue stage parameter reason =>
    s!"Stage '{stage}': invalid value for '{parameter}': {reason}"
  | .invalidConfig reason => s!"Invalid configuration: {reason}"
  | .unreadable path reason => s!"Failed to read '{path}': {reason}"
  | .unparsable path reason => s!"Failed to parse '{path}': {reason}"

inductive RoutingError where
  | noFanOut (stage : String)
  | missingBranch (stage : String)
  | feederWithoutBuffer (stage : String) (successor : Option String)
  | stageClosed (stage : String)
  deriving DecidableEq, Repr

def RoutingError.message : RoutingError → String
  | .noFanOut stage =>
    s!"Stage '{stage}' forwarded to its branch but its successor is not a fan-out"
  | .missingBranch stage => s!"Fan-out '{stage}' received a branch unit but has no branch"
  | .feederWithoutBuffer stage successor =>
    let found := successor.getD "nothing"
    s!"Feeder '{stage}' must be followed by a tank_queue, found {found}"
  | .stageClosed stage => s!"Stage '{stage}' is closed"

/-- A message that is not well formed or that its stage does not take. -/
inductive MessageError where
  | emptyDestination
  | emptyVerb
  | unrecognised (stage verb : String)
  | unknownParameter (stage parameter : String)
  | malformed (stage verb reason : String)
  deriving DecidableEq, Repr

def MessageError.message : MessageError → String
  | .emptyDestination => "Message destination is empty"
  | .emptyVerb => "Message verb is empty"
  | .unrecognised stage verb => s!"Stage '{stage}' does not understand verb '{verb}'"
  | .unknownParameter stage parameter => s!"Stage '{stage}' has no parameter '{parameter}'"
  | .malformed stage verb reason => s!"Stage '{stage}': malformed '{verb}' message: {reason}"

inductive EngineError where
  | config (error : ConfigError)
  | routing (error : RoutingError)
  | data (stage reason : String)
  | message (error : MessageError)
  | reentrancy (stage : String)
  deriving DecidableEq, Repr

def EngineError.text : EngineError → String
  | .config error => error.message
  | .routing error => error.message
  | .data stage reason => s!"Stage '{stage}' failed: {reason}"
  | .message error => error.message
  | .reentrancy stage => s!"Stage '{stage}' re-entered while processing"

end Sluice
