import Sluice.Config.Pipeline
import Sluice.Report
import Sluice.Text.Blank
import Sluice.Text.Case

set_option autoImplicit false

namespace Sluice.Pipeline

def typeProblem (p : Pipeline) : List ConfigError :=
  if Text.isAllBlank p.typeName then [.invalidConfig "main.type must not be empty"]
  else if Text.isLowerCase p.typeName then []
  else [.notLowerCase p.typeName]

def descriptionProblem (p : Pipeline) : List ConfigError :=
  if Text.isAllBlank p.description then
    [.invalidConfig s!"pipeline '{p.typeName}' needs a description"]
  else []

def isBlankRoute (route : String) : Bool :=
  (Text.pieces '\n' route).all fun line => Text.isAllBlank (Text.before '#' line)

def routeProblem (p : Pipeline) : List ConfigError :=
  if isBlankRoute p.route then [.invalidConfig s!"pipeline '{p.typeName}' has an empty route"]
  else []

def sectionProblems (p : Pipeline) : List ConfigError :=
  (p.sections.keys.filter fun name => !Text.isLowerCase name).map ConfigError.notLowerCase

/-- What is wrong with a description by itself, in the order in which it is looked at. -/
def problems (p : Pipeline) : List ConfigError :=
  p.typeProblem ++ p.descriptionProblem ++ p.routeProblem ++ p.sectionProblems

def check (p : Pipeline) : Except ConfigError Unit :=
  match p.problems with
  | [] => .ok ()
  | problem :: _ => .error problem

def validate (p : Pipeline) : Reporting (Except ConfigError Unit) := do
  report (.validationStarted p.typeName p.sections.length)
  let result := p.check
  match result with
  | .ok _ => report (.validationCompleted p.typeName)
  | .error problem => report (.validationFailed p.typeName problem.message)
  return result

end Sluice.Pipeline
