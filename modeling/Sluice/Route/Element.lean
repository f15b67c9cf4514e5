import Sluice.Route.Token

set_option autoImplicit false

namespace Sluice.Route

/-- A route is a list of these: stage references as written, values included, and branches. -/
inductive Element where
  | stage (reference : String)
  | branch (inner : List Element)

namespace Element

instance : Inhabited Element := ⟨.branch []⟩

mutual

def tokens : Element → List Token
  | .stage reference => [.name reference]
  | .branch inner => .opening :: (tokensOf inner ++ [.closing])

def tokensOf : List Element → List Token
  | [] => []
  | element :: rest => element.tokens ++ tokensOf rest

end

end Element

/-- A branch being read: what stands before it, last first, and the place where it opened. -/
structure Frame where
  before : List Element
  opened : Place

/-- Reads tokens with the branches around them, innermost first, and the elements read since the
innermost opened, last first. -/
def parse (ending : Place) :
    List Frame → List Element → List Placed → Except RouteError (List Element)
  | [], current, [] => if current.isEmpty then .error (.emptyRoute ending) else .ok current.reverse
  | _ :: _, _, [] => .error (.unexpectedEnd ending)
  | frames, current, ⟨.name text, _⟩ :: rest =>
    parse ending frames (.stage text :: current) rest
  | frames, current, ⟨.opening, place⟩ :: rest =>
    match current with
    | [] => .error (.branchWithoutStage place)
    | .branch _ :: _ => .error (.adjacentBranches place)
    | .stage _ :: _ => parse ending (⟨current, place⟩ :: frames) [] rest
  | [], _, ⟨.closing, place⟩ :: _ => .error (.unexpectedToken ")" place)
  | ⟨before, opened⟩ :: frames, current, ⟨.closing, _⟩ :: rest =>
    if current.isEmpty then .error (.emptyBranch opened)
    else parse ending frames (.branch current.reverse :: before) rest

def read (text : String) : Except RouteError (List Element) := do
  let lexed ← lex text
  parse lexed.ending [] [] lexed.tokens

end Sluice.Route
