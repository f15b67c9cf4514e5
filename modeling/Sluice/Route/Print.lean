import Sluice.Route.Element

set_option autoImplicit false

namespace Sluice.Route

structure Line where
  depth : Nat
  text : String

def mapFirst {α : Type} (f : α → α) : List α → List α
  | [] => []
  | x :: rest => f x :: rest

def mapLast {α : Type} (f : α → α) (items : List α) : List α :=
  (mapFirst f items.reverse).reverse

def enclose (lines : List Line) : List Line :=
  mapLast (fun line => { line with text := line.text ++ ")" })
    (mapFirst (fun line => { line with text := "(" ++ line.text }) lines)

mutual

def lines (depth : Nat) : Element → List Line
  | .stage reference => [⟨depth, reference⟩]
  | .branch inner => enclose (linesOf (depth + 1) inner)

def linesOf (depth : Nat) : List Element → List Line
  | [] => []
  | element :: rest => lines depth element ++ linesOf depth rest

end

def Line.indented (line : Line) : String :=
  String.ofList (List.replicate (4 * line.depth) ' ') ++ line.text

def pretty (route : List Element) : List String := (linesOf 0 route).map Line.indented

mutual

def word : Element → String
  | .stage reference => reference
  | .branch inner => "(" ++ " ".intercalate (words inner) ++ ")"

def words : List Element → List String
  | [] => []
  | element :: rest => word element :: words rest

end

def oneLine (route : List Element) : String := " ".intercalate (words route)

def prettyPrint (text : String) : Except RouteError (List String) := (read text).map pretty

def render (text : String) : Except RouteError String := (read text).map oneLine

end Sluice.Route
