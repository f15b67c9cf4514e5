import Sluice.Param.Table

set_option autoImplicit false

namespace Sluice.Reference

def occurs : List Char → Bool
  | '$' :: '\x7b' :: _ => true
  | _ :: rest => occurs rest
  | [] => false

def isMark (c : Char) : Bool := c == '$' || c == '\x7b' || c == '\x7d'

def whole? : List Char → Option String
  | '$' :: '\x7b' :: rest =>
    match rest.reverse with
    | '\x7d' :: name => if name.any isMark then none else some (String.ofList name.reverse)
    | _ => none
  | _ => none

/-- Puts values in place of references, from left to right. Within a reference, its name so far is
given, last letter first. A name that stands for nothing is an error, and so is what follows an
opening that is never closed. -/
def fill (lookup : String → Option Value) :
    Option (List Char) → List Char → Except String (List Char)
  | none, [] => .ok []
  | none, '$' :: '\x7b' :: rest => fill lookup (some []) rest
  | none, c :: rest => (fill lookup none rest).map (c :: ·)
  | some name, [] => .error (String.ofList name.reverse)
  | some name, '\x7d' :: rest =>
    let name := String.ofList name.reverse
    match lookup name with
    | some value => (fill lookup none rest).map (value.render.toList ++ ·)
    | none => .error name
  | some name, c :: rest => fill lookup (some (c :: name)) rest

/-- What a text with references stands for. A text that is one reference takes on the value as it
is, and any other is read as a literal once it is filled in. -/
def substitute (lookup : String → Option Value) (text : String) : Except String Value :=
  match whole? text.toList with
  | some name =>
    match lookup name with
    | some value => .ok value
    | none => .error name
  | none => (fill lookup none text.toList).map fun filled => Literal.convert (String.ofList filled)

def resolve (enclosing : ParamTable) (stage parameter : String) (value : Value) :
    Except ConfigError Value :=
  match value with
  | .text text =>
    if occurs text.toList then
      (substitute enclosing.get? text).mapError (.unresolvedSubstitution stage parameter)
    else .ok value
  | _ => .ok value

end Sluice.Reference
