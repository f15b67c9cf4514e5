import Sluice.Config.Yaml.Cursor
import Sluice.Literal
import Sluice.Text.Utf8

set_option autoImplicit false

namespace Sluice.Yaml.Tag

def isWordLetter (c : Char) : Bool := c.isAlphanum || c == '_' || c == '-'

def word (text : List Char) : List Char × List Char := text.span isWordLetter

def isUriLetter (wide : Bool) (c : Char) : Bool :=
  isWordLetter c || ";/?:@&=+$.!~*'()".toList.contains c ||
    (wide && (c == ',' || c == '[' || c == ']'))

def uriBytes (wide : Bool) : List Char → Option (List UInt8 × List Char)
  | '%' :: a :: b :: rest => do
    let n ← Literal.readNat 16 [a, b]
    let (bytes, rest) ← uriBytes wide rest
    return (UInt8.ofNat n :: bytes, rest)
  | c :: rest =>
    if c == '%' then none
    else if isUriLetter wide c then do
      let (bytes, rest) ← uriBytes wide rest
      return (Text.encode (String.singleton c) ++ bytes, rest)
    else some ([], c :: rest)
  | [] => some ([], [])

def uri (wide : Bool) (text : List Char) : Option (String × List Char) := do
  let (bytes, rest) ← uriBytes wide text
  match Text.decode? bytes with
  | .ok s => some (s, rest)
  | .error _ => none

def endsTag (flow : Bool) : List Char → Bool
  | [] => true
  | c :: _ => isGap c || (flow && c == ',')

def scan (flow : Bool) (text : List Char) : Option ((String × String) × List Char) := do
  let (tag, rest) ← match text with
    | '<' :: rest =>
      match ← uri true rest with
      | (name, '>' :: rest) => if name = "" then none else some (("", name), rest)
      | _ => none
    | _ =>
      let (name, rest) := word text
      match rest with
      | '!' :: rest => do
        let (suffix, rest) ← uri false rest
        if suffix = "" then none
        else some (("!" ++ String.ofList name ++ "!", suffix), rest)
      | _ => do
        let (more, rest) ← uri false rest
        let suffix := String.ofList name ++ more
        some ((if suffix = "" then ("", "!") else ("!", suffix)), rest)
  if endsTag flow rest then some (tag, rest) else none

def endsAnchor : List Char → Bool
  | [] => true
  | c :: _ => isGap c || "?:,]\x7d%@\x60".toList.contains c

def scanAnchor (text : List Char) : Option (String × List Char) :=
  let (name, rest) := word text
  if name.isEmpty || !endsAnchor rest then none else some (String.ofList name, rest)

end Sluice.Yaml.Tag
