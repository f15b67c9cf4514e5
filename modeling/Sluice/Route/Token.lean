import Sluice.Route.Place

set_option autoImplicit false

namespace Sluice.Route

inductive Token where
  | name (text : String)
  | opening
  | closing
  deriving DecidableEq, Repr

structure Placed where
  token : Token
  place : Place
  deriving DecidableEq, Repr

def startsName (c : Char) : Bool := c.isAlpha || c == '_'

def continuesName (c : Char) : Bool :=
  c.isAlphanum || c == '_' || c == '.' || c == ':' || c == '-' || c == '$' ||
    c.toNat == 0x7B || c.toNat == 0x7D

def separates (c : Char) : Bool := c == '\n' || c == ' ' || c == '\t' || c == '\r'

inductive Mode where
  | between
  | comment
  | naming (place : Place) (letters : List Char)

structure Scan where
  tokens : List Placed
  mode : Mode
  place : Place

namespace Scan

def start : Scan := ⟨[], .between, .start⟩

def closed (s : Scan) : List Placed :=
  match s.mode with
  | .naming place letters => ⟨.name (String.ofList letters.reverse), place⟩ :: s.tokens
  | _ => s.tokens

def begin (tokens : List Placed) (place : Place) (c : Char) : Except RouteError Scan :=
  let next := place.after c
  if separates c then .ok ⟨tokens, .between, next⟩
  else if c = '#' then .ok ⟨tokens, .comment, next⟩
  else if c = '(' then .ok ⟨⟨.opening, place⟩ :: tokens, .between, next⟩
  else if c = ')' then .ok ⟨⟨.closing, place⟩ :: tokens, .between, next⟩
  else if startsName c then .ok ⟨tokens, .naming place [c], next⟩
  else .error (.illegalCharacter c place)

def step (s : Scan) (c : Char) : Except RouteError Scan :=
  match s.mode with
  | .between => begin s.tokens s.place c
  | .comment =>
    .ok ⟨s.tokens, if c = '\n' then .between else .comment, s.place.after c⟩
  | .naming place letters =>
    if continuesName c then .ok ⟨s.tokens, .naming place (c :: letters), s.place.after c⟩
    else begin s.closed s.place c

end Scan

structure Lexed where
  tokens : List Placed
  ending : Place

def lex (text : String) : Except RouteError Lexed :=
  (text.toList.foldlM Scan.step Scan.start).map fun s => ⟨s.closed.reverse, s.place⟩

end Sluice.Route
