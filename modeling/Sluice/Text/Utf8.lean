set_option autoImplicit false

namespace Sluice.Text

def encode (text : String) : List UInt8 := text.toList.flatMap String.utf8EncodeChar

/-- The ranges in which the bytes after a first byte must lie, or `none` for a byte that starts no
character. -/
def tailRanges (first : UInt8) : Option (List (UInt8 × UInt8)) :=
  if first < 0x80 then some []
  else if first < 0xC2 then none
  else if first < 0xE0 then some [(0x80, 0xBF)]
  else if first == 0xE0 then some [(0xA0, 0xBF), (0x80, 0xBF)]
  else if first == 0xED then some [(0x80, 0x9F), (0x80, 0xBF)]
  else if first < 0xF0 then some [(0x80, 0xBF), (0x80, 0xBF)]
  else if first == 0xF0 then some [(0x90, 0xBF), (0x80, 0xBF), (0x80, 0xBF)]
  else if first < 0xF4 then some [(0x80, 0xBF), (0x80, 0xBF), (0x80, 0xBF)]
  else if first == 0xF4 then some [(0x80, 0x8F), (0x80, 0xBF), (0x80, 0xBF)]
  else none

inductive Tail where
  | fits (bytes rest : List UInt8)
  | breaks (bytes rest : List UInt8)
  | ends (bytes : List UInt8)

def Tail.push (b : UInt8) : Tail → Tail
  | .fits bytes rest => .fits (b :: bytes) rest
  | .breaks bytes rest => .breaks (b :: bytes) rest
  | .ends bytes => .ends (b :: bytes)

def readTail : List (UInt8 × UInt8) → List UInt8 → Tail
  | [], rest => .fits [] rest
  | _ :: _, [] => .ends []
  | (low, high) :: ranges, b :: rest =>
    if low ≤ b && b ≤ high then (readTail ranges rest).push b else .breaks [] (b :: rest)

def codePoint (first : UInt8) (tail : List UInt8) : Nat :=
  let lead := match tail.length with
    | 0 => first.toNat
    | 1 => first.toNat % 32
    | 2 => first.toNat % 16
    | _ => first.toNat % 8
  tail.foldl (fun n b => 64 * n + b.toNat % 64) lead

/-- Where and how bytes stop being UTF-8: after `index` good bytes, either `width` bytes that start
no character, or the end inside one. -/
structure Fault where
  index : Nat
  width : Option Nat
  deriving DecidableEq, Repr

def Fault.message (f : Fault) : String :=
  match f.width with
  | some width => s!"invalid utf-8 sequence of {width} bytes from index {f.index}"
  | none => s!"incomplete utf-8 byte sequence from index {f.index}"

inductive Piece where
  | char (c : Char) (size : Nat)
  | fault (width : Option Nat)

/-- Splits bytes into characters and the longest starts of characters that go wrong. The number
bounds the pieces; the number of bytes is enough. -/
def decodePieces : Nat → List UInt8 → List Piece
  | 0, _ => []
  | _ + 1, [] => []
  | most + 1, first :: rest =>
    match tailRanges first with
    | none => .fault (some 1) :: decodePieces most rest
    | some ranges =>
      match readTail ranges rest with
      | .fits tail rest =>
        .char (Char.ofNat (codePoint first tail)) (tail.length + 1) :: decodePieces most rest
      | .breaks tail rest => .fault (some (tail.length + 1)) :: decodePieces most rest
      | .ends _ => [.fault none]

def pieceChar : Piece → Char
  | .char c _ => c
  | .fault _ => Char.ofNat 0xFFFD

def decode (bytes : List UInt8) : String :=
  String.ofList ((decodePieces bytes.length bytes).map pieceChar)

def firstFault : Nat → List Piece → Option Fault
  | _, [] => none
  | index, .char _ size :: rest => firstFault (index + size) rest
  | index, .fault width :: _ => some ⟨index, width⟩

def decode? (bytes : List UInt8) : Except Fault String :=
  match firstFault 0 (decodePieces bytes.length bytes) with
  | some fault => .error fault
  | none => .ok (decode bytes)

end Sluice.Text
