import Sluice.Double

set_option autoImplicit false

namespace Sluice.Double

/-- Three numbers over one denominator: a value between the two ends of the reals that round to
it. -/
structure Bracket where
  low : Nat
  value : Nat
  high : Nat
  den : Nat

/-- The bracket of a magnitude above zero: its ends lie halfway to the two neighbours. -/
def bracket (magnitude : Nat) : Bracket :=
  let unit := exponent (magnitude - 1) - 1
  let scaled := fun m => significand m * Nat.pow 2 (exponent m - unit).toNat
  let v := scaled magnitude
  let up := Nat.pow 2 unit.toNat
  { low := (scaled (magnitude - 1) + v) / 2 * up
    value := v * up
    high := (v + scaled (magnitude + 1)) / 2 * up
    den := Nat.pow 2 (-unit).toNat }

def Bracket.inSteps (b : Bracket) (k : Int) : Bracket :=
  let up := Nat.pow 10 (-k).toNat
  ⟨b.low * up, b.value * up, b.high * up, b.den * Nat.pow 10 k.toNat⟩

def Bracket.holds (b : Bracket) (ends : Bool) (n : Nat) : Bool :=
  let n := n * b.den
  if ends then b.low ≤ n && n ≤ b.high else b.low < n && n < b.high

/-- The whole number of steps nearest to the value among its two neighbours in the bracket. -/
def Bracket.nearest? (b : Bracket) (ends : Bool) : Option Nat :=
  let n := b.value / b.den
  match b.holds ends n, b.holds ends (n + 1) with
  | true, true => some (if 2 * (b.value % b.den) ≤ b.den then n else n + 1)
  | true, false => some n
  | false, true => some (n + 1)
  | false, false => none

/-- The greatest `p` with `10 ^ p` at most the value, from an estimate that is off by one at
most. -/
def Bracket.leading (b : Bracket) : Int :=
  let reaches : Int → Bool := fun p =>
    b.den * Nat.pow 10 p.toNat ≤ b.value * Nat.pow 10 (-p).toNat
  let guess := Int.fdiv (((b.value.log2 : Int) - b.den.log2) * 30103) 100000
  if reaches (guess + 1) then guess + 1 else if reaches guess then guess else guess - 1

def search (b : Bracket) (ends : Bool) (leading : Int) : Nat → Nat → Nat × Int
  | _, 0 => (b.value / b.den, 0)
  | places, more + 1 =>
    let k := leading - places
    match (b.inSteps k).nearest? ends with
    | some n => (n, k)
    | none => search b ends leading (places + 1) more

/-- The fewest decimal digits that read back as the magnitude, and of those the nearest, as
`n * 10 ^ k`. Seventeen digits always do. -/
def shortest (magnitude : Nat) : Nat × Int :=
  let b := bracket magnitude
  search b (magnitude % 2 = 0) b.leading 0 17

def trimZeros : Nat → List Char → List Char
  | 0, digits => digits
  | most + 1, digits =>
    match digits.reverse with
    | '0' :: rest => trimZeros most rest.reverse
    | _ => digits

def decimal (magnitude : Nat) : List Char × Int :=
  let (n, k) := shortest magnitude
  let digits := Nat.toDigits 10 n
  (trimZeros (digits.length - 1) digits, digits.length - 1 + k)

/-- Numbers whose first digit stands from the fifth place after the point to the sixteenth before
it are written out, with a digit after the point; all others have an exponent. -/
def layout (digits : List Char) (e : Int) : List Char :=
  if e < -5 || 15 < e then
    let part := if digits.length ≤ 1 then [] else '.' :: digits.drop 1
    let mark := if e < 0 then '-' else '+'
    digits.take 1 ++ part ++ 'e' :: mark :: Nat.toDigits 10 e.natAbs
  else if e < 0 then
    '0' :: '.' :: (List.replicate (e.natAbs - 1) '0' ++ digits)
  else
    let places := e.toNat + 1
    let whole := digits.take places ++ List.replicate (places - digits.length) '0'
    let part := digits.drop places
    whole ++ '.' :: (if part.isEmpty then ['0'] else part)

def unsignedText (magnitude : Nat) : List Char :=
  if magnitude = 0 then ['0', '.', '0']
  else if magnitude = infinite then ['i', 'n', 'f']
  else let (digits, e) := decimal magnitude; layout digits e

def toText (x : Double) : String :=
  if x.isNaN then "NaN"
  else
    let digits := unsignedText x.magnitude
    String.ofList (if x.negative then '-' :: digits else digits)

end Sluice.Double
