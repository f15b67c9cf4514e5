set_option autoImplicit false

namespace Sluice

/-- A binary64 number: its sign, and its other 63 bits read as a natural number, so that a larger
`magnitude` lies farther from zero. -/
structure Double where
  negative : Bool
  magnitude : Nat
  deriving DecidableEq, Repr

namespace Double

def normal : Nat := 0x10000000000000

def infinite : Nat := 2047 * normal

def zero : Double := ⟨false, 0⟩

def infinity (negative : Bool) : Double := ⟨negative, infinite⟩

def notANumber : Double := ⟨false, infinite + normal / 2⟩

def isFinite (x : Double) : Bool := x.magnitude < infinite

def isNaN (x : Double) : Bool := infinite < x.magnitude

def significand (magnitude : Nat) : Nat :=
  if magnitude < normal then magnitude else normal + magnitude % normal

def exponent (magnitude : Nat) : Int :=
  if magnitude < normal then -1074 else (magnitude / normal : Nat) - 1075

/-- The position in the order of all floating point numbers: `-0.0` before `0.0`, and the numbers
that are not one at the two ends. -/
def rank (x : Double) : Int := if x.negative then -(x.magnitude : Int) - 1 else x.magnitude

def order (x : Double) : Int := if x.negative then -(x.magnitude : Int) else x.magnitude

def equal (x y : Double) : Bool := !x.isNaN && !y.isNaN && x.order == y.order

def less (x y : Double) : Bool := !x.isNaN && !y.isNaN && decide (x.order < y.order)

def roundDiv (num den : Nat) : Nat :=
  let q := num / den
  let twice := 2 * (num % den)
  if twice < den then q else if den < twice then q + 1 else q + q % 2

/-- The exponent at which `num / den` has 53 binary digits, but never below that of the smallest
number. -/
def scale (num den : Nat) : Int :=
  let l : Int := num.log2 - den.log2
  let reaches :=
    if l < 0 then den ≤ num * Nat.pow 2 (-l).toNat else den * Nat.pow 2 l.toNat ≤ num
  max (-1074) (if reaches then l - 52 else l - 53)

def ofRatio (negative : Bool) (num den : Nat) : Double :=
  if num = 0 then ⟨negative, 0⟩
  else
    let e := scale num den
    let q :=
      if e < 0 then roundDiv (num * Nat.pow 2 (-e).toNat) den
      else roundDiv num (den * Nat.pow 2 e.toNat)
    ⟨negative, min infinite ((e + 1074).toNat * normal + q)⟩

def ofInt (n : Int) : Double := ofRatio (decide (n < 0)) n.natAbs 1

def toInt? (x : Double) : Option Int :=
  let m := significand x.magnitude
  let e := exponent x.magnitude
  let signed : Nat → Int := fun n => if x.negative then -(n : Int) else n
  if !x.isFinite then none
  else if 0 ≤ e then some (signed (m * Nat.pow 2 e.toNat))
  else if m % Nat.pow 2 (-e).toNat = 0 then some (signed (m / Nat.pow 2 (-e).toNat))
  else none

end Double

end Sluice
