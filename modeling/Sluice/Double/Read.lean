import Sluice.Double

set_option autoImplicit false

namespace Sluice.Double

def digitsValue (digits : List Char) : Nat :=
  digits.foldl (fun n c => 10 * n + (c.toNat - '0'.toNat)) 0

/-- The number nearest to `n * 10 ^ e`. Beyond 310 or before -330 places no power of ten is
computed, as the answer is known. -/
def ofDecimal (negative : Bool) (n : Nat) (e : Int) : Double :=
  let places : Int := (n.log2 * 30103 / 100000 : Nat) + e
  if n = 0 then ⟨negative, 0⟩
  else if 310 < places then infinity negative
  else if places < -330 then ⟨negative, 0⟩
  else if 0 ≤ e then ofRatio negative (n * Nat.pow 10 e.toNat) 1
  else ofRatio negative n (Nat.pow 10 (-e).toNat)

def readSign : List Char → Bool × List Char
  | '-' :: rest => (true, rest)
  | '+' :: rest => (false, rest)
  | text => (false, text)

def readExponent : List Char → Option Int
  | [] => some 0
  | c :: rest =>
    let (negative, digits) := readSign rest
    if (c = 'e' || c = 'E') && !digits.isEmpty && digits.all Char.isDigit then
      let n : Int := digitsValue digits
      some (if negative then -n else n)
    else none

def readNumeral (negative : Bool) (text : List Char) : Option Double :=
  let (whole, rest) := text.span Char.isDigit
  let (part, rest) := match rest with
    | '.' :: rest => rest.span Char.isDigit
    | rest => ([], rest)
  if whole.isEmpty && part.isEmpty then none
  else (readExponent rest).map fun e =>
    ofDecimal negative (digitsValue (whole ++ part)) (e - part.length)

/-- Reads `12`, `.5`, `5.`, `1.5e-3` and the words `inf`, `infinity` and `nan`, each after an
optional sign. -/
def read (text : String) : Option Double :=
  let (negative, rest) := readSign text.toList
  let word := String.ofList (rest.map Char.toLower)
  if word = "inf" || word = "infinity" then some (infinity negative)
  else if word = "nan" then some { notANumber with negative }
  else readNumeral negative rest

end Sluice.Double
