/-!
# Documents

Data as texts exchange it: objects, lists, texts, numbers, truth values.

A whole number is kept exactly, whatever its size. A number written with a point
or an exponent is kept as it was written; what it is worth is the binary
fraction with 53 significant bits that lies nearest to it.

## Main definitions

* `Document`: A value.
* `Document.field?`: The value of a field; of two fields with one name the last.
* `Numeral`: A number written with a point or an exponent.
* `Numeral.whole?`: Its worth, if that is a whole number.
-/

namespace PackageAlgebra

/-- A number written with a point or an exponent. -/
inductive Numeral
  -- Some digits, moved by a power of ten.
  | finite (digits : Int) (exponent : Int)
  -- An infinite number, or none at all.
  | notFinite
  deriving DecidableEq

namespace Numeral

/-- A quotient rounded to the nearest whole number, a half going to the even
    neighbour. -/
def roundQuotient (num den : Nat) : Nat :=
  let below := num / den
  let rest := 2 * (num % den)
  if rest < den then below
  else if den < rest then below + 1
  else below + below % 2

/-- The exponent of the last of the 53 bits that a quotient is given. -/
def lastBit (num den : Nat) : Int :=
  let estimate : Int := (num.log2 : Int) - den.log2 - 52
  let short : Bool :=
    if 0 ≤ estimate then num < Nat.pow 2 52 * den * Nat.pow 2 estimate.toNat
    else num * Nat.pow 2 (-estimate).toNat < Nat.pow 2 52 * den
  max (if short then estimate - 1 else estimate) (-1074)

/-- The nearest binary fraction with 53 bits, as a whole number and a power of
    two. -/
def nearestBinary (num den : Nat) : Nat × Int :=
  let q := lastBit num den
  (if 0 ≤ q then roundQuotient num (den * Nat.pow 2 q.toNat)
    else roundQuotient (num * Nat.pow 2 (-q).toNat) den, q)

/-- The worth of a quotient, if that is a whole number. -/
def wholeQuotient? (num den : Nat) : Option Nat :=
  let (m, q) := nearestBinary num den
  if 0 ≤ q then some (m * Nat.pow 2 q.toNat)
  else if m % Nat.pow 2 (-q).toNat = 0 then some (m / Nat.pow 2 (-q).toNat)
  else none

/-- How many decimal digits a number has. -/
def digitCount (n : Nat) : Nat := (Nat.toDigits 10 n).length

/-- What a number is worth. -/
inductive Worth
  -- A whole number.
  | whole (n : Int)
  -- A number between two whole ones.
  | fraction
  -- No number that is finite.
  | infinite
  deriving DecidableEq

/-- What a number is worth. Numbers with more than 310 digits before the point are
    infinite; those with more than 400 zeros after it are zero. -/
def worth : Numeral → Worth
  | notFinite => .infinite
  | finite digits exponent =>
    let n := digits.natAbs
    let size : Int := digitCount n + exponent
    if n = 0 ∨ size < -400 then .whole 0
    else if 310 < size then .infinite
    else
      let (num, den) := if 0 ≤ exponent then (n * Nat.pow 10 exponent.toNat, 1)
        else (n, Nat.pow 10 (-exponent).toNat)
      match wholeQuotient? num den with
      | none => .fraction
      | some m =>
        if Nat.pow 2 1024 ≤ m then .infinite else .whole (if digits < 0 then -(m : Int) else m)

end Numeral

/-- A value. -/
inductive Document
  -- No value.
  | null
  -- A truth value.
  | bool (value : Bool)
  -- A whole number.
  | int (value : Int)
  -- A number written with a point or an exponent.
  | real (value : Numeral)
  -- A text.
  | text (value : String)
  -- A list.
  | list (items : List Document)
  -- Fields with their names.
  | object (fields : List (String × Document))
  deriving Inhabited

/-- The value of a field; of two fields with one name the last. -/
def Document.field? (fields : List (String × Document)) (name : String) : Option Document :=
  (fields.reverse.find? fun f => f.1 = name).map Prod.snd

end PackageAlgebra
