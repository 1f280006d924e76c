import PackageAlgebra.Script.Token

/-!
# Numbers of Module Source

Where a number literal ends, and whether it is well formed.

The value of a number means nothing to what is read from a module, so only its
extent is found. Digits may be grouped by single underscores. A whole number has at
most 4300 decimal digits, while one in another base has as many as it likes. A number
may be followed at once by a keyword that can come after one, but by no other word.

## Main definitions

* `endOfNumber`: The text after the number that it begins with.
-/

namespace PackageAlgebra.Script

/-- Whether a text may follow a number. -/
def mayFollowNumber (cs : List Char) : Bool :=
  match cs with
  | [] => true
  | c :: _ =>
    ["and", "else", "for", "if", "in", "is", "or"].any (·.toList.isPrefixOf cs) || !isWordChar c

/-- The text after digits of a kind and the groups that follow them, given the
    text after the first digit. -/
def afterDigits (isDigit : Char → Bool) : List Char → Option (List Char)
  | [] => some []
  | '_' :: c :: rest => if isDigit c then afterDigits isDigit rest else none
  | c :: rest =>
    if isDigit c then afterDigits isDigit rest else if c = '_' then none else some (c :: rest)

/-- End a number, which is imaginary if a letter says so. -/
def finishNumber (cs : List Char) : Option (Bool × List Char) :=
  match cs with
  | c :: rest =>
    if c = 'j' ∨ c = 'J' then if mayFollowNumber rest then some (true, rest) else none
    else if mayFollowNumber cs then some (false, cs) else none
  | [] => some (false, [])

/-- Read the exponent of a number, if it has one, and end the number. -/
def afterExponent (cs : List Char) : Option (Bool × List Char) :=
  match cs with
  | e :: rest =>
    if e = 'e' ∨ e = 'E' then
      match rest with
      | c :: rest' =>
        if c.isDigit then (afterDigits Char.isDigit rest').bind finishNumber
        else if c = '+' ∨ c = '-' then
          match rest' with
          | d :: rest'' =>
            if d.isDigit then (afterDigits Char.isDigit rest'').bind finishNumber else none
          | [] => none
        else if mayFollowNumber cs then some (false, cs) else none
      | [] => none
    else finishNumber cs
  | [] => some (false, [])

/-- Read the digits after the point of a number, and end the number. -/
def afterPoint (cs : List Char) : Option (Bool × List Char) :=
  match cs with
  | c :: rest =>
    if c.isDigit then (afterDigits Char.isDigit rest).bind afterExponent else afterExponent cs
  | [] => some (false, [])

/-- Read what follows the digits before the point of a number. -/
def afterWhole (cs : List Char) : Option (Bool × List Char) :=
  match cs with
  | '.' :: rest => afterPoint rest
  | cs => afterExponent cs

/-- A digit of a base. -/
def isBaseDigit (base : Nat) (c : Char) : Bool :=
  if base = 16 then c.isDigit || ('a' ≤ c && c ≤ 'f') || ('A' ≤ c && c ≤ 'F')
  else '0' ≤ c && c.toNat < '0'.toNat + base

/-- Read the digits of a number in a base. -/
def afterBase (base : Nat) (cs : List Char) : Option (Bool × List Char) :=
  let digits := match cs with
    | '_' :: rest => rest
    | cs => cs
  match digits with
  | c :: rest =>
    if isBaseDigit base c then
      match afterDigits (isBaseDigit base) rest with
      | none => none
      | some rest =>
        if rest.head?.any Char.isDigit || !mayFollowNumber rest then none else some (false, rest)
    else none
  | [] => none

/-- The text after zeros and the groups of zeros that follow them. -/
def afterZeros : List Char → Option (List Char)
  | [] => some []
  | '0' :: rest => afterZeros rest
  | '_' :: c :: rest => if c.isDigit then if c = '0' then afterZeros rest else some (c :: rest)
    else none
  | c :: rest => if c = '_' then none else some (c :: rest)

/-- Read a number that begins with a zero, given the text after the zero. Other
    digits may follow only if a point, an exponent or the letter of imaginary
    numbers comes after them. -/
def afterZero (cs : List Char) : Option (Bool × List Char) :=
  match cs with
  | c :: rest =>
    if c = 'x' ∨ c = 'X' then afterBase 16 rest
    else if c = 'o' ∨ c = 'O' then afterBase 8 rest
    else if c = 'b' ∨ c = 'B' then afterBase 2 rest
    else
      match afterZeros cs with
      | none => none
      | some (d :: rest) =>
        if d.isDigit then
          match afterDigits Char.isDigit rest with
          | some (e :: rest) =>
            if ['.', 'e', 'E', 'j', 'J'].contains e then afterWhole (e :: rest) else none
          | _ => none
        else afterWhole (d :: rest)
      | some [] => some (false, [])
  | [] => some (false, [])

/-- Whether a number begins here. -/
def beginsNumber (cs : List Char) : Bool :=
  match cs with
  | '.' :: c :: _ => c.isDigit
  | c :: _ => c.isDigit
  | [] => false

/-- The most digits that a whole number may have. -/
def wholeDigitLimit : Nat := 4300

/-- Whether digits before the point, with their groups, may be followed by a text. A number
    without a point, an exponent or the letter of imaginary numbers is whole. -/
def mayEndDigits (digits after : List Char) : Bool :=
  after.head?.any ['.', 'e', 'E', 'j', 'J'].contains ||
    decide ((digits.filter Char.isDigit).length ≤ wholeDigitLimit)

/-- The text after the number that it begins with, and whether the number is
    imaginary; none if the number is not well formed. -/
def endOfNumber (cs : List Char) : Option (Bool × List Char) :=
  match cs with
  | '.' :: rest => afterPoint rest
  | '0' :: rest => afterZero rest
  | _ :: rest => do
    let after ← afterDigits Char.isDigit rest
    if mayEndDigits (cs.takeWhile fun c => c.isDigit || c = '_') after then afterWhole after
    else none
  | [] => none

end PackageAlgebra.Script
