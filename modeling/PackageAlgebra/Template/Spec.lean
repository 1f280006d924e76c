import PackageAlgebra.Document.Basic
import PackageAlgebra.Template.Value

/-!
# Format Specifications

How a field of a template shows its value: alignment, sign, width, separators,
precision and type, in this order and each of them optional.

A text is cut to the precision and filled up to the width. A whole number is
written in the base of its type, grouped by separators, and filled up on either
side or between its sign and its digits; zeros that fill it up are grouped as
well. The types for rounded numbers take a whole number as the nearest binary
fraction with 53 bits.

## Main definitions

* `FormatSpec`: A specification.
* `FormatSpec.read`: The specification that a text spells.
* `formatText`, `formatInt`: A value under a specification.
-/

namespace PackageAlgebra

/-- Where a value stands among the characters that fill it up. -/
inductive Alignment
  -- At the left.
  | left
  -- At the right.
  | right
  -- In the middle.
  | center
  -- At the right, except for its sign.
  | afterSign
  deriving DecidableEq

/-- How a value is shown. -/
structure FormatSpec where
  -- What fills a value up.
  fill : Char := ' '
  -- Where the value stands.
  align : Alignment
  -- Which sign is shown for numbers that are not negative.
  sign : Option Char := none
  -- Whether a negative zero loses its sign.
  noNegativeZero : Bool := false
  -- Whether the alternate form is wanted.
  alternate : Bool := false
  -- How wide the value is at least.
  width : Option Nat := none
  -- What separates groups of digits.
  separator : Option Char := none
  -- How precise the value is, or how long.
  precision : Option Nat := none
  -- As what the value is shown.
  type : Char

namespace FormatSpec

/-- The alignment that a character stands for. -/
def alignment? (c : Char) : Option Alignment :=
  if c = '<' then some .left
  else if c = '>' then some .right
  else if c = '^' then some .center
  else if c = '=' then some .afterSign
  else none

/-- The largest width, precision or position. -/
def largest : Nat := Nat.pow 2 63 - 1

/-- The number that a text begins with, none if it begins with no digit. -/
def readNumber (cs : List Char) : Except TemplateError (Option Nat × List Char) :=
  let (ds, rest) := cs.span Char.isDigit
  let n := ds.foldl (fun n c => n * 10 + (c.toNat - '0'.toNat)) 0
  if ds.isEmpty then .ok (none, cs)
  else if largest < n then .error .tooManyDigits
  else .ok (some n, rest)

/-- Read a mark if the text begins with it. -/
def readMark (mark : Char) (cs : List Char) : Bool × List Char :=
  match cs with
  | c :: rest => if c = mark then (true, rest) else (false, cs)
  | [] => (false, [])

/-- Read fill and alignment, if they are given. -/
def readAlign (cs : List Char) : Option Char × Option Alignment × List Char :=
  match cs with
  | f :: a :: rest =>
    match alignment? a with
    | some align => (some f, some align, rest)
    | none =>
      match alignment? f with
      | some align => (none, some align, a :: rest)
      | none => (none, none, cs)
  | [a] =>
    match alignment? a with
    | some align => (none, some align, [])
    | none => (none, none, cs)
  | [] => (none, none, [])

/-- Read a sign, if one is given. -/
def readSign (cs : List Char) : Option Char × List Char :=
  match cs with
  | c :: rest => if c = ' ' ∨ c = '+' ∨ c = '-' then (some c, rest) else (none, cs)
  | [] => (none, [])

/-- Read a separator of groups, if one is given. -/
def readSeparator (cs : List Char) : Except TemplateError (Option Char × List Char) :=
  let (comma, cs) := readMark ',' cs
  let (underscore, cs) := readMark '_' cs
  if underscore && (comma || (readMark ',' cs).1) then .error .bothSeparators
  else .ok (if comma then some ',' else if underscore then some '_' else none, cs)

/-- Read a precision, if one is given. -/
def readPrecision (cs : List Char) : Except TemplateError (Option Nat × List Char) :=
  match cs with
  | '.' :: rest => do
    match ← readNumber rest with
    | (none, _) => throw .missingPrecision
    | p => return p
  | cs => .ok (none, cs)

/-- Whether a separator of groups goes with a type. -/
def separatorFits (separator type : Char) : Bool :=
  ['d', 'e', 'f', 'g', 'E', 'G', '%', 'F'].contains type ||
    (separator = '_' && ['b', 'o', 'x', 'X'].contains type)

/-- The specification that a text spells, for a value of a type that is shown and
    aligned by default as given. -/
def read (typeName : String) (type : Char) (align : Alignment) (spec : List Char) :
    Except TemplateError FormatSpec := do
  let (fill, given, cs) := readAlign spec
  let (sign, cs) := readSign cs
  let (noNegativeZero, cs) := readMark 'z' cs
  let (alternate, cs) := readMark '#' cs
  let (zero, cs) := if fill.isNone then readMark '0' cs else (false, cs)
  let (width, cs) ← readNumber cs
  let (separator, cs) ← readSeparator cs
  let (precision, cs) ← readPrecision cs
  let type ← match cs with
    | [] => pure type
    | [c] => pure c
    | _ => throw (.invalidSpec (String.ofList spec) typeName)
  let padding := if zero && align = .right then .afterSign else align
  match separator with
  | some s => if !separatorFits s type then throw (.separatorType s type)
  | none => pure ()
  return {
    fill := if zero then '0' else fill.getD ' '
    align := given.getD padding
    sign, noNegativeZero, alternate, width, separator, precision, type }

/-- Fill characters up to the width, `after` telling how many of them are the
    sign. -/
def pad (spec : FormatSpec) (after : Nat) (cs : List Char) : List Char :=
  let missing := spec.width.getD 0 - cs.length
  let filled (n : Nat) := List.replicate n spec.fill
  match spec.align with
  | .left => cs ++ filled missing
  | .right => filled missing ++ cs
  | .center => filled (missing / 2) ++ cs ++ filled (missing - missing / 2)
  | .afterSign => cs.take after ++ filled missing ++ cs.drop after

/-- The size of the groups of digits. -/
def groupSize (spec : FormatSpec) : Nat :=
  if ['b', 'o', 'x', 'X'].contains spec.type then 4 else 3

/-- Digits in groups, given from the last to the first with the digits that are
    left of the group being written. -/
def groupReversed (size : Nat) (separator : Char) : Nat → List Char → List Char
  | _, [] => []
  | 0, d :: rest => separator :: d :: groupReversed size separator (size - 1) rest
  | room + 1, d :: rest => d :: groupReversed size separator room rest

/-- How many digits it takes at least to fill a width when they are grouped. -/
def digitsForWidth (size width : Nat) : Nat := width - (width - 1) / (size + 1)

/-- Digits, filled up with zeros to a width and grouped. -/
def groupDigits (spec : FormatSpec) (width : Nat) (digits : List Char) : List Char :=
  match spec.separator with
  | none => List.replicate (width - digits.length) '0' ++ digits
  | some separator =>
    let size := spec.groupSize
    let missing := digitsForWidth size width - digits.length
    (groupReversed size separator size
      (List.replicate missing '0' ++ digits).reverse).reverse

/-- The sign of a number. -/
def signOf (spec : FormatSpec) (negative : Bool) : List Char :=
  if negative then ['-']
  else match spec.sign with
    | some '+' => ['+']
    | some ' ' => [' ']
    | _ => []

/-- A number from its parts: its base mark, its digits and what follows them. -/
def assemble (spec : FormatSpec) (negative : Bool) (mark digits after : List Char) :
    List Char :=
  let sign := spec.signOf negative
  let taken := sign.length + mark.length + after.length
  let width := if spec.fill = '0' ∧ spec.align = .afterSign then spec.width.getD 0 - taken else 0
  let grouped := if digits.isEmpty then [] else spec.groupDigits width digits
  spec.pad (sign.length + mark.length) (sign ++ mark ++ grouped ++ after)

/-- A text under a specification. -/
def formatText (spec : FormatSpec) (s : String) : Except TemplateError String :=
  if spec.type ≠ 's' then .error (.unknownType spec.type "str")
  else if spec.sign.isSome then .error (.signOfText (spec.sign = some ' '))
  else if spec.noNegativeZero then .error .zeroOfText
  else if spec.alternate then .error .alternateText
  else if spec.align = .afterSign then .error .alignOfText
  else
    let cs := match spec.precision with
      | some p => s.toList.take p
      | none => s.toList
    .ok (String.ofList (spec.pad 0 cs))

/-- A whole number as the character with that number. -/
def formatChar (spec : FormatSpec) (n : Int) : Except TemplateError String :=
  if spec.sign.isSome then .error .signOfChar
  else if spec.alternate then .error .alternateChar
  else if n < -(Int.pow 2 63) ∨ Int.pow 2 63 ≤ n then .error .wordRange
  else if n < 0 ∨ 0x10ffff < n then .error .charRange
  else .ok (String.ofList (spec.assemble false [] [] [Char.ofNat n.toNat]))

/-- A whole number in the base of its type. -/
def formatBase (spec : FormatSpec) (n : Int) : String :=
  let base := if spec.type = 'b' then 2 else if spec.type = 'o' then 8
    else if spec.type = 'x' ∨ spec.type = 'X' then 16 else 10
  let upper (cs : List Char) := if spec.type = 'X' then cs.map Char.toUpper else cs
  let mark := if spec.alternate && base ≠ 10 then ['0', spec.type] else []
  String.ofList (spec.assemble (n < 0) mark (upper (Nat.toDigits base n.natAbs)) [])

/-- The first digits of a number, rounded to the nearest, and the power of ten of
    the first one. -/
def leadingDigits (count n : Nat) : List Char × Nat :=
  let ds := Nat.toDigits 10 n
  if ds.length ≤ count then (ds ++ List.replicate (count - ds.length) '0', ds.length - 1)
  else
    let rounded := Nat.toDigits 10 (Numeral.roundQuotient n (Nat.pow 10 (ds.length - count)))
    if rounded.length ≤ count then (rounded, ds.length - 1) else (rounded.take count, ds.length)

/-- The exponent of a number, with at least two digits. -/
def exponentText (letter : Char) (e : Nat) : List Char :=
  let ds := Nat.toDigits 10 e
  letter :: '+' :: (List.replicate (2 - ds.length) '0' ++ ds)

/-- A list of digits without the zeros at its end. -/
def dropLastZeros (ds : List Char) : List Char := (ds.reverse.dropWhile (· = '0')).reverse

/-- A point and the digits after it; no point without digits unless the alternate
    form is wanted. -/
def pointed (spec : FormatSpec) (ds : List Char) : List Char :=
  if ds.isEmpty && !spec.alternate then [] else '.' :: ds

/-- A whole number that is a binary fraction with 53 bits, in the form of its
    type: digits before the point, and what follows them. -/
def roundedParts (spec : FormatSpec) (n : Nat) : List Char × List Char :=
  let p := spec.precision.getD 6
  let letter := if spec.type = 'E' ∨ spec.type = 'G' then 'E' else 'e'
  if spec.type = 'e' ∨ spec.type = 'E' then
    let (ds, e) := leadingDigits (p + 1) n
    (ds.take 1, spec.pointed (ds.drop 1) ++ exponentText letter e)
  else if spec.type = 'g' ∨ spec.type = 'G' then
    let p := max p 1
    let (ds, e) := leadingDigits p n
    let kept (ds : List Char) := if spec.alternate then ds else dropLastZeros ds
    if e < p then (ds.take (e + 1), spec.pointed (kept (ds.drop (e + 1))))
    else (ds.take 1, spec.pointed (kept (ds.drop 1)) ++ exponentText letter e)
  else
    (Nat.toDigits 10 n,
      spec.pointed (List.replicate p '0') ++ if spec.type = '%' then ['%'] else [])

/-- A whole number as a rounded one. -/
def formatRounded (spec : FormatSpec) (n : Int) : Except TemplateError String :=
  let limit := Nat.pow 2 1024
  let nearest (m : Nat) : Nat := (Numeral.wholeQuotient? m 1).getD m
  let m := nearest n.natAbs
  let shown := if spec.type = '%' then nearest (100 * m) else m
  if limit ≤ m then .error .floatRange
  else if limit ≤ shown then
    .ok (String.ofList (spec.assemble (n < 0) [] [] "inf%".toList))
  else
    let (digits, after) := spec.roundedParts shown
    .ok (String.ofList (spec.assemble (n < 0) [] digits after))

/-- A whole number under a specification. -/
def formatInt (spec : FormatSpec) (n : Int) : Except TemplateError String :=
  if ['e', 'E', 'f', 'F', 'g', 'G', '%'].contains spec.type then spec.formatRounded n
  else if !(['b', 'c', 'd', 'o', 'x', 'X', 'n'].contains spec.type) then
    .error (.unknownType spec.type "int")
  else if spec.precision.isSome then .error .precisionOfInt
  else if spec.noNegativeZero then .error .zeroOfInt
  else if spec.type = 'c' then spec.formatChar n
  else .ok (spec.formatBase n)

end FormatSpec

/-- A value under the specification that a text spells. -/
def TemplateValue.format (v : TemplateValue) (spec : List Char) : Except TemplateError String :=
  if spec.isEmpty then .ok v.shown
  else
    match v with
    | .text s => do (← FormatSpec.read "str" 's' .left spec).formatText s
    | .number n => do (← FormatSpec.read "int" 'd' .right spec).formatInt n
    | v => .error (.noSpec v.typeName)

end PackageAlgebra
