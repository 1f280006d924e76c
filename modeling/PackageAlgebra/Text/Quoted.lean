import PackageAlgebra.Text.Printable

/-!
# Quoted Text

How a message shows a name so that its limits and its odd characters can be
seen.

A text is set between apostrophes, or between double quotes when it holds an
apostrophe and no double quote. The backslash, the quote in use and the
characters that would not show are written as escapes.

## Main definitions

* `hexDigits`: A number in hexadecimal, padded to a width.
* `quote`: A text between quotes, with escapes.
* `quoteAscii`: The same, with every character above 127 escaped as well.
-/

namespace PackageAlgebra.Text

/-- The lower-case hexadecimal digits of a number, at least as many as asked
    for. -/
def hexDigits (width n : Nat) : List Char :=
  let digits := Nat.toDigits 16 n
  List.replicate (width - digits.length) '0' ++ digits

/-- The escape that names a character by its code point. -/
def codeEscape (c : Char) : List Char :=
  let n := c.toNat
  if n < 0x100 then '\\' :: 'x' :: hexDigits 2 n
  else if n < 0x10000 then '\\' :: 'u' :: hexDigits 4 n
  else '\\' :: 'U' :: hexDigits 8 n

/-- The quote that a text is set in. -/
def quoteMark (cs : List Char) : Char :=
  if cs.contains '\'' && !cs.contains '"' then '"' else '\''

/-- A character inside quotes, `shown` telling which characters stand for
    themselves. -/
def quoteChar (shown : Char → Bool) (mark c : Char) : List Char :=
  if c = mark || c = '\\' then ['\\', c]
  else if c = '\n' then ['\\', 'n']
  else if c = '\r' then ['\\', 'r']
  else if c = '\t' then ['\\', 't']
  else if shown c then [c]
  else codeEscape c

/-- A text between quotes, `shown` telling which characters stand for
    themselves. -/
def quoteWith (shown : Char → Bool) (s : String) : String :=
  let cs := s.toList
  let mark := quoteMark cs
  String.ofList (mark :: cs.flatMap (quoteChar shown mark) ++ [mark])

/-- A text between quotes, with escapes for what would not show. -/
def quote (s : String) : String :=
  quoteWith (fun c => if c.toNat < 128 then 32 ≤ c.toNat && c.toNat < 127 else isPrintable c) s

/-- A text between quotes, with escapes for what would not show and for every
    character above 127. -/
def quoteAscii (s : String) : String := quoteWith (fun c => 32 ≤ c.toNat && c.toNat < 127) s

end PackageAlgebra.Text
