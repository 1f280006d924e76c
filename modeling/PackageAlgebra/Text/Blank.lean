import PackageAlgebra.Text.CharSet

/-!
# Blank Characters and Lines

Trimming a text at its ends and cutting it into lines.

Both use the full sets of Unicode 14: the blanks are the characters that
separate words in any script, and a line ends at any of the eleven line
boundaries, a carriage return and its line feed counting as one.

## Main definitions

* `isBlank`: Whether a character separates words.
* `trim`: A text without the blanks at its ends.
* `lines`: The lines of a text, without their ends.
* `words`: The words of a text.
* `evenLines`: A text whose lines all end in a line feed.
-/

namespace PackageAlgebra.Text

/-- The characters that separate words. -/
def blanks : CharSet := .ofRanges
  [(9, 13), (28, 32), (0x85, 0x85), (0xa0, 0xa0), (0x1680, 0x1680), (0x2000, 0x200a),
   (0x2028, 0x2029), (0x202f, 0x202f), (0x205f, 0x205f), (0x3000, 0x3000)]

/-- Whether a character separates words. -/
def isBlank (c : Char) : Bool := blanks.contains c

/-- A list of characters without those at its ends that pass a test. -/
def trimBoth (p : Char → Bool) (cs : List Char) : List Char :=
  ((cs.dropWhile p).reverse.dropWhile p).reverse

/-- A text without the blanks at its ends. -/
def trim (s : String) : String := String.ofList (trimBoth isBlank s.toList)

/-- Whether a line ends at the character. -/
def isLineEnd (c : Char) : Bool :=
  c = '\n' || c = '\r' || c = '\x0b' || c = '\x0c' || c = '\x1c' || c = '\x1d' || c = '\x1e' ||
    c = '\u0085' || c = '\u2028' || c = '\u2029'

/-- The lines of a text, the characters of the line being read given in
    reverse. A text that ends with a line end has no further line after it. -/
def lineChars (current : List Char) : List Char → List (List Char)
  | [] => if current.isEmpty then [] else [current.reverse]
  | '\r' :: '\n' :: rest => current.reverse :: lineChars [] rest
  | c :: rest =>
    if isLineEnd c then current.reverse :: lineChars [] rest else lineChars (c :: current) rest

/-- The lines of a text, without their ends. -/
def lines (s : String) : List String := (lineChars [] s.toList).map String.ofList

/-- The words of a text, the characters of the word being read given in reverse. -/
def wordChars (current : List Char) : List Char → List (List Char)
  | [] => if current.isEmpty then [] else [current.reverse]
  | c :: rest =>
    if isBlank c then
      if current.isEmpty then wordChars [] rest else current.reverse :: wordChars [] rest
    else wordChars (c :: current) rest

/-- The words of a text, without the blanks between them. -/
def words (s : String) : List String := (wordChars [] s.toList).map String.ofList

/-- A text whose lines all end in a line feed, not in a carriage return or in both. -/
def evenLines : List Char → List Char
  | [] => []
  | '\r' :: '\n' :: rest => '\n' :: evenLines rest
  | '\r' :: rest => '\n' :: evenLines rest
  | c :: rest => c :: evenLines rest

end PackageAlgebra.Text
