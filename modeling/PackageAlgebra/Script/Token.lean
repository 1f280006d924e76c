import PackageAlgebra.Text.IdentifierChar

/-!
# Tokens of Module Source

What the source text of a module falls into before its structure is read.

Words and keywords are one kind of token; the parser tells them apart. A string
literal keeps its body as it was written, because what the body means depends on
its neighbours. The layout of the text is in the tokens as well: the ends of
logical lines, and where a block begins and ends.

## Main definitions

* `Literal`: A string literal.
* `Token`: A token.
* `keywords`: The words that are not names.
-/

namespace PackageAlgebra.Script

/-- A string literal. -/
structure Literal where
  -- Whether it stands for bytes.
  bytes : Bool
  -- Whether it has fields.
  formatted : Bool
  -- Whether backslashes stand for themselves.
  raw : Bool
  -- What stands between the quotes.
  body : List Char
  deriving DecidableEq

/-- A token of the source text of a module. -/
inductive Token
  -- A name or a keyword.
  | word (text : String)
  -- A number.
  | number (imaginary : Bool)
  -- A string literal.
  | literal (value : Literal)
  -- An operator, a bracket or a separator.
  | mark (text : String)
  -- The end of a logical line.
  | lineEnd
  -- The beginning of a block.
  | indent
  -- The end of a block.
  | dedent
  deriving DecidableEq

/-- The words that are not names. -/
def keywords : List String :=
  ["False", "None", "True", "and", "as", "assert", "async", "await", "break", "class",
    "continue", "def", "del", "elif", "else", "except", "finally", "for", "from", "global", "if",
    "import", "in", "is", "lambda", "nonlocal", "not", "or", "pass", "raise", "return", "try",
    "while", "with", "yield"]

/-- Whether a character may stand in a word before the word is looked at as a
    whole. -/
def isWordChar (c : Char) : Bool := c.isAlphanum || c = '_' || 128 ≤ c.toNat

/-- Whether characters make up a word. -/
def isWord : List Char → Bool
  | [] => false
  | c :: rest =>
    Text.beginsIdentifier c && rest.all Text.continuesIdentifier

end PackageAlgebra.Script
