import PackageAlgebra.Document.Basic
import PackageAlgebra.Text.Pieces
import PackageAlgebra.Text.Quoted

/-!
# Printing Documents

The text of a document, indented by two blanks a level.

Two forms are printed. One shows every character that is not a control
character; the other keeps to ASCII and spells all further characters as
escapes, those beyond the basic plane as surrogate pairs.

## Main definitions

* `Document.quoted`: A text between quotes.
* `Document.print`: The text of a document.
-/

namespace PackageAlgebra

namespace Document

/-- The escape of a code unit. -/
def unitEscape (n : Nat) : List Char := '\\' :: 'u' :: Text.hexDigits 4 n

/-- The escape of a character by its code units. -/
def charEscape (c : Char) : List Char :=
  let n := c.toNat
  if n < 0x10000 then unitEscape n
  else unitEscape (0xd800 + (n - 0x10000) / 0x400) ++ unitEscape (0xdc00 + (n - 0x10000) % 0x400)

/-- A character inside quotes. -/
def quotedChar (asciiOnly : Bool) (c : Char) : List Char :=
  if c = '"' ∨ c = '\\' then ['\\', c]
  else if c = '\n' then ['\\', 'n']
  else if c = '\r' then ['\\', 'r']
  else if c = '\t' then ['\\', 't']
  else if c = '\x08' then ['\\', 'b']
  else if c = '\x0c' then ['\\', 'f']
  else if c.toNat < 32 ∨ (asciiOnly ∧ 127 ≤ c.toNat) then charEscape c
  else [c]

/-- A text between quotes. -/
def quoted (asciiOnly : Bool) (s : String) : String :=
  String.ofList ('"' :: s.toList.flatMap (quotedChar asciiOnly) ++ ['"'])

/-- A line end and the indentation of a level. -/
def lineStart (level : Nat) : String := "\n" ++ String.ofList (List.replicate (2 * level) ' ')

/-- Parts between two marks, each on a line of its own. -/
def enclosed (opening closing : String) (level : Nat) (parts : List String) : String :=
  if parts.isEmpty then opening ++ closing
  else
    opening ++ Text.join "," (parts.map (lineStart (level + 1) ++ ·)) ++ lineStart level ++ closing

mutual

/-- The text of a document at a level. -/
def printAt (asciiOnly : Bool) (level : Nat) : Document → String
  | null => "null"
  | bool true => "true"
  | bool false => "false"
  | int n => Text.decimal n
  | real (.finite digits exponent) => Text.decimal digits ++ "e" ++ Text.decimal exponent
  | real .notFinite => "NaN"
  | text s => quoted asciiOnly s
  | list items => enclosed "[" "]" level (printItems asciiOnly (level + 1) items)
  | object fields => enclosed "\x7b" "\x7d" level (printFields asciiOnly (level + 1) fields)

/-- The texts of items at a level. -/
def printItems (asciiOnly : Bool) (level : Nat) : List Document → List String
  | [] => []
  | d :: rest => printAt asciiOnly level d :: printItems asciiOnly level rest

/-- The texts of fields at a level. -/
def printFields (asciiOnly : Bool) (level : Nat) : List (String × Document) → List String
  | [] => []
  | (name, d) :: rest =>
    (quoted asciiOnly name ++ ": " ++ printAt asciiOnly level d) ::
      printFields asciiOnly level rest

end

/-- The text of a document. -/
def print (asciiOnly : Bool) (d : Document) : String := printAt asciiOnly 0 d

end Document

end PackageAlgebra
