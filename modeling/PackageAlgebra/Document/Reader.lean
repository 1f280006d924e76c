import PackageAlgebra.Document.Basic

/-!
# Reading Documents

From the text of a document to its value.

The text is read from left to right. Blanks, tabs and line ends may stand
between any two marks. Numbers have no leading zeros and at most 4300 digits;
the words for infinity and for no number are numbers too. A text holds no
control characters, and its escapes spell whole characters: the two halves of a
surrogate pair stand together.

Lists and objects nest at most 200 deep. The functions below carry a bound on
the recursion that the length of the text covers.

## Main definitions

* `Document.readText`: The rest of a text up to its closing quote.
* `Document.readNumber`: A number.
* `Document.readValue`: A value.
* `Document.read`: The value of a whole text.
-/

namespace PackageAlgebra

namespace Document

/-- A text without the blanks, tabs and line ends that it begins with. -/
def skipBlanks (cs : List Char) : List Char :=
  cs.dropWhile fun c => c = ' ' || c = '\t' || c = '\n' || c = '\r'

/-- The value of a hexadecimal digit. -/
def hexDigit? (c : Char) : Option Nat :=
  if c.isDigit then some (c.toNat - '0'.toNat)
  else if 'a' ≤ c ∧ c ≤ 'f' then some (c.toNat - 'a'.toNat + 10)
  else if 'A' ≤ c ∧ c ≤ 'F' then some (c.toNat - 'A'.toNat + 10)
  else none

/-- The value of four hexadecimal digits. -/
def hexFour? (a b c d : Char) : Option Nat := do
  return (((← hexDigit? a) * 16 + (← hexDigit? b)) * 16 + (← hexDigit? c)) * 16 + (← hexDigit? d)

/-- The character that a letter stands for after a backslash. -/
def escaped? (c : Char) : Option Char :=
  if c = '"' ∨ c = '\\' ∨ c = '/' then some c
  else if c = 'b' then some '\x08'
  else if c = 'f' then some '\x0c'
  else if c = 'n' then some '\n'
  else if c = 'r' then some '\r'
  else if c = 't' then some '\t'
  else none

/-- Read a text up to its closing quote, the characters read so far given in
    reverse. -/
def readText (done : List Char) : List Char → Option (String × List Char)
  | [] => none
  | '"' :: rest => some (String.ofList done.reverse, rest)
  | '\\' :: 'u' :: a :: b :: c :: d :: rest =>
    match hexFour? a b c d with
    | none => none
    | some n =>
      if n < 0xd800 ∨ 0xe000 ≤ n then readText (Char.ofNat n :: done) rest
      else if 0xdc00 ≤ n then none
      else
        match rest with
        | '\\' :: 'u' :: e :: f :: g :: h :: rest =>
          match hexFour? e f g h with
          | none => none
          | some m =>
            if 0xdc00 ≤ m ∧ m < 0xe000 then
              readText (Char.ofNat (0x10000 + (n - 0xd800) * 0x400 + (m - 0xdc00)) :: done) rest
            else none
        | _ => none
  | '\\' :: c :: rest =>
    match escaped? c with
    | none => none
    | some d => readText (d :: done) rest
  | c :: rest => if c.toNat < 32 ∨ c = '\\' then none else readText (c :: done) rest

/-- The digits that a text begins with, and the rest. -/
def digits (cs : List Char) : List Char × List Char := cs.span Char.isDigit

/-- The value of decimal digits. -/
def digitsValue (cs : List Char) : Nat :=
  cs.foldl (fun n c => n * 10 + (c.toNat - '0'.toNat)) 0

/-- Read the exponent of a number; zero if there is none. -/
def readExponent (cs : List Char) : Option (Int × List Char) :=
  match cs with
  | c :: rest =>
    if c = 'e' ∨ c = 'E' then
      let (negative, rest) := match rest with
        | '-' :: rest => (true, rest)
        | '+' :: rest => (false, rest)
        | rest => (false, rest)
      match digits rest with
      | ([], _) => none
      | (ds, rest) => some (if negative then -(digitsValue ds : Int) else digitsValue ds, rest)
    else some (0, cs)
  | [] => some (0, [])

/-- The most digits that a whole number may have. -/
def digitLimit : Nat := 4300

/-- A number, given its sign and its digits before the point. -/
def readFraction (negative : Bool) (whole rest : List Char) : Option (Document × List Char) :=
  let signed (n : Nat) : Int := if negative then -(n : Int) else n
  match rest with
  | '.' :: rest =>
    match digits rest with
    | ([], _) => none
    | (ds, rest) => do
      let (e, rest) ← readExponent rest
      return (.real (.finite (signed (digitsValue (whole ++ ds))) (e - ds.length)), rest)
  | c :: _ =>
    if c = 'e' ∨ c = 'E' then do
      let (e, rest) ← readExponent rest
      return (.real (.finite (signed (digitsValue whole)) e), rest)
    else if digitLimit < whole.length then none
    else some (.int (signed (digitsValue whole)), rest)
  | [] =>
    if digitLimit < whole.length then none else some (.int (signed (digitsValue whole)), [])

/-- Read a number. -/
def readNumber (cs : List Char) : Option (Document × List Char) :=
  let (negative, cs) := match cs with
    | '-' :: rest => (true, rest)
    | cs => (false, cs)
  match digits cs with
  | ([], _) =>
    if "Infinity".toList.isPrefixOf cs then some (.real .notFinite, cs.drop 8)
    else if !negative && "NaN".toList.isPrefixOf cs then some (.real .notFinite, cs.drop 3)
    else none
  | (ds, rest) =>
    if ds.head? = some '0' ∧ ds.length ≠ 1 then none else readFraction negative ds rest

mutual

/-- Read a value, `depth` telling how deep lists and objects may still nest. -/
def readValue : Nat → Nat → List Char → Option (Document × List Char)
  | 0, _, _ => none
  | fuel + 1, depth, cs =>
    match cs with
    | '"' :: rest => (readText [] rest).map fun (s, rest) => (.text s, rest)
    | '[' :: rest =>
      match depth with
      | 0 => none
      | depth + 1 =>
        match skipBlanks rest with
        | ']' :: rest => some (.list [], rest)
        | rest => (readItems fuel depth rest).map fun (items, rest) => (.list items, rest)
    | '\x7b' :: rest =>
      match depth with
      | 0 => none
      | depth + 1 =>
        match skipBlanks rest with
        | '\x7d' :: rest => some (.object [], rest)
        | rest => (readFields fuel depth rest).map fun (fields, rest) => (.object fields, rest)
    | 't' :: 'r' :: 'u' :: 'e' :: rest => some (.bool true, rest)
    | 'f' :: 'a' :: 'l' :: 's' :: 'e' :: rest => some (.bool false, rest)
    | 'n' :: 'u' :: 'l' :: 'l' :: rest => some (.null, rest)
    | cs => readNumber cs

/-- Read the items of a list, at least one, up to its end. -/
def readItems : Nat → Nat → List Char → Option (List Document × List Char)
  | 0, _, _ => none
  | fuel + 1, depth, cs =>
    match readValue fuel depth (skipBlanks cs) with
    | none => none
    | some (item, rest) =>
      match skipBlanks rest with
      | ',' :: rest => (readItems fuel depth rest).map fun (items, rest) => (item :: items, rest)
      | ']' :: rest => some ([item], rest)
      | _ => none

/-- Read the fields of an object, at least one, up to its end. -/
def readFields : Nat → Nat → List Char → Option (List (String × Document) × List Char)
  | 0, _, _ => none
  | fuel + 1, depth, cs =>
    match skipBlanks cs with
    | '"' :: rest =>
      match readText [] rest with
      | none => none
      | some (name, rest) =>
        match skipBlanks rest with
        | ':' :: rest =>
          match readValue fuel depth (skipBlanks rest) with
          | none => none
          | some (value, rest) =>
            match skipBlanks rest with
            | ',' :: rest =>
              (readFields fuel depth rest).map fun (fields, rest) => ((name, value) :: fields, rest)
            | '\x7d' :: rest => some ([(name, value)], rest)
            | _ => none
        | _ => none
    | _ => none

end

/-- How deep lists and objects may nest. -/
def depthLimit : Nat := 200

/-- The value of a whole text; none if it is no document. -/
def read (s : String) : Option Document :=
  let cs := s.toList
  match readValue (2 * cs.length + 2) depthLimit (skipBlanks cs) with
  | some (value, rest) => if (skipBlanks rest).isEmpty then some value else none
  | none => none

end Document

end PackageAlgebra
