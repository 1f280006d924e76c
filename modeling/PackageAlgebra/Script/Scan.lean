import PackageAlgebra.Script.Number
import PackageAlgebra.Text.Blank

/-!
# Scanning Module Source

From the source text of a module to its tokens.

A line that is neither blank nor inside brackets opens or closes blocks by its
indentation. Indentation is measured twice, with tabs as wide as eight blanks
and with tabs as wide as one, and the two measures must agree on which line is
deeper. A backslash at the end of a line joins it with the next.

The recursion is bounded by a number that the length of the text covers: every
step passes a character, or turns from the beginning of a line to the line.

## Main definitions

* `Margin`: The indentation of a line.
* `endOfLiteral`: The text after a string literal.
* `scanLineStart`, `scanToken`: One step, at the beginning of a line and within it.
* `scan`: The tokens of a text; none if it has none.
-/

namespace PackageAlgebra.Script

/-- The indentation of a line, with tabs of two widths. -/
structure Margin where
  -- The width with tabs as wide as eight blanks.
  wide : Nat
  -- The width with tabs as wide as one blank.
  narrow : Nat
  deriving DecidableEq

/-- Measure the indentation of a line. Of a line that is continued within its
    indentation, the first part that has any counts; `fixed` is its width, zero if
    there has been none. -/
def measure (wide narrow fixed : Nat) : List Char → Option (Margin × List Char)
  | [] => some (if fixed = 0 then ⟨wide, narrow⟩ else ⟨fixed, fixed⟩, [])
  | '\\' :: rest =>
    match rest with
    | '\n' :: c :: rest => measure wide narrow (if fixed = 0 then wide else fixed) (c :: rest)
    | _ => none
  | c :: rest =>
    if c = ' ' then measure (wide + 1) (narrow + 1) fixed rest
    else if c = '\t' then measure ((wide / 8 + 1) * 8) (narrow + 1) fixed rest
    else if c = '\x0c' then measure 0 0 fixed rest
    else some (if fixed = 0 then ⟨wide, narrow⟩ else ⟨fixed, fixed⟩, c :: rest)

/-- How deep blocks may nest, the outermost included. -/
def blockLimit : Nat := 100

/-- How deep brackets may nest. -/
def bracketLimit : Nat := 200

/-- Close the blocks that are deeper than a line. -/
def closeBlocks (m : Margin) : List Margin → Option (List Token × List Margin)
  | [] => none
  | top :: below =>
    if m.wide < top.wide then
      (closeBlocks m below).map fun (ts, margins) => (.dedent :: ts, margins)
    else if m = top then some ([], top :: below)
    else none

/-- Open or close blocks at the beginning of a line. -/
def changeBlocks (m : Margin) (margins : List Margin) : Option (List Token × List Margin) :=
  match margins with
  | [] => none
  | top :: _ =>
    if top.wide < m.wide then
      if margins.length < blockLimit ∧ top.narrow < m.narrow then some ([.indent], m :: margins)
      else none
    else closeBlocks m margins

/-- The text after a literal in one quote, which must end before its line does. -/
def afterQuote (quote : Char) : List Char → Option (List Char × List Char)
  | [] => none
  | c :: rest =>
    if c = quote then some ([], rest)
    else if c = '\n' then none
    else if c = '\\' then
      match rest with
      | d :: rest => (afterQuote quote rest).map fun (body, rest) => (c :: d :: body, rest)
      | [] => none
    else (afterQuote quote rest).map fun (body, rest) => (c :: body, rest)

/-- The text after a literal in three quotes. -/
def afterTripleQuote (quote : Char) : List Char → Option (List Char × List Char)
  | [] => none
  | c :: rest =>
    if c = quote ∧ [quote, quote].isPrefixOf rest then some ([], rest.drop 2)
    else if c = '\\' then
      match rest with
      | d :: rest => (afterTripleQuote quote rest).map fun (body, rest) => (c :: d :: body, rest)
      | [] => none
    else (afterTripleQuote quote rest).map fun (body, rest) => (c :: body, rest)

/-- The body of the literal that a text begins with, given its quote and the text
    after that, and the text after the literal. -/
def endOfLiteral (quote : Char) (cs : List Char) : Option (List Char × List Char) :=
  if [quote, quote].isPrefixOf cs then afterTripleQuote quote (cs.drop 2)
  else afterQuote quote cs

/-- The kind of literal that a word announces, if it does. -/
def literalKind? (word : List Char) : Option (Literal) :=
  match String.ofList (word.map Char.toLower) with
  | "" => some ⟨false, false, false, []⟩
  | "r" => some ⟨false, false, true, []⟩
  | "u" => some ⟨false, false, false, []⟩
  | "b" => some ⟨true, false, false, []⟩
  | "f" => some ⟨false, true, false, []⟩
  | "br" | "rb" => some ⟨true, false, true, []⟩
  | "fr" | "rf" => some ⟨false, true, true, []⟩
  | _ => none

/-- The marks, the longer ones before those that they begin with. -/
def marks : List String :=
  ["**=", "//=", ">>=", "<<=", "...", "**", "//", ">>", "<<", "<=", ">=", "==", "!=", "->", "+=",
    "-=", "*=", "/=", "%=", "&=", "|=", "^=", "@=", ":=", "+", "-", "*", "/", "%", "&", "|", "^",
    "~", "<", ">", "=", ".", ",", ":", ";", "@", "(", ")", "[", "]", "\x7b", "\x7d"]

/-- The mark that a text begins with, if any. -/
def mark? (cs : List Char) : Option String := marks.find? fun m => m.toList.isPrefixOf cs

/-- The bracket that closes an opening one. -/
def closing? (mark : String) : Option String :=
  if mark = "(" then some ")"
  else if mark = "[" then some "]"
  else if mark = "\x7b" then some "\x7d"
  else none

/-- The brackets that are still to be closed after a mark. -/
def changeBrackets (mark : String) (brackets : List String) : Option (List String) :=
  match closing? mark with
  | some closing => if brackets.length < bracketLimit then some (closing :: brackets) else none
  | none =>
    if mark = ")" ∨ mark = "]" ∨ mark = "\x7d" then
      match brackets with
      | expected :: rest => if mark = expected then some rest else none
      | [] => none
    else some brackets

/-- Where scanning stands. -/
structure Scanner where
  -- The indentations of the blocks that are open, the deepest first.
  margins : List Margin
  -- The brackets that are to be closed, the innermost first.
  brackets : List String
  -- Whether a line begins here.
  atLineStart : Bool

/-- A text without the blanks that it begins with, and without a comment after
    them. -/
def skipBlanks (cs : List Char) : List Char :=
  let rest := cs.dropWhile fun c => c = ' ' || c = '\t' || c = '\x0c'
  match rest with
  | '#' :: rest => rest.dropWhile (· ≠ '\n')
  | rest => rest

/-- The tokens at the beginning of a text, where scanning stands after them, and the
    text that is left. -/
abbrev Scanned := List Token × Scanner × List Char

/-- Scan the beginning of a line: its indentation, and the blocks that it opens or
    closes. A line without tokens is passed over. -/
def scanLineStart (s : Scanner) (cs : List Char) : Option Scanned :=
  match measure 0 0 0 cs with
  | none => none
  | some (m, rest) =>
    match rest with
    | '\n' :: rest => some ([], s, rest)
    | '#' :: rest => some ([], s, (rest.dropWhile (· ≠ '\n')).drop 1)
    | rest =>
      let s := { s with atLineStart := false }
      if !s.brackets.isEmpty then some ([], s, rest)
      else
        (changeBlocks (if rest.isEmpty then ⟨0, 0⟩ else m) s.margins).map
          fun (ts, margins) => (ts, { s with margins := margins }, rest)

/-- Scan a mark. -/
def scanMark (s : Scanner) (cs : List Char) : Option Scanned :=
  match mark? cs with
  | none => none
  | some m =>
    (changeBrackets m s.brackets).map
      fun brackets => ([.mark m], { s with brackets := brackets }, cs.drop m.length)

/-- Scan a word, or a mark where there is none. -/
def scanWord (s : Scanner) (cs : List Char) : Option Scanned :=
  let (run, after) := cs.span isWordChar
  if run.isEmpty then scanMark s cs
  else if isWord run then some ([.word (String.ofList run)], s, after)
  else none

/-- Scan what begins within a line. -/
def scanToken (s : Scanner) (cs : List Char) : Option Scanned :=
  match cs with
  | '\n' :: rest =>
    some (if s.brackets.isEmpty then [.lineEnd] else [], { s with atLineStart := true }, rest)
  | '\\' :: rest =>
    match rest with
    | '\n' :: c :: rest => some ([], s, c :: rest)
    | _ => none
  | cs =>
    if beginsNumber cs then
      (endOfNumber cs).map fun (imaginary, rest) => ([.number imaginary], s, rest)
    else
      let (run, after) := cs.span isWordChar
      match after, literalKind? run with
      | quote :: after, some kind =>
        if quote = '\'' ∨ quote = '"' then
          (endOfLiteral quote after).map
            fun (body, rest) => ([.literal { kind with body := body }], s, rest)
        else scanWord s cs
      | _, _ => scanWord s cs

/-- The tokens of the rest of a text. -/
def scanFrom : Nat → Scanner → List Char → Option (List Token)
  | 0, _, _ => none
  | fuel + 1, s, cs =>
    if s.atLineStart then
      (scanLineStart s cs).bind fun (ts, s, rest) => (scanFrom fuel s rest).map (ts ++ ·)
    else
      match skipBlanks cs with
      | [] => if s.brackets.isEmpty then some [] else none
      | cs => (scanToken s cs).bind fun (ts, s, rest) => (scanFrom fuel s rest).map (ts ++ ·)

/-- A text that ends with a line end. -/
def endLine (cs : List Char) : List Char :=
  if cs.getLast? = some '\n' then cs else cs ++ ['\n']

/-- The tokens of a text; none if it has none. -/
def scan (text : List Char) : Option (List Token) :=
  let cs := endLine (Text.evenLines text)
  scanFrom (2 * cs.length + 2) ⟨[⟨0, 0⟩], [], true⟩ cs

end PackageAlgebra.Script
