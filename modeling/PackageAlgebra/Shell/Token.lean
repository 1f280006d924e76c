/-!
# Tokens of Shell Text

What the text of a shell script falls into.

A word is a sequence of parts, since quotes and parameters may stand within it.
Whether a part is quoted is kept: a quoted part is never split, and a word with a
quoted part is no keyword.

The recursion is bounded by a number that the length of the text covers, since every
step passes a character.

## Main definitions

* `Shell.WordPart`, `Shell.Token`: The parts of words, and tokens.
* `Shell.wordParts`: The word that a text begins with.
* `Shell.scan`: The tokens of a text; none if a quote is not closed.
-/

namespace PackageAlgebra.Shell

/-- What stands for the value of a parameter under a condition. -/
structure Substitute where
  -- Whether a value without characters counts as missing.
  emptyIsMissing : Bool
  -- Whether it stands for a value that is there, and not for one that is missing.
  forPresent : Bool
  -- The text.
  text : String
  deriving DecidableEq

/-- A part of a word. -/
inductive WordPart
  -- Characters.
  | text (cs : List Char) (quoted : Bool)
  -- The value of a parameter.
  | parameter (name : String) (substitute : Option Substitute) (quoted : Bool)
  deriving DecidableEq

/-- A token of a script. -/
inductive Token
  -- A word.
  | word (parts : List WordPart)
  -- An operator between commands, or the end of a line.
  | operator (text : String)
  -- A redirection, with the stream that it names.
  | redirect (stream : Option Nat) (text : String)
  deriving DecidableEq

/-- Whether a character may stand in the name of a parameter. -/
def isNameChar (c : Char) : Bool := c.isAlphanum || c = '_'

/-- Whether a character ends a word. -/
def endsWord (c : Char) : Bool := [' ', '\t', '\n', ';', '&', '|', '(', ')', '<', '>'].contains c

/-- The parameter that stands between braces: a name, and perhaps a mark and the text
    that stands for a missing value or for one that is there. -/
def bracedParameter (quoted : Bool) (cs : List Char) : Option WordPart :=
  let name := if (cs.head?).any isNameChar then cs.takeWhile isNameChar else cs.take 1
  let build (substitute : Option Substitute) : WordPart :=
    .parameter (String.ofList name) substitute quoted
  let marked (emptyIsMissing : Bool) : List Char → Option WordPart
    | '-' :: text => some (build (some ⟨emptyIsMissing, false, String.ofList text⟩))
    | '+' :: text => some (build (some ⟨emptyIsMissing, true, String.ofList text⟩))
    | _ => none
  match cs.drop name.length with
  | [] => if name.isEmpty then none else some (build none)
  | ':' :: rest => marked true rest
  | rest => marked false rest

/-- The parameter that is named after a dollar sign, and the text after it. A dollar
    sign before anything else stands for itself; substitution of commands is refused. -/
def parameter (quoted : Bool) (cs : List Char) : Option (WordPart × List Char) :=
  match cs with
  | [] => some (.text ['$'] quoted, [])
  | c :: rest =>
    if c = '\x7b' then
      let inner := rest.takeWhile (· ≠ '\x7d')
      let after := rest.drop inner.length
      if after.isEmpty then none
      else (bracedParameter quoted inner).map fun p => (p, after.drop 1)
    else if c = '(' then none
    else if ['@', '*', '#', '?', '$', '!', '-'].contains c || c.isDigit then
      some (.parameter (String.ofList [c]) none quoted, rest)
    else if isNameChar c then
      let name := cs.takeWhile isNameChar
      some (.parameter (String.ofList name) none quoted, cs.drop name.length)
    else some (.text ['$'] quoted, cs)

/-- Put a part before the parts of a word. -/
def withPart (p : WordPart) (read : Option (List WordPart × List Char)) :
    Option (List WordPart × List Char) :=
  read.map fun (parts, rest) => (p :: parts, rest)

/-- The parts of the word that a text begins with, and the text after it; `inQuotes`
    tells that double quotes are open. -/
def wordParts : Nat → Bool → List Char → Option (List WordPart × List Char)
  | 0, inQuotes, cs => if inQuotes then none else some ([], cs)
  | _ + 1, inQuotes, [] => if inQuotes then none else some ([], [])
  | fuel + 1, inQuotes, c :: rest =>
    if c = '$' then
      match parameter inQuotes rest with
      | some (p, rest) => withPart p (wordParts fuel inQuotes rest)
      | none => none
    else if c = '`' then none
    else if c = '"' then withPart (.text [] true) (wordParts fuel (!inQuotes) rest)
    else if c = '\\' then
      match rest with
      | '\n' :: rest => wordParts fuel inQuotes rest
      | d :: rest =>
        if inQuotes && !(['$', '`', '"', '\\'].contains d) then
          withPart (.text [c, d] true) (wordParts fuel inQuotes rest)
        else withPart (.text [d] true) (wordParts fuel inQuotes rest)
      | [] => withPart (.text [c] true) (wordParts fuel inQuotes [])
    else if inQuotes then withPart (.text [c] true) (wordParts fuel inQuotes rest)
    else if c = '\'' then
      let body := rest.takeWhile (· ≠ '\'')
      let after := rest.drop body.length
      if after.isEmpty then none
      else withPart (.text body true) (wordParts fuel inQuotes (after.drop 1))
    else if endsWord c then some ([], c :: rest)
    else withPart (.text [c] false) (wordParts fuel inQuotes rest)

/-- The operators between commands, the longer ones before those that they begin
    with. -/
def operators : List String := ["&&", "||", ";;", ";", "&", "|", "(", ")", "\n"]

/-- The redirections, the longer ones before those that they begin with. -/
def redirections : List String := [">&", ">>", ">|", "<&", "<<", "<>", ">", "<"]

/-- The text that another text begins with, out of a list. -/
def firstOf (texts : List String) (cs : List Char) : Option String :=
  texts.find? fun t => t.toList.isPrefixOf cs

/-- A redirection with the digits before it, if the text begins with one. -/
def redirect? (cs : List Char) : Option (Token × List Char) :=
  let digits := cs.takeWhile Char.isDigit
  let after := cs.drop digits.length
  (firstOf redirections after).map fun r =>
    (.redirect (if digits.isEmpty then none else some (digits.foldl (fun n d =>
      10 * n + (d.toNat - '0'.toNat)) 0)) r, after.drop r.length)

/-- The tokens of a text. -/
def scanFrom : Nat → List Char → Option (List Token)
  | 0, cs => if cs.isEmpty then some [] else none
  | _ + 1, [] => some []
  | fuel + 1, c :: rest =>
    if c = ' ' ∨ c = '\t' then scanFrom fuel rest
    else if c = '#' then scanFrom fuel (rest.dropWhile (· ≠ '\n'))
    else
      match redirect? (c :: rest) with
      | some (t, rest) => (scanFrom fuel rest).map (t :: ·)
      | none =>
        match firstOf operators (c :: rest) with
        | some o => (scanFrom fuel ((c :: rest).drop o.length)).map (.operator o :: ·)
        | none =>
          match wordParts (rest.length + 2) false (c :: rest) with
          | some (parts, rest) => (scanFrom fuel rest).map (.word parts :: ·)
          | none => none

/-- The tokens of a text; none if a quote is not closed. -/
def scan (text : String) : Option (List Token) := scanFrom (text.length + 1) text.toList

end PackageAlgebra.Shell
