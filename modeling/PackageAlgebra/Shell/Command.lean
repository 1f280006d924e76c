import PackageAlgebra.Shell.Token
import PackageAlgebra.TokenParser

/-!
# Shell Commands

The structure of a shell script: simple commands, and what puts them together.

Nothing here runs for an unlimited time: a loop goes over words that are there before
it begins.

## Main definitions

* `Shell.Command`: A command.
* `Shell.script`: The command of a whole script.
-/

namespace PackageAlgebra.Shell

open TokenParser

/-- A word. -/
abbrev Word := List WordPart

/-- Where the text of a stream goes. -/
structure Redirection where
  -- The stream, none for the usual one of the operator.
  stream : Option Nat
  -- The operator.
  operator : String
  -- What it names.
  target : Word
  deriving DecidableEq

/-- A command. -/
inductive Command
  -- Words with assignments before them.
  | simple (assignments : List (String × Word)) (words : List Word)
    (redirections : List Redirection)
  -- A command, and another after it.
  | sequence (first second : Command)
  -- A command, and another if it succeeds.
  | andThen (first second : Command)
  -- A command, and another if it fails.
  | orElse (first second : Command)
  -- A command whose failure is a success.
  | negation (command : Command)
  -- A command for each of some words, or for each argument of the script.
  | forEach (name : String) (items : Option (List Word)) (body : Command)
  -- A command, and one of two others after it.
  | conditional (test body otherwise : Command)
  -- A command with redirections; apart from the rest if it is in parentheses.
  | group (apart : Bool) (body : Command) (redirections : List Redirection)
  -- Nothing.
  | skip
  deriving Inhabited

/-- A parser of tokens of a script. -/
abbrev Parser (α : Type) := TokenParser Token α

/-- The text of a word without quotes and parameters. -/
def plainText? : Word → Option String
  | [] => some ""
  | .text cs false :: rest => (plainText? rest).map (String.ofList cs ++ ·)
  | _ => none

/-- The words with a meaning of their own at the beginning of a command. -/
def reserved : List String :=
  ["if", "then", "else", "elif", "fi", "for", "do", "done", "while", "until", "case", "esac", "in",
    "\x7b", "\x7d", "!"]

/-- Take a reserved word. -/
def keyword (w : String) : Parser Unit := take fun
  | .word parts => if plainText? parts = some w then some () else none
  | _ => none

/-- Take an operator. -/
def operator (o : String) : Parser Unit := token (.operator o)

/-- Take any word. -/
def anyWord : Parser Word := take fun
  | .word parts => some parts
  | _ => none

/-- Take a word that is not reserved. -/
def freeWord : Parser Word := take fun
  | .word parts => if (plainText? parts).any reserved.contains then none else some parts
  | _ => none

/-- The name and the value of an assignment, if a word is one. -/
def assignment? (w : Word) : Option (String × Word) :=
  let name := (w.takeWhile fun p => match p with
    | .text [c] false => c ≠ '='
    | _ => false).flatMap fun p => match p with
      | .text cs _ => cs
      | _ => []
  match w.drop name.length with
  | .text ['='] false :: value =>
    if name.isEmpty || !name.all isNameChar || name.head?.any Char.isDigit then none
    else some (String.ofList name, value)
  | _ => none

/-- A redirection. -/
def redirection : Parser Redirection := do
  let (stream, operator) ← take fun
    | .redirect stream text => some (stream, text)
    | _ => none
  return ⟨stream, operator, ← anyWord⟩

/-- Words and redirections, the first word not being reserved. -/
def simpleCommand : Parser Command := do
  let parts ← many1 ((Sum.inl <$> redirection) <|> (Sum.inr <$> freeWord))
  let later ← many ((Sum.inl <$> redirection) <|> (Sum.inr <$> anyWord))
  let all : List (Sum Redirection Word) := parts ++ later
  let words := all.filterMap Sum.getRight?
  let assignments := (words.takeWhile fun w => (assignment? w).isSome).filterMap assignment?
  return .simple assignments (words.drop assignments.length) (all.filterMap Sum.getLeft?)

/-- Ends of lines. -/
def lineEnds : Parser Unit := do
  let _ ← many (operator "\n")

/-- What separates a command from the next one in a list. -/
def separator : Parser Unit := do
  operator ";" <|> operator "\n"
  lineEnds

/-- A branch after a condition, given the rule for lists. -/
def otherwise (list : Parser Command) : Nat → Parser Command
  | 0 => failure
  | n + 1 =>
    (do
      keyword "elif"
      let test ← list
      keyword "then"
      let body ← list
      return .conditional test body (← otherwise list n)) <|>
    (do
      keyword "else"
      let body ← list
      keyword "fi"
      return body) <|>
    (do
      keyword "fi"
      return .skip)

/-- A command with the redirections that follow it; apart from the rest if it is in
    parentheses. -/
def redirected (apart : Bool) (body : Parser Command) : Parser Command := do
  let c ← body
  return .group apart c (← many redirection)

/-- A command that holds others, given the rule for lists. -/
def compound (list : Parser Command) : Parser Command :=
  redirected false (do
    keyword "if"
    let test ← list
    keyword "then"
    let body ← list
    fun ts => (do return .conditional test body (← otherwise list (ts.length + 1)) :
      Parser Command) ts) <|>
  redirected false (do
    keyword "for"
    let name ← (plainText? <$> anyWord)
    lineEnds
    let items ← optional (do
      keyword "in"
      many anyWord)
    let _ ← optional separator
    keyword "do"
    let body ← list
    keyword "done"
    match name with
    | some name => return .forEach name items body
    | none => failure) <|>
  redirected false (do
    keyword "\x7b"
    let body ← list
    keyword "\x7d"
    return body) <|>
  redirected true (do
    operator "("
    let body ← list
    operator ")"
    return body)

/-- A command that may be negated. -/
def pipeline (list : Parser Command) : Parser Command := do
  let negated ← optionally (keyword "!")
  let c ← compound list <|> simpleCommand
  if negated then return .negation c else return c

/-- Commands of which each runs only if the one before succeeds, or fails. -/
def chain (list : Parser Command) : Parser Command := do
  let first ← pipeline list
  let others ← many (do
    let isAnd ← ((do operator "&&"; return true) <|> (do operator "||"; return false))
    lineEnds
    return (isAnd, ← pipeline list))
  return others.foldl (fun c (isAnd, d) => if isAnd then .andThen c d else .orElse c d) first

/-- Commands one after the other, at least one; the bound is on how deep they are
    nested. -/
def commands : Nat → Parser Command
  | 0 => failure
  | depth + 1 => do
    lineEnds
    let inner : Parser Command := fun ts => commands depth ts
    let cs ← sepEndBy1 separator (chain inner)
    match cs with
    | [] => return .skip
    | c :: cs => return cs.foldl .sequence c

/-- The command of a whole script. -/
def script (tokens : List Token) : Option Command :=
  match (do lineEnds : Parser Unit) tokens with
  | some (_, []) => some .skip
  | _ =>
    match commands (tokens.length + 1) tokens with
    | some (c, []) => some c
    | _ => none

end PackageAlgebra.Shell
