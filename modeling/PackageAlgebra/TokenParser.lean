/-!
# Parsers of Token Lists

Reading structure off a list of tokens.

A parser takes tokens from the front of a list and gives a value, or refuses. Of
two alternatives the second is tried where the first refuses. Repetition is
bounded by the number of tokens that are left, since a step that takes no token
would only repeat itself.

## Main definitions

* `TokenParser`: A parser.
* `TokenParser.take`: Take a token that passes a test.
* `TokenParser.many`, `TokenParser.optionally`, `TokenParser.sepBy1`: Repetition and
  choice.
-/

namespace PackageAlgebra

/-- Takes tokens from the front of a list and gives a value, or refuses. -/
abbrev TokenParser (τ α : Type) := StateT (List τ) Option α

namespace TokenParser

variable {τ α β : Type}

/-- Take a token that passes a test. -/
def take (f : τ → Option α) : TokenParser τ α := fun ts =>
  match ts with
  | [] => none
  | t :: rest => (f t).map fun a => (a, rest)

/-- Take a certain token. -/
def token [DecidableEq τ] (t : τ) : TokenParser τ Unit :=
  take fun u => if u = t then some () else none

/-- Whether a parser would accept what comes next. -/
def accepts (p : TokenParser τ α) : TokenParser τ Bool := fun ts => some ((p ts).isSome, ts)

/-- Whether what a parser accepts comes next; it is taken. -/
def optionally (p : TokenParser τ α) : TokenParser τ Bool := (fun _ => true) <$> p <|> pure false

/-- Repeat a parser a limited number of times. -/
def manyUpTo (p : TokenParser τ α) : Nat → TokenParser τ (List α)
  | 0 => pure []
  | n + 1 => (do
      let a ← p
      let as ← manyUpTo p n
      return a :: as) <|> pure []

/-- Repeat a parser as often as it accepts. -/
def many (p : TokenParser τ α) : TokenParser τ (List α) := fun ts => manyUpTo p ts.length ts

/-- Repeat a parser as often as it accepts, at least once. -/
def many1 (p : TokenParser τ α) : TokenParser τ (List α) := do
  let a ← p
  let as ← many p
  return a :: as

/-- Values between separators, at least one. -/
def sepBy1 (separator : TokenParser τ β) (p : TokenParser τ α) : TokenParser τ (List α) := do
  let a ← p
  let as ← many (do let _ ← separator; p)
  return a :: as

/-- Values between separators, at least one; a separator may follow the last. -/
def sepEndBy1 (separator : TokenParser τ β) (p : TokenParser τ α) : TokenParser τ (List α) := do
  let as ← sepBy1 separator p
  let _ ← optionally separator
  return as

/-- Refuse unless a condition holds. -/
def require (condition : Bool) : TokenParser τ Unit := if condition then pure () else failure

end TokenParser

end PackageAlgebra
