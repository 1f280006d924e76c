import PackageAlgebra.Script.Token
import PackageAlgebra.Script.Tree
import PackageAlgebra.TokenParser

/-!
# Parsers of Module Source

The parsers that all rules for module source are made of.

Grammar rules that contain each other are not written as recursive functions:
each rule takes the rules for nested parts as an argument, a `Grammar`.

## Main definitions

* `Parser`: A parser.
* `mark`, `word`, `identifier`: Take a token of a kind.
* `separated`, `separatedEnd`: Values between commas.
* `Grammar`: The rules for nested parts.
-/

namespace PackageAlgebra.Script

open TokenParser

/-- Takes tokens from the front of a list and gives a value, or refuses. -/
abbrev Parser (α : Type) := TokenParser Token α

/-- Take a mark. -/
def mark (m : String) : Parser Unit := token (.mark m)

/-- Take a certain word. -/
def word (w : String) : Parser Unit := token (.word w)

/-- Take a name. -/
def identifier : Parser String := take fun
  | .word w => if keywords.contains w then none else some w
  | _ => none

/-- Values between commas, at least one. -/
def separated {α : Type} (p : Parser α) : Parser (List α) := sepBy1 (mark ",") p

/-- Values between commas, at least one; a comma may follow the last. -/
def separatedEnd {α : Type} (p : Parser α) : Parser (List α) := sepEndBy1 (mark ",") p

/-- The rules for nested parts. -/
structure Grammar where
  -- An operand without operators.
  primary : Parser Tree
  -- Operands with operators of arithmetic between them.
  arithmetic : Parser Tree
  -- An expression without commas outside brackets.
  expression : Parser Tree
  -- The pattern of a case, without commas outside brackets.
  pattern : Parser Tree
  -- A line of statements, or a statement with its block.
  statement : Parser (List Tree)

/-- Rules that refuse everything. -/
def Grammar.empty : Grammar := ⟨failure, failure, failure, failure, failure⟩

end PackageAlgebra.Script
