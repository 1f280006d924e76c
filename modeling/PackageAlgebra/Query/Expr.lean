import PackageAlgebra.Text.Lowercase
import PackageAlgebra.Text.Pieces

/-!
# Query Expressions

The syntax tree of a query and its two printed forms.

A query names packages, joins them by calls of set functions, narrows them by
selectors and binds the results to variables. Juxtaposed operands are a call
without a name. A call may be written with the spelled-out name of an operator;
the printed forms show the operator.

## Main definitions

* `Expr`: The syntax tree.
* `Expr.canonicalName`: The name that the printed forms show for a function.
* `Expr.print`: A query on one line.
* `Expr.outline`: A query as an indented outline, one node a line.
-/

namespace PackageAlgebra

/-- The syntax tree of a query. -/
inductive Expr
  -- A package, a pattern or a variable.
  | package (name : String)
  -- Statements, the last of which gives the value.
  | sequence (statements : List Expr)
  -- The value of an expression, bound to a variable.
  | assign (name : String) (value : Expr)
  -- An operand narrowed or widened by a selector.
  | select (operand : Expr) (selector : String)
  -- A function of operands; the empty name juxtaposes them.
  | call (func : String) (args : List Expr)
  -- An operand that is missing; no text is read as one.
  | absent

namespace Expr

/-- The operator that a spelled-out name stands for, ignoring case; other names
    stand for themselves. -/
def canonicalName (func : String) : String :=
  let name := Text.lower func
  if name = "add" ∨ name = "or" then "+"
  else if name = "subtract" ∨ name = "exclude" then "-"
  else func

/-- Whether a function sets a build tag or a variable of the environment. -/
def isSetting (func : String) : Bool := func.toList.contains '='

mutual

/-- A query on one line. -/
def print : Expr → String
  | package name => name
  | sequence statements => Text.join "; " (printAll statements)
  | assign name value => name ++ " := " ++ print value
  | select operand selector => print operand ++ ":" ++ selector
  | call func args => canonicalName func ++ "(" ++ Text.join ", " (printAll args) ++ ")"
  | absent => "None"

/-- Each expression of a list on one line. -/
def printAll : List Expr → List String
  | [] => []
  | e :: rest => print e :: printAll rest

end

/-- Two blanks for each level of an outline. -/
def indentation (level : Nat) : String := String.ofList (List.replicate (2 * level) ' ')

mutual

/-- A query as an indented outline, one node a line. -/
def outlineAt (level : Nat) : Expr → String
  | package name => indentation level ++ name ++ "\n"
  | sequence statements => outlineAll (level + 1) statements
  | assign name value => indentation level ++ name ++ " :=\n" ++ outlineAt (level + 1) value
  | select operand selector =>
    indentation level ++ "select " ++ selector ++ "\n" ++ outlineAt (level + 1) operand
  | call func args =>
    let name := if canonicalName func = "" then "+" else canonicalName func
    indentation level ++ name ++ "\x7b\n" ++ outlineAll (level + 1) args ++
      indentation level ++ "\x7d\n"
  | absent => ""

/-- The outlines of a list of expressions, one below the other. -/
def outlineAll (level : Nat) : List Expr → String
  | [] => ""
  | e :: rest => outlineAt level e ++ outlineAll level rest

end

/-- A query as an indented outline, one node a line. -/
def outline (e : Expr) : String := outlineAt 0 e

mutual

/-- Whether an operand is missing somewhere. -/
def hasAbsent : Expr → Bool
  | package _ => false
  | sequence statements => anyAbsent statements
  | assign _ value => hasAbsent value
  | select operand _ => hasAbsent operand
  | call _ args => anyAbsent args
  | absent => true

/-- Whether an operand is missing somewhere in a list of expressions. -/
def anyAbsent : List Expr → Bool
  | [] => false
  | e :: rest => hasAbsent e || anyAbsent rest

end

end Expr

end PackageAlgebra
