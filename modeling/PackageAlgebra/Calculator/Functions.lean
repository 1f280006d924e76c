import PackageAlgebra.Package.Set
import PackageAlgebra.Text.Lowercase

/-!
# Functions and Selectors

What the names in a query do to sets.

Functions take operands, selectors are attached to one. Names are looked up
ignoring case. A selector may begin with a sign that says how its result is
combined with its operand.

## Main definitions

* `SetOp`: The operations that join any number of sets.
* `SetFunction`: All functions.
* `SetFunction.ofName?`: The function with a name.
* `Combinator`: How a selection is combined with its operand.
* `Selection`: What a selector selects.
* `Selection.ofText?`: The selection with a name.
-/

namespace PackageAlgebra

/-- The operations that join any number of sets, from the left. -/
inductive SetOp
  -- The ids of any operand.
  | union
  -- The ids of the first operand alone.
  | subtract
  -- The ids of all operands.
  | intersect
  -- The ids of an odd number of operands.
  | symmetricDifference
  deriving DecidableEq

namespace SetOp

variable {ρ : Type}

/-- An operation on two sets. -/
def apply : SetOp → PackageSet ρ → PackageSet ρ → PackageSet ρ
  | union => .union
  | subtract => .subtract
  | intersect => .intersect
  | symmetricDifference => .symmetricDifference

/-- An operation on a list of sets, empty for the empty list. -/
def applyAll (op : SetOp) : List (PackageSet ρ) → PackageSet ρ
  | [] => .empty
  | a :: rest => rest.foldl op.apply a

end SetOp

/-- The functions of a query, context functions aside. -/
inductive SetFunction
  -- Join any number of sets.
  | join (op : SetOp)
  -- The members of a set that lead to another.
  | reach
  -- A set and the members of another that import it.
  | incoming
  -- A set without implied imports.
  | transitive
  -- The members that keep unused methods alive.
  | deadcode
  deriving DecidableEq

namespace SetFunction

/-- The function with a name in lower case. -/
def ofName? (name : String) : Option SetFunction :=
  if name = "" ∨ name = "+" ∨ name = "add" ∨ name = "or" then some (.join .union)
  else if name = "-" ∨ name = "subtract" ∨ name = "exclude" then some (.join .subtract)
  else if name = "shared" ∨ name = "intersect" then some (.join .intersect)
  else if name = "xor" then some (.join .symmetricDifference)
  else if name = "reach" then some .reach
  else if name = "incoming" then some .incoming
  else if name = "transitive" then some .transitive
  else if name = "deadcode" then some .deadcode
  else none

/-- How many arguments a function takes, if that is fixed. -/
def arity? : SetFunction → Option Nat
  | join _ => none
  | reach => some 2
  | incoming => some 2
  | transitive => some 1
  | deadcode => some 1

end SetFunction

/-- How a selection is combined with its operand. -/
inductive Combinator
  -- The selection alone.
  | keep
  -- The operand together with the selection.
  | add
  -- The operand without the selection.
  | remove
  deriving DecidableEq

namespace Combinator

/-- Combine an operand with its selection. -/
def apply {ρ : Type} (c : Combinator) (operand selection : PackageSet ρ) : PackageSet ρ :=
  match c with
  | keep => selection
  | add => operand.union selection
  | remove => operand.subtract selection

/-- The combinator that a selector begins with, and the rest of it. -/
def ofText (selector : String) : Combinator × String :=
  match selector.toList with
  | '+' :: rest => (add, String.ofList rest)
  | '-' :: rest => (remove, String.ofList rest)
  | cs => (keep, String.ofList cs)

end Combinator

/-- What a selector selects. -/
inductive Selection
  -- Test packages.
  | test
  -- Everything that the operand leads to.
  | all
  -- The operand, and all it leads to within its modules.
  | modules
  -- What the operand imports beside itself.
  | imports
  -- The members that nothing imports.
  | sources
  -- The members that something imports.
  | noSources
  -- The members that can be started.
  | main
  deriving DecidableEq

namespace Selection

/-- The selection with a name, without a combinator and ignoring case. -/
def ofName? (name : String) : Option Selection :=
  let name := Text.lower name
  if name = "test" then some test
  else if name = "all" then some all
  else if name = "mod" ∨ name = "module" then some modules
  else if name = "import" ∨ name = "imp" then some imports
  else if name = "source" then some sources
  else if name = "nosource" then some noSources
  else if name = "main" then some main
  else none

/-- What a selection makes of an operand under a combinator. Test packages are
    not found among the members of a set but loaded; here they are those that are
    members already. The selection by modules is never combined. -/
def apply {ρ : Type} (catalog : Catalog ρ) (c : Combinator) (a : PackageSet ρ) :
    Selection → PackageSet ρ
  | test => c.apply a a.tests
  | all => c.apply a (.ofClosure catalog a.values)
  | modules => a.moduleDependencies catalog
  | imports => c.apply a (a.directDependencies catalog)
  | sources => c.apply a (a.sources catalog)
  | noSources => c.apply a (a.subtract (a.sources catalog))
  | main => c.apply a a.main

end Selection

end PackageAlgebra
