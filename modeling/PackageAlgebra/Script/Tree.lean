/-!
# Module Trees

The structure of the source text of a module, as far as imports and calls go.

The parts of a node stand in the order in which they are visited: those of a
function are its signature, its body, and then its decorators and its result
type; those of a class its bases, its body and its decorators. Everything that
neither names, calls, imports nor opens a scope is a form with parts, whatever
it means.

## Main definitions

* `Tree`: A node of a module.
* `Tree.children`: Its parts, in the order of a visit.
* `Tree.isTarget`, `isSingleTarget`, `isDeletable`: What may be assigned to or
  deleted.
-/

namespace PackageAlgebra.Script

/-- A name in an import statement. -/
structure ImportedName where
  -- What is imported; a star stands for everything.
  name : String
  -- The name that it is given.
  rename : Option String
  deriving DecidableEq

/-- A node of a module. -/
inductive Tree
  -- A name.
  | name (id : String)
  -- A text.
  | text (value : String)
  -- A member of a value.
  | member (owner : Tree) (name : String)
  -- A call with its arguments, the named ones last.
  | call (func : Tree) (args : List Tree)
  -- A chain of comparisons.
  | compare (first : Tree) (others : List Tree)
  -- Values between commas.
  | tuple (items : List Tree)
  -- Values between brackets.
  | list (items : List Tree)
  -- A value whose items stand for themselves.
  | starred (item : Tree)
  -- An item of a value, with what selects it.
  | subscript (owner : Tree) (selectors : List Tree)
  -- An import of modules.
  | importModules (names : List ImportedName)
  -- An import from a module, or from one so many packages up.
  | importFrom (level : Nat) (source : String) (names : List ImportedName)
  -- A function.
  | function (name : String) (signature body closing : List Tree)
  -- A class.
  | classDef (name : String) (bases body decorators : List Tree)
  -- A conditional statement.
  | branch (test : Tree) (body otherwise : List Tree)
  -- Anything else.
  | form (parts : List Tree)
  deriving Inhabited

namespace Tree

/-- The parts of a node, in the order of a visit. -/
def children : Tree → List Tree
  | name _ => []
  | text _ => []
  | member owner _ => [owner]
  | call func args => func :: args
  | compare first others => first :: others
  | tuple items => items
  | list items => items
  | starred item => [item]
  | subscript owner selectors => owner :: selectors
  | importModules _ => []
  | importFrom _ _ _ => []
  | function _ signature body closing => signature ++ body ++ closing
  | classDef _ bases body decorators => bases ++ body ++ decorators
  | branch test body otherwise => test :: body ++ otherwise
  | form parts => parts

/-- Whether a single value may be assigned to a node. -/
def isSingleTarget : Tree → Bool
  | name _ => true
  | member _ _ => true
  | subscript _ _ => true
  | _ => false

mutual

/-- Whether values may be assigned to a node. -/
def isTarget : Tree → Bool
  | name _ => true
  | member _ _ => true
  | subscript _ _ => true
  | tuple items => areTargets items
  | list items => areTargets items
  | starred item => isTarget item
  | _ => false

/-- Whether values may be assigned to all nodes of a list. -/
def areTargets : List Tree → Bool
  | [] => true
  | t :: rest => isTarget t && areTargets rest

end

mutual

/-- Whether a node may be deleted. -/
def isDeletable : Tree → Bool
  | name _ => true
  | member _ _ => true
  | subscript _ _ => true
  | tuple items => areDeletable items
  | list items => areDeletable items
  | _ => false

/-- Whether all nodes of a list may be deleted. -/
def areDeletable : List Tree → Bool
  | [] => true
  | t :: rest => isDeletable t && areDeletable rest

end

end Tree

end PackageAlgebra.Script
