import PackageAlgebra.Script.Statement
import PackageAlgebra.Text.Pieces

/-!
# Imports of a Module

What a module imports, and whether it is meant to be started.

An import names a module or something in a module, and only the packages around
tell which; so each import gives its candidates, the most specific name first.
Imports that are made only while types are checked are marked. A module is meant to
be started if its name says so, or if it asks anywhere whether it is the main one.

## Main definitions

* `resolveRelative`: The absolute name of what is imported from so many packages up.
* `Import`: An import.
* `importsOf`: The imports of statements.
* `asksForMain`: Whether statements ask whether the module is the main one.
-/

namespace PackageAlgebra.Script

/-- An import. -/
structure Import where
  -- The names that may be meant, the most specific first.
  candidates : List String
  -- Whether it is made only while types are checked.
  typeChecking : Bool
  deriving DecidableEq

/-- The parts of the name of a module, none for the module without a name. -/
def nameParts (module : String) : List String :=
  if module = "" then [] else Text.split '.' module

/-- The absolute name of a target that a module names relative to itself. The first
    level is the package that the module is in, or the module if it is a package;
    every further level is one package up. -/
def resolveRelative (module : String) (isPackage : Bool) (level : Nat) (target : String) :
    String :=
  if level = 0 then target
  else
    let parts := nameParts module
    let own := if isPackage then parts else parts.dropLast
    let above := own.take (own.length - (level - 1))
    Text.join "." (if target = "" then above else above ++ [target])

/-- The names that may be meant by a name imported from a module. -/
def candidatesOf (source name : String) : List String :=
  (if name = "*" then [] else if source = "" then [name] else [source ++ "." ++ name])
    ++ (if source = "" then [] else [source])

/-- Whether a condition holds only while types are checked. -/
def isTypeChecking : Tree → Bool
  | .name id => id = "TYPE_CHECKING"
  | .member _ name => name = "TYPE_CHECKING"
  | _ => false

/-- Whether a condition compares two values of which one is the name of the module
    and one the name of the main module. -/
def isMainTest : Tree → Bool
  | .compare first [other] =>
    (isModuleName first || isModuleName other) && (isMainName first || isMainName other)
  | _ => false
where
  -- Whether a value is the name of the module.
  isModuleName : Tree → Bool
    | .name id => id = "__name__"
    | _ => false
  -- Whether a value is the name of the main module.
  isMainName : Tree → Bool
    | .text value => value = "__main__"
    | _ => false

mutual

/-- Whether a node holds a statement that asks whether the module is the main
    one. -/
def asksForMainIn : Tree → Bool
  | .name _ => false
  | .text _ => false
  | .member owner _ => asksForMainIn owner
  | .call func args => asksForMainIn func || asksForMain args
  | .compare first others => asksForMainIn first || asksForMain others
  | .tuple items => asksForMain items
  | .list items => asksForMain items
  | .starred item => asksForMainIn item
  | .subscript owner selectors => asksForMainIn owner || asksForMain selectors
  | .importModules _ => false
  | .importFrom _ _ _ => false
  | .function _ signature body closing =>
    asksForMain signature || asksForMain body || asksForMain closing
  | .classDef _ bases body decorators =>
    asksForMain bases || asksForMain body || asksForMain decorators
  | .branch test body otherwise =>
    isMainTest test || asksForMainIn test || asksForMain body || asksForMain otherwise
  | .form parts => asksForMain parts

/-- Whether statements ask whether the module is the main one. -/
def asksForMain : List Tree → Bool
  | [] => false
  | t :: rest => asksForMainIn t || asksForMain rest

end

section

variable (module : String) (isPackage : Bool)

/-- The imports of an import statement. -/
def statementImports (typeChecking : Bool) : Tree → List Import
  | .importModules names => names.map fun n => ⟨[n.name], typeChecking⟩
  | .importFrom level source names =>
    let base := resolveRelative module isPackage level source
    names.filterMap fun n =>
      let candidates := candidatesOf base n.name
      if candidates.isEmpty then none else some ⟨candidates, typeChecking⟩
  | _ => []

mutual

/-- The imports within a node, in the order of a visit; `typeChecking` tells that
    they count only while types are checked. -/
def importsIn (typeChecking : Bool) : Tree → List Import
  | .name _ => []
  | .text _ => []
  | .member owner _ => importsIn typeChecking owner
  | .call func args => importsIn typeChecking func ++ importsOf typeChecking args
  | .compare first others => importsIn typeChecking first ++ importsOf typeChecking others
  | .tuple items => importsOf typeChecking items
  | .list items => importsOf typeChecking items
  | .starred item => importsIn typeChecking item
  | .subscript owner selectors =>
    importsIn typeChecking owner ++ importsOf typeChecking selectors
  | .importModules names => statementImports module isPackage typeChecking (.importModules names)
  | .importFrom level source names =>
    statementImports module isPackage typeChecking (.importFrom level source names)
  | .function _ signature body closing =>
    importsOf typeChecking signature ++ importsOf typeChecking body
      ++ importsOf typeChecking closing
  | .classDef _ bases body decorators =>
    importsOf typeChecking bases ++ importsOf typeChecking body
      ++ importsOf typeChecking decorators
  | .branch test body otherwise =>
    importsIn typeChecking test ++ importsOf (typeChecking || isTypeChecking test) body
      ++ importsOf typeChecking otherwise
  | .form parts => importsOf typeChecking parts

/-- The imports of statements, in the order of a visit. -/
def importsOf (typeChecking : Bool) : List Tree → List Import
  | [] => []
  | t :: rest => importsIn typeChecking t ++ importsOf typeChecking rest

end

end

/-- What a module imports. -/
structure ModuleImports where
  -- The imports, in their order.
  imports : List Import
  -- Whether the module is meant to be started.
  entrypoint : Bool
  deriving DecidableEq

/-- Whether the name of a module says that it is meant to be started. -/
def isMainModule (module : String) : Bool := Text.endsWith "__main__" module

/-- What a module imports, read from its source. -/
def readImports (module : String) (isPackage : Bool) (source : String) :
    Except SourceError ModuleImports :=
  (parseModule source).map fun statements =>
    ⟨importsOf module isPackage false statements, isMainModule module || asksForMain statements⟩

end PackageAlgebra.Script
