import PackageAlgebra.Package.Node

/-!
# Package Records

Packages as a snapshot lists them.

A record names its imports by id and says under which settings the package
exists: a test package only where tests are wanted, a tagged one only where all
its tags are active.

## Main definitions

* `PackageRecord`: A package in a list.
* `PackageRecord.bareNode`: Its node, without imports.
* `PackageRecord.isTest`: Whether it is a test package.
-/

namespace PackageAlgebra

/-- A package in a list. -/
structure PackageRecord where
  -- What identifies the package.
  id : String
  -- What it is called, empty for the default name.
  name : String := ""
  -- The module that it belongs to, if any.
  moduleName : Option String := none
  -- The ids that it imports.
  imports : List String := []
  -- The paths of its files.
  files : List String := []
  -- How much source text it holds, if known.
  stat : Option Stat := none
  -- Whether it belongs to the standard library.
  std : Bool := false
  -- Whether it is a test package whatever its name.
  test : Bool := false
  -- Whether it can be started as a program.
  entrypoint : Bool := false
  -- The tags under which it exists.
  tags : List String := []
  deriving DecidableEq

namespace PackageRecord

/-- The node of a record, without imports. -/
def bareNode {ρ : Type} (r : PackageRecord) : Node ρ :=
  .make r.id r.name r.moduleName (r.stat.getD .single) r.files r.entrypoint r.std

/-- Whether a record is that of a test package, by its flag or by its id. -/
def isTest (r : PackageRecord) : Bool := r.test || isTestPackage r.id

end PackageRecord

end PackageAlgebra
