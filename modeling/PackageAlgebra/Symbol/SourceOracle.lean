import PackageAlgebra.Files.Tree
import PackageAlgebra.Load.Loader
import PackageAlgebra.Symbol.CallGraph
import PackageAlgebra.Symbol.Oracle

/-!
# Symbols of Sources

An oracle that reads the files of packages.

It takes the packages that a loader knows under the configuration of the question.
Files that are no modules, or that cannot be read, have no symbols.

## Main definitions

* `CallGraph.ofFiles`: The call graph of files.
* `sourceOracle`: The oracle.
-/

namespace PackageAlgebra

/-- The symbols and calls of a file of a package, if it is a module that can be
    read. -/
def CallGraph.ofFile? (files : FileSystem) (id path : String) : Option Script.ModuleCalls :=
  if Text.endsWith ".py" path then
    match files.read path with
    | .error _ => none
    | .ok content =>
      (String.fromUTF8? ⟨content.toArray⟩).bind fun text => (Script.readCalls id text).toOption
  else none

/-- The call graph of packages, each an id with the paths of its files. -/
def CallGraph.ofFiles (files : FileSystem) (packages : List (String × List String)) : CallGraph :=
  .ofModules (packages.flatMap fun (id, paths) => paths.filterMap (CallGraph.ofFile? files id))

/-- The oracle that reads the files of the packages of a loader. -/
def sourceOracle {σ ρ : Type} (files : FileSystem) (loader : Loader σ ρ) : Oracle σ where
  version := supportedVersion
  symbolGraph config ids s :=
    match loader.allNodes config s with
    | (.error e, s) => (.error (.error (.load e)), s)
    | (.ok nodes, s) =>
      let packages := ids.filterMap nodes.get?
      (.ok (CallGraph.ofFiles files (packages.map fun p => (p.id, p.files))).toSymbolGraph, s)

end PackageAlgebra
