import PackageAlgebra.Calculator.Error
import PackageAlgebra.Context.Basic
import PackageAlgebra.Package.Set
import PackageAlgebra.Symbol.Graph

/-!
# Symbol Oracles

Who knows the symbols of packages.

An oracle answers a list of ids with a symbol graph. It names the version of the
form in which it answers, and an answer of an unknown version is not used.

## Main definitions

* `Oracle`: A source of symbol graphs.
* `PackageSet.keptAlive`: The members that keep unused methods alive.
-/

namespace PackageAlgebra

/-- A source of symbol graphs, with the state `σ` of the loader beside it. -/
structure Oracle (σ : Type) where
  -- The version of the form of its answers.
  version : Int
  -- The symbol graph of the packages with the given ids.
  symbolGraph : LoadConfig → List String → σ → Except Failure SymbolGraph × σ

/-- The version of the form of answers that is understood. -/
def supportedVersion : Int := 1

/-- The members of a set that own a symbol from which calls lead to an annotated
    one. -/
def PackageSet.keptAlive {ρ : Type} (g : SymbolGraph) (a : PackageSet ρ) : PackageSet ρ :=
  let owners := g.reachable.map g.packageOf
  a.filter fun id _ => id ≠ "" && owners.contains id

end PackageAlgebra
