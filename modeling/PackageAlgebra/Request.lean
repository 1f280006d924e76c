import PackageAlgebra.Load.Open
import PackageAlgebra.Report.Info

/-!
# Requests

What a query is asked for: the packages of a set, or a cut analysis of it.

The packages of the standard library are left out unless they are wanted. A cut analysis
may leave rows out of its answer; the packages of these rows are given by a query of
their own, which shares nothing with the first but what has been loaded.

## Main definitions

* `selectPackages`: The set of a query.
* `analyseCuts`: The rows of a cut analysis.
-/

namespace PackageAlgebra

variable {σ : Type}

/-- A set with the nodes that its references lead to. -/
structure SelectedPackages where
  -- The nodes.
  catalog : Catalog NodeRef
  -- The set.
  packages : PackageSet NodeRef

/-- The set of a query, without the standard library unless it is wanted. -/
def selectPackages (query : QueryText) (withStd : Bool) (parties : Calculator σ NodeRef) :
    Calc σ NodeRef SelectedPackages := do
  let a ← calculateAlone parties (fun _ => false) query
  let a ← if withStd then pure a else Calc.withoutStd parties a
  return ⟨← Calc.catalog parties, a⟩

/-- The rows of a cut analysis of the set of a query, without those of the packages of
    another query. -/
def analyseCuts (query : QueryText) (exclude : Option QueryText) (withStd : Bool)
    (parties : Calculator σ NodeRef) : Calc σ NodeRef (List CutRow) := do
  let a ← calculateAlone parties (fun _ => false) query
  let excluded ← match exclude with
    | none => pure []
    | some query => PackageSet.sortedIds <$> calculateAlone parties (fun _ => false) query
  let a ← if withStd then pure a else Calc.withoutStd parties a
  return cutRows (.ofSet (← Calc.catalog parties) a) none excluded

end PackageAlgebra
