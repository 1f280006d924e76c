import PackageAlgebra.Load.Error
import PackageAlgebra.Load.Universe
import PackageAlgebra.Pattern

/-!
# Loaders

Where packages come from.

A loader answers patterns with packages under a configuration. It may keep what
it has found out, so every question takes its state along; what a reference in
its answers leads to is read from the state as well.

## Main definitions

* `Loader`: A source of packages.
* `resolveIn`: The packages of a universe that patterns stand for.
-/

namespace PackageAlgebra

/-- A source of packages, with a state of type `σ` and references of type
    `ρ`. -/
structure Loader (σ ρ : Type) where
  -- What an empty query stands for.
  defaultPattern : String
  -- The nodes that references lead to.
  catalog : σ → Catalog ρ
  -- The packages that patterns stand for.
  load : LoadConfig → List String → σ → Except LoadError (List (Node ρ)) × σ
  -- All packages that exist under a configuration.
  allNodes : LoadConfig → σ → Except LoadError (OrderedMap String (Node ρ)) × σ

/-- The packages of a universe that patterns stand for. -/
def resolveIn {ρ : Type} (nodes : OrderedMap String (Node ρ)) (inWildcards : Node ρ → Bool)
    (config : LoadConfig) (patterns : List String) : Except LoadError (List (Node ρ)) :=
  match (Resolution.mk nodes inWildcards config.tests).resolve patterns with
  | .ok roots => .ok roots
  | .error failed => .error (.noMatch failed)

end PackageAlgebra
