import PackageAlgebra.Package.Node

/-!
# Patterns

What the names in a query stand for.

A name is the id of one package, or a wildcard: a path that ends in three
points and stands for everything below it. One name is reserved for the
standard library. Resolving a list of names collects the failures of all of
them before it gives up.

## Main definitions

* `matchPattern`: Whether an id fits a pattern.
* `isTestOf`: Whether an id is that of a test of a package.
* `Resolution`: What patterns are resolved against.
* `resolvePatterns`: The packages that a list of patterns stands for.
-/

namespace PackageAlgebra

/-- The ending of a wildcard; by itself it stands for everything. -/
def everything : String := "..."

/-- The pattern that stands for the standard library. -/
def stdPattern : String := "std"

/-- Whether a pattern is a wildcard. -/
def isWildcard (pattern : String) : Bool := Text.endsWith everything pattern

/-- What a wildcard stands above: its text without the points and slashes at its
    end. -/
def wildcardBase (pattern : String) : String :=
  String.ofList (pattern.toList.reverse.dropWhile fun c => c = '/' || c = '.').reverse

/-- Whether an id fits a pattern: exactly, or below the path of a wildcard. -/
def matchPattern (pattern id : String) : Bool :=
  if isWildcard pattern then
    let base := wildcardBase pattern
    base = "" || id = base || Text.beginsWith (base ++ "/") id || Text.beginsWith (base ++ ".") id
  else id = pattern

/-- Whether an id is that of a test of the package named by a pattern. -/
def isTestOf (pattern id : String) : Bool :=
  id ≠ pattern && isTestPackage id &&
    (id = pattern ++ "_test" || Text.beginsWith (pattern ++ ".") id ||
      Text.beginsWith (pattern ++ "/") id || Text.beginsWith (pattern ++ " [") id)

/-- What patterns are resolved against. -/
structure Resolution (ρ : Type) where
  -- The packages, under their ids.
  candidates : OrderedMap String (Node ρ)
  -- Whether wildcards stand for a package.
  inWildcards : Node ρ → Bool
  -- Whether an id also stands for the tests of its package.
  withTests : Bool

namespace Resolution

variable {ρ : Type}

/-- The ids that one pattern stands for, in the order of the candidates; none if
    it stands for nothing. An empty standard library is no failure. -/
def matchesOf (r : Resolution ρ) (pattern : String) : Option (List String) :=
  let found :=
    if isWildcard pattern then
      (r.candidates.entries.filter fun e => r.inWildcards e.2 && matchPattern pattern e.1).map
        Prod.fst
    else if r.candidates.contains pattern then
      pattern :: if r.withTests then r.candidates.keys.filter (isTestOf pattern) else []
    else []
  if pattern = stdPattern then
    some ((r.candidates.entries.filter fun e => e.2.std).map Prod.fst)
  else if found.isEmpty then none
  else some found

/-- The patterns of a list that stand for nothing. -/
def failures (r : Resolution ρ) (patterns : List String) : List String :=
  patterns.filter fun p => (r.matchesOf p).isNone

/-- The nodes that a list of patterns stands for, each once and in the order of
    first match; or the patterns that stand for nothing. -/
def resolve (r : Resolution ρ) (patterns : List String) : Except (List String) (List (Node ρ)) :=
  if (r.failures patterns).isEmpty then
    let ids := (patterns.flatMap fun p => (r.matchesOf p).getD []).foldl
      (fun seen id => if seen.contains id then seen else seen ++ [id]) []
    .ok (ids.filterMap r.candidates.get?)
  else .error (r.failures patterns)

end Resolution

end PackageAlgebra
