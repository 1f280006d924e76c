import PackageAlgebra.Package.Node

/-!
# Walks

Following edges from a stack of starting points, meeting every key once.

One walk serves the import graph, its reverse and the symbol graph. It pops the
top of the stack; what has been met before is dropped, anything else is kept and
its successors go on top. The keys not met yet are carried along, so each step
either shortens that list or shortens the stack, and the walk ends on any graph,
cycles included.

## Main definitions

* `without`: A list of keys without one of them.
* `walk`: Everything that is met, in order.
* `Node.closure`: The nodes met from a stack of nodes along imports.
* `Node.dependencies`: The ids met from the imports of a node, apart from a given
  list.

## Theorems

* `length_without_lt`: Taking a member away shortens a list of keys.
-/

namespace PackageAlgebra

/-- A list of keys without one of them. -/
def without (keys : List String) (k : String) : List String := keys.filter (· ≠ k)

/-- Taking a member away shortens a list of keys. -/
theorem length_without_lt {keys : List String} {k : String} (h : k ∈ keys) :
    (without keys k).length < keys.length := by
  refine List.length_filter_lt_length_iff_exists.mpr ⟨k, h, ?_⟩
  simp

/-- Everything that is met from a stack along `next`, each key once and in the
    order of the meetings; only keys of `unseen` are met. -/
def walk {α : Type} (key : α → String) (next : α → List α) (unseen : List String) :
    (stack : List α) → List α
  | [] => []
  | a :: rest =>
    if key a ∈ unseen then
      a :: walk key next (without unseen (key a)) (next a ++ rest)
    else walk key next unseen rest
termination_by stack => (unseen.length, stack.length)
decreasing_by
  · exact Prod.Lex.left _ _ (length_without_lt (by assumption))
  · exact Prod.Lex.right _ (Nat.lt_succ_self _)

namespace Node

variable {ρ : Type}

/-- The successors of a node on the stack of a walk: its imports, the last one on
    top. -/
def successors (catalog : Catalog ρ) (p : Node ρ) : List (Node ρ) :=
  (p.imported catalog).reverse

/-- The ids that a walk from a stack of nodes can meet. -/
def knownIds (catalog : Catalog ρ) (stack : List (Node ρ)) : List String :=
  stack.map Node.id ++ catalog.ids

/-- The nodes met from a stack of nodes along imports, each id once. -/
def closure (catalog : Catalog ρ) (stack : List (Node ρ)) : List (Node ρ) :=
  walk Node.id (successors catalog) (knownIds catalog stack) stack

/-- The ids met along imports from the imports of a node, without entering or
    meeting the ids of `visited`. -/
def dependencies (catalog : Catalog ρ) (p : Node ρ) (visited : List String) : List String :=
  let unseen := catalog.ids.filter (· ∉ visited)
  (walk Node.id (successors catalog) unseen (p.successors catalog)).map Node.id

end Node

end PackageAlgebra
