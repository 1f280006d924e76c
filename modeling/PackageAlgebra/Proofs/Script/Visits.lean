import PackageAlgebra.Proofs.Script.Enclosing

/-!
# Visits

All nodes of a module, in the order in which a visit meets them.

Whatever is read off a module is read off node by node, on a visit that goes from each node to its
parts and takes along what it has to know about the way there. All it can know is in which places of
their nodes the parts stand: in a function or a class, in the body of a condition, or anywhere else.
So the list that such a visit puts together is known from the nodes alone, one after the other, each
with the places that lead to it. Nothing is skipped and nothing is met twice, however the visit
deals with particular nodes, as long as it goes on to the parts of each.

## Main definitions

* `Place`: Where a part stands in its node.
* `Tree.parts`: The parts of a node with their places.
* `Tree.visited`: A node and all that is in it, with the places on the way.

## Theorems

* `Tree.visited_eq`: First comes the node, and then what is in its parts.
* `eq_flatMap_visited`: What a visit puts together.
-/

namespace PackageAlgebra.Script

/-- Where a part stands in its node. -/
inductive Place
  -- In a function or a class.
  | within (frame : Frame)
  -- In the body of a condition.
  | underTest (test : Tree)
  -- Anywhere else.
  | plain

/-- The function or the class that a place is in. -/
def Place.frame? : Place → Option Frame
  | within frame => some frame
  | _ => none

namespace Tree

/-- The parts of a node with their places, in the order of a visit. -/
def parts : Tree → List (Place × Tree)
  | branch test body otherwise =>
    (.plain, test) :: body.map (.underTest test, ·) ++ otherwise.map (.plain, ·)
  | t => t.children.map (t.frame?.elim .plain .within, ·)

theorem map_parts (t : Tree) : t.parts.map Prod.snd = t.children := by
  cases t <;> simp [parts, children, Function.comp_def]

theorem mem_children_of_mem_parts {t : Tree} {p : Place × Tree} (hp : p ∈ t.parts) :
    p.2 ∈ t.children := t.map_parts ▸ List.mem_map_of_mem hp

/-- All places of a node are in what the node puts around its parts. -/
theorem flatMap_parts {α : Type} (g : Option Frame → Tree → List α) (t : Tree) :
    (t.parts.flatMap fun p => g p.1.frame? p.2) = t.children.flatMap (g t.frame?) := by
  cases t <;> simp [parts, children, frame?, Place.frame?, List.flatMap_map]

/-- A node and all that is in it, in the order of a visit, each with the places that lead to it,
    the outermost first. -/
def visited (t : Tree) : List (List Place × Tree) :=
  ([], t) :: t.parts.attach.flatMap fun ⟨p, _⟩ => (visited p.2).map fun o => (p.1 :: o.1, o.2)
termination_by sizeOf t
decreasing_by exact sizeOf_lt_of_mem_children (mem_children_of_mem_parts ‹_›)

/-- First comes the node, and then what is in its parts. -/
theorem visited_eq (t : Tree) :
    t.visited = ([], t) :: t.parts.flatMap fun p => p.2.visited.map fun o => (p.1 :: o.1, o.2) := by
  rw [visited, List.flatMap_subtype fun _ _ => rfl, List.unattach_attach]

end Tree

/-- What a visit puts together, if it puts what it reads off a node before what it reads off the
    parts, is what it reads off all nodes, each with what the places on the way have made of what
    was known. -/
theorem eq_flatMap_visited {σ α : Type} (down : σ → Place → σ) (own f : σ → Tree → List α)
    (hf : ∀ s t, f s t = own s t ++ t.parts.flatMap fun p => f (down s p.1) p.2) (s : σ)
    (t : Tree) : f s t = t.visited.flatMap fun o => own (o.1.foldl down s) o.2 := by
  induction t using Tree.induction_children generalizing s with
  | h t ih =>
    rw [hf, Tree.visited_eq, List.flatMap_cons, List.flatMap_assoc]
    refine congrArg (own s t ++ ·) (List.flatMap_congr fun p hp => ?_)
    rw [ih p.2 (Tree.mem_children_of_mem_parts hp), List.flatMap_map]
    rfl

end PackageAlgebra.Script
