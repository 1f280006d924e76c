import Mathlib.Data.Set.Finite.List
import Mathlib.Logic.Relation
import Mathlib.Order.WellFounded

/-!
# Edges with a Detour

When a graph can do without the edges that have a detour.

An edge has a detour if a path of two edges or more leads from its beginning to its
end. Some vertices lose all their edges of that kind at once, so the detour of an
edge may go through edges that are lost as well. Without cycles this does no harm:
an edge that is lost is replaced by an edge with a longer way to go, and the longest
way is kept. On a cycle the replacement comes back to where it began. A vertex on a
cycle loses all its edges, because each of them is its own detour after one more
turn, and a vertex before a cycle loses all its edges into it.

What remains of this is an exact condition, `transGen_pruned_iff`. It asks that no
vertex that loses edges is on a cycle, and that a cycle is entered from such a
vertex by way of one that is on none. Each half of the proof that this is enough is
an induction on a well-founded order, since there are finitely many ends of edges:
an edge is replaced by ones from farther and farther up, and the rest of its way is
repaired from farther and farther down.

## Main definitions

* `Detour`: A path of two edges or more.
* `Pruned`: What is left when some vertices lose their edges with a detour.
* `ApproachesCycles`: How a vertex may have edges to vertices on cycles.

## Theorems

* `not_transGen_without`: None of the edges that are left is superfluous.
* `exists_pruned_toward`: Of the edges that lead toward a vertex, one is left.
* `transGen_pruned_iff`: When the edges that are left lead wherever all edges do.
-/

namespace PackageAlgebra

open Relation

variable {α : Type} {r : α → α → Prop} {members : Set α} {x y : α}

/-- A path of two edges or more. -/
def Detour (r : α → α → Prop) (x y : α) : Prop := ∃ z, r x z ∧ TransGen r z y

/-- What is left when some vertices lose their edges that have a detour. -/
def Pruned (r : α → α → Prop) (members : Set α) (x y : α) : Prop :=
  r x y ∧ (x ∈ members → ¬ Detour r x y)

/-- Where an edge of a vertex ends on a cycle, another one leads there and ends on
    no cycle. -/
def ApproachesCycles (r : α → α → Prop) (x : α) : Prop :=
  ∀ y, r x y → TransGen r y y → ∃ z, r x z ∧ ¬ TransGen r z z ∧ TransGen r z y

/-- All edges of a vertex on a cycle have a detour, and all edges to one. -/
theorem detour_of_cycle (h : r x y) (hcycle : TransGen r x x ∨ TransGen r y y) :
    Detour r x y := by
  rcases hcycle with hx | hy
  · rcases TransGen.head'_iff.1 hx with ⟨z, hxz, hzx⟩
    exact ⟨z, hxz, TransGen.tail' hzx h⟩
  · exact ⟨y, h, hy⟩

theorem transGen_of_pruned (h : TransGen (Pruned r members) x y) : TransGen r x y :=
  TransGen.mono (fun _ _ hedge => hedge.1) _ _ h

/-- Nothing that is left replaces an edge that is left. -/
theorem not_transGen_without (h : Pruned r members x y) (hx : x ∈ members) :
    ¬ TransGen (fun a b => Pruned r members a b ∧ ¬ (a = x ∧ b = y)) x y := by
  intro hpath
  rcases TransGen.head'_iff.1 hpath with ⟨z, ⟨hxz, hne⟩, hzy⟩
  rcases reflTransGen_iff_eq_or_transGen.1 hzy with rfl | hzy
  · exact hne ⟨rfl, rfl⟩
  · exact h.2 hx ⟨z, hxz.1, TransGen.mono (fun _ _ hedge => hedge.1.1) _ _ hzy⟩

/-- A path stays a path when each of its edges is replaced by one. -/
theorem transGen_of_edges {q : α → α → Prop}
    (hedges : ∀ a b, (a = x ∨ TransGen r x a) → r a b → TransGen q a b) (h : TransGen r x y) :
    TransGen q x y := by
  induction h with
  | single hxy => exact hedges x _ (Or.inl rfl) hxy
  | tail hxa hab ih => exact ih.trans (hedges _ _ (Or.inr hxa) hab)

/-! ### Finitely many ends -/

/-- An order is well founded if all that is below anything is in a list. -/
theorem wellFounded_of_list (targets : List α) {below : α → α → Prop}
    (htrans : ∀ a b c, below a b → below b c → below a c) (hirrefl : ∀ a, ¬ below a a)
    (htargets : ∀ a b, below a b → a ∈ targets) : WellFounded below := by
  let belowTarget : {a // a ∈ targets} → {a // a ∈ targets} → Prop := fun a b => below a.1 b.1
  have : Finite {a // a ∈ targets} := (List.finite_toSet targets).to_subtype
  have : IsTrans _ belowTarget := ⟨fun a b c => htrans a.1 b.1 c.1⟩
  have : Std.Irrefl belowTarget := ⟨fun a => hirrefl a.1⟩
  have hwf : WellFounded belowTarget := Finite.wellFounded_of_trans_of_irrefl belowTarget
  have hacc : ∀ a : {a // a ∈ targets}, Acc below a.1 := by
    intro a
    induction a using hwf.induction with
    | _ a ih => exact Acc.intro a.1 fun b hb => ih ⟨b, htargets b a.1 hb⟩ hb
  exact ⟨fun a => Acc.intro a fun b hb => hacc ⟨b, htargets b a hb⟩⟩

variable {targets : List α} (htargets : ∀ {a b}, r a b → b ∈ targets)

include htargets

/-- Of the edges that lead toward a vertex, one is left. -/
theorem exists_pruned_toward (hx : ApproachesCycles r x) (h : r x y) :
    ∃ z, Pruned r members x z ∧ ReflTransGen r z y := by
  -- From an edge we go to one with a longer way, which comes to an end off the cycles.
  have hwf : WellFounded fun a b => a ∈ targets ∧ TransGen r a b ∧ ¬ TransGen r a a :=
    wellFounded_of_list targets (fun a b c hab hbc => ⟨hab.1, hab.2.1.trans hbc.2.1, hab.2.2⟩)
      (fun a ha => ha.2.2 ha.2.1) (fun a b hab => hab.1)
  induction y using hwf.induction with
  | _ y ih =>
      by_cases hdetour : Detour r x y
      · rcases hdetour with ⟨f, hxf, hfy⟩
        -- If the detour begins on a cycle, the edge that leads to it is the better one.
        have habove : ∃ g, r x g ∧ ¬ TransGen r g g ∧ TransGen r g y := by
          by_cases hf : TransGen r f f
          · rcases hx f hxf hf with ⟨g, hxg, hg, hgf⟩
            exact ⟨g, hxg, hg, hgf.trans hfy⟩
          · exact ⟨f, hxf, hf, hfy⟩
        rcases habove with ⟨g, hxg, hg, hgy⟩
        rcases ih g ⟨htargets hxg, hgy, hg⟩ hxg with ⟨z, hz, hzg⟩
        exact ⟨z, hz, hzg.trans hgy.to_reflTransGen⟩
      · exact ⟨y, ⟨h, fun _ => hdetour⟩, .refl⟩

/-- An edge is replaced by a path of edges that are left. -/
theorem transGen_pruned_of_edge (hfree : ∀ x ∈ members, ¬ TransGen r x x)
    (happroach : ∀ x ∈ members, ApproachesCycles r x) (h : r x y) :
    TransGen (Pruned r members) x y := by
  -- What lies behind a vertex without leading back is below it.
  have hwf : WellFounded fun a b => TransGen r b a ∧ ¬ TransGen r a a := by
    refine wellFounded_of_list targets (fun a b c hab hbc => ⟨hbc.1.trans hab.1, hab.2⟩)
      (fun a ha => ha.2 ha.1) fun a b hab => ?_
    rcases TransGen.tail'_iff.1 hab.1 with ⟨c, _, hca⟩
    exact htargets hca
  induction x using hwf.induction generalizing y with
  | _ x ih =>
      by_cases hx : x ∈ members
      · rcases exists_pruned_toward htargets (happroach x hx) h with ⟨z, hz, hzy⟩
        -- Behind the edge that is left, each edge is its own or that of a member below.
        have hlater : ∀ a b, (a = z ∨ TransGen r z a) → r a b →
            TransGen (Pruned r members) a b := by
          intro a b ha hab
          by_cases hmember : a ∈ members
          · refine ih a ⟨?_, hfree a hmember⟩ hab
            rcases ha with rfl | ha
            · exact .single hz.1
            · exact .head hz.1 ha
          · exact .single ⟨hab, fun hmem => absurd hmem hmember⟩
        rcases reflTransGen_iff_eq_or_transGen.1 hzy with rfl | hzy
        · exact .single hz
        · exact .head hz (transGen_of_edges hlater hzy)
      · exact .single ⟨h, fun hmem => absurd hmem hx⟩

/-- The edges that are left lead wherever all edges do if and only if no vertex that
    loses edges is on a cycle, and each of them approaches the cycles that it has an
    edge to. -/
theorem transGen_pruned_iff :
    (∀ x y, TransGen (Pruned r members) x y ↔ TransGen r x y) ↔
      (∀ x ∈ members, ¬ TransGen r x x) ∧ ∀ x ∈ members, ApproachesCycles r x := by
  constructor
  · intro h
    -- A path begins with an edge that is left, which has no end on a cycle.
    have hfirst : ∀ {x y}, x ∈ members → TransGen r x y →
        ∃ z, r x z ∧ ¬ Detour r x z ∧ ReflTransGen r z y := by
      intro x y hx hxy
      rcases TransGen.head'_iff.1 ((h x y).2 hxy) with ⟨z, hz, hzy⟩
      exact ⟨z, hz.1, hz.2 hx, ReflTransGen.mono (fun _ _ hedge => hedge.1) _ _ hzy⟩
    constructor
    · intro x hx hcycle
      rcases hfirst hx hcycle with ⟨z, hxz, hz, _⟩
      exact hz (detour_of_cycle hxz (Or.inl hcycle))
    · intro x hx y hxy hcycle
      rcases hfirst hx (.single hxy) with ⟨z, hxz, hz, hzy⟩
      have hfree : ¬ TransGen r z z := fun hc => hz (detour_of_cycle hxz (Or.inr hc))
      rcases reflTransGen_iff_eq_or_transGen.1 hzy with rfl | hzy
      · exact absurd hcycle hfree
      · exact ⟨z, hxz, hfree, hzy⟩
  · rintro ⟨hfree, happroach⟩ x y
    exact ⟨transGen_of_pruned,
      transGen_of_edges fun a b _ hab => transGen_pruned_of_edge htargets hfree happroach hab⟩

end PackageAlgebra
