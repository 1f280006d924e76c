import PackageAlgebra.Proofs.Cut.Cascade
import Mathlib.Logic.Relation

/-!
# Moments of a Deletion

What the counts are while a node is being deleted.

A deletion was described by what it leaves behind and by an invariant that holds whenever a node is
about to be taken from the stack. In between, the node that was taken last is taken off the counts
of its imports one by one, and while that goes on the invariant does not hold: some of the imports
have lost the node already, others have not. Here the deletion is cut into moments, of which the
next one differs by one count at most, so that something can be said of all of them.

A moment inside of such a round lies between the invariants before and after it. A count is at most
what it was before the round, and at least what it will be after it; both are numbers of importers.
So a count that is right before the first moment is neither below zero nor above the number of
importers at any moment, and that a node is freed when its count reaches zero means that it never
had more importers than it has lost.

## Main definitions

* `CutTable.Moment`: The loop variables of a deletion.
* `Moment.next?`: The next moment, in which one count has changed at most.
* `Moment.Leads`: A moment comes after another one.
* `CutTable.Amid`: What holds at each moment of a deletion.

## Theorems

* `leads_erase`: The moments of a deletion lead to its result.
* `Amid.next`: The next moment keeps the invariant.
* `leftAt_bounds_of_leads`: The counts at each moment of a deletion from full counts.
-/

namespace PackageAlgebra

open Relation

namespace CutTable

/-- The loop variables of a deletion. -/
structure Moment where
  -- The imports from which the node taken last is still to be taken off.
  pending : List Nat
  -- The nodes that are still to be taken, the next one first.
  stack : List Nat
  -- The nodes freed so far, in order.
  gone : List Nat
  -- The nodes with their counts.
  table : CutTable

namespace Moment

/-- The moment before anything happens. -/
def first (t : CutTable) (target : Nat) : Moment := ⟨[], [target], [], t⟩

/-- The moment when nothing is left to do. -/
def last (result : List Nat × CutTable) : Moment := ⟨[], [], result.1, result.2⟩

/-- The next moment of the deletion of a target, if there is one. Either an import loses an
    importer, or a node is taken from the stack. -/
def next? (target : Nat) (m : Moment) : Option Moment :=
  match m.pending, m.stack with
  | [], [] => none
  | [], i :: stack => some ⟨m.table.importsAt i, stack, m.gone, m.table⟩
  | i :: pending, stack =>
    let t := m.table.modify i CutNode.loseImporter
    if i ≠ target ∧ t[i]?.map CutNode.left = some 0 then
      some ⟨pending, i :: stack, m.gone ++ [i], t⟩
    else some ⟨pending, stack, m.gone, t⟩

/-- One moment of the deletion of a target comes after another one, or is the same. -/
def Leads (target : Nat) : Moment → Moment → Prop :=
  ReflTransGen fun m m' => m.next? target = some m'

end Moment

open Moment

variable {target i j : Nat} {t : CutTable} {m m' : Moment}

/-! ### The result of a deletion -/

/-- The moments in which a node is taken off its imports lead to the result of the round. -/
theorem leads_release (target : Nat) (is stack gone : List Nat) (t : CutTable) :
    Leads target ⟨is, stack, gone, t⟩
      ⟨[], (release target is t).1.reverse ++ stack, gone ++ (release target is t).1,
        (release target is t).2⟩ := by
  induction is generalizing stack gone t with
  | nil =>
      simp only [release, List.reverse_nil, List.nil_append, List.append_nil]
      exact .refl
  | cons i rest ih =>
      by_cases hfree : i ≠ target ∧
          (t.modify i CutNode.loseImporter)[i]?.map CutNode.left = some 0
      · simp only [release, if_pos hfree, List.reverse_cons, List.append_assoc,
          List.singleton_append]
        have hlater := ih (i :: stack) (gone ++ [i]) (t.modify i CutNode.loseImporter)
        rw [List.append_assoc, List.singleton_append] at hlater
        exact .head (by simp only [next?, if_pos hfree]) hlater
      · simp only [release, if_neg hfree]
        exact .head (by simp only [next?, if_neg hfree])
          (ih stack gone (t.modify i CutNode.loseImporter))

theorem leads_cascade (target : Nat) (t : CutTable) (stack gone : List Nat) :
    Leads target ⟨[], stack, gone, t⟩
      ⟨[], [], gone ++ (cascade target t stack).1, (cascade target t stack).2⟩ := by
  induction t, stack using cascade.induct target generalizing gone with
  | case1 t =>
      rw [cascade, List.append_nil]
      exact .refl
  | case2 t i rest step ih =>
      rw [cascade, ← List.append_assoc]
      exact .head rfl ((leads_release target (t.importsAt i) rest gone t).trans (ih _))

/-- The moments of a deletion lead to its result. -/
theorem leads_erase (t : CutTable) (target : Nat) :
    Leads target (first t target) (last (t.erase target)) :=
  leads_cascade target t [target] []

/-- No moment changes anything but counts. -/
theorem resetAll_of_leads (h : Leads target m m') : m'.table.resetAll = m.table.resetAll := by
  induction h with
  | refl => rfl
  | @tail m m' _ hnext ih =>
      rw [← ih]
      rcases m with ⟨_ | ⟨i, pending⟩, _ | ⟨k, stack⟩, gone, t⟩
      · cases hnext
      · cases hnext
        rfl
      all_goals
        simp only [next?] at hnext
        split at hnext <;> cases hnext <;>
          exact resetAll_modify CutNode.loseImporter (fun _ => rfl) t i

/-! ### The counts on the way -/

/-- What holds at each moment of a deletion: the invariant itself, or a round is going on that
    began with it. -/
inductive Amid (target : Nat) : Moment → Prop
  | between {done stack gone : List Nat} {t : CutTable} (h : Erasing target done stack t) :
      Amid target ⟨[], stack, gone, t⟩
  | within {done rest worked pending gone : List Nat} {i : Nat} {t : CutTable}
      (h : Erasing target done (i :: rest) t) (himports : t.importsAt i = worked ++ pending) :
      Amid target ⟨pending, (release target worked t).1.reverse ++ rest, gone,
        (release target worked t).2⟩

/-- One import more loses its importer. -/
theorem release_concat (target : Nat) (is : List Nat) (i : Nat) (t : CutTable) :
    release target (is ++ [i]) t =
      let before := release target is t
      let t' := before.2.modify i CutNode.loseImporter
      if i ≠ target ∧ t'[i]?.map CutNode.left = some 0 then (before.1 ++ [i], t')
      else (before.1, t') := by
  induction is generalizing t with
  | nil => rfl
  | cons k rest ih =>
      simp only [List.cons_append, release, ih]
      split <;> split <;> rfl

namespace Amid

/-- The next moment keeps the invariant. -/
theorem next (h : Amid target m) (hnext : m.next? target = some m') : Amid target m' := by
  have htake : ∀ {done stack gone t m'}, Erasing target done stack t →
      next? target ⟨[], stack, gone, t⟩ = some m' → Amid target m' := by
    intro done stack gone t m' h hnext
    cases stack with
    | nil => cases hnext
    | cons i rest =>
        cases hnext
        exact @within target done rest [] (t.importsAt i) gone i t h rfl
  cases h with
  | between h => exact htake h hnext
  | @within done rest worked pending gone i t h himports =>
      cases pending with
      | nil =>
          -- The round is over, and with it the step that keeps the invariant of the deletion.
          rw [List.append_nil] at himports
          exact htake (himports ▸ h.step) hnext
      | cons k pending =>
          have hworked : t.importsAt i = (worked ++ [k]) ++ pending := by
            rw [himports, List.append_assoc, List.singleton_append]
          have hround := @within target done rest (worked ++ [k]) pending m'.gone i t h hworked
          simp only [release_concat] at hround
          simp only [next?] at hnext
          split at hnext
          · next hfree =>
              rw [if_pos hfree, List.reverse_concat, List.cons_append] at hround
              cases hnext
              exact hround
          · next hfree =>
              rw [if_neg hfree] at hround
              cases hnext
              exact hround

theorem of_leads (h : Amid target m) (hleads : Leads target m m') : Amid target m' := by
  induction hleads with
  | refl => exact h
  | tail _ hnext ih => exact ih.next hnext

/-- At each moment a count is neither below zero nor above the number of importers. -/
theorem leftAt_bounds (h : Amid target m) (j : Nat) :
    0 ≤ m.table.leftAt j ∧ m.table.leftAt j ≤ (m.table.importersAt j).length := by
  have hbetween : ∀ {done stack t}, Erasing target done stack t →
      0 ≤ t.leftAt j ∧ t.leftAt j ≤ (t.importersAt j).length := by
    intro done stack t h
    rw [h.left_eq j]
    exact ⟨Int.natCast_nonneg _, Int.ofNat_le.2 (List.length_filter_le _ _)⟩
  cases h with
  | between h => exact hbetween h
  | @within done rest worked pending gone i t h himports =>
      have hrange : ∀ k ∈ t.importsAt i, k < t.length :=
        fun k hk => lt_length_of_mem_importsAt h.linked hk
      have hnodup := h.linked.nodup_imports i
      have hcounts : ∀ is, (release target is t).2.importersAt j = t.importersAt j :=
        fun is => importersAt_congr (resetAll_release target is t) j
      -- The counts before the round and after it.
      have hbefore := hbetween h
      have hafter := hbetween h.step
      rw [leftAt_release target _ t hrange hnodup, hcounts] at hafter
      rw [himports] at hrange hnodup hafter
      change 0 ≤ (release target worked t).2.leftAt j ∧
        (release target worked t).2.leftAt j ≤ ((release target worked t).2.importersAt j).length
      rw [leftAt_release target worked t (fun k hk => hrange k (List.mem_append_left _ hk))
        (List.nodup_append.1 hnodup).1, hcounts]
      by_cases hj : j ∈ worked
      · rw [if_pos (List.mem_append_left _ hj)] at hafter
        rwa [if_pos hj]
      · rwa [if_neg hj]

end Amid

/-- At each moment of a deletion from full counts, the count of a node is neither below zero nor
    above the number of its importers. -/
theorem leftAt_bounds_of_leads (ht : t.Linked) (h : Leads target (first t.resetAll target) m)
    (j : Nat) : 0 ≤ m.table.leftAt j ∧ m.table.leftAt j ≤ (t.importersAt j).length := by
  have hamid : Amid target m := (Amid.between (erasing_start ht target)).of_leads h
  have hcounts : m.table.resetAll = t.resetAll := (resetAll_of_leads h).trans (resetAll_resetAll t)
  rw [← importersAt_congr hcounts]
  exact hamid.leftAt_bounds j

end CutTable

end PackageAlgebra
