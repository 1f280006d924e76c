import PackageAlgebra.Proofs.Cut.Links

/-!
# The Cascade as a Least Fixed Point

Which nodes go away when one is deleted.

The deletion of a node works on counts that it keeps changing, and takes nodes
from a stack in an order of its own. `Erasing` says what is true between two
steps of it, whatever the order: the count of a node is the number of its
importers that have not been taken from the stack yet, and apart from the target
the nodes that were ever put on the stack are exactly those whose importers have
all been taken from it. The second part is what makes the order irrelevant. It
also settles the cases in which a count moves at an odd moment. A node that
imports itself keeps one importer until it is itself taken, so it never reaches
the stack; the target may lose its last importer, but it is on the stack from the
start.

An edge is worked off once, since its importer is taken from the stack once.
That is why a count can be read as a number of importers at all.

When the stack is empty, the second part of the invariant is an equation for the
set of deleted nodes. That this set is the least one with the property is a third
part: whatever is put on the stack has to be in any set closed under the rule.

## Main definitions

* `CutTable.Falls`: A node loses all its importers with the target and a set.
* `CutTable.remaining`: The importers of a node that are not deleted yet.
* `CutTable.Erasing`: What holds between two steps of a deletion.

## Theorems

* `mem_release_iff`, `leftAt_release`: What one step of a deletion does.
* `Erasing.step`: A step keeps the invariant.
* `Erasing.run`: A run keeps it to the end.
* `nodup_erase`, `mem_erase_iff`, `mem_of_mem_erase`: A deletion gives the least
  set of nodes that fall, each node once.
-/

namespace PackageAlgebra

namespace CutTable

/-- A node other than the target has importers, and they all are the target or
    belong to a set. -/
def Falls (t : CutTable) (target : Nat) (s : Nat → Prop) (j : Nat) : Prop :=
  j ≠ target ∧ t.importersAt j ≠ [] ∧ ∀ i ∈ t.importersAt j, i = target ∨ s i

/-- The importers of a node that are not among the deleted ones. -/
def remaining (t : CutTable) (done : List Nat) (j : Nat) : List Nat :=
  (t.importersAt j).filter (· ∉ done)

/-- What holds while a target is being deleted: `done` was taken from the stack,
    `stack` is still to be taken. -/
structure Erasing (target : Nat) (done stack : List Nat) (t : CutTable) : Prop where
  -- Both ends of an edge know it.
  linked : t.Linked
  -- A count is the number of importers that are not deleted.
  left_eq : ∀ j, t.leftAt j = (t.remaining done j).length
  -- No node is on the stack twice.
  nodup : stack.Nodup
  -- No node comes back to the stack.
  fresh : ∀ i ∈ stack, i ∉ done
  -- The target was on the stack first.
  started : target ∈ done ∨ target ∈ stack
  -- Other nodes come to the stack when their last importer is deleted.
  met_iff : ∀ j, j ≠ target →
    ((j ∈ done ∨ j ∈ stack) ↔ t.importersAt j ≠ [] ∧ t.remaining done j = [])
  -- What came to the stack belongs to every closed set.
  least : ∀ s : Nat → Prop, (∀ j, t.Falls target s j → s j) →
    ∀ j, j ∈ done ∨ j ∈ stack → j = target ∨ s j

theorem lt_length_of_mem_importersAt {t : CutTable} {i j : Nat} (h : i ∈ t.importersAt j) :
    j < t.length := by
  by_contra hj
  unfold importersAt at h
  rw [List.getElem?_eq_none (Nat.le_of_not_lt hj)] at h
  exact absurd h List.not_mem_nil

theorem lt_length_of_mem_importsAt {t : CutTable} (ht : t.Linked) {i j : Nat}
    (h : j ∈ t.importsAt i) : j < t.length :=
  lt_length_of_mem_importersAt ((ht.mem_iff i j).1 h)

/-! ### Importers that remain -/

theorem remaining_eq_nil_iff (t : CutTable) (done : List Nat) (j : Nat) :
    t.remaining done j = [] ↔ ∀ i ∈ t.importersAt j, i ∈ done := by
  simp only [remaining, List.filter_eq_nil_iff, decide_eq_true_eq, Decidable.not_not]

/-- Deleting one more node takes it out of what remains. -/
theorem remaining_cons {t : CutTable} (ht : t.Linked) (i : Nat) (done : List Nat) (j : Nat) :
    t.remaining (i :: done) j = (t.remaining done j).erase i := by
  have hnodup : (t.remaining done j).Nodup := (ht.nodup_importers j).filter _
  rw [hnodup.erase_eq_filter]
  unfold remaining
  rw [List.filter_filter]
  refine List.filter_congr fun k _ => ?_
  by_cases hk : k = i <;> simp [hk]

/-- Tables with the same importers have the same falling nodes. -/
theorem falls_congr {t u : CutTable} (h : ∀ i j, i ∈ t.importersAt j ↔ i ∈ u.importersAt j)
    (target : Nat) (s : Nat → Prop) (j : Nat) : t.Falls target s j ↔ u.Falls target s j := by
  unfold Falls
  simp only [ne_eq, List.eq_nil_iff_forall_not_mem, h]

/-! ### One step -/

/-- What is left of some positions is still in range after one count has changed. -/
theorem in_range_modify {t : CutTable} {i : Nat} {rest : List Nat}
    (his : ∀ k ∈ i :: rest, k < t.length) (change : CutNode → CutNode) :
    ∀ k ∈ rest, k < (t.modify i change).length := by
  intro k hk
  rw [List.length_modify]
  exact his k (List.mem_cons_of_mem i hk)

theorem leftAt_modify_loseImporter (t : CutTable) (i j : Nat) (hi : i < t.length) :
    leftAt (t.modify i CutNode.loseImporter) j =
      if j = i then t.leftAt j - 1 else t.leftAt j := by
  unfold leftAt
  by_cases hj : j = i
  · subst hj
    rw [if_pos rfl, List.getElem?_modify_eq, List.getElem?_eq_getElem hi]
    rfl
  · rw [if_neg hj, List.getElem?_modify_ne _ _ fun hc => hj hc.symm]

/-- A step takes one importer off each of the given nodes. -/
theorem leftAt_release (target : Nat) (is : List Nat) (t : CutTable)
    (his : ∀ i ∈ is, i < t.length) (hnodup : is.Nodup) (j : Nat) :
    (release target is t).2.leftAt j = if j ∈ is then t.leftAt j - 1 else t.leftAt j := by
  induction is generalizing t with
  | nil => rw [if_neg List.not_mem_nil]; rfl
  | cons i rest ih =>
      have hi : i < t.length := his i List.mem_cons_self
      have hlater := ih (t.modify i CutNode.loseImporter) (in_range_modify his _)
        (List.nodup_cons.1 hnodup).2
      rw [leftAt_modify_loseImporter t i j hi] at hlater
      have hstep : (release target (i :: rest) t).2.leftAt j =
          (release target rest (t.modify i CutNode.loseImporter)).2.leftAt j := by
        simp only [release]
        split <;> rfl
      rw [hstep, hlater]
      by_cases hji : j = i
      · -- The node itself does not occur again, so it loses one importer only.
        subst hji
        rw [if_neg (List.nodup_cons.1 hnodup).1, if_pos rfl, if_pos List.mem_cons_self]
      · simp only [List.mem_cons, hji, false_or, if_false]

theorem sublist_release (target : Nat) (is : List Nat) (t : CutTable) :
    (release target is t).1.Sublist is := by
  induction is generalizing t with
  | nil => exact List.Sublist.refl _
  | cons i rest ih =>
      simp only [release]
      split
      · exact (ih (t.modify i CutNode.loseImporter)).cons_cons i
      · exact (ih (t.modify i CutNode.loseImporter)).cons i

/-- A step frees those of the given nodes that have no importer after it, the
    target aside. -/
theorem mem_release_iff (target : Nat) (is : List Nat) (t : CutTable)
    (his : ∀ i ∈ is, i < t.length) (hnodup : is.Nodup) (j : Nat) :
    j ∈ (release target is t).1 ↔
      j ∈ is ∧ j ≠ target ∧ (release target is t).2.leftAt j = 0 := by
  rw [leftAt_release target is t his hnodup j]
  induction is generalizing t with
  | nil => simp only [release, List.not_mem_nil, false_and]
  | cons i rest ih =>
      have hi : i < t.length := his i List.mem_cons_self
      have hlater := ih (t.modify i CutNode.loseImporter) (in_range_modify his _)
        (List.nodup_cons.1 hnodup).2
      rw [leftAt_modify_loseImporter t i j hi] at hlater
      have hfreed : (t.modify i CutNode.loseImporter)[i]?.map CutNode.left = some 0 ↔
          t.leftAt i - 1 = 0 := by
        unfold leftAt
        rw [List.getElem?_modify_eq, List.getElem?_eq_getElem hi]
        exact Option.some_inj
      have hhead : j ∈ (release target (i :: rest) t).1 ↔
          (j = i ∧ i ≠ target ∧ t.leftAt i - 1 = 0) ∨
            j ∈ (release target rest (t.modify i CutNode.loseImporter)).1 := by
        simp only [release, hfreed]
        split
        · next h =>
            simp only [List.mem_cons, h.1, h.2, ne_eq, not_false_eq_true, and_self, and_true]
        · next h => simp only [h, and_false, false_or]
      rw [hhead, hlater]
      by_cases hji : j = i
      · -- The rest does not free the node, which is not among it.
        subst hji
        simp [(List.nodup_cons.1 hnodup).1]
      · simp only [hji, false_and, false_or, List.mem_cons, if_false]

namespace Erasing

variable {target i : Nat} {done rest : List Nat} {t : CutTable}

/-- Every node that a step frees has lost its last importer by it. -/
theorem left_step (h : Erasing target done (i :: rest) t) (j : Nat) :
    (release target (t.importsAt i) t).2.leftAt j = (t.remaining (i :: done) j).length := by
  have hrange : ∀ k ∈ t.importsAt i, k < t.length :=
    fun k hk => lt_length_of_mem_importsAt h.linked hk
  rw [leftAt_release target (t.importsAt i) t hrange (h.linked.nodup_imports i) j,
    remaining_cons h.linked, h.left_eq j]
  by_cases hj : j ∈ t.importsAt i
  · -- The count goes down, and the node was one of the importers that remain.
    have hmem : i ∈ t.remaining done j := by
      unfold remaining
      rw [List.mem_filter]
      exact ⟨(h.linked.mem_iff i j).1 hj, by simpa using h.fresh i List.mem_cons_self⟩
    have hpos : 0 < (t.remaining done j).length := List.length_pos_of_mem hmem
    rw [if_pos hj, List.length_erase_of_mem hmem]
    omega
  · have hmem : i ∉ t.remaining done j := by
      unfold remaining
      rw [List.mem_filter]
      exact fun hc => hj ((h.linked.mem_iff i j).2 hc.1)
    rw [if_neg hj, List.erase_of_not_mem hmem]

/-- A step frees the imports of the node that have no importer after it, the
    target aside. -/
theorem freed_iff (h : Erasing target done (i :: rest) t) (j : Nat) :
    j ∈ (release target (t.importsAt i) t).1 ↔
      j ∈ t.importsAt i ∧ j ≠ target ∧ t.remaining (i :: done) j = [] := by
  have hrange : ∀ k ∈ t.importsAt i, k < t.length :=
    fun k hk => lt_length_of_mem_importsAt h.linked hk
  rw [mem_release_iff target (t.importsAt i) t hrange (h.linked.nodup_imports i) j, h.left_step j]
  rw [Int.natCast_eq_zero, List.length_eq_zero_iff]

/-- A node that a step frees was never on the stack before. -/
theorem freed_fresh (h : Erasing target done (i :: rest) t) {j : Nat}
    (hj : j ∈ (release target (t.importsAt i) t).1) : ¬ (j ∈ done ∨ j ∈ i :: rest) := by
  intro hc
  rcases (h.freed_iff j).1 hj with ⟨himp, hne, _⟩
  -- Had it been there, its importers would all be deleted, this one included.
  have hgone := ((h.met_iff j hne).1 hc).2
  have hi : i ∈ done :=
    (remaining_eq_nil_iff t done j).1 hgone i ((h.linked.mem_iff i j).1 himp)
  exact h.fresh i List.mem_cons_self hi

/-- A step keeps the invariant: the node on top of the stack is deleted, and what
    it frees comes to the stack. -/
theorem step (h : Erasing target done (i :: rest) t) :
    Erasing target (i :: done) ((release target (t.importsAt i) t).1.reverse ++ rest)
      (release target (t.importsAt i) t).2 := by
  have hcounts := resetAll_release target (t.importsAt i) t
  have himporters : ∀ j, (release target (t.importsAt i) t).2.importersAt j = t.importersAt j :=
    importersAt_congr hcounts
  have hremaining : ∀ done' j,
      (release target (t.importsAt i) t).2.remaining done' j = t.remaining done' j := by
    intro done' j
    unfold remaining
    rw [himporters]
  have hmet : ∀ j, j ≠ target →
      ((j ∈ i :: done ∨ j ∈ (release target (t.importsAt i) t).1.reverse ++ rest) ↔
        t.importersAt j ≠ [] ∧ t.remaining (i :: done) j = []) := by
    intro j hj
    have hmono : t.remaining done j = [] → t.remaining (i :: done) j = [] := by
      intro hnil
      rw [remaining_cons h.linked, hnil]
      rfl
    -- What this step meets is what it frees; everything else was met before.
    constructor
    · intro hmem
      by_cases hfreed : j ∈ (release target (t.importsAt i) t).1
      · rcases (h.freed_iff j).1 hfreed with ⟨himp, _, hnil⟩
        exact ⟨List.ne_nil_of_mem ((h.linked.mem_iff i j).1 himp), hnil⟩
      · have hold : j ∈ done ∨ j ∈ i :: rest := by
          simp only [List.mem_cons, List.mem_append, List.mem_reverse] at hmem ⊢
          tauto
        exact ⟨((h.met_iff j hj).1 hold).1, hmono ((h.met_iff j hj).1 hold).2⟩
    · rintro ⟨hne, hnil⟩
      by_cases himp : j ∈ t.importsAt i
      · exact Or.inr (List.mem_append_left _
          (List.mem_reverse.2 ((h.freed_iff j).2 ⟨himp, hj, hnil⟩)))
      · -- Not an import of the node: it had no importer left already.
        have hi : i ∉ t.remaining done j := fun hc =>
          himp ((h.linked.mem_iff i j).2 (List.mem_filter.1 hc).1)
        rw [remaining_cons h.linked, List.erase_of_not_mem hi] at hnil
        have hold := (h.met_iff j hj).2 ⟨hne, hnil⟩
        simp only [List.mem_cons, List.mem_append] at hold ⊢
        tauto
  constructor
  case linked => exact h.linked.congr hcounts.symm
  case left_eq =>
    intro j
    rw [hremaining]
    exact h.left_step j
  case nodup =>
    have hfreed : (release target (t.importsAt i) t).1.Nodup :=
      (sublist_release target (t.importsAt i) t).nodup (h.linked.nodup_imports i)
    refine List.nodup_append'.2 ⟨List.nodup_reverse.2 hfreed, (List.nodup_cons.1 h.nodup).2, ?_⟩
    intro j hj hrest
    exact h.freed_fresh (List.mem_reverse.1 hj) (Or.inr (List.mem_cons_of_mem i hrest))
  case fresh =>
    intro j hj hdone
    rcases List.mem_append.1 hj with hfreed | hrest
    · have hnew := h.freed_fresh (List.mem_reverse.1 hfreed)
      simp only [List.mem_cons] at hdone hnew
      tauto
    · rcases List.mem_cons.1 hdone with rfl | hdone
      · exact (List.nodup_cons.1 h.nodup).1 hrest
      · exact h.fresh j (List.mem_cons_of_mem i hrest) hdone
  case started =>
    have hstarted := h.started
    simp only [List.mem_cons, List.mem_append] at hstarted ⊢
    tauto
  case met_iff =>
    intro j hj
    rw [himporters, hremaining]
    exact hmet j hj
  case least =>
    intro s hs j hj
    have hs' : ∀ k, t.Falls target s k → s k :=
      fun k hk => hs k ((falls_congr (fun i j => by rw [himporters j]) target s k).2 hk)
    by_cases hjt : j = target
    · exact Or.inl hjt
    · rcases (hmet j hjt).1 hj with ⟨hne, hnil⟩
      -- The importers of the node are all deleted, and deleted nodes are in the set.
      refine Or.inr (hs' j ⟨hjt, hne, fun k hk => ?_⟩)
      have hkdone : k ∈ i :: done := (remaining_eq_nil_iff t (i :: done) j).1 hnil k hk
      refine h.least s hs' k ?_
      rcases List.mem_cons.1 hkdone with rfl | hkdone
      · exact Or.inr List.mem_cons_self
      · exact Or.inl hkdone

/-- A run keeps the invariant to the end, where the stack is empty; what it
    deletes is new, and each node is deleted once. -/
theorem run (target : Nat) (t : CutTable) (stack : List Nat) :
    ∀ done, Erasing target done stack t →
      ∃ done', Erasing target done' [] (cascade target t stack).2 ∧
        (∀ j, j ∈ done' ↔ j ∈ done ∨ j ∈ stack ∨ j ∈ (cascade target t stack).1) ∧
        (cascade target t stack).1.Nodup ∧
        ∀ j ∈ (cascade target t stack).1, j ∉ done ∧ j ∉ stack := by
  induction t, stack using cascade.induct target with
  | case1 t =>
      -- The stack is empty: the invariant as it stands is the result.
      intro done h
      rw [cascade]
      exact ⟨done, h, fun j => by simp, List.nodup_nil, fun j hj => absurd hj List.not_mem_nil⟩
  | case2 t i rest step ih =>
      intro done h
      rcases ih (i :: done) h.step with ⟨done', hend, hmem, hnodup, hnew⟩
      have hfreed : (release target (t.importsAt i) t).1.Nodup :=
        (sublist_release target (t.importsAt i) t).nodup (h.linked.nodup_imports i)
      rw [cascade]
      refine ⟨done', hend, fun j => ?_, ?_, fun j hj => ?_⟩
      · rw [hmem j]
        simp only [step, List.mem_cons, List.mem_append, List.mem_reverse]
        tauto
      · -- What is freed now is on the stack, and nothing is freed from there again.
        refine List.nodup_append'.2 ⟨hfreed, hnodup, fun j hj hlater => ?_⟩
        exact (hnew j hlater).2 (List.mem_append_left _ (List.mem_reverse.2 hj))
      · rcases List.mem_append.1 hj with hj | hj
        · exact not_or.1 (h.freed_fresh hj)
        · have hlater := hnew j hj
          simp only [step, List.mem_cons, List.mem_append, List.mem_reverse] at hlater ⊢
          tauto

end Erasing

/-! ### A whole deletion -/

variable {t : CutTable}

/-- The invariant holds before the first step of a deletion from full counts. -/
theorem erasing_start (ht : t.Linked) (target : Nat) :
    Erasing target [] [target] t.resetAll := by
  have hremaining : ∀ j, t.resetAll.remaining [] j = t.importersAt j := by
    intro j
    unfold remaining
    rw [importersAt_resetAll]
    exact List.filter_eq_self.2 fun k _ => by simp
  constructor
  case linked => exact ht.congr (t := t) (by unfold resetAll; rw [List.map_map]; rfl)
  case left_eq =>
    intro j
    rw [leftAt_resetAll, hremaining]
  case nodup => exact List.nodup_singleton target
  case fresh => exact fun i _ => List.not_mem_nil
  case started => exact Or.inr List.mem_cons_self
  case met_iff =>
    intro j hj
    rw [hremaining, importersAt_resetAll]
    simp [hj]
  case least =>
    intro s _ j hj
    rcases hj with hj | hj
    · exact absurd hj List.not_mem_nil
    · exact Or.inl (List.mem_singleton.1 hj)

/-- A deletion from full counts frees each node once. -/
theorem nodup_erase (ht : t.Linked) (target : Nat) : (t.resetAll.erase target).1.Nodup := by
  rcases Erasing.run target _ _ _ (erasing_start ht target) with ⟨_, _, _, hnodup, _⟩
  exact hnodup

/-- A deletion from full counts frees exactly the nodes that lose all their
    importers with the target and the nodes freed. -/
theorem mem_erase_iff (ht : t.Linked) (target j : Nat) :
    j ∈ (t.resetAll.erase target).1 ↔
      t.Falls target (· ∈ (t.resetAll.erase target).1) j := by
  rcases Erasing.run target _ _ _ (erasing_start ht target) with ⟨done, hend, hmem, _, hnew⟩
  have hcounts : (t.resetAll.erase target).2.resetAll = t.resetAll.resetAll :=
    resetAll_erase t.resetAll target
  have himporters : (t.resetAll.erase target).2.importersAt j = t.importersAt j :=
    (importersAt_congr hcounts j).trans (importersAt_resetAll t j)
  have hdone : ∀ i, i ∈ done ↔ i = target ∨ i ∈ (t.resetAll.erase target).1 := by
    intro i
    rw [hmem i]
    simp only [List.not_mem_nil, List.mem_singleton, false_or, erase]
  by_cases hj : j = target
  · -- The target is on the stack from the start, so it is not freed.
    refine iff_of_false (fun hc => ?_) (fun hc => hc.1 hj)
    exact (hnew j hc).2 (List.mem_singleton.2 hj)
  · have hmet := hend.met_iff j hj
    rw [remaining_eq_nil_iff] at hmet
    change _ ↔ (t.resetAll.erase target).2.importersAt j ≠ [] ∧
      ∀ i ∈ (t.resetAll.erase target).2.importersAt j, i ∈ done at hmet
    rw [himporters] at hmet
    simp only [List.not_mem_nil, or_false, hdone, hj, false_or] at hmet
    rw [hmet]
    simp only [Falls, ne_eq, hj, not_false_eq_true, true_and]

/-- The nodes that a deletion from full counts frees belong to every set that
    holds all nodes which fall with it. -/
theorem mem_of_mem_erase (ht : t.Linked) (target : Nat) (s : Nat → Prop)
    (hs : ∀ j, t.Falls target s j → s j) (j : Nat) (hj : j ∈ (t.resetAll.erase target).1) :
    s j := by
  rcases Erasing.run target _ _ _ (erasing_start ht target) with ⟨done, hend, hmem, _, hnew⟩
  have hcounts : (t.resetAll.erase target).2.resetAll = t.resetAll.resetAll :=
    resetAll_erase t.resetAll target
  have himporters : ∀ k, (t.resetAll.erase target).2.importersAt k = t.importersAt k :=
    fun k => (importersAt_congr hcounts k).trans (importersAt_resetAll t k)
  have hs' : ∀ k, (t.resetAll.erase target).2.Falls target s k → s k :=
    fun k hk => hs k ((falls_congr (fun i j => by rw [himporters j]) target s k).1 hk)
  rcases hend.least s hs' j (Or.inl ((hmem j).2 (Or.inr (Or.inr hj)))) with hjt | hsj
  · exact absurd (List.mem_singleton.2 hjt) (hnew j hj).2
  · exact hsj

end CutTable

end PackageAlgebra
