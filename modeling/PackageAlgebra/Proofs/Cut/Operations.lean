import Mathlib.Data.Finset.Card
import Mathlib.Data.Fintype.Basic
import PackageAlgebra.Proofs.Counts
import PackageAlgebra.Proofs.Cut.Moments

/-!
# Operations in any Order

What is left of a table's past after a reset.

The nodes of a table can be linked, reset and deleted in any order, and each operation goes on from
what the one before it has left. Two things are left: the links, which only grow, and the counts,
which are anything after a deletion or a partial reset. `Made` says what the links are, in terms of
the imports among the operations and of nothing else; it is kept by every operation, so it holds
after all of them. A reset of all nodes overwrites the counts by numbers of links. So after one the
past has a say by way of the imports only.

Even their order does not matter. It is seen in the lists of neighbours, and by way of these in the
order in which nodes come to the stack, but a deletion frees the least set that loses its importers,
and the total of a set does not depend on an order either.

## Main definitions

* `CutTable.Operation`: An operation on the nodes of a table.
* `CutTable.afterAll`: A table after some operations.
* `CutTable.Made`: The links of a table are the imports among some operations.

## Theorems

* `reset_eq_resetAll`: A reset of each node is one of all.
* `Made.apply`, `made_afterAll`: An operation makes its links, and so do all of them.
* `Made.length_importsAt`, `Made.length_importersAt`: The lists of neighbours count nodes.
* `perm_erase`: Deletions from the same links free the same nodes.
* `erase_after_operations`: The links, the degrees and the cuts after any operations.
-/

namespace PackageAlgebra

namespace CutTable

/-- An operation on some nodes. -/
inductive Operation (size : Nat)
  -- Let one node import another.
  | importNode (importer imported : Fin size)
  -- Put the counts of some nodes back.
  | reset (nodes : List (Fin size))
  -- Delete a node.
  | erase (target : Fin size)
  deriving DecidableEq

/-- A table after an operation. -/
def Operation.apply {size : Nat} (t : CutTable) : Operation size → CutTable
  | importNode i j => t.importNode i j
  | reset nodes => t.reset (nodes.map Fin.val)
  | erase i => (t.erase i).2

/-- A table after some operations, one after the other. -/
def afterAll {size : Nat} (t : CutTable) (ops : List (Operation size)) : CutTable :=
  ops.foldl Operation.apply t

/-- Nodes without neighbours. -/
def unlinked (nodes : List (String × Stat)) : CutTable := nodes.map fun n => .make n.1 n.2

/-- The links of a table are the imports among some operations on some nodes. -/
structure Made (nodes : List (String × Stat)) (ops : List (Operation nodes.length))
    (t : CutTable) : Prop where
  -- Both ends of a link know it.
  linked : t.Linked
  -- The table has the nodes, in their order.
  nodes_eq : t.map (fun n => (n.id, n.stat)) = nodes
  -- A node imports another if some operation has made it do so.
  mem_iff : ∀ i j : Fin nodes.length, j.val ∈ t.importsAt i ↔ .importNode i j ∈ ops

variable {nodes : List (String × Stat)} {ops ops' : List (Operation nodes.length)}
  {t u : CutTable}

/-! ### Resets -/

/-- A reset puts back the counts of the given nodes. -/
theorem getElem?_reset (t : CutTable) (is : List Nat) (k : Nat) :
    (t.reset is)[k]? = if k ∈ is then t[k]?.map CutNode.restored else t[k]? := by
  induction is generalizing t with
  | nil => rw [if_neg List.not_mem_nil]; rfl
  | cons i rest ih =>
      refine (ih (t.modify i CutNode.restored)).trans ?_
      by_cases hi : k = i
      · -- A count that is put back twice is put back.
        subst hi
        rw [List.getElem?_modify_eq, if_pos List.mem_cons_self]
        cases t[k]? <;> exact ite_self _
      · rw [List.getElem?_modify_ne _ _ fun hc => hi hc.symm]
        simp only [List.mem_cons, hi, false_or]

/-- A reset of each node is one of all. -/
theorem reset_eq_resetAll {is : List Nat} (h : ∀ k < t.length, k ∈ is) :
    t.reset is = t.resetAll := by
  refine List.ext_getElem? fun k => ?_
  rw [getElem?_reset, resetAll, List.getElem?_map]
  by_cases hk : k < t.length
  · rw [if_pos (h k hk)]
  · rw [List.getElem?_eq_none (Nat.le_of_not_lt hk), Option.map_none, ite_self]

theorem resetAll_reset (t : CutTable) (is : List Nat) : (t.reset is).resetAll = t.resetAll := by
  induction is generalizing t with
  | nil => rfl
  | cons i rest ih =>
      exact (ih (t.modify i CutNode.restored)).trans
        (resetAll_modify CutNode.restored (fun _ => rfl) t i)

/-! ### Links -/

/-- Before any operation nothing is linked. -/
theorem made_unlinked (nodes : List (String × Stat)) : Made nodes [] (unlinked nodes) where
  linked := linked_map_make Prod.fst Prod.snd nodes
  nodes_eq := by
    unfold unlinked
    rw [List.map_map]
    exact List.map_id nodes
  mem_iff i j := by
    unfold unlinked
    rw [importsAt_map_make]
    simp only [List.not_mem_nil]

namespace Made

theorem length_eq (h : Made nodes ops t) : t.length = nodes.length := by
  rw [← h.nodes_eq, List.length_map]

/-- Counts have no part in what links are made. -/
theorem congr (heq : t.resetAll = u.resetAll) (h : Made nodes ops t) : Made nodes ops u where
  linked := h.linked.congr heq
  nodes_eq := by
    refine .trans (List.ext_getElem? fun k => ?_) h.nodes_eq
    rw [List.getElem?_map, List.getElem?_map]
    exact map_getElem?_congr (fun _ => rfl) heq.symm k
  mem_iff i j := by
    rw [← importsAt_congr heq]
    exact h.mem_iff i j

/-- Only the imports among the operations matter. -/
theorem of_imports (himports : ∀ i j, .importNode i j ∈ ops ↔ .importNode i j ∈ ops')
    (h : Made nodes ops t) : Made nodes ops' t :=
  ⟨h.linked, h.nodes_eq, fun i j => (h.mem_iff i j).trans (himports i j)⟩

/-- An operation makes its link, if it is an import. -/
theorem apply (h : Made nodes ops t) (op : Operation nodes.length) :
    Made nodes (ops ++ [op]) (op.apply t) := by
  have hcounts : (∀ i j, op ≠ .importNode i j) → (op.apply t).resetAll = t.resetAll →
      Made nodes (ops ++ [op]) (op.apply t) := by
    intro hop heq
    refine (h.congr heq.symm).of_imports fun i j => ?_
    simp only [List.mem_append, List.mem_singleton, (hop i j).symm, or_false]
  cases op with
  | reset is => exact hcounts (fun _ _ => nofun) (resetAll_reset t (is.map Fin.val))
  | erase i => exact hcounts (fun _ _ => nofun) (resetAll_erase t i)
  | importNode a b =>
      have ha : a.val < t.length := h.length_eq.symm ▸ a.isLt
      have hb : b.val < t.length := h.length_eq.symm ▸ b.isLt
      refine ⟨linked_importNode t a b ha hb h.linked, ?_, fun i j => ?_⟩
      · refine .trans (List.ext_getElem? fun k => ?_) h.nodes_eq
        rw [List.getElem?_map, List.getElem?_map]
        exact map_getElem?_importNode _ (fun _ _ _ _ => rfl) t a b k
      · refine (mem_importsAt_importNode t a b i j ha).trans ?_
        simp only [h.mem_iff, List.mem_append, List.mem_singleton, Operation.importNode.injEq,
          Fin.val_inj]

end Made

/-- The links of a table are the imports among all operations on it. -/
theorem made_afterAll (nodes : List (String × Stat)) (ops : List (Operation nodes.length)) :
    Made nodes ops ((unlinked nodes).afterAll ops) := by
  induction ops using List.reverseRecOn with
  | nil => exact made_unlinked nodes
  | append_singleton ops op ih =>
      unfold afterAll
      rw [List.foldl_append]
      exact ih.apply op

/-! ### Degrees -/

/-- A list of different positions is as long as there are positions in it. -/
theorem length_eq_card {size : Nat} {is : List Nat} (hnodup : is.Nodup)
    (hrange : ∀ i ∈ is, i < size) {p : Fin size → Prop} [DecidablePred p]
    (hp : ∀ i : Fin size, i.val ∈ is ↔ p i) : is.length = (Finset.univ.filter p).card := by
  have himage : (Finset.univ.filter p).map Fin.valEmbedding = is.toFinset := by
    ext i
    simp only [Finset.mem_map, Finset.mem_filter, Finset.mem_univ, true_and, List.mem_toFinset,
      Fin.valEmbedding_apply]
    constructor
    · rintro ⟨j, hj, rfl⟩
      exact (hp j).2 hj
    · intro hi
      exact ⟨⟨i, hrange i hi⟩, (hp _).1 hi, rfl⟩
  rw [← List.toFinset_card_of_nodup hnodup, ← himage, Finset.card_map]

namespace Made

/-- Only nodes are linked. -/
theorem range (h : Made nodes ops t) {i j : Nat} (hj : j ∈ t.importsAt i) :
    i < nodes.length ∧ j < nodes.length := by
  rw [← h.length_eq]
  refine ⟨?_, lt_length_of_mem_importsAt h.linked hj⟩
  by_contra hi
  unfold importsAt at hj
  rw [List.getElem?_eq_none (Nat.le_of_not_lt hi)] at hj
  exact absurd hj List.not_mem_nil

/-- A node imports as many nodes as some operation has made it import. -/
theorem length_importsAt (h : Made nodes ops t) (i : Fin nodes.length) :
    (t.importsAt i).length =
      (Finset.univ.filter fun j => Operation.importNode i j ∈ ops).card :=
  length_eq_card (h.linked.nodup_imports i) (fun _ hj => (h.range hj).2) (h.mem_iff i)

/-- A node is imported by as many nodes as some operation has made import it. -/
theorem length_importersAt (h : Made nodes ops t) (j : Fin nodes.length) :
    (t.importersAt j).length =
      (Finset.univ.filter fun i => Operation.importNode i j ∈ ops).card :=
  length_eq_card (h.linked.nodup_importers j)
    (fun i hi => (h.range ((h.linked.mem_iff i j).2 hi)).1)
    fun i => (h.linked.mem_iff i j).symm.trans (h.mem_iff i j)

/-- The nodes give a total, with whatever links they have. -/
theorem statOf_eq (h : Made nodes ops t) (positions : List Nat) :
    t.statOf positions = totalStat (positions.filterMap fun i => nodes[i]?.map Prod.snd) := by
  unfold statOf
  congr 1
  refine List.filterMap_congr fun i _ => ?_
  conv_rhs => rw [← h.nodes_eq]
  rw [List.getElem?_map, Option.map_map]
  rfl

end Made

/-! ### Deletions -/

/-- Deletions from the same links free the same nodes, in whatever order. -/
theorem perm_erase (ht : t.Linked) (hu : u.Linked)
    (h : ∀ i j, j ∈ t.importsAt i ↔ j ∈ u.importsAt i) (target : Nat) :
    (t.resetAll.erase target).1.Perm (u.resetAll.erase target).1 := by
  have hfalls : ∀ s j, t.Falls target s j ↔ u.Falls target s j :=
    falls_congr (fun i j => (ht.mem_iff i j).symm.trans ((h i j).trans (hu.mem_iff i j))) target
  refine (List.perm_ext_iff_of_nodup (nodup_erase ht target) (nodup_erase hu target)).2 fun j => ?_
  constructor
  · exact mem_of_mem_erase ht target _ (fun k hk => (mem_erase_iff hu target k).2
      ((hfalls _ k).1 hk)) j
  · exact mem_of_mem_erase hu target _ (fun k hk => (mem_erase_iff ht target k).2
      ((hfalls _ k).2 hk)) j

namespace Made

/-- Tables with the same imports among their operations have the same links. -/
theorem mem_importsAt_iff (ht : Made nodes ops t) (hu : Made nodes ops u) (i j : Nat) :
    j ∈ t.importsAt i ↔ j ∈ u.importsAt i := by
  have hle : ∀ {t u}, Made nodes ops t → Made nodes ops u →
      j ∈ t.importsAt i → j ∈ u.importsAt i := by
    intro t u ht hu hj
    have hrange := ht.range hj
    exact (hu.mem_iff ⟨i, hrange.1⟩ ⟨j, hrange.2⟩).2 ((ht.mem_iff ⟨i, hrange.1⟩ ⟨j, hrange.2⟩).1 hj)
  exact ⟨hle ht hu, hle hu ht⟩

/-- The total that a deletion gives after a reset of all nodes depends on the nodes and on the
    imports among the operations. -/
theorem statOf_erase_eq (ht : Made nodes ops t) (hu : Made nodes ops u) (target : Nat) :
    t.resetAll.statOf (t.resetAll.erase target).1 =
      u.resetAll.statOf (u.resetAll.erase target).1 := by
  have hperm := perm_erase ht.linked hu.linked (ht.mem_importsAt_iff hu) target
  rw [(ht.congr (resetAll_resetAll t).symm).statOf_eq,
    (hu.congr (resetAll_resetAll u).symm).statOf_eq]
  exact totalStat_perm (hperm.filterMap _)

theorem apply_reset (h : Made nodes ops t) {all : List (Fin nodes.length)} (hall : ∀ i, i ∈ all) :
    Operation.apply t (.reset all) = t.resetAll := by
  refine reset_eq_resetAll fun k hk => ?_
  exact List.mem_map.2 ⟨⟨k, h.length_eq ▸ hk⟩, hall _, rfl⟩

end Made

open Moment

/-- After any operations on some nodes, an importer knows what it imports and the other way around,
    and a row counts each neighbour once. If then all nodes are reset, the deletion of a node gives
    a total that depends on the imports among the operations and on nothing else, and at each
    moment of it the count of a node is neither below zero nor above the number of its
    importers. -/
theorem erase_after_operations (nodes : List (String × Stat))
    (ops : List (Operation nodes.length)) :
    let t := (unlinked nodes).afterAll ops
    (∀ i j, j ∈ t.importsAt i ↔ i ∈ t.importersAt j) ∧
    (∀ i j : Fin nodes.length, j.val ∈ t.importsAt i ↔ Operation.importNode i j ∈ ops) ∧
    (∀ i, (t.importsAt i).Nodup ∧ (t.importersAt i).Nodup) ∧
    (∀ i : Fin nodes.length, ∃ n, t[i.val]? = some n ∧ ∀ cut,
      (CutRow.ofNode n cut).outDegree =
        (Finset.univ.filter fun j => Operation.importNode i j ∈ ops).card ∧
      (CutRow.ofNode n cut).inDegree =
        (Finset.univ.filter fun j => Operation.importNode j i ∈ ops).card) ∧
    ∀ (target : Fin nodes.length) (all : List (Fin nodes.length)), (∀ i, i ∈ all) →
      let full := Operation.apply t (.reset all)
      (∀ (ops' : List (Operation nodes.length)) (all' : List (Fin nodes.length)),
        (∀ i, i ∈ all') →
        (∀ i j, Operation.importNode i j ∈ ops' ↔ Operation.importNode i j ∈ ops) →
        let full' := Operation.apply ((unlinked nodes).afterAll ops') (.reset all')
        full'.statOf (full'.erase target).1 = full.statOf (full.erase target).1) ∧
      Leads target (first full target) (last (full.erase target)) ∧
      ∀ m, Leads target (first full target) m →
        ∀ i, 0 ≤ m.table.leftAt i ∧ m.table.leftAt i ≤ (t.importersAt i).length := by
  intro t
  have hmade : Made nodes ops t := made_afterAll nodes ops
  refine ⟨hmade.linked.mem_iff, hmade.mem_iff, fun i => ⟨hmade.linked.nodup_imports i,
    hmade.linked.nodup_importers i⟩, fun i => ?_, fun target all hall => ?_⟩
  · have hi : i.val < t.length := hmade.length_eq.symm ▸ i.isLt
    have hget := List.getElem?_eq_getElem hi
    refine ⟨t[i.val], hget, fun cut => ⟨?_, ?_⟩⟩
    · rw [← hmade.length_importsAt i, importsAt, hget]
      rfl
    · rw [← hmade.length_importersAt i, importersAt, hget]
      rfl
  · intro full
    have hfull : full = t.resetAll := hmade.apply_reset hall
    refine ⟨fun ops' all' hall' himports => ?_, leads_erase full target, fun m hm => ?_⟩
    · intro full'
      have hmade' : Made nodes ops ((unlinked nodes).afterAll ops') :=
        (made_afterAll nodes ops').of_imports himports
      rw [hfull, show full' = _ from hmade'.apply_reset hall']
      exact hmade'.statOf_erase_eq hmade target
    · rw [hfull] at hm
      exact leftAt_bounds_of_leads hmade.linked hm

/-- Three nodes. -/
def threeNodes : List (String × Stat) := [("A", .single), ("B", .single), ("C", .single)]

/-- The first node comes to import itself and the second one, and the second one the third. -/
def directOperations : List (Operation 3) := [.importNode 0 0, .importNode 0 1, .importNode 1 2]

/-- The same links are made in another order, one of them twice, while nodes are deleted. -/
def mixedOperations : List (Operation 3) :=
  [.importNode 1 2, .erase 1, .importNode 0 1, .reset [2], .importNode 0 0, .erase 0,
    .importNode 0 1, .erase 2]

/-- The second and the third node go away with the first one, whatever came before. -/
theorem erase_after_operations_mixed :
    let full := Operation.apply ((unlinked threeNodes).afterAll directOperations)
      (.reset ([0, 1, 2] : List (Fin 3)))
    let full' := Operation.apply ((unlinked threeNodes).afterAll mixedOperations)
      (.reset ([2, 0, 1] : List (Fin 3)))
    (∀ i : Fin 3, i ∈ [2, 0, 1]) ∧
    (∀ i j, Operation.importNode i j ∈ mixedOperations ↔
      Operation.importNode i j ∈ directOperations) ∧
    full'.statOf (full'.erase 0).1 = full.statOf (full.erase 0).1 ∧
    (full.statOf (full.erase 0).1).packageCount = 2 := by
  intro full full'
  have hall : ∀ i : Fin 3, i ∈ [0, 1, 2] := by decide
  have hall' : ∀ i : Fin 3, i ∈ [2, 0, 1] := by decide
  have himports : ∀ i j, Operation.importNode i j ∈ mixedOperations ↔
      Operation.importNode i j ∈ directOperations := by decide
  have hsame := ((erase_after_operations threeNodes directOperations).2.2.2.2
    (0 : Fin 3) _ hall).1
    mixedOperations _ hall' himports
  have hgone : (full.erase 0).1 = [1, 2] := by
    simp [full, threeNodes, directOperations, unlinked, afterAll, Operation.apply, importNode,
      reset, erase, cascade, release, importsAt, CutNode.make, CutNode.gainImporter,
      CutNode.gainImport, CutNode.restored, CutNode.loseImporter]
  refine ⟨hall', himports, hsame, ?_⟩
  rw [hgone]
  rfl

end CutTable

end PackageAlgebra
