import PackageAlgebra.Proofs.Cut.GraphTable
import Mathlib.Data.Finset.Dedup

/-!
# The Rows of the Analysis

Each row shows the least cut of its target, whatever else was asked for.

The targets of one call share a table whose counts each deletion leaves behind
for the next. A reset before each deletion makes that invisible: tables that
differ in counts only have one reset, so the row of a target is a function of
the graph and the target, and `rowsOf` writes the rows down without any state.
From there on the questions are about a list of rows. Which rows there are is a
matter of ids and does not depend on the order; that they come in strictly
increasing order follows from the ids being different, which is what breaks the
last tie.

## Main definitions

* `CutRow.Before`: The order of the rows.
* `CutRow.Describes`: What a row says about its target is true of a graph.
* `rowsOf`: The rows of the targets, in the order of the members.

## Theorems

* `cutsOf_eq`: The cuts of several targets are the cuts of each.
* `cutRows_eq`: The rows, without the state of the table.
* `mem_cutRows_iff`: Which rows there are.
* `describes_rowOf`: Each row describes its target.
* `cutRows_show_least_cuts`: The analysis as a whole.
-/

namespace PackageAlgebra

namespace CutRow

/-- A row comes before another one: it has fewer importers, or as many and more
    packages go away with it, or as many of both and its id comes first. -/
def Before (a b : CutRow) : Prop :=
  a.inDegree < b.inDegree ∨ a.inDegree = b.inDegree ∧
    (b.cut.packageCount < a.cut.packageCount ∨
      a.cut.packageCount = b.cut.packageCount ∧ a.id < b.id)

/-- A row counts the importers of its target, and each number of its cut is the sum of
    the numbers in that place of the members of the least cut of the target, each
    counted once. -/
structure Describes (r : CutRow) (g : Graph) : Prop where
  -- The number of importers is right.
  inDegree_eq : r.inDegree = (g.nodes.filter fun n => r.id ∈ n.imports).length
  -- The cut is the sum over the least set of members that fall.
  cut_eq : ∃ gone : Finset String, g.IsCut r.id gone ∧
    r.cut.IsSum ((g.nodes.filter (·.id ∈ gone)).map GraphNode.stat)

/-! ### The order of rows -/

theorem precedes_iff (a b : CutRow) :
    a.precedes b ↔ a.inDegree < b.inDegree ∨ a.inDegree = b.inDegree ∧
      (b.cut.packageCount < a.cut.packageCount ∨
        a.cut.packageCount = b.cut.packageCount ∧ a.id ≤ b.id) := by
  unfold precedes
  by_cases hd : a.inDegree = b.inDegree
  · rw [if_neg (not_not.2 hd)]
    by_cases hc : a.cut.packageCount = b.cut.packageCount
    · rw [if_neg (not_not.2 hc)]
      simp [hd, hc]
    · rw [if_pos hc]
      simp [hd, hc]
  · rw [if_pos hd]
    simp [hd]

theorem precedes_trans (a b c : CutRow) (hab : a.precedes b) (hbc : b.precedes c) :
    a.precedes c := by
  rw [precedes_iff] at hab hbc ⊢
  rcases hab with hab | ⟨hdab, hab⟩
  · exact Or.inl (by omega)
  · rcases hbc with hbc | ⟨hdbc, hbc⟩
    · exact Or.inl (by omega)
    · -- As many importers in all three: the cuts decide, and after them the ids.
      refine Or.inr ⟨by omega, ?_⟩
      rcases hab with hab | ⟨hcab, hab⟩
      · exact Or.inl (by omega)
      · rcases hbc with hbc | ⟨hcbc, hbc⟩
        · exact Or.inl (by omega)
        · exact Or.inr ⟨by omega, String.le_trans hab hbc⟩

theorem precedes_total (a b : CutRow) : a.precedes b || b.precedes a := by
  rw [Bool.or_eq_true, precedes_iff, precedes_iff]
  rcases Nat.lt_trichotomy a.inDegree b.inDegree with hd | hd | hd
  · exact Or.inl (Or.inl hd)
  · rcases Int.lt_trichotomy a.cut.packageCount b.cut.packageCount with hc | hc | hc
    · exact Or.inr (Or.inr ⟨hd.symm, Or.inl hc⟩)
    · rcases String.le_total a.id b.id with hid | hid
      · exact Or.inl (Or.inr ⟨hd, Or.inr ⟨hc, hid⟩⟩)
      · exact Or.inr (Or.inr ⟨hd.symm, Or.inr ⟨hc.symm, hid⟩⟩)
    · exact Or.inl (Or.inr ⟨hd, Or.inl hc⟩)
  · exact Or.inr (Or.inl hd)

/-- Between rows of different targets there are no ties. -/
theorem before_of_precedes {a b : CutRow} (h : a.precedes b) (hid : a.id ≠ b.id) :
    a.Before b := by
  rcases (precedes_iff a b).1 h with hd | ⟨hd, hc | ⟨hc, hle⟩⟩
  · exact Or.inl hd
  · exact Or.inr ⟨hd, Or.inl hc⟩
  · refine Or.inr ⟨hd, Or.inr ⟨hc, String.not_le.1 fun hge => ?_⟩⟩
    exact hid (String.le_antisymm hle hge)

end CutRow

namespace CutTable

/-! ### Cuts without state -/

/-- The row of a node: its cut is counted from full counts. -/
def rowOf (t : CutTable) (i : Nat) (n : CutNode) : CutRow :=
  CutRow.ofNode n (t.statOf (t.resetAll.erase i).1)

/-- The cuts of several targets, one after the other, are the cuts of each. -/
theorem cutsOf_eq (t : CutTable) (targets : List Nat) :
    t.cutsOf targets = targets.map fun i => (i, t.statOf (t.resetAll.erase i).1) := by
  induction targets generalizing t with
  | nil => rfl
  | cons i rest ih =>
      -- What the first target leaves behind is the same table after a reset.
      have hcounts : (t.resetAll.erase i).2.resetAll = t.resetAll :=
        (resetAll_erase t.resetAll i).trans (resetAll_resetAll t)
      simp only [cutsOf, ih, hcounts, statOf_congr hcounts, List.map_cons]

end CutTable

open CutTable

/-- The rows of the targets, in the order of the members. -/
def rowsOf (g : Graph) (targets : Option (List String)) : List CutRow :=
  ((ofGraph g).zipIdx.filter fun n => targets.all (·.contains n.1.id)).map fun n =>
    (ofGraph g).rowOf n.2 n.1

variable {g : Graph} {targets : Option (List String)} {exclude : List String}

/-- The rows, without the state of the table. -/
theorem cutRows_eq (g : Graph) (targets : Option (List String)) (exclude : List String) :
    cutRows g targets exclude =
      ((rowsOf g targets).mergeSort CutRow.precedes).filter fun r => !exclude.contains r.id := by
  -- Each target is looked up again at its position, where it was taken from.
  have hrows : ∀ l : List (CutNode × Nat), (∀ n ∈ l, (ofGraph g)[n.2]? = some n.1) →
      ((ofGraph g).cutsOf (l.map Prod.snd)).filterMap
        (fun c => (ofGraph g)[c.1]?.map (CutRow.ofNode · c.2)) =
          l.map fun n => (ofGraph g).rowOf n.2 n.1 := by
    intro l hl
    rw [cutsOf_eq, List.map_map, List.filterMap_map, ← List.filterMap_eq_map]
    refine List.filterMap_congr fun n hn => ?_
    simp only [Function.comp_apply, hl n hn, Option.map_some, rowOf]
  unfold cutRows rowsOf
  rw [← hrows _ fun n hn => List.mem_zipIdx_iff_getElem?.1 (List.mem_filter.1 hn).1]

/-- There is a row for each target that is a member and not excluded. -/
theorem mem_cutRows_iff (r : CutRow) :
    r ∈ cutRows g targets exclude ↔ ∃ i n, (ofGraph g)[i]? = some n ∧
      targets.all (·.contains n.id) ∧ (!exclude.contains n.id) ∧ r = (ofGraph g).rowOf i n := by
  rw [cutRows_eq, List.mem_filter, List.mem_mergeSort]
  unfold rowsOf
  simp only [List.mem_map, List.mem_filter, List.mem_zipIdx_iff_getElem?]
  constructor
  · rintro ⟨⟨⟨n, i⟩, ⟨hn, htarget⟩, rfl⟩, hexclude⟩
    exact ⟨i, n, hn, htarget, hexclude, rfl⟩
  · rintro ⟨i, n, hn, htarget, hexclude, rfl⟩
    exact ⟨⟨(n, i), ⟨hn, htarget⟩, rfl⟩, hexclude⟩

theorem map_id_rowsOf (g : Graph) (targets : Option (List String)) :
    (rowsOf g targets).map CutRow.id = g.ids.filter fun id => targets.all (·.contains id) := by
  have hids : (ofGraph g).map CutNode.id = g.ids := by
    refine List.ext_getElem? fun i => ?_
    rw [List.getElem?_map, id_ofGraph, Graph.ids, List.getElem?_map]
  have hmap : (rowsOf g targets).map CutRow.id =
      ((ofGraph g).zipIdx.filter fun n => targets.all (·.contains n.1.id)).map
        (CutNode.id ∘ Prod.fst) := by
    unfold rowsOf
    rw [List.map_map]
    rfl
  rw [hmap, ← List.map_map, ← hids, List.filter_map,
    ← List.zipIdx_map_fst 0 (ofGraph g), List.filter_map]
  simp only [List.zipIdx_map_fst]
  rfl

theorem perm_map_id_cutRows (g : Graph) (targets : Option (List String)) (exclude : List String) :
    ((cutRows g targets exclude).map CutRow.id).Perm
      (g.ids.filter fun id => targets.all (·.contains id) && !exclude.contains id) := by
  have hsorted := ((rowsOf g targets).mergeSort_perm CutRow.precedes).filter
    fun r => !exclude.contains r.id
  rw [cutRows_eq]
  refine (hsorted.map CutRow.id).trans (List.Perm.of_eq ?_)
  rw [show (fun r : CutRow => !exclude.contains r.id) =
    (fun id => !exclude.contains id) ∘ CutRow.id from rfl, ← List.filter_map, map_id_rowsOf,
    List.filter_filter]
  exact List.filter_congr fun id _ => Bool.and_comm _ _

theorem nodup_map_id_cutRows (g : Graph) (targets : Option (List String))
    (exclude : List String) : ((cutRows g targets exclude).map CutRow.id).Nodup :=
  (perm_map_id_cutRows g targets exclude).nodup_iff.2 (g.nodup_ids.filter _)

/-! ### What a row says -/

/-- Each row describes its target. -/
theorem describes_rowOf {i : Nat} {n : CutNode} (hn : (ofGraph g)[i]? = some n) :
    ((ofGraph g).rowOf i n).Describes g := by
  have hid := id_ofGraph g i
  rw [hn] at hid
  rcases Option.map_eq_some_iff.1 hid.symm with ⟨m, hm, hmid⟩
  have himporters : (ofGraph g).importersAt i = n.importedBy := by
    unfold importersAt
    rw [hn]
    rfl
  constructor
  case inDegree_eq =>
    change n.importedBy.length = (g.nodes.filter fun m => n.id ∈ m.imports).length
    rw [← himporters, length_importersAt_ofGraph hm, hmid]
  case cut_eq =>
    refine ⟨((ofGraph g).idsOf ((ofGraph g).resetAll.erase i).1).toFinset, ?_, ?_⟩
    · rw [List.coe_toFinset]
      change g.IsCut n.id _
      rw [← hmid]
      exact isCut_erase hm
    · have hstat := statOf_ofGraph (g := g) (nodup_erase (linked_ofGraph g) i)
      simp only [List.mem_toFinset]
      change ((ofGraph g).statOf ((ofGraph g).resetAll.erase i).1).IsSum _
      rw [hstat]
      exact isSum_totalStat _

/-- The row of a target does not depend on the other targets. -/
theorem cutRows_alone {r : CutRow} (hr : r ∈ cutRows g targets exclude) :
    cutRows g (some [r.id]) [] = [r] := by
  rcases (mem_cutRows_iff r).1 hr with ⟨i, n, hn, _, _, rfl⟩
  -- The row is among them, and all of them have its id.
  have hself : (ofGraph g).rowOf i n ∈ cutRows g (some [n.id]) [] :=
    (mem_cutRows_iff _).2 ⟨i, n, hn, by simp, by simp, rfl⟩
  have hids : ∀ r' ∈ cutRows g (some [n.id]) [], r'.id = n.id := by
    intro r' hr'
    rcases (mem_cutRows_iff r').1 hr' with ⟨j, m, hm, htarget, _, rfl⟩
    change m.id = n.id
    simpa using htarget
  have hnodup := nodup_map_id_cutRows g (some [n.id]) []
  -- A list of rows of one id, without repetitions, has one row.
  change cutRows g (some [n.id]) [] = [(ofGraph g).rowOf i n]
  generalize cutRows g (some [n.id]) [] = rows at hself hids hnodup
  cases rows with
  | nil => exact absurd hself List.not_mem_nil
  | cons first rest =>
      cases rest with
      | nil => rw [List.mem_singleton.1 hself]
      | cons second rest =>
          have hfirst := hids first List.mem_cons_self
          have hsecond := hids second (List.mem_cons_of_mem first List.mem_cons_self)
          rw [List.map_cons, List.map_cons, List.nodup_cons, hfirst, hsecond] at hnodup
          exact absurd List.mem_cons_self hnodup.1

/-- With one package a member, less goes away than the graph holds. -/
theorem packageCount_le_of_describes {r : CutRow} (h : r.Describes g) (hr : r.id ∈ g.ids)
    (hone : ∀ n ∈ g.nodes, n.stat.packageCount = 1) :
    r.cut.packageCount ≤ g.nodes.length - 1 := by
  rcases h.cut_eq with ⟨gone, hcut, hsum⟩
  rcases List.mem_map.1 hr with ⟨n, hn, hnid⟩
  -- The target is a member that does not go away with itself.
  have htarget : n.id ∉ gone := by
    rw [hnid]
    exact fun hc => ((hcut.1 r.id).1 hc).2.1 rfl
  have hlt : (g.nodes.filter (·.id ∈ gone)).length < g.nodes.length :=
    List.length_filter_lt_length_iff_exists.2 ⟨n, hn, by simpa using htarget⟩
  have hcount : r.cut.packageCount = (g.nodes.filter (·.id ∈ gone)).length := by
    rw [hsum.packageCount_of_single, List.length_map]
    intro s hs
    rcases List.mem_map.1 hs with ⟨m, hm, rfl⟩
    exact hone m (List.mem_filter.1 hm).1
  omega

theorem pairwise_before_cutRows (g : Graph) (targets : Option (List String))
    (exclude : List String) : (cutRows g targets exclude).Pairwise CutRow.Before := by
  have hnodup := nodup_map_id_cutRows g targets exclude
  rw [cutRows_eq] at hnodup ⊢
  have hsorted := (List.pairwise_mergeSort CutRow.precedes_trans CutRow.precedes_total
    (rowsOf g targets)).filter fun r => !exclude.contains r.id
  exact (hsorted.and (List.pairwise_map.1 hnodup)).imp fun h => CutRow.before_of_precedes h.1 h.2

/-- The analysis of a graph. There is one row for each target that is a member
    and not excluded. The rows come in strictly increasing order. Each row shows
    the least cut of its target, as it does when the target is analysed alone.
    Excluding targets only takes their rows away. If each member counts as one
    package, the cut of a target has fewer packages than the graph. -/
theorem cutRows_show_least_cuts (g : Graph) (targets : Option (List String))
    (exclude : List String) :
    ((cutRows g targets exclude).map CutRow.id).Perm
        (g.ids.filter fun id => targets.all (·.contains id) && !exclude.contains id) ∧
      (cutRows g targets exclude).Pairwise CutRow.Before ∧
      (∀ r ∈ cutRows g targets exclude,
        r.Describes g ∧ cutRows g (some [r.id]) [] = [r]) ∧
      cutRows g targets exclude =
        (cutRows g targets []).filter (fun r => !exclude.contains r.id) ∧
      ((∀ n ∈ g.nodes, n.stat.packageCount = 1) →
        ∀ r ∈ cutRows g targets exclude, r.cut.packageCount ≤ g.nodes.length - 1) := by
  have hdescribes : ∀ r ∈ cutRows g targets exclude, r.Describes g := by
    intro r hr
    rcases (mem_cutRows_iff r).1 hr with ⟨i, n, hn, _, _, rfl⟩
    exact describes_rowOf hn
  have hmember : ∀ r ∈ cutRows g targets exclude, r.id ∈ g.ids := by
    intro r hr
    have hid := (perm_map_id_cutRows g targets exclude).mem_iff.1 (List.mem_map_of_mem hr)
    exact (List.mem_filter.1 hid).1
  refine ⟨perm_map_id_cutRows g targets exclude, pairwise_before_cutRows g targets exclude,
    fun r hr => ⟨hdescribes r hr, cutRows_alone hr⟩, ?_,
    fun hone r hr => packageCount_le_of_describes (hdescribes r hr) (hmember r hr) hone⟩
  rw [cutRows_eq g targets exclude, cutRows_eq g targets [], List.filter_filter]
  simp

/-- Two members that import each other, one of them also itself, and a third that
    only the second one imports. -/
def ringGraph : Graph where
  nodes := [
    ⟨"A", { packageCount := 1, python := { files := 1, size := 30, lines := 2 } }, 0, 0, ["B"]⟩,
    ⟨"B", .single, 0, 0, ["A", "B", "C"]⟩,
    ⟨"C", { packageCount := 1, python := { files := 2, size := 50, lines := 3, blank := 1 },
            otherFiles := { binary := 1, size := 7 } }, 0, 0, []⟩]
  stat := { packageCount := 3, python := { files := 3, size := 80, lines := 5, blank := 1 },
            otherFiles := { binary := 1, size := 7 } }
  nodup_ids := by decide

/-- The two others are imported by the second member only, so they fall with it. -/
theorem mem_iff_of_isCut_ring {gone : Finset String} (h : ringGraph.IsCut "B" gone)
    (x : String) : x ∈ gone ↔ x ∈ ["A", "C"] := by
  have hmembers : ∀ x ∈ ["A", "C"], x ∈ ringGraph.ids ∧ x ≠ "B" := by decide
  have himported : ∀ x ∈ ["A", "C"], ∃ n ∈ ringGraph.nodes, n.id = "B" ∧ x ∈ n.imports := by
    decide
  have himporters : ∀ x ∈ ["A", "C"], ∀ n ∈ ringGraph.nodes, x ∈ n.imports → n.id = "B" := by
    decide
  constructor
  · intro hx
    rcases (h.1 x).1 hx with ⟨hid, hne, -⟩
    have hids : ∀ y ∈ ringGraph.ids, y = "B" ∨ y ∈ ["A", "C"] := by decide
    exact (hids x hid).resolve_left hne
  · intro hx
    rcases hmembers x hx with ⟨hid, hne⟩
    refine (h.1 x).2 ⟨hid, hne, ⟨"B", hid, himported x hx⟩, ?_⟩
    rintro y ⟨-, n, hn, rfl, himports⟩
    exact .inl (himporters x hx n hn himports)

/-- The two others go away with the second member, whose cut adds up their counts. -/
theorem cutRows_show_least_cuts_ring :
    (∀ n ∈ ringGraph.nodes, n.stat.packageCount = 1) ∧
      ∃ r ∈ cutRows ringGraph none ["C"], r.id = "B" ∧ r.Describes ringGraph ∧ r.inDegree = 2 ∧
        r.cut = { packageCount := 2, python := { files := 3, size := 80, lines := 5, blank := 1 },
                  otherFiles := { binary := 1, size := 7 } } ∧
        cutRows ringGraph (some ["B"]) [] = [r] ∧
        r.cut.packageCount ≤ ringGraph.nodes.length - 1 := by
  rcases cutRows_show_least_cuts ringGraph none ["C"] with ⟨hids, _, hrows, _, hcount⟩
  have hone : ∀ n ∈ ringGraph.nodes, n.stat.packageCount = 1 := by decide
  have hmem : "B" ∈ (cutRows ringGraph none ["C"]).map CutRow.id := hids.mem_iff.2 (by decide)
  rcases List.mem_map.1 hmem with ⟨r, hr, hid⟩
  rcases hrows r hr with ⟨hdescribes, halone⟩
  rcases hdescribes with ⟨hdegree, gone, hcut, hsum⟩
  rw [hid] at hdegree hcut halone
  have hgone : ringGraph.nodes.filter (·.id ∈ gone) = ringGraph.nodes.filter (·.id ∈ ["A", "C"]) :=
    List.filter_congr fun n _ => decide_eq_decide.2 (mem_iff_of_isCut_ring hcut n.id)
  rw [hgone] at hsum
  refine ⟨hone, r, hr, hid, (hrows r hr).1, hdegree, hsum.unique ?_, halone, hcount hone r hr⟩
  exact ⟨rfl, ⟨rfl, rfl, rfl, rfl, rfl⟩, ⟨rfl, rfl, rfl, rfl, rfl⟩⟩

end PackageAlgebra
