import PackageAlgebra.Graph.Basic

/-!
# Cascading Removal

What goes away with a package.

When a package is deleted, those packages lose their last importer that only it
imported, then those that only these imported, and so on. The cut of a target
is the combined count of everything that goes away with it, the target itself
not included.

The analysis keeps, for each node, how many of its importers are still there.
Deleting a target takes one off the count of each of its imports; a node whose
count reaches zero is deleted in turn. The counts belong to the whole table, so
they are put back before each target; without that, a second deletion goes on
from the counts that the first one left.

A count that has reached zero stays at or below it for the rest of a deletion,
so a node is deleted at most once and the cascade ends.

## Main definitions

* `CutTable`: Nodes with their neighbours and the importers they have left.
* `CutTable.importNode`, `reset`, `erase`: The operations on a table.
* `cutRows`: The rows of the analysis of a graph.

## Theorems

* `countP_live_release`: Each node that a deletion frees had an importer left.
-/

namespace PackageAlgebra

/-- A node of the analysis. Neighbours are given by their positions in the
    table. -/
structure CutNode where
  -- The id of the package.
  id : String
  -- Its counts.
  stat : Stat
  -- The nodes that it imports.
  imports : List Nat
  -- The nodes that import it.
  importedBy : List Nat
  -- How many of its importers are left.
  left : Int

namespace CutNode

/-- A node without neighbours. -/
def make (id : String) (stat : Stat) : CutNode := ⟨id, stat, [], [], 0⟩

/-- Whether some importer is left. -/
def isLive (n : CutNode) : Bool := decide (0 < n.left)

/-- A node that has lost an importer. -/
def loseImporter (n : CutNode) : CutNode := { n with left := n.left - 1 }

/-- A node with one more importer. -/
def gainImporter (i : Nat) (n : CutNode) : CutNode :=
  { n with left := n.left + 1, importedBy := n.importedBy ++ [i] }

/-- A node with one more import. -/
def gainImport (i : Nat) (n : CutNode) : CutNode := { n with imports := n.imports ++ [i] }

/-- A node with all its importers back. -/
def restored (n : CutNode) : CutNode := { n with left := n.importedBy.length }

end CutNode

/-- The nodes of an analysis. -/
abbrev CutTable := List CutNode

namespace CutTable

/-- Let one node import another, unless it does so already. -/
def importNode (t : CutTable) (importer imported : Nat) : CutTable :=
  match t[importer]? with
  | none => t
  | some n =>
    if n.imports.contains imported then t
    else
      (t.modify imported (CutNode.gainImporter importer)).modify importer
        (CutNode.gainImport imported)

/-- Put the counts of some nodes back. -/
def reset (t : CutTable) (positions : List Nat) : CutTable :=
  positions.foldl (fun t i => t.modify i CutNode.restored) t

/-- Put the counts of all nodes back. -/
def resetAll (t : CutTable) : CutTable := t.map CutNode.restored

/-- Take one importer off each of some nodes, in order; also the nodes that have
    none left because of that, the target aside. -/
def release (target : Nat) : List Nat → CutTable → List Nat × CutTable
  | [], t => ([], t)
  | i :: rest, t =>
    let t' := t.modify i CutNode.loseImporter
    let later := release target rest t'
    if i ≠ target ∧ t'[i]?.map CutNode.left = some 0 then (i :: later.1, later.2) else later

/-- A node that loses an importer is live no more often than before. -/
theorem countP_live_modify_le (t : CutTable) (i : Nat) :
    (t.modify i CutNode.loseImporter).countP CutNode.isLive ≤ t.countP CutNode.isLive := by
  induction t generalizing i with
  | nil => simp
  | cons n rest ih =>
    cases i with
    | zero =>
      simp only [List.modify_zero_cons, List.countP_cons, CutNode.isLive, CutNode.loseImporter,
        decide_eq_true_eq]
      split <;> split <;> omega
    | succ i =>
      simp only [List.modify_succ_cons, List.countP_cons]
      have := ih i
      omega

/-- A node whose last importer goes away was live before. -/
theorem countP_live_modify_lt (t : CutTable) (i : Nat)
    (h : (t.modify i CutNode.loseImporter)[i]?.map CutNode.left = some 0) :
    (t.modify i CutNode.loseImporter).countP CutNode.isLive + 1 ≤ t.countP CutNode.isLive := by
  induction t generalizing i with
  | nil => simp at h
  | cons n rest ih =>
    cases i with
    | zero =>
      simp only [List.modify_zero_cons, List.getElem?_cons_zero, Option.map_some,
        Option.some.injEq, CutNode.loseImporter] at h
      simp only [List.modify_zero_cons, List.countP_cons, CutNode.isLive, CutNode.loseImporter,
        decide_eq_true_eq]
      split <;> split <;> omega
    | succ i =>
      simp only [List.modify_succ_cons, List.getElem?_cons_succ] at h
      simp only [List.modify_succ_cons, List.countP_cons]
      have := ih i h
      omega

/-- Each node that a deletion frees had an importer left. -/
theorem countP_live_release (target : Nat) (is : List Nat) (t : CutTable) :
    (release target is t).2.countP CutNode.isLive + (release target is t).1.length ≤
      t.countP CutNode.isLive := by
  induction is generalizing t with
  | nil => simp [release]
  | cons i rest ih =>
    have h := ih (t.modify i CutNode.loseImporter)
    simp only [release]
    split
    · next hi =>
      have := countP_live_modify_lt t i hi.2
      simp only [List.length_cons]
      omega
    · have := countP_live_modify_le t i
      omega

/-- What a node imports; nothing if there is no node at the position. -/
def importsAt (t : CutTable) (i : Nat) : List Nat := (t[i]?.map CutNode.imports).getD []

/-- The nodes that go away with those on a stack, in order, and the counts that
    this leaves. -/
def cascade (target : Nat) (t : CutTable) : (stack : List Nat) → List Nat × CutTable
  | [] => ([], t)
  | i :: rest =>
    let step := release target (t.importsAt i) t
    let later := cascade target step.2 (step.1.reverse ++ rest)
    (step.1 ++ later.1, later.2)
termination_by stack => (t.countP CutNode.isLive, stack.length)
decreasing_by
  have hc := countP_live_release target (t.importsAt i) t
  by_cases hs : (release target (t.importsAt i) t).1 = []
  · rw [hs, List.length_nil, Nat.add_zero] at hc
    rcases Nat.lt_or_eq_of_le hc with hlt | heq
    · exact Prod.Lex.left _ _ hlt
    · rw [heq, hs]
      exact Prod.Lex.right _ (Nat.lt_succ_self _)
  · have : 0 < (release target (t.importsAt i) t).1.length := List.length_pos_iff.mpr hs
    exact Prod.Lex.left _ _ (by omega)

/-- Delete a node: the positions of the nodes that go away with it, and the
    counts that this leaves. -/
def erase (t : CutTable) (target : Nat) : List Nat × CutTable := cascade target t [target]

/-- The counts of the nodes at some positions together. -/
def statOf (t : CutTable) (positions : List Nat) : Stat :=
  totalStat (positions.filterMap fun i => t[i]?.map CutNode.stat)

/-- Let nodes import others, one edge after the other. -/
def importAll (t : CutTable) (edges : List (Nat × Nat)) : CutTable :=
  edges.foldl (fun t e => t.importNode e.1 e.2) t

/-- The edges of a graph, by the positions of its nodes. -/
def edgesOf (g : Graph) : List (Nat × Nat) :=
  g.nodes.zipIdx.flatMap fun n =>
    n.1.imports.filterMap fun id =>
      ((g.nodes.map GraphNode.id).idxOf? id).map fun j => (n.2, j)

/-- The table of a graph. -/
def ofGraph (g : Graph) : CutTable :=
  importAll (g.nodes.map fun n => CutNode.make n.id n.stat) (edgesOf g)

/-- Delete some nodes, one after the other and each from full counts; for each
    the combined counts of what goes away with it. -/
def cutsOf (t : CutTable) : List Nat → List (Nat × Stat)
  | [] => []
  | i :: rest =>
    let (gone, t') := t.resetAll.erase i
    (i, t.statOf gone) :: cutsOf t' rest

end CutTable

/-- A row of the analysis. -/
structure CutRow where
  -- The target.
  id : String
  -- How many members import it.
  inDegree : Nat
  -- How many members it imports.
  outDegree : Nat
  -- Its own counts.
  stat : Stat
  -- The counts of what goes away with it.
  cut : Stat

namespace CutRow

/-- The row of a node with its cut. -/
def ofNode (n : CutNode) (cut : Stat) : CutRow :=
  ⟨n.id, n.importedBy.length, n.imports.length, n.stat, cut⟩

/-- Rows come by their number of importers, then by the number of packages that
    go away, the largest first, then by id. -/
def precedes (a b : CutRow) : Bool :=
  if a.inDegree ≠ b.inDegree then decide (a.inDegree < b.inDegree)
  else if a.cut.packageCount ≠ b.cut.packageCount then
    decide (b.cut.packageCount < a.cut.packageCount)
  else decide (a.id ≤ b.id)

end CutRow

/-- The analysis of a graph: a row for each target that is not excluded, all
    nodes being targets if none are given. -/
def cutRows (g : Graph) (targets : Option (List String)) (exclude : List String) :
    List CutRow :=
  let t := CutTable.ofGraph g
  let analysed := (t.zipIdx.filter fun (n, _) => targets.all (·.contains n.id)).map Prod.snd
  let rows := (t.cutsOf analysed).filterMap fun (i, cut) => t[i]?.map (CutRow.ofNode · cut)
  (rows.mergeSort CutRow.precedes).filter fun r => !exclude.contains r.id

end PackageAlgebra
