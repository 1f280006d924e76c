import PackageAlgebra.Proofs.Cut.GraphTable
import Mathlib.Data.Fintype.EquivFin
import Mathlib.Logic.Relation
import Mathlib.Order.WellFounded

/-!
# Cuts of Acyclic Graphs

Where no member leads back to itself, a cut is what the target dominates.

The cascade knows nothing of paths. It looks at one node and its importers, and
what it deletes was described as the least set that satisfies a local rule. In a
graph with a cycle that is all there is to say, because the members of a cycle
that nothing else imports hold each other up although nothing reaches them.
Without cycles the rule has one solution only, and that solution can be named:
the members that no path from a member without importers reaches any more once
the target is gone.

Both directions are inductions, and they run against each other. A path that
avoids the target is followed from its first member, which has no importers and
so does not fall, and each step keeps the next member from falling. That no other
member stays is shown along the imports themselves, from importers to what they
import, which is well founded because a finite graph without cycles has no
infinite path. Only the second direction needs the graph to be acyclic.

## Main definitions

* `Graph.Acyclic`: No member leads back to itself.
* `Graph.LeadsAvoiding`: A path that avoids a member.
* `Graph.StaysReached`: What is still reached when a member is gone.
* `CutTable.eraseEach`: A table after several deletions.

## Theorems

* `Acyclic.induction`: Induction along the imports of an acyclic graph.
* `not_mem_of_staysReached`: What stays reached falls in no solution.
* `mem_of_not_staysReached`: All else falls in every solution.
* `erase_frees_unreached`: A deletion in an acyclic graph frees what is not
  reached any more.
-/

namespace PackageAlgebra

open Relation

namespace Graph

/-- No member leads back to itself. -/
def Acyclic (g : Graph) : Prop := ∀ x, ¬ TransGen g.Imports x x

/-- One member leads to another by imports that leave a third one out. -/
def LeadsAvoiding (g : Graph) (target x y : String) : Prop :=
  ReflTransGen (fun a b => g.Imports a b ∧ a ≠ target ∧ b ≠ target) x y

/-- Some member without importers, other than the target, leads to a member
    without passing the target. -/
def StaysReached (g : Graph) (target x : String) : Prop :=
  ∃ root ∈ g.ids, root ≠ target ∧ (∀ y, ¬ g.Imports y root) ∧ g.LeadsAvoiding target root x

variable {g : Graph}

/-- A member that stays reached keeps what it imports reached, the target aside. -/
theorem StaysReached.imports {target x y : String} (h : g.StaysReached target x)
    (hx : x ≠ target) (hy : y ≠ target) (himp : g.Imports x y) : g.StaysReached target y := by
  rcases h with ⟨root, hroot, hne, htop, hpath⟩
  exact ⟨root, hroot, hne, htop, ReflTransGen.tail hpath ⟨himp, hx, hy⟩⟩

/-- A property of members passes along the imports of an acyclic graph: it holds
    of all members if it holds of each whose importers all have it. -/
theorem Acyclic.induction (h : g.Acyclic) {p : String → Prop}
    (hstep : ∀ x ∈ g.ids, (∀ y, g.Imports y x → p y) → p x) : ∀ x ∈ g.ids, p x := by
  -- The relation is one on members, of which there are finitely many.
  let leads : {x // x ∈ g.ids} → {x // x ∈ g.ids} → Prop :=
    fun x y => TransGen g.Imports x.1 y.1
  have : IsTrans _ leads := ⟨fun _ _ _ => TransGen.trans⟩
  have : Std.Irrefl leads := ⟨fun x => h x.1⟩
  have hwf : WellFounded leads := Finite.wellFounded_of_trans_of_irrefl leads
  have hmembers : ∀ x : {x // x ∈ g.ids}, p x.1 := by
    intro x
    induction x using hwf.induction with
    | _ x ih =>
        refine hstep x.1 x.2 fun y hy => ?_
        exact ih ⟨y, (mem_ids_of_imports hy).1⟩ (TransGen.single hy)
  exact fun x hx => hmembers ⟨x, hx⟩

/-! ### The solution of the local rule -/

variable {target : String} {gone : Set String}

/-- What stays reached does not fall, whatever solves the rule. -/
theorem not_mem_of_staysReached (hgone : ∀ x, x ∈ gone ↔ g.Falls target gone x) {x : String}
    (h : g.StaysReached target x) : x ∉ gone := by
  rcases h with ⟨root, _, _, htop, hpath⟩
  unfold LeadsAvoiding at hpath
  induction hpath with
  | refl =>
      -- A member that falls has importers, and the first one on the path has none.
      intro hroot
      rcases ((hgone root).1 hroot).2.2.1 with ⟨y, hy⟩
      exact htop y hy
  | tail _ hedge ih =>
      rcases hedge with ⟨himp, hne, _⟩
      -- If the next member fell, its importer on the path would fall with it.
      intro hmem
      rcases ((hgone _).1 hmem).2.2.2 _ himp with htarget | hfallen
      · exact hne htarget
      · exact ih hfallen

/-- In an acyclic graph all that does not stay reached falls, whatever solves the
    rule. -/
theorem mem_of_not_staysReached (hacyclic : g.Acyclic)
    (hgone : ∀ x, x ∈ gone ↔ g.Falls target gone x) :
    ∀ x ∈ g.ids, x ≠ target → ¬ g.StaysReached target x → x ∈ gone := by
  refine hacyclic.induction fun x hx ih hne hlost => (hgone x).2 ⟨hx, hne, ?_, fun y hy => ?_⟩
  · -- A member without importers would be reached from itself.
    by_contra htop
    exact hlost ⟨x, hx, hne, fun y hy => htop ⟨y, hy⟩, ReflTransGen.refl⟩
  · -- An importer other than the target is lost too, or it would keep this one.
    by_cases hyt : y = target
    · exact Or.inl hyt
    · exact Or.inr (ih y hy hyt fun hreached => hlost (hreached.imports hyt hne hy))

/-- In an acyclic graph the cut of a target is what is not reached any more. -/
theorem IsCut.mem_iff (hacyclic : g.Acyclic) (hgone : g.IsCut target gone) (x : String) :
    x ∈ gone ↔ x ∈ g.ids ∧ x ≠ target ∧ ¬ g.StaysReached target x := by
  constructor
  · intro hx
    have hfalls := (hgone.1 x).1 hx
    exact ⟨hfalls.1, hfalls.2.1, fun hreached => not_mem_of_staysReached hgone.1 hreached hx⟩
  · rintro ⟨hx, hne, hlost⟩
    exact mem_of_not_staysReached hacyclic hgone.1 x hx hne hlost

end Graph

namespace CutTable

/-- A table after several deletions, one after the other and each from full
    counts. -/
def eraseEach (t : CutTable) (targets : List Nat) : CutTable :=
  targets.foldl (fun t i => (t.resetAll.erase i).2) t

theorem resetAll_eraseEach (t : CutTable) (targets : List Nat) :
    (t.eraseEach targets).resetAll = t.resetAll := by
  induction targets generalizing t with
  | nil => rfl
  | cons i rest ih =>
      exact (ih (t.resetAll.erase i).2).trans
        ((resetAll_erase t.resetAll i).trans (resetAll_resetAll t))

end CutTable

open CutTable

variable {g : Graph} {i : Nat} {n : GraphNode}

/-- A deletion in an acyclic graph, from full counts and after any other
    deletions, adds up exactly the members other than the target that no member
    without importers reaches any more without the target, each of them once. -/
theorem erase_frees_unreached (hacyclic : g.Acyclic) (hi : g.nodes[i]? = some n)
    (earlier : List Nat) :
    let t := (ofGraph g).eraseEach earlier
    let gone := (t.resetAll.erase i).1
    (∀ x, x ∈ t.idsOf gone ↔ x ∈ g.ids ∧ x ≠ n.id ∧ ¬ g.StaysReached n.id x) ∧
      (t.idsOf gone).Nodup ∧
      t.statOf gone = totalStat ((g.nodes.filter (·.id ∈ t.idsOf gone)).map GraphNode.stat) := by
  intro t gone
  -- The reset undoes what the earlier deletions have done.
  have hcounts : t.resetAll = (ofGraph g).resetAll := resetAll_eraseEach (ofGraph g) earlier
  have hgone : gone = ((ofGraph g).resetAll.erase i).1 := by
    change (t.resetAll.erase i).1 = _
    rw [hcounts]
  have hnodup : gone.Nodup := hgone ▸ nodup_erase (linked_ofGraph g) i
  have hcut : g.IsCut n.id {x | x ∈ (ofGraph g).idsOf gone} := by
    rw [hgone]
    exact isCut_erase hi
  rw [idsOf_congr hcounts, statOf_congr hcounts]
  exact ⟨hcut.mem_iff hacyclic, nodup_idsOf_ofGraph hnodup, statOf_ofGraph hnodup⟩

/-- A member that reaches another one on two ways, and a third one on one way
    only. -/
def forkGraph : Graph where
  nodes := [⟨"A", .single, 0, 0, ["B", "C"]⟩, ⟨"B", .single, 0, 0, ["D", "E"]⟩,
    ⟨"C", .single, 0, 0, ["D"]⟩, ⟨"D", .single, 0, 0, []⟩, ⟨"E", .single, 0, 0, []⟩]
  stat := totalStat [.single, .single, .single, .single, .single]
  nodup_ids := by decide

/-- Its edges. -/
def forkEdges : List (String × String) :=
  [("A", "B"), ("A", "C"), ("B", "D"), ("B", "E"), ("C", "D")]

theorem imports_forkGraph_iff (x y : String) :
    forkGraph.Imports x y ↔ (x, y) ∈ forkEdges := by
  constructor
  · have hedges : ∀ n ∈ forkGraph.nodes, ∀ y ∈ n.imports, (n.id, y) ∈ forkEdges := by decide
    rintro ⟨_, n, hn, rfl, hy⟩
    exact hedges n hn y hy
  · have hedges : ∀ e ∈ forkEdges,
        e.2 ∈ forkGraph.ids ∧ ∃ n ∈ forkGraph.nodes, n.id = e.1 ∧ e.2 ∈ n.imports := by decide
    exact hedges (x, y)

theorem acyclic_forkGraph : forkGraph.Acyclic := by
  have hlt : ∀ x y, forkGraph.Imports x y → x < y := by
    have hedges : ∀ e ∈ forkEdges, e.1 < e.2 := by decide
    exact fun x y h => hedges (x, y) ((imports_forkGraph_iff x y).1 h)
  have hpath : ∀ x y, TransGen forkGraph.Imports x y → x < y := by
    intro x y h
    induction h with
    | single himp => exact hlt _ _ himp
    | tail _ himp ih => exact String.lt_trans ih (hlt _ _ himp)
  exact fun x hx => String.lt_irrefl x (hpath x x hx)

theorem erase_frees_unreached_fork :
    forkGraph.Acyclic ∧ forkGraph.nodes[1]?.map GraphNode.id = some "B" ∧
      let t := (ofGraph forkGraph).eraseEach [0, 2]
      "E" ∈ t.idsOf (t.resetAll.erase 1).1 ∧ "D" ∉ t.idsOf (t.resetAll.erase 1).1 := by
  have hgone := (erase_frees_unreached acyclic_forkGraph
    (i := 1) (n := ⟨"B", .single, 0, 0, ["D", "E"]⟩) rfl [0, 2]).1
  refine ⟨acyclic_forkGraph, rfl, (hgone "E").2 ⟨by decide, by decide, ?_⟩, fun hD => ?_⟩
  · -- The only importer of the last member is the target.
    rintro ⟨root, _, _, htop, hpath⟩
    rcases hpath.cases_tail with hroot | ⟨x, _, himp, hx, _⟩
    · exact htop "B" ((imports_forkGraph_iff _ _).2 (by rw [← hroot]; decide))
    · exact hx (by simpa [forkEdges] using (imports_forkGraph_iff x "E").1 himp)
  · -- The other way leads around the target.
    refine ((hgone "D").1 hD).2.2 ⟨"A", by decide, by decide, fun y hy => ?_, ?_⟩
    · simpa [forkEdges] using (imports_forkGraph_iff y "A").1 hy
    · have hAC : forkGraph.Imports "A" "C" := (imports_forkGraph_iff _ _).2 (by decide)
      have hCD : forkGraph.Imports "C" "D" := (imports_forkGraph_iff _ _).2 (by decide)
      exact (ReflTransGen.single ⟨hAC, by decide, by decide⟩).tail ⟨hCD, by decide, by decide⟩

end PackageAlgebra
