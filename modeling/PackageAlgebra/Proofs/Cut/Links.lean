import PackageAlgebra.Graph.Cut
import Mathlib.Data.List.Nodup

/-!
# Links of a Cut Table

What the operations on a table do to the neighbours that its nodes know.

A table stores each edge twice, once with the importer and once with the
imported node, and the analysis trusts both copies: it walks along the first and
counts with the second. `Linked` says that they agree and that neither list
names a node twice. Only `importNode` writes to these lists, so it is the only
operation for which there is something to show; `reset` and the deletion of a
node touch nothing but the counts.

That last fact is put as an equation. `resetAll` overwrites every count by a
number read off the lists, so two tables that become equal under it differ in
their counts at most. Everything that does not speak of counts is therefore
transported along `t.resetAll = u.resetAll`, and no lemma below has to say which
fields a deletion leaves alone.

## Main definitions

* `CutTable.importersAt`, `CutTable.leftAt`: The importers and the count of a
  position.
* `CutTable.Linked`: Both copies of the edges agree and none is repeated.

## Theorems

* `linked_map_make`: Nodes without edges are linked.
* `mem_importsAt_importNode`: An import adds one edge.
* `linked_importNode`: An import keeps a table linked.
* `mem_importsAt_importAll`, `linked_importAll`: The same for many imports.
* `resetAll_erase`: A deletion changes nothing but counts.
-/

namespace PackageAlgebra

namespace CutTable

/-- What imports a node; nothing if there is no node at the position. -/
def importersAt (t : CutTable) (i : Nat) : List Nat := (t[i]?.map CutNode.importedBy).getD []

/-- How many importers a node has left; none if there is no node. -/
def leftAt (t : CutTable) (i : Nat) : Int := (t[i]?.map CutNode.left).getD 0

/-- Each edge is known at both of its ends, and no list of neighbours names a
    node twice. -/
structure Linked (t : CutTable) : Prop where
  -- An edge is known to the importer exactly when it is known to the imported
  -- node.
  mem_iff : ∀ i j, j ∈ t.importsAt i ↔ i ∈ t.importersAt j
  -- Nothing is imported twice by one node.
  nodup_imports : ∀ i, (t.importsAt i).Nodup
  -- Nothing imports one node twice.
  nodup_importers : ∀ i, (t.importersAt i).Nodup

/-! ### Tables without edges -/

section

variable {α : Type} (id : α → String) (stat : α → Stat) (xs : List α)

theorem importsAt_map_make (i : Nat) :
    importsAt (xs.map fun x => CutNode.make (id x) (stat x)) i = [] := by
  unfold importsAt
  rw [List.getElem?_map, Option.map_map]
  cases xs[i]? <;> rfl

theorem importersAt_map_make (i : Nat) :
    importersAt (xs.map fun x => CutNode.make (id x) (stat x)) i = [] := by
  unfold importersAt
  rw [List.getElem?_map, Option.map_map]
  cases xs[i]? <;> rfl

/-- Nodes without neighbours are linked. -/
theorem linked_map_make : Linked (xs.map fun x => CutNode.make (id x) (stat x)) := by
  refine ⟨fun i j => ?_, fun i => ?_, fun i => ?_⟩
  · rw [importsAt_map_make, importersAt_map_make]
    simp only [List.not_mem_nil]
  · rw [importsAt_map_make]
    exact List.nodup_nil
  · rw [importersAt_map_make]
    exact List.nodup_nil

end

/-! ### Adding an edge -/

theorem importNode_of_mem (t : CutTable) (i j : Nat) (h : j ∈ t.importsAt i) :
    t.importNode i j = t := by
  unfold importNode
  unfold importsAt at h
  cases hget : t[i]? with
  | none => rfl
  | some n =>
      rw [hget] at h
      simp only [Option.map_some, Option.getD_some] at h
      simp only [List.contains_iff_mem, if_pos h]

theorem importNode_of_not_mem (t : CutTable) (i j : Nat) (hi : i < t.length)
    (h : j ∉ t.importsAt i) :
    t.importNode i j =
      (t.modify j (CutNode.gainImporter i)).modify i (CutNode.gainImport j) := by
  unfold importNode
  unfold importsAt at h
  rw [List.getElem?_eq_getElem hi] at h ⊢
  simp only [Option.map_some, Option.getD_some] at h
  simp only [List.contains_iff_mem, if_neg h]

/-- A change that leaves a field alone at one position leaves it alone at all. -/
theorem map_getElem?_modify {α : Type} (field : CutNode → α) (change : CutNode → CutNode)
    (hfield : ∀ n, field (change n) = field n) (t : CutTable) (i k : Nat) :
    (t.modify i change)[k]?.map field = t[k]?.map field := by
  rw [List.getElem?_modify]
  cases t[k]? with
  | none => rfl
  | some n =>
      simp only [Option.map_eq_map, Option.map_some, Option.some.injEq]
      split
      · exact hfield n
      · rfl

@[simp] theorem length_importNode (t : CutTable) (i j : Nat) :
    (t.importNode i j).length = t.length := by
  by_cases hi : i < t.length
  · by_cases h : j ∈ t.importsAt i
    · rw [importNode_of_mem t i j h]
    · rw [importNode_of_not_mem t i j hi h, List.length_modify, List.length_modify]
  · unfold importNode
    rw [List.getElem?_eq_none (Nat.le_of_not_lt hi)]

/-- An import changes no field but the lists of neighbours and the count. -/
theorem map_getElem?_importNode {α : Type} (field : CutNode → α)
    (hfield : ∀ (n : CutNode) (imports importedBy : List Nat) (left : Int),
      field ⟨n.id, n.stat, imports, importedBy, left⟩ = field n)
    (t : CutTable) (i j k : Nat) : (t.importNode i j)[k]?.map field = t[k]?.map field := by
  by_cases hi : i < t.length
  · by_cases h : j ∈ t.importsAt i
    · rw [importNode_of_mem t i j h]
    · rw [importNode_of_not_mem t i j hi h,
        map_getElem?_modify field (CutNode.gainImport j) fun n => hfield n _ _ _,
        map_getElem?_modify field (CutNode.gainImporter i) fun n => hfield n _ _ _]
  · unfold importNode
    rw [List.getElem?_eq_none (Nat.le_of_not_lt hi)]

/-- After an import, the importer knows one node more, unless it did before. -/
theorem importsAt_importNode (t : CutTable) (i j k : Nat) (hi : i < t.length) :
    (t.importNode i j).importsAt k =
      if k = i ∧ j ∉ t.importsAt i then t.importsAt k ++ [j] else t.importsAt k := by
  by_cases h : j ∈ t.importsAt i
  · rw [importNode_of_mem t i j h, if_neg fun hk => hk.2 h]
  · rw [importNode_of_not_mem t i j hi h]
    unfold importsAt
    by_cases hk : k = i
    · -- The importer may import itself; gaining an importer leaves its imports alone.
      subst hk
      rw [if_pos ⟨rfl, h⟩, List.getElem?_modify_eq, Option.map_eq_map, Option.map_map,
        show CutNode.imports ∘ CutNode.gainImport j = (· ++ [j]) ∘ CutNode.imports from rfl,
        ← Option.map_map, map_getElem?_modify CutNode.imports (CutNode.gainImporter k) fun _ => rfl,
        List.getElem?_eq_getElem hi]
      rfl
    · rw [if_neg fun hc => hk hc.1, List.getElem?_modify_ne _ _ fun hc => hk hc.symm,
        map_getElem?_modify CutNode.imports (CutNode.gainImporter i) fun _ => rfl]

/-- After an import, the imported node knows one importer more, unless it did
    before. -/
theorem importersAt_importNode (t : CutTable) (i j k : Nat) (hi : i < t.length)
    (hj : j < t.length) :
    (t.importNode i j).importersAt k =
      if k = j ∧ j ∉ t.importsAt i then t.importersAt k ++ [i] else t.importersAt k := by
  by_cases h : j ∈ t.importsAt i
  · rw [importNode_of_mem t i j h, if_neg fun hk => hk.2 h]
  · rw [importNode_of_not_mem t i j hi h]
    unfold importersAt
    rw [map_getElem?_modify CutNode.importedBy (CutNode.gainImport j) fun _ => rfl]
    by_cases hk : k = j
    · subst hk
      rw [if_pos ⟨rfl, h⟩, List.getElem?_modify_eq, List.getElem?_eq_getElem hj]
      rfl
    · rw [if_neg fun hc => hk hc.1, List.getElem?_modify_ne _ _ fun hc => hk hc.symm]

/-- An import adds its edge, and no other. -/
theorem mem_importsAt_importNode (t : CutTable) (i j a b : Nat) (hi : i < t.length) :
    b ∈ (t.importNode i j).importsAt a ↔ b ∈ t.importsAt a ∨ (a = i ∧ b = j) := by
  rw [importsAt_importNode t i j a hi]
  by_cases h : a = i ∧ j ∉ t.importsAt i
  · rw [if_pos h, List.mem_append, List.mem_singleton]
    simp only [h.1, true_and]
  · rw [if_neg h]
    refine ⟨Or.inl, fun hb => ?_⟩
    rcases hb with hb | ⟨rfl, rfl⟩
    · exact hb
    · exact Classical.byContradiction fun hc => h ⟨rfl, hc⟩

/-- An import keeps a table linked. -/
theorem linked_importNode (t : CutTable) (i j : Nat) (hi : i < t.length) (hj : j < t.length)
    (h : t.Linked) : (t.importNode i j).Linked := by
  by_cases hij : j ∈ t.importsAt i
  · -- An edge that is there already is not added again.
    rw [importNode_of_mem t i j hij]
    exact h
  have hji : i ∉ t.importersAt j := fun hc => hij ((h.mem_iff i j).2 hc)
  refine ⟨fun a b => ?_, fun k => ?_, fun k => ?_⟩
  · rw [mem_importsAt_importNode t i j a b hi, importersAt_importNode t i j b hi hj, h.mem_iff a b]
    by_cases hb : b = j
    · rw [if_pos ⟨hb, hij⟩, List.mem_append, List.mem_singleton]
      simp only [hb, and_true]
    · rw [if_neg fun hc => hb hc.1]
      simp only [hb, and_false, or_false]
  · rw [importsAt_importNode t i j k hi]
    split
    · next hk =>
        rw [hk.1]
        exact (h.nodup_imports i).append (List.nodup_singleton j) (by simpa using hij)
    · exact h.nodup_imports k
  · rw [importersAt_importNode t i j k hi hj]
    split
    · next hk =>
        rw [hk.1]
        exact (h.nodup_importers j).append (List.nodup_singleton i) (by simpa using hji)
    · exact h.nodup_importers k

/-! ### Adding many edges -/

@[simp] theorem length_importAll (t : CutTable) (es : List (Nat × Nat)) :
    (t.importAll es).length = t.length := by
  induction es generalizing t with
  | nil => rfl
  | cons e rest ih => exact (ih (t.importNode e.1 e.2)).trans (length_importNode t e.1 e.2)

/-- Many imports change no field but the lists of neighbours and the count. -/
theorem map_getElem?_importAll {α : Type} (field : CutNode → α)
    (hfield : ∀ (n : CutNode) (imports importedBy : List Nat) (left : Int),
      field ⟨n.id, n.stat, imports, importedBy, left⟩ = field n)
    (t : CutTable) (es : List (Nat × Nat)) (k : Nat) :
    (t.importAll es)[k]?.map field = t[k]?.map field := by
  induction es generalizing t with
  | nil => rfl
  | cons e rest ih =>
      exact (ih (t.importNode e.1 e.2)).trans (map_getElem?_importNode field hfield t e.1 e.2 k)

/-- Many imports add their edges, and no others. -/
theorem mem_importsAt_importAll (t : CutTable) (es : List (Nat × Nat))
    (hes : ∀ e ∈ es, e.1 < t.length) (a b : Nat) :
    b ∈ (t.importAll es).importsAt a ↔ b ∈ t.importsAt a ∨ (a, b) ∈ es := by
  induction es generalizing t with
  | nil => simp only [importAll, List.foldl_nil, List.not_mem_nil, or_false]
  | cons e rest ih =>
      have hrest : ∀ e' ∈ rest, e'.1 < (t.importNode e.1 e.2).length := by
        intro e' he'
        rw [length_importNode]
        exact hes e' (List.mem_cons_of_mem e he')
      refine (ih (t.importNode e.1 e.2) hrest).trans ?_
      rw [mem_importsAt_importNode t e.1 e.2 a b (hes e List.mem_cons_self), List.mem_cons,
        or_assoc, ← Prod.mk.injEq]

/-- Many imports keep a table linked. -/
theorem linked_importAll (t : CutTable) (es : List (Nat × Nat))
    (hes : ∀ e ∈ es, e.1 < t.length ∧ e.2 < t.length) (h : t.Linked) :
    (t.importAll es).Linked := by
  induction es generalizing t with
  | nil => exact h
  | cons e rest ih =>
      have he := hes e List.mem_cons_self
      refine ih (t.importNode e.1 e.2) (fun e' he' => ?_) (linked_importNode t e.1 e.2 he.1 he.2 h)
      rw [length_importNode]
      exact hes e' (List.mem_cons_of_mem e he')

/-! ### Counts aside -/

@[simp] theorem importersAt_resetAll (t : CutTable) (i : Nat) :
    t.resetAll.importersAt i = t.importersAt i := by
  unfold importersAt resetAll
  rw [List.getElem?_map, Option.map_map]
  rfl

/-- After a reset, the count of a node is the number of its importers. -/
theorem leftAt_resetAll (t : CutTable) (i : Nat) :
    t.resetAll.leftAt i = (t.importersAt i).length := by
  unfold leftAt importersAt resetAll
  rw [List.getElem?_map, Option.map_map]
  cases t[i]? <;> rfl

theorem resetAll_resetAll (t : CutTable) : t.resetAll.resetAll = t.resetAll := by
  unfold resetAll
  rw [List.map_map]
  rfl

variable {t u : CutTable}

/-- Tables that differ in their counts only agree on whatever is not a count. -/
theorem map_getElem?_congr {α : Type} {field : CutNode → α}
    (hfield : ∀ n, field n.restored = field n) (h : t.resetAll = u.resetAll) (i : Nat) :
    t[i]?.map field = u[i]?.map field := by
  have hreset : ∀ v : CutTable, v.resetAll[i]?.map field = v[i]?.map field := by
    intro v
    unfold resetAll
    rw [List.getElem?_map, Option.map_map]
    exact congrArg (Option.map · v[i]?) (funext hfield)
  rw [← hreset t, h, hreset u]

/-- Tables that differ in their counts only have the same imports. -/
theorem importsAt_congr (h : t.resetAll = u.resetAll) (i : Nat) :
    t.importsAt i = u.importsAt i := by
  unfold importsAt
  rw [map_getElem?_congr (fun _ => rfl) h]

/-- Tables that differ in their counts only have the same importers. -/
theorem importersAt_congr (h : t.resetAll = u.resetAll) (i : Nat) :
    t.importersAt i = u.importersAt i := by
  unfold importersAt
  rw [map_getElem?_congr (fun _ => rfl) h]

/-- Tables that differ in their counts only are linked together. -/
theorem Linked.congr (h : t.resetAll = u.resetAll) (ht : t.Linked) : u.Linked where
  mem_iff i j := by
    rw [← importsAt_congr h, ← importersAt_congr h]
    exact ht.mem_iff i j
  nodup_imports i := by
    rw [← importsAt_congr h]
    exact ht.nodup_imports i
  nodup_importers i := by
    rw [← importersAt_congr h]
    exact ht.nodup_importers i

/-- Tables that differ in their counts only give the same totals. -/
theorem statOf_congr (h : t.resetAll = u.resetAll) (positions : List Nat) :
    t.statOf positions = u.statOf positions := by
  unfold statOf
  congr 1
  exact List.filterMap_congr fun i _ => map_getElem?_congr (fun _ => rfl) h i

/-- A change that a reset undoes is not seen after one. -/
theorem resetAll_modify (change : CutNode → CutNode)
    (hchange : ∀ n, (change n).restored = n.restored) (t : CutTable) (i : Nat) :
    CutTable.resetAll (t.modify i change) = t.resetAll := by
  refine List.ext_getElem? fun k => ?_
  unfold resetAll
  rw [List.getElem?_map, List.getElem?_map]
  exact map_getElem?_modify CutNode.restored change hchange t i k

theorem resetAll_release (target : Nat) (is : List Nat) (t : CutTable) :
    (release target is t).2.resetAll = t.resetAll := by
  induction is generalizing t with
  | nil => rfl
  | cons i rest ih =>
      have hrest := (ih (t.modify i CutNode.loseImporter)).trans
        (resetAll_modify CutNode.loseImporter (fun _ => rfl) t i)
      simp only [release]
      split <;> exact hrest

theorem resetAll_cascade (target : Nat) (t : CutTable) (stack : List Nat) :
    (cascade target t stack).2.resetAll = t.resetAll := by
  induction t, stack using cascade.induct target with
  | case1 t => rw [cascade]
  | case2 t i rest step ih =>
      rw [cascade]
      exact ih.trans (resetAll_release target (t.importsAt i) t)

/-- The deletion of a node changes nothing but counts. -/
theorem resetAll_erase (t : CutTable) (target : Nat) :
    (t.erase target).2.resetAll = t.resetAll :=
  resetAll_cascade target t [target]

end CutTable

end PackageAlgebra
