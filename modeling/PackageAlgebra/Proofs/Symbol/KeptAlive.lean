import PackageAlgebra.Load.FromRecords
import PackageAlgebra.Proofs.Symbol.Reach

/-!
# Graphs That Grow

What becomes of the packages that are kept alive when symbols are called or annotated.

Which members of a set keep unused methods alive is told by three things about a graph: which
symbols call which, which are annotated, and which package each of them is in. It is of no account
how often a call is made, nor when it was found. Graphs are made by additions of calls and
annotations one after the other, so what they tell is what has been added, in whatever order.
Nothing is ever taken back, and chains of calls are still there when more calls are; so members
that are kept alive stay so.

## Main definitions

* `SymbolGraph.Addition`: A call or an annotation.
* `SymbolGraph.addAll`: A graph with more calls and annotations.

## Theorems

* `SymbolGraph.calls_addAll_iff`, `SymbolGraph.mem_annotated_addAll_iff`: What has been added.
* `PackageSet.keptAlive_congr`: What the packages that are kept alive are told by.
* `PackageSet.keptAlive_mono`: Calls and annotations keep more packages alive.
* `deadcode_keeps_leading`: What is left of a set, and what additions do to it.
-/

namespace PackageAlgebra

open Relation

namespace SymbolGraph

variable {g h : SymbolGraph} {x y symbol : String}

/-- What is added to a graph: a call, or the mark that a symbol is annotated. -/
inductive Addition
  | call (caller callee : String)
  | mark (symbol : String)
  deriving DecidableEq

/-- Annotate a symbol. -/
def annotate (g : SymbolGraph) (symbol : String) : SymbolGraph :=
  { g with annotated :=
      if g.annotated.contains symbol then g.annotated else g.annotated ++ [symbol] }

/-- A graph with one call or annotation more. -/
def add (g : SymbolGraph) : Addition → SymbolGraph
  | .call caller callee => g.addCall caller callee
  | .mark symbol => g.annotate symbol

/-- A graph with more calls and annotations, one after the other. -/
def addAll (g : SymbolGraph) (additions : List Addition) : SymbolGraph := additions.foldl add g

theorem mem_annotated_annotate_iff :
    x ∈ (g.annotate symbol).annotated ↔ x ∈ g.annotated ∨ x = symbol := by
  change x ∈ (if g.annotated.contains symbol then g.annotated else g.annotated ++ [symbol]) ↔ _
  split
  · next hold =>
      refine (or_iff_left_of_imp ?_).symm
      rintro rfl
      exact List.contains_iff_mem.1 hold
  · rw [List.mem_append, List.mem_singleton]

/-- An addition adds its call, if it is one, and nothing else to the calls. -/
theorem calls_add_iff {addition : Addition} :
    (g.add addition).Calls x y ↔ g.Calls x y ∨ addition = .call x y := by
  cases addition with
  | call caller callee =>
      rw [Addition.call.injEq, eq_comm (b := x), eq_comm (b := y)]
      exact mem_callersOf_addCall_iff
  | mark symbol =>
      simp only [reduceCtorEq, or_false]
      rfl

/-- An addition annotates its symbol, if it has one, and no other. -/
theorem mem_annotated_add_iff {addition : Addition} :
    x ∈ (g.add addition).annotated ↔ x ∈ g.annotated ∨ addition = .mark x := by
  cases addition with
  | call caller callee =>
      simp only [reduceCtorEq, or_false]
      rfl
  | mark symbol =>
      rw [Addition.mark.injEq, eq_comm (b := x)]
      exact mem_annotated_annotate_iff

theorem packageOf_add (addition : Addition) : (g.add addition).packageOf = g.packageOf := by
  cases addition <;> rfl

/-- The calls of a graph are those that it had and those that were added. -/
theorem calls_addAll_iff (additions : List Addition) :
    (g.addAll additions).Calls x y ↔ g.Calls x y ∨ .call x y ∈ additions := by
  induction additions generalizing g with
  | nil => simp only [List.not_mem_nil, or_false]; rfl
  | cons addition rest ih =>
      change ((g.add addition).addAll rest).Calls x y ↔ _
      rw [ih, calls_add_iff, List.mem_cons, or_assoc, eq_comm]

/-- The annotated symbols of a graph are those that it had and those that were added. -/
theorem mem_annotated_addAll_iff (additions : List Addition) :
    x ∈ (g.addAll additions).annotated ↔ x ∈ g.annotated ∨ .mark x ∈ additions := by
  induction additions generalizing g with
  | nil => simp only [List.not_mem_nil, or_false]; rfl
  | cons addition rest ih =>
      change x ∈ ((g.add addition).addAll rest).annotated ↔ _
      rw [ih, mem_annotated_add_iff, List.mem_cons, or_assoc, eq_comm]

theorem packageOf_addAll (additions : List Addition) :
    (g.addAll additions).packageOf = g.packageOf := by
  induction additions generalizing g with
  | nil => rfl
  | cons addition rest ih => exact ih.trans (packageOf_add addition)

end SymbolGraph

variable {σ ρ : Type} {a : PackageSet ρ} {g h : SymbolGraph} {m : String × Node ρ}

/-- A graph with more calls and annotations keeps more members alive. -/
theorem PackageSet.keptAlive_mono (howner : h.packageOf = g.packageOf)
    (hcalls : ∀ x y, g.Calls x y → h.Calls x y) (hannotated : ∀ x ∈ g.annotated, x ∈ h.annotated)
    (hm : m ∈ (a.keptAlive g).entries) : m ∈ (a.keptAlive h).entries := by
  rcases mem_keptAlive_iff.1 hm with ⟨hmem, hid, x, y, hx, hpath, hy⟩
  refine mem_keptAlive_iff.2 ⟨hmem, hid, x, y, howner ▸ hx, ?_, hannotated y hy⟩
  exact ReflTransGen.mono hcalls x y hpath

/-- The members that are kept alive are told by who calls whom, what is annotated and what belongs
    to which package. -/
theorem PackageSet.keptAlive_congr (howner : h.packageOf = g.packageOf)
    (hcalls : ∀ x y, g.Calls x y ↔ h.Calls x y)
    (hannotated : ∀ x, x ∈ g.annotated ↔ x ∈ h.annotated) : a.keptAlive g = a.keptAlive h := by
  have hmem : ∀ m, m ∈ (a.keptAlive g).entries ↔ m ∈ (a.keptAlive h).entries := by
    refine fun m => ⟨keptAlive_mono howner ?_ ?_, keptAlive_mono howner.symm ?_ ?_⟩
    · exact fun x y => (hcalls x y).1
    · exact fun x => (hannotated x).1
    · exact fun x y => (hcalls x y).2
    · exact fun x => (hannotated x).2
  -- Both are what is left of the same members, in their order.
  refine OrderedMap.eq_of_entries_eq (List.filter_congr fun m hm => ?_)
  have hleft := hmem m
  change m ∈ a.entries.filter _ ↔ m ∈ a.entries.filter _ at hleft
  rw [List.mem_filter, List.mem_filter] at hleft
  rw [Bool.eq_iff_iff]
  exact (and_congr_right_iff.1 hleft) hm

/-- With a graph as the answer of the oracle, those members are left of a set, with their nodes,
    that have an id which is not empty, and own a symbol from which calls lead to an annotated one.
    Of more calls and annotations only counts which they are, and they take no member out. -/
theorem deadcode_keeps_leading (a : PackageSet ρ) (g : SymbolGraph) :
    (∀ m, m ∈ (a.keptAlive g).entries ↔ m ∈ a.entries ∧ m.1 ≠ "" ∧
      ∃ x y, g.packageOf x = m.1 ∧ ReflTransGen g.Calls x y ∧ y ∈ g.annotated) ∧
    (∀ (parties : Calculator σ ρ) oracle config s, parties.oracle = some oracle →
      oracle.version = supportedVersion →
      (oracle.symbolGraph config a.sortedIds s.loader).1 = .ok g →
      (Calc.deadcode parties config a s).1 = .ok (a.keptAlive g)) ∧
    (∀ additions additions', (∀ addition, addition ∈ additions ↔ addition ∈ additions') →
      a.keptAlive (g.addAll additions) = a.keptAlive (g.addAll additions')) ∧
    ∀ additions, ∀ m ∈ (a.keptAlive g).entries, m ∈ (a.keptAlive (g.addAll additions)).entries := by
  refine ⟨fun m => PackageSet.mem_keptAlive_iff, ?_, ?_, ?_⟩
  · intro parties oracle config s horacle hversion hanswer
    exact Calc.deadcode_of_answer horacle hversion hanswer
  · intro additions additions' hsame
    refine PackageSet.keptAlive_congr ?_ (fun x y => ?_) fun x => ?_
    · rw [SymbolGraph.packageOf_addAll, SymbolGraph.packageOf_addAll]
    · rw [SymbolGraph.calls_addAll_iff, SymbolGraph.calls_addAll_iff, hsame]
    · rw [SymbolGraph.mem_annotated_addAll_iff, SymbolGraph.mem_annotated_addAll_iff, hsame]
  · intro additions m hm
    refine PackageSet.keptAlive_mono (SymbolGraph.packageOf_addAll additions) (fun x y hxy => ?_)
      (fun x hx => ?_) hm
    · exact (SymbolGraph.calls_addAll_iff additions).2 (.inl hxy)
    · exact (SymbolGraph.mem_annotated_addAll_iff additions).2 (.inl hx)

/-- Calls in a circle, one of them made twice, from which an annotated symbol is called, and one
    that calls nothing; and an annotated symbol that nothing calls. -/
def circleAdditions : List SymbolGraph.Addition :=
  [.call "a.F" "b.G", .call "b.G" "a.F", .call "a.F" "b.G", .mark "c.H", .call "b.G" "c.H",
    .call "a.F" "idle.X", .mark "alone.S"]

/-- The graph of these calls and annotations. -/
def circleGraph : SymbolGraph :=
  SymbolGraph.addAll ⟨.empty, [], Text.beforeFirst '.'⟩ circleAdditions

/-- The packages of all these symbols. -/
def circlePackages : PackageSet NodeRef :=
  .ofRoots (["a", "b", "c", "idle", "alone"].map fun id => .make id "" none .single [] false false)

/-- The circle and the annotated symbols keep their packages alive. What calls nothing does not, but
    the others stay if it comes to call one of them. -/
theorem deadcode_keeps_leading_circle :
    let parties : Calculator UniverseTable NodeRef :=
      ⟨recordLoader [], some ⟨supportedVersion, fun _ _ t => (.ok circleGraph, t)⟩, []⟩
    ∃ b, (Calc.deadcode parties {} circlePackages { loader := .empty }).1 = .ok b ∧
      (∀ m ∈ circlePackages.entries, m ∈ b.entries ↔ m.1 ≠ "idle") ∧
      ∀ m ∈ b.entries, m ∈ (circlePackages.keptAlive
        (circleGraph.addAll [.call "idle.X" "b.G"])).entries := by
  intro parties
  rcases @deadcode_keeps_leading UniverseTable _ circlePackages circleGraph with
    ⟨hmem, hdeadcode, -, hmore⟩
  refine ⟨_, hdeadcode parties _ {} { loader := .empty } rfl rfl rfl, fun m hm => ?_, hmore _⟩
  have hcalls : ∀ {x y}, circleGraph.Calls x y ↔ .call x y ∈ circleAdditions := by
    intro x y
    exact (SymbolGraph.calls_addAll_iff circleAdditions).trans (or_iff_right List.not_mem_nil)
  rw [hmem]
  constructor
  · -- What is idle calls nothing, and is not annotated.
    rintro ⟨-, -, x, y, howner, hpath, hy⟩ hidle
    rw [hidle] at howner
    have hcallers : ∀ {x y}, .call x y ∈ circleAdditions → circleGraph.packageOf x ≠ "idle" := by
      intro x y hadded
      simp only [circleAdditions, List.mem_cons, SymbolGraph.Addition.call.injEq, reduceCtorEq,
        List.not_mem_nil, or_false, false_or] at hadded
      have hsource : x = "a.F" ∨ x = "b.G" := by grind
      rcases hsource with rfl | rfl <;> decide +kernel
    have hannotated : ∀ y ∈ circleGraph.annotated, circleGraph.packageOf y ≠ "idle" := by
      decide +kernel
    rcases hpath.cases_head with rfl | ⟨_, hcall, -⟩
    · exact hannotated x hy howner
    · exact hcallers (hcalls.1 hcall) howner
  · intro hidle
    have hids : m.1 ∈ ["a", "b", "c", "idle", "alone"] := List.mem_map_of_mem hm
    have hfromA : circleGraph.Calls "a.F" "b.G" := hcalls.2 (by decide)
    have hfromB : circleGraph.Calls "b.G" "c.H" := hcalls.2 (by decide)
    have hannotated : "c.H" ∈ circleGraph.annotated ∧ "alone.S" ∈ circleGraph.annotated := by
      decide
    simp only [List.mem_cons, hidle, List.not_mem_nil, or_false, false_or] at hids
    rcases hids with hid | hid | hid | hid <;> rw [hid]
    · exact ⟨hm, by decide, "a.F", "c.H", by decide +kernel, .head hfromA (.single hfromB),
        hannotated.1⟩
    · exact ⟨hm, by decide, "b.G", "c.H", by decide +kernel, .single hfromB, hannotated.1⟩
    · exact ⟨hm, by decide, "c.H", "c.H", by decide +kernel, .refl, hannotated.1⟩
    · exact ⟨hm, by decide, "alone.S", "alone.S", by decide +kernel, .refl, hannotated.2⟩

end PackageAlgebra
