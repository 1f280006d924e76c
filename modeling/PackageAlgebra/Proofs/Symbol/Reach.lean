import PackageAlgebra.Proofs.Calculator.Steps
import PackageAlgebra.Proofs.Package.Walk

/-!
# Reaching Annotated Symbols

Which packages keep unused methods alive.

The graph of symbols is kept backwards, and it is walked backwards from the annotated symbols.
Read forwards, a symbol is reached if a chain of calls leads from it to an annotated one; a chain
without any call will do, so annotated symbols are reached as well. A package keeps unused methods
alive if one of its symbols is reached, and a set is asked for those of its members that do.

## Main definitions

* `SymbolGraph.Calls`: One symbol calls another.

## Theorems

* `SymbolGraph.mem_callersOf_addCall_iff`: What a call adds to the callers of a symbol.
* `SymbolGraph.mem_reachable_iff`: Reached symbols lead to annotated ones.
* `PackageSet.mem_keptAlive_iff`: The members that own a symbol which is reached.
* `Calc.deadcode_of_answer`: What is made of the answer of an oracle.
-/

namespace PackageAlgebra

open Relation

namespace SymbolGraph

variable {g : SymbolGraph} {x y caller callee : String}

/-- One symbol calls another. -/
def Calls (g : SymbolGraph) (x y : String) : Prop := x ∈ g.callersOf y

/-- A call is filed under the called symbol, and nothing else changes. -/
theorem mem_callersOf_addCall_iff :
    x ∈ (g.addCall caller callee).callersOf y ↔ x ∈ g.callersOf y ∨ x = caller ∧ y = callee := by
  unfold callersOf addCall fileCall
  rw [OrderedMap.get?_insert]
  by_cases hy : y = callee
  · rw [if_pos hy, Option.getD_some, List.mem_append, List.mem_singleton, hy]
    simp only [and_true]
  · simp only [hy, if_false, and_false, or_false]

/-- The symbols that are reached are those from which calls lead to an annotated one. -/
theorem mem_reachable_iff : x ∈ g.reachable ↔ ∃ y ∈ g.annotated, ReflTransGen g.Calls x y := by
  have hknown : ∀ y, ∀ x ∈ g.callersOf y, x ∈ g.annotated ++ g.callers.values.flatten := by
    intro y x hx
    unfold callersOf at hx
    cases hcallers : g.callers.get? y with
    | none =>
        rw [hcallers] at hx
        exact absurd hx List.not_mem_nil
    | some callers =>
        rw [hcallers] at hx
        have hvalue := OrderedMap.mem_values_of_get? hcallers
        exact List.mem_append_right _ (List.mem_flatten.2 ⟨callers, hvalue, hx⟩)
  unfold reachable
  rw [mem_walk_self_iff (fun _ hy => List.mem_append_left _ hy) hknown]
  exact exists_congr fun y => and_congr_right fun _ => reflTransGen_swap

end SymbolGraph

variable {σ ρ : Type} {a : PackageSet ρ} {g : SymbolGraph}

/-- The members that keep unused methods alive own a symbol from which calls lead to an annotated
    one. -/
theorem PackageSet.mem_keptAlive_iff {m : String × Node ρ} :
    m ∈ (a.keptAlive g).entries ↔ m ∈ a.entries ∧ m.1 ≠ "" ∧
      ∃ x y, g.packageOf x = m.1 ∧ ReflTransGen g.Calls x y ∧ y ∈ g.annotated := by
  change m ∈ a.entries.filter _ ↔ _
  rw [List.mem_filter, Bool.and_eq_true, decide_eq_true_eq, List.contains_iff_mem, List.mem_map]
  simp only [SymbolGraph.mem_reachable_iff]
  refine and_congr_right fun _ => and_congr_right fun _ => ?_
  constructor
  · rintro ⟨x, ⟨y, hy, hpath⟩, howner⟩
    exact ⟨x, y, howner, hpath, hy⟩
  · rintro ⟨x, y, howner, hpath, hy⟩
    exact ⟨x, ⟨y, hy, hpath⟩, howner⟩

/-- Of a set, the members are left that the answer of the oracle keeps alive; nobody is asked about
    the empty set, of which nothing would be left. -/
theorem Calc.deadcode_of_answer {parties : Calculator σ ρ} {oracle : Oracle σ}
    {config : LoadConfig} {s : CalcState σ ρ} (horacle : parties.oracle = some oracle)
    (hversion : oracle.version = supportedVersion)
    (hanswer : (oracle.symbolGraph config a.sortedIds s.loader).1 = .ok g) :
    (Calc.deadcode parties config a s).1 = .ok (a.keptAlive g) := by
  unfold Calc.deadcode
  rw [horacle]
  simp only [hversion, ne_eq, not_true, if_false]
  by_cases hempty : a.isEmpty = true
  · rw [if_pos hempty]
    refine congrArg Except.ok (OrderedMap.eq_of_entries_eq ?_)
    change [] = a.entries.filter _
    rw [List.isEmpty_iff.1 hempty, List.filter_nil]
  · rcases hasked : oracle.symbolGraph config a.sortedIds s.loader with ⟨answer, t⟩
    rw [hasked] at hanswer
    change answer = .ok g at hanswer
    subst hanswer
    have hask : Calc.askOracle oracle config a.sortedIds s =
        (.ok g, { s with loader := t, asked := s.asked ++ [a.sortedIds] }) := by
      unfold Calc.askOracle
      simp only [hasked]
    rw [if_neg hempty, bind_ok hask]
    rfl

end PackageAlgebra
