import Mathlib.Algebra.Ring.Parity
import PackageAlgebra.Proofs.Package.Closure

/-!
# Joining Any Number of Sets

Which id an operation on many sets leaves, and with whose node.

An operation takes its operands one by one, from the left, and what it has got so far is one of
its operands the next time. Each of the four operations has a rule of its own for an id that both
of them hold. Joined from the left, the rules become statements about all operands at once. A
union takes the node of the leftmost operand that has one; a difference and an intersection never
take any node but that of the first operand; and a symmetric difference forgets a node each time
that the id comes up again, so the id is there after an odd number of operands that hold it, and
its node is that of the last one.

Which ids are left depends on the order of the operands only in so far as a difference has a first
one.

## Main definitions

* `SetOp.Joined`: What an operation makes of any number of sets.

## Theorems

* `PackageSet.get?_subtract`, `PackageSet.get?_intersect`, `PackageSet.get?_symmetricDifference`:
  Two sets.
* `SetOp.get?_union_applyAll`, `SetOp.get?_subtract_applyAll`, `SetOp.get?_intersect_applyAll`,
  `SetOp.get?_symmetricDifference_applyAll`, `SetOp.joined_applyAll`: Any number of sets.
* `SetOp.mem_keys_applyAll_perm`, `SetOp.mem_keys_subtract_perm`: The order of the operands.
-/

namespace PackageAlgebra

variable {ρ : Type} {a b : PackageSet ρ} {sets others : List (PackageSet ρ)} {x : String}

namespace PackageSet

/-! ### Two sets -/

theorem get?_subtract (a b : PackageSet ρ) (x : String) :
    (a.subtract b).get? x = if b.contains x then none else a.get? x := by
  unfold subtract
  rw [OrderedMap.get?_filter]
  cases b.contains x <;> rfl

theorem mem_keys_subtract : x ∈ (a.subtract b).keys ↔ x ∈ a.keys ∧ x ∉ b.keys := by
  unfold subtract
  rw [OrderedMap.keys_filter, List.mem_filter, ← OrderedMap.contains_iff_mem_keys (m := b),
    Bool.not_eq_true, Bool.not_eq_true']

theorem get?_intersect (a b : PackageSet ρ) (x : String) :
    (a.intersect b).get? x = if b.contains x then a.get? x else none := by
  refine Option.ext fun p => ?_
  rw [OrderedMap.get?_eq_some_iff, Option.ite_none_right_eq_some, OrderedMap.contains_iff_mem_keys]
  constructor
  · intro h
    rcases List.mem_filterMap.1 (OrderedMap.mem_of_mem_entries_ofList h) with ⟨id, hid, hpair⟩
    rcases Option.map_eq_some_iff.1 hpair with ⟨q, hq, heq⟩
    rcases Prod.mk.inj heq with ⟨rfl, rfl⟩
    exact ⟨hid, hq⟩
  · rintro ⟨hid, hp⟩
    -- Each id is written once, so what is written is kept.
    have hkeys : (b.keys.filterMap fun id => (a.get? id).map fun q => (id, q)).map Prod.fst =
        b.keys.filter fun id => (a.get? id).isSome := by
      rw [List.map_filterMap, ← List.filterMap_eq_filter]
      refine List.filterMap_congr fun id _ => ?_
      cases h : a.get? id <;> simp [Option.guard, h]
    have hentries : (a.intersect b).entries =
        b.keys.filterMap fun id => (a.get? id).map fun q => (id, q) := by
      refine OrderedMap.entries_ofList ?_
      rw [hkeys]
      exact b.nodup.filter _
    rw [hentries]
    exact List.mem_filterMap.2 ⟨x, hid, by rw [hp, Option.map_some]⟩

theorem get?_symmetricDifference (a b : PackageSet ρ) (x : String) :
    (a.symmetricDifference b).get? x =
      if b.contains x then (if a.contains x then none else b.get? x) else a.get? x := by
  have hwritten := OrderedMap.get?_foldl_insert (b.subtract a) (fun _ p => p) (a.subtract b) x
  unfold symmetricDifference
  rw [hwritten, Option.map_id', get?_subtract, get?_subtract]
  cases hb : b.contains x with
  | true => simp only [if_true, Option.or_none]
  | false =>
      have hnone : b.get? x = none := by
        rwa [OrderedMap.contains_eq_isSome, Option.isSome_eq_false_iff, Option.isNone_iff_eq_none]
          at hb
      simp only [hnone, ite_self, Option.none_or, Bool.false_eq_true, if_false]

/-! ### Unions -/

/-- The value of an id in a union is the first one. -/
theorem get?_foldl_union (a : PackageSet ρ) (sets : List (PackageSet ρ)) (x : String) :
    (sets.foldl union a).get? x = (a.get? x).or (sets.findSome? (·.get? x)) := by
  induction sets generalizing a with
  | nil => exact (Option.or_none).symm
  | cons b rest ih =>
      rw [List.foldl_cons, ih, get?_union, Option.or_assoc, List.findSome?_cons]
      cases b.get? x <;> rfl

/-- The ids of a union are those of any set. -/
theorem mem_keys_unionAll : x ∈ (unionAll sets).keys ↔ ∃ a ∈ sets, x ∈ a.keys := by
  unfold unionAll
  rw [← OrderedMap.contains_iff_mem_keys, OrderedMap.contains_eq_isSome, get?_foldl_union]
  have hempty : (OrderedMap.empty : PackageSet ρ).get? x = none := rfl
  rw [hempty, Option.none_or, List.findSome?_isSome_iff]
  simp only [← OrderedMap.contains_iff_mem_keys, OrderedMap.contains_eq_isSome]

end PackageSet

/-! ### Any number of sets -/

namespace SetOp

open PackageSet

/-- A union has the node of the leftmost set that holds the id. -/
theorem get?_union_applyAll (sets : List (PackageSet ρ)) (x : String) :
    (union.applyAll sets).get? x = sets.findSome? (·.get? x) := by
  cases sets with
  | nil => rfl
  | cons a rest =>
      rw [List.findSome?_cons]
      refine (get?_foldl_union a rest x).trans ?_
      cases a.get? x <;> rfl

/-- A difference has the nodes of the first set whose ids are in no other. -/
theorem get?_subtract_applyAll (a : PackageSet ρ) (rest : List (PackageSet ρ)) (x : String) :
    (subtract.applyAll (a :: rest)).get? x =
      if ∃ b ∈ rest, x ∈ b.keys then none else a.get? x := by
  change (rest.foldl PackageSet.subtract a).get? x = _
  induction rest generalizing a with
  | nil => simp only [List.foldl_nil, List.not_mem_nil, false_and, exists_false, if_false]
  | cons b rest ih =>
      simp only [List.foldl_cons, ih, get?_subtract, OrderedMap.contains_iff_mem_keys,
        List.exists_mem_cons_iff]
      by_cases hb : x ∈ b.keys
      · simp only [hb, if_true, true_or, ite_self]
      · simp only [hb, if_false, false_or]

/-- An intersection has the nodes of the first set whose ids are in all others. -/
theorem get?_intersect_applyAll (a : PackageSet ρ) (rest : List (PackageSet ρ)) (x : String) :
    (intersect.applyAll (a :: rest)).get? x =
      if ∀ b ∈ rest, x ∈ b.keys then a.get? x else none := by
  change (rest.foldl PackageSet.intersect a).get? x = _
  induction rest generalizing a with
  | nil => simp only [List.foldl_nil, List.not_mem_nil, false_implies, implies_true, if_true]
  | cons b rest ih =>
      simp only [List.foldl_cons, ih, get?_intersect, OrderedMap.contains_iff_mem_keys,
        List.forall_mem_cons]
      by_cases hb : x ∈ b.keys
      · simp only [hb, if_true, true_and]
      · simp only [hb, if_false, false_and, ite_self]

/-- Of an odd number of sets that hold an id, one is the last. -/
theorem isSome_findSome?_of_odd (h : Odd (sets.countP (·.contains x))) :
    (sets.reverse.findSome? (·.get? x)).isSome := by
  have hpos : 0 < sets.countP (·.contains x) := by
    rcases h with ⟨k, hk⟩
    omega
  rcases List.countP_pos_iff.1 hpos with ⟨a, ha, hax⟩
  rw [List.findSome?_isSome_iff]
  exact ⟨a, List.mem_reverse.2 ha, OrderedMap.contains_eq_isSome a x ▸ hax⟩

/-- A symmetric difference has the ids of an odd number of sets, each with the node of the last set
    that holds it. -/
theorem get?_symmetricDifference_applyAll (sets : List (PackageSet ρ)) (x : String) :
    (symmetricDifference.applyAll sets).get? x =
      if Odd (sets.countP (·.contains x)) then sets.reverse.findSome? (·.get? x) else none := by
  -- The last operand comes to what all others leave.
  have hlast : ∀ (sets : List (PackageSet ρ)) (b : PackageSet ρ),
      (symmetricDifference.applyAll (sets ++ [b])).get? x =
        ((symmetricDifference.applyAll sets).symmetricDifference b).get? x := by
    intro sets b
    cases sets with
    | nil =>
        rw [get?_symmetricDifference]
        change b.get? x = if b.contains x then b.get? x else none
        rw [OrderedMap.contains_eq_isSome]
        cases b.get? x <;> rfl
    | cons a rest =>
        change ((rest ++ [b]).foldl PackageSet.symmetricDifference a).get? x = _
        rw [List.foldl_concat]
        rfl
  induction sets using List.reverseRecOn with
  | nil => rfl
  | append_singleton sets b ih =>
      rw [hlast, get?_symmetricDifference, OrderedMap.contains_eq_isSome
        (symmetricDifference.applyAll sets), ih, List.countP_append, List.countP_singleton,
        List.reverse_append, List.reverse_singleton, List.singleton_append, List.findSome?_cons,
        OrderedMap.contains_eq_isSome]
      cases hb : b.get? x with
      | none => simp only [Option.isSome_none, Bool.false_eq_true, if_false, Nat.add_zero]
      | some p =>
          simp only [Option.isSome_some, if_true, Nat.odd_add_one]
          by_cases hodd : Odd (sets.countP (·.contains x))
          · -- There is a set before that holds the id, and its node is forgotten.
            simp only [hodd, if_true, isSome_findSome?_of_odd hodd, not_true, if_false]
          · simp only [hodd, if_false, Option.isSome_none, Bool.false_eq_true, not_false_eq_true,
              if_true]

theorem mem_keys_union_applyAll :
    x ∈ (union.applyAll sets).keys ↔ ∃ a ∈ sets, x ∈ a.keys := by
  simp only [← OrderedMap.contains_iff_mem_keys, OrderedMap.contains_eq_isSome,
    get?_union_applyAll, List.findSome?_isSome_iff]

theorem mem_keys_subtract_applyAll {rest : List (PackageSet ρ)} :
    x ∈ (subtract.applyAll (a :: rest)).keys ↔ x ∈ a.keys ∧ ∀ b ∈ rest, x ∉ b.keys := by
  rw [← OrderedMap.contains_iff_mem_keys, OrderedMap.contains_eq_isSome, get?_subtract_applyAll,
    ← OrderedMap.contains_iff_mem_keys, OrderedMap.contains_eq_isSome]
  by_cases h : ∃ b ∈ rest, x ∈ b.keys
  · simp only [h, if_true, Option.isSome_none, Bool.false_eq_true, false_iff, not_and, not_forall,
      not_not]
    rcases h with ⟨b, hb, hx⟩
    exact fun _ => ⟨b, hb, hx⟩
  · rw [if_neg h, iff_self_and]
    exact fun _ b hb hx => h ⟨b, hb, hx⟩

theorem mem_keys_intersect_applyAll (hne : sets ≠ []) :
    x ∈ (intersect.applyAll sets).keys ↔ ∀ a ∈ sets, x ∈ a.keys := by
  cases sets with
  | nil => exact absurd rfl hne
  | cons a rest =>
      rw [← OrderedMap.contains_iff_mem_keys, OrderedMap.contains_eq_isSome,
        get?_intersect_applyAll, List.forall_mem_cons, ← OrderedMap.contains_iff_mem_keys,
        OrderedMap.contains_eq_isSome]
      by_cases h : ∀ b ∈ rest, x ∈ b.keys
      · rw [if_pos h]
        exact (and_iff_left h).symm
      · rw [if_neg h]
        exact iff_of_false Bool.false_ne_true fun hboth => h hboth.2

theorem mem_keys_symmetricDifference_applyAll :
    x ∈ (symmetricDifference.applyAll sets).keys ↔ Odd (sets.countP (·.contains x)) := by
  rw [← OrderedMap.contains_iff_mem_keys, OrderedMap.contains_eq_isSome,
    get?_symmetricDifference_applyAll]
  by_cases hodd : Odd (sets.countP (·.contains x))
  · rw [if_pos hodd]
    exact iff_of_true (isSome_findSome?_of_odd hodd) hodd
  · rw [if_neg hodd]
    exact iff_of_false Bool.false_ne_true hodd

/-- What an operation makes of a first set and others, said of all of them at once. -/
def Joined (op : SetOp) (a : PackageSet ρ) (rest : List (PackageSet ρ)) (b : PackageSet ρ) : Prop :=
  ∀ x, match op with
    -- The ids of any set, each with the node of the leftmost set that holds it.
    | union => (x ∈ b.keys ↔ ∃ c ∈ a :: rest, x ∈ c.keys) ∧
        b.get? x = (a :: rest).findSome? (·.get? x)
    -- The ids of the first set that are in no other, with the nodes of the first.
    | subtract => (x ∈ b.keys ↔ x ∈ a.keys ∧ ∀ c ∈ rest, x ∉ c.keys) ∧
        (x ∈ b.keys → b.get? x = a.get? x)
    -- The ids in all sets, with the nodes of the first.
    | intersect => (x ∈ b.keys ↔ ∀ c ∈ a :: rest, x ∈ c.keys) ∧
        (x ∈ b.keys → b.get? x = a.get? x)
    -- The ids of an odd number of sets, each with the node of the last set that holds it.
    | symmetricDifference => (x ∈ b.keys ↔ Odd ((a :: rest).countP (·.contains x))) ∧
        (x ∈ b.keys → b.get? x = (a :: rest).reverse.findSome? (·.get? x))

theorem joined_applyAll (op : SetOp) (a : PackageSet ρ) (rest : List (PackageSet ρ)) :
    op.Joined a rest (op.applyAll (a :: rest)) := by
  intro x
  cases op with
  | union => exact ⟨mem_keys_union_applyAll, get?_union_applyAll (a :: rest) x⟩
  | subtract =>
      refine ⟨mem_keys_subtract_applyAll, fun hx => ?_⟩
      rw [get?_subtract_applyAll, if_neg]
      rintro ⟨c, hc, hxc⟩
      exact (mem_keys_subtract_applyAll.1 hx).2 c hc hxc
  | intersect =>
      have hkeys := mem_keys_intersect_applyAll (x := x) (List.cons_ne_nil a rest)
      refine ⟨hkeys, fun hx => ?_⟩
      rw [get?_intersect_applyAll, if_pos (List.forall_mem_cons.1 (hkeys.1 hx)).2]
  | symmetricDifference =>
      refine ⟨mem_keys_symmetricDifference_applyAll, fun hx => ?_⟩
      rw [get?_symmetricDifference_applyAll, if_pos (mem_keys_symmetricDifference_applyAll.1 hx)]

/-! ### The order of the operands -/

/-- Operands may be in any order, unless they are subtracted. -/
theorem mem_keys_applyAll_perm {op : SetOp} (hop : op ≠ subtract) (h : sets.Perm others) :
    x ∈ (op.applyAll sets).keys ↔ x ∈ (op.applyAll others).keys := by
  cases op with
  | union => simp only [mem_keys_union_applyAll, h.mem_iff]
  | subtract => exact absurd rfl hop
  | intersect =>
      cases sets with
      | nil => rw [List.nil_perm.1 h]
      | cons a rest =>
          have hothers : others ≠ [] := by
            rintro rfl
            exact List.cons_ne_nil a rest (List.perm_nil.1 h)
          rw [mem_keys_intersect_applyAll (List.cons_ne_nil a rest),
            mem_keys_intersect_applyAll hothers]
          simp only [h.mem_iff]
  | symmetricDifference =>
      rw [mem_keys_symmetricDifference_applyAll, mem_keys_symmetricDifference_applyAll,
        h.countP_eq]

/-- What is subtracted may be in any order. -/
theorem mem_keys_subtract_perm (a : PackageSet ρ) (h : sets.Perm others) :
    x ∈ (subtract.applyAll (a :: sets)).keys ↔ x ∈ (subtract.applyAll (a :: others)).keys := by
  simp only [mem_keys_subtract_applyAll, h.mem_iff]

end SetOp

end PackageAlgebra
