/-!
# Ordered Maps

Dictionaries that remember the order in which their keys were first written.

Every answer of the calculator shows an order somewhere: the roots of a load
come in order of first match, the later statements of a query see the earlier
bindings, a caller list grows at its end. A map here is therefore a list of
pairs in which no key occurs twice. Writing a key that is already present
changes its value and leaves its place alone; a new key goes to the end.

The absence of duplicates is a field of the type, so no operation below has to
assume it and none can lose it.

## Main definitions

* `OrderedMap`: A list of pairs with distinct keys.
* `OrderedMap.get?`: The value of a key.
* `OrderedMap.insert`: Write a key, in place or at the end.
* `OrderedMap.insertIfNew`: Write a key only if it is absent.
* `OrderedMap.filter`: Keep the pairs that pass a test.
* `OrderedMap.ofList`: Write a list of pairs in turn.

## Theorems

* `keys_put`: Writing keeps the keys, or adds one at the end.
* `OrderedMap.mem_keys_insert`: The keys after a write.
* `OrderedMap.get?_insert`: The values after a write.
* `OrderedMap.get?_eq_some_iff`: The value of a key is the one that it is paired with.
* `OrderedMap.mem_of_mem_entries_ofList`: A map holds only what was written into it.
* `OrderedMap.mem_keys_ofList`: A map has all keys that were written into it.
* `OrderedMap.mem_entries_ofList_map`: The pairs of a map whose values are those of their keys.
* `OrderedMap.get?_foldl_insert`, `OrderedMap.get?_foldl_insertIfNew`: The values after writes in
  turn.
* `OrderedMap.entries_ofList`: Pairs with distinct keys are all kept.
* `OrderedMap.keys_ofList`: The keys of a map in their order.
-/

namespace PackageAlgebra

/-- Write a key into a list of pairs: in place if the key is there, at the end
    otherwise. -/
def put {κ α : Type} [DecidableEq κ] (k : κ) (a : α) : List (κ × α) → List (κ × α)
  | [] => [(k, a)]
  | (k', a') :: rest => if k' = k then (k, a) :: rest else (k', a') :: put k a rest

/-- Writing keeps the keys of a list, or adds one at the end. -/
theorem keys_put {κ α : Type} [DecidableEq κ] (k : κ) (a : α) (l : List (κ × α)) :
    (put k a l).map Prod.fst =
      if k ∈ l.map Prod.fst then l.map Prod.fst else l.map Prod.fst ++ [k] := by
  induction l with
  | nil => simp [put]
  | cons p rest ih =>
    obtain ⟨k', a'⟩ := p
    by_cases h : k' = k
    · simp [put, h]
    · have h' : k ≠ k' := fun e => h e.symm
      by_cases hm : k ∈ rest.map Prod.fst
      · simp only [put, if_neg h, List.map_cons, ih, if_pos hm]
        rw [if_pos (List.mem_cons_of_mem _ hm)]
      · simp only [put, if_neg h, List.map_cons, ih, if_neg hm]
        rw [if_neg (by simp only [List.mem_cons, not_or]; exact ⟨h', hm⟩), List.cons_append]

/-- Writing into a list without duplicate keys leaves it without them. -/
theorem nodup_keys_put {κ α : Type} [DecidableEq κ] (k : κ) (a : α) {l : List (κ × α)}
    (h : (l.map Prod.fst).Nodup) : ((put k a l).map Prod.fst).Nodup := by
  rw [keys_put]
  split
  · exact h
  · next hk =>
    rw [List.nodup_append]
    refine ⟨h, by simp, fun x hx y hy e => ?_⟩
    rw [List.mem_singleton] at hy
    exact hk (hy ▸ e ▸ hx)

/-- A pair that is there after a write was there before, or is the one written. -/
theorem mem_of_mem_put {κ α : Type} [DecidableEq κ] {k : κ} {a : α} {l : List (κ × α)}
    {e : κ × α} (h : e ∈ put k a l) : e = (k, a) ∨ e ∈ l := by
  induction l with
  | nil => simpa [put] using h
  | cons p rest ih =>
    obtain ⟨k', a'⟩ := p
    simp only [put] at h
    split at h
    · rw [List.mem_cons] at h
      rcases h with rfl | h
      · exact Or.inl rfl
      · exact Or.inr (List.mem_cons_of_mem _ h)
    · rw [List.mem_cons] at h
      rcases h with rfl | h
      · exact Or.inr List.mem_cons_self
      · rcases ih h with rfl | h
        · exact Or.inl rfl
        · exact Or.inr (List.mem_cons_of_mem _ h)

/-- A new key goes to the end. -/
theorem put_of_not_mem {κ α : Type} [DecidableEq κ] {k : κ} {a : α} {l : List (κ × α)}
    (h : k ∉ l.map Prod.fst) : put k a l = l ++ [(k, a)] := by
  induction l with
  | nil => rfl
  | cons p rest ih =>
    rw [List.map_cons, List.mem_cons, not_or] at h
    have hne : ¬ p.1 = k := fun e => h.1 e.symm
    simp only [put, if_neg hne, ih h.2, List.cons_append]

/-- An insertion-ordered dictionary: pairs in the order in which their keys were
    first written, no key twice. -/
structure OrderedMap (κ α : Type) where
  -- The pairs, oldest key first.
  entries : List (κ × α)
  -- No key occurs twice.
  nodup : (entries.map Prod.fst).Nodup

namespace OrderedMap

variable {κ α β : Type}

/-- The map without keys. -/
def empty : OrderedMap κ α := ⟨[], List.nodup_nil⟩

instance : Inhabited (OrderedMap κ α) := ⟨empty⟩

/-- The keys, oldest first. -/
def keys (m : OrderedMap κ α) : List κ := m.entries.map Prod.fst

/-- The values, in the order of their keys. -/
def values (m : OrderedMap κ α) : List α := m.entries.map Prod.snd

/-- How many keys there are. -/
def size (m : OrderedMap κ α) : Nat := m.entries.length

/-- Whether there are no keys at all. -/
def isEmpty (m : OrderedMap κ α) : Bool := m.entries.isEmpty

/-- Keep the pairs that pass a test. -/
def filter (p : κ → α → Bool) (m : OrderedMap κ α) : OrderedMap κ α :=
  ⟨m.entries.filter fun e => p e.1 e.2, m.nodup.sublist (List.filter_sublist.map _)⟩

/-- Change every value, keeping the keys. -/
def mapValues (f : κ → α → β) (m : OrderedMap κ α) : OrderedMap κ β :=
  ⟨m.entries.map fun e => (e.1, f e.1 e.2), by
    rw [List.map_map]
    exact m.nodup⟩

/-- Maps with the same pairs are the same. -/
theorem eq_of_entries_eq {m m' : OrderedMap κ α} (h : m.entries = m'.entries) : m = m' := by
  cases m
  cases m'
  cases h
  rfl

/-- The keys that are left by a test of keys alone. -/
theorem keys_filter (p : κ → Bool) (m : OrderedMap κ α) :
    (m.filter fun k _ => p k).keys = m.keys.filter p := by
  simp only [keys, filter, List.filter_map]
  rfl

/-- The keys stay when the values change. -/
theorem keys_mapValues (f : κ → α → β) (m : OrderedMap κ α) : (m.mapValues f).keys = m.keys := by
  simp only [keys, mapValues, List.map_map]
  rfl

variable [DecidableEq κ]

/-- The value of a key, if it has one. -/
def get? (m : OrderedMap κ α) (k : κ) : Option α :=
  (m.entries.find? fun e => e.1 = k).map Prod.snd

/-- Whether a key has a value. -/
def contains (m : OrderedMap κ α) (k : κ) : Bool := m.entries.any fun e => e.1 = k

/-- Write a key: in place if it is present, at the end otherwise. -/
def insert (m : OrderedMap κ α) (k : κ) (a : α) : OrderedMap κ α :=
  ⟨put k a m.entries, nodup_keys_put k a m.nodup⟩

/-- Write a key only if it is absent. -/
def insertIfNew (m : OrderedMap κ α) (k : κ) (a : α) : OrderedMap κ α :=
  if m.contains k then m else m.insert k a

/-- Write the pairs of a list in turn, later values replacing earlier ones. -/
def ofList (l : List (κ × α)) : OrderedMap κ α :=
  l.foldl (fun m e => m.insert e.1 e.2) empty

/-- A key has a value exactly when it is one of the keys. -/
theorem contains_iff_mem_keys {m : OrderedMap κ α} {k : κ} : m.contains k ↔ k ∈ m.keys := by
  simp [contains, keys]

/-- A value that a key has is one of the values. -/
theorem mem_values_of_get? {m : OrderedMap κ α} {k : κ} {a : α} (h : m.get? k = some a) :
    a ∈ m.values := by
  obtain ⟨e, he, rfl⟩ := Option.map_eq_some_iff.1 h
  exact List.mem_map_of_mem (List.mem_of_find?_eq_some he)

/-- The value of a key is the one that it is paired with. -/
theorem get?_eq_some_iff {m : OrderedMap κ α} {k : κ} {a : α} :
    m.get? k = some a ↔ (k, a) ∈ m.entries := by
  constructor
  · intro h
    obtain ⟨⟨k', a'⟩, he, rfl⟩ := Option.map_eq_some_iff.1 h
    have hk : k' = k := by simpa using List.find?_some he
    exact hk ▸ List.mem_of_find?_eq_some he
  · intro h
    have hnodup := m.nodup
    simp only [get?]
    revert h hnodup
    generalize m.entries = l
    induction l with
    | nil => exact fun h => absurd h List.not_mem_nil
    | cons p rest ih =>
      intro h hnodup
      rw [List.map_cons, List.nodup_cons] at hnodup
      rcases List.mem_cons.1 h with rfl | h
      · simp
      · have hne : ¬ p.1 = k := by
          rintro rfl
          exact hnodup.1 (List.mem_map.2 ⟨(p.1, a), h, rfl⟩)
        simpa [hne] using ih h hnodup.2

/-- A key is one that has a value. -/
theorem mem_keys_iff {m : OrderedMap κ α} {k : κ} : k ∈ m.keys ↔ ∃ a, m.get? k = some a := by
  simp only [get?_eq_some_iff, keys, List.mem_map, Prod.exists, exists_and_right,
    exists_eq_right]

/-- A key that is there has a value. -/
theorem contains_eq_isSome (m : OrderedMap κ α) (k : κ) : m.contains k = (m.get? k).isSome := by
  rw [Bool.eq_iff_iff, contains_iff_mem_keys, mem_keys_iff, Option.isSome_iff_exists]

/-- The keys after a write. -/
theorem mem_keys_insert {m : OrderedMap κ α} {k k' : κ} {a : α} :
    k' ∈ (m.insert k a).keys ↔ k' = k ∨ k' ∈ m.keys := by
  simp only [keys, insert, keys_put]
  split
  · next h =>
    constructor
    · exact Or.inr
    · rintro (rfl | h')
      · exact h
      · exact h'
  · simp [or_comm]

/-- The values after a write: the new one at its key, the old ones elsewhere. -/
theorem get?_insert {m : OrderedMap κ α} {k k' : κ} {a : α} :
    (m.insert k a).get? k' = if k' = k then some a else m.get? k' := by
  simp only [get?, insert]
  generalize m.entries = l
  induction l with
  | nil =>
    by_cases h : k' = k
    · simp [put, h]
    · have h' : ¬ k = k' := fun e => h e.symm
      simp [put, h, h']
  | cons p rest ih =>
    obtain ⟨q, b⟩ := p
    by_cases hq : q = k
    · subst hq
      by_cases h : k' = q
      · simp [put, h]
      · have h' : ¬ q = k' := fun e => h e.symm
        simp [put, h, h']
    · by_cases h : q = k'
      · subst h
        simp [put, hq]
      · simp only [put, if_neg hq, List.find?_cons]
        simpa [h] using ih

/-- A key without a value goes to the end. -/
theorem entries_insert_of_none {m : OrderedMap κ α} {k : κ} (a : α) (h : m.get? k = none) :
    (m.insert k a).entries = m.entries ++ [(k, a)] := by
  refine put_of_not_mem fun hk => ?_
  obtain ⟨b, hb⟩ := mem_keys_iff.1 hk
  rw [h] at hb
  cases hb

/-- A changed value is that of the key, changed. -/
theorem get?_mapValues (f : κ → α → β) (m : OrderedMap κ α) (k : κ) :
    (m.mapValues f).get? k = (m.get? k).map (f k) := by
  refine Option.ext fun b => ?_
  rw [get?_eq_some_iff, Option.map_eq_some_iff]
  constructor
  · intro h
    obtain ⟨e, he, hpair⟩ := List.mem_map.1 h
    obtain ⟨rfl, rfl⟩ := Prod.ext_iff.1 hpair
    exact ⟨e.2, get?_eq_some_iff.2 he, rfl⟩
  · rintro ⟨a, ha, rfl⟩
    exact List.mem_map.2 ⟨(k, a), get?_eq_some_iff.1 ha, rfl⟩

/-- Each pair that is there after some writes was there before, or is one of those written. -/
theorem mem_of_mem_foldl_insert {ι : Type} {key : ι → κ} {value : ι → α} {l : List ι}
    {m : OrderedMap κ α} {e : κ × α}
    (h : e ∈ (l.foldl (fun m i => m.insert (key i) (value i)) m).entries) :
    e ∈ m.entries ∨ ∃ i ∈ l, e = (key i, value i) := by
  induction l generalizing m with
  | nil => exact Or.inl h
  | cons i rest ih =>
    rcases ih h with h | ⟨j, hj, rfl⟩
    · rcases mem_of_mem_put h with rfl | h
      · exact Or.inr ⟨i, List.mem_cons_self, rfl⟩
      · exact Or.inl h
    · exact Or.inr ⟨j, List.mem_cons_of_mem i hj, rfl⟩

/-- Each pair of a map is one of the pairs written into it. -/
theorem mem_of_mem_entries_ofList {l : List (κ × α)} {e : κ × α}
    (h : e ∈ (ofList l).entries) : e ∈ l := by
  rcases mem_of_mem_foldl_insert h with h | ⟨p, hp, rfl⟩
  · exact absurd h List.not_mem_nil
  · exact hp

/-- The keys are those that were written. -/
theorem mem_keys_ofList {l : List (κ × α)} {k : κ} :
    k ∈ (ofList l).keys ↔ k ∈ l.map Prod.fst := by
  have written : ∀ (l : List (κ × α)) (m : OrderedMap κ α),
      k ∈ (l.foldl (fun m e => m.insert e.1 e.2) m).keys ↔ k ∈ m.keys ∨ k ∈ l.map Prod.fst := by
    intro l
    induction l with
    | nil => simp
    | cons e rest ih =>
      intro m
      rw [List.foldl_cons, ih, mem_keys_insert, List.map_cons, List.mem_cons, or_assoc,
        or_left_comm]
  rw [ofList, written l empty]
  simp [keys, empty]

/-- Where each value is that of its key, the pairs are those of the keys that were written. -/
theorem mem_entries_ofList_map {value : κ → α} {ks : List κ} {e : κ × α} :
    e ∈ (ofList (ks.map fun k => (k, value k))).entries ↔ e.1 ∈ ks ∧ e.2 = value e.1 := by
  have pair : ∀ {e : κ × α}, e ∈ (ofList (ks.map fun k => (k, value k))).entries →
      e.1 ∈ ks ∧ e.2 = value e.1 := by
    intro e he
    obtain ⟨k, hk, rfl⟩ := List.mem_map.1 (mem_of_mem_entries_ofList he)
    exact ⟨hk, rfl⟩
  refine ⟨pair, fun ⟨hk, hvalue⟩ => ?_⟩
  have hkey : e.1 ∈ (ofList (ks.map fun k => (k, value k))).keys :=
    mem_keys_ofList.2 (List.mem_map.2 ⟨(e.1, value e.1), List.mem_map_of_mem hk, rfl⟩)
  obtain ⟨a, ha⟩ := mem_keys_iff.1 hkey
  have he := get?_eq_some_iff.1 ha
  have hsame : e.2 = a := hvalue.trans (pair he).2.symm
  rwa [← hsame] at he

/-- Where each value is that of its key, a key that was written has that value. -/
theorem get?_ofList_map (value : κ → α) (ks : List κ) (k : κ) :
    (ofList (ks.map fun k => (k, value k))).get? k = if k ∈ ks then some (value k) else none := by
  refine Option.ext fun a => ?_
  rw [get?_eq_some_iff, mem_entries_ofList_map]
  by_cases hk : k ∈ ks
  · simp [hk, eq_comm]
  · simp [hk]

/-- The values that are left by a test of keys alone. -/
theorem get?_filter (p : κ → Bool) (m : OrderedMap κ α) (k : κ) :
    (m.filter fun k _ => p k).get? k = if p k then m.get? k else none := by
  refine Option.ext fun a => ?_
  rw [get?_eq_some_iff, filter, List.mem_filter, ← get?_eq_some_iff]
  by_cases hk : p k = true
  · simp [hk]
  · simp [hk]

/-- The values after the values of another map are written, each changed by its key: the new ones
    where there are some, the old ones elsewhere. -/
theorem get?_foldl_insert (n : OrderedMap κ β) (value : κ → β → α) (m : OrderedMap κ α) (k : κ) :
    (n.entries.foldl (fun m e => m.insert e.1 (value e.1 e.2)) m).get? k =
      ((n.get? k).map (value k)).or (m.get? k) := by
  have written : ∀ (l : List (κ × β)) (m : OrderedMap κ α), (l.map Prod.fst).Nodup →
      (l.foldl (fun m e => m.insert e.1 (value e.1 e.2)) m).get? k =
        (((l.find? fun e => e.1 = k).map Prod.snd).map (value k)).or (m.get? k) := by
    intro l
    induction l with
    | nil => exact fun _ _ => rfl
    | cons e rest ih =>
      intro m h
      rw [List.map_cons, List.nodup_cons] at h
      rw [List.foldl_cons, ih _ h.2, get?_insert, List.find?_cons]
      by_cases hk : e.1 = k
      · have hrest : rest.find? (fun e => e.1 = k) = none := by
          rw [List.find?_eq_none]
          intro f hf heq
          exact h.1 (List.mem_map.2 ⟨f, hf, (of_decide_eq_true heq).trans hk.symm⟩)
        subst hk
        simp [hrest]
      · have hk' : ¬ k = e.1 := fun heq => hk heq.symm
        simp [hk, hk']
  exact written n.entries m n.nodup

/-- The values after writes of keys that were absent: the old ones where there were some. -/
theorem get?_foldl_insertIfNew (value : κ → α) (ks : List κ) (m : OrderedMap κ α) (k : κ) :
    (ks.foldl (fun m k => m.insertIfNew k (value k)) m).get? k =
      (m.get? k).or (if k ∈ ks then some (value k) else none) := by
  induction ks generalizing m with
  | nil => simp
  | cons j rest ih =>
    rw [List.foldl_cons, ih, insertIfNew, contains_eq_isSome]
    cases hj : m.get? j with
    | some a =>
      by_cases hk : k = j
      · subst hk
        simp [hj]
      · simp [hk]
    | none =>
      rw [Option.isSome_none, if_neg Bool.false_ne_true, get?_insert]
      by_cases hk : k = j
      · subst hk
        simp [hj]
      · simp [hk]

/-- Written in turn, pairs with distinct keys are all kept. -/
theorem entries_ofList {l : List (κ × α)} (h : (l.map Prod.fst).Nodup) :
    (ofList l).entries = l := by
  have written : ∀ (l : List (κ × α)) (m : OrderedMap κ α),
      ((m.entries ++ l).map Prod.fst).Nodup →
        (l.foldl (fun m e => m.insert e.1 e.2) m).entries = m.entries ++ l := by
    intro l
    induction l with
    | nil => exact fun m _ => (List.append_nil m.entries).symm
    | cons e rest ih =>
      intro m hm
      have hnew : (m.insert e.1 e.2).entries = m.entries ++ [e] := by
        refine put_of_not_mem fun he => ?_
        rw [List.map_append, List.map_cons, List.nodup_append] at hm
        exact hm.2.2 e.1 he e.1 List.mem_cons_self rfl
      rw [List.foldl_cons, ih, hnew, List.append_assoc, List.singleton_append]
      rwa [hnew, List.append_assoc, List.singleton_append]
  exact written l empty h

/-- Values filed under distinct keys are all kept. -/
theorem entries_ofList_map {ι : Type} {l : List ι} {key : ι → κ} {value : ι → α}
    (h : (l.map key).Nodup) :
    (ofList (l.map fun i => (key i, value i))).entries = l.map fun i => (key i, value i) := by
  refine entries_ofList ?_
  rw [List.map_map]
  exact h

/-- Keys in order, with one more at the end unless it is among them. -/
def noting (seen : List κ) (k : κ) : List κ := if k ∈ seen then seen else seen ++ [k]

/-- The keys of a map are those that were written, in the order in which they first were. -/
theorem keys_ofList (l : List (κ × α)) : (ofList l).keys = (l.map Prod.fst).foldl noting [] := by
  have written : ∀ (l : List (κ × α)) (m : OrderedMap κ α),
      (l.foldl (fun m e => m.insert e.1 e.2) m).keys = (l.map Prod.fst).foldl noting m.keys := by
    intro l
    induction l with
    | nil => exact fun _ => rfl
    | cons e rest ih =>
      intro m
      have hkeys : (m.insert e.1 e.2).keys = noting m.keys e.1 := keys_put e.1 e.2 m.entries
      rw [List.foldl_cons, ih, hkeys, List.map_cons, List.foldl_cons]
  exact written l empty

/-- Keys that pass a test are in the same order whether the others are noted or not. -/
theorem foldl_noting_filter (p : κ → Bool) (ks seen : List κ) :
    (ks.filter p).foldl noting (seen.filter p) = (ks.foldl noting seen).filter p := by
  induction ks generalizing seen with
  | nil => rfl
  | cons k rest ih =>
    rw [List.foldl_cons, ← ih]
    unfold noting
    by_cases hp : p k = true
    · rw [List.filter_cons_of_pos hp, List.foldl_cons]
      by_cases hk : k ∈ seen
      · rw [if_pos hk, if_pos (List.mem_filter.2 ⟨hk, hp⟩)]
      · rw [if_neg hk, if_neg fun hkey => hk (List.mem_filter.1 hkey).1, List.filter_append,
          List.filter_cons_of_pos hp, List.filter_nil]
    · rw [List.filter_cons_of_neg hp]
      split
      · rfl
      · rw [List.filter_append, List.filter_cons_of_neg hp, List.filter_nil, List.append_nil]

end OrderedMap

end PackageAlgebra
