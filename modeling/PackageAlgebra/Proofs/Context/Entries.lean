import PackageAlgebra.Context.Entries
import PackageAlgebra.OrderedMap
import PackageAlgebra.Proofs.Text.Case
import PackageAlgebra.Proofs.Text.Cuts
import PackageAlgebra.Query.Expr
import Mathlib.Data.List.Find

/-!
# Entries as a Map

A list of entries is a map from keys in lower case.

A list of entries is searched by the heads of its entries in lower case, and an entry that was
found is split at its last equals sign. As long as neither keys nor values have an equals sign,
both ways of reading an entry agree, and the list holds no more and no less than an ordered
map from keys in lower case to the key as it was last spelled, with its value. Writing into
the list is writing into the map.

## Main definitions

* `entryOf`: The entry of a key and a value.
* `EntryList.Shows`: A list has the entries of a map.

## Theorems

* `splitEntry_entryOf`: An entry is split into its sides.
* `entryOf_splitEntry`: What sets something is put together from its sides.
* `EntryList.sets_entryOf_iff`: An entry sets the keys that differ from its own by case only.
* `EntryList.Shows.write`: Writing into a list is writing into the map.
* `EntryList.Shows.valueOf_eq`: Values are looked up in the map.
-/

namespace PackageAlgebra

open Text

/-- The entry of a key and a value. -/
def entryOf (setting : String × String) : String := setting.1 ++ "=" ++ setting.2

variable {key value : String} {cs ds : List Char}

theorem toList_entryOf (setting : String × String) :
    (entryOf setting).toList = setting.1.toList ++ '=' :: setting.2.toList := by
  have hsign : "=".toList = ['='] := rfl
  unfold entryOf
  rw [String.toList_append, String.toList_append, hsign, List.append_assoc, List.singleton_append]

/-! ### Splitting entries -/

/-- An entry is split into its sides. -/
theorem splitEntry_entryOf {setting : String × String} (h : '=' ∉ setting.2.toList) :
    splitEntry (entryOf setting) = setting := by
  have hcut : cutLast '=' (entryOf setting).toList = some (setting.1.toList, setting.2.toList) := by
    rw [toList_entryOf, cutLast_append h]
  unfold splitEntry
  rw [hcut]
  simp only [String.ofList_toList]

/-- What sets something is put together from its sides, the second of which has no equals
    sign. -/
theorem entryOf_splitEntry {func : String} (h : Expr.isSetting func = true) :
    entryOf (splitEntry func) = func ∧ '=' ∉ (splitEntry func).2.toList := by
  rcases cutLast_cases '=' func.toList with ⟨hnone, -⟩ | ⟨before, after, hcut, hfunc, hnot⟩
  · exact absurd (List.contains_iff_mem.1 h) hnone
  · have hsplit : splitEntry func = (String.ofList before, String.ofList after) := by
      unfold splitEntry
      rw [hcut]
    rw [hsplit, ← String.toList_inj, toList_entryOf, String.toList_ofList, String.toList_ofList,
      hfunc]
    exact ⟨rfl, hnot⟩

/-! ### Looking for a key -/

namespace EntryList

/-- An entry sets the keys that differ from its own by case only. -/
theorem sets_entryOf_iff {setting : String × String} (hkey : '=' ∉ key.toList)
    (hsetting : '=' ∉ setting.1.toList) :
    sets key (entryOf setting) = true ↔ lower setting.1 = lower key := by
  have hlower : ∀ {s : String}, '=' ∉ s.toList → '=' ∉ (lower s).toList := by
    intro s hs hmem
    rw [lower, String.toList_ofList, equals_mem_lowerChars_iff] at hmem
    exact hs hmem
  have hsign : "=".toList = ['='] := rfl
  have hentry := toList_entryOf (lower setting.1, lower setting.2)
  unfold entryOf at hentry
  unfold sets beginsWith entryOf
  rw [lower_entry, hentry, String.toList_append, hsign,
    isPrefixOf_append_iff (hlower hkey) (hlower hsetting), String.toList_inj]
  exact eq_comm

/-- A list has the entries of a map from keys in lower case to keys with their values. -/
structure Shows (l : EntryList) (m : OrderedMap String (String × String)) : Prop where
  -- The entries are those of the map, in order.
  eq_map : l = m.values.map entryOf
  -- The map is filed under keys in lower case.
  filed : ∀ e ∈ m.entries, e.1 = lower e.2.1
  -- There are no equals signs beside those of the entries.
  plain : ∀ e ∈ m.entries, '=' ∉ e.2.1.toList ∧ '=' ∉ e.2.2.toList

theorem shows_nil : Shows [] .empty :=
  ⟨rfl, fun _ he => absurd he List.not_mem_nil, fun _ he => absurd he List.not_mem_nil⟩

/-- Entries are written as pairs are put. -/
theorem write_map_entryOf {pairs : List (String × (String × String))}
    (hfiled : ∀ e ∈ pairs, e.1 = lower e.2.1) (hplain : ∀ e ∈ pairs, '=' ∉ e.2.1.toList)
    (hkey : '=' ∉ key.toList) :
    write (pairs.map fun e => entryOf e.2) key value =
      (put (lower key) (key, value) pairs).map fun e => entryOf e.2 := by
  induction pairs with
  | nil => rfl
  | cons e rest ih =>
      have hrest := ih (fun e he => hfiled e (List.mem_cons_of_mem _ he))
        fun e he => hplain e (List.mem_cons_of_mem _ he)
      have hsets := sets_entryOf_iff hkey (hplain e List.mem_cons_self)
      rw [← hfiled e List.mem_cons_self] at hsets
      unfold write indexOf? at hrest ⊢
      rw [List.map_cons, List.findIdx?_cons]
      by_cases hhead : e.1 = lower key
      · rw [if_pos (hsets.2 hhead), put, if_pos hhead]
        rfl
      · rw [if_neg fun h => hhead (hsets.1 h), put, if_neg hhead, List.map_cons, ← hrest]
        cases List.findIdx? (sets key) (rest.map fun e => entryOf e.2) with
        | none => rfl
        | some i => rfl

variable {l : EntryList} {m : OrderedMap String (String × String)}

/-- Writing into a list is writing into the map. -/
theorem Shows.write (h : l.Shows m) (hkey : '=' ∉ key.toList) (hvalue : '=' ∉ value.toList) :
    (l.write key value).Shows (m.insert (lower key) (key, value)) where
  eq_map := by
    have hl : l = m.entries.map fun e => entryOf e.2 := by
      rw [h.eq_map, OrderedMap.values, List.map_map]
      rfl
    rw [hl, write_map_entryOf h.filed (fun e he => (h.plain e he).1) hkey, OrderedMap.values,
      List.map_map]
    rfl
  filed e he := by
    rcases mem_of_mem_put he with rfl | he
    · rfl
    · exact h.filed e he
  plain e he := by
    rcases mem_of_mem_put he with rfl | he
    · exact ⟨hkey, hvalue⟩
    · exact h.plain e he

/-- The entries of a list are those of the map. -/
theorem Shows.mem_iff (h : l.Shows m) {entry : String} :
    entry ∈ l ↔ ∃ setting, m.get? (lower setting.1) = some setting ∧ entry = entryOf setting := by
  rw [h.eq_map, OrderedMap.values, List.map_map, List.mem_map]
  constructor
  · rintro ⟨e, he, rfl⟩
    refine ⟨e.2, ?_, rfl⟩
    rw [← h.filed e he]
    exact OrderedMap.get?_eq_some_iff.2 he
  · rintro ⟨setting, hget, rfl⟩
    exact ⟨_, OrderedMap.get?_eq_some_iff.1 hget, rfl⟩

/-- Values are looked up in the map. -/
theorem Shows.valueOf_eq (h : l.Shows m) (hkey : '=' ∉ key.toList) :
    l.valueOf key = ((m.get? (lower key)).map Prod.snd).getD "" := by
  have hfind : l.find? (sets key) = (m.get? (lower key)).map entryOf := by
    have hmatch : ∀ e ∈ m.entries, sets key (entryOf e.2) = decide (e.1 = lower key) := by
      intro e he
      rw [Bool.eq_iff_iff, sets_entryOf_iff hkey (h.plain e he).1, decide_eq_true_eq, h.filed e he]
    rw [h.eq_map, OrderedMap.values, OrderedMap.get?, List.map_map, List.find?_map,
      Option.map_map]
    refine congrArg _ (List.find?_congr fun e he => ?_)
    rw [Function.comp_apply, Function.comp_apply]
    exact hmatch e he
  unfold valueOf
  rw [hfind]
  cases hget : m.get? (lower key) with
  | none => rfl
  | some setting =>
      have hplain := h.plain _ (OrderedMap.get?_eq_some_iff.1 hget)
      simp only [Option.map_some, Option.getD_some, splitEntry_entryOf hplain.2]

end EntryList

end PackageAlgebra
