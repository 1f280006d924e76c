import PackageAlgebra.Proofs.Context.Entries
import PackageAlgebra.Query.Token
import Mathlib.Data.List.Induction
import Mathlib.Data.Set.Insert

/-!
# Keys that Begin with Other Keys

Which keys a list of entries keeps apart.

A context function `a=b=1(...)` sets the key `a=b`, since its name is split at its last equals
sign, and so is an entry that is read back. A search for a key does not split anything. It takes
the first entry that begins with the key and an equals sign, and the entry `a=b=1` begins with
the key `a` as much as with `a=b`. One entry then answers for both keys, and setting the one
takes the other away.

That is the only thing that can go wrong. A setting is read back as it was made, whatever the
list, and it writes one entry. What any other key shows is left alone unless one of the two keys
goes on, after the other, with an equals sign. A family of keys without such a pair is kept
apart over every sequence of settings, and a family with one is not, not even over a single
setting of an empty list.

A single setting is followed through the list entry by entry. A sequence of them is taken from
its end, where the last setting decides alone.

## Main definitions

* `EntryList.GoesOn`: A key goes on, after another one, with an equals sign.
* `EntryList.writeAll`: A list after a sequence of settings.
* `EntryList.lastValue?`: The value of the last setting of a key.
* `EntryList.KeepsApart`: Each key of a family keeps the value of its own last setting.

## Theorems

* `sets_entryOf_iff_goesOn`: Which keys an entry sets.
* `valueOf_write_self`, `valueOf_write_other`: What one setting changes.
* `valueOf_writeAll`: What a sequence of settings changes.
* `keepsApart_of_plain`: Keys without an equals sign.
* `keepsApart_iff`: Which keys are kept apart.
-/

namespace PackageAlgebra

open Text

namespace EntryList

/-- A key goes on, after another one and ignoring case, with an equals sign. -/
def GoesOn (key other : String) : Prop := sets other key = true

instance (key other : String) : Decidable (GoesOn key other) :=
  inferInstanceAs (Decidable (sets other key = true))

/-- A list after a sequence of settings, the first of them first. -/
def writeAll (l : EntryList) (settings : List (String × String)) : EntryList :=
  settings.foldl (fun l setting => l.write setting.1 setting.2) l

/-- The value of the last setting of a key, ignoring case. -/
def lastValue? (settings : List (String × String)) (key : String) : Option String :=
  (settings.reverse.find? fun setting => lower setting.1 = lower key).map Prod.snd

/-- Over every sequence of settings of keys of a family, each key of the family keeps the value
    of its own last setting, or the one that it had before. -/
def KeepsApart (keys : Set String) : Prop :=
  ∀ (l : EntryList) (settings : List (String × String)),
    (∀ setting ∈ settings, setting.1 ∈ keys ∧ '=' ∉ setting.2.toList) → ∀ key ∈ keys,
      (l.writeAll settings).valueOf key = (lastValue? settings key).getD (l.valueOf key)

variable {l : EntryList} {key other value entry : String}

/-! ### Which keys an entry sets -/

theorem sets_iff_begins :
    sets key entry = true ↔ (lower key).toList ++ ['='] <+: (lower entry).toList := by
  have hsign : "=".toList = ['='] := rfl
  unfold sets beginsWith
  rw [String.toList_append, hsign, List.isPrefixOf_iff_prefix]

/-- An entry sets its own key, ignoring case, and those after which its key goes on. -/
theorem sets_entryOf_iff_goesOn (hvalue : '=' ∉ value.toList) :
    sets key (entryOf (other, value)) = true ↔ lower key = lower other ∨ GoesOn other key := by
  have hlower : '=' ∉ (lower value).toList := by
    rwa [lower, String.toList_ofList, equals_mem_lowerChars_iff]
  have hentry := toList_entryOf (lower other, lower value)
  unfold entryOf at hentry
  unfold GoesOn entryOf
  rw [sets_iff_begins, sets_iff_begins, lower_entry, hentry, prefix_append_iff hlower,
    String.toList_inj]

/-- Of two keys that one entry sets, one goes on after the other, or they differ by case only. -/
theorem goesOn_of_sets (hkey : sets key entry = true) (hother : sets other entry = true) :
    lower key = lower other ∨ GoesOn key other ∨ GoesOn other key := by
  unfold GoesOn
  rw [sets_iff_begins] at hkey hother ⊢
  rw [sets_iff_begins]
  have hends : ∀ {cs ds : List Char}, cs ++ ['='] <+: ds ++ ['='] →
      cs = ds ∨ cs ++ ['='] <+: ds := by
    intro cs ds h
    rwa [List.prefix_concat_iff, List.append_cancel_right_eq] at h
  rcases List.prefix_or_prefix_of_prefix hkey hother with h | h
  · rcases hends h with heq | hprefix
    · exact .inl (String.toList_inj.1 heq)
    · exact .inr (.inr hprefix)
  · rcases hends h with heq | hprefix
    · exact .inl (String.toList_inj.1 heq.symm)
    · exact .inr (.inl hprefix)

/-- Keys of which one goes on after the other do not differ by case only. -/
theorem GoesOn.lower_ne (h : GoesOn key other) : lower key ≠ lower other := by
  intro heq
  have hlength := (sets_iff_begins.1 h).length_le
  rw [heq, List.length_append, List.length_singleton] at hlength
  omega

/-- A key without an equals sign goes on after no other key. -/
theorem not_goesOn_of_plain (h : '=' ∉ key.toList) : ¬ GoesOn key other := by
  intro hkey
  have hmem : '=' ∈ (lower key).toList :=
    (sets_iff_begins.1 hkey).subset (List.mem_append_right _ List.mem_cons_self)
  rw [lower, String.toList_ofList, equals_mem_lowerChars_iff] at hmem
  exact h hmem

/-! ### One setting -/

theorem write_nil : write [] key value = [entryOf (key, value)] := rfl

theorem write_cons : write (entry :: l) key value =
    if sets key entry = true then entryOf (key, value) :: l else entry :: write l key value := by
  unfold write indexOf?
  rw [List.findIdx?_cons]
  by_cases hentry : sets key entry = true
  · rw [if_pos hentry, if_pos hentry]
    rfl
  · rw [if_neg hentry, if_neg hentry]
    cases List.findIdx? (sets key) l with
    | none => rfl
    | some i => rfl

/-- A setting writes one entry, in its place or at the end. -/
theorem write_one_entry (l : EntryList) (key value : String) :
    ∃ i ≤ l.length, (l.write key value)[i]? = some (entryOf (key, value)) ∧
      ∀ j, j ≠ i → (l.write key value)[j]? = l[j]? := by
  induction l with
  | nil =>
      refine ⟨0, Nat.le_refl 0, rfl, fun j hj => ?_⟩
      rw [write_nil, List.getElem?_singleton, if_neg hj, List.getElem?_nil]
  | cons entry rest ih =>
      rw [write_cons]
      by_cases hentry : sets key entry = true
      · rw [if_pos hentry]
        refine ⟨0, Nat.zero_le _, rfl, fun j hj => ?_⟩
        cases j with
        | zero => exact absurd rfl hj
        | succ j => rfl
      · rw [if_neg hentry]
        rcases ih with ⟨i, hi, hset, hkept⟩
        refine ⟨i + 1, Nat.succ_le_succ hi, hset, fun j hj => ?_⟩
        cases j with
        | zero => rfl
        | succ j => exact hkept j (by omega)

/-- A setting is read back as it was made. -/
theorem valueOf_write_self (hvalue : '=' ∉ value.toList) :
    (l.write key value).valueOf key = value := by
  have hself : sets key (entryOf (key, value)) = true :=
    (sets_entryOf_iff_goesOn hvalue).2 (.inl rfl)
  have hfind : (l.write key value).find? (sets key) = some (entryOf (key, value)) := by
    induction l with
    | nil => rw [write_nil, List.find?_cons, hself]
    | cons entry rest ih =>
        rw [write_cons]
        by_cases hentry : sets key entry = true
        · rw [if_pos hentry, List.find?_cons, hself]
        · rw [if_neg hentry, List.find?_cons, Bool.eq_false_iff.2 hentry]
          exact ih
  have hsides : splitEntry (entryOf (key, value)) = (key, value) := splitEntry_entryOf hvalue
  unfold valueOf
  rw [hfind]
  simp only [hsides]

/-- A setting leaves what another key shows, unless one of the two keys goes on after the
    other. -/
theorem valueOf_write_other (hvalue : '=' ∉ value.toList) (hne : lower key ≠ lower other)
    (hkey : ¬ GoesOn key other) (hother : ¬ GoesOn other key) :
    (l.write key value).valueOf other = l.valueOf other := by
  have hnew : sets other (entryOf (key, value)) = false := by
    rw [Bool.eq_false_iff, Ne, sets_entryOf_iff_goesOn hvalue, not_or]
    exact ⟨fun heq => hne heq.symm, hkey⟩
  -- The entry that is replaced does not show the other key either.
  have hold : ∀ {entry}, sets key entry = true → sets other entry = false := by
    intro entry hentry
    rw [Bool.eq_false_iff]
    intro hboth
    rcases goesOn_of_sets hentry hboth with heq | h | h
    · exact hne heq
    · exact hkey h
    · exact hother h
  have hfind : (l.write key value).find? (sets other) = l.find? (sets other) := by
    induction l with
    | nil => rw [write_nil, List.find?_cons, hnew]
    | cons entry rest ih =>
        rw [write_cons, List.find?_cons]
        by_cases hentry : sets key entry = true
        · rw [if_pos hentry, List.find?_cons, hnew, hold hentry]
        · rw [if_neg hentry, List.find?_cons, ih]
  unfold valueOf
  rw [hfind]

/-! ### A sequence of settings -/

variable {settings : List (String × String)}

theorem lastValue?_append_singleton (settings : List (String × String)) (setting : String × String)
    (key : String) : lastValue? (settings ++ [setting]) key =
      if lower setting.1 = lower key then some setting.2 else lastValue? settings key := by
  unfold lastValue?
  rw [List.reverse_append, List.reverse_singleton, List.singleton_append, List.find?_cons]
  by_cases hkey : lower setting.1 = lower key
  · rw [decide_eq_true hkey, if_pos hkey]
    rfl
  · rw [decide_eq_false hkey, if_neg hkey]

/-- Whether an entry sets a key does not depend on the case of the key. -/
theorem valueOf_congr (h : lower key = lower other) : l.valueOf key = l.valueOf other := by
  have hsets : sets key = sets other := by
    funext entry
    unfold sets
    rw [h]
  unfold valueOf
  rw [hsets]

/-- After a sequence of settings a key shows the value of its own last setting, or the one that
    it had before, unless it goes on after a key that was set or the other way round. -/
theorem valueOf_writeAll (hvalues : ∀ setting ∈ settings, '=' ∉ setting.2.toList)
    (hkeys : ∀ setting ∈ settings, ¬ GoesOn setting.1 key ∧ ¬ GoesOn key setting.1) :
    (l.writeAll settings).valueOf key = (lastValue? settings key).getD (l.valueOf key) := by
  induction settings using List.reverseRecOn with
  | nil => rfl
  | append_singleton earlier setting ih =>
      rw [List.forall_mem_append, List.forall_mem_singleton] at hvalues hkeys
      have hwrite : l.writeAll (earlier ++ [setting]) =
          (l.writeAll earlier).write setting.1 setting.2 := by
        unfold writeAll
        rw [List.foldl_append, List.foldl_cons, List.foldl_nil]
      rw [hwrite, lastValue?_append_singleton]
      by_cases hkey : lower setting.1 = lower key
      · rw [if_pos hkey, ← valueOf_congr hkey, valueOf_write_self hvalues.2, Option.getD_some]
      · rw [if_neg hkey, valueOf_write_other hvalues.2 hkey hkeys.2.1 hkeys.2.2]
        exact ih hvalues.1 hkeys.1

/-- A single setting of an empty list shows under another key, if the key that is set goes on
    after that one. -/
theorem KeepsApart.not_goesOn {keys : Set String} (h : KeepsApart keys) (hkey : key ∈ keys)
    (hother : other ∈ keys) : ¬ GoesOn key other := by
  intro hgoes
  have hplain : '=' ∉ "1".toList := by decide
  have hsets : sets other (entryOf (key, "1")) = true :=
    (sets_entryOf_iff_goesOn hplain).2 (.inr hgoes)
  have hsides : splitEntry (entryOf (key, "1")) = (key, "1") := splitEntry_entryOf hplain
  have hshown : valueOf [entryOf (key, "1")] other = "1" := by
    unfold valueOf
    rw [List.find?_cons, hsets]
    simp only [hsides]
  have hlast : lastValue? [(key, "1")] other = none := by
    have hstep := lastValue?_append_singleton [] (key, "1") other
    rw [if_neg hgoes.lower_ne] at hstep
    exact hstep
  have hkept := h [] [(key, "1")] (List.forall_mem_singleton.2 ⟨hkey, hplain⟩) other hother
  rw [hlast] at hkept
  have hbefore : (none : Option String).getD (valueOf [] other) = "" := rfl
  exact absurd (hshown.symm.trans (hkept.trans hbefore)) (by decide)

/-- A family of keys of which none goes on after another one is kept apart. -/
theorem keepsApart_of_not_goesOn {keys : Set String}
    (h : ∀ key ∈ keys, ∀ other ∈ keys, ¬ GoesOn key other) : KeepsApart keys := by
  intro l settings hsettings key hkey
  refine valueOf_writeAll (fun setting hmem => (hsettings setting hmem).2) fun setting hmem => ?_
  have hset := (hsettings setting hmem).1
  exact ⟨h setting.1 hset key hkey, h key hkey setting.1 hset⟩

/-- Keys without an equals sign are kept apart, as most tags and environment keys are. -/
theorem keepsApart_of_plain {keys : Set String} (h : ∀ key ∈ keys, '=' ∉ key.toList) :
    KeepsApart keys :=
  keepsApart_of_not_goesOn fun key hkey _ _ => not_goesOn_of_plain (h key hkey)

/-- A family of keys is kept apart if no key of it goes on after another one, and only then.
    Whatever the keys, a setting is read back as it was made and writes one entry. -/
theorem keepsApart_iff (keys : Set String) :
    (KeepsApart keys ↔ ∀ key ∈ keys, ∀ other ∈ keys, ¬ GoesOn key other) ∧
      ∀ (l : EntryList) (key value : String), '=' ∉ value.toList →
        (l.write key value).valueOf key = value ∧
          ∃ i ≤ l.length, (l.write key value)[i]? = some (entryOf (key, value)) ∧
            ∀ j, j ≠ i → (l.write key value)[j]? = l[j]? := by
  constructor
  · exact ⟨fun h key hkey other hother => h.not_goesOn hkey hother, keepsApart_of_not_goesOn⟩
  · intro l key value hvalue
    exact ⟨valueOf_write_self hvalue, write_one_entry l key value⟩

/-- The tags of a build, and a tag that a function `a=b=1(...)` sets beside another one. -/
theorem keepsApart_iff_tags :
    ('=' ∉ "1".toList ∧ ∀ key ∈ ({"test", "typing", "a=b", "b"} : Set String),
        ∀ other ∈ ({"test", "typing", "a=b", "b"} : Set String), ¬ GoesOn key other) ∧
      KeepsApart {"test", "typing", "a=b", "b"} ∧
      (write ["a=b=0"] "a=b" "1").valueOf "a=b" = "1" := by
  have hapart : ∀ key ∈ ({"test", "typing", "a=b", "b"} : Set String),
      ∀ other ∈ ({"test", "typing", "a=b", "b"} : Set String), ¬ GoesOn key other := by
    simp only [Set.mem_insert_iff, Set.mem_singleton_iff, forall_eq_or_imp, forall_eq]
    decide
  have hplain : '=' ∉ "1".toList := by decide
  exact ⟨⟨hplain, hapart⟩, (keepsApart_iff _).1.2 hapart,
    ((keepsApart_iff ∅).2 ["a=b=0"] "a=b" "1" hplain).1⟩

/-- Two context functions of one query whose keys are not kept apart: the outer one is read back
    under the key of the inner one, and the inner one takes the outer one away. -/
theorem write_loses_setting :
    Token.scan "a=b=1(a=2(x))" = .ok [⟨.func, "a=b=1"⟩, ⟨.leftParen, "("⟩, ⟨.func, "a=2"⟩,
        ⟨.leftParen, "("⟩, ⟨.package, "x"⟩, ⟨.rightParen, ")"⟩, ⟨.rightParen, ")"⟩] ∧
      splitEntry "a=b=1" = ("a=b", "1") ∧ splitEntry "a=2" = ("a", "2") ∧
      lower "a=b" ≠ lower "a" ∧
      valueOf [] "a" = "" ∧ (write [] "a=b" "1").valueOf "a" = "1" ∧
      (write [] "a=b" "1").valueOf "a=b" = "1" ∧
      (write (write [] "a=b" "1") "a" "2").valueOf "a=b" = "" := by
  refine ⟨by decide +kernel, by decide, by decide, by decide, by decide, by decide, by decide, ?_⟩
  decide

end EntryList

end PackageAlgebra
