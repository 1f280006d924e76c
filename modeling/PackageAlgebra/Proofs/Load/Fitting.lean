import Mathlib.Data.List.DropRight
import PackageAlgebra.Proofs.Load.History
import PackageAlgebra.Proofs.Load.TestNames
import PackageAlgebra.Proofs.Text.Cuts

/-!
# What Names Fit

Which packages a list of names finds, and in which order.

A name has one of three forms. One name is reserved for the standard library. A wildcard ends in
three points; what is before them is a path, of which slashes and points at the end do not count,
and the packages at the path or below it fit, if wildcards stand for them at all. Any other name is
an id: the package of its own fits, and with tests those that are named like tests and go on after
the id, but only where there is a package of its own.

Names are looked up one after the other, and what one of them finds is left out if one before has
found it. So the answer is a list of packages without repetitions, in the order in which they are
found first. The names are gone through to the end even if some of them find nothing; there is no
answer then but a list of just these names. That is why an answer to two lists of names can be put
together from the answers to each of them.

## Main definitions

* `TrimsTo`: A path without the slashes and points at its end.
* `AtOrBelow`, `GoesOnAsTest`: How ids go on after a path, and after an id.
* `Resolution.Fits`: A package fits a name.
* `Resolution.listing`: The packages that fit a name, in the order in which they are found.
* `Resolution.missing`: The names of a list that nothing fits.

## Theorems

* `matchPattern_append_iff`, `isTestOf_iff`: What matches a wildcard, and what is a test of an id.
* `Resolution.mem_listing_iff`: A name finds the packages that fit it.
* `Resolution.resolve_eq`: Names find packages once, in the order of the first finds.
* `resolveIn_finds_fitting`: Answers, errors, and lists of names put together.
-/

namespace PackageAlgebra

variable {ρ : Type} {r : Resolution ρ} {name path base id x : String} {p q : Node ρ}

/-! ### Texts -/

/-- What goes on after a text is another text. -/
theorem append_ne_self {text more : String} (h : more ≠ "") : text ++ more ≠ text := by
  intro heq
  have hlength := congrArg String.length heq
  rw [String.length_append, Nat.add_eq_left, String.length_eq_zero_iff] at hlength
  exact h hlength

theorem toList_wildcardBase (text : String) :
    (wildcardBase text).toList = text.toList.rdropWhile fun c => c = '/' || c = '.' := by
  unfold wildcardBase
  rw [String.toList_ofList]
  rfl

/-- What is left of a text without the slashes and points at its end. -/
structure TrimsTo (text path : String) : Prop where
  -- Only slashes and points are left out.
  ending : ∃ ending : List Char, text.toList = path.toList ++ ending ∧
    ∀ c ∈ ending, c = '/' ∨ c = '.'
  -- No more of them can be left out.
  last : ∀ c ∈ path.toList.getLast?, c ≠ '/' ∧ c ≠ '.'

/-- What is left of a text is cut off behind the last character that is to stay. -/
theorem trimsTo_iff {text : String} : TrimsTo text path ↔ path = wildcardBase text := by
  let isEnd : Char → Bool := fun c => c = '/' || c = '.'
  have hend : ∀ c, isEnd c = true ↔ c = '/' ∨ c = '.' := by
    intro c
    simp only [isEnd, Bool.or_eq_true, decide_eq_true_eq]
  constructor
  · rintro ⟨⟨ending, htext, hending⟩, hlast⟩
    -- All of the ending is dropped, and nothing of the path.
    have hpath : path.toList.rdropWhile isEnd = path.toList := by
      refine List.rdropWhile_eq_self_iff.2 fun hne hdropped => ?_
      have hstays := hlast _ (List.getLast?_eq_getLast_of_ne_nil hne)
      exact ((hend _).1 hdropped).elim hstays.1 hstays.2
    have hdropped : (path.toList ++ ending).rdropWhile isEnd = path.toList := by
      unfold List.rdropWhile at hpath ⊢
      rw [List.reverse_append, List.dropWhile_append_of_pos, hpath]
      exact fun c hc => (hend c).2 (hending c (List.mem_reverse.1 hc))
    rw [← String.toList_inj, toList_wildcardBase, htext, hdropped]
  · rintro rfl
    constructor
    · refine ⟨text.toList.rtakeWhile isEnd, ?_, fun c hc => (hend c).1 (List.mem_rtakeWhile_imp hc)⟩
      rw [toList_wildcardBase, List.rdropWhile_append_rtakeWhile]
    · intro c hc
      rw [toList_wildcardBase] at hc
      rcases List.mem_getLast?_eq_getLast hc with ⟨hne, rfl⟩
      rw [← not_or, ← hend]
      exact List.rdropWhile_last_not _ _ hne

/-- The points at the end of a wildcard do not belong to its path. -/
theorem wildcardBase_append_everything (text : String) :
    wildcardBase (text ++ everything) = wildcardBase text := by
  have hbase : TrimsTo text (wildcardBase text) := trimsTo_iff.2 rfl
  have hpoints : everything.toList = List.replicate 3 '.' := by decide
  rcases hbase.ending with ⟨ending, htext, hending⟩
  refine (trimsTo_iff.1 ⟨⟨ending ++ everything.toList, ?_, fun c hc => ?_⟩, hbase.last⟩).symm
  · rw [String.toList_append, htext, List.append_assoc]
  · rcases List.mem_append.1 hc with hc | hc
    · exact hending c hc
    · rw [hpoints] at hc
      exact .inr (List.eq_of_mem_replicate hc)

/-! ### Ids -/

/-- A wildcard is a text with three points after it. -/
theorem isWildcard_iff : isWildcard name = true ↔ ∃ path, name = path ++ everything :=
  Text.endsWith_iff

/-- An id is a path, or goes on after it with a slash or a point. -/
def AtOrBelow (path id : String) : Prop :=
  id = path ∨ ∃ rest, id = path ++ "/" ++ rest ∨ id = path ++ "." ++ rest

/-- What matches a wildcard is at its path or below it, and is anything if there is no path. -/
theorem matchPattern_append_iff :
    matchPattern (path ++ everything) id = true ↔
      ∀ base, TrimsTo path base → base = "" ∨ AtOrBelow base id := by
  unfold matchPattern AtOrBelow
  rw [if_pos (isWildcard_iff.2 ⟨path, rfl⟩), wildcardBase_append_everything]
  simp only [trimsTo_iff, forall_eq, Bool.or_eq_true, decide_eq_true_eq,
    Text.beginsWith_iff, exists_or, or_assoc]

/-- An id is named like a test, and goes on after another one: with the ending of tests, or with a
    point, a slash, or a blank and a bracket. -/
def GoesOnAsTest (owner id : String) : Prop :=
  isTestPackage id = true ∧ (id = owner ++ "_test" ∨
    ∃ rest, id = owner ++ "." ++ rest ∨ id = owner ++ "/" ++ rest ∨ id = owner ++ " [" ++ rest)

theorem isTestOf_iff : isTestOf name id = true ↔ GoesOnAsTest name id := by
  -- What goes on after an id is another id.
  have hne : (id = name ++ "_test" ∨ ∃ rest, id = name ++ "." ++ rest ∨ id = name ++ "/" ++ rest ∨
      id = name ++ " [" ++ rest) → id ≠ name := by
    have hmore : ∀ {mark rest : String}, mark ≠ "" → name ++ mark ++ rest ≠ name := by
      intro mark rest hmark
      rw [String.append_assoc]
      refine append_ne_self fun hempty => hmark ?_
      exact (String.append_eq_empty_iff.1 hempty).1
    rintro (rfl | ⟨rest, rfl | rfl | rfl⟩)
    · exact append_ne_self (by decide)
    · exact hmore (by decide)
    · exact hmore (by decide)
    · exact hmore (by decide)
  unfold isTestOf GoesOnAsTest
  simp only [Bool.and_eq_true, Bool.or_eq_true, decide_eq_true_eq,
    Text.beginsWith_iff, ← exists_or, or_assoc, and_assoc, and_iff_right_iff_imp]
  exact fun h => hne h.2

/-! ### Names -/

/-- A name is an id, and not one of the names that stand for many packages. -/
def IsIdName (name : String) : Prop := name ≠ stdPattern ∧ ∀ path, name ≠ path ++ everything

theorem isIdName_iff : IsIdName name ↔ name ≠ stdPattern ∧ ¬ isWildcard name = true := by
  unfold IsIdName
  rw [isWildcard_iff, not_exists]

namespace Resolution

/-- A package fits a name. -/
inductive Fits (r : Resolution ρ) (name : String) (p : Node ρ) : Prop
  -- The packages of the standard library fit the name of the library.
  | standard (hname : name = stdPattern) (hstd : p.std = true)
  -- What is at a path or below it fits a wildcard, and anything if nothing is left of the path.
  | below (path base : String) (hname : name = path ++ everything) (hbase : TrimsTo path base)
      (hwild : r.inWildcards p = true) (hid : base = "" ∨ AtOrBelow base p.id)
  -- A package fits its id.
  | own (hname : IsIdName name) (hid : p.id = name)
  -- With tests, those of a package fit the id of the package.
  | test (hname : IsIdName name) (howner : name ∈ r.candidates.keys) (htests : r.withTests = true)
      (hid : GoesOnAsTest name p.id)

/-- A name stands for the ids of the packages that fit it, if these are filed under their ids. -/
theorem standsFor_iff_fits (hids : ∀ id p, r.candidates.get? id = some p → p.id = id) :
    r.StandsFor name x ↔ ∃ p, r.candidates.get? x = some p ∧ r.Fits name p := by
  have hstd : ¬ isWildcard stdPattern = true := by decide
  rw [standsFor_iff]
  constructor
  · intro h
    split at h
    · next hname =>
        rcases h with ⟨p, hp, hp'⟩
        exact ⟨p, hp, .standard hname hp'⟩
    · next hname =>
        split at h
        · next hwild =>
            rcases h with ⟨p, hp, hinside, hmatch⟩
            rcases isWildcard_iff.1 hwild with ⟨path, rfl⟩
            have hbase : TrimsTo path (wildcardBase path) := trimsTo_iff.2 rfl
            have hid := matchPattern_append_iff.1 hmatch _ hbase
            rw [← hids x p hp] at hid
            exact ⟨p, hp, .below path _ rfl hbase hinside hid⟩
        · next hwild =>
            have hidName := isIdName_iff.2 ⟨hname, hwild⟩
            rcases h with ⟨howner, rfl | ⟨htests, hx, htest⟩⟩
            · rcases OrderedMap.mem_keys_iff.1 howner with ⟨p, hp⟩
              exact ⟨p, hp, .own hidName (hids x p hp)⟩
            · rcases OrderedMap.mem_keys_iff.1 hx with ⟨p, hp⟩
              rw [isTestOf_iff, ← hids x p hp] at htest
              exact ⟨p, hp, .test hidName howner htests htest⟩
  · rintro ⟨p, hp, hfits⟩
    have hx : x ∈ r.candidates.keys := OrderedMap.mem_keys_iff.2 ⟨p, hp⟩
    rw [← hids x p hp] at hx ⊢
    have hp' : r.candidates.get? p.id = some p := hids x p hp ▸ hp
    cases hfits with
    | standard hname hpstd =>
        rw [if_pos hname]
        exact ⟨p, hp', hpstd⟩
    | below path base hname hbase hwild hid =>
        have hwildcard := isWildcard_iff.2 ⟨path, hname⟩
        have hnot : name ≠ stdPattern := by
          rintro rfl
          exact hstd hwildcard
        rw [if_neg hnot, if_pos hwildcard]
        refine ⟨p, hp', hwild, ?_⟩
        rw [hname]
        refine matchPattern_append_iff.2 fun other hother => ?_
        rwa [trimsTo_iff.1 hother, ← trimsTo_iff.1 hbase]
    | own hname hid =>
        rw [isIdName_iff] at hname
        rw [if_neg hname.1, if_neg hname.2]
        exact ⟨hid ▸ hx, .inl hid⟩
    | test hname howner htests hid =>
        rw [isIdName_iff] at hname
        rw [if_neg hname.1, if_neg hname.2]
        exact ⟨howner, .inr ⟨htests, hx, isTestOf_iff.2 hid⟩⟩

/-- The packages that fit a name, in the order in which they are found: those of the universe in its
    order, but that of an id before its tests. -/
def listing (r : Resolution ρ) (name : String) : List (Node ρ) :=
  if name = stdPattern then r.candidates.values.filter fun p => p.std
  else if isWildcard name then
    r.candidates.values.filter fun p => r.inWildcards p && matchPattern name p.id
  else match r.candidates.get? name with
    | some p =>
      p :: if r.withTests then r.candidates.values.filter fun q => isTestOf name q.id else []
    | none => []

/-- The names of a list that nothing fits. The name of the standard library is none of them. -/
def missing (r : Resolution ρ) (names : List String) : List String :=
  names.filter fun name => name ≠ stdPattern ∧ (r.listing name).isEmpty

/-- Where packages are filed under their ids, tests of ids and tests of packages leave the same. -/
theorem map_id_filter_values {nodes : OrderedMap String (Node ρ)}
    (hids : ∀ id p, nodes.get? id = some p → p.id = id) (keep : String → Node ρ → Bool) :
    (nodes.values.filter fun p => keep p.id p).map Node.id =
      (nodes.entries.filter fun e => keep e.1 e.2).map Prod.fst := by
  have hentry : ∀ e ∈ nodes.entries, e.2.id = e.1 :=
    fun e he => hids e.1 e.2 (OrderedMap.get?_eq_some_iff.2 he)
  unfold OrderedMap.values
  rw [List.filter_map, List.map_map]
  have hkept : nodes.entries.filter ((fun p => keep p.id p) ∘ Prod.snd) =
      nodes.entries.filter fun e => keep e.1 e.2 := by
    refine List.filter_congr fun e he => ?_
    rw [Function.comp_apply, hentry e he]
  rw [hkept]
  exact List.map_congr_left fun e he => hentry e (List.mem_filter.1 he).1

/-- A name stands for what it finds, and for nothing if it finds nothing. -/
theorem matchesOf_eq (hids : ∀ id p, r.candidates.get? id = some p → p.id = id) (name : String) :
    r.matchesOf name =
      if name ≠ stdPattern ∧ (r.listing name).isEmpty = true then none
      else some ((r.listing name).map Node.id) := by
  -- What is listed has the ids that are found.
  have hempty : ∀ {nodes : List (Node ρ)} {ids : List String}, nodes.map Node.id = ids →
      (if ids.isEmpty = true then none else some ids) =
        if nodes.isEmpty = true then none else some (nodes.map Node.id) := by
    rintro nodes ids rfl
    rw [List.isEmpty_map]
  unfold matchesOf listing
  by_cases hstd : name = stdPattern
  · simp only [hstd, if_true, ne_eq, not_true, false_and, if_false, Option.some.injEq]
    exact (map_id_filter_values hids fun _ p => p.std).symm
  simp only [hstd, if_false, ne_eq, not_false_eq_true, true_and]
  by_cases hwild : isWildcard name = true
  · simp only [hwild, if_true]
    exact hempty (map_id_filter_values hids fun id p => r.inWildcards p && matchPattern name id)
  · simp only [hwild, Bool.false_eq_true, if_false]
    refine hempty ?_
    cases hown : r.candidates.get? name with
    | none =>
        rw [OrderedMap.contains_eq_isSome, hown]
        rfl
    | some p =>
        have htests := map_id_filter_values hids fun id _ => isTestOf name id
        rw [OrderedMap.contains_eq_isSome, hown, Option.isSome_some, if_pos rfl, List.map_cons,
          hids name p hown]
        refine congrArg (name :: ·) ?_
        split
        · rw [htests, OrderedMap.keys, List.filter_map]
          rfl
        · rfl

theorem get?_of_mem_values (hids : ∀ id p, r.candidates.get? id = some p → p.id = id)
    (hp : p ∈ r.candidates.values) : r.candidates.get? p.id = some p := by
  rcases List.mem_map.1 hp with ⟨e, he, rfl⟩
  have hentry := OrderedMap.get?_eq_some_iff.2 he
  rwa [← hids e.1 e.2 hentry] at hentry

/-- What is listed are packages of the universe. -/
theorem mem_values_of_mem_listing (h : p ∈ r.listing name) : p ∈ r.candidates.values := by
  unfold listing at h
  split at h
  · exact (List.mem_filter.1 h).1
  · split at h
    · exact (List.mem_filter.1 h).1
    · split at h
      · next own hown =>
          rcases List.mem_cons.1 h with rfl | h
          · exact OrderedMap.mem_values_of_get? hown
          · rw [List.mem_ite_nil_right] at h
            exact (List.mem_filter.1 h.2).1
      · exact absurd h List.not_mem_nil

/-- A name finds the packages of the universe that fit it. -/
theorem mem_listing_iff (hids : ∀ id p, r.candidates.get? id = some p → p.id = id) :
    p ∈ r.listing name ↔ p ∈ r.candidates.values ∧ r.Fits name p := by
  -- The name stands for the ids of what is listed.
  have hstands : ∀ x, r.StandsFor name x ↔ x ∈ (r.listing name).map Node.id := by
    intro x
    unfold StandsFor
    rw [matchesOf_eq hids]
    split
    · next hnone =>
        rw [List.isEmpty_iff.1 hnone.2]
        exact iff_of_false (fun ⟨_, h, _⟩ => by cases h) List.not_mem_nil
    · simp only [Option.some.injEq, exists_eq_left']
  constructor
  · intro hp
    have hvalue := mem_values_of_mem_listing hp
    have hid := (hstands p.id).2 (List.mem_map_of_mem hp)
    rcases (standsFor_iff_fits hids).1 hid with ⟨q, hq, hfits⟩
    rw [get?_of_mem_values hids hvalue, Option.some.injEq] at hq
    exact ⟨hvalue, hq ▸ hfits⟩
  · rintro ⟨hvalue, hfits⟩
    have hget := get?_of_mem_values hids hvalue
    have hid := (hstands p.id).1 ((standsFor_iff_fits hids).2 ⟨p, hget, hfits⟩)
    rcases List.mem_map.1 hid with ⟨q, hq, hsame⟩
    have hget' := get?_of_mem_values hids (mem_values_of_mem_listing hq)
    rw [hsame, hget, Option.some.injEq] at hget'
    rwa [hget']

/-- The names that find nothing are those that no package of the universe fits. -/
theorem mem_missing_iff (hids : ∀ id p, r.candidates.get? id = some p → p.id = id)
    {names : List String} : name ∈ r.missing names ↔
      name ∈ names ∧ name ≠ stdPattern ∧ ∀ p ∈ r.candidates.values, ¬ r.Fits name p := by
  unfold missing
  rw [List.mem_filter, decide_eq_true_eq, List.isEmpty_iff, List.eq_nil_iff_forall_not_mem]
  simp only [mem_listing_iff hids, not_and]

/-- An id finds nothing if there is no package of its own. -/
theorem mem_missing_iff_of_isIdName (hname : IsIdName name) {names : List String} :
    name ∈ r.missing names ↔ name ∈ names ∧ name ∉ r.candidates.keys := by
  rw [isIdName_iff] at hname
  unfold missing listing
  rw [List.mem_filter, decide_eq_true_eq, if_neg hname.1, if_neg hname.2, OrderedMap.mem_keys_iff,
    and_iff_right hname.1]
  refine and_congr_right fun _ => ?_
  cases r.candidates.get? name with
  | some p => exact iff_of_false nofun fun hnone => hnone ⟨p, rfl⟩
  | none => exact iff_of_true rfl fun ⟨_, hsome⟩ => nomatch hsome

/-- What finds nothing although there is a package of its own is a wildcard. -/
theorem isWildcard_of_mem_missing {names : List String} (h : name ∈ r.missing names)
    (hkey : name ∈ r.candidates.keys) : ∃ path, name = path ++ everything := by
  have hnot : ¬ IsIdName name := fun hname => ((mem_missing_iff_of_isIdName hname).1 h).2 hkey
  have hstd : name ≠ stdPattern := by
    unfold missing at h
    exact (of_decide_eq_true (List.mem_filter.1 h).2).1
  unfold IsIdName at hnot
  simpa only [ne_eq, hstd, not_false_eq_true, true_and, not_forall, not_not] using hnot

/-! ### Lists of names -/

/-- Texts that are noted one by one, each unless it has been noted, are noted once and in the order
    in which they first come up. -/
theorem foldl_distinct_eq (seen ids : List String) :
    ids.foldl (fun seen x => if seen.contains x then seen else seen ++ [x]) seen =
      seen ++ (ids.filter fun x => x ∉ seen).eraseDups := by
  induction ids generalizing seen with
  | nil => exact (List.append_nil seen).symm
  | cons y rest ih =>
      rw [List.foldl_cons, ih, List.filter_cons]
      by_cases hy : y ∈ seen
      · rw [if_pos (List.contains_iff_mem.2 hy), if_neg (by simp only [hy, not_true, decide_false,
          Bool.false_eq_true, not_false_eq_true])]
      · rw [if_neg fun h => hy (List.contains_iff_mem.1 h), if_pos (decide_eq_true hy),
          List.eraseDups_cons, List.filter_filter, List.append_assoc, List.singleton_append]
        congr 3
        refine List.filter_congr fun x _ => ?_
        rw [Bool.eq_iff_iff, decide_eq_true_eq, List.mem_append, List.mem_singleton, not_or,
          Bool.and_eq_true, Bool.not_eq_true', beq_eq_false_iff_ne, decide_eq_true_eq, and_comm]

/-- Names find the packages that fit them, each once and in the order in which they are found first;
    or there is an error for the names that find nothing, if there are any. -/
theorem resolve_eq (hids : ∀ id p, r.candidates.get? id = some p → p.id = id)
    (names : List String) :
    r.resolve names =
      if r.missing names = [] then
        .ok (((names.flatMap r.listing).map Node.id).eraseDups.filterMap r.candidates.get?)
      else .error (r.missing names) := by
  have hfailures : r.failures names = r.missing names := by
    refine List.filter_congr fun name _ => ?_
    rw [matchesOf_eq hids, Bool.eq_iff_iff, decide_eq_true_eq]
    split
    · next h => exact iff_of_true rfl h
    · next h => exact iff_of_false Bool.false_ne_true h
  have hfound : (names.flatMap fun name => (r.matchesOf name).getD []) =
      (names.flatMap r.listing).map Node.id := by
    rw [List.map_flatMap]
    congr 1
    funext name
    rw [matchesOf_eq hids]
    split
    · next h => rw [List.isEmpty_iff.1 h.2]; rfl
    · rfl
  unfold resolve
  rw [hfailures, hfound, foldl_distinct_eq]
  simp only [List.isEmpty_iff, List.nil_append, List.not_mem_nil, not_false_eq_true, decide_true,
    List.filter_true]

/-- Nothing is missing if each of the names stands for something, or is that of the standard
    library. -/
theorem missing_eq_nil_iff (hids : ∀ id p, r.candidates.get? id = some p → p.id = id)
    {names : List String} : r.missing names = [] ↔
      ∀ name ∈ names, name = stdPattern ∨ ∃ x, r.StandsFor name x := by
  have hresolve : (∃ roots, r.resolve names = .ok roots) ↔ r.missing names = [] := by
    rw [resolve_eq hids]
    split
    · next h => exact iff_of_true ⟨_, rfl⟩ h
    · next h =>
        refine iff_of_false ?_ h
        rintro ⟨roots, hroots⟩
        cases hroots
  rw [← hresolve, resolve_eq_ok_iff]
  simp only [isSome_matchesOf_iff]

theorem missing_append (first second : List String) :
    r.missing (first ++ second) = r.missing first ++ r.missing second := List.filter_append ..

end Resolution

/-! ### Answers -/

variable {nodes : OrderedMap String (Node ρ)} {inWildcards : Node ρ → Bool} {config : LoadConfig}

/-- If some of the names find nothing, they are the error. -/
theorem resolveIn_of_missing (hids : ∀ id p, nodes.get? id = some p → p.id = id)
    {names : List String}
    (h : (Resolution.mk nodes inWildcards config.tests).missing names ≠ []) :
    resolveIn nodes inWildcards config names =
      .error (.noMatch ((Resolution.mk nodes inWildcards config.tests).missing names)) := by
  unfold resolveIn
  rw [Resolution.resolve_eq hids, if_neg h]

/-- Otherwise there is an answer of the packages that fit one of the names, each once and in the
    order in which the names find them. -/
theorem resolveIn_of_missing_eq_nil (hids : ∀ id p, nodes.get? id = some p → p.id = id)
    {names : List String}
    (h : (Resolution.mk nodes inWildcards config.tests).missing names = []) :
    ∃ roots, resolveIn nodes inWildcards config names = .ok roots ∧
      (∀ p, p ∈ roots ↔
        ∃ name ∈ names, p ∈ (Resolution.mk nodes inWildcards config.tests).listing name) ∧
      roots.map Node.id =
        ((names.flatMap (Resolution.mk nodes inWildcards config.tests).listing).map
          Node.id).eraseDups := by
  let r := Resolution.mk nodes inWildcards config.tests
  -- What is listed is what is filed under its id.
  have hfiled : ∀ {name p}, p ∈ r.listing name → nodes.get? p.id = some p :=
    fun hp => r.get?_of_mem_values hids (r.mem_values_of_mem_listing hp)
  unfold resolveIn
  rw [Resolution.resolve_eq hids, if_pos h]
  refine ⟨_, rfl, fun p => ?_, ?_⟩
  · simp only [List.mem_filterMap, List.mem_eraseDups, List.mem_map, List.mem_flatMap]
    constructor
    · rintro ⟨x, ⟨q, ⟨name, hname, hq⟩, rfl⟩, hp⟩
      rw [hfiled hq, Option.some.injEq] at hp
      exact ⟨name, hname, hp ▸ hq⟩
    · rintro ⟨name, hname, hp⟩
      exact ⟨p.id, ⟨p, ⟨name, hname, hp⟩, rfl⟩, hfiled hp⟩
  · rw [List.map_filterMap]
    refine (List.filterMap_congr fun x hx => ?_).trans List.filterMap_some
    rw [List.mem_eraseDups, List.mem_map] at hx
    rcases hx with ⟨p, hp, rfl⟩
    rcases List.mem_flatMap.1 hp with ⟨name, -, hlisted⟩
    rw [hfiled hlisted, Option.map_some]

/-- There is an error if and only if there are names that find nothing. -/
theorem resolveIn_eq_error_iff (hids : ∀ id p, nodes.get? id = some p → p.id = id)
    {names : List String} : (∃ e, resolveIn nodes inWildcards config names = .error e) ↔
      (Resolution.mk nodes inWildcards config.tests).missing names ≠ [] := by
  constructor
  · rintro ⟨e, he⟩ hnone
    rcases resolveIn_of_missing_eq_nil hids hnone with ⟨roots, hroots, -⟩
    cases hroots.symm.trans he
  · exact fun hsome => ⟨_, resolveIn_of_missing hids hsome⟩

/-- A name finds the packages of the universe that fit it. If some names find nothing, the error
    consists of these names as they are in the list, that of the standard library apart. Otherwise
    there is an answer of all packages that fit one of the names, each once and in the order in
    which the names find them first. Two lists of names one after the other have an answer if and
    only if each of them has one, and it consists of the packages of both answers. -/
theorem resolveIn_finds_fitting (hids : ∀ id p, nodes.get? id = some p → p.id = id)
    (inWildcards : Node ρ → Bool) (config : LoadConfig) :
    let r := Resolution.mk nodes inWildcards config.tests
    let answer := resolveIn nodes inWildcards config
    let unmatched name := name ≠ stdPattern ∧ ∀ p ∈ nodes.values, ¬ r.Fits name p
    (∀ name p, p ∈ r.listing name ↔ p ∈ nodes.values ∧ r.Fits name p) ∧
    (∀ names, (∀ name, name ∈ r.missing names ↔ name ∈ names ∧ unmatched name) ∧
      ((∃ e, answer names = .error e) ↔ ∃ name ∈ names, unmatched name) ∧
      (∀ e, answer names = .error e → e = .noMatch (r.missing names)) ∧
      ∀ roots, answer names = .ok roots →
        (∀ p, p ∈ roots ↔ p ∈ nodes.values ∧ ∃ name ∈ names, r.Fits name p) ∧
        (roots.map Node.id).Nodup ∧
        roots.map Node.id = ((names.flatMap r.listing).map Node.id).eraseDups) ∧
    ∀ first second,
      ((∃ e, answer (first ++ second) = .error e) ↔
        (∃ e, answer first = .error e) ∨ ∃ e, answer second = .error e) ∧
      (∀ left right, answer first = .ok left → answer second = .ok right →
        ∃ roots, answer (first ++ second) = .ok roots ∧ ∀ p, p ∈ roots ↔ p ∈ left ∨ p ∈ right) := by
  intro r answer unmatched
  have hlisting : ∀ name p, p ∈ r.listing name ↔ p ∈ nodes.values ∧ r.Fits name p :=
    fun _ _ => r.mem_listing_iff hids
  have hmissing : ∀ names name, name ∈ r.missing names ↔ name ∈ names ∧ unmatched name :=
    fun _ _ => r.mem_missing_iff hids
  -- An answer is there only if no name is missing.
  have hfound : ∀ {names roots}, answer names = .ok roots → r.missing names = [] := by
    intro names roots hroots
    by_contra hsome
    rcases (resolveIn_eq_error_iff hids).2 hsome with ⟨e, he⟩
    cases hroots.symm.trans he
  have hmem : ∀ {names roots}, answer names = .ok roots →
      ∀ p, p ∈ roots ↔ ∃ name ∈ names, p ∈ r.listing name := by
    intro names roots hroots
    rcases resolveIn_of_missing_eq_nil hids (hfound hroots) with ⟨roots', hroots', hp, -⟩
    cases hroots.symm.trans hroots'
    exact hp
  refine ⟨hlisting, fun names => ⟨hmissing names, ?_, ?_, fun roots hroots => ⟨fun p => ?_, ?_⟩⟩,
    fun first second => ⟨?_, ?_⟩⟩
  · rw [resolveIn_eq_error_iff hids, ne_eq, List.eq_nil_iff_forall_not_mem, not_forall_not]
    exact exists_congr fun name => hmissing names name
  · intro e he
    have hsome := (resolveIn_eq_error_iff hids).1 ⟨e, he⟩
    exact Except.error.inj (he.symm.trans (resolveIn_of_missing hids hsome))
  · rw [hmem hroots]
    simp only [hlisting]
    grind
  · rcases resolveIn_of_missing_eq_nil hids (hfound hroots) with ⟨roots', hroots', -, horder⟩
    cases hroots.symm.trans hroots'
    exact ⟨horder ▸ nodup_eraseDups _, horder⟩
  · rw [resolveIn_eq_error_iff hids, resolveIn_eq_error_iff hids, resolveIn_eq_error_iff hids,
      Resolution.missing_append, ne_eq, List.append_eq_nil_iff, not_and_or]
  · intro left right hleft hright
    have hnone : r.missing (first ++ second) = [] := by
      rw [Resolution.missing_append, hfound hleft, hfound hright, List.append_nil]
    rcases resolveIn_of_missing_eq_nil hids hnone with ⟨roots, hroots, -⟩
    refine ⟨roots, hroots, fun p => ?_⟩
    rw [hmem hroots, hmem hleft, hmem hright]
    simp only [List.mem_append, or_and_right, exists_or]

/-- A package with one below it and a test, beside one whose name only begins like it and one of the
    standard library. -/
def webRecords : List PackageRecord :=
  [{ id := "webs" }, { id := "web_test" }, { id := "os", std := true }, { id := "web/api" },
    { id := "web" }]

/-- The package comes with its test and before it, what lies below it comes in the end, and a name
    that finds nothing is reported as often as it is written. -/
theorem resolveIn_finds_fitting_web :
    let config : LoadConfig := { tests := true }
    let answer := resolveIn (Universe.ofRecords webRecords config.variant) (fun p => !p.std) config
    (∃ roots, answer ["web", "std", "web/..."] = .ok roots ∧
      roots.map Node.id = ["web", "web_test", "os", "web/api"]) ∧
    answer ["lost", "web", "std", "lost"] = .error (.noMatch ["lost", "lost"]) := by
  intro config answer
  have hids : ∀ id p, (Universe.ofRecords webRecords config.variant).get? id = some p → p.id = id :=
    fun _ _ h => Universe.id_of_get?_ofRecords h
  rcases resolveIn_finds_fitting hids (fun p => !p.std) config with ⟨-, hnames, -⟩
  constructor
  · rcases hnames ["web", "std", "web/..."] with ⟨hmissing, herror, -, hroots⟩
    cases hanswer : answer ["web", "std", "web/..."] with
    | error e =>
        rcases herror.1 ⟨e, hanswer⟩ with ⟨name, hunmatched⟩
        have hmem := (hmissing name).2 hunmatched
        exact absurd hmem (List.eq_nil_iff_forall_not_mem.1 (by decide +kernel) name)
    | ok roots =>
        refine ⟨roots, rfl, (hroots roots hanswer).2.2.trans ?_⟩
        decide +kernel
  · rcases hnames ["lost", "web", "std", "lost"] with ⟨hmissing, herror, hreported, -⟩
    have hlost := (hmissing "lost").1 (by decide +kernel)
    rcases herror.2 ⟨"lost", hlost⟩ with ⟨e, he⟩
    refine he.trans (congrArg Except.error ((hreported e he).trans ?_))
    decide +kernel

end PackageAlgebra
