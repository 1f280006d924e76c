import PackageAlgebra.Context.Basic
import PackageAlgebra.Proofs.Context.Entries
import Mathlib.Data.List.Nodup

/-!
# Scopes

What the context functions around a part of a query add up to.

Each context function sets one key for what it encloses. A load inside several of them is
told a configuration in which, for each key, the innermost setting has won. Keys that differ
by case only are one key: a variable of the environment is known by its name in upper case, a
tag by its name in lower case.

The configuration is what the settings leave behind in two lists of entries. Both lists show
maps, and a map answers for a key with the last value that was written, so what wins is read
off the maps. `Context.Holds` ties the lists, the maps and the scope together; one setting
more keeps it, and with it any number of them.

## Main definitions

* `Scope`: The settings around a part of a query, the innermost first.
* `SettingKey`: What a key stands for, whatever its case.
* `Scope.winner?`: The setting of a key that has won.
* `Context.within`: A context inside a scope.
* `LoadConfig.Reflects`: A configuration is what a scope asks for.

## Theorems

* `Context.Holds.assign`: One setting more.
* `Context.reflects_config_within`: The configuration inside a scope is what it asks for.
-/

namespace PackageAlgebra

open Text

/-- The settings around a part of a query, the innermost first: keys with their values. -/
abbrev Scope := List (String × String)

/-- What a key stands for, whatever its case. -/
inductive SettingKey
  -- A variable of the environment, in upper case.
  | variable (name : String)
  -- A tag, in lower case.
  | tag (name : String)
  deriving DecidableEq

/-- What a key stands for. -/
def SettingKey.ofKey (key : String) : SettingKey :=
  if upper key ∈ defaultEnvKeys then .variable (upper key) else .tag (lower key)

/-- The setting of a key that has won: the innermost one. -/
def Scope.winner? (scope : Scope) (k : SettingKey) : Option (String × String) :=
  scope.find? fun setting => decide (SettingKey.ofKey setting.1 = k)

/-- Neither keys nor values have an equals sign. -/
def Scope.Plain (scope : Scope) : Prop :=
  ∀ setting ∈ scope, '=' ∉ setting.1.toList ∧ '=' ∉ setting.2.toList

/-- A context inside a scope. -/
def Context.within (ctx : Context) (scope : Scope) : Context :=
  scope.foldr (fun setting inner => inner.assign setting.1 setting.2) ctx

/-- A configuration is what a scope asks for. -/
structure LoadConfig.Reflects (config : LoadConfig) (scope : Scope) : Prop where
  -- Tests are on if the setting of their tag that has won says so.
  tests_iff : config.tests = true ↔
    ∃ key, scope.winner? (.tag Context.testTag) = some (key, "1")
  -- The other tags are on by the same rule, as they were spelled in that setting.
  mem_tags_iff : ∀ {key}, key ∈ config.tags ↔
    lower key ≠ Context.testTag ∧ scope.winner? (.tag (lower key)) = some (key, "1")
  -- No tag is on twice, whatever its case.
  nodup_tags : (config.tags.map lower).Nodup
  -- Each variable that is set has the value that has won.
  mem_env_iff : ∀ {entry}, entry ∈ config.env ↔
    ∃ name key value, scope.winner? (.variable name) = some (key, value) ∧
      entry = name ++ "=" ++ value
  -- No variable is set twice.
  nodup_env : (config.env.map fun entry => (splitEntry entry).1).Nodup

/-! ### Keys -/

theorem map_upper_defaultEnvKeys : defaultEnvKeys.map upper = defaultEnvKeys := by decide

/-- The names of variables have no equals sign. -/
theorem equals_not_mem_envKey : ∀ name ∈ defaultEnvKeys, '=' ∉ name.toList := by decide

/-- The names of variables do not differ by case only. -/
theorem envKey_eq_of_lower_eq :
    ∀ name ∈ defaultEnvKeys, ∀ name' ∈ defaultEnvKeys, lower name = lower name' → name = name' := by
  decide

variable {scope : Scope} {key value name : String}

theorem Scope.winner?_cons (k : SettingKey) :
    Scope.winner? ((key, value) :: scope) k =
      if SettingKey.ofKey key = k then some (key, value) else scope.winner? k := by
  unfold Scope.winner?
  rw [List.find?_cons]
  by_cases hk : SettingKey.ofKey key = k
  · rw [if_pos hk, decide_eq_true hk]
  · rw [if_neg hk, decide_eq_false hk]

/-- Only variables of the environment are set as such. -/
theorem Scope.mem_of_winner?_variable {setting : String × String}
    (h : scope.winner? (.variable name) = some setting) : name ∈ defaultEnvKeys := by
  have hfound := List.find?_some h
  have hkey : SettingKey.ofKey setting.1 = .variable name := of_decide_eq_true hfound
  unfold SettingKey.ofKey at hkey
  by_cases hmem : upper setting.1 ∈ defaultEnvKeys
  · rw [if_pos hmem, SettingKey.variable.injEq] at hkey
    exact hkey ▸ hmem
  · rw [if_neg hmem] at hkey
    exact absurd hkey (by simp only [reduceCtorEq, not_false_eq_true])

namespace Context

/-- Settings do not tell whether loads are cancelled. -/
theorem cancelled_within (ctx : Context) (scope : Scope) :
    (ctx.within scope).cancelled = ctx.cancelled := by
  induction scope with
  | nil => rfl
  | cons setting rest ih =>
      rw [← ih]
      change ((ctx.within rest).assign setting.1 setting.2).cancelled = _
      unfold assign
      split <;> rfl

/-! ### What a context holds inside a scope -/

/-- The entries of a context are the settings of a scope that have won. -/
structure Holds (ctx : Context) (scope : Scope) (env tags : OrderedMap String (String × String)) :
    Prop where
  -- The environment has the usual variables.
  envKeys : ctx.envKeys = defaultEnvKeys
  -- Its entries show one map.
  env_shows : ctx.env.Shows env
  -- The tags show the other one.
  tags_show : ctx.tags.Shows tags
  -- Only variables of the environment are in the first map.
  env_names : ∀ e ∈ env.entries, e.2.1 ∈ defaultEnvKeys
  -- The first map has the values of variables that have won.
  get?_env : ∀ name ∈ defaultEnvKeys, env.get? (lower name) =
    (scope.winner? (.variable name)).map fun setting => (name, setting.2)
  -- The second map has the settings of tags that have won.
  get?_tags : ∀ k, tags.get? k = scope.winner? (.tag k)

variable {ctx : Context} {env tags : OrderedMap String (String × String)}

theorem holds_make (cancelled : Nat → Bool) :
    (make [] [] defaultEnvKeys cancelled).Holds [] .empty .empty where
  envKeys := map_upper_defaultEnvKeys
  env_shows := EntryList.shows_nil
  tags_show := EntryList.shows_nil
  env_names _ he := absurd he List.not_mem_nil
  get?_env _ _ := rfl
  get?_tags _ := rfl

/-- One setting more. -/
theorem Holds.assign (h : ctx.Holds scope env tags) (hkey : '=' ∉ key.toList)
    (hvalue : '=' ∉ value.toList) :
    ∃ env' tags', (ctx.assign key value).Holds ((key, value) :: scope) env' tags' := by
  unfold Context.assign
  by_cases hvariable : upper key ∈ defaultEnvKeys
  · have hkind : SettingKey.ofKey key = .variable (upper key) := by
      rw [SettingKey.ofKey, if_pos hvariable]
    have hname := equals_not_mem_envKey _ hvariable
    have hset : ctx.envKeys.contains (upper key) = true := by
      rw [h.envKeys, List.contains_iff_mem]
      exact hvariable
    rw [if_pos hset]
    refine ⟨env.insert (lower (upper key)) (upper key, value), tags, h.envKeys,
      h.env_shows.write hname hvalue, h.tags_show, ?_, ?_, ?_⟩
    · intro e he
      rcases mem_of_mem_put he with rfl | he
      · exact hvariable
      · exact h.env_names e he
    · intro name hmem
      simp only [OrderedMap.get?_insert, Scope.winner?_cons, hkind, SettingKey.variable.injEq]
      by_cases heq : upper key = name
      · rw [if_pos (heq ▸ rfl), if_pos heq, heq]
        rfl
      · have hne : ¬ lower name = lower (upper key) := fun hcase =>
          heq (envKey_eq_of_lower_eq _ hvariable _ hmem hcase.symm)
        rw [if_neg hne, if_neg heq]
        exact h.get?_env name hmem
    · intro k
      rw [Scope.winner?_cons, hkind, if_neg (by simp only [reduceCtorEq, not_false_eq_true])]
      exact h.get?_tags k
  · have hkind : SettingKey.ofKey key = .tag (lower key) := by
      rw [SettingKey.ofKey, if_neg hvariable]
    have hset : ¬ ctx.envKeys.contains (upper key) = true := by
      rw [h.envKeys, List.contains_iff_mem]
      exact hvariable
    rw [if_neg hset]
    refine ⟨env, tags.insert (lower key) (key, value), h.envKeys, h.env_shows,
      h.tags_show.write hkey hvalue, h.env_names, ?_, ?_⟩
    · intro name hmem
      rw [Scope.winner?_cons, hkind, if_neg (by simp only [reduceCtorEq, not_false_eq_true])]
      exact h.get?_env name hmem
    · intro k
      simp only [OrderedMap.get?_insert, Scope.winner?_cons, hkind, SettingKey.tag.injEq,
        h.get?_tags k, eq_comm]

/-- Any number of settings more. -/
theorem exists_holds_within (cancelled : Nat → Bool) (hscope : scope.Plain) :
    ∃ env tags, ((make [] [] defaultEnvKeys cancelled).within scope).Holds scope env tags := by
  induction scope with
  | nil => exact ⟨_, _, holds_make cancelled⟩
  | cons setting rest ih =>
      rcases ih fun s hs => hscope s (List.mem_cons_of_mem setting hs) with ⟨env, tags, hholds⟩
      have hplain := hscope setting List.mem_cons_self
      exact hholds.assign hplain.1 hplain.2

/-! ### Configurations -/

/-- The tag that an entry turns on. -/
theorem activeTag_entryOf {setting : String × String} (h : '=' ∉ setting.2.toList) :
    activeTag (entryOf setting) =
      if lower setting.1 ≠ testTag ∧ setting.2 = "1" then some setting.1 else none := by
  unfold activeTag
  simp only [splitEntry_entryOf h]

/-- Tags that are on are filed under different keys. -/
theorem sublist_map_lower_activeTags {pairs : List (String × (String × String))}
    (hfiled : ∀ e ∈ pairs, e.1 = lower e.2.1) (hplain : ∀ e ∈ pairs, '=' ∉ e.2.2.toList) :
    (((pairs.map fun e => entryOf e.2).filterMap activeTag).map lower).Sublist
      (pairs.map Prod.fst) := by
  induction pairs with
  | nil => exact List.nil_sublist _
  | cons e rest ih =>
      have hrest := ih (fun e he => hfiled e (List.mem_cons_of_mem _ he))
        fun e he => hplain e (List.mem_cons_of_mem _ he)
      have htag := activeTag_entryOf (hplain e List.mem_cons_self)
      rw [List.map_cons, List.map_cons]
      by_cases hon : lower e.2.1 ≠ testTag ∧ e.2.2 = "1"
      · rw [if_pos hon] at htag
        rw [List.filterMap_cons_some htag, List.map_cons, ← hfiled e List.mem_cons_self]
        exact hrest.cons_cons e.1
      · rw [if_neg hon] at htag
        rw [List.filterMap_cons_none htag]
        exact hrest.cons e.1

theorem map_entryOf_values (m : OrderedMap String (String × String)) :
    m.values.map entryOf = m.entries.map fun e => entryOf e.2 := by
  unfold OrderedMap.values
  rw [List.map_map]
  rfl

/-- What a context holds is what its configuration shows. -/
theorem Holds.reflects (h : ctx.Holds scope env tags) : ctx.config.Reflects scope where
  tests_iff := by
    have htag : lower testTag = testTag := by decide
    have hplain : '=' ∉ testTag.toList := by decide
    have hvalue := h.tags_show.valueOf_eq hplain
    rw [htag, h.get?_tags] at hvalue
    unfold config
    rw [decide_eq_true_eq, hvalue]
    cases hwinner : scope.winner? (.tag testTag) with
    | none => simp only [Option.map_none, Option.getD_none, reduceCtorEq, exists_false]; decide
    | some setting =>
        rw [Option.map_some, Option.getD_some]
        constructor
        · exact fun hone => ⟨setting.1, by rw [← hone]⟩
        · rintro ⟨key, hkey⟩
          rw [Option.some.inj hkey]
  mem_tags_iff {key} := by
    change key ∈ ctx.tags.filterMap activeTag ↔ _
    rw [List.mem_filterMap]
    constructor
    · rintro ⟨entry, hentry, htag⟩
      rcases h.tags_show.mem_iff.1 hentry with ⟨setting, hget, rfl⟩
      have hplain := h.tags_show.plain _ (OrderedMap.get?_eq_some_iff.1 hget)
      rw [activeTag_entryOf hplain.2] at htag
      by_cases hon : lower setting.1 ≠ testTag ∧ setting.2 = "1"
      · rw [if_pos hon, Option.some.injEq] at htag
        rw [h.get?_tags] at hget
        rw [← htag, ← hon.2]
        exact ⟨hon.1, hget⟩
      · rw [if_neg hon] at htag
        exact absurd htag (by simp only [reduceCtorEq, not_false_eq_true])
    · rintro ⟨htest, hwinner⟩
      rw [← h.get?_tags] at hwinner
      have hplain := h.tags_show.plain _ (OrderedMap.get?_eq_some_iff.1 hwinner)
      refine ⟨entryOf (key, "1"), h.tags_show.mem_iff.2 ⟨(key, "1"), hwinner, rfl⟩, ?_⟩
      rw [activeTag_entryOf hplain.2, if_pos ⟨htest, rfl⟩]
  nodup_tags := by
    change ((ctx.tags.filterMap activeTag).map lower).Nodup
    rw [h.tags_show.eq_map, map_entryOf_values]
    exact tags.nodup.sublist
      (sublist_map_lower_activeTags h.tags_show.filed fun e he => (h.tags_show.plain e he).2)
  mem_env_iff {entry} := by
    change entry ∈ ctx.env ↔ _
    rw [h.env_shows.mem_iff]
    constructor
    · rintro ⟨setting, hget, rfl⟩
      have hname := h.env_names _ (OrderedMap.get?_eq_some_iff.1 hget)
      rw [h.get?_env _ hname] at hget
      rcases Option.map_eq_some_iff.1 hget with ⟨winner, hwinner, hsetting⟩
      refine ⟨setting.1, winner.1, winner.2, hwinner, ?_⟩
      rw [← hsetting]
      rfl
    · rintro ⟨name, key, value, hwinner, rfl⟩
      refine ⟨(name, value), ?_, rfl⟩
      rw [h.get?_env name (Scope.mem_of_winner?_variable hwinner), hwinner]
      rfl
  nodup_env := by
    change (ctx.env.map fun entry => (splitEntry entry).1).Nodup
    have hnames : (ctx.env.map fun entry => (splitEntry entry).1) =
        env.entries.map fun e => e.2.1 := by
      rw [h.env_shows.eq_map, map_entryOf_values, List.map_map]
      refine List.map_congr_left fun e he => ?_
      rw [Function.comp_apply, splitEntry_entryOf (h.env_shows.plain e he).2]
    rw [hnames]
    refine List.Nodup.of_map lower ?_
    have hkeys : env.entries.map Prod.fst = (env.entries.map fun e => e.2.1).map lower := by
      rw [List.map_map]
      exact List.map_congr_left h.env_shows.filed
    rw [← hkeys]
    exact env.nodup

/-- The configuration inside a scope is what the scope asks for. -/
theorem reflects_config_within (cancelled : Nat → Bool) (hscope : scope.Plain) :
    ((make [] [] defaultEnvKeys cancelled).within scope).config.Reflects scope := by
  rcases exists_holds_within cancelled hscope with ⟨env, tags, hholds⟩
  exact hholds.reflects

end Context

end PackageAlgebra
