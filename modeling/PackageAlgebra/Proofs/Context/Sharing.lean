import PackageAlgebra.Context.Basic

/-!
# Shared Contexts

Contexts whose lists are kept in one place and written in place.

A context function does not need a context of values. It may copy the lists of the context
around it and write its key into the copy, and then everything inside it reads the copy where
it is kept. A context is then no more than two addresses. Whoever has the same addresses sees
every write, so the question is whether anybody else has the addresses of a list that is
written.

Nobody has. What is written are lists that have just been added, at addresses that were not
there before; a write keeps all lists that were, and so the contexts that these belong to.

## Main definitions

* `SharedContext`: A context by the addresses of its lists.
* `SharedContext.view`: The context that it shows.
* `SharedContext.Kept`: Its lists are there.
* `SharedContext.clone`: A copy with lists of its own.
* `SharedContext.write`: Set a key in place.

## Theorems

* `SharedContext.view_append`: Lists that are added are not seen.
* `SharedContext.write_clone`: A key set in a copy is set for the copy alone.
-/

namespace PackageAlgebra

/-- A context by the addresses of its lists. -/
structure SharedContext where
  -- Where the variables of the environment are kept.
  env : Nat
  -- Where the build tags are kept.
  tags : Nat
  -- The keys that are variables of the environment, in upper case.
  envKeys : List String := defaultEnvKeys
  -- Whether loads have been cancelled, each time that one asks.
  cancelled : Nat → Bool := fun _ => false

namespace SharedContext

/-- The context that is shown by lists at the addresses. -/
def view (c : SharedContext) (lists : List EntryList) : Context where
  env := lists.getD c.env []
  tags := lists.getD c.tags []
  envKeys := c.envKeys
  cancelled := c.cancelled

/-- There are lists at the addresses. -/
structure Kept (c : SharedContext) (lists : List EntryList) : Prop where
  env_lt : c.env < lists.length
  tags_lt : c.tags < lists.length

/-- A copy of a context: the same entries, in lists that are added. -/
def clone (c : SharedContext) (lists : List EntryList) : SharedContext × List EntryList :=
  ({ c with env := lists.length, tags := lists.length + 1 },
    lists ++ [lists.getD c.env [], lists.getD c.tags []])

/-- Set a key in place: a variable of the environment, its name in upper case, or a tag. -/
def write (c : SharedContext) (key value : String) (lists : List EntryList) : List EntryList :=
  if c.envKeys.contains (Text.upper key) then
    lists.modify c.env fun env => env.write (Text.upper key) value
  else lists.modify c.tags fun tags => tags.write key value

variable {c : SharedContext} {lists : List EntryList}

/-- Lists that are added are not seen. -/
theorem view_append (h : c.Kept lists) (added : List EntryList) :
    c.view (lists ++ added) = c.view lists := by
  simp only [view, List.getD_eq_getElem?_getD, List.getElem?_append_left h.env_lt,
    List.getElem?_append_left h.tags_lt]

theorem Kept.append (h : c.Kept lists) (added : List EntryList) : c.Kept (lists ++ added) := by
  have hlength : lists.length ≤ (lists ++ added).length := by
    rw [List.length_append]
    exact Nat.le_add_right _ _
  exact ⟨Nat.lt_of_lt_of_le h.env_lt hlength, Nat.lt_of_lt_of_le h.tags_lt hlength⟩

/-! ### Copies -/

theorem kept_clone (c : SharedContext) (lists : List EntryList) (env tags : EntryList) :
    (c.clone lists).1.Kept (lists ++ [env, tags]) := by
  constructor <;> simp only [clone, List.length_append, List.length_cons, List.length_nil] <;> omega

theorem view_clone (c : SharedContext) (lists : List EntryList) (env tags : EntryList) :
    (c.clone lists).1.view (lists ++ [env, tags]) =
      ⟨env, tags, c.envKeys, c.cancelled⟩ := by
  simp only [view, clone, List.getD_eq_getElem?_getD, List.getElem?_append_right,
    Nat.le_refl, Nat.le_add_right, Nat.sub_self, Nat.add_sub_cancel_left,
    List.getElem?_cons_zero, List.getElem?_cons_succ, Option.getD_some]

theorem modify_append_first (l : List EntryList) (f : EntryList → EntryList)
    (first second : EntryList) :
    (l ++ [first, second]).modify l.length f = l ++ [f first, second] := by
  induction l with
  | nil => rfl
  | cons a rest ih => exact congrArg (a :: ·) ih

theorem modify_append_second (l : List EntryList) (f : EntryList → EntryList)
    (first second : EntryList) :
    (l ++ [first, second]).modify (l.length + 1) f = l ++ [first, f second] := by
  induction l with
  | nil => rfl
  | cons a rest ih => exact congrArg (a :: ·) ih

/-- A key set in a copy is set for the copy alone: two lists are added to those that were
    there, and the copy shows them. -/
theorem write_clone (c : SharedContext) (lists : List EntryList) (key value : String) :
    ∃ added, (c.clone lists).1.write key value (c.clone lists).2 = lists ++ added ∧
      (c.clone lists).1.Kept (lists ++ added) ∧
      (c.clone lists).1.view (lists ++ added) = (c.view lists).assign key value := by
  by_cases hvariable : c.envKeys.contains (Text.upper key) = true
  · have hassign : (c.view lists).assign key value =
        { c.view lists with env := (c.view lists).env.write (Text.upper key) value } :=
      if_pos hvariable
    have hwrite : (c.clone lists).1.write key value (c.clone lists).2 =
        lists ++ [(c.view lists).env.write (Text.upper key) value, (c.view lists).tags] :=
      (if_pos hvariable).trans (modify_append_first lists _ _ _)
    exact ⟨_, hwrite, kept_clone c lists _ _, by rw [view_clone, hassign]; rfl⟩
  · have hassign : (c.view lists).assign key value =
        { c.view lists with tags := (c.view lists).tags.write key value } :=
      if_neg hvariable
    have hwrite : (c.clone lists).1.write key value (c.clone lists).2 =
        lists ++ [(c.view lists).env, (c.view lists).tags.write key value] :=
      (if_neg hvariable).trans (modify_append_second lists _ _ _)
    exact ⟨_, hwrite, kept_clone c lists _ _, by rw [view_clone, hassign]; rfl⟩

end SharedContext

end PackageAlgebra
