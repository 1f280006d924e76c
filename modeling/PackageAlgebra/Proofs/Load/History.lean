import Mathlib.Data.List.Basic
import Mathlib.Data.Set.Basic
import Mathlib.Logic.Relation
import PackageAlgebra.Load.Loader

/-!
# Histories of Loaders

What a loader keeps from one question to the next.

A loader takes its state along, and everything that it answers might depend on what it was
asked before: on the order of the questions, on those that failed, on those that were
cancelled half way. Whatever holds of the state at the beginning, and is kept by each single
question, holds after every history, and that is how the states that a loader can be in are
told from those that it cannot.

An answer consists of nodes, and nodes refer to other nodes. Two answers are the same if the
nodes are, and if their references lead to the same nodes in the states that the answers leave,
however far they are followed.

## Main definitions

* `Question`: A question to a loader.
* `Loader.after`: The state of a loader after a history of questions.
* `Node.SameBelow`: The references of a node lead to the same nodes in two catalogs.
* `Loader.SameAnswer`: Two answers are the same.
* `LoadConfig.tagSet`: The tags of a configuration, whatever their case, order and number.

## Theorems

* `Loader.after_of_kept`: What each question keeps holds after every history.
* `exists_get?_of_resolveIn`: Patterns stand for nodes of the universe.
* `mem_activeTags_iff`, `activeTags_eq_iff`: The active tags are the set of the tags.
-/

namespace PackageAlgebra

open Relation

variable {σ ρ : Type}

/-- A question to a loader. -/
inductive Question
  -- The packages that patterns stand for.
  | load (config : LoadConfig) (patterns : List String)
  -- All packages that exist under a configuration.
  | allNodes (config : LoadConfig)

namespace Loader

/-- The state of a loader after one question. -/
def afterOne (l : Loader σ ρ) (s : σ) : Question → σ
  | .load config patterns => (l.load config patterns s).2
  | .allNodes config => (l.allNodes config s).2

/-- The state of a loader after a history of questions, the first one first. -/
def after (l : Loader σ ρ) (history : List Question) (s : σ) : σ := history.foldl l.afterOne s

/-- What each question keeps holds after every history. -/
theorem after_of_kept {l : Loader σ ρ} {P : σ → Prop} (hkept : ∀ s q, P s → P (l.afterOne s q))
    (history : List Question) {s : σ} (hs : P s) : P (l.after history s) := by
  induction history generalizing s with
  | nil => exact hs
  | cons q rest ih => exact ih (hkept s q hs)

end Loader

/-! ### Answers -/

/-- The references of a node lead to the same nodes in two catalogs, and so do those of the nodes
    that they lead to, however far they are followed. -/
def Node.SameBelow (c d : Catalog ρ) (p : Node ρ) : Prop :=
  ∀ q, ReflTransGen (fun a b => b ∈ a.imported c) p q → q.imported c = q.imported d

/-- Two answers of a loader are the same: they are the same error, or the same nodes in the same
    order, and these refer to the same nodes. -/
def Loader.SameAnswer (l : Loader σ ρ) (a b : Except LoadError (List (Node ρ)) × σ) : Prop :=
  a.1 = b.1 ∧
    ∀ roots, a.1 = .ok roots → ∀ p ∈ roots, p.SameBelow (l.catalog a.2) (l.catalog b.2)

/-- References lead to the same nodes if all those do that can be met on the way. -/
theorem Node.sameBelow_of_closed {c d : Catalog ρ} {P : Node ρ → Prop} {p : Node ρ} (hp : P p)
    (hclosed : ∀ a, P a → ∀ b ∈ a.imported c, P b)
    (hsame : ∀ a, P a → ∀ e ∈ a.imports.entries, c.get? e.2 = d.get? e.2) : p.SameBelow c d := by
  intro q hpath
  have hq : P q := by
    induction hpath with
    | refl => exact hp
    | tail _ hstep ih => exact hclosed _ ih _ hstep
  refine List.filterMap_congr fun ref href => ?_
  rcases List.mem_map.1 href with ⟨e, he, rfl⟩
  exact hsame q hq e he

/-- Patterns stand for nodes of the universe. -/
theorem exists_get?_of_resolveIn {nodes : OrderedMap String (Node ρ)} {inWildcards : Node ρ → Bool}
    {config : LoadConfig} {patterns : List String} {roots : List (Node ρ)} {p : Node ρ}
    (h : resolveIn nodes inWildcards config patterns = .ok roots) (hp : p ∈ roots) :
    ∃ id, nodes.get? id = some p := by
  unfold resolveIn Resolution.resolve at h
  by_cases hfailures : ((Resolution.mk nodes inWildcards config.tests).failures patterns).isEmpty
  · rw [if_pos hfailures, Except.ok.injEq] at h
    rw [← h, List.mem_filterMap] at hp
    rcases hp with ⟨id, -, hid⟩
    exact ⟨id, hid⟩
  · rw [if_neg hfailures] at h
    cases h

/-! ### Configurations -/

/-- The tags of a configuration, in lower case. -/
def LoadConfig.tagSet (config : LoadConfig) : Set String :=
  {tag | ∃ written ∈ config.tags, Text.lower written = tag}

variable {config other : LoadConfig} {tag : String}

/-- The active tags are those of the set. -/
theorem mem_activeTags_iff : tag ∈ config.activeTags ↔ tag ∈ config.tagSet := by
  unfold LoadConfig.activeTags LoadConfig.tagSet
  rw [List.mem_mergeSort, List.mem_eraseDups, List.mem_map, Set.mem_ofPred_eq]

/-- A list from which repetitions have been erased has none. -/
theorem nodup_eraseDups (tags : List String) : tags.eraseDups.Nodup := by
  rcases tags with _ | ⟨tag, rest⟩
  · exact List.nodup_nil
  · have hshorter : (rest.filter fun t => !t == tag).length < (tag :: rest).length :=
      Nat.lt_succ_of_le (List.length_filter_le _ rest)
    rw [List.eraseDups_cons, List.nodup_cons, List.mem_eraseDups, List.mem_filter]
    refine ⟨fun hmem => ?_, nodup_eraseDups _⟩
    simp only [BEq.rfl, Bool.not_true, Bool.false_eq_true, and_false] at hmem
termination_by tags.length
decreasing_by exact hshorter

/-- The active tags do not depend on the case, the order or the repetition of the tags. -/
theorem activeTags_eq_iff :
    config.activeTags = other.activeTags ↔ config.tagSet = other.tagSet := by
  constructor
  · intro heq
    ext tag
    rw [← mem_activeTags_iff, heq, mem_activeTags_iff]
  · intro heq
    have hperm : config.activeTags.Perm other.activeTags := by
      refine (List.perm_ext_iff_of_nodup ?_ ?_).2 fun tag => ?_
      · exact (List.mergeSort_perm _ _).nodup_iff.2 (nodup_eraseDups _)
      · exact (List.mergeSort_perm _ _).nodup_iff.2 (nodup_eraseDups _)
      · rw [mem_activeTags_iff, mem_activeTags_iff, heq]
    have hsorted : ∀ c : LoadConfig, c.activeTags.Pairwise fun x y => x ≤ y := by
      intro c
      have hpairwise : c.activeTags.Pairwise fun x y => decide (x ≤ y) = true :=
        List.pairwise_mergeSort (by simpa using fun _ _ _ => String.le_trans)
          (by simpa using String.le_total) (c.tags.map Text.lower).eraseDups
      exact hpairwise.imp of_decide_eq_true
    exact hperm.eq_of_pairwise (fun _ _ _ _ => String.le_antisymm) (hsorted config) (hsorted other)

end PackageAlgebra
