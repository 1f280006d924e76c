import PackageAlgebra.Query.Token
import Mathlib.Data.List.Infix

/-!
# Nesting of Parentheses

How many parentheses are open after some tokens.

Balance is a matter of counting: no prefix closes more than it opens, and the
whole closes as much as it opens. Counting is of little use along a run of the
parser, which goes on from the middle of a list. There it is the number of open
parentheses that is passed on, and `nesting` computes it; a list fails at the
first token that closes what was never opened. `nesting_eq_some_iff` is the bridge
between the two.

## Main definitions

* `Balanced`: No prefix closes too much, and nothing stays open.
* `nesting`: The number of open parentheses after some tokens.

## Theorems

* `nesting_eq_some_iff`: The number of open parentheses, by counting.
* `balanced_iff_nesting`: A list is balanced if it leaves no parenthesis open.
-/

namespace PackageAlgebra

/-- How many parentheses some tokens open. -/
def openings (ts : List Token) : Nat := ts.countP (·.kind = .leftParen)

/-- How many parentheses some tokens close. -/
def closings (ts : List Token) : Nat := ts.countP (·.kind = .rightParen)

/-- The parentheses of a token list are balanced. -/
structure Balanced (ts : List Token) : Prop where
  -- Along the way, no more parentheses are closed than opened.
  closings_le : ∀ front, front <+: ts → closings front ≤ openings front
  -- At the end, none is open.
  openings_eq : openings ts = closings ts

/-- The number of open parentheses after some tokens, if there is one. -/
def nesting (depth : Nat) : List Token → Option Nat
  | [] => some depth
  | t :: rest =>
    match t.kind, depth with
    | .leftParen, depth => nesting (depth + 1) rest
    | .rightParen, 0 => none
    | .rightParen, depth + 1 => nesting depth rest
    | _, depth => nesting depth rest

variable {depth left : Nat} {t : Token} {rest ts : List Token}

theorem nesting_leftParen (ht : t.kind = .leftParen) :
    nesting depth (t :: rest) = nesting (depth + 1) rest := by
  simp only [nesting, ht]

theorem nesting_rightParen (ht : t.kind = .rightParen) :
    nesting (depth + 1) (t :: rest) = nesting depth rest := by
  simp only [nesting, ht]

/-- A token of any other kind does not count. -/
theorem nesting_other {k : TokenKind} (ht : t.kind = k) (hl : k ≠ .leftParen)
    (hr : k ≠ .rightParen) : nesting depth (t :: rest) = nesting depth rest := by
  subst ht
  simp only [nesting]
  split
  · next h => exact absurd h hl
  · next h => exact absurd h hr
  · next h => exact absurd h hr
  · rfl

theorem nesting_append (depth : Nat) (ts us : List Token) :
    nesting depth (ts ++ us) = (nesting depth ts).bind (nesting · us) := by
  induction ts generalizing depth with
  | nil => rfl
  | cons t rest ih =>
      -- Where a parenthesis too many is closed, both sides fail at once.
      simp only [List.cons_append, nesting]
      split
      · exact ih _
      · rfl
      · exact ih _
      · exact ih _

theorem openings_cons (t : Token) (ts : List Token) :
    openings (t :: ts) = openings ts + if t.kind = .leftParen then 1 else 0 := by
  simp only [openings, List.countP_cons, decide_eq_true_eq]

theorem closings_cons (t : Token) (ts : List Token) :
    closings (t :: ts) = closings ts + if t.kind = .rightParen then 1 else 0 := by
  simp only [closings, List.countP_cons, decide_eq_true_eq]

/-- What a list leaves open is what was open before and what it opens, less what
    it closes; and no prefix of it closes more than that. -/
theorem nesting_eq_some_iff (depth left : Nat) (ts : List Token) :
    nesting depth ts = some left ↔
      (∀ front, front <+: ts → closings front ≤ depth + openings front) ∧
        left + closings ts = depth + openings ts := by
  induction ts generalizing depth with
  | nil =>
      simp only [nesting, Option.some.injEq, List.prefix_nil, forall_eq, openings, closings,
        List.countP_nil, Nat.zero_le, true_and, Nat.add_zero]
      exact eq_comm
  | cons t rest ih =>
      -- A prefix of a list with a head is empty or begins with the head.
      have hfronts : ∀ d, (∀ front, front <+: t :: rest → closings front ≤ d + openings front) ↔
          ∀ front, front <+: rest → closings (t :: front) ≤ d + openings (t :: front) := by
        intro d
        constructor
        · intro h front hfront
          exact h (t :: front) (List.prefix_cons_inj t |>.2 hfront)
        · intro h front hfront
          rcases List.prefix_cons_iff.1 hfront with rfl | ⟨front, rfl, hrest⟩
          · exact Nat.zero_le _
          · exact h front hrest
      rw [hfronts]
      simp only [openings_cons, closings_cons]
      -- The head shifts the number of open parentheses, and with it both counts.
      by_cases hl : t.kind = .leftParen
      · rw [nesting_leftParen hl, ih]
        simp only [hl, if_true, reduceCtorEq, if_false]
        exact and_congr (forall₂_congr fun front _ => by omega) (by omega)
      · by_cases hr : t.kind = .rightParen
        · simp only [hr, if_true, reduceCtorEq, if_false]
          cases depth with
          | zero =>
              -- The head itself closes what is not open.
              refine iff_of_false (by simp [nesting, hr]) fun h => ?_
              exact absurd (h.1 [] List.nil_prefix) (Nat.not_succ_le_zero _)
          | succ d =>
              rw [nesting_rightParen hr, ih]
              exact and_congr (forall₂_congr fun front _ => by omega) (by omega)
        · rw [nesting_other rfl hl hr, ih]
          simp only [hl, hr, if_false, Nat.add_zero]

/-- A list is balanced if it leaves no parenthesis open. -/
theorem balanced_iff_nesting (ts : List Token) : Balanced ts ↔ nesting 0 ts = some 0 := by
  rw [nesting_eq_some_iff]
  simp only [Nat.zero_add]
  exact ⟨fun h => ⟨h.closings_le, h.openings_eq.symm⟩, fun h => ⟨h.1, h.2.symm⟩⟩

end PackageAlgebra
