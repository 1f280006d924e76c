import PackageAlgebra.Query.Parser
import Mathlib.Logic.Relation

/-!
# Readings

What the parser accepts, as a relation without a bound on the recursion.

The three functions of the parser count their calls down from a number that the
token list pays for. A derivation carries no such number, and an induction on it
has one case for each way in which the parser goes on. What is claimed of the
parser, that it reads what the grammar spells and that it keeps track of
parentheses, is shown by inductions of that kind, so it is shown of the relation.

The functions call each other, and their derivations would be a family that
refers to itself in a circle. `Reading` names the calls together with their
answers, so that there is one relation and one induction.

A term is read together with the selectors behind it. The parser collects them in
a loop of its own; the relation takes them one by one, because a term with a
selector is a term again.

A reading passes at least one token unless none is left, and the parser makes two
calls at most between two tokens. Twice the number of tokens is therefore bound
enough, and no bound is left in `parseTokens_eq_ok_iff`.

## Main definitions

* `Cursor.Step`: A cursor passes a token.
* `Stops`: The tokens that end an operand.
* `Reading`: What is read, and the answer.
* `Reads`: A reading takes place between two cursors.
* `StatementsRead`: The statements of a token list.
* `Reading.Answers`: The parser gives the answer of a reading.

## Theorems

* `Reads.passes`: A reading passes tokens from the front, one by one.
* `Reads.answers`: The parser gives the answer of each reading.
* `readsWithin`: What the parser answers is a reading.
* `parseTokens_eq_ok_iff`: The parser accepts exactly the readings.
* `QueryText.parse_eq_ok_iff`: A text is accepted if it has tokens and they are.
-/

namespace PackageAlgebra

open Relation

/-- A cursor passes the next token. -/
def Cursor.Step (cur cur' : Cursor) : Prop :=
  ∃ t, cur.ahead = t :: cur'.ahead ∧ cur'.passed = some t

/-- A token that ends an operand: an operator where one is looked for, a closing
    parenthesis or a comma inside of parentheses, a semicolon outside of them. -/
def Stops (afterOperator : Bool) (depth : Nat) (t : Token) : Prop :=
  t.kind = .op ∧ afterOperator = true ∨
    (t.kind = .rightParen ∨ t.kind = .comma) ∧ 0 < depth ∨ t.kind = .semicolon ∧ depth = 0

theorem stops_rightParen {after : Bool} {depth : Nat} {t : Token} (ht : t.kind = .rightParen)
    (hdepth : 0 < depth) : Stops after depth t :=
  Or.inr (Or.inl ⟨Or.inl ht, hdepth⟩)

theorem stops_comma {after : Bool} {depth : Nat} {t : Token} (ht : t.kind = .comma)
    (hdepth : 0 < depth) : Stops after depth t :=
  Or.inr (Or.inl ⟨Or.inr ht, hdepth⟩)

theorem stops_semicolon {after : Bool} {t : Token} (ht : t.kind = .semicolon) : Stops after 0 t :=
  Or.inr (Or.inr ⟨ht, rfl⟩)

/-- What the parser reads at one call, and its answer. -/
inductive Reading
  -- A term with the selectors behind it.
  | term (depth : Nat) (e : Expr)
  -- What stands between two separators.
  | operand (afterOperator : Bool) (depth : Nat) (terms : List Expr) (value : Option Expr)
  -- The operands up to a closing parenthesis.
  | arguments (depth : Nat) (args : List Expr) (es : List Expr)
  -- The operands after an operator, folded to the left.
  | operators (depth : Nat) (left : Expr) (op : String) (e : Expr)

/-- A reading takes place between two cursors. -/
inductive Reads : Reading → Cursor → Cursor → Prop
  | name {depth : Nat} {passed : Option Token} {t : Token} {rest : List Token}
      (ht : t.kind = .package) (hrest : ∀ n ∈ rest.head?, n.kind ≠ .assign) :
      Reads (.term depth (.package t.text)) ⟨passed, t :: rest⟩ ⟨some t, rest⟩
  | call {depth : Nat} {passed : Option Token} {f l : Token} {rest : List Token}
      {args : List Expr} {cur : Cursor} (hf : f.kind = .func) (hl : l.kind = .leftParen)
      (h : Reads (.arguments depth [] args) ⟨some l, rest⟩ cur) :
      Reads (.term depth (.call f.text args)) ⟨passed, f :: l :: rest⟩ cur
  | group {depth : Nat} {passed : Option Token} {l : Token} {rest : List Token} {e : Expr}
      {cur : Cursor} (hl : l.kind = .leftParen)
      (h : Reads (.arguments depth [] [e]) ⟨some l, rest⟩ cur) :
      Reads (.term depth e) ⟨passed, l :: rest⟩ cur
  | selected {depth : Nat} {passed : Option Token} {s : Token} {rest : List Token} {e : Expr}
      {cur : Cursor} (hs : s.kind = .selector)
      (h : Reads (.term depth e) cur ⟨passed, s :: rest⟩) :
      Reads (.term depth (.select e s.text)) cur ⟨some s, rest⟩
  | atEnd {after : Bool} {depth : Nat} {terms : List Expr} {passed : Option Token} :
      Reads (.operand after depth terms (juxtapose terms)) ⟨passed, []⟩ ⟨passed, []⟩
  | beside {after : Bool} {depth : Nat} {terms : List Expr} {e : Expr} {v : Option Expr}
      {cur cur₁ cur₂ : Cursor} (h : Reads (.term depth e) cur cur₁)
      (hs : ∀ s ∈ cur₁.ahead.head?, s.kind ≠ .selector)
      (hlater : Reads (.operand after depth (terms ++ [e]) v) cur₁ cur₂) :
      Reads (.operand after depth terms v) cur cur₂
  | binding {depth : Nat} {value : Expr} {passed : Option Token} {t assign : Token}
      {rest : List Token} {cur : Cursor} (ht : t.kind = .package) (ha : assign.kind = .assign)
      (h : Reads (.operand false depth [] (some value)) ⟨some assign, rest⟩ cur) :
      Reads (.operand false depth [] (some (.assign t.text value)))
        ⟨passed, t :: assign :: rest⟩ cur
  | fold {depth : Nat} {terms : List Expr} {left e : Expr} {passed : Option Token} {o : Token}
      {rest : List Token} {cur : Cursor} (ho : o.kind = .op)
      (hleft : juxtapose terms = some left)
      (h : Reads (.operators depth left o.text e) ⟨some o, rest⟩ cur) :
      Reads (.operand false depth terms (some e)) ⟨passed, o :: rest⟩ cur
  | stop {after : Bool} {depth : Nat} {terms : List Expr} {passed : Option Token} {t : Token}
      {rest : List Token} (ht : Stops after depth t) :
      Reads (.operand after depth terms (juxtapose terms)) ⟨passed, t :: rest⟩ ⟨some t, rest⟩
  | lastArgument {depth : Nat} {args : List Expr} {e : Expr} {cur cur₁ : Cursor}
      (hclosed : cur₁.hasPassed .rightParen = true)
      (h : Reads (.operand false (depth + 1) [] (some e)) cur cur₁) :
      Reads (.arguments depth args (args ++ [e])) cur cur₁
  | argument {depth : Nat} {args es : List Expr} {e : Expr} {cur cur₁ cur₂ : Cursor}
      (hcomma : cur₁.hasPassed .comma = true)
      (h : Reads (.operand false (depth + 1) [] (some e)) cur cur₁)
      (hlater : Reads (.arguments depth (args ++ [e]) es) cur₁ cur₂) :
      Reads (.arguments depth args es) cur cur₂
  | lastOperator {depth : Nat} {left right : Expr} {op : String} {cur cur₁ : Cursor}
      (hend : cur₁.hasPassed .op = false)
      (h : Reads (.operand true depth [] (some right)) cur cur₁) :
      Reads (.operators depth left op (.call op [left, right])) cur cur₁
  | operator {depth : Nat} {left right e : Expr} {op : String} {o : Token}
      {cur cur₁ cur₂ : Cursor} (ho : cur₁.passed = some o) (hop : o.kind = .op)
      (h : Reads (.operand true depth [] (some right)) cur cur₁)
      (hlater : Reads (.operators depth (.call op [left, right]) o.text e) cur₁ cur₂) :
      Reads (.operators depth left op e) cur cur₂

/-- Statements are read to the end. -/
inductive StatementsRead : Cursor → List Expr → Prop
  | done {passed : Option Token} : StatementsRead ⟨passed, []⟩ []
  | next {es : List Expr} {v : Option Expr} {cur cur₁ : Cursor} (hcur : cur.ahead ≠ [])
      (h : Reads (.operand false 0 [] v) cur cur₁) (hlater : StatementsRead cur₁ es) :
      StatementsRead cur (v.toList ++ es)

variable {depth : Nat} {after : Bool} {terms args es : List Expr} {e left value : Expr}
  {v : Option Expr} {op : String} {r : Reading} {cur cur₁ cur₂ : Cursor}

/-! ### Tokens passed -/

theorem Cursor.step (passed : Option Token) (t : Token) (rest : List Token) :
    Step ⟨passed, t :: rest⟩ ⟨some t, rest⟩ := ⟨t, rfl, rfl⟩

theorem Cursor.length_lt (h : TransGen Cursor.Step cur cur₁) :
    cur₁.ahead.length < cur.ahead.length := by
  induction h with
  | single hstep =>
      rcases hstep with ⟨t, ht, _⟩
      rw [ht]
      exact Nat.lt_succ_self _
  | tail _ hstep ih =>
      rcases hstep with ⟨t, ht, _⟩
      rw [ht] at ih
      exact Nat.lt_of_succ_lt ih

/-- An operand is read where no token is left. -/
inductive Reading.IsIdle : Reading → Cursor → Prop
  | atEnd {after : Bool} {depth : Nat} {terms : List Expr} {passed : Option Token} :
      IsIdle (.operand after depth terms (juxtapose terms)) ⟨passed, []⟩

theorem Reading.not_isIdle_some : ¬ Reading.IsIdle (.operand after depth [] (some e)) cur := by
  generalize hr : Reading.operand after depth [] (some e) = r
  rintro ⟨⟩
  injection hr with _ _ hterms hv
  rw [← hterms] at hv
  exact absurd hv (Option.some_ne_none e)

/-- A reading passes tokens, except for an operand where no token is left. -/
theorem Reads.passes (h : Reads r cur cur₁) :
    TransGen Cursor.Step cur cur₁ ∨ r.IsIdle cur ∧ cur₁ = cur := by
  induction h with
  | name _ _ => exact Or.inl (.single (Cursor.step _ _ _))
  | call _ _ _ ih =>
      rcases ih with hpasses | ⟨⟨⟩, _⟩
      exact Or.inl (.head (Cursor.step _ _ _) (.head (Cursor.step _ _ _) hpasses))
  | group _ _ ih =>
      rcases ih with hpasses | ⟨⟨⟩, _⟩
      exact Or.inl (.head (Cursor.step _ _ _) hpasses)
  | selected _ _ ih =>
      -- The selector is the last token passed, and the term never is idle.
      rcases ih with hpasses | ⟨⟨⟩, _⟩
      exact Or.inl (.tail hpasses (Cursor.step _ _ _))
  | atEnd => exact Or.inr ⟨.atEnd, rfl⟩
  | beside _ _ _ ih ihlater =>
      rcases ih with hpasses | ⟨⟨⟩, _⟩
      rcases ihlater with hlater | ⟨_, rfl⟩
      · exact Or.inl (hpasses.trans hlater)
      · exact Or.inl hpasses
  | binding _ _ _ ih =>
      -- The value may be idle as far as this lemma knows; the name is passed anyway.
      rcases ih with hpasses | ⟨_, rfl⟩
      · exact Or.inl (.head (Cursor.step _ _ _) (.head (Cursor.step _ _ _) hpasses))
      · exact Or.inl (.head (Cursor.step _ _ _) (.single (Cursor.step _ _ _)))
  | fold _ _ _ ih =>
      rcases ih with hpasses | ⟨⟨⟩, _⟩
      exact Or.inl (.head (Cursor.step _ _ _) hpasses)
  | stop _ => exact Or.inl (.single (Cursor.step _ _ _))
  | lastArgument _ _ ih =>
      rcases ih with hpasses | ⟨hidle, _⟩
      · exact Or.inl hpasses
      · exact absurd hidle Reading.not_isIdle_some
  | argument _ _ _ ih ihlater =>
      rcases ih with hpasses | ⟨hidle, _⟩
      · rcases ihlater with hlater | ⟨⟨⟩, _⟩
        exact Or.inl (hpasses.trans hlater)
      · exact absurd hidle Reading.not_isIdle_some
  | lastOperator _ _ ih =>
      rcases ih with hpasses | ⟨hidle, _⟩
      · exact Or.inl hpasses
      · exact absurd hidle Reading.not_isIdle_some
  | operator _ _ _ _ ih ihlater =>
      rcases ih with hpasses | ⟨hidle, _⟩
      · rcases ihlater with hlater | ⟨⟨⟩, _⟩
        exact Or.inl (hpasses.trans hlater)
      · exact absurd hidle Reading.not_isIdle_some

theorem Reads.length_lt (h : Reads r cur cur₁) (hr : ¬ r.IsIdle cur) :
    cur₁.ahead.length < cur.ahead.length := by
  rcases h.passes with hpasses | ⟨hidle, _⟩
  · exact Cursor.length_lt hpasses
  · exact absurd hidle hr

theorem Cursor.hasPassed_iff {k : TokenKind} :
    cur.hasPassed k = true ↔ ∃ t, cur.passed = some t ∧ t.kind = k := by
  simp only [Cursor.hasPassed, Option.any_eq_true, decide_eq_true_eq]

theorem Cursor.hasPassed_some {k : TokenKind} {t : Token} {rest : List Token} (ht : t.kind = k) :
    Cursor.hasPassed ⟨some t, rest⟩ k = true :=
  Cursor.hasPassed_iff.2 ⟨t, rfl, ht⟩

theorem Cursor.hasPassed_ne {k k' : TokenKind} (h : cur.hasPassed k = true) (hk : k ≠ k') :
    cur.hasPassed k' = false := by
  rcases Cursor.hasPassed_iff.1 h with ⟨t, ht, rfl⟩
  simp only [Cursor.hasPassed, ht, Option.any_some, hk, decide_false]

/-! ### From readings to the parser -/

/-- How many calls are enough for a reading. -/
def Reading.calls (r : Reading) (cur : Cursor) : Nat :=
  match r with
  | .term _ _ => 2 * cur.ahead.length
  | .operand _ _ _ _ => 2 * cur.ahead.length + 1
  | .arguments _ _ _ => 2 * cur.ahead.length + 2
  | .operators _ _ _ _ => 2 * cur.ahead.length + 2

/-- The parser gives the answer of a reading within a number of calls. A term is
    no call of its own: an operand goes on behind it. -/
def Reading.Answers (r : Reading) (fuel : Nat) (cur cur₁ : Cursor) : Prop :=
  match r with
  | .term depth e => ∀ after terms, PackageAlgebra.operand (fuel + 1) after depth terms cur =
      PackageAlgebra.operand fuel after depth
        (terms ++ [(attachSelectors e cur₁.passed cur₁.ahead).1])
        (attachSelectors e cur₁.passed cur₁.ahead).2
  | .operand after depth terms v =>
    PackageAlgebra.operand fuel after depth terms cur = .ok (v, cur₁)
  | .arguments depth args es =>
    ∀ opener, PackageAlgebra.arguments fuel opener depth args cur = .ok (es, cur₁)
  | .operators depth left op e =>
    PackageAlgebra.operators fuel depth left op cur = .ok (e, cur₁)

/-- Without a selector ahead a term stays as it is. -/
theorem attachSelectors_eq (e : Expr) (cur : Cursor)
    (hs : ∀ s ∈ cur.ahead.head?, s.kind ≠ .selector) :
    attachSelectors e cur.passed cur.ahead = (e, cur) := by
  rcases cur with ⟨passed, _ | ⟨t, rest⟩⟩
  · rfl
  · simp only [attachSelectors]
    rw [if_neg (hs t rfl)]

/-- The parser gives the answer of each reading. -/
theorem Reads.answers (h : Reads r cur cur₁) :
    ∀ fuel, r.calls cur ≤ fuel → r.Answers fuel cur cur₁ := by
  induction h with
  | @name depth passed t rest ht hrest =>
      intro fuel _ after terms
      cases rest with
      | nil => simp only [operand, ht, attachSelectors]
      | cons next rest =>
          have hnext : next.kind ≠ .assign := hrest next rfl
          simp only [operand, ht, if_neg hnext]
  | @call depth passed f l rest args cur hf hl _ ih =>
      intro fuel hfuel after terms
      have hargs := ih fuel (by simp only [Reading.calls, List.length_cons] at hfuel ⊢; omega)
      simp only [Reading.Answers] at hargs
      simp only [operand, hf, hl, if_true, hargs]
  | @group depth passed l rest e cur hl _ ih =>
      intro fuel hfuel after terms
      have hargs := ih fuel (by simp only [Reading.calls, List.length_cons] at hfuel ⊢; omega)
      simp only [Reading.Answers] at hargs
      simp only [operand, hl, hargs]
  | @selected depth passed s rest e cur hs _ ih =>
      intro fuel hfuel after terms
      have hterm := ih fuel hfuel after terms
      -- The parser has the selector in its loop already, when the term is done.
      simp only [attachSelectors, if_pos hs] at hterm
      exact hterm
  | atEnd =>
      intro fuel hfuel
      rcases Nat.exists_eq_add_one_of_ne_zero (Nat.ne_zero_of_lt hfuel) with ⟨n, rfl⟩
      simp only [Reading.Answers, operand]
  | @beside after depth terms e v cur cur₁ cur₂ h hs _ ih ihlater =>
      intro fuel hfuel
      have hlt := h.length_lt (fun hidle => nomatch hidle)
      rcases Nat.exists_eq_add_one_of_ne_zero (Nat.ne_zero_of_lt hfuel) with ⟨n, rfl⟩
      simp only [Reading.calls] at hfuel ih ihlater
      -- No selector is ahead, so the loop behind the term is over at once.
      have hterm := ih n (by omega) after terms
      rw [attachSelectors_eq e cur₁ hs] at hterm
      exact hterm.trans (ihlater n (by omega))
  | @binding depth value passed t assign rest cur ht ha _ ih =>
      intro fuel hfuel
      rcases Nat.exists_eq_add_one_of_ne_zero (Nat.ne_zero_of_lt hfuel) with ⟨n, rfl⟩
      have hvalue := ih n (by simp only [Reading.calls, List.length_cons] at hfuel ⊢; omega)
      simp only [Reading.Answers] at hvalue
      simp only [Reading.Answers, operand, ht, ha, if_true, hvalue]
      rfl
  | @fold depth terms left e passed o rest cur ho hleft _ ih =>
      intro fuel hfuel
      rcases Nat.exists_eq_add_one_of_ne_zero (Nat.ne_zero_of_lt hfuel) with ⟨n, rfl⟩
      have hlater := ih n (by simp only [Reading.calls, List.length_cons] at hfuel ⊢; omega)
      simp only [Reading.Answers] at hlater
      simp only [Reading.Answers, operand, ho, hleft, hlater]
      rfl
  | @stop after depth terms passed t rest ht =>
      intro fuel hfuel
      rcases Nat.exists_eq_add_one_of_ne_zero (Nat.ne_zero_of_lt hfuel) with ⟨n, rfl⟩
      simp only [Reading.Answers, operand]
      rcases ht with ⟨hk, hafter⟩ | ⟨hk | hk, hd⟩ | ⟨hk, hd⟩
      · simp only [hk, hafter, if_true]
      · simp only [hk, if_neg (Nat.ne_of_gt hd)]
      · simp only [hk, if_neg (Nat.ne_of_gt hd)]
      · simp only [hk, hd, Nat.lt_irrefl, if_false]
  | @lastArgument depth args e cur cur₁ hclosed _ ih =>
      intro fuel hfuel opener
      rcases Nat.exists_eq_add_one_of_ne_zero (Nat.ne_zero_of_lt hfuel) with ⟨n, rfl⟩
      simp only [Reading.calls] at hfuel ih
      have harg := ih n (by omega)
      simp only [Reading.Answers] at harg
      -- A comma is looked for before a parenthesis.
      have hcomma : cur₁.hasPassed .comma = false := Cursor.hasPassed_ne hclosed (by decide)
      simp only [arguments, harg, hcomma, hclosed, if_true, Bool.false_eq_true, if_false]
  | @argument depth args es e cur cur₁ cur₂ hcomma h _ ih ihlater =>
      intro fuel hfuel opener
      -- The argument has passed a token, which pays for the next call.
      have hlt := h.length_lt Reading.not_isIdle_some
      rcases Nat.exists_eq_add_one_of_ne_zero (Nat.ne_zero_of_lt hfuel) with ⟨n, rfl⟩
      simp only [Reading.calls] at hfuel ih ihlater
      have harg := ih n (by omega)
      have hlater := ihlater n (by omega)
      simp only [Reading.Answers] at harg hlater
      simp only [arguments, harg, hcomma, if_true, hlater]
  | @lastOperator depth left right op cur cur₁ hend _ ih =>
      intro fuel hfuel
      rcases Nat.exists_eq_add_one_of_ne_zero (Nat.ne_zero_of_lt hfuel) with ⟨n, rfl⟩
      simp only [Reading.calls] at hfuel ih
      have hright := ih n (by omega)
      simp only [Reading.Answers] at hright
      simp only [Reading.Answers, operators, hright]
      cases hpassed : cur₁.passed with
      | none => rfl
      | some t =>
          have ht : ¬ t.kind = .op := by
            simpa [Cursor.hasPassed, hpassed] using hend
          simp only [if_neg ht]
  | @operator depth left right e op o cur cur₁ cur₂ ho hop h _ ih ihlater =>
      intro fuel hfuel
      have hlt := h.length_lt Reading.not_isIdle_some
      rcases Nat.exists_eq_add_one_of_ne_zero (Nat.ne_zero_of_lt hfuel) with ⟨n, rfl⟩
      simp only [Reading.calls] at hfuel ih ihlater
      have hright := ih n (by omega)
      have hlater := ihlater n (by omega)
      simp only [Reading.Answers] at hright hlater
      simp only [Reading.Answers, operators, hright, ho, hop, if_true, hlater]

/-! ### From the parser to readings -/

/-- A term is read with all selectors ahead. -/
theorem reads_attachSelectors {e : Expr} {cur : Cursor} (passed : Option Token)
    (rest : List Token) (h : Reads (.term depth e) cur ⟨passed, rest⟩) :
    Reads (.term depth (attachSelectors e passed rest).1) cur (attachSelectors e passed rest).2 ∧
      ∀ s ∈ (attachSelectors e passed rest).2.ahead.head?, s.kind ≠ .selector := by
  induction rest generalizing e passed with
  | nil => exact ⟨h, fun s hs => absurd hs (Option.not_mem_none s)⟩
  | cons t rest ih =>
      simp only [attachSelectors]
      split
      · next ht => exact ih (some t) (.selected ht h)
      · next ht => exact ⟨h, fun s hs => by rw [← Option.mem_some.1 hs]; exact ht⟩

/-- What the parser answers within a number of calls is a reading. -/
structure ReadsWithin (fuel : Nat) : Prop where
  operand : ∀ {after depth terms cur v cur₁},
    operand fuel after depth terms cur = .ok (v, cur₁) →
      Reads (.operand after depth terms v) cur cur₁
  arguments : ∀ {opener depth args cur es cur₁},
    arguments fuel opener depth args cur = .ok (es, cur₁) →
      Reads (.arguments depth args es) cur cur₁
  operators : ∀ {depth left op cur e cur₁},
    operators fuel depth left op cur = .ok (e, cur₁) →
      Reads (.operators depth left op e) cur cur₁

namespace ReadsWithin

variable {fuel : Nat}

/-- A term, with its selectors attached, begins an operand. -/
theorem beside (h : ReadsWithin fuel) {passed : Option Token} {rest : List Token}
    (hterm : Reads (.term depth e) cur ⟨passed, rest⟩)
    (hok : PackageAlgebra.operand fuel after depth
      (terms ++ [(attachSelectors e passed rest).1]) (attachSelectors e passed rest).2 =
        .ok (v, cur₁)) : Reads (.operand after depth terms v) cur cur₁ := by
  have hselected := reads_attachSelectors passed rest hterm
  exact .beside hselected.1 hselected.2 (h.operand hok)

theorem operand_succ (h : ReadsWithin fuel)
    (hok : PackageAlgebra.operand (fuel + 1) after depth terms cur = .ok (v, cur₁)) :
    Reads (.operand after depth terms v) cur cur₁ := by
  rcases cur with ⟨passed, _ | ⟨t, rest⟩⟩
  · simp only [PackageAlgebra.operand, Except.ok.injEq, Prod.mk.injEq] at hok
    rcases hok with ⟨rfl, rfl⟩
    exact .atEnd
  · simp only [PackageAlgebra.operand] at hok
    cases hk : t.kind with
    | package =>
        simp only [hk] at hok
        -- A name begins a term unless `:=` is next.
        cases rest with
        | nil => exact h.beside (.name hk fun n hn => absurd hn (Option.not_mem_none n)) hok
        | cons next rest =>
            simp only at hok
            split at hok
            · next hassign =>
                split at hok
                · cases hok
                · next hfirst =>
                    simp only [Bool.or_eq_true, Bool.not_eq_true', not_or, Bool.not_eq_false,
                      Bool.not_eq_true, List.isEmpty_iff] at hfirst
                    rcases hfirst with ⟨rfl, rfl⟩
                    split at hok
                    · cases hok
                    · cases hok
                    · next value cur₂ hvalue =>
                        cases hok
                        exact .binding hk hassign (h.operand hvalue)
            · next hassign =>
                refine h.beside (.name hk fun n hn => ?_) hok
                rw [← Option.mem_some.1 hn]
                exact hassign
    | func =>
        simp only [hk] at hok
        rcases rest with _ | ⟨next, rest⟩
        · cases hok
        · simp only at hok
          split at hok
          · next hparen =>
              split at hok
              · cases hok
              · next args cur₂ hargs => exact h.beside (.call hk hparen (h.arguments hargs)) hok
          · cases hok
    | leftParen =>
        simp only [hk] at hok
        split at hok
        · cases hok
        · next arg cur₂ hargs => exact h.beside (.group hk (h.arguments hargs)) hok
        · cases hok
    | op =>
        simp only [hk] at hok
        split at hok
        · next hafter =>
            cases hok
            exact .stop (Or.inl ⟨hk, hafter⟩)
        · next hafter =>
            -- The first operator of an expression: it folds what stands before it.
            rw [Bool.not_eq_true] at hafter
            subst hafter
            split at hok
            · cases hok
            · next left hleft =>
                split at hok
                · cases hok
                · next e cur₂ hlater =>
                    cases hok
                    exact .fold hk hleft (h.operators hlater)
    | selector =>
        simp only [hk] at hok
        cases hok
    | rightParen =>
        simp only [hk] at hok
        split at hok
        · cases hok
        · next hdepth =>
            cases hok
            exact .stop (stops_rightParen hk (Nat.pos_of_ne_zero hdepth))
    | comma =>
        simp only [hk] at hok
        split at hok
        · cases hok
        · next hdepth =>
            cases hok
            exact .stop (stops_comma hk (Nat.pos_of_ne_zero hdepth))
    | semicolon =>
        simp only [hk] at hok
        split at hok
        · cases hok
        · next hdepth =>
            cases hok
            have hzero : depth = 0 := Nat.eq_zero_of_not_pos hdepth
            subst hzero
            exact .stop (stops_semicolon hk)
    | assign =>
        simp only [hk] at hok
        cases hok

theorem arguments_succ (h : ReadsWithin fuel) {opener : String}
    (hok : PackageAlgebra.arguments (fuel + 1) opener depth args cur = .ok (es, cur₁)) :
    Reads (.arguments depth args es) cur cur₁ := by
  simp only [PackageAlgebra.arguments] at hok
  split at hok
  · cases hok
  · cases hok
  · next arg cur₂ harg =>
      split at hok
      · next hcomma => exact .argument hcomma (h.operand harg) (h.arguments hok)
      · split at hok
        · next hclosed =>
            cases hok
            exact .lastArgument hclosed (h.operand harg)
        · cases hok

theorem operators_succ (h : ReadsWithin fuel)
    (hok : PackageAlgebra.operators (fuel + 1) depth left op cur = .ok (e, cur₁)) :
    Reads (.operators depth left op e) cur cur₁ := by
  simp only [PackageAlgebra.operators] at hok
  split at hok
  · cases hok
  · cases hok
  · next right cur₂ hright =>
      split at hok
      · next t hpassed =>
          split at hok
          · next hop => exact .operator hpassed hop (h.operand hright) (h.operators hok)
          · next hop =>
              cases hok
              refine .lastOperator ?_ (h.operand hright)
              simp only [Cursor.hasPassed, hpassed, Option.any_some, hop, decide_false]
      · next hpassed =>
          cases hok
          refine .lastOperator ?_ (h.operand hright)
          simp only [Cursor.hasPassed, hpassed, Option.any_none]

end ReadsWithin

/-- What the parser answers is a reading, however many calls it has. -/
theorem readsWithin (fuel : Nat) : ReadsWithin fuel := by
  induction fuel with
  | zero =>
      constructor
      · intro after depth terms cur v cur₁ hok
        cases hok
      · intro opener depth args cur es cur₁ hok
        cases hok
      · intro depth left op cur e cur₁ hok
        cases hok
  | succ n ih => exact ⟨ih.operand_succ, ih.arguments_succ, ih.operators_succ⟩

/-! ### Token lists -/

/-- An operand within enough calls is a reading, and a reading is an operand. -/
theorem operand_eq_ok_iff {fuel : Nat} (hfuel : 2 * cur.ahead.length < fuel) :
    operand fuel after depth terms cur = .ok (v, cur₁) ↔
      Reads (.operand after depth terms v) cur cur₁ :=
  ⟨(readsWithin fuel).operand, fun h => h.answers fuel hfuel⟩

/-- Where no token is left there are no statements. -/
theorem statementsRead_nil_iff {passed : Option Token} :
    StatementsRead ⟨passed, []⟩ es ↔ es = [] := by
  constructor
  · intro h
    cases h with
    | done => rfl
    | next hcur => exact absurd rfl hcur
  · rintro rfl
    exact .done

/-- The statements within enough calls are those that are read. -/
theorem statements_eq_ok_iff (fuel : Nat) (cur : Cursor) (hfuel : cur.ahead.length ≤ fuel)
    (es : List Expr) : statements fuel cur = .ok es ↔ StatementsRead cur es := by
  induction fuel generalizing cur es with
  | zero =>
      rcases cur with ⟨passed, _ | ⟨t, rest⟩⟩
      · rw [statementsRead_nil_iff]
        simp [statements, eq_comm]
      · exact absurd hfuel (Nat.not_succ_le_zero _)
  | succ n ih =>
      rcases cur with ⟨passed, _ | ⟨t, rest⟩⟩
      · rw [statementsRead_nil_iff]
        simp [statements, eq_comm]
      · -- The bound is taken anew for each statement.
        have hbound : 2 * (t :: rest).length < parseBound (t :: rest) :=
          Nat.lt_of_succ_lt (Nat.lt_succ_self _)
        have hlater : ∀ {v cur₁}, Reads (.operand false 0 [] v) ⟨passed, t :: rest⟩ cur₁ →
            cur₁.ahead.length ≤ n := by
          intro v cur₁ h
          have hlt := h.length_lt (fun hidle => nomatch hidle)
          simp only at hlt hfuel
          omega
        simp only [statements, List.isEmpty_cons, Bool.false_eq_true, if_false]
        constructor
        · intro hok
          split at hok
          · cases hok
          · next v cur₁ hv =>
              have hread := (operand_eq_ok_iff hbound).1 hv
              split at hok
              · cases hok
              · next es' hes =>
                  cases hok
                  exact .next (List.cons_ne_nil t rest) hread
                    ((ih cur₁ (hlater hread) es').1 hes)
        · intro h
          cases h with
          | @next es' v _ cur₁ _ hread hrest =>
              rw [(operand_eq_ok_iff hbound).2 hread]
              simp only [(ih cur₁ (hlater hread) es').2 hrest]

/-- The tree of some statements: a single one stands for itself. -/
def Expr.ofStatements : List Expr → Option Expr
  | [] => none
  | [e] => some e
  | es => some (.sequence es)

/-- The parser accepts exactly the token lists of which statements are read. -/
theorem parseTokens_eq_ok_iff (tokens : List Token) (tree : Option Expr) :
    parseTokens tokens = .ok tree ↔
      ∃ es, StatementsRead ⟨none, tokens⟩ es ∧ Expr.ofStatements es = tree := by
  simp only [← statements_eq_ok_iff tokens.length ⟨none, tokens⟩ (Nat.le_refl _)]
  unfold parseTokens
  cases hes : statements tokens.length ⟨none, tokens⟩ with
  | error cause => simp
  | ok es =>
      rcases es with _ | ⟨e, _ | ⟨f, es⟩⟩ <;> simp [Expr.ofStatements]

/-- A text is accepted if it has tokens and they are. -/
theorem QueryText.parse_eq_ok_iff (q : QueryText) (tree : Option Expr) :
    q.parse = .ok tree ↔
      ∃ tokens, Token.scan (joinWords q.texts) = .ok tokens ∧ parseTokens tokens = .ok tree := by
  unfold QueryText.parse parseWords
  cases hscan : Token.scan (joinWords q.texts) with
  | error cause => simp
  | ok tokens => cases htree : parseTokens tokens <;> simp [htree]

end PackageAlgebra
