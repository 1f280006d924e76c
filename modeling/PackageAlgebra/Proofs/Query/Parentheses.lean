import PackageAlgebra.Proofs.Query.Nesting
import PackageAlgebra.Proofs.Query.Reading

/-!
# Parentheses of Queries

Which parentheses the parser misses.

Whether the arguments of a call were closed is seen from the last token passed. At
a token in the middle this is sound: an operand that comes back with a closing
parenthesis has just passed it, and it was the one of the call. At the end of the
tokens it is not. There an operand comes back with whatever token came last, and
if that closed another group, the call takes it for its own. So `f(g(a)` is a query
to the parser, and it is the query `f(g(a))`.

This is the only way in which a parenthesis can be missed, and two inductions over
readings show it. Let another closing parenthesis follow the tokens. A reading that
a token ended does not notice it; one that ended with the tokens takes it, and
closes with it what it had left open. So what is parsed can be completed to a
balanced list with the same tree, one parenthesis after the other. Conversely a
closing parenthesis at the end may be taken away as long as another one stands
before it: whichever call it closed finds that other one instead.

## Main definitions

* `Extends`: A reading when a closing parenthesis follows the tokens.
* `Retracts`: A reading when the closing parenthesis at the end is taken away.
* `EndsClosed`: The last token is a closing parenthesis.

## Theorems

* `Reads.extend`, `StatementsRead.extend`: Readings with a parenthesis more.
* `Reads.retract`, `StatementsRead.retract`: Readings with a parenthesis less.
* `parseTokens_eq_ok_iff_completed`: What is parsed is balanced when completed.
* `parseTokens_unbalanced_iff`: Which unbalanced token lists are parsed.
-/

namespace PackageAlgebra

open Relation

/-- A cursor with one more token at the end. -/
def Cursor.followedBy (cur : Cursor) (t : Token) : Cursor := ⟨cur.passed, cur.ahead ++ [t]⟩

namespace Reading

/-- How many parentheses stand around what is read. -/
def depth : Reading → Nat
  | .term d _ => d
  | .operand _ d _ _ => d
  | .arguments d _ _ => d
  | .operators d _ _ _ => d

/-- How many parentheses are open where the reading begins. The one before
    arguments has been passed. -/
def opened : Reading → Nat
  | .term d _ => d
  | .operand _ d _ _ => d
  | .arguments d _ _ => d + 1
  | .operators d _ _ _ => d

/-- How many parentheses are open where the reading ends, if a token ended it. -/
def Leaves (left : Nat) (cur : Cursor) : Reading → Prop
  | .term d _ => left = d
  | .operand _ d _ _ => if cur.hasPassed .rightParen then left + 1 = d else left = d
  | .arguments d _ _ => left = d
  | .operators d _ _ _ => if cur.hasPassed .rightParen then left + 1 = d else left = d

/-- How many parentheses are open where the reading ends, if the end of the tokens
    ended it. -/
def LeavesOpen (left : Nat) : Reading → Prop
  | .term d _ => d < left
  | .operand _ d _ _ => d ≤ left
  | .arguments d _ _ => d < left
  | .operators d _ _ _ => d ≤ left

end Reading

/-- What becomes of a reading when a closing parenthesis follows the tokens. A
    reading that a token ended does not notice. One that the end of the tokens
    ended takes the parenthesis, if it left any open. -/
inductive Extends (close : Token) (r : Reading) (cur cur₁ : Cursor) : Prop
  | before (left : Nat) (hnesting : nesting r.opened cur.ahead = nesting left cur₁.ahead)
      (hleft : r.Leaves left cur₁)
      (h : Reads r (cur.followedBy close) (cur₁.followedBy close))
  | pending (left : Nat) (hahead : cur₁.ahead = [])
      (hnesting : nesting r.opened cur.ahead = some left) (hleft : r.LeavesOpen left)
      (hclosed : r.depth < left → cur₁.hasPassed .rightParen = true)
      (h : 0 < left → Reads r (cur.followedBy close) ⟨some close, []⟩)

variable {r : Reading} {cur cur₁ : Cursor} {close : Token}

/-- Where no token is left, only an operand is read. -/
theorem Reads.isIdle (h : Reads r cur cur₁) (hcur : cur.ahead = []) :
    r.IsIdle cur ∧ cur₁ = cur := by
  rcases h.passes with hpasses | hidle
  · have hlt := Cursor.length_lt hpasses
    rw [hcur] at hlt
    exact absurd hlt (Nat.not_lt_zero _)
  · exact hidle

/-- What becomes of a reading becomes of the one that it is the end of. -/
theorem Extends.of_later {r' : Reading} {cur' : Cursor} (h : Extends close r' cur' cur₁)
    (hnesting : nesting r.opened cur.ahead = nesting r'.opened cur'.ahead)
    (hdepth : r.depth = r'.depth) (hleaves : ∀ left, r'.Leaves left cur₁ → r.Leaves left cur₁)
    (hopen : ∀ left, r'.LeavesOpen left → r.LeavesOpen left)
    (hread : ∀ cur₂, Reads r' (cur'.followedBy close) cur₂ →
      Reads r (cur.followedBy close) cur₂) : Extends close r cur cur₁ := by
  cases h with
  | before left hnesting' hleft h =>
      exact .before left (hnesting.trans hnesting') (hleaves left hleft) (hread _ h)
  | pending left hahead hnesting' hleft hclosed h =>
      refine .pending left hahead (hnesting.trans hnesting') (hopen left hleft) ?_
        fun hpos => hread _ (h hpos)
      rw [hdepth]
      exact hclosed

/-- A closing parenthesis behind the tokens is no selector. -/
theorem head?_followedBy (hclose : close.kind = .rightParen)
    (hs : ∀ s ∈ cur.ahead.head?, s.kind ≠ .selector) :
    ∀ s ∈ (cur.followedBy close).ahead.head?, s.kind ≠ .selector := by
  intro s hmem
  rcases cur with ⟨passed, _ | ⟨t, rest⟩⟩
  · rw [← Option.mem_some.1 hmem, hclose]; decide
  · exact hs s hmem

/-- Every reading is extended by a closing parenthesis. -/
theorem Reads.extend (hclose : close.kind = .rightParen) (h : Reads r cur cur₁) :
    Extends close r cur cur₁ := by
  induction h with
  | @name depth passed t rest ht hrest =>
      refine .before depth (nesting_other ht (by decide) (by decide)) rfl ?_
      refine .name ht fun n hn => ?_
      cases rest with
      | nil => rw [← Option.mem_some.1 hn, hclose]; decide
      | cons next rest => exact hrest n hn
  | @call depth passed f l rest args cur hf hl _ ih =>
      have hnesting : nesting depth (f :: l :: rest) = nesting (depth + 1) rest :=
        (nesting_other hf (by decide) (by decide)).trans (nesting_leftParen hl)
      exact ih.of_later hnesting rfl (fun _ => id) (fun _ => id) fun _ => .call hf hl
  | @group depth passed l rest e cur hl _ ih =>
      exact ih.of_later (nesting_leftParen hl) rfl (fun _ => id) (fun _ => id)
        fun _ => .group hl
  | @selected depth passed s rest e cur hs _ ih =>
      cases ih with
      | before left hnesting hleft hterm =>
          have hselector : nesting left (s :: rest) = nesting left rest :=
            nesting_other hs (by decide) (by decide)
          exact .before left (hnesting.trans hselector) hleft (.selected hs hterm)
      | pending left hahead => exact absurd hahead (List.cons_ne_nil s rest)
  | @atEnd after depth terms passed =>
      refine .pending depth rfl rfl (Nat.le_refl depth)
        (fun hlt => absurd hlt (Nat.lt_irrefl depth)) fun hpos => ?_
      -- What ended with the tokens is ended by the parenthesis instead.
      exact .stop (stops_rightParen hclose hpos)
  | @beside after depth terms e v cur cur₁ cur₂ _ hs hread ih ihlater =>
      cases ih with
      | before left hnesting hleft hterm =>
          subst hleft
          exact ihlater.of_later hnesting rfl (fun _ => id) (fun _ => id)
            fun _ => .beside hterm (head?_followedBy hclose hs)
      | pending left hahead hnesting hleft hclosed hterm =>
          -- The term took the last token, so nothing stands beside it.
          rcases hread.isIdle hahead with ⟨⟨⟩, rfl⟩
          refine .pending left hahead hnesting (Nat.le_of_lt hleft) hclosed fun hpos => ?_
          exact .beside (hterm hpos) (fun s hmem => absurd hmem (Option.not_mem_none s)) .atEnd
  | @binding depth value passed t assign rest cur ht ha _ ih =>
      have hnesting : nesting depth (t :: assign :: rest) = nesting depth rest :=
        (nesting_other ht (by decide) (by decide)).trans
          (nesting_other ha (by decide) (by decide))
      exact ih.of_later hnesting rfl (fun _ => id) (fun _ => id) fun _ => .binding ht ha
  | @fold depth terms left e passed o rest cur ho hleft _ ih =>
      exact ih.of_later (nesting_other ho (by decide) (by decide)) rfl
        (fun _ => id) (fun _ => id) fun _ => .fold ho hleft
  | @stop after depth terms passed t rest ht =>
      have hread : Reads (.operand after depth terms (juxtapose terms))
          ⟨passed, t :: (rest ++ [close])⟩ ⟨some t, rest ++ [close]⟩ := .stop ht
      by_cases hr : t.kind = .rightParen
      · have hpos : 0 < depth := by
          -- Outside of parentheses a closing one ends nothing.
          rcases ht with ⟨hk, _⟩ | ⟨_, hpos⟩ | ⟨hk, _⟩
          · exact absurd (hr.symm.trans hk) (by decide)
          · exact hpos
          · exact absurd (hr.symm.trans hk) (by decide)
        rcases Nat.exists_eq_add_one_of_ne_zero (Nat.ne_of_gt hpos) with ⟨left, rfl⟩
        refine .before left (nesting_rightParen hr) ?_ hread
        simp [Reading.Leaves, Cursor.hasPassed, hr]
      · have hl : t.kind ≠ .leftParen := by
          rcases ht with ⟨hk, _⟩ | ⟨hk | hk, _⟩ | ⟨hk, _⟩ <;> rw [hk] <;> decide
        refine .before depth (nesting_other rfl hl hr) ?_ hread
        simp [Reading.Leaves, Cursor.hasPassed, hr]
  | @lastArgument depth args e cur cur₁ hclosed _ ih =>
      cases ih with
      | before left hnesting hleft harg =>
          simp only [Reading.Leaves, hclosed, if_true, Nat.add_right_cancel_iff] at hleft
          exact .before left hnesting hleft (.lastArgument hclosed harg)
      | pending left hahead hnesting hleft _ harg =>
          -- The parenthesis that closed another group is taken for the missing one.
          refine .pending left hahead hnesting hleft (fun _ => hclosed) fun hpos => ?_
          exact .lastArgument (Cursor.hasPassed_some hclose) (harg hpos)
  | @argument depth args es e cur cur₁ cur₂ hcomma _ hread ih ihlater =>
      cases ih with
      | before left hnesting hleft harg =>
          have hopen : cur₁.hasPassed .rightParen = false := Cursor.hasPassed_ne hcomma (by decide)
          simp only [Reading.Leaves, hopen, Bool.false_eq_true, if_false] at hleft
          subst hleft
          exact ihlater.of_later hnesting rfl (fun _ => id) (fun _ => id)
            fun _ => .argument hcomma harg
      | pending left hahead =>
          -- Another argument was read, so tokens were left.
          cases (hread.isIdle hahead).1
  | @lastOperator depth left right op cur cur₁ hend _ ih =>
      cases ih with
      | before left hnesting hleft hright =>
          exact .before left hnesting hleft (.lastOperator hend hright)
      | pending left hahead hnesting hleft hclosed hright =>
          refine .pending left hahead hnesting hleft hclosed fun hpos => ?_
          exact .lastOperator (Cursor.hasPassed_ne
            (Cursor.hasPassed_some hclose) (by decide)) (hright hpos)
  | @operator depth left right e op o cur cur₁ cur₂ ho hop _ hread ih ihlater =>
      cases ih with
      | before left hnesting hleft hright =>
          have hopen : cur₁.hasPassed .rightParen = false :=
            Cursor.hasPassed_ne (Cursor.hasPassed_iff.2 ⟨o, ho, hop⟩) (by decide)
          simp only [Reading.Leaves, hopen, Bool.false_eq_true, if_false] at hleft
          subst hleft
          exact ihlater.of_later hnesting rfl (fun _ => id) (fun _ => id)
            fun _ => .operator ho hop hright
      | pending left hahead => cases (hread.isIdle hahead).1

/-! ### Without the last parenthesis -/

/-- The last token of all, be it passed or not. -/
def Cursor.final (cur : Cursor) : Option Token := cur.ahead.getLast?.or cur.passed

/-- The tokens end with a closing parenthesis. -/
def Cursor.EndsClosed (cur : Cursor) : Prop := ∃ t, cur.final = some t ∧ t.kind = .rightParen

theorem Cursor.Step.final_eq (h : Cursor.Step cur cur₁) : cur₁.final = cur.final := by
  rcases cur with ⟨passed, ahead⟩
  rcases cur₁ with ⟨_, rest⟩
  rcases h with ⟨t, rfl, rfl⟩
  simp only [Cursor.final]
  rw [List.getLast?_cons]
  cases rest.getLast? <;> rfl

/-- Which token is the last does not change on the way. -/
theorem Reads.final_eq (h : Reads r cur cur₁) : cur₁.final = cur.final := by
  rcases h.passes with hpasses | ⟨_, rfl⟩
  · clear h
    induction hpasses with
    | single hstep => exact hstep.final_eq
    | tail _ hstep ih => exact hstep.final_eq.trans ih
  · rfl

/-- What becomes of a reading when the closing parenthesis at the end of the tokens
    is taken away. A reading that comes to an end before it does not notice. One
    that takes it ends with the tokens instead, behind another parenthesis. -/
inductive Retracts (close : Token) (r : Reading) (cur cur₁ : Cursor) : Prop
  | before (cur' : Cursor) (hcur : cur₁ = cur'.followedBy close) (h : Reads r cur cur')
  | taken (q : Token) (hcur : cur₁ = ⟨some close, []⟩) (hq : q.kind = .rightParen)
      (h : Reads r cur ⟨some q, []⟩)

/-- What becomes of a reading becomes of the one that it is the end of. -/
theorem Retracts.of_later {r' : Reading} {cur' : Cursor} (h : Retracts close r' cur' cur₁)
    (hread : ∀ cur₂, Reads r' cur' cur₂ → Reads r cur cur₂) : Retracts close r cur cur₁ := by
  cases h with
  | before cur₂ hcur h => exact .before cur₂ hcur (hread _ h)
  | taken q hcur hq h => exact .taken q hcur hq (hread _ h)

theorem Cursor.EndsClosed.of_final (h : cur.EndsClosed) (hfinal : cur₁.final = cur.final) :
    cur₁.EndsClosed := by
  unfold EndsClosed
  rw [hfinal]
  exact h

theorem Cursor.EndsClosed.tail {passed : Option Token} {t : Token} {rest : List Token}
    (h : Cursor.EndsClosed ⟨passed, t :: rest⟩) : Cursor.EndsClosed ⟨some t, rest⟩ :=
  h.of_final (Cursor.step passed t rest).final_eq

/-- A token other than the last one is there without the last one too. -/
theorem Cursor.followedBy_cons {passed : Option Token} {t : Token} {rest : List Token}
    (h : (⟨passed, t :: rest⟩ : Cursor) = cur.followedBy close) (ht : t.kind ≠ close.kind) :
    ∃ rest', cur = ⟨passed, t :: rest'⟩ ∧
      (⟨some t, rest⟩ : Cursor) = Cursor.followedBy ⟨some t, rest'⟩ close := by
  rcases cur with ⟨passed', _ | ⟨t', rest'⟩⟩
  · simp only [followedBy, List.nil_append, Cursor.mk.injEq, List.cons.injEq] at h
    exact absurd (congrArg Token.kind h.2.1) ht
  · simp only [followedBy, List.cons_append, Cursor.mk.injEq, List.cons.injEq] at h
    rcases h with ⟨rfl, rfl, rfl⟩
    exact ⟨rest', rfl, rfl⟩

theorem Cursor.not_followedBy_nil {passed : Option Token} :
    (⟨passed, []⟩ : Cursor) ≠ cur.followedBy close := by
  intro h
  simp only [followedBy, Cursor.mk.injEq, List.nil_eq, List.append_eq_nil_iff] at h
  exact absurd h.2.2 (List.cons_ne_nil close [])

theorem head?_of_followedBy {p : Token → Prop} (h : ∀ n ∈ (cur.followedBy close).ahead.head?, p n) :
    ∀ n ∈ cur.ahead.head?, p n := by
  rcases cur with ⟨passed, _ | ⟨t, rest⟩⟩
  · exact fun n hn => absurd hn (Option.not_mem_none n)
  · exact h

/-- Every reading is retracted from a closing parenthesis at the end of the tokens,
    if another one stands before it. -/
theorem Reads.retract {full : Cursor} (hclose : close.kind = .rightParen) (h : Reads r full cur₁) :
    ∀ cur, full = cur.followedBy close → cur.EndsClosed → Retracts close r cur cur₁ := by
  induction h with
  | @name depth passed t rest ht hrest =>
      intro cur hfull _
      rcases Cursor.followedBy_cons hfull (by rw [ht, hclose]; decide) with ⟨rest', rfl, hnext⟩
      injection hnext with _ hnext
      subst hnext
      exact .before ⟨some t, rest'⟩ rfl (.name ht (head?_of_followedBy hrest))
  | @call depth passed f l rest args cur₁ hf hl _ ih =>
      intro cur hfull hend
      rcases Cursor.followedBy_cons hfull (by rw [hf, hclose]; decide) with ⟨rest', rfl, hnext⟩
      rcases Cursor.followedBy_cons hnext (by rw [hl, hclose]; decide) with ⟨rest'', heq, hnext'⟩
      injection heq with _ heq
      subst heq
      exact (ih _ hnext' hend.tail.tail).of_later fun _ => .call hf hl
  | @group depth passed l rest e cur₁ hl _ ih =>
      intro cur hfull hend
      rcases Cursor.followedBy_cons hfull (by rw [hl, hclose]; decide) with ⟨rest', rfl, hnext⟩
      exact (ih _ hnext hend.tail).of_later fun _ => .group hl
  | @selected depth passed s rest e full hs _ ih =>
      intro cur hfull hend
      cases ih cur hfull hend with
      | before cur' hcur hterm =>
          rcases Cursor.followedBy_cons hcur (by rw [hs, hclose]; decide) with ⟨rest', rfl, hnext⟩
          exact .before ⟨some s, rest'⟩ hnext (.selected hs hterm)
      | taken q hcur => exact absurd (congrArg Cursor.ahead hcur) (List.cons_ne_nil s rest)
  | @atEnd after depth terms passed =>
      intro cur hfull _
      exact absurd hfull Cursor.not_followedBy_nil
  | @beside after depth terms e v full cur₁ cur₂ _ hs hread ih ihlater =>
      intro cur hfull hend
      cases ih cur hfull hend with
      | before cur' hcur hterm =>
          subst hcur
          exact (ihlater cur' rfl (hend.of_final hterm.final_eq)).of_later
            fun _ => .beside hterm (head?_of_followedBy hs)
      | taken q hcur hq hterm =>
          -- Nothing stands beside a term that took the last token.
          subst hcur
          rcases hread.isIdle rfl with ⟨⟨⟩, rfl⟩
          refine .taken q rfl hq ?_
          exact .beside hterm (fun s hmem => absurd hmem (Option.not_mem_none s)) .atEnd
  | @binding depth value passed t assign rest cur₁ ht ha _ ih =>
      intro cur hfull hend
      rcases Cursor.followedBy_cons hfull (by rw [ht, hclose]; decide) with ⟨rest', rfl, hnext⟩
      rcases Cursor.followedBy_cons hnext (by rw [ha, hclose]; decide) with ⟨rest'', heq, hnext'⟩
      injection heq with _ heq
      subst heq
      exact (ih _ hnext' hend.tail.tail).of_later fun _ => .binding ht ha
  | @fold depth terms left e passed o rest cur₁ ho hleft _ ih =>
      intro cur hfull hend
      rcases Cursor.followedBy_cons hfull (by rw [ho, hclose]; decide) with ⟨rest', rfl, hnext⟩
      exact (ih _ hnext hend.tail).of_later fun _ => .fold ho hleft
  | @stop after depth terms passed t rest ht =>
      intro cur hfull hend
      rcases cur with ⟨passed', _ | ⟨t', rest'⟩⟩
      · -- The operand ended with the parenthesis, and now ends with the tokens.
        simp only [Cursor.followedBy, List.nil_append, Cursor.mk.injEq, List.cons.injEq] at hfull
        rcases hfull with ⟨rfl, rfl, rfl⟩
        rcases hend with ⟨q, hfinal, hq⟩
        change passed = some q at hfinal
        subst hfinal
        exact .taken q rfl hq .atEnd
      · simp only [Cursor.followedBy, List.cons_append, Cursor.mk.injEq, List.cons.injEq] at hfull
        rcases hfull with ⟨rfl, rfl, rfl⟩
        exact .before ⟨some t, rest'⟩ rfl (.stop ht)
  | @lastArgument depth args e full cur₁ hclosed _ ih =>
      intro cur hfull hend
      cases ih cur hfull hend with
      | before cur' hcur harg =>
          subst hcur
          exact .before cur' rfl (.lastArgument hclosed harg)
      | taken q hcur hq harg =>
          -- The call finds the other parenthesis in the place of its own.
          exact .taken q hcur hq (.lastArgument (Cursor.hasPassed_some hq) harg)
  | @argument depth args es e full cur₁ cur₂ hcomma _ _ ih ihlater =>
      intro cur hfull hend
      cases ih cur hfull hend with
      | before cur' hcur harg =>
          subst hcur
          exact (ihlater cur' rfl (hend.of_final harg.final_eq)).of_later
            fun _ => .argument hcomma harg
      | taken q hcur =>
          -- The argument ended with a comma, and not with the parenthesis.
          subst hcur
          rcases Cursor.hasPassed_iff.1 hcomma with ⟨t, ht, hk⟩
          rw [← Option.some.inj ht, hclose] at hk
          exact absurd hk (by decide)
  | @lastOperator depth left right op full cur₁ hop _ ih =>
      intro cur hfull hend
      cases ih cur hfull hend with
      | before cur' hcur hright =>
          subst hcur
          exact .before cur' rfl (.lastOperator hop hright)
      | taken q hcur hq hright =>
          refine .taken q hcur hq (.lastOperator ?_ hright)
          exact Cursor.hasPassed_ne (Cursor.hasPassed_some hq) (by decide)
  | @operator depth left right e op o full cur₁ cur₂ ho hop _ _ ih ihlater =>
      intro cur hfull hend
      cases ih cur hfull hend with
      | before cur' hcur hright =>
          subst hcur
          exact (ihlater cur' rfl (hend.of_final hright.final_eq)).of_later
            fun _ => .operator ho hop hright
      | taken q hcur =>
          subst hcur
          rw [← Option.some.inj ho, hclose] at hop
          exact absurd hop (by decide)

/-! ### Statements -/

variable {es : List Expr} {v : Option Expr} {tokens : List Token} {tree : Option Expr}

theorem StatementsRead.of_operand (h : Reads (.operand false 0 [] v) cur cur₁)
    (hlater : StatementsRead cur₁ es) : StatementsRead cur (v.toList ++ es) := by
  by_cases hcur : cur.ahead = []
  · rcases h.isIdle hcur with ⟨⟨⟩, rfl⟩
    exact hlater
  · exact .next hcur h hlater

/-- Statements leave some parentheses open. If they leave any, they end with a
    closing one, and they stay the same when another one follows. -/
theorem StatementsRead.extend (hclose : close.kind = .rightParen) (h : StatementsRead cur es) :
    ∃ left, nesting 0 cur.ahead = some left ∧
      (0 < left → cur.EndsClosed ∧ StatementsRead (cur.followedBy close) es) := by
  induction h with
  | done => exact ⟨0, rfl, fun hpos => absurd hpos (Nat.lt_irrefl 0)⟩
  | @next es v cur cur₁ hcur h hlater ih =>
      cases h.extend hclose with
      | before left hnesting hleft hread =>
          -- Outside of parentheses a token that ends an operand leaves none open.
          have hzero : left = 0 := by
            simp only [Reading.Leaves, Nat.succ_ne_zero] at hleft
            split at hleft
            · exact hleft.elim
            · exact hleft
          subst hzero
          rcases ih with ⟨left', hnesting', hextend⟩
          refine ⟨left', hnesting.trans hnesting', fun hpos => ?_⟩
          rcases hextend hpos with ⟨hend, hlater'⟩
          exact ⟨hend.of_final h.final_eq.symm, .of_operand hread hlater'⟩
      | pending left hahead hnesting hleft hclosed hread =>
          refine ⟨left, hnesting, fun hpos => ?_⟩
          rcases cur₁ with ⟨passed, ahead⟩
          change ahead = [] at hahead
          subst hahead
          rw [statementsRead_nil_iff] at hlater
          subst hlater
          have hend : Cursor.EndsClosed ⟨passed, []⟩ := Cursor.hasPassed_iff.1 (hclosed hpos)
          exact ⟨hend.of_final h.final_eq.symm, .of_operand (hread hpos) .done⟩

/-- Statements stay the same without a closing parenthesis at the end, if another
    one stands before it. -/
theorem StatementsRead.retract {full : Cursor} (hclose : close.kind = .rightParen)
    (h : StatementsRead full es) :
    ∀ cur, full = cur.followedBy close → cur.EndsClosed → StatementsRead cur es := by
  induction h with
  | done =>
      intro cur hfull _
      exact absurd hfull Cursor.not_followedBy_nil
  | @next es v full cur₁ _ h hlater ih =>
      intro cur hfull hend
      cases h.retract hclose cur hfull hend with
      | before cur' hcur hread =>
          exact .of_operand hread (ih cur' hcur (hend.of_final hread.final_eq))
      | taken q hcur _ hread =>
          subst hcur
          rw [statementsRead_nil_iff] at hlater
          subst hlater
          exact .of_operand hread .done

/-! ### Token lists -/

/-- The last token is a closing parenthesis. -/
def EndsClosed (tokens : List Token) : Prop := ∃ t, tokens.getLast? = some t ∧ t.kind = .rightParen

/-- A closing parenthesis. -/
def closing : Token := ⟨.rightParen, ")"⟩

theorem endsClosed_iff (tokens : List Token) :
    Cursor.EndsClosed ⟨none, tokens⟩ ↔ EndsClosed tokens := by
  simp only [Cursor.EndsClosed, Cursor.final, EndsClosed, Option.or_none]

/-- What is parsed leaves some parentheses open. If it leaves any, it ends with a
    closing one, and it is parsed as the same tree when another one follows. -/
theorem parseTokens_extend (h : parseTokens tokens = .ok tree) :
    ∃ left, nesting 0 tokens = some left ∧
      (0 < left → EndsClosed tokens ∧ parseTokens (tokens ++ [closing]) = .ok tree) := by
  rcases (parseTokens_eq_ok_iff tokens tree).1 h with ⟨es, hread, htree⟩
  rcases hread.extend (rfl : closing.kind = .rightParen) with ⟨left, hnesting, hextend⟩
  refine ⟨left, hnesting, fun hpos => ?_⟩
  rcases hextend hpos with ⟨hend, hlater⟩
  exact ⟨(endsClosed_iff tokens).1 hend,
    (parseTokens_eq_ok_iff (tokens ++ [closing]) tree).2 ⟨es, hlater, htree⟩⟩

/-- What is parsed with a closing parenthesis at the end is parsed as the same tree
    without it, if another one stands before it. -/
theorem parseTokens_retract (h : parseTokens (tokens ++ [closing]) = .ok tree)
    (hend : EndsClosed tokens) : parseTokens tokens = .ok tree := by
  rcases (parseTokens_eq_ok_iff (tokens ++ [closing]) tree).1 h with ⟨es, hread, htree⟩
  refine (parseTokens_eq_ok_iff tokens tree).2 ⟨es, ?_, htree⟩
  exact hread.retract (rfl : closing.kind = .rightParen) ⟨none, tokens⟩ rfl
    ((endsClosed_iff tokens).2 hend)

/-- What is parsed is balanced once the parentheses that it leaves open are closed
    at its end, and is then parsed as the same tree. -/
theorem parseTokens_completed (left : Nat) (h : parseTokens tokens = .ok tree)
    (hnesting : nesting 0 tokens = some left) :
    Balanced (tokens ++ List.replicate left closing) ∧
      parseTokens (tokens ++ List.replicate left closing) = .ok tree := by
  induction left generalizing tokens with
  | zero =>
      rw [List.replicate_zero, List.append_nil]
      exact ⟨(balanced_iff_nesting tokens).2 hnesting, h⟩
  | succ left ih =>
      rcases parseTokens_extend h with ⟨left', hnesting', hextend⟩
      -- One parenthesis more leaves one less open, and the tree is the same.
      have hleft : left' = left + 1 := Option.some.inj (hnesting'.symm.trans hnesting)
      have hone : nesting 0 (tokens ++ [closing]) = some left := by
        rw [nesting_append, hnesting]
        rfl
      have hcompleted := ih (hextend (by omega)).2 hone
      rw [List.append_assoc, List.singleton_append, ← List.replicate_succ] at hcompleted
      exact hcompleted

theorem endsClosed_append_replicate (hend : EndsClosed tokens) (n : Nat) :
    EndsClosed (tokens ++ List.replicate n closing) := by
  cases n with
  | zero =>
      rw [List.replicate_zero, List.append_nil]
      exact hend
  | succ n =>
      rw [List.replicate_succ', ← List.append_assoc]
      exact ⟨closing, List.getLast?_concat, rfl⟩

/-- What is parsed once parentheses are closed at its end is parsed without these,
    if it ends with a closing one itself. -/
theorem parseTokens_of_completed (missing : Nat) (hend : EndsClosed tokens)
    (h : parseTokens (tokens ++ List.replicate missing closing) = .ok tree) :
    parseTokens tokens = .ok tree := by
  induction missing with
  | zero =>
      rw [List.replicate_zero, List.append_nil] at h
      exact h
  | succ n ih =>
      rw [List.replicate_succ', ← List.append_assoc] at h
      exact ih (parseTokens_retract h (endsClosed_append_replicate hend n))

/-- A token list is parsed as a tree if and only if it is balanced, possibly after
    closing parentheses have been added at its end, and is parsed as that tree with
    them; where some have to be added, it must end with a closing one already. -/
theorem parseTokens_eq_ok_iff_completed (tokens : List Token) (tree : Option Expr) :
    parseTokens tokens = .ok tree ↔
      ∃ missing, Balanced (tokens ++ List.replicate missing closing) ∧
        parseTokens (tokens ++ List.replicate missing closing) = .ok tree ∧
        (missing = 0 ∨ EndsClosed tokens) := by
  constructor
  · intro h
    rcases parseTokens_extend h with ⟨left, hnesting, hextend⟩
    rcases parseTokens_completed left h hnesting with ⟨hbalanced, hcompleted⟩
    refine ⟨left, hbalanced, hcompleted, ?_⟩
    rcases Nat.eq_zero_or_pos left with hzero | hpos
    · exact Or.inl hzero
    · exact Or.inr (hextend hpos).1
  · rintro ⟨missing, _, hcompleted, rfl | hend⟩
    · rw [List.replicate_zero, List.append_nil] at hcompleted
      exact hcompleted
    · exact parseTokens_of_completed missing hend hcompleted

/-- Nothing can be closed at the end of a balanced list. -/
theorem Balanced.eq_zero_of_append {missing : Nat} (h : Balanced tokens)
    (hmissing : Balanced (tokens ++ List.replicate missing closing)) : missing = 0 := by
  rw [balanced_iff_nesting] at h hmissing
  rw [nesting_append, h] at hmissing
  cases missing with
  | zero => rfl
  | succ n => exact absurd hmissing (Option.some_ne_none 0).symm

/-- A token list that is not balanced is parsed as a tree if and only if it ends
    with a closing parenthesis, and closing what is open makes it a balanced list
    that is parsed as that tree. So what is parsed never closes too much, and an
    open parenthesis goes unnoticed where a closing one comes last. -/
theorem parseTokens_unbalanced_iff (tokens : List Token) (tree : Option Expr) :
    (parseTokens tokens = .ok tree ∧ ¬ Balanced tokens) ↔
      EndsClosed tokens ∧ ∃ missing, 0 < missing ∧
        Balanced (tokens ++ List.replicate missing closing) ∧
        parseTokens (tokens ++ List.replicate missing closing) = .ok tree := by
  constructor
  · rintro ⟨h, hunbalanced⟩
    rcases (parseTokens_eq_ok_iff_completed tokens tree).1 h with
      ⟨missing, hbalanced, hcompleted, hend⟩
    have hmissing : missing ≠ 0 := by
      rintro rfl
      rw [List.replicate_zero, List.append_nil] at hbalanced
      exact hunbalanced hbalanced
    exact ⟨hend.resolve_left hmissing, missing, Nat.pos_of_ne_zero hmissing, hbalanced, hcompleted⟩
  · rintro ⟨hend, missing, hpos, hbalanced, hcompleted⟩
    refine ⟨(parseTokens_eq_ok_iff_completed tokens tree).2
      ⟨missing, hbalanced, hcompleted, Or.inr hend⟩, fun h => ?_⟩
    exact absurd (h.eq_zero_of_append hbalanced) (Nat.ne_of_gt hpos)

/-- `f(g(a)`, in which the parenthesis of the outer call stays open. -/
def unclosedCall : List Token :=
  [⟨.func, "f"⟩, ⟨.leftParen, "("⟩, ⟨.func, "g"⟩, ⟨.leftParen, "("⟩, ⟨.package, "a"⟩,
    ⟨.rightParen, ")"⟩]

/-- An open parenthesis goes unnoticed where the tokens end with a closing one. -/
theorem parseTokens_unclosedCall :
    parseTokens unclosedCall = .ok (some (.call "f" [.call "g" [.package "a"]])) ∧
      ¬ Balanced unclosedCall := by
  refine ⟨rfl, fun h => ?_⟩
  exact absurd ((balanced_iff_nesting unclosedCall).1 h) (by decide)

end PackageAlgebra
