import PackageAlgebra.Proofs.Query.Reading
import PackageAlgebra.Proofs.Query.Spelling

/-!
# Parsed Expressions

What the trees of accepted texts look like.

A tree is put together from the texts of tokens, so it has the names that tokens have: what stands
for a package is the name of one, and so are selectors and functions what their tokens can be. An
operator makes a function of its own text. The only name that no token has is that of a
juxtaposition, which is empty. A call has an argument at least, and there is no sequence below the
statements of a query. An assignment may be anywhere.

The texts of tokens are known from the text that they were cut from, and a reading passes tokens
of its own list only. The induction on readings therefore carries along that the tokens at the
cursor are proper, the one just passed as well, because it may be an operator.

## Main definitions

* `Expr.Parsed`: Expressions as they are read from a text.
* `Cursor.IsProper`: The tokens at a cursor are proper.
* `Reading.Parses`: What is read are such expressions.

## Theorems

* `Reads.parses`, `StatementsRead.parsed`: What is read of proper tokens.
* `QueryText.exists_statements`: The statements of an accepted text.
-/

namespace PackageAlgebra

namespace Expr

/-- Expressions as they are read from a text. -/
inductive Parsed : Expr → Prop
  | package {name : String} (hname : Token.isPackageName name = true) : Parsed (.package name)
  | assign {name : String} {value : Expr} (hname : Token.isPackageName name = true)
      (h : Parsed value) : Parsed (.assign name value)
  | select {operand : Expr} {selector : String} (hselector : Token.isSelectorName selector = true)
      (h : Parsed operand) : Parsed (.select operand selector)
  | call {func : String} {args : List Expr} (hfunc : func ≠ "" → Token.isFunctionName func = true)
      (hargs : args ≠ []) (h : ∀ arg ∈ args, Parsed arg) : Parsed (.call func args)

end Expr

open PackageAlgebra.Expr

/-- The tokens at a cursor are proper. -/
structure Cursor.IsProper (cur : Cursor) : Prop where
  -- The token just passed.
  passed : ∀ t ∈ cur.passed, t.isProper = true
  -- The tokens ahead.
  ahead : ∀ t ∈ cur.ahead, t.isProper = true

variable {r : Reading} {cur cur₁ : Cursor} {es terms : List Expr} {e left right : Expr}
  {v : Option Expr} {op : String} {t : Token}

theorem Cursor.IsProper.step (hcur : cur.IsProper) (h : Cursor.Step cur cur₁) : cur₁.IsProper := by
  rcases h with ⟨t, hahead, hpassed⟩
  have hproper := hcur.ahead
  rw [hahead, List.forall_mem_cons] at hproper
  refine ⟨fun u hu => ?_, hproper.2⟩
  rw [hpassed, Option.mem_some] at hu
  rw [← hu]
  exact hproper.1

theorem Cursor.IsProper.tail {passed : Option Token} {rest : List Token}
    (hcur : Cursor.IsProper ⟨passed, t :: rest⟩) : Cursor.IsProper ⟨some t, rest⟩ :=
  hcur.step (Cursor.step passed t rest)

theorem Reads.isProper (h : Reads r cur cur₁) (hcur : cur.IsProper) : cur₁.IsProper := by
  rcases h.passes with hpasses | ⟨_, rfl⟩
  · clear h
    induction hpasses with
    | single hstep => exact hcur.step hstep
    | tail _ hstep ih => exact ih.step hstep
  · exact hcur

theorem isFunctionName_of_isProper (hkind : t.kind = .op) (ht : t.isProper = true) :
    Token.isFunctionName t.text = true := by
  simp only [Token.isProper, hkind, Bool.or_eq_true, decide_eq_true_eq] at ht
  rcases ht with hop | hop <;> rw [hop] <;> decide

/-- An operator makes a call of its two sides. -/
theorem Expr.Parsed.operator (hop : Token.isFunctionName op = true) (hleft : left.Parsed)
    (hright : right.Parsed) : (Expr.call op [left, right]).Parsed :=
  .call (fun _ => hop) (List.cons_ne_nil left [right])
    (List.forall_mem_cons.2 ⟨hleft, List.forall_mem_singleton.2 hright⟩)

/-- What is read of expressions that are read from a text is one. -/
def Reading.Parses : Reading → Prop
  | term _ e => e.Parsed
  | operand _ _ terms v => (∀ term ∈ terms, term.Parsed) → ∀ e ∈ v, e.Parsed
  | arguments _ args es => (∀ arg ∈ args, arg.Parsed) → es ≠ [] ∧ ∀ e ∈ es, e.Parsed
  | operators _ left op e => left.Parsed → Token.isFunctionName op = true → e.Parsed

theorem Expr.Parsed.juxtapose (hterms : ∀ term ∈ terms, term.Parsed) :
    ∀ e ∈ juxtapose terms, e.Parsed := by
  intro e he
  rcases terms with _ | ⟨t, _ | ⟨u, rest⟩⟩
  · cases he
  · cases he
    exact hterms _ List.mem_cons_self
  · cases he
    exact .call (absurd rfl) (List.cons_ne_nil _ _) hterms

/-- Only expressions of the kind are read of proper tokens. -/
theorem Reads.parses (h : Reads r cur cur₁) (hcur : cur.IsProper) : r.Parses := by
  induction h with
  | @name depth passed t rest ht _ =>
      have hname := hcur.ahead t List.mem_cons_self
      rw [Token.isProper, ht] at hname
      exact .package hname
  | @call depth passed f l rest args cur hf _ _ ih =>
      have hfunc := hcur.ahead f List.mem_cons_self
      rw [Token.isProper, hf] at hfunc
      have hargs := ih hcur.tail.tail (List.forall_mem_nil _)
      exact .call (fun _ => hfunc) hargs.1 hargs.2
  | group _ _ ih =>
      have hargs := ih hcur.tail (List.forall_mem_nil _)
      exact hargs.2 _ List.mem_cons_self
  | @selected depth passed s rest e cur hs h ih =>
      have hselector := (h.isProper hcur).ahead s List.mem_cons_self
      rw [Token.isProper, hs] at hselector
      exact .select hselector (ih hcur)
  | atEnd | stop => exact Parsed.juxtapose
  | beside h _ _ ih ihlater =>
      intro hterms
      refine ihlater (h.isProper hcur) ?_
      exact List.forall_mem_append.2 ⟨hterms, List.forall_mem_singleton.2 (ih hcur)⟩
  | @binding depth value passed t assign rest cur ht _ _ ih =>
      intro _ e he
      have hname := hcur.ahead t List.mem_cons_self
      rw [Token.isProper, ht] at hname
      have hvalue := ih hcur.tail.tail (List.forall_mem_nil _) value rfl
      cases he
      exact .assign hname hvalue
  | @fold depth terms left e passed o rest cur ho hleft _ ih =>
      intro hterms f hf
      have hop := hcur.ahead o List.mem_cons_self
      cases hf
      exact ih hcur.tail (Parsed.juxtapose hterms left hleft) (isFunctionName_of_isProper ho hop)
  | @lastArgument depth args e cur cur₁ _ _ ih =>
      intro hargs
      have harg := ih hcur (List.forall_mem_nil _) e rfl
      refine ⟨by simp, List.forall_mem_append.2 ⟨hargs, List.forall_mem_singleton.2 harg⟩⟩
  | @argument depth args es e cur cur₁ cur₂ _ h _ ih ihlater =>
      intro hargs
      have harg := ih hcur (List.forall_mem_nil _) e rfl
      refine ihlater (h.isProper hcur) ?_
      exact List.forall_mem_append.2 ⟨hargs, List.forall_mem_singleton.2 harg⟩
  | @lastOperator depth left right op cur cur₁ _ _ ih =>
      intro hleft hop
      have hright := ih hcur (List.forall_mem_nil _) right rfl
      exact .operator hop hleft hright
  | @operator depth left right e op o cur cur₁ cur₂ ho hkind h _ ih ihlater =>
      intro hleft hop
      have hright := ih hcur (List.forall_mem_nil _) right rfl
      have hcur₁ := h.isProper hcur
      exact ihlater hcur₁ (.operator hop hleft hright)
        (isFunctionName_of_isProper hkind (hcur₁.passed o ho))

theorem StatementsRead.parsed (h : StatementsRead cur es) (hcur : cur.IsProper) :
    ∀ e ∈ es, e.Parsed := by
  induction h with
  | done => exact fun e he => absurd he List.not_mem_nil
  | next _ h _ ih =>
      have hv := h.parses hcur (List.forall_mem_nil _)
      refine List.forall_mem_append.2 ⟨fun e he => hv e (Option.mem_toList.1 he), ?_⟩
      exact ih (h.isProper hcur)

/-- The statements of an accepted text. -/
theorem QueryText.exists_statements {q : QueryText} {tree : Expr} (h : q.parse = .ok (some tree)) :
    ∃ tokens es, Token.scan (joinWords q.texts) = .ok tokens ∧ StatementsRead ⟨none, tokens⟩ es ∧
      (∀ e ∈ es, e.Parsed) ∧ ofStatements es = some tree := by
  rcases (QueryText.parse_eq_ok_iff q (some tree)).1 h with ⟨tokens, hscan, htree⟩
  rcases (parseTokens_eq_ok_iff tokens (some tree)).1 htree with ⟨es, hread, hes⟩
  have hproper := ((Token.scanFrom_eq_ok_iff 0).1 hscan).forall_isProper
  have hcur : Cursor.IsProper ⟨none, tokens⟩ :=
    ⟨fun t ht => absurd ht (Option.not_mem_none t), hproper⟩
  exact ⟨tokens, es, hscan, hread, hread.parsed hcur, hes⟩

end PackageAlgebra
