import PackageAlgebra.Proofs.Query.Ambiguity

/-!
# Assignments in Queries

Where the parser lets a name be bound.

An assignment is meant to be a statement. The parser looks only at what it has read of the operand
so far, and the argument of a call, the inside of a group and the value of an assignment are
operands as a statement is one. So a name may be bound at the beginning of any of them, and at no
other place. `strays` counts the names in a token list that are bound elsewhere than at a kind of
place, going along the list with the knowledge whether the place is here.

Inside of a statement every bound name is astray from the beginnings of statements, and each makes
one assignment of the tree; this is one induction over readings, which keeps the two counts equal.
It gives one half: where names are bound at the beginnings of statements only, all assignments of
the tree are statements. The other half has an exception. Parentheses around a whole statement
leave no trace in the tree, so a statement that is an assignment may have been read from a group,
and the names before which only such parentheses stand are left aside.

An assignment inside of an expression is what a printed form may hide, so queries whose assignments
are statements are known from their printed forms.

## Main definitions

* `Expr.bindings`, `innerBindings`: How many assignments an expression holds.
* `Expr.BindsStatements`: Each assignment of a query is one of its statements.
* `Place`: Where a name may be bound.
* `strays`: How many names are bound elsewhere.

## Theorems

* `Reads.strays_add_given`: The assignments of a tree are those of its text.
* `StatementsRead.strays_operand`: Names are bound at the beginnings of operands.
* `StatementsRead.innerBindings_eq_zero`: What is bound at the beginnings of statements is bound by
  statements.
* `StatementsRead.strays_group`: What is bound by statements is bound at their beginnings, but for
  parentheses.
* `Expr.BindsStatements.shown_eq`: The printed form hides nothing then.
* `QueryText.parse_places_assignments`: Where an accepted text has its assignments.
-/

namespace PackageAlgebra

namespace Expr

mutual

/-- How many assignments an expression holds. -/
def bindings : Expr → Nat
  | package _ => 0
  | sequence statements => bindingsAll statements
  | assign _ value => bindings value + 1
  | select operand _ => bindings operand
  | call _ args => bindingsAll args
  | absent => 0

/-- How many assignments the expressions of a list hold. -/
def bindingsAll : List Expr → Nat
  | [] => 0
  | e :: rest => bindings e + bindingsAll rest

end

/-- How many assignments an expression holds below itself. -/
def innerBindings : Expr → Nat
  | assign _ value => value.bindings
  | e => e.bindings

/-- The statements of a query. -/
def statements : Expr → List Expr
  | sequence statements => statements
  | e => [e]

/-- Each assignment of a query is one of its statements. -/
def BindsStatements (tree : Expr) : Prop := ∀ s ∈ tree.statements, s.innerBindings = 0

theorem bindingsAll_append (es fs : List Expr) :
    bindingsAll (es ++ fs) = bindingsAll es + bindingsAll fs := by
  induction es with
  | nil => exact (Nat.zero_add _).symm
  | cons e rest ih => rw [List.cons_append, bindingsAll, bindingsAll, ih, Nat.add_assoc]

theorem bindingsAll_singleton (e : Expr) : bindingsAll [e] = e.bindings := rfl

theorem bindingsAll_juxtapose (terms : List Expr) :
    bindingsAll (juxtapose terms).toList = bindingsAll terms := by
  rcases terms with _ | ⟨e, _ | ⟨f, rest⟩⟩ <;> rfl

theorem innerBindings_le (e : Expr) : e.innerBindings ≤ e.bindings := by
  cases e with
  | assign name value => exact Nat.le_succ value.bindings
  | package | sequence | select | call | absent => exact Nat.le_refl _

end Expr

open PackageAlgebra.Expr

/-! ### Names with an assignment behind them -/

/-- Where a name with an assignment behind it may stand. -/
inductive Place
  -- At the beginning of a statement.
  | statement
  -- At the beginning of a statement, parentheses before it left aside.
  | group
  -- At the beginning of what stands between two separators.
  | operand
  deriving DecidableEq

/-- Whether the place is behind a token, and whether it was before it. -/
def Place.isBehind (p : Place) (here : Bool) : TokenKind → Bool
  | .semicolon => true
  | .leftParen => p = .operand || p = .group && here
  | .comma | .assign => p = .operand
  | .package | .op | .selector | .func | .rightParen => false

/-- Whether a token is a name with an assignment behind it. -/
def Token.isBound (t : Token) (rest : List Token) : Bool :=
  t.kind = .package && rest.head?.any fun next => next.kind = .assign

/-- How many names with an assignment behind them stand elsewhere than at a place, where the first
    token may be at the place or not. -/
def strays (p : Place) (here : Bool) : List Token → Nat
  | [] => 0
  | t :: rest =>
    (if t.isBound rest && !here then 1 else 0) + strays p (p.isBehind here t.kind) rest

variable {p : Place} {here here' after : Bool} {depth : Nat} {t : Token} {rest tokens : List Token}
  {e : Expr} {es terms args : List Expr} {v : Option Expr} {r : Reading} {cur cur₁ : Cursor}

theorem Stops.kind_ne_package (ht : Stops after depth t) : t.kind ≠ .package := by
  rcases ht with ⟨hk, _⟩ | ⟨hk | hk, _⟩ | ⟨hk, _⟩ <;> rw [hk] <;> decide

theorem strays_unbound (ht : t.isBound rest = false) :
    strays p here (t :: rest) = strays p (p.isBehind here t.kind) rest := by
  rw [strays, ht, Bool.false_and, if_neg Bool.false_ne_true, Nat.zero_add]

theorem isBound_of_kind (ht : t.kind ≠ .package) : t.isBound rest = false := by
  simp [Token.isBound, ht]

/-- A token that is no name is nowhere astray. -/
theorem strays_of_kind {kind : TokenKind} (ht : t.kind = kind) (hkind : kind ≠ .package) :
    strays p here (t :: rest) = strays p (p.isBehind here kind) rest := by
  subst ht
  exact strays_unbound (isBound_of_kind hkind)

/-- A name with an assignment behind it, and what follows the two. -/
theorem strays_bound {a : Token} (ht : t.kind = .package) (ha : a.kind = .assign) :
    strays p here (t :: a :: rest) = (if here then 0 else 1) + strays p (p = .operand) rest := by
  have hbound : t.isBound (a :: rest) = true := by simp [Token.isBound, ht, ha]
  rw [strays, hbound, ht, strays_of_kind ha (by decide)]
  cases here <;> rfl

theorem isBound_of_rest (hrest : ∀ n ∈ rest.head?, n.kind ≠ .assign) : t.isBound rest = false := by
  cases rest with
  | nil => simp [Token.isBound]
  | cons n rest => simp [Token.isBound, hrest n rfl]

/-- A name without an assignment behind it. -/
theorem strays_name (ht : t.kind = .package) (hrest : ∀ n ∈ rest.head?, n.kind ≠ .assign) :
    strays p here (t :: rest) = strays p false rest := by
  rw [strays_unbound (isBound_of_rest hrest), ht]
  rfl

/-- Whether the token just passed leads to the place. -/
def Cursor.isAt (p : Place) (cur : Cursor) : Bool :=
  cur.passed.any fun t => p.isBehind false t.kind

theorem Cursor.isAt_eq {kind : TokenKind} (h : cur.hasPassed kind = true) :
    cur.isAt p = p.isBehind false kind := by
  rcases Cursor.hasPassed_iff.1 h with ⟨t, ht, rfl⟩
  rw [isAt, ht]
  rfl

/-- Whether what is behind a reading is at the place. A term has other terms behind it. -/
def Reading.endsAt (p : Place) (cur : Cursor) : Reading → Bool
  | term _ _ | arguments _ _ _ => false
  | operand _ _ _ _ | operators _ _ _ _ => cur.isAt p

theorem Reading.endsAt_operand :
    Reading.endsAt p cur (.operand after depth terms v) = cur.isAt p := rfl

/-! ### Assignments in the tree -/

namespace Reading

/-- How many assignments are in what a reading starts with. -/
def given : Reading → Nat
  | term _ _ => 0
  | operand _ _ terms _ => bindingsAll terms
  | arguments _ args _ => bindingsAll args
  | operators _ left _ _ => left.bindings

/-- How many assignments are in the answer of a reading. -/
def held : Reading → Nat
  | term _ e => e.bindings
  | operand _ _ _ v => bindingsAll v.toList
  | arguments _ _ es => bindingsAll es
  | operators _ _ _ e => e.bindings

end Reading

/-- The tree has the assignments of the text: inside of a statement, each name with an assignment
    behind it makes one. -/
theorem Reads.strays_add_given (hp : p ≠ .operand) (h : Reads r cur cur₁) :
    strays p false cur.ahead + r.given = r.held + strays p (r.endsAt p cur₁) cur₁.ahead := by
  have hparen : p.isBehind false .leftParen = false := by simp [Place.isBehind, hp]
  have hcomma : p.isBehind false .comma = false := by simp [Place.isBehind, hp]
  have hassign : decide (p = .operand) = false := decide_eq_false hp
  induction h with
  | name ht hrest =>
      rw [strays_name ht hrest]
      exact Nat.add_comm _ _
  | call hf hl _ ih =>
      rw [strays_of_kind hf (by decide), strays_of_kind hl (by decide)]
      change strays p (p.isBehind false .leftParen) _ + 0 = _
      rw [hparen]
      exact ih
  | group hl _ ih =>
      rw [strays_of_kind hl (by decide), hparen]
      exact ih
  | selected hs _ ih =>
      rw [strays_of_kind hs (by decide)] at ih
      exact ih
  | atEnd =>
      simp only [Reading.given, Reading.held, bindingsAll_juxtapose]
      exact Nat.add_comm _ _
  | beside _ _ _ ih ihlater =>
      simp only [Reading.given, Reading.held, Reading.endsAt, bindingsAll_append,
        bindingsAll_singleton] at ih ihlater ⊢
      omega
  | binding ht ha _ ih =>
      -- The name is one more astray, and the assignment one more in the answer.
      rw [strays_bound ht ha, hassign]
      simp only [Reading.given, Reading.held, Reading.endsAt, Option.toList_some,
        bindingsAll, bindings, Bool.false_eq_true, if_false] at ih ⊢
      omega
  | fold ho hleft _ ih =>
      simp only [Reading.given, Reading.held] at ih ⊢
      rw [strays_of_kind ho (by decide), ← bindingsAll_juxtapose, hleft]
      exact ih
  | stop ht =>
      rw [strays_unbound (isBound_of_kind ht.kind_ne_package)]
      simp only [Reading.given, Reading.held, bindingsAll_juxtapose]
      exact Nat.add_comm _ _
  | lastArgument hclosed _ ih =>
      -- Between arguments and behind them no statement begins.
      simp only [Reading.given, Reading.held, Reading.endsAt, bindingsAll_append,
        bindingsAll_singleton, Option.toList_some, bindingsAll] at ih ⊢
      rw [Cursor.isAt_eq hclosed] at ih
      simp only [Place.isBehind] at ih
      omega
  | argument hpassed _ _ ih ihlater =>
      simp only [Reading.given, Reading.held, Reading.endsAt, bindingsAll_append,
        bindingsAll_singleton, Option.toList_some, bindingsAll] at ih ihlater ⊢
      rw [Cursor.isAt_eq hpassed, hcomma] at ih
      omega
  | lastOperator _ _ ih =>
      simp only [Reading.given, Reading.held, Reading.endsAt, bindingsAll_singleton,
        Option.toList_some, bindingsAll, bindings] at ih ⊢
      omega
  | operator ho hop _ _ ih ihlater =>
      simp only [Reading.given, Reading.held, Reading.endsAt, bindingsAll_singleton,
        Option.toList_some, bindingsAll, bindings] at ih ihlater ⊢
      rw [Cursor.isAt_eq (Cursor.hasPassed_iff.2 ⟨_, ho, hop⟩)] at ih
      simp only [Place.isBehind] at ih
      omega

/-! ### Names at the beginning of operands -/

/-- Whether a reading may begin with a name that something is assigned to, at a place or not. -/
def Reading.BeginsAt (here : Bool) : Reading → Prop
  | term _ _ | operators _ _ _ _ => True
  | operand after _ terms _ => after = false → terms = [] → here = true
  | arguments _ _ _ => here = true

/-- What is read has assignments at the beginning of operands only. -/
theorem Reads.strays_operand (h : Reads r cur cur₁) (hbegins : r.BeginsAt here) :
    strays .operand here cur.ahead = strays .operand (r.endsAt .operand cur₁) cur₁.ahead := by
  induction h generalizing here with
  | name ht hrest => exact strays_name ht hrest
  | call hf hl _ ih =>
      rw [strays_of_kind hf (by decide), strays_of_kind hl (by decide)]
      exact ih rfl
  | group hl _ ih =>
      rw [strays_of_kind hl (by decide)]
      exact ih rfl
  | selected hs _ ih =>
      rw [ih trivial]
      exact strays_of_kind hs (by decide)
  | atEnd => rfl
  | beside _ _ _ ih ihlater =>
      -- Behind a term no name may be bound, wherever that is.
      rw [ih trivial]
      exact ihlater fun _ hterms => absurd hterms (by simp)
  | binding ht ha _ ih =>
      rw [hbegins rfl rfl, strays_bound ht ha]
      exact (Nat.zero_add _).trans (ih fun _ _ => rfl)
  | fold ho _ _ ih =>
      rw [strays_of_kind ho (by decide)]
      exact ih trivial
  | stop ht =>
      rw [strays_unbound (isBound_of_kind ht.kind_ne_package)]
      rfl
  | lastArgument hclosed _ ih =>
      rw [ih fun _ _ => hbegins, Reading.endsAt_operand, Cursor.isAt_eq hclosed]
      rfl
  | argument hcomma _ _ ih ihlater =>
      rw [ih fun _ _ => hbegins, Reading.endsAt_operand, Cursor.isAt_eq hcomma]
      exact ihlater rfl
  | lastOperator _ _ ih => exact ih nofun
  | operator ho hop _ _ ih ihlater =>
      rw [ih nofun, Reading.endsAt_operand, Cursor.isAt_eq (Cursor.hasPassed_iff.2 ⟨_, ho, hop⟩)]
      exact ihlater trivial

/-! ### Statements -/

/-- Where a reading ends outside of parentheses. -/
def Reading.EndsOutside (cur : Cursor) : Reading → Prop
  | .term _ _ | .arguments _ _ _ => True
  | .operand after depth _ _ => depth = 0 →
    cur.ahead = [] ∨ cur.hasPassed .semicolon = true ∨ after = true ∧ cur.hasPassed .op = true
  | .operators depth _ _ _ => depth = 0 → cur.ahead = [] ∨ cur.hasPassed .semicolon = true

theorem Reads.endsOutside (h : Reads r cur cur₁) : r.EndsOutside cur₁ := by
  induction h with
  | name | call | group | selected | lastArgument | argument => trivial
  | atEnd => exact fun _ => Or.inl rfl
  | beside _ _ _ _ ih => exact ih
  | binding _ _ _ ih => exact ih
  | fold _ _ _ ih => exact fun hdepth => (ih hdepth).imp_right Or.inl
  | stop ht =>
      intro hdepth
      rcases ht with ⟨hk, hafter⟩ | ⟨_, hpos⟩ | ⟨hk, _⟩
      · exact Or.inr (Or.inr ⟨hafter, Cursor.hasPassed_some hk⟩)
      · omega
      · exact Or.inr (Or.inl (Cursor.hasPassed_some hk))
  | lastOperator hend _ ih =>
      intro hdepth
      rcases ih hdepth with hahead | hsemicolon | ⟨_, hop⟩
      · exact Or.inl hahead
      · exact Or.inr hsemicolon
      · rw [hend] at hop
        exact absurd hop Bool.false_ne_true
  | operator _ _ _ _ _ ihlater => exact ihlater

/-- Behind an operand that stands outside of parentheses, a statement begins. -/
theorem Reads.strays_behind (h : Reads (.operand false 0 terms v) cur cur₁) :
    strays p (cur₁.isAt p) cur₁.ahead = strays p true cur₁.ahead := by
  rcases h.endsOutside rfl with hahead | hsemicolon | ⟨hafter, _⟩
  · rw [hahead]
    rfl
  · rw [Cursor.isAt_eq hsemicolon]
    rfl
  · exact absurd hafter Bool.false_ne_true

theorem StatementsRead.strays_operand (h : StatementsRead cur es) :
    strays .operand true cur.ahead = 0 := by
  induction h with
  | done => rfl
  | next _ h _ ih =>
      rw [h.strays_operand fun _ _ => rfl]
      exact h.strays_behind.trans ih

/-! ### Statements that bind nothing inside -/

/-- Nothing is assigned to the first token, if it is a name. -/
def BeginsUnbound (tokens : List Token) : Prop :=
  ∀ t rest, tokens = t :: rest → t.isBound rest = false

theorem beginsUnbound_cons (ht : t.isBound rest = false) : BeginsUnbound (t :: rest) := by
  intro u us heq
  rw [List.cons.injEq] at heq
  rw [← heq.1, ← heq.2]
  exact ht

theorem Reads.beginsUnbound (h : Reads r cur cur₁) (hr : ∃ depth e, r = .term depth e) :
    BeginsUnbound cur.ahead := by
  induction h with
  | name _ hrest => exact beginsUnbound_cons (isBound_of_rest hrest)
  | call hf => exact beginsUnbound_cons (isBound_of_kind (by rw [hf]; decide))
  | group hl => exact beginsUnbound_cons (isBound_of_kind (by rw [hl]; decide))
  | selected _ _ ih => exact ih ⟨_, _, rfl⟩
  | _ =>
      rcases hr with ⟨depth, e, hr⟩
      cases hr

/-- An operand is an assignment, or it begins with no name that something is assigned to. -/
theorem Reads.binding_or_beginsUnbound (h : Reads (.operand after depth [] v) cur cur₁) :
    (∃ (t a : Token) (rest : List Token) (value : Expr), t.kind = .package ∧ a.kind = .assign ∧
      cur.ahead = t :: a :: rest ∧ v = some (.assign t.text value) ∧
        Reads (.operand false depth [] (some value)) ⟨some a, rest⟩ cur₁) ∨
      BeginsUnbound cur.ahead := by
  cases h with
  | binding ht ha h => exact Or.inl ⟨_, _, _, _, ht, ha, rfl, rfl, h⟩
  | beside h => exact Or.inr (h.beginsUnbound ⟨_, _, rfl⟩)
  | fold ho => exact Or.inr (beginsUnbound_cons (isBound_of_kind (by rw [ho]; decide)))
  | stop ht => exact Or.inr (beginsUnbound_cons (isBound_of_kind ht.kind_ne_package))
  | atEnd => exact Or.inr nofun

/-- Inside of parentheses there is no statement, so only the first token counts. -/
theorem strays_statement_true (h : BeginsUnbound tokens) :
    strays .statement true tokens = strays .statement false tokens := by
  cases tokens with
  | nil => rfl
  | cons t rest =>
      have hbehind : Place.isBehind .statement true t.kind =
          Place.isBehind .statement false t.kind := by
        cases t.kind <;> rfl
      rw [strays_unbound (h t rest rfl), strays_unbound (h t rest rfl), hbehind]

theorem Reads.innerBindings_eq_zero (h : Reads (.operand false depth [] v) cur cur₁)
    (hnone : strays .statement true cur.ahead = 0) :
    (∀ e ∈ v, e.innerBindings = 0) ∧ strays .statement (cur₁.isAt .statement) cur₁.ahead = 0 := by
  have hp : Place.statement ≠ .operand := by decide
  rcases h.binding_or_beginsUnbound with ⟨t, a, rest, value, ht, ha, hahead, rfl, hvalue⟩ | hbegins
  · rw [hahead, strays_bound ht ha, if_pos rfl] at hnone
    have hcount := hvalue.strays_add_given hp
    simp only [Reading.given, Reading.held, Reading.endsAt_operand, Option.toList_some,
      bindingsAll, hp, decide_false] at hcount hnone
    refine ⟨fun e he => ?_, by omega⟩
    rw [← Option.mem_some.1 he, innerBindings]
    omega
  · rw [strays_statement_true hbegins] at hnone
    have hcount := h.strays_add_given hp
    simp only [Reading.given, Reading.held, Reading.endsAt_operand, bindingsAll] at hcount
    refine ⟨fun e he => ?_, by omega⟩
    have hle := e.innerBindings_le
    rw [Option.mem_def] at he
    rw [he, Option.toList_some, bindingsAll_singleton] at hcount
    omega

theorem StatementsRead.innerBindings_eq_zero (h : StatementsRead cur es)
    (hnone : strays .statement true cur.ahead = 0) : ∀ e ∈ es, e.innerBindings = 0 := by
  induction h with
  | done => exact fun e he => absurd he List.not_mem_nil
  | next _ h _ ih =>
      have hfirst := h.innerBindings_eq_zero hnone
      rw [h.strays_behind] at hfirst
      exact List.forall_mem_append.2 ⟨fun e he => hfirst.1 e (Option.mem_toList.1 he), ih hfirst.2⟩

/-! ### Groups around a statement -/

theorem Place.isBehind_mono (hhere : here = true → here' = true) (kind : TokenKind) :
    p.isBehind here kind = true → p.isBehind here' kind = true := by
  cases kind with
  | leftParen =>
      simp only [isBehind, Bool.or_eq_true, Bool.and_eq_true]
      exact Or.imp_right (And.imp_right hhere)
  | package | op | comma | selector | func | rightParen | semicolon | assign => exact id

/-- At the place, fewer names are astray. -/
theorem strays_le (hhere : here = true → here' = true) (tokens : List Token) :
    strays p here' tokens ≤ strays p here tokens := by
  induction tokens generalizing here here' with
  | nil => exact Nat.le_refl 0
  | cons t rest ih =>
      have hrest := ih (Place.isBehind_mono (p := p) hhere t.kind)
      have hfirst : (t.isBound rest && !here') = true → (t.isBound rest && !here) = true := by
        cases here with
        | false => cases t.isBound rest <;> simp
        | true => simp [hhere rfl]
      rw [strays, strays]
      split
      · next h => rw [if_pos (hfirst h)]; omega
      · omega

/-- An assignment whose value holds none. -/
def Expr.IsBinding (e : Expr) : Prop := ∃ name value, e = assign name value ∧ value.bindings = 0

theorem Expr.not_isBinding_call (func : String) (args : List Expr) :
    ¬ (Expr.call func args).IsBinding := by
  rintro ⟨name, value, heq, _⟩
  cases heq

theorem juxtapose_eq (hv : v = juxtapose terms) : ∀ e ∈ v, e.IsBinding → terms = [e] := by
  intro e he hbinding
  rw [hv] at he
  rcases terms with _ | ⟨t, _ | ⟨u, rest⟩⟩
  · cases he
  · cases he
    rfl
  · cases he
    exact absurd hbinding (Expr.not_isBinding_call _ _)

/-- An assignment is not made of several terms, and nothing but a single argument is made of one
    argument. -/
def Reading.Grows : Reading → Prop
  | term _ _ => True
  | operand _ _ terms v => terms ≠ [] → ∀ e ∈ v, e.IsBinding → terms = [e]
  | arguments _ args es => args.length < es.length
  | operators _ _ _ e => ¬ e.IsBinding

theorem Reads.grows (h : Reads r cur cur₁) : r.Grows := by
  induction h with
  | name | call | group | selected => trivial
  | atEnd | stop => exact fun _ => juxtapose_eq rfl
  | beside _ _ _ _ ih =>
      intro hterms e he hbinding
      have hone := ih (by simp) e he hbinding
      exact absurd (List.append_eq_singleton_iff.1 hone) (by simp [hterms])
  | binding => exact fun hterms => absurd rfl hterms
  | fold _ _ _ ih =>
      intro _ e he hbinding
      rw [← Option.mem_some.1 he] at hbinding
      exact absurd hbinding ih
  | lastArgument => simp [Reading.Grows]
  | argument _ _ _ _ ih =>
      simp only [Reading.Grows, List.length_append, List.length_singleton] at ih ⊢
      omega
  | lastOperator => exact Expr.not_isBinding_call _ _
  | operator _ _ _ _ _ ih => exact ih

/-- Where an assignment is read, its name stands at the beginning, parentheses left aside. -/
def Reading.Binds (cur cur₁ : Cursor) : Reading → Prop
  | term _ e => e.IsBinding → strays .group true cur.ahead ≤ strays .group false cur₁.ahead
  | operand _ _ terms v => terms = [] → (∃ e ∈ v, e.IsBinding) →
    strays .group true cur.ahead ≤ strays .group (cur₁.isAt .group) cur₁.ahead
  | arguments _ args es => args = [] → (∃ e, es = [e] ∧ e.IsBinding) →
    strays .group true cur.ahead ≤ strays .group false cur₁.ahead
  | operators _ _ _ _ => True

theorem Reads.binds (h : Reads r cur cur₁) : r.Binds cur cur₁ := by
  have hp : Place.group ≠ .operand := by decide
  induction h with
  | name =>
      rintro ⟨name, value, heq, _⟩
      cases heq
  | call => exact fun hbinding => absurd hbinding (Expr.not_isBinding_call _ _)
  | group hl _ ih =>
      intro hbinding
      rw [strays_of_kind hl (by decide)]
      exact ih rfl ⟨_, rfl, hbinding⟩
  | selected =>
      rintro ⟨name, value, heq, _⟩
      cases heq
  | atEnd | stop =>
      rintro rfl ⟨e, he, hbinding⟩
      cases he
  | @beside after depth terms e v cur cur₁ cur₂ _ _ hlater ih =>
      rintro rfl ⟨f, hf, hbinding⟩
      -- What is read is the first term, and nothing is bound behind it.
      have hsame : [e] = [f] := hlater.grows (List.cons_ne_nil e []) f hf hbinding
      have hcount := hlater.strays_add_given hp
      rw [List.singleton_inj] at hsame
      subst hsame
      rw [Option.mem_def] at hf
      simp only [Reading.given, Reading.held, Reading.endsAt_operand, hf, List.nil_append,
        Option.toList_some] at hcount
      have hterm := ih hbinding
      omega
  | @binding depth value passed t a rest cur ht ha h =>
      rintro _ ⟨f, hf, name, value', heq, hinner⟩
      rw [← Option.mem_some.1 hf, Expr.assign.injEq] at heq
      rw [heq.2] at h
      have hcount := h.strays_add_given hp
      simp only [Reading.given, Reading.held, Reading.endsAt_operand, Option.toList_some,
        bindingsAll] at hcount
      rw [strays_bound ht ha]
      simp only [hp, decide_false, if_true]
      omega
  | fold _ _ h =>
      rintro _ ⟨e, he, hbinding⟩
      rw [← Option.mem_some.1 he] at hbinding
      exact absurd hbinding h.grows
  | @lastArgument depth args e cur cur₁ hclosed _ ih =>
      rintro rfl ⟨f, hf, hbinding⟩
      have hend : cur₁.isAt .group = false := Cursor.isAt_eq hclosed
      rw [List.nil_append, List.singleton_inj] at hf
      rw [← hend]
      exact ih rfl ⟨f, by rw [hf]; rfl, hbinding⟩
  | argument _ _ hlater =>
      rintro rfl ⟨f, hf, _⟩
      have hgrows := hlater.grows
      simp [Reading.Grows, hf] at hgrows
  | lastOperator | operator => trivial

theorem Expr.isBinding_of_innerBindings (hinner : e.innerBindings = 0) (h : e.bindings ≠ 0) :
    e.IsBinding := by
  cases e with
  | assign name value => exact ⟨name, value, rfl, hinner⟩
  | package | sequence | select | call | absent => exact absurd hinner h

theorem Reads.strays_group (h : Reads (.operand false 0 [] v) cur cur₁)
    (hv : ∀ e ∈ v, e.innerBindings = 0) :
    strays .group true cur.ahead ≤ strays .group (cur₁.isAt .group) cur₁.ahead := by
  by_cases hbound : ∃ e ∈ v, e.IsBinding
  · exact h.binds rfl hbound
  · -- Without an assignment in the answer, no name is bound in the text.
    have hnone : bindingsAll v.toList = 0 := by
      cases v with
      | none => rfl
      | some e =>
          refine Decidable.byContradiction fun hne => hbound ⟨e, rfl, ?_⟩
          exact Expr.isBinding_of_innerBindings (hv e rfl) hne
    have hp : Place.group ≠ .operand := by decide
    have hcount := h.strays_add_given hp
    have hle : strays .group true cur.ahead ≤ strays .group false cur.ahead :=
      strays_le (fun hhere => absurd hhere Bool.false_ne_true) cur.ahead
    simp only [Reading.given, Reading.held, Reading.endsAt_operand, hnone, bindingsAll] at hcount
    omega

theorem StatementsRead.strays_group (h : StatementsRead cur es)
    (hes : ∀ e ∈ es, e.innerBindings = 0) : strays .group true cur.ahead = 0 := by
  induction h with
  | done => rfl
  | @next es v cur cur₁ _ h _ ih =>
      rw [List.forall_mem_append] at hes
      have hlater := ih hes.2
      rw [← h.strays_behind] at hlater
      have hfirst := h.strays_group fun e he => hes.1 e (Option.mem_toList.2 he)
      omega

/-! ### Printed forms -/

namespace Expr

theorem selectInside_of_bindings (h : e.bindings = 0) (selector : String) :
    e.selectInside selector = select e selector := by
  cases e with
  | assign => exact absurd h (Nat.succ_ne_zero _)
  | package | sequence | select | call | absent => rfl

mutual

theorem settled_of_bindings : ∀ e : Expr, e.bindings = 0 → e.settled = e
  | package _, _ => rfl
  | sequence statements, h => congrArg sequence (settledAll_of_bindings statements h)
  | assign _ _, h => absurd h (Nat.succ_ne_zero _)
  | select operand selector, h => by
      rw [settled, settled_of_bindings operand h]
      exact selectInside_of_bindings (e := operand) h selector
  | call func args, h => congrArg (call func) (settledAll_of_bindings args h)
  | absent, _ => rfl

theorem settledAll_of_bindings : ∀ es : List Expr, bindingsAll es = 0 → settledAll es = es
  | [], _ => rfl
  | e :: rest, h => by
      have hparts := Nat.add_eq_zero_iff.1 h
      rw [settledAll, settled_of_bindings e hparts.1, settledAll_of_bindings rest hparts.2]

end

mutual

theorem bindings_canonical : ∀ e : Expr, e.canonical.bindings = e.bindings
  | package _ => rfl
  | sequence statements => bindingsAll_canonicalAll statements
  | assign _ value => congrArg (· + 1) (bindings_canonical value)
  | select operand _ => bindings_canonical operand
  | call _ args => bindingsAll_canonicalAll args
  | absent => rfl

theorem bindingsAll_canonicalAll : ∀ es : List Expr, bindingsAll (canonicalAll es) = bindingsAll es
  | [] => rfl
  | e :: rest => congrArg₂ (· + ·) (bindings_canonical e) (bindingsAll_canonicalAll rest)

end

/-- Nothing is hidden where no assignment is inside of an expression. -/
theorem shown_of_innerBindings (h : e.innerBindings = 0) : e.shown = e.canonical := by
  cases e with
  | assign name value =>
      have hvalue : value.canonical.bindings = 0 := (bindings_canonical value).trans h
      exact congrArg (assign name) (settled_of_bindings value.canonical hvalue)
  | package | sequence | select | call | absent =>
      exact settled_of_bindings _ ((bindings_canonical _).trans h)

theorem canonicalAll_eq_map (es : List Expr) : canonicalAll es = es.map canonical := by
  induction es with
  | nil => rfl
  | cons e rest ih => exact congrArg (e.canonical :: ·) ih

theorem BindsStatements.shown_eq {tree : Expr} (h : tree.BindsStatements) :
    tree.shown = tree.canonical := by
  cases tree with
  | sequence ss =>
      have hall : ss.map shown = ss.map canonical :=
        List.map_congr_left fun s hs => shown_of_innerBindings (h s hs)
      rw [shown, canonical, settled, settledAll_canonicalAll, hall, canonicalAll_eq_map]
  | package | assign | select | call | absent =>
      exact shown_of_innerBindings (h _ List.mem_cons_self)

theorem Parsed.statements (h : e.Parsed) : e.statements = [e] := by
  cases h <;> rfl

theorem statements_ofStatements {tree : Expr} (hes : ∀ e ∈ es, e.Parsed)
    (h : ofStatements es = some tree) : tree.statements = es := by
  rcases es with _ | ⟨e, _ | ⟨f, rest⟩⟩
  · cases h
  · cases h
    exact (hes _ List.mem_cons_self).statements
  · cases h
    rfl

end Expr

/-! ### Accepted texts -/

/-- Where assignments stand in an accepted text, and what its printed form shows of them. -/
theorem QueryText.parse_places_assignments {q : QueryText} {tree : Expr}
    (h : q.parse = .ok (some tree)) :
    (∃ tokens, Token.scan (joinWords q.texts) = .ok tokens ∧ strays .operand true tokens = 0 ∧
      (strays .statement true tokens = 0 → tree.BindsStatements) ∧
      (tree.BindsStatements → strays .group true tokens = 0)) ∧
    ∀ {q' : QueryText} {tree' : Expr}, q'.parse = .ok (some tree') →
      (tree.print = tree'.print ↔ tree.shown = tree'.shown) ∧
      (tree.BindsStatements → tree'.BindsStatements → tree.print = tree'.print →
        tree.canonical = tree'.canonical) := by
  rcases QueryText.exists_statements h with ⟨tokens, es, hscan, hread, hes, htree⟩
  have hstatements : tree.statements = es := statements_ofStatements hes htree
  refine ⟨⟨tokens, hscan, hread.strays_operand, fun hnone => ?_, fun hbinds => ?_⟩, ?_⟩
  · intro s hs
    rw [hstatements] at hs
    exact hread.innerBindings_eq_zero hnone s hs
  · refine hread.strays_group fun e he => hbinds e ?_
    rw [hstatements]
    exact he
  · intro q' tree' h'
    rcases QueryText.exists_statements h' with ⟨tokens', es', _, _, hes', htree'⟩
    have hprint := print_eq_iff hes hes' htree htree'
    refine ⟨hprint, fun hbinds hbinds' heq => ?_⟩
    rw [← hbinds.shown_eq, ← hbinds'.shown_eq]
    exact hprint.1 heq

/-- `f(x := a, b); y := c` -/
def argumentTokens : List Token :=
  [⟨.func, "f"⟩, ⟨.leftParen, "("⟩, ⟨.package, "x"⟩, ⟨.assign, ":="⟩, ⟨.package, "a"⟩,
    ⟨.comma, ","⟩, ⟨.package, "b"⟩, ⟨.rightParen, ")"⟩, ⟨.semicolon, ";"⟩, ⟨.package, "y"⟩,
    ⟨.assign, ":="⟩, ⟨.package, "c"⟩]

/-- What it denotes. -/
def argumentTree : Expr :=
  .sequence [.call "f" [.assign "x" (.package "a"), .package "b"], .assign "y" (.package "c")]

theorem QueryText.parse_places_assignments_argument :
    (QueryText.line "f(x := a, b); y := c").parse = .ok (some argumentTree) ∧
      ∃ tokens, Token.scan (joinWords ["f(x := a, b); y := c"]) = .ok tokens ∧
        strays .operand true tokens = 0 := by
  have hscan : Token.scan (joinWords ["f(x := a, b); y := c"]) = .ok argumentTokens := by
    decide +kernel
  have hparse : (QueryText.line "f(x := a, b); y := c").parse = .ok (some argumentTree) :=
    (QueryText.parse_eq_ok_iff _ _).2 ⟨argumentTokens, hscan, rfl⟩
  rcases (QueryText.parse_places_assignments hparse).1 with ⟨tokens, hscan, hstrays, _⟩
  exact ⟨hparse, tokens, hscan, hstrays⟩

/-- `(x := a):all` -/
def selectedGroup : Expr := .select (.assign "x" (.package "a")) "all"

/-- `x := a:all` -/
def boundSelection : Expr := .assign "x" (.select (.package "a") "all")

/-- What is selected from a group of an assignment is printed as the assignment of what is selected
    from its value. -/
theorem QueryText.parse_hides_selection :
    (QueryText.line "(x := a):all").parse = .ok (some selectedGroup) ∧
      (QueryText.line "x := a:all").parse = .ok (some boundSelection) ∧
      ¬ selectedGroup.BindsStatements ∧ selectedGroup.print = boundSelection.print ∧
      selectedGroup.canonical ≠ boundSelection.canonical := by
  have hgroup : Token.scan (joinWords ["(x := a):all"]) = .ok [⟨.leftParen, "("⟩, ⟨.package, "x"⟩,
      ⟨.assign, ":="⟩, ⟨.package, "a"⟩, ⟨.rightParen, ")"⟩, ⟨.selector, "all"⟩] := by decide +kernel
  have hbound : Token.scan (joinWords ["x := a:all"]) = .ok [⟨.package, "x"⟩, ⟨.assign, ":="⟩,
      ⟨.package, "a"⟩, ⟨.selector, "all"⟩] := by decide +kernel
  refine ⟨(QueryText.parse_eq_ok_iff _ _).2 ⟨_, hgroup, rfl⟩,
    (QueryText.parse_eq_ok_iff _ _).2 ⟨_, hbound, rfl⟩, fun hbinds => ?_, by decide, nofun⟩
  exact absurd (hbinds selectedGroup List.mem_cons_self) (by decide)

end PackageAlgebra
