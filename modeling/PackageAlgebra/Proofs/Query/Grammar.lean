import PackageAlgebra.Proofs.Query.Reading

/-!
# The Grammar of Queries

The parser reads what the grammar spells, and reads it as what it denotes.

`Spells` is the grammar. Each rule says which tokens spell a phrase and which
expression the phrase denotes, so the order in which things bind is written into
the rules: a selector belongs to the term before it, terms side by side are one
operand before an operator sees them, and the left side of an operator is all
that was spelled before it. The rules know kinds of tokens only. Which character
a parenthesis or a comma was read from is not their business.

The parser does not follow the rules. It takes tokens from the left, and it learns
from the last token why an inner call came back. An induction over the rules
therefore cannot say what the parser does on the tokens of a phrase alone; it says
what the parser does when anything may follow that a phrase of the kind lets
follow. For an expression this is `Resumes`: nothing, a separator, or an operator,
in which case the expression read so far becomes its left side. The rule for
operators grows to the left while the parser runs to the right, and they meet
because what follows the left side is an operator with whatever follows the whole.

## Main definitions

* `Phrase`: The phrases of the grammar, with what they denote.
* `Spells`: The rules of the grammar.
* `Resumes`: How the parser goes on behind an expression.
* `Phrase.Readable`: What the parser does on a phrase.

## Theorems

* `Spells.readable`: What is spelled is read as what it denotes.
* `parseTokens_of_spells`: Each token list that spells a query is parsed as it.
-/

namespace PackageAlgebra

/-- The phrases of the grammar, with what they denote. -/
inductive Phrase
  -- A name, a call or a group, with selectors.
  | term (e : Expr)
  -- Terms side by side.
  | terms (es : List Expr)
  -- Terms side by side as one expression.
  | operand (e : Expr)
  -- Operands with operators between them.
  | expression (e : Expr)
  -- Expressions with commas between them.
  | arguments (es : List Expr)
  -- An expression, or a name that it is bound to.
  | statement (e : Expr)
  -- Statements with semicolons between them; some may be missing.
  | body (es : List Expr)
  -- A whole query.
  | query (tree : Option Expr)

/-- The rules of the grammar: which tokens spell a phrase. -/
inductive Spells : Phrase → List Token → Prop
  | name {t : Token} (ht : t.kind = .package) : Spells (.term (.package t.text)) [t]
  | call {f l r : Token} {es : List Expr} {ts : List Token} (hf : f.kind = .func)
      (hl : l.kind = .leftParen) (hr : r.kind = .rightParen) (h : Spells (.arguments es) ts) :
      Spells (.term (.call f.text es)) (f :: l :: (ts ++ [r]))
  | group {l r : Token} {e : Expr} {ts : List Token} (hl : l.kind = .leftParen)
      (hr : r.kind = .rightParen) (h : Spells (.expression e) ts) :
      Spells (.term e) (l :: (ts ++ [r]))
  | selected {s : Token} {e : Expr} {ts : List Token} (hs : s.kind = .selector)
      (h : Spells (.term e) ts) : Spells (.term (.select e s.text)) (ts ++ [s])
  | alone {e : Expr} {ts : List Token} (h : Spells (.term e) ts) : Spells (.terms [e]) ts
  | beside {e : Expr} {es : List Expr} {ts us : List Token} (h : Spells (.term e) ts)
      (hlater : Spells (.terms es) us) : Spells (.terms (e :: es)) (ts ++ us)
  | single {e : Expr} {ts : List Token} (h : Spells (.terms [e]) ts) : Spells (.operand e) ts
  | juxtaposed {e f : Expr} {es : List Expr} {ts : List Token}
      (h : Spells (.terms (e :: f :: es)) ts) : Spells (.operand (.call "" (e :: f :: es))) ts
  | operand {e : Expr} {ts : List Token} (h : Spells (.operand e) ts) :
      Spells (.expression e) ts
  | operator {o : Token} {left right : Expr} {ts us : List Token} (ho : o.kind = .op)
      (h : Spells (.expression left) ts) (hright : Spells (.operand right) us) :
      Spells (.expression (.call o.text [left, right])) (ts ++ o :: us)
  | lastArgument {e : Expr} {ts : List Token} (h : Spells (.expression e) ts) :
      Spells (.arguments [e]) ts
  | argument {c : Token} {e : Expr} {es : List Expr} {ts us : List Token} (hc : c.kind = .comma)
      (h : Spells (.expression e) ts) (hlater : Spells (.arguments es) us) :
      Spells (.arguments (e :: es)) (ts ++ c :: us)
  | value {e : Expr} {ts : List Token} (h : Spells (.expression e) ts) : Spells (.statement e) ts
  | binding {t assign : Token} {e : Expr} {ts : List Token} (ht : t.kind = .package)
      (ha : assign.kind = .assign) (h : Spells (.expression e) ts) :
      Spells (.statement (.assign t.text e)) (t :: assign :: ts)
  | empty : Spells (.body []) []
  | lastStatement {e : Expr} {ts : List Token} (h : Spells (.statement e) ts) :
      Spells (.body [e]) ts
  | skip {s : Token} {es : List Expr} {ts : List Token} (hs : s.kind = .semicolon)
      (h : Spells (.body es) ts) : Spells (.body es) (s :: ts)
  | statement {s : Token} {e : Expr} {es : List Expr} {ts us : List Token}
      (hs : s.kind = .semicolon) (h : Spells (.statement e) ts) (hlater : Spells (.body es) us) :
      Spells (.body (e :: es)) (ts ++ s :: us)
  | nothing {ts : List Token} (h : Spells (.body []) ts) : Spells (.query none) ts
  | collapsed {e : Expr} {ts : List Token} (h : Spells (.body [e]) ts) :
      Spells (.query (some e)) ts
  | sequence {e f : Expr} {es : List Expr} {ts : List Token}
      (h : Spells (.body (e :: f :: es)) ts) :
      Spells (.query (some (.sequence (e :: f :: es)))) ts

/-- How the parser goes on behind an expression whose last token is given: it
    comes back at the end of the tokens or at a separator, and an operator takes
    the expression as its left side. -/
inductive Resumes (depth : Nat) (last : Token) (e : Expr) : List Token → Expr → Cursor → Prop
  | atEnd : Resumes depth last e [] e ⟨some last, []⟩
  | stop {t : Token} {rest : List Token} (ht : Stops false depth t) :
      Resumes depth last e (t :: rest) e ⟨some t, rest⟩
  | fold {o : Token} {rest : List Token} {e' : Expr} {cur : Cursor} (ho : o.kind = .op)
      (h : Reads (.operators depth e o.text e') ⟨some o, rest⟩ cur) :
      Resumes depth last e (o :: rest) e' cur

/-- Terms may be followed by these tokens without getting longer. -/
def Delimits (rest : List Token) : Prop :=
  ∀ n ∈ rest.head?, n.kind ≠ .assign ∧ n.kind ≠ .selector

/-- Some terms are read, whatever comes before and after them. -/
def TermsRead (es : List Expr) (ts : List Token) (last : Token) : Prop :=
  ∀ {after depth before passed rest v cur}, Delimits rest →
    Reads (.operand after depth (before ++ es) v) ⟨some last, rest⟩ cur →
      Reads (.operand after depth before v) ⟨passed, ts ++ rest⟩ cur

namespace Phrase

/-- What the parser does on the tokens of a phrase, whatever may come after it. -/
def Readable (p : Phrase) (ts : List Token) : Prop :=
  match p with
  | .term e => (∀ rest, Delimits (ts ++ rest)) ∧ ∃ last, last.kind ≠ .op ∧
    ∀ {depth passed rest}, (∀ n ∈ rest.head?, n.kind ≠ .assign) →
      Reads (.term depth e) ⟨passed, ts ++ rest⟩ ⟨some last, rest⟩
  | .terms es => (∀ rest, Delimits (ts ++ rest)) ∧ ∃ last, last.kind ≠ .op ∧ TermsRead es ts last
  | .operand e => ∃ es last, juxtapose es = some e ∧ last.kind ≠ .op ∧ TermsRead es ts last
  | .expression e => ∃ last, ∀ {depth passed rest e' cur}, Resumes depth last e rest e' cur →
    Reads (.operand false depth [] (some e')) ⟨passed, ts ++ rest⟩ cur
  | .arguments es => ∀ {depth before passed r rest}, r.kind = .rightParen →
    Reads (.arguments depth before (before ++ es)) ⟨passed, ts ++ r :: rest⟩ ⟨some r, rest⟩
  | .statement e => (∃ last, ∀ {passed},
      Reads (.operand false 0 [] (some e)) ⟨passed, ts⟩ ⟨some last, []⟩) ∧
    ∀ {passed s rest}, s.kind = .semicolon →
      Reads (.operand false 0 [] (some e)) ⟨passed, ts ++ s :: rest⟩ ⟨some s, rest⟩
  | .body es => ∀ {passed}, StatementsRead ⟨passed, ts⟩ es
  | .query tree => ∃ es, Expr.ofStatements es = tree ∧ StatementsRead ⟨none, ts⟩ es

end Phrase

variable {depth : Nat} {e e' left right : Expr} {es : List Expr} {ts us rest : List Token}
  {last t s : Token} {passed : Option Token} {cur cur₁ : Cursor}

theorem delimits_cons (h : t.kind ≠ .assign ∧ t.kind ≠ .selector) : Delimits (t :: rest) := by
  intro n hn
  rw [← Option.mem_some.1 hn]
  exact h

theorem delimits_nil : Delimits [] := fun _ hn => absurd hn (Option.not_mem_none _)

/-- What ends an expression is no part of its terms. -/
theorem Resumes.delimits (h : Resumes depth last e rest e' cur) : Delimits rest := by
  cases h with
  | atEnd => exact delimits_nil
  | stop ht =>
      refine delimits_cons ?_
      rcases ht with ⟨hk, _⟩ | ⟨hk | hk, _⟩ | ⟨hk, _⟩ <;> rw [hk] <;> decide
  | fold ho => exact delimits_cons (by rw [ho]; decide)

/-- A reading of an expression begins with a token. -/
theorem Reads.ahead_ne_nil {after : Bool} (h : Reads (.operand after depth [] (some e)) cur cur₁) :
    cur.ahead ≠ [] := by
  have hlt := h.length_lt Reading.not_isIdle_some
  intro hnil
  rw [hnil] at hlt
  exact Nat.not_lt_zero _ hlt

/-! ### One rule at a time -/

/-- Terms alone make an expression: what comes back behind them resumes it. -/
theorem TermsRead.expression {es : List Expr} (h : TermsRead es ts last)
    (hes : juxtapose es = some e) (hr : Resumes depth last e rest e' cur) :
    Reads (.operand false depth [] (some e')) ⟨passed, ts ++ rest⟩ cur := by
  refine h hr.delimits ?_
  cases hr with
  | atEnd =>
      rw [← hes]
      exact .atEnd
  | stop ht =>
      rw [← hes]
      exact .stop ht
  | fold ho h => exact .fold ho hes h

/-- The right side of an operator is read, and what comes back behind it resumes
    the whole. -/
theorem TermsRead.operators {o : Token} {op : String} (h : TermsRead es us last)
    (hes : juxtapose es = some right) (hlast : last.kind ≠ .op)
    (hr : Resumes depth last (.call op [left, right]) rest e' cur) :
    Reads (.operators depth left op e') ⟨some o, us ++ rest⟩ cur := by
  have hdelimits := hr.delimits
  cases hr with
  | atEnd =>
      have hright : Reads (.operand true depth [] (some right)) ⟨some o, us ++ []⟩
          ⟨some last, []⟩ := h hdelimits (by rw [← hes]; exact .atEnd)
      exact .lastOperator (by simp [Cursor.hasPassed, hlast]) hright
  | @stop t rest ht =>
      have hop : t.kind ≠ .op := by
        rcases ht with ⟨_, hfalse⟩ | ⟨hk | hk, _⟩ | ⟨hk, _⟩
        · exact absurd hfalse Bool.false_ne_true
        · rw [hk]; decide
        · rw [hk]; decide
        · rw [hk]; decide
      have hstop : Stops true depth t :=
        ht.imp (fun hfalse => absurd hfalse.2 Bool.false_ne_true) id
      have hright : Reads (.operand true depth [] (some right)) ⟨some o, us ++ t :: rest⟩
          ⟨some t, rest⟩ := h hdelimits (by rw [← hes]; exact .stop hstop)
      exact .lastOperator (by simp [Cursor.hasPassed, hop]) hright
  | @fold o' rest e' cur ho' hlater =>
      -- The right side comes back at the next operator, and the loop goes on.
      have hright : Reads (.operand true depth [] (some right)) ⟨some o, us ++ o' :: rest⟩
          ⟨some o', rest⟩ := h hdelimits (by rw [← hes]; exact .stop (Or.inl ⟨ho', rfl⟩))
      exact .operator rfl ho' hright hlater

/-- What is spelled is read as what it denotes. -/
theorem Spells.readable {p : Phrase} {ts : List Token} (h : Spells p ts) : p.Readable ts := by
  induction h with
  | @name t ht =>
      refine ⟨fun rest => delimits_cons (by rw [ht]; decide), t, by rw [ht]; decide, ?_⟩
      exact fun hrest => .name ht hrest
  | @call f l r es ts hf hl hr _ ih =>
      refine ⟨fun rest => delimits_cons (by rw [hf]; decide), r, by rw [hr]; decide, ?_⟩
      intro depth passed rest _
      have hargs : Reads (.arguments depth [] ([] ++ es)) ⟨some l, ts ++ r :: rest⟩
          ⟨some r, rest⟩ := ih hr
      rw [List.cons_append, List.cons_append, List.append_assoc]
      exact .call hf hl hargs
  | @group l r e ts hl hr _ ih =>
      refine ⟨fun rest => delimits_cons (by rw [hl]; decide), r, by rw [hr]; decide, ?_⟩
      intro depth passed rest _
      -- A group is read as arguments, of which there may be only one.
      rcases ih with ⟨last, hread⟩
      have hstop : Stops false (depth + 1) r := stops_rightParen hr (Nat.succ_pos depth)
      have harg : Reads (.operand false (depth + 1) [] (some e)) ⟨some l, ts ++ r :: rest⟩
          ⟨some r, rest⟩ := hread (.stop hstop)
      rw [List.cons_append, List.append_assoc]
      exact .group hl (.lastArgument (Cursor.hasPassed_some hr) harg)
  | @selected s e ts hs _ ih =>
      rcases ih with ⟨hdelimits, last, _, hread⟩
      refine ⟨fun rest => ?_, s, by rw [hs]; decide, ?_⟩
      · rw [List.append_assoc]
        exact hdelimits ([s] ++ rest)
      · intro depth passed rest _
        rw [List.append_assoc]
        exact .selected hs (hread fun n hn => by rw [← Option.mem_some.1 hn, hs]; decide)
  | @alone e ts _ ih =>
      rcases ih with ⟨hdelimits, last, hlast, hread⟩
      refine ⟨hdelimits, last, hlast, ?_⟩
      intro after depth before passed rest v cur hrest hlater
      exact .beside (hread fun n hn => (hrest n hn).1) (fun n hn => (hrest n hn).2) hlater
  | @beside e es ts us _ _ ih ihlater =>
      rcases ih with ⟨hdelimits, last, _, hread⟩
      rcases ihlater with ⟨hdelimits', last', hlast', hlater⟩
      refine ⟨fun rest => ?_, last', hlast', ?_⟩
      · rw [List.append_assoc]
        exact hdelimits (us ++ rest)
      · intro after depth before passed rest v cur hrest hread'
        -- The first term ends where the next one begins, whatever stands there.
        have hnext := hdelimits' rest
        rw [List.append_assoc]
        refine .beside (hread fun n hn => (hnext n hn).1) (fun n hn => (hnext n hn).2)
          (hlater hrest ?_)
        rw [List.append_assoc]
        exact hread'
  | @single e ts _ ih =>
      rcases ih with ⟨_, last, hlast, hread⟩
      exact ⟨[e], last, rfl, hlast, hread⟩
  | @juxtaposed e f es ts _ ih =>
      rcases ih with ⟨_, last, hlast, hread⟩
      exact ⟨e :: f :: es, last, rfl, hlast, hread⟩
  | @operand e ts _ ih =>
      rcases ih with ⟨es, last, hes, _, hread⟩
      exact ⟨last, fun hr => hread.expression hes hr⟩
  | @operator o left right ts us ho _ _ ih ihright =>
      rcases ih with ⟨last, hleft⟩
      rcases ihright with ⟨es, last', hes, hlast', hright⟩
      -- What resumes the whole resumes the left side, with the operator before it.
      refine ⟨last', fun hr => ?_⟩
      rw [List.append_assoc]
      exact hleft (.fold ho (hright.operators hes hlast' hr))
  | @lastArgument e ts _ ih =>
      intro depth before passed r rest hr
      rcases ih with ⟨last, hread⟩
      have hstop : Stops false (depth + 1) r := stops_rightParen hr (Nat.succ_pos depth)
      have harg : Reads (.operand false (depth + 1) [] (some e)) ⟨passed, ts ++ r :: rest⟩
          ⟨some r, rest⟩ := hread (.stop hstop)
      exact .lastArgument (Cursor.hasPassed_some hr) harg
  | @argument c e es ts us hc _ _ ih ihlater =>
      intro depth before passed r rest hr
      rcases ih with ⟨last, hread⟩
      have hstop : Stops false (depth + 1) c := stops_comma hc (Nat.succ_pos depth)
      have harg : Reads (.operand false (depth + 1) [] (some e))
          ⟨passed, ts ++ c :: (us ++ r :: rest)⟩ ⟨some c, us ++ r :: rest⟩ := hread (.stop hstop)
      have hlater : Reads (.arguments depth (before ++ [e]) (before ++ [e] ++ es))
          ⟨some c, us ++ r :: rest⟩ ⟨some r, rest⟩ := ihlater hr
      -- The arguments read so far grow by one, in the tokens and in the answer.
      rw [List.append_assoc] at hlater
      rw [List.append_assoc]
      exact .argument (Cursor.hasPassed_some hc) harg hlater
  | @value e ts _ ih =>
      rcases ih with ⟨last, hread⟩
      refine ⟨⟨last, ?_⟩, ?_⟩
      · intro passed
        rw [← List.append_nil ts]
        exact hread .atEnd
      · intro passed s rest hs
        exact hread (.stop (stops_semicolon hs))
  | @binding t assign e ts ht ha _ ih =>
      rcases ih with ⟨last, hread⟩
      refine ⟨⟨last, ?_⟩, ?_⟩
      · intro passed
        rw [← List.append_nil ts]
        exact .binding ht ha (hread .atEnd)
      · intro passed s rest hs
        exact .binding ht ha (hread (.stop (stops_semicolon hs)))
  | empty =>
      intro passed
      exact .done
  | @lastStatement e ts _ ih =>
      intro passed
      rcases ih with ⟨⟨last, hread⟩, _⟩
      exact .next hread.ahead_ne_nil hread .done
  | @skip s es ts hs _ ih =>
      intro passed
      exact .next (List.cons_ne_nil s ts) (.stop (stops_semicolon hs)) ih
  | @statement s e es ts us hs _ _ ih ihlater =>
      intro passed
      have hread : Reads (.operand false 0 [] (some e)) ⟨passed, ts ++ s :: us⟩ ⟨some s, us⟩ :=
        ih.2 hs
      exact .next hread.ahead_ne_nil hread ihlater
  | nothing _ ih => exact ⟨[], rfl, ih⟩
  | @collapsed e ts _ ih => exact ⟨[e], rfl, ih⟩
  | @sequence e f es ts _ ih => exact ⟨e :: f :: es, rfl, ih⟩

/-- Each token list that spells a query is parsed as the tree that the query
    denotes, whatever its length and depth. -/
theorem parseTokens_of_spells {tokens : List Token} {tree : Option Expr}
    (h : Spells (.query tree) tokens) : parseTokens tokens = .ok tree := by
  rcases h.readable with ⟨es, htree, hread⟩
  exact (parseTokens_eq_ok_iff tokens tree).2 ⟨es, hread, htree⟩

/-- `x := f(a:v:w b, (c - d)) + e g;; y` -/
def nestedTokens : List Token :=
  [⟨.package, "x"⟩, ⟨.assign, ":="⟩, ⟨.func, "f"⟩, ⟨.leftParen, "("⟩, ⟨.package, "a"⟩,
    ⟨.selector, "v"⟩, ⟨.selector, "w"⟩, ⟨.package, "b"⟩, ⟨.comma, ","⟩, ⟨.leftParen, "("⟩,
    ⟨.package, "c"⟩, ⟨.op, "-"⟩, ⟨.package, "d"⟩, ⟨.rightParen, ")"⟩, ⟨.rightParen, ")"⟩,
    ⟨.op, "+"⟩, ⟨.package, "e"⟩, ⟨.package, "g"⟩, ⟨.semicolon, ";"⟩, ⟨.semicolon, ";"⟩,
    ⟨.package, "y"⟩]

/-- What it denotes. -/
def nestedTree : Expr :=
  .sequence [.assign "x" (.call "+" [
      .call "f" [.call "" [.select (.select (.package "a") "v") "w", .package "b"],
        .call "-" [.package "c", .package "d"]],
      .call "" [.package "e", .package "g"]]),
    .package "y"]

theorem parseTokens_of_spells_nested :
    Spells (.query (some nestedTree)) nestedTokens ∧
      parseTokens nestedTokens = .ok (some nestedTree) := by
  have hkind : ∀ kind text, (Token.mk kind text).kind = kind := fun _ _ => rfl
  have hname : ∀ text, Spells (.term (.package text)) [⟨.package, text⟩] :=
    fun text => .name (hkind .package text)
  have hoperand : ∀ text, Spells (.operand (.package text)) [⟨.package, text⟩] :=
    fun text => .single (.alone (hname text))
  -- The first argument: a term with two selectors, and another one beside it.
  have hselected := Spells.selected (hkind .selector "w")
    (.selected (hkind .selector "v") (hname "a"))
  have hfirst := Spells.operand (.juxtaposed (.beside hselected (.alone (hname "b"))))
  -- The second argument: a group, of which only what it holds is left.
  have hminus := Spells.operator (hkind .op "-") (.operand (hoperand "c")) (hoperand "d")
  have hgroup := Spells.group (hkind .leftParen "(") (hkind .rightParen ")") hminus
  have hsecond := Spells.operand (.single (.alone hgroup))
  have hcall := Spells.call (hkind .func "f") (hkind .leftParen "(") (hkind .rightParen ")")
    (.argument (hkind .comma ",") hfirst (.lastArgument hsecond))
  have hright := Spells.juxtaposed (.beside (hname "e") (.alone (hname "g")))
  have hsum := Spells.operator (hkind .op "+") (.operand (.single (.alone hcall))) hright
  have hbinding := Spells.binding (hkind .package "x") (hkind .assign ":=") hsum
  have hlast := Spells.lastStatement (.value (.operand (hoperand "y")))
  have hspells : Spells (.query (some nestedTree)) nestedTokens :=
    .sequence (.statement (hkind .semicolon ";") hbinding (.skip (hkind .semicolon ";") hlast))
  exact ⟨hspells, parseTokens_of_spells hspells⟩

end PackageAlgebra
