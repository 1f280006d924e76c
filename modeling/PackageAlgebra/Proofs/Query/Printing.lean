import PackageAlgebra.Proofs.Query.Grammar
import PackageAlgebra.Proofs.Query.Scanning

/-!
# Printing

A printed query is read as the query that was printed.

The printed form shows an operator for each spelled-out name, and apart from that it
shows all there is: every call has its parentheses, so nothing depends on how strongly
operators bind. What is read is therefore the query in canonical form, in which the
functions have the names that are shown.

The grammar says which tokens spell a query, and the scanner which tokens are cut from a
text. A text is `Written` for a phrase if these are the same tokens. As with the scanner,
this is said of a text with anything behind it that its last name does not go on with.
Each part of a query has one lemma that puts it together from its own parts.

A query can be printed so only if its names are names that the scanner cuts, since a
text is all that the reader is given. It also needs an argument for every call, because
the grammar knows none without, and it holds no juxtaposition, which is printed as a call
that has no name.

## Main definitions

* `Expr.canonical`: An expression with the names that its printed form shows.
* `Expr.Printable`: Expressions that can be read again.
* `Expr.PrintableStatement`, `Expr.PrintableQuery`: Statements and queries likewise.
* `Written`: A text is cut into tokens that spell a phrase.

## Theorems

* `Expr.canonicalName_eq_plus`, `Expr.canonicalName_eq_minus`, `Expr.canonicalName_eq_self`: The
  names that are shown.
* `Expr.print_canonical`: The canonical form is printed as the expression is.
* `Expr.PrintableQuery.written`: A printed query is written for its canonical form.
* `Written.parse`: A text is parsed as the query that it is written for.
-/

namespace PackageAlgebra

namespace Expr

mutual

/-- An expression in which functions have the names that its printed form shows. -/
def canonical : Expr → Expr
  | package name => package name
  | sequence statements => sequence (canonicalAll statements)
  | assign name value => assign name (canonical value)
  | select operand selector => select (canonical operand) selector
  | call func args => call (canonicalName func) (canonicalAll args)
  | absent => absent

/-- The expressions of a list in canonical form. -/
def canonicalAll : List Expr → List Expr
  | [] => []
  | e :: rest => canonical e :: canonicalAll rest

end

/-- Two names spell a plus out, ignoring case. -/
theorem canonicalName_eq_plus {func : String}
    (h : Text.lower func = "add" ∨ Text.lower func = "or") : canonicalName func = "+" :=
  if_pos h

/-- Two names spell a minus out, ignoring case. -/
theorem canonicalName_eq_minus {func : String}
    (h : Text.lower func = "subtract" ∨ Text.lower func = "exclude") :
    canonicalName func = "-" := by
  have hplus : ¬ (Text.lower func = "add" ∨ Text.lower func = "or") := by
    rcases h with h | h <;> rw [h] <;> decide
  exact (if_neg hplus).trans (if_pos h)

/-- Any other name is shown as it is. -/
theorem canonicalName_eq_self {func : String}
    (hplus : ¬ (Text.lower func = "add" ∨ Text.lower func = "or"))
    (hminus : ¬ (Text.lower func = "subtract" ∨ Text.lower func = "exclude")) :
    canonicalName func = func :=
  (if_neg hplus).trans (if_neg hminus)

/-- A name is shown as it is, unless it spells an operator out. -/
theorem canonicalName_cases (func : String) :
    canonicalName func = func ∨
      (Text.lower func = "add" ∨ Text.lower func = "or") ∧ canonicalName func = "+" ∨
      (Text.lower func = "subtract" ∨ Text.lower func = "exclude") ∧ canonicalName func = "-" := by
  by_cases hplus : Text.lower func = "add" ∨ Text.lower func = "or"
  · exact .inr (.inl ⟨hplus, canonicalName_eq_plus hplus⟩)
  · by_cases hminus : Text.lower func = "subtract" ∨ Text.lower func = "exclude"
    · exact .inr (.inr ⟨hminus, canonicalName_eq_minus hminus⟩)
    · exact .inl (canonicalName_eq_self hplus hminus)

/-- A name that is shown is shown as it is. -/
theorem canonicalName_canonicalName (func : String) :
    canonicalName (canonicalName func) = canonicalName func := by
  rcases canonicalName_cases func with h | ⟨_, h⟩ | ⟨_, h⟩
  · rw [h, h]
  · rw [h]; decide
  · rw [h]; decide

mutual

/-- The canonical form is printed as the expression is. -/
theorem print_canonical : ∀ e : Expr, e.canonical.print = e.print
  | package _ => rfl
  | sequence statements => by
      simp only [canonical, print, printAll_canonicalAll statements]
  | assign _ value => by simp only [canonical, print, print_canonical value]
  | select operand _ => by simp only [canonical, print, print_canonical operand]
  | call func args => by
      simp only [canonical, print, canonicalName_canonicalName, printAll_canonicalAll args]
  | absent => rfl

theorem printAll_canonicalAll : ∀ es : List Expr, printAll (canonicalAll es) = printAll es
  | [] => rfl
  | e :: rest => by
      simp only [canonicalAll, printAll, print_canonical e, printAll_canonicalAll rest]

end

/-! ### What can be printed -/

/-- Expressions of names, selectors and calls that can be read again. -/
inductive Printable : Expr → Prop
  | package {name : String} (hname : Token.isPackageName name = true) : Printable (.package name)
  | select {operand : Expr} {selector : String} (hselector : Token.isSelectorName selector = true)
      (h : Printable operand) : Printable (.select operand selector)
  | call {func : String} {args : List Expr} (hfunc : Token.isFunctionName func = true)
      (hargs : args ≠ []) (h : ∀ arg ∈ args, Printable arg) : Printable (.call func args)

/-- Statements that can be read again. -/
inductive PrintableStatement : Expr → Prop
  | value {e : Expr} (h : Printable e) : PrintableStatement e
  | binding {name : String} {e : Expr} (hname : Token.isPackageName name = true)
      (h : Printable e) : PrintableStatement (.assign name e)

/-- Queries that can be read again: a statement, or two statements and more. -/
inductive PrintableQuery : Expr → Prop
  | single {e : Expr} (h : PrintableStatement e) : PrintableQuery e
  | sequence {e f : Expr} {rest : List Expr}
      (h : ∀ statement ∈ e :: f :: rest, PrintableStatement statement) :
      PrintableQuery (.sequence (e :: f :: rest))

end Expr

/-! ### Texts and tokens -/

/-- A text without line ends is cut into tokens that spell a phrase, whatever comes behind
    it that its last name does not go on with. -/
def Written (p : Phrase) (s : String) : Prop :=
  '\n' ∉ s.toList ∧ ∃ ts, Spells p ts ∧ ∀ {rest us}, Token.EndsName rest →
    Token.Scans rest us → Token.Scans (s.toList ++ rest) (ts ++ us)

namespace Written

open Token

variable {e f : Expr} {es : List Expr} {s t name : String}

/-! One part of a query at a time. -/

theorem package (hname : isPackageName name = true) : Written (.term (.package name)) name := by
  refine ⟨?_, _, .name (t := ⟨.package, name⟩) rfl, fun hrest h => .package hname hrest h⟩
  exact (plain_of_isPackageName hname).not_mem rfl

theorem select {selector : String} (hselector : isSelectorName selector = true)
    (h : Written (.term e) s) : Written (.term (.select e selector)) (s ++ ":" ++ selector) := by
  rcases h with ⟨hline, ts, hspells, hscans⟩
  refine ⟨?_, _, .selected (s := ⟨.selector, selector⟩) rfl hspells, fun {rest us} hrest h => ?_⟩
  · have hend : '\n' ∉ selector.toList := (plain_of_isSelectorName hselector).not_mem rfl
    simp [hline, hend]
  · simp only [String.toList_append, List.append_assoc]
    exact hscans (endsName_cons (by decide)) (.selector hselector hrest.stops h)

theorem call {func : String} (hfunc : isFunctionName func = true)
    (h : Written (.arguments es) s) :
    Written (.term (.call func es)) (func ++ "(" ++ s ++ ")") := by
  rcases h with ⟨hline, ts, hspells, hscans⟩
  refine ⟨?_, _, .call (f := ⟨.func, func⟩) (l := ⟨.leftParen, "("⟩) (r := ⟨.rightParen, ")"⟩)
    rfl rfl rfl hspells, fun {rest us} _ h => ?_⟩
  · have hend : '\n' ∉ func.toList := (plain_of_isFunctionName hfunc).not_mem rfl
    simp [hline, hend]
  · have hclose : Scans (')' :: rest) (⟨.rightParen, ")"⟩ :: us) := .mark (by decide) h
    simp only [String.toList_append, List.append_assoc]
    rw [List.cons_append, List.cons_append, List.append_assoc]
    exact .function hfunc (hscans (endsName_cons (by decide)) hclose)

theorem expression (h : Written (.term e) s) : Written (.expression e) s := by
  rcases h with ⟨hline, ts, hspells, hscans⟩
  exact ⟨hline, ts, .operand (.single (.alone hspells)), hscans⟩

theorem lastArgument (h : Written (.expression e) s) : Written (.arguments [e]) s := by
  rcases h with ⟨hline, ts, hspells, hscans⟩
  exact ⟨hline, ts, .lastArgument hspells, hscans⟩

theorem argument (h : Written (.expression e) s) (hlater : Written (.arguments es) t) :
    Written (.arguments (e :: es)) (s ++ ", " ++ t) := by
  rcases h with ⟨hline, ts, hspells, hscans⟩
  rcases hlater with ⟨hline', ts', hspells', hscans'⟩
  refine ⟨?_, _, .argument (c := ⟨.comma, ","⟩) rfl hspells hspells', fun {rest us} hrest h => ?_⟩
  · simp [hline, hline']
  · have hcomma : Scans (',' :: ' ' :: (t.toList ++ rest)) (⟨.comma, ","⟩ :: (ts' ++ us)) :=
      .mark (by decide) (.blank (hscans' hrest h))
    simp only [String.toList_append, List.append_assoc]
    exact hscans (endsName_cons (by decide)) hcomma

theorem value (h : Written (.expression e) s) : Written (.statement e) s := by
  rcases h with ⟨hline, ts, hspells, hscans⟩
  exact ⟨hline, ts, .value hspells, hscans⟩

theorem binding (hname : isPackageName name = true) (h : Written (.expression e) s) :
    Written (.statement (.assign name e)) (name ++ " := " ++ s) := by
  have hline' := (package hname).1
  rcases h with ⟨hline, ts, hspells, hscans⟩
  refine ⟨?_, ⟨.package, name⟩ :: ⟨.assign, ":="⟩ :: ts,
    .binding (t := ⟨.package, name⟩) rfl rfl hspells, fun {rest us} hrest h => ?_⟩
  · simp [hline, hline']
  · have hassign : Scans (' ' :: ':' :: '=' :: ' ' :: (s.toList ++ rest))
        (⟨.assign, ":="⟩ :: (ts ++ us)) := .blank (.assign (.blank (hscans hrest h)))
    simp only [String.toList_append, List.append_assoc]
    exact .package hname (endsName_cons (by decide)) hassign

theorem lastStatement (h : Written (.statement e) s) : Written (.body [e]) s := by
  rcases h with ⟨hline, ts, hspells, hscans⟩
  exact ⟨hline, ts, .lastStatement hspells, hscans⟩

theorem statement (h : Written (.statement e) s) (hlater : Written (.body es) t) :
    Written (.body (e :: es)) (s ++ "; " ++ t) := by
  rcases h with ⟨hline, ts, hspells, hscans⟩
  rcases hlater with ⟨hline', ts', hspells', hscans'⟩
  refine ⟨?_, _, .statement (s := ⟨.semicolon, ";"⟩) rfl hspells hspells',
    fun {rest us} hrest h => ?_⟩
  · simp [hline, hline']
  · have hsemicolon : Scans (';' :: ' ' :: (t.toList ++ rest)) (⟨.semicolon, ";"⟩ :: (ts' ++ us)) :=
      .mark (by decide) (.blank (hscans' hrest h))
    simp only [String.toList_append, List.append_assoc]
    exact hscans (endsName_cons (by decide)) hsemicolon

/-- A text is parsed as the query that it is written for. -/
theorem parse {tree : Option Expr} (h : Written (.query tree) s) :
    (QueryText.line s).parse = .ok tree := by
  rcases h with ⟨hline, ts, hspells, hscans⟩
  have hscan : scan s = .ok ts := by
    have hscan := hscans endsName_nil .nil 0
    rwa [List.append_nil, List.append_nil] at hscan
  have hjoin : joinWords [s] = s := by
    have hsame : (s.toList.map fun c => if c = '\n' then ';' else c) = s.toList.map id := by
      refine List.map_congr_left fun c hc => if_neg ?_
      rintro rfl
      exact hline hc
    change String.ofList (s.toList.map fun c => if c = '\n' then ';' else c) = s
    rw [hsame, List.map_id, String.ofList_toList]
  have htree : parseTokens ts = .ok tree := by
    rcases hspells.readable with ⟨es, hes, hread⟩
    exact (parseTokens_eq_ok_iff ts tree).2 ⟨es, hread, hes⟩
  rw [← hjoin] at hscan
  exact (QueryText.parse_eq_ok_iff (.line s) tree).2 ⟨ts, hscan, htree⟩

end Written

/-! ### Printed queries -/

namespace Expr

/-- A list is written with separators between its members if each member is written. -/
theorem written_join {part : Expr → Phrase} {whole : List Expr → Phrase} {sep : String}
    {es : List Expr} (hlast : ∀ {e s}, Written (part e) s → Written (whole [e]) s)
    (hcons : ∀ {e es s t}, Written (part e) s → Written (whole es) t →
      Written (whole (e :: es)) (s ++ sep ++ t))
    (hes : es ≠ []) (h : ∀ e ∈ es, Written (part e.canonical) e.print) :
    Written (whole (canonicalAll es)) (Text.join sep (printAll es)) := by
  induction es with
  | nil => exact absurd rfl hes
  | cons e rest ih =>
      have hfirst := h e List.mem_cons_self
      cases rest with
      | nil => exact hlast hfirst
      | cons f rest =>
          exact hcons hfirst (ih (List.cons_ne_nil f rest)
            fun g hg => h g (List.mem_cons_of_mem e hg))

/-- A name that is shown is the name of a function if it was one. -/
theorem isFunctionName_canonicalName {func : String} (h : Token.isFunctionName func = true) :
    Token.isFunctionName (canonicalName func) = true := by
  rcases canonicalName_cases func with heq | ⟨_, heq⟩ | ⟨_, heq⟩
  · rw [heq, h]
  · rw [heq]; decide
  · rw [heq]; decide

theorem Printable.written {e : Expr} (h : e.Printable) : Written (.term e.canonical) e.print := by
  induction h with
  | package hname => exact .package hname
  | select hselector _ ih => exact ih.select hselector
  | @call func args hfunc hargs _ ih =>
      have hwritten : Written (.arguments (canonicalAll args)) (Text.join ", " (printAll args)) :=
        written_join Written.lastArgument Written.argument hargs fun arg harg =>
          (ih arg harg).expression
      exact hwritten.call (isFunctionName_canonicalName hfunc)

theorem PrintableStatement.written {e : Expr} (h : e.PrintableStatement) :
    Written (.statement e.canonical) e.print := by
  cases h with
  | value h => exact h.written.expression.value
  | binding hname h => exact .binding hname h.written.expression

/-- A printed query is written for its canonical form. -/
theorem PrintableQuery.written {e : Expr} (h : e.PrintableQuery) :
    Written (.query (some e.canonical)) e.print := by
  cases h with
  | single h =>
      rcases h.written.lastStatement with ⟨hline, ts, hspells, hscans⟩
      exact ⟨hline, ts, .collapsed hspells, hscans⟩
  | @sequence e f rest h =>
      have hwritten : Written (.body (canonicalAll (e :: f :: rest)))
          (Text.join "; " (printAll (e :: f :: rest))) :=
        written_join Written.lastStatement Written.statement (List.cons_ne_nil e (f :: rest))
          fun s hs => (h s hs).written
      rcases hwritten with ⟨hline, ts, hspells, hscans⟩
      exact ⟨hline, ts, .sequence hspells, hscans⟩

end Expr

end PackageAlgebra
