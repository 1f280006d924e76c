import PackageAlgebra.Proofs.Query.Parsed
import PackageAlgebra.Proofs.Query.Printing

/-!
# Ambiguity

Which queries are printed alike.

A printed form shows every call with its parentheses and every name as it was read, except for
the names that spell operators out. One thing it hides: a selector stands behind an assignment
as it stands behind the value that is assigned, and `x := a:all` is printed for both. Nothing
else is hidden. `Expr.shown` is the expression with the names that are shown, and with the
selectors moved inside of the assignments; two queries that were read from texts are printed
alike if and only if the same is shown of them.

That a query is known from its printed form is not read off the parser, because a juxtaposition
is printed as a call without a name, which no text is read as, and because an assignment is read
at other places than the grammar has it. It is shown of the printed forms alone. An expression is
printed as the names that are bound, one behind the other, its core, and its selectors. Each
part ends where a character stands that the next part cannot begin with, so each is known from
the text, whatever may follow; the arguments of the core are known by induction.

## Main definitions

* `Expr.selectInside`, `Expr.settled`: The selectors inside of the assignments.
* `Expr.shown`: An expression as its printed form shows it.
* `Expr.bound`, `core`, `selectors`: The parts of a printed form.
* `Expr.Unmistakable`: The printed form shows the expression, whatever may follow it.

## Theorems

* `Expr.toList_print`: A printed form is put together from its parts.
* `Expr.boundText_append_inj`, `selectorText_append_inj`, `join_append_inj`: The parts are known
  from the text that they begin.
* `Expr.Parsed.unmistakable`: Expressions that are read are unmistakable.
* `Expr.print_eq_iff`: Queries are printed alike if the same is shown of them.
-/

namespace PackageAlgebra

/-! ### What a printed form shows -/

namespace Expr

/-- A selector on an expression, put inside of the assignments around it. -/
def selectInside : Expr → String → Expr
  | assign name value, selector => assign name (selectInside value selector)
  | e, selector => select e selector

mutual

/-- An expression with its selectors inside of the assignments that they stand on. -/
def settled : Expr → Expr
  | package name => package name
  | sequence statements => sequence (settledAll statements)
  | assign name value => assign name (settled value)
  | select operand selector => selectInside (settled operand) selector
  | call func args => call func (settledAll args)
  | absent => absent

/-- The expressions of a list, each with its selectors inside. -/
def settledAll : List Expr → List Expr
  | [] => []
  | e :: rest => settled e :: settledAll rest

end

theorem print_selectInside (e : Expr) (selector : String) :
    (e.selectInside selector).print = e.print ++ ":" ++ selector := by
  fun_induction selectInside e selector with
  | case1 name value selector ih => simp only [print, ih, String.append_assoc]
  | case2 => rfl

mutual

/-- A printed form does not show whether a selector stands on an assignment or on its value. -/
theorem print_settled : ∀ e : Expr, e.settled.print = e.print
  | package _ => rfl
  | sequence statements => by simp only [settled, print, printAll_settledAll statements]
  | assign _ value => by simp only [settled, print, print_settled value]
  | select operand _ => by simp only [settled, print, print_selectInside, print_settled operand]
  | call _ args => by simp only [settled, print, printAll_settledAll args]
  | absent => rfl

theorem printAll_settledAll : ∀ es : List Expr, printAll (settledAll es) = printAll es
  | [] => rfl
  | e :: rest => by
      simp only [settledAll, printAll, print_settled e, printAll_settledAll rest]

end

/-- The names that stand before an expression. -/
def bound : Expr → List String
  | assign name value => name :: value.bound
  | select operand _ => operand.bound
  | _ => []

/-- The selectors that stand behind an expression. -/
def selectors : Expr → List String
  | assign _ value => value.selectors
  | select operand selector => operand.selectors ++ [selector]
  | _ => []

/-- What stands between the names and the selectors. -/
def core : Expr → Expr
  | assign _ value => value.core
  | select operand _ => operand.core
  | e => e

/-- An expression made of its names, its core and its selectors. -/
def assemble (names : List String) (core : Expr) (selectors : List String) : Expr :=
  names.foldr assign (selectors.foldl select core)

theorem selectInside_assemble {names selectors : List String} {core : Expr} {selector : String}
    (hcore : ∀ name value, core ≠ assign name value) :
    (assemble names core selectors).selectInside selector =
      assemble names core (selectors ++ [selector]) := by
  induction names with
  | nil =>
      -- Behind the last selector, or behind the core, stands no assignment.
      rcases List.eq_nil_or_concat selectors with rfl | ⟨first, last, rfl⟩
      · cases core with
        | assign name value => exact absurd rfl (hcore name value)
        | package | sequence | select | call | absent => rfl
      · simp [assemble, selectInside]
  | cons name rest ih => exact congrArg (assign name) ih

theorem core_settled_ne_assign : ∀ (e : Expr) (name : String) (value : Expr),
    e.core.settled ≠ assign name value
  | package _, _, _ => nofun
  | sequence _, _, _ => nofun
  | assign _ value, name, value' => core_settled_ne_assign value name value'
  | select operand _, name, value' => core_settled_ne_assign operand name value'
  | call _ _, _, _ => nofun
  | absent, _, _ => nofun

/-- The settled form is known from the names, the core and the selectors. -/
theorem settled_eq_assemble : ∀ e : Expr, e.settled = assemble e.bound e.core.settled e.selectors
  | package _ => rfl
  | sequence _ => rfl
  | assign name value => congrArg (assign name) (settled_eq_assemble value)
  | select operand selector => by
      have hcore := core_settled_ne_assign operand
      rw [settled, settled_eq_assemble operand, selectInside_assemble hcore]
      rfl
  | call _ _ => rfl
  | absent => rfl

/-! The canonical form changes the names of functions only. -/

theorem bound_canonical : ∀ e : Expr, e.canonical.bound = e.bound
  | package _ => rfl
  | sequence _ => rfl
  | assign name value => congrArg (name :: ·) (bound_canonical value)
  | select operand _ => bound_canonical operand
  | call _ _ => rfl
  | absent => rfl

theorem selectors_canonical : ∀ e : Expr, e.canonical.selectors = e.selectors
  | package _ => rfl
  | sequence _ => rfl
  | assign _ value => selectors_canonical value
  | select operand selector => congrArg (· ++ [selector]) (selectors_canonical operand)
  | call _ _ => rfl
  | absent => rfl

theorem core_canonical : ∀ e : Expr, e.canonical.core = e.core.canonical
  | package _ => rfl
  | sequence _ => rfl
  | assign _ value => core_canonical value
  | select operand _ => core_canonical operand
  | call _ _ => rfl
  | absent => rfl

/-- An expression as its printed form shows it. -/
def shown (e : Expr) : Expr := e.canonical.settled

theorem shown_eq_assemble (e : Expr) : e.shown = assemble e.bound e.core.shown e.selectors := by
  rw [shown, settled_eq_assemble, bound_canonical, selectors_canonical, core_canonical, shown]

theorem print_shown (e : Expr) : e.shown.print = e.print := by
  rw [shown, print_settled, print_canonical]

theorem settledAll_canonicalAll (es : List Expr) : settledAll (canonicalAll es) = es.map shown := by
  induction es with
  | nil => rfl
  | cons e rest ih => exact congrArg (e.shown :: ·) ih

end Expr

/-! ### The words of a printed form -/

namespace Token

/-- No plain text goes on with the text. -/
def EndsPlain (cs : List Char) : Prop := ∀ c ∈ cs.head?, isPlain c = false

variable {s t : String} {rest rest' : List Char}

theorem endsPlain_cons {c : Char} (hc : isPlain c = false) : EndsPlain (c :: rest) := by
  intro d hd
  rw [← Option.mem_some.1 hd]
  exact hc

theorem endsPlain_blank : EndsPlain (' ' :: rest) := endsPlain_cons rfl

theorem endsPlain_leftParen : EndsPlain ('(' :: rest) := endsPlain_cons rfl

/-- A word is known from a text that it begins, if it ends there. -/
theorem Plain.append_inj (hs : Plain s) (ht : Plain t) (hrest : EndsPlain rest)
    (hrest' : EndsPlain rest') (h : s.toList ++ rest = t.toList ++ rest') :
    s = t ∧ rest = rest' := by
  have hword : s.toList = t.toList := by
    rw [← takeWhile_append hs hrest, h, takeWhile_append ht hrest']
  refine ⟨String.toList_injective hword, ?_⟩
  rw [hword] at h
  exact List.append_cancel_left h

end Token

namespace Expr

open Token

/-- Names that are bound, as they are printed. -/
def boundText (names : List String) : List Char :=
  names.flatMap fun name => name.toList ++ [' ', ':', '=', ' ']

/-- Selectors, as they are printed. -/
def selectorText (selectors : List String) : List Char :=
  selectors.flatMap fun selector => ':' :: selector.toList

/-- What may follow an operand in a printed form. -/
def Leaves (cs : List Char) : Prop := ∀ c ∈ cs.head?, c ∈ [':', ',', ';', ')']

/-- What may follow a whole expression in a printed form. -/
def Closes (cs : List Char) : Prop := ∀ c ∈ cs.head?, c ∈ [',', ';', ')']

/-- A text begins with a word to which nothing is assigned. -/
def BeginsCore (cs : List Char) : Prop :=
  ∃ (word : String) (rest : List Char), Plain word ∧ EndsPlain rest ∧ rest.head? ≠ some ' ' ∧
    cs = word.toList ++ rest

/-- A printed form is the names, the core and the selectors of an expression. -/
theorem toList_print : ∀ e : Expr,
    e.print.toList = boundText e.bound ++ (e.core.print.toList ++ selectorText e.selectors)
  | package _ | sequence _ | call _ _ | absent => by
      simp [boundText, selectorText, bound, core, selectors]
  | assign name value => by
      simp [print, toList_print value, boundText, bound, core, selectors]
  | select operand selector => by
      simp [print, toList_print operand, selectorText, bound, core, selectors]

variable {e : Expr} {names names' selectors selectors' : List String} {rest rest' : List Char}

theorem Leaves.endsPlain (h : Leaves rest) : EndsPlain rest := by
  intro c hc
  have hmem := h c hc
  simp only [List.mem_cons, List.not_mem_nil, or_false] at hmem
  rcases hmem with rfl | rfl | rfl | rfl <;> rfl

theorem Closes.leaves (h : Closes rest) : Leaves rest :=
  fun c hc => List.mem_cons_of_mem ':' (h c hc)

theorem Closes.leaves_selectorText (h : Closes rest) (selectors : List String) :
    Leaves (selectorText selectors ++ rest) := by
  cases selectors with
  | nil => exact h.leaves
  | cons selector selectors =>
      intro c hc
      rw [← Option.mem_some.1 hc]
      exact List.mem_cons_self

/-- Pieces at the head of a text are known from it if the first one always is, and if what is
    behind them begins with none. -/
theorem flatMap_append_inj {f : String → List Char} {Good : String → Prop} {Ends : List Char → Prop}
    (hfirst : ∀ {s s' more more' rest rest'}, Good s → Good s' → Ends rest → Ends rest' →
      f s ++ (List.flatMap f more ++ rest) = f s' ++ (List.flatMap f more' ++ rest') →
        s = s' ∧ List.flatMap f more ++ rest = List.flatMap f more' ++ rest')
    (hends : ∀ {s cs}, Good s → ¬ Ends (f s ++ cs)) {pieces pieces' : List String}
    (h : ∀ s ∈ pieces, Good s) (h' : ∀ s ∈ pieces', Good s) (hrest : Ends rest)
    (hrest' : Ends rest') (heq : pieces.flatMap f ++ rest = pieces'.flatMap f ++ rest') :
    pieces = pieces' ∧ rest = rest' := by
  induction pieces generalizing pieces' with
  | nil =>
      cases pieces' with
      | nil => exact ⟨rfl, heq⟩
      | cons s' more' =>
          rw [List.flatMap_nil, List.nil_append, List.flatMap_cons, List.append_assoc] at heq
          rw [heq] at hrest
          exact absurd hrest (hends (h' s' List.mem_cons_self))
  | cons s more ih =>
      rw [List.flatMap_cons, List.append_assoc] at heq
      have hgood := h s List.mem_cons_self
      cases pieces' with
      | nil =>
          rw [List.flatMap_nil, List.nil_append] at heq
          rw [← heq] at hrest'
          exact absurd hrest' (hends hgood)
      | cons s' more' =>
          rw [List.flatMap_cons, List.append_assoc] at heq
          have hsame := hfirst hgood (h' s' List.mem_cons_self) hrest hrest' heq
          have hmore := ih (fun t ht => h t (List.mem_cons_of_mem s ht))
            (fun t ht => h' t (List.mem_cons_of_mem s' ht)) hsame.2
          rw [hsame.1, hmore.1]
          exact ⟨rfl, hmore.2⟩

theorem boundText_append_inj (h : ∀ name ∈ names, isPackageName name = true)
    (h' : ∀ name ∈ names', isPackageName name = true) (hrest : BeginsCore rest)
    (hrest' : BeginsCore rest') (heq : boundText names ++ rest = boundText names' ++ rest') :
    names = names' ∧ rest = rest' := by
  refine flatMap_append_inj ?_ ?_ h h' hrest hrest' heq
  · intro s s' more more' rest rest' hs hs' _ _ heq
    rw [List.append_assoc, List.append_assoc] at heq
    have hsame := (plain_of_isPackageName hs).append_inj (plain_of_isPackageName hs')
      endsPlain_blank endsPlain_blank heq
    exact ⟨hsame.1, (List.append_right_inj [' ', ':', '=', ' ']).1 hsame.2⟩
  · rintro s cs hs ⟨word, rest, hword, hrest, hblank, heq⟩
    -- The core would begin with the name, and a blank is behind that.
    rw [List.append_assoc] at heq
    have hsame := (plain_of_isPackageName hs).append_inj hword endsPlain_blank hrest heq
    rw [← hsame.2] at hblank
    exact hblank rfl

theorem selectorText_append_inj (h : ∀ s ∈ selectors, isSelectorName s = true)
    (h' : ∀ s ∈ selectors', isSelectorName s = true) (hrest : Closes rest)
    (hrest' : Closes rest')
    (heq : selectorText selectors ++ rest = selectorText selectors' ++ rest') :
    selectors = selectors' ∧ rest = rest' := by
  refine flatMap_append_inj ?_ ?_ h h' hrest hrest' heq
  · intro s s' more more' rest rest' hs hs' hrest hrest' heq
    rw [List.cons_append, List.cons_append, List.cons.injEq] at heq
    exact (plain_of_isSelectorName hs).append_inj (plain_of_isSelectorName hs')
      (hrest.leaves_selectorText more).endsPlain (hrest'.leaves_selectorText more').endsPlain heq.2
  · intro s cs _ hcolon
    exact absurd (hcolon ':' rfl) (by decide)

/-! ### Parts of a parsed expression -/

theorem Parsed.forall_bound (h : e.Parsed) : ∀ name ∈ e.bound, isPackageName name = true := by
  induction h with
  | package | call => exact fun name hname => absurd hname List.not_mem_nil
  | assign hname _ ih => exact List.forall_mem_cons.2 ⟨hname, ih⟩
  | select _ _ ih => exact ih

theorem Parsed.forall_selectors (h : e.Parsed) : ∀ s ∈ e.selectors, isSelectorName s = true := by
  induction h with
  | package | call => exact fun s hs => absurd hs List.not_mem_nil
  | assign _ _ ih => exact ih
  | select hselector _ ih =>
      exact List.forall_mem_append.2 ⟨ih, List.forall_mem_singleton.2 hselector⟩

/-- The core of a parsed expression is the name of a package or a call. -/
inductive IsCore : Expr → Prop
  | package {name : String} (hname : isPackageName name = true) : IsCore (.package name)
  | call {func : String} {args : List Expr} (hfunc : func ≠ "" → isFunctionName func = true)
      (hargs : args ≠ []) (h : ∀ arg ∈ args, Parsed arg) : IsCore (.call func args)

theorem Parsed.isCore (h : e.Parsed) : e.core.IsCore := by
  induction h with
  | package hname => exact .package hname
  | call hfunc hargs h => exact .call hfunc hargs h
  | assign _ _ ih | select _ _ ih => exact ih

theorem toList_print_call (func : String) (args : List Expr) (rest : List Char) :
    (call func args).print.toList ++ rest = (canonicalName func).toList ++
      '(' :: ((Text.join ", " (printAll args)).toList ++ ')' :: rest) := by
  simp [print]

theorem plain_canonicalName {func : String} (hfunc : func ≠ "" → isFunctionName func = true) :
    Plain (canonicalName func) := by
  by_cases hempty : func = ""
  · rw [hempty]
    exact fun c hc => absurd hc List.not_mem_nil
  · exact plain_of_isFunctionName (isFunctionName_canonicalName (hfunc hempty))

theorem IsCore.beginsCore (h : e.IsCore) (hrest : Leaves rest) :
    BeginsCore (e.print.toList ++ rest) := by
  cases h with
  | @package name hname =>
      refine ⟨name, rest, plain_of_isPackageName hname, hrest.endsPlain, fun hblank => ?_, rfl⟩
      exact absurd (hrest ' ' hblank) (by decide)
  | call hfunc =>
      rw [toList_print_call]
      exact ⟨_, _, plain_canonicalName hfunc, endsPlain_leftParen, by simp, rfl⟩

/-! ### Unmistakable expressions -/

/-- A printed form shows an expression, whatever may follow it. -/
def Unmistakable (e : Expr) : Prop :=
  ∀ {e' rest rest'}, Parsed e' → Closes rest → Closes rest' →
    e.print.toList ++ rest = e'.print.toList ++ rest' → e.shown = e'.shown ∧ rest = rest'

/-- It does if it shows the core. -/
theorem Parsed.unmistakable_of_core (h : e.Parsed)
    (hcore : ∀ {e' rest rest'}, Parsed e' → Leaves rest → Leaves rest' →
      e.core.print.toList ++ rest = e'.core.print.toList ++ rest' →
        e.core.shown = e'.core.shown ∧ rest = rest') : e.Unmistakable := by
  intro e' rest rest' h' hrest hrest' heq
  have hselectors := hrest.leaves_selectorText e.selectors
  have hselectors' := hrest'.leaves_selectorText e'.selectors
  rw [toList_print e, toList_print e', List.append_assoc, List.append_assoc, List.append_assoc,
    List.append_assoc] at heq
  have hnames := boundText_append_inj h.forall_bound h'.forall_bound
    (h.isCore.beginsCore hselectors) (h'.isCore.beginsCore hselectors') heq
  have hcores := hcore h' hselectors hselectors' hnames.2
  have hends := selectorText_append_inj h.forall_selectors h'.forall_selectors hrest hrest' hcores.2
  rw [shown_eq_assemble, hnames.1, hcores.1, hends.1, ← shown_eq_assemble]
  exact ⟨rfl, hends.2⟩

theorem toList_join_cons {e f : Expr} {more : List Expr} {sep : String} {c : Char}
    (hsep : sep.toList = [c, ' ']) (rest : List Char) :
    (Text.join sep (printAll (e :: f :: more))).toList ++ rest =
      e.print.toList ++ c :: ' ' :: ((Text.join sep (printAll (f :: more))).toList ++ rest) := by
  simp [printAll, Text.join, hsep]

/-- Expressions with separators between them are read one after the other. -/
theorem join_append_inj {es es' : List Expr} {sep : String} {c : Char}
    (hsep : sep.toList = [c, ' ']) (hc : c ∈ [',', ';', ')']) (hes : es ≠ []) (hes' : es' ≠ [])
    (h : ∀ e ∈ es, e.Unmistakable) (h' : ∀ e ∈ es', e.Parsed) (hrest : Closes rest)
    (hrest' : Closes rest') (hend : rest.head? ≠ some c) (hend' : rest'.head? ≠ some c)
    (heq : (Text.join sep (printAll es)).toList ++ rest =
      (Text.join sep (printAll es')).toList ++ rest') :
    es.map shown = es'.map shown ∧ rest = rest' := by
  have hcloses : ∀ {cs : List Char}, Closes (c :: cs) := by
    intro cs d hd
    rw [← Option.mem_some.1 hd]
    exact hc
  induction es generalizing es' with
  | nil => exact absurd rfl hes
  | cons e more ih =>
      rcases es' with _ | ⟨e', more'⟩
      · exact absurd rfl hes'
      have hfirst : e.Unmistakable := h e List.mem_cons_self
      have hfirst' := h' e' List.mem_cons_self
      rcases more with _ | ⟨f, more⟩ <;> rcases more' with _ | ⟨f', more'⟩
      · have hsame := hfirst hfirst' hrest hrest' heq
        exact ⟨congrArg ([·]) hsame.1, hsame.2⟩
      · rw [toList_join_cons hsep] at heq
        have hsame := hfirst hfirst' hrest hcloses heq
        rw [hsame.2] at hend
        exact absurd rfl hend
      · rw [toList_join_cons hsep] at heq
        have hsame := hfirst hfirst' hcloses hrest' heq
        rw [← hsame.2] at hend'
        exact absurd rfl hend'
      · rw [toList_join_cons hsep, toList_join_cons hsep] at heq
        have hsame := hfirst hfirst' hcloses hcloses heq
        simp only [List.cons.injEq, true_and] at hsame
        have hmore := ih (List.cons_ne_nil f more) (List.cons_ne_nil f' more')
          (fun g hg => h g (List.mem_cons_of_mem e hg))
          (fun g hg => h' g (List.mem_cons_of_mem e' hg)) hsame.2
        exact ⟨congrArg₂ List.cons hsame.1 hmore.1, hmore.2⟩

/-- The core is read as what it is. -/
theorem Parsed.core_append_inj {e e' : Expr} (h : e.Parsed) (h' : e'.Parsed) (hrest : Leaves rest)
    (hrest' : Leaves rest') (heq : e.core.print.toList ++ rest = e'.core.print.toList ++ rest') :
    e.core.shown = e'.core.shown ∧ rest = rest' := by
  have hparen : ∀ {cs : List Char}, ¬ Leaves ('(' :: cs) := fun hcs =>
    absurd (hcs '(' rfl) (by decide)
  induction h generalizing e' rest rest' with
  | assign _ _ ih => exact ih h' hrest hrest' heq
  | select _ _ ih => exact ih h' hrest hrest' heq
  | @package name hname =>
      change name.toList ++ rest = _ at heq
      have hcore' := h'.isCore
      generalize e'.core = core' at *
      cases hcore' with
      | package hname' =>
          have hsame := (plain_of_isPackageName hname).append_inj (plain_of_isPackageName hname')
            hrest.endsPlain hrest'.endsPlain heq
          rw [hsame.1]
          exact ⟨rfl, hsame.2⟩
      | call hfunc' =>
          rw [toList_print_call] at heq
          have hsame := (plain_of_isPackageName hname).append_inj (plain_canonicalName hfunc')
            hrest.endsPlain endsPlain_leftParen heq
          rw [hsame.2] at hrest
          exact absurd hrest hparen
  | @call func args hfunc hargs h ih =>
      change (Expr.call func args).print.toList ++ rest = _ at heq
      rw [toList_print_call] at heq
      have hcore' := h'.isCore
      generalize e'.core = core' at *
      cases hcore' with
      | package hname' =>
          have hsame := (plain_canonicalName hfunc).append_inj (plain_of_isPackageName hname')
            endsPlain_leftParen hrest'.endsPlain heq
          rw [← hsame.2] at hrest'
          exact absurd hrest' hparen
      | @call func' args' hfunc' hargs' hparsed =>
          rw [toList_print_call] at heq
          have hsame := (plain_canonicalName hfunc).append_inj (plain_canonicalName hfunc')
            endsPlain_leftParen endsPlain_leftParen heq
          -- The list of arguments ends at the parenthesis, which no argument goes on with.
          have hclose : ∀ {cs : List Char}, Closes (')' :: cs) := by
            intro cs d hd
            rw [← Option.mem_some.1 hd]
            decide
          rw [List.cons.injEq] at hsame
          have hjoined := join_append_inj (c := ',') rfl (by decide) hargs hargs'
            (fun arg harg => (h arg harg).unmistakable_of_core (ih arg harg)) hparsed hclose hclose
            (by simp) (by simp) hsame.2.2
          rw [List.cons.injEq] at hjoined
          refine ⟨?_, hjoined.2.2⟩
          simp only [Expr.core, shown, canonical, settled, settledAll_canonicalAll, hsame.1,
            hjoined.1]

theorem Parsed.unmistakable (h : e.Parsed) : e.Unmistakable :=
  h.unmistakable_of_core h.core_append_inj

/-! ### Queries -/

variable {es es' : List Expr} {tree tree' : Expr}

theorem print_ofStatements (h : ofStatements es = some tree) :
    tree.print = Text.join "; " (printAll es) := by
  rcases es with _ | ⟨e, _ | ⟨f, more⟩⟩
  · cases h
  · cases h
    rfl
  · cases h
    rfl

theorem shown_ofStatements (h : ofStatements es = some tree) :
    ofStatements (es.map shown) = some tree.shown := by
  rcases es with _ | ⟨e, _ | ⟨f, more⟩⟩
  · cases h
  · cases h
    rfl
  · cases h
    rw [shown, canonical, settled, settledAll_canonicalAll]
    rfl

/-- Two queries are printed alike if the same is shown of them. -/
theorem print_eq_iff (hes : ∀ e ∈ es, e.Parsed) (hes' : ∀ e ∈ es', e.Parsed)
    (h : ofStatements es = some tree) (h' : ofStatements es' = some tree') :
    tree.print = tree'.print ↔ tree.shown = tree'.shown := by
  constructor
  · intro heq
    rw [print_ofStatements h, print_ofStatements h'] at heq
    have hne : es ≠ [] := by
      rintro rfl
      cases h
    have hne' : es' ≠ [] := by
      rintro rfl
      cases h'
    have hend : Closes [] := fun _ hc => absurd hc (Option.not_mem_none _)
    have hsame := join_append_inj (c := ';') rfl (by decide) hne hne'
      (fun e he => (hes e he).unmistakable) hes' hend hend nofun nofun
      (congrArg (·.toList ++ []) heq)
    have htree := shown_ofStatements h
    rw [hsame.1, shown_ofStatements h'] at htree
    exact (Option.some.inj htree).symm
  · intro heq
    rw [← print_shown tree, heq, print_shown]

end Expr

end PackageAlgebra
