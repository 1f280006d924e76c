import PackageAlgebra.Proofs.Query.Scanning
import Mathlib.Data.List.Chain

/-!
# Spelling

A text is its tokens spelled one after another, with blanks between them.

The scanner drops nothing but blanks, and it drops them between tokens only. So a text that has
tokens is `Cut` into them: it is made of blanks and of the spellings of the tokens in their order.
Not every text made that way is cut so, since a token may run into the next one. What decides is the
text directly behind a token: a name would go on with a name character, a parenthesis makes a
function of a name or of an operator, and nothing else matters. With this condition on each token,
`Cut` is exactly what the scanner does, and both directions between texts and tokens are read off
it. From a text to its tokens, the spellings are what is left without the blanks. From tokens to a
text, a blank behind each of them meets the condition, whatever comes next; only between a function
and its parenthesis there must be none.

## Main definitions

* `Token.spelling`: The characters of a token in a text.
* `Token.isProper`: A token has a text that its kind can have.
* `Token.WellFormed`: All tokens are proper, and functions have their parentheses.
* `Token.EndsBefore`: A token ends where a text comes directly behind it.
* `Token.Cut`: A text is made of blanks and tokens that do not run into each other.
* `Token.Placed`, `Token.spread`: Tokens with numbers of blanks, and the text they make.
* `Token.Gap`: A blank stands before a token, unless it is the parenthesis of a function.

## Theorems

* `Token.scanFrom_eq_ok_iff`: The scanner cuts a text into tokens.
* `Token.isPackageName_iff`, `isFunctionName_iff`, `isSelectorName_iff`: The looks of a name are
  those of a token.
* `Token.Cut.exists_spread`: Each text that is cut is spread out of its tokens.
* `Token.scan_keeps_text`: The tokens of a text are well-formed, and spell it.
* `Token.cut_spread`: Tokens with blanks between them do not run into each other.
* `Token.scan_spread`: Well-formed tokens are cut from each text that spells them with blanks.
-/

namespace PackageAlgebra

namespace Token

/-- The characters of a token as they stand in a text: a selector has its colon before it. -/
def spelling (t : Token) : List Char :=
  match t.kind with
  | .selector => ':' :: t.text.toList
  | _ => t.text.toList

/-- Whether a token has a text that its kind can have. -/
def isProper (t : Token) : Bool :=
  match t.kind with
  | .package => isPackageName t.text
  | .func => isFunctionName t.text
  | .selector => isSelectorName t.text
  | .op => t.text = "+" || t.text = "-"
  | .comma => t.text = ","
  | .leftParen => t.text = "("
  | .rightParen => t.text = ")"
  | .semicolon => t.text = ";"
  | .assign => t.text = ":="

/-- Whether the name of each function is followed by a parenthesis. -/
def opensCalls : List Token → Bool
  | [] => true
  | t :: rest =>
    (t.kind ≠ .func || rest.head?.any fun next => next.kind = .leftParen) && opensCalls rest

/-- A token list that could be that of a text. -/
structure WellFormed (ts : List Token) : Prop where
  -- Each token has a text that its kind can have.
  proper : ∀ t ∈ ts, t.isProper = true
  -- The name of each function is followed by its parenthesis.
  opens : opensCalls ts = true

/-- Whether a token of a kind ends where it is spelled, and stays of its kind, if a text comes
    directly behind it. -/
def EndsBefore (kind : TokenKind) (cs : List Char) : Prop :=
  match kind with
  | .package => EndsName cs
  | .func => cs.head? = some '('
  | .selector => ∀ c ∈ cs.head?, continuesName c = false
  | .op => cs.head? ≠ some '('
  | _ => True

/-- A text is made of blanks and of tokens that do not run into each other. -/
inductive Cut : List Token → List Char → Prop
  | nil : Cut [] []
  | blank {ts : List Token} {cs : List Char} (h : Cut ts cs) : Cut ts (' ' :: cs)
  | token {t : Token} {ts : List Token} {cs : List Char} (ht : t.isProper = true)
      (hnext : EndsBefore t.kind cs) (h : Cut ts cs) : Cut (t :: ts) (t.spelling ++ cs)

variable {t : Token} {ts us : List Token} {cs rest : List Char} {s : String}

/-! ### What the scanner cuts -/

/-- A token is put before a text. -/
theorem Scans.token (ht : t.isProper = true) (hnext : EndsBefore t.kind rest) (h : Scans rest us) :
    Scans (t.spelling ++ rest) (t :: us) := by
  rcases t with ⟨kind, text⟩
  cases kind with
  | package => exact .package ht hnext h
  | func => exact .functionName ht hnext h
  | selector => exact .selector ht hnext h
  | assign =>
      simp only [isProper, decide_eq_true_eq] at ht
      subst ht
      exact .assign h
  | op =>
      simp only [isProper, Bool.or_eq_true, decide_eq_true_eq] at ht
      rcases ht with rfl | rfl
      · exact .operator (by decide) hnext h
      · exact .operator (by decide) hnext h
  | comma | leftParen | rightParen | semicolon =>
      simp only [isProper, decide_eq_true_eq] at ht
      subst ht
      exact .mark (by decide) h

theorem Cut.scans (h : Cut ts cs) : Scans cs ts := by
  induction h with
  | nil => exact .nil
  | blank _ ih => exact ih.blank
  | token ht hnext _ ih => exact .token ht hnext ih

/-- Behind a run of name characters there is none. -/
theorem stops_afterName (cs : List Char) : ∀ c ∈ (afterName cs).head?, continuesName c = false := by
  intro c hc
  have hhead := List.head?_dropWhile_not continuesName cs
  unfold afterName at hc
  rw [Option.mem_def] at hc
  rw [hc] at hhead
  simpa using hhead

theorem exists_of_map_cons {r : Except TokenError (List Token)} (h : (t :: ·) <$> r = .ok ts) :
    ∃ us, r = .ok us ∧ ts = t :: us := by
  cases r with
  | error e => cases h
  | ok us =>
      cases h
      exact ⟨us, rfl, rfl⟩

theorem isProper_operator {c : Char} (hc : isOperator c = true) :
    isProper ⟨.op, c.toString⟩ = true := by
  unfold isOperator at hc
  rw [Bool.or_eq_true, decide_eq_true_iff, decide_eq_true_iff] at hc
  rcases hc with rfl | rfl <;> decide

/-- A run of name characters and what follows it are the text. -/
theorem toList_run_append (c : Char) (rest : List Char) :
    (String.ofList (c :: nameRun rest)).toList ++ afterName rest = c :: rest := by
  have hrun : nameRun rest ++ afterName rest = rest := List.takeWhile_append_dropWhile
  rw [String.toList_ofList, List.cons_append, hrun]

theorem cut_of_scanFrom (position : Nat) (h : scanFrom position cs = .ok ts) : Cut ts cs := by
  fun_induction scanFrom position cs generalizing ts with
  | case1 =>
      cases h
      exact .nil
  | case2 => next ih => exact (ih h).blank
  | case3 =>
      next c rest _ hc name _ hopen ih =>
        rcases exists_of_map_cons h with ⟨us, hus, rfl⟩
        rw [← toList_run_append c rest]
        exact .token (isFunctionName_run hc rest) hopen (ih hus)
  | case5 =>
      next c rest _ hc name _ hopen hassign ih =>
        rcases exists_of_map_cons h with ⟨us, hus, rfl⟩
        have hend : EndsName (afterName rest) := by
          intro d hd
          refine ⟨stops_afterName rest d hd, ?_⟩
          rintro rfl
          exact hopen hd
        rw [← toList_run_append c rest]
        exact .token (isPackageName_run hc hassign) hend (ih hus)
  | case12 =>
      next d rest _ hd _ _ _ _ _ _ ih =>
        rcases exists_of_map_cons h with ⟨us, hus, rfl⟩
        have hname : isSelectorName (String.ofList (d :: nameRun rest)) = true := isWord_run hd rest
        rw [← toList_run_append d rest]
        exact .token hname (stops_afterName rest) (ih hus)
  | case14 =>
      next c rest _ _ _ _ _ _ _ hc hopen ih =>
        rcases exists_of_map_cons h with ⟨us, hus, rfl⟩
        have hspell : c.toString.toList ++ rest = c :: rest := by simp
        rw [← hspell]
        exact .token (isFunctionName_operator hc) hopen (ih hus)
  | case6 | case7 | case8 | case9 =>
      next ih =>
        rcases exists_of_map_cons h with ⟨us, hus, rfl⟩
        exact .token (by decide) trivial (ih hus)
  | case11 =>
      next ih =>
        rcases exists_of_map_cons h with ⟨us, hus, rfl⟩
        exact .token (t := ⟨.assign, ":="⟩) (by decide) trivial (ih hus)
  | case15 =>
      next c rest _ _ _ _ _ _ _ hc hopen ih =>
        rcases exists_of_map_cons h with ⟨us, hus, rfl⟩
        have hspell : c.toString.toList ++ rest = c :: rest := by simp
        rw [← hspell]
        exact .token (isProper_operator hc) hopen (ih hus)
  | case4 | case10 | case13 | case16 => cases h

/-- The scanner cuts a text into tokens. -/
theorem scanFrom_eq_ok_iff (position : Nat) : scanFrom position cs = .ok ts ↔ Cut ts cs :=
  ⟨cut_of_scanFrom position, fun h => h.scans position⟩

/-! ### From a text to its tokens -/

/-- A token with the number of blanks that stand before it. -/
structure Placed where
  -- The number of blanks.
  blanks : Nat
  -- The token behind them.
  token : Token
  deriving DecidableEq

/-- The text that tokens make, each behind its blanks. -/
def spread : List Placed → List Char
  | [] => []
  | p :: rest => List.replicate p.blanks ' ' ++ (p.token.spelling ++ spread rest)

/-- A token is spelled without blanks, and only an opening parenthesis is spelled with one. -/
theorem mem_spelling {c : Char} (ht : t.isProper = true) (hc : c ∈ t.spelling) :
    c ≠ ' ' ∧ (c = '(' → t.kind = .leftParen) := by
  have hplain : ∀ text, Plain text → c ∈ text.toList →
      c ≠ ' ' ∧ (c = '(' → t.kind = .leftParen) := by
    intro text htext hmem
    refine ⟨?_, ?_⟩
    · rintro rfl
      exact htext.not_mem rfl hmem
    · rintro rfl
      exact absurd hmem (htext.not_mem rfl)
  rcases t with ⟨kind, text⟩
  cases kind with
  | package => exact hplain text (plain_of_isPackageName ht) hc
  | func => exact hplain text (plain_of_isFunctionName ht) hc
  | selector =>
      rcases List.mem_cons.1 hc with rfl | hmem
      · exact ⟨by decide, fun hopen => absurd hopen (by decide)⟩
      · exact hplain text (plain_of_isSelectorName ht) hmem
  | op =>
      simp only [isProper, Bool.or_eq_true, decide_eq_true_eq] at ht
      rcases ht with rfl | rfl <;> exact hplain _ (plain_of_isFunctionName rfl) hc
  | comma | leftParen | rightParen | semicolon =>
      simp only [isProper, decide_eq_true_eq] at ht
      subst ht
      rw [List.mem_singleton.1 hc]
      decide
  | assign =>
      simp only [isProper, decide_eq_true_eq] at ht
      subst ht
      have hchars : c = ':' ∨ c = '=' := by simpa [spelling] using hc
      rcases hchars with rfl | rfl <;> decide

theorem spelling_ne_nil (ht : t.isProper = true) : t.spelling ≠ [] := by
  rcases t with ⟨kind, text⟩
  intro hnil
  have hempty : kind ≠ .selector → text = "" := by
    intro hkind
    cases kind with
    | selector => exact absurd rfl hkind
    | package | func | op | comma | leftParen | rightParen | semicolon | assign =>
      exact String.toList_eq_nil_iff.1 hnil
  cases kind with
  | selector => exact absurd hnil (List.cons_ne_nil ':' text.toList)
  | package | func | op | comma | leftParen | rightParen | semicolon | assign =>
      rw [hempty (by decide)] at ht
      exact absurd ht (by decide)

theorem Cut.forall_isProper (h : Cut ts cs) : ∀ t ∈ ts, t.isProper = true := by
  induction h with
  | nil => exact fun t ht => absurd ht List.not_mem_nil
  | blank _ ih => exact ih
  | token ht _ _ ih => exact List.forall_mem_cons.2 ⟨ht, ih⟩

/-- A text is the name of a package if it is cut as one. -/
theorem isPackageName_iff : isPackageName s = true ↔ scan s = .ok [⟨.package, s⟩] := by
  constructor
  · intro hs
    have hscan := Scans.package hs endsName_nil .nil 0
    rwa [List.append_nil] at hscan
  · exact fun h => ((scanFrom_eq_ok_iff 0).1 h).forall_isProper _ List.mem_cons_self

/-- A text is the name of a function if it is cut as one before a parenthesis. -/
theorem isFunctionName_iff :
    isFunctionName s = true ↔ scan (s ++ "(") = .ok [⟨.func, s⟩, ⟨.leftParen, "("⟩] := by
  constructor
  · intro hs
    have hscan := Scans.function hs .nil 0
    unfold scan
    rwa [String.toList_append]
  · exact fun h => ((scanFrom_eq_ok_iff 0).1 h).forall_isProper _ List.mem_cons_self

/-- A text is a selector if it is cut as one behind a colon. -/
theorem isSelectorName_iff :
    isSelectorName s = true ↔ scan (":" ++ s) = .ok [⟨.selector, s⟩] := by
  constructor
  · intro hs
    have hscan := Scans.selector hs endsName_nil.stops .nil 0
    rw [List.append_nil] at hscan
    unfold scan
    rwa [String.toList_append]
  · exact fun h => ((scanFrom_eq_ok_iff 0).1 h).forall_isProper _ List.mem_cons_self

/-- A text that begins with a parenthesis is cut into one and more. -/
theorem Cut.head?_kind (h : Cut ts cs) (hopen : cs.head? = some '(') :
    (ts.head?.any fun next => next.kind = .leftParen) = true := by
  cases h with
  | nil => cases hopen
  | blank => simp at hopen
  | @token t ts cs ht =>
      rw [List.head?_append_of_ne_nil _ (spelling_ne_nil ht)] at hopen
      have hkind := (mem_spelling ht (List.mem_of_head? hopen)).2 rfl
      simp [hkind]

theorem Cut.wellFormed (h : Cut ts cs) : WellFormed ts := by
  refine ⟨h.forall_isProper, ?_⟩
  induction h with
  | nil => rfl
  | blank _ ih => exact ih
  | @token t ts cs _ hnext h ih =>
      unfold opensCalls
      rw [ih, Bool.and_true]
      by_cases hkind : t.kind = .func
      · rw [hkind] at hnext
        rw [h.head?_kind hnext, Bool.or_true]
      · simp [hkind]

/-- The spellings of the tokens are what is left of a text without its blanks. -/
theorem Cut.flatMap_spelling (h : Cut ts cs) : ts.flatMap spelling = cs.filter (· ≠ ' ') := by
  induction h with
  | nil => rfl
  | blank _ ih =>
      rw [ih]
      exact (List.filter_cons_of_neg (by decide)).symm
  | @token t ts cs ht _ _ ih =>
      have hkeep : t.spelling.filter (· ≠ ' ') = t.spelling := by
        refine List.filter_eq_self.2 fun c hc => ?_
        rw [decide_eq_true_iff]
        rintro rfl
        exact (mem_spelling ht hc).1 rfl
      rw [List.flatMap_cons, List.filter_append, hkeep, ih]

/-- A text is spread out of the tokens that it is cut into. -/
theorem Cut.exists_spread (h : Cut ts cs) : ∃ layout blanks,
    layout.map Placed.token = ts ∧ cs = spread layout ++ List.replicate blanks ' ' := by
  induction h with
  | nil => exact ⟨[], 0, rfl, rfl⟩
  | blank _ ih =>
      rcases ih with ⟨layout, blanks, rfl, rfl⟩
      cases layout with
      | nil => exact ⟨[], blanks + 1, rfl, rfl⟩
      | cons p rest => exact ⟨⟨p.blanks + 1, p.token⟩ :: rest, blanks, rfl, rfl⟩
  | @token t ts cs _ _ _ ih =>
      rcases ih with ⟨layout, blanks, rfl, rfl⟩
      exact ⟨⟨0, t⟩ :: layout, blanks, rfl, by simp [spread]⟩

/-- The tokens of a text are well-formed and spell it: without the blanks it is their spellings one
    after another, and the blanks stand between them. -/
theorem scan_keeps_text (h : scan s = .ok ts) :
    WellFormed ts ∧ ts.flatMap spelling = s.toList.filter (· ≠ ' ') ∧
      ∃ layout blanks, layout.map Placed.token = ts ∧
        s.toList = spread layout ++ List.replicate blanks ' ' := by
  have hcut : Cut ts s.toList := (scanFrom_eq_ok_iff 0).1 h
  exact ⟨hcut.wellFormed, hcut.flatMap_spelling, hcut.exists_spread⟩

/-- `x:= f(a:+all ,b)-g;` -/
def mixedTokens : List Token :=
  [⟨.package, "x"⟩, ⟨.assign, ":="⟩, ⟨.func, "f"⟩, ⟨.leftParen, "("⟩, ⟨.package, "a"⟩,
    ⟨.selector, "+all"⟩, ⟨.comma, ","⟩, ⟨.package, "b"⟩, ⟨.rightParen, ")"⟩, ⟨.op, "-"⟩,
    ⟨.package, "g"⟩, ⟨.semicolon, ";"⟩]

theorem scan_keeps_text_mixed :
    scan "x:= f(a:+all ,b)-g;" = .ok mixedTokens ∧ WellFormed mixedTokens ∧
      mixedTokens.flatMap spelling = "x:=f(a:+all,b)-g;".toList := by
  have hscan : scan "x:= f(a:+all ,b)-g;" = .ok mixedTokens := by decide +kernel
  have hkeeps := scan_keeps_text hscan
  refine ⟨hscan, hkeeps.1, hkeeps.2.1.trans ?_⟩
  decide

/-! ### From tokens to a text -/

theorem Cut.blanks (h : Cut ts cs) (n : Nat) : Cut ts (List.replicate n ' ' ++ cs) := by
  induction n with
  | zero => exact h
  | succ n ih => exact ih.blank

/-- A token that is no function ends before a blank. -/
theorem endsBefore_of_blank {kind : TokenKind} (hkind : kind ≠ .func)
    (hcs : ∀ c ∈ cs.head?, c = ' ') : EndsBefore kind cs := by
  cases kind with
  | func => exact absurd rfl hkind
  | package =>
      intro c hc
      rw [hcs c hc]
      decide
  | selector =>
      intro c hc
      rw [hcs c hc]
      decide
  | op =>
      intro hopen
      exact absurd (hcs '(' hopen) (by decide)
  | comma | leftParen | rightParen | semicolon | assign => trivial

/-- There is a blank before a token, unless it is the parenthesis of a function. -/
def Gap (p q : Placed) : Prop := if p.token.kind = .func then q.blanks = 0 else 0 < q.blanks

instance (p q : Placed) : Decidable (Gap p q) :=
  inferInstanceAs (Decidable (if p.token.kind = .func then q.blanks = 0 else 0 < q.blanks))

variable {layout : List Placed} {p : Placed}

theorem WellFormed.tail (h : WellFormed (t :: ts)) : WellFormed ts := by
  refine ⟨fun u hu => h.proper u (List.mem_cons_of_mem t hu), ?_⟩
  have hopen := h.opens
  rw [opensCalls, Bool.and_eq_true] at hopen
  exact hopen.2

theorem spelling_leftParen (ht : t.isProper = true) (hkind : t.kind = .leftParen) :
    t.spelling = ['('] := by
  rcases t with ⟨kind, text⟩
  subst hkind
  simp only [isProper, decide_eq_true_eq] at ht
  subst ht
  rfl

/-- A token ends before the text of the tokens behind it. -/
theorem endsBefore_spread (hts : WellFormed ((p :: layout).map Placed.token))
    (hgaps : (p :: layout).IsChain Gap) (blanks : Nat) :
    EndsBefore p.token.kind (spread layout ++ List.replicate blanks ' ') := by
  by_cases hfunc : p.token.kind = .func
  · rw [hfunc]
    have hopen := hts.opens
    simp only [List.map_cons, opensCalls, hfunc, Bool.and_eq_true] at hopen
    cases layout with
    | nil => exact absurd hopen.1 (by decide)
    | cons q rest =>
        have hkind : q.token.kind = .leftParen := by simpa using hopen.1
        have hblanks : q.blanks = 0 := by
          have hgap := (List.isChain_cons_cons.1 hgaps).1
          rwa [Gap, if_pos hfunc] at hgap
        have hspell : q.token.spelling = ['('] :=
          spelling_leftParen (hts.proper q.token (by simp)) hkind
        rw [spread, hblanks, hspell]
        rfl
  · refine endsBefore_of_blank hfunc fun c hc => ?_
    cases layout with
    | nil => exact List.eq_of_mem_replicate (List.mem_of_head? hc)
    | cons q rest =>
        have hblanks : 0 < q.blanks := by
          have hgap := (List.isChain_cons_cons.1 hgaps).1
          rwa [Gap, if_neg hfunc] at hgap
        have hne : List.replicate q.blanks ' ' ≠ [] := by simp; omega
        rw [spread, List.append_assoc, List.head?_append_of_ne_nil _ hne] at hc
        exact List.eq_of_mem_replicate (List.mem_of_head? hc)

/-- Tokens that are spread out with blanks between them do not run into each other. -/
theorem cut_spread (hts : WellFormed (layout.map Placed.token)) (hgaps : layout.IsChain Gap)
    (blanks : Nat) :
    Cut (layout.map Placed.token) (spread layout ++ List.replicate blanks ' ') := by
  induction layout with
  | nil =>
      have hcut := Cut.nil.blanks blanks
      rwa [List.append_nil] at hcut
  | cons p rest ih =>
      have hcut := ih hts.tail hgaps.tail
      have hnext := endsBefore_spread hts hgaps blanks
      have hp := hts.proper p.token List.mem_cons_self
      rw [spread, List.append_assoc, List.append_assoc]
      exact (Cut.token hp hnext hcut).blanks p.blanks

/-- Well-formed tokens are cut from each text that spells them with blanks between them. -/
theorem scan_spread (hts : WellFormed (layout.map Placed.token)) (hgaps : layout.IsChain Gap)
    (blanks : Nat) : scan (String.ofList (spread layout ++ List.replicate blanks ' ')) =
      .ok (layout.map Placed.token) := by
  unfold scan
  rw [String.toList_ofList]
  exact (scanFrom_eq_ok_iff 0).2 (cut_spread hts hgaps blanks)

/-- ` x := +( a :- ,  b ) - g ;` -/
def spacedLayout : List Placed :=
  [⟨1, ⟨.package, "x"⟩⟩, ⟨1, ⟨.assign, ":="⟩⟩, ⟨1, ⟨.func, "+"⟩⟩, ⟨0, ⟨.leftParen, "("⟩⟩,
    ⟨1, ⟨.package, "a"⟩⟩, ⟨1, ⟨.selector, "-"⟩⟩, ⟨1, ⟨.comma, ","⟩⟩, ⟨2, ⟨.package, "b"⟩⟩,
    ⟨1, ⟨.rightParen, ")"⟩⟩, ⟨1, ⟨.op, "-"⟩⟩, ⟨1, ⟨.package, "g"⟩⟩, ⟨1, ⟨.semicolon, ";"⟩⟩]

theorem scan_spread_spaced :
    WellFormed (spacedLayout.map Placed.token) ∧ spacedLayout.IsChain Gap ∧
      scan " x := +( a :- ,  b ) - g ;" = .ok (spacedLayout.map Placed.token) := by
  have hts : WellFormed (spacedLayout.map Placed.token) := ⟨by decide, by decide⟩
  have hgaps : spacedLayout.IsChain Gap := by decide
  have hscan := scan_spread hts hgaps 0
  have htext : String.ofList (spread spacedLayout ++ List.replicate 0 ' ') =
      " x := +( a :- ,  b ) - g ;" := by decide
  rw [htext] at hscan
  exact ⟨hts, hgaps, hscan⟩

end Token

end PackageAlgebra
