import PackageAlgebra.Query.Token

/-!
# Scanning

Which tokens are cut from a text that is put together from the texts of tokens.

A name ends where no more name characters follow, so what is cut from the beginning of
a text depends on what comes behind it. The lemmas here have one shape: a text is put
before another one whose tokens are known, and if the other one does not go on with the
last name, its tokens follow those of the first. The position of a text is only shown in
errors, and is of no account where there are none; `Scans` leaves it out.

A parenthesis makes a function of the name before it. A function is therefore put before
a text together with its parenthesis, as two tokens at once.

What a name may look like is said of its characters, and it is what the scanner cuts off:
a text that has the looks of a name is cut as one, and what is cut off has them.

## Main definitions

* `Token.isPackageName`, `isFunctionName`, `isSelectorName`: What the texts of tokens
  look like.
* `Token.Plain`: A text of characters that names and selectors have.
* `Token.Scans`: The tokens of a list of characters, at any position.
* `Token.EndsName`: No name goes on with the text, and it makes no function of one.

## Theorems

* `Token.Scans.package`, `selector`, `functionName`: A name is put before a text.
* `Token.isPackageName_run`, `isFunctionName_run`, `isWord_run`: The scanner cuts off what
  looks like a name.
-/

namespace PackageAlgebra

namespace Token

/-- Whether a text is a run of name characters behind a first character of its own. -/
def isWord (first : Char → Bool) (s : String) : Bool :=
  match s.toList with
  | [] => false
  | c :: rest => first c && rest.all continuesName

/-- Whether a text is the name of a package. -/
def isPackageName (s : String) : Bool := isWord beginsName s && !s.toList.contains '='

/-- Whether a text is the name of a function. -/
def isFunctionName (s : String) : Bool := isWord beginsName s || s = "+" || s = "-"

/-- Whether a text is a selector. -/
def isSelectorName (s : String) : Bool := isWord (fun c => beginsName c || isOperator c) s

/-- The characters of names and selectors. -/
def isPlain (c : Char) : Bool := continuesName c || isOperator c

/-- A text of such characters, or an empty one. -/
def Plain (s : String) : Prop := ∀ c ∈ s.toList, isPlain c = true

/-- The tokens of a list of characters, wherever it stands. -/
def Scans (cs : List Char) (ts : List Token) : Prop := ∀ position, scanFrom position cs = .ok ts

/-- Whether a name that comes before a text ends there, and is not the name of a function. -/
def EndsName (cs : List Char) : Prop := ∀ c ∈ cs.head?, continuesName c = false ∧ c ≠ '('

variable {cs rest : List Char} {ts us : List Token} {s : String}

theorem endsName_nil : EndsName [] := fun _ hc => absurd hc (Option.not_mem_none _)

theorem endsName_cons {c : Char} (hc : continuesName c = false ∧ c ≠ '(') : EndsName (c :: cs) := by
  intro d hd
  rw [← Option.mem_some.1 hd]
  exact hc

/-- No name goes on with a text that ends one. -/
theorem EndsName.stops (h : EndsName cs) : ∀ c ∈ cs.head?, continuesName c = false :=
  fun c hc => (h c hc).1

theorem isWord_iff {first : Char → Bool} :
    isWord first s = true ↔
      ∃ c cs, s.toList = c :: cs ∧ first c = true ∧ ∀ d ∈ cs, continuesName d = true := by
  unfold isWord
  cases s.toList with
  | nil => simp
  | cons c cs => simp only [Bool.and_eq_true, List.all_eq_true, List.cons.injEq, and_assoc,
      exists_and_left, exists_eq_left']

theorem isPlain_of_continuesName {c : Char} (hc : continuesName c = true) : isPlain c = true := by
  unfold isPlain
  rw [hc, Bool.true_or]

theorem isPlain_of_beginsName {c : Char} (hc : beginsName c = true) : isPlain c = true := by
  refine isPlain_of_continuesName ?_
  unfold continuesName
  simp only [hc, Bool.true_or]

/-- A plain text has no other characters. -/
theorem Plain.not_mem {c : Char} (hs : Plain s) (hc : isPlain c = false) : c ∉ s.toList := by
  intro hmem
  rw [hs c hmem] at hc
  exact Bool.noConfusion hc

theorem plain_of_isWord {first : Char → Bool} (hs : isWord first s = true)
    (hfirst : ∀ c, first c = true → isPlain c = true) : Plain s := by
  intro c hc
  rcases isWord_iff.1 hs with ⟨d, ds, hchars, hd, hds⟩
  rw [hchars, List.mem_cons] at hc
  rcases hc with rfl | hmem
  · exact hfirst c hd
  · exact isPlain_of_continuesName (hds c hmem)

theorem plain_of_isPackageName (hs : isPackageName s = true) : Plain s := by
  unfold isPackageName at hs
  rw [Bool.and_eq_true] at hs
  exact plain_of_isWord hs.1 fun _ => isPlain_of_beginsName

theorem plain_of_isFunctionName (hs : isFunctionName s = true) : Plain s := by
  unfold isFunctionName at hs
  rw [Bool.or_eq_true, Bool.or_eq_true, decide_eq_true_iff, decide_eq_true_iff] at hs
  rcases hs with (hword | rfl) | rfl
  · exact plain_of_isWord hword fun _ => isPlain_of_beginsName
  all_goals
    intro c hc
    rw [List.mem_singleton.1 hc]
    rfl

theorem plain_of_isSelectorName (hs : isSelectorName s = true) : Plain s := by
  refine plain_of_isWord hs fun c hc => ?_
  by_cases hbegins : beginsName c = true
  · exact isPlain_of_beginsName hbegins
  · rw [Bool.not_eq_true] at hbegins
    rw [hbegins, Bool.false_or] at hc
    unfold isPlain
    rw [hc, Bool.or_true]

/-- A run ends where the first character of another kind stands. -/
theorem takeWhile_append {p : Char → Bool} (hcs : ∀ c ∈ cs, p c = true)
    (hrest : ∀ c ∈ rest.head?, p c = false) : (cs ++ rest).takeWhile p = cs := by
  rw [List.takeWhile_append_of_pos hcs]
  cases rest with
  | nil => exact List.append_nil cs
  | cons d rest => rw [List.takeWhile_cons_of_neg (by simp [hrest d rfl]), List.append_nil]

theorem nameRun_append (hcs : ∀ c ∈ cs, continuesName c = true)
    (hrest : ∀ c ∈ rest.head?, continuesName c = false) : nameRun (cs ++ rest) = cs :=
  takeWhile_append hcs hrest

theorem afterName_append (hcs : ∀ c ∈ cs, continuesName c = true)
    (hrest : ∀ c ∈ rest.head?, continuesName c = false) : afterName (cs ++ rest) = rest := by
  unfold afterName
  rw [List.dropWhile_append_of_pos hcs]
  cases rest with
  | nil => rfl
  | cons d rest => exact List.dropWhile_cons_of_neg (by simp [hrest d rfl])

/-! ### One token at a time -/

/-- The marks that are tokens by themselves. -/
def marks : List (Char × TokenKind) :=
  [('(', .leftParen), (')', .rightParen), (',', .comma), (';', .semicolon)]

namespace Scans

theorem nil : Scans [] [] := by
  intro position
  unfold scanFrom
  rfl

theorem blank (h : Scans rest us) : Scans (' ' :: rest) us := by
  intro position
  unfold scanFrom
  exact h (position + 1)

theorem mark {c : Char} {kind : TokenKind} (hmark : (c, kind) ∈ marks) (h : Scans rest us) :
    Scans (c :: rest) (⟨kind, c.toString⟩ :: us) := by
  intro position
  unfold scanFrom
  simp only [marks, List.mem_cons, Prod.mk.injEq, List.not_mem_nil, or_false] at hmark
  rcases hmark with ⟨rfl, rfl⟩ | ⟨rfl, rfl⟩ | ⟨rfl, rfl⟩ | ⟨rfl, rfl⟩ <;>
    simp only [beginsName, h _] <;> rfl

theorem assign (h : Scans rest us) : Scans (':' :: '=' :: rest) (⟨.assign, ":="⟩ :: us) := by
  intro position
  unfold scanFrom
  simp only [beginsName, h _]
  rfl

/-- What is cut off where a name begins. -/
theorem scanFrom_name {c : Char} (hc : beginsName c = true)
    (hcs : ∀ d ∈ cs, continuesName d = true) (hrest : ∀ d ∈ rest.head?, continuesName d = false)
    (position : Nat) :
    scanFrom position (c :: (cs ++ rest)) =
      if rest.head? = some '(' then
        (⟨.func, String.ofList (c :: cs)⟩ :: ·) <$> scanFrom (position + 1 + cs.length) rest
      else if c = '=' || cs.contains '=' then
        .error (.assignInName (String.ofList (c :: cs)) position)
      else (⟨.package, String.ofList (c :: cs)⟩ :: ·) <$>
        scanFrom (position + 1 + cs.length) rest := by
  have hblank : c ≠ ' ' := by
    rintro rfl
    exact absurd hc (by decide)
  rw [scanFrom.eq_def]
  simp only [if_neg hblank, if_pos hc, nameRun_append hcs hrest, afterName_append hcs hrest]

theorem package (hs : isPackageName s = true) (hrest : EndsName rest) (h : Scans rest us) :
    Scans (s.toList ++ rest) (⟨.package, s⟩ :: us) := by
  intro position
  unfold isPackageName at hs
  rw [Bool.and_eq_true, Bool.not_eq_true', isWord_iff] at hs
  rcases hs with ⟨⟨c, cs, hchars, hc, hcs⟩, hassign⟩
  have hopen : ¬ rest.head? = some '(' := fun hhead => (hrest '(' hhead).2 rfl
  have hplain : ¬ (c = '=' || cs.contains '=') = true := by
    rw [hchars] at hassign
    rw [Bool.or_eq_true, decide_eq_true_iff, List.contains_iff_mem]
    rintro (rfl | hmem)
    · simp at hassign
    · simp [hmem] at hassign
  rw [hchars, List.cons_append, scanFrom_name hc hcs hrest.stops position,
    if_neg hopen, if_neg hplain, h _, ← hchars, String.ofList_toList]
  rfl

/-- The name of a function, its parenthesis being next. -/
theorem functionName (hs : isFunctionName s = true) (hrest : rest.head? = some '(')
    (h : Scans rest us) : Scans (s.toList ++ rest) (⟨.func, s⟩ :: us) := by
  intro position
  unfold isFunctionName at hs
  rw [Bool.or_eq_true, Bool.or_eq_true, decide_eq_true_iff, decide_eq_true_iff, isWord_iff] at hs
  rcases hs with (⟨c, cs, hchars, hc, hcs⟩ | rfl) | rfl
  · have hparen : ∀ d ∈ rest.head?, continuesName d = false := by
      intro d hd
      rw [hrest] at hd
      rw [← Option.mem_some.1 hd]
      decide
    rw [hchars, List.cons_append, scanFrom_name hc hcs hparen position, if_pos hrest, h _, ← hchars,
      String.ofList_toList]
    rfl
  all_goals
    change scanFrom position (_ :: rest) = _
    rw [scanFrom.eq_def]
    simp only [beginsName, isOperator, hrest, h _]
    rfl

theorem function (hs : isFunctionName s = true) (h : Scans rest us) :
    Scans (s.toList ++ '(' :: rest) (⟨.func, s⟩ :: ⟨.leftParen, "("⟩ :: us) :=
  functionName hs List.head?_cons (mark (by decide) h)

/-- An operator, no parenthesis being next. -/
theorem operator {c : Char} (hc : isOperator c = true) (hrest : rest.head? ≠ some '(')
    (h : Scans rest us) : Scans (c :: rest) (⟨.op, c.toString⟩ :: us) := by
  intro position
  unfold isOperator at hc
  rw [Bool.or_eq_true, decide_eq_true_iff, decide_eq_true_iff] at hc
  rcases hc with rfl | rfl <;>
    rw [scanFrom.eq_def] <;>
    simp only [beginsName, isOperator, if_neg hrest, h _] <;> rfl

theorem selector (hs : isSelectorName s = true) (hrest : ∀ c ∈ rest.head?, continuesName c = false)
    (h : Scans rest us) : Scans (':' :: (s.toList ++ rest)) (⟨.selector, s⟩ :: us) := by
  intro position
  unfold isSelectorName at hs
  rcases isWord_iff.1 hs with ⟨c, cs, hchars, hc, hcs⟩
  have hassign : c ≠ '=' := by
    rintro rfl
    exact absurd hc (by decide)
  rw [hchars, List.cons_append]
  unfold scanFrom
  simp only [if_neg hassign, if_pos hc, nameRun_append hcs hrest, afterName_append hcs hrest, h _]
  rw [← hchars, String.ofList_toList]
  rfl

end Scans

/-! ### The texts of tokens -/

theorem isWord_run {first : Char → Bool} {c : Char} (hc : first c = true) (rest : List Char) :
    isWord first (String.ofList (c :: nameRun rest)) = true :=
  isWord_iff.2 ⟨c, nameRun rest, String.toList_ofList, hc,
    fun _ hd => List.all_eq_true.1 List.all_takeWhile _ hd⟩

/-- The run of name characters before a parenthesis is the name of a function. -/
theorem isFunctionName_run {c : Char} (hc : beginsName c = true) (rest : List Char) :
    isFunctionName (String.ofList (c :: nameRun rest)) = true := by
  unfold isFunctionName
  rw [isWord_run hc]
  rfl

/-- An operator before a parenthesis is the name of a function. -/
theorem isFunctionName_operator {c : Char} (hc : isOperator c = true) :
    isFunctionName c.toString = true := by
  unfold isOperator at hc
  rw [Bool.or_eq_true, decide_eq_true_iff, decide_eq_true_iff] at hc
  rcases hc with rfl | rfl <;> decide

/-- A run of name characters without an equals sign is the name of a package. -/
theorem isPackageName_run {c : Char} (hc : beginsName c = true)
    (hassign : ¬ (c = '=' || (nameRun rest).contains '=') = true) :
    isPackageName (String.ofList (c :: nameRun rest)) = true := by
  unfold isPackageName
  rw [isWord_run hc, String.toList_ofList, Bool.true_and, Bool.not_eq_true', ← Bool.not_eq_true,
    List.contains_iff_mem, List.mem_cons]
  rintro (heq | hmem)
  · simp [← heq] at hassign
  · simp [hmem] at hassign

end Token

end PackageAlgebra
