import Mathlib.Data.List.Basic
import PackageAlgebra.Proofs.Text.Cuts
import PackageAlgebra.Symbol.Dump

/-!
# Lines of a Dump

How dependencies are written, and found again in what is written.

A line is written by putting symbols, tags and an arrow together, and it is read by looking for
blanks with something after them. Each dependency comes back as it was written, because there are
no blanks within symbols and tags: the first arrow of a line is the one between its sides, the
first tag begins where the symbol ends, and a tag that is looked for cannot be found across the
boundary of two others.

A symbol is written as a package path and a name, with a point between them. Where the path ends
is not written down, but it can be told, because of the path only the last element is followed by
a point and the name has no slash.

## Main definitions

* `Dump.LinkedSymbol`: A symbol, as a name in a package.
* `Dump.Tag`, `Dump.Side`: A side of a dependency, with its tags.
* `Dump.Line`: A dependency, or a line without an arrow.

## Theorems

* `Dump.LinkedSymbol.linkerPackage_text`: The package of a symbol.
* `Dump.LinkedSymbol.text_injective`: Symbols that are written alike are the same.
* `Dump.bareSymbol_text`, `Dump.occursIn_text_iff`: The symbol of a side, and its tags.
* `Dump.sides?_line_iff`: The sides of a line.
-/

namespace PackageAlgebra

open Text

namespace Dump

/-- A text without blanks, as it can be checked. -/
theorem isBlank_of_any {cs : List Char} (h : cs.any isBlank = false) :
    ∀ c ∈ cs, isBlank c = false :=
  fun c hc => Bool.eq_false_iff.2 (List.any_eq_false.1 h c hc)

/-- There is no space in a text without blanks. -/
theorem space_not_mem {cs : List Char} (h : ∀ c ∈ cs, isBlank c = false) : ' ' ∉ cs := by
  intro hspace
  have hblank := h ' ' hspace
  revert hblank
  decide

/-! ### Symbols -/

/-- A symbol of a linked program: a name in a package. -/
@[ext]
structure LinkedSymbol where
  -- The path of the package.
  package : String
  -- The name in the package.
  name : String
  -- There is a package.
  package_ne : package ≠ ""
  -- The last element of the path has no point.
  point_not_mem : '.' ∉ (afterLast '/' package).toList
  -- The name has no slash.
  slash_not_mem : '/' ∉ name.toList
  -- There are no blanks.
  unblank : ∀ c ∈ package.toList ++ name.toList, isBlank c = false

namespace LinkedSymbol

/-- A symbol is written with a point between the package and the name. -/
def text (x : LinkedSymbol) : String := x.package ++ "." ++ x.name

theorem toList_text (x : LinkedSymbol) :
    x.text.toList = x.package.toList ++ '.' :: x.name.toList := by
  have hpoint : ".".toList = ['.'] := rfl
  unfold text
  rw [String.toList_append, String.toList_append, hpoint, List.append_assoc, List.singleton_append]

theorem isBlank_of_mem_text (x : LinkedSymbol) {c : Char} (hc : c ∈ x.text.toList) :
    isBlank c = false := by
  rw [toList_text, List.mem_append, List.mem_cons] at hc
  rcases hc with hc | rfl | hc
  · exact x.unblank c (List.mem_append_left _ hc)
  · decide
  · exact x.unblank c (List.mem_append_right _ hc)

theorem space_not_mem_text (x : LinkedSymbol) : ' ' ∉ x.text.toList :=
  space_not_mem fun _ hc => x.isBlank_of_mem_text hc

/-- The package of a symbol is told from how it is written. -/
theorem linkerPackage_text (x : LinkedSymbol) : linkerPackage x.text = x.package := by
  have htrim : trim x.text = x.text := by
    unfold trim
    rw [trimBoth_of_ends, String.ofList_toList]
    · exact fun c hc => x.isBlank_of_mem_text (List.mem_of_mem_head? hc)
    · exact fun c hc => x.isBlank_of_mem_text (List.mem_of_mem_getLast? hc)
  have hpoint := x.point_not_mem
  unfold afterLast at hpoint
  rcases cutLast_cases '/' x.package.toList with ⟨hnone, hcut⟩ | ⟨path, last, hcut, hpath, hlast⟩
  · -- Without a slash the path is a single element.
    have hslash : '/' ∉ x.text.toList := by
      rw [toList_text, List.mem_append, List.mem_cons, not_or, not_or]
      exact ⟨hnone, by decide, x.slash_not_mem⟩
    have hwhole : cutLast '/' x.text.toList = none := cutLast_of_not_mem hslash
    rw [hcut] at hpoint
    simp only [linkerPackage, afterLast, htrim, hwhole, Option.map_none, Option.getD_none,
      List.nil_append]
    rw [toList_text, cutFirst_append hpoint]
    exact String.ofList_toList
  · have hafter : '/' ∉ last ++ '.' :: x.name.toList := by
      rw [List.mem_append, List.mem_cons, not_or, not_or]
      exact ⟨hlast, by decide, x.slash_not_mem⟩
    have hwhole : cutLast '/' x.text.toList = some (path, last ++ '.' :: x.name.toList) := by
      rw [toList_text, hpath, List.append_assoc, List.cons_append, cutLast_append hafter]
    rw [hcut] at hpoint
    simp only [String.toList_ofList] at hpoint
    simp only [linkerPackage, afterLast, htrim, hwhole, Option.map_some, Option.getD_some,
      String.toList_ofList, cutFirst_append hpoint]
    rw [← String.toList_inj, String.toList_ofList, hpath, List.append_assoc, List.singleton_append]

/-- Symbols that are written alike are the same. -/
theorem text_injective {x y : LinkedSymbol} (h : x.text = y.text) : x = y := by
  have hpackage : x.package = y.package := by
    rw [← x.linkerPackage_text, h, y.linkerPackage_text]
  have hlist := congrArg String.toList h
  rw [toList_text, toList_text, hpackage, List.append_cancel_left_eq, List.cons.injEq] at hlist
  exact LinkedSymbol.ext hpackage (String.toList_inj.1 hlist.2)

end LinkedSymbol

/-! ### Sides -/

/-- An annotation of a side. -/
structure Tag where
  -- What stands between the brackets.
  name : String
  -- There are no blanks.
  unblank : ∀ c ∈ name.toList, isBlank c = false
  -- There are no brackets.
  open_not_mem : '<' ∉ name.toList
  close_not_mem : '>' ∉ name.toList

/-- A side of a dependency: a symbol with annotations. -/
structure Side where
  -- The symbol.
  symbol : LinkedSymbol
  -- Its annotations.
  tags : List Tag

/-- A tag is written in angle brackets after a blank. -/
def Tag.text (t : Tag) : String := " <" ++ t.name ++ ">"

/-- A side is written as its symbol with the tags after it. -/
def Side.text (s : Side) : String := s.symbol.text ++ String.join (s.tags.map Tag.text)

/-- The characters of tags, one tag after the other. -/
def tagChars (tags : List Tag) : List Char := tags.flatMap fun t => t.text.toList

theorem Side.toList_text (s : Side) : s.text.toList = s.symbol.text.toList ++ tagChars s.tags := by
  unfold Side.text tagChars
  rw [String.toList_append, String.toList_join, List.flatMap_map]

namespace Tag

/-- The brackets of a tag and what stands between them. -/
def body (t : Tag) : List Char := '<' :: (t.name.toList ++ ['>'])

theorem toList_text (t : Tag) : t.text.toList = ' ' :: t.body := by
  have hopen : " <".toList = [' ', '<'] := rfl
  have hclose : ">".toList = ['>'] := rfl
  unfold text body
  rw [String.toList_append, String.toList_append, hopen, hclose]
  rfl

theorem isBlank_of_mem_body (t : Tag) {c : Char} (hc : c ∈ t.body) : isBlank c = false := by
  unfold body at hc
  rw [List.mem_cons, List.mem_append, List.mem_singleton] at hc
  rcases hc with rfl | hc | rfl
  · decide
  · exact t.unblank c hc
  · decide

theorem space_not_mem_body (t : Tag) : ' ' ∉ t.body :=
  space_not_mem fun _ hc => t.isBlank_of_mem_body hc

/-- A tag begins with another one if it is that one. -/
theorem body_isPrefixOf_iff {t u : Tag} {rest : List Char} :
    t.body.isPrefixOf (u.body ++ rest) = true ↔ t.name = u.name := by
  unfold body
  rw [List.cons_append, List.isPrefixOf_cons_cons, beq_self_eq_true, Bool.true_and,
    List.append_assoc, List.singleton_append,
    isPrefixOf_append_iff t.close_not_mem u.close_not_mem, String.toList_inj]

end Tag

theorem tagChars_cons (t : Tag) (tags : List Tag) :
    tagChars (t :: tags) = ' ' :: (t.body ++ tagChars tags) := by
  unfold tagChars
  rw [List.flatMap_cons, Tag.toList_text, List.cons_append]

/-- A tag is passed over by a mark that does not begin there. -/
theorem cutText_tag {mark : List Char} {t : Tag} {rest : List Char}
    (h : mark.isPrefixOf (t.body ++ rest) = false) :
    cutText (' ' :: mark) (' ' :: (t.body ++ rest)) =
      (cutText (' ' :: mark) rest).map fun (before, after) => (' ' :: t.body ++ before, after) := by
  rw [cutText, List.isPrefixOf_cons_cons, h, Bool.and_false, if_neg Bool.false_ne_true,
    cutText_append t.space_not_mem_body, Option.map_map]
  rfl

/-- After a text that does not end with a blank, tags do not either. -/
theorem isBlank_of_getLast?_tagChars {cs : List Char} (tags : List Tag)
    (h : ∀ c ∈ cs.getLast?, isBlank c = false) :
    ∀ c ∈ (cs ++ tagChars tags).getLast?, isBlank c = false := by
  induction tags generalizing cs with
  | nil =>
      rw [tagChars, List.flatMap_nil, List.append_nil]
      exact h
  | cons t tags ih =>
      have hassoc : cs ++ tagChars (t :: tags) = (cs ++ ' ' :: t.body) ++ tagChars tags := by
        rw [tagChars_cons, List.append_assoc, List.cons_append]
      rw [hassoc]
      refine ih fun c hc => ?_
      rw [List.getLast?_append_of_ne_nil _ (List.cons_ne_nil ' ' t.body), Tag.body,
        List.getLast?_cons_cons, ← List.cons_append, List.getLast?_concat, Option.mem_some] at hc
      rw [← hc]
      decide

/-- A side has no blanks at its ends. -/
theorem Side.trim_text (s : Side) : trim s.text = s.text := by
  have hne : s.symbol.text.toList ≠ [] := by
    rw [LinkedSymbol.toList_text]
    exact List.append_ne_nil_of_right_ne_nil _ (List.cons_ne_nil _ _)
  unfold trim
  rw [trimBoth_of_ends, String.ofList_toList]
  · intro c hc
    rw [Side.toList_text, List.head?_append_of_ne_nil _ hne] at hc
    exact s.symbol.isBlank_of_mem_text (List.mem_of_mem_head? hc)
  · rw [Side.toList_text]
    exact isBlank_of_getLast?_tagChars s.tags fun c hc =>
      s.symbol.isBlank_of_mem_text (List.mem_of_mem_getLast? hc)

/-- The symbol of a side is found again. -/
theorem bareSymbol_text (s : Side) : bareSymbol s.text = s.symbol.text := by
  have hmark : " <".toList = [' ', '<'] := rfl
  unfold bareSymbol
  rw [hmark, Side.toList_text]
  cases htags : s.tags with
  | nil =>
      have hnone : cutText [' ', '<'] (s.symbol.text.toList ++ tagChars []) = none := by
        rw [cutText_append s.symbol.space_not_mem_text]
        rfl
      rw [hnone, ← String.toList_inj, Side.toList_text, htags]
      exact List.append_nil _
  | cons t tags =>
      rw [cutText_append s.symbol.space_not_mem_text, tagChars_cons]
      have hself := cutText_self ' ' ['<'] (t.name.toList ++ ['>'] ++ tagChars tags)
      have hbody : [' ', '<'] ++ (t.name.toList ++ ['>'] ++ tagChars tags) =
          ' ' :: (t.body ++ tagChars tags) := rfl
      rw [hbody] at hself
      rw [hself]
      change String.ofList (s.symbol.text.toList ++ []) = _
      rw [List.append_nil, String.ofList_toList]

/-- A tag is found on a side if it is one of its tags. -/
theorem occursIn_text_iff (wanted : Tag) (s : Side) :
    occursIn wanted.text s.text = true ↔ ∃ t ∈ s.tags, t.name = wanted.name := by
  have htags : ∀ tags, (cutText (' ' :: wanted.body) (tagChars tags)).isSome = true ↔
      ∃ t ∈ tags, t.name = wanted.name := by
    intro tags
    induction tags with
    | nil => simp only [tagChars, List.flatMap_nil, cutText, List.isEmpty_cons,
        Bool.false_eq_true, if_false, Option.isSome_none, List.not_mem_nil, false_and, exists_false]
    | cons t tags ih =>
        rw [tagChars_cons, List.exists_mem_cons_iff]
        by_cases hname : wanted.name = t.name
        · have hprefix : (' ' :: wanted.body).isPrefixOf (' ' :: (t.body ++ tagChars tags)) =
              true := by
            rw [List.isPrefixOf_cons_cons, beq_self_eq_true, Bool.true_and]
            exact Tag.body_isPrefixOf_iff.2 hname
          rw [cutText, if_pos hprefix]
          exact iff_of_true rfl (.inl hname.symm)
        · rw [cutText_tag (Bool.eq_false_iff.2 fun h => hname (Tag.body_isPrefixOf_iff.1 h)),
            Option.isSome_map, ih]
          exact (or_iff_right fun h => hname h.symm).symm
  unfold occursIn
  rw [Tag.toList_text, Side.toList_text, cutText_append s.symbol.space_not_mem_text,
    Option.isSome_map, htags]

/-! ### Lines -/

/-- A line of a dump: a dependency between two sides, or anything without an arrow. -/
inductive Line where
  | dependency (source target : Side)
  | other (text : String) (h : ¬ " -> ".toList <:+: text.toList)

/-- A dependency is written with an arrow between its sides. -/
def Line.text : Line → String
  | dependency source target => source.text ++ " -> " ++ target.text
  | other text _ => text

/-- A line without an arrow says nothing. -/
theorem sides?_of_no_arrow {line : String} (h : ¬ " -> ".toList <:+: line.toList) :
    sides? line = none := by
  rw [← isSome_cutText_iff, Bool.not_eq_true, Option.isSome_eq_false_iff, Option.isNone_iff_eq_none]
    at h
  unfold sides?
  rw [h]
  rfl

/-- The sides of a dependency are found again. -/
theorem sides?_text (source target : Side) :
    sides? (Line.dependency source target).text = some (source.text, target.text) := by
  have harrow : " -> ".toList = [' ', '-', '>', ' '] := rfl
  -- The arrow does not begin within a symbol, nor where a tag begins.
  have htags : ∀ tags, cutText [' ', '-', '>', ' ']
      (tagChars tags ++ ([' ', '-', '>', ' '] ++ target.text.toList)) =
        some (tagChars tags, target.text.toList) := by
    intro tags
    induction tags with
    | nil => exact cutText_self ' ' ['-', '>', ' '] target.text.toList
    | cons t tags ih =>
        rw [tagChars_cons, List.cons_append, List.append_assoc, cutText_tag rfl, ih]
        rfl
  have hcut : cutText " -> ".toList (Line.dependency source target).text.toList =
      some (source.text.toList, target.text.toList) := by
    unfold Line.text
    rw [String.toList_append, String.toList_append, harrow, Side.toList_text source,
      List.append_assoc, List.append_assoc, cutText_append source.symbol.space_not_mem_text, htags]
    rfl
  unfold sides?
  rw [hcut]
  change some (trim (String.ofList source.text.toList), trim (String.ofList target.text.toList)) = _
  rw [String.ofList_toList, String.ofList_toList, Side.trim_text, Side.trim_text]

/-- The sides of a line are those of the dependency that it writes. -/
theorem sides?_line_iff {l : Line} {sides : String × String} : sides? l.text = some sides ↔
    ∃ source target, l = .dependency source target ∧ sides = (source.text, target.text) := by
  cases l with
  | other text h =>
      simp only [Line.text, sides?_of_no_arrow h, reduceCtorEq, false_and, exists_false]
  | dependency source target =>
      rw [sides?_text, Option.some.injEq, eq_comm]
      constructor
      · intro hsides
        exact ⟨source, target, rfl, hsides⟩
      · rintro ⟨_, _, hsame, hsides⟩
        cases hsame
        exact hsides

end Dump

end PackageAlgebra
