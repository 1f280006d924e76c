import PackageAlgebra.Text.Blank
import PackageAlgebra.Text.Pieces

/-!
# Cutting Text

Where a text is cut, and what is trimmed off it.

A text that has been put together around a mark is cut at that mark, provided that the mark does
not begin any earlier. For a single character it is enough that the character does not occur on
the one side. A longer mark may begin before the place where it was put, so what precedes it has
to be gone through piece by piece: a piece without the first character of the mark is passed over
as a whole.

## Theorems

* `cutLast_append`, `cutLast_cases`: The last occurrence of a character.
* `isPrefixOf_append_iff`, `prefix_append_iff`: A piece that ends with a character begins a text.
* `not_mem_of_mem_split`: A piece between separators has none.
* `cutText_append`: A piece without the first character of a mark is passed over.
* `isSome_cutText_iff`: A mark is found where it occurs.
* `beginsWith_iff`, `endsWith_iff`: How a text begins and ends.
* `trimBoth_of_ends`: Nothing is trimmed off a text whose ends are to stay.
-/

namespace PackageAlgebra.Text

variable {sep : Char} {cs ds rest mark : List Char}

/-! ### Single characters -/

/-- What follows a separator is cut off if the separator does not occur in it. -/
theorem cutLast_append (h : sep ∉ ds) : cutLast sep (cs ++ sep :: ds) = some (cs, ds) := by
  have hreverse : sep ∉ ds.reverse := fun hmem => h (List.mem_reverse.1 hmem)
  unfold cutLast
  rw [List.reverse_append, List.reverse_cons, List.append_assoc, List.singleton_append,
    cutFirst_append hreverse]
  simp only [Option.map_some, List.reverse_reverse]

/-- A text without a separator is not cut. -/
theorem cutLast_of_not_mem (h : sep ∉ cs) : cutLast sep cs = none := by
  unfold cutLast
  rw [cutFirst_of_not_mem fun hmem => h (List.mem_reverse.1 hmem)]
  rfl

/-- A text is cut at the last occurrence of a separator, if there is one. -/
theorem cutLast_cases (sep : Char) (cs : List Char) :
    (sep ∉ cs ∧ cutLast sep cs = none) ∨
      ∃ before after, cutLast sep cs = some (before, after) ∧ cs = before ++ sep :: after ∧
        sep ∉ after := by
  by_cases h : sep ∈ cs
  · rcases cutFirst_of_mem (List.mem_reverse.2 h) with ⟨after, before, hcut, hreverse, hnot⟩
    refine .inr ⟨before.reverse, after.reverse, ?_, ?_, fun hmem => hnot (List.mem_reverse.1 hmem)⟩
    · unfold cutLast
      rw [hcut]
      rfl
    · rw [← List.reverse_reverse cs, hreverse, List.reverse_append, List.reverse_cons,
        List.append_assoc, List.singleton_append]
  · exact .inl ⟨h, cutLast_of_not_mem h⟩

/-- A piece that ends with a separator begins a text if it is the first piece of the text. -/
theorem isPrefixOf_append_iff (hcs : sep ∉ cs) (hds : sep ∉ ds) :
    (cs ++ [sep]).isPrefixOf (ds ++ sep :: rest) = true ↔ cs = ds := by
  rw [List.isPrefixOf_iff_prefix]
  constructor
  · rintro ⟨after, heq⟩
    have hcut : cutFirst sep (cs ++ sep :: after) = cutFirst sep (ds ++ sep :: rest) := by
      rw [← heq, List.append_assoc, List.singleton_append]
    rw [cutFirst_append hcs, cutFirst_append hds, Option.some.injEq, Prod.mk.injEq] at hcut
    exact hcut.1
  · rintro rfl
    exact ⟨rest, by rw [List.append_assoc, List.singleton_append]⟩

/-- Where no separator follows, a piece that ends with one begins a text if it is all that
    precedes the last separator, or begins that. -/
theorem prefix_append_iff (hrest : sep ∉ rest) :
    cs ++ [sep] <+: ds ++ sep :: rest ↔ cs = ds ∨ cs ++ [sep] <+: ds := by
  have hpieces : ds ++ sep :: rest = (ds ++ [sep]) ++ rest := by
    rw [List.append_assoc, List.singleton_append]
  have hends : ∀ {cs ds : List Char},
      cs ++ [sep] <+: ds ++ [sep] ↔ cs = ds ∨ cs ++ [sep] <+: ds := by
    intro cs ds
    rw [List.prefix_concat_iff, List.append_cancel_right_eq]
  rw [hpieces, ← hends]
  refine ⟨fun h => ?_, fun h => h.trans (List.prefix_append _ _)⟩
  rcases List.prefix_or_prefix_of_prefix h (List.prefix_append _ _) with hshort | hlong
  · exact hshort
  · rcases hends.1 hlong with rfl | ⟨more, rfl⟩
    · exact List.prefix_rfl
    · -- A longer piece would end with a separator that follows the last one.
      rw [List.append_assoc, List.prefix_append_right_inj] at h
      exact absurd (h.subset (List.mem_append_right _ List.mem_cons_self)) hrest

/-! ### Pieces -/

/-- A piece of a text between separators has none. -/
theorem not_mem_of_mem_splitAt {piece : List Char} (h : piece ∈ splitAt sep cs) : sep ∉ piece := by
  induction cs generalizing piece with
  | nil =>
      rw [splitAt, List.mem_singleton] at h
      exact h ▸ List.not_mem_nil
  | cons c rest ih =>
      rw [splitAt] at h
      by_cases hc : c = sep
      · rw [if_pos hc, List.mem_cons] at h
        rcases h with rfl | h
        · exact List.not_mem_nil
        · exact ih h
      · rw [if_neg hc] at h
        cases hpieces : splitAt sep rest with
        | nil => exact absurd hpieces (splitAt_ne_nil sep rest)
        | cons first pieces =>
            rw [hpieces] at h ih
            rcases List.mem_cons.1 h with rfl | h
            · rw [List.mem_cons, not_or]
              exact ⟨fun heq => hc heq.symm, ih List.mem_cons_self⟩
            · exact ih (List.mem_cons_of_mem first h)

theorem not_mem_of_mem_split {s piece : String} (h : piece ∈ split sep s) :
    sep ∉ piece.toList := by
  rcases List.mem_map.1 h with ⟨chars, hchars, rfl⟩
  rw [String.toList_ofList]
  exact not_mem_of_mem_splitAt hchars

/-! ### Marks -/

/-- A mark does not begin where its first character does not stand. -/
theorem cutText_cons_of_ne {c : Char} (h : c ≠ sep) :
    cutText (sep :: mark) (c :: cs) =
      (cutText (sep :: mark) cs).map fun (before, after) => (c :: before, after) := by
  rw [cutText, if_neg]
  rw [List.isPrefixOf_cons_cons, Bool.and_eq_true, beq_iff_eq]
  exact fun hprefix => h hprefix.1.symm

/-- A piece without the first character of a mark is passed over. -/
theorem cutText_append (h : sep ∉ cs) (rest : List Char) :
    cutText (sep :: mark) (cs ++ rest) =
      (cutText (sep :: mark) rest).map fun (before, after) => (cs ++ before, after) := by
  induction cs with
  | nil => exact Option.map_id'.symm
  | cons c cs ih =>
      rw [List.mem_cons, not_or] at h
      rw [List.cons_append, cutText_cons_of_ne fun heq => h.1 heq.symm, ih h.2, Option.map_map]
      rfl

/-- A text is cut at a mark with which it begins. -/
theorem cutText_self (sep : Char) (mark rest : List Char) :
    cutText (sep :: mark) (sep :: mark ++ rest) = some ([], rest) := by
  rw [List.cons_append, cutText, if_pos, ← List.cons_append, List.drop_left]
  rw [List.isPrefixOf_iff_prefix, ← List.cons_append]
  exact List.prefix_append (sep :: mark) rest

/-- A mark is found where it occurs. -/
theorem isSome_cutText_iff (mark cs : List Char) : (cutText mark cs).isSome ↔ mark <:+: cs := by
  induction cs with
  | nil =>
      rw [cutText, List.infix_nil]
      cases mark with
      | nil => simp only [List.isEmpty_nil, if_true, Option.isSome_some]
      | cons c mark =>
          simp only [List.isEmpty_cons, Bool.false_eq_true, if_false, Option.isSome_none,
            reduceCtorEq]
  | cons c cs ih =>
      rw [cutText, List.infix_cons_iff, ← ih, ← List.isPrefixOf_iff_prefix]
      by_cases hprefix : mark.isPrefixOf (c :: cs) = true
      · rw [if_pos hprefix, Option.isSome_some]
        exact iff_of_true rfl (.inl hprefix)
      · rw [if_neg hprefix, Option.isSome_map]
        exact (or_iff_right hprefix).symm

/-! ### Ends -/

/-- A text begins with another one if something after that one gives the text. -/
theorem beginsWith_iff {head s : String} :
    beginsWith head s = true ↔ ∃ after, s = head ++ after := by
  unfold beginsWith
  rw [List.isPrefixOf_iff_prefix]
  constructor
  · rintro ⟨after, hafter⟩
    refine ⟨String.ofList after, String.toList_inj.1 ?_⟩
    rw [String.toList_append, String.toList_ofList, hafter]
  · rintro ⟨after, rfl⟩
    exact ⟨after.toList, String.toList_append.symm⟩

/-- A text ends with another one if something before that one gives the text. -/
theorem endsWith_iff {tail s : String} : endsWith tail s = true ↔ ∃ before, s = before ++ tail := by
  unfold endsWith
  rw [List.isSuffixOf_iff_suffix]
  constructor
  · rintro ⟨before, hbefore⟩
    refine ⟨String.ofList before, String.toList_inj.1 ?_⟩
    rw [String.toList_append, String.toList_ofList, hbefore]
  · rintro ⟨before, rfl⟩
    exact ⟨before.toList, String.toList_append.symm⟩

/-- Nothing is dropped from a text that begins with something that is to stay. -/
theorem dropWhile_of_head {p : Char → Bool} (h : ∀ c ∈ cs.head?, p c = false) :
    cs.dropWhile p = cs := by
  cases cs with
  | nil => rfl
  | cons c cs => exact List.dropWhile_cons_of_neg (Bool.eq_false_iff.1 (h c rfl))

/-- Nothing is trimmed off a text whose ends are to stay. -/
theorem trimBoth_of_ends {p : Char → Bool} (hfirst : ∀ c ∈ cs.head?, p c = false)
    (hlast : ∀ c ∈ cs.getLast?, p c = false) : trimBoth p cs = cs := by
  unfold trimBoth
  rw [dropWhile_of_head hfirst, dropWhile_of_head, List.reverse_reverse]
  rwa [List.head?_reverse]

end PackageAlgebra.Text
