import Mathlib.Data.List.Basic
import PackageAlgebra.Load.SourceScan

/-!
# Dotted Names

What a dotted name begins with.

A name begins with another one if it goes on after it with a point, or not at all. A text that is
merely the beginning of the name does not count, because a point has to follow. The names that a
name begins with come from its pieces, by joining some of the first ones again, and joining more
of them gives a longer name.

## Main definitions

* `DottedPrefix`: A dotted name begins with another one.

## Theorems

* `Text.join_append`, `Text.join_split`: Pieces are joined in two parts, or all of them.
* `dottedPrefix_beforeFirst`: A name begins with what precedes its first point.
* `mem_namePrefixes_iff`: The names that a name begins with.
* `pairwise_namePrefixes`: They come with the longest first.
-/

namespace PackageAlgebra

namespace Text

variable {sep a b : String} {first rest : List String}

theorem join_eq_intercalate (sep : String) (pieces : List String) :
    join sep pieces = sep.intercalate pieces := by
  induction pieces with
  | nil => exact String.intercalate_nil.symm
  | cons piece rest ih =>
      cases rest with
      | nil => exact String.intercalate_singleton.symm
      | cons next rest =>
          rw [join, ih, String.intercalate_cons_cons]
          simp only [reduceCtorEq, imp_self]

/-- Pieces are joined in two parts. -/
theorem join_append (hfirst : first ≠ []) (hrest : rest ≠ []) :
    join sep (first ++ rest) = join sep first ++ sep ++ join sep rest := by
  simp only [join_eq_intercalate, String.intercalate_append_of_ne_nil hfirst hrest]

theorem split_ne_nil (c : Char) (s : String) : split c s ≠ [] := by
  unfold split
  rw [Ne, List.map_eq_nil_iff]
  exact splitAt_ne_nil c s.toList

theorem take_split_ne_nil (c : Char) (s : String) (n : Nat) : (split c s).take (n + 1) ≠ [] := by
  rw [Ne, List.take_eq_nil_iff]
  simp only [Nat.add_eq_zero_iff, Nat.one_ne_zero, and_false, split_ne_nil, or_self,
    not_false_eq_true]

/-- The pieces of a text joined again give the text. -/
theorem join_split (c : Char) (s : String) : join (String.ofList [c]) (split c s) = s := by
  apply String.toList_inj.1
  have hpieces : (split c s).map String.toList = splitAt c s.toList := by
    unfold split
    rw [List.map_map]
    exact List.map_id'' (fun _ => String.toList_ofList) _
  rw [join_eq_intercalate, String.toList_intercalate, hpieces, String.toList_ofList,
    intercalate_splitAt]

theorem splitAt_append (c : Char) (before after : List Char) :
    splitAt c (before ++ c :: after) = splitAt c before ++ splitAt c after := by
  induction before with
  | nil => simp only [List.nil_append, splitAt, if_true, List.cons_append]
  | cons d rest ih =>
      rw [List.cons_append, splitAt, splitAt, ih]
      by_cases hd : d = c
      · rw [if_pos hd, if_pos hd, List.cons_append]
      · rw [if_neg hd, if_neg hd]
        cases hrest : splitAt c rest with
        | nil => exact absurd hrest (splitAt_ne_nil c rest)
        | cons piece pieces => rfl

/-- The pieces on both sides of a separator are all pieces. -/
theorem split_append (c : Char) (a b : String) :
    split c (a ++ String.ofList [c] ++ b) = split c a ++ split c b := by
  unfold split
  rw [String.toList_append, String.toList_append, String.toList_ofList, List.append_assoc,
    List.singleton_append, splitAt_append, List.map_append]

end Text

/-- A dotted name begins with another one: it is that name, or goes on after it with a point. -/
def DottedPrefix (head name : String) : Prop := name = head ∨ ∃ rest, name = head ++ "." ++ rest

open SourceScan

variable {head other name : String}

/-- Of all names of one length, a name begins with one at most. -/
theorem DottedPrefix.eq_of_length (h : DottedPrefix head name) (hother : DottedPrefix other name)
    (hlength : head.length = other.length) : head = other := by
  have hrest : ∀ {head}, DottedPrefix head name → ∃ cs, name.toList = head.toList ++ cs := by
    rintro head (rfl | ⟨rest, rfl⟩)
    · exact ⟨[], (List.append_nil _).symm⟩
    · exact ⟨(".".toList ++ rest.toList), by
        rw [String.toList_append, String.toList_append, List.append_assoc]⟩
  rcases hrest h with ⟨cs, hcs⟩
  rcases hrest hother with ⟨ds, hds⟩
  rw [← String.length_toList, ← String.length_toList] at hlength
  exact String.toList_inj.1 (List.append_inj_left (hcs.symm.trans hds) hlength)

/-- A name begins with what precedes its first point. -/
theorem dottedPrefix_beforeFirst (name : String) :
    DottedPrefix (Text.beforeFirst '.' name) name := by
  unfold Text.beforeFirst
  by_cases hpoint : '.' ∈ name.toList
  · rcases Text.cutFirst_of_mem hpoint with ⟨before, after, hcut, hname, -⟩
    rw [hcut]
    refine Or.inr ⟨String.ofList after, ?_⟩
    apply String.toList_inj.1
    simp only [String.toList_append, String.toList_ofList, List.append_assoc, hname]
    rfl
  · rw [Text.cutFirst_of_not_mem hpoint]
    exact Or.inl rfl

/-- The names that come from the pieces of a name are those that it begins with. -/
theorem mem_namePrefixes_iff : head ∈ namePrefixes name ↔ DottedPrefix head name := by
  have hjoin : Text.join "." (Text.split '.' name) = name := Text.join_split '.' name
  unfold namePrefixes
  rw [List.mem_reverse, List.mem_map]
  constructor
  · rintro ⟨n, hn, rfl⟩
    rw [List.mem_range] at hn
    by_cases hall : n + 1 = (Text.split '.' name).length
    · refine Or.inl ?_
      rw [hall, List.take_length, hjoin]
    · -- Some pieces are left, and they come after a point.
      refine Or.inr ⟨Text.join "." ((Text.split '.' name).drop (n + 1)), ?_⟩
      have hleft : (Text.split '.' name).drop (n + 1) ≠ [] := by
        rw [Ne, List.drop_eq_nil_iff]
        omega
      rw [← Text.join_append (Text.take_split_ne_nil '.' name n) hleft, List.take_append_drop,
        hjoin]
  · intro h
    have hpos : 0 < (Text.split '.' head).length :=
      List.length_pos_iff.2 (Text.split_ne_nil '.' head)
    -- The pieces of the name begin with those of the other one.
    have hpieces : ∃ rest, Text.split '.' name = Text.split '.' head ++ rest := by
      rcases h with rfl | ⟨rest, rfl⟩
      · exact ⟨[], (List.append_nil _).symm⟩
      · exact ⟨_, Text.split_append '.' head rest⟩
    rcases hpieces with ⟨rest, hpieces⟩
    refine ⟨(Text.split '.' head).length - 1, ?_, ?_⟩
    · rw [List.mem_range, hpieces, List.length_append]
      omega
    · rw [hpieces, Nat.sub_add_cancel hpos, List.take_left']
      · exact Text.join_split '.' head
      · rfl

/-- The names that a name begins with come with the longest first. -/
theorem pairwise_namePrefixes (name : String) :
    (namePrefixes name).Pairwise fun a b => b.length < a.length := by
  unfold namePrefixes
  rw [List.pairwise_reverse, List.pairwise_map]
  refine List.Pairwise.imp_of_mem ?_ (List.pairwise_lt_range (n := (Text.split '.' name).length))
  intro n m _ hm hlt
  rw [List.mem_range] at hm
  have htake : (Text.split '.' name).take (m + 1) =
      (Text.split '.' name).take (n + 1) ++
        ((Text.split '.' name).take (m + 1)).drop (n + 1) := by
    have hfirst : ((Text.split '.' name).take (m + 1)).take (n + 1) =
        (Text.split '.' name).take (n + 1) := by
      rw [List.take_take]
      congr 1
      omega
    rw [← hfirst, List.take_append_drop]
  have hmore : ((Text.split '.' name).take (m + 1)).drop (n + 1) ≠ [] := by
    rw [Ne, List.drop_eq_nil_iff, List.length_take]
    omega
  rw [htake, Text.join_append (Text.take_split_ne_nil '.' name n) hmore, String.length_append,
    String.length_append]
  have hpoint : ".".length = 1 := rfl
  omega

end PackageAlgebra
