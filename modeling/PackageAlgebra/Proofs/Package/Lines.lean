import Mathlib.Data.List.Basic
import PackageAlgebra.Package.Stat

/-!
# Lines of a File

What the counts of a file say about its text.

The counts are taken byte by byte, with nothing in hand but whether the line that is being read
has been blank so far. What they mean is said in terms of the lines themselves, the pieces between
the line feeds. All pieces but the last are ended by a line feed, so a full piece is a line wherever
it stands, while a blank one is a blank line only if it is not the last.

A cut behind a line feed is a cut between two lines. So the counts of two texts put together are
those of both, if the first one ends where a line ends. Nothing of the kind holds of binary files,
where a single byte in one part takes the lines away from both.

## Main definitions

* `holdsText`: Whether a line holds something.

## Theorems

* `countLines_append`: A line is counted when its end is read.
* `countLines_eq`: The lines that are counted are the pieces.
* `ofBytes_counts_lines`: The counts of a file.
-/

namespace PackageAlgebra.Source

/-- Whether a line holds something besides carriage returns, blanks and tabs. -/
def holdsText (line : List UInt8) : Bool :=
  line.any fun b => b ≠ 0x0d && b ≠ 0x20 && b ≠ 0x09

variable {data line : List UInt8} {b : UInt8}

theorem holdsText_cons : holdsText (b :: line) = (!isBlankByte b || holdsText line) := by
  unfold holdsText isBlankByte
  rw [List.any_cons]
  congr 1
  simp only [decide_not, Bool.not_or]

/-! ### Counting -/

/-- The last line is counted if something has been read of it. -/
theorem countLines_of_no_end (h : 0x0a ∉ line) (blankSoFar : Bool) :
    countLines blankSoFar line = if blankSoFar && !holdsText line then (0, 0) else (1, 0) := by
  induction line generalizing blankSoFar with
  | nil => cases blankSoFar <;> rfl
  | cons b rest ih =>
      rw [List.mem_cons, not_or] at h
      rw [countLines, if_neg (Ne.symm h.1), ih h.2, holdsText_cons, Bool.not_or, Bool.not_not,
        Bool.and_assoc]

/-- Any other line is counted when its end is read, and then the next one begins. -/
theorem countLines_append (h : 0x0a ∉ line) (blankSoFar : Bool) (rest : List UInt8) :
    countLines blankSoFar (line ++ 0x0a :: rest) =
      if blankSoFar && !holdsText line then
        ((countLines true rest).1, (countLines true rest).2 + 1)
      else ((countLines true rest).1 + 1, (countLines true rest).2) := by
  induction line generalizing blankSoFar with
  | nil => cases blankSoFar <;> rfl
  | cons b line ih =>
      rw [List.mem_cons, not_or] at h
      rw [List.cons_append, countLines, if_neg (Ne.symm h.1), ih h.2, holdsText_cons, Bool.not_or,
        Bool.not_not, Bool.and_assoc]

/-- The full lines are the pieces that hold something. The blank ones are those that hold nothing,
    but for the last piece, which is not ended. -/
theorem countLines_eq (data : List UInt8) :
    countLines true data =
      ((data.splitOn 0x0a).countP holdsText,
        (data.splitOn 0x0a).dropLast.countP fun l => !holdsText l) := by
  induction hn : data.length using Nat.strongRecOn generalizing data with
  | _ n ih =>
    by_cases hend : 0x0a ∈ data
    · -- The first line is read to its end, and the rest is shorter.
      rcases List.eq_append_cons_of_mem hend with ⟨line, rest, rfl, hline⟩
      have hshort : rest.length < n := by
        rw [← hn, List.length_append, List.length_cons]
        omega
      rw [countLines_append hline, ih _ hshort rest rfl,
        List.splitOn_append_cons_self_of_not_mem hline,
        List.dropLast_cons_of_ne_nil (List.splitOn_ne_nil 0x0a rest), List.countP_cons,
        List.countP_cons]
      cases holdsText line <;> rfl
    · rw [countLines_of_no_end hend, List.splitOn_eq_singleton hend, List.countP_singleton]
      cases holdsText data <;> rfl

/-! ### The counts of a file -/

theorem ofBytes_of_zero (h : 0 ∈ data) : ofBytes data = { binary := 1, size := data.length } :=
  if_pos (List.contains_iff_mem.2 h)

theorem ofBytes_of_no_zero (h : 0 ∉ data) :
    ofBytes data =
      { files := 1, size := data.length, lines := (data.splitOn 0x0a).countP holdsText,
        blank := (data.splitOn 0x0a).dropLast.countP fun l => !holdsText l } := by
  have hcontains : ¬ data.contains 0 = true := fun hzero => h (List.contains_iff_mem.1 hzero)
  rw [ofBytes, if_neg hcontains, countLines_eq]

/-- A file with a zero byte is one binary file of its size, and nothing else. Any other file is one
    file of its size. Its lines are the pieces between its line feeds that hold something. Its blank
    lines are the pieces that hold nothing and are ended by a line feed, which the last one is not.
    So size and lines add up where a text that ends with a line feed is followed by another one. -/
theorem ofBytes_counts_lines (data : List UInt8) :
    (0 ∈ data → ofBytes data = { binary := 1, size := data.length }) ∧
    (0 ∉ data → ofBytes data =
      { files := 1, size := data.length, lines := (data.splitOn 0x0a).countP holdsText,
        blank := (data.splitOn 0x0a).dropLast.countP fun l => !holdsText l }) ∧
    ∀ more, 0 ∉ data → data.getLast? = some 0x0a → 0 ∉ more →
      (ofBytes (data ++ more)).size = (ofBytes data).size + (ofBytes more).size ∧
      (ofBytes (data ++ more)).lines = (ofBytes data).lines + (ofBytes more).lines ∧
      (ofBytes (data ++ more)).blank = (ofBytes data).blank + (ofBytes more).blank := by
  refine ⟨ofBytes_of_zero, ofBytes_of_no_zero, fun more hdata hlast hmore => ?_⟩
  rcases List.getLast?_eq_some_iff.1 hlast with ⟨text, rfl⟩
  have hboth : 0 ∉ text ++ [0x0a] ++ more := by
    rw [List.mem_append, not_or]
    exact ⟨hdata, hmore⟩
  -- The last piece of the first text is empty, and that of both texts is the last of the second.
  have hfirst : (text ++ [0x0a]).splitOn 0x0a = text.splitOn 0x0a ++ [[]] :=
    List.splitOn_append_cons_self text []
  have hpieces : (text ++ [0x0a] ++ more).splitOn 0x0a =
      text.splitOn 0x0a ++ more.splitOn 0x0a := by
    rw [List.append_assoc, List.singleton_append, List.splitOn_append_cons_self]
  rw [ofBytes_of_no_zero hboth, ofBytes_of_no_zero hdata, ofBytes_of_no_zero hmore, hpieces,
    hfirst, List.dropLast_append_of_ne_nil (List.splitOn_ne_nil 0x0a more), List.dropLast_concat]
  have hempty : [[]].countP holdsText = 0 := rfl
  simp only [List.length_append, List.countP_append, hempty, Nat.add_zero, Int.natCast_add,
    and_self]

/-- A page with a blank line between two full ones, and a page whose last line is not ended. -/
theorem ofBytes_counts_lines_pages :
    let page : List UInt8 := "one\r\n \t\ntwo\n".toUTF8.toList
    let more : List UInt8 := "\nthree".toUTF8.toList
    0 ∉ page ∧ page.getLast? = some 0x0a ∧ 0 ∉ more ∧ 0 ∈ page ++ [0] ∧
      ofBytes page = { files := 1, size := 12, lines := 2, blank := 1 } ∧
      ofBytes (page ++ [0]) = { binary := 1, size := 13 } ∧
      (ofBytes (page ++ more)).lines = 2 + 1 ∧ (ofBytes (page ++ more)).blank = 1 + 1 := by
  intro page more
  have hpage : 0 ∉ page := by decide +kernel
  have hlast : page.getLast? = some 0x0a := by decide +kernel
  have hmore : 0 ∉ more := by decide +kernel
  have hzero : 0 ∈ page ++ [0] := List.mem_append_right page (List.mem_singleton_self 0)
  rcases ofBytes_counts_lines page with ⟨-, hcounts, hsum⟩
  rcases ofBytes_counts_lines (page ++ [0]) with ⟨hbinary, -, -⟩
  rcases hsum more hpage hlast hmore with ⟨-, hlines, hblank⟩
  refine ⟨hpage, hlast, hmore, hzero, (hcounts hpage).trans ?_, (hbinary hzero).trans ?_,
    hlines.trans ?_, hblank.trans ?_⟩ <;> decide +kernel

end PackageAlgebra.Source
