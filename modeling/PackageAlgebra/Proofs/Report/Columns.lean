import PackageAlgebra.Proofs.Text.Cuts
import PackageAlgebra.Report.Lines
import Mathlib.Data.List.Forall2

/-!
# Columns of a Report

Where the cells of aligned lines stand.

Lines with tabs may have any numbers of cells, and what is a cell in the middle of one line is
the last cell of another, which is neither padded nor counted for the width of its column. The
cells stand in columns all the same. Every cell in the middle of a line is filled up to the width
of its column, so what precedes the cell of some column has one length in all lines that get
there. `columnStart` is this length, and a line that is cut there goes on with the cell.

That the columns stand as far to the left as they can is a matter of the widths alone. They are
collected line by line, and in the end a width is the least number that none of the cells in the
middle of lines exceeds, each of which keeps the next column at its distance. A layout that
leaves room for all of them cannot start a column any earlier.

## Main definitions

* `Report.columnStart`: Where a column starts.
* `Report.LeavesRoom`: A layout has the next column start after each cell and the padding.
* `Report.Shows`: A line shows its cells in the columns of a layout.

## Theorems

* `columnWidths_iff`: What holds of the widths in the end.
* `columnWidth_le_iff`: The width of a column is the least that is wide enough.
* `exists_before_column`: A line is cut where a column starts.
* `take_drop_alignRow`, `getElem?_alignRow_between`, `length_alignRow`: The places of a line.
* `shows_alignRow`: A line shows its cells.
* `columnStart_le`: No layout that leaves room starts a column earlier.
* `align_shows_columns`: Aligned lines as a whole.
-/

namespace PackageAlgebra.Report

open Text

/-- Where a column starts: behind the columns before it, each of them as wide as its widest cell
    in the middle of a line, and the padding. -/
def columnStart (rows : List (List String)) (padding : Nat) : Nat → Nat
  | 0 => 0
  | i + 1 => columnStart rows padding i + columnWidth rows i + padding

/-- A layout has the next column start after each cell in the middle of a line and the
    padding. -/
def LeavesRoom (start : Nat → Nat) (padding : Nat) (cells : List String) : Prop :=
  ∀ i cell, cells.dropLast[i]? = some cell → start i + cell.length + padding ≤ start (i + 1)

/-- A line shows its cells in the columns of a layout. -/
structure Shows (start : Nat → Nat) (padding : Nat) (cells : List String) (line : String) :
    Prop where
  -- A cell stands where its column starts.
  stands : ∀ i cell, cells[i]? = some cell →
    (line.toList.drop (start i)).take cell.length = cell.toList
  -- There is room for the cells and the padding between the starts.
  room : LeavesRoom start padding cells
  -- Between a cell and the next one there are blanks.
  blank : ∀ i cell, cells.dropLast[i]? = some cell →
    ∀ k, start i + cell.length ≤ k → k < start (i + 1) → line.toList[k]? = some ' '
  -- The last cell ends the line.
  ends : ∀ cell, cells.getLast? = some cell → line.length = start (cells.length - 1) + cell.length
  -- No tabs are left.
  plain : '\t' ∉ line.toList

variable {rows : List (List String)} {cells : List String} {cell : String} {i padding : Nat}

/-! ### Widths -/

theorem length_widen (widths : List Nat) (cells : List String) :
    (widen widths cells).length = max widths.length cells.length := by
  fun_induction widen with
  | case1 widths => rw [List.length_nil, Nat.max_zero]
  | case2 cell rest ih =>
      rw [List.length_cons, List.length_cons, ih, List.length_nil, Nat.zero_max, Nat.zero_max]
  | case3 width widths cell rest ih =>
      rw [List.length_cons, List.length_cons, List.length_cons, ih, Nat.succ_max_succ]

/-- One more line makes a column as wide as its cell there, if it was not. -/
theorem getD_widen_le_iff (widths : List Nat) (cells : List String) {n : Nat} :
    (widen widths cells)[i]?.getD 0 ≤ n ↔
      widths[i]?.getD 0 ≤ n ∧ ∀ cell, cells[i]? = some cell → cell.length ≤ n := by
  fun_induction widen generalizing i with
  | case1 widths => simp
  | case2 cell rest ih =>
      cases i with
      | zero => simp
      | succ i => simpa using ih (i := i)
  | case3 width widths cell rest ih =>
      cases i with
      | zero =>
          simp only [List.getElem?_cons_zero, Option.getD_some, Option.some.injEq, forall_eq',
            Nat.max_le]
      | succ i => simpa using ih (i := i)

/-- What holds of the widths after one more line if and only if it held before and the line suits
    it, holds in the end if and only if all lines suit it. -/
theorem columnWidths_iff (holds : List Nat → Prop) {suits : List String → Prop}
    (hstart : holds []) (hstep : ∀ widths cells,
      holds (widen widths cells.dropLast) ↔ holds widths ∧ suits cells) :
    holds (columnWidths rows) ↔ ∀ cells ∈ rows, suits cells := by
  have hfold : ∀ widths, holds (rows.foldl (fun widths cells => widen widths cells.dropLast) widths)
      ↔ holds widths ∧ ∀ cells ∈ rows, suits cells := by
    induction rows with
    | nil => simp
    | cons cells rest ih =>
        intro widths
        rw [List.foldl_cons, ih, hstep, List.forall_mem_cons, and_assoc]
  unfold columnWidths
  rw [hfold, and_iff_right hstart]

/-- There are as many widths as the longest line has cells but its last one. -/
theorem length_columnWidths_le_iff {n : Nat} : (columnWidths rows).length ≤ n ↔
    ∀ cells ∈ rows, cells.dropLast.length ≤ n := by
  refine columnWidths_iff (fun widths => widths.length ≤ n) (Nat.zero_le n)
    fun widths cells => ?_
  rw [length_widen, Nat.max_le]

/-- The width of a column is the least that is wide enough for its cells in the middle of
    lines. -/
theorem columnWidth_le_iff {n : Nat} : columnWidth rows i ≤ n ↔
    ∀ cells ∈ rows, ∀ cell, cells.dropLast[i]? = some cell → cell.length ≤ n :=
  columnWidths_iff (fun widths => widths[i]?.getD 0 ≤ n) (Nat.zero_le n)
    fun widths cells => getD_widen_le_iff widths cells.dropLast

theorem le_columnWidth (hcells : cells ∈ rows) (hcell : cells.dropLast[i]? = some cell) :
    cell.length ≤ columnWidth rows i :=
  columnWidth_le_iff.1 (Nat.le_refl _) cells hcells cell hcell

/-- The columns leave room for all lines. -/
theorem leavesRoom_columnStart (hcells : cells ∈ rows) :
    LeavesRoom (columnStart rows padding) padding cells := by
  intro i cell hcell
  have hwidth := le_columnWidth hcells hcell
  rw [columnStart]
  omega

/-- No layout that leaves room for all lines starts a column earlier, if some line has a cell in
    it. -/
theorem columnStart_le {start : Nat → Nat}
    (hroom : ∀ cells ∈ rows, LeavesRoom start padding cells) (hcells : cells ∈ rows)
    (hi : i < cells.length) : columnStart rows padding i ≤ start i := by
  induction i with
  | zero => exact Nat.zero_le _
  | succ i ih =>
      have hbefore := ih (by omega)
      -- This line has a cell in the column before, so there is room for the padding at least.
      have hlast : i < cells.dropLast.length := by
        rw [List.length_dropLast]
        omega
      have hown := hroom cells hcells i _ (List.getElem?_eq_getElem hlast)
      have hwidth : columnWidth rows i ≤ start (i + 1) - padding - start i := by
        refine columnWidth_le_iff.2 fun other hother cell hcell => ?_
        have hcell := hroom other hother i cell hcell
        omega
      rw [columnStart]
      omega

/-! ### One line -/

/-- The width up to which the cells of a column are filled. -/
def filledWidth (rows : List (List String)) (padding i : Nat) : Int :=
  columnWidth rows i + padding

theorem toList_padRight (width : Int) (cell : String) : (padRight width cell).toList =
    cell.toList ++ List.replicate (width - cell.length).toNat ' ' := by
  unfold padRight
  rw [String.toList_append, String.toList_ofList]

theorem toList_alignRow_cons (width : Nat → Int) (column : Nat) (next : String)
    (rest : List String) : (alignRow width column (cell :: next :: rest)).toList =
      (padRight (width column) cell).toList ++
        (alignRow width (column + 1) (next :: rest)).toList :=
  String.toList_append

theorem getElem?_dropLast_iff :
    cells.dropLast[i]? = some cell ↔ i + 1 < cells.length ∧ cells[i]? = some cell := by
  rw [List.getElem?_dropLast]
  by_cases hi : i < cells.length - 1
  · rw [if_pos hi, and_iff_right (by omega)]
  · rw [if_neg hi]
    exact iff_of_false (by simp) fun h => hi (by omega)

/-- A cell in the middle of a line takes up the width of its column and the padding. -/
theorem length_padRight (hcells : cells ∈ rows) (hcell : cells.dropLast[i]? = some cell) :
    (padRight (filledWidth rows padding i) cell).toList.length =
      columnWidth rows i + padding := by
  have hwidth := le_columnWidth hcells hcell
  rw [toList_padRight, List.length_append, List.length_replicate, String.length_toList]
  unfold filledWidth
  omega

/-- A line is cut where a column starts, and goes on with the cell of that column. -/
theorem exists_before_column (padding : Nat) (hcells : cells ∈ rows) (hi : i < cells.length) :
    ∃ before, (alignRow (filledWidth rows padding) 0 cells).toList =
        before ++ (alignRow (filledWidth rows padding) i (cells.drop i)).toList ∧
      before.length = columnStart rows padding i := by
  induction i with
  | zero => exact ⟨[], rfl, rfl⟩
  | succ i ih =>
      rcases ih (by omega) with ⟨before, hline, hlength⟩
      have hcell : cells.dropLast[i]? = some cells[i] :=
        getElem?_dropLast_iff.2 ⟨hi, List.getElem?_eq_getElem (by omega)⟩
      rw [List.drop_eq_getElem_cons (by omega), List.drop_eq_getElem_cons hi,
        toList_alignRow_cons, ← List.drop_eq_getElem_cons hi, ← List.append_assoc] at hline
      refine ⟨_, hline, ?_⟩
      rw [List.length_append, hlength, length_padRight hcells hcell, columnStart]
      omega

/-- A line begins with its first cell. -/
theorem exists_after_cell (width : Nat → Int) (column : Nat) (cell : String)
    (rest : List String) :
    ∃ after, (alignRow width column (cell :: rest)).toList = cell.toList ++ after := by
  cases rest with
  | nil => exact ⟨[], (List.append_nil _).symm⟩
  | cons next rest =>
      rw [toList_alignRow_cons, toList_padRight, List.append_assoc]
      exact ⟨_, rfl⟩

/-- The characters of a line are those of its cells, and blanks. -/
theorem not_mem_alignRow {c : Char} (hblank : c ≠ ' ') (width : Nat → Int) (column : Nat)
    (hcells : ∀ cell ∈ cells, c ∉ cell.toList) : c ∉ (alignRow width column cells).toList := by
  induction cells generalizing column with
  | nil => exact List.not_mem_nil
  | cons cell rest ih =>
      rw [List.forall_mem_cons] at hcells
      cases rest with
      | nil => exact hcells.1
      | cons next rest =>
          rw [toList_alignRow_cons, toList_padRight, List.mem_append, List.mem_append, not_or,
            not_or]
          exact ⟨⟨hcells.1, fun hmem => hblank (List.eq_of_mem_replicate hmem)⟩,
            ih (column + 1) hcells.2⟩

/-- A cell stands where its column starts. -/
theorem take_drop_alignRow (padding : Nat) (hcells : cells ∈ rows)
    (hcell : cells[i]? = some cell) :
    ((alignRow (filledWidth rows padding) 0 cells).toList.drop
      (columnStart rows padding i)).take cell.length = cell.toList := by
  rcases List.getElem?_eq_some_iff.1 hcell with ⟨hi, rfl⟩
  rcases exists_before_column padding hcells hi with ⟨before, hline, hlength⟩
  rw [List.drop_eq_getElem_cons hi] at hline
  rcases exists_after_cell (filledWidth rows padding) i cells[i] (cells.drop (i + 1)) with
    ⟨after, hafter⟩
  rw [hline, hafter, ← hlength, List.drop_left, ← String.length_toList, List.take_left]

/-- Between a cell and the next column there are blanks. -/
theorem getElem?_alignRow_between {k : Nat} (hcells : cells ∈ rows)
    (hcell : cells.dropLast[i]? = some cell)
    (hfrom : columnStart rows padding i + cell.length ≤ k)
    (hto : k < columnStart rows padding (i + 1)) :
    (alignRow (filledWidth rows padding) 0 cells).toList[k]? = some ' ' := by
  rcases getElem?_dropLast_iff.1 hcell with ⟨hnext, hget⟩
  rcases List.getElem?_eq_some_iff.1 hget with ⟨hi, rfl⟩
  rcases exists_before_column padding hcells hi with ⟨before, hline, hlength⟩
  have hwidth := le_columnWidth hcells hcell
  have hcount : (filledWidth rows padding i - cells[i].length).toNat =
      columnWidth rows i + padding - cells[i].length := by
    unfold filledWidth
    omega
  rw [columnStart] at hto
  rw [List.drop_eq_getElem_cons hi, List.drop_eq_getElem_cons hnext, toList_alignRow_cons,
    toList_padRight, hcount, List.append_assoc] at hline
  -- The place lies behind the cell and among the blanks after it.
  have hbehind : k - before.length - cells[i].toList.length <
      columnWidth rows i + padding - cells[i].length := by
    rw [String.length_toList]
    omega
  rw [hline, List.getElem?_append_right (by omega),
    List.getElem?_append_right (by rw [String.length_toList]; omega),
    List.getElem?_append_left (by rwa [List.length_replicate]),
    List.getElem?_replicate, if_pos hbehind]

/-- The last cell ends a line. -/
theorem length_alignRow (padding : Nat) (hcells : cells ∈ rows)
    (hcell : cells.getLast? = some cell) :
    (alignRow (filledWidth rows padding) 0 cells).length =
      columnStart rows padding (cells.length - 1) + cell.length := by
  rcases List.getLast?_eq_some_iff.1 hcell with ⟨front, rfl⟩
  have hlast : front.length < (front ++ [cell]).length := by
    rw [List.length_append, List.length_singleton]
    omega
  rcases exists_before_column padding hcells hlast with ⟨before, hline, hlength⟩
  rw [List.drop_left, alignRow] at hline
  rw [← String.length_toList, hline, List.length_append, hlength, String.length_toList,
    List.length_append, List.length_singleton, Nat.add_sub_cancel]

/-- A line shows its cells in the columns of all lines. -/
theorem shows_alignRow (hcells : cells ∈ rows) (hplain : ∀ cell ∈ cells, '\t' ∉ cell.toList) :
    Shows (columnStart rows padding) padding cells
      (alignRow (filledWidth rows padding) 0 cells) where
  stands _ _ hcell := take_drop_alignRow padding hcells hcell
  room := leavesRoom_columnStart hcells
  blank _ _ hcell _ hfrom hto := getElem?_alignRow_between hcells hcell hfrom hto
  ends _ hcell := length_alignRow padding hcells hcell
  plain := not_mem_alignRow (by decide) _ 0 hplain

/-! ### All lines -/

/-- Aligned lines are as many as there were, in their order. Each shows its cells in columns that
    are the same for all of them, the padding being kept between a cell and the next column. Each
    cell that is filled up has a width for its column, and no layout that leaves room for all
    lines starts a column earlier. -/
theorem align_shows_columns (lines : List String) (padding : Nat) :
    List.Forall₂ (fun line shown =>
        Shows (columnStart (lines.map (split '\t')) padding) padding (split '\t' line) shown)
      lines (align lines padding) ∧
    (∀ line ∈ lines,
      (split '\t' line).dropLast.length ≤ (columnWidths (lines.map (split '\t'))).length) ∧
    ∀ start : Nat → Nat, (∀ line ∈ lines, LeavesRoom start padding (split '\t' line)) →
      ∀ line ∈ lines, ∀ i < (split '\t' line).length,
        columnStart (lines.map (split '\t')) padding i ≤ start i := by
  refine ⟨?_, fun line hline => ?_, fun start hroom line hline i hi => ?_⟩
  · unfold align
    rw [List.map_map, List.forall₂_map_right_iff, List.forall₂_same]
    intro line hline
    exact shows_alignRow (List.mem_map_of_mem hline) fun cell hcell => not_mem_of_mem_split hcell
  · exact length_columnWidths_le_iff.1 (Nat.le_refl _) _ (List.mem_map_of_mem hline)
  · exact columnStart_le (List.forall_mem_map.2 hroom) (List.mem_map_of_mem hline) hi

/-- Three lines of different lengths. They would fit into columns that start five places
    apart. -/
theorem align_shows_columns_ragged :
    (∀ line ∈ ["a\tbb\t", "ccc", "\t\tdddd\te"], LeavesRoom (5 * ·) 1 (split '\t' line)) ∧
      align ["a\tbb\t", "ccc", "\t\tdddd\te"] 1 = ["a bb ", "ccc", "     dddd e"] ∧
      List.Forall₂ (fun line shown =>
          Shows (columnStart (["a\tbb\t", "ccc", "\t\tdddd\te"].map (split '\t')) 1) 1
            (split '\t' line) shown)
        ["a\tbb\t", "ccc", "\t\tdddd\te"] ["a bb ", "ccc", "     dddd e"] ∧
      ∀ i < 4, columnStart (["a\tbb\t", "ccc", "\t\tdddd\te"].map (split '\t')) 1 i ≤ 5 * i := by
  have hshown : align ["a\tbb\t", "ccc", "\t\tdddd\te"] 1 = ["a bb ", "ccc", "     dddd e"] := by
    decide
  have hshort : ∀ line ∈ ["a\tbb\t", "ccc", "\t\tdddd\te"], ∀ cell ∈ split '\t' line,
      cell.length ≤ 4 := by
    decide
  have hroom : ∀ line ∈ ["a\tbb\t", "ccc", "\t\tdddd\te"],
      LeavesRoom (5 * ·) 1 (split '\t' line) := by
    intro line hline i cell hcell
    have hlength := hshort line hline cell
      (List.dropLast_subset _ (List.mem_of_getElem? hcell))
    dsimp only
    omega
  have hcolumns := align_shows_columns ["a\tbb\t", "ccc", "\t\tdddd\te"] 1
  refine ⟨hroom, hshown, hshown ▸ hcolumns.1, fun i hi => ?_⟩
  exact hcolumns.2.2 (5 * ·) hroom "\t\tdddd\te" (by decide) i hi

end PackageAlgebra.Report
