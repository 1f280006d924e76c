/-!
# Sets of Characters

Properties of characters as standards publish them: as ranges of code points.

A set is kept as its boundaries, the code points at which membership changes.
The first boundary is the first member, the second the first code point after
that run, and so on; a character belongs to the set when an odd number of
boundaries lie at or below it. The large tables are written as the gaps
between neighbouring boundaries, in base 36, which keeps a table of a thousand
ranges to a few lines of text.

## Main definitions

* `CharSet`: A set of characters, as its boundaries.
* `CharSet.contains`: Membership.
* `CharSet.ofGaps`: Read a table of gaps.
* `CharSet.ofRanges`: A set from inclusive ranges.
-/

namespace PackageAlgebra

/-- A set of characters, as the code points where membership changes. -/
structure CharSet where
  -- The boundaries, in increasing order.
  boundaries : List Nat

namespace CharSet

/-- A character belongs to the set when an odd number of boundaries lie at or
    below it. -/
def contains (s : CharSet) (c : Char) : Bool :=
  s.boundaries.foldl (fun inside b => if b ≤ c.toNat then !inside else inside) false

/-- The value of a digit in base 36. -/
def digitValue (c : Char) : Nat :=
  if c.isDigit then c.toNat - '0'.toNat else c.toNat - 'a'.toNat + 10

/-- What has been read of a table of gaps: the boundaries so far, newest first,
    and the gap being read. -/
structure GapReader where
  -- The boundaries read so far, newest first.
  done : List Nat
  -- The gap being read.
  gap : Nat

/-- End the gap being read. -/
def GapReader.finish (r : GapReader) : GapReader := ⟨(r.done.headD 0 + r.gap) :: r.done, 0⟩

/-- Read one row of a table of gaps: numbers in base 36, one blank between
    them. -/
def GapReader.row (r : GapReader) (text : String) : GapReader :=
  (text.toList.foldl
    (fun (r : GapReader) c =>
      if c = ' ' then r.finish else { r with gap := r.gap * 36 + digitValue c })
    r).finish

/-- Read a table of gaps, row by row. -/
def ofGaps (rows : List String) : CharSet := ⟨(rows.foldl GapReader.row ⟨[], 0⟩).done.reverse⟩

/-- A set from inclusive ranges of code points, given in increasing order. -/
def ofRanges (ranges : List (Nat × Nat)) : CharSet :=
  ⟨ranges.flatMap fun r => [r.1, r.2 + 1]⟩

end CharSet

end PackageAlgebra
