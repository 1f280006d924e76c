/-!
# Source Counts

How much source text a package holds.

A `Source` counts files, bytes and lines; a `Stat` keeps one for the modules of
a package and one for the other files beside them, together with the number of
packages it speaks of. Counts add and subtract field by field. They are whole
numbers, not natural ones: a difference may be negative, and a snapshot may
carry any number it likes.

A line is blank when it holds nothing but blanks, tabs and carriage returns.
What follows the last line feed is a line only if it holds something else. A
file with a zero byte anywhere is binary and has no lines.

## Main definitions

* `Source`: Counts over files.
* `Source.ofBytes`: The counts of one file.
* `Stat`: Counts over packages.
* `Stat.allFiles`: Modules and other files together.
-/

namespace PackageAlgebra

/-- Counts over files. -/
@[ext]
structure Source where
  -- Files of text.
  files : Int := 0
  -- Files with a zero byte.
  binary : Int := 0
  -- Bytes.
  size : Int := 0
  -- Lines that hold something.
  lines : Int := 0
  -- Lines that hold nothing.
  blank : Int := 0
  deriving DecidableEq

namespace Source

instance : Zero Source := ⟨{}⟩

instance : Add Source where
  add a b := ⟨a.files + b.files, a.binary + b.binary, a.size + b.size, a.lines + b.lines,
    a.blank + b.blank⟩

instance : Sub Source where
  sub a b := ⟨a.files - b.files, a.binary - b.binary, a.size - b.size, a.lines - b.lines,
    a.blank - b.blank⟩

/-- Whether a byte leaves a line blank. -/
def isBlankByte (b : UInt8) : Bool := b = 0x0d || b = 0x20 || b = 0x09

/-- The counts of full and of blank lines in a text, given whether the line being
    read has been blank so far. -/
def countLines (blankSoFar : Bool) : List UInt8 → Nat × Nat
  | [] => if blankSoFar then (0, 0) else (1, 0)
  | b :: rest =>
    if b = 0x0a then
      let (full, blank) := countLines true rest
      if blankSoFar then (full, blank + 1) else (full + 1, blank)
    else countLines (blankSoFar && isBlankByte b) rest

/-- The counts of one file. -/
def ofBytes (data : List UInt8) : Source :=
  if data.contains 0 then { binary := 1, size := data.length }
  else
    let (full, blank) := countLines true data
    { files := 1, size := data.length, lines := full, blank := blank }

end Source

/-- Counts over packages. -/
@[ext]
structure Stat where
  -- How many packages are counted.
  packageCount : Int := 0
  -- Their modules.
  python : Source := {}
  -- The files beside their modules.
  otherFiles : Source := {}
  deriving DecidableEq

namespace Stat

instance : Zero Stat := ⟨{}⟩

instance : Add Stat where
  add a b := ⟨a.packageCount + b.packageCount, a.python + b.python, a.otherFiles + b.otherFiles⟩

instance : Sub Stat where
  sub a b := ⟨a.packageCount - b.packageCount, a.python - b.python, a.otherFiles - b.otherFiles⟩

/-- The counts of a package about which nothing else is known. -/
def single : Stat := { packageCount := 1 }

/-- Modules and other files together. -/
def allFiles (s : Stat) : Source := s.python + s.otherFiles

end Stat

end PackageAlgebra
