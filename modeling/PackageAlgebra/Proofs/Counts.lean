import PackageAlgebra.Graph.Basic
import Mathlib.Algebra.BigOperators.Group.List.Basic
import Mathlib.Algebra.Ring.Int.Defs

/-!
# Totals of Counts

Counts of several packages together do not depend on the order in which they
are added up.

A total is a fold over a list, while everything worth saying about one speaks
of a set of packages: the set that goes away with a target, the set that a
member leads to. Addition of counts is associative and commutative, so two
lists that hold the same packages have one total, and the order in which an
algorithm happens to meet them drops out of every statement.

What a total is can be said without adding counts: each of its numbers is the sum of the numbers
that stand in the same place of the parts. A list has one such total.

## Main definitions

* `Source.IsSum`, `Stat.IsSum`: Counts are the sums of some counts, number by number.

## Theorems

* `totalStat_perm`: Rearranging does not change a total.
* `isSum_totalStat`: A total is the sum of its parts.
* `Stat.IsSum.unique`: There is one sum only.
* `Stat.IsSum.packageCount_of_single`: The sum of single packages counts them.
-/

namespace PackageAlgebra

namespace Source

@[simp] theorem add_files (a b : Source) : (a + b).files = a.files + b.files := rfl
@[simp] theorem add_binary (a b : Source) : (a + b).binary = a.binary + b.binary := rfl
@[simp] theorem add_size (a b : Source) : (a + b).size = a.size + b.size := rfl
@[simp] theorem add_lines (a b : Source) : (a + b).lines = a.lines + b.lines := rfl
@[simp] theorem add_blank (a b : Source) : (a + b).blank = a.blank + b.blank := rfl

@[simp] theorem zero_files : (0 : Source).files = 0 := rfl
@[simp] theorem zero_binary : (0 : Source).binary = 0 := rfl
@[simp] theorem zero_size : (0 : Source).size = 0 := rfl
@[simp] theorem zero_lines : (0 : Source).lines = 0 := rfl
@[simp] theorem zero_blank : (0 : Source).blank = 0 := rfl

instance : AddCommMonoid Source where
  add_assoc a b c := by ext <;> simp only [add_files, add_binary, add_size, add_lines, add_blank,
    add_assoc]
  zero_add a := by ext <;> simp
  add_zero a := by ext <;> simp
  add_comm a b := by ext <;> simp only [add_files, add_binary, add_size, add_lines, add_blank,
    add_comm]
  nsmul := nsmulRec

end Source

namespace Stat

@[simp] theorem add_packageCount (a b : Stat) :
    (a + b).packageCount = a.packageCount + b.packageCount := rfl
@[simp] theorem add_python (a b : Stat) : (a + b).python = a.python + b.python := rfl
@[simp] theorem add_otherFiles (a b : Stat) :
    (a + b).otherFiles = a.otherFiles + b.otherFiles := rfl

@[simp] theorem zero_packageCount : (0 : Stat).packageCount = 0 := rfl
@[simp] theorem zero_python : (0 : Stat).python = 0 := rfl
@[simp] theorem zero_otherFiles : (0 : Stat).otherFiles = 0 := rfl

instance : AddCommMonoid Stat where
  add_assoc a b c := by ext1 <;> simp only [add_packageCount, add_python, add_otherFiles,
    add_assoc]
  zero_add a := by ext1 <;> simp
  add_zero a := by ext1 <;> simp
  add_comm a b := by ext1 <;> simp only [add_packageCount, add_python, add_otherFiles, add_comm]
  nsmul := nsmulRec

end Stat

/-- Rearranging does not change a total. -/
theorem totalStat_perm {xs ys : List Stat} (h : xs.Perm ys) : totalStat xs = totalStat ys :=
  h.sum_eq

/-! ### Sums, number by number -/

/-- Counts over files are the sums of some counts, number by number. -/
structure Source.IsSum (total : Source) (parts : List Source) : Prop where
  -- Files of text.
  files_eq : total.files = (parts.map files).sum
  -- Files with a zero byte.
  binary_eq : total.binary = (parts.map binary).sum
  -- Bytes.
  size_eq : total.size = (parts.map size).sum
  -- Lines that hold something.
  lines_eq : total.lines = (parts.map lines).sum
  -- Lines that hold nothing.
  blank_eq : total.blank = (parts.map blank).sum

/-- Counts over packages are the sums of some counts, number by number. -/
structure Stat.IsSum (total : Stat) (parts : List Stat) : Prop where
  -- The packages.
  packageCount_eq : total.packageCount = (parts.map packageCount).sum
  -- Their modules.
  python : total.python.IsSum (parts.map Stat.python)
  -- Their other files.
  otherFiles : total.otherFiles.IsSum (parts.map Stat.otherFiles)

theorem Source.isSum_nil : (0 : Source).IsSum [] := ⟨rfl, rfl, rfl, rfl, rfl⟩

/-- With one part more, a sum grows by that part. -/
theorem Source.IsSum.cons {total : Source} {parts : List Source} (h : total.IsSum parts)
    (s : Source) : (s + total).IsSum (s :: parts) where
  files_eq := by rw [add_files, h.files_eq, List.map_cons, List.sum_cons]
  binary_eq := by rw [add_binary, h.binary_eq, List.map_cons, List.sum_cons]
  size_eq := by rw [add_size, h.size_eq, List.map_cons, List.sum_cons]
  lines_eq := by rw [add_lines, h.lines_eq, List.map_cons, List.sum_cons]
  blank_eq := by rw [add_blank, h.blank_eq, List.map_cons, List.sum_cons]

/-- A total is the sum of its parts. -/
theorem isSum_totalStat (parts : List Stat) : (totalStat parts).IsSum parts := by
  induction parts with
  | nil => exact ⟨rfl, Source.isSum_nil, Source.isSum_nil⟩
  | cons s rest ih =>
      have htotal : totalStat (s :: rest) = s + totalStat rest := List.sum_cons
      rw [htotal]
      refine ⟨?_, ih.python.cons s.python, ih.otherFiles.cons s.otherFiles⟩
      rw [Stat.add_packageCount, ih.packageCount_eq, List.map_cons, List.sum_cons]

theorem Source.IsSum.unique {total other : Source} {parts : List Source} (h : total.IsSum parts)
    (hother : other.IsSum parts) : total = other :=
  Source.ext (h.files_eq.trans hother.files_eq.symm) (h.binary_eq.trans hother.binary_eq.symm)
    (h.size_eq.trans hother.size_eq.symm) (h.lines_eq.trans hother.lines_eq.symm)
    (h.blank_eq.trans hother.blank_eq.symm)

/-- There is one sum only. -/
theorem Stat.IsSum.unique {total other : Stat} {parts : List Stat} (h : total.IsSum parts)
    (hother : other.IsSum parts) : total = other :=
  Stat.ext (h.packageCount_eq.trans hother.packageCount_eq.symm)
    (h.python.unique hother.python) (h.otherFiles.unique hother.otherFiles)

/-- The sum of single packages counts them. -/
theorem Stat.IsSum.packageCount_of_single {total : Stat} {parts : List Stat}
    (h : total.IsSum parts) (hone : ∀ s ∈ parts, s.packageCount = 1) :
    total.packageCount = parts.length := by
  rw [h.packageCount_eq]
  clear h
  induction parts with
  | nil => rfl
  | cons s rest ih =>
      rw [List.forall_mem_cons] at hone
      rw [List.map_cons, List.sum_cons, ih hone.2, hone.1, List.length_cons]
      omega

end PackageAlgebra
