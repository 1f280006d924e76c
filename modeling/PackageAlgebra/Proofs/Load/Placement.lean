import Mathlib.Algebra.BigOperators.Ring.Finset
import Mathlib.Data.List.Nodup
import Mathlib.Data.List.Perm.Subperm
import PackageAlgebra.Proofs.Counts
import PackageAlgebra.Proofs.Files.Paths
import PackageAlgebra.Proofs.Load.Modules

/-!
# Placement of Files

To which package each file of a source tree belongs.

A module is filed under its name and any other file under the package of its directory. Names do not
tell files apart: two modules may have one name, and a module may have the name of a directory
that is not its own. But a file is filed under one name only, as a module or as another file, and a
node takes files from under its own name only. So no file gets to two nodes, whatever the names are,
and no file is counted twice, though some are in no node: a module whose name another one has later,
or a file in a directory that no package stands for.

## Main definitions

* `SourceFile.filedUnder?`: The name that a file is filed under.
* `SourceScan.CountedAmong`: The files of a node are among some files, and its counts are theirs.

## Theorems

* `otherFiles_eq`, `filesBeside_eq`: The files without a module under a name.
* `filedUnder?_of_mem_files`: The files of a node are filed under its id.
* `exists_mem_files_iff`: The files that are in a node.
* `countedAmong_of_get?_ofScan`: The files of a node count in it, and no other files.
* `nodup_flatMap_files`: All nodes together list no file twice.
* `ofScan_places_files_once`: Each file is in one node at most, and is counted there.
-/

namespace PackageAlgebra

variable {stdNames : List String} {files : List SourceFile} {v : Variant} {scan : SourceScan}
  {m : SourceModule} {p q : Node NodeRef} {id name path : String} {f g : SourceFile}

/-- The name that a file is filed under: that of the module in it, or that of the package of its
    directory. -/
def SourceFile.filedUnder? (f : SourceFile) : Option String :=
  if f.language = .python then f.module else f.package

namespace SourceScan

/-! ### Filing -/

/-- The file of a module holds a module of that name. -/
theorem file_of_get?_modules (h : (ofFiles files).modules.get? name = some m) :
    m.file ∈ files ∧ m.file.language = .python ∧ m.file.module = some name := by
  have hentry := OrderedMap.mem_of_mem_entries_ofList (OrderedMap.get?_eq_some_iff.1 h)
  rcases List.mem_filterMap.1 hentry with ⟨f, hf, hmodule⟩
  unfold moduleOf? at hmodule
  rw [Option.ite_none_right_eq_some, Option.map_eq_some_iff] at hmodule
  rcases hmodule with ⟨hlanguage, _, hname, hpair⟩
  cases hpair
  exact ⟨hf, hlanguage, hname⟩

/-- A file without a module is added to those under the name of its package. -/
theorem get?_addOther (others : OrderedMap String (List SourceFile)) (f : SourceFile)
    (name : String) :
    ((addOther others f).get? name).getD [] = (others.get? name).getD [] ++
      [f].filter fun f => f.language ≠ .python && f.package = some name := by
  unfold addOther
  cases hpackage : f.package with
  | none => simp [hpackage]
  | some package =>
      by_cases hlanguage : f.language = .python
      · simp [hlanguage]
      · by_cases hname : name = package
        · simp [hlanguage, hpackage, hname, OrderedMap.get?_insert]
        · have hother : ¬ package = name := fun h => hname h.symm
          simp [hlanguage, hpackage, hname, hother, OrderedMap.get?_insert]

/-- Under the name of a package are the files without a module that are in it, in their order. -/
theorem otherFiles_eq (files : List SourceFile) (name : String) :
    ((ofFiles files).otherFiles.get? name).getD [] =
      files.filter fun f => f.language ≠ .python && f.package = some name := by
  have hrun : ∀ others : OrderedMap String (List SourceFile),
      ((files.foldl addOther others).get? name).getD [] = (others.get? name).getD [] ++
        files.filter fun f => f.language ≠ .python && f.package = some name := by
    induction files with
    | nil => exact fun others => (List.append_nil _).symm
    | cons f rest ih =>
        intro others
        rw [List.foldl_cons, ih, get?_addOther, List.append_assoc, ← List.filter_append,
          List.singleton_append]
  exact hrun .empty

/-- Beside a module that stands for a package are the files without a module in the package. -/
theorem filesBeside_eq (files : List SourceFile) (name : String) (m : SourceModule) :
    (ofFiles files).filesBeside name m = files.filter fun f =>
      m.file.isPackage && (f.language ≠ .python && f.package = some name) := by
  unfold filesBeside
  rw [otherFiles_eq]
  cases m.file.isPackage <;> simp

theorem mem_filesBeside_iff : f ∈ (ofFiles files).filesBeside name m ↔
    f ∈ files ∧ m.file.isPackage = true ∧ f.language ≠ .python ∧ f.package = some name := by
  rw [filesBeside_eq, List.mem_filter]
  simp only [ne_eq, Bool.and_eq_true, decide_eq_true_eq]

/-! ### Nodes -/

theorem mem_files_moduleNode_iff : path ∈ (scan.moduleNode name m).files ↔
    path = m.file.path ∨ ∃ f ∈ scan.filesBeside name m, f.path = path :=
  List.mem_cons.trans (or_congr_right List.mem_map)

/-- A node has the files and the counts of a module, or it has no files. -/
theorem files_of_get?_ofScan (h : (Universe.ofScan stdNames scan v).get? id = some p) :
    (p.files = [] ∧ p.stat = .single) ∨
      ∃ m, scan.modules.get? id = some m ∧
        p.files = (scan.moduleNode id m).files ∧ p.stat = (scan.moduleNode id m).stat := by
  rcases get?_ofScan_eq_some_iff.1 h with ⟨-, m, hm, rfl⟩ | ⟨-, -, rfl⟩ | ⟨-, -, -, rfl⟩
  · exact .inr ⟨m, hm, rfl, rfl⟩
  · exact .inl ⟨rfl, rfl⟩
  · exact .inl ⟨rfl, rfl⟩

/-- The files of a node are filed under its id. -/
theorem filedUnder?_of_mem_files
    (h : (Universe.ofScan stdNames (.ofFiles files) v).get? id = some p) (hpath : path ∈ p.files) :
    ∃ f ∈ files, f.path = path ∧ f.filedUnder? = some id := by
  rcases files_of_get?_ofScan h with ⟨hnone, -⟩ | ⟨m, hm, hfiles, -⟩
  · rw [hnone] at hpath
    exact absurd hpath List.not_mem_nil
  · rw [hfiles, mem_files_moduleNode_iff] at hpath
    rcases hpath with rfl | ⟨f, hf, rfl⟩
    · rcases file_of_get?_modules hm with ⟨hmem, hlanguage, hmodule⟩
      exact ⟨m.file, hmem, rfl, by rw [SourceFile.filedUnder?, if_pos hlanguage, hmodule]⟩
    · rcases mem_filesBeside_iff.1 hf with ⟨hmem, -, hlanguage, hpackage⟩
      exact ⟨f, hmem, rfl, by rw [SourceFile.filedUnder?, if_neg hlanguage, hpackage]⟩

/-- A file is in the node of an id if the node is that of a module that exists, and the file is that
    of the module, or is beside it. -/
theorem exists_mem_files_iff :
    (∃ p, (Universe.ofScan stdNames (.ofFiles files) v).get? id = some p ∧ path ∈ p.files) ↔
      ∃ m, (ofFiles files).modules.get? id = some m ∧
        (v.tests = true ∨ isTestPackage id = false) ∧
        (path = m.file.path ∨ ∃ f ∈ files, m.file.isPackage = true ∧ f.language ≠ .python ∧
          f.package = some id ∧ f.path = path) := by
  have hincludes : ∀ {m}, (ofFiles files).modules.get? id = some m →
      ((ofFiles files).includes v id = true ↔ v.tests = true ∨ isTestPackage id = false) := by
    intro m hm
    have hcontains := OrderedMap.contains_iff_mem_keys.2 (OrderedMap.mem_keys_iff.2 ⟨m, hm⟩)
    rw [includes, hcontains, Bool.true_and, Bool.or_eq_true, Bool.not_eq_true']
  have hfiles : ∀ {m}, path ∈ ((ofFiles files).moduleNode id m).files ↔
      path = m.file.path ∨ ∃ f ∈ files, m.file.isPackage = true ∧ f.language ≠ .python ∧
        f.package = some id ∧ f.path = path := by
    simp only [mem_files_moduleNode_iff, mem_filesBeside_iff, and_assoc, implies_true]
  constructor
  · rintro ⟨p, hp, hpath⟩
    rcases get?_ofScan_eq_some_iff.1 hp with ⟨hexists, m, hm, rfl⟩ | ⟨-, -, rfl⟩ | ⟨-, -, -, rfl⟩
    · exact ⟨m, hm, (hincludes hm).1 hexists, hfiles.1 hpath⟩
    · exact absurd hpath List.not_mem_nil
    · exact absurd hpath List.not_mem_nil
  · rintro ⟨m, hm, hexists, hpath⟩
    exact ⟨_, get?_ofScan_eq_some_iff.2 (.inl ⟨(hincludes hm).2 hexists, m, hm, rfl⟩),
      hfiles.2 hpath⟩

/-! ### Counts -/

/-- The files of a node are among some files, none twice, and its counts are theirs. -/
structure CountedAmong (files : List SourceFile) (p : Node NodeRef) : Prop where
  -- No file is listed twice.
  nodup : p.files.Nodup
  -- Each is one of the files.
  among : ∀ path ∈ p.files, ∃ f ∈ files, f.path = path
  -- Modules count on the one side and other files on the other.
  counted : p.stat =
    ⟨1, countFiles (files.filter fun f => f.path ∈ p.files && f.language = .python),
      countFiles (files.filter fun f => f.path ∈ p.files && f.language ≠ .python)⟩

/-- A file counts as one file, of text or not. -/
theorem files_add_binary_ofBytes (data : List UInt8) :
    (Source.ofBytes data).files + (Source.ofBytes data).binary = 1 := by
  unfold Source.ofBytes
  split <;> rfl

/-- Each file counts as one file. -/
theorem files_add_binary_countFiles (files : List SourceFile) :
    (countFiles files).files + (countFiles files).binary = files.length := by
  have hrun : ∀ (sources : List Source) (before : Source),
      (∀ s ∈ sources, s.files + s.binary = 1) →
      (sources.foldl (· + ·) before).files + (sources.foldl (· + ·) before).binary =
        before.files + before.binary + sources.length := by
    intro sources
    induction sources with
    | nil => exact fun before _ => (Int.add_zero _).symm
    | cons s rest ih =>
        intro before hone
        rw [List.forall_mem_cons] at hone
        rw [List.foldl_cons, ih _ hone.2, Source.add_files, Source.add_binary, List.length_cons]
        have hs := hone.1
        omega
  unfold countFiles
  rw [hrun _ _ fun s hs => ?_, List.length_map]
  · exact Int.zero_add _
  · rcases List.mem_map.1 hs with ⟨f, -, rfl⟩
    exact files_add_binary_ofBytes f.content

/-- A node counts as many files as it has. -/
theorem files_add_binary_of_get?_ofScan
    (h : (Universe.ofScan stdNames scan v).get? id = some p) :
    p.stat.allFiles.files + p.stat.allFiles.binary = p.files.length := by
  rcases files_of_get?_ofScan h with ⟨hfiles, hstat⟩ | ⟨m, -, hfiles, hstat⟩
  · rw [hfiles, hstat]
    rfl
  · have hown := files_add_binary_countFiles [m.file]
    have hbeside := files_add_binary_countFiles (scan.filesBeside id m)
    rw [List.length_singleton] at hown
    rw [hfiles, hstat]
    simp only [moduleNode, Node.make, Stat.allFiles, Source.add_files, Source.add_binary,
      List.length_cons, List.length_map]
    omega

/-! ### Files with different paths -/

section

variable (hpaths : (files.map SourceFile.path).Nodup)
include hpaths

theorem eq_of_path_eq (hf : f ∈ files) (hg : g ∈ files) (heq : f.path = g.path) : f = g :=
  List.inj_on_of_nodup_map hpaths hf hg heq

/-- Only a file itself has its path. -/
theorem filter_path_eq (hf : f ∈ files) : files.filter (fun g => g.path = f.path) = [f] := by
  induction files with
  | nil => exact absurd hf List.not_mem_nil
  | cons g rest ih =>
      rw [List.map_cons, List.nodup_cons] at hpaths
      rw [List.filter_cons]
      rcases List.mem_cons.1 hf with rfl | hf
      · have hnone : rest.filter (fun g => g.path = f.path) = [] :=
          List.filter_eq_nil_iff.2 fun g hg heq =>
            hpaths.1 (of_decide_eq_true heq ▸ List.mem_map_of_mem hg)
        rw [if_pos (decide_eq_true rfl), hnone]
      · have hother : ¬ g.path = f.path := fun heq =>
          hpaths.1 (heq ▸ List.mem_map_of_mem hf)
        rw [if_neg fun heq => hother (of_decide_eq_true heq), ih hpaths.2 hf]

theorem path_mem_files_moduleNode_iff (hf : f ∈ files) :
    f.path ∈ ((ofFiles files).moduleNode name m).files ↔
      f.path = m.file.path ∨ f ∈ (ofFiles files).filesBeside name m := by
  rw [mem_files_moduleNode_iff]
  refine or_congr_right ⟨?_, fun hf => ⟨f, hf, rfl⟩⟩
  rintro ⟨g, hg, heq⟩
  rwa [← eq_of_path_eq hpaths (mem_filesBeside_iff.1 hg).1 hf heq]

section

variable (hm : (ofFiles files).modules.get? name = some m)
include hm

/-- The file of a module is the only module among the files of its node. -/
theorem filter_python_moduleNode : files.filter (fun f =>
    f.path ∈ ((ofFiles files).moduleNode name m).files && f.language = .python) = [m.file] := by
  rcases file_of_get?_modules hm with ⟨hmem, hlanguage, -⟩
  rw [← filter_path_eq hpaths hmem]
  refine List.filter_congr fun f hf => ?_
  rw [Bool.eq_iff_iff, Bool.and_eq_true, decide_eq_true_eq, decide_eq_true_eq, decide_eq_true_eq,
    path_mem_files_moduleNode_iff hpaths hf]
  constructor
  · rintro ⟨hpath | hother, hpython⟩
    · exact hpath
    · exact absurd hpython (mem_filesBeside_iff.1 hother).2.2.1
  · intro hpath
    rw [eq_of_path_eq hpaths hf hmem hpath]
    exact ⟨.inl rfl, hlanguage⟩

/-- The other files of the node of a module are those beside it. -/
theorem filter_others_moduleNode : files.filter (fun f =>
    f.path ∈ ((ofFiles files).moduleNode name m).files && f.language ≠ .python) =
      (ofFiles files).filesBeside name m := by
  rcases file_of_get?_modules hm with ⟨hmem, hlanguage, -⟩
  have hbeside : ∀ f ∈ files,
      (f.path ∈ ((ofFiles files).moduleNode name m).files ∧ f.language ≠ .python ↔
        f ∈ (ofFiles files).filesBeside name m) := by
    intro f hf
    rw [path_mem_files_moduleNode_iff hpaths hf]
    constructor
    · rintro ⟨hpath | hother, hf'⟩
      · exact absurd (eq_of_path_eq hpaths hf hmem hpath ▸ hlanguage) hf'
      · exact hother
    · exact fun hother => ⟨.inr hother, (mem_filesBeside_iff.1 hother).2.2.1⟩
  conv_rhs => rw [filesBeside_eq]
  refine List.filter_congr fun f hf => ?_
  rw [Bool.eq_iff_iff, Bool.and_eq_true, decide_eq_true_eq, decide_eq_true_eq, hbeside f hf,
    filesBeside_eq, List.mem_filter, and_iff_right hf]

/-- The node of a module lists no file twice. -/
theorem nodup_files_moduleNode : ((ofFiles files).moduleNode name m).files.Nodup := by
  rcases file_of_get?_modules hm with ⟨hmem, hlanguage, -⟩
  refine List.nodup_cons.2 ⟨fun hpath => ?_, ?_⟩
  · rcases List.mem_map.1 hpath with ⟨f, hf, heq⟩
    have hbeside := mem_filesBeside_iff.1 hf
    rw [eq_of_path_eq hpaths hbeside.1 hmem heq] at hbeside
    exact hbeside.2.2.1 hlanguage
  · rw [filesBeside_eq]
    exact hpaths.sublist (List.filter_sublist.map SourceFile.path)

end

/-- The files of a node count in it, and no other files. -/
theorem countedAmong_of_get?_ofScan
    (h : (Universe.ofScan stdNames (.ofFiles files) v).get? id = some p) :
    CountedAmong files p := by
  have hamong : ∀ path ∈ p.files, ∃ f ∈ files, f.path = path := by
    intro path hpath
    rcases filedUnder?_of_mem_files h hpath with ⟨f, hf, hpath, -⟩
    exact ⟨f, hf, hpath⟩
  rcases files_of_get?_ofScan h with ⟨hfiles, hstat⟩ | ⟨m, hm, hfiles, hstat⟩
  · refine ⟨hfiles ▸ List.nodup_nil, hamong, ?_⟩
    rw [hstat, hfiles]
    simp only [List.not_mem_nil, decide_false, Bool.false_and, List.filter_false]
    rfl
  · refine ⟨hfiles ▸ nodup_files_moduleNode hpaths hm, hamong, ?_⟩
    rw [hstat, hfiles, filter_python_moduleNode hpaths hm, filter_others_moduleNode hpaths hm]
    rfl

/-- A file is in one node at most. -/
theorem eq_of_mem_files {other : String}
    (hp : (Universe.ofScan stdNames (.ofFiles files) v).get? id = some p)
    (hq : (Universe.ofScan stdNames (.ofFiles files) v).get? other = some q)
    (hpathp : path ∈ p.files) (hpathq : path ∈ q.files) : id = other := by
  rcases filedUnder?_of_mem_files hp hpathp with ⟨f, hf, hfpath, hfunder⟩
  rcases filedUnder?_of_mem_files hq hpathq with ⟨g, hg, hgpath, hgunder⟩
  rw [eq_of_path_eq hpaths hf hg (hfpath.trans hgpath.symm), hgunder] at hfunder
  exact (Option.some.inj hfunder).symm

/-- All nodes together list no file twice. -/
theorem nodup_flatMap_files :
    ((Universe.ofScan stdNames (.ofFiles files) v).values.flatMap Node.files).Nodup := by
  rw [List.nodup_flatMap]
  constructor
  · intro p hp
    rcases List.mem_map.1 hp with ⟨e, he, rfl⟩
    exact (countedAmong_of_get?_ofScan hpaths (OrderedMap.get?_eq_some_iff.2 he)).nodup
  · have hkeys := (Universe.ofScan stdNames (.ofFiles files) v).nodup
    rw [List.Nodup, List.pairwise_map] at hkeys
    refine List.pairwise_map.2 (hkeys.imp_of_mem fun ha hb hne => ?_)
    intro path hpatha hpathb
    exact hne (eq_of_mem_files hpaths (OrderedMap.get?_eq_some_iff.2 ha)
      (OrderedMap.get?_eq_some_iff.2 hb) hpatha hpathb)

/-- All nodes together list as many files as there are, or fewer. -/
theorem length_flatMap_files_le :
    ((Universe.ofScan stdNames (.ofFiles files) v).values.flatMap Node.files).length ≤
      files.length := by
  have hsub : (Universe.ofScan stdNames (.ofFiles files) v).values.flatMap Node.files ⊆
      files.map SourceFile.path := by
    intro path hpath
    rcases List.mem_flatMap.1 hpath with ⟨p, hp, hpath⟩
    rcases List.mem_map.1 hp with ⟨e, he, rfl⟩
    rcases filedUnder?_of_mem_files (OrderedMap.get?_eq_some_iff.2 he) hpath with ⟨f, hf, rfl, -⟩
    exact List.mem_map_of_mem hf
  rw [← files.length_map SourceFile.path]
  exact ((nodup_flatMap_files hpaths).subperm hsub).length_le

end

/-- In a universe of a source tree the file of a module is in its node, if the module exists, and
    so are the other files of the directory, if the module stands for it. No file is in two nodes.
    What a node counts are its files, a module on the side of the modules and any other file on the
    other side. So no file counts twice. -/
theorem ofScan_places_files_once (stdNames : List String) (files : List SourceFile) (v : Variant)
    (hpaths : (files.map SourceFile.path).Nodup) :
    let u := Universe.ofScan stdNames (.ofFiles files) v
    (∀ id path, (∃ p, u.get? id = some p ∧ path ∈ p.files) ↔
      ∃ m, (ofFiles files).modules.get? id = some m ∧
        (v.tests = true ∨ isTestPackage id = false) ∧
        (path = m.file.path ∨ ∃ f ∈ files, m.file.isPackage = true ∧ f.language ≠ .python ∧
          f.package = some id ∧ f.path = path)) ∧
    (∀ id p, u.get? id = some p → CountedAmong files p) ∧
    (∀ id other p q path, u.get? id = some p → u.get? other = some q →
      path ∈ p.files → path ∈ q.files → id = other) ∧
    (u.values.map fun p => p.stat.allFiles.files + p.stat.allFiles.binary).sum ≤
      files.length := by
  intro u
  refine ⟨fun id path => exists_mem_files_iff, fun id p => countedAmong_of_get?_ofScan hpaths,
    fun id other p q path hp hq => eq_of_mem_files hpaths hp hq, ?_⟩
  have hlengths : u.values.map (fun p => p.stat.allFiles.files + p.stat.allFiles.binary) =
      (u.values.map fun p => p.files.length).map Nat.cast := by
    rw [List.map_map]
    refine List.map_congr_left fun p hp => ?_
    rcases List.mem_map.1 hp with ⟨e, he, rfl⟩
    exact files_add_binary_of_get?_ofScan (OrderedMap.get?_eq_some_iff.2 he)
  rw [hlengths, ← Nat.cast_list_sum, ← List.length_flatMap]
  exact Int.ofNat_le.2 (length_flatMap_files_le hpaths)

/-- A tree in which two modules are named alike, a package and a module too, and one directory is
    no package. -/
def stallTree : FileTree := .directory [
  ("cash-box.py", .file []), ("cash_box.py", .file []),
  ("notes", .directory [("todo.txt", .file [])]),
  ("shop", .directory [("__init__.py", .file []), ("cart.py", .file []), ("prices.txt", .file [])]),
  ("shop.py", .file [])]

theorem wellNamed_stallTree : FileTree.WellNamed stallTree.entries := by
  refine .file (by decide) (by decide) (.file (by decide) (by decide) ?_)
  refine .directory (by decide) (by decide) (.file (by decide) (by decide) .nil) ?_
  refine .directory (by decide) (by decide) ?_ (.file (by decide) (by decide) .nil)
  exact .file (by decide) (by decide) (.file (by decide) (by decide)
    (.file (by decide) (by decide) .nil))

/-- The files of the tree, in the order of a scan. -/
theorem filesBelow_stallTree : stallTree.filesBelow =
    [(["cash-box.py"], []), (["cash_box.py"], []), (["shop.py"], []), (["notes", "todo.txt"], []),
      (["shop", "__init__.py"], []), (["shop", "cart.py"], []), (["shop", "prices.txt"], [])] := by
  have hnotes : isPassedOver "notes" = false := by decide +kernel
  have hshop : isPassedOver "shop" = false := by decide +kernel
  simp [FileTree.filesBelow, gather, FileTree.entries, stallTree, FileTree.foundIn,
    List.mergeSort_of_pairwise, hnotes, hshop]

/-- Three packages of the tree have four of its seven files, and count as many. -/
theorem ofScan_places_files_once_stall :
    let files := SourceFile.scan "/" stallTree
    let u := Universe.ofScan [] (.ofFiles files) ({} : LoadConfig).sourceVariant
    files.length = 7 ∧
    (u.values.map Node.files) =
      [["/cash_box.py"], ["/shop/__init__.py", "/shop/prices.txt"], ["/shop/cart.py"]] ∧
    (∀ p, u.get? "shop" = some p → CountedAmong files p) ∧
    (u.values.map fun p => p.stat.allFiles.files + p.stat.allFiles.binary).sum ≤ 7 := by
  intro files u
  have hpaths : (files.map SourceFile.path).Nodup := SourceFile.nodup_paths_scan wellNamed_stallTree
  have hlength : files.length = 7 := by
    unfold files SourceFile.scan
    rw [filesBelow_stallTree]
    rfl
  have hfiles : u.values.map Node.files =
      [["/cash_box.py"], ["/shop/__init__.py", "/shop/prices.txt"], ["/shop/cart.py"]] := by
    unfold u files SourceFile.scan
    rw [filesBelow_stallTree]
    decide +kernel
  rcases ofScan_places_files_once [] files ({} : LoadConfig).sourceVariant hpaths with
    ⟨-, hcounted, -, hsum⟩
  rw [hlength] at hsum
  exact ⟨hlength, hfiles, fun p => hcounted "shop" p, hsum⟩

end SourceScan

end PackageAlgebra
