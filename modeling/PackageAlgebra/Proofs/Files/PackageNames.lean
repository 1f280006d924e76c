import PackageAlgebra.Proofs.Files.Directories
import PackageAlgebra.Proofs.Load.Placement

/-!
# Names of Packages

The package of a directory has one name, however it is come by.

A directory has a name of its own, the file that stands for a package has the name of its module,
and any other module is in the package that its own name leads to. All three are made of the names
that lead to the directory: the name of the file that stands for the package is left out, and that
of another module is cut off again at the last point. What stands in the names on the way does not
matter. They may hold points, which are not told from those between names later on, or dashes, which
become underscores in all three alike, or be left out like the file that stands for a package.

So the files of a directory that hold no modules are filed under the name of the module that stands
for the directory, and they are in the node of that module.

## Main definitions

* `dottedName`: The name that names in a path give.
* `packageFile`: The file that stands for a package.
* `IsModuleFile`: A file holds a module whose name is seen from the outside.
* `SourceScan.FiledWith`: A file is filed with a file that stands for a package.

## Theorems

* `dottedName_concat_packageStem`, `packageName_dottedName_concat`: The name of a package is that
  of the file that stands for it, and is cut off those of its modules.
* `directoryName?_eq_of_under`, `moduleName?_join_of_under`: The names of a directory and of the
  files in it.
* `SourceScan.filedWith`: A file of a package is in the node of the file that stands for it.
* `directory_names_agree`: All names of the package of a directory are one.
-/

namespace PackageAlgebra

variable {cwd root dir package file name stem : String} {names : List String}
  {files : List SourceFile} {f g : SourceFile} {found : FoundFile} {t : FileTree}

/-! ### Dotted names -/

/-- The name that names in a path give: those that stand for no package, with points between. -/
def dottedName (names : List String) : String :=
  String.ofList ((Text.join "." (names.filter (· ≠ packageStem))).toList.map nameChar)

/-- A path of names gives the name that the names give. -/
theorem dotted_join (hne : names ≠ []) (hnames : ∀ name ∈ names, '/' ∉ name.toList) :
    dotted (Text.join "/" names) = dottedName names := by
  unfold dotted dottedName
  rw [Text.split_join hne hnames]

/-- The file that stands for a package adds nothing to the name of its directory. -/
theorem dottedName_concat_packageStem (names : List String) :
    dottedName (names ++ [packageStem]) = dottedName names := by
  have hnone : [packageStem].filter (· ≠ packageStem) = [] := by decide
  unfold dottedName
  rw [List.filter_append, hnone, List.append_nil]

/-- A point in a name comes from a point only. -/
theorem nameChar_eq_point_iff {c : Char} : nameChar c = '.' ↔ c = '.' := by
  unfold nameChar
  split
  · next h => simp only [h, Char.reduceEq]
  · exact Iff.rfl

theorem point_not_mem_map_nameChar {cs : List Char} (h : '.' ∉ cs) : '.' ∉ cs.map nameChar := by
  intro hmem
  rcases List.mem_map.1 hmem with ⟨c, hc, hpoint⟩
  exact h (nameChar_eq_point_iff.1 hpoint ▸ hc)

/-- The last name of a module is cut off again if it has no points. -/
theorem packageName_dottedName_concat (names : List String) (hstem : stem ≠ packageStem)
    (hpoint : '.' ∉ stem.toList) :
    packageName (dottedName (names ++ [stem])) = dottedName names := by
  have hlast : '.' ∉ stem.toList.map nameChar := point_not_mem_map_nameChar hpoint
  have hkept : [stem].filter (· ≠ packageStem) = [stem] :=
    List.filter_eq_self.2 (List.forall_mem_singleton.2 (decide_eq_true hstem))
  unfold packageName Text.beforeLast? dottedName
  rw [List.filter_append, hkept, String.toList_ofList]
  by_cases hnone : names.filter (· ≠ packageStem) = []
  · have hjoin : Text.join "." [stem] = stem := rfl
    rw [hnone, List.nil_append, hjoin, Text.cutLast_of_not_mem hlast]
    rfl
  · have hcut : (Text.join "." (names.filter (· ≠ packageStem) ++ [stem])).toList.map nameChar =
        (Text.join "." (names.filter (· ≠ packageStem))).toList.map nameChar ++
          '.' :: stem.toList.map nameChar := by
      rw [Text.join_append hnone (List.cons_ne_nil stem []), String.toList_append,
        String.toList_append, List.append_assoc, List.map_append, List.map_append]
      rfl
    rw [hcut, Text.cutLast_append hlast]
    rfl

/-! ### Files and directories -/

/-- The file that stands for a package. -/
def packageFile : String := packageStem ++ ".py"

/-- A file holds a module of its own, with no points in its name. -/
structure IsModuleFile (file : String) : Prop where
  -- It is in a directory.
  noSlash : '/' ∉ file.toList
  -- It holds a module.
  python : Language.ofPath file = .python
  -- It does not stand for a package.
  ne_packageStem : (Path.splitExtension file).1 ≠ packageStem
  -- The module has no points in its name.
  noPoint : '.' ∉ (Path.splitExtension file).1.toList

instance (file : String) : Decidable (IsModuleFile file) :=
  decidable_of_iff ('/' ∉ file.toList ∧ Language.ofPath file = .python ∧
      (Path.splitExtension file).1 ≠ packageStem ∧ '.' ∉ (Path.splitExtension file).1.toList)
    ⟨fun h => ⟨h.1, h.2.1, h.2.2.1, h.2.2.2⟩, fun h => ⟨h.1, h.2, h.3, h.4⟩⟩

/-- The name of a module leads on from its directory. -/
theorem leadsOn_of_python (hslash : '/' ∉ file.toList) (hpython : Language.ofPath file = .python) :
    Path.LeadsOn file := by
  refine ⟨⟨?_, hslash⟩, ?_, ?_⟩ <;>
  · rintro rfl
    exact absurd hpython (by decide +kernel)

/-- The module in a file of a directory is named by the names that lead to it. -/
theorem moduleName_join (hnames : ∀ name ∈ names, '/' ∉ name.toList) (hfile : '/' ∉ file.toList) :
    moduleName (Text.join "/" (names ++ [file])) =
      dottedName (names ++ [(Path.splitExtension file).1]) := by
  have hstem : '/' ∉ (Path.splitExtension file).1.toList := fun hmem =>
    hfile ((Path.splitExtension_fst_prefix hfile).subset hmem)
  unfold moduleName
  rw [Path.splitExtension_join names hfile,
    dotted_join (List.append_ne_nil_of_right_ne_nil names (List.cons_ne_nil _ []))]
  exact List.forall_mem_append.2 ⟨hnames, List.forall_mem_singleton.2 hstem⟩

/-- The language of a file does not depend on its directory. -/
theorem ofPath_join (names : List String) (hfile : '/' ∉ file.toList) :
    Language.ofPath (Text.join "/" (names ++ [file])) = Language.ofPath file := by
  unfold Language.ofPath
  rw [Path.splitExtension_join names hfile]

section

variable (h : Path.Under cwd root dir names)
include h

/-- The name of a directory is that of the names that lead to it. -/
theorem directoryName_ofParts_of_under : directoryName (Path.ofParts names) = dottedName names := by
  by_cases hne : names = []
  · rw [hne]
    rfl
  · have hslash : ∀ name ∈ names, '/' ∉ name.toList := fun name hname => (h.leadsOn hname).noSlash
    have hpoint : Text.join "/" names ≠ "." := by
      intro hjoin
      have hnames : names = ["."] := by
        rw [← Text.split_join hne hslash, hjoin]
        decide
      exact (h.leadsOn (hnames ▸ List.mem_cons_self)).ne_point rfl
    unfold directoryName Path.ofParts
    rw [List.isEmpty_eq_false_iff.2 hne, if_neg Bool.false_ne_true, if_neg hpoint,
      dotted_join hne hslash]

theorem directoryName?_eq_of_under : directoryName? cwd root dir = some (dottedName names) := by
  unfold directoryName?
  rw [h.relative?_eq, Option.map_some, directoryName_ofParts_of_under h]

/-- The module in a file of a directory is named by the names that lead to the directory, and the
    file without its extension. -/
theorem moduleName?_join_of_under (hslash : '/' ∉ file.toList)
    (hpython : Language.ofPath file = .python) :
    moduleName? cwd root (Path.join dir file) =
      some (dottedName (names ++ [(Path.splitExtension file).1])) := by
  have hne : names ++ [file] ≠ [] :=
    List.append_ne_nil_of_right_ne_nil names (List.cons_ne_nil file [])
  unfold moduleName?
  rw [(h.join (leadsOn_of_python hslash hpython)).relative?_eq, Option.map_some, Path.ofParts,
    List.isEmpty_eq_false_iff.2 hne, if_neg Bool.false_ne_true,
    moduleName_join (fun name hname => (h.leadsOn hname).noSlash) hslash]

end

/-! ### Files of a scan -/

namespace SourceFile

theorem language_ofFound (root : String) (found : FoundFile) :
    (ofFound root found).language = Language.ofPath (Text.join "/" found.1) := by
  rw [ofFound]

/-- A file without a module is in the package of its directory. -/
theorem package_ofFound_of_under (h : Path.Under cwd root dir names)
    (hnames : found.1.dropLast = names) (hlanguage : (ofFound root found).language ≠ .python) :
    (ofFound root found).package = nonempty? (dottedName names) := by
  rw [language_ofFound] at hlanguage
  unfold ofFound
  simp only [if_neg hlanguage, hnames, directoryName_ofParts_of_under h]

/-- A module is in the package of its directory if its name has no points. -/
theorem package_ofFound_of_isModuleFile (hnames : ∀ name ∈ names, '/' ∉ name.toList)
    (hfile : IsModuleFile file) (content : List UInt8) :
    (ofFound root (names ++ [file], content)).package = nonempty? (dottedName names) := by
  have hpython : Language.ofPath (Text.join "/" (names ++ [file])) = .python :=
    (ofPath_join names hfile.noSlash).trans hfile.python
  unfold ofFound
  simp only [if_pos hpython, moduleName_join hnames hfile.noSlash,
    packageName_dottedName_concat names hfile.ne_packageStem hfile.noPoint]

/-- The file that stands for a package holds the module of that name. -/
theorem module_ofFound_packageFile (root : String)
    (hnames : ∀ name ∈ names, '/' ∉ name.toList) (content : List UInt8) :
    let f := ofFound root (names ++ [packageFile], content)
    f.language = .python ∧ f.module = nonempty? (dottedName names) ∧ f.isPackage = true := by
  intro f
  have hslash : '/' ∉ packageFile.toList := by decide +kernel
  have hstem : (Path.splitExtension packageFile).1 = packageStem := by decide +kernel
  have hpython : Language.ofPath (Text.join "/" (names ++ [packageFile])) = .python := by
    rw [ofPath_join names hslash]
    decide +kernel
  refine ⟨(language_ofFound root _).trans hpython, ?_, ?_⟩
  · unfold f ofFound
    simp only [if_pos hpython, moduleName_join hnames hslash, hstem, dottedName_concat_packageStem]
  · unfold f ofFound
    simp only [List.getLast?_concat]
    exact decide_eq_true rfl

end SourceFile

namespace SourceScan

/-- A file is filed with another one that stands for a package. -/
structure FiledWith (files : List SourceFile) (package : String) (f g : SourceFile) : Prop where
  -- The package has a module.
  named : package ∈ (ofFiles files).modules.keys
  -- The file is filed under the name of it.
  filed : f ∈ ((ofFiles files).otherFiles.get? package).getD []
  -- A node that has the one file bears that name and has the other file too.
  together : ∀ stdNames v id p, (Universe.ofScan stdNames (.ofFiles files) v).get? id = some p →
    g.path ∈ p.files → id = package ∧ f.path ∈ p.files

/-- A file without a module is filed with the file that stands for its package. -/
theorem filedWith (hpaths : (files.map SourceFile.path).Nodup) (hf : f ∈ files) (hg : g ∈ files)
    (hlanguagef : f.language ≠ .python) (hpackage : f.package = some package)
    (hlanguageg : g.language = .python) (hmodule : g.module = some package)
    (hstands : g.isPackage = true) : FiledWith files package f g := by
  constructor
  · have hheld : (package, SourceModule.ofFile package g) ∈ files.filterMap moduleOf? := by
      refine List.mem_filterMap.2 ⟨g, hg, ?_⟩
      rw [moduleOf?, if_pos hlanguageg, hmodule, Option.map_some]
    exact OrderedMap.mem_keys_ofList.2 (List.mem_map_of_mem hheld)
  · rw [otherFiles_eq, List.mem_filter, hpackage]
    exact ⟨hf, by simp only [hlanguagef, ne_eq, not_false_eq_true, decide_true, Bool.and_self]⟩
  · intro stdNames v id p hp hpath
    have hid : id = package := by
      rcases filedUnder?_of_mem_files hp hpath with ⟨g', hg', hpathg, hunder⟩
      rw [eq_of_path_eq hpaths hg' hg hpathg, SourceFile.filedUnder?, if_pos hlanguageg,
        hmodule] at hunder
      exact (Option.some.inj hunder).symm
    refine ⟨hid, ?_⟩
    rcases files_of_get?_ofScan hp with ⟨hnone, -⟩ | ⟨m, hm, hfiles, -⟩
    · rw [hnone] at hpath
      exact absurd hpath List.not_mem_nil
    · rw [hfiles, path_mem_files_moduleNode_iff hpaths hg] at hpath
      rw [hfiles, path_mem_files_moduleNode_iff hpaths hf]
      rcases hpath with hown | hbeside
      · -- The module of the node is the one in the file that stands for the package.
        have hfile : g = m.file := eq_of_path_eq hpaths hg (file_of_get?_modules hm).1 hown
        exact .inr (mem_filesBeside_iff.2 ⟨hf, hfile ▸ hstands, hlanguagef, hid ▸ hpackage⟩)
      · exact absurd hlanguageg (mem_filesBeside_iff.1 hbeside).2.2.1

end SourceScan

/-! ### All names of a package -/

/-- The name of a directory is the name of the module that stands for it, and it is what the name
    of any other module in it leads to, if the name of its file has no points. In a scan such
    modules are in the package of that name, and so are the files that hold no modules. If the
    directory is not the root, they are filed with the file that stands for it. -/
theorem directory_names_agree (h : Path.Under cwd root dir names) :
    ∃ package,
      directoryName? cwd root dir = some package ∧
      moduleName? cwd root (Path.join dir packageFile) = some package ∧
      (∀ file, IsModuleFile file →
        (moduleName? cwd root (Path.join dir file)).map packageName = some package) ∧
      (∀ file content, let f := SourceFile.ofFound root (names ++ [file], content)
        IsModuleFile file ∨ f.language ≠ .python → f.package = nonempty? package) ∧
      ∀ t, FileTree.WellNamed t.entries → package ≠ "" →
        ∀ found ∈ t.filesBelow, ∀ content, (names ++ [packageFile], content) ∈ t.filesBelow →
          found.1.dropLast = names → (SourceFile.ofFound root found).language ≠ .python →
          SourceScan.FiledWith (SourceFile.scan root t) package (SourceFile.ofFound root found)
            (SourceFile.ofFound root (names ++ [packageFile], content)) := by
  have hnames : ∀ name ∈ names, '/' ∉ name.toList := fun name hname => (h.leadsOn hname).noSlash
  refine ⟨dottedName names, directoryName?_eq_of_under h, ?_, ?_, ?_, ?_⟩
  · have hstem : (Path.splitExtension packageFile).1 = packageStem := by decide +kernel
    rw [moduleName?_join_of_under h (by decide +kernel) (by decide +kernel), hstem,
      dottedName_concat_packageStem]
  · intro file hfile
    rw [moduleName?_join_of_under h hfile.noSlash hfile.python, Option.map_some,
      packageName_dottedName_concat names hfile.ne_packageStem hfile.noPoint]
  · rintro file content f (hfile | hlanguage)
    · exact SourceFile.package_ofFound_of_isModuleFile hnames hfile content
    · exact SourceFile.package_ofFound_of_under h List.dropLast_concat hlanguage
  · intro t ht hnonempty found hfound content hpackage hdirectory hlanguage
    rcases SourceFile.module_ofFound_packageFile root hnames content with
      ⟨hpython, hmodule, hstands⟩
    have hname : nonempty? (dottedName names) = some (dottedName names) := if_neg hnonempty
    exact SourceScan.filedWith (SourceFile.nodup_paths_scan ht) (List.mem_map_of_mem hfound)
      (List.mem_map_of_mem hpackage) hlanguage
      ((SourceFile.package_ofFound_of_under h hdirectory hlanguage).trans hname) hpython
      (hmodule.trans hname) hstands

/-- A tree with a package whose directory is named like the file that stands for it. -/
def versionTree : FileTree := .directory [("a-b", .directory [("v1.2", .directory [("__init__",
  .directory [("__init__.py", .file []), ("cart-item.py", .file []), ("prices.txt", .file [])])])])]

theorem wellNamed_versionTree : FileTree.WellNamed versionTree.entries := by
  refine .directory (by decide) (by decide) ?_ .nil
  refine .directory (by decide) (by decide) ?_ .nil
  refine .directory (by decide) (by decide) ?_ .nil
  exact .file (by decide) (by decide) (.file (by decide) (by decide)
    (.file (by decide) (by decide) .nil))

theorem filesBelow_versionTree : versionTree.filesBelow =
    [(["a-b", "v1.2", "__init__", "__init__.py"], []),
      (["a-b", "v1.2", "__init__", "cart-item.py"], []),
      (["a-b", "v1.2", "__init__", "prices.txt"], [])] := by
  have hdashed : isPassedOver "a-b" = false := by decide +kernel
  have hpointed : isPassedOver "v1.2" = false := by decide +kernel
  have hleftOut : isPassedOver "__init__" = false := by decide +kernel
  simp [FileTree.filesBelow, gather, FileTree.entries, versionTree, FileTree.foundIn,
    List.mergeSort_of_pairwise, hdashed, hpointed, hleftOut]

/-- The package is named by what leads to it, however its directory is written, and its prices are
    in the node of that name. -/
theorem directory_names_agree_version :
    let dir := "/home/src//a-b/./x/../v1.2/__init__/"
    Path.Under "/home/shop" "../src" dir ["a-b", "v1.2", "__init__"] ∧
    directoryName? "/home/shop" "../src" dir = some "a_b.v1.2" ∧
    moduleName? "/home/shop" "../src" (Path.join dir packageFile) = some "a_b.v1.2" ∧
    (moduleName? "/home/shop" "../src" (Path.join dir "cart-item.py")).map packageName =
      some "a_b.v1.2" ∧
    (SourceFile.ofFound "../src" (["a-b", "v1.2", "__init__", "cart-item.py"], [])).package =
      some "a_b.v1.2" ∧
    SourceScan.FiledWith (SourceFile.scan "../src" versionTree) "a_b.v1.2"
      (SourceFile.ofFound "../src" (["a-b", "v1.2", "__init__", "prices.txt"], []))
      (SourceFile.ofFound "../src" (["a-b", "v1.2", "__init__", "__init__.py"], [])) := by
  intro dir
  have hunder : Path.Under "/home/shop" "../src" dir ["a-b", "v1.2", "__init__"] :=
    ⟨by decide +kernel, by decide +kernel⟩
  have hcart : IsModuleFile "cart-item.py" := by decide +kernel
  rcases directory_names_agree hunder with
    ⟨package, hdirectory, hpackageFile, hmodule, hscan, hfiled⟩
  have hname : package = "a_b.v1.2" :=
    Option.some.inj (hdirectory.symm.trans (by decide +kernel))
  rw [hname] at hdirectory hpackageFile hmodule hscan hfiled
  refine ⟨hunder, hdirectory, hpackageFile, hmodule _ hcart, ?_, ?_⟩
  · exact (hscan "cart-item.py" [] (.inl hcart)).trans (if_neg (by decide))
  · refine hfiled versionTree wellNamed_versionTree (by decide)
      (["a-b", "v1.2", "__init__", "prices.txt"], []) ?_ [] ?_ rfl (by decide +kernel)
    · rw [filesBelow_versionTree]
      exact List.mem_cons_of_mem _ (List.mem_cons_of_mem _ List.mem_cons_self)
    · rw [filesBelow_versionTree]
      exact List.mem_cons_self

end PackageAlgebra
