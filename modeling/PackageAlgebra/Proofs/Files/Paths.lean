import Mathlib.Data.List.Nodup
import Mathlib.Data.List.Perm.Subperm
import PackageAlgebra.Files.Scan
import PackageAlgebra.Proofs.Text.Cuts
import PackageAlgebra.Proofs.Text.Dotted

/-!
# Paths of Scanned Files

No two files of a source tree have one path.

What tells the files of a tree apart are the names that lead to them: two files in one directory
have different names, and files in different directories are told apart where their directories
are. A path is those names with slashes between them, and as no name has a slash the names can be
read off the path again. So it is with the names of the files, and not with those of their modules,
that a scan has each file once.

## Main definitions

* `IsFileName`: What a file or a directory may be called.
* `FileTree.WellNamed`: The names in a directory are different, also further below.
* `FoundEntry.Owns`: The files that an entry leads to are told apart by the names below it.

## Theorems

* `Text.split_join`: Pieces are read off the text that they have been joined to.
* `nodup_gather`: The files of a directory are told apart if those of its entries are.
* `owns_of_mem_foundIn`: Each entry of a directory leads to files of its own.
* `SourceFile.nodup_paths_scan`: No two files of a scan have one path.
-/

namespace PackageAlgebra

variable {above : List String} {entries : List (String × FileTree)} {found : List FoundEntry}
  {e : FoundEntry} {f g : FoundFile} {names : List String} {name root : String} {t : FileTree}

/-! ### Names -/

/-- What a file or a directory may be called: something without a slash. -/
structure IsFileName (name : String) : Prop where
  -- It is something.
  nonempty : name ≠ ""
  -- A slash does not occur in it.
  noSlash : '/' ∉ name.toList

instance (name : String) : Decidable (IsFileName name) :=
  decidable_of_iff (name ≠ "" ∧ '/' ∉ name.toList)
    ⟨fun h => ⟨h.1, h.2⟩, fun h => ⟨h.nonempty, h.noSlash⟩⟩

/-- The names in a directory are different, and so they are in the directories in it. -/
inductive FileTree.WellNamed : List (String × FileTree) → Prop
  -- There is nothing in the directory.
  | nil : WellNamed []
  -- A file has a name that nothing after it has.
  | file {name content rest} (hname : IsFileName name) (hnew : name ∉ rest.map Prod.fst)
      (hrest : WellNamed rest) : WellNamed ((name, .file content) :: rest)
  -- So has a directory.
  | directory {name entries rest} (hname : IsFileName name) (hnew : name ∉ rest.map Prod.fst)
      (hentries : WellNamed entries) (hrest : WellNamed rest) :
      WellNamed ((name, .directory entries) :: rest)

theorem FileTree.WellNamed.nodup (h : FileTree.WellNamed entries) :
    (entries.map Prod.fst).Nodup := by
  induction h with
  | nil => exact List.nodup_nil
  | file _ hnew _ ih => exact List.nodup_cons.2 ⟨hnew, ih⟩
  | directory _ hnew _ _ _ ih => exact List.nodup_cons.2 ⟨hnew, ih⟩

/-- Pieces without the separator are read off the text that they have been joined to. -/
theorem Text.split_join {pieces : List String} (hne : pieces ≠ [])
    (hsep : ∀ piece ∈ pieces, '/' ∉ piece.toList) :
    Text.split '/' (Text.join "/" pieces) = pieces := by
  have hsingle : ∀ {piece}, '/' ∉ piece.toList → Text.split '/' piece = [piece] := by
    intro piece hpiece
    unfold Text.split
    rw [splitAt_of_not_mem hpiece, List.map_singleton, String.ofList_toList]
  induction pieces with
  | nil => exact absurd rfl hne
  | cons piece rest ih =>
      rw [List.forall_mem_cons] at hsep
      cases rest with
      | nil => exact hsingle hsep.1
      | cons next rest =>
          have hjoin : Text.join "/" (piece :: next :: rest) =
              piece ++ String.ofList ['/'] ++ Text.join "/" (next :: rest) := rfl
          rw [hjoin, Text.split_append, hsingle hsep.1, ih (List.cons_ne_nil next rest) hsep.2,
            List.singleton_append]

/-! ### Files below a directory -/

/-- An entry of a directory leads to files below it, different names leading to each. -/
structure FoundEntry.Owns (above : List String) (e : FoundEntry) : Prop where
  -- No two files are reached by the same names.
  nodup : (e.files.map Prod.fst).Nodup
  -- Each is reached by way of the entry.
  below : ∀ f ∈ e.files, ∃ below, f.1 = above ++ e.name :: below ∧
    ∀ name ∈ e.name :: below, IsFileName name

/-- The entries of a directory that are not passed over, as they are gathered. -/
def keptEntries (found : List FoundEntry) : List FoundEntry :=
  let sorted := found.mergeSort fun a b => decide (a.name ≤ b.name)
  sorted.filter (fun e => !e.isDirectory)
    ++ sorted.filter fun e => e.isDirectory && !isPassedOver e.name

theorem gather_eq (found : List FoundEntry) :
    gather found = (keptEntries found).flatMap FoundEntry.files := by
  unfold gather keptEntries
  exact List.flatMap_append.symm

/-- Nothing is gathered that is not there, or more often than it is there. -/
theorem subperm_keptEntries (found : List FoundEntry) : (keptEntries found).Subperm found := by
  have hsorted := List.mergeSort_perm found fun a b => decide (a.name ≤ b.name)
  unfold keptEntries
  generalize found.mergeSort (fun a b => decide (a.name ≤ b.name)) = sorted at hsorted ⊢
  have hdirectories : (sorted.filter fun e => e.isDirectory && !isPassedOver e.name).Sublist
      (sorted.filter FoundEntry.isDirectory) :=
    List.monotone_filter_right sorted fun e he => (Bool.and_eq_true_iff.1 he).1
  have hparts := ((List.Sublist.refl (sorted.filter fun e => !e.isDirectory)).append
    hdirectories).subperm
  exact hparts.trans (List.perm_append_comm.trans
    ((List.filter_append_perm FoundEntry.isDirectory sorted).trans hsorted)).subperm

/-- The files of a directory are told apart if each of its entries leads to files of its own. -/
theorem nodup_gather (hnames : (found.map FoundEntry.name).Nodup)
    (howns : ∀ e ∈ found, e.Owns above) : ((gather found).map Prod.fst).Nodup := by
  have hsub := subperm_keptEntries found
  have hkept : ((keptEntries found).map FoundEntry.name).Nodup := by
    rcases hsub with ⟨kept, hperm, hsublist⟩
    exact (hperm.map FoundEntry.name).nodup_iff.1 (hnames.sublist (hsublist.map _))
  rw [gather_eq, List.map_flatMap, List.nodup_flatMap]
  refine ⟨fun e he => (howns e (hsub.subset he)).nodup, ?_⟩
  rw [List.Nodup, List.pairwise_map] at hkept
  refine hkept.imp_of_mem fun ha hb hne names hnamesa hnamesb => hne ?_
  rcases List.mem_map.1 hnamesa with ⟨f, hf, rfl⟩
  rcases List.mem_map.1 hnamesb with ⟨g, hg, heq⟩
  -- What both entries lead to has the names of both after those above.
  rcases (howns _ (hsub.subset ha)).below f hf with ⟨belowf, hbelowf, -⟩
  rcases (howns _ (hsub.subset hb)).below g hg with ⟨belowg, hbelowg, -⟩
  rw [hbelowf, hbelowg, List.append_right_inj, List.cons.injEq] at heq
  exact heq.1.symm

/-- The files of a directory are reached by way of names. -/
theorem names_of_mem_gather (howns : ∀ e ∈ found, e.Owns above) (hf : f ∈ gather found) :
    ∃ names, names ≠ [] ∧ f.1 = above ++ names ∧ ∀ name ∈ names, IsFileName name := by
  rw [gather_eq] at hf
  rcases List.mem_flatMap.1 hf with ⟨e, he, hf⟩
  rcases (howns e ((subperm_keptEntries found).subset he)).below f hf with ⟨below, hbelow, hnames⟩
  exact ⟨e.name :: below, List.cons_ne_nil e.name below, hbelow, hnames⟩

theorem names_foundIn (above : List String) (entries : List (String × FileTree)) :
    (FileTree.foundIn above entries).map FoundEntry.name = entries.map Prod.fst := by
  induction entries with
  | nil => rw [FileTree.foundIn, List.map_nil, List.map_nil]
  | cons entry rest ih =>
      rcases entry with ⟨name, content | entries⟩ <;>
        rw [FileTree.foundIn, List.map_cons, ih, List.map_cons]

/-- Each entry of a directory leads to files of its own, by induction on the directory. -/
theorem owns_of_mem_foundIn (h : FileTree.WellNamed entries) :
    ∀ above, ∀ e ∈ FileTree.foundIn above entries, e.Owns above := by
  induction h with
  | nil =>
      intro above e he
      rw [FileTree.foundIn] at he
      exact absurd he List.not_mem_nil
  | @file name content rest hname _ _ ih =>
      intro above
      rw [FileTree.foundIn, List.forall_mem_cons]
      refine ⟨⟨List.nodup_singleton _, ?_⟩, ih above⟩
      rw [List.forall_mem_singleton]
      exact ⟨[], rfl, List.forall_mem_singleton.2 hname⟩
  | @directory name entries rest hname _ hentries _ ihentries ihrest =>
      intro above
      rw [FileTree.foundIn, List.forall_mem_cons]
      have howns := ihentries (above ++ [name])
      refine ⟨⟨nodup_gather (names_foundIn _ entries ▸ hentries.nodup) howns, ?_⟩, ihrest above⟩
      intro f hf
      rcases names_of_mem_gather howns hf with ⟨names, -, hbelow, hnames⟩
      refine ⟨names, ?_, List.forall_mem_cons.2 ⟨hname, hnames⟩⟩
      rw [hbelow, List.append_assoc, List.singleton_append]

/-! ### Paths -/

/-- Below a directory, paths that do not start at the root stay different. -/
theorem Path.join_inj {dir p q : String} (hp : Path.isAbsolute p = false)
    (hq : Path.isAbsolute q = false) (heq : Path.join dir p = Path.join dir q) : p = q := by
  unfold Path.join at heq
  rw [hp, hq] at heq
  simp only [Bool.false_eq_true, if_false] at heq
  split at heq
  · exact (String.append_right_inj dir).1 heq
  · exact (String.append_right_inj (dir ++ "/")).1 heq

/-- A path of names does not start at the root. -/
theorem Path.isAbsolute_join (hne : names ≠ []) (hnames : ∀ name ∈ names, IsFileName name) :
    Path.isAbsolute (Text.join "/" names) = false := by
  refine Bool.eq_false_iff.2 fun habsolute => ?_
  rcases Text.beginsWith_iff.1 habsolute with ⟨after, hafter⟩
  have hsplit := Text.split_join hne fun name hname => (hnames name hname).noSlash
  have hslash : "/" ++ after = "" ++ String.ofList ['/'] ++ after := by
    rw [String.empty_append]
  rw [hafter, hslash, Text.split_append] at hsplit
  have hempty : "" ∈ names := hsplit ▸ List.mem_append_left _ List.mem_cons_self
  exact (hnames "" hempty).nonempty rfl

namespace SourceFile

/-- The names that lead to a file are read off its path. -/
theorem fst_eq_of_path_ofFound_eq (hf : f.1 ≠ []) (hg : g.1 ≠ [])
    (hnamesf : ∀ name ∈ f.1, IsFileName name) (hnamesg : ∀ name ∈ g.1, IsFileName name)
    (heq : (ofFound root f).path = (ofFound root g).path) : f.1 = g.1 := by
  have hjoin : Text.join "/" f.1 = Text.join "/" g.1 :=
    Path.join_inj (Path.isAbsolute_join hf hnamesf) (Path.isAbsolute_join hg hnamesg) heq
  rw [← Text.split_join hf fun name hname => (hnamesf name hname).noSlash, hjoin,
    Text.split_join hg fun name hname => (hnamesg name hname).noSlash]

/-- No two files of a scan have one path. -/
theorem nodup_paths_scan (h : FileTree.WellNamed t.entries) :
    ((scan root t).map SourceFile.path).Nodup := by
  have hnodup : (t.filesBelow.map Prod.fst).Nodup :=
    nodup_gather (names_foundIn [] t.entries ▸ h.nodup) (owns_of_mem_foundIn h [])
  have hnames : ∀ f ∈ t.filesBelow, f.1 ≠ [] ∧ ∀ name ∈ f.1, IsFileName name := by
    intro f hf
    rcases names_of_mem_gather (owns_of_mem_foundIn h []) hf with ⟨names, hne, hbelow, hnames⟩
    rw [hbelow]
    exact ⟨hne, hnames⟩
  unfold scan
  rw [List.map_map]
  refine List.Nodup.map_on (fun f hf g hg heq => ?_) hnodup.of_map
  exact List.inj_on_of_nodup_map hnodup hf hg (fst_eq_of_path_ofFound_eq (hnames f hf).1
    (hnames g hg).1 (hnames f hf).2 (hnames g hg).2 heq)

end SourceFile

end PackageAlgebra
