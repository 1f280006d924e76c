import PackageAlgebra.Proofs.Files.Paths

/-!
# Directories under a Root

How the directories under a root are reached from it, and the files in them.

A directory may be written in many ways: seen from another one, by way of names that lead back or
nowhere, with more slashes than it takes. From the root on it has names of its own, and what these
have more than those of the root leads from the root to the directory. A file in the directory is
reached by one name more. So how a file is reached does not depend on how its directory was written,
and its extension does not depend on the directory either.

## Main definitions

* `Path.LeadsOn`: A name leads on from a directory.
* `Path.Under`: Names lead from a root to a directory.

## Theorems

* `Path.parts_append`, `Path.parts_join`: The names in a path.
* `Path.mem_settle`, `Path.settle_concat`: What is left without names that lead back or nowhere.
* `Path.parts_absolute`: The names in a path from the root on.
* `Path.Under.join`, `Path.Under.foldl_join`: What is in a directory is reached by more names.
* `Path.Under.relative?_eq`: How a directory is reached from the root.
* `Path.exists_under_iff`: Which names lead to directories.
* `Path.splitExtension_join`: The extension of a path is that of its last name.
-/

namespace PackageAlgebra.Path

variable {cwd root dir a b name : String} {names : List String}

/-! ### Names in paths -/

/-- The names in a path are what is between its slashes, so they are on both sides of each. -/
theorem parts_append (a b : String) : parts (a ++ "/" ++ b) = parts a ++ parts b := by
  unfold parts
  rw [← List.filter_append, ← Text.split_append]

/-- The names in a path of names are those. -/
theorem parts_join (h : ∀ name ∈ names, IsFileName name) : parts (Text.join "/" names) = names := by
  by_cases hnames : names = []
  · rw [hnames]
    rfl
  · unfold parts
    rw [Text.split_join hnames fun name hname => (h name hname).noSlash]
    exact List.filter_eq_self.2 fun name hname => decide_eq_true (h name hname).nonempty

theorem isFileName_of_mem_parts (h : name ∈ parts a) : IsFileName name := by
  rcases List.mem_filter.1 h with ⟨hmem, hne⟩
  exact ⟨of_decide_eq_true hne, Text.not_mem_of_mem_split hmem⟩

/-- A path below a directory has the names of the directory before its own. -/
theorem parts_join_of_relative (hb : isAbsolute b = false) :
    parts (join a b) = parts a ++ parts b := by
  unfold join
  rw [hb, if_neg Bool.false_ne_true]
  by_cases ha : a = ""
  · rw [if_pos (.inl ha), ha, String.empty_append]
    rfl
  · by_cases hslash : Text.endsWith "/" a = true
    · rcases Text.endsWith_iff.1 hslash with ⟨before, rfl⟩
      have hbefore : parts (before ++ "/") = parts before := by
        rw [← String.append_empty (s := before ++ "/"), parts_append]
        exact List.append_nil _
      rw [if_pos (.inr hslash), parts_append, hbefore]
    · rw [if_neg (not_or.2 ⟨ha, hslash⟩), parts_append]

/-- Whether a path starts at the root is seen where it begins. -/
theorem isAbsolute_append (ha : a ≠ "") : isAbsolute (a ++ b) = isAbsolute a := by
  unfold isAbsolute Text.beginsWith
  rw [String.toList_append]
  cases hcs : a.toList with
  | nil => exact absurd (String.toList_eq_nil_iff.1 hcs) ha
  | cons c rest => rfl

/-- A file in a directory has the names of the directory and its own, seen from anywhere. -/
theorem parts_join_join (cwd : String) (hdir : dir ≠ "") (hname : IsFileName name) :
    parts (join cwd (join dir name)) = parts (join cwd dir) ++ [name] := by
  have hone : ∀ name' ∈ [name], IsFileName name' := List.forall_mem_singleton.2 hname
  have hrelative : isAbsolute name = false := isAbsolute_join (List.cons_ne_nil name []) hone
  have hparts : parts name = [name] := parts_join hone
  have hstart : isAbsolute (join dir name) = isAbsolute dir := by
    unfold join
    rw [hrelative, if_neg Bool.false_ne_true]
    split
    · exact isAbsolute_append hdir
    · rw [String.append_assoc, isAbsolute_append hdir]
  cases hdirectory : isAbsolute dir with
  | true =>
      have hjoin : ∀ {path}, isAbsolute path = true → join cwd path = path := fun h => if_pos h
      rw [hjoin (hstart.trans hdirectory), hjoin hdirectory, parts_join_of_relative hrelative,
        hparts]
  | false =>
      rw [parts_join_of_relative (hstart.trans hdirectory), parts_join_of_relative hdirectory,
        parts_join_of_relative hrelative, hparts, List.append_assoc]

/-! ### Paths from the root on -/

/-- A name that is left is one of the names, and leads neither back nor nowhere. -/
theorem mem_settle (h : name ∈ settle names) : name ∈ names ∧ name ≠ "." ∧ name ≠ ".." := by
  have hrun : ∀ before, name ∈ names.foldl settleStep before →
      name ∈ before ∨ name ∈ names ∧ name ≠ "." ∧ name ≠ ".." := by
    clear h
    induction names with
    | nil => exact fun before h => .inl h
    | cons next rest ih =>
        intro before h
        rcases ih _ h with hbefore | ⟨hrest, hname⟩
        · unfold settleStep at hbefore
          split at hbefore
          · exact .inl hbefore
          · split at hbefore
            · exact .inl (List.mem_of_mem_tail hbefore)
            · rcases List.mem_cons.1 hbefore with rfl | hbefore
              · exact .inr ⟨List.mem_cons_self, ‹_›, ‹_›⟩
              · exact .inl hbefore
        · exact .inr ⟨List.mem_cons_of_mem next hrest, hname⟩
  exact (hrun [] (List.mem_reverse.1 h)).resolve_left List.not_mem_nil

/-- A last name that leads neither back nor nowhere is left. -/
theorem settle_concat (names : List String) (hpoint : name ≠ ".") (hpoints : name ≠ "..") :
    settle (names ++ [name]) = settle names ++ [name] := by
  unfold settle
  rw [List.foldl_append, List.foldl_cons, List.foldl_nil, settleStep, if_neg hpoint,
    if_neg hpoints, List.reverse_cons]

/-- A path from the root on has the names that are left of those in the path. -/
theorem parts_absolute (cwd path : String) :
    parts (absolute cwd path) = settle (parts (join cwd path)) := by
  have hmark : ∀ below, parts (rootMark (join cwd path) ++ below) = parts below := by
    have hslash : ∀ below, parts ("/" ++ below) = parts below := by
      intro below
      rw [← String.empty_append (s := "/"), parts_append]
      exact List.nil_append _
    intro below
    unfold rootMark
    split
    · have hslashes : "//" = "/" ++ "/" := rfl
      rw [hslashes, String.append_assoc, hslash, hslash]
    · exact hslash below
  unfold absolute
  rw [hmark, parts_join fun name hname => isFileName_of_mem_parts (mem_settle hname).1]

/-! ### Directories under a root -/

/-- A name leads on from a directory: neither back nor nowhere. -/
structure LeadsOn (name : String) : Prop extends IsFileName name where
  -- It is not a point.
  ne_point : name ≠ "."
  -- It is not two points.
  ne_points : name ≠ ".."

/-- Names lead from a root to a directory, both seen from some other directory. -/
structure Under (cwd root dir : String) (names : List String) : Prop where
  -- The directory is given.
  given : dir ≠ ""
  -- From the root on it has these names after those of the root.
  parts_eq : parts (absolute cwd dir) = parts (absolute cwd root) ++ names

namespace Under

/-- A root is under itself. -/
theorem refl (cwd : String) (hroot : root ≠ "") : Under cwd root root [] :=
  ⟨hroot, (List.append_nil _).symm⟩

/-- What is in a directory under a root is under the root, and reached by one name more. -/
theorem join (h : Under cwd root dir names) (hname : LeadsOn name) :
    Under cwd root (join dir name) (names ++ [name]) := by
  constructor
  · unfold Path.join
    split
    · exact hname.nonempty
    · split <;> simp only [ne_eq, String.append_eq_empty_iff, h.given, false_and, not_false_eq_true]
  · rw [parts_absolute, parts_join_join cwd h.given hname.toIsFileName,
      settle_concat _ hname.ne_point hname.ne_points, ← parts_absolute, h.parts_eq,
      List.append_assoc]

/-- Going on by names from a directory under a root stays under the root. -/
theorem foldl_join {before : List String} (h : Under cwd root dir before)
    (hnames : ∀ name ∈ names, LeadsOn name) :
    Under cwd root (names.foldl Path.join dir) (before ++ names) := by
  induction names generalizing dir before with
  | nil => rwa [List.append_nil]
  | cons name rest ih =>
      rw [List.forall_mem_cons] at hnames
      have hrest := ih (h.join hnames.1) hnames.2
      rwa [List.append_assoc, List.singleton_append] at hrest

/-- All names on the way to a directory lead on. -/
theorem leadsOn (h : Under cwd root dir names) (hname : name ∈ names) : LeadsOn name := by
  have hmem : name ∈ parts (absolute cwd dir) :=
    h.parts_eq ▸ List.mem_append_right _ hname
  rw [parts_absolute] at hmem
  rcases mem_settle hmem with ⟨hpart, hpoint, hpoints⟩
  exact ⟨isFileName_of_mem_parts hpart, hpoint, hpoints⟩

/-- A directory is reached from its root by the names that lead to it. -/
theorem relative?_eq (h : Under cwd root dir names) :
    relative? cwd root dir = some (ofParts names) := by
  unfold relative?
  rw [if_neg h.given, h.parts_eq, relativeParts_append]

end Under

/-- The directories under a root are those that names lead to which all lead on. -/
theorem exists_under_iff (cwd : String) (hroot : root ≠ "") :
    (∃ dir, Under cwd root dir names) ↔ ∀ name ∈ names, LeadsOn name :=
  ⟨fun ⟨_, h⟩ _ hname => h.leadsOn hname,
    fun hnames => ⟨names.foldl join root, (Under.refl cwd hroot).foldl_join hnames⟩⟩

/-! ### Extensions -/

/-- A name is a path with nothing above it. -/
theorem splitExtension_of_not_mem (hname : '/' ∉ name.toList) :
    splitExtension name = match extensionOf name.toList with
      | some (stem, ext) => (String.ofList stem, String.ofList ext)
      | none => (name, "") := by
  unfold splitExtension
  rw [Text.cutLast_of_not_mem hname]
  rfl

/-- The extension of a path is that of what follows a slash. -/
theorem splitExtension_append (above : String) (hname : '/' ∉ name.toList) :
    splitExtension (above ++ "/" ++ name) =
      (above ++ "/" ++ (splitExtension name).1, (splitExtension name).2) := by
  have hpath : (above ++ "/" ++ name).toList = above.toList ++ '/' :: name.toList := by
    rw [String.toList_append, String.toList_append, List.append_assoc]
    rfl
  rw [splitExtension_of_not_mem hname]
  unfold splitExtension
  rw [hpath, Text.cutLast_append hname]
  cases hextension : extensionOf name.toList with
  | none => simp only [hextension]
  | some cut => simp only [hextension, String.ofList_append, String.ofList_toList]

/-- The extension of a path is that of its last name. -/
theorem splitExtension_join (names : List String) (hname : '/' ∉ name.toList) :
    splitExtension (Text.join "/" (names ++ [name])) =
      (Text.join "/" (names ++ [(splitExtension name).1]), (splitExtension name).2) := by
  by_cases hnames : names = []
  · rw [hnames]
    rfl
  · have hlast : ∀ last, Text.join "/" (names ++ [last]) = Text.join "/" names ++ "/" ++ last :=
      fun last => Text.join_append hnames (List.cons_ne_nil last [])
    rw [hlast, hlast, splitExtension_append _ hname]

/-- What precedes the extension of a name is the beginning of the name. -/
theorem splitExtension_fst_prefix (hname : '/' ∉ name.toList) :
    (splitExtension name).1.toList <+: name.toList := by
  rw [splitExtension_of_not_mem hname]
  unfold extensionOf
  rcases Text.cutLast_cases '.' name.toList with ⟨-, hcut⟩ | ⟨stem, ext, hcut, heq, -⟩
  · simp only [hcut, List.prefix_rfl]
  · rw [hcut]
    by_cases hpoints : stem.all (· = '.') = true
    · simp only [if_pos hpoints, List.prefix_rfl]
    · simp only [if_neg hpoints, String.toList_ofList]
      exact ⟨'.' :: ext, heq.symm⟩

end PackageAlgebra.Path
