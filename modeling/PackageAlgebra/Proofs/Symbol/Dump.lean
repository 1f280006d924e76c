import PackageAlgebra.Load.FromRecords
import PackageAlgebra.Proofs.Symbol.Reach
import PackageAlgebra.Proofs.Symbol.Written

/-!
# Dumps as Written

What a dump says, and what is made of it.

A dump is read line after line, and what its graph holds in the end is what the lines say: a call
if one of them is a dependency between the two symbols, an annotation if a side of one of them
carries it. A symbol may be annotated on one line and bare on another. One line is enough, since
nothing is made of the annotations before all lines have been read.

Each dependency is found again as it was written, and symbols that are written alike are the same.
So chains of calls between texts are chains of calls between symbols, and the packages that a set
is asked for are those of the symbols at their beginnings.

## Main definitions

* `Dump.Says`, `Dump.Marks`: What a line says, as it is read.
* `Dump.CallIn`, `Dump.AnnotatedIn`: What a dump says, as it was written.

## Theorems

* `Dump.mem_callersOf_read_iff`, `Dump.mem_annotated_read_iff`: Reading line after line.
* `Dump.path_read_iff`: Chains of calls in the graph of a dump.
* `Dump.deadcode_of_dump`: The packages that own a symbol which leads to an annotated one.
-/

namespace PackageAlgebra

open Relation Text

namespace Dump

/-! ### Reading line after line -/

variable {lines : List String} {marker line x y : String} {g : SymbolGraph}

/-- A line says that one symbol calls another. -/
def Says (line x y : String) : Prop :=
  ∃ source target, sides? line = some (source, target) ∧ bareSymbol source = x ∧
    bareSymbol target = y

/-- A side of a line carries a marker. -/
def Marks (marker line x : String) : Prop :=
  ∃ source target, sides? line = some (source, target) ∧ ∃ side, (side = source ∨ side = target) ∧
    bareSymbol side = x ∧ occursIn (" " ++ marker) side = true

theorem mem_markSide_iff {side : String} {annotated : List String} :
    x ∈ markSide marker side annotated ↔
      x ∈ annotated ∨ bareSymbol side = x ∧ occursIn (" " ++ marker) side = true := by
  unfold markSide
  by_cases hnew : (occursIn (" " ++ marker) side && !annotated.contains (bareSymbol side)) = true
  · rw [Bool.and_eq_true] at hnew
    simp only [hnew.1, hnew.2, Bool.and_self, if_true, List.mem_append, List.mem_singleton,
      and_true, eq_comm]
  · rw [if_neg hnew]
    refine (or_iff_left_of_imp ?_).symm
    -- What carries the marker and is not new has been marked before.
    rintro ⟨rfl, hmarked⟩
    rw [hmarked, Bool.true_and, Bool.not_eq_true', Bool.not_eq_false] at hnew
    exact List.contains_iff_mem.1 hnew

theorem mem_callersOf_readLine_iff :
    x ∈ (readLine marker g line).callersOf y ↔ x ∈ g.callersOf y ∨ Says line x y := by
  unfold readLine Says
  cases hsides : sides? line with
  | none => simp only [reduceCtorEq, false_and, exists_false, or_false]
  | some sides =>
      change x ∈ (g.addCall (bareSymbol sides.1) (bareSymbol sides.2)).callersOf y ↔ _
      rw [SymbolGraph.mem_callersOf_addCall_iff]
      refine or_congr Iff.rfl ?_
      constructor
      · rintro ⟨rfl, rfl⟩
        exact ⟨sides.1, sides.2, rfl, rfl, rfl⟩
      · rintro ⟨_, _, hsame, rfl, rfl⟩
        cases hsame
        exact ⟨rfl, rfl⟩

theorem mem_annotated_readLine_iff :
    x ∈ (readLine marker g line).annotated ↔ x ∈ g.annotated ∨ Marks marker line x := by
  unfold readLine Marks
  cases hsides : sides? line with
  | none => simp only [reduceCtorEq, false_and, exists_false, or_false]
  | some sides =>
      change x ∈ markSide marker sides.1 (markSide marker sides.2 g.annotated) ↔ _
      rw [mem_markSide_iff, mem_markSide_iff, or_assoc, or_comm (b := _ ∧ _)]
      refine or_congr Iff.rfl ?_
      constructor
      · rintro (hsource | htarget)
        · exact ⟨sides.1, sides.2, rfl, sides.1, .inl rfl, hsource⟩
        · exact ⟨sides.1, sides.2, rfl, sides.2, .inr rfl, htarget⟩
      · rintro ⟨_, _, hsame, side, hside, hmarked⟩
        cases hsame
        rcases hside with rfl | rfl
        · exact .inl hmarked
        · exact .inr hmarked

theorem packageOf_readLine : (readLine marker g line).packageOf = g.packageOf := by
  unfold readLine
  split <;> rfl

/-- What holds after lines have been read held before, or a line says so. -/
theorem foldl_readLine_iff {Q : SymbolGraph → Prop} {S : String → Prop}
    (hstep : ∀ g line, Q (readLine marker g line) ↔ Q g ∨ S line) (lines : List String)
    (g : SymbolGraph) : Q (lines.foldl (readLine marker) g) ↔ Q g ∨ ∃ line ∈ lines, S line := by
  induction lines generalizing g with
  | nil => simp only [List.foldl_nil, List.not_mem_nil, false_and, exists_false, or_false]
  | cons line rest ih => rw [List.foldl_cons, ih, hstep, or_assoc, List.exists_mem_cons_iff]

/-- A symbol calls another if a line says so. -/
theorem mem_callersOf_read_iff :
    x ∈ (read lines marker).callersOf y ↔ ∃ line ∈ lines, Says line x y := by
  unfold read
  refine (foldl_readLine_iff (Q := fun g => x ∈ g.callersOf y) (S := fun line => Says line x y)
    (fun _ _ => mem_callersOf_readLine_iff) lines _).trans ?_
  exact or_iff_right List.not_mem_nil

/-- A symbol is annotated if a side of a line carries the marker. -/
theorem mem_annotated_read_iff :
    x ∈ (read lines marker).annotated ↔ ∃ line ∈ lines, Marks marker line x := by
  unfold read
  refine (foldl_readLine_iff (Q := fun g => x ∈ g.annotated) (S := fun line => Marks marker line x)
    (fun _ _ => mem_annotated_readLine_iff) lines _).trans ?_
  exact or_iff_right List.not_mem_nil

theorem packageOf_foldl_readLine :
    (lines.foldl (readLine marker) g).packageOf = g.packageOf := by
  induction lines generalizing g with
  | nil => rfl
  | cons line rest ih => rw [List.foldl_cons, ih, packageOf_readLine]

theorem packageOf_read (lines : List String) (marker : String) :
    (read lines marker).packageOf = linkerPackage := by
  unfold read
  rw [packageOf_foldl_readLine]

/-! ### What a dump says -/

/-- The annotation of a symbol that looks methods up. -/
def reflectTag : Tag where
  name := "ReflectMethod"
  unblank := isBlank_of_any (by decide)
  open_not_mem := by decide
  close_not_mem := by decide

/-- One symbol calls another by a dependency of a dump. -/
def CallIn (lines : List Line) (x y : LinkedSymbol) : Prop :=
  ∃ source target, .dependency source target ∈ lines ∧ source.symbol = x ∧ target.symbol = y

/-- A symbol carries the annotation on at least one side of a dependency of a dump. -/
def AnnotatedIn (lines : List Line) (x : LinkedSymbol) : Prop :=
  ∃ source target, .dependency source target ∈ lines ∧ ∃ side, (side = source ∨ side = target) ∧
    side.symbol = x ∧ ∃ t ∈ side.tags, t.name = reflectTag.name

variable {written : List Line}

/-- The calls of the graph are those of the dump. -/
theorem calls_read_iff : (read (written.map Line.text) reflectMethod).Calls x y ↔
    ∃ u v, CallIn written u v ∧ u.text = x ∧ v.text = y := by
  unfold SymbolGraph.Calls
  rw [mem_callersOf_read_iff]
  constructor
  · rintro ⟨_, hline, source, target, hsides, rfl, rfl⟩
    rcases List.mem_map.1 hline with ⟨l, hl, rfl⟩
    rcases sides?_line_iff.1 hsides with ⟨s, t, rfl, hsame⟩
    cases hsame
    exact ⟨s.symbol, t.symbol, ⟨s, t, hl, rfl, rfl⟩, (bareSymbol_text s).symm,
      (bareSymbol_text t).symm⟩
  · rintro ⟨_, _, ⟨s, t, hl, rfl, rfl⟩, rfl, rfl⟩
    exact ⟨_, List.mem_map_of_mem hl, s.text, t.text, sides?_text s t, bareSymbol_text s,
      bareSymbol_text t⟩

/-- The annotated symbols of the graph are those of the dump. -/
theorem mem_annotated_iff : x ∈ (read (written.map Line.text) reflectMethod).annotated ↔
    ∃ u, AnnotatedIn written u ∧ u.text = x := by
  have hmarker : " " ++ reflectMethod = reflectTag.text := by decide
  rw [mem_annotated_read_iff]
  constructor
  · rintro ⟨_, hline, source, target, hsides, side, hside, rfl, hmarked⟩
    rcases List.mem_map.1 hline with ⟨l, hl, rfl⟩
    rcases sides?_line_iff.1 hsides with ⟨s, t, rfl, hsame⟩
    cases hsame
    rw [hmarker] at hmarked
    rcases hside with rfl | rfl
    · exact ⟨s.symbol, ⟨s, t, hl, s, .inl rfl, rfl, (occursIn_text_iff reflectTag s).1 hmarked⟩,
        (bareSymbol_text s).symm⟩
    · exact ⟨t.symbol, ⟨s, t, hl, t, .inr rfl, rfl, (occursIn_text_iff reflectTag t).1 hmarked⟩,
        (bareSymbol_text t).symm⟩
  · rintro ⟨_, ⟨s, t, hl, side, hside, rfl, htags⟩, rfl⟩
    refine ⟨_, List.mem_map_of_mem hl, s.text, t.text, sides?_text s t, side.text, ?_,
      bareSymbol_text side, ?_⟩
    · exact hside.imp (congrArg Side.text) (congrArg Side.text)
    · rw [hmarker]
      exact (occursIn_text_iff reflectTag side).2 htags

/-- Chains of calls of the graph are those of the dump. -/
theorem path_read_iff {v : LinkedSymbol} :
    ReflTransGen (read (written.map Line.text) reflectMethod).Calls x v.text ↔
      ∃ u, u.text = x ∧ ReflTransGen (CallIn written) u v := by
  constructor
  · intro hpath
    induction hpath using ReflTransGen.head_induction_on with
    | refl => exact ⟨v, rfl, .refl⟩
    | head hcall _ ih =>
        rcases ih with ⟨w, hw, hpath⟩
        rcases calls_read_iff.1 hcall with ⟨u, w', hcall, hu, hw'⟩
        have hsame : w' = w := LinkedSymbol.text_injective (hw'.trans hw.symm)
        subst hsame
        exact ⟨u, hu, .head hcall hpath⟩
  · rintro ⟨u, rfl, hpath⟩
    exact hpath.lift LinkedSymbol.text fun a b hcall => calls_read_iff.2 ⟨a, b, hcall, rfl, rfl⟩

variable {σ ρ : Type} {parties : Calculator σ ρ} {oracle : Oracle σ} {config : LoadConfig}
  {s : CalcState σ ρ} {a : PackageSet ρ}

/-- Whatever dependencies a dump writes, in whatever order and with whatever lines in between: of a
    set, just those members are left, in their order, that own a symbol from which a chain of calls
    leads to a symbol that carries the annotation on at least one of its occurrences. -/
theorem deadcode_of_dump (horacle : parties.oracle = some oracle)
    (hversion : oracle.version = supportedVersion) (written : List Line)
    (hanswer : (oracle.symbolGraph config a.sortedIds s.loader).1 =
      .ok (read (written.map Line.text) reflectMethod)) :
    ∃ b, (Calc.deadcode parties config a s).1 = .ok b ∧ b.entries.Sublist a.entries ∧
      ∀ m ∈ a.entries, m ∈ b.entries ↔ ∃ x y : LinkedSymbol, x.package = m.1 ∧
        ReflTransGen (CallIn written) x y ∧ AnnotatedIn written y := by
  refine ⟨_, Calc.deadcode_of_answer horacle hversion hanswer, List.filter_sublist, fun m hm => ?_⟩
  rw [PackageSet.mem_keptAlive_iff, packageOf_read]
  constructor
  · rintro ⟨-, -, _, _, howner, hpath, hannotated⟩
    rcases mem_annotated_iff.1 hannotated with ⟨y, hy, rfl⟩
    rcases path_read_iff.1 hpath with ⟨x, rfl, hchain⟩
    exact ⟨x, y, x.linkerPackage_text.symm.trans howner, hchain, hy⟩
  · rintro ⟨x, y, howner, hpath, hy⟩
    refine ⟨hm, howner ▸ x.package_ne, x.text, y.text, x.linkerPackage_text.trans howner, ?_, ?_⟩
    · exact path_read_iff.2 ⟨x, rfl, hpath⟩
    · exact mem_annotated_iff.2 ⟨y, hy, rfl⟩

/-- The main function of a program. -/
def mainSymbol : LinkedSymbol where
  package := "main"
  name := "main"
  package_ne := by decide +kernel
  point_not_mem := by decide +kernel
  slash_not_mem := by decide +kernel
  unblank := isBlank_of_any (by decide +kernel)

/-- A method of a template, whose name has points. -/
def evalSymbol : LinkedSymbol where
  package := "text/template"
  name := "(*state).evalField"
  package_ne := by decide +kernel
  point_not_mem := by decide +kernel
  slash_not_mem := by decide +kernel
  unblank := isBlank_of_any (by decide +kernel)

/-- A function that calls nothing. -/
def printSymbol : LinkedSymbol where
  package := "fmt"
  name := "Print"
  package_ne := by decide +kernel
  point_not_mem := by decide +kernel
  slash_not_mem := by decide +kernel
  unblank := isBlank_of_any (by decide +kernel)

/-- An annotation that is not looked for. -/
def inlineTag : Tag where
  name := "Inline"
  unblank := isBlank_of_any (by decide +kernel)
  open_not_mem := by decide +kernel
  close_not_mem := by decide +kernel

/-- A dump where a symbol is bare on one line, and annotated on another one that comes later. -/
def templateDump : List Line :=
  [.dependency ⟨mainSymbol, []⟩ ⟨evalSymbol, []⟩, .other "main.main->lost" (by decide +kernel),
    .dependency ⟨evalSymbol, [inlineTag, reflectTag]⟩ ⟨printSymbol, []⟩]

/-- An oracle that has the dump, and a loader of no packages. -/
def templateParties : Calculator UniverseTable NodeRef where
  loader := recordLoader []
  oracle := some ⟨supportedVersion, fun _ _ t =>
    (.ok (read (templateDump.map Line.text) reflectMethod), t)⟩

/-- A set with the packages of the symbols, and another one. -/
def templatePackages : PackageSet NodeRef :=
  .ofRoots (["fmt", "main", "other", "text/template"].map fun id =>
    .make id "" none .single [] false false)

theorem source_of_callIn_templateDump {x y : LinkedSymbol} (h : CallIn templateDump x y) :
    x = mainSymbol ∨ x = evalSymbol := by
  rcases h with ⟨s, t, hline, rfl, rfl⟩
  simp only [templateDump, List.mem_cons, reduceCtorEq, Line.dependency.injEq, List.not_mem_nil,
    or_false, false_or] at hline
  exact hline.imp (fun h => congrArg Side.symbol h.1) fun h => congrArg Side.symbol h.1

theorem annotatedIn_templateDump_iff {x : LinkedSymbol} :
    AnnotatedIn templateDump x ↔ x = evalSymbol := by
  constructor
  · rintro ⟨s, t, hline, side, hside, rfl, tag, htag, -⟩
    simp only [templateDump, List.mem_cons, reduceCtorEq, Line.dependency.injEq, List.not_mem_nil,
      or_false, false_or] at hline
    -- Only one side of a dependency has tags.
    rcases hline with ⟨rfl, rfl⟩ | ⟨rfl, rfl⟩
    · rcases hside with rfl | rfl <;> exact absurd htag List.not_mem_nil
    · rcases hside with rfl | rfl
      · rfl
      · exact absurd htag List.not_mem_nil
  · rintro rfl
    exact ⟨⟨evalSymbol, [inlineTag, reflectTag]⟩, ⟨printSymbol, []⟩,
      List.mem_cons_of_mem _ (List.mem_cons_of_mem _ List.mem_cons_self), _, .inl rfl, rfl,
      reflectTag, List.mem_cons_of_mem _ List.mem_cons_self, rfl⟩

/-- The main function leads to the annotated method, and the function that it calls does not. -/
theorem deadcode_of_dump_template :
    ∃ b, (Calc.deadcode templateParties {} templatePackages { loader := .empty }).1 = .ok b ∧
      ∀ m ∈ templatePackages.entries, m ∈ b.entries ↔ m.1 = "main" ∨ m.1 = "text/template" := by
  rcases @deadcode_of_dump _ _ templateParties _ {} { loader := .empty } templatePackages rfl rfl
    templateDump rfl with ⟨b, hb, -, hmem⟩
  refine ⟨b, hb, fun m hm => ?_⟩
  rw [hmem m hm]
  constructor
  · rintro ⟨x, y, hx, hpath, hy⟩
    rw [annotatedIn_templateDump_iff] at hy
    subst hy
    have hsymbol : x = mainSymbol ∨ x = evalSymbol := by
      rcases hpath.cases_head with rfl | ⟨_, hcall, -⟩
      · exact .inr rfl
      · exact source_of_callIn_templateDump hcall
    rw [← hx]
    exact hsymbol.imp (congrArg LinkedSymbol.package) (congrArg LinkedSymbol.package)
  · have hcall : CallIn templateDump mainSymbol evalSymbol :=
      ⟨⟨mainSymbol, []⟩, ⟨evalSymbol, []⟩, List.mem_cons_self, rfl, rfl⟩
    have hannotated := annotatedIn_templateDump_iff.2 rfl
    rintro (hm | hm)
    · exact ⟨mainSymbol, evalSymbol, hm.symm, .single hcall, hannotated⟩
    · exact ⟨evalSymbol, evalSymbol, hm.symm, .refl, hannotated⟩

end Dump

end PackageAlgebra
