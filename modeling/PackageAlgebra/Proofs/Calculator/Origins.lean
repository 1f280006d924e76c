import PackageAlgebra.Load.Open
import PackageAlgebra.Proofs.Calculator.Steps
import PackageAlgebra.Proofs.Load.Variants
import PackageAlgebra.Proofs.Package.Contents

/-!
# Where Packages Come From

Every package of an evaluated set is one of the snapshot.

A calculation may mix packages of several configurations: those of a context function, those that
a selector looks up again with tests, those of a variable that was bound long ago. Each
configuration has a universe of its own, and the same id may have different imports there. Still,
each member of a set comes from one of these universes. It has the fields that it has there, and
of its imports it may have lost some, but it has got none.

The argument is one about states. A node is known in a state if the journal has a call whose
universe has the node, and the loader still keeps the universe. Journals and tables only grow, so
what is known stays known, and variables may be read in any later state. Imports of a known node
are known, because references stay in a universe, and so are copies with fewer imports. That is
all that operations on sets ask for.

## Main definitions

* `Node.CopyOf`: A node without some of its imports.
* `CalcState.Known`: A node of the universe of a call.
* `CalcState.Grows`: A state has what another one has, and more.
* `CalcState.Sound`: A state from which evaluations may go on.
* `Calc.Yields`: What a calculation leaves behind, and its value.
* `Oracle.OnlyAsks`: An oracle changes a loader by asking it.
* `Calculator.Session`: Evaluations one after the other.

## Theorems

* `keeps_known`: Imports and copies of known nodes are known.
* `Calc.Yields.bind`, `Calc.Yields.attempt`: Calculations put together.
* `evaluate_yields`: An evaluation yields known nodes.
* `Settings.over_overRecords`: Calculators that are opened over records.
* `evaluate_draws_from_universes`: Members are packages of the snapshot.
-/

namespace PackageAlgebra

variable {records : List PackageRecord} {v : Variant} {p q : Node NodeRef} {id : String}
  {α β : Type} {s t u : CalcState UniverseTable NodeRef}
  {parties : Calculator UniverseTable NodeRef} {ctx : Context}

/-! ### Copies -/

/-- A node without some of its imports. -/
structure Node.CopyOf {ρ : Type} (p q : Node ρ) : Prop where
  -- All other fields are the same.
  fields : p.bare = q.bare
  -- The imports are imports of the node, by the same references.
  imports : ∀ e ∈ p.imports.entries, e ∈ q.imports.entries

/-- The nodes of records have names, if there is a name to be had. -/
theorem copy_of_get?_ofRecords (h : (Universe.ofRecords records v).get? id = some q) :
    q.copy = q := by
  rcases Universe.get?_ofRecords_eq_some h with ⟨r, -, -, -, rfl⟩
  unfold Node.copy PackageRecord.nodeAmong PackageRecord.bareNode Node.make
  by_cases hname : r.name = ""
  · simp only [hname, if_true, ite_self]
  · simp only [hname, if_false]

/-- A copy without implied imports is a copy of the same node. -/
theorem Node.CopyOf.reduced (h : p.CopyOf q) (hcopy : q.copy = q) (catalog : Catalog NodeRef) :
    (PackageSet.reduced catalog p).CopyOf q := by
  constructor
  · have hbare : p.bare.copy = q.bare.copy := congrArg Node.copy h.fields
    exact hbare.trans (congrArg Node.bare hcopy)
  · exact fun e he => h.imports e (List.mem_filter.1 he).1

/-! ### Known nodes -/

/-- The variant of the universe that a call asks for. -/
def LoadCall.variant (call : LoadCall) : Variant :=
  ({ tests := call.tests, tags := call.tags } : LoadConfig).variant

namespace CalcState

/-- A node of the universe of a call, without some of its imports. -/
def Known (s : CalcState UniverseTable NodeRef) (p : Node NodeRef) : Prop :=
  ∃ call ∈ s.journal, ∃ u q, s.loader.get? call.variant = some u ∧ u.get? p.id = some q ∧
    p.CopyOf q

/-- A state has what another one has, and more. -/
structure Grows (s t : CalcState UniverseTable NodeRef) : Prop where
  -- Calls stay in the journal.
  journal : ∀ call ∈ s.journal, call ∈ t.journal
  -- Universes are still kept.
  loader : s.loader.KeptIn t.loader

/-- A state from which evaluations may go on: what the loader keeps is right, and variables hold
    known nodes. -/
structure Sound (records : List PackageRecord) (s : CalcState UniverseTable NodeRef) : Prop where
  -- The universes are those of the records.
  loader : s.loader.BuiltFrom records
  -- The nodes of variables are known.
  bindings : ∀ name a, s.bindings.get? name = some a → a.Filed s.Known

theorem Grows.refl (s : CalcState UniverseTable NodeRef) : s.Grows s :=
  ⟨fun _ h => h, fun _ _ h => h⟩

theorem Grows.trans (hst : s.Grows t) (htu : t.Grows u) : s.Grows u :=
  ⟨fun call h => htu.journal call (hst.journal call h),
    fun v w h => htu.loader v w (hst.loader v w h)⟩

/-- What is known stays known. -/
theorem Grows.known (h : s.Grows t) (hp : s.Known p) : t.Known p := by
  rcases hp with ⟨call, hcall, w, q, hw, hq, hcopy⟩
  exact ⟨call, h.journal call hcall, w, q, h.loader _ w hw, hq, hcopy⟩

theorem Grows.filed (h : s.Grows t) {a : PackageSet NodeRef} (ha : a.Filed s.Known) :
    a.Filed t.Known :=
  ha.mono fun _ => h.known

/-- Imports and copies of known nodes are known. -/
theorem Sound.keeps_known (hs : s.Sound records) : s.loader.catalog.Keeps s.Known where
  imported {p n} hp hn := by
    rcases hp with ⟨call, hcall, w, q, hw, hq, hcopy⟩
    rcases Node.mem_imported_iff.1 hn with ⟨e, he, hfind⟩
    have hbuilt := hs.loader _ w hw
    subst hbuilt
    -- The reference is one of the node, and so it leads to a node of the same universe.
    rcases Universe.own_of_get?_ofRecords hw hq (hcopy.imports e he) with ⟨n', hown, hn'⟩
    have hsame : n' = n := Option.some.inj (hown.symm.trans hfind)
    subst hsame
    rw [← Universe.id_of_get?_ofRecords hn'] at hn'
    exact ⟨call, hcall, _, n', hw, hn', rfl, fun _ h => h⟩
  reduced {p} hp := by
    rcases hp with ⟨call, hcall, w, q, hw, hq, hcopy⟩
    have hbuilt := hs.loader _ w hw
    subst hbuilt
    exact ⟨call, hcall, _, q, hw, hq, hcopy.reduced (copy_of_get?_ofRecords hq) _⟩

/-- A state goes on with a loader that has been asked, and with more in its journal. -/
theorem Sound.grows_asked (hs : s.Sound records) {table : UniverseTable} (calls : List LoadCall)
    (asked : List (List String)) (hbuilt : table.BuiltFrom records)
    (hkept : s.loader.KeptIn table) :
    let t := { s with loader := table, journal := s.journal ++ calls, asked := asked }
    s.Grows t ∧ t.Sound records := by
  intro t
  have hgrows : s.Grows t := ⟨fun call h => List.mem_append_left calls h, hkept⟩
  exact ⟨hgrows, hbuilt, fun name a ha => hgrows.filed (hs.bindings name a ha)⟩

end CalcState

/-! ### Calculations -/

/-- A calculation leaves a state behind that has grown and is sound, and its value, if it has one,
    is as it should be there. -/
structure Calc.Yields (records : List PackageRecord)
    (R : CalcState UniverseTable NodeRef → α → Prop) (c : Calc UniverseTable NodeRef α)
    (s : CalcState UniverseTable NodeRef) : Prop where
  -- What is known stays known.
  grows : s.Grows (c s).2
  -- Evaluations may go on.
  sound : (c s).2.Sound records
  -- The value is as it should be.
  value : ∀ a, (c s).1 = .ok a → R (c s).2 a

/-- An oracle changes a loader by asking it. -/
def Oracle.OnlyAsks {σ ρ : Type} (oracle : Oracle σ) (l : Loader σ ρ) : Prop :=
  ∀ config ids s, ∃ questions, (oracle.symbolGraph config ids s).2 = l.after questions s

/-- The parties ask records, and nobody else touches the loader. -/
structure Calculator.Over (parties : Calculator UniverseTable NodeRef)
    (records : List PackageRecord) : Prop where
  -- Packages come from the records.
  loader : parties.loader = recordLoader records
  -- The oracle asks the loader, if it asks anybody.
  oracle : ∀ oracle, parties.oracle = some oracle → oracle.OnlyAsks parties.loader

namespace Calc

variable {R : CalcState UniverseTable NodeRef → α → Prop}
  {R' : CalcState UniverseTable NodeRef → β → Prop} {c : Calc UniverseTable NodeRef α}
  {f : α → Calc UniverseTable NodeRef β}

/-- What a calculation yields is read off its outcome. -/
theorem yields_of_eq {outcome : Except Failure α} (h : c s = (outcome, t)) :
    c.Yields records R s ↔ s.Grows t ∧ t.Sound records ∧ ∀ a, outcome = .ok a → R t a := by
  constructor
  · intro hc
    have hall := And.intro hc.grows (And.intro hc.sound hc.value)
    rwa [h] at hall
  · intro hall
    constructor
    · rw [h]
      exact hall.1
    · rw [h]
      exact hall.2.1
    · rw [h]
      exact hall.2.2

theorem Yields.pure {a : α} (hs : s.Sound records) (ha : R s a) :
    (Pure.pure a : Calc UniverseTable NodeRef α).Yields records R s :=
  ⟨.refl s, hs, fun _ hvalue => Except.ok.inj hvalue ▸ ha⟩

theorem Yields.fail (hs : s.Sound records) (e : CalcError) :
    (Calc.fail e : Calc UniverseTable NodeRef α).Yields records R s :=
  ⟨.refl s, hs, fun _ hvalue => by cases hvalue⟩

/-- One calculation after another. -/
theorem Yields.bind (hc : c.Yields records R s)
    (hf : ∀ a t, s.Grows t → t.Sound records → R t a → (f a).Yields records R' t) :
    (c >>= f).Yields records R' s := by
  rcases hrun : c s with ⟨e | a, t⟩
  · rw [yields_of_eq hrun] at hc
    rw [yields_of_eq (bind_error hrun)]
    exact ⟨hc.1, hc.2.1, fun _ hvalue => by cases hvalue⟩
  · rw [yields_of_eq hrun] at hc
    have hrest := hf a t hc.1 hc.2.1 (hc.2.2 a rfl)
    have hbind : (c >>= f) s = ((f a t).1, (f a t).2) := bind_ok hrun
    rw [yields_of_eq hbind]
    exact ⟨hc.1.trans hrest.grows, hrest.sound, hrest.value⟩

/-- A failure that becomes an outcome leaves the same state behind. -/
theorem Yields.attempt (hc : c.Yields records R s) :
    (Calc.attempt c).Yields records (fun t outcome => ∀ a, outcome = .ok a → R t a) s := by
  rcases hrun : c s with ⟨(e | e) | a, t⟩
  · rw [yields_of_eq hrun] at hc
    rw [yields_of_eq (attempt_error hrun)]
    refine ⟨hc.1, hc.2.1, fun outcome houtcome a ha => ?_⟩
    rw [← Except.ok.inj houtcome] at ha
    cases ha
  · -- A fault ends the calculation.
    have hattempt : Calc.attempt c s = (.error (.fault e), t) := by
      unfold Calc.attempt
      rw [hrun]
    rw [yields_of_eq hrun] at hc
    rw [yields_of_eq hattempt]
    exact ⟨hc.1, hc.2.1, fun _ hvalue => by cases hvalue⟩
  · rw [yields_of_eq hrun] at hc
    rw [yields_of_eq (attempt_ok hrun)]
    refine ⟨hc.1, hc.2.1, fun outcome houtcome b hb => ?_⟩
    rw [← Except.ok.inj houtcome] at hb
    exact Except.ok.inj hb ▸ hc.2.2 a rfl

/-! ### Steps -/

/-- The value of a calculation is a set of known nodes. -/
abbrev YieldsSet (records : List PackageRecord)
    (c : Calc UniverseTable NodeRef (PackageSet NodeRef)) (s : CalcState UniverseTable NodeRef) :
    Prop :=
  c.Yields records (fun t a => a.Filed t.Known) s

/-- The state is read as it is. -/
theorem yields_get (hs : s.Sound records) :
    (get : Calc UniverseTable NodeRef _).Yields records (fun t read => read = t) s :=
  ⟨.refl s, hs, fun _ hread => (Except.ok.inj hread).symm⟩

/-- The nodes that references lead to are those of the loader. -/
theorem yields_catalog (h : parties.Over records) (hs : s.Sound records) :
    (catalog parties).Yields records (fun t c => c.Keeps t.Known) s := by
  refine ⟨.refl s, hs, fun c hc => ?_⟩
  rw [← Except.ok.inj hc, h.loader]
  exact hs.keeps_known

/-- Variables hold known nodes. -/
theorem yields_lookup? (hs : s.Sound records) (name : String) :
    (lookup? name : Calc UniverseTable NodeRef _).Yields records
      (fun t bound => ∀ a, bound = some a → a.Filed t.Known) s := by
  refine ⟨.refl s, hs, fun bound hbound a ha => ?_⟩
  rw [← Except.ok.inj hbound] at ha
  exact hs.bindings name a ha

/-- What the loader finds is known. -/
theorem yields_loadNodes (h : parties.Over records) (hs : s.Sound records) (config : LoadConfig)
    (patterns : List String) :
    (loadNodes parties config patterns).Yields records (fun t roots => ∀ p ∈ roots, t.Known p)
      s := by
  by_cases hcancelled : config.cancelled 0 = true
  · have hload : parties.loader.load config patterns s.loader =
        (.error (.cancelled patterns), s.loader) := by
      rw [h.loader]
      unfold recordLoader
      simp only [hcancelled, if_true]
    have hasked := hs.grows_asked [callOf config patterns] s.asked hs.loader fun _ _ hu => hu
    rw [yields_of_eq (loadNodes_of_error hload)]
    exact ⟨hasked.1, hasked.2, fun _ hvalue => by cases hvalue⟩
  · rw [Bool.not_eq_true] at hcancelled
    have hrequire := hs.loader.require config.variant
    have hasked := hs.grows_asked [callOf config patterns] s.asked hrequire.2
      (UniverseTable.keptIn_require s.loader config.variant _)
    have hload := load_recordLoader hcancelled hs.loader patterns
    rw [← h.loader] at hload
    rcases hroots : resolveIn (Universe.ofRecords records config.variant) (fun p => !p.std) config
      patterns with e | roots
    · rw [hroots] at hload
      rw [yields_of_eq (loadNodes_of_error hload)]
      exact ⟨hasked.1, hasked.2, fun _ hvalue => by cases hvalue⟩
    · rw [hroots] at hload
      rw [yields_of_eq (loadNodes_of_ok hload)]
      refine ⟨hasked.1, hasked.2, fun found hfound p hp => ?_⟩
      rw [← Except.ok.inj hfound] at hp
      rcases exists_get?_of_resolveIn hroots hp with ⟨id, hid⟩
      -- The universe of the call is kept from now on.
      have hkept := (UniverseTable.get?_require s.loader config.variant
        (Universe.ofRecords records)).trans (congrArg some hrequire.1)
      refine ⟨callOf config patterns, List.mem_append_right _ List.mem_cons_self, _, p, hkept, ?_,
        rfl, fun _ he => he⟩
      rwa [Universe.id_of_get?_ofRecords hid]

/-- A set of what the loader finds is one of known nodes. -/
theorem yields_loadRoots (h : parties.Over records) (hs : s.Sound records) (config : LoadConfig)
    (patterns : List String) : YieldsSet records (loadRoots parties config patterns) s :=
  (yields_loadNodes h hs config patterns).bind fun _ _ _ ht hroots => .pure ht (.ofRoots hroots)

/-- An oracle leaves known what is known. -/
theorem yields_askOracle (h : parties.Over records) (hs : s.Sound records) {oracle : Oracle _}
    (horacle : parties.oracle = some oracle) (config : LoadConfig) (ids : List String) :
    (askOracle oracle config ids).Yields records (fun _ _ => True) s := by
  rcases h.oracle oracle horacle config ids s.loader with ⟨questions, hafter⟩
  rw [h.loader] at hafter
  have hasked := hs.grows_asked [] (s.asked ++ [ids]) (hs.loader.after questions)
    (UniverseTable.keptIn_after records s.loader questions)
  rw [← hafter, List.append_nil] at hasked
  have hstate : (askOracle oracle config ids s).2 = { s with
      loader := (oracle.symbolGraph config ids s.loader).2, asked := s.asked ++ [ids] } := by
    unfold askOracle
    dsimp only
    split
    · next heq => rw [heq]
    · next heq => rw [heq]
  refine ⟨?_, ?_, fun _ _ => trivial⟩
  · rw [hstate]
    exact hasked.1
  · rw [hstate]
    exact hasked.2

/-- A name is bound to a set of known nodes. -/
theorem yields_bindVariable (hs : s.Sound records) (name : String) {a : PackageSet NodeRef}
    (ha : a.Filed s.Known) :
    (bindVariable name a : Calc UniverseTable NodeRef Unit).Yields records
      (fun _ _ => True) s := by
  cases hbound : s.bindings.get? name with
  | some first =>
      rw [yields_of_eq (bindVariable_of_some a hbound)]
      exact ⟨.refl s, hs, fun _ _ => trivial⟩
  | none =>
      have hgrows : s.Grows { s with bindings := s.bindings.insert name a } :=
        ⟨fun _ h => h, fun _ _ h => h⟩
      rw [yields_of_eq (bindVariable_of_none a hbound)]
      refine ⟨hgrows, ⟨hs.loader, fun other b hb => ?_⟩, fun _ _ => trivial⟩
      rw [OrderedMap.get?_insert] at hb
      by_cases hname : other = name
      · rw [if_pos hname, Option.some.injEq] at hb
        rw [← hb]
        exact hgrows.filed ha
      · rw [if_neg hname] at hb
        exact hgrows.filed (hs.bindings other b hb)

theorem yields_deadcode (h : parties.Over records) (hs : s.Sound records) (config : LoadConfig)
    {a : PackageSet NodeRef} (ha : a.Filed s.Known) :
    YieldsSet records (deadcode parties config a) s := by
  unfold deadcode
  split
  · exact .fail hs _
  · next oracle horacle =>
    split
    · exact .fail hs _
    · split
      · exact .pure hs .empty
      · exact (yields_askOracle h hs horacle config _).bind fun g t hgrows ht _ =>
          .pure ht ((hgrows.filed ha).keptAlive g)

end Calc

open Calc

/-! ### Functions and selectors -/

theorem yields_applyFunction (h : parties.Over records) (hs : s.Sound records) (f : SetFunction)
    {operands : List (PackageSet NodeRef)} (hoperands : ∀ a ∈ operands, a.Filed s.Known) :
    YieldsSet records (applyFunction parties ctx f operands) s := by
  unfold applyFunction
  split
  · exact .pure hs (.applyAll _ hoperands)
  · next a b =>
    simp only [List.forall_mem_cons] at hoperands
    exact (yields_catalog h hs).bind fun c t hgrows ht _ =>
      .pure ht ((hgrows.filed hoperands.1).reach c b)
  · next a b =>
    simp only [List.forall_mem_cons] at hoperands
    exact (yields_catalog h hs).bind fun c t hgrows ht _ =>
      .pure ht ((hgrows.filed hoperands.1).incoming (hgrows.filed hoperands.2.1) c)
  · next a =>
    rw [List.forall_mem_singleton] at hoperands
    exact (yields_catalog h hs).bind fun _ t hgrows ht hkeeps =>
      .pure ht ((hgrows.filed hoperands).transitive hkeeps)
  · next a =>
    rw [List.forall_mem_singleton] at hoperands
    exact yields_deadcode h hs _ hoperands
  · exact .pure hs .empty

theorem yields_testsOfName (h : parties.Over records) (hs : s.Sound records) (name : String)
    (c : Combinator) : YieldsSet records (testsOfName parties ctx name c) s := by
  cases c with
  | keep => exact (yields_loadRoots h hs _ _).bind fun a t _ ht ha => .pure ht (ha.filter _)
  | add => exact yields_loadRoots h hs _ _
  | remove => exact yields_loadRoots h hs _ _

theorem yields_testsOfSet (h : parties.Over records) (hs : s.Sound records) (c : Combinator)
    {a : PackageSet NodeRef} (ha : a.Filed s.Known) :
    YieldsSet records (testsOfSet parties ctx c a) s := by
  unfold testsOfSet
  split
  · exact .pure hs (ha.combine c .empty)
  · exact (yields_loadRoots h hs _ _).bind fun found t hgrows ht hfound =>
      .pure ht ((hgrows.filed ha).combine c (hfound.filter _))

theorem yields_evaluateGroup (h : parties.Over records) (hs : s.Sound records)
    (names : List String) : YieldsSet records (evaluateGroup parties ctx names) s := by
  refine (yields_get hs).bind fun read t _ ht hread => ?_
  subst hread
  have hvalues : ∀ a ∈ names.filterMap read.bindings.get?, a.Filed read.Known := by
    intro a ha
    rcases List.mem_filterMap.1 ha with ⟨name, -, hname⟩
    exact ht.bindings name a hname
  dsimp only
  split
  · exact .pure ht (.unionAll hvalues)
  · refine (yields_loadRoots h ht _ _).bind fun found u hgrows hu hfound => .pure hu (.unionAll ?_)
    intro a ha
    rcases List.mem_append.1 ha with hvalue | hlast
    · exact hgrows.filed (hvalues a hvalue)
    · rwa [List.mem_singleton.1 hlast]

/-! ### Operands -/

variable {args : List Expr}

theorem yields_evaluateLast {last : PackageSet NodeRef} (hs : s.Sound records)
    (hlast : last.Filed s.Known)
    (hargs : ∀ arg ∈ args, ∀ t, t.Sound records → YieldsSet records (evaluate parties ctx arg) t) :
    YieldsSet records (evaluateLast parties ctx last args) s := by
  induction args generalizing s last with
  | nil => exact .pure hs hlast
  | cons arg rest ih =>
      rw [List.forall_mem_cons] at hargs
      exact (hargs.1 s hs).bind fun a t _ ht ha => ih ht ha hargs.2

theorem yields_evaluateEach (hs : s.Sound records)
    (hargs : ∀ arg ∈ args, ∀ t, t.Sound records → YieldsSet records (evaluate parties ctx arg) t) :
    (evaluateEach parties ctx args).Yields records
      (fun t each => ∀ a ∈ each.1, a.Filed t.Known) s := by
  induction args generalizing s with
  | nil => exact .pure hs fun _ ha => absurd ha List.not_mem_nil
  | cons arg rest ih =>
      rw [List.forall_mem_cons] at hargs
      refine (hargs.1 s hs).attempt.bind fun outcome t _ ht houtcome => ?_
      refine (ih ht hargs.2).bind fun others u hgrows hu hothers => ?_
      cases outcome with
      | error e => exact .pure hu hothers
      | ok a => exact .pure hu (List.forall_mem_cons.2 ⟨hgrows.filed (houtcome a rfl), hothers⟩)

/-! ### Evaluation -/

theorem yields_evaluate_call (h : parties.Over records) (hs : s.Sound records) (func : String)
    (hargs : ∀ arg ∈ args, ∀ ctx t, t.Sound records →
      YieldsSet records (evaluate parties ctx arg) t) :
    YieldsSet records (evaluate parties ctx (.call func args)) s := by
  unfold evaluate
  split
  · -- A context function evaluates its argument in another context, if there is just one.
    split
    · next arg => exact hargs arg (List.mem_singleton_self arg) _ s hs
    · exact .fail hs _
  · split
    · exact .fail hs _
    · split
      · exact .fail hs _
      · split
        · exact yields_evaluateGroup h hs _
        · refine (yields_evaluateEach hs fun arg harg => hargs arg harg ctx).bind
            fun each t _ ht heach => ?_
          dsimp only
          split
          · exact yields_applyFunction h ht _ heach
          · exact .fail ht _

theorem yields_evaluate_select (h : parties.Over records) (hs : s.Sound records) {operand : Expr}
    (selector : String) (hoperand : YieldsSet records (evaluate parties ctx operand) s) :
    YieldsSet records (evaluate parties ctx (.select operand selector)) s := by
  rw [evaluate.eq_def]
  dsimp only
  split
  · exact .fail hs _
  · -- The test packages of a name are loaded, those of another operand looked up again.
    split
    · refine (yields_lookup? hs _).bind fun bound t _ ht hbound => ?_
      cases bound with
      | some a => exact yields_testsOfSet h ht _ (hbound a rfl)
      | none => exact yields_testsOfName h ht _ _
    · exact hoperand.bind fun a t _ ht ha => yields_testsOfSet h ht _ ha
  · exact hoperand.bind fun a t _ ht ha => (yields_catalog h ht).bind fun _ u hgrows hu hkeeps =>
      .pure hu ((hgrows.filed ha).selection hkeeps _ _)

mutual

/-- An evaluation yields known nodes. -/
theorem evaluate_yields (h : parties.Over records) : ∀ (e : Expr) (ctx : Context)
    (s : CalcState UniverseTable NodeRef), s.Sound records →
      YieldsSet records (evaluate parties ctx e) s
  | .absent, ctx, s, hs => by
      unfold evaluate
      exact .fail hs _
  | .package name, ctx, s, hs => by
      unfold evaluate
      refine (yields_lookup? hs name).bind fun bound t _ ht hbound => ?_
      cases bound with
      | some a => exact .pure ht (hbound a rfl)
      | none => exact yields_loadRoots h ht _ _
  | .sequence statements, ctx, s, hs => by
      have hall := forall_evaluate_yields h statements
      unfold evaluate
      exact yields_evaluateLast hs .empty fun e he => hall e he ctx
  | .assign name value, ctx, s, hs => by
      have hvalue := evaluate_yields h value ctx s hs
      unfold evaluate
      exact hvalue.bind fun a t _ ht ha => (yields_bindVariable ht name ha).bind
        fun _ u hgrows hu _ => .pure hu (hgrows.filed ha)
  | .call func args, ctx, s, hs =>
      yields_evaluate_call h hs func (forall_evaluate_yields h args)
  | .select operand selector, ctx, s, hs =>
      yields_evaluate_select h hs selector (evaluate_yields h operand ctx s hs)

theorem forall_evaluate_yields (h : parties.Over records) : ∀ es : List Expr, ∀ e ∈ es,
    ∀ (ctx : Context) (s : CalcState UniverseTable NodeRef), s.Sound records →
      YieldsSet records (evaluate parties ctx e) s
  | [] => fun _ he => absurd he List.not_mem_nil
  | e :: rest => List.forall_mem_cons.2
      ⟨evaluate_yields h e, forall_evaluate_yields h rest⟩

end

/-! ### Oracles -/

/-- An oracle that runs a command leaves the loader alone, whatever the programs do. -/
theorem onlyAsks_commandOracle [Programs] {σ ρ : Type} (l : Loader σ ρ) (command : List String)
    (marker : String) : (commandOracle command marker).OnlyAsks l :=
  fun _ _ _ => ⟨[], rfl⟩

/-- An oracle that reads the files of packages asks for all of them. -/
theorem onlyAsks_sourceOracle {σ ρ : Type} (l : Loader σ ρ) (files : FileSystem) :
    (sourceOracle files l).OnlyAsks l := by
  intro config ids s
  refine ⟨[.allNodes config], ?_⟩
  change _ = (l.allNodes config s).2
  unfold sourceOracle
  dsimp only
  split
  · next heq => rw [heq]
  · next heq => rw [heq]

/-- A calculator that is opened over records leaves it to the loader what is kept of them. -/
theorem Settings.over_overRecords [Programs] (settings : Settings) (records : List PackageRecord) :
    (settings.overRecords records).parties.Over records := by
  refine ⟨rfl, fun oracle h => ?_⟩
  rw [Settings.eq_commandOracle h]
  exact onlyAsks_commandOracle _ _ _

/-! ### Sessions -/

/-- The states of a session, the latest one first. A session starts with a new loader. Each
    evaluation goes on with the loader as it is, and in a context whose variables are those of
    any state so far; in between, the loader may be asked. -/
inductive Calculator.Session {σ ρ : Type} (parties : Calculator σ ρ) (start : σ) :
    List (CalcState σ ρ) → Prop
  | start : Session parties start [{ loader := start }]
  | evaluate {s bound : CalcState σ ρ} {earlier : List (CalcState σ ρ)}
      (hsession : Session parties start (s :: earlier)) (hbound : bound ∈ s :: earlier)
      (ctx : Context) (e : Expr) :
      Session parties start
        ((evaluate parties ctx e { s with bindings := bound.bindings }).2 :: s :: earlier)
  | ask {s : CalcState σ ρ} {earlier : List (CalcState σ ρ)}
      (hsession : Session parties start (s :: earlier)) (questions : List Question) :
      Session parties start
        ({ s with loader := parties.loader.after questions s.loader } :: s :: earlier)

variable {states earlier : List (CalcState UniverseTable NodeRef)}
  {bound : CalcState UniverseTable NodeRef}

/-- The variables of a state hold nodes that are known in a later one. -/
theorem CalcState.Sound.withBindings (hs : s.Sound records) (hbound : bound.Sound records)
    (hgrows : bound.Grows s) : ({ s with bindings := bound.bindings } :
      CalcState UniverseTable NodeRef).Sound records := by
  have hsame : s.Grows { s with bindings := bound.bindings } := ⟨fun _ h => h, fun _ _ h => h⟩
  exact ⟨hs.loader, fun name a ha => (hgrows.trans hsame).filed (hbound.bindings name a ha)⟩

/-- All states of a session are sound, and the latest has what the others have. -/
theorem Calculator.Session.sound (h : parties.Over records)
    (hsession : parties.Session .empty states) :
    ∃ s earlier, states = s :: earlier ∧ ∀ t ∈ states, t.Sound records ∧ t.Grows s := by
  induction hsession with
  | start =>
      refine ⟨_, _, rfl, List.forall_mem_singleton.2 ⟨⟨?_, ?_⟩, .refl _⟩⟩
      · exact UniverseTable.builtFrom_empty
      · intro name a ha
        cases ha
  | @evaluate s bound earlier _ hbound ctx e ih =>
      rcases ih with ⟨_, _, hstates, hall⟩
      rcases List.cons.inj hstates with ⟨rfl, rfl⟩
      have hs := (hall s List.mem_cons_self).1
      have hstart := hs.withBindings (hall bound hbound).1 (hall bound hbound).2
      have hrun := evaluate_yields h e ctx _ hstart
      have hsame : s.Grows { s with bindings := bound.bindings } := ⟨fun _ h => h, fun _ _ h => h⟩
      refine ⟨_, _, rfl, List.forall_mem_cons.2 ⟨⟨hrun.sound, .refl _⟩, fun t ht => ?_⟩⟩
      exact ⟨(hall t ht).1, ((hall t ht).2.trans hsame).trans hrun.grows⟩
  | @ask s earlier _ questions ih =>
      rcases ih with ⟨_, _, hstates, hall⟩
      rcases List.cons.inj hstates with ⟨rfl, rfl⟩
      have hs := (hall s List.mem_cons_self).1
      have hasked := hs.grows_asked [] s.asked (hs.loader.after questions)
        (UniverseTable.keptIn_after records s.loader questions)
      rw [← h.loader, List.append_nil] at hasked
      refine ⟨_, _, rfl, List.forall_mem_cons.2 ⟨⟨hasked.2, .refl _⟩, fun t ht => ?_⟩⟩
      exact ⟨(hall t ht).1, (hall t ht).2.trans hasked.1⟩

/-- Whatever is evaluated in a session over records, each member of the set is filed under its
    own id, and it is the node of that id in the universe of one of the calls that were made, apart
    from imports that it may have lost: its imports are imports of that node, and lead to the
    nodes of that universe. -/
theorem evaluate_draws_from_universes (h : parties.Over records)
    (hsession : parties.Session .empty (s :: earlier)) (hbound : bound ∈ s :: earlier)
    (ctx : Context) (e : Expr) :
    let run := evaluate parties ctx e { s with bindings := bound.bindings }
    ∀ a, run.1 = .ok a → ∀ m ∈ a.entries, m.2.id = m.1 ∧
      ∃ call ∈ run.2.journal, ∃ p, (Universe.ofRecords records call.variant).get? m.1 = some p ∧
        m.2.CopyOf p ∧ ∀ i ∈ m.2.imports.entries, ∃ n,
          (parties.loader.catalog run.2.loader).get? i.2 = some n ∧ n.id = i.1 ∧
            (Universe.ofRecords records call.variant).get? i.1 = some n := by
  intro run a ha m hm
  rcases hsession.sound h with ⟨_, _, hstates, hall⟩
  rcases List.cons.inj hstates with ⟨rfl, rfl⟩
  have hstart := (hall s List.mem_cons_self).1.withBindings (hall bound hbound).1
    (hall bound hbound).2
  have hrun := evaluate_yields h e ctx _ hstart
  rcases hrun.value a ha m hm with ⟨hfiled, call, hcall, u, p, hu, hp, hcopy⟩
  have hbuilt := hrun.sound.loader _ u hu
  subst hbuilt
  rw [hfiled] at hp
  refine ⟨hfiled, call, hcall, p, hp, hcopy, fun i hi => ?_⟩
  rcases Universe.own_of_get?_ofRecords hu hp (hcopy.imports i hi) with ⟨n, hcatalog, hn⟩
  refine ⟨n, ?_, Universe.id_of_get?_ofRecords hn, hn⟩
  rw [h.loader]
  exact hcatalog

/-- A shop that needs its till by way of its cart, and a test package of the shop. -/
def shopRecords : List PackageRecord :=
  [{ id := "shop", imports := ["cart", "till"] }, { id := "cart", imports := ["till"] },
    { id := "till" }, { id := "shop_test", imports := ["shop"] }]

/-- A query that binds the shop and its cart without implied imports. -/
def reducingQuery : Expr :=
  .assign "x" (.call "transitive" [.call "" [.package "shop", .package "cart"]])

/-- A query that adds the tests of the shop to a variable. -/
def testingQuery : Expr := .call "+" [.package "x", .select (.package "shop") "+test"]

/-- The records, and an oracle that reads the files of packages. -/
def shopParties : Calculator UniverseTable NodeRef where
  loader := recordLoader shopRecords
  oracle := some (sourceOracle ⟨.directory [], "/"⟩ (recordLoader shopRecords))

/-- A set that mixes copies from a variable with a test package of another universe has members
    of the records, although somebody else has asked for everything in between. -/
theorem evaluate_draws_from_universes_mixed :
    let first : CalcState UniverseTable NodeRef := { loader := .empty }
    let bound := (evaluate shopParties {} reducingQuery { first with bindings := .empty }).2
    let asked := { bound with
      loader := shopParties.loader.after [.allNodes { tags := ["fast"] }] bound.loader }
    let run := evaluate shopParties {} testingQuery { asked with bindings := bound.bindings }
    ∃ a, run.1 = .ok a ∧ a.keys = ["shop", "cart", "shop_test"] ∧
      ∀ m ∈ a.entries, ∃ call ∈ run.2.journal, ∃ p,
        (Universe.ofRecords shopRecords call.variant).get? m.1 = some p ∧ m.2.CopyOf p := by
  intro first bound asked
  have hover : shopParties.Over shopRecords := by
    refine ⟨rfl, fun oracle horacle => ?_⟩
    rw [← Option.some.inj horacle]
    exact onlyAsks_sourceOracle _ _
  have hbound : shopParties.Session .empty [bound, first] :=
    .evaluate .start List.mem_cons_self {} reducingQuery
  have hkeys : (evaluate shopParties {} testingQuery
      { asked with bindings := bound.bindings }).1.toOption.map (·.keys) =
      some ["shop", "cart", "shop_test"] := by
    decide +kernel
  have hmembers := evaluate_draws_from_universes hover (hbound.ask [.allNodes { tags := ["fast"] }])
    (List.mem_cons_of_mem _ List.mem_cons_self) {} testingQuery
  generalize evaluate shopParties {} testingQuery { asked with bindings := bound.bindings } = run
    at hkeys hmembers ⊢
  rcases houtcome : run.1 with e | a
  · rw [houtcome] at hkeys
    cases hkeys
  · rw [houtcome] at hkeys
    refine ⟨a, houtcome, Option.some.inj hkeys, fun m hm => ?_⟩
    rcases hmembers a houtcome m hm with ⟨-, call, hcall, p, hp, hcopy, -⟩
    exact ⟨call, hcall, p, hp, hcopy⟩

end PackageAlgebra
