import PackageAlgebra.Proofs.Calculator.Groups
import PackageAlgebra.Proofs.Load.Records

/-!
# Failures

Which names an evaluation over records complains about.

Names that are loaded together are answered together, and a loader that misses some of them
reports all of those at once. So the error of an evaluation comes from two collections, that
of the loader over the names of a group and that of the evaluator over operands. Neither
loses a name or reports it twice: taken apart, the error names what is missing in the order in
which the query mentions it, and there is an error only if something is missing.

What is missing is a matter of the query and of the records, and can be read off both: a name
that is mentioned, that is not bound, and that no package fits under the configuration that
the context functions around it ask for.

## Main definitions

* `Expr.mentions`: The names in an expression, from left to right, in their scopes.
* `Mention.Missing`: A name that is neither bound nor known.
* `Expr.missing`: The missing names in an expression, from left to right.

## Theorems

* `flatMap_mentions_loadGroups`: Names in load groups are the unbound ones that are mentioned.
* `askEach_recordLoader`: Failures name what nothing fits.
* `evaluate_reports_missing`: An evaluation fails if a name is missing, and reports all of them.
-/

namespace PackageAlgebra

/-- A name in an expression, with the context functions around it. -/
structure Mention where
  -- The settings around it, the innermost first.
  scope : Scope
  -- The name.
  name : String

/-- A name that is neither bound nor known under its configuration. -/
def Mention.Missing (records : List PackageRecord) (ctx : Context) (bound : String → Bool)
    (m : Mention) : Prop :=
  bound m.name = false ∧ Unanswered records (ctx.within m.scope).config m.name

instance (records : List PackageRecord) (ctx : Context) (bound : String → Bool) (m : Mention) :
    Decidable (m.Missing records ctx bound) :=
  inferInstanceAs (Decidable (_ ∧ _))

namespace Expr

mutual

/-- The names in an expression, from left to right. -/
def mentions (scope : Scope) : Expr → List Mention
  | .package name => [⟨scope, name⟩]
  | .sequence statements => mentionsAll scope statements
  | .assign _ value => mentions scope value
  | .select operand _ => mentions scope operand
  | .call func args =>
    if isSetting func then mentionsAll (splitEntry func :: scope) args else mentionsAll scope args
  | .absent => []

/-- The names in a list of expressions, from left to right. -/
def mentionsAll (scope : Scope) : List Expr → List Mention
  | [] => []
  | e :: rest => mentions scope e ++ mentionsAll scope rest

end

theorem mentionsAll_eq_flatMap (scope : Scope) (args : List Expr) :
    mentionsAll scope args = args.flatMap (mentions scope) := by
  induction args with
  | nil => rfl
  | cons arg rest ih => rw [mentionsAll, ih, List.flatMap_cons]

/-- The missing names in an expression, from left to right. -/
def missing (records : List PackageRecord) (ctx : Context) (bound : String → Bool)
    (scope : Scope) (e : Expr) : List String :=
  ((e.mentions scope).filter fun m => m.Missing records ctx bound).map Mention.name

theorem missing_eq_nil_iff {records : List PackageRecord} {ctx : Context} {bound : String → Bool}
    {scope : Scope} {e : Expr} : e.missing records ctx bound scope = [] ↔
      ¬ ∃ m ∈ e.mentions scope, m.Missing records ctx bound := by
  unfold missing
  rw [List.map_eq_nil_iff, List.filter_eq_nil_iff]
  simp only [decide_eq_true_eq, not_exists, not_and]

end Expr

/-! ### Names in groups -/

/-- The names of a group, each in the scope of the group. -/
def LoadGroup.mentions (g : LoadGroup) : List Mention := g.names.map (Mention.mk g.scope)

variable {scope : Scope} {bound : String → Bool}

theorem mentions_ofNames (names : List String) :
    (LoadGroup.ofNames bound scope names).flatMap LoadGroup.mentions =
      (names.map (Mention.mk scope)).filter fun m => !bound m.name := by
  have hfilter : (names.map (Mention.mk scope)).filter (fun m => !bound m.name) =
      (names.filter fun name => !bound name).map (Mention.mk scope) := List.filter_map
  unfold LoadGroup.ofNames
  rw [hfilter]
  cases names.filter fun name => !bound name with
  | nil => rfl
  | cons name rest => exact List.append_nil _

/-- Names side by side are all that is mentioned there. -/
theorem mentionsAll_of_bareNames? {args : List Expr} {names : List String}
    (h : bareNames? args = some names) :
    Expr.mentionsAll scope args = names.map (Mention.mk scope) := by
  induction args generalizing names with
  | nil =>
      rw [bareNames?, Option.some.injEq] at h
      rw [← h]
      rfl
  | cons arg rest ih =>
      cases arg with
      | package name =>
          rw [bareNames?, Option.map_eq_some_iff] at h
          rcases h with ⟨names, hrest, rfl⟩
          rw [Expr.mentionsAll, ih hrest]
          rfl
      | _ => exact absurd h (by simp only [bareNames?, reduceCtorEq, not_false_eq_true])

/-- The names in the load groups of an expression are those that it mentions and that are not
    bound. -/
theorem flatMap_mentions_loadGroups {e : Expr} (he : e.Plain) (scope : Scope) :
    (e.loadGroups bound scope).flatMap LoadGroup.mentions =
      (e.mentions scope).filter fun m => !bound m.name := by
  induction he generalizing scope with
  | package name => exact mentions_ofNames [name]
  | @setting func arg hfunc _ ih =>
      rw [Expr.loadGroups, if_pos hfunc, Expr.mentions, if_pos hfunc,
        Expr.loadGroupsAll_eq_flatMap, Expr.mentionsAll_eq_flatMap, List.flatMap_singleton,
        List.flatMap_singleton]
      exact ih (splitEntry func :: scope)
  | @call func args f hfunc _ _ _ _ ih =>
      have hargs : (Expr.loadGroupsAll bound scope args).flatMap LoadGroup.mentions =
          (Expr.mentionsAll scope args).filter fun m => !bound m.name := by
        rw [Expr.loadGroupsAll_eq_flatMap, Expr.mentionsAll_eq_flatMap, List.flatMap_assoc,
          List.filter_flatMap]
        exact List.flatMap_congr fun arg harg => ih arg harg scope
      rw [Expr.loadGroups, if_neg (Bool.eq_false_iff.1 hfunc), Expr.mentions,
        if_neg (Bool.eq_false_iff.1 hfunc)]
      split
      · split
        · next names hnames =>
          rw [mentions_ofNames, mentionsAll_of_bareNames? hnames]
        · exact hargs
      · exact hargs
  | select _ _ _ ih => exact ih scope

/-! ### Failures of groups -/

variable {records : List PackageRecord} {ctx : Context}
  {parties : Calculator UniverseTable NodeRef} {s t : CalcState UniverseTable NodeRef}

/-- The names of a group that nothing fits. -/
def LoadGroup.missing (records : List PackageRecord) (ctx : Context) (g : LoadGroup) :
    List String :=
  g.names.filter fun name => Unanswered records (g.config ctx) name

/-- A failure names what nothing fits, and there is one if there is something to name. -/
theorem ask_recordLoader (hloader : parties.loader = recordLoader records)
    (hcancelled : ctx.cancelled 0 = false) (hs : s.loader.BuiltFrom records) (g : LoadGroup) :
    (g.ask parties ctx s).2.loader.BuiltFrom records ∧
      (g.ask parties ctx s).1.flatMap LoadError.patterns = g.missing records ctx ∧
      ∀ cause ∈ (g.ask parties ctx s).1, cause.patterns ≠ [] := by
  have hconfig : (g.config ctx).cancelled 0 = false := by
    change (ctx.within g.scope).cancelled 0 = false
    rw [Context.cancelled_within]
    exact hcancelled
  unfold LoadGroup.ask
  rw [hloader, load_recordLoader hconfig hs]
  refine ⟨(hs.require _).2, ?_⟩
  rcases resolveIn_ofRecords records (g.config ctx) g.names with
    ⟨hmissing, roots, hanswer⟩ | ⟨hmissing, hanswer⟩
  · rw [hanswer, LoadGroup.missing, hmissing]
    exact ⟨rfl, fun _ hcause => absurd hcause List.not_mem_nil⟩
  · rw [hanswer, LoadGroup.missing]
    refine ⟨List.append_nil _, ?_⟩
    intro cause hcause
    rw [List.mem_singleton.1 hcause]
    exact hmissing

/-- The failures of groups name what nothing fits, in order. -/
theorem askEach_recordLoader (hloader : parties.loader = recordLoader records)
    (hcancelled : ctx.cancelled 0 = false) (hs : s.loader.BuiltFrom records)
    (groups : List LoadGroup) :
    (askEach parties ctx groups s).1.flatMap LoadError.patterns =
        groups.flatMap (LoadGroup.missing records ctx) ∧
      ∀ cause ∈ (askEach parties ctx groups s).1, cause.patterns ≠ [] := by
  induction groups generalizing s with
  | nil => exact ⟨rfl, fun _ hcause => absurd hcause List.not_mem_nil⟩
  | cons g rest ih =>
      have hfirst := ask_recordLoader hloader hcancelled hs g
      have hothers := ih hfirst.1
      rw [askEach, List.flatMap_append, List.flatMap_cons, hfirst.2.1, hothers.1]
      refine ⟨rfl, ?_⟩
      intro cause hcause
      rcases List.mem_append.1 hcause with hcause | hcause
      · exact hfirst.2.2 cause hcause
      · exact hothers.2 cause hcause

/-- What nothing fits in a group are its missing names. -/
theorem LoadGroup.missing_eq (g : LoadGroup) :
    g.missing records ctx = (g.mentions.filter fun m =>
      Unanswered records (ctx.within m.scope).config m.name).map Mention.name := by
  unfold LoadGroup.mentions LoadGroup.missing
  rw [List.filter_map, List.map_map]
  exact (List.map_id _).symm

/-- What nothing fits in the load groups of an expression are its missing names. -/
theorem flatMap_missing {e : Expr} (he : e.Plain) (scope : Scope) :
    (e.loadGroups bound scope).flatMap (LoadGroup.missing records ctx) =
      e.missing records ctx bound scope := by
  have hmissing : LoadGroup.missing records ctx = fun g => (g.mentions.filter fun m =>
      Unanswered records (ctx.within m.scope).config m.name).map Mention.name :=
    funext LoadGroup.missing_eq
  unfold Expr.missing
  rw [hmissing, ← List.map_flatMap, ← List.filter_flatMap, flatMap_mentions_loadGroups he,
    List.filter_filter]
  refine congrArg _ (List.filter_congr fun m _ => ?_)
  rw [Bool.eq_iff_iff, Bool.and_eq_true, Bool.not_eq_true', decide_eq_true_eq, decide_eq_true_eq]
  exact and_comm

/-- An evaluation over records fails if and only if a name is missing, and then its error names
    those that are missing, all of them, each as often as it is mentioned, and in order. -/
theorem evaluate_reports_missing {e : Expr} (he : e.Plain)
    (parties : Calculator UniverseTable NodeRef) (ctx : Context)
    (s : CalcState UniverseTable NodeRef) (hloader : parties.loader = recordLoader records)
    (hs : s.loader.BuiltFrom records) (hcancelled : ctx.cancelled 0 = false) :
    let outcome := (evaluate parties ctx e s).1
    ((∃ failure, outcome = .error failure) ↔
        ∃ m ∈ e.mentions [], m.Missing records ctx s.bindings.contains) ∧
      ∀ failure, outcome = .error failure →
        ∃ (error : CalcError) (causes : List LoadError), failure = .error error ∧
          error.flatten = causes.map .load ∧
          causes.flatMap LoadError.patterns = e.missing records ctx s.bindings.contains [] ∧
          error.Plural := by
  intro outcome
  have hasks : (evaluate parties ctx e).Asks parties ctx (e.loadGroups s.bindings.contains []) s :=
    evaluate_asks he [] s
  rcases hasks with ⟨result, causes, t, heval, hask, hreports⟩
  have houtcome : outcome = result := congrArg Prod.fst heval
  have hfailures : causes.flatMap LoadError.patterns =
        e.missing records ctx s.bindings.contains [] ∧
      ∀ cause ∈ causes, cause.patterns ≠ [] := by
    have hgroups := askEach_recordLoader hloader hcancelled hs
      (e.loadGroups s.bindings.contains [])
    rwa [hask, flatMap_missing he []] at hgroups
  rw [houtcome]
  cases hreports with
  | value a =>
      have hnone := Expr.missing_eq_nil_iff.1 hfailures.1.symm
      constructor
      · constructor
        · rintro ⟨failure, hfailure⟩
          exact absurd hfailure (by simp only [reduceCtorEq, not_false_eq_true])
        · intro hsome
          exact absurd hsome hnone
      · intro failure hfailure
        exact absurd hfailure (by simp only [reduceCtorEq, not_false_eq_true])
  | @failure error _ hne hflat hplural =>
      constructor
      · constructor
        · intro _
          by_contra hnone
          -- A failure has something to name, so nothing can have failed.
          rw [Expr.missing_eq_nil_iff.2 hnone, List.flatMap_eq_nil_iff] at hfailures
          rcases List.exists_mem_of_ne_nil causes hne with ⟨cause, hcause⟩
          exact hfailures.2 cause hcause (hfailures.1 cause hcause)
        · intro _
          exact ⟨.error error, rfl⟩
      · intro failure hfailure
        rw [Except.error.injEq] at hfailure
        exact ⟨error, causes, hfailure.symm, hflat, hfailures.1, hplural⟩

/-- Packages of which one exists only where tests are wanted, and two only under a tag. -/
def settledRecords : List PackageRecord :=
  [{ id := "a", test := true }, { id := "c", tags := ["fast"] }, { id := "d", tags := ["Fast"] }]

/-- Of two packages under a tag, one is missing where the tag has been turned off again. -/
theorem evaluate_reports_missing_settled :
    let s : CalcState UniverseTable NodeRef :=
      { loader := .empty, bindings := .insert .empty "kept" .empty }
    ∃ (error : CalcError) (causes : List LoadError),
      (evaluate { loader := recordLoader settledRecords } {} settledQuery s).1 =
        .error (.error error) ∧
      error.flatten = causes.map .load ∧
      causes.flatMap LoadError.patterns = ["lost", "b", "c"] ∧ error.Plural := by
  intro s
  have hmissing : settledQuery.missing settledRecords {} s.bindings.contains [] =
      ["lost", "b", "c"] := by
    decide +kernel
  have hreports := evaluate_reports_missing plain_settledQuery
    { loader := recordLoader settledRecords } {} s rfl UniverseTable.builtFrom_empty rfl
  rw [hmissing] at hreports
  have hsome : ∃ m ∈ settledQuery.mentions [], m.Missing settledRecords {} s.bindings.contains := by
    decide +kernel
  rcases hreports.1.2 hsome with ⟨failure, hfailure⟩
  rcases hreports.2 failure hfailure with ⟨error, causes, herror, hflat, hcauses, hplural⟩
  exact ⟨error, causes, by rw [hfailure, herror], hflat, hcauses, hplural⟩

end PackageAlgebra
