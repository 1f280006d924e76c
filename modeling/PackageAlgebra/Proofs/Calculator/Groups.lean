import PackageAlgebra.Load.FromRecords
import PackageAlgebra.Proofs.Calculator.Steps
import PackageAlgebra.Proofs.Context.Scopes

/-!
# Load Groups

Which questions an expression puts to the loader.

A query without assignments changes nothing but the loader, and what it asks does not depend
on the answers: a name that is not bound is a question, and so are the unbound names of a
juxtaposition that has nothing but names. An answer that fails is remembered and the next
question is asked all the same. So the questions can be read off the expression, from left to
right, together with the context functions around each of them, and an evaluation leaves
behind what is left behind by putting these questions one after the other.

The errors of an evaluation are those of its failed questions. They are put together on the
way up, at every list of operands in which several of them fail, and none is lost or doubled
by that: taken apart again, the error of the evaluation gives the failures in order.

## Main definitions

* `Expr.Plain`: Queries whose functions and selectors all ask for what their names say.
* `LoadGroup`: Names that are loaded together, in their scope.
* `Expr.loadGroups`: The load groups of an expression, from left to right.
* `askEach`: What putting the questions in turn leaves behind, and the failures.
* `CalcError.Plural`: An error in which several errors are at least two.
* `Reports`: The outcome of an evaluation tells of failures, all of them and no others.

## Theorems

* `loadRoots_asks`: One question.
* `evaluateEach_asks`: Operands ask one after the other.
* `evaluate_asks`: An expression asks about its load groups.
* `evaluate_asks_each_group`: The calls of the loader, and their configurations.
-/

namespace PackageAlgebra

variable {σ ρ : Type}

/-! ### Expressions -/

namespace Expr

/-- A query without assignments, in which every function and selector is known and has as many
    arguments as it takes, and nothing asks for symbols or for the tests of a set. -/
inductive Plain : Expr → Prop
  -- A name.
  | package (name : String) : Plain (.package name)
  -- A context function of one argument.
  | setting {func : String} {arg : Expr} (hfunc : isSetting func = true) (h : Plain arg) :
      Plain (.call func [arg])
  -- Another function.
  | call {func : String} {args : List Expr} {f : SetFunction} (hfunc : isSetting func = false)
      (hname : SetFunction.ofName? (Text.lower func) = some f) (hsymbols : f ≠ .deadcode)
      (harity : ∀ n, f.arity? = some n → args.length = n) (h : ∀ arg ∈ args, Plain arg) :
      Plain (.call func args)
  -- A selector.
  | select {operand : Expr} {selector : String} {selection : Selection}
      (hname : Selection.ofName? (Combinator.ofText selector).2 = some selection)
      (htest : selection ≠ .test) (h : Plain operand) : Plain (.select operand selector)

/-- Any number of queries may be joined. -/
theorem Plain.join {func : String} {op : SetOp} {args : List Expr}
    (hfunc : isSetting func = false)
    (hname : SetFunction.ofName? (Text.lower func) = some (.join op))
    (h : ∀ arg ∈ args, Plain arg) : Plain (.call func args) := by
  refine .call hfunc hname ?_ ?_ h
  · simp only [ne_eq, reduceCtorEq, not_false_eq_true]
  · intro n hn
    exact absurd hn (by simp only [SetFunction.arity?, reduceCtorEq, not_false_eq_true])

mutual

/-- The context functions of an expression. -/
def contextFunctions : Expr → List String
  | .package _ => []
  | .sequence statements => contextFunctionsAll statements
  | .assign _ value => contextFunctions value
  | .select operand _ => contextFunctions operand
  | .call func args =>
    if isSetting func then func :: contextFunctionsAll args else contextFunctionsAll args
  | .absent => []

/-- The context functions of a list of expressions. -/
def contextFunctionsAll : List Expr → List String
  | [] => []
  | e :: rest => contextFunctions e ++ contextFunctionsAll rest

end

theorem contextFunctionsAll_eq_flatMap (args : List Expr) :
    contextFunctionsAll args = args.flatMap contextFunctions := by
  induction args with
  | nil => rfl
  | cons arg rest ih => rw [contextFunctionsAll, ih, List.flatMap_cons]

end Expr

/-! ### Groups -/

/-- Names that are loaded together. -/
structure LoadGroup where
  -- The settings of the context functions around them, the innermost first.
  scope : Scope
  -- The names.
  names : List String

namespace LoadGroup

/-- The unbound ones of some names in a scope, if there are any. -/
def ofNames (bound : String → Bool) (scope : Scope) (names : List String) : List LoadGroup :=
  match names.filter fun name => !bound name with
  | [] => []
  | name :: rest => [⟨scope, name :: rest⟩]

/-- The configuration of a group in a context. -/
def config (ctx : Context) (g : LoadGroup) : LoadConfig := (ctx.within g.scope).config

/-- The question to the loader about a group. -/
def call (ctx : Context) (g : LoadGroup) : LoadCall where
  patterns := g.names
  tests := (g.config ctx).tests
  tags := (g.config ctx).tags
  env := (g.config ctx).env

/-- Ask the loader about a group: the failure, if there is one, and the state afterwards. -/
def ask (parties : Calculator σ ρ) (ctx : Context) (g : LoadGroup) (s : CalcState σ ρ) :
    List LoadError × CalcState σ ρ :=
  let answer := parties.loader.load (g.config ctx) g.names s.loader
  (match answer.1 with
    | .ok _ => []
    | .error e => [e],
    { s.record (g.call ctx) with loader := answer.2 })

end LoadGroup

namespace Expr

mutual

/-- The load groups of an expression in a scope, from left to right: the names that are not
    bound one by one, and together where nothing but names stands side by side. -/
def loadGroups (bound : String → Bool) (scope : Scope) : Expr → List LoadGroup
  | .package name => LoadGroup.ofNames bound scope [name]
  | .sequence statements => loadGroupsAll bound scope statements
  | .assign _ value => loadGroups bound scope value
  | .select operand _ => loadGroups bound scope operand
  | .call func args =>
    if isSetting func then loadGroupsAll bound (splitEntry func :: scope) args
    else if func = "" then
      match bareNames? args with
      | some names => LoadGroup.ofNames bound scope names
      | none => loadGroupsAll bound scope args
    else loadGroupsAll bound scope args
  | .absent => []

/-- The load groups of a list of expressions. -/
def loadGroupsAll (bound : String → Bool) (scope : Scope) : List Expr → List LoadGroup
  | [] => []
  | e :: rest => loadGroups bound scope e ++ loadGroupsAll bound scope rest

end

theorem loadGroupsAll_eq_flatMap (bound : String → Bool) (scope : Scope) (args : List Expr) :
    loadGroupsAll bound scope args = args.flatMap (loadGroups bound scope) := by
  induction args with
  | nil => rfl
  | cons arg rest ih => rw [loadGroupsAll, ih, List.flatMap_cons]

end Expr

/-- Ask the loader about groups in turn: the failures, and the state afterwards. -/
def askEach (parties : Calculator σ ρ) (ctx : Context) :
    List LoadGroup → CalcState σ ρ → List LoadError × CalcState σ ρ
  | [], s => ([], s)
  | g :: rest, s =>
    let first := g.ask parties ctx s
    let others := askEach parties ctx rest first.2
    (first.1 ++ others.1, others.2)

variable {parties : Calculator σ ρ} {ctx : Context} {s t : CalcState σ ρ} {scope : Scope}
  {groups others : List LoadGroup}

theorem askEach_append :
    askEach parties ctx (groups ++ others) s =
      ((askEach parties ctx groups s).1 ++
          (askEach parties ctx others (askEach parties ctx groups s).2).1,
        (askEach parties ctx others (askEach parties ctx groups s).2).2) := by
  induction groups generalizing s with
  | nil => rfl
  | cons g rest ih => simp only [List.cons_append, askEach, ih, List.append_assoc]

/-- Each question is written down and answered, and nothing else happens. -/
theorem state_askEach :
    (askEach parties ctx groups s).2 = { s with
      loader := groups.foldl (fun kept g => (parties.loader.load (g.config ctx) g.names kept).2)
        s.loader
      journal := s.journal ++ groups.map (LoadGroup.call ctx) } := by
  induction groups generalizing s with
  | nil => rw [askEach, List.map_nil, List.append_nil, List.foldl_nil]
  | cons g rest ih =>
      change (askEach parties ctx rest (g.ask parties ctx s).2).2 = _
      have hjournal : (g.ask parties ctx s).2.journal = s.journal ++ [g.call ctx] := rfl
      rw [ih, hjournal, List.append_assoc, List.singleton_append, List.map_cons]
      rfl

/-! ### Errors -/

/-- An error in which several errors are at least two, at every depth. -/
inductive CalcError.Plural : CalcError → Prop
  | query (cause : QueryError) : Plural (.query cause)
  | eval (cause : EvalError) : Plural (.eval cause)
  | load (cause : LoadError) : Plural (.load cause)
  | several {errors : List CalcError} (hcount : 2 ≤ errors.length)
      (h : ∀ e ∈ errors, Plural e) : Plural (.several errors)

namespace CalcError

theorem flattenAll_eq_flatMap (errors : List CalcError) :
    flattenAll errors = errors.flatMap flatten := by
  induction errors with
  | nil => rfl
  | cons e rest ih => rw [flattenAll, ih, List.flatMap_cons]

/-- Errors that were put together can be taken apart. -/
theorem flatten_combine (errors : List CalcError) :
    (combine errors).flatten = errors.flatMap flatten := by
  match errors with
  | [] => rfl
  | [e] => exact (List.append_nil _).symm
  | e :: f :: rest =>
      change flattenAll (e :: f :: rest) = _
      exact flattenAll_eq_flatMap _

theorem plural_combine {errors : List CalcError} (hne : errors ≠ [])
    (h : ∀ e ∈ errors, e.Plural) : (combine errors).Plural := by
  match errors with
  | [] => exact absurd rfl hne
  | [e] => exact h e List.mem_cons_self
  | e :: f :: rest => exact .several (by simp only [List.length_cons]; omega) h

end CalcError

/-- An outcome tells of failures, all of them and no others: there is a value if nothing has
    failed, and else an error that holds the failures in order. -/
inductive Reports {α : Type} : Except Failure α → List LoadError → Prop
  | value (a : α) : Reports (.ok a) []
  | failure {e : CalcError} {causes : List LoadError} (hne : causes ≠ [])
      (hflat : e.flatten = causes.map .load) (hplural : e.Plural) :
      Reports (.error (.error e)) causes

/-! ### Evaluation -/

/-- A calculation comes down to questions to the loader: it leaves behind what they leave
    behind, and tells of their failures. -/
def Calc.Asks {α : Type} (parties : Calculator σ ρ) (ctx : Context) (groups : List LoadGroup)
    (s : CalcState σ ρ) (c : Calc σ ρ α) : Prop :=
  ∃ outcome causes t, c s = (outcome, t) ∧ askEach parties ctx groups s = (causes, t) ∧
    Reports outcome causes

open Calc

/-- A calculation that only works on the value of another one asks nothing more. -/
theorem Calc.Asks.bind_value {α β : Type} {c : Calc σ ρ α} {f : α → Calc σ ρ β}
    (h : c.Asks parties ctx groups s) (hf : ∀ a t, ∃ b, f a t = (.ok b, t)) :
    (c >>= f).Asks parties ctx groups s := by
  rcases h with ⟨outcome, causes, t, hc, hask, hreports⟩
  cases hreports with
  | value a =>
      rcases hf a t with ⟨b, hb⟩
      exact ⟨_, _, t, (bind_ok hc).trans hb, hask, .value b⟩
  | failure hne hflat hplural =>
      exact ⟨_, _, t, bind_error hc, hask, .failure hne hflat hplural⟩

/-- One question. -/
theorem loadRoots_asks (g : LoadGroup) :
    (loadRoots parties (g.config ctx) g.names).Asks parties ctx [g] s := by
  unfold loadRoots
  refine Asks.bind_value ?_ fun roots t => ⟨_, pure_apply (PackageSet.ofRoots roots)⟩
  rcases hload : parties.loader.load (g.config ctx) g.names s.loader with ⟨answer, kept⟩
  cases answer with
  | error e =>
      refine ⟨.error (.error (.load e)), [e], { s.record (g.call ctx) with loader := kept },
        ?_, ?_, .failure (List.cons_ne_nil e []) rfl (.load e)⟩
      · simp only [loadNodes, CalcState.record, hload, LoadGroup.call]
      · simp only [askEach, LoadGroup.ask, hload, List.append_nil]
  | ok roots =>
      refine ⟨.ok roots, [], { s.record (g.call ctx) with loader := kept }, ?_, ?_, .value roots⟩
      · simp only [loadNodes, CalcState.record, hload, LoadGroup.call]
      · simp only [askEach, LoadGroup.ask, hload, List.append_nil]

/-- A name is a question unless it is bound. -/
theorem evaluate_package_asks (name : String) :
    (evaluate parties (ctx.within scope) (.package name)).Asks parties ctx
      (LoadGroup.ofNames s.bindings.contains scope [name]) s := by
  unfold LoadGroup.ofNames Asks
  rw [evaluate_package, List.filter_singleton, OrderedMap.contains_eq_isSome]
  cases s.bindings.get? name with
  | some a => exact ⟨.ok a, [], s, rfl, rfl, .value a⟩
  | none => exact loadRoots_asks ⟨scope, [name]⟩

/-- The names of a juxtaposition that are not bound are one question, if there are any. -/
theorem evaluateGroup_asks (names : List String) :
    (evaluateGroup parties (ctx.within scope) names).Asks parties ctx
      (LoadGroup.ofNames s.bindings.contains scope names) s := by
  unfold evaluateGroup LoadGroup.ofNames Asks
  have hget : (get : Calc σ ρ (CalcState σ ρ)) s = (.ok s, s) := rfl
  rw [bind_ok hget]
  cases names.filter fun name => !s.bindings.contains name with
  | nil => exact ⟨_, [], s, rfl, rfl, .value _⟩
  | cons name rest =>
      exact (loadRoots_asks ⟨scope, name :: rest⟩).bind_value fun a t => ⟨_, pure_apply _⟩

/-- Where there are no names among names side by side, there is nothing. -/
theorem eq_nil_of_bareNames? {args : List Expr} (h : bareNames? args = some []) : args = [] := by
  cases args with
  | nil => rfl
  | cons arg rest =>
      cases arg with
      | package name =>
          rw [bareNames?, Option.map_eq_some_iff] at h
          rcases h with ⟨names, -, hcons⟩
          exact absurd hcons (List.cons_ne_nil name names)
      | _ => exact absurd h (by simp only [bareNames?, reduceCtorEq, not_false_eq_true])

/-- Operands ask one after the other, also those after one that fails. Their errors hold the
    failures in order. -/
theorem evaluateEach_asks {args : List Expr}
    (h : ∀ arg ∈ args, ∀ s, (evaluate parties (ctx.within scope) arg).Asks parties ctx
      (arg.loadGroups s.bindings.contains scope) s) :
    ∃ operands errors causes t,
      evaluateEach parties (ctx.within scope) args s = (.ok (operands, errors), t) ∧
      askEach parties ctx (Expr.loadGroupsAll s.bindings.contains scope args) s = (causes, t) ∧
      errors.flatMap CalcError.flatten = causes.map .load ∧
      ∀ e ∈ errors, e.Plural ∧ e.flatten ≠ [] := by
  induction args generalizing s with
  | nil => exact ⟨[], [], [], s, rfl, rfl, rfl, fun _ he => absurd he List.not_mem_nil⟩
  | cons arg rest ih =>
      rcases h arg List.mem_cons_self s with ⟨outcome, first, t, harg, hfirst, hreports⟩
      -- Nothing has been bound meanwhile, so the others ask what they would have asked at first.
      have hbindings : t.bindings = s.bindings := by
        have ht : t = (askEach parties ctx (arg.loadGroups s.bindings.contains scope) s).2 := by
          rw [hfirst]
        rw [ht, state_askEach]
      rcases ih (s := t) fun e he => h e (List.mem_cons_of_mem arg he) with
        ⟨operands, errors, causes, u, hrest, hothers, hflat, hplural⟩
      rw [hbindings] at hothers
      have hask : askEach parties ctx (Expr.loadGroupsAll s.bindings.contains scope (arg :: rest))
          s = (first ++ causes, u) := by
        rw [Expr.loadGroupsAll, askEach_append, hfirst, hothers]
      cases hreports with
      | value a =>
          exact ⟨a :: operands, errors, causes, u, evaluateEach_cons_ok harg hrest, hask, hflat,
            hplural⟩
      | @failure cause _ hne hcause hpluralCause =>
          refine ⟨operands, cause :: errors, first ++ causes, u,
            evaluateEach_cons_error harg hrest, hask, ?_, ?_⟩
          · rw [List.flatMap_cons, hcause, hflat, List.map_append]
          · intro e he
            rcases List.mem_cons.1 he with rfl | he
            · exact ⟨hpluralCause, by rw [hcause]; exact fun h => hne (List.map_eq_nil_iff.1 h)⟩
            · exact hplural e he

/-- A function asks what its operands ask. -/
theorem evaluate_operands_asks {func : String} {args : List Expr} {f : SetFunction}
    (hsetting : Expr.isSetting func = false) (hf : SetFunction.ofName? (Text.lower func) = some f)
    (hsymbols : f ≠ .deadcode) (harity : ∀ n, f.arity? = some n → args.length = n)
    (hgroup : func = "" → ∀ name names, bareNames? args ≠ some (name :: names))
    (h : ∀ arg ∈ args, ∀ s, (evaluate parties (ctx.within scope) arg).Asks parties ctx
      (arg.loadGroups s.bindings.contains scope) s) :
    (evaluate parties (ctx.within scope) (.call func args)).Asks parties ctx
      (Expr.loadGroupsAll s.bindings.contains scope args) s := by
  rcases evaluateEach_asks (s := s) h with
    ⟨operands, errors, causes, t, heach, hask, hflat, herrors⟩
  rw [evaluate_operands hsetting hf (not_any_arity harity) hgroup]
  unfold Asks
  rw [bind_ok heach]
  cases errors with
  | nil =>
      have hcauses : causes = [] := List.map_eq_nil_iff.1 hflat.symm
      have hvalue : ∃ a, applyFunction parties (ctx.within scope) f operands t = (.ok a, t) :=
        applyFunction_ok hsymbols operands
      rcases hvalue with ⟨a, ha⟩
      exact ⟨.ok a, [], t, ha, hcauses ▸ hask, .value a⟩
  | cons e rest =>
      -- Each error holds a failure, so there are failures if there are errors.
      refine ⟨_, causes, t, rfl, hask, .failure ?_ ?_ ?_⟩
      · rintro rfl
        rw [List.flatMap_cons, List.map_nil] at hflat
        exact (herrors e List.mem_cons_self).2 (List.append_eq_nil_iff.1 hflat).1
      · rw [CalcError.flatten_combine, hflat]
      · exact CalcError.plural_combine (List.cons_ne_nil e rest) fun e he => (herrors e he).1

/-- An expression asks about its load groups, from left to right. -/
theorem evaluate_asks {e : Expr} (he : e.Plain) (scope : Scope) (s : CalcState σ ρ) :
    (evaluate parties (ctx.within scope) e).Asks parties ctx
      (e.loadGroups s.bindings.contains scope) s := by
  induction he generalizing scope s with
  | package name => exact evaluate_package_asks name
  | @setting func arg hfunc _ ih =>
      rw [evaluate_setting hfunc, Expr.loadGroups, if_pos hfunc, Expr.loadGroupsAll,
        Expr.loadGroupsAll, List.append_nil]
      exact ih (splitEntry func :: scope) s
  | @call func args f hfunc hname hsymbols harity _ ih =>
      rw [Expr.loadGroups, if_neg (Bool.eq_false_iff.1 hfunc)]
      by_cases hgroup : func = ""
      · -- Only names side by side are asked about together, and only if there are any.
        subst hgroup
        rw [if_pos rfl]
        rcases hnames : bareNames? args with _ | names
        · exact evaluate_operands_asks hfunc hname hsymbols harity
            (fun _ name names h => by rw [hnames] at h; cases h) fun arg harg => ih arg harg scope
        · cases names with
          | nil =>
              cases eq_nil_of_bareNames? hnames
              exact evaluate_operands_asks hfunc hname hsymbols harity
                (fun _ name names h => by cases h) fun arg harg => ih arg harg scope
          | cons name names =>
              rw [evaluate_group hnames]
              exact evaluateGroup_asks (name :: names)
      · rw [if_neg hgroup]
        exact evaluate_operands_asks hfunc hname hsymbols harity (fun h => absurd h hgroup)
          fun arg harg => ih arg harg scope
  | @select operand selector selection hname htest _ ih =>
      rw [evaluate_selection hname htest, Expr.loadGroups]
      exact (ih scope s).bind_value fun a t => ⟨_, bind_ok catalog_apply⟩

/-! ### Configurations -/

theorem LoadGroup.scope_of_mem_ofNames {bound : String → Bool} {names : List String}
    {g : LoadGroup} (h : g ∈ ofNames bound scope names) : g.scope = scope := by
  unfold ofNames at h
  split at h
  · exact absurd h List.not_mem_nil
  · rw [List.mem_singleton.1 h]

/-- Around a load group are the context functions of the expression, and what was around the
    expression itself. -/
theorem plain_of_mem_loadGroups {e : Expr} (he : e.Plain) {bound : String → Bool}
    (hkeys : ∀ func ∈ e.contextFunctions, '=' ∉ (splitEntry func).1.toList)
    (hscope : scope.Plain) {g : LoadGroup} (hg : g ∈ e.loadGroups bound scope) : g.scope.Plain := by
  induction he generalizing scope with
  | package name =>
      rw [LoadGroup.scope_of_mem_ofNames hg]
      exact hscope
  | @setting func arg hfunc _ ih =>
      rw [Expr.contextFunctions, if_pos hfunc, Expr.contextFunctionsAll_eq_flatMap,
        List.flatMap_singleton] at hkeys
      rw [Expr.loadGroups, if_pos hfunc, Expr.loadGroupsAll_eq_flatMap,
        List.flatMap_singleton] at hg
      have hinner : Scope.Plain (splitEntry func :: scope) := by
        intro setting hsetting
        rcases List.mem_cons.1 hsetting with rfl | hsetting
        · exact ⟨hkeys func List.mem_cons_self, (entryOf_splitEntry hfunc).2⟩
        · exact hscope setting hsetting
      exact ih (fun f hf => hkeys f (List.mem_cons_of_mem func hf)) hinner hg
  | @call func args f hfunc _ _ _ _ ih =>
      rw [Expr.contextFunctions, if_neg (Bool.eq_false_iff.1 hfunc),
        Expr.contextFunctionsAll_eq_flatMap] at hkeys
      have hargs : g ∈ Expr.loadGroupsAll bound scope args → g.scope.Plain := by
        intro hg
        rw [Expr.loadGroupsAll_eq_flatMap] at hg
        rcases List.mem_flatMap.1 hg with ⟨arg, harg, hg⟩
        exact ih arg harg (fun f hf => hkeys f (List.mem_flatMap.2 ⟨arg, harg, hf⟩)) hscope hg
      rw [Expr.loadGroups, if_neg (Bool.eq_false_iff.1 hfunc)] at hg
      split at hg
      · split at hg
        · rw [LoadGroup.scope_of_mem_ofNames hg]
          exact hscope
        · exact hargs hg
      · exact hargs hg
  | select _ _ _ ih => exact ih hkeys hscope hg

/-- The loader is asked once about each load group, from left to right, whichever of them
    fail, and is told the configuration that the context functions around it ask for. -/
theorem evaluate_asks_each_group {e : Expr} (he : e.Plain)
    (hkeys : ∀ func ∈ e.contextFunctions, '=' ∉ (splitEntry func).1.toList)
    (parties : Calculator σ ρ) (cancelled : Nat → Bool) (s : CalcState σ ρ) :
    let ctx := Context.make [] [] defaultEnvKeys cancelled
    let groups := e.loadGroups s.bindings.contains []
    (evaluate parties ctx e s).2 = { s with
        loader := groups.foldl (fun kept g => (parties.loader.load (g.config ctx) g.names kept).2)
          s.loader
        journal := s.journal ++ groups.map (LoadGroup.call ctx) } ∧
      ∀ g ∈ groups, (g.config ctx).Reflects g.scope := by
  intro ctx groups
  constructor
  · have hasks : (evaluate parties ctx e).Asks parties ctx groups s := evaluate_asks he [] s
    rcases hasks with ⟨outcome, causes, t, heval, hask, -⟩
    have hstate : t = (askEach parties ctx groups s).2 := by rw [hask]
    rw [heval, hstate, state_askEach]
  · intro g hg
    have hnone : Scope.Plain [] := fun _ h => absurd h List.not_mem_nil
    exact Context.reflects_config_within cancelled (plain_of_mem_loadGroups he hkeys hnone hg)

/-- A query with settings around settings and with a name that is not found. -/
def settledQuery : Expr :=
  .call "+" [
    .call "GOOS=linux" [.call "-" [.package "lost", .call "TEST=1" [
      .call "" [.package "a", .package "kept", .package "b"]]]],
    .select (.call "Fast=1" [.call "fast=0" [.package "c"]]) "+imp",
    .call "fast=1" [.package "d"]]

theorem plain_settledQuery : settledQuery.Plain := by
  have hname : ∀ name, Expr.Plain (.package name) := .package
  have hgroup : Expr.Plain (.call "" [.package "a", .package "kept", .package "b"]) :=
    .join rfl rfl fun arg harg => by
      simp only [List.mem_cons, List.not_mem_nil, or_false] at harg
      rcases harg with rfl | rfl | rfl <;> exact hname _
  have hlinux : Expr.Plain (.call "GOOS=linux" [.call "-" [.package "lost", .call "TEST=1" [
      .call "" [.package "a", .package "kept", .package "b"]]]]) :=
    .setting rfl (.join rfl rfl fun arg harg => by
      simp only [List.mem_cons, List.not_mem_nil, or_false] at harg
      rcases harg with rfl | rfl
      · exact hname "lost"
      · exact .setting rfl hgroup)
  have hfast : Expr.Plain (.select (.call "Fast=1" [.call "fast=0" [.package "c"]]) "+imp") :=
    .select rfl (by simp only [ne_eq, reduceCtorEq, not_false_eq_true])
      (.setting rfl (.setting rfl (hname "c")))
  exact .join rfl rfl fun arg harg => by
    simp only [List.mem_cons, List.not_mem_nil, or_false] at harg
    rcases harg with rfl | rfl | rfl
    · exact hlinux
    · exact hfast
    · exact .setting rfl (hname "d")

/-- Four groups are asked about, although nothing is found for the first. -/
theorem evaluate_asks_each_group_settled :
    let s : CalcState UniverseTable NodeRef :=
      { loader := .empty, bindings := .insert .empty "kept" .empty }
    let ctx := Context.make [] [] defaultEnvKeys fun _ => false
    (evaluate { loader := recordLoader [] } ctx settledQuery s).2.journal =
      [⟨["lost"], false, [], ["GOOS=linux"]⟩, ⟨["a", "b"], true, [], ["GOOS=linux"]⟩,
        ⟨["c"], false, [], []⟩, ⟨["d"], false, ["fast"], []⟩] := by
  intro s ctx
  have hkeys : ∀ func ∈ settledQuery.contextFunctions, '=' ∉ (splitEntry func).1.toList := by
    decide
  have hall := evaluate_asks_each_group plain_settledQuery hkeys { loader := recordLoader [] }
    (fun _ => false) s
  rw [hall.1]
  decide +kernel

end PackageAlgebra
