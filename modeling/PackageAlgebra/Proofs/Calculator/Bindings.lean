import PackageAlgebra.Load.FromRecords
import PackageAlgebra.Proofs.Calculator.Runs
import PackageAlgebra.Proofs.Calculator.Sharing

/-!
# Bindings

What an evaluation leaves of what was there before.

Variables are one store for the whole of an evaluation, contexts are copied for the argument
of each context function. Neither lets an evaluation change what somebody else relies on. The
store only grows, and only by names that the expression assigns and that had no value, so a
value that has been read once can be read again. The lists of the context around an expression
are those that were there.

That is so wherever the evaluation ends. An operand may fail after it has bound a variable, and
the operands beside it still see that variable; an assignment whose value fails adds nothing
to what its value has bound, and one to a name that has a value fails and leaves it there.

## Main definitions

* `CalcState.Binds`: The variables of a state, and then others under some names.
* `Assigns`: What an assignment makes of the value of its expression.

## Theorems

* `carries_binds`: Each step of an evaluation keeps variables.
* `CalcState.Binds.get?_eq`: A variable keeps its value.
* `assigns_evaluate`: An assignment binds its name once.
* `evaluate_binds_names_once`: An evaluation keeps variables and contexts.
-/

namespace PackageAlgebra

variable {σ ρ : Type}

/-- A state has the variables of another one, and then others under some names. -/
def CalcState.Binds (names : List String) (s t : CalcState σ ρ) : Prop :=
  ∃ bound, t.bindings.entries = s.bindings.entries ++ bound ∧ ∀ b ∈ bound, b.1 ∈ names

namespace CalcState

variable {names : List String} {s t u : CalcState σ ρ} {name : String} {a : PackageSet ρ}

theorem binds_of_eq (h : t.bindings = s.bindings) : s.Binds names t :=
  ⟨[], by rw [h, List.append_nil], fun _ hb => absurd hb List.not_mem_nil⟩

theorem Binds.trans (hst : s.Binds names t) (htu : t.Binds names u) : s.Binds names u := by
  rcases hst with ⟨first, hfirst, hnames⟩
  rcases htu with ⟨second, hsecond, hmore⟩
  refine ⟨first ++ second, by rw [hsecond, hfirst, List.append_assoc], ?_⟩
  exact List.forall_mem_append.2 ⟨hnames, hmore⟩

/-- A variable keeps its value. -/
theorem Binds.get?_eq (h : s.Binds names t) (hget : s.bindings.get? name = some a) :
    t.bindings.get? name = some a := by
  rcases h with ⟨bound, hentries, -⟩
  rw [OrderedMap.get?_eq_some_iff] at hget ⊢
  rw [hentries]
  exact List.mem_append_left bound hget

/-- Where no name may be bound, no variable is new. -/
theorem Binds.bindings_eq (h : s.Binds [] t) : t.bindings = s.bindings := by
  rcases h with ⟨bound, hentries, hnames⟩
  have hnone : bound = [] := List.eq_nil_iff_forall_not_mem.2 fun b hb =>
    List.not_mem_nil (hnames b hb)
  rw [hnone, List.append_nil] at hentries
  exact OrderedMap.eq_of_entries_eq hentries

/-- The names that are new had no value, and are different. -/
theorem Binds.exists_new (h : s.Binds names t) :
    ∃ bound, t.bindings.entries = s.bindings.entries ++ bound ∧ (bound.map Prod.fst).Nodup ∧
      ∀ b ∈ bound, b.1 ∈ names ∧ s.bindings.get? b.1 = none := by
  rcases h with ⟨bound, hentries, hnames⟩
  have hnodup := t.bindings.nodup
  rw [hentries, List.map_append, List.nodup_append] at hnodup
  refine ⟨bound, hentries, hnodup.2.1, ?_⟩
  intro b hb
  refine ⟨hnames b hb, ?_⟩
  cases hget : s.bindings.get? b.1 with
  | none => rfl
  | some first =>
      have hold : b.1 ∈ s.bindings.keys := OrderedMap.mem_keys_iff.2 ⟨first, hget⟩
      exact absurd rfl (hnodup.2.2 b.1 hold b.1 (List.mem_map_of_mem hb))

end CalcState

/-- Each step of an evaluation keeps variables. -/
theorem carries_binds (parties : Calculator σ ρ) (names : List String) :
    parties.Carries names (CalcState.Binds names) where
  refl _ := CalcState.binds_of_eq rfl
  trans := CalcState.Binds.trans
  load config patterns s := by
    unfold Calc.loadNodes
    dsimp only
    split <;> exact CalcState.binds_of_eq rfl
  oracle oracle _ config ids s := by
    unfold Calc.askOracle
    dsimp only
    split <;> exact CalcState.binds_of_eq rfl
  bind name hname a s hnone :=
    ⟨[(name, a)], OrderedMap.entries_insert_of_none a hnone, List.forall_mem_singleton.2 hname⟩

/-- What an assignment makes of the value of its expression. -/
structure Assigns (name : String) (value outcome : Except Failure (PackageSet ρ) × CalcState σ ρ) :
    Prop where
  -- Without a value there is nothing to bind.
  failed : ∀ f, value.1 = .error f → outcome = (.error f, value.2)
  -- A name that has a value keeps it.
  taken : ∀ a first, value.1 = .ok a → value.2.bindings.get? name = some first →
    outcome = (.error (.error (.eval (.variableExists name))), value.2)
  -- Another name is bound to the value.
  bound : ∀ a, value.1 = .ok a → value.2.bindings.get? name = none →
    outcome = (.ok a, { value.2 with bindings := value.2.bindings.insert name a })

/-- An assignment binds its name once. -/
theorem assigns_evaluate (parties : Calculator σ ρ) (ctx : Context) (name : String) (value : Expr)
    (s : CalcState σ ρ) :
    Assigns name (evaluate parties ctx value s) (evaluate parties ctx (.assign name value) s) := by
  have hassign : evaluate parties ctx (.assign name value) = (do
      let a ← evaluate parties ctx value
      Calc.bindVariable name a
      return a) := by
    rw [evaluate]
  rw [hassign]
  rcases hvalue : evaluate parties ctx value s with ⟨outcome, t⟩
  constructor
  · rintro f rfl
    exact Calc.bind_error hvalue
  · rintro a first rfl hfirst
    rw [Calc.bind_ok hvalue]
    exact Calc.bind_error (Calc.bindVariable_of_some a hfirst)
  · rintro a rfl hnone
    rw [Calc.bind_ok hvalue]
    exact Calc.bind_ok (Calc.bindVariable_of_none a hnone)

/-- An evaluation keeps variables and contexts, however it ends. In a shared context it does what
    it does in the context that is shown. The lists that were there are the same as before, and
    the context with them. Variables that were bound have the value that they had; those that
    are new have names that the expression assigns, different ones, which were not bound
    before. An assignment binds its name if it has a value, and if the name has none. -/
theorem evaluate_binds_names_once (parties : Calculator σ ρ) (e : Expr) (c : SharedContext)
    (s : SharedState σ ρ) (hkept : c.Kept s.lists) :
    let ctx := c.view s.lists
    let run := evaluateShared parties c e s
    (run.1, run.2.state) = evaluate parties ctx e s.state ∧
      (∃ added, run.2.lists = s.lists ++ added) ∧ c.view run.2.lists = ctx ∧
      (∀ name a, s.state.bindings.get? name = some a →
        run.2.state.bindings.get? name = some a) ∧
      (∃ bound, run.2.state.bindings.entries = s.state.bindings.entries ++ bound ∧
        (bound.map Prod.fst).Nodup ∧
        ∀ b ∈ bound, b.1 ∈ e.assignedNames ∧ s.state.bindings.get? b.1 = none) ∧
      ∀ name value, e = .assign name value →
        Assigns name (evaluate parties ctx value s.state) (run.1, run.2.state) := by
  intro ctx run
  rcases evaluateShared_agrees parties e c ctx s hkept rfl with ⟨added, hrun⟩
  have hsame : (run.1, run.2.state) = evaluate parties ctx e s.state :=
    congrArg (fun r => (r.1, r.2.state)) hrun
  have hlists : run.2.lists = s.lists ++ added := congrArg (fun r => r.2.lists) hrun
  have hstate : run.2.state = (evaluate parties ctx e s.state).2 := congrArg Prod.snd hsame
  have hbinds : s.state.Binds e.assignedNames run.2.state := by
    rw [hstate]
    exact evaluate_follows (carries_binds parties e.assignedNames) e (fun _ hname => hname) ctx
      s.state
  refine ⟨hsame, ⟨added, hlists⟩, ?_, fun name a => hbinds.get?_eq, hbinds.exists_new, ?_⟩
  · rw [hlists]
    exact SharedContext.view_append hkept added
  · rintro name value rfl
    rw [hsame]
    exact assigns_evaluate parties ctx name value s.state

/-- A query that binds a name twice, and one within a context function. -/
def rebindingQuery : Expr :=
  .call "-" [
    .assign "x" (.package "a"),
    .call "goos=linux" [.assign "y" (.package "a")],
    .assign "x" (.package "b"),
    .assign "z" (.package "lost")]

/-- Two names are bound, the second assignment to one of them and that of a name that is not
    found bind nothing, and the variable of the environment is set for nobody else. -/
theorem evaluate_binds_names_once_rebinding :
    let parties : Calculator UniverseTable NodeRef :=
      { loader := recordLoader [{ id := "a" }, { id := "b" }] }
    let c : SharedContext := { env := 0, tags := 1 }
    let s : SharedState UniverseTable NodeRef :=
      ⟨{ loader := .empty, bindings := .insert .empty "kept" .empty }, [["GOOS=darwin"], []]⟩
    let run := evaluateShared parties c rebindingQuery s
    c.Kept s.lists ∧ (c.view run.2.lists).env = ["GOOS=darwin"] ∧
      run.2.state.bindings.get? "kept" = some .empty ∧
      run.2.state.bindings.keys = ["kept", "x", "y"] := by
  intro parties c s
  have hkept : c.Kept s.lists := ⟨by decide, by decide⟩
  have hshown : (c.view s.lists).env = ["GOOS=darwin"] := rfl
  have hbefore : s.state.bindings.get? "kept" = some .empty := rfl
  have hkeys : (evaluateShared parties c rebindingQuery s).2.state.bindings.keys =
      ["kept", "x", "y"] := by
    decide +kernel
  have hall := evaluate_binds_names_once parties rebindingQuery c s hkept
  generalize evaluateShared parties c rebindingQuery s = run at hkeys hall ⊢
  rcases hall with ⟨-, -, hview, hvalues, -, -⟩
  refine ⟨hkept, ?_, hvalues "kept" .empty hbefore, hkeys⟩
  rw [hview]
  exact hshown

end PackageAlgebra
