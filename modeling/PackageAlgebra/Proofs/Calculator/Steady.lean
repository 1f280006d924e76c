import PackageAlgebra.Load.Open
import PackageAlgebra.Proofs.Calculator.Bindings
import PackageAlgebra.Proofs.Calculator.Service
import PackageAlgebra.Proofs.Package.Agreement

/-!
# Evaluations from Different States

What an evaluation finds does not depend on what was evaluated before it.

Whatever is evaluated leaves universes behind, and later evaluations see them: a reference leads
to a node once its universe has been built, and to nothing before. So two evaluations of one
expression, from two states with the same variables, may go on with different catalogs. Still they
come to the same end. Each node in a set refers to one universe alone, and that one has been built
by the time that the node is found; so both catalogs lead from it to the same nodes. The states of
the two evaluations are `Twins` then: they have the same variables, and these hold nodes that both
states know.

An oracle may ask the loader for all packages, and the scan of a source tree may be cancelled then
although no load was, or the other way round. But an oracle is only asked about members of a set,
and where there are members a universe has been built, and the scan has been made.

Variables are seen by all that is evaluated later, so it is only expressions without assignments
that may be evaluated in any order.

## Main definitions

* `Loader.Service.Shared`: A node refers to a universe that two states have.
* `Loader.Service.Twins`: Two states differ in nothing that an evaluation can tell.
* `Calc.Steady`: A calculation does the same from two states.
* `Oracle.Steady`: What an oracle answers does not depend on the state.
* `Calculator.Reached`: The states that evaluations leave behind.
* `Calculator.SteadyFrom`: A calculator is a service with a steady oracle.
* `Oracle.Consistent`: An oracle is steady if all packages of a loader are.

## Theorems

* `Loader.Service.agreesWith_shared`: Nodes that are shared lead to the same nodes.
* `Calc.Steady.bind`, `Calc.Steady.attempt`: Calculations put together.
* `evaluate_steady`: Each expression is evaluated to the same end from twins.
* `evaluateEach_eq_ok_iff`: Operands without assignments, in any order.
* `Calculator.Reached.twins`: Each state that is reached is its own twin.
* `Settings.consistent_oracle`: The oracles that calculators are opened with.
* `steadyFrom_recordLoader`, `steadyFrom_sourceLoader`: The two loaders, with such an oracle.
-/

namespace PackageAlgebra

open Calc

variable {σ α β : Type} {cancelled : Nat → Bool} {l : Loader σ NodeRef}

namespace Loader.Service

section

variable (k : l.Service cancelled)

/-- A node refers to one universe alone, and two states have it. -/
def Shared (s t : σ) (p : Node NodeRef) : Prop :=
  ∃ v, (k.table s).get? v = some (k.build v) ∧ (k.table t).get? v = some (k.build v) ∧
    ∀ e ∈ p.imports.entries, e.2.variant = v

/-- Two states have the same variables, and these hold nodes that both states know. -/
structure Twins (s t : CalcState σ NodeRef) : Prop where
  -- The loader may be in the one state.
  first : k.States s.loader
  -- The loader may be in the other state.
  second : k.States t.loader
  -- The variables are the same.
  bindings : t.bindings = s.bindings
  -- They hold nodes that are shared.
  shared : ∀ name a, s.bindings.get? name = some a → a.Filed (k.Shared s.loader t.loader)

/-- Two states have what two others have, and more. -/
structure Grows (s t s' t' : CalcState σ NodeRef) : Prop where
  -- The one state has what it had.
  first : (k.table s.loader).KeptIn (k.table s'.loader)
  -- The other state has what it had.
  second : (k.table t.loader).KeptIn (k.table t'.loader)

end

variable {k : l.Service cancelled} {s t s' t' s'' t'' : CalcState σ NodeRef}
  {a : PackageSet NodeRef}

/-- Nodes that are shared lead to nodes that are shared, and to the same ones from both states. -/
theorem agreesWith_shared (k : l.Service cancelled) (s t : σ) :
    (l.catalog s).AgreesWith (l.catalog t) (k.Shared s t) where
  keeps.imported := by
    rintro p q ⟨v, hs, ht, hp⟩ hq
    rcases k.exists_get?_of_mem_imported hs hp hq with ⟨id, hid⟩
    exact ⟨v, hs, ht, k.staysIn v id q hid⟩
  keeps.reduced := by
    rintro p ⟨v, hs, ht, hp⟩
    exact ⟨v, hs, ht, fun e he => hp e (List.mem_filter.1 he).1⟩
  get? := by
    rintro p ⟨v, hs, ht, hp⟩ e he
    rw [k.get?_catalog hs (hp e he), k.get?_catalog ht (hp e he)]

/-- What an answer finds is shared by all states that have its universe. -/
theorem shared_of_answer {config : LoadConfig} {names : List String} {roots : List (Node NodeRef)}
    {s t : σ} (hs : (k.table s).get? (k.variant config) = some (k.build (k.variant config)))
    (ht : (k.table t).get? (k.variant config) = some (k.build (k.variant config)))
    (h : k.answer config names = .ok roots) : ∀ p ∈ roots, k.Shared s t p := by
  intro p hp
  rcases k.exists_get?_of_answer h hp with ⟨id, hid⟩
  exact ⟨_, hs, ht, k.staysIn _ id p hid⟩

namespace Grows

theorem refl (k : l.Service cancelled) (s t : CalcState σ NodeRef) : k.Grows s t s t :=
  ⟨fun _ _ h => h, fun _ _ h => h⟩

theorem trans (h : k.Grows s t s' t') (h' : k.Grows s' t' s'' t'') : k.Grows s t s'' t'' :=
  ⟨fun v u hu => h'.first v u (h.first v u hu), fun v u hu => h'.second v u (h.second v u hu)⟩

/-- What is shared stays shared. -/
theorem filed (h : k.Grows s t s' t') (ha : a.Filed (k.Shared s.loader t.loader)) :
    a.Filed (k.Shared s'.loader t'.loader) := by
  refine ha.mono ?_
  rintro p ⟨v, hs, ht, hp⟩
  exact ⟨v, h.first v _ hs, h.second v _ ht, hp⟩

end Grows

/-- Twins are twins after what leaves the variables alone. -/
theorem Twins.grow (h : k.Twins s t) (hgrows : k.Grows s t s' t') (hs : k.States s'.loader)
    (ht : k.States t'.loader) (hbs : s'.bindings = s.bindings) (hbt : t'.bindings = t.bindings) :
    k.Twins s' t' := by
  refine ⟨hs, ht, by rw [hbs, hbt, h.bindings], fun name a ha => ?_⟩
  rw [hbs] at ha
  exact hgrows.filed (h.shared name a ha)

end Loader.Service

/-! ### Calculations -/

/-- A calculation has the same outcome from two states, and leaves twins behind. Its value, if it
    has one, is as it should be there. -/
def Calc.Steady (k : l.Service cancelled)
    (R : CalcState σ NodeRef → CalcState σ NodeRef → α → Prop) (c : Calc σ NodeRef α)
    (s t : CalcState σ NodeRef) : Prop :=
  ∃ outcome s' t', c s = (outcome, s') ∧ c t = (outcome, t') ∧ k.Grows s t s' t' ∧
    k.Twins s' t' ∧ ∀ a, outcome = .ok a → R s' t' a

/-- Once a universe has been built, what an oracle answers does not depend on the state of the
    loader, and it leaves the loader as a service may leave it. -/
def Oracle.Steady (k : l.Service cancelled) (oracle : Oracle σ) : Prop :=
  ∀ (config : LoadConfig) ids, config.cancelled = cancelled → ∃ outcome, ∀ s v u, k.States s →
    (k.table s).get? v = some u →
      ∃ t, oracle.symbolGraph config ids s = (outcome, t) ∧ k.States t ∧
        (k.table s).KeptIn (k.table t)

/-- The oracle of a calculator is steady, if there is one. -/
def Calculator.AsksSteadily (parties : Calculator σ NodeRef)
    (k : parties.loader.Service cancelled) : Prop :=
  ∀ oracle, parties.oracle = some oracle → oracle.Steady k

variable {parties : Calculator σ NodeRef} {k : parties.loader.Service cancelled} {ctx : Context}
  {s t : CalcState σ NodeRef}

namespace Calc

section

variable {R : CalcState σ NodeRef → CalcState σ NodeRef → α → Prop}
  {R' : CalcState σ NodeRef → CalcState σ NodeRef → β → Prop} {c : Calc σ NodeRef α}
  {f : α → Calc σ NodeRef β}

theorem Steady.pure {a : α} (h : k.Twins s t) (ha : R s t a) :
    (Pure.pure a : Calc σ NodeRef α).Steady k R s t :=
  ⟨.ok a, s, t, rfl, rfl, .refl k s t, h, fun _ hvalue => Except.ok.inj hvalue ▸ ha⟩

theorem Steady.fail (h : k.Twins s t) (e : CalcError) :
    (Calc.fail e : Calc σ NodeRef α).Steady k R s t :=
  ⟨.error (.error e), s, t, rfl, rfl, .refl k s t, h, fun _ hvalue => by cases hvalue⟩

/-- One calculation after another. -/
theorem Steady.bind (hc : c.Steady k R s t)
    (hf : ∀ a s' t', k.Grows s t s' t' → k.Twins s' t' → R s' t' a → (f a).Steady k R' s' t') :
    (c >>= f).Steady k R' s t := by
  rcases hc with ⟨e | a, s', t', hs, ht, hgrows, htwins, hvalue⟩
  · exact ⟨.error e, s', t', bind_error hs, bind_error ht, hgrows, htwins,
      fun _ hnone => by cases hnone⟩
  · rcases hf a s' t' hgrows htwins (hvalue a rfl) with
      ⟨outcome, s'', t'', hs', ht', hmore, htwins', hvalue'⟩
    exact ⟨outcome, s'', t'', (bind_ok hs).trans hs', (bind_ok ht).trans ht', hgrows.trans hmore,
      htwins', hvalue'⟩

/-- A failure that becomes an outcome is the same outcome, and leaves the same twins behind. -/
theorem Steady.attempt (hc : c.Steady k R s t) :
    (Calc.attempt c).Steady k (fun s t outcome => ∀ a, outcome = .ok a → R s t a) s t := by
  rcases hc with ⟨(e | e) | a, s', t', hs, ht, hgrows, htwins, hvalue⟩
  · refine ⟨_, s', t', attempt_error hs, attempt_error ht, hgrows, htwins, ?_⟩
    intro outcome houtcome a ha
    rw [← Except.ok.inj houtcome] at ha
    cases ha
  · -- A fault ends both calculations.
    exact ⟨_, s', t', attempt_fault hs, attempt_fault ht, hgrows, htwins,
      fun _ hnone => by cases hnone⟩
  · refine ⟨_, s', t', attempt_ok hs, attempt_ok ht, hgrows, htwins, ?_⟩
    intro outcome houtcome b hb
    rw [← Except.ok.inj houtcome] at hb
    exact Except.ok.inj hb ▸ hvalue a rfl

/-- The catalogs of twins are different, but what is made of them may be the same. -/
theorem steady_catalog (h : k.Twins s t) {g : Catalog NodeRef → α}
    (hsame : g (parties.loader.catalog s.loader) = g (parties.loader.catalog t.loader))
    (ha : R s t (g (parties.loader.catalog s.loader))) :
    (do return g (← catalog parties)).Steady k R s t :=
  ⟨_, s, t, rfl, by rw [hsame]; rfl, .refl k s t, h, fun _ hvalue => Except.ok.inj hvalue ▸ ha⟩

end

/-! ### Steps -/

/-- The value of a calculation is a set of nodes that are shared. -/
abbrev SteadySet (k : l.Service cancelled) (c : Calc σ NodeRef (PackageSet NodeRef))
    (s t : CalcState σ NodeRef) : Prop :=
  c.Steady k (fun s t a => a.Filed (k.Shared s.loader t.loader)) s t

/-- Twins have the same variables. -/
theorem steady_lookup? (h : k.Twins s t) (name : String) :
    (lookup? name : Calc σ NodeRef _).Steady k
      (fun s t bound => ∀ a, bound = some a → a.Filed (k.Shared s.loader t.loader)) s t := by
  refine ⟨_, s, t, lookup?_apply name, ?_, .refl k s t, h, fun bound hbound a ha => ?_⟩
  · rw [lookup?_apply, h.bindings]
  · rw [← Except.ok.inj hbound] at ha
    exact h.shared name a ha

/-- What the loader finds is shared. -/
theorem steady_loadRoots (h : k.Twins s t) {config : LoadConfig}
    (hconfig : config.cancelled = cancelled) (names : List String) :
    SteadySet k (loadRoots parties config names) s t := by
  rcases loadRoots_eq k hconfig h.first names with ⟨s', hs, hs', hbs, hkept, hbuilt⟩
  rcases loadRoots_eq k hconfig h.second names with ⟨t', ht, ht', hbt, hkept', hbuilt'⟩
  refine ⟨_, s', t', hs, ht, ⟨hkept, hkept'⟩, h.grow ⟨hkept, hkept'⟩ hs' ht' hbs hbt, ?_⟩
  intro a ha
  have houtcome := ha
  unfold Loader.Service.outcome at ha
  split at ha
  · next roots hroots =>
      rw [← Except.ok.inj ha]
      exact .ofRoots (Loader.Service.shared_of_answer (hbuilt a houtcome) (hbuilt' a houtcome)
        hroots)
  · cases ha

/-- An oracle is asked about nodes that are shared, and leaves the variables alone. -/
theorem steady_askOracle (h : k.Twins s t) {oracle : Oracle σ} (horacle : oracle.Steady k)
    {config : LoadConfig} (hconfig : config.cancelled = cancelled) (ids : List String)
    {p : Node NodeRef} (hp : k.Shared s.loader t.loader p) :
    (askOracle oracle config ids : Calc σ NodeRef _).Steady k (fun _ _ _ => True) s t := by
  rcases horacle config ids hconfig with ⟨outcome, hall⟩
  have hrun : ∀ {s : CalcState σ NodeRef} {kept : σ},
      oracle.symbolGraph config ids s.loader = (outcome, kept) →
        (askOracle oracle config ids : Calc σ NodeRef _) s =
          (outcome, { s with loader := kept, asked := s.asked ++ [ids] }) := by
    intro s kept hanswer
    unfold askOracle
    simp only [hanswer]
    cases outcome <;> rfl
  rcases hp with ⟨v, hbuilt, hbuilt', -⟩
  rcases hall s.loader v _ h.first hbuilt with ⟨kept, hanswer, hs, hkept⟩
  rcases hall t.loader v _ h.second hbuilt' with ⟨kept', hanswer', ht, hkept'⟩
  exact ⟨outcome, _, _, hrun hanswer, hrun hanswer', ⟨hkept, hkept'⟩,
    h.grow ⟨hkept, hkept'⟩ hs ht rfl rfl, fun _ _ => trivial⟩

/-- A name is bound in both states, or in neither. -/
theorem steady_bindVariable (h : k.Twins s t) (name : String) {a : PackageSet NodeRef}
    (ha : a.Filed (k.Shared s.loader t.loader)) :
    (bindVariable name a : Calc σ NodeRef Unit).Steady k (fun _ _ _ => True) s t := by
  cases hbound : s.bindings.get? name with
  | some first =>
      exact ⟨_, s, t, bindVariable_of_some a hbound,
        bindVariable_of_some a (h.bindings.symm ▸ hbound), .refl k s t, h, fun _ _ => trivial⟩
  | none =>
      refine ⟨_, _, _, bindVariable_of_none a hbound,
        bindVariable_of_none a (h.bindings.symm ▸ hbound), ⟨fun _ _ hu => hu, fun _ _ hu => hu⟩,
        ⟨h.first, h.second, ?_, fun other b hb => ?_⟩, fun _ _ => trivial⟩
      · dsimp only
        rw [h.bindings]
      · rw [OrderedMap.get?_insert] at hb
        by_cases hname : other = name
        · rw [if_pos hname, Option.some.injEq] at hb
          exact hb ▸ ha
        · rw [if_neg hname] at hb
          exact h.shared other b hb

theorem steady_deadcode (h : k.Twins s t)
    (horacle : parties.AsksSteadily k) {config : LoadConfig}
    (hconfig : config.cancelled = cancelled) {a : PackageSet NodeRef}
    (ha : a.Filed (k.Shared s.loader t.loader)) :
    SteadySet k (deadcode parties config a) s t := by
  unfold deadcode
  split
  · exact .fail h _
  · next oracle hsome =>
    split
    · exact .fail h _
    · split
      · exact .pure h .empty
      · next hmembers =>
          -- Where there are members, a universe has been built.
          rcases List.exists_mem_of_ne_nil _ (fun hnil => hmembers (List.isEmpty_iff.2 hnil)) with
            ⟨e, he⟩
          exact (steady_askOracle h (horacle oracle hsome) hconfig _ (ha e he).2).bind
            fun g s' t' hgrows h' _ => .pure h' ((hgrows.filed ha).keptAlive g)

end Calc

/-! ### Functions and selectors -/

theorem steady_applyFunction (horacle : parties.AsksSteadily k) (h : k.Twins s t)
    (hctx : ctx.cancelled = cancelled) (f : SetFunction) {operands : List (PackageSet NodeRef)}
    (hoperands : ∀ a ∈ operands, a.Filed (k.Shared s.loader t.loader)) :
    SteadySet k (applyFunction parties ctx f operands) s t := by
  have hagrees := k.agreesWith_shared s.loader t.loader
  unfold applyFunction
  split
  · exact .pure h (.applyAll _ hoperands)
  · next a b =>
    simp only [List.forall_mem_cons] at hoperands
    exact steady_catalog h (g := fun c => a.reach c b)
      (hagrees.reach (fun _ => hoperands.1.of_mem_values) b) (hoperands.1.reach _ b)
  · next a b =>
    simp only [List.forall_mem_cons] at hoperands
    exact steady_catalog h (g := fun c => a.incoming c b)
      (hagrees.incoming (fun _ => hoperands.1.of_mem_values) b)
      (hoperands.1.incoming hoperands.2.1 _)
  · next a =>
    rw [List.forall_mem_singleton] at hoperands
    exact steady_catalog h (g := fun c => a.transitive c)
      (hagrees.transitive fun _ => hoperands.of_mem_values) (hoperands.transitive hagrees.keeps)
  · next a =>
    rw [List.forall_mem_singleton] at hoperands
    have hconfig : ctx.config.cancelled = cancelled := hctx
    exact steady_deadcode h horacle hconfig hoperands
  · exact .pure h .empty

theorem steady_testsOfName (h : k.Twins s t) (hctx : ctx.cancelled = cancelled) (name : String)
    (c : Combinator) : SteadySet k (testsOfName parties ctx name c) s t := by
  have hload : ∀ tests, SteadySet k (loadRoots parties { ctx.config with tests := tests } [name])
      s t := fun tests => steady_loadRoots h hctx [name]
  cases c with
  | keep => exact (hload true).bind fun a s' t' _ h' ha => .pure h' (ha.filter _)
  | add => exact hload true
  | remove => exact hload false

theorem steady_testsOfSet (h : k.Twins s t) (hctx : ctx.cancelled = cancelled) (c : Combinator)
    {a : PackageSet NodeRef} (ha : a.Filed (k.Shared s.loader t.loader)) :
    SteadySet k (testsOfSet parties ctx c a) s t := by
  unfold testsOfSet
  split
  · exact .pure h (ha.combine c .empty)
  · have hconfig : { ctx.config with tests := true }.cancelled = cancelled := hctx
    exact (steady_loadRoots h hconfig _).bind fun found s' t' hgrows h' hfound =>
      .pure h' ((hgrows.filed ha).combine c (hfound.filter _))

theorem steady_evaluateGroup (h : k.Twins s t) (hctx : ctx.cancelled = cancelled)
    (names : List String) : SteadySet k (evaluateGroup parties ctx names) s t := by
  have hget : ∀ s : CalcState σ NodeRef, (get : Calc σ NodeRef _) s = (.ok s, s) := fun _ => rfl
  have hvalues : ∀ a ∈ names.filterMap s.bindings.get?,
      a.Filed (k.Shared s.loader t.loader) := by
    intro a ha
    rcases List.mem_filterMap.1 ha with ⟨name, -, hname⟩
    exact h.shared name a hname
  unfold evaluateGroup SteadySet Calc.Steady
  rw [bind_ok (hget s), bind_ok (hget t), h.bindings]
  -- Both calculations go on in the same way.
  dsimp only
  split
  · exact Steady.pure h (.unionAll hvalues)
  · have hconfig : ctx.config.cancelled = cancelled := hctx
    refine (steady_loadRoots h hconfig _).bind
      fun found s' t' hgrows h' hfound => .pure h' (.unionAll ?_)
    intro a ha
    rcases List.mem_append.1 ha with hvalue | hlast
    · exact hgrows.filed (hvalues a hvalue)
    · rwa [List.mem_singleton.1 hlast]

/-! ### Operands -/

variable {args : List Expr}

theorem steady_evaluateLast {last : PackageSet NodeRef} (h : k.Twins s t)
    (hlast : last.Filed (k.Shared s.loader t.loader))
    (hargs : ∀ arg ∈ args, ∀ s t, k.Twins s t → SteadySet k (evaluate parties ctx arg) s t) :
    SteadySet k (evaluateLast parties ctx last args) s t := by
  induction args generalizing s t last with
  | nil => exact .pure h hlast
  | cons arg rest ih =>
      rw [List.forall_mem_cons] at hargs
      exact (hargs.1 s t h).bind fun a s' t' _ h' ha => ih h' ha hargs.2

theorem steady_evaluateEach (h : k.Twins s t)
    (hargs : ∀ arg ∈ args, ∀ s t, k.Twins s t → SteadySet k (evaluate parties ctx arg) s t) :
    (evaluateEach parties ctx args).Steady k
      (fun s t each => ∀ a ∈ each.1, a.Filed (k.Shared s.loader t.loader)) s t := by
  induction args generalizing s t with
  | nil => exact .pure h fun _ ha => absurd ha List.not_mem_nil
  | cons arg rest ih =>
      rw [List.forall_mem_cons] at hargs
      refine (hargs.1 s t h).attempt.bind fun outcome s' t' _ h' houtcome => ?_
      refine (ih h' hargs.2).bind fun others s'' t'' hgrows h'' hothers => ?_
      cases outcome with
      | error e => exact .pure h'' hothers
      | ok a =>
          exact .pure h'' (List.forall_mem_cons.2 ⟨hgrows.filed (houtcome a rfl), hothers⟩)

/-! ### Evaluation -/

theorem steady_evaluate_call (horacle : parties.AsksSteadily k) (h : k.Twins s t)
    (hctx : ctx.cancelled = cancelled) (func : String)
    (hargs : ∀ arg ∈ args, ∀ ctx : Context, ctx.cancelled = cancelled → ∀ s t, k.Twins s t →
      SteadySet k (evaluate parties ctx arg) s t) :
    SteadySet k (evaluate parties ctx (.call func args)) s t := by
  unfold evaluate
  split
  · -- A context function evaluates its argument in another context, if there is just one.
    split
    · next arg =>
        refine hargs arg (List.mem_singleton_self arg) _ ?_ s t h
        rw [← hctx]
        unfold Context.assign
        split <;> rfl
    · exact .fail h _
  · split
    · exact .fail h _
    · split
      · exact .fail h _
      · split
        · exact steady_evaluateGroup h hctx _
        · refine (steady_evaluateEach h fun arg harg => hargs arg harg ctx hctx).bind
            fun each s' t' _ h' heach => ?_
          dsimp only
          split
          · exact steady_applyFunction horacle h' hctx _ heach
          · exact .fail h' _

theorem steady_evaluate_select (h : k.Twins s t) (hctx : ctx.cancelled = cancelled) {operand : Expr}
    (selector : String) (hoperand : SteadySet k (evaluate parties ctx operand) s t) :
    SteadySet k (evaluate parties ctx (.select operand selector)) s t := by
  rw [evaluate.eq_def]
  dsimp only
  split
  · exact .fail h _
  · -- The test packages of a name are loaded, those of another operand looked up again.
    split
    · refine (steady_lookup? h _).bind fun bound s' t' _ h' hbound => ?_
      cases bound with
      | some a => exact steady_testsOfSet h' hctx _ (hbound a rfl)
      | none => exact steady_testsOfName h' hctx _ _
    · exact hoperand.bind fun a s' t' _ h' ha => steady_testsOfSet h' hctx _ ha
  · refine hoperand.bind fun a s' t' _ h' ha => ?_
    have hagrees := k.agreesWith_shared s'.loader t'.loader
    exact steady_catalog h' (hagrees.selection (fun _ => ha.of_mem_values) _ _)
      (ha.selection hagrees.keeps _ _)

mutual

/-- Each expression is evaluated to the same end from twins, whatever else the two states have been
    through. -/
theorem evaluate_steady (horacle : parties.AsksSteadily k) : ∀ (e : Expr) (ctx : Context),
    ctx.cancelled = cancelled → ∀ s t, k.Twins s t → SteadySet k (evaluate parties ctx e) s t
  | .absent, ctx, _, s, t, h => by
      unfold evaluate
      exact .fail h _
  | .package name, ctx, hctx, s, t, h => by
      unfold evaluate
      refine (steady_lookup? h name).bind fun bound s' t' _ h' hbound => ?_
      cases bound with
      | some a => exact .pure h' (hbound a rfl)
      | none =>
          have hconfig : ctx.config.cancelled = cancelled := hctx
          exact steady_loadRoots h' hconfig _
  | .sequence statements, ctx, hctx, s, t, h => by
      have hall := forall_evaluate_steady horacle statements
      unfold evaluate
      exact steady_evaluateLast h .empty fun e he => hall e he ctx hctx
  | .assign name value, ctx, hctx, s, t, h => by
      have hvalue := evaluate_steady horacle value ctx hctx s t h
      unfold evaluate
      exact hvalue.bind fun a s' t' _ h' ha => (steady_bindVariable h' name ha).bind
        fun _ s'' t'' hgrows h'' _ => .pure h'' (hgrows.filed ha)
  | .call func args, ctx, hctx, s, t, h =>
      steady_evaluate_call horacle h hctx func (forall_evaluate_steady horacle args)
  | .select operand selector, ctx, hctx, s, t, h =>
      steady_evaluate_select h hctx selector (evaluate_steady horacle operand ctx hctx s t h)

theorem forall_evaluate_steady (horacle : parties.AsksSteadily k) : ∀ es : List Expr, ∀ e ∈ es,
    ∀ ctx : Context, ctx.cancelled = cancelled → ∀ s t, k.Twins s t →
      SteadySet k (evaluate parties ctx e) s t
  | [] => fun _ he => absurd he List.not_mem_nil
  | e :: rest => List.forall_mem_cons.2
      ⟨evaluate_steady horacle e, forall_evaluate_steady horacle rest⟩

end

/-! ### Expressions in any order -/

/-- An expression without assignments has the outcome that it has from a twin, and leaves another
    twin behind. -/
theorem evaluate_of_twins (horacle : parties.AsksSteadily k) (h : k.Twins s t)
    (hctx : ctx.cancelled = cancelled) {e : Expr} (he : e.assignedNames = []) :
    ∃ t', evaluate parties ctx e t = ((evaluate parties ctx e s).1, t') ∧ k.Twins s t' := by
  rcases evaluate_steady horacle e ctx hctx s t h with
    ⟨outcome, s', t', hs, ht, hgrows, htwins, -⟩
  have hbinds : t.Binds [] t' := by
    have hfollows := evaluate_follows (carries_binds parties []) e (by rw [he]; exact fun _ => id)
      ctx t
    rwa [ht] at hfollows
  refine ⟨t', by rw [ht, hs], ?_⟩
  have hstays : k.Grows s t s t' := ⟨fun _ _ hu => hu, hgrows.second⟩
  exact h.grow hstays h.first htwins.second rfl hbinds.bindings_eq

/-- Operands without assignments have values together if each of them has its value by itself, and
    it does not matter which of them are evaluated first. -/
theorem evaluateEach_eq_ok_iff (horacle : parties.AsksSteadily k) (h : k.Twins s t)
    (hctx : ctx.cancelled = cancelled) (hargs : ∀ arg ∈ args, arg.assignedNames = [])
    {sets : List (PackageSet NodeRef)} :
    (∃ u, evaluateEach parties ctx args t = (.ok (sets, []), u)) ↔
      List.Forall₂ (fun arg a => (evaluate parties ctx arg s).1 = .ok a) args sets := by
  induction args generalizing t sets with
  | nil =>
      rw [List.forall₂_nil_left_iff]
      constructor
      · rintro ⟨u, hrun⟩
        cases hrun
        rfl
      · rintro rfl
        exact ⟨t, rfl⟩
  | cons arg rest ih =>
      rw [List.forall_mem_cons] at hargs
      rcases evaluate_of_twins horacle h hctx hargs.1 with ⟨t', hrun, htwins⟩
      simp only [List.forall₂_cons_left_iff, evaluateEach_cons_eq_ok_iff, hrun]
      constructor
      · rintro ⟨u, a, v, operands, hfirst, hrest, rfl⟩
        rcases Prod.mk.inj hfirst with ⟨hvalue, rfl⟩
        exact ⟨a, operands, hvalue, (ih htwins hargs.2).1 ⟨u, hrest⟩, rfl⟩
      · rintro ⟨a, operands, hvalue, hoperands, rfl⟩
        rcases (ih htwins hargs.2).2 hoperands with ⟨u, hrest⟩
        exact ⟨u, a, t', operands, by rw [hvalue], hrest, rfl⟩

/-! ### States that evaluations leave behind -/

/-- The states of a calculation: a new one, and those that evaluations leave behind, however they
    end. -/
inductive Calculator.Reached {σ ρ : Type} (parties : Calculator σ ρ) (cancelled : Nat → Bool)
    (start : σ) : CalcState σ ρ → Prop
  -- Nothing is bound at the beginning.
  | start {s : CalcState σ ρ} (hloader : s.loader = start) (hbindings : s.bindings = .empty) :
      Reached parties cancelled start s
  -- An evaluation leaves a state behind.
  | evaluate {s : CalcState σ ρ} (h : Reached parties cancelled start s) {ctx : Context}
      (hctx : ctx.cancelled = cancelled) (e : Expr) :
      Reached parties cancelled start (evaluate parties ctx e s).2

/-- From a start, a calculator is a service with a steady oracle. -/
def Calculator.SteadyFrom (parties : Calculator σ NodeRef) (cancelled : Nat → Bool)
    (start : σ) : Prop :=
  ∃ k : parties.loader.Service cancelled, k.States start ∧ parties.AsksSteadily k

/-- Each state is its own twin. -/
theorem Calculator.Reached.twins (horacle : parties.AsksSteadily k) {start : σ}
    (hk : k.States start) (h : parties.Reached cancelled start s) : k.Twins s s := by
  induction h with
  | start hloader hbindings =>
      refine ⟨hloader ▸ hk, hloader ▸ hk, rfl, fun name a ha => ?_⟩
      rw [hbindings] at ha
      cases ha
  | @evaluate s _ ctx hctx e ih =>
      rcases evaluate_steady horacle e ctx hctx s s ih with ⟨outcome, s', t', hs, ht, -, htwins, -⟩
      rw [hs, Prod.mk.injEq] at ht
      rw [hs]
      exact ht.2 ▸ htwins

/-! ### Loaders and oracles -/

/-- An oracle is steady in each service of a loader in which all packages are the same from all
    states. -/
def Oracle.Consistent (oracle : Oracle σ) (l : Loader σ NodeRef) : Prop :=
  ∀ (cancelled : Nat → Bool) (k : l.Service cancelled), k.SteadyNodes → oracle.Steady k

/-- An oracle that runs a command does not look at the loader, whatever the programs do. -/
theorem consistent_commandOracle [Programs] (l : Loader σ NodeRef) (command : List String)
    (marker : String) : (commandOracle command marker).Consistent l :=
  fun _ _ _ _ _ _ => ⟨_, fun s _ _ hs _ => ⟨s, rfl, hs, fun _ _ hu => hu⟩⟩

/-- An oracle that reads the files of packages asks for all packages, and for nothing else. -/
theorem consistent_sourceOracle (l : Loader σ NodeRef) (files : FileSystem) :
    (sourceOracle files l).Consistent l := by
  intro cancelled k h config ids hconfig
  rcases h config hconfig with ⟨outcome, hall⟩
  unfold sourceOracle
  cases outcome with
  | error e =>
      refine ⟨.error (.error (.load e)), fun s v u hs hu => ?_⟩
      rcases hall s v u hs hu with ⟨t, hnodes, ht, hkept⟩
      exact ⟨t, by simp only [hnodes], ht, hkept⟩
  | ok nodes =>
      refine ⟨.ok (CallGraph.ofFiles files ((ids.filterMap nodes.get?).map fun p =>
        (p.id, p.files))).toSymbolGraph, fun s v u hs hu => ?_⟩
      rcases hall s v u hs hu with ⟨t, hnodes, ht, hkept⟩
      exact ⟨t, by simp only [hnodes], ht, hkept⟩

/-- The oracles that calculators are opened with are consistent. -/
theorem Settings.consistent_oracle [Programs] (settings : Settings) :
    (∀ records o, (settings.overRecords records).parties.oracle = some o →
      o.Consistent (recordLoader records)) ∧
    ∀ tree o, (settings.overSource tree).parties.oracle = some o →
      o.Consistent (sourceLoader tree) := by
  constructor
  · intro records o h
    rw [Settings.eq_commandOracle h]
    exact consistent_commandOracle _ _ _
  · intro tree o h
    -- Only where the settings name no oracle, files are read.
    rcases (Option.orElse_eq_some _ _ _).1 h with hnamed | ⟨-, hsource⟩
    · rw [Settings.eq_commandOracle hnamed]
      exact consistent_commandOracle _ _ _
    · rw [← Option.some.inj hsource]
      exact consistent_sourceOracle _ _

/-- A calculator over records is steady, whatever its loader was asked before. -/
theorem steadyFrom_recordLoader (records : List PackageRecord)
    {oracle : Option (Oracle UniverseTable)}
    (h : ∀ o, oracle = some o → o.Consistent (recordLoader records))
    (envKeys : List String) (cancelled : Nat → Bool) (history : List Question) :
    (⟨recordLoader records, oracle, envKeys⟩ : Calculator UniverseTable NodeRef).SteadyFrom
      cancelled ((recordLoader records).after history .empty) :=
  ⟨recordService records cancelled, UniverseTable.builtFrom_empty.after history,
    fun o ho => h o ho cancelled _ (steadyNodes_recordService records cancelled)⟩

/-- A calculator over a source tree is steady, whatever its loader was asked before. -/
theorem steadyFrom_sourceLoader (tree : SourceTree) {oracle : Option (Oracle SourceState)}
    (h : ∀ o, oracle = some o → o.Consistent (sourceLoader tree)) (envKeys : List String)
    (cancelled : Nat → Bool) (history : List Question) :
    (⟨sourceLoader tree, oracle, envKeys⟩ : Calculator SourceState NodeRef).SteadyFrom
      cancelled ((sourceLoader tree).after history {}) := by
  have hfound : ((sourceLoader tree).after history {}).FoundIn tree :=
    SourceState.foundIn_empty.after history
  rcases exists_service_sourceLoader hfound cancelled with ⟨k, hk, hnodes⟩
  exact ⟨k, hk, fun o ho => h o ho cancelled k hnodes⟩

end PackageAlgebra
