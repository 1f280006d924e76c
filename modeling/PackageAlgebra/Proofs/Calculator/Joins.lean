import PackageAlgebra.Proofs.Calculator.SideBySide
import PackageAlgebra.Proofs.Calculator.Steady
import PackageAlgebra.Proofs.Query.Assignments

/-!
# Joining Any Number of Operands

What the functions that join sets make of their operands.

A union, a difference, an intersection and a symmetric difference take any number of operands. They
are evaluated from the left, and their sets are joined from the left; so a call with many operands
is the same as a chain of calls with two, written as a function or as an operator, down to the
questions to the loader. What comes out can be said of all operands at once.

Whether operands may change places is another matter. Their sets may, unless they are subtracted.
The operands may as well if none of them assigns a variable. If one does, the others see the
variable or not, depending on which side of it they stand.

## Main definitions

* `AnyOrder`: A call has the same ids for its operands in any order.

## Theorems

* `evaluate_call_of_joins`, `evaluate_chain_of_joins`: Many operands, together and in a chain.
* `anyOrder_of_steady`: Operands without assignments may change places.
* `evaluate_joined_operands`: What becomes of any number of operands.
-/

namespace PackageAlgebra

open Calc

variable {σ ρ : Type} {func : String} {op : SetOp} {ctx : Context}

section

variable {parties : Calculator σ ρ} {args : List Expr} {s t u : CalcState σ ρ}
  {sets : List (PackageSet ρ)}

/-- A call joins the sets of its operands. -/
theorem evaluate_call_of_joins (h : Joins func op)
    (hrun : evaluateEach parties ctx args s = (.ok (sets, []), t)) :
    evaluate parties ctx (.call func args) s = (.ok (op.applyAll sets), t) := by
  rw [evaluate_joins h, bind_ok hrun]
  rfl

/-- Operands that are not all names are joined side by side as by any name of the union. -/
theorem evaluate_beside_of_joins (hnames : bareNames? args = none)
    (hrun : evaluateEach parties ctx args s = (.ok (sets, []), t)) :
    evaluate parties ctx (.call "" args) s = (.ok (SetOp.union.applyAll sets), t) := by
  have hnone : "" = "" → ∀ name names, bareNames? args ≠ some (name :: names) := by
    intro _ name names hsome
    rw [hnames] at hsome
    cases hsome
  rw [evaluate_operands (f := .join .union) (by decide) (by decide) Bool.false_ne_true hnone,
    bind_ok hrun]
  rfl

/-- A chain of calls joins the sets of the operands in it, from the left. -/
theorem evaluate_chain_of_joins (h : Joins func op) {first : Expr} {a : PackageSet ρ}
    (hfirst : evaluate parties ctx first s = (.ok a, t))
    (hrest : evaluateEach parties ctx args t = (.ok (sets, []), u)) :
    evaluate parties ctx (.chain func first args) s =
      (.ok (op.applyAll (a :: sets)), u) := by
  induction args generalizing first a t sets with
  | nil =>
      cases hrest
      exact hfirst
  | cons arg rest ih =>
      rcases evaluateEach_cons_eq_ok_iff.1 hrest with ⟨b, v, operands, harg, hothers, rfl⟩
      have hpair : evaluateEach parties ctx [first, arg] s = (.ok ([a, b], []), v) :=
        evaluateEach_cons_ok hfirst (evaluateEach_cons_ok harg rfl)
      have hstep : evaluate parties ctx (.call func [first, arg]) s = (.ok (op.apply a b), v) :=
        evaluate_call_of_joins h hpair
      have hchain := ih hstep hothers
      exact hchain

/-- A call that has a set has one for each of its operands. -/
theorem exists_evaluateEach_of_joins (h : Joins func op) {b : PackageSet ρ}
    (hrun : evaluate parties ctx (.call func args) s = (.ok b, t)) :
    ∃ sets, evaluateEach parties ctx args s = (.ok (sets, []), t) ∧ b = op.applyAll sets := by
  rw [evaluate_joins h] at hrun
  rcases heach : evaluateEach parties ctx args s with ⟨e | ⟨sets, errors⟩, v⟩
  · rw [bind_error heach] at hrun
    cases hrun
  · rw [bind_ok heach] at hrun
    cases errors with
    | nil =>
        cases hrun
        exact ⟨sets, rfl, rfl⟩
    | cons e rest => cases hrun

end

/-! ### The order of the operands -/

/-- A call has the same ids for its operands in any order; those of a difference may change places
    behind the first one. -/
def AnyOrder (parties : Calculator σ ρ) (ctx : Context) (func : String) (op : SetOp) (arg : Expr)
    (args : List Expr) (s : CalcState σ ρ) : Prop :=
  ∀ b t, evaluate parties ctx (.call func (arg :: args)) s = (.ok b, t) →
    ∀ others, (arg :: args).Perm others → (op = .subtract → others.head? = some arg) →
      ∃ c u, evaluate parties ctx (.call func others) s = (.ok c, u) ∧
        ∀ x, x ∈ c.keys ↔ x ∈ b.keys

variable {parties : Calculator σ NodeRef} {start : σ} {s : CalcState σ NodeRef} {arg : Expr}
  {args : List Expr}

/-- Operands without assignments may change places. -/
theorem anyOrder_of_steady (h : Joins func op) (hsteady : parties.SteadyFrom ctx.cancelled start)
    (hreached : parties.Reached ctx.cancelled start s)
    (hargs : ∀ e ∈ arg :: args, e.assignedNames = []) :
    AnyOrder parties ctx func op arg args s := by
  rcases hsteady with ⟨k, hk, horacle⟩
  have htwins := hreached.twins horacle hk
  intro b t hrun others hperm hhead
  rcases exists_evaluateEach_of_joins h hrun with ⟨sets, heach, rfl⟩
  have hvalues := (evaluateEach_eq_ok_iff horacle htwins rfl hargs).1 ⟨t, heach⟩
  have hothers : ∀ e ∈ others, e.assignedNames = [] := fun e he => hargs e (hperm.mem_iff.2 he)
  rcases List.perm_comp_forall₂ hperm.symm hvalues with ⟨moved, hmoved, hsets⟩
  rcases (evaluateEach_eq_ok_iff horacle htwins rfl hothers).2 hmoved with ⟨u, hrun'⟩
  refine ⟨_, u, evaluate_call_of_joins h hrun', fun x => ?_⟩
  by_cases hop : op = .subtract
  · -- The first operand has kept its place, so it is the others that have changed theirs.
    rcases List.head?_eq_some_iff.1 (hhead hop) with ⟨rest, rfl⟩
    rcases List.forall₂_cons_left_iff.1 hvalues with ⟨a, sets, ha, -, rfl⟩
    rcases List.forall₂_cons_left_iff.1 hmoved with ⟨a', moved, ha', -, rfl⟩
    rw [ha, Except.ok.injEq] at ha'
    subst ha'
    rw [hop]
    exact SetOp.mem_keys_subtract_perm a ((List.perm_cons a).1 hsets)
  · exact SetOp.mem_keys_applyAll_perm hop hsets

/-- A function of any number of operands joins their sets, from the left. A union has the ids of any
    operand, each with the node of the leftmost one that holds it; a difference those of the first
    that are in no other, and an intersection those in all, with the nodes of the first; a symmetric
    difference those of an odd number of operands. The call is the same as a chain of calls with two
    operands each, under any name of the operation, and such a chain is what is read where an
    operator stands between the operands.

    Where no operand assigns a variable, they may be in any order, but for the first one of a
    difference: the call has a set again, with the same ids. That is so for both loaders, whatever
    they were asked and whatever was evaluated before, and with any oracle that answers alike
    wherever its loader has the same packages. -/
theorem evaluate_joined_operands (h : Joins func op) :
    (∀ {σ ρ : Type} (parties : Calculator σ ρ) (ctx : Context) (arg : Expr) (args : List Expr)
        (s t : CalcState σ ρ) (a : PackageSet ρ) (sets : List (PackageSet ρ)),
      evaluateEach parties ctx (arg :: args) s = (.ok (a :: sets, []), t) →
        ∃ b, evaluate parties ctx (.call func (arg :: args)) s = (.ok b, t) ∧
          op.Joined a sets b ∧
          (∀ name, Joins name op → evaluate parties ctx (.chain name arg args) s = (.ok b, t)) ∧
          (op = .union → bareNames? (arg :: args) = none →
            evaluate parties ctx (.call "" (arg :: args)) s = (.ok b, t))) ∧
    (∀ (arg : Expr) (args : List Expr) (ts : List Token) (tokens : List (List Token)),
      Spells (.operand arg) ts →
      List.Forall₂ (fun e us => Spells (.operand e) us) args tokens →
        parseTokens (ts ++ tokens.flatMap fun us => ⟨.op, func⟩ :: us) =
          .ok (some (.chain func arg args))) ∧
    ∀ (history : List Question) (ctx : Context) (arg : Expr) (args : List Expr),
      (∀ e ∈ arg :: args, e.assignedNames = []) →
      (∀ (records : List PackageRecord) (oracle : Option (Oracle UniverseTable)),
        (∀ o, oracle = some o → o.Consistent (recordLoader records)) →
          ∀ (envKeys : List String) (s : CalcState UniverseTable NodeRef),
        let parties : Calculator UniverseTable NodeRef := ⟨recordLoader records, oracle, envKeys⟩
        parties.Reached ctx.cancelled (parties.loader.after history .empty) s →
          AnyOrder parties ctx func op arg args s) ∧
      ∀ (tree : SourceTree) (oracle : Option (Oracle SourceState)),
        (∀ o, oracle = some o → o.Consistent (sourceLoader tree)) →
          ∀ (envKeys : List String) (s : CalcState SourceState NodeRef),
        let parties : Calculator SourceState NodeRef := ⟨sourceLoader tree, oracle, envKeys⟩
        parties.Reached ctx.cancelled (parties.loader.after history {}) s →
          AnyOrder parties ctx func op arg args s := by
  refine ⟨?_, ?_, fun history ctx arg args hargs => ⟨?_, ?_⟩⟩
  · intro σ ρ parties ctx arg args s t a sets hrun
    rcases evaluateEach_cons_eq_ok_iff.1 hrun with ⟨a', u, sets', hfirst, hrest, heq⟩
    rcases List.cons.inj heq with ⟨rfl, rfl⟩
    refine ⟨_, evaluate_call_of_joins h hrun, SetOp.joined_applyAll op a sets, ?_, ?_⟩
    · exact fun name hname => evaluate_chain_of_joins hname hfirst hrest
    · rintro rfl hnames
      exact evaluate_beside_of_joins hnames hrun
  · exact fun arg args ts tokens hfirst hrest => parseTokens_chain func hfirst hrest
  · intro records oracle horacle envKeys s parties hreached
    exact anyOrder_of_steady h
      (steadyFrom_recordLoader records horacle envKeys ctx.cancelled history) hreached hargs
  · intro tree oracle horacle envKeys s parties hreached
    exact anyOrder_of_steady h
      (steadyFrom_sourceLoader tree horacle envKeys ctx.cancelled history) hreached hargs

/-- A calculator over three packages. -/
def threePackages : Calculator UniverseTable NodeRef :=
  { loader := recordLoader [{ id := "a" }, { id := "b" }, { id := "c" }] }

/-- Of a package, of all packages and of another one, an odd number holds just the third package,
    in a chain as well and in another order. -/
theorem evaluate_joined_operands_odd :
    let s : CalcState UniverseTable NodeRef := { loader := .empty }
    let args : List Expr := [.package "...", .package "b"]
    ∃ b t, evaluate threePackages {} (.call "xor" (.package "a" :: args)) s = (.ok b, t) ∧
      b.keys = ["c"] ∧
      evaluate threePackages {} (.chain "XOR" (.package "a") args) s = (.ok b, t) ∧
      ∃ c u, evaluate threePackages {} (.call "xor" (args ++ [.package "a"])) s = (.ok c, u) ∧
        ∀ x, x ∈ c.keys ↔ x ∈ b.keys := by
  intro s args
  have hxor : Joins "xor" .symmetricDifference := ⟨by decide, by decide, by decide⟩
  have hupper : Joins "XOR" .symmetricDifference := ⟨by decide, by decide, by decide⟩
  rcases evaluate_joined_operands hxor with ⟨hjoined, -, horder⟩
  have hkeys : (evaluate threePackages {} (.call "xor" (.package "a" :: args)) s).1.toOption.map
      (·.keys) = some ["c"] := by
    decide +kernel
  rcases hrun : evaluate threePackages {} (.call "xor" (.package "a" :: args)) s with ⟨e | c, t⟩
  · rw [hrun] at hkeys
    cases hkeys
  rcases exists_evaluateEach_of_joins hxor hrun with ⟨_, heach, -⟩
  rcases evaluateEach_cons_eq_ok_iff.1 heach with ⟨a, -, sets, -, -, rfl⟩
  rcases hjoined threePackages {} (.package "a") args s t a sets heach with
    ⟨b, hcall, -, hchain, -⟩
  rw [hrun] at hkeys hcall
  obtain rfl : c = b := Except.ok.inj (Prod.mk.inj hcall).1
  have hmoved : (.package "a" :: args).Perm (args ++ [.package "a"]) :=
    (List.perm_append_singleton (.package "a") args).symm
  refine ⟨c, t, rfl, Option.some.inj hkeys, hchain "XOR" hupper, ?_⟩
  have hnone : ∀ o, (none : Option (Oracle UniverseTable)) = some o →
      o.Consistent threePackages.loader := by
    rintro o ⟨⟩
  exact (horder [] {} (.package "a") args (by decide)).1 _ none hnone defaultEnvKeys s
    (.start rfl rfl) c t hrun _ hmoved fun hop => by cases hop

/-- An operand that binds a name decides what the name stands for to the right of it, because the
    operands are evaluated from the left and share the variables. So it may not change places with
    an operand that uses the name. Both calls are read from texts, and both have a set. -/
theorem evaluate_joined_operands_assigning :
    let parties : Calculator UniverseTable NodeRef :=
      { loader := recordLoader [{ id := "b" }, { id := "x" }] }
    let s : CalcState UniverseTable NodeRef := { loader := .empty }
    let binding : Expr := .assign "x" (.package "b")
    (QueryText.line "+(x := b, x)").parse = .ok (some (.call "+" [binding, .package "x"])) ∧
      (QueryText.line "+(x, x := b)").parse = .ok (some (.call "+" [.package "x", binding])) ∧
      [binding, .package "x"].Perm [.package "x", binding] ∧
      (evaluate parties {} (.call "+" [binding, .package "x"]) s).1.toOption.map (·.keys) =
        some ["b"] ∧
      (evaluate parties {} (.call "+" [.package "x", binding]) s).1.toOption.map (·.keys) =
        some ["x", "b"] := by
  have hfirst : Token.scan (joinWords ["+(x := b, x)"]) = .ok [⟨.func, "+"⟩, ⟨.leftParen, "("⟩,
      ⟨.package, "x"⟩, ⟨.assign, ":="⟩, ⟨.package, "b"⟩, ⟨.comma, ","⟩, ⟨.package, "x"⟩,
      ⟨.rightParen, ")"⟩] := by
    decide +kernel
  have hsecond : Token.scan (joinWords ["+(x, x := b)"]) = .ok [⟨.func, "+"⟩, ⟨.leftParen, "("⟩,
      ⟨.package, "x"⟩, ⟨.comma, ","⟩, ⟨.package, "x"⟩, ⟨.assign, ":="⟩, ⟨.package, "b"⟩,
      ⟨.rightParen, ")"⟩] := by
    decide +kernel
  exact ⟨(QueryText.parse_eq_ok_iff _ _).2 ⟨_, hfirst, rfl⟩,
    (QueryText.parse_eq_ok_iff _ _).2 ⟨_, hsecond, rfl⟩, .swap _ _ _, by decide +kernel,
    by decide +kernel⟩

end PackageAlgebra
