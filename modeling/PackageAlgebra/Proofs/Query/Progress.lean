import PackageAlgebra.Proofs.Query.Positions

/-!
# Progress of the Parser

Every call of the parser ends, and those that give an answer have passed a token.

Nothing in the loops of the parser counts. The loop that reads arguments goes on as long as commas
end them, the one that folds operators as long as operators end the operands, and both call the
function that runs them. What keeps them going forward is that an operand which has a value has
passed a token, and that where no token is left an operand has none, which both loops refuse. Each
call between two tokens can therefore be paid for by the tokens ahead. Two calls at most are made
before a token is passed, so twice the number of tokens is enough, and a bound on the calls that
pays this much is never reached.

No token list is excluded. A function without a parenthesis, a selector that follows nothing or an
assignment in the middle are refused where they stand, and what has been read before them counts.

## Main definitions

* `Ends`: A result that is an answer or a refusal of the tokens.
* `Advances`: An answer comes with a later position.

## Theorems

* `endsWithin`: Enough calls are never too few.
* `parseTokens_ne_exhausted`: So the bound of the parser is never reached.
* `advances_operandAt`, `ends_operandAt`: A call goes forward, and it ends.
* `advances_argumentRound`, `advances_operatorRound`: So does each round of a loop.
* `parseAt_advances`: All of this for any token list.
-/

namespace PackageAlgebra

variable {α : Type} {tokens : List Token} {depth fuel p : Nat} {after : Bool}
  {terms args : List Expr} {left term : Expr} {op opener : String} {cur : Cursor}

/-! ### Enough calls -/

theorem length_attachSelectors_le (term : Expr) (passed : Option Token) (rest : List Token) :
    (attachSelectors term passed rest).2.ahead.length ≤ rest.length := by
  induction rest generalizing term passed with
  | nil => exact Nat.le_refl _
  | cons t rest ih =>
      simp only [attachSelectors]
      split
      · exact Nat.le_succ_of_le (ih _ _)
      · exact Nat.le_refl _

/-- Arguments are not read without passing a token. -/
theorem not_isIdle_arguments {read : List Expr} :
    ¬ Reading.IsIdle (.arguments depth args read) cur := by
  rintro ⟨⟩

/-- What makes a call fail makes the one fail that it came from, with the same cause. -/
theorem error_ne_exhausted {β : Type} {x : Except ParseError α} {cause : ParseError}
    (h : x ≠ .error .exhausted) (hx : x = .error cause) :
    (Except.error cause : Except ParseError β) ≠ .error .exhausted :=
  fun heq => h (hx.trans (congrArg Except.error (Except.error.inj heq)))

/-- A number of calls that the tokens ahead pay for is not used up. -/
structure EndsWithin (fuel : Nat) : Prop where
  operand : ∀ after depth terms cur, 2 * cur.ahead.length < fuel →
    operand fuel after depth terms cur ≠ .error .exhausted
  arguments : ∀ opener depth args cur, 2 * cur.ahead.length + 1 < fuel →
    arguments fuel opener depth args cur ≠ .error .exhausted
  operators : ∀ depth left op cur, 2 * cur.ahead.length + 1 < fuel →
    operators fuel depth left op cur ≠ .error .exhausted

namespace EndsWithin

/-- Behind a term the operand goes on with fewer tokens. -/
theorem beside (h : EndsWithin fuel) (passed : Option Token) (rest : List Token)
    (hfuel : 2 * rest.length < fuel) :
    PackageAlgebra.operand fuel after depth (terms ++ [(attachSelectors term passed rest).1])
      (attachSelectors term passed rest).2 ≠ .error .exhausted := by
  have hle := length_attachSelectors_le term passed rest
  exact h.operand after depth _ _ (by omega)

theorem operand_succ (h : EndsWithin fuel) (hfuel : 2 * cur.ahead.length < fuel + 1) :
    PackageAlgebra.operand (fuel + 1) after depth terms cur ≠ .error .exhausted := by
  rcases cur with ⟨passed, _ | ⟨t, rest⟩⟩
  · simp only [PackageAlgebra.operand, ne_eq, reduceCtorEq, not_false_eq_true]
  simp only [List.length_cons] at hfuel
  simp only [PackageAlgebra.operand]
  cases hk : t.kind with
  | package =>
      simp only
      cases rest with
      | nil => exact h.operand _ _ _ _ (by simp only [List.length_nil]; omega)
      | cons next rest =>
          simp only [List.length_cons] at hfuel
          simp only
          split
          · split
            · rintro ⟨⟩
            · have hvalue := h.operand false depth [] ⟨some next, rest⟩ (by simp only; omega)
              split
              · next hcause => exact error_ne_exhausted hvalue hcause
              · rintro ⟨⟩
              · rintro ⟨⟩
          · exact h.beside (some t) (next :: rest) (by simp only [List.length_cons]; omega)
  | func =>
      simp only
      cases rest with
      | nil => rintro ⟨⟩
      | cons next rest =>
          simp only [List.length_cons] at hfuel
          simp only
          split
          · have hargs := h.arguments t.text depth [] ⟨some next, rest⟩ (by simp only; omega)
            split
            · next hcause => exact error_ne_exhausted hargs hcause
            · next args cur hok =>
                have hlt := ((readsWithin fuel).arguments hok).length_lt not_isIdle_arguments
                simp only at hlt
                exact h.beside cur.passed cur.ahead (by omega)
          · rintro ⟨⟩
  | leftParen =>
      simp only
      have hargs := h.arguments t.text depth [] ⟨some t, rest⟩ (by simp only; omega)
      split
      · next hcause => exact error_ne_exhausted hargs hcause
      · next arg cur hok =>
          have hlt := ((readsWithin fuel).arguments hok).length_lt not_isIdle_arguments
          simp only at hlt
          exact h.beside cur.passed cur.ahead (by omega)
      · rintro ⟨⟩
  | op =>
      simp only
      split
      · rintro ⟨⟩
      · split
        · rintro ⟨⟩
        · next left hleft =>
            have hlater := h.operators depth left t.text ⟨some t, rest⟩ (by simp only; omega)
            split
            · next hcause => exact error_ne_exhausted hlater hcause
            · rintro ⟨⟩
  | selector => rintro ⟨⟩
  | rightParen =>
      simp only
      split <;> rintro ⟨⟩
  | comma =>
      simp only
      split <;> rintro ⟨⟩
  | semicolon =>
      simp only
      split <;> rintro ⟨⟩
  | assign => rintro ⟨⟩

theorem arguments_succ (h : EndsWithin fuel) (hfuel : 2 * cur.ahead.length + 1 < fuel + 1) :
    PackageAlgebra.arguments (fuel + 1) opener depth args cur ≠ .error .exhausted := by
  have harg := h.operand false (depth + 1) [] cur (by omega)
  simp only [PackageAlgebra.arguments]
  split
  · next hcause => exact error_ne_exhausted harg hcause
  · rintro ⟨⟩
  · next arg cur' hok =>
      -- The argument has passed a token, which pays for the next round.
      have hlt := ((readsWithin fuel).operand hok).length_lt Reading.not_isIdle_some
      split
      · exact h.arguments opener depth _ cur' (by omega)
      · split <;> rintro ⟨⟩

theorem operators_succ (h : EndsWithin fuel) (hfuel : 2 * cur.ahead.length + 1 < fuel + 1) :
    PackageAlgebra.operators (fuel + 1) depth left op cur ≠ .error .exhausted := by
  have hright := h.operand true depth [] cur (by omega)
  simp only [PackageAlgebra.operators]
  split
  · next hcause => exact error_ne_exhausted hright hcause
  · rintro ⟨⟩
  · next right cur' hok =>
      have hlt := ((readsWithin fuel).operand hok).length_lt Reading.not_isIdle_some
      split
      · split
        · exact h.operators depth _ _ cur' (by omega)
        · rintro ⟨⟩
      · rintro ⟨⟩

end EndsWithin

/-- Enough calls are never too few. -/
theorem endsWithin (fuel : Nat) : EndsWithin fuel := by
  induction fuel with
  | zero =>
      constructor
      · exact fun _ _ _ _ hfuel => absurd hfuel (Nat.not_lt_zero _)
      · exact fun _ _ _ _ hfuel => absurd hfuel (Nat.not_lt_zero _)
      · exact fun _ _ _ _ hfuel => absurd hfuel (Nat.not_lt_zero _)
  | succ n ih =>
      exact ⟨fun _ _ _ _ => ih.operand_succ, fun _ _ _ _ => ih.arguments_succ,
        fun _ _ _ _ => ih.operators_succ⟩

theorem statements_ne_exhausted (fuel : Nat) (cur : Cursor) (hfuel : cur.ahead.length ≤ fuel) :
    statements fuel cur ≠ .error .exhausted := by
  induction fuel generalizing cur with
  | zero =>
      rw [statements, if_pos (List.isEmpty_iff.2 (List.length_eq_zero_iff.1 (Nat.le_zero.1 hfuel)))]
      rintro ⟨⟩
  | succ n ih =>
      rw [statements]
      split
      · rintro ⟨⟩
      · next hcur =>
          have hv := (endsWithin (parseBound cur.ahead)).operand false 0 [] cur
            (Nat.lt_of_succ_lt (Nat.lt_succ_self _))
          split
          · next hcause => exact error_ne_exhausted hv hcause
          · next v cur' hok =>
              have hlt := ((readsWithin _).operand hok).length_lt fun hidle => by
                cases hidle
                exact hcur rfl
              have hes := ih cur' (by omega)
              split
              · next hcause => exact error_ne_exhausted hes hcause
              · rintro ⟨⟩

/-- The bound of the parser is never reached. -/
theorem parseTokens_ne_exhausted (tokens : List Token) :
    parseTokens tokens ≠ .error .exhausted := by
  have hes := statements_ne_exhausted tokens.length ⟨none, tokens⟩ (Nat.le_refl _)
  unfold parseTokens
  split
  · next hcause => exact error_ne_exhausted hes hcause
  · rintro ⟨⟩
  · rintro ⟨⟩
  · rintro ⟨⟩

/-! ### Positions -/

/-- A result that is an answer, or a refusal of the tokens. -/
def Ends (r : Except ParseFault α) : Prop :=
  (∃ a, r = .ok a) ∨ ∃ cause, cause ≠ ParseError.exhausted ∧ r = .error (.refused cause)

/-- An answer comes with a later position that is not behind the end. -/
def Advances (tokens : List Token) (p : Nat) (r : Except ParseFault (α × Nat)) : Prop :=
  ∀ a p', r = .ok (a, p') → p < p' ∧ p' ≤ tokens.length

theorem Reading.IsIdle.ahead_eq_nil {r : Reading} (h : r.IsIdle cur) : cur.ahead = [] := by
  cases h
  rfl

theorem length_ofPosition (tokens : List Token) (p : Nat) :
    (Cursor.ofPosition tokens p).ahead.length = tokens.length - p := List.length_drop

/-- What a call of the parser comes to from a position. -/
inductive Comes (tokens : List Token) (fuel : Nat) (after : Bool) (depth p : Nat)
    (terms : List Expr) : Prop
  | refused {cause : ParseError} (hcause : 2 * (tokens.length - p) < fuel → cause ≠ .exhausted)
      (h : operandAt tokens fuel after depth terms p = .error (.refused cause))
  | empty {p' : Nat} (hp : p < tokens.length → p < p') (hp' : p' ≤ tokens.length)
      (h : operandAt tokens fuel after depth terms p = .ok (none, p'))
  | value {e : Expr} {p' : Nat} (hp : p < tokens.length ∨ terms = [] → p < p')
      (hp' : p' ≤ tokens.length) (h : operandAt tokens fuel after depth terms p = .ok (some e, p'))

/-- A call of the parser from a position is refused, or it comes to a later one. At the end it may
    stay where it is. -/
theorem comes (hp : p ≤ tokens.length) : Comes tokens fuel after depth p terms := by
  have hlater : ∀ {v p'}, operand fuel after depth terms (Cursor.ofPosition tokens p) =
      .ok (v, Cursor.ofPosition tokens p') → p < tokens.length → p < p' := by
    intro v p' hok hlt
    refine ((readsWithin fuel).operand hok).position_lt fun hidle => ?_
    have hlength := length_ofPosition tokens p
    rw [hidle.ahead_eq_nil, List.length_nil] at hlength
    omega
  rcases (locatedWithin tokens fuel).exists_operand after depth terms hp with
    ⟨cause, hok, hAt⟩ | ⟨_ | e, p', hp', hok, hAt⟩
  · refine .refused (fun hfuel hcause => ?_) hAt
    rw [← length_ofPosition] at hfuel
    exact (endsWithin fuel).operand after depth terms _ hfuel (hcause ▸ hok)
  · exact .empty (hlater hok) hp' hAt
  · refine .value (fun hcase => hcase.elim (hlater hok) fun hterms => ?_) hp' hAt
    subst hterms
    exact ((readsWithin fuel).operand hok).position_lt Reading.not_isIdle_some

/-- An operand before the end of the tokens comes with a later position. -/
theorem advances_operandAt (hp : p < tokens.length) :
    Advances tokens p (operandAt tokens fuel after depth terms p) := by
  intro v p' hok
  rcases comes (Nat.le_of_lt hp) with ⟨-, h⟩ | ⟨hlt, hle, h⟩ | ⟨hlt, hle, h⟩
  all_goals
    rw [h] at hok
    cases hok
  · exact ⟨hlt hp, hle⟩
  · exact ⟨hlt (.inl hp), hle⟩

/-- At the end of the tokens nothing is read. -/
theorem operandAt_end (tokens : List Token) (fuel : Nat) (after : Bool) (depth : Nat) :
    operandAt tokens (fuel + 1) after depth [] tokens.length = .ok (none, tokens.length) := by
  rw [operandAt, if_neg (Nat.lt_irrefl _)]
  rfl

/-- A call that is given enough calls ends. -/
theorem ends_operandAt (hp : p ≤ tokens.length) (hfuel : 2 * (tokens.length - p) < fuel) :
    Ends (operandAt tokens fuel after depth terms p) := by
  rcases comes hp with ⟨hcause, h⟩ | ⟨-, -, h⟩ | ⟨-, -, h⟩
  · exact .inr ⟨_, hcause hfuel, h⟩
  · exact .inl ⟨_, h⟩
  · exact .inl ⟨_, h⟩

/-- A round of reading arguments is refused, or it passes a token. -/
theorem advances_argumentRound (hp : p ≤ tokens.length) : Advances tokens p
    (argumentRound tokens opener (operandAt tokens fuel false (depth + 1) [] p)) := by
  intro v p' hok
  rcases comes hp with ⟨-, h⟩ | ⟨-, -, h⟩ | ⟨hlt, hle, h⟩
  all_goals rw [h] at hok
  · cases hok
  · cases hok
  · rw [argumentRound_eq hle] at hok
    split at hok
    · cases hok
      exact ⟨hlt (.inr rfl), hle⟩
    · split at hok
      · cases hok
        exact ⟨hlt (.inr rfl), hle⟩
      · cases hok

theorem ends_argumentRound (hp : p ≤ tokens.length) (hfuel : 2 * (tokens.length - p) < fuel) :
    Ends (argumentRound tokens opener (operandAt tokens fuel false (depth + 1) [] p)) := by
  rcases comes hp with ⟨hcause, h⟩ | ⟨-, -, h⟩ | ⟨-, hle, h⟩
  all_goals rw [h]
  · exact .inr ⟨_, hcause hfuel, rfl⟩
  · exact .inr ⟨.emptyOperand, nofun, rfl⟩
  · rw [argumentRound_eq hle]
    split
    · exact .inl ⟨_, rfl⟩
    · split
      · exact .inl ⟨_, rfl⟩
      · exact .inr ⟨.unclosed opener, nofun, rfl⟩

/-- A round of folding operators is refused, or it passes a token. -/
theorem advances_operatorRound (hp : p ≤ tokens.length) :
    Advances tokens p (operatorRound tokens (operandAt tokens fuel true depth [] p)) := by
  intro v p' hok
  rcases comes hp with ⟨-, h⟩ | ⟨-, -, h⟩ | ⟨hlt, hle, h⟩
  all_goals rw [h] at hok
  · cases hok
  · cases hok
  · rw [operatorRound_eq hle] at hok
    split at hok
    · split at hok <;> cases hok <;> exact ⟨hlt (.inr rfl), hle⟩
    · cases hok
      exact ⟨hlt (.inr rfl), hle⟩

theorem ends_operatorRound (hp : p ≤ tokens.length) (hfuel : 2 * (tokens.length - p) < fuel) :
    Ends (operatorRound tokens (operandAt tokens fuel true depth [] p)) := by
  rcases comes hp with ⟨hcause, h⟩ | ⟨-, -, h⟩ | ⟨-, hle, h⟩
  all_goals rw [h]
  · exact .inr ⟨_, hcause hfuel, rfl⟩
  · exact .inr ⟨.emptyOperand, nofun, rfl⟩
  · rw [operatorRound_eq hle]
    split
    · split <;> exact .inl ⟨_, rfl⟩
    · exact .inl ⟨_, rfl⟩

/-- No look-up fails, however many calls there are. -/
theorem operandAt_ne_outOfRange (hp : p ≤ tokens.length) (q : Nat) :
    operandAt tokens fuel after depth terms p ≠ .error (.outOfRange q) := by
  rcases comes hp with ⟨-, h⟩ | ⟨-, -, h⟩ | ⟨-, -, h⟩ <;> rw [h] <;> rintro ⟨⟩

/-! ### Any token list -/

/-- Read by positions, any token list has the tree that the parser gives, or is refused. A call of
    the parser before the end that gives an answer comes to a later position, and no position is
    behind the end; at the end there is nothing to read. A round of reading arguments or of folding
    operators passes a token or is refused. No look-up of a token fails, and no call goes on without
    end. -/
theorem parseAt_advances (tokens : List Token) :
    (∀ fuel after depth terms p, p < tokens.length →
      Advances tokens p (operandAt tokens fuel after depth terms p)) ∧
    (∀ fuel after depth,
      operandAt tokens (fuel + 1) after depth [] tokens.length = .ok (none, tokens.length)) ∧
    (∀ fuel opener depth p, p ≤ tokens.length → Advances tokens p
      (argumentRound tokens opener (operandAt tokens fuel false (depth + 1) [] p))) ∧
    (∀ fuel depth p, p ≤ tokens.length → Advances tokens p
      (operatorRound tokens (operandAt tokens fuel true depth [] p))) ∧
    (∀ fuel p, p ≤ tokens.length → 2 * (tokens.length - p) < fuel →
      (∀ after depth terms, Ends (operandAt tokens fuel after depth terms p)) ∧
      (∀ opener depth,
        Ends (argumentRound tokens opener (operandAt tokens fuel false (depth + 1) [] p))) ∧
      ∀ depth, Ends (operatorRound tokens (operandAt tokens fuel true depth [] p))) ∧
    (∀ fuel after depth terms p q, p ≤ tokens.length →
      operandAt tokens fuel after depth terms p ≠ .error (.outOfRange q)) ∧
    parseAt tokens = (parseTokens tokens).mapError ParseFault.refused ∧ Ends (parseAt tokens) := by
  refine ⟨fun _ _ _ _ _ => advances_operandAt, operandAt_end tokens,
    fun _ _ _ _ => advances_argumentRound, fun _ _ _ => advances_operatorRound,
    fun fuel p hp hfuel => ⟨fun _ _ _ => ends_operandAt hp hfuel,
      fun _ _ => ends_argumentRound hp hfuel, fun _ => ends_operatorRound hp hfuel⟩,
    fun _ _ _ _ _ q hp => operandAt_ne_outOfRange hp q, parseAt_eq tokens, ?_⟩
  rw [parseAt_eq]
  cases hparse : parseTokens tokens with
  | ok tree => exact .inl ⟨tree, rfl⟩
  | error cause =>
      refine .inr ⟨cause, fun hcause => ?_, rfl⟩
      exact parseTokens_ne_exhausted tokens (hcause ▸ hparse)

/-- A call with two arguments, and behind it what follows no operand. -/
def strayTokens : List Token :=
  [⟨.func, "f"⟩, ⟨.leftParen, "("⟩, ⟨.package, "a"⟩, ⟨.comma, ","⟩, ⟨.package, "b"⟩,
    ⟨.rightParen, ")"⟩, ⟨.op, "+"⟩, ⟨.selector, "main"⟩]

/-- The first round of the arguments passes the name and the comma; the token list is refused. -/
theorem parseAt_advances_stray :
    argumentRound strayTokens "f" (operandAt strayTokens 16 false 1 [] 2) =
      .ok ((.package "a", true), 4) ∧ 2 < 4 ∧ 4 ≤ strayTokens.length ∧
    parseAt strayTokens = .error (.refused (.strandedSelector "main")) := by
  have hround : argumentRound strayTokens "f" (operandAt strayTokens 16 false 1 [] 2) =
      .ok ((.package "a", true), 4) := by
    rw [(locatedWithin strayTokens 16).operand false 1 [] 2 (by decide)]
    rfl
  have hadvances := (parseAt_advances strayTokens).2.2.1 16 "f" 0 2 (by decide) _ _ hround
  refine ⟨hround, hadvances.1, hadvances.2, ?_⟩
  rw [(parseAt_advances strayTokens).2.2.2.2.2.2.1]
  rfl

end PackageAlgebra
