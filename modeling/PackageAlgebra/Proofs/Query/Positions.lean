import PackageAlgebra.Proofs.Query.Reading

/-!
# Reading by Positions

The parser as it counts positions.

The parser reads from a cursor, which is a place between two tokens, and so there is no way in which
it could read a token that is not there. Here it is written once more, with a number for the place,
with loops that ask whether the number is below the length, and with a token looked up in the list
wherever one is needed. A look-up behind the end of the list is a fault of its own, other than those
that the parser knows. What one round of a loop does is a function by itself, so that something can
be said about it.

Each number up to the length stands for a cursor, and by an induction on the number of calls both
ways of reading give the same answers, at all such numbers. The cursor that a reading comes to
stands for a number again because a reading passes tokens one by one. So no look-up fails, and the
positions inherit what is known of cursors.

## Main definitions

* `ParseFault`: What can go wrong when tokens are looked up.
* `operandAt`, `argumentsAt`, `operatorsAt`: The functions of the parser, by positions.
* `argumentRound`, `operatorRound`: One round of their loops.
* `parseAt`: The syntax tree of a token list, read by positions.
* `Cursor.ofPosition`: The cursor at a position.

## Theorems

* `Reads.exists_position`: A reading goes from position to position.
* `locatedWithin`: Reading by positions gives what reading from cursors gives.
* `parseAt_eq`: So does reading a whole token list.
-/

namespace PackageAlgebra

open Relation

/-- What can go wrong when tokens are looked up. -/
inductive ParseFault
  -- The token list is no query.
  | refused (cause : ParseError)
  -- No token is at the position that is looked up.
  | outOfRange (position : Nat)
  deriving DecidableEq

/-- The token at a position. -/
def tokenAt (tokens : List Token) (p : Nat) : Except ParseFault Token :=
  match tokens[p]? with
  | some t => .ok t
  | none => .error (.outOfRange p)

/-- The token before a position, none at the beginning. -/
def tokenBefore (tokens : List Token) (p : Nat) : Except ParseFault (Option Token) :=
  if p = 0 then .ok none else (tokenAt tokens (p - 1)).map some

/-- Whether the token at a position is of a kind. At the end there is none. -/
def isAt (tokens : List Token) (kind : TokenKind) (p : Nat) : Except ParseFault Bool :=
  if p < tokens.length then (tokenAt tokens p).map fun t => decide (t.kind = kind) else .ok false

/-- Wrap the selectors from a position on around a term. -/
def selectorsAt (tokens : List Token) (term : Expr) (p : Nat) : Except ParseFault (Expr × Nat) :=
  if p < tokens.length then
    match tokenAt tokens p with
    | .error fault => .error fault
    | .ok t =>
      if t.kind = .selector then selectorsAt tokens (.select term t.text) (p + 1) else .ok (term, p)
  else .ok (term, p)
termination_by tokens.length - p

/-- One round of reading arguments: an argument, and whether another one is to follow. -/
def argumentRound (tokens : List Token) (opener : String)
    (operand : Except ParseFault (Option Expr × Nat)) :
    Except ParseFault ((Expr × Bool) × Nat) := do
  match ← operand with
  | (none, _) => .error (.refused .emptyOperand)
  | (some arg, p) =>
    let closing ← tokenBefore tokens p
    if closing.any (·.kind = .comma) then .ok ((arg, true), p)
    else if closing.any (·.kind = .rightParen) then .ok ((arg, false), p)
    else .error (.refused (.unclosed opener))

/-- One round of folding operators: an operand, and the operator that is to follow. -/
def operatorRound (tokens : List Token) (operand : Except ParseFault (Option Expr × Nat)) :
    Except ParseFault ((Expr × Option String) × Nat) := do
  match ← operand with
  | (none, _) => .error (.refused .emptyOperand)
  | (some right, p) =>
    match ← tokenBefore tokens p with
    | some t => if t.kind = .op then .ok ((right, some t.text), p) else .ok ((right, none), p)
    | none => .ok ((right, none), p)

mutual

/-- Read from a position what stands between two separators. -/
def operandAt (tokens : List Token) :
    Nat → Bool → Nat → List Expr → Nat → Except ParseFault (Option Expr × Nat)
  | 0, _, _, _, _ => .error (.refused .exhausted)
  | fuel + 1, afterOperator, depth, terms, p =>
    if p < tokens.length then do
      let t ← tokenAt tokens p
      match t.kind with
      | .package =>
        if ← isAt tokens .assign (p + 1) then
          if !terms.isEmpty || afterOperator then .error (.refused .misplacedAssignment)
          else
            match ← operandAt tokens fuel false depth [] (p + 2) with
            | (none, _) => .error (.refused (.emptyAssignment t.text))
            | (some value, p') => .ok (some (.assign t.text value), p')
        else
          let (term, p') ← selectorsAt tokens (.package t.text) (p + 1)
          operandAt tokens fuel afterOperator depth (terms ++ [term]) p'
      | .func =>
        if ← isAt tokens .leftParen (p + 1) then
          let (args, p') ← argumentsAt tokens fuel t.text depth [] (p + 2)
          let (term, p') ← selectorsAt tokens (.call t.text args) p'
          operandAt tokens fuel afterOperator depth (terms ++ [term]) p'
        else .error (.refused (.parenExpected t.text))
      | .leftParen =>
        match ← argumentsAt tokens fuel t.text depth [] (p + 1) with
        | ([arg], p') =>
          let (term, p') ← selectorsAt tokens arg p'
          operandAt tokens fuel afterOperator depth (terms ++ [term]) p'
        | (_, _) => .error (.refused .commaInGroup)
      | .op =>
        if afterOperator then .ok (juxtapose terms, p + 1)
        else
          match juxtapose terms with
          | none => .error (.refused (.missingLeft t.text))
          | some left =>
            let (e, p') ← operatorsAt tokens fuel depth left t.text (p + 1)
            .ok (some e, p')
      | .selector => .error (.refused (.strandedSelector t.text))
      | .rightParen | .comma =>
        if depth = 0 then .error (.refused (.strandedMark t.text))
        else .ok (juxtapose terms, p + 1)
      | .semicolon =>
        if depth > 0 then .error (.refused .semicolonInParens) else .ok (juxtapose terms, p + 1)
      | .assign => .error (.refused (.unexpectedToken t))
    else .ok (juxtapose terms, p)

/-- Read operands from a position up to the parenthesis that closes the one opened by `opener`. -/
def argumentsAt (tokens : List Token) :
    Nat → String → Nat → List Expr → Nat → Except ParseFault (List Expr × Nat)
  | 0, _, _, _, _ => .error (.refused .exhausted)
  | fuel + 1, opener, depth, args, p => do
    let ((arg, more), p') ←
      argumentRound tokens opener (operandAt tokens fuel false (depth + 1) [] p)
    if more then argumentsAt tokens fuel opener depth (args ++ [arg]) p'
    else .ok (args ++ [arg], p')

/-- Fold the operands from a position on to the left, as long as another operator ends one. -/
def operatorsAt (tokens : List Token) :
    Nat → Nat → Expr → String → Nat → Except ParseFault (Expr × Nat)
  | 0, _, _, _, _ => .error (.refused .exhausted)
  | fuel + 1, depth, left, op, p => do
    let ((right, next), p') ← operatorRound tokens (operandAt tokens fuel true depth [] p)
    match next with
    | some op' => operatorsAt tokens fuel depth (.call op [left, right]) op' p'
    | none => .ok (.call op [left, right], p')

end

/-- Read statements from a position to the end, dropping the empty ones. -/
def statementsAt (tokens : List Token) : Nat → Nat → Except ParseFault (List Expr)
  | 0, p => if p < tokens.length then .error (.refused .exhausted) else .ok []
  | fuel + 1, p =>
    if p < tokens.length then do
      let (e, p') ← operandAt tokens (parseBound (tokens.drop p)) false 0 [] p
      let es ← statementsAt tokens fuel p'
      .ok (e.toList ++ es)
    else .ok []

/-- The syntax tree of a token list, read by positions. -/
def parseAt (tokens : List Token) : Except ParseFault (Option Expr) :=
  (statementsAt tokens tokens.length 0).map Expr.ofStatements

/-- The cursor at a position. -/
def Cursor.ofPosition (tokens : List Token) (p : Nat) : Cursor :=
  ⟨if p = 0 then none else tokens[p - 1]?, tokens.drop p⟩

/-- An answer with a position in place of a cursor. -/
def located {α : Type} (tokens : List Token) :
    Except ParseError (α × Cursor) → Except ParseFault (α × Nat)
  | .error cause => .error (.refused cause)
  | .ok (a, cur) => .ok (a, tokens.length - cur.ahead.length)

variable {tokens : List Token} {p p' : Nat} {cur : Cursor} {t : Token} {kind : TokenKind}
  {r : Reading}

/-! ### Cursors at positions -/

theorem Cursor.ofPosition_succ (ht : tokens[p]? = some t) :
    Cursor.ofPosition tokens (p + 1) = ⟨some t, tokens.drop (p + 1)⟩ := by
  unfold Cursor.ofPosition
  rw [if_neg (Nat.succ_ne_zero p), Nat.add_sub_cancel, ht]

theorem Cursor.ahead_ofPosition (ht : tokens[p]? = some t) :
    (Cursor.ofPosition tokens p).ahead = t :: (Cursor.ofPosition tokens (p + 1)).ahead := by
  rcases List.getElem?_eq_some_iff.1 ht with ⟨hp, rfl⟩
  exact List.drop_eq_getElem_cons hp

theorem Cursor.ahead_ofPosition_end : (Cursor.ofPosition tokens tokens.length).ahead = [] :=
  List.drop_length

theorem Cursor.length_ahead_ofPosition (hp : p ≤ tokens.length) :
    tokens.length - (Cursor.ofPosition tokens p).ahead.length = p := by
  unfold Cursor.ofPosition
  rw [List.length_drop]
  omega

/-- To pass a token is to go to the next position. -/
theorem Cursor.Step.ofPosition_succ (h : Cursor.Step (Cursor.ofPosition tokens p) cur) :
    p < tokens.length ∧ cur = Cursor.ofPosition tokens (p + 1) := by
  rcases h with ⟨t, hahead, hpassed⟩
  have hp : p < tokens.length := by
    refine Nat.lt_of_not_le fun hend => ?_
    unfold Cursor.ofPosition at hahead
    rw [List.drop_eq_nil_of_le hend] at hahead
    exact absurd hahead (List.cons_ne_nil _ _).symm
  have ht := List.getElem?_eq_getElem hp
  rw [Cursor.ahead_ofPosition ht, List.cons.injEq] at hahead
  rw [Cursor.ofPosition_succ ht, hahead.1, ← hpassed]
  refine ⟨hp, ?_⟩
  rw [Cursor.ofPosition_succ ht] at hahead
  exact congrArg (Cursor.mk cur.passed) hahead.2.symm

/-- To pass tokens is to come to another position. -/
theorem Cursor.exists_position (hp : p ≤ tokens.length)
    (h : ReflTransGen Cursor.Step (Cursor.ofPosition tokens p) cur) :
    ∃ p', cur = Cursor.ofPosition tokens p' ∧ p' ≤ tokens.length := by
  induction h with
  | refl => exact ⟨p, rfl, hp⟩
  | tail _ hstep ih =>
      rcases ih with ⟨q, rfl, -⟩
      exact ⟨q + 1, hstep.ofPosition_succ.2, hstep.ofPosition_succ.1⟩

/-- A reading from a position comes to another one. -/
theorem Reads.exists_position (hp : p ≤ tokens.length)
    (h : Reads r (Cursor.ofPosition tokens p) cur) :
    ∃ p', cur = Cursor.ofPosition tokens p' ∧ p' ≤ tokens.length := by
  rcases h.passes with hpasses | ⟨-, rfl⟩
  · exact Cursor.exists_position hp hpasses.to_reflTransGen
  · exact ⟨p, rfl, hp⟩

/-- The position that a reading comes to is a later one, unless no token is left. -/
theorem Reads.position_lt
    (h : Reads r (Cursor.ofPosition tokens p) (Cursor.ofPosition tokens p'))
    (hr : ¬ r.IsIdle (Cursor.ofPosition tokens p)) : p < p' := by
  have hlt := h.length_lt hr
  unfold Cursor.ofPosition at hlt
  rw [List.length_drop, List.length_drop] at hlt
  omega

/-! ### Look-ups -/

theorem tokenAt_eq (ht : tokens[p]? = some t) : tokenAt tokens p = .ok t := by
  unfold tokenAt
  rw [ht]

theorem tokenBefore_eq (hp : p ≤ tokens.length) :
    tokenBefore tokens p = .ok (Cursor.ofPosition tokens p).passed := by
  unfold tokenBefore Cursor.ofPosition
  by_cases hzero : p = 0
  · rw [if_pos hzero, if_pos hzero]
  · have hbefore : p - 1 < tokens.length := by omega
    rw [if_neg hzero, if_neg hzero, tokenAt_eq (List.getElem?_eq_getElem hbefore),
      List.getElem?_eq_getElem hbefore]
    rfl

theorem isAt_eq (ht : tokens[p]? = some t) : isAt tokens kind p = .ok (decide (t.kind = kind)) := by
  unfold isAt
  rw [if_pos (List.getElem?_eq_some_iff.1 ht).1, tokenAt_eq ht]
  rfl

theorem isAt_end : isAt tokens kind tokens.length = .ok false := by
  unfold isAt
  rw [if_neg (Nat.lt_irrefl _)]

/-- A round of reading arguments ends with the token before its position. -/
theorem argumentRound_eq {arg : Expr} {opener : String} (hp : p ≤ tokens.length) :
    argumentRound tokens opener (.ok (some arg, p)) =
      if (Cursor.ofPosition tokens p).hasPassed .comma then .ok ((arg, true), p)
      else if (Cursor.ofPosition tokens p).hasPassed .rightParen then .ok ((arg, false), p)
      else .error (.refused (.unclosed opener)) := by
  simp only [argumentRound, bind, Except.bind, tokenBefore_eq hp]
  rfl

/-- So does a round of folding operators. -/
theorem operatorRound_eq {right : Expr} (hp : p ≤ tokens.length) :
    operatorRound tokens (.ok (some right, p)) =
      match (Cursor.ofPosition tokens p).passed with
      | some t => if t.kind = .op then .ok ((right, some t.text), p) else .ok ((right, none), p)
      | none => .ok ((right, none), p) := by
  simp only [operatorRound, bind, Except.bind, tokenBefore_eq hp]

/-! ### The same answers -/

theorem located_ofPosition {α : Type} {a : α} (hp : p ≤ tokens.length) :
    located tokens (.ok (a, Cursor.ofPosition tokens p)) = .ok (a, p) := by
  unfold located
  simp only [Cursor.length_ahead_ofPosition hp]

/-- An answer that ends with a token comes with the position behind it. -/
theorem located_passed {α : Type} (ht : tokens[p]? = some t) (a : α) :
    located tokens (.ok (a, ⟨some t, (Cursor.ofPosition tokens (p + 1)).ahead⟩)) =
      .ok (a, p + 1) := by
  have hle : p + 1 ≤ tokens.length := (List.getElem?_eq_some_iff.1 ht).1
  rw [← located_ofPosition hle, Cursor.ofPosition_succ ht]

/-- The selectors from a position on are those ahead of its cursor. -/
theorem selectorsAt_eq (term : Expr) (hp : p ≤ tokens.length) :
    ∃ p', selectorsAt tokens term p = .ok
        ((attachSelectors term (Cursor.ofPosition tokens p).passed
          (Cursor.ofPosition tokens p).ahead).1, p') ∧
      (attachSelectors term (Cursor.ofPosition tokens p).passed
        (Cursor.ofPosition tokens p).ahead).2 = Cursor.ofPosition tokens p' ∧
      p ≤ p' ∧ p' ≤ tokens.length := by
  fun_induction selectorsAt tokens term p with
  | case1 term p hlt fault hfault =>
      rw [tokenAt_eq (List.getElem?_eq_getElem hlt)] at hfault
      cases hfault
  | case2 term p hlt t ht hk ih =>
      have hget := List.getElem?_eq_getElem hlt
      rw [tokenAt_eq hget, Except.ok.injEq] at ht
      rw [ht] at hget
      rcases ih hlt with ⟨p', hselectors, hcur, hle, hend⟩
      rw [Cursor.ofPosition_succ hget] at hselectors hcur
      rw [Cursor.ahead_ofPosition hget, Cursor.ofPosition_succ hget]
      simp only [attachSelectors, if_pos hk]
      exact ⟨p', hselectors, hcur, Nat.le_of_succ_le hle, hend⟩
  | case3 term p hlt t ht hk =>
      have hget := List.getElem?_eq_getElem hlt
      rw [tokenAt_eq hget, Except.ok.injEq] at ht
      rw [ht] at hget
      refine ⟨p, ?_, ?_, Nat.le_refl p, hp⟩
      · rw [Cursor.ahead_ofPosition hget]
        simp only [attachSelectors, if_neg hk]
      · have hahead := Cursor.ahead_ofPosition hget
        rw [hahead]
        simp only [attachSelectors, if_neg hk]
        rw [← hahead]
  | case4 term p hlt =>
      have hend : p = tokens.length := by omega
      subst hend
      rw [Cursor.ahead_ofPosition_end]
      refine ⟨_, rfl, ?_, Nat.le_refl _, hp⟩
      simp only [attachSelectors]
      rw [← Cursor.ahead_ofPosition_end]

/-- Within a number of calls, reading by positions gives what reading from cursors gives. -/
structure LocatedWithin (tokens : List Token) (fuel : Nat) : Prop where
  operand : ∀ after depth terms p, p ≤ tokens.length →
    operandAt tokens fuel after depth terms p =
      located tokens (operand fuel after depth terms (Cursor.ofPosition tokens p))
  arguments : ∀ opener depth args p, p ≤ tokens.length →
    argumentsAt tokens fuel opener depth args p =
      located tokens (arguments fuel opener depth args (Cursor.ofPosition tokens p))
  operators : ∀ depth left op p, p ≤ tokens.length →
    operatorsAt tokens fuel depth left op p =
      located tokens (operators fuel depth left op (Cursor.ofPosition tokens p))

namespace LocatedWithin

variable {fuel depth : Nat} {after : Bool} {terms args : List Expr} {left term : Expr}
  {op opener : String}

/-- A term, with its selectors attached, begins an operand. -/
theorem beside (h : LocatedWithin tokens fuel) (after : Bool) (depth : Nat) (terms : List Expr)
    (term : Expr) (hp : p ≤ tokens.length) :
    (do
      let (term, p') ← selectorsAt tokens term p
      operandAt tokens fuel after depth (terms ++ [term]) p') =
      located tokens
        (PackageAlgebra.operand fuel after depth
          (terms ++ [(attachSelectors term (Cursor.ofPosition tokens p).passed
            (Cursor.ofPosition tokens p).ahead).1])
          (attachSelectors term (Cursor.ofPosition tokens p).passed
            (Cursor.ofPosition tokens p).ahead).2) := by
  rcases selectorsAt_eq term hp with ⟨p', hselectors, hcur, -, hend⟩
  rw [hselectors, hcur]
  exact h.operand after depth _ p' hend

/-- An operand is read to a position. -/
theorem exists_operand (h : LocatedWithin tokens fuel) (after : Bool) (depth : Nat)
    (terms : List Expr) (hp : p ≤ tokens.length) :
    (∃ cause, PackageAlgebra.operand fuel after depth terms (Cursor.ofPosition tokens p) =
        .error cause ∧
      operandAt tokens fuel after depth terms p = .error (.refused cause)) ∨
    ∃ v p', p' ≤ tokens.length ∧
      PackageAlgebra.operand fuel after depth terms (Cursor.ofPosition tokens p) =
        .ok (v, Cursor.ofPosition tokens p') ∧
      operandAt tokens fuel after depth terms p = .ok (v, p') := by
  rw [h.operand after depth terms p hp]
  cases hv : PackageAlgebra.operand fuel after depth terms (Cursor.ofPosition tokens p) with
  | error cause => exact .inl ⟨cause, rfl, rfl⟩
  | ok answer =>
      rcases answer with ⟨v, cur⟩
      rcases ((readsWithin fuel).operand hv).exists_position hp with ⟨p', rfl, hend⟩
      exact .inr ⟨v, p', hend, rfl, located_ofPosition hend⟩

/-- A list of arguments is read to a position, where the operand goes on. -/
theorem exists_arguments (h : LocatedWithin tokens fuel) (opener : String) (depth : Nat)
    (args : List Expr) (hp : p ≤ tokens.length) :
    (∃ cause, PackageAlgebra.arguments fuel opener depth args (Cursor.ofPosition tokens p) =
        .error cause ∧
      argumentsAt tokens fuel opener depth args p = .error (.refused cause)) ∨
    ∃ es p', p' ≤ tokens.length ∧
      PackageAlgebra.arguments fuel opener depth args (Cursor.ofPosition tokens p) =
        .ok (es, Cursor.ofPosition tokens p') ∧
      argumentsAt tokens fuel opener depth args p = .ok (es, p') := by
  rw [h.arguments opener depth args p hp]
  cases hargs : PackageAlgebra.arguments fuel opener depth args (Cursor.ofPosition tokens p) with
  | error cause => exact .inl ⟨cause, rfl, rfl⟩
  | ok answer =>
      rcases answer with ⟨es, cur⟩
      rcases ((readsWithin fuel).arguments hargs).exists_position hp with ⟨p', rfl, hend⟩
      exact .inr ⟨es, p', hend, rfl, located_ofPosition hend⟩

section

variable (h : LocatedWithin tokens fuel) (passed : Option Token) (ht : tokens[p]? = some t)
include h ht

/-- A name is a term, unless something is assigned to it. -/
theorem package_succ (hk : t.kind = .package) :
    operandAt tokens (fuel + 1) after depth terms p =
      located tokens (PackageAlgebra.operand (fuel + 1) after depth terms
        ⟨passed, t :: (Cursor.ofPosition tokens (p + 1)).ahead⟩) := by
  have hlt := (List.getElem?_eq_some_iff.1 ht).1
  have hle : p + 1 ≤ tokens.length := hlt
  simp only [operandAt, if_pos hlt, tokenAt_eq ht, hk, PackageAlgebra.operand, bind, Except.bind]
  have hbeside := h.beside after depth terms (.package t.text) hle
  rw [Cursor.ofPosition_succ ht] at hbeside
  rcases Nat.lt_or_ge (p + 1) tokens.length with hlt' | hge
  · have ht' := List.getElem?_eq_getElem hlt'
    generalize tokens[p + 1] = next at ht'
    rw [← Cursor.ofPosition_succ ht, Cursor.ahead_ofPosition ht',
      Cursor.ofPosition_succ ht] at hbeside
    rw [Cursor.ahead_ofPosition ht', isAt_eq ht']
    by_cases hassign : next.kind = .assign
    · simp only [hassign, decide_true, if_true]
      split
      · rfl
      · have hvalue := h.operand false depth [] (p + 2) (Nat.succ_le_of_lt hlt')
        rw [Cursor.ofPosition_succ ht'] at hvalue ⊢
        rw [hvalue]
        rcases PackageAlgebra.operand fuel false depth []
          ⟨some next, tokens.drop (p + 2)⟩ with cause | ⟨_ | value, cur⟩ <;> rfl
    · simp only [hassign, decide_false, Bool.false_eq_true, if_false]
      exact hbeside
  · have hend : p + 1 = tokens.length := by omega
    rw [hend, Cursor.ahead_ofPosition_end, isAt_end]
    rw [hend, List.drop_length] at hbeside
    exact hbeside

/-- A function takes its arguments behind a parenthesis. -/
theorem func_succ (hk : t.kind = .func) :
    operandAt tokens (fuel + 1) after depth terms p =
      located tokens (PackageAlgebra.operand (fuel + 1) after depth terms
        ⟨passed, t :: (Cursor.ofPosition tokens (p + 1)).ahead⟩) := by
  have hlt := (List.getElem?_eq_some_iff.1 ht).1
  simp only [operandAt, if_pos hlt, tokenAt_eq ht, hk, PackageAlgebra.operand, bind, Except.bind]
  rcases Nat.lt_or_ge (p + 1) tokens.length with hlt' | hge
  · have ht' := List.getElem?_eq_getElem hlt'
    generalize tokens[p + 1] = next at ht'
    rw [Cursor.ahead_ofPosition ht', isAt_eq ht']
    by_cases hparen : next.kind = .leftParen
    · simp only [hparen, decide_true, if_true]
      have hargs := h.exists_arguments t.text depth [] (Nat.succ_le_of_lt hlt')
      rw [Cursor.ofPosition_succ ht'] at hargs ⊢
      rcases hargs with ⟨cause, hargs, hargsAt⟩ | ⟨args, p', hp', hargs, hargsAt⟩
      · rw [hargs, hargsAt]
        rfl
      · rw [hargs, hargsAt]
        exact h.beside after depth terms (.call t.text args) hp'
    · simp only [hparen, decide_false, Bool.false_eq_true, if_false]
      rfl
  · have hend : p + 1 = tokens.length := by omega
    rw [hend, Cursor.ahead_ofPosition_end, isAt_end]
    rfl

/-- A parenthesis by itself holds one argument. -/
theorem leftParen_succ (hk : t.kind = .leftParen) :
    operandAt tokens (fuel + 1) after depth terms p =
      located tokens (PackageAlgebra.operand (fuel + 1) after depth terms
        ⟨passed, t :: (Cursor.ofPosition tokens (p + 1)).ahead⟩) := by
  have hlt := (List.getElem?_eq_some_iff.1 ht).1
  simp only [operandAt, if_pos hlt, tokenAt_eq ht, hk, PackageAlgebra.operand, bind, Except.bind]
  have hargs := h.exists_arguments t.text depth [] (Nat.succ_le_of_lt hlt)
  rw [Cursor.ofPosition_succ ht] at hargs ⊢
  rcases hargs with ⟨cause, hargs, hargsAt⟩ | ⟨args, p', hp', hargs, hargsAt⟩
  · rw [hargs, hargsAt]
    rfl
  · rw [hargs, hargsAt]
    rcases args with _ | ⟨arg, _ | ⟨other, rest⟩⟩
    · rfl
    · exact h.beside after depth terms arg hp'
    · rfl

/-- An operator ends an operand, or it folds those that follow. -/
theorem op_succ (hk : t.kind = .op) :
    operandAt tokens (fuel + 1) after depth terms p =
      located tokens (PackageAlgebra.operand (fuel + 1) after depth terms
        ⟨passed, t :: (Cursor.ofPosition tokens (p + 1)).ahead⟩) := by
  have hlt := (List.getElem?_eq_some_iff.1 ht).1
  simp only [operandAt, if_pos hlt, tokenAt_eq ht, hk, PackageAlgebra.operand, bind, Except.bind]
  split
  · exact (located_passed ht _).symm
  · cases juxtapose terms with
    | none => rfl
    | some left =>
        have hlater := h.operators depth left t.text (p + 1) (Nat.succ_le_of_lt hlt)
        rw [Cursor.ofPosition_succ ht] at hlater ⊢
        simp only [hlater]
        cases PackageAlgebra.operators fuel depth left t.text
          ⟨some t, tokens.drop (p + 1)⟩ <;> rfl

end

theorem operand_succ (h : LocatedWithin tokens fuel) (hp : p ≤ tokens.length) :
    operandAt tokens (fuel + 1) after depth terms p =
      located tokens
        (PackageAlgebra.operand (fuel + 1) after depth terms (Cursor.ofPosition tokens p)) := by
  by_cases hlt : p < tokens.length
  · have ht := List.getElem?_eq_getElem hlt
    generalize tokens[p] = t at ht
    have hcur : Cursor.ofPosition tokens p =
        ⟨(Cursor.ofPosition tokens p).passed, t :: (Cursor.ofPosition tokens (p + 1)).ahead⟩ :=
      congrArg (Cursor.mk _) (Cursor.ahead_ofPosition ht)
    rw [hcur]
    cases hk : t.kind with
    | package => exact h.package_succ _ ht hk
    | func => exact h.func_succ _ ht hk
    | leftParen => exact h.leftParen_succ _ ht hk
    | op => exact h.op_succ _ ht hk
    | _ =>
        -- Any other token ends the operand or is refused.
        simp only [operandAt, if_pos hlt, tokenAt_eq ht, hk, PackageAlgebra.operand, bind,
          Except.bind]
        first
          | rfl
          | split
            · rfl
            · exact (located_passed ht _).symm
  · have hend : p = tokens.length := by omega
    subst hend
    have hcur : Cursor.ofPosition tokens tokens.length =
        ⟨(Cursor.ofPosition tokens tokens.length).passed, []⟩ :=
      congrArg (Cursor.mk _) Cursor.ahead_ofPosition_end
    rw [hcur]
    simp only [operandAt, if_neg hlt, PackageAlgebra.operand]
    rfl

theorem arguments_succ (h : LocatedWithin tokens fuel) (hp : p ≤ tokens.length) :
    argumentsAt tokens (fuel + 1) opener depth args p =
      located tokens
        (PackageAlgebra.arguments (fuel + 1) opener depth args (Cursor.ofPosition tokens p)) := by
  simp only [argumentsAt, PackageAlgebra.arguments]
  rcases h.exists_operand false (depth + 1) [] hp with
    ⟨cause, hv, hvAt⟩ | ⟨_ | arg, p', hp', hv, hvAt⟩
  · rw [hv, hvAt]
    rfl
  · rw [hv, hvAt]
    rfl
  · rw [hv, hvAt, argumentRound_eq hp']
    simp only
    by_cases hcomma : (Cursor.ofPosition tokens p').hasPassed .comma = true
    · rw [if_pos hcomma, if_pos hcomma]
      exact h.arguments opener depth (args ++ [arg]) p' hp'
    · rw [if_neg hcomma, if_neg hcomma]
      by_cases hclosed : (Cursor.ofPosition tokens p').hasPassed .rightParen = true
      · rw [if_pos hclosed, if_pos hclosed]
        exact (located_ofPosition hp').symm
      · rw [if_neg hclosed, if_neg hclosed]
        rfl

theorem operators_succ (h : LocatedWithin tokens fuel) (hp : p ≤ tokens.length) :
    operatorsAt tokens (fuel + 1) depth left op p =
      located tokens
        (PackageAlgebra.operators (fuel + 1) depth left op (Cursor.ofPosition tokens p)) := by
  simp only [operatorsAt, PackageAlgebra.operators]
  rcases h.exists_operand true depth [] hp with
    ⟨cause, hv, hvAt⟩ | ⟨_ | right, p', hp', hv, hvAt⟩
  · rw [hv, hvAt]
    rfl
  · rw [hv, hvAt]
    rfl
  · rw [hv, hvAt, operatorRound_eq hp']
    simp only
    cases (Cursor.ofPosition tokens p').passed with
    | none => exact (located_ofPosition hp').symm
    | some t =>
        by_cases hop : t.kind = .op
        · simp only [if_pos hop]
          exact h.operators depth (.call op [left, right]) t.text p' hp'
        · simp only [if_neg hop]
          exact (located_ofPosition hp').symm

end LocatedWithin

/-- Reading by positions gives what reading from cursors gives. -/
theorem locatedWithin (tokens : List Token) (fuel : Nat) : LocatedWithin tokens fuel := by
  induction fuel with
  | zero =>
      constructor
      · intro after depth terms p _
        simp only [operandAt, operand, located]
      · intro opener depth args p _
        simp only [argumentsAt, arguments, located]
      · intro depth left op p _
        simp only [operatorsAt, operators, located]
  | succ n ih =>
      exact ⟨fun _ _ _ _ hp => ih.operand_succ hp, fun _ _ _ _ hp => ih.arguments_succ hp,
        fun _ _ _ _ hp => ih.operators_succ hp⟩

/-! ### Token lists -/

/-- Statements read by positions are those read from cursors. -/
theorem statementsAt_eq (tokens : List Token) (fuel : Nat) (hp : p ≤ tokens.length) :
    statementsAt tokens fuel p =
      (statements fuel (Cursor.ofPosition tokens p)).mapError ParseFault.refused := by
  have hempty : ∀ {p}, (Cursor.ofPosition tokens p).ahead.isEmpty = decide (tokens.length ≤ p) := by
    intro p
    rw [Bool.eq_iff_iff, List.isEmpty_iff, decide_eq_true_eq]
    exact List.drop_eq_nil_iff
  induction fuel generalizing p with
  | zero =>
      rw [statementsAt, statements, hempty]
      by_cases hlt : p < tokens.length
      · rw [if_pos hlt, if_neg (by simpa using hlt)]
        rfl
      · rw [if_neg hlt, if_pos (by simpa using hlt)]
        rfl
  | succ n ih =>
      rw [statementsAt, statements, hempty]
      by_cases hlt : p < tokens.length
      · rw [if_pos hlt, if_neg (by simpa using hlt)]
        have hahead : (Cursor.ofPosition tokens p).ahead = tokens.drop p := rfl
        rw [hahead]
        rcases (locatedWithin tokens (parseBound (tokens.drop p))).exists_operand false 0 [] hp with
          ⟨cause, hv, hvAt⟩ | ⟨v, p', hp', hv, hvAt⟩
        · rw [hv, hvAt]
          rfl
        · simp only [hv, hvAt, bind, Except.bind, ih hp']
          cases statements n (Cursor.ofPosition tokens p') <;> rfl
      · rw [if_neg hlt, if_pos (by simpa using hlt)]
        rfl

/-- A token list read by positions has the tree that it has. -/
theorem parseAt_eq (tokens : List Token) :
    parseAt tokens = (parseTokens tokens).mapError ParseFault.refused := by
  unfold parseAt parseTokens
  rw [statementsAt_eq tokens tokens.length (Nat.zero_le _)]
  change Except.map _ ((statements tokens.length ⟨none, tokens⟩).mapError _) = _
  rcases statements tokens.length ⟨none, tokens⟩ with cause | ⟨_ | ⟨e, _ | ⟨f, es⟩⟩⟩ <;> rfl

end PackageAlgebra
