import Mathlib.Algebra.GroupWithZero.Nat
import PackageAlgebra.Calculator.Library

/-!
# The Moves of a Library

What can happen next to a library in use, and why it comes to rest.

A call makes one of twelve moves, and whoever keeps a promise one of three; each is named, with
what has to be so for it and the state that it leads to. A state is measured by the moves that are
still to be made: those that a call needs at most from the point where it is, and those that a
promise needs until it is kept. The call that makes a promise takes the moves of the promise upon
itself, so each move lowers the measure, whoever makes it and whatever the loader says. What
happens from outside is not measured: calls arrive at any time.

## Main definitions

* `Moved`, `Served`: The moves of a call, and those of whoever keeps a promise.
* `Action.IsOwn`: What happens is a move of either.
* `State.remaining`: How many moves are still to be made, at most.

## Theorems

* `move?_eq_some_iff`, `serve?_eq_some_iff`: The next move is one of these.
* `exists_answered_of_remaining`: A call with no move left is answered.
* `remaining_moved_lt`, `remaining_served_lt`: Each move brings a state closer to rest.
* `length_add_remaining_le`: A schedule of moves is no longer than the moves that are left.
-/

namespace PackageAlgebra

namespace Library

variable {σ ρ : Type} {lib : Library σ ρ} {s s' : State σ ρ} {i k : Nat}

/-- The moves of a call. -/
inductive Moved (i : Nat) (c : Call) (s : State σ ρ) : State σ ρ → Prop
  -- It takes the lock.
  | enter (hphase : s.calls[i]? = some (c, .entering)) (hfree : s.lock = none) :
      Moved i c s ({ s with lock := some i }.advance i c .inside)
  -- It finds a promise in the slot.
  | find {k : Nat} (hphase : s.calls[i]? = some (c, .inside)) (hslot : s.slot = some k) :
      Moved i c s (s.advance i c (.leaving k))
  -- It finds the slot empty.
  | miss (hphase : s.calls[i]? = some (c, .inside)) (hslot : s.slot = none) :
      Moved i c s (s.advance i c .missing)
  -- It hires a worker.
  | hire (hphase : s.calls[i]? = some (c, .missing)) (hcall : c = .prefetch) :
      Moved i c s ({ s with promises := s.promises ++ [Promise.pending] }.advance i c
        (.made s.promises.length))
  -- It writes into the slot that a worker has been hired.
  | put {k : Nat} (hphase : s.calls[i]? = some (c, .made k)) :
      Moved i c s ({ s with slot := some k }.advance i c (.leaving k))
  -- It sets to work itself.
  | begin (hphase : s.calls[i]? = some (c, .missing)) (hcall : c ≠ .prefetch) :
      Moved i c s ({ s with
          promises := s.promises ++ [Promise.pending], slot := some s.promises.length }.advance i c
        (.loading s.promises.length))
  -- It is through with its work.
  | finish {k : Nat} {outcome : Outcome ρ} (hphase : s.calls[i]? = some (c, .loading k))
      (hkept : s.promised? k = some outcome) :
      Moved i c s (s.advance i c (.leaving k))
  -- It gives the lock back.
  | leave {k : Nat} (hphase : s.calls[i]? = some (c, .leaving k)) :
      Moved i c s ({ s with lock := none }.advance i c (.waiting k))
  -- It does not wait.
  | done {k : Nat} (hphase : s.calls[i]? = some (c, .waiting k)) (hcall : c = .prefetch) :
      Moved i c s (s.advance i c (.answered .done))
  -- It gets a copy of the set.
  | copy {k : Nat} {members : PackageSet ρ} (hphase : s.calls[i]? = some (c, .waiting k))
      (hcall : c = .get) (hkept : s.promised? k = some (.ok members)) :
      Moved i c s ({ s with sets := s.sets ++ [members] }.advance i c
        (.answered (.set s.sets.length members)))
  -- It learns whether the package is in the set.
  | look {k : Nat} {members : PackageSet ρ} {id : String}
      (hphase : s.calls[i]? = some (c, .waiting k)) (hcall : c = .isMember id)
      (hkept : s.promised? k = some (.ok members)) :
      Moved i c s (s.advance i c (.answered (.member (members.contains id))))
  -- It learns why there is no set.
  | fail {k : Nat} {e : LoadError} (hphase : s.calls[i]? = some (c, .waiting k))
      (hcall : c ≠ .prefetch) (hkept : s.promised? k = some (.error e)) :
      Moved i c s (s.advance i c (.answered (.failed e)))

/-- The next move of a call is one of the moves. -/
theorem move?_eq_some_iff : move? i s = some s' ↔ ∃ c, Moved i c s s' := by
  constructor
  · intro h
    rcases hcall : s.calls[i]? with _ | ⟨c, phase⟩
    · simp [move?, hcall] at h
    · refine ⟨c, ?_⟩
      simp only [move?, hcall, Option.bind_eq_bind, Option.bind_some] at h
      cases phase with
      | entering =>
          rcases hlock : s.lock with _ | j
          · simp only [hlock, Option.isNone_none, if_true, Option.some.injEq] at h
            exact h ▸ .enter hcall hlock
          · simp [hlock] at h
      | inside =>
          rcases hslot : s.slot with _ | k
          · simp only [hslot, Option.some.injEq] at h
            exact h ▸ .miss hcall hslot
          · simp only [hslot, Option.some.injEq] at h
            exact h ▸ .find hcall hslot
      | missing =>
          by_cases hc : c = .prefetch
          · simp only [hc, if_true, Option.some.injEq] at h
            exact h ▸ hc ▸ .hire hcall hc
          · simp only [hc, if_false, Option.some.injEq] at h
            exact h ▸ .begin hcall hc
      | made k => exact Option.some.inj h ▸ .put hcall
      | loading k =>
          rcases hkept : s.promised? k with _ | outcome
          · simp [hkept] at h
          · simp only [hkept, Option.map_some, Option.some.injEq] at h
            exact h ▸ .finish hcall hkept
      | leaving k => exact Option.some.inj h ▸ .leave hcall
      | waiting k =>
          cases c with
          | prefetch => exact Option.some.inj h ▸ .done hcall rfl
          | get =>
              rcases hkept : s.promised? k with _ | e | members
              · simp [hkept] at h
              · simp only [hkept, Option.some.injEq] at h
                exact h ▸ .fail hcall nofun hkept
              · simp only [hkept, Option.some.injEq] at h
                exact h ▸ .copy hcall rfl hkept
          | isMember id =>
              rcases hkept : s.promised? k with _ | e | members
              · simp [hkept] at h
              · simp only [hkept, Option.some.injEq] at h
                exact h ▸ .fail hcall nofun hkept
              · simp only [hkept, Option.some.injEq] at h
                exact h ▸ .look hcall rfl hkept
      | answered a => cases h
  · rintro ⟨c, h⟩
    cases h with
    | enter hphase hfree => simp [move?, hphase, hfree]
    | find hphase hslot => simp [move?, hphase, hslot]
    | miss hphase hslot => simp [move?, hphase, hslot]
    | hire hphase hcall => simp [move?, hphase, hcall]
    | put hphase => simp [move?, hphase]
    | begin hphase hcall => simp [move?, hphase, hcall]
    | finish hphase hkept => simp [move?, hphase, hkept]
    | leave hphase => simp [move?, hphase]
    | done hphase hcall => simp [move?, hphase, hcall]
    | copy hphase hcall hkept => simp [move?, hphase, hcall, hkept]
    | look hphase hcall hkept => simp [move?, hphase, hcall, hkept]
    | fail hphase hcall hkept =>
        cases c with
        | prefetch => exact absurd rfl hcall
        | get => simp [move?, hphase, hkept]
        | isMember id => simp [move?, hphase, hkept]

/-- The moves of whoever keeps a promise. -/
inductive Served (lib : Library σ ρ) (k : Nat) (s : State σ ρ) : State σ ρ → Prop
  -- The loader is asked.
  | ask (hpromise : s.promises[k]? = some .pending) :
      Served lib k s { s with
        loader := (lib.load s.loader).2
        promises := s.promises.set k (.loaded (lib.load s.loader).1)
        asked := s.asked ++ [(lib.question, (lib.load s.loader).1)] }
  -- The set is handed over.
  | keep {members : PackageSet ρ} (hpromise : s.promises[k]? = some (.loaded (.ok members))) :
      Served lib k s { s with
        promises := s.promises.set k (.kept (.ok s.sets.length))
        sets := s.sets ++ [members] }
  -- The failure is handed over.
  | fail {e : LoadError} (hpromise : s.promises[k]? = some (.loaded (.error e))) :
      Served lib k s { s with promises := s.promises.set k (.kept (.error e)) }

/-- The next move of whoever keeps a promise is one of these. -/
theorem serve?_eq_some_iff : lib.serve? k s = some s' ↔ Served lib k s s' := by
  constructor
  · intro h
    rcases hpromise : s.promises[k]? with _ | p
    · simp [serve?, hpromise] at h
    · simp only [serve?, hpromise, Option.bind_eq_bind, Option.bind_some] at h
      cases p with
      | pending => exact Option.some.inj h ▸ .ask hpromise
      | loaded outcome =>
          cases outcome with
          | error e => exact Option.some.inj h ▸ .fail hpromise
          | ok members => exact Option.some.inj h ▸ .keep hpromise
      | kept outcome => cases h
  · intro h
    cases h with
    | ask hpromise => simp [serve?, hpromise]
    | keep hpromise => simp [serve?, hpromise]
    | fail hpromise => simp [serve?, hpromise]

/-- The moves that a call needs at most, those of a promise that it has to make included. -/
def Phase.remaining : Phase ρ → Nat
  | .entering => 8
  | .inside => 7
  | .missing => 6
  | .made _ => 3
  | .loading _ => 3
  | .leaving _ => 2
  | .waiting _ => 1
  | .answered _ => 0

/-- A call that has nothing left to do is answered. -/
theorem exists_answered_of_remaining {phase : Phase ρ} (h : phase.remaining = 0) :
    ∃ a, phase = .answered a := by
  cases phase with
  | answered a => exact ⟨a, rfl⟩
  | _ => cases h

/-- The moves until a promise is kept. -/
def Promise.remaining : Promise ρ → Nat
  | .pending => 2
  | .loaded _ => 1
  | .kept _ => 0

/-- The moves that are still to be made, at most. -/
def State.remaining (s : State σ ρ) : Nat :=
  (s.calls.map fun c => c.2.remaining).sum + (s.promises.map Promise.remaining).sum

/-- A sum over a list changes as the term that is written into it. -/
theorem sum_map_set {α : Type} (f : α → Nat) {l : List α} {a : α} (h : l[i]? = some a) (b : α) :
    ((l.set i b).map f).sum + f a = (l.map f).sum + f b := by
  induction l generalizing i with
  | nil => cases h
  | cons x rest ih =>
      cases i with
      | zero =>
          cases h
          simp only [List.set_cons_zero, List.map_cons, List.sum_cons]
          omega
      | succ j =>
          have hrest := ih (i := j) h
          simp only [List.set_cons_succ, List.map_cons, List.sum_cons]
          omega

/-- A state is closer to rest if the call that has moved and the promises have less left to do. -/
theorem remaining_lt_of_set {c : Call} {phase phase' : Phase ρ}
    (hphase : s.calls[i]? = some (c, phase)) (hcalls : s'.calls = s.calls.set i (c, phase'))
    (h : phase'.remaining + (s'.promises.map Promise.remaining).sum <
      phase.remaining + (s.promises.map Promise.remaining).sum) : s'.remaining < s.remaining := by
  have hsum := sum_map_set (fun c : Call × Phase ρ => c.2.remaining) hphase (c, phase')
  simp only [State.remaining, hcalls] at hsum ⊢
  omega

/-- Each move of a call brings a state closer to rest. -/
theorem remaining_moved_lt {c : Call} (h : Moved i c s s') : s'.remaining < s.remaining := by
  cases h with
  | hire hphase _ | begin hphase _ =>
      -- What the promise needs is less than what the call was thought to need for it.
      refine remaining_lt_of_set hphase rfl ?_
      simp only [State.advance, Phase.remaining, List.map_append, List.map_cons, List.map_nil,
        List.sum_append, List.sum_cons, List.sum_nil, Promise.remaining]
      omega
  | enter hphase _ | find hphase _ | miss hphase _ | put hphase | finish hphase _ | leave hphase
  | done hphase _ | copy hphase _ _ | look hphase _ _ | fail hphase _ _ =>
      exact remaining_lt_of_set hphase rfl (Nat.add_lt_add_right (by simp [Phase.remaining]) _)

/-- Each move of whoever keeps a promise brings a state closer to rest. -/
theorem remaining_served_lt (h : Served lib k s s') : s'.remaining < s.remaining := by
  cases h with
  | ask hpromise =>
      have hsum := sum_map_set Promise.remaining hpromise (.loaded (lib.load s.loader).1)
      simp only [State.remaining, Promise.remaining] at hsum ⊢
      omega
  | keep hpromise =>
      have hsum := sum_map_set Promise.remaining hpromise (.kept (.ok s.sets.length))
      simp only [State.remaining, Promise.remaining] at hsum ⊢
      omega
  | @fail e hpromise =>
      have hsum := sum_map_set Promise.remaining hpromise (.kept (.error e))
      simp only [State.remaining, Promise.remaining] at hsum ⊢
      omega

/-- What happens is a move of a call, or of whoever keeps a promise. -/
def Action.IsOwn : Action σ ρ → Prop
  | .move _ => True
  | .serve _ => True
  | _ => False

/-- A schedule of moves is no longer than the moves that were left to be made. -/
theorem length_add_remaining_le {schedule : List (Action σ ρ)} (hown : ∀ a ∈ schedule, a.IsOwn)
    (h : lib.run? schedule s = some s') : schedule.length + s'.remaining ≤ s.remaining := by
  induction schedule generalizing s with
  | nil =>
      cases h
      simp
  | cons a rest ih =>
      rcases Option.bind_eq_some_iff.1 h with ⟨t, hstep, hrest⟩
      have hlt : t.remaining < s.remaining := by
        cases a with
        | move i =>
            rcases move?_eq_some_iff.1 hstep with ⟨c, hmoved⟩
            exact remaining_moved_lt hmoved
        | serve k => exact remaining_served_lt (serve?_eq_some_iff.1 hstep)
        | call c => exact (hown _ List.mem_cons_self).elim
        | use t => exact (hown _ List.mem_cons_self).elim
        | change address members => exact (hown _ List.mem_cons_self).elim
      have hle := ih (fun b hb => hown b (List.mem_cons_of_mem _ hb)) hrest
      rw [List.length_cons]
      omega

end Library

end PackageAlgebra
