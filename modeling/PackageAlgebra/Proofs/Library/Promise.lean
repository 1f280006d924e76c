import PackageAlgebra.Proofs.Library.Moves

/-!
# The Promise of a Library

What is so at every moment of a library in use, whoever goes next.

There is never more than one promise, because the slot is looked at and written into by the call
that holds the lock alone. The one moment at which a promise is there and not in the slot is that
between hiring a worker and telling so; the call that has hired it still holds the lock then. What
the promise gives is what the loader has been asked for, and the set that it is kept by lies at an
address that no caller was given. All of this is one invariant: `State.Fits` is what it says of a
single call, `State.Tells` what it says of the promise. A move touches one call, so for the others
it is enough to see what becomes of the lock, the slot and the promises (`State.Fits.frame`).

## Main definitions

* `Agrees`: What calls are told when a load has led to something.
* `State.Fits`, `State.Tells`, `State.Promised`: What is so of a call, and of the promise.
* `State.Sound`: What is so at every moment.

## Theorems

* `State.Sound.asked_of_promised`: A kept promise gives what has been asked for.
* `State.Sound.moved`, `State.Sound.served`: Each move keeps the invariant.
* `State.Sound.step`, `State.Sound.run`: Whatever happens keeps it.
* `State.sound_start`: It holds at first.
-/

namespace PackageAlgebra

namespace Library

variable {σ ρ : Type} {lib : Library σ ρ} {s s' : State σ ρ} {i k : Nat} {c : Call}

/-- What a call that waits is told when the load has led to something. -/
inductive Agrees : Call → Outcome ρ → Answer ρ → Prop
  -- It gets a set with just the packages.
  | set {members : PackageSet ρ} {address : Nat} :
      Agrees .get (.ok members) (.set address members)
  -- It learns whether the package is one of them.
  | member {members : PackageSet ρ} {id : String} :
      Agrees (.isMember id) (.ok members) (.member (members.contains id))
  -- It learns why there are none.
  | failed {c : Call} {e : LoadError} (hcall : c ≠ .prefetch) : Agrees c (.error e) (.failed e)

namespace State

/-- What is so for a call that has come to a point. -/
def Fits (lib : Library σ ρ) (s : State σ ρ) (i : Nat) (c : Call) : Phase ρ → Prop
  | .entering => s.lock ≠ some i
  | .inside => s.lock = some i
  | .missing => s.lock = some i ∧ s.slot = none
  | .made k => s.lock = some i ∧ s.slot = none ∧ s.promises ≠ [] ∧ c = .prefetch ∧ k = 0
  | .loading k => s.lock = some i ∧ s.slot = some k
  | .leaving k => s.lock = some i ∧ s.slot = some k
  | .waiting k => s.lock ≠ some i ∧ s.slot = some k
  | .answered a => s.lock ≠ some i ∧ (∃ k, s.slot = some k) ∧
      (c = .prefetch ∧ a = .done ∨
        ∃ outcome, s.asked = [(lib.question, outcome)] ∧ Agrees c outcome a)

/-- What is so when something is known of the only load. -/
def Tells (lib : Library σ ρ) (s : State σ ρ) : Promise ρ → Prop
  | .pending => s.asked = []
  | .loaded outcome => s.asked = [(lib.question, outcome)]
  | .kept (.error e) => s.asked = [(lib.question, .error e)]
  | .kept (.ok address) => address ∉ s.given ∧
      ∃ members, s.sets[address]? = some members ∧ s.asked = [(lib.question, .ok members)]

/-- The call that holds the lock has hired a worker, and not told so. -/
def IsBetween (s : State σ ρ) (i : Nat) : Prop :=
  s.slot = none ∧ s.lock = some i ∧ s.calls[i]? = some (.prefetch, .made 0)

/-- There is at most one promise. -/
inductive Promised (lib : Library σ ρ) (s : State σ ρ) : Prop
  | none (hpromises : s.promises = []) (hslot : s.slot = none) (hasked : s.asked = [])
  | one (p : Promise ρ) (hpromises : s.promises = [p]) (htells : s.Tells lib p)
      (hslot : s.slot = some 0 ∨ ∃ i, s.IsBetween i)

/-- What is so at every moment. -/
structure Sound (lib : Library σ ρ) (s : State σ ρ) : Prop where
  -- Each call has come to a point where it may be.
  fits : ∀ i c phase, s.calls[i]? = some (c, phase) → s.Fits lib i c phase
  -- The lock is held by a call.
  holder : ∀ i, s.lock = some i → i < s.calls.length
  -- There is at most one promise.
  promised : s.Promised lib
  -- Sets that were given away are there.
  given_lt : ∀ a ∈ s.given, a < s.sets.length
  -- The loader is asked for the library, and for nothing else.
  loads : ∀ q ∈ s.asked, q.1 = lib.question ∧ ∃ t, q.2 = (lib.load t).1

variable {phase phase' : Phase ρ} {j : Nat}

/-- What is so for a call stays so if it has no part in what happens. -/
theorem Fits.frame (h : s.Fits lib j c phase) (hlock : s'.lock = some j ↔ s.lock = some j)
    (hslot : s'.slot = s.slot ∨ s.slot = none ∧ s.lock ≠ some j)
    (hpromises : s.promises ≠ [] → s'.promises ≠ [])
    (hasked : s'.asked = s.asked ∨ s.asked = []) : s'.Fits lib j c phase := by
  -- A call that knows the slot to be empty holds the lock.
  have hkeep : (∃ k, s.slot = some k) ∨ s.lock = some j → s'.slot = s.slot := by
    rintro hknown
    rcases hslot with hsame | ⟨hnone, hfree⟩
    · exact hsame
    · rcases hknown with ⟨k, hsome⟩ | hheld
      · cases hnone.symm.trans hsome
      · exact absurd hheld hfree
  cases phase with
  | entering => exact fun hheld => h (hlock.1 hheld)
  | inside => exact hlock.2 h
  | missing => exact ⟨hlock.2 h.1, (hkeep (.inr h.1)).trans h.2⟩
  | made k =>
      rcases h with ⟨hheld, hnone, hsome, hcall, hk⟩
      exact ⟨hlock.2 hheld, (hkeep (.inr hheld)).trans hnone, hpromises hsome, hcall, hk⟩
  | loading k => exact ⟨hlock.2 h.1, (hkeep (.inr h.1)).trans h.2⟩
  | leaving k => exact ⟨hlock.2 h.1, (hkeep (.inr h.1)).trans h.2⟩
  | waiting k =>
      exact ⟨fun hheld => h.1 (hlock.1 hheld), (hkeep (.inl ⟨k, h.2⟩)).trans h.2⟩
  | answered a =>
      rcases h with ⟨hfree, ⟨k, hsome⟩, htold⟩
      refine ⟨fun hheld => hfree (hlock.1 hheld), ⟨k, (hkeep (.inl ⟨k, hsome⟩)).trans hsome⟩,
        htold.imp_right ?_⟩
      rintro ⟨outcome, hone, hagrees⟩
      rcases hasked with hsame | hnone
      · exact ⟨outcome, hsame.trans hone, hagrees⟩
      · rw [hnone] at hone
        cases hone

/-- What is so of a load stays so if the loader is not asked, and no set is touched but those that
    were given away. -/
theorem Tells.frame {p : Promise ρ} (h : s.Tells lib p) (hasked : s'.asked = s.asked)
    (hgiven : ∀ a ∈ s'.given, a ∈ s.given ∨ s.sets.length ≤ a)
    (hsets : ∀ a members, a ∉ s.given → s.sets[a]? = some members → s'.sets[a]? = some members) :
    s'.Tells lib p := by
  cases p with
  | pending => exact hasked.trans h
  | loaded outcome => exact hasked.trans h
  | kept outcome =>
      cases outcome with
      | error e => exact hasked.trans h
      | ok address =>
          rcases h with ⟨hmine, members, hset, hone⟩
          refine ⟨fun ha => ?_, members, hsets _ _ hmine hset, hasked.trans hone⟩
          rcases hgiven _ ha with hbefore | hnew
          · exact hmine hbefore
          · have hlt := (List.getElem?_eq_some_iff.1 hset).1
            omega

/-- The same for the number of promises. -/
theorem Promised.frame (h : s.Promised lib) (hpromises : s'.promises = s.promises)
    (hslot : s'.slot = s.slot) (hasked : s'.asked = s.asked)
    (hgiven : ∀ a ∈ s'.given, a ∈ s.given ∨ s.sets.length ≤ a)
    (hsets : ∀ a members, a ∉ s.given → s.sets[a]? = some members → s'.sets[a]? = some members)
    (hbetween : ∀ i, s.IsBetween i → s'.IsBetween i) : s'.Promised lib := by
  cases h with
  | none hnone hempty hnever =>
      exact .none (hpromises.trans hnone) (hslot.trans hempty) (hasked.trans hnever)
  | one p hone htells hwhere =>
      refine .one p (hpromises.trans hone) (htells.frame hasked hgiven hsets) ?_
      rcases hwhere with hthere | ⟨i, hi⟩
      · exact .inl (hslot.trans hthere)
      · exact .inr ⟨i, hbetween i hi⟩

/-- What is so of a promise is so of the only one. -/
theorem Sound.tells_of_getElem? (hs : s.Sound lib) {p : Promise ρ} (h : s.promises[k]? = some p) :
    s.promises = [p] ∧ k = 0 ∧ s.Tells lib p ∧ (s.slot = some 0 ∨ ∃ i, s.IsBetween i) := by
  cases hs.promised with
  | none hnone _ _ => simp [hnone] at h
  | one q hone htells hwhere =>
      rw [hone, List.getElem?_singleton] at h
      split at h
      · next hk =>
          cases h
          exact ⟨hone, hk, htells, hwhere⟩
      · cases h

/-- A kept promise gives what has been asked for. -/
theorem Sound.asked_of_promised (hs : s.Sound lib) {outcome : Outcome ρ}
    (h : s.promised? k = some outcome) : s.asked = [(lib.question, outcome)] := by
  rcases hpromise : s.promises[k]? with _ | p
  · simp [promised?, hpromise] at h
  · rcases hs.tells_of_getElem? hpromise with ⟨-, -, htells, -⟩
    cases p with
    | pending => simp [promised?, hpromise] at h
    | loaded loaded => simp [promised?, hpromise] at h
    | kept kept =>
        cases kept with
        | error e =>
            simp only [promised?, hpromise, Option.some.injEq] at h
            exact h ▸ htells
        | ok address =>
            rcases htells with ⟨-, members, hset, hasked⟩
            simp only [promised?, hpromise, hset, Option.map_some, Option.some.injEq] at h
            exact h ▸ hasked

/-- A call that comes to another point gives away at most one more set. -/
theorem mem_given_set (hcalls : s'.calls = s.calls.set i (c, phase')) {a : Nat}
    (ha : a ∈ s'.given) : a ∈ s.given ∨ phase'.address? = some a := by
  rcases List.mem_filterMap.1 ha with ⟨x, hx, haddress⟩
  rw [hcalls] at hx
  rcases List.mem_or_eq_of_mem_set hx with hbefore | rfl
  · exact .inl (List.mem_filterMap.2 ⟨x, hbefore, haddress⟩)
  · exact .inr haddress

/-- A call that comes to a point without a set gives none away. -/
theorem given_subset_of_set (hcalls : s'.calls = s.calls.set i (c, phase'))
    (haddress : phase'.address? = none) : s'.given ⊆ s.given := by
  intro a ha
  rcases mem_given_set hcalls ha with hbefore | hnew
  · exact hbefore
  · cases haddress.symm.trans hnew

/-- A call comes to another point. It may take the lock or give it back, and write into the slot if
    it holds the lock. -/
theorem Sound.advance (hs : s.Sound lib) (hphase : s.calls[i]? = some (c, phase))
    (hcalls : s'.calls = s.calls.set i (c, phase')) (hasked : s'.asked = s.asked)
    (hlock : s'.lock = s.lock ∨ s.lock = none ∧ s'.lock = some i ∨
      s.lock = some i ∧ s'.lock = none)
    (hslot : s'.slot = s.slot ∨ s.slot = none ∧ s.lock = some i)
    (hpromises : s.promises ≠ [] → s'.promises ≠ []) (hfits : s'.Fits lib i c phase')
    (hpromised : s'.Promised lib) (hgiven : ∀ a ∈ s'.given, a < s'.sets.length) :
    s'.Sound lib where
  fits j d point hpoint := by
    rw [hcalls, List.getElem?_set] at hpoint
    split at hpoint
    · next hij =>
        have hlt := (List.getElem?_eq_some_iff.1 hphase).1
        rw [if_pos hlt] at hpoint
        cases hpoint
        exact hij ▸ hfits
    · next hij =>
        have hheld : s'.lock = some j ↔ s.lock = some j := by
          rcases hlock with hsame | ⟨hfree, htaken⟩ | ⟨hmine, hfree⟩
          · rw [hsame]
          · simp [hfree, htaken, hij]
          · simp [hmine, hfree, hij]
        have hslot' : s'.slot = s.slot ∨ s.slot = none ∧ s.lock ≠ some j :=
          hslot.imp_right fun h => ⟨h.1, by simp [h.2, hij]⟩
        exact (hs.fits j d point hpoint).frame hheld hslot' hpromises (.inl hasked)
  holder j hj := by
    rw [hcalls, List.length_set]
    rcases hlock with hsame | ⟨-, htaken⟩ | ⟨-, hfree⟩
    · exact hs.holder j (hsame ▸ hj)
    · cases htaken.symm.trans hj
      exact (List.getElem?_eq_some_iff.1 hphase).1
    · cases hfree.symm.trans hj
  promised := hpromised
  given_lt := hgiven
  loads := hasked ▸ hs.loads

/-- A call comes to another point, and nothing else happens but that it may take the lock or give
    it back. -/
theorem Sound.pass (hs : s.Sound lib) (hphase : s.calls[i]? = some (c, phase)) (lock : Option Nat)
    (hlock : lock = s.lock ∨ s.lock = none ∧ lock = some i ∨ s.lock = some i ∧ lock = none)
    (hbetween : ∀ j, ¬ s.IsBetween j) (haddress : phase'.address? = none)
    (hfits : ({ s with lock := lock }.advance i c phase').Fits lib i c phase') :
    ({ s with lock := lock }.advance i c phase').Sound lib := by
  have hgiven : ({ s with lock := lock }.advance i c phase').given ⊆ s.given :=
    given_subset_of_set rfl haddress
  refine hs.advance hphase rfl rfl hlock (.inl rfl) id hfits ?_ fun a ha =>
    hs.given_lt a (hgiven ha)
  exact hs.promised.frame rfl rfl rfl (fun a ha => .inl (hgiven ha)) (fun _ _ _ h => h)
    fun j hj => absurd hj (hbetween j)

/-- Nobody has hired a worker without telling so if a call holds the lock, or might have it, and
    has hired none, or if there is a promise in the slot. -/
theorem not_isBetween (hphase : s.calls[i]? = some (c, phase)) (hmade : phase ≠ .made 0)
    (h : s.lock = none ∨ s.lock = some i ∨ ∃ k, s.slot = some k) : ∀ j, ¬ s.IsBetween j := by
  rintro j ⟨hnone, hheld, hthere⟩
  rcases h with hfree | hmine | ⟨k, hsome⟩
  · cases hfree.symm.trans hheld
  · cases hmine.symm.trans hheld
    cases hphase.symm.trans hthere
    exact hmade rfl
  · cases hnone.symm.trans hsome

/-- A call that finds the slot empty is the first to do so. -/
theorem Sound.promises_eq_nil (hs : s.Sound lib) (hphase : s.calls[i]? = some (c, .missing)) :
    s.promises = [] ∧ s.asked = [] := by
  have hfits := hs.fits i c .missing hphase
  cases hs.promised with
  | none hnone hempty hnever => exact ⟨hnone, hnever⟩
  | one p hone htells hwhere =>
      exfalso
      rcases hwhere with hthere | ⟨j, hj⟩
      · cases hfits.2.symm.trans hthere
      · exact not_isBetween hphase (by simp) (.inr (.inl hfits.1)) j hj

/-- A call that waits is told what it wants to know, and gets no set. -/
theorem Sound.reply (hs : s.Sound lib) (hphase : s.calls[i]? = some (c, .waiting k)) {a : Answer ρ}
    (haddress : (Phase.answered a).address? = none)
    (htold : c = .prefetch ∧ a = .done ∨
      ∃ outcome, s.asked = [(lib.question, outcome)] ∧ Agrees c outcome a) :
    (s.advance i c (.answered a)).Sound lib := by
  rcases hs.fits i c _ hphase with ⟨hfree, hslot⟩
  exact hs.pass hphase s.lock (.inl rfl)
    (not_isBetween hphase (by simp) (.inr (.inr ⟨k, hslot⟩))) haddress ⟨hfree, ⟨k, hslot⟩, htold⟩

/-- Each move of a call keeps the invariant. -/
theorem Sound.moved (hs : s.Sound lib) (h : Moved i c s s') : s'.Sound lib := by
  cases h with
  | enter hphase hfree =>
      exact hs.pass hphase (some i) (.inr (.inl ⟨hfree, rfl⟩))
        (not_isBetween hphase (by simp) (.inl hfree)) rfl rfl
  | find hphase hslot =>
      have hfits := hs.fits i c _ hphase
      exact hs.pass hphase s.lock (.inl rfl)
        (not_isBetween hphase (by simp) (.inr (.inl hfits))) rfl ⟨hfits, hslot⟩
  | miss hphase hslot =>
      have hfits := hs.fits i c _ hphase
      exact hs.pass hphase s.lock (.inl rfl)
        (not_isBetween hphase (by simp) (.inr (.inl hfits))) rfl ⟨hfits, hslot⟩
  | hire hphase hcall =>
      rcases hs.fits i c _ hphase with ⟨hheld, hempty⟩
      rcases hs.promises_eq_nil hphase with ⟨hnone, hnever⟩
      have hlt := (List.getElem?_eq_some_iff.1 hphase).1
      have hgiven : ({ s with promises := s.promises ++ [Promise.pending] }.advance i c
          (.made s.promises.length)).given ⊆ s.given := given_subset_of_set rfl rfl
      refine hs.advance hphase rfl rfl (.inl rfl) (.inl rfl) (fun h => absurd hnone h)
        ⟨hheld, hempty, by simp [State.advance], hcall, by simp [hnone]⟩ ?_
        fun a ha => hs.given_lt a (hgiven ha)
      refine .one .pending (by simp [State.advance, hnone]) hnever
        (.inr ⟨i, hempty, hheld, ?_⟩)
      simp [State.advance, hlt, hcall, hnone]
  | put hphase =>
      rcases hs.fits i c _ hphase with ⟨hheld, hempty, hsome, -, rfl⟩
      have hgiven : ({ s with slot := some 0 }.advance i c (.leaving 0)).given ⊆ s.given :=
        given_subset_of_set rfl rfl
      refine hs.advance hphase rfl rfl (.inl rfl) (.inr ⟨hempty, hheld⟩) id ⟨hheld, rfl⟩ ?_
        fun a ha => hs.given_lt a (hgiven ha)
      cases hs.promised with
      | none hnone _ _ => exact absurd hnone hsome
      | one p hone htells _ =>
          exact .one p hone (htells.frame rfl (fun a ha => .inl (hgiven ha)) fun _ _ _ h => h)
            (.inl rfl)
  | begin hphase hcall =>
      rcases hs.fits i c _ hphase with ⟨hheld, hempty⟩
      rcases hs.promises_eq_nil hphase with ⟨hnone, hnever⟩
      have hgiven : ({ s with
            promises := s.promises ++ [Promise.pending], slot := some s.promises.length }.advance i c
          (.loading s.promises.length)).given ⊆ s.given := given_subset_of_set rfl rfl
      refine hs.advance hphase rfl rfl (.inl rfl) (.inr ⟨hempty, hheld⟩)
        (fun h => absurd hnone h) ⟨hheld, rfl⟩ ?_ fun a ha => hs.given_lt a (hgiven ha)
      exact .one .pending (by simp [State.advance, hnone]) hnever
        (.inl (by simp [State.advance, hnone]))
  | finish hphase hkept =>
      have hfits := hs.fits i c _ hphase
      exact hs.pass hphase s.lock (.inl rfl)
        (not_isBetween hphase (by simp) (.inr (.inl hfits.1))) rfl hfits
  | leave hphase =>
      have hfits := hs.fits i c _ hphase
      exact hs.pass hphase none (.inr (.inr ⟨hfits.1, rfl⟩))
        (not_isBetween hphase (by simp) (.inr (.inl hfits.1))) rfl
        ⟨by simp [State.advance], hfits.2⟩
  | done hphase hcall => exact hs.reply hphase rfl (.inl ⟨hcall, rfl⟩)
  | @copy k members hphase hcall hkept =>
      rcases hs.fits i c _ hphase with ⟨hfree, hslot⟩
      -- The copy lies at an address that nothing lay at before.
      have hgiven : ∀ a ∈ ({ s with sets := s.sets ++ [members] }.advance i c
          (.answered (.set s.sets.length members))).given, a ∈ s.given ∨ a = s.sets.length := by
        intro a ha
        rcases mem_given_set (s := s) rfl ha with hbefore | hnew
        · exact .inl hbefore
        · exact .inr (Option.some.inj hnew).symm
      have hlength : (s.sets ++ [members]).length = s.sets.length + 1 := by simp
      refine hs.advance hphase rfl rfl (.inl rfl) (.inl rfl) id
        ⟨hfree, ⟨k, hslot⟩, .inr ⟨_, hs.asked_of_promised hkept, hcall ▸ .set⟩⟩ ?_ ?_
      · refine hs.promised.frame rfl rfl rfl
          (fun a ha => (hgiven a ha).imp_right (Nat.le_of_eq ·.symm)) ?_
          fun j hj => absurd hj (not_isBetween hphase (by simp) (.inr (.inr ⟨k, hslot⟩)) j)
        intro a b _ hset
        exact (List.getElem?_append_left (List.getElem?_eq_some_iff.1 hset).1).trans hset
      · intro a ha
        change a < (s.sets ++ [members]).length
        rcases hgiven a ha with hbefore | rfl
        · have hlt := hs.given_lt a hbefore
          omega
        · omega
  | look hphase hcall hkept =>
      exact hs.reply hphase rfl (.inr ⟨_, hs.asked_of_promised hkept, hcall ▸ .member⟩)
  | fail hphase hcall hkept =>
      exact hs.reply hphase rfl (.inr ⟨_, hs.asked_of_promised hkept, .failed hcall⟩)

/-- Each move of whoever keeps a promise keeps the invariant. -/
theorem Sound.served (hs : s.Sound lib) (h : Served lib k s s') : s'.Sound lib := by
  -- No call has a part in it, and a load that is asked for is the first.
  have hstill : ∀ {s' : State σ ρ}, s'.lock = s.lock → s'.slot = s.slot → s'.calls = s.calls →
      (s'.asked = s.asked ∨ s.asked = []) → (s.promises ≠ [] → s'.promises ≠ []) →
      ∀ i c phase, s'.calls[i]? = some (c, phase) → s'.Fits lib i c phase := by
    intro s' hlock hslot hcalls hasked hpromises i c phase hphase
    exact (hs.fits i c phase (hcalls ▸ hphase)).frame (by rw [hlock]) (.inl hslot) hpromises hasked
  cases h with
  | ask hpromise =>
      rcases hs.tells_of_getElem? hpromise with ⟨hone, rfl, hnever, hwhere⟩
      have hnever : s.asked = [] := hnever
      exact {
        fits := hstill rfl rfl rfl (.inr hnever) (by simp)
        holder := hs.holder
        promised := .one (.loaded (lib.load s.loader).1) (by simp [hone])
          (by simp [Tells, hnever]) hwhere
        given_lt := hs.given_lt
        loads := by
          rw [hnever]
          rintro q hq
          rw [List.nil_append, List.mem_singleton] at hq
          exact hq ▸ ⟨rfl, s.loader, rfl⟩ }
  | @keep members hpromise =>
      rcases hs.tells_of_getElem? hpromise with ⟨hone, rfl, hasked, hwhere⟩
      have hfresh : s.sets.length ∉ s.given := fun h => Nat.lt_irrefl _ (hs.given_lt _ h)
      exact {
        fits := hstill rfl rfl rfl (.inl rfl) (by simp)
        holder := hs.holder
        promised := .one (.kept (.ok s.sets.length)) (by simp [hone])
          ⟨hfresh, members, by simp, hasked⟩ hwhere
        given_lt := fun a ha => Nat.lt_of_lt_of_le (hs.given_lt a ha) (by simp)
        loads := hs.loads }
  | @fail e hpromise =>
      rcases hs.tells_of_getElem? hpromise with ⟨hone, rfl, hasked, hwhere⟩
      exact {
        fits := hstill rfl rfl rfl (.inl rfl) (by simp)
        holder := hs.holder
        promised := .one (.kept (.error e)) (by simp [hone]) hasked hwhere
        given_lt := hs.given_lt
        loads := hs.loads }

/-- A call that arrives gives no set away. -/
theorem given_arrive (s : State σ ρ) (c : Call) :
    ({ s with calls := s.calls ++ [(c, Phase.entering)] }).given = s.given := by
  simp [given, Phase.address?]

/-- A call arrives. -/
theorem Sound.arrive (hs : s.Sound lib) (c : Call) :
    ({ s with calls := s.calls ++ [(c, Phase.entering)] }).Sound lib where
  fits i d phase hphase := by
    change (s.calls ++ [(c, Phase.entering)])[i]? = some (d, phase) at hphase
    rw [List.getElem?_append] at hphase
    split at hphase
    · exact (hs.fits i d phase hphase).frame Iff.rfl (.inl rfl) id (.inl rfl)
    · next hnew =>
        rw [List.getElem?_singleton] at hphase
        split at hphase
        · cases hphase
          exact fun hheld => hnew (hs.holder i hheld)
        · cases hphase
  holder i hi := by
    have hlt := hs.holder i hi
    simp only [List.length_append, List.length_singleton]
    omega
  promised := by
    refine hs.promised.frame rfl rfl rfl (fun a ha => .inl (given_arrive s c ▸ ha))
      (fun _ _ _ h => h) ?_
    rintro i ⟨hempty, hheld, hthere⟩
    exact ⟨hempty, hheld, (List.getElem?_append_left (hs.holder i hheld)).trans hthere⟩
  given_lt a ha := hs.given_lt a (given_arrive s c ▸ ha)
  loads := hs.loads

/-- Somebody uses the loader for something else. -/
theorem Sound.use (hs : s.Sound lib) (t : σ) : ({ s with loader := t }).Sound lib where
  fits i c phase hphase := (hs.fits i c phase hphase).frame Iff.rfl (.inl rfl) id (.inl rfl)
  holder := hs.holder
  promised :=
    hs.promised.frame rfl rfl rfl (fun _ ha => .inl ha) (fun _ _ _ h => h) fun _ hi => hi
  given_lt := hs.given_lt
  loads := hs.loads

/-- A caller changes a set that it was given. -/
theorem Sound.change (hs : s.Sound lib) {address : Nat} (hgiven : address ∈ s.given)
    (members : PackageSet ρ) :
    ({ s with sets := s.sets.set address members }).Sound lib where
  fits i c phase hphase := (hs.fits i c phase hphase).frame Iff.rfl (.inl rfl) id (.inl rfl)
  holder := hs.holder
  promised := by
    refine hs.promised.frame rfl rfl rfl (fun _ ha => .inl ha) ?_ fun _ hi => hi
    -- The set of the promise was given to nobody.
    intro a b hmine hset
    have hne : address ≠ a := fun h => hmine (h ▸ hgiven)
    exact (List.getElem?_set_ne hne).trans hset
  given_lt a ha := by
    simpa using hs.given_lt a ha
  loads := hs.loads

/-- Whatever happens keeps the invariant. -/
theorem Sound.step (hs : s.Sound lib) {a : Action σ ρ} (h : lib.step? s a = some s') :
    s'.Sound lib := by
  cases a with
  | call c => exact Option.some.inj h ▸ hs.arrive c
  | move i =>
      rcases move?_eq_some_iff.1 h with ⟨c, hmoved⟩
      exact hs.moved hmoved
  | serve k => exact hs.served (serve?_eq_some_iff.1 h)
  | use t => exact Option.some.inj h ▸ hs.use t
  | change address members =>
      rw [step?] at h
      split at h
      · next hgiven => exact Option.some.inj h ▸ hs.change hgiven members
      · cases h

/-- Whatever happens one after the other keeps the invariant. -/
theorem Sound.run {schedule : List (Action σ ρ)} (hs : s.Sound lib)
    (h : lib.run? schedule s = some s') : s'.Sound lib := by
  induction schedule generalizing s with
  | nil => exact Option.some.inj h ▸ hs
  | cons a rest ih =>
      rcases Option.bind_eq_some_iff.1 h with ⟨t, hstep, hrest⟩
      exact ih (hs.step hstep) hrest

/-- The invariant holds at first. -/
theorem sound_start (lib : Library σ ρ) (t : σ) : ({ loader := t } : State σ ρ).Sound lib where
  fits _ _ _ h := nomatch h
  holder _ h := nomatch h
  promised := .none rfl rfl rfl
  given_lt _ h := nomatch h
  loads _ h := nomatch h

end State

end Library

end PackageAlgebra
