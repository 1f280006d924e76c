import PackageAlgebra.Proofs.Calculator.Steps
import PackageAlgebra.Proofs.Library.Promise
import PackageAlgebra.Proofs.Package.Universe

/-!
# Loaded Once

What a library in use gives to all who call.

The invariant says what is so as long as calls are under way. What is left to see is that they get
through: as long as a call has no answer, somebody can move, since the lock is held by a call that
is not kept from moving for ever, and a promise is kept by whoever has made it. As moves come to
an end, all calls are answered then, and the loader has been asked.

A calculation knows nothing of calls that wait. It keeps the outcome of the one load, and gives it
whenever it is needed. That is what the calls of a library in use come to, however many there are:
as long as nobody else uses the loader, they leave the loader, and what is known of the library, as
one calculation does that needs it.

## Main definitions

* `PackageSet.ClosedOver`: A set holds nodes and just what they lead to.
* `Library.State.AtRest`: Nobody can move.
* `Library.Action.IsQuiet`: Nobody uses the loader for something else.
* `Library.State.Keeps`: A calculation knows what is known of the library.

## Theorems

* `PackageSet.closedOver_ofClosure`: Nodes and what they import, directly or not.
* `Library.State.Sound.exists_answer`: At rest all calls are answered.
* `Library.State.Sound.run_quiet`: What calls do to the loader.
* `Calc.stdOutcome_of_none`, `Calc.stdOutcome_of_some`: What a calculation does to it.
* `Library.run_loads_once`: The loader is asked once, and all calls are told what it said.
-/

namespace PackageAlgebra

open Relation

variable {σ ρ : Type}

/-! ### Closed sets -/

/-- A set holds nodes, and just what they lead to. -/
structure PackageSet.ClosedOver (catalog : Catalog ρ) (roots : List (Node ρ))
    (a : PackageSet ρ) : Prop where
  -- It holds the nodes.
  holds : ∀ p ∈ roots, p.id ∈ a.keys
  -- It holds whatever its members import.
  imports : ∀ p ∈ a.values, ∀ q ∈ p.imported catalog, q.id ∈ a.keys
  -- Imports lead from the nodes to each member.
  reached : ∀ p ∈ a.values, ∃ r ∈ roots, ReflTransGen (fun p q => q ∈ p.imported catalog) r p

/-- Nodes together with what they import, directly or not. -/
theorem PackageSet.closedOver_ofClosure (catalog : Catalog ρ) (roots : List (Node ρ)) :
    (PackageSet.ofClosure catalog roots).ClosedOver catalog roots := by
  have hexplored := explored_walk Node.id (Node.successors catalog)
    (Node.knownIds catalog roots) roots
  have hentries : (PackageSet.ofClosure catalog roots).entries =
      (Node.closure catalog roots).map fun p => (p.id, p) := by
    refine OrderedMap.entries_ofList ?_
    rw [List.map_map]
    exact hexplored.nodup
  have hvalues : (PackageSet.ofClosure catalog roots).values = Node.closure catalog roots := by
    rw [OrderedMap.values, hentries, List.map_map]
    exact List.map_id _
  have hkeys : (PackageSet.ofClosure catalog roots).keys =
      (Node.closure catalog roots).map Node.id := by
    rw [OrderedMap.keys, hentries, List.map_map]
    rfl
  refine ⟨fun p hp => ?_, fun p hp q hq => ?_, fun p hp => ?_⟩
  · rw [hkeys]
    exact hexplored.stack_met p hp (List.mem_append_left _ (List.mem_map_of_mem hp))
  · rw [hvalues] at hp
    rw [hkeys]
    exact hexplored.next_met p hp q (List.mem_reverse.2 hq)
      (List.mem_append_right _ (Node.mem_ids_of_mem_imported hq))
  · rw [hvalues] at hp
    rcases hexplored.reached p hp with ⟨r, hr, -, hpath⟩
    exact ⟨r, hr, ReflTransGen.mono (fun _ _ hstep => List.mem_reverse.1 hstep.1) _ _ hpath⟩

namespace Library

variable {lib : Library σ ρ} {s s' : State σ ρ} {i k : Nat} {c : Call} {phase : Phase ρ}

/-- A set that a loader gives for a library is closed over what the loader answers. -/
theorem exists_closedOver_of_load {t : σ} {members : PackageSet ρ}
    (h : (lib.load t).1 = .ok members) :
    ∃ roots u, lib.loader.load { tests := true } [lib.pattern] t = (.ok roots, u) ∧
      members.ClosedOver (lib.loader.catalog u) roots := by
  rcases hload : lib.loader.load { tests := true } [lib.pattern] t with ⟨e | roots, u⟩
  · rw [load, hload] at h
    cases h
  · rw [load, hload] at h
    cases h
    exact ⟨roots, u, rfl, PackageSet.closedOver_ofClosure _ roots⟩

/-! ### Rest -/

/-- Nobody can move. -/
def State.AtRest (lib : Library σ ρ) (s : State σ ρ) : Prop :=
  ∀ a : Action σ ρ, a.IsOwn → lib.step? s a = none

namespace State

theorem AtRest.not_moved (h : s.AtRest lib) : ¬ Moved i c s s' := by
  intro hmoved
  have hstep : lib.step? s (.move i) = some s' := move?_eq_some_iff.2 ⟨c, hmoved⟩
  cases (h (.move i) trivial).symm.trans hstep

theorem AtRest.not_served (h : s.AtRest lib) : ¬ Served lib k s s' := by
  intro hserved
  have hstep : lib.step? s (.serve k) = some s' := serve?_eq_some_iff.2 hserved
  cases (h (.serve k) trivial).symm.trans hstep

/-- At rest a promise is kept. -/
theorem Sound.exists_promised (hs : s.Sound lib) (hrest : s.AtRest lib) (hslot : s.slot = some k) :
    ∃ outcome, s.promised? k = some outcome := by
  cases hs.promised with
  | none _ hempty _ => cases hslot.symm.trans hempty
  | one p hone htells hwhere =>
      have hk : k = 0 := by
        rcases hwhere with hthere | ⟨i, hempty, -⟩
        · exact Option.some.inj (hslot.symm.trans hthere)
        · cases hslot.symm.trans hempty
      subst hk
      have hpromise : s.promises[0]? = some p := by rw [hone, List.getElem?_cons_zero]
      cases p with
      | pending => exact absurd (.ask hpromise) hrest.not_served
      | loaded outcome =>
          cases outcome with
          | ok members => exact absurd (.keep hpromise) hrest.not_served
          | error e => exact absurd (.fail hpromise) hrest.not_served
      | kept kept =>
          cases kept with
          | error e => exact ⟨.error e, by simp [promised?, hpromise]⟩
          | ok address =>
              rcases htells with ⟨-, members, hset, -⟩
              exact ⟨.ok members, by simp [promised?, hpromise, hset]⟩

/-- At rest nobody holds the lock. -/
theorem Sound.lock_eq_none (hs : s.Sound lib) (hrest : s.AtRest lib) : s.lock = none := by
  rcases hlock : s.lock with _ | i
  · rfl
  · exfalso
    obtain ⟨⟨c, phase⟩, hphase⟩ : ∃ x, s.calls[i]? = some x :=
      ⟨_, List.getElem?_eq_getElem (hs.holder i hlock)⟩
    have hfits := hs.fits i c phase hphase
    cases phase with
    | entering => exact hfits hlock
    | inside =>
        rcases hslot : s.slot with _ | k
        · exact hrest.not_moved (.miss hphase hslot)
        · exact hrest.not_moved (.find hphase hslot)
    | missing =>
        by_cases hc : c = .prefetch
        · exact hrest.not_moved (.hire hphase hc)
        · exact hrest.not_moved (.begin hphase hc)
    | made k => exact hrest.not_moved (.put hphase)
    | loading k =>
        rcases hs.exists_promised hrest hfits.2 with ⟨outcome, hkept⟩
        exact hrest.not_moved (.finish hphase hkept)
    | leaving k => exact hrest.not_moved (.leave hphase)
    | waiting k => exact hfits.1 hlock
    | answered a => exact hfits.1 hlock

/-- At rest all calls are answered. -/
theorem Sound.exists_answer (hs : s.Sound lib) (hrest : s.AtRest lib)
    (hphase : s.calls[i]? = some (c, phase)) : ∃ a, phase = .answered a := by
  have hfits := hs.fits i c phase hphase
  have hfree := hs.lock_eq_none hrest
  cases phase with
  | entering => exact absurd (.enter hphase hfree) hrest.not_moved
  | inside => cases hfree.symm.trans hfits
  | missing => cases hfree.symm.trans hfits.1
  | made k => cases hfree.symm.trans hfits.1
  | loading k => cases hfree.symm.trans hfits.1
  | leaving k => cases hfree.symm.trans hfits.1
  | waiting k =>
      exfalso
      rcases hs.exists_promised hrest hfits.2 with ⟨e | members, hkept⟩
      · by_cases hc : c = .prefetch
        · exact hrest.not_moved (.done hphase hc)
        · exact hrest.not_moved (.fail hphase hc hkept)
      · cases c with
        | prefetch => exact hrest.not_moved (.done hphase rfl)
        | get => exact hrest.not_moved (.copy hphase rfl hkept)
        | isMember id => exact hrest.not_moved (.look hphase rfl hkept)
  | answered a => exact ⟨a, rfl⟩

/-- At rest the loader has been asked if there was a call. -/
theorem Sound.exists_asked (hs : s.Sound lib) (hrest : s.AtRest lib) (hcalls : s.calls ≠ []) :
    ∃ outcome, s.asked = [(lib.question, outcome)] := by
  rcases List.exists_cons_of_ne_nil hcalls with ⟨⟨c, phase⟩, rest, hcons⟩
  have hphase : s.calls[0]? = some (c, phase) := by rw [hcons, List.getElem?_cons_zero]
  rcases hs.exists_answer hrest hphase with ⟨a, rfl⟩
  rcases (hs.fits 0 c _ hphase).2.1 with ⟨k, hslot⟩
  rcases hs.exists_promised hrest hslot with ⟨outcome, hkept⟩
  exact ⟨outcome, hs.asked_of_promised hkept⟩

/-- The loader is asked once at most. -/
theorem Sound.asked_eq (hs : s.Sound lib) :
    s.asked = [] ∨ ∃ t, s.asked = [(lib.question, (lib.load t).1)] := by
  have hone : s.asked = [] ∨ ∃ outcome, s.asked = [(lib.question, outcome)] := by
    cases hs.promised with
    | none _ _ hnever => exact .inl hnever
    | one p _ htells _ =>
        cases p with
        | pending => exact .inl htells
        | loaded outcome => exact .inr ⟨outcome, htells⟩
        | kept kept =>
            cases kept with
            | error e => exact .inr ⟨.error e, htells⟩
            | ok address => exact .inr ⟨_, htells.2.choose_spec.2⟩
  rcases hone with hnever | ⟨outcome, hasked⟩
  · exact .inl hnever
  · rcases (hs.loads _ (hasked ▸ List.mem_cons_self)).2 with ⟨t, ht⟩
    exact .inr ⟨t, hasked.trans (by rw [← ht])⟩

end State

/-! ### Calculations -/

/-- Nobody uses the loader for something else. -/
def Action.IsQuiet : Action σ ρ → Prop
  | .use _ => False
  | _ => True

namespace State

/-- What happens leaves the loader alone, or asks it for the first time. -/
theorem Sound.step_quiet (hs : s.Sound lib) {a : Action σ ρ} (hquiet : a.IsQuiet)
    (h : lib.step? s a = some s') :
    s'.loader = s.loader ∧ s'.asked = s.asked ∨
      s.asked = [] ∧ s'.loader = (lib.load s.loader).2 ∧
        s'.asked = [(lib.question, (lib.load s.loader).1)] := by
  cases a with
  | call c => exact .inl (Option.some.inj h ▸ ⟨rfl, rfl⟩)
  | move i =>
      rcases move?_eq_some_iff.1 h with ⟨c, hmoved⟩
      cases hmoved <;> exact .inl ⟨rfl, rfl⟩
  | serve k =>
      cases serve?_eq_some_iff.1 h with
      | ask hpromise =>
          have hnever : s.asked = [] := (hs.tells_of_getElem? hpromise).2.2.1
          exact .inr ⟨hnever, rfl, by rw [hnever, List.nil_append]⟩
      | keep hpromise => exact .inl ⟨rfl, rfl⟩
      | fail hpromise => exact .inl ⟨rfl, rfl⟩
  | use t => exact hquiet.elim
  | change address members =>
      rw [step?] at h
      split at h
      · exact .inl (Option.some.inj h ▸ ⟨rfl, rfl⟩)
      · cases h

/-- The same for all that happens one after the other. -/
theorem Sound.run_quiet {schedule : List (Action σ ρ)} (hs : s.Sound lib)
    (hquiet : ∀ a ∈ schedule, a.IsQuiet) (h : lib.run? schedule s = some s') :
    s'.loader = s.loader ∧ s'.asked = s.asked ∨
      s.asked = [] ∧ s'.loader = (lib.load s.loader).2 ∧
        s'.asked = [(lib.question, (lib.load s.loader).1)] := by
  induction schedule generalizing s with
  | nil => exact .inl (Option.some.inj h ▸ ⟨rfl, rfl⟩)
  | cons a rest ih =>
      rcases Option.bind_eq_some_iff.1 h with ⟨t, hstep, hrest⟩
      have hthen := ih (hs.step hstep) (fun b hb => hquiet b (List.mem_cons_of_mem _ hb)) hrest
      rcases hs.step_quiet (hquiet a List.mem_cons_self) hstep with
        ⟨hloader, hasked⟩ | ⟨hnever, hloader, hasked⟩
      · rwa [hloader, hasked] at hthen
      · rcases hthen with ⟨hloader', hasked'⟩ | ⟨hnever', -⟩
        · exact .inr ⟨hnever, hloader'.trans hloader, hasked'.trans hasked⟩
        · cases hasked.symm.trans hnever'

/-- A calculation knows what is known of the library, and finds the loader as it is. -/
structure Keeps (s : State σ ρ) (c : CalcState σ ρ) : Prop where
  -- The loader keeps the same.
  loader : c.loader = s.loader
  -- The outcome is there once the loader has been asked.
  std : c.std.toList = s.asked.map Prod.snd

end State

end Library

namespace Calc

variable {parties : Calculator σ ρ} {s : CalcState σ ρ}

/-- A calculation that knows the outcome of loading the standard library stays as it is. -/
theorem stdOutcome_of_some {outcome : Except LoadError (PackageSet ρ)}
    (h : s.std = some outcome) : stdOutcome parties s = (.ok outcome, s) := by
  have hget : (get : Calc σ ρ _) s = (.ok s, s) := rfl
  unfold stdOutcome
  rw [bind_ok hget, h]
  rfl

/-- A calculation that does not know it asks the loader, and writes that down. -/
theorem stdOutcome_of_none (h : s.std = none) :
    stdOutcome parties s = (.ok (parties.library.load s.loader).1,
      { s.record parties.library.question with
        loader := (parties.library.load s.loader).2
        std := some (parties.library.load s.loader).1 }) := by
  have hget : (get : Calc σ ρ _) s = (.ok s, s) := rfl
  unfold stdOutcome
  rw [bind_ok hget, h]
  rcases hload : parties.loader.load { tests := true } [stdPattern] s.loader with ⟨e | roots, t⟩
  · have hfails : loadStd parties s = (.error (.error (.load e)),
        { s.record parties.library.question with loader := t }) := by
      refine bind_error ?_
      unfold loadNodes
      dsimp only [CalcState.record]
      rw [hload]
      rfl
    dsimp only
    rw [bind_ok (attempt_error hfails)]
    simp only [Calculator.library, Library.load, hload]
    rfl
  · have hloads : loadStd parties s = (.ok (.ofClosure (parties.loader.catalog t) roots),
        { s.record parties.library.question with loader := t }) := by
      have hnodes : loadNodes parties { tests := true } [stdPattern] s =
          (.ok roots, { s.record parties.library.question with loader := t }) := by
        unfold loadNodes
        dsimp only [CalcState.record]
        rw [hload]
        rfl
      unfold loadStd
      rw [bind_ok hnodes, bind_ok catalog_apply]
      exact pure_apply _
    dsimp only
    rw [bind_ok (attempt_ok hloads)]
    simp only [Calculator.library, Library.load, hload]
    rfl

end Calc

namespace Library

variable {lib : Library σ ρ} {s s' : State σ ρ}

/-- What calls have done to the loader, and what they know of the library, is what a calculation
    does and knows that needs it. -/
theorem State.Keeps.exists_stdOutcome {parties : Calculator σ ρ} {before : CalcState σ ρ}
    (hkeeps : s.Keeps before) (hs : s.Sound parties.library) {schedule : List (Action σ ρ)}
    (hquiet : ∀ a ∈ schedule, a.IsQuiet) (h : parties.library.run? schedule s = some s')
    (hasked : s'.asked ≠ []) :
    ∃ outcome after, Calc.stdOutcome parties before = (.ok outcome, after) ∧
      s'.Keeps after ∧ s'.asked = [(parties.library.question, outcome)] ∧
      after.journal = before.journal ++ (s'.asked.drop s.asked.length).map Prod.fst := by
  rcases hs.run_quiet hquiet h with ⟨hloader, hsame⟩ | ⟨hnever, hloader, honce⟩
  · rcases hs.asked_eq with hnever | ⟨t, honce⟩
    · exact absurd (hsame.trans hnever) hasked
    · have hstd : before.std = some (parties.library.load t).1 := by
        have hlist := hkeeps.std
        rw [honce, List.map_singleton] at hlist
        exact Option.toList_eq_singleton_iff.1 hlist
      refine ⟨_, before, Calc.stdOutcome_of_some hstd, ⟨?_, ?_⟩, hsame.trans honce, ?_⟩
      · exact hkeeps.loader.trans hloader.symm
      · rw [hkeeps.std, hsame]
      · rw [hsame, List.drop_length, List.map_nil, List.append_nil]
  · have hstd : before.std = none := by
      have hlist := hkeeps.std
      rw [hnever, List.map_nil] at hlist
      exact Option.toList_eq_nil_iff.1 hlist
    refine ⟨_, _, Calc.stdOutcome_of_none hstd, ⟨?_, ?_⟩, ?_, ?_⟩
    · rw [hloader, hkeeps.loader]
    · rw [honce, hkeeps.loader]
      rfl
    · rw [honce, hkeeps.loader]
    · rw [honce, hnever]
      rfl

/-- Whoever calls, however the moves of calls and workers follow each other, and whatever becomes of
    the loader meanwhile: the loader is asked for the library once at most, and what it gives is
    closed. All calls that wait are told what it said then, though callers change the sets that
    they were given. Moves come to an end, and when nobody can move the loader has been asked and
    all calls are answered. A calculation that needs the library does to the loader just what any
    number of calls do, and knows what they are told. -/
theorem run_loads_once (lib : Library σ ρ) (t : σ) {schedule : List (Action σ ρ)} {s : State σ ρ}
    (h : lib.run? schedule { loader := t } = some s) :
    (s.asked = [] ∨ ∃ u, s.asked = [(lib.question, (lib.load u).1)] ∧
      ∀ members, (lib.load u).1 = .ok members →
        ∃ roots v, lib.loader.load { tests := true } [lib.pattern] u = (.ok roots, v) ∧
          members.ClosedOver (lib.loader.catalog v) roots) ∧
    (∀ c a, (c, .answered a) ∈ s.calls → c = .prefetch ∧ a = .done ∨
      ∃ outcome, s.asked = [(lib.question, outcome)] ∧ Agrees c outcome a) ∧
    (∀ moves s', (∀ a ∈ moves, a.IsOwn) → lib.run? moves s = some s' →
      moves.length + s'.remaining ≤ s.remaining) ∧
    (s.AtRest lib → s.calls ≠ [] → (∃ outcome, s.asked = [(lib.question, outcome)]) ∧
      ∀ c phase, (c, phase) ∈ s.calls → ∃ a, phase = .answered a) ∧
    ∀ (parties : Calculator σ ρ) (before : CalcState σ ρ) (quiet : List (Action σ ρ)) (s'),
      parties.library = lib → s.Keeps before → (∀ a ∈ quiet, a.IsQuiet) →
      lib.run? quiet s = some s' → s'.asked ≠ [] →
        ∃ outcome after, Calc.stdOutcome parties before = (.ok outcome, after) ∧
          s'.Keeps after ∧ s'.asked = [(lib.question, outcome)] ∧
          after.journal = before.journal ++ (s'.asked.drop s.asked.length).map Prod.fst := by
  have hs : s.Sound lib := (State.sound_start lib t).run h
  refine ⟨?_, ?_, fun moves s' hown hrun => length_add_remaining_le hown hrun, ?_, ?_⟩
  · rcases hs.asked_eq with hnever | ⟨u, honce⟩
    · exact .inl hnever
    · exact .inr ⟨u, honce, fun members hmembers => exists_closedOver_of_load hmembers⟩
  · intro c a hcall
    rcases List.mem_iff_getElem?.1 hcall with ⟨i, hphase⟩
    exact (hs.fits i c _ hphase).2.2
  · intro hrest hcalls
    refine ⟨hs.exists_asked hrest hcalls, fun c phase hcall => ?_⟩
    rcases List.mem_iff_getElem?.1 hcall with ⟨i, hphase⟩
    exact hs.exists_answer hrest hphase
  · rintro parties before quiet s' rfl hkeeps hquiet hrun hasked
    exact hkeeps.exists_stdOutcome hs hquiet hrun hasked

/-- Two packages of a standard library, one of which imports the other. -/
def streams : OrderedMap String (Node String) :=
  .ofList [
    ("os", (Node.make "os" "" none {} [] false true).addImport "" "io" "io"),
    ("io", Node.make "io" "" none {} [] false true)]

/-- A loader that has an answer for the first who asks, and no other. -/
def fickleLoader : Loader Nat String where
  defaultPattern := "..."
  catalog _ := .ofMap streams
  load _ patterns n :=
    match n with
    | 0 => (.ok streams.values, 1)
    | n + 1 => (.error (.noMatch patterns), n + 2)
  allNodes _ n := (.ok streams, n)

/-- The library is asked for beforehand and at once. The worker has asked the loader before
    anybody may know of it, and somebody else asks the loader meanwhile. The one who gets the set
    throws everything out of it, before another call asks for a package. -/
def crowd : List (Action Nat String) :=
  [.call .prefetch, .call .get, .move 0, .move 0, .move 0, .serve 0, .move 0, .move 0, .use 5,
    .move 1, .move 0, .move 1, .move 1, .serve 0, .move 1, .change 1 .empty,
    .call (.isMember "io"), .move 2, .move 2, .move 2, .move 2]

/-- The crowd asks the loader once, and a package is found that somebody has thrown out of a set of
    his own. -/
theorem run_loads_once_crowd :
    let lib : Library Nat String := { loader := fickleLoader }
    ∃ s members, lib.run? crowd { loader := 0 } = some s ∧
      s.asked = [(lib.question, .ok members)] ∧ (s.sets[1]?).map (·.keys) = some [] ∧
      (∃ address, (.get, .answered (.set address members)) ∈ s.calls) ∧
      (.isMember "io", .answered (.member true)) ∈ s.calls := by
  intro lib
  have hshown : (lib.run? crowd { loader := 0 }).map (fun s => (s.asked.map (·.2.isOk),
      (s.sets[1]?).map (·.keys), s.calls.map fun c => (c.1, c.2.remaining))) =
      some ([true], some [], [(.prefetch, 0), (.get, 0), (.isMember "io", 0)]) := by
    decide +kernel
  rcases Option.map_eq_some_iff.1 hshown with ⟨s, hs, hparts⟩
  rcases Prod.mk.inj hparts with ⟨hok, hparts⟩
  rcases Prod.mk.inj hparts with ⟨hthrown, hcalls⟩
  have hanswered : ∀ c, (c, 0) ∈ [(Call.prefetch, 0), (.get, 0), (.isMember "io", 0)] →
      ∃ a, (c, .answered a) ∈ s.calls := by
    intro c hc
    rcases List.mem_map.1 (hcalls ▸ hc) with ⟨⟨d, phase⟩, hcall, hparts⟩
    rcases Prod.mk.inj hparts with ⟨rfl, hzero⟩
    rcases exists_answered_of_remaining hzero with ⟨a, rfl⟩
    exact ⟨a, hcall⟩
  rcases run_loads_once lib 0 hs with ⟨hnever | ⟨u, honce, hclosed⟩, htold, -⟩
  · rw [hnever] at hok
    cases hok
  · rcases houtcome : (lib.load u).1 with e | members
    · rw [honce, houtcome] at hok
      cases hok
    · rw [houtcome] at honce
      have hfound : "io" ∈ members.keys := by
        rcases hclosed members houtcome with ⟨roots, v, hload, hover⟩
        cases u with
        | zero =>
            cases hload
            have hids : "io" ∈ streams.values.map Node.id := by decide +kernel
            rcases List.mem_map.1 hids with ⟨p, hp, hid⟩
            exact hid ▸ hover.holds p hp
        | succ n => cases hload
      refine ⟨s, members, hs, honce, hthrown, ?_, ?_⟩
      · rcases hanswered .get (by simp) with ⟨a, hcall⟩
        rcases htold _ _ hcall with ⟨hprefetch, -⟩ | ⟨outcome, hone, hagrees⟩
        · cases hprefetch
        · cases honce.symm.trans hone
          cases hagrees
          exact ⟨_, hcall⟩
      · rcases hanswered (.isMember "io") (by simp) with ⟨a, hcall⟩
        rcases htold _ _ hcall with ⟨hprefetch, -⟩ | ⟨outcome, hone, hagrees⟩
        · cases hprefetch
        · cases honce.symm.trans hone
          cases hagrees
          exact (OrderedMap.contains_iff_mem_keys.2 hfound) ▸ hcall

end Library

end PackageAlgebra
