import Mathlib.Algebra.GroupWithZero.Nat
import PackageAlgebra.Package.Walk
import Mathlib.Logic.Relation

/-!
# What a Walk Meets

A walk meets the keys that its stack leads to, each once.

The walk knows which keys are unseen, and a path to a key may have been cut off
where it runs through a key that was met before. Nothing is lost by that, because
whatever lies behind such a key is met from there. `Explored` says so without a
word about the order of the meetings: what is on the stack is met, and what lies
behind something met is met. Both parts speak of keys and not of items. Two items
may share a key, only one of them is met, and what lies behind the other is not
asked for.

The walk has two steps, and each of them has a lemma that says what an exploration
of the rest is worth for the whole.

A walk carries the keys along that it has not met, and ends because they become fewer.
`Walked` is the same loop with the keys that it has met, which may go on forever for
all it knows. It comes to an end all the same if finitely many keys can be met, and
the number of its rounds is known: one for each item of the stack, and one for each
edge behind something met.

## Main definitions

* `Explored`: What a walk has met when its stack is empty.
* `Walked`: A walk by the keys that it has met, with the number of its rounds.

## Theorems

* `Explored.meet`, `Explored.drop`: The two steps of a walk.
* `explored_walk`: A walk explores all that its stack leads to.
* `mem_walk_self_iff`: A walk among keys meets what its stack leads to.
* `walk_congr_on`: What a walk among items of a kind depends on.
* `walk_append`: A walk from several items is several walks.
* `walked_walk`: A walk comes to an end without knowing what is left to meet.
-/

namespace PackageAlgebra

open Relation

/-- What a walk has met when its stack is empty. -/
structure Explored {α : Type} (key : α → String) (next : α → List α) (unseen : List String)
    (stack met : List α) : Prop where
  -- No key is met twice.
  nodup : (met.map key).Nodup
  -- What is met was reached from the stack along keys that were unseen.
  reached : ∀ a ∈ met, ∃ s ∈ stack, key s ∈ unseen ∧
    ReflTransGen (fun b c => c ∈ next b ∧ key c ∈ unseen) s a
  -- An unseen key on the stack is met.
  stack_met : ∀ a ∈ stack, key a ∈ unseen → key a ∈ met.map key
  -- An unseen key behind something met is met.
  next_met : ∀ a ∈ met, ∀ b ∈ next a, key b ∈ unseen → key b ∈ met.map key

variable {α : Type} {key : α → String} {next : α → List α} {unseen : List String}
  {stack met : List α} {a : α}

theorem mem_without {keys : List String} {k k' : String} :
    k' ∈ without keys k ↔ k' ∈ keys ∧ k' ≠ k := by
  simp [without]

namespace Explored

/-- Only keys that were unseen are met. -/
theorem mem_unseen (h : Explored key next unseen stack met) (ha : a ∈ met) : key a ∈ unseen := by
  rcases h.reached a ha with ⟨s, _, hkey, hpath⟩
  rcases hpath.cases_tail with rfl | ⟨_, _, hstep⟩
  · exact hkey
  · exact hstep.2

/-- A walk that meets the top of its stack goes on behind it. -/
theorem meet (ha : key a ∈ unseen)
    (h : Explored key next (without unseen (key a)) (next a ++ stack) met) :
    Explored key next unseen (a :: stack) (a :: met) where
  nodup := by
    rw [List.map_cons, List.nodup_cons]
    refine ⟨fun hmem => ?_, h.nodup⟩
    rcases List.mem_map.1 hmem with ⟨b, hb, hkey⟩
    exact (mem_without.1 (h.mem_unseen hb)).2 hkey
  reached b hb := by
    rcases List.mem_cons.1 hb with rfl | hb
    · exact ⟨b, List.mem_cons_self, ha, .refl⟩
    · rcases h.reached b hb with ⟨s, hs, hkey, hpath⟩
      have hunseen : ∀ k, k ∈ without unseen (key a) → k ∈ unseen :=
        fun _ hk => (mem_without.1 hk).1
      have hpath : ReflTransGen (fun b c => c ∈ next b ∧ key c ∈ unseen) s b :=
        ReflTransGen.mono (fun _ _ hstep => hstep.imp_right (hunseen _)) _ _ hpath
      rcases List.mem_append.1 hs with hs | hs
      · exact ⟨a, List.mem_cons_self, ha, .head ⟨hs, hunseen _ hkey⟩ hpath⟩
      · exact ⟨s, List.mem_cons_of_mem a hs, hunseen _ hkey, hpath⟩
  stack_met b hb hkey := by
    by_cases heq : key b = key a
    · exact heq ▸ List.mem_cons_self
    · rcases List.mem_cons.1 hb with rfl | hb
      · exact absurd rfl heq
      · exact List.mem_cons_of_mem _
          (h.stack_met b (List.mem_append_right _ hb) (mem_without.2 ⟨hkey, heq⟩))
  next_met b hb c hc hkey := by
    by_cases heq : key c = key a
    · exact heq ▸ List.mem_cons_self
    · -- What lies behind the top was put on the stack.
      have hunseen := mem_without.2 ⟨hkey, heq⟩
      rcases List.mem_cons.1 hb with rfl | hb
      · exact List.mem_cons_of_mem _ (h.stack_met c (List.mem_append_left _ hc) hunseen)
      · exact List.mem_cons_of_mem _ (h.next_met b hb c hc hunseen)

/-- A walk drops the top of its stack if that was met before. -/
theorem drop (ha : key a ∉ unseen) (h : Explored key next unseen stack met) :
    Explored key next unseen (a :: stack) met where
  nodup := h.nodup
  reached b hb := by
    rcases h.reached b hb with ⟨s, hs, hkey, hpath⟩
    exact ⟨s, List.mem_cons_of_mem a hs, hkey, hpath⟩
  stack_met b hb hkey := by
    rcases List.mem_cons.1 hb with rfl | hb
    · exact absurd hkey ha
    · exact h.stack_met b hb hkey
  next_met := h.next_met

end Explored

/-- A walk explores all that its stack leads to. -/
theorem explored_walk (key : α → String) (next : α → List α) (unseen : List String)
    (stack : List α) : Explored key next unseen stack (walk key next unseen stack) := by
  induction unseen, stack using walk.induct key next with
  | case1 unseen =>
      rw [walk]
      refine ⟨List.nodup_nil, ?_, ?_, ?_⟩ <;> exact fun a ha => absurd ha List.not_mem_nil
  | case2 unseen a rest ha ih =>
      rw [walk, if_pos ha]
      exact ih.meet ha
  | case3 unseen a rest ha ih =>
      rw [walk, if_neg ha]
      exact ih.drop ha

/-- Where nothing leads to a key that is not known, a walk among keys meets what its stack leads
    to. -/
theorem mem_walk_self_iff {next : String → List String} {known stack : List String} {x : String}
    (hstack : ∀ y ∈ stack, y ∈ known) (hnext : ∀ y, ∀ z ∈ next y, z ∈ known) :
    x ∈ walk (fun y => y) next known stack ↔
      ∃ s ∈ stack, ReflTransGen (fun y z => z ∈ next y) s x := by
  have hexplored := explored_walk (fun y => y) next known stack
  constructor
  · intro hx
    rcases hexplored.reached x hx with ⟨s, hs, -, hpath⟩
    exact ⟨s, hs, ReflTransGen.mono (fun _ _ hstep => hstep.1) _ _ hpath⟩
  · rintro ⟨s, hs, hpath⟩
    rw [← List.map_id' (walk (fun y => y) next known stack)]
    induction hpath with
    | refl => exact hexplored.stack_met s hs (hstack s hs)
    | @tail y z _ hstep ih =>
        rw [List.map_id'] at ih
        exact hexplored.next_met y ih z hstep (hnext y z hstep)

/-! ### Several walks -/

/-- A walk from items of a kind depends on what lies behind such items, and on the keys alone that
    can be met. -/
theorem walk_congr_on {next' : α → List α} {known : List String} {P : α → Prop}
    (hstack : ∀ a ∈ stack, P a)
    (hnext : ∀ a, P a → next a = next' a ∧ ∀ b ∈ next a, P b)
    (hknown : ∀ a, (a ∈ stack ∨ ∃ b, P b ∧ a ∈ next b) → (key a ∈ unseen ↔ key a ∈ known)) :
    walk key next unseen stack = walk key next' known stack := by
  induction unseen, stack using walk.induct key next generalizing known with
  | case1 unseen => rw [walk, walk]
  | case2 unseen a rest ha ih =>
      rw [List.forall_mem_cons] at hstack
      have hmore : ∀ b ∈ next a ++ rest, P b :=
        List.forall_mem_append.2 ⟨(hnext a hstack.1).2, hstack.2⟩
      rw [walk, walk, if_pos ha, if_pos ((hknown a (Or.inl List.mem_cons_self)).1 ha),
        ← (hnext a hstack.1).1]
      refine congrArg (a :: ·) (ih hmore fun b hb => ?_)
      have hb : key b ∈ unseen ↔ key b ∈ known := by
        refine hknown b ?_
        rcases hb with hb | hb
        · rcases List.mem_append.1 hb with hb | hb
          · exact Or.inr ⟨a, hstack.1, hb⟩
          · exact Or.inl (List.mem_cons_of_mem a hb)
        · exact Or.inr hb
      rw [mem_without, mem_without, hb]
  | case3 unseen a rest ha ih =>
      rw [List.forall_mem_cons] at hstack
      rw [walk, walk, if_neg ha, if_neg (mt (hknown a (Or.inl List.mem_cons_self)).2 ha)]
      exact ih hstack.2 fun b hb => hknown b (hb.imp_left (List.mem_cons_of_mem a))

/-- A walk depends on the keys alone that can be met. -/
theorem walk_congr {known : List String}
    (h : ∀ a, (a ∈ stack ∨ ∃ b, a ∈ next b) → (key a ∈ unseen ↔ key a ∈ known)) :
    walk key next unseen stack = walk key next known stack :=
  walk_congr_on (P := fun _ => True) (fun _ _ => trivial) (fun _ _ => ⟨rfl, fun _ _ => trivial⟩)
    fun a ha => h a (ha.imp_right fun ⟨b, _, hb⟩ => ⟨b, hb⟩)

/-- A walk from two stacks meets what a walk from the first meets, and then what a walk from the
    second meets that turns back there. -/
theorem walk_append (second : List α) :
    walk key next unseen (stack ++ second) = walk key next unseen stack ++
      walk key next (unseen.filter (· ∉ (walk key next unseen stack).map key)) second := by
  induction unseen, stack using walk.induct key next with
  | case1 unseen =>
      rw [walk, List.map_nil, List.nil_append, List.nil_append]
      refine walk_congr fun b _ => ?_
      simp
  | case2 unseen a rest ha ih =>
      rw [List.cons_append, walk, walk, if_pos ha, if_pos ha, ← List.append_assoc, ih,
        List.cons_append]
      refine congrArg (fun met => a :: (_ ++ met)) (walk_congr fun b _ => ?_)
      simp only [List.mem_filter, mem_without, decide_eq_true_eq, List.map_cons, List.mem_cons,
        not_or, and_assoc]
  | case3 unseen a rest ha ih => rw [List.cons_append, walk, walk, if_neg ha, if_neg ha, ih]

/-! ### Walks by what they have met -/

/-- A walk by the keys that it has met so far: what it meets from now on, and the number of its
    rounds. -/
inductive Walked {α : Type} (key : α → String) (next : α → List α) :
    (seen : List String) → (stack met : List α) → (rounds : Nat) → Prop
  -- Nothing is left on the stack.
  | done {seen : List String} : Walked key next seen [] [] 0
  -- The top of the stack has been met before.
  | drop {seen : List String} {stack met : List α} {rounds : Nat} {a : α} (ha : key a ∈ seen)
      (rest : Walked key next seen stack met rounds) :
      Walked key next seen (a :: stack) met (rounds + 1)
  -- The top of the stack is met, and what lies behind it goes on the stack.
  | meet {seen : List String} {stack met : List α} {rounds : Nat} {a : α} (ha : key a ∉ seen)
      (rest : Walked key next (key a :: seen) (next a ++ stack) met rounds) :
      Walked key next seen (a :: stack) (a :: met) (rounds + 1)

/-- Where all keys that have not been met are known, a walk comes to an end without knowing them.
    Its rounds are as many as its stack has items and what it meets has edges. -/
theorem walked_walk {seen : List String}
    (hknown : ∀ a, (a ∈ stack ∨ ∃ b, a ∈ next b) → (key a ∈ unseen ↔ key a ∉ seen)) :
    Walked key next seen stack (walk key next unseen stack)
      (stack.length + ((walk key next unseen stack).map fun a => (next a).length).sum) := by
  induction unseen, stack using walk.induct key next generalizing seen with
  | case1 unseen =>
      rw [walk]
      exact .done
  | case2 unseen a rest ha ih =>
      have hnew : key a ∉ seen := (hknown a (Or.inl List.mem_cons_self)).1 ha
      have hrest : ∀ b, (b ∈ next a ++ rest ∨ ∃ c, b ∈ next c) →
          (key b ∈ without unseen (key a) ↔ key b ∉ key a :: seen) := by
        intro b hb
        have hb : key b ∈ unseen ↔ key b ∉ seen := by
          refine hknown b ?_
          rcases hb with hb | hb
          · rcases List.mem_append.1 hb with hb | hb
            · exact Or.inr ⟨a, hb⟩
            · exact Or.inl (List.mem_cons_of_mem a hb)
          · exact Or.inr hb
        rw [mem_without, List.mem_cons, not_or, hb, and_comm]
      have hwalk : walk key next unseen (a :: rest) =
          a :: walk key next (without unseen (key a)) (next a ++ rest) := by
        rw [walk, if_pos ha]
      have hrounds : (a :: rest).length +
          ((walk key next unseen (a :: rest)).map fun b => (next b).length).sum =
          (next a ++ rest).length + ((walk key next (without unseen (key a))
            (next a ++ rest)).map fun b => (next b).length).sum + 1 := by
        rw [hwalk, List.map_cons, List.sum_cons, List.length_cons, List.length_append]
        omega
      rw [hrounds, hwalk]
      exact .meet hnew (ih hrest)
  | case3 unseen a rest ha ih =>
      have hseen : key a ∈ seen :=
        Decidable.not_not.1 fun hnew => ha ((hknown a (Or.inl List.mem_cons_self)).2 hnew)
      rw [walk, if_neg ha, List.length_cons, Nat.add_right_comm]
      exact .drop hseen (ih fun b hb => hknown b (hb.imp_left (List.mem_cons_of_mem a)))

end PackageAlgebra
