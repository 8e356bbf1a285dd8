/-
# Programs that run at the same time

Several contexts share one device, and each runs a program of its own; whose operation comes next is
open.  To one context the others are part of the environment, as far as their guarantee goes.

* `Shared.view` is the device as one context sees it, and `view_stable` says what an assertion of
  that context has to withstand.
* `Shared.reach_holds`: if every context, seen alone, meets its step property and its own guarantee,
  then all of them meet it in every interleaving.
-/
import S9p.Lib.Prog
import Mathlib.Data.Finset.Insert
import Mathlib.Logic.Function.Basic

/-- A device that several contexts use; an operation is performed by one of them. -/
structure Shared (ι Op : Type) (Ans : Op → Type) (σ Env Ch : Type) where
  env : Env → σ → Option σ
  act : ι → (o : Op) → Ch → σ → Option (Ans o × σ)

namespace Shared

variable {ι Op : Type} {Ans : Op → Type} {σ Env Ch α : Type}

/-- `X.Reach init p s q`: some run of the programs `p` comes through the state `s` with the programs
`q` left.  There is no fairness: a context may be left where it is for the rest of the run. -/
inductive Reach [DecidableEq ι] (X : Shared ι Op Ans σ Env Ch) (init : σ → Prop)
    (p : ι → Prog Op Ans α) : σ → (ι → Prog Op Ans α) → Prop
  | boot {s : σ} : init s → Reach X init p s p
  | env {s t : σ} {q : ι → Prog Op Ans α} {e : Env} :
      Reach X init p s q → X.env e s = some t → Reach X init p t q
  | op {s t : σ} {q : ι → Prog Op Ans α} {o : Op} {k : Ans o → Prog Op Ans α} {r : Ans o}
      (i : ι) (ch : Ch) : Reach X init p s q → q i = .op o k → X.act i o ch s = some (r, t) →
      Reach X init p t (Function.update q i (k r))

/-! ## 1. One context

The view of a context has no other contexts in it: their operations are steps of its environment,
whatever they are, as long as the guarantees are kept.  The rules for a single program apply to it
as they are. -/

section View

variable (X : Shared ι Op Ans σ Env Ch) (G : ι → σ → σ → Prop)

/-- What may happen between two operations of `i`. -/
def Moves (i : ι) (s t : σ) : Prop := (∃ e, X.env e s = some t) ∨ ∃ j, j ≠ i ∧ G j s t

open Classical in
/-- The device as `i` sees it if each context keeps its guarantee `G`. -/
noncomputable def view (i : ι) : Device Op Ans σ σ Ch where
  env := fun t s => if X.Moves G i s t then some t else none
  act := X.act i

/-- Whatever the context gets for its next operation, it keeps its guarantee. -/
def Keeps (i : ι) (s : σ) : Option Op → Prop
  | none => True
  | some o => ∀ ch r t, X.act i o ch s = some (r, t) → G i s t

variable {X G} {i : ι}

theorem envStep_view {s t : σ} : (X.view G i).EnvStep s t ↔ X.Moves G i s t := by
  constructor
  · rintro ⟨e, he⟩
    simp only [view] at he
    split at he
    · rename_i hmoves
      exact Option.some.inj he ▸ hmoves
    · exact absurd he (by simp)
  · exact fun h => ⟨t, by simp [view, h]⟩

/-- **An assertion of `i`** has to withstand the environment and the guarantees of the others. -/
theorem view_stable {P : σ → Prop} (henv : ∀ e s t, X.env e s = some t → P s → P t)
    (hothers : ∀ j s t, j ≠ i → G j s t → P s → P t) : (X.view G i).Stable P := by
  intro e s t he hs
  rcases envStep_view.mp ⟨e, he⟩ with ⟨e, he⟩ | ⟨j, hj, hG⟩
  · exact henv e s t he hs
  · exact hothers j s t hj hG hs

end View

/-! ## 2. All of them

The induction is on the run.  Each operation is a step of one context's own proof, and for all
others a step of the environment that their assertions withstand. -/

section Holds

variable [DecidableEq ι] {X : Shared ι Op Ans σ Env Ch} {G : ι → σ → σ → Prop} {init : σ → Prop}
  {p q : ι → Prog Op Ans α} {S : ι → σ → Option Op → Prop} {Q : ι → α → σ → Prop} {s : σ}

/-- Nothing is asked of the operations. -/
abbrev anyOp : σ → (o : Op) → Ch → Bool := fun _ _ _ => true

/-- **The rule for programs that run at the same time**: what each context meets in its own view, it
meets in every interleaving. -/
theorem reach_holds
    (hp : ∀ i s, init s → Device.wp (X.view G i) anyOp
      (fun s o => S i s o ∧ X.Keeps G i s o) (p i) (Q i) s)
    (h : X.Reach init p s q) (i : ι) :
    Device.wp (X.view G i) anyOp (fun s o => S i s o ∧ X.Keeps G i s o) (q i) (Q i) s := by
  induction h generalizing i with
  | boot hinit => exact hp i _ hinit
  | env _ he ih =>
    exact Device.wp_drift (ih i) (Relation.ReflTransGen.single (envStep_view.mpr (.inl ⟨_, he⟩)))
  | @op s t q o k r j ch _ hj hact ih =>
    have hwp := ih j
    rw [hj] at hwp
    obtain ⟨⟨-, hkeeps⟩, hrest⟩ := hwp s .refl
    by_cases hij : i = j
    · subst hij
      rw [Function.update_self]
      exact hrest ch r t rfl hact
    · rw [Function.update_of_ne hij]
      exact Device.wp_drift (ih i)
        (Relation.ReflTransGen.single (envStep_view.mpr (.inr ⟨j, Ne.symm hij,
          hkeeps ch r t hact⟩)))

/-- What holds of the state at every step of some context. -/
theorem reach_state
    (hp : ∀ i s, init s → Device.wp (X.view G i) anyOp
      (fun s o => S i s o ∧ X.Keeps G i s o) (p i) (Q i) s)
    (h : X.Reach init p s q) (i : ι) {J : σ → Prop} (hJ : ∀ s o, S i s o → J s) : J s := by
  have hwp := reach_holds hp h i
  cases hq : q i with
  | ret a => exact hJ _ _ ((hq ▸ hwp) s .refl).1.1
  | op o k => exact hJ _ _ ((hq ▸ hwp) s .refl).1.1

/-- What a context that has returned leaves. -/
theorem reach_ret
    (hp : ∀ i s, init s → Device.wp (X.view G i) anyOp
      (fun s o => S i s o ∧ X.Keeps G i s o) (p i) (Q i) s)
    (h : X.Reach init p s q) {i : ι} {a : α} (hi : q i = .ret a) : Q i a s := by
  have hwp := reach_holds hp h i
  rw [hi] at hwp
  exact (hwp s .refl).2

/-- One operation of one context, which leaves the others where they are. -/
theorem Reach.own {i : ι} (ch : Ch) {t : σ} {o : Op} {k : Ans o → Prog Op Ans α} {r : Ans o}
    (h : X.Reach init p s q) (hi : q i = .op o k) (hact : X.act i o ch s = some (r, t)) :
    ∃ q', X.Reach init p t q' ∧ q' i = k r ∧ ∀ j, j ≠ i → q' j = q j :=
  ⟨_, .op i ch h hi hact, Function.update_self .., fun _ hj => Function.update_of_ne hj ..⟩

/-- A context that is always answered can run the first part of what it has left while the others
stay where they are. -/
theorem Reach.advance (hall : ∀ i o s, ∃ ch r t, X.act i o ch s = some (r, t)) {i : ι} {β : Type}
    {p' : Prog Op Ans β} {f : β → Prog Op Ans α} (h : X.Reach init p s q) (hi : q i = p' >>= f) :
    ∃ t q' b, X.Reach init p t q' ∧ q' i = f b ∧ ∀ j, j ≠ i → q' j = q j := by
  induction p' generalizing s q with
  | ret b => exact ⟨s, q, b, h, hi, fun _ _ => rfl⟩
  | op o k ih =>
    obtain ⟨ch, r, t, hact⟩ := hall i o s
    obtain ⟨q₁, h₁, hi₁, hq₁⟩ := h.own ch hi hact
    obtain ⟨u, q₂, b, h₂, hb, hq₂⟩ := ih r h₁ hi₁
    exact ⟨u, q₂, b, h₂, hb, fun j hj => (hq₂ j hj).trans (hq₁ j hj)⟩

/-- Any finite number of them can run to their ends, one after the other. -/
theorem Reach.finish_all (hall : ∀ i o s, ∃ ch r t, X.act i o ch s = some (r, t)) (F : Finset ι)
    (h : X.Reach init p s q) :
    ∃ t q', X.Reach init p t q' ∧ (∀ i ∈ F, ∃ a, q' i = .ret a) ∧ ∀ j, j ∉ F → q' j = q j := by
  induction F using Finset.induction_on with
  | empty => exact ⟨s, q, h, fun i hi => absurd hi (Finset.notMem_empty i), fun _ _ => rfl⟩
  | insert i F hi ih =>
    obtain ⟨t, q₁, h₁, hret, hq₁⟩ := ih
    obtain ⟨u, q₂, b, h₂, hret', hq₂⟩ := h₁.advance hall (bind_pure (q₁ i)).symm
    refine ⟨u, q₂, h₂, fun j hj => ?_, fun j hj => ?_⟩
    · rcases Finset.mem_insert.mp hj with rfl | hj
      · exact ⟨b, hret'⟩
      · obtain ⟨a, ha⟩ := hret j hj
        exact ⟨a, (hq₂ j (fun hji => hi (hji ▸ hj))).trans ha⟩
    · rw [Finset.mem_insert, not_or] at hj
      exact (hq₂ j hj.1).trans (hq₁ j hj.2)

end Holds

/-! ## 3. Executing a run

A schedule is a list of turns, which says at each turn whose operation comes next. -/

section Exec

variable [DecidableEq ι] (X : Shared ι Op Ans σ Env Ch)

inductive Turn (ι Env Ch : Type) where
  | env (e : Env)
  | op (i : ι) (ch : Ch)

def turn : Turn ι Env Ch → σ × (ι → Prog Op Ans α) → Option (σ × (ι → Prog Op Ans α))
  | .env e, (s, q) => (X.env e s).map (fun t => (t, q))
  | .op i ch, (s, q) =>
    match q i with
    | .op o k => (X.act i o ch s).map (fun rt => (rt.2, Function.update q i (k rt.1)))
    | .ret _ => none

def exec : List (Turn ι Env Ch) → σ × (ι → Prog Op Ans α) → Option (σ × (ι → Prog Op Ans α))
  | [], x => some x
  | e :: es, x => (X.turn e x).bind (exec es)

variable {X} {init : σ → Prop} {p : ι → Prog Op Ans α}

theorem turn_reach {e : Turn ι Env Ch} {x y : σ × (ι → Prog Op Ans α)} (h : X.turn e x = some y)
    (hr : X.Reach init p x.1 x.2) : X.Reach init p y.1 y.2 := by
  obtain ⟨s, q⟩ := x
  cases e with
  | env e =>
    obtain ⟨t, ht, rfl⟩ := Option.map_eq_some_iff.mp h
    exact .env hr ht
  | op i ch =>
    simp only [turn] at h
    split at h
    · rename_i o k hi
      obtain ⟨⟨r, t⟩, ht, rfl⟩ := Option.map_eq_some_iff.mp h
      exact .op i ch hr hi ht
    · exact absurd h (by simp)

/-- **Execution is sound.** -/
theorem exec_reach : ∀ (es : List (Turn ι Env Ch)) {x y : σ × (ι → Prog Op Ans α)},
    X.exec es x = some y → X.Reach init p x.1 x.2 → X.Reach init p y.1 y.2
  | [], x, y, h, hr => by
    simp only [exec, Option.some.injEq] at h
    exact h ▸ hr
  | e :: es, x, y, h, hr => by
    obtain ⟨z, hz, hy⟩ := Option.bind_eq_some_iff.mp h
    exact exec_reach es hy (turn_reach hz hr)

/-- Turns that lead to a state passing the test `P` show that such a state is reachable. -/
theorem reach_of_exec {s : σ} (hs : init s) (es : List (Turn ι Env Ch)) (P : σ → Bool)
    (h : (X.exec es (s, p)).any (fun x => P x.1) = true) :
    ∃ t q, X.Reach init p t q ∧ P t = true := by
  cases hx : X.exec es (s, p) with
  | none => rw [hx] at h; exact absurd h (by simp)
  | some y =>
    rw [hx] at h
    exact ⟨y.1, y.2, exec_reach es hx (.boot hs), h⟩

end Exec

end Shared
