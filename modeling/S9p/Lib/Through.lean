/-
# Programs carried out over a lower interface

A handler says how each operation of an interface is carried out by a program over another one.
`p.through h` is `p` with every operation replaced so.  It is a homomorphism (`through_bind`),
and a contract on the answers goes down with it: when the handler turns a good operation into
good operations and what these are answered into a good answer, then `p.through h` meets below
what `p` meets above (`Meets.through`).

`Diverges` is what is left of a loop that never ends: a program without a result.
-/
import S9p.Lib.Prog

namespace Prog

variable {Op Op' : Type} {Ans : Op → Type} {Ans' : Op' → Type} {α β : Type}

/-! ## 1. The translation

A program over one interface becomes a program over another.  What is known of the handler carries
over, operation by operation. -/

/-- How the operations of one interface are carried out over another.  A handler may use several
lower operations for one upper one, and loop among them. -/
abbrev Handler (Op : Type) (Ans : Op → Type) (Op' : Type) (Ans' : Op' → Type) : Type :=
  (o : Op) → Prog Op' Ans' (Ans o)

/-- Each operation is replaced by a program of another device. -/
def through (p : Prog Op Ans α) (h : Handler Op Ans Op' Ans') : Prog Op' Ans' α :=
  match p with
  | .ret a => .ret a
  | .op o k => h o >>= fun r => (k r).through h

section Through

variable {h : Handler Op Ans Op' Ans'}

@[simp] theorem through_ret (a : α) : (Prog.ret a : Prog Op Ans α).through h = .ret a := rfl

@[simp] theorem through_op {o : Op} {k : Ans o → Prog Op Ans α} :
    (Prog.op o k).through h = (h o >>= fun r => (k r).through h) := rfl

/-- A sequence is carried out in sequence. -/
theorem through_bind {p : Prog Op Ans α} {f : α → Prog Op Ans β} :
    (p >>= f).through h = (p.through h >>= fun a => (f a).through h) := by
  induction p with
  | ret a => rfl
  | op o k ih =>
    simp only [op_bind, through_op, LawfulMonad.bind_assoc]
    exact congrArg _ (funext ih)

theorem through_perform {o : Op} : (perform o : Prog Op Ans (Ans o)).through h = h o :=
  bind_ret (h o)

theorem through_ite {c : Prop} [Decidable c] {p p' : Prog Op Ans α} :
    (if c then p else p').through h = if c then p.through h else p'.through h := by
  split
  · rfl
  · rfl

/-- **A contract goes down.** -/
theorem Meets.through {A : Op → Prop} {R : (o : Op) → Ans o → Prop} {A' : Op' → Prop}
    {R' : (o : Op') → Ans' o → Prop} {p : Prog Op Ans α} {Q : α → Prop}
    (hh : ∀ o, A o → (h o).Meets A' R' (R o)) (hp : p.Meets A R Q) :
    (p.through h).Meets A' R' Q := by
  induction p with
  | ret a => exact hp
  | op o k ih => exact (hh o hp.1).bind (fun r hr => ih r (hp.2 r hr))

/-- **A weakest precondition goes down**, when it does for each operation and the environment
below does no more. -/
theorem wp_through {σ Env Env' Ch Ch' : Type} {D : Device Op Ans σ Env Ch}
    {D' : Device Op' Ans' σ Env' Ch'} {ok : σ → (o : Op) → Ch → Bool}
    {ok' : σ → (o : Op') → Ch' → Bool} (henv : ∀ s t, D'.Drift s t → D.Drift s t)
    (hh : ∀ (o : Op) (Q : Ans o → σ → Prop) (s : σ),
      Device.wp D ok (fun _ _ => True) (perform o) Q s →
        Device.wp D' ok' (fun _ _ => True) (h o) Q s)
    {p : Prog Op Ans α} {Q : α → σ → Prop} {s : σ}
    (hp : Device.wp D ok (fun _ _ => True) p Q s) :
    Device.wp D' ok' (fun _ _ => True) (p.through h) Q s := by
  induction p generalizing s with
  | ret a => exact fun t ht => hp t (henv s t ht)
  | op o k ih =>
    rw [through_op]
    refine Device.wp_bind (Device.wp_mono (fun r t ht => ih r ht) (hh o _ s ?_))
    refine fun t ht => ⟨trivial, fun c r u hok hact v hv => ⟨trivial, ?_⟩⟩
    exact Device.wp_drift ((hp t ht).2 c r u hok hact) hv

end Through

/-! ## 2. Programs without a result

On every path such a program comes to an operation that has no answer. -/

/-- `p` has no result, whatever the answers.  A loop whose end condition is never met is not cut off
by a count of rounds here: it ends in an operation that has no answer. -/
def Diverges (p : Prog Op Ans α) : Prop :=
  p.Meets (fun _ => True) (fun _ _ => True) (fun _ => False)

theorem uses_true (p : Prog Op Ans α) : p.Uses (fun _ => True) := by
  induction p with
  | ret a => trivial
  | op o k ih => exact ⟨trivial, ih⟩

theorem Diverges.through {h : Handler Op Ans Op' Ans'} {p : Prog Op Ans α} (hp : p.Diverges) :
    (p.through h).Diverges := by
  refine Meets.through (fun o _ => ?_) hp
  exact (uses_true (h o)).meets (fun _ _ => trivial)

end Prog
