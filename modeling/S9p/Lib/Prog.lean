/-
# Programs that talk to a device, and what holds at every step of their runs

Driver code is a sequential program whose only contact with the world is a stream of
OPERATIONS (register reads and writes, polls, firmware calls), each of which the device
ANSWERS.  Between any two operations the rest of the world may move on its own.

* `Prog Op Ans α` is such a program: a finite tree of operations, branching on the answers.
* `Device` says how operations are answered and what may happen in between.  Both are
  functions of an explicit choice, so that a particular run can be executed.
* `System` adds the calls the outside may make, one at a time; `System.Reach` collects every
  configuration of every run, the ones in the middle of a call included.
* `Device.wp` is the weakest precondition that also asks for a property AT EVERY STEP, and
  `System.reach_inv` turns "each call, started in the invariant, keeps it" into a statement
  about all runs.

A run may be restricted to steps that pass a test `ok`.  A theorem about the runs "whose
steps all meet a condition" is a theorem about `Reach ok`; `Reach System.anyStep` is all runs.
-/
import Mathlib.Logic.Relation

/-- A program over the operations `Op`, each answered with an `Ans o`. -/
inductive Prog (Op : Type) (Ans : Op → Type) (α : Type) : Type where
  | ret (a : α)
  | op (o : Op) (k : Ans o → Prog Op Ans α)

namespace Prog

variable {Op : Type} {Ans : Op → Type} {α β γ : Type}

/-! ## 1. The monad

A program is a tree and not a list of operations, so that what it does next may depend on every
answer so far.  Sequencing grafts the second program onto the leaves of the first; the equations
below are all that later modules use of it. -/

def bind (p : Prog Op Ans α) (f : α → Prog Op Ans β) : Prog Op Ans β :=
  match p with
  | .ret a => f a
  | .op o k => .op o (fun r => (k r).bind f)

instance : Monad (Prog Op Ans) where
  pure := Prog.ret
  bind := Prog.bind

/-- The program that performs one operation and returns the answer. -/
def perform (o : Op) : Prog Op Ans (Ans o) := .op o .ret

@[simp] theorem ret_bind (a : α) (f : α → Prog Op Ans β) : (Prog.ret a >>= f) = f a := rfl

@[simp] theorem op_bind (o : Op) (k : Ans o → Prog Op Ans α) (f : α → Prog Op Ans β) :
    (Prog.op o k >>= f) = Prog.op o (fun r => k r >>= f) := rfl

@[simp] theorem perform_bind (o : Op) (f : Ans o → Prog Op Ans β) :
    (perform o >>= f) = Prog.op o f := rfl

@[simp] theorem pure_eq_ret (a : α) : (pure a : Prog Op Ans α) = .ret a := rfl

theorem bind_ret (p : Prog Op Ans α) : p.bind .ret = p := by
  induction p with
  | ret a => rfl
  | op o k ih => exact congrArg (Prog.op o) (funext ih)

theorem bind_assoc (p : Prog Op Ans α) (f : α → Prog Op Ans β) (g : β → Prog Op Ans γ) :
    (p.bind f).bind g = p.bind (fun a => (f a).bind g) := by
  induction p with
  | ret a => rfl
  | op o k ih => exact congrArg (Prog.op o) (funext ih)

instance : LawfulMonad (Prog Op Ans) :=
  LawfulMonad.mk' _ bind_ret (fun _ _ => rfl) bind_assoc

/-! ## 2. Which operations a program can perform

Most of what a driver function leaves alone can be read off the operations it contains, without
running it.  `Uses` is that reading, and the frame rule of section 6 turns it into a statement about
runs. -/

/-- Every operation of `p`, whatever the answers, satisfies `A`. -/
def Uses (A : Op → Prop) : Prog Op Ans α → Prop
  | .ret _ => True
  | .op o k => A o ∧ ∀ r, (k r).Uses A

@[simp] theorem uses_ret {A : Op → Prop} (a : α) :
    (Prog.ret a : Prog Op Ans α).Uses A := trivial

@[simp] theorem uses_op {A : Op → Prop} {o : Op} {k : Ans o → Prog Op Ans α} :
    (Prog.op o k).Uses A ↔ A o ∧ ∀ r, (k r).Uses A := Iff.rfl

theorem uses_bind {A : Op → Prop} {p : Prog Op Ans α} {f : α → Prog Op Ans β}
    (hp : p.Uses A) (hf : ∀ a, (f a).Uses A) : (p >>= f).Uses A := by
  induction p with
  | ret a => exact hf a
  | op o k ih => exact ⟨hp.1, fun r => ih r (hp.2 r)⟩

theorem Uses.mono {A B : Op → Prop} (h : ∀ o, A o → B o) {p : Prog Op Ans α}
    (hp : p.Uses A) : p.Uses B := by
  induction p with
  | ret a => trivial
  | op o k ih => exact ⟨h o hp.1, fun r => ih r (hp.2 r)⟩

/-! ## 3. Contracts on the answers

Often an operation is only good because of what an earlier one answered.  `p.Meets A R Q`
says that every operation of `p` satisfies `A` and every result `Q`, as long as each operation
`o` is answered with an `r` that satisfies `R o`. -/

section Meets

variable {A B : Op → Prop} {R : (o : Op) → Ans o → Prop}

/-- A program under an assumption: each operation it comes to is allowed, as long as the answers are
as `R` says, and so is its result. -/
def Meets (A : Op → Prop) (R : (o : Op) → Ans o → Prop) :
    Prog Op Ans α → (α → Prop) → Prop
  | .ret a, Q => Q a
  | .op o k, Q => A o ∧ ∀ r, R o r → (k r).Meets A R Q

@[simp] theorem meets_ret {Q : α → Prop} (a : α) :
    (Prog.ret a : Prog Op Ans α).Meets A R Q ↔ Q a := Iff.rfl

@[simp] theorem meets_op {Q : α → Prop} {o : Op} {k : Ans o → Prog Op Ans α} :
    (Prog.op o k).Meets A R Q ↔ A o ∧ ∀ r, R o r → (k r).Meets A R Q := Iff.rfl

theorem Meets.mono {p : Prog Op Ans α} {Q Q' : α → Prop} (h : p.Meets A R Q)
    (hQ : ∀ a, Q a → Q' a) : p.Meets A R Q' := by
  induction p with
  | ret a => exact hQ a h
  | op o k ih => exact ⟨h.1, fun r hr => ih r (h.2 r hr)⟩

theorem Meets.bind {p : Prog Op Ans α} {f : α → Prog Op Ans β} {Q : α → Prop} {Q' : β → Prop}
    (hp : p.Meets A R Q) (hf : ∀ a, Q a → (f a).Meets A R Q') : (p >>= f).Meets A R Q' := by
  induction p with
  | ret a => exact hf a hp
  | op o k ih => exact ⟨hp.1, fun r hr => ih r (hp.2 r hr)⟩

theorem Uses.meets {p : Prog Op Ans α} (h : p.Uses A) (hAB : ∀ o, A o → B o) :
    p.Meets B R (fun _ => True) := by
  induction p with
  | ret a => trivial
  | op o k ih => exact ⟨hAB o h.1, fun r _ => ih r (h.2 r)⟩

end Meets

/-! ## 4. Programs made of operations and calls

Several entry points end in the same long function.  `Made` says that a program consists of harmless
operations and of calls of that function, which is then proved about once. -/

/-- `p` is made of operations in `A` and calls of `p₀`. -/
inductive Made (A : Op → Prop) (p₀ : Prog Op Ans γ) : Prog Op Ans α → Prop
  | ret (a : α) : Made A p₀ (.ret a)
  | op {o : Op} {k : Ans o → Prog Op Ans α} : A o → (∀ r, Made A p₀ (k r)) → Made A p₀ (.op o k)
  | call {k : γ → Prog Op Ans α} : (∀ c, Made A p₀ (k c)) → Made A p₀ (p₀ >>= k)

section Made

variable {A B : Op → Prop} {p₀ : Prog Op Ans γ} {p : Prog Op Ans α}

theorem Made.mono (h : Made A p₀ p) (hAB : ∀ o, A o → B o) : Made B p₀ p := by
  induction h with
  | ret a => exact .ret a
  | op ho _ ih => exact .op (hAB _ ho) ih
  | call _ ih => exact .call ih

theorem Made.bind {f : α → Prog Op Ans β} (h : Made A p₀ p) (hf : ∀ a, Made A p₀ (f a)) :
    Made A p₀ (p >>= f) := by
  induction h with
  | ret a => exact hf a
  | op ho _ ih => exact .op ho ih
  | @call k _ ih =>
    rw [LawfulMonad.bind_assoc]
    exact .call ih

theorem Uses.made (h : p.Uses A) : Made A p₀ p := by
  induction p with
  | ret a => exact .ret a
  | op o k ih => exact .op h.1 (fun r => ih r (h.2 r))

/-- A call of `p₁` is a call of what `p₁` is made of. -/
theorem Made.trans {p₁ : Prog Op Ans β} (h : Made A p₁ p) (h₁ : Made A p₀ p₁) :
    Made A p₀ p := by
  induction h with
  | ret a => exact .ret a
  | op ho _ ih => exact .op ho ih
  | call _ ih => exact h₁.bind ih

/-- What the called program uses, the caller uses. -/
theorem Made.uses (h : Made A p₀ p) (h₀ : p₀.Uses A) : p.Uses A := by
  induction h with
  | ret a => trivial
  | op ho _ ih => exact ⟨ho, ih⟩
  | call _ ih => exact uses_bind h₀ ih

end Made

end Prog

/-! ## 5. Devices

The choice `Ch` of an operation and the event `Env` of the environment are inputs, so a device is
deterministic once they are given: what is left open in the source (the value a status register
shows, whether a transfer succeeds) is a choice, and what another party does is an event. -/

/-- A device with state `σ`: how an operation is answered, and what the environment may do on its
own.  `none` says that the step cannot happen in that state.  A read that blocks for ever, or a lock
that is held, is an operation that cannot happen. -/
structure Device (Op : Type) (Ans : Op → Type) (σ Env Ch : Type) where
  env : Env → σ → Option σ
  act : (o : Op) → Ch → σ → Option (Ans o × σ)

namespace Device

variable {Op : Type} {Ans : Op → Type} {σ Env Ch α β : Type}

/-- One step of the environment. -/
def EnvStep (D : Device Op Ans σ Env Ch) (s t : σ) : Prop := ∃ e, D.env e s = some t

/-- Any number of steps of the environment. -/
def Drift (D : Device Op Ans σ Env Ch) : σ → σ → Prop := Relation.ReflTransGen D.EnvStep

/-- The environment cannot falsify `P`.  Every assertion that is to survive between two operations
has to be stable, as the environment may step there. -/
def Stable (D : Device Op Ans σ Env Ch) (P : σ → Prop) : Prop :=
  ∀ e s t, D.env e s = some t → P s → P t

theorem Stable.drift {D : Device Op Ans σ Env Ch} {P : σ → Prop} (hP : D.Stable P) {s t : σ}
    (h : D.Drift s t) (hs : P s) : P t := by
  induction h with
  | refl => exact hs
  | tail _ hst ih =>
    obtain ⟨e, he⟩ := hst
    exact hP e _ _ he ih

theorem Stable.and {D : Device Op Ans σ Env Ch} {P Q : σ → Prop} (hP : D.Stable P)
    (hQ : D.Stable Q) : D.Stable (fun s => P s ∧ Q s) :=
  fun e s t h hs => ⟨hP e s t h hs.1, hQ e s t h hs.2⟩

theorem Stable.imp {D : Device Op Ans σ Env Ch} {P : σ → Prop} {p : Prop} (hP : D.Stable P) :
    D.Stable (fun s => p → P s) := fun e s t h hs hp => hP e s t h (hs hp)

/-! ## 6. The weakest precondition with a step property

`S t (some o)` is asked of every state `t` in which the operation `o` is about to be
performed, `S t none` of every state in which the program has returned. -/

section Wp

variable (D : Device Op Ans σ Env Ch) (ok : σ → (o : Op) → Ch → Bool)
  (S : σ → Option Op → Prop)

/-- Started in `s`, the program meets `S` at every step and ends in `Q`, whatever the environment
does and whatever the device answers in steps that pass `ok`.  The environment is quantified before
each operation and after the last one, so a postcondition holds also of all that happens before the
next call. -/
def wp : Prog Op Ans α → (α → σ → Prop) → σ → Prop
  | .ret a, Q, s => ∀ t, D.Drift s t → S t none ∧ Q a t
  | .op o k, Q, s => ∀ t, D.Drift s t → S t (some o) ∧
      ∀ c r u, ok t o c = true → D.act o c t = some (r, u) → wp (k r) Q u

variable {D ok S}

theorem wp_drift {p : Prog Op Ans α} {Q : α → σ → Prop} {s t : σ} (h : wp D ok S p Q s)
    (hst : D.Drift s t) : wp D ok S p Q t := by
  cases p with
  | ret a => exact fun u hu => h u (hst.trans hu)
  | op o k => exact fun u hu => h u (hst.trans hu)

theorem wp_mono {p : Prog Op Ans α} {Q Q' : α → σ → Prop} (hQ : ∀ a t, Q a t → Q' a t) {s : σ}
    (h : wp D ok S p Q s) : wp D ok S p Q' s := by
  induction p generalizing s with
  | ret a => exact fun t ht => ⟨(h t ht).1, hQ a t (h t ht).2⟩
  | op o k ih =>
    exact fun t ht => ⟨(h t ht).1, fun c r u hok hact => ih r ((h t ht).2 c r u hok hact)⟩

/-- A weaker step property. -/
theorem wp_step_mono {S' : σ → Option Op → Prop} (hS : ∀ t o, S t o → S' t o) {p : Prog Op Ans α}
    {Q : α → σ → Prop} {s : σ} (h : wp D ok S p Q s) : wp D ok S' p Q s := by
  induction p generalizing s with
  | ret a => exact fun t ht => ⟨hS _ _ (h t ht).1, (h t ht).2⟩
  | op o k ih =>
    exact fun t ht => ⟨hS _ _ (h t ht).1,
      fun c r u hok hact => ih r ((h t ht).2 c r u hok hact)⟩

/-- What is shown in two parts. -/
theorem wp_and {S' : σ → Option Op → Prop} {p : Prog Op Ans α} {Q Q' : α → σ → Prop} {s : σ}
    (h : wp D ok S p Q s) (h' : wp D ok S' p Q' s) :
    wp D ok (fun t o => S t o ∧ S' t o) p (fun a t => Q a t ∧ Q' a t) s := by
  induction p generalizing s with
  | ret a => exact fun t ht => ⟨⟨(h t ht).1, (h' t ht).1⟩, (h t ht).2, (h' t ht).2⟩
  | op o k ih =>
    exact fun t ht => ⟨⟨(h t ht).1, (h' t ht).1⟩,
      fun c r u hok hact => ih r ((h t ht).2 c r u hok hact) ((h' t ht).2 c r u hok hact)⟩

/-- What is shown for each index. -/
theorem wp_all {ι : Type} {S : ι → σ → Option Op → Prop} {p : Prog Op Ans α}
    {Q : ι → α → σ → Prop} {s : σ} (h : ∀ i, wp D ok (S i) p (Q i) s) :
    wp D ok (fun t o => ∀ i, S i t o) p (fun a t => ∀ i, Q i a t) s := by
  induction p generalizing s with
  | ret a => exact fun t ht => ⟨fun i => (h i t ht).1, fun i => (h i t ht).2⟩
  | op o k ih =>
    exact fun t ht => ⟨fun i => (h i t ht).1,
      fun c r u hok hact => ih r (fun i => (h i t ht).2 c r u hok hact)⟩

/-- Sequencing. -/
theorem wp_bind {p : Prog Op Ans α} {f : α → Prog Op Ans β} {Q : β → σ → Prop} {s : σ}
    (h : wp D ok S p (fun a t => wp D ok S (f a) Q t) s) : wp D ok S (p >>= f) Q s := by
  induction p generalizing s with
  | ret a => exact (h s Relation.ReflTransGen.refl).2
  | op o k ih =>
    exact fun t ht => ⟨(h t ht).1, fun c r u hok hact => ih r ((h t ht).2 c r u hok hact)⟩

/-- The rule for an operation: an assertion `P` the environment cannot falsify carries the
state up to the operation, and the device's answer is met by the rest of the program. -/
theorem wp_op {P : σ → Prop} (hP : D.Stable P) {o : Op} {k : Ans o → Prog Op Ans α}
    {Q : α → σ → Prop} {s : σ} (hs : P s) (hS : ∀ t, P t → S t (some o))
    (hk : ∀ t c r u, P t → ok t o c = true → D.act o c t = some (r, u) →
      wp D ok S (k r) Q u) :
    wp D ok S (.op o k) Q s := fun t ht =>
  have hPt : P t := hP.drift ht hs
  ⟨hS t hPt, fun c r u hok hact => hk t c r u hPt hok hact⟩

/-- The rule for an operation with one answer to each choice. -/
theorem wp_op_eq {P : σ → Prop} {o : Op} {k : Ans o → Prog Op Ans α} {Q : α → σ → Prop} {s : σ}
    {f : Ch → σ → Ans o} {g : Ch → σ → σ} (hact : ∀ c t, D.act o c t = some (f c t, g c t))
    (hP : D.Stable P) (hs : P s) (hS : ∀ t, P t → S t (some o))
    (hk : ∀ t c, P t → ok t o c = true → wp D ok S (k (f c t)) Q (g c t)) :
    wp D ok S (.op o k) Q s := by
  refine wp_op hP hs hS (fun t c r u ht hok h => ?_)
  rw [hact, Option.some.injEq, Prod.mk.injEq] at h
  obtain ⟨rfl, rfl⟩ := h
  exact hk t c ht hok

/-- The rule for the end of a program. -/
theorem wp_ret {P : σ → Prop} (hP : D.Stable P) {a : α} {Q : α → σ → Prop} {s : σ} (hs : P s)
    (hS : ∀ t, P t → S t none) (hQ : ∀ t, P t → Q a t) :
    wp D ok S (.ret a) Q s := fun t ht =>
  ⟨hS t (hP.drift ht hs), hQ t (hP.drift ht hs)⟩

/-- **The contract rule.**  When the device answers as the contract says as long as `P`
holds, and every operation the contract allows keeps `P`, a program that meets the contract
keeps `P`. -/
theorem wp_of_meets {P : σ → Prop} (hP : D.Stable P) {A : Op → Prop}
    {R : (o : Op) → Ans o → Prop}
    (hA : ∀ o, A o → ∀ c s r t, P s → ok s o c = true → D.act o c s = some (r, t) → R o r ∧ P t)
    (hS : ∀ o s, A o → P s → S s (some o)) (hS' : ∀ s, P s → S s none)
    {p : Prog Op Ans α} {Q : α → Prop} (hp : p.Meets A R Q) {s : σ} (hs : P s) :
    wp D ok S p (fun a t => Q a ∧ P t) s := by
  induction p generalizing s with
  | ret a => exact wp_ret hP hs hS' (fun _ h => ⟨hp, h⟩)
  | op o k ih =>
    refine wp_op hP hs (fun t ht => hS o t hp.1 ht) (fun t c r u ht hok hact => ?_)
    obtain ⟨hr, hu⟩ := hA o hp.1 c t r u ht hok hact
    exact ih r (hp.2 r hr) hu

/-- **The frame rule.**  What every operation of a program keeps, the program keeps. -/
theorem wp_of_uses {P : σ → Prop} (hP : D.Stable P) {A : Op → Prop}
    (hA : ∀ o, A o → ∀ c s r t, P s → ok s o c = true → D.act o c s = some (r, t) → P t)
    (hS : ∀ o s, A o → P s → S s (some o)) (hS' : ∀ s, P s → S s none)
    {p : Prog Op Ans α} (hp : p.Uses A) {s : σ} (hs : P s) :
    wp D ok S p (fun _ => P) s :=
  wp_mono (fun _ _ h => h.2) (wp_of_meets (R := fun _ _ => True) hP
    (fun o ho c s r t h hok hact => ⟨trivial, hA o ho c s r t h hok hact⟩) hS hS'
    (hp.meets (fun _ h => h)) hs)

/-- The same for a program that also calls `p₀`, which keeps `P` by itself. -/
theorem wp_of_made {P : σ → Prop} (hP : D.Stable P) {A : Op → Prop}
    (hA : ∀ o, A o → ∀ c s r t, P s → ok s o c = true → D.act o c s = some (r, t) → P t)
    (hS : ∀ o s, A o → P s → S s (some o)) (hS' : ∀ s, P s → S s none)
    {p₀ : Prog Op Ans β} (h₀ : ∀ s, P s → wp D ok S p₀ (fun _ => P) s)
    {p : Prog Op Ans α} (hp : Prog.Made A p₀ p) {s : σ} (hs : P s) :
    wp D ok S p (fun _ => P) s := by
  induction hp generalizing s with
  | ret a => exact wp_ret hP hs hS' (fun _ h => h)
  | op ho _ ih =>
    exact wp_op hP hs (fun t ht => hS _ t ho ht)
      (fun t c r u ht hok hact => ih r (hA _ ho c t r u ht hok hact))
  | call _ ih => exact wp_bind (wp_mono (fun c t ht => ih c ht) (h₀ s hs))

end Wp

/-! ## 7. Programs run in one go

`run` is for examples and for computing what a call does in the absence of interference.  Statements
about runs use `wp` or `Reach`. -/

section Run

variable (D : Device Op Ans σ Env Ch) (ch : Ch)

/-- The program run while the environment stands still, the device making the same choice
every time. -/
def run : Prog Op Ans α → σ → Option (α × σ)
  | .ret a, s => some (a, s)
  | .op o k, s => (D.act o ch s).bind (fun rt => run (k rt.1) rt.2)

variable {D ch}

@[simp] theorem run_ret {a : α} {s : σ} : D.run ch (.ret a) s = some (a, s) := rfl

theorem run_op {o : Op} {k : Ans o → Prog Op Ans α} {s t : σ} {r : Ans o}
    (h : D.act o ch s = some (r, t)) : D.run ch (.op o k) s = D.run ch (k r) t := by
  simp [run, h]

theorem run_bind {p : Prog Op Ans α} {f : α → Prog Op Ans β} {s t : σ} {a : α}
    (h : D.run ch p s = some (a, t)) : D.run ch (p >>= f) s = D.run ch (f a) t := by
  induction p generalizing s with
  | ret b =>
    simp only [run_ret, Option.some.injEq, Prod.mk.injEq] at h
    obtain ⟨rfl, rfl⟩ := h
    rfl
  | op o k ih =>
    obtain ⟨⟨r, u⟩, hact, hrest⟩ := Option.bind_eq_some_iff.mp h
    rw [Prog.op_bind, run_op hact]
    exact ih r hrest

end Run

end Device

/-! ## 8. Systems: calls made one at a time

Calls are made one at a time, which is what a lock around them enforces in the source.  A
configuration is a state and, in the middle of a call, what is left of it. -/

/-- A device together with the calls that may be made, the states in which each may start
and the states the system may be found in at the beginning. -/
structure System (Op : Type) (Ans : Op → Type) (σ Env Ch Call α : Type) extends
    Device Op Ans σ Env Ch where
  init : σ → Prop
  enabled : Call → σ → Bool
  call : Call → Prog Op Ans α

/-- A call in progress: which call, the state it was entered in, and what is left of it.  The state
of entry is history: it lets a property compare the middle of a call with its beginning. -/
structure Thread (Op : Type) (Ans : Op → Type) (σ Call α : Type) where
  call : Call
  entry : σ
  rest : Prog Op Ans α

namespace System

variable {Op : Type} {Ans : Op → Type} {σ Env Ch Call α : Type}

/-- The test every step passes. -/
def anyStep : Call → σ → (o : Op) → Ch → Bool := fun _ _ _ _ => true

/-- `Reach ok s p`: some run all of whose operations pass `ok` comes through the state `s`,
with no call in progress (`p = none`) or in the middle of one. -/
inductive Reach (Y : System Op Ans σ Env Ch Call α) (ok : Call → σ → (o : Op) → Ch → Bool) :
    σ → Option (Thread Op Ans σ Call α) → Prop
  | boot {s : σ} : Y.init s → Y.Reach ok s none
  | env {s t : σ} {p : Option (Thread Op Ans σ Call α)} {e : Env} :
      Y.Reach ok s p → Y.env e s = some t → Y.Reach ok t p
  | start {s : σ} (c : Call) :
      Y.Reach ok s none → Y.enabled c s = true → Y.Reach ok s (some ⟨c, s, Y.call c⟩)
  | op {s t s₀ : σ} {c : Call} {o : Op} {k : Ans o → Prog Op Ans α} {r : Ans o} (ch : Ch) :
      Y.Reach ok s (some ⟨c, s₀, .op o k⟩) → ok c s o ch = true →
      Y.act o ch s = some (r, t) → Y.Reach ok t (some ⟨c, s₀, k r⟩)
  | done {s s₀ : σ} {c : Call} {a : α} :
      Y.Reach ok s (some ⟨c, s₀, .ret a⟩) → Y.Reach ok s none

/-- The system in which the environment takes only steps that pass the test `f`. -/
def onlyEnv (Y : System Op Ans σ Env Ch Call α) (f : Env → σ → Bool) :
    System Op Ans σ Env Ch Call α :=
  { Y with env := fun e s => if f e s then Y.env e s else none }

theorem env_of_onlyEnv {Y : System Op Ans σ Env Ch Call α} {f : Env → σ → Bool} {e : Env}
    {s t : σ} (h : (Y.onlyEnv f).env e s = some t) : f e s = true ∧ Y.env e s = some t := by
  simp only [onlyEnv] at h
  split at h
  · exact ⟨‹_›, h⟩
  · exact absurd h (by simp)

/-- The system in which only calls that pass the test `f` are made. -/
def onlyCalls (Y : System Op Ans σ Env Ch Call α) (f : Call → Bool) :
    System Op Ans σ Env Ch Call α :=
  { Y with enabled := fun c s => f c && Y.enabled c s }

/-- What a configuration satisfies when every call keeps the invariant `Inv`, meets `S` on
the way and ends in `Post`. -/
def Holds (Y : System Op Ans σ Env Ch Call α) (ok : Call → σ → (o : Op) → Ch → Bool)
    (Inv : σ → Prop) (S : Call → σ → σ → Option Op → Prop) (Post : Call → σ → α → σ → Prop)
    (s : σ) : Option (Thread Op Ans σ Call α) → Prop
  | none => Inv s
  | some t => Device.wp Y.toDevice (ok t.call) (S t.call t.entry) t.rest (Post t.call t.entry) s

/-- **The run lemma.**  If the invariant holds at the start, the environment keeps it, and
every call entered in it meets its step property and its postcondition and re-establishes
it, then every configuration of every run satisfies what it should. -/
theorem reach_holds {Y : System Op Ans σ Env Ch Call α}
    {ok : Call → σ → (o : Op) → Ch → Bool} {Inv : σ → Prop}
    {S : Call → σ → σ → Option Op → Prop} {Post : Call → σ → α → σ → Prop}
    (hinit : ∀ s, Y.init s → Inv s) (hstable : Y.toDevice.Stable Inv)
    (hcall : ∀ c s, Inv s → Y.enabled c s = true →
      Device.wp Y.toDevice (ok c) (S c s) (Y.call c) (Post c s) s)
    (hpost : ∀ c s a t, Post c s a t → Inv t)
    {s : σ} {p : Option (Thread Op Ans σ Call α)} (hr : Y.Reach ok s p) :
    Y.Holds ok Inv S Post s p := by
  induction hr with
  | boot hi => exact hinit _ hi
  | @env s t p e _ he ih =>
    cases p with
    | none => exact hstable e s t he ih
    | some th => exact Device.wp_drift ih (Relation.ReflTransGen.single ⟨e, he⟩)
  | start c _ hc ih => exact hcall c _ ih hc
  | op ch _ hok hact ih =>
    exact (ih _ Relation.ReflTransGen.refl).2 ch _ _ hok hact
  | done _ ih => exact hpost _ _ _ _ (ih _ Relation.ReflTransGen.refl).2

section Consequences

variable {Y : System Op Ans σ Env Ch Call α} {ok : Call → σ → (o : Op) → Ch → Bool}
  {Inv : σ → Prop} {S : Call → σ → σ → Option Op → Prop} {Post : Call → σ → α → σ → Prop}
  {s s₀ : σ} {c : Call}

theorem Holds.at_op {o : Op} {k : Ans o → Prog Op Ans α}
    (h : Y.Holds ok Inv S Post s (some ⟨c, s₀, .op o k⟩)) : S c s₀ s (some o) :=
  (h s Relation.ReflTransGen.refl).1

theorem Holds.at_ret {a : α} (h : Y.Holds ok Inv S Post s (some ⟨c, s₀, .ret a⟩)) :
    S c s₀ s none ∧ Post c s₀ a s := h s Relation.ReflTransGen.refl

/-- A step property that is a property of the state alone holds in the middle of a call. -/
theorem Holds.mid {J : σ → Prop} {q : Prog Op Ans α}
    (h : Y.Holds ok Inv (fun _ _ t _ => J t) Post s (some ⟨c, s₀, q⟩)) : J s := by
  cases q with
  | ret a => exact h.at_ret.1
  | op o k => exact h.at_op

end Consequences

/-! ## 9. Executing a run

A witness is a list of choices that is executed by `decide`; `exec_reach` says that the
configuration it ends in is one of a run. -/

/-- One step of a run, with the choices it makes. -/
inductive Ev (Env Ch Call : Type) where
  | env (e : Env)
  | start (c : Call)
  | op (ch : Ch)
  | done

/-- Perform one step of a run. -/
def next (Y : System Op Ans σ Env Ch Call α) (ok : Call → σ → (o : Op) → Ch → Bool) :
    Ev Env Ch Call → σ × Option (Thread Op Ans σ Call α) →
      Option (σ × Option (Thread Op Ans σ Call α))
  | .env e, (s, p) => (Y.env e s).map (fun t => (t, p))
  | .start c, (s, none) => if Y.enabled c s then some (s, some ⟨c, s, Y.call c⟩) else none
  | .op ch, (s, some ⟨c, s₀, .op o k⟩) =>
      if ok c s o ch then (Y.act o ch s).map (fun rt => (rt.2, some ⟨c, s₀, k rt.1⟩)) else none
  | .done, (s, some ⟨_, _, .ret _⟩) => some (s, none)
  | _, _ => none

/-- Perform a list of steps. -/
def exec (Y : System Op Ans σ Env Ch Call α) (ok : Call → σ → (o : Op) → Ch → Bool) :
    List (Ev Env Ch Call) → σ × Option (Thread Op Ans σ Call α) →
      Option (σ × Option (Thread Op Ans σ Call α))
  | [], x => some x
  | e :: es, x => (Y.next ok e x).bind (Y.exec ok es)

theorem next_reach {Y : System Op Ans σ Env Ch Call α}
    {ok : Call → σ → (o : Op) → Ch → Bool} {e : Ev Env Ch Call}
    {x y : σ × Option (Thread Op Ans σ Call α)} (h : Y.next ok e x = some y)
    (hr : Y.Reach ok x.1 x.2) : Y.Reach ok y.1 y.2 := by
  obtain ⟨s, p⟩ := x
  cases e with
  | env e =>
    obtain ⟨t, ht, rfl⟩ := Option.map_eq_some_iff.mp h
    exact .env hr ht
  | start c =>
    match p, hr, h with
    | none, hr, h =>
      simp only [next] at h
      split at h
      · rename_i hc
        simp only [Option.some.injEq] at h
        subst h
        exact .start c hr hc
      · exact absurd h (by simp)
  | op ch =>
    match p, hr, h with
    | some ⟨c, s₀, .op o k⟩, hr, h =>
      simp only [next] at h
      split at h
      · rename_i hok
        obtain ⟨⟨r, t⟩, ht, rfl⟩ := Option.map_eq_some_iff.mp h
        exact .op ch hr hok ht
      · exact absurd h (by simp)
  | done =>
    match p, hr, h with
    | some ⟨c, s₀, .ret a⟩, hr, h =>
      simp only [next, Option.some.injEq] at h
      subst h
      exact .done hr

/-- **Execution is sound**: what a list of steps leads to is reachable. -/
theorem exec_reach {Y : System Op Ans σ Env Ch Call α}
    {ok : Call → σ → (o : Op) → Ch → Bool} :
    ∀ (es : List (Ev Env Ch Call)) {x y : σ × Option (Thread Op Ans σ Call α)},
      Y.exec ok es x = some y → Y.Reach ok x.1 x.2 → Y.Reach ok y.1 y.2
  | [], x, y, h, hr => by
    simp only [exec, Option.some.injEq] at h
    exact h ▸ hr
  | e :: es, x, y, h, hr => by
    obtain ⟨z, hz, hy⟩ := Option.bind_eq_some_iff.mp h
    exact exec_reach es hy (next_reach hz hr)

/-- A list of steps from an initial state that ends in a configuration passing the test `P`
shows that such a configuration is reachable. -/
theorem reach_of_exec {Y : System Op Ans σ Env Ch Call α}
    {ok : Call → σ → (o : Op) → Ch → Bool} {s : σ} (hs : Y.init s)
    (es : List (Ev Env Ch Call)) (P : σ × Option (Thread Op Ans σ Call α) → Bool)
    (h : (Y.exec ok es (s, none)).any P = true) :
    ∃ t p, Y.Reach ok t p ∧ P (t, p) = true := by
  cases hx : Y.exec ok es (s, none) with
  | none => rw [hx] at h; exact absurd h (by simp)
  | some y =>
    rw [hx] at h
    exact ⟨y.1, y.2, exec_reach es hx (.boot hs), h⟩

end System
