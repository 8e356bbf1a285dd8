/-
# Programs that may stop with an error

A script that exits, or raises, in the middle is a program over `ExceptT`: what follows an error
is not carried out.  `Device.fwp` is the weakest precondition of such a program, with one
postcondition for its result and one for its error; the error's is asked for nothing but what
holds where the program stops.

The rules follow the ones of `Device.wp`: sequencing, lifting, and a loop over a list with an
invariant.

A program of this kind is run as a plain program that returns an `Except`, so everything said of
`Prog` applies to it: an error is a result, and not a step that cannot happen.
-/
import Mathlib.Data.List.Forall2
import S9p.Lib.Path

namespace Device

variable {Op : Type} {Ans : Op → Type} {σ Env Ch ε α β γ : Type}

/-- The two postconditions as one. -/
def Ends (Q : α → σ → Prop) (E : ε → σ → Prop) : Except ε α → σ → Prop
  | .ok a => Q a
  | .error e => E e

@[simp] theorem ends_ok {Q : α → σ → Prop} {E : ε → σ → Prop} {a : α} {s : σ} :
    Ends Q E (.ok a) s ↔ Q a s := Iff.rfl

@[simp] theorem ends_error {Q : α → σ → Prop} {E : ε → σ → Prop} {e : ε} {s : σ} :
    Ends Q E (.error e : Except ε α) s ↔ E e s := Iff.rfl

section Fwp

variable (D : Device Op Ans σ Env Ch) (ok : σ → (o : Op) → Ch → Bool)
  (S : σ → Option Op → Prop)

/-- Started in `s`, the program meets `S` at every step and ends with a result in `Q` or with
an error in `E`. -/
def fwp (p : ExceptT ε (Prog Op Ans) α) (Q : α → σ → Prop) (E : ε → σ → Prop) (s : σ) : Prop :=
  wp D ok S p.run (Ends Q E) s

variable {D ok S} {p : ExceptT ε (Prog Op Ans) α} {Q Q' : α → σ → Prop} {E E' : ε → σ → Prop}
  {s : σ}

theorem fwp_mono (hQ : ∀ a t, Q a t → Q' a t) (hE : ∀ e t, E e t → E' e t)
    (h : fwp D ok S p Q E s) : fwp D ok S p Q' E' s := by
  refine wp_mono ?_ h
  rintro (e | a) t ht
  · exact hE e t ht
  · exact hQ a t ht

theorem fwp_pure {P : σ → Prop} (hP : D.Stable P) {a : α} (hs : P s) (hS : ∀ t, P t → S t none)
    (hQ : ∀ t, P t → Q a t) : fwp D ok S (pure a) Q E s := wp_ret hP hs hS hQ

theorem fwp_throw {P : σ → Prop} (hP : D.Stable P) {e : ε} (hs : P s)
    (hS : ∀ t, P t → S t none) (hE : ∀ t, P t → E e t) :
    fwp D ok S (throw e : ExceptT ε (Prog Op Ans) α) Q E s := wp_ret hP hs hS hE

/-- Sequencing: the error of the first part is the error of the whole. -/
theorem fwp_bind {f : α → ExceptT ε (Prog Op Ans) β} {R : β → σ → Prop}
    (h : fwp D ok S p (fun a t => fwp D ok S (f a) R E t) E s) :
    fwp D ok S (p >>= f) R E s := by
  unfold fwp at h ⊢
  rw [ExceptT.run_bind]
  generalize p.run = q at h
  induction q generalizing s with
  | ret r =>
    cases r with
    | ok a => exact (h s .refl).2
    | error e => exact fun t ht => h t ht
  | op o k ih => exact fun t ht => ⟨(h t ht).1, fun c r u hok hact =>
    ih r ((h t ht).2 c r u hok hact)⟩

/-- A program that cannot fail. -/
theorem fwp_lift {q : Prog Op Ans α} (h : wp D ok S q Q s) :
    fwp D ok S (liftM q : ExceptT ε (Prog Op Ans) α) Q E s := by
  have hrun : (liftM q : ExceptT ε (Prog Op Ans) α).run = (q >>= fun a => .ret (.ok a)) := rfl
  unfold fwp
  rw [hrun]
  induction q generalizing s with
  | ret a => exact fun t ht => h t ht
  | op o k ih => exact fun t ht => ⟨(h t ht).1, fun c r u hok hact =>
    ih r ((h t ht).2 c r u hok hact) rfl⟩

/-! ## Devices that do nothing on their own

Scripts that talk to files and to other programs are alone with them as long as they run.  For such
a device there is nothing to be stable against, and the rules lose their side conditions. -/

/-- Nothing the device does on its own is seen. -/
def Still (D : Device Op Ans σ Env Ch) : Prop := ∀ P : σ → Prop, D.Stable P

section Still

variable {D : Device Op Ans σ Env Ch} {ok : σ → (o : Op) → Ch → Bool} {S : σ → Option Op → Prop}
  {E : ε → σ → Prop} {s : σ}

theorem fwp_act (hD : D.Still) {o : Op} {Q : Ans o → σ → Prop} (hS : S s (some o))
    (hQ : ∀ ch r u, ok s o ch = true → D.act o ch s = some (r, u) → S u none ∧ Q r u) :
    fwp D ok S (liftM (Prog.perform o : Prog Op Ans (Ans o)) : ExceptT ε (Prog Op Ans) (Ans o))
      Q E s := by
  refine fwp_lift (wp_op (hD (· = s)) rfl (fun t ht => ht ▸ hS) ?_)
  rintro _ ch r u rfl hok hact
  obtain ⟨hu, hr⟩ := hQ ch r u hok hact
  exact wp_ret (hD (· = u)) rfl (fun t ht => ht ▸ hu) (fun t ht => ht ▸ hr)

theorem fwp_done (hD : D.Still) {a : α} {Q : α → σ → Prop} (hS : S s none) (hQ : Q a s) :
    fwp D ok S (pure a : ExceptT ε (Prog Op Ans) α) Q E s :=
  fwp_pure (hD (· = s)) rfl (fun _ ht => ht ▸ hS) (fun _ ht => ht ▸ hQ)

theorem fwp_stop (hD : D.Still) {e : ε} {Q : α → σ → Prop} (hS : S s none) (hE : E e s) :
    fwp D ok S (throw e : ExceptT ε (Prog Op Ans) α) Q E s :=
  fwp_throw (hD (· = s)) rfl (fun _ ht => ht ▸ hS) (fun _ ht => ht ▸ hE)

end Still

/-! ## What such a program can perform

Loops over a list are folds in the monad, and an error in one round ends the loop.  The invariant is
indexed by the part of the list that has been gone through. -/

theorem uses_run_bind {A : Op → Prop} {f : α → ExceptT ε (Prog Op Ans) β}
    (hp : p.run.Uses A) (hf : ∀ a, (f a).run.Uses A) : (p >>= f).run.Uses A := by
  rw [ExceptT.run_bind]
  refine Prog.uses_bind hp (fun r => ?_)
  cases r with
  | ok a => exact hf a
  | error e => trivial

theorem uses_run_lift {A : Op → Prop} {q : Prog Op Ans α} (h : q.Uses A) :
    (liftM q : ExceptT ε (Prog Op Ans) α).run.Uses A := Prog.uses_bind h (fun _ => trivial)

/-- Where a loop over `range n` is. -/
theorem range_split {n x : Nat} {before rest : List Nat} (h : List.range n = before ++ x :: rest) :
    x = before.length ∧ x < n := by
  have hget : (List.range n)[before.length]? = some x := by
    rw [h]
    simp
  obtain ⟨hlt, heq⟩ := List.getElem?_eq_some_iff.mp hget
  rw [List.getElem_range] at heq
  rw [List.length_range] at hlt
  exact ⟨heq.symm, heq ▸ hlt⟩

/-- A loop over a list: `I done a` is what holds of the accumulator `a` once the elements in
`done` have been gone through. -/
theorem fwp_foldlM {f : α → γ → ExceptT ε (Prog Op Ans) α} {I : List γ → α → σ → Prop}
    (hI : ∀ l a, D.Stable (I l a)) (hS : ∀ l a t, I l a t → S t none) {l : List γ}
    (hf : ∀ done x rest, l = done ++ x :: rest → ∀ a t, I done a t →
      fwp D ok S (f a x) (I (done ++ [x])) E t) {a : α} (hs : I [] a s) :
    fwp D ok S (l.foldlM f a) (I l) E s := by
  -- the elements gone through, and those still to come
  have main : ∀ (rest done : List γ), l = done ++ rest → ∀ a t, I done a t →
      fwp D ok S (rest.foldlM f a) (I l) E t := by
    intro rest
    induction rest with
    | nil =>
      intro done hl a t ht
      rw [List.append_nil] at hl
      subst hl
      exact fwp_pure (hI _ a) ht (hS _ a) (fun _ h => h)
    | cons x rest ih =>
      intro done hl a t ht
      rw [List.foldlM_cons]
      refine fwp_bind (fwp_mono ?_ (fun _ _ h => h) (hf done x rest hl a t ht))
      exact fun b u hu => ih (done ++ [x]) (by simpa using hl) b u hu
  exact main l [] rfl a s hs

end Fwp

/-! ## A list gone through by a function that may fail

It succeeds where the function does on every element, and fails with the first error. -/

section MapM

variable {f : α → Except ε β} {l : List α} {ys : List β}

theorem mapM_eq_ok : l.mapM f = .ok ys ↔ List.Forall₂ (fun x y => f x = .ok y) l ys := by
  induction l generalizing ys with
  | nil => cases ys <;> simp [pure, Except.pure]
  | cons x l ih =>
    rw [List.mapM_cons]
    cases hx : f x with
    | error e => cases ys <;> simp [bind, Except.bind, hx]
    | ok y =>
      cases hl : l.mapM f with
      | error e =>
        have hnone : ∀ zs, ¬ List.Forall₂ (fun x y => f x = .ok y) l zs :=
          fun zs hzs => by simp [hl] at ih; exact ih hzs
        cases ys <;> simp [bind, Except.bind, hx, hnone]
      | ok zs =>
        cases ys <;> simp [bind, Except.bind, pure, Except.pure, hx, ← ih, hl]

/-- Its error is one of an element's. -/
theorem mapM_eq_error {e : ε} (h : l.mapM f = .error e) : ∃ x ∈ l, f x = .error e := by
  induction l with
  | nil => simp [pure, Except.pure] at h
  | cons x l ih =>
    rw [List.mapM_cons] at h
    cases hx : f x with
    | error e' =>
      rw [hx] at h
      cases h
      exact ⟨x, List.mem_cons_self, hx⟩
    | ok y =>
      cases hl : l.mapM f with
      | error e' =>
        rw [hx, hl] at h
        cases h
        obtain ⟨z, hz, hfz⟩ := ih hl
        exact ⟨z, List.mem_cons_of_mem _ hz, hfz⟩
      | ok ys =>
        rw [hx, hl] at h
        cases h

/-- It gets through exactly if it does at each element. -/
theorem exists_mapM_eq_ok : (∃ ys, l.mapM f = .ok ys) ↔ ∀ x ∈ l, ∃ y, f x = .ok y := by
  simp only [mapM_eq_ok]
  induction l with
  | nil => simp
  | cons x l ih =>
    rw [List.forall_mem_cons, ← ih]
    constructor
    · rintro ⟨_ | ⟨y, ys⟩, h⟩
      · cases h
      · cases h with
        | cons hx hl => exact ⟨⟨y, hx⟩, ys, hl⟩
    · rintro ⟨⟨y, hx⟩, ys, hl⟩
      exact ⟨y :: ys, .cons hx hl⟩

end MapM

/-! ## Runs that get there

A weakest precondition says what holds if a run gets to its end.  That there is such a run is
another matter, and is shown by building one piece by piece. -/

section Can

variable {D : Device Op Ans σ Env Ch} {ok : σ → (o : Op) → Ch → Bool}
  {p : ExceptT ε (Prog Op Ans) α} {f : α → ExceptT ε (Prog Op Ans) β} {s t u : σ} {a : α} {b : β}

/-- Started in `s`, the program can return `a` and leave `t`.  This is the form in which a
success is stated: some choices of the device lead to the result. -/
def Can (D : Device Op Ans σ Env Ch) (ok : σ → (o : Op) → Ch → Bool)
    (p : ExceptT ε (Prog Op Ans) α) (s : σ) (a : α) (t : σ) : Prop :=
  ∃ tr, D.Runs ok p.run s tr (.ok a) t

theorem can_pure : Can D ok (pure a : ExceptT ε (Prog Op Ans) α) s a s := ⟨[], .ret .refl⟩

theorem can_perform {o : Op} {r : Ans o} (ch : Ch) (hok : ok s o ch = true)
    (hact : D.act o ch s = some (r, t)) :
    Can D ok (liftM (Prog.perform o : Prog Op Ans (Ans o)) : ExceptT ε (Prog Op Ans) (Ans o))
      s r t := ⟨[⟨o, r⟩], .op ch .refl hok hact (.ret .refl)⟩

/-- A program that gets there, and a part of what follows. -/
theorem Can.within {q : Prog Op Ans (Except ε β)} (h : Can D ok p s a u)
    (hf : ∃ tr, D.Within ok (f a).run u tr q t) : ∃ tr, D.Within ok (p >>= f).run s tr q t := by
  obtain ⟨tr, h⟩ := h
  obtain ⟨tr', hf⟩ := hf
  refine ⟨tr ++ tr', ?_⟩
  rw [ExceptT.run_bind]
  exact h.within_bind hf

/-- Where the first part can be, the whole can be. -/
theorem within_bind_left (f : α → ExceptT ε (Prog Op Ans) β) {q : Prog Op Ans (Except ε α)}
    {tr : List (Sigma Ans)} (h : D.Within ok p.run s tr q t) :
    ∃ q' : Prog Op Ans (Except ε β), D.Within ok (p >>= f).run s tr q' t := by
  rw [ExceptT.run_bind]
  exact ⟨_, h.bind _⟩

/-- Where the whole can be: in the first part, about to do the same, or past it. -/
theorem of_within_bind {f : α → ExceptT ε (Prog Op Ans) β} {q : Prog Op Ans (Except ε β)}
    {tr : List (Sigma Ans)} (h : D.Within ok (p >>= f).run s tr q t) :
    (∃ q', D.Within ok p.run s tr q' t ∧ ∀ o k, q = .op o k → ∃ k', q' = .op o k') ∨
    ∃ tr₁ tr₂ a u, tr = tr₁ ++ tr₂ ∧ D.Runs ok p.run s tr₁ (.ok a) u ∧
      D.Within ok (f a).run u tr₂ q t := by
  rw [ExceptT.run_bind] at h
  rcases h.of_bind with ⟨q', hq', rfl⟩ | ⟨tr₁, tr₂, r, u, rfl, hruns, hf⟩
  · cases q' with
    | op o k =>
      refine .inl ⟨.op o k, hq', fun o' k' heq => ?_⟩
      cases heq
      exact ⟨k, rfl⟩
    | ret r =>
      cases r with
      | ok a => exact .inr ⟨tr, [], a, t, (List.append_nil tr).symm, hq'.runs, .here .refl⟩
      | error e => exact .inl ⟨_, hq', fun o k heq => nomatch heq⟩
  · cases r with
    | ok a => exact .inr ⟨tr₁, tr₂, a, u, rfl, hruns, hf⟩
    | error e =>
      -- an error is where it was thrown
      cases hf with
      | here hst =>
        have hend := hruns.within_bind (f := .ret) (.here hst)
        rw [show (p.run >>= .ret) = p.run from Prog.bind_ret _] at hend
        exact .inl ⟨_, hend, fun o k heq => nomatch heq⟩

theorem Can.bind (h : Can D ok p s a u) (hf : Can D ok (f a) u b t) :
    Can D ok (p >>= f) s b t := by
  obtain ⟨tr, hf⟩ := hf
  obtain ⟨tr', h⟩ := h.within ⟨tr, hf.within⟩
  exact ⟨tr', h.runs⟩

/-- A loop over a list gets there when each of its rounds does. -/
theorem can_foldlM {f : α → γ → ExceptT ε (Prog Op Ans) α} {I : List γ → σ → Prop} {l : List γ}
    (hf : ∀ done x rest, l = done ++ x :: rest → ∀ a s, I done s →
      ∃ b t, Can D ok (f a x) s b t ∧ I (done ++ [x]) t) (hs : I [] s) :
    ∃ b t, Can D ok (l.foldlM f a) s b t ∧ I l t := by
  have main : ∀ (rest done : List γ), l = done ++ rest → ∀ a s, I done s →
      ∃ b t, Can D ok (rest.foldlM f a) s b t ∧ I l t := by
    intro rest
    induction rest with
    | nil =>
      intro done hl a s hs
      rw [List.append_nil] at hl
      exact ⟨a, s, can_pure, hl ▸ hs⟩
    | cons x rest ih =>
      intro done hl a s hs
      obtain ⟨b, u, hx, hu⟩ := hf done x rest hl a s hs
      obtain ⟨c, t, hrest, ht⟩ := ih (done ++ [x]) (by simpa using hl) b u hu
      refine ⟨c, t, ?_, ht⟩
      rw [List.foldlM_cons]
      exact hx.bind hrest
  exact main l [] rfl a s hs

end Can

end Device
