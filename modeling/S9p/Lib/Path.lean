/-
# Complete runs of one program, with what was done on the way

`p.Path tr a` says that the program `p` returns `a` after the operations in `tr`, each with the
answer it got.  It knows no device, so what it proves holds under every device: which results
go with which answers.  What a trace tells is read off it by `lastBefore`, `readings` and
`readingsBehind`; each has a rule for an operation put in front and one for two traces joined, so
that it is computed along the program, as a path is.

`D.Runs ok p s tr a t` adds the device: started in `s`, the program can perform `tr`, return `a`
and leave the state `t`.  `Runs.post` is the way from `wp` to a statement about a whole run;
`Runs.restrict` narrows the test on the steps to what the answers in `tr` show.  `D.Within` is a
run with part of the program left.
-/
import S9p.Lib.Prog

namespace Prog

variable {Op : Type} {Ans : Op → Type} {α β : Type}

/-! ## 1. Paths

A path is the program seen from its caller: the answers are given, and the result follows.
Statements about return codes are made here, where the state of a device would only be in the way.
-/

inductive Path : Prog Op Ans α → List (Sigma Ans) → α → Prop
  | ret (a : α) : Path (.ret a) [] a
  | op {o : Op} {k : Ans o → Prog Op Ans α} {tr : List (Sigma Ans)} {a : α} (r : Ans o) :
      Path (k r) tr a → Path (.op o k) (⟨o, r⟩ :: tr) a

variable {p : Prog Op Ans α} {f : α → Prog Op Ans β} {tr : List (Sigma Ans)} {a b : α} {c : β}

theorem path_ret : (Prog.ret a : Prog Op Ans α).Path tr b ↔ tr = [] ∧ b = a := by
  constructor
  · rintro ⟨⟩
    exact ⟨rfl, rfl⟩
  · rintro ⟨rfl, rfl⟩
    exact .ret _

theorem path_op {o : Op} {k : Ans o → Prog Op Ans α} :
    (Prog.op o k).Path tr a ↔ ∃ r rest, tr = ⟨o, r⟩ :: rest ∧ (k r).Path rest a := by
  constructor
  · rintro (_ | ⟨r, h⟩)
    exact ⟨r, _, rfl, h⟩
  · rintro ⟨r, rest, rfl, h⟩
    exact .op r h

/-- The path of a sequence is cut at the first result. -/
theorem path_bind : (p >>= f).Path tr c ↔
    ∃ a tr₁ tr₂, tr = tr₁ ++ tr₂ ∧ p.Path tr₁ a ∧ (f a).Path tr₂ c := by
  constructor
  · intro h
    induction p generalizing tr with
    | ret a => exact ⟨a, [], tr, rfl, .ret a, h⟩
    | op o k ih =>
      obtain ⟨r, rest, rfl, hrest⟩ := path_op.mp h
      obtain ⟨a, tr₁, tr₂, rfl, h₁, h₂⟩ := ih r hrest
      exact ⟨a, ⟨o, r⟩ :: tr₁, tr₂, rfl, .op r h₁, h₂⟩
  · rintro ⟨a, tr₁, tr₂, rfl, h₁, h₂⟩
    induction h₁ with
    | ret a => exact h₂
    | op r _ ih => exact .op r (ih h₂)

/-- A path performs what its program uses. -/
theorem Path.uses {A : Op → Prop} (h : p.Path tr a) (hp : p.Uses A) : ∀ d ∈ tr, A d.1 := by
  induction h with
  | ret a => simp
  | op r _ ih =>
    intro d hd
    rcases List.mem_cons.mp hd with rfl | hd
    · exact hp.1
    · exact ih (hp.2 r) d hd

/-- A program that meets a contract keeps it on every path whose answers do. -/
theorem Path.meets {A : Op → Prop} {R : (o : Op) → Ans o → Prop} {Q : α → Prop}
    (h : p.Path tr a) (hp : p.Meets A R Q) (hR : ∀ d ∈ tr, R d.1 d.2) : Q a := by
  induction h with
  | ret a => exact hp
  | op r _ ih =>
    exact ih (hp.2 r (hR _ List.mem_cons_self)) (fun d hd => hR d (List.mem_cons_of_mem _ hd))

/-! ### The last reading before a stop

It is read off the front of the trace, so a program that reads again and again is judged by the last
time. -/

/-- The last reading of the trace that stands before the first operation that stops it.  It is
`none` where nothing has been read, which is not the same as a reading of zero. -/
def lastBefore (stop : Op → Bool) (val : Sigma Ans → Option β) : List (Sigma Ans) → Option β
  | [] => none
  | d :: tr => if stop d.1 then none else (lastBefore stop val tr).or (val d)

section LastBefore

variable {stop : Op → Bool} {val : Sigma Ans → Option β} {tr₁ tr₂ : List (Sigma Ans)}
  {d : Sigma Ans}

theorem lastBefore_cons (h : stop d.1 = false) :
    lastBefore stop val (d :: tr) = (lastBefore stop val tr).or (val d) := by
  simp [lastBefore, h]

/-- A trace that reads nothing. -/
theorem lastBefore_quiet (h : ∀ d ∈ tr, val d = none) : lastBefore stop val tr = none := by
  induction tr with
  | nil => rfl
  | cons d tr ih =>
    have htr := ih (fun d hd => h d (List.mem_cons_of_mem _ hd))
    simp [lastBefore, htr, h d List.mem_cons_self]

/-- What comes later counts first. -/
theorem lastBefore_append (h : ∀ d ∈ tr₁, stop d.1 = false) :
    lastBefore stop val (tr₁ ++ tr₂) = (lastBefore stop val tr₂).or (lastBefore stop val tr₁) := by
  induction tr₁ with
  | nil => simp [lastBefore]
  | cons d tr₁ ih =>
    have hd : stop d.1 = false := h d List.mem_cons_self
    rw [List.cons_append, lastBefore_cons hd, lastBefore_cons hd,
      ih (fun d hd => h d (List.mem_cons_of_mem _ hd)), Option.or_assoc]

/-- What reads nothing, or stands behind a stop, does not count. -/
theorem lastBefore_append_none (h : lastBefore stop val tr₂ = none) :
    lastBefore stop val (tr₁ ++ tr₂) = lastBefore stop val tr₁ := by
  induction tr₁ with
  | nil => exact h
  | cons d tr₁ ih => simp [lastBefore, ih]

theorem mem_of_lastBefore {b : β} (h : lastBefore stop val tr = some b) :
    ∃ d ∈ tr, val d = some b := by
  induction tr with
  | nil => exact absurd h (by simp [lastBefore])
  | cons d tr ih =>
    simp only [lastBefore] at h
    split at h
    · exact absurd h (by simp)
    · rcases Option.or_eq_some_iff.mp h with htr | ⟨-, hd⟩
      · obtain ⟨d', hd', hval⟩ := ih htr
        exact ⟨d', List.mem_cons_of_mem _ hd', hval⟩
      · exact ⟨d, List.mem_cons_self, hd⟩

end LastBefore

/-! ### All readings

Some programs repeat an operation at once, and then only its last outcome is theirs. -/

/-- All readings of the trace, one that is taken again at once counting the last time only.  An
operation that has to be repeated until it is taken up would otherwise be counted as often as it has
been tried. -/
def readings (again : Sigma Ans → Sigma Ans → Bool) (val : Sigma Ans → Option β) :
    List (Sigma Ans) → List β
  | [] => []
  | d :: tr => (if tr.head?.any (again d) then none else val d).toList ++ readings again val tr

/-- Those from the first operation on that stops it. -/
def readingsBehind (stop : Op → Bool) (again : Sigma Ans → Sigma Ans → Bool)
    (val : Sigma Ans → Option β) (tr : List (Sigma Ans)) : List β :=
  readings again val (tr.dropWhile (fun d => !stop d.1))

section Readings

variable {stop : Op → Bool} {again : Sigma Ans → Sigma Ans → Bool} {val : Sigma Ans → Option β}
  {tr₁ tr₂ : List (Sigma Ans)} {d : Sigma Ans} {x : β}

theorem readings_quiet (h : val d = none) :
    readings again val (d :: tr) = readings again val tr := by
  simp [readings, h]

theorem readings_once (h : ∀ d' ∈ tr.head?, again d d' = false) :
    readings again val (d :: tr) = (val d).toList ++ readings again val tr := by
  rw [readings, if_neg]
  intro hany
  obtain ⟨d', hd', hagain⟩ := (Option.any_eq_true _ _).mp hany
  exact absurd hagain (by rw [h d' hd']; exact Bool.false_ne_true)

/-- A trace that reads nothing. -/
theorem readings_silent (h : ∀ d ∈ tr, val d = none) : readings again val tr = [] := by
  induction tr with
  | nil => rfl
  | cons d tr ih =>
    rw [readings_quiet (h d List.mem_cons_self)]
    exact ih (fun d hd => h d (List.mem_cons_of_mem _ hd))

/-- Two traces joined at an operation that reads nothing, and so takes no reading again. -/
theorem readings_append (hagain : ∀ d d', val d' = none → again d d' = false)
    (h : ∀ d ∈ tr₂.head?, val d = none) :
    readings again val (tr₁ ++ tr₂) = readings again val tr₁ ++ readings again val tr₂ := by
  induction tr₁ with
  | nil => rfl
  | cons d tr₁ ih =>
    cases tr₁ with
    | nil =>
      rw [List.singleton_append, readings_once (fun d' hd' => hagain d d' (h d' hd')),
        readings_once (by simp), readings, List.append_nil]
    | cons d' tr₁ =>
      rw [List.cons_append, readings, ih, ← List.append_assoc]
      rfl

theorem readingsBehind_quiet (h : stop d.1 = false) :
    readingsBehind stop again val (d :: tr) = readingsBehind stop again val tr := by
  rw [readingsBehind, List.dropWhile_cons_of_pos (by simp [h]), readingsBehind]

theorem readingsBehind_stop (h : stop d.1 = true) :
    readingsBehind stop again val (d :: tr) = readings again val (d :: tr) := by
  rw [readingsBehind, List.dropWhile_cons_of_neg (by simp [h])]

/-- What stands before the first stop does not count. -/
theorem readingsBehind_append (h : ∀ d ∈ tr₁, stop d.1 = false) :
    readingsBehind stop again val (tr₁ ++ tr₂) = readingsBehind stop again val tr₂ := by
  induction tr₁ with
  | nil => rfl
  | cons d tr₁ ih =>
    rw [List.cons_append, readingsBehind_quiet (h d List.mem_cons_self)]
    exact ih (fun d hd => h d (List.mem_cons_of_mem _ hd))

theorem readingsBehind_still (h : ∀ d ∈ tr, stop d.1 = false) :
    readingsBehind stop again val tr = [] := by
  rw [← List.append_nil tr, readingsBehind_append h]
  rfl

end Readings

end Prog

/-! ## 2. Runs

The trace is the same as that of the path, so a run can be looked at from both sides: `post` says
what it has done to the device, `path` why it has returned what it has. -/

namespace Device

variable {Op : Type} {Ans : Op → Type} {σ Env Ch α β : Type}

inductive Runs (D : Device Op Ans σ Env Ch) (ok : σ → (o : Op) → Ch → Bool) :
    Prog Op Ans α → σ → List (Sigma Ans) → α → σ → Prop
  | ret {a : α} {s t : σ} : D.Drift s t → Runs D ok (.ret a) s [] a t
  | op {o : Op} {k : Ans o → Prog Op Ans α} {s s' u t : σ} {r : Ans o} {tr : List (Sigma Ans)}
      {a : α} (ch : Ch) : D.Drift s s' → ok s' o ch = true → D.act o ch s' = some (r, u) →
      Runs D ok (k r) u tr a t → Runs D ok (.op o k) s (⟨o, r⟩ :: tr) a t

section Runs

variable {D : Device Op Ans σ Env Ch} {ok ok' : σ → (o : Op) → Ch → Bool} {p : Prog Op Ans α}
  {s t : σ} {tr : List (Sigma Ans)} {a : α}

theorem Runs.path (h : D.Runs ok p s tr a t) : p.Path tr a := by
  induction h with
  | ret _ => exact .ret _
  | op _ _ _ _ _ ih => exact .op _ ih

/-- **What `wp` promises, a run keeps.** -/
theorem Runs.post {S : σ → Option Op → Prop} {Q : α → σ → Prop} (h : D.Runs ok p s tr a t)
    (hwp : wp D ok S p Q s) : Q a t := by
  induction h with
  | ret hst => exact (hwp _ hst).2
  | op ch hst hok hact _ ih => exact ih ((hwp _ hst).2 ch _ _ hok hact)

/-- A test that follows from the answers may be assumed of a run with these answers.  Where all
answers of a trace are good ones, the run is one of a device that gives no others. -/
theorem Runs.restrict {R : (o : Op) → Ans o → Prop} (h : D.Runs ok p s tr a t)
    (hok : ∀ s o ch r u, ok s o ch = true → D.act o ch s = some (r, u) → R o r →
      ok' s o ch = true)
    (hR : ∀ d ∈ tr, R d.1 d.2) : D.Runs ok' p s tr a t := by
  induction h with
  | ret hst => exact .ret hst
  | op ch hst hch hact _ ih =>
    exact .op ch hst (hok _ _ _ _ _ hch hact (hR _ List.mem_cons_self)) hact
      (ih (fun d hd => hR d (List.mem_cons_of_mem _ hd)))

/-- The run of a sequence is cut at the first result. -/
theorem runs_bind {f : α → Prog Op Ans β} {b : β} (h : D.Runs ok (p >>= f) s tr b t) :
    ∃ a u tr₁ tr₂, tr = tr₁ ++ tr₂ ∧ D.Runs ok p s tr₁ a u ∧ D.Runs ok (f a) u tr₂ b t := by
  induction p generalizing s tr with
  | ret a => exact ⟨a, s, [], tr, rfl, .ret .refl, h⟩
  | op o k ih =>
    cases h with
    | op ch hst hok hact hrest =>
      obtain ⟨a, u, tr₁, tr₂, rfl, h₁, h₂⟩ := ih _ hrest
      exact ⟨a, u, _ :: tr₁, tr₂, rfl, .op ch hst hok hact h₁, h₂⟩

/-- What a run in one go does, can be done. -/
theorem runs_of_run {ch : Ch} (hok : ∀ s o, ok s o ch = true) (h : D.run ch p s = some (a, t)) :
    ∃ tr, D.Runs ok p s tr a t := by
  induction p generalizing s with
  | ret b =>
    simp only [run_ret, Option.some.injEq, Prod.mk.injEq] at h
    obtain ⟨rfl, rfl⟩ := h
    exact ⟨[], .ret .refl⟩
  | op o k ih =>
    obtain ⟨⟨r, u⟩, hact, hrest⟩ := Option.bind_eq_some_iff.mp h
    obtain ⟨tr, hruns⟩ := ih r hrest
    exact ⟨⟨o, r⟩ :: tr, .op ch .refl (hok s o) hact hruns⟩

end Runs

/-! ## 3. Runs that are not over

`D.Within ok p s tr q t` says that the program `p`, started in `s`, has performed `tr`, has `q`
left to do and finds the state `t`.  A complete run is one that has only a result left. -/

inductive Within (D : Device Op Ans σ Env Ch) (ok : σ → (o : Op) → Ch → Bool) :
    Prog Op Ans α → σ → List (Sigma Ans) → Prog Op Ans α → σ → Prop
  | here {p : Prog Op Ans α} {s t : σ} : D.Drift s t → Within D ok p s [] p t
  | op {o : Op} {k : Ans o → Prog Op Ans α} {q : Prog Op Ans α} {s s' u t : σ} {r : Ans o}
      {tr : List (Sigma Ans)} (ch : Ch) : D.Drift s s' → ok s' o ch = true →
      D.act o ch s' = some (r, u) → Within D ok (k r) u tr q t →
      Within D ok (.op o k) s (⟨o, r⟩ :: tr) q t

section Within

variable {D : Device Op Ans σ Env Ch} {ok : σ → (o : Op) → Ch → Bool} {p q : Prog Op Ans α}
  {s t : σ} {tr : List (Sigma Ans)} {a : α}

theorem Within.drift {u : σ} (hsu : D.Drift s u) (h : D.Within ok p u tr q t) :
    D.Within ok p s tr q t := by
  cases h with
  | here hst => exact .here (hsu.trans hst)
  | op ch hst hok hact hrest => exact .op ch (hsu.trans hst) hok hact hrest

/-- **What `wp` promises at the start, it still promises on the way.** -/
theorem Within.rest {S : σ → Option Op → Prop} {Q : α → σ → Prop} (h : D.Within ok p s tr q t)
    (hwp : wp D ok S p Q s) : wp D ok S q Q t := by
  induction h with
  | here hst => exact wp_drift hwp hst
  | op ch hst hok hact _ ih => exact ih ((hwp _ hst).2 ch _ _ hok hact)

/-- The step property holds where the run is about to perform an operation. -/
theorem Within.at_op {S : σ → Option Op → Prop} {Q : α → σ → Prop} {o : Op}
    {k : Ans o → Prog Op Ans α} (h : D.Within ok p s tr (.op o k) t) (hwp : wp D ok S p Q s) :
    S t (some o) := (h.rest hwp t .refl).1

/-- A step property that is a property of the state alone holds wherever a run stops. -/
theorem Within.mid {J : σ → Prop} {S : σ → Option Op → Prop} {Q : α → σ → Prop}
    (h : D.Within ok p s tr q t) (hwp : wp D ok S p Q s) (hS : ∀ t o, S t o → J t) : J t := by
  have hrest := h.rest hwp
  cases q with
  | ret a => exact hS t none (hrest t .refl).1
  | op o k => exact hS t (some o) (hrest t .refl).1

/-- What the step property says of the operations is true of all that have been performed. -/
theorem Within.ops {A : Op → Prop} {S : σ → Option Op → Prop} {Q : α → σ → Prop}
    (h : D.Within ok p s tr q t) (hwp : wp D ok S p Q s) (hS : ∀ t o, S t (some o) → A o) :
    ∀ d ∈ tr, A d.1 := by
  induction h with
  | here _ => simp
  | op ch hst hok hact _ ih =>
    intro d hd
    rcases List.mem_cons.mp hd with rfl | hd
    · exact hS _ _ (hwp _ hst).1
    · exact ih ((hwp _ hst).2 ch _ _ hok hact) d hd

/-- One operation more. -/
theorem Within.concat {o : Op} {k : Ans o → Prog Op Ans α} {r : Ans o} {u : σ} (ch : Ch)
    (h : D.Within ok p s tr (.op o k) t) (hok : ok t o ch = true)
    (hact : D.act o ch t = some (r, u)) : D.Within ok p s (tr ++ [⟨o, r⟩]) (k r) u := by
  generalize hq : (.op o k : Prog Op Ans α) = q at h
  induction h with
  | here hst => exact hq ▸ .op ch hst hok hact (.here .refl)
  | op ch' hst hok' hact' _ ih => exact .op ch' hst hok' hact' (ih hok hact hq)

/-- A run of a sequence, from a run of its first part. -/
theorem Runs.within_bind {f : α → Prog Op Ans β} {q : Prog Op Ans β} {u : σ}
    {tr' : List (Sigma Ans)}
    (h : D.Runs ok p s tr a u) (hf : D.Within ok (f a) u tr' q t) :
    D.Within ok (p >>= f) s (tr ++ tr') q t := by
  induction h with
  | ret hst => exact Within.drift hst hf
  | op ch hst hok hact _ ih => exact .op ch hst hok hact (ih hf)

/-- A run of the first part is one of the sequence. -/
theorem Within.bind (f : α → Prog Op Ans β) (h : D.Within ok p s tr q t) :
    D.Within ok (p >>= f) s tr (q >>= f) t := by
  induction h with
  | here hst => exact .here hst
  | op ch hst hok hact _ ih => exact .op ch hst hok hact ih

/-- Where a sequence can be: in its first part, or past it. -/
theorem Within.of_bind {f : α → Prog Op Ans β} {q : Prog Op Ans β}
    (h : D.Within ok (p >>= f) s tr q t) :
    (∃ q', D.Within ok p s tr q' t ∧ q = (q' >>= f)) ∨
    ∃ tr₁ tr₂ a u, tr = tr₁ ++ tr₂ ∧ D.Runs ok p s tr₁ a u ∧ D.Within ok (f a) u tr₂ q t := by
  induction p generalizing s tr with
  | ret a => exact .inr ⟨[], tr, a, s, rfl, .ret .refl, h⟩
  | op o k ih =>
    cases h with
    | here hst => exact .inl ⟨.op o k, .here hst, rfl⟩
    | op ch hst hok hact hrest =>
      rcases ih _ hrest with ⟨q', hq', rfl⟩ | ⟨tr₁, tr₂, a, u, rfl, hruns, hf⟩
      · exact .inl ⟨q', .op ch hst hok hact hq', rfl⟩
      · exact .inr ⟨_ :: tr₁, tr₂, a, u, rfl, .op ch hst hok hact hruns, hf⟩

/-- **Progress**: where every operation can be answered, after some steps of the environment,
every program can run to its end. -/
theorem exists_runs (hgo : ∀ s o, ∃ s' ch r u, D.Drift s s' ∧ ok s' o ch = true ∧
    D.act o ch s' = some (r, u)) (p : Prog Op Ans α) (s : σ) :
    ∃ tr a t, D.Runs ok p s tr a t := by
  induction p generalizing s with
  | ret a => exact ⟨[], a, s, .ret .refl⟩
  | op o k ih =>
    obtain ⟨s', ch, r, u, hst, hok, hact⟩ := hgo s o
    obtain ⟨tr, a, t, h⟩ := ih r u
    exact ⟨⟨o, r⟩ :: tr, a, t, .op ch hst hok hact h⟩

/-- A run with only a result left is complete. -/
theorem Within.runs (h : D.Within ok p s tr (.ret a) t) : D.Runs ok p s tr a t := by
  generalize hq : (.ret a : Prog Op Ans α) = q at h
  induction h with
  | here hst => exact hq ▸ .ret hst
  | op ch hst hok hact _ ih => exact .op ch hst hok hact (ih hq)

theorem Runs.within (h : D.Runs ok p s tr a t) : D.Within ok p s tr (.ret a) t := by
  induction h with
  | ret hst => exact .here hst
  | op ch hst hok hact _ ih => exact .op ch hst hok hact ih

theorem Runs.env {e : Env} {u : σ} (he : D.env e s = some u) (h : D.Runs ok p u tr a t) :
    D.Runs ok p s tr a t := by
  have hdrift : D.Drift s u := Relation.ReflTransGen.single ⟨e, he⟩
  exact (h.within.drift hdrift).runs

/-- The complete run with the given steps of the environment and choices of the device.  It is a
partial function: a choice where the environment is due, or one too many, gives no run. -/
def play (D : Device Op Ans σ Env Ch) : List (Env ⊕ Ch) → Prog Op Ans α → σ → Option (α × σ)
  | [], .ret a, s => some (a, s)
  | .inl e :: es, p, s => (D.env e s).bind (play D es p)
  | .inr ch :: es, .op o k, s => (D.act o ch s).bind (fun rt => play D es (k rt.1) rt.2)
  | _, _, _ => none

theorem runs_of_play {es : List (Env ⊕ Ch)} (hok : ∀ s o ch, ok s o ch = true)
    (h : D.play es p s = some (a, t)) : ∃ tr, D.Runs ok p s tr a t := by
  induction es generalizing p s with
  | nil =>
    cases p with
    | ret b =>
      simp only [play, Option.some.injEq, Prod.mk.injEq] at h
      obtain ⟨rfl, rfl⟩ := h
      exact ⟨[], .ret .refl⟩
    | op o k => exact absurd h (by simp [play])
  | cons e es ih =>
    match e, p, h with
    | .inl e, p, h =>
      obtain ⟨u, hu, hrest⟩ := Option.bind_eq_some_iff.mp (by simpa only [play] using h)
      obtain ⟨tr, hruns⟩ := ih hrest
      exact ⟨tr, hruns.env hu⟩
    | .inr ch, .op o k, h =>
      obtain ⟨⟨r, u⟩, hact, hrest⟩ := Option.bind_eq_some_iff.mp h
      obtain ⟨tr, hruns⟩ := ih hrest
      exact ⟨⟨o, r⟩ :: tr, .op ch .refl (hok _ _ _) hact hruns⟩

end Within

end Device
