/-
# Runs with the calls they have completed

`Y.Log ok s₀ log s p`: a run from `s₀`, all of whose operations pass `ok`, has completed the
calls in `log`, the last one first, each with its result, and is now in the state `s` with no
call in progress or in the middle of one.  Where `System.Reach` says what can be, this says what
has been done to get there, so that a property may speak about the last call of a kind, or about
all calls so far.

`log_holds` is the run lemma for it, `Log.call` adds one complete call.
-/
import S9p.Lib.Path

namespace System

variable {Op : Type} {Ans : Op → Type} {σ Env Ch Call α : Type}

/-- The results are those the calls have returned, and so the log is what a caller has seen.  An
environment step leaves it as it is. -/
inductive Log (Y : System Op Ans σ Env Ch Call α) (ok : Call → σ → (o : Op) → Ch → Bool) (s₀ : σ) :
    List (Call × α) → σ → Option (Thread Op Ans σ Call α) → Prop
  | boot : Y.init s₀ → Y.Log ok s₀ [] s₀ none
  | env {log : List (Call × α)} {s t : σ} {p : Option (Thread Op Ans σ Call α)} {e : Env} :
      Y.Log ok s₀ log s p → Y.env e s = some t → Y.Log ok s₀ log t p
  | start {log : List (Call × α)} {s : σ} (c : Call) :
      Y.Log ok s₀ log s none → Y.enabled c s = true → Y.Log ok s₀ log s (some ⟨c, s, Y.call c⟩)
  | op {log : List (Call × α)} {s t u : σ} {c : Call} {o : Op} {k : Ans o → Prog Op Ans α}
      {r : Ans o} (ch : Ch) : Y.Log ok s₀ log s (some ⟨c, u, .op o k⟩) → ok c s o ch = true →
      Y.act o ch s = some (r, t) → Y.Log ok s₀ log t (some ⟨c, u, k r⟩)
  | done {log : List (Call × α)} {s u : σ} {c : Call} {a : α} :
      Y.Log ok s₀ log s (some ⟨c, u, .ret a⟩) → Y.Log ok s₀ ((c, a) :: log) s none

/-- What a configuration satisfies when every call, begun after `log` in the invariant, meets `S` on
the way and ends in `Post`.  Both may speak about the state in which the call has begun.  A property
of a finished call, such as that it has looked at everything there was when it began, is a
postcondition that mentions that state. -/
def LogHolds (Y : System Op Ans σ Env Ch Call α) (ok : Call → σ → (o : Op) → Ch → Bool)
    (Inv : List (Call × α) → σ → Prop) (S : List (Call × α) → Call → σ → σ → Option Op → Prop)
    (Post : List (Call × α) → Call → σ → α → σ → Prop) (log : List (Call × α)) (s : σ) :
    Option (Thread Op Ans σ Call α) → Prop
  | none => Inv log s
  | some t =>
      Device.wp Y.toDevice (ok t.call) (S log t.call t.entry) t.rest (Post log t.call t.entry) s

/-- **The run lemma.**.  The induction is on the run, and `LogHolds` carries it: between two calls
the invariant, in the middle of one the weakest precondition of what is left of it. -/
theorem log_holds {Y : System Op Ans σ Env Ch Call α} {ok : Call → σ → (o : Op) → Ch → Bool}
    {Inv : List (Call × α) → σ → Prop} {S : List (Call × α) → Call → σ → σ → Option Op → Prop}
    {Post : List (Call × α) → Call → σ → α → σ → Prop} {s₀ : σ}
    (hinit : Y.init s₀ → Inv [] s₀) (hstable : ∀ log, Y.toDevice.Stable (Inv log))
    (hcall : ∀ log c s, Inv log s → Y.enabled c s = true →
      Device.wp Y.toDevice (ok c) (S log c s) (Y.call c) (Post log c s) s)
    (hpost : ∀ log c u a s, Post log c u a s → Inv ((c, a) :: log) s)
    {log : List (Call × α)} {s : σ} {p : Option (Thread Op Ans σ Call α)}
    (hr : Y.Log ok s₀ log s p) : Y.LogHolds ok Inv S Post log s p := by
  induction hr with
  | boot hi => exact hinit hi
  | @env log s t p e _ he ih =>
    cases p with
    | none => exact hstable log e s t he ih
    | some th => exact Device.wp_drift ih (Relation.ReflTransGen.single ⟨e, he⟩)
  | start c _ hc ih => exact hcall _ c _ ih hc
  | op ch _ hok hact ih => exact (ih _ Relation.ReflTransGen.refl).2 ch _ _ hok hact
  | done _ ih => exact hpost _ _ _ _ _ (ih _ Relation.ReflTransGen.refl).2

section Calls

variable {Y : System Op Ans σ Env Ch Call α} {ok : Call → σ → (o : Op) → Ch → Bool} {s₀ : σ}
  {log : List (Call × α)} {s t u : σ}

theorem Log.drift {p : Option (Thread Op Ans σ Call α)} (h : Y.Log ok s₀ log s p)
    (hst : Y.toDevice.Drift s t) : Y.Log ok s₀ log t p := by
  induction hst with
  | refl => exact h
  | tail _ he ih =>
    obtain ⟨e, he⟩ := he
    exact .env ih he

/-- A call that has begun runs to its end. -/
theorem Log.finish {c : Call} {p : Prog Op Ans α} {tr : List (Sigma Ans)} {a : α}
    (h : Y.Log ok s₀ log s (some ⟨c, u, p⟩)) (hp : Y.toDevice.Runs (ok c) p s tr a t) :
    Y.Log ok s₀ ((c, a) :: log) t none := by
  induction hp with
  | ret hst => exact .done (h.drift hst)
  | op ch hst hok hact _ ih => exact ih (.op ch (h.drift hst) hok hact)

/-- One call more. -/
theorem Log.call {c : Call} {tr : List (Sigma Ans)} {a : α} (h : Y.Log ok s₀ log s none)
    (hc : Y.enabled c s = true) (hp : Y.toDevice.Runs (ok c) (Y.call c) s tr a t) :
    Y.Log ok s₀ ((c, a) :: log) t none := (Log.start c h hc).finish hp

/-- Complete calls one after the other, each with the steps of the environment and the choices of
the device. -/
def playAll (Y : System Op Ans σ Env Ch Call α) :
    List (Call × List (Env ⊕ Ch)) → List (Call × α) → σ → Option (List (Call × α) × σ)
  | [], log, s => some (log, s)
  | (c, es) :: cs, log, s =>
      if Y.enabled c s then
        (Y.play es (Y.call c) s).bind (fun x => Y.playAll cs ((c, x.1) :: log) x.2)
      else none

theorem log_of_playAll {cs : List (Call × List (Env ⊕ Ch))} {log' : List (Call × α)}
    (hok : ∀ c s o ch, ok c s o ch = true) (h : Y.Log ok s₀ log s none)
    (hplay : Y.playAll cs log s = some (log', t)) : Y.Log ok s₀ log' t none := by
  induction cs generalizing log s with
  | nil =>
    simp only [playAll, Option.some.injEq, Prod.mk.injEq] at hplay
    obtain ⟨rfl, rfl⟩ := hplay
    exact h
  | cons c cs ih =>
    simp only [playAll] at hplay
    split at hplay
    · rename_i hc
      obtain ⟨⟨a, u⟩, hx, hrest⟩ := Option.bind_eq_some_iff.mp hplay
      obtain ⟨tr, hruns⟩ := Device.runs_of_play (hok c.1) hx
      exact ih (h.call hc hruns) hrest
    · exact absurd hplay (by simp)

end Calls

end System
