/-
# What a transaction returns

`s9p_acpm_mfd_xfer` returns two kinds of failure in one `int`: a negative error number when the
APM has not answered, and the code 1..255 of a firmware that has refused the command.

* `mfdXfer_reported`: without a reply the result is `-ENODEV`, `-EBUSY` or `-ETIMEDOUT`, with one
  it is the code in the reply, whatever the SRAM and the mailbox have answered;
* `Forwards.negative_iff`: a caller passes on the result of one operation and drops those of later
  ones; so it reports every failure with a negative number exactly where the one passed on is no
  such code and none of the dropped ones is a failure.

The callers test the result against zero, so both kinds stop them.  They differ where the result is
handed on to a framework that expects an error number to be negative.
-/
import S9p.Lib.Through
import S9p.Acpm.Transaction

namespace S9p.Acpm

/-- The ways an attempt fails. -/
def Lost (ret : Int) : Prop := ret = -ENODEV ∨ ret = -EBUSY ∨ ret = -ETIMEDOUT

/-- Without a reply the result is a negative number; with one it is the code in the reply. -/
structure Reported (x : XferResult) : Prop where
  lost : x.reply = none → Lost x.ret
  answered : ∀ reply, x.reply = some reply → x.ret = (replyCode reply).toNat ∧ x.ret ≤ 255

section Xfer

variable {q : Nat}

/-- Whatever a program does, it does. -/
theorem meets_anything {α : Type} (p : P α) :
    p.Meets (fun _ => True) (fun _ _ => True) (fun _ => True) :=
  (Prog.uses_true p).meets (fun _ _ => trivial)

theorem send_result {cmd : Cmd} {spins : Nat} :
    (send q cmd spins).Meets (fun _ => True) (fun _ _ => True)
      (fun ret => ret = 0 ∨ ret = -EBUSY) := by
  simp only [send, writeCmd, rdTxFront, wrTxWord, wrTxFront, wrIntgr0, Prog.perform_bind,
    Prog.op_bind]
  refine ⟨trivial, fun front _ => (meets_anything _).bind (fun room _ => ?_)⟩
  split
  · exact ⟨trivial, fun _ _ => ⟨trivial, fun _ _ => ⟨trivial, fun _ _ => ⟨trivial, fun _ _ =>
      ⟨trivial, fun _ _ => ⟨trivial, fun _ _ => .inl rfl⟩⟩⟩⟩⟩⟩
  · exact .inr rfl

/-- An error comes from one of the `Lost`. -/
def FailsLost (res : Except Int Msg) : Prop := ∀ e, res = .error e → Lost e

theorem receive_result {want : Word} : ∀ polls,
    (receive (fine q) want polls).Meets (fun _ => True) (fun _ _ => True) FailsLost
  | 0 => fun e he => by
    simp only [Except.error.injEq] at he
    exact .inr (.inr he.symm)
  | polls + 1 => by
    have hrest : (receive (fine q) want polls).Meets (fun _ => True) (fun _ _ => True) FailsLost :=
      receive_result polls
    refine (meets_anything _).bind (fun pending _ => ?_)
    split
    · refine (meets_anything _).bind (fun found _ => ?_)
      cases found with
      | some reply => exact fun e he => absurd he (by simp)
      | none => exact hrest
    · exact hrest

theorem attempts_result {tm : Nat → Timing} : ∀ (left : Nat) (cmd : Cmd) (ret : Except Int Msg),
    FailsLost ret →
      (attempts (fine q) tm left cmd ret).Meets (fun _ => True) (fun _ _ => True) FailsLost
  | 0, _, _, hret => hret
  | left + 1, cmd, _, _ => by
    have hattempt : (attempt (fine q) cmd (tm left)).Meets (fun _ => True) (fun _ _ => True)
        (fun x => FailsLost x.2) := by
      refine (meets_anything _).bind (fun _ _ => (meets_anything _).bind (fun _ _ =>
        (meets_anything _).bind (fun _ _ => send_result.bind (fun ret hret => ?_))))
      split
      · rename_i hne
        intro e he
        simp only [Except.error.injEq] at he
        exact .inr (.inl (he ▸ hret.resolve_left hne))
      · exact (receive_result _).bind (fun res hres => hres)
    refine hattempt.bind (fun x hx => ?_)
    obtain ⟨cmd, res⟩ := x
    cases res with
    | ok reply => exact fun e he => absurd he (by simp)
    | error e => exact attempts_result left cmd _ hx

/-- **Two kinds of failure in one number.** -/
theorem mfdXfer_reported {func reg val mask : BitVec 8} {wantVal : Bool} {tm : Nat → Timing} :
    (mfdXfer (fine q) func reg val mask wantVal tm).Meets (fun _ => True) (fun _ _ => True)
      Reported := by
  refine (meets_anything _).bind (fun mbox _ => ?_)
  split
  · exact ⟨fun _ => .inl rfl, fun reply h => absurd h (by simp)⟩
  · have hinit : FailsLost (.error (-ENODEV)) := fun e he => by
      simp only [Except.error.injEq] at he
      exact .inl he.symm
    refine (attempts_result _ _ _ hinit).bind (fun ret hret => ?_)
    cases ret with
    | error e => exact ⟨fun _ => hret e rfl, fun reply h => absurd h (by simp)⟩
    | ok reply =>
      refine (meets_anything _).bind (fun _ _ => ⟨fun h => absurd h (by simp), fun r hr => ?_⟩)
      obtain rfl := Option.some.inj hr
      have hcode : (replyCode reply).toNat ≤ 255 := by
        rw [replyCode, Field.field, BitVec.toNat_and]
        exact Nat.and_le_right
      exact ⟨rfl, Int.ofNat_le.mpr hcode⟩

end Xfer

/-! ## 2. A result that is passed on

A call may make several operations, for several rails or in both directions.  Which of their results
it hands on is what `Forwards` records; the rest of the call is of no interest here. -/

/-- The result of a PMIC operation, if there was one, is that of the call when it is a failure. -/
def PassedOn (x : Option Int) (ret : Int) : Prop := ∀ c, x = some c → c ≠ 0 → ret = c

section PassedOn

variable {x : Option Int} {ret : Int}

theorem passedOn_none (h : x = none) : PassedOn x ret := fun c hc =>
  absurd (h.symm.trans hc) (by simp)

theorem passedOn_some (h : x = some ret) : PassedOn x ret := fun _ hc _ =>
  Option.some.inj (h.symm.trans hc)

/-- What a call makes of its PMIC operations, of which `results` are the results: it passes on the
one `before` the clock is touched, and drops what comes `after`.  `results` are all of them, and
every one is either passed on or dropped. -/
structure Forwards (results : List Int) (before : Option Int) (after : List Int) (ret : Int) :
    Prop where
  passed : PassedOn before ret
  results_iff : ∀ c, c ≠ 0 → (c ∈ results ↔ before = some c ∨ c ∈ after)
  dropped : ∀ c ∈ after, ret = 0

variable {results after : List Int}

/-- A call without a PMIC operation. -/
theorem forwards_nothing : Forwards [] none [] ret where
  passed := passedOn_none rfl
  results_iff := by simp
  dropped := by simp

/-- **Only the sign counts of what is passed on**, and what is dropped has to be a success. -/
theorem Forwards.negative_iff (h : Forwards results x after ret) :
    (∀ c ∈ results, c ≠ 0 → ret < 0) ↔
      (∀ c, x = some c → c ≤ 0) ∧ ∀ c ∈ after, c = 0 := by
  constructor
  · intro hneg
    refine ⟨fun c hc => ?_, fun c hc => ?_⟩
    · by_cases hzero : c = 0
      · exact hzero.le
      · have hres : c ∈ results := (h.results_iff c hzero).mpr (.inl hc)
        exact h.passed c hc hzero ▸ (hneg c hres hzero).le
    · by_contra hne
      have hres : c ∈ results := (h.results_iff c hne).mpr (.inr hc)
      have hret := hneg c hres hne
      rw [h.dropped c hc] at hret
      exact absurd hret (by decide)
  · rintro ⟨hbefore, hafter⟩ c hres hne
    rcases (h.results_iff c hne).mp hres with hc | hc
    · have hret := h.passed c hc hne
      have hle := hbefore c hc
      omega
    · exact absurd (hafter c hc) hne

/-- A call that returns 0 has seen no failure before. -/
theorem Forwards.succeeded (h : Forwards results x after 0) {c : Int} (hc : x = some c) :
    c = 0 := by
  by_contra hne
  exact hne (h.passed c hc hne).symm

/-- One that went well so far, and goes on to something that may fail for another reason. -/
theorem Forwards.later_iff (h : Forwards results x after 0) :
    (∀ c ∈ results, c ≠ 0 → ret < 0) ↔ (∀ c ∈ after, c = 0) ∨ ret < 0 := by
  constructor
  · intro hneg
    by_cases hall : ∀ c ∈ after, c = 0
    · exact .inl hall
    · obtain ⟨c, hc, hne⟩ := not_forall₂.mp hall
      have hres : c ∈ results := (h.results_iff c hne).mpr (.inr hc)
      exact .inr (hneg c hres hne)
  · rintro (hall | hret) c hres hne
    · rcases (h.results_iff c hne).mp hres with hc | hc
      · exact absurd (h.succeeded hc) hne
      · exact absurd (hall c hc) hne
    · exact hret

end PassedOn

end S9p.Acpm
