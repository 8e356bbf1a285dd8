/-
# What callers see of a failed PMIC operation

The entry points pass on what `s9p_acpm_mfd_xfer` returns: a negative error number, or the
positive code of a firmware that has refused the command (`Acpm.mfdXfer_reported`).  They pass on
the result of one operation only.  A voltage that is lowered after the clock has changed is not
among it: where that fails the call returns 0, and the higher voltage stays.

Everything here is read off the trace of a call.  `results` are the results of its PMIC
operations, `forwarded` is the last one before the clock is touched, `lowered` are those after
that.  A write that is made again at once, as the probe does while it fails, counts with its last
result.

* `s9pTarget_tells`, `apply_tells` and the like: a failure before the clock is touched ends the
  call with its very code, up to the probe's `-EPROBE_DEFER` (`Probed`); one after it is dropped.
* `failures_are_negative_iff`: so all failures are reported with a negative number exactly where no
  firmware code comes before the clock change and no failure at all behind it; a store that has
  failed leaves `g3d_step_volt` as it was in any case.
* `refused_store_looks_done`: the firmware's code 2 for the store of "1\n" is the number of bytes
  a store that has succeeded consumes.
-/
import Mathlib.Data.List.TakeWhile
import S9p.Acpm.Codes
import S9p.Cpufreq.Target
import S9p.G3d.Requests

/-! ## 1. `s9p_target`

The clock of a cluster is switched by a row of register writes.  A write of the rail stands in front
of them or behind them, depending on the direction. -/

namespace S9p.Cpufreq

open Acpm (Forwards forwards_nothing passedOn_none passedOn_some)

/-- The result of a BUCK write. -/
def code : Sigma Ans → Option Int
  | ⟨.pmicWrite _ _, ret⟩ => some ret
  | _ => none

/-- Once a register is written the clock changes. -/
def switches : Op → Bool
  | .wrCon0 _ => true
  | .wrMux _ => true
  | .wrLocktime _ => true
  | _ => false

/-- No BUCK write is made a second time. -/
def again : Sigma Ans → Sigma Ans → Bool := fun _ _ => false

/-- What the BUCK writes of a call have returned. -/
def results (tr : List (Sigma Ans)) : List Int := Prog.readings again code tr

/-- What the BUCK write before the clock changes has returned. -/
def forwarded (tr : List (Sigma Ans)) : Option Int := Prog.lastBefore switches code tr

/-- What those after it have returned. -/
def lowered (tr : List (Sigma Ans)) : List Int := Prog.readingsBehind switches again code tr

/-- A call that passes on what comes before the clock change, and drops what comes after. -/
def Tells (tr : List (Sigma Ans)) (ret : Int) : Prop :=
  Forwards (results tr) (forwarded tr) (lowered tr) ret

section Tells

variable {c : ClusterId} {st : PllStep} {w : Waits} {tr : List (Sigma Ans)} {ret : Int}

/-- Operations that read no code and change no clock do not count. -/
theorem tells_quiet {d : Sigma Ans} (h : switches d.1 = false) (hd : code d = none) :
    Tells (d :: tr) ret ↔ Tells tr ret := by
  have hforwarded : forwarded (d :: tr) = forwarded tr := by
    rw [forwarded, Prog.lastBefore_cons h, hd, Option.or_none, forwarded]
  rw [Tells, Tells, results, Prog.readings_quiet hd, lowered, Prog.readingsBehind_quiet h,
    hforwarded, results, lowered]

/-- The relock writes no BUCK. -/
theorem relock_silent {u : Unit} (h : (relock st w).Path tr u) : ∀ d ∈ tr, code d = none := by
  have hlook : ∀ o : Op, o = .rdMux ∨ o = .rdCon0 ∨ o = .hang → ∀ r : Ans o,
      code ⟨o, r⟩ = none := by
    rintro o (rfl | rfl | rfl) r
    · rfl
    · rfl
    · rfl
  have huses : (relock st w).Uses (fun o => ∀ r : Ans o, code ⟨o, r⟩ = none) := by
    simp only [relock, wrLocktime, wrMux, rdCon0, wrCon0, Prog.perform_bind]
    refine ⟨fun _ => rfl, fun _ => ⟨fun _ => rfl, fun _ => ?_⟩⟩
    refine Prog.uses_bind ((uses_waitMux _).mono hlook) (fun _ => ?_)
    refine ⟨fun _ => rfl, fun _ => ⟨fun _ => rfl, fun _ => ⟨fun _ => rfl, fun _ =>
      ⟨fun _ => rfl, fun _ => ?_⟩⟩⟩⟩
    refine Prog.uses_bind ((uses_pollStable _).mono hlook) (fun _ => ?_)
    exact ⟨fun _ => rfl, fun _ => (uses_waitMux _).mono hlook⟩
  exact fun d hd => h.uses huses d hd d.2

/-- It begins with a write, and what comes after it is behind the clock change. -/
theorem relock_behind {u : Unit} (h : (relock st w).Path tr u) (tr' : List (Sigma Ans)) :
    results (tr ++ tr') = results tr' ∧ forwarded (tr ++ tr') = none ∧
      lowered (tr ++ tr') = results tr' := by
  have hsilent := relock_silent h
  have hresults : results (tr ++ tr') = results tr' := by
    clear h
    induction tr with
    | nil => rfl
    | cons d tr ih =>
      rw [List.cons_append, results, Prog.readings_quiet (hsilent d List.mem_cons_self), ← results]
      exact ih (fun d hd => hsilent d (List.mem_cons_of_mem _ hd))
  simp only [relock, wrLocktime, Prog.perform_bind] at h
  obtain ⟨_, rest, rfl, -⟩ := Prog.path_op.mp h
  exact ⟨hresults, rfl, (Prog.readingsBehind_stop rfl).trans hresults⟩

theorem setStep_tells (h : (setStep c st w).Path tr ret) : Tells tr ret := by
  simp only [setStep, currentKhz, rdCon0, rdMux, Prog.perform_bind, Prog.op_bind,
    Prog.pure_eq_ret, Prog.ret_bind] at h
  obtain ⟨con0, rest₁, rfl, h₁⟩ := Prog.path_op.mp h
  obtain ⟨mux, rest₂, rfl, h₂⟩ := Prog.path_op.mp h₁
  rw [tells_quiet rfl rfl, tells_quiet rfl rfl]
  split at h₂
  · -- up: what the write returns, the call returns
    simp only [pmicWrite, Prog.perform_bind] at h₂
    obtain ⟨r, rest₃, rfl, h₃⟩ := Prog.path_op.mp h₂
    split at h₃
    · obtain ⟨rfl, rfl⟩ := Prog.path_ret.mp h₃
      have hlowered : lowered [⟨.pmicWrite c.buckReg st.vsel, ret⟩] = [] := rfl
      have hforwarded : forwarded [⟨.pmicWrite c.buckReg st.vsel, ret⟩] = some ret := rfl
      have hresults : results [⟨.pmicWrite c.buckReg st.vsel, ret⟩] = [ret] := rfl
      rw [Tells, hlowered, hforwarded, hresults]
      exact ⟨passedOn_some rfl, by simp [eq_comm], by simp⟩
    · rename_i hdone
      obtain ⟨u, tr₁, tr₂, rfl, hrelock, h₄⟩ := Prog.path_bind.mp h₃
      obtain ⟨rfl, rfl⟩ := Prog.path_ret.mp h₄
      obtain ⟨hresults, hforwarded, hlowered⟩ := relock_behind hrelock []
      have hzero : r = 0 := not_not.mp hdone
      subst hzero
      refine ⟨?_, fun c hne => ?_, ?_⟩
      · rw [forwarded, Prog.lastBefore_cons rfl, ← forwarded, hforwarded]
        exact passedOn_some rfl
      · rw [results, Prog.readings_once (fun _ _ => rfl), ← results, hresults, forwarded,
          Prog.lastBefore_cons rfl, ← forwarded, hforwarded, lowered,
          Prog.readingsBehind_quiet rfl, ← lowered, hlowered]
        simp [results, Prog.readings, code, eq_comm]
      · rw [lowered, Prog.readingsBehind_quiet rfl, ← lowered, hlowered]
        simp [results, Prog.readings]
  · -- down: the call returns 0 whatever the write returns
    obtain ⟨u, tr₁, tr₂, rfl, hrelock, h₃⟩ := Prog.path_bind.mp h₂
    obtain ⟨r, rest, rfl, h₄⟩ := Prog.path_op.mp h₃
    obtain ⟨rfl, rfl⟩ := Prog.path_ret.mp h₄
    obtain ⟨hresults, hforwarded, hlowered⟩ :=
      relock_behind hrelock [⟨.pmicWrite c.buckReg st.vsel, r⟩]
    rw [Tells, hresults, hforwarded, hlowered]
    exact ⟨passedOn_none rfl, by simp, by simp⟩

theorem switchTo_tells {policy : Limits} {new : Nat}
    (h : (switchTo c policy new st w).Path tr ret) : Tells tr ret := by
  simp only [switchTo, currentKhz, rdCon0, rdMux, Prog.perform_bind, Prog.op_bind,
    Prog.pure_eq_ret, Prog.ret_bind] at h
  obtain ⟨con0, rest₁, rfl, h₁⟩ := Prog.path_op.mp h
  obtain ⟨mux, rest₂, rfl, h₂⟩ := Prog.path_op.mp h₁
  rw [tells_quiet rfl rfl, tells_quiet rfl rfl]
  split at h₂
  · obtain ⟨rfl, rfl⟩ := Prog.path_ret.mp h₂
    exact forwards_nothing
  · exact setStep_tells h₂

/-- **`s9p_target`** passes on the write that raises the rail, and drops the one that lowers it. -/
theorem s9pTarget_tells {tableTarget : TableTarget} {policy : Limits}
    {busy target relation : Nat}
    (h : (s9pTarget tableTarget c policy busy target relation w).Path tr ret) : Tells tr ret := by
  have hret : ∀ {r : Int}, (Prog.ret r : P Int).Path tr ret → Tells tr ret := fun h => by
    obtain ⟨rfl, rfl⟩ := Prog.path_ret.mp h
    exact forwards_nothing
  simp only [s9pTarget] at h
  generalize (if c = .big then min policy.max (bigCapFor busy) else policy.max) = maximum at h
  split at h
  · exact hret h
  · split at h
    · exact hret h
    · split at h
      · exact hret h
      · split at h
        · exact hret h
        · exact switchTo_tells h

end Tells

end S9p.Cpufreq

namespace S9p.G3d

open Acpm (Forwards forwards_nothing PassedOn passedOn_none passedOn_some)
open Device

/-! ## 2. The PMIC operations of a call of `s9p-g3d`

The definitions are those of section 1 once more, over the operations of this driver.  Here the same
write may be made again, and a PMIC read counts as an operation as well. -/

/-- The result of a PMIC operation. -/
def code : Sigma Ans → Option Int
  | ⟨.pmicWrite _ _, ret⟩ => some ret
  | ⟨.pmicRead _, x⟩ => some x.1
  | _ => none

/-- Once a register is written the clock changes. -/
def switches : Op → Bool
  | .wr _ _ _ => true
  | _ => false

/-- The same write is made a second time. -/
def again : Sigma Ans → Sigma Ans → Bool
  | ⟨.pmicWrite reg val, _⟩, ⟨.pmicWrite reg' val', _⟩ => reg = reg' && val = val'
  | _, _ => false

/-- What the PMIC operations of a call have returned. -/
def results (tr : List (Sigma Ans)) : List Int := Prog.readings again code tr

/-- What the last one before the clock changes has returned. -/
def forwarded (tr : List (Sigma Ans)) : Option Int := Prog.lastBefore switches code tr

/-- What those after that have returned. -/
def lowered (tr : List (Sigma Ans)) : List Int := Prog.readingsBehind switches again code tr

/-- No PMIC operation of the call has succeeded. -/
def Refused (tr : List (Sigma Ans)) : Prop := ∀ d ∈ tr, code d ≠ some 0

/-- The call has ended with registering the clock, and that has failed. -/
def Unpublished (tr : List (Sigma Ans)) : Prop :=
  ∃ what, ∃ ret < 0, tr.getLast? = some ⟨.kernel what, ret⟩

/-- A call that passes on what comes before the clock change, and drops what comes after. -/
def Tells (tr : List (Sigma Ans)) (ret : Int) : Prop :=
  Forwards (results tr) (forwarded tr) (lowered tr) ret

section Tells

variable {tr tr₁ tr₂ : List (Sigma Ans)} {d : Sigma Ans} {ret : Int} {st : Step}

/-- Only a write is made again. -/
theorem again_of_code (d d' : Sigma Ans) (h : code d' = none) : again d d' = false := by
  obtain ⟨o', r'⟩ := d'
  cases o' with
  | pmicWrite reg val => exact absurd h (by simp [code])
  | _ => rcases d with ⟨o, r⟩; cases o <;> rfl

theorem results_append (h : ∀ d ∈ tr₂.head?, code d = none) :
    results (tr₁ ++ tr₂) = results tr₁ ++ results tr₂ := Prog.readings_append again_of_code h

/-- A trace without an operation of the PMIC. -/
theorem results_silent (h : ∀ d ∈ tr, code d = none) : results tr = [] := Prog.readings_silent h

theorem forwarded_cons (h : switches d.1 = false) :
    forwarded (d :: tr) = (forwarded tr).or (code d) := Prog.lastBefore_cons h

theorem forwarded_append (h : ∀ d ∈ tr₁, switches d.1 = false) :
    forwarded (tr₁ ++ tr₂) = (forwarded tr₂).or (forwarded tr₁) := Prog.lastBefore_append h

/-- Operations that read no code and change no clock do not count. -/
theorem forwarded_quiet (h : switches d.1 = false) (hd : code d = none) :
    forwarded (d :: tr) = forwarded tr := by
  rw [forwarded_cons h, hd, Option.or_none]

theorem forwarded_append_none (h : forwarded tr₂ = none) :
    forwarded (tr₁ ++ tr₂) = forwarded tr₁ := Prog.lastBefore_append_none h

theorem lowered_append (h : ∀ d ∈ tr₁, switches d.1 = false) :
    lowered (tr₁ ++ tr₂) = lowered tr₂ := Prog.readingsBehind_append h

theorem lowered_still (h : ∀ d ∈ tr, switches d.1 = false) : lowered tr = [] :=
  Prog.readingsBehind_still h

theorem tells_quiet (h : switches d.1 = false) (hd : code d = none) :
    Tells (d :: tr) ret ↔ Tells tr ret := by
  rw [Tells, Tells, results, Prog.readings_quiet hd, lowered, Prog.readingsBehind_quiet h,
    forwarded_quiet h hd, results, lowered]

/-- Nothing of the PMIC and nothing of the clock. -/
def Calm (tr : List (Sigma Ans)) : Prop := ∀ d ∈ tr, switches d.1 = false ∧ code d = none

theorem Calm.still (h : Calm tr) : ∀ d ∈ tr, switches d.1 = false := fun d hd => (h d hd).1

theorem Calm.silent (h : Calm tr) : ∀ d ∈ tr, code d = none := fun d hd => (h d hd).2

theorem Calm.forwarded (h : Calm tr) : forwarded tr = none := Prog.lastBefore_quiet h.silent

/-- What is calm does not count, wherever it stands: in front ... -/
theorem Calm.before (h : Calm tr₁) (tr₂ : List (Sigma Ans)) :
    G3d.results (tr₁ ++ tr₂) = G3d.results tr₂ ∧
      G3d.forwarded (tr₁ ++ tr₂) = G3d.forwarded tr₂ ∧
      G3d.lowered (tr₁ ++ tr₂) = G3d.lowered tr₂ := by
  refine ⟨?_, ?_, lowered_append h.still⟩
  · induction tr₁ with
    | nil => rfl
    | cons d tr₁ ih =>
      rw [List.cons_append, results, Prog.readings_quiet (h d List.mem_cons_self).2, ← results]
      exact ih (fun d hd => h d (List.mem_cons_of_mem _ hd))
  · rw [forwarded_append h.still, h.forwarded, Option.or_none]

/-- ... and at the end. -/
theorem Calm.behind (h : Calm tr₂) (tr₁ : List (Sigma Ans)) :
    G3d.results (tr₁ ++ tr₂) = G3d.results tr₁ ∧
      G3d.forwarded (tr₁ ++ tr₂) = G3d.forwarded tr₁ ∧
      G3d.lowered (tr₁ ++ tr₂) = G3d.lowered tr₁ := by
  have hhead : ∀ d ∈ tr₂.head?, code d = none := fun d hd => h.silent d (List.mem_of_mem_head? hd)
  have hresults : ∀ tr, G3d.results (tr ++ tr₂) = G3d.results tr := fun tr => by
    rw [results_append hhead, results_silent h.silent, List.append_nil]
  refine ⟨hresults tr₁, forwarded_append_none h.forwarded, ?_⟩
  by_cases hstill : ∀ d ∈ tr₁, switches d.1 = false
  · rw [lowered_append hstill, lowered_still hstill, lowered_still h.still]
  · rw [lowered, Prog.readingsBehind, List.dropWhile_append, if_neg, ← results, hresults]
    · rfl
    · rw [List.isEmpty_iff, List.dropWhile_eq_nil_iff]
      simpa using hstill

theorem Tells.behind (hcalm : Calm tr₂) (h : Tells tr₁ ret) : Tells (tr₁ ++ tr₂) ret := by
  obtain ⟨hresults, hforwarded, hlowered⟩ := hcalm.behind tr₁
  rw [Tells, hresults, hforwarded, hlowered]
  exact h

/-- A call without a PMIC operation. -/
theorem tells_calm (h : Calm tr) : Tells tr ret := by
  rw [Tells, results_silent h.silent, h.forwarded, lowered_still h.still]
  exact forwards_nothing

/-- One PMIC operation, and its result is that of the call. -/
theorem tells_one (hcode : code d = some ret) (hd : switches d.1 = false) : Tells [d] ret := by
  have hforwarded : forwarded [d] = some ret := (forwarded_cons hd).trans hcode
  have hresults : results [d] = [ret] := by
    rw [results, Prog.readings_once (by simp), hcode]
    rfl
  rw [Tells, hforwarded, hresults, lowered_still (by simpa using hd)]
  exact ⟨passedOn_some rfl, by simp [eq_comm], by simp⟩

/-- One write to the PMIC, and nothing of weight behind it. -/
theorem tells_write {val : BitVec 8} (hcalm : Calm tr) :
    Tells (⟨.pmicWrite G3D_BUCK6_REG val, ret⟩ :: tr) ret := by
  have hone : Tells [⟨.pmicWrite G3D_BUCK6_REG val, ret⟩] ret := tells_one rfl rfl
  exact hone.behind hcalm

/-- A first part whose result is 0 or that makes no PMIC operation, and one that begins with a
register write and returns 0 if it makes any. -/
theorem tells_switch (hstill : ∀ d ∈ tr₁, switches d.1 = false) (hfirst : Tells tr₁ 0)
    (hd : switches d.1 = true) (hrest : ∀ c ∈ results (d :: tr₂), ret = 0) :
    Tells (tr₁ ++ d :: tr₂) ret := by
  have hcode : code d = none := by
    obtain ⟨o, r⟩ := d
    cases o with
    | wr w reg v => rfl
    | _ => exact absurd hd (by simp [switches])
  have hforwarded : forwarded (d :: tr₂) = none := by
    simp [forwarded, Prog.lastBefore, hd]
  have hresults : results (tr₁ ++ d :: tr₂) = results tr₁ ++ results (d :: tr₂) :=
    results_append (by simpa using hcode)
  have hlowered : lowered (tr₁ ++ d :: tr₂) = results (d :: tr₂) := by
    rw [lowered_append hstill]
    exact Prog.readingsBehind_stop hd
  have hbefore : ∀ c, c ≠ 0 → (c ∈ results tr₁ ↔ forwarded tr₁ = some c) := fun c hne => by
    have := hfirst.results_iff c hne
    rwa [lowered_still hstill, List.mem_nil_iff, or_false] at this
  refine ⟨?_, fun c hne => ?_, fun c hc => ?_⟩
  · rw [forwarded_append_none hforwarded]
    exact fun c hc hne => absurd (hfirst.passed c hc hne).symm hne
  · rw [hresults, forwarded_append_none hforwarded, hlowered, List.mem_append, hbefore c hne]
  · rw [hlowered] at hc
    exact hrest c hc

/-! ### `s9p_g3d_set_pll` and its callers

Up to the relock every code is handed on as it is.  What lowers the voltage behind it is not looked
at. -/

theorem raise_tells {up : Bool} (h : (raise st up).Path tr ret) :
    (∀ d ∈ tr, switches d.1 = false) ∧ Tells tr ret := by
  simp only [raise, get, pmicWrite, Prog.perform_bind] at h
  obtain ⟨k, rest, rfl, h₁⟩ := Prog.path_op.mp h
  rw [tells_quiet rfl rfl]
  split at h₁
  · obtain ⟨r, rest₁, rfl, h₂⟩ := Prog.path_op.mp h₁
    obtain ⟨rfl, rfl⟩ := Prog.path_ret.mp h₂
    exact ⟨by simp [switches], tells_one rfl rfl⟩
  · obtain ⟨rfl, rfl⟩ := Prog.path_ret.mp h₁
    exact ⟨by simp [switches], tells_calm (by simp [Calm])⟩

/-- The registers of the PLL have no code. -/
theorem regOp_silent {α : Type} {p : P α} {a : α} (hp : p.Uses RegOp) (h : p.Path tr a) :
    ∀ d ∈ tr, code d = none := by
  intro d hd
  have hop : RegOp d.1 := h.uses hp d hd
  obtain ⟨o, r⟩ := d
  cases o with
  | rd w reg => rfl
  | poll w reg mask set => rfl
  | wr w reg v => rfl
  | _ => exact hop.elim

/-- **`s9p_g3d_set_pll`** passes on the write that raises the rail, and drops the one that lowers
it. -/
theorem setPll_tells (h : (setPll st).Path tr ret) : Tells tr ret := by
  simp only [setPll, mark, rd, get, assign, Prog.perform_bind] at h
  obtain ⟨_, rest₁, rfl, h₁⟩ := Prog.path_op.mp h
  obtain ⟨oldCon0, rest₂, rfl, h₂⟩ := Prog.path_op.mp h₁
  obtain ⟨oldLocktime, rest₃, rfl, h₃⟩ := Prog.path_op.mp h₂
  obtain ⟨k, rest₄, rfl, h₄⟩ := Prog.path_op.mp h₃
  obtain ⟨raised, tr₁, rest₅, rfl, hraise, h₅⟩ := Prog.path_bind.mp h₄
  obtain ⟨hstill, hraised⟩ := raise_tells hraise
  rw [tells_quiet rfl rfl, tells_quiet rfl rfl, tells_quiet rfl rfl, tells_quiet rfl rfl]
  split at h₅
  · obtain ⟨rfl, rfl⟩ := Prog.path_ret.mp h₅
    rw [List.append_nil]
    exact hraised
  · rename_i hdone
    obtain rfl : raised = 0 := not_not.mp hdone
    obtain ⟨switched, tr₂, rest₆, rfl, hrelock, h₆⟩ := Prog.path_bind.mp h₅
    have hsilent := regOp_silent (uses_relock st) hrelock
    -- the relock begins with a write
    simp only [relock, wr, Prog.perform_bind] at hrelock
    obtain ⟨_, tr₃, rfl, -⟩ := Prog.path_op.mp hrelock
    rw [List.cons_append]
    refine tells_switch hstill hraised rfl (fun c hc => ?_)
    -- a failed relock is rolled back, which makes no PMIC operation either
    by_cases hswitched : switched = 0
    · rw [if_neg (not_not.mpr hswitched)] at h₆
      obtain ⟨_, rest₇, rfl, h₇⟩ := Prog.path_op.mp h₆
      obtain ⟨_, rest₈, tr₉, rfl, -, h₈⟩ := Prog.path_bind.mp h₇
      exact (Prog.path_ret.mp h₈).2
    · rw [if_pos hswitched] at h₆
      obtain ⟨failed, tr₄, rest₇, rfl, hrollback, h₇⟩ := Prog.path_bind.mp h₆
      have hback := regOp_silent (uses_rollback oldCon0 oldLocktime) hrollback
      have hend : ∀ d ∈ rest₇, code d = none := by
        split at h₇
        · obtain ⟨_, _, rfl, h₈⟩ := Prog.path_op.mp h₇
          obtain ⟨rfl, -⟩ := Prog.path_ret.mp h₈
          simp [code]
        · obtain ⟨rfl, -⟩ := Prog.path_ret.mp h₇
          simp
      rw [results_silent] at hc
      · exact absurd hc (by simp)
      · intro d hd
        rw [← List.cons_append, List.mem_append, List.mem_append] at hd
        rcases hd with hd | hd | hd
        · exact hsilent d hd
        · exact hback d hd
        · exact hend d hd

theorem apply_tells (h : apply.Path tr ret) : Tells tr ret := by
  simp only [apply, mark, get, pllIs, rd, assign, Prog.perform_bind, Prog.op_bind,
    Prog.pure_eq_ret, Prog.ret_bind] at h
  obtain ⟨_, rest₁, rfl, h₁⟩ := Prog.path_op.mp h
  obtain ⟨k, rest₂, rfl, h₂⟩ := Prog.path_op.mp h₁
  rw [tells_quiet rfl rfl, tells_quiet rfl rfl]
  split at h₂
  · obtain ⟨rfl, rfl⟩ := Prog.path_ret.mp h₂
    exact forwards_nothing
  · obtain ⟨v, rest₃, rfl, h₃⟩ := Prog.path_op.mp h₂
    rw [tells_quiet rfl rfl]
    split at h₃
    · obtain ⟨_, rest₄, rfl, h₄⟩ := Prog.path_op.mp h₃
      obtain ⟨rfl, rfl⟩ := Prog.path_ret.mp h₄
      exact tells_calm (by simp [Calm, switches, code])
    · exact setPll_tells h₃

/-- `s9p_g3d_apply` and the end of the call. -/
theorem applyRelease_tells
    (h : (apply >>= fun ret => .op .mutexUnlock fun _ => (.ret ret : P Int)).Path tr ret) :
    Tells tr ret := by
  obtain ⟨r, tr₁, rest, rfl, happly, h₁⟩ := Prog.path_bind.mp h
  obtain ⟨_, _, rfl, h₂⟩ := Prog.path_op.mp h₁
  obtain ⟨rfl, rfl⟩ := Prog.path_ret.mp h₂
  exact (apply_tells happly).behind (by simp [Calm, switches, code])

theorem clkSet_tells {rate : Nat} (h : (clkSet rate).Path tr ret) : Tells tr ret := by
  simp only [clkSet, request, get, mutexLock, mutexUnlock, assign, Prog.perform_bind] at h
  obtain ⟨k, rest₁, rfl, h₁⟩ := Prog.path_op.mp h
  rw [tells_quiet rfl rfl]
  split at h₁
  · obtain ⟨rfl, rfl⟩ := Prog.path_ret.mp h₁
    exact forwards_nothing
  · obtain ⟨_, rest₂, rfl, h₂⟩ := Prog.path_op.mp h₁
    obtain ⟨_, rest₃, rfl, h₃⟩ := Prog.path_op.mp h₂
    rw [tells_quiet rfl rfl, tells_quiet rfl rfl]
    exact applyRelease_tells h₃

theorem maxSet_tells {val : Except Int Nat} (h : (maxSet val).Path tr ret) : Tells tr ret := by
  cases val with
  | error e =>
    obtain ⟨rfl, rfl⟩ := Prog.path_ret.mp h
    exact forwards_nothing
  | ok khz =>
    simp only [maxSet, get, mutexLock, mutexUnlock, assign, Prog.perform_bind] at h
    obtain ⟨_, rest₁, rfl, h₁⟩ := Prog.path_op.mp h
    obtain ⟨_, rest₂, rfl, h₂⟩ := Prog.path_op.mp h₁
    obtain ⟨k, rest₃, rfl, h₃⟩ := Prog.path_op.mp h₂
    rw [tells_quiet rfl rfl, tells_quiet rfl rfl, tells_quiet rfl rfl]
    split at h₃
    · exact applyRelease_tells h₃
    · obtain ⟨_, _, rfl, h₄⟩ := Prog.path_op.mp h₃
      obtain ⟨rfl, rfl⟩ := Prog.path_ret.mp h₄
      exact tells_calm (by simp [Calm, switches, code])

/-! ### The parameters of the rail

Each of them asks the PMIC once at the most. -/

/-- A store returns what the PMIC has said, where it has been asked. -/
theorem stepVoltSet_tells {val : Except Int Bool} (h : (stepVoltSet val).Path tr ret) :
    Tells tr ret ∧ lowered tr = [] := by
  have hcalm : ∀ {tr : List (Sigma Ans)}, Calm tr → Tells tr ret ∧ lowered tr = [] := fun h =>
    ⟨tells_calm h, lowered_still h.still⟩
  cases val with
  | error e =>
    obtain ⟨rfl, rfl⟩ := Prog.path_ret.mp h
    exact hcalm (by simp [Calm])
  | ok enable =>
    simp only [stepVoltSet, get, mutexLock, mutexUnlock, assign, pmicWrite, Prog.perform_bind] at h
    obtain ⟨_, rest₁, rfl, h₁⟩ := Prog.path_op.mp h
    obtain ⟨k, rest₂, rfl, h₂⟩ := Prog.path_op.mp h₁
    split at h₂
    · split at h₂
      · obtain ⟨_, _, rfl, h₃⟩ := Prog.path_op.mp h₂
        obtain ⟨rfl, rfl⟩ := Prog.path_ret.mp h₃
        exact hcalm (by simp [Calm, switches, code])
      · obtain ⟨r, rest₃, rfl, h₃⟩ := Prog.path_op.mp h₂
        rw [tells_quiet rfl rfl, tells_quiet rfl rfl]
        split at h₃
        · obtain ⟨_, _, rfl, h₄⟩ := Prog.path_op.mp h₃
          obtain ⟨rfl, rfl⟩ := Prog.path_ret.mp h₄
          exact ⟨tells_write (by simp [Calm, switches, code]), lowered_still (by simp [switches])⟩
        · rename_i hdone
          obtain rfl : r = 0 := not_not.mp hdone
          obtain ⟨_, _, rfl, h₄⟩ := Prog.path_op.mp h₃
          obtain ⟨_, _, rfl, h₅⟩ := Prog.path_op.mp h₄
          obtain ⟨rfl, rfl⟩ := Prog.path_ret.mp h₅
          exact ⟨tells_write (by simp [Calm, switches, code]), lowered_still (by simp [switches])⟩
    · obtain ⟨_, _, rfl, h₃⟩ := Prog.path_op.mp h₂
      obtain ⟨_, _, rfl, h₄⟩ := Prog.path_op.mp h₃
      obtain ⟨rfl, rfl⟩ := Prog.path_ret.mp h₄
      exact hcalm (by simp [Calm, switches, code])

/-- A positive number comes from the PMIC. -/
theorem stepVoltSet_asked {enable : Bool} (h : (stepVoltSet (.ok enable)).Path tr ret)
    (hret : 0 < ret) : forwarded tr = some ret := by
  simp only [stepVoltSet, get, mutexLock, mutexUnlock, assign, pmicWrite, Prog.perform_bind] at h
  obtain ⟨_, rest₁, rfl, h₁⟩ := Prog.path_op.mp h
  obtain ⟨k, rest₂, rfl, h₂⟩ := Prog.path_op.mp h₁
  rw [forwarded_quiet rfl rfl, forwarded_quiet rfl rfl]
  split at h₂
  · split at h₂
    · obtain ⟨_, _, rfl, h₃⟩ := Prog.path_op.mp h₂
      obtain ⟨rfl, rfl⟩ := Prog.path_ret.mp h₃
      exact absurd hret (by decide)
    · obtain ⟨r, rest₃, rfl, h₃⟩ := Prog.path_op.mp h₂
      split at h₃
      · obtain ⟨_, _, rfl, h₄⟩ := Prog.path_op.mp h₃
        obtain ⟨rfl, rfl⟩ := Prog.path_ret.mp h₄
        rfl
      · obtain ⟨_, _, rfl, h₄⟩ := Prog.path_op.mp h₃
        obtain ⟨_, _, rfl, h₅⟩ := Prog.path_op.mp h₄
        exact absurd ((Prog.path_ret.mp h₅).2 ▸ hret) (by decide)
  · obtain ⟨_, _, rfl, h₃⟩ := Prog.path_op.mp h₂
    obtain ⟨_, _, rfl, h₄⟩ := Prog.path_op.mp h₃
    exact absurd ((Prog.path_ret.mp h₄).2 ▸ hret) (by decide)

/-- What the read of `rail_uv` returns: an error code, or how many characters it has printed. -/
def printed : Except Int Nat → Int
  | .error ret => ret
  | .ok uv => (Nat.toDigits 10 uv).length + 1

theorem railUvGet_tells (h : (railUvGet >>= fun x => pure (printed x)).Path tr ret) :
    Tells tr ret := by
  simp only [railUvGet, mutexLock, mutexUnlock, pmicRead, Prog.perform_bind, Prog.op_bind,
    Prog.pure_eq_ret, Prog.ret_bind] at h
  obtain ⟨_, rest₁, rfl, h₁⟩ := Prog.path_op.mp h
  obtain ⟨x, rest₂, rfl, h₂⟩ := Prog.path_op.mp h₁
  obtain ⟨_, rest₃, rfl, h₃⟩ := Prog.path_op.mp h₂
  obtain ⟨rfl, rfl⟩ := Prog.path_ret.mp h₃
  have hone : Tells [⟨.pmicRead G3D_BUCK6_REG, x⟩] x.1 := tells_one rfl rfl
  rw [tells_quiet rfl rfl]
  refine Tells.behind (by simp [Calm, switches, code])
    (?_ : Tells [⟨.pmicRead G3D_BUCK6_REG, x⟩] _)
  refine ⟨fun c hc hne => ?_, hone.results_iff, ?_⟩
  · obtain rfl : x.1 = c := Option.some.inj hc
    rw [if_pos hne]
    rfl
  · rw [lowered_still (by simp [switches])]
    simp

/-! ## 3. The probe

The probe is the only caller that tries again, and the only one that makes something else of the
code it gets: it asks to be put off while attempts are left. -/

/-- What the retries leave behind: the clock is not changed, the result is the code of the last
write, and it is 0 where one of them has succeeded. -/
structure Retried (tr : List (Sigma Ans)) (ret : Int) : Prop where
  still : ∀ d ∈ tr, switches d.1 = false
  last : forwarded tr = some ret
  one : results tr = [ret]
  refused : ret ≠ 0 → Refused tr

theorem Retried.acked (h : Retried tr 0) : ¬ Refused tr := fun hrefused => by
  obtain ⟨d, hd, hcode⟩ := Prog.mem_of_lastBefore h.last
  exact hrefused d hd hcode

theorem retried_one {val : BitVec 8} : Retried [⟨.pmicWrite G3D_BUCK6_REG val, ret⟩] ret := by
  refine ⟨fun d hd => ?_, rfl, rfl, fun hret d hd => ?_⟩
  · obtain rfl := List.mem_singleton.mp hd
    rfl
  · obtain rfl := List.mem_singleton.mp hd
    exact fun hcode => hret (Option.some.inj hcode)

/-- The writes before the last one are made again. -/
theorem Retried.again {val : BitVec 8} {r r' : Int} (hr : r ≠ 0)
    (h : Retried (⟨.pmicWrite G3D_BUCK6_REG val, r'⟩ :: tr) ret) :
    Retried (⟨.pmicWrite G3D_BUCK6_REG val, r⟩ :: ⟨.pmicWrite G3D_BUCK6_REG val, r'⟩ :: tr)
      ret := by
  refine ⟨List.forall_mem_cons.mpr ⟨rfl, h.still⟩, ?_, ?_, fun hret => ?_⟩
  · rw [forwarded_cons rfl, h.last]
    rfl
  · rw [results, Prog.readings, if_pos (by simp [G3d.again]), ← results, h.one]
    rfl
  · exact List.forall_mem_cons.mpr ⟨fun hcode => hr (Option.some.inj hcode), h.refused hret⟩

theorem railWrite_retried : ∀ {polls : Nat} {ret₀ : Int} {tr : List (Sigma Ans)},
    (railWrite (polls + 1) ret₀).Path tr ret →
      (∃ r rest, tr = ⟨.pmicWrite G3D_BUCK6_REG G3D_VSEL_950MV, r⟩ :: rest) ∧ Retried tr ret
  | polls, ret₀, tr, h => by
    simp only [railWrite, pmicWrite, Prog.perform_bind] at h
    obtain ⟨r, rest, rfl, h₁⟩ := Prog.path_op.mp h
    refine ⟨⟨r, rest, rfl⟩, ?_⟩
    split at h₁
    · rename_i hdone
      obtain ⟨rfl, rfl⟩ := Prog.path_ret.mp h₁
      exact hdone ▸ retried_one
    · rename_i hagain
      cases polls with
      | zero =>
        obtain ⟨rfl, rfl⟩ := Prog.path_ret.mp h₁
        exact retried_one
      | succ polls =>
        obtain ⟨⟨r', rest', rfl⟩, hrest⟩ := railWrite_retried h₁
        exact hrest.again hagain

theorem calm_of_uses {α : Type} {p : P α} {a : α} {A : Op → Prop}
    (hA : ∀ d : Sigma Ans, A d.1 → switches d.1 = false ∧ code d = none) (hp : p.Uses A)
    (h : p.Path tr a) : Calm tr := fun d hd => hA d (h.uses hp d hd)

theorem Calm.refused (h : Calm tr) : Refused tr := fun d hd => by
  rw [(h d hd).2]
  simp

theorem refused_append : Refused (tr₁ ++ tr₂) ↔ Refused tr₁ ∧ Refused tr₂ :=
  List.forall_mem_append

/-- No PMIC operation of a probe that has seen `n` failed attempts has succeeded: it is put off, or
returns the code of the last one. -/
structure PutOff (n : Nat) (tr : List (Sigma Ans)) (ret : Int) : Prop where
  refused : Refused tr
  results_iff : ∀ c, c ∈ results tr ↔ forwarded tr = some c
  lowered : lowered tr = []
  code : ∀ c, forwarded tr = some c →
    c ≠ 0 ∧ ret = if n + 1 < G3D_RAIL_ATTEMPTS then -EPROBE_DEFER else c

/-- What a probe makes of its PMIC operations: no write has succeeded, or one has and the deferred
clock change has failed, or it goes on to register the clock.  The three ways differ in which code
the caller gets to see. -/
inductive Probed (n : Nat) (tr : List (Sigma Ans)) (ret : Int) : Prop
  | putOff (h : PutOff n tr ret)
  | failed (hacked : ¬ Refused tr) (h : Tells tr ret) (hret : ret ≠ 0)
  | published (hacked : ¬ Refused tr) (h : Tells tr 0) (hret : ret < 0 ↔ Unpublished tr)

variable {ok : Gpu → (o : Op) → Luck → Bool} {s t : Gpu}

/-- **Retries in vain**: what follows them does no more than decide on the result. -/
theorem Retried.putOff {n : Nat} {r : Int} (h : Retried tr₁ r) (hr : r ≠ 0) (hcalm : Calm tr₂)
    (hret : ret = if n + 1 < G3D_RAIL_ATTEMPTS then -EPROBE_DEFER else r) :
    PutOff n (tr₁ ++ tr₂) ret := by
  obtain ⟨hresults, hforwarded, hlowered⟩ := hcalm.behind tr₁
  refine ⟨refused_append.mpr ⟨h.refused hr, hcalm.refused⟩, fun c => ?_,
    hlowered.trans (lowered_still h.still), fun c hc => ?_⟩
  · rw [hresults, hforwarded, h.one, h.last, List.mem_singleton, Option.some.injEq, eq_comm]
  · rw [hforwarded, h.last] at hc
    obtain rfl := Option.some.inj hc
    exact ⟨hr, hret⟩

/-- **Retries with success**: the write that has succeeded at last is one more result, and it is
0. -/
theorem Retried.tells (h : Retried tr₁ 0) (hrest : Tells tr₂ ret)
    (hhead : ∀ d ∈ tr₂.head?, code d = none) : Tells (tr₁ ++ tr₂) ret := by
  refine ⟨fun c hc hne => ?_, fun c hne => ?_, fun c hc => ?_⟩
  · rw [forwarded_append h.still, h.last] at hc
    rcases Option.or_eq_some_iff.mp hc with hc | ⟨-, hzero⟩
    · exact hrest.passed c hc hne
    · exact absurd (Option.some.inj hzero).symm hne
  · rw [results_append hhead, h.one, forwarded_append h.still, h.last, lowered_append h.still,
      List.mem_append, hrest.results_iff c hne, Option.or_eq_some_iff, List.mem_singleton,
      Option.some.injEq]
    constructor
    · rintro (hc | hc | hc)
      · exact absurd hc hne
      · exact .inl (.inl hc)
      · exact .inr hc
    · rintro ((hc | ⟨-, hc⟩) | hc)
      · exact .inr (.inl hc)
      · exact absurd hc.symm hne
      · exact .inr (.inr hc)
  · rw [lowered_append h.still] at hc
    exact hrest.dropped c hc

theorem railUp_probed (h : block.Runs ok railUp s tr ret t) :
    PutOff s.vars.attempts tr ret ∧ ret ≠ 0 ∨ (¬ Refused tr ∧ Tells tr ret) := by
  simp only [railUp, get, assign, mutexLock, mutexUnlock, Prog.perform_bind] at h
  obtain ⟨written, u, tr₁, tr₂, rfl, hwrite, h₁⟩ := runs_bind h
  obtain ⟨-, hretried⟩ : _ ∧ Retried tr₁ written := railWrite_retried hwrite.path
  have hvars : u.vars = s.vars := hwrite.post (wp_railWrite_vars rfl)
  split at h₁
  · rename_i hfailed
    cases h₁ with
    | @op _ _ _ v _ _ k _ _ l hst _ hact hrest =>
      have hv : v.vars = s.vars := (stable_vars s.vars).drift hst hvars
      have hk : k = s.vars := by
        simp only [block, act, Option.some.injEq, Prod.mk.injEq] at hact
        exact hact.1.symm.trans hv
      subst hk
      obtain ⟨_, rest₁, rfl, h₂⟩ := Prog.path_op.mp hrest.path
      have hend : rest₁ = [] ∧ ret = if s.vars.attempts + 1 < G3D_RAIL_ATTEMPTS then
          -EPROBE_DEFER else written := by
        split at h₂
        · rename_i hdefer
          rw [if_pos hdefer]
          exact Prog.path_ret.mp h₂
        · rename_i hdefer
          rw [if_neg hdefer]
          exact Prog.path_ret.mp h₂
      obtain ⟨rfl, hret⟩ := hend
      have hcalm : Calm [⟨.get, s.vars⟩, ⟨.assign (.attempts (s.vars.attempts + 1)), ()⟩] := by
        simp [Calm, switches, code]
      refine .inl ⟨hretried.putOff hfailed hcalm hret, ?_⟩
      rw [hret]
      split
      · decide
      · exact hfailed
  · rename_i hdone
    obtain rfl : written = 0 := by simpa using hdone
    obtain ⟨_, rest₁, rfl, h₂⟩ := Prog.path_op.mp h₁.path
    obtain ⟨_, rest₂, rfl, h₃⟩ := Prog.path_op.mp h₂
    have happly : Tells (⟨.assign .railSet, ()⟩ :: ⟨.mutexLock, ()⟩ :: rest₂) ret := by
      rw [tells_quiet rfl rfl, tells_quiet rfl rfl]
      exact applyRelease_tells h₃
    exact .inr ⟨fun hrefused => hretried.acked (refused_append.mp hrefused).1,
      hretried.tells happly (by simp [code])⟩

theorem mapOp_calm {d : Sigma Ans} (h : MapOp d.1) : switches d.1 = false ∧ code d = none := by
  match d, h with
  | ⟨.get, _⟩, _ | ⟨.ioremap, _⟩, _ | ⟨.assign (.con0 _), _⟩, _ | ⟨.assign (.con2 _), _⟩, _
  | ⟨.assign (.locktime _), _⟩, _ | ⟨.assign (.curKhz _), _⟩, _
  | ⟨.rd .g3d _, _⟩, _ => exact ⟨rfl, rfl⟩

/-- The mappings leave the count of the attempts alone. -/
theorem wp_mapWindows_attempts {n : Nat} (hs : s.vars.attempts = n) :
    wp block ok (fun _ _ => True) mapWindows (fun _ t => t.vars.attempts = n) s := by
  have hI : block.Stable (fun t => t.vars.attempts = n) :=
    stable_still (fun t => t.vars.attempts = n)
  refine wp_of_uses hI (fun o ho l u r v hu _ hact => ?_) (fun _ _ _ _ => trivial)
    (fun _ _ => trivial) uses_mapWindows hs
  have hc := act_changes hact
  match o, ho with
  | .get, _ | .ioremap, _ | .assign (.con0 _), _ | .assign (.con2 _), _ | .assign (.locktime _), _
  | .assign (.curKhz _), _ | .rd .g3d _, _ => exact hc.vars ▸ hu

theorem PutOff.before {n : Nat} (hcalm : Calm tr₁) (h : PutOff n tr₂ ret) :
    PutOff n (tr₁ ++ tr₂) ret := by
  obtain ⟨hresults, hforwarded, hlowered⟩ := hcalm.before tr₂
  refine ⟨refused_append.mpr ⟨hcalm.refused, h.refused⟩, fun c => ?_, ?_, fun c hc => ?_⟩
  · rw [hresults, hforwarded]
    exact h.results_iff c
  · rw [hlowered]
    exact h.lowered
  · rw [hforwarded] at hc
    exact h.code c hc

/-- **`s9p_g3d_probe`.** -/
theorem probe_probed (h : block.Runs ok probe s tr ret t) : Probed s.vars.attempts tr ret := by
  simp only [probe, publish, kernel, Prog.perform_bind] at h
  obtain ⟨mapped, u, tr₁, rest₁, rfl, hmap, h₁⟩ := runs_bind h
  have hcalm : Calm tr₁ := calm_of_uses (fun _ => mapOp_calm) uses_mapWindows hmap.path
  have hattempts : u.vars.attempts = s.vars.attempts := hmap.post (wp_mapWindows_attempts rfl)
  -- the mappings do not count
  have hacked : ∀ {tr₂}, ¬ Refused tr₂ → ¬ Refused (tr₁ ++ tr₂) := fun h hrefused =>
    h (refused_append.mp hrefused).2
  have htells : ∀ {tr₂ r}, Tells tr₂ r → Tells (tr₁ ++ tr₂) r := fun {tr₂ r} h => by
    obtain ⟨hresults, hforwarded, hlowered⟩ := hcalm.before tr₂
    rwa [Tells, hresults, hforwarded, hlowered]
  split at h₁
  · obtain ⟨rfl, -⟩ := Prog.path_ret.mp h₁.path
    rw [List.append_nil]
    exact .putOff ⟨hcalm.refused, by simp [results_silent hcalm.silent, hcalm.forwarded],
      lowered_still hcalm.still, by simp [hcalm.forwarded]⟩
  · obtain ⟨up, v, tr₂, rest₂, rfl, hup, h₂⟩ := runs_bind h₁
    have hprobed := railUp_probed hup
    rw [hattempts] at hprobed
    split at h₂
    · rename_i hfailed
      obtain ⟨rfl, rfl⟩ := Prog.path_ret.mp h₂.path
      rw [List.append_nil]
      rcases hprobed with ⟨hputOff, -⟩ | ⟨hack, hrail⟩
      · exact .putOff (hputOff.before hcalm)
      · exact .failed (hacked hack) (htells hrail) (by simpa using hfailed)
    · rename_i hdone
      obtain rfl : up = 0 := by simpa using hdone
      obtain ⟨hack, hrail⟩ := hprobed.resolve_left (fun h => h.2 rfl)
      -- what is left registers the clock, and its failure is the result
      have hlast : Calm rest₂ ∧ (ret < 0 ↔ ∃ what, ∃ r < 0,
          rest₂.getLast? = some ⟨.kernel what, r⟩) ∧ rest₂ ≠ [] := by
        obtain ⟨r, rest₃, rfl, h₃⟩ := Prog.path_op.mp h₂.path
        split at h₃
        · obtain ⟨rfl, rfl⟩ := Prog.path_ret.mp h₃
          exact ⟨by simp [Calm, switches, code], by simp, by simp⟩
        · obtain ⟨r', rest₄, rfl, h₄⟩ := Prog.path_op.mp h₃
          obtain ⟨rfl, rfl⟩ := Prog.path_ret.mp h₄
          exact ⟨by simp [Calm, switches, code], by simp, by simp⟩
      obtain ⟨hquiet, hret, hne⟩ := hlast
      refine .published (hacked (fun h => hack (refused_append.mp h).1))
        (htells (hrail.behind hquiet)) ?_
      rw [hret, Unpublished, ← List.append_assoc, List.getLast?_append_of_ne_nil _ hne]

end Tells

/-! ## 4. The entry points

The property asks for a negative number whatever operation has failed.  The condition is on how the
operations end; it does not mention the result. -/

/-- The functions whose codes leave the driver. -/
inductive Entry where
  | stepVolt (val : Except Int Bool)
  | maxKhz (val : Except Int Nat)
  | railUv
  | setRate (rate : Nat)
  | probe

def Entry.program : Entry → P Int
  | .stepVolt val => stepVoltSet val
  | .maxKhz val => maxSet val
  | .railUv => railUvGet >>= fun x => pure (printed x)
  | .setRate rate => clkSet rate
  | .probe => G3d.probe

section Entries

variable {e : Entry} {s t : Gpu} {tr : List (Sigma Ans)} {ret : Int}

/-- A call one of whose PMIC operations has not succeeded returns a negative number, and a failed
store of `step_volt` has changed nothing.  What is asked for is the sign, since that is what the
frameworks above tell an error by. -/
structure Honest (e : Entry) (s : Gpu) (tr : List (Sigma Ans)) (ret : Int) (t : Gpu) : Prop where
  negative : ∀ c ∈ results tr, c ≠ 0 → ret < 0
  stepVolt : ∀ val, e = .stepVolt val → ret ≠ 0 → t.vars.stepVolt = s.vars.stepVolt

/-- How the PMIC operations of a call have to end.  Before the clock changes none is refused with a
firmware code; a probe may be, as long as it is put off.  After it the write that lowers the rail
succeeds; a probe may fail there, if it then cannot register the clock.  It is stated on the answers
of the PMIC, which are inputs of the call, and on where they stand. -/
structure Tellable (e : Entry) (s : Gpu) (tr : List (Sigma Ans)) : Prop where
  before : ∀ c, forwarded tr = some c →
    c ≤ 0 ∨ e = .probe ∧ Refused tr ∧ s.vars.attempts + 1 < G3D_RAIL_ATTEMPTS
  behind : (∀ c ∈ lowered tr, c = 0) ∨ e = .probe ∧ Unpublished tr

theorem wp_stepVoltSet_kept {ok : Gpu → (o : Op) → Luck → Bool} {v : Bool}
    (val : Except Int Bool) (hs : s.vars.stepVolt = v) :
    wp block ok (fun _ _ => True) (stepVoltSet val)
      (fun ret t => ret ≠ 0 → t.vars.stepVolt = v) s := by
  have hI : block.Stable (fun t => t.vars.stepVolt = v) :=
    stable_still (fun t => t.vars.stepVolt = v)
  have hfailed : ∀ {ret : Int} {t : Gpu}, t.vars.stepVolt = v →
      wp block ok (fun _ _ => True) (.op .mutexUnlock (fun _ => .ret ret) : P Int)
        (fun ret t => ret ≠ 0 → t.vars.stepVolt = v) t := fun ht =>
    wp_unlock hI ht (fun _ _ => trivial) (fun _ ht =>
      wp_ret hI ht (fun _ _ => trivial) (fun _ h _ => h))
  have hdone : ∀ {t : Gpu}, wp block ok (fun _ _ => True)
      (.op .mutexUnlock (fun _ => .ret 0) : P Int) (fun ret t => ret ≠ 0 → t.vars.stepVolt = v) t :=
    wp_unlock (stable_still (fun _ => True)) trivial (fun _ _ => trivial) (fun _ _ =>
      wp_ret (stable_still (fun _ => True)) trivial (fun _ _ => trivial)
        (fun _ _ hne => absurd rfl hne))
  cases val with
  | error ret => exact wp_ret hI hs (fun _ _ => trivial) (fun _ h _ => h)
  | ok enable =>
    simp only [stepVoltSet, mutexLock, mutexUnlock, get, pmicWrite, assign, Prog.perform_bind]
    refine wp_lock hI hs (fun _ _ => trivial) (fun t ht => ?_)
    refine wp_get hI ht (fun _ _ => trivial) (fun t ht => ?_)
    split
    · split
      · exact hfailed ht
      · refine wp_pmicWrite hI ht (fun _ _ => trivial) (fun t l buck6 ht _ _ => ?_)
        split
        · exact hfailed ht
        · exact wp_assign hI ht (fun _ _ => trivial) (fun _ _ => hdone)
    · exact wp_assign hI ht (fun _ _ => trivial) (fun _ _ => hdone)

theorem Tells.negative_iff (h : Tells tr ret) (he : e ≠ .probe) :
    (∀ c ∈ results tr, c ≠ 0 → ret < 0) ↔ Tellable e s tr := by
  rw [Forwards.negative_iff h]
  constructor
  · rintro ⟨hbefore, hbehind⟩
    exact ⟨fun c hc => .inl (hbefore c hc), .inl hbehind⟩
  · rintro ⟨hbefore, hbehind⟩
    exact ⟨fun c hc => (hbefore c hc).resolve_right (fun h => he h.1),
      hbehind.resolve_right (fun h => he h.1)⟩

/-- A probe none of whose writes has succeeded is put off, or returns the code of the last one. -/
theorem PutOff.negative_iff (h : PutOff s.vars.attempts tr ret) :
    (∀ c ∈ results tr, c ≠ 0 → ret < 0) ↔ Tellable .probe s tr := by
  have hbehind : (∀ c ∈ G3d.lowered tr, c = 0) ∨ Entry.probe = .probe ∧ Unpublished tr := by
    rw [h.lowered]
    exact .inl (by simp)
  have hiff : (∀ c ∈ results tr, c ≠ 0 → ret < 0) ↔
      ∀ c, forwarded tr = some c → c ≠ 0 → ret < 0 :=
    forall_congr' (fun c => imp_congr (h.results_iff c) Iff.rfl)
  rw [hiff]
  constructor
  · intro hneg
    refine ⟨fun c hc => ?_, hbehind⟩
    obtain ⟨hne, hret⟩ := h.code c hc
    split at hret
    · rename_i hdefer
      exact .inr ⟨rfl, h.refused, hdefer⟩
    · exact .inl (hret ▸ (hneg c hc hne).le)
  · intro htell c hc hne
    obtain ⟨-, hret⟩ := h.code c hc
    split at hret
    · exact hret ▸ by decide
    · rename_i hlate
      have hle := (htell.before c hc).resolve_right (fun h => hlate h.2.2)
      omega

theorem Probed.negative_iff (h : Probed s.vars.attempts tr ret) :
    (∀ c ∈ results tr, c ≠ 0 → ret < 0) ↔ Tellable .probe s tr := by
  cases h with
  | putOff h => exact h.negative_iff
  | failed hacked h hret =>
    rw [Forwards.negative_iff h]
    constructor
    · rintro ⟨hbefore, hbehind⟩
      exact ⟨fun c hc => .inl (hbefore c hc), .inl hbehind⟩
    · rintro ⟨hbefore, -⟩
      -- the clock change has failed, so nothing has been lowered
      exact ⟨fun c hc => (hbefore c hc).resolve_right (fun h => hacked h.2.1),
        fun c hc => absurd (h.dropped c hc) hret⟩
  | published hacked h hret =>
    rw [Forwards.later_iff h, hret]
    constructor
    · rintro (hall | hfailed)
      · exact ⟨fun c hc => .inl (h.succeeded hc).le, .inl hall⟩
      · exact ⟨fun c hc => .inl (h.succeeded hc).le, .inr ⟨rfl, hfailed⟩⟩
    · rintro ⟨-, hall | ⟨-, hfailed⟩⟩
      · exact .inl hall
      · exact .inr hfailed

theorem honest_iff (he : ∀ val, e ≠ .stepVolt val) :
    Honest e s tr ret t ↔ ∀ c ∈ results tr, c ≠ 0 → ret < 0 :=
  ⟨fun h => h.negative, fun h => ⟨h, fun val hval => absurd hval (he val)⟩⟩

end Entries

/-- **All failures are negative exactly where none is a firmware code that is passed on, and none is
dropped.** -/
theorem failures_are_negative_iff (e : Entry) (s t : Gpu) (tr : List (Sigma Ans)) (ret : Int) :
    (∀ q func reg val mask wantVal tm tr x,
      (Acpm.mfdXfer (Acpm.fine q) func reg val mask wantVal tm).Path tr x → Acpm.Reported x) ∧
    (block.Runs (fun _ _ _ => true) e.program s tr ret t →
      (Honest e s tr ret t ↔ Tellable e s tr)) ∧
    ∀ tableTarget c policy busy target relation w tr ret,
      (Cpufreq.s9pTarget tableTarget c policy busy target relation w).Path tr ret →
      ((∀ x ∈ Cpufreq.results tr, x ≠ 0 → ret < 0) ↔
        (∀ x, Cpufreq.forwarded tr = some x → x ≤ 0) ∧ ∀ x ∈ Cpufreq.lowered tr, x = 0) := by
  refine ⟨?_, ?_, ?_⟩
  · intro q func reg val mask wantVal tm tr x h
    exact h.meets Acpm.mfdXfer_reported (fun _ _ => trivial)
  · intro h
    cases e with
    | stepVolt val =>
      rw [← (stepVoltSet_tells h.path).1.negative_iff (by simp)]
      constructor
      · exact fun hh => hh.negative
      · exact fun hneg => ⟨hneg, fun _ _ hret => h.post (wp_stepVoltSet_kept val rfl) hret⟩
    | maxKhz val =>
      rw [honest_iff (by simp)]
      exact (maxSet_tells h.path).negative_iff (by simp)
    | railUv =>
      rw [honest_iff (by simp)]
      exact (railUvGet_tells h.path).negative_iff (by simp)
    | setRate rate =>
      rw [honest_iff (by simp)]
      exact (clkSet_tells h.path).negative_iff (by simp)
    | probe =>
      rw [honest_iff (by simp)]
      exact (probe_probed h).negative_iff
  · intro tableTarget c policy busy target relation w tr ret h
    exact (Cpufreq.s9pTarget_tells h).negative_iff

/-- The block on 572 MHz, the rail at 950 mV and step voltages off. -/
def steady : Gpu := { at572 with vars := { at572.vars with stepVolt := false }, locked := false }

/-- A store of "1\n" to `step_volt` whose write of BUCK6 ends so. -/
def storeWith (pmic : LateReg.Outcome) : List (Env ⊕ Luck) :=
  [.inr prompt, .inr prompt, .inr { prompt with pmic := pmic }, .inr prompt]

theorem runs_storeWith (pmic : LateReg.Outcome)
    (h : (block.play (storeWith pmic) (stepVoltSet (.ok true)) steady).any
      (fun x => decide (x.1 = pmic.ret)) = true) :
    ∃ tr t, block.Runs (fun _ _ _ => true) (Entry.stepVolt (.ok true)).program steady tr
      pmic.ret t := by
  obtain ⟨⟨ret, t⟩, hx, hret⟩ := (Option.any_eq_true _ _).mp h
  obtain ⟨tr, hruns⟩ := runs_of_play (fun _ _ _ => rfl) hx
  obtain rfl : ret = pmic.ret := of_decide_eq_true hret
  exact ⟨tr, t, hruns⟩

/-- An APM that does not answer. -/
theorem failures_are_negative_iff_silent : ∃ tr t,
    block.Runs (fun _ _ _ => true) (Entry.stepVolt (.ok true)).program steady tr (-110) t ∧
      Honest (.stepVolt (.ok true)) steady tr (-110) t := by
  obtain ⟨tr, t, hruns⟩ := runs_storeWith (.failed (-110) false) (by decide +kernel)
  have hpath : (stepVoltSet (.ok true)).Path tr (-110) := hruns.path
  obtain ⟨htells, hlowered⟩ := stepVoltSet_tells hpath
  have htell : Tellable (.stepVolt (.ok true)) steady tr := by
    refine ⟨fun c hc => .inl ?_, .inl (by simp [hlowered])⟩
    by_cases hzero : c = 0
    · exact hzero.le
    · exact htells.passed c hc hzero ▸ by decide
  refine ⟨tr, t, hruns, ?_⟩
  exact ((failures_are_negative_iff (.stepVolt (.ok true)) steady t tr (-110)).2.1 hruns).mpr htell

/-- **The firmware refuses the write with code 2**, and the store of "1\n" returns 2. -/
theorem refused_store_looks_done : ∃ tr t,
    block.Runs (fun _ _ _ => true) (Entry.stepVolt (.ok true)).program steady tr 2 t ∧
      ¬ Honest (.stepVolt (.ok true)) steady tr 2 t := by
  obtain ⟨tr, t, hruns⟩ := runs_storeWith (.failed 2 false) (by decide +kernel)
  refine ⟨tr, t, hruns, fun h => ?_⟩
  have hpath : (stepVoltSet (.ok true)).Path tr 2 := hruns.path
  have hmem : (2 : Int) ∈ results tr :=
    ((stepVoltSet_tells hpath).1.results_iff 2 (by decide)).mpr
      (.inl (stepVoltSet_asked hpath (by decide)))
  exact absurd (h.negative 2 hmem (by decide)) (by decide)

end S9p.G3d
