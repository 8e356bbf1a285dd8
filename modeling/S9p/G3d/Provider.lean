/-
# The three callbacks of the clock

Panfrost's devfreq sees the PLL as a clock: `determine_rate` says which rate a request would get,
`set_rate` sets it, and `recalc_rate` says what the clock runs at.  They answer from different
data: the first from the request alone, the second with the lowest of three requests, the third
from the last rate applied.

* `clock_agrees`: after a `set_rate` that has returned 0 the rate is the one reported, and that
  is the right one, exactly where no other request is lower and the request survives the
  narrowing of its kHz to an `unsigned int`.
* `capped_rate_reported`: under a thermal cap the OPP layer is told a rate the clock has not got.
-/
import S9p.G3d.Requests

namespace S9p.G3d

open Field Device

/-! ## 1. The callbacks

The clock framework calls them in this order: it asks what a request would come to, sets that, and
later asks for the rate. -/

/-- `s9p_g3d_clk_recalc`. -/
def clkRecalc : P Nat := do
  let k ← get
  return k.curKhz * 1000

/-- `s9p_g3d_clk_determine`; the rate in kHz is passed on as an `unsigned int`. -/
def clkDetermine (rate : Nat) : Nat := (stepBelow (rate / 1000 % 2 ^ 32)).khz * 1000

/-- The framework sets the rate it has been told, and asks what has become of it. -/
def setReported (rate : Nat) : P (Int × Nat) := do
  let ret ← clkSet (clkDetermine rate)
  let now ← clkRecalc
  return (ret, now)

/-- `reported` is the highest rate of the table not above `rate`, or the lowest of all.  The two
cases exclude one another, and one of them always holds. -/
structure HighestRate (rate reported : Nat) : Prop where
  stock : ∃ st ∈ steps, reported = st.khz * 1000
  below : (∃ st ∈ steps, st.khz * 1000 ≤ rate) →
    reported ≤ rate ∧ ∀ st ∈ steps, st.khz * 1000 ≤ rate → st.khz * 1000 ≤ reported
  lowest : (∀ st ∈ steps, rate < st.khz * 1000) → ∀ st ∈ steps, reported ≤ st.khz * 1000

/-- No other request is lower than the step; below the lowest step there is nothing. -/
def Uncapped (k : Statics) (st : Step) : Prop :=
  st.khz ≤ k.thermalKhz ∧ st.khz ≤ k.maxKhz ∨ st = lowStep

/-- What is left of the kHz in 32 bits asks for the same step.  A request beyond 4.29 THz is lost in
32 bits; that it still asks for the same step takes that what is left of it is large. -/
def Survives (rate : Nat) : Prop := rate / 1000 < 2 ^ 32 ∨ topStep.khz ≤ rate / 1000 % 2 ^ 32

/-! ## 2. The steps

Two divisions and a narrowing stand between a rate in Hz and a step.  They commute with the choice
of a step except where 32 bits are not enough. -/

/-- The choice of a step, written out. -/
theorem stepBelow_cases (khz : Nat) :
    (572000 ≤ khz ∧ stepBelow khz = topStep) ∨
      (455000 ≤ khz ∧ khz < 572000 ∧ stepBelow khz = midStep) ∨
        (khz < 455000 ∧ stepBelow khz = lowStep) := by
  unfold stepBelow steps
  by_cases htop : 572000 ≤ khz
  · exact .inl ⟨htop, by simp [List.find?, htop, topStep]⟩
  · by_cases hmid : 455000 ≤ khz
    · exact .inr (.inl ⟨hmid, by omega, by simp [List.find?, htop, hmid, midStep]⟩)
    · refine .inr (.inr ⟨by omega, ?_⟩)
      by_cases hlow : 260000 ≤ khz
      · simp [List.find?, htop, hmid, hlow, lowStep]
      · simp [List.find?, htop, hmid, hlow, lowStep]

/-- The steps are told apart by their rate. -/
theorem step_ext {a b : Step} (ha : a ∈ steps) (hb : b ∈ steps) (h : a.khz = b.khz) : a = b := by
  have hall : ∀ a ∈ steps, ∀ b ∈ steps, a.khz = b.khz → a = b := by decide
  exact hall a ha b hb h

/-- A step is what its own rate asks for. -/
theorem stepBelow_khz {st : Step} (hst : st ∈ steps) : stepBelow st.khz = st := by
  have hall : ∀ st ∈ steps, stepBelow st.khz = st := by decide
  exact hall st hst

/-- The rate that is reported asks for the step it is the rate of. -/
theorem stepBelow_reported (rate : Nat) :
    stepBelow (clkDetermine rate / 1000 % 2 ^ 32) = stepBelow (rate / 1000 % 2 ^ 32) := by
  have hsmall : ∀ st ∈ steps, st.khz * 1000 / 1000 % 2 ^ 32 = st.khz := by decide
  have hst := stepBelow_mem (rate / 1000 % 2 ^ 32)
  rw [clkDetermine, hsmall _ hst, stepBelow_khz hst]

/-- **The lowest of three requests is the first one** exactly where no other is lower. -/
theorem target_request {k : Statics} {st : Step} (hst : st ∈ steps) :
    target (k.assign (.reqKhz st.khz)) = st ↔ Uncapped k st := by
  have hrates : topStep.khz = 572000 ∧ midStep.khz = 455000 ∧ lowStep.khz = 260000 :=
    ⟨rfl, rfl, rfl⟩
  have hne : topStep ≠ lowStep ∧ midStep ≠ lowStep ∧ topStep ≠ midStep := by decide
  have hthree : st = topStep ∨ st = midStep ∨ st = lowStep := by
    simpa [steps, topStep, midStep, lowStep] using hst
  simp only [target, Statics.assign, Uncapped]
  rcases stepBelow_cases (min (min st.khz k.thermalKhz) k.maxKhz) with ⟨hk, heq⟩ |
    ⟨hk, hk', heq⟩ | ⟨hk, heq⟩
  all_goals rw [heq]
  all_goals rcases hthree with rfl | rfl | rfl
  all_goals simp only [hne.1, hne.2.1, hne.2.2, hne.1.symm, hne.2.1.symm, hne.2.2.symm, hrates.1,
    hrates.2.1, hrates.2.2, true_iff, false_iff, iff_true, or_false, or_true] at *
  all_goals omega

/-- The step at or below a rate in kHz is the step at or below it in Hz. -/
theorem highestRate_iff {rate : Nat} {st : Step} (hst : st ∈ steps) :
    HighestRate rate (st.khz * 1000) ↔ st = stepBelow (rate / 1000) := by
  have hhighest := highest_stepBelow (rate / 1000)
  have hhz : ∀ st : Step, st.khz * 1000 ≤ rate ↔ st.khz ≤ rate / 1000 := fun st =>
    (Nat.le_div_iff_mul_le (by decide)).symm
  have hscale : ∀ a b : Nat, a * 1000 ≤ b * 1000 ↔ a ≤ b := fun a b => by omega
  constructor
  · intro h
    refine step_ext hst hhighest.stock ?_
    by_cases hsome : ∃ st ∈ steps, st.khz ≤ rate / 1000
    · obtain ⟨hle, hmax⟩ := hhighest.below hsome
      obtain ⟨hle', hmax'⟩ := h.below (by simpa only [hhz] using hsome)
      have h₁ := hmax st hst ((hhz st).mp hle')
      have h₂ := (hscale _ _).mp (hmax' _ hhighest.stock ((hhz _).mpr hle))
      omega
    · have hnone : ∀ st ∈ steps, rate / 1000 < st.khz := by simpa using hsome
      have h₁ := hhighest.lowest hnone st hst
      have h₂ := (hscale _ _).mp
        (h.lowest (fun st hst => by have := hnone st hst; omega) _ hhighest.stock)
      omega
  · rintro rfl
    refine ⟨⟨_, hst, rfl⟩, fun hsome => ?_, fun hnone st' hst' => ?_⟩
    · obtain ⟨hle, hmax⟩ := hhighest.below (by simpa only [hhz] using hsome)
      refine ⟨(hhz _).mpr hle, fun st' hst' hle' => ?_⟩
      exact (hscale _ _).mpr (hmax st' hst' ((hhz _).mp hle'))
    · refine (hscale _ _).mpr (hhighest.lowest (fun st hst => ?_) st' hst')
      have := hnone st hst
      omega

/-- **The rate is right** exactly where its kHz survive the narrowing. -/
theorem highestRate_determine (rate : Nat) :
    HighestRate rate (clkDetermine rate) ↔ Survives rate := by
  rw [clkDetermine, highestRate_iff (stepBelow_mem _)]
  have hrate : topStep.khz = 572000 := rfl
  have hlow : stepBelow (rate / 1000 % 2 ^ 32) = topStep ↔ 572000 ≤ rate / 1000 % 2 ^ 32 := by
    have hne : midStep ≠ topStep ∧ lowStep ≠ topStep := by decide
    rcases stepBelow_cases (rate / 1000 % 2 ^ 32) with ⟨hk, heq⟩ | ⟨hk, hk', heq⟩ | ⟨hk, heq⟩
    · exact iff_of_true heq hk
    · simp only [heq, hne.1, false_iff]
      omega
    · simp only [heq, hne.2, false_iff]
      omega
  unfold Survives
  rw [hrate]
  by_cases hsmall : rate / 1000 < 2 ^ 32
  · rw [Nat.mod_eq_of_lt hsmall]
    exact iff_of_true rfl (.inl hsmall)
  · have htop : stepBelow (rate / 1000) = topStep := by
      rcases stepBelow_cases (rate / 1000) with ⟨-, heq⟩ | ⟨-, hk, -⟩ | ⟨hk, -⟩
      · exact heq
      · omega
      · omega
    rw [htop, hlow]
    exact (or_iff_right hsmall).symm

/-! ## 3. A rate is set and read back

The call is followed under the lock, in a block that is ready: with its rail up, its windows mapped
and the domain powered. -/

section Runs

variable {ok : Gpu → (o : Op) → Luck → Bool} {k : Statics} {s t : Gpu} {rate : Nat}
  {tr : List (Sigma Ans)} {x : Int × Nat}

/-- `s9p_g3d_apply` in a domain that is powered says what the clock runs at. -/
theorem wp_apply_khz (hs : Held k s) (hon : k.domainPowered = true) :
    wp block ok (fun _ _ => True) apply
      (fun ret t => ret = 0 → t.vars.curKhz = (target k).khz) s := by
  have hheld := stable_held k
  simp only [apply, mark, get, assign, pllIs, rd, Prog.perform_bind, Prog.op_bind]
  refine wp_mark hheld hs (fun _ _ => trivial) (fun t _ ht _ => ?_)
  refine wp_get hheld ht (fun _ _ => trivial) (fun t ht => ?_)
  rw [ht.target, ht.powered, hon, if_neg (by decide)]
  refine wp_rd hheld ht (fun _ _ => trivial) (fun t l v ht _ => ?_)
  simp only [Prog.pure_eq_ret, Prog.ret_bind]
  split
  · refine wp_assign hheld ht (fun _ _ => trivial) (fun t _ => ?_)
    exact wp_ret (stable_still (fun t => t.vars.curKhz = (target k).khz)) rfl
      (fun _ _ => trivial) (fun _ h _ => h)
  · have hset : wp block ok NoStop (setPll (target k))
        (ClockEnds (target k) (fun _ => True) True t) t :=
      wp_setPll_clock (target_mem k) (fun _ _ _ => trivial) (fun _ _ => trivial)
        (fun _ => trivial)
    refine wp_mono (fun ret u hu => ?_) (wp_step_mono (fun _ _ _ => trivial) hset)
    exact fun hret => (hu.done hret).2

/-- **After the call the clock runs at the lowest request.** -/
theorem wp_setReported (hs : s.vars = k) (hpointer : k.con0.isSome = true)
    (hrail : k.railSet = true) (hon : k.domainPowered = true) :
    wp block ok (fun _ _ => True) (setReported rate) (fun x _ => x.1 = 0 → x.2 =
      (target (k.assign (.reqKhz (stepBelow (rate / 1000 % 2 ^ 32)).khz))).khz * 1000) s := by
  rw [← stepBelow_reported]
  simp only [setReported, clkSet, clkRecalc, request, get, assign, mutexLock, mutexUnlock,
    Prog.perform_bind, Prog.op_bind]
  refine wp_get (stable_vars k) hs (fun _ _ => trivial) (fun t ht => ?_)
  rw [ht, if_neg (by simp [hrail, Option.isSome_iff_ne_none.mp hpointer])]
  simp only [Prog.op_bind, LawfulMonad.bind_assoc]
  refine wp_lock (stable_vars k) ht (fun _ _ => trivial) (fun t ht => ?_)
  refine wp_assign (stable_held k) ⟨congrArg core ht, rfl⟩ (fun _ _ => trivial) (fun t ht => ?_)
  refine wp_bind (wp_mono (fun ret t hkhz => ?_) (wp_apply_khz (ht.assign _) hon))
  have hstable := stable_still (fun t => ret = 0 → t.vars.curKhz =
    (target (k.assign (.reqKhz (stepBelow (clkDetermine rate / 1000 % 2 ^ 32)).khz))).khz)
  refine wp_unlock hstable hkhz (fun _ _ => trivial) (fun t hkhz => ?_)
  refine wp_get hstable hkhz (fun _ _ => trivial) (fun t hkhz => ?_)
  exact wp_ret (stable_still (fun _ => True)) trivial (fun _ _ => trivial)
    (fun _ _ hret => congrArg (· * 1000) (hkhz hret))

/-- **The three callbacks agree** on a request exactly where no other request is lower and the
request survives the narrowing. -/
theorem clock_agrees (hpointer : s.vars.con0.isSome = true) (hrail : s.vars.railSet = true)
    (hon : s.vars.domainPowered = true)
    (h : block.Runs (fun _ _ _ => true) (setReported rate) s tr x t) (hret : x.1 = 0) :
    x.2 = clkDetermine rate ∧ HighestRate rate (clkDetermine rate) ↔
      Uncapped s.vars (stepBelow (rate / 1000 % 2 ^ 32)) ∧ Survives rate := by
  have hst := stepBelow_mem (rate / 1000 % 2 ^ 32)
  have hnow := h.post (wp_setReported rfl hpointer hrail hon) hret
  refine and_congr ?_ (highestRate_determine rate)
  rw [hnow, clkDetermine, ← target_request hst]
  constructor
  · intro heq
    exact step_ext (target_mem _) hst (Nat.eq_of_mul_eq_mul_right (by decide) heq)
  · exact congrArg (fun st : Step => st.khz * 1000)

end Runs

/-! ## 4. Under a thermal cap

Nothing has to fail for the callbacks to disagree; it is enough that another request is lower. -/

/-- The block on 572 MHz with the lock free, and the thermal cap at `khz`. -/
def underCap (khz : Nat) : Gpu :=
  { readyAt572 with vars := { readyAt572.vars with thermalKhz := khz } }

theorem runs_setReported (khz rate : Nat) (x : Int × Nat) (ls : List Luck)
    (h : (block.play (moving ls) (setReported rate) (underCap khz)).any
      (fun y => decide (y.1 = x)) = true) :
    ∃ tr t, block.Runs (fun _ _ _ => true) (setReported rate) (underCap khz) tr x t := by
  obtain ⟨⟨y, t⟩, hy, hx⟩ := (Option.any_eq_true _ _).mp h
  obtain ⟨tr, hruns⟩ := runs_of_play (fun _ _ _ => rfl) hy
  obtain rfl : y = x := of_decide_eq_true hx
  exact ⟨tr, t, hruns⟩

/-- Without one, 572 MHz are reported, set and read. -/
theorem clock_agrees_572 : ∃ tr t,
    block.Runs (fun _ _ _ => true) (setReported 572000000) (underCap 572000) tr (0, 572000000) t ∧
      HighestRate 572000000 (clkDetermine 572000000) := by
  obtain ⟨tr, t, hruns⟩ := runs_setReported 572000 572000000 (0, 572000000)
    (List.replicate 9 prompt) (by decide +kernel)
  exact ⟨tr, t, hruns, ((clock_agrees rfl rfl rfl hruns rfl).mpr
    ⟨.inl (by decide), .inl (by decide)⟩).2⟩

/-- **572 MHz are reported and 260 MHz are set**, where the thermal cap is there; and a request
of 2^32 kHz is reported as the lowest rate of all. -/
theorem capped_rate_reported : (∃ tr t,
    block.Runs (fun _ _ _ => true) (setReported 572000000) (underCap 260000) tr (0, 260000000) t) ∧
      clkDetermine 572000000 = 572000000 ∧
        ¬ HighestRate (2 ^ 32 * 1000) (clkDetermine (2 ^ 32 * 1000)) := by
  refine ⟨?_, by decide, fun h => ?_⟩
  · exact runs_setReported _ _ _ (List.replicate 30 prompt) (by decide +kernel)
  · exact absurd ((highestRate_determine _).mp h) (by simp [Survives, topStep])

end S9p.G3d
