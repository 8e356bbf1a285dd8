/-
# `s9p_target`, from the governor's wish to the PLL

`s9p_target` narrows the policy's maximum to what the busy cores allow, lets the cpufreq core
pick a frequency of the table, and calls `s9p_set_step` unless the readback and `policy->cur`
already say that frequency.

* `target_end_to_end`: a call that returns 0 leaves the PLL on a frequency of the table inside
  the limits, and, when no BUCK write of the call failed, a rail that is high enough for it; a
  call that returns anything else has not written a clock register.
* `early_return_keeps_rail`: the one exception.  A call that finds the frequency already set
  returns 0 without looking at the rail the bootloader left.

The core's lookup is a parameter of the model; `InRange` is all that is assumed of it.
-/
import S9p.Lib.Path
import S9p.Cpufreq.SetStep
import S9p.Cpufreq.Policy

namespace S9p.Cpufreq

open Field Device

/-! ## 1. The call

The core picks a frequency of the driver's own table, for limits that the driver has narrowed.  The
rest is the driver's. -/

def EAGAIN : Int := 11
def EINVAL : Int := 22

def ftabLittle : List Nat := [1794000, 1499333, 1150500, 650000, 349916]

def ftabBig : List Nat := [2704000, 2327000, 1794000, 1469000, 1066000, 400000]

def ClusterId.freqTable : ClusterId → List Nat
  | .little => ftabLittle
  | .big => ftabBig

/-- `s9p_find_step`. -/
def findStep (c : ClusterId) (freqKhz : Nat) : Option PllStep :=
  c.steps.find? (fun st => st.freqKhz == freqKhz)

/-- The limits and the current frequency of `struct cpufreq_policy`.  They are what the core has
handed to the driver; `cur` is what it believes the frequency to be. -/
structure Limits where
  min : Nat
  max : Nat
  cur : Nat

/-- `cpufreq_frequency_table_target`: table, target, minimum, maximum and relation. -/
abbrev TableTarget := List Nat → Nat → Nat → Nat → Nat → Int

/-- The end of `s9p_target`, once there is a step to go to. -/
def switchTo (c : ClusterId) (policy : Limits) (new : Nat) (step : PllStep) (w : Waits) :
    P Int := do
  let cur ← currentKhz
  if cur = new ∧ policy.cur = new then return 0 else setStep c step w

/-- `s9p_target`, with `busy` cores of the M3 cluster busy.  An index behind the table finds its
end mark, which is no step. -/
def s9pTarget (tableTarget : TableTarget) (c : ClusterId) (policy : Limits)
    (busy target relation : Nat) (w : Waits) : P Int :=
  let maximum := if c = .big then min policy.max (bigCapFor busy) else policy.max
  if maximum < policy.min then return -EAGAIN
  else
    let index := tableTarget c.freqTable (min target maximum) policy.min maximum relation
    if index < 0 then return index
    else
      match c.freqTable[index.toNat]? with
      | none => return -EINVAL
      | some new =>
        match findStep c new with
        | none => return -EINVAL
        | some step => switchTo c policy new step w

/-- What the core promises: where some frequency of the table lies inside the limits, the index is
that of one.  The core's own documentation promises more, such as which of them it is for each
relation; none of that is needed. -/
def InRange (tableTarget : TableTarget) : Prop :=
  ∀ freqs target lo hi relation, (∃ f ∈ freqs, lo ≤ f ∧ f ≤ hi) →
    ∃ (i : Nat) (f : Nat), tableTarget freqs target lo hi relation = i ∧ freqs[i]? = some f ∧
      lo ≤ f ∧ f ≤ hi

/-! ## 2. The tables

What a step is programmed with decodes to its own frequency, so a readback that says a frequency of
the table says which step it is. -/

theorem freqTable_eq (c : ClusterId) : c.freqTable = c.steps.map PllStep.freqKhz := by
  cases c <;> rfl

theorem findStep_some {c : ClusterId} {f : Nat} (h : f ∈ c.freqTable) :
    ∃ st ∈ c.steps, findStep c f = some st ∧ st.freqKhz = f := by
  rw [freqTable_eq] at h
  obtain ⟨st₀, hmem₀, hf₀⟩ := List.mem_map.mp h
  have hsome : (c.steps.find? (fun st => st.freqKhz == f)).isSome :=
    List.find?_isSome.mpr ⟨st₀, hmem₀, by simpa using hf₀⟩
  obtain ⟨st, hst⟩ := Option.isSome_iff_exists.mp hsome
  exact ⟨st, List.mem_of_find?_eq_some hst, hst, by simpa using List.find?_some hst⟩

/-- **What the switch programs decodes to the step**, while the PLL output is selected. -/
theorem decodeKhz_program_eq {c : ClusterId} {st : PllStep} (hst : st ∈ c.steps) {con0 : Word}
    (hsel : con0 &&& PLL_CON0_MUX_SEL ≠ 0) :
    decodeKhz (con0 &&& ~~~(PLL_CON0_ENABLE ||| PLL_CON0_PMS_MASK) ||| PLL_CON0_ENABLE ||| st.pms)
      0#32 = st.freqKhz := by
  have hpms : st.pms &&& PLL_CON0_MUX_SEL = 0#32 ∧ field 8 0x3f#32 st.pms ≠ 0 := by
    have hall : ∀ c : ClusterId, ∀ st ∈ c.steps,
        st.pms &&& PLL_CON0_MUX_SEL = 0#32 ∧ field 8 0x3f#32 st.pms ≠ 0 := by
      intro c
      cases c <;> decide
    exact hall c st hst
  have hkeep : (con0 &&& ~~~(PLL_CON0_ENABLE ||| PLL_CON0_PMS_MASK) ||| PLL_CON0_ENABLE |||
      st.pms) &&& PLL_CON0_MUX_SEL = con0 &&& PLL_CON0_MUX_SEL := by
    rw [or_and hpms.1, or_and (by decide), and_not_and (by decide)]
  unfold decodeKhz
  rw [field_program 8 _ _ (by decide) (by decide),
    field_program 16 _ _ (by decide) (by decide),
    field_program 0 _ _ (by decide) (by decide), hkeep, if_neg (by simp), if_neg hsel,
    if_neg hpms.2]
  exact (step_pms c st hst).2

/-! ## 3. The clock switch

Section 5 of `SetStep` says that the switch is safe; here it is followed to its end, which takes
that it comes to one. -/

section Call

variable {c : ClusterId} {st : PllStep} {s : Dev} {V : BitVec 8 → Prop} {w : Waits}
  {ok : Dev → (o : Op) → Luck → Bool}

abbrev S₀ : Dev → Option Op → Prop := fun _ _ => True

/-- Every value the rail has, or will have once its late writes have landed, is in `V`. -/
theorem buck_stable (V : BitVec 8 → Prop) : (cpu c).toDevice.Stable (fun s => s.buck.All V) := by
  intro e s t h hs
  obtain ⟨buck, hl, rfl⟩ := Option.map_eq_some_iff.mp h
  exact hs.land hl

theorem wp_look {I : Dev → Prop} (hI : (cpu c).toDevice.Stable I) {α : Type} {p : P α}
    (hp : p.Uses (fun o => o = .rdMux ∨ o = .rdCon0 ∨ o = .hang)) (hs : I s) :
    wp (cpu c).toDevice ok S₀ p (fun _ t => I t) s := by
  refine wp_of_uses hI ?_ (fun _ _ _ _ => trivial) (fun _ _ => trivial) hp hs
  exact fun o ho l s r t h _ hact => act_look ho hact ▸ h

/-- **The switch arrives at the step** and leaves the rail alone. -/
theorem wp_relock_done (hst : st ∈ c.steps) (hsel : s.con0 &&& PLL_CON0_MUX_SEL ≠ 0)
    (hs : s.buck.All V) :
    wp (cpu c).toDevice ok S₀ (relock st w)
      (fun _ t => decodeKhz t.con0 t.mux = st.freqKhz ∧ t.buck.All V) s := by
  have hI := (regs_stable (c := c) (fun con0 _ => con0 &&& PLL_CON0_MUX_SEL ≠ 0)).and
    (buck_stable V)
  simp only [relock, wrLocktime, wrMux, rdCon0, wrCon0, Prog.perform_bind]
  refine wp_op_eq (fun _ _ => rfl) hI ⟨hsel, hs⟩ (fun _ _ => trivial) ?_
  intro s1 _ h1 _
  refine wp_op_eq (fun _ _ => rfl) hI h1 (fun _ _ => trivial) ?_
  intro s2 _ h2 _
  refine wp_bind (wp_mono (fun _ t3 h3 => ?_)
    (wp_look (s := { s2 with mux := 1#32 }) hI (uses_waitMux _) h2))
  refine wp_op_eq (fun _ _ => rfl) hI h3 (fun _ _ => trivial) ?_
  intro s4 _ h4 _
  have hread : ∀ b, withBit s4.con0 PLL_CON0_STABLE b &&& PLL_CON0_MUX_SEL ≠ 0#32 := by
    intro b
    rw [withBit_and (by decide)]
    exact h4.1
  -- what `con0` held does not matter any more: it is written anew, and from the value read
  refine wp_op_eq (fun _ _ => rfl) (buck_stable V) h4.2 (fun _ _ => trivial) ?_
  intro s5 _ h5 _
  refine wp_op_eq (fun _ _ => rfl) (buck_stable V) h5 (fun _ _ => trivial) ?_
  intro s6 _ h6 _
  refine wp_op_eq (fun _ _ => rfl) (buck_stable V) h6 (fun _ _ => trivial) ?_
  intro s7 _ h7 _
  have hprog := (regs_stable (c := c) (fun con0 _ => decodeKhz con0 0#32 = st.freqKhz)).and
    (buck_stable V)
  refine wp_bind (wp_mono (fun _ t8 h8 => ?_) (wp_look (I := fun t : Dev =>
    decodeKhz t.con0 0#32 = st.freqKhz ∧ t.buck.All V) hprog (uses_pollStable _)
    ⟨decodeKhz_program_eq hst (hread _), h7⟩))
  refine wp_op_eq (fun _ _ => rfl) hprog h8 (fun _ _ => trivial) ?_
  intro s9 _ h9 _
  exact wp_look (s := { s9 with mux := 0#32 }) (I := fun t : Dev =>
    decodeKhz t.con0 t.mux = st.freqKhz ∧ t.buck.All V)
    ((regs_stable (c := c) (fun con0 mux => decodeKhz con0 mux = st.freqKhz)).and (buck_stable V))
    (uses_waitMux _) h9

/-- `s9p_current_khz` reads the two registers and changes nothing. -/
theorem wp_currentKhz {I : Dev → Prop} (hI : (cpu c).toDevice.Stable I) {α : Type}
    {kont : Nat → P α} {Q : α → Dev → Prop} (hs : I s)
    (hk : ∀ t, I t → t.con0 = s.con0 → t.mux = s.mux →
      wp (cpu c).toDevice ok S₀ (kont (decodeKhz s.con0 s.mux)) Q t) :
    wp (cpu c).toDevice ok S₀ (currentKhz >>= kont) Q s := by
  have hst := hI.and (regs_stable (c := c) (fun con0 mux => con0 = s.con0 ∧ mux = s.mux))
  simp only [currentKhz, rdCon0, rdMux, Prog.perform_bind, Prog.op_bind]
  refine wp_op_eq (fun _ _ => rfl) hst ⟨hs, rfl, rfl⟩ (fun _ _ => trivial) ?_
  intro s1 _ h1 _
  refine wp_op_eq (fun _ _ => rfl) hst h1 (fun _ _ => trivial) ?_
  intro s2 _ h2 _
  simp only [Prog.pure_eq_ret, Prog.ret_bind]
  rw [decodeKhz_withBit, h1.2.1, h2.2.2]
  exact hk s2 h2.1 h2.2.1 h2.2.2

/-- No BUCK write of the call is reported as failed. -/
def pmicAcked : Dev → (o : Op) → Luck → Bool
  | _, .pmicWrite _ _, l => decide (l.pmic.ret = 0)
  | _, _, _ => true

/-- A BUCK write, for the rail only: acknowledged, it leaves the value written and nothing on the
way. -/
theorem act_pmicWrite {v : BitVec 8} {l : Luck} {r : Int} {t u : Dev}
    (hact : act c (.pmicWrite c.buckReg v) l t = some (r, u)) :
    r = l.pmic.ret ∧ u.con0 = t.con0 ∧ u.mux = t.mux ∧ (r = 0 → u.buck.All (fun x => x = v)) := by
  simp only [act, if_true] at hact
  obtain ⟨buck, hw, heq⟩ := Option.map_eq_some_iff.mp hact
  simp only [Prod.mk.injEq] at heq
  obtain ⟨rfl, rfl⟩ := heq
  refine ⟨rfl, rfl, rfl, fun hret => ?_⟩
  rw [LateReg.acked_of_ret hw hret] at hw
  exact LateReg.all_acked rfl hw

/-- **One call of `s9p_set_step`** that returns 0 arrives at the step; if its BUCK write did not
fail (`acked`), the rail is at the step's voltage. -/
theorem wp_setStep_done {acked : Prop}
    (hok : acked → ∀ t l, ok t (.pmicWrite c.buckReg st.vsel) l = true → l.pmic.ret = 0)
    (hst : st ∈ c.steps) (hsel : s.con0 &&& PLL_CON0_MUX_SEL ≠ 0) :
    wp (cpu c).toDevice ok S₀ (setStep c st w) (fun ret t => ret = 0 →
      decodeKhz t.con0 t.mux = st.freqKhz ∧ (acked → t.buck.value = st.vsel)) s := by
  have hI := regs_stable (c := c) (fun con0 _ => con0 &&& PLL_CON0_MUX_SEL ≠ 0)
  have hany : ∀ t : Dev, t.buck.All (fun _ => True) := fun _ _ _ => trivial
  refine wp_currentKhz hI hsel (fun s1 h1 _ _ => ?_)
  split
  · simp only [pmicWrite, Prog.perform_bind]
    refine wp_op hI h1 (fun _ _ => trivial) ?_
    intro s2 l2 ret t2 h2 _ hact
    obtain ⟨-, hcon, -, hrail⟩ := act_pmicWrite hact
    have hsel2 : t2.con0 &&& PLL_CON0_MUX_SEL ≠ 0 := by rw [hcon]; exact h2
    split
    · rename_i hret
      exact wp_ret hI hsel2 (fun _ _ => trivial) (fun _ _ h0 => absurd h0 hret)
    · rename_i hret
      have hval := hrail (not_not.mp hret)
      refine wp_bind (wp_mono (fun _ t3 h3 => ?_) (wp_relock_done hst hsel2 hval))
      exact wp_ret ((regs_stable (c := c) (fun con0 mux => decodeKhz con0 mux = st.freqKhz)).and
        (buck_stable _)) h3 (fun _ _ => trivial) (fun t ht _ => ⟨ht.1, fun _ => ht.2.value⟩)
  · refine wp_bind (wp_mono (fun _ t2 h2 => ?_) (wp_relock_done hst h1 (hany s1)))
    have hdone := regs_stable (c := c) (fun con0 mux => decodeKhz con0 mux = st.freqKhz)
    simp only [pmicWrite, Prog.perform_bind]
    refine wp_op hdone h2.1 (fun _ _ => trivial) ?_
    intro s3 l3 ret t3 h3 hokv hact
    obtain ⟨hret, hcon, hmux, hrail⟩ := act_pmicWrite hact
    have h3' : decodeKhz t3.con0 t3.mux = st.freqKhz ∧
        t3.buck.All (fun v => acked → v = st.vsel) := by
      refine ⟨by rw [hcon, hmux]; exact h3, fun v hv ha => ?_⟩
      exact hrail (hret.trans (hok ha s3 l3 hokv)) v hv
    exact wp_ret (hdone.and (buck_stable _)) h3' (fun _ _ => trivial)
      (fun t ht _ => ⟨ht.1, ht.2.value⟩)

end Call

/-! ## 4. The whole call

The result and the clock are tied together on the path of the call, and the rail is followed through
its run. -/

/-- Writes to the registers the cluster is clocked by. -/
def ClockWrite : Op → Prop
  | .wrCon0 _ => True
  | .wrMux _ => True
  | .wrLocktime _ => True
  | _ => False

/-- A BUCK write is answered with 0. -/
def PmicOk : (o : Op) → Ans o → Prop
  | .pmicWrite _ _, ret => ret = 0
  | _, _ => True

section Target

variable {tableTarget : TableTarget} {c : ClusterId} {st : PllStep} {policy : Limits}
  {busy target relation : Nat} {w : Waits} {s t : Dev} {tr : List (Sigma Ans)} {ret : Int}

/-- **A failed step has not touched the clock.** -/
theorem setStep_failed (h : (setStep c st w).Path tr ret) (hret : ret ≠ 0) :
    ∀ d ∈ tr, ¬ ClockWrite d.1 := by
  simp only [setStep, currentKhz, rdCon0, rdMux, Prog.perform_bind, Prog.op_bind,
    Prog.pure_eq_ret, Prog.ret_bind] at h
  obtain ⟨con0, tr₁, rfl, h₁⟩ := Prog.path_op.mp h
  obtain ⟨mux, tr₂, rfl, h₂⟩ := Prog.path_op.mp h₁
  split at h₂
  · simp only [pmicWrite, Prog.perform_bind] at h₂
    obtain ⟨r, tr₃, rfl, h₃⟩ := Prog.path_op.mp h₂
    split at h₃
    · obtain ⟨rfl, rfl⟩ := Prog.path_ret.mp h₃
      intro d hd
      simp only [List.mem_cons, List.not_mem_nil, or_false] at hd
      rcases hd with rfl | rfl | rfl
      · exact id
      · exact id
      · exact id
    · obtain ⟨_, _, _, -, -, h₄⟩ := Prog.path_bind.mp h₃
      exact absurd (Prog.path_ret.mp h₄).2 hret
  · obtain ⟨_, _, _, -, -, h₃⟩ := Prog.path_bind.mp h₂
    obtain ⟨_, _, -, h₄⟩ := Prog.path_op.mp h₃
    exact absurd (Prog.path_ret.mp h₄).2 hret

/-- The maximum the busy cores allow. -/
def maximumOf (c : ClusterId) (policy : Limits) (busy : Nat) : Nat :=
  if c = .big then min policy.max (bigCapFor busy) else policy.max

theorem maximumOf_le : maximumOf c policy busy ≤ policy.max := by
  unfold maximumOf
  split
  · exact min_le_left _ _
  · exact le_rfl

theorem maximumOf_big (hc : c = .big) : maximumOf c policy busy ≤ bigCapFor busy := by
  rw [maximumOf, if_pos hc]
  exact min_le_right _ _

/-- **What the call comes to**: it gives up without touching anything, or goes for a step inside
the limits. -/
theorem s9pTarget_cases (hT : InRange tableTarget) (hmin : policy.min ∈ c.freqTable) :
    (∃ e : Int, e ≠ 0 ∧ s9pTarget tableTarget c policy busy target relation w = .ret e) ∨
    ∃ st ∈ c.steps, policy.min ≤ st.freqKhz ∧ st.freqKhz ≤ maximumOf c policy busy ∧
      s9pTarget tableTarget c policy busy target relation w =
        switchTo c policy st.freqKhz st w := by
  have hmax : (if c = .big then min policy.max (bigCapFor busy) else policy.max) =
      maximumOf c policy busy := rfl
  simp only [s9pTarget, hmax]
  by_cases hnone : maximumOf c policy busy < policy.min
  · exact .inl ⟨-EAGAIN, by decide, by rw [if_pos hnone]; rfl⟩
  · obtain ⟨i, f, hindex, hf, hlo, hhi⟩ := hT c.freqTable (min target (maximumOf c policy busy))
      policy.min (maximumOf c policy busy) relation ⟨policy.min, hmin, le_rfl, not_lt.mp hnone⟩
    obtain ⟨st, hmem, hfind, rfl⟩ := findStep_some (List.mem_of_getElem? hf)
    refine .inr ⟨st, hmem, hlo, hhi, ?_⟩
    rw [if_neg hnone, hindex, if_neg (by omega), Int.toNat_natCast, hf]
    simp only [hfind]

/-- The call returns 0 on the step; it has set the rail, or found everything as it should be and
left it alone. -/
theorem wp_switchTo (acked : Prop) {ok : Dev → (o : Op) → Luck → Bool}
    (hok : acked → ∀ t l, ok t (.pmicWrite c.buckReg st.vsel) l = true → l.pmic.ret = 0)
    (hst : st ∈ c.steps) (hsel : s.con0 &&& PLL_CON0_MUX_SEL ≠ 0) :
    wp (cpu c).toDevice ok S₀ (switchTo c policy st.freqKhz st w) (fun ret t => ret = 0 →
      decodeKhz t.con0 t.mux = st.freqKhz ∧ (acked → st.vsel.toNat ≤ t.buck.value.toNat ∨
        (decodeKhz s.con0 s.mux = st.freqKhz ∧ policy.cur = st.freqKhz ∧
          (cpu c).toDevice.Drift s t))) s := by
  have hdrift : (cpu c).toDevice.Stable (fun u => (cpu c).toDevice.Drift s u) :=
    fun e u v huv hu => hu.tail ⟨e, huv⟩
  refine wp_currentKhz hdrift .refl (fun s1 h1 hcon hmux => ?_)
  split
  · rename_i hsame
    have hregs := hdrift.and (regs_stable (c := c) (fun con0 mux => con0 = s.con0 ∧ mux = s.mux))
    refine wp_ret hregs ⟨h1, hcon, hmux⟩ (fun _ _ => trivial) (fun t ht _ => ?_)
    exact ⟨by rw [ht.2.1, ht.2.2]; exact hsame.1, fun _ => .inr ⟨hsame.1, hsame.2, ht.1⟩⟩
  · have hsel1 : s1.con0 &&& PLL_CON0_MUX_SEL ≠ 0 := by rw [hcon]; exact hsel
    refine wp_mono (fun ret t hq h0 => ?_) (wp_setStep_done hok hst hsel1)
    exact ⟨(hq h0).1, fun ha => .inl (by rw [(hq h0).2 ha])⟩

/-- A run whose BUCK writes are answered with 0 passes the test. -/
theorem runs_acked {p : P Int} (h : (cpu c).toDevice.Runs (fun _ _ _ => true) p s tr ret t)
    (hacked : ∀ d ∈ tr, PmicOk d.1 d.2) : (cpu c).toDevice.Runs pmicAcked p s tr ret t := by
  refine h.restrict ?_ hacked
  intro u o l r v _ hact hr
  cases o with
  | pmicWrite reg val =>
    have hret : r = l.pmic.ret := by
      simp only [cpu, act] at hact
      split at hact
      · obtain ⟨buck, -, heq⟩ := Option.map_eq_some_iff.mp hact
        exact (Prod.mk.inj heq).1.symm
      · exact (Prod.mk.inj (Option.some.inj hact)).1.symm
    exact decide_eq_true (hret ▸ hr)
  | _ => rfl

/-- **A call that fails has not touched the clock.** -/
theorem switchTo_failed (h : (switchTo c policy st.freqKhz st w).Path tr ret) (hret : ret ≠ 0) :
    ∀ d ∈ tr, ¬ ClockWrite d.1 := by
  intro d hd
  obtain ⟨cur, tr₁, tr₂, rfl, h₁, h₂⟩ := Prog.path_bind.mp h
  split at h₂
  · exact absurd (Prog.path_ret.mp h₂).2 hret
  · rcases List.mem_append.mp hd with hd | hd
    · have hreads : currentKhz.Uses (fun o => ¬ ClockWrite o) :=
        ⟨id, fun _ => ⟨id, fun _ => trivial⟩⟩
      exact h₁.uses hreads d hd
    · exact setStep_failed h₂ hret d hd

/-- **`s9p_target`, end to end.** -/
theorem target_end_to_end (hT : InRange tableTarget) (hmin : policy.min ∈ c.freqTable)
    (hsel : s.con0 &&& PLL_CON0_MUX_SEL ≠ 0)
    (h : (cpu c).toDevice.Runs (fun _ _ _ => true)
      (s9pTarget tableTarget c policy busy target relation w) s tr ret t) :
    (ret = 0 → ∃ st ∈ c.steps, decodeKhz t.con0 t.mux = st.freqKhz ∧
      policy.min ≤ st.freqKhz ∧ st.freqKhz ≤ policy.max ∧
      (c = .big → st.freqKhz ≤ bigCapFor busy) ∧
      ((∀ d ∈ tr, PmicOk d.1 d.2) → st.vsel.toNat ≤ t.buck.value.toNat ∨
        (decodeKhz s.con0 s.mux = st.freqKhz ∧ policy.cur = st.freqKhz ∧
          (cpu c).toDevice.Drift s t))) ∧
    (ret ≠ 0 → ∀ d ∈ tr, ¬ ClockWrite d.1) := by
  rcases s9pTarget_cases (c := c) (w := w) hT hmin with ⟨e, he, hprog⟩ | ⟨st, hst, hlo, hhi, hprog⟩
  · rw [hprog] at h
    obtain ⟨rfl, rfl⟩ := Prog.path_ret.mp h.path
    exact ⟨fun h0 => absurd h0 he, fun _ => by simp⟩
  · rw [hprog] at h
    refine ⟨fun hret => ?_, switchTo_failed h.path⟩
    have hdone := h.post (wp_switchTo False (fun hf => hf.elim) hst hsel) hret
    refine ⟨st, hst, hdone.1, hlo, hhi.trans maximumOf_le,
      fun hc => hhi.trans (maximumOf_big hc), fun hacked => ?_⟩
    have hrail := (runs_acked h hacked).post
      (wp_switchTo True (fun _ u l hl => of_decide_eq_true hl) hst hsel) hret
    exact hrail.2 trivial

end Target

/-! ## 5. A call at the frequency already set

No fault is needed for the exception: a rail that the bootloader has left too low stays so as long
as the governor asks for what is set. -/

/-- The lookup for the lowest frequency at or above the target, in a table that falls: the
highest one inside the limits where there is none. -/
def lowestAbove : TableTarget := fun freqs target lo hi _ =>
  match freqs.findIdx? (fun f => decide (lo ≤ f ∧ f ≤ hi ∧ target ≤ f ∧
    ∀ g ∈ freqs, lo ≤ g → g ≤ hi → target ≤ g → f ≤ g)) with
  | some i => i
  | none =>
    match freqs.findIdx? (fun f => decide (lo ≤ f ∧ f ≤ hi)) with
    | some i => i
    | none => -EINVAL

theorem inRange_lowestAbove : InRange lowestAbove := by
  rintro freqs target lo hi relation ⟨f, hf, hlo, hhi⟩
  unfold lowestAbove
  split
  · rename_i i hi'
    obtain ⟨hlt, hp, -⟩ := List.findIdx?_eq_some_iff_getElem.mp hi'
    obtain ⟨h1, h2, -⟩ := of_decide_eq_true hp
    exact ⟨i, freqs[i], rfl, List.getElem?_eq_getElem hlt, h1, h2⟩
  · split
    · rename_i i hi'
      obtain ⟨hlt, hp, -⟩ := List.findIdx?_eq_some_iff_getElem.mp hi'
      obtain ⟨h1, h2⟩ := of_decide_eq_true hp
      exact ⟨i, freqs[i], rfl, List.getElem?_eq_getElem hlt, h1, h2⟩
    · rename_i hnone
      have h := List.findIdx?_eq_none_iff.mp hnone f hf
      simp [hlo, hhi] at h

/-- The M3 cluster at 1066 MHz is sent to its maximum while two of its cores are busy. -/
theorem target_end_to_end_capped : ∃ tr t, (cpu .big).toDevice.Runs (fun _ _ _ => true)
      (s9pTarget lowestAbove .big ⟨400000, 2704000, 1066000⟩ 2 2704000 0 ⟨1, 0, 1⟩)
      m3At1066 tr 0 t ∧
    ∃ st ∈ ClusterId.big.steps, decodeKhz t.con0 t.mux = st.freqKhz ∧ 400000 ≤ st.freqKhz ∧
      st.freqKhz ≤ 2327000 := by
  have hrun : ((cpu .big).toDevice.run prompt (s9pTarget lowestAbove .big
      ⟨400000, 2704000, 1066000⟩ 2 2704000 0 ⟨1, 0, 1⟩) m3At1066).any
      (fun x => decide (x.1 = 0)) = true := by decide +kernel
  obtain ⟨⟨ret, t⟩, hx, hret⟩ := (Option.any_eq_true _ _).mp hrun
  obtain rfl : ret = 0 := of_decide_eq_true hret
  obtain ⟨tr, hruns⟩ : ∃ tr, (cpu .big).toDevice.Runs (fun _ _ _ => true)
      (s9pTarget lowestAbove .big ⟨400000, 2704000, 1066000⟩ 2 2704000 0 ⟨1, 0, 1⟩)
      m3At1066 tr 0 t := runs_of_run (fun _ _ => rfl) hx
  have h := (target_end_to_end inRange_lowestAbove (by decide) (by decide) hruns).1 rfl
  obtain ⟨st, hst, hkhz, hlo, -, hcap, -⟩ := h
  exact ⟨tr, t, hruns, st, hst, hkhz, hlo, hcap rfl⟩

/-- As the bootloader may leave the M3 cluster: at 1066 MHz, on a rail that is too low for it. -/
def m3Low : Dev := { m3At1066 with buck := ⟨0x3f, []⟩ }

/-- **The rail is not looked at** where the frequency is already right: no BUCK write fails, none
is made, and 0 is returned. -/
theorem early_return_keeps_rail : ∃ tr t, (cpu .big).toDevice.Runs (fun _ _ _ => true)
      (s9pTarget lowestAbove .big ⟨400000, 2704000, 1066000⟩ 1 1066000 0 ⟨1, 0, 1⟩)
      m3Low tr 0 t ∧ (∀ d ∈ tr, PmicOk d.1 d.2) ∧ decodeKhz t.con0 t.mux = 1066000 ∧
    ∀ st ∈ ClusterId.big.steps, st.freqKhz = 1066000 → ¬ st.vsel.toNat ≤ t.buck.value.toNat := by
  have hprog : s9pTarget lowestAbove .big ⟨400000, 2704000, 1066000⟩ 1 1066000 0 ⟨1, 0, 1⟩ =
      switchTo .big ⟨400000, 2704000, 1066000⟩ 1066000 ⟨1066000, 246, 3, 1, 0x48⟩ ⟨1, 0, 1⟩ := rfl
  rw [hprog]
  refine ⟨_, m3Low, .op prompt .refl rfl rfl (.op prompt .refl rfl rfl (.ret .refl)), ?_, ?_, ?_⟩
  · simp [PmicOk]
  · decide
  · decide

end S9p.Cpufreq
