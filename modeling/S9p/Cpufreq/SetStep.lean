/-
# A cluster's clock switch and its rail

`s9p_set_step` moves a CPU cluster to a step of its table: it raises the BUCK before the clock
goes up, lowers it after the clock has come down, and in between hands the cluster to the
switch clock while the PLL is reprogrammed.  It decides "up" or "down" from the PLL readback
and never looks at the rail; a BUCK write that fails on the way down is reported as success,
and it may still land later.

`rail_safe`: started with a rail that covers the clock, after every register write of every
sequence of calls the rail covers every rate the cluster may be running at, whatever becomes
of each BUCK write and of each poll.

What carries it: not only the rail but every write still on its way covers the programmed
rate (`Covered`), so a late write can never hurt.
-/
import S9p.Lib.Prog
import S9p.Lib.Field
import S9p.Lib.LateReg
import S9p.Lib.Ladder
import S9p.Cpufreq.Cluster

namespace S9p.Cpufreq

open Field Device

/-! ## 1. Registers and operations

The multiplexer and the PLL are two registers, and the BUCK is behind the APM.  A status bit may
read as anything at any time, so nothing is concluded from one. -/

abbrev Word := BitVec 32

def PLL_CON0_ENABLE : Word := 1#32 <<< 31
def PLL_CON0_STABLE : Word := 1#32 <<< 29
def PLL_CON0_MUX_SEL : Word := 1#32 <<< 4
def PLL_CON0_PMS_MASK : Word := (0x3ff#32 <<< 16) ||| (0x3f#32 <<< 8) ||| 0x7#32
def MUX_BUSY : Word := 1#32 <<< 16

/-- The registers of a cluster, as last written, and its BUCK. -/
structure Dev where
  con0 : Word
  mux : Word
  locktime : Word
  buck : LateReg (BitVec 8)

/-- The register accesses of one cluster, and the call into the PMIC driver.  `hang` is where the
first wait never ends. -/
inductive Op where
  | rdCon0
  | wrCon0 (v : Word)
  | rdMux
  | wrMux (v : Word)
  | wrLocktime (v : Word)
  | pmicWrite (reg val : BitVec 8)
  | hang

@[reducible] def Ans : Op → Type
  | .rdCon0 => Word
  | .rdMux => Word
  | .pmicWrite _ _ => Int
  | .hang => Empty
  | _ => Unit

/-- What the hardware decides at an operation: the two status bits as they read, and how a BUCK
write ends.  Each operation has its own, so a status bit may change from one look to the next. -/
structure Luck where
  stable : Bool
  busy : Bool
  pmic : LateReg.Outcome

/-- **What an operation does.**  The two status bits are shown as luck has it, over the register as
it was last written.  A PMIC write may fail and land all the same, at once or later. -/
def act (c : ClusterId) : (o : Op) → Luck → Dev → Option (Ans o × Dev)
  | .rdCon0, l, s => some (withBit s.con0 PLL_CON0_STABLE l.stable, s)
  | .wrCon0 v, _, s => some ((), { s with con0 := v })
  | .rdMux, l, s => some (withBit s.mux MUX_BUSY l.busy, s)
  | .wrMux v, _, s => some ((), { s with mux := v })
  | .wrLocktime v, _, s => some ((), { s with locktime := v })
  | .pmicWrite reg val, l, s =>
      if reg = c.buckReg then
        (s.buck.write val l.pmic).map (fun buck => (l.pmic.ret, { s with buck := buck }))
      else some (l.pmic.ret, s)
  | .hang, _, _ => none

/-- On its own a cluster changes only when a failed BUCK write lands. -/
def landing (_ : Unit) (s : Dev) : Option Dev :=
  s.buck.land.map (fun buck => { s with buck := buck })

abbrev P := Prog Op Ans

def rdCon0 : P Word := .perform Op.rdCon0
def wrCon0 (v : Word) : P Unit := .perform (Op.wrCon0 v)
def rdMux : P Word := .perform Op.rdMux
def wrMux (v : Word) : P Unit := .perform (Op.wrMux v)
def wrLocktime (v : Word) : P Unit := .perform (Op.wrLocktime v)
def pmicWrite (reg val : BitVec 8) : P Int := .perform (Op.pmicWrite reg val)
def hang {α : Type} : P α := .op Op.hang (fun e => nomatch e)

/-! ## 2. `s9p_current_khz` and `s9p_set_step`

Neither wait has an error path that restores anything: the first is a bare loop, and what the second
returns is only logged. -/

/-- The rate the two registers say; the `u32` products stay below 2 ^ 32. -/
def decodeKhz (con0 mux : Word) : Nat :=
  if mux &&& 1 ≠ 0 then 0
  else if con0 &&& PLL_CON0_MUX_SEL = 0 then 26000
  else if field 8 0x3f#32 con0 = 0 then 0
  else 26000 * (field 16 0x3ff#32 con0).toNat / (field 8 0x3f#32 con0).toNat /
    2 ^ (field 0 0x7#32 con0).toNat

/-- `s9p_current_khz`. -/
def currentKhz : P Nat := do
  let con0 ← rdCon0
  let mux ← rdMux
  return decodeKhz con0 mux

/-- `while (readl(mux) & MUX_BUSY)`: a loop that sees the bit more than `spins` times in a row never
ends.  What hangs there is the kernel, and so the run has no further step. -/
def waitMux : Nat → P Unit
  | 0 => hang
  | spins + 1 => do
    let v ← rdMux
    if v &&& MUX_BUSY ≠ 0 then waitMux spins else return ()

/-- `readl_poll_timeout` on `PLL_CON0_STABLE`: `polls` looks in time and one last one. -/
def pollStable : Nat → P Bool
  | 0 => do
    let v ← rdCon0
    return v &&& PLL_CON0_STABLE ≠ 0
  | polls + 1 => do
    let v ← rdCon0
    if v &&& PLL_CON0_STABLE ≠ 0 then return true else pollStable polls

/-- How long the waits of one call take.  A wait is bounded by time in the source, or not at all,
and what a caller can notice of that is how often the loop looks.  Nothing is assumed of these
numbers: they are inputs of the call, and every property holds for all of them. -/
structure Waits where
  away : Nat
  polls : Nat
  back : Nat

/-- `(m << 16) | (p << 8) | s`. -/
def PllStep.pms (st : PllStep) : Word :=
  (st.m.setWidth 32 <<< 16) ||| (st.p.setWidth 32 <<< 8) ||| st.s.setWidth 32

/-- The clock switch of `s9p_set_step`, from the lock time to the cluster being back on the
PLL.  A PLL without STABLE is used all the same. -/
def relock (st : PllStep) (w : Waits) : P Unit := do
  wrLocktime (150#32 * st.p.setWidth 32)
  wrMux 1#32
  waitMux w.away
  let con0 ← rdCon0
  let v := con0 &&& ~~~(PLL_CON0_ENABLE ||| PLL_CON0_PMS_MASK)
  wrCon0 v
  wrCon0 (v ||| st.pms)
  wrCon0 (v ||| PLL_CON0_ENABLE ||| st.pms)
  let _ ← pollStable w.polls
  wrMux 0#32
  waitMux w.back

/-- `s9p_set_step`.  The direction is taken from the readback of the PLL, and the rail is written
without being read. -/
def setStep (c : ClusterId) (st : PllStep) (w : Waits) : P Int := do
  let cur ← currentKhz
  if cur < st.freqKhz then do
    -- up: raise the rail first
    let ret ← pmicWrite c.buckReg st.vsel
    if ret ≠ 0 then return ret
    else do
      relock st w
      return 0
  else do
    relock st w
    -- down: lower the rail only after the clock dropped; a failure leaves the higher one
    let _ ← pmicWrite c.buckReg st.vsel
    return 0

/-- A call of `s9p_set_step`. -/
structure Call where
  step : PllStep
  waits : Waits

/-! ## 3. What the rail has to cover

An unlocked PLL is slower than it is programmed to be, so the programmed rate is what the rail has
to be good for while the PLL is selected. -/

/-- The BUCK value `v` is enough for the rate `f`. -/
def Enough (c : ClusterId) (f : Nat) (v : BitVec 8) : Prop :=
  Ladder.Covers PllStep.freqKhz (fun st => st.vsel.toNat) c.steps v.toNat f

/-- The rates the cluster may be running at: while the mux selects the PLL, any rate up to the
programmed one, since an unlocked PLL is only slower.  The statement is about rates it may be
running at, and not about one, since it is not known when the PLL has locked. -/
def Clocked (s : Dev) (f : Nat) : Prop := s.mux &&& 1 = 0 ∧ f ≤ decodeKhz s.con0 s.mux

/-- **The rail is high enough** for every rate the cluster may be running at: at least the
voltage of the slowest step of the table that is not slower. -/
def RailSafe (c : ClusterId) (s : Dev) : Prop :=
  ∀ f, Clocked s f → ∃ st, Ladder.needed PllStep.freqKhz c.steps f = some st ∧
    st.vsel.toNat ≤ s.buck.value.toNat

/-- The rail, and every write still on its way to it, covers the rate `f`. -/
def Covered (c : ClusterId) (f : Nat) (s : Dev) : Prop := s.buck.All (Enough c f)

/-- A cluster as it may be found: the rail, and any write still on its way, covers the current
clock.  Nothing is asked of how it came to be so: the bootloader, an earlier kernel or a kexec may
have left it. -/
def Found (c : ClusterId) (s : Dev) : Prop := Covered c (decodeKhz s.con0 s.mux) s

/-- The calls made on one cluster, with steps of its own table. -/
def cpu (c : ClusterId) : System Op Ans Dev Unit Luck Call Int where
  env := landing
  act := act c
  init := Found c
  enabled := fun k _ => decide (k.step ∈ c.steps)
  call := fun k => setStep c k.step k.waits

/-! ## 4. The tables

The voltages fall with the rates, in both tables.  This is what makes the slowest step that is fast
enough the cheapest one. -/

theorem graded (c : ClusterId) :
    Ladder.Graded PllStep.freqKhz (fun st => st.vsel.toNat) c.steps := by
  cases c <;> unfold Ladder.Graded ClusterId.steps <;> decide

/-- Every step is at least as fast as the reference clock, and its PMS values fit their fields
and give its frequency. -/
theorem step_pms (c : ClusterId) : ∀ st ∈ c.steps, 26000 ≤ st.freqKhz ∧
    26000 * (field 16 0x3ff#32 st.pms).toNat / (field 8 0x3f#32 st.pms).toNat /
      2 ^ (field 0 0x7#32 st.pms).toNat = st.freqKhz := by
  cases c <;> decide

/-- The status bits do not enter into the rate. -/
theorem decodeKhz_withBit (con0 mux : Word) (b b' : Bool) :
    decodeKhz (withBit con0 PLL_CON0_STABLE b) (withBit mux MUX_BUSY b') = decodeKhz con0 mux := by
  have h : ∀ (off : Nat) (mask : Word), PLL_CON0_STABLE &&& (mask <<< off) = 0#32 →
      field off mask (withBit con0 PLL_CON0_STABLE b) = field off mask con0 :=
    fun off mask hm => field_congr (withBit_and hm)
  simp only [decodeKhz]
  rw [withBit_and (by decide), withBit_and (by decide), h 8 _ (by decide), h 16 _ (by decide),
    h 0 _ (by decide)]

/-- The fields of the word the switch programs are those of the step. -/
theorem field_program (off : Nat) {mask : Word} (con0 pms : Word)
    (h1 : ~~~(PLL_CON0_ENABLE ||| PLL_CON0_PMS_MASK) &&& (mask <<< off) = 0#32)
    (h2 : PLL_CON0_ENABLE &&& (mask <<< off) = 0#32) :
    field off mask (con0 &&& ~~~(PLL_CON0_ENABLE ||| PLL_CON0_PMS_MASK) ||| PLL_CON0_ENABLE |||
      pms) = field off mask pms := by
  simp only [field_or, field_clear h1, field_outside h2, BitVec.zero_or]

/-- **What the switch programs is not faster than the step.** -/
theorem decodeKhz_program {c : ClusterId} {st : PllStep} (hst : st ∈ c.steps) (con0 : Word) :
    decodeKhz (con0 &&& ~~~(PLL_CON0_ENABLE ||| PLL_CON0_PMS_MASK) ||| PLL_CON0_ENABLE ||| st.pms)
      0#32 ≤ st.freqKhz := by
  obtain ⟨hlow, hpms⟩ := step_pms c st hst
  unfold decodeKhz
  rw [field_program 8 _ _ (by decide) (by decide),
    field_program 16 _ _ (by decide) (by decide),
    field_program 0 _ _ (by decide) (by decide)]
  split
  · exact Nat.zero_le _
  · split
    · exact hlow
    · split
      · exact Nat.zero_le _
      · exact hpms.le

/-! ## 5. One call

The assertion is about the rail and about every write on its way to it, and is kept by the one and
by the other. -/

section Call

variable {c : ClusterId} {st : PllStep} {s t : Dev} {f g : Nat}

theorem Covered.anti (h : Covered c g s) (hf : f ≤ g) : Covered c f s :=
  h.mono (fun _ hv => hv.anti hf)

/-- A landing write is one that was covered already. -/
theorem covered_stable (f : Nat) : (cpu c).toDevice.Stable (Covered c f) := by
  intro e s t h hs
  obtain ⟨buck, hl, rfl⟩ := Option.map_eq_some_iff.mp h
  exact hs.land hl

theorem landing_frame (e : Unit) (h : landing e s = some t) : t.con0 = s.con0 ∧ t.mux = s.mux := by
  obtain ⟨buck, -, rfl⟩ := Option.map_eq_some_iff.mp h
  exact ⟨rfl, rfl⟩

/-- Registers do not change by themselves. -/
theorem regs_stable (R : Word → Word → Prop) :
    (cpu c).toDevice.Stable (fun s => R s.con0 s.mux) := by
  intro e s t h hs
  obtain ⟨h1, h2⟩ := landing_frame e h
  rw [h1, h2]
  exact hs

theorem found_stable : (cpu c).toDevice.Stable (Found c) := by
  intro e s t h hs
  obtain ⟨h1, h2⟩ := landing_frame e h
  have := covered_stable _ e s t h hs
  unfold Found
  rw [h1, h2]
  exact this

/-- **Covered means safe.** -/
theorem Found.railSafe (h : Found c s) : RailSafe c s := by
  rintro f ⟨-, hf⟩
  exact (Ladder.covers_iff_needed (graded c)).mp ((h.value).anti hf)

/-- The cluster runs from the switch clock, and its rail covers the step. -/
def Parked (c : ClusterId) (st : PllStep) (s : Dev) : Prop :=
  s.mux &&& 1 ≠ 0 ∧ Covered c st.freqKhz s

/-- The cluster is programmed to no more than the step, and its rail covers the step. -/
def Settled (c : ClusterId) (st : PllStep) (s : Dev) : Prop :=
  decodeKhz s.con0 s.mux ≤ st.freqKhz ∧ Covered c st.freqKhz s

theorem Parked.found (h : Parked c st s) : Found c s := by
  have h0 : decodeKhz s.con0 s.mux = 0 := by rw [decodeKhz, if_pos h.1]
  exact h.2.anti (h0 ▸ Nat.zero_le _)

theorem Settled.found (h : Settled c st s) : Found c s := h.2.anti h.1

theorem parked_stable : (cpu c).toDevice.Stable (Parked c st) :=
  (regs_stable (fun _ mux => mux &&& 1 ≠ 0)).and (covered_stable _)

theorem settled_stable : (cpu c).toDevice.Stable (Settled c st) :=
  (regs_stable (fun con0 mux => decodeKhz con0 mux ≤ st.freqKhz)).and (covered_stable _)

variable {ok : Dev → (o : Op) → Luck → Bool} {I : Dev → Prop}

/-- Polls change nothing. -/
theorem act_look {o : Op} {l : Luck} {s t : Dev} {r : Ans o}
    (ho : o = .rdMux ∨ o = .rdCon0 ∨ o = .hang) (h : (cpu c).act o l s = some (r, t)) : t = s := by
  rcases ho with rfl | rfl | rfl
  · simp only [cpu, act, Option.some.injEq, Prod.mk.injEq] at h
    exact h.2.symm
  · simp only [cpu, act, Option.some.injEq, Prod.mk.injEq] at h
    exact h.2.symm
  · exact absurd h (by simp [cpu, act])

theorem wp_poll (hI : (cpu c).toDevice.Stable I) (hS : ∀ s, I s → RailSafe c s) {α : Type}
    {p : P α} (hp : p.Uses (fun o => o = .rdMux ∨ o = .rdCon0 ∨ o = .hang)) (hs : I s) :
    wp (cpu c).toDevice ok (fun s _ => RailSafe c s) p (fun _ t => I t) s := by
  refine wp_of_uses hI ?_ (fun o s _ h => hS s h) (fun s h => hS s h) hp hs
  exact fun o ho l s r t h _ hact => act_look ho hact ▸ h

theorem uses_waitMux (spins : Nat) :
    (waitMux spins).Uses (fun o => o = .rdMux ∨ o = .rdCon0 ∨ o = .hang) := by
  induction spins with
  | zero => exact ⟨.inr (.inr rfl), fun e => nomatch e⟩
  | succ spins ih =>
    simp only [waitMux, rdMux, Prog.perform_bind]
    refine ⟨.inl rfl, fun v => ?_⟩
    dsimp only
    split
    · exact ih
    · trivial

theorem uses_pollStable (polls : Nat) :
    (pollStable polls).Uses (fun o => o = .rdMux ∨ o = .rdCon0 ∨ o = .hang) := by
  induction polls with
  | zero => exact ⟨.inr (.inl rfl), fun v => trivial⟩
  | succ polls ih =>
    simp only [pollStable, rdCon0, Prog.perform_bind]
    refine ⟨.inr (.inl rfl), fun v => ?_⟩
    dsimp only
    split
    · trivial
    · exact ih

/-- **The clock switch** under a rail that covers the clock and the step. -/
theorem wp_relock {w : Waits} (hst : st ∈ c.steps) (hs : Found c s)
    (hcov : Covered c st.freqKhz s) :
    wp (cpu c).toDevice ok (fun s _ => RailSafe c s) (relock st w)
      (fun _ t => Settled c st t) s := by
  have hboth := (found_stable (c := c)).and (covered_stable st.freqKhz)
  simp only [relock, wrLocktime, wrMux, rdCon0, wrCon0, Prog.perform_bind]
  refine wp_op_eq (fun _ _ => rfl) hboth ⟨hs, hcov⟩ (fun t ht => ht.1.railSafe) ?_
  intro s1 _ h1 _
  refine wp_op_eq (fun _ _ => rfl) hboth h1 (fun t ht => ht.1.railSafe) ?_
  intro s2 _ h2 _
  -- from here to the last write of the mux the PLL does not matter
  have hsafe : ∀ t, Parked c st t → RailSafe c t := fun t ht => ht.found.railSafe
  have hpark : Parked c st { s2 with mux := 1#32 } :=
    ⟨show 1#32 &&& 1#32 ≠ 0#32 by decide, h2.2⟩
  refine wp_bind (wp_mono ?_ (wp_poll parked_stable hsafe (uses_waitMux _) hpark))
  intro _ t3 h3
  refine wp_op_eq (fun _ _ => rfl) parked_stable h3 hsafe ?_
  intro s4 _ h4 _
  refine wp_op_eq (fun _ _ => rfl) parked_stable h4 hsafe ?_
  intro s5 _ h5 _
  refine wp_op_eq (fun _ _ => rfl) parked_stable h5 hsafe ?_
  intro s6 _ h6 _
  refine wp_op_eq (fun _ _ => rfl) parked_stable h6 hsafe ?_
  intro s7 _ h7 _
  -- the PLL holds the step and stays that way
  have hprog := (@parked_stable c st).and (regs_stable (c := c)
    (fun con0 _ => decodeKhz con0 0#32 ≤ st.freqKhz))
  refine wp_bind (wp_mono ?_ (wp_poll hprog (fun t ht => hsafe t ht.1)
    (uses_pollStable _) ⟨h7, decodeKhz_program hst _⟩))
  intro _ t8 h8
  refine wp_op_eq (fun _ _ => rfl) hprog h8 (fun t ht => hsafe t ht.1) ?_
  intro s9 _ h9 _
  exact wp_poll settled_stable (fun t ht => ht.found.railSafe) (uses_waitMux _)
    ⟨h9.2, h9.1.2⟩

/-- A BUCK write of a value that is enough for `f` keeps `f` covered; acknowledged, it covers
`f` by itself. -/
theorem covered_pmicWrite {v : BitVec 8} {l : Luck} {r : Int}
    (hact : act c (.pmicWrite c.buckReg v) l s = some (r, t)) (hv : Enough c f v) :
    (Covered c f s → Covered c f t) ∧ (r = 0 → Covered c f t) ∧
      t.con0 = s.con0 ∧ t.mux = s.mux := by
  simp only [act, if_true] at hact
  obtain ⟨buck, hw, heq⟩ := Option.map_eq_some_iff.mp hact
  simp only [Prod.mk.injEq] at heq
  obtain ⟨rfl, rfl⟩ := heq
  refine ⟨fun h => LateReg.All.write h hv hw, fun hret => ?_, rfl, rfl⟩
  rw [LateReg.acked_of_ret hw hret] at hw
  exact LateReg.all_acked hv hw

theorem enough_vsel (hst : st ∈ c.steps) : Enough c st.freqKhz st.vsel :=
  Ladder.covers_of_mem hst le_rfl

/-- **One call** leaves the rail as it found it: covering the clock. -/
theorem wp_setStep {w : Waits} (hst : st ∈ c.steps) (hs : Found c s) :
    wp (cpu c).toDevice ok (fun s _ => RailSafe c s) (setStep c st w)
      (fun _ t => Found c t) s := by
  have hsafe : ∀ t, Found c t → RailSafe c t := fun t ht => ht.railSafe
  simp only [setStep, currentKhz, rdCon0, rdMux, Prog.perform_bind, Prog.op_bind]
  refine wp_op_eq (fun _ _ => rfl) found_stable hs hsafe ?_
  intro s1 _ h1 _
  have hregs := (found_stable (c := c)).and (regs_stable (c := c)
    (fun con0 mux => con0 = s1.con0 ∧ mux = s1.mux))
  refine wp_op_eq (fun _ _ => rfl) hregs ⟨h1, rfl, rfl⟩ (fun t ht => hsafe t ht.1) ?_
  intro s2 _ h2 _
  obtain ⟨hf2, hcon, hmux⟩ := h2
  simp only [Prog.pure_eq_ret, Prog.ret_bind]
  rw [← hcon, decodeKhz_withBit]
  by_cases hup : decodeKhz s2.con0 s2.mux < st.freqKhz
  · rw [if_pos hup]
    simp only [pmicWrite, Prog.perform_bind]
    have hslow := (found_stable (c := c)).and (regs_stable (c := c)
      (fun con0 mux => decodeKhz con0 mux < st.freqKhz))
    refine wp_op hslow ⟨hf2, hup⟩ (fun t ht => hsafe t ht.1) ?_
    intro s3 l3 ret t3 h3 _ hact
    obtain ⟨-, hacked, hcon3, hmux3⟩ := covered_pmicWrite hact (enough_vsel hst)
    have hf3 : Found c t3 := by
      have henough := (enough_vsel hst).anti h3.2.le
      unfold Found
      rw [hcon3, hmux3]
      exact (covered_pmicWrite hact henough).1 h3.1
    split
    · exact wp_ret found_stable hf3 hsafe (fun t ht => ht)
    · rename_i hret
      refine wp_bind (wp_mono ?_ (wp_relock hst hf3 (hacked (not_not.mp hret))))
      intro _ t4 h4
      exact wp_ret settled_stable h4 (fun t ht => hsafe t ht.found) (fun t ht => ht.found)
  · rw [if_neg hup]
    -- the rail covers the clock it has, so it covers the slower step
    have hcov : Covered c st.freqKhz s2 := Covered.anti hf2 (not_lt.mp hup)
    refine wp_bind (wp_mono ?_ (wp_relock hst hf2 hcov))
    intro _ t3 h3
    refine wp_op settled_stable h3 (fun t ht => hsafe t ht.found) ?_
    intro s4 l4 ret t4 h4 _ hact
    obtain ⟨hkeep, -, hcon4, hmux4⟩ := covered_pmicWrite hact (enough_vsel hst)
    have h5 : Settled c st t4 := ⟨hcon4 ▸ hmux4 ▸ h4.1, hkeep h4.2⟩
    exact wp_ret settled_stable h5 (fun t ht => hsafe t ht.found) (fun t ht => ht.found)

end Call

/-! ## 6. Every run

Nothing is asked of the runs: no condition on how a write ends, or on how long a wait takes. -/

/-- **CPU rail safety.**  In every configuration of every run, between any two register
accesses, the rail of a cluster covers every rate it may be running at. -/
theorem rail_safe {c : ClusterId} {s : Dev} {p : Option (Thread Op Ans Dev Call Int)}
    (h : (cpu c).Reach System.anyStep s p) : RailSafe c s := by
  have hcall : ∀ k s, Found c s → (cpu c).enabled k s = true →
      wp (cpu c).toDevice (System.anyStep k) (fun s _ => RailSafe c s) ((cpu c).call k)
        (fun _ t => Found c t) s :=
    fun k s hs hk => wp_setStep (of_decide_eq_true hk) hs
  have hall := System.reach_holds (S := fun _ _ s _ => RailSafe c s) (fun s hs => hs)
    found_stable hcall (fun _ _ _ _ h => h) h
  cases p with
  | none => exact Found.railSafe hall
  | some th => exact hall.mid

/-- The M3 cluster at 1066 MHz on 750 mV. -/
def m3At1066 : Dev where
  con0 := PLL_CON0_ENABLE ||| PLL_CON0_MUX_SEL ||| (⟨1066000, 246, 3, 1, 0x48⟩ : PllStep).pms
  mux := 0
  locktime := 0
  buck := ⟨0x48, []⟩

/-- The hardware does at once what it is asked. -/
def prompt : Luck := ⟨true, false, .acked⟩

/-- A call that goes up to 2704 MHz, and one down to 400 MHz whose BUCK write is reported as
failed and lands after the call has returned. -/
def upAndDown : List (System.Ev Unit Luck Call) :=
  .start ⟨⟨2704000, 208, 2, 0, 0x88⟩, ⟨1, 0, 1⟩⟩ :: List.replicate 13 (.op prompt) ++ [.done] ++
    .start ⟨⟨400000, 200, 13, 0, 0x40⟩, ⟨1, 0, 1⟩⟩ :: List.replicate 12 (.op prompt) ++
    [.op { prompt with pmic := .failed 22 true }, .done, .env ()]

theorem rail_safe_up_and_down : ∃ s, (cpu .big).Reach System.anyStep s none ∧
    decodeKhz s.con0 s.mux = 400000 ∧ s.buck.value = 0x40 ∧ RailSafe .big s := by
  have hfound : Found .big m3At1066 := by
    intro v hv
    rw [show v = 0x48 by simpa [m3At1066] using hv]
    exact ⟨⟨1066000, 246, 3, 1, 0x48⟩, by decide, by decide, by decide⟩
  have hrun : ((cpu .big).exec System.anyStep upAndDown (m3At1066, none)).any (fun x =>
      x.2.isNone && decide (decodeKhz x.1.con0 x.1.mux = 400000 ∧ x.1.buck.value = 0x40)) =
      true := by decide +kernel
  obtain ⟨s, p, hr, hp⟩ := System.reach_of_exec (Y := cpu .big) hfound upAndDown _ hrun
  simp only [Bool.and_eq_true, decide_eq_true_eq, Option.isNone_iff_eq_none] at hp
  obtain ⟨rfl, hkhz, hrail⟩ := hp
  exact ⟨s, hr, hkhz, hrail, rail_safe hr⟩

end S9p.Cpufreq
