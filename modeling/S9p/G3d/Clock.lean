/-
# The GPU clock driver

`s9p-g3d.c`, function by function: the relock of PLL_G3D with its rollback, the choice of the
lowest of three requests, the entry points that change one of them, and the probe, which
raises the rail before it publishes the clock.

A request is kept whatever becomes of it: the functions that change one store it first and then
apply the lowest of the three, so that a relock that fails is tried again with the next request.
-/
import S9p.G3d.Block

namespace S9p.G3d

open Field

def ENOMEM : Int := 12
def EAGAIN : Int := 11
def EIO : Int := 5
def EINVAL : Int := 22
def ETIMEDOUT : Int := 110
def EPROBE_DEFER : Int := 517

/-! ## 1. The table

The steps fall, which is how `s9p_g3d_step_below` finds the highest one that is low enough: it takes
the first. -/

/-- `s9p_g3d_steps[0]` and `s9p_g3d_steps[2]`. -/
def topStep : Step := ⟨572000, 286, 13, 0, 0x68⟩
def lowStep : Step := ⟨260000, 160, 4, 2, 0x58⟩

/-- `s9p_g3d_find`. -/
def find (khz : Nat) : Option Step := steps.find? (fun st => decide (st.khz = khz))

/-- `s9p_g3d_step_below`, of an `unsigned int`. -/
def stepBelow (khz : Nat) : Step := (steps.find? (fun st => decide (st.khz ≤ khz))).getD lowStep

/-- `(m << 16) | (p << 8) | s`. -/
def Step.pms (st : Step) : Word :=
  (st.m.setWidth 32 <<< 16) ||| (st.p.setWidth 32 <<< 8) ||| st.s.setWidth 32

/-- The test of `s9p_g3d_pll_is` on the word it reads. -/
def isStep (v : Word) (st : Step) : Bool :=
  decide (field 16 0x3ff#32 v = st.m.setWidth 32 ∧ field 8 0x3f#32 v = st.p.setWidth 32 ∧
    field 0 0x7#32 v = st.s.setWidth 32) && selected v

/-- Whether the PLL is on that step, by its fields. -/
def pllIs (st : Step) : P Bool := do
  let v ← rd .g3d .con0
  return isStep v st

/-! ## 2. `s9p_g3d_set_pll`

The source jumps to the label `restore` from four places.  Here the switch proper returns an error
from each of them, and the caller goes on to the rollback. -/

/-- The switch proper, from PLL_CON2 to the last look at PLL_CON0. -/
def relock (st : Step) : P Int := do
  wr .g3d .con2 0x30000003#32
  wr .g3d .locktime (st.p.setWidth 32 * 150#32)
  -- the block goes to the oscillator before the PLL stops
  let v ← rd .g3d .con0
  wr .g3d .con0 (v &&& ~~~PLL_CON0_MUX_SEL)
  let v ← poll .g3d .con0 PLL_CON0_MUX_BUSY false
  if v &&& PLL_CON0_MUX_BUSY ≠ 0 then return -ETIMEDOUT
  else do
    let v ← rd .g3d .con0
    let v := v &&& ~~~(PLL_CON0_ENABLE ||| PLL_CON0_PMS_MASK)
    wr .g3d .con0 v
    wr .g3d .con0 (v ||| st.pms)
    wr .g3d .con0 (v ||| PLL_CON0_ENABLE ||| st.pms)
    let v ← poll .g3d .con0 PLL_CON0_STABLE true
    if v &&& PLL_CON0_STABLE = 0 then return -ETIMEDOUT
    else do
      let v ← rd .g3d .con0
      wr .g3d .con0 (v ||| PLL_CON0_MUX_SEL)
      let v ← poll .g3d .con0 PLL_CON0_MUX_BUSY false
      if v &&& PLL_CON0_MUX_BUSY ≠ 0 then return -ETIMEDOUT
      else do
        let same ← pllIs st
        return if same then 0 else - EIO

/-- The three stages under the label `restore`.  It begins from whatever the switch has left, with
the values that were read before it. -/
def rollback (oldCon0 oldLocktime : Word) : P Int := do
  let v ← rd .g3d .con0
  wr .g3d .con0 (v &&& ~~~PLL_CON0_MUX_SEL)
  let v ← poll .g3d .con0 PLL_CON0_MUX_BUSY false
  if v &&& PLL_CON0_MUX_BUSY ≠ 0 then return -ETIMEDOUT
  else do
    wr .g3d .con0 (v &&& ~~~PLL_CON0_ENABLE)
    wr .g3d .locktime oldLocktime
    wr .g3d .con0 (oldCon0 &&& ~~~PLL_CON0_MUX_SEL)
    let v ← poll .g3d .con0 PLL_CON0_STABLE true
    if v &&& PLL_CON0_STABLE = 0 then return -ETIMEDOUT
    else do
      wr .g3d .con0 oldCon0
      let v ← poll .g3d .con0 PLL_CON0_MUX_BUSY false
      return if v &&& PLL_CON0_MUX_BUSY ≠ 0 then -ETIMEDOUT else 0

/-- The rail goes up before the clock does. -/
def raise (st : Step) (up : Bool) : P Int := do
  let k ← get
  if k.stepVolt ∧ up ∧ k.railSet then pmicWrite G3D_BUCK6_REG st.vsel else return 0

/-- The rail comes down after the clock has; a failure leaves the higher one. -/
def lower (st : Step) (up : Bool) : P Unit := do
  let k ← get
  if k.stepVolt ∧ !up ∧ k.railSet then do
    let _ ← pmicWrite G3D_BUCK6_REG st.vsel
    return ()
  else return ()

/-- `s9p_g3d_set_pll`.  The rail is written before the clock goes up or after it has come down, and
the direction is taken from `g3d_cur_khz`. -/
def setPll (st : Step) : P Int := do
  mark .setPll
  let oldCon0 ← rd .g3d .con0
  let oldLocktime ← rd .g3d .locktime
  let k ← get
  let up := decide (k.curKhz < st.khz)
  let ret ← raise st up
  if ret ≠ 0 then return ret
  else do
    let ret ← relock st
    if ret ≠ 0 then do
      let failed ← rollback oldCon0 oldLocktime
      if failed ≠ 0 then do
        assign (.curKhz 26000)
        return ret
      else return ret
    else do
      assign (.curKhz st.khz)
      lower st up
      return 0

/-! ## 3. The lowest request

All of these hold `g3d_lock` while they work.  The power-domain driver takes the same lock through
the two exported functions. -/

/-- The step `s9p_g3d_apply` goes for. -/
def target (k : Statics) : Step := stepBelow (min (min k.reqKhz k.thermalKhz) k.maxKhz)

/-- `s9p_g3d_apply`. -/
def apply : P Int := do
  mark .apply
  let k ← get
  if !k.domainPowered then return 0
  else do
    let same ← pllIs (target k)
    if same then do
      assign (.curKhz (target k).khz)
      return 0
    else setPll (target k)

/-- `s9p_g3d_domain_lock`. -/
def domainLock : P Unit := mutexLock

/-- `s9p_g3d_domain_unlock`; a failed deferred request is only logged. -/
def domainUnlock (powered : Bool) : P Unit := do
  mark (.domainUnlock powered)
  assign (.domainPowered powered)
  let k ← get
  if powered ∧ k.con0.isSome ∧ k.railSet then do
    let _ ← apply
    mutexUnlock
  else mutexUnlock

/-- Store a request and apply, under the lock. -/
def request (x : Assign) : P Int := do
  mutexLock
  assign x
  let ret ← apply
  mutexUnlock
  return ret

/-- `s9p_g3d_set_khz`, the thermal cap. -/
def setKhz (khz : Nat) : P Int := do
  if (find khz).isNone then return -EINVAL
  else do
    let k ← get
    if k.con0.isNone ∨ !k.railSet then return -EAGAIN
    else request (.thermalKhz khz)

/-- `s9p_g3d_clk_set`; the rate in kHz is passed on as an `unsigned int`. -/
def clkSet (rate : Nat) : P Int := do
  let k ← get
  if k.con0.isNone ∨ !k.railSet then return -EAGAIN
  else request (.reqKhz (stepBelow (rate / 1000 % 2 ^ 32)).khz)

/-- `s9p_g3d_max_set`, with what `kstrtouint` makes of the text. -/
def maxSet (val : Except Int Nat) : P Int :=
  match val with
  | .error ret => return ret
  | .ok khz => do
    mutexLock
    assign (.maxKhz (stepBelow khz).khz)
    let k ← get
    if k.con0.isSome ∧ k.railSet then do
      let ret ← apply
      mutexUnlock
      return ret
    else do
      mutexUnlock
      return 0

/-! ## 4. Step voltages

While `step_volt` is off the rail stays at 950 mV, which is enough for every step.  Switching it off
takes the rail there first; switching it on takes it down to the step the clock is believed to be
at. -/

/-- `s9p_g3d_step_volt_set`, with what `kstrtobool` makes of the text. -/
def stepVoltSet (val : Except Int Bool) : P Int :=
  match val with
  | .error ret => return ret
  | .ok enable => do
    mutexLock
    let k ← get
    if enable ≠ k.stepVolt ∧ k.railSet then
      match find k.curKhz with
      | none => do
        mutexUnlock
        return - EIO
      | some st => do
        let ret ← pmicWrite G3D_BUCK6_REG (if enable then st.vsel else G3D_VSEL_950MV)
        if ret ≠ 0 then do
          mutexUnlock
          return ret
        else do
          assign (.stepVolt enable)
          mutexUnlock
          return 0
    else do
      assign (.stepVolt enable)
      mutexUnlock
      return 0

/-- `s9p_g3d_rail_uv_get`: an error code or the microvolts it prints. -/
def railUvGet : P (Except Int Nat) := do
  mutexLock
  let r ← pmicRead G3D_BUCK6_REG
  mutexUnlock
  return if r.1 ≠ 0 then .error r.1 else .ok (300000 + r.2.toNat * 6250)

/-! ## 5. Probe

The PMIC firmware may not be there yet when the driver is probed.  The rail write is then tried
again for a while, and after that the probe is put off, up to a number of attempts. -/

def G3D_RAIL_POLLS : Nat := 25
def G3D_RAIL_ATTEMPTS : Nat := 40

/-- The retry loop of `s9p_g3d_rail_up`.  The number counts the attempts that are left; between two
of them the source sleeps, and that is all the time there is in it. -/
def railWrite : Nat → Int → P Int
  | 0, ret => return ret
  | polls + 1, _ => do
    let ret ← pmicWrite G3D_BUCK6_REG G3D_VSEL_950MV
    if ret = 0 then return 0 else railWrite polls ret

/-- `s9p_g3d_rail_up`. -/
def railUp : P Int := do
  let ret ← railWrite G3D_RAIL_POLLS (-ETIMEDOUT)
  if ret ≠ 0 then do
    let k ← get
    assign (.attempts (k.attempts + 1))
    if k.attempts + 1 < G3D_RAIL_ATTEMPTS then return -EPROBE_DEFER else return ret
  else do
    assign .railSet
    mutexLock
    let ret ← apply
    mutexUnlock
    return ret

/-- The three mappings, made once: the pointers outlive a probe that fails. -/
def mapWindows : P Int := do
  let k ← get
  if k.con0.isSome then return 0
  else do
    let w ← ioremap
    assign (.con0 w)
    let w ← ioremap
    assign (.con2 w)
    let w ← ioremap
    assign (.locktime w)
    let k ← get
    if k.con0.isNone ∨ k.con2.isNone ∨ k.locktime.isNone then return -ENOMEM
    else do
      let top ← pllIs topStep
      assign (.curKhz (if top then topStep.khz else lowStep.khz))
      return 0

/-- The rail first, then the clock is published. -/
def publish : P Int := do
  let ret ← railUp
  if ret ≠ 0 then return ret
  else do
    let ret ← kernel .clkHwRegister
    if ret ≠ 0 then return ret else kernel .clkAddProvider

/-- `s9p_g3d_probe`. -/
def probe : P Int := do
  let ret ← mapWindows
  if ret ≠ 0 then return ret else publish

/-- A probe attempt: the driver core unmaps the windows of one that fails. -/
def probeAttempt : P Int := do
  let ret ← probe
  probeDone (decide (ret = 0))
  return ret

/-! ## 6. What the functions are made of

Most properties concern a few operations only.  What each function is made of is read off it once,
and a property that the operations keep is then one of the function. -/

/-- The registers `s9p-g3d` maps. -/
def Reg.Clock : Reg → Prop
  | .con0 => True
  | .con2 => True
  | .locktime => True
  | _ => False

/-- Accesses to them. -/
def RegOp : Op → Prop
  | .rd .g3d r => r.Clock
  | .poll .g3d r _ _ => r.Clock
  | .wr .g3d r _ => r.Clock
  | _ => False

/-- What is done to the rail on the way. -/
def RailOp : Op → Prop
  | .get => True
  | .pmicWrite reg _ => reg = G3D_BUCK6_REG
  | _ => False

/-- The operations of `s9p_g3d_set_pll`. -/
def PllOp : Op → Prop
  | .get => True
  | .mark .setPll => True
  | .assign (.curKhz _) => True
  | .rd .g3d r => r.Clock
  | .poll .g3d r _ _ => r.Clock
  | .wr .g3d r _ => r.Clock
  | .pmicWrite reg _ => reg = G3D_BUCK6_REG
  | _ => False

/-- The operations around `s9p_g3d_apply` in the entry points that change a request, which is
the rate of a step. -/
def RequestOp : Op → Prop
  | .get => True
  | .mutexLock => True
  | .mutexUnlock => True
  | .assign (.reqKhz khz) => ∃ st ∈ steps, st.khz = khz
  | .assign (.maxKhz khz) => ∃ st ∈ steps, st.khz = khz
  | _ => False

/-- Those of `s9p_g3d_set_khz`, which stores the cap. -/
def CapOp (o : Op) : Prop := RequestOp o ∨ ∃ khz, o = .assign (.thermalKhz khz)

/-- The operations of the two step-voltage parameters. -/
def VoltOp : Op → Prop
  | .get => True
  | .mutexLock => True
  | .mutexUnlock => True
  | .assign (.stepVolt _) => True
  | .pmicWrite reg _ => reg = G3D_BUCK6_REG
  | .pmicRead _ => True
  | _ => False

/-- The operations that map the windows in a probe attempt. -/
def MapOp : Op → Prop
  | .get => True
  | .ioremap => True
  | .assign (.con0 _) => True
  | .assign (.con2 _) => True
  | .assign (.locktime _) => True
  | .assign (.curKhz _) => True
  | .rd .g3d r => r.Clock
  | _ => False

/-- The operations around `s9p_g3d_apply` in the rest of the probe. -/
def PublishOp : Op → Prop
  | .get => True
  | .mutexLock => True
  | .mutexUnlock => True
  | .assign (.attempts _) => True
  | .assign .railSet => True
  | .pmicWrite reg _ => reg = G3D_BUCK6_REG
  | .kernel _ => True
  | _ => False

theorem RegOp.pllOp {o : Op} (h : RegOp o) : PllOp o := by
  match o, h with
  | .rd .g3d _, h => exact h
  | .poll .g3d _ _ _, h => exact h
  | .wr .g3d _ _, h => exact h

theorem RailOp.pllOp {o : Op} (h : RailOp o) : PllOp o := by
  match o, h with
  | .get, h => exact h
  | .pmicWrite _ _, h => exact h

theorem uses_pllIs (st : Step) : (pllIs st).Uses RegOp := ⟨trivial, fun _ => trivial⟩

theorem uses_relock (st : Step) : (relock st).Uses RegOp := by
  simp only [relock, rd, poll, wr, Prog.perform_bind]
  refine ⟨trivial, fun _ => ⟨trivial, fun _ => ⟨trivial, fun _ => ⟨trivial, fun _ =>
    ⟨trivial, fun _ => ?_⟩⟩⟩⟩⟩
  dsimp only
  split
  · trivial
  · refine ⟨trivial, fun _ => ⟨trivial, fun _ => ⟨trivial, fun _ => ⟨trivial, fun _ =>
      ⟨trivial, fun _ => ?_⟩⟩⟩⟩⟩
    dsimp only
    split
    · trivial
    · refine ⟨trivial, fun _ => ⟨trivial, fun _ => ⟨trivial, fun _ => ?_⟩⟩⟩
      dsimp only
      split
      · trivial
      · exact Prog.uses_bind (uses_pllIs st) (fun _ => trivial)

theorem uses_rollback (oldCon0 oldLocktime : Word) : (rollback oldCon0 oldLocktime).Uses RegOp := by
  simp only [rollback, rd, poll, wr, Prog.perform_bind]
  refine ⟨trivial, fun _ => ⟨trivial, fun _ => ⟨trivial, fun _ => ?_⟩⟩⟩
  dsimp only
  split
  · trivial
  · refine ⟨trivial, fun _ => ⟨trivial, fun _ => ⟨trivial, fun _ => ⟨trivial, fun _ => ?_⟩⟩⟩⟩
    dsimp only
    split
    · trivial
    · exact ⟨trivial, fun _ => ⟨trivial, fun _ => trivial⟩⟩

theorem uses_raise (st : Step) (up : Bool) : (raise st up).Uses RailOp := by
  simp only [raise, get, pmicWrite, Prog.perform_bind]
  refine ⟨trivial, fun _ => ?_⟩
  dsimp only
  split
  · exact ⟨rfl, fun _ => trivial⟩
  · trivial

theorem uses_lower (st : Step) (up : Bool) : (lower st up).Uses RailOp := by
  simp only [lower, get, pmicWrite, Prog.perform_bind]
  refine ⟨trivial, fun _ => ?_⟩
  dsimp only
  split
  · exact ⟨rfl, fun _ => trivial⟩
  · trivial

theorem uses_setPll (st : Step) : (setPll st).Uses PllOp := by
  simp only [setPll, mark, rd, get, assign, Prog.perform_bind]
  refine ⟨trivial, fun _ => ⟨trivial, fun _ => ⟨trivial, fun _ => ⟨trivial, fun _ => ?_⟩⟩⟩⟩
  refine Prog.uses_bind ((uses_raise st _).mono (fun _ => RailOp.pllOp)) (fun _ => ?_)
  split
  · trivial
  · refine Prog.uses_bind ((uses_relock st).mono (fun _ => RegOp.pllOp)) (fun _ => ?_)
    split
    · refine Prog.uses_bind ((uses_rollback _ _).mono (fun _ => RegOp.pllOp)) (fun _ => ?_)
      split
      · exact ⟨trivial, fun _ => trivial⟩
      · trivial
    · exact ⟨trivial, fun _ => Prog.uses_bind ((uses_lower st _).mono (fun _ => RailOp.pllOp))
        (fun _ => trivial)⟩

/-- `s9p_g3d_apply` adds its own mark. -/
theorem uses_apply : apply.Uses (fun o => PllOp o ∨ o = .mark .apply) := by
  simp only [apply, mark, get, assign, Prog.perform_bind]
  refine ⟨.inr rfl, fun _ => ⟨.inl trivial, fun k => ?_⟩⟩
  dsimp only
  split
  · trivial
  · refine Prog.uses_bind ((uses_pllIs _).mono (fun _ h => .inl (RegOp.pllOp h))) (fun same => ?_)
    split
    · exact ⟨.inl trivial, fun _ => trivial⟩
    · exact (uses_setPll _).mono (fun _ => .inl)

theorem uses_stepVoltSet (val : Except Int Bool) : (stepVoltSet val).Uses VoltOp := by
  cases val with
  | error ret => trivial
  | ok enable =>
    simp only [stepVoltSet, mutexLock, mutexUnlock, get, pmicWrite, assign, Prog.perform_bind]
    refine ⟨trivial, fun _ => ⟨trivial, fun k => ?_⟩⟩
    dsimp only
    split
    · split
      · exact ⟨trivial, fun _ => trivial⟩
      · refine ⟨rfl, fun _ => ?_⟩
        dsimp only
        split
        · exact ⟨trivial, fun _ => trivial⟩
        · exact ⟨trivial, fun _ => ⟨trivial, fun _ => trivial⟩⟩
    · exact ⟨trivial, fun _ => ⟨trivial, fun _ => trivial⟩⟩

theorem uses_railUvGet : railUvGet.Uses VoltOp :=
  ⟨trivial, fun _ => ⟨trivial, fun _ => ⟨trivial, fun _ => trivial⟩⟩⟩

theorem uses_railWrite (polls : Nat) (ret : Int) : (railWrite polls ret).Uses PublishOp := by
  induction polls generalizing ret with
  | zero => trivial
  | succ polls ih =>
    simp only [railWrite, pmicWrite, Prog.perform_bind]
    refine ⟨rfl, fun ret' => ?_⟩
    dsimp only
    split
    · trivial
    · exact ih ret'

theorem uses_mapWindows : mapWindows.Uses MapOp := by
  simp only [mapWindows, get, ioremap, assign, Prog.perform_bind]
  refine ⟨trivial, fun k => ?_⟩
  dsimp only
  split
  · trivial
  · refine ⟨trivial, fun _ => ⟨trivial, fun _ => ⟨trivial, fun _ => ⟨trivial, fun _ =>
      ⟨trivial, fun _ => ⟨trivial, fun _ => ⟨trivial, fun k => ?_⟩⟩⟩⟩⟩⟩⟩
    dsimp only
    split
    · trivial
    · exact ⟨trivial, fun _ => ⟨trivial, fun _ => trivial⟩⟩

section Made

open Prog

theorem made_request {A : Op → Prop} (hA : ∀ o, RequestOp o → A o) {x : Assign}
    (hx : A (.assign x)) : Made A apply (request x) := by
  simp only [request, mutexLock, mutexUnlock, assign, perform_bind]
  exact .op (hA _ trivial) (fun _ => .op hx (fun _ => .call (fun _ =>
    .op (hA _ trivial) (fun _ => .ret _))))

theorem made_setKhz (khz : Nat) : Made CapOp apply (setKhz khz) := by
  simp only [setKhz, get, perform_bind]
  split
  · exact .ret _
  · refine .op (.inl trivial) (fun k => ?_)
    split
    · exact .ret _
    · exact made_request (fun _ => .inl) (.inr ⟨khz, rfl⟩)

theorem stepBelow_mem (khz : Nat) : stepBelow khz ∈ steps := by
  unfold stepBelow
  cases h : steps.find? (fun st => decide (st.khz ≤ khz)) with
  | none => decide
  | some st => exact List.mem_of_find?_eq_some h

theorem made_clkSet (rate : Nat) : Made RequestOp apply (clkSet rate) := by
  simp only [clkSet, get, perform_bind]
  refine .op trivial (fun k => ?_)
  split
  · exact .ret _
  · exact made_request (fun _ h => h) ⟨_, stepBelow_mem _, rfl⟩

theorem made_maxSet (val : Except Int Nat) : Made RequestOp apply (maxSet val) := by
  cases val with
  | error ret => exact .ret _
  | ok khz =>
    simp only [maxSet, mutexLock, mutexUnlock, assign, get, perform_bind]
    refine .op trivial (fun _ => .op ⟨_, stepBelow_mem khz, rfl⟩ (fun _ => .op trivial
      (fun k => ?_)))
    split
    · exact .call (fun _ => .op trivial (fun _ => .ret _))
    · exact .op trivial (fun _ => .ret _)

theorem made_railUp : Made PublishOp apply railUp := by
  simp only [railUp, get, assign, mutexLock, mutexUnlock, perform_bind]
  refine (uses_railWrite _ _).made.bind (fun ret => ?_)
  split
  · refine .op trivial (fun k => .op trivial (fun _ => ?_))
    split
    · exact .ret _
    · exact .ret _
  · exact .op trivial (fun _ => .op trivial (fun _ => .call (fun _ =>
      .op trivial (fun _ => .ret _))))

theorem made_publish : Made PublishOp apply publish := by
  simp only [publish, kernel, perform_bind]
  refine made_railUp.bind (fun ret => ?_)
  split
  · exact .ret _
  · refine .op trivial (fun ret => ?_)
    split
    · exact .ret _
    · exact .op trivial (fun _ => .ret _)

theorem made_probeAttempt :
    Made (fun o => MapOp o ∨ PublishOp o ∨ ∃ b, o = .probeDone b) apply probeAttempt := by
  simp only [probeAttempt, probe, probeDone, perform_bind]
  refine Made.bind ?_ (fun ret => .op (.inr (.inr ⟨_, rfl⟩)) (fun _ => .ret _))
  refine (uses_mapWindows.mono (fun _ => .inl)).made.bind (fun ret => ?_)
  split
  · exact .ret _
  · exact made_publish.mono (fun _ h => .inr (.inl h))

end Made

end S9p.G3d
