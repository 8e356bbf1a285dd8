/-
# The power domain driver

`s9p-g3d-pd.c`, function by function: power-on, power-off with its rollback, and the probe.
The PLL parameters keep their defaults (M = 400, P = 10, S = 2); the counters of successful
switches, which nothing reads, are left out.
-/
import S9p.G3d.Clock

namespace S9p.G3d

open Field

def EBUSY : Int := 16

/-! ## 1. Register helpers

The sequences of the vendor's code are lists of masked writes and waits.  They are written out here
in their order, each access by itself. -/

/-- `rmw`. -/
def rmw (r : Reg) (clear set : Word) : P Unit := do
  let v ← rd .pd r
  wr .pd r ((v &&& ~~~clear) ||| set)

/-- `s9p_g3d_low_power_init`. -/
def lowPowerInit : P Unit := do
  let k ← get
  if k.lowPowerInitialized then return ()
  else do
    rmw (.pmuGlobal 0x4690) 0x3#32 0x2#32
    rmw (.pmuGlobal 0x4680) 0x2#32 0#32
    rmw (.pmuGlobal 0x4684) 0xfff#32 0x363#32
    rmw (.pmuGlobal 0x15a8) 0#32 0x1#32
    rmw (.pmuGlobal 0x15ac) 0#32 0x1#32
    assign (.lowPowerInitialized true)

/-- `PLL_CON0_MDIV(400) | PLL_CON0_PDIV(10) | PLL_CON0_SDIV(2)`. -/
def bootPms : Word := (400#32 <<< 16) ||| (10#32 <<< 8) ||| 2#32

/-- `s9p_g3d_pll_setup`. -/
def pllSetup : P Int := do
  rmw .con0 PLL_CON0_MUX_SEL 0#32
  wr .pd .locktime 1500#32
  let v ← rd .pd .con0
  let v := v &&& ~~~PLL_CON0_PMS_MASK
  wr .pd .con0 (v ||| (PLL_CON0_ENABLE ||| bootPms))
  let v ← poll .pd .con0 PLL_CON0_STABLE true
  return if v &&& PLL_CON0_STABLE = 0 then -ETIMEDOUT else 0

/-! ## 2. Power-on

The domain is switched on through CONFIGURATION, and STATUS follows.  The clock tree has lost its
settings with the power, and is programmed before the protection is restored. -/

/-- The bus dividers: BUSD = PLL_G3D / 1, BUSP = BUSD / 4. -/
def busSetup : P Int := do
  wr .pd .muxBusd 0#32
  wr .pd .divBusd 0#32
  wr .pd .divBusp 3#32
  let v ← poll .pd .divBusp CLK_CON_BUSY false
  return if v &&& CLK_CON_BUSY ≠ 0 then -ETIMEDOUT else 0

/-- The restore of the TrustZone protection, if there is one. -/
def tzRestore : P Int := do
  let k ← get
  if k.smc then do
    let a0 ← smc EXYNOS_WAKEUP_PD_DOWN
    return if a0 ≠ 0 then - EIO else 0
  else return 0

/-- `s9p_g3d_power_on` between taking the lock and giving it back. -/
def powerOnLocked : P Int := do
  wr .pd .con2 0x30000003#32
  let k ← get
  let ret ← (if !k.initialized then pllSetup else pure 0)
  if ret ≠ 0 then return ret
  else do
    rmw .con0 0#32 PLL_CON0_MUX_SEL
    rmw .user 0#32 PLL_CON0_MUX_SEL
    wr .pd .configuration G3D_LOCAL_PWR_CFG
    let v ← poll .pd .status G3D_LOCAL_PWR_CFG true
    if v &&& G3D_LOCAL_PWR_CFG ≠ G3D_LOCAL_PWR_CFG then return -ETIMEDOUT
    else do
      let ret ← tzRestore
      if ret ≠ 0 then return ret
      else do
        let ret ← (if !k.initialized then busSetup else pure 0)
        if ret ≠ 0 then return ret
        else do
          assign (.initialized true)
          return 0

/-- `s9p_g3d_power_on`. -/
def powerOn : P Int := do
  domainLock
  let ret ← powerOnLocked
  domainUnlock (decide (ret = 0))
  return ret

/-! ## 3. Power-off

The order is the other way round, and the step that cannot be undone comes last.  Where it times out
the source powers the domain again; where that fails too, it stops the kernel, which is `panic`
here. -/

/-- A power-down that timed out: power and protection are restored, or the kernel stops. -/
def powerOffUndo : P Unit := do
  wr .pd .configuration G3D_LOCAL_PWR_CFG
  let v ← poll .pd .status G3D_LOCAL_PWR_CFG true
  let failed ←
    (if v &&& G3D_LOCAL_PWR_CFG ≠ G3D_LOCAL_PWR_CFG then pure (-ETIMEDOUT) else tzRestore)
  assign (.alwaysOn true)
  if failed ≠ 0 then do
    domainUnlock false
    panic
  else domainUnlock true

/-- `embedded_g3d_off[]`, once the secure state is saved. -/
def powerCut : P Int := do
  wr .pd .configuration 0#32
  let v ← poll .pd .status G3D_LOCAL_PWR_CFG false
  if v &&& G3D_LOCAL_PWR_CFG ≠ 0 then do
    powerOffUndo
    return -ETIMEDOUT
  else do
    rmw .user PLL_CON0_MUX_SEL 0#32
    rmw .con0 PLL_CON0_MUX_SEL 0#32
    wr .pd .con2 0x10000001#32
    domainUnlock false
    return 0

/-- The save of the TrustZone protection, if there is one: what the monitor returns. -/
def tzSave : P Int := do
  let k ← get
  if k.smc then smc EXYNOS_GET_IN_PD_DOWN else return 0

/-- `s9p_g3d_power_off`. -/
def powerOff : P Int := do
  let k ← get
  if k.alwaysOn then return -EBUSY
  else do
    domainLock
    lowPowerInit
    -- the secure state is saved before power is cut
    let a0 ← tzSave
    if a0 ≠ 0 then do
      domainUnlock true
      return - EIO
    else powerCut

/-! ## 4. Probe

A domain that the firmware has left on is registered as on, and switched off by the core when nobody
uses it. -/

/-- The windows of the domain. -/
def pdResources : P Int := do
  let ret ← kernel (.pdResource 0)
  if ret ≠ 0 then return ret
  else do
    let ret ← kernel (.pdResource 1)
    if ret ≠ 0 then return ret else kernel (.pdResource 2)

/-- `pm_genpd_init` and `of_genpd_add_provider_simple`: from here on the core switches the
domain, which it takes to be on or off as it is told. -/
def register (on : Bool) : P Int := do
  let ret ← kernel .genpdInit
  if ret ≠ 0 then return ret
  else do
    let ret ← kernel .genpdAddProvider
    if ret ≠ 0 then return ret
    else do
      setGenpd on
      return 0

/-- `s9p_g3d_pd_probe`. -/
def pdProbe : P Int := do
  let ret ← kernel .pdAlloc
  if ret ≠ 0 then return ret
  else do
    let ret ← pdResources
    if ret ≠ 0 then return ret
    else do
      assign (.lowPowerInitialized false)
      let v ← rd .pd .status
      let on := decide (v &&& G3D_LOCAL_PWR_CFG = G3D_LOCAL_PWR_CFG)
      assign (.initialized on)
      let k ← get
      if !on ∧ k.alwaysOn then do
        let ret ← powerOn
        if ret ≠ 0 then return ret else register true
      else register on

/-! ## 5. The calls

The two drivers are one system, as they meet on one block.  The calls are those that other parts of
the kernel make, in any order the kernel allows. -/

/-- The power-domain core's side of a switch. -/
def genpdPowerOn : P Int := do
  let ret ← powerOn
  if ret = 0 then do
    setGenpd true
    return 0
  else return ret

def genpdPowerOff : P Int := do
  let ret ← powerOff
  if ret = 0 then do
    setGenpd false
    return 0
  else return ret

/-- The poll of the cpufreq driver, with `s9p_g3d_set_khz` as it is. -/
def policyPoll (p : Cpufreq.Poll) : P Int := do
  let k ← get
  let policy ← Cpufreq.policyWork setKhz p k.policy
  assign (.policy policy)
  return 0

/-- The calls from outside, into both drivers, and the thermal poll. -/
inductive Call where
  | probe
  | stepVoltSet (val : Except Int Bool)
  | railUvGet
  | setKhz (khz : Nat)
  | maxSet (val : Except Int Nat)
  | clkSet (rate : Nat)
  | policyWork (p : Cpufreq.Poll)
  | pdProbe
  | powerOn
  | powerOff
  | alwaysOnSet (b : Bool)

def program : Call → P Int
  | .probe => probeAttempt
  | .stepVoltSet val => stepVoltSet val
  | .railUvGet => do
    let r ← railUvGet
    return match r with
      | .error ret => ret
      | .ok uv => uv
  | .setKhz khz => setKhz khz
  | .maxSet val => maxSet val
  | .clkSet rate => clkSet rate
  | .policyWork p => policyPoll p
  | .pdProbe => pdProbe
  | .powerOn => genpdPowerOn
  | .powerOff => genpdPowerOff
  | .alwaysOnSet b => do
    assign (.alwaysOn b)
    return 0

/-- A device is probed until it is bound; the core powers on what is off and off what is on. -/
def enabled : Call → Gpu → Bool
  | .probe, s => !s.bound
  | .pdProbe, s => s.genpd.isNone
  | .powerOn, s => s.genpd == some false
  | .powerOff, s => s.genpd == some true
  | _, _ => true

/-- The block as the kernel finds it: the statics as they are loaded, nothing mapped or
registered, and the domain on (its CONFIGURATION says so) or off. -/
structure Boot (s : Gpu) : Prop where
  pointers : s.vars.con0 = none ∧ s.vars.con2 = none ∧ s.vars.locktime = none
  railSet : s.vars.railSet = false
  domainPowered : s.vars.domainPowered = true
  curKhz : s.vars.curKhz = 0
  requests : s.vars.reqKhz = 572000 ∧ s.vars.thermalKhz = 572000 ∧ s.vars.maxKhz = 572000
  stepVolt : s.vars.stepVolt = false
  attempts : s.vars.attempts = 0
  policy : Cpufreq.Fresh s.vars.policy
  tzSaved : s.tzSaved = false
  locked : s.locked = false
  windows : s.windows = 0 ∧ s.released = 0
  bound : s.bound = false
  genpd : s.genpd = none
  found : s.regs .status &&& G3D_LOCAL_PWR_CFG = G3D_LOCAL_PWR_CFG → s.Settled

/-- **The G3D block with its two drivers.**  Calls are made one at a time, as `g3d_lock` has them
wherever they reach the clock; what a probe attempt does outside of the lock (it maps its windows
and writes 950 mV) is taken in one piece as well.  An interleaving inside the lock would be one the
source excludes. -/
def gpu : System Op Ans Gpu Env Luck Call Int where
  env := drift
  act := act
  init := Boot
  enabled := enabled
  call := program

/-- The block at boot, on 572 MHz, the domain on or off. -/
def found (on : Bool) : Gpu where
  vars := {
    con0 := none, con2 := none, locktime := none, railSet := false, domainPowered := true,
    curKhz := 0, reqKhz := 572000, thermalKhz := 572000, maxKhz := 572000, stepVolt := false,
    attempts := 0, smc := true, alwaysOn := false, initialized := false,
    lowPowerInitialized := false, policy := Cpufreq.atBoot }
  regs
    | .con0 => PLL_CON0_ENABLE ||| PLL_CON0_MUX_SEL ||| topStep.pms
    | .configuration => if on then 0xf#32 else 0#32
    | .status => if on then 0xf#32 else 0#32
    | _ => 0#32
  onPll := true
  buck6 := ⟨0x37, []⟩
  tzSaved := false
  locked := false
  windows := 0
  released := 0
  bound := false
  genpd := none

theorem boot_found (on : Bool) : Boot (found on) where
  pointers := ⟨rfl, rfl, rfl⟩
  railSet := rfl
  domainPowered := rfl
  curKhz := rfl
  requests := ⟨rfl, rfl, rfl⟩
  stepVolt := rfl
  attempts := rfl
  policy := Cpufreq.fresh_atBoot
  tzSaved := rfl
  locked := rfl
  windows := ⟨rfl, rfl⟩
  bound := rfl
  genpd := rfl
  found := by cases on <;> decide

/-- The hardware does at once what it is asked. -/
def prompt : Luck := ⟨true, false, .acked, true, 0⟩

/-- The PMIC firmware does not answer. -/
def silent : Luck := { prompt with pmic := .failed (-110) false }

/-- The mux does not get there in time. -/
def stuck : Luck := { prompt with busy := true }

abbrev Ev := System.Ev Env Luck Call

/-- A call whose operations meet the luck of the list, one after the other, and which returns. -/
def callWith (c : Call) (ls : List Luck) : List Ev := .start c :: ls.map System.Ev.op ++ [.done]

/-- The same, with the mux following before every operation. -/
def callMoving (c : Call) (ls : List Luck) : List Ev :=
  .start c :: ls.flatMap (fun l => [.env .muxMove, .op l]) ++ [.done]

/-! ## 6. What the functions are made of

The same reading as for the clock driver: which operations each function performs, and where in it
`s9p_g3d_apply` is called. -/

/-- The operations of the power-domain driver around `s9p_g3d_apply`. -/
def PdOp : Op → Prop
  | .get => True
  | .rd .pd _ => True
  | .poll .pd _ _ _ => True
  | .wr .pd _ _ => True
  | .smc _ => True
  | .kernel _ => True
  | .mutexLock => True
  | .mutexUnlock => True
  | .mark (.domainUnlock _) => True
  | .assign (.domainPowered _) => True
  | .assign (.initialized _) => True
  | .assign (.lowPowerInitialized _) => True
  | .assign (.alwaysOn _) => True
  | .genpd _ => True
  | .panic => True
  | _ => False

/-- Those it performs while it holds the lock: it works on its registers, PLL_CON0 among them,
through its own windows. -/
def SectionOp : Op → Prop
  | .get => True
  | .rd .pd _ => True
  | .poll .pd _ _ _ => True
  | .wr .pd _ _ => True
  | .smc _ => True
  | .kernel _ => True
  | .assign (.initialized _) => True
  | .assign (.lowPowerInitialized _) => True
  | .assign (.alwaysOn _) => True
  | .panic => True
  | _ => False

/-- Those that leave PLL_CON0 alone. -/
def SwitchOp : Op → Prop
  | .wr .pd .con0 _ => False
  | o => PdOp o

/-- Those of `s9p_g3d_low_power_init`. -/
def LpmOp : Op → Prop
  | .get => True
  | .rd .pd (.pmuGlobal _) => True
  | .wr .pd (.pmuGlobal _) _ => True
  | .assign (.lowPowerInitialized _) => True
  | _ => False

/-- Those that program the clock tree. -/
def CmuOp : Op → Prop
  | .rd .pd _ => True
  | .poll .pd _ _ _ => True
  | .wr .pd r _ => r ≠ .configuration ∧ r ≠ .status
  | _ => False

theorem uses_rmw {A : Op → Prop} {r : Reg} (hrd : A (.rd .pd r)) (hwr : ∀ v, A (.wr .pd r v))
    (clear set : Word) : (rmw r clear set).Uses A :=
  ⟨hrd, fun _ => ⟨hwr _, fun _ => trivial⟩⟩

theorem uses_lowPowerInit : lowPowerInit.Uses LpmOp := by
  have hrmw : ∀ off clear set, (rmw (.pmuGlobal off) clear set).Uses LpmOp :=
    fun off => uses_rmw (r := .pmuGlobal off) trivial (fun _ => trivial)
  simp only [lowPowerInit, get, Prog.perform_bind]
  refine ⟨trivial, fun k => ?_⟩
  dsimp only
  split
  · trivial
  · exact Prog.uses_bind (hrmw _ _ _) (fun _ => Prog.uses_bind (hrmw _ _ _) (fun _ =>
      Prog.uses_bind (hrmw _ _ _) (fun _ => Prog.uses_bind (hrmw _ _ _) (fun _ =>
        Prog.uses_bind (hrmw _ _ _) (fun _ => ⟨trivial, fun _ => trivial⟩)))))

theorem uses_pllSetup : pllSetup.Uses CmuOp := by
  refine Prog.uses_bind (uses_rmw trivial (fun _ => ⟨by simp, by simp⟩) _ _) (fun _ => ?_)
  exact ⟨⟨by simp, by simp⟩, fun _ => ⟨trivial, fun _ => ⟨⟨by simp, by simp⟩, fun _ =>
    ⟨trivial, fun _ => trivial⟩⟩⟩⟩

theorem uses_busSetup : busSetup.Uses CmuOp :=
  ⟨⟨by simp, by simp⟩, fun _ => ⟨⟨by simp, by simp⟩, fun _ => ⟨⟨by simp, by simp⟩, fun _ =>
    ⟨trivial, fun _ => trivial⟩⟩⟩⟩

theorem lpmOp_switchOp {o : Op} (ho : LpmOp o) : SwitchOp o := by
  match o, ho with
  | .get, _ | .rd .pd (.pmuGlobal _), _ | .wr .pd (.pmuGlobal _) _, _
  | .assign (.lowPowerInitialized _), _ => trivial

theorem cmuOp_sectionOp {o : Op} (ho : CmuOp o) : SectionOp o := by
  match o, ho with
  | .rd .pd _, _ => trivial
  | .poll .pd _ _ _, _ => trivial
  | .wr .pd _ _, _ => trivial

theorem sectionOp_pdOp {o : Op} (ho : SectionOp o) : PdOp o := by
  match o, ho with
  | .get, _ | .rd .pd _, _ | .poll .pd _ _ _, _ | .wr .pd _ _, _ | .smc _, _ | .kernel _, _
  | .assign (.initialized _), _ | .assign (.lowPowerInitialized _), _ | .assign (.alwaysOn _), _
  | .panic, _ => trivial

theorem switchOp_pdOp {o : Op} (ho : SwitchOp o) : PdOp o := by
  unfold SwitchOp at ho
  split at ho
  · exact ho.elim
  · exact ho

theorem uses_tzRestore {A : Op → Prop} (hget : A .get) (hsmc : ∀ cmd, A (.smc cmd)) :
    tzRestore.Uses A := by
  simp only [tzRestore, get, smc, Prog.perform_bind]
  refine ⟨hget, fun k => ?_⟩
  dsimp only
  split
  · exact ⟨hsmc _, fun _ => trivial⟩
  · trivial

theorem uses_powerOnLocked : powerOnLocked.Uses SectionOp := by
  have hrmw : ∀ r clear set, (rmw r clear set).Uses SectionOp :=
    fun r => uses_rmw trivial (fun _ => trivial)
  simp only [powerOnLocked, wr, poll, get, assign, Prog.perform_bind]
  refine ⟨trivial, fun _ => ⟨trivial, fun k => ?_⟩⟩
  refine Prog.uses_bind ?_ (fun ret => ?_)
  · split
    · exact uses_pllSetup.mono (fun _ => cmuOp_sectionOp)
    · trivial
  split
  · trivial
  · refine Prog.uses_bind (hrmw _ _ _) (fun _ => Prog.uses_bind (hrmw _ _ _) (fun _ =>
      ⟨trivial, fun _ => ⟨trivial, fun v => ?_⟩⟩))
    dsimp only
    split
    · trivial
    · refine Prog.uses_bind (uses_tzRestore trivial (fun _ => trivial)) (fun ret => ?_)
      split
      · trivial
      · refine Prog.uses_bind ?_ (fun ret => ?_)
        · split
          · exact uses_busSetup.mono (fun _ => cmuOp_sectionOp)
          · trivial
        split
        · trivial
        · exact ⟨trivial, fun _ => trivial⟩

section Made

open Prog

theorem made_pdUnlock (powered : Bool) : Made SwitchOp apply (domainUnlock powered) := by
  simp only [domainUnlock, mark, mutexUnlock, assign, get, perform_bind]
  refine .op trivial (fun _ => .op trivial (fun _ => .op trivial (fun k => ?_)))
  split
  · exact .call (fun _ => .op trivial (fun _ => .ret _))
  · exact .op trivial (fun _ => .ret _)

theorem made_powerOn : Made PdOp apply powerOn := by
  simp only [powerOn, domainLock, mutexLock, perform_bind]
  exact .op trivial (fun _ =>
    (uses_powerOnLocked.mono (fun _ => sectionOp_pdOp)).made.bind (fun ret =>
      ((made_pdUnlock _).mono (fun _ => switchOp_pdOp)).bind (fun _ => .ret _)))

theorem made_powerOffUndo : Made SwitchOp apply powerOffUndo := by
  simp only [powerOffUndo, wr, poll, assign, panic, perform_bind]
  refine .op trivial (fun _ => .op trivial (fun v => ?_))
  refine Made.bind ?_ (fun ret => .op trivial (fun _ => ?_))
  · split
    · exact .ret _
    · exact (uses_tzRestore trivial (fun _ => trivial)).made
  split
  · exact (made_pdUnlock _).bind (fun _ => .op trivial (fun e => Empty.elim e))
  · exact made_pdUnlock _

theorem made_powerCut : Made PdOp apply powerCut := by
  have hrmw : ∀ r clear set, Made PdOp apply (rmw r clear set) :=
    fun r clear set => (uses_rmw trivial (fun _ => trivial) clear set).made
  simp only [powerCut, wr, poll, perform_bind]
  refine .op trivial (fun _ => .op trivial (fun v => ?_))
  split
  · exact (made_powerOffUndo.mono (fun _ => switchOp_pdOp)).bind (fun _ => .ret _)
  · refine (hrmw _ _ _).bind (fun _ => (hrmw _ _ _).bind (fun _ => ?_))
    exact .op trivial (fun _ => ((made_pdUnlock _).mono (fun _ => switchOp_pdOp)).bind
      (fun _ => .ret _))

theorem uses_tzSave : tzSave.Uses SwitchOp := by
  simp only [tzSave, get, smc, perform_bind]
  refine ⟨trivial, fun k => ?_⟩
  dsimp only
  split
  · exact ⟨trivial, fun _ => trivial⟩
  · trivial

theorem made_powerOff : Made PdOp apply powerOff := by
  simp only [powerOff, get, domainLock, mutexLock, perform_bind]
  refine .op trivial (fun k => ?_)
  split
  · exact .ret _
  · refine .op trivial (fun _ => Made.bind
      (uses_lowPowerInit.mono (fun _ ho => switchOp_pdOp (lpmOp_switchOp ho))).made
      (fun _ => (uses_tzSave.mono (fun _ => switchOp_pdOp)).made.bind (fun a0 => ?_)))
    split
    · exact ((made_pdUnlock _).mono (fun _ => switchOp_pdOp)).bind (fun _ => .ret _)
    · exact made_powerCut

/-! What the driver core calls leaves PLL_CON0 to power-on and power-off. -/

theorem made_register {α : Type} {p₀ : P α} (on : Bool) : Made SwitchOp p₀ (register on) := by
  simp only [register, kernel, setGenpd, perform_bind]
  refine .op trivial (fun ret => ?_)
  split
  · exact .ret _
  · refine .op trivial (fun ret => ?_)
    split
    · exact .ret _
    · exact .op trivial (fun _ => .ret _)

theorem calls_pdProbe : Made SwitchOp powerOn pdProbe := by
  simp only [pdProbe, pdResources, kernel, assign, rd, get, perform_bind]
  refine .op trivial (fun ret => ?_)
  split
  · exact .ret _
  · refine Made.bind (.op trivial (fun ret => ?_)) (fun ret => ?_)
    · split
      · exact .ret _
      · refine .op trivial (fun ret => ?_)
        split
        · exact .ret _
        · exact .op trivial (fun _ => .ret _)
    · split
      · exact .ret _
      · refine .op trivial (fun _ => .op trivial (fun v => .op trivial (fun _ => .op trivial
          (fun k => ?_))))
        split
        · refine .call (fun ret => ?_)
          split
          · exact .ret _
          · exact made_register true
        · exact made_register _

theorem calls_genpdPowerOn : Made SwitchOp powerOn genpdPowerOn := by
  refine .call (fun ret => ?_)
  split
  · exact .op trivial (fun _ => .ret _)
  · exact .ret _

theorem calls_genpdPowerOff : Made SwitchOp powerOff genpdPowerOff := by
  refine .call (fun ret => ?_)
  split
  · exact .op trivial (fun _ => .ret _)
  · exact .ret _

theorem made_pdProbe : Made PdOp apply pdProbe :=
  (calls_pdProbe.mono (fun _ => switchOp_pdOp)).trans made_powerOn

theorem made_genpdPowerOn : Made PdOp apply genpdPowerOn :=
  (calls_genpdPowerOn.mono (fun _ => switchOp_pdOp)).trans made_powerOn

theorem made_genpdPowerOff : Made PdOp apply genpdPowerOff :=
  (calls_genpdPowerOff.mono (fun _ => switchOp_pdOp)).trans made_powerOff

/-- The poll adds one assignment to the operations of a request. -/
theorem made_policyPoll {A : Op → Prop} (hA : ∀ o, CapOp o → A o)
    (hpolicy : ∀ s, A (.assign (.policy s))) (p : Cpufreq.Poll) :
    Made A apply (policyPoll p) := by
  simp only [policyPoll, get, assign, perform_bind]
  refine .op (hA _ (.inl trivial)) (fun k => Made.bind ?_ (fun s =>
    .op (hpolicy s) (fun _ => .ret _)))
  simp only [Cpufreq.policyWork]
  split
  · refine ((made_setKhz _).mono hA).bind (fun ret => ?_)
    split
    · exact .ret _
    · exact .ret _
  · exact .ret _

end Made

end S9p.G3d
