/-
# The USB PHY

Four calls of the PHY core bring the USB 2.0 PHY up and down and let it out of the isolation of the
PMU.  TWRP or the previous kernel may have left anything in its registers.

* `phy_runs`: whatever the calls so far, what is in the registers depends on what was there at first
  and on two things only, whether the PHY is up or down and what was last done to the isolation.  A
  PHY that has been down is brought up as it was the first time.
* `up_ready`: a PHY that is up is out of reset and powered, with VBUS forced valid.
-/
import S9p.Lib.Regs

namespace S9p.Usb

open Regs

/-! ## 1. The driver

Straight-line code, written as the list of its register updates.  Reads are there only to write the
register back with some bits changed. -/

/-- The registers of USBCON that are written, and the two of the PMU. -/
inductive Reg where
  | linkCtrl
  | linkPort
  | clkrst
  | comboPmaCtrl
  | utmi
  | hsp
  | hspTune
  | hspTest
  | rewaEnable
  | hsrewaCtrl
  | hsrewaRefto
  | hsrewaHstk
  | hsrewaInt1Mask
  | pmuUsb20PhyCtrl
  | pmuUsb3dpPhyCtrl
  deriving DecidableEq

def BIT (n : Nat) : BitVec 32 := 1#32 <<< n

def LINKCTRL_PIPE3_FORCE_RX_ELEC_IDLE := BIT 18
def LINKCTRL_PIPE3_FORCE_PHY_STATUS := BIT 17
def LINKCTRL_PIPE3_FORCE_EN := BIT 16
def LINKCTRL_DIS_QACT_LINKGATE := BIT 12
def LINKCTRL_DIS_QACT_ID0 := BIT 11
def LINKCTRL_DIS_QACT_VBUS_VALID := BIT 10
def LINKCTRL_DIS_QACT_BVALID := BIT 9
def LINKCTRL_FORCE_QACT := BIT 8
def LINKCTRL_BUS_FILTER_BYPASS_MASK : BitVec 32 := 0xf <<< 4
def LINKPORT_HUB_PORT_SEL_OCD_U3 := BIT 3
def LINKPORT_HUB_PORT_SEL_OCD_U2 := BIT 2
def CLKRST_PHY_SW_RST := BIT 3
def CLKRST_PHY_RST_SEL := BIT 2
def CLKRST_PORT_RST := BIT 1
def CLKRST_LINK_SW_RST := BIT 0
def PMA_LOW_PWRN := BIT 4
def UTMI_FORCE_VBUSVALID := BIT 5
def UTMI_FORCE_BVALID := BIT 4
def UTMI_DP_PULLDOWN := BIT 3
def UTMI_DM_PULLDOWN := BIT 2
def UTMI_FORCE_SUSPEND := BIT 1
def UTMI_FORCE_SLEEP := BIT 0
def HSP_VBUSVLDEXTSEL := BIT 13
def HSP_VBUSVLDEXT := BIT 12
def HSP_EN_UTMISUSPEND := BIT 9
def HSP_COMMONONN := BIT 8
def HSP_TEST_SIDDQ := BIT 24
def REWA_ENABLE_HS_REWA_EN := BIT 0
def HSREWA_CTRL_DIG_BYPASS_CON_EN := BIT 28
def HSREWA_CTRL_DPDM_MON_SEL := BIT 24
def HSREWA_INT1_ALL := BIT 18 ||| BIT 17 ||| BIT 16 ||| BIT 2 ||| BIT 1 ||| BIT 0
def PMU_PHY_ENABLE := BIT 0

/-- The fields of the HS tuning: their masks, and `x` in them. -/
def HSP_TUNE_TXVREF (x : BitVec 32) : BitVec 32 := (x &&& 0xf) <<< 28
def HSP_TUNE_TXRISE (x : BitVec 32) : BitVec 32 := (x &&& 0x3) <<< 24
def HSP_TUNE_TXRES (x : BitVec 32) : BitVec 32 := (x &&& 0x3) <<< 21
def HSP_TUNE_TXPREEMPA (x : BitVec 32) : BitVec 32 := (x &&& 0x3) <<< 18
def HSP_TUNE_SQRX (x : BitVec 32) : BitVec 32 := (x &&& 0x7) <<< 8
def HSP_TUNE_COMPDIS (x : BitVec 32) : BitVec 32 := (x &&& 0x7) <<< 0

def S9P_HSP_TUNE_MASK : BitVec 32 :=
  0xf <<< 28 ||| 0x3 <<< 24 ||| 0x3 <<< 21 ||| 0x3 <<< 18 ||| 0x7 <<< 8 ||| 0x7 <<< 0

def S9P_HSP_TUNE_VAL : BitVec 32 :=
  HSP_TUNE_TXVREF 0xd ||| HSP_TUNE_TXRISE 1 ||| HSP_TUNE_TXRES 3 ||| HSP_TUNE_TXPREEMPA 3 |||
    HSP_TUNE_SQRX 4 ||| HSP_TUNE_COMPDIS 3

/-- The two module parameters, and whether there is a PMU syscon. -/
structure Config where
  tune : Bool
  rewa : Bool
  pmu : Bool
  deriving DecidableEq

abbrev Code := List (Reg × Upd 32)

def rmw (reg : Reg) (clear set : BitVec 32) : Reg × Upd 32 := (reg, ⟨clear, set⟩)

def writel (val : BitVec 32) (reg : Reg) : Reg × Upd 32 := (reg, .put val)

/-- `regmap_update_bits`. -/
def regmapUpdateBits (reg : Reg) (mask val : BitVec 32) : Reg × Upd 32 :=
  (reg, ⟨mask, val &&& mask⟩)

/-- `s9p_usbphy_pmu`. -/
def usbphyPmu (c : Config) (on : Bool) : Code :=
  if !c.pmu then []
  else
    [regmapUpdateBits .pmuUsb20PhyCtrl PMU_PHY_ENABLE (if on then PMU_PHY_ENABLE else 0),
      regmapUpdateBits .pmuUsb3dpPhyCtrl PMU_PHY_ENABLE (if on then PMU_PHY_ENABLE else 0)]

def DIS_QACT : BitVec 32 :=
  LINKCTRL_DIS_QACT_ID0 ||| LINKCTRL_DIS_QACT_VBUS_VALID ||| LINKCTRL_DIS_QACT_BVALID |||
    LINKCTRL_DIS_QACT_LINKGATE

/-- `s9p_usbphy_q_ch`. -/
def usbphyQCh (enable : Bool) : Code :=
  if enable then
    [rmw .linkCtrl LINKCTRL_FORCE_QACT DIS_QACT, rmw .linkCtrl 0 LINKCTRL_FORCE_QACT]
  else [rmw .linkCtrl LINKCTRL_FORCE_QACT DIS_QACT]

/-- `s9p_usbphy_rewa_ready`. -/
def usbphyRewaReady : Code :=
  [rmw .rewaEnable REWA_ENABLE_HS_REWA_EN 0,
    rmw .hsrewaCtrl HSREWA_CTRL_DPDM_MON_SEL HSREWA_CTRL_DIG_BYPASS_CON_EN,
    writel 0x1 .hsrewaHstk,
    writel 0xff00 .hsrewaRefto,
    rmw .hsrewaInt1Mask 0 HSREWA_INT1_ALL]

/-- `s9p_usbphy_init` behind the clocks and the isolation. -/
def usbphyEnable (c : Config) : Code :=
  usbphyQCh true ++
  [ -- link reset
    rmw .clkrst 0 CLKRST_LINK_SW_RST,
    rmw .clkrst CLKRST_LINK_SW_RST 0,
    -- PHY reset high
    rmw .clkrst 0 (CLKRST_PHY_SW_RST ||| CLKRST_PHY_RST_SEL),
    rmw .hspTest HSP_TEST_SIDDQ 0,
    rmw .utmi (UTMI_FORCE_SUSPEND ||| UTMI_FORCE_SLEEP ||| UTMI_DP_PULLDOWN ||| UTMI_DM_PULLDOWN) 0,
    rmw .hsp 0 (HSP_EN_UTMISUSPEND ||| HSP_COMMONONN),
    -- PHY reset low
    rmw .clkrst (CLKRST_PHY_SW_RST ||| CLKRST_PORT_RST) CLKRST_PHY_RST_SEL,
    -- no VBUS pad
    rmw .linkCtrl 0 LINKCTRL_BUS_FILTER_BYPASS_MASK,
    rmw .utmi 0 (UTMI_FORCE_BVALID ||| UTMI_FORCE_VBUSVALID),
    rmw .hsp 0 (HSP_VBUSVLDEXTSEL ||| HSP_VBUSVLDEXT),
    rmw .linkPort 0 (LINKPORT_HUB_PORT_SEL_OCD_U3 ||| LINKPORT_HUB_PORT_SEL_OCD_U2)] ++
  (if c.rewa then usbphyRewaReady else []) ++
  [ -- the USB3 side idle
    rmw .linkCtrl LINKCTRL_PIPE3_FORCE_PHY_STATUS
      (LINKCTRL_PIPE3_FORCE_EN ||| LINKCTRL_PIPE3_FORCE_RX_ELEC_IDLE),
    rmw .comboPmaCtrl 0 PMA_LOW_PWRN] ++
  if c.tune then [rmw .hspTune S9P_HSP_TUNE_MASK S9P_HSP_TUNE_VAL] else []

/-- The registers in `s9p_usbphy_exit`. -/
def usbphyDisable : Code :=
  [rmw .utmi 0 (UTMI_FORCE_SUSPEND ||| UTMI_FORCE_SLEEP), rmw .hspTest 0 HSP_TEST_SIDDQ] ++
  usbphyQCh false

/-- What a call finds and changes: the registers, and how often the clocks are enabled. -/
structure Phy where
  regs : Reg → BitVec 32
  clocks : Nat

/-- `s9p_usbphy_init`; `clk` is what `clk_bulk_prepare_enable` returns. -/
def usbphyInit (c : Config) (clk : Int) (p : Phy) : Int × Phy :=
  if clk ≠ 0 then (clk, p)
  else (0, ⟨run (usbphyPmu c true ++ usbphyEnable c) p.regs, p.clocks + 1⟩)

/-- `s9p_usbphy_exit`. -/
def usbphyExit (p : Phy) : Int × Phy := (0, ⟨run usbphyDisable p.regs, p.clocks - 1⟩)

/-- `s9p_usbphy_power_on`. -/
def usbphyPowerOn (c : Config) (p : Phy) : Int × Phy :=
  (0, { p with regs := run (usbphyPmu c true) p.regs })

/-- `s9p_usbphy_power_off`. -/
def usbphyPowerOff (c : Config) (p : Phy) : Int × Phy :=
  (0, { p with regs := run (usbphyPmu c false) p.regs })

/-- A call of the PHY core. -/
inductive Call where
  | init (clk : Int)
  | exit
  | powerOn
  | powerOff

/-- A call, with what it leaves; what it returns is left out. -/
def step (c : Config) (p : Phy) : Call → Phy
  | .init clk => (usbphyInit c clk p).2
  | .exit => (usbphyExit p).2
  | .powerOn => (usbphyPowerOn c p).2
  | .powerOff => (usbphyPowerOff c p).2

/-! ## 2. What the calls are for

The PHY core keeps the order of the calls.  What is left of any number of them is the code of the
last ones. -/

inductive Stage where
  | untouched
  | up
  | down
  deriving DecidableEq

/-- Whether the PHY is up, and what was last done to the isolation.  Everything else about the calls
so far has left no trace. -/
structure Use where
  stage : Stage
  power : Option Bool

/-- The core initialises only a PHY that is not up, and exits only one that is. -/
def Use.step (u : Use) : Call → Option Use
  | .init clk =>
    if u.stage = .up then none else if clk ≠ 0 then some u else some ⟨.up, some true⟩
  | .exit => if u.stage = .up then some { u with stage := .down } else none
  | .powerOn => some { u with power := some true }
  | .powerOff => some { u with power := some false }

/-- All that is left of the calls so far. -/
def Use.code (c : Config) (u : Use) : Code :=
  (match u.stage with
    | .untouched => []
    | .up => usbphyEnable c
    | .down => usbphyEnable c ++ usbphyDisable) ++
  match u.power with
  | none => []
  | some on => usbphyPmu c on

/-- The PHY that was found as `p`. -/
def Use.phy (c : Config) (u : Use) (p : Phy) : Phy :=
  ⟨run (u.code c) p.regs, p.clocks + if u.stage = .up then 1 else 0⟩

/-! ## 3. The calls

Each call decides all that the earlier ones have changed, register by register.  That is a
computation on masks, and it is done by `decide`. -/

variable {c : Config} {u u' : Use} {p : Phy}

/-- Bringing the PHY up decides all that taking it down has changed. -/
theorem enable_covers_disable (c : Config) : Covers (usbphyEnable c) usbphyDisable := by
  refine covers_of_mem ?_
  obtain ⟨tune, rewa, pmu⟩ := c
  cases tune <;> cases rewa <;> decide +revert

theorem pmu_covers (c : Config) (on on' : Bool) : Covers (usbphyPmu c on) (usbphyPmu c on') := by
  refine covers_of_mem ?_
  obtain ⟨tune, rewa, pmu⟩ := c
  cases pmu <;> cases on <;> cases on' <;> decide +revert

/-- The PMU has registers of its own. -/
theorem pmu_apart (c : Config) (on : Bool) {l : Code}
    (hl : l = usbphyEnable c ∨ l = usbphyDisable) :
    ∀ e ∈ l, ∀ e' ∈ usbphyPmu c on, e.1 ≠ e'.1 := by
  obtain ⟨tune, rewa, pmu⟩ := c
  rcases hl with rfl | rfl
  · cases tune <;> cases rewa <;> cases pmu <;> cases on <;> decide
  · cases pmu <;> cases on <;> decide +revert

/-- So it decides all that any call has changed. -/
theorem init_covers (c : Config) (u : Use) :
    Covers (usbphyPmu c true ++ usbphyEnable c) (u.code c) := by
  refine Covers.append ?_ ?_
  · cases u.stage with
    | untouched => exact covers_nil
    | up => exact covers_refl.right
    | down => exact (covers_refl.append (enable_covers_disable c)).right
  · cases u.power with
    | none => exact covers_nil
    | some on => exact (pmu_covers c true on).left

/-- The last thing done to the isolation is what counts. -/
theorem run_power (u : Use) (on : Bool) (r : Reg → BitVec 32) :
    run (usbphyPmu c on) (run (u.code c) r) = run (Use.code c { u with power := some on }) r := by
  obtain ⟨stage, power⟩ := u
  simp only [Use.code, run_append]
  cases power with
  | none => rfl
  | some on' => rw [← run_append, run_append_covered (pmu_covers c on on')]

/-- **One call**: the PHY stays what its use makes it. -/
theorem step_phy {call : Call} (h : u.step call = some u') :
    step c (u.phy c p) call = u'.phy c p := by
  obtain ⟨stage, power⟩ := u
  cases call with
  | init clk =>
    simp only [Use.step] at h
    split at h
    · contradiction
    · rename_i hdown
      split at h
      · rename_i hclk
        cases h
        simp [step, usbphyInit, hclk]
      · rename_i hclk
        cases h
        have hregs : run (usbphyPmu c true ++ usbphyEnable c) 
            (run (Use.code c ⟨stage, power⟩) p.regs) =
            run (Use.code c ⟨.up, some true⟩) p.regs := by
          rw [← run_append, run_append_covered (init_covers c _)]
          exact (run_comm (pmu_apart c true (.inl rfl))).symm
        simp [step, usbphyInit, hclk, Use.phy, hdown, hregs]
  | exit =>
    simp only [Use.step] at h
    split at h
    · rename_i hup
      cases h
      cases hup
      have hregs : run usbphyDisable (run (Use.code c ⟨.up, power⟩) p.regs) =
          run (Use.code c ⟨.down, power⟩) p.regs := by
        cases power with
        | none => simp only [Use.code, List.append_nil, run_append]
        | some on =>
          simp only [Use.code, run_append]
          rw [← run_append (l := usbphyPmu c on), ← run_comm (pmu_apart c on (.inr rfl)),
            run_append]
      simp [step, usbphyExit, Use.phy, hregs]
    · contradiction
  | powerOn =>
    cases h
    simp [step, usbphyPowerOn, Use.phy, run_power]
  | powerOff =>
    cases h
    simp [step, usbphyPowerOff, Use.phy, run_power]

/-- **Whatever the calls so far**, the registers depend on what was there at first, on whether the
PHY is up or down, and on what was last done to the isolation; the clocks are on for a PHY that is
up. -/
theorem phy_runs (c : Config) (p : Phy) (calls : List Call)
    (h : calls.foldlM Use.step ⟨.untouched, none⟩ = some u) :
    calls.foldl (step c) p = u.phy c p := by
  suffices hfrom : ∀ u₀ : Use, calls.foldlM Use.step u₀ = some u →
      calls.foldl (step c) (u₀.phy c p) = u.phy c p from hfrom _ h
  clear h
  induction calls with
  | nil =>
    intro u₀ h
    cases h
    rfl
  | cons call calls ih =>
    intro u₀ h
    obtain ⟨u₁, hstep, hrest⟩ := Option.bind_eq_some_iff.mp h
    rw [List.foldl_cons, step_phy hstep]
    exact ih u₁ hrest

/-- Down and up again, with the clocks failing once in between. -/
theorem phy_runs_again :
    [.powerOn, .init 0, .powerOff, .exit, .init (-2), .init 0].foldl (step ⟨true, true, true⟩)
        ⟨fun _ => 0xffffffff, 0⟩ =
      Use.phy ⟨true, true, true⟩ ⟨.up, some true⟩ ⟨fun _ => 0xffffffff, 0⟩ :=
  phy_runs _ _ _ rfl

/-- What is asked of a PHY that is up: out of reset and of the power-down, awake, with VBUS forced
valid and its clock requested. -/
def readyBits : List (Reg × BitVec 32 × BitVec 32) :=
  [(.clkrst, CLKRST_LINK_SW_RST ||| CLKRST_PHY_SW_RST ||| CLKRST_PORT_RST, 0),
    (.hspTest, HSP_TEST_SIDDQ, 0),
    (.utmi, UTMI_FORCE_SUSPEND ||| UTMI_FORCE_SLEEP, 0),
    (.utmi, UTMI_FORCE_BVALID ||| UTMI_FORCE_VBUSVALID, UTMI_FORCE_BVALID ||| UTMI_FORCE_VBUSVALID),
    (.linkCtrl, LINKCTRL_FORCE_QACT, LINKCTRL_FORCE_QACT)]

theorem enable_readyBits (c : Config) : ∀ e ∈ readyBits,
    e.2.1 &&& ~~~((plan (usbphyEnable c) e.1).clear ||| (plan (usbphyEnable c) e.1).set) = 0#32 ∧
      (plan (usbphyEnable c) e.1).set &&& e.2.1 = e.2.2 := by
  obtain ⟨tune, rewa, pmu⟩ := c
  cases tune <;> cases rewa <;> decide +revert

theorem pmu_readyBits (c : Config) (on : Bool) :
    ∀ e ∈ readyBits, ∀ e' ∈ usbphyPmu c on, e'.1 ≠ e.1 := by
  obtain ⟨tune, rewa, pmu⟩ := c
  cases pmu <;> cases on <;> decide +revert

theorem up_ready (h : u.stage = .up) :
    ∀ e ∈ readyBits, (u.phy c p).regs e.1 &&& e.2.1 = e.2.2 := by
  intro e he
  obtain ⟨stage, power⟩ := u
  cases h
  obtain ⟨hdecides, hset⟩ := enable_readyBits c e he
  have henable : (Use.phy c ⟨.up, power⟩ p).regs e.1 = run (usbphyEnable c) p.regs e.1 := by
    simp only [Use.phy, Use.code, run_append]
    cases power with
    | none => rfl
    | some on => exact run_other (pmu_readyBits c on e he)
  rw [henable, run_eq, Upd.apply_and hdecides, hset]

end S9p.Usb
