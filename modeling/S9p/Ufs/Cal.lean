/-
# The calibration before and after a power mode change

The calibration code of the vendor goes through a table of register writes and applies each entry
once for every lane that is to be used.  Before a power mode change it turns lane 1 off first, if
the host has two lanes and one is to be used.

* `prePmc_trsv`: which PHY register a table of the calibration writes for which lane.
* `sqOff_never`: lane 1 is never turned off.  The entries for it are applied in the round for lane
  1, and where one lane is to be used there is no such round.
-/
import Mathlib.Data.Nat.Bitwise

namespace S9p.Ufs

/-! ## 1. The tables

The tables are the vendor's.  An entry names a register, a value, the modes it is for and what kind
of access it is. -/

def FAST_MODE : Nat := 1
def SLOW_MODE : Nat := 2
def FASTAUTO_MODE : Nat := 4
def SLOWAUTO_MODE : Nat := 5

def PA_HS_MODE_A : Nat := 1
def PA_HS_MODE_B : Nat := 2

/-- `lyr` of an entry. -/
inductive Layer where
  | pcsComn
  | pcsRxtx
  | pmaComn
  | pmaTrsv
  | pllWait
  | cdrWait
  | cdrAfcWait
  | stdMib
  | dbgMib
  | dbgApb
  | pcsRx
  | pcsTx
  | pcsRxPrd
  | pcsTxPrd
  | dbgPrd
  | lane1SqOff
  | commonWait
  deriving DecidableEq

/-- `PMD_PWM_Gg_L1 | PMD_PWM_Gg_L2`, the gears counted from 1. -/
def pwmGear (g : Nat) : Nat := 3 <<< (2 * (g - 1))

/-- `PMD_HS_Gg_L1 | PMD_HS_Gg_L2`. -/
def hsGear (g : Nat) : Nat := 3 <<< (2 * (g - 1) + 10)

def PMD_ALL : Nat := 1 <<< 15 - 1
def PMD_PWM : Nat := 1 <<< 7 - 1
def PMD_HS : Nat := PMD_ALL ^^^ PMD_PWM

def PMD_HS_G1_L2 : Nat := 1 <<< 11
def PMD_HS_G2_L2 : Nat := 1 <<< 13
def PMD_HS_G3_L2 : Nat := 1 <<< 15

/-- `struct ufs_cal_phy_cfg`. -/
structure PhyCfg where
  addr : Nat
  val : Nat
  flg : Nat
  lyr : Layer
  board : Nat

/-- What the three tables for a power mode begin with. -/
def timers (flg : Nat) : List PhyCfg :=
  [⟨0x2041, 8064, flg, .stdMib, 0⟩, ⟨0x2042, 28224, flg, .stdMib, 0⟩,
    ⟨0x2043, 20160, flg, .stdMib, 0⟩, ⟨0x15B0, 12000, flg, .stdMib, 0⟩,
    ⟨0x15B1, 32000, flg, .stdMib, 0⟩, ⟨0x15B2, 16000, flg, .stdMib, 0⟩,
    ⟨0x7888, 8064, flg, .dbgApb, 0⟩, ⟨0x788C, 28224, flg, .dbgApb, 0⟩,
    ⟨0x7890, 20160, flg, .dbgApb, 0⟩, ⟨0x78B8, 12000, flg, .dbgApb, 0⟩,
    ⟨0x78BC, 32000, flg, .dbgApb, 0⟩, ⟨0x78C0, 16000, flg, .dbgApb, 0⟩]

def calibOfPwm : List PhyCfg :=
  timers PMD_PWM ++
    [⟨0xC8, 0x40, PMD_PWM, .pmaTrsv, 0⟩, ⟨0xF0, 0x77, PMD_PWM, .pmaTrsv, 0⟩,
      ⟨0x120, 0x80, PMD_PWM, .pmaTrsv, 0⟩, ⟨0x128, 0x00, PMD_PWM, .pmaTrsv, 0⟩,
      ⟨0x12C, 0x00, PMD_PWM, .pmaTrsv, 0⟩, ⟨0x134, 0x43, PMD_PWM, .pmaTrsv, 0⟩]

def calibOfHsRateA : List PhyCfg :=
  timers PMD_HS ++
    [⟨0xC8, 0xBC, PMD_HS, .pmaTrsv, 0⟩, ⟨0xF0, 0x7F, PMD_HS, .pmaTrsv, 0⟩,
      ⟨0x120, 0xC0, PMD_HS, .pmaTrsv, 0⟩, ⟨0x128, 0x08, PMD_HS_G1_L2, .pmaTrsv, 0⟩,
      ⟨0x128, 0x02, PMD_HS_G2_L2, .pmaTrsv, 0⟩, ⟨0x128, 0x00, PMD_HS_G3_L2, .pmaTrsv, 0⟩,
      ⟨0x12C, 0x00, PMD_HS_G2_L2, .pmaTrsv, 0⟩, ⟨0x134, 0xd3, PMD_HS_G1_L2, .pmaTrsv, 0⟩,
      ⟨0x134, 0x73, PMD_HS_G2_L2, .pmaTrsv, 0⟩, ⟨0x134, 0x63, PMD_HS_G3_L2, .pmaTrsv, 0⟩]

/-- The two rates have the same table. -/
def calibOfHsRateB : List PhyCfg := calibOfHsRateA

def postCalibOfPwm : List PhyCfg := []

def postCalibOfHsRateA : List PhyCfg := [⟨0x1fc, 0x40, PMD_HS, .cdrAfcWait, 0⟩]

def postCalibOfHsRateB : List PhyCfg := [⟨0x1fc, 0x40, PMD_HS, .cdrAfcWait, 0⟩]

def lane1SqOff : List PhyCfg :=
  [⟨0x0C4, 0x19, PMD_ALL, .lane1SqOff, 0⟩, ⟨0x0E8, 0xFF, PMD_ALL, .lane1SqOff, 0⟩]

/-! ## 2. Going through a table

A table is applied entry by entry, and an entry lane by lane.  The waits end the table where they
fail. -/

/-- `struct uic_pwr_mode`. -/
structure PwrMode where
  lane : Nat := 0
  gear : Nat := 0
  mode : Nat := 0
  hsSeries : Nat := 0
  deriving DecidableEq

/-- `struct ufs_cal_param`. -/
structure CalParam where
  availableLane : Nat
  targetLane : Nat
  mclkRate : Nat
  board : Nat
  pmd : PwrMode

inductive CalErrno where
  | noError
  | timeout
  | invArg
  deriving DecidableEq

/-- What is done to the controller and its PHY.  The waits are accesses as well, as they look at a
register until it shows what they wait for. -/
inductive Access where
  | dmeSet (attr sel val : Nat)
  | pmaWrite (val addr : Nat)
  | uniproWrite (val addr : Nat)
  | wait (lyr : Layer) (addr mask lane : Nat)
  | udelay (val : Nat)
  deriving DecidableEq

def isHs (m : Nat) : Bool := m = FAST_MODE ∨ m = FASTAUTO_MODE
def isPwm (m : Nat) : Bool := m = SLOW_MODE ∨ m = SLOWAUTO_MODE

/-- `__match_board_by_cfg`. -/
def matchBoard (board cfgBoard : Nat) : Bool := cfgBoard = 0 ∨ board = cfgBoard

/-- `__match_mode_by_cfg`. -/
def matchMode (pmd : PwrMode) (flg : Nat) : Bool :=
  flg = PMD_ALL ∨ isHs pmd.mode ∧ flg = PMD_HS ∨ isPwm pmd.mode ∧ flg = PMD_PWM ∨
    isHs pmd.mode ∧ pmd.gear ∈ [1, 2, 3] ∧ pmd.lane ∈ [1, 2] ∧ flg &&& hsGear pmd.gear ≠ 0 ∨
      isPwm pmd.mode ∧ pmd.gear ∈ [1, 2, 3, 4, 5] ∧ pmd.lane ∈ [1, 2] ∧
        flg &&& pwmGear pmd.gear ≠ 0

/-- `PHY_PMA_TRSV_ADDR`. -/
def trsvAddr (reg lane : Nat) : Nat := reg + 0x140 * lane

/-- `UNIPRO_MCLK_PERIOD`. -/
def mclkPeriod (p : CalParam) : Nat := 1000000000 / p.mclkRate

/-- The switch over the layers, for one lane. -/
def applyCfg (p : CalParam) (cfg : PhyCfg) (i : Nat) : List Access :=
  match cfg.lyr with
  | .pcsComn | .stdMib | .dbgMib => if i = 0 then [.dmeSet cfg.addr 0 cfg.val] else []
  | .pcsRxtx => [.dmeSet cfg.addr i cfg.val]
  | .dbgPrd => if i = 0 then [.dmeSet cfg.addr 0 (mclkPeriod p)] else []
  | .pcsRx => [.dmeSet cfg.addr (4 + i) cfg.val]
  | .pcsTx => [.dmeSet cfg.addr i cfg.val]
  | .pcsRxPrd => [.dmeSet cfg.addr (4 + i) (mclkPeriod p)]
  | .pcsTxPrd => [.dmeSet cfg.addr i (mclkPeriod p)]
  | .pmaComn => if i = 0 then [.pmaWrite cfg.val cfg.addr] else []
  | .pmaTrsv => [.pmaWrite cfg.val (trsvAddr cfg.addr i)]
  | .lane1SqOff => if i = 1 then [.pmaWrite cfg.val (trsvAddr cfg.addr i)] else []
  | .dbgApb => [.uniproWrite cfg.val cfg.addr]
  | .pllWait => if i = 0 then [.wait .pllWait cfg.addr cfg.val i] else []
  | .cdrWait => [.wait .cdrWait cfg.addr cfg.val i]
  | .cdrAfcWait => [.wait .cdrAfcWait cfg.addr cfg.val i]
  | .commonWait => if i = 0 then [.udelay cfg.val] else []

/-- All that a table asks for: for each entry the lanes, unless board or mode do not match. -/
def accesses (p : CalParam) (table : List PhyCfg) (pmd : Option PwrMode) : List Access :=
  table.flatMap (fun cfg => (List.range p.targetLane).flatMap (fun i =>
    if matchBoard p.board cfg.board ∧ ∀ m ∈ pmd, matchMode m cfg.flg then applyCfg p cfg i else []))

/-- How often a wait looks in vain before it finds its lock; `none` if it never does.  The waits
give up after a time, which is left open here, but the one for the AFC after 100 looks. -/
abbrev Lock := Access → Option Nat

def AFC_LOOKS : Nat := 100

/-- The wait ends without a lock. -/
def Access.fails (lock : Lock) (a : Access) : Bool :=
  match a with
  | .wait .cdrAfcWait .. => (lock a).all (fun n => AFC_LOOKS ≤ n)
  | .wait .. => (lock a).isNone
  | _ => false

/-- What is written while it waits: the check for the AFC restarts it after each look in vain. -/
def Access.restarts (lock : Lock) (a : Access) : List Access :=
  match a with
  | .wait .cdrAfcWait _ _ lane =>
    (List.replicate (min ((lock a).getD AFC_LOOKS) AFC_LOOKS)
      [.pmaWrite 0x7F (trsvAddr 0xF0 lane), .pmaWrite 0xFF (trsvAddr 0xF0 lane)]).flatten
  | _ => []

/-- It is done up to a wait that ends without a lock. -/
def runAccesses (lock : Lock) : List Access → List Access × CalErrno
  | [] => ([], .noError)
  | a :: as =>
    if a.fails lock then (a :: a.restarts lock, .timeout)
    else
      let (done, err) := runAccesses lock as
      (a :: a.restarts lock ++ done, err)

/-- `ufs_cal_config_uic`. -/
def configUic (lock : Lock) (p : CalParam) (table : List PhyCfg)
    (pmd : Option PwrMode) : List Access × CalErrno :=
  runAccesses lock (accesses p table pmd)

/-- `ufs_cal_pre_pmc`; the result of the first table is dropped. -/
def prePmc (lock : Lock) (p : CalParam) : List Access × CalErrno :=
  let run (table : List PhyCfg) : List Access × CalErrno :=
    let off := if p.availableLane = 2 ∧ p.targetLane = 1 then
        (configUic lock p lane1SqOff none).1 else []
    let (done, err) := configUic lock p table (some p.pmd)
    (off ++ done, err)
  if p.pmd.mode = SLOW_MODE ∨ p.pmd.mode = SLOWAUTO_MODE then run calibOfPwm
  else if p.pmd.hsSeries = PA_HS_MODE_B then run calibOfHsRateB
  else if p.pmd.hsSeries = PA_HS_MODE_A then run calibOfHsRateA
  else ([], .invArg)

/-- `ufs_cal_post_pmc`. -/
def postPmc (lock : Lock) (p : CalParam) : List Access × CalErrno :=
  if p.pmd.mode = SLOWAUTO_MODE ∨ p.pmd.mode = SLOW_MODE then
    configUic lock p postCalibOfPwm (some p.pmd)
  else if p.pmd.hsSeries = PA_HS_MODE_B then configUic lock p postCalibOfHsRateB (some p.pmd)
  else if p.pmd.hsSeries = PA_HS_MODE_A then configUic lock p postCalibOfHsRateA (some p.pmd)
  else ([], .invArg)

/-! ## 3. Lane 1

The sequence is an entry for lane 1, and the loop over the lanes goes up to the number of lanes that
are to be used. -/

/-- The sequence that turns lane 1 off. -/
def sqOff : List Access := [.pmaWrite 0x19 (trsvAddr 0x0C4 1), .pmaWrite 0xFF (trsvAddr 0x0E8 1)]

/-- It is part of what has been done. -/
def SqOffWritten (done : List Access) : Prop := ∀ a ∈ sqOff, a ∈ done

section Lane1

variable {lock : Lock} {p : CalParam} {table : List PhyCfg} {pmd : Option PwrMode}

/-- A wait writes nothing but the two values that restart the AFC. -/
theorem mem_restarts {a b : Access} (h : b ∈ a.restarts lock) :
    ∃ lane, b = .pmaWrite 0x7F (trsvAddr 0xF0 lane) ∨ b = .pmaWrite 0xFF (trsvAddr 0xF0 lane) := by
  unfold Access.restarts at h
  split at h
  · rename_i lane
    obtain ⟨l, hl, hb⟩ := List.mem_flatten.mp h
    rw [List.eq_of_mem_replicate hl] at hb
    exact ⟨lane, by simpa using hb⟩
  · exact absurd h (by simp)

/-- Nothing is done that the table does not ask for, but for the restarts of the AFC. -/
theorem mem_runAccesses {a : Access} {as : List Access} (h : a ∈ (runAccesses lock as).1) :
    a ∈ as ∨ ∃ b : Access, a ∈ b.restarts lock := by
  induction as with
  | nil => exact .inl h
  | cons b as ih =>
    rw [runAccesses] at h
    split at h
    · rcases List.mem_cons.mp h with rfl | hrestart
      · exact .inl List.mem_cons_self
      · exact .inr ⟨b, hrestart⟩
    · rcases List.mem_append.mp h with hnow | hlater
      · rcases List.mem_cons.mp hnow with rfl | hrestart
        · exact .inl List.mem_cons_self
        · exact .inr ⟨b, hrestart⟩
      · exact (ih hlater).imp_left (List.mem_cons_of_mem _)

/-- The first write of the sequence is no restart. -/
theorem mem_of_runAccesses {as : List Access}
    (h : .pmaWrite 0x19 (trsvAddr 0x0C4 1) ∈ (runAccesses lock as).1) :
    .pmaWrite 0x19 (trsvAddr 0x0C4 1) ∈ as := by
  rcases mem_runAccesses h with hmem | ⟨b, hb⟩
  · exact hmem
  · obtain ⟨lane, heq | heq⟩ := mem_restarts hb
    · exact absurd heq (by simp)
    · exact absurd heq (by simp)

theorem mem_accesses {a : Access} (h : a ∈ accesses p table pmd) :
    ∃ cfg ∈ table, ∃ i < p.targetLane, a ∈ applyCfg p cfg i := by
  simp only [accesses, List.mem_flatMap, List.mem_range] at h
  obtain ⟨cfg, hcfg, i, hi, ha⟩ := h
  split at ha
  · exact ⟨cfg, hcfg, i, hi, ha⟩
  · exact absurd ha (by simp)

/-- **The registers of the PHY** that an entry writes for a lane. -/
theorem pmaWrite_inv {cfg : PhyCfg} {i val addr : Nat} (h : .pmaWrite val addr ∈ applyCfg p cfg i) :
    cfg.lyr = .pmaComn ∧ addr = cfg.addr ∨
      (cfg.lyr = .pmaTrsv ∨ cfg.lyr = .lane1SqOff ∧ i = 1) ∧ addr = trsvAddr cfg.addr i := by
  unfold applyCfg at h
  cases hlyr : cfg.lyr <;> simp only [hlyr] at h
  case pmaTrsv => simp_all
  case pmaComn => split at h <;> simp_all
  case lane1SqOff => split at h <;> simp_all
  all_goals exact absurd h (by simp)

/-- An entry that leaves the first register of the sequence alone, whatever the lane. -/
def PhyCfg.SparesSqOff (cfg : PhyCfg) : Prop :=
  cfg.lyr ≠ .pmaComn ∧ cfg.lyr ≠ .lane1SqOff ∧
    (cfg.lyr = .pmaTrsv → (trsvAddr 0x0C4 1 - cfg.addr) % 0x140 ≠ 0)

instance (cfg : PhyCfg) : Decidable cfg.SparesSqOff := inferInstanceAs (Decidable (_ ∧ _))

/-- The tables for the power modes write other registers. -/
theorem calib_spares : ∀ cfg ∈ calibOfPwm ++ calibOfHsRateA, cfg.SparesSqOff := by decide

theorem spared {cfg : PhyCfg} {i val : Nat} (hspares : cfg.SparesSqOff) :
    .pmaWrite val (trsvAddr 0x0C4 1) ∉ applyCfg p cfg i := by
  obtain ⟨hcomn, hoff, htrsv⟩ := hspares
  intro h
  rcases pmaWrite_inv h with ⟨hlyr, -⟩ | ⟨hlyr | ⟨hlyr, -⟩, haddr⟩
  · exact hcomn hlyr
  · refine htrsv hlyr ?_
    rw [haddr, trsvAddr, Nat.add_sub_cancel_left]
    exact Nat.mul_mod_right _ _
  · exact hoff hlyr

theorem lane1SqOff_lyr : ∀ cfg ∈ lane1SqOff, cfg.lyr = .lane1SqOff := by decide

/-- One lane is to be used, so there is no round for lane 1. -/
theorem lane1SqOff_one_lane (hlane : p.targetLane = 1) : accesses p lane1SqOff none = [] := by
  refine List.eq_nil_iff_forall_not_mem.mpr (fun a ha => ?_)
  obtain ⟨cfg, hcfg, i, hi, ha⟩ := mem_accesses ha
  obtain rfl : i = 0 := by omega
  simp [applyCfg, lane1SqOff_lyr cfg hcfg] at ha

/-- **Lane 1 is never turned off.** -/
theorem sqOff_never (lock : Lock) (p : CalParam) : ¬ SqOffWritten (prePmc lock p).1 := by
  intro h
  have hfirst : .pmaWrite 0x19 (trsvAddr 0x0C4 1) ∈ (prePmc lock p).1 := h _ List.mem_cons_self
  have hcalib : ∀ table, (∀ cfg ∈ table, cfg.SparesSqOff) →
      .pmaWrite 0x19 (trsvAddr 0x0C4 1) ∉ (configUic lock p table (some p.pmd)).1 := by
    intro table hspares hmem
    obtain ⟨cfg, hcfg, i, -, hi⟩ := mem_accesses (mem_of_runAccesses hmem)
    exact spared (hspares cfg hcfg) hi
  have hoff : .pmaWrite 0x19 (trsvAddr 0x0C4 1) ∉ (if p.availableLane = 2 ∧ p.targetLane = 1 then
      (configUic lock p lane1SqOff none).1 else []) := by
    intro ha
    split at ha
    · rename_i hlanes
      have hmem := mem_of_runAccesses ha
      rw [lane1SqOff_one_lane hlanes.2] at hmem
      exact absurd hmem (by simp)
    · exact absurd ha (by simp)
  have hpwm := hcalib calibOfPwm (fun cfg hcfg => calib_spares cfg (by simp [hcfg]))
  have hhs := hcalib calibOfHsRateA (fun cfg hcfg => calib_spares cfg (by simp [hcfg]))
  simp only [prePmc] at hfirst
  split at hfirst
  · exact (List.mem_append.mp hfirst).elim hoff hpwm
  · split at hfirst
    · exact (List.mem_append.mp hfirst).elim hoff hhs
    · split at hfirst
      · exact (List.mem_append.mp hfirst).elim hoff hhs
      · exact absurd hfirst (by simp)

end Lane1

end S9p.Ufs
