/-
# The G3D block as its two drivers see it

`s9p-g3d` (the GPU clock and its rail) and `s9p-g3d-pd` (the power domain) drive one block:
PLL_G3D with its source mux, the BUCK6 rail behind the PMIC firmware, the power domain with its
STATUS register, and the secure monitor that saves and restores the TrustZone protection.  They
share the lock and the flag `g3d_domain_powered`.

This module holds the block, the file-static variables of the two drivers, and the operations
their code performs.  Three things the hardware does in its own time: the source mux moves to
the selected source, STATUS moves until it agrees with CONFIGURATION, and a BUCK6 write that
was reported as failed may still land.

A `readl_poll_timeout` is modelled by its last read: the reads before it change nothing and
are not seen.  Log lines read registers too, and are left out.

The registers of the block are kept as they were last written, and what a read shows is computed
from them and from where the hardware stands.  So a busy bit is no state of its own.
-/
import S9p.Lib.Prog
import S9p.Lib.Field
import S9p.Lib.LateReg
import S9p.Cpufreq.Policy

namespace S9p.G3d

open Field Device

/-! ## 1. Registers

Both drivers map CMU_G3D, each through a window of its own; a register is named once, and an access
says which window it goes through.  This matters where one of the two windows is gone. -/

abbrev Word := BitVec 32

def PLL_CON0_ENABLE : Word := 1#32 <<< 31
def PLL_CON0_STABLE : Word := 1#32 <<< 29
def PLL_CON0_PMS_MASK : Word := (0x3ff#32 <<< 16) ||| (0x3f#32 <<< 8) ||| 0x7#32
def PLL_CON0_MUX_SEL : Word := 1#32 <<< 4
def PLL_CON0_MUX_BUSY : Word := 1#32 <<< 7
def CLK_CON_BUSY : Word := 1#32 <<< 16

/-- BUCK6 (vdd_g3d): 300 mV + sel * 6.25 mV. -/
def G3D_BUCK6_REG : BitVec 8 := 0x2b
def G3D_VSEL_950MV : BitVec 8 := 0x68

def G3D_LOCAL_PWR_CFG : Word := 0xf#32

/-- The registers of CMU_G3D, of the domain in the PMU, and the global PMU ones by offset. -/
inductive Reg where
  | locktime
  | user
  | con0
  | con2
  | muxBusd
  | divBusd
  | divBusp
  | configuration
  | status
  | pmuGlobal (off : BitVec 16)
  deriving DecidableEq

/-- Whose register window an access goes through. -/
inductive Window where
  | g3d
  | pd
  deriving DecidableEq

/-! ## 2. The statics of the two drivers

What the code remembers from call to call.  All of it is read and written by operations, so every
such access is a point of a run. -/

/-- `struct s9p_g3d_step`. -/
structure Step where
  khz : Nat
  m : BitVec 16
  p : BitVec 8
  s : BitVec 8
  vsel : BitVec 8
  deriving DecidableEq

/-- `s9p_g3d_steps`. -/
def steps : List Step := [
  ⟨572000, 286, 13, 0, 0x68⟩,
  ⟨455000, 455, 26, 0, 0x60⟩,
  ⟨260000, 160, 4, 2, 0x58⟩]

/-- The file-static variables, with `struct s9p_g3d_pd`'s two flags and the statics of the
cpufreq driver's poll.  A register window is known by its number. -/
structure Statics where
  con0 : Option Nat
  con2 : Option Nat
  locktime : Option Nat
  railSet : Bool
  domainPowered : Bool
  curKhz : Nat
  reqKhz : Nat
  thermalKhz : Nat
  maxKhz : Nat
  stepVolt : Bool
  attempts : Nat
  smc : Bool
  alwaysOn : Bool
  initialized : Bool
  lowPowerInitialized : Bool
  policy : Cpufreq.Policy

/-- An assignment to one of them. -/
inductive Assign where
  | con0 (w : Option Nat)
  | con2 (w : Option Nat)
  | locktime (w : Option Nat)
  | railSet
  | domainPowered (b : Bool)
  | curKhz (khz : Nat)
  | reqKhz (khz : Nat)
  | thermalKhz (khz : Nat)
  | maxKhz (khz : Nat)
  | stepVolt (b : Bool)
  | attempts (n : Nat)
  | alwaysOn (b : Bool)
  | initialized (b : Bool)
  | lowPowerInitialized (b : Bool)
  | policy (s : Cpufreq.Policy)

def Statics.assign (k : Statics) : Assign → Statics
  | .con0 w => { k with con0 := w }
  | .con2 w => { k with con2 := w }
  | .locktime w => { k with locktime := w }
  | .railSet => { k with railSet := true }
  | .domainPowered b => { k with domainPowered := b }
  | .curKhz khz => { k with curKhz := khz }
  | .reqKhz khz => { k with reqKhz := khz }
  | .thermalKhz khz => { k with thermalKhz := khz }
  | .maxKhz khz => { k with maxKhz := khz }
  | .stepVolt b => { k with stepVolt := b }
  | .attempts n => { k with attempts := n }
  | .alwaysOn b => { k with alwaysOn := b }
  | .initialized b => { k with initialized := b }
  | .lowPowerInitialized b => { k with lowPowerInitialized := b }
  | .policy s => { k with policy := s }

/-- The pointer through which `s9p-g3d` reaches a register. -/
def Statics.pointer (k : Statics) : Reg → Option Nat
  | .con0 => k.con0
  | .con2 => k.con2
  | .locktime => k.locktime
  | _ => none

/-! ## 3. The block

The rail is a register behind a firmware that may be late: a write of which the driver has heard an
error may still come into force.  `LateReg` is that register. -/

/-- The block, what the drivers know of it, and what the driver core and the power-domain core know
of the drivers.  What the hardware and the monitor know stands next to what the drivers know: no
driver reads where the mux sits. -/
structure Gpu where
  vars : Statics
  /-- the registers, as last written (STATUS as it is) -/
  regs : Reg → Word
  /-- the source mux sits on the PLL, otherwise on the oscillator -/
  onPll : Bool
  buck6 : LateReg (BitVec 8)
  /-- the TrustZone protection has been saved and not restored since -/
  tzSaved : Bool
  locked : Bool
  /-- windows mapped so far; those below `released` are mapped no longer -/
  windows : Nat
  released : Nat
  /-- the probe of `s9p-g3d` has succeeded -/
  bound : Bool
  /-- the domain is registered, and on or off for its core -/
  genpd : Option Bool

/-- A window is mapped. -/
def Gpu.Mapped (s : Gpu) (w : Option Nat) : Prop := ∃ n, w = some n ∧ s.released ≤ n ∧ n < s.windows

instance (s : Gpu) (w : Option Nat) : Decidable (s.Mapped w) :=
  match w with
  | none => .isFalse (fun h => nomatch h)
  | some n => decidable_of_iff (s.released ≤ n ∧ n < s.windows)
      ⟨fun h => ⟨n, rfl, h⟩, fun ⟨_, h, hn⟩ => Option.some.inj h ▸ hn⟩

/-- An access arrives.  The windows of `s9p-g3d-pd` stay mapped once its probe is through. -/
def Gpu.Reaches (s : Gpu) : Window → Reg → Prop
  | .pd, _ => True
  | .g3d, r => s.Mapped (s.vars.pointer r)

instance (s : Gpu) (w : Window) (r : Reg) : Decidable (s.Reaches w r) :=
  match w with
  | .pd => .isTrue trivial
  | .g3d => inferInstanceAs (Decidable (s.Mapped _))

/-- PLL_CON0 selects the PLL. -/
def selected (con0 : Word) : Bool := decide (con0 &&& PLL_CON0_MUX_SEL ≠ 0)

/-- What the hardware decides at an operation: the status bits as they read, how a BUCK6 write ends,
whether a mapping succeeds, and what a firmware or kernel call returns.  An operation uses the part
of it that concerns it. -/
structure Luck where
  stable : Bool
  busy : Bool
  pmic : LateReg.Outcome
  mapped : Bool
  ret : Int

/-- What a register shows.  The mux is not busy only where it has been sent. -/
def Gpu.shows (s : Gpu) (l : Luck) : Reg → Option Word
  | .con0 =>
      if l.busy = true ∨ s.onPll = selected (s.regs .con0) then
        some (withBit (withBit (s.regs .con0) PLL_CON0_STABLE l.stable) PLL_CON0_MUX_BUSY l.busy)
      else none
  | .divBusp => some (withBit (s.regs .divBusp) CLK_CON_BUSY l.busy)
  | r => some (s.regs r)

/-! ## 4. Operations

The choice of the hardware comes with each operation, so one and the same program can meet a mux
that arrives and one that does not.  A mark is no access: it is there for a property to refer to a
place in the code. -/

/-- Calls into the kernel of which only the result counts. -/
inductive Kernel where
  | clkHwRegister
  | clkAddProvider
  | pdAlloc
  | pdResource (i : Nat)
  | genpdInit
  | genpdAddProvider
  deriving DecidableEq

/-- Points in the code that properties speak about.  Performing one changes nothing. -/
inductive Mark where
  | apply
  | setPll
  | domainUnlock (powered : Bool)
  deriving DecidableEq

/-- Every access of the two drivers: to their variables, to a register through a window, to the PMIC
and the firmware, to the kernel.  A `mark` does nothing and is there to name a place. -/
inductive Op where
  | get
  | assign (x : Assign)
  | ioremap
  | rd (w : Window) (r : Reg)
  /-- the last read of a wait for the bits `mask` to be set or clear -/
  | poll (w : Window) (r : Reg) (mask : Word) (set : Bool)
  | wr (w : Window) (r : Reg) (v : Word)
  | pmicWrite (reg val : BitVec 8)
  | pmicRead (reg : BitVec 8)
  | smc (cmd : Nat)
  | kernel (what : Kernel)
  | mutexLock
  | mutexUnlock
  | probeDone (ok : Bool)
  | genpd (on : Bool)
  | mark (m : Mark)
  | panic

@[reducible] def Ans : Op → Type
  | .get => Statics
  | .ioremap => Option Nat
  | .rd _ _ => Word
  | .poll _ _ _ _ => Word
  | .pmicWrite _ _ => Int
  | .pmicRead _ => Int × BitVec 8
  | .smc _ => Int
  | .kernel _ => Int
  | .panic => Empty
  | _ => Unit

def EXYNOS_GET_IN_PD_DOWN : Nat := 0
def EXYNOS_WAKEUP_PD_DOWN : Nat := 1

/-- What a successful SMC does to the TrustZone protection. -/
def tzAfter (cmd : Nat) (saved : Bool) : Bool :=
  if cmd = EXYNOS_GET_IN_PD_DOWN then true
  else if cmd = EXYNOS_WAKEUP_PD_DOWN then false
  else saved

/-- **What an operation does.**  An access through a window that is gone has no outcome, and neither
has a lock that is taken: whoever waits for it stays there.  What the APM is asked for may fail and
land all the same. -/
def act : (o : Op) → Luck → Gpu → Option (Ans o × Gpu)
  | .get, _, s => some (s.vars, s)
  | .assign x, _, s => some ((), { s with vars := s.vars.assign x })
  | .ioremap, l, s =>
      if l.mapped then some (some s.windows, { s with windows := s.windows + 1 })
      else some (none, s)
  | .rd w r, l, s => if s.Reaches w r then (s.shows l r).map (fun v => (v, s)) else none
  | .poll w r _ _, l, s => if s.Reaches w r then (s.shows l r).map (fun v => (v, s)) else none
  | .wr w r v, _, s =>
      if s.Reaches w r then some ((), { s with regs := Function.update s.regs r v }) else none
  | .pmicWrite reg val, l, s =>
      if reg = G3D_BUCK6_REG then
        (s.buck6.write val l.pmic).map (fun buck6 => (l.pmic.ret, { s with buck6 := buck6 }))
      else none
  | .pmicRead reg, l, s =>
      if reg = G3D_BUCK6_REG then some ((l.ret, if l.ret = 0 then s.buck6.value else 0), s)
      else none
  | .smc cmd, l, s =>
      some (l.ret, if l.ret = 0 then { s with tzSaved := tzAfter cmd s.tzSaved } else s)
  | .kernel _, l, s => some (l.ret, s)
  | .mutexLock, _, s => if s.locked then none else some ((), { s with locked := true })
  | .mutexUnlock, _, s => some ((), { s with locked := false })
  | .probeDone ok, _, s =>
      some ((), if ok then { s with bound := true } else { s with released := s.windows })
  | .genpd on, _, s => some ((), { s with genpd := some on })
  | .mark _, _, s => some ((), s)
  | .panic, _, _ => none

/-- What happens on its own.  None of the three is promised to happen. -/
inductive Env where
  | land
  | muxMove
  | status (v : Word)

/-- STATUS agrees with CONFIGURATION. -/
def Gpu.Settled (s : Gpu) : Prop :=
  s.regs .status &&& G3D_LOCAL_PWR_CFG = s.regs .configuration &&& G3D_LOCAL_PWR_CFG

instance (s : Gpu) : Decidable s.Settled := inferInstanceAs (Decidable (_ = _))

/-- **What happens without the drivers**: a late write lands, the mux moves where it has been told
to, and the status follows the configuration unless it has settled. -/
def drift : Env → Gpu → Option Gpu
  | .land, s => s.buck6.land.map (fun buck6 => { s with buck6 := buck6 })
  | .muxMove, s => some { s with onPll := selected (s.regs .con0) }
  | .status v, s =>
      if s.Settled then none else some { s with regs := Function.update s.regs .status v }

def block : Device Op Ans Gpu Env Luck := ⟨drift, act⟩

abbrev P := Prog Op Ans

def get : P Statics := .perform Op.get
def assign (x : Assign) : P Unit := .perform (Op.assign x)
def ioremap : P (Option Nat) := .perform Op.ioremap
def rd (w : Window) (r : Reg) : P Word := .perform (Op.rd w r)
def poll (w : Window) (r : Reg) (mask : Word) (set : Bool) : P Word :=
  .perform (Op.poll w r mask set)
def wr (w : Window) (r : Reg) (v : Word) : P Unit := .perform (Op.wr w r v)
def pmicWrite (reg val : BitVec 8) : P Int := .perform (Op.pmicWrite reg val)
def pmicRead (reg : BitVec 8) : P (Int × BitVec 8) := .perform (Op.pmicRead reg)
def smc (cmd : Nat) : P Int := .perform (Op.smc cmd)
def kernel (what : Kernel) : P Int := .perform (Op.kernel what)
def mutexLock : P Unit := .perform Op.mutexLock
def mutexUnlock : P Unit := .perform Op.mutexUnlock
def probeDone (ok : Bool) : P Unit := .perform (Op.probeDone ok)
def setGenpd (on : Bool) : P Unit := .perform (Op.genpd on)
def mark (m : Mark) : P Unit := .perform (Op.mark m)
def panic {α : Type} : P α := .op Op.panic (fun e => nomatch e)

/-! ## 5. What stands still

Three things move between two operations.  Whatever an assertion says about the rest is stable, and
`stable_still` says so once. -/

/-- The state without the three things that change on their own. -/
def Gpu.still (s : Gpu) : Gpu :=
  { s with regs := Function.update s.regs .status 0#32, onPll := false, buck6 := ⟨0#8, []⟩ }

/-- A queued write lands, the mux follows its selection, or STATUS moves while it has not
arrived. -/
theorem drift_cases {e : Env} {s t : Gpu} (h : drift e s = some t) :
    (∃ buck6, s.buck6.land = some buck6 ∧ t = { s with buck6 := buck6 }) ∨
      t = { s with onPll := selected (s.regs .con0) } ∨
        ¬ s.Settled ∧ ∃ v, t = { s with regs := Function.update s.regs .status v } := by
  cases e with
  | land =>
    obtain ⟨buck6, hl, rfl⟩ := Option.map_eq_some_iff.mp h
    exact .inl ⟨buck6, hl, rfl⟩
  | muxMove => exact .inr (.inl (Option.some.inj h).symm)
  | status v =>
    simp only [drift] at h
    split at h
    · exact absurd h (by simp)
    · rename_i hlag
      exact .inr (.inr ⟨hlag, v, (Option.some.inj h).symm⟩)

theorem drift_still {e : Env} {s t : Gpu} (h : drift e s = some t) : t.still = s.still := by
  rcases drift_cases h with ⟨buck6, -, rfl⟩ | rfl | ⟨-, v, rfl⟩
  · rfl
  · rfl
  · simp only [Gpu.still, Function.update_idem]

theorem drift_vars {e : Env} {s t : Gpu} (h : drift e s = some t) : t.vars = s.vars := by
  have hvars : t.still.vars = s.still.vars := congrArg Gpu.vars (drift_still h)
  exact hvars

/-- Once STATUS agrees with CONFIGURATION, no register moves. -/
theorem drift_regs {e : Env} {s t : Gpu} (h : drift e s = some t) (hs : s.Settled) :
    t.regs = s.regs := by
  rcases drift_cases h with ⟨buck6, -, rfl⟩ | rfl | ⟨hlag, -, -⟩
  · rfl
  · rfl
  · exact absurd hs hlag

/-- What depends on the rest only is stable. -/
theorem stable_still (R : Gpu → Prop) : block.Stable (fun s => R s.still) := by
  intro e s t h hs
  have := drift_still (e := e) (s := s) (t := t) h
  exact this ▸ hs

theorem stable_vars (k : Statics) : block.Stable (fun s => s.vars = k) :=
  stable_still (fun s => s.vars = k)

/-- BUCK6 changes only by a queued write landing. -/
theorem stable_buck6 (R : BitVec 8 → Prop) : block.Stable (fun s => s.buck6.All R) := by
  intro e s t h hs
  rcases drift_cases h with ⟨buck6, hl, rfl⟩ | rfl | ⟨-, v, rfl⟩
  · exact hs.land hl
  · exact hs
  · exact hs

/-! ## 6. What an operation changes

One lemma describes each field of the state after any operation, and the proofs that follow ask it
about the fields they need. -/

/-- What the operation `o` leaves of everything but the mux. -/
structure Changes (o : Op) (l : Luck) (s t : Gpu) : Prop where
  vars : t.vars = match o with
    | .assign x => s.vars.assign x
    | _ => s.vars
  regs : t.regs = match o with
    | .wr _ r v => Function.update s.regs r v
    | _ => s.regs
  tzSaved : t.tzSaved = match o with
    | .smc cmd => if l.ret = 0 then tzAfter cmd s.tzSaved else s.tzSaved
    | _ => s.tzSaved
  locked : t.locked = match o with
    | .mutexLock => true
    | .mutexUnlock => false
    | _ => s.locked
  windows : t.windows = match o with
    | .ioremap => if l.mapped then s.windows + 1 else s.windows
    | _ => s.windows
  released : t.released = match o with
    | .probeDone ok => if ok then s.released else s.windows
    | _ => s.released
  genpd : t.genpd = match o with
    | .genpd on => some on
    | _ => s.genpd
  buck6 : match o with
    | .pmicWrite _ val => s.buck6.write val l.pmic = some t.buck6
    | _ => t.buck6 = s.buck6

theorem act_changes {o : Op} {l : Luck} {s t : Gpu} {r : Ans o} (h : act o l s = some (r, t)) :
    Changes o l s t := by
  cases o with
  | panic => exact absurd h (by simp [act])
  | ioremap =>
    simp only [act] at h
    split at h
    · rename_i hm
      simp only [Option.some.injEq, Prod.mk.injEq] at h
      obtain ⟨-, rfl⟩ := h
      exact ⟨rfl, rfl, rfl, rfl, by simp [hm], rfl, rfl, rfl⟩
    · rename_i hm
      simp only [Option.some.injEq, Prod.mk.injEq] at h
      obtain ⟨-, rfl⟩ := h
      exact ⟨rfl, rfl, rfl, rfl, by simp [hm], rfl, rfl, rfl⟩
  | rd w r =>
    simp only [act] at h
    split at h
    · obtain ⟨v, -, heq⟩ := Option.map_eq_some_iff.mp h
      exact (Prod.mk.inj heq).2 ▸ ⟨rfl, rfl, rfl, rfl, rfl, rfl, rfl, rfl⟩
    · exact absurd h (by simp)
  | poll w r mask set =>
    simp only [act] at h
    split at h
    · obtain ⟨v, -, heq⟩ := Option.map_eq_some_iff.mp h
      exact (Prod.mk.inj heq).2 ▸ ⟨rfl, rfl, rfl, rfl, rfl, rfl, rfl, rfl⟩
    · exact absurd h (by simp)
  | wr w r v =>
    simp only [act] at h
    split at h
    · simp only [Option.some.injEq, Prod.mk.injEq] at h
      obtain ⟨-, rfl⟩ := h
      exact ⟨rfl, rfl, rfl, rfl, rfl, rfl, rfl, rfl⟩
    · exact absurd h (by simp)
  | pmicWrite reg val =>
    simp only [act] at h
    split at h
    · obtain ⟨buck6, hw, heq⟩ := Option.map_eq_some_iff.mp h
      exact (Prod.mk.inj heq).2 ▸ ⟨rfl, rfl, rfl, rfl, rfl, rfl, rfl, hw⟩
    · exact absurd h (by simp)
  | pmicRead reg =>
    simp only [act] at h
    split at h
    · simp only [Option.some.injEq, Prod.mk.injEq] at h
      obtain ⟨-, rfl⟩ := h
      exact ⟨rfl, rfl, rfl, rfl, rfl, rfl, rfl, rfl⟩
    · exact absurd h (by simp)
  | mutexLock =>
    simp only [act] at h
    split at h
    · exact absurd h (by simp)
    · simp only [Option.some.injEq, Prod.mk.injEq] at h
      obtain ⟨-, rfl⟩ := h
      exact ⟨rfl, rfl, rfl, rfl, rfl, rfl, rfl, rfl⟩
  | smc cmd =>
    simp only [act, Option.some.injEq, Prod.mk.injEq] at h
    obtain ⟨-, rfl⟩ := h
    by_cases hret : l.ret = 0
    · rw [if_pos hret]
      exact ⟨rfl, rfl, by simp [hret], rfl, rfl, rfl, rfl, rfl⟩
    · rw [if_neg hret]
      exact ⟨rfl, rfl, by simp [hret], rfl, rfl, rfl, rfl, rfl⟩
  | probeDone ok =>
    simp only [act, Option.some.injEq, Prod.mk.injEq] at h
    obtain ⟨-, rfl⟩ := h
    cases ok with
    | true => exact ⟨rfl, rfl, rfl, rfl, rfl, rfl, rfl, rfl⟩
    | false => exact ⟨rfl, rfl, rfl, rfl, rfl, rfl, rfl, rfl⟩
  | _ =>
    simp only [act, Option.some.injEq, Prod.mk.injEq] at h
    obtain ⟨-, rfl⟩ := h
    exact ⟨rfl, rfl, rfl, rfl, rfl, rfl, rfl, rfl⟩

/-- A read answers what the register shows, and changes nothing. -/
theorem rd_spec {w : Window} {r : Reg} {l : Luck} {s t : Gpu} {v : Word}
    (h : act (.rd w r) l s = some (v, t)) : s.shows l r = some v ∧ t = s := by
  simp only [act] at h
  split at h
  · obtain ⟨v', hv, heq⟩ := Option.map_eq_some_iff.mp h
    simp only [Prod.mk.injEq] at heq
    obtain ⟨rfl, rfl⟩ := heq
    exact ⟨hv, rfl⟩
  · exact absurd h (by simp)

theorem poll_spec {w : Window} {r : Reg} {mask : Word} {set : Bool} {l : Luck} {s t : Gpu}
    {v : Word} (h : act (.poll w r mask set) l s = some (v, t)) : s.shows l r = some v ∧ t = s :=
  rd_spec (w := w) h

/-! ## 7. Rules for the operations

Each rule takes an operation off the front of a program, with an assertion that is stable before and
after it. -/

section Rules

variable {ok : Gpu → (o : Op) → Luck → Bool} {S : Gpu → Option Op → Prop} {I : Gpu → Prop}
  {α : Type} {Q : α → Gpu → Prop} {s : Gpu}

theorem wp_get {k : Statics → P α} (hI : block.Stable I) (hs : I s)
    (hS : ∀ t, I t → S t (some .get)) (hk : ∀ t, I t → wp block ok S (k t.vars) Q t) :
    wp block ok S (.op .get k) Q s := by
  refine wp_op_eq (fun _ _ => rfl) hI hs hS ?_
  intro t _ ht _
  exact hk t ht

theorem wp_assign {x : Assign} {k : Unit → P α} (hI : block.Stable I) (hs : I s)
    (hS : ∀ t, I t → S t (some (.assign x)))
    (hk : ∀ t, I t → wp block ok S (k ()) Q { t with vars := t.vars.assign x }) :
    wp block ok S (.op (.assign x) k) Q s := by
  refine wp_op_eq (fun _ _ => rfl) hI hs hS ?_
  intro t _ ht _
  exact hk t ht

theorem wp_mark {m : Mark} {k : Unit → P α} (hI : block.Stable I) (hs : I s)
    (hS : ∀ t, I t → S t (some (.mark m)))
    (hk : ∀ t l, I t → ok t (.mark m) l = true → wp block ok S (k ()) Q t) :
    wp block ok S (.op (.mark m) k) Q s := by
  refine wp_op_eq (fun _ _ => rfl) hI hs hS ?_
  intro t l ht hok
  exact hk t l ht hok

theorem wp_rd {w : Window} {r : Reg} {k : Word → P α} (hI : block.Stable I) (hs : I s)
    (hS : ∀ t, I t → S t (some (.rd w r)))
    (hk : ∀ t l v, I t → t.shows l r = some v → wp block ok S (k v) Q t) :
    wp block ok S (.op (.rd w r) k) Q s := by
  refine wp_op hI hs hS ?_
  intro t l v u ht _ hact
  obtain ⟨hv, rfl⟩ := rd_spec hact
  exact hk u l v ht hv

theorem wp_poll {w : Window} {r : Reg} {mask : Word} {set : Bool} {k : Word → P α}
    (hI : block.Stable I) (hs : I s)
    (hS : ∀ t, I t → S t (some (.poll w r mask set)))
    (hk : ∀ t l v, I t → ok t (.poll w r mask set) l = true → t.shows l r = some v →
      wp block ok S (k v) Q t) :
    wp block ok S (.op (.poll w r mask set) k) Q s := by
  refine wp_op hI hs hS ?_
  intro t l v u ht hok hact
  obtain ⟨hv, rfl⟩ := poll_spec hact
  exact hk u l v ht hok hv

theorem wp_wr {w : Window} {r : Reg} {v : Word} {k : Unit → P α} (hI : block.Stable I)
    (hs : I s) (hS : ∀ t, I t → S t (some (.wr w r v)))
    (hk : ∀ t, I t → wp block ok S (k ()) Q { t with regs := Function.update t.regs r v }) :
    wp block ok S (.op (.wr w r v) k) Q s := by
  refine wp_op hI hs hS ?_
  intro t l u u' ht _ hact
  simp only [block, act] at hact
  split at hact
  · simp only [Option.some.injEq, Prod.mk.injEq] at hact
    obtain ⟨-, rfl⟩ := hact
    exact hk t ht
  · exact absurd hact (by simp)

theorem wp_pmicWrite {val : BitVec 8} {k : Int → P α} (hI : block.Stable I) (hs : I s)
    (hS : ∀ t, I t → S t (some (.pmicWrite G3D_BUCK6_REG val)))
    (hk : ∀ t l buck6, I t → ok t (.pmicWrite G3D_BUCK6_REG val) l = true →
      t.buck6.write val l.pmic = some buck6 →
      wp block ok S (k l.pmic.ret) Q { t with buck6 := buck6 }) :
    wp block ok S (.op (.pmicWrite G3D_BUCK6_REG val) k) Q s := by
  refine wp_op hI hs hS ?_
  intro t l r u ht hok hact
  simp only [block, act, if_true] at hact
  obtain ⟨buck6, hw, heq⟩ := Option.map_eq_some_iff.mp hact
  simp only [Prod.mk.injEq] at heq
  obtain ⟨rfl, rfl⟩ := heq
  exact hk t l buck6 ht hok hw

theorem wp_lock {k : Unit → P α} (hI : block.Stable I) (hs : I s)
    (hS : ∀ t, I t → S t (some .mutexLock))
    (hk : ∀ t, I t → wp block ok S (k ()) Q { t with locked := true }) :
    wp block ok S (.op .mutexLock k) Q s := by
  refine wp_op hI hs hS ?_
  intro t l r u ht _ hact
  simp only [block, act] at hact
  split at hact
  · exact absurd hact (by simp)
  · simp only [Option.some.injEq, Prod.mk.injEq] at hact
    obtain ⟨-, rfl⟩ := hact
    exact hk t ht

theorem wp_unlock {k : Unit → P α} (hI : block.Stable I) (hs : I s)
    (hS : ∀ t, I t → S t (some .mutexUnlock))
    (hk : ∀ t, I t → wp block ok S (k ()) Q { t with locked := false }) :
    wp block ok S (.op .mutexUnlock k) Q s := by
  refine wp_op_eq (fun _ _ => rfl) hI hs hS ?_
  intro t _ ht _
  exact hk t ht

theorem wp_smc {cmd : Nat} {k : Int → P α} (hI : block.Stable I) (hs : I s)
    (hS : ∀ t, I t → S t (some (.smc cmd)))
    (hk : ∀ t a0, I t → wp block ok S (k a0) Q
      (if a0 = 0 then { t with tzSaved := tzAfter cmd t.tzSaved } else t)) :
    wp block ok S (.op (.smc cmd) k) Q s := by
  refine wp_op_eq (fun _ _ => rfl) hI hs hS ?_
  intro t _ ht _
  exact hk t _ ht

theorem wp_kernel {what : Kernel} {k : Int → P α} (hI : block.Stable I) (hs : I s)
    (hS : ∀ t, I t → S t (some (.kernel what)))
    (hk : ∀ t ret, I t → wp block ok S (k ret) Q t) :
    wp block ok S (.op (.kernel what) k) Q s := by
  refine wp_op_eq (fun _ _ => rfl) hI hs hS ?_
  intro t _ ht _
  exact hk t _ ht

theorem wp_genpd {on : Bool} {k : Unit → P α} (hI : block.Stable I) (hs : I s)
    (hS : ∀ t, I t → S t (some (.genpd on)))
    (hk : ∀ t, I t → wp block ok S (k ()) Q { t with genpd := some on }) :
    wp block ok S (.op (.genpd on) k) Q s := by
  refine wp_op_eq (fun _ _ => rfl) hI hs hS ?_
  intro t _ ht _
  exact hk t ht

theorem wp_panic {k : Empty → P α} (hI : block.Stable I) (hs : I s)
    (hS : ∀ t, I t → S t (some .panic)) : wp block ok S (.op .panic k) Q s :=
  wp_op hI hs hS (fun _ _ r _ _ _ _ => nomatch r)

end Rules

end S9p.G3d
