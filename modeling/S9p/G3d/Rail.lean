/-
# The GPU rail

While the source mux sits on the PLL, BUCK6 has to be at least the voltage of the stock step
the PLL runs at; while `step_volt` is off it has to be at least 950 mV (`RailSafe`).

The code keeps `g3d_cur_khz` for the rate it believes in and decides from it alone whether the
rail goes up before the clock.  The invariant says why that is enough as long as the variable
does not understate: there is a rate `B` such that neither the PLL nor the variable is above
`B`, and the rail, now and whatever failed write still lands, is enough for `B` (`Safe`).  A
relock keeps its `B` from the moment the rail has been seen to; the rail comes down to the
new step only once the PLL has been read back there.

Where PLL_CON0 is programmed for more than the variable says, a write that takes the rail to
the voltage of the variable's step takes it too low.  That happens after a rollback has failed
(the variable says 26 MHz) and after a probe that found neither of the two rates it knows.
`railTold` is the condition that no BUCK6 write is made then; `rail_low_of_stale` says what
such a write does.
-/
import S9p.Lib.Ladder
import S9p.G3d.Pll
import S9p.G3d.Domain

namespace S9p.G3d

open Field Device

/-! ## 1. What has to hold

The bound is on the value of the rail at every moment, and on every value that is still on its way,
since a write that was reported as failed may land at any time. -/

/-- The rail value `v` is enough for the rate `f`. -/
def Enough (v : BitVec 8) (f : Nat) : Prop :=
  Ladder.Covers Step.khz (fun st => st.vsel.toNat) steps v.toNat f

theorem graded : Ladder.Graded Step.khz (fun st => st.vsel.toNat) steps := by
  unfold Ladder.Graded
  decide

theorem enough_vsel {st : Step} (hst : st ∈ steps) : Enough st.vsel st.khz :=
  Ladder.covers_of_mem hst le_rfl

/-- 950 mV is enough for every step. -/
theorem enough_950 {v : BitVec 8} (hv : G3D_VSEL_950MV ≤ v) : Enough v topStep.khz :=
  Ladder.Covers.mono (enough_vsel (show topStep ∈ steps by decide)) hv

/-- An enabling store is about to set `g3d_step_volt`, having just set the rail for it. -/
def switching : Option Op → Bool
  | some (.assign (.stepVolt true)) => true
  | _ => false

/-- **The rail is high enough**, with the operation `o` about to be performed.  It is asked of every
state, with no exception for the middle of a relock. -/
def RailSafe (o : Option Op) (s : Gpu) : Prop :=
  s.vars.railSet = true →
    (s.vars.stepVolt = false → switching o = false → G3D_VSEL_950MV ≤ s.buck6.value) ∧
    (s.onPll = true → ∃ st, Ladder.needed Step.khz steps (pllKhz (s.regs .con0)) = some st ∧
      st.vsel.toNat ≤ s.buck6.value.toNat)

/-! ## 2. The invariant

`B` is a rate, and not a voltage: it is what ties the clock, the variable and the rail together.  It
goes up with the rail, before the clock does, and comes down after it. -/

/-- Neither the PLL nor `g3d_cur_khz` is above `B`, and the rail is enough for `B`.  The three of
them have to be tied together by one number: each changes at another moment. -/
structure Covered (B : Nat) (s : Gpu) : Prop where
  low : lowStep.khz ≤ B
  high : B ≤ topStep.khz
  pll : pllKhz (s.regs .con0) ≤ B
  cur : s.vars.curKhz ≤ B
  rail : s.vars.railSet = true → s.buck6.All (fun v => Enough v B)

/-- So it is, and it is at 950 mV while `step_volt` is off. -/
structure Safe (B : Nat) (s : Gpu) : Prop extends Covered B s where
  off : s.vars.railSet = true → s.vars.stepVolt = false →
    s.buck6.All (fun v => G3D_VSEL_950MV ≤ v)

/-- What holds between calls. -/
def RailInv (s : Gpu) : Prop := ∃ B, Safe B s

theorem Covered.needed {B : Nat} {s : Gpu} (h : Covered B s) (hrail : s.vars.railSet = true) :
    ∃ st, Ladder.needed Step.khz steps (pllKhz (s.regs .con0)) = some st ∧
      st.vsel.toNat ≤ s.buck6.value.toNat :=
  (Ladder.covers_iff_needed graded).mp ((h.rail hrail).value.anti h.pll)

theorem Covered.railSafe {B : Nat} {s : Gpu} {o : Option Op} (h : Covered B s)
    (ho : switching o = true) : RailSafe o s := fun hrail =>
  ⟨fun _ ho' => absurd (ho.symm.trans ho') (by simp), fun _ => h.needed hrail⟩

theorem Safe.railSafe {B : Nat} {s : Gpu} (h : Safe B s) (o : Option Op) : RailSafe o s :=
  fun hrail => ⟨fun hoff _ => (h.off hrail hoff).value, fun _ => h.needed hrail⟩

theorem RailInv.railSafe {s : Gpu} (h : RailInv s) (o : Option Op) : RailSafe o s := by
  obtain ⟨B, hs⟩ := h
  exact hs.railSafe o

theorem stable_covered (B : Nat) : block.Stable (Covered B) := by
  intro e s t h hs
  have hvars : t.vars = s.vars := drift_vars h
  have hcon0 : t.regs .con0 = s.regs .con0 :=
    stable_still (fun t => t.regs .con0 = s.regs .con0) e s t h rfl
  refine ⟨hs.low, hs.high, hcon0 ▸ hs.pll, hvars ▸ hs.cur, fun hrail => ?_⟩
  exact stable_buck6 _ e s t h (hs.rail (hvars ▸ hrail))

theorem stable_safe (B : Nat) : block.Stable (Safe B) := by
  intro e s t h hs
  have hvars : t.vars = s.vars := drift_vars h
  refine ⟨stable_covered B e s t h hs.toCovered, fun hrail hoff => ?_⟩
  exact stable_buck6 _ e s t h (hs.off (hvars ▸ hrail) (hvars ▸ hoff))

theorem stable_railInv : block.Stable RailInv := by
  rintro e s t h ⟨B, hs⟩
  exact ⟨B, stable_safe B e s t h hs⟩

/-- Without step voltages, or before the rail is up, every step is covered. -/
theorem Safe.top {B : Nat} {s : Gpu} (h : Safe B s)
    (hoff : s.vars.railSet = true → s.vars.stepVolt = false) : Safe topStep.khz s where
  low := by decide
  high := le_rfl
  pll := h.pll.trans h.high
  cur := h.cur.trans h.high
  rail hrail := (h.off hrail (hoff hrail)).mono (fun _ hv => enough_950 hv)
  off := h.off

/-- A write of 950 mV, whatever becomes of it. -/
theorem Safe.write_950 {B : Nat} {s : Gpu} {o : LateReg.Outcome} {buck6 : LateReg (BitVec 8)}
    (h : Safe B s) (hw : s.buck6.write G3D_VSEL_950MV o = some buck6) :
    Safe B { s with buck6 := buck6 } where
  low := h.low
  high := h.high
  pll := h.pll
  cur := h.cur
  rail hrail := (h.rail hrail).write ((enough_950 (BitVec.le_refl _)).anti h.high) hw
  off hrail hoff := (h.off hrail hoff).write (BitVec.le_refl _) hw

/-- A rate between what the PLL and the variable say and `B` is covered as well. -/
theorem Covered.lower {B B' : Nat} {s : Gpu} (h : Covered B s) (hle : B' ≤ B)
    (hlow : lowStep.khz ≤ B') (hpll : pllKhz (s.regs .con0) ≤ B') (hcur : s.vars.curKhz ≤ B') :
    Covered B' s where
  low := hlow
  high := hle.trans h.high
  pll := hpll
  cur := hcur
  rail hrail := (h.rail hrail).mono (fun _ hv => hv.anti hle)

/-! ## 3. Operations that keep a rate covered

Most operations keep the bound whatever it is.  They are collected here, so that the programs made
of them need no further thought. -/

/-- What keeps `B` covered: no faster rate is programmed or believed in, and BUCK6 is written
with 950 mV only. -/
def KeepsRail (B : Nat) : Op → Prop
  | .assign (.curKhz khz) => khz ≤ B
  | .assign (.stepVolt _) => False
  | .assign .railSet => False
  | .wr _ .con0 v => pllKhz v ≤ B
  | .pmicWrite _ v => v = G3D_VSEL_950MV
  | _ => True

/-- What PLL_CON0 then reads as. -/
def ReadsRail (B : Nat) : (o : Op) → Ans o → Prop
  | .rd _ r, v => r = .con0 → pllKhz v ≤ B
  | .poll _ r _ _, v => r = .con0 → pllKhz v ≤ B
  | _, _ => True

theorem pll_update {B : Nat} {f : Reg → Word} {r : Reg} {v : Word} (h : pllKhz (f .con0) ≤ B)
    (hv : r = .con0 → pllKhz v ≤ B) : pllKhz (Function.update f r v .con0) ≤ B := by
  by_cases hr : r = .con0
  · subst hr
    simpa using hv rfl
  · simpa [Function.update_of_ne (Ne.symm hr)] using h

theorem keepsRail {B : Nat} {o : Op} {l : Luck} {s t : Gpu} {r : Ans o} (ho : KeepsRail B o)
    (h : act o l s = some (r, t)) (hs : Safe B s) : Safe B t := by
  have hc := act_changes h
  have hvars : t.vars.curKhz ≤ B ∧ t.vars.railSet = s.vars.railSet ∧
      t.vars.stepVolt = s.vars.stepVolt := by
    rw [hc.vars]
    cases o with
    | assign x =>
      cases x with
      | curKhz khz => exact ⟨ho, rfl, rfl⟩
      | stepVolt => exact ho.elim
      | railSet => exact ho.elim
      | _ => exact ⟨hs.cur, rfl, rfl⟩
    | _ => exact ⟨hs.cur, rfl, rfl⟩
  have hpll : pllKhz (t.regs .con0) ≤ B := by
    rw [hc.regs]
    cases o with
    | wr w reg v =>
      refine pll_update hs.pll ?_
      rintro rfl
      exact ho
    | _ => exact hs.pll
  have hbuck6 : ∀ P : BitVec 8 → Prop, P G3D_VSEL_950MV → s.buck6.All P → t.buck6.All P := by
    intro P hP hall
    have hb := hc.buck6
    cases o with
    | pmicWrite reg val => exact hall.write (ho ▸ hP) hb
    | _ => exact hb ▸ hall
  obtain ⟨hcur, hrail, hvolt⟩ := hvars
  have henough : Enough G3D_VSEL_950MV B := (enough_950 (BitVec.le_refl _)).anti hs.high
  refine ⟨⟨hs.low, hs.high, hpll, hcur, fun h => ?_⟩, fun h hoff => ?_⟩
  · exact hbuck6 _ henough (hs.rail (hrail ▸ h))
  · exact hbuck6 _ (BitVec.le_refl _) (hs.off (hrail ▸ h) (hvolt ▸ hoff))

theorem readsRail {B : Nat} {o : Op} {l : Luck} {s t : Gpu} {r : Ans o}
    (h : act o l s = some (r, t)) (hs : Safe B s) : ReadsRail B o r := by
  have hread : ∀ {v : Word}, s.shows l .con0 = some v → pllKhz v ≤ B := by
    intro v hv
    rw [pllKhz_congr (shows_con0 hv).1]
    exact hs.pll
  cases o with
  | rd w reg =>
    rintro rfl
    exact hread (rd_spec h).1
  | poll w reg mask set =>
    rintro rfl
    exact hread (poll_spec h).1
  | _ => trivial

section Rules

variable {ok : Gpu → (o : Op) → Luck → Bool} {B : Nat} {s : Gpu}

/-- The step property of every call. -/
abbrev RailStep (s : Gpu) (o : Option Op) : Prop := RailSafe o s

/-- What meets the contract for `B` keeps `B` covered. -/
theorem wp_meets_rail {α : Type} {p : P α} {Q : α → Prop}
    (hp : p.Meets (KeepsRail B) (ReadsRail B) Q) (hs : Safe B s) :
    wp block ok RailStep p (fun a t => Q a ∧ Safe B t) s :=
  wp_of_meets (stable_safe B)
    (fun _ ho _ _ _ _ h _ hact => ⟨readsRail hact h, keepsRail ho hact h⟩)
    (fun _ _ _ h => h.railSafe _) (fun _ h => h.railSafe none) hp hs

end Rules

/-! ## 4. What programs PLL_CON0 without looking at the rail

Power-on, the rollback and the probe write PLL_CON0 in their own way.  Each writes what was there
before, or the parameters of the lowest step. -/

section Meets

variable {B : Nat}

theorem meets_rollback {oldCon0 oldLocktime : Word} (hold : pllKhz oldCon0 ≤ B) :
    (rollback oldCon0 oldLocktime).Meets (KeepsRail B) (ReadsRail B) (fun _ => True) := by
  have hclear : ∀ {v x : Word}, x &&& PLL_CON0_PMS_MASK = 0#32 → pllKhz v ≤ B →
      pllKhz (v &&& ~~~x) ≤ B := by
    intro v x hx hv
    rw [pllKhz_clear hx]
    exact hv
  simp only [rollback, rd, poll, wr, Prog.perform_bind]
  refine ⟨trivial, fun v hv => ⟨hclear (by decide) (hv rfl), fun _ _ => ⟨trivial, fun v hv => ?_⟩⟩⟩
  dsimp only
  split
  · trivial
  · refine ⟨hclear (by decide) (hv rfl), fun _ _ => ⟨trivial, fun _ _ =>
      ⟨hclear (by decide) hold, fun _ _ => ⟨trivial, fun v _ => ?_⟩⟩⟩⟩
    dsimp only
    split
    · trivial
    · exact ⟨hold, fun _ _ => ⟨trivial, fun _ _ => trivial⟩⟩

/-- Bits outside the fields may be set and cleared at will. -/
theorem meets_rmw {r : Reg} {clear set : Word} (hclear : clear &&& PLL_CON0_PMS_MASK = 0#32)
    (hset : set &&& PLL_CON0_PMS_MASK = 0#32) :
    (rmw r clear set).Meets (KeepsRail B) (ReadsRail B) (fun _ => True) := by
  simp only [rmw, rd, wr, Prog.perform_bind]
  refine ⟨trivial, fun v hv => ⟨?_, fun _ _ => trivial⟩⟩
  cases r with
  | con0 =>
    have hv' : pllKhz v ≤ B := hv rfl
    rw [← pllKhz_clear (v := v) hclear, ← pllKhz_or hset] at hv'
    exact hv'
  | _ => trivial

/-- The power-on parameters are those of 260 MHz. -/
theorem pllKhz_boot (v : Word) :
    pllKhz (v &&& ~~~PLL_CON0_PMS_MASK ||| (PLL_CON0_ENABLE ||| bootPms)) = lowStep.khz := by
  have hclear : v &&& ~~~PLL_CON0_PMS_MASK &&& PLL_CON0_PMS_MASK = 0#32 := by
    rw [BitVec.and_assoc, show ~~~PLL_CON0_PMS_MASK &&& PLL_CON0_PMS_MASK = 0#32 by decide,
      BitVec.and_zero]
  exact (pllKhz_congr (pms_or hclear)).trans (by decide)

theorem meets_pllSetup (hlow : lowStep.khz ≤ B) :
    pllSetup.Meets (KeepsRail B) (ReadsRail B) (fun _ => True) := by
  refine (meets_rmw (by decide) (by decide)).bind (fun _ _ => ?_)
  simp only [wr, rd, poll, Prog.perform_bind]
  refine ⟨trivial, fun _ _ => ⟨trivial, fun v _ => ⟨?_, fun _ _ => ⟨trivial, fun _ _ => trivial⟩⟩⟩⟩
  exact (pllKhz_boot v).trans_le hlow

theorem switchOp_keepsRail {o : Op} (ho : SwitchOp o) : KeepsRail B o := by
  match o, ho with
  | .get, _ => trivial
  | .rd .pd _, _ => trivial
  | .poll .pd _ _ _, _ => trivial
  | .wr .pd r _, ho =>
    cases r with
    | con0 => exact ho.elim
    | _ => trivial
  | .smc _, _ | .kernel _, _ | .mutexLock, _ | .mutexUnlock, _ | .mark (.domainUnlock _), _
  | .assign (.domainPowered _), _ | .assign (.initialized _), _
  | .assign (.lowPowerInitialized _), _ | .assign (.alwaysOn _), _ | .genpd _, _
  | .panic, _ => trivial

/-- `s9p_g3d_power_on` under the lock. -/
theorem meets_powerOnLocked (hlow : lowStep.khz ≤ B) :
    powerOnLocked.Meets (KeepsRail B) (ReadsRail B) (fun _ => True) := by
  simp only [powerOnLocked, wr, poll, get, assign, Prog.perform_bind]
  refine ⟨trivial, fun _ _ => ⟨trivial, fun k _ => ?_⟩⟩
  refine Prog.Meets.bind (Q := fun _ => True) ?_ (fun ret _ => ?_)
  · split
    · exact meets_pllSetup hlow
    · trivial
  split
  · trivial
  · refine (meets_rmw (by decide) (by decide)).bind (fun _ _ =>
      (meets_rmw (by decide) (by decide)).bind (fun _ _ => ⟨trivial, fun _ _ => ⟨trivial,
        fun v _ => ?_⟩⟩))
    dsimp only
    split
    · trivial
    · refine ((uses_tzRestore (A := SwitchOp) trivial (fun _ => trivial)).meets
        (fun _ => switchOp_keepsRail)).bind (fun ret _ => ?_)
      split
      · trivial
      · refine Prog.Meets.bind (Q := fun _ => True) ?_ (fun ret _ => ?_)
        · split
          · exact ⟨trivial, fun _ _ => ⟨trivial, fun _ _ => ⟨trivial, fun _ _ =>
              ⟨trivial, fun _ _ => trivial⟩⟩⟩⟩
          · trivial
        split
        · trivial
        · exact ⟨trivial, fun _ _ => trivial⟩

/-- The three mappings; the rate published is not more than the PLL is found at. -/
theorem meets_mapWindows (hlow : lowStep.khz ≤ B) :
    mapWindows.Meets (KeepsRail B) (ReadsRail B) (fun _ => True) := by
  simp only [mapWindows, pllIs, get, ioremap, assign, rd, Prog.perform_bind]
  refine ⟨trivial, fun k _ => ?_⟩
  dsimp only
  split
  · trivial
  · refine ⟨trivial, fun _ _ => ⟨trivial, fun _ _ => ⟨trivial, fun _ _ => ⟨trivial, fun _ _ =>
      ⟨trivial, fun _ _ => ⟨trivial, fun _ _ => ⟨trivial, fun k _ => ?_⟩⟩⟩⟩⟩⟩⟩
    dsimp only
    split
    · trivial
    · refine ⟨trivial, fun v hv => ⟨?_, fun _ _ => trivial⟩⟩
      have hv' : pllKhz v ≤ B := hv rfl
      cases htop : isStep v topStep with
      | false => exact hlow
      | true =>
        rw [(isStep_iff.mp htop).1.khz (by decide)] at hv'
        exact hv'

end Meets

/-! ## 5. A relock

The one place where the rail is moved with the clock.  The condition is needed for the write in
front of a relock that goes up, and for nothing else in it. -/

/-- A BUCK6 write that could lower the rail is made only where `g3d_cur_khz` does not understate:
before a relock that goes up, PLL_CON0 is not programmed for more than the new step, and in an
enabling store not for more than `g3d_cur_khz`.  A write of an enabling store that is reported as
failed does not land later.  All of it can be read off the state before the write and off how the
write ends. -/
def railTold (s : Gpu) (o : Op) (l : Luck) : Bool :=
  match o with
  | .pmicWrite _ v =>
      decide (s.vars.railSet = true → v ≠ G3D_VSEL_950MV →
        if s.vars.stepVolt then
          s.vars.curKhz < (target s.vars).khz → pllKhz (s.regs .con0) ≤ (target s.vars).khz
        else pllKhz (s.regs .con0) ≤ s.vars.curKhz ∧ l.pmic.late = false)
  | _ => true

theorem vsel_950 : ∀ st ∈ steps, st.vsel = G3D_VSEL_950MV → st.khz = topStep.khz := by decide

theorem step_range : ∀ st ∈ steps, lowStep.khz ≤ st.khz ∧ st.khz ≤ topStep.khz := by decide

section Relock

variable {B : Nat} {s : Gpu} {k : Statics} {st : Step}

/-- After a write of a step's voltage, however it ends, the rail is enough for the slower of
that step and what it was enough for; after an acknowledged one, for the step. -/
theorem safe_vsel {t : Gpu} {o : LateReg.Outcome} {buck6 : LateReg (BitVec 8)} (h : Safe B t)
    (hst : st ∈ steps) (hpll : pllKhz (t.regs .con0) ≤ st.khz) (hcur : t.vars.curKhz ≤ st.khz)
    (hrail : t.vars.railSet = true) (hvolt : t.vars.stepVolt = true)
    (hw : t.buck6.write st.vsel o = some buck6) :
    Safe (if o.ret = 0 then st.khz else min B st.khz) { t with buck6 := buck6 } := by
  obtain ⟨hlow, hhigh⟩ := step_range st hst
  split
  · rename_i hret
    rw [LateReg.acked_of_ret hw hret] at hw
    refine ⟨⟨hlow, hhigh, hpll, hcur, fun _ => ?_⟩, fun _ hoff => ?_⟩
    · exact LateReg.all_acked (enough_vsel hst) hw
    · exact absurd (hvolt.symm.trans hoff) (by simp)
  · have hmin := h.lower (min_le_left B st.khz) (le_min h.low hlow) (le_min h.pll hpll)
      (le_min h.cur hcur)
    refine ⟨⟨hmin.low, hmin.high, hmin.pll, hmin.cur, fun _ => ?_⟩, fun _ hoff => ?_⟩
    · exact (hmin.rail hrail).write ((enough_vsel hst).anti (min_le_right B st.khz)) hw
    · exact absurd (hvolt.symm.trans hoff) (by simp)

/-- The rail goes up: it is then enough for the new step and for what was there before. -/
theorem wp_raise_rail {oldCon0 : Word} (hs : Safe B s) (hk : s.vars = k)
    (hold : pllKhz (s.regs .con0) = pllKhz oldCon0) :
    wp block railTold RailStep (raise (target k) (decide (k.curKhz < (target k).khz)))
      (fun ret t => ∃ B', Safe B' t ∧ pllKhz oldCon0 ≤ B' ∧ (ret = 0 → (target k).khz ≤ B')) s := by
  have hst := target_mem k
  obtain ⟨hlow, hhigh⟩ := step_range _ hst
  have hstable : block.Stable (fun t => Safe B t ∧ t.vars = k ∧
      pllKhz (t.regs .con0) = pllKhz oldCon0) :=
    (stable_safe B).and (stable_still (fun t => t.vars = k ∧
      pllKhz (t.regs .con0) = pllKhz oldCon0))
  simp only [raise, get, pmicWrite, Prog.perform_bind]
  refine wp_get hstable ⟨hs, hk, hold⟩ (fun _ ht => ht.1.railSafe _) (fun t ht => ?_)
  rw [ht.2.1]
  split
  · rename_i hraise
    obtain ⟨hvolt, hup, hrail⟩ := hraise
    have hup' : k.curKhz < (target k).khz := of_decide_eq_true hup
    refine wp_pmicWrite hstable ht (fun _ ht => ht.1.railSafe _) ?_
    rintro t l buck6 ⟨ht, hk, hold⟩ hok hw
    have hpll : pllKhz oldCon0 ≤ (target k).khz := by
      rw [← hold]
      by_cases hv : (target k).vsel = G3D_VSEL_950MV
      · rw [vsel_950 _ hst hv]
        exact ht.pll.trans ht.high
      · simp only [railTold, hk, hvolt, if_true, decide_eq_true_eq] at hok
        exact hok hrail hv hup'
    have hsafe := safe_vsel ht hst (hold ▸ hpll) (hk ▸ hup'.le) (hk ▸ hrail) (hk ▸ hvolt) hw
    refine wp_ret (stable_safe _) hsafe (fun _ h => h.railSafe none) (fun u hu => ⟨_, hu, ?_, ?_⟩)
    · exact hold ▸ hsafe.pll
    · intro hret
      rw [if_pos hret]
  · rename_i hraise
    refine wp_ret hstable ht (fun _ h => h.1.railSafe none) ?_
    rintro t ⟨ht, hk, hold⟩
    by_cases hup : k.curKhz < (target k).khz
    · have htop : Safe topStep.khz t := by
        refine ht.top (fun hrail => ?_)
        by_contra hvolt
        exact hraise ⟨by simpa [hk] using hvolt, decide_eq_true hup, hk ▸ hrail⟩
      exact ⟨_, htop, hold ▸ htop.pll, fun _ => hhigh⟩
    · have hcur : k.curKhz ≤ B := hk ▸ ht.cur
      exact ⟨B, ht, hold ▸ ht.pll, fun _ => (not_lt.mp hup).trans hcur⟩

theorem Safe.wr {r : Reg} {v : Word} (h : Safe B s) (hv : r = .con0 → pllKhz v ≤ B) :
    Safe B { s with regs := Function.update s.regs r v } :=
  ⟨⟨h.low, h.high, pll_update h.pll hv, h.cur, h.rail⟩, h.off⟩

/-- The switch proper programs nothing faster than the step, and succeeds only if the PLL
reads back as the step. -/
theorem wp_relock_rail {ok : Gpu → (o : Op) → Luck → Bool} (hst : st ∈ steps) (hs : Safe B s)
    (hle : st.khz ≤ B) :
    wp block ok RailStep (relock st)
      (fun ret t => Safe B t ∧ (ret = 0 → pllKhz (t.regs .con0) = st.khz)) s := by
  have hB := stable_safe B
  have hstep : ∀ (t : Gpu) (o : Option Op), Safe B t → RailSafe o t := fun _ o h => h.railSafe o
  have hread : ∀ {t : Gpu} {l : Luck} {v : Word}, Safe B t → t.shows l .con0 = some v →
      pllKhz v ≤ B := fun h hv => (pllKhz_congr (shows_con0 hv).1).trans_le h.pll
  have hfail : ∀ {t : Gpu} {ret : Int}, Safe B t → ret ≠ 0 →
      wp block ok RailStep (.ret ret : P Int)
        (fun ret t => Safe B t ∧ (ret = 0 → pllKhz (t.regs .con0) = st.khz)) t :=
    fun h hret => wp_ret hB h (fun _ => hstep _ _) (fun _ h => ⟨h, fun h0 => absurd h0 hret⟩)
  simp only [relock, pllIs, wr, rd, poll, Prog.perform_bind]
  refine wp_wr hB hs (fun _ => hstep _ _) (fun t ht => ?_)
  refine wp_wr hB (ht.wr (by simp)) (fun _ => hstep _ _) (fun t ht => ?_)
  refine wp_rd hB (ht.wr (by simp)) (fun _ => hstep _ _) (fun t l v ht hv => ?_)
  have hosc : pllKhz (v &&& ~~~PLL_CON0_MUX_SEL) ≤ B := by
    rw [pllKhz_clear (by decide)]
    exact hread ht hv
  refine wp_wr hB ht (fun _ => hstep _ _) (fun t ht => ?_)
  refine wp_poll hB (ht.wr (fun _ => hosc)) (fun _ => hstep _ _) (fun t l v ht _ hv => ?_)
  split
  · exact hfail ht (by decide)
  refine wp_rd hB ht (fun _ => hstep _ _) (fun t l v ht hv => ?_)
  -- the PLL is off, gets the fields of the step, and is on again
  have hcleared : pllKhz (v &&& ~~~(PLL_CON0_ENABLE ||| PLL_CON0_PMS_MASK)) ≤ B := by
    rw [pllKhz_cleared]
    exact Nat.zero_le B
  obtain ⟨hset, hset'⟩ := programmed_set hst v
  refine wp_wr hB ht (fun _ => hstep _ _) (fun t ht => ?_)
  refine wp_wr hB (ht.wr (fun _ => hcleared)) (fun _ => hstep _ _) (fun t ht => ?_)
  refine wp_wr hB (ht.wr (fun _ => (hset.khz hst).trans_le hle)) (fun _ => hstep _ _)
    (fun t ht => ?_)
  refine wp_poll hB (ht.wr (fun _ => (hset'.khz hst).trans_le hle)) (fun _ => hstep _ _)
    (fun t l v ht _ hv => ?_)
  split
  · exact hfail ht (by decide)
  refine wp_rd hB ht (fun _ => hstep _ _) (fun t l v ht hv => ?_)
  have hback : pllKhz (v ||| PLL_CON0_MUX_SEL) ≤ B := by
    rw [pllKhz_or (by decide)]
    exact hread ht hv
  refine wp_wr hB ht (fun _ => hstep _ _) (fun t ht => ?_)
  refine wp_poll hB (ht.wr (fun _ => hback)) (fun _ => hstep _ _) (fun t l v ht _ hv => ?_)
  split
  · exact hfail ht (by decide)
  refine wp_rd hB ht (fun _ => hstep _ _) (fun t l v ht hv => ?_)
  cases hsame : isStep v st with
  | false =>
    refine hfail ht ?_
    rw [hsame]
    decide
  | true =>
    have hkhz : pllKhz (t.regs .con0) = st.khz := by
      rw [← pllKhz_congr (shows_con0 hv).1]
      exact (isStep_iff.mp hsame).1.khz hst
    exact wp_ret (hB.and (stable_still (fun t => pllKhz (t.regs .con0) = st.khz))) ⟨ht, hkhz⟩
      (fun _ h => hstep _ _ h.1) (fun _ h => ⟨h.1, fun _ => h.2⟩)

/-- The rail comes down to the step the PLL has been read back at. -/
theorem wp_lower_rail {ok : Gpu → (o : Op) → Luck → Bool} {up : Bool} (hst : st ∈ steps)
    (hs : Safe B s) (hpll : pllKhz (s.regs .con0) = st.khz) (hcur : s.vars.curKhz = st.khz) :
    wp block ok RailStep (lower st up) (fun _ t => RailInv t) s := by
  have hstable : block.Stable (fun t => Safe B t ∧ t.vars = s.vars ∧
      pllKhz (t.regs .con0) = st.khz) :=
    (stable_safe B).and (stable_still (fun t => t.vars = s.vars ∧
      pllKhz (t.regs .con0) = st.khz))
  simp only [lower, get, pmicWrite, Prog.perform_bind]
  refine wp_get hstable ⟨hs, rfl, hpll⟩ (fun _ h => h.1.railSafe _) (fun t ht => ?_)
  rw [ht.2.1]
  split
  · rename_i hdown
    obtain ⟨hvolt, -, hrail⟩ := hdown
    refine wp_pmicWrite hstable ht (fun _ h => h.1.railSafe _) ?_
    rintro t l buck6 ⟨ht, hk, hpll⟩ - hw
    have hsafe := safe_vsel ht hst hpll.le (hk ▸ hcur.le) (hk ▸ hrail) (hk ▸ hvolt) hw
    exact wp_ret (stable_safe _) hsafe (fun _ h => h.railSafe none) (fun _ h => ⟨_, h⟩)
  · exact wp_ret hstable ht (fun _ h => h.1.railSafe none) (fun _ h => ⟨B, h.1⟩)

/-- **`s9p_g3d_set_pll`** keeps the rail covered. -/
theorem wp_setPll_rail (hs : Safe B s) (hk : s.vars = k) :
    wp block railTold RailStep (setPll (target k)) (fun _ t => RailInv t) s := by
  have hst := target_mem k
  have hB := stable_safe B
  have hvars : block.Stable (fun t => Safe B t ∧ t.vars = k) :=
    hB.and (stable_still (fun t => t.vars = k))
  simp only [setPll, mark, rd, get, assign, Prog.perform_bind]
  refine wp_mark hvars ⟨hs, hk⟩ (fun _ h => h.1.railSafe _) (fun t _ ht _ => ?_)
  refine wp_rd hvars ht (fun _ h => h.1.railSafe _) (fun t _ oldCon0 ht hv => ?_)
  have hold : pllKhz (t.regs .con0) = pllKhz oldCon0 := (pllKhz_congr (shows_con0 hv).1).symm
  have hheld : block.Stable (fun t => Safe B t ∧ t.vars = k ∧
      pllKhz (t.regs .con0) = pllKhz oldCon0) :=
    hB.and (stable_still (fun t => t.vars = k ∧ pllKhz (t.regs .con0) = pllKhz oldCon0))
  refine wp_rd hheld ⟨ht.1, ht.2, hold⟩ (fun _ h => h.1.railSafe _)
    (fun t _ oldLocktime ht _ => ?_)
  refine wp_get hheld ht (fun _ h => h.1.railSafe _) (fun t ht => ?_)
  rw [ht.2.1]
  refine wp_bind (wp_mono ?_ (wp_raise_rail ht.1 ht.2.1 ht.2.2))
  rintro ret t ⟨B', ht, hold, hle⟩
  split
  · exact wp_ret (stable_safe B') ht (fun _ h => h.railSafe none) (fun _ h => ⟨B', h⟩)
  · rename_i hret
    refine wp_bind (wp_mono ?_ (wp_relock_rail hst ht (hle (not_not.mp hret))))
    rintro ret t ⟨ht, hdone⟩
    split
    · refine wp_bind (wp_mono ?_ (wp_meets_rail (meets_rollback hold) ht))
      rintro failed t ⟨-, ht⟩
      -- the oscillator is slower than every step
      have hosc : 26000 ≤ B' := ht.low.trans' (by decide)
      split
      · have hmeets : (Prog.op (.assign (.curKhz 26000)) fun _ => .ret ret : P Int).Meets
            (KeepsRail B') (ReadsRail B') (fun _ => True) := ⟨hosc, fun _ _ => trivial⟩
        exact wp_mono (fun _ _ h => ⟨B', h.2⟩) (wp_meets_rail hmeets ht)
      · exact wp_ret (stable_safe B') ht (fun _ h => h.railSafe none) (fun _ h => ⟨B', h⟩)
    · rename_i hret'
      have hdone' : block.Stable (fun t => Safe B' t ∧ pllKhz (t.regs .con0) = (target k).khz) :=
        (stable_safe B').and (stable_still (fun t => pllKhz (t.regs .con0) = (target k).khz))
      refine wp_assign hdone' ⟨ht, hdone (not_not.mp hret')⟩ (fun _ h => h.1.railSafe _) ?_
      rintro t ⟨ht, hpll⟩
      have hcur : Safe B' { t with vars := t.vars.assign (.curKhz (target k).khz) } :=
        ⟨⟨ht.low, ht.high, ht.pll, hpll ▸ ht.pll, ht.rail⟩, ht.off⟩
      refine wp_bind (wp_mono (fun _ t ht => ?_) (wp_lower_rail hst hcur hpll rfl))
      exact wp_ret stable_railInv ht (fun _ h => h.railSafe none) (fun _ h => h)

/-- **`s9p_g3d_apply`** keeps the rail covered. -/
theorem wp_apply_rail (hs : RailInv s) :
    wp block railTold RailStep apply (fun _ t => RailInv t) s := by
  obtain ⟨B, hs⟩ := hs
  have hB := stable_safe B
  have hvars : ∀ k, block.Stable (fun t => Safe B t ∧ t.vars = k) :=
    fun k => hB.and (stable_still (fun t => t.vars = k))
  have hread : ∀ {k : Statics} {t : Gpu}, Safe B t ∧ t.vars = k →
      wp block railTold RailStep (pllIs (target k))
        (fun same t => (Safe B t ∧ t.vars = k) ∧ (same = true → (target k).khz ≤ B)) t := by
    intro k t ht
    refine wp_rd (hvars k) ht (fun _ h => h.1.railSafe _) (fun t l v ht hv => ?_)
    refine wp_ret (hvars k) ht (fun _ h => h.1.railSafe none) (fun u hu => ⟨hu, fun hsame => ?_⟩)
    rw [← (isStep_iff.mp hsame).1.khz (target_mem k), pllKhz_congr (shows_con0 hv).1]
    exact ht.1.pll
  simp only [apply, mark, get, assign, Prog.perform_bind]
  refine wp_mark hB hs (fun _ h => h.railSafe _) (fun t _ ht _ => ?_)
  refine wp_get (hvars t.vars) ⟨ht, rfl⟩ (fun _ h => h.1.railSafe _) (fun t ht => ?_)
  split
  · exact wp_ret (hvars _) ht (fun _ h => h.1.railSafe none) (fun _ h => ⟨B, h.1⟩)
  · refine wp_bind (wp_mono ?_ (hread ⟨ht.1, rfl⟩))
    rintro same t ⟨ht, hle⟩
    split
    · rename_i hsame
      have hmeets : (Prog.op (.assign (.curKhz _)) fun _ => .ret 0 : P Int).Meets
          (KeepsRail B) (ReadsRail B) (fun _ => True) := ⟨hle hsame, fun _ _ => trivial⟩
      exact wp_mono (fun _ _ h => ⟨B, h.2⟩) (wp_meets_rail hmeets ht.1)
    · exact wp_setPll_rail ht.1 ht.2

end Relock

/-! ## 6. The calls

Each call is a program of the kinds above with a relock in it, or one of the two stores that move
the rail on their own. -/

section Calls

variable {B : Nat} {s : Gpu}

/-- What is made of a program that keeps the rail covered and operations that leave the clock
and the rail alone. -/
theorem wp_around_rail {A : Op → Prop} (hA : ∀ B o, A o → KeepsRail B o) {α β : Type} {p₀ : P β}
    (h₀ : ∀ s, RailInv s → wp block railTold RailStep p₀ (fun _ t => RailInv t) s) {p : P α}
    (hp : Prog.Made A p₀ p) (hs : RailInv s) :
    wp block railTold RailStep p (fun _ t => RailInv t) s := by
  refine wp_of_made stable_railInv ?_ (fun _ _ _ h => h.railSafe _) (fun _ h => h.railSafe none)
    h₀ hp hs
  rintro o ho l s r t ⟨B, h⟩ - hact
  exact ⟨B, keepsRail (hA B o ho) hact h⟩

theorem wp_outer_rail {A : Op → Prop} (hA : ∀ B o, A o → KeepsRail B o) {α : Type} {p : P α}
    (hp : Prog.Made A apply p) (hs : RailInv s) :
    wp block railTold RailStep p (fun _ t => RailInv t) s :=
  wp_around_rail hA (fun _ h => wp_apply_rail h) hp hs

/-- A first part that meets the contract for `B`. -/
theorem wp_front {α β : Type} {p : P α} {f : α → P β} {Q : β → Gpu → Prop}
    (hp : p.Meets (KeepsRail B) (ReadsRail B) (fun _ => True)) (hs : Safe B s)
    (hf : ∀ a t, Safe B t → wp block railTold RailStep (f a) Q t) :
    wp block railTold RailStep (p >>= f) Q s :=
  wp_bind (wp_mono (fun a t h => hf a t h.2) (wp_meets_rail hp hs))

theorem switchOp_rail (B : Nat) (o : Op) (ho : SwitchOp o) : KeepsRail B o := switchOp_keepsRail ho

/-- Power-on selects the PLL again at what it is programmed to. -/
theorem wp_powerOn_rail (hs : RailInv s) :
    wp block railTold RailStep powerOn (fun _ t => RailInv t) s := by
  obtain ⟨B, hs⟩ := hs
  refine wp_front (p := domainLock) ⟨trivial, fun _ _ => trivial⟩ hs (fun _ t ht => ?_)
  refine wp_front (meets_powerOnLocked ht.low) ht (fun ret t ht => ?_)
  exact wp_outer_rail switchOp_rail ((made_pdUnlock _).bind (fun _ => .ret _)) ⟨B, ht⟩

theorem wp_powerCut_rail (hs : Safe B s) :
    wp block railTold RailStep powerCut (fun _ t => RailInv t) s := by
  refine wp_front (p := wr .pd .configuration 0#32) ⟨trivial, fun _ _ => trivial⟩ hs
    (fun _ t ht => ?_)
  refine wp_front (p := poll .pd .status G3D_LOCAL_PWR_CFG false) ⟨trivial, fun _ _ => trivial⟩ ht
    (fun v t ht => ?_)
  split
  · exact wp_outer_rail switchOp_rail (made_powerOffUndo.bind (fun _ => .ret _)) ⟨B, ht⟩
  · refine wp_front (meets_rmw (by decide) (by decide)) ht (fun _ t ht => ?_)
    refine wp_front (meets_rmw (by decide) (by decide)) ht (fun _ t ht => ?_)
    refine wp_front (p := wr .pd .con2 0x10000001#32) ⟨trivial, fun _ _ => trivial⟩ ht
      (fun _ t ht => ?_)
    exact wp_outer_rail switchOp_rail ((made_pdUnlock _).bind (fun _ => .ret _)) ⟨B, ht⟩

theorem wp_powerOff_rail (hs : RailInv s) :
    wp block railTold RailStep powerOff (fun _ t => RailInv t) s := by
  obtain ⟨B, hs⟩ := hs
  refine wp_front (p := get) ⟨trivial, fun _ _ => trivial⟩ hs (fun k t ht => ?_)
  split
  · exact wp_ret (stable_safe B) ht (fun _ h => h.railSafe none) (fun _ h => ⟨B, h⟩)
  · refine wp_front (p := domainLock) ⟨trivial, fun _ _ => trivial⟩ ht (fun _ t ht => ?_)
    refine wp_front (uses_lowPowerInit.meets (fun _ ho => switchOp_keepsRail (lpmOp_switchOp ho)))
      ht (fun _ t ht => ?_)
    refine wp_front (uses_tzSave.meets (fun _ => switchOp_keepsRail)) ht (fun a0 t ht => ?_)
    split
    · exact wp_outer_rail switchOp_rail ((made_pdUnlock _).bind (fun _ => .ret _)) ⟨B, ht⟩
    · exact wp_powerCut_rail ht

/-- The retry loop of the probe ends with nothing but 950 mV on the rail, or fails. -/
theorem wp_railWrite (polls : Nat) {ret : Int} (hret : ret ≠ 0) (hs : Safe B s) :
    wp block railTold RailStep (railWrite polls ret) (fun ret t => Safe B t ∧
      (ret = 0 → t.buck6.All (fun v => G3D_VSEL_950MV ≤ v))) s := by
  have hB := stable_safe B
  induction polls generalizing ret s with
  | zero =>
    exact wp_ret hB hs (fun _ h => h.railSafe none) (fun _ h => ⟨h, fun h0 => absurd h0 hret⟩)
  | succ polls ih =>
    simp only [railWrite, pmicWrite, Prog.perform_bind]
    refine wp_pmicWrite hB hs (fun _ h => h.railSafe _) (fun t l buck6 ht _ hw => ?_)
    have hkeep := ht.write_950 hw
    split
    · rename_i h0
      rw [LateReg.acked_of_ret hw h0] at hw
      have hall : buck6.All (fun v => G3D_VSEL_950MV ≤ v) :=
        LateReg.all_acked (P := fun v => G3D_VSEL_950MV ≤ v) (BitVec.le_refl _) hw
      exact wp_ret (hB.and (stable_buck6 _)) ⟨hkeep, hall⟩ (fun _ h => h.1.railSafe none)
        (fun _ h => ⟨h.1, fun _ => h.2⟩)
    · rename_i h0
      exact ih h0 hkeep

theorem wp_railUp (hs : Safe B s) :
    wp block railTold RailStep railUp (fun _ t => RailInv t) s := by
  have hB := stable_safe B
  refine wp_bind (wp_mono ?_ (wp_railWrite _ (by decide) hs))
  rintro ret t ⟨ht, hall⟩
  split
  · have hmeets : (do
        let k ← get
        assign (.attempts (k.attempts + 1))
        if k.attempts + 1 < G3D_RAIL_ATTEMPTS then return -EPROBE_DEFER else return ret :
          P Int).Meets (KeepsRail B) (ReadsRail B) (fun _ => True) := by
      refine ⟨trivial, fun k _ => ⟨trivial, fun _ _ => ?_⟩⟩
      dsimp only
      split
      · trivial
      · trivial
    exact wp_mono (fun _ _ h => ⟨B, h.2⟩) (wp_meets_rail hmeets ht)
  · rename_i hret
    simp only [assign, mutexLock, mutexUnlock, Prog.perform_bind]
    refine wp_assign (hB.and (stable_buck6 _)) ⟨ht, hall (not_not.mp hret)⟩
      (fun _ h => h.1.railSafe _) ?_
    rintro t ⟨ht, hall⟩
    -- from here on the rail counts
    have hset : Safe topStep.khz { t with vars := t.vars.assign .railSet } :=
      ⟨⟨by decide, le_rfl, ht.pll.trans ht.high, ht.cur.trans ht.high,
        fun _ => hall.mono (fun _ hv => enough_950 hv)⟩, fun _ _ => hall⟩
    have hmade : Prog.Made SwitchOp apply (Prog.op .mutexLock fun _ => apply >>= fun ret =>
        Prog.op .mutexUnlock fun _ => .ret ret) :=
      .op trivial (fun _ => .call (fun _ => .op trivial (fun _ => .ret _)))
    exact wp_outer_rail switchOp_rail hmade ⟨_, hset⟩

theorem wp_probeAttempt_rail (hs : RailInv s) :
    wp block railTold RailStep probeAttempt (fun _ t => RailInv t) s := by
  obtain ⟨B, hs⟩ := hs
  have hret : ∀ {ret : Int} {t : Gpu}, RailInv t →
      wp block railTold RailStep (.ret ret : P Int) (fun _ t => RailInv t) t :=
    fun h => wp_ret stable_railInv h (fun _ h => h.railSafe none) (fun _ h => h)
  have hpublish : ∀ {t : Gpu}, Safe B t →
      wp block railTold RailStep publish (fun _ t => RailInv t) t := by
    intro t ht
    refine wp_bind (wp_mono (fun ret t ht => ?_) (wp_railUp ht))
    split
    · exact hret ht
    · refine wp_outer_rail switchOp_rail (.bind (.op trivial (fun ret => .ret ret))
        (fun ret => ?_)) ht
      split
      · exact .ret _
      · exact .op trivial (fun _ => .ret _)
  have hprobe : wp block railTold RailStep probe (fun _ t => RailInv t) s := by
    refine wp_front (meets_mapWindows hs.low) hs (fun ret t ht => ?_)
    split
    · exact hret ⟨B, ht⟩
    · exact hpublish ht
  refine wp_bind (wp_mono (fun ret t ht => ?_) hprobe)
  exact wp_outer_rail (A := fun o => ∃ b, o = .probeDone b) (by rintro B o ⟨b, rfl⟩; trivial)
    (.op ⟨_, rfl⟩ (fun _ => .ret _)) ht

/-- What a store that switches step voltages on leaves on the rail: as it was if the write has
failed, the voltage of a step that covers the PLL if it has not. -/
theorem covered_enabled {st : Step} {l : Luck} {buck6 : LateReg (BitVec 8)} (hs : Safe B s)
    (hfind : find s.vars.curKhz = some st) (hrail : s.vars.railSet = true)
    (hvolt : s.vars.stepVolt = false)
    (hok : railTold s (.pmicWrite G3D_BUCK6_REG st.vsel) l = true)
    (hw : s.buck6.write st.vsel l.pmic = some buck6) :
    (l.pmic.ret ≠ 0 → Safe B { s with buck6 := buck6 }) ∧
      (l.pmic.ret = 0 → ∃ B', Covered B' { s with buck6 := buck6 }) := by
  obtain ⟨hst, hkhz⟩ := find_spec hfind
  by_cases hv : st.vsel = G3D_VSEL_950MV
  · have hkeep := hs.write_950 (hv ▸ hw)
    exact ⟨fun _ => hkeep, fun _ => ⟨B, hkeep.toCovered⟩⟩
  · obtain ⟨hpll, hlate⟩ : pllKhz (s.regs .con0) ≤ s.vars.curKhz ∧ l.pmic.late = false := by
      simp only [railTold, hvolt, decide_eq_true_eq] at hok
      simpa using hok hrail hv
    constructor
    · intro hret
      rw [LateReg.write_of_not_late hw hret hlate]
      exact hs
    · intro hret
      rw [LateReg.acked_of_ret hw hret] at hw
      obtain ⟨hlow, hhigh⟩ := step_range st hst
      refine ⟨st.khz, hlow, hhigh, hkhz ▸ hpll, hkhz.ge, fun _ => ?_⟩
      exact LateReg.all_acked (enough_vsel hst) hw

/-- **A `step_volt` store**, in either direction. -/
theorem wp_stepVoltSet_rail (val : Except Int Bool) (hs : RailInv s) :
    wp block railTold RailStep (stepVoltSet val) (fun _ t => RailInv t) s := by
  obtain ⟨B, hs⟩ := hs
  have hB := stable_safe B
  have hdone : ∀ {ret : Int} {t : Gpu}, RailInv t →
      wp block railTold RailStep (.op .mutexUnlock (fun _ => .ret ret) : P Int)
        (fun _ t => RailInv t) t :=
    fun h => wp_outer_rail switchOp_rail (.op trivial (fun _ => .ret _)) h
  cases val with
  | error ret => exact wp_ret hB hs (fun _ h => h.railSafe none) (fun _ h => ⟨B, h⟩)
  | ok enable =>
    simp only [stepVoltSet, mutexLock, mutexUnlock, get, pmicWrite, assign, Prog.perform_bind]
    refine wp_lock hB hs (fun _ h => h.railSafe _) (fun t ht => ?_)
    have hlocked : Safe B { t with locked := true } :=
      ⟨⟨ht.low, ht.high, ht.pll, ht.cur, ht.rail⟩, ht.off⟩
    have hvars : block.Stable (fun u => Safe B u ∧ u.vars = t.vars) :=
      hB.and (stable_still (fun u => u.vars = t.vars))
    refine wp_get hvars ⟨hlocked, rfl⟩ (fun _ h => h.1.railSafe _) (fun t ht => ?_)
    split
    · rename_i hswitch
      obtain ⟨hne, hrail⟩ := hswitch
      split
      · exact hdone ⟨B, ht.1⟩
      · rename_i st hfind
        -- what the lock and the table say now is what they say at the write
        have hwrite : block.Stable (fun u => Safe B u ∧ u.vars = t.vars) :=
          hB.and (stable_still (fun u => u.vars = t.vars))
        refine wp_pmicWrite hwrite ⟨ht.1, rfl⟩ (fun _ h => h.1.railSafe _) ?_
        rintro u l buck6 ⟨hu, hk⟩ hok hw
        cases enable with
        | false =>
          have hkeep := hu.write_950 hw
          split
          · exact hdone ⟨B, hkeep⟩
          · rename_i hret
            rw [LateReg.acked_of_ret hw (not_not.mp hret)] at hw
            have hall : buck6.All (fun v => G3D_VSEL_950MV ≤ v) :=
              LateReg.all_acked (P := fun v => G3D_VSEL_950MV ≤ v) (BitVec.le_refl _) hw
            refine wp_assign (hB.and (stable_buck6 _)) ⟨hkeep, hall⟩ (fun _ h => h.1.railSafe _) ?_
            rintro u ⟨hu, hall⟩
            have hoff : Safe B { u with vars := u.vars.assign (.stepVolt false) } :=
              ⟨⟨hu.low, hu.high, hu.pll, hu.cur, hu.rail⟩, fun _ _ => hall⟩
            exact hdone ⟨B, hoff⟩
        | true =>
          have hvolt : u.vars.stepVolt = false := by
            rw [hk]
            simpa using hne
          obtain ⟨hfailed, hacked⟩ := covered_enabled hu (hk ▸ hfind) (hk ▸ hrail) hvolt hok hw
          split
          · rename_i hret
            exact hdone ⟨B, hfailed hret⟩
          · rename_i hret
            obtain ⟨B', hcovered⟩ := hacked (not_not.mp hret)
            refine wp_assign (stable_covered B') hcovered (fun _ h => h.railSafe rfl) ?_
            intro u hu
            have hon : Safe B' { u with vars := u.vars.assign (.stepVolt true) } :=
              ⟨⟨hu.low, hu.high, hu.pll, hu.cur, hu.rail⟩,
                fun _ h => absurd h (by simp [Statics.assign])⟩
            exact hdone ⟨B', hon⟩
    · rename_i hsame
      refine wp_assign hvars ht (fun _ h => h.1.railSafe _) (fun u hu => ?_)
      have hkeep : Safe B { u with vars := u.vars.assign (.stepVolt enable) } := by
        refine ⟨⟨hu.1.low, hu.1.high, hu.1.pll, hu.1.cur, hu.1.rail⟩, fun hrail hoff => ?_⟩
        have hk : u.vars = t.vars := hu.2.trans ht.2.symm
        have hrail' : t.vars.railSet = true := hk ▸ hrail
        have hvolt : t.vars.stepVolt = false := by
          by_contra hon
          exact hsame ⟨fun heq => hon (heq.symm.trans hoff), hrail'⟩
        exact hu.1.off (hk ▸ hrail') (hk ▸ hvolt)
      exact hdone ⟨B, hkeep⟩

/-- **One call** of either driver keeps the rail covered. -/
theorem wp_program_rail {c : Call} (hs : RailInv s) :
    wp block railTold RailStep (program c) (fun _ t => RailInv t) s := by
  have hrequest : ∀ B o, RequestOp o → KeepsRail B o := by
    intro B o ho
    match o, ho with
    | .get, _ | .mutexLock, _ | .mutexUnlock, _ | .assign (.reqKhz _), _
    | .assign (.maxKhz _), _ => trivial
  have hcap : ∀ B o, CapOp o → KeepsRail B o := by
    rintro B o (ho | ⟨khz, rfl⟩)
    · exact hrequest B o ho
    · trivial
  cases c with
  | probe => exact wp_probeAttempt_rail hs
  | stepVoltSet val => exact wp_stepVoltSet_rail val hs
  | railUvGet =>
    refine wp_outer_rail (A := fun o => o = .mutexLock ∨ o = .mutexUnlock ∨ ∃ r, o = .pmicRead r)
      ?_ (.op (.inl rfl) (fun _ => .op (.inr (.inr ⟨_, rfl⟩)) (fun _ =>
        .op (.inr (.inl rfl)) (fun _ => .ret _)))) hs
    rintro B o (rfl | rfl | ⟨r, rfl⟩)
    · trivial
    · trivial
    · trivial
  | setKhz khz => exact wp_outer_rail hcap (made_setKhz khz) hs
  | maxSet val => exact wp_outer_rail hrequest (made_maxSet val) hs
  | clkSet rate => exact wp_outer_rail hrequest (made_clkSet rate) hs
  | policyWork p =>
    exact wp_outer_rail (A := fun o => CapOp o ∨ ∃ s, o = .assign (.policy s))
      (by rintro B o (ho | ⟨s, rfl⟩); exacts [hcap B o ho, trivial])
      (made_policyPoll (fun _ => .inl) (fun s => .inr ⟨s, rfl⟩) p) hs
  | pdProbe => exact wp_around_rail switchOp_rail (fun _ h => wp_powerOn_rail h) calls_pdProbe hs
  | powerOn =>
    exact wp_around_rail switchOp_rail (fun _ h => wp_powerOn_rail h) calls_genpdPowerOn hs
  | powerOff =>
    exact wp_around_rail switchOp_rail (fun _ h => wp_powerOff_rail h) calls_genpdPowerOff hs
  | alwaysOnSet b => exact wp_outer_rail switchOp_rail (.op trivial (fun _ => .ret _)) hs

end Calls

/-! ## 7. Every run

The run lemma carries `RailInv` from call to call, and the step property gives `RailSafe` in the
middle of one. -/

/-- The system found on a rate the table covers. -/
def stock : System Op Ans Gpu Env Luck Call Int :=
  { gpu with init := fun s => Boot s ∧ pllKhz (s.regs .con0) ≤ topStep.khz }

/-- The operation about to be performed. -/
def upcoming (p : Option (Thread Op Ans Gpu Call Int)) : Option Op :=
  match p with
  | some ⟨_, _, .op o _⟩ => some o
  | _ => none

/-- **GPU rail safety.**  In every configuration of every run in which the rail is never set
from a `g3d_cur_khz` that understates the PLL, the rail is high enough: in the middle of a
relock or a rollback, wherever the mux sits, whatever write has yet to land. -/
theorem rail_covers {s : Gpu} {p : Option (Thread Op Ans Gpu Call Int)}
    (h : stock.Reach (fun _ => railTold) s p) : RailSafe (upcoming p) s := by
  have hboot : ∀ s, stock.init s → RailInv s := by
    rintro s ⟨hs, hpll⟩
    have hoff : s.vars.railSet = true → False := fun h => absurd (hs.railSet.symm.trans h) (by simp)
    refine ⟨topStep.khz, ⟨by decide, le_rfl, hpll, ?_, fun h => (hoff h).elim⟩,
      fun h => (hoff h).elim⟩
    rw [hs.curKhz]
    exact Nat.zero_le _
  have hall := System.reach_holds (S := fun _ _ => RailStep) hboot stable_railInv
    (fun c s hs _ => wp_program_rail hs) (fun _ _ _ _ h => h) h
  match p, hall with
  | none, hall => exact hall.railSafe none
  | some ⟨c, s₀, .op o k⟩, hall => exact hall.at_op
  | some ⟨c, s₀, .ret a⟩, hall => exact hall.at_ret.1

/-- The condition cannot be dropped: the voltage of a step is too low for a PLL that is
programmed for more and drives the block. -/
theorem rail_low_of_stale {s : Gpu} {st : Step} {buck6 : LateReg (BitVec 8)} {o : Option Op}
    (hst : st ∈ steps) (hrail : s.vars.railSet = true) (hon : s.onPll = true)
    (hfast : st.khz < pllKhz (s.regs .con0)) (hw : s.buck6.write st.vsel .acked = some buck6) :
    ¬ RailSafe o { s with buck6 := buck6 } := by
  intro h
  have hstrict : ∀ a ∈ steps, ∀ b ∈ steps, b.khz < a.khz → b.vsel.toNat < a.vsel.toNat := by decide
  obtain ⟨b, hb, hle⟩ := (h hrail).2 hon
  obtain ⟨a, ha, hrate, hlevel⟩ := (Ladder.covers_iff_needed graded).mpr ⟨b, hb, hle⟩
  have hvalue : buck6.value = st.vsel :=
    (LateReg.all_acked (P := fun v => v = st.vsel) rfl hw).value
  have hlt := hstrict a ha st hst (hfast.trans_le hrate)
  rw [hvalue] at hlevel
  exact absurd hlevel (not_le.mpr hlt)

/-- A probe, step voltages on, and the clock down to 260 MHz and back up. -/
def downAndUp : List Ev :=
  callMoving .probe (List.replicate 21 prompt) ++
    callMoving (.stepVoltSet (.ok true)) (List.replicate 5 prompt) ++
    callMoving (.clkSet 260000000) (List.replicate 29 prompt) ++
    callMoving (.clkSet 572000000) (List.replicate 29 prompt)

/-- No call is in progress, the block runs from the PLL at `khz` and the rail is at `v`. -/
def clockedAt (khz : Nat) (v : BitVec 8) (x : Gpu × Option (Thread Op Ans Gpu Call Int)) : Bool :=
  x.2.isNone && decide (x.1.vars.railSet = true ∧ x.1.onPll = true ∧
    pllKhz (x.1.regs .con0) = khz ∧ x.1.buck6.value = v)

theorem clockedAt_spec {khz : Nat} {v : BitVec 8} {s : Gpu}
    {p : Option (Thread Op Ans Gpu Call Int)} (h : clockedAt khz v (s, p) = true) :
    p = none ∧ s.vars.railSet = true ∧ s.onPll = true ∧ pllKhz (s.regs .con0) = khz ∧
      s.buck6.value = v := by
  simpa [clockedAt] using h

theorem stock_found : stock.init (found true) := ⟨boot_found true, by decide⟩

theorem rail_covers_down_and_up : ∃ s, stock.Reach (fun _ => railTold) s none ∧
    s.onPll = true ∧ pllKhz (s.regs .con0) = 572000 ∧ RailSafe none s := by
  have hrun : (stock.exec (fun _ => railTold) downAndUp (found true, none)).any
      (clockedAt 572000 0x68) = true := by decide +kernel
  obtain ⟨s, p, hr, hp⟩ := System.reach_of_exec (Y := stock) stock_found _ _ hrun
  obtain ⟨rfl, -, hon, hkhz, -⟩ := clockedAt_spec hp
  exact ⟨s, hr, hon, hkhz, rail_covers hr⟩

/-- A probe, step voltages on, and two requests for 260 MHz in which the mux does not leave the
PLL: the rollback of the first fails as well. -/
def stuckTwice : List Ev :=
  callWith .probe (List.replicate 21 prompt) ++
    callWith (.stepVoltSet (.ok true)) (List.replicate 5 prompt) ++
    callWith (.clkSet 260000000) (List.replicate 15 prompt ++ List.replicate 6 stuck) ++
    callWith (.clkSet 260000000) (List.replicate 22 stuck)

/-- **The rail of 260 MHz under a block at 572 MHz**: after a failed rollback the driver takes
260 MHz for a step up, and sets the rail for it while the PLL still runs at 572 MHz. -/
theorem rail_too_low : ¬ ∀ (s : Gpu) (p : Option (Thread Op Ans Gpu Call Int)),
    stock.Reach System.anyStep s p → RailSafe (upcoming p) s := by
  intro h
  have hrun : (stock.exec System.anyStep stuckTwice (found true, none)).any
      (clockedAt 572000 0x58) = true := by decide +kernel
  obtain ⟨s, p, hr, hp⟩ := System.reach_of_exec (Y := stock) stock_found _ _ hrun
  obtain ⟨rfl, hrail, hon, hkhz, hvalue⟩ := clockedAt_spec hp
  obtain ⟨st, hst, hle⟩ := (h s none hr hrail).2 hon
  rw [hkhz] at hst
  have htop : Ladder.needed Step.khz steps 572000 = some topStep := by decide
  obtain rfl : topStep = st := Option.some.inj (htop.symm.trans hst)
  rw [hvalue] at hle
  exact absurd hle (by decide)

end S9p.G3d
