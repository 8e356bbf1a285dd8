/-
# What a failed relock leaves behind

`s9p_g3d_set_pll` has four ways to fail: the BUCK6 write, the two waits for the source mux and
the wait for the lock, with the last look at PLL_CON0 as a fifth.  The first has touched no
register yet.  All others end under the label `restore`, whatever they have left in PLL_CON0.

* `wp_relock_clock`, `wp_rollback_clock`: ENABLE and the fields change only where the mux has been
  seen to sit on the oscillator, and a rollback that returns 0 has written everything back.
* `setPll_restores`: so a call that fails leaves the clock as it found it, or its rollback has
  timed out and `g3d_cur_khz` is 26000; one that returns 0 arrives at the step.
* `rail_below_before`: the rail may end lower than it began, at the voltage of the step asked
  for, where an earlier lowering had failed and left it above that.
-/
import S9p.Lib.Path
import S9p.G3d.Domain
import S9p.G3d.Pll

namespace S9p.G3d

open Field Device

/-! ## 1. What has to hold

`PLL_CON0` is the register the clock is made of, and only three parts of it matter.  A restored
clock agrees with the old one in these. -/

/-- What makes the PLL run, and at which rate. -/
def PLL_CON0_PLL : Word := PLL_CON0_ENABLE ||| PLL_CON0_PMS_MASK

/-- The same and the source selection. -/
def PLL_CON0_CLOCK : Word := PLL_CON0_PLL ||| PLL_CON0_MUX_SEL

/-- **No stop under load**: while the mux sits on the PLL, the write about to be performed leaves
ENABLE and the fields as they are. -/
def NoStop (s : Gpu) : Option Op → Prop
  | some (.wr _ .con0 v) => s.onPll = true → v &&& PLL_CON0_PLL = s.regs .con0 &&& PLL_CON0_PLL
  | _ => True

/-- The clock is what it was.  A mux that had arrived where it was sent is back there.  The rail is
not mentioned: it may have been raised, and stays so. -/
structure Restored (s t : Gpu) : Prop where
  con0 : t.regs .con0 &&& PLL_CON0_CLOCK = s.regs .con0 &&& PLL_CON0_CLOCK
  locktime : t.regs .locktime = s.regs .locktime
  curKhz : t.vars.curKhz = s.vars.curKhz
  mux : s.onPll = selected (s.regs .con0) → t.onPll = s.onPll

/-- The call takes the rail to the voltage of the step before it touches the clock. -/
def Raises (st : Step) (k : Statics) : Prop :=
  k.stepVolt = true ∧ k.curKhz < st.khz ∧ k.railSet = true

/-- The rail, now and whatever failed write still lands, is not below `floor` if it was not
before, and if the step a rising call has set it to is not. -/
def RailKept (st : Step) (s t : Gpu) : Prop :=
  ∀ floor : BitVec 8, s.buck6.All (fun v => floor ≤ v) → (Raises st s.vars → floor ≤ st.vsel) →
    t.buck6.All (fun v => floor ≤ v)

/-- The last look of a wait that has run out of time. -/
def TimedOut : (o : Op) → Ans o → Prop
  | .poll _ _ mask set, v => if set then v &&& mask = 0 else v &&& mask ≠ 0
  | _, _ => False

/-- The rollback at the end of the call has timed out. -/
def RollbackTimedOut (tr : List (Sigma Ans)) : Prop :=
  ∃ tr₁ tr₂ d oldCon0 oldLocktime failed,
    tr = tr₁ ++ (tr₂ ++ [d]) ++ [⟨.assign (.curKhz 26000), ()⟩] ∧
    (rollback oldCon0 oldLocktime).Path (tr₂ ++ [d]) failed ∧ TimedOut d.1 d.2

/-! ## 2. The mux

The mux lags behind its selection, so a write does not move the block off the PLL at once.  What
shows as not busy has arrived, and stays there. -/

/-- The mux has arrived where PLL_CON0 sends it. -/
def Arrived (s : Gpu) : Prop := s.onPll = selected (s.regs .con0)

theorem stable_arrived : block.Stable Arrived := by
  intro e s t h hs
  have hcon0 : t.regs .con0 = s.regs .con0 :=
    stable_still (fun t => t.regs .con0 = s.regs .con0) e s t h rfl
  unfold Arrived
  rw [hcon0]
  rcases drift_cases h with ⟨buck6, -, rfl⟩ | rfl | ⟨-, v, rfl⟩
  · exact hs
  · rfl
  · exact hs

/-- A read shows what makes up the clock as it was last written. -/
theorem shows_clock {s : Gpu} {l : Luck} {v : Word} (h : s.shows l .con0 = some v) :
    v &&& PLL_CON0_CLOCK = s.regs .con0 &&& PLL_CON0_CLOCK := by
  simp only [Gpu.shows] at h
  split at h
  · simp only [Option.some.injEq] at h
    rw [← h, withBit_and (by decide), withBit_and (by decide)]
  · exact absurd h (by simp)

theorem shows_pll {s : Gpu} {l : Luck} {v : Word} (h : s.shows l .con0 = some v) :
    v &&& PLL_CON0_PLL = s.regs .con0 &&& PLL_CON0_PLL :=
  and_congr_part (shows_clock h) (by decide)

/-- **A mux that shows as not busy has arrived.** -/
theorem shows_arrived {s : Gpu} {l : Luck} {v : Word} (h : s.shows l .con0 = some v)
    (hbusy : v &&& PLL_CON0_MUX_BUSY = 0) : Arrived s := by
  simp only [Gpu.shows] at h
  split at h
  · rename_i hcase
    rcases hcase with hb | hmux
    · simp only [Option.some.injEq] at h
      rw [← h, hb, withBit, if_pos rfl, or_and_self] at hbusy
      exact absurd hbusy (by decide)
    · exact hmux
  · exact absurd h (by simp)

/-- The mux sits on the oscillator and stays there. -/
def Off (s : Gpu) : Prop := Arrived s ∧ selected (s.regs .con0) = false

theorem Off.onPll {s : Gpu} (h : Off s) : s.onPll = false := h.1.trans h.2

theorem stable_off : block.Stable Off :=
  stable_arrived.and (stable_still (fun t => selected (t.regs .con0) = false))

theorem selected_clear (v : Word) : selected (v &&& ~~~PLL_CON0_MUX_SEL) = false := by
  unfold selected
  rw [BitVec.and_assoc, show ~~~PLL_CON0_MUX_SEL &&& PLL_CON0_MUX_SEL = 0#32 by decide,
    BitVec.and_zero]
  rfl

theorem selected_shows {s : Gpu} {l : Luck} {v : Word} (h : s.shows l .con0 = some v) :
    selected v = selected (s.regs .con0) := selected_congr (shows_con0 h).2

theorem regs_update (s : Gpu) (r : Reg) (v : Word) :
    ({ s with regs := Function.update s.regs r v } : Gpu).regs r = v := by simp

/-- On the oscillator every write that does not select the PLL keeps it so. -/
theorem Off.wr {s : Gpu} {v : Word} (h : Off s) (hv : selected v = false) :
    Off { s with regs := Function.update s.regs .con0 v } := by
  have hsel := (congrArg selected (regs_update s .con0 v)).trans hv
  exact ⟨h.onPll.trans hsel.symm, hsel⟩

/-! ## 3. The two sequences

Each sequence is followed once, from any state, and says what it leaves whether it succeeds or not.
-/

/-- What a relock and its rollback leave alone.  Both sequences work on the registers only, whatever
comes of them. -/
structure Kept (k : Statics) (V : BitVec 8 → Prop) (s : Gpu) : Prop where
  vars : s.vars = k
  rail : s.buck6.All V

theorem stable_kept (k : Statics) (V : BitVec 8 → Prop) : block.Stable (Kept k V) :=
  fun e s t h hs => ⟨stable_vars k e s t h hs.vars, stable_buck6 V e s t h hs.rail⟩

section Sequences

variable {ok : Gpu → (o : Op) → Luck → Bool} {k : Statics} {V : BitVec 8 → Prop} {s : Gpu}
  {st : Step}

theorem Kept.wr {r : Reg} {v : Word} (h : Kept k V s) :
    Kept k V { s with regs := Function.update s.regs r v } := ⟨h.vars, h.rail⟩

/-- To the oscillator: the write that clears MUX_SEL, and the wait for the mux. -/
theorem wp_toOsc {α : Type} {p : P α} {p' : Word → P α} {Q : α → Gpu → Prop} {v : Word}
    (hs : Kept k V s ∧ s.regs .con0 &&& PLL_CON0_PLL = v &&& PLL_CON0_PLL)
    (hbusy : ∀ t, Kept k V t → wp block ok NoStop p Q t)
    (hoff : ∀ t u, Kept k V t ∧ Off t → selected u = false → wp block ok NoStop (p' u) Q t) :
    wp block ok NoStop (.op (.wr .g3d .con0 (v &&& ~~~PLL_CON0_MUX_SEL)) fun _ =>
      .op (.poll .g3d .con0 PLL_CON0_MUX_BUSY false) fun u =>
        if u &&& PLL_CON0_MUX_BUSY ≠ 0 then p else p' u) Q s := by
  have hclear : v &&& ~~~PLL_CON0_MUX_SEL &&& PLL_CON0_PLL = v &&& PLL_CON0_PLL :=
    and_not_and (by decide)
  have hstable : block.Stable (fun t => Kept k V t ∧ selected (t.regs .con0) = false) :=
    (stable_kept k V).and (stable_still (fun t => selected (t.regs .con0) = false))
  have hpll : block.Stable (fun t => Kept k V t ∧
      t.regs .con0 &&& PLL_CON0_PLL = v &&& PLL_CON0_PLL) := (stable_kept k V).and
    (stable_still (fun t => t.regs .con0 &&& PLL_CON0_PLL = v &&& PLL_CON0_PLL))
  refine wp_wr hpll hs ?_ (fun t ht => ?_)
  · intro t ht _
    rw [hclear, ht.2]
  refine wp_poll hstable ⟨ht.1.wr, ?_⟩ (fun _ _ => trivial) (fun t l u ht _ hu => ?_)
  · exact (congrArg selected (regs_update t _ _)).trans (selected_clear v)
  split
  · exact hbusy t ht.1
  · rename_i hidle
    have hoff' : Off t := ⟨shows_arrived hu (not_not.mp hidle), ht.2⟩
    exact hoff t u ⟨ht.1, hoff'⟩ ((selected_shows hu).trans ht.2)

/-- **The switch proper** stops the PLL on the oscillator only, and returns 0 only if PLL_CON0
reads back as the step. -/
theorem wp_relock_clock (hst : st ∈ steps) (hs : Kept k V s) :
    wp block ok NoStop (relock st)
      (fun ret t => Kept k V t ∧ (ret = 0 → isStep (t.regs .con0) st = true)) s := by
  have hkept := stable_kept k V
  have hoff := hkept.and stable_off
  have hfail : ∀ {t : Gpu} {ret : Int}, Kept k V t → ret ≠ 0 →
      wp block ok NoStop (.ret ret : P Int)
        (fun ret t => Kept k V t ∧ (ret = 0 → isStep (t.regs .con0) st = true)) t :=
    fun h hret => wp_ret hkept h (fun _ _ => trivial) (fun _ h => ⟨h, fun h0 => absurd h0 hret⟩)
  have hfields : st.pms &&& PLL_CON0_MUX_SEL = 0#32 := by
    have hall : ∀ st ∈ steps, st.pms &&& PLL_CON0_MUX_SEL = 0#32 := by decide
    exact hall st hst
  -- on the oscillator, whatever is written
  have hquiet : ∀ {v : Word} (t : Gpu), Kept k V t ∧ Off t → NoStop t (some (.wr .g3d .con0 v)) :=
    fun t ht h => absurd (ht.2.onPll.symm.trans h) (by simp)
  simp only [relock, pllIs, wr, rd, poll, Prog.perform_bind]
  refine wp_wr hkept hs (fun _ _ => trivial) (fun t ht => ?_)
  refine wp_wr hkept ht.wr (fun _ _ => trivial) (fun t ht => ?_)
  refine wp_rd hkept ht.wr (fun _ _ => trivial) (fun t l v ht hv => ?_)
  refine wp_toOsc ⟨ht, (shows_pll hv).symm⟩ (fun t ht => hfail ht (by decide))
    (fun t _ ht _ => ?_)
  refine wp_rd hoff ht (fun _ _ => trivial) (fun t l v ht hv => ?_)
  have hsel : selected (v &&& ~~~(PLL_CON0_ENABLE ||| PLL_CON0_PMS_MASK)) = false := by
    rw [selected_congr (and_not_and (by decide)), selected_shows hv]
    exact ht.2.2
  refine wp_wr hoff ht hquiet (fun t ht => ?_)
  refine wp_wr hoff ⟨ht.1.wr, ht.2.wr hsel⟩ hquiet (fun t ht => ?_)
  refine wp_wr hoff ⟨ht.1.wr, ht.2.wr ?_⟩ hquiet (fun t ht => ?_)
  · exact (selected_congr (or_and hfields)).trans hsel
  refine wp_poll hoff ⟨ht.1.wr, ht.2.wr ?_⟩ (fun _ _ => trivial) (fun t l v ht _ hv => ?_)
  · exact (selected_congr ((or_and hfields).trans (or_and (by decide)))).trans hsel
  split
  · exact hfail ht.1 (by decide)
  refine wp_rd hoff ht (fun _ _ => trivial) (fun t l v ht hv => ?_)
  refine wp_wr hoff ht hquiet (fun t ht => ?_)
  refine wp_poll hkept ht.1.wr (fun _ _ => trivial) (fun t l v ht _ hv => ?_)
  split
  · exact hfail ht (by decide)
  refine wp_rd hkept ht (fun _ _ => trivial) (fun t l v ht hv => ?_)
  cases hsame : isStep v st with
  | false =>
    refine hfail ht ?_
    rw [hsame]
    decide
  | true =>
    have hback : isStep (t.regs .con0) st = true := (isStep_shows hv).symm.trans hsame
    exact wp_ret (hkept.and (stable_still (fun t => isStep (t.regs .con0) st = true)))
      ⟨ht, hback⟩ (fun _ _ => trivial) (fun _ h => ⟨h.1, fun _ => h.2⟩)

/-- **The rollback**, which does the same with the old values and writes the source selection
back last. -/
theorem wp_rollback_clock {oldCon0 oldLocktime : Word} (hs : Kept k V s) :
    wp block ok NoStop (rollback oldCon0 oldLocktime) (fun ret t => Kept k V t ∧
      (ret = 0 → t.regs .con0 = oldCon0 ∧ t.regs .locktime = oldLocktime ∧ Arrived t)) s := by
  have hkept := stable_kept k V
  have hoff := hkept.and stable_off
  have hfail : ∀ {t : Gpu} {ret : Int}, Kept k V t → ret ≠ 0 →
      wp block ok NoStop (.ret ret : P Int) (fun ret t => Kept k V t ∧
        (ret = 0 → t.regs .con0 = oldCon0 ∧ t.regs .locktime = oldLocktime ∧ Arrived t)) t :=
    fun h hret => wp_ret hkept h (fun _ _ => trivial) (fun _ h => ⟨h, fun h0 => absurd h0 hret⟩)
  have hquiet : ∀ {v : Word} (t : Gpu), Kept k V t ∧ Off t → NoStop t (some (.wr .g3d .con0 v)) :=
    fun t ht h => absurd (ht.2.onPll.symm.trans h) (by simp)
  have hregs : ∀ con0, block.Stable (fun t => Kept k V t ∧ t.regs .con0 = con0 ∧
      t.regs .locktime = oldLocktime) := fun con0 => hkept.and (stable_still (fun t =>
    t.regs .con0 = con0 ∧ t.regs .locktime = oldLocktime))
  simp only [rollback, wr, rd, poll, Prog.perform_bind]
  refine wp_rd hkept hs (fun _ _ => trivial) (fun t l v ht hv => ?_)
  refine wp_toOsc ⟨ht, (shows_pll hv).symm⟩ (fun t ht => hfail ht (by decide))
    (fun t u ht hu => ?_)
  refine wp_wr hoff ht hquiet (fun t ht => ?_)
  refine wp_wr hoff ⟨ht.1.wr, ht.2.wr ?_⟩ (fun _ _ => trivial) (fun t ht => ?_)
  · exact (selected_congr (and_not_and (by decide))).trans hu
  have hlock : block.Stable (fun t => (Kept k V t ∧ Off t) ∧ t.regs .locktime = oldLocktime) :=
    hoff.and (stable_still (fun t => t.regs .locktime = oldLocktime))
  refine wp_wr hlock ⟨⟨ht.1.wr, ht.2.1, ht.2.2⟩, regs_update t _ _⟩ (fun t ht => hquiet t ht.1)
    (fun t ht => ?_)
  refine wp_poll (hregs (oldCon0 &&& ~~~PLL_CON0_MUX_SEL)) ⟨ht.1.1.wr, regs_update t _ _, ht.2⟩
    (fun _ _ => trivial) (fun t l v ht _ hv => ?_)
  split
  · exact hfail ht.1 (by decide)
  refine wp_wr (hregs (oldCon0 &&& ~~~PLL_CON0_MUX_SEL)) ht ?_ (fun t ht => ?_)
  · intro t ht _
    rw [ht.2.1]
    exact (and_not_and (by decide)).symm
  refine wp_poll (hregs oldCon0) ⟨ht.1.wr, regs_update t _ _, ht.2.2⟩ (fun _ _ => trivial)
    (fun t l v ht _ hv => ?_)
  split
  · exact hfail ht.1 (by decide)
  · rename_i hidle
    exact wp_ret ((hregs oldCon0).and stable_arrived) ⟨ht, shows_arrived hv (not_not.mp hidle)⟩
      (fun _ _ => trivial) (fun _ h => ⟨h.1.1, fun _ => ⟨h.1.2.1, h.1.2.2, h.2⟩⟩)

end Sequences

/-! ## 4. The call

Up to the label nothing has failed but the wait, so what the rollback finds is a clock on the
oscillator or one that has not left the PLL. -/

section Call

variable {ok : Gpu → (o : Op) → Luck → Bool} {s t : Gpu} {st : Step} {tr : List (Sigma Ans)}
  {ret : Int}

/-- What the caller finds: `gaveUp` says that the rollback has failed. -/
structure ClockEnds (st : Step) (V : BitVec 8 → Prop) (gaveUp : Prop) (s : Gpu) (ret : Int)
    (t : Gpu) : Prop where
  failed : ret ≠ 0 → (Restored s t ∨ gaveUp ∧ t.vars.curKhz = 26000) ∧ t.buck6.All V
  done : ret = 0 → isStep (t.regs .con0) st = true ∧ t.vars.curKhz = st.khz

/-- The rail goes up, or nothing happens. -/
theorem wp_raise_clock {V : BitVec 8 → Prop} {I : Gpu → Prop} {up : Bool} {k : Statics}
    (hI : block.Stable I)
    (hwrite : ∀ u buck6, I u → I { u with buck6 := buck6 }) (hs : Kept k V s ∧ I s)
    (hV : k.stepVolt = true ∧ up = true ∧ k.railSet = true → V st.vsel) :
    wp block ok NoStop (raise st up) (fun _ u => Kept k V u ∧ I u) s := by
  have hstable := (stable_kept k V).and hI
  simp only [raise, get, pmicWrite, Prog.perform_bind]
  refine wp_get hstable hs (fun _ _ => trivial) (fun u hu => ?_)
  rw [hu.1.vars]
  split
  · rename_i hraise
    refine wp_pmicWrite hstable hu (fun _ _ => trivial) (fun u l buck6 hu _ hw => ?_)
    exact wp_ret hstable ⟨⟨hu.1.vars, hu.1.rail.write (hV hraise) hw⟩, hwrite u buck6 hu.2⟩
      (fun _ _ => trivial) (fun _ h => h)
  · exact wp_ret hstable hu (fun _ _ => trivial) (fun _ h => h)

/-- Once the PLL is on the step, only the rail is left. -/
theorem wp_lower_clock {up : Bool} (hs : isStep (s.regs .con0) st = true ∧ s.vars.curKhz = st.khz) :
    wp block ok NoStop (lower st up)
      (fun _ u => isStep (u.regs .con0) st = true ∧ u.vars.curKhz = st.khz) s := by
  have hstable : block.Stable (fun u => isStep (u.regs .con0) st = true ∧
      u.vars.curKhz = st.khz) :=
    stable_still (fun u => isStep (u.regs .con0) st = true ∧ u.vars.curKhz = st.khz)
  simp only [lower, get, pmicWrite, Prog.perform_bind]
  refine wp_get hstable hs (fun _ _ => trivial) (fun u hu => ?_)
  split
  · refine wp_pmicWrite hstable hu (fun _ _ => trivial) (fun u l buck6 hu _ _ => ?_)
    exact wp_ret hstable hu (fun _ _ => trivial) (fun _ h => h)
  · exact wp_ret hstable hu (fun _ _ => trivial) (fun _ h => h)

/-- **`s9p_g3d_set_pll`**, from whatever it finds. -/
theorem wp_setPll_clock {V : BitVec 8 → Prop} {gaveUp : Prop} (hst : st ∈ steps)
    (hok : ∀ u l, ok u (.assign (.curKhz 26000)) l = true → gaveUp) (hs : s.buck6.All V)
    (hV : Raises st s.vars → V st.vsel) :
    wp block ok NoStop (setPll st) (ClockEnds st V gaveUp s) s := by
  have hregs : block.Stable (fun u => (u.regs .con0 = s.regs .con0 ∧
      u.regs .locktime = s.regs .locktime) ∧ (Arrived s → Arrived u)) := (stable_still (fun u =>
    u.regs .con0 = s.regs .con0 ∧ u.regs .locktime = s.regs .locktime)).and stable_arrived.imp
  have hkept := stable_kept s.vars V
  have hstable := hkept.and hregs
  have hback : ∀ {u : Gpu}, u.vars = s.vars →
      u.regs .con0 &&& PLL_CON0_CLOCK = s.regs .con0 &&& PLL_CON0_CLOCK →
      u.regs .locktime = s.regs .locktime → (Arrived s → Arrived u) → Restored s u := by
    intro u hvars hcon0 hlock hmux
    refine ⟨hcon0, hlock, congrArg Statics.curKhz hvars, fun harr => ?_⟩
    rw [hmux harr, harr]
    exact selected_congr (and_congr_part hcon0 (by decide))
  simp only [setPll, mark, rd, get, assign, Prog.perform_bind]
  refine wp_mark hstable ⟨⟨rfl, hs⟩, ⟨rfl, rfl⟩, id⟩ (fun _ _ => trivial) (fun u _ hu _ => ?_)
  refine wp_rd hstable hu (fun _ _ => trivial) (fun u _ oldCon0 hu hv => ?_)
  have hold : oldCon0 &&& PLL_CON0_CLOCK = s.regs .con0 &&& PLL_CON0_CLOCK := by
    rw [shows_clock hv, hu.2.1.1]
  refine wp_rd hstable hu (fun _ _ => trivial) (fun u l oldLocktime hu hv => ?_)
  obtain rfl : u.regs .locktime = oldLocktime := Option.some.inj hv
  rw [hu.2.1.2]
  refine wp_get hstable hu (fun _ _ => trivial) (fun u hu => ?_)
  rw [hu.1.vars]
  refine wp_bind (wp_mono ?_ (wp_raise_clock hregs (fun _ _ h => h) hu
    (fun h => hV ⟨h.1, of_decide_eq_true h.2.1, h.2.2⟩)))
  rintro ret u ⟨hk, hu⟩
  split
  · rename_i hret
    refine wp_ret hstable ⟨hk, hu⟩ (fun _ _ => trivial) ?_
    rintro t ⟨hk, ⟨hcon0, hlock⟩, hmux⟩
    exact ⟨fun _ => ⟨.inl (hback hk.vars (by rw [hcon0]) hlock hmux), hk.rail⟩,
      fun h0 => absurd h0 hret⟩
  refine wp_bind (wp_mono ?_ (wp_relock_clock hst hk))
  rintro ret u ⟨hk, hdone⟩
  split
  · rename_i hret
    refine wp_bind (wp_mono ?_ (wp_rollback_clock hk))
    rintro failed u ⟨hk, hrestored⟩
    split
    · refine wp_op_eq (fun _ _ => rfl) hkept hk (fun _ _ => trivial) (fun u l hu hok' => ?_)
      refine wp_ret ((stable_buck6 V).and (stable_still (fun u => u.vars.curKhz = 26000)))
        ⟨hu.rail, rfl⟩ (fun _ _ => trivial) ?_
      rintro t ⟨hrail, hcur⟩
      exact ⟨fun _ => ⟨.inr ⟨hok u l hok', hcur⟩, hrail⟩, fun h0 => absurd h0 hret⟩
    · rename_i hfailed
      obtain ⟨hcon0, hlock, harr⟩ := hrestored (not_not.mp hfailed)
      refine wp_ret (hkept.and ((stable_still (fun u => u.regs .con0 = oldCon0 ∧
        u.regs .locktime = s.regs .locktime)).and stable_arrived)) ⟨hk, ⟨hcon0, hlock⟩, harr⟩
        (fun _ _ => trivial) ?_
      rintro t ⟨hk, ⟨hcon0, hlock⟩, harr⟩
      exact ⟨fun _ => ⟨.inl (hback hk.vars (hcon0 ▸ hold) hlock (fun _ => harr)), hk.rail⟩,
        fun h0 => absurd h0 hret⟩
  · rename_i hret
    refine wp_assign (stable_still (fun u => isStep (u.regs .con0) st = true))
      (hdone (not_not.mp hret)) (fun _ _ => trivial) (fun u hu => ?_)
    refine wp_bind (wp_mono (fun _ u hu => ?_) (wp_lower_clock ⟨hu, rfl⟩))
    refine wp_ret (stable_still (fun u => isStep (u.regs .con0) st = true ∧
      u.vars.curKhz = st.khz)) hu (fun _ _ => trivial) ?_
    exact fun t ht => ⟨fun h => absurd rfl h, fun _ => ht⟩

/-- A rollback that fails has waited in vain. -/
theorem rollback_timedOut {oldCon0 oldLocktime : Word}
    (h : (rollback oldCon0 oldLocktime).Path tr ret) (hret : ret ≠ 0) :
    ∃ tr₂ d, tr = tr₂ ++ [d] ∧ TimedOut d.1 d.2 := by
  simp only [rollback, wr, rd, poll, Prog.perform_bind] at h
  obtain ⟨v, rest, rfl, h₁⟩ := Prog.path_op.mp h
  obtain ⟨_, rest, rfl, h₂⟩ := Prog.path_op.mp h₁
  obtain ⟨v, rest, rfl, h₃⟩ := Prog.path_op.mp h₂
  split at h₃
  · rename_i hbusy
    obtain ⟨rfl, -⟩ := Prog.path_ret.mp h₃
    exact ⟨[_, _], _, rfl, hbusy⟩
  obtain ⟨_, rest, rfl, h₄⟩ := Prog.path_op.mp h₃
  obtain ⟨_, rest, rfl, h₅⟩ := Prog.path_op.mp h₄
  obtain ⟨_, rest, rfl, h₆⟩ := Prog.path_op.mp h₅
  obtain ⟨v, rest, rfl, h₇⟩ := Prog.path_op.mp h₆
  split at h₇
  · rename_i hunlocked
    obtain ⟨rfl, -⟩ := Prog.path_ret.mp h₇
    exact ⟨[_, _, _, _, _, _], _, rfl, hunlocked⟩
  obtain ⟨_, rest, rfl, h₈⟩ := Prog.path_op.mp h₇
  obtain ⟨v, rest, rfl, h₉⟩ := Prog.path_op.mp h₈
  obtain ⟨rfl, rfl⟩ := Prog.path_ret.mp h₉
  refine ⟨[_, _, _, _, _, _, _, _], _, rfl, ?_⟩
  by_contra hidle
  exact hret (if_neg hidle)

/-- No step of the trace gives the clock up. -/
def Keeps (tr : List (Sigma Ans)) : Prop := ∀ d ∈ tr, d.1 ≠ .assign (.curKhz 26000)

theorem keeps_append {tr₁ tr₂ : List (Sigma Ans)} (h₁ : Keeps tr₁) (h₂ : Keeps tr₂) :
    Keeps (tr₁ ++ tr₂) := by
  intro d hd
  rcases List.mem_append.mp hd with hd | hd
  · exact h₁ d hd
  · exact h₂ d hd

theorem keeps_cons {d : Sigma Ans} {tr : List (Sigma Ans)} (hd : d.1 ≠ .assign (.curKhz 26000))
    (h : Keeps tr) : Keeps (d :: tr) := List.forall_mem_cons.mpr ⟨hd, h⟩

theorem keeps_nil : Keeps [] := by simp [Keeps]

theorem keeps_of_uses {α : Type} {p : P α} {a : α} {A : Op → Prop}
    (hA : ¬ A (.assign (.curKhz 26000))) (h : p.Path tr a) (hp : p.Uses A) : Keeps tr := by
  intro d hd heq
  exact hA (heq ▸ h.uses hp d hd)

/-- **The call gives up only where its rollback has timed out.** -/
theorem setPll_gaveUp (hst : st ∈ steps) (h : (setPll st).Path tr ret) :
    RollbackTimedOut tr ∨ Keeps tr := by
  have hkhz : st.khz ≠ 26000 := by
    have hall : ∀ st ∈ steps, st.khz ≠ 26000 := by decide
    exact hall st hst
  simp only [setPll, mark, rd, get, assign, Prog.perform_bind] at h
  obtain ⟨_, rest₁, rfl, h₁⟩ := Prog.path_op.mp h
  obtain ⟨oldCon0, rest₂, rfl, h₂⟩ := Prog.path_op.mp h₁
  obtain ⟨oldLocktime, rest₃, rfl, h₃⟩ := Prog.path_op.mp h₂
  obtain ⟨k, rest₄, rfl, h₄⟩ := Prog.path_op.mp h₃
  have hhead : ∀ {tr : List (Sigma Ans)}, Keeps tr → Keeps (⟨.mark .setPll, ()⟩ ::
      ⟨.rd .g3d .con0, oldCon0⟩ :: ⟨.rd .g3d .locktime, oldLocktime⟩ :: ⟨.get, k⟩ :: tr) :=
    fun h => keeps_cons (by simp) (keeps_cons (by simp) (keeps_cons (by simp)
      (keeps_cons (by simp) h)))
  obtain ⟨raised, tr₁, rest₅, rfl, hraise, h₅⟩ := Prog.path_bind.mp h₄
  have k₁ : Keeps tr₁ := keeps_of_uses id hraise (uses_raise _ _)
  split at h₅
  · obtain ⟨rfl, -⟩ := Prog.path_ret.mp h₅
    exact .inr (hhead (keeps_append k₁ keeps_nil))
  obtain ⟨relocked, tr₂, rest₆, rfl, hrelock, h₆⟩ := Prog.path_bind.mp h₅
  have k₂ : Keeps tr₂ := keeps_of_uses id hrelock (uses_relock _)
  split at h₆
  · obtain ⟨failed, tr₃, rest₇, rfl, hrollback, h₇⟩ := Prog.path_bind.mp h₆
    split at h₇
    · rename_i hfailed
      obtain ⟨_, rest₈, rfl, h₈⟩ := Prog.path_op.mp h₇
      obtain ⟨rfl, -⟩ := Prog.path_ret.mp h₈
      obtain ⟨tr₄, d, rfl, hd⟩ := rollback_timedOut hrollback hfailed
      refine .inl ⟨⟨.mark .setPll, ()⟩ :: ⟨.rd .g3d .con0, oldCon0⟩ ::
        ⟨.rd .g3d .locktime, oldLocktime⟩ :: ⟨.get, k⟩ :: (tr₁ ++ tr₂), tr₄, d, oldCon0,
        oldLocktime, failed, ?_, hrollback, hd⟩
      simp only [List.cons_append, List.append_assoc]
    · obtain ⟨rfl, -⟩ := Prog.path_ret.mp h₇
      have k₃ : Keeps tr₃ := keeps_of_uses id hrollback (uses_rollback _ _)
      exact .inr (hhead (keeps_append k₁ (keeps_append k₂ (keeps_append k₃ keeps_nil))))
  · obtain ⟨_, rest₇, rfl, h₇⟩ := Prog.path_op.mp h₆
    obtain ⟨_, tr₃, rest₈, rfl, hlower, h₈⟩ := Prog.path_bind.mp h₇
    obtain ⟨rfl, -⟩ := Prog.path_ret.mp h₈
    have k₃ : Keeps tr₃ := keeps_of_uses id hlower (uses_lower _ _)
    refine .inr (hhead (keeps_append k₁ (keeps_append k₂ (keeps_cons ?_
      (keeps_append k₃ keeps_nil)))))
    simpa using hkhz

/-- The test on steps that a call which does not give up passes. -/
def notGivenUp : Gpu → (o : Op) → Luck → Bool
  | _, .assign (.curKhz khz), _ => decide (khz ≠ 26000)
  | _, _, _ => true

theorem runs_notGivenUp (h : block.Runs (fun _ _ _ => true) (setPll st) s tr ret t)
    (hkeeps : Keeps tr) : block.Runs notGivenUp (setPll st) s tr ret t := by
  refine h.restrict (R := fun o _ => o ≠ .assign (.curKhz 26000)) ?_ hkeeps
  intro u o l r v _ _ hne
  cases o with
  | assign x =>
    cases x with
    | curKhz khz =>
      refine decide_eq_true ?_
      rintro rfl
      exact hne rfl
    | _ => rfl
  | _ => rfl

/-- **A failed relock restores the clock.** -/
theorem setPll_restores (hst : st ∈ steps) {q : P Int}
    (h : block.Within (fun _ _ _ => true) (setPll st) s tr q t) :
    (∀ w v k, q = .op (.wr w .con0 v) k → t.onPll = true →
      v &&& PLL_CON0_PLL = t.regs .con0 &&& PLL_CON0_PLL) ∧
    ∀ ret, q = .ret ret →
      (ret ≠ 0 → (Restored s t ∨ RollbackTimedOut tr ∧ t.vars.curKhz = 26000) ∧ RailKept st s t) ∧
      (ret = 0 → isStep (t.regs .con0) st = true ∧ t.vars.curKhz = st.khz) := by
  have hany : wp block (fun _ _ _ => true) NoStop (setPll st)
      (ClockEnds st (fun _ => True) True s) s :=
    wp_setPll_clock hst (fun _ _ _ => trivial) (fun _ _ => trivial) (fun _ => trivial)
  constructor
  · rintro w v k rfl
    exact h.at_op hany
  · rintro ret rfl
    refine ⟨fun hret => ⟨?_, fun floor hs hV => ?_⟩, (h.runs.post hany).done⟩
    · rcases setPll_gaveUp hst h.runs.path with hgave | hkeeps
      · exact ((h.runs.post hany).failed hret).1.imp id (fun hc => ⟨hgave, hc.2⟩)
      · have hnot : wp block notGivenUp NoStop (setPll st)
            (ClockEnds st (fun _ => True) False s) s :=
          wp_setPll_clock hst (fun _ _ hok => absurd hok (by simp [notGivenUp]))
            (fun _ _ => trivial) (fun _ => trivial)
        exact (((runs_notGivenUp h.runs hkeeps).post hnot).failed hret).1.imp id
          (fun hc => hc.1.elim)
    · have hrail : wp block (fun _ _ _ => true) NoStop (setPll st)
          (ClockEnds st (fun v => floor ≤ v) True s) s :=
        wp_setPll_clock hst (fun _ _ _ => trivial) hs hV
      exact ((h.runs.post hrail).failed hret).2

end Call

/-! ## 5. A rail that was higher

The rail is not part of what is restored, and it need not come back to where it was. -/

/-- `s9p_g3d_steps[1]`. -/
def midStep : Step := ⟨455000, 455, 26, 0, 0x60⟩

/-- The block on 572 MHz, after the probe and with step voltages on. -/
def at572 : Gpu :=
  { found true with
    vars := { (found true).vars with
      con0 := some 0, con2 := some 1, locktime := some 2, railSet := true, curKhz := 572000,
      stepVolt := true }
    buck6 := ⟨G3D_VSEL_950MV, []⟩
    windows := 3
    locked := true }

/-- Operations that meet the luck of the list, with the mux following before each. -/
def moving (ls : List Luck) : List (Env ⊕ Luck) := ls.flatMap (fun l => [.inl .muxMove, .inr l])

/-- Down to 260 MHz; the mux does not leave the PLL in time. -/
def downStuck : List (Env ⊕ Luck) :=
  moving (List.replicate 9 prompt ++ [stuck] ++ List.replicate 9 prompt)

/-- The rollback of such a call brings 572 MHz back. -/
theorem setPll_restores_572 : ∃ tr ret t,
    block.Runs (fun _ _ _ => true) (setPll lowStep) at572 tr ret t ∧ ret ≠ 0 ∧
      (Restored at572 t ∨ RollbackTimedOut tr ∧ t.vars.curKhz = 26000) ∧
      RailKept lowStep at572 t := by
  have hplay : (block.play downStuck (setPll lowStep) at572).any (fun x => decide (x.1 ≠ 0)) =
      true := by decide +kernel
  obtain ⟨⟨ret, t⟩, hx, hret⟩ := (Option.any_eq_true _ _).mp hplay
  obtain ⟨tr, hruns⟩ := runs_of_play (fun _ _ _ => rfl) hx
  have hfailed : ret ≠ 0 := of_decide_eq_true hret
  have h := setPll_restores (show lowStep ∈ steps by decide) hruns.within
  exact ⟨tr, ret, t, hruns, hfailed, (h.2 ret rfl).1 hfailed⟩

/-- Down to 260 MHz; the PMIC firmware refuses the lower voltage. -/
def downRefused : List (Env ⊕ Luck) :=
  moving (List.replicate 21 prompt ++ [{ prompt with pmic := .failed (-5) false }])

/-- Up to 455 MHz; the mux does not leave the PLL in time, and the rollback does its work. -/
def upStuck : List (Env ⊕ Luck) :=
  moving (List.replicate 10 prompt ++ [stuck] ++ List.replicate 9 prompt)

/-- The block runs from the PLL at the step, and nothing is on its way to the rail. -/
def runsAt (st : Step) (s : Gpu) : Bool :=
  s.onPll && isStep (s.regs .con0) st && decide (s.regs .con0 &&& PLL_CON0_ENABLE ≠ 0) &&
    decide (s.buck6.pending = [])

/-- **The rail of a failed call may end lower than it began**: it was still at 950 mV from
572 MHz, and the call that failed had set it for 455 MHz. -/
theorem rail_below_before : ∃ tr₀ s tr ret t,
    block.Runs (fun _ _ _ => true) (setPll lowStep) at572 tr₀ 0 s ∧ runsAt lowStep s = true ∧
      block.Runs (fun _ _ _ => true) (setPll midStep) s tr ret t ∧ ret ≠ 0 ∧
      t.vars.curKhz ≠ 26000 ∧ t.buck6.value < s.buck6.value := by
  have hplay : (block.play downRefused (setPll lowStep) at572).any (fun x =>
      decide (x.1 = 0) && runsAt lowStep x.2 &&
        (block.play upStuck (setPll midStep) x.2).any (fun y =>
          decide (y.1 ≠ 0 ∧ y.2.vars.curKhz ≠ 26000 ∧ y.2.buck6.value < x.2.buck6.value))) =
      true := by decide +kernel
  obtain ⟨⟨ret₀, s⟩, hx, hsecond⟩ := (Option.any_eq_true _ _).mp hplay
  simp only [Bool.and_eq_true, decide_eq_true_eq, Option.any_eq_true] at hsecond
  obtain ⟨⟨rfl, hruns⟩, ⟨ret, t⟩, hy, hret, hcur, hrail⟩ := hsecond
  obtain ⟨tr₀, hdown⟩ := runs_of_play (fun _ _ _ => rfl) hx
  obtain ⟨tr, hup⟩ := runs_of_play (fun _ _ _ => rfl) hy
  exact ⟨tr₀, s, tr, ret, t, hdown, hruns, hup, hret, hcur, hrail⟩

end S9p.G3d
