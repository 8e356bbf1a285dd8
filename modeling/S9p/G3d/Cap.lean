/-
# The thermal cap on both sides

The poll of the cpufreq driver keeps a level for the GPU and hands the cap of that level to
`s9p-g3d` with `s9p_g3d_set_khz`.  The GPU driver stores the cap and then moves the clock; if
that fails it returns the error with the cap already stored, and the poll keeps the old level.

So the two agree as long as the relock asked for by a poll succeeds: every wait in it ends
with the bit it waits for, and a rail that has to go up first does (`capLands`).  Under that
condition `s9p_g3d_set_khz` either refuses without storing or stores and returns 0
(`wp_setKhz_cap`), and the agreement is an invariant of all runs (`cap_agrees`).  A relock that
fails while the level falls leaves the higher cap behind (`cap_left_behind`).
-/
import S9p.G3d.Pll
import S9p.G3d.Domain

namespace S9p.G3d

open Field Device

/-! ## 1. The invariant

Level and cap are two variables in two drivers, and the agreement is between them.  The clock is not
part of it: what it runs at follows from the requests. -/

/-- The cap stored is that of the level, and no request is below the lowest step.  The three
requests are part of it only because a request below the lowest step would be rounded up by the
driver. -/
structure CapAgrees (s : Gpu) : Prop where
  cap : s.vars.thermalKhz = Cpufreq.maxKhz Cpufreq.thermalGpu s.vars.policy.gpuLvl
  floor : lowStep.khz ≤ s.vars.reqKhz ∧ lowStep.khz ≤ s.vars.thermalKhz ∧
    lowStep.khz ≤ s.vars.maxKhz

theorem lowStep_le : ∀ st ∈ steps, lowStep.khz ≤ st.khz := by decide

/-- From the lowest step up, `s9p_g3d_step_below` rounds down. -/
theorem stepBelow_le {khz : Nat} (h : lowStep.khz ≤ khz) : (stepBelow khz).khz ≤ khz := by
  unfold stepBelow
  cases hfind : steps.find? (fun st => decide (st.khz ≤ khz)) with
  | none => exact h
  | some st => simpa using List.find?_some hfind

/-- What a request makes the clock go for is within the cap. -/
theorem CapAgrees.target_le {s : Gpu} (h : CapAgrees s) :
    (target s.vars).khz ≤ Cpufreq.maxKhz Cpufreq.thermalGpu s.vars.policy.gpuLvl := by
  obtain ⟨hreq, hthermal, hmax⟩ := h.floor
  have hmin : lowStep.khz ≤ min (min s.vars.reqKhz s.vars.thermalKhz) s.vars.maxKhz := by omega
  have hle : (target s.vars).khz ≤ min (min s.vars.reqKhz s.vars.thermalKhz) s.vars.maxKhz :=
    stepBelow_le hmin
  rw [← h.cap]
  omega

theorem stable_capAgrees : block.Stable CapAgrees := by
  intro e s t h hs
  have hvars : t.vars = s.vars := drift_vars h
  exact ⟨hvars ▸ hs.cap, hvars ▸ hs.floor⟩

/-- Operations that store neither a cap nor a level, and requests from the lowest step up. -/
def KeepsCap : Op → Prop
  | .assign (.thermalKhz _) => False
  | .assign (.policy _) => False
  | .assign (.reqKhz khz) => lowStep.khz ≤ khz
  | .assign (.maxKhz khz) => lowStep.khz ≤ khz
  | _ => True

theorem keepsCap {o : Op} {l : Luck} {s t : Gpu} {r : Ans o} (ho : KeepsCap o)
    (h : act o l s = some (r, t)) (hs : CapAgrees s) : CapAgrees t := by
  have hc := act_changes h
  cases o with
  | assign x =>
    have hvars : t.vars = s.vars.assign x := hc.vars
    obtain ⟨hcap, hreq, hthermal, hmax⟩ := hs
    cases x with
    | thermalKhz => exact ho.elim
    | policy => exact ho.elim
    | reqKhz khz => exact ⟨hvars ▸ hcap, hvars ▸ ⟨ho, hthermal, hmax⟩⟩
    | maxKhz khz => exact ⟨hvars ▸ hcap, hvars ▸ ⟨hreq, hthermal, ho⟩⟩
    | _ => exact ⟨hvars ▸ hcap, hvars ▸ ⟨hreq, hthermal, hmax⟩⟩
  | _ =>
    have hvars : t.vars = s.vars := hc.vars
    exact ⟨hvars ▸ hs.cap, hvars ▸ hs.floor⟩

/-! ## 2. The condition

The condition is on the luck of the operations in a poll.  All other calls may fail as they like. -/

/-- In a poll, every wait of the relock ends with the bit it waits for, and a rail that has to go up
first does.  Operations outside of a poll are not restricted. -/
def capLands (c : Call) (s : Gpu) (o : Op) (l : Luck) : Bool :=
  match c, o with
  | .policyWork _, .poll .g3d r mask set =>
      (s.shows l r).all (fun v => decide (v &&& mask = if set then mask else 0#32))
  | .policyWork _, .pmicWrite _ _ =>
      decide (s.vars.curKhz < (target s.vars).khz → l.pmic.ret = 0)
  | _, _ => true

section Lands

variable {p : Cpufreq.Poll} {s : Gpu} {k : Statics}

theorem lands_poll {r : Reg} {mask v : Word} {set : Bool} {l : Luck}
    (hok : capLands (.policyWork p) s (.poll .g3d r mask set) l = true)
    (hv : s.shows l r = some v) : v &&& mask = if set then mask else 0#32 := by
  simpa [capLands, hv] using hok

theorem stable_con0 (k : Statics) (R : Word → Prop) :
    block.Stable (fun t => t.vars = k ∧ R (t.regs .con0)) :=
  stable_still (fun t => t.vars = k ∧ R (t.regs .con0))

theorem assign_vars {x : Assign} (hs : s.vars = k) :
    ({ s with vars := s.vars.assign x } : Gpu).vars = k.assign x := by rw [hs]

/-! ## 3. The relock of a poll

With the condition the relock cannot fail, and then `s9p_g3d_set_khz` has nothing to report but
success. -/

/-- The switch proper goes through: what was programmed is what is read back. -/
theorem wp_relock_lands {st : Step} (hst : st ∈ steps) (hs : s.vars = k) :
    wp block (capLands (.policyWork p)) (fun _ _ => True) (relock st)
      (fun ret t => ret = 0 ∧ t.vars = k) s := by
  have hany := stable_vars k
  simp only [relock, pllIs, wr, rd, poll, Prog.perform_bind]
  refine wp_wr hany hs (fun _ _ => trivial) (fun t ht => ?_)
  refine wp_wr hany ht (fun _ _ => trivial) (fun t ht => ?_)
  refine wp_rd hany ht (fun _ _ => trivial) (fun t _ v ht _ => ?_)
  refine wp_wr hany ht (fun _ _ => trivial) (fun t ht => ?_)
  refine wp_poll hany ht (fun _ _ => trivial) (fun t l v ht hok hv => ?_)
  have hclear : v &&& PLL_CON0_MUX_BUSY = 0 := lands_poll hok hv
  rw [if_neg (not_not.mpr hclear)]
  refine wp_rd hany ht (fun _ _ => trivial) (fun t _ v ht _ => ?_)
  refine wp_wr hany ht (fun _ _ => trivial) (fun t ht => ?_)
  refine wp_wr hany ht (fun _ _ => trivial) (fun t ht => ?_)
  refine wp_wr hany ht (fun _ _ => trivial) (fun t ht => ?_)
  -- from here on the fields are those of the step
  have hprog := stable_con0 k (Programmed st)
  refine wp_poll hprog ⟨ht, by simpa using (programmed_set hst v).2⟩ (fun _ _ => trivial)
    (fun t l v ht hok hv => ?_)
  have hlock : v &&& PLL_CON0_STABLE ≠ 0 := by
    rw [lands_poll hok hv]
    decide
  rw [if_neg hlock]
  refine wp_rd hprog ht (fun _ _ => trivial) (fun t _ v ht hv => ?_)
  have hv' : Programmed st v := (programmed_congr (shows_con0 hv).1).mpr ht.2
  refine wp_wr hprog ht (fun _ _ => trivial) (fun t ht => ?_)
  have hon := stable_con0 k (fun v => Programmed st v ∧ selected v = true)
  refine wp_poll hon ⟨ht.1, ?_⟩ (fun _ _ => trivial) (fun t l v ht hok hv => ?_)
  · simp only [Function.update_self]
    exact ⟨(programmed_congr (or_and (by decide))).mpr hv', selected_or v⟩
  have hclear : v &&& PLL_CON0_MUX_BUSY = 0 := lands_poll hok hv
  rw [if_neg (not_not.mpr hclear)]
  refine wp_rd hon ht (fun _ _ => trivial) (fun t _ v ht hv => ?_)
  have hsame : isStep v st = true := (isStep_shows hv).trans (isStep_iff.mpr ht.2)
  refine wp_ret hany ht.1 (fun _ _ => trivial) (fun t ht => ⟨?_, ht⟩)
  simp [hsame]

/-- So does the rail on its way up. -/
theorem wp_raise_lands (hs : s.vars = k) :
    wp block (capLands (.policyWork p)) (fun _ _ => True)
      (raise (target k) (decide (k.curKhz < (target k).khz)))
      (fun ret t => ret = 0 ∧ t.vars = k) s := by
  have hany := stable_vars k
  simp only [raise, get, pmicWrite, Prog.perform_bind]
  refine wp_get hany hs (fun _ _ => trivial) (fun t ht => ?_)
  rw [ht]
  split
  · rename_i hup
    obtain ⟨-, hup, -⟩ := hup
    refine wp_pmicWrite hany ht (fun _ _ => trivial) (fun t l buck6 ht hok _ => ?_)
    have hret : l.pmic.ret = 0 := by
      simp only [capLands, ht, decide_eq_true_eq] at hok
      exact hok (of_decide_eq_true hup)
    exact wp_ret hany ht (fun _ _ => trivial) (fun t ht => ⟨hret, ht⟩)
  · exact wp_ret hany ht (fun _ _ => trivial) (fun t ht => ⟨rfl, ht⟩)

theorem wp_lower_vars {ok : Gpu → (o : Op) → Luck → Bool} {st : Step} {up : Bool}
    (hs : s.vars = k) :
    wp block ok (fun _ _ => True) (lower st up) (fun _ t => t.vars = k) s := by
  have hany := stable_vars k
  simp only [lower, get, pmicWrite, Prog.perform_bind]
  refine wp_get hany hs (fun _ _ => trivial) (fun t ht => ?_)
  split
  · refine wp_pmicWrite hany ht (fun _ _ => trivial) (fun t l buck6 ht _ _ => ?_)
    exact wp_ret hany ht (fun _ _ => trivial) (fun _ h => h)
  · exact wp_ret hany ht (fun _ _ => trivial) (fun _ h => h)

/-- `s9p_g3d_set_pll` returns 0; what becomes of the rail on its way down does not matter. -/
theorem wp_setPll_lands (hs : s.vars = k) :
    wp block (capLands (.policyWork p)) (fun _ _ => True) (setPll (target k))
      (fun ret t => ret = 0 ∧ t.vars = k.assign (.curKhz (target k).khz)) s := by
  have hany := stable_vars
  simp only [setPll, mark, rd, get, assign, Prog.perform_bind]
  refine wp_mark (hany k) hs (fun _ _ => trivial) (fun t _ ht _ => ?_)
  refine wp_rd (hany k) ht (fun _ _ => trivial) (fun t _ oldCon0 ht _ => ?_)
  refine wp_rd (hany k) ht (fun _ _ => trivial) (fun t _ oldLocktime ht _ => ?_)
  refine wp_get (hany k) ht (fun _ _ => trivial) (fun t ht => ?_)
  rw [ht]
  refine wp_bind (wp_mono ?_ (wp_raise_lands ht))
  rintro ret t ⟨rfl, ht⟩
  rw [if_neg (not_not.mpr rfl)]
  refine wp_bind (wp_mono ?_ (wp_relock_lands (target_mem k) ht))
  rintro ret t ⟨rfl, ht⟩
  rw [if_neg (not_not.mpr rfl)]
  refine wp_assign (hany k) ht (fun _ _ => trivial) (fun t ht => ?_)
  refine wp_bind (wp_mono (fun _ t ht => ?_) (wp_lower_vars (assign_vars ht)))
  exact wp_ret (hany _) ht (fun _ _ => trivial) (fun t ht => ⟨rfl, ht⟩)

theorem wp_apply_lands (hs : s.vars = k) :
    wp block (capLands (.policyWork p)) (fun _ _ => True) apply
      (fun ret t => ret = 0 ∧ ∃ khz, t.vars = k.assign (.curKhz khz)) s := by
  have hany := stable_vars
  simp only [apply, mark, get, assign, Prog.perform_bind]
  refine wp_mark (hany k) hs (fun _ _ => trivial) (fun t _ ht _ => ?_)
  refine wp_get (hany k) ht (fun _ _ => trivial) (fun t ht => ?_)
  rw [ht]
  split
  · exact wp_ret (hany k) ht (fun _ _ => trivial) (fun t ht => ⟨rfl, k.curKhz, ht⟩)
  · have hread : wp block (capLands (.policyWork p)) (fun _ _ => True) (pllIs (target k))
        (fun _ t => t.vars = k) t :=
      wp_rd (hany k) ht (fun _ _ => trivial) (fun _ _ _ ht _ =>
        wp_ret (hany k) ht (fun _ _ => trivial) (fun _ h => h))
    refine wp_bind (wp_mono (fun same t ht => ?_) hread)
    split
    · refine wp_assign (hany k) ht (fun _ _ => trivial) (fun t ht => ?_)
      exact wp_ret (hany _) (assign_vars ht) (fun _ _ => trivial)
        (fun t ht => ⟨rfl, _, ht⟩)
    · exact wp_mono (fun _ _ h => ⟨h.1, _, h.2⟩) (wp_setPll_lands ht)

/-- **`s9p_g3d_set_khz` in a poll** stores the cap and returns 0, or does neither. -/
theorem wp_setKhz_cap {khz : Nat} (hs : s.vars = k) :
    wp block (capLands (.policyWork p)) (fun _ _ => True) (setKhz khz)
      (fun ret t => (ret ≠ 0 ∧ t.vars = k) ∨
        (ret = 0 ∧ lowStep.khz ≤ khz ∧
          ∃ cur, t.vars = (k.assign (.thermalKhz khz)).assign (.curKhz cur))) s := by
  have hany := stable_vars
  simp only [setKhz, request, mutexLock, mutexUnlock, get, assign, Prog.perform_bind]
  split
  · exact wp_ret (hany k) hs (fun _ _ => trivial) (fun t ht => .inl ⟨by decide, ht⟩)
  · rename_i hfound
    obtain ⟨st, hst⟩ : ∃ st, find khz = some st := by
      simpa [Option.isNone_iff_eq_none, Option.ne_none_iff_exists'] using hfound
    obtain ⟨hmem, hkhz⟩ := find_spec hst
    have hlow : lowStep.khz ≤ khz := hkhz ▸ lowStep_le st hmem
    refine wp_get (hany k) hs (fun _ _ => trivial) (fun t ht => ?_)
    split
    · exact wp_ret (hany k) ht (fun _ _ => trivial) (fun t ht => .inl ⟨by decide, ht⟩)
    · refine wp_lock (hany k) ht (fun _ _ => trivial) (fun t ht => ?_)
      refine wp_assign (hany k) ht (fun _ _ => trivial) (fun t ht => ?_)
      refine wp_bind (wp_mono ?_ (wp_apply_lands (assign_vars ht)))
      rintro ret t ⟨rfl, cur, ht⟩
      refine wp_unlock (hany _) ht (fun _ _ => trivial) (fun t ht => ?_)
      exact wp_ret (hany _) ht (fun _ _ => trivial) (fun t ht => .inr ⟨rfl, hlow, cur, ht⟩)

/-- **A poll** keeps the agreement. -/
theorem wp_policyPoll_cap (hs : CapAgrees s) :
    wp block (capLands (.policyWork p)) (fun _ _ => True) (policyPoll p)
      (fun _ t => CapAgrees t) s := by
  have hany := stable_vars
  -- the poll returns its new statics, which are then stored
  have hstore : ∀ (policy : Cpufreq.Policy) {t : Gpu} {k : Statics}, t.vars = k →
      k.thermalKhz = Cpufreq.maxKhz Cpufreq.thermalGpu policy.gpuLvl →
      (lowStep.khz ≤ k.reqKhz ∧ lowStep.khz ≤ k.thermalKhz ∧ lowStep.khz ≤ k.maxKhz) →
      wp block (capLands (.policyWork p)) (fun _ _ => True) (.ret policy)
        (fun policy t => wp block (capLands (.policyWork p)) (fun _ _ => True)
          (.op (.assign (.policy policy)) (fun _ => .ret (0 : Int))) (fun _ t => CapAgrees t) t)
        t := by
    intro policy t k ht hcap hfloor
    refine wp_ret (hany k) ht (fun _ _ => trivial) (fun t ht => ?_)
    refine wp_assign (hany k) ht (fun _ _ => trivial) (fun t ht => ?_)
    refine wp_ret stable_capAgrees ?_ (fun _ _ => trivial) (fun _ h => h)
    exact ⟨by rw [assign_vars ht]; exact hcap, by rw [assign_vars ht]; exact hfloor⟩
  simp only [policyPoll, Cpufreq.policyWork, get, assign, Prog.perform_bind]
  refine wp_get (hany s.vars) rfl (fun _ _ => trivial) (fun t ht => ?_)
  rw [ht]
  split
  · refine wp_bind (wp_bind (wp_mono ?_ (wp_setKhz_cap ht)))
    rintro ret t (⟨hret, ht⟩ | ⟨rfl, hlow, cur, ht⟩)
    · rw [if_neg hret]
      exact hstore _ ht hs.cap hs.floor
    · rw [if_pos rfl]
      exact hstore _ ht rfl ⟨hs.floor.1, hlow, hs.floor.2.2⟩
  · exact wp_bind (hstore _ ht hs.cap hs.floor)

end Lands

/-! ## 4. Every run

Other calls move neither the level nor the cap, so the only thing to show of them is that they keep
the requests from falling below the lowest step. -/

/-- The system in which only the poll calls `s9p_g3d_set_khz`. -/
def polled : System Op Ans Gpu Env Luck Call Int :=
  gpu.onlyCalls (fun c => match c with
    | .setKhz _ => false
    | _ => true)

/-- **Every other call** keeps the agreement, whatever the hardware does. -/
theorem wp_frame_cap {A : Op → Prop} {c : Call} {s : Gpu}
    (hA : ∀ o, A o → KeepsCap o) (hp : Prog.Made A apply (program c)) (hs : CapAgrees s) :
    wp block (capLands c) (fun _ _ => True) (program c) (fun _ t => CapAgrees t) s := by
  have happly : apply.Uses KeepsCap := by
    refine uses_apply.mono ?_
    rintro o (ho | rfl)
    · match o, ho with
      | .get, _ | .mark .setPll, _ | .assign (.curKhz _), _ | .rd .g3d _, _ | .poll .g3d _ _ _, _
      | .wr .g3d _ _, _ | .pmicWrite _ _, _ => trivial
    · trivial
  exact wp_of_uses stable_capAgrees (fun _ ho _ _ _ _ h _ hact => keepsCap ho hact h)
    (fun _ _ _ _ => trivial) (fun _ _ => trivial) ((hp.mono hA).uses happly) hs

theorem wp_program_cap {c : Call} {s : Gpu} (hs : CapAgrees s) (hc : polled.enabled c s = true) :
    wp block (capLands c) (fun _ _ => True) (program c) (fun _ t => CapAgrees t) s := by
  have hrequest : ∀ o, RequestOp o → KeepsCap o := by
    intro o ho
    match o, ho with
    | .get, _ => trivial
    | .mutexLock, _ => trivial
    | .mutexUnlock, _ => trivial
    | .assign (.reqKhz _), ⟨st, hst, rfl⟩ => exact lowStep_le st hst
    | .assign (.maxKhz _), ⟨st, hst, rfl⟩ => exact lowStep_le st hst
  have hvolt : ∀ o, VoltOp o → KeepsCap o := by
    intro o ho
    match o, ho with
    | .get, _ | .mutexLock, _ | .mutexUnlock, _ | .assign (.stepVolt _), _ | .pmicWrite _ _, _
    | .pmicRead _, _ => trivial
  have hprobe : ∀ o, MapOp o ∨ PublishOp o ∨ (∃ b, o = .probeDone b) → KeepsCap o := by
    rintro o (ho | ho | ⟨b, rfl⟩)
    · match o, ho with
      | .get, _ | .ioremap, _ | .assign (.con0 _), _ | .assign (.con2 _), _
      | .assign (.locktime _), _ | .assign (.curKhz _), _ | .rd .g3d _, _ => trivial
    · match o, ho with
      | .get, _ | .mutexLock, _ | .mutexUnlock, _ | .assign (.attempts _), _ | .assign .railSet, _
      | .pmicWrite _ _, _ | .kernel _, _ => trivial
    · trivial
  have hpd : ∀ o, PdOp o → KeepsCap o := by
    intro o ho
    match o, ho with
    | .get, _ | .rd .pd _, _ | .poll .pd _ _ _, _ | .wr .pd _ _, _ | .smc _, _ | .kernel _, _
    | .mutexLock, _ | .mutexUnlock, _ | .mark (.domainUnlock _), _ | .assign (.domainPowered _), _
    | .assign (.initialized _), _ | .assign (.lowPowerInitialized _), _ | .assign (.alwaysOn _), _
    | .genpd _, _ | .panic, _ => trivial
  cases c with
  | probe => exact wp_frame_cap hprobe made_probeAttempt hs
  | stepVoltSet val => exact wp_frame_cap hvolt (uses_stepVoltSet val).made hs
  | railUvGet => exact wp_frame_cap hvolt (uses_railUvGet.made.bind (fun _ => .ret _)) hs
  | setKhz khz => simp [polled, System.onlyCalls] at hc
  | maxSet val => exact wp_frame_cap hrequest (made_maxSet val) hs
  | clkSet rate => exact wp_frame_cap hrequest (made_clkSet rate) hs
  | policyWork p => exact wp_policyPoll_cap hs
  | pdProbe => exact wp_frame_cap hpd made_pdProbe hs
  | powerOn => exact wp_frame_cap hpd made_genpdPowerOn hs
  | powerOff => exact wp_frame_cap hpd made_genpdPowerOff hs
  | alwaysOnSet b => exact wp_frame_cap hpd (.op trivial (fun _ => .ret _)) hs

/-- **The two sides agree on the cap** whenever no call is in progress, in every run whose
polls relock as `capLands` says; and no request then goes for more than that cap. -/
theorem cap_agrees {s : Gpu} (h : polled.Reach capLands s none) :
    s.vars.thermalKhz = Cpufreq.maxKhz Cpufreq.thermalGpu s.vars.policy.gpuLvl ∧
      (target s.vars).khz ≤ Cpufreq.maxKhz Cpufreq.thermalGpu s.vars.policy.gpuLvl := by
  have hboot : ∀ s, polled.init s → CapAgrees s := by
    intro s hs
    obtain ⟨hreq, hthermal, hmax⟩ := hs.requests
    constructor
    · rw [hthermal, hs.policy.gpu]
      rfl
    · rw [hreq, hthermal, hmax]
      decide
  have hall := System.reach_holds (S := fun _ _ _ _ => True) hboot stable_capAgrees
    (fun c s hs hc => wp_program_cap hs hc) (fun _ _ _ _ h => h) h
  exact ⟨hall.cap, hall.target_le⟩

/-- A poll at `ms` milliseconds that reads `temp` everywhere. -/
def pollAt (ms temp : Int) : Call := .policyWork {
  now := ms * 1000000
  raw := fun _ => temp
  busy := 1
  idle := fun _ => false }

/-- A probe, a poll at 95 degrees, which caps at 260 MHz, and two at 70 degrees, the second of
which lets go to 455 MHz; `ls` is the luck of that one. -/
def heatsAndCools (ls : List Luck) : List Ev :=
  callMoving .probe (List.replicate 21 prompt) ++
    callMoving (pollAt 0 95) (List.replicate 30 prompt) ++
    callMoving (pollAt 2100 70) (List.replicate 2 prompt) ++
    callMoving (pollAt 2200 70) ls

/-- No call is in progress, the level is `lvl` and the cap stored `khz`. -/
def cappedAt (lvl khz : Nat) (x : Gpu × Option (Thread Op Ans Gpu Call Int)) : Bool :=
  x.2.isNone && decide (x.1.vars.policy.gpuLvl = lvl ∧ x.1.vars.thermalKhz = khz)

theorem cappedAt_spec {lvl khz : Nat} {s : Gpu} {p : Option (Thread Op Ans Gpu Call Int)}
    (h : cappedAt lvl khz (s, p) = true) :
    p = none ∧ s.vars.policy.gpuLvl = lvl ∧ s.vars.thermalKhz = khz := by
  simpa [cappedAt] using h

theorem cap_agrees_cooled : ∃ s, polled.Reach capLands s none ∧ s.vars.policy.gpuLvl = 1 ∧
    s.vars.thermalKhz = 455000 ∧ (target s.vars).khz ≤ 455000 := by
  have hrun : (polled.exec capLands (heatsAndCools (List.replicate 30 prompt))
      (found true, none)).any (cappedAt 1 455000) = true := by decide +kernel
  obtain ⟨s, p, hr, hp⟩ := System.reach_of_exec (Y := polled) (boot_found true) _ _ hrun
  obtain ⟨rfl, hlvl, -⟩ := cappedAt_spec hp
  obtain ⟨hcap, hle⟩ := cap_agrees hr
  rw [hlvl] at hcap hle
  exact ⟨s, hr, hlvl, hcap, hle⟩

/-- **A cap left behind**: the mux does not get to the oscillator in time, and level 2 goes
with the cap of level 1. -/
theorem cap_left_behind : ¬ ∀ s, polled.Reach System.anyStep s none →
    s.vars.thermalKhz = Cpufreq.maxKhz Cpufreq.thermalGpu s.vars.policy.gpuLvl := by
  intro h
  have hrun : (polled.exec System.anyStep
      (heatsAndCools (List.replicate 10 prompt ++ List.replicate 13 stuck))
      (found true, none)).any (cappedAt 2 455000) = true := by decide +kernel
  obtain ⟨s, p, hr, hp⟩ := System.reach_of_exec (Y := polled) (boot_found true) _ _ hrun
  obtain ⟨rfl, hlvl, hkhz⟩ := cappedAt_spec hp
  have hcap := h s hr
  rw [hlvl, hkhz] at hcap
  exact absurd hcap (by decide)

end S9p.G3d
