/-
# Register windows that a failed probe takes away

The windows of `s9p-g3d` belong to the probe attempt that mapped them: the driver core unmaps
them when it fails.  The pointers are file-static and stay, `g3d_con0` doubles as the test
"already mapped", and the probe is deferred by design while the PMIC firmware does not answer.

* `unmapped_access`: the first attempt maps the windows and is deferred after 25 refused BUCK6
  writes; the second finds `g3d_con0` set, gets its write through and reads PLL_CON0 through a
  window that is gone.
* `accesses_mapped`: in a run in which `s9p_g3d_apply` is never entered, the domain on, with a
  `g3d_con0` left behind by a failed attempt, every access of the driver goes through a
  mapped window.
-/
import S9p.G3d.Domain

namespace S9p.G3d

open Device

/-! ## 1. Accesses and windows

Windows are numbered as they are mapped.  Those of an attempt that failed are the ones below
`released`, and a pointer into them is what the code cannot tell from a good one. -/

/-- The register an operation accesses through a window of `s9p-g3d`. -/
def Op.touched : Op → Option Reg
  | .rd .g3d r => some r
  | .poll .g3d r _ _ => some r
  | .wr .g3d r _ => some r
  | _ => none

/-- The operation about to be performed does not access anything unmapped. -/
def AccessMapped (s : Gpu) (o : Option Op) : Prop :=
  ∀ r, o.bind Op.touched = some r → s.Mapped (s.vars.pointer r)

/-- All three windows are mapped. -/
def AllMapped (s : Gpu) : Prop :=
  s.Mapped s.vars.con0 ∧ s.Mapped s.vars.con2 ∧ s.Mapped s.vars.locktime

/-- The windows go together. -/
def Whole (s : Gpu) : Prop :=
  s.released ≤ s.windows ∧ (s.Mapped s.vars.con0 → AllMapped s)

/-- `s9p_g3d_apply` is not entered, the domain on, with a pointer to a window that is gone.  It is
looked at once, on the way in, and not at the accesses themselves. -/
def notLeftBehind (_ : Call) (s : Gpu) : (o : Op) → Luck → Bool
  | .mark .apply, _ => !s.vars.domainPowered || decide (s.Mapped s.vars.con0)
  | _, _ => true

theorem AllMapped.access {s : Gpu} {o : Op} (h : AllMapped s) (ho : PllOp o) :
    AccessMapped s (some o) := by
  have hclock : ∀ r : Reg, r.Clock → s.Mapped (s.vars.pointer r) := by
    intro r hr
    cases r with
    | con0 => exact h.1
    | con2 => exact h.2.1
    | locktime => exact h.2.2
    | _ => exact hr.elim
  intro r hr
  match o, ho, hr with
  | .rd .g3d r', ho, hr => exact Option.some.inj hr ▸ hclock r' ho
  | .poll .g3d r' _ _, ho, hr => exact Option.some.inj hr ▸ hclock r' ho
  | .wr .g3d r' _, ho, hr => exact Option.some.inj hr ▸ hclock r' ho

theorem access_of_untouched {s : Gpu} {o : Op} (h : o.touched = none) :
    AccessMapped s (some o) := by
  intro r hr
  rw [Option.bind_some, h] at hr
  exact absurd hr (by simp)

theorem access_none {s : Gpu} : AccessMapped s none := fun r hr => absurd hr (by simp)

/-- The operations that neither map nor unmap nor move a pointer. -/
def KeepsWindows : Op → Prop
  | .ioremap => False
  | .probeDone _ => False
  | .assign (.con0 _) => False
  | .assign (.con2 _) => False
  | .assign (.locktime _) => False
  | _ => True

/-- They keep what is mapped. -/
theorem keepsWindows {o : Op} {l : Luck} {s t : Gpu} {r : Ans o} (ho : KeepsWindows o)
    (h : act o l s = some (r, t)) : t.windows = s.windows ∧ t.released = s.released ∧
      t.vars.con0 = s.vars.con0 ∧ t.vars.con2 = s.vars.con2 ∧
      t.vars.locktime = s.vars.locktime := by
  have hc := act_changes h
  rw [hc.vars, hc.windows, hc.released]
  cases o with
  | ioremap => exact ho.elim
  | probeDone => exact ho.elim
  | assign x =>
    cases x with
    | con0 => exact ho.elim
    | con2 => exact ho.elim
    | locktime => exact ho.elim
    | _ => exact ⟨rfl, rfl, rfl, rfl, rfl⟩
  | _ => exact ⟨rfl, rfl, rfl, rfl, rfl⟩

/-- So they keep the windows together. -/
theorem keeps_allMapped {o : Op} {l : Luck} {s t : Gpu} {r : Ans o} (ho : KeepsWindows o)
    (h : act o l s = some (r, t)) : (AllMapped t ↔ AllMapped s) ∧ (Whole t ↔ Whole s) := by
  obtain ⟨h1, h2, h3, h4, h5⟩ := keepsWindows ho h
  simp only [Whole, AllMapped, Gpu.Mapped, h1, h2, h3, h4, h5, and_self]

theorem stable_whole : block.Stable Whole := stable_still (fun s => Whole s)

theorem stable_allMapped : block.Stable AllMapped := stable_still (fun s => AllMapped s)

/-! ## 2. `s9p_g3d_apply`

Nothing in it maps or unmaps, so it keeps what it finds; that all its accesses arrive is a matter of
the state it is entered in. -/

section Apply

variable {c : Call} {s : Gpu}

theorem pllOp_keepsWindows {o : Op} (ho : PllOp o) : KeepsWindows o := by
  match o, ho with
  | .get, _ | .mark .setPll, _ | .assign (.curKhz _), _ | .rd .g3d _, _ | .poll .g3d _ _ _, _
  | .wr .g3d _ _, _ | .pmicWrite _ _, _ => trivial

/-- Where all windows are mapped, the PLL code touches nothing else and keeps them. -/
theorem wp_pll {α : Type} {p : P α} (hp : p.Uses PllOp) (hs : AllMapped s) :
    wp block (notLeftBehind c) AccessMapped p (fun _ t => AllMapped t) s :=
  wp_of_uses stable_allMapped
    (fun _ ho _ _ _ _ h _ hact => (keeps_allMapped (pllOp_keepsWindows ho) hact).1.mpr h)
    (fun _ _ ho h => h.access ho) (fun _ _ => access_none) hp hs

theorem AllMapped.whole (h : AllMapped s) : Whole s := by
  obtain ⟨n, -, hge, hlt⟩ := h.1
  exact ⟨hge.trans hlt.le, fun _ => h⟩

theorem wp_apply (hs : Whole s) :
    wp block (notLeftBehind c) AccessMapped apply (fun _ t => Whole t) s := by
  simp only [apply, mark, get, assign, Prog.perform_bind]
  refine wp_mark stable_whole hs (fun t _ => access_of_untouched rfl) (fun t l ht hok => ?_)
  have hentry : t.vars.domainPowered = true → AllMapped t := by
    intro hon
    simp only [notLeftBehind, hon, Bool.not_true, Bool.false_or, decide_eq_true_eq] at hok
    exact ht.2 hok
  have hstable := stable_whole.and
    (stable_still (fun t => t.vars.domainPowered = true → AllMapped t))
  refine wp_get hstable ⟨ht, hentry⟩ (fun t _ => access_of_untouched rfl) (fun t ht => ?_)
  split
  · exact wp_ret stable_whole ht.1 (fun _ _ => access_none) (fun _ h => h)
  · rename_i hon
    have hpowered : t.vars.domainPowered = true := by simpa using hon
    have hall : AllMapped t := ht.2 hpowered
    refine wp_bind (wp_mono (fun same u hu => ?_)
      (wp_pll ((uses_pllIs _).mono (fun _ => RegOp.pllOp)) hall))
    split
    · exact wp_mono (fun _ _ h => h.whole) (wp_pll ⟨trivial, fun _ => trivial⟩ hu)
    · exact wp_mono (fun _ _ h => h.whole) (wp_pll (uses_setPll _) hu)

/-- What is made of `s9p_g3d_apply` and operations elsewhere keeps the windows together. -/
theorem wp_outer {A : Op → Prop} (hA : ∀ o, A o → KeepsWindows o ∧ o.touched = none) {α : Type}
    {p : P α} (hp : Prog.Made A apply p) (hs : Whole s) :
    wp block (notLeftBehind c) AccessMapped p (fun _ t => Whole t) s :=
  wp_of_made stable_whole
    (fun o ho _ _ _ _ h _ hact => (keeps_allMapped (hA o ho).1 hact).2.mpr h)
    (fun o _ ho _ => access_of_untouched (hA o ho).2) (fun _ _ => access_none)
    (fun _ h => wp_apply h) hp hs

end Apply

/-! ## 3. A probe attempt

Where `g3d_con0` is null the attempt makes three mappings.  One that comes after an attempt that has
failed with its windows mapped finds `g3d_con0` set, and makes none. -/

section Probe

variable {c : Call} {s : Gpu}

/-- A pointer is null or good.  The null pointer counts as good, as the code tests for it. -/
def Good (s : Gpu) (w : Option Nat) : Prop := s.released ≤ s.windows ∧ (w = none ∨ s.Mapped w)

/-- A new mapping is good, and those there are stay so. -/
theorem good_ioremap {w : Option Nat} {l : Luck} {t : Gpu} (hrel : s.released ≤ s.windows)
    (h : act .ioremap l s = some (w, t)) :
    t.vars = s.vars ∧ Good t w ∧ ∀ w', Good s w' → Good t w' := by
  simp only [act] at h
  split at h
  · simp only [Option.some.injEq, Prod.mk.injEq] at h
    obtain ⟨rfl, rfl⟩ := h
    have hrel' : s.released ≤ s.windows + 1 := Nat.le_succ_of_le hrel
    refine ⟨rfl, ⟨hrel', .inr ⟨_, rfl, hrel, Nat.lt_succ_self _⟩⟩, ?_⟩
    rintro w' ⟨-, rfl | ⟨n, rfl, hge, hlt⟩⟩
    · exact ⟨hrel', .inl rfl⟩
    · exact ⟨hrel', .inr ⟨n, rfl, hge, Nat.lt_succ_of_lt hlt⟩⟩
  · simp only [Option.some.injEq, Prod.mk.injEq] at h
    obtain ⟨rfl, rfl⟩ := h
    exact ⟨rfl, ⟨hrel, .inl rfl⟩, fun _ hw => hw⟩

/-- The three mappings of an attempt are good; if none is missing, PLL_CON0 is read through
one of them. -/
theorem wp_mapWindows (hs : Whole s) :
    wp block (notLeftBehind c) AccessMapped mapWindows (fun ret t => ret = 0 → Whole t) s := by
  have hquiet : ∀ {o : Op}, o.touched = none → ∀ t : Gpu, AccessMapped t (some o) :=
    fun h _ => access_of_untouched h
  simp only [mapWindows, get, ioremap, assign, Prog.perform_bind]
  refine wp_get stable_whole hs (fun t _ => hquiet rfl t) (fun t ht => ?_)
  split
  · exact wp_ret stable_whole ht (fun _ _ => access_none) (fun _ h _ => h)
  · refine wp_op stable_whole ht (fun t _ => hquiet rfl t) ?_
    intro t1 l1 w1 u1 h0 _ hact1
    obtain ⟨-, h1, -⟩ := good_ioremap h0.1 hact1
    refine wp_assign (stable_still (fun t => Good t w1)) h1 (fun t _ => hquiet rfl t) ?_
    intro t2 h2
    refine wp_op (stable_still (fun t => Good t t.vars.con0)) h2 (fun t _ => hquiet rfl t) ?_
    intro t3 l3 w3 u3 (h3 : Good t3 t3.vars.con0) _ hact3
    obtain ⟨hv3, hw3, hk3⟩ := good_ioremap h3.1 hact3
    have h4 : Good u3 u3.vars.con0 := by
      rw [hv3]
      exact hk3 _ h3
    refine wp_assign (stable_still (fun t => Good t t.vars.con0 ∧ Good t w3)) ⟨h4, hw3⟩
      (fun t _ => hquiet rfl t) ?_
    intro t5 h5
    refine wp_op (stable_still (fun t => Good t t.vars.con0 ∧ Good t t.vars.con2)) h5
      (fun t _ => hquiet rfl t) ?_
    intro t6 l6 w6 u6 (h6 : Good t6 t6.vars.con0 ∧ Good t6 t6.vars.con2) _ hact6
    obtain ⟨hv6, hw6, hk6⟩ := good_ioremap h6.1.1 hact6
    have h7 : (Good u6 u6.vars.con0 ∧ Good u6 u6.vars.con2) ∧ Good u6 w6 := by
      rw [hv6]
      exact ⟨⟨hk6 _ h6.1, hk6 _ h6.2⟩, hw6⟩
    refine wp_assign (stable_still (fun t => (Good t t.vars.con0 ∧ Good t t.vars.con2) ∧ Good t w6))
      h7 (fun t _ => hquiet rfl t) ?_
    intro t8 h8
    refine wp_get (stable_still (fun t => (Good t t.vars.con0 ∧ Good t t.vars.con2) ∧
      Good t t.vars.locktime)) h8 (fun t _ => hquiet rfl t) ?_
    intro t9 h9
    split
    · exact wp_ret (stable_still (fun _ => True)) trivial (fun _ _ => access_none)
        (fun _ _ hret => absurd hret (by decide))
    · rename_i hmissing
      simp only [not_or, Option.isNone_iff_eq_none] at hmissing
      obtain ⟨h0, h2, hl⟩ := hmissing
      have hall : AllMapped t9 :=
        ⟨h9.1.1.2.resolve_left h0, h9.1.2.2.resolve_left h2, h9.2.2.resolve_left hl⟩
      have huses : (pllIs topStep >>= fun top => assign (.curKhz (if top then topStep.khz
          else lowStep.khz)) >>= fun _ => (pure 0 : P Int)).Uses PllOp :=
        Prog.uses_bind ((uses_pllIs _).mono (fun _ => RegOp.pllOp))
          (fun _ => ⟨trivial, fun _ => trivial⟩)
      refine wp_mono (fun ret t ht => ?_) (wp_pll huses hall)
      exact fun _ => ht.whole

theorem publishOp_keepsWindows {o : Op} (ho : PublishOp o) :
    KeepsWindows o ∧ o.touched = none := by
  match o, ho with
  | .get, _ | .mutexLock, _ | .mutexUnlock, _ | .assign (.attempts _), _ | .assign .railSet, _
  | .pmicWrite _ _, _ | .kernel _, _ => exact ⟨trivial, rfl⟩

/-- **A probe attempt** keeps the windows together: one that fails loses them all. -/
theorem wp_probeAttempt (hs : Whole s) :
    wp block (notLeftBehind c) AccessMapped probeAttempt (fun _ t => Whole t) s := by
  have hprobe : wp block (notLeftBehind c) AccessMapped probe
      (fun ret t => ret = 0 → Whole t) s := by
    refine wp_bind (wp_mono (fun ret t ht => ?_) (wp_mapWindows hs))
    split
    · rename_i hret
      exact wp_ret (stable_still (fun _ => True)) trivial (fun _ _ => access_none)
        (fun _ _ h => absurd h hret)
    · rename_i hret
      refine wp_mono (fun ret t ht => ?_)
        (wp_outer (fun _ => publishOp_keepsWindows) made_publish (ht (not_not.mp hret)))
      exact fun _ => ht
  simp only [probeAttempt, probeDone, Prog.perform_bind]
  refine wp_bind (wp_mono (fun ret t ht => ?_) hprobe)
  refine wp_op_eq (fun _ _ => rfl) (stable_still (fun t => ret = 0 → Whole t)) ht
    (fun t _ => access_of_untouched rfl) ?_
  intro t1 _ (h1 : ret = 0 → Whole t1) _
  refine wp_ret stable_whole ?_ (fun _ _ => access_none) (fun _ h => h)
  by_cases hret : ret = 0
  · simp only [hret, decide_true, if_true]
    exact h1 hret
  · simp only [hret, decide_false]
    refine ⟨le_rfl, fun hmapped => ?_⟩
    obtain ⟨n, -, hge, hlt⟩ := hmapped
    exact absurd hlt (not_lt.mpr hge)

end Probe

/-! ## 4. Every run

The condition is about entering `s9p_g3d_apply`, which the probe reaches only once the rail is up.
The attempts before that one may fail as they like. -/

/-- **One call** keeps the windows together. -/
theorem wp_program {c : Call} {s : Gpu} (hs : Whole s) :
    wp block (notLeftBehind c) AccessMapped (program c) (fun _ t => Whole t) s := by
  have hvolt : ∀ o, VoltOp o → KeepsWindows o ∧ o.touched = none := by
    intro o ho
    match o, ho with
    | .get, _ | .mutexLock, _ | .mutexUnlock, _ | .assign (.stepVolt _), _ | .pmicWrite _ _, _
    | .pmicRead _, _ => exact ⟨trivial, rfl⟩
  have hrequest : ∀ o, RequestOp o → KeepsWindows o ∧ o.touched = none := by
    intro o ho
    match o, ho with
    | .get, _ | .mutexLock, _ | .mutexUnlock, _ | .assign (.reqKhz _), _
    | .assign (.maxKhz _), _ => exact ⟨trivial, rfl⟩
  have hcap : ∀ o, CapOp o → KeepsWindows o ∧ o.touched = none := by
    rintro o (ho | ⟨khz, rfl⟩)
    · exact hrequest o ho
    · exact ⟨trivial, rfl⟩
  have hpd : ∀ o, PdOp o → KeepsWindows o ∧ o.touched = none := by
    intro o ho
    match o, ho with
    | .get, _ | .rd .pd _, _ | .poll .pd _ _ _, _ | .wr .pd _ _, _ | .smc _, _ | .kernel _, _
    | .mutexLock, _ | .mutexUnlock, _ | .mark (.domainUnlock _), _ | .assign (.domainPowered _), _
    | .assign (.initialized _), _ | .assign (.lowPowerInitialized _), _ | .assign (.alwaysOn _), _
    | .genpd _, _ | .panic, _ => exact ⟨trivial, rfl⟩
  cases c with
  | probe => exact wp_probeAttempt hs
  | stepVoltSet val => exact wp_outer hvolt (uses_stepVoltSet val).made hs
  | railUvGet =>
    exact wp_outer hvolt (uses_railUvGet.made.bind (fun _ => .ret _)) hs
  | setKhz khz => exact wp_outer hcap (made_setKhz khz) hs
  | maxSet val => exact wp_outer hrequest (made_maxSet val) hs
  | clkSet rate => exact wp_outer hrequest (made_clkSet rate) hs
  | policyWork p =>
    exact wp_outer (fun _ h => h) (made_policyPoll hcap (fun _ => ⟨trivial, rfl⟩) p) hs
  | pdProbe => exact wp_outer hpd made_pdProbe hs
  | powerOn => exact wp_outer hpd made_genpdPowerOn hs
  | powerOff => exact wp_outer hpd made_genpdPowerOff hs
  | alwaysOnSet b =>
    exact wp_outer hpd (.op trivial (fun _ => .ret _)) hs

/-- **No access through a window that is gone.**  In every run in which `s9p_g3d_apply` is not
entered, the domain on, with a `g3d_con0` left behind by a failed attempt, every access
through a window of `s9p-g3d` finds it mapped. -/
theorem accesses_mapped {s s₀ : Gpu} {c : Call} {o : Op} {k : Ans o → P Int}
    (h : gpu.Reach notLeftBehind s (some ⟨c, s₀, .op o k⟩)) :
    ∀ r, o.touched = some r → s.Mapped (s.vars.pointer r) := by
  have hboot : ∀ s, gpu.init s → Whole s := by
    intro s hs
    obtain ⟨h0, -, -⟩ := hs.pointers
    obtain ⟨hw, hr⟩ := hs.windows
    refine ⟨by omega, fun hmapped => ?_⟩
    obtain ⟨n, hn, -⟩ := hmapped
    exact absurd (h0.symm.trans hn) (by simp)
  have hall := System.reach_holds (S := fun _ _ => AccessMapped) hboot stable_whole
    (fun c s hs _ => wp_program hs) (fun _ _ _ _ h => h) h
  exact hall.at_op

/-- A probe, and a thermal cap of 455 MHz up to its first read of PLL_CON0. -/
def probedAndCapped : List Ev :=
  callWith .probe (List.replicate 21 prompt) ++
    .start (.setKhz 455000) :: List.replicate 5 (.op prompt)

/-- Some operation accesses a register of `s9p-g3d`, through a window that is mapped or not. -/
def accesses (mapped : Bool) (x : Gpu × Option (Thread Op Ans Gpu Call Int)) : Bool :=
  match x.2 with
  | some ⟨_, _, .op o _⟩ =>
      o.touched.any (fun r => decide (x.1.Mapped (x.1.vars.pointer r)) == mapped)
  | _ => false

theorem accesses_spec {mapped : Bool} {s : Gpu} {p : Option (Thread Op Ans Gpu Call Int)}
    (h : accesses mapped (s, p) = true) : ∃ c s₀ o k r, p = some ⟨c, s₀, .op o k⟩ ∧
      o.touched = some r ∧ decide (s.Mapped (s.vars.pointer r)) = mapped := by
  match p, h with
  | some ⟨c, s₀, .op o k⟩, h =>
    simp only [accesses] at h
    cases ho : o.touched with
    | none => simp [ho] at h
    | some r => exact ⟨c, s₀, o, k, r, rfl, ho, by simpa [ho] using h⟩

theorem accesses_mapped_capped : ∃ s c s₀ o k r,
    gpu.Reach notLeftBehind s (some ⟨c, s₀, .op o k⟩) ∧ o.touched = some r ∧
      s.Mapped (s.vars.pointer r) := by
  have hrun : (gpu.exec notLeftBehind probedAndCapped (found true, none)).any (accesses true) =
      true := by decide +kernel
  obtain ⟨s, p, hr, hp⟩ := System.reach_of_exec (Y := gpu) (boot_found true) probedAndCapped _ hrun
  obtain ⟨c, s₀, o, k, r, rfl, ho, -⟩ := accesses_spec hp
  exact ⟨s, c, s₀, o, k, r, hr, ho, accesses_mapped hr r ho⟩

/-- A deferred probe, and a second one up to its first read of PLL_CON0. -/
def probedTwice : List Ev :=
  callWith .probe (List.replicate 10 prompt ++ List.replicate 25 silent ++
    List.replicate 3 prompt) ++
    .start .probe :: List.replicate 6 (.op prompt)

/-- **An access through a window that is gone.** -/
theorem unmapped_access : ¬ ∀ (s s₀ : Gpu) (c : Call) (o : Op) (k : Ans o → P Int),
    gpu.Reach System.anyStep s (some ⟨c, s₀, .op o k⟩) →
      ∀ r, o.touched = some r → s.Mapped (s.vars.pointer r) := by
  intro h
  have hrun : (gpu.exec System.anyStep probedTwice (found true, none)).any (accesses false) =
      true := by decide +kernel
  obtain ⟨s, p, hr, hp⟩ := System.reach_of_exec (Y := gpu) (boot_found true) probedTwice _ hrun
  obtain ⟨c, s₀, o, k, r, rfl, ho, hm⟩ := accesses_spec hp
  exact absurd (h s s₀ c o k hr r ho) (by simpa using hm)

end S9p.G3d
