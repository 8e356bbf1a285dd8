/-
# The power gate of the G3D block

An access to the GPU while its domain is not fully powered, or while its TrustZone protection
is saved and not restored, is an SError.  The two drivers share the flag `g3d_domain_powered`
to rule that out; its initial value says that the domain is on.

* `off_at_boot`: with the domain found off, the probe of `s9p-g3d` reprograms the PLL of an
  unpowered block.
* `gate_iff`: the flag tells the truth whenever the lock is free, `s9p_g3d_set_pll` runs only
  with the domain powered, and a power-off that fails leaves the domain as it was, in all runs
  exactly when the domain is found on.
-/
import S9p.G3d.Domain

namespace S9p.G3d

open Device

/-! ## 1. The gate

`Passes` is about the middle of a call and `Ends` about its end.  The state at entry is part of
both, because a failed power-off has to leave what it found. -/

/-- The domain is fully powered. -/
def Powered (s : Gpu) : Prop := s.regs .status &&& G3D_LOCAL_PWR_CFG = G3D_LOCAL_PWR_CFG

/-- Both source selections are as they were. -/
def SameMux (s t : Gpu) : Prop :=
  t.regs .con0 &&& PLL_CON0_MUX_SEL = s.regs .con0 &&& PLL_CON0_MUX_SEL ∧
    t.regs .user &&& PLL_CON0_MUX_SEL = s.regs .user &&& PLL_CON0_MUX_SEL

/-- What holds of the state `t`, the operation `o` of the call `c` coming next.  The call was
entered in `s₀`.  The first field is about any moment at which another call may take the lock. -/
structure Passes (c : Call) (s₀ t : Gpu) (o : Option Op) : Prop where
  flag : t.locked = false → t.vars.domainPowered = true → Powered t ∧ t.tzSaved = false
  setPll : o = some (.mark .setPll) → Powered t
  restored : c = .powerOff → o = some (.mark (.domainUnlock true)) →
    Powered t ∧ t.tzSaved = false ∧ SameMux s₀ t

/-- What holds of the state `t` once the call `c` has returned `ret`. -/
def Ends (c : Call) (s₀ : Gpu) (ret : Int) (t : Gpu) : Prop :=
  c = .powerOff → ret ≠ 0 →
    Powered t ∧ t.tzSaved = false ∧ (ret = -EBUSY → SameMux s₀ t)

/-- **The gate**, of a configuration. -/
def Gate (s : Gpu) : Option (Thread Op Ans Gpu Call Int) → Prop
  | none => s.locked = false → s.vars.domainPowered = true → Powered s ∧ s.tzSaved = false
  | some ⟨c, s₀, .op o _⟩ => Passes c s₀ s (some o)
  | some ⟨c, s₀, .ret ret⟩ => Passes c s₀ s none ∧ Ends c s₀ ret s

/-- The system from one boot state. -/
def gpuFrom (s₀ : Gpu) : System Op Ans Gpu Env Luck Call Int := { gpu with init := (· = s₀) }

/-! ## 2. What keeps the domain on

The flag may be wrong only under the lock, and before the domain is registered.  `Sound` says what
it means in between, and leaves open what the core's view has to do with it. -/

/-- The domain is on and stays so, and its protection is in place. -/
def On (s : Gpu) : Prop := Powered s ∧ s.Settled ∧ s.tzSaved = false

/-- The flag, the core's view of the domain and whether there is a protection to restore.  `R` is
left open, because the three differ before the probe, between calls and in the middle of a
switch. -/
def Sound (R : Bool → Option Bool → Prop) (s : Gpu) : Prop :=
  (s.vars.domainPowered = true → On s) ∧ R s.vars.domainPowered s.genpd ∧
    (s.tzSaved = true → s.vars.smc = true)

theorem stable_on : block.Stable On := by
  intro e s t h hs
  have hregs : t.regs = s.regs := drift_regs h hs.2.1
  have htz := stable_still (fun s => s.tzSaved = false) e s t h hs.2.2
  refine ⟨?_, ?_, htz⟩
  · unfold Powered
    rw [hregs]
    exact hs.1
  · unfold Gpu.Settled
    rw [hregs]
    exact hs.2.1

theorem stable_sound (R : Bool → Option Bool → Prop) : block.Stable (Sound R) := by
  intro e s t h hs
  have hrest := stable_still (fun s => R s.vars.domainPowered s.genpd ∧
    (s.tzSaved = true → s.vars.smc = true)) e s t h hs.2
  refine ⟨fun hon => stable_on e s t h (hs.1 ?_), hrest⟩
  rw [← drift_vars h]
  exact hon

/-- The operations that leave the domain, its flag and its core alone. -/
def KeepsDomain : Op → Prop
  | .wr _ r _ => r ≠ .configuration ∧ r ≠ .status
  | .smc _ => False
  | .assign (.domainPowered _) => False
  | .genpd _ => False
  | _ => True

theorem keepsDomain {o : Op} {l : Luck} {s t : Gpu} {r : Ans o} (ho : KeepsDomain o)
    (h : act o l s = some (r, t)) : t.regs .status = s.regs .status ∧
      t.regs .configuration = s.regs .configuration ∧ t.tzSaved = s.tzSaved ∧
      t.vars.domainPowered = s.vars.domainPowered ∧ t.vars.smc = s.vars.smc ∧
      t.genpd = s.genpd := by
  have hc := act_changes h
  rw [hc.vars, hc.regs, hc.tzSaved, hc.genpd]
  cases o with
  | wr w r v =>
    exact ⟨Function.update_of_ne ho.2.symm _ _, Function.update_of_ne ho.1.symm _ _, rfl, rfl, rfl,
      rfl⟩
  | smc cmd => exact ho.elim
  | genpd on => exact ho.elim
  | assign x =>
    cases x with
    | domainPowered b => exact ho.elim
    | _ => exact ⟨rfl, rfl, rfl, rfl, rfl, rfl⟩
  | _ => exact ⟨rfl, rfl, rfl, rfl, rfl, rfl⟩

theorem keeps_sound {R : Bool → Option Bool → Prop} {o : Op} {l : Luck} {s t : Gpu} {r : Ans o}
    (ho : KeepsDomain o) (h : act o l s = some (r, t)) :
    (On t ↔ On s) ∧ (Sound R t ↔ Sound R s) := by
  obtain ⟨h1, h2, h3, h4, h5, h6⟩ := keepsDomain ho h
  simp only [Sound, On, Powered, Gpu.Settled, h1, h2, h3, h4, h5, h6, and_self]

/-! ## 3. `s9p_g3d_apply`

It looks at the flag and at nothing else, so with a sound flag it touches the PLL of a powered
domain. -/

section Apply

variable {c : Call} {s₀ s : Gpu} {R : Bool → Option Bool → Prop}
  {ok : Gpu → (o : Op) → Luck → Bool}

/-- Operations that no property speaks about. -/
def Plain (o : Op) : Prop := o ≠ .mark .setPll ∧ o ≠ .mark (.domainUnlock true)

theorem Sound.passes (h : Sound R s) {o : Op} (ho : Plain o) : Passes c s₀ s (some o) where
  flag := fun _ hon => ⟨(h.1 hon).1, (h.1 hon).2.2⟩
  setPll := fun hset => absurd (Option.some.inj hset) ho.1
  restored := fun _ hun => absurd (Option.some.inj hun) ho.2

theorem Sound.passes_none (h : Sound R s) : Passes c s₀ s none where
  flag := fun _ hon => ⟨(h.1 hon).1, (h.1 hon).2.2⟩
  setPll := fun hset => absurd hset (by simp)
  restored := fun _ hun => absurd hun (by simp)

theorem pllOp_keepsDomain {o : Op} (ho : PllOp o) :
    KeepsDomain o ∧ o ≠ .mark (.domainUnlock true) := by
  match o, ho with
  | .get, _ | .mark .setPll, _ | .assign (.curKhz _), _ | .rd .g3d _, _
  | .poll .g3d _ _ _, _ => exact ⟨trivial, by simp⟩
  | .wr .g3d r _, ho =>
    refine ⟨⟨?_, ?_⟩, by simp⟩
    · rintro rfl
      exact ho
    · rintro rfl
      exact ho
  | .pmicWrite _ _, _ => exact ⟨trivial, by simp⟩

/-- The PLL code runs with the domain on and leaves it on. -/
theorem wp_pll_on {α : Type} {p : P α} (hp : p.Uses PllOp) (hs : Sound R s) (hon : On s) :
    wp block ok (Passes c s₀) p (fun _ t => Sound R t) s := by
  have hboth := (stable_sound R).and stable_on
  refine wp_mono (fun _ _ h => h.1) (wp_of_uses hboth ?_ ?_ ?_ hp ⟨hs, hon⟩)
  · intro o ho l s r t h _ hact
    have hk := keeps_sound (R := R) (pllOp_keepsDomain ho).1 hact
    exact ⟨hk.2.mpr h.1, hk.1.mpr h.2⟩
  · intro o t ho h
    exact ⟨fun _ _ => ⟨h.2.1, h.2.2.2⟩, fun _ => h.2.1,
      fun _ hun => absurd (Option.some.inj hun) (pllOp_keepsDomain ho).2⟩
  · exact fun t h => h.1.passes_none

/-- **`s9p_g3d_apply`** touches the PLL only under the flag. -/
theorem wp_apply_sound (hs : Sound R s) :
    wp block ok (Passes c s₀) apply (fun _ t => Sound R t) s := by
  simp only [apply, mark, get, assign, Prog.perform_bind]
  refine wp_mark (stable_sound R) hs (fun t ht => ht.passes ⟨by simp, by simp⟩) (fun t _ ht _ => ?_)
  refine wp_get (stable_sound R) ht (fun t ht => ht.passes ⟨by simp, by simp⟩) (fun t ht => ?_)
  split
  · exact wp_ret (stable_sound R) ht (fun _ h => h.passes_none) (fun _ h => h)
  · rename_i hon
    have hpowered : t.vars.domainPowered = true := by simpa using hon
    have huses : (pllIs (target t.vars) >>= fun same => if same = true then
        Prog.op (Op.assign (.curKhz (target t.vars).khz)) (fun _ => (pure 0 : P Int))
        else setPll (target t.vars)).Uses PllOp := by
      refine Prog.uses_bind ((uses_pllIs _).mono (fun _ => RegOp.pllOp)) (fun same => ?_)
      split
      · exact ⟨trivial, fun _ => trivial⟩
      · exact uses_setPll _
    exact wp_pll_on huses ht (ht.1 hpowered)

/-- What is made of `s9p_g3d_apply` and operations that leave the domain alone. -/
theorem wp_outer_sound {A : Op → Prop} (hA : ∀ o, A o → KeepsDomain o ∧ Plain o) {α : Type}
    {p : P α} (hp : Prog.Made A apply p) (hs : Sound R s) :
    wp block ok (Passes c s₀) p (fun _ t => Sound R t) s :=
  wp_of_made (stable_sound R)
    (fun o ho _ _ _ _ h _ hact => (keeps_sound (hA o ho).1 hact).2.mpr h)
    (fun o _ ho h => h.passes (hA o ho).2) (fun _ h => h.passes_none)
    (fun _ h => wp_apply_sound h) hp hs

end Apply

/-! ## 4. Giving the lock back

The flag is stored just before the lock is given back, and a request that was kept is applied in
between, with the new value. -/

section Unlock

variable {c : Call} {s₀ s : Gpu} {R : Bool → Option Bool → Prop}
  {ok : Gpu → (o : Op) → Luck → Bool}

/-- Under the lock only the deferred request and the point before it are spoken about. -/
theorem passes_locked {t : Gpu} {o : Op} (h : t.locked = true) (ho : Plain o) :
    Passes c s₀ t (some o) where
  flag := fun hfree => absurd (h.symm.trans hfree) (by simp)
  setPll := fun hset => absurd (Option.some.inj hset) ho.1
  restored := fun _ hun => absurd (Option.some.inj hun) ho.2

/-- The end of `s9p_g3d_domain_unlock`. -/
theorem wp_deferred (b : Prop) [Decidable b] (hs : Sound R s) :
    wp block ok (Passes c s₀) (get >>= fun k =>
      if b ∧ k.con0.isSome ∧ k.railSet then apply >>= fun _ => mutexUnlock else mutexUnlock)
      (fun _ t => Sound R t) s := by
  have hmade : Prog.Made (fun o => o = .get ∨ o = .mutexUnlock) apply (get >>= fun k =>
      if b ∧ k.con0.isSome ∧ k.railSet then apply >>= fun _ => mutexUnlock else mutexUnlock) := by
    simp only [get, mutexUnlock, Prog.perform_bind]
    refine .op (.inl rfl) (fun k => ?_)
    split
    · exact .call (fun _ => .op (.inr rfl) (fun _ => .ret _))
    · exact .op (.inr rfl) (fun _ => .ret _)
  refine wp_outer_sound ?_ hmade hs
  rintro o (rfl | rfl)
  · exact ⟨trivial, by simp, by simp⟩
  · exact ⟨trivial, by simp, by simp⟩

/-- The lock is given back with the domain on. -/
theorem wp_unlock_on (hlocked : s.locked = true) (hon : On s) (hR : R true s.genpd)
    (hmux : c = .powerOff → SameMux s₀ s) :
    wp block ok (Passes c s₀) (domainUnlock true) (fun _ t => Sound R t) s := by
  have hstable := stable_on.and (stable_still (fun t => t.locked = true ∧ R true t.genpd ∧
    (c = .powerOff → SameMux s₀ t)))
  simp only [domainUnlock, mark, assign, Prog.perform_bind]
  refine wp_mark hstable ⟨hon, hlocked, hR, hmux⟩ ?_ (fun t _ ht _ => ?_)
  · rintro t ⟨hont, hlockedt, -, hmuxt⟩
    exact ⟨fun hfree => absurd (hlockedt.symm.trans hfree) (by simp), fun h => absurd h (by simp),
      fun hc _ => ⟨hont.1, hont.2.2, hmuxt hc⟩⟩
  · refine wp_assign hstable ht (fun t ht => passes_locked ht.2.1 ⟨by simp, by simp⟩) ?_
    rintro t ⟨hont, -, hRt, -⟩
    have hsound : Sound R { t with vars := t.vars.assign (.domainPowered true) } :=
      ⟨fun _ => hont, hRt, fun htz => absurd (hont.2.2.symm.trans htz) (by simp)⟩
    exact wp_deferred True hsound

/-- The lock is given back with the domain not on, as far as the drivers know. -/
theorem wp_unlock_off (hlocked : s.locked = true) (hR : R false s.genpd)
    (htz : s.tzSaved = true → s.vars.smc = true) :
    wp block ok (Passes c s₀) (domainUnlock false) (fun _ t => Sound R t) s := by
  have hstable := stable_still (fun t => t.locked = true ∧ R false t.genpd ∧
    (t.tzSaved = true → t.vars.smc = true))
  simp only [domainUnlock, mark, assign, Prog.perform_bind]
  refine wp_mark hstable ⟨hlocked, hR, htz⟩ (fun t ht => passes_locked ht.1 ⟨by simp, by simp⟩)
    (fun t _ ht _ => ?_)
  refine wp_assign hstable ht (fun t ht => passes_locked ht.1 ⟨by simp, by simp⟩) ?_
  rintro t ⟨-, hRt, htzt⟩
  have hsound : Sound R { t with vars := t.vars.assign (.domainPowered false) } :=
    ⟨fun hon => absurd hon (by simp [Statics.assign]), hRt, htzt⟩
  exact wp_deferred _ hsound

end Unlock

/-! ## 5. Power-off

This is the long one.  Up to the power cut nothing has been given up that a write could not bring
back; afterwards either the domain is on again or the kernel has stopped. -/

section PowerOff

variable {s₀ s : Gpu} {ok : Gpu → (o : Op) → Luck → Bool}

/-- The domain as its core sees it between calls: unless it has been switched off, the flag
is up. -/
def Switched (flag : Bool) (on : Option Bool) : Prop := on ≠ some false → flag = true

/-- The core still has the domain on, and the flag is up or down. -/
def Still (flag : Bool) (f : Bool) (on : Option Bool) : Prop := f = flag ∧ on = some true

/-- A power-off under the lock: both source selections are as they were.  Its mux is where it was,
since a power-off that fails has to leave it there. -/
structure Holding (s₀ t : Gpu) : Prop where
  locked : t.locked = true
  genpd : t.genpd = some true
  mux : SameMux s₀ t
  tz : t.tzSaved = true → t.vars.smc = true

theorem stable_holding : block.Stable (Holding s₀) :=
  fun e s t h hs =>
    have hkeep := stable_still (fun t => t.locked = true ∧ t.genpd = some true ∧ SameMux s₀ t ∧
      (t.tzSaved = true → t.vars.smc = true)) e s t h ⟨hs.1, hs.2, hs.3, hs.4⟩
    ⟨hkeep.1, hkeep.2.1, hkeep.2.2.1, hkeep.2.2.2⟩

theorem Holding.passes {t : Gpu} (h : Holding s₀ t) {o : Op} (ho : Plain o) :
    Passes .powerOff s₀ t (some o) := passes_locked h.locked ho

theorem Holding.passes_none {t : Gpu} (h : Holding s₀ t) : Passes .powerOff s₀ t none where
  flag := fun hfree => absurd (h.locked.symm.trans hfree) (by simp)
  setPll := fun hset => absurd hset (by simp)
  restored := fun _ hun => absurd hun (by simp)

/-- A write to another register leaves the source selections. -/
theorem Holding.write {t : Gpu} (h : Holding s₀ t) {r : Reg} {v : Word} (hcon0 : r ≠ .con0)
    (huser : r ≠ .user) : Holding s₀ { t with regs := Function.update t.regs r v } := by
  refine ⟨h.locked, h.genpd, ⟨?_, ?_⟩, h.tz⟩
  · show Function.update t.regs r v .con0 &&& _ = _
    rw [Function.update_of_ne hcon0.symm]
    exact h.mux.1
  · show Function.update t.regs r v .user &&& _ = _
    rw [Function.update_of_ne huser.symm]
    exact h.mux.2

theorem on_of_read {t : Gpu} {v : Word} {l : Luck}
    (hcfg : t.regs .configuration = G3D_LOCAL_PWR_CFG)
    (hv : t.shows l .status = some v) (hfull : v &&& G3D_LOCAL_PWR_CFG = G3D_LOCAL_PWR_CFG) :
    Powered t ∧ t.Settled := by
  have hstatus : t.regs .status = v := Option.some.inj hv
  constructor
  · unfold Powered
    rw [hstatus]
    exact hfull
  · unfold Gpu.Settled
    rw [hstatus, hcfg, hfull]
    decide

theorem stable_settled : block.Stable (fun t => Powered t ∧ t.Settled) := by
  intro e s t h hs
  have hregs : t.regs = s.regs := drift_regs h hs.2
  unfold Powered Gpu.Settled
  rw [hregs]
  exact hs

/-- **The restore** of the protection, in a domain that is on. -/
theorem wp_tzRestore {c : Call} {K : Gpu → Prop} (hK : block.Stable K)
    (hlocked : ∀ t, K t → t.locked = true)
    (htz : ∀ t, K t → t.tzSaved = true → t.vars.smc = true)
    (hsmc : ∀ t, K t → K { t with tzSaved := false })
    (hs : K s) (hon : Powered s ∧ s.Settled) :
    wp block ok (Passes c s₀) tzRestore (fun ret t => K t ∧ (ret = 0 → On t)) s := by
  have hboth := hK.and stable_settled
  have hnone : ∀ t, K t → Passes c s₀ t none := fun t ht =>
    ⟨fun hfree => absurd ((hlocked t ht).symm.trans hfree) (by simp), fun h => absurd h (by simp),
      fun _ h => absurd h (by simp)⟩
  simp only [tzRestore, get, smc, Prog.perform_bind]
  refine wp_get hboth ⟨hs, hon⟩ (fun t ht => passes_locked (hlocked t ht.1) ⟨by simp, by simp⟩)
    (fun t ht => ?_)
  split
  · refine wp_smc hboth ht (fun t ht => passes_locked (hlocked t ht.1) ⟨by simp, by simp⟩)
      (fun t a0 ht => ?_)
    by_cases ha0 : a0 = 0
    · have hback : K { t with tzSaved := false } ∧ On { t with tzSaved := false } :=
        ⟨hsmc t ht.1, ht.2.1, ht.2.2, rfl⟩
      simp only [ha0, if_true, ne_eq, not_true, if_false]
      exact wp_ret (hK.and stable_on) hback (fun t ht => hnone t ht.1)
        (fun t ht => ⟨ht.1, fun _ => ht.2⟩)
    · simp only [ne_eq, ha0, not_false_eq_true, if_true, if_false]
      exact wp_ret hK ht.1 hnone (fun t ht => ⟨ht, fun h => absurd h (by decide)⟩)
  · rename_i hno
    have hplain : On t := ⟨ht.2.1, ht.2.2, by
      by_contra htz'
      exact hno (htz t ht.1 (by simpa using htz'))⟩
    exact wp_ret (hK.and stable_on) ⟨ht.1, hplain⟩ (fun t ht => hnone t ht.1)
      (fun t ht => ⟨ht.1, fun _ => ht.2⟩)

/-- **The undoing of a power-down**: the domain is on again, or the kernel stops. -/
theorem wp_powerOffUndo (hs : Holding s₀ s) :
    wp block ok (Passes .powerOff s₀) powerOffUndo (fun _ t => Sound (Still true) t) s := by
  have hpass : ∀ {o : Op}, Plain o → ∀ t, Holding s₀ t → Passes .powerOff s₀ t (some o) :=
    fun ho t ht => ht.passes ho
  simp only [powerOffUndo, wr, poll, assign, panic, Prog.perform_bind]
  refine wp_wr stable_holding hs (hpass ⟨by simp, by simp⟩) (fun t ht => ?_)
  have hcfg : Function.update t.regs .configuration G3D_LOCAL_PWR_CFG .configuration =
      G3D_LOCAL_PWR_CFG := Function.update_self ..
  have hboth : block.Stable (fun t => Holding s₀ t ∧ t.regs .configuration = G3D_LOCAL_PWR_CFG) :=
    stable_holding.and (stable_still (fun t => t.regs .configuration = G3D_LOCAL_PWR_CFG))
  refine wp_poll hboth ⟨ht.write (by simp) (by simp), hcfg⟩
    (fun t ht => ht.1.passes ⟨by simp, by simp⟩) (fun t l v ht _ hv => ?_)
  have hpower : wp block ok (Passes .powerOff s₀)
      (if v &&& G3D_LOCAL_PWR_CFG ≠ G3D_LOCAL_PWR_CFG then pure (-ETIMEDOUT) else tzRestore)
      (fun ret u => Holding s₀ u ∧ (ret = 0 → On u)) t := by
    split
    · exact wp_ret stable_holding ht.1 (fun t ht => ht.passes_none)
        (fun t ht => ⟨ht, fun h => absurd h (by decide)⟩)
    · rename_i hfull
      exact wp_tzRestore stable_holding (fun t ht => ht.locked) (fun t ht => ht.tz)
        (fun t ht => ⟨ht.locked, ht.genpd, ht.mux, fun h => absurd h (by simp)⟩) ht.1
        (on_of_read ht.2 hv (not_not.mp hfull))
  refine wp_bind (wp_mono (fun ret u hu => ?_) hpower)
  have hstable : block.Stable (fun t => Holding s₀ t ∧ (ret = 0 → On t)) :=
    stable_holding.and stable_on.imp
  refine wp_assign hstable hu (fun t ht => ht.1.passes ⟨by simp, by simp⟩) (fun t ht => ?_)
  obtain ⟨hhold, hon⟩ := ht
  split
  · refine wp_bind (wp_mono (fun _ u hu => ?_)
      (wp_unlock_off (R := Still false) hhold.locked ⟨rfl, hhold.genpd⟩ hhold.tz))
    exact wp_panic (stable_sound _) hu (fun t ht => ht.passes ⟨by simp, by simp⟩)
  · rename_i hret
    exact wp_unlock_on (R := Still true) hhold.locked (hon (not_not.mp hret)) ⟨rfl, hhold.genpd⟩
      (fun _ => hhold.mux)

theorem lpm_keeps {o : Op} {l : Luck} {t u : Gpu} {r : Ans o} (ho : LpmOp o)
    (h : act o l t = some (r, u)) (ht : Holding s₀ t ∧ On t) : Holding s₀ u ∧ On u := by
  have hc := act_changes h
  have hkeeps : KeepsDomain o := by
    match o, ho with
    | .get, _ => trivial
    | .rd .pd (.pmuGlobal _), _ => trivial
    | .wr .pd (.pmuGlobal _) _, _ => exact ⟨by simp, by simp⟩
    | .assign (.lowPowerInitialized _), _ => trivial
  obtain ⟨-, -, htz, -, hsmc, hgenpd⟩ := keepsDomain hkeeps h
  have hmux : SameMux s₀ u ∧ u.locked = t.locked := by
    rw [SameMux, hc.regs, hc.locked]
    match o, ho with
    | .get, _ => exact ⟨ht.1.mux, rfl⟩
    | .rd .pd (.pmuGlobal _), _ => exact ⟨ht.1.mux, rfl⟩
    | .wr .pd (.pmuGlobal off) v, _ =>
      exact ⟨(ht.1.write (r := .pmuGlobal off) (v := v) (by simp) (by simp)).mux, rfl⟩
    | .assign (.lowPowerInitialized _), _ => exact ⟨ht.1.mux, rfl⟩
  refine ⟨⟨hmux.2.trans ht.1.locked, hgenpd.trans ht.1.genpd, hmux.1, ?_⟩,
    (keeps_sound (R := fun _ _ => True) hkeeps h).1.mpr ht.2⟩
  rw [htz, hsmc]
  exact ht.1.tz

theorem wp_lowPowerInit (hs : Holding s₀ s ∧ On s) :
    wp block ok (Passes .powerOff s₀) lowPowerInit (fun _ t => Holding s₀ t ∧ On t) s := by
  have hplain : ∀ o, LpmOp o → Plain o := by
    intro o ho
    match o, ho with
    | .get, _ | .rd .pd (.pmuGlobal _), _ | .wr .pd (.pmuGlobal _) _, _
    | .assign (.lowPowerInitialized _), _ => exact ⟨by simp, by simp⟩
  exact wp_of_uses (stable_holding.and stable_on)
    (fun o ho _ _ _ _ ht _ hact => lpm_keeps ho hact ht)
    (fun o t ho ht => ht.1.passes (hplain o ho)) (fun t ht => ht.1.passes_none)
    uses_lowPowerInit hs

/-- A save that fails changes nothing. -/
theorem wp_tzSave (hs : Holding s₀ s ∧ On s) :
    wp block ok (Passes .powerOff s₀) tzSave
      (fun a0 t => Holding s₀ t ∧ (a0 ≠ 0 → On t)) s := by
  have hboth : block.Stable (fun t => Holding s₀ t ∧ On t) := stable_holding.and stable_on
  simp only [tzSave, get, smc, Prog.perform_bind]
  refine wp_get hboth hs (fun t ht => ht.1.passes ⟨by simp, by simp⟩) (fun t ht => ?_)
  split
  · rename_i hsmc
    have hsmcs : block.Stable (fun t => (Holding s₀ t ∧ On t) ∧ t.vars.smc = true) :=
      hboth.and (stable_still (fun t => t.vars.smc = true))
    refine wp_smc hsmcs ⟨ht, hsmc⟩ (fun t ht => ht.1.1.passes ⟨by simp, by simp⟩)
      (fun t a0 ht => ?_)
    by_cases ha0 : a0 = 0
    · have hsaved : Holding s₀ { t with tzSaved := tzAfter EXYNOS_GET_IN_PD_DOWN t.tzSaved } :=
        ⟨ht.1.1.locked, ht.1.1.genpd, ht.1.1.mux, fun _ => ht.2⟩
      rw [if_pos ha0]
      exact wp_ret stable_holding hsaved (fun t ht => ht.passes_none)
        (fun t ht => ⟨ht, fun h => absurd ha0 h⟩)
    · rw [if_neg ha0]
      exact wp_ret hboth ht.1 (fun t ht => ht.1.passes_none) (fun t ht => ⟨ht.1, fun _ => ht.2⟩)
  · exact wp_ret hboth ht (fun t ht => ht.1.passes_none) (fun t ht => ⟨ht.1, fun _ => ht.2⟩)

/-- What a power-off leaves behind. -/
def OffEnd (s₀ : Gpu) (ret : Int) (t : Gpu) : Prop :=
  Sound (Still (decide (ret ≠ 0))) t ∧ (ret = -EBUSY → SameMux s₀ t)

theorem wp_powerCut (hs : Holding s₀ s) :
    wp block ok (Passes .powerOff s₀) powerCut (OffEnd s₀) s := by
  simp only [powerCut, rmw, rd, wr, poll, Prog.perform_bind, Prog.op_bind]
  refine wp_wr stable_holding hs (fun t ht => ht.passes ⟨by simp, by simp⟩) (fun t ht => ?_)
  refine wp_poll stable_holding (ht.write (by simp) (by simp))
    (fun t ht => ht.passes ⟨by simp, by simp⟩) (fun t l v ht _ hv => ?_)
  split
  · refine wp_bind (wp_mono (fun _ u hu => ?_) (wp_powerOffUndo ht))
    exact wp_ret (stable_sound _) hu (fun t ht => ht.passes_none)
      (fun t ht => ⟨ht, fun h => absurd h (by decide)⟩)
  · -- from here on the source selections change
    have hrest : block.Stable (fun t => t.locked = true ∧ t.genpd = some true ∧
        (t.tzSaved = true → t.vars.smc = true)) :=
      stable_still (fun t => t.locked = true ∧ t.genpd = some true ∧
        (t.tzSaved = true → t.vars.smc = true))
    have hpass : ∀ {o : Op}, Plain o → ∀ t : Gpu, (t.locked = true ∧ t.genpd = some true ∧
        (t.tzSaved = true → t.vars.smc = true)) → Passes .powerOff s₀ t (some o) :=
      fun ho t ht => passes_locked ht.1 ho
    refine wp_rd hrest ⟨ht.locked, ht.genpd, ht.tz⟩ (hpass ⟨by simp, by simp⟩)
      (fun t _ v ht _ => ?_)
    refine wp_wr hrest ht (hpass ⟨by simp, by simp⟩) (fun t ht => ?_)
    refine wp_rd hrest ht (hpass ⟨by simp, by simp⟩) (fun t _ v ht _ => ?_)
    refine wp_wr hrest ht (hpass ⟨by simp, by simp⟩) (fun t ht => ?_)
    refine wp_wr hrest ht (hpass ⟨by simp, by simp⟩) (fun t ht => ?_)
    refine wp_bind (wp_mono (fun _ u hu => ?_)
      (wp_unlock_off (R := Still false) ht.1 ⟨rfl, ht.2.1⟩ ht.2.2))
    exact wp_ret (stable_sound _) hu (fun t ht => ht.passes_none)
      (fun t ht => ⟨ht, fun h => absurd h (by decide)⟩)

/-- **A power-off** that fails leaves the domain on, and one that succeeds takes the flag
down. -/
theorem wp_powerOff (hs : Sound (Still true) s) :
    wp block ok (Passes .powerOff s) powerOff (OffEnd s) s := by
  have hentry : block.Stable (fun t => Sound (Still true) t ∧ SameMux s t) :=
    (stable_sound _).and (stable_still (SameMux s))
  simp only [powerOff, get, domainLock, mutexLock, Prog.perform_bind]
  refine wp_get hentry ⟨hs, rfl, rfl⟩ (fun t ht => ht.1.passes ⟨by simp, by simp⟩) (fun t ht => ?_)
  split
  · exact wp_ret hentry ht (fun t ht => ht.1.passes_none) (fun t ht => ⟨ht.1, fun _ => ht.2⟩)
  refine wp_lock hentry ht (fun t ht => ht.1.passes ⟨by simp, by simp⟩) (fun t ht => ?_)
  obtain ⟨⟨hflag, ⟨hup, hgenpd⟩, htz⟩, hmux⟩ := ht
  have hhold : Holding s { t with locked := true } ∧ On { t with locked := true } :=
    ⟨⟨rfl, hgenpd, hmux, htz⟩, hflag hup⟩
  refine wp_bind (wp_mono (fun _ u hu => ?_) (wp_lowPowerInit hhold))
  refine wp_bind (wp_mono (fun a0 v hv => ?_) (wp_tzSave hu))
  split
  · rename_i ha0
    refine wp_bind (wp_mono (fun _ w hw => ?_) (wp_unlock_on (R := Still true) hv.1.locked
      (hv.2 ha0) ⟨rfl, hv.1.genpd⟩ (fun _ => hv.1.mux)))
    exact wp_ret (stable_sound _) hw (fun t ht => ht.passes_none)
      (fun t ht => ⟨ht, fun h => absurd h (by decide)⟩)
  · exact wp_powerCut hv.1

end PowerOff

/-! ## 6. Power-on

A power-on that fails leaves the flag down, and the protection still saved if it was. -/

section PowerOn

variable {s₀ s : Gpu} {ok : Gpu → (o : Op) → Luck → Bool} {g : Option Bool}

/-- A power-on under the lock. -/
def Waking (g : Option Bool) (t : Gpu) : Prop :=
  t.locked = true ∧ t.genpd = g ∧ (t.tzSaved = true → t.vars.smc = true)

theorem stable_waking : block.Stable (Waking g) := stable_still (Waking g)

theorem Waking.passes {c : Call} {t : Gpu} (h : Waking g t) {o : Op} (ho : Plain o) :
    Passes c s₀ t (some o) := passes_locked h.1 ho

theorem Waking.passes_none {c : Call} {t : Gpu} (h : Waking g t) : Passes c s₀ t none where
  flag := fun hfree => absurd (h.1.symm.trans hfree) (by simp)
  setPll := fun hset => absurd hset (by simp)
  restored := fun _ hun => absurd hun (by simp)

/-- Programming the clock tree keeps a wake-up, and a domain that is on. -/
theorem wp_cmu {c : Call} {K : Gpu → Prop} (hK : block.Stable K)
    (hkeep : ∀ s t : Gpu, t.regs .status = s.regs .status →
      t.regs .configuration = s.regs .configuration → t.tzSaved = s.tzSaved → K s → K t)
    {p : P Int} (hp : p.Uses CmuOp) (hs : Waking g s) (hs' : K s) :
    wp block ok (Passes c s₀) p (fun _ t => Waking g t ∧ K t) s := by
  have hclass : ∀ o, CmuOp o → KeepsDomain o ∧ Plain o := by
    intro o ho
    match o, ho with
    | .rd .pd _, _ => exact ⟨trivial, by simp, by simp⟩
    | .poll .pd _ _ _, _ => exact ⟨trivial, by simp, by simp⟩
    | .wr .pd _ _, ho => exact ⟨ho, by simp, by simp⟩
  refine wp_of_uses (stable_waking.and hK) ?_ (fun o t ho ht => ht.1.passes (hclass o ho).2)
    (fun t ht => ht.1.passes_none) hp ⟨hs, hs'⟩
  intro o ho l t r u ht _ hact
  obtain ⟨h1, h2, h3, -, h5, h6⟩ := keepsDomain (hclass o ho).1 hact
  have hlocked : u.locked = t.locked := by
    rw [(act_changes hact).locked]
    match o, ho with
    | .rd .pd _, _ => rfl
    | .poll .pd _ _ _, _ => rfl
    | .wr .pd _ _, _ => rfl
  refine ⟨⟨hlocked.trans ht.1.1, h6.trans ht.1.2.1, ?_⟩, hkeep t u h1 h2 h3 ht.2⟩
  rw [h3, h5]
  exact ht.1.2.2

theorem wp_powerOnLocked {c : Call} (hs : Waking g s) :
    wp block ok (Passes c s₀) powerOnLocked (fun ret t => Waking g t ∧ (ret = 0 → On t)) s := by
  have hpass : ∀ {o : Op}, Plain o → ∀ t, Waking g t → Passes c s₀ t (some o) :=
    fun ho t ht => ht.passes ho
  have hfail : ∀ {ret : Int} {t : Gpu}, ret ≠ 0 → Waking g t →
      wp block ok (Passes c s₀) (pure ret) (fun ret t => Waking g t ∧ (ret = 0 → On t)) t :=
    fun hret ht => wp_ret stable_waking ht (fun t ht => ht.passes_none)
      (fun t ht => ⟨ht, fun h => absurd h hret⟩)
  simp only [powerOnLocked, rmw, rd, wr, poll, get, assign, Prog.perform_bind, Prog.op_bind]
  refine wp_wr stable_waking hs (hpass ⟨by simp, by simp⟩) (fun t ht => ?_)
  refine wp_get stable_waking ht (hpass ⟨by simp, by simp⟩) (fun t ht => ?_)
  have hsetup : wp block ok (Passes c s₀)
      (if (!t.vars.initialized) = true then pllSetup else pure 0)
      (fun _ u => Waking g u ∧ True) t := by
    split
    · exact wp_cmu (stable_still (fun _ => True)) (fun _ _ _ _ _ _ => trivial) uses_pllSetup ht
        trivial
    · exact wp_ret stable_waking ht (fun t ht => ht.passes_none) (fun t ht => ⟨ht, trivial⟩)
  refine wp_bind (wp_mono (fun ret u hu => ?_) hsetup)
  split
  · rename_i hret
    exact hfail hret hu.1
  refine wp_rd stable_waking hu.1 (hpass ⟨by simp, by simp⟩) (fun t1 _ v ht1 _ => ?_)
  refine wp_wr stable_waking ht1 (hpass ⟨by simp, by simp⟩) (fun t1 ht1 => ?_)
  refine wp_rd stable_waking ht1 (hpass ⟨by simp, by simp⟩) (fun t1 _ v ht1 _ => ?_)
  refine wp_wr stable_waking ht1 (hpass ⟨by simp, by simp⟩) (fun t1 ht1 => ?_)
  refine wp_wr stable_waking ht1 (hpass ⟨by simp, by simp⟩) (fun t1 ht1 => ?_)
  have hcfg : block.Stable (fun t => Waking g t ∧ t.regs .configuration = G3D_LOCAL_PWR_CFG) :=
    stable_waking.and (stable_still (fun t => t.regs .configuration = G3D_LOCAL_PWR_CFG))
  have hset : Function.update t1.regs .configuration G3D_LOCAL_PWR_CFG .configuration =
      G3D_LOCAL_PWR_CFG := Function.update_self ..
  refine wp_poll hcfg ⟨ht1, hset⟩ (fun t ht => ht.1.passes ⟨by simp, by simp⟩)
    (fun t2 l v ht2 _ hv => ?_)
  split
  · exact hfail (by decide) ht2.1
  rename_i hfull
  refine wp_bind (wp_mono (fun ret t3 ht3 => ?_) (wp_tzRestore stable_waking (fun t ht => ht.1)
    (fun t ht => ht.2.2) (fun t ht => ⟨ht.1, ht.2.1, fun h => absurd h (by simp)⟩) ht2.1
    (on_of_read ht2.2 hv (not_not.mp hfull))))
  split
  · rename_i hret
    exact hfail hret ht3.1
  rename_i hret
  have hon3 : On t3 := ht3.2 (not_not.mp hret)
  have hbus : wp block ok (Passes c s₀) (if (!t.vars.initialized) = true then busSetup else pure 0)
      (fun _ u => Waking g u ∧ On u) t3 := by
    split
    · refine wp_cmu stable_on (fun s t h1 h2 h3 hon => ?_) uses_busSetup ht3.1 hon3
      simp only [On, Powered, Gpu.Settled, h1, h2, h3]
      exact hon
    · exact wp_ret (stable_waking.and stable_on) ⟨ht3.1, hon3⟩ (fun t ht => ht.1.passes_none)
        (fun t ht => ht)
  refine wp_bind (wp_mono (fun ret t4 ht4 => ?_) hbus)
  split
  · rename_i hret
    exact hfail hret ht4.1
  have hlast : block.Stable (fun t => Waking g t ∧ On t) := stable_waking.and stable_on
  refine wp_assign hlast ht4 (fun t ht => ht.1.passes ⟨by simp, by simp⟩) (fun t5 ht5 => ?_)
  exact wp_ret (P := fun t => Waking g t ∧ On t) hlast ht5 (fun t ht => ht.1.passes_none)
    (fun t ht => ⟨ht.1, fun _ => ht.2⟩)

/-- **A power-on** takes the flag up exactly when it succeeds. -/
theorem wp_powerOn {c : Call} {R : Bool → Option Bool → Prop} (hc : c ≠ .powerOff)
    (hs : Sound R s) (hg : s.genpd = g) :
    wp block ok (Passes c s₀) powerOn
      (fun ret t => Sound (fun f g' => f = decide (ret = 0) ∧ g' = g) t) s := by
  have hentry : block.Stable (fun t => Sound R t ∧ t.genpd = g) :=
    (stable_sound R).and (stable_still (fun t => t.genpd = g))
  simp only [powerOn, domainLock, mutexLock, Prog.perform_bind]
  refine wp_lock hentry ⟨hs, hg⟩ (fun t ht => ht.1.passes ⟨by simp, by simp⟩) (fun t ht => ?_)
  have hwaking : Waking g { t with locked := true } := ⟨rfl, ht.2, ht.1.2.2⟩
  refine wp_bind (wp_mono (fun ret u hu => ?_) (wp_powerOnLocked hwaking))
  have hunlock : wp block ok (Passes c s₀) (domainUnlock (decide (ret = 0)))
      (fun _ t => Sound (fun f g' => f = decide (ret = 0) ∧ g' = g) t) u := by
    by_cases hret : ret = 0
    · simp only [hret, decide_true]
      exact wp_unlock_on hu.1.1 (hu.2 hret) ⟨rfl, hu.1.2.1⟩ (fun h => absurd h hc)
    · simp only [hret, decide_false]
      exact wp_unlock_off hu.1.1 ⟨rfl, hu.1.2.1⟩ hu.1.2.2
  refine wp_bind (wp_mono (fun _ v hv => ?_) hunlock)
  exact wp_ret (stable_sound _) hv (fun t ht => ht.passes_none) (fun t ht => ht)

end PowerOn

/-! ## 7. The calls

Each call begins and ends with a sound flag.  The two calls of the core are made in the direction
the core's own view allows. -/

section Calls

variable {s₀ s : Gpu} {ok : Gpu → (o : Op) → Luck → Bool}

theorem wp_genpdPowerOn (hs : Sound Switched s) (hg : s.genpd = some false) :
    wp block ok (Passes .powerOn s₀) genpdPowerOn (fun _ t => Sound Switched t) s := by
  refine wp_bind (wp_mono (fun ret t ht => ?_) (wp_powerOn (by simp) hs hg))
  split
  · rename_i hret
    simp only [setGenpd, Prog.perform_bind]
    refine wp_genpd (stable_sound _) ht (fun t ht => ht.passes ⟨by simp, by simp⟩) (fun t ht => ?_)
    have hup : Sound Switched { t with genpd := some true } :=
      ⟨ht.1, fun _ => ht.2.1.1.trans (decide_eq_true hret), ht.2.2⟩
    exact wp_ret (stable_sound _) hup (fun t ht => ht.passes_none) (fun t ht => ht)
  · refine wp_ret (stable_sound _) ht (fun t ht => ht.passes_none) (fun t ht => ?_)
    exact ⟨ht.1, fun h => absurd ht.2.1.2 h, ht.2.2⟩

theorem wp_genpdPowerOff (hs : Sound Switched s) (hg : s.genpd = some true) :
    wp block ok (Passes .powerOff s) genpdPowerOff
      (fun ret t => Sound Switched t ∧ Ends .powerOff s ret t) s := by
  have hup : s.vars.domainPowered = true := hs.2.1 (by simp [hg])
  have hentry : Sound (Still true) s := ⟨hs.1, ⟨hup, hg⟩, hs.2.2⟩
  refine wp_bind (wp_mono (fun ret t ht => ?_) (wp_powerOff hentry))
  split
  · rename_i hret
    simp only [setGenpd, Prog.perform_bind]
    refine wp_genpd (stable_sound _) ht.1 (fun t ht => ht.passes ⟨by simp, by simp⟩)
      (fun t ht => ?_)
    have hdown : Sound Switched { t with genpd := some false } :=
      ⟨ht.1, fun h => absurd rfl h, ht.2.2⟩
    exact wp_ret (stable_sound _) hdown (fun t ht => ht.passes_none)
      (fun t ht => ⟨ht, fun _ h => absurd rfl h⟩)
  · rename_i hret
    have hboth : block.Stable (OffEnd s ret) :=
      (stable_sound _).and (stable_still (SameMux s)).imp
    refine wp_ret hboth ht (fun t ht => ht.1.passes_none) (fun t ht => ?_)
    obtain ⟨⟨hflag, ⟨hflagged, -⟩, htz⟩, hmux⟩ := ht
    have hon : t.vars.domainPowered = true := hflagged.trans (decide_eq_true hret)
    exact ⟨⟨hflag, fun _ => hon, htz⟩, fun _ _ => ⟨(hflag hon).1, (hflag hon).2.2, hmux⟩⟩

/-- The domain is on and not registered yet. -/
def Unregistered (f : Bool) (g : Option Bool) : Prop := f = true ∧ g = none

theorem wp_unregistered {ret : Int} {t : Gpu} (ht : Sound Unregistered t) :
    wp block ok (Passes .pdProbe s₀) (pure ret) (fun _ t => Sound Switched t) t :=
  wp_ret (stable_sound _) ht (fun _ h => h.passes_none)
    (fun _ h => ⟨h.1, fun _ => h.2.1.1, h.2.2⟩)

theorem wp_pdResources (hs : Sound Unregistered s) :
    wp block ok (Passes .pdProbe s₀) pdResources (fun _ t => Sound Unregistered t) s := by
  have hst : block.Stable (Sound Unregistered) := stable_sound _
  have hpass : ∀ {o : Op}, Plain o → ∀ t, Sound Unregistered t → Passes .pdProbe s₀ t (some o) :=
    fun ho t ht => ht.passes ho
  have hend : ∀ {ret : Int} {t : Gpu}, Sound Unregistered t →
      wp block ok (Passes .pdProbe s₀) (pure ret) (fun _ t => Sound Unregistered t) t :=
    fun ht => wp_ret hst ht (fun _ h => h.passes_none) (fun _ h => h)
  simp only [pdResources, kernel, Prog.perform_bind]
  refine wp_kernel hst hs (hpass ⟨by simp, by simp⟩) (fun t ret ht => ?_)
  split
  · exact hend ht
  refine wp_kernel hst ht (hpass ⟨by simp, by simp⟩) (fun t ret ht => ?_)
  split
  · exact hend ht
  exact wp_kernel hst ht (hpass ⟨by simp, by simp⟩) (fun t ret ht => hend ht)

theorem wp_register (hs : Sound Unregistered s) :
    wp block ok (Passes .pdProbe s₀) (register true) (fun _ t => Sound Switched t) s := by
  have hst : block.Stable (Sound Unregistered) := stable_sound _
  have hpass : ∀ {o : Op}, Plain o → ∀ t, Sound Unregistered t → Passes .pdProbe s₀ t (some o) :=
    fun ho t ht => ht.passes ho
  simp only [register, kernel, setGenpd, Prog.perform_bind]
  refine wp_kernel hst hs (hpass ⟨by simp, by simp⟩) (fun t ret ht => ?_)
  split
  · exact wp_unregistered ht
  refine wp_kernel hst ht (hpass ⟨by simp, by simp⟩) (fun t ret ht => ?_)
  split
  · exact wp_unregistered ht
  refine wp_genpd hst ht (hpass ⟨by simp, by simp⟩) (fun t ht => ?_)
  have hup : Sound Switched { t with genpd := some true } := ⟨ht.1, fun _ => ht.2.1.1, ht.2.2⟩
  exact wp_ret (stable_sound _) hup (fun _ h => h.passes_none) (fun _ h => h)

/-- A domain that is found on is registered as on. -/
theorem wp_pdProbe (hs : Sound Switched s) (hg : s.genpd = none) :
    wp block ok (Passes .pdProbe s₀) pdProbe (fun _ t => Sound Switched t) s := by
  have hup : s.vars.domainPowered = true := hs.2.1 (by simp [hg])
  have hentry : Sound Unregistered s := ⟨hs.1, ⟨hup, hg⟩, hs.2.2⟩
  have hst : block.Stable (Sound Unregistered) := stable_sound _
  have hpass : ∀ {o : Op}, Plain o → ∀ t, Sound Unregistered t → Passes .pdProbe s₀ t (some o) :=
    fun ho t ht => ht.passes ho
  simp only [pdProbe, kernel, assign, rd, get, Prog.perform_bind]
  refine wp_kernel hst hentry (hpass ⟨by simp, by simp⟩) (fun t ret ht => ?_)
  split
  · exact wp_unregistered ht
  refine wp_bind (wp_mono (fun ret t ht => ?_) (wp_pdResources ht))
  split
  · exact wp_unregistered ht
  refine wp_assign hst ht (hpass ⟨by simp, by simp⟩) (fun t ht => ?_)
  have hlow : Sound Unregistered { t with vars := t.vars.assign (.lowPowerInitialized false) } := ht
  refine wp_rd hst hlow (hpass ⟨by simp, by simp⟩) (fun t l v ht hv => ?_)
  have hstatus : t.regs .status = v := Option.some.inj hv
  have hfull : v &&& G3D_LOCAL_PWR_CFG = G3D_LOCAL_PWR_CFG := hstatus ▸ (ht.1 ht.2.1.1).1
  simp only [hfull, decide_true, Bool.not_true, Bool.false_eq_true, false_and, if_false]
  refine wp_assign hst ht (hpass ⟨by simp, by simp⟩) (fun t ht => ?_)
  have hinit : Sound Unregistered { t with vars := t.vars.assign (.initialized true) } := ht
  refine wp_get hst hinit (hpass ⟨by simp, by simp⟩) (fun t ht => ?_)
  exact wp_register ht

/-- **One call** of either driver. -/
theorem wp_call_gate {c : Call} (hs : Sound Switched s) (hc : enabled c s = true) :
    wp block ok (Passes c s) (program c) (fun ret t => Sound Switched t ∧ Ends c s ret t) s := by
  have hplain : ∀ {A : Op → Prop} (c : Call), c ≠ .powerOff →
      (∀ o, A o → KeepsDomain o ∧ Plain o) → Prog.Made A apply (program c) →
      wp block ok (Passes c s) (program c) (fun ret t => Sound Switched t ∧ Ends c s ret t) s :=
    fun c hne hA hmade => wp_mono (fun _ _ h => ⟨h, fun h' => absurd h' hne⟩)
      (wp_outer_sound hA hmade hs)
  have hrequest : ∀ o, RequestOp o → KeepsDomain o ∧ Plain o := by
    intro o ho
    match o, ho with
    | .get, _ | .mutexLock, _ | .mutexUnlock, _ | .assign (.reqKhz _), _
    | .assign (.maxKhz _), _ => exact ⟨trivial, by simp, by simp⟩
  have hcap : ∀ o, CapOp o → KeepsDomain o ∧ Plain o := by
    rintro o (ho | ⟨khz, rfl⟩)
    · exact hrequest o ho
    · exact ⟨trivial, by simp, by simp⟩
  have hvolt : ∀ o, VoltOp o → KeepsDomain o ∧ Plain o := by
    intro o ho
    match o, ho with
    | .get, _ | .mutexLock, _ | .mutexUnlock, _ | .assign (.stepVolt _), _ | .pmicWrite _ _, _
    | .pmicRead _, _ => exact ⟨trivial, by simp, by simp⟩
  have hprobe : ∀ o, MapOp o ∨ PublishOp o ∨ (∃ b, o = .probeDone b) → KeepsDomain o ∧ Plain o := by
    rintro o (ho | ho | ⟨b, rfl⟩)
    · match o, ho with
      | .get, _ | .ioremap, _ | .assign (.con0 _), _ | .assign (.con2 _), _
      | .assign (.locktime _), _ | .assign (.curKhz _), _
      | .rd .g3d _, _ => exact ⟨trivial, by simp, by simp⟩
    · match o, ho with
      | .get, _ | .mutexLock, _ | .mutexUnlock, _ | .assign (.attempts _), _ | .assign .railSet, _
      | .pmicWrite _ _, _ | .kernel _, _ => exact ⟨trivial, by simp, by simp⟩
    · exact ⟨trivial, by simp, by simp⟩
  cases c with
  | probe => exact hplain _ (by simp) hprobe made_probeAttempt
  | stepVoltSet val => exact hplain _ (by simp) hvolt (uses_stepVoltSet val).made
  | railUvGet => exact hplain _ (by simp) hvolt (uses_railUvGet.made.bind (fun _ => .ret _))
  | setKhz khz => exact hplain _ (by simp) hcap (made_setKhz khz)
  | maxSet val => exact hplain _ (by simp) hrequest (made_maxSet val)
  | clkSet rate => exact hplain _ (by simp) hrequest (made_clkSet rate)
  | policyWork p =>
    exact hplain _ (by simp) (fun _ h => h)
      (made_policyPoll hcap (fun _ => ⟨trivial, by simp, by simp⟩) p)
  | pdProbe =>
    refine wp_mono (fun _ _ h => ⟨h, fun h' => absurd h' (by simp)⟩) (wp_pdProbe hs ?_)
    simpa [enabled] using hc
  | powerOn =>
    refine wp_mono (fun _ _ h => ⟨h, fun h' => absurd h' (by simp)⟩) (wp_genpdPowerOn hs ?_)
    simpa [enabled] using hc
  | powerOff => exact wp_genpdPowerOff hs (by simpa [enabled] using hc)
  | alwaysOnSet b =>
    refine hplain (A := fun o => o = .assign (.alwaysOn b)) _ (by simp) ?_
      (.op rfl (fun _ => .ret _))
    rintro o rfl
    exact ⟨trivial, by simp, by simp⟩

end Calls

/-! ## 8. Every run

Found on, every call keeps the gate.  Found off, one run is enough to break it, and it needs no
fault of the hardware. -/

/-- **The gate holds in every run** exactly when the domain is found on at boot. -/
theorem gate_iff {s₀ : Gpu} (h0 : Boot s₀) :
    (∀ s p, (gpuFrom s₀).Reach System.anyStep s p → Gate s p) ↔ Powered s₀ := by
  constructor
  · intro h
    have hboot : Gate s₀ none := h s₀ none (.boot rfl)
    exact (hboot h0.locked h0.domainPowered).1
  · intro hon s p hr
    have hinit : ∀ s, (gpuFrom s₀).init s → Sound Switched s := by
      rintro s rfl
      refine ⟨fun _ => ⟨hon, h0.found hon, h0.tzSaved⟩, fun _ => h0.domainPowered, fun h => ?_⟩
      exact absurd (h0.tzSaved.symm.trans h) (by simp)
    have hall : (gpuFrom s₀).Holds System.anyStep (Sound Switched) (fun c s₀ => Passes c s₀)
        (fun c s₀ ret t => Sound Switched t ∧ Ends c s₀ ret t) s p :=
      System.reach_holds hinit (stable_sound _) (fun c s hs hc => wp_call_gate hs hc)
        (fun _ _ _ _ h => h.1) hr
    match p, hall with
    | none, hall => exact fun _ hflag => ⟨(hall.1 hflag).1, (hall.1 hflag).2.2⟩
    | some ⟨c, e, .op o k⟩, hall => exact hall.at_op
    | some ⟨c, e, .ret ret⟩, hall => exact ⟨hall.at_ret.1, hall.at_ret.2.2⟩

/-- A ceiling of 260 MHz and a probe, up to the relock. -/
def upToRelock : List Ev :=
  callWith (.maxSet (.ok 260000)) (List.replicate 4 prompt) ++
    .start .probe :: List.replicate 16 (.op prompt)

/-- The relock is about to start, in a domain that is powered or not. -/
def relocks (powered : Bool) (x : Gpu × Option (Thread Op Ans Gpu Call Int)) : Bool :=
  match x.2 with
  | some ⟨_, _, .op (.mark .setPll) _⟩ =>
      decide (x.1.regs .status &&& G3D_LOCAL_PWR_CFG = G3D_LOCAL_PWR_CFG) == powered
  | _ => false

theorem relocks_spec {powered : Bool} {s : Gpu} {p : Option (Thread Op Ans Gpu Call Int)}
    (h : relocks powered (s, p) = true) : ∃ c e k, p = some ⟨c, e, .op (.mark .setPll) k⟩ ∧
      decide (s.regs .status &&& G3D_LOCAL_PWR_CFG = G3D_LOCAL_PWR_CFG) = powered := by
  match p, h with
  | some ⟨c, e, .op (.mark .setPll) k⟩, h => exact ⟨c, e, k, rfl, by simpa [relocks] using h⟩

theorem gate_found_on : ∃ s c e k,
    (gpuFrom (found true)).Reach System.anyStep s (some ⟨c, e, .op (.mark .setPll) k⟩) ∧
      Gate s (some ⟨c, e, .op (.mark .setPll) k⟩) := by
  have hrun : ((gpuFrom (found true)).exec System.anyStep upToRelock (found true, none)).any
      (relocks true) = true := by decide +kernel
  obtain ⟨s, p, hr, hp⟩ := System.reach_of_exec (Y := gpuFrom (found true)) rfl upToRelock _ hrun
  obtain ⟨c, e, k, rfl, -⟩ := relocks_spec hp
  have hon : Powered (found true) := by
    unfold Powered
    decide
  exact ⟨s, c, e, k, hr, (gate_iff (boot_found true)).mpr hon _ _ hr⟩

/-- **A relock in an unpowered domain**: found off at boot, the flag says on. -/
theorem off_at_boot : ¬ ∀ s₀, Boot s₀ → ∀ s p,
    (gpuFrom s₀).Reach System.anyStep s p → Gate s p := by
  intro h
  have hrun : ((gpuFrom (found false)).exec System.anyStep upToRelock (found false, none)).any
      (relocks false) = true := by decide +kernel
  obtain ⟨s, p, hr, hp⟩ := System.reach_of_exec (Y := gpuFrom (found false)) rfl upToRelock _ hrun
  obtain ⟨c, e, k, rfl, hoff⟩ := relocks_spec hp
  have hgate := h _ (boot_found false) s _ hr
  exact of_decide_eq_false hoff (hgate.setPll rfl)

end S9p.G3d
