/-
# Which buffer DECON reads

A framebuffer may be freed once the operation that took it off the plane has returned.  DECON
reads whatever address pair has latched last, so every operation has to leave it on a buffer
that stays: sboot's framebuffer, the black frame or the plane's current one.  Throughout, the
display is alive: a requested update latches before a wait for it times out, and within 50 ms.

* `freed_framebuffer_read`: without the black frame, a disable that takes the framebuffer away
  leaves DECON reading it.
* `scanout_live`: in every run in which the black frame was allocated, or the plane keeps its
  framebuffer except in updates of the running pipe, DECON reads only live buffers whenever no
  operation is in progress, and an update still pending will not change that.  Whenever an
  update is requested, both base registers agree.

What carries it: between the request and the latch the pair being latched is known (`Shown`),
and nothing else than a latch moves what DECON reads.
-/
import S9p.Decon.Panel

namespace S9p.Decon

open Device

/-! ## 1. What has to hold

Sboot's framebuffer and the black frame are never freed.  The plane's own one is live for as long as
it is the plane's. -/

/-- The address is that of a buffer that is never freed. -/
def Lasting (k : Priv) (base : Word) : Prop :=
  base = S9P_SBOOT_FB_BASE ∨ (k.blackDma ≠ 0 ∧ base.setWidth 64 = k.blackDma)

/-- The address is that of a buffer that is not freed now. -/
def Live (k : Priv) (fb : Option DmaBuf) (base : Word) : Prop :=
  Lasting k base ∨ ∃ obj, fb = some obj ∧ base.setWidth 64 = obj.dmaAddr

/-- **DECON reads live buffers**, also once a pending update has latched. -/
structure ScansLive (s : Display) : Prop where
  activeY : Live s.priv s.fb s.activeY
  activeC : Live s.priv s.fb s.activeC
  queued : s.pending = true →
    Live s.priv s.fb (s.regs .baseAddrY) ∧ Live s.priv s.fb (s.regs .baseAddrC)

/-- The display is alive: a wait sees its update latched, and 50 ms are always enough.  Time does
not occur, so this is what the timeouts of the source come to on a display that works. -/
def teAlive : Display → Op → Bool
  | s, .poll .shadowRegUpdateReq _ _ => !s.pending
  | s, .msleep ms => decide (ms < 50) || !s.pending
  | _, _ => true

def Call.isUpdate : Call → Bool
  | .update _ _ _ => true
  | _ => false

instance : DecidableEq DmaBuf := fun a b =>
  decidable_of_iff (a.dmaAddr = b.dmaAddr)
    ⟨fun h => by cases a; cases b; cases h; rfl, fun h => congrArg DmaBuf.dmaAddr h⟩

/-- The condition: there is a black frame, or the plane keeps its framebuffer, or it changes in
an update of the running pipe, or DECON still reads sboot's. -/
def keepsFb : Call → Display → Op → Bool
  | c, s, .swapState fb => decide (s.priv.blackDma ≠ 0) || decide (fb = s.fb) ||
      (c.isUpdate && s.priv.enabled) ||
      (decide (s.activeY = S9P_SBOOT_FB_BASE ∧ s.activeC = S9P_SBOOT_FB_BASE) && !s.pending)
  | _, _, _ => true

def scanoutOk : Call → Display → (o : Op) → Luck → Bool := fun c s o _ =>
  teAlive s o && keepsFb c s o

/-- A request is made with both base registers on the same address. -/
def PairAgrees (s : Display) : Option Op → Prop
  | some (.wr .shadowRegUpdateReq _) => s.regs .baseAddrY = s.regs .baseAddrC
  | _ => True

/-! ## 2. What the display engine sees

Scanout depends on a small part of the state.  A property of that part which a latch keeps is
stable, and that is all the environment can do to it. -/

/-- The part of the state scanout depends on. -/
structure Scan where
  priv : Priv
  fb : Option DmaBuf
  pending : Bool
  activeY : Word
  activeC : Word
  baseY : Word
  baseC : Word

def Display.scan (s : Display) : Scan :=
  ⟨s.priv, s.fb, s.pending, s.activeY, s.activeC, s.regs .baseAddrY, s.regs .baseAddrC⟩

theorem scan_wrBaseY (s : Display) (v : Word) :
    (s.write v .baseAddrY).scan = { s.scan with baseY := v } := by
  simp [Display.scan, Display.write, Function.update]

theorem scan_wrBaseC (s : Display) (v : Word) :
    (s.write v .baseAddrC).scan = { s.scan with baseC := v } := by
  simp [Display.scan, Display.write, Function.update]

/-- What a latch makes of it. -/
def Scan.latched (v : Scan) : Scan :=
  { v with pending := false, activeY := v.baseY, activeC := v.baseC }

/-- A property of scanout that a latch does not falsify. -/
def Latches (R : Scan → Prop) : Prop := ∀ v : Scan, v.pending = true → R v → R v.latched

theorem scan_stable {R : Scan → Prop} (hR : Latches R) :
    display.toDevice.Stable (fun s => R s.scan) := by
  intro e s t h hs
  cases e with
  | latch =>
    simp only [display, outside] at h
    split at h
    · rename_i hp
      simp only [Option.some.injEq] at h
      subst h
      exact hR s.scan hp hs
    · exact absurd h (by simp)
  | store p b =>
    simp only [display, outside, Option.some.injEq] at h
    subst h
    exact hs

/-- The operations that scanout does not depend on. -/
def Quiet : Op → Prop
  | .setEnabled _ => False
  | .swapState _ => False
  | .wr .shadowRegUpdateReq _ => False
  | .wr .baseAddrY _ => False
  | .wr .baseAddrC _ => False
  | _ => True

theorem quiet_act {o : Op} {l : Luck} {s t : Display} {r : Ans o} (ho : Quiet o)
    (h : act o l s = some (r, t)) : t.scan = s.scan := by
  cases o with
  | oops => exact absurd h (by simp [act])
  | setEnabled b => exact ho.elim
  | swapState fb => exact ho.elim
  | wr reg v =>
    simp only [act, Option.some.injEq, Prod.mk.injEq] at h
    obtain ⟨-, rfl⟩ := h
    cases reg with
    | shadowRegUpdateReq => exact ho.elim
    | baseAddrY => exact ho.elim
    | baseAddrC => exact ho.elim
    | _ => rfl
  | _ =>
    simp only [act, Option.some.injEq, Prod.mk.injEq] at h
    obtain ⟨-, rfl⟩ := h
    rfl

theorem quiet_agrees {o : Op} (ho : Quiet o) (s : Display) : PairAgrees s (some o) := by
  unfold PairAgrees
  split
  · rename_i h
    simp only [Option.some.injEq] at h
    subst h
    exact ho.elim
  · trivial

theorem plain_quiet (o : Op) (ho : Plain o) : Quiet o := by
  unfold Quiet
  split
  · exact ho.elim
  · exact ho.elim
  · exact ho.elim
  · exact ho.elim
  · exact ho.elim
  · trivial

theorem quiet_dcs (command : BitVec 8) : (dcs command).Uses Quiet := by
  simp only [dcs, get, param, wr, poll, Prog.perform_bind]
  refine ⟨trivial, fun k => ?_⟩
  dsimp only
  split
  · trivial
  · refine ⟨trivial, fun on => ?_⟩
    dsimp only
    split
    · trivial
    · exact ⟨trivial, fun _ => ⟨trivial, fun _ => ⟨trivial, fun _ => trivial⟩⟩⟩

theorem quiet_panelDown : panelDown.Uses Quiet := by
  simp only [panelDown, param, msleep, Prog.perform_bind]
  refine Prog.uses_bind (quiet_dcs _) (fun _ => ⟨trivial, fun on => ?_⟩)
  dsimp only
  split
  · trivial
  · exact ⟨trivial, fun _ => Prog.uses_bind (quiet_dcs _) (fun _ => ⟨trivial, fun _ => trivial⟩)⟩

theorem quiet_panelUp : panelUp.Uses Quiet := by
  simp only [panelUp, panelWake, param, msleep, Prog.perform_bind]
  refine Prog.uses_bind ⟨trivial, fun on => ?_⟩ (fun _ => quiet_dcs _)
  dsimp only
  split
  · exact Prog.uses_bind (quiet_dcs _) (fun _ => ⟨trivial, fun _ => trivial⟩)
  · trivial

/-! ## 3. Rules for scanout

A flip is two reads, two writes and a request, and a wait for the latch.  Each rule takes one of
these. -/

section Rules

variable {ok : Display → (o : Op) → Luck → Bool} {R : Scan → Prop} {s : Display} {k : Priv}
  {fb : Option DmaBuf} {aY aC a : Word}

theorem wp_quiet {α : Type} {p : P α} (hR : Latches R) (hp : p.Uses Quiet) (hs : R s.scan) :
    wp display.toDevice ok PairAgrees p (fun _ t => R t.scan) s := by
  refine wp_of_uses (scan_stable hR) ?_ (fun o t ho _ => quiet_agrees ho t) (fun _ _ => trivial)
    hp hs
  intro o ho l t r u ht _ h
  rw [quiet_act ho h]
  exact ht

/-- The operation has been entered with these statics, on the plane state `fb`. -/
def Fixed (k : Priv) (fb : Option DmaBuf) (v : Scan) : Prop := v.priv = k ∧ v.fb = fb

theorem fixed_latches : Latches (Fixed k fb) := fun _ _ hv => hv

/-- The two reads an operation begins with. -/
theorem wp_reads {α : Type} {kont : Option DmaBuf → Priv → P α} {Q : α → Display → Prop}
    (hR : Latches R) (hs : R s.scan)
    (hk : ∀ t, R t.scan → Fixed s.priv s.fb t.scan →
      wp display.toDevice ok PairAgrees (kont s.fb s.priv) Q t) :
    wp display.toDevice ok PairAgrees (do
      let fb ← planeFb
      let k ← get
      kont fb k) Q s := by
  have hst : Latches (fun v => R v ∧ Fixed s.priv s.fb v) :=
    fun v hp hv => ⟨hR v hp hv.1, hv.2⟩
  simp only [planeFb, get, Prog.perform_bind]
  refine wp_op_eq (fun _ _ => rfl) (scan_stable hst) ⟨hs, rfl, rfl⟩ (fun _ _ => trivial) ?_
  intro t _ ht _
  refine wp_op_eq (fun _ _ => rfl) (scan_stable hst) ht (fun _ _ => trivial) ?_
  intro t1 _ ht1 _
  have hfb : t.fb = s.fb := ht.2.2
  have hpriv : t1.priv = s.priv := ht1.2.1
  rw [hfb, hpriv]
  exact hk t1 ht1.1 ht1.2

/-- Where nothing is pending, nothing latches. -/
theorem latches_idle (R : Scan → Prop) : Latches (fun v => R v ∧ v.pending = false) :=
  fun _ hp hv => absurd (hp.symm.trans hv.2) (by simp)

/-- **A wait for the request sees it latched.** -/
theorem wp_wait (hok : ∀ t l, ok t (.poll .shadowRegUpdateReq t.priv.shadowMask false) l = true →
      t.pending = false)
    (hR : Latches R) (hs : R s.scan) (hk : ∀ v, R v → v.priv = k) :
    wp display.toDevice ok PairAgrees waitShadowIdle
      (fun ret t => ret = 0 ∧ R t.scan ∧ t.scan.pending = false) s := by
  have hst := scan_stable hR
  simp only [waitShadowIdle, get, poll, Prog.perform_bind]
  refine wp_op_eq (fun _ _ => rfl) hst hs (fun _ _ => trivial) ?_
  intro t _ ht _
  refine wp_op_eq (fun _ _ => rfl) hst ht (fun _ _ => trivial) ?_
  intro t1 l1 ht1 hok1
  have hpriv : t.priv = t1.priv := (hk _ ht).trans (hk _ ht1).symm
  rw [hpriv] at hok1
  have hidle : t1.pending = false := hok t1 l1 hok1
  have hzero : t1.shows l1 .shadowRegUpdateReq &&& t.priv.shadowMask = 0 := by
    simp [Display.shows, hidle]
  rw [if_pos hzero]
  exact wp_ret (scan_stable (latches_idle R)) ⟨ht1, hidle⟩ (fun _ _ => trivial)
    (fun _ h => ⟨rfl, h⟩)

/-- Nothing is pending, and DECON reads the pair `aY`, `aC`. -/
structure Idle (k : Priv) (fb : Option DmaBuf) (aY aC : Word) (v : Scan) : Prop where
  priv : v.priv = k
  fb : v.fb = fb
  idle : v.pending = false
  activeY : v.activeY = aY
  activeC : v.activeC = aC

/-- The address `a` has been requested: DECON reads what it read before, or `a`. -/
structure Shown (k : Priv) (fb : Option DmaBuf) (aY aC a : Word) (v : Scan) : Prop where
  priv : v.priv = k
  fb : v.fb = fb
  before : v.pending = true → v.activeY = aY ∧ v.activeC = aC ∧ v.baseY = a ∧ v.baseC = a
  after : v.pending = false → v.activeY = a ∧ v.activeC = a

theorem latches_of_idle (h : ∀ v, R v → v.pending = false) : Latches R :=
  fun v hp hv => absurd (hp.symm.trans (h v hv)) (by simp)

theorem idle_latches : Latches (Idle k fb aY aC) := latches_of_idle (fun _ h => h.idle)

theorem shown_latches : Latches (Shown k fb aY aC a) := fun _ hp hv =>
  { priv := hv.priv
    fb := hv.fb
    before := fun h => absurd h (by simp [Scan.latched])
    after := fun _ => ⟨(hv.before hp).2.2.1, (hv.before hp).2.2.2⟩ }

theorem shadowMask_ne (k : Priv) : k.shadowMask ≠ 0#32 := by
  have hall : ∀ win : Fin DECON_MAX_WIN, 1#32 <<< win.val ≠ 0#32 := by decide
  exact hall k.win

/-- **A new address is requested** as a pair, and from then on it is what latches. -/
theorem wp_programAddress {addr : BitVec 64} (hs : Idle k fb aY aC s.scan) :
    wp display.toDevice ok PairAgrees (programAddress addr)
      (fun _ t => Shown k fb aY aC (addr.setWidth 32) t.scan) s := by
  simp only [programAddress, wr, get, Prog.perform_bind]
  refine wp_op_eq (fun _ _ => rfl) (scan_stable idle_latches) hs (fun _ _ => trivial) ?_
  intro t _ ht _
  have hhalf : Latches (fun v => Idle k fb aY aC v ∧ v.baseY = addr.setWidth 32) :=
    latches_of_idle (fun _ h => h.1.idle)
  have hu : (fun v => Idle k fb aY aC v ∧ v.baseY = addr.setWidth 32)
      (t.write (addr.setWidth 32) .baseAddrY).scan := by
    rw [scan_wrBaseY]
    exact ⟨{ ht with }, rfl⟩
  refine wp_op_eq (fun _ _ => rfl) (scan_stable hhalf) hu (fun _ _ => trivial) ?_
  intro t1 _ ht1 _
  have hpair : Latches (fun v => Idle k fb aY aC v ∧ v.baseY = addr.setWidth 32 ∧
      v.baseC = addr.setWidth 32) := latches_of_idle (fun _ h => h.1.idle)
  have hu1 : (fun v => Idle k fb aY aC v ∧ v.baseY = addr.setWidth 32 ∧
      v.baseC = addr.setWidth 32) (t1.write (addr.setWidth 32) .baseAddrC).scan := by
    rw [scan_wrBaseC]
    exact ⟨{ ht1.1 with }, ht1.2, rfl⟩
  refine wp_op_eq (fun _ _ => rfl) (scan_stable hpair) hu1 (fun _ _ => trivial) ?_
  intro t2 _ ht2 _
  refine wp_op_eq (fun _ _ => rfl) (scan_stable hpair) ht2 (fun t ht => ht.2.1.trans ht.2.2.symm) ?_
  intro t3 _ ht3 _
  have hset : (t3.write t2.priv.shadowMask .shadowRegUpdateReq).pending = true := by
    have hpriv : t2.priv = t3.priv := ht2.1.priv.trans ht3.1.priv.symm
    simp [Display.write, hpriv, shadowMask_ne]
  refine wp_quiet shown_latches (plain_hwTriggerUnmask.mono plain_quiet) ?_
  exact {
    priv := ht3.1.priv
    fb := ht3.1.fb
    before := fun _ => ⟨ht3.1.activeY, ht3.1.activeC, ht3.2.1, ht3.2.2⟩
    after := fun h => absurd (hset.symm.trans h) (by simp) }

end Rules

/-! ## 4. The invariant

The invariant is on what DECON reads and on what it would read after a latch, which are two pairs
and may differ. -/

/-- What DECON reads, now or after a pending latch, is live; and where there is a black frame, a
pipe that is off has settled on it or on sboot's framebuffer.  It is kept by a latch, as a pending
one is part of it. -/
structure Inv (v : Scan) : Prop where
  mask32 : v.priv.blackDma.toNat < 2 ^ 32
  activeY : Live v.priv v.fb v.activeY
  activeC : Live v.priv v.fb v.activeC
  queued : v.pending = true → Live v.priv v.fb v.baseY ∧ Live v.priv v.fb v.baseC
  off : v.priv.blackDma ≠ 0 → v.priv.enabled = false →
    v.pending = false ∧ Lasting v.priv v.activeY ∧ Lasting v.priv v.activeC

theorem Inv.scansLive {s : Display} (h : Inv s.scan) : ScansLive s :=
  ⟨h.activeY, h.activeC, h.queued⟩

theorem inv_latches : Latches Inv := fun _ hp hv =>
  { mask32 := hv.mask32
    activeY := (hv.queued hp).1
    activeC := (hv.queued hp).2
    queued := fun h => absurd h (by simp [Scan.latched])
    off := fun hb he => absurd (hp.symm.trans (hv.off hb he).1) (by simp) }

theorem Boot.inv {s : Display} (h : Boot s) : Inv s.scan where
  mask32 := h.black
  activeY := .inl (.inl h.activeY)
  activeC := .inl (.inl h.activeC)
  queued := fun hp => absurd (hp.symm.trans h.idle) (by simp)
  off := fun _ _ => ⟨h.idle, .inl h.activeY, .inl h.activeC⟩

/-- An address that fits 32 bits survives the truncation. -/
theorem setWidth_back {addr : BitVec 64} (h : addr.toNat < 2 ^ 32) :
    (addr.setWidth 32).setWidth 64 = addr := by
  apply BitVec.eq_of_toNat_eq
  rw [BitVec.toNat_setWidth, BitVec.toNat_setWidth, Nat.mod_eq_of_lt h, Nat.mod_eq_of_lt (by omega)]

theorem live_fb {k : Priv} {fb : Option DmaBuf} {obj : DmaBuf} (h : fb = some obj) :
    Live k fb (obj.dmaAddr.setWidth 32) := .inr ⟨obj, h, setWidth_back obj.mask32⟩

/-- The plane's own framebuffer is being shown by the running pipe. -/
theorem inv_of_shown {k : Priv} {obj : DmaBuf} {aY aC : Word} {v : Scan}
    (h : Shown k (some obj) aY aC (obj.dmaAddr.setWidth 32) v)
    (hmask : k.blackDma.toNat < 2 ^ 32) (hon : k.enabled = true)
    (hold : v.pending = true → Live k (some obj) aY ∧ Live k (some obj) aC) : Inv v := by
  obtain ⟨rfl, hfb, hbefore, hafter⟩ := h
  have hobj : Live v.priv v.fb (obj.dmaAddr.setWidth 32) := live_fb hfb
  refine ⟨hmask, ?_, ?_, fun hp => ?_, fun _ hoff => absurd (hon.symm.trans hoff) (by simp)⟩
  · cases hp : v.pending with
    | false => exact (hafter hp).1 ▸ hobj
    | true => exact (hbefore hp).1 ▸ hfb ▸ (hold hp).1
  · cases hp : v.pending with
    | false => exact (hafter hp).2 ▸ hobj
    | true => exact (hbefore hp).2.1 ▸ hfb ▸ (hold hp).2
  · exact ⟨(hbefore hp).2.2.1 ▸ hobj, (hbefore hp).2.2.2 ▸ hobj⟩

/-- The pipe has been switched off, reading what lasts. -/
theorem Lasting.live {k : Priv} {fb : Option DmaBuf} {base : Word} (h : Lasting k base) :
    Live k fb base := .inl h

/-- The plane's framebuffer may change under a pipe that reads what lasts. -/
theorem inv_swap {v : Scan} {fb : Option DmaBuf} (hv : Inv v)
    (h : fb = v.fb ∨ (v.pending = false ∧ Lasting v.priv v.activeY ∧ Lasting v.priv v.activeC)) :
    Inv { v with fb := fb } := by
  rcases h with rfl | ⟨hidle, hY, hC⟩
  · exact hv
  · exact {
      mask32 := hv.mask32
      activeY := hY.live
      activeC := hC.live
      queued := fun hp => absurd (hp.symm.trans hidle) (by simp)
      off := fun _ _ => ⟨hidle, hY, hC⟩ }

/-! ## 5. One operation

Each operation is followed from an idle pair to an idle pair.  In between the pair that has been
requested is known. -/

section Calls

variable {c : Call} {s : Display} {k : Priv} {fb : Option DmaBuf}

/-- The condition at a wait. -/
theorem scanoutOk_wait {t : Display} {l : Luck} {mask : Word}
    (h : scanoutOk c t (.poll .shadowRegUpdateReq mask false) l = true) : t.pending = false := by
  simpa [scanoutOk, teAlive, keepsFb] using h

/-- **A flip** ends on the new framebuffer. -/
theorem wp_flip {obj : DmaBuf} (hs : Fixed k fb s.scan) :
    wp display.toDevice (scanoutOk c) PairAgrees (flip obj) (fun _ t =>
      Idle k fb (obj.dmaAddr.setWidth 32) (obj.dmaAddr.setWidth 32) t.scan) s := by
  refine wp_bind (wp_mono ?_ (wp_wait (fun t l => scanoutOk_wait) fixed_latches hs
    (fun _ h => h.1)))
  rintro ret t ⟨rfl, ht, hidle⟩
  rw [if_neg (by simp)]
  have ht' : Idle k fb t.activeY t.activeC t.scan := ⟨ht.1, ht.2, hidle, rfl, rfl⟩
  refine wp_bind (wp_mono (fun _ u hu => ?_) (wp_programAddress ht'))
  refine wp_bind (wp_mono ?_ (wp_wait (fun t l => scanoutOk_wait) shown_latches hu
    (fun _ h => h.priv)))
  rintro ret' u' ⟨-, hu', hidle'⟩
  refine wp_ret (scan_stable (latches_idle _)) ⟨hu', hidle'⟩ (fun _ _ => trivial) ?_
  rintro t' ⟨ht', hidle''⟩
  exact ⟨ht'.priv, ht'.fb, hidle'', (ht'.after hidle'').1, (ht'.after hidle'').2⟩

/-- The end of a blank rewrites half of the pair, which nothing reads. -/
theorem wp_repoint {aY aC : Word} (hs : Idle k fb aY aC s.scan) (fb' : Option DmaBuf) :
    wp display.toDevice (scanoutOk c) PairAgrees (repoint fb')
      (fun _ t => Idle k fb aY aC t.scan) s := by
  cases fb' with
  | none => exact wp_ret (scan_stable idle_latches) hs (fun _ _ => trivial) (fun _ h => h)
  | some obj =>
    refine wp_bind (wp_mono ?_ (wp_wait (fun t l => scanoutOk_wait) idle_latches hs
      (fun _ h => h.priv)))
    rintro ret t ⟨rfl, ht, -⟩
    rw [if_neg (by simp)]
    refine wp_op_eq (fun _ _ => rfl) (scan_stable idle_latches) ht (fun _ _ => trivial) ?_
    intro t1 _ ht1 _
    refine wp_ret (scan_stable idle_latches) ?_ (fun _ _ => trivial) (fun _ h => h)
    rw [scan_wrBaseY]
    exact { ht1 with }

/-- **A blank** ends on the black frame. -/
theorem wp_blank (hb : k.blackDma ≠ 0) (hs : Fixed k fb s.scan) :
    wp display.toDevice (scanoutOk c) PairAgrees blank
      (fun _ t => Idle k fb (k.blackDma.setWidth 32) (k.blackDma.setWidth 32) t.scan) s := by
  refine wp_reads fixed_latches hs (fun t1 ht1 _ => ?_)
  have hk : s.priv = k := hs.1
  rw [hk, if_neg hb]
  refine wp_bind (wp_mono ?_ (wp_wait (fun t l => scanoutOk_wait) fixed_latches ht1
    (fun _ h => h.1)))
  rintro ret t2 ⟨rfl, ht2, hidle⟩
  rw [if_neg (by simp)]
  have ht2' : Idle k fb t2.activeY t2.activeC t2.scan := ⟨ht2.1, ht2.2, hidle, rfl, rfl⟩
  refine wp_bind (wp_mono (fun _ t3 ht3 => ?_) (wp_programAddress ht2'))
  simp only [msleep, Prog.perform_bind]
  refine wp_op_eq (fun _ _ => rfl) (scan_stable shown_latches) ht3 (fun _ _ => trivial) ?_
  intro t4 _ ht4 hok
  -- the 50 ms are over, so the black frame has latched
  have hlatched : t4.pending = false := by simpa [scanoutOk, teAlive, keepsFb] using hok
  have hblack : Idle k fb (k.blackDma.setWidth 32) (k.blackDma.setWidth 32) t4.scan :=
    ⟨ht4.priv, ht4.fb, hlatched, (ht4.after hlatched).1, (ht4.after hlatched).2⟩
  exact wp_bind (wp_mono (fun _ u hu => wp_repoint hu _)
    (wp_quiet idle_latches quiet_panelDown hblack))

/-- Without a black frame a blank does nothing. -/
theorem wp_blank_none {R : Scan → Prop} (hR : Latches R) (hb : s.priv.blackDma = 0)
    (hs : R s.scan) :
    wp display.toDevice (scanoutOk c) PairAgrees blank (fun _ t => R t.scan) s := by
  refine wp_reads hR hs (fun t ht _ => ?_)
  rw [if_pos hb]
  exact wp_ret (scan_stable hR) ht (fun _ _ => trivial) (fun _ h => h)

/-- The condition when the plane's framebuffer changes. -/
theorem scanoutOk_swap {t : Display} {l : Luck} (h : scanoutOk c t (.swapState fb) l = true) :
    t.priv.blackDma ≠ 0 ∨ fb = t.fb ∨ (c.isUpdate = true ∧ t.priv.enabled = true) ∨
      (t.pending = false ∧ t.activeY = S9P_SBOOT_FB_BASE ∧ t.activeC = S9P_SBOOT_FB_BASE) := by
  simp only [scanoutOk, teAlive, keepsFb, Bool.true_and, Bool.or_eq_true, Bool.and_eq_true,
    decide_eq_true_eq, Bool.not_eq_true'] at h
  rcases h with ((h | h) | h) | ⟨⟨h1, h2⟩, h3⟩
  · exact .inl h
  · exact .inr (.inl h)
  · exact .inr (.inr (.inl h))
  · exact .inr (.inr (.inr ⟨h3, h1, h2⟩))

/-- A pipe that is off is left as it is, with whatever framebuffer its plane gets. -/
theorem inv_swap_off {t : Display} {l : Luck} (ht : Inv t.scan)
    (hok : scanoutOk c t (.swapState fb) l = true)
    (hoff : t.priv.enabled = false ∨ (c.isUpdate = false ∧ t.priv.blackDma = 0)) :
    Inv { t.scan with fb := fb } := by
  refine inv_swap ht ?_
  rcases scanoutOk_swap hok with hb | hsame | ⟨hup, hon⟩ | ⟨hidle, hY, hC⟩
  · rcases hoff with hoff | ⟨-, hb0⟩
    · exact .inr (ht.off hb hoff)
    · exact absurd hb0 hb
  · exact .inl hsame
  · rcases hoff with hoff | ⟨hup', -⟩
    · exact absurd (hon.symm.trans hoff) (by simp)
    · exact absurd (hup.symm.trans hup') (by simp)
  · exact .inr ⟨hidle, .inl hY, .inl hC⟩

/-- A pipe that reads one live buffer only, and one that lasts if it is off. -/
theorem inv_of_idle {a : Word} {v : Scan} (h : Idle k fb a a v) (hmask : k.blackDma.toNat < 2 ^ 32)
    (ha : Live k fb a) (hoff : k.blackDma ≠ 0 → k.enabled = false → Lasting k a) : Inv v := by
  obtain ⟨rfl, rfl, hidle, hY, hC⟩ := h
  refine ⟨hmask, hY ▸ ha, hC ▸ ha, fun hp => absurd (hp.symm.trans hidle) (by simp), ?_⟩
  exact fun hb he => ⟨hidle, hY ▸ hoff hb he, hC ▸ hoff hb he⟩

theorem wp_update {event active : Bool} (hs : Inv s.scan)
    (hen : enabled (.update fb event active) s = true) :
    wp display.toDevice (scanoutOk (.update fb event active)) PairAgrees
      (program (.update fb event active)) (fun _ t => Inv t.scan) s := by
  have hst : Latches (fun v => Inv v ∧ v.priv = s.priv) :=
    fun v hp hv => ⟨inv_latches v hp hv.1, hv.2⟩
  simp only [program, swapState, Prog.perform_bind]
  refine wp_op_eq (fun _ _ => rfl) (scan_stable hst) ⟨hs, rfl⟩ (fun _ _ => trivial) ?_
  intro t _ ht hok
  have hpriv : t.priv = s.priv := ht.2
  have hquiet := (plain_finishEvent event active).mono plain_quiet
  cases hon : t.priv.enabled with
  | true =>
    obtain ⟨obj, rfl⟩ : ∃ obj, fb = some obj := by
      refine Option.isSome_iff_exists.mp ?_
      simpa [enabled, ← hpriv, hon] using hen
    refine wp_reads fixed_latches (s := { t with fb := some obj }) ⟨rfl, rfl⟩ (fun t1 ht1 _ => ?_)
    simp only [hon, flipPlane, if_true]
    refine wp_bind (wp_mono (fun _ t2 ht2 => ?_) (wp_flip ht1))
    refine wp_mono (fun _ t3 ht3 => ?_) (wp_quiet idle_latches hquiet ht2)
    exact inv_of_idle ht3 ht.1.mask32 (live_fb rfl)
      (fun _ hoff => absurd (hon.symm.trans hoff) (by simp))
  | false =>
    have hinv := inv_swap_off ht.1 hok (.inl hon)
    refine wp_reads inv_latches (s := { t with fb := fb }) hinv (fun t1 ht1 _ => ?_)
    have hskip : flipPlane fb t.priv.enabled = return () := by cases fb <;> simp [flipPlane, hon]
    refine wp_bind (wp_mono (fun _ t2 ht2 => wp_quiet inv_latches hquiet ht2) ?_)
    rw [hskip]
    exact wp_ret (scan_stable inv_latches) ht1 (fun _ _ => trivial) (fun _ h => h)

/-- Without a black frame it does not matter whether the pipe is off. -/
theorem Inv.setOff {v : Scan} {b : Bool} (hv : Inv v) (hb : v.priv.blackDma = 0) :
    Inv { v with priv := { v.priv with enabled := b } } :=
  { hv with off := fun hne => absurd hb hne }

theorem wp_setEnabled {R R' : Scan → Prop} {b : Bool} {α : Type} {p : P α} (hR : Latches R)
    (hR' : Latches R') (hp : p.Uses Quiet)
    (h : ∀ v, R v → R' { v with priv := { v.priv with enabled := b } }) (hs : R s.scan) :
    wp display.toDevice (scanoutOk c) PairAgrees (do setEnabled b; p)
      (fun _ t => R' t.scan) s := by
  refine wp_op_eq (fun _ _ => rfl) (scan_stable hR) hs (fun _ _ => trivial) ?_
  intro t _ ht _
  exact wp_quiet (s := { t with priv := { t.priv with enabled := b } }) hR' hp (h _ ht)

theorem wp_disable (hs : Inv s.scan) :
    wp display.toDevice (scanoutOk (.disable fb)) PairAgrees (program (.disable fb))
      (fun _ t => Inv t.scan) s := by
  simp only [program, swapState, Prog.perform_bind]
  refine wp_op_eq (fun _ _ => rfl) (scan_stable inv_latches) hs (fun _ _ => trivial) ?_
  intro t _ ht hok
  have hirq := (plain_frameStartIrqSet false).mono plain_quiet
  by_cases hb : t.priv.blackDma = 0
  · -- nothing to show instead: what DECON reads stays what it is
    have hst : Latches (fun v => Inv v ∧ v.priv.blackDma = 0) :=
      fun v hp hv => ⟨inv_latches v hp hv.1, hv.2⟩
    have hinv := inv_swap_off ht hok (.inr ⟨rfl, hb⟩)
    refine wp_bind (wp_mono (fun _ t1 ht1 => ?_)
      (wp_quiet (p := kernel .vblankOff) (s := { t with fb := fb }) hst
        ⟨trivial, fun _ => trivial⟩ ⟨hinv, hb⟩))
    refine wp_bind (wp_mono (fun _ t2 ht2 => ?_) (wp_blank_none hst ht1.2 ht1))
    refine wp_bind (wp_mono (fun _ t3 ht3 => ?_) (wp_quiet hst hirq ht2))
    exact wp_setEnabled (p := return ()) hst inv_latches trivial (fun v hv => hv.1.setOff hv.2) ht3
  · have hfixed : Latches (Fixed t.priv fb) := fixed_latches
    refine wp_bind (wp_mono (fun _ t1 ht1 => ?_)
      (wp_quiet (p := kernel .vblankOff) (s := { t with fb := fb }) hfixed
        ⟨trivial, fun _ => trivial⟩ ⟨rfl, rfl⟩))
    refine wp_bind (wp_mono (fun _ t2 ht2 => ?_) (wp_blank hb ht1))
    refine wp_bind (wp_mono (fun _ t3 ht3 => ?_) (wp_quiet idle_latches hirq ht2))
    refine wp_setEnabled (p := return ()) idle_latches inv_latches trivial (fun v hv => ?_) ht3
    have hlasts : Lasting t.priv (t.priv.blackDma.setWidth 32) := .inr ⟨hb, setWidth_back ht.mask32⟩
    exact inv_of_idle (k := { t.priv with enabled := false })
      { hv with priv := by rw [hv.priv] } ht.mask32 (Lasting.live hlasts) (fun _ _ => hlasts)

theorem wp_enableScanout (hs : Inv s.scan) (hen : enabled .enable s = true) :
    wp display.toDevice (scanoutOk .enable) PairAgrees (program .enable)
      (fun _ t => Inv t.scan) s := by
  have hst : Latches (fun v => Inv v ∧ Fixed s.priv s.fb v) :=
    fun v hp hv => ⟨inv_latches v hp hv.1, hv.2⟩
  obtain ⟨obj, hobj⟩ := Option.isSome_iff_exists.mp hen
  refine wp_bind (wp_mono (fun _ t ht => ?_) (wp_quiet hst quiet_panelUp ⟨hs, rfl, rfl⟩))
  simp only [enableScanout, planeFb, Prog.perform_bind]
  refine wp_op_eq (fun _ _ => rfl) (scan_stable hst) ht (fun _ _ => trivial) ?_
  intro t1 _ ht1 _
  have hfb : t1.fb = some obj := (show t1.fb = s.fb from ht1.2.2).trans hobj
  rw [hfb]
  refine wp_bind (wp_mono ?_ (wp_wait (fun t l => scanoutOk_wait) hst ht1 (fun _ h => h.2.1)))
  rintro _ t2 ⟨-, ht2, hidle⟩
  have ht2' : Idle s.priv (some obj) t2.activeY t2.activeC t2.scan :=
    ⟨ht2.2.1, ht2.2.2.trans hobj, hidle, rfl, rfl⟩
  refine wp_bind (wp_mono (fun _ t3 ht3 => ?_) (wp_programAddress ht2'))
  refine wp_bind (wp_mono (fun _ t4 ht4 => ?_)
    (wp_quiet shown_latches ((plain_frameStartIrqSet true).mono plain_quiet) ht3))
  refine wp_setEnabled shown_latches inv_latches ⟨trivial, fun _ => trivial⟩ (fun v hv => ?_) ht4
  have hY : Live s.priv (some obj) t2.activeY := by
    rw [← hobj]
    exact ht2.2.1 ▸ ht2.2.2 ▸ ht2.1.activeY
  have hC : Live s.priv (some obj) t2.activeC := by
    rw [← hobj]
    exact ht2.2.1 ▸ ht2.2.2 ▸ ht2.1.activeC
  exact inv_of_shown (k := { s.priv with enabled := true }) { hv with priv := by rw [hv.priv] }
    hs.mask32 rfl (fun _ => ⟨hY, hC⟩)

/-- **Every operation keeps what DECON reads live.** -/
theorem wp_call (c : Call) (hs : Inv s.scan) (hen : enabled c s = true) :
    wp display.toDevice (scanoutOk c) PairAgrees (program c) (fun _ t => Inv t.scan) s := by
  cases c with
  | enable => exact wp_enableScanout hs hen
  | update fb event active => exact wp_update hs hen
  | disable fb => exact wp_disable hs

end Calls

/-! ## 6. Every run

The condition is looked at where the framebuffer is exchanged and where a request is waited for.
All other steps are free. -/

/-- No operation is in progress, or the one in progress is about to return. -/
def Between : Option (Thread Op Ans Display Call Unit) → Prop
  | none => True
  | some ⟨_, _, .ret _⟩ => True
  | some ⟨_, _, .op _ _⟩ => False

/-- **Scanout never outlives its buffer** in the runs that meet the condition. -/
theorem scanout_live {s : Display} {p : Option (Thread Op Ans Display Call Unit)}
    (h : display.Reach scanoutOk s p) :
    (Between p → ScansLive s) ∧
      (∀ c s₀ v k, p = some ⟨c, s₀, .op (.wr .shadowRegUpdateReq v) k⟩ →
        s.regs .baseAddrY = s.regs .baseAddrC) := by
  have hpost : ∀ c s a (t : Display),
      (fun (_ : Call) (_ : Display) (_ : Unit) t => Inv (Display.scan t)) c s a t → Inv t.scan :=
    fun _ _ _ _ ht => ht
  have hall := System.reach_holds (fun _ hs => Boot.inv hs) (scan_stable inv_latches)
    (fun c _ hs hen => wp_call c hs hen) hpost h
  refine ⟨fun hbetween => ?_, ?_⟩
  · match p, hall, hbetween with
    | none, hall, _ => exact hall.scansLive
    | some ⟨_, _, .ret _⟩, hall, _ => exact hall.at_ret.2.scansLive
    | some ⟨_, _, .op _ _⟩, _, hbetween => exact hbetween.elim
  · rintro c s₀ v k rfl
    exact hall.at_op

/-- The probe could not allocate the black frame. -/
def adoptedBare : Display := { adopted with priv := { adopted.priv with blackDma := 0#64 } }

theorem boot_adoptedBare : Boot adoptedBare :=
  { boot_adopted with off := rfl, black := by decide }

instance {k : Priv} {base : Word} : Decidable (Lasting k base) :=
  inferInstanceAs (Decidable (_ ∨ _))

instance {k : Priv} {fb : Option DmaBuf} {base : Word} : Decidable (Live k fb base) :=
  decidable_of_iff (Lasting k base ∨ fb.any (fun obj => base.setWidth 64 = obj.dmaAddr) = true)
    (by cases fb <;> simp [Live])

/-- A disable that takes the framebuffer away has all but returned, DECON reading a live buffer
or not. -/
def disabling (live : Bool) : Display × Option (Thread Op Ans Display Call Unit) → Bool
  | (s, some ⟨.disable none, _, .ret ()⟩) =>
      decide (decide (Live s.priv s.fb s.activeY) = live)
  | _ => false

theorem of_disabling {ok : Call → Display → (o : Op) → Luck → Bool} {live : Bool}
    (h : ∃ s p, display.Reach ok s p ∧ disabling live (s, p) = true) :
    ∃ s s₀, display.Reach ok s (some ⟨.disable none, s₀, .ret ()⟩) ∧
      decide (Live s.priv s.fb s.activeY) = live := by
  obtain ⟨s, p, hr, hp⟩ := h
  unfold disabling at hp
  split at hp
  · rename_i t t₀ heq
    simp only [Prod.mk.injEq] at heq
    obtain ⟨rfl, rfl⟩ := heq
    exact ⟨s, t₀, hr, of_decide_eq_true hp⟩
  · exact absurd hp (by simp)

/-- With the black frame, a framebuffer may be taken away. -/
theorem scanout_live_after_off : ∃ s s₀,
    display.Reach scanoutOk s (some ⟨.disable none, s₀, .ret ()⟩) ∧ ScansLive s := by
  have hrun : (display.exec scanoutOk (firstFrame ++ .start (.disable none) ::
      List.replicate 13 (.op smooth) ++ [.env .latch] ++ List.replicate 17 (.op smooth))
      (adopted, none)).any (disabling true) = true := by decide +kernel
  obtain ⟨s, s₀, hr, -⟩ :=
    of_disabling (System.reach_of_exec (Y := display) boot_adopted _ _ hrun)
  exact ⟨s, s₀, hr, (scanout_live hr).1 trivial⟩

/-- **A freed framebuffer is read.**  There is no black frame, so the disable returns with DECON
still on the framebuffer it took away. -/
theorem freed_framebuffer_read : ∃ s s₀,
    display.Reach (fun _ t o _ => teAlive t o) s (some ⟨.disable none, s₀, .ret ()⟩) ∧
      ¬ ScansLive s := by
  have hrun : (display.exec (fun _ t o _ => teAlive t o) (firstFrame ++ .start (.disable none) ::
      List.replicate 7 (.op smooth)) (adoptedBare, none)).any (disabling false) = true := by
    decide +kernel
  obtain ⟨s, s₀, hr, hdead⟩ :=
    of_disabling (System.reach_of_exec (Y := display) boot_adoptedBare _ _ hrun)
  exact ⟨s, s₀, hr, fun h => of_decide_eq_false hdead h.activeY⟩

end S9p.Decon
