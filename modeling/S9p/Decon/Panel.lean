/-
# Does the panel wake up?

`s9p_panel_down` and `s9p_panel_up` read the two module parameters each for itself, and both
can be written in between.  What has been sent on the way down is not recorded, so the way up
sends what the parameters say by then.

* `panel_left_asleep`: a disable with both parameters on and an enable after `panel_sleep` has
  been switched off leave the panel in sleep mode.
* `panel_wakes`: in every run in which each enable finds a parameter on whenever the packet it
  decides about would make a difference to the panel, the panel is sleep-out and display-on
  after every enable.
-/
import S9p.Decon.Pipe

namespace S9p.Decon

open Device

/-! ## 1. The condition

A packet that would change nothing need not be sent.  The condition is therefore on the parameter
and on the panel, at the moment at which the parameter is read. -/

/-- The condition on a step: a parameter that an enable reads is on, or the packet it decides about
would change nothing.  It is asked of the two reads of an enable and of nothing else. -/
def sendsNeeded : Call → Display → (o : Op) → Luck → Bool
  | .enable, s, .param p command, _ => s.switch p || decide (s.panel.dcs command = s.panel)
  | _, _, _, _ => true

/-! ## 2. Without DSIM no packet is ever sent

Without DSIM the panel cannot be put to sleep in the first place, and nothing has to be shown of it.
-/

/-- A packet is written only where DSIM is mapped. -/
def PacketOp (dsim : Bool) : Op → Prop
  | .wr .dsimPkthdr _ => dsim = true
  | _ => True

/-- The driver's own pointer tells whether it is. -/
def Told (dsim : Bool) : (o : Op) → Ans o → Prop
  | .get, k => k.dsim = dsim
  | _, _ => True

/-- The operations that send no packet. -/
def Mute : Op → Prop
  | .wr .dsimPkthdr _ => False
  | _ => True

theorem mute_packetOp (dsim : Bool) (o : Op) (ho : Mute o) : PacketOp dsim o := by
  unfold PacketOp
  split
  · exact ho.elim
  · trivial

theorem mute_waitShadowIdle : waitShadowIdle.Uses Mute :=
  ⟨trivial, fun _ => ⟨trivial, fun _ => trivial⟩⟩

theorem plain_mute (o : Op) (ho : Plain o) : Mute o := by
  unfold Mute
  split
  · exact ho.elim
  · trivial

theorem mute_programAddress (addr : BitVec 64) : (programAddress addr).Uses Mute :=
  ⟨trivial, fun _ => ⟨trivial, fun _ => ⟨trivial, fun _ => ⟨trivial, fun _ =>
    plain_hwTriggerUnmask.mono plain_mute⟩⟩⟩⟩

theorem mute_repoint (fb : Option DmaBuf) : (repoint fb).Uses Mute := by
  cases fb with
  | none => trivial
  | some obj =>
    refine Prog.uses_bind mute_waitShadowIdle (fun ret => ?_)
    split
    · trivial
    · exact ⟨trivial, fun _ => trivial⟩

theorem mute_flip (obj : DmaBuf) : (flip obj).Uses Mute := by
  refine Prog.uses_bind mute_waitShadowIdle (fun ret => ?_)
  split
  · trivial
  · exact Prog.uses_bind (mute_programAddress _) (fun _ =>
      Prog.uses_bind mute_waitShadowIdle (fun _ => trivial))

theorem mute_flipPlane (fb : Option DmaBuf) (enabled : Bool) :
    (flipPlane fb enabled).Uses Mute := by
  cases fb with
  | none => trivial
  | some obj =>
    cases enabled with
    | false => trivial
    | true => exact mute_flip obj

theorem mute_pipeUpdate (event active : Bool) : (pipeUpdate event active).Uses Mute := by
  simp only [pipeUpdate, planeFb, get, Prog.perform_bind]
  exact ⟨trivial, fun _ => ⟨trivial, fun _ => Prog.uses_bind (mute_flipPlane _ _)
    (fun _ => (plain_finishEvent event active).mono plain_mute)⟩⟩

/-- The rest of an enable, once the panel is up. -/
theorem mute_enableScanout : enableScanout.Uses Mute := by
  simp only [enableScanout, planeFb, Prog.perform_bind]
  refine ⟨trivial, fun fb => ?_⟩
  cases fb with
  | none => exact ⟨trivial, fun e => nomatch e⟩
  | some obj =>
    exact Prog.uses_bind mute_waitShadowIdle (fun _ =>
      Prog.uses_bind (mute_programAddress _) (fun _ =>
        Prog.uses_bind ((plain_frameStartIrqSet true).mono plain_mute) (fun _ =>
          ⟨trivial, fun _ => ⟨trivial, fun _ => trivial⟩⟩)))

section Packets

variable {dsim : Bool}

theorem packets_of_mute {α : Type} {p : P α} (h : p.Uses Mute) :
    p.Meets (PacketOp dsim) (Told dsim) (fun _ => True) := h.meets (mute_packetOp dsim)

theorem packets_dcs (command : BitVec 8) :
    (dcs command).Meets (PacketOp dsim) (Told dsim) (fun _ => True) := by
  simp only [dcs, get, param, wr, poll, Prog.perform_bind]
  refine ⟨trivial, fun k hk => ?_⟩
  dsimp only
  split
  · trivial
  · rename_i hd
    have hdsim : dsim = true := by simpa [← show k.dsim = dsim from hk] using hd
    refine ⟨trivial, fun panelDcs _ => ?_⟩
    dsimp only
    split
    · trivial
    · exact ⟨trivial, fun _ _ => ⟨hdsim, fun _ _ => ⟨trivial, fun _ _ => trivial⟩⟩⟩

theorem packets_panelDown : panelDown.Meets (PacketOp dsim) (Told dsim) (fun _ => True) := by
  simp only [panelDown, param, msleep, Prog.perform_bind]
  refine (packets_dcs _).bind (fun _ _ => ⟨trivial, fun panelSleep _ => ?_⟩)
  dsimp only
  split
  · trivial
  · exact ⟨trivial, fun _ _ => (packets_dcs _).bind (fun _ _ => ⟨trivial, fun _ _ => trivial⟩)⟩

theorem packets_blank : blank.Meets (PacketOp dsim) (Told dsim) (fun _ => True) := by
  simp only [blank, planeFb, get, msleep, Prog.perform_bind]
  refine ⟨trivial, fun fb _ => ⟨trivial, fun k _ => ?_⟩⟩
  dsimp only
  split
  · trivial
  · refine (packets_of_mute mute_waitShadowIdle).bind (fun ret _ => ?_)
    split
    · trivial
    · exact (packets_of_mute (mute_programAddress _)).bind (fun _ _ => ⟨trivial, fun _ _ =>
        packets_panelDown.bind (fun _ _ => packets_of_mute (mute_repoint fb))⟩)

/-- A disable or an update sends packets only where DSIM is mapped. -/
theorem packets_program {c : Call} (hc : c ≠ .enable) :
    (program c).Meets (PacketOp dsim) (Told dsim) (fun _ => True) := by
  cases c with
  | enable => exact absurd rfl hc
  | update fb event active =>
    exact ⟨trivial, fun _ _ => packets_of_mute (mute_pipeUpdate event active)⟩
  | disable fb =>
    exact ⟨trivial, fun _ _ => ⟨trivial, fun _ _ => packets_blank.bind (fun _ _ =>
      (packets_of_mute ((plain_frameStartIrqSet false).mono plain_mute)).bind (fun _ _ =>
        ⟨trivial, fun _ _ => trivial⟩))⟩⟩

end Packets

/-! ## 3. One call

All other calls leave the panel asleep or awake as they like, as long as it can be reached. -/

/-- A panel that cannot be reached is awake. -/
def Reachable (s : Display) : Prop := s.priv.dsim = false → s.panel.Awake

theorem outside_stable (R : Priv → Panel → Prop) :
    display.toDevice.Stable (fun s => R s.priv s.panel) := by
  intro e s t h hs
  obtain ⟨hpriv, hpanel, -, -⟩ := outside_frame h
  rw [hpriv, hpanel]
  exact hs

/-- The pointer stays what it is, and an unreachable panel awake. -/
theorem packetOp_keeps {d : Bool} {o : Op} {l : Luck} {s t : Display} {r : Ans o}
    (ho : PacketOp d o) (hs : s.priv.dsim = d ∧ (d = false → s.panel.Awake))
    (h : act o l s = some (r, t)) :
    Told d o r ∧ t.priv.dsim = d ∧ (d = false → t.panel.Awake) := by
  cases o with
  | oops => exact absurd h (by simp [act])
  | get =>
    simp only [act, Option.some.injEq, Prod.mk.injEq] at h
    obtain ⟨rfl, rfl⟩ := h
    exact ⟨hs.1, hs⟩
  | wr reg v =>
    simp only [act, Option.some.injEq, Prod.mk.injEq] at h
    obtain ⟨-, rfl⟩ := h
    refine ⟨trivial, ?_⟩
    cases reg with
    | dsimPkthdr =>
      have hd : d = true := ho
      exact ⟨hs.1, fun hf => absurd (hd.symm.trans hf) (by simp)⟩
    | _ => exact hs
  | _ =>
    simp only [act, Option.some.injEq, Prod.mk.injEq] at h
    obtain ⟨-, rfl⟩ := h
    exact ⟨trivial, hs⟩

/-! ## 4. An enable

The two packets of an enable are independent of one another, and each undoes one of those of a
disable. -/

section Enable

variable {p : Panel} {s : Display}

/-- The panel is in the state `p`, which is an awake one unless DSIM is mapped. -/
def At (p : Panel) (s : Display) : Prop := s.panel = p ∧ (s.priv.dsim = false → p.Awake)

theorem at_stable (p : Panel) : display.toDevice.Stable (At p) :=
  outside_stable (fun k q => q = p ∧ (k.dsim = false → p.Awake))

/-- A command that changes nothing on an awake panel. -/
def Raises (command : BitVec 8) : Prop := ∀ p : Panel, p.Awake → p.dcs command = p

theorem raises_exitSleep : Raises MIPI_DCS_EXIT_SLEEP_MODE := by
  rintro ⟨sleeping, displayOn⟩ ⟨hs, hd⟩
  simp only at hs hd
  subst hs hd
  rfl

theorem raises_displayOn : Raises MIPI_DCS_SET_DISPLAY_ON := by
  rintro ⟨sleeping, displayOn⟩ ⟨hs, hd⟩
  simp only at hs hd
  subst hs hd
  rfl

/-- The two commands of `s9p_panel_up` together wake any panel. -/
theorem awake_panelUp (p : Panel) :
    ((p.dcs MIPI_DCS_EXIT_SLEEP_MODE).dcs MIPI_DCS_SET_DISPLAY_ON).Awake := ⟨rfl, rfl⟩

/-- A panel that needs no command is where the command would take it. -/
theorem At.same {command : BitVec 8} (h : At p s) (hsame : p.dcs command = p) :
    At (p.dcs command) s := hsame.symm ▸ h

abbrev S₀ : Display → Option Op → Prop := fun _ _ => True

/-- Nothing else than a packet moves the panel. -/
theorem mute_act {o : Op} {l : Luck} {t u : Display} {r : Ans o} (ho : Mute o) (ht : At p t)
    (h : act o l t = some (r, u)) : At p u := by
  obtain ⟨-, hpriv, hawake⟩ := packetOp_keeps (d := t.priv.dsim) (mute_packetOp _ o ho)
    ⟨rfl, fun hd => ht.1 ▸ ht.2 hd⟩ h
  refine ⟨?_, fun hd => ht.2 (hpriv ▸ hd)⟩
  rw [← ht.1]
  cases o with
  | oops => exact absurd h (by simp [act])
  | wr reg v =>
    simp only [act, Option.some.injEq, Prod.mk.injEq] at h
    obtain ⟨-, rfl⟩ := h
    cases reg with
    | dsimPkthdr => exact ho.elim
    | _ => rfl
  | _ =>
    simp only [act, Option.some.injEq, Prod.mk.injEq] at h
    obtain ⟨-, rfl⟩ := h
    rfl

theorem wp_mute {ok : Display → (o : Op) → Luck → Bool} {α : Type} {q : P α} (hq : q.Uses Mute)
    (hs : At p s) : wp display.toDevice ok S₀ q (fun _ => At p) s :=
  wp_of_uses (at_stable p) (fun _ ho _ _ _ _ ht _ h => mute_act ho ht h) (fun _ _ _ _ => trivial)
    (fun _ _ => trivial) hq hs

/-- **A packet of an enable** takes the panel where it should, or was not needed. -/
theorem wp_dcs {command : BitVec 8} (hc : Raises command) (hs : At p s) :
    wp display.toDevice (sendsNeeded .enable) S₀ (dcs command)
      (fun _ => At (p.dcs command)) s := by
  have hend : ∀ t, At (p.dcs command) t → wp display.toDevice (sendsNeeded .enable) S₀
      (.ret ()) (fun _ => At (p.dcs command)) t :=
    fun t ht => wp_ret (at_stable _) ht (fun _ _ => trivial) (fun _ h => h)
  simp only [dcs, get, param, wr, poll, Prog.perform_bind]
  refine wp_op_eq (fun _ _ => rfl) (at_stable p) hs (fun _ _ => trivial) ?_
  intro t l ht _
  split
  · rename_i hd
    exact hend t (ht.same (hc p (ht.2 (by simpa using hd))))
  refine wp_op_eq (fun _ _ => rfl) (at_stable p) ht (fun _ _ => trivial) ?_
  intro t1 _ ht1 hok
  split
  · rename_i hoff
    have hsame : p.dcs command = p := by
      have hneed : t1.switch .dcs = true ∨ t1.panel.dcs command = t1.panel := by
        simpa [sendsNeeded] using hok
      rcases hneed with hon | hsame
      · exact absurd hon (by simpa using hoff)
      · exact ht1.1 ▸ hsame
    exact hend t1 (ht1.same hsame)
  refine wp_op (at_stable p) ht1 (fun _ _ => trivial) ?_
  intro t2 l2 r2 u2 ht2 _ h2
  have hu2 : At p u2 :=
    mute_act (o := .wr .dsimIntsrc DSIM_INTSRC_PH_FIFO_EMPTY) (l := l2) trivial ht2 h2
  refine wp_op_eq (fun _ _ => rfl) (at_stable p) hu2 (fun _ _ => trivial) ?_
  intro t3 _ ht3 _
  have hu3 : At (p.dcs command) (t3.write (pktHdr command) .dsimPkthdr) := by
    refine ⟨by simp only [Display.write, ht3.1, packet_pktHdr], fun hd => ?_⟩
    rw [hc p (ht3.2 hd)]
    exact ht3.2 hd
  exact wp_mute (q := Prog.op _ (fun _ => .ret ())) ⟨trivial, fun _ => trivial⟩ hu3

/-- The first half of `s9p_panel_up`. -/
theorem wp_panelWake (hs : At p s) :
    wp display.toDevice (sendsNeeded .enable) S₀ panelWake
      (fun _ => At (p.dcs MIPI_DCS_EXIT_SLEEP_MODE)) s := by
  simp only [panelWake, param, msleep, Prog.perform_bind]
  refine wp_op_eq (fun _ _ => rfl) (at_stable p) hs (fun _ _ => trivial) ?_
  intro t _ ht hok
  split
  · refine wp_bind (wp_mono (fun _ u hu => ?_) (wp_dcs raises_exitSleep ht))
    exact wp_mute (q := Prog.op (Op.msleep PANEL_SLEEP_DELAY_MS) (fun _ => .ret ()))
      ⟨trivial, fun _ => trivial⟩ hu
  · rename_i hoff
    have hneed : t.switch .sleep = true ∨
        t.panel.dcs MIPI_DCS_EXIT_SLEEP_MODE = t.panel := by
      simpa [sendsNeeded] using hok
    rcases hneed with hon | hsame
    · exact absurd hon hoff
    · exact wp_ret (at_stable _) (ht.same (ht.1 ▸ hsame)) (fun _ _ => trivial) (fun _ h => h)

theorem wp_enable (hs : Reachable s) :
    wp display.toDevice (sendsNeeded .enable) S₀ pipeEnable
      (fun _ t => t.panel.Awake) s := by
  refine wp_bind (wp_bind (wp_mono (fun _ t ht => ?_) (wp_panelWake ⟨rfl, hs⟩)))
  refine wp_mono (fun _ u hu => ?_) (wp_dcs raises_displayOn ht)
  refine wp_mono (fun _ v hv => ?_) (wp_mute mute_enableScanout hu)
  rw [hv.1]
  exact awake_panelUp _

end Enable

/-! ## 5. Every run

An enable ends with the panel awake whatever was done before it, so there is no invariant to be
carried from enable to enable. -/

/-- What a call is entered with, and what it leaves. -/
def Woken : Call → Display → Prop
  | .enable, t => t.panel.Awake
  | _, t => Reachable t

theorem wp_program (c : Call) {s : Display} (hs : Reachable s) :
    wp display.toDevice (sendsNeeded c) S₀ (program c) (fun _ => Woken c) s := by
  by_cases hc : c = .enable
  · subst hc
    exact wp_enable hs
  · have hst : display.toDevice.Stable
        (fun t => t.priv.dsim = s.priv.dsim ∧ (s.priv.dsim = false → t.panel.Awake)) :=
      outside_stable (fun k q => k.dsim = s.priv.dsim ∧ (s.priv.dsim = false → q.Awake))
    have hkeeps : ∀ o, PacketOp s.priv.dsim o → ∀ l t r u,
        (t.priv.dsim = s.priv.dsim ∧ (s.priv.dsim = false → t.panel.Awake)) →
        sendsNeeded c t o l = true → display.act o l t = some (r, u) →
        Told s.priv.dsim o r ∧ u.priv.dsim = s.priv.dsim ∧
          (s.priv.dsim = false → u.panel.Awake) :=
      fun o ho l t r u ht _ h => packetOp_keeps ho ht h
    refine wp_mono ?_ (wp_of_meets hst hkeeps (fun _ _ _ _ => trivial) (fun _ _ => trivial)
      (packets_program hc) ⟨rfl, hs⟩)
    rintro a t ⟨-, hpriv, hawake⟩
    have hreach : Reachable t := fun hd => hawake (hpriv ▸ hd)
    cases c with
    | enable => exact absurd rfl hc
    | update => exact hreach
    | disable => exact hreach

/-- **The panel wakes** in every run whose enables send what the panel needs. -/
theorem panel_wakes {s s₀ : Display}
    (h : display.Reach sendsNeeded s (some ⟨.enable, s₀, .ret ()⟩)) : s.panel.Awake := by
  have hpost : ∀ c s a t, (fun c (_ : Display) (_ : Unit) t => Woken c t) c s a t →
      Reachable t := by
    intro c _ _ t ht
    cases c with
    | enable => exact fun _ => ht
    | update => exact ht
    | disable => exact ht
  have hinit : ∀ s, display.init s → Reachable s := fun s (hs : Boot s) _ => hs.awake
  have hall := System.reach_holds (S := fun _ _ _ _ => True) hinit
    (outside_stable (fun k p => k.dsim = false → p.Awake)) (fun c s hs _ => wp_program c hs)
    hpost h
  exact hall.at_ret.2

/-! ## 6. Runs

Both runs begin with the first frame.  In the second one a parameter is written while the display is
off. -/

/-- The pipe after the probe, both parameters on. -/
def adopted : Display where
  priv := {
    dsim := true, win := ⟨3, by decide⟩, commandMode := true, hwTrigger := true, enabled := false,
    blackDma := 0xe0000000#64 }
  switch := fun _ => true
  regs
    | .baseAddrY => S9P_SBOOT_FB_BASE
    | .baseAddrC => S9P_SBOOT_FB_BASE
    | _ => 0#32
  pending := false
  activeY := S9P_SBOOT_FB_BASE
  activeC := S9P_SBOOT_FB_BASE
  panel := ⟨false, true⟩
  fb := none

theorem boot_adopted : Boot adopted where
  activeY := rfl
  activeC := rfl
  idle := rfl
  awake := ⟨rfl, rfl⟩
  off := rfl
  fb := rfl
  black := by decide

/-- A framebuffer. -/
def screen : DmaBuf := ⟨0xd0000000#64, by decide⟩

/-- The packet FIFO empties, and kernel calls succeed. -/
def smooth : Luck := ⟨true, 0⟩

abbrev Ev := System.Ev Env Luck Call

/-- The first frame: an update of the pipe that is still off, and an enable. -/
def firstFrame : List Ev :=
  .start (.update (some screen) false true) :: List.replicate 3 (.op smooth) ++ [.done] ++
  .start .enable :: List.replicate 26 (.op smooth) ++ [.env .latch, .done]

/-- The first frame, then display off; every update latches in time. -/
def onAndOff : List Ev :=
  firstFrame ++ .start (.disable (some screen)) :: List.replicate 13 (.op smooth) ++
  [.env .latch] ++ List.replicate 20 (.op smooth) ++ [.done]

/-- An enable has all but returned, the panel being awake or not. -/
def returning (awake : Bool) : Display × Option (Thread Op Ans Display Call Unit) → Bool
  | (s, some ⟨.enable, _, .ret ()⟩) => decide (decide s.panel.Awake = awake)
  | _ => false

theorem of_returning {ok : Call → Display → (o : Op) → Luck → Bool} {awake : Bool}
    (h : ∃ s p, display.Reach ok s p ∧ returning awake (s, p) = true) :
    ∃ s s₀, display.Reach ok s (some ⟨.enable, s₀, .ret ()⟩) ∧
      decide s.panel.Awake = awake := by
  obtain ⟨s, p, hr, hp⟩ := h
  unfold returning at hp
  split at hp
  · rename_i t t₀ heq
    simp only [Prod.mk.injEq] at heq
    obtain ⟨rfl, rfl⟩ := heq
    exact ⟨s, t₀, hr, of_decide_eq_true hp⟩
  · exact absurd hp (by simp)

theorem panel_wakes_after_off : ∃ s s₀,
    display.Reach sendsNeeded s (some ⟨.enable, s₀, .ret ()⟩) ∧ s.panel.Awake := by
  have hrun : (display.exec sendsNeeded
      (onAndOff ++ .start .enable :: List.replicate 26 (.op smooth)) (adopted, none)).any
      (returning true) = true := by decide +kernel
  obtain ⟨s, s₀, hr, -⟩ :=
    of_returning (System.reach_of_exec (Y := display) boot_adopted _ _ hrun)
  exact ⟨s, s₀, hr, panel_wakes hr⟩

/-- **The panel stays dark.**  `panel_sleep` is switched off while the display is off; the next
enable does not send `exit_sleep_mode`. -/
theorem panel_left_asleep : ∃ s s₀,
    display.Reach System.anyStep s (some ⟨.enable, s₀, .ret ()⟩) ∧ ¬ s.panel.Awake := by
  have hrun : (display.exec System.anyStep
      (onAndOff ++ .env (.store .sleep false) :: .start .enable ::
        List.replicate 20 (.op smooth)) (adopted, none)).any (returning false) = true := by
    decide +kernel
  obtain ⟨s, s₀, hr, hdark⟩ :=
    of_returning (System.reach_of_exec (Y := display) boot_adopted _ _ hrun)
  exact ⟨s, s₀, hr, by simpa using hdark⟩

end S9p.Decon
