/-
# The display pipe

`s9p-decon.c` adopts the pipeline the bootloader left running.  It owns the base address DECON
fetches from, the request that makes a new base address visible, and the DCS packets that turn
the panel off and on.

This module holds the registers it touches, the panel behind DSIM, and the three operations of
the pipe: `enable`, `update` and `disable`.  Two things happen without it: a requested shadow
update latches at some TE edge, and the two module parameters are written at run time.

A `readl_poll_timeout` is modelled by its last read, and a sleep by the moment it ends.  Before
each operation the DRM core puts the plane's new state in place (`swapState`); the framebuffer
that was there before may be freed once the operation has returned.
-/
import Mathlib.Data.BitVec
import Mathlib.Logic.Function.Basic
import S9p.Lib.Prog
import S9p.Lib.Field

namespace S9p.Decon

open Field

/-! ## 1. Registers, buffers and the panel

DECON fetches from an address pair, one half for luma and one for chroma, and uses the pair that
latched last.  The panel is told apart by the two DCS states only. -/

abbrev Word := BitVec 32

/-- The framebuffer sboot scans out. -/
def S9P_SBOOT_FB_BASE : Word := 0xcc000000#32

def DECON_FRAME_START_INT_EN : Word := 1#32 <<< 12
def DECON_INT_EN : Word := 1#32 <<< 0
def DECON_HW_TRIG_EN : Word := 1#32 <<< 0
def DECON_HW_TRIG_MASK_DECON : Word := 1#32 <<< 4
def DECON_MAX_WIN : Nat := 6
def DSIM_INTSRC_PH_FIFO_EMPTY : Word := 1#32 <<< 28

def MIPI_DCS_SHORT_WRITE : BitVec 8 := 0x05
def MIPI_DCS_ENTER_SLEEP_MODE : BitVec 8 := 0x10
def MIPI_DCS_EXIT_SLEEP_MODE : BitVec 8 := 0x11
def MIPI_DCS_SET_DISPLAY_OFF : BitVec 8 := 0x28
def MIPI_DCS_SET_DISPLAY_ON : BitVec 8 := 0x29

def PANEL_SLEEP_DELAY_MS : Nat := 120
def PANEL_FRAME_DELAY_MS : Nat := 20

/-- The registers of DECON, of the live DMA channel (its base address pair) and of DSIM. -/
inductive Reg where
  | interruptEnable
  | shadowRegUpdateReq
  | hwSwTrigControl
  | baseAddrY
  | baseAddrC
  | dsimIntsrc
  | dsimPkthdr
  deriving DecidableEq

/-- The memory of a framebuffer.  The device's DMA mask is the default one of 32 bits. -/
structure DmaBuf where
  dmaAddr : BitVec 64
  mask32 : dmaAddr.toNat < 2 ^ 32

/-- What the panel is told by DCS: sleep-in or sleep-out, display on or off. -/
structure Panel where
  sleeping : Bool
  displayOn : Bool
  deriving DecidableEq

/-- Sleep-out, and displaying. -/
def Panel.Awake (p : Panel) : Prop := p.sleeping = false ∧ p.displayOn = true

instance (p : Panel) : Decidable p.Awake := inferInstanceAs (Decidable (_ ∧ _))

/-- A DCS command. -/
def Panel.dcs (p : Panel) (command : BitVec 8) : Panel :=
  if command = MIPI_DCS_ENTER_SLEEP_MODE then { p with sleeping := true }
  else if command = MIPI_DCS_EXIT_SLEEP_MODE then { p with sleeping := false }
  else if command = MIPI_DCS_SET_DISPLAY_OFF then { p with displayOn := false }
  else if command = MIPI_DCS_SET_DISPLAY_ON then { p with displayOn := true }
  else p

/-- A packet header in the FIFO: data type, then two data bytes. -/
def Panel.packet (p : Panel) (v : Word) : Panel :=
  if (field 0 0x3f#32 v).setWidth 8 = MIPI_DCS_SHORT_WRITE then
    p.dcs ((field 8 0xff#32 v).setWidth 8)
  else p

/-! ## 2. The state and the operations on it

What the driver keeps about the pipe is read once at the beginning of an operation.  The two module
parameters are read where the source reads them, as they may change in between. -/

/-- The part of `struct s9p_decon` the pipe reads: whether DSIM is mapped, the live window, the
two facts of the stock device tree, `enabled`, and the black frame (0 if there is none). -/
structure Priv where
  dsim : Bool
  win : Fin DECON_MAX_WIN
  commandMode : Bool
  hwTrigger : Bool
  enabled : Bool
  blackDma : BitVec 64

/-- The module parameters `panel_dcs` and `panel_sleep`. -/
inductive Switch where
  | dcs
  | sleep
  deriving DecidableEq

/-- The driver's data, and the hardware behind it: what the registers hold, what DECON fetches from,
how far the panel is. -/
structure Display where
  priv : Priv
  switch : Switch → Bool
  /-- the registers as last written -/
  regs : Reg → Word
  /-- the shadow update of the live window has been requested and has not latched -/
  pending : Bool
  /-- the base address pair DECON fetches from -/
  activeY : Word
  activeC : Word
  panel : Panel
  /-- `pipe.plane.state->fb` -/
  fb : Option DmaBuf

/-- `s9p_shadow_mask`. -/
def Priv.shadowMask (k : Priv) : Word := 1#32 <<< k.win.val

/-- Calls into the kernel that do not touch what is modelled here. -/
inductive Kernel where
  | vblankOn
  | vblankOff
  | vblankGet
  | armVblankEvent
  | sendVblankEvent
  deriving DecidableEq

/-- Every access of the driver to its data, to a register or to the kernel is an operation, so that
something may happen in between. -/
inductive Op where
  | get
  | setEnabled (b : Bool)
  /-- a parameter is read, to decide about the packet `command` -/
  | param (p : Switch) (command : BitVec 8)
  | planeFb
  | swapState (fb : Option DmaBuf)
  | rd (r : Reg)
  | wr (r : Reg) (v : Word)
  /-- the last read of a wait for the bits `mask` to be set or clear -/
  | poll (r : Reg) (mask : Word) (set : Bool)
  | msleep (ms : Nat)
  | kernel (what : Kernel)
  | oops

@[reducible] def Ans : Op → Type
  | .get => Priv
  | .param _ _ => Bool
  | .planeFb => Option DmaBuf
  | .rd _ => Word
  | .poll _ _ _ => Word
  | .kernel _ => Int
  | .oops => Empty
  | _ => Unit

/-- What is decided outside: the state of the packet FIFO, and what a kernel call returns. -/
structure Luck where
  fifoEmpty : Bool
  ret : Int

/-- What a register shows. -/
def Display.shows (s : Display) (l : Luck) : Reg → Word
  | .shadowRegUpdateReq => if s.pending then s.priv.shadowMask else 0#32
  | .dsimIntsrc => if l.fifoEmpty then DSIM_INTSRC_PH_FIFO_EMPTY else 0#32
  | r => s.regs r

/-- What a write does besides being remembered. -/
def Display.write (s : Display) (v : Word) : Reg → Display
  | .shadowRegUpdateReq => { s with pending := s.pending || decide (v &&& s.priv.shadowMask ≠ 0) }
  | .dsimPkthdr => { s with panel := s.panel.packet v }
  | r => { s with regs := Function.update s.regs r v }

/-- **What an operation does.**  Luck decides what the hardware's bits show and what the kernel
returns. -/
def act : (o : Op) → Luck → Display → Option (Ans o × Display)
  | .get, _, s => some (s.priv, s)
  | .setEnabled b, _, s => some ((), { s with priv := { s.priv with enabled := b } })
  | .param p _, _, s => some (s.switch p, s)
  | .planeFb, _, s => some (s.fb, s)
  | .swapState fb, _, s => some ((), { s with fb := fb })
  | .rd r, l, s => some (s.shows l r, s)
  | .wr r v, _, s => some ((), s.write v r)
  | .poll r _ _, l, s => some (s.shows l r, s)
  | .msleep _, _, s => some ((), s)
  | .kernel _, l, s => some (l.ret, s)
  | .oops, _, _ => none

/-- What happens on its own. -/
inductive Env where
  | latch
  | store (p : Switch) (b : Bool)

def outside : Env → Display → Option Display
  | .latch, s =>
      if s.pending then
        some { s with
          pending := false, activeY := s.regs .baseAddrY, activeC := s.regs .baseAddrC }
      else none
  | .store p b, s => some { s with switch := Function.update s.switch p b }

abbrev P := Prog Op Ans

def get : P Priv := .perform Op.get
def setEnabled (b : Bool) : P Unit := .perform (Op.setEnabled b)
def param (p : Switch) (command : BitVec 8) : P Bool := .perform (Op.param p command)
def planeFb : P (Option DmaBuf) := .perform Op.planeFb
def swapState (fb : Option DmaBuf) : P Unit := .perform (Op.swapState fb)
def rd (r : Reg) : P Word := .perform (Op.rd r)
def wr (r : Reg) (v : Word) : P Unit := .perform (Op.wr r v)
def poll (r : Reg) (mask : Word) (set : Bool) : P Word := .perform (Op.poll r mask set)
def msleep (ms : Nat) : P Unit := .perform (Op.msleep ms)
def kernel (what : Kernel) : P Int := .perform (Op.kernel what)
def oops {α : Type} : P α := .op Op.oops (fun e => nomatch e)

/-! ## 3. Scanout

A new address becomes visible in two steps: it is written and requested, and at some TE edge it
latches.  A wait for that may time out. -/

def ETIMEDOUT : Int := 110

/-- `s9p_wait_shadow_idle`. -/
def waitShadowIdle : P Int := do
  let k ← get
  let v ← poll .shadowRegUpdateReq k.shadowMask false
  return if v &&& k.shadowMask = 0 then 0 else -ETIMEDOUT

/-- `s9p_hw_trigger_unmask`. -/
def hwTriggerUnmask : P Unit := do
  let k ← get
  if !k.commandMode ∨ !k.hwTrigger then return ()
  else do
    let v ← rd .hwSwTrigControl
    wr .hwSwTrigControl ((v ||| DECON_HW_TRIG_EN) &&& ~~~DECON_HW_TRIG_MASK_DECON)

/-- `s9p_decon_program_address`. -/
def programAddress (addr : BitVec 64) : P Unit := do
  wr .baseAddrY (addr.setWidth 32)
  wr .baseAddrC (addr.setWidth 32)
  let k ← get
  wr .shadowRegUpdateReq k.shadowMask
  hwTriggerUnmask

/-- `s9p_frame_start_irq_set`. -/
def frameStartIrqSet (on : Bool) : P Unit := do
  let v ← rd .interruptEnable
  if on then wr .interruptEnable (v ||| (DECON_INT_EN ||| DECON_FRAME_START_INT_EN))
  else wr .interruptEnable (v &&& ~~~(DECON_INT_EN ||| DECON_FRAME_START_INT_EN))

/-! ## 4. The panel

Each packet is one write to a FIFO and a wait for it to empty.  Nothing comes back from the panel,
and a wait that times out is only logged. -/

/-- The header of a DCS short write without parameter. -/
def pktHdr (command : BitVec 8) : Word :=
  (MIPI_DCS_SHORT_WRITE.setWidth 32 <<< 0) ||| (command.setWidth 32 <<< 8) ||| (0#32 <<< 16)

/-- `s9p_decon_dcs`; a FIFO that does not empty is only logged. -/
def dcs (command : BitVec 8) : P Unit := do
  let k ← get
  if !k.dsim then return ()
  else do
    let panelDcs ← param .dcs command
    if !panelDcs then return ()
    else do
      wr .dsimIntsrc DSIM_INTSRC_PH_FIFO_EMPTY
      wr .dsimPkthdr (pktHdr command)
      let _ ← poll .dsimIntsrc DSIM_INTSRC_PH_FIFO_EMPTY true
      return ()

/-- `s9p_panel_down`. -/
def panelDown : P Unit := do
  dcs MIPI_DCS_SET_DISPLAY_OFF
  let panelSleep ← param .sleep MIPI_DCS_ENTER_SLEEP_MODE
  if !panelSleep then return ()
  else do
    msleep PANEL_FRAME_DELAY_MS
    dcs MIPI_DCS_ENTER_SLEEP_MODE
    msleep PANEL_SLEEP_DELAY_MS

/-- The first half of `s9p_panel_up`. -/
def panelWake : P Unit := do
  let panelSleep ← param .sleep MIPI_DCS_EXIT_SLEEP_MODE
  if panelSleep then do
    dcs MIPI_DCS_EXIT_SLEEP_MODE
    msleep PANEL_SLEEP_DELAY_MS
  else return ()

/-- `s9p_panel_up`. -/
def panelUp : P Unit := do
  panelWake
  dcs MIPI_DCS_SET_DISPLAY_ON

/-! ## 5. The operations of the pipe

The DRM core calls these three, one at a time.  `disable` shows a black frame first, if there is
one, so that the plane's own buffer is no longer fetched. -/

/-- What `s9p_decon_pipe_enable` does once the panel is up. -/
def enableScanout : P Unit := do
  let fb ← planeFb
  match fb with
  | none => oops
  | some obj => do
    let _ ← waitShadowIdle
    programAddress obj.dmaAddr
    frameStartIrqSet true
    setEnabled true
    let _ ← kernel .vblankOn
    return ()

/-- `s9p_decon_pipe_enable`. -/
def pipeEnable : P Unit := do
  panelUp
  enableScanout

/-- The end of `s9p_decon_blank`: half of the pair is left on the plane's own buffer. -/
def repoint (fb : Option DmaBuf) : P Unit :=
  match fb with
  | none => return ()
  | some obj => do
    let ret ← waitShadowIdle
    if ret ≠ 0 then return () else wr .baseAddrY (obj.dmaAddr.setWidth 32)

/-- `s9p_decon_blank`. -/
def blank : P Unit := do
  let fb ← planeFb
  let k ← get
  if k.blackDma = 0 then return ()
  else do
    let ret ← waitShadowIdle
    if ret ≠ 0 then return ()
    else do
      programAddress k.blackDma
      msleep 50
      panelDown
      repoint fb

/-- `s9p_decon_pipe_disable`. -/
def pipeDisable : P Unit := do
  let _ ← kernel .vblankOff
  blank
  frameStartIrqSet false
  setEnabled false

/-- The flip of `s9p_decon_pipe_update`; a wait that times out is only logged. -/
def flip (obj : DmaBuf) : P Unit := do
  let ret ← waitShadowIdle
  if ret ≠ 0 then return ()
  else do
    programAddress obj.dmaAddr
    let _ ← waitShadowIdle
    return ()

/-- The completion event of a commit, if there is one. -/
def finishEvent (event active : Bool) : P Unit :=
  if !event then return ()
  else if !active then do
    let _ ← kernel .sendVblankEvent
    return ()
  else do
    let ret ← kernel .vblankGet
    let _ ← kernel (if ret = 0 then .armVblankEvent else .sendVblankEvent)
    return ()

/-- The plane's framebuffer is flipped to, if there is one and the pipe runs. -/
def flipPlane (fb : Option DmaBuf) (enabled : Bool) : P Unit :=
  match fb with
  | none => return ()
  | some obj => if enabled then flip obj else return ()

/-- `s9p_decon_pipe_update`. -/
def pipeUpdate (event active : Bool) : P Unit := do
  let fb ← planeFb
  let k ← get
  flipPlane fb k.enabled
  finishEvent event active

/-! ## 6. The pipe as a system

Between two calls the plane's state is replaced, and the framebuffer that was there may be freed.
The order of the calls is the core's. -/

/-- What the DRM core calls, with the framebuffer of the plane's new state. -/
inductive Call where
  | enable
  | update (fb : Option DmaBuf) (event active : Bool)
  | disable (fb : Option DmaBuf)

/-- The three callbacks; the core puts the framebuffer into the plane's state before it calls
`update`. -/
def program : Call → P Unit
  | .enable => pipeEnable
  | .update fb event active => do
    swapState fb
    pipeUpdate event active
  | .disable fb => do
    swapState fb
    pipeDisable

/-- A plane has a framebuffer whenever its pipe runs or is about to. -/
def enabled : Call → Display → Bool
  | .enable, s => s.fb.isSome
  | .update fb _ _, s => fb.isSome || !s.priv.enabled
  | .disable _, _ => true

/-- The pipe as the probe leaves it: sboot's framebuffer is scanned out, the panel is on, and
the black frame may or may not have been allocated. -/
structure Boot (s : Display) : Prop where
  activeY : s.activeY = S9P_SBOOT_FB_BASE
  activeC : s.activeC = S9P_SBOOT_FB_BASE
  idle : s.pending = false
  awake : s.panel.Awake
  off : s.priv.enabled = false
  fb : s.fb = none
  black : s.priv.blackDma.toNat < 2 ^ 32

def display : System Op Ans Display Env Luck Call Unit where
  env := outside
  act := act
  init := Boot
  enabled := enabled
  call := program

/-! ## 7. What happens on its own

Each module after this one looks at a part of the state.  What is not in that part cannot matter to
it, and these lemmas say what can. -/

/-- Nothing but the request, the active pair and the parameters changes by itself. -/
theorem outside_frame {e : Env} {s t : Display} (h : outside e s = some t) :
    t.priv = s.priv ∧ t.panel = s.panel ∧ t.regs = s.regs ∧ t.fb = s.fb := by
  cases e with
  | latch =>
    simp only [outside] at h
    split at h
    · simp only [Option.some.injEq] at h
      subst h
      exact ⟨rfl, rfl, rfl, rfl⟩
    · exact absurd h (by simp)
  | store p b =>
    simp only [outside, Option.some.injEq] at h
    subst h
    exact ⟨rfl, rfl, rfl, rfl⟩

/-- Operations that concern neither scanout nor the panel. -/
def Plain : Op → Prop
  | .get => True
  | .rd _ => True
  | .wr .interruptEnable _ => True
  | .wr .hwSwTrigControl _ => True
  | .kernel _ => True
  | _ => False

theorem plain_frameStartIrqSet (on : Bool) : (frameStartIrqSet on).Uses Plain := by
  simp only [frameStartIrqSet, rd, Prog.perform_bind]
  refine ⟨trivial, fun v => ?_⟩
  dsimp only
  split
  · exact ⟨trivial, fun _ => trivial⟩
  · exact ⟨trivial, fun _ => trivial⟩

theorem plain_hwTriggerUnmask : hwTriggerUnmask.Uses Plain := by
  simp only [hwTriggerUnmask, get, rd, Prog.perform_bind]
  refine ⟨trivial, fun k => ?_⟩
  dsimp only
  split
  · trivial
  · exact ⟨trivial, fun _ => ⟨trivial, fun _ => trivial⟩⟩

theorem plain_finishEvent (event active : Bool) : (finishEvent event active).Uses Plain := by
  unfold finishEvent
  split
  · trivial
  · split
    · exact ⟨trivial, fun _ => trivial⟩
    · exact ⟨trivial, fun _ => ⟨trivial, fun _ => trivial⟩⟩

/-- What a packet of `s9p_decon_dcs` does. -/
theorem packet_pktHdr (p : Panel) (command : BitVec 8) :
    p.packet (pktHdr command) = p.dcs command := by
  have hid : field 0 0x3f#32 (pktHdr command) = 0x05#32 := by
    simp only [pktHdr, field_or]
    rw [field_shift_outside (n := 8) (by decide), field_shift_outside (n := 16) (by decide)]
    decide
  have hdata : field 8 0xff#32 (pktHdr command) = command.setWidth 32 &&& 0xff#32 := by
    simp only [pktHdr, field_or]
    rw [field_shift (by decide), field_shift_outside (n := 16) (by decide),
      show field 8 0xff#32 (MIPI_DCS_SHORT_WRITE.setWidth 32 <<< 0) = 0#32 by decide]
    simp
  have hbyte : (command.setWidth 32 &&& 0xff#32).setWidth 8 = command := by
    rw [BitVec.setWidth_and, BitVec.setWidth_setWidth_of_le _ (by decide), BitVec.setWidth_eq,
      show (0xff#32).setWidth 8 = BitVec.allOnes 8 by decide, BitVec.and_allOnes]
  unfold Panel.packet
  rw [hid, hdata, hbyte, if_pos (by decide)]

end S9p.Decon
