/-
# The frame start interrupt

DECON has three interrupt lines and one handler for all of them.  The kernel may run the handler of
different lines on different cores at the same time, so one frame start may be read by several of
them before the first clears it.

* `frameStarts_kept`: however the handlers interleave, no frame start is lost; but the DRM core may
  be told of one once by each line.
-/
import S9p.Decon.Pipe
import S9p.Lib.Latch
import S9p.Lib.Parallel

namespace S9p.Decon.Irq

open Device SharedLatch

/-! ## 1. The handler

The handler reads the pending registers, clears what it has seen and reports the frame start.  The
lines have no lock in common. -/

def DECON_FRAME_START_INT_PEND : Word := BitVec.twoPow 32 12
def DECON_FRAME_DONE_INT_PEND : Word := BitVec.twoPow 32 13
def DECON_EXTRA_INT_PEND : Word := BitVec.twoPow 32 4

inductive PendReg where
  | interruptPending
  | extraInterruptPending

/-- The accesses of a handler, and its call into the DRM core. -/
inductive IrqOp where
  | readl (reg : PendReg)
  | writel (val : Word) (reg : PendReg)
  | drmCrtcHandleVblank

@[reducible] def IrqAns : IrqOp → Type
  | .readl _ => Word
  | _ => Unit

abbrev IrqProg := Prog IrqOp IrqAns

def perform (o : IrqOp) : IrqProg (IrqAns o) := Prog.perform o

def readl (reg : PendReg) : IrqProg Word := perform (.readl reg)

def writel (val : Word) (reg : PendReg) : IrqProg Unit := perform (.writel val reg)

/-- The frame start is cleared first and reported then; one that is raised in between stays. -/
def frameStart (pend : Word) : IrqProg Unit :=
  if pend &&& DECON_FRAME_START_INT_PEND ≠ 0#32 then do
    writel DECON_FRAME_START_INT_PEND .interruptPending
    perform .drmCrtcHandleVblank
  else pure ()

def frameDone (pend : Word) : IrqProg Unit :=
  if pend &&& DECON_FRAME_DONE_INT_PEND ≠ 0#32 then
    writel DECON_FRAME_DONE_INT_PEND .interruptPending
  else pure ()

/-- The extra interrupts are cleared in both registers, and are not looked at. -/
def extra (pend : Word) : IrqProg Unit :=
  if pend &&& DECON_EXTRA_INT_PEND ≠ 0#32 then do
    let ext ← readl .extraInterruptPending
    writel DECON_EXTRA_INT_PEND .interruptPending
    writel ext .extraInterruptPending
  else pure ()

/-- `s9p_decon_irq`. -/
def deconIrq : IrqProg Unit := do
  let pend ← readl .interruptPending
  frameStart pend
  frameDone pend
  extra pend

/-- The handler of one line does not run twice at the same time. -/
def handlerRuns : Nat → IrqProg Unit
  | 0 => pure ()
  | n + 1 => do
    deconIrq
    handlerRuns n

/-! ## 2. The block

A frame start sets its bit whether or not it is set already.  So two starts with no read between
them are one, and are reported as one. -/

variable {κ : Type}

/-- The pending registers; how many frames have started and of how many the DRM core has been told,
whether one has started since it was last told, which lines' handlers have read one and not told it
yet, and which have read the one that is pending.  All but the two registers is history: no handler
reads a count.  They are what "lost" and "made up" are said with. -/
structure Block (κ : Type) where
  pending : Word
  extraPending : Word
  frames : Nat
  vblanks : Nat
  owed : Bool
  hold : κ → Bool
  took : κ → Bool

def Block.latch (b : Block κ) : SharedLatch κ where
  set := b.pending.getLsbD 12
  raised := b.frames
  served := b.vblanks
  owed := b.owed
  hold := b.hold
  took := b.took

/-- What the hardware does by itself: a frame starts, or other bits come up. -/
inductive Event where
  | frame
  | other (pend ext : Word)

def Block.event (b : Block κ) : Event → Block κ
  | .frame =>
    { b with
      pending := b.pending ||| DECON_FRAME_START_INT_PEND
      frames := b.frames + 1
      owed := true
      took := if b.pending.getLsbD 12 then b.took else fun _ => false }
  | .other pend ext =>
    { b with
      pending := b.pending ||| pend &&& ~~~DECON_FRAME_START_INT_PEND
      extraPending := b.extraPending ||| ext }

/-- A status bit is cleared by writing it. -/
def Block.write (b : Block κ) (val : Word) : PendReg → Block κ
  | .interruptPending => { b with pending := b.pending &&& ~~~val }
  | .extraInterruptPending => { b with extraPending := b.extraPending &&& ~~~val }

section Device

variable [DecidableEq κ]

/-- The pending register as one of the handlers reads it. -/
def Block.read (b : Block κ) (l : κ) : Block κ :=
  if b.pending.getLsbD 12 then
    { b with hold := Function.update b.hold l true, took := Function.update b.took l true }
  else b

def Block.vblank (b : Block κ) (l : κ) : Block κ :=
  { b with vblanks := b.vblanks + 1, owed := false, hold := Function.update b.hold l false }

/-- What an access of the handler of line `l` does. -/
def act (l : κ) (b : Block κ) : (o : IrqOp) → IrqAns o × Block κ
  | .readl .interruptPending => (b.pending, b.read l)
  | .readl .extraInterruptPending => (b.extraPending, b)
  | .writel val reg => ((), b.write val reg)
  | .drmCrtcHandleVblank => ((), b.vblank l)

def decon : Shared κ IrqOp IrqAns (Block κ) Event Unit where
  env := fun e b => some (b.event e)
  act := fun l o _ b => some (act l b o)

end Device

/-- Before the first handler runs. -/
structure Start (b : Block κ) : Prop where
  frames : b.frames = b.latch.set.toNat
  vblanks : b.vblanks = 0
  owed : b.owed = b.latch.set
  hold : b.hold = fun _ => false
  took : b.took = fun _ => false

/-! ## 3. The latch of the frame start

The bit is a latch with several servers, one for each line.  `SharedLatch` is the abstract account
of it, and the counts are history. -/

variable {b : Block κ} {pend val : Word}

theorem test_frame : pend &&& DECON_FRAME_START_INT_PEND ≠ 0#32 ↔ pend.getLsbD 12 = true :=
  Field.and_twoPow_ne_zero (by decide)

theorem latch_frame (b : Block κ) : (b.event .frame).latch = b.latch.raise := by
  have hbit : (b.pending ||| DECON_FRAME_START_INT_PEND).getLsbD 12 = true := by
    rw [BitVec.getLsbD_or, show DECON_FRAME_START_INT_PEND.getLsbD 12 = true by decide,
      Bool.or_true]
  simp only [Block.latch, Block.event, SharedLatch.raise, hbit]
  rfl

theorem latch_other (b : Block κ) (x y : Word) : (b.event (.other x y)).latch = b.latch := by
  have hbit : (b.pending ||| x &&& ~~~DECON_FRAME_START_INT_PEND).getLsbD 12 =
      b.pending.getLsbD 12 := by
    rw [BitVec.getLsbD_or, BitVec.getLsbD_and,
      show (~~~DECON_FRAME_START_INT_PEND).getLsbD 12 = false by decide, Bool.and_false,
        Bool.or_false]
  simp only [Block.latch, Block.event, hbit]

theorem latch_clear (b : Block κ) :
    (b.write DECON_FRAME_START_INT_PEND .interruptPending).latch = b.latch.clear := by
  have hbit : (b.pending &&& ~~~DECON_FRAME_START_INT_PEND).getLsbD 12 = false := by
    rw [BitVec.getLsbD_and, show (~~~DECON_FRAME_START_INT_PEND).getLsbD 12 = false by decide,
      Bool.and_false]
  simp only [Block.latch, Block.write, SharedLatch.clear, hbit]

/-- The other sources have other bits. -/
theorem latch_write {reg : PendReg} (h : reg = .interruptPending → val.getLsbD 12 = false) :
    (b.write val reg).latch = b.latch := by
  cases reg with
  | extraInterruptPending => rfl
  | interruptPending =>
    have hbit : (b.pending &&& ~~~val).getLsbD 12 = b.pending.getLsbD 12 := by
      rw [BitVec.getLsbD_and, BitVec.getLsbD_not, h rfl, Bool.not_false]
      simp
    simp only [Block.latch, Block.write, hbit]

/-- A handler that has not read the frame start that is pending. -/
def Fresh (l : κ) (x : SharedLatch κ) : Prop := x.set = true → x.took l = false

theorem latch_read [DecidableEq κ] (b : Block κ) (l : κ) : (b.read l).latch = b.latch.take l := by
  unfold Block.read SharedLatch.take
  by_cases h : b.pending.getLsbD 12 = true
  · simp only [Block.latch, h, if_true]
  · simp only [Block.latch, h, if_false, Bool.false_eq_true]

theorem latch_vblank [DecidableEq κ] (b : Block κ) (l : κ) : (b.vblank l).latch = b.latch.serve l :=
  rfl

theorem fresh_raise {l : κ} {x : SharedLatch κ} (h : Fresh l x) : Fresh l x.raise := by
  intro _
  simp only [SharedLatch.raise]
  split
  · exact h ‹_›
  · rfl

theorem fresh_clear (l : κ) (x : SharedLatch κ) : Fresh l x.clear :=
  fun h => absurd h (by simp [clear])

theorem kept_event [Fintype κ] {e : Event} (h : b.latch.Kept) : (b.event e).latch.Kept := by
  cases e with
  | frame => exact latch_frame b ▸ h.raise
  | other x y => exact latch_other b x y ▸ h

theorem fresh_event {l : κ} {e : Event} (h : Fresh l b.latch) : Fresh l (b.event e).latch := by
  cases e with
  | frame => exact latch_frame b ▸ fresh_raise h
  | other x y => exact latch_other b x y ▸ h

theorem hold_event (b : Block κ) (e : Event) : (b.event e).hold = b.hold := by
  cases e <;> rfl

/-! ## 4. One handler

From one handler's point of view the others may read, clear and report at any time.  What it holds
itself they leave alone. -/

section Handler

variable [Fintype κ] [DecidableEq κ] {l : κ}

/-- What the handler of one line leaves to the others. -/
structure Spares (l : κ) (b c : Block κ) : Prop where
  kept : c.latch.Kept
  hold : ∀ j, j ≠ l → c.hold j = b.hold j
  fresh : ∀ j, j ≠ l → Fresh j b.latch → Fresh j c.latch

/-- Between two runs, or with nothing read. -/
structure Idle (l : κ) (b : Block κ) : Prop where
  kept : b.latch.Kept
  hold : b.hold l = false
  fresh : Fresh l b.latch

/-- With a frame start read and yet to be cleared. -/
structure Window (l : κ) (b : Block κ) : Prop where
  kept : b.latch.Kept
  hold : b.hold l = true

/-- With a frame start cleared and yet to be told. -/
structure Holding (l : κ) (b : Block κ) : Prop where
  kept : b.latch.Kept
  hold : b.hold l = true
  fresh : Fresh l b.latch

theorem idle_stable (l : κ) : (decon.view Spares l).Stable (Idle l) := by
  refine Shared.view_stable ?_ (fun j s t hj hG h => ?_)
  · rintro e s _ ⟨⟩ h
    exact ⟨kept_event h.kept, (congrFun (hold_event s e) l).trans h.hold, fresh_event h.fresh⟩
  · exact ⟨hG.kept, (hG.hold l hj.symm).trans h.hold, hG.fresh l hj.symm h.fresh⟩

theorem window_stable (l : κ) : (decon.view Spares l).Stable (Window l) := by
  refine Shared.view_stable ?_ (fun j s t hj hG h => ?_)
  · rintro e s _ ⟨⟩ h
    exact ⟨kept_event h.kept, (congrFun (hold_event s e) l).trans h.hold⟩
  · exact ⟨hG.kept, (hG.hold l hj.symm).trans h.hold⟩

theorem holding_stable (l : κ) : (decon.view Spares l).Stable (Holding l) := by
  refine Shared.view_stable ?_ (fun j s t hj hG h => ?_)
  · rintro e s _ ⟨⟩ h
    exact ⟨kept_event h.kept, (congrFun (hold_event s e) l).trans h.hold, fresh_event h.fresh⟩
  · exact ⟨hG.kept, (hG.hold l hj.symm).trans h.hold, hG.fresh l hj.symm h.fresh⟩

/-- What is asked of each step: the latch is kept, and the others are spared. -/
def Good (l : κ) (b : Block κ) (o : Option IrqOp) : Prop := b.latch.Kept ∧ decon.Keeps Spares l b o

theorem good_of {o : IrqOp} (h : b.latch.Kept) (hspares : Spares l b (act l b o).2) :
    Good l b (some o) := by
  refine ⟨h, fun _ r t hact => ?_⟩
  obtain rfl : (act l b o).2 = t := (Prod.mk.inj (Option.some.inj hact)).2
  exact hspares

/-- **A read.** -/
theorem Idle.read (h : Idle l b) : Spares l b (b.read l) ∧
    if b.pending.getLsbD 12 then Window l (b.read l) else Idle l (b.read l) := by
  have hkept : (b.read l).latch.Kept := latch_read b l ▸ h.kept.take h.hold h.fresh
  by_cases hset : b.pending.getLsbD 12 = true
  · rw [if_pos hset]
    have hread : b.read l = { b with
        hold := Function.update b.hold l true, took := Function.update b.took l true } :=
          if_pos hset
    refine ⟨⟨hkept, fun j hj => ?_, fun j hj hfresh hc => ?_⟩, ⟨hkept, ?_⟩⟩
    · simp only [hread, Function.update_of_ne hj]
    · have htook := hfresh hset
      rw [hread]
      exact (Function.update_of_ne hj ..).trans htook
    · simp only [hread, Function.update_self]
  · have hread : b.read l = b := if_neg hset
    rw [if_neg hset, hread]
    exact ⟨⟨h.kept, fun _ _ => rfl, fun _ _ hfresh => hfresh⟩, h⟩

omit [DecidableEq κ] in
/-- **The frame start is cleared**, whether it is the one that was read or a later one. -/
theorem Window.clear (h : Window l b) :
    Spares l b (b.write DECON_FRAME_START_INT_PEND .interruptPending) ∧
      Holding l (b.write DECON_FRAME_START_INT_PEND .interruptPending) := by
  have hkept : (b.write DECON_FRAME_START_INT_PEND .interruptPending).latch.Kept :=
    latch_clear b ▸ h.kept.clear (k := l) h.hold
  have hfresh : ∀ j, Fresh j (b.write DECON_FRAME_START_INT_PEND .interruptPending).latch :=
    fun j => latch_clear b ▸ fresh_clear j b.latch
  exact ⟨⟨hkept, fun _ _ => rfl, fun j _ _ => hfresh j⟩, ⟨hkept, h.hold, hfresh l⟩⟩

theorem Holding.vblank (h : Holding l b) : Spares l b (b.vblank l) ∧ Idle l (b.vblank l) := by
  have hkept : (b.vblank l).latch.Kept := latch_vblank b l ▸ h.kept.serve h.hold
  refine ⟨⟨hkept, fun j hj => ?_, fun _ _ hfresh => hfresh⟩, ⟨hkept, ?_, h.fresh⟩⟩
  · exact Function.update_of_ne hj ..
  · exact Function.update_self ..

omit [DecidableEq κ] in
/-- A write to other bits. -/
theorem Idle.write {reg : PendReg} (h : Idle l b)
    (hval : reg = .interruptPending → val.getLsbD 12 = false) :
    Spares l b (b.write val reg) ∧ Idle l (b.write val reg) := by
  have hlatch : (b.write val reg).latch = b.latch := latch_write hval
  have hhold : (b.write val reg).hold = b.hold := congrArg SharedLatch.hold hlatch
  exact ⟨⟨hlatch ▸ h.kept, fun j _ => congrFun hhold j, fun _ _ hfresh => hlatch ▸ hfresh⟩,
    ⟨hlatch ▸ h.kept, (congrFun hhold l).trans h.hold, hlatch ▸ h.fresh⟩⟩

/-- A program that leaves the handler between two runs. -/
def Keeps (l : κ) (p : IrqProg Unit) : Prop :=
  ∀ b, Idle l b → wp (decon.view Spares l) Shared.anyOp (Good l) p (fun _ => Idle l) b

theorem Keeps.bind {p : IrqProg Unit} {q : Unit → IrqProg Unit} (hp : Keeps l p)
    (hq : Keeps l (q ())) : Keeps l (p >>= q) :=
  fun b hb => wp_bind (wp_mono (fun _ t ht => hq t ht) (hp b hb))

theorem keeps_pure (l : κ) : Keeps l (pure ()) :=
  fun _ hb => wp_ret (idle_stable l) hb (fun _ ht => ⟨ht.kept, trivial⟩) (fun _ ht => ht)

theorem wp_write {reg : PendReg} {k : Unit → IrqProg Unit}
    (hval : reg = .interruptPending → val.getLsbD 12 = false) (hk : Keeps l (k ())) :
    Keeps l (.op (.writel val reg) k) := fun _ hb =>
  wp_op_eq (f := fun _ _ => ()) (g := fun _ c => c.write val reg) (fun _ _ => rfl)
    (idle_stable l) hb
    (fun _ ht => good_of ht.kept (ht.write hval).1) (fun _ _ ht _ => hk _ (ht.write hval).2)

theorem keeps_frameDone (l : κ) (pend : Word) : Keeps l (frameDone pend) := by
  unfold frameDone
  split
  · exact wp_write (fun _ => by decide) (keeps_pure l)
  · exact keeps_pure l

theorem keeps_extra (l : κ) (pend : Word) : Keeps l (extra pend) := by
  unfold extra
  split
  · intro b hb
    refine wp_op_eq (f := fun _ c => c.extraPending) (g := fun _ c => c) (fun _ _ => rfl)
      (idle_stable l) hb (fun _ ht => good_of ht.kept ⟨ht.kept, fun _ _ => rfl, fun _ _ h => h⟩) ?_
    rintro t - ht -
    exact wp_write (fun _ => by decide) (wp_write (by simp) (keeps_pure l)) t ht
  · exact keeps_pure l

/-- **The handler.** -/
theorem keeps_deconIrq (l : κ) : Keeps l deconIrq := by
  intro b hb
  refine wp_op_eq (f := fun _ c => c.pending) (g := fun _ c => c.read l) (fun _ _ => rfl)
    (idle_stable l) hb (fun _ ht => good_of ht.kept ht.read.1) ?_
  rintro t - ht -
  have hrest := (keeps_frameDone l t.pending).bind (q := fun _ => extra t.pending)
    (keeps_extra l t.pending)
  have hread := ht.read.2
  refine wp_bind (p := frameStart t.pending) ?_
  unfold frameStart
  split
  · rename_i hset
    rw [if_pos (test_frame.mp hset)] at hread
    refine wp_op_eq (f := fun _ _ => ()) (g := fun _ c => c.write DECON_FRAME_START_INT_PEND
      .interruptPending) (fun _ _ => rfl) (window_stable l) hread
      (fun _ hu => good_of hu.kept hu.clear.1) (fun u _ hu _ => ?_)
    refine wp_op_eq (f := fun _ _ => ()) (g := fun _ c => c.vblank l) (fun _ _ => rfl)
      (holding_stable l) hu.clear.2 (fun _ hv => good_of hv.kept hv.vblank.1) (fun v _ hv _ => ?_)
    exact wp_mono (fun _ w hw => hrest w hw) (keeps_pure l _ hv.vblank.2)
  · rename_i hset
    rw [if_neg (fun h => hset (test_frame.mpr h))] at hread
    exact wp_mono (fun _ w hw => hrest w hw) (keeps_pure l _ hread)

theorem keeps_handlerRuns (l : κ) (n : Nat) : Keeps l (handlerRuns n) := by
  induction n with
  | zero => exact keeps_pure l
  | succ n ih => exact (keeps_deconIrq l).bind ih

omit [DecidableEq κ] in
theorem Start.idle (h : Start b) (l : κ) : Idle l b := by
  refine ⟨⟨fun howed => .inl (h.owed ▸ howed), ?_⟩, congrFun h.hold l, fun _ => congrFun h.took l⟩
  have hhold : b.latch.hold = fun _ => false := h.hold
  have htook : b.latch.took = fun _ => false := h.took
  have hserved : b.latch.served = 0 := h.vblanks
  have hraised : b.latch.raised = b.latch.set.toNat := h.frames
  rw [hhold, htook, hserved, hraised]
  cases b.latch.set <;> simp [SharedLatch.count]

end Handler

/-! ## 5. All handlers

The bound is one report for each frame and line.  It is reached when all lines read before the first
of them clears. -/

variable {n : Nat} {q : Fin (n + 1) → IrqProg Unit} {s : Block (Fin (n + 1))}

/-- **No frame start is lost and none is made up**, however often the handlers of the lines run and
however they interleave: once all of them have returned, a frame that has started since the DRM core
was last told is pending; and it has been told at most once for each frame and line. -/
theorem frameStarts_kept {runs : Fin (n + 1) → Nat}
    (h : decon.Reach Start (fun l => handlerRuns (runs l)) s q) :
    s.vblanks ≤ (n + 1) * s.frames ∧
    ((∀ l, q l = .ret ()) → s.owed = true → s.pending.getLsbD 12 = true) := by
  have hp : ∀ l b, Start b → wp (decon.view Spares l) Shared.anyOp
      (fun s o => s.latch.Kept ∧ decon.Keeps Spares l s o) (handlerRuns (runs l))
      (fun _ => Idle l) b :=
    fun l b hb => keeps_handlerRuns l (runs l) b (hb.idle l)
  have hkept : s.latch.Kept := Shared.reach_state (S := fun _ b _ => b.latch.Kept) hp h 0
    (fun _ _ hk => hk)
  constructor
  · have hcount := hkept.count
    rw [Fintype.card_fin] at hcount
    change s.vblanks + _ + _ ≤ (n + 1) * s.frames at hcount
    omega
  · intro hret howed
    rcases hkept.owed howed with hset | ⟨l, hl⟩
    · exact hset
    · have hidle : Idle l s := Shared.reach_ret (S := fun _ b _ => b.latch.Kept) hp h (hret l)
      exact absurd (hidle.hold.symm.trans hl) (by simp)

/-- The three lines read one frame start before any of them clears it. -/
def racedTurns : List (Shared.Turn (Fin 3) Event Unit) :=
  .env .frame :: ((List.finRange 3).map (fun l => .op l ()) ++
    (List.finRange 3).flatMap (fun l => [.op l (), .op l ()]))

theorem frameStarts_kept_raced : ∃ s : Block (Fin 3),
    s.frames = 1 ∧ s.vblanks = 3 ∧ s.vblanks ≤ (2 + 1) * s.frames := by
  let init : Block (Fin 3) := ⟨0, 0, 0, 0, false, fun _ => false, fun _ => false⟩
  have hinit : Start init := ⟨by decide, rfl, by decide, rfl, rfl⟩
  obtain ⟨s, q, hreach, hs⟩ := Shared.reach_of_exec (X := decon) (p := fun _ => handlerRuns 1) hinit
    racedTurns (fun b => b.frames == 1 && b.vblanks == 3) (by decide)
  simp only [Bool.and_eq_true, beq_iff_eq] at hs
  exact ⟨s, hs.1, hs.2, (frameStarts_kept hreach).1⟩

end S9p.Decon.Irq
