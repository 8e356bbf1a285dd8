/-
# The channel in the shared SRAM

`Acpm.Channel` keeps the channel table symbolic.  Here are the words: `s9p_acpm_init` reads a
table of channels the firmware has left in the SRAM, takes the offsets of the index words and of
the two rings from the entry it picks, and every later access goes to an offset computed from
these in `u32`.  The window is mapped from `SRAM_MAP_OFF` on, and an access is an offset into it.

* `consumeRx_through`, `send_through`, `mfdXfer_through`: the driver over the words is the
  symbolic one, with each operation carried out where the channel's entry puts it (`layout`).
* `survives`: what holds whatever the SRAM contains, and what takes a table, rings and index words
  that make sense.
* `spins_on_full_index`: nothing checks them.  A front index that is no slot number keeps
  `s9p_consume_rx` in its loop for ever, and a table at 0 is read below the window.
-/
import S9p.Lib.Path
import S9p.Lib.Through
import S9p.Acpm.Queue

namespace S9p.Acpm

/-! ## 1. Words of the SRAM, registers of the mailbox

The channel is found through words of the SRAM that the firmware has written, and the driver takes
them as they are.  So a word may hold anything here, and an access may go anywhere. -/

namespace Sram

def ENOMEM : Int := 12
def SRAM_MAP_OFF : Word := 0x3000
def INITDATA : Word := 0x7f00

def INTGR0 : Word := 0x08
def INTGR1 : Word := 0x1c
def INTCR1 : Word := 0x20
def INTSR1 : Word := 0x28

def MFD_CHANNEL : BitVec 8 := 2

def FW_IPC_CHANNELS : Word := 2
def FW_IPC_AP_MAX : Word := 6

def CH_SIZE : Word := 18 * 4
def CH_ID : Word := 0
def CH_TX_REAR : Word := 4
def CH_TX_FRONT : Word := 5
def CH_TX_BASE : Word := 6
def CH_RX_REAR : Word := 10
def CH_RX_FRONT : Word := 11
def CH_RX_BASE : Word := 12
def CH_Q_LEN : Word := 13
def CH_Q_ELEM_SIZE : Word := 14

/-- The two mappings of the driver. -/
inductive Mapping where
  | mbox
  | sram
  deriving DecidableEq

/-- An access goes to an offset into its mapping.  The rest is as in `Acpm.Op`. -/
inductive Op where
  | ioremap (m : Mapping)
  | iounmap (m : Mapping)
  | setMbox (b : Bool)
  | readl (m : Mapping) (d : Word)
  | writel (m : Mapping) (d v : Word)
  | loadSeq (who : Client)
  | storeSeq (who : Client) (v : Word)
  | haveMbox
  | setReady
  | hang

@[reducible] def Ans : Op → Type
  | .ioremap _ => Bool
  | .readl _ _ => Word
  | .loadSeq _ => Word
  | .haveMbox => Bool
  | .hang => Empty
  | _ => Unit

abbrev P := Prog Op Ans

def ioremap (m : Mapping) : P Bool := .perform (Op.ioremap m)
def iounmap (m : Mapping) : P Unit := .perform (Op.iounmap m)
def setMbox (b : Bool) : P Unit := .perform (Op.setMbox b)
def readl (m : Mapping) (d : Word) : P Word := .perform (Op.readl m d)
def writel (m : Mapping) (d v : Word) : P Unit := .perform (Op.writel m d v)
def loadSeq (who : Client) : P Word := .perform (Op.loadSeq who)
def storeSeq (who : Client) (v : Word) : P Unit := .perform (Op.storeSeq who v)
def haveMbox : P Bool := .perform Op.haveMbox
def setReady : P Unit := .perform Op.setReady
def hang {α : Type} : P α := .op Op.hang (fun e => nomatch e)

/-- `sram_read`. -/
def sramRead (off : Word) : P Word := readl .sram (off - SRAM_MAP_OFF)

/-- `sram_write`. -/
def sramWrite (off v : Word) : P Unit := writel .sram (off - SRAM_MAP_OFF) v

/-- `struct s9p_ch`. -/
structure Ch where
  txRear : Word
  txFront : Word
  txBase : Word
  rxRear : Word
  rxFront : Word
  rxBase : Word
  qLen : Word
  qElemSize : Word
  id : BitVec 8
  deriving DecidableEq

/-! ## 2. `s9p_acpm_init`

The firmware's table is copied once.  Its entries are found by walking it with a stride of
`CH_SIZE`, and the first one with the wanted id is taken. -/

/-- The entry of the channel table at `base`, as `s9p_find_channel` copies it. -/
def readEntry (id : BitVec 8) (base : Word) : P Ch := do
  let txRear ← sramRead (base + CH_TX_REAR * 4)
  let txFront ← sramRead (base + CH_TX_FRONT * 4)
  let txBase ← sramRead (base + CH_TX_BASE * 4)
  let rxRear ← sramRead (base + CH_RX_REAR * 4)
  let rxFront ← sramRead (base + CH_RX_FRONT * 4)
  let rxBase ← sramRead (base + CH_RX_BASE * 4)
  let qLen ← sramRead (base + CH_Q_LEN * 4)
  let qElemSize ← sramRead (base + CH_Q_ELEM_SIZE * 4)
  return ⟨txRear, txFront, txBase, rxRear, rxFront, rxBase, qLen, qElemSize, id⟩

/-- The loop of `s9p_find_channel` at entry `i`, with `left` entries to go. -/
def findFrom (id : BitVec 8) (table : Word) : Nat → Word → P (Option Ch)
  | 0, _ => pure none
  | left + 1, i => do
    let base := table + i * CH_SIZE
    let w ← sramRead (base + CH_ID * 4)
    if w &&& 0xff#32 = id.setWidth 32 then do
      let ch ← readEntry id base
      return some ch
    else findFrom id table left (i + 1#32)

/-- `s9p_find_channel`. -/
def findChannel (id : BitVec 8) : P (Except Int Ch) := do
  let table ← sramRead (INITDATA + FW_IPC_CHANNELS * 4)
  let apMax ← sramRead (INITDATA + FW_IPC_AP_MAX * 4)
  let found ← findFrom id table apMax.toNat 0
  match found with
  | some ch => return .ok ch
  | none => return .error (-ENODEV)

/-- The end of an `s9p_acpm_init` that has found no usable channel. -/
def giveUp (ret : Int) : P (Except Int Ch) := do
  iounmap .sram
  iounmap .mbox
  setMbox false
  return .error ret

/-- `s9p_acpm_init`, without the touch work it schedules; the result is `mfd_ch`. -/
def acpmInit : P (Except Int Ch) := do
  let mbox ← ioremap .mbox
  setMbox mbox
  if !mbox then return .error (-ENOMEM)
  else do
    let sram ← ioremap .sram
    if !sram then do
      iounmap .mbox
      setMbox false
      return .error (-ENOMEM)
    else do
      let found ← findChannel MFD_CHANNEL
      match found with
      | .error ret => giveUp ret
      | .ok ch =>
        if ch.qLen < 2 ∨ ch.qElemSize < 16 then giveUp (-ENODEV)
        else return .ok ch

/-! ## 3. Ring access

These are the functions of the driver as they stand in the source, with offsets.  Nothing in them
knows that the words are those of a ring. -/

section Ring

variable (ch : Ch)

/-- `1 << mfd_ch.id`. -/
def Ch.bit : Word := 1#32 <<< ch.id.toNat

/-- Word `k` of slot `i` of the reply ring, and of the command ring. -/
def Ch.rxWord (i k : Word) : Word := ch.rxBase + ch.qElemSize * i + 4 * k
def Ch.txWord (i k : Word) : Word := ch.txBase + ch.qElemSize * i + 4 * k

/-- The SRAM knows nothing of the history of a word, and nothing depends on it. -/
def untagged (w : Word) : Cell := ⟨w, ⟨.kernel, 0⟩⟩

/-- `out[k] = sram_read(…)` for the four words of reply slot `i`. -/
def readMsg (i : Word) : P Msg := do
  let w0 ← sramRead (ch.rxWord i 0)
  let w1 ← sramRead (ch.rxWord i 1)
  let w2 ← sramRead (ch.rxWord i 2)
  let w3 ← sramRead (ch.rxWord i 3)
  return ⟨untagged w0, untagged w1, untagged w2, untagged w3⟩

/-- The loop of `s9p_consume_rx` for at most `most` entries. -/
def drain (want : Option Word) (front : Word) : Nat → Word → Option Msg → P (Option Msg)
  | 0, i, out => if i = front then pure out else hang
  | most + 1, i, out =>
    if i = front then pure out
    else do
      let w0 ← sramRead (ch.rxBase + ch.qElemSize * i)
      if want = some (seqOf w0) then do
        let m ← readMsg ch i
        drain want front most ((i + 1#32) % ch.qLen) (some m)
      else drain want front most ((i + 1#32) % ch.qLen) out

/-- `s9p_consume_rx`.  The loop ends within `q_len` entries or never (`drain_ends`,
`drain_diverges`). -/
def consumeRx (want : Option Word) : P (Option Msg) := do
  let front ← sramRead ch.rxFront
  let rear ← sramRead ch.rxRear
  let out ← drain ch want front ch.qLen.toNat rear none
  if rear ≠ front then
    sramWrite ch.rxRear front
  writel .mbox INTCR1 ch.bit
  return out

/-- The wait of `s9p_send` for a free slot. -/
def waitRoom (nxt : Word) : Nat → P Bool
  | 0 => do
    let rear ← sramRead ch.txRear
    return decide (nxt ≠ rear)
  | spins + 1 => do
    let rear ← sramRead ch.txRear
    if nxt ≠ rear then return true else waitRoom nxt spins

/-- `s9p_send`. -/
def send (cmd : Cmd) (spins : Nat) : P Int := do
  let front ← sramRead ch.txFront
  let nxt := (front + 1#32) % ch.qLen
  let room ← waitRoom ch nxt spins
  if room then do
    sramWrite (ch.txWord front 0) cmd.w0
    sramWrite (ch.txWord front 1) cmd.w1
    sramWrite (ch.txWord front 2) cmd.w2
    sramWrite (ch.txWord front 3) cmd.w3
    sramWrite ch.txFront nxt
    writel .mbox INTGR0 (ch.bit <<< 16)
    return 0
  else return -EBUSY

/-- The test of `s9p_receive`. -/
def replyPending : P Bool := do
  let v ← readl .mbox INTSR1
  if v &&& ch.bit ≠ 0 then return true
  else do
    let rear ← sramRead ch.rxRear
    let front ← sramRead ch.rxFront
    return decide (rear ≠ front)

/-- What `s9p_receive` and `s9p_acpm_mfd_xfer` (`Acpm.receive`, `Acpm.mfdXfer`) are run over. -/
def words : Lower P where
  consumeRx := consumeRx ch
  send := send ch
  pending := replyPending ch
  loadSeq := loadSeq .kernel
  storeSeq := storeSeq .kernel
  haveMbox := haveMbox
  setReady := setReady

end Ring

/-! ## 4. The symbolic driver, carried out where the entry puts it

Each symbolic operation has a program of its own on the words, and the driver over the words is the
symbolic driver with these programs put in.  So everything proved about the symbolic one is about
this one too, where the layout is a sensible one. -/

/-- The index word at `off`. -/
def readIdx (off : Word) : P Nat := do
  let w ← sramRead off
  return w.toNat

def layout (ch : Ch) : Prog.Handler Acpm.Op Acpm.Ans Op Ans
  | .rdTxRear => readIdx ch.txRear
  | .rdTxFront => readIdx ch.txFront
  | .wrTxWord _ i k v => sramWrite (ch.txWord (BitVec.ofNat 32 i) (BitVec.ofNat 32 k)) v
  | .wrTxFront v => sramWrite ch.txFront (BitVec.ofNat 32 v)
  | .rdRxRear => readIdx ch.rxRear
  | .rdRxFront => readIdx ch.rxFront
  | .rdRxWord i k => do
    let w ← sramRead (ch.rxWord (BitVec.ofNat 32 i) (BitVec.ofNat 32 k))
    return untagged w
  | .wrRxWord i k c => sramWrite (ch.rxWord (BitVec.ofNat 32 i) (BitVec.ofNat 32 k)) c.bits
  | .wrRxRear v => sramWrite ch.rxRear (BitVec.ofNat 32 v)
  | .rdIntsr1 => do
    let v ← readl .mbox INTSR1
    return decide (v &&& ch.bit ≠ 0)
  | .wrIntcr1 => writel .mbox INTCR1 ch.bit
  | .wrIntgr0 => writel .mbox INTGR0 (ch.bit <<< 16)
  | .wrIntgr1 => writel .mbox INTGR1 ch.bit
  | .loadSeq who => loadSeq who
  | .storeSeq who v => storeSeq who v
  | .haveMbox => haveMbox
  | .setReady => setReady
  | .hang => hang

section Layout

variable {ch : Ch}

/-- `(i + 1) % q_len` in `u32`. -/
theorem nextIdx_toNat (i : Word) :
    nextIdx ch.qLen.toNat i.toNat = ((i + 1#32) % ch.qLen).toNat := by
  simp only [nextIdx, BitVec.toNat_umod, BitVec.toNat_add]
  rfl

theorem ofNat_toNat (w : Word) : BitVec.ofNat 32 w.toNat = w := by simp

theorem rxWord_zero (i : Word) : ch.rxWord i 0 = ch.rxBase + ch.qElemSize * i := by
  simp [Ch.rxWord]

/-- Word `k` of a slot of the reply ring, and of the command ring. -/
theorem layout_rdRxWord (i : Word) (k : Fin 4) :
    layout ch (.rdRxWord i.toNat k) =
      (sramRead (ch.rxWord i (BitVec.ofNat 32 k)) >>= fun w => pure (untagged w)) := by
  simp only [layout, ofNat_toNat]

theorem layout_wrTxWord (who : Client) (i : Word) (k : Fin 4) (v : Word) :
    layout ch (.wrTxWord who i.toNat k v) =
      sramWrite (ch.txWord i (BitVec.ofNat 32 k)) v := by
  simp only [layout, ofNat_toNat]

/-- The index words. -/
theorem layout_wrTxFront (w : Word) :
    layout ch (.wrTxFront w.toNat) = sramWrite ch.txFront w := by
  simp only [layout, ofNat_toNat]

theorem layout_wrRxRear (w : Word) :
    layout ch (.wrRxRear w.toNat) = sramWrite ch.rxRear w := by
  simp only [layout, ofNat_toNat]

theorem readIdx_bind {α : Type} {off : Word} {f : Nat → P α} :
    (readIdx off >>= f) = (sramRead off >>= fun w => f w.toNat) := rfl

theorem readMsg_through (i : Word) :
    (Acpm.readMsg i.toNat).through (layout ch) = readMsg ch i := by
  simp only [Acpm.readMsg, readMsg, rdRxWord, Prog.perform_bind, Prog.through_op,
    layout_rdRxWord, LawfulMonad.bind_assoc, LawfulMonad.pure_bind]
  rfl

theorem drain_through {want : Option Word} {front : Word} (most : Nat) (i : Word)
    (out : Option Msg) :
    (Acpm.drain ch.qLen.toNat want front.toNat most i.toNat out).through (layout ch) =
      drain ch want front most i out := by
  induction most generalizing i out with
  | zero =>
    simp only [Acpm.drain, drain, Prog.through_ite, BitVec.toNat_inj]
    refine ite_congr rfl (fun _ => rfl) (fun _ => ?_)
    exact congrArg (Prog.op Op.hang) (funext fun e => Empty.elim e)
  | succ most ih =>
    simp only [Acpm.drain, drain, Prog.through_ite, BitVec.toNat_inj, rdRxWord,
      Prog.perform_bind, Prog.through_op, layout_rdRxWord, LawfulMonad.bind_assoc,
      LawfulMonad.pure_bind, ← rxWord_zero, nextIdx_toNat]
    refine ite_congr rfl (fun _ => rfl) (fun _ => ?_)
    refine congrArg (Bind.bind (sramRead (ch.rxWord i 0))) (funext fun w0 => ?_)
    refine ite_congr rfl (fun _ => ?_) (fun _ => ih _ _)
    rw [Prog.through_bind, readMsg_through]
    exact congrArg _ (funext fun m => ih _ _)

theorem consumeRx_through {want : Option Word} :
    (Acpm.consumeRx ch.qLen.toNat want).through (layout ch) = consumeRx ch want := by
  simp only [Acpm.consumeRx, consumeRx, rdRxFront, rdRxRear, wrRxRear, wrIntcr1,
    Prog.perform_bind, Prog.through_op, layout, readIdx_bind]
  refine congrArg _ (funext fun front => congrArg _ (funext fun rear => ?_))
  rw [Prog.through_bind, drain_through]
  refine congrArg _ (funext fun out => ?_)
  simp only [Prog.through_ite, ne_eq, BitVec.toNat_inj]
  refine ite_congr rfl (fun _ => ?_) (fun _ => rfl)
  rw [Prog.through_op, layout_wrRxRear]
  rfl

theorem waitRoom_through {nxt : Word} : ∀ spins,
    (Acpm.waitRoom nxt.toNat spins).through (layout ch) = waitRoom ch nxt spins
  | 0 => by
    simp only [Acpm.waitRoom, waitRoom, rdTxRear, Prog.perform_bind, Prog.through_op, layout,
      readIdx_bind, ne_eq, BitVec.toNat_inj]
    rfl
  | spins + 1 => by
    simp only [Acpm.waitRoom, waitRoom, rdTxRear, Prog.perform_bind, Prog.through_op, layout,
      readIdx_bind, ne_eq, BitVec.toNat_inj, Prog.through_ite]
    refine congrArg _ (funext fun rear => ite_congr rfl (fun _ => rfl) (fun _ => ?_))
    exact waitRoom_through spins

theorem send_through {cmd : Cmd} {spins : Nat} :
    (Acpm.send ch.qLen.toNat cmd spins).through (layout ch) = send ch cmd spins := by
  simp only [Acpm.send, send, writeCmd, rdTxFront, wrTxWord, wrTxFront, wrIntgr0,
    Prog.perform_bind, Prog.op_bind, Prog.through_op]
  have hfront : layout ch .rdTxFront = readIdx ch.txFront := rfl
  rw [hfront, readIdx_bind]
  refine congrArg _ (funext fun front => ?_)
  rw [nextIdx_toNat, Prog.through_bind, waitRoom_through]
  refine congrArg _ (funext fun room => ?_)
  rw [Prog.through_ite]
  refine ite_congr rfl (fun _ => ?_) (fun _ => rfl)
  simp only [Prog.through_op, layout_wrTxWord, layout_wrTxFront]
  rfl

theorem replyPending_through : Acpm.replyPending.through (layout ch) = replyPending ch := by
  simp only [Acpm.replyPending, replyPending, rdIntsr1, rdRxRear, rdRxFront, Prog.perform_bind,
    Prog.through_op, layout, LawfulMonad.bind_assoc, LawfulMonad.pure_bind]
  refine congrArg _ (funext fun v => ?_)
  simp only [Prog.through_ite, decide_eq_true_eq]
  refine ite_congr rfl (fun _ => rfl) (fun _ => ?_)
  simp only [Prog.through_op, layout, readIdx_bind, ne_eq, BitVec.toNat_inj]
  rfl

theorem receive_through {want : Word} : ∀ polls,
    (Acpm.receive (fine ch.qLen.toNat) want polls).through (layout ch) =
      Acpm.receive (words ch) want polls
  | 0 => rfl
  | polls + 1 => by
    simp only [Acpm.receive, fine, words]
    rw [Prog.through_bind, replyPending_through]
    refine congrArg _ (funext fun pending => ?_)
    rw [Prog.through_ite]
    refine ite_congr rfl (fun _ => ?_) (fun _ => receive_through polls)
    rw [Prog.through_bind, consumeRx_through]
    refine congrArg _ (funext fun found => ?_)
    cases found with
    | some reply => rfl
    | none => exact receive_through polls

theorem attempt_through {cmd : Cmd} {tm : Timing} :
    (attempt (fine ch.qLen.toNat) cmd tm).through (layout ch) = attempt (words ch) cmd tm := by
  unfold attempt
  rw [Prog.through_bind]
  refine congrArg₂ _ consumeRx_through (funext fun _ => ?_)
  rw [Prog.through_bind]
  refine congrArg₂ _ Prog.through_perform (funext fun old => ?_)
  rw [Prog.through_bind]
  refine congrArg₂ _ Prog.through_perform (funext fun _ => ?_)
  rw [Prog.through_bind]
  refine congrArg₂ _ send_through (funext fun ret => ?_)
  rw [Prog.through_ite]
  refine ite_congr rfl (fun _ => rfl) (fun _ => ?_)
  rw [Prog.through_bind, receive_through]
  rfl

theorem attempts_through {tm : Nat → Timing} : ∀ (left : Nat) (cmd : Cmd) (ret : Except Int Msg),
    (attempts (fine ch.qLen.toNat) tm left cmd ret).through (layout ch) =
      attempts (words ch) tm left cmd ret
  | 0, _, _ => rfl
  | left + 1, cmd, ret => by
    unfold attempts
    rw [Prog.through_bind, attempt_through]
    refine congrArg _ (funext fun x => ?_)
    obtain ⟨cmd, res⟩ := x
    cases res with
    | ok reply => rfl
    | error e => exact attempts_through left cmd (.error e)

/-- **A whole transaction over the words** is the symbolic one. -/
theorem mfdXfer_through {func reg val mask : BitVec 8} {wantVal : Bool} {tm : Nat → Timing} :
    (mfdXfer (fine ch.qLen.toNat) func reg val mask wantVal tm).through (layout ch) =
      mfdXfer (words ch) func reg val mask wantVal tm := by
  unfold mfdXfer
  rw [Prog.through_bind]
  refine congrArg₂ _ Prog.through_perform (funext fun mbox => ?_)
  rw [Prog.through_ite]
  refine ite_congr rfl (fun _ => rfl) (fun _ => ?_)
  rw [Prog.through_bind, attempts_through]
  refine congrArg _ (funext fun ret => ?_)
  cases ret with
  | error e => rfl
  | ok reply => rfl

end Layout

/-! ## 5. Indices

An index that is read from the SRAM may be any word.  The remainder by `q_len` is taken of the next
one only, which is why a front index that is too large is met at once or never. -/

section Indices

variable {q : Nat} {I : Nat → Prop} {R : (o : Acpm.Op) → Acpm.Ans o → Prop}

/-- Only slots in `I` are touched, and there is no loop without end. -/
def Touches (I : Nat → Prop) : Acpm.Op → Prop
  | .wrTxWord _ i _ _ => I i
  | .rdRxWord i _ => I i
  | .wrRxWord i _ _ => I i
  | .hang => False
  | _ => True

/-- What the loop of `s9p_consume_rx` has to be shown: a front index that is a slot number, and
slots that it may look at. -/
structure Shown (q : Nat) (I : Nat → Prop) (R : (o : Acpm.Op) → Acpm.Ans o → Prop) : Prop where
  slot : ∀ i, i < q → I i
  front : ∀ r, R .rdRxFront r → r < q
  rear : ∀ r, R .rdRxRear r → I r

/-- The loop meets a front index below `q_len` after at most `q_len` entries, wherever it
starts. -/
theorem meets_drain {want : Option Word} {front : Nat} (hq : q < 2 ^ 32)
    (hI : ∀ i, i < q → I i) : ∀ (most i : Nat) (out : Option Msg), I i →
      i = front ∨ front < q ∧ Ring.len q (nextIdx q i) front < most →
      (Acpm.drain q want front most i out).Meets (Touches I) R (fun _ => True)
  | 0, i, out, _, hdist => by
    have hmet : i = front := hdist.resolve_right (by omega)
    simp only [Acpm.drain, if_pos hmet]
    trivial
  | most + 1, i, out, hi, hdist => by
    simp only [Acpm.drain]
    split
    · trivial
    · rename_i hne
      obtain ⟨hfront, hfew⟩ := hdist.resolve_left hne
      have hlt : nextIdx q i < q := Nat.mod_lt _ (by omega)
      have hnext : nextIdx q i = front ∨
          front < q ∧ Ring.len q (nextIdx q (nextIdx q i)) front < most := by
        refine or_iff_not_imp_left.mpr (fun hne' => ⟨hfront, ?_⟩)
        have hlen := Ring.len_succ_rear hlt hfront hne'
        rw [nextIdx_eq hq hlt]
        omega
      have hrest : ∀ out, (Acpm.drain q want front most (nextIdx q i) out).Meets (Touches I) R
          (fun _ => True) :=
        fun out => meets_drain hq hI most (nextIdx q i) out (hI _ hlt) hnext
      simp only [rdRxWord, Prog.perform_bind]
      refine ⟨hi, fun w0 _ => ?_⟩
      beta_reduce
      split
      · exact ⟨hi, fun _ _ => ⟨hi, fun _ _ => ⟨hi, fun _ _ => ⟨hi, fun _ _ => hrest _⟩⟩⟩⟩
      · exact hrest out

/-- A front index that is no slot number and not the rear index is never met. -/
theorem diverges_drain {want : Option Word} {front : Nat} (hq : 0 < q) (hfront : q ≤ front)
    (most i : Nat) (out : Option Msg) (hne : i ≠ front) :
    (Acpm.drain q want front most i out).Diverges := by
  induction most generalizing i out with
  | zero =>
    simp only [Acpm.drain, if_neg hne]
    exact ⟨trivial, fun e => Empty.elim e⟩
  | succ most ih =>
    have hlt : nextIdx q i < q := Nat.mod_lt _ hq
    have hrest : ∀ out, (Acpm.drain q want front most (nextIdx q i) out).Diverges :=
      fun out => ih (nextIdx q i) out (by omega)
    simp only [Acpm.drain, if_neg hne, rdRxWord, Prog.perform_bind]
    refine ⟨trivial, fun w0 _ => ?_⟩
    beta_reduce
    split
    · exact ⟨trivial, fun _ _ => ⟨trivial, fun _ _ => ⟨trivial, fun _ _ => ⟨trivial,
        fun _ _ => hrest _⟩⟩⟩⟩
    · exact hrest out

theorem meets_consumeRx {want : Option Word} (hq : q < 2 ^ 32) (h : Shown q I R) :
    (Acpm.consumeRx q want).Meets (Touches I) R (fun _ => True) := by
  simp only [Acpm.consumeRx, rdRxFront, rdRxRear, wrRxRear, wrIntcr1, Prog.perform_bind]
  refine ⟨trivial, fun front hf => ⟨trivial, fun rear hr => ?_⟩⟩
  have hfront : front < q := h.front front hf
  have hlen : Ring.len q (nextIdx q rear) front < q :=
    Ring.len_lt (Nat.zero_lt_of_lt hfront)
  refine (meets_drain hq h.slot q rear none (h.rear rear hr)
    (.inr ⟨hfront, hlen⟩)).bind (fun out _ => ?_)
  split
  · exact ⟨trivial, fun _ _ => ⟨trivial, fun _ _ => trivial⟩⟩
  · exact ⟨trivial, fun _ _ => trivial⟩

theorem meets_waitRoom {nxt : Nat} : ∀ spins,
    (Acpm.waitRoom nxt spins).Meets (Touches I) R (fun _ => True)
  | 0 => ⟨trivial, fun _ _ => trivial⟩
  | spins + 1 => by
    refine ⟨trivial, fun rear _ => ?_⟩
    show Prog.Meets _ _ (if nxt ≠ rear then _ else _) _
    split
    · trivial
    · exact meets_waitRoom spins

theorem meets_send {cmd : Cmd} {spins : Nat} (hfront : ∀ r, R .rdTxFront r → I r) :
    (Acpm.send q cmd spins).Meets (Touches I) R (fun _ => True) := by
  simp only [Acpm.send, writeCmd, rdTxFront, wrTxWord, wrTxFront, wrIntgr0, Prog.perform_bind,
    Prog.op_bind]
  refine ⟨trivial, fun front hf => (meets_waitRoom spins).bind (fun room _ => ?_)⟩
  have hi := hfront front hf
  split
  · exact ⟨hi, fun _ _ => ⟨hi, fun _ _ => ⟨hi, fun _ _ => ⟨hi, fun _ _ => ⟨trivial, fun _ _ =>
      ⟨trivial, fun _ _ => trivial⟩⟩⟩⟩⟩⟩
  · trivial

theorem meets_receive {want : Word} (hq : q < 2 ^ 32) (h : Shown q I R) : ∀ polls,
    (Acpm.receive (fine q) want polls).Meets (Touches I) R (fun _ => True)
  | 0 => trivial
  | polls + 1 => by
    have hrest : (Acpm.receive (fine q) want polls).Meets (Touches I) R (fun _ => True) :=
      meets_receive hq h polls
    have hpending : (Acpm.replyPending).Meets (Touches I) R (fun _ => True) := by
      refine ⟨trivial, fun pending _ => ?_⟩
      show Prog.Meets _ _ (if pending = true then _ else _) _
      split
      · trivial
      · exact ⟨trivial, fun _ _ => ⟨trivial, fun _ _ => trivial⟩⟩
    refine hpending.bind (fun pending _ => ?_)
    split
    · refine (meets_consumeRx hq h).bind (fun found _ => ?_)
      cases found with
      | some reply => trivial
      | none => exact hrest
    · exact hrest

end Indices

/-! ## 6. The window

Offsets are computed in `u32` and may wrap.  An access is good if its four bytes are in the window,
and that depends on the base, the element size and the index. -/

/-- The four bytes at the SRAM offset `off` lie in the window, from `SRAM_MAP_OFF` up to
`SRAM_SIZE`. -/
def InWindow (off : Word) : Prop := 0x3000 ≤ off.toNat ∧ off.toNat + 4 ≤ 0x30000

/-- The SRAM is touched at offsets in `D` only, and there is no loop without end. -/
def Only (D : Word → Prop) : Op → Prop
  | .readl .sram d => D (d + SRAM_MAP_OFF)
  | .writel .sram d _ => D (d + SRAM_MAP_OFF)
  | .hang => False
  | _ => True

/-- There is no loop without end. -/
abbrev Ends : Op → Prop := Only (fun _ => True)

/-- Only the window is touched, and there is no loop without end. -/
abbrev Inside : Op → Prop := Only InWindow

/-- The front index word of the reply ring is read below `q_len`. -/
def FrontBelow (ch : Ch) : (o : Op) → Ans o → Prop
  | .readl .sram d, w => d + SRAM_MAP_OFF = ch.rxFront → w < ch.qLen
  | _, _ => True

/-- All four index words are read below `q_len`. -/
def IndexBelow (ch : Ch) : (o : Op) → Ans o → Prop
  | .readl .sram d, w =>
      d + SRAM_MAP_OFF ∈ [ch.txRear, ch.txFront, ch.rxRear, ch.rxFront] → w < ch.qLen
  | _, _ => True

/-- The first 16 bytes of each slot of the ring at `base` lie in the window. -/
def RingInside (ch : Ch) (base : Word) : Prop :=
  0x3000 ≤ base.toNat ∧
    base.toNat + ch.qElemSize.toNat * (ch.qLen.toNat - 1) + 16 ≤ 0x30000

/-- The entry names index words and rings in the window. -/
structure Fits (ch : Ch) : Prop where
  txRear : InWindow ch.txRear
  txFront : InWindow ch.txFront
  rxRear : InWindow ch.rxRear
  rxFront : InWindow ch.rxFront
  tx : RingInside ch ch.txBase
  rx : RingInside ch ch.rxBase

section Window

variable {ch : Ch} {D : Word → Prop} {R : (o : Op) → Ans o → Prop}

theorem sub_add_mapOff (off : Word) : off - SRAM_MAP_OFF + SRAM_MAP_OFF = off :=
  BitVec.sub_add_cancel _ _

theorem meets_sramRead {off : Word} {Q : Word → Prop} (hD : D off)
    (hQ : ∀ w, R (.readl .sram (off - SRAM_MAP_OFF)) w → Q w) :
    (sramRead off).Meets (Only D) R Q := by
  refine ⟨?_, hQ⟩
  simpa only [Only, sub_add_mapOff] using hD

theorem meets_sramWrite {off v : Word} {Q : Unit → Prop} (hD : D off) (hQ : Q ()) :
    (sramWrite off v).Meets (Only D) R Q := by
  refine ⟨?_, fun _ _ => hQ⟩
  simpa only [Only, sub_add_mapOff] using hD

theorem meets_readIdx {off : Word} {Q : Nat → Prop} (hD : D off)
    (hQ : ∀ w : Word, R (.readl .sram (off - SRAM_MAP_OFF)) w → Q w.toNat) :
    (readIdx off).Meets (Only D) R Q :=
  Prog.Meets.bind (meets_sramRead hD (fun _ h => h)) hQ

/-- **No offset wraps around**: word `k` of slot `i` lies in the window. -/
theorem RingInside.word {base : Word} (h : RingInside ch base) {i : Nat} (hi : i < ch.qLen.toNat)
    (k : Fin 4) :
    InWindow (base + ch.qElemSize * BitVec.ofNat 32 i + 4 * BitVec.ofNat 32 k) := by
  obtain ⟨hlo, hhi⟩ := h
  have hmul : ch.qElemSize.toNat * i ≤ ch.qElemSize.toNat * (ch.qLen.toNat - 1) :=
    Nat.mul_le_mul_left _ (by omega)
  have hilt : i < 2 ^ 32 := hi.trans ch.qLen.isLt
  have hk := k.isLt
  have hslot : (ch.qElemSize * BitVec.ofNat 32 i).toNat = ch.qElemSize.toNat * i := by
    rw [BitVec.toNat_mul, BitVec.toNat_ofNat, Nat.mod_eq_of_lt hilt]
    exact Nat.mod_eq_of_lt (by omega)
  have hword : (4 * BitVec.ofNat 32 k : Word).toNat = 4 * k := by
    rw [BitVec.toNat_mul, BitVec.toNat_ofNat, Nat.mod_eq_of_lt (by omega : (k : Nat) < 2 ^ 32)]
    exact Nat.mod_eq_of_lt (by show 4 * (k : Nat) < 2 ^ 32; omega)
  have hsum : (base + ch.qElemSize * BitVec.ofNat 32 i + 4 * BitVec.ofNat 32 k).toNat =
      base.toNat + ch.qElemSize.toNat * i + 4 * k := by
    rw [BitVec.toNat_add, BitVec.toNat_add, hslot, hword,
      Nat.mod_eq_of_lt (by omega : base.toNat + ch.qElemSize.toNat * i < 2 ^ 32)]
    exact Nat.mod_eq_of_lt (by omega)
  rw [InWindow, hsum]
  omega

/-- The answers of the symbolic channel: command slots and replies are looked for in `I`, and the
front index of the reply ring is in `F`. -/
def Answered (I F : Nat → Prop) : (o : Acpm.Op) → Acpm.Ans o → Prop
  | .rdTxFront, r => I r
  | .rdRxRear, r => I r
  | .rdRxFront, r => F r
  | _, _ => True

theorem shown_answered {I : Nat → Prop} {q : Nat} (hI : ∀ i, i < q → I i) :
    Shown q I (Answered I (· < q)) := ⟨hI, fun _ h => h, fun _ h => h⟩

/-- The entry puts its index words, and the slots in `I` of both rings, at offsets in `D`. -/
structure Placed (ch : Ch) (D : Word → Prop) (R : (o : Op) → Ans o → Prop) (I F : Nat → Prop) :
    Prop where
  idx : ∀ off ∈ [ch.txRear, ch.txFront, ch.rxRear, ch.rxFront], D off
  txSlot : ∀ i (k : Fin 4), I i → D (ch.txWord (BitVec.ofNat 32 i) (BitVec.ofNat 32 k))
  rxSlot : ∀ i (k : Fin 4), I i → D (ch.rxWord (BitVec.ofNat 32 i) (BitVec.ofNat 32 k))
  txFront : ∀ w, R (.readl .sram (ch.txFront - SRAM_MAP_OFF)) w → I w.toNat
  rxRear : ∀ w, R (.readl .sram (ch.rxRear - SRAM_MAP_OFF)) w → I w.toNat
  rxFront : ∀ w, R (.readl .sram (ch.rxFront - SRAM_MAP_OFF)) w → F w.toNat

/-- **One access of the symbolic channel**, carried out where the entry puts it. -/
theorem Placed.meets_layout {I F : Nat → Prop} (h : Placed ch D R I F) (o : Acpm.Op)
    (ho : Touches I o) : (layout ch o).Meets (Only D) R (Answered I F o) := by
  cases o with
  | rdTxRear => exact meets_readIdx (h.idx _ (by simp)) (fun _ _ => trivial)
  | rdTxFront => exact meets_readIdx (h.idx _ (by simp)) h.txFront
  | rdRxRear => exact meets_readIdx (h.idx _ (by simp)) h.rxRear
  | rdRxFront => exact meets_readIdx (h.idx _ (by simp)) h.rxFront
  | wrTxWord who i k v => exact meets_sramWrite (h.txSlot i k ho) trivial
  | rdRxWord i k =>
    have hread : (sramRead (ch.rxWord (BitVec.ofNat 32 i) (BitVec.ofNat 32 k))).Meets (Only D) R
        (fun _ => True) := meets_sramRead (h.rxSlot i k ho) (fun _ _ => trivial)
    exact hread.bind (fun _ _ => trivial)
  | wrRxWord i k c => exact meets_sramWrite (h.rxSlot i k ho) trivial
  | wrTxFront v => exact meets_sramWrite (h.idx _ (by simp)) trivial
  | wrRxRear v => exact meets_sramWrite (h.idx _ (by simp)) trivial
  | rdIntsr1 => exact ⟨trivial, fun _ _ => trivial⟩
  | hang => exact absurd ho (by simp [Touches])
  | _ => exact ⟨trivial, fun _ _ => trivial⟩

theorem placed_anything : Placed ch (fun _ => True) (fun _ _ => True) (fun _ => True)
    (fun _ => True) where
  idx _ _ := trivial
  txSlot _ _ _ := trivial
  rxSlot _ _ _ := trivial
  txFront _ _ := trivial
  rxRear _ _ := trivial
  rxFront _ _ := trivial

theorem placed_frontBelow : Placed ch (fun _ => True) (FrontBelow ch) (fun _ => True)
    (· < ch.qLen.toNat) where
  idx _ _ := trivial
  txSlot _ _ _ := trivial
  rxSlot _ _ _ := trivial
  txFront _ _ := trivial
  rxRear _ _ := trivial
  rxFront _ h := h (sub_add_mapOff _)

theorem Fits.placed (h : Fits ch) : Placed ch InWindow (IndexBelow ch) (· < ch.qLen.toNat)
    (· < ch.qLen.toNat) where
  idx off hoff := by
    simp only [List.mem_cons, List.not_mem_nil, or_false] at hoff
    rcases hoff with rfl | rfl | rfl | rfl
    · exact h.txRear
    · exact h.txFront
    · exact h.rxRear
    · exact h.rxFront
  txSlot _ k hi := h.tx.word hi k
  rxSlot _ k hi := h.rx.word hi k
  txFront _ hw := hw (by simp)
  rxRear _ hw := hw (by simp)
  rxFront _ hw := hw (by simp)

/-- What the symbolic functions meet, those over the words meet at their offsets. -/
theorem Placed.send_meets {I F : Nat → Prop} {cmd : Cmd} {spins : Nat} (h : Placed ch D R I F) :
    (send ch cmd spins).Meets (Only D) R (fun _ => True) := by
  rw [← send_through]
  exact Prog.Meets.through h.meets_layout (meets_send (fun _ hr => hr))

theorem Placed.consumeRx_meets {I : Nat → Prop} {want : Option Word}
    (h : Placed ch D R I (· < ch.qLen.toNat)) (hI : ∀ i, i < ch.qLen.toNat → I i) :
    (consumeRx ch want).Meets (Only D) R (fun _ => True) := by
  rw [← consumeRx_through]
  exact Prog.Meets.through h.meets_layout (meets_consumeRx ch.qLen.isLt (shown_answered hI))

theorem Placed.receive_meets {I : Nat → Prop} {want : Word} {polls : Nat}
    (h : Placed ch D R I (· < ch.qLen.toNat)) (hI : ∀ i, i < ch.qLen.toNat → I i) :
    (Acpm.receive (words ch) want polls).Meets (Only D) R (fun _ => True) := by
  rw [← receive_through]
  exact Prog.Meets.through h.meets_layout (meets_receive ch.qLen.isLt (shown_answered hI) polls)

/-! ## 7. The loop of `s9p_consume_rx`

The index runs through slot numbers after the first step, and comes back to where it was after
`q_len` of them. -/

/-- It ends within `q_len` entries where it can meet the front index, -/
theorem drain_ends {want : Option Word} {front rear : Word}
    (h : front < ch.qLen ∨ rear = front) :
    (drain ch want front ch.qLen.toNat rear none).Meets Ends (fun _ _ => True)
      (fun _ => True) := by
  have hplaced : Placed ch (fun _ => True) (fun _ _ => True) (fun _ => True) (fun _ => True) :=
    placed_anything
  rw [← drain_through]
  refine Prog.Meets.through hplaced.meets_layout ?_
  refine meets_drain ch.qLen.isLt (fun _ _ => trivial) _ _ _ trivial ?_
  rcases h with hlt | rfl
  · have hfront : front.toNat < ch.qLen.toNat := hlt
    exact .inr ⟨hfront, Ring.len_lt (by omega)⟩
  · exact .inl rfl

/-- and never otherwise. -/
theorem drain_diverges {want : Option Word} {front rear : Word} {most : Nat}
    (hq : 0 < ch.qLen.toNat) (h : ¬ (front < ch.qLen ∨ rear = front)) :
    (drain ch want front most rear none).Diverges := by
  rw [← drain_through]
  refine Prog.Diverges.through (diverges_drain hq ?_ most _ none ?_)
  · exact Nat.not_lt.mp (fun hlt => h (.inl hlt))
  · exact fun heq => h (.inr (BitVec.eq_of_toNat_eq heq))

/-! ## 8. `s9p_find_channel` and `s9p_acpm_init`

Neither function checks what it reads, but for the queue length and for the id it looks for. -/

/-- The words of an entry that are read. -/
def entryFields : List Word :=
  [CH_ID, CH_TX_REAR, CH_TX_FRONT, CH_TX_BASE, CH_RX_REAR, CH_RX_FRONT, CH_RX_BASE, CH_Q_LEN,
    CH_Q_ELEM_SIZE]

/-- Those of the entry at `base` lie in `D`. -/
def EntryIn (D : Word → Prop) (base : Word) : Prop := ∀ f ∈ entryFields, D (base + f * 4)

theorem meets_readEntry {id : BitVec 8} {base : Word} (h : EntryIn D base) :
    (readEntry id base).Meets (Only D) R (fun _ => True) := by
  have hfield : ∀ f, f ∈ entryFields →
      (sramRead (base + f * 4)).Meets (Only D) R (fun _ => True) :=
    fun f hf => meets_sramRead (h f hf) (fun _ _ => trivial)
  unfold readEntry
  refine (hfield _ ?_).bind (fun _ _ => (hfield _ ?_).bind (fun _ _ => (hfield _ ?_).bind
    (fun _ _ => (hfield _ ?_).bind (fun _ _ => (hfield _ ?_).bind (fun _ _ => (hfield _ ?_).bind
    (fun _ _ => (hfield _ ?_).bind (fun _ _ => (hfield _ ?_).bind (fun _ _ => trivial))))))))
  all_goals simp [entryFields]

/-- One entry after the other, and never more than `ipc_ap_max`. -/
theorem meets_findFrom {id : BitVec 8} {table apMax : Word}
    (h : ∀ i : Word, i < apMax → EntryIn D (table + i * CH_SIZE)) : ∀ (left : Nat) (i : Word),
      i.toNat + left = apMax.toNat →
      (findFrom id table left i).Meets (Only D) R (fun _ => True)
  | 0, _, _ => trivial
  | left + 1, i, hleft => by
    have hi : i < apMax := by
      rw [BitVec.lt_def]
      omega
    have hsucc : (i + 1#32).toNat + left = apMax.toNat := by
      have := apMax.isLt
      rw [BitVec.toNat_add, BitVec.toNat_ofNat, Nat.mod_eq_of_lt (a := i.toNat + _) (by omega)]
      omega
    have hid : (sramRead (table + i * CH_SIZE + CH_ID * 4)).Meets (Only D) R (fun _ => True) :=
      meets_sramRead (h i hi _ (by simp [entryFields])) (fun _ _ => trivial)
    unfold findFrom
    refine hid.bind (fun w _ => ?_)
    split
    · exact (meets_readEntry (h i hi)).bind (fun _ _ => trivial)
    · exact meets_findFrom h left (i + 1#32) hsucc

/-- What `s9p_acpm_init` accepts. -/
def Accepted (ch : Ch) : Prop := 2 ≤ ch.qLen.toNat ∧ 16 ≤ ch.qElemSize.toNat

/-- `s9p_acpm_init` reads the two words of the framework and the entries of the table. -/
theorem meets_acpmInit
    (hfw : D (INITDATA + FW_IPC_CHANNELS * 4) ∧ D (INITDATA + FW_IPC_AP_MAX * 4))
    (h : ∀ table apMax, R (.readl .sram (INITDATA + FW_IPC_CHANNELS * 4 - SRAM_MAP_OFF)) table →
      R (.readl .sram (INITDATA + FW_IPC_AP_MAX * 4 - SRAM_MAP_OFF)) apMax →
      ∀ i : Word, i < apMax → EntryIn D (table + i * CH_SIZE)) :
    acpmInit.Meets (Only D) R (fun r => ∀ ch, r = .ok ch → Accepted ch) := by
  have hgiveUp : ∀ ret, (giveUp ret).Meets (Only D) R (fun r => ∀ ch, r = .ok ch → Accepted ch) :=
    fun ret => ⟨trivial, fun _ _ => ⟨trivial, fun _ _ => ⟨trivial, fun _ _ ch hch =>
      absurd hch (by simp)⟩⟩⟩
  have hfind : (findChannel MFD_CHANNEL).Meets (Only D) R (fun _ => True) := by
    unfold findChannel
    refine (meets_sramRead hfw.1 (fun _ hw => hw)).bind (fun table htable => ?_)
    refine (meets_sramRead hfw.2 (fun _ hw => hw)).bind (fun apMax hmax => ?_)
    refine (meets_findFrom (h table apMax htable hmax) apMax.toNat 0 (by simp)).bind
      (fun found _ => ?_)
    cases found with
    | some ch => trivial
    | none => trivial
  unfold acpmInit
  refine ⟨trivial, fun mbox _ => ⟨trivial, fun _ _ => ?_⟩⟩
  show Prog.Meets _ _ (if !mbox then _ else _) _
  split
  · exact fun ch hch => absurd hch (by simp)
  · refine ⟨trivial, fun sram _ => ?_⟩
    show Prog.Meets _ _ (if !sram then _ else _) _
    split
    · exact ⟨trivial, fun _ _ => ⟨trivial, fun _ _ ch hch => absurd hch (by simp)⟩⟩
    · refine hfind.bind (fun found _ => ?_)
      cases found with
      | error ret => exact hgiveUp ret
      | ok ch =>
        show Prog.Meets _ _ (if ch.qLen < 2 ∨ ch.qElemSize < 16 then _ else _) _
        split
        · exact hgiveUp _
        · rename_i hok
          rintro ch' ⟨⟩
          simp only [not_or, BitVec.not_lt] at hok
          exact hok

/-- The SRAM holds `m` while `s9p_acpm_init` runs. -/
def Reads (m : Word → Word) : (o : Op) → Ans o → Prop
  | .readl .sram d, w => w = m (d + SRAM_MAP_OFF)
  | _, _ => True

/-- The channel table: where it begins, and how many entries it has. -/
def table (m : Word → Word) : Word := m (INITDATA + FW_IPC_CHANNELS * 4)
def apMax (m : Word → Word) : Word := m (INITDATA + FW_IPC_AP_MAX * 4)

/-- Each of its entries lies in the window. -/
def TableInside (m : Word → Word) : Prop :=
  ∀ i, i < (apMax m).toNat → 0x3000 ≤ (table m).toNat ∧ (table m).toNat + 72 * (i + 1) ≤ 0x30000

theorem TableInside.entry {m : Word → Word} (h : TableInside m) (i : Word) (hi : i < apMax m) :
    EntryIn InWindow (table m + i * CH_SIZE) := by
  obtain ⟨hlo, hhi⟩ := h i.toNat hi
  have hsize : CH_SIZE.toNat = 72 := rfl
  have hbase : (table m + i * CH_SIZE).toNat = (table m).toNat + 72 * i.toNat := by
    rw [BitVec.toNat_add, BitVec.toNat_mul, hsize]
    omega
  have hfields : entryFields.all (fun f => decide ((f * 4).toNat ≤ 56)) = true := by decide
  intro f hf
  have hle : (f * 4).toNat ≤ 56 := of_decide_eq_true (List.all_eq_true.mp hfields f hf)
  have hword : (table m + i * CH_SIZE + f * 4).toNat =
      (table m).toNat + 72 * i.toNat + (f * 4).toNat := by
    rw [BitVec.toNat_add, hbase]
    exact Nat.mod_eq_of_lt (by omega)
  rw [InWindow, hword]
  omega

end Window

/-! ## 9. Whatever the SRAM contains

Without anything known of the SRAM, three things are left.  They are the part of "survives" that
needs no trust. -/

/-- What is left of "survives" when the words of the SRAM may be anything: a send ends; the loop
of `s9p_consume_rx` ends, within `q_len` entries, exactly where it can meet the front index; and
a channel that fits, whose index words are read below `q_len`, is used inside the window. -/
structure Survives (ch : Ch) : Prop where
  accepted : Accepted ch
  send : ∀ cmd spins, (send ch cmd spins).Meets Ends (fun _ _ => True) (fun _ => True)
  drain : ∀ want front rear, front < ch.qLen ∨ rear = front →
    (drain ch want front ch.qLen.toNat rear none).Meets Ends (fun _ _ => True) (fun _ => True)
  spins : ∀ want front rear, ¬ (front < ch.qLen ∨ rear = front) →
    ∀ most, (Sram.drain ch want front most rear none).Diverges
  consumeRx : ∀ want, (consumeRx ch want).Meets Ends (FrontBelow ch) (fun _ => True)
  receive : ∀ want polls,
    (Acpm.receive (words ch) want polls).Meets Ends (FrontBelow ch) (fun _ => True)
  inside : Fits ch →
    (∀ cmd spins, (Sram.send ch cmd spins).Meets Inside (IndexBelow ch) (fun _ => True)) ∧
    (∀ want, (Sram.consumeRx ch want).Meets Inside (IndexBelow ch) (fun _ => True)) ∧
    (∀ want polls,
      (Acpm.receive (words ch) want polls).Meets Inside (IndexBelow ch) (fun _ => True))

theorem survives_of_accepted {ch : Ch} (h : Accepted ch) : Survives ch where
  accepted := h
  send _ _ := placed_anything.send_meets
  drain _ _ _ hmet := drain_ends hmet
  spins _ _ _ hnot _ := drain_diverges (Nat.lt_of_lt_of_le (by decide) h.1) hnot
  consumeRx _ := placed_frontBelow.consumeRx_meets (fun _ _ => trivial)
  receive _ _ := placed_frontBelow.receive_meets (fun _ _ => trivial)
  inside hfits := ⟨fun _ _ => hfits.placed.send_meets,
    fun _ => hfits.placed.consumeRx_meets (fun _ hi => hi),
    fun _ _ => hfits.placed.receive_meets (fun _ hi => hi)⟩

/-- **What the driver survives.** -/
theorem survives :
    acpmInit.Meets Ends (fun _ _ => True) (fun r => ∀ ch, r = .ok ch → Survives ch) ∧
    ∀ m, TableInside m →
      acpmInit.Meets Inside (Reads m) (fun r => ∀ ch, r = .ok ch → Survives ch) := by
  constructor
  · refine (meets_acpmInit ⟨trivial, trivial⟩ (fun _ _ _ _ _ _ _ _ => trivial)).mono ?_
    exact fun r hr ch hch => survives_of_accepted (hr ch hch)
  · intro m hm
    have hfw : InWindow (INITDATA + FW_IPC_CHANNELS * 4) ∧
        InWindow (INITDATA + FW_IPC_AP_MAX * 4) := by
      unfold InWindow
      decide
    refine (meets_acpmInit hfw ?_).mono
      (fun r hr ch hch => survives_of_accepted (hr ch hch))
    rintro tab max htab hmax i hi
    have htab' : tab = table m := htab.trans (congrArg m (sub_add_mapOff _))
    have hmax' : max = apMax m := hmax.trans (congrArg m (sub_add_mapOff _))
    exact htab' ▸ hm.entry i (hmax' ▸ hi)

/-! ## 10. A table with one channel

The smallest table that makes sense, for the examples: one entry, two small rings, four index words.
-/

/-- The SRAM as a memory, under a firmware that does nothing. -/
def memory : Device Op Ans (Word → Word) Empty Unit where
  env e _ := nomatch e
  act o _ m := match o with
    | .ioremap _ => some (true, m)
    | .readl .sram d => some (m (d + SRAM_MAP_OFF), m)
    | .readl .mbox _ => some (0, m)
    | .writel .sram d v => some ((), Function.update m (d + SRAM_MAP_OFF) v)
    | .writel .mbox _ _ => some ((), m)
    | .iounmap _ => some ((), m)
    | .setMbox _ => some ((), m)
    | .loadSeq _ => some (1, m)
    | .storeSeq _ _ => some ((), m)
    | .haveMbox => some (true, m)
    | .setReady => some ((), m)
    | .hang => none

theorem drift_memory {m m' : Word → Word} (h : memory.Drift m m') : m' = m := by
  induction h with
  | refl => rfl
  | tail _ he _ =>
    obtain ⟨e, -⟩ := he
    exact nomatch e

/-- The first access of a run is answered by the word in the memory. -/
theorem runs_sramRead {α : Type} {off : Word} {f : Word → P α} {m u : Word → Word}
    {tr : List (Sigma Ans)} {a : α}
    (h : memory.Runs (fun _ _ _ => true) (sramRead off >>= f) m tr a u) :
    ∃ tr', memory.Runs (fun _ _ _ => true) (f (m off)) m tr' a u := by
  simp only [sramRead, readl, Prog.perform_bind] at h
  cases h with
  | op _ hst _ hact hrest =>
    obtain rfl := drift_memory hst
    simp only [memory, sub_add_mapOff, Option.some.injEq, Prod.mk.injEq] at hact
    obtain ⟨rfl, rfl⟩ := hact
    exact ⟨_, hrest⟩

/-- These words, and 0 everywhere else. -/
def wordsOf (l : List (Word × Word)) (off : Word) : Word := (l.lookup off).getD 0

/-- Channel 2 at 0x4000, with two rings of four slots and the given front index of the replies. -/
def oneChannel (front : Word) : Word → Word :=
  wordsOf [(0x7f08, 0x4000), (0x7f18, 1), (0x4000, 2), (0x4010, 0x5000), (0x4014, 0x5004),
    (0x4018, 0x6000), (0x4028, 0x5008), (0x402c, 0x500c), (0x4030, 0x7000), (0x4034, 4),
    (0x4038, 16), (0x500c, front)]

def picked : Ch := ⟨0x5000, 0x5004, 0x6000, 0x5008, 0x500c, 0x7000, 4, 16, 2⟩

/-- `s9p_acpm_init` has found that channel, and the SRAM holds these two indices. -/
def found (front rear : Word) (x : Except Int Ch × (Word → Word)) : Bool :=
  match x with
  | (.ok ch, m) => decide (ch = picked) && decide (m picked.rxFront = front ∧
      m picked.rxRear = rear)
  | _ => false

theorem runs_of_found {m : Word → Word} {front rear : Word}
    (h : (memory.run () acpmInit m).any (found front rear) = true) :
    ∃ tr t, memory.Runs (fun _ _ _ => true) acpmInit m tr (.ok picked) t ∧
      t picked.rxFront = front ∧ t picked.rxRear = rear := by
  obtain ⟨⟨r, t⟩, hrun, hfound⟩ := (Option.any_eq_true _ _).mp h
  obtain ⟨tr, hruns⟩ : ∃ tr, memory.Runs (fun _ _ _ => true) acpmInit m tr r t :=
    Device.runs_of_run (fun _ _ => rfl) hrun
  unfold found at hfound
  split at hfound
  · rename_i ch u heq
    obtain ⟨rfl, rfl⟩ := Prod.mk.inj heq
    simp only [Bool.and_eq_true, decide_eq_true_eq] at hfound
    obtain ⟨rfl, hidx⟩ := hfound
    exact ⟨tr, _, hruns, hidx⟩
  · exact absurd hfound (by simp)

/-- The table and the channel fit. -/
theorem survives_one : ∃ tr t, memory.Runs (fun _ _ _ => true) acpmInit (oneChannel 0) tr
      (.ok picked) t ∧ Survives picked ∧ Fits picked ∧
    acpmInit.Meets Inside (Reads (oneChannel 0)) (fun r => ∀ ch, r = .ok ch → Survives ch) := by
  have hfound : (memory.run () acpmInit (oneChannel 0)).any (found 0 0) = true := by
    decide +kernel
  obtain ⟨tr, t, hruns, -⟩ := runs_of_found hfound
  refine ⟨tr, t, hruns, ?_, ?_, survives.2 _ ?_⟩
  · exact hruns.path.meets survives.1 (fun _ _ => trivial) picked rfl
  · constructor
    all_goals simp only [InWindow, RingInside]; decide
  · intro i hi
    have hmax : (apMax (oneChannel 0)).toNat = 1 := rfl
    have htable : (table (oneChannel 0)).toNat = 0x4000 := rfl
    omega

/-- **Nothing checks the words.**  With the front index at `q_len` the loop never ends, and a
table at 0 is read below the window. -/
theorem spins_on_full_index :
    (∃ tr t, memory.Runs (fun _ _ _ => true) acpmInit (oneChannel 4) tr (.ok picked) t ∧
      (∀ tr' a u, ¬ memory.Runs (fun _ _ _ => true) (consumeRx picked none) t tr' a u) ∧
      ∀ most, (drain picked none (t picked.rxFront) most (t picked.rxRear) none).Diverges) ∧
    ¬ acpmInit.Meets Inside (Reads (wordsOf [(0x7f18, 1)])) (fun _ => True) := by
  have hfound : (memory.run () acpmInit (oneChannel 4)).any (found 4 0) = true := by
    decide +kernel
  obtain ⟨tr, t, hruns, hfront, hrear⟩ := runs_of_found hfound
  have hspins : ∀ most,
      (drain picked none (t picked.rxFront) most (t picked.rxRear) none).Diverges :=
    fun most => drain_diverges (by decide) (by rw [hfront, hrear]; decide)
  refine ⟨⟨tr, t, hruns, ?_, hspins⟩, ?_⟩
  · intro tr' a u h
    obtain ⟨tr₁, h₁⟩ := runs_sramRead h
    obtain ⟨tr₂, h₂⟩ := runs_sramRead h₁
    obtain ⟨out, _, _, -, hpath, -⟩ := Prog.path_bind.mp h₂.path
    exact hpath.meets (hspins _) (fun _ _ => trivial)
  · intro h
    have hentry := ((((h.2 true trivial).2 () trivial).2 true trivial).2 0 rfl).2 1 rfl
    exact absurd hentry.1 (by simp only [Only, InWindow]; decide)

end Sram

end S9p.Acpm
