/-
# The ACPM mailbox channel and the driver's access to it

`src/soc/s9p-acpm.c` talks to the APM firmware through two rings in shared SRAM and one
mailbox.  The AP produces commands into the ring the driver calls `tx` and consumes replies
from the ring it calls `rx`; the firmware sits at the other ends.

This module holds the shared memory, the elementary accesses to it (each SRAM or mailbox
access is one operation) and the driver's functions over them: `consumeRx`, `send`,
`receive`, `mfdXfer` and the three PMIC entry points.  The SRAM offsets of the channel table
are kept symbolic: `txRear` stands for the word at `mfd_ch.tx_rear`, word `k` of slot `i` of
a ring for the word at `base + q_elem_size * i + 4 * k` (`Acpm.Sram` puts them there).

Every word of a ring slot also carries HISTORY: which client's which command it belongs to.
No function reads it; it is what "the reply answers this very command" is stated with.
-/
import Mathlib.Data.BitVec
import Mathlib.Logic.Function.Basic
import S9p.Lib.Prog
import S9p.Lib.Field

namespace S9p.Acpm

open Field

/-! ## 1. Words, commands and messages

A word that the code reads is a `Cell`: the bits it sees, and the mark that it does not see.  The
mark follows a word through copies, and it is set where a word is written. -/

abbrev Word := BitVec 32

/-- Error numbers of the kernel. -/
def EBUSY : Int := 16
def ENODEV : Int := 19
def ETIMEDOUT : Int := 110

/-- The two users of the channel: this driver and the userspace tool. -/
inductive Client where
  | kernel
  | tool
  deriving DecidableEq

/-- History: the attempt `no` of the client `who`. -/
structure Src where
  who : Client
  no : Nat
  deriving DecidableEq

/-- A word of a ring slot, with the attempt it belongs to. -/
structure Cell where
  bits : Word
  src : Src
  deriving DecidableEq

/-- Four consecutive words. -/
structure Quad (α : Type) where
  w0 : α
  w1 : α
  w2 : α
  w3 : α
  deriving DecidableEq

/-- A message has four words. -/
instance neZero_words : NeZero 4 := ⟨by decide⟩

namespace Quad

variable {α β : Type}

def get (m : Quad α) : Fin 4 → α
  | 0 => m.w0
  | 1 => m.w1
  | 2 => m.w2
  | 3 => m.w3

def set (m : Quad α) (k : Fin 4) (a : α) : Quad α :=
  match k with
  | 0 => { m with w0 := a }
  | 1 => { m with w1 := a }
  | 2 => { m with w2 := a }
  | 3 => { m with w3 := a }

def map (f : α → β) (m : Quad α) : Quad β := ⟨f m.w0, f m.w1, f m.w2, f m.w3⟩

end Quad

/-- A command, `u32 cmd[4]`. -/
abbrev Cmd := Quad Word

/-- A ring slot. -/
abbrev Msg := Quad Cell

/-- A command as it stands in a slot, written in attempt `src`. -/
def Msg.ofCmd (src : Src) (cmd : Cmd) : Msg := cmd.map (fun w => ⟨w, src⟩)

/-- `(w0 >> SEQ_SHIFT) & 0x3f`. -/
def seqOf (w0 : Word) : Word := field 16 0x3f#32 w0

/-! ## 2. The shared memory and the operations on it

An access is answered by the memory as it is at that moment.  Between any two of them the firmware
may take steps, so two reads of one index may differ. -/

/-- What the firmware is working on: a command it has popped, or the reply it has ready. -/
inductive Job where
  | fetched (cmd : Msg)
  | executed (reply : Msg)
  deriving DecidableEq

/-- The two rings, the mailbox bit, the firmware's own state and the statics of the two clients.
`kernelNo` and `toolNo` are history: how many attempts each client has numbered.  They let a
property say which attempt a reply belongs to, where the code can only compare six bits. -/
structure Shm where
  txRear : Nat
  txFront : Nat
  txSlot : Nat → Msg
  rxRear : Nat
  rxFront : Nat
  rxSlot : Nat → Msg
  intsr1 : Bool
  job : Option Job
  pmic : BitVec 4 → BitVec 8 → BitVec 8
  seq : Word
  ready : Bool
  mbox : Bool
  toolSeq : Word
  kernelNo : Nat
  toolNo : Nat

/-- The number of the attempt a client is making. -/
def Shm.no (s : Shm) : Client → Nat
  | .kernel => s.kernelNo
  | .tool => s.toolNo

/-- The accesses.  `loadSeq`/`storeSeq` are the client's own sequence counter, `haveMbox` the
driver's `mbox` pointer, `setReady` its `acpm_ready`; `hang` is a loop that never ends. -/
inductive Op where
  | rdTxRear
  | rdTxFront
  | wrTxWord (who : Client) (i : Nat) (k : Fin 4) (v : Word)
  | wrTxFront (v : Nat)
  | rdRxRear
  | rdRxFront
  | rdRxWord (i : Nat) (k : Fin 4)
  | wrRxWord (i : Nat) (k : Fin 4) (c : Cell)
  | wrRxRear (v : Nat)
  | rdIntsr1
  | wrIntcr1
  | wrIntgr0
  | wrIntgr1
  | loadSeq (who : Client)
  | storeSeq (who : Client) (v : Word)
  | haveMbox
  | setReady
  | hang

@[reducible] def Ans : Op → Type
  | .rdTxRear => Nat
  | .rdTxFront => Nat
  | .rdRxRear => Nat
  | .rdRxFront => Nat
  | .rdRxWord _ _ => Cell
  | .rdIntsr1 => Bool
  | .loadSeq _ => Word
  | .haveMbox => Bool
  | .hang => Empty
  | _ => Unit

/-- The effect of one access.  A word written into the command ring is marked with the
attempt its client is making; storing a sequence number begins an attempt. -/
def act : (o : Op) → Shm → Option (Ans o × Shm)
  | .rdTxRear, s => some (s.txRear, s)
  | .rdTxFront, s => some (s.txFront, s)
  | .wrTxWord who i k v, s =>
      some ((), { s with
        txSlot := Function.update s.txSlot i ((s.txSlot i).set k ⟨v, ⟨who, s.no who⟩⟩) })
  | .wrTxFront v, s => some ((), { s with txFront := v })
  | .rdRxRear, s => some (s.rxRear, s)
  | .rdRxFront, s => some (s.rxFront, s)
  | .rdRxWord i k, s => some ((s.rxSlot i).get k, s)
  | .wrRxWord i k c, s =>
      some ((), { s with rxSlot := Function.update s.rxSlot i ((s.rxSlot i).set k c) })
  | .wrRxRear v, s => some ((), { s with rxRear := v })
  | .rdIntsr1, s => some (s.intsr1, s)
  | .wrIntcr1, s => some ((), { s with intsr1 := false })
  | .wrIntgr0, s => some ((), s)
  | .wrIntgr1, s => some ((), { s with intsr1 := true })
  | .loadSeq .kernel, s => some (s.seq, s)
  | .loadSeq .tool, s => some (s.toolSeq, s)
  | .storeSeq .kernel v, s => some ((), { s with seq := v, kernelNo := s.kernelNo + 1 })
  | .storeSeq .tool v, s => some ((), { s with toolSeq := v, toolNo := s.toolNo + 1 })
  | .haveMbox, s => some (s.mbox, s)
  | .setReady, s => some ((), { s with ready := true })
  | .hang, _ => none

abbrev P := Prog Op Ans

def rdTxRear : P Nat := .perform Op.rdTxRear
def rdTxFront : P Nat := .perform Op.rdTxFront
def wrTxWord (who : Client) (i : Nat) (k : Fin 4) (v : Word) : P Unit :=
  .perform (Op.wrTxWord who i k v)
def wrTxFront (v : Nat) : P Unit := .perform (Op.wrTxFront v)
def rdRxRear : P Nat := .perform Op.rdRxRear
def rdRxFront : P Nat := .perform Op.rdRxFront
def rdRxWord (i : Nat) (k : Fin 4) : P Cell := .perform (Op.rdRxWord i k)
def wrRxWord (i : Nat) (k : Fin 4) (c : Cell) : P Unit := .perform (Op.wrRxWord i k c)
def wrRxRear (v : Nat) : P Unit := .perform (Op.wrRxRear v)
def rdIntsr1 : P Bool := .perform Op.rdIntsr1
def wrIntcr1 : P Unit := .perform Op.wrIntcr1
def wrIntgr0 : P Unit := .perform Op.wrIntgr0
def wrIntgr1 : P Unit := .perform Op.wrIntgr1
def loadSeq (who : Client) : P Word := .perform (Op.loadSeq who)
def storeSeq (who : Client) (v : Word) : P Unit := .perform (Op.storeSeq who v)
def haveMbox : P Bool := .perform Op.haveMbox
def setReady : P Unit := .perform Op.setReady
/-- A loop that does not end. -/
def hang {α : Type} : P α := .op Op.hang (fun e => nomatch e)

/-- `(i + 1) % q_len` in `u32`. -/
def nextIdx (q i : Nat) : Nat := (i + 1) % 2 ^ 32 % q

/-! ## 3. Ring access: `s9p_consume_rx` and `s9p_send`

The arithmetic on the indices is that of `u32`, and `q` is read from the SRAM at boot: nothing in
the code bounds it but the test against 2. -/

/-- The four words of reply slot `i`. -/
def readMsg (i : Nat) : P Msg := do
  let w0 ← rdRxWord i 0
  let w1 ← rdRxWord i 1
  let w2 ← rdRxWord i 2
  let w3 ← rdRxWord i 3
  return ⟨w0, w1, w2, w3⟩

/-- The `for (i = rear; i != front; i = (i + 1) % q_len)` loop of `s9p_consume_rx`; `out`
holds the last match so far.  The index runs through at most `q_len` slots before it repeats,
so a loop that has not met `front` by then (`front` is no slot index) never ends. -/
def drain (q : Nat) (want : Option Word) (front : Nat) : Nat → Nat → Option Msg → P (Option Msg)
  | 0, i, out => if i = front then pure out else hang
  | n + 1, i, out =>
    if i = front then pure out
    else do
      let w0 ← rdRxWord i 0
      if want = some (seqOf w0.bits) then do
        let m ← readMsg i
        drain q want front n (nextIdx q i) (some m)
      else drain q want front n (nextIdx q i) out

/-- `s9p_consume_rx`.  `want = none` is the call with a null `out`; the result is the reply
copied to `out`, if any (`*found`). -/
def consumeRx (q : Nat) (want : Option Word) : P (Option Msg) := do
  let front ← rdRxFront
  let rear ← rdRxRear
  let out ← drain q want front q rear none
  if rear ≠ front then
    wrRxRear front
  wrIntcr1
  return out

/-- The wait of `s9p_send` for a free slot.  `spins` is how many further looks at the ring fit into
the 20 ms.  At least one look is made, as in the source, where the deadline is tested behind the
ring. -/
def waitRoom (nxt : Nat) : Nat → P Bool
  | 0 => do
    let rear ← rdTxRear
    return decide (nxt ≠ rear)
  | spins + 1 => do
    let rear ← rdTxRear
    if nxt ≠ rear then return true else waitRoom nxt spins

/-- The four words of a command, written into slot `i` of the command ring. -/
def writeCmd (who : Client) (i : Nat) (cmd : Cmd) : P Unit := do
  wrTxWord who i 0 cmd.w0
  wrTxWord who i 1 cmd.w1
  wrTxWord who i 2 cmd.w2
  wrTxWord who i 3 cmd.w3

/-- `s9p_send`. -/
def send (q : Nat) (cmd : Cmd) (spins : Nat) : P Int := do
  let front ← rdTxFront
  let nxt := nextIdx q front
  let room ← waitRoom nxt spins
  if room then do
    writeCmd .kernel front cmd
    wrTxFront nxt
    wrIntgr0
    return 0
  else return -EBUSY

/-! ## 4. Transactions: `s9p_receive` and `s9p_acpm_mfd_xfer`

These two touch the channel only through ring access and the sequence counter, so they are
written over an interface: `fine` takes every SRAM access as a step of its own, and other
modules may take a whole ring access as one step. -/

/-- What a transaction needs from below. -/
structure Lower (m : Type → Type) where
  consumeRx : Option Word → m (Option Msg)
  send : Cmd → Nat → m Int
  /-- The test of `s9p_receive`: the interrupt is pending, or the reply ring is not empty. -/
  pending : m Bool
  loadSeq : m Word
  storeSeq : Word → m Unit
  haveMbox : m Bool
  setReady : m Unit

/-- How long one attempt may take: looks at the command ring within the 20 ms of `s9p_send`, looks
at the reply ring within the `REPLY_TIMEOUT_MS` of `s9p_receive`.  Time itself does not appear: what
a timeout decides is how often the loop looks before it gives up, and any number of looks is
possible, since nothing is known of how long one takes.  Each attempt has counts of its own. -/
structure Timing where
  spins : Nat
  polls : Nat

section Transactions

variable {m : Type → Type} [Monad m] (L : Lower m)

/-- `s9p_receive`.  With `polls` at zero the deadline has passed. -/
def receive (want : Word) : Nat → m (Except Int Msg)
  | 0 => pure (.error (-ETIMEDOUT))
  | polls + 1 => do
    let pending ← L.pending
    if pending then do
      let found ← L.consumeRx (some want)
      match found with
      | some reply => pure (.ok reply)
      | none => receive want polls
    else receive want polls

/-- `seq % 63 + 1`. -/
def nextSeq (seq : Word) : Word := seq % 63#32 + 1#32

/-- `cmd[0]` with the sequence number replaced. -/
def stamp (cmd : Cmd) (seq : Word) : Cmd :=
  { cmd with w0 := (cmd.w0 &&& ~~~(0x3f#32 <<< 16)) ||| ((seq &&& 0x3f#32) <<< 16) }

/-- One round of the retry loop: drain, number, send, wait. -/
def attempt (cmd : Cmd) (tm : Timing) : m (Cmd × Except Int Msg) := do
  let _ ← L.consumeRx none
  let old ← L.loadSeq
  let seq := nextSeq old
  L.storeSeq seq
  let cmd := stamp cmd seq
  let ret ← L.send cmd tm.spins
  if ret ≠ 0 then return (cmd, .error ret)
  else do
    let res ← receive L seq tm.polls
    return (cmd, res)

/-- The loop `for (retry = 0; retry < XFER_RETRIES; retry++)`, `left` rounds to go. -/
def attempts (tm : Nat → Timing) : Nat → Cmd → Except Int Msg → m (Except Int Msg)
  | 0, _, ret => pure ret
  | left + 1, cmd, _ => do
    let (cmd, ret) ← attempt L cmd (tm left)
    match ret with
    | .ok reply => pure (.ok reply)
    | .error e => attempts tm left cmd (.error e)

def XFER_RETRIES : Nat := 3
def ACPM_TYPE_PMIC : Word := 1#32
def FUNC_READ : BitVec 8 := 0#8
def FUNC_WRITE : BitVec 8 := 1#8
def FUNC_UPDATE : BitVec 8 := 2#8

/-- The command `s9p_acpm_mfd_xfer` builds. -/
def mkCmd (func reg val mask : BitVec 8) : Cmd where
  w0 := ((ACPM_TYPE_PMIC &&& 0xf#32) <<< 8) ||| (reg.setWidth 32 &&& 0xff#32)
  w1 := (func.setWidth 32 &&& 0xff#32) ||| ((val.setWidth 32 &&& 0xff#32) <<< 8) |||
    ((mask.setWidth 32 &&& 0xff#32) <<< 16)
  w2 := 0
  w3 := 0

/-- The outcome of a transaction: the value returned, what was stored through `retval`, and
the local `reply`. -/
structure XferResult where
  ret : Int
  retval : Option Word
  reply : Option Msg
  deriving DecidableEq

/-- `s9p_acpm_mfd_xfer`, called with a non-null `retval` when `wantVal`. -/
def mfdXfer (func reg val mask : BitVec 8) (wantVal : Bool) (tm : Nat → Timing) :
    m XferResult := do
  let mbox ← L.haveMbox
  if !mbox then return ⟨-ENODEV, none, none⟩
  else do
    let ret ← attempts L tm XFER_RETRIES (mkCmd func reg val mask) (.error (-ENODEV))
    match ret with
    | .error e => return ⟨e, none, none⟩
    | .ok reply => do
      L.setReady
      return ⟨(field 24 0xff#32 reply.w1.bits).toNat,
        if wantVal ∧ func = FUNC_READ then some (field 8 0xff#32 reply.w1.bits) else none,
        some reply⟩

/-- `s9p_acpm_pmic_write`. -/
def pmicWrite (reg val : BitVec 8) (tm : Nat → Timing) : m XferResult :=
  mfdXfer L FUNC_WRITE reg val 0 false tm

/-- `s9p_acpm_pmic_update`. -/
def pmicUpdate (reg val mask : BitVec 8) (tm : Nat → Timing) : m XferResult :=
  mfdXfer L FUNC_UPDATE reg val mask false tm

/-- `s9p_acpm_pmic_read`. -/
def pmicRead (reg : BitVec 8) (tm : Nat → Timing) : m XferResult :=
  mfdXfer L FUNC_READ reg 0 0 true tm

end Transactions

/-- The test at the top of `s9p_receive`'s loop: the ring itself is looked at only when the
interrupt is not pending. -/
def replyPending : P Bool := do
  let pending ← rdIntsr1
  if pending then return true
  else do
    let rear ← rdRxRear
    let front ← rdRxFront
    return decide (rear ≠ front)

/-- Ring access with every SRAM and mailbox access a step of its own. -/
def fine (q : Nat) : Lower P where
  consumeRx := consumeRx q
  send := send q
  pending := replyPending
  loadSeq := loadSeq .kernel
  storeSeq := storeSeq .kernel
  haveMbox := haveMbox
  setReady := setReady

/-! ## 5. The firmware

The APM pops commands in order, executes each on the PMIC register file and appends one
reply with the same sequence number to the reply ring; it may stall before each of the three.
It reports a code, `0` when the command took effect.  A full reply ring stops it. -/

/-- The fields of a command. -/
def cmdType (m : Msg) : BitVec 4 := (field 8 0xf#32 m.w0.bits).setWidth 4
def cmdReg (m : Msg) : BitVec 8 := (field 0 0xff#32 m.w0.bits).setWidth 8
def cmdFunc (m : Msg) : BitVec 8 := (field 0 0xff#32 m.w1.bits).setWidth 8
def cmdVal (m : Msg) : BitVec 8 := (field 8 0xff#32 m.w1.bits).setWidth 8
def cmdMask (m : Msg) : BitVec 8 := (field 16 0xff#32 m.w1.bits).setWidth 8

/-- The register file after a command that succeeded. -/
def execute (m : Msg) (pmic : BitVec 4 → BitVec 8 → BitVec 8) :
    BitVec 4 → BitVec 8 → BitVec 8 :=
  let old := pmic (cmdType m) (cmdReg m)
  let new :=
    if cmdFunc m = FUNC_WRITE then cmdVal m
    else if cmdFunc m = FUNC_UPDATE then (old &&& ~~~(cmdMask m)) ||| (cmdVal m &&& cmdMask m)
    else old
  fun t r => if t = cmdType m ∧ r = cmdReg m then new else pmic t r

/-- The return code in a reply. -/
def replyCode (m : Msg) : Word := field 24 0xff#32 m.w1.bits

/-- The reply to `m`: the first word is echoed, the second carries the function, the register
value and the code. -/
def replyTo (m : Msg) (pmic : BitVec 4 → BitVec 8 → BitVec 8) (code : BitVec 8) : Msg where
  w0 := m.w0
  w1 := ⟨(m.w1.bits &&& 0xff#32) ||| ((pmic (cmdType m) (cmdReg m)).setWidth 32 <<< 8) |||
    (code.setWidth 32 <<< 24), m.w0.src⟩
  w2 := ⟨0, m.w0.src⟩
  w3 := ⟨0, m.w0.src⟩

/-- What the firmware may do next.  Each of the three has a guard in `apm`, and there is no promise
that any of them ever happens. -/
inductive ApmEv where
  | fetch
  | exec (code : BitVec 8)
  | reply
  deriving DecidableEq

/-- One step of the firmware. -/
def apm (q : Nat) : ApmEv → Shm → Option Shm
  | .fetch, s =>
      if s.job = none ∧ s.txRear ≠ s.txFront then
        some { s with
          job := some (.fetched (s.txSlot s.txRear)), txRear := nextIdx q s.txRear }
      else none
  | .exec code, s =>
      match s.job with
      | some (.fetched m) =>
          some { s with
            job := some (.executed (replyTo m s.pmic code)),
            pmic := if code = 0 then execute m s.pmic else s.pmic }
      | _ => none
  | .reply, s =>
      match s.job with
      | some (.executed r) =>
          if nextIdx q s.rxFront ≠ s.rxRear then
            some { s with
              job := none, rxSlot := Function.update s.rxSlot s.rxFront r,
              rxFront := nextIdx q s.rxFront, intsr1 := true }
          else none
      | _ => none

/-- The channel as the kernel sees it: its accesses, with the firmware in between. -/
def channel (q : Nat) : Device Op Ans Shm ApmEv Unit where
  env := apm q
  act := fun o _ s => act o s

end S9p.Acpm
