/-
# The commands of the userspace tool

`s9p-acpm` reads the channel table once, and then carries out the one command its arguments name:
`send` and `receive` over a channel, `mfd` over them, and the dispatch chain of `main`.  It may
exit in the middle, so it is a program over `ExceptT`.

Its channels are those of the table, each with a shared memory of its own; a channel with at most
one slot has no ring but one buffer in each direction.  `apmSide` is the firmware: it answers ring
channels in order, and channel 2 carries out the command before it answers, or refuses it.
-/
import S9p.Lib.Fail
import S9p.Lib.Reading
import S9p.Lib.Through
import S9p.Acpm.Exchange

namespace S9p.Acpm.Tool

open Field Reading

/-! ## 1. The table and the operations

What the tool prints is kept as a value, so that no output is left out.  A stop of any kind is an
exception, which nothing in the tool catches. -/

/-- The fields of `struct acpm_framework` that are printed. -/
structure Framework where
  plugins : Word
  ipcChannels : Word
  numIpcChannels : Word
  ipcApMax : Word
  fwSize : Word

/-- The fields of `Channel` that are used.  The names of the queues are the firmware's: the tool
transmits into its rx queue.  `info` prints the addresses; where an access goes is settled by the
operation and the `id`. -/
structure Channel where
  id : Word
  type : Word
  rxRear : Word
  rxFront : Word
  rxBase : Word
  txRear : Word
  txFront : Word
  txBase : Word
  qLen : Word
  qElemSize : Word
  apPoll : Word

/-- The number of slots. -/
def Channel.q (ch : Channel) : Nat := ch.qLen.toNat

/-- `fw` and `channels`.  The id of a channel is its bit in the mailbox. -/
structure Table where
  fw : Framework
  channels : List Channel
  all : channels.length = fw.ipcApMax.toNat
  distinct : (channels.map Channel.id).Nodup

/-- The mailbox registers that are printed. -/
inductive Reg where
  | intsr0
  | intmr0
  | intsr1
  | intmr1

/-- What is printed. -/
inductive Line where
  | framework (fw : Framework)
  | channel (ch : Channel) (txq rxq : Nat × Nat)
  | mailbox (intsr0 intmr0 intsr1 intmr1 : Word)
  | read (typ reg : String) (ret val : Word) (words : Cmd)
  | write (ret : Word) (words : Cmd)
  | update (ret : Word) (words : Cmd)
  | ipc (id : Word) (sent : List Int) (got : Cmd)
  | dvfsSet (domain khz : String) (reply : Cmd)
  | dvfsGet (domain : String) (khz : Word) (reply : Cmd)
  | rail (name : String) (reg : Int) (before after ret ret2 ret3 : Word)

/-- How the tool ends early: with a `SystemExit`, the usage among them, an `IndexError` of `argv` or
a `ValueError` of `int`.  None of them is caught, so each ends the tool where it is raised. -/
inductive Stop where
  | noChannel (cid : Int)
  | txQueueFull
  | noAnswerOnBuffer (id intsr1 : Word)
  | noAnswer (seq intsr1 : Word) (rear front : Nat)
  | usage
  | index
  | value (text : String)

/-- An access to channel `id`, a look at a mailbox register, the tool's `seq`, and its output. -/
inductive Op where
  | chan (id : Word) (o : Acpm.Op)
  | rdMbox (r : Reg)
  | loadSeq
  | storeSeq (v : Word)
  | print (line : Line)

@[reducible] def Ans : Op → Type
  | .chan _ o => Acpm.Ans o
  | .rdMbox _ => Word
  | .loadSeq => Word
  | _ => Unit

abbrev M := ExceptT Stop (Prog Op Ans)

def perform (o : Op) : M (Ans o) := liftM (Prog.perform o : Prog Op Ans (Ans o))

def print (line : Line) : M Unit := perform (.print line)

/-- An access to channel `id`. -/
def access (id : Word) : Prog.Handler Acpm.Op Acpm.Ans Op Ans := fun o =>
  Prog.perform (Op.chan id o)

/-- `p` on channel `id`. -/
def on {α : Type} (id : Word) (p : P α) : M α := liftM (p.through (access id))

/-! ## 2. One transaction

On a ring the wait goes over the unread replies again and again until the time is up; on a buffer it
waits for the interrupt bit and takes whatever stands there. -/

section Transactions

variable (T : Table)

/-- `find_channel`. -/
def findChannel (cid : Int) : M Channel :=
  match T.channels.find? (fun ch => (ch.id.toNat : Int) = cid) with
  | some ch => pure ch
  | none => throw (.noChannel cid)

/-- `send`; `looks` is how many further looks at the ring fit into the timeout. -/
def send (ch : Channel) (cmd : Cmd) (looks : Nat) : M Word := do
  let old ← perform .loadSeq
  let seq := nextSeq old
  perform (.storeSeq seq)
  let cmd := numbered cmd seq
  if ch.q ≤ 1 then do
    -- single-slot "buffer" channel: no ring pointers
    on ch.id (writeCmd .tool 0 cmd)
    on ch.id wrIntgr0
    return seq
  else do
    let sent ← on ch.id (toolPut ch.q cmd looks)
    if sent then return seq else throw .txQueueFull

/-- The wait for the interrupt on a buffer channel. -/
def waitBit : Nat → P Bool
  | 0 => rdIntsr1
  | looks + 1 => do
    let b ← rdIntsr1
    if b then return true else waitBit looks

/-- The `while True` loop of `receive`, with `looks` further passes. -/
def waitReply (q : Nat) (want : Word) : Nat → P (Option Msg)
  | 0 => toolScan q want
  | looks + 1 => do
    let found ← toolScan q want
    match found with
    | some words => return some words
    | none => waitReply q want looks

/-- `receive`. -/
def receive (ch : Channel) (want : Word) (looks : Nat) : M Cmd :=
  if ch.q ≤ 1 then do
    let b ← on ch.id (waitBit looks)
    if !b then do
      let intsr1 ← perform (.rdMbox .intsr1)
      throw (.noAnswerOnBuffer ch.id intsr1)
    else do
      let words ← on ch.id (readMsg 0)
      on ch.id wrIntcr1
      return words.map Cell.bits
  else do
    let found ← on ch.id (waitReply ch.q want looks)
    match found with
    | some words => return words.map Cell.bits
    | none => do
      let intsr1 ← perform (.rdMbox .intsr1)
      let rear ← on ch.id rdRxRear
      let front ← on ch.id rdRxFront
      throw (.noAnswer want intsr1 rear front)

/-- A command and its answer.  Each has its own time, for the send and for the wait. -/
def transact (ch : Channel) (cmd : Cmd) (tm : Timing) : M Cmd := do
  let s ← send ch cmd tm.spins
  receive ch s tm.polls

/-- `mfd`: `ret`, `dest` and `words`. -/
def mfd (func : BitVec 8) (typ reg val mask : Int) (tm : Timing) : M (Word × Word × Cmd) := do
  let ch ← findChannel T 2
  let words ← transact ch (toolCmd (BitVec.ofInt 4 typ) func (BitVec.ofInt 8 reg)
    (BitVec.ofInt 8 val) (BitVec.ofInt 8 mask)) tm
  return (field 24 0xff#32 words.w1, field 8 0xff#32 words.w1, words)

/-! ## 3. The commands

Arguments are texts, and are turned into numbers where the source does so: a number that cannot be
read ends the command after whatever has been done before it. -/

def PMIC : Int := 1
def L35CTRL : Int := 0x6c
def L43CTRL : Int := 0x74

/-- `cmd_info`. -/
def cmdInfo : M Unit := do
  print (.framework T.fw)
  T.channels.forM (fun ch => do
    let txRear ← on ch.id rdTxRear
    let txFront ← on ch.id rdTxFront
    let rxRear ← on ch.id rdRxRear
    let rxFront ← on ch.id rdRxFront
    print (.channel ch (txRear, txFront) (rxRear, rxFront)))
  let intsr0 ← perform (.rdMbox .intsr0)
  let intmr0 ← perform (.rdMbox .intmr0)
  let intsr1 ← perform (.rdMbox .intsr1)
  let intmr1 ← perform (.rdMbox .intmr1)
  print (.mailbox intsr0 intmr0 intsr1 intmr1)

/-- `argv[i]`. -/
def arg (argv : List String) (i : Nat) : M String :=
  match argv[i]? with
  | some text => pure text
  | none => throw .index

/-- `int(text, 0)`. -/
def number (text : String) : M Int :=
  match int0 text with
  | some n => pure n
  | none => throw (.value text)

/-- `int(argv[i], 0)`. -/
def intArg (argv : List String) (i : Nat) : M Int := do
  let text ← arg argv i
  number text

/-- One round of the loop over the two LDOs; the transactions take the times `tm 0` to `tm 2`. -/
def setRail (on : Bool) (tm : Nat → Timing) (name : String) (reg : Int) : M Unit := do
  let (ret, before, _) ← mfd T FUNC_READ PMIC reg 0 0 (tm 0)
  let mode := if on then 0xc0 else 0x00
  let (ret2, _, _) ← mfd T FUNC_UPDATE PMIC reg mode 0xc0 (tm 1)
  let (ret3, after, _) ← mfd T FUNC_READ PMIC reg 0 0 (tm 2)
  print (.rail name reg before after ret ret2 ret3)

/-- The names of the DVFS domains. -/
def domains : List (String × Int) :=
  [("mif", 0), ("int", 1), ("little", 2), ("big", 3), ("gpu", 4)]

/-- `dom`. -/
def domain (name : String) : M Int :=
  match domains.lookup name with
  | some dom => pure dom
  | none => number name

/-- The request to channel 5: set with a third argument, else get. -/
def dvfs (ch : Channel) (name : String) (dom : Int) (khz : Option String) (tm : Timing) : M Unit :=
  match khz with
  | some text => do
    let khz ← number text
    let w ← transact ch ⟨BitVec.ofInt 32 dom, BitVec.ofInt 32 khz, 0, 0⟩ tm
    print (.dvfsSet name text w)
  | none => do
    let w ← transact ch ⟨BitVec.ofInt 32 dom, 0, 1, 0⟩ tm
    print (.dvfsGet name w.w1 w)

/-- The body under `op == "dvfs"`, with the loop over the LDOs at its end. -/
def cmdDvfs (argv : List String) (tm : Nat → Timing) : M Unit := do
  let ch ← findChannel T 5
  let name ← arg argv 1
  let dom ← domain name
  dvfs ch name dom argv[2]? (tm 0)
  let on := name = "on"
  setRail T on (fun i => tm (1 + i)) "LDO35 tsp_io" L35CTRL
  setRail T on (fun i => tm (4 + i)) "LDO43 tsp_avdd" L43CTRL

/-- The body under `op == "ipc"`. -/
def cmdIpc (argv : List String) (tm : Timing) : M Unit := do
  let cid ← intArg argv 1
  let ch ← findChannel T cid
  let given ← ((argv.drop 2).take 4).mapM number
  let sent := given ++ List.replicate (4 - given.length) 0
  let word := fun i => BitVec.ofInt 32 (sent.getD i 0)
  let w ← transact ch ⟨word 0, word 1, word 2, word 3⟩ tm
  print (.ipc ch.id sent w)

/-- `main`; `tm i` is the time the `i`-th transaction may take. -/
def main (argv : List String) (tm : Nat → Timing) : M Unit :=
  match argv.head? with
  | none => cmdInfo T
  | some op =>
    if op = "info" then cmdInfo T
    else if op = "read" then do
      let typ ← intArg argv 1
      let reg ← intArg argv 2
      let (ret, v, w) ← mfd T FUNC_READ typ reg 0 0 (tm 0)
      print (.read (argv.getD 1 "") (argv.getD 2 "") ret v w)
    else if op = "write" then do
      let typ ← intArg argv 1
      let reg ← intArg argv 2
      let val ← intArg argv 3
      let (ret, _, w) ← mfd T FUNC_WRITE typ reg val 0 (tm 0)
      print (.write ret w)
    else if op = "update" then do
      let typ ← intArg argv 1
      let reg ← intArg argv 2
      let val ← intArg argv 3
      let mask ← intArg argv 4
      let (ret, _, w) ← mfd T FUNC_UPDATE typ reg val mask (tm 0)
      print (.update ret w)
    else if op = "ipc" then cmdIpc T argv (tm 0)
    else if op = "dvfs" then cmdDvfs T argv tm
    else throw .usage

end Transactions

/-! ## 4. The rest of the system

The firmware is one device with many channels.  What it answers on channels other than 2 is left
open word by word, and no property here depends on it. -/

/-- The channels, by their ids, and the tool's `seq`. -/
structure World where
  chan : Word → Shm
  seq : Word

def World.put (w : World) (id : Word) (m : Shm) : World :=
  { w with chan := Function.update w.chan id m }

/-- The answers.  What a mailbox register holds is left open: the tool prints it. -/
def act : (o : Op) → Word → World → Option (Ans o × World)
  | .chan id o, _, w => (Acpm.act o (w.chan id)).map (fun x => (x.1, w.put id x.2))
  | .rdMbox _, v, w => some (v, w)
  | .loadSeq, _, w => some (w.seq, w)
  | .storeSeq v, _, w =>
      -- a number begins an attempt, on whichever channel it is used
      some ((), ⟨fun id => { w.chan id with toolNo := (w.chan id).toolNo + 1 }, v⟩)
  | .print _, _, w => some ((), w)

/-- What the firmware has set up, and the code with which its channel 2 answers a command: it
carries the command out if that is 0, and refuses it otherwise.  A command is marked with its
attempt, so the firmware may well refuse one and carry out the next that asks for the same. -/
structure Firmware extends Table where
  code : Msg → BitVec 8

/-- A step of the firmware on one channel: it takes the oldest command out of a ring, makes the
reply to it or appends the reply, or leaves a message in a buffer. -/
inductive ApmStep where
  | fetch
  | exec (w1 w2 w3 : Word)
  | reply
  | post (m : Msg)

/-- A channel with one slot is no ring: the firmware puts its message there and raises the
interrupt.  On a ring it takes a command, carries it out and replies; what the commands of the other
channels do is left open, and so are their replies. -/
def apmSide (code : Msg → BitVec 8) (ch : Channel) : ApmStep → Shm → Option Shm
  | .fetch, s => if ch.q ≤ 1 then none else apm ch.q .fetch s
  | .exec w1 w2 w3, s =>
      if ch.q ≤ 1 then none
      else match s.job with
        | some (.fetched m) =>
            let src := m.w0.src
            if ch.id = 2 then apm ch.q (.exec (code m)) s
            else some { s with job := some (.executed ⟨m.w0, ⟨w1, src⟩, ⟨w2, src⟩, ⟨w3, src⟩⟩) }
        | _ => none
  | .reply, s => if ch.q ≤ 1 then none else apm ch.q .reply s
  | .post m, s =>
      if ch.q ≤ 1 then
        some { s with rxSlot := Function.update s.rxSlot 0 m, intsr1 := true }
      else none

/-- The tool on its channels. -/
def tool (T : Firmware) : Device Op Ans World (Word × ApmStep) Word where
  env e w :=
    match T.channels.find? (fun ch => ch.id = e.1) with
    | some ch => (apmSide T.code ch e.2 (w.chan ch.id)).map (w.put ch.id)
    | none => none
  act := act

end S9p.Acpm.Tool
