/-
# The userspace tool, and ring accesses taken whole

The tool `s9p-acpm` uses the channel as a second client.  Its `send` puts a command into the
command ring as the driver does; its `receive` looks through the unread replies for its own
number and takes that one entry out, moving the oldest entry into the gap.

Here each ring access of either client is one step, the rest of the world standing still
meanwhile, and this module says what such a step does:

* `run_consumeRx`: the driver's drain empties the ring and hands out the last match;
* `run_send`, `run_toolSend`: a send appends its command, or finds the ring full;
* `run_toolScan`: the tool's scan removes exactly the entry it accepts.
-/
import Mathlib.Data.List.Perm.Basic
import S9p.Acpm.Transaction

namespace S9p.Acpm

open Device

variable {q : Nat} {s t : Shm}

/-! ## 1. The tool's two steps

`send` and `receive` of the tool are loops around the steps that stand here.  The tool is a process
of its own and takes no lock of the kernel's, so between two of its steps anything may happen. -/

/-- The command words `mfd` of the tool builds. -/
def toolCmd (typ : BitVec 4) (func reg val mask : BitVec 8) : Cmd where
  w0 := ((typ.setWidth 32 &&& 0xf#32) <<< 8) ||| (reg.setWidth 32 &&& 0xff#32)
  w1 := (func.setWidth 32 &&& 0xff#32) ||| ((val.setWidth 32 &&& 0xff#32) <<< 8) |||
    ((mask.setWidth 32 &&& 0xff#32) <<< 16)
  w2 := 0
  w3 := 0

/-- `cmd[0] |= (seq[0] & 0x3f) << SEQ_SHIFT`. -/
def numbered (cmd : Cmd) (seq : Word) : Cmd :=
  { cmd with w0 := cmd.w0 ||| ((seq &&& 0x3f#32) <<< 16) }

/-- `send` of the tool, on a ring channel.  The wait for a free slot is one look, since what
passes meanwhile are steps of others; `none` is the exit with "tx queue full". -/
def toolSend (q : Nat) (cmd : Cmd) : P (Option Word) := do
  let old ← loadSeq .tool
  let seq := nextSeq old
  storeSeq .tool seq
  let cmd := numbered cmd seq
  let front ← rdTxFront
  let rear ← rdTxRear
  let nxt := (front + 1) % q
  if nxt = rear then return none
  else do
    writeCmd .tool front cmd
    wrTxFront nxt
    wrIntgr0
    return some seq

/-- The `while i != front` search of the tool's `receive`. -/
def toolFind (q : Nat) (want : Word) (front : Nat) : Nat → Nat → P (Option Nat)
  | 0, i => if i = front then pure none else hang
  | n + 1, i =>
    if i = front then pure none
    else do
      let w0 ← rdRxWord i 0
      if seqOf w0.bits = want then return some i
      else toolFind q want front n ((i + 1) % q)

/-- Move the entry at `rear` into slot `i`. -/
def moveEntry (rear i : Nat) : P Unit := do
  let w0 ← rdRxWord rear 0
  wrRxWord i 0 w0
  let w1 ← rdRxWord rear 1
  wrRxWord i 1 w1
  let w2 ← rdRxWord rear 2
  wrRxWord i 2 w2
  let w3 ← rdRxWord rear 3
  wrRxWord i 3 w3

/-- The acknowledgement once an entry has been taken out and `rear` moved on. -/
def toolAck (rear : Nat) : P Unit := do
  let front ← rdRxFront
  if rear = front then
    wrIntcr1
    let front ← rdRxFront
    if rear ≠ front then
      wrIntgr1

/-- One pass of the `while True` loop of the tool's `receive`; `none` is the pass that found
nothing. -/
def toolScan (q : Nat) (want : Word) : P (Option Msg) := do
  let pending ← rdIntsr1
  if !pending then return none
  else do
    let front ← rdRxFront
    let rear ← rdRxRear
    let found ← toolFind q want front q rear
    match found with
    | none => return none
    | some i => do
      let words ← readMsg i
      if i ≠ rear then
        moveEntry rear i
      let rear := (rear + 1) % q
      wrRxRear rear
      toolAck rear
      return some words

/-! ## 2. The driver's accesses in one go

Run in one go, with nothing in between, an access is a function of the memory.  The equations give
that function; the programs are the same as those the rules of `Queue` are about. -/

/-- Reading a slot word by word. -/
theorem run_readMsg (i : Nat) : (channel q).run () (readMsg i) s = some (s.rxSlot i, s) := by
  simp only [readMsg, rdRxWord, Prog.perform_bind, Device.run, channel, act, Option.bind_some]
  rfl

/-- The drain loop, by induction on the entries it has still to look at. -/
theorem run_drain (want : Option Word) (hi : Idx q s) :
    ∀ (R L : List Msg) (fuel : Nat) (out : Option Msg), R.length ≤ fuel → L ++ R = rxMsgs q s →
      (channel q).run () (drain q want s.rxFront fuel ((s.rxRear + L.length) % q) out) s =
        some (R.foldl (matchStep want) out, s)
  | [], L, fuel, out, _, hall => by
    have hend : (s.rxRear + L.length) % q = s.rxFront := by
      rw [List.append_nil] at hall
      rw [hall, rxMsgs, Ring.length_contents, Ring.add_len_mod hi.rxRear hi.rxFront]
    cases fuel <;> simp [drain, hend]
  | m :: R, L, 0, out, hfuel, _ => absurd hfuel (by simp)
  | m :: R, L, fuel + 1, out, hfuel, hall => by
    have hpre : L ++ m :: R <+: rxMsgs q s := hall ▸ List.prefix_rfl
    have hfront : (s.rxRear + (L ++ m :: R).length) % q = s.rxFront := by
      rw [hall, rxMsgs, Ring.length_contents, Ring.add_len_mod hi.rxRear hi.rxFront]
    have hslot := rxSlot_of_prefix hpre
    have hw : act (.rdRxWord ((s.rxRear + L.length) % q) 0) s = some (m.w0, s) := by
      simp only [act, hslot]
      rfl
    have hrest := run_drain want hi R (L ++ [m]) fuel (matchStep want out m) (by simpa using hfuel)
      (by simpa using hall)
    rw [← walk_next m hi] at hrest
    simp only [drain, if_neg (walk_ne hi hpre hfront), rdRxWord, Prog.perform_bind]
    rw [Device.run_op hw]
    split
    · rename_i hm
      rw [Device.run_bind (run_readMsg _), hslot, List.foldl_cons, ← hrest]
      simp [matchStep, hm]
    · rename_i hm
      rw [List.foldl_cons, ← hrest]
      simp [matchStep, hm]

/-- **The driver's drain** empties the reply ring. -/
theorem run_consumeRx (want : Option Word) (hi : Idx q s) :
    (channel q).run () (consumeRx q want) s =
      some (lastMatch want (rxMsgs q s), { s with rxRear := s.rxFront, intsr1 := false }) := by
  have hlen : (rxMsgs q s).length ≤ q := (length_rxMsgs_lt hi).le
  have hdrain := run_drain want hi (rxMsgs q s) [] q none hlen rfl
  rw [List.length_nil, Nat.add_zero, Nat.mod_eq_of_lt hi.rxRear] at hdrain
  simp only [consumeRx, rdRxFront, rdRxRear, Prog.perform_bind]
  rw [Device.run_op rfl, Device.run_op rfl, Device.run_bind hdrain]
  split
  · rfl
  · rename_i heq
    have hback : s.rxRear = s.rxFront := not_not.mp heq
    simp only [wrIntcr1, Prog.perform_bind]
    rw [Device.run_op rfl]
    simp [lastMatch, hback]

/-- The driver's wait for a free slot, when nothing else moves. -/
theorem run_waitRoom (nxt spins : Nat) : (channel q).run () (waitRoom nxt spins) s =
    some (decide (nxt ≠ s.txRear), s) := by
  induction spins with
  | zero =>
    simp only [waitRoom, rdTxRear, Prog.perform_bind]
    rw [Device.run_op rfl]
    rfl
  | succ spins ih =>
    simp only [waitRoom, rdTxRear, Prog.perform_bind]
    rw [Device.run_op rfl]
    split
    · rename_i h
      simp [h]
    · exact ih

/-- Writing a command word by word. -/
theorem run_writeCmd (who : Client) (i : Nat) (cmd : Cmd) :
    (channel q).run () (writeCmd who i cmd) s =
      some ((), { s with
        txSlot := Function.update s.txSlot i (Msg.ofCmd ⟨who, s.no who⟩ cmd) }) := by
  have hno : ∀ slot, ({ s with txSlot := slot } : Shm).no who = s.no who := fun slot => by
    cases who <;> rfl
  simp only [writeCmd, wrTxWord, Prog.perform_bind]
  rw [Device.run_op rfl, Device.run_op rfl, Device.run_op rfl]
  simp only [Prog.perform, Device.run, channel, act, hno, Function.update_self,
    Function.update_idem, Option.bind_some]
  rfl

/-- Publishing a command puts it at the end of the list of commands under way. -/
theorem outstanding_send (hi : Idx q s) (hroom : Ring.succ q s.txFront ≠ s.txRear) (m : Msg) :
    outstanding q { s with
      txSlot := Function.update s.txSlot s.txFront m, txFront := Ring.succ q s.txFront } =
      outstanding q s ++ [m] := by
  have h := outstanding_publish
    (s := { s with txSlot := Function.update s.txSlot s.txFront m }) { hi with } hroom
  rw [outstanding_write hi] at h
  simpa using h

/-- Draining takes the unread replies off the list. -/
theorem outstanding_drain : outstanding q s =
    rxMsgs q s ++ outstanding q { s with rxRear := s.rxFront, intsr1 := false } := by
  simp [outstanding, rxMsgs, txMsgs]

theorem run_replyPending : ∃ b, (channel q).run () replyPending s = some (b, s) := by
  simp only [replyPending, rdIntsr1, rdRxRear, rdRxFront, Prog.perform_bind]
  rw [Device.run_op rfl]
  split
  · exact ⟨_, rfl⟩
  · exact ⟨_, rfl⟩

/-- **The driver's send** appends its command, or finds the ring full. -/
theorem run_send (cmd : Cmd) (spins : Nat) (hi : Idx q s) :
    (channel q).run () (send q cmd spins) s =
      if Ring.succ q s.txFront ≠ s.txRear then
        some (0, { s with
          txSlot := Function.update s.txSlot s.txFront (Msg.ofCmd ⟨.kernel, s.kernelNo⟩ cmd),
          txFront := Ring.succ q s.txFront })
      else some (-EBUSY, s) := by
  simp only [send, rdTxFront, Prog.perform_bind]
  rw [Device.run_op rfl, nextIdx_eq hi.lt_u32 hi.txFront, Device.run_bind (run_waitRoom _ _)]
  by_cases hroom : Ring.succ q s.txFront ≠ s.txRear
  · simp only [hroom, decide_true, if_true, ne_eq, not_false_eq_true]
    rw [Device.run_bind (run_writeCmd _ _ _)]
    rfl
  · simp only [hroom, decide_false, if_false]
    rfl

/-- **The tool's send** numbers an attempt, and appends its command or finds the ring full. -/
theorem run_toolSend (cmd : Cmd) :
    (channel q).run () (toolSend q cmd) s =
      if Ring.succ q s.txFront = s.txRear then
        some (none, { s with toolSeq := nextSeq s.toolSeq, toolNo := s.toolNo + 1 })
      else
        some (some (nextSeq s.toolSeq), { s with
          toolSeq := nextSeq s.toolSeq, toolNo := s.toolNo + 1,
          txSlot := Function.update s.txSlot s.txFront
            (Msg.ofCmd ⟨.tool, s.toolNo + 1⟩ (numbered cmd (nextSeq s.toolSeq))),
          txFront := Ring.succ q s.txFront }) := by
  simp only [toolSend, loadSeq, storeSeq, rdTxFront, rdTxRear, Prog.perform_bind]
  rw [Device.run_op rfl, Device.run_op rfl, Device.run_op rfl, Device.run_op rfl]
  by_cases hfull : Ring.succ q s.txFront = s.txRear
  · have hfull' : (s.txFront + 1) % q = s.txRear := hfull
    simp only [if_pos hfull, if_pos hfull']
    rfl
  · have hfull' : ¬ (s.txFront + 1) % q = s.txRear := hfull
    simp only [if_neg hfull, if_neg hfull']
    rw [Device.run_bind (run_writeCmd _ _ _)]
    rfl

/-! ## 3. The tool's scan in one go

The entry that is accepted need not be the oldest one.  The oldest one then takes its slot, and so
the order of the unread replies may change, but not what they are. -/

/-- The search stops at the first entry with the wanted number, or at the end. -/
theorem run_toolFind (want : Word) (hi : Idx q s) :
    ∀ (R L : List Msg) (fuel : Nat), R.length ≤ fuel → L ++ R = rxMsgs q s →
      ∃ found, (channel q).run ()
          (toolFind q want s.rxFront fuel ((s.rxRear + L.length) % q)) s = some (found, s) ∧
        (found = none ∨ ∃ j, found = some ((s.rxRear + j) % q) ∧
          ∃ m, (rxMsgs q s)[j]? = some m ∧ seqOf m.w0.bits = want)
  | [], L, fuel, _, hall => by
    have hend : (s.rxRear + L.length) % q = s.rxFront := by
      rw [List.append_nil] at hall
      rw [hall, rxMsgs, Ring.length_contents, Ring.add_len_mod hi.rxRear hi.rxFront]
    refine ⟨none, ?_, .inl rfl⟩
    cases fuel <;> simp [toolFind, hend]
  | m :: R, L, 0, hfuel, _ => absurd hfuel (by simp)
  | m :: R, L, fuel + 1, hfuel, hall => by
    have hpre : L ++ m :: R <+: rxMsgs q s := hall ▸ List.prefix_rfl
    have hfront : (s.rxRear + (L ++ m :: R).length) % q = s.rxFront := by
      rw [hall, rxMsgs, Ring.length_contents, Ring.add_len_mod hi.rxRear hi.rxFront]
    have hw : act (.rdRxWord ((s.rxRear + L.length) % q) 0) s = some (m.w0, s) := by
      simp only [act, rxSlot_of_prefix hpre]
      rfl
    simp only [toolFind, if_neg (walk_ne hi hpre hfront), rdRxWord, Prog.perform_bind]
    rw [Device.run_op hw]
    split
    · rename_i hm
      exact ⟨_, rfl, .inr ⟨L.length, rfl, m, by rw [← hall]; simp, hm⟩⟩
    · have hrest := run_toolFind want hi R (L ++ [m]) fuel (by simpa using hfuel)
        (by simpa using hall)
      rw [← walk_next m hi, nextIdx_eq hi.lt_u32 (Nat.mod_lt _ hi.pos)] at hrest
      exact hrest

/-- Moving an entry copies the whole slot; in its own slot it stays. -/
theorem run_moveEntry {rear i : Nat} (k : P (Option Msg)) :
    (channel q).run () (if i ≠ rear then (do moveEntry rear i; k) else k) s =
      (channel q).run () k { s with rxSlot := Function.update s.rxSlot i (s.rxSlot rear) } := by
  split
  · rename_i hne
    have hmove : (channel q).run () (moveEntry rear i) s =
        some ((), { s with rxSlot := Function.update s.rxSlot i (s.rxSlot rear) }) := by
      simp only [moveEntry, rdRxWord, wrRxWord, Prog.perform, Prog.op_bind, Prog.ret_bind,
        Device.run, channel, act, Option.bind_some, Function.update_self, Function.update_idem,
        Function.update_of_ne hne.symm]
      rfl
    exact Device.run_bind hmove
  · rename_i heq
    rw [not_not.mp heq, Function.update_eq_self]

theorem run_toolAck (rear : Nat) : ∃ b,
    (channel q).run () (toolAck rear) s = some ((), { s with intsr1 := b }) := by
  simp only [toolAck, rdRxFront, Prog.perform_bind]
  rw [Device.run_op rfl]
  split
  · rename_i h
    refine ⟨false, ?_⟩
    simp only [wrIntcr1, Prog.perform_bind]
    rw [Device.run_op rfl, Device.run_op rfl, if_neg (not_not.mpr h)]
    rfl
  · exact ⟨s.intsr1, rfl⟩

/-- Taking out entry `j` of a list and moving the first entry into the gap. -/
theorem perm_set_tail {α : Type} {l : List α} {a b : α} {j : Nat} (hj : l[j]? = some b)
    (h0 : l[0]? = some a) : l.Perm (b :: (l.set j a).tail) := by
  cases l with
  | nil => exact absurd h0 (by simp)
  | cons x xs =>
    simp only [List.length_cons, Nat.zero_lt_succ, List.getElem?_eq_getElem,
      List.getElem_cons_zero, Option.some.injEq] at h0
    subst h0
    cases j with
    | zero =>
      simp only [List.length_cons, Nat.zero_lt_succ, List.getElem?_eq_getElem,
        List.getElem_cons_zero, Option.some.injEq] at hj
      subst hj
      simp
    | succ k =>
      obtain ⟨hk, rfl⟩ := List.getElem?_eq_some_iff.mp hj
      simp only [List.length_cons, Nat.add_lt_add_iff_right] at hk
      simp only [List.getElem_cons_succ, List.set_cons_succ, List.tail_cons]
      have hsplit : xs = xs.take k ++ xs[k] :: xs.drop (k + 1) := by
        rw [← List.drop_eq_getElem_cons hk, List.take_append_drop]
      rw [List.set_eq_take_append_cons_drop, if_pos hk]
      calc (x :: xs).Perm (x :: (xs.take k ++ xs[k] :: xs.drop (k + 1))) := by rw [← hsplit]
        List.Perm _ (x :: xs[k] :: (xs.take k ++ xs.drop (k + 1))) := List.perm_middle.cons x
        List.Perm _ (xs[k] :: x :: (xs.take k ++ xs.drop (k + 1))) := .swap _ _ _
        List.Perm _ (xs[k] :: (xs.take k ++ x :: xs.drop (k + 1))) :=
          List.perm_middle.symm.cons _

/-- **The tool's scan** changes nothing, or takes out the one entry it accepts. -/
theorem run_toolScan (want : Word) (hi : Idx q s) :
    ∃ r t, (channel q).run () (toolScan q want) s = some (r, t) ∧
      ((r = none ∧ t = s) ∨
        ∃ m slot b, r = some m ∧ seqOf m.w0.bits = want ∧ (rxMsgs q s).Perm (m :: rxMsgs q t) ∧
          t = { s with rxSlot := slot, rxRear := Ring.succ q s.rxRear, intsr1 := b }) := by
  simp only [toolScan, rdIntsr1, Prog.perform_bind]
  rw [Device.run_op rfl]
  split
  · exact ⟨none, s, rfl, .inl ⟨rfl, rfl⟩⟩
  · have hlen : (rxMsgs q s).length ≤ q := (length_rxMsgs_lt hi).le
    obtain ⟨found, hrun, hfound⟩ := run_toolFind want hi (rxMsgs q s) [] q hlen rfl
    rw [List.length_nil, Nat.add_zero, Nat.mod_eq_of_lt hi.rxRear] at hrun
    simp only [rdRxFront, rdRxRear, Prog.perform_bind]
    rw [Device.run_op rfl, Device.run_op rfl, Device.run_bind hrun]
    rcases hfound with rfl | ⟨j, rfl, m, hm, hseq⟩
    · exact ⟨none, s, rfl, .inl ⟨rfl, rfl⟩⟩
    · have hj : j < Ring.len q s.rxRear s.rxFront := by
        have := (List.getElem?_eq_some_iff.mp hm).1
        rwa [rxMsgs, Ring.length_contents] at this
      have hslot : s.rxSlot ((s.rxRear + j) % q) = m := by
        rw [rxMsgs, Ring.getElem?_contents hj] at hm
        exact Option.some.inj hm
      have hne : s.rxRear ≠ s.rxFront := by
        intro heq
        rw [heq, Ring.len_self] at hj
        exact absurd hj (by simp)
      -- the state once the entry at `rear` stands in the slot of the accepted one
      let u : Shm := { s with
        rxSlot := Function.update s.rxSlot ((s.rxRear + j) % q) (s.rxSlot s.rxRear) }
      obtain ⟨b, hack⟩ := run_toolAck (q := q) (s := { u with rxRear := Ring.succ q s.rxRear })
        (Ring.succ q s.rxRear)
      refine ⟨some m, _, ?_, .inr ⟨m, u.rxSlot, b, rfl, hseq, ?_, rfl⟩⟩
      · rw [Device.run_bind (run_readMsg _), hslot]
        refine (run_moveEntry _).trans ?_
        simp only [wrRxRear, Prog.perform_bind]
        rw [Device.run_op rfl]
        exact Device.run_bind hack
      · have hupd : rxMsgs q u = (rxMsgs q s).set j (s.rxSlot s.rxRear) :=
          Ring.contents_update hi.pos hj _
        have hpop : rxMsgs q u = u.rxSlot u.rxRear ::
            rxMsgs q { u with rxRear := Ring.succ q s.rxRear, intsr1 := b } :=
          Ring.contents_pop hi.rxRear hi.rxFront hne
        have h0 : (rxMsgs q s)[0]? = some (s.rxSlot s.rxRear) := by
          rw [rxMsgs, Ring.getElem?_contents (by omega), Nat.add_zero, Nat.mod_eq_of_lt hi.rxRear]
        have hperm := perm_set_tail hm h0
        rwa [← hupd, hpop, List.tail_cons] at hperm

end S9p.Acpm
