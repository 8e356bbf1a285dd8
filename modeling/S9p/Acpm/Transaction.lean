/-
# Commands under way, and one rule for a whole transaction

A command that has been sent stays under way until the kernel dequeues its reply: in the
command ring, in the firmware's hands, or as an unread reply.  `heads` lists the first words
of all of them in order.  The firmware moves commands along this list but never changes it
(`heads_apm`): it answers in order, one reply for each command, with the first word echoed.

`acpm q` is the driver with its three PMIC entry points, called one at a time as
`s9p_acpm_lock` makes them, the kernel being the channel's only client.

`Phases` collects what a proof about transactions has to say about each phase of an attempt,
and `wp_mfdXfer` carries those assertions through `s9p_acpm_mfd_xfer` once and for all.
-/
import S9p.Acpm.Queue

namespace S9p.Acpm

open Device

variable {q : Nat} {s t : Shm}

/-! ## 1. What is under way

A timed-out attempt is given up by the driver, but not by the firmware: its command is still under
way, and its reply arrives at some time in a later call. -/

/-- The first words of all commands under way, oldest first. -/
def heads (q : Nat) (s : Shm) : List Cell := (outstanding q s).map Quad.w0

theorem w0_replyTo (m : Msg) (pmic : BitVec 4 → BitVec 8 → BitVec 8) (code : BitVec 8) :
    (replyTo m pmic code).w0 = m.w0 := rfl

/-- **The firmware answers in order**: its steps leave the list of commands under way. -/
theorem heads_apm {e : ApmEv} (hi : Idx q s) (h : apm q e s = some t) :
    heads q t = heads q s := by
  rcases apm_cases hi h with ⟨m, hj, htx, hrx, ht⟩ | ⟨m, code, hj, rfl⟩ |
    ⟨r, hj, hrx, htx, -, ht⟩
  · have hjt : t.job = some (.fetched m) := by rw [ht]
    simp [heads, outstanding, hj, hjt, hrx, htx, Job.msg]
  · simp [heads, outstanding, hj, Job.msg, w0_replyTo, rxMsgs, txMsgs]
  · have hjt : t.job = none := by rw [ht]
    simp [heads, outstanding, hj, hjt, hrx, htx, Job.msg]

/-- Dequeuing a prefix of the unread replies leaves the rest of them. -/
theorem rxMsgs_cut {L : List Msg} (hi : Idx q s) (hL : L <+: rxMsgs q s) :
    rxMsgs q { s with rxRear := (s.rxRear + L.length) % q } = (rxMsgs q s).drop L.length := by
  have hlen := hL.length_le
  rw [rxMsgs, Ring.length_contents] at hlen
  exact Ring.contents_drop hi.rxRear hi.rxFront hlen

theorem outstanding_cut {L : List Msg} (hi : Idx q s) (hL : L <+: rxMsgs q s) :
    outstanding q { s with rxRear := (s.rxRear + L.length) % q } =
      (outstanding q s).drop L.length := by
  simp only [outstanding, rxMsgs_cut hi hL]
  rw [List.drop_append_of_le_length hL.length_le]
  rfl

/-- Publishing the slot at the front index puts its message at the end of the list. -/
theorem outstanding_publish (hi : Idx q s) (hroom : Ring.succ q s.txFront ≠ s.txRear) :
    outstanding q { s with txFront := Ring.succ q s.txFront } =
      outstanding q s ++ [s.txSlot s.txFront] := by
  simp only [outstanding, txMsgs, rxMsgs]
  rw [Ring.contents_push hi.txRear hi.txFront hroom]
  simp [List.append_assoc]

/-- A write to the free slot at the front index does not show. -/
theorem txMsgs_write (hi : Idx q s) (m : Msg) :
    txMsgs q { s with txSlot := Function.update s.txSlot s.txFront m } = txMsgs q s :=
  Ring.contents_congr hi.txRear hi.txFront (fun _ hne => Function.update_of_ne hne _ _)

theorem outstanding_write (hi : Idx q s) (m : Msg) :
    outstanding q { s with txSlot := Function.update s.txSlot s.txFront m } =
      outstanding q s := by
  simp only [outstanding, txMsgs_write hi m]
  rfl

/-! ## 2. The driver as a system

The mutex makes the calls follow one another.  `Boot` is the state that the probe leaves, with
nothing in either ring. -/

/-- The calls other drivers make. -/
inductive Call where
  | write (reg val : BitVec 8) (tm : Nat → Timing)
  | update (reg val mask : BitVec 8) (tm : Nat → Timing)
  | read (reg : BitVec 8) (tm : Nat → Timing)

/-- The command of a call. -/
def Call.cmd : Call → Cmd
  | .write reg val _ => mkCmd FUNC_WRITE reg val 0
  | .update reg val mask _ => mkCmd FUNC_UPDATE reg val mask
  | .read reg _ => mkCmd FUNC_READ reg 0 0

/-- The transaction behind a call. -/
def Call.run {m : Type → Type} [Monad m] (L : Lower m) : Call → m XferResult
  | .write reg val tm => pmicWrite L reg val tm
  | .update reg val mask tm => pmicUpdate L reg val mask tm
  | .read reg tm => pmicRead L reg tm

/-- The channel as `s9p_acpm_init` finds it: a usable queue length, both rings empty, the
firmware idle, `seq` at its initial value. -/
structure Boot (q : Nat) (s : Shm) : Prop extends Idx q s where
  txEmpty : s.txRear = s.txFront
  rxEmpty : s.rxRear = s.rxFront
  idle : s.job = none
  seq : s.seq = 1#32
  fresh : s.kernelNo = 0
  mbox : s.mbox = true

/-- The driver: PMIC calls one at a time, the firmware stepping in between. -/
def acpm (q : Nat) : System Op Ans Shm ApmEv Unit Call XferResult where
  toDevice := channel q
  init := Boot q
  enabled := fun _ _ => true
  call := Call.run (fine q)

theorem Boot.outstanding_nil (h : Boot q s) : outstanding q s = [] := by
  simp [outstanding, rxMsgs, txMsgs, h.txEmpty, h.rxEmpty, h.idle]

/-! ## 3. One rule for a transaction

A transaction drains, numbers an attempt, sends, and drains again while it waits.  What a
caller has to say about it is one assertion for each of these phases. -/

/-- The assertions that carry a proof through a transaction with the commands `C`: `idle` between
attempts, `numbered no seq` once attempt `no` has its number, `sent no cmd` once its command is in
the ring, `answered no cmd r` once a reply has been accepted.  Each assertion has to withstand the
steps of the firmware, and each field below the assertions is the obligation of one access or one
pass. -/
structure Phases (q : Nat) (ok : Shm → (o : Op) → Unit → Bool) (S : Shm → Option Op → Prop)
    (C : Cmd → Prop) where
  idle : Shm → Prop
  numbered : Nat → Word → Shm → Prop
  sent : Nat → Cmd → Shm → Prop
  answered : Nat → Cmd → Msg → Shm → Prop
  idle_stable : (channel q).Stable idle
  numbered_stable : ∀ no seq, (channel q).Stable (numbered no seq)
  sent_stable : ∀ no cmd, (channel q).Stable (sent no cmd)
  answered_stable : ∀ no cmd r, (channel q).Stable (answered no cmd r)
  idle_idx : ∀ s, idle s → Idx q s
  numbered_idx : ∀ no seq s, numbered no seq s → Idx q s
  sent_idx : ∀ no cmd s, sent no cmd s → Idx q s
  numbered_no : ∀ no seq s, numbered no seq s → s.kernelNo = no
  idle_step : ∀ s o, idle s → S s o
  numbered_step : ∀ no seq s o, numbered no seq s → S s o
  sent_step : ∀ no cmd s o, sent no cmd s → S s o
  answered_step : ∀ no cmd r s o, answered no cmd r s → S s o
  /-- the drain at the start of an attempt -/
  idle_cut : ∀ s L, idle s → L <+: rxMsgs q s →
    idle { s with rxRear := (s.rxRear + L.length) % q }
  idle_ack : ∀ s, idle s → idle { s with intsr1 := false }
  idle_number : ∀ s, idle s →
    numbered (s.kernelNo + 1) (nextSeq s.seq)
      { s with seq := nextSeq s.seq, kernelNo := s.kernelNo + 1 }
  numbered_write : ∀ no seq s m, numbered no seq s →
    numbered no seq { s with txSlot := Function.update s.txSlot s.txFront m }
  numbered_idle : ∀ no seq s, numbered no seq s → idle s
  publish : ∀ no seq cmd s, C cmd → numbered no seq s → Ring.succ q s.txFront ≠ s.txRear →
    ok s (.wrTxFront (Ring.succ q s.txFront)) () = true →
    s.txSlot s.txFront = Msg.ofCmd ⟨.kernel, no⟩ (stamp cmd seq) →
    sent no (stamp cmd seq) { s with txFront := Ring.succ q s.txFront }
  sent_idle : ∀ no cmd s, sent no cmd s → idle s
  sent_cut : ∀ no cmd s L, sent no cmd s → L <+: rxMsgs q s →
    lastMatch (some (seqOf cmd.w0)) L = none →
    sent no cmd { s with rxRear := (s.rxRear + L.length) % q }
  sent_ack : ∀ no cmd s, sent no cmd s → sent no cmd { s with intsr1 := false }
  accept : ∀ no cmd s L r, C cmd → sent no cmd s → L <+: rxMsgs q s →
    lastMatch (some (seqOf cmd.w0)) L = some r →
    answered no cmd r { s with rxRear := (s.rxRear + L.length) % q }
  answered_ack : ∀ no cmd r s, answered no cmd r s →
    answered no cmd r { s with intsr1 := false }
  answered_ready : ∀ no cmd r s, answered no cmd r s →
    answered no cmd r { s with ready := true }
  stamped : ∀ cmd seq, C cmd → C (stamp cmd seq)

/-- The numbers the driver uses fit into the field it compares. -/
theorem seqOf_stamp (cmd : Cmd) {seq : Word} (h : seq &&& 0x3f#32 = seq) :
    seqOf (stamp cmd seq).w0 = seq := by
  have h1 : Field.field 16 0x3f#32 (cmd.w0 &&& ~~~(0x3f#32 <<< 16)) = 0#32 :=
    Field.field_clear (by decide) _
  have h2 : Field.field 16 0x3f#32 ((seq &&& 0x3f#32) <<< 16) = seq := by
    rw [Field.field_shift (by decide), BitVec.and_assoc, BitVec.and_self, h]
  simp only [seqOf, stamp, Field.field_or, h1, h2, BitVec.zero_or]

/-- `seq % 63 + 1` is at most 63. -/
theorem nextSeq_toNat (seq : Word) : (nextSeq seq).toNat = seq.toNat % 63 + 1 := by
  have h : seq.toNat % 63 < 63 := Nat.mod_lt _ (by omega)
  rw [nextSeq, BitVec.toNat_add, BitVec.toNat_umod]
  change (seq.toNat % 63 + 1) % 2 ^ 32 = _
  omega

/-- What fits into six bits survives the mask. -/
theorem and_of_lt {seq : Word} (h : seq.toNat < 64) : seq &&& 0x3f#32 = seq := by
  apply BitVec.eq_of_toNat_eq
  rw [BitVec.toNat_and, show (0x3f#32).toNat = 2 ^ 6 - 1 by rfl, Nat.and_two_pow_sub_one_eq_mod]
  exact Nat.mod_eq_of_lt h

theorem nextSeq_and (seq : Word) : nextSeq seq &&& 0x3f#32 = nextSeq seq := by
  refine and_of_lt ?_
  rw [nextSeq_toNat]
  have := Nat.mod_lt seq.toNat (show 63 > 0 by omega)
  omega

section Transaction

variable {ok : Shm → (o : Op) → Unit → Bool} {S : Shm → Option Op → Prop} {C : Cmd → Prop}

/-- `replyPending` changes nothing. -/
theorem wp_replyPending {I : Shm → Prop} (hI : (channel q).Stable I)
    (hS : ∀ s o, I s → S s o) (hs : I s) :
    wp (channel q) ok S replyPending (fun _ t => I t) s := by
  refine wp_of_uses (A := fun o => o = .rdIntsr1 ∨ o = .rdRxRear ∨ o = .rdRxFront) hI ?_
    (fun o s _ h => hS s _ h) (fun s h => hS s _ h) ?_ hs
  · rintro o (rfl | rfl | rfl) c s r t h _ hact
    all_goals
      simp only [channel, act, Option.some.injEq, Prod.mk.injEq] at hact
      exact hact.2 ▸ h
  · refine ⟨.inl rfl, fun r => ?_⟩
    cases r with
    | true => trivial
    | false => exact ⟨.inr (.inl rfl), fun _ => ⟨.inr (.inr rfl), fun _ => trivial⟩⟩

theorem wp_receive (F : Phases q ok S C) {no : Nat} {cmd : Cmd} (hC : C cmd) :
    ∀ (polls : Nat) (s : Shm), F.sent no cmd s →
      wp (channel q) ok S (receive (fine q) (seqOf cmd.w0) polls) (fun res t =>
        match res with
        | .ok r => F.answered no cmd r t
        | .error e => e < 0 ∧ F.sent no cmd t) s := by
  intro polls
  induction polls with
  | zero =>
    intro s hs
    exact wp_ret (F.sent_stable no cmd) hs (fun t ht => F.sent_step no cmd t _ ht)
      (fun t ht => ⟨by decide, ht⟩)
  | succ polls ih =>
    intro s hs
    refine wp_bind (wp_mono ?_ (wp_replyPending (F.sent_stable no cmd)
      (fun s o h => F.sent_step no cmd s o h) hs))
    intro pending t ht
    split
    · refine wp_bind (wp_mono ?_ (wp_consumeRx (Q := fun r t => match r with
        | none => F.sent no cmd t
        | some r => F.answered no cmd r t) (F.sent_stable no cmd) (F.sent_idx no cmd)
        ?_ ?_ ?_ (F.sent_step no cmd) ?_ ht))
      · intro found u hu
        cases found with
        | none => exact ih u hu
        | some r =>
          exact wp_ret (F.answered_stable no cmd r) hu
            (fun t ht => F.answered_step no cmd r t _ ht) (fun t ht => ht)
      · rintro (_ | r)
        · exact F.sent_stable no cmd
        · exact F.answered_stable no cmd r
      · intro u L hu hL
        cases hm : lastMatch (some (seqOf cmd.w0)) L with
        | none => exact F.sent_cut no cmd u L hu hL hm
        | some r => exact F.accept no cmd u L r hC hu hL hm
      · rintro (_ | r) u hu
        · exact F.sent_ack no cmd u hu
        · exact F.answered_ack no cmd r u hu
      · rintro (_ | r) u o hu
        · exact F.sent_step no cmd u o hu
        · exact F.answered_step no cmd r u o hu
    · exact ih t ht

/-- What an attempt, or several, ends in. -/
def Phases.Outcome (F : Phases q ok S C) (res : Except Int Msg) (t : Shm) : Prop :=
  match res with
  | .ok r => ∃ no cmd, C cmd ∧ F.answered no cmd r t
  | .error e => e < 0 ∧ F.idle t

theorem wp_attempt (F : Phases q ok S C) {cmd : Cmd} {tm : Timing} (hC : C cmd)
    (hs : F.idle s) :
    wp (channel q) ok S (attempt (fine q) cmd tm)
      (fun res t => C res.1 ∧ F.Outcome res.2 t) s := by
  refine wp_bind (wp_mono ?_ (wp_consumeRx (Q := fun _ t => F.idle t) F.idle_stable F.idle_idx
    (fun _ => F.idle_stable) (fun s L h hL => F.idle_cut s L h hL) (fun _ s h => F.idle_ack s h)
    F.idle_step (fun _ s o h => F.idle_step s o h) hs))
  intro _ t ht
  simp only [fine, loadSeq, storeSeq, Prog.perform_bind]
  -- the number is the driver's own, so it is still the same when it is stored
  have hst : ∀ old, (channel q).Stable (fun s => F.idle s ∧ s.seq = old) := fun old e s t h hs =>
    ⟨F.idle_stable e s t h hs.1, (apm_frame h).2.2.2.1.trans hs.2⟩
  refine wp_op_eq (fun _ _ => rfl) F.idle_stable ht (fun t ht => F.idle_step t _ ht) ?_
  intro t1 _ ht1 _
  refine wp_op_eq (fun _ _ => rfl) (hst t1.seq) ⟨ht1, rfl⟩ (fun t ht => F.idle_step t _ ht.1) ?_
  intro t2 _ ht2 _
  have hn := F.idle_number t2 ht2.1
  rw [ht2.2] at hn
  refine wp_bind (wp_mono ?_ (wp_send
    (Q := fun ret t => if ret = 0 then F.sent (t2.kernelNo + 1) (stamp cmd (nextSeq t1.seq)) t
      else ret < 0 ∧ F.idle t)
    (F.numbered_stable _ _) (F.numbered_idx _ _) (F.numbered_no _ _)
    (F.numbered_write _ _) ?_ ?_ ?_ (F.numbered_step _ _) ?_ hn))
  · intro ret u hu
    by_cases hret : ret = 0
    · rw [if_neg (by simpa using hret)]
      rw [if_pos hret] at hu
      have hseq : nextSeq t1.seq = seqOf (stamp cmd (nextSeq t1.seq)).w0 :=
        (seqOf_stamp cmd (nextSeq_and _)).symm
      have hC' : C (stamp cmd (nextSeq t1.seq)) := F.stamped _ _ hC
      refine wp_bind ?_
      conv =>
        enter [4, 2]
        rw [hseq]
      refine wp_mono ?_ (wp_receive F hC' tm.polls u hu)
      intro res v hv
      cases res with
      | ok r =>
        exact wp_ret (F.answered_stable _ _ r) hv (fun t ht => F.answered_step _ _ r t _ ht)
          (fun t ht => ⟨hC', _, _, hC', ht⟩)
      | error e =>
        exact wp_ret (F.sent_stable _ _) hv.2 (fun t ht => F.sent_step _ _ t _ ht)
          (fun t ht => ⟨hC', hv.1, F.sent_idle _ _ t ht⟩)
    · rw [if_pos (by simpa using hret)]
      rw [if_neg hret] at hu
      exact wp_ret F.idle_stable hu.2 (fun t ht => F.idle_step t _ ht)
        (fun t ht => ⟨F.stamped _ _ hC, hu.1, ht⟩)
  · intro ret
    by_cases hret : ret = 0
    · simp only [hret, if_true]
      exact F.sent_stable _ _
    · simp only [hret, if_false]
      exact fun e s t h hs => ⟨hs.1, F.idle_stable e s t h hs.2⟩
  · intro u hu hroom hok hslot
    rw [if_pos rfl]
    exact F.publish _ _ cmd u hC hu hroom hok hslot
  · intro u hu
    rw [if_neg (by decide)]
    exact ⟨by decide, F.numbered_idle _ _ u hu⟩
  · intro ret u o hu
    by_cases hret : ret = 0
    · rw [if_pos hret] at hu
      exact F.sent_step _ _ u o hu
    · rw [if_neg hret] at hu
      exact F.idle_step u o hu.2

theorem wp_attempts (F : Phases q ok S C) (tm : Nat → Timing) :
    ∀ (left : Nat) (cmd : Cmd) (ret : Except Int Msg) (s : Shm), C cmd → F.idle s →
      (∃ e, ret = .error e ∧ e < 0) →
      wp (channel q) ok S (attempts (fine q) tm left cmd ret) F.Outcome s := by
  intro left
  induction left with
  | zero =>
    rintro cmd _ s _ hs ⟨e, rfl, he⟩
    exact wp_ret F.idle_stable hs (fun t ht => F.idle_step t _ ht) (fun t ht => ⟨he, ht⟩)
  | succ left ih =>
    rintro cmd ret s hC hs _
    refine wp_bind (wp_mono ?_ (wp_attempt F hC hs))
    rintro ⟨cmd', res⟩ t ⟨hC', hres⟩
    cases res with
    | ok r =>
      obtain ⟨no, c, hc, hans⟩ := hres
      exact wp_ret (F.answered_stable no c r) hans (fun t ht => F.answered_step no c r t _ ht)
        (fun t ht => ⟨no, c, hc, ht⟩)
    | error e => exact ih cmd' _ t hC' hres.2 ⟨e, rfl, hres.1⟩

/-- **The rule for a transaction.**  It returns a firmware code exactly when it has accepted a
reply, and a negative number otherwise. -/
theorem wp_mfdXfer (F : Phases q ok S C) {func reg val mask : BitVec 8} {wantVal : Bool}
    {tm : Nat → Timing} (hC : C (mkCmd func reg val mask)) (hs : F.idle s) :
    wp (channel q) ok S (mfdXfer (fine q) func reg val mask wantVal tm) (fun res t =>
      (res.ret < 0 ∧ res.reply = none ∧ F.idle t) ∨
      (∃ r no cmd, res.reply = some r ∧ res.ret = ((replyCode r).toNat : Int) ∧ C cmd ∧
        F.answered no cmd r t)) s := by
  simp only [mfdXfer, fine, haveMbox, Prog.perform_bind]
  refine wp_op_eq (fun _ _ => rfl) F.idle_stable hs (fun t ht => F.idle_step t _ ht) ?_
  intro t _ ht _
  split
  · exact wp_ret F.idle_stable ht (fun t ht => F.idle_step t _ ht)
      (fun t ht => .inl ⟨by decide, rfl, ht⟩)
  · refine wp_bind (wp_mono ?_ (wp_attempts F tm XFER_RETRIES _ (.error (-ENODEV)) t hC ht
      ⟨_, rfl, by decide⟩))
    intro res v hv
    cases res with
    | error e =>
      exact wp_ret F.idle_stable hv.2 (fun t ht => F.idle_step t _ ht)
        (fun t ht => .inl ⟨hv.1, rfl, ht⟩)
    | ok r =>
      obtain ⟨no, cmd, hcmd, hans⟩ := hv
      simp only [setReady, Prog.perform_bind]
      refine wp_op_eq (fun _ _ => rfl) (F.answered_stable no cmd r) hans
        (fun t ht => F.answered_step no cmd r t _ ht) ?_
      intro w _ hw _
      exact wp_ret (F.answered_stable no cmd r) (F.answered_ready no cmd r w hw)
        (fun t ht => F.answered_step no cmd r t _ ht)
        (fun t ht => .inr ⟨r, no, cmd, rfl, rfl, hcmd, ht⟩)

/-- The same rule for each of the three calls. -/
theorem wp_call (F : Phases q ok S C) {c : Call} (hC : C c.cmd) (hs : F.idle s) :
    wp (channel q) ok S (c.run (fine q)) (fun res t =>
      (res.ret < 0 ∧ res.reply = none ∧ F.idle t) ∨
      (∃ r no cmd, res.reply = some r ∧ res.ret = ((replyCode r).toNat : Int) ∧ C cmd ∧
        F.answered no cmd r t)) s := by
  cases c with
  | write reg val tm => exact wp_mfdXfer F hC hs
  | update reg val mask tm => exact wp_mfdXfer F hC hs
  | read reg tm => exact wp_mfdXfer F hC hs

end Transaction

/-! ## 4. Executable runs

The witnesses of the modules that follow are runs of small rings, written down as the sequence of
accesses and firmware steps that make them up. -/

/-- The channel at boot, with rings of `q` slots and nothing in them. -/
def bootShm : Shm where
  txRear := 0
  txFront := 0
  txSlot _ := ⟨⟨0, ⟨.kernel, 0⟩⟩, ⟨0, ⟨.kernel, 0⟩⟩, ⟨0, ⟨.kernel, 0⟩⟩, ⟨0, ⟨.kernel, 0⟩⟩⟩
  rxRear := 0
  rxFront := 0
  rxSlot _ := ⟨⟨0, ⟨.kernel, 0⟩⟩, ⟨0, ⟨.kernel, 0⟩⟩, ⟨0, ⟨.kernel, 0⟩⟩, ⟨0, ⟨.kernel, 0⟩⟩⟩
  intsr1 := false
  job := none
  pmic _ _ := 0
  seq := 1#32
  ready := false
  mbox := true
  toolSeq := 1#32
  kernelNo := 0
  toolNo := 0

theorem bootShm_boot {q : Nat} (h2 : 2 ≤ q) (hq : q < 2 ^ 32) : Boot q bootShm where
  two_le := h2
  lt_u32 := hq
  txRear := by simp only [bootShm]; omega
  txFront := by simp only [bootShm]; omega
  rxRear := by simp only [bootShm]; omega
  rxFront := by simp only [bootShm]; omega
  txEmpty := rfl
  rxEmpty := rfl
  idle := rfl
  seq := rfl
  fresh := rfl
  mbox := rfl

/-- `n` accesses in a row. -/
def accesses (n : Nat) : List (System.Ev ApmEv Unit Call) := List.replicate n (.op ())

/-- A write to register 0x10 with one look at the command ring and `polls` looks at the reply
ring in each attempt. -/
def writeOf (val : BitVec 8) (polls : Nat) : Call := .write 0x10 val (fun _ => ⟨0, polls⟩)

end S9p.Acpm
