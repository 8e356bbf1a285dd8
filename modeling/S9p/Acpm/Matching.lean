/-
# Which command does an accepted reply answer?

The driver tells the reply it is waiting for from a stale one by a 6-bit sequence number.
The number advances on every attempt, also on those that find the command ring full and send
nothing, and it repeats after 63 attempts.  Before an attempt the driver drains the REPLY
ring, but commands of earlier timed-out attempts may still stand in the COMMAND ring.

* `stale_reply_accepted`: with a queue of two slots, one timed-out attempt and 62 refused
  ones, the 64th attempt takes the late reply to the first command for its own.  The write
  is reported done while its command has not even been executed.
* `reply_matches`: in a run in which no command is sent while another one with the same
  number is still under way, an accepted reply always answers the command sent last, in any
  interleaving with the firmware; and a write that returns 0 has been executed, is the last
  thing the firmware did, and stays in force until the next command is sent.
* `Numbered.fresh_of_young`: commands under way that are all less than 63 attempts old never
  share a number with the one about to be sent.
-/
import S9p.Acpm.Transaction

namespace S9p.Acpm

open Device

variable {q : Nat} {s t : Shm}

/-! ## 1. The reply of a call that returns

The two properties are those a caller relies on.  The first is about the reply, the second about the
register it stands for. -/

/-- **The reply consumed answers the very command sent last.**  A firmware code comes with a
reply, and every word of that reply belongs to the attempt the kernel made last. -/
def AnswersLast (s : Shm) (res : XferResult) : Prop :=
  0 ≤ res.ret → ∃ r, res.reply = some r ∧ ∀ k, (r.get k).src = ⟨.kernel, s.kernelNo⟩

/-- **A write that returned 0 is in force.**  Nothing is under way any more, the register
holds the value, and the firmware on its own cannot change the register file. -/
def WriteInForce (q : Nat) (c : Call) (s : Shm) (res : XferResult) : Prop :=
  ∀ reg val tm, c = .write reg val tm → res.ret = 0 →
    outstanding q s = [] ∧ s.pmic 1 reg = val ∧
      ∀ t, (channel q).Drift s t → t.pmic = s.pmic

/-- The condition on a step: no command is sent while one that carries the same sequence number is
still under way.  It compares the six bits of the command that stands in the slot with those of the
commands under way, and so does not depend on how many attempts lie between them. -/
def freshNumber (q : Nat) : Call → Shm → (o : Op) → Unit → Bool
  | _, s, .wrTxFront _, _ =>
      (heads q s).all (fun c => seqOf c.bits != seqOf (s.txSlot s.txFront).w0.bits)
  | _, _, _, _ => true

/-! ## 2. The commands under way are numbered in order

Attempts are numbered from one and never repeat; the six bits in the command repeat after 63 of
them.  All commands under way together are in the order of their attempts, which is what makes the
newest one the last of the list. -/

/-- The commands under way are the kernel's, in the order of their attempts, the last of them
at most `n`, and each carries the number its attempt had. -/
structure Ordered (l : List Cell) (n : Nat) : Prop where
  kernel : ∀ c ∈ l, c.src.who = .kernel
  seq : ∀ c ∈ l, (seqOf c.bits).toNat = c.src.no % 63 + 1
  sorted : (l.map (fun c => c.src.no)).Pairwise (· < ·)
  le : ∀ c ∈ l, c.src.no ≤ n

theorem Ordered.nil (n : Nat) : Ordered [] n := ⟨by simp, by simp, by simp, by simp⟩

theorem Ordered.mono {l : List Cell} {m n : Nat} (h : Ordered l m) (hmn : m ≤ n) :
    Ordered l n := { h with le := fun c hc => (h.le c hc).trans hmn }

theorem Ordered.drop {l : List Cell} {n : Nat} (h : Ordered l n) (k : Nat) :
    Ordered (l.drop k) n where
  kernel := fun c hc => h.kernel c (List.mem_of_mem_drop hc)
  seq := fun c hc => h.seq c (List.mem_of_mem_drop hc)
  sorted := by
    rw [List.map_drop]
    exact h.sorted.sublist (List.drop_sublist k _)
  le := fun c hc => h.le c (List.mem_of_mem_drop hc)

theorem Ordered.append {l : List Cell} {n : Nat} {c : Cell} (h : Ordered l n)
    (hlt : n < c.src.no) (hk : c.src.who = .kernel)
    (hs : (seqOf c.bits).toNat = c.src.no % 63 + 1) : Ordered (l ++ [c]) c.src.no where
  kernel := by
    intro d hd
    rcases List.mem_append.mp hd with hd | hd
    · exact h.kernel d hd
    · rw [List.mem_singleton.mp hd]; exact hk
  seq := by
    intro d hd
    rcases List.mem_append.mp hd with hd | hd
    · exact h.seq d hd
    · rw [List.mem_singleton.mp hd]; exact hs
  sorted := by
    rw [List.map_append, List.pairwise_append]
    refine ⟨h.sorted, by simp, ?_⟩
    intro a ha b hb
    obtain ⟨d, hd, rfl⟩ := List.mem_map.mp ha
    simp only [List.map_cons, List.map_nil, List.mem_singleton] at hb
    have := h.le d hd
    omega
  le := by
    intro d hd
    rcases List.mem_append.mp hd with hd | hd
    · have := h.le d hd
      omega
    · rw [List.mem_singleton.mp hd]

/-- What stands before the newest command is older. -/
theorem Ordered.lt_of_append {l l' : List Cell} {c d : Cell} {n : Nat}
    (h : Ordered (l ++ c :: l') n) (hd : d ∈ l) : d.src.no < c.src.no := by
  have hs := h.sorted
  rw [List.map_append, List.pairwise_append] at hs
  exact hs.2.2 _ (List.mem_map_of_mem hd) _ (by simp)

/-- Behind the newest command there is nothing. -/
theorem Ordered.nil_of_append {l l' : List Cell} {c : Cell} {n : Nat}
    (h : Ordered (l ++ c :: l') n) (hc : c.src.no = n) : l' = [] := by
  cases l' with
  | nil => rfl
  | cons d l'' =>
    have hs := h.sorted
    rw [List.map_append, List.pairwise_append] at hs
    have h1 : c.src.no < d.src.no := by
      have := hs.2.1
      simp only [List.map_cons, List.pairwise_cons, List.mem_cons] at this
      exact this.1 _ (.inl rfl)
    have h2 : d.src.no ≤ n := h.le d (by simp)
    omega

/-! ## 3. Commands and what they do to the register file

The words of a slot are written one by one and might come from different attempts; those of a
command that is in the ring do not. -/

/-- All four words of a message belong to the same attempt. -/
def Whole (m : Msg) : Prop := ∀ k, (m.get k).src = m.w0.src

theorem whole_ofCmd (src : Src) (cmd : Cmd) : Whole (Msg.ofCmd src cmd)
  | 0 | 1 | 2 | 3 => rfl

theorem whole_replyTo (m : Msg) (pmic : BitVec 4 → BitVec 8 → BitVec 8) (code : BitVec 8) :
    Whole (replyTo m pmic code)
  | 0 | 1 | 2 | 3 => rfl

/-- The code the firmware reports is the code in the reply. -/
theorem replyCode_replyTo (m : Msg) (pmic : BitVec 4 → BitVec 8 → BitVec 8) (code : BitVec 8) :
    replyCode (replyTo m pmic code) = code.setWidth 32 := by
  have h1 : Field.field 24 0xff#32 (m.w1.bits &&& 0xff#32) = 0#32 :=
    Field.field_outside (by rw [BitVec.and_assoc]; simp)
  have h2 : ∀ v : BitVec 8, v.setWidth 32 <<< 8 &&& (0xff#32 <<< 24) = 0#32 := by decide
  have h3 : ∀ v : BitVec 8, v.setWidth 32 &&& 0xff#32 = v.setWidth 32 := by decide
  simp only [replyCode, replyTo, Field.field_or, h1, Field.field_outside (h2 _),
    Field.field_shift (show (0xff#32 <<< 24) >>> 24 = 0xff#32 by decide), h3, BitVec.zero_or]

/-- Renumbering a command changes nothing of what it does. -/
theorem execute_stamp (src : Src) (cmd : Cmd) (seq : Word) :
    execute (Msg.ofCmd src (stamp cmd seq)) = execute (Msg.ofCmd src cmd) := by
  have h : ∀ (off : Nat) (mask : Word), ~~~(0x3f#32 <<< 16) &&& (mask <<< off) = mask <<< off →
      (BitVec.allOnes 32 <<< 16) &&& (mask <<< off) = 0#32 →
      Field.field off mask (stamp cmd seq).w0 = Field.field off mask cmd.w0 := by
    intro off mask h1 h2
    simp only [stamp, Field.field_or, Field.field_keep h1, Field.field_shift_outside h2,
      BitVec.or_zero]
  have ht : cmdType (Msg.ofCmd src (stamp cmd seq)) = cmdType (Msg.ofCmd src cmd) :=
    congrArg (BitVec.setWidth 4) (h 8 0xf#32 (by decide) (by decide))
  have hr : cmdReg (Msg.ofCmd src (stamp cmd seq)) = cmdReg (Msg.ofCmd src cmd) :=
    congrArg (BitVec.setWidth 8) (h 0 0xff#32 (by decide) (by decide))
  funext pmic
  simp only [execute, ht, hr]
  rfl

/-- A field of a byte is the byte. -/
theorem setWidth_field_byte (b : BitVec 8) :
    (Field.field 0 0xff#32 (b.setWidth 32 &&& 0xff#32)).setWidth 8 = b := by
  revert b
  decide

theorem cmdType_mkCmd (src : Src) (func reg val mask : BitVec 8) :
    cmdType (Msg.ofCmd src (mkCmd func reg val mask)) = 1 := by
  have h : ∀ b : BitVec 8, (b.setWidth 32 &&& 0xff#32) &&& (0xf#32 <<< 8) = 0#32 := by decide
  simp only [cmdType, Msg.ofCmd, Quad.map, mkCmd, Field.field_or, Field.field_outside (h reg)]
  decide

theorem cmdReg_mkCmd (src : Src) (func reg val mask : BitVec 8) :
    cmdReg (Msg.ofCmd src (mkCmd func reg val mask)) = reg := by
  have h : Field.field 0 0xff#32 ((ACPM_TYPE_PMIC &&& 0xf#32) <<< 8) = 0#32 := by decide
  simp only [cmdReg, Msg.ofCmd, Quad.map, mkCmd, Field.field_or, h, BitVec.zero_or]
  exact setWidth_field_byte reg

theorem cmdFunc_mkCmd (src : Src) (func reg val mask : BitVec 8) :
    cmdFunc (Msg.ofCmd src (mkCmd func reg val mask)) = func := by
  simp only [cmdFunc, Msg.ofCmd, Quad.map, mkCmd, Field.field_or,
    Field.field_shift_outside (show (BitVec.allOnes 32 <<< 8) &&& (0xff#32 <<< 0) = 0#32 by decide),
    Field.field_shift_outside
      (show (BitVec.allOnes 32 <<< 16) &&& (0xff#32 <<< 0) = 0#32 by decide),
    BitVec.or_zero]
  exact setWidth_field_byte func

theorem cmdVal_mkCmd (src : Src) (func reg val mask : BitVec 8) :
    cmdVal (Msg.ofCmd src (mkCmd func reg val mask)) = val := by
  have h : ∀ b : BitVec 8, (b.setWidth 32 &&& 0xff#32) &&& (0xff#32 <<< 8) = 0#32 := by decide
  have hv : ∀ b : BitVec 8, (b.setWidth 32 &&& 0xff#32 &&& 0xff#32).setWidth 8 = b := by decide
  simp only [cmdVal, Msg.ofCmd, Quad.map, mkCmd, Field.field_or, Field.field_outside (h func),
    Field.field_shift_outside
      (show (BitVec.allOnes 32 <<< 16) &&& (0xff#32 <<< 8) = 0#32 by decide),
    Field.field_shift (show (0xff#32 <<< 8) >>> 8 = 0xff#32 by decide),
    BitVec.or_zero, BitVec.zero_or, hv]

/-- An executed write command has written. -/
theorem execute_write (src : Src) (reg val mask : BitVec 8)
    (pmic : BitVec 4 → BitVec 8 → BitVec 8) :
    execute (Msg.ofCmd src (mkCmd FUNC_WRITE reg val mask)) pmic 1 reg = val := by
  simp [execute, cmdType_mkCmd, cmdReg_mkCmd, cmdFunc_mkCmd, cmdVal_mkCmd]

/-! ## 4. The phases of a transaction

`Eff` is the effect that a code of zero is to stand for.  The phases are proved for any such effect,
and a write is the case that matters. -/

section Phases

variable (q) (Eff : (BitVec 4 → BitVec 8 → BitVec 8) → Prop)

/-- The commands of which the effect on the register file is `Eff`. -/
def Achieves (cmd : Cmd) : Prop := ∀ src pmic, Eff (execute (Msg.ofCmd src cmd) pmic)

/-- Between attempts: the commands under way are in order, and `seq` is the number of the attempt
made last.  It is the invariant between two attempts, and between two calls. -/
structure Calm (s : Shm) : Prop where
  idx : Idx q s
  ordered : Ordered (heads q s) s.kernelNo
  whole : ∀ m ∈ outstanding q s, Whole m
  seq : s.seq.toNat = s.kernelNo % 63 + 1

/-- Attempt `no` has its number and nothing of it is in the ring yet. -/
structure Numbered (no : Nat) (num : Word) (s : Shm) : Prop extends Calm q s where
  pos : 0 < no
  no_eq : s.kernelNo = no
  num_eq : s.seq = num
  older : ∀ c ∈ heads q s, c.src.no < no

/-- What the firmware does with the command of attempt `no`: while it waits it is `cmd`, and
once it has been answered with code 0 its effect is in force. -/
def Job.Honest (no : Nat) (cmd : Cmd) (s : Shm) : Job → Prop
  | .fetched m => m.w0.src.no = no → m = Msg.ofCmd ⟨.kernel, no⟩ cmd
  | .executed r => r.w0.src.no = no → replyCode r = 0 → Eff s.pmic

/-- The command `cmd` of attempt `no` is the last one sent.  Only what belongs to this attempt is
followed closely; all that is older is known by its number. -/
structure Sent (no : Nat) (cmd : Cmd) (s : Shm) : Prop extends Calm q s where
  no_eq : s.kernelNo = no
  unique : ∀ c ∈ heads q s, seqOf c.bits = seqOf cmd.w0 → c.src.no = no
  waiting : ∀ m ∈ txMsgs q s, m.w0.src.no = no → m = Msg.ofCmd ⟨.kernel, no⟩ cmd
  job : ∀ j ∈ s.job, j.Honest Eff no cmd s
  replied : ∀ r ∈ rxMsgs q s, r.w0.src.no = no → replyCode r = 0 → Eff s.pmic

/-- The reply `r` to attempt `no` has been accepted: nothing is under way any more.  The firmware
cannot do anything from here on, until another command is sent. -/
structure Answered (no : Nat) (r : Msg) (s : Shm) : Prop extends Calm q s where
  no_eq : s.kernelNo = no
  src : ∀ k, (r.get k).src = ⟨.kernel, no⟩
  settled : outstanding q s = []
  effect : replyCode r = 0 → Eff s.pmic

variable {q Eff}

/-- A step that keeps the list of commands under way and the kernel's statics keeps `Calm`. -/
theorem Calm.congr (h : Calm q s) (hi : Idx q t) (ho : outstanding q t = outstanding q s)
    (hn : t.kernelNo = s.kernelNo) (hs : t.seq = s.seq) : Calm q t where
  idx := hi
  ordered := by rw [heads, ho, hn]; exact h.ordered
  whole := by rw [ho]; exact h.whole
  seq := by rw [hs, hn]; exact h.seq

/-- Dropping a prefix keeps `Calm`. -/
theorem Calm.cut (h : Calm q s) {L : List Msg} (hL : L <+: rxMsgs q s) :
    Calm q { s with rxRear := (s.rxRear + L.length) % q } where
  idx := { h.idx with rxRear := Nat.mod_lt _ h.idx.pos }
  ordered := by
    rw [heads, outstanding_cut h.idx hL, List.map_drop]
    exact h.ordered.drop _
  whole := by
    rw [outstanding_cut h.idx hL]
    exact fun m hm => h.whole m (List.mem_of_mem_drop hm)
  seq := h.seq

theorem calm_stable : (channel q).Stable (Calm q) := by
  intro e s t h hs
  obtain ⟨-, -, -, hseq, hno, -⟩ := apm_frame h
  refine ⟨idx_stable e s t h hs.idx, ?_, ?_, by rw [hseq, hno]; exact hs.seq⟩
  · rw [heads_apm hs.idx h, hno]
    exact hs.ordered
  · intro m hm
    rcases apm_cases hs.idx h with ⟨m', hj, htx, hrx, ht⟩ | ⟨m', code, hj, rfl⟩ |
      ⟨r, hj, hrx, htx, -, ht⟩
    · have hjt : t.job = some (.fetched m') := by rw [ht]
      refine hs.whole m ?_
      simp only [outstanding, hj, hjt, htx, hrx, Option.toList_some, Option.toList_none,
        List.map_cons, List.map_nil, List.nil_append, Job.msg] at hm ⊢
      exact hm
    · simp only [outstanding, Option.toList_some, List.map_cons, List.map_nil, Job.msg,
        List.mem_append, List.mem_singleton] at hm
      rcases hm with hm | rfl | hm
      · exact hs.whole m (List.mem_append_left _ hm)
      · exact whole_replyTo _ _ _
      · exact hs.whole m (List.mem_append_right _ (List.mem_append_right _ hm))
    · have hjt : t.job = none := by rw [ht]
      refine hs.whole m ?_
      simp only [outstanding, hj, hjt, htx, hrx, Option.toList_some, Option.toList_none,
        List.map_cons, List.map_nil, List.nil_append, Job.msg, List.append_assoc] at hm ⊢
      exact hm

/-- Behind an unread reply of attempt `no`, the last, nothing is under way. -/
theorem Calm.settled (h : Calm q s) {A B : List Msg} {r : Msg}
    (hsplit : outstanding q s = A ++ r :: B) (hr : r.w0.src.no = s.kernelNo) : B = [] := by
  have ho := h.ordered
  rw [heads, hsplit, List.map_append, List.map_cons] at ho
  have := ho.nil_of_append hr
  simpa using this

/-- A command in front of the newest one is older. -/
theorem Calm.older (h : Calm q s) {A B : List Msg} {m r : Msg}
    (hsplit : outstanding q s = A ++ m :: B) (hr : r ∈ A) : r.w0.src.no < m.w0.src.no := by
  have ho := h.ordered
  rw [heads, hsplit, List.map_append, List.map_cons] at ho
  exact ho.lt_of_append (List.mem_map_of_mem hr)

theorem Calm.no_le (h : Calm q s) {m : Msg} (hm : m ∈ outstanding q s) :
    m.w0.src.no ≤ s.kernelNo := h.ordered.le m.w0 (List.mem_map_of_mem hm)

theorem sent_stable {cmd : Cmd} (hC : Achieves Eff cmd) (no : Nat) :
    (channel q).Stable (Sent q Eff no cmd) := by
  intro e s t h hs
  obtain ⟨-, -, -, -, hno, -⟩ := apm_frame h
  have hcalm : Calm q t := calm_stable e s t h hs.toCalm
  have hunique : ∀ c ∈ heads q t, seqOf c.bits = seqOf cmd.w0 → c.src.no = no := by
    rw [heads_apm hs.idx h]
    exact hs.unique
  rcases apm_cases hs.idx h with ⟨m, hj, htx, hrx, ht⟩ | ⟨m, code, hj, rfl⟩ |
    ⟨r, hj, hrx, htx, -, ht⟩
  · have hjt : t.job = some (.fetched m) := by rw [ht]
    have hp : t.pmic = s.pmic := by rw [ht]
    refine ⟨hcalm, hno.trans hs.no_eq, hunique, ?_, ?_, ?_⟩
    · exact fun m' hm' => hs.waiting m' (htx ▸ List.mem_cons_of_mem _ hm')
    · intro j hj'
      rw [hjt, Option.mem_some_iff] at hj'
      subst hj'
      exact hs.waiting m (htx ▸ List.mem_cons_self)
    · rw [hrx, hp]
      exact hs.replied
  · -- the command is executed: it is the one sent, or an older one and not yet answered
    have hjob := hs.job _ (by rw [hj]; rfl)
    have hsplit : outstanding q s = rxMsgs q s ++ m :: txMsgs q s := by
      simp [outstanding, hj, Job.msg]
    have hle : m.w0.src.no ≤ no := hs.no_eq ▸ hs.toCalm.no_le (by rw [hsplit]; simp)
    refine ⟨hcalm, hs.no_eq, hunique, hs.waiting, ?_, ?_⟩
    · intro j hj'
      simp only [Option.mem_def, Option.some.injEq] at hj'
      subst hj'
      intro hn hcode
      have hm : m = Msg.ofCmd ⟨.kernel, no⟩ cmd := hjob hn
      have hc0 : ∀ c : BitVec 8, c.setWidth 32 = 0#32 → c = 0 := by decide
      rw [replyCode_replyTo] at hcode
      simp only [hc0 code hcode, if_true, hm]
      exact hC _ _
    · intro r hr hn
      have := hs.toCalm.older hsplit hr
      omega
  · have hjt : t.job = none := by rw [ht]
    have hp : t.pmic = s.pmic := by rw [ht]
    refine ⟨hcalm, hno.trans hs.no_eq, hunique, htx ▸ hs.waiting, by simp [hjt], ?_⟩
    rw [hrx, hp]
    intro r' hr'
    rcases List.mem_append.mp hr' with hr' | hr'
    · exact hs.replied r' hr'
    · rw [List.mem_singleton.mp hr']
      exact hs.job (.executed r) (by rw [hj]; rfl)

/-- With nothing under way the firmware cannot take a step. -/
theorem no_step_of_settled (hi : Idx q s) (h : outstanding q s = []) (e : ApmEv) :
    apm q e s = none := by
  cases hstep : apm q e s with
  | none => rfl
  | some t =>
    exfalso
    rcases apm_cases hi hstep with ⟨m, -, htx, -, -⟩ | ⟨m, code, hj, -⟩ | ⟨r, hj, -, -, -, -⟩
    · simp [outstanding, htx] at h
    · simp [outstanding, hj] at h
    · simp [outstanding, hj] at h

theorem drift_of_settled (hi : Idx q s) (h : outstanding q s = []) (ht : (channel q).Drift s t) :
    t = s := by
  induction ht with
  | refl => rfl
  | tail _ hst ih =>
    subst ih
    obtain ⟨e, he⟩ := hst
    exact absurd ((no_step_of_settled hi h e).symm.trans he) (by simp)

theorem answered_stable (no : Nat) (r : Msg) : (channel q).Stable (Answered q Eff no r) := by
  intro e s t h hs
  exact absurd ((no_step_of_settled hs.idx hs.settled e).symm.trans h) (by simp)

/-- **The reply that is accepted answers the command sent last**, as the only one under way
that carries the wanted number. -/
theorem Sent.accept {no : Nat} {cmd : Cmd} {L : List Msg} {r : Msg} (h : Sent q Eff no cmd s)
    (hL : L <+: rxMsgs q s) (hr : lastMatch (some (seqOf cmd.w0)) L = some r) :
    Answered q Eff no r { s with rxRear := (s.rxRear + L.length) % q } := by
  obtain ⟨hrL, hseq⟩ := lastMatch_some hr
  have hrx : r ∈ rxMsgs q s := hL.subset hrL
  have hmem : r ∈ outstanding q s := List.mem_append_left _ hrx
  have hhead : r.w0 ∈ heads q s := List.mem_map_of_mem hmem
  have hno : r.w0.src.no = no := h.unique _ hhead (Option.some.inj hseq).symm
  refine ⟨h.toCalm.cut hL, h.no_eq, ?_, ?_, h.replied r hrx hno⟩
  · intro k
    rw [h.whole r hmem k, ← hno, ← h.ordered.kernel _ hhead]
  · -- `r` is the newest of all, so it is the last entry, and the drop takes everything
    rw [outstanding_cut h.idx hL]
    obtain ⟨A, B, hAB⟩ := List.append_of_mem hrL
    obtain ⟨T, hT⟩ := hL
    have hsplit : outstanding q s =
        A ++ r :: (B ++ (T ++ (s.job.toList.map Job.msg ++ txMsgs q s))) := by
      rw [outstanding, ← hT, hAB]
      simp [List.append_assoc]
    have hnil := h.toCalm.settled hsplit (hno.trans h.no_eq.symm)
    rw [hsplit, hnil, hAB]
    simp only [List.append_eq_nil_iff] at hnil
    rw [hnil.1]
    simp

/-- Dequeuing replies that are not the awaited one. -/
theorem Sent.cut {no : Nat} {cmd : Cmd} {L : List Msg} (h : Sent q Eff no cmd s)
    (hL : L <+: rxMsgs q s) :
    Sent q Eff no cmd { s with rxRear := (s.rxRear + L.length) % q } where
  toCalm := h.toCalm.cut hL
  no_eq := h.no_eq
  unique := by
    rw [heads, outstanding_cut h.idx hL, List.map_drop]
    exact fun c hc => h.unique c (List.mem_of_mem_drop hc)
  waiting := h.waiting
  job := fun j hj => by
    have := h.job j hj
    cases j <;> exact this
  replied := by
    rw [rxMsgs_cut h.idx hL]
    exact fun r hr => h.replied r (List.mem_of_mem_drop hr)

/-- Numbering an attempt makes every command under way an older one. -/
theorem Calm.number (h : Calm q s) : Numbered q (s.kernelNo + 1) (nextSeq s.seq)
    { s with seq := nextSeq s.seq, kernelNo := s.kernelNo + 1 } where
  idx := { h.idx with }
  ordered := h.ordered.mono (Nat.le_succ _)
  whole := h.whole
  seq := by
    have := h.seq
    simp only [nextSeq_toNat]
    omega
  pos := Nat.succ_pos _
  no_eq := rfl
  num_eq := rfl
  older := fun c hc => Nat.lt_succ_of_le (h.ordered.le c hc)

theorem Numbered.write {no : Nat} {num : Word} (h : Numbered q no num s) (m : Msg) :
    Numbered q no num { s with txSlot := Function.update s.txSlot s.txFront m } := by
  have ho := outstanding_write h.idx m
  refine ⟨h.toCalm.congr { h.idx with } ho rfl rfl, h.pos, h.no_eq, h.num_eq, ?_⟩
  rw [heads, ho]
  exact h.older

theorem Numbered.num_toNat {no : Nat} {num : Word} (h : Numbered q no num s) :
    num.toNat = no % 63 + 1 := h.num_eq ▸ h.no_eq ▸ h.seq

theorem Numbered.num_and {no : Nat} {num : Word} (h : Numbered q no num s) :
    num &&& 0x3f#32 = num := by
  have := h.num_toNat
  exact and_of_lt (by omega)

/-- **Numbers repeat after 63 attempts, not sooner.**  A command under way that is less than 63
attempts old does not carry the number of the attempt being made. -/
theorem Numbered.fresh_of_young {no : Nat} {num : Word} (h : Numbered q no num s) {c : Cell}
    (hc : c ∈ heads q s) (hyoung : no < c.src.no + 63) : seqOf c.bits ≠ num := by
  intro hsame
  have hseq := h.ordered.seq c hc
  rw [hsame, h.num_toNat] at hseq
  have := h.older c hc
  omega

theorem Achieves.stamp {cmd : Cmd} (hC : Achieves Eff cmd) (num : Word) :
    Achieves Eff (stamp cmd num) := fun src pmic => by
  rw [execute_stamp]
  exact hC src pmic

/-- **Publishing.**  The command goes behind all others, none of which has its number, and
nothing that is the firmware's yet belongs to its attempt. -/
theorem Numbered.publish {no : Nat} {num : Word} {cmd : Cmd} {c : Call}
    (h : Numbered q no num s) (hroom : Ring.succ q s.txFront ≠ s.txRear)
    (hok : freshNumber q c s (.wrTxFront (Ring.succ q s.txFront)) () = true)
    (hslot : s.txSlot s.txFront = Msg.ofCmd ⟨.kernel, no⟩ (stamp cmd num)) :
    Sent q Eff no (stamp cmd num) { s with txFront := Ring.succ q s.txFront } := by
  have ho := outstanding_publish h.idx hroom
  rw [hslot] at ho
  have hheads : heads q { s with txFront := Ring.succ q s.txFront } =
      heads q s ++ [⟨(stamp cmd num).w0, ⟨.kernel, no⟩⟩] := by
    rw [heads, ho, List.map_append]
    rfl
  have hseq : (seqOf (stamp cmd num).w0).toNat = no % 63 + 1 := by
    rw [seqOf_stamp cmd h.num_and, h.num_toNat]
  have hprev : Ordered (heads q s) (no - 1) :=
    { h.ordered with le := fun c hc => Nat.le_sub_one_of_lt (h.older c hc) }
  have hnone : ∀ m ∈ outstanding q s, m.w0.src.no ≠ no := fun m hm =>
    (h.older m.w0 (List.mem_map_of_mem hm)).ne
  exact {
    idx := { h.idx with txFront := Ring.succ_lt h.idx.pos }
    ordered := by
      rw [hheads, h.no_eq]
      exact hprev.append (by have := h.pos; simp only; omega) rfl hseq
    whole := by
      rw [ho]
      intro m hm
      rcases List.mem_append.mp hm with hm | hm
      · exact h.whole m hm
      · rw [List.mem_singleton.mp hm]
        exact whole_ofCmd _ _
    seq := h.seq
    no_eq := h.no_eq
    unique := by
      rw [hheads]
      intro d hd hsame
      rcases List.mem_append.mp hd with hd | hd
      · have hne := List.all_eq_true.mp hok d hd
        rw [hslot] at hne
        exact absurd hsame (by simpa [Msg.ofCmd, Quad.map] using hne)
      · rw [List.mem_singleton.mp hd]
    waiting := by
      intro m hm hn
      have hm' : m ∈ outstanding q { s with txFront := Ring.succ q s.txFront } :=
        List.mem_append_right _ (List.mem_append_right _ hm)
      rw [ho] at hm'
      rcases List.mem_append.mp hm' with hm' | hm'
      · exact absurd hn (hnone m hm')
      · exact List.mem_singleton.mp hm'
    job := by
      intro j hj
      have hmem : j.msg ∈ outstanding q s :=
        List.mem_append_right _ (List.mem_append_left _
          (List.mem_map_of_mem (Option.mem_toList.mpr hj)))
      cases j <;> exact fun hn => absurd hn (hnone _ hmem)
    replied := fun r hr hn => absurd hn (hnone r (List.mem_append_left _ hr)) }

/-- The phases, with the firmware code 0 standing for the effect `Eff`. -/
def matching (q : Nat) (Eff : (BitVec 4 → BitVec 8 → BitVec 8) → Prop) (c : Call) :
    Phases q (freshNumber q c) (fun _ _ => True) (Achieves Eff) where
  idle := Calm q
  numbered := Numbered q
  sent no cmd s := Achieves Eff cmd ∧ Sent q Eff no cmd s
  answered no _ r := Answered q Eff no r
  idle_stable := calm_stable
  numbered_stable := fun no num e s t h hs => by
    obtain ⟨-, -, -, hseq, hno, -⟩ := apm_frame h
    refine ⟨calm_stable e s t h hs.toCalm, hs.pos, hno.trans hs.no_eq, hseq.trans hs.num_eq, ?_⟩
    rw [heads_apm hs.idx h]
    exact hs.older
  sent_stable := fun no cmd e s t h hs => ⟨hs.1, sent_stable hs.1 no e s t h hs.2⟩
  answered_stable := fun no _ r => answered_stable no r
  idle_idx := fun _ h => h.idx
  numbered_idx := fun _ _ _ h => h.idx
  sent_idx := fun _ _ _ h => h.2.idx
  numbered_no := fun _ _ _ h => h.no_eq
  idle_step := fun _ _ _ => trivial
  numbered_step := fun _ _ _ _ _ => trivial
  sent_step := fun _ _ _ _ _ => trivial
  answered_step := fun _ _ _ _ _ _ => trivial
  idle_cut := fun _ _ h hL => h.cut hL
  idle_ack := fun _ h => h.congr { h.idx with } rfl rfl rfl
  idle_number := fun _ h => h.number
  numbered_write := fun _ _ _ m h => h.write m
  numbered_idle := fun _ _ _ h => h.toCalm
  publish := fun _ _ _ _ hC h hroom hok hslot => ⟨hC.stamp _, h.publish hroom hok hslot⟩
  sent_idle := fun _ _ _ h => h.2.toCalm
  sent_cut := fun _ _ _ _ h hL _ => ⟨h.1, h.2.cut hL⟩
  sent_ack := fun _ _ _ h => ⟨h.1, { h.2 with
    toCalm := h.2.toCalm.congr { h.2.idx with } rfl rfl rfl
    job := fun j hj => by
      have := h.2.job j hj
      cases j <;> exact this }⟩
  accept := fun _ _ _ _ _ _ h hL hr => h.2.accept hL hr
  answered_ack := fun _ _ _ _ h =>
    { h with toCalm := h.toCalm.congr { h.idx with } rfl rfl rfl }
  answered_ready := fun _ _ _ _ h =>
    { h with toCalm := h.toCalm.congr { h.idx with } rfl rfl rfl }
  stamped := fun _ _ hC => hC.stamp _

end Phases

/-! ## 5. Every run whose sends meet the condition

The run lemma of `System` carries the phases through all calls.  What a call leaves is `Calm`, which
is where the next one begins. -/

/-- What a successful call has done to the register file. -/
def Call.Eff : Call → (BitVec 4 → BitVec 8 → BitVec 8) → Prop
  | .write reg val _ => fun pmic => pmic 1 reg = val
  | _ => fun _ => True

/-- What is left when a call has returned. -/
def Returned (q : Nat) (c : Call) (res : XferResult) (t : Shm) : Prop :=
  Calm q t ∧ AnswersLast t res ∧ WriteInForce q c t res

theorem Boot.calm (h : Boot q s) : Calm q s where
  idx := h.toIdx
  ordered := by
    rw [heads, h.outstanding_nil]
    exact Ordered.nil _
  whole := by simp [h.outstanding_nil]
  seq := by simp [h.seq, h.fresh]

/-- A call that has returned a negative number promises nothing. -/
theorem returned_of_neg {c : Call} {res : XferResult} (hret : res.ret < 0) (h : Calm q t) :
    Returned q c res t := by
  refine ⟨h, fun h0 => absurd h0 (by omega), ?_⟩
  intro reg val tm _ h0
  omega

/-- An accepted reply settles the call. -/
theorem Answered.returned {c : Call} {no : Nat} {r : Msg} {res : XferResult}
    (h : Answered q c.Eff no r t) (hr : res.reply = some r)
    (hret : res.ret = ((replyCode r).toNat : Int)) : Returned q c res t := by
  refine ⟨h.toCalm, fun _ => ⟨r, hr, fun k => h.no_eq ▸ h.src k⟩, ?_⟩
  rintro reg val tm rfl h0
  have hcode : replyCode r = 0 := by
    apply BitVec.eq_of_toNat_eq
    simp only [BitVec.ofNat_eq_ofNat, BitVec.toNat_ofNat]
    omega
  refine ⟨h.settled, h.effect hcode, ?_⟩
  intro u hu
  rw [drift_of_settled h.idx h.settled hu]

/-- The command of a call has the effect of the call. -/
theorem achieves_cmd (c : Call) : Achieves c.Eff c.cmd := by
  intro src pmic
  cases c with
  | write reg val tm => exact execute_write src reg val 0 pmic
  | update reg val mask tm => trivial
  | read reg tm => trivial

/-- **Reply matching.**  In every run in which no command is sent while another one with the
same number is under way, a call that returns a firmware code has consumed the reply to the
command it sent last; and when a write returns 0, all commands have been executed, the
register holds the value, and nothing the firmware still does can change that. -/
theorem reply_matches {c : Call} {s s₀ : Shm} {res : XferResult}
    (h : (acpm q).Reach (freshNumber q) s (some ⟨c, s₀, .ret res⟩)) :
    AnswersLast s res ∧ WriteInForce q c s res := by
  have hcall : ∀ c s, Calm q s → (acpm q).enabled c s = true →
      wp (channel q) (freshNumber q c) (fun _ _ => True) ((acpm q).call c)
        (fun res t => Returned q c res t) s := by
    intro c s hs _
    refine wp_mono ?_ (wp_call (matching q c.Eff c) (achieves_cmd c) hs)
    rintro res t (⟨hret, -, hcalm⟩ | ⟨r, no, cmd, hr, hret, -, hans⟩)
    · exact returned_of_neg hret hcalm
    · exact Answered.returned hans hr hret
  have := System.reach_holds (fun s hs => Boot.calm hs) calm_stable hcall
    (fun _ _ _ _ h => h.1) h
  exact this.at_ret.2.2

/-- The configuration is a write of `val` to register 0x10 that has returned 0. -/
def wrote (val : BitVec 8) (x : Shm × Option (Thread Op Ans Shm Call XferResult)) : Bool :=
  match x.2 with
  | some ⟨.write reg v _, _, .ret res⟩ => reg = 0x10 ∧ v = val ∧ res.ret = 0
  | _ => false

/-- A write that is answered at once. -/
def answeredRun : List (System.Ev ApmEv Unit Call) :=
  .start (writeOf 0x50 1) :: accesses 14 ++ [.env .fetch, .env (.exec 0), .env .reply] ++
    accesses 11

theorem reply_matches_answered : ∃ s s₀ tm res,
    (acpm 2).Reach (freshNumber 2) s (some ⟨.write 0x10 0x50 tm, s₀, .ret res⟩) ∧
      res.ret = 0 ∧ AnswersLast s res ∧ WriteInForce 2 (.write 0x10 0x50 tm) s res := by
  have hrun : ((acpm 2).exec (freshNumber 2) answeredRun (bootShm, none)).any (wrote 0x50) =
      true := by decide +kernel
  obtain ⟨s, p, hr, hp⟩ :=
    System.reach_of_exec (bootShm_boot (by decide) (by decide)) answeredRun _ hrun
  unfold wrote at hp
  split at hp
  · rename_i reg v tm s₀ res hx
    simp only [decide_eq_true_eq] at hp hx
    obtain ⟨rfl, rfl, hret⟩ := hp
    subst hx
    exact ⟨s, s₀, tm, res, hr, hret, reply_matches hr⟩
  · exact absurd hp (by simp)

/-- A write whose first attempt times out and whose other two are refused, 20 writes with all
three attempts refused, and one that begins with the number of the first command again: the
firmware, which has done nothing so far, now answers that first command. -/
def staleRun : List (System.Ev ApmEv Unit Call) :=
  .start (writeOf 0x50 0) :: accesses 28 ++ [.done] ++
    (List.replicate 20 (.start (writeOf 0x50 0) :: accesses 22 ++ [.done])).flatten ++
    .start (writeOf 0x60 1) :: accesses 4 ++ [.env .fetch] ++ accesses 10 ++
    [.env (.exec 0), .env .reply] ++ accesses 11

/-- The reply returned belongs to an older attempt, and the register holds another value. -/
def outOfDate (val : BitVec 8) (x : Shm × Option (Thread Op Ans Shm Call XferResult)) : Bool :=
  match x.2 with
  | some ⟨_, _, .ret ⟨_, _, some r⟩⟩ => r.w0.src.no ≠ x.1.kernelNo ∧ x.1.pmic 1 0x10 ≠ val
  | _ => false

/-- **A stale reply is accepted.**  A write returns 0 with the reply to the first command of
63 attempts ago, and its own command has not been executed. -/
theorem stale_reply_accepted : ∃ s s₀ tm res,
    (acpm 2).Reach System.anyStep s (some ⟨.write 0x10 0x60 tm, s₀, .ret res⟩) ∧
      res.ret = 0 ∧ ¬ AnswersLast s res ∧ ¬ WriteInForce 2 (.write 0x10 0x60 tm) s res := by
  have hrun : ((acpm 2).exec System.anyStep staleRun (bootShm, none)).any
      (fun x => wrote 0x60 x && outOfDate 0x60 x) = true := by decide +kernel
  obtain ⟨s, p, hr, hp⟩ :=
    System.reach_of_exec (bootShm_boot (by decide) (by decide)) staleRun _ hrun
  simp only [Bool.and_eq_true, wrote, outOfDate] at hp
  obtain ⟨hp, hold⟩ := hp
  split at hp
  · rename_i reg v tm s₀ res
    simp only [decide_eq_true_eq] at hp
    obtain ⟨rfl, rfl, hret⟩ := hp
    obtain ⟨ret, retval, _ | r⟩ := res
    · exact absurd hold (by simp)
    · simp only [decide_eq_true_eq] at hold
      refine ⟨s, s₀, tm, _, hr, hret, ?_, ?_⟩
      · intro hlast
        obtain ⟨r', hr', hsrc⟩ := hlast (le_of_eq hret.symm)
        simp only [Option.some.injEq] at hr'
        subst hr'
        exact hold.1 (congrArg Src.no (hsrc 0))
      · intro hforce
        exact hold.2 (hforce _ _ _ rfl hret).2.1
  · exact absurd hp (by simp)

end S9p.Acpm
