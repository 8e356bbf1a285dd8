/-
# Where a run of the tool stands

Between its operations the firmware moves on, on every channel of the table.  The PMIC registers
change when a command on channel 2 is carried out, which may be later than it is sent; `due` is
the register file once everything under way has been.

`Course` is where a run stands: the numbers it has used, and on which channels, what is due, and
that every reply it found on a ring is still there as long as none carries one of the numbers
(`Left`).  Where one does, a reply is gone for good.

* `apmSide_keeps`: a step of the firmware keeps all of this.
* `Course.leads_transact`: one transaction, on a ring or on a buffer, uses the next number.
-/
import S9p.Acpm.Command

namespace S9p.Acpm.Tool

open Device Reading

/-! ## 1. The registers and the start

The tool may be started while replies of earlier runs, or of the driver, are still in the rings.
`Start` asks only that the rings are rings, and that what is marked as the tool's is older than the
run. -/

abbrev Pmic := BitVec 4 → BitVec 8 → BitVec 8

/-- What becomes of a command: it is carried out or refused. -/
def carry (code : Msg → BitVec 8) (m : Msg) (p : Pmic) : Pmic :=
  if code m = 0 then execute m p else p

/-- The register file once every command under way has been carried out or refused. -/
def due (code : Msg → BitVec 8) (q : Nat) (s : Shm) : Pmic :=
  (txMsgs q s).foldl (fun p m => carry code m p) (match s.job with
    | some (.fetched m) => carry code m s.pmic
    | _ => s.pmic)

/-- Nothing is left to carry out. -/
def Settled (q : Nat) (s : Shm) : Prop := s.job = none ∧ txMsgs q s = []

/-- The command with which a run from `w₀` takes its `i`-th number, as it stands in a ring. -/
def attempt (w₀ : World) (id : Word) (i : Nat) (cmd : Cmd) : Msg :=
  Msg.ofCmd ⟨.tool, (w₀.chan id).toolNo + i⟩ (numbered cmd (nextSeq^[i] w₀.seq))

/-- The tool is the only client of the rings, and channel 2 is one.  Nothing is asked of how many
replies there are, or of the numbers they carry. -/
structure Start (T : Firmware) (w : World) : Prop where
  idx : ∀ ch ∈ T.channels, 2 ≤ ch.q → Idx ch.q (w.chan ch.id)
  older : ∀ ch ∈ T.channels, 2 ≤ ch.q → ∀ c ∈ heads ch.q (w.chan ch.id), c.src.who = .tool →
    c.src.no ≤ (w.chan ch.id).toolNo
  ring : ∀ ch ∈ T.channels, ch.id = 2 → 2 ≤ ch.q

/-! ## 2. A step of the firmware

A refused command is due like any other: once it is answered, the registers are as they were. -/

variable {T : Firmware} {code : Msg → BitVec 8} {ch : Channel} {s t : Shm}

/-- On a ring the firmware does what `apm` does, or answers without touching the registers. -/
theorem apmSide_cases {e : ApmStep} (hq : 2 ≤ ch.q) (h : apmSide code ch e s = some t) :
    (∃ e', apm ch.q e' s = some t ∧
      ∀ c m, e' = .exec c → s.job = some (.fetched m) → c = code m) ∨
    (ch.id ≠ 2 ∧ ∃ m r, s.job = some (.fetched m) ∧ r.w0 = m.w0 ∧
      t = { s with job := some (.executed r) }) := by
  have hring : ¬ ch.q ≤ 1 := by omega
  cases e with
  | fetch =>
    simp only [apmSide, if_neg hring] at h
    exact .inl ⟨.fetch, h, fun _ _ h => nomatch h⟩
  | exec w1 w2 w3 =>
    simp only [apmSide, if_neg hring] at h
    split at h
    · rename_i m hm
      split at h
      · refine .inl ⟨.exec (code m), h, fun c m' heq hm' => ?_⟩
        obtain rfl : m = m' := by simpa using hm.symm.trans hm'
        exact (ApmEv.exec.inj heq).symm
      · rename_i hid
        exact .inr ⟨hid, m, ⟨m.w0, ⟨w1, m.w0.src⟩, ⟨w2, m.w0.src⟩, ⟨w3, m.w0.src⟩⟩, hm, rfl,
          (Option.some.inj h).symm⟩
    · exact absurd h (by simp)
  | reply =>
    simp only [apmSide, if_neg hring] at h
    exact .inl ⟨.reply, h, fun _ _ h => nomatch h⟩
  | post m =>
    simp only [apmSide, if_neg hring] at h
    exact absurd h (by simp)

/-- Carrying out a command that is due, or refusing it, changes nothing of what is due. -/
theorem due_apm {q : Nat} {e : ApmEv} (hi : Idx q s) (h : apm q e s = some t)
    (hcode : ∀ c m, e = .exec c → s.job = some (.fetched m) → c = code m) :
    due code q t = due code q s := by
  cases e with
  | exec c =>
    simp only [apm] at h
    split at h
    · rename_i m hm
      obtain rfl := Option.some.inj h
      simp only [due, hm, hcode c m rfl hm]
      rfl
    · exact absurd h (by simp)
  | fetch =>
    rcases apm_cases hi h with ⟨m, hjob, htx, -, rfl⟩ | ⟨m, code, hjob, ht⟩ |
      ⟨r, hjob, -, -, -, ht⟩
    · simp only [due, hjob, htx, List.foldl_cons]
    · simp [apm, hjob] at h
    · simp [apm, hjob] at h
  | reply =>
    rcases apm_cases hi h with ⟨m, hjob, -, -, ht⟩ | ⟨m, code, hjob, ht⟩ |
      ⟨r, hjob, -, htx, -, rfl⟩
    · simp [apm, hjob] at h
    · simp [apm, hjob] at h
    · simp only [due, hjob, htx]

/-- The firmware keeps to its ends of a ring. -/
structure Keeps (code : Msg → BitVec 8) (ch : Channel) (s t : Shm) : Prop where
  idx : Idx ch.q t
  heads : heads ch.q t = heads ch.q s
  unread : rxMsgs ch.q s <+: rxMsgs ch.q t
  room : Ring.succ ch.q s.txFront ≠ s.txRear → Ring.succ ch.q t.txFront ≠ t.txRear
  due : ch.id = 2 → due code ch.q t = due code ch.q s

theorem apmSide_keeps {e : ApmStep} (hq : 2 ≤ ch.q) (hi : Idx ch.q s)
    (h : apmSide code ch e s = some t) : Keeps code ch s t := by
  rcases apmSide_cases hq h with ⟨e', he, hcode⟩ | ⟨hid, m, r, hjob, hr, rfl⟩
  · exact {
      idx := idx_apm hi he
      heads := heads_apm hi he
      unread := (rxMsgs_prefix_stable _ e' s t he ⟨hi, List.prefix_rfl⟩).2
      room := fun hroom => (room_stable e' s t he ⟨hi, hroom⟩).2
      due := fun _ => due_apm hi he hcode }
  · exact {
      idx := { hi with }
      heads := by simp [heads, outstanding, hjob, Job.msg, hr, rxMsgs, txMsgs]
      unread := List.prefix_rfl
      room := fun hroom => hroom
      due := fun h2 => absurd h2 hid }

/-- What is the tool's stays. -/
theorem apmSide_frame {e : ApmStep} (hq : 2 ≤ ch.q) (h : apmSide code ch e s = some t) :
    t.txFront = s.txFront ∧ t.txSlot = s.txSlot ∧ t.rxRear = s.rxRear ∧ t.toolNo = s.toolNo := by
  rcases apmSide_cases hq h with ⟨e', he, -⟩ | ⟨-, m, r, -, -, rfl⟩
  · obtain ⟨h1, h2, h3, -, -, -, -, h8⟩ := apm_frame he
    exact ⟨h1, h2, h3, h8⟩
  · exact ⟨rfl, rfl, rfl, rfl⟩

/-! ## 3. One channel of the world

Each channel is a ring of its own, and the programs of the modules before are run on one of them,
with the others in the frame. -/

theorem Table.eq_of_id {c d : Channel} (hc : c ∈ T.channels) (hd : d ∈ T.channels)
    (h : c.id = d.id) : c = d := List.inj_on_of_nodup_map T.distinct hc hd h

@[simp] theorem World.put_self (w : World) (id : Word) (m : Shm) : (w.put id m).chan id = m :=
  Function.update_self ..

theorem World.put_of_ne {w : World} {id id' : Word} (h : id' ≠ id) (m : Shm) :
    (w.put id m).chan id' = w.chan id' := Function.update_of_ne h ..

/-- A step of the firmware is a step on one channel of the table. -/
theorem env_cases {e : Word × ApmStep} {w u : World} (h : (tool T).env e w = some u) :
    ∃ d ∈ T.channels, ∃ m, apmSide T.code d e.2 (w.chan d.id) = some m ∧ u = w.put d.id m := by
  simp only [tool] at h
  split at h
  · rename_i d hd
    obtain ⟨m, hm, rfl⟩ := Option.map_eq_some_iff.mp h
    exact ⟨d, List.mem_of_find?_eq_some hd, m, hm, rfl⟩
  · exact absurd h (by simp)

/-- What it does to a given channel. -/
theorem chan_env {e : Word × ApmStep} {w u : World} (hch : ch ∈ T.channels)
    (h : (tool T).env e w = some u) :
    u.chan ch.id = w.chan ch.id ∨ apmSide T.code ch e.2 (w.chan ch.id) = some (u.chan ch.id) := by
  obtain ⟨d, hd, m, hm, rfl⟩ := env_cases h
  by_cases hid : ch.id = d.id
  · obtain rfl := Table.eq_of_id hch hd hid
    exact .inr (by rw [World.put_self]; exact hm)
  · exact .inl (World.put_of_ne hid m)

theorem seq_env {e : Word × ApmStep} {w u : World} (h : (tool T).env e w = some u) :
    u.seq = w.seq := by
  obtain ⟨d, -, m, -, rfl⟩ := env_cases h
  rfl

theorem keeps_env {e : Word × ApmStep} {w u : World} (hch : ch ∈ T.channels) (hq : 2 ≤ ch.q)
    (h : (tool T).env e w = some u) (hi : Idx ch.q (w.chan ch.id)) :
    Keeps T.code ch (w.chan ch.id) (u.chan ch.id) := by
  rcases chan_env hch h with hsame | hstep
  · rw [hsame]
    exact ⟨hi, rfl, List.prefix_rfl, fun hroom => hroom, fun _ => rfl⟩
  · exact apmSide_keeps hq hi hstep

theorem frame_env {e : Word × ApmStep} {w u : World} (hch : ch ∈ T.channels) (hq : 2 ≤ ch.q)
    (h : (tool T).env e w = some u) :
    (u.chan ch.id).txFront = (w.chan ch.id).txFront ∧
      (u.chan ch.id).txSlot = (w.chan ch.id).txSlot ∧
      (u.chan ch.id).rxRear = (w.chan ch.id).rxRear ∧
      (u.chan ch.id).toolNo = (w.chan ch.id).toolNo := by
  rcases chan_env hch h with hsame | hstep
  · rw [hsame]
    exact ⟨rfl, rfl, rfl, rfl⟩
  · exact apmSide_frame hq hstep

/-- The world, with the accesses of one channel. -/
def view (T : Firmware) (id : Word) : Device Acpm.Op Acpm.Ans World (Word × ApmStep) Unit where
  env := (tool T).env
  act := fun o _ w => (Acpm.act o (w.chan id)).map (fun x => (x.1, w.put id x.2))

/-- What commands on a channel do to what is due; only those on channel 2 do anything. -/
def seen (code : Msg → BitVec 8) (ch : Channel) (s : Shm) : Pmic :=
  if ch.id = 2 then due code ch.q s else fun _ _ => 0

/-- Only channel 2 goes to the PMIC. -/
def effect (code : Msg → BitVec 8) (ch : Channel) (m : Msg) (p : Pmic) : Pmic :=
  if ch.id = 2 then carry code m p else p

/-- **A ring channel of the table answers in order.** -/
theorem answers_view (hch : ch ∈ T.channels) (hq : 2 ≤ ch.q) :
    Answers ch.q (view T ch.id) (fun w => w.chan ch.id) (fun w m => w.put ch.id m)
      (seen T.code ch) (effect T.code ch) where
  act _ _ := rfl
  put_mem w := by
    rw [World.put, Function.update_eq_self]
  mem_put w m := World.put_self w ch.id m
  txFront _ _ _ h := (frame_env hch hq h).1
  txSlot _ _ _ h := (frame_env hch hq h).2.1
  rxRear _ _ _ h := (frame_env hch hq h).2.2.1
  idx _ _ _ h hi := (keeps_env hch hq h hi).idx
  rx _ _ _ _ h hi := ⟨(keeps_env hch hq h hi.1).idx, hi.2.trans (keeps_env hch hq h hi.1).unread⟩
  room _ _ _ h hi := ⟨(keeps_env hch hq h hi.1).idx, (keeps_env hch hq h hi.1).room hi.2⟩
  heads _ _ _ h hi := (keeps_env hch hq h hi).heads
  toolNo _ _ _ h := (frame_env hch hq h).2.2.2
  observed _ w u h hi := by
    unfold seen
    split
    · rename_i hid
      exact (keeps_env hch hq h hi).due hid
    · rfl
  unseen m m' htx hjob hpmic := by
    simp only [seen, due, htx, hjob, hpmic]
  published m m' x htx hjob hpmic := by
    unfold seen effect
    split
    · simp only [due, htx, hjob, hpmic, List.foldl_append, List.foldl_cons, List.foldl_nil]
    · rfl

/-- The rule for a program on one channel. -/
theorem fwp_on {α : Type} {id : Word} {p : P α} {Q : α → World → Prop} {E : Stop → World → Prop}
    {w : World} (h : wp (view T id) (fun _ _ _ => true) (fun _ _ => True) p Q w) :
    fwp (tool T) (fun _ _ _ => true) (fun _ _ => True) (on id p) Q E w := by
  have hdown : wp (tool T) (fun _ _ _ => true) (fun _ _ => True) (p.through (access id)) Q w := by
    refine Prog.wp_through ?_ (fun o Q w ho => ?_) h
    · exact fun _ _ hst => hst
    · exact fun u hu => ⟨trivial, fun _ r v _ hact => (ho u hu).2 () r v rfl hact⟩
  exact fwp_lift hdown

/-! ## 4. Where a run stands

Numbers are taken from one counter for all channels, but replies are looked for on one channel.
`used` therefore has pairs. -/

/-- Nothing in `L` carries a number used on channel `id`. -/
def Free (id : Word) (used : List (Word × Word)) (L : List Cell) : Prop :=
  ∀ c ∈ L, (id, seqOf c.bits) ∉ used

/-- From `s₀` on, the numbers `used` have been taken.  `L` is under way, and `R` are the replies
there were at the start.  With a number used twice the tool may take a reply of long ago, and then
the reply to its own command stays in the ring. -/
structure Left (ch : Channel) (s₀ : Shm) (used : List (Word × Word)) (L : List Cell)
    (R : List Msg) : Prop where
  kept : Free ch.id used (heads ch.q s₀) → L.Perm (heads ch.q s₀) ∧ R = rxMsgs ch.q s₀
  lost : ¬ Free ch.id used (heads ch.q s₀) → ¬ (heads ch.q s₀).Subperm L

/-- A ring after `k` numbers: `b` is due if it is the one of channel 2.  The number of attempts is
history, and it is what tells one command of the run from another. -/
structure Held (code : Msg → BitVec 8) (ch : Channel) (s₀ : Shm) (used : List (Word × Word))
    (k : Nat) (b : Pmic) (s : Shm) : Prop where
  idx : Idx ch.q s
  no : s.toolNo = s₀.toolNo + k
  left : ∃ R, Left ch s₀ used (heads ch.q s) R ∧ R.Subperm (rxMsgs ch.q s)
  due : ch.id = 2 → due code ch.q s = b

/-- **Where a run is**, after `k` numbers have been taken: the number in memory, and every ring
channel, with the PMIC as it will be when all that has been sent is carried out. -/
structure Course (T : Firmware) (w₀ : World) (used : List (Word × Word)) (k : Nat) (b : Pmic)
    (w : World) : Prop where
  seq : w.seq = nextSeq^[k] w₀.seq
  held : ∀ d ∈ T.channels, 2 ≤ d.q → Held T.code d (w₀.chan d.id) used k b (w.chan d.id)

/-- The same of all channels but one. -/
structure Others (T : Firmware) (ch : Channel) (w₀ : World) (used : List (Word × Word)) (k : Nat)
    (b : Pmic) (w : World) : Prop where
  seq : w.seq = nextSeq^[k] w₀.seq
  held : ∀ d ∈ T.channels, d.id ≠ ch.id → 2 ≤ d.q →
    Held T.code d (w₀.chan d.id) used k b (w.chan d.id)

variable {w₀ w u : World} {used : List (Word × Word)} {k : Nat} {b b' : Pmic} {s₀ : Shm}
  {L L' : List Cell} {R : List Msg}

theorem free_append_of_ne {id id' : Word} (h : id' ≠ id) (n : Word) :
    Free id' (used ++ [(id, n)]) L ↔ Free id' used L := by
  simp [Free, h]

theorem free_append {id n : Word} :
    Free id (used ++ [(id, n)]) L ↔ Free id used L ∧ ∀ c ∈ L, seqOf c.bits ≠ n := by
  simp only [Free, List.mem_append, List.mem_singleton, Prod.mk.injEq, true_and, not_or]
  exact forall₂_and

/-- **A reply taken out** is the tool's own, or one that carries its number. -/
theorem Left.take {n : Word} {m : Msg} {o : Cell} (h : Left ch s₀ used L R)
    (hnew : o ∉ heads ch.q s₀) (ht : Taken n (L ++ [o]) m.w0 L') :
    Left ch s₀ (used ++ [(ch.id, n)]) L' (R.erase m) := by
  have hm : seqOf m.w0.bits = n := by
    simpa using List.find?_some ht.first
  constructor
  · intro hfree
    obtain ⟨hused, hn⟩ := free_append.mp hfree
    obtain ⟨hperm, hR⟩ := h.kept hused
    obtain ⟨-, hrest⟩ := ht.own (fun x hx => hn x (hperm.mem_iff.mp hx))
    refine ⟨hrest.trans hperm, ?_⟩
    rw [hR]
    refine List.erase_of_not_mem (fun hmem => hn m.w0 ?_ hm)
    rw [heads, outstanding]
    exact List.mem_map_of_mem (List.mem_append_left _ hmem)
  · intro hfree
    by_cases hused : Free ch.id used (heads ch.q s₀)
    · obtain ⟨hperm, -⟩ := h.kept hused
      have hsame : ¬ ∀ x ∈ L, seqOf x.bits ≠ n := fun hn =>
        hfree (free_append.mpr ⟨hused, fun c hc => hn c (hperm.mem_iff.mpr hc)⟩)
      have hother := ht.other (fun ho => hnew (hperm.mem_iff.mp ho)) hsame
      exact fun hsub => hother (hperm.subperm.trans hsub)
    · exact ht.gone hnew (h.lost hused)

theorem Held.keeps (h : Held code ch s₀ used k b s) (hk : Keeps code ch s t)
    (hno : t.toolNo = s.toolNo) : Held code ch s₀ used k b t := by
  obtain ⟨R, hleft, hsub⟩ := h.left
  exact {
    idx := hk.idx
    no := hno.trans h.no
    left := ⟨R, hk.heads.symm ▸ hleft, hsub.trans hk.unread.sublist.subperm⟩
    due := fun hid => (hk.due hid).trans (h.due hid) }

theorem held_env {e : Word × ApmStep} (hch : ch ∈ T.channels) (hq : 2 ≤ ch.q)
    (he : (tool T).env e w = some u) (h : Held T.code ch s₀ used k b (w.chan ch.id)) :
    Held T.code ch s₀ used k b (u.chan ch.id) :=
  h.keeps (keeps_env hch hq he h.idx) (frame_env hch hq he).2.2.2

theorem course_stable : (tool T).Stable (Course T w₀ used k b) := fun _ _ _ he h =>
  ⟨(seq_env he).trans h.seq, fun d hd hq => held_env hd hq he (h.held d hd hq)⟩

theorem others_stable : (view T ch.id).Stable (Others T ch w₀ used k b) := fun _ _ _ he h =>
  ⟨(seq_env he).trans h.seq, fun d hd hne hq => held_env hd hq he (h.held d hd hne hq)⟩

theorem Others.put (h : Others T ch w₀ used k b w) (m : Shm) :
    Others T ch w₀ used k b (w.put ch.id m) where
  seq := h.seq
  held d hd hne hq := by
    rw [World.put_of_ne hne]
    exact h.held d hd hne hq

theorem Course.others (h : Course T w₀ used k b w) : Others T ch w₀ used k b w :=
  ⟨h.seq, fun d hd _ hq => h.held d hd hq⟩

/-- The other channels know nothing of a number used on this one. -/
theorem Others.extend (h : Others T ch w₀ used k b w) (hb : ch.id ≠ 2 → b' = b) (n : Word) :
    ∀ d ∈ T.channels, d.id ≠ ch.id → 2 ≤ d.q →
      Held T.code d (w₀.chan d.id) (used ++ [(ch.id, n)]) k b' (w.chan d.id) := by
  intro d hd hne hq
  have hheld := h.held d hd hne hq
  obtain ⟨R, hleft, hsub⟩ := hheld.left
  refine ⟨hheld.idx, hheld.no, ⟨R, ?_, hsub⟩, fun h2 => ?_⟩
  · exact ⟨fun hf => hleft.kept ((free_append_of_ne hne n).mp hf),
      fun hf => hleft.lost (fun hf' => hf ((free_append_of_ne hne n).mpr hf'))⟩
  · have hid : ch.id ≠ 2 := fun heq => hne (h2.trans heq.symm)
    rw [hheld.due h2, hb hid]

/-- Taking a number begins an attempt. -/
theorem Course.number (h : Course T w₀ used k b w) :
    Course T w₀ used (k + 1) b
      ⟨fun id => { w.chan id with toolNo := (w.chan id).toolNo + 1 }, nextSeq w.seq⟩ where
  seq := by
    rw [Function.iterate_succ_apply', ← h.seq]
  held d hd hq := by
    have hheld := h.held d hd hq
    exact {
      idx := { hheld.idx with }
      no := congrArg Nat.succ hheld.no
      left := hheld.left
      due := hheld.due }

/-! ## 5. One transaction

A transaction that finds no answer stops the tool, so a run that gets on has taken its reply out,
whichever one it was. -/

/-- A ring on which the tool waits for the reply to `o`. -/
structure Waiting (T : Firmware) (ch : Channel) (w₀ : World) (used : List (Word × Word)) (k : Nat)
    (b b' : Pmic) (L : List Cell) (R : List Msg) (o : Cell) (w : World) : Prop where
  left : Left ch (w₀.chan ch.id) used L R
  new : o ∉ heads ch.q (w₀.chan ch.id)
  has : Has ch.q (fun w => w.chan ch.id) (seen T.code ch) (Others T ch w₀ used k b)
    ((w₀.chan ch.id).toolNo + k) (L ++ [o]) R b' w

theorem Course.has (hch : ch ∈ T.channels) (hq : 2 ≤ ch.q) (h : Course T w₀ used k b w) :
    ∃ R, Left ch (w₀.chan ch.id) used (heads ch.q (w.chan ch.id)) R ∧
      Has ch.q (fun w => w.chan ch.id) (seen T.code ch) (Others T ch w₀ used k b)
        ((w₀.chan ch.id).toolNo + k) (heads ch.q (w.chan ch.id)) R
          (seen T.code ch (w.chan ch.id)) w := by
  have hheld := h.held ch hch hq
  obtain ⟨R, hleft, hsub⟩ := hheld.left
  exact ⟨R, hleft, h.others, hheld.idx, hheld.no, rfl, hsub, rfl⟩

/-- Once the reply is out, the run has come further. -/
theorem Course.of_has {n : Word} {p : Pmic} (hch : ch ∈ T.channels)
    (hleft : Left ch (w₀.chan ch.id) (used ++ [(ch.id, n)]) L R)
    (h : Has ch.q (fun w => w.chan ch.id) (seen T.code ch) (Others T ch w₀ used k b)
      ((w₀.chan ch.id).toolNo + k) L R p w)
    (hb : ch.id = 2 → p = b') (hb' : ch.id ≠ 2 → b' = b) :
    Course T w₀ (used ++ [(ch.id, n)]) k b' w where
  seq := h.frame.seq
  held d hd hq := by
    by_cases hid : d.id = ch.id
    · obtain rfl := Table.eq_of_id hd hch hid
      refine ⟨h.idx, h.no, ⟨R, h.heads.symm ▸ hleft, h.unread⟩, fun h2 => ?_⟩
      have hseen := h.observed
      rw [seen, if_pos h2] at hseen
      rw [hseen, hb h2]
    · exact h.frame.extend hb' n d hd hid hq

/-- A command goes into the ring. -/
theorem Course.wp_toolPut (hstart : Start T w₀) (hch : ch ∈ T.channels) (hq : 2 ≤ ch.q)
    (h : Course T w₀ used (k + 1) b w) (cmd : Cmd) (looks : Nat) :
    wp (view T ch.id) (fun _ _ _ => true) (fun _ _ => True) (toolPut ch.q cmd looks)
      (fun sent t => sent = true → ∃ L R o, Waiting T ch w₀ used (k + 1) b
        (effect T.code ch (Msg.ofCmd ⟨.tool, (w₀.chan ch.id).toolNo + (k + 1)⟩ cmd)
          (seen T.code ch (w.chan ch.id))) L R o t) w := by
  obtain ⟨R, hleft, hhas⟩ := h.has hch hq
  refine wp_mono ?_ ((answers_view hch hq).wp_toolPut others_stable (fun _ m hm => hm.put m) hhas)
  rintro sent t ht rfl
  refine ⟨_, R, _, hleft, fun hold => ?_, ht⟩
  have := hstart.older ch hch hq _ hold rfl
  simp only at this
  omega

/-- The passes over the unread replies. -/
theorem Waiting.wp_waitReply {n : Word} {p : Pmic} {o : Cell} (hch : ch ∈ T.channels)
    (hq : 2 ≤ ch.q) (hb : ch.id = 2 → p = b') (hb' : ch.id ≠ 2 → b' = b) :
    ∀ (looks : Nat) (w : World), Waiting T ch w₀ used k b p L R o w →
      wp (view T ch.id) (fun _ _ _ => true) (fun _ _ => True) (waitReply ch.q n looks)
        (fun r t => r.isSome = true → Course T w₀ (used ++ [(ch.id, n)]) k b' t) w := by
  -- one pass
  have hpass : ∀ w, Waiting T ch w₀ used k b p L R o w →
      wp (view T ch.id) (fun _ _ _ => true) (fun _ _ => True) (toolScan ch.q n)
        (fun r t => (r = none → Waiting T ch w₀ used k b p L R o t) ∧
          (r.isSome = true → Course T w₀ (used ++ [(ch.id, n)]) k b' t)) w := by
    intro w hw
    refine wp_mono ?_ ((answers_view hch hq).wp_toolScan others_stable (fun _ m hm => hm.put m)
      hw.has)
    rintro (_ | m) t ht
    · exact ⟨fun _ => ⟨hw.left, hw.new, ht⟩, fun hsome => absurd hsome (by simp)⟩
    · obtain ⟨L', htaken, ht⟩ := ht
      exact ⟨fun hnone => absurd hnone (by simp),
        fun _ => Course.of_has hch (hw.left.take hw.new htaken) ht hb hb'⟩
  intro looks
  induction looks with
  | zero =>
    intro w hw
    refine wp_mono ?_ (hpass w hw)
    exact fun r t ht => ht.2
  | succ looks ih =>
    intro w hw
    refine wp_bind (wp_mono ?_ (hpass w hw))
    rintro (_ | m) t ht
    · exact ih t (ht.1 rfl)
    · have hst : (view T ch.id).Stable (Course T w₀ (used ++ [(ch.id, n)]) k b') := course_stable
      exact wp_ret hst (ht.2 rfl) (fun _ _ => trivial) (fun _ h _ => h)

/-! The tool itself. -/

/-- Started in `w`, the tool gets to `Q` or stops, but not with the usage. -/
abbrev Leads {α : Type} (T : Firmware) (p : M α) (Q : α → World → Prop) (w : World) : Prop :=
  fwp (tool T) (fun _ _ _ => true) (fun _ _ => True) p Q (fun e _ => e ≠ .usage) w

section Leads

variable {α : Type} {Q : α → World → Prop}

theorem leads_bind {β : Type} {p : M β} {f : β → M α} {R : β → World → Prop} (hp : Leads T p R w)
    (hf : ∀ a t, R a t → Leads T (f a) Q t) : Leads T (p >>= f) Q w :=
  fwp_bind (fwp_mono hf (fun _ _ h => h) hp)

theorem leads_perform {I : World → Prop} {o : Op} {f : Ans o → M α} {val : Word → World → Ans o}
    {upd : Word → World → World} (hact : ∀ v t, act o v t = some (val v t, upd v t))
    (hI : (tool T).Stable I) (hw : I w)
    (hf : ∀ t v, I t → Leads T (f (val v t)) Q (upd v t)) : Leads T (perform o >>= f) Q w := by
  refine fwp_bind (fwp_lift (wp_op_eq hact hI hw (fun _ _ => trivial) (fun t v ht _ => ?_)))
  exact fun x hx => ⟨trivial, wp_drift (hf t v ht) hx⟩

/-- What happens before a stop does not matter. -/
theorem leads_then {β : Type} {p : Prog Op Ans β} {f : β → M α} (hf : ∀ a t, Leads T (f a) Q t) :
    Leads T ((liftM p : M β) >>= f) Q w := by
  have hany : wp (tool T) (fun _ _ _ => true) (fun _ _ => True) p (fun _ _ => True) w :=
    wp_of_uses (fun _ _ _ _ h => h) (fun _ _ _ _ _ _ _ _ _ => trivial) (fun _ _ _ _ => trivial)
      (fun _ _ => trivial) (Prog.uses_true p) trivial
  exact fwp_bind (fwp_lift (wp_mono (fun a t _ => hf a t) hany))

theorem leads_throw {e : Stop} (he : e ≠ .usage) : Leads T (throw e : M α) Q w :=
  fwp_throw (P := fun _ => True) (fun _ _ _ _ h => h) trivial (fun _ _ => trivial)
    (fun _ _ => he)

theorem leads_pure {I : World → Prop} (hI : (tool T).Stable I) {a : α} (hw : I w)
    (hQ : ∀ t, I t → Q a t) : Leads T (pure a : M α) Q w :=
  fwp_pure hI hw (fun _ _ => trivial) hQ

theorem leads_findChannel {I : World → Prop} (hI : (tool T).Stable I) {cid : Int} (hw : I w) :
    Leads T (findChannel T.toTable cid)
      (fun ch t => (ch ∈ T.channels ∧ (ch.id.toNat : Int) = cid) ∧ I t) w := by
  unfold findChannel
  split
  · rename_i ch hfind
    exact leads_pure hI hw (fun t ht =>
      ⟨⟨List.mem_of_find?_eq_some hfind, by simpa using List.find?_some hfind⟩, ht⟩)
  · exact leads_throw (by simp)

theorem leads_arg {I : World → Prop} (hI : (tool T).Stable I) {argv : List String} {i : Nat}
    (hw : I w) : Leads T (arg argv i) (fun text t => argv[i]? = some text ∧ I t) w := by
  unfold arg
  split
  · rename_i text htext
    exact leads_pure hI hw (fun t ht => ⟨htext, ht⟩)
  · exact leads_throw (by simp)

theorem leads_number {I : World → Prop} (hI : (tool T).Stable I) {text : String} (hw : I w) :
    Leads T (number text) (fun n t => int0 text = some n ∧ I t) w := by
  unfold number
  split
  · rename_i n hn
    exact leads_pure hI hw (fun t ht => ⟨hn, ht⟩)
  · exact leads_throw (by simp)

theorem leads_intArg {I : World → Prop} (hI : (tool T).Stable I) {argv : List String} {i : Nat}
    (hw : I w) :
    Leads T (intArg argv i)
      (fun n t => (∃ text, argv[i]? = some text ∧ int0 text = some n) ∧ I t) w := by
  refine leads_bind (leads_arg hI hw) (fun text t ht => ?_)
  refine fwp_mono ?_ (fun _ _ h => h) (leads_number hI ht.2)
  exact fun n u hu => ⟨⟨text, ht.1, hu.1⟩, hu.2⟩

/-- Operations that move nothing. -/
theorem leads_quiet {I : World → Prop} {o : Op} {val : Word → World → Ans o}
    (hact : ∀ v t, act o v t = some (val v t, t)) (hI : (tool T).Stable I) (hw : I w) :
    Leads T (perform o) (fun _ => I) w := by
  refine fwp_lift (wp_op_eq hact hI hw (fun _ _ => trivial) (fun t v ht _ => ?_))
  exact wp_ret hI ht (fun _ _ => trivial) (fun _ h => h)

theorem leads_print {I : World → Prop} (hI : (tool T).Stable I) {line : Line} (hw : I w) :
    Leads T (print line) (fun _ => I) w := leads_quiet (fun _ _ => rfl) hI hw

theorem leads_rdMbox {I : World → Prop} (hI : (tool T).Stable I) {r : Reg} (hw : I w) :
    Leads T (perform (.rdMbox r)) (fun _ => I) w := leads_quiet (fun _ _ => rfl) hI hw

/-- A look at a channel. -/
theorem leads_look {I : World → Prop} (hI : (tool T).Stable I) {id : Word} {o : Acpm.Op}
    {val : Shm → Acpm.Ans o} (hval : ∀ m, Acpm.act o m = some (val m, m)) (hw : I w) :
    Leads T (on id (Prog.perform o)) (fun _ => I) w := by
  have hI' : (view T id).Stable I := hI
  have hact : ∀ (v : Unit) (t : World), (view T id).act o v t = some (val (t.chan id), t) := by
    intro v t
    simp only [view, hval, Option.map_some, World.put, Function.update_eq_self]
  refine fwp_on (wp_op_eq hact hI' hw (fun _ _ => trivial) (fun t _ ht _ => ?_))
  exact wp_ret hI' ht (fun _ _ => trivial) (fun _ h => h)

end Leads

/-- A buffer is no ring. -/
theorem Course.leads_buffer {α : Type} (hch : ch ∈ T.channels) (hq : ch.q ≤ 1)
    (h : Course T w₀ used k b w) (p : P α) :
    Leads T (on ch.id p) (fun _ => Course T w₀ used k b) w := by
  have hst : (view T ch.id).Stable (Course T w₀ used k b) := course_stable
  refine fwp_on (wp_of_uses hst (fun o _ _ t r u ht _ hact => ?_) (fun _ _ _ _ => trivial)
    (fun _ _ => trivial) (Prog.uses_true p) h)
  obtain ⟨⟨r', m⟩, -, heq⟩ := Option.map_eq_some_iff.mp hact
  obtain ⟨-, rfl⟩ := Prod.mk.inj heq
  refine ⟨ht.seq, fun d hd hd2 => ?_⟩
  have hne : d.id ≠ ch.id := by
    intro hid
    obtain rfl := Table.eq_of_id hd hch hid
    omega
  rw [World.put_of_ne hne]
  exact ht.held d hd hd2

theorem Course.extend_buffer (hch : ch ∈ T.channels) (hq : ch.q ≤ 1)
    (h : Course T w₀ used k b w) (hb : ch.id ≠ 2 → b' = b) (n : Word) :
    Course T w₀ (used ++ [(ch.id, n)]) k b' w where
  seq := h.seq
  held d hd hd2 := by
    refine h.others.extend hb n d hd (fun hid => ?_) hd2
    obtain rfl := Table.eq_of_id hd hch hid
    omega

theorem waiting_stable {p : Pmic} {o : Cell} (hch : ch ∈ T.channels) (hq : 2 ≤ ch.q) :
    (tool T).Stable (Waiting T ch w₀ used k b p L R o) := fun e t u he ht =>
  ⟨ht.left, ht.new, (answers_view hch hq).has_stable others_stable e t u he ht.has⟩

/-- The command is out: on a ring its reply is to come. -/
theorem Course.leads_send (hstart : Start T w₀) (hch : ch ∈ T.channels)
    (h : Course T w₀ used k b w) {cmd : Cmd} {looks : Nat}
    (hb : ch.id = 2 → carry T.code (attempt w₀ ch.id (k + 1) cmd) b = b') :
    Leads T (send ch cmd looks) (fun s t => s = nextSeq^[k + 1] w₀.seq ∧
      (ch.q ≤ 1 → Course T w₀ used (k + 1) b t) ∧
      (2 ≤ ch.q → ∃ p L R o, (ch.id = 2 → p = b') ∧ Waiting T ch w₀ used (k + 1) b p L R o t))
      w := by
  have hseq : ∀ t, Course T w₀ used k b t → nextSeq t.seq = nextSeq^[k + 1] w₀.seq := fun t ht => by
    rw [Function.iterate_succ_apply', ht.seq]
  unfold send
  refine leads_perform (fun _ _ => rfl) course_stable h (fun t _ ht => ?_)
  rw [hseq t ht]
  refine leads_perform (fun _ _ => rfl) course_stable ht (fun t _ ht => ?_)
  rw [← hseq t ht]
  have hnum := ht.number
  rw [hseq t ht] at hnum ⊢
  unfold attempt at hb
  generalize nextSeq^[k + 1] w₀.seq = n at hb hnum ⊢
  by_cases hq : ch.q ≤ 1
  · rw [if_pos hq]
    refine leads_bind (hnum.leads_buffer hch hq _) (fun _ t ht => ?_)
    refine leads_bind (ht.leads_buffer hch hq _) (fun _ t ht => ?_)
    exact leads_pure course_stable ht (fun t ht =>
      ⟨rfl, fun _ => ht, fun h2 => absurd h2 (by omega)⟩)
  · have hq2 : 2 ≤ ch.q := by omega
    rw [if_neg hq]
    refine fwp_bind (fwp_on (wp_mono ?_ (hnum.wp_toolPut hstart hch hq2 _ _)))
    rintro sent u hsent
    split
    · rename_i htrue
      obtain ⟨L, R, o, hwait⟩ := hsent htrue
      refine leads_pure (waiting_stable hch hq2) hwait (fun v hv => ?_)
      refine ⟨rfl, fun h1 => absurd h1 hq, fun _ => ⟨_, L, R, o, fun h2 => ?_, hv⟩⟩
      rw [effect, if_pos h2, seen, if_pos h2, (hnum.held ch hch hq2).due h2]
      exact hb h2
    · exact leads_throw (by simp)

/-- The answer is in: on a ring it has been taken out. -/
theorem Course.leads_receive_buffer (hch : ch ∈ T.channels) (hq : ch.q ≤ 1)
    (h : Course T w₀ used k b w) (n : Word) (looks : Nat) :
    Leads T (receive ch n looks) (fun _ => Course T w₀ used k b) w := by
  rw [receive, if_pos hq]
  refine leads_bind (h.leads_buffer hch hq _) (fun pending t ht => ?_)
  split
  · exact leads_then (fun _ _ => leads_throw (by simp))
  · refine leads_bind (ht.leads_buffer hch hq _) (fun words t ht => ?_)
    refine leads_bind (ht.leads_buffer hch hq _) (fun _ t ht => ?_)
    exact leads_pure course_stable ht (fun _ h => h)

theorem Waiting.leads_receive {n : Word} {p : Pmic} {o : Cell} (hch : ch ∈ T.channels)
    (hq : 2 ≤ ch.q) (hb : ch.id = 2 → p = b') (hb' : ch.id ≠ 2 → b' = b) (looks : Nat)
    (h : Waiting T ch w₀ used k b p L R o w) :
    Leads T (receive ch n looks) (fun _ => Course T w₀ (used ++ [(ch.id, n)]) k b') w := by
  have hring : ¬ ch.q ≤ 1 := by omega
  rw [receive, if_neg hring]
  refine fwp_bind (fwp_on (wp_mono ?_ (Waiting.wp_waitReply hch hq hb hb' looks w h)))
  rintro (_ | words) t ht
  · exact leads_then (fun _ _ => leads_then (fun _ _ => leads_then (fun _ _ =>
      leads_throw (by simp))))
  · exact leads_pure course_stable (ht rfl) (fun _ h => h)

/-- **One transaction.**  The next number is used on the channel, and if that is channel 2 the
command is due. -/
theorem Course.leads_transact (hstart : Start T w₀) (hch : ch ∈ T.channels)
    (h : Course T w₀ used k b w) (cmd : Cmd) (tm : Timing)
    (hb : ch.id = 2 → carry T.code (attempt w₀ ch.id (k + 1) cmd) b = b')
    (hb' : ch.id ≠ 2 → b' = b) :
    Leads T (transact ch cmd tm)
      (fun _ => Course T w₀ (used ++ [(ch.id, nextSeq^[k + 1] w₀.seq)]) (k + 1) b') w := by
  refine leads_bind (h.leads_send hstart hch hb) ?_
  rintro n t ⟨rfl, hbuffer, hring⟩
  by_cases hq : ch.q ≤ 1
  · refine fwp_mono ?_ (fun _ _ h => h) ((hbuffer hq).leads_receive_buffer hch hq _ _)
    exact fun _ u hu => hu.extend_buffer hch hq hb' _
  · have hq2 : 2 ≤ ch.q := by omega
    obtain ⟨p, L, R, o, hp, hwait⟩ := hring hq2
    exact hwait.leads_receive hch hq2 hp hb' _

end S9p.Acpm.Tool
