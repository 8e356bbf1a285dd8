/-
# Ring discipline

The kernel produces commands and consumes replies, the APM pops commands and appends replies.
Here the APM does so word by word and whenever it likes, with any replies: it may look at the
words of the oldest command before it moves its index on, and write the words of a reply into
the free slot before it moves the other one (`ApmStep`).  `popped` and `appended` are history:
what it has taken and given.

* `ring_discipline`: at every moment of every run of sends and passes, what the APM has popped
  and what still stands in the ring is what `s9p_send` has written, word for word and in order;
  what the passes of `s9p_consume_rx` have looked at, one after the other, and what they have
  not is what the APM has appended; and all four indices are slot numbers.  A pass does not end
  before it has looked at every reply that was unread when it began.
-/
import S9p.Lib.History
import S9p.Acpm.Transaction

namespace S9p.Acpm

open Device

/-! ## 1. The APM, word by word

The firmware of `channel` takes and gives whole messages.  Here it works on words, in any order and
as often as it likes, and only the moves of its two indices are guarded by the state of the ring. -/

/-- The shared memory, the words of the oldest command the APM has read so far, and what it has
popped and appended.  The latter two are history: the APM does not read them, and nor does the
driver. -/
structure Bus where
  mem : Shm
  latch : Fin 4 → Option Cell
  popped : List Msg
  appended : List Msg

/-- The other end of the ring, word by word: it looks at a command and takes it, fills a reply and
puts it in. -/
inductive ApmStep where
  | look (k : Fin 4)
  | pop
  | fill (k : Fin 4) (c : Cell)
  | append
  | interrupt

/-- The command whose four words have been read. -/
def Bus.fetched (b : Bus) : Option Msg :=
  match b.latch 0, b.latch 1, b.latch 2, b.latch 3 with
  | some w0, some w1, some w2, some w3 => some ⟨w0, w1, w2, w3⟩
  | _, _, _, _ => none

/-- Word `k` of the free slot of the reply ring is written. -/
def Shm.fillRx (s : Shm) (k : Fin 4) (c : Cell) : Shm :=
  { s with rxSlot := Function.update s.rxSlot s.rxFront ((s.rxSlot s.rxFront).set k c) }

/-- One step of the APM.  It takes from a ring that holds a command, and writes into a free slot. -/
def apmStep (q : Nat) : ApmStep → Bus → Option Bus
  | .look k, b =>
      if b.mem.txRear ≠ b.mem.txFront then
        some { b with
          latch := Function.update b.latch k (some ((b.mem.txSlot b.mem.txRear).get k)) }
      else none
  | .pop, b =>
      if b.mem.txRear ≠ b.mem.txFront then
        b.fetched.map (fun m => { b with
          mem := { b.mem with txRear := nextIdx q b.mem.txRear }
          latch := fun _ => none
          popped := b.popped ++ [m] })
      else none
  | .fill k c, b =>
      if nextIdx q b.mem.rxFront ≠ b.mem.rxRear then
        some { b with mem := b.mem.fillRx k c }
      else none
  | .append, b =>
      if nextIdx q b.mem.rxFront ≠ b.mem.rxRear then
        some { b with
          mem := { b.mem with rxFront := nextIdx q b.mem.rxFront }
          appended := b.appended ++ [b.mem.rxSlot b.mem.rxFront] }
      else none
  | .interrupt, b => some { b with mem := { b.mem with intsr1 := true } }

/-- The calls on the two rings. -/
inductive RingCall where
  | send (cmd : Cmd) (spins : Nat)
  | consumeRx (want : Option Word)

/-- What a call returns; of a pass also what it has looked at. -/
inductive RingResult where
  | sent (ret : Int)
  | seen (out : Option Msg) (words : List Cell)

/-- `s9p_consume_rx` with a note of what it has looked at (`consumeRx_eq`). -/
def ringProgram (q : Nat) : RingCall → P RingResult
  | .send cmd spins => do
    let ret ← send q cmd spins
    return .sent ret
  | .consumeRx want => do
    let x ← pass q want
    return .seen x.1 x.2

/-- All indices are slot numbers, and the APM has not begun to read. -/
structure Fresh (q : Nat) (b : Bus) : Prop where
  idx : Idx q b.mem
  latch : ∀ k, b.latch k = none
  popped : b.popped = []
  appended : b.appended = []

/-- The driver's two calls, in any order and as often as one likes, against the other end. -/
def ring (q : Nat) : System Op Ans Bus ApmStep Unit RingCall RingResult where
  env := apmStep q
  act := fun o _ b => (act o b.mem).map (fun x => (x.1, { b with mem := x.2 }))
  init := Fresh q
  enabled := fun _ _ => true
  call := ringProgram q

/-! ## 2. What the APM may do

The steps are cut down to what the other side can notice.  Writes into the free slot are not noticed
at all until the front index moves. -/

section Apm

variable {q : Nat} {b t : Bus} {e : ApmStep}

/-- The words read so far are those of the oldest command. -/
def Latched (b : Bus) : Prop :=
  ∀ k c, b.latch k = some c →
    b.mem.txRear ≠ b.mem.txFront ∧ c = (b.mem.txSlot b.mem.txRear).get k

/-- **What the APM has fetched is the oldest command.** -/
theorem Latched.fetched {m : Msg} (h : Latched b) (hm : b.fetched = some m) :
    m = b.mem.txSlot b.mem.txRear := by
  unfold Bus.fetched at hm
  split at hm
  · rename_i w0 w1 w2 w3 h0 h1 h2 h3
    simp only [Option.some.injEq] at hm
    rw [← hm, (h 0 w0 h0).2, (h 1 w1 h1).2, (h 2 w2 h2).2, (h 3 w3 h3).2]
    rfl
  · exact absurd hm (by simp)

/-- **The steps of the APM, said once.** -/
theorem apmStep_cases (hi : Idx q b.mem) (h : apmStep q e b = some t) :
    (∃ k, b.mem.txRear ≠ b.mem.txFront ∧
      t = { b with
        latch := Function.update b.latch k (some ((b.mem.txSlot b.mem.txRear).get k)) }) ∨
    (∃ m, b.mem.txRear ≠ b.mem.txFront ∧ b.fetched = some m ∧
      t = { b with
        mem := { b.mem with txRear := Ring.succ q b.mem.txRear }
        latch := fun _ => none
        popped := b.popped ++ [m] }) ∨
    (∃ k c, t = { b with mem := b.mem.fillRx k c }) ∨
    (Ring.succ q b.mem.rxFront ≠ b.mem.rxRear ∧
      t = { b with
        mem := { b.mem with rxFront := Ring.succ q b.mem.rxFront }
        appended := b.appended ++ [b.mem.rxSlot b.mem.rxFront] }) ∨
    t = { b with mem := { b.mem with intsr1 := true } } := by
  cases e with
  | look k =>
    simp only [apmStep] at h
    split at h
    · rename_i hne
      exact .inl ⟨k, hne, (Option.some.inj h).symm⟩
    · exact absurd h (by simp)
  | pop =>
    simp only [apmStep, nextIdx_eq hi.lt_u32 hi.txRear] at h
    split at h
    · rename_i hne
      obtain ⟨m, hm, rfl⟩ := Option.map_eq_some_iff.mp h
      exact .inr (.inl ⟨m, hne, hm, rfl⟩)
    · exact absurd h (by simp)
  | fill k c =>
    simp only [apmStep] at h
    split at h
    · exact .inr (.inr (.inl ⟨k, c, (Option.some.inj h).symm⟩))
    · exact absurd h (by simp)
  | append =>
    simp only [apmStep, nextIdx_eq hi.lt_u32 hi.rxFront] at h
    split at h
    · rename_i hroom
      exact .inr (.inr (.inr (.inl ⟨hroom, (Option.some.inj h).symm⟩)))
    · exact absurd h (by simp)
  | interrupt => exact .inr (.inr (.inr (.inr (Option.some.inj h).symm)))

theorem idx_apmStep (hi : Idx q b.mem) (h : apmStep q e b = some t) : Idx q t.mem := by
  rcases apmStep_cases hi h with ⟨k, -, rfl⟩ | ⟨m, -, -, rfl⟩ | ⟨k, c, rfl⟩ | ⟨-, rfl⟩ | rfl
  · exact hi
  · exact { hi with txRear := Ring.succ_lt hi.pos }
  · exact { hi with }
  · exact { hi with rxFront := Ring.succ_lt hi.pos }
  · exact { hi with }

/-- What is being written into the free slot is no entry yet. -/
theorem rxMsgs_fillRx (hi : Idx q b.mem) (k : Fin 4) (c : Cell) :
    rxMsgs q (b.mem.fillRx k c) = rxMsgs q b.mem := by
  refine Ring.contents_congr hi.rxRear hi.rxFront (fun i hne => ?_)
  exact Function.update_of_ne hne _ _

theorem rxMsgs_append (hi : Idx q b.mem) (hroom : Ring.succ q b.mem.rxFront ≠ b.mem.rxRear) :
    rxMsgs q { b.mem with rxFront := Ring.succ q b.mem.rxFront } =
      rxMsgs q b.mem ++ [b.mem.rxSlot b.mem.rxFront] :=
  Ring.contents_push hi.rxRear hi.rxFront hroom

theorem rxMsgs_apmStep (hi : Idx q b.mem) (h : apmStep q e b = some t) :
    rxMsgs q b.mem <+: rxMsgs q t.mem := by
  rcases apmStep_cases hi h with ⟨k, -, rfl⟩ | ⟨m, -, -, rfl⟩ | ⟨k, c, rfl⟩ | ⟨hroom, rfl⟩ | rfl
  · exact List.prefix_rfl
  · exact List.prefix_rfl
  · exact (rxMsgs_fillRx hi k c) ▸ List.prefix_rfl
  · rw [rxMsgs_append hi hroom]
    exact List.prefix_append _ _
  · exact List.prefix_rfl

/-- Popping frees slots. -/
theorem room_apmStep (hi : Idx q b.mem) (hroom : Ring.succ q b.mem.txFront ≠ b.mem.txRear)
    (h : apmStep q e b = some t) : Ring.succ q t.mem.txFront ≠ t.mem.txRear := by
  rcases apmStep_cases hi h with ⟨k, -, rfl⟩ | ⟨m, hne, -, rfl⟩ | ⟨k, c, rfl⟩ | ⟨-, rfl⟩ | rfl
  · exact hroom
  · intro hfull
    have h1 := (Ring.succ_eq_iff_full (Ring.succ_lt hi.pos) hi.txFront).mp hfull
    have h2 := Ring.len_succ_rear hi.txRear hi.txFront hne
    have h3 : Ring.len q b.mem.txRear b.mem.txFront < q := Ring.len_lt hi.pos
    omega
  · exact hroom
  · exact hroom
  · exact hroom

/-- The APM keeps to its ends of the rings. -/
theorem apmStep_frame (h : apmStep q e b = some t) :
    t.mem.txFront = b.mem.txFront ∧ t.mem.txSlot = b.mem.txSlot ∧ t.mem.rxRear = b.mem.rxRear ∧
      t.mem.kernelNo = b.mem.kernelNo := by
  cases e with
  | pop =>
    simp only [apmStep] at h
    split at h
    · obtain ⟨m, -, rfl⟩ := Option.map_eq_some_iff.mp h
      exact ⟨rfl, rfl, rfl, rfl⟩
    · exact absurd h (by simp)
  | interrupt =>
    obtain rfl := Option.some.inj h
    exact ⟨rfl, rfl, rfl, rfl⟩
  | _ =>
    simp only [apmStep] at h
    split at h
    · obtain rfl := Option.some.inj h
      exact ⟨rfl, rfl, rfl, rfl⟩
    · exact absurd h (by simp)

theorem serves_ring : Serves q (ring q).toDevice Bus.mem (fun b m => { b with mem := m }) where
  act _ _ := rfl
  put_mem _ := rfl
  mem_put _ _ := rfl
  txFront _ _ _ h := (apmStep_frame h).1
  txSlot _ _ _ h := (apmStep_frame h).2.1
  rxRear _ _ _ h := (apmStep_frame h).2.2.1
  idx _ _ _ h hi := idx_apmStep hi h
  rx _ _ _ _ h hs := ⟨idx_apmStep hs.1 h, hs.2.trans (rxMsgs_apmStep hs.1 h)⟩
  room _ _ _ h hs := ⟨idx_apmStep hs.1 h, room_apmStep hs.1 hs.2 h⟩

end Apm

/-! ## 3. The accounts

Both equations compare lists of words, and so say three things at once: nothing is lost, nothing is
made up, and the order is kept. -/

/-- The four words of a command, as they stand in a slot. -/
def Msg.bits (m : Msg) : Cmd := m.map Cell.bits

/-- With `sent` written and `seen` looked at since `b₀`, nothing is missing: what the APM has popped
and what is left is what was written, and what it has appended is what was looked at and what is
left.  Both are equations between lists, with the start of the run on one side. -/
structure Accounts (q : Nat) (b₀ : Bus) (sent : List Cmd) (seen : List Cell) (b : Bus) : Prop where
  idx : Idx q b.mem
  latched : Latched b
  no : b.mem.kernelNo = b₀.mem.kernelNo
  tx : (b.popped ++ txMsgs q b.mem).map Msg.bits = (txMsgs q b₀.mem).map Msg.bits ++ sent
  rx : (rxMsgs q b₀.mem ++ b.appended).map Quad.w0 = seen ++ (rxMsgs q b.mem).map Quad.w0

section Accounts

variable {q : Nat} {b₀ b t : Bus} {sent : List Cmd} {seen : List Cell}

/-- **The APM keeps the accounts.** -/
theorem stable_accounts : (ring q).toDevice.Stable (Accounts q b₀ sent seen) := by
  intro e b t h hs
  have hi := hs.idx
  have hno : t.mem.kernelNo = b₀.mem.kernelNo := (apmStep_frame h).2.2.2.trans hs.no
  have hidx := idx_apmStep hi h
  rcases apmStep_cases hi h with
    ⟨k, hne, rfl⟩ | ⟨m, hne, hm, rfl⟩ | ⟨k, c, rfl⟩ | ⟨hroom, rfl⟩ | rfl
  · refine ⟨hidx, fun j c hj => ?_, hno, hs.tx, hs.rx⟩
    simp only [Function.update_apply] at hj
    split at hj
    · rename_i hjk
      exact ⟨hne, hjk ▸ (Option.some.inj hj).symm⟩
    · exact hs.latched j c hj
  · refine ⟨hidx, fun j c hj => absurd hj (by simp), hno, ?_, hs.rx⟩
    have htx :
        txMsgs q b.mem = m :: txMsgs q { b.mem with txRear := Ring.succ q b.mem.txRear } := by
      rw [hs.latched.fetched hm]
      exact Ring.contents_pop hi.txRear hi.txFront hne
    rw [List.append_assoc, List.singleton_append, ← htx]
    exact hs.tx
  · refine ⟨hidx, hs.latched, hno, hs.tx, ?_⟩
    rw [rxMsgs_fillRx hi]
    exact hs.rx
  · refine ⟨hidx, hs.latched, hno, hs.tx, ?_⟩
    rw [rxMsgs_append hi hroom, ← List.append_assoc, List.map_append, hs.rx, List.map_append,
      List.append_assoc]
  · exact ⟨hidx, hs.latched, hno, hs.tx, hs.rx⟩

/-! ## 4. The calls

In the middle of a call the command may be in the ring already, or the pass be done with; `UnderWay`
allows for both. -/

/-- What the call `c`, not yet completed, may have written and looked at.  A command is in the ring
altogether or not at all, so there are two cases and not five. -/
def UnderWay : RingCall → List Cmd → List Cell → Prop
  | .send cmd _, sent, seen => (sent = [] ∨ sent = [cmd]) ∧ seen = []
  | .consumeRx _, sent, _ => sent = []

/-- In the middle of the call the accounts are kept with what is under way. -/
def Balanced (q : Nat) (b₀ : Bus) (sent : List Cmd) (seen : List Cell) (c : RingCall) (b : Bus) :
    Prop :=
  ∃ sent' seen', UnderWay c sent' seen' ∧ Accounts q b₀ (sent ++ sent') (seen ++ seen') b

variable {ok : Bus → (o : Op) → Unit → Bool}

/-- The words of the free slot are nobody's. -/
theorem Accounts.write (h : Accounts q b₀ sent seen b) (m : Msg) :
    Accounts q b₀ sent seen { b with
      mem := { b.mem with txSlot := Function.update b.mem.txSlot b.mem.txFront m } } := by
  have htx : txMsgs q { b.mem with txSlot := Function.update b.mem.txSlot b.mem.txFront m } =
      txMsgs q b.mem := by
    refine Ring.contents_congr h.idx.txRear h.idx.txFront (fun i hne => ?_)
    exact Function.update_of_ne hne _ _
  refine ⟨{ h.idx with }, fun k c hk => ?_, h.no, by rw [htx]; exact h.tx, h.rx⟩
  obtain ⟨hne, hc⟩ := h.latched k c hk
  have hslot : Function.update b.mem.txSlot b.mem.txFront m b.mem.txRear =
      b.mem.txSlot b.mem.txRear := Function.update_of_ne hne _ _
  exact ⟨hne, hc.trans (congrArg (fun m => m.get k) hslot.symm)⟩

/-- Moving the front index on publishes what is in the slot. -/
theorem Accounts.publish {no : Nat} {cmd : Cmd} (h : Accounts q b₀ sent seen b)
    (hroom : Ring.succ q b.mem.txFront ≠ b.mem.txRear)
    (hslot : b.mem.txSlot b.mem.txFront = Msg.ofCmd ⟨.kernel, no⟩ cmd) :
    Accounts q b₀ (sent ++ [cmd]) seen { b with
      mem := { b.mem with txFront := Ring.succ q b.mem.txFront } } := by
  have htx : txMsgs q { b.mem with txFront := Ring.succ q b.mem.txFront } =
      txMsgs q b.mem ++ [Msg.ofCmd ⟨.kernel, no⟩ cmd] := by
    rw [← hslot]
    exact Ring.contents_push h.idx.txRear h.idx.txFront hroom
  refine ⟨{ h.idx with txFront := Ring.succ_lt h.idx.pos }, fun k c hk => ?_, h.no, ?_, h.rx⟩
  · obtain ⟨-, hc⟩ := h.latched k c hk
    exact ⟨hroom.symm, hc⟩
  · rw [htx, ← List.append_assoc, List.map_append, h.tx, List.append_assoc]
    rfl

/-- The write of the rear index drops what has been looked at. -/
theorem Accounts.drop {L : List Msg} (h : Accounts q b₀ sent seen b) (hL : L <+: rxMsgs q b.mem) :
    Accounts q b₀ sent (seen ++ L.map Quad.w0) { b with
      mem := { b.mem with rxRear := (b.mem.rxRear + L.length) % q } } := by
  have hlen : L.length ≤ Ring.len q b.mem.rxRear b.mem.rxFront := by
    have hle := hL.length_le
    rwa [rxMsgs, Ring.length_contents] at hle
  have hrx : L ++ rxMsgs q { b.mem with rxRear := (b.mem.rxRear + L.length) % q } =
      rxMsgs q b.mem := by
    have hdrop : rxMsgs q { b.mem with rxRear := (b.mem.rxRear + L.length) % q } =
        (rxMsgs q b.mem).drop L.length :=
      Ring.contents_drop h.idx.rxRear h.idx.rxFront hlen
    obtain ⟨R, hR⟩ := hL
    rw [hdrop, ← hR, List.drop_left]
  refine ⟨{ h.idx with rxRear := Nat.mod_lt _ h.idx.pos }, h.latched, h.no, h.tx, ?_⟩
  rw [h.rx, List.append_assoc, ← List.map_append, hrx]

theorem wp_send_accounts {cmd : Cmd} {spins : Nat} (h : Accounts q b₀ sent seen b) :
    wp (ring q).toDevice ok (fun b _ => Balanced q b₀ sent seen (.send cmd spins) b)
      (send q cmd spins)
      (fun ret b => (ret = 0 ∧ Accounts q b₀ (sent ++ [cmd]) seen b) ∨
        (ret ≠ 0 ∧ Accounts q b₀ sent seen b)) b := by
  have hnone : ∀ b, Accounts q b₀ sent seen b → Balanced q b₀ sent seen (.send cmd spins) b :=
    fun b hb => ⟨[], [], ⟨.inl rfl, rfl⟩, by simpa using hb⟩
  refine serves_ring.wp_send stable_accounts (fun _ hb => hb.idx)
    (fun _ (hb : Accounts q b₀ sent seen _) => hb.no) (fun _ m hb => hb.write m) ?_ ?_ ?_
    (fun b _ hb => hnone b hb) ?_ h
  · intro r e b t he hb
    exact hb.imp (fun hb => ⟨hb.1, stable_accounts e b t he hb.2⟩)
      (fun hb => ⟨hb.1, stable_accounts e b t he hb.2⟩)
  · exact fun b hb hroom _ hslot => .inl ⟨rfl, hb.publish hroom hslot⟩
  · exact fun b hb => .inr ⟨by decide, hb⟩
  · rintro r b o (⟨-, hb⟩ | ⟨-, hb⟩)
    · exact ⟨[cmd], [], ⟨.inr rfl, rfl⟩, by simpa using hb⟩
    · exact hnone b hb

/-- Replies only arrive behind those that were unread at `u`. -/
theorem stable_unread (u : Bus) : (ring q).toDevice.Stable (fun b =>
    Accounts q b₀ sent seen b ∧ rxMsgs q u.mem <+: rxMsgs q b.mem) := by
  intro e b t h hs
  have hprefix := serves_ring.rx (rxMsgs q u.mem) e b t h ⟨hs.1.idx, hs.2⟩
  exact ⟨stable_accounts e b t h hs.1, hprefix.2⟩

/-- A pass keeps the accounts, and looks at everything that was unread when it began. -/
theorem wp_pass_accounts {want : Option Word} (h : Accounts q b₀ sent seen b) :
    wp (ring q).toDevice ok (fun b _ => Balanced q b₀ sent seen (.consumeRx want) b)
      (pass q want) (fun x t => Accounts q b₀ sent (seen ++ x.2) t ∧
        (rxMsgs q b.mem).map Quad.w0 <+: x.2) b := by
  refine serves_ring.wp_pass (stable_unread b) (fun _ hb => hb.1.idx)
    (fun x e t u he ht => ⟨stable_accounts e t u he ht.1, ht.2⟩) ?_ ?_ ?_ ?_
    ⟨h, List.prefix_rfl⟩
  · rintro t L ⟨ht, -⟩ hL ⟨u, ⟨-, hunread⟩, rfl⟩
    exact ⟨ht.drop hL, hunread.map _⟩
  · rintro _ t ⟨ht, hunread⟩
    exact ⟨⟨{ ht.idx with }, ht.latched, ht.no, ht.tx, ht.rx⟩, hunread⟩
  · exact fun t _ ht => ⟨[], [], rfl, by simpa using ht.1⟩
  · exact fun x t _ ht => ⟨[], x.2, rfl, by simpa using ht.1⟩

end Accounts

/-! ## 5. All runs

Whatever the calls have sent and seen so far is accounted for in the log, call by call. -/

abbrev RingLog := List (RingCall × RingResult)

/-- What a call has written: the command, if it has returned 0. -/
def written : RingCall → RingResult → List Cmd
  | .send cmd _, .sent ret => if ret = 0 then [cmd] else []
  | _, _ => []

/-- What it has looked at: word 0 of every entry of the pass. -/
def lookedAt : RingCall → RingResult → List Cell
  | .consumeRx _, .seen _ words => words
  | _, _ => []

/-- The same for all calls so far, oldest first. -/
def sentBy : RingLog → List Cmd
  | [] => []
  | (c, a) :: log => sentBy log ++ written c a

def seenBy : RingLog → List Cell
  | [] => []
  | (c, a) :: log => seenBy log ++ lookedAt c a

/-- A pass that began at `u` has looked at every reply that was unread then. -/
def Examined (q : Nat) (u : Bus) : RingCall → RingResult → Prop
  | .consumeRx want, a => (rxMsgs q u.mem).map Quad.w0 <+: lookedAt (.consumeRx want) a
  | .send _ _, _ => True

/-- The accounts at any moment: with a call in progress, what that call has under way counts, and
when it is about to return `a`, it has looked at what it had to. -/
def Settled (q : Nat) (b₀ : Bus) (log : RingLog) (b : Bus) :
    Option (Thread Op Ans Bus RingCall RingResult) → Prop
  | none => Accounts q b₀ (sentBy log) (seenBy log) b
  | some t => Balanced q b₀ (sentBy log) (seenBy log) t.call b ∧
      ∀ a, t.rest = .ret a → Examined q t.entry t.call a

theorem wp_ringProgram {q : Nat} {b₀ b : Bus} {log : RingLog} (c : RingCall)
    {ok : Bus → (o : Op) → Unit → Bool} (h : Accounts q b₀ (sentBy log) (seenBy log) b) :
    wp (ring q).toDevice ok (fun b _ => Balanced q b₀ (sentBy log) (seenBy log) c b)
      (ringProgram q c) (fun a t =>
        Accounts q b₀ (sentBy ((c, a) :: log)) (seenBy ((c, a) :: log)) t ∧ Examined q b c a)
      b := by
  cases c with
  | send cmd spins =>
    refine wp_bind (wp_mono ?_ (wp_send_accounts h))
    rintro ret b (⟨rfl, hb⟩ | ⟨hret, hb⟩)
    · refine wp_ret stable_accounts hb (fun b hb => ?_)
        (fun b hb => ⟨by simpa [sentBy, seenBy, written, lookedAt] using hb, trivial⟩)
      exact ⟨[cmd], [], ⟨.inr rfl, rfl⟩, by simpa using hb⟩
    · refine wp_ret stable_accounts hb (fun b hb => ?_)
        (fun b hb => ⟨by simpa [sentBy, seenBy, written, lookedAt, hret] using hb, trivial⟩)
      exact ⟨[], [], ⟨.inl rfl, rfl⟩, by simpa using hb⟩
  | consumeRx want =>
    refine wp_bind (wp_mono ?_ (wp_pass_accounts h))
    rintro x t ⟨ht, hunread⟩
    refine wp_ret stable_accounts ht (fun b hb => ?_)
      (fun b hb => ⟨by simpa [sentBy, seenBy, written, lookedAt] using hb, hunread⟩)
    exact ⟨[], x.2, rfl, by simpa using hb⟩

/-- **Ring discipline.**  The passes of the runs are those of `s9p_consume_rx`: the note of what
they have looked at changes nothing. -/
theorem ring_discipline {q : Nat} {b₀ b : Bus} {log : RingLog}
    {p : Option (Thread Op Ans Bus RingCall RingResult)}
    (h : (ring q).Log System.anyStep b₀ log b p) :
    Settled q b₀ log b p ∧
      ∀ want, consumeRx q want = (pass q want >>= fun x => (pure x.1 : P (Option Msg))) := by
  refine ⟨?_, fun _ => consumeRx_eq⟩
  have hfresh : (ring q).init b₀ → Accounts q b₀ (sentBy []) (seenBy []) b₀ := fun hb =>
    ⟨hb.idx, fun k c hk => absurd ((hb.latch k).symm.trans hk) (by simp), rfl,
      by simp [hb.popped, sentBy], by simp [hb.appended, seenBy]⟩
  have hall := System.log_holds (Y := ring q)
    (S := fun log c _ b _ => Balanced q b₀ (sentBy log) (seenBy log) c b) hfresh
    (fun _ => stable_accounts) (fun log c b hb _ => wp_ringProgram c hb)
    (fun _ _ _ _ _ h => h.1) h
  cases p with
  | none => exact hall
  | some t =>
    obtain ⟨c, u, p⟩ := t
    cases p with
    | ret a =>
      refine ⟨(hall b .refl).1, fun a' ha' => ?_⟩
      cases ha'
      exact (hall b .refl).2.2
    | op o k => exact ⟨(hall b .refl).1, fun a' ha' => nomatch ha'⟩

/-- The channel at boot, and an APM that has done nothing. -/
def bootBus : Bus := ⟨bootShm, fun _ => none, [], []⟩

/-- A command is sent, and the APM takes it and answers just after the next pass has read the
front index: the reply is left for the pass after that. -/
def lateReply : List (RingCall × List (ApmStep ⊕ Unit)) :=
  [(.send ⟨1, 2, 3, 4⟩ 0, List.replicate 8 (.inr ()) ++
      [.inl (.look 0), .inl (.look 1), .inl (.look 2), .inl (.look 3), .inl .pop]),
    (.consumeRx none, [.inr (), .inl (.fill 0 ⟨7, ⟨.kernel, 0⟩⟩), .inl .append, .inr (), .inr ()]),
    (.consumeRx none, List.replicate 5 (.inr ()))]

theorem ring_discipline_late : ∃ log b, (ring 2).Log System.anyStep bootBus log b none ∧
    b.popped.map Msg.bits = [⟨1, 2, 3, 4⟩] ∧ seenBy log = [⟨7, ⟨.kernel, 0⟩⟩] ∧
    Accounts 2 bootBus (sentBy log) (seenBy log) b := by
  have hplay : ((ring 2).playAll lateReply [] bootBus).any (fun x =>
      decide (x.2.popped.map Msg.bits = [⟨1, 2, 3, 4⟩]) &&
        decide (seenBy x.1 = [⟨7, ⟨.kernel, 0⟩⟩])) = true := by decide +kernel
  obtain ⟨⟨log, b⟩, hx, hseen⟩ := (Option.any_eq_true _ _).mp hplay
  simp only [Bool.and_eq_true, decide_eq_true_eq] at hseen
  have hboot : Fresh 2 bootBus :=
    ⟨(bootShm_boot (by decide) (by decide)).toIdx, fun _ => rfl, rfl, rfl⟩
  have hlog : (ring 2).Log System.anyStep bootBus log b none :=
    System.log_of_playAll (fun _ _ _ _ => rfl) (.boot hboot) hx
  exact ⟨log, b, hlog, hseen.1, hseen.2, (ring_discipline hlog).1⟩

end S9p.Acpm
