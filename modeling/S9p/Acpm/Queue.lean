/-
# The rings as queues

The two rings of the channel hold lists of messages, oldest first.  This module reads those
lists off the shared memory (`rxMsgs`, `txMsgs`), says once what each step of the firmware
does to them (`apm_cases`), and gives one rule for each of the driver's two ring accesses:

* `Serves.wp_pass`: `s9p_consume_rx` drops a PREFIX of the unread replies, all of which it has
  looked at, and hands out the last match among them.  Replies that arrive while it runs stay.
* `Serves.wp_send`: `s9p_send` appends exactly its command, or returns `-EBUSY` and appends
  nothing.

Both rules speak about a run in which the firmware may step between any two accesses, and hold
for every firmware that keeps to its ends of the rings (`Serves`); `wp_consumeRx` and `wp_send`
are the two rules on `channel`.
-/
import Mathlib.Data.List.Infix
import S9p.Lib.Ring
import S9p.Acpm.Channel

namespace S9p.Acpm

open Device

variable {q : Nat} {s t : Shm}

/-! ## 1. The lists

The indices are slot numbers in every state that is reached (`Idx`), and then the ring is a list
with at least one slot free.  Whatever is proved about commands and replies is proved about these
lists. -/

/-- The replies the kernel has not dequeued yet. -/
def rxMsgs (q : Nat) (s : Shm) : List Msg := Ring.contents q s.rxSlot s.rxRear s.rxFront

/-- The commands the firmware has not popped yet. -/
def txMsgs (q : Nat) (s : Shm) : List Msg := Ring.contents q s.txSlot s.txRear s.txFront

/-- The message of a job: the command popped, or the reply that goes out next. -/
def Job.msg : Job → Msg
  | .fetched m => m
  | .executed r => r

/-- Everything sent and not yet dequeued: replies, then the firmware's job, then commands. -/
def outstanding (q : Nat) (s : Shm) : List Msg :=
  rxMsgs q s ++ (s.job.toList.map Job.msg ++ txMsgs q s)

/-- All four indices are slot numbers, and `q_len` is a `u32` the driver accepts. -/
structure Idx (q : Nat) (s : Shm) : Prop where
  two_le : 2 ≤ q
  lt_u32 : q < 2 ^ 32
  txRear : s.txRear < q
  txFront : s.txFront < q
  rxRear : s.rxRear < q
  rxFront : s.rxFront < q

/-- On slot numbers the `u32` arithmetic does not wrap. -/
theorem nextIdx_eq {i : Nat} (hq : q < 2 ^ 32) (hi : i < q) : nextIdx q i = Ring.succ q i := by
  unfold nextIdx Ring.succ
  rw [Nat.mod_eq_of_lt (a := i + 1) (by omega)]

theorem Idx.pos (h : Idx q s) : 0 < q := by
  have := h.two_le
  omega

theorem length_rxMsgs_lt (hi : Idx q s) : (rxMsgs q s).length < q := by
  rw [rxMsgs, Ring.length_contents]
  exact Ring.len_lt hi.pos

/-! ## 2. What the firmware does

A step of the firmware moves one message on: from the command ring into its hands, through
execution, into the reply ring.  The order of the three lists put together does not change. -/

/-- **The firmware's three steps, said once.**  It pops the oldest command, it executes the
one it has popped, or it appends the reply it has ready. -/
theorem apm_cases {e : ApmEv} (hi : Idx q s) (h : apm q e s = some t) :
    (∃ m, s.job = none ∧ txMsgs q s = m :: txMsgs q t ∧ rxMsgs q t = rxMsgs q s ∧
      t = { s with job := some (.fetched m), txRear := Ring.succ q s.txRear }) ∨
    (∃ m code, s.job = some (.fetched m) ∧
      t = { s with
        job := some (.executed (replyTo m s.pmic code)),
        pmic := if code = 0 then execute m s.pmic else s.pmic }) ∨
    (∃ r, s.job = some (.executed r) ∧ rxMsgs q t = rxMsgs q s ++ [r] ∧
      txMsgs q t = txMsgs q s ∧ Ring.succ q s.rxFront ≠ s.rxRear ∧
      t = { s with
        job := none, rxSlot := Function.update s.rxSlot s.rxFront r,
        rxFront := Ring.succ q s.rxFront, intsr1 := true }) := by
  cases e with
  | fetch =>
    simp only [apm] at h
    split at h
    · rename_i hc
      simp only [Option.some.injEq] at h
      subst h
      rw [nextIdx_eq hi.lt_u32 hi.txRear]
      exact .inl ⟨_, hc.1, Ring.contents_pop hi.txRear hi.txFront hc.2, rfl, rfl⟩
    · exact absurd h (by simp)
  | exec code =>
    simp only [apm] at h
    split at h
    · rename_i m hm
      simp only [Option.some.injEq] at h
      exact .inr (.inl ⟨m, code, hm, h.symm⟩)
    · exact absurd h (by simp)
  | reply =>
    simp only [apm] at h
    split at h
    · rename_i r hr
      rw [nextIdx_eq hi.lt_u32 hi.rxFront] at h
      split at h
      · rename_i hroom
        simp only [Option.some.injEq] at h
        subst h
        refine .inr (.inr ⟨r, hr, ?_, rfl, hroom, rfl⟩)
        simp only [rxMsgs]
        rw [Ring.contents_push hi.rxRear hi.rxFront hroom, Function.update_self]
        refine congrArg (· ++ [r]) (Ring.contents_congr hi.rxRear hi.rxFront (fun i hne => ?_))
        rw [Function.update_of_ne hne]
      · exact absurd h (by simp)
    · exact absurd h (by simp)

theorem idx_apm {e : ApmEv} (hi : Idx q s) (h : apm q e s = some t) : Idx q t := by
  rcases apm_cases hi h with ⟨m, -, -, -, rfl⟩ | ⟨m, code, -, rfl⟩ | ⟨r, -, -, -, -, rfl⟩
  · exact { hi with txRear := Ring.succ_lt hi.pos }
  · exact { hi with }
  · exact { hi with rxFront := Ring.succ_lt hi.pos }

theorem idx_stable : (channel q).Stable (Idx q) := fun _ _ _ h hi => idx_apm hi h

/-- The firmware never touches what belongs to the kernel side. -/
theorem apm_frame {e : ApmEv} (h : apm q e s = some t) :
    t.txFront = s.txFront ∧ t.txSlot = s.txSlot ∧ t.rxRear = s.rxRear ∧ t.seq = s.seq ∧
      t.kernelNo = s.kernelNo ∧ t.mbox = s.mbox ∧ t.toolSeq = s.toolSeq ∧
      t.toolNo = s.toolNo := by
  cases e <;> simp only [apm] at h <;> split at h
  · simp only [Option.some.injEq] at h
    subst h
    simp
  · exact absurd h (by simp)
  · simp only [Option.some.injEq] at h
    subst h
    simp
  · exact absurd h (by simp)
  · split at h
    · simp only [Option.some.injEq] at h
      subst h
      simp
    · exact absurd h (by simp)
  · exact absurd h (by simp)

/-- Replies only arrive behind those already there. -/
theorem rxMsgs_prefix_stable (L : List Msg) :
    (channel q).Stable (fun s => Idx q s ∧ L <+: rxMsgs q s) := by
  rintro e s t h ⟨hi, hL⟩
  refine ⟨idx_stable e s t h hi, ?_⟩
  rcases apm_cases hi h with ⟨m, -, -, hrx, -⟩ | ⟨m, code, -, rfl⟩ | ⟨r, -, hrx, -, -, -⟩
  · exact hrx ▸ hL
  · exact hL
  · exact hrx ▸ hL.trans (List.prefix_append _ _)

/-- A free slot in the command ring stays free: only the kernel fills it. -/
theorem room_stable : (channel q).Stable (fun s =>
    Idx q s ∧ Ring.succ q s.txFront ≠ s.txRear) := by
  rintro e s t h ⟨hi, hroom⟩
  refine ⟨idx_stable e s t h hi, ?_⟩
  rcases apm_cases hi h with ⟨m, -, htx, -, rfl⟩ | ⟨m, code, -, rfl⟩ | ⟨r, -, -, -, -, rfl⟩
  · intro hfull
    have h1 := (Ring.succ_eq_iff_full (Ring.succ_lt hi.pos) hi.txFront).mp hfull
    have h2 := congrArg List.length htx
    simp only [txMsgs, Ring.length_contents, List.length_cons] at h2
    have h3 : Ring.len q s.txRear s.txFront < q := Ring.len_lt hi.pos
    omega
  · exact hroom
  · exact hroom

/-! ## 3. A pass over the unread replies

The loop keeps the last match, so a pass over several replies with the same number hands out the
newest of them. -/

/-- What one entry does to the last match so far. -/
def matchStep (want : Option Word) (out : Option Msg) (m : Msg) : Option Msg :=
  if want = some (seqOf m.w0.bits) then some m else out

/-- The last of `L` that carries the wanted number. -/
def lastMatch (want : Option Word) (L : List Msg) : Option Msg := L.foldl (matchStep want) none

theorem foldl_matchStep {want : Option Word} {m : Msg} :
    ∀ {L : List Msg} {out : Option Msg}, L.foldl (matchStep want) out = some m →
      (m ∈ L ∧ want = some (seqOf m.w0.bits)) ∨ out = some m
  | [], out, h => .inr h
  | a :: L, out, h => by
    rcases foldl_matchStep (L := L) h with ⟨hm, hw⟩ | hout
    · exact .inl ⟨List.mem_cons_of_mem _ hm, hw⟩
    · unfold matchStep at hout
      split at hout
      · rename_i hw
        simp only [Option.some.injEq] at hout
        subst hout
        exact .inl ⟨List.mem_cons_self, hw⟩
      · exact .inr hout

/-- A match is one of the entries, and it carries the wanted number. -/
theorem lastMatch_some {want : Option Word} {L : List Msg} {m : Msg}
    (h : lastMatch want L = some m) : m ∈ L ∧ want = some (seqOf m.w0.bits) := by
  rcases foldl_matchStep h with h | h
  · exact h
  · exact absurd h (by simp)

/-- A pass that hands out nothing has met no match. -/
theorem ne_of_lastMatch {w : Word} {L : List Msg} (h : lastMatch (some w) L = none) :
    ∀ m ∈ L, seqOf m.w0.bits ≠ w := by
  -- once a match is there, later entries only replace it
  have hkeep : ∀ (L : List Msg) (m : Msg), L.foldl (matchStep (some w)) (some m) ≠ none := by
    intro L
    induction L with
    | nil => exact fun m h => absurd h (by simp)
    | cons a L ih =>
      intro m
      rw [List.foldl_cons, matchStep]
      split
      · exact ih a
      · exact ih m
  unfold lastMatch at h
  induction L with
  | nil => exact fun m hm => absurd hm (by simp)
  | cons a L ih =>
    rw [List.foldl_cons, matchStep] at h
    split at h
    · exact absurd h (hkeep L a)
    · rename_i hne
      intro m hm
      rcases List.mem_cons.mp hm with rfl | hm
      · exact fun heq => hne (heq ▸ rfl)
      · exact ih h m hm

/-- The slot behind an entry of a prefix of the unread replies. -/
theorem rxSlot_of_prefix {L R : List Msg} {m : Msg}
    (hL : L ++ m :: R <+: rxMsgs q s) : s.rxSlot ((s.rxRear + L.length) % q) = m := by
  have hlen : L.length < Ring.len q s.rxRear s.rxFront := by
    have := hL.length_le
    simp only [List.length_append, List.length_cons, rxMsgs, Ring.length_contents] at this
    omega
  have h1 : (rxMsgs q s)[L.length]? = some m := by
    obtain ⟨T, hT⟩ := hL
    rw [← hT]
    simp
  rw [rxMsgs, Ring.getElem?_contents hlen] at h1
  exact Option.some.inj h1

/-- A walk from the rear index has not met the front index while entries are left: that would
take a whole lap. -/
theorem walk_ne {L R : List Msg} {m : Msg} {front : Nat} (hi : Idx q s)
    (hL : L ++ m :: R <+: rxMsgs q s)
    (hfront : (s.rxRear + (L ++ m :: R).length) % q = front) :
    (s.rxRear + L.length) % q ≠ front := by
  intro heq
  have hlen := hL.length_le
  have hlt : Ring.len q s.rxRear s.rxFront < q := Ring.len_lt hi.pos
  simp only [List.length_append, List.length_cons, rxMsgs, Ring.length_contents] at hlen hfront
  exact absurd (Ring.add_mod_inj (by omega) (by omega) (heq.trans hfront.symm)) (by omega)

/-- The next slot of the walk. -/
theorem walk_next {L : List Msg} (m : Msg) (hi : Idx q s) :
    nextIdx q ((s.rxRear + L.length) % q) = (s.rxRear + (L ++ [m]).length) % q := by
  rw [nextIdx_eq hi.lt_u32 (Nat.mod_lt _ hi.pos), Ring.succ_add_mod]
  simp

/-! With a note of what it has looked at: -/

/-- The loop of `s9p_consume_rx`, with word 0 of every entry it has looked at. -/
def drainSeen (q : Nat) (want : Option Word) (front : Nat) :
    Nat → Nat → Option Msg → List Cell → P (Option Msg × List Cell)
  | 0, i, out, seen => if i = front then pure (out, seen) else hang
  | n + 1, i, out, seen =>
    if i = front then pure (out, seen)
    else do
      let w0 ← rdRxWord i 0
      if want = some (seqOf w0.bits) then do
        let m ← readMsg i
        drainSeen q want front n (nextIdx q i) (some m) (seen ++ [w0])
      else drainSeen q want front n (nextIdx q i) out (seen ++ [w0])

/-- `s9p_consume_rx`, with word 0 of every entry it has looked at. -/
def pass (q : Nat) (want : Option Word) : P (Option Msg × List Cell) := do
  let front ← rdRxFront
  let rear ← rdRxRear
  let x ← drainSeen q want front q rear none []
  if rear ≠ front then
    wrRxRear front
  wrIntcr1
  return x

theorem drain_eq {want : Option Word} {front : Nat} : ∀ {n i : Nat} {out : Option Msg}
    {seen : List Cell}, drain q want front n i out =
      (drainSeen q want front n i out seen >>= fun x => pure x.1)
  | 0, i, out, seen => by
    simp only [drain, drainSeen]
    split
    · rfl
    · exact congrArg (Prog.op Op.hang) (funext fun e => nomatch e)
  | n + 1, i, out, seen => by
    simp only [drain, drainSeen]
    split
    · rfl
    · simp only [rdRxWord, Prog.perform_bind, Prog.op_bind]
      refine congrArg _ (funext fun w0 => ?_)
      split
      · rw [LawfulMonad.bind_assoc]
        exact congrArg _ (funext fun m => drain_eq)
      · exact drain_eq

/-- The note changes nothing. -/
theorem consumeRx_eq {want : Option Word} :
    consumeRx q want = (pass q want >>= fun x => pure x.1) := by
  simp only [consumeRx, pass, rdRxFront, rdRxRear, wrRxRear, wrIntcr1, Prog.perform_bind,
    Prog.op_bind]
  refine congrArg _ (funext fun front => congrArg _ (funext fun rear => ?_))
  have hdrain : drain q want front q rear none =
      (drainSeen q want front q rear none [] >>= fun x => pure x.1) := drain_eq
  rw [hdrain, LawfulMonad.bind_assoc, LawfulMonad.bind_assoc]
  refine congrArg _ (funext fun x => ?_)
  split
  · rfl
  · rfl

/-! ## 4. Devices that serve the driver

The word-by-word firmware of `Discipline`, the one of `channel` and the two parties of `Sharing`
differ in what they do, but not in which words they own.  The rules for the two ring accesses depend
on the latter only. -/

section Rules

variable {σ Env : Type} {D : Device Op Ans σ Env Unit} {mem : σ → Shm} {put : σ → Shm → σ}

/-- The accesses of `D` go to the shared memory `mem s`, which is part of its state, and its
environment is a firmware that keeps to its ends of the two rings: it pops commands and appends
replies, and only into free slots.  Its answers may be anything. -/
structure Serves (q : Nat) (D : Device Op Ans σ Env Unit) (mem : σ → Shm) (put : σ → Shm → σ) :
    Prop where
  act : ∀ o s, D.act o () s = (Acpm.act o (mem s)).map (fun x => (x.1, put s x.2))
  put_mem : ∀ s, put s (mem s) = s
  mem_put : ∀ s m, mem (put s m) = m
  txFront : ∀ e s t, D.env e s = some t → (mem t).txFront = (mem s).txFront
  txSlot : ∀ e s t, D.env e s = some t → (mem t).txSlot = (mem s).txSlot
  rxRear : ∀ e s t, D.env e s = some t → (mem t).rxRear = (mem s).rxRear
  idx : D.Stable (fun s => Idx q (mem s))
  rx : ∀ L, D.Stable (fun s => Idx q (mem s) ∧ L <+: rxMsgs q (mem s))
  room : D.Stable (fun s => Idx q (mem s) ∧ Ring.succ q (mem s).txFront ≠ (mem s).txRear)

/-- The channel itself. -/
theorem serves_channel : Serves q (channel q) (fun s => s) (fun _ m => m) where
  act o s := by
    cases h : act o s with
    | none => simp [channel, h]
    | some x => simp [channel, h]
  put_mem _ := rfl
  mem_put _ _ := rfl
  txFront _ _ _ h := (apm_frame h).1
  txSlot _ _ _ h := (apm_frame h).2.1
  rxRear _ _ _ h := (apm_frame h).2.2.1
  idx := idx_stable
  rx := rxMsgs_prefix_stable
  room := room_stable

namespace Serves

variable {ok : σ → (o : Op) → Unit → Bool} {S : σ → Option Op → Prop} {I : σ → Prop}

/-- The rule for an access: it answers `val` of the memory, and leaves `upd` of it. -/
theorem wp_access {α : Type} (hD : Serves q D mem put) {J : σ → Prop} (hJ : D.Stable J) {o : Op}
    {val : Shm → Ans o} {upd : Shm → Shm} {k : Ans o → P α} {Q : α → σ → Prop} {s : σ}
    (hact : ∀ m, Acpm.act o m = some (val m, upd m)) (hs : J s) (hS : ∀ t, J t → S t (some o))
    (hk : ∀ t, J t → ok t o () = true → wp D ok S (k (val (mem t))) Q (put t (upd (mem t)))) :
    wp D ok S (.op o k) Q s := by
  have hdev : ∀ (c : Unit) (t : σ), D.act o c t = some (val (mem t), put t (upd (mem t))) :=
    fun c t => by
      rw [hD.act, hact]
      rfl
  exact wp_op_eq hdev hJ hs hS (fun t _ ht hok => hk t ht hok)

/-- The rule for an access that only looks. -/
theorem wp_look {α : Type} (hD : Serves q D mem put) {J : σ → Prop} (hJ : D.Stable J) {o : Op}
    {val : Shm → Ans o} {k : Ans o → P α} {Q : α → σ → Prop} {s : σ}
    (hval : ∀ m, Acpm.act o m = some (val m, m)) (hs : J s) (hS : ∀ t, J t → S t (some o))
    (hk : ∀ t, J t → wp D ok S (k (val (mem t))) Q t) : wp D ok S (.op o k) Q s := by
  refine hD.wp_access hJ hval hs hS (fun t ht _ => ?_)
  rw [hD.put_mem]
  exact hk t ht

/-! ## 5. The rule for `s9p_consume_rx`

The front index is read once, at the start, so what arrives while the loop runs is not part of `L`.
Nor is it dropped: the rear index is set to the front index that was read. -/

/-- What is true while the drain loop runs: the assertion `I` of the caller, and a prefix of the
unread replies that the loop is walking through.  The replies behind the prefix may grow while it
runs, and are none of its business. -/
def Draining (q : Nat) (mem : σ → Shm) (I : σ → Prop) (rear : Nat) (L : List Msg) (s : σ) :
    Prop := I s ∧ (mem s).rxRear = rear ∧ Idx q (mem s) ∧ L <+: rxMsgs q (mem s)

theorem draining_stable (hD : Serves q D mem put) (hI : D.Stable I) (rear : Nat)
    (L : List Msg) : D.Stable (Draining q mem I rear L) := by
  rintro e s t h ⟨h1, h2, h3⟩
  exact ⟨hI e s t h h1, (hD.rxRear e s t h).trans h2, hD.rx L e s t h h3⟩

/-- Reading the four words of a slot gives the message in it. -/
theorem wp_readMsg (hD : Serves q D mem put) {rear : Nat} {L R : List Msg} {m : Msg} {s : σ}
    (hI : D.Stable I) (hS : ∀ s o, I s → S s o)
    (hs : Draining q mem I rear (L ++ m :: R) s) :
    wp D ok S (readMsg ((rear + L.length) % q))
      (fun r t => r = m ∧ Draining q mem I rear (L ++ m :: R) t) s := by
  have hst := draining_stable hD hI rear (L ++ m :: R)
  have hslot : ∀ t, Draining q mem I rear (L ++ m :: R) t →
      (mem t).rxSlot ((rear + L.length) % q) = m := by
    rintro t ⟨-, h2, h3, h4⟩
    exact h2 ▸ rxSlot_of_prefix h4
  simp only [readMsg, rdRxWord, Prog.perform_bind]
  refine hD.wp_look hst (fun _ => rfl) hs (fun t ht => hS t _ ht.1) (fun t0 ht0 => ?_)
  refine hD.wp_look hst (fun _ => rfl) ht0 (fun t ht => hS t _ ht.1) (fun t1 ht1 => ?_)
  refine hD.wp_look hst (fun _ => rfl) ht1 (fun t ht => hS t _ ht.1) (fun t2 ht2 => ?_)
  refine hD.wp_look hst (fun _ => rfl) ht2 (fun t ht => hS t _ ht.1) (fun t3 ht3 => ?_)
  refine wp_ret hst ht3 (fun t ht => hS t _ ht.1) (fun t ht => ⟨?_, ht⟩)
  rw [hslot _ ht0, hslot _ ht1, hslot _ ht2, hslot _ ht3]
  rfl

/-- The drain loop, by induction on what is left of the prefix `L ++ R` it walks through. -/
private theorem wp_drain (hD : Serves q D mem put) {rear front : Nat} {want : Option Word}
    (hI : D.Stable I) (hS : ∀ s o, I s → S s o) :
    ∀ (R L : List Msg) (fuel : Nat) (out : Option Msg) (seen : List Cell) (s : σ),
      R.length ≤ fuel → (rear + (L ++ R).length) % q = front →
      Draining q mem I rear (L ++ R) s →
      wp D ok S (drainSeen q want front fuel ((rear + L.length) % q) out seen)
        (fun x t => x = (R.foldl (matchStep want) out, seen ++ R.map Quad.w0) ∧
          Draining q mem I rear (L ++ R) t) s
  | [], L, fuel, out, seen, s, _, hfront, hs => by
    have hst := draining_stable hD hI rear (L ++ [])
    have hend : (rear + L.length) % q = front := by simpa using hfront
    have hd : drainSeen q want front fuel ((rear + L.length) % q) out seen = pure (out, seen) := by
      cases fuel <;> simp [drainSeen, hend]
    rw [hd]
    exact wp_ret hst hs (fun t ht => hS t _ ht.1) (fun t ht => ⟨by simp, ht⟩)
  | m :: R, L, 0, out, seen, s, hfuel, _, _ => absurd hfuel (by simp)
  | m :: R, L, fuel + 1, out, seen, s, hfuel, hfront, hs => by
    have hst := draining_stable hD hI rear (L ++ m :: R)
    have hne : (rear + L.length) % q ≠ front := by
      obtain ⟨-, rfl, h3, h4⟩ := hs
      exact walk_ne h3 h4 hfront
    have hnext : nextIdx q ((rear + L.length) % q) = (rear + (L ++ [m]).length) % q := by
      obtain ⟨-, rfl, h3, -⟩ := hs
      exact walk_next m h3
    have happ : L ++ m :: R = (L ++ [m]) ++ R := by simp
    have hrest : ∀ (out' : Option Msg) (t : σ), Draining q mem I rear (L ++ m :: R) t →
        wp D ok S (drainSeen q want front fuel (nextIdx q ((rear + L.length) % q)) out'
            (seen ++ [m.w0]))
          (fun x t => x = (R.foldl (matchStep want) out', seen ++ (m :: R).map Quad.w0) ∧
            Draining q mem I rear (L ++ m :: R) t) t := by
      intro out' t ht
      rw [hnext, happ]
      rw [happ] at ht hfront
      refine wp_mono ?_ (wp_drain hD hI hS R (L ++ [m]) fuel out' (seen ++ [m.w0]) t
        (by simpa using hfuel) hfront ht)
      rintro x u ⟨rfl, hu⟩
      exact ⟨by simp, hu⟩
    simp only [drainSeen, if_neg hne, rdRxWord, Prog.perform_bind]
    refine hD.wp_look hst (fun _ => rfl) hs (fun t ht => hS t _ ht.1) (fun t ht => ?_)
    have hw : ((mem t).rxSlot ((rear + L.length) % q)).get 0 = m.w0 := by
      obtain ⟨-, h2, h3, h4⟩ := ht
      rw [← h2, rxSlot_of_prefix h4]
      rfl
    rw [hw]
    split
    · rename_i hm
      refine wp_bind (wp_mono ?_ (wp_readMsg hD hI hS ht))
      rintro r t' ⟨rfl, ht'⟩
      refine wp_mono ?_ (hrest _ t' ht')
      rintro x t'' ⟨rfl, ht''⟩
      exact ⟨by simp [matchStep, hm], ht''⟩
    · rename_i hm
      refine wp_mono ?_ (hrest _ t ht)
      rintro x t'' ⟨rfl, ht''⟩
      exact ⟨by simp [matchStep, hm], ht''⟩

/-- **The rule for `s9p_consume_rx`.**  Up to the write of the rear index the caller's `I`
holds.  That write drops a prefix `L` of the unread replies, which is all that was unread when the
front index was read; from there on the caller's `Q` holds, of the last match in `L` and of what the
pass has looked at, which is `L`. -/
theorem wp_pass (hD : Serves q D mem put) {want : Option Word}
    {Q : Option Msg × List Cell → σ → Prop} {s : σ} (hI : D.Stable I)
    (hidx : ∀ s, I s → Idx q (mem s)) (hQ : ∀ r, D.Stable (Q r))
    (hcut : ∀ s L, I s → L <+: rxMsgs q (mem s) → (∃ u, I u ∧ rxMsgs q (mem u) = L) →
      Q (lastMatch want L, L.map Quad.w0)
      (put s { mem s with rxRear := ((mem s).rxRear + L.length) % q }))
    (hack : ∀ r s, Q r s → Q r (put s { mem s with intsr1 := false }))
    (hSI : ∀ s o, I s → S s o) (hSQ : ∀ r s o, Q r s → S s o) (hs : I s) :
    wp D ok S (pass q want) Q s := by
  simp only [pass, rdRxFront, rdRxRear, wrRxRear, wrIntcr1, Prog.perform_bind]
  refine hD.wp_look hI (fun _ => rfl) hs (fun t ht => hSI t _ ht) (fun t0 ht0 => ?_)
  -- the unread replies at this moment are what the pass will look at
  have hd0 : Draining q mem I (mem t0).rxRear (rxMsgs q (mem t0)) t0 :=
    ⟨ht0, rfl, hidx _ ht0, List.prefix_rfl⟩
  have hfront : ((mem t0).rxRear + (rxMsgs q (mem t0)).length) % q = (mem t0).rxFront := by
    have hi := hidx _ ht0
    rw [rxMsgs, Ring.length_contents, Ring.add_len_mod hi.rxRear hi.rxFront]
  have hlen : (rxMsgs q (mem t0)).length ≤ q := (length_rxMsgs_lt (hidx _ ht0)).le
  refine hD.wp_look (draining_stable hD hI _ _) (fun _ => rfl) hd0 (fun t ht => hSI t _ ht.1)
    (fun t1 ht1 => ?_)
  have hrear : (mem t1).rxRear = (mem t0).rxRear := ht1.2.1
  have hstart : (mem t1).rxRear = ((mem t0).rxRear + ([] : List Msg).length) % q := by
    rw [hrear, List.length_nil, Nat.add_zero, Nat.mod_eq_of_lt (hidx _ ht0).rxRear]
  have hdrain : wp D ok S
      (drainSeen q want (mem t0).rxFront q (((mem t0).rxRear + ([] : List Msg).length) % q) none [])
      (fun x t => x = ((rxMsgs q (mem t0)).foldl (matchStep want) none,
          [] ++ (rxMsgs q (mem t0)).map Quad.w0) ∧
        Draining q mem I (mem t0).rxRear (rxMsgs q (mem t0)) t) t1 :=
    wp_drain hD hI hSI (rxMsgs q (mem t0)) [] q none [] t1 hlen (by simpa using hfront) ht1
  rw [← hstart] at hdrain
  refine wp_bind (wp_mono ?_ hdrain)
  rintro x t2 ⟨rfl, ht2⟩
  rw [List.nil_append]
  have hpost : ∀ t, Draining q mem I (mem t0).rxRear (rxMsgs q (mem t0)) t →
      Q (lastMatch want (rxMsgs q (mem t0)), (rxMsgs q (mem t0)).map Quad.w0)
        (put t { mem t with rxRear := (mem t0).rxFront }) := by
    rintro t ⟨h1, h2, h3, h4⟩
    have := hcut t _ h1 h4 ⟨t0, ht0, rfl⟩
    rwa [h2, hfront] at this
  have hfin : ∀ t, Q (lastMatch want (rxMsgs q (mem t0)), (rxMsgs q (mem t0)).map Quad.w0) t →
      wp D ok S (Prog.op Op.wrIntcr1 (fun _ => pure
        ((rxMsgs q (mem t0)).foldl (matchStep want) none, (rxMsgs q (mem t0)).map Quad.w0)))
        Q t := by
    intro t ht
    refine hD.wp_access (hQ _) (fun _ => rfl) ht (fun t ht => hSQ _ t _ ht) (fun t3 ht3 _ => ?_)
    exact wp_ret (hQ _) (hack _ _ ht3) (fun t ht => hSQ _ t _ ht) (fun t ht => ht)
  split
  · refine hD.wp_access (draining_stable hD hI _ _) (fun _ => rfl) ht2
      (fun t ht => hSI t _ ht.1) (fun t3 ht3 _ => ?_)
    exact hfin _ (hpost t3 ht3)
  · rename_i heq
    have hback : (mem t0).rxFront = (mem t2).rxRear := by
      rw [ht2.2.1, ← hrear]
      exact (not_not.mp heq).symm
    have := hpost t2 ht2
    rw [hback] at this
    exact hfin _ (hD.put_mem t2 ▸ this)

/-! ## 6. The rule for `s9p_send`

The free slot at the front index belongs to the one that fills it until the index moves.  This is
what lets the four writes go unnoticed. -/

/-- The wait for a free slot ends with one, or gives up. -/
theorem wp_waitRoom (hD : Serves q D mem put) {nxt : Nat} (hI : D.Stable I)
    (hS : ∀ s o, I s → S s o) :
    ∀ (spins : Nat) (s : σ), I s →
      wp D ok S (waitRoom nxt spins)
        (fun room t => I t ∧ (room = true → ∃ u, I u ∧ nxt ≠ (mem u).txRear ∧ D.Drift u t)) s := by
  have hlast : ∀ (b : Bool) (u : σ), I u → (b = true → nxt ≠ (mem u).txRear) →
      wp D ok S (.ret b : P Bool) (fun room t => I t ∧ (room = true → ∃ u, I u ∧
        nxt ≠ (mem u).txRear ∧ D.Drift u t)) u := by
    intro b u hu hb t ht
    have hIt : I t := hI.drift ht hu
    exact ⟨hS t _ hIt, hIt, fun htrue => ⟨u, hu, hb htrue, ht⟩⟩
  intro spins
  induction spins with
  | zero =>
    intro s hs
    simp only [waitRoom, rdTxRear, Prog.perform_bind]
    refine hD.wp_look hI (fun _ => rfl) hs (fun t ht => hS t _ ht) (fun t ht => ?_)
    exact hlast _ t ht (by simp)
  | succ spins ih =>
    intro s hs
    simp only [waitRoom, rdTxRear, Prog.perform_bind]
    refine hD.wp_look hI (fun _ => rfl) hs (fun t ht => hS t _ ht) (fun t ht => ?_)
    split
    · rename_i hne
      exact hlast true t ht (fun _ => hne)
    · exact ih t ht

/-- **The rule for a command going into the ring**, by either client.  The caller's `I` survives the
writes to the free slot.  When the front index moves, the slot holds the command, marked with the
attempt. -/
theorem wp_enqueue (hD : Serves q D mem put) {α : Type} {who : Client} {front no : Nat} {cmd : Cmd}
    {k : P α} {Q : α → σ → Prop} {T : σ → Prop} {s : σ} (hI : D.Stable I)
    (hfront : ∀ s, I s → (mem s).txFront = front) (hno : ∀ s, I s → (mem s).no who = no)
    (hslot : ∀ s m, I s →
      I (put s { mem s with txSlot := Function.update (mem s).txSlot (mem s).txFront m }))
    (hT : D.Stable T)
    (hpub : ∀ s, I s → Ring.succ q front ≠ (mem s).txRear →
      ok s (.wrTxFront (Ring.succ q front)) () = true →
      (mem s).txSlot front = Msg.ofCmd ⟨who, no⟩ cmd →
      T (put s { mem s with txFront := Ring.succ q front }))
    (hk : ∀ s, T s → wp D ok S k Q s)
    (hSI : ∀ s o, I s → S s o) (hST : ∀ s o, T s → S s o) (hs : I s)
    (hroom : Idx q (mem s) ∧ Ring.succ q (mem s).txFront ≠ (mem s).txRear) :
    wp D ok S (do writeCmd who front cmd; wrTxFront (Ring.succ q front); wrIntgr0; k) Q s := by
  simp only [writeCmd, wrTxWord, wrTxFront, wrIntgr0, Prog.perform_bind, Prog.op_bind]
  -- a free slot, and the words of the command written into it so far
  let R : (Msg → Prop) → σ → Prop := fun p s =>
    I s ∧ (Idx q (mem s) ∧ Ring.succ q (mem s).txFront ≠ (mem s).txRear) ∧
      p ((mem s).txSlot front)
  have hRst : ∀ p, D.Stable (R p) := by
    rintro p e s t h ⟨h1, h2, h3⟩
    exact ⟨hI e s t h h1, hD.room e s t h h2, (hD.txSlot e s t h) ▸ h3⟩
  have hstep : ∀ (p p' : Msg → Prop) (k : Fin 4) (v : Word) (kont : P α),
      (∀ m, p m → p' (m.set k ⟨v, ⟨who, no⟩⟩)) → (∀ s, R p' s → wp D ok S kont Q s) →
      ∀ s, R p s → wp D ok S (Prog.op (Op.wrTxWord who front k v) (fun _ => kont)) Q s := by
    intro p p' k v kont hp hk s hsR
    refine hD.wp_access (hRst p) (fun _ => rfl) hsR (fun t ht => hSI t _ ht.1)
      (fun t ht _ => ?_)
    obtain ⟨h1, ⟨h3, h4⟩, h5⟩ := ht
    refine hk _ ⟨?_, ?_, ?_⟩
    · rw [← hfront t h1]
      exact hslot t _ h1
    · rw [hD.mem_put]
      exact ⟨{ h3 with }, h4⟩
    · rw [hD.mem_put]
      simp only [Function.update_self, hno t h1]
      exact hp _ h5
  refine hstep (fun _ => True) (fun m => m.w0 = ⟨cmd.w0, ⟨who, no⟩⟩) 0 cmd.w0 _
    (fun m _ => rfl) ?_ s ⟨hs, hroom, trivial⟩
  intro t2 hR2
  refine hstep (fun m => m.w0 = ⟨cmd.w0, ⟨who, no⟩⟩)
    (fun m => m.w0 = ⟨cmd.w0, ⟨who, no⟩⟩ ∧ m.w1 = ⟨cmd.w1, ⟨who, no⟩⟩)
    1 cmd.w1 _ (fun m h => ⟨h, rfl⟩) ?_ t2 hR2
  intro t3 hR3
  refine hstep (fun m => m.w0 = ⟨cmd.w0, ⟨who, no⟩⟩ ∧ m.w1 = ⟨cmd.w1, ⟨who, no⟩⟩)
    (fun m => m.w0 = ⟨cmd.w0, ⟨who, no⟩⟩ ∧ m.w1 = ⟨cmd.w1, ⟨who, no⟩⟩ ∧
      m.w2 = ⟨cmd.w2, ⟨who, no⟩⟩)
    2 cmd.w2 _ (fun m h => ⟨h.1, h.2, rfl⟩) ?_ t3 hR3
  intro t4 hR4
  refine hstep (fun m => m.w0 = ⟨cmd.w0, ⟨who, no⟩⟩ ∧ m.w1 = ⟨cmd.w1, ⟨who, no⟩⟩ ∧
      m.w2 = ⟨cmd.w2, ⟨who, no⟩⟩)
    (fun m => m = Msg.ofCmd ⟨who, no⟩ cmd) 3 cmd.w3 _ ?_ ?_ t4 hR4
  · rintro ⟨m0, m1, m2, m3⟩ ⟨h0, h1, h2⟩
    simp only at h0 h1 h2
    subst h0 h1 h2
    rfl
  intro t5 hR5
  refine hD.wp_access (hRst (fun m => m = Msg.ofCmd ⟨who, no⟩ cmd)) (fun _ => rfl) hR5
    (fun t ht => hSI t _ ht.1) (fun t6 ht6 hok => ?_)
  obtain ⟨h1, ⟨-, h4⟩, h5⟩ := ht6
  rw [hfront t6 h1] at h4
  refine hD.wp_look hT (fun _ => rfl) (hpub t6 h1 h4 hok h5) (fun t ht => hST t _ ht)
    (fun t7 ht7 => hk t7 ht7)

/-- **The rule for `s9p_send`.** -/
theorem wp_send (hD : Serves q D mem put) {cmd : Cmd} {spins no : Nat} {Q : Int → σ → Prop} {s : σ}
    (hI : D.Stable I) (hidx : ∀ s, I s → Idx q (mem s)) (hno : ∀ s, I s → (mem s).kernelNo = no)
    (hslot : ∀ s m, I s →
      I (put s { mem s with txSlot := Function.update (mem s).txSlot (mem s).txFront m }))
    (hQ : ∀ r, D.Stable (Q r))
    (hpub : ∀ s, I s → Ring.succ q (mem s).txFront ≠ (mem s).txRear →
      ok s (.wrTxFront (Ring.succ q (mem s).txFront)) () = true →
      (mem s).txSlot (mem s).txFront = Msg.ofCmd ⟨.kernel, no⟩ cmd →
      Q 0 (put s { mem s with txFront := Ring.succ q (mem s).txFront }))
    (hbusy : ∀ s, I s → Q (-EBUSY) s)
    (hSI : ∀ s o, I s → S s o) (hSQ : ∀ r s o, Q r s → S s o) (hs : I s) :
    wp D ok S (send q cmd spins) Q s := by
  simp only [send, rdTxFront, Prog.perform_bind]
  refine hD.wp_look hI (fun _ => rfl) hs (fun t ht => hSI t _ ht) (fun t0 ht0 => ?_)
  have hnxt : nextIdx q (mem t0).txFront = Ring.succ q (mem t0).txFront :=
    nextIdx_eq (hidx _ ht0).lt_u32 (hidx _ ht0).txFront
  rw [hnxt]
  -- the front index is the kernel's own
  have hF : D.Stable (fun s => I s ∧ (mem s).txFront = (mem t0).txFront) := fun e s t h hst =>
    ⟨hI e s t h hst.1, (hD.txFront e s t h).trans hst.2⟩
  refine wp_bind (wp_mono ?_ (wp_waitRoom hD hF (fun s o h => hSI s o h.1) spins t0 ⟨ht0, rfl⟩))
  rintro room t1 ⟨ht1, hroom⟩
  split
  · rename_i htrue
    obtain ⟨u, hu, hne, hdrift⟩ := hroom htrue
    refine hD.wp_enqueue (T := Q 0) hF (fun _ h => h.2) (fun s h => hno s h.1) ?_ (hQ 0) ?_ ?_
      (fun s o h => hSI s o h.1) (hSQ 0) ht1
      (hD.room.drift hdrift ⟨hidx _ hu.1, by rwa [hu.2]⟩)
    · rintro s m ⟨h1, h2⟩
      refine ⟨hslot s m h1, ?_⟩
      rw [hD.mem_put]
      exact h2
    · rintro s ⟨h1, h2⟩ hne hok hcmd
      rw [← h2] at hne hok hcmd ⊢
      exact hpub s h1 hne hok hcmd
    · exact fun s hs => wp_ret (hQ 0) hs (fun t ht => hSQ _ t _ ht) (fun t ht => ht)
  · exact wp_ret (hQ _) (hbusy t1 ht1.1) (fun t ht => hSQ _ t _ ht) (fun t ht => ht)

end Serves

end Rules

/-! ## 7. The rules on the channel

What is known of a ring is turned into rules for the two functions that use it, and nobody has to
look into these again. -/

section Channel

variable {ok : Shm → (o : Op) → Unit → Bool} {S : Shm → Option Op → Prop} {I : Shm → Prop}

/-- `s9p_consume_rx` drops a prefix of the unread replies and hands out the last match in it. -/
theorem wp_consumeRx {want : Option Word} {Q : Option Msg → Shm → Prop}
    (hI : (channel q).Stable I) (hidx : ∀ s, I s → Idx q s)
    (hQ : ∀ r, (channel q).Stable (Q r))
    (hcut : ∀ s L, I s → L <+: rxMsgs q s →
      Q (lastMatch want L) { s with rxRear := (s.rxRear + L.length) % q })
    (hack : ∀ r s, Q r s → Q r { s with intsr1 := false })
    (hSI : ∀ s o, I s → S s o) (hSQ : ∀ r s o, Q r s → S s o) (hs : I s) :
    wp (channel q) ok S (consumeRx q want) Q s := by
  have hpass : wp (channel q) ok S (pass q want) (fun x => Q x.1) s :=
    serves_channel.wp_pass hI hidx (fun x => hQ x.1) (fun s L hs hL _ => hcut s L hs hL)
      (fun x => hack x.1) hSI (fun x => hSQ x.1) hs
  rw [consumeRx_eq]
  refine wp_bind (wp_mono (fun x t ht => ?_) hpass)
  exact wp_ret (hQ x.1) ht (fun _ h => hSQ _ _ _ h) (fun _ h => h)

/-- `s9p_send` appends exactly its command, or returns `-EBUSY`. -/
theorem wp_send {cmd : Cmd} {spins no : Nat} {Q : Int → Shm → Prop}
    (hI : (channel q).Stable I) (hidx : ∀ s, I s → Idx q s) (hno : ∀ s, I s → s.kernelNo = no)
    (hslot : ∀ s m, I s → I { s with txSlot := Function.update s.txSlot s.txFront m })
    (hQ : ∀ r, (channel q).Stable (Q r))
    (hpub : ∀ s, I s → Ring.succ q s.txFront ≠ s.txRear →
      ok s (.wrTxFront (Ring.succ q s.txFront)) () = true →
      s.txSlot s.txFront = Msg.ofCmd ⟨.kernel, no⟩ cmd →
      Q 0 { s with txFront := Ring.succ q s.txFront })
    (hbusy : ∀ s, I s → Q (-EBUSY) s)
    (hSI : ∀ s o, I s → S s o) (hSQ : ∀ r s o, Q r s → S s o) (hs : I s) :
    wp (channel q) ok S (send q cmd spins) Q s :=
  serves_channel.wp_send hI hidx hno hslot hQ hpub hbusy hSI hSQ hs

end Channel

end S9p.Acpm
