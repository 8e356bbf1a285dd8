/-
# The driver and the tool on one channel

The driver's file comment says that its sequence numbers let the userspace tool share the
channel.  Both clients count on their own through the same 63 numbers, and the driver drains
the whole reply ring while the tool takes out only its own entry.

`sharing q` is the channel with both clients, each ring access being one step.  The driver's
transactions are those of the previous modules, over whole ring accesses instead of single
ones.  The tool sends any four words: those of `mfd`, and the raw ones of `ipc`, whose number
bits `send` only adds to.  So a command of the tool has two numbers, the one it carries in the
ring and the one its `receive` looks for, and they need not be the same.

* `shared_channel_confused`: a reply the tool is waiting for is drained by the driver; the
  driver accepts the reply to a command of the tool; the tool accepts the driver's.
* `sharing_fair`: none of this happens in a run in which neither client puts a number into the
  ring, or begins to wait for one, that belongs to a command of the other one still under way or
  that the other one waits for, and the driver does not drain the ring while the reply to the
  tool's command stands in it.

The invariant (`Fit`) does not follow single replies.  It says that the numbers under way of the
two clients are apart, and that no command of the driver has the number the tool looks for;
each client then can only find its own.
-/
import S9p.Acpm.Tool

namespace S9p.Acpm

open Device

variable {q : Nat}

/-! ## 1. The two clients as one system

A step here is a whole ring access, of either client, or a step of the firmware.  What goes wrong
between the two clients goes wrong already at this granularity, and a finer one would only add to
it. -/

/-- The channel with both clients.  `tool` is the number the tool is looking for, between its
`send` and the end of its `receive`.  The rest is history that no step reads: the replies each
client has accepted, and those that one of them has removed from the other. -/
structure Shared where
  shm : Shm
  tool : Option Word
  kernelGot : List Msg
  toolGot : List Msg
  robbed : List Msg

/-- The driver's accesses, each one step. -/
inductive Access where
  | consumeRx (want : Option Word)
  | send (cmd : Cmd) (spins : Nat)
  | pending
  | loadSeq
  | storeSeq (v : Word)
  | haveMbox
  | setReady

@[reducible] def Access.Ans : Access → Type
  | .consumeRx _ => Option Msg
  | .send _ _ => Int
  | .pending => Bool
  | .loadSeq => Word
  | .storeSeq _ => Unit
  | .haveMbox => Bool
  | .setReady => Unit

/-- The program behind an access. -/
def Access.prog (q : Nat) : (a : Access) → P a.Ans
  | .consumeRx want => S9p.Acpm.consumeRx q want
  | .send cmd spins => S9p.Acpm.send q cmd spins
  | .pending => replyPending
  | .loadSeq => S9p.Acpm.loadSeq .kernel
  | .storeSeq v => S9p.Acpm.storeSeq .kernel v
  | .haveMbox => S9p.Acpm.haveMbox
  | .setReady => S9p.Acpm.setReady

/-- Ring access in whole steps. -/
def whole : Lower (Prog Access Access.Ans) where
  consumeRx want := .perform (Access.consumeRx want)
  send cmd spins := .perform (Access.send cmd spins)
  pending := .perform Access.pending
  loadSeq := .perform Access.loadSeq
  storeSeq v := .perform (Access.storeSeq v)
  haveMbox := .perform Access.haveMbox
  setReady := .perform Access.setReady

/-- `m` is the reply to the command the tool has sent last, and the tool has not given up.  A reply
is told by the attempt it belongs to, and not by its number, which the driver may be using as
well. -/
def Shared.awaits (s : Shared) (m : Msg) : Bool :=
  s.tool.isSome && m.w0.src = ⟨.tool, s.shm.toolNo⟩

/-- The replies that were unread before a step and are gone after it. -/
def removed (q : Nat) (before after : Shm) : List Msg := (rxMsgs q before).diff (rxMsgs q after)

/-- What an access leaves behind.  Of what it has removed, the replies that the tool awaits are
recorded, accepted or not. -/
def Shared.after (q : Nat) (s : Shared) (a : Access) (r : a.Ans) (t : Shm) : Shared :=
  { s with
    shm := t
    kernelGot := match a, r with
      | .consumeRx _, r => r.toList ++ s.kernelGot
      | _, _ => s.kernelGot
    robbed := (removed q s.shm t).filter s.awaits ++ s.robbed }

/-- An access of the driver is run to its end at once, on the shared rings, and noted. -/
def accessAct (q : Nat) (a : Access) (s : Shared) : Option (a.Ans × Shared) :=
  ((channel q).run () (a.prog q) s.shm).map (fun rt => (rt.1, s.after q a rt.1 rt.2))

/-- What else happens: the firmware steps, a tool process starts with a number taken from the
clock, sends a command, looks for its reply, or gives up.  The command is any four words, since
`ipc` takes them from the command line. -/
inductive ShareEv where
  | apm (e : ApmEv)
  | start (now : BitVec 6)
  | send (cmd : Cmd)
  | scan
  | giveUp

/-- What a pass of the tool's `receive` leaves behind.  Of what it has removed, the replies to the
driver are recorded. -/
def Shared.scanned (q : Nat) (s : Shared) (r : Option Msg) (t : Shm) : Shared :=
  { s with
    shm := t
    tool := if r.isSome then none else s.tool
    toolGot := r.toList ++ s.toolGot
    robbed := (removed q s.shm t).filter (fun m => m.w0.src.who = .kernel) ++ s.robbed }

def shareEnv (q : Nat) : ShareEv → Shared → Option Shared
  | .apm e, s => (apm q e s.shm).map (fun t => { s with shm := t })
  | .start now, s =>
      if s.tool = none then
        some { s with shm := { s.shm with toolSeq := if now = 0 then 1 else now.setWidth 32 } }
      else none
  | .send cmd, s =>
      if s.tool = none then
        ((channel q).run () (toolSend q cmd) s.shm).map
          (fun rt => { s with shm := rt.2, tool := rt.1 })
      else none
  | .scan, s =>
      match s.tool with
      | none => none
      | some want => ((channel q).run () (toolScan q want) s.shm).map
          (fun rt => s.scanned q rt.1 rt.2)
  | .giveUp, s => if s.tool = none then none else some { s with tool := none }

/-- Nothing under way, no tool waiting, any two sequence numbers. -/
structure SharedBoot (q : Nat) (s : Shared) : Prop where
  idx : Idx q s.shm
  txEmpty : s.shm.txRear = s.shm.txFront
  rxEmpty : s.shm.rxRear = s.shm.rxFront
  idle : s.shm.job = none
  tool : s.tool = none
  fresh : s.kernelGot = [] ∧ s.toolGot = [] ∧ s.robbed = []

/-- The driver's calls, one at a time, with the firmware and the tool in between. -/
def sharing (q : Nat) : System Access Access.Ans Shared ShareEv Unit Call XferResult where
  env := shareEnv q
  act := fun a _ s => accessAct q a s
  init := SharedBoot q
  enabled := fun _ _ => true
  call := Call.run whole

/-! ## 2. Fair sharing, and the condition on the steps

The condition has a part for each client.  It looks at the state before the step and at the step
itself: what is in the rings, which number is being put there, and which one is being waited for. -/

/-- Neither client has accepted a reply to the other's command, the driver has removed none that the
tool was waiting for, and the tool none of the driver's at all.  All three are statements about
history, so they say something about every step that has been made. -/
structure Fair (s : Shared) : Prop where
  kernel : ∀ m ∈ s.kernelGot, m.w0.src.who = .kernel
  tool : ∀ m ∈ s.toolGot, m.w0.src.who = .tool
  kept : s.robbed = []

/-- The driver drains only while the reply to the tool's command is not in the ring, and sends
only a number that no command of the tool under way carries and that the tool does not look
for. -/
def kernelApart (q : Nat) : Call → Shared → (a : Access) → Unit → Bool
  | _, s, .consumeRx _, _ => (rxMsgs q s.shm).all (fun m => !s.awaits m)
  | _, s, .send cmd _, _ =>
      (heads q s.shm).all (fun c => c.src.who = .kernel || seqOf c.bits != seqOf cmd.w0) &&
        s.tool != some (seqOf cmd.w0)
  | _, _, _, _ => true

/-- The tool sends only while no command of the driver under way has the number that the tool's
command will carry in the ring, nor the one that the tool will look for. -/
def toolApart (q : Nat) : ShareEv → Shared → Bool
  | .send cmd, s =>
      let seq := nextSeq s.shm.toolSeq
      (heads q s.shm).all (fun c => c.src.who = .tool ||
        (seqOf c.bits != seqOf (numbered cmd seq).w0 && seqOf c.bits != seq))
  | _, _ => true

/-! ## 3. The invariant

Under the condition nobody can find a reply of the other, because no reply with a wanted number
belongs to the other.  The invariant therefore speaks of numbers, and of all commands under way at
once. -/

/-- The commands of the two clients under way carry different numbers, and the one the tool looks
for is on none of the driver's.  The replies need not be followed one by one, because each carries
the number of its command. -/
structure Fit (q : Nat) (s : Shared) : Prop extends Fair s where
  idx : Idx q s.shm
  apart : ∀ c ∈ heads q s.shm, ∀ d ∈ heads q s.shm, c.src.who = .kernel → d.src.who = .tool →
    seqOf c.bits ≠ seqOf d.bits
  pending : ∀ w, s.tool = some w → ∀ c ∈ heads q s.shm, c.src.who = .kernel → seqOf c.bits ≠ w

/-- The command the driver is waiting for is under way, with the number `w`. -/
structure Waiting (q : Nat) (w : Word) (s : Shared) : Prop extends Fit q s where
  sent : ∃ c ∈ heads q s.shm, c.src.who = .kernel ∧ seqOf c.bits = w

variable {s t : Shared}

/-- A step of the shared memory that leaves the commands under way. -/
theorem Fit.quiet {u : Shm} (h : Fit q s) (hi : Idx q u) (hh : heads q u = heads q s.shm) :
    Fit q { s with shm := u } where
  toFair := { h.toFair with }
  idx := hi
  apart := by
    rw [hh]
    exact h.apart
  pending := by
    rw [hh]
    exact h.pending

/-- Where the same replies are unread, none has been removed. -/
theorem removed_none {u v : Shm} (h : rxMsgs q v = rxMsgs q u) : removed q u v = [] := by
  rw [removed, h, ← List.perm_nil, List.perm_iff_count]
  intro x
  rw [List.count_diff, Nat.sub_self, List.count_nil]

/-- What is gone after one entry has been taken out. -/
theorem removed_one {u v : Shm} {m : Msg} (h : (rxMsgs q u).Perm (m :: rxMsgs q v)) :
    (removed q u v).Perm [m] := by
  rw [removed, List.perm_iff_count]
  intro x
  rw [List.count_diff, h.count_eq, List.count_cons, List.count_cons, List.count_nil]
  omega

/-- A drain removes all that was unread. -/
theorem removed_drain {u : Shm} :
    removed q u { u with rxRear := u.rxFront, intsr1 := false } = rxMsgs q u := by
  simp [removed, rxMsgs]

/-- The tool's send, under its condition. -/
theorem Fit.toolSend {cmd : Cmd} (h : Fit q s) (hok : toolApart q (.send cmd) s = true)
    (hstep : shareEnv q (.send cmd) s = some t) :
    Fit q t ∧ ∀ c ∈ heads q s.shm, c ∈ heads q t.shm := by
  simp only [shareEnv, run_toolSend] at hstep
  split at hstep
  · by_cases hfull : Ring.succ q s.shm.txFront = s.shm.txRear
    · simp only [if_pos hfull, Option.map_some, Option.some.injEq] at hstep
      subst hstep
      exact ⟨⟨{ h.toFair with }, { h.idx with }, h.apart, fun w hw => absurd hw (by simp)⟩,
        fun c hc => hc⟩
    · simp only [if_neg hfull, Option.map_some, Option.some.injEq] at hstep
      subst hstep
      have hheads : ∀ m, heads q { s.shm with
          toolSeq := nextSeq s.shm.toolSeq, toolNo := s.shm.toolNo + 1,
          txSlot := Function.update s.shm.txSlot s.shm.txFront m,
          txFront := Ring.succ q s.shm.txFront } = heads q s.shm ++ [m.w0] := by
        intro m
        rw [heads, heads]
        exact congrArg (List.map Quad.w0) (outstanding_send h.idx hfull m) |>.trans (by simp)
      -- both numbers of the new command are apart from the driver's
      have hother : ∀ c ∈ heads q s.shm, c.src.who = .kernel →
          seqOf c.bits ≠ seqOf (numbered cmd (nextSeq s.shm.toolSeq)).w0 ∧
            seqOf c.bits ≠ nextSeq s.shm.toolSeq := by
        intro c hc hk
        have := List.all_eq_true.mp hok c hc
        simpa [hk] using this
      refine ⟨⟨{ h.toFair with }, { h.idx with txFront := Ring.succ_lt h.idx.pos }, ?_, ?_⟩, ?_⟩
      · rw [hheads]
        intro c hc d hd hck hdt
        rcases List.mem_append.mp hc with hc | hc
        · rcases List.mem_append.mp hd with hd | hd
          · exact h.apart c hc d hd hck hdt
          · rw [List.mem_singleton.mp hd]
            exact (hother c hc hck).1
        · rw [List.mem_singleton.mp hc] at hck
          exact absurd hck (by simp [Msg.ofCmd, Quad.map])
      · rw [hheads]
        intro w hw c hc hck
        rcases List.mem_append.mp hc with hc | hc
        · exact Option.some.inj hw ▸ (hother c hc hck).2
        · rw [List.mem_singleton.mp hc] at hck
          exact absurd hck (by simp [Msg.ofCmd, Quad.map])
      · rw [hheads]
        exact fun c hc => List.mem_append_left _ hc
  · exact absurd hstep (by simp)

/-- The tool's scan takes out a reply to one of the tool's own commands. -/
theorem Fit.scan (h : Fit q s) (hstep : shareEnv q .scan s = some t) :
    Fit q t ∧ ∀ c ∈ heads q s.shm, c.src.who = .kernel → c ∈ heads q t.shm := by
  simp only [shareEnv] at hstep
  split at hstep
  · exact absurd hstep (by simp)
  · rename_i want hwant
    obtain ⟨r, u, hrun, hcase⟩ := run_toolScan want h.idx
    rw [hrun] at hstep
    simp only [Option.map_some, Option.some.injEq] at hstep
    subst hstep
    rcases hcase with ⟨rfl, rfl⟩ | ⟨m, slot, b, rfl, hseq, hperm, hu⟩
    · simp only [Shared.scanned, removed_none, List.filter_nil, List.nil_append, Option.toList_none]
      exact ⟨⟨{ h.toFair with }, h.idx, h.apart, h.pending⟩, fun c hc _ => hc⟩
    · have hrest : ∀ c, c ∈ heads q s.shm ↔ c = m.w0 ∨ c ∈ heads q u := by
        intro c
        have hmem : (outstanding q s.shm).Perm (m :: outstanding q u) := by
          have hjob : u.job = s.shm.job := by rw [hu]
          have htx : txMsgs q u = txMsgs q s.shm := by rw [hu]; rfl
          simp only [outstanding, hjob, htx, ← List.cons_append]
          exact hperm.append_right _
        simpa [heads] using (hmem.map Quad.w0).mem_iff (a := c)
      -- the entry has the number the tool looks for, which is on none of the driver's
      have hown : m.w0.src.who = .tool := by
        cases hwho : m.w0.src.who with
        | tool => rfl
        | kernel =>
          exact absurd hseq (h.pending want hwant m.w0 ((hrest _).mpr (.inl rfl)) hwho)
      have hi : Idx q u := by
        rw [hu]
        exact { h.idx with rxRear := Ring.succ_lt h.idx.pos }
      refine ⟨⟨⟨h.kernel, ?_, ?_⟩, hi, ?_, fun w hw => absurd hw (by simp [Shared.scanned])⟩, ?_⟩
      · intro m' hm'
        rcases List.mem_cons.mp hm' with rfl | hm'
        · exact hown
        · exact h.tool m' hm'
      · have hgone : (removed q s.shm u).filter (fun m => m.w0.src.who = .kernel) = [] := by
          rw [List.filter_eq_nil_iff]
          intro x hx
          rw [List.mem_singleton.mp ((removed_one hperm).mem_iff.mp hx), hown]
          decide
        simp only [Shared.scanned, hgone, List.nil_append]
        exact h.kept
      · intro c hc d hd
        exact h.apart c ((hrest c).mpr (.inr hc)) d ((hrest d).mpr (.inr hd))
      · intro c hc hk
        rcases (hrest c).mp hc with rfl | hc
        · exact absurd (hk.symm.trans hown) (by simp)
        · exact hc

/-- **Everything else that moves** keeps the invariant and the driver's commands. -/
theorem Fit.env {e : ShareEv} (h : Fit q s) (hok : toolApart q e s = true)
    (hstep : shareEnv q e s = some t) :
    Fit q t ∧ ∀ c ∈ heads q s.shm, c.src.who = .kernel → c ∈ heads q t.shm := by
  cases e with
  | apm e =>
    obtain ⟨u, hu, rfl⟩ := Option.map_eq_some_iff.mp hstep
    have hheads := heads_apm h.idx hu
    exact ⟨h.quiet (idx_apm h.idx hu) hheads, fun c hc _ => hheads ▸ hc⟩
  | start now =>
    simp only [shareEnv] at hstep
    split at hstep
    · simp only [Option.some.injEq] at hstep
      subst hstep
      exact ⟨h.quiet { h.idx with } rfl, fun c hc _ => hc⟩
    · exact absurd hstep (by simp)
  | send cmd =>
    obtain ⟨h1, h2⟩ := h.toolSend hok hstep
    exact ⟨h1, fun c hc _ => h2 c hc⟩
  | scan => exact h.scan hstep
  | giveUp =>
    simp only [shareEnv] at hstep
    split at hstep
    · exact absurd hstep (by simp)
    · simp only [Option.some.injEq] at hstep
      subst hstep
      exact ⟨⟨{ h.toFair with }, h.idx, h.apart, fun w hw => absurd hw (by simp)⟩,
        fun c hc _ => hc⟩

/-- The system under the condition on the tool's sends. -/
abbrev polite (q : Nat) : System Access Access.Ans Shared ShareEv Unit Call XferResult :=
  (sharing q).onlyEnv (toolApart q)

theorem fit_stable : (polite q).toDevice.Stable (Fit q) := by
  intro e s t h hs
  obtain ⟨hok, hstep⟩ := System.env_of_onlyEnv h
  exact (hs.env hok hstep).1

theorem waiting_stable (w : Word) : (polite q).toDevice.Stable (Waiting q w) := by
  intro e s t h hs
  obtain ⟨hok, hstep⟩ := System.env_of_onlyEnv h
  obtain ⟨h1, h2⟩ := hs.toFit.env hok hstep
  obtain ⟨c, hc, hk, hw⟩ := hs.sent
  exact ⟨h1, c, h2 c hc hk, hk, hw⟩

/-! ## 4. The driver's accesses

Each access is run in one go on the shared memory, and then recorded.  The lemmas take the run apart
from the record. -/

/-- An access does what its program does. -/
theorem accessAct_run {a : Access} {r r' : a.Ans} {u : Shm}
    (h : accessAct q a s = some (r, t))
    (hrun : (channel q).run () (a.prog q) s.shm = some (r', u)) :
    r = r' ∧ t = s.after q a r' u := by
  rw [accessAct, hrun, Option.map_some, Option.some.injEq, Prod.mk.injEq] at h
  exact ⟨h.1.symm, h.2.symm⟩

/-- **A drain** that takes nothing from the tool, and accepts only a reply to the driver. -/
theorem Fit.drain {c : Call} {want : Option Word} {r : Option Msg} (h : Fit q s)
    (hok : kernelApart q c s (.consumeRx want) () = true)
    (hown : ∀ m ∈ rxMsgs q s.shm, want = some (seqOf m.w0.bits) → m.w0.src.who = .kernel)
    (hact : accessAct q (.consumeRx want) s = some (r, t)) :
    Fit q t ∧ r = lastMatch want (rxMsgs q s.shm) ∧
      ∀ c ∈ heads q s.shm, c ∈ heads q t.shm ∨ ∃ m ∈ rxMsgs q s.shm, m.w0 = c := by
  obtain ⟨rfl, rfl⟩ := accessAct_run hact (run_consumeRx want h.idx)
  have hrest : ∀ c, c ∈ heads q s.shm ↔ (∃ m ∈ rxMsgs q s.shm, m.w0 = c) ∨
      c ∈ heads q { s.shm with rxRear := s.shm.rxFront, intsr1 := false } := by
    intro c
    rw [heads, outstanding_drain, List.map_append, List.mem_append, List.mem_map]
    rfl
  refine ⟨⟨⟨?_, h.tool, ?_⟩, { h.idx with rxRear := h.idx.rxFront }, ?_, ?_⟩, rfl,
    fun c hc => ((hrest c).mp hc).symm⟩
  · intro m hm
    simp only [Shared.after] at hm
    rcases List.mem_append.mp hm with hm | hm
    · obtain ⟨hrx, hseq⟩ := lastMatch_some (Option.mem_toList.mp hm)
      exact hown m hrx hseq
    · exact h.kernel m hm
  · -- nothing the tool awaits is among what the drain has removed
    have hgone : (rxMsgs q s.shm).filter s.awaits = [] := by
      rw [List.filter_eq_nil_iff]
      intro m hm
      simpa using List.all_eq_true.mp hok m hm
    simp only [Shared.after, removed_drain, hgone, List.nil_append]
    exact h.kept
  · intro c hc d hd
    exact h.apart c ((hrest c).mpr (.inr hc)) d ((hrest d).mpr (.inr hd))
  · exact fun w hw c hc => h.pending w hw c ((hrest c).mpr (.inr hc))

/-- An access that removes no reply records nothing. -/
theorem accessAct_kept {a : Access} {r r' : a.Ans} {u : Shm} (ha : ∀ want, a ≠ .consumeRx want)
    (h : accessAct q a s = some (r, t)) (hrun : (channel q).run () (a.prog q) s.shm = some (r', u))
    (hu : rxMsgs q u = rxMsgs q s.shm) : r = r' ∧ t = { s with shm := u } := by
  obtain ⟨hr, rfl⟩ := accessAct_run h hrun
  refine ⟨hr, ?_⟩
  cases a with
  | consumeRx want => exact absurd rfl (ha want)
  | _ => simp [Shared.after, removed_none hu]

/-- The driver's send, under its condition. -/
theorem Fit.send {c : Call} {cmd : Cmd} {spins : Nat} {r : Int} (h : Fit q s)
    (hok : kernelApart q c s (.send cmd spins) () = true)
    (hact : accessAct q (.send cmd spins) s = some (r, t)) :
    Fit q t ∧ (r = 0 → Waiting q (seqOf cmd.w0) t) := by
  have hrun := run_send cmd spins h.idx
  by_cases hroom : Ring.succ q s.shm.txFront ≠ s.shm.txRear
  · rw [if_pos hroom] at hrun
    obtain ⟨rfl, rfl⟩ := accessAct_kept (by simp) hact hrun rfl
    have hheads : heads q { s.shm with
        txSlot := Function.update s.shm.txSlot s.shm.txFront
          (Msg.ofCmd ⟨.kernel, s.shm.kernelNo⟩ cmd),
        txFront := Ring.succ q s.shm.txFront } =
          heads q s.shm ++ [⟨cmd.w0, ⟨.kernel, s.shm.kernelNo⟩⟩] := by
      rw [heads, outstanding_send h.idx hroom, List.map_append]
      rfl
    simp only [kernelApart, Bool.and_eq_true, bne_iff_ne, ne_eq] at hok
    have hother : ∀ d ∈ heads q s.shm, d.src.who = .tool → seqOf d.bits ≠ seqOf cmd.w0 := by
      intro d hd htool
      have := List.all_eq_true.mp hok.1 d hd
      simpa [htool] using this
    have hfit : Fit q { s with shm := { s.shm with
        txSlot := Function.update s.shm.txSlot s.shm.txFront
          (Msg.ofCmd ⟨.kernel, s.shm.kernelNo⟩ cmd),
        txFront := Ring.succ q s.shm.txFront } } := by
      refine ⟨{ h.toFair with }, { h.idx with txFront := Ring.succ_lt h.idx.pos }, ?_, ?_⟩
      · simp only [hheads]
        intro c hc d hd hck hdt
        rcases List.mem_append.mp hd with hd | hd
        · rcases List.mem_append.mp hc with hc | hc
          · exact h.apart c hc d hd hck hdt
          · rw [List.mem_singleton.mp hc]
            exact (hother d hd hdt).symm
        · rw [List.mem_singleton.mp hd] at hdt
          exact absurd hdt (by simp)
      · -- the tool does not look for the new number
        simp only [hheads]
        intro w hw c hc hck
        rcases List.mem_append.mp hc with hc | hc
        · exact h.pending w hw c hc hck
        · rw [List.mem_singleton.mp hc]
          exact fun heq => hok.2 (heq ▸ hw)
    refine ⟨hfit, fun _ => ⟨hfit, ⟨cmd.w0, ⟨.kernel, s.shm.kernelNo⟩⟩, ?_, rfl, rfl⟩⟩
    simp only [hheads]
    exact List.mem_append_right _ (List.mem_singleton.mpr rfl)
  · rw [if_neg hroom] at hrun
    obtain ⟨rfl, rfl⟩ := accessAct_kept (by simp) hact hrun rfl
    exact ⟨⟨{ h.toFair with }, h.idx, h.apart, h.pending⟩, fun h0 => absurd h0 (by decide)⟩

/-- The other accesses leave the commands under way. -/
theorem after_quiet {a : Access} {r : a.Ans} (ha : ∀ want, a ≠ .consumeRx want)
    (hb : ∀ cmd spins, a ≠ .send cmd spins) (hact : accessAct q a s = some (r, t)) :
    t = { s with shm := t.shm } ∧
      outstanding q t.shm = outstanding q s.shm ∧ (Idx q s.shm → Idx q t.shm) := by
  cases a with
  | consumeRx want => exact absurd rfl (ha want)
  | send cmd spins => exact absurd rfl (hb cmd spins)
  | pending =>
    obtain ⟨b, hrun⟩ := run_replyPending (q := q) (s := s.shm)
    obtain ⟨-, rfl⟩ := accessAct_kept ha hact hrun rfl
    exact ⟨rfl, rfl, id⟩
  | loadSeq =>
    obtain ⟨-, rfl⟩ := accessAct_kept ha hact (Device.run_op rfl) rfl
    exact ⟨rfl, rfl, id⟩
  | storeSeq v =>
    obtain ⟨-, rfl⟩ := accessAct_kept ha hact (Device.run_op rfl) rfl
    exact ⟨rfl, rfl, fun h => { h with }⟩
  | haveMbox =>
    obtain ⟨-, rfl⟩ := accessAct_kept ha hact (Device.run_op rfl) rfl
    exact ⟨rfl, rfl, id⟩
  | setReady =>
    obtain ⟨-, rfl⟩ := accessAct_kept ha hact (Device.run_op rfl) rfl
    exact ⟨rfl, rfl, fun h => { h with }⟩

theorem Fit.other {a : Access} {r : a.Ans} (h : Fit q s) (ha : ∀ want, a ≠ .consumeRx want)
    (hb : ∀ cmd spins, a ≠ .send cmd spins) (hact : accessAct q a s = some (r, t)) :
    Fit q t := by
  obtain ⟨h1, h2, h3⟩ := after_quiet ha hb hact
  rw [h1]
  exact h.quiet (h3 h.idx) (congrArg (List.map Quad.w0) h2)

theorem Waiting.other {w : Word} {a : Access} {r : a.Ans} (h : Waiting q w s)
    (ha : ∀ want, a ≠ .consumeRx want) (hb : ∀ cmd spins, a ≠ .send cmd spins)
    (hact : accessAct q a s = some (r, t)) : Waiting q w t := by
  obtain ⟨-, h2, -⟩ := after_quiet ha hb hact
  refine ⟨h.toFit.other ha hb hact, ?_⟩
  rw [heads, h2]
  exact h.sent

/-- A drain that waits for the driver's own number. -/
theorem Waiting.drain {c : Call} {w : Word} {r : Option Msg} (h : Waiting q w s)
    (hok : kernelApart q c s (.consumeRx (some w)) () = true)
    (hact : accessAct q (.consumeRx (some w)) s = some (r, t)) :
    Fit q t ∧ (r = none → Waiting q w t) := by
  obtain ⟨d, hd, hdk, hdw⟩ := h.sent
  have hown : ∀ m ∈ rxMsgs q s.shm, some w = some (seqOf m.w0.bits) → m.w0.src.who = .kernel := by
    intro m hm hw
    cases hwho : m.w0.src.who with
    | kernel => rfl
    | tool =>
      have hmem : m.w0 ∈ heads q s.shm := List.mem_map_of_mem (List.mem_append_left _ hm)
      exact absurd (hdw.trans (Option.some.inj hw)) (h.apart d hd m.w0 hmem hdk hwho)
  obtain ⟨hfit, hr, hrest⟩ := h.toFit.drain hok hown hact
  refine ⟨hfit, fun hnone => ⟨hfit, d, ?_, hdk, hdw⟩⟩
  rcases hrest d hd with hd' | ⟨m, hm, rfl⟩
  · exact hd'
  · exact absurd hdw (ne_of_lastMatch (hr.symm.trans hnone) m hm)

/-! ## 5. Whole transactions

The transactions are those of `Channel`, over the interface `whole`.  The proofs follow `attempt`
and `attempts` round by round. -/

section Transaction

variable {c : Call}

/-- The rule for an access that neither drains nor sends. -/
theorem wp_other {I : Shared → Prop} {α : Type} {a : Access}
    {k : a.Ans → Prog Access Access.Ans α} {Q : α → Shared → Prop}
    (hI : (polite q).toDevice.Stable I) (hfair : ∀ t, I t → Fair t)
    (hother : ∀ (r : a.Ans) s t, I s → accessAct q a s = some (r, t) → I t)
    (hk : ∀ r t, I t → wp (polite q).toDevice (kernelApart q c) (fun s _ => Fair s) (k r) Q t)
    (hs : I s) :
    wp (polite q).toDevice (kernelApart q c) (fun s _ => Fair s) (.op a k) Q s :=
  wp_op hI hs hfair (fun t _ r u ht _ hact => hk r u (hother r t u ht hact))

theorem wp_whole_receive {w : Word} : ∀ (polls : Nat) (s : Shared), Waiting q w s →
    wp (polite q).toDevice (kernelApart q c) (fun s _ => Fair s) (receive whole w polls)
      (fun _ t => Fit q t) s := by
  intro polls
  induction polls with
  | zero =>
    intro s hs
    exact wp_ret (waiting_stable w) hs (fun t ht => ht.toFair) (fun t ht => ht.toFit)
  | succ polls ih =>
    intro s hs
    simp only [receive, whole, Prog.perform_bind]
    refine wp_other (waiting_stable w) (fun t ht => ht.toFair)
      (fun r s t hs => hs.other (by simp) (by simp)) ?_ hs
    intro pending t ht
    split
    · refine wp_op (waiting_stable w) ht (fun t ht => ht.toFair) ?_
      intro u _ r v hu hok hact
      obtain ⟨hfit, hnone⟩ := hu.drain hok hact
      cases r with
      | none => exact ih v (hnone rfl)
      | some m => exact wp_ret fit_stable hfit (fun t ht => ht.toFair) (fun t ht => ht)
    · exact ih t ht

theorem wp_whole_attempt {cmd : Cmd} {tm : Timing} (hs : Fit q s) :
    wp (polite q).toDevice (kernelApart q c) (fun s _ => Fair s) (attempt whole cmd tm)
      (fun _ t => Fit q t) s := by
  simp only [attempt, whole, Prog.perform_bind]
  refine wp_op fit_stable hs (fun t ht => ht.toFair) ?_
  intro s1 _ r1 t1 h1 hok1 hact1
  refine wp_other fit_stable (fun t ht => ht.toFair)
    (fun r s t hs => hs.other (by simp) (by simp)) ?_
    (h1.drain hok1 (fun m _ hw => absurd hw (by simp)) hact1).1
  intro old t2 h2
  refine wp_other fit_stable (fun t ht => ht.toFair)
    (fun r s t hs => hs.other (by simp) (by simp)) ?_ h2
  intro _ t3 h3
  refine wp_op fit_stable h3 (fun t ht => ht.toFair) ?_
  intro s4 _ ret t4 h4 hok4 hact4
  obtain ⟨hfit, hwait⟩ := h4.send hok4 hact4
  split
  · exact wp_ret fit_stable hfit (fun t ht => ht.toFair) (fun t ht => ht)
  · rename_i hret
    have hw := hwait (not_not.mp hret)
    rw [seqOf_stamp cmd (nextSeq_and _)] at hw
    refine wp_bind (wp_mono ?_ (wp_whole_receive tm.polls t4 hw))
    intro res t ht
    exact wp_ret fit_stable ht (fun t ht => ht.toFair) (fun t ht => ht)

theorem wp_whole_attempts {tm : Nat → Timing} :
    ∀ (left : Nat) (cmd : Cmd) (ret : Except Int Msg) (s : Shared), Fit q s →
      wp (polite q).toDevice (kernelApart q c) (fun s _ => Fair s)
        (attempts whole tm left cmd ret) (fun _ t => Fit q t) s := by
  intro left
  induction left with
  | zero =>
    intro cmd ret s hs
    exact wp_ret fit_stable hs (fun t ht => ht.toFair) (fun t ht => ht)
  | succ left ih =>
    intro cmd ret s hs
    refine wp_bind (wp_mono ?_ (wp_whole_attempt hs))
    rintro ⟨cmd', res⟩ t ht
    cases res with
    | ok r => exact wp_ret fit_stable ht (fun t ht => ht.toFair) (fun t ht => ht)
    | error e => exact ih cmd' _ t ht

theorem wp_whole_mfdXfer {func reg val mask : BitVec 8} {wantVal : Bool} {tm : Nat → Timing}
    (hs : Fit q s) :
    wp (polite q).toDevice (kernelApart q c) (fun s _ => Fair s)
      (mfdXfer whole func reg val mask wantVal tm) (fun _ t => Fit q t) s := by
  simp only [mfdXfer, whole, Prog.perform_bind]
  refine wp_other fit_stable (fun t ht => ht.toFair)
    (fun r s t hs => hs.other (by simp) (by simp)) ?_ hs
  intro mbox t ht
  split
  · exact wp_ret fit_stable ht (fun t ht => ht.toFair) (fun t ht => ht)
  · refine wp_bind (wp_mono ?_ (wp_whole_attempts XFER_RETRIES _ _ t ht))
    intro res u hu
    cases res with
    | error e => exact wp_ret fit_stable hu (fun t ht => ht.toFair) (fun t ht => ht)
    | ok r =>
      refine wp_other fit_stable (fun t ht => ht.toFair)
        (fun r s t hs => hs.other (by simp) (by simp)) ?_ hu
      intro _ v hv
      exact wp_ret fit_stable hv (fun t ht => ht.toFair) (fun t ht => ht)

theorem wp_whole_call (hs : Fit q s) :
    wp (polite q).toDevice (kernelApart q c) (fun s _ => Fair s) (c.run whole)
      (fun _ t => Fit q t) s := by
  cases c with
  | write reg val tm => exact wp_whole_mfdXfer hs
  | update reg val mask tm => exact wp_whole_mfdXfer hs
  | read reg tm => exact wp_whole_mfdXfer hs

end Transaction

theorem SharedBoot.fit (h : SharedBoot q s) : Fit q s := by
  obtain ⟨h1, h2, h3⟩ := h.fresh
  have hnil : heads q s.shm = [] := by
    simp [heads, outstanding, rxMsgs, txMsgs, h.txEmpty, h.rxEmpty, h.idle]
  refine ⟨⟨by simp [h1], by simp [h2], h3⟩, h.idx, by simp [hnil], ?_⟩
  intro w hw
  rw [h.tool] at hw
  exact absurd hw (by simp)

/-- **The channel is shared without confusion** in every run whose steps meet the condition. -/
theorem sharing_fair {s : Shared} {p : Option (Thread Access Access.Ans Shared Call XferResult)}
    (h : ((sharing q).onlyEnv (toolApart q)).Reach (kernelApart q) s p) : Fair s := by
  have hall := System.reach_holds (S := fun _ _ s _ => Fair s) (fun s hs => SharedBoot.fit hs)
    fit_stable (fun c s hs _ => wp_whole_call hs) (fun _ _ _ _ h => h) h
  cases p with
  | none => exact Fit.toFair hall
  | some th => exact hall.mid

/-- Both clients at the beginning, with their sequence numbers. -/
def bootShared (seq toolSeq : Word) : Shared where
  shm := { bootShm with seq := seq, toolSeq := toolSeq }
  tool := none
  kernelGot := []
  toolGot := []
  robbed := []

theorem bootShared_boot {seq toolSeq : Word} (h2 : 2 ≤ q) (hq : q < 2 ^ 32) :
    SharedBoot q (bootShared seq toolSeq) where
  idx := { (bootShm_boot h2 hq).toIdx with }
  txEmpty := rfl
  rxEmpty := rfl
  idle := rfl
  tool := rfl
  fresh := ⟨rfl, rfl, rfl⟩

/-- The firmware answers one command. -/
def answer : List (System.Ev ShareEv Unit Call) :=
  [.env (.apm .fetch), .env (.apm (.exec 0)), .env (.apm .reply)]

/-- The tool sends a read of register 0x10 of the main PMIC. -/
def toolRead : System.Ev ShareEv Unit Call := .env (.send (toolCmd 1 FUNC_READ 0x10 0 0))

/-- The driver and the tool, with different numbers, each read one register: the tool takes its
reply out before the driver looks. -/
def politeRun : List (System.Ev ShareEv Unit Call) :=
  [toolRead, .start (writeOf 0x50 1)] ++ List.replicate 5 (.op ()) ++ answer ++ answer ++
    [.env .scan] ++ List.replicate 2 (.op ())

theorem sharing_fair_both_answered : ∃ s p,
    ((sharing 4).onlyEnv (toolApart 4)).Reach (kernelApart 4) s p ∧
      s.kernelGot.length = 1 ∧ s.toolGot.length = 1 ∧ Fair s := by
  have hrun : (((sharing 4).onlyEnv (toolApart 4)).exec (kernelApart 4) politeRun
      (bootShared 1 10, none)).any
      (fun x => decide (x.1.kernelGot.length = 1 ∧ x.1.toolGot.length = 1)) = true := by
    decide +kernel
  obtain ⟨s, p, hr, hp⟩ :=
    System.reach_of_exec (Y := (sharing 4).onlyEnv (toolApart 4))
      (bootShared_boot (by decide) (by decide)) politeRun _ hrun
  simp only [decide_eq_true_eq] at hp
  exact ⟨s, p, hr, hp.1, hp.2, sharing_fair hr⟩

/-- **Sharing the channel goes wrong** in each of the three ways: a reply the tool is waiting
for is drained, the driver accepts a reply to the tool, and the tool one to the driver.  In the
last two both clients use the number 2. -/
theorem shared_channel_confused :
    (∃ s p, (sharing 4).Reach System.anyStep s p ∧ s.robbed ≠ []) ∧
    (∃ s p, (sharing 4).Reach System.anyStep s p ∧ ∃ m ∈ s.kernelGot, m.w0.src.who = .tool) ∧
    (∃ s p, (sharing 4).Reach System.anyStep s p ∧ ∃ m ∈ s.toolGot, m.w0.src.who = .kernel) := by
  have hrob : ((sharing 4).exec System.anyStep
      (toolRead :: answer ++ [.start (writeOf 0x50 1), .op (), .op ()])
      (bootShared 1 10, none)).any (fun x => decide (x.1.robbed ≠ [])) = true := by
    decide +kernel
  have hkernel : ((sharing 4).exec System.anyStep
      ([toolRead, .start (writeOf 0x50 1)] ++ List.replicate 5 (.op ()) ++ answer ++
        List.replicate 2 (.op ()))
      (bootShared 1 1, none)).any
      (fun x => x.1.kernelGot.any (fun m => m.w0.src.who = .tool)) = true := by
    decide +kernel
  have htool : ((sharing 4).exec System.anyStep
      (.start (writeOf 0x50 1) :: List.replicate 5 (.op ()) ++ [toolRead] ++ answer ++
        [.env .scan])
      (bootShared 1 1, none)).any
      (fun x => x.1.toolGot.any (fun m => m.w0.src.who = .kernel)) = true := by
    decide +kernel
  refine ⟨?_, ?_, ?_⟩
  · obtain ⟨s, p, hr, hp⟩ :=
      System.reach_of_exec (bootShared_boot (by decide) (by decide)) _ _ hrob
    exact ⟨s, p, hr, of_decide_eq_true hp⟩
  · obtain ⟨s, p, hr, hp⟩ :=
      System.reach_of_exec (bootShared_boot (by decide) (by decide)) _ _ hkernel
    obtain ⟨m, hm, hw⟩ := List.any_eq_true.mp hp
    exact ⟨s, p, hr, m, hm, of_decide_eq_true hw⟩
  · obtain ⟨s, p, hr, hp⟩ :=
      System.reach_of_exec (bootShared_boot (by decide) (by decide)) _ _ htool
    obtain ⟨m, hm, hw⟩ := List.any_eq_true.mp hp
    exact ⟨s, p, hr, m, hm, of_decide_eq_true hw⟩

end S9p.Acpm
