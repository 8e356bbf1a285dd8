/-
# How full the reply ring can get

A full reply ring stops the firmware.  The driver drains the ring at the start of every
attempt and while it waits, and says that it is never left non-empty; but commands of
timed-out attempts stay in the command ring, and nothing drains the replies the firmware
still sends after the last attempt.

* `reply_ring_full`: two timed-out calls leave four commands in a ring of five slots; once
  the firmware answers them, with no call in progress, its reply ring is full.
* `firmware_fills`: with `q_len - 1` commands under way the firmware alone can always do that.
* `reply_ring_never_full`: in a run in which every command is sent while fewer than
  `q_len - 2` others are under way, the reply ring is never full, in the middle of a call or
  between calls.
-/
import S9p.Acpm.Transaction

namespace S9p.Acpm

open Device

variable {q : Nat} {s t : Shm}

/-! ## 1. A backlog that fills the ring

Nothing the driver does is needed for this: once the commands are in the ring, the firmware may
answer them at any later moment, with no one there to drain. -/

/-- The reply ring holds `q_len - 1` unread replies. -/
def RxFull (q : Nat) (s : Shm) : Prop := (rxMsgs q s).length = q - 1

/-- A reply that is ready can be appended to a ring that is not full. -/
theorem can_reply {r : Msg} (hi : Idx q s) (hj : s.job = some (.executed r))
    (hfree : (rxMsgs q s).length + 1 < q) : ∃ t, (channel q).EnvStep s t ∧ Idx q t ∧
      (rxMsgs q t).length = (rxMsgs q s).length + 1 ∧
      (outstanding q t).length = (outstanding q s).length := by
  have hroom : nextIdx q s.rxFront ≠ s.rxRear := by
    rw [nextIdx_eq hi.lt_u32 hi.rxFront]
    intro hfull
    have := (Ring.succ_eq_iff_full hi.rxRear hi.rxFront).mp hfull
    rw [rxMsgs, Ring.length_contents] at hfree
    omega
  have hstep : ∃ t, apm q .reply s = some t := by simp [apm, hj, hroom]
  obtain ⟨t, ht⟩ := hstep
  have hheads := congrArg List.length (heads_apm hi ht)
  simp only [heads, List.length_map] at hheads
  refine ⟨t, ⟨.reply, ht⟩, idx_apm hi ht, ?_, hheads⟩
  rcases apm_cases hi ht with ⟨m, hj', -⟩ | ⟨m, code, hj', -⟩ | ⟨r', -, hrx, -⟩
  · exact absurd (hj.symm.trans hj') (by simp)
  · exact absurd (hj.symm.trans hj') (by simp)
  · rw [hrx, List.length_append]
    rfl

/-- A command that has been popped can be executed. -/
theorem can_exec {m : Msg} (hi : Idx q s) (hj : s.job = some (.fetched m)) :
    ∃ t r, (channel q).EnvStep s t ∧ Idx q t ∧ t.job = some (.executed r) ∧
      rxMsgs q t = rxMsgs q s ∧ (outstanding q t).length = (outstanding q s).length := by
  have hstep : ∃ t, apm q (.exec 0) s = some t := by simp [apm, hj]
  obtain ⟨t, ht⟩ := hstep
  have hheads := congrArg List.length (heads_apm hi ht)
  simp only [heads, List.length_map] at hheads
  rcases apm_cases hi ht with ⟨m', hj', -⟩ | ⟨m', code, -, rfl⟩ | ⟨r', hj', -⟩
  · exact absurd (hj.symm.trans hj') (by simp)
  · exact ⟨_, _, ⟨.exec 0, ht⟩, idx_apm hi ht, rfl, rfl, hheads⟩
  · exact absurd (hj.symm.trans hj') (by simp)

/-- A command in the ring can be popped when the firmware has nothing else to do. -/
theorem can_fetch (hi : Idx q s) (hj : s.job = none) (hne : txMsgs q s ≠ []) :
    ∃ t m, (channel q).EnvStep s t ∧ Idx q t ∧ t.job = some (.fetched m) ∧
      rxMsgs q t = rxMsgs q s ∧ (outstanding q t).length = (outstanding q s).length := by
  have hidx : s.txRear ≠ s.txFront := by
    intro heq
    rw [txMsgs, heq, Ring.contents_self] at hne
    exact hne rfl
  have hstep : ∃ t, apm q .fetch s = some t := by simp [apm, hj, hidx]
  obtain ⟨t, ht⟩ := hstep
  have hheads := congrArg List.length (heads_apm hi ht)
  simp only [heads, List.length_map] at hheads
  rcases apm_cases hi ht with ⟨m, -, -, hrx, hu⟩ | ⟨m', code, hj', -⟩ | ⟨r', hj', -⟩
  · exact ⟨t, m, ⟨.fetch, ht⟩, idx_apm hi ht, by rw [hu], hrx, hheads⟩
  · exact absurd (hj.symm.trans hj') (by simp)
  · exact absurd (hj.symm.trans hj') (by simp)

/-- As long as there is something to answer and room for the answer, one more arrives. -/
theorem one_more_reply (hi : Idx q s) (hfree : (rxMsgs q s).length + 1 < q)
    (hmore : (rxMsgs q s).length < (outstanding q s).length) :
    ∃ t, (channel q).Drift s t ∧ Idx q t ∧ (rxMsgs q t).length = (rxMsgs q s).length + 1 ∧
      (outstanding q t).length = (outstanding q s).length := by
  -- from each state the firmware's job can be in, the remaining steps up to the reply
  have hreply : ∀ (u : Shm) (r : Msg), (channel q).Drift s u → Idx q u →
      u.job = some (.executed r) → rxMsgs q u = rxMsgs q s →
      (outstanding q u).length = (outstanding q s).length →
      ∃ t, (channel q).Drift s t ∧ Idx q t ∧ (rxMsgs q t).length = (rxMsgs q s).length + 1 ∧
        (outstanding q t).length = (outstanding q s).length := by
    intro u r hsu hu hj hrx hlen
    obtain ⟨t, hut, ht, h1, h2⟩ := can_reply hu hj (hrx ▸ hfree)
    exact ⟨t, hsu.tail hut, ht, hrx ▸ h1, h2.trans hlen⟩
  have hexec : ∀ (u : Shm) (m : Msg), (channel q).Drift s u → Idx q u →
      u.job = some (.fetched m) → rxMsgs q u = rxMsgs q s →
      (outstanding q u).length = (outstanding q s).length →
      ∃ t, (channel q).Drift s t ∧ Idx q t ∧ (rxMsgs q t).length = (rxMsgs q s).length + 1 ∧
        (outstanding q t).length = (outstanding q s).length := by
    intro u m hsu hu hj hrx hlen
    obtain ⟨v, r, huv, hv, hjv, h1, h2⟩ := can_exec hu hj
    exact hreply v r (hsu.tail huv) hv hjv (h1.trans hrx) (h2.trans hlen)
  rcases hj : s.job with _ | m | r
  · have hne : txMsgs q s ≠ [] := by
      intro hnil
      simp [outstanding, hj, hnil] at hmore
    obtain ⟨u, m, hsu, hu, hju, h1, h2⟩ := can_fetch hi hj hne
    exact hexec u m (.single hsu) hu hju h1 h2
  · exact hexec s m .refl hi hj rfl rfl
  · exact hreply s r .refl hi hj rfl rfl

/-- **The firmware alone fills the ring**, once `q_len - 1` commands are under way. -/
theorem firmware_fills (hi : Idx q s) (hlen : q - 1 ≤ (outstanding q s).length) :
    ∃ t, (channel q).Drift s t ∧ RxFull q t := by
  -- by induction on the room left
  obtain ⟨n, hn⟩ : ∃ n, (rxMsgs q s).length + n = q - 1 := by
    have := length_rxMsgs_lt hi
    exact ⟨q - 1 - (rxMsgs q s).length, by omega⟩
  induction n generalizing s with
  | zero => exact ⟨s, .refl, by simpa [RxFull] using hn⟩
  | succ n ih =>
    obtain ⟨u, hsu, hu, h1, h2⟩ := one_more_reply hi (by omega) (by omega)
    obtain ⟨t, hut, ht⟩ := ih hu (h2 ▸ hlen) (by omega)
    exact ⟨t, hsu.trans hut, ht⟩

/-! ## 2. Sends that leave room for every reply

The bound is on commands and not on replies, as a command that has been sent is a reply that will
come.  With `q_len - 2` others under way the new one makes `q_len - 1`, which is one too many. -/

/-- The condition on a step: a command is sent while fewer than `q_len - 2` others are under way.
It looks at what the state holds before the send, and at no result of it. -/
def fewUnderWay (q : Nat) : Call → Shm → (o : Op) → Unit → Bool
  | _, s, .wrTxFront _, _ => decide ((heads q s).length < q - 2)
  | _, _, _, _ => true

/-- All commands under way together do not fill the reply ring. -/
structure Slack (q : Nat) (s : Shm) : Prop extends Idx q s where
  few : (outstanding q s).length ≤ q - 2

theorem Slack.congr (h : Slack q s) (hi : Idx q t)
    (ho : (outstanding q t).length ≤ (outstanding q s).length) : Slack q t :=
  ⟨hi, ho.trans h.few⟩

theorem Slack.not_full (h : Slack q s) : ¬ RxFull q s := by
  have h1 : (rxMsgs q s).length ≤ (outstanding q s).length := by simp [outstanding]
  have h2 := h.few
  have h3 := h.two_le
  unfold RxFull
  omega

theorem slack_stable : (channel q).Stable (Slack q) := by
  intro e s t h hs
  have hheads := congrArg List.length (heads_apm hs.toIdx h)
  simp only [heads, List.length_map] at hheads
  exact hs.congr (idx_stable e s t h hs.toIdx) hheads.le

theorem Slack.cut {L : List Msg} (h : Slack q s) (hL : L <+: rxMsgs q s) :
    Slack q { s with rxRear := (s.rxRear + L.length) % q } := by
  refine h.congr { h.toIdx with rxRear := Nat.mod_lt _ h.pos } ?_
  rw [outstanding_cut h.toIdx hL, List.length_drop]
  exact Nat.sub_le _ _

theorem Slack.publish {c : Call} (h : Slack q s) (hroom : Ring.succ q s.txFront ≠ s.txRear)
    (hok : fewUnderWay q c s (.wrTxFront (Ring.succ q s.txFront)) () = true) :
    Slack q { s with txFront := Ring.succ q s.txFront } := by
  refine ⟨{ h.toIdx with txFront := Ring.succ_lt h.pos }, ?_⟩
  simp only [fewUnderWay, heads, List.length_map, decide_eq_true_eq] at hok
  rw [outstanding_publish h.toIdx hroom, List.length_append]
  exact hok

/-- The phases of a transaction that keeps to the bound: it is the same one throughout. -/
def roomy (q : Nat) (c : Call) :
    Phases q (fewUnderWay q c) (fun s _ => ¬ RxFull q s) (fun _ => True) where
  idle := Slack q
  numbered no _ s := Slack q s ∧ s.kernelNo = no
  sent _ _ := Slack q
  answered _ _ _ := Slack q
  idle_stable := slack_stable
  numbered_stable := fun _ _ e s t h hs =>
    ⟨slack_stable e s t h hs.1, (apm_frame h).2.2.2.2.1.trans hs.2⟩
  sent_stable := fun _ _ => slack_stable
  answered_stable := fun _ _ _ => slack_stable
  idle_idx := fun _ h => h.toIdx
  numbered_idx := fun _ _ _ h => h.1.toIdx
  sent_idx := fun _ _ _ h => h.toIdx
  numbered_no := fun _ _ _ h => h.2
  idle_step := fun _ _ h => h.not_full
  numbered_step := fun _ _ _ _ h => h.1.not_full
  sent_step := fun _ _ _ _ h => h.not_full
  answered_step := fun _ _ _ _ _ h => h.not_full
  idle_cut := fun _ _ h hL => h.cut hL
  idle_ack := fun _ h => h.congr { h.toIdx with } le_rfl
  idle_number := fun _ h => ⟨h.congr { h.toIdx with } le_rfl, rfl⟩
  numbered_write := fun _ _ _ m h =>
    ⟨h.1.congr { h.1.toIdx with } (congrArg List.length (outstanding_write h.1.toIdx m)).le, h.2⟩
  numbered_idle := fun _ _ _ h => h.1
  publish := fun _ _ _ _ _ h hroom hok _ => h.1.publish hroom hok
  sent_idle := fun _ _ _ h => h
  sent_cut := fun _ _ _ _ h hL _ => h.cut hL
  sent_ack := fun _ _ _ h => h.congr { h.toIdx with } le_rfl
  accept := fun _ _ _ _ _ _ h hL _ => h.cut hL
  answered_ack := fun _ _ _ _ h => h.congr { h.toIdx with } le_rfl
  answered_ready := fun _ _ _ _ h => h.congr { h.toIdx with } le_rfl
  stamped := fun _ _ _ => trivial

theorem Boot.slack (h : Boot q s) : Slack q s := ⟨h.toIdx, by simp [h.outstanding_nil]⟩

/-- **The reply ring never fills up**, in the middle of a call or between calls, in any run
whose sends all leave room for every reply. -/
theorem reply_ring_never_full {p : Option (Thread Op Ans Shm Call XferResult)}
    (h : (acpm q).Reach (fewUnderWay q) s p) : ¬ RxFull q s := by
  have hcall : ∀ c s, Slack q s → (acpm q).enabled c s = true →
      wp (channel q) (fewUnderWay q c) (fun s _ => ¬ RxFull q s) ((acpm q).call c)
        (fun _ t => Slack q t) s := by
    intro c s hs _
    refine wp_mono ?_ (wp_call (roomy q c) trivial hs)
    rintro res t (⟨-, -, ht⟩ | ⟨r, no, cmd, -, -, -, ht⟩)
    · exact ht
    · exact ht
  have hall := System.reach_holds (S := fun _ _ s _ => ¬ RxFull q s)
    (fun s hs => Boot.slack hs) slack_stable hcall (fun _ _ _ _ h => h) h
  cases p with
  | none => exact Slack.not_full hall
  | some th => exact hall.mid

/-- A reply stands in the ring, and a call is in progress. -/
def replyArrived (x : Shm × Option (Thread Op Ans Shm Call XferResult)) : Bool :=
  x.2.isSome && decide (x.1.rxRear ≠ x.1.rxFront)

theorem reply_ring_never_full_answered : ∃ s th,
    (acpm 5).Reach (fewUnderWay 5) s (some th) ∧ s.rxRear ≠ s.rxFront ∧ ¬ RxFull 5 s := by
  have hrun : ((acpm 5).exec (fewUnderWay 5) (.start (writeOf 0x50 1) :: accesses 14 ++
      [.env .fetch, .env (.exec 0), .env .reply]) (bootShm, none)).any replyArrived = true := by
    decide +kernel
  obtain ⟨s, p, hr, hp⟩ :=
    System.reach_of_exec (bootShm_boot (by decide) (by decide)) _ _ hrun
  simp only [replyArrived, Bool.and_eq_true, decide_eq_true_eq] at hp
  obtain ⟨th, rfl⟩ := Option.isSome_iff_exists.mp hp.1
  exact ⟨s, th, hr, hp.2, reply_ring_never_full hr⟩

/-- Two calls that time out with four commands sent, all of which the firmware answers
afterwards. -/
def backlogRun : List (System.Ev ApmEv Unit Call) :=
  .start (writeOf 0x50 0) :: accesses 40 ++ [.done] ++
    .start (writeOf 0x50 0) :: accesses 28 ++ [.done] ++
    (List.replicate 4 [.env .fetch, .env (.exec 0), .env .reply]).flatten

/-- **The ring is left full**, with no call in progress. -/
theorem reply_ring_full : ∃ s, (acpm 5).Reach System.anyStep s none ∧ RxFull 5 s := by
  have hrun : ((acpm 5).exec System.anyStep backlogRun (bootShm, none)).any
      (fun x => x.2.isNone && decide ((rxMsgs 5 x.1).length = 4)) = true := by decide +kernel
  obtain ⟨s, p, hr, hp⟩ :=
    System.reach_of_exec (bootShm_boot (by decide) (by decide)) backlogRun _ hrun
  simp only [Bool.and_eq_true, decide_eq_true_eq, Option.isNone_iff_eq_none] at hp
  obtain ⟨rfl, hfull⟩ := hp
  exact ⟨s, hr, hfull⟩

end S9p.Acpm
