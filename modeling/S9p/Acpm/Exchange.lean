/-
# The tool's end of the rings, with the firmware in between

The tool puts a command into a ring, and takes the reply with its number out of the other one,
wherever it stands there, by moving the oldest entry into its place.  Here every SRAM access is a
step of its own, between which the firmware pops commands and appends replies.

`Has` says what is under way on a ring; `observer` stands for anything that commands change in
their order (for the MFD channel: the PMIC registers).

* `Answers.wp_toolPut`: a command goes to the end of what is under way.
* `Answers.wp_toolScan`: a pass over the unread replies finds none with the number, or takes out the
  first reply with it, and all others are still there.
-/
import Mathlib.Data.List.Count
import S9p.Acpm.Tool

namespace S9p.Acpm

open Device

variable {q : Nat}

/-! ## 1. The tool's access to a ring

On a ring channel the tool looks at the index words itself.  The first look at the rear index is
thrown away in the source as well. -/

/-- What `send` of the tool does on a ring once the command has its number; `looks` is how many
further looks at the ring fit into the timeout.  `false` is the exit with "tx queue full". -/
def toolPut (q : Nat) (cmd : Cmd) (looks : Nat) : P Bool := do
  let front ← rdTxFront
  let _ ← rdTxRear
  let nxt := Ring.succ q front
  let room ← waitRoom nxt looks
  if room then do
    writeCmd .tool front cmd
    wrTxFront nxt
    wrIntgr0
    return true
  else return false

/-! ## 2. A reply is taken out

What can be said of a reply that is taken out depends on whether an older one carries the same
number.  Both cases occur, and the tool cannot tell them apart. -/

/-- Of what is under way, `c` is the first with the number `want`; `L'` is the rest. -/
structure Taken (want : Word) (L : List Cell) (c : Cell) (L' : List Cell) : Prop where
  first : L.find? (fun x => seqOf x.bits = want) = some c
  rest : L.Perm (c :: L')

/-- Where nothing older has the number, the reply is the one to the command sent last. -/
theorem Taken.own {want : Word} {L L' : List Cell} {c o : Cell} (h : Taken want (L ++ [o]) c L')
    (hfree : ∀ x ∈ L, seqOf x.bits ≠ want) : c = o ∧ L'.Perm L := by
  have hnone : L.find? (fun x => seqOf x.bits = want) = none :=
    List.find?_eq_none.mpr (fun x hx => by simpa using hfree x hx)
  have hc : c = o := by
    have hfirst := h.first
    rw [List.find?_append, hnone, Option.none_or] at hfirst
    exact (List.mem_singleton.mp (List.mem_of_find?_eq_some hfirst))
  subst hc
  refine ⟨rfl, (List.perm_cons c).mp ?_⟩
  exact h.rest.symm.trans (List.perm_append_singleton c L)

/-- Where something older has the number, that reply is gone, and the one to the command sent last
is still to come. -/
theorem Taken.other {want : Word} {L L' : List Cell} {c o : Cell} (h : Taken want (L ++ [o]) c L')
    (hnew : o ∉ L) (hsame : ¬ ∀ x ∈ L, seqOf x.bits ≠ want) : ¬ L.Subperm L' := by
  intro hsub
  have hlen := h.rest.length_eq
  rw [List.length_append, List.length_singleton, List.length_cons] at hlen
  have hperm : L.Perm L' := hsub.perm_of_length_le (by omega)
  -- the first one with the number stands before the command sent last
  obtain ⟨d, hd⟩ : ∃ d, L.find? (fun x => seqOf x.bits = want) = some d := by
    rw [← Option.isSome_iff_exists, List.find?_isSome]
    simpa using hsame
  have hc : d = c := by
    have hfirst := h.first
    rw [List.find?_append, hd, Option.some_or] at hfirst
    exact Option.some.inj hfirst
  subst hc
  have hne : d ≠ o := fun heq => hnew (heq ▸ List.mem_of_find?_eq_some hd)
  have hswap : (o :: L').Perm (d :: L') :=
    (hperm.symm.cons o).trans ((List.perm_append_singleton o L).symm.trans h.rest)
  have hcount := hswap.count_eq o
  rw [List.count_cons_self, List.count_cons_of_ne hne] at hcount
  omega

/-- What is gone stays gone. -/
theorem Taken.gone {want : Word} {L L' L₀ : List Cell} {c o : Cell}
    (h : Taken want (L ++ [o]) c L') (hnew : o ∉ L₀) (hgone : ¬ L₀.Subperm L) :
    ¬ L₀.Subperm L' := by
  intro hsub
  have hmore : L₀.Subperm (L ++ [o]) :=
    (hsub.trans List.subperm_cons_self).trans h.rest.symm.subperm
  have herase := (hmore.trans (List.perm_append_singleton o L).subperm).erase o
  rw [List.erase_of_not_mem hnew, List.erase_cons_head] at herase
  exact hgone herase

/-! ## 3. What is under way

The observer is a function of the memory that no step of the firmware changes: what it sees is what
will be, once all that is under way has been carried out. -/

section Rules

variable {σ Env β : Type} {D : Device Op Ans σ Env Unit} {mem : σ → Shm} {put : σ → Shm → σ}
  {observer : Shm → β} {effect : Msg → β → β}

/-- A firmware that answers in order.  The observer sees what commands do: it looks at the commands
that have not been carried out, and at the registers.  `effect` says how a command changes what the
observer sees. -/
structure Answers (q : Nat) (D : Device Op Ans σ Env Unit) (mem : σ → Shm) (put : σ → Shm → σ)
    (observer : Shm → β) (effect : Msg → β → β) : Prop extends Serves q D mem put where
  heads : ∀ e s t, D.env e s = some t → Idx q (mem s) → heads q (mem t) = heads q (mem s)
  toolNo : ∀ e s t, D.env e s = some t → (mem t).toolNo = (mem s).toolNo
  observed : ∀ e s t, D.env e s = some t → Idx q (mem s) →
    observer (mem t) = observer (mem s)
  unseen : ∀ m m' : Shm, txMsgs q m' = txMsgs q m → m'.job = m.job → m'.pmic = m.pmic →
    observer m' = observer m
  published : ∀ (m m' : Shm) (x : Msg), txMsgs q m' = txMsgs q m ++ [x] → m'.job = m.job →
    m'.pmic = m.pmic → observer m' = effect x (observer m)

/-- The commands under way are `L`, the replies `R` are among the unread ones, and the observer has
seen `b`.  The unread replies `R` are those the caller wants to see again; others may come and
go. -/
structure Has (q : Nat) (mem : σ → Shm) (observer : Shm → β) (F : σ → Prop) (no : Nat)
    (L : List Cell) (R : List Msg) (b : β) (s : σ) : Prop where
  frame : F s
  idx : Idx q (mem s)
  no : (mem s).toolNo = no
  heads : heads q (mem s) = L
  unread : R.Subperm (rxMsgs q (mem s))
  observed : observer (mem s) = b

namespace Answers

variable {F : σ → Prop} {no : Nat} {L : List Cell} {R : List Msg} {b : β} {s : σ}

theorem has_stable (hD : Answers q D mem put observer effect) (hF : D.Stable F) :
    D.Stable (Has q mem observer F no L R b) := by
  rintro e s t h hs
  exact {
    frame := hF e s t h hs.frame
    idx := hD.idx e s t h hs.idx
    no := (hD.toolNo e s t h).trans hs.no
    heads := (hD.heads e s t h hs.idx).trans hs.heads
    unread := hs.unread.trans (hD.rx _ e s t h ⟨hs.idx, List.prefix_rfl⟩).2.sublist.subperm
    observed := (hD.observed e s t h hs.idx).trans hs.observed }

/-- What an access leaves. -/
theorem has_put (hD : Answers q D mem put observer effect) (hput : ∀ s m, F s → F (put s m))
    {m : Shm} (hF : F s) (hidx : Idx q m) (hno : m.toolNo = no) (hheads : Acpm.heads q m = L)
    (hunread : R.Subperm (rxMsgs q m)) (hobs : observer m = b) :
    Has q mem observer F no L R b (put s m) := by
  have hmem := hD.mem_put s m
  exact {
    frame := hput s m hF
    idx := hmem.symm ▸ hidx
    no := hmem.symm ▸ hno
    heads := hmem.symm ▸ hheads
    unread := hmem.symm ▸ hunread
    observed := hmem.symm ▸ hobs }

/-! ## 4. The rule for a command

The tool's command goes behind all others, and the observer sees its effect from that moment on. -/

theorem wp_toolPut (hD : Answers q D mem put observer effect) (hF : D.Stable F)
    (hput : ∀ s m, F s → F (put s m)) {cmd : Cmd} {looks : Nat}
    (hs : Has q mem observer F no L R b s) :
    wp D (fun _ _ _ => true) (fun _ _ => True) (toolPut q cmd looks) (fun sent t =>
      if sent then Has q mem observer F no (L ++ [⟨cmd.w0, ⟨.tool, no⟩⟩]) R
        (effect (Msg.ofCmd ⟨.tool, no⟩ cmd) b) t
      else Has q mem observer F no L R b t) s := by
  have hst : D.Stable (Has q mem observer F no L R b) := hD.has_stable hF
  simp only [toolPut, rdTxFront, rdTxRear, Prog.perform_bind]
  refine hD.wp_look hst (fun _ => rfl) hs (fun _ _ => trivial) (fun t0 ht0 => ?_)
  -- the front index is the tool's own
  have hfront : D.Stable (fun s => Has q mem observer F no L R b s ∧
      (mem s).txFront = (mem t0).txFront) := fun e s t h hs =>
    ⟨hst e s t h hs.1, (hD.txFront e s t h).trans hs.2⟩
  refine hD.wp_look hfront (fun _ => rfl) ⟨ht0, rfl⟩ (fun _ _ => trivial) (fun t1 ht1 => ?_)
  refine wp_bind (wp_mono ?_ (hD.wp_waitRoom hfront (fun _ _ _ => trivial) looks t1 ht1))
  rintro room t2 ⟨ht2, hroom⟩
  split
  · rename_i htrue
    obtain ⟨u, hu, hne, hdrift⟩ := hroom htrue
    refine hD.wp_enqueue (T := Has q mem observer F no (L ++ [⟨cmd.w0, ⟨.tool, no⟩⟩]) R
        (effect (Msg.ofCmd ⟨.tool, no⟩ cmd) b)) hfront (fun _ h => h.2) (fun s h => h.1.no) ?_
      (hD.has_stable hF) ?_ ?_ (fun _ _ _ => trivial) (fun _ _ _ => trivial) ht2
      (hD.room.drift hdrift ⟨hu.1.idx, by rwa [hu.2]⟩)
    · rintro s m ⟨h1, h2⟩
      refine ⟨hD.has_put hput h1.frame { h1.idx with } h1.no ?_ h1.unread ?_, ?_⟩
      · rw [Acpm.heads, outstanding_write h1.idx]
        exact h1.heads
      · exact (hD.unseen _ _ (txMsgs_write h1.idx m) rfl rfl).trans h1.observed
      · rw [hD.mem_put]
        exact h2
    · rintro s ⟨h1, h2⟩ hne - hcmd
      rw [← h2] at hne hcmd ⊢
      have hpub := outstanding_publish h1.idx hne
      have htx : txMsgs q { mem s with txFront := Ring.succ q (mem s).txFront } =
          txMsgs q (mem s) ++ [(mem s).txSlot (mem s).txFront] :=
        Ring.contents_push h1.idx.txRear h1.idx.txFront hne
      rw [hcmd] at hpub htx
      refine hD.has_put hput h1.frame { h1.idx with txFront := Ring.succ_lt h1.idx.pos } h1.no ?_
        h1.unread ?_
      · rw [Acpm.heads, hpub, List.map_append, ← Acpm.heads, h1.heads]
        rfl
      · rw [hD.published _ _ _ htx rfl rfl, h1.observed]
    · exact fun s hs => wp_ret (hD.has_stable hF) hs (fun _ _ => trivial) (fun _ h => h)
  · exact wp_ret hst ht2.1 (fun _ _ => trivial) (fun _ h => h)

/-! ## 5. The search for a reply

The search is bounded by the front index that was read before it.  Replies that arrive meanwhile are
behind it. -/

/-- The search stops at the first entry with the wanted number.  The induction is on what is left
of the prefix `A ++ B` of the unread replies it goes through. -/
theorem wp_toolFind {I : σ → Prop} (hD : Serves q D mem put) (hI : D.Stable I) {rear front : Nat}
    {want : Word} : ∀ (B A : List Msg) (fuel : Nat) (s : σ), B.length ≤ fuel →
      (rear + (A ++ B).length) % q = front → (∀ a ∈ A, seqOf a.w0.bits ≠ want) →
      Serves.Draining q mem I rear (A ++ B) s →
      wp D (fun _ _ _ => true) (fun _ _ => True)
        (toolFind q want front fuel ((rear + A.length) % q)) (fun found t =>
          Serves.Draining q mem I rear (A ++ B) t ∧ (found = none ∨ ∃ A' m B',
            A ++ B = A' ++ m :: B' ∧ found = some ((rear + A'.length) % q) ∧
            seqOf m.w0.bits = want ∧ ∀ a ∈ A', seqOf a.w0.bits ≠ want)) s
  | [], A, fuel, s, _, hfront, _, hs => by
    have hend : (rear + A.length) % q = front := by simpa using hfront
    have hd : toolFind q want front fuel ((rear + A.length) % q) = pure none := by
      cases fuel <;> simp [toolFind, hend]
    rw [hd]
    exact wp_ret (Serves.draining_stable hD hI rear (A ++ [])) hs (fun _ _ => trivial)
      (fun t ht => ⟨ht, .inl rfl⟩)
  | m :: B, A, 0, s, hfuel, _, _, _ => absurd hfuel (by simp)
  | m :: B, A, fuel + 1, s, hfuel, hfront, hA, hs => by
    have hst := Serves.draining_stable hD hI rear (A ++ m :: B)
    have hne : (rear + A.length) % q ≠ front := by
      obtain ⟨-, rfl, h3, h4⟩ := hs
      exact walk_ne h3 h4 hfront
    have hnext : ((rear + A.length) % q + 1) % q = (rear + (A ++ [m]).length) % q := by
      have h : Ring.succ q ((rear + A.length) % q) = (rear + (A.length + 1)) % q :=
        Ring.succ_add_mod
      rw [List.length_append, List.length_singleton]
      exact h
    simp only [toolFind, if_neg hne, rdRxWord, Prog.perform_bind]
    refine hD.wp_look hst (fun _ => rfl) hs (fun _ _ => trivial) (fun t ht => ?_)
    have hw : ((mem t).rxSlot ((rear + A.length) % q)).get 0 = m.w0 := by
      obtain ⟨-, h2, -, h4⟩ := ht
      rw [← h2, rxSlot_of_prefix h4]
      rfl
    rw [hw]
    split
    · rename_i hm
      exact wp_ret hst ht (fun _ _ => trivial) (fun u hu => ⟨hu, .inr ⟨A, m, B, rfl, rfl, hm, hA⟩⟩)
    · rename_i hm
      have happ : A ++ m :: B = (A ++ [m]) ++ B := by simp
      rw [hnext, happ]
      rw [happ] at ht hfront
      refine wp_toolFind hD hI B (A ++ [m]) fuel t (by simpa using hfuel) hfront ?_ ht
      intro a ha
      rcases List.mem_append.mp ha with ha | ha
      · exact hA a ha
      · rwa [List.mem_singleton.mp ha]

/-! ## 6. An entry is moved

The four words are copied one by one, and in between the entry is neither the old one nor the new
one.  `Moving` describes it word by word; no other client looks at it in the meantime. -/

/-- The unread replies begin with `Y`, from the slot `rear` on; `K` is under way behind them. -/
structure Moving (q : Nat) (mem : σ → Shm) (observer : Shm → β) (F : σ → Prop) (no rear : Nat)
    (Y : List Msg) (K : List Cell) (b : β) (s : σ) : Prop where
  frame : F s
  idx : Idx q (mem s)
  no : (mem s).toolNo = no
  rear : (mem s).rxRear = rear
  front : Y <+: rxMsgs q (mem s)
  heads : Acpm.heads q (mem s) = Y.map Quad.w0 ++ K
  observed : observer (mem s) = b

variable {rear : Nat} {Y : List Msg} {K : List Cell}

theorem moving_stable (hD : Answers q D mem put observer effect) (hF : D.Stable F) :
    D.Stable (Moving q mem observer F no rear Y K b) := by
  rintro e s t h hs
  exact {
    frame := hF e s t h hs.frame
    idx := hD.idx e s t h hs.idx
    no := (hD.toolNo e s t h).trans hs.no
    rear := (hD.rxRear e s t h).trans hs.rear
    front := (hD.rx Y e s t h ⟨hs.idx, hs.front⟩).2
    heads := (hD.heads e s t h hs.idx).trans hs.heads
    observed := (hD.observed e s t h hs.idx).trans hs.observed }

theorem Moving.lt (h : Moving q mem observer F no rear Y K b s) {j : Nat} (hj : j < Y.length) :
    j < Ring.len q (mem s).rxRear (mem s).rxFront := by
  have := h.front.length_le
  rw [rxMsgs, Ring.length_contents] at this
  omega

/-- The slot behind an entry. -/
theorem Moving.slot (h : Moving q mem observer F no rear Y K b s) {j : Nat} {y : Msg}
    (hy : Y[j]? = some y) : (mem s).rxSlot ((rear + j) % q) = y := by
  have hj : j < Y.length := (List.getElem?_eq_some_iff.mp hy).1
  have hrx : (rxMsgs q (mem s))[j]? = some ((mem s).rxSlot (((mem s).rxRear + j) % q)) :=
    Ring.getElem?_contents (h.lt hj)
  obtain ⟨Z, hZ⟩ := h.front
  rw [← hZ, List.getElem?_append_left hj, hy, h.rear] at hrx
  exact (Option.some.inj hrx).symm

/-- What is under way behind the entries, with the unread replies written out. -/
theorem Moving.behind (h : Moving q mem observer F no rear Y K b s) {Z : List Msg}
    (hZ : Y ++ Z = rxMsgs q (mem s)) :
    Z.map Quad.w0 ++ ((mem s).job.toList.map Job.msg ++ txMsgs q (mem s)).map Quad.w0 = K := by
  have hheads := h.heads
  rw [Acpm.heads, outstanding, ← hZ, List.append_assoc, List.map_append] at hheads
  rw [← List.append_cancel_left hheads]
  simp only [List.map_append]

/-- A write to the slot of an entry replaces it. -/
theorem Moving.set (hD : Answers q D mem put observer effect) (hput : ∀ s m, F s → F (put s m))
    (h : Moving q mem observer F no rear Y K b s) {j : Nat} (hj : j < Y.length) (v : Msg) :
    Moving q mem observer F no rear (Y.set j v) K b
      (put s { mem s with rxSlot := Function.update (mem s).rxSlot ((rear + j) % q) v }) := by
  have hmem := hD.mem_put s
    { mem s with rxSlot := Function.update (mem s).rxSlot ((rear + j) % q) v }
  obtain ⟨Z, hZ⟩ := h.front
  have hrx : rxMsgs q { mem s with
      rxSlot := Function.update (mem s).rxSlot ((rear + j) % q) v } = Y.set j v ++ Z := by
    have hset : rxMsgs q { mem s with
        rxSlot := Function.update (mem s).rxSlot (((mem s).rxRear + j) % q) v } =
          (rxMsgs q (mem s)).set j v := Ring.contents_update h.idx.pos (h.lt hj) v
    rw [h.rear] at hset
    rw [hset, ← hZ, List.set_append_left _ _ hj]
  exact {
    frame := hput s _ h.frame
    idx := hmem.symm ▸ { h.idx with }
    no := hmem.symm ▸ h.no
    rear := hmem.symm ▸ h.rear
    front := by
      rw [hmem, hrx]
      exact List.prefix_append _ _
    heads := by
      rw [hmem, Acpm.heads, outstanding, hrx, List.append_assoc, List.map_append, List.map_append,
        ← h.behind hZ]
      rfl
    observed := by
      rw [hmem]
      exact (hD.unseen (mem s)
        { mem s with rxSlot := Function.update (mem s).rxSlot ((rear + j) % q) v }
        rfl rfl rfl).trans h.observed }

/-- One word is copied from the oldest entry to entry `j`. -/
theorem Moving.wp_copy {α : Type} (hD : Answers q D mem put observer effect) (hF : D.Stable F)
    (hput : ∀ s m, F s → F (put s m)) (h : Moving q mem observer F no rear Y K b s) {j : Nat}
    {x y : Msg} (hx : Y[0]? = some x) (hy : Y[j]? = some y) (k : Fin 4) {kont : P α}
    {Q : α → σ → Prop}
    (hk : ∀ t, Moving q mem observer F no rear (Y.set j (y.set k (x.get k))) K b t →
      wp D (fun _ _ _ => true) (fun _ _ => True) kont Q t) :
    wp D (fun _ _ _ => true) (fun _ _ => True)
      (Prog.op (Op.rdRxWord rear k) fun w =>
        Prog.op (Op.wrRxWord ((rear + j) % q) k w) fun _ => kont) Q s := by
  have hst : D.Stable (Moving q mem observer F no rear Y K b) := hD.moving_stable hF
  refine hD.wp_look hst (fun _ => rfl) h (fun _ _ => trivial) (fun t ht => ?_)
  have hrear : (mem t).rxSlot rear = x := by
    have hlt : rear < q := ht.rear ▸ ht.idx.rxRear
    have := ht.slot hx
    rwa [Nat.add_zero, Nat.mod_eq_of_lt hlt] at this
  rw [hrear]
  refine hD.wp_access hst (fun _ => rfl) ht (fun _ _ => trivial) (fun u hu _ => ?_)
  rw [hu.slot hy]
  exact hk _ (hu.set hD hput (List.getElem?_eq_some_iff.mp hy).1 _)

/-- The oldest entry is copied over entry `j`, word by word. -/
theorem Moving.wp_moveEntry (hD : Answers q D mem put observer effect) (hF : D.Stable F)
    (hput : ∀ s m, F s → F (put s m)) (h : Moving q mem observer F no rear Y K b s) {j : Nat}
    {x y : Msg} (hx : Y[0]? = some x) (hy : Y[j]? = some y) (hj : 0 < j) :
    wp D (fun _ _ _ => true) (fun _ _ => True) (moveEntry rear ((rear + j) % q))
      (fun _ => Moving q mem observer F no rear (Y.set j x) K b) s := by
  -- what the writes so far leave of the two entries
  have hx' : ∀ v : Msg, (Y.set j v)[0]? = some x := fun v => by
    rw [List.getElem?_set_ne (by omega), hx]
  have hy' : ∀ v : Msg, (Y.set j v)[j]? = some v := fun v =>
    List.getElem?_set_self (List.getElem?_eq_some_iff.mp hy).1
  simp only [moveEntry, rdRxWord, wrRxWord, Prog.perform_bind]
  refine h.wp_copy hD hF hput hx hy 0 (fun t0 h0 => ?_)
  refine h0.wp_copy hD hF hput (hx' _) (hy' _) 1 (fun t1 h1 => ?_)
  rw [List.set_set] at h1
  refine h1.wp_copy hD hF hput (hx' _) (hy' _) 2 (fun t2 h2 => ?_)
  rw [List.set_set] at h2
  change wp D _ _ (Prog.op _ fun w => Prog.op _ fun _ => Prog.ret ()) _ t2
  refine h2.wp_copy hD hF hput (hx' _) (hy' _) 3 (fun t3 h3 => ?_)
  rw [List.set_set] at h3
  exact wp_ret (hD.moving_stable hF) h3 (fun _ _ => trivial) (fun t ht => ht)

/-- Once the rear index has moved on, the oldest entry is gone. -/
theorem Moving.drop (hD : Answers q D mem put observer effect) (hput : ∀ s m, F s → F (put s m))
    {y : Msg} (h : Moving q mem observer F no rear (y :: Y) K b s) (hR : R.Subperm Y) :
    Has q mem observer F no (Y.map Quad.w0 ++ K) R b
      (put s { mem s with rxRear := Ring.succ q rear }) := by
  obtain ⟨Z, hZ⟩ := h.front
  have hne : (mem s).rxRear ≠ (mem s).rxFront := by
    intro heq
    have := h.lt (j := 0) (by simp)
    rw [heq, Ring.len_self] at this
    exact absurd this (by simp)
  have hpop : rxMsgs q (mem s) = (mem s).rxSlot (mem s).rxRear ::
      rxMsgs q { mem s with rxRear := Ring.succ q (mem s).rxRear } :=
    Ring.contents_pop h.idx.rxRear h.idx.rxFront hne
  have hrx : rxMsgs q { mem s with rxRear := Ring.succ q rear } = Y ++ Z := by
    rw [← h.rear]
    rw [← hZ, List.cons_append] at hpop
    exact (List.cons.inj hpop).2.symm
  refine hD.has_put hput h.frame { h.idx with rxRear := Ring.succ_lt h.idx.pos } h.no ?_ ?_ ?_
  · rw [Acpm.heads, outstanding, hrx, List.append_assoc, List.map_append, List.map_append,
      ← h.behind hZ]
    rfl
  · rw [hrx]
    exact hR.trans (List.prefix_append _ _).sublist.subperm
  · exact (hD.unseen (mem s) { mem s with rxRear := Ring.succ q rear } rfl rfl rfl).trans h.observed

/-! ## 7. The rule for a reply

The acknowledgement looks at the front index twice, since a reply may arrive between the first look
and the clearing of the interrupt; then the interrupt is raised again. -/

/-- The acknowledgement moves nothing. -/
theorem wp_toolAck (hD : Answers q D mem put observer effect) (hF : D.Stable F)
    (hput : ∀ s m, F s → F (put s m)) (rear : Nat) (hs : Has q mem observer F no L R b s) :
    wp D (fun _ _ _ => true) (fun _ _ => True) (toolAck rear)
      (fun _ => Has q mem observer F no L R b) s := by
  have hst : D.Stable (Has q mem observer F no L R b) := hD.has_stable hF
  have hpend : ∀ t v, Has q mem observer F no L R b t →
      Has q mem observer F no L R b (put t { mem t with intsr1 := v }) := fun t v ht =>
    hD.has_put hput ht.frame { ht.idx with } ht.no ht.heads ht.unread
      ((hD.unseen (mem t) { mem t with intsr1 := v } rfl rfl rfl).trans ht.observed)
  simp only [toolAck, rdRxFront, wrIntcr1, wrIntgr1, Prog.perform_bind]
  refine hD.wp_look hst (fun _ => rfl) hs (fun _ _ => trivial) (fun t0 ht0 => ?_)
  split
  · refine hD.wp_access hst (fun _ => rfl) ht0 (fun _ _ => trivial) (fun t1 ht1 _ => ?_)
    refine hD.wp_look hst (fun _ => rfl) (hpend t1 _ ht1) (fun _ _ => trivial) (fun t2 ht2 => ?_)
    split
    · refine hD.wp_access hst (fun _ => rfl) ht2 (fun _ _ => trivial) (fun t3 ht3 _ => ?_)
      exact wp_ret hst (hpend t3 _ ht3) (fun _ _ => trivial) (fun t ht => ht)
    · exact wp_ret hst ht2 (fun _ _ => trivial) (fun t ht => ht)
  · exact wp_ret hst ht0 (fun _ _ => trivial) (fun t ht => ht)

/-- Entry `A.length` is taken out: the oldest one goes into its slot, and is dropped instead. -/
theorem Moving.wp_dequeue (hD : Answers q D mem put observer effect) (hF : D.Stable F)
    (hput : ∀ s m, F s → F (put s m)) {A B : List Msg} {m : Msg}
    (h : Moving q mem observer F no rear (A ++ m :: B) K b s) (hR : R.Subperm (A ++ m :: B)) :
    wp D (fun _ _ _ => true) (fun _ _ => True)
      (do
        if (rear + A.length) % q ≠ rear then
          moveEntry rear ((rear + A.length) % q)
        wrRxRear ((rear + 1) % q)
        toolAck ((rear + 1) % q)
        return some m)
      (fun r t => r = some m ∧ ∃ Y, (A ++ m :: B).Perm (m :: Y) ∧
        Has q mem observer F no (Y.map Quad.w0 ++ K) (R.erase m) b t) s := by
  obtain ⟨x, hx⟩ : ∃ x, (A ++ m :: B)[0]? = some x := by
    cases A <;> simp
  obtain ⟨y, Y, hY⟩ : ∃ y Y, (A ++ m :: B).set A.length x = y :: Y := by
    cases A <;> simp
  have hm : (A ++ m :: B)[A.length]? = some m := by simp
  have hperm : (A ++ m :: B).Perm (m :: Y) := by
    have := perm_set_tail hm hx
    rwa [hY, List.tail_cons] at this
  have hrest : (R.erase m).Subperm Y := by
    have := (hR.trans hperm.subperm).erase m
    rwa [List.erase_cons_head] at this
  have hdrop : ∀ u, Moving q mem observer F no rear (y :: Y) K b u →
      wp D (fun _ _ _ => true) (fun _ _ => True)
        (do wrRxRear ((rear + 1) % q); toolAck ((rear + 1) % q); return some m)
        (fun r t => r = some m ∧ ∃ Y, (A ++ m :: B).Perm (m :: Y) ∧
          Has q mem observer F no (Y.map Quad.w0 ++ K) (R.erase m) b t) u := by
    intro u hu
    simp only [wrRxRear, Prog.perform_bind]
    refine hD.wp_access (hD.moving_stable hF) (fun _ => rfl) hu (fun _ _ => trivial)
      (fun t4 h4 _ => ?_)
    refine wp_bind (wp_mono ?_ (hD.wp_toolAck hF hput _ (h4.drop hD hput hrest)))
    intro _ t5 h5
    exact wp_ret (hD.has_stable hF) h5 (fun _ _ => trivial) (fun t ht => ⟨rfl, Y, hperm, ht⟩)
  -- entries stand in different slots
  have hlt : rear < q := h.rear ▸ h.idx.rxRear
  have hzero : (rear + A.length) % q = rear ↔ A.length = 0 := by
    constructor
    · intro heq
      have hlen := h.lt (j := A.length) (by simp)
      have hq : Ring.len q (mem s).rxRear (mem s).rxFront < q := Ring.len_lt h.idx.pos
      have hsame : (rear + A.length) % q = (rear + 0) % q := by
        rw [heq, Nat.add_zero, Nat.mod_eq_of_lt hlt]
      exact Ring.add_mod_inj (by omega) (by omega) hsame
    · intro h0
      rw [h0, Nat.add_zero, Nat.mod_eq_of_lt hlt]
  split
  · rename_i hne
    have hpos : 0 < A.length := Nat.pos_of_ne_zero (fun h0 => hne (hzero.mpr h0))
    refine wp_bind (wp_mono ?_ (h.wp_moveEntry hD hF hput hx hm hpos))
    rintro - t4 h4
    exact hdrop t4 (hY ▸ h4)
  · rename_i heq
    have hA0 : A = [] := List.eq_nil_of_length_eq_zero (hzero.mp (not_not.mp heq))
    subst hA0
    simp only [List.nil_append, List.getElem?_cons_zero, Option.some.injEq] at hx
    subst hx
    exact hdrop s (hY ▸ h)

/-- **A pass over the unread replies** finds nothing, or takes out the first reply with the
number. -/
theorem wp_toolScan (hD : Answers q D mem put observer effect) (hF : D.Stable F)
    (hput : ∀ s m, F s → F (put s m)) {want : Word} (hs : Has q mem observer F no L R b s) :
    wp D (fun _ _ _ => true) (fun _ _ => True) (toolScan q want) (fun r t => match r with
      | none => Has q mem observer F no L R b t
      | some m => ∃ L', Taken want L m.w0 L' ∧ Has q mem observer F no L' (R.erase m) b t) s := by
  have hst : D.Stable (Has q mem observer F no L R b) := hD.has_stable hF
  simp only [toolScan, rdIntsr1, rdRxFront, rdRxRear, Prog.perform_bind]
  refine hD.wp_look hst (fun _ => rfl) hs (fun _ _ => trivial) (fun t ht => ?_)
  split
  · exact wp_ret hst ht (fun _ _ => trivial) (fun _ h => h)
  refine hD.wp_look hst (fun _ => rfl) ht (fun _ _ => trivial) (fun t0 ht0 => ?_)
  -- the unread replies at this moment are what the pass will look at
  obtain ⟨X, hX⟩ : ∃ X, rxMsgs q (mem t0) = X := ⟨_, rfl⟩
  obtain ⟨rear, hrear⟩ : ∃ rear, (mem t0).rxRear = rear := ⟨_, rfl⟩
  obtain ⟨K, hK⟩ : ∃ K, L = X.map Quad.w0 ++ K := by
    refine ⟨((mem t0).job.toList.map Job.msg ++ txMsgs q (mem t0)).map Quad.w0, ?_⟩
    rw [← ht0.heads, Acpm.heads, outstanding, hX, List.map_append]
  have hunread : R.Subperm X := hX ▸ ht0.unread
  have hmov : Moving q mem observer F no rear X K b t0 :=
    ⟨ht0.frame, ht0.idx, ht0.no, hrear, hX ▸ List.prefix_rfl, ht0.heads.trans hK, ht0.observed⟩
  have hmst : D.Stable (Moving q mem observer F no rear X K b) := hD.moving_stable hF
  have hlen : X.length < q := hX ▸ length_rxMsgs_lt ht0.idx
  have hfront : (rear + ([] ++ X).length) % q = (mem t0).rxFront := by
    rw [List.nil_append, ← hX, ← hrear, rxMsgs, Ring.length_contents,
      Ring.add_len_mod ht0.idx.rxRear ht0.idx.rxFront]
  refine hD.wp_look hmst (fun _ => rfl) hmov (fun _ _ => trivial) (fun t1 ht1 => ?_)
  have hstart : (rear + ([] : List Msg).length) % q = rear := by
    rw [List.length_nil, Nat.add_zero, Nat.mod_eq_of_lt (hrear ▸ ht0.idx.rxRear)]
  rw [ht1.rear, ← hstart]
  refine wp_bind (wp_mono ?_ (wp_toolFind hD.toServes hmst X [] q t1 (by omega) hfront
    (fun _ h => absurd h (by simp)) ⟨ht1, ht1.rear, ht1.idx, ht1.front⟩))
  rintro found t2 ⟨ht2, rfl | ⟨A, m, B, hsplit, rfl, hm, hA⟩⟩
  · refine wp_ret hmst ht2.1 (fun _ _ => trivial) (fun u hu => ?_)
    exact ⟨hu.frame, hu.idx, hu.no, hu.heads.trans hK.symm,
      hunread.trans hu.front.sublist.subperm, hu.observed⟩
  rw [List.nil_append] at hsplit
  subst hsplit
  rw [hstart]
  refine wp_bind (wp_mono ?_ (Serves.wp_readMsg hD.toServes hmst (fun _ _ _ => trivial) ht2))
  rintro words t3 ⟨rfl, ht3, -⟩
  refine wp_mono ?_ (ht3.wp_dequeue hD hF hput hunread)
  rintro r t ⟨rfl, Y, hperm, ht⟩
  refine ⟨Y.map Quad.w0 ++ K, ⟨?_, ?_⟩, ht⟩
  · rw [hK, List.find?_eq_some_iff_append]
    refine ⟨by simpa using hm, A.map Quad.w0, B.map Quad.w0 ++ K, by simp, ?_⟩
    intro c hc
    obtain ⟨a, ha, rfl⟩ := List.mem_map.mp hc
    simpa using hA a ha
  · rw [hK]
    exact (hperm.map Quad.w0).append_right K

end Answers

end Rules

end S9p.Acpm
