/-
# The stamps on the items of a ring

The firmware of the WiFi chip checks each item that the host puts into a ring: a sequence number
modulo 253, and a phase bit that flips on every lap.  The driver stamps an item when it is
published, by chasing the write pointer with a stamp pointer of its own.

The ring's own code (reserving items, cancelling reservations, filling items) is the environment
here; what is relied on is what stands in `step`.

* `stamps_iff`: each item published is stamped once and in order, and its number follows its
  predecessor's, exactly as long as the sequence number has not come round.
-/
import S9p.Lib.Ring
import Mathlib.Data.List.Basic
import Mathlib.Logic.Function.Basic

namespace S9p.Wifi

/-! ## 1. Stamping

The stamp pointer follows the write pointer, one slot at a time, and wraps where the ring ends.  The
flags byte keeps its other bits. -/

def BRCMF_H2D_EPOCH_MODULO : Nat := 253
def BRCMF_H2D_EPOCH_INIT : Nat := BRCMF_H2D_EPOCH_MODULO + 1
def BRCMF_H2D_PHASE_BIT : BitVec 8 := 0x80

/-- `struct brcmf_commonring`, as far as the stamping goes; `fPtr` is the write pointer of the last
`brcmf_commonring_write_complete`. -/
structure CommonRing where
  depth : Nat
  itemLen : Nat
  wPtr : Nat
  fPtr : Nat
  stampPtr : Nat
  phase : BitVec 8
  seqnum : BitVec 32
  buf : Nat → BitVec 8

/-- `brcmf_commonring_config`. -/
def config (depth itemLen : Nat) (buf : Nat → BitVec 8) : CommonRing where
  depth := depth
  itemLen := itemLen
  wPtr := 0
  fPtr := 0
  stampPtr := 0
  phase := 0
  seqnum := BitVec.ofNat 32 BRCMF_H2D_EPOCH_INIT
  buf := buf

/-- The body of the loop in `brcmf_commonring_stamp`. -/
def stampOne (r : CommonRing) : CommonRing :=
  let phase := if r.stampPtr = 0 then r.phase ^^^ BRCMF_H2D_PHASE_BIT else r.phase
  let item := r.stampPtr * r.itemLen
  let buf := Function.update r.buf (item + 2)
    (r.buf (item + 2) &&& ~~~BRCMF_H2D_PHASE_BIT ||| phase)
  let buf := Function.update buf (item + 3)
    (BitVec.ofNat 8 (r.seqnum.toNat % BRCMF_H2D_EPOCH_MODULO))
  { r with
    phase := phase
    buf := buf
    seqnum := r.seqnum + 1
    stampPtr := if r.stampPtr + 1 = r.depth then 0 else r.stampPtr + 1 }

/-- The loop, with the slots it has stamped. -/
def stampLoop : Nat → CommonRing → CommonRing × List Nat
  | 0, r => (r, [])
  | fuel + 1, r =>
    if r.stampPtr ≠ r.wPtr then
      let (r', slots) := stampLoop fuel (stampOne r)
      (r', r.stampPtr :: slots)
    else (r, [])

/-- `brcmf_commonring_stamp`. -/
def stamp (r : CommonRing) : CommonRing × List Nat := stampLoop r.depth r

/-! ## 2. The ring in use

Items are reserved first and published later, and a reservation can be cancelled.  The ring's own
code sees to it that one slot stays free. -/

/-- What is done to a ring; before an item is published its bytes may be written, here any byte. -/
inductive Move where
  | reserve (n : Nat)
  | cancel (n : Nat)
  | fill (addr : Nat) (b : BitVec 8)
  | writeComplete

/-- The items reserved since the last completion. -/
def CommonRing.pending (r : CommonRing) : Nat := Ring.len r.depth r.fPtr r.wPtr

/-- A completion: the ring before and after it, and what was stamped. -/
structure Completion where
  before : CommonRing
  after : CommonRing
  stamped : List Nat

/-- At most all slots but one are reserved at a time, and only reserved items are cancelled. -/
def step (r : CommonRing) : Move → Option (CommonRing × List Completion)
  | .reserve n =>
    if r.pending + n ≤ r.depth - 1 then some ({ r with wPtr := (r.wPtr + n) % r.depth }, [])
    else none
  | .cancel n =>
    if n ≤ r.pending then some ({ r with wPtr := (r.wPtr + r.depth - n) % r.depth }, [])
    else none
  | .fill addr b => some ({ r with buf := Function.update r.buf addr b }, [])
  | .writeComplete =>
    let (r', slots) := stamp r
    some ({ r' with fPtr := r'.wPtr }, [⟨r, r', slots⟩])

/-- A run, with its completions in order. -/
def run : CommonRing → List Move → Option (CommonRing × List Completion)
  | r, [] => some (r, [])
  | r, m :: ms => do
    let (r, now) ← step r m
    let (r, later) ← run r ms
    return (r, now ++ later)

/-- The items published and those reserved, counted. -/
def countMove (c : Nat × Nat) : Move → Nat × Nat
  | .reserve n => (c.1, c.2 + n)
  | .cancel n => (c.1, c.2 - n)
  | .fill .. => c
  | .writeComplete => (c.1 + c.2, 0)

/-- The number of items that some moves publish. -/
def published (moves : List Move) : Nat := (moves.foldl countMove (0, 0)).1

/-! ## 3. What is asked of the stamps

The firmware sees the published items only.  For it they are one sequence, and the ring is where
they lie. -/

/-- An item that is published, by its bytes. -/
structure Item where
  slot : Nat
  before : Nat → BitVec 8
  after : Nat → BitVec 8

def Item.epoch (item : Item) : Nat := (item.after 3).toNat
def Item.phase (item : Item) : Bool := (item.after 2).msb

/-- The items of a completion, in ring order. -/
def Completion.items (c : Completion) : List Item :=
  (List.range c.before.pending).map (fun i =>
    let slot := (c.before.fPtr + i) % c.before.depth
    ⟨slot, fun j => c.before.buf (slot * c.before.itemLen + j),
      fun j => c.after.buf (slot * c.before.itemLen + j)⟩)

/-- **What the firmware relies on**: the items that have been published are those that have been
stamped, in ring order; each has the epoch after its predecessor's, the phase flips at the ring
base, where the first item already finds it set, and nothing but these is written.  It is stated on
the completions alone, without a look at the ring's pointers. -/
structure StampsRight (depth itemLen : Nat) (cs : List Completion) : Prop where
  once : cs.flatMap Completion.stamped = (cs.flatMap Completion.items).map Item.slot
  order : ∀ n item, (cs.flatMap Completion.items)[n]? = some item → item.slot = n % depth
  first : ∀ item, (cs.flatMap Completion.items)[0]? = some item →
    item.epoch = 254 % 253 ∧ item.phase = true
  next : ∀ n a b, (cs.flatMap Completion.items)[n]? = some a →
    (cs.flatMap Completion.items)[n + 1]? = some b → b.epoch = (a.epoch + 1) % 253
  phase : ∀ n a b, (cs.flatMap Completion.items)[n]? = some a →
    (cs.flatMap Completion.items)[n + 1]? = some b →
      b.phase = if b.slot = 0 then !a.phase else a.phase
  flags : ∀ item ∈ cs.flatMap Completion.items, item.after 2 &&& 0x7f = item.before 2 &&& 0x7f
  elsewhere : ∀ c ∈ cs, ∀ addr, (∀ item ∈ c.items,
    addr ≠ item.slot * itemLen + 2 ∧ addr ≠ item.slot * itemLen + 3) →
      c.after.buf addr = c.before.buf addr

/-! ## 4. The loop

Both the epoch and the phase of an item depend on its number in that sequence, and on nothing else.
-/

section Loop

variable {r r' : CommonRing} {n p : Nat} {slots : List Nat}

/-- The phase after `n` items. -/
def phaseAt (depth : Nat) : Nat → BitVec 8
  | 0 => 0
  | n + 1 => if n % depth = 0 then phaseAt depth n ^^^ BRCMF_H2D_PHASE_BIT else phaseAt depth n

/-- The epoch of item `n`; the sequence number has 32 bits. -/
def epochAt (n : Nat) : Nat := (254 + n) % 2 ^ 32 % 253

/-- `n` items have been stamped, and `p` are waiting. -/
structure Ready (r : CommonRing) (n p : Nat) : Prop where
  room : p < r.depth
  wPtr : r.wPtr = (n + p) % r.depth
  stampPtr : r.stampPtr = n % r.depth
  phase : r.phase = phaseAt r.depth n
  seqnum : r.seqnum = BitVec.ofNat 32 (254 + n)

/-- Different items do not share a byte of their headers. -/
theorem addr_ne {a b len i j : Nat} (hlen : 4 ≤ len) (hi : i < 4) (hj : j < 4) (hab : a ≠ b) :
    a * len + i ≠ b * len + j := by
  intro h
  have ha : (a * len + i) / len = a := by
    rw [Nat.add_comm, Nat.add_mul_div_right _ _ (by omega), Nat.div_eq_of_lt (by omega),
      Nat.zero_add]
  have hb : (b * len + j) / len = b := by
    rw [Nat.add_comm, Nat.add_mul_div_right _ _ (by omega), Nat.div_eq_of_lt (by omega),
      Nat.zero_add]
  exact hab (ha.symm.trans ((congrArg (· / len) h).trans hb))

/-- **One item is stamped**: its flags and its epoch, nothing else. -/
theorem stampOne_buf (r : CommonRing) (addr : Nat) :
    (stampOne r).buf addr =
      if addr = r.stampPtr * r.itemLen + 3 then BitVec.ofNat 8 (r.seqnum.toNat % 253)
      else if addr = r.stampPtr * r.itemLen + 2 then
        r.buf addr &&& ~~~BRCMF_H2D_PHASE_BIT ||| (stampOne r).phase
      else r.buf addr := by
  simp only [stampOne, Function.update_apply]
  split
  · rfl
  · split
    · rename_i h
      rw [h]
    · rfl

theorem stampOne_ready (h : Ready r n (p + 1)) : Ready (stampOne r) (n + 1) p where
  room := Nat.lt_of_succ_lt h.room
  wPtr := h.wPtr.trans (by rw [Nat.add_right_comm, Nat.add_assoc]; rfl)
  stampPtr := by
    have hlt : n % r.depth < r.depth := Nat.mod_lt _ (by have := h.room; omega)
    have hsucc := (Ring.succ_eq hlt).symm
    simp only [stampOne, h.stampPtr]
    rw [hsucc, Ring.succ, Nat.mod_add_mod]
  phase := by
    simp only [stampOne, h.stampPtr, h.phase]
    rfl
  seqnum := by
    simp only [stampOne, h.seqnum]
    rw [← Nat.add_assoc, BitVec.ofNat_add (254 + n) 1]
    rfl

/-- What the loop has done when it ends, `p` items later. -/
structure Looped (r r' : CommonRing) (n p : Nat) (slots : List Nat) : Prop where
  ready : Ready r' (n + p) 0
  depth : r'.depth = r.depth
  itemLen : r'.itemLen = r.itemLen
  slots : slots = (List.range p).map (fun i => (n + i) % r.depth)
  epoch : ∀ i < p, r'.buf ((n + i) % r.depth * r.itemLen + 3) = BitVec.ofNat 8 (epochAt (n + i))
  flags : ∀ i < p, r'.buf ((n + i) % r.depth * r.itemLen + 2) =
    r.buf ((n + i) % r.depth * r.itemLen + 2) &&& ~~~BRCMF_H2D_PHASE_BIT |||
      phaseAt r.depth (n + i + 1)
  elsewhere : ∀ addr, (∀ i < p, addr ≠ (n + i) % r.depth * r.itemLen + 2 ∧
    addr ≠ (n + i) % r.depth * r.itemLen + 3) → r'.buf addr = r.buf addr

/-- The slots of the items that are waiting are different ones. -/
theorem slot_ne (h : Ready r n (p + 1)) {i : Nat} (hi : i < p) :
    (n + (i + 1)) % r.depth ≠ n % r.depth := by
  have hroom := h.room
  intro heq
  exact absurd (Ring.add_mod_inj (n := 0) (by omega) (by omega) heq) (Nat.succ_ne_zero i)

/-- **One item, then the rest of them.** -/
theorem Looped.cons (hlen : 4 ≤ r.itemLen) (h : Ready r n (p + 1))
    (hrest : Looped (stampOne r) r' (n + 1) p slots) :
    Looped r r' n (p + 1) (r.stampPtr :: slots) := by
  have hnext : ∀ i, n + 1 + i = n + (i + 1) := fun i => by omega
  have hphase : (stampOne r).phase = phaseAt r.depth (n + 1) := (stampOne_ready h).phase
  have hseq : r.seqnum.toNat % 253 = epochAt n := by
    rw [h.seqnum, BitVec.toNat_ofNat, epochAt]
  -- The rest leaves the header of this item.
  have hkept : ∀ j, j = 2 ∨ j = 3 →
      r'.buf (n % r.depth * r.itemLen + j) = (stampOne r).buf (n % r.depth * r.itemLen + j) := by
    intro j hj
    refine hrest.elsewhere _ (fun i hi => ?_)
    have hne : n % r.depth ≠ (n + 1 + i) % r.depth := by
      rw [hnext]
      exact (slot_ne h hi).symm
    exact ⟨addr_ne hlen (by omega) (by omega) hne, addr_ne hlen (by omega) (by omega) hne⟩
  refine
    { ready := by
        rw [← hnext]
        exact hrest.ready
      depth := hrest.depth
      itemLen := hrest.itemLen
      slots := ?_
      epoch := fun i hi => ?_
      flags := fun i hi => ?_
      elsewhere := fun addr haddr => ?_ }
  · rw [hrest.slots, List.range_succ_eq_map, List.map_cons, List.map_map, h.stampPtr]
    congr 1
    exact List.map_congr_left (fun i _ => congrArg (· % r.depth) (hnext i))
  · cases i with
    | zero =>
      rw [Nat.add_zero n, hkept 3 (.inr rfl), stampOne_buf, h.stampPtr, if_pos rfl, hseq]
    | succ i =>
      rw [← hnext]
      exact hrest.epoch i (by omega)
  · cases i with
    | zero =>
      rw [Nat.add_zero n, hkept 2 (.inl rfl), stampOne_buf, h.stampPtr, if_neg (by omega),
        if_pos rfl, hphase]
    | succ i =>
      have hsame : (stampOne r).buf ((n + (i + 1)) % r.depth * r.itemLen + 2) =
          r.buf ((n + (i + 1)) % r.depth * r.itemLen + 2) := by
        have hne := slot_ne h (i := i) (by omega)
        rw [stampOne_buf, h.stampPtr, if_neg (addr_ne hlen (by omega) (by omega) hne),
          if_neg (addr_ne hlen (by omega) (by omega) hne)]
      rw [← hsame, ← hnext]
      exact hrest.flags i (by omega)
  · have hfirst := haddr 0 (by omega)
    rw [Nat.add_zero n] at hfirst
    have hlater : r'.buf addr = (stampOne r).buf addr := by
      refine hrest.elsewhere addr (fun i hi => ?_)
      rw [hnext]
      exact haddr (i + 1) (by omega)
    rw [hlater, stampOne_buf, h.stampPtr, if_neg hfirst.2, if_neg hfirst.1]

/-- **The loop catches up with the write pointer**, one item after the other. -/
theorem stampLoop_spec {fuel : Nat} (hlen : 4 ≤ r.itemLen) (h : Ready r n p) (hfuel : p ≤ fuel) :
    Looped r (stampLoop fuel r).1 n p (stampLoop fuel r).2 := by
  induction p generalizing r n fuel with
  | zero =>
    have hstop : stampLoop fuel r = (r, []) := by
      cases fuel with
      | zero => rfl
      | succ fuel => rw [stampLoop, if_neg (by rw [h.stampPtr, h.wPtr]; simp)]
    rw [hstop]
    exact
      { ready := h
        depth := rfl
        itemLen := rfl
        slots := rfl
        epoch := fun i hi => absurd hi (Nat.not_lt_zero i)
        flags := fun i hi => absurd hi (Nat.not_lt_zero i)
        elsewhere := fun addr _ => rfl }
  | succ p ih =>
    cases fuel with
    | zero => exact absurd hfuel (Nat.not_succ_le_zero p)
    | succ fuel =>
      have hroom := h.room
      have hne : r.stampPtr ≠ r.wPtr := by
        rw [h.stampPtr, h.wPtr]
        intro heq
        exact absurd (Ring.add_mod_inj (m := 0) (by omega) hroom heq) (by omega)
      have hgo : stampLoop (fuel + 1) r =
          ((stampLoop fuel (stampOne r)).1, r.stampPtr :: (stampLoop fuel (stampOne r)).2) := by
        rw [stampLoop, if_pos hne]
      rw [hgo]
      exact .cons hlen h (ih (r := stampOne r) hlen (stampOne_ready h) (by omega))

end Loop

/-! ## 5. The run

The invariant ties the pointers to the number of items that have been published and to those that
are reserved. -/

section Run

variable {r r' : CommonRing} {n p depth itemLen : Nat} {m : Move} {moves : List Move}
  {cs : List Completion}

/-- `n` items have been published and `p` are reserved, in a ring of these dimensions.  It is the
invariant of a run. -/
structure At (depth itemLen : Nat) (r : CommonRing) (n p : Nat) : Prop where
  ready : Ready r n p
  fPtr : r.fPtr = n % depth
  depth : r.depth = depth
  itemLen : r.itemLen = itemLen

/-- What is said about item `n`. -/
structure ItemRight (depth : Nat) (n : Nat) (item : Item) : Prop where
  slot : item.slot = n % depth
  epoch : item.epoch = epochAt n
  phase : item.phase = (phaseAt depth (n + 1)).msb
  flags : item.after 2 &&& 0x7f = item.before 2 &&& 0x7f

/-- What some completions have done: `k` items, from item `n` on. -/
structure Published (depth itemLen n k : Nat) (cs : List Completion) : Prop where
  length : (cs.flatMap Completion.items).length = k
  once : cs.flatMap Completion.stamped = (cs.flatMap Completion.items).map Item.slot
  right : ∀ i item, (cs.flatMap Completion.items)[i]? = some item → ItemRight depth (n + i) item
  elsewhere : ∀ c ∈ cs, ∀ addr, (∀ item ∈ c.items,
    addr ≠ item.slot * itemLen + 2 ∧ addr ≠ item.slot * itemLen + 3) →
      c.after.buf addr = c.before.buf addr

theorem published_nil (depth itemLen n : Nat) : Published depth itemLen n 0 [] where
  length := rfl
  once := rfl
  right := fun i item hitem => absurd hitem (by simp)
  elsewhere := fun c hc => absurd hc (by simp)

theorem Published.append {k l : Nat} {cs cs' : List Completion}
    (h : Published depth itemLen n k cs) (h' : Published depth itemLen (n + k) l cs') :
    Published depth itemLen n (k + l) (cs ++ cs') where
  length := by rw [List.flatMap_append, List.length_append, h.length, h'.length]
  once := by rw [List.flatMap_append, List.flatMap_append, List.map_append, h.once, h'.once]
  right := by
    intro i item hitem
    rw [List.flatMap_append] at hitem
    rcases lt_or_ge i k with hi | hi
    · rw [List.getElem?_append_left (by rw [h.length]; exact hi)] at hitem
      exact h.right i item hitem
    · rw [List.getElem?_append_right (by rw [h.length]; exact hi), h.length] at hitem
      have hright := h'.right (i - k) item hitem
      rwa [show n + k + (i - k) = n + i by omega] at hright
  elsewhere := by
    intro c hc
    rcases List.mem_append.mp hc with hc | hc
    · exact h.elsewhere c hc
    · exact h'.elsewhere c hc

theorem phaseAt_eq (depth n : Nat) :
    phaseAt depth n = 0 ∨ phaseAt depth n = BRCMF_H2D_PHASE_BIT := by
  induction n with
  | zero => exact .inl rfl
  | succ n ih =>
    rw [phaseAt]
    split
    · rcases ih with h | h
      · rw [h]
        exact .inr (by decide)
      · rw [h]
        exact .inl (by decide)
    · exact ih

/-- It flips at the ring base. -/
theorem phaseAt_succ_msb (depth n : Nat) : (phaseAt depth (n + 1)).msb =
    if n % depth = 0 then !(phaseAt depth n).msb else (phaseAt depth n).msb := by
  rw [phaseAt]
  split
  · rw [BitVec.msb_xor, show BRCMF_H2D_PHASE_BIT.msb = true by decide, Bool.xor_true]
  · rfl

/-- The first item lands on the ring base. -/
theorem phaseAt_one_msb (depth : Nat) : (phaseAt depth (0 + 1)).msb = true := by
  rw [phaseAt_succ_msb, if_pos (Nat.zero_mod depth), phaseAt]
  decide

/-- The flags byte: the new phase, and the other bits as they were. -/
theorem flags_byte (b : BitVec 8) (depth n : Nat) :
    (b &&& ~~~BRCMF_H2D_PHASE_BIT ||| phaseAt depth n).msb = (phaseAt depth n).msb ∧
      (b &&& ~~~BRCMF_H2D_PHASE_BIT ||| phaseAt depth n) &&& 0x7f = b &&& 0x7f := by
  have hmask : ~~~BRCMF_H2D_PHASE_BIT = 0x7f := by decide
  have hmsb : (b &&& 0x7f).msb = false := by
    rw [BitVec.msb_and, show (0x7f : BitVec 8).msb = false by decide, Bool.and_false]
  have hrest : phaseAt depth n &&& 0x7f = 0 := by
    rcases phaseAt_eq depth n with h | h <;> rw [h] <;> decide
  rw [hmask]
  constructor
  · rw [BitVec.msb_or, hmsb, Bool.false_or]
  · rw [BitVec.and_or_distrib_right, hrest, BitVec.and_assoc, BitVec.and_self]
    exact BitVec.or_zero

theorem pending_of_at (h : At depth itemLen r n p) : r.pending = p := by
  have hroom := h.ready.room
  have hpos : 0 < r.depth := by omega
  have hfptr : r.fPtr = n % r.depth := h.depth ▸ h.fPtr
  have hwalk : (n + r.pending) % r.depth = (n + p) % r.depth := by
    rw [← Nat.mod_add_mod, CommonRing.pending, hfptr, Ring.add_len_mod (Nat.mod_lt _ hpos)
      (h.ready.wPtr ▸ Nat.mod_lt _ hpos), h.ready.wPtr]
  exact Ring.add_mod_inj (Ring.len_lt hpos) hroom hwalk

theorem items_of_at (h : At depth itemLen r n p) (slots : List Nat) :
    (⟨r, r', slots⟩ : Completion).items = (List.range p).map (fun i =>
      ⟨(n + i) % depth, fun j => r.buf ((n + i) % depth * itemLen + j),
        fun j => r'.buf ((n + i) % depth * itemLen + j)⟩) := by
  simp only [Completion.items, pending_of_at h, h.fPtr, h.depth, h.itemLen, Nat.mod_add_mod]

/-- **A completion publishes what is reserved**, stamped. -/
theorem writeComplete_spec (hlen : 4 ≤ itemLen) (h : At depth itemLen r n p) :
    At depth itemLen { (stamp r).1 with fPtr := (stamp r).1.wPtr } (n + p) 0 ∧
      Published depth itemLen n p [⟨r, (stamp r).1, (stamp r).2⟩] := by
  have hloop : Looped r (stamp r).1 n p (stamp r).2 :=
    stampLoop_spec (h.itemLen ▸ hlen) h.ready h.ready.room.le
  have hdepth := h.depth
  have hitemLen := h.itemLen
  have hitems := @items_of_at r (stamp r).1 n p depth itemLen h (stamp r).2
  constructor
  · exact
      { ready := { hloop.ready with }
        fPtr := hloop.ready.wPtr.trans (by rw [hloop.depth, hdepth, Nat.add_zero])
        depth := hloop.depth.trans hdepth
        itemLen := hloop.itemLen.trans hitemLen }
  · refine
      { length := by rw [List.flatMap_singleton, hitems, List.length_map, List.length_range]
        once := ?_
        right := fun i item hitem => ?_
        elsewhere := fun c hc addr haddr => ?_ }
    · rw [List.flatMap_singleton, List.flatMap_singleton, hitems, List.map_map]
      exact hloop.slots.trans (by rw [hdepth]; rfl)
    · rw [List.flatMap_singleton, hitems, List.getElem?_map, Option.map_eq_some_iff] at hitem
      obtain ⟨i', hi', rfl⟩ := hitem
      obtain ⟨hi, rfl⟩ := List.getElem?_eq_some_iff.mp hi'
      rw [List.length_range] at hi
      rw [List.getElem_range]
      have hepoch := hloop.epoch i hi
      have hflags := hloop.flags i hi
      rw [hdepth, hitemLen] at hepoch hflags
      refine ⟨rfl, ?_, ?_, ?_⟩
      · simp only [Item.epoch, hepoch, BitVec.toNat_ofNat]
        exact Nat.mod_eq_of_lt ((Nat.mod_lt _ (by decide)).trans (by decide))
      · simp only [Item.phase, hflags]
        exact (flags_byte _ depth (n + i + 1)).1
      · simp only
        rw [hflags]
        exact (flags_byte _ depth (n + i + 1)).2
    · obtain rfl := List.mem_singleton.mp hc
      refine hloop.elsewhere addr (fun i hi => ?_)
      rw [hitems] at haddr
      rw [hdepth, hitemLen]
      exact haddr _ (List.mem_map.mpr ⟨i, List.mem_range.mpr hi, rfl⟩)

/-- **One move.** -/
theorem step_spec (hlen : 4 ≤ itemLen) (h : At depth itemLen r n p)
    (hstep : step r m = some (r', cs)) :
    At depth itemLen r' (countMove (n, p) m).1 (countMove (n, p) m).2 ∧
      ∃ k, n + k = (countMove (n, p) m).1 ∧ Published depth itemLen n k cs := by
  have hpending := pending_of_at h
  have hroom := h.ready.room
  cases m with
  | reserve k =>
    simp only [step, hpending] at hstep
    split at hstep
    · obtain ⟨rfl, rfl⟩ := Prod.mk.inj (Option.some.inj hstep)
      refine ⟨{ h with ready := { h.ready with room := ?_, wPtr := ?_ } }, 0, rfl,
        published_nil depth itemLen n⟩
      · simp only [countMove]
        omega
      · simp only [h.ready.wPtr, Nat.mod_add_mod, Nat.add_assoc, countMove]
    · exact absurd hstep (by simp)
  | cancel k =>
    simp only [step, hpending] at hstep
    split at hstep
    · obtain ⟨rfl, rfl⟩ := Prod.mk.inj (Option.some.inj hstep)
      refine ⟨{ h with ready := { h.ready with room := ?_, wPtr := ?_ } }, 0, rfl,
        published_nil depth itemLen n⟩
      · simp only [countMove]
        omega
      · simp only [h.ready.wPtr, countMove]
        rw [Nat.add_sub_assoc (by omega), Nat.mod_add_mod,
          show n + p + (r.depth - k) = n + (p - k) + r.depth by omega, Nat.add_mod_right]
    · exact absurd hstep (by simp)
  | fill addr b =>
    obtain ⟨rfl, rfl⟩ := Prod.mk.inj (Option.some.inj hstep)
    exact ⟨{ h with ready := { h.ready with } }, 0, rfl, published_nil depth itemLen n⟩
  | writeComplete =>
    obtain ⟨rfl, rfl⟩ := Prod.mk.inj (Option.some.inj hstep)
    obtain ⟨hat, hpub⟩ := writeComplete_spec hlen h
    exact ⟨hat, p, rfl, hpub⟩

/-- **All of them.** -/
theorem run_spec (hlen : 4 ≤ itemLen) (h : At depth itemLen r n p)
    (hrun : run r moves = some (r', cs)) :
    ∃ k, n + k = (moves.foldl countMove (n, p)).1 ∧ Published depth itemLen n k cs := by
  induction moves generalizing r n p cs with
  | nil =>
    obtain ⟨-, rfl⟩ := Prod.mk.inj (Option.some.inj hrun)
    exact ⟨0, rfl, published_nil depth itemLen n⟩
  | cons m moves ih =>
    simp only [run, Option.bind_eq_bind, Option.bind_eq_some_iff, Option.pure_def,
      Option.some.injEq, Prod.mk.injEq, Prod.exists] at hrun
    obtain ⟨r₁, now, hstep, r₂, later, hlater, rfl, rfl⟩ := hrun
    obtain ⟨hat, k, hk, hnow⟩ := step_spec hlen h hstep
    obtain ⟨l, hl, hlater⟩ := ih hat hlater
    rw [← hk] at hlater
    refine ⟨k + l, ?_, hnow.append hlater⟩
    rw [← Nat.add_assoc, hk, hl, List.foldl_cons]

theorem at_config {buf : Nat → BitVec 8} (hdepth : 2 ≤ depth) :
    At depth itemLen (config depth itemLen buf) 0 0 where
  ready :=
    { room := Nat.lt_of_lt_of_le Nat.zero_lt_two hdepth
      wPtr := (Nat.zero_mod _).symm
      stampPtr := (Nat.zero_mod _).symm
      phase := rfl
      seqnum := rfl }
  fPtr := (Nat.zero_mod _).symm
  depth := rfl
  itemLen := rfl

/-- The epochs follow each other as long as the sequence number does not come round. -/
theorem epochAt_succ (h : 254 + (n + 1) < 2 ^ 32) : epochAt (n + 1) = (epochAt n + 1) % 253 := by
  have hn : 254 + n < 2 ^ 32 := by omega
  rw [epochAt, epochAt, Nat.mod_eq_of_lt h, Nat.mod_eq_of_lt hn, Nat.mod_add_mod, Nat.add_assoc]

/-- Every item published by a run is right, whatever the epochs are. -/
theorem run_items {buf : Nat → BitVec 8} (hdepth : 2 ≤ depth) (hlen : 4 ≤ itemLen)
    (hrun : run (config depth itemLen buf) moves = some (r, cs)) :
    Published depth itemLen 0 (published moves) cs ∧
      ∀ i item, (cs.flatMap Completion.items)[i]? = some item → ItemRight depth i item := by
  obtain ⟨k, hk, hpub⟩ := run_spec hlen (at_config hdepth) hrun
  rw [Nat.zero_add] at hk
  rw [published, ← hk]
  refine ⟨hpub, fun i item hitem => ?_⟩
  have hright := hpub.right i item hitem
  rwa [Nat.zero_add] at hright

/-- **Where it comes round**, epoch 80 is followed by epoch 0. -/
theorem not_right_of_many {buf : Nat → BitVec 8} (hdepth : 2 ≤ depth) (hlen : 4 ≤ itemLen)
    (hrun : run (config depth itemLen buf) moves = some (r, cs))
    (hmany : 2 ^ 32 - 254 < published moves) : ¬ StampsRight depth itemLen cs := by
  obtain ⟨hpub, hright⟩ := run_items hdepth hlen hrun
  intro h
  have hlast : 2 ^ 32 - 254 < (cs.flatMap Completion.items).length := by rwa [hpub.length]
  have ha := List.getElem?_eq_getElem (l := cs.flatMap Completion.items) (i := 2 ^ 32 - 255)
    (by omega)
  have hb := List.getElem?_eq_getElem (l := cs.flatMap Completion.items) (i := 2 ^ 32 - 254) hlast
  have hnext := h.next (2 ^ 32 - 255) _ _ ha hb
  rw [(hright _ _ ha).epoch, (hright _ _ hb).epoch] at hnext
  exact absurd hnext (by decide)

/-- **Until then they are right.** -/
theorem right_of_few {buf : Nat → BitVec 8} (hdepth : 2 ≤ depth) (hlen : 4 ≤ itemLen)
    (hrun : run (config depth itemLen buf) moves = some (r, cs))
    (hfew : published moves ≤ 2 ^ 32 - 254) : StampsRight depth itemLen cs := by
  obtain ⟨hpub, hright⟩ := run_items hdepth hlen hrun
  have hlt : ∀ i item, (cs.flatMap Completion.items)[i]? = some item → i < 2 ^ 32 - 254 := by
    intro i item hitem
    have hi := (List.getElem?_eq_some_iff.mp hitem).1
    rw [hpub.length] at hi
    exact hi.trans_le hfew
  refine
    { once := hpub.once
      order := fun i item hitem => (hright i item hitem).slot
      first := fun item hitem => ⟨(hright 0 item hitem).epoch, ?_⟩
      next := fun i a b ha hb => ?_
      phase := fun i a b ha hb => ?_
      flags := fun item hitem => ?_
      elsewhere := hpub.elsewhere }
  · rw [(hright 0 item hitem).phase]
    exact phaseAt_one_msb depth
  · have hi := hlt _ _ hb
    rw [(hright i a ha).epoch, (hright (i + 1) b hb).epoch]
    exact epochAt_succ (by omega)
  · have hslot := (hright (i + 1) b hb).slot
    rw [(hright i a ha).phase, (hright (i + 1) b hb).phase, hslot]
    exact phaseAt_succ_msb depth (i + 1)
  · obtain ⟨i, hi⟩ := List.mem_iff_getElem?.mp hitem
    exact (hright i item hi).flags

/-- **The stamps are right exactly until the sequence number comes round.** -/
theorem stamps_iff {buf : Nat → BitVec 8} (hdepth : 2 ≤ depth) (hlen : 4 ≤ itemLen)
    (hrun : run (config depth itemLen buf) moves = some (r, cs)) :
    StampsRight depth itemLen cs ↔ published moves ≤ 2 ^ 32 - 254 := by
  constructor
  · intro h
    by_contra hmany
    exact not_right_of_many hdepth hlen hrun (not_le.mp hmany) h
  · exact right_of_few hdepth hlen hrun

/-- Three items in a ring of two slots, and a reservation that is cancelled. -/
theorem stamps_iff_lap : ∃ r cs,
    run (config 2 4 (fun _ => 0)) [.reserve 1, .fill 0 0xff, .writeComplete, .reserve 1, .cancel 1,
      .reserve 1, .writeComplete, .reserve 1, .writeComplete] = some (r, cs) ∧
      (StampsRight 2 4 cs ↔ published [.reserve 1, .fill 0 0xff, .writeComplete, .reserve 1,
        .cancel 1, .reserve 1, .writeComplete, .reserve 1, .writeComplete] ≤ 2 ^ 32 - 254) := by
  have hsome : (run (config 2 4 (fun _ => 0)) [.reserve 1, .fill 0 0xff, .writeComplete, .reserve 1,
    .cancel 1, .reserve 1, .writeComplete, .reserve 1, .writeComplete]).isSome = true := rfl
  obtain ⟨⟨r, cs⟩, hrun⟩ := Option.isSome_iff_exists.mp hsome
  exact ⟨r, cs, hrun, stamps_iff (by decide) (by decide) hrun⟩

/-! ## 6. A ring that is used for a long time

The sequence number has 32 bits and begins at 254.  Where it comes round it is 0, in the middle of a
round of 253. -/

/-- One item after the other, each published at once. -/
def oneByOne : Nat → List Move
  | 0 => []
  | k + 1 => .reserve 1 :: .writeComplete :: oneByOne k

theorem run_cons {r₁ r₂ : CommonRing} {now later : List Completion}
    (hstep : step r m = some (r₁, now)) (hlater : run r₁ moves = some (r₂, later)) :
    run r (m :: moves) = some (r₂, now ++ later) := by
  rw [run, hstep]
  simp only [Option.bind_eq_bind, Option.bind_some, hlater, Option.pure_def]

theorem run_oneByOne (hdepth : 2 ≤ depth) (hlen : 4 ≤ itemLen) (k : Nat)
    (h : At depth itemLen r n 0) : ∃ r' cs, run r (oneByOne k) = some (r', cs) := by
  induction k generalizing r n with
  | zero => exact ⟨r, [], rfl⟩
  | succ k ih =>
    have hpending := pending_of_at h
    have hreserve : step r (.reserve 1) = some ({ r with wPtr := (r.wPtr + 1) % r.depth }, []) := by
      rw [step, if_pos (by rw [hpending, h.depth]; omega)]
    have hat := (step_spec hlen h hreserve).1
    obtain ⟨r', cs, hrest⟩ := ih (writeComplete_spec hlen hat).1
    exact ⟨r', _, run_cons hreserve (run_cons rfl hrest)⟩

theorem published_oneByOne (k n : Nat) :
    ((oneByOne k).foldl countMove (n, 0)).1 = n + k := by
  induction k generalizing n with
  | zero => rfl
  | succ k ih =>
    rw [oneByOne, List.foldl_cons, List.foldl_cons, countMove, countMove, Nat.zero_add, ih]
    omega

/-- The sequence number comes round, and the epoch with it. -/
theorem epoch_comes_round : ∃ r cs,
    run (config 64 40 (fun _ => 0)) (oneByOne (2 ^ 32 - 253)) = some (r, cs) ∧
      ¬ StampsRight 64 40 cs := by
  have hat : At 64 40 (config 64 40 (fun _ => 0)) 0 0 := at_config (by decide)
  obtain ⟨r, cs, hrun⟩ := run_oneByOne (by decide) (by decide) (2 ^ 32 - 253) hat
  refine ⟨r, cs, hrun, not_right_of_many (by decide) (by decide) hrun ?_⟩
  rw [published, published_oneByOne]
  decide

end Run

end S9p.Wifi
