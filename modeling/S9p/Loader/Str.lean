/-
# The loader's memory functions

`string.c` and `string.h` of the bootloader: a `memset` that fills eight bytes at a time, a
`memmove` that chooses its direction, and a `memcpy` that moves eight bytes at a time where both
ends are aligned.

* `optimized_memcpy_eq`: the blocks make no difference, `__optimized_memcpy` copies byte by byte
  and upwards; so it agrees with `__optimized_memmove`, which is right for any overlap, unless the
  destination begins inside the source (`optimized_memcpy_iff`).
* `memset_iff`: `memset` has no loop for what is left behind its last block of eight bytes, and
  fills all it is asked to exactly if nothing is; otherwise it stops at the last aligned address.
-/
import S9p.Lib.Memory

namespace S9p.Loader

open Bytes Memory

/-! ## 1. The functions

The functions are written with pointers that move on.  Here each loop returns where its pointers are
when it ends, next to the memory. -/

/-- `sizeof(long)`. -/
def LBLOCKSIZE : Nat := 8

/-- `UNALIGNED`. -/
def Unaligned (a : Nat) : Prop := a % LBLOCKSIZE ≠ 0

instance (a : Nat) : Decidable (Unaligned a) := inferInstanceAs (Decidable (_ ≠ _))

def BIGBLOCKSIZE : Nat := LBLOCKSIZE * 4

/-- `__optimized_memmove`. -/
def optimizedMemmove (m : Mem) (d s n : Nat) : Mem :=
  if d = s then m
  else if d < s then copyUp d s n 0 m
  else copyDown d s n m

/-- `*aligned_dst++ = *aligned_src++`. -/
def moveLong (m : Mem) (d s : Nat) : Mem := store m d (load m s LBLOCKSIZE)

/-- Four long words at a time; what is left is copied by the loops behind it. -/
def bigBlocks (d s n : Nat) (m : Mem) : Nat × Nat × Nat × Mem :=
  if BIGBLOCKSIZE ≤ n then
    let m := moveLong m d s
    let m := moveLong m (d + LBLOCKSIZE) (s + LBLOCKSIZE)
    let m := moveLong m (d + 2 * LBLOCKSIZE) (s + 2 * LBLOCKSIZE)
    let m := moveLong m (d + 3 * LBLOCKSIZE) (s + 3 * LBLOCKSIZE)
    bigBlocks (d + BIGBLOCKSIZE) (s + BIGBLOCKSIZE) (n - BIGBLOCKSIZE) m
  else (d, s, n, m)
termination_by n
decreasing_by unfold BIGBLOCKSIZE LBLOCKSIZE at *; omega

/-- One long word at a time. -/
def longs (d s n : Nat) (m : Mem) : Nat × Nat × Nat × Mem :=
  if LBLOCKSIZE ≤ n then
    longs (d + LBLOCKSIZE) (s + LBLOCKSIZE) (n - LBLOCKSIZE) (moveLong m d s)
  else (d, s, n, m)
termination_by n
decreasing_by unfold LBLOCKSIZE at *; omega

/-- `__optimized_memcpy`. -/
def optimizedMemcpy (m : Mem) (d s n : Nat) : Mem :=
  if ¬ n < BIGBLOCKSIZE ∧ ¬ (Unaligned s ∨ Unaligned d) then
    let (d, s, n, m) := bigBlocks d s n m
    let (d, s, n, m) := longs d s n m
    copyUp d s n 0 m
  else copyUp d s n 0 m

/-- The byte of `c`. -/
def byteOf (c : BitVec 32) : UInt8 := UInt8.ofNat c.toNat

/-- The `for` loop of `memset`, from shift `i` on. -/
def spread (buffer : BitVec 64) (i : Nat) : BitVec 64 :=
  if 0 < i ∧ i < LBLOCKSIZE * 8 then spread (buffer <<< i ||| buffer) (i * 2) else buffer
termination_by LBLOCKSIZE * 8 - i
decreasing_by omega

/-- `buffer`: the byte in each of its places. -/
def bufferOf (c : BitVec 32) : BitVec 64 :=
  let d := c &&& 0xff#32
  let buffer := (d <<< 8 ||| d).zeroExtend 64
  spread (buffer ||| buffer <<< 16) 32

/-- Bytes up to an aligned address; `none` if there are not so many. -/
def head (b : UInt8) : Nat → Nat → Mem → Option (Nat × Nat) × Mem
  | a, n, m =>
    if Unaligned a then
      match n with
      | 0 => (none, m)
      | n + 1 => head b (a + 1) n (store m a [b])
    else (some (a, n), m)

/-- `*aligned_addr++ = buffer`. -/
def putLong (m : Mem) (a : Nat) (buffer : BitVec 64) : Mem :=
  store m a (leBytes LBLOCKSIZE buffer.toNat)

/-- Four times `buffer` at a time. -/
def bigFills (buffer : BitVec 64) (a n : Nat) (m : Mem) : Nat × Nat × Mem :=
  if LBLOCKSIZE * 4 ≤ n then
    let m := putLong m a buffer
    let m := putLong m (a + LBLOCKSIZE) buffer
    let m := putLong m (a + 2 * LBLOCKSIZE) buffer
    let m := putLong m (a + 3 * LBLOCKSIZE) buffer
    bigFills buffer (a + 4 * LBLOCKSIZE) (n - 4 * LBLOCKSIZE) m
  else (a, n, m)
termination_by n
decreasing_by unfold LBLOCKSIZE at *; omega

/-- `buffer` at a time. -/
def fills (buffer : BitVec 64) (a n : Nat) (m : Mem) : Nat × Nat × Mem :=
  if LBLOCKSIZE ≤ n then fills buffer (a + LBLOCKSIZE) (n - LBLOCKSIZE) (putLong m a buffer)
  else (a, n, m)
termination_by n
decreasing_by unfold LBLOCKSIZE at *; omega

/-- `memset`.  Behind the last block there is a comment, and no loop. -/
def memset (m : Mem) (a : Nat) (c : BitVec 32) (n : Nat) : Mem :=
  match head (byteOf c) a n m with
  | (none, m) => m
  | (some (a, n), m) =>
    if n < LBLOCKSIZE then m
    else
      let (a, n, m) := bigFills (bufferOf c) a n m
      (fills (bufferOf c) a n m).2.2

variable {m : Mem} {a d s n : Nat} {c : BitVec 32}

/-! ## 2. Copies

A copy in blocks is compared with the loop that goes byte by byte, and that one with what a copy is
to achieve. -/

/-- `__optimized_memmove` is right whatever the overlap. -/
theorem optimizedMemmove_eq : optimizedMemmove m d s n = copied m d s n := by
  unfold optimizedMemmove
  split
  · rename_i h
    rw [h, copied_self]
  · split
    · exact copyUp_eq (by omega)
    · exact copyDown_eq (by omega)

/-- Between aligned addresses a long word is moved as its bytes are. -/
theorem moveLong_eq (hd : ¬ Unaligned d) (hs : ¬ Unaligned s) :
    moveLong m d s = copyUp d s LBLOCKSIZE 0 m := by
  rw [moveLong, store_load, copyUp_eq]
  unfold Unaligned LBLOCKSIZE at *
  omega

theorem aligned_add {k : Nat} (h : ¬ Unaligned a) : ¬ Unaligned (a + k * LBLOCKSIZE) := by
  unfold Unaligned LBLOCKSIZE at *
  omega

/-- The next long word. -/
theorem moveLong_next {k : Nat} (hd : ¬ Unaligned d) (hs : ¬ Unaligned s) :
    moveLong (copyUp d s (k * LBLOCKSIZE) 0 m) (d + k * LBLOCKSIZE) (s + k * LBLOCKSIZE) =
      copyUp d s ((k + 1) * LBLOCKSIZE) 0 m := by
  rw [moveLong_eq (aligned_add hd) (aligned_add hs), copyUp_append, Nat.succ_mul]

/-- Where a loop of `__optimized_memcpy` has got to: `k` bytes of the `n` are copied. -/
def Upto (m : Mem) (d s n : Nat) (r : Nat × Nat × Nat × Mem) : Prop :=
  ∃ k, k ≤ n ∧ ¬ Unaligned (d + k) ∧ ¬ Unaligned (s + k) ∧
    r = (d + k, s + k, n - k, copyUp d s k 0 m)

theorem Upto.step {j : Nat} {r : Nat × Nat × Nat × Mem} (hj : j ≤ n)
    (h : Upto (copyUp d s j 0 m) (d + j) (s + j) (n - j) r) : Upto m d s n r := by
  obtain ⟨k, hk, hd, hs, rfl⟩ := h
  refine ⟨j + k, by omega, by rwa [← Nat.add_assoc], by rwa [← Nat.add_assoc], ?_⟩
  rw [copyUp_append, Nat.add_assoc, Nat.add_assoc, Nat.sub_sub]

theorem bigBlocks_upto (hd : ¬ Unaligned d) (hs : ¬ Unaligned s) :
    Upto m d s n (bigBlocks d s n m) := by
  induction n using Nat.strong_induction_on generalizing d s m with
  | h n ih =>
    rw [bigBlocks]
    split
    · rename_i hn
      have hzero : moveLong m d s = copyUp d s (1 * LBLOCKSIZE) 0 m := by
        rw [moveLong_eq hd hs, Nat.one_mul]
      have hone := moveLong_next (m := m) (k := 1) hd hs
      rw [Nat.one_mul] at hone
      simp only [hzero, Nat.one_mul, hone, moveLong_next hd hs]
      have hpos : 0 < BIGBLOCKSIZE := by decide
      refine Upto.step (j := BIGBLOCKSIZE) hn ?_
      exact ih (n - BIGBLOCKSIZE) (by omega) (aligned_add (k := 4) hd) (aligned_add (k := 4) hs)
    · exact ⟨0, Nat.zero_le _, hd, hs, rfl⟩

theorem longs_upto (hd : ¬ Unaligned d) (hs : ¬ Unaligned s) : Upto m d s n (longs d s n m) := by
  induction n using Nat.strong_induction_on generalizing d s m with
  | h n ih =>
    rw [longs]
    split
    · rename_i hn
      rw [moveLong_eq hd hs]
      have hpos : 0 < LBLOCKSIZE := by decide
      refine Upto.step (j := LBLOCKSIZE) hn ?_
      have hnext := aligned_add (k := 1) hd
      have hnext' := aligned_add (k := 1) hs
      rw [Nat.one_mul] at hnext hnext'
      exact ih (n - LBLOCKSIZE) (by omega) hnext hnext'
    · exact ⟨0, Nat.zero_le _, hd, hs, rfl⟩

/-- **The blocks make no difference**: `__optimized_memcpy` is the loop that goes up. -/
theorem optimizedMemcpy_eq : optimizedMemcpy m d s n = copyUp d s n 0 m := by
  unfold optimizedMemcpy
  split
  · rename_i h
    obtain ⟨hs, hd⟩ := not_or.mp h.2
    obtain ⟨k, hk, hdk, hsk, hbig⟩ := bigBlocks_upto (m := m) (n := n) hd hs
    obtain ⟨j, hj, -, -, hlongs⟩ :=
      longs_upto (m := copyUp d s k 0 m) (n := n - k) hdk hsk
    simp only [hbig, hlongs]
    rw [copyUp_append, copyUp_append, show k + (j + (n - k - j)) = n by omega]
  · rfl

/-- `__optimized_memcpy` and `__optimized_memmove` agree exactly where the destination does not
begin inside the source, and there both are right; where it does, the bytes in front of the
destination are repeated. -/
theorem optimizedMemcpy_iff :
    ((∀ m, optimizedMemcpy m d s n = optimizedMemmove m d s n) ↔ d ≤ s ∨ s + n ≤ d) ∧
    (s < d → ∀ k, k < n → optimizedMemcpy m d s n (d + k) = m (s + k % (d - s))) := by
  constructor
  · simp only [optimizedMemcpy_eq, optimizedMemmove_eq]
    exact copyUp_iff
  · intro h k hk
    rw [optimizedMemcpy_eq, copyUp_periodic h hk]

/-! ## 3. `memset`

The first loop goes to an aligned address, and the next two fill whole words.  What is left over
then has no loop. -/

theorem spread_eq (x : BitVec 64) : spread x 32 = x <<< 32 ||| x := by
  rw [spread, if_pos (by decide), spread, if_neg (by decide)]

/-- The word has the byte in all of its places. -/
theorem leBytes_bufferOf :
    leBytes LBLOCKSIZE (bufferOf c).toNat = List.replicate LBLOCKSIZE (byteOf c) := by
  have hall : ∀ x : Fin 256, leBytes LBLOCKSIZE
      (((BitVec.ofNat 32 x <<< 8 ||| BitVec.ofNat 32 x).zeroExtend 64 |||
        (BitVec.ofNat 32 x <<< 8 ||| BitVec.ofNat 32 x).zeroExtend 64 <<< 16) <<< 32 |||
        ((BitVec.ofNat 32 x <<< 8 ||| BitVec.ofNat 32 x).zeroExtend 64 |||
          (BitVec.ofNat 32 x <<< 8 ||| BitVec.ofNat 32 x).zeroExtend 64 <<< 16)).toNat =
      List.replicate LBLOCKSIZE (UInt8.ofNat x) := by decide +kernel
  have hlow : c &&& 0xff#32 = BitVec.ofNat 32 (c.toNat % 256) := by
    apply BitVec.eq_of_toNat_eq
    rw [BitVec.toNat_and, BitVec.toNat_ofNat, BitVec.toNat_ofNat]
    have hmask := Nat.and_two_pow_sub_one_eq_mod c.toNat 8
    simp only [Nat.reducePow, Nat.reduceMod, Nat.reduceSub] at hmask ⊢
    omega
  have hbyte : byteOf c = UInt8.ofNat (c.toNat % 256) := by
    apply UInt8.toNat_inj.mp
    simp [byteOf]
  simp only [bufferOf, spread_eq, hlow]
  rw [hbyte]
  exact hall ⟨c.toNat % 256, Nat.mod_lt _ (by decide)⟩

theorem putLong_eq : putLong m a (bufferOf c) = filled m a LBLOCKSIZE (byteOf c) := by
  rw [putLong, leBytes_bufferOf, store_replicate]

/-- Four long words at a time or one, all of them are filled. -/
theorem fills_eq : fills (bufferOf c) a n m =
    (a + n / LBLOCKSIZE * LBLOCKSIZE, n % LBLOCKSIZE,
      filled m a (n / LBLOCKSIZE * LBLOCKSIZE) (byteOf c)) := by
  induction n using Nat.strong_induction_on generalizing a m with
  | h n ih =>
    rw [fills]
    split
    · rename_i hn
      have hpos : 0 < LBLOCKSIZE := by decide
      obtain ⟨j, rfl⟩ := Nat.exists_eq_add_of_le hn
      rw [Nat.add_sub_cancel_left, ih j (by omega), putLong_eq, filled_filled,
        Nat.add_div_left j hpos, Nat.add_mod_left, Nat.succ_mul]
      simp only [Prod.mk.injEq, true_and]
      exact ⟨by omega, by rw [Nat.add_comm]⟩
    · rename_i hn
      have hlt := not_le.mp hn
      rw [Nat.div_eq_of_lt hlt, Nat.mod_eq_of_lt hlt, Nat.zero_mul, filled_zero, Nat.add_zero]

theorem bigFills_upto : ∃ k, k * LBLOCKSIZE ≤ n ∧ bigFills (bufferOf c) a n m =
    (a + k * LBLOCKSIZE, n - k * LBLOCKSIZE, filled m a (k * LBLOCKSIZE) (byteOf c)) := by
  induction n using Nat.strong_induction_on generalizing a m with
  | h n ih =>
    rw [bigFills]
    split
    · rename_i hn
      obtain ⟨k, hk, hrest⟩ := @ih (n - 4 * LBLOCKSIZE) (by unfold LBLOCKSIZE at *; omega)
        (filled m a (4 * LBLOCKSIZE) (byteOf c)) (a + 4 * LBLOCKSIZE)
      have hfour : putLong (putLong (putLong (putLong m a (bufferOf c)) (a + LBLOCKSIZE)
          (bufferOf c)) (a + 2 * LBLOCKSIZE) (bufferOf c)) (a + 3 * LBLOCKSIZE) (bufferOf c) =
          filled m a (4 * LBLOCKSIZE) (byteOf c) := by
        simp only [putLong_eq]
        rw [filled_filled, ← Nat.two_mul, filled_filled, ← Nat.succ_mul, filled_filled,
          ← Nat.succ_mul]
      refine ⟨4 + k, by unfold LBLOCKSIZE at *; omega, ?_⟩
      simp only [hfour, hrest, filled_filled, Nat.add_mul, Prod.mk.injEq, and_true]
      omega
    · exact ⟨0, by simp, by simp⟩

/-- How far it is to the next aligned address. -/
def headroom (a : Nat) : Nat := (LBLOCKSIZE - a % LBLOCKSIZE) % LBLOCKSIZE

theorem headroom_zero (h : ¬ Unaligned a) : headroom a = 0 := by
  unfold Unaligned headroom LBLOCKSIZE at *
  omega

theorem headroom_succ (h : Unaligned a) : headroom a = headroom (a + 1) + 1 := by
  unfold Unaligned headroom LBLOCKSIZE at *
  omega

theorem head_eq : head (byteOf c) a n m =
    if n < headroom a then (none, filled m a n (byteOf c))
    else (some (a + headroom a, n - headroom a), filled m a (headroom a) (byteOf c)) := by
  induction n generalizing a m with
  | zero =>
    rw [head]
    split
    · rename_i h
      rw [if_pos (headroom_succ h ▸ Nat.succ_pos _), filled_zero]
    · rename_i h
      simp [headroom_zero h]
  | succ n ih =>
    rw [head]
    split
    · rename_i h
      -- the byte that is written, and those the rest of the loop writes
      have hone : ∀ k, filled (store m a [byteOf c]) (a + 1) k (byteOf c) =
          filled m a (k + 1) (byteOf c) := by
        intro k
        rw [show [byteOf c] = List.replicate 1 (byteOf c) from rfl, store_replicate, filled_filled,
          Nat.add_comm]
      simp only [ih, hone, headroom_succ h, Nat.succ_lt_succ_iff, Nat.add_sub_add_right]
      rw [Nat.add_assoc, Nat.add_comm 1]
    · rename_i h
      simp [headroom_zero h]

/-- How many of the `n` bytes `memset` writes. -/
def written (a n : Nat) : Nat :=
  if n < headroom a then n
  else headroom a + (n - headroom a) / LBLOCKSIZE * LBLOCKSIZE

/-- **What `memset` does.** -/
theorem memset_eq : memset m a c n = filled m a (written a n) (byteOf c) := by
  unfold memset written
  rw [head_eq]
  by_cases hroom : n < headroom a
  · rw [if_pos hroom, if_pos hroom]
  · rw [if_neg hroom, if_neg hroom]
    simp only
    split
    · rename_i hn
      rw [Nat.div_eq_of_lt hn, Nat.zero_mul, Nat.add_zero]
    · obtain ⟨k, hk, hbig⟩ := @bigFills_upto (filled m a (headroom a) (byteOf c)) (a + headroom a)
        (n - headroom a) c
      have hblocks : k * LBLOCKSIZE + (n - headroom a - k * LBLOCKSIZE) / LBLOCKSIZE * LBLOCKSIZE =
          (n - headroom a) / LBLOCKSIZE * LBLOCKSIZE := by
        unfold LBLOCKSIZE at *
        omega
      simp only [hbig, fills_eq]
      rw [filled_filled, filled_filled, hblocks]

/-- `memset` fills all it is asked to exactly if that ends at an aligned address, or in front of
the first one.  Where it gets to an aligned address at all, it stops at the last one: what lies
behind that in the range is left as it was. -/
theorem memset_iff :
    ((∀ m, memset m a c n = filled m a n (byteOf c)) ↔ n < headroom a ∨ ¬ Unaligned (a + n)) ∧
    (headroom a ≤ n → ∀ m, memset m a c n = filled m a (n - (a + n) % LBLOCKSIZE) (byteOf c)) := by
  have hwritten : written a n = n ↔ n < headroom a ∨ ¬ Unaligned (a + n) := by
    unfold written Unaligned headroom LBLOCKSIZE
    split <;> omega
  constructor
  · rw [← hwritten]
    constructor
    · intro h
      have hle : written a n ≤ n := by
        unfold written LBLOCKSIZE
        split <;> omega
      by_contra hne
      -- the first byte that is left out
      have hbyte := congrFun (h (fun _ => byteOf c + 1)) (a + written a n)
      rw [memset_eq, filled_outside (by omega), filled, if_pos ⟨by omega, by omega⟩] at hbyte
      exact absurd hbyte (by simp)
    · intro h m
      rw [memset_eq, h]
  · intro hroom m
    have hlast : written a n = n - (a + n) % LBLOCKSIZE := by
      unfold written headroom LBLOCKSIZE at *
      rw [if_neg (by omega)]
      omega
    rw [memset_eq, hlast]

end S9p.Loader
