/-
# Bit fields of a register word

Driver code takes a register word apart with `(v >>> off) & mask` and puts one together by
clearing a field with `v & ~m` and or-ing a shifted value in.  `field off mask v` is the
first, and the lemmas say what the second does to it.  The side conditions speak about the
constant masks only, so `decide` settles them.

Nothing here depends on the width of the register.  Where two fields of one word are written one
after the other, the lemmas are used once for each field, and the masks are compared by `decide`.
-/
import Mathlib.Data.BitVec

namespace Field

variable {w : Nat}

/-- The field of `v` that starts at bit `off` and covers `mask`.  The mask is that of the field once
it is shifted down, as the macros of the drivers have it. -/
def field (off : Nat) (mask v : BitVec w) : BitVec w := (v >>> off) &&& mask

theorem field_or (off : Nat) (mask a b : BitVec w) :
    field off mask (a ||| b) = field off mask a ||| field off mask b := by
  ext i hi
  simp only [field, BitVec.getElem_and, BitVec.getElem_ushiftRight, BitVec.getLsbD_or,
    BitVec.getElem_or, Bool.and_or_distrib_right]

/-- The field only sees the bits under its own mask. -/
theorem field_congr {off : Nat} {mask a b : BitVec w}
    (h : a &&& (mask <<< off) = b &&& (mask <<< off)) : field off mask a = field off mask b := by
  ext i hi
  simp only [field, BitVec.getElem_and, BitVec.getElem_ushiftRight]
  cases hm : mask[i] with
  | false => simp
  | true =>
    have hbit := congrArg (fun v => v.getLsbD (off + i)) h
    have hm' : mask.getLsbD i = true := by rw [BitVec.getLsbD_eq_getElem hi]; exact hm
    by_cases hlt : off + i < w
    · simpa [hlt, hm, show ¬ off + i < off by omega] using hbit
    · rw [BitVec.getLsbD_of_ge _ _ (by omega), BitVec.getLsbD_of_ge _ _ (by omega)]

/-- Clearing bits outside the field leaves it. -/
theorem field_keep {off : Nat} {mask m : BitVec w} (h : ~~~m &&& (mask <<< off) = mask <<< off)
    (v : BitVec w) : field off mask (v &&& ~~~m) = field off mask v :=
  field_congr (by rw [BitVec.and_assoc, h])

/-- Clearing all bits of the field makes it zero. -/
theorem field_clear {off : Nat} {mask m : BitVec w} (h : ~~~m &&& (mask <<< off) = 0#w)
    (v : BitVec w) : field off mask (v &&& ~~~m) = 0#w := by
  have h0 : field off mask (v &&& ~~~m) = field off mask 0#w :=
    field_congr (by rw [BitVec.and_assoc, h, BitVec.and_zero, BitVec.zero_and])
  rw [h0]
  simp [field]

/-- Bits outside the field do not show. -/
theorem field_outside {off : Nat} {mask x : BitVec w} (h : x &&& (mask <<< off) = 0#w) :
    field off mask x = 0#w := by
  have h0 : field off mask x = field off mask 0#w := field_congr (by rw [h, BitVec.zero_and])
  rw [h0]
  simp [field]

/-- A value shifted past the field does not show. -/
theorem field_shift_outside {off n : Nat} {mask : BitVec w}
    (h : (BitVec.allOnes w <<< n) &&& (mask <<< off) = 0#w) (x : BitVec w) :
    field off mask (x <<< n) = 0#w := by
  refine field_outside ?_
  have hx : x <<< n = (x <<< n) &&& (BitVec.allOnes w <<< n) := by
    ext i hi
    simp only [BitVec.getElem_and, BitVec.getElem_shiftLeft, BitVec.getElem_allOnes]
    by_cases hn : i < n <;> simp [hn]
  rw [hx, BitVec.and_assoc, h, BitVec.and_zero]

/-- A value shifted into the field reads back, as far as the mask lets it through. -/
theorem field_shift {off : Nat} {mask : BitVec w} (h : (mask <<< off) >>> off = mask)
    (x : BitVec w) : field off mask (x <<< off) = x &&& mask := by
  ext i hi
  have hbit := congrArg (fun v => v.getLsbD i) h
  simp only [BitVec.getLsbD_ushiftRight, BitVec.getLsbD_shiftLeft] at hbit
  simp only [field, BitVec.getElem_and, BitVec.getElem_ushiftRight, BitVec.getLsbD_shiftLeft]
  cases hm : mask[i] with
  | false => simp
  | true =>
    have hm' : mask.getLsbD i = true := by rw [BitVec.getLsbD_eq_getElem hi]; exact hm
    rw [hm'] at hbit
    have hlt : off + i < w := by
      by_contra hge
      simp [hge] at hbit
    simp [hlt, BitVec.getLsbD_eq_getElem hi]

/-! ## Status bits

A status bit reads as the hardware says, whatever was last written there. -/

/-- The word `v` with the status bit `bit` reading as `b`. -/
def withBit (v bit : BitVec w) (b : Bool) : BitVec w := if b then v ||| bit else v &&& ~~~bit

/-- Bits that are set outside a mask do not show under it. -/
theorem or_and {v x m : BitVec w} (h : x &&& m = 0#w) : (v ||| x) &&& m = v &&& m := by
  ext i hi
  have hbit := congrArg (fun u => u.getLsbD i) h
  cases hm : m[i] with
  | false => simp [hm]
  | true =>
    have hx : x[i] = false := by simpa [hi, hm] using hbit
    simp [hx]

/-- Nor do bits that are cleared outside it. -/
theorem and_not_and {v x m : BitVec w} (h : x &&& m = 0#w) : v &&& ~~~x &&& m = v &&& m := by
  ext i hi
  have hbit := congrArg (fun u => u.getLsbD i) h
  cases hm : m[i] with
  | false => simp [hm]
  | true =>
    have hx : x[i] = false := by simpa [hi, hm] using hbit
    simp [hx]

/-- Bits that are set show under their own mask. -/
theorem or_and_self (v x : BitVec w) : (v ||| x) &&& x = x := by
  ext i hi
  simp only [BitVec.getElem_and, BitVec.getElem_or]
  cases v[i] <;> cases x[i] <;> rfl

/-- Words that agree under a mask agree under a part of it. -/
theorem and_congr_part {a b m m' : BitVec w} (h : a &&& m = b &&& m) (hpart : m &&& m' = m') :
    a &&& m' = b &&& m' := by
  rw [← hpart, ← BitVec.and_assoc, ← BitVec.and_assoc, h]

theorem withBit_and {v bit m : BitVec w} {b : Bool} (h : bit &&& m = 0#w) :
    withBit v bit b &&& m = v &&& m := by
  cases b with
  | true => exact or_and h
  | false => exact and_not_and h

/-! ## One bit

Bits that are named by a number are masks with one bit. -/

/-- A bit is tested by its mask. -/
theorem and_twoPow_ne_zero {v : BitVec w} {n : Nat} (h : n < w) :
    v &&& BitVec.twoPow w n ≠ 0#w ↔ v.getLsbD n = true := by
  rw [BitVec.and_twoPow]
  have hne : BitVec.twoPow w n ≠ 0#w := by
    intro hzero
    have hbit := congrArg (fun u => u.getLsbD n) hzero
    simp [h] at hbit
  cases v.getLsbD n with
  | false => simp
  | true => simpa using hne

/-- A bit that is set stays as it is. -/
theorem or_twoPow {v : BitVec w} {n : Nat} (h : v.getLsbD n = true) :
    v ||| BitVec.twoPow w n = v := by
  refine BitVec.eq_of_getLsbD_eq (fun i hi => ?_)
  rw [BitVec.getLsbD_or, BitVec.getLsbD_twoPow]
  by_cases hin : n = i
  · subst hin
    simp [h]
  · simp [hin]

end Field
