/-
# Byte memory

A memory is a function from addresses to bytes.  `load` and `store` move a few bytes at once,
`copied` and `filled` say what a copy and a fill of any length are to achieve.

`copyUp` and `copyDown` are the two loops that copy byte by byte.  The one that goes up is right
unless the destination begins inside the source; then it repeats the bytes in front of the
destination (`copyUp_periodic`).
-/
import S9p.Lib.Bytes

namespace Memory

open Bytes

/-- A memory without an end; addresses do not wrap. -/
abbrev Mem := Nat → UInt8

variable {m m' : Mem} {a d s n k : Nat} {b : UInt8} {x : Bytes}

/-! ## 1. A few bytes at once

Words are read and written as the bytes they consist of; what a word is as a number plays no part in
a copy. -/

/-- `n` bytes from `a` on. -/
def load (m : Mem) (a n : Nat) : Bytes := (List.range n).map (fun i => m (a + i))

/-- The bytes of `x` from `a` on; the others stay. -/
def store (m : Mem) (a : Nat) (x : Bytes) : Mem := fun p =>
  if a ≤ p then (x[p - a]?).getD (m p) else m p

@[simp] theorem length_load : (load m a n).length = n := by simp [load]

theorem getElem?_load (h : k < n) : (load m a n)[k]? = some (m (a + k)) := by
  simp [load, List.getElem?_range h]

theorem store_inside (h₁ : a ≤ k) (h₂ : k - a < x.length) : store m a x k = x[k - a] := by
  rw [store, if_pos h₁, List.getElem?_eq_getElem (by omega), Option.getD_some]

theorem store_outside (h : k < a ∨ a + x.length ≤ k) : store m a x k = m k := by
  unfold store
  split
  · rw [List.getElem?_eq_none (by omega), Option.getD_none]
  · rfl

/-! ## 2. Copies and fills

These two are specifications: they say what each address holds afterwards, in terms of what was
there before, without an order in which it is done.  Addresses do not wrap around. -/

/-- `n` bytes from `s` on put to `d`. -/
def copied (m : Mem) (d s n : Nat) : Mem := fun p =>
  if d ≤ p ∧ p < d + n then m (s + (p - d)) else m p

/-- `n` bytes from `a` on set to `b`. -/
def filled (m : Mem) (a n : Nat) (b : UInt8) : Mem := fun p =>
  if a ≤ p ∧ p < a + n then b else m p

theorem copied_inside (h : k < n) : copied m d s n (d + k) = m (s + k) := by
  rw [copied, if_pos ⟨by omega, by omega⟩]
  congr 1
  omega

theorem copied_outside (h : k < d ∨ d + n ≤ k) : copied m d s n k = m k := if_neg (by omega)

theorem filled_outside (h : k < a ∨ a + n ≤ k) : filled m a n b k = m k := if_neg (by omega)

@[simp] theorem copied_zero : copied m d s 0 = m := funext fun _ => if_neg (by omega)

@[simp] theorem copied_self : copied m d d n = m := by
  funext p
  unfold copied
  split
  · congr 1
    omega
  · rfl

@[simp] theorem filled_zero : filled m a 0 b = m := funext fun _ => if_neg (by omega)

theorem store_load : store m d (load m s n) = copied m d s n := by
  funext p
  by_cases hp : d ≤ p ∧ p < d + n
  · rw [store, if_pos hp.1, getElem?_load (by omega), Option.getD_some, copied, if_pos hp]
  · rw [store_outside (by rw [length_load]; omega), copied, if_neg hp]

theorem store_replicate : store m a (List.replicate n b) = filled m a n b := by
  funext p
  by_cases hp : a ≤ p ∧ p < a + n
  · rw [store, if_pos hp.1, List.getElem?_replicate, if_pos (by omega), Option.getD_some, filled,
      if_pos hp]
  · rw [store_outside (by rw [List.length_replicate]; omega), filled, if_neg hp]

theorem filled_filled : filled (filled m a n b) (a + n) k b = filled m a (n + k) b := by
  funext p
  simp only [filled]
  split_ifs <;> first | rfl | omega

/-! ## 3. Copying byte by byte

The order is all that matters here.  Both loops are right for ranges that do not overlap, and each
of them for one kind of overlap. -/

/-- `d[i] = s[i]` for `k` numbers from `i` up. -/
def copyUp (d s : Nat) : Nat → Nat → Mem → Mem
  | 0, _, m => m
  | k + 1, i, m => copyUp d s k (i + 1) (store m (d + i) [m (s + i)])

/-- `d[i - 1] = s[i - 1]` for `i` from `n` down to 1. -/
def copyDown (d s : Nat) : Nat → Mem → Mem
  | 0, m => m
  | i + 1, m => copyDown d s i (store m (d + i) [m (s + i)])

theorem store_one {p : Nat} : store m a [b] p = if p = a then b else m p := by
  split
  · rename_i h
    rw [h, store_inside le_rfl (by simp)]
    simp
  · exact store_outside (by simp; omega)

/-- Bytes below and above what is still to be copied stay. -/
theorem copyUp_outside {i p : Nat} (h : p < d + i ∨ d + i + k ≤ p) : copyUp d s k i m p = m p := by
  induction k generalizing i m with
  | zero => rfl
  | succ k ih => rw [copyUp, ih (by omega), store_one, if_neg (by omega)]

theorem copyUp_add {i j : Nat} :
    copyUp d s (k + j) i m = copyUp d s j (i + k) (copyUp d s k i m) := by
  induction k generalizing i m with
  | zero => simp [copyUp]
  | succ k ih =>
    rw [Nat.succ_add, copyUp, ih, copyUp]
    congr 1
    omega

/-- A block behind the ones that have been copied. -/
theorem copyUp_shift {i : Nat} : copyUp d s k i m = copyUp (d + i) (s + i) k 0 m := by
  suffices h : ∀ j, copyUp d s k (i + j) m = copyUp (d + i) (s + i) k j m from h 0
  intro j
  induction k generalizing j m with
  | zero => rfl
  | succ k ih => rw [copyUp, copyUp, Nat.add_assoc i j 1, ih, Nat.add_assoc, Nat.add_assoc]

/-- A block, and the one behind it. -/
theorem copyUp_append {j : Nat} :
    copyUp (d + k) (s + k) j 0 (copyUp d s k 0 m) = copyUp d s (k + j) 0 m := by
  rw [copyUp_add, Nat.zero_add, copyUp_shift (d := d) (i := k)]

theorem copyUp_succ : copyUp d s (k + 1) 0 m =
    store (copyUp d s k 0 m) (d + k) [copyUp d s k 0 m (s + k)] := by
  rw [copyUp_add, Nat.zero_add]
  rfl

theorem store_copied : store (copied m d s k) (d + k) [m (s + k)] = copied m d s (k + 1) := by
  funext p
  rw [store_one]
  split
  · rename_i hp
    rw [hp, copied_inside (Nat.lt_succ_self k)]
  · simp only [copied]
    split_ifs <;> first | rfl | omega

/-- **Going up is right** unless the destination begins inside the source. -/
theorem copyUp_eq (h : d ≤ s ∨ s + n ≤ d) : copyUp d s n 0 m = copied m d s n := by
  induction n with
  | zero => exact copied_zero.symm
  | succ k ih =>
    rw [copyUp_succ, ih (by omega), copied_outside (k := s + k) (by omega), store_copied]

/-- **Going down is right** unless the destination ends inside the source. -/
theorem copyDown_eq (h : s ≤ d ∨ d + n ≤ s) : copyDown d s n m = copied m d s n := by
  induction n generalizing m with
  | zero => exact copied_zero.symm
  | succ k ih =>
    rw [copyDown, ih (by omega)]
    funext p
    by_cases hp : d ≤ p ∧ p < d + k
    · rw [copied, if_pos hp, copied, if_pos (by omega), store_one, if_neg (by omega)]
    · rw [copied, if_neg hp, store_one]
      split
      · rename_i hlast
        rw [hlast, copied_inside (Nat.lt_succ_self k)]
      · rw [copied_outside (by omega)]

/-- A byte is written once. -/
theorem copyUp_inside (h : k < n) : copyUp d s n 0 m (d + k) = copyUp d s k 0 m (s + k) := by
  obtain ⟨j, rfl⟩ : ∃ j, n = k + 1 + j := ⟨n - (k + 1), by omega⟩
  rw [copyUp_add, copyUp_outside (by omega), copyUp_succ, store_one, if_pos rfl]

/-- **Into its own source**, going up repeats the bytes in front of the destination. -/
theorem copyUp_periodic (h : s < d) (hk : k < n) :
    copyUp d s n 0 m (d + k) = m (s + k % (d - s)) := by
  induction k using Nat.strong_induction_on generalizing n with
  | h k ih =>
    rw [copyUp_inside hk]
    by_cases hfront : k < d - s
    · rw [copyUp_outside (by omega), Nat.mod_eq_of_lt hfront]
    · have hback : s + k = d + (k - (d - s)) := by omega
      have hmod : k % (d - s) = (k - (d - s)) % (d - s) := Nat.mod_eq_sub_mod (by omega)
      rw [hback, ih (k - (d - s)) (by omega) (by omega), hmod]

/-- Going up is right exactly there. -/
theorem copyUp_iff : (∀ m, copyUp d s n 0 m = copied m d s n) ↔ d ≤ s ∨ s + n ≤ d := by
  refine ⟨fun h => ?_, fun h m => copyUp_eq h⟩
  by_contra hno
  -- the byte at the destination is overwritten before its turn comes
  have hbyte := congrFun (h (fun p => if p = d then 1 else 0)) (d + (d - s))
  have hd : s + (d - s) = d := by omega
  rw [copyUp_periodic (by omega) (by omega), copied_inside (by omega), Nat.mod_self, hd,
    if_pos rfl, if_neg (by omega)] at hbyte
  exact absurd hbyte (by decide)

end Memory
