/-
# The median of the last three

`med3` is the median of three values, and comparing with it is a majority vote: it is at least
`x` exactly when two of the three are.

`padded hs` is the window such a filter looks at after the readings `hs`, oldest first: the
last three of them, the first one standing in for those before it.
-/
import Mathlib.Order.MinMax

variable {α : Type}

/-! ## 1. The median

Two of three values decide it, on either side of a threshold. -/

section Median

variable [LinearOrder α] {a b c x : α}

def med3 (a b c : α) : α := max (min a b) (min (max a b) c)

theorem le_med3_iff : x ≤ med3 a b c ↔ 2 ≤ [a, b, c].countP (fun r => decide (x ≤ r)) := by
  simp only [med3, le_max_iff, le_min_iff, List.countP_cons, List.countP_nil]
  by_cases ha : x ≤ a <;> by_cases hb : x ≤ b <;> by_cases hc : x ≤ c <;> simp [ha, hb, hc]

theorem med3_lt_iff : med3 a b c < x ↔ 2 ≤ [a, b, c].countP (fun r => decide (r < x)) := by
  simp only [med3, max_lt_iff, min_lt_iff, List.countP_cons, List.countP_nil]
  by_cases ha : a < x <;> by_cases hb : b < x <;> by_cases hc : c < x <;> simp [ha, hb, hc]

end Median

/-! ## 2. The window

A window that is not yet full is filled up with the first reading. -/

/-- The last three of `hs`, padded in front with the first. -/
def padded : List α → List α
  | [] => []
  | r :: rest => (r :: r :: r :: rest).drop rest.length

@[simp] theorem padded_single (r : α) : padded [r] = [r, r, r] := rfl

/-- A further reading pushes the oldest one out. -/
theorem padded_append {hs : List α} (h : hs ≠ []) (x : α) :
    padded (hs ++ [x]) = (padded hs).tail ++ [x] := by
  cases hs with
  | nil => exact absurd rfl h
  | cons r rest =>
    have hcons : r :: r :: r :: (rest ++ [x]) = (r :: r :: r :: rest) ++ [x] := rfl
    simp only [padded, List.cons_append, List.length_append, List.length_singleton,
      List.tail_drop]
    rw [hcons, List.drop_append_of_le_length (by simp only [List.length_cons]; omega)]

/-- Once there are three readings, there is no padding. -/
theorem padded_of_three {hs : List α} (h : 3 ≤ hs.length) :
    padded hs = hs.drop (hs.length - 3) := by
  match hs with
  | [] => exact absurd h (by simp)
  | [a] => exact absurd h (by simp)
  | [a, b] => exact absurd h (by simp)
  | a :: b :: c :: rest => rfl
