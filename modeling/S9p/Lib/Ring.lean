/-
# Index arithmetic of a ring of slots

A ring of `q` slots between a consumer index `rear` and a producer index `front`: the entries
are the slots `rear, rear + 1, .. , front - 1` (modulo `q`), and one slot always stays free,
so that equal indices mean EMPTY and `front + 1 = rear` means FULL.

`contents` reads the entries off as a list, oldest first, and the lemmas say what each of the
elementary index and slot writes does to that list: a write to the free slot at `front` does
nothing, moving `front` on appends that slot, moving `rear` on by `n` drops `n` entries.
-/
import Mathlib.Data.List.Basic
import Mathlib.Data.Nat.ModEq
import Mathlib.Tactic.SplitIfs

namespace Ring

variable {α : Type}

/-! ## 1. Indices

All arithmetic is on `Nat`, with an explicit modulus.  The modulus goes away in `len_eq` and
`succ_eq`, after which `omega` does the rest. -/

/-- The index after `i`. -/
def succ (q i : Nat) : Nat := (i + 1) % q

/-- The number of entries between the two indices. -/
def len (q rear front : Nat) : Nat := (front + q - rear) % q

theorem succ_lt {q i : Nat} (hq : 0 < q) : succ q i < q := Nat.mod_lt _ hq

theorem len_lt {q rear front : Nat} (hq : 0 < q) : len q rear front < q := Nat.mod_lt _ hq

@[simp] theorem len_self {q i : Nat} : len q i i = 0 := by
  simp [len]

/-- The two cases of `len`, without the modulus. -/
theorem len_eq {q rear front : Nat} (hr : rear < q) (hf : front < q) :
    len q rear front = if rear ≤ front then front - rear else front + q - rear := by
  unfold len
  split
  · rename_i h
    rw [show front + q - rear = (front - rear) + q by omega, Nat.add_mod_right]
    exact Nat.mod_eq_of_lt (by omega)
  · exact Nat.mod_eq_of_lt (by omega)

/-- The two cases of `succ`, without the modulus. -/
theorem succ_eq {q i : Nat} (hi : i < q) : succ q i = if i + 1 = q then 0 else i + 1 := by
  unfold succ
  split
  · rename_i h
    rw [h, Nat.mod_self]
  · exact Nat.mod_eq_of_lt (by omega)

/-- The indices say FULL exactly when all slots but one are entries. -/
theorem succ_eq_iff_full {q rear front : Nat} (hr : rear < q) (hf : front < q) :
    succ q front = rear ↔ len q rear front = q - 1 := by
  rw [len_eq hr hf, succ_eq hf]
  split <;> split <;> omega

theorem len_succ_front {q rear front : Nat} (hr : rear < q) (hf : front < q)
    (hroom : succ q front ≠ rear) : len q rear (succ q front) = len q rear front + 1 := by
  rw [len_eq hr (succ_lt (by omega)), len_eq hr hf]
  rw [succ_eq hf] at hroom ⊢
  split_ifs at hroom ⊢ <;> omega

theorem len_succ_rear {q rear front : Nat} (hr : rear < q) (hf : front < q)
    (hne : rear ≠ front) : len q (succ q rear) front + 1 = len q rear front := by
  rw [len_eq (succ_lt (by omega)) hf, len_eq hr hf, succ_eq hr]
  split_ifs <;> omega

/-- Walking `n` slots on from the consumer index leaves `len - n` entries. -/
theorem len_add_mod {q rear front n : Nat} (hr : rear < q) (hf : front < q)
    (hn : n ≤ len q rear front) :
    len q ((rear + n) % q) front = len q rear front - n := by
  have hlt : len q rear front < q := len_lt (by omega)
  have hw : (rear + n) % q = if rear + n < q then rear + n else rear + n - q := by
    split
    · exact Nat.mod_eq_of_lt (by omega)
    · rw [Nat.mod_eq_sub_mod (by omega)]
      exact Nat.mod_eq_of_lt (by omega)
  rw [len_eq (Nat.mod_lt _ (by omega)) hf, hw]
  rw [len_eq hr hf] at hn hlt ⊢
  split_ifs at hn hlt ⊢ <;> omega

theorem add_len_mod {q rear front : Nat} (hr : rear < q) (hf : front < q) :
    (rear + len q rear front) % q = front := by
  rw [len_eq hr hf]
  split
  · rw [show rear + (front - rear) = front by omega]
    exact Nat.mod_eq_of_lt hf
  · rw [show rear + (front + q - rear) = front + q by omega, Nat.add_mod_right]
    exact Nat.mod_eq_of_lt hf

theorem succ_add_mod {q rear n : Nat} : succ q ((rear + n) % q) = (rear + (n + 1)) % q := by
  unfold succ
  rw [Nat.mod_add_mod, Nat.add_assoc]

/-- Two different distances below `q` lead to two different slots. -/
theorem add_mod_inj {q rear m n : Nat} (hm : m < q) (hn : n < q)
    (h : (rear + m) % q = (rear + n) % q) : m = n := by
  have h' : rear + m ≡ rear + n [MOD q] := h
  have h2 : m ≡ n [MOD q] := Nat.ModEq.add_left_cancel' rear h'
  exact Nat.ModEq.eq_of_lt_of_lt h2 hm hn

/-! ## 2. The entries

The list of entries is what a reader of the ring is interested in, and it is stated once here how it
follows from the indices.  Later modules speak of the list only. -/

/-- `n` slots from `rear` on. -/
def slots (q : Nat) (slot : Nat → α) (rear n : Nat) : List α :=
  (List.range n).map (fun j => slot ((rear + j) % q))

/-- The entries of the ring, oldest first.  It depends on the slots between the indices only, which
`slots_congr` makes usable: a write to any other slot leaves it as it is. -/
def contents (q : Nat) (slot : Nat → α) (rear front : Nat) : List α :=
  slots q slot rear (len q rear front)

@[simp] theorem length_slots {q : Nat} {slot : Nat → α} {rear n : Nat} :
    (slots q slot rear n).length = n := by
  simp [slots]

@[simp] theorem length_contents {q : Nat} {slot : Nat → α} {rear front : Nat} :
    (contents q slot rear front).length = len q rear front := length_slots

@[simp] theorem contents_self {q : Nat} {slot : Nat → α} {i : Nat} :
    contents q slot i i = [] := by
  simp [contents, slots]

theorem slots_succ {q : Nat} {slot : Nat → α} {rear n : Nat} :
    slots q slot rear (n + 1) = slots q slot rear n ++ [slot ((rear + n) % q)] := by
  simp [slots, List.range_succ]

theorem slots_cons {q : Nat} {slot : Nat → α} {rear n : Nat} (hr : rear < q) :
    slots q slot rear (n + 1) = slot rear :: slots q slot (succ q rear) n := by
  simp only [slots, List.range_succ_eq_map, List.map_cons, List.map_map, Nat.add_zero,
    Nat.mod_eq_of_lt hr, List.cons.injEq, true_and]
  refine List.map_congr_left (fun j _ => ?_)
  simp only [Function.comp, succ, Nat.mod_add_mod]
  congr 2
  omega

theorem slots_congr {q : Nat} {slot slot' : Nat → α} {rear n : Nat}
    (h : ∀ j < n, slot ((rear + j) % q) = slot' ((rear + j) % q)) :
    slots q slot rear n = slots q slot' rear n :=
  List.map_congr_left (fun j hj => h j (List.mem_range.mp hj))

theorem slots_drop {q : Nat} {slot : Nat → α} {rear m n : Nat} :
    (slots q slot rear (m + n)).drop m = slots q slot ((rear + m) % q) n := by
  refine List.ext_getElem (by simp) (fun i h1 h2 => ?_)
  simp only [slots, List.getElem_drop, List.getElem_map, List.getElem_range, Nat.mod_add_mod,
    Nat.add_assoc]

theorem getElem?_slots {q : Nat} {slot : Nat → α} {rear n j : Nat} (hj : j < n) :
    (slots q slot rear n)[j]? = some (slot ((rear + j) % q)) := by
  simp [slots, hj]

/-- A write to a slot that is not an entry does not show. -/
theorem contents_congr {q : Nat} {slot slot' : Nat → α} {rear front : Nat} (hr : rear < q)
    (hf : front < q) (h : ∀ i, i ≠ front → slot i = slot' i) :
    contents q slot rear front = contents q slot' rear front := by
  refine slots_congr (fun j hj => h _ (fun hij => ?_))
  have hlt : len q rear front < q := len_lt (by omega)
  rw [← add_len_mod hr hf] at hij
  exact absurd (add_mod_inj (by omega) hlt hij) (by omega)

/-- Moving the producer index on appends the slot it stood on. -/
theorem contents_push {q : Nat} {slot : Nat → α} {rear front : Nat} (hr : rear < q)
    (hf : front < q) (hroom : succ q front ≠ rear) :
    contents q slot rear (succ q front) = contents q slot rear front ++ [slot front] := by
  unfold contents
  rw [len_succ_front hr hf hroom, slots_succ, add_len_mod hr hf]

/-- Moving the consumer index on drops the slot it stood on. -/
theorem contents_pop {q : Nat} {slot : Nat → α} {rear front : Nat} (hr : rear < q)
    (hf : front < q) (hne : rear ≠ front) :
    contents q slot rear front = slot rear :: contents q slot (succ q rear) front := by
  unfold contents
  rw [← len_succ_rear hr hf hne, slots_cons hr]

/-- Moving the consumer index on by `n` drops `n` entries. -/
theorem contents_drop {q : Nat} {slot : Nat → α} {rear front n : Nat} (hr : rear < q)
    (hf : front < q) (hn : n ≤ len q rear front) :
    contents q slot ((rear + n) % q) front = (contents q slot rear front).drop n := by
  unfold contents
  rw [len_add_mod hr hf hn]
  conv_rhs => rw [show len q rear front = n + (len q rear front - n) by omega]
  exact slots_drop.symm

/-- The `j`-th entry stands in the `j`-th slot from the consumer index. -/
theorem getElem?_contents {q : Nat} {slot : Nat → α} {rear front j : Nat}
    (hj : j < len q rear front) :
    (contents q slot rear front)[j]? = some (slot ((rear + j) % q)) := getElem?_slots hj

/-- A write to the slot of an entry replaces that entry. -/
theorem contents_update {q : Nat} {slot : Nat → α} {rear front j : Nat} (hq : 0 < q)
    (hj : j < len q rear front) (a : α) :
    contents q (Function.update slot ((rear + j) % q) a) rear front =
      (contents q slot rear front).set j a := by
  refine List.ext_getElem? (fun k => ?_)
  have hlt : len q rear front < q := len_lt hq
  by_cases hk : k < len q rear front
  · rw [getElem?_contents hk, List.getElem?_set, length_contents, getElem?_contents hk]
    by_cases hkj : j = k
    · subst hkj
      simp [hk]
    · have hne : (rear + k) % q ≠ (rear + j) % q := fun h =>
        hkj (add_mod_inj (by omega) (by omega) h).symm
      rw [Function.update_of_ne hne, if_neg hkj]
  · rw [List.getElem?_eq_none (by simpa using hk), List.getElem?_eq_none (by simpa using hk)]

end Ring
