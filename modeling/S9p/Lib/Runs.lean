/-
# Runs of equal keys

A pass over `0 ... total` that notes where the key changes leaves a list of runs.  `Runs` says of
such a list that it covers the range without a gap, that a run has one key, and that it is not
continued by the next: no run can be made longer.

* `Runs.extend` and `Runs.begin` are the two things one more index does to the list.
* `Runs.window`: indices of one key that follow one another all lie in one run.

A list of this kind is what a run-length encoder emits.  Nothing is said here about how long a run
may be: an encoder with a bound on the length of a run, or on their number, states that of its own.
-/
import Mathlib.Algebra.GroupWithZero.Nat
import Mathlib.Data.List.Basic

/-- `len` indices from `start` on, all of one kind. -/
structure Run (κ : Type) where
  kind : κ
  len : Nat
  start : Nat
  deriving DecidableEq

namespace Run

variable {κ : Type} {key : Nat → κ} {total i n : Nat} {rs : List (Run κ)} {r : Run κ}

/-- The run is one, and as long as it can be below `total`.  It cannot be continued to the right.
That it cannot be continued to the left is said by the run in front of it. -/
structure Maximal (key : Nat → κ) (total : Nat) (r : Run κ) : Prop where
  pos : 0 < r.len
  same : ∀ i, r.start ≤ i → i < r.start + r.len → key i = r.kind
  stops : r.start + r.len < total → key (r.start + r.len) ≠ r.kind

/-- The runs of the keys from `i` to `total`.  The recursion is on the list, and each run has to
begin where the one before it ends. -/
def Runs (key : Nat → κ) (total : Nat) : Nat → List (Run κ) → Prop
  | i, [] => i = total
  | i, r :: rs => r.start = i ∧ r.Maximal key total ∧ Runs key total (i + r.len) rs

theorem Runs.le (h : Runs key total i rs) : i ≤ total := by
  induction rs generalizing i with
  | nil => exact Nat.le_of_eq h
  | cons r rs ih =>
    obtain ⟨-, -, hrest⟩ := h
    have := ih hrest
    omega

theorem Runs.mem (h : Runs key total i rs) (hr : r ∈ rs) :
    r.Maximal key total ∧ i ≤ r.start ∧ r.start + r.len ≤ total := by
  induction rs generalizing i with
  | nil => exact absurd hr (by simp)
  | cons r' rs ih =>
    obtain ⟨hstart, hmax, hrest⟩ := h
    rcases List.mem_cons.mp hr with rfl | hr
    · have := hrest.le
      exact ⟨hmax, by omega, by omega⟩
    · obtain ⟨hm, hle, hend⟩ := ih hrest hr
      exact ⟨hm, by omega, hend⟩

/-- The lengths add up to the range. -/
theorem Runs.sum (h : Runs key total i rs) : (rs.map Run.len).sum = total - i := by
  induction rs generalizing i with
  | nil =>
    have : i = total := h
    simp [this]
  | cons r rs ih =>
    obtain ⟨-, -, hrest⟩ := h
    have := hrest.le
    rw [List.map_cons, List.sum_cons, ih hrest]
    omega

/-- There are no more runs than indices. -/
theorem Runs.length_le (h : Runs key total i rs) : rs.length ≤ total - i := by
  induction rs generalizing i with
  | nil => exact Nat.zero_le _
  | cons r rs ih =>
    obtain ⟨-, hmax, hrest⟩ := h
    have hpos := hmax.pos
    have hle := hrest.le
    have := ih hrest
    rw [List.length_cons]
    omega

/-- **One more index of the same key** makes the last run longer. -/
theorem Runs.extend (h : Runs key total i (rs ++ [r])) (hkey : key total = r.kind) :
    Runs key (total + 1) i (rs ++ [{ r with len := r.len + 1 }]) := by
  induction rs generalizing i with
  | nil =>
    obtain ⟨hstart, hmax, hend⟩ := h
    have hstop : i + r.len = total := hend
    refine ⟨hstart, ⟨Nat.succ_pos _, fun j hj hj' => ?_, fun hlt => ?_⟩, ?_⟩
    · simp only at hj hj'
      by_cases hlast : j = total
      · rw [hlast, hkey]
      · exact hmax.same j hj (by omega)
    · simp only at hlt
      omega
    · show i + (r.len + 1) = total + 1
      omega
  | cons r' rs ih =>
    obtain ⟨hstart, hmax, hrest⟩ := h
    have hle := (hrest.mem (r := r) (by simp))
    refine ⟨hstart, ⟨hmax.pos, hmax.same, fun _ => hmax.stops ?_⟩, ih hrest⟩
    have := hle.1.pos
    omega

/-- **One more index of another key** ends it. -/
theorem Runs.begin (h : Runs key total i (rs ++ [r])) (hkey : key total ≠ r.kind) :
    Runs key (total + 1) i (rs ++ [r] ++ [⟨key total, 1, total⟩]) := by
  induction rs generalizing i with
  | nil =>
    obtain ⟨hstart, hmax, hend⟩ := h
    have hstop : i + r.len = total := hend
    refine ⟨hstart, ⟨hmax.pos, hmax.same, fun _ => ?_⟩, hstop.symm, ⟨Nat.one_pos, ?_, ?_⟩, ?_⟩
    · rwa [hstart, hstop]
    · intro j hj hj'
      simp only at hj hj' ⊢
      rw [show j = total by omega]
    · intro hlt
      simp only at hlt
      omega
    · show i + r.len + 1 = total + 1
      omega
  | cons r' rs ih =>
    obtain ⟨hstart, hmax, hrest⟩ := h
    have hle := (hrest.mem (r := r) (by simp))
    refine ⟨hstart, ⟨hmax.pos, hmax.same, fun _ => hmax.stops ?_⟩, ih hrest⟩
    have := hle.1.pos
    omega

/-- The runs of a single index. -/
theorem runs_one (key : Nat → κ) : Runs key 1 0 [⟨key 0, 1, 0⟩] := by
  refine ⟨rfl, ⟨Nat.one_pos, fun j hj hj' => ?_, fun hlt => ?_⟩, rfl⟩
  · simp only at hj hj' ⊢
    rw [show j = 0 by omega]
  · simp only at hlt
    omega

/-- **Indices of one key that follow one another lie in one run.** -/
theorem Runs.window {k : κ} {j : Nat} (h : Runs key total i rs) (hij : i ≤ j) (hn : 0 < n)
    (hend : j + n ≤ total) (hkey : ∀ m, j ≤ m → m < j + n → key m = k) :
    ∃ r ∈ rs, r.kind = k ∧ n ≤ r.len := by
  induction rs generalizing i with
  | nil =>
    have : i = total := h
    omega
  | cons r rs ih =>
    obtain ⟨hstart, hmax, hrest⟩ := h
    by_cases hin : j < i + r.len
    · have hkind : r.kind = k := by
        rw [← hmax.same j (by omega) (by omega), hkey j (Nat.le_refl j) (by omega)]
      refine ⟨r, List.mem_cons_self, hkind, ?_⟩
      by_contra hshort
      have hover := hkey (r.start + r.len) (by omega) (by omega)
      exact hmax.stops (by omega) (hover.trans hkind.symm)
    · obtain ⟨r', hr', hkind, hlen⟩ := ih hrest (by omega)
      exact ⟨r', List.mem_cons_of_mem _ hr', hkind, hlen⟩

end Run
