/-
# Latched sources

A source that is raised sets its latch; who serves the sources reads the latches, clears what has
been read, and then serves it.  A source may be raised at any time.  `Kept` says that nothing is
lost (a source that is owed a service is latched, or held by who serves) and nothing is made up
(there are never more services than raises); `Taken` is the same between the reading and the
clearing.

`SharedLatch` is one source with several servers that do not know of each other.  Nothing is lost
there either, but a raise may be served once by each of them.
-/
import Mathlib.Algebra.BigOperators.Fin
import Mathlib.Data.Bool.Basic
import Mathlib.Data.Fintype.BigOperators
import Mathlib.Logic.Function.Basic

variable {ι : Type}

/-- Which sources are latched, and what has become of them so far: a source is owed a service if it
has been raised since its last one began.  The counts and `owed` are history, which no server can
read. -/
structure Latch (ι : Type) where
  set : ι → Bool
  raised : ι → Nat
  served : ι → Nat
  owed : ι → Bool

namespace Latch

/-- What is in `m` is cleared. -/
def clear (l : Latch ι) (m : ι → Bool) : Latch ι := { l with set := fun i => l.set i && !m i }

/-- With `held` cleared and yet to be served. -/
structure Kept (l : Latch ι) (held : ι → Bool) : Prop where
  owed : ∀ i, l.owed i = true → l.set i = true ∨ held i = true
  count : ∀ i, l.served i + (l.set i).toNat + (held i).toNat ≤ l.raised i

/-- With `val` read and yet to be cleared. -/
structure Taken (l : Latch ι) (val : ι → Bool) : Prop where
  kept : l.Kept (fun _ => false)
  set : ∀ i, val i = true → l.set i = true

variable {l : Latch ι} {held val : ι → Bool} {i : ι}

theorem Kept.taken (h : l.Kept (fun _ => false)) : l.Taken l.set := ⟨h, fun _ hi => hi⟩

/-- **What has been read is cleared**: it is now for the server to serve. -/
theorem Taken.clear (h : l.Taken val) : (l.clear val).Kept val := by
  constructor
  · intro i hi
    rcases h.kept.owed i hi with hset | hno
    · cases hval : val i with
      | false => exact .inl (by simp [Latch.clear, hset, hval])
      | true => exact .inr rfl
    · exact absurd hno (by simp)
  · intro i
    have hcount := h.kept.count i
    cases hval : val i with
    | false => simpa [Latch.clear, hval] using hcount
    | true => simpa [Latch.clear, hval, h.set i hval] using hcount

variable [DecidableEq ι]

def raise (l : Latch ι) (i : ι) : Latch ι where
  set := Function.update l.set i true
  raised := Function.update l.raised i (l.raised i + 1)
  served := l.served
  owed := Function.update l.owed i true

def serve (l : Latch ι) (i : ι) : Latch ι :=
  { l with
    served := Function.update l.served i (l.served i + 1)
    owed := Function.update l.owed i false }

/-- A raise of a source that is latched leaves nothing more to do. -/
theorem Kept.raise (h : l.Kept held) (i : ι) : (l.raise i).Kept held := by
  constructor
  · intro j hj
    by_cases hij : j = i
    · subst hij
      exact .inl (Function.update_self ..)
    · simp only [Latch.raise, Function.update_of_ne hij] at hj ⊢
      exact h.owed j hj
  · intro j
    have hcount := h.count j
    by_cases hij : j = i
    · subst hij
      simp only [Latch.raise, Function.update_self, Bool.toNat_true]
      have hset : 0 ≤ (l.set j).toNat := Nat.zero_le _
      omega
    · simpa only [Latch.raise, Function.update_of_ne hij] using hcount

theorem Taken.raise (h : l.Taken val) (i : ι) : (l.raise i).Taken val := by
  refine ⟨h.kept.raise i, fun j hj => ?_⟩
  by_cases hij : j = i
  · subst hij
    exact Function.update_self ..
  · simpa only [Latch.raise, Function.update_of_ne hij] using h.set j hj

/-- **A source that is held is served.** -/
theorem Kept.serve (h : l.Kept held) (hi : held i = true) :
    (l.serve i).Kept (Function.update held i false) := by
  constructor
  · intro j hj
    by_cases hij : j = i
    · subst hij
      exact absurd hj (by simp [Latch.serve])
    · simp only [Latch.serve, Function.update_of_ne hij] at hj ⊢
      exact h.owed j hj
  · intro j
    have hcount := h.count j
    by_cases hij : j = i
    · subst hij
      simpa [Latch.serve, hi, Nat.add_right_comm] using hcount
    · simpa only [Latch.serve, Function.update_of_ne hij] using hcount

end Latch

/-! ## Several servers

Each server reads the latch, serves the source if it finds it set, and clears it at some moment in
between.  A second server that reads before the first one has cleared serves the same raise once
more; this is what the factor in `Kept.count` allows for, and no more. -/

/-- One source.  `hold` says which servers have read it and not served it yet, `took` which have
read it since it was latched.  The latter is forgotten when the latch is set anew, since then each
may serve it again. -/
structure SharedLatch (κ : Type) where
  set : Bool
  raised : Nat
  served : Nat
  owed : Bool
  hold : κ → Bool
  took : κ → Bool

namespace SharedLatch

variable {κ : Type} [Fintype κ]

/-- How many there are. -/
def count (f : κ → Bool) : Nat := ∑ k, (f k).toNat

structure Kept (l : SharedLatch κ) : Prop where
  owed : l.owed = true → l.set = true ∨ ∃ k, l.hold k = true
  count : l.served + count l.hold + (if l.set then count (fun k => !l.took k) else 0) ≤
    Fintype.card κ * l.raised

def raise (l : SharedLatch κ) : SharedLatch κ :=
  { l with
    set := true
    raised := l.raised + 1
    owed := true
    took := if l.set then l.took else fun _ => false }

def clear (l : SharedLatch κ) : SharedLatch κ := { l with set := false }

variable {l : SharedLatch κ}

theorem count_all : count (fun _ : κ => true) = Fintype.card κ := by
  simp [count]

theorem Kept.raise (h : l.Kept) : l.raise.Kept := by
  refine ⟨fun _ => .inl rfl, ?_⟩
  have hcount := h.count
  simp only [SharedLatch.raise, if_true, Nat.mul_succ]
  cases hset : l.set with
  | true =>
    simp only [hset, if_true] at hcount ⊢
    omega
  | false =>
    simp only [hset, Bool.false_eq_true, if_false, Bool.not_false, count_all] at hcount ⊢
    omega

/-- **One that holds it clears it**, and what has been latched since is with what it holds. -/
theorem Kept.clear {k : κ} (h : l.Kept) (hk : l.hold k = true) : l.clear.Kept := by
  refine ⟨fun _ => .inr ⟨k, hk⟩, ?_⟩
  have hcount := h.count
  simp only [SharedLatch.clear, Bool.false_eq_true, if_false]
  omega

variable [DecidableEq κ]

/-- A server reads. -/
def take (l : SharedLatch κ) (k : κ) : SharedLatch κ :=
  if l.set then
    { l with hold := Function.update l.hold k true, took := Function.update l.took k true }
  else l

def serve (l : SharedLatch κ) (k : κ) : SharedLatch κ :=
  { l with served := l.served + 1, owed := false, hold := Function.update l.hold k false }

variable {k : κ}

theorem count_update (f : κ → Bool) (k : κ) (b : Bool) :
    count (Function.update f k b) + (f k).toNat = count f + b.toNat := by
  have hsplit : ∀ g : κ → Bool, count g = (g k).toNat + ∑ j ∈ Finset.univ.erase k, (g j).toNat :=
    fun g => (Finset.add_sum_erase _ (fun j => (g j).toNat) (Finset.mem_univ k)).symm
  have hrest : ∑ j ∈ Finset.univ.erase k, (Function.update f k b j).toNat =
      ∑ j ∈ Finset.univ.erase k, (f j).toNat :=
    Finset.sum_congr rfl (fun j hj => by rw [Function.update_of_ne (Finset.ne_of_mem_erase hj)])
  rw [hsplit (Function.update f k b), hsplit f, hrest, Function.update_self]
  omega

omit [Fintype κ] in
theorem not_update (f : κ → Bool) (k : κ) :
    (fun j => !Function.update f k true j) = Function.update (fun j => !f j) k false := by
  funext j
  by_cases hj : j = k
  · subst hj
    simp
  · simp [hj]

/-- **One reads** that has not read it since it was latched. -/
theorem Kept.take (h : l.Kept) (hk : l.hold k = false) (hfresh : l.set = true → l.took k = false) :
    (l.take k).Kept := by
  unfold SharedLatch.take
  split
  · rename_i hset
    refine ⟨fun _ => .inl hset, ?_⟩
    have hcount := h.count
    have hhold := count_update l.hold k true
    have htook := count_update (fun j => !l.took j) k false
    simp only [hset, if_true, hk, hfresh hset, not_update, Bool.toNat_true, Bool.toNat_false,
      Bool.not_false, Nat.add_zero] at hcount hhold htook ⊢
    omega
  · exact h

theorem Kept.serve (h : l.Kept) (hk : l.hold k = true) : (l.serve k).Kept := by
  refine ⟨fun howed => absurd howed (by simp [SharedLatch.serve]), ?_⟩
  have hcount := h.count
  have hhold := count_update l.hold k false
  simp only [hk, Bool.toNat_true, Bool.toNat_false, Nat.add_zero] at hhold
  change l.served + 1 + SharedLatch.count (Function.update l.hold k false) +
    (if l.set then SharedLatch.count (fun k => !l.took k) else 0) ≤ Fintype.card κ * l.raised
  omega

end SharedLatch
