/-
# Ladders of operating points

A table of operating points, fastest first: each has a rate and a level (of voltage, say), and
a slower point never needs a higher level.  `needed l f` is the point that decides what the
rate `f` needs: the slowest one not slower than `f`.

`Covers l v f` says that the level `v` is enough for the rate `f`.  It is the form to prove
things in, since it is monotone for trivial reasons; `covers_iff_needed` says that on a graded
table it is the same as comparing with `needed`.
-/
import Mathlib.Order.Basic
import Mathlib.Data.List.Pairwise

namespace Ladder

variable {ι β : Type} [Preorder β] (rate : ι → Nat) (level : ι → β)

/-- Strictly falling rates, and levels that do not rise. -/
def Graded (l : List ι) : Prop :=
  l.Pairwise (fun a b => rate b < rate a ∧ level b ≤ level a)

/-- The slowest point not slower than `f`. -/
def needed (l : List ι) (f : Nat) : Option ι := l.reverse.find? (fun a => decide (f ≤ rate a))

/-- Some point at least as fast as `f` needs no more than `v`. -/
def Covers (l : List ι) (v : β) (f : Nat) : Prop := ∃ a ∈ l, f ≤ rate a ∧ level a ≤ v

variable {rate level} {l : List ι} {v w : β} {f g : Nat}

theorem Covers.anti (h : Covers rate level l v g) (hf : f ≤ g) : Covers rate level l v f := by
  obtain ⟨a, ha, hrate, hlevel⟩ := h
  exact ⟨a, ha, Nat.le_trans hf hrate, hlevel⟩

theorem Covers.mono (h : Covers rate level l v f) (hv : v ≤ w) : Covers rate level l w f := by
  obtain ⟨a, ha, hrate, hlevel⟩ := h
  exact ⟨a, ha, hrate, hlevel.trans hv⟩

theorem covers_of_mem {a : ι} (ha : a ∈ l) (hf : f ≤ rate a) :
    Covers rate level l (level a) f := ⟨a, ha, hf, le_rfl⟩

/-- On a graded table, of all points fast enough the needed one has the lowest level. -/
theorem needed_le (hg : Graded rate level l) {a b : ι} (ha : a ∈ l) (hf : f ≤ rate a)
    (hb : needed rate l f = some b) : level b ≤ level a := by
  have hasc : l.reverse.Pairwise (fun a b => rate a < rate b ∧ level a ≤ level b) :=
    List.pairwise_reverse.mpr hg
  obtain ⟨-, as, bs, hsplit, has⟩ := List.find?_eq_some_iff_append.mp hb
  have ha' : a ∈ as ++ b :: bs := hsplit ▸ List.mem_reverse.mpr ha
  rw [hsplit, List.pairwise_append] at hasc
  rcases List.mem_append.mp ha' with ha' | ha'
  · exact absurd hf (by simpa using has a ha')
  · rcases List.mem_cons.mp ha' with rfl | ha'
    · exact le_rfl
    · exact ((List.pairwise_cons.mp hasc.2.1).1 a ha').2

/-- **Covering a rate is covering the point it needs.** -/
theorem covers_iff_needed (hg : Graded rate level l) :
    Covers rate level l v f ↔ ∃ b, needed rate l f = some b ∧ level b ≤ v := by
  constructor
  · rintro ⟨a, ha, hrate, hlevel⟩
    cases hb : needed rate l f with
    | none =>
      have hnone := List.find?_eq_none.mp hb a (List.mem_reverse.mpr ha)
      exact absurd hrate (by simpa using hnone)
    | some b => exact ⟨b, rfl, (needed_le hg ha hrate hb).trans hlevel⟩
  · rintro ⟨b, hb, hlevel⟩
    obtain ⟨hrate, as, bs, hsplit, -⟩ := List.find?_eq_some_iff_append.mp hb
    have hmem : b ∈ l := List.mem_reverse.mp (hsplit ▸ by simp)
    exact ⟨b, hmem, by simpa using hrate, hlevel⟩

end Ladder
