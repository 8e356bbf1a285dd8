/-
# Register files

What straight-line code does to a file of registers is a list of updates, each of which clears some
bits of one register and sets others.  Seen from one register such a list is one update (`run_eq`):
its `plan`.  Of two lists the second leaves nothing of the first where it covers it
(`run_append_covered`).
-/
import Mathlib.Logic.Function.Basic

namespace Regs

variable {κ : Type} {w : Nat}

/-! ## 1. One update

Updates of one register form a monoid that acts on its values.  `andThen` is computed from the
masks, so a long list of them can be brought to a pair of words before anything is asked about it.
-/

/-- The bits in `clear` are cleared, then those in `set` are set. -/
@[ext] structure Upd (w : Nat) where
  clear : BitVec w
  set : BitVec w
  deriving DecidableEq

namespace Upd

variable {u u' x : Upd w} {v : BitVec w}

/-- The bits to be cleared go first. -/
def apply (u : Upd w) (v : BitVec w) : BitVec w := v &&& ~~~u.clear ||| u.set

def skip : Upd w := ⟨0#w, 0#w⟩

/-- A plain write. -/
def put (v : BitVec w) : Upd w := ⟨BitVec.allOnes w, v⟩

def setBits (b : BitVec w) : Upd w := ⟨0#w, b⟩

def clearBits (b : BitVec w) : Upd w := ⟨b, 0#w⟩

/-- Two updates in one. -/
def andThen (u u' : Upd w) : Upd w := ⟨u.clear ||| u'.clear, u.set &&& ~~~u'.clear ||| u'.set⟩

/-- All that `u` changes, `u'` decides. -/
def Covers (u' u : Upd w) : Prop := (u.clear ||| u.set) &&& ~~~(u'.clear ||| u'.set) = 0#w

instance : Decidable (Covers u' u) := inferInstanceAs (Decidable (_ = _))

@[simp] theorem skip_apply : skip.apply v = v := by simp [skip, apply]

@[simp] theorem put_apply {v x : BitVec w} : (put x).apply v = x := by simp [put, apply]

@[simp] theorem setBits_apply {v b : BitVec w} : (setBits b).apply v = v ||| b := by
  simp [setBits, apply]

@[simp] theorem clearBits_apply {v b : BitVec w} : (clearBits b).apply v = v &&& ~~~b := by
  simp [clearBits, apply]

theorem skip_andThen : skip.andThen u = u := by simp [skip, andThen]

theorem andThen_assoc : (u.andThen u').andThen x = u.andThen (u'.andThen x) := by
  refine Upd.ext (BitVec.or_assoc ..) (BitVec.eq_of_getLsbD_eq (fun i hi => ?_))
  simp only [andThen, BitVec.getLsbD_or, BitVec.getLsbD_and, BitVec.getLsbD_not, hi, decide_true,
    Bool.true_and]
  cases u.set.getLsbD i <;> cases u'.clear.getLsbD i <;> cases u'.set.getLsbD i <;>
    cases x.clear.getLsbD i <;> simp

theorem getLsbD_apply {i : Nat} (h : i < w) :
    (u.apply v).getLsbD i = ((v.getLsbD i && !u.clear.getLsbD i) || u.set.getLsbD i) := by
  simp [apply, h]

theorem andThen_apply : (u.andThen u').apply v = u'.apply (u.apply v) := by
  refine BitVec.eq_of_getLsbD_eq (fun i hi => ?_)
  simp only [getLsbD_apply hi]
  simp only [andThen, BitVec.getLsbD_or, BitVec.getLsbD_and, BitVec.getLsbD_not, hi, decide_true,
    Bool.true_and]
  cases u.clear.getLsbD i <;> cases u'.clear.getLsbD i <;> cases u.set.getLsbD i <;>
    cases u'.set.getLsbD i <;> simp

theorem covers_iff : u'.Covers u ↔ ∀ i < w, (u.clear.getLsbD i || u.set.getLsbD i) = true →
    (u'.clear.getLsbD i || u'.set.getLsbD i) = true := by
  constructor
  · intro h i hi hu
    have hbit := congrArg (fun x => x.getLsbD i) h
    simp only [BitVec.getLsbD_and, BitVec.getLsbD_or, BitVec.getLsbD_not, hi, decide_true,
      Bool.true_and, BitVec.getLsbD_zero, hu] at hbit
    revert hbit
    cases u'.clear.getLsbD i <;> cases u'.set.getLsbD i <;> simp
  · intro h
    refine BitVec.eq_of_getLsbD_eq (fun i hi => ?_)
    simp only [BitVec.getLsbD_and, BitVec.getLsbD_or, BitVec.getLsbD_not, hi, decide_true,
      Bool.true_and, BitVec.getLsbD_zero]
    cases hu : (u.clear.getLsbD i || u.set.getLsbD i) with
    | false => rfl
    | true => rw [h i hi hu]; rfl

theorem covers_skip : u'.Covers skip := by simp [Covers, skip]

theorem covers_refl : u.Covers u := covers_iff.mpr (fun _ _ h => h)

theorem Covers.andThen (h : u'.Covers u) (hx : u'.Covers x) : u'.Covers (u.andThen x) := by
  rw [covers_iff] at *
  intro i hi hbit
  simp only [Upd.andThen, BitVec.getLsbD_or, BitVec.getLsbD_and, BitVec.getLsbD_not, hi,
    decide_true, Bool.true_and] at hbit
  by_cases hu : (u.clear.getLsbD i || u.set.getLsbD i) = true
  · exact h i hi hu
  · refine hx i hi ?_
    revert hbit hu
    cases u.clear.getLsbD i <;> cases u.set.getLsbD i <;> simp

theorem Covers.left (h : u'.Covers u) : (u'.andThen x).Covers u := by
  rw [covers_iff] at *
  intro i hi hu
  have hbit := h i hi hu
  simp only [Upd.andThen, BitVec.getLsbD_or, BitVec.getLsbD_and, BitVec.getLsbD_not, hi,
    decide_true, Bool.true_and]
  revert hbit
  cases u'.clear.getLsbD i <;> cases u'.set.getLsbD i <;> cases x.clear.getLsbD i <;> simp

theorem Covers.right (h : u'.Covers u) : (x.andThen u').Covers u := by
  rw [covers_iff] at *
  intro i hi hu
  have hbit := h i hi hu
  simp only [Upd.andThen, BitVec.getLsbD_or, BitVec.getLsbD_and, BitVec.getLsbD_not, hi,
    decide_true, Bool.true_and]
  revert hbit
  cases u'.clear.getLsbD i <;> cases u'.set.getLsbD i <;> simp

/-- **What is covered** leaves no trace. -/
theorem apply_covered (h : u'.Covers u) : u'.apply (u.apply v) = u'.apply v := by
  refine BitVec.eq_of_getLsbD_eq (fun i hi => ?_)
  have hbit := covers_iff.mp h i hi
  simp only [getLsbD_apply hi]
  revert hbit
  cases u.clear.getLsbD i <;> cases u'.clear.getLsbD i <;> cases u.set.getLsbD i <;>
    cases u'.set.getLsbD i <;> simp

/-- Words that agree outside a mask still do. -/
theorem apply_congr {a b m : BitVec w} (h : a &&& ~~~m = b &&& ~~~m) :
    u.apply a &&& ~~~m = u.apply b &&& ~~~m := by
  refine BitVec.eq_of_getLsbD_eq (fun i hi => ?_)
  have hbit := congrArg (fun x => x.getLsbD i) h
  simp only [BitVec.getLsbD_and, BitVec.getLsbD_not, hi, decide_true, Bool.true_and] at hbit
  simp only [BitVec.getLsbD_and, BitVec.getLsbD_not, hi, decide_true, Bool.true_and,
    getLsbD_apply hi]
  revert hbit
  cases m.getLsbD i <;> cases u.clear.getLsbD i <;> cases u.set.getLsbD i <;> simp

/-- Bits that the update decides are as it sets them. -/
theorem apply_and {m : BitVec w} (h : m &&& ~~~(u.clear ||| u.set) = 0#w) :
    u.apply v &&& m = u.set &&& m := by
  refine BitVec.eq_of_getLsbD_eq (fun i hi => ?_)
  have hbit := congrArg (fun x => x.getLsbD i) h
  simp only [BitVec.getLsbD_and, BitVec.getLsbD_or, BitVec.getLsbD_not, hi, decide_true,
    Bool.true_and, BitVec.getLsbD_zero] at hbit
  rw [BitVec.getLsbD_and, BitVec.getLsbD_and, getLsbD_apply hi]
  revert hbit
  cases u.clear.getLsbD i <;> cases u.set.getLsbD i <;> cases m.getLsbD i <;> simp

end Upd

/-! ## 2. Lists of updates

`plan` is computed without a register file, which is why questions about a fixed list can be put to
`decide`. -/

variable [DecidableEq κ] {l l' m : List (κ × Upd w)} {r : κ → BitVec w} {k : κ}

/-- One update after the other. -/
def run (l : List (κ × Upd w)) (r : κ → BitVec w) : κ → BitVec w :=
  l.foldl (fun r e => Function.update r e.1 (e.2.apply (r e.1))) r

/-- What becomes of the register `k`.  It is the identity for a register that the list does not
name. -/
def plan (l : List (κ × Upd w)) (k : κ) : Upd w :=
  l.foldl (fun u e => if e.1 = k then u.andThen e.2 else u) .skip

theorem run_append : run (l ++ l') r = run l' (run l r) := List.foldl_append ..

theorem foldl_plan (u : Upd w) :
    l.foldl (fun u e => if e.1 = k then u.andThen e.2 else u) u = u.andThen (plan l k) := by
  unfold plan
  induction l generalizing u with
  | nil => simp [Upd.skip, Upd.andThen]
  | cons e l ih =>
    rw [List.foldl_cons, List.foldl_cons, ih, ih (if e.1 = k then _ else _)]
    split
    · rw [Upd.skip_andThen, Upd.andThen_assoc]
    · rw [Upd.skip_andThen]

theorem plan_append : plan (l ++ l') k = (plan l k).andThen (plan l' k) := by
  rw [plan, List.foldl_append, foldl_plan]
  rfl

/-- **From one register**, the list is one update. -/
theorem run_eq : run l r k = (plan l k).apply (r k) := by
  induction l generalizing r with
  | nil => exact Upd.skip_apply.symm
  | cons e l ih =>
    have hcons : plan (e :: l) k = (if e.1 = k then e.2 else .skip).andThen (plan l k) := by
      rw [plan, List.foldl_cons, foldl_plan, Upd.skip_andThen]
    rw [hcons, Upd.andThen_apply]
    refine ih.trans (congrArg _ ?_)
    dsimp only
    split
    · rename_i hk
      subst hk
      exact Function.update_self ..
    · rename_i hk
      rw [Function.update_of_ne (Ne.symm hk), Upd.skip_apply]

theorem plan_other (h : ∀ e ∈ l, e.1 ≠ k) : plan l k = .skip := by
  unfold plan
  induction l with
  | nil => rfl
  | cons e l ih =>
    rw [List.foldl_cons, if_neg (h e (List.mem_cons_self ..))]
    exact ih (fun e' he' => h e' (List.mem_cons_of_mem _ he'))

/-- A register that is not in the list stays. -/
theorem run_other (h : ∀ e ∈ l, e.1 ≠ k) : run l r k = r k := by
  rw [run_eq, plan_other h, Upd.skip_apply]

theorem run_one {u : Upd w} : run [(k, u)] r k = u.apply (r k) := Function.update_self ..

theorem run_one_other {u : Upd w} {k' : κ} (h : k' ≠ k) : run [(k, u)] r k' = r k' :=
  Function.update_of_ne h ..

/-- **Lists that share no register** can be run in either order. -/
theorem run_comm (h : ∀ e ∈ l, ∀ e' ∈ l', e.1 ≠ e'.1) : run (l ++ l') r = run (l' ++ l) r := by
  funext k
  rw [run_append, run_append]
  by_cases hk : ∃ e ∈ l, e.1 = k
  · obtain ⟨e, he, rfl⟩ := hk
    have hother : ∀ r' : κ → BitVec w, run l' r' e.1 = r' e.1 :=
      fun r' => run_other (fun e' he' => (h e he e' he').symm)
    rw [hother, run_eq, run_eq, hother]
  · have hother : ∀ r' : κ → BitVec w, run l r' k = r' k :=
      fun r' => run_other (fun e he hek => hk ⟨e, he, hek⟩)
    rw [hother (run l' r), run_eq, hother, ← run_eq]

/-! ## 3. Lists that leave nothing of others

If a first list has been run by mistake, or at an earlier time, a second one that covers it makes
the registers what they would have been without it.  Bits that neither changes are kept by both. -/

/-- All that `l` changes, `l'` decides. -/
def Covers (l' l : List (κ × Upd w)) : Prop := ∀ k, (plan l' k).Covers (plan l k)

/-- It is enough to look at the registers of `l`. -/
theorem covers_of_mem (h : ∀ e ∈ l, (plan l' e.1).Covers (plan l e.1)) : Covers l' l := by
  intro k
  by_cases hk : ∃ e ∈ l, e.1 = k
  · obtain ⟨e, he, rfl⟩ := hk
    exact h e he
  · rw [plan_other (fun e he hek => hk ⟨e, he, hek⟩)]
    exact Upd.covers_skip

theorem covers_nil : Covers l' ([] : List (κ × Upd w)) := fun _ => Upd.covers_skip

theorem covers_refl : Covers l l := fun _ => Upd.covers_refl

theorem Covers.append (h : Covers m l) (h' : Covers m l') : Covers m (l ++ l') := by
  intro k
  rw [plan_append]
  exact (h k).andThen (h' k)

theorem Covers.left (h : Covers m l) : Covers (m ++ l') l := by
  intro k
  rw [plan_append]
  exact (h k).left

theorem Covers.right (h : Covers m l) : Covers (l' ++ m) l := by
  intro k
  rw [plan_append]
  exact (h k).right

/-- **Of two lists** the second leaves nothing of the first where it covers it. -/
theorem run_append_covered (h : Covers l' l) : run (l ++ l') r = run l' r := by
  funext k
  rw [run_append, run_eq, run_eq, run_eq, Upd.apply_covered (h k)]

end Regs
