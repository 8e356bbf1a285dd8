/-
# A machine that answers each input

`step` takes a state and an input to a state and an output.  `Machine.after` is the state that some
inputs leave, `Machine.outputs` is what has been put out on the way, one output for each input.  A
run is taken apart at its end (`outputs_concat`), which is what an induction on it needs, or read at
one place (`outputs_getElem?`); `after_holds` is the run lemma.

It is used where a function of the program is called again and again with state that is kept between
two calls, and where nothing can happen inside a call.
-/
import Mathlib.Data.List.Basic
import Mathlib.Data.List.Induction

namespace Machine

variable {σ ι ω : Type} {step : σ → ι → σ × ω} {s : σ} {is js : List ι} {i : ι}

def after (step : σ → ι → σ × ω) (s : σ) (is : List ι) : σ := is.foldl (fun s i => (step s i).1) s

def outputs (step : σ → ι → σ × ω) : σ → List ι → List ω
  | _, [] => []
  | s, i :: is => (step s i).2 :: outputs step (step s i).1 is

@[simp] theorem after_nil : after step s [] = s := rfl

theorem after_concat : after step s (is ++ [i]) = (step (after step s is) i).1 := by
  rw [after, List.foldl_append, List.foldl_cons, List.foldl_nil, ← after]

/-- **The run lemma**: what holds at the start and is kept by each step holds behind the run. -/
theorem after_holds {Inv : σ → Prop} (hstart : Inv s) (hstep : ∀ s i, Inv s → Inv (step s i).1) :
    Inv (after step s is) := by
  induction is using List.reverseRecOn with
  | nil => exact hstart
  | append_singleton is i ih =>
    rw [after_concat]
    exact hstep _ i ih

theorem outputs_append :
    outputs step s (is ++ js) = outputs step s is ++ outputs step (after step s is) js := by
  induction is generalizing s with
  | nil => rfl
  | cons i is ih =>
    rw [List.cons_append, outputs, ih]
    rfl

theorem outputs_concat :
    outputs step s (is ++ [i]) = outputs step s is ++ [(step (after step s is) i).2] :=
  outputs_append

/-- Each input has its output. -/
theorem outputs_getElem? (n : Nat) :
    (outputs step s is)[n]? = is[n]?.map (fun i => (step (after step s (is.take n)) i).2) := by
  induction is generalizing s n with
  | nil => rfl
  | cons i is ih =>
    cases n with
    | zero => rfl
    | succ n =>
      rw [outputs, List.getElem?_cons_succ, List.getElem?_cons_succ, ih]
      rfl

theorem outputs_take (n : Nat) : (outputs step s is).take n = outputs step s (is.take n) := by
  induction n generalizing s is with
  | zero => rfl
  | succ n ih =>
    cases is with
    | nil => rfl
    | cons i is => rw [outputs, List.take_succ_cons, List.take_succ_cons, outputs, ih]

/-- Outputs that tell their input. -/
theorem map_outputs {f : ω → ι} (h : ∀ s i, f (step s i).2 = i) :
    (outputs step s is).map f = is := by
  induction is generalizing s with
  | nil => rfl
  | cons i is ih => rw [outputs, List.map_cons, h, ih]

end Machine
