/-
# A register whose failed writes may land late

A register behind a server that executes writes in order.  A write is acknowledged, or it is
reported as failed; a failed write may still be queued, and then it takes effect at some later
moment, but before any later acknowledged write does.

`LateReg.All P` says that `P` holds of the value and of every value still on its way.  It is
what a writer can keep up without ever knowing which of its failed writes have landed: a
landing write keeps it, and so does every write of a value with `P`.
-/

/-- The value of the register, and the failed writes that have yet to land, oldest first. -/
structure LateReg (α : Type) where
  value : α
  pending : List α
  deriving DecidableEq

namespace LateReg

variable {α : Type} {r r' : LateReg α} {v : α} {P Q : α → Prop}

/-- How a write ends: acknowledged, or failed with code `ret` and possibly queued. -/
inductive Outcome where
  | acked
  | failed (ret : Int) (queued : Bool)
  deriving DecidableEq

/-- What the writer sees. -/
def Outcome.ret : Outcome → Int
  | .acked => 0
  | .failed ret _ => ret

/-- A write reported as failed is queued all the same. -/
def Outcome.late : Outcome → Bool
  | .acked => false
  | .failed _ queued => queued

/-- The oldest queued write lands. -/
def land (r : LateReg α) : Option (LateReg α) :=
  match r.pending with
  | [] => none
  | v :: vs => some ⟨v, vs⟩

/-- A write.  It is acknowledged only once nothing older is queued, and a failure is never
reported as success. -/
def write (r : LateReg α) (v : α) : Outcome → Option (LateReg α)
  | .acked => if r.pending = [] then some ⟨v, []⟩ else none
  | .failed ret queued =>
      if ret = 0 then none
      else some { r with pending := if queued then r.pending ++ [v] else r.pending }

/-- `P` holds of the value, now and whatever lands. -/
def All (P : α → Prop) (r : LateReg α) : Prop := ∀ v ∈ r.value :: r.pending, P v

theorem All.value (h : r.All P) : P r.value := h _ (by simp)

theorem All.mono (h : r.All P) (hPQ : ∀ v, P v → Q v) : r.All Q := fun v hv => hPQ v (h v hv)

theorem All.land (h : r.All P) (hl : r.land = some r') : r'.All P := by
  unfold LateReg.land at hl
  split at hl
  · exact absurd hl (by simp)
  · rename_i v vs hpending
    simp only [Option.some.injEq] at hl
    subst hl
    intro u hu
    exact h u (List.mem_cons_of_mem _ (hpending ▸ hu))

/-- After an acknowledged write only its value counts. -/
theorem all_acked (hv : P v) (hw : r.write v .acked = some r') : r'.All P := by
  simp only [write] at hw
  split at hw
  · simp only [Option.some.injEq] at hw
    subst hw
    intro u hu
    rw [List.mem_singleton.mp hu]
    exact hv
  · exact absurd hw (by simp)

/-- A write of a good value keeps all of them good, whatever becomes of it. -/
theorem All.write {o : Outcome} (h : r.All P) (hv : P v) (hw : r.write v o = some r') :
    r'.All P := by
  cases o with
  | acked => exact all_acked hv hw
  | failed ret queued =>
    simp only [LateReg.write] at hw
    split at hw
    · exact absurd hw (by simp)
    · simp only [Option.some.injEq] at hw
      subst hw
      intro u hu
      cases queued with
      | false => exact h u hu
      | true =>
        rcases List.mem_cons.mp hu with rfl | hu
        · exact h.value
        · rcases List.mem_append.mp hu with hu | hu
          · exact h u (List.mem_cons_of_mem _ hu)
          · rw [List.mem_singleton.mp hu]
            exact hv

/-- A failed write that is not queued does nothing. -/
theorem write_of_not_late {o : Outcome} (hw : r.write v o = some r') (hret : o.ret ≠ 0)
    (hlate : o.late = false) : r' = r := by
  cases o with
  | acked => exact absurd rfl hret
  | failed ret queued =>
    simp only [Outcome.ret] at hret
    simp only [Outcome.late] at hlate
    simpa [write, hret, hlate] using hw.symm

/-- A write that reports success is an acknowledged one. -/
theorem acked_of_ret {o : Outcome} (hw : r.write v o = some r') (hret : o.ret = 0) :
    o = .acked := by
  cases o with
  | acked => rfl
  | failed ret queued =>
    simp only [Outcome.ret] at hret
    simp [write, hret] at hw

end LateReg
