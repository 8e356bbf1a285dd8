/-
# Commands that are carried out in order, some of them late

A server carries out commands in order.  A command is acknowledged once it has been carried out; one
that is reported as failed may still be queued, and then it is carried out at some later moment, but
before any command acknowledged later.  What has been done is kept as a list.

`submitAll` gives the commands of a sequence one after the other, up to the first that fails.  A
client that does nothing else leaves `Pieces` of its sequence: `pieces_submitAll`, and, since what
has been done is the beginning of what will be done, `Pieces.of_prefix`.
-/
import Mathlib.Data.List.Basic

/-- The commands that have been carried out, and those that are still to come, in the order in which
they were given. -/
structure LateQueue (Op : Type) where
  done : List Op
  pending : List Op

namespace LateQueue

variable {Op : Type} {q : LateQueue Op}

/-- How a command ends: acknowledged, or failed with a code and possibly queued. -/
inductive Outcome where
  | acked
  | failed (ret : Int) (hret : ret ≠ 0) (queued : Bool)

/-- All that has been done or will be. -/
def told (q : LateQueue Op) : List Op := q.done ++ q.pending

def submit (q : LateQueue Op) (op : Op) : Outcome → LateQueue Op × Int
  | .acked => (⟨q.told ++ [op], []⟩, 0)
  | .failed ret _ queued => (⟨q.done, if queued then q.pending ++ [op] else q.pending⟩, ret)

/-- The oldest queued command is carried out. -/
def land (q : LateQueue Op) : LateQueue Op :=
  match q.pending with
  | [] => q
  | op :: ops => ⟨q.done ++ [op], ops⟩

theorem land_of_nil (h : q.pending = []) : q.land = q := by
  rw [land, h]

@[simp] theorem told_land (q : LateQueue Op) : q.land.told = q.told := by
  unfold land
  split
  · rfl
  · rename_i op ops hpending
    simp [told, hpending]

def submitAll (q : LateQueue Op) : List (Op × Outcome) → LateQueue Op × Int
  | [] => (q, 0)
  | (op, o) :: rest =>
    let (q, ret) := q.submit op o
    if ret ≠ 0 then (q, ret) else q.submitAll rest

theorem submitAll_cons_acked (q : LateQueue Op) (op : Op) (rest : List (Op × Outcome)) :
    q.submitAll ((op, .acked) :: rest) = submitAll ⟨q.told ++ [op], []⟩ rest := by
  simp [submitAll, submit]

theorem submitAll_cons_failed (q : LateQueue Op) (op : Op) {ret : Int} (hret : ret ≠ 0)
    (queued : Bool) (rest : List (Op × Outcome)) :
    q.submitAll ((op, .failed ret hret queued) :: rest) =
      (⟨q.done, if queued then q.pending ++ [op] else q.pending⟩, ret) := by
  simp [submitAll, submit, hret]

/-- **A sequence that fails leaves a beginning of it.** -/
theorem told_submitAll (q : LateQueue Op) (ops : List (Op × Outcome)) :
    ∃ p, p <+: ops.map Prod.fst ∧ (q.submitAll ops).1.told = q.told ++ p := by
  induction ops generalizing q with
  | nil => exact ⟨[], List.nil_prefix, (List.append_nil _).symm⟩
  | cons x rest ih =>
    obtain ⟨op, o⟩ := x
    cases o with
    | acked =>
      obtain ⟨p, hp, htold⟩ := ih ⟨q.told ++ [op], []⟩
      refine ⟨op :: p, (List.prefix_cons_inj op).mpr hp, ?_⟩
      rw [submitAll_cons_acked, htold]
      simp [told]
    | failed ret hret queued =>
      rw [submitAll_cons_failed]
      cases queued with
      | false => exact ⟨[], List.nil_prefix, (List.append_nil _).symm⟩
      | true => exact ⟨[op], ⟨rest.map Prod.fst, rfl⟩, by simp [told]⟩

/-- **One that succeeds leaves all of it**, and nothing queued. -/
theorem submitAll_acked {ops : List (Op × Outcome)} (hne : ops ≠ [])
    (hret : (q.submitAll ops).2 = 0) :
    (q.submitAll ops).1 = ⟨q.told ++ ops.map Prod.fst, []⟩ := by
  induction ops generalizing q with
  | nil => exact absurd rfl hne
  | cons x rest ih =>
    obtain ⟨op, o⟩ := x
    cases o with
    | acked =>
      rw [submitAll_cons_acked] at hret ⊢
      cases rest with
      | nil => rfl
      | cons y rest =>
        rw [ih (List.cons_ne_nil _ _) hret]
        simp [told]
    | failed ret hne' queued =>
      rw [submitAll_cons_failed] at hret
      exact absurd hret hne'

/-! ## Pieces of a sequence

A sequence that is given again after a failure starts from its beginning.  What has been done is
then a row of beginnings, of which only the last commands that were given can be missing. -/

/-- The list is put together from beginnings of the sequence. -/
inductive Pieces (ops : List Op) : List Op → Prop where
  | nil : Pieces ops []
  | piece {l p : List Op} (hl : Pieces ops l) (hp : p <+: ops) : Pieces ops (l ++ p)

variable {ops l : List Op}

/-- **Cut off anywhere**, they are pieces still. -/
theorem Pieces.of_prefix (h : Pieces ops l) {l' : List Op} (hl' : l' <+: l) : Pieces ops l' := by
  induction h generalizing l' with
  | nil =>
    rw [List.prefix_nil.mp hl']
    exact .nil
  | @piece l p hl hp ih =>
    rcases List.prefix_or_prefix_of_prefix hl' (List.prefix_append l p) with hshort | ⟨r, rfl⟩
    · exact ih hshort
    · exact .piece hl (((List.prefix_append_right_inj l).mp hl').trans hp)

/-- The last piece that is not empty. -/
theorem Pieces.last (h : Pieces ops l) (hne : l ≠ []) :
    ∃ l' p, l = l' ++ p ∧ p <+: ops ∧ p ≠ [] := by
  induction h with
  | nil => exact absurd rfl hne
  | @piece l p hl hp ih =>
    rcases eq_or_ne p [] with rfl | hp'
    · rw [List.append_nil] at hne ⊢
      exact ih hne
    · exact ⟨l, p, rfl, hp, hp'⟩

theorem pieces_submitAll {outcomes : List (Op × Outcome)} (hops : outcomes.map Prod.fst = ops)
    (h : Pieces ops q.told) : Pieces ops (q.submitAll outcomes).1.told := by
  obtain ⟨p, hp, htold⟩ := told_submitAll q outcomes
  rw [htold]
  exact .piece h (hops ▸ hp)

theorem Pieces.done (h : Pieces ops q.told) : Pieces ops q.done :=
  h.of_prefix (List.prefix_append _ _)

end LateQueue
