/-
# Since

`Since holds start l`: somewhere in the history `l` there is a `start`, and everything after it
`holds`.  It is decided from the end of the history (`since_concat`), which is what a proof by
induction on a run needs; nothing else is said about it here.
-/
import Mathlib.Data.List.Basic

variable {α : Type} {holds : α → Prop} {start start' : List α → α → Prop} {l : List α}

/-- Since some event that is a `start` after what came before it, everything `holds`. -/
def Since (holds : α → Prop) (start : List α → α → Prop) (l : List α) : Prop :=
  ∃ before x rest, l = before ++ x :: rest ∧ start before x ∧ ∀ y ∈ rest, holds y

theorem since_nil : ¬ Since holds start [] := by
  rintro ⟨before, x, rest, h, -⟩
  exact absurd h (by simp)

/-- **The last event decides**: it is the start, or it holds and there was one. -/
theorem since_concat (l : List α) (x : α) :
    Since holds start (l ++ [x]) ↔ start l x ∨ holds x ∧ Since holds start l := by
  constructor
  · rintro ⟨before, y, rest, hl, hstart, hrest⟩
    rcases List.eq_nil_or_concat rest with rfl | ⟨rest, z, rfl⟩
    · obtain ⟨rfl, hlast⟩ := List.append_inj' hl rfl
      obtain rfl := List.singleton_inj.mp hlast
      exact .inl hstart
    · rw [List.concat_eq_append, ← List.cons_append, ← List.append_assoc] at hl
      obtain ⟨rfl, hlast⟩ := List.append_inj' hl rfl
      obtain rfl := List.singleton_inj.mp hlast
      refine .inr ⟨hrest x (by simp), before, y, rest, rfl, hstart, fun z hz => ?_⟩
      exact hrest z (by simp [hz])
  · rintro (hstart | ⟨hx, before, y, rest, rfl, hstart, hrest⟩)
    · exact ⟨l, x, [], rfl, hstart, by simp⟩
    · refine ⟨before, y, rest ++ [x], by simp, hstart, fun z hz => ?_⟩
      rcases List.mem_append.mp hz with hz | hz
      · exact hrest z hz
      · rwa [List.mem_singleton.mp hz]
