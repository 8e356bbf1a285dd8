/-
# A script of edits

A script goes through a list of edits, each of one file: it reads the file, or works on the copy
that it still has of it, and writes the result.  It may be stopped after any edit and started again
from the beginning, and then it has no copies.

`resumes` says when this is harmless: each edit leaves a text that it would not change again, and no
later edit of the same file undoes that.  For edits that are guarded by a marker, the marker has to
be put in by the edit and to be left alone by the later ones (`Guarded.Settles`, `Guarded.Keeps`).
-/
import Mathlib.Data.List.Basic
import Mathlib.Data.List.Infix
import Mathlib.Logic.Function.Basic

namespace Edits

variable {Path Txt : Type}

/-! ## 1. Scripts

An edit is a partial function on texts: one that cannot be made, such as one that does not find its
place, stops the script.  Files that no edit names are of no interest. -/

/-- An edit of one file.  It works on what the file holds, or on a copy of that read earlier. -/
structure Edit (Path Txt : Type) where
  path : Path
  fromCopy : Bool
  run : Txt → Option Txt

/-- The files, and the copies that a run has of some of them. -/
structure State (Path Txt : Type) where
  tree : Path → Option Txt
  copies : Path → Option Txt

/-- What an edit works on. -/
def Edit.source (e : Edit Path Txt) (s : State Path Txt) : Option Txt :=
  if e.fromCopy then s.copies e.path else s.tree e.path

/-- Where a copy is used, the script has read the file before. -/
def Sourced : List Path → List (Edit Path Txt) → Prop
  | _, [] => True
  | seen, e :: es => (e.fromCopy = true → e.path ∈ seen) ∧ Sourced (e.path :: seen) es

theorem Sourced.take {seen : List Path} {es : List (Edit Path Txt)} (h : Sourced seen es)
    (n : Nat) : Sourced seen (es.take n) := by
  induction es generalizing seen n with
  | nil =>
    rw [List.take_nil]
    trivial
  | cons e es ih =>
    cases n with
    | zero => exact trivial
    | succ n => exact ⟨h.1, ih h.2 n⟩

section Run

variable [DecidableEq Path]

instance decidableSourced :
    (seen : List Path) → (es : List (Edit Path Txt)) → Decidable (Sourced seen es)
  | _, [] => inferInstanceAs (Decidable True)
  | seen, e :: es =>
    have := decidableSourced (e.path :: seen) es
    inferInstanceAs (Decidable (_ ∧ _))

/-- One edit, with its write. -/
def step (s : State Path Txt) (e : Edit Path Txt) : Option (State Path Txt) := do
  let t ← e.source s
  let t' ← e.run t
  some
    { tree := Function.update s.tree e.path (some t')
      copies := Function.update s.copies e.path (some t') }

def exec (es : List (Edit Path Txt)) (s : State Path Txt) : Option (State Path Txt) :=
  es.foldlM step s

/-- A run from its start. -/
def run (es : List (Edit Path Txt)) (tree : Path → Option Txt) : Option (Path → Option Txt) :=
  (exec es ⟨tree, fun _ => none⟩).map State.tree

/-! ## 2. Without copies

A script keeps a text in a variable from one edit to the next, which is faster than reading it
again.  As nobody else writes the files, it makes no difference, and the copies can be left out of
all that follows. -/

/-- The same edit, always of the file. -/
def stepFile (tree : Path → Option Txt) (e : Edit Path Txt) : Option (Path → Option Txt) := do
  let t ← tree e.path
  let t' ← e.run t
  some (Function.update tree e.path (some t'))

def runFiles (es : List (Edit Path Txt)) (tree : Path → Option Txt) : Option (Path → Option Txt) :=
  es.foldlM stepFile tree

/-- The copies are what the files hold. -/
def State.Fresh (s : State Path Txt) (seen : List Path) : Prop :=
  ∀ p ∈ seen, s.copies p = s.tree p

theorem exec_eq {seen : List Path} {es : List (Edit Path Txt)} {s : State Path Txt}
    (hs : s.Fresh seen) (hes : Sourced seen es) :
    (exec es s).map State.tree = runFiles es s.tree := by
  induction es generalizing seen s with
  | nil => rfl
  | cons e es ih =>
    obtain ⟨hcopy, hes⟩ := hes
    have hsource : e.source s = s.tree e.path := by
      rw [Edit.source]
      split
      · exact hs _ (hcopy ‹_›)
      · rfl
    simp only [exec, runFiles, List.foldlM_cons, step, stepFile, hsource, Option.bind_eq_bind]
    cases s.tree e.path with
    | none => rfl
    | some t =>
      simp only [Option.bind_some]
      cases e.run t with
      | none => rfl
      | some t' =>
        refine ih (fun p hp => ?_) hes
        rcases eq_or_ne p e.path with rfl | hne
        · simp only [Function.update_self]
        · simp only [Function.update_of_ne hne]
          exact hs p ((List.mem_cons.mp hp).resolve_left hne)

/-- **Copies make no difference** to a script that reads before it uses one. -/
theorem run_eq {es : List (Edit Path Txt)} (hes : Sourced [] es) (tree : Path → Option Txt) :
    run es tree = runFiles es tree :=
  exec_eq (fun _ hp => absurd hp (List.not_mem_nil)) hes

/-! ## 3. Stopping and starting again

The argument has two halves.  After a run no edit of it would change its file, so a second run
passes over everything; and after a part of a run this is true of that part, so that a second run
comes to the place where the first one stopped. -/

/-- The edit would not change its file. -/
def Fixed (e : Edit Path Txt) (tree : Path → Option Txt) : Prop :=
  ∃ t, tree e.path = some t ∧ e.run t = some t

/-- A later edit leaves what an earlier one has settled.  It is asked of pairs in the order of the
script, and of edits of one file only. -/
def Keeps (e e' : Edit Path Txt) : Prop :=
  e.path = e'.path → ∀ t t', e.run t = some t → e'.run t = some t' → e.run t' = some t'

/-- The edit settles the texts that are good for its file, and leaves a good one. -/
def Settles (good : Path → Txt → Prop) (e : Edit Path Txt) : Prop :=
  ∀ t t', good e.path t → e.run t = some t' → e.run t' = some t' ∧ good e.path t'

/-- A property of the texts, which may differ from path to path. -/
def Good (good : Path → Txt → Prop) (tree : Path → Option Txt) : Prop :=
  ∀ p t, tree p = some t → good p t

variable {good : Path → Txt → Prop} {e : Edit Path Txt} {es : List (Edit Path Txt)}
  {tree tree' mid : Path → Option Txt}

theorem stepFile_some (h : stepFile tree e = some tree') :
    ∃ t t', tree e.path = some t ∧ e.run t = some t' ∧
      tree' = Function.update tree e.path (some t') := by
  simp only [stepFile, Option.bind_eq_bind, Option.bind_eq_some_iff, Option.some.injEq] at h
  obtain ⟨t, ht, t', ht', rfl⟩ := h
  exact ⟨t, t', ht, ht', rfl⟩

theorem runFiles_cons (h : runFiles (e :: es) tree = some tree') :
    ∃ mid, stepFile tree e = some mid ∧ runFiles es mid = some tree' := by
  rw [runFiles, List.foldlM_cons] at h
  exact Option.bind_eq_some_iff.mp h

theorem runFiles_append (es es' : List (Edit Path Txt)) (tree : Path → Option Txt) :
    runFiles (es ++ es') tree = (runFiles es tree).bind (runFiles es') := by
  rw [runFiles, List.foldlM_append]
  rfl

/-- Every later edit leaves it so. -/
theorem Fixed.kept (h : Fixed e tree) (hes : ∀ e' ∈ es, Keeps e e')
    (hrun : runFiles es tree = some tree') : Fixed e tree' := by
  induction es generalizing tree with
  | nil => exact Option.some.inj hrun ▸ h
  | cons e' es ih =>
    obtain ⟨mid, hstep, hrun⟩ := runFiles_cons hrun
    refine ih ?_ (fun e'' he'' => hes e'' (List.mem_cons_of_mem _ he'')) hrun
    obtain ⟨t', t'', ht', ht'', rfl⟩ := stepFile_some hstep
    obtain ⟨t, ht, hfixed⟩ := h
    by_cases hpath : e.path = e'.path
    · obtain rfl : t = t' := Option.some.inj (ht.symm.trans (hpath ▸ ht'))
      exact ⟨t'', by rw [hpath, Function.update_self],
        hes e' List.mem_cons_self hpath t t'' hfixed ht''⟩
    · exact ⟨t, by rw [Function.update_of_ne hpath, ht], hfixed⟩

/-- An edit leaves the texts good. -/
theorem Good.step (hsettles : Settles good e) (hgood : Good good tree)
    (hstep : stepFile tree e = some tree') : Good good tree' := by
  obtain ⟨t, t', ht, ht', rfl⟩ := stepFile_some hstep
  intro p s hs
  rcases eq_or_ne p e.path with rfl | hne
  · rw [Function.update_self] at hs
    exact Option.some.inj hs ▸ (hsettles t t' (hgood _ _ ht) ht').2
  · rw [Function.update_of_ne hne] at hs
    exact hgood p s hs

theorem Good.run (hsettles : ∀ e ∈ es, Settles good e) (hgood : Good good tree)
    (hrun : runFiles es tree = some tree') : Good good tree' := by
  induction es generalizing tree with
  | nil => exact Option.some.inj hrun ▸ hgood
  | cons e es ih =>
    obtain ⟨mid, hstep, hrun⟩ := runFiles_cons hrun
    exact ih (fun e' he' => hsettles e' (List.mem_cons_of_mem _ he'))
      (hgood.step (hsettles e List.mem_cons_self) hstep) hrun

/-- **After a run, no edit of it would change a file.** -/
theorem fixed_of_run (hkeeps : es.Pairwise Keeps) (hsettles : ∀ e ∈ es, Settles good e)
    (hgood : Good good tree) (hrun : runFiles es tree = some tree') : ∀ e ∈ es, Fixed e tree' := by
  induction es generalizing tree with
  | nil => exact fun e he => absurd he List.not_mem_nil
  | cons e es ih =>
    obtain ⟨hfirst, hrest⟩ := List.pairwise_cons.mp hkeeps
    obtain ⟨mid, hstep, hrun⟩ := runFiles_cons hrun
    have hgood' := hgood.step (hsettles e List.mem_cons_self) hstep
    intro e' he'
    rcases List.mem_cons.mp he' with rfl | he'
    · obtain ⟨t, t', ht, ht', rfl⟩ := stepFile_some hstep
      have hfixed := (hsettles e' List.mem_cons_self t t' (hgood _ _ ht) ht').1
      exact Fixed.kept ⟨t', Function.update_self .., hfixed⟩ hfirst hrun
    · exact ih hrest (fun e'' he'' => hsettles e'' (List.mem_cons_of_mem _ he'')) hgood' hrun e' he'

/-- A run in which nothing is left to do. -/
theorem runFiles_fixed (h : ∀ e ∈ es, Fixed e tree) : runFiles es tree = some tree := by
  induction es with
  | nil => rfl
  | cons e es ih =>
    obtain ⟨t, ht, hfixed⟩ := h e List.mem_cons_self
    have hstep : stepFile tree e = some tree := by
      have hsame : Function.update tree e.path (some t) = tree := ht ▸ Function.update_eq_self _ _
      simp only [stepFile, ht, hfixed, Option.bind_eq_bind, Option.bind_some, hsame]
    rw [runFiles, List.foldlM_cons, hstep]
    exact ih (fun e' he' => h e' (List.mem_cons_of_mem _ he'))

theorem run_again (hkeeps : es.Pairwise Keeps) (hsettles : ∀ e ∈ es, Settles good e)
    (hgood : Good good tree) (hrun : runFiles es tree = some tree') :
    runFiles es tree' = some tree' :=
  runFiles_fixed (fixed_of_run hkeeps hsettles hgood hrun)

/-- **A run that was stopped can be started again**: what it has done is passed over, and it goes on
from there.  The first `n` edits are those that had been made when the run was stopped.  The files
are then as a full run would leave them. -/
theorem resumes (hkeeps : es.Pairwise Keeps) (hsettles : ∀ e ∈ es, Settles good e)
    (hgood : Good good tree) (hrun : runFiles es tree = some tree') (n : Nat) :
    ∃ mid, runFiles (es.take n) tree = some mid ∧ runFiles es mid = some tree' := by
  have hsplit := hrun
  rw [← List.take_append_drop n es, runFiles_append] at hsplit
  obtain ⟨mid, hmid, hrest⟩ := Option.bind_eq_some_iff.mp hsplit
  have hfixed := fixed_of_run (hkeeps.sublist (List.take_sublist n es))
    (fun e he => hsettles e (List.mem_of_mem_take he)) hgood hmid
  refine ⟨mid, hmid, ?_⟩
  rw [← List.take_append_drop n es, runFiles_append, runFiles_fixed hfixed, Option.bind_some,
    hrest]

end Run

/-! ## 4. Guarded edits

This is the usual way to make an edit idempotent: look for a piece of what it puts in.  It goes
wrong if the edit does not put in what is looked for, or if a later edit of the same file takes it
out again. -/

section Guarded

variable {α : Type} [DecidableEq α]

/-- An edit that is made unless the text has its marker. -/
structure Guarded (α : Type) where
  marker : List α
  edit : List α → Option (List α)

/-- Nothing is done where the marker is already there. -/
def Guarded.run (g : Guarded α) (t : List α) : Option (List α) :=
  if g.marker <:+: t then some t else g.edit t

/-- Some of them, in one go. -/
def chain (gs : List (Guarded α)) (t : List α) : Option (List α) := gs.foldlM (fun t g => g.run t) t

/-- The edit puts its marker in. -/
def Guarded.Settles (g : Guarded α) : Prop := ∀ t t', g.edit t = some t' → g.marker <:+: t'

/-- The later edit leaves the marker. -/
def Guarded.Keeps (g g' : Guarded α) : Prop :=
  ∀ t t', g'.edit t = some t' → g.marker <:+: t → g.marker <:+: t'

variable {g : Guarded α} {gs gs' : List (Guarded α)} {t t' : List α}

theorem Guarded.run_of_marker (h : g.marker <:+: t) : g.run t = some t := if_pos h

theorem Guarded.marker_of_run (hg : g.Settles) (h : g.run t = some t') : g.marker <:+: t' := by
  rw [Guarded.run] at h
  split at h
  · exact Option.some.inj h ▸ ‹_›
  · exact hg t t' h

theorem Guarded.Keeps.run {g' : Guarded α} (h : g.Keeps g') (hrun : g'.run t = some t')
    (ht : g.marker <:+: t) : g.marker <:+: t' := by
  rw [Guarded.run] at hrun
  split at hrun
  · exact Option.some.inj hrun ▸ ht
  · exact h t t' hrun ht

theorem chain_kept (h : ∀ g' ∈ gs, g.Keeps g') (hrun : chain gs t = some t')
    (ht : g.marker <:+: t) : g.marker <:+: t' := by
  induction gs generalizing t with
  | nil => exact Option.some.inj hrun ▸ ht
  | cons g' gs ih =>
    rw [chain, List.foldlM_cons] at hrun
    obtain ⟨s, hs, hrun⟩ := Option.bind_eq_some_iff.mp hrun
    exact ih (fun g'' hg'' => h g'' (List.mem_cons_of_mem _ hg'')) hrun
      ((h g' List.mem_cons_self).run hs ht)

/-- **All markers are there** when the edits have been made. -/
theorem chain_markers (hsettles : ∀ g ∈ gs, g.Settles) (hkeeps : gs.Pairwise Guarded.Keeps)
    (hrun : chain gs t = some t') : ∀ g ∈ gs, g.marker <:+: t' := by
  induction gs generalizing t with
  | nil => exact fun g hg => absurd hg List.not_mem_nil
  | cons g gs ih =>
    obtain ⟨hfirst, hrest⟩ := List.pairwise_cons.mp hkeeps
    rw [chain, List.foldlM_cons] at hrun
    obtain ⟨s, hs, hlater⟩ := Option.bind_eq_some_iff.mp hrun
    intro g' hg'
    rcases List.mem_cons.mp hg' with rfl | hg'
    · exact chain_kept hfirst hlater (Guarded.marker_of_run (hsettles _ List.mem_cons_self) hs)
    · exact ih (fun g'' hg'' => hsettles g'' (List.mem_cons_of_mem _ hg'')) hrest hlater g' hg'

theorem chain_of_markers (h : ∀ g ∈ gs, g.marker <:+: t) : chain gs t = some t := by
  induction gs with
  | nil => rfl
  | cons g gs ih =>
    rw [chain, List.foldlM_cons, Guarded.run_of_marker (h g List.mem_cons_self)]
    exact ih (fun g' hg' => h g' (List.mem_cons_of_mem _ hg'))

variable {Path : Type} {good : Path → List α → Prop}

/-- The edits of one file, as an edit of a script. -/
def edit (path : Path) (gs : List (Guarded α)) (fromCopy : Bool) : Edit Path (List α) :=
  ⟨path, fromCopy, chain gs⟩

/-- **Such an edit settles**, where every text is good. -/
theorem settles_edit {path : Path} {fromCopy : Bool} (hgood : ∀ t, good path t)
    (hsettles : ∀ g ∈ gs, g.Settles) (hkeeps : gs.Pairwise Guarded.Keeps) :
    Settles good (edit path gs fromCopy) := fun _ _ _ hrun =>
  ⟨chain_of_markers (chain_markers hsettles hkeeps hrun), hgood _⟩

/-- **And a later one keeps it.** -/
theorem keeps_edit {path path' : Path} {fromCopy fromCopy' : Bool}
    (hsettles : ∀ g ∈ gs, g.Settles) (hkeeps : gs.Pairwise Guarded.Keeps)
    (hcross : ∀ g ∈ gs, ∀ g' ∈ gs', g.Keeps g') :
    Keeps (edit path gs fromCopy) (edit path' gs' fromCopy') := fun _ _ _ hfixed hrun =>
  chain_of_markers (fun g hg => chain_kept (hcross g hg) hrun
    (chain_markers hsettles hkeeps hfixed g hg))

end Guarded

end Edits
