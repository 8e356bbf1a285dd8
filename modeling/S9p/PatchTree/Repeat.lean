/-
# Running the script again

`patch_tree.py` is run before every build, on a tree that it may have changed already, all of it or
as far as a run came that was stopped.

* `run_twice`: behind a run, the script changes no file.
* `run_resumed`: behind a run that was stopped, it makes the tree that the run would have made.

Both need that chip.c is as `ChipOk` says.  The other edits need nothing but their anchors: that
each puts its marker in and that no later one breaks it is decided from the texts of the script.
-/
import S9p.PatchTree.Script

namespace S9p.PatchTree

open Text Edits

/-! ## 1. What the texts of the script are like

These are questions about thirty-six edits and their texts, with no variable left in them.  They are
decided once, by the kernel. -/

/-- A step leaves its markers. -/
def Step.MarkersIn : Step → Prop
  | edits path _ guards =>
    path ≠ chipC ∧ (∀ g ∈ guards, PutsIn g.marker g.changes) ∧ guards.Pairwise Guard.SparedBy
  | chip => True

/-- A later step of the same file leaves them too; there is none for chip.c. -/
def Step.SparedBy : Step → Step → Prop
  | edits path _ guards, edits path' _ guards' =>
    path = path' → ∀ g ∈ guards, ∀ g' ∈ guards', g.SparedBy g'
  | s, s' => s.path ≠ s'.path

instance (s : Step) : Decidable s.MarkersIn :=
  match s with
  | .edits path _ guards =>
    inferInstanceAs (Decidable (path ≠ chipC ∧ (∀ g ∈ guards, PutsIn g.marker g.changes) ∧
      guards.Pairwise Guard.SparedBy))
  | .chip => inferInstanceAs (Decidable True)

instance (s s' : Step) : Decidable (s.SparedBy s') :=
  match s, s' with
  | .edits path _ guards, .edits path' _ guards' =>
    inferInstanceAs (Decidable (path = path' → ∀ g ∈ guards, ∀ g' ∈ guards', g.SparedBy g'))
  | .chip, _ => inferInstanceAs (Decidable (chipC ≠ _))
  | .edits path _ _, .chip => inferInstanceAs (Decidable (path ≠ chipC))

theorem script_markersIn : ∀ s ∈ script, s.MarkersIn := by decide +kernel

theorem script_sparedBy : script.Pairwise Step.SparedBy := by decide +kernel

/-- The text of i2c-exynos5.c has been read when it is used again. -/
theorem script_sourced : Sourced [] (script.map Step.edit) := by decide +kernel

/-! ## 2. Steps

Of a step with markers nothing is asked of the file.  Of the one without, what chip.c has to look
like is `ChipOk`, or that the edit has been made. -/

/-- What is good enough: chip.c is as the edit needs it, or as the edit leaves it. -/
def good (path : String) (t : Txt) : Prop := path = chipC → ChipOk t ∨ chip t = some t

section Steps

variable {s s' : Step} {guards guards' : List Guard}

theorem pairwise_keeps (h : guards.Pairwise Guard.SparedBy) :
    (guards.map Guard.guarded).Pairwise Guarded.Keeps :=
  h.map Guard.guarded fun _ _ => Guard.keeps

theorem all_settle (h : ∀ g ∈ guards, PutsIn g.marker g.changes) :
    ∀ g ∈ guards.map Guard.guarded, g.Settles := by
  intro g hg
  obtain ⟨g', hg', rfl⟩ := List.mem_map.mp hg
  exact Guard.settles (h g' hg')

/-- **A step settles its file.** -/
theorem Step.settles (h : s.MarkersIn) : Settles good s.edit := by
  cases s with
  | edits path fromCopy guards =>
    obtain ⟨hpath, hputs, hspared⟩ := h
    exact settles_edit (fun _ hchip => absurd hchip hpath) (all_settle hputs)
      (pairwise_keeps hspared)
  | chip =>
    intro t t' hgood hrun
    have hfixed : PatchTree.chip t' = some t' := by
      rcases hgood rfl with hok | hsame
      · exact chip_twice hok hrun
      · obtain rfl : t = t' := Option.some.inj (hsame.symm.trans hrun)
        exact hsame
    exact ⟨hfixed, fun _ => .inr hfixed⟩

/-- **And a later step leaves it so.** -/
theorem Step.keeps (h : s.MarkersIn) (hspared : s.SparedBy s') : Keeps s.edit s'.edit := by
  intro hpath
  cases s with
  | edits path fromCopy guards =>
    cases s' with
    | edits path' fromCopy' guards' =>
      obtain ⟨-, hputs, hpair⟩ := h
      have hcross : ∀ g ∈ guards.map Guard.guarded, ∀ g' ∈ guards'.map Guard.guarded,
          g.Keeps g' := by
        intro g hg g' hg'
        obtain ⟨k, hk, rfl⟩ := List.mem_map.mp hg
        obtain ⟨k', hk', rfl⟩ := List.mem_map.mp hg'
        exact Guard.keeps (hspared hpath k hk k' hk')
      have hkeeps : Keeps (Step.edits path fromCopy guards).edit
          (Step.edits path' fromCopy' guards').edit :=
        keeps_edit (all_settle hputs) (pairwise_keeps hpair) hcross
      exact hkeeps hpath
    | chip => exact absurd hpath hspared
  | chip =>
    cases s' with
    | edits path' fromCopy' guards' => exact absurd hpath hspared
    | chip => exact absurd hpath hspared

end Steps

theorem script_settles : ∀ e ∈ script.map Step.edit, Settles good e := by
  intro e he
  obtain ⟨s, hs, rfl⟩ := List.mem_map.mp he
  exact Step.settles (script_markersIn s hs)

theorem script_keeps : (script.map Step.edit).Pairwise Keeps := by
  refine List.pairwise_map.mpr (script_sparedBy.imp_of_mem ?_)
  intro s s' hs _ hspared
  exact Step.keeps (script_markersIn s hs) hspared

/-! ## 3. Runs

A run that fails has no result, so the theorems are about runs that come to their end.  Whether a
tree has all the anchors is for the tree to say. -/

/-- A run of `patch_tree.py`; `none` is a failed assertion. -/
def patchTree (tree : String → Option Txt) : Option (String → Option Txt) :=
  Edits.run (script.map Step.edit) tree

/-- A run that is stopped before its edit `n`. -/
def patchTreeStopped (n : Nat) (tree : String → Option Txt) : Option (String → Option Txt) :=
  Edits.run ((script.map Step.edit).take n) tree

section Runs

variable {tree tree' : String → Option Txt}

theorem patchTree_eq (tree : String → Option Txt) :
    patchTree tree = runFiles (script.map Step.edit) tree := run_eq script_sourced tree

theorem patchTreeStopped_eq (n : Nat) (tree : String → Option Txt) :
    patchTreeStopped n tree = runFiles ((script.map Step.edit).take n) tree :=
  run_eq (script_sourced.take n) tree

/-- **Behind a run, the script changes no file.** -/
theorem run_twice (hgood : Good good tree) (hrun : patchTree tree = some tree') :
    patchTree tree' = some tree' := by
  rw [patchTree_eq] at hrun ⊢
  exact run_again script_keeps script_settles hgood hrun

/-- **Behind a run that was stopped, the script makes the tree of one that was not.** -/
theorem run_resumed (hgood : Good good tree) (hrun : patchTree tree = some tree') (n : Nat) :
    ∃ mid, patchTreeStopped n tree = some mid ∧ patchTree mid = some tree' := by
  rw [patchTree_eq] at hrun
  obtain ⟨mid, hmid, hrest⟩ := resumes script_keeps script_settles hgood hrun n
  exact ⟨mid, by rw [patchTreeStopped_eq, hmid], by rw [patchTree_eq, hrest]⟩

/-- Runs that are all stopped, one after the other. -/
def attempts (ns : List Nat) (tree : String → Option Txt) : Option (String → Option Txt) :=
  ns.foldlM (fun tree n => patchTreeStopped n tree) tree

/-- **However often a run is stopped**, the one that is not makes the same tree. -/
theorem run_attempts (hgood : Good good tree) (hrun : patchTree tree = some tree')
    (ns : List Nat) : ∃ mid, attempts ns tree = some mid ∧ patchTree mid = some tree' := by
  induction ns generalizing tree with
  | nil => exact ⟨tree, rfl, hrun⟩
  | cons n ns ih =>
    obtain ⟨mid, hmid, hrest⟩ := run_resumed hgood hrun n
    have hgood' : Good good mid := by
      rw [patchTreeStopped_eq] at hmid
      exact hgood.run (fun e he => script_settles e (List.mem_of_mem_take he)) hmid
    obtain ⟨last, hlast, hdone⟩ := ih hgood' hrest
    refine ⟨last, ?_, hdone⟩
    rw [attempts, List.foldlM_cons, hmid]
    exact hlast

end Runs

/-! ## 4. A tree with only chip.c to do

For an example it is enough that all other edits have been made, which a text with all markers in it
says of any file. -/

/-- The edit of chip.c has none: it looks at the text itself. -/
def Step.markers : Step → List Txt
  | edits _ _ guards => guards.map Guard.marker
  | chip => []

/-- A text with every marker of the script. -/
def ready : Txt := (script.flatMap Step.markers).flatten

/-- A tree in which the other files have their edits. -/
def readyTree (ch : Txt) (path : String) : Option Txt := some (if path = chipC then ch else ready)

theorem readyTree_chip (ch : Txt) : readyTree ch chipC = some ch := congrArg some (if_pos rfl)

theorem readyTree_update (ch ch' : Txt) :
    Function.update (readyTree ch) chipC (some ch') = readyTree ch' := by
  funext path
  rcases eq_or_ne path chipC with rfl | hne
  · rw [Function.update_self, readyTree_chip]
  · rw [Function.update_of_ne hne, readyTree, readyTree, if_neg hne, if_neg hne]

theorem readyTree_fixed {s : Step} {ch : Txt} (hs : s ∈ script) (hpath : s.path ≠ chipC) :
    Fixed s.edit (readyTree ch) := by
  cases s with
  | edits path fromCopy guards =>
    refine ⟨ready, congrArg some (if_neg hpath), chain_of_markers ?_⟩
    intro g hg
    obtain ⟨g', hg', rfl⟩ := List.mem_map.mp hg
    have hmem : g'.marker ∈ script.flatMap Step.markers :=
      List.mem_flatMap.mpr ⟨_, hs, List.mem_map_of_mem hg'⟩
    exact List.infix_of_mem_flatten hmem
  | chip => exact absurd rfl hpath

/-- Where chip.c stands in the script. -/
theorem script_split : script = script.take 28 ++ Step.chip :: script.drop 29 := rfl

/-- **The run** is the edit of chip.c. -/
theorem patchTree_ready (ch : Txt) :
    patchTree (readyTree ch) = (chip ch).map readyTree := by
  have hpair := script_sparedBy
  rw [script_split, List.pairwise_append] at hpair
  obtain ⟨-, hpost, hpre⟩ := hpair
  have hfirst : ∀ ch, ∀ e ∈ (script.take 28).map Step.edit, Fixed e (readyTree ch) := by
    intro ch e he
    obtain ⟨s, hs, rfl⟩ := List.mem_map.mp he
    have hspared := hpre s hs Step.chip List.mem_cons_self
    refine readyTree_fixed (List.mem_of_mem_take hs) ?_
    cases s with
    | edits path fromCopy guards => exact hspared
    | chip => exact absurd rfl hspared
  have hlast : ∀ ch, ∀ e ∈ (script.drop 29).map Step.edit, Fixed e (readyTree ch) := by
    intro ch e he
    obtain ⟨s, hs, rfl⟩ := List.mem_map.mp he
    exact readyTree_fixed (List.mem_of_mem_drop hs)
      (Ne.symm ((List.pairwise_cons.mp hpost).1 s hs))
  rw [patchTree_eq, script_split, List.map_append, runFiles_append,
    runFiles_fixed (hfirst ch), Option.bind_some, List.map_cons, runFiles, List.foldlM_cons]
  cases hchip : chip ch with
  | none =>
    have hstep : stepFile (readyTree ch) Step.chip.edit = none := by
      simp only [stepFile, Step.edit, readyTree_chip, hchip, Option.bind_eq_bind, Option.bind_some,
        Option.bind_none]
    rw [hstep, Option.bind_eq_bind, Option.bind_none, Option.map_none]
  | some ch' =>
    have hstep : stepFile (readyTree ch) Step.chip.edit = some (readyTree ch') := by
      simp only [stepFile, Step.edit, readyTree_chip, hchip, Option.bind_eq_bind, Option.bind_some,
        readyTree_update]
    have hrest := runFiles_fixed (hlast ch')
    rw [runFiles] at hrest
    rw [hstep, Option.bind_eq_bind, Option.bind_some, hrest, Option.map_some]

/-! ## 5. The two results, and where they end

The condition on chip.c is what the single pass of `re.sub` needs.  Where it is not met, a second
run can find a case that the first one has made by taking another one out. -/

/-- chip.c with one case in either function, and a line before the first. -/
def chipText (line : List String) : Txt :=
  lines (["static u32 brcmf_chip_tcm_rambase(struct brcmf_chip_priv *ci)\n", "\x7b\n"] ++ line ++
    ["\tcase BRCM_CC_43751_CHIP_ID:\n", "\t\treturn 0x170000;\n", "\x7d\n",
      "bool brcmf_chip_sr_capable(struct brcmf_chip *pub)\n", "\x7b\n",
      "\tcase BRCM_CC_4359_CHIP_ID:\n", "\x7d\n"])

/-- **The script can be repeated**, whole or from any place where it was stopped. -/
theorem script_repeats {tree tree' : String → Option Txt}
    (hchip : ∀ ch, tree chipC = some ch → ChipOk ch) (hrun : patchTree tree = some tree') :
    patchTree tree' = some tree' ∧
      ∀ n, ∃ mid, patchTreeStopped n tree = some mid ∧ patchTree mid = some tree' := by
  have hgood : Good good tree := by
    intro path t ht hpath
    exact .inl (hchip t (hpath ▸ ht))
  exact ⟨run_twice hgood hrun, run_resumed hgood hrun⟩

theorem script_repeats_chip : ∃ tree', patchTree (readyTree (chipText [])) = some tree' ∧
    patchTree tree' = some tree' ∧ ∀ n, ∃ mid,
      patchTreeStopped n (readyTree (chipText [])) = some mid ∧ patchTree mid = some tree' := by
  have hok : ChipOk (chipText []) := by decide +kernel
  have hsome : (chip (chipText [])).isSome := by decide +kernel
  obtain ⟨ch, hch⟩ := Option.isSome_iff_exists.mp hsome
  have hrun : patchTree (readyTree (chipText [])) = some (readyTree ch) := by
    rw [patchTree_ready, hch, Option.map_some]
  refine ⟨readyTree ch, hrun, script_repeats ?_ hrun⟩
  intro t ht
  obtain rfl : chipText [] = t := Option.some.inj ((readyTree_chip _).symm.trans ht)
  exact hok

/-- A case in a case: taking the inner one out makes one of the outer one. -/
def nestedCase : Txt :=
  chipText ["\tcase BRCM_CC_43\tcase BRCM_CC_4361_CHIP_ID:\n", "61_CHIP_ID:\n"]

/-- **The next run takes out what the one before has made**, although `sr_capable` stands before the
last case, in the file and where the edit looks for it. -/
theorem nestedCase_again : ∃ tree tree',
    (∃ ch, tree chipC = some ch ∧ (∃ x y, rcut case4359 ch = some (x, y) ∧ srCapable <:+: x) ∧
      ∃ ch' x y, rambase ch = some ch' ∧ rcut case4359 ch' = some (x, y) ∧ srCapable <:+: x) ∧
    patchTree tree = some tree' ∧ patchTree tree' ≠ some tree' := by
  have hfile : ∃ r ∈ rcut case4359 nestedCase, srCapable <:+: r.1 := by decide +kernel
  have hthere : ∃ ch' ∈ rambase nestedCase, ∃ r ∈ rcut case4359 ch', srCapable <:+: r.1 := by
    decide +kernel
  have hsome : (chip nestedCase).isSome := by decide +kernel
  have hagain : (chip nestedCase).bind chip ≠ chip nestedCase := by decide +kernel
  obtain ⟨⟨x, y⟩, hlast, hsr⟩ := hfile
  obtain ⟨ch', hfirst, ⟨x', y'⟩, hlast', hsr'⟩ := hthere
  obtain ⟨ch, hch⟩ := Option.isSome_iff_exists.mp hsome
  refine ⟨readyTree nestedCase, readyTree ch, ⟨nestedCase, readyTree_chip _, ⟨x, y, hlast, hsr⟩,
    ch', x', y', hfirst, hlast', hsr'⟩, ?_, ?_⟩
  · rw [patchTree_ready, hch, Option.map_some]
  · intro hsame
    rw [patchTree_ready, Option.map_eq_some_iff] at hsame
    obtain ⟨ch'', hch'', htree⟩ := hsame
    have hsame : ch'' = ch := by
      have hat := congrFun htree chipC
      rw [readyTree_chip, readyTree_chip] at hat
      exact Option.some.inj hat
    rw [hch, Option.bind_some, hch'', hsame] at hagain
    exact hagain rfl

end S9p.PatchTree
