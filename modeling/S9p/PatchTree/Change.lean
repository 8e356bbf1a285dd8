/-
# The changes the script makes

An edit of the script looks for its marker and, without one, makes a change or a few: a string is
replaced that has to be there, or has to be there once; a text is put behind the only line with a
string in it, before the first occurrence of one, or at the end.

Whether a change leaves a string where it is can be read off the change (`Change.Spares`,
`Change.run_spares`), and so can what it puts in (`Change.Puts`, `Change.run_puts`): both are
decided by evaluation for the script as it stands.
-/
import S9p.Lib.Edits
import S9p.PatchTree.Chip

namespace S9p.PatchTree

open Text Edits

/-! ## 1. Lines

`splitlines` knows more line ends than the line feed, and a text may end without one.  Both are
kept, since the edits that look for a line depend on them. -/

/-- Where `splitlines` ends a line; `read_text` leaves no carriage return. -/
def lineEnds : List Char :=
  ['\n', '\x0b', '\x0c', '\x1c', '\x1d', '\x1e', '\u0085', '\u2028', '\u2029']

/-- `s.splitlines(keepends=True)`. -/
def splitlines : Txt → List Txt
  | [] => []
  | c :: cs =>
    if c ∈ lineEnds then [c] :: splitlines cs
    else
      match splitlines cs with
      | [] => [[c]]
      | l :: ls => (c :: l) :: ls

/-- The line with the string in it, if there is one and only one. -/
def onlyLine (anchor s : Txt) : Option Txt :=
  match (splitlines s).filter (anchor <:+: ·) with
  | [line] => some line
  | _ => none

/-- A line ends where it ends, or it is the last. -/
theorem splitlines_ends {s l : Txt} (h : l ∈ splitlines s) :
    (∃ k c, l = k ++ [c] ∧ c ∈ lineEnds) ∨ l ≠ [] ∧ ∀ c ∈ l, c ∉ lineEnds := by
  induction s generalizing l with
  | nil => exact absurd h (List.not_mem_nil)
  | cons c cs ih =>
    rw [splitlines] at h
    split at h
    · rcases List.mem_cons.mp h with rfl | h
      · exact .inl ⟨[], c, rfl, ‹_›⟩
      · exact ih h
    · rename_i hc
      cases hrest : splitlines cs with
      | nil =>
        rw [hrest] at h
        obtain rfl := List.mem_singleton.mp h
        exact .inr ⟨by simp, by simpa using hc⟩
      | cons l' ls =>
        rw [hrest] at h
        rcases List.mem_cons.mp h with rfl | h
        · rcases ih (hrest ▸ List.mem_cons_self) with ⟨k, d, rfl, hd⟩ | ⟨-, hl'⟩
          · exact .inl ⟨c :: k, d, rfl, hd⟩
          · refine .inr ⟨by simp, ?_⟩
            intro d hd
            rcases List.mem_cons.mp hd with rfl | hd
            · exact hc
            · exact hl' d hd
        · exact ih (hrest ▸ List.mem_cons_of_mem _ h)

/-- What the text begins with begins its first line, if no line ends in it. -/
theorem prefix_splitlines {s k : Txt} (hne : k ≠ []) (hk : ∀ c ∈ k, c ∉ lineEnds) (h : k <+: s) :
    ∃ l ls, splitlines s = l :: ls ∧ k <+: l := by
  induction k generalizing s with
  | nil => exact absurd rfl hne
  | cons c k ih =>
    obtain ⟨y, rfl⟩ := h
    have hc : c ∉ lineEnds := hk c List.mem_cons_self
    rw [List.cons_append, splitlines, if_neg hc]
    rcases eq_or_ne k [] with rfl | hk'
    · cases splitlines ([] ++ y) with
      | nil => exact ⟨[c], [], rfl, List.prefix_rfl⟩
      | cons l ls => exact ⟨c :: l, ls, rfl, l, rfl⟩
    · obtain ⟨l, ls, heq, hpre⟩ := ih hk' (fun d hd => hk d (List.mem_cons_of_mem _ hd))
        (List.prefix_append k y)
      exact ⟨c :: l, ls, by rw [heq], (List.prefix_cons_inj c).mpr hpre⟩

/-- A string in which no line ends lies in a line. -/
theorem infix_splitlines {s k : Txt} (hne : k ≠ []) (hk : ∀ c ∈ k, c ∉ lineEnds) (h : k <:+: s) :
    ∃ l ∈ splitlines s, k <:+: l := by
  induction s with
  | nil => exact absurd (List.infix_nil.mp h) hne
  | cons c cs ih =>
    rcases List.infix_cons_iff.mp h with hpre | hinf
    · obtain ⟨l, ls, heq, hl⟩ := prefix_splitlines hne hk hpre
      exact ⟨l, heq ▸ List.mem_cons_self, hl.isInfix⟩
    · obtain ⟨l, hl, hkl⟩ := ih hinf
      rw [splitlines]
      split
      · exact ⟨l, List.mem_cons_of_mem _ hl, hkl⟩
      · cases hrest : splitlines cs with
        | nil => exact absurd (hrest ▸ hl) (List.not_mem_nil)
        | cons l' ls =>
          rcases List.mem_cons.mp (hrest ▸ hl) with rfl | hmem
          · exact ⟨c :: l, List.mem_cons_self, hkl.trans (List.suffix_cons c l).isInfix⟩
          · exact ⟨l, List.mem_cons_of_mem _ hmem, hkl⟩

/-! ## 2. Changes

A change fails where its anchor is not there, or not there once, as the assertion in the script
does.  What it does to the rest of the text is nothing. -/

/-- One change of a text. -/
inductive Change
  /-- `assert old in s` and `s.replace(old, new, 1)`. -/
  | replace (old new : Txt)
  /-- `assert s.count(old) == 1` and the same. -/
  | replaceOnly (old new : Txt)
  /-- `s.replace(line, line + text, 1)` with the only line that has the anchor. -/
  | afterLine (anchor text : Txt)
  /-- `i = s.index(first)` and `s[:i] + text + s[i:]`. -/
  | beforeFirst (first text : Txt)
  /-- The text after the anchor, if it is there, or else before the first of another string. -/
  | afterOrFirst (anchor first text : Txt)
  /-- `s + text`. -/
  | append (text : Txt)

/-- `None` is a failed assertion. -/
def Change.run : Change → Txt → Option Txt
  | replace old new, s => if old <:+: s then some (replaceOne old new s) else none
  | replaceOnly old new, s => if count old s = 1 then some (replaceOne old new s) else none
  | afterLine anchor text, s => do
    let line ← onlyLine anchor s
    if line <:+: s then some (replaceOne line (line ++ text) s) else none
  | beforeFirst first text, s => do
    let (x, y) ← cut first s
    return x ++ text ++ (first ++ y)
  | afterOrFirst anchor first text, s =>
    if anchor <:+: s then some (replaceOne anchor (anchor ++ text) s)
    else do
      let (x, y) ← cut first s
      return x ++ text ++ (first ++ y)
  | append text, s => some (s ++ text)

/-- The text the change puts in has the string. -/
def Change.Puts (pat : Txt) : Change → Prop
  | replace _ new => pat <:+: new
  | replaceOnly _ new => pat <:+: new
  | afterLine _ text => pat <:+: text
  | beforeFirst _ text => pat <:+: text
  | afterOrFirst _ _ text => pat <:+: text
  | append text => pat <:+: text

/-- The string cannot lie across the end of the other one, or across its beginning. -/
def EndsOut (pat k : Txt) : Prop := ∃ c ∈ k.getLast?, c ∉ pat

/-- Its first character is not in the pattern, so no occurrence goes into it. -/
def BeginsOut (pat k : Txt) : Prop := ∃ c ∈ k.head?, c ∉ pat

/-- A replacement leaves the string: it is apart from what is replaced, or only has something put
behind or before it. -/
def SparesReplace (pat old new : Txt) : Prop :=
  Apart pat old ∨ (old <+: new ∧ EndsOut pat old) ∨ (old <:+ new ∧ BeginsOut pat old)

/-- The change leaves the string where it is. -/
def Change.Spares (pat : Txt) : Change → Prop
  | replace old new => SparesReplace pat old new
  | replaceOnly old new => SparesReplace pat old new
  | afterLine _ _ => ∀ c ∈ pat, c ∉ lineEnds
  | beforeFirst first _ => BeginsOut pat first
  | afterOrFirst anchor first _ => EndsOut pat anchor ∧ BeginsOut pat first
  | append _ => True

section Decide

variable (pat k old new : Txt) (c : Change)

-- Not the instances that go through all characters.
instance : Decidable (EndsOut pat k) := Option.decidableExistsMem _

instance : Decidable (BeginsOut pat k) := Option.decidableExistsMem _

instance : Decidable (SparesReplace pat old new) := inferInstanceAs (Decidable (_ ∨ _ ∨ _))

instance : Decidable (c.Puts pat) :=
  match c with
  | .replace _ new => inferInstanceAs (Decidable (pat <:+: new))
  | .replaceOnly _ new => inferInstanceAs (Decidable (pat <:+: new))
  | .afterLine _ text => inferInstanceAs (Decidable (pat <:+: text))
  | .beforeFirst _ text => inferInstanceAs (Decidable (pat <:+: text))
  | .afterOrFirst _ _ text => inferInstanceAs (Decidable (pat <:+: text))
  | .append text => inferInstanceAs (Decidable (pat <:+: text))

instance : Decidable (c.Spares pat) :=
  match c with
  | .replace old new => inferInstanceAs (Decidable (SparesReplace pat old new))
  | .replaceOnly old new => inferInstanceAs (Decidable (SparesReplace pat old new))
  | .afterLine _ _ => List.decidableBAll _ pat
  | .beforeFirst first _ => inferInstanceAs (Decidable (BeginsOut pat first))
  | .afterOrFirst anchor first _ =>
    inferInstanceAs (Decidable (EndsOut pat anchor ∧ BeginsOut pat first))
  | .append _ => inferInstanceAs (Decidable True)

end Decide

/-- The line has the anchor, and no other one has it. -/
theorem onlyLine_spec {anchor s line : Txt} (h : onlyLine anchor s = some line) :
    line ∈ splitlines s ∧ anchor <:+: line ∧ ∀ l ∈ splitlines s, anchor <:+: l → l = line := by
  have hfilter : (splitlines s).filter (anchor <:+: ·) = [line] := by
    rw [onlyLine] at h
    split at h
    · rename_i heq
      rw [heq, Option.some.inj h]
    · exact absurd h (by simp)
  have hiff : ∀ l, (l ∈ splitlines s ∧ anchor <:+: l) ↔ l = line := by
    intro l
    rw [← List.mem_singleton, ← hfilter, List.mem_filter, decide_eq_true_iff]
  obtain ⟨hmem, hanchor⟩ := (hiff line).mpr rfl
  exact ⟨hmem, hanchor, fun l hl hin => (hiff l).mp ⟨hl, hin⟩⟩

section Run

variable {pat s s' old new x y line text first : Txt} {c : Change}

theorem EndsOut.insert (h : EndsOut pat line) (hs : pat <:+: x ++ line ++ y) :
    pat <:+: x ++ (line ++ text) ++ y := by
  obtain ⟨c, hc, hpat⟩ := h
  have hlast : (x ++ line).getLast? = some c := by
    rw [List.getLast?_append, hc]
    rfl
  have hinsert := infix_insert text hs (.inl fun d hd => by
    rw [hlast] at hd
    exact Option.some.inj hd ▸ hpat)
  simpa only [List.append_assoc] using hinsert

theorem BeginsOut.insert (h : BeginsOut pat first) (hs : pat <:+: x ++ first ++ y) :
    pat <:+: x ++ (text ++ first) ++ y := by
  obtain ⟨c, hc, hpat⟩ := h
  have hhead : (first ++ y).head? = some c := by
    rw [List.head?_append, hc]
    rfl
  have hinsert := infix_insert (p := x) (q := first ++ y) text
    (by simpa only [List.append_assoc] using hs) (.inr fun d hd => by
      rw [hhead] at hd
      exact Option.some.inj hd ▸ hpat)
  simpa only [List.append_assoc] using hinsert

theorem infix_replace (h : SparesReplace pat old new) (hs : pat <:+: s) :
    pat <:+: replaceOne old new s := by
  rcases h with hapart | ⟨⟨text, rfl⟩, hout⟩ | ⟨⟨text, rfl⟩, hout⟩
  · exact hapart.infix_replaceOne hs
  · cases hcut : cut old s with
    | none =>
      rw [replaceOne, hcut]
      exact hs
    | some r =>
      rw [replaceOne_of_cut hcut]
      exact hout.insert (cut_some hcut ▸ hs)
  · cases hcut : cut old s with
    | none =>
      rw [replaceOne, hcut]
      exact hs
    | some r =>
      rw [replaceOne_of_cut hcut]
      exact hout.insert (cut_some hcut ▸ hs)

/-- **Behind a line**, a string is not broken in which no line ends: the line ends there, or the
text does, or another line would have the anchor too. -/
theorem infix_afterLine {anchor : Txt} (hpat : ∀ c ∈ pat, c ∉ lineEnds)
    (hline : onlyLine anchor s = some line) (hs : pat <:+: s) :
    pat <:+: replaceOne line (line ++ text) s := by
  obtain ⟨hmem, hanchor, honly⟩ := onlyLine_spec hline
  cases hcut : cut line s with
  | none =>
    rw [replaceOne, hcut]
    exact hs
  | some r =>
    obtain ⟨x, y⟩ := r
    have hsplit := cut_some hcut
    rw [replaceOne_of_cut hcut]
    rcases splitlines_ends hmem with ⟨k, c, rfl, hc⟩ | ⟨hne, hno⟩
    · -- The line has its end.
      have hout : EndsOut pat (k ++ [c]) := ⟨c, by simp, fun hmem => hpat c hmem hc⟩
      exact hout.insert (hsplit ▸ hs)
    · have hhead : ∀ c ∈ y.head?, c ∈ lineEnds := by
        intro c hc
        by_contra hnot
        obtain ⟨y', rfl⟩ := List.head?_eq_some_iff.mp hc
        have hnext : ∀ d ∈ line ++ [c], d ∉ lineEnds := by
          intro d hd
          rcases List.mem_append.mp hd with hd | hd
          · exact hno d hd
          · exact List.mem_singleton.mp hd ▸ hnot
        have hthere : line ++ [c] <:+: s := ⟨x, y', by rw [hsplit]; simp⟩
        obtain ⟨l, hl, hinf⟩ := infix_splitlines (by simp) hnext hthere
        have hsame := honly l hl ((hanchor.trans (List.prefix_append line [c]).isInfix).trans hinf)
        have hlen := hinf.length_le
        rw [hsame, List.length_append, List.length_singleton] at hlen
        omega
      have hinsert := infix_insert text (hsplit ▸ hs : pat <:+: x ++ line ++ y)
        (.inr fun c hc hmem => hpat c hmem (hhead c hc))
      simpa only [List.append_assoc] using hinsert

theorem infix_beforeFirst (h : BeginsOut pat first)
    (hrun : (do let (x, y) ← cut first s; return x ++ text ++ (first ++ y)) = some s')
    (hs : pat <:+: s) : pat <:+: s' := by
  simp only [Option.bind_eq_bind, Option.bind_eq_some_iff, Option.pure_def, Option.some.injEq,
    Prod.exists] at hrun
  obtain ⟨x, y, hcut, rfl⟩ := hrun
  have hinsert : pat <:+: x ++ (text ++ first) ++ y := h.insert (cut_some hcut ▸ hs)
  simpa only [List.append_assoc] using hinsert

/-- A change puts in what it has. -/
theorem Change.run_puts (h : c.Puts pat) (hrun : c.run s = some s') : pat <:+: s' := by
  cases c with
  | replace old new =>
    simp only [Change.run, Option.ite_none_right_eq_some, Option.some.injEq] at hrun
    obtain ⟨hold, rfl⟩ := hrun
    exact List.IsInfix.trans h (infix_replaceOne hold)
  | replaceOnly old new =>
    simp only [Change.run, Option.ite_none_right_eq_some, Option.some.injEq] at hrun
    obtain ⟨hcount, rfl⟩ := hrun
    exact List.IsInfix.trans h (infix_replaceOne (infix_of_count (by omega)))
  | afterLine anchor text =>
    simp only [Change.run, Option.bind_eq_bind, Option.bind_eq_some_iff,
      Option.ite_none_right_eq_some, Option.some.injEq] at hrun
    obtain ⟨line, -, hline, rfl⟩ := hrun
    exact (List.IsInfix.trans h (List.suffix_append line text).isInfix).trans
      (infix_replaceOne hline)
  | beforeFirst first text =>
    simp only [Change.run, Option.bind_eq_bind, Option.bind_eq_some_iff, Option.pure_def,
      Option.some.injEq, Prod.exists] at hrun
    obtain ⟨x, y, -, rfl⟩ := hrun
    exact List.IsInfix.trans h ⟨x, first ++ y, rfl⟩
  | afterOrFirst anchor first text =>
    rw [Change.run] at hrun
    split at hrun
    · rename_i hin
      obtain rfl := Option.some.inj hrun
      exact (List.IsInfix.trans h (List.suffix_append anchor text).isInfix).trans
        (infix_replaceOne hin)
    · simp only [Option.bind_eq_bind, Option.bind_eq_some_iff, Option.pure_def,
        Option.some.injEq, Prod.exists] at hrun
      obtain ⟨x, y, -, rfl⟩ := hrun
      exact List.IsInfix.trans h ⟨x, first ++ y, rfl⟩
  | append text =>
    obtain rfl := Option.some.inj hrun
    exact List.IsInfix.trans h (List.suffix_append s text).isInfix

/-- **A change leaves what it spares.** -/
theorem Change.run_spares (h : c.Spares pat) (hrun : c.run s = some s') (hs : pat <:+: s) :
    pat <:+: s' := by
  cases c with
  | replace old new =>
    simp only [Change.run, Option.ite_none_right_eq_some, Option.some.injEq] at hrun
    exact hrun.2 ▸ infix_replace h hs
  | replaceOnly old new =>
    simp only [Change.run, Option.ite_none_right_eq_some, Option.some.injEq] at hrun
    exact hrun.2 ▸ infix_replace h hs
  | afterLine anchor text =>
    simp only [Change.run, Option.bind_eq_bind, Option.bind_eq_some_iff,
      Option.ite_none_right_eq_some, Option.some.injEq] at hrun
    obtain ⟨line, hline, -, rfl⟩ := hrun
    exact infix_afterLine h hline hs
  | beforeFirst first text => exact infix_beforeFirst h hrun hs
  | afterOrFirst anchor first text =>
    rw [Change.run] at hrun
    split at hrun
    · obtain rfl := Option.some.inj hrun
      exact infix_replace (.inr (.inl ⟨List.prefix_append anchor text, h.1⟩)) hs
    · exact infix_beforeFirst h.2 hrun hs
  | append text =>
    obtain rfl := Option.some.inj hrun
    exact hs.trans (List.prefix_append s text).isInfix

end Run

/-! ## 3. Guarded edits

The marker of an edit is part of what it puts in, as a rule.  Where it is not, the edit would be
made again, and the check below would not come out. -/

/-- An edit under its marker. -/
structure Guard where
  marker : Txt
  changes : List Change

/-- The changes under their marker, one after the other. -/
def Guard.guarded (g : Guard) : Guarded Char :=
  ⟨g.marker, fun s => g.changes.foldlM (fun s c => c.run s) s⟩

/-- Some change puts the string in, and the ones behind it leave it. -/
def PutsIn (pat : Txt) : List Change → Prop
  | [] => False
  | c :: cs => (c.Puts pat ∧ ∀ c' ∈ cs, c'.Spares pat) ∨ PutsIn pat cs

/-- The later edit leaves the marker of the earlier one. -/
def Guard.SparedBy (g g' : Guard) : Prop := ∀ c ∈ g'.changes, c.Spares g.marker

instance decidablePutsIn (pat : Txt) : (cs : List Change) → Decidable (PutsIn pat cs)
  | [] => inferInstanceAs (Decidable False)
  | _ :: cs =>
    have := decidablePutsIn pat cs
    inferInstanceAs (Decidable (_ ∨ _))

instance (g g' : Guard) : Decidable (g.SparedBy g') := inferInstanceAs (Decidable (∀ c ∈ _, _))

section Guards

variable {pat s s' : Txt} {cs : List Change} {g g' : Guard}

theorem changes_spare (h : ∀ c ∈ cs, c.Spares pat)
    (hrun : cs.foldlM (fun s c => c.run s) s = some s') (hs : pat <:+: s) : pat <:+: s' := by
  induction cs generalizing s with
  | nil => exact Option.some.inj hrun ▸ hs
  | cons c cs ih =>
    rw [List.foldlM_cons] at hrun
    obtain ⟨mid, hmid, hrun⟩ := Option.bind_eq_some_iff.mp hrun
    exact ih (fun c' hc' => h c' (List.mem_cons_of_mem _ hc')) hrun
      (Change.run_spares (h c List.mem_cons_self) hmid hs)

theorem changes_put (h : PutsIn pat cs) (hrun : cs.foldlM (fun s c => c.run s) s = some s') :
    pat <:+: s' := by
  induction cs generalizing s with
  | nil => exact h.elim
  | cons c cs ih =>
    rw [List.foldlM_cons] at hrun
    obtain ⟨mid, hmid, hrun⟩ := Option.bind_eq_some_iff.mp hrun
    rcases h with ⟨hputs, hspare⟩ | h
    · exact changes_spare hspare hrun (Change.run_puts hputs hmid)
    · exact ih h hrun

theorem Guard.settles (h : PutsIn g.marker g.changes) : g.guarded.Settles :=
  fun _ _ hrun => changes_put h hrun

theorem Guard.keeps (h : g.SparedBy g') : g.guarded.Keeps g'.guarded :=
  fun _ _ hrun ht => changes_spare h hrun ht

end Guards

end S9p.PatchTree
