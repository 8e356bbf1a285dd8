/-
# The edit of chip.c

The chip's firmware is loaded to another address than the patch it is based on had it, so the script
takes the chip's case out of one function, wherever an earlier version has put it, and puts it in
again at its place; and it adds the chip to a second function.  No marker guards this edit, so that
making it twice has to come to the same by itself.

* `chip_twice`: it does, where taking the cases out leaves a function that has none and ends where
  it ended, and the second function stands before the last case of the sibling chip.
-/
import S9p.Lib.Text

namespace S9p.PatchTree

open Text

/-- A text as `read_text` returns it. -/
abbrev Txt := List Char

/-- The characters of a literal.  All are ASCII, so that each is one byte. -/
def chars (s : String) : Txt := s.toUTF8.data.toList.map (fun b => Char.ofNat b.toNat)

/-! ## 1. The edit

The edit is made of searches for fixed strings: the first occurrence, the last one, or all of them.
A function ends at the first brace that stands in a line of its own. -/

def case4359 : Txt := chars "case BRCM_CC_4359_CHIP_ID:"
def case4361 : Txt := chars "case BRCM_CC_4361_CHIP_ID:"

/-- Where `tcm_rambase` begins, and where a function ends. -/
def tcmRambase : Txt := chars "static u32 brcmf_chip_tcm_rambase("
def fnEnd : Txt := chars "\n\x7d\n"

/-- The case before which the new one is put. -/
def case43751 : Txt := chars "\tcase BRCM_CC_43751_CHIP_ID:\n"

def srCapable : Txt := chars "bool brcmf_chip_sr_capable("

/-- What the pattern of the cases that are taken out begins with. -/
def tabCase : Txt := '\t' :: case4361

def rambaseCase : Txt :=
  tabCase ++ chars "\t/* 4347 class: CR4_4347_RAM_BASE */" ++ chars "\n"

/-- `case_4361 + "\n\t"`. -/
def ownLine : Txt := case4361 ++ chars "\n\t"

def doubleTab : Txt := ownLine ++ chars "\t" ++ case4359
def oneTab : Txt := ownLine ++ case4359

def dropLoop : Nat → Txt → Txt
  | 0, s => s
  | fuel + 1, s =>
    match cut tabCase s with
    | none => s
    | some (x, y) =>
      match cut (chars "\n") y with
      | none => s
      | some (_, z) => x ++ dropLoop fuel z

/-- `re.sub(r"\tcase BRCM_CC_4361_CHIP_ID:[^\n]*\n", "", fn)`: each match runs to the end of its
line. -/
def dropCases (fn : Txt) : Txt := dropLoop fn.length fn

/-- The text with the given parts around the new case. -/
def frame (head a b rest : Txt) : Txt :=
  head ++ tcmRambase ++ (a ++ (rambaseCase ++ case43751) ++ b) ++ fnEnd ++ rest

/-- The first half, `tcm_rambase`. -/
def rambase (ch : Txt) : Option Txt := do
  let (head, tail) ← cut tcmRambase ch
  let (fn, rest) ← cut fnEnd tail
  let (a, b) ← cut case43751 (dropCases fn)
  return frame head a b rest

/-- What stands between the last `sr_capable` and the end; without one the slice is empty. -/
def sinceSr (x : Txt) : Txt :=
  match rcut srCapable x with
  | some (_, q) => srCapable ++ q
  | none => []

/-- The second half, `sr_capable`. -/
def srCase (ch : Txt) : Option Txt := do
  let (x, y) ← rcut case4359 ch
  return if case4361 <:+: sinceSr x then ch else x ++ ownLine ++ case4359 ++ y

/-- The edit of chip.c. -/
def chip (ch : Txt) : Option Txt := do
  let ch ← rambase ch
  let ch ← srCase ch
  return replaceAll doubleTab oneTab ch

/-- What the edit needs of the file: no case is left in the function once they have been taken out,
it still ends at its end, and then `sr_capable` stands before the last case of the 4359. -/
structure ChipOk (ch : Txt) : Prop where
  taken : ∀ head tail fn rest, cut tcmRambase ch = some (head, tail) →
    cut fnEnd tail = some (fn, rest) →
      Free tabCase (dropCases fn) ∧ Free fnEnd (dropCases fn ++ fnEnd.dropLast)
  sr : ∀ ch' x y, rambase ch = some ch' → rcut case4359 ch' = some (x, y) → srCapable <:+: x

theorem chipOk_iff {ch : Txt} : ChipOk ch ↔
    (∀ r ∈ cut tcmRambase ch, ∀ r' ∈ cut fnEnd r.2,
      Free tabCase (dropCases r'.1) ∧ Free fnEnd (dropCases r'.1 ++ fnEnd.dropLast)) ∧
    ∀ ch' ∈ rambase ch, ∀ r ∈ rcut case4359 ch', srCapable <:+: r.1 := by
  constructor
  · intro h
    exact ⟨fun r hr r' hr' => h.taken r.1 r.2 r'.1 r'.2 hr hr',
      fun ch' hch' r hr => h.sr ch' r.1 r.2 hch' hr⟩
  · rintro ⟨htaken, hsr⟩
    exact ⟨fun _ _ _ _ hname hend => htaken _ hname _ hend,
      fun ch' _ _ hch' hlast => hsr ch' hch' _ hlast⟩

instance (ch : Txt) : Decidable (ChipOk ch) := decidable_of_iff' _ chipOk_iff

/-! ## 2. The strings

Of the fixed strings some can overlap and most cannot.  What the proofs use of them is listed here,
and checked letter by letter. -/

/-- What the proofs need of the strings of the edit: which of them can overlap with themselves,
which with another one, and where their lines and tabs are. -/
structure Strings : Prop where
  once_newline : Unbordered (chars "\n")
  once_tabCase : Unbordered tabCase
  once_case4359 : Unbordered case4359
  once_case4361 : Unbordered case4361
  once_case43751 : Unbordered case43751
  once_tcmRambase : Unbordered tcmRambase
  once_srCapable : Unbordered srCapable
  once_doubleTab : Unbordered doubleTab
  fnEnd_ne : fnEnd ≠ []
  comment_line : Free (chars "\n") (chars "\t/* 4347 class: CR4_4347_RAM_BASE */")
  tabCase_case4359 : Apart tabCase case4359
  tabCase_lineCase : Apart tabCase (chars "\n\t" ++ case4359)
  tcmRambase_oneTab : Apart tcmRambase oneTab
  fnEnd_newCase : Apart fnEnd (rambaseCase ++ case43751.dropLast)
  fnEnd_oneTab : Apart fnEnd oneTab
  case43751_oneTab : Apart case43751 oneTab
  case4361_srCapable : Apart case4361 srCapable
  srCapable_ownLine : Apart srCapable ownLine
  srCapable_oneTab : Apart srCapable oneTab
  doubleTab_oneTab : Apart doubleTab oneTab
  doubleTab_srCapable : Apart doubleTab srCapable
  doubleTab_tcmRambase : Apart doubleTab tcmRambase
  doubleTab_newCase : Apart doubleTab (rambaseCase ++ case43751)
  doubleTab_fnEnd : Apart doubleTab fnEnd
  case4359_tcmRambase : Apart case4359 tcmRambase
  case4359_newCase : Apart case4359 (rambaseCase ++ case43751)
  case4359_fnEnd : Apart case4359 fnEnd
  ownLine_case4361 : case4361 <:+: ownLine
  tab_eq : chars "\t" = ['\t']
  tabCase_eq : tabCase = chars "\t" ++ case4361
  newline_tab : chars "\n\t" = chars "\n" ++ chars "\t"
  case43751_line : case43751 = case43751.dropLast ++ chars "\n"
  case4361_last : case4361.getLast? = some ':'
  case43751_last : case43751.getLast? = some '\n'

theorem strings : Strings := by constructor <;> decide +kernel

/-! ## 3. Taking the cases out

A match takes everything up to the end of its line, and the search goes on behind it.  What is taken
out can therefore bring two pieces together that make a new match, which the loop does not see. -/

section Drop

variable {s x y k : Txt}

theorem dropLoop_free (n : Nat) (h : Free tabCase s) : dropLoop n s = s := by
  cases n with
  | zero => rfl
  | succ n => rw [dropLoop, cut_none.mpr h]

theorem dropCases_free (h : Free tabCase s) : dropCases s = s := dropLoop_free _ h

/-- The loop has enough fuel. -/
theorem dropLoop_fuel {n m : Nat} (hn : s.length ≤ n) (hm : s.length ≤ m) :
    dropLoop n s = dropLoop m s := by
  induction n generalizing m s with
  | zero =>
    obtain rfl := List.length_eq_zero_iff.mp (Nat.le_zero.mp hn)
    exact (dropLoop_free m (free_nil strings.once_tabCase.1)).symm
  | succ n ih =>
    cases m with
    | zero =>
      obtain rfl := List.length_eq_zero_iff.mp (Nat.le_zero.mp hm)
      exact dropLoop_free _ (free_nil strings.once_tabCase.1)
    | succ m =>
      simp only [dropLoop]
      cases hcut : cut tabCase s with
      | none => rfl
      | some p =>
        have hlt := length_lt_of_cut strings.once_tabCase.1 hcut
        simp only
        cases hline : cut (chars "\n") p.2 with
        | none => rfl
        | some r =>
          have hlt' := length_lt_of_cut strings.once_newline.1 hline
          simp only
          rw [ih (s := r.2) (m := m) (by omega) (by omega)]

/-- **One case is taken out**, with its line. -/
theorem dropCases_line (hx : Free tabCase x) (hk : Free (chars "\n") k) :
    dropCases (x ++ (tabCase ++ k ++ chars "\n") ++ y) = x ++ dropCases y := by
  have hcut : cut tabCase (x ++ (tabCase ++ k ++ chars "\n") ++ y) =
      some (x, k ++ chars "\n" ++ y) := by
    rw [show x ++ (tabCase ++ k ++ chars "\n") ++ y =
      x ++ tabCase ++ (k ++ chars "\n" ++ y) by simp only [List.append_assoc]]
    exact strings.once_tabCase.cut_append hx
  have hline : cut (chars "\n") (k ++ chars "\n" ++ y) = some (k, y) :=
    strings.once_newline.cut_append hk
  have hlt := length_lt_of_cut strings.once_tabCase.1 hcut
  have hlt' := length_lt_of_cut strings.once_newline.1 hline
  obtain ⟨n, hn⟩ : ∃ n, (x ++ (tabCase ++ k ++ chars "\n") ++ y).length = n + 1 :=
    ⟨(x ++ (tabCase ++ k ++ chars "\n") ++ y).length - 1, by omega⟩
  rw [dropCases, hn, dropLoop, hcut]
  simp only [hline]
  rw [dropCases, dropLoop_fuel (n := n) (m := y.length) (by omega) le_rfl]

/-- The new case is one that would be taken out. -/
theorem dropCases_rambaseCase (hx : Free tabCase x) :
    dropCases (x ++ (rambaseCase ++ case43751) ++ y) = x ++ dropCases (case43751 ++ y) := by
  have hline := dropCases_line (y := case43751 ++ y) hx strings.comment_line
  rw [← hline, rambaseCase]
  simp only [List.append_assoc]

theorem dropCases_frame (h : Free tabCase (x ++ case43751 ++ y)) :
    dropCases (x ++ (rambaseCase ++ case43751) ++ y) = x ++ case43751 ++ y := by
  have hx : Free tabCase x := h.mono ⟨[], case43751 ++ y, by simp⟩
  have hy : Free tabCase (case43751 ++ y) := h.mono ⟨x, [], by simp⟩
  rw [dropCases_rambaseCase hx, dropCases_free hy, List.append_assoc]

end Drop

/-! ## 4. The parts of the text

The text is taken apart where the edit takes it apart, so that each half is an equation between
parts. -/

section Parts

variable {u u' v head a b rest p q x y c N : Txt}

/-- **What is apart from the frame lies in one of the four parts**, and is replaced there. -/
theorem locate {O : Txt} (hname : Apart O tcmRambase) (hcase : Apart O (rambaseCase ++ case43751))
    (hend : Apart O fnEnd) (h : Swap O N (frame head a b rest) v) :
    (∃ head', Swap O N head head' ∧ v = frame head' a b rest) ∨
    (∃ a', Swap O N a a' ∧ v = frame head a' b rest) ∨
    (∃ b', Swap O N b b' ∧ v = frame head a b' rest) ∨
    ∃ rest', Swap O N rest rest' ∧ v = frame head a b rest' := by
  obtain ⟨x, y, hx, rfl⟩ := h
  have hsplit : x ++ O ++ y = head ++ tcmRambase ++
      ((a ++ (rambaseCase ++ case43751) ++ b) ++ fnEnd ++ rest) := by
    rw [← hx, frame]
    simp only [List.append_assoc]
  rcases hname.disjoint hsplit with ⟨z, rfl, rfl⟩ | ⟨z, rfl, htail⟩
  · exact .inl ⟨_, ⟨x, z, rfl, rfl⟩, by simp only [frame, List.append_assoc]⟩
  rcases hend.disjoint htail.symm with ⟨z', hfn, rfl⟩ | ⟨z', rfl, rfl⟩
  · rcases hcase.disjoint hfn.symm with ⟨z'', rfl, rfl⟩ | ⟨z'', rfl, rfl⟩
    · exact .inr (.inl ⟨_, ⟨z, z'', rfl, rfl⟩, by simp only [frame, List.append_assoc]⟩)
    · exact .inr (.inr (.inl
        ⟨_, ⟨z'', z', rfl, rfl⟩, by simp only [frame, List.append_assoc]⟩))
  · exact .inr (.inr (.inr ⟨_, ⟨z', y, rfl, rfl⟩, by simp only [frame, List.append_assoc]⟩))

/-- The text after the first half. -/
structure Shape (head a b rest : Txt) : Prop where
  head : Free tcmRambase head
  fn : Free fnEnd (a ++ case43751 ++ b ++ fnEnd.dropLast)
  anchor : Free case43751 a
  cases : Free tabCase (a ++ case43751 ++ b)

/-- The text before the second half. -/
structure SrShape (u p q y : Txt) : Prop where
  eq : u = p ++ srCapable ++ q ++ case4359 ++ y
  last : Free case4359 y
  since : Free srCapable q

/-- What the second half inserts. -/
def srInsert (q : Txt) : Txt := if case4361 <:+: q then [] else ownLine

/-- **The first half**, on a text whose parts are known. -/
theorem rambase_eq {f : Txt} (hhead : Free tcmRambase head)
    (hfn : Free fnEnd (f ++ fnEnd.dropLast)) (hdrop : dropCases f = a ++ case43751 ++ b)
    (ha : Free case43751 a) :
    rambase (head ++ tcmRambase ++ f ++ fnEnd ++ rest) = some (frame head a b rest) := by
  have hname : cut tcmRambase (head ++ tcmRambase ++ f ++ fnEnd ++ rest) =
      some (head, f ++ fnEnd ++ rest) := by
    rw [show head ++ tcmRambase ++ f ++ fnEnd ++ rest =
      head ++ tcmRambase ++ (f ++ fnEnd ++ rest) by simp only [List.append_assoc]]
    exact strings.once_tcmRambase.cut_append hhead
  have hend : cut fnEnd (f ++ fnEnd ++ rest) = some (f, rest) :=
    (cut_iff strings.fnEnd_ne).mpr ⟨rfl, hfn⟩
  have hcase : cut case43751 (dropCases f) = some (a, b) := by
    rw [hdrop]
    exact strings.once_case43751.cut_append ha
  simp only [rambase, hname, hend, hcase, Option.bind_eq_bind, Option.bind_some, Option.pure_def]

/-- The new case ends no function. -/
theorem Shape.fnEnd_frame (h : Shape head a b rest) :
    Free fnEnd (a ++ (rambaseCase ++ case43751) ++ b ++ fnEnd.dropLast) := by
  -- The end of the line stays: `fnEnd` begins with one.
  have hfn := h.fn
  rw [strings.case43751_line] at hfn ⊢
  have hswap := strings.fnEnd_newCase.free_swap (O := case43751.dropLast) (u := a)
    (v := chars "\n" ++ b ++ fnEnd.dropLast) (by simpa only [List.append_assoc] using hfn)
  simpa only [List.append_assoc] using hswap

/-- **The first half leaves what it has made.** -/
theorem Shape.rambase (h : Shape head a b rest) :
    rambase (frame head a b rest) = some (frame head a b rest) :=
  rambase_eq h.head h.fnEnd_frame (dropCases_frame h.cases) h.anchor

/-- **The second half**, on a text whose parts are known. -/
theorem SrShape.srCase (h : SrShape u p q y) :
    srCase u = some (p ++ srCapable ++ q ++ srInsert q ++ case4359 ++ y) := by
  have hlast : rcut case4359 u = some (p ++ srCapable ++ q, y) := by
    rw [h.eq]
    exact strings.once_case4359.rcut_append h.last
  have hsr : rcut srCapable (p ++ srCapable ++ q) = some (p, q) :=
    strings.once_srCapable.rcut_append h.since
  have hin : case4361 <:+: srCapable ++ q ↔ case4361 <:+: q := by
    constructor
    · intro hinf
      by_contra hfree
      have hswap : Free case4361 ([] ++ srCapable ++ q) :=
        strings.case4361_srCapable.free_swap (O := []) hfree
      exact hswap hinf
    · exact fun hinf => hinf.trans (List.suffix_append _ _).isInfix
  simp only [PatchTree.srCase, hlast, sinceSr, hsr, hin, Option.bind_eq_bind, Option.bind_some,
    Option.pure_def, Option.some.injEq, srInsert]
  split
  · rw [List.append_nil, h.eq]
  · rfl

/-- The second half does nothing where the chip has its case. -/
theorem srInsert_of_mem (h : case4361 <:+: q) : srInsert q = [] := if_pos h

/-! ## 5. A tab too many

The second half puts a line in, and the case behind it may then be indented by one tab too many; a
replacement at the end of the edit takes these out, wherever they are. -/

/-- What is put into a part, apart from all that the first half looks for but the cases. -/
theorem Shape.put {O N : Txt} (hname : Apart tcmRambase N) (hend : Apart fnEnd N)
    (hanchor : Apart case43751 N) (h : Shape head a b rest) :
    (∀ head', Swap O N head head' → Shape head' a b rest) ∧
    (∀ a', Swap O N a a' → Free tabCase (a' ++ case43751 ++ b) → Shape head a' b rest) ∧
    ∀ b', Swap O N b b' → Free tabCase (a ++ case43751 ++ b') → Shape head a b' rest := by
  refine ⟨fun head' hs => ?_, fun a' hs hcases => ?_, fun b' hs hcases => ?_⟩
  · exact { h with head := hname.free_of_swap hs h.head }
  · exact
      { head := h.head
        fn := hend.free_of_swap (((hs.append_right _).append_right _).append_right _) h.fn
        anchor := hanchor.free_of_swap hs h.anchor
        cases := hcases }
  · exact { h with
        fn := hend.free_of_swap ((hs.append_left _).append_right _) h.fn
        cases := hcases }

/-- A tab less makes no case: the characters before it stay. -/
theorem free_of_tab {s t : Txt} (h : Swap doubleTab oneTab s t) (hs : Free tabCase s) :
    Free tabCase t := by
  obtain ⟨x, y, rfl, rfl⟩ := h
  have hswap := strings.tabCase_case4359.free_swap (O := chars "\t" ++ case4359)
    (u := x ++ ownLine) (v := y)
    (by simpa only [doubleTab, List.append_assoc] using hs)
  simpa only [oneTab, List.append_assoc] using hswap

/-- **The tab is taken out of any of the parts.** -/
theorem Shape.swap (h : Shape head a b rest)
    (hswap : Swap doubleTab oneTab (frame head a b rest) v) :
    ∃ head' a' b' rest', Shape head' a' b' rest' ∧ v = frame head' a' b' rest' := by
  obtain ⟨hhead, ha, hb⟩ := h.put (O := doubleTab) strings.tcmRambase_oneTab strings.fnEnd_oneTab
    strings.case43751_oneTab
  rcases locate strings.doubleTab_tcmRambase strings.doubleTab_newCase strings.doubleTab_fnEnd hswap
    with ⟨head', hs, rfl⟩ | ⟨a', hs, rfl⟩ | ⟨b', hs, rfl⟩ | ⟨rest', hs, rfl⟩
  · exact ⟨head', a, b, rest, hhead head' hs, rfl⟩
  · exact ⟨head, a', b, rest, ha a' hs
      (free_of_tab ((hs.append_right _).append_right _) h.cases), rfl⟩
  · exact ⟨head, a, b', rest, hb b' hs (free_of_tab (hs.append_left _) h.cases), rfl⟩
  · exact ⟨head, a, b, rest', { h with }, rfl⟩

/-- **The second half does the same** with the tab and without it. -/
theorem SrShape.swap (h : SrShape u p q y) (hswap : Swap doubleTab oneTab u u') :
    ∃ p' q' y', SrShape u' p' q' y' ∧
      Swap doubleTab oneTab (p ++ srCapable ++ q ++ srInsert q ++ case4359 ++ y)
        (p' ++ srCapable ++ q' ++ srInsert q' ++ case4359 ++ y') := by
  obtain ⟨x, z, hx, rfl⟩ := hswap
  have hsplit : x ++ doubleTab ++ z = p ++ srCapable ++ (q ++ case4359 ++ y) := by
    rw [← hx, h.eq]
    simp only [List.append_assoc]
  rcases strings.doubleTab_srCapable.disjoint hsplit with ⟨w, rfl, rfl⟩ | ⟨w, rfl, hrest⟩
  · -- The tab stands before `sr_capable`.
    refine ⟨x ++ oneTab ++ w, q, y, ⟨by simp only [List.append_assoc], h.last, h.since⟩,
      x, w ++ srCapable ++ q ++ srInsert q ++ case4359 ++ y, ?_, ?_⟩
    · simp only [List.append_assoc]
    · simp only [List.append_assoc]
  · have hcase : w ++ ownLine ++ chars "\t" ++ case4359 ++ z = q ++ case4359 ++ y := by
      rw [hrest, doubleTab]
      simp only [List.append_assoc]
    rcases strings.once_case4359.disjoint hcase with ⟨rfl, rfl⟩ | ⟨w', rfl, rfl⟩ | ⟨w', -, hy⟩
    · -- It is the one before the last case itself.
      have hin : case4361 <:+: w ++ ownLine :=
        strings.ownLine_case4361.trans (List.suffix_append _ _).isInfix
      have hin' : case4361 <:+: w ++ ownLine ++ chars "\t" :=
        hin.trans (List.prefix_append _ _).isInfix
      refine ⟨p, w ++ ownLine, z, ⟨?_, h.last, ?_⟩, ?_⟩
      · simp only [oneTab, List.append_assoc]
      · exact h.since.mono (List.prefix_append _ _).isInfix
      · rw [srInsert_of_mem hin, srInsert_of_mem hin']
        refine ⟨p ++ srCapable ++ w, z, ?_, ?_⟩
        · simp only [doubleTab, List.append_nil, List.append_assoc]
        · simp only [oneTab, List.append_nil, List.append_assoc]
    · -- It stands between `sr_capable` and the last case.
      have hin : case4361 <:+: w ++ ownLine :=
        strings.ownLine_case4361.trans (List.suffix_append _ _).isInfix
      have hin₁ : case4361 <:+: w ++ ownLine ++ chars "\t" ++ case4359 ++ w' :=
        hin.trans ⟨[], chars "\t" ++ case4359 ++ w',
          by simp only [List.nil_append, List.append_assoc]⟩
      have hin₂ : case4361 <:+: w ++ oneTab ++ w' :=
        hin.trans ⟨[], case4359 ++ w', by simp only [oneTab, List.nil_append, List.append_assoc]⟩
      have hsince : Free srCapable (w ++ doubleTab ++ w') := by
        simpa only [doubleTab, List.append_assoc] using h.since
      refine ⟨p, w ++ oneTab ++ w', y, ⟨?_, h.last, strings.srCapable_oneTab.free_swap hsince⟩, ?_⟩
      · simp only [List.append_assoc]
      · rw [srInsert_of_mem hin₁, srInsert_of_mem hin₂]
        refine ⟨p ++ srCapable ++ w, w' ++ case4359 ++ y, ?_, ?_⟩
        · simp only [doubleTab, List.append_nil, List.append_assoc]
        · simp only [List.append_nil, List.append_assoc]
    · exact absurd ⟨w', z, hy.symm⟩ h.last

/-! ## 6. Making the edit again

What the first half finds on the second run depends on where the second half has put its line: in
front of the first function's cases, behind them, or elsewhere. -/

/-- The line put before a case makes the case one to be taken out only behind a tab. -/
theorem free_of_no_tab (hx : x.getLast? ≠ some '\t') (h : Free tabCase (x ++ case4359 ++ y)) :
    Free tabCase (x ++ oneTab ++ y) := by
  rintro ⟨s, t, heq⟩
  have hsplit : s ++ chars "\t" ++ case4361 ++ t =
      x ++ case4361 ++ (chars "\n\t" ++ case4359 ++ y) := by
    simpa only [strings.tabCase_eq, oneTab, ownLine, List.append_assoc] using heq
  rcases strings.once_case4361.disjoint hsplit with ⟨rfl, -⟩ | ⟨z, rfl, -⟩ | ⟨z, hz, hy⟩
  · exact hx (by simp [strings.tab_eq])
  · exact h ⟨s, z ++ case4359 ++ y, by simp only [strings.tabCase_eq, List.append_assoc]⟩
  · -- Behind the line, the case would have to lie in what was there.
    rcases List.eq_nil_or_concat z with rfl | ⟨z, c, rfl⟩
    · have hlast := congrArg List.getLast? hz
      simp [strings.tab_eq, strings.case4361_last, List.getLast?_append] at hlast
    · have hchar : c = '\t' := by
        have hlast := congrArg List.getLast? hz
        simpa [strings.tab_eq, List.getLast?_append, eq_comm] using hlast
      have hrest : z ++ tabCase ++ t = [] ++ (chars "\n\t" ++ case4359) ++ y := by
        rw [List.nil_append, hy, hchar, strings.tabCase_eq, strings.tab_eq]
        simp only [List.concat_eq_append, List.append_assoc]
      rcases strings.tabCase_lineCase.disjoint hrest with ⟨w, hnil, -⟩ | ⟨w, -, rfl⟩
      · exact absurd hnil (by simp [strings.tabCase_eq, strings.tab_eq])
      · exact h ⟨x ++ case4359 ++ w, t, by simp⟩

/-- The line put before a case behind a tab is one that is taken out. -/
theorem dropCases_ownLine (hx : Free tabCase x) :
    dropCases (x ++ chars "\t" ++ oneTab ++ y) =
      x ++ dropCases (chars "\t" ++ case4359 ++ y) := by
  have hline := dropCases_line (y := chars "\t" ++ case4359 ++ y) hx
    (free_nil strings.once_newline.1)
  rw [← hline, strings.tabCase_eq]
  simp only [oneTab, ownLine, strings.newline_tab, List.append_nil, List.append_assoc]

/-- So is the one put before a case in front of the new one, -/
theorem dropCases_front {z b : Txt}
    (h : Free tabCase (z ++ chars "\t" ++ case4359 ++ y ++ case43751 ++ b)) :
    dropCases (z ++ chars "\t" ++ oneTab ++ y ++ (rambaseCase ++ case43751) ++ b) =
      z ++ chars "\t" ++ case4359 ++ y ++ case43751 ++ b := by
  have hz : Free tabCase z := h.mono
    ⟨[], chars "\t" ++ case4359 ++ y ++ case43751 ++ b,
      by simp only [List.nil_append, List.append_assoc]⟩
  have hrest : Free tabCase (chars "\t" ++ case4359 ++ y ++ case43751 ++ b) :=
    h.mono ⟨z, [], by simp only [List.append_nil, List.append_assoc]⟩
  calc dropCases (z ++ chars "\t" ++ oneTab ++ y ++ (rambaseCase ++ case43751) ++ b)
      = dropCases (z ++ chars "\t" ++ oneTab ++ (y ++ (rambaseCase ++ case43751) ++ b)) := by
        simp only [List.append_assoc]
    _ = z ++ dropCases (chars "\t" ++ case4359 ++ (y ++ (rambaseCase ++ case43751) ++ b)) :=
        dropCases_ownLine hz
    _ = z ++ dropCases (chars "\t" ++ case4359 ++ y ++ (rambaseCase ++ case43751) ++ b) := by
        simp only [List.append_assoc]
    _ = z ++ (chars "\t" ++ case4359 ++ y ++ case43751 ++ b) := by
        rw [dropCases_frame hrest]
    _ = z ++ chars "\t" ++ case4359 ++ y ++ case43751 ++ b := by
        simp only [List.append_assoc]

/-- and the one behind it. -/
theorem dropCases_back {a z : Txt}
    (h : Free tabCase (a ++ case43751 ++ (z ++ chars "\t" ++ case4359 ++ y))) :
    dropCases (a ++ (rambaseCase ++ case43751) ++ (z ++ chars "\t" ++ oneTab ++ y)) =
      a ++ case43751 ++ (z ++ chars "\t" ++ case4359 ++ y) := by
  have ha : Free tabCase a := h.mono
    ⟨[], case43751 ++ (z ++ chars "\t" ++ case4359 ++ y),
      by simp only [List.nil_append, List.append_assoc]⟩
  have hz : Free tabCase (case43751 ++ z) :=
    h.mono ⟨a, chars "\t" ++ case4359 ++ y, by simp only [List.append_assoc]⟩
  have hy : Free tabCase (chars "\t" ++ case4359 ++ y) :=
    h.mono ⟨a ++ case43751 ++ z, [], by simp only [List.append_nil, List.append_assoc]⟩
  calc dropCases (a ++ (rambaseCase ++ case43751) ++ (z ++ chars "\t" ++ oneTab ++ y))
      = a ++ dropCases (case43751 ++ (z ++ chars "\t" ++ oneTab ++ y)) :=
        dropCases_rambaseCase ha
    _ = a ++ dropCases (case43751 ++ z ++ chars "\t" ++ oneTab ++ y) := by
        simp only [List.append_assoc]
    _ = a ++ (case43751 ++ z ++ (chars "\t" ++ case4359 ++ y)) := by
        rw [dropCases_ownLine hz, dropCases_free hy]
    _ = a ++ case43751 ++ (z ++ chars "\t" ++ case4359 ++ y) := by
        simp only [List.append_assoc]

theorem exists_tab (h : x.getLast? = some '\t') : ∃ z, x = z ++ chars "\t" := by
  obtain ⟨z, rfl⟩ := List.getLast?_eq_some_iff.mp h
  exact ⟨z, by rw [strings.tab_eq]⟩

/-- **The first half, after the second**: it keeps the line that has been put before a case, or
takes it out again. -/
theorem Shape.rambase_put (h : Shape head a b rest)
    (hswap : Swap case4359 oneTab (frame head a b rest) v) :
    PatchTree.rambase v = some v ∨ PatchTree.rambase v = some (frame head a b rest) := by
  obtain ⟨hhead, ha, hb⟩ := h.put (O := case4359) strings.tcmRambase_oneTab strings.fnEnd_oneTab
    strings.case43751_oneTab
  rcases locate strings.case4359_tcmRambase strings.case4359_newCase strings.case4359_fnEnd hswap
    with ⟨head', hs, rfl⟩ | ⟨a', hs, rfl⟩ | ⟨b', hs, rfl⟩ | ⟨rest', hs, rfl⟩
  · exact .inl (hhead head' hs).rambase
  · -- Before the new case.
    have hfn := strings.fnEnd_oneTab.free_of_swap
      (((hs.append_right _).append_right _).append_right _) h.fnEnd_frame
    obtain ⟨x, y, rfl, rfl⟩ := id hs
    by_cases htab : x.getLast? = some '\t'
    · obtain ⟨z, rfl⟩ := exists_tab htab
      exact .inr (rambase_eq h.head hfn (dropCases_front h.cases) h.anchor)
    · have hfree : Free tabCase (x ++ oneTab ++ (y ++ case43751 ++ b)) :=
        free_of_no_tab htab (by simpa only [List.append_assoc] using h.cases)
      exact .inl (ha _ hs (by simpa only [List.append_assoc] using hfree)).rambase
  · -- Behind it.
    have hfn := strings.fnEnd_oneTab.free_of_swap ((hs.append_left _).append_right _)
      h.fnEnd_frame
    obtain ⟨x, y, rfl, rfl⟩ := id hs
    by_cases htab : x.getLast? = some '\t'
    · obtain ⟨z, rfl⟩ := exists_tab htab
      exact .inr (rambase_eq h.head hfn (dropCases_back h.cases) h.anchor)
    · have hfree : Free tabCase (a ++ case43751 ++ x ++ oneTab ++ y) := by
        refine free_of_no_tab ?_ (by simpa only [List.append_assoc] using h.cases)
        cases hx : x.getLast? with
        | none => simp [List.getLast?_append, strings.case43751_last, hx]
        | some c =>
          rw [hx] at htab
          simpa [List.getLast?_append, hx] using htab
      exact .inl (hb _ hs (by simpa only [List.append_assoc] using hfree)).rambase
  · exact .inl (Shape.rambase { h with })

/-- The second half is not made again behind the first. -/
theorem SrShape.again (h : SrShape u p q y) :
    PatchTree.srCase (p ++ srCapable ++ q ++ srInsert q ++ case4359 ++ y) =
      some (p ++ srCapable ++ q ++ srInsert q ++ case4359 ++ y) := by
  by_cases hin : case4361 <:+: q
  · rw [srInsert_of_mem hin, List.append_nil]
    have hsame := h.srCase
    rwa [srInsert_of_mem hin, List.append_nil, h.eq] at hsame
  · have hinsert : srInsert q = ownLine := if_neg hin
    have hin' : case4361 <:+: q ++ ownLine :=
      strings.ownLine_case4361.trans (List.suffix_append _ _).isInfix
    have hsince : Free srCapable (q ++ ownLine ++ []) :=
      strings.srCapable_ownLine.free_swap (O := []) (by simpa only [List.append_nil] using h.since)
    have hshape : SrShape (p ++ srCapable ++ q ++ ownLine ++ case4359 ++ y) p (q ++ ownLine) y :=
      ⟨by simp only [List.append_assoc], h.last, by simpa only [List.append_nil] using hsince⟩
    rw [hinsert, hshape.srCase, srInsert_of_mem hin']
    simp only [List.append_nil, List.append_assoc]

/-- **What both halves make is left by the edit**, when no tab is too many. -/
theorem chip_settled (h : Shape head a b rest) (hsr : SrShape (frame head a b rest) p q y)
    (hfree : Free doubleTab (frame head a b rest)) :
    Free doubleTab (p ++ srCapable ++ q ++ srInsert q ++ case4359 ++ y) ∧
      chip (p ++ srCapable ++ q ++ srInsert q ++ case4359 ++ y) =
        some (p ++ srCapable ++ q ++ srInsert q ++ case4359 ++ y) := by
  have hboth : Free doubleTab (p ++ srCapable ++ q ++ srInsert q ++ case4359 ++ y) ∧
      ∃ u', rambase (p ++ srCapable ++ q ++ srInsert q ++ case4359 ++ y) = some u' ∧
        srCase u' = some (p ++ srCapable ++ q ++ srInsert q ++ case4359 ++ y) := by
    by_cases hin : case4361 <:+: q
    · have hsame : p ++ srCapable ++ q ++ srInsert q ++ case4359 ++ y = frame head a b rest := by
        rw [srInsert_of_mem hin, List.append_nil, hsr.eq]
      rw [hsame]
      exact ⟨hfree, _, h.rambase, hsame ▸ hsr.srCase⟩
    · have hinsert : srInsert q = ownLine := if_neg hin
      have hswap : Swap case4359 oneTab (frame head a b rest)
          (p ++ srCapable ++ q ++ srInsert q ++ case4359 ++ y) :=
        ⟨p ++ srCapable ++ q, y, hsr.eq, by simp only [hinsert, oneTab, List.append_assoc]⟩
      refine ⟨strings.doubleTab_oneTab.free_of_swap hswap hfree, ?_⟩
      rcases h.rambase_put hswap with hkept | hout
      · exact ⟨_, hkept, hsr.again⟩
      · exact ⟨_, hout, hsr.srCase⟩
  obtain ⟨hnone, u', hfirst, hsecond⟩ := hboth
  refine ⟨hnone, ?_⟩
  simp only [chip, hfirst, hsecond, Option.bind_eq_bind, Option.bind_some, Option.pure_def,
    replaceAll_of_free hnone]

end Parts

/-! ## 7. The edit, twice

The two halves are put together, with the tabs taken out in between. -/

section Twice

variable {t u w x y : Txt}

/-- The text after the first half has its parts. -/
theorem ChipOk.shape (hok : ChipOk t) (h : rambase t = some u) :
    ∃ head a b rest, Shape head a b rest ∧ u = frame head a b rest := by
  simp only [rambase, Option.bind_eq_bind, Option.bind_eq_some_iff, Option.pure_def,
    Option.some.injEq, Prod.exists] at h
  obtain ⟨head, tail, hname, fn, rest, hend, a, b, hcase, rfl⟩ := h
  obtain ⟨htaken, hfn⟩ := hok.taken head tail fn rest hname hend
  rw [cut_some hcase] at htaken hfn
  exact ⟨head, a, b, rest,
    { head := cut_free strings.once_tcmRambase.1 hname
      fn := hfn
      anchor := cut_free strings.once_case43751.1 hcase
      cases := htaken }, rfl⟩

/-- And before the second. -/
theorem ChipOk.srShape (hok : ChipOk t) (h : rambase t = some u) (hsr : srCase u = some x) :
    ∃ p q y, SrShape u p q y := by
  simp only [srCase, Option.bind_eq_bind, Option.bind_eq_some_iff, Option.pure_def,
    Prod.exists] at hsr
  obtain ⟨x, y, hlast, -⟩ := hsr
  obtain ⟨hu, hy⟩ := (rcut_iff strings.once_case4359.1).mp hlast
  cases hcut : rcut srCapable x with
  | none => exact absurd (hok.sr u x y h hlast) (rcut_none.mp hcut)
  | some r =>
    obtain ⟨p, q⟩ := r
    obtain ⟨hx, hq⟩ := (rcut_iff strings.once_srCapable.1).mp hcut
    exact ⟨p, q, y,
      { eq := by rw [hu, hx]
        last := hy.mono (List.suffix_append _ y).isInfix
        since := hq.mono (List.suffix_append _ q).isInfix }⟩

/-- Taking the tabs out one by one, before the second half and behind it. -/
theorem swaps_shape {v p q y head a b rest : Txt} (hshape : Shape head a b rest)
    (hsr : SrShape (frame head a b rest) p q y)
    (hswaps : Swaps doubleTab oneTab (frame head a b rest) v) :
    ∃ head' a' b' rest' p' q' y', Shape head' a' b' rest' ∧ v = frame head' a' b' rest' ∧
      SrShape v p' q' y' ∧
        Swaps doubleTab oneTab (p ++ srCapable ++ q ++ srInsert q ++ case4359 ++ y)
          (p' ++ srCapable ++ q' ++ srInsert q' ++ case4359 ++ y') := by
  induction hswaps with
  | refl => exact ⟨head, a, b, rest, p, q, y, hshape, rfl, hsr, .refl⟩
  | tail _ hswap ih =>
    obtain ⟨head', a', b', rest', p', q', y', hshape', rfl, hsr', hbehind⟩ := ih
    obtain ⟨head'', a'', b'', rest'', hshape'', rfl⟩ := hshape'.swap hswap
    obtain ⟨p'', q'', y'', hsr'', hlast⟩ := hsr'.swap hswap
    exact ⟨_, _, _, _, p'', q'', y'', hshape'', rfl, hsr'', hbehind.tail hlast⟩

/-- **The edit made twice** is the edit made once. -/
theorem chip_twice (hok : ChipOk t) (h : chip t = some w) : chip w = some w := by
  simp only [chip, Option.bind_eq_bind, Option.bind_eq_some_iff, Option.pure_def,
    Option.some.injEq] at h
  obtain ⟨u, hfirst, x, hsecond, rfl⟩ := h
  obtain ⟨head, a, b, rest, hshape, rfl⟩ := hok.shape hfirst
  obtain ⟨p, q, y, hsr⟩ := hok.srShape hfirst hsecond
  obtain rfl : p ++ srCapable ++ q ++ srInsert q ++ case4359 ++ y = x :=
    Option.some.inj (hsr.srCase.symm.trans hsecond)
  obtain ⟨hswaps, hnone⟩ := replaceAll_spec strings.once_doubleTab.1 strings.doubleTab_oneTab
    (frame head a b rest)
  obtain ⟨head', a', b', rest', p', q', y', hshape', hv, hsr', hbehind⟩ :=
    swaps_shape hshape hsr hswaps
  rw [hv] at hsr' hnone
  obtain ⟨hfree, hsettled⟩ := chip_settled hshape' hsr' hnone
  rw [replaceAll_swaps strings.once_doubleTab strings.doubleTab_oneTab hbehind,
    replaceAll_of_free hfree]
  exact hsettled

end Twice

end S9p.PatchTree
