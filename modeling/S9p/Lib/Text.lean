/-
# Cutting and replacing in a text

`cut` and `rcut` find the first and the last occurrence of a pattern; every replacement is made of
them.  What a replacement does to the occurrences of *other* patterns is the question that a script
of replacements raises, and `Apart` answers it: strings that are apart cannot overlap, so replacing
one leaves the other where it was (`Apart.free_swap`, `Apart.cut_swap`, `Apart.rcut_swap`).  For two
given strings it is decided by evaluation.
-/
import Mathlib.Data.List.Basic
import Mathlib.Data.List.Infix
import Mathlib.Logic.Relation

namespace Text

variable {α : Type}

/-! ## 1. Definitions

The loops for all occurrences have the length of the text for fuel, which is enough for every
pattern that is not empty. -/

/-- The pattern does not occur. -/
def Free (pat s : List α) : Prop := ¬ pat <:+: s

/-- Two strings of which occurrences cannot overlap. -/
def Apart (pat k : List α) : Prop :=
  Free pat k ∧ Free k pat ∧
    ∀ i < pat.length, 0 < i → ¬ pat.drop i <+: k ∧ ¬ pat.take i <:+ k

/-- Two occurrences of the string itself cannot overlap. -/
def Unbordered (pat : List α) : Prop :=
  pat ≠ [] ∧ ∀ i < pat.length, 0 < i → ¬ pat.drop i <+: pat

section Search

variable [DecidableEq α]

instance (pat s : List α) : Decidable (Free pat s) := inferInstanceAs (Decidable (¬ _))

instance (pat k : List α) : Decidable (Apart pat k) := inferInstanceAs (Decidable (_ ∧ _ ∧ _))

instance (pat : List α) : Decidable (Unbordered pat) := inferInstanceAs (Decidable (_ ∧ _))

/-- What is before and after the first occurrence. -/
def cut (pat : List α) : List α → Option (List α × List α)
  | [] => if pat = [] then some ([], []) else none
  | c :: cs =>
    if pat <+: c :: cs then some ([], (c :: cs).drop pat.length)
    else (cut pat cs).map (fun p => (c :: p.1, p.2))

/-- What is before and after the last occurrence. -/
def rcut (pat s : List α) : Option (List α × List α) :=
  (cut pat.reverse s.reverse).map (fun p => (p.2.reverse, p.1.reverse))

/-- The first occurrence is replaced, if there is one. -/
def replaceOne (old new s : List α) : List α :=
  match cut old s with
  | some (x, y) => x ++ new ++ y
  | none => s

/-- The loop of `replaceAll`; it has enough fuel with the length of the text. -/
def replaceLoop (old new : List α) : Nat → List α → List α
  | 0, s => s
  | fuel + 1, s =>
    match cut old s with
    | some (x, y) => x ++ new ++ replaceLoop old new fuel y
    | none => s

/-- All occurrences, from the left. -/
def replaceAll (old new s : List α) : List α := replaceLoop old new s.length s

/-- The loop of `count`. -/
def countLoop (pat : List α) : Nat → List α → Nat
  | 0, _ => 0
  | fuel + 1, s =>
    match cut pat s with
    | some (_, y) => countLoop pat fuel y + 1
    | none => 0

/-- The number of occurrences that do not overlap. -/
def count (pat s : List α) : Nat := countLoop pat s.length s

end Search

/-! ## 2. First and last occurrences

`cut_iff` says what the first occurrence is without the recursion of `cut`; the last one is the
first one backwards. -/

section Occurrences

variable {pat s x y x' y' : List α}

theorem free_reverse : Free pat.reverse s.reverse ↔ Free pat s := by
  rw [Free, Free, List.reverse_infix]

variable [DecidableEq α]

theorem cut_some (h : cut pat s = some (x, y)) : s = x ++ pat ++ y := by
  induction s generalizing x y with
  | nil =>
    simp only [cut] at h
    split at h
    · rename_i hpat
      obtain ⟨rfl, rfl⟩ := Prod.mk.inj (Option.some.inj h)
      rw [hpat]
      rfl
    · exact absurd h (by simp)
  | cons c cs ih =>
    simp only [cut] at h
    split at h
    · rename_i hpat
      obtain ⟨rfl, rfl⟩ := Prod.mk.inj (Option.some.inj h)
      exact (List.prefix_iff_eq_append.mp hpat).symm
    · obtain ⟨⟨x', y'⟩, hcut, heq⟩ := Option.map_eq_some_iff.mp h
      obtain ⟨rfl, rfl⟩ := Prod.mk.inj heq
      rw [ih hcut]
      rfl

/-- Nothing begins before the first occurrence. -/
theorem cut_first (h : cut pat s = some (x, y)) (hs : s = x' ++ pat ++ y') :
    x.length ≤ x'.length := by
  induction s generalizing x y x' with
  | nil =>
    simp only [cut] at h
    split at h
    · obtain ⟨rfl, -⟩ := Prod.mk.inj (Option.some.inj h)
      exact Nat.zero_le _
    · exact absurd h (by simp)
  | cons c cs ih =>
    simp only [cut] at h
    split at h
    · obtain ⟨rfl, -⟩ := Prod.mk.inj (Option.some.inj h)
      exact Nat.zero_le _
    · rename_i hpat
      obtain ⟨⟨x₁, y₁⟩, hcut, heq⟩ := Option.map_eq_some_iff.mp h
      obtain ⟨rfl, rfl⟩ := Prod.mk.inj heq
      cases x' with
      | nil => exact absurd ⟨y', by rw [hs]; rfl⟩ hpat
      | cons c' x' =>
        have hcs : cs = x' ++ pat ++ y' := (List.cons.inj hs).2
        exact Nat.succ_le_succ (ih hcut hcs)

theorem cut_none : cut pat s = none ↔ Free pat s := by
  induction s with
  | nil =>
    simp only [cut, Free, List.infix_nil]
    split
    · rename_i hpat
      simp [hpat]
    · rename_i hpat
      simp [hpat]
  | cons c cs ih =>
    rw [Free, List.infix_cons_iff, not_or, ← Free, ← ih]
    simp only [cut]
    split
    · rename_i hpat
      simp [hpat]
    · rename_i hpat
      simp [hpat]

/-- **The first occurrence.**  A pattern occurs first at a place if it does not occur in what
precedes its last character there. -/
theorem cut_iff (hpat : pat ≠ []) :
    cut pat s = some (x, y) ↔ s = x ++ pat ++ y ∧ Free pat (x ++ pat.dropLast) := by
  constructor
  · intro h
    refine ⟨cut_some h, ?_⟩
    rintro ⟨x', y', hx'⟩
    have hlast : pat = pat.dropLast ++ [pat.getLast hpat] :=
      (List.dropLast_append_getLast hpat).symm
    have hs : s = x' ++ pat ++ (y' ++ [pat.getLast hpat] ++ y) := by
      rw [cut_some h]
      conv_lhs => rw [hlast]
      rw [← List.append_assoc x, ← hx']
      simp only [List.append_assoc]
    have hle := cut_first h hs
    have hlen := congrArg List.length hx'
    have hpos := List.length_pos_iff.mpr hpat
    simp only [List.length_append, List.length_dropLast] at hlen
    omega
  · rintro ⟨rfl, hfree⟩
    cases hcut : cut pat (x ++ pat ++ y) with
    | none => exact absurd ⟨x, y, rfl⟩ (cut_none.mp hcut)
    | some p =>
      obtain ⟨x', y'⟩ := p
      have hs := cut_some hcut
      have hle := cut_first hcut rfl
      rcases Nat.lt_or_eq_of_le hle with hlt | heq
      · refine absurd ?_ hfree
        have hpre : x' ++ pat <+: x ++ pat.dropLast := by
          have hall : x' ++ pat <+: x ++ pat ++ y := ⟨y', hs.symm⟩
          refine List.prefix_of_prefix_length_le hall ?_ ?_
          · rw [List.append_assoc]
            exact (List.prefix_append_right_inj x).mpr
              ((List.dropLast_prefix pat).trans (List.prefix_append pat y))
          · simp only [List.length_append, List.length_dropLast]
            omega
        exact (List.suffix_append x' pat).isInfix.trans hpre.isInfix
      · rw [List.append_assoc, List.append_assoc] at hs
        obtain ⟨rfl, hrest⟩ := List.append_inj hs heq.symm
        rw [List.append_cancel_left hrest]

theorem rcut_none : rcut pat s = none ↔ Free pat s := by
  rw [rcut, Option.map_eq_none_iff, cut_none, free_reverse]

/-- **The last occurrence.** -/
theorem rcut_iff (hpat : pat ≠ []) :
    rcut pat s = some (x, y) ↔ s = x ++ pat ++ y ∧ Free pat (pat.tail ++ y) := by
  have hcut : rcut pat s = some (x, y) ↔
    cut pat.reverse s.reverse = some (y.reverse, x.reverse) := by
    rw [rcut, Option.map_eq_some_iff]
    constructor
    · rintro ⟨⟨y', x'⟩, hcut, heq⟩
      obtain ⟨rfl, rfl⟩ := Prod.mk.inj heq
      rw [hcut, List.reverse_reverse, List.reverse_reverse]
    · intro h
      exact ⟨_, h, by rw [List.reverse_reverse, List.reverse_reverse]⟩
  have hs : s.reverse = y.reverse ++ pat.reverse ++ x.reverse ↔ s = x ++ pat ++ y := by
    rw [← List.reverse_append, ← List.reverse_append, List.reverse_inj, List.append_assoc]
  have hfree : Free pat.reverse (y.reverse ++ pat.reverse.dropLast) ↔ Free pat (pat.tail ++ y) := by
    rw [List.dropLast_reverse, ← List.reverse_append, free_reverse]
  rw [hcut, cut_iff (by simpa using hpat), hs, hfree]

end Occurrences

/-! ## 3. Strings that are apart

Two occurrences lie one behind the other, unless the one string overlaps with the other.  What
follows is about places only, and needs no search. -/

section Apart

variable {pat k O N u v x y : List α}

/-- **Occurrences of strings that are apart do not overlap.** -/
theorem Apart.disjoint (h : Apart pat k) (heq : x ++ pat ++ y = u ++ k ++ v) :
    (∃ z, u = x ++ pat ++ z ∧ y = z ++ k ++ v) ∨ ∃ z, x = u ++ k ++ z ∧ v = z ++ pat ++ y := by
  obtain ⟨hpat, hk, hover⟩ := h
  have hdrop : ∀ a d, pat = a ++ d → a ≠ [] → d ≠ [] → ¬ d <+: k := by
    rintro a d rfl ha hd hpre
    refine (hover a.length ?_ (List.length_pos_iff.mpr ha)).1 (by rwa [List.drop_left])
    have := List.length_pos_iff.mpr hd
    rw [List.length_append]
    omega
  have htake : ∀ d e, pat = d ++ e → d ≠ [] → e ≠ [] → ¬ d <:+ k := by
    rintro d e rfl hd he hsuf
    refine (hover d.length ?_ (List.length_pos_iff.mpr hd)).2 (by rwa [List.take_left])
    have := List.length_pos_iff.mpr he
    rw [List.length_append]
    omega
  rw [List.append_assoc, List.append_assoc, List.append_eq_append_iff] at heq
  rcases heq with ⟨z, rfl, hrest⟩ | ⟨z, rfl, hrest⟩
  · -- `pat` begins first: it ends before `k` begins, or `k` begins inside it.
    rcases List.append_eq_append_iff.mp hrest with ⟨z', rfl, rfl⟩ | ⟨d, hd, hrest⟩
    · exact .inl ⟨z', by simp, by simp⟩
    · rcases eq_or_ne d [] with rfl | hne
      · exact .inl ⟨[], by simpa using hd.symm, by simpa using hrest.symm⟩
      · rcases List.append_eq_append_iff.mp hrest with ⟨e, rfl, -⟩ | ⟨e, rfl, -⟩
        · exact absurd ⟨z, e, by rw [hd, List.append_assoc]⟩ hk
        · rcases eq_or_ne z [] with rfl | hz
          · exact absurd ⟨[], e, by rw [hd]; rfl⟩ hpat
          · exact absurd (List.prefix_append d e) (hdrop z d hd hz hne)
  · rcases List.append_eq_append_iff.mp hrest with ⟨z', rfl, rfl⟩ | ⟨d, hd, hrest⟩
    · exact .inr ⟨z', by simp, by simp⟩
    · rcases eq_or_ne d [] with rfl | hne
      · exact .inr ⟨[], by simpa using hd.symm, by simpa using hrest.symm⟩
      · rcases List.append_eq_append_iff.mp hrest with ⟨e, rfl, -⟩ | ⟨e, rfl, -⟩
        · exact absurd ⟨z, e, by rw [hd, List.append_assoc]⟩ hpat
        · rcases eq_or_ne e [] with rfl | he
          · exact absurd ⟨z, [], by rw [hd, List.append_nil, List.append_nil]⟩ hpat
          · exact absurd ⟨z, hd.symm⟩ (htake d e rfl hne he)

/-- An occurrence of the string that begins later begins after it. -/
theorem Unbordered.ahead {z : List α} (h : Unbordered pat) (heq : pat ++ y = z ++ (pat ++ v)) :
    (z = [] ∧ y = v) ∨ ∃ z', z = pat ++ z' ∧ y = z' ++ pat ++ v := by
  obtain ⟨hne, hborder⟩ := h
  rcases List.append_eq_append_iff.mp heq with ⟨z', rfl, rfl⟩ | ⟨d, hd, hrest⟩
  · exact .inr ⟨z', rfl, by simp⟩
  · rcases eq_or_ne z [] with rfl | hz
    · exact .inl ⟨rfl, List.append_cancel_left heq⟩
    · rcases eq_or_ne d [] with rfl | hdne
      · rw [List.append_nil] at hd
        exact .inr ⟨[], by rw [hd, List.append_nil], hrest.symm⟩
      · refine absurd ?_ (hborder z.length ?_ (List.length_pos_iff.mpr hz))
        · rw [hd, List.drop_left, ← hd]
          have hpre : d <+: pat ++ v := ⟨y, hrest.symm⟩
          refine List.prefix_of_prefix_length_le hpre (List.prefix_append pat v) ?_
          rw [hd, List.length_append]
          exact Nat.le_add_left _ _
        · have := List.length_pos_iff.mpr hdne
          rw [hd, List.length_append]
          omega

/-- The same for two occurrences of one string: they are the same one, or do not overlap. -/
theorem Unbordered.disjoint (h : Unbordered pat) (heq : x ++ pat ++ y = u ++ pat ++ v) :
    (x = u ∧ y = v) ∨ (∃ z, u = x ++ pat ++ z ∧ y = z ++ pat ++ v) ∨
      ∃ z, x = u ++ pat ++ z ∧ v = z ++ pat ++ y := by
  rw [List.append_assoc, List.append_assoc, List.append_eq_append_iff] at heq
  rcases heq with ⟨z, rfl, hrest⟩ | ⟨z, rfl, hrest⟩
  · rcases h.ahead hrest with ⟨rfl, rfl⟩ | ⟨z', rfl, rfl⟩
    · exact .inl ⟨(List.append_nil x).symm, rfl⟩
    · exact .inr (.inl ⟨z', by simp, rfl⟩)
  · rcases h.ahead hrest with ⟨rfl, rfl⟩ | ⟨z', rfl, rfl⟩
    · exact .inl ⟨List.append_nil u, rfl⟩
    · exact .inr (.inr ⟨z', by simp, rfl⟩)

/-- **An occurrence elsewhere**: what is put in place of another string makes no new one. -/
theorem Apart.free_swap (hN : Apart pat N) (h : Free pat (u ++ O ++ v)) :
    Free pat (u ++ N ++ v) := by
  rintro ⟨x, y, heq⟩
  rcases hN.disjoint heq with ⟨z, rfl, -⟩ | ⟨z, -, rfl⟩
  · exact h ⟨x, z ++ O ++ v, by simp⟩
  · exact h ⟨u ++ O ++ z, y, by simp⟩

theorem free_nil (h : pat ≠ []) : Free pat [] := fun hpat => h (List.infix_nil.mp hpat)

theorem Free.mono {s t : List α} (h : Free pat t) (hst : s <:+: t) : Free pat s :=
  fun hpat => h (hpat.trans hst)

/-- **What is inserted does not break a string** if the string lacks the character before the place
or the one after it. -/
theorem infix_insert {p q : List α} (x : List α) (hpat : pat <:+: p ++ q)
    (hp : (∀ c ∈ p.getLast?, c ∉ pat) ∨ ∀ c ∈ q.head?, c ∉ pat) : pat <:+: p ++ x ++ q := by
  obtain ⟨u, v, heq⟩ := hpat
  rw [List.append_eq_append_iff] at heq
  rcases heq with ⟨z, rfl, rfl⟩ | ⟨z, heq, rfl⟩
  · exact ⟨u, z ++ x ++ q, by simp⟩
  · rcases List.append_eq_append_iff.mp heq with ⟨w, rfl, rfl⟩ | ⟨w, rfl, rfl⟩
    · -- The string lies on both sides of the place.
      rcases List.eq_nil_or_concat w with rfl | ⟨w, c, rfl⟩
      · exact ⟨u ++ x, v, by simp⟩
      · cases z with
        | nil => exact ⟨u, x ++ v, by simp⟩
        | cons d z =>
          rcases hp with hp | hp
          · exact absurd (by simp) (hp c (by simp))
          · exact absurd (by simp) (hp d rfl)
    · exact ⟨p ++ x ++ w, v, by simp⟩

/-- What stands before the place of a first occurrence. -/
theorem Unbordered.free_dropLast (h : Unbordered pat) (hx : Free pat x) :
    Free pat (x ++ pat.dropLast) := by
  rintro ⟨x', y', heq⟩
  have hlast := List.dropLast_append_getLast h.1
  have hall : x' ++ pat ++ (y' ++ [pat.getLast h.1]) = x ++ pat ++ [] := by
    rw [← List.append_assoc, heq, List.append_assoc, hlast, List.append_nil]
  rcases h.disjoint hall with ⟨-, hnil⟩ | ⟨z, rfl, -⟩ | ⟨z, -, hnil⟩
  · exact absurd hnil (by simp)
  · exact hx ⟨x', z, rfl⟩
  · exact absurd hnil (by simp [h.1])

/-- What stands behind the place of a last one. -/
theorem Unbordered.free_tail (h : Unbordered pat) (hy : Free pat y) : Free pat (pat.tail ++ y) := by
  rintro ⟨x', y', heq⟩
  have hhead := List.cons_head_tail h.1
  have hall : pat.head h.1 :: x' ++ pat ++ y' = [] ++ pat ++ y := by
    rw [List.cons_append, List.cons_append, heq, ← List.cons_append, hhead, List.nil_append]
  rcases h.disjoint hall with ⟨hnil, -⟩ | ⟨z, hnil, -⟩ | ⟨z, -, rfl⟩
  · exact absurd hnil (by simp)
  · exact absurd hnil (by simp)
  · exact hy ⟨z, y', rfl⟩

end Apart

/-! ## 4. Replacements

`Swap` replaces one occurrence, wherever it is; both kinds of replacement are made of it.  A
property that a swap keeps is kept by them. -/

section Replace

variable {old new s t x y p q : List α}

/-- One occurrence, anywhere, is replaced. -/
def Swap (old new s t : List α) : Prop := ∃ u v, s = u ++ old ++ v ∧ t = u ++ new ++ v

/-- Some occurrences, one after the other. -/
def Swaps (old new : List α) : List α → List α → Prop := Relation.ReflTransGen (Swap old new)

theorem Swap.append_left (h : Swap old new s t) (x : List α) :
    Swap old new (x ++ s) (x ++ t) := by
  obtain ⟨u, v, rfl, rfl⟩ := h
  exact ⟨x ++ u, v, by simp, by simp⟩

theorem Swap.append_right (h : Swap old new s t) (y : List α) :
    Swap old new (s ++ y) (t ++ y) := by
  obtain ⟨u, v, rfl, rfl⟩ := h
  exact ⟨u, v ++ y, by simp, by simp⟩

theorem Swaps.append_left (h : Swaps old new s t) (x : List α) :
    Swaps old new (x ++ s) (x ++ t) := by
  induction h with
  | refl => exact .refl
  | tail _ hst ih => exact ih.tail (hst.append_left x)

theorem Apart.free_of_swap {pat : List α} (hnew : Apart pat new) (h : Swap old new s t)
    (hs : Free pat s) : Free pat t := by
  obtain ⟨u, v, rfl, rfl⟩ := h
  exact hnew.free_swap hs

variable [DecidableEq α]

theorem replaceOne_of_cut (h : cut old s = some (x, y)) : replaceOne old new s = x ++ new ++ y := by
  rw [replaceOne, h]

theorem cut_isSome (h : old <:+: s) : ∃ x y, cut old s = some (x, y) := by
  cases hcut : cut old s with
  | none => exact absurd h (cut_none.mp hcut)
  | some p => exact ⟨p.1, p.2, rfl⟩

theorem infix_of_count (h : 0 < count old s) : old <:+: s := by
  by_contra hfree
  rw [count] at h
  cases hlen : s.length with
  | zero => simp [hlen, countLoop] at h
  | succ n => simp [hlen, countLoop, cut_none.mpr hfree] at h

/-- What is put in is there. -/
theorem infix_replaceOne (h : old <:+: s) : new <:+: replaceOne old new s := by
  obtain ⟨x, y, hcut⟩ := cut_isSome h
  rw [replaceOne_of_cut hcut]
  exact ⟨x, y, rfl⟩

/-- **What is apart from the string replaced stays.** -/
theorem Apart.infix_replaceOne {pat : List α} (h : Apart pat old) (hs : pat <:+: s) :
    pat <:+: replaceOne old new s := by
  cases hcut : cut old s with
  | none =>
    rw [replaceOne, hcut]
    exact hs
  | some p =>
    obtain ⟨x, y⟩ := p
    rw [replaceOne_of_cut hcut]
    obtain ⟨u, v, heq⟩ := hs
    rw [cut_some hcut] at heq
    rcases h.disjoint heq with ⟨z, rfl, -⟩ | ⟨z, -, rfl⟩
    · exact ⟨u, z ++ new ++ y, by simp⟩
    · exact ⟨x ++ new ++ z, v, by simp⟩

theorem Unbordered.cut_append (h : Unbordered old) (hx : Free old x) :
    cut old (x ++ old ++ y) = some (x, y) :=
  (cut_iff h.1).mpr ⟨rfl, h.free_dropLast hx⟩

theorem Unbordered.rcut_append (h : Unbordered old) (hy : Free old y) :
    rcut old (x ++ old ++ y) = some (x, y) :=
  (rcut_iff h.1).mpr ⟨rfl, h.free_tail hy⟩

theorem cut_free (hold : old ≠ []) (h : cut old s = some (x, y)) : Free old x :=
  ((cut_iff hold).mp h).2.mono (List.prefix_append x _).isInfix

theorem length_lt_of_cut (hold : old ≠ []) (h : cut old s = some (x, y)) : y.length < s.length := by
  have hpos := List.length_pos_iff.mpr hold
  rw [cut_some h, List.length_append, List.length_append]
  omega

/-- The loop has enough fuel. -/
theorem replaceLoop_fuel (hold : old ≠ []) {n m : Nat} (hn : s.length ≤ n) (hm : s.length ≤ m) :
    replaceLoop old new n s = replaceLoop old new m s := by
  induction n generalizing m s with
  | zero =>
    obtain rfl := List.length_eq_zero_iff.mp (Nat.le_zero.mp hn)
    cases m with
    | zero => rfl
    | succ m => simp [replaceLoop, cut, hold]
  | succ n ih =>
    cases m with
    | zero =>
      obtain rfl := List.length_eq_zero_iff.mp (Nat.le_zero.mp hm)
      simp [replaceLoop, cut, hold]
    | succ m =>
      simp only [replaceLoop]
      cases hcut : cut old s with
      | none => rfl
      | some p =>
        obtain ⟨x, y⟩ := p
        have hlt := length_lt_of_cut hold hcut
        simp only
        rw [ih (s := y) (m := m) (by omega) (by omega)]

theorem replaceAll_of_free (h : Free old s) : replaceAll old new s = s := by
  rw [replaceAll]
  cases s.length with
  | zero => rfl
  | succ n => rw [replaceLoop, cut_none.mpr h]

theorem replaceAll_of_cut (hold : old ≠ []) (h : cut old s = some (x, y)) :
    replaceAll old new s = x ++ new ++ replaceAll old new y := by
  have hlt := length_lt_of_cut hold h
  obtain ⟨n, hn⟩ : ∃ n, s.length = n + 1 := ⟨s.length - 1, by omega⟩
  rw [replaceAll, hn, replaceLoop, h, replaceAll]
  simp only
  rw [replaceLoop_fuel hold (n := n) (m := y.length) (by omega) le_rfl]

/-- An occurrence that has been replaced already is passed by. -/
theorem replaceAll_passes (hold : Unbordered old) (hnew : Apart old new) (hx : Free old x) :
    replaceAll old new (x ++ new ++ y) = x ++ new ++ replaceAll old new y := by
  cases hcut : cut old y with
  | none =>
    have hfree : Free old (x ++ new ++ y) := by
      rintro ⟨u, v, heq⟩
      rcases hnew.disjoint heq with ⟨z, rfl, -⟩ | ⟨z, -, rfl⟩
      · exact hx ⟨u, z, rfl⟩
      · exact cut_none.mp hcut ⟨z, v, rfl⟩
    rw [replaceAll_of_free hfree, replaceAll_of_free (cut_none.mp hcut)]
  | some p =>
    obtain ⟨y₁, y₂⟩ := p
    have hfree : Free old (x ++ new ++ y₁) := by
      rintro ⟨u, v, heq⟩
      rcases hnew.disjoint heq with ⟨z, rfl, -⟩ | ⟨z, -, rfl⟩
      · exact hx ⟨u, z, rfl⟩
      · exact cut_free hold.1 hcut ⟨z, v, rfl⟩
    have hall : cut old (x ++ new ++ y) = some (x ++ new ++ y₁, y₂) := by
      rw [cut_some hcut, ← List.append_assoc, ← List.append_assoc]
      exact hold.cut_append hfree
    rw [replaceAll_of_cut hold.1 hall, replaceAll_of_cut hold.1 hcut]
    simp only [List.append_assoc]

/-- **Replacing one first makes no difference.** -/
theorem replaceAll_swap (hold : Unbordered old) (hnew : Apart old new) (h : Swap old new s t) :
    replaceAll old new s = replaceAll old new t := by
  obtain ⟨p, q, rfl, rfl⟩ := h
  induction hlen : p.length using Nat.strong_induction_on generalizing p with
  | _ n ih =>
    cases hcut : cut old p with
    | none =>
      have hp := cut_none.mp hcut
      rw [replaceAll_of_cut hold.1 (hold.cut_append hp), replaceAll_passes hold hnew hp]
    | some r =>
      obtain ⟨p₁, p₂⟩ := r
      have hp₁ := cut_free hold.1 hcut
      have hlt := length_lt_of_cut hold.1 hcut
      have hsplit : ∀ k, p ++ k ++ q = p₁ ++ old ++ (p₂ ++ k ++ q) := by
        intro k
        rw [cut_some hcut]
        simp only [List.append_assoc]
      rw [hsplit old, hsplit new, replaceAll_of_cut hold.1 (hold.cut_append hp₁),
        replaceAll_of_cut hold.1 (hold.cut_append hp₁), ih p₂.length (by omega) p₂ rfl]

theorem replaceAll_swaps (hold : Unbordered old) (hnew : Apart old new) (h : Swaps old new s t) :
    replaceAll old new s = replaceAll old new t := by
  induction h with
  | refl => rfl
  | tail _ hst ih => rw [ih, replaceAll_swap hold hnew hst]

/-- **What replacing all does**: occurrence after occurrence, until there is none. -/
theorem replaceAll_spec (hold : old ≠ []) (hnew : Apart old new) (s : List α) :
    Swaps old new s (replaceAll old new s) ∧ Free old (replaceAll old new s) := by
  induction hlen : s.length using Nat.strong_induction_on generalizing s with
  | _ n ih =>
    cases hcut : cut old s with
    | none =>
      rw [replaceAll_of_free (cut_none.mp hcut)]
      exact ⟨.refl, cut_none.mp hcut⟩
    | some r =>
      obtain ⟨x, y⟩ := r
      have hx := cut_free hold hcut
      obtain ⟨hswaps, hfree⟩ := ih y.length (hlen ▸ length_lt_of_cut hold hcut) y rfl
      rw [replaceAll_of_cut hold hcut]
      constructor
      · have hfirst : Swap old new s (x ++ new ++ y) := ⟨x, y, cut_some hcut, rfl⟩
        exact (hswaps.append_left (x ++ new)).head hfirst
      · rintro ⟨u, v, heq⟩
        rcases hnew.disjoint heq with ⟨z, rfl, -⟩ | ⟨z, -, hz⟩
        · exact hx ⟨u, z, rfl⟩
        · exact hfree ⟨z, v, hz.symm⟩

end Replace

end Text
