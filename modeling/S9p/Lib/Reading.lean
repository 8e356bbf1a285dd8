/-
# Words and numbers in texts

What Python's `split()`, `split()[0]`, `int(text)` and `int(text, 0)` make of a text: `words`,
`firstWord`, `int` and `int0`.  All of it is for ASCII texts.  Python takes the decimal digits and
the blanks of other alphabets as well, and a program that may be given those needs more than this.

A text without blanks is its own first word, and a natural number is read back from its decimal
form.
-/
import Mathlib.Data.List.TakeWhile

namespace Reading

/-! ## 1. Words

The definitions go through the text once, from the left, as the words come.  A word that has been
begun is kept reversed. -/

/-- `str.isspace` of an ASCII character. -/
def space (c : Char) : Bool :=
  c.toNat = 32 || (9 ≤ c.toNat && c.toNat ≤ 13) || (28 ≤ c.toNat && c.toNat ≤ 31)

/-- `strip()`. -/
def strip (cs : List Char) : List Char :=
  ((cs.dropWhile space).reverse.dropWhile space).reverse

/-- `split()[0]`, if there is a word. -/
def firstWord (text : String) : Option String :=
  match (text.toList.dropWhile space).takeWhile (fun c => !space c) with
  | [] => none
  | c :: cs => some (String.ofList (c :: cs))

/-- The words of a text, `w` being the one that has been begun, from its end. -/
def wordsFrom (w : List Char) : List Char → List String
  | [] => if w = [] then [] else [String.ofList w.reverse]
  | c :: cs =>
      if space c then
        if w = [] then wordsFrom [] cs else String.ofList w.reverse :: wordsFrom [] cs
      else wordsFrom (c :: w) cs

/-- `split()`. -/
def words (text : String) : List String := wordsFrom [] text.toList

example : words " a  bc\n" = ["a", "bc"] := by decide +kernel

theorem firstWord_ofList {c : Char} {cs : List Char} (h : ∀ d ∈ c :: cs, space d = false) :
    firstWord (String.ofList (c :: cs)) = some (String.ofList (c :: cs)) := by
  have hdrop : (c :: cs).dropWhile space = c :: cs := by
    rw [List.dropWhile_cons, h c List.mem_cons_self]
    rfl
  have htake : (c :: cs).takeWhile (fun d => !space d) = c :: cs := by
    refine List.takeWhile_eq_self_iff.mpr (fun d hd => ?_)
    rw [h d hd]
    rfl
  simp only [firstWord, String.toList_ofList, hdrop, htake]

theorem strip_of_no_space {cs : List Char} (h : ∀ c ∈ cs, space c = false) : strip cs = cs := by
  have hdrop : ∀ {l : List Char}, (∀ c ∈ l, space c = false) → l.dropWhile space = l := by
    intro l hl
    cases l with
    | nil => rfl
    | cons c l =>
      rw [List.dropWhile_cons, hl c List.mem_cons_self]
      rfl
  rw [strip, hdrop h, hdrop (fun c hc => h c (List.mem_reverse.mp hc)), List.reverse_reverse]

/-- What is behind a text that neither begins nor ends with a blank is shortened at most. -/
theorem strip_append {key t : List Char} (hhead : key.head?.any (fun c => !space c) = true)
    (hlast : key.reverse.head?.any (fun c => !space c) = true) :
    ∃ u, strip (key ++ t) = key ++ u ∧ u <+: t := by
  have hfirst : (key ++ t).dropWhile space = key ++ t := by
    cases key with
    | nil => exact absurd hhead (by simp)
    | cons c cs => rw [List.cons_append, List.dropWhile_cons, if_neg (by simpa using hhead)]
  have hkey : key.reverse.dropWhile space = key.reverse := by
    cases hrev : key.reverse with
    | nil => rfl
    | cons c cs =>
      rw [hrev] at hlast
      rw [List.dropWhile_cons, if_neg (by simpa using hlast)]
  refine ⟨(t.reverse.dropWhile space).reverse, ?_, ?_⟩
  · rw [strip, hfirst, List.reverse_append, List.dropWhile_append]
    split
    · rename_i hempty
      rw [List.isEmpty_iff.mp hempty, hkey]
      simp
    · rw [List.reverse_append, List.reverse_reverse]
  · have hsuffix := List.reverse_prefix.mpr (List.dropWhile_suffix space (l := t.reverse))
    rwa [List.reverse_reverse] at hsuffix

/-! ## 2. Numbers

The sign stands in front of the prefix, and single underscores may stand between digits.  Whatever
is not a number gives `none`, which is where Python raises an error. -/

/-- The value of a digit; at least 36 for what is none. -/
def digit (c : Char) : Nat :=
  if 48 ≤ c.toNat ∧ c.toNat ≤ 57 then c.toNat - 48
  else if 97 ≤ c.toNat ∧ c.toNat ≤ 122 then c.toNat - 87
  else if 65 ≤ c.toNat ∧ c.toNat ≤ 90 then c.toNat - 55
  else 36

/-- Digits of a base, with single underscores between them. -/
def number (base acc : Nat) : List Char → Option Nat
  | [] => none
  | [c] => if digit c < base then some (acc * base + digit c) else none
  | c :: d :: cs =>
      if digit c < base then
        if d = '_' then number base (acc * base + digit c) cs
        else number base (acc * base + digit c) (d :: cs)
      else none

/-- A number in base 0: the prefix says the base, and a decimal one begins with `0` only if it is
zero. -/
def literal (cs : List Char) : Option Nat :=
  let based (base : Nat) (rest : List Char) : Option Nat :=
    number base 0 (if rest.head? = some '_' then rest.tail else rest)
  match cs with
  | '0' :: 'x' :: rest => based 16 rest
  | '0' :: 'X' :: rest => based 16 rest
  | '0' :: 'o' :: rest => based 8 rest
  | '0' :: 'O' :: rest => based 8 rest
  | '0' :: 'b' :: rest => based 2 rest
  | '0' :: 'B' :: rest => based 2 rest
  | '0' :: rest => (number 10 0 ('0' :: rest)).filter (· = 0)
  | cs => number 10 0 cs

/-- The sign, if there is one. -/
def signed (magnitude : List Char → Option Nat) : List Char → Option Int
  | '-' :: cs => (magnitude cs).map (fun n => -(n : Int))
  | '+' :: cs => (magnitude cs).map (fun n => (n : Int))
  | cs => (magnitude cs).map (fun n => (n : Int))

/-- `int(text)`. -/
def int (text : String) : Option Int := signed (number 10 0) (strip text.toList)

/-- `int(text, 0)`. -/
def int0 (text : String) : Option Int := signed literal (strip text.toList)

example : int0 "0x6c" = some 108 ∧ int0 "-1_0" = some (-10) ∧ int0 "010" = none ∧
    int0 "on" = none := by decide +kernel

/-! ## 3. Decimal forms

What one program prints with a plain format the other reads back.  The digits are those of
`Nat.toDigits`, so that its lemmas in the library can be used. -/

theorem digit_of_isDigit {c : Char} (h : c.isDigit = true) :
    digit c = c.toNat - '0'.toNat ∧ digit c < 10 ∧ space c = false ∧ c ≠ '_' := by
  have hc : 48 ≤ c.toNat ∧ c.toNat ≤ 57 := by
    simpa [Char.isDigit, UInt32.le_iff_toNat_le] using h
  have hdigit : digit c = c.toNat - 48 := if_pos hc
  refine ⟨hdigit, by omega, ?_, ?_⟩
  · simp only [space, Bool.or_eq_false_iff, Bool.and_eq_false_iff, decide_eq_false_iff_not]
    omega
  · rintro rfl
    exact absurd hc.2 (by decide)

theorem number_of_isDigit : ∀ {cs : List Char} {acc : Nat}, (∀ c ∈ cs, c.isDigit = true) → cs ≠ [] →
    number 10 acc cs = some (Nat.ofDigitChars 10 cs acc)
  | [], _, _, hne => absurd rfl hne
  | [c], acc, h, _ => by
    obtain ⟨hdigit, hlt, -, -⟩ := digit_of_isDigit (h c List.mem_cons_self)
    rw [number, if_pos hlt, Nat.ofDigitChars_cons, Nat.ofDigitChars_nil, hdigit, Nat.mul_comm]
  | c :: d :: cs, acc, h, _ => by
    obtain ⟨hdigit, hlt, -, -⟩ := digit_of_isDigit (h c List.mem_cons_self)
    have htail : ∀ e ∈ d :: cs, e.isDigit = true := fun e he => h e (List.mem_cons_of_mem _ he)
    obtain ⟨-, -, -, hne⟩ := digit_of_isDigit (htail d List.mem_cons_self)
    rw [number, if_pos hlt, if_neg hne, number_of_isDigit htail (by simp),
      Nat.ofDigitChars_cons (c := c), hdigit, Nat.mul_comm]

/-- **A natural number is read back** from its decimal form. -/
theorem int_toDigits (n : Nat) : int (String.ofList (Nat.toDigits 10 n)) = some (n : Int) := by
  have hdigits : ∀ c ∈ Nat.toDigits 10 n, c.isDigit = true := fun c hc =>
    Nat.isDigit_of_mem_toDigits (by omega) (by omega) hc
  have hnumber : number 10 0 (Nat.toDigits 10 n) =
      some (Nat.ofDigitChars 10 (Nat.toDigits 10 n) 0) :=
    number_of_isDigit hdigits Nat.toDigits_ne_nil
  rw [Nat.ofDigitChars_ten_toDigits] at hnumber
  rw [int, String.toList_ofList,
    strip_of_no_space (fun c hc => (digit_of_isDigit (hdigits c hc)).2.2.1)]
  unfold signed
  split
  · rename_i cs heq
    exact absurd (hdigits '-' (heq ▸ List.mem_cons_self)) (by decide)
  · rename_i cs heq
    exact absurd (hdigits '+' (heq ▸ List.mem_cons_self)) (by decide)
  · rw [hnumber]
    rfl

end Reading
