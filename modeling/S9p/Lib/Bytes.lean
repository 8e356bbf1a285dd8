/-
# Byte strings: slices, fixed-width integers, page layout

A binary format is written and read in four ways, and each has its rule here.

* A field is `patch`ed into a buffer and read back by its `slice`; a patch elsewhere does not
  show.  `Writes` is all a reader can tell of a patch.
* An integer is packed into `k` bytes, little-endian or big-endian, and `unpackLe`,
  `unpackBe` give it back as long as it fits.
* Sections are padded to whole pages and put one after the other; a reader that knows only
  their sizes `walk`s over them.  `walk_layout`: whatever stands in front of and after them,
  it finds exactly the sections.
* A table that says where each section is has `places`: one after the other, without a gap, and
  `slice_places` reads the section there.
-/
import Mathlib.Data.List.Basic
import Mathlib.Tactic.Ring

abbrev Bytes := List UInt8

namespace Bytes

/-! ## 1. Slices

A slice that goes past the end is shorter, and not an error, as in the languages that have slices.
-/

/-- `b[i:j]`. -/
def slice (b : Bytes) (i j : Nat) : Bytes := (b.drop i).take (j - i)

def zeros (n : Nat) : Bytes := List.replicate n 0

@[simp] theorem length_zeros (n : Nat) : (zeros n).length = n := List.length_replicate

theorem length_slice {b : Bytes} {i j : Nat} (h : j ≤ b.length) :
    (slice b i j).length = j - i := by
  simp only [slice, List.length_take, List.length_drop]
  omega

theorem slice_append_left {a b : Bytes} {i j : Nat} (h : j ≤ a.length) :
    slice (a ++ b) i j = slice a i j := by
  unfold slice
  rcases Nat.le_total i j with hij | hij
  · rw [List.drop_append_of_le_length (by omega), List.take_append_of_le_length]
    rw [List.length_drop]
    omega
  · simp [Nat.sub_eq_zero_of_le hij]

theorem slice_append_right {a b : Bytes} {i j : Nat} (h : a.length ≤ i) :
    slice (a ++ b) i j = slice b (i - a.length) (j - a.length) := by
  unfold slice
  rw [List.drop_append, List.drop_eq_nil_of_le h, List.nil_append]
  congr 1
  omega

/-- What stands between two strings is found by its length. -/
theorem slice_middle (a b c : Bytes) : slice (a ++ b ++ c) a.length (a.length + b.length) = b := by
  rw [List.append_assoc, slice_append_right le_rfl, slice_append_left (by omega)]
  simp [slice]

theorem slice_zero_length (b : Bytes) : slice b 0 b.length = b := by simp [slice]

/-- Two slices that meet are one. -/
theorem slice_append_slice (b : Bytes) {i j k : Nat} (hij : i ≤ j) (hjk : j ≤ k) :
    slice b i j ++ slice b j k = slice b i k := by
  have hj : j = i + (j - i) := by omega
  have hk : k - i = (j - i) + (k - j) := by omega
  rw [slice, slice, slice, hk, List.take_add, List.drop_drop, ← hj]

theorem slice_zeros {n i j : Nat} (h : j ≤ n) : slice (zeros n) i j = zeros (j - i) := by
  rw [slice, zeros, List.drop_replicate, List.take_replicate]
  congr 1
  omega

/-- A slice of a slice. -/
theorem slice_slice {b : Bytes} {i j k l : Nat} (h : i + l ≤ j) :
    slice (slice b i j) k l = slice b (i + k) (i + l) := by
  unfold slice
  rw [List.drop_take, List.drop_drop, List.take_take]
  congr 1
  omega

/-! ## 2. Patches

A header is built by patches at fixed offsets, and a later patch may fall into an earlier field only
where the format has it so: each use shows that it does not. -/

/-- The buffer `b` with `x` written at `off`. -/
def patch (b : Bytes) (off : Nat) (x : Bytes) : Bytes :=
  b.take off ++ x ++ b.drop (off + x.length)

theorem length_patch {b x : Bytes} {off : Nat} (h : off + x.length ≤ b.length) :
    (patch b off x).length = b.length := by
  simp only [patch, List.length_append, List.length_take, List.length_drop]
  omega

theorem slice_patch {b x : Bytes} {off : Nat} (h : off ≤ b.length) :
    slice (patch b off x) off (off + x.length) = x := by
  have hlen : (b.take off).length = off := by rw [List.length_take]; omega
  have hmid := slice_middle (b.take off) x (b.drop (off + x.length))
  rwa [hlen] at hmid

/-- A patch behind a field does not show in it. -/
theorem slice_patch_before {b x : Bytes} {off i j : Nat} (hoff : off ≤ b.length) (h : j ≤ off) :
    slice (patch b off x) i j = slice b i j := by
  have hlen : (b.take off).length = off := by rw [List.length_take]; omega
  rw [patch, List.append_assoc, slice_append_left (by omega)]
  conv_rhs => rw [← List.take_append_drop off b]
  rw [slice_append_left (by omega)]

/-- Nor does a patch in front of it. -/
theorem slice_patch_after {b x : Bytes} {off i j : Nat} (hoff : off + x.length ≤ b.length)
    (h : off + x.length ≤ i) : slice (patch b off x) i j = slice b i j := by
  have hlen : (b.take off ++ x).length = off + x.length := by
    rw [List.length_append, List.length_take]
    omega
  have hlen' : (b.take (off + x.length)).length = off + x.length := by
    rw [List.length_take]
    omega
  rw [patch, slice_append_right (by omega), hlen]
  conv_rhs => rw [← List.take_append_drop (off + x.length) b]
  rw [slice_append_right (by omega), hlen']

/-- `b'` is `b` with `x` written at `off`, as far as slices can tell.  Two buffers with the same
slices are not told apart by any reader of this kind, so this is used in place of an equation. -/
structure Writes (b b' : Bytes) (off : Nat) (x : Bytes) : Prop where
  length : b'.length = b.length
  here : slice b' off (off + x.length) = x
  before : ∀ i j, j ≤ off → slice b' i j = slice b i j
  after : ∀ i j, off + x.length ≤ i → slice b' i j = slice b i j

theorem writes_patch {b x : Bytes} {off : Nat} (h : off + x.length ≤ b.length) :
    Writes b (patch b off x) off x where
  length := length_patch h
  here := slice_patch (by omega)
  before _ _ hj := slice_patch_before (by omega) hj
  after _ _ hi := slice_patch_after h hi

/-- A byte is a slice of length one. -/
theorem getElem?_of_slice {b b' : Bytes} {i : Nat} (h : slice b i (i + 1) = slice b' i (i + 1)) :
    b[i]? = b'[i]? := by
  have hone : ∀ s : Bytes, (slice s i (i + 1)).head? = s[i]? := by
    intro s
    rw [slice, Nat.add_sub_cancel_left, List.head?_take]
    simp
  rw [← hone b, h, hone b']

/-- A slice is its bytes. -/
theorem slice_congr {b b' : Bytes} {i j : Nat} (h : ∀ n, i ≤ n → n < j → b[n]? = b'[n]?) :
    slice b i j = slice b' i j := by
  apply List.ext_getElem?
  intro k
  rw [slice, slice, List.getElem?_take, List.getElem?_take, List.getElem?_drop,
    List.getElem?_drop]
  split
  · exact h _ (by omega) (by omega)
  · rfl

/-- Every other byte is kept. -/
theorem Writes.getElem? {b b' x : Bytes} {off i : Nat} (h : Writes b b' off x)
    (hi : i < off ∨ off + x.length ≤ i) : b'[i]? = b[i]? := by
  rcases hi with hi | hi
  · exact getElem?_of_slice (h.before _ _ hi)
  · exact getElem?_of_slice (h.after _ _ hi)

/-! ## 3. Integers of a fixed width

`leBytes` drops what does not fit.  A packer that raises an error instead has its own check, and the
lemmas here are used behind it. -/

/-- The `k` lowest bytes of `n`, the lowest first. -/
def leBytes : Nat → Nat → Bytes
  | 0, _ => []
  | k + 1, n => UInt8.ofNat n :: leBytes k (n / 256)

def ofLe : Bytes → Nat
  | [] => 0
  | b :: bs => b.toNat + 256 * ofLe bs

@[simp] theorem length_leBytes (k n : Nat) : (leBytes k n).length = k := by
  induction k generalizing n with
  | zero => rfl
  | succ k ih => rw [leBytes, List.length_cons, ih]

theorem ofLe_lt (b : Bytes) : ofLe b < 256 ^ b.length := by
  induction b with
  | nil => simp [ofLe]
  | cons x b ih =>
    have hx : x.toNat < 256 := x.toNat_lt
    rw [ofLe, List.length_cons, Nat.pow_succ']
    omega

theorem ofLe_leBytes (k n : Nat) : ofLe (leBytes k n) = n % 256 ^ k := by
  induction k generalizing n with
  | zero => simp [leBytes, ofLe, Nat.mod_one]
  | succ k ih =>
    have hsplit : n % (256 * 256 ^ k) = n % 256 + 256 * (n / 256 % 256 ^ k) := Nat.mod_mul
    have hpow : 256 ^ (k + 1) = 256 * 256 ^ k := Nat.pow_succ'
    rw [leBytes, ofLe, ih, UInt8.toNat_ofNat', hpow, hsplit]

/-- The bytes are those of the number they stand for. -/
theorem leBytes_ofLe (b : Bytes) : leBytes b.length (ofLe b) = b := by
  induction b with
  | nil => rfl
  | cons x b ih =>
    have hx : x.toNat < 256 := x.toNat_lt
    have hlow : UInt8.ofNat (x.toNat + 256 * ofLe b) = x := by
      apply UInt8.toNat_inj.mp
      rw [UInt8.toNat_ofNat']
      omega
    have hhigh : (x.toNat + 256 * ofLe b) / 256 = ofLe b := by omega
    rw [ofLe, List.length_cons, leBytes, hlow, hhigh, ih]

/-- The `k` lowest bytes of `n`, the highest first. -/
def beBytes (k n : Nat) : Bytes := (leBytes k n).reverse

@[simp] theorem length_beBytes (k n : Nat) : (beBytes k n).length = k := by simp [beBytes]

/-- The integer in the `k` bytes at `off`, if they are there. -/
def unpackLe (k : Nat) (b : Bytes) (off : Nat) : Option Nat :=
  if off + k ≤ b.length then some (ofLe (slice b off (off + k))) else none

def unpackBe (k : Nat) (b : Bytes) (off : Nat) : Option Nat :=
  if off + k ≤ b.length then some (ofLe (slice b off (off + k)).reverse) else none

theorem unpackLe_eq {k n off : Nat} {b : Bytes} (hlen : off + k ≤ b.length)
    (h : slice b off (off + k) = leBytes k n) (hn : n < 256 ^ k) : unpackLe k b off = some n := by
  rw [unpackLe, if_pos hlen, h, ofLe_leBytes, Nat.mod_eq_of_lt hn]

theorem unpackBe_eq {k n off : Nat} {b : Bytes} (hlen : off + k ≤ b.length)
    (h : slice b off (off + k) = beBytes k n) (hn : n < 256 ^ k) : unpackBe k b off = some n := by
  rw [unpackBe, if_pos hlen, h, beBytes, List.reverse_reverse, ofLe_leBytes, Nat.mod_eq_of_lt hn]

/-- Blocks of one length, one after the other, are found by their number. -/
theorem slice_blocks {α : Type} {f : α → Bytes} {k : Nat} (hf : ∀ a, (f a).length = k)
    (pre : Bytes) (l : List α) (post : Bytes) {i : Nat} (hi : i < l.length) :
    slice (pre ++ l.flatMap f ++ post) (pre.length + k * i) (pre.length + k * i + k) = f l[i] := by
  induction l generalizing pre i with
  | nil => exact absurd hi (by simp)
  | cons a l ih =>
    have hsplit : pre ++ (a :: l).flatMap f ++ post =
        pre ++ f a ++ (l.flatMap f ++ post) := by simp [List.append_assoc]
    cases i with
    | zero =>
      have hmid := slice_middle pre (f a) (l.flatMap f ++ post)
      rw [hf] at hmid
      rw [hsplit]
      exact hmid
    | succ i =>
      have hrest := ih (pre ++ f a) (by simpa using hi)
      rw [List.length_append, hf, List.append_assoc (pre ++ f a)] at hrest
      have hoff : pre.length + k * (i + 1) = pre.length + k + k * i := by ring
      rw [hsplit, hoff, List.getElem_cons_succ]
      exact hrest

/-- A row of packed integers, read one by one. -/
theorem slice_row (k : Nat) (pre : Bytes) (ns : List Nat) (post : Bytes) {i : Nat}
    (hi : i < ns.length) :
    slice (pre ++ ns.flatMap (leBytes k) ++ post) (pre.length + k * i) (pre.length + k * i + k) =
      leBytes k ns[i] :=
  slice_blocks (length_leBytes k) pre ns post hi

theorem unpackBe_lt {k off n : Nat} {b : Bytes} (h : unpackBe k b off = some n) :
    n < 256 ^ k := by
  unfold unpackBe at h
  split at h
  · rename_i hlen
    have hlt := ofLe_lt (slice b off (off + k)).reverse
    rw [List.length_reverse, length_slice hlen, Nat.add_sub_cancel_left] at hlt
    exact Option.some.inj h ▸ hlt
  · exact absurd h (by simp)

/-- Reading sees the slice it reads only. -/
theorem unpackBe_congr {k off off' : Nat} {b b' : Bytes} (hlen : off + k ≤ b.length)
    (hlen' : off' + k ≤ b'.length)
    (h : slice b off (off + k) = slice b' off' (off' + k)) :
    unpackBe k b off = unpackBe k b' off' := by
  rw [unpackBe, unpackBe, if_pos hlen, if_pos hlen', h]

/-! ## 4. Pages

Padding is by zeros, and nothing is added to a section that fills its last page.  Sections of length
zero take no page at all. -/

/-- `n`, rounded up to whole pages. -/
def roundUp (page n : Nat) : Nat := (n + page - 1) / page * page

/-- `data`, padded with zeros to whole pages. -/
def pad (page : Nat) (data : Bytes) : Bytes :=
  if data.length % page = 0 then data else data ++ zeros (page - data.length % page)

theorem pad_eq (page : Nat) (data : Bytes) : ∃ n, pad page data = data ++ zeros n := by
  unfold pad
  split
  · exact ⟨0, by simp [zeros]⟩
  · exact ⟨_, rfl⟩

theorem le_roundUp {page : Nat} (hp : 0 < page) (n : Nat) : n ≤ roundUp page n := by
  have h := Nat.lt_div_mul_add hp (a := n + page - 1)
  unfold roundUp
  omega

/-- A length inside one page takes one page. -/
theorem roundUp_one {page n : Nat} (hn : 0 < n) (h : n ≤ page) : roundUp page n = page := by
  have hq : (n + page - 1) / page = 1 := Nat.div_eq_of_lt_le (by omega) (by omega)
  rw [roundUp, hq, Nat.one_mul]

theorem length_pad {page : Nat} (hp : 0 < page) (data : Bytes) :
    (pad page data).length = roundUp page data.length := by
  have hsplit := Nat.div_add_mod data.length page
  have hlt := Nat.mod_lt data.length hp
  unfold pad roundUp
  split
  · rename_i h
    have hq : (data.length + page - 1) / page = data.length / page := by
      rw [Nat.div_eq_iff hp]
      constructor
      · rw [Nat.mul_comm]; omega
      · rw [Nat.mul_comm]; omega
    rw [hq, Nat.mul_comm]
    omega
  · have hq : (data.length + page - 1) / page = data.length / page + 1 := by
      rw [Nat.div_eq_iff hp, Nat.add_mul, Nat.one_mul, Nat.mul_comm (data.length / page)]
      omega
    rw [hq, Nat.add_mul, Nat.one_mul, Nat.mul_comm, List.length_append, length_zeros]
    omega

/-- The padding, counted from the rounded length. -/
theorem pad_eq_zeros {page : Nat} (hp : 0 < page) (data : Bytes) :
    pad page data = data ++ zeros (roundUp page data.length - data.length) := by
  obtain ⟨n, h⟩ := pad_eq page data
  have hlen := length_pad hp data
  rw [h, List.length_append, length_zeros] at hlen
  rw [h, ← hlen, Nat.add_sub_cancel_left]

/-- Sections, each padded to whole pages. -/
def layout (page : Nat) (sections : List Bytes) : Bytes := (sections.map (pad page)).flatten

@[simp] theorem layout_nil (page : Nat) : layout page [] = [] := rfl

@[simp] theorem layout_cons (page : Nat) (s : Bytes) (sections : List Bytes) :
    layout page (s :: sections) = pad page s ++ layout page sections := rfl

/-- Where a reader that starts at `off` is after sections of these sizes. -/
def walkEnd (page off : Nat) : List Nat → Nat
  | [] => off
  | n :: sizes => walkEnd page (off + roundUp page n) sizes

/-- What it reads on the way. -/
def walk (page : Nat) (b : Bytes) (off : Nat) : List Nat → List Bytes
  | [] => []
  | n :: sizes => slice b off (off + n) :: walk page b (off + roundUp page n) sizes

theorem walkEnd_layout {page : Nat} (hp : 0 < page) (off : Nat) (sections : List Bytes) :
    walkEnd page off (sections.map List.length) = off + (layout page sections).length := by
  induction sections generalizing off with
  | nil => rfl
  | cons s sections ih =>
    rw [List.map_cons, walkEnd, ih, layout_cons, List.length_append, length_pad hp]
    omega

/-- **A walk finds the sections**, whatever stands before and after them. -/
theorem walk_layout {page : Nat} (hp : 0 < page) (pre : Bytes) (sections : List Bytes)
    (post : Bytes) :
    walk page (pre ++ layout page sections ++ post) pre.length (sections.map List.length) =
      sections := by
  induction sections generalizing pre with
  | nil => rfl
  | cons s sections ih =>
    obtain ⟨n, hpad⟩ := pad_eq page s
    have hhead : slice (pre ++ layout page (s :: sections) ++ post) pre.length
        (pre.length + s.length) = s := by
      have hsplit : pre ++ layout page (s :: sections) ++ post =
          pre ++ s ++ (zeros n ++ layout page sections ++ post) := by
        simp [hpad, List.append_assoc]
      rw [hsplit]
      exact slice_middle _ _ _
    have htail := ih (pre ++ pad page s)
    rw [List.length_append, length_pad hp, List.append_assoc pre] at htail
    rw [List.map_cons, walk, hhead, layout_cons, htail]

/-! ## 5. Places

A reader that has a table does not walk.  `Contiguous` is what such a table has to satisfy if the
sections are to follow one another, and it gives disjointness for free. -/

/-- Ranges, each an offset and a size, one after the other from `start` to `stop`. -/
def Contiguous (start : Nat) : List (Nat × Nat) → Nat → Prop
  | [], stop => start = stop
  | r :: rs, stop => r.1 = start ∧ Contiguous (start + r.2) rs stop

theorem Contiguous.le {start stop : Nat} {rs : List (Nat × Nat)} (h : Contiguous start rs stop) :
    start ≤ stop ∧ ∀ r ∈ rs, start ≤ r.1 ∧ r.1 + r.2 ≤ stop := by
  induction rs generalizing start with
  | nil => exact ⟨Nat.le_of_eq h, by simp⟩
  | cons r rs ih =>
    obtain ⟨hstart, hrest⟩ := h
    obtain ⟨hle, hin⟩ := ih hrest
    refine ⟨by omega, fun r' hr' => ?_⟩
    rcases List.mem_cons.mp hr' with rfl | hr'
    · exact ⟨by omega, by omega⟩
    · have := hin r' hr'
      exact ⟨by omega, this.2⟩

/-- Such ranges have no place in common. -/
theorem Contiguous.disjoint {start stop : Nat} {rs : List (Nat × Nat)}
    (h : Contiguous start rs stop) : rs.Pairwise (fun a b => a.1 + a.2 ≤ b.1) := by
  induction rs generalizing start with
  | nil => exact List.Pairwise.nil
  | cons r rs ih =>
    obtain ⟨hstart, hrest⟩ := h
    refine List.Pairwise.cons (fun r' hr' => ?_) (ih hrest)
    have := hrest.le.2 r' hr'
    omega

/-- Where the sections of a layout are that starts at `off`. -/
def places (page : Nat) (off : Nat) : List Bytes → List (Nat × Nat)
  | [] => []
  | s :: sections =>
      (off, roundUp page s.length) :: places page (off + roundUp page s.length) sections

@[simp] theorem length_places (page off : Nat) (sections : List Bytes) :
    (places page off sections).length = sections.length := by
  induction sections generalizing off with
  | nil => rfl
  | cons s sections ih => rw [places, List.length_cons, ih, List.length_cons]

theorem dvd_roundUp (page n : Nat) : page ∣ roundUp page n := ⟨_, Nat.mul_comm _ _⟩

theorem contiguous_places {page : Nat} (hp : 0 < page) (off : Nat) (sections : List Bytes) :
    Contiguous off (places page off sections) (off + (layout page sections).length) := by
  induction sections generalizing off with
  | nil => rfl
  | cons s sections ih =>
    refine ⟨rfl, ?_⟩
    have hrest := ih (off + roundUp page s.length)
    rwa [layout_cons, List.length_append, length_pad hp, ← Nat.add_assoc]

/-- **Every section is in its place**, with its padding. -/
theorem slice_places {page : Nat} (hp : 0 < page) (pre : Bytes) (sections : List Bytes)
    (post : Bytes) : List.Forall₂ (fun s r =>
      slice (pre ++ layout page sections ++ post) r.1 (r.1 + r.2) = pad page s)
      sections (places page pre.length sections) := by
  induction sections generalizing pre with
  | nil => exact .nil
  | cons s sections ih =>
    have hsplit : pre ++ layout page (s :: sections) ++ post =
        pre ++ pad page s ++ (layout page sections ++ post) := by simp [List.append_assoc]
    have hhead := slice_middle pre (pad page s) (layout page sections ++ post)
    have htail := ih (pre ++ pad page s)
    rw [length_pad hp] at hhead
    rw [List.length_append, length_pad hp, List.append_assoc (pre ++ pad page s)] at htail
    rw [hsplit]
    exact .cons hhead htail

end Bytes
