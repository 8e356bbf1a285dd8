/-
# The boot image: one writer, two readers

`mkboot.py` writes a header and three sections, each padded to whole pages, and a trailer.
`splitboot.py` and `boot_parts.py` read the sizes from the header and walk over the sections,
starting one page into the image.

* `image_round_trip`: both readers find what was written, and the trailer right behind it,
  exactly when the header fits one page.
* `small_page_shifts`: with a page of 1024 bytes the header takes two, and the readers start
  inside it.
* `mkboot_ok_iff`: which arguments `mkboot.py` takes.

Reading goes through `Header`, what a reader can learn from the first page, and `walk_layout`,
which knows nothing of headers.  Files are byte strings and a script is a function of them; an
exception is an `Error`, so that the checks and their texts stay visible.
-/
import S9p.Lib.Bytes
import S9p.Lib.Sha1

namespace S9p.Boot

open Bytes

/-! ## 1. Exceptions and `struct`

`struct` refuses a number that does not fit its field, and a slice assignment of another length
changes the length of the buffer.  Both are kept. -/

/-- The exceptions, as far as it matters which one it is; an assertion and a `ValueError` come with
their text. -/
inductive Error where
  | struct
  | assertion (msg : String)
  | value (msg : String)
  | zeroDivision
  | usage (msg : String)
  deriving DecidableEq

abbrev Py := Except Error

section Except

variable {ε α β : Type}

@[simp] theorem ok_bind (a : α) (f : α → Except ε β) : (Except.ok a >>= f) = f a := by
  simp only [bind, Except.bind]

@[simp] theorem error_bind (e : ε) (f : α → Except ε β) :
    ((Except.error e : Except ε α) >>= f) = .error e := by
  simp only [bind, Except.bind]

@[simp] theorem pure_eq_ok (a : α) : (pure a : Except ε α) = .ok a := rfl

@[simp] theorem throw_eq_error (e : ε) : (throw e : Except ε α) = .error e := rfl

theorem bind_eq_ok {x : Except ε α} {f : α → Except ε β} {b : β} (h : (x >>= f) = .ok b) :
    ∃ a, x = .ok a ∧ f a = .ok b := by
  cases x with
  | error e => exact absurd h (by simp)
  | ok a => exact ⟨a, rfl, h⟩

end Except

/-- `struct.pack("<I", n)`. -/
def u32 (n : Int) : Py Bytes :=
  if 0 ≤ n ∧ n < 2 ^ 32 then return leBytes 4 n.toNat else throw .struct

/-- `struct.pack("<...I", ...)`. -/
def u32s : List Int → Py Bytes
  | [] => return []
  | n :: ns => do
    let b ← u32 n
    let bs ← u32s ns
    return b ++ bs

/-- `struct.unpack_from("<I", b, off)`. -/
def unpackU32 (b : Bytes) (off : Nat) : Py Nat :=
  match unpackLe 4 b off with
  | some n => return n
  | none => throw .struct

/-- `struct.pack_into`, the bytes being packed. -/
def packInto (b : Bytes) (off : Nat) (x : Bytes) : Py Bytes :=
  if off + x.length ≤ b.length then return patch b off x else throw .struct

/-- `b[i:j] = x`. -/
def setSlice (b : Bytes) (i j : Nat) (x : Bytes) : Bytes := b.take i ++ x ++ b.drop j

/-- `b.ljust(n, b"\0")`. -/
def ljust (b : Bytes) (n : Nat) : Bytes := b ++ zeros (n - b.length)

/-! ## 2. `mkboot.py`

The header has fields at fixed offsets, and is written in one go or taken over from a reference.
Sizes and the id are filled in at the end. -/

def HEADER_SIZE : Nat := 1632

/-- `ANDROID!` -/
def MAGIC : Bytes := [0x41, 0x4e, 0x44, 0x52, 0x4f, 0x49, 0x44, 0x21]

/-- `SEANDROIDENFORCE` -/
def TRAILER : Bytes :=
  [0x53, 0x45, 0x41, 0x4e, 0x44, 0x52, 0x4f, 0x49, 0x44, 0x45, 0x4e, 0x46, 0x4f, 0x52, 0x43, 0x45]

/-- A part of the image and its length, as they are hashed. -/
def hashed (part : Bytes) : Py Bytes := do
  let n ← u32 part.length
  return part ++ n

/-- `image_id`. -/
def imageId (kernel ramdisk second dt : Bytes) : Py Bytes := do
  let k ← hashed kernel
  let r ← hashed ramdisk
  let s ← hashed second
  let d ← if dt = [] then pure [] else hashed dt
  return ljust (Sha1.sha1 (k ++ r ++ s ++ d)) 32

/-- `pad`. -/
def padded (data : Bytes) (page : Nat) : Py Bytes :=
  if page = 0 then throw .zeroDivision else return pad page data

/-- The options of `mkboot.py` with their defaults; texts are in the encoding they are written
in. -/
structure Args where
  cmdline : Option Bytes := none
  base : Int := 0x10000000
  kernelOffset : Int := 0x00008000
  ramdiskOffset : Int := 0x01000000
  secondOffset : Int := 0x00F00000
  tagsOffset : Int := 0x00000100
  pagesize : Int := 2048
  board : Bytes := []

/-- What the first half of `main` settles: the page size, the ramdisk and the header so far. -/
structure Draft where
  page : Nat
  ramdisk : Bytes
  hdr : Bytes

/-- With `--ref`, the header is that of a reference image, and so is a ramdisk not given. -/
def fromRef (ref : Bytes) (ramdisk : Option Bytes) : Py Draft := do
  if ref.take 8 ≠ MAGIC then throw (.assertion "reference is not an Android boot image")
  let page ← unpackU32 ref 36
  let ramdisk ← match ramdisk with
    | some given => pure given
    | none => do
      let ks ← unpackU32 ref 8
      let rs ← unpackU32 ref 16
      if page = 0 then throw .zeroDivision
      let koff := page + roundUp page ks
      pure (slice ref koff (koff + rs))
  return ⟨page, ramdisk, ref.take HEADER_SIZE⟩

/-- The numbers of a header from scratch: sizes are filled in later. -/
def Args.numbers (a : Args) : List Int :=
  [0, a.base + a.kernelOffset, 0, a.base + a.ramdiskOffset, 0, a.base + a.secondOffset,
    a.base + a.tagsOffset, a.pagesize, 0, 0]

/-- Without it, the header is made from the options. -/
def fromScratch (a : Args) (ramdisk : Option Bytes) : Py Draft := do
  match ramdisk with
  | none => throw (.usage "--ramdisk is required without --ref")
  | some ramdisk => do
    if 16 ≤ a.board.length then throw (.assertion "board name too long")
    let numbers ← u32s a.numbers
    let hdr ← packInto (zeros HEADER_SIZE) 0 (MAGIC ++ numbers ++ ljust a.board 16)
    return ⟨a.pagesize.toNat, ramdisk, hdr⟩

/-- The command line, where one is given. -/
def setCmdline (hdr : Bytes) : Option Bytes → Py Bytes
  | none => return hdr
  | some raw => do
    if 512 ≤ raw.length then throw (.assertion "cmdline too long")
    return setSlice hdr 64 (64 + 512) (ljust raw 512)

/-- The first half of `main`. -/
def draftOf (a : Args) (ref ramdisk : Option Bytes) : Py Draft :=
  match ref with
  | some ref => fromRef ref ramdisk
  | none => fromScratch a ramdisk

/-- `main` of `mkboot.py`: the image it writes. -/
def mkboot (a : Args) (ref : Option Bytes) (kernel : Bytes) (ramdisk : Option Bytes)
    (dt : Bytes) : Py Bytes := do
  let draft ← draftOf a ref ramdisk
  let kernelSize ← u32 kernel.length
  let hdr ← packInto draft.hdr 8 kernelSize
  let ramdiskSize ← u32 draft.ramdisk.length
  let hdr ← packInto hdr 16 ramdiskSize
  let secondSize ← u32 0
  let hdr ← packInto hdr 24 secondSize
  let dtSize ← u32 dt.length
  let hdr ← packInto hdr 40 dtSize
  let hdr ← setCmdline hdr a.cmdline
  let id ← imageId kernel draft.ramdisk [] dt
  let hdr := setSlice hdr 576 (576 + 32) id
  let h ← padded hdr draft.page
  let k ← padded kernel draft.page
  let r ← padded draft.ramdisk draft.page
  let d ← padded dt draft.page
  return h ++ k ++ r ++ d ++ TRAILER

/-! ## 3. The readers

The two readers start at the same place and go on by the same rule.  One of them checks the lengths,
and the other one does not. -/

/-- The sections behind the header. -/
inductive Part where
  | kernel
  | ramdisk
  | second
  | dt
  deriving DecidableEq

/-- Where the header has the size of a part. -/
def Part.field : Part → Nat
  | .kernel => 8
  | .ramdisk => 16
  | .second => 24
  | .dt => 40

def Part.name : Part → String
  | .kernel => "kernel"
  | .ramdisk => "ramdisk"
  | .second => "second"
  | .dt => "dt"

def Part.all : List Part := [.kernel, .ramdisk, .second, .dt]

/-- The loop of `parts`. -/
def partsFrom (page : Nat) (blob : Bytes) : Nat → List Part → Py (List (Part × Bytes))
  | _, [] => return []
  | offset, p :: ps => do
    let size ← unpackU32 blob p.field
    let data := slice blob offset (offset + size)
    let name := p.name
    if data.length ≠ size then throw (.value s!"truncated {name}")
    let rest ← partsFrom page blob (offset + roundUp page size) ps
    return (p, data) :: rest

/-- `parts` of `boot_parts.py`. -/
def parts (blob : Bytes) : Py (List (Part × Bytes)) := do
  if blob.length < 2048 ∨ blob.take 8 ≠ MAGIC then
    throw (.value "not a Samsung Android boot image")
  let page ← unpackU32 blob 36
  if page ≠ 2048 then throw (.value s!"unsupported page size: {page}")
  partsFrom page blob page Part.all

/-- What `splitboot.py` leaves: a file for each part that is not empty, and what it prints. -/
structure Split where
  files : List (Part × Bytes)
  payloadEnd : Nat
  trailer : Bytes

/-- Its loop: the files, and where the payload ends. -/
def splitFrom (ps : Nat) (b : Bytes) : Nat → List (Part × Nat) → List (Part × Bytes) × Nat
  | off, [] => ([], off)
  | off, (p, size) :: rest =>
      let (files, payloadEnd) := splitFrom ps b (off + roundUp ps size) rest
      (if size ≠ 0 then (p, slice b off (off + size)) :: files else files, payloadEnd)

/-- `main` of `splitboot.py`. -/
def splitboot (b : Bytes) : Py Split := do
  if b.take 8 ≠ MAGIC then throw (.assertion "not an Android boot image")
  let ks ← unpackU32 b 8
  let rs ← unpackU32 b 16
  let ss ← unpackU32 b 24
  let ps ← unpackU32 b 36
  let dts ← unpackU32 b 40
  if ps = 0 then throw .zeroDivision
  let (files, off) := splitFrom ps b ps [(.kernel, ks), (.ramdisk, rs), (.second, ss), (.dt, dts)]
  return ⟨files, off, slice b off (off + 16)⟩

/-- What a reader has for a part; there is no file for an empty one. -/
def contentOf (files : List (Part × Bytes)) (p : Part) : Bytes := (files.lookup p).getD []

/-! ## 4. What the writer leaves in the header

A reader sees slices, so what the writer leaves is said by slices.  The rest of the header is
whatever it was. -/

theorem u32_ok {n : Nat} (h : n < 2 ^ 32) : u32 (n : Int) = .ok (leBytes 4 n) := by
  rw [u32, if_pos ⟨by omega, by omega⟩]
  simp

theorem u32_inv {n : Int} {b : Bytes} (h : u32 n = .ok b) :
    0 ≤ n ∧ n < 2 ^ 32 ∧ b = leBytes 4 n.toNat := by
  unfold u32 at h
  split at h
  · rename_i hn
    exact ⟨hn.1, hn.2, by simpa using h.symm⟩
  · exact absurd h (by simp)

/-- What `struct` takes as `I`. -/
def Fits (n : Int) : Prop := 0 ≤ n ∧ n < 2 ^ 32

theorem u32s_ok {l : List Int} (h : ∀ n ∈ l, Fits n) :
    u32s l = .ok (l.flatMap (fun n => leBytes 4 n.toNat)) := by
  induction l with
  | nil => rfl
  | cons n l ih =>
    have hn : u32 n = .ok (leBytes 4 n.toNat) := if_pos (h n (by simp))
    rw [u32s, hn, ok_bind, ih (fun m hm => h m (by simp [hm]))]
    rfl

theorem u32s_inv {ns : List Int} {b : Bytes} (h : u32s ns = .ok b) : ∀ n ∈ ns, Fits n := by
  induction ns generalizing b with
  | nil => simp
  | cons n ns ih =>
    obtain ⟨x, hx, hrest⟩ := bind_eq_ok h
    obtain ⟨y, hy, -⟩ := bind_eq_ok hrest
    obtain ⟨hlow, hhigh, -⟩ := u32_inv hx
    intro m hm
    rcases List.mem_cons.mp hm with rfl | hm
    · exact ⟨hlow, hhigh⟩
    · exact ih hy m hm

theorem packInto_writes {b x : Bytes} {o : Nat} (h : o + x.length ≤ b.length) :
    ∃ b', packInto b o x = .ok b' ∧ Writes b b' o x :=
  ⟨_, by rw [packInto, if_pos h]; rfl, writes_patch h⟩

/-- A slice assignment of the right length is a patch. -/
theorem setSlice_writes {b x : Bytes} {i j : Nat} (hij : j = i + x.length) (h : j ≤ b.length) :
    Writes b (setSlice b i j x) i x := by
  subst hij
  exact writes_patch h

theorem length_ljust {b : Bytes} {n : Nat} (h : b.length ≤ n) : (ljust b n).length = n := by
  simp only [ljust, List.length_append, length_zeros]
  omega

/-- The arguments without which there is no image. -/
structure Args.Accepted (a : Args) : Prop where
  numbers : ∀ n ∈ a.numbers, Fits n
  page : 0 < a.pagesize
  board : a.board.length < 16
  cmdline : ∀ raw ∈ a.cmdline, raw.length < 512

/-- What the readers can know of a header.  The rest of the first page is not among it. -/
structure Header (hdr : Bytes) (page : Nat) (kernel ramdisk dt id : Bytes) : Prop where
  length : hdr.length = HEADER_SIZE
  magic : slice hdr 0 8 = MAGIC
  kernel : slice hdr 8 12 = leBytes 4 kernel.length
  ramdisk : slice hdr 16 20 = leBytes 4 ramdisk.length
  second : slice hdr 24 28 = leBytes 4 0
  page : slice hdr 36 40 = leBytes 4 page
  dt : slice hdr 40 44 = leBytes 4 dt.length
  id : slice hdr 576 608 = id

/-- The bytes of the header that are written anew: the sizes, the id, and with a command line its
field. -/
def Rewritten (a : Args) (i : Nat) : Prop :=
  8 ≤ i ∧ i < 12 ∨ 16 ≤ i ∧ i < 20 ∨ 24 ≤ i ∧ i < 28 ∨ 40 ≤ i ∧ i < 44 ∨ 576 ≤ i ∧ i < 608 ∨
    a.cmdline.isSome = true ∧ 64 ≤ i ∧ i < 576

/-- What becomes of the header `hdr₀` that is started from. -/
structure Patched (a : Args) (hdr₀ hdr : Bytes) : Prop where
  kept : ∀ i, ¬ Rewritten a i → hdr[i]? = hdr₀[i]?
  cmdline : ∀ raw ∈ a.cmdline, slice hdr 64 576 = ljust raw 512

section Writer

variable {a : Args} {kernel ramdisk second dt : Bytes}

theorem fromScratch_ok (given : Bytes) (ha : a.Accepted) : ∃ hdr,
    fromScratch a (some given) = .ok ⟨a.pagesize.toNat, given, hdr⟩ ∧
      hdr.length = HEADER_SIZE ∧ slice hdr 0 8 = MAGIC ∧
      slice hdr 36 40 = leBytes 4 a.pagesize.toNat := by
  have hnumbers := u32s_ok ha.numbers
  have hboard : ¬ 16 ≤ a.board.length := by have := ha.board; omega
  have hlen : (MAGIC ++ a.numbers.flatMap (fun n => leBytes 4 n.toNat) ++
      ljust a.board 16).length = 64 := by
    rw [List.length_append, length_ljust (by omega)]
    simp [Args.numbers, MAGIC]
  obtain ⟨hdr, hpack, hw⟩ := packInto_writes (b := zeros HEADER_SIZE) (o := 0)
    (x := MAGIC ++ a.numbers.flatMap (fun n => leBytes 4 n.toNat) ++ ljust a.board 16)
    (by rw [hlen]; simp [HEADER_SIZE])
  have hhere := hw.here
  rw [hlen, Nat.zero_add] at hhere
  have hin : ∀ i j, j ≤ 64 → slice hdr i j =
      slice (MAGIC ++ a.numbers.flatMap (fun n => leBytes 4 n.toNat) ++ ljust a.board 16) i j := by
    intro i j hj
    rw [← hhere, slice_slice (by omega)]
    simp
  refine ⟨hdr, ?_, by rw [hw.length, length_zeros], ?_, ?_⟩
  · simp only [fromScratch, if_neg hboard, pure_eq_ok, ok_bind, hnumbers, hpack]
  · rw [hin 0 8 (by omega), slice_append_left (by simp [MAGIC, Args.numbers])]
    rfl
  · rw [hin 36 40 (by omega), slice_append_left (by simp [MAGIC, Args.numbers])]
    simp [MAGIC, Args.numbers, slice, leBytes]

theorem fromScratch_inv {draft : Draft} (h : fromScratch a (some ramdisk) = .ok draft) :
    (∀ n ∈ a.numbers, Fits n) ∧ a.board.length < 16 ∧ draft.page = a.pagesize.toNat ∧
      draft.ramdisk = ramdisk := by
  simp only [fromScratch] at h
  split at h
  · exact absurd h (by simp)
  · rename_i hboard
    simp only [pure_eq_ok] at h
    obtain ⟨numbers, hnumbers, h⟩ := bind_eq_ok h
    obtain ⟨hdr, -, h⟩ := bind_eq_ok h
    simp only [Except.ok.injEq] at h
    subst h
    exact ⟨u32s_inv hnumbers, by omega, rfl, rfl⟩

theorem hashed_ok {part : Bytes} (h : part.length < 2 ^ 32) :
    hashed part = .ok (part ++ leBytes 4 part.length) := by
  rw [hashed, u32_ok h, ok_bind]
  rfl

theorem imageId_ok (hk : kernel.length < 2 ^ 32) (hr : ramdisk.length < 2 ^ 32)
    (hs : second.length < 2 ^ 32) (hd : dt.length < 2 ^ 32) :
    ∃ id, imageId kernel ramdisk second dt = .ok id ∧ id.length = 32 := by
  unfold imageId
  rw [hashed_ok hk, hashed_ok hr, hashed_ok hs, hashed_ok hd]
  simp only [ok_bind, pure_eq_ok]
  split
  · exact ⟨_, rfl, length_ljust (by simp)⟩
  · exact ⟨_, rfl, length_ljust (by simp)⟩

theorem setCmdline_ok {hdr : Bytes} {cmdline : Option Bytes} (hlen : hdr.length = HEADER_SIZE)
    (hc : ∀ raw ∈ cmdline, raw.length < 512) :
    ∃ hdr', setCmdline hdr cmdline = .ok hdr' ∧ hdr'.length = HEADER_SIZE ∧
      (∀ i j, j ≤ 64 → slice hdr' i j = slice hdr i j) ∧
      (∀ i, ¬ (cmdline.isSome = true ∧ 64 ≤ i ∧ i < 576) → hdr'[i]? = hdr[i]?) ∧
      ∀ raw ∈ cmdline, slice hdr' 64 576 = ljust raw 512 := by
  cases cmdline with
  | none => exact ⟨hdr, rfl, hlen, fun _ _ _ => rfl, fun _ _ => rfl, by simp⟩
  | some raw =>
    have hraw : raw.length < 512 := hc raw rfl
    have hfield : (ljust raw 512).length = 512 := length_ljust (by omega)
    have hw := setSlice_writes (b := hdr) (i := 64) (j := 64 + 512) (x := ljust raw 512)
      (by rw [hfield]) (by rw [hlen, HEADER_SIZE]; omega)
    have hhere := hw.here
    rw [hfield] at hhere
    refine ⟨_, ?_, hw.length.trans hlen, hw.before, fun i hi => hw.getElem? ?_, ?_⟩
    · rw [setCmdline, if_neg (by omega)]
      rfl
    · rw [hfield]
      simp only [Option.isSome_some, true_and, not_and_or] at hi
      omega
    · intro raw' hraw'
      rw [← Option.some.inj hraw']
      exact hhere

theorem padded_ok {page : Nat} (hp : 0 < page) (data : Bytes) :
    padded data page = .ok (pad page data) := by
  rw [padded, if_neg (by omega)]
  rfl

/-- **What `mkboot.py` writes**: a header, the sections and the trailer.  `hdr₀` is the header it
starts from. -/
theorem mkboot_of_draft {ref given : Option Bytes} {page : Nat} {hdr₀ : Bytes}
    (hdraft : draftOf a ref given = .ok ⟨page, ramdisk, hdr₀⟩) (hp : 0 < page)
    (hlen₀ : hdr₀.length = HEADER_SIZE) (hmagic₀ : slice hdr₀ 0 8 = MAGIC)
    (hpage₀ : slice hdr₀ 36 40 = leBytes 4 page) (hc : ∀ raw ∈ a.cmdline, raw.length < 512)
    (hk : kernel.length < 2 ^ 32) (hr : ramdisk.length < 2 ^ 32) (hd : dt.length < 2 ^ 32) :
    ∃ hdr id, mkboot a ref kernel given dt =
        .ok (pad page hdr ++ layout page [kernel, ramdisk, [], dt] ++ TRAILER) ∧
      imageId kernel ramdisk [] dt = .ok id ∧ Header hdr page kernel ramdisk dt id ∧
      Patched a hdr₀ hdr := by
  obtain ⟨hdr₁, hpack₁, w₁⟩ := packInto_writes (b := hdr₀) (o := 8)
    (x := leBytes 4 kernel.length) (by rw [hlen₀, length_leBytes, HEADER_SIZE]; omega)
  have hlen₁ := w₁.length.trans hlen₀
  obtain ⟨hdr₂, hpack₂, w₂⟩ := packInto_writes (b := hdr₁) (o := 16)
    (x := leBytes 4 ramdisk.length) (by rw [hlen₁, length_leBytes, HEADER_SIZE]; omega)
  have hlen₂ := w₂.length.trans hlen₁
  obtain ⟨hdr₃, hpack₃, w₃⟩ := packInto_writes (b := hdr₂) (o := 24)
    (x := leBytes 4 0) (by rw [hlen₂, length_leBytes, HEADER_SIZE]; omega)
  have hlen₃ := w₃.length.trans hlen₂
  obtain ⟨hdr₄, hpack₄, w₄⟩ := packInto_writes (b := hdr₃) (o := 40)
    (x := leBytes 4 dt.length) (by rw [hlen₃, length_leBytes, HEADER_SIZE]; omega)
  have hlen₄ := w₄.length.trans hlen₃
  obtain ⟨hdr₅, hcmd, hlen₅, hkeep₅, hother₅, hfield₅⟩ := setCmdline_ok hlen₄ hc
  obtain ⟨id, hid, hidlen⟩ := imageId_ok hk hr (show ([] : Bytes).length < 2 ^ 32 by simp) hd
  have w₆ := setSlice_writes (b := hdr₅) (i := 576) (j := 576 + 32) (x := id)
    (by rw [hidlen]) (by rw [hlen₅, HEADER_SIZE]; omega)
  have b₁ := w₁.before; have a₁ := w₁.after; have e₁ := w₁.here
  have b₂ := w₂.before; have a₂ := w₂.after; have e₂ := w₂.here
  have b₃ := w₃.before; have a₃ := w₃.after; have e₃ := w₃.here
  have b₄ := w₄.before; have a₄ := w₄.after; have e₄ := w₄.here
  have b₆ := w₆.before; have e₆ := w₆.here
  simp only [length_leBytes, hidlen] at a₁ e₁ a₂ e₂ a₃ e₃ a₄ e₄ e₆
  refine ⟨setSlice hdr₅ 576 (576 + 32) id, id, ?_, hid, ?_, ?_⟩
  · have h0 : u32 0 = .ok (leBytes 4 0) := u32_ok (n := 0) (by omega)
    simp only [mkboot, hdraft, ok_bind, u32_ok hk, hpack₁, u32_ok hr, hpack₂, h0, hpack₃,
      u32_ok hd, hpack₄, hcmd, hid, padded_ok hp, pure_eq_ok, layout_cons, layout_nil,
      List.append_nil, List.append_assoc]
    simp [pad]
  · exact {
      length := w₆.length.trans hlen₅
      magic := by
        rw [b₆ _ _ (by omega), hkeep₅ _ _ (by omega), b₄ _ _ (by omega), b₃ _ _ (by omega),
          b₂ _ _ (by omega), b₁ _ _ (by omega), hmagic₀]
      kernel := by
        rw [b₆ _ _ (by omega), hkeep₅ _ _ (by omega), b₄ _ _ (by omega), b₃ _ _ (by omega),
          b₂ _ _ (by omega), e₁]
      ramdisk := by
        rw [b₆ _ _ (by omega), hkeep₅ _ _ (by omega), b₄ _ _ (by omega), b₃ _ _ (by omega), e₂]
      second := by
        rw [b₆ _ _ (by omega), hkeep₅ _ _ (by omega), b₄ _ _ (by omega), e₃]
      page := by
        rw [b₆ _ _ (by omega), hkeep₅ _ _ (by omega), b₄ _ _ (by omega), a₃ _ _ (by omega),
          a₂ _ _ (by omega), a₁ _ _ (by omega), hpage₀]
      dt := by
        rw [b₆ _ _ (by omega), hkeep₅ _ _ (by omega), e₄]
      id := e₆ }
  · constructor
    · intro i hi
      simp only [Rewritten, not_or] at hi
      obtain ⟨h₁, h₂, h₃, h₄, h₆, h₅⟩ := hi
      rw [w₆.getElem? (by rw [hidlen]; omega), hother₅ i h₅,
        w₄.getElem? (by rw [length_leBytes]; omega), w₃.getElem? (by rw [length_leBytes]; omega),
        w₂.getElem? (by rw [length_leBytes]; omega), w₁.getElem? (by rw [length_leBytes]; omega)]
    · intro raw hraw
      rw [b₆ _ _ (by omega)]
      exact hfield₅ raw hraw

/-- The image from scratch. -/
theorem mkboot_ok (ha : a.Accepted) (hk : kernel.length < 2 ^ 32) (hr : ramdisk.length < 2 ^ 32)
    (hd : dt.length < 2 ^ 32) : ∃ hdr id,
    mkboot a none kernel (some ramdisk) dt = .ok (pad a.pagesize.toNat hdr ++
      layout a.pagesize.toNat [kernel, ramdisk, [], dt] ++ TRAILER) ∧
    imageId kernel ramdisk [] dt = .ok id ∧
    Header hdr a.pagesize.toNat kernel ramdisk dt id := by
  have hp : 0 < a.pagesize.toNat := by have := ha.page; omega
  obtain ⟨hdr₀, hscratch, hlen₀, hmagic₀, hpage₀⟩ := fromScratch_ok ramdisk ha
  have hdraft : draftOf a none (some ramdisk) = .ok ⟨a.pagesize.toNat, ramdisk, hdr₀⟩ := hscratch
  obtain ⟨hdr, id, himage, hid, hh, -⟩ :=
    mkboot_of_draft hdraft hp hlen₀ hmagic₀ hpage₀ ha.cmdline hk hr hd
  exact ⟨hdr, id, himage, hid, hh⟩

/-- The reference has a header of its own to give. -/
structure Reference (ref : Bytes) (page : Nat) : Prop where
  length : HEADER_SIZE ≤ ref.length
  magic : ref.take 8 = MAGIC
  page : unpackU32 ref 36 = .ok page

/-- A reference gives the first page size and the header. -/
theorem Reference.header {ref : Bytes} {page : Nat} (href : Reference ref page) :
    (ref.take HEADER_SIZE).length = HEADER_SIZE ∧ slice (ref.take HEADER_SIZE) 0 8 = MAGIC ∧
      slice (ref.take HEADER_SIZE) 36 40 = leBytes 4 page := by
  have hsize : HEADER_SIZE = 1632 := rfl
  have hlen := href.length
  have hlen' : (ref.take HEADER_SIZE).length = HEADER_SIZE := by
    rw [List.length_take]
    omega
  have hfront : ∀ i j, j ≤ HEADER_SIZE →
      slice (ref.take HEADER_SIZE) i j = slice ref i j := by
    intro i j hj
    conv_rhs => rw [← List.take_append_drop HEADER_SIZE ref]
    rw [slice_append_left (by omega)]
  have hpage : slice ref 36 40 = leBytes 4 page := by
    have hunpack := href.page
    rw [unpackU32, unpackLe, if_pos (by omega)] at hunpack
    simp only [pure_eq_ok, Except.ok.injEq] at hunpack
    rw [← hunpack]
    have hfour : (slice ref 36 (36 + 4)).length = 4 := length_slice (by omega)
    have hback := leBytes_ofLe (slice ref 36 (36 + 4))
    rw [hfour] at hback
    exact hback.symm
  refine ⟨hlen', ?_, ?_⟩
  · rw [hfront _ _ (by omega)]
    exact href.magic
  · rw [hfront _ _ (by omega), hpage]

/-- The image with the header of a reference image. -/
theorem mkboot_ref_ok {ref : Bytes} {page : Nat} (href : Reference ref page) (hp : 0 < page)
    (hc : ∀ raw ∈ a.cmdline, raw.length < 512) (hk : kernel.length < 2 ^ 32)
    (hr : ramdisk.length < 2 ^ 32) (hd : dt.length < 2 ^ 32) : ∃ hdr id,
    mkboot a (some ref) kernel (some ramdisk) dt =
      .ok (pad page hdr ++ layout page [kernel, ramdisk, [], dt] ++ TRAILER) ∧
    imageId kernel ramdisk [] dt = .ok id ∧ Header hdr page kernel ramdisk dt id := by
  have hdraft : draftOf a (some ref) (some ramdisk) =
      .ok ⟨page, ramdisk, ref.take HEADER_SIZE⟩ := by
    simp [draftOf, fromRef, href.magic, href.page]
  obtain ⟨hlen, hmagic, hpage⟩ := href.header
  obtain ⟨hdr, id, himage, hid, hh, -⟩ := mkboot_of_draft hdraft hp hlen hmagic hpage hc hk hr hd
  exact ⟨hdr, id, himage, hid, hh⟩

/-- An image is written from a draft with a page size, and from what has 32-bit lengths. -/
theorem mkboot_inv {ref given : Option Bytes} {image : Bytes}
    (h : mkboot a ref kernel given dt = .ok image) : ∃ draft, draftOf a ref given = .ok draft ∧
      0 < draft.page ∧ kernel.length < 2 ^ 32 ∧ draft.ramdisk.length < 2 ^ 32 ∧
      dt.length < 2 ^ 32 ∧ ∀ raw ∈ a.cmdline, raw.length < 512 := by
  obtain ⟨draft, hdraft, h⟩ := bind_eq_ok h
  obtain ⟨ks, hks, h⟩ := bind_eq_ok h
  obtain ⟨h₁, -, h⟩ := bind_eq_ok h
  obtain ⟨rs, hrs, h⟩ := bind_eq_ok h
  obtain ⟨h₂, -, h⟩ := bind_eq_ok h
  obtain ⟨ss, -, h⟩ := bind_eq_ok h
  obtain ⟨h₃, -, h⟩ := bind_eq_ok h
  obtain ⟨ds, hds, h⟩ := bind_eq_ok h
  obtain ⟨h₄, -, h⟩ := bind_eq_ok h
  obtain ⟨h₅, hcmd, h⟩ := bind_eq_ok h
  obtain ⟨id, -, h⟩ := bind_eq_ok h
  obtain ⟨hp, hpad, -⟩ := bind_eq_ok h
  refine ⟨draft, hdraft, ?_, by exact_mod_cast (u32_inv hks).2.1,
    by exact_mod_cast (u32_inv hrs).2.1, by exact_mod_cast (u32_inv hds).2.1, ?_⟩
  · unfold padded at hpad
    split at hpad
    · exact absurd hpad (by simp)
    · omega
  · intro raw hraw
    rw [Option.mem_def.mp hraw, setCmdline] at hcmd
    split at hcmd
    · exact absurd hcmd (by simp)
    · omega

/-- **What `mkboot.py` takes.** -/
theorem mkboot_ok_iff : (∃ image, mkboot a none kernel (some ramdisk) dt = .ok image) ↔
    a.Accepted ∧ kernel.length < 2 ^ 32 ∧ ramdisk.length < 2 ^ 32 ∧ dt.length < 2 ^ 32 := by
  constructor
  · rintro ⟨image, h⟩
    obtain ⟨draft, hdraft, hp, hk, hr, hd, hcmdline⟩ := mkboot_inv h
    obtain ⟨hfits, hboard, hpage, hramdisk⟩ := fromScratch_inv hdraft
    rw [hramdisk] at hr
    exact ⟨⟨hfits, by omega, hboard, hcmdline⟩, hk, hr, hd⟩
  · rintro ⟨ha, hk, hr, hd⟩
    obtain ⟨hdr, id, h, -⟩ := mkboot_ok ha hk hr hd
    exact ⟨_, h⟩

end Writer

/-! ## 5. What the readers find

The sections are found by a walk from the page behind the header.  If the header takes two pages,
the walk begins inside it. -/

theorem unpackU32_ok {b : Bytes} {off n : Nat} (hlen : off + 4 ≤ b.length)
    (h : slice b off (off + 4) = leBytes 4 n) (hn : n < 2 ^ 32) : unpackU32 b off = .ok n := by
  rw [unpackU32, unpackLe_eq hlen h (by omega)]
  rfl

section Readers

variable {page : Nat} {b : Bytes} {off : Nat} {kernel ramdisk dt id hdr tail : Bytes}

theorem contentOf_cons (p q : Part) (data : Bytes) (files : List (Part × Bytes)) :
    contentOf ((p, data) :: files) q = if q = p then data else contentOf files q := by
  by_cases h : q = p
  · simp [contentOf, h]
  · simp [contentOf, List.lookup_cons, h, beq_eq_false_iff_ne.mpr h]

/-- A part that is not looked for is not found. -/
theorem contentOf_splitFrom_of_notMem (l : List (Part × Nat)) {p : Part}
    (h : p ∉ l.map Prod.fst) : contentOf (splitFrom page b off l).1 p = [] := by
  induction l generalizing off with
  | nil => rfl
  | cons x l ih =>
    obtain ⟨hne, hrest⟩ : p ≠ x.1 ∧ p ∉ l.map Prod.fst := by simpa using h
    simp only [splitFrom]
    split
    · rw [contentOf_cons, if_neg hne]
      exact ih hrest
    · exact ih hrest

/-- **The files are what a walk finds**, an empty part having none. -/
theorem contentOf_splitFrom (l : List (Part × Nat)) (hnodup : (l.map Prod.fst).Nodup)
    (p : Part) : contentOf (splitFrom page b off l).1 p =
      contentOf ((l.map Prod.fst).zip (walk page b off (l.map Prod.snd))) p := by
  induction l generalizing off with
  | nil => rfl
  | cons x l ih =>
    obtain ⟨q, size⟩ := x
    obtain ⟨hq, hl⟩ : q ∉ l.map Prod.fst ∧ (l.map Prod.fst).Nodup := by
      simpa using hnodup
    simp only [List.map_cons, walk, List.zip_cons_cons, splitFrom]
    rw [contentOf_cons, ← ih hl]
    by_cases hsize : size = 0
    · subst hsize
      simp only [ne_eq, not_true_eq_false, if_false]
      by_cases hp : p = q
      · rw [if_pos hp, hp, contentOf_splitFrom_of_notMem l hq]
        simp [slice]
      · rw [if_neg hp]
    · rw [if_pos hsize, contentOf_cons]

theorem splitFrom_end (l : List (Part × Nat)) :
    (splitFrom page b off l).2 = walkEnd page off (l.map Prod.snd) := by
  induction l generalizing off with
  | nil => rfl
  | cons x l ih => exact ih

/-- A loop over the parts finds what a walk finds, if the sizes are there. -/
theorem partsFrom_ok (off : Nat) (size : Part → Nat) (ps : List Part)
    (hsize : ∀ p ∈ ps, unpackU32 b p.field = .ok (size p))
    (hfull : (walk page b off (ps.map size)).map List.length = ps.map size) :
    partsFrom page b off ps = .ok (ps.zip (walk page b off (ps.map size))) := by
  induction ps generalizing off with
  | nil => rfl
  | cons p ps ih =>
    obtain ⟨hlen, hrest⟩ := List.cons.inj hfull
    rw [partsFrom, hsize p (by simp), ok_bind, if_neg (by simpa using hlen)]
    dsimp only
    rw [ih _ (fun q hq => hsize q (by simp [hq])) hrest]
    rfl

/-- The sections of an image, each under its part. -/
def contents (kernel ramdisk dt : Bytes) : Part → Bytes
  | .kernel => kernel
  | .ramdisk => ramdisk
  | .second => []
  | .dt => dt

/-- Both readers find the sections; the trailer stands right behind them, and the id is that of what
has been found.  The trailer is found where a reader expects it. -/
structure RoundTrip (page : Nat) (kernel ramdisk dt image : Bytes) (s : Split) : Prop where
  split : splitboot image = .ok s
  content : ∀ p, contentOf s.files p = contents kernel ramdisk dt p
  trailer : s.trailer = TRAILER
  payloadEnd : s.payloadEnd + TRAILER.length = image.length
  id : imageId (contentOf s.files .kernel) (contentOf s.files .ramdisk)
    (contentOf s.files .second) (contentOf s.files .dt) = .ok (slice image 576 (576 + 32))
  parts : page = 2048 → ∃ found, parts image = .ok found ∧
    ∀ p, found.lookup p = some (contents kernel ramdisk dt p) ∧
      found.lookup p = some (contentOf s.files p)

/-- The header shows at the front of the image. -/
theorem Header.front (hh : Header hdr page kernel ramdisk dt id) (tail : Bytes) {i j : Nat}
    (h : j ≤ HEADER_SIZE) : slice (pad page hdr ++ tail) i j = slice hdr i j := by
  obtain ⟨n, hpad⟩ := pad_eq page hdr
  rw [hpad, List.append_assoc, slice_append_left (by rw [hh.length]; exact h)]

theorem Header.unpack (hh : Header hdr page kernel ramdisk dt id) (tail : Bytes) {off n : Nat}
    (h : slice hdr off (off + 4) = leBytes 4 n) (hoff : off + 4 ≤ HEADER_SIZE) (hn : n < 2 ^ 32) :
    unpackU32 (pad page hdr ++ tail) off = .ok n := by
  refine unpackU32_ok ?_ ?_ hn
  · obtain ⟨m, hpad⟩ := pad_eq page hdr
    have := hh.length
    rw [hpad, List.append_assoc, List.length_append]
    omega
  · rw [hh.front tail hoff, h]

theorem Header.magic_front (hh : Header hdr page kernel ramdisk dt id) (tail : Bytes) :
    (pad page hdr ++ tail).take 8 = MAGIC := by
  have h := hh.front tail (i := 0) (j := 8) (by decide)
  rwa [hh.magic] at h

/-- **What `splitboot.py` makes of it**, whether the header fits a page or not. -/
theorem Header.splitboot_ok (hh : Header hdr page kernel ramdisk dt id) (tail : Bytes)
    (hp : 0 < page) (hp' : page < 2 ^ 32) (hk : kernel.length < 2 ^ 32)
    (hr : ramdisk.length < 2 ^ 32) (hd : dt.length < 2 ^ 32) : ∃ s,
    splitboot (pad page hdr ++ tail) = .ok s ∧
    (∀ p, contentOf s.files p = contentOf (Part.all.zip (walk page (pad page hdr ++ tail) page
      ([kernel, ramdisk, [], dt].map List.length))) p) ∧
    s.payloadEnd = page + (layout page [kernel, ramdisk, [], dt]).length ∧
    s.trailer = slice (pad page hdr ++ tail) s.payloadEnd (s.payloadEnd + 16) := by
  have hmagic : ¬ (pad page hdr ++ tail).take 8 ≠ MAGIC := by rw [hh.magic_front]; simp
  have hks := hh.unpack tail hh.kernel (by decide) hk
  have hrs := hh.unpack tail hh.ramdisk (by decide) hr
  have hss := hh.unpack tail hh.second (by decide) (by omega)
  have hps := hh.unpack tail hh.page (by decide) hp'
  have hds := hh.unpack tail hh.dt (by decide) hd
  have hok : splitboot (pad page hdr ++ tail) =
      let l := splitFrom page (pad page hdr ++ tail) page
        [(.kernel, kernel.length), (.ramdisk, ramdisk.length), (.second, 0), (.dt, dt.length)]
      .ok ⟨l.1, l.2, slice (pad page hdr ++ tail) l.2 (l.2 + 16)⟩ := by
    rw [splitboot, if_neg hmagic, hks, hrs, hss, hps, hds]
    simp only [pure_eq_ok, ok_bind]
    rw [if_neg (by omega)]
  refine ⟨_, hok, fun p => contentOf_splitFrom _ (by simp) p, ?_, rfl⟩
  rw [← walkEnd_layout hp]
  exact splitFrom_end _

/-- Where the header fits the page, the image starts with one page and then the sections. -/
theorem Header.length_pad (hh : Header hdr page kernel ramdisk dt id) (h : HEADER_SIZE ≤ page) :
    (pad page hdr).length = page := by
  have hpos : 0 < HEADER_SIZE := by decide
  rw [Bytes.length_pad (by omega), hh.length, roundUp_one hpos h]

/-- What follows the header is found by a walk that starts one page into the image. -/
theorem Header.walk (hh : Header hdr page kernel ramdisk dt id) (h : HEADER_SIZE ≤ page) :
    walk page (pad page hdr ++ (layout page [kernel, ramdisk, [], dt] ++ TRAILER)) page
      ([kernel, ramdisk, [], dt].map List.length) = [kernel, ramdisk, [], dt] := by
  have hpos : 0 < HEADER_SIZE := by decide
  have hp : 0 < page := by omega
  have hwalk := walk_layout hp (pad page hdr) [kernel, ramdisk, [], dt] TRAILER
  rwa [hh.length_pad h, List.append_assoc] at hwalk

/-- **What `boot_parts.py` makes of an image with pages of 2048 bytes.** -/
theorem Header.parts_ok (hh : Header hdr 2048 kernel ramdisk dt id)
    (hk : kernel.length < 2 ^ 32) (hr : ramdisk.length < 2 ^ 32) (hd : dt.length < 2 ^ 32) :
    parts (pad 2048 hdr ++ (layout 2048 [kernel, ramdisk, [], dt] ++ TRAILER)) =
      .ok (Part.all.zip [kernel, ramdisk, [], dt]) := by
  have hmagic : ¬ ((pad 2048 hdr ++ (layout 2048 [kernel, ramdisk, [], dt] ++ TRAILER)).length <
      2048 ∨ (pad 2048 hdr ++ (layout 2048 [kernel, ramdisk, [], dt] ++ TRAILER)).take 8 ≠
        MAGIC) := by
    rw [hh.magic_front, List.length_append, hh.length_pad (by decide)]
    simp
  have hsizes : ∀ p ∈ Part.all, unpackU32
      (pad 2048 hdr ++ (layout 2048 [kernel, ramdisk, [], dt] ++ TRAILER)) p.field =
        .ok (contents kernel ramdisk dt p).length := by
    intro p _
    cases p with
    | kernel => exact hh.unpack _ hh.kernel (by decide) hk
    | ramdisk => exact hh.unpack _ hh.ramdisk (by decide) hr
    | second => exact hh.unpack _ hh.second (by decide) (by simp [contents])
    | dt => exact hh.unpack _ hh.dt (by decide) hd
  have hpage := hh.unpack (layout 2048 [kernel, ramdisk, [], dt] ++ TRAILER) hh.page (by decide)
    (by decide)
  have hall : Part.all.map (fun p => (contents kernel ramdisk dt p).length) =
      [kernel, ramdisk, [], dt].map List.length := rfl
  have hwalk := hh.walk (by decide)
  have hloop := partsFrom_ok 2048 _ Part.all hsizes (by rw [hall, hwalk])
  rw [hall, hwalk] at hloop
  rw [parts, if_neg hmagic, hpage]
  simpa only [pure_eq_ok, ok_bind, ne_eq, not_true_eq_false, if_false] using hloop

/-- **Both readers find everything** in an image whose header fits one page. -/
theorem Header.roundTrip (hh : Header hdr page kernel ramdisk dt id)
    (hid : imageId kernel ramdisk [] dt = .ok id) (h : HEADER_SIZE ≤ page) (hp' : page < 2 ^ 32)
    (hk : kernel.length < 2 ^ 32) (hr : ramdisk.length < 2 ^ 32) (hd : dt.length < 2 ^ 32) :
    ∃ s, RoundTrip page kernel ramdisk dt
      (pad page hdr ++ layout page [kernel, ramdisk, [], dt] ++ TRAILER) s := by
  have hpos : 0 < HEADER_SIZE := by decide
  have hp : 0 < page := by omega
  have hlen := hh.length_pad h
  have hwalk := hh.walk h
  obtain ⟨s, hs, hcontent, hend, htrailer⟩ :=
    hh.splitboot_ok (layout page [kernel, ramdisk, [], dt] ++ TRAILER) hp hp' hk hr hd
  have hfound : ∀ p, contentOf s.files p = contents kernel ramdisk dt p := by
    intro p
    rw [hcontent, hwalk]
    cases p <;> rfl
  have hmiddle : slice (pad page hdr ++ (layout page [kernel, ramdisk, [], dt] ++ TRAILER))
      s.payloadEnd (s.payloadEnd + 16) = TRAILER := by
    have hlast := slice_middle (pad page hdr ++ layout page [kernel, ramdisk, [], dt]) TRAILER []
    rw [List.length_append, hlen, List.append_nil] at hlast
    rw [hend, ← List.append_assoc]
    exact hlast
  rw [List.append_assoc]
  refine ⟨s, hs, hfound, htrailer.trans hmiddle, ?_, ?_, fun h2048 => ?_⟩
  · rw [hend, List.length_append, List.length_append, hlen]
    omega
  · simp only [hfound, contents]
    rw [hh.front _ (by decide), hh.id, hid]
  · subst h2048
    refine ⟨Part.all.zip [kernel, ramdisk, [], dt], hh.parts_ok hk hr hd, fun p => ?_⟩
    rw [hfound]
    cases p <;> exact ⟨rfl, rfl⟩

/-- The end a reader computes is the writer's only where the header takes one page. -/
theorem Header.roundTrip_iff (hh : Header hdr page kernel ramdisk dt id)
    (hid : imageId kernel ramdisk [] dt = .ok id) (hp : 0 < page) (hp' : page < 2 ^ 32)
    (hk : kernel.length < 2 ^ 32) (hr : ramdisk.length < 2 ^ 32) (hd : dt.length < 2 ^ 32) :
    (∃ s, RoundTrip page kernel ramdisk dt
      (pad page hdr ++ layout page [kernel, ramdisk, [], dt] ++ TRAILER) s) ↔
      HEADER_SIZE ≤ page := by
  refine ⟨?_, fun h => hh.roundTrip hid h hp' hk hr hd⟩
  rintro ⟨s, hs⟩
  obtain ⟨s', hs', -, hend, -⟩ := hh.splitboot_ok
    (layout page [kernel, ramdisk, [], dt] ++ TRAILER) hp hp' hk hr hd
  have hsplit := hs.split
  rw [List.append_assoc, hs', Except.ok.injEq] at hsplit
  subst hsplit
  have hlen := hs.payloadEnd
  rw [hend, List.length_append, List.length_append, Bytes.length_pad hp, hh.length] at hlen
  have hle := le_roundUp hp HEADER_SIZE
  omega

end Readers

/-! ## 6. The round trip

The round trip is an equivalence, since a header that does not fit shifts every section. -/

/-- **The boot image comes back** exactly when the header fits one page. -/
theorem image_round_trip (a : Args) (kernel ramdisk dt : Bytes) (ha : a.Accepted)
    (hk : kernel.length < 2 ^ 32) (hr : ramdisk.length < 2 ^ 32) (hd : dt.length < 2 ^ 32) :
    ∃ image, mkboot a none kernel (some ramdisk) dt = .ok image ∧
      ((∃ s, RoundTrip a.pagesize.toNat kernel ramdisk dt image s) ↔
        HEADER_SIZE ≤ a.pagesize.toNat) := by
  have hp : 0 < a.pagesize.toNat := by have := ha.page; omega
  have hp' : a.pagesize.toNat < 2 ^ 32 := by
    have := (ha.numbers a.pagesize (by simp [Args.numbers])).2
    omega
  obtain ⟨hdr, id, himage, hid, hh⟩ := mkboot_ok ha hk hr hd
  exact ⟨_, himage, hh.roundTrip_iff hid hp hp' hk hr hd⟩

/-- The defaults, with another page size and a command line. -/
def withPage (pagesize : Int) : Args := { cmdline := some [0x72, 0x6f], pagesize := pagesize }

theorem accepted_withPage {pagesize : Int} (h : 0 < pagesize) (h' : pagesize < 2 ^ 32) :
    (withPage pagesize).Accepted where
  numbers := by
    intro n hn
    simp only [Args.numbers, withPage, List.mem_cons, List.not_mem_nil, or_false] at hn
    unfold Fits
    omega
  page := h
  board := by simp [withPage]
  cmdline := by simp [withPage]

theorem image_round_trip_default : (withPage 2048).Accepted ∧
    ∃ image, mkboot (withPage 2048) none [0x4d, 0x5a] (some [0x1f]) [] = .ok image ∧
      ((∃ s, RoundTrip 2048 [0x4d, 0x5a] [0x1f] [] image s) ↔ HEADER_SIZE ≤ 2048) :=
  have ha : (withPage 2048).Accepted := accepted_withPage (by decide) (by decide)
  ⟨ha, image_round_trip (withPage 2048) [0x4d, 0x5a] [0x1f] [] ha (by simp) (by simp) (by simp)⟩

/-- **A small page shifts the sections.**  The header takes two pages of 1024 bytes, and the
readers start after the first. -/
theorem small_page_shifts : ∃ image,
    mkboot (withPage 1024) none [0x4d, 0x5a] (some [0x1f]) [] = .ok image ∧
      ¬ ∃ s, RoundTrip 1024 [0x4d, 0x5a] [0x1f] [] image s := by
  have ha : (withPage 1024).Accepted := accepted_withPage (by decide) (by decide)
  obtain ⟨hdr, id, himage, hid, hh⟩ :=
    mkboot_ok ha (show ([0x4d, 0x5a] : Bytes).length < 2 ^ 32 by simp)
      (show ([0x1f] : Bytes).length < 2 ^ 32 by simp) (show ([] : Bytes).length < 2 ^ 32 by simp)
  refine ⟨_, himage, fun h => ?_⟩
  have hfits := (hh.roundTrip_iff hid (by decide) (by decide) (by simp) (by simp) (by simp)).mp h
  exact absurd hfits (by decide)

end S9p.Boot
