/-
# From a kernel and a device tree to the boot image, and back

`mkdtbh.py` packs device trees into a table, `mkboot.py` packs the table with a kernel and a
ramdisk, and `stage_uniloader_inputs.py` takes kernel and device tree out again.

* `pipeline_lossless`: whatever their lengths, kernel and device tree come back byte for byte,
  as long as every length fits its 32-bit field.
* `kernel_too_long`: a kernel of 2^32 bytes does not.

The two programs in the middle are `mkboot.py` and `boot_parts.py`, and `Header.parts_ok` is all
that is used of them.
-/
import S9p.Boot.Fdt
import Mathlib.Data.List.Infix

namespace S9p.Boot

open Bytes

/-! ## 1. `mkdtbh.py`

The script reads the three cells of each tree, lays the trees out one after the other, and writes a
row for each. -/

/-- `DTBH` -/
def DTBH : Bytes := [0x44, 0x54, 0x42, 0x48]

/-- A device tree with what its row needs of it. -/
structure Entry where
  chip : Nat
  rev : Nat
  revEnd : Nat
  blob : Bytes

/-- What `dtbh` reads from one tree. -/
def entryOf (path : String) (blob : Bytes) : Py Entry := do
  let props ← rootProps blob
  let chip ← cell props "model_info-chip" path
  let rev ← cell props "model_info-hw_rev" path
  let revEnd ← cell props "model_info-hw_rev_end" path
  return ⟨chip, rev, revEnd, blob⟩

/-- The first tree that does not fit ends it. -/
def entriesOf : List (String × Bytes) → Py (List Entry)
  | [] => return []
  | (path, blob) :: dtbs => do
    let e ← entryOf path blob
    let es ← entriesOf dtbs
    return e :: es

/-- The rows of the table. -/
def rows (page : Nat) (platform subtype : Int) : Nat → List Entry → Py Bytes
  | _, [] => return []
  | offset, e :: es => do
    let row ← u32s [e.chip, platform, subtype, e.rev, e.revEnd, offset,
      roundUp page e.blob.length, 0x20]
    let rest ← rows page platform subtype (offset + roundUp page e.blob.length) es
    return row ++ rest

/-- The blobs behind the table. -/
def blobs (page : Nat) (entries : List Entry) : Bytes :=
  entries.flatMap (fun e => e.blob ++ zeros (roundUp page e.blob.length - e.blob.length))

/-- `dtbh`: the complete dt.img. -/
def dtbh (dtbs : List (String × Bytes)) (page : Nat) (platform subtype : Int) : Py Bytes := do
  let entries ← entriesOf dtbs
  if page = 0 then throw .zeroDivision
  else do
    let header := roundUp page (12 + 32 * entries.length + 4)
    let count ← u32s [2, entries.length]
    let table ← rows page platform subtype header entries
    let out := DTBH ++ count ++ table
    return out ++ zeros (header - out.length) ++ blobs page entries

/-! ## 2. `stage_uniloader_inputs.py`

On the way back nothing is known but the image.  The tree is found through its table, and kernel and
tree are told by their magic. -/

/-- `ARM\x64` -/
def ARM64 : Bytes := [0x41, 0x52, 0x4d, 0x64]

/-- The magic of a device tree. -/
def FDT_BYTES : Bytes := [0xd0, 0x0d, 0xfe, 0xed]

/-- `samsung,star2lte\0` -/
def STAR2LTE : Bytes :=
  [0x73, 0x61, 0x6d, 0x73, 0x75, 0x6e, 0x67, 0x2c, 0x73, 0x74, 0x61, 0x72, 0x32, 0x6c, 0x74, 0x65,
    0x00]

/-- The two files written. -/
structure Staged where
  image : Bytes
  dtb : Bytes

/-- The device tree in a table with one entry. -/
def stageDtb (table : Bytes) : Py Bytes := do
  let chip ← unpackU32 table 12
  let rev ← unpackU32 table 24
  let revEnd ← unpackU32 table 28
  let offset ← unpackU32 table 32
  let paddedSize ← unpackU32 table 36
  let _flags ← unpackU32 table 40
  if chip ≠ 0x2652 ∨ ¬ (rev ≤ 26 ∧ 26 ≤ revEnd) then
    throw (.value "DTBH does not select this Exynos9810 rev26 board")
  else if slice table offset (offset + 4) ≠ FDT_BYTES then throw (.value "invalid DTB offset")
  else do
    let size ← unpackBe32 table (offset + 4)
    if paddedSize < size ∨ table.length < offset + size then
      throw (.value "truncated device tree")
    else if ¬ STAR2LTE <:+: slice table offset (offset + size) then
      throw (.value "not a Galaxy S9+ device tree")
    else return slice table offset (offset + size)

/-- `main` of `stage_uniloader_inputs.py`. -/
def stage (boot : Bytes) : Py Staged := do
  let data ← parts boot
  let kernel := contentOf data .kernel
  let table := contentOf data .dt
  if slice kernel 56 60 ≠ ARM64 then
    throw (.value "source must contain a raw arm64 kernel, not another loader")
  else if table.take 4 ≠ DTBH then
    throw (.value "expected exactly one Samsung DTBH v2 device tree")
  else do
    let version ← unpackU32 table 4
    let count ← unpackU32 table 8
    if version ≠ 2 ∨ count ≠ 1 then
      throw (.value "expected exactly one Samsung DTBH v2 device tree")
    else do
      let dtb ← stageDtb table
      return ⟨kernel, dtb⟩

/-! ## 3. The device tree of the board

The board has one tree, and its table one row.  All offsets are then known. -/

/-- A device tree for revision 26 of the board. -/
structure StarDtb (dtb : Bytes) : Prop where
  tree : ∃ ps rev revEnd, Fdt dtb ps ∧ Carries ps "model_info-chip" 0x2652 ∧
    Carries ps "model_info-hw_rev" rev ∧ Carries ps "model_info-hw_rev_end" revEnd ∧
    rev ≤ 26 ∧ 26 ≤ revEnd
  compatible : STAR2LTE <:+: dtb

/-- What goes into the row of a tree besides its place: the codes of the platform, and the
revisions the tree is for. -/
structure Codes where
  platform : Int
  subtype : Int
  rev : Nat
  revEnd : Nat

structure Codes.Fit (c : Codes) : Prop where
  platform : Fits c.platform
  subtype : Fits c.subtype
  rev : c.rev < 2 ^ 32
  revEnd : c.revEnd < 2 ^ 32

/-- The numbers in front of the table's padding. -/
def starRow (c : Codes) (size : Nat) : List Nat :=
  [2, 1, 0x2652, c.platform.toNat, c.subtype.toNat, c.rev, c.revEnd, 2048, roundUp 2048 size, 0x20]

/-- The table of one device tree. -/
def starTable (c : Codes) (dtb : Bytes) : Bytes :=
  DTBH ++ (starRow c dtb.length).flatMap (leBytes 4) ++ (zeros (2048 - 44) ++ pad 2048 dtb)

section Table

variable {c : Codes} {dtb : Bytes} {ps : Props}

theorem entryOf_ok {path : String} (htree : Fdt dtb ps)
    (hchip : Carries ps "model_info-chip" 0x2652) (hrev : Carries ps "model_info-hw_rev" c.rev)
    (hrevEnd : Carries ps "model_info-hw_rev_end" c.revEnd) :
    entryOf path dtb = .ok ⟨0x2652, c.rev, c.revEnd, dtb⟩ := by
  rw [entryOf, rootProps_ok htree, ok_bind, hchip.cell, ok_bind, hrev.cell, ok_bind,
    hrevEnd.cell, ok_bind]
  rfl

theorem fits_natCast {n : Nat} (h : n < 2 ^ 32) : Fits (n : Int) := ⟨by omega, by omega⟩

theorem rows_ok (hc : c.Fit) (hsize : 2048 + roundUp 2048 dtb.length < 2 ^ 32) :
    rows 2048 c.platform c.subtype 2048 [⟨0x2652, c.rev, c.revEnd, dtb⟩] =
      .ok (((starRow c dtb.length).drop 2).flatMap (leBytes 4)) := by
  have hrow := u32s_ok (l := [((0x2652 : Nat) : Int), c.platform, c.subtype, c.rev, c.revEnd,
      ((2048 : Nat) : Int), roundUp 2048 dtb.length, 0x20]) (by
    simp only [List.forall_mem_cons, List.not_mem_nil, false_implies, implies_true, and_true]
    exact ⟨fits_natCast (by omega), hc.platform, hc.subtype, fits_natCast hc.rev,
      fits_natCast hc.revEnd, fits_natCast (by omega), fits_natCast (by omega),
      by unfold Fits; omega⟩)
  simp only [rows]
  rw [hrow, ok_bind, pure_eq_ok, ok_bind]
  simp [starRow]

/-- **What `mkdtbh.py` makes of one tree.** -/
theorem dtbh_ok {path : String} (htree : Fdt dtb ps)
    (hchip : Carries ps "model_info-chip" 0x2652) (hrev : Carries ps "model_info-hw_rev" c.rev)
    (hrevEnd : Carries ps "model_info-hw_rev_end" c.revEnd) (hc : c.Fit)
    (hsize : 2048 + roundUp 2048 dtb.length < 2 ^ 32) :
    dtbh [(path, dtb)] 2048 c.platform c.subtype = .ok (starTable c dtb) := by
  have hcount : u32s [2, ([(⟨0x2652, c.rev, c.revEnd, dtb⟩ : Entry)].length : Int)] =
      .ok ([2, 1].flatMap (leBytes 4)) :=
    u32s_ok (l := [2, 1]) (by intro n hn; unfold Fits; simp at hn; omega)
  have hheader : roundUp 2048
      (12 + 32 * [(⟨0x2652, c.rev, c.revEnd, dtb⟩ : Entry)].length + 4) = 2048 := by
    simp [roundUp]
  have hentries : entriesOf [(path, dtb)] = .ok [⟨0x2652, c.rev, c.revEnd, dtb⟩] := by
    rw [entriesOf, entryOf_ok htree hchip hrev hrevEnd, ok_bind]
    rfl
  rw [dtbh, hentries, ok_bind, if_neg (by decide)]
  simp only [hheader, hcount, ok_bind, rows_ok hc hsize]
  simp [blobs, starTable, starRow, pad_eq_zeros, DTBH, List.flatMap_cons]

theorem length_starTable (c : Codes) (dtb : Bytes) :
    (starTable c dtb).length = 2048 + roundUp 2048 dtb.length := by
  have hpad := Bytes.length_pad (show 0 < 2048 by omega) dtb
  simp only [starTable, starRow, List.length_append, List.length_flatMap, hpad, length_zeros]
  simp [DTBH]
  omega

/-- A number at the front of the table. -/
theorem unpack_starTable (c : Codes) (dtb : Bytes) {i n : Nat}
    (hn : (starRow c dtb.length)[i]? = some n) (hfits : n < 2 ^ 32) :
    unpackU32 (starTable c dtb) (4 + 4 * i) = .ok n := by
  obtain ⟨hi, rfl⟩ := List.getElem?_eq_some_iff.mp hn
  have hlen := length_starTable c dtb
  have hrow : (starRow c dtb.length).length = 10 := rfl
  exact unpackU32_ok (by omega) (slice_row 4 DTBH _ _ hi) hfits

/-- Behind the first page stands the tree. -/
theorem slice_starTable (c : Codes) (dtb : Bytes) {i j : Nat} (h : j ≤ dtb.length) :
    slice (starTable c dtb) (2048 + i) (2048 + j) = slice dtb i j := by
  obtain ⟨n, hpad⟩ := pad_eq 2048 dtb
  have hsplit : starTable c dtb =
      (DTBH ++ (starRow c dtb.length).flatMap (leBytes 4) ++ zeros (2048 - 44)) ++
        (dtb ++ zeros n) := by
    simp only [starTable, hpad, List.append_assoc]
  have hfront : (DTBH ++ (starRow c dtb.length).flatMap (leBytes 4) ++
      zeros (2048 - 44)).length = 2048 := by
    simp [starRow, DTBH]
  rw [hsplit, slice_append_right (by omega), hfront, Nat.add_sub_cancel_left,
    Nat.add_sub_cancel_left, slice_append_left h]

/-- The tree begins with its magic. -/
theorem Fdt.magic_bytes (htree : Fdt dtb ps) : slice dtb 0 4 = FDT_BYTES := by
  have hheader := htree.header
  have hat := htree.magic
  unfold CellAt unpackBe at hat
  rw [if_pos (by omega), Option.some.injEq] at hat
  have hback := leBytes_ofLe (slice dtb 0 (0 + 4)).reverse
  rw [hat, List.length_reverse, length_slice (by omega)] at hback
  have hbytes := congrArg List.reverse hback
  rw [List.reverse_reverse] at hbytes
  exact hbytes.symm

/-- **The tree is found in its table.** -/
theorem stageDtb_ok (htree : Fdt dtb ps) (hc : c.Fit) (hrev : c.rev ≤ 26) (hrevEnd : 26 ≤ c.revEnd)
    (hcompatible : STAR2LTE <:+: dtb) (hsize : 2048 + roundUp 2048 dtb.length < 2 ^ 32) :
    stageDtb (starTable c dtb) = .ok dtb := by
  have hlen := length_starTable c dtb
  have hle := le_roundUp (show 0 < 2048 by omega) dtb.length
  have hheader := htree.header
  have hrev' := hc.rev
  have hrevEnd' := hc.revEnd
  have hchip : unpackU32 (starTable c dtb) 12 = .ok 0x2652 :=
    unpack_starTable c dtb (i := 2) rfl (by omega)
  have hrevAt : unpackU32 (starTable c dtb) 24 = .ok c.rev :=
    unpack_starTable c dtb (i := 5) rfl (by omega)
  have hrevEndAt : unpackU32 (starTable c dtb) 28 = .ok c.revEnd :=
    unpack_starTable c dtb (i := 6) rfl (by omega)
  have hoffset : unpackU32 (starTable c dtb) 32 = .ok 2048 :=
    unpack_starTable c dtb (i := 7) rfl (by omega)
  have hpadded : unpackU32 (starTable c dtb) 36 = .ok (roundUp 2048 dtb.length) :=
    unpack_starTable c dtb (i := 8) rfl (by omega)
  have hflags : unpackU32 (starTable c dtb) 40 = .ok 0x20 :=
    unpack_starTable c dtb (i := 9) rfl (by omega)
  have hmagic : slice (starTable c dtb) 2048 (2048 + 4) = FDT_BYTES := by
    have hfront := slice_starTable c dtb (i := 0) (j := 4) (by omega)
    rw [Nat.add_zero] at hfront
    exact hfront.trans htree.magic_bytes
  have htotal : unpackBe32 (starTable c dtb) (2048 + 4) = .ok dtb.length := by
    have hcell := slice_starTable c dtb (i := 4) (j := 4 + 4) (by omega)
    rw [← Nat.add_assoc] at hcell
    have hsame := unpackBe_congr (by omega) (by omega) hcell
    rw [unpackBe32, hsame, htree.totalsize]
    rfl
  have hwhole := slice_starTable c dtb (i := 0) (j := dtb.length) le_rfl
  rw [Nat.add_zero, slice_zero_length] at hwhole
  rw [stageDtb, hchip, ok_bind, hrevAt, ok_bind, hrevEndAt, ok_bind, hoffset, ok_bind, hpadded,
    ok_bind, hflags, ok_bind, if_neg (by omega), if_neg (by rw [hmagic]; simp), htotal, ok_bind,
    if_neg (by omega), hwhole, if_neg (by simpa using hcompatible)]
  rfl

end Table

/-! ## 4. The whole way

Each stage gives back what it was given, as long as it gets it whole; the lengths are the only thing
that can go wrong. -/

/-- Where `mkboot.py` has its header from: the options or a reference image, with pages of 2048
bytes. -/
def PageIs2048 (a : Args) : Option Bytes → Prop
  | none => a.Accepted ∧ a.pagesize = 2048
  | some ref => Reference ref 2048 ∧ ∀ raw ∈ a.cmdline, raw.length < 512

section Pipeline

variable {a : Args} {ref : Option Bytes} {kernel ramdisk dt : Bytes}

theorem mkboot_2048 (ha : PageIs2048 a ref) (hk : kernel.length < 2 ^ 32)
    (hr : ramdisk.length < 2 ^ 32) (hd : dt.length < 2 ^ 32) : ∃ hdr id,
    mkboot a ref kernel (some ramdisk) dt =
      .ok (pad 2048 hdr ++ layout 2048 [kernel, ramdisk, [], dt] ++ TRAILER) ∧
    Header hdr 2048 kernel ramdisk dt id := by
  cases ref with
  | none =>
    obtain ⟨hdr, id, himage, -, hh⟩ := mkboot_ok ha.1 hk hr hd
    rw [ha.2] at himage hh
    exact ⟨hdr, id, himage, hh⟩
  | some ref =>
    obtain ⟨hdr, id, himage, -, hh⟩ := mkboot_ref_ok ha.1 (by omega) ha.2 hk hr hd
    exact ⟨hdr, id, himage, hh⟩

end Pipeline

/-- **Kernel and device tree come back byte for byte.** -/
theorem pipeline_lossless (a : Args) (ref : Option Bytes) (kernel ramdisk dtb : Bytes)
    (path : String) (platform subtype : Int) (ha : PageIs2048 a ref) (hplatform : Fits platform)
    (hsubtype : Fits subtype) (harm : slice kernel 56 60 = ARM64) (hdtb : StarDtb dtb)
    (hk : kernel.length < 2 ^ 32) (hr : ramdisk.length < 2 ^ 32)
    (hsize : 2048 + roundUp 2048 dtb.length < 2 ^ 32) : ∃ table image,
      dtbh [(path, dtb)] 2048 platform subtype = .ok table ∧
      mkboot a ref kernel (some ramdisk) table = .ok image ∧
      stage image = .ok ⟨kernel, dtb⟩ := by
  obtain ⟨ps, rev, revEnd, htree, hchip, hrev, hrevEnd, hlow, hhigh⟩ := hdtb.tree
  let c : Codes := ⟨platform, subtype, rev, revEnd⟩
  have hc : c.Fit := ⟨hplatform, hsubtype, hrev.1, hrevEnd.1⟩
  have htable : dtbh [(path, dtb)] 2048 platform subtype = .ok (starTable c dtb) :=
    dtbh_ok (c := c) htree hchip hrev hrevEnd hc hsize
  have hlen := length_starTable c dtb
  have hd : (starTable c dtb).length < 2 ^ 32 := by omega
  obtain ⟨hdr, id, himage, hh⟩ := mkboot_2048 ha hk hr hd
  refine ⟨_, _, htable, himage, ?_⟩
  have hkernel : contentOf (Part.all.zip [kernel, ramdisk, [], starTable c dtb]) .kernel =
      kernel := rfl
  have hdt : contentOf (Part.all.zip [kernel, ramdisk, [], starTable c dtb]) .dt =
      starTable c dtb := rfl
  have hmagic : (starTable c dtb).take 4 = DTBH := rfl
  have hversion : unpackU32 (starTable c dtb) 4 = .ok 2 :=
    unpack_starTable c dtb (i := 0) rfl (by omega)
  have hcount : unpackU32 (starTable c dtb) 8 = .ok 1 :=
    unpack_starTable c dtb (i := 1) rfl (by omega)
  rw [List.append_assoc, stage, hh.parts_ok hk hr hd, ok_bind]
  simp only [hkernel, hdt]
  rw [if_neg (by simpa using harm), if_neg (by rw [hmagic]; simp), hversion, ok_bind, hcount,
    ok_bind, if_neg (by simp), stageDtb_ok htree hc hlow hhigh hdtb.compatible hsize, ok_bind]
  rfl

/-! ## 5. A small device tree

A tree that is small enough to be evaluated, and a kernel that is too long for its field. -/

/-- A property of the structure block. -/
def propToken (nameOff : Nat) (value : Bytes) : Bytes :=
  beBytes 4 FDT_PROP ++ beBytes 4 value.length ++ beBytes 4 nameOff ++ pad 4 value

/-- The root node with the board's compatible and its three cells, for all revisions up to 255. -/
def starTree : Bytes :=
  [FDT_MAGIC, 219, 56, 152, 40, 17, 16, 0, 67, 96].flatMap (beBytes 4) ++ zeros 16 ++
  (beBytes 4 FDT_BEGIN_NODE ++ zeros 4 ++ propToken 0 STAR2LTE ++
    propToken 11 (beBytes 4 0x2652) ++ propToken 27 (beBytes 4 0) ++ propToken 45 (beBytes 4 255) ++
    beBytes 4 FDT_END_NODE ++ beBytes 4 FDT_END) ++
  (["compatible", "model_info-chip", "model_info-hw_rev", "model_info-hw_rev_end"].flatMap
    (fun name => name.toUTF8.data.toList ++ [0]))

def starProps : Props :=
  [("compatible", STAR2LTE), ("model_info-chip", beBytes 4 0x2652),
    ("model_info-hw_rev", beBytes 4 0), ("model_info-hw_rev_end", beBytes 4 255)]

theorem fdt_starTree : Fdt starTree starProps where
  header := by decide +kernel
  magic := by decide +kernel
  totalsize := by decide +kernel
  root := by
    refine ⟨56, 152, by decide +kernel, by decide +kernel, ?_⟩
    refine .node (s := []) (by decide +kernel) (by decide +kernel) ?_
    refine .prop (o := 0) (by decide +kernel) (by decide +kernel) (by decide +kernel)
      (by decide +kernel) (by decide +kernel) ?_
    refine .prop (o := 11) (by decide +kernel) (by decide +kernel) (by decide +kernel)
      (by decide +kernel) (by decide +kernel) ?_
    refine .prop (o := 27) (by decide +kernel) (by decide +kernel) (by decide +kernel)
      (by decide +kernel) (by decide +kernel) ?_
    refine .prop (o := 45) (by decide +kernel) (by decide +kernel) (by decide +kernel)
      (by decide +kernel) (by decide +kernel) ?_
    exact .close (by decide +kernel)

/-- A property of one cell. -/
theorem carries_single {ps : Props} {name : String} {v : Nat} (hv : v < 2 ^ 32)
    (hmem : (name, beBytes 4 v) ∈ ps) (hone : ∀ p ∈ ps, p.1 = name → p.2 = beBytes 4 v) :
    Carries ps name v :=
  ⟨hv, [], rfl, by simpa using hmem, fun raw hraw => by simpa using hone _ hraw rfl⟩

theorem starDtb_starTree : StarDtb starTree where
  tree := by
    refine ⟨starProps, 0, 255, fdt_starTree, ?_, ?_, ?_, by omega, by omega⟩
    · exact carries_single (by omega) (by simp [starProps]) (by simp [starProps])
    · exact carries_single (by omega) (by simp [starProps]) (by simp [starProps])
    · exact carries_single (by omega) (by simp [starProps]) (by simp [starProps])
  compatible := by decide +kernel

/-- A raw kernel with `n` bytes after its magic. -/
def rawKernel (n : Nat) : Bytes := zeros 56 ++ ARM64 ++ zeros n

theorem rawKernel_magic (n : Nat) : slice (rawKernel n) 56 60 = ARM64 := by
  have h := slice_middle (zeros 56) ARM64 (zeros n)
  rw [length_zeros] at h
  exact h

theorem pipeline_lossless_star : ∃ table image,
    dtbh [("star2lte.dtb", starTree)] 2048 0x50A6 0x217584DA = .ok table ∧
    mkboot (withPage 2048) none (rawKernel 5) (some [0x1f]) table = .ok image ∧
    stage image = .ok ⟨rawKernel 5, starTree⟩ :=
  pipeline_lossless (withPage 2048) none (rawKernel 5) [0x1f] starTree "star2lte.dtb" 0x50A6
    0x217584DA ⟨accepted_withPage (by decide) (by decide), rfl⟩ ⟨by decide, by decide⟩
    ⟨by decide, by decide⟩ (rawKernel_magic 5) starDtb_starTree (by decide) (by decide)
    (by decide +kernel)

/-- **A kernel of 2^32 bytes is not packed**: its size has no 32-bit field to go to. -/
theorem kernel_too_long : ∃ table,
    dtbh [("star2lte.dtb", starTree)] 2048 0x50A6 0x217584DA = .ok table ∧
    slice (rawKernel (2 ^ 32)) 56 60 = ARM64 ∧ StarDtb starTree ∧
    ∀ image, mkboot (withPage 2048) none (rawKernel (2 ^ 32)) (some [0x1f]) table ≠ .ok image := by
  have hplatform : Fits 0x50A6 := ⟨by decide, by decide⟩
  have hsubtype : Fits 0x217584DA := ⟨by decide, by decide⟩
  obtain ⟨ps, rev, revEnd, htree, hchip, hrev, hrevEnd, -, -⟩ := starDtb_starTree.tree
  have htable : dtbh [("star2lte.dtb", starTree)] 2048 0x50A6 0x217584DA = .ok _ :=
    dtbh_ok (c := ⟨0x50A6, 0x217584DA, rev, revEnd⟩) htree hchip hrev hrevEnd
      ⟨hplatform, hsubtype, hrev.1, hrevEnd.1⟩ (by decide +kernel)
  refine ⟨_, htable, rawKernel_magic _, starDtb_starTree, fun image h => ?_⟩
  have hlen := (mkboot_ok_iff.mp ⟨image, h⟩).2.1
  simp only [rawKernel, List.length_append, length_zeros] at hlen
  omega

end S9p.Boot
