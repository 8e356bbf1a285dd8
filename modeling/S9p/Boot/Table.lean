/-
# The table of device trees

`dtbh` writes a header, one row for each tree, the word that ends the table, and the trees, each
padded to whole pages.  The row says where its tree is.  Header size, offsets and padding are
computed in three places from one rule.

`Table` is what a loader reads: the rows, and what is behind them.

* `dtbh_table`: every image that is written is such a table of its trees; and one is written
  exactly when the codes, offsets and sizes fit their fields.
-/
import S9p.Boot.Pipeline

namespace S9p.Boot

open Bytes

def PAGE_SIZES : List Nat := [2048, 4096, 8192, 16384, 32768, 65536, 131072]

/-! ## 1. What a loader reads

A row has eight words.  The reader is told nothing but the image: where a tree is and what it is
for, it has from the row. -/

/-- A row of the table. -/
structure Row where
  chip : Nat
  platform : Nat
  subtype : Nat
  rev : Nat
  revEnd : Nat
  offset : Nat
  size : Nat
  flags : Nat

def Row.words (r : Row) : List Nat :=
  [r.chip, r.platform, r.subtype, r.rev, r.revEnd, r.offset, r.size, r.flags]

/-- Where the tree of a row is. -/
def Row.range (r : Row) : Nat × Nat := (r.offset, r.size)

/-- Row `i` of an image. -/
def rowAt (image : Bytes) (i : Nat) : Option Row := do
  let chip ← unpackLe 4 image (12 + 32 * i)
  let platform ← unpackLe 4 image (12 + 32 * i + 4)
  let subtype ← unpackLe 4 image (12 + 32 * i + 8)
  let rev ← unpackLe 4 image (12 + 32 * i + 12)
  let revEnd ← unpackLe 4 image (12 + 32 * i + 16)
  let offset ← unpackLe 4 image (12 + 32 * i + 20)
  let size ← unpackLe 4 image (12 + 32 * i + 24)
  let flags ← unpackLe 4 image (12 + 32 * i + 28)
  return ⟨chip, platform, subtype, rev, revEnd, offset, size, flags⟩

/-- The tree is a flattened device tree whose root carries the three codes.  This is said in the
grammar of device trees alone, without the code that reads one. -/
structure Carried (dtb : Bytes) (chip rev revEnd : Nat) : Prop where
  tree : ∃ ps, Fdt dtb ps ∧ Carries ps "model_info-chip" chip ∧
    Carries ps "model_info-hw_rev" rev ∧ Carries ps "model_info-hw_rev_end" revEnd

/-- `dtbh` reads the three cells of `e` from the root node of a tree. -/
structure EntryOf (d : String × Bytes) (e : Entry) : Prop where
  blob : e.blob = d.2
  cells : ∃ props, rootProps d.2 = .ok props ∧ cell props "model_info-chip" d.1 = .ok e.chip ∧
    cell props "model_info-hw_rev" d.1 = .ok e.rev ∧
    cell props "model_info-hw_rev_end" d.1 = .ok e.revEnd

/-- The root node has three cells that `dtbh` can use.  Every tree that carries them has
(`Carried.usable`), but also one whose other tokens are no device tree any more. -/
def Usable (d : String × Bytes) : Prop := ∃ e, EntryOf d e

/-- `r` is the row of the tree `d`, and the tree is where the row says.  The codes of the row are
the cells that were read, and so those that the tree carries. -/
structure RowFor (page : Nat) (platform subtype : Int) (image : Bytes) (d : String × Bytes)
    (r : Row) : Prop where
  cells : EntryOf d ⟨r.chip, r.rev, r.revEnd, d.2⟩
  carried : ∀ chip rev revEnd, Carried d.2 chip rev revEnd →
    r.chip = chip ∧ r.rev = rev ∧ r.revEnd = revEnd
  platform : r.platform = platform
  subtype : r.subtype = subtype
  flags : r.flags = 0x20
  aligned : page ∣ r.offset ∧ page ∣ r.size
  blob : d.2.length ≤ r.size ∧
    slice image r.offset (r.offset + r.size) = d.2 ++ zeros (r.size - d.2.length)

/-- Header, rows and the word that ends the table, in whole pages. -/
def headerLen (page count : Nat) : Nat := roundUp page (12 + 32 * count + 4)

/-- The image is a table of these trees. -/
structure Table (page : Nat) (platform subtype : Int) (dtbs : List (String × Bytes))
    (image : Bytes) (table : List Row) : Prop where
  magic : slice image 0 4 = DTBH
  version : unpackLe 4 image 4 = some 2
  count : unpackLe 4 image 8 = some dtbs.length
  read : ∀ i < dtbs.length, rowAt image i = table[i]?
  rows : List.Forall₂ (RowFor page platform subtype image) dtbs table
  contiguous : Contiguous (headerLen page dtbs.length) (table.map Row.range) image.length
  disjoint : (table.map Row.range).Pairwise (fun a b => a.1 + a.2 ≤ b.1)
  stop : unpackLe 4 image (12 + 32 * dtbs.length) = some 0 ∧
    12 + 32 * dtbs.length + 4 ≤ headerLen page dtbs.length

/-- Codes, offsets and sizes have 32 bits. -/
structure InFields (page : Nat) (platform subtype : Int) (dtbs : List (String × Bytes)) : Prop where
  platform : Fits platform
  subtype : Fits subtype
  ranges : ∀ r ∈ places page (headerLen page dtbs.length) (dtbs.map Prod.snd),
    r.1 < 2 ^ 32 ∧ r.2 < 2 ^ 32

/-! ## 2. The rows

An entry is what the script has read from a tree.  That this is what the tree carries is a matter of
`Fdt`, and is used here by name. -/

section Rows

variable {page : Nat} {platform subtype : Int} {d : String × Bytes} {e : Entry} {es : List Entry}
  {dtbs : List (String × Bytes)}

theorem unpackBe32_lt {b : Bytes} {off n : Nat} (h : unpackBe32 b off = .ok n) : n < 2 ^ 32 := by
  unfold unpackBe32 at h
  split at h
  · rename_i m hm
    simp only [pure_eq_ok, Except.ok.injEq] at h
    have := unpackBe_lt hm
    omega
  · exact absurd h (by simp)

theorem cell_lt {props : Props} {name path : String} {n : Nat} (h : cell props name path = .ok n) :
    n < 2 ^ 32 := by
  unfold cell at h
  split at h
  · exact absurd h (by simp)
  · split at h
    · exact absurd h (by simp)
    · exact unpackBe32_lt h

theorem entryOf_iff : entryOf d.1 d.2 = .ok e ↔ EntryOf d e := by
  unfold entryOf
  constructor
  · intro h
    obtain ⟨props, hprops, h⟩ := bind_eq_ok h
    obtain ⟨chip, hchip, h⟩ := bind_eq_ok h
    obtain ⟨rev, hrev, h⟩ := bind_eq_ok h
    obtain ⟨revEnd, hrevEnd, h⟩ := bind_eq_ok h
    simp only [pure_eq_ok, Except.ok.injEq] at h
    subst h
    exact ⟨rfl, props, hprops, hchip, hrev, hrevEnd⟩
  · rintro ⟨hblob, props, hprops, hchip, hrev, hrevEnd⟩
    rw [hprops, ok_bind, hchip, ok_bind, hrev, ok_bind, hrevEnd, ok_bind, ← hblob]
    rfl

/-- **What is read from a tree is what it carries.** -/
theorem Carried.entryOf {chip rev revEnd : Nat} (h : Carried d.2 chip rev revEnd) :
    EntryOf d ⟨chip, rev, revEnd, d.2⟩ := by
  obtain ⟨ps, htree, hchip, hrev, hrevEnd⟩ := h.tree
  exact ⟨rfl, ps.reverse, rootProps_ok htree, hchip.cell, hrev.cell, hrevEnd.cell⟩

theorem Carried.usable {chip rev revEnd : Nat} (h : Carried d.2 chip rev revEnd) : Usable d :=
  ⟨_, h.entryOf⟩

/-- A tree has one entry. -/
theorem EntryOf.unique {e' : Entry} (h : EntryOf d e) (h' : EntryOf d e') : e = e' := by
  have heq := (entryOf_iff.mpr h).symm.trans (entryOf_iff.mpr h')
  exact Except.ok.inj heq

/-- Trees that can be used have entries. -/
theorem entriesOf_ok (h : ∀ d ∈ dtbs, Usable d) :
    ∃ es, entriesOf dtbs = .ok es ∧ List.Forall₂ EntryOf dtbs es := by
  induction dtbs with
  | nil => exact ⟨[], rfl, .nil⟩
  | cons d dtbs ih =>
    obtain ⟨path, blob⟩ := d
    obtain ⟨e, he⟩ := h _ List.mem_cons_self
    obtain ⟨es, hes, hall⟩ := ih (fun d hd => h d (List.mem_cons_of_mem _ hd))
    refine ⟨e :: es, ?_, .cons he hall⟩
    rw [entriesOf, entryOf_iff.mpr he, ok_bind, hes, ok_bind]
    rfl

/-- The row of an entry at a place. -/
def rowOf (platform subtype : Int) (e : Entry) (place : Nat × Nat) : Row :=
  ⟨e.chip, platform.toNat, subtype.toNat, e.rev, e.revEnd, place.1, place.2, 0x20⟩

/-- The table of the entries. -/
def tableOf (page : Nat) (platform subtype : Int) (offset : Nat) (es : List Entry) : List Row :=
  List.zipWith (rowOf platform subtype) es (places page offset (es.map Entry.blob))

def Row.bytes (r : Row) : Bytes := r.words.flatMap (leBytes 4)

@[simp] theorem Row.length_bytes (r : Row) : r.bytes.length = 32 := rfl

/-- **The rows that are written**, and when. -/
theorem rows_ok_iff (page : Nat) (platform subtype : Int) (offset : Nat)
    (hes : ∀ e ∈ es, e.chip < 2 ^ 32 ∧ e.rev < 2 ^ 32 ∧ e.revEnd < 2 ^ 32) (b : Bytes) :
    rows page platform subtype offset es = .ok b ↔
      (es ≠ [] → Fits platform ∧ Fits subtype) ∧
        (∀ r ∈ places page offset (es.map Entry.blob), r.1 < 2 ^ 32 ∧ r.2 < 2 ^ 32) ∧
          b = (tableOf page platform subtype offset es).flatMap Row.bytes := by
  induction es generalizing offset b with
  | nil => simp [rows, places, tableOf, eq_comm]
  | cons e es ih =>
    have ih' := ih (offset + roundUp page e.blob.length)
      (fun e he => hes e (List.mem_cons_of_mem _ he))
    obtain ⟨hchip, hrev, hrevEnd⟩ := hes e List.mem_cons_self
    simp only [rows, tableOf, List.map_cons, places, List.zipWith_cons_cons, List.flatMap_cons,
      List.forall_mem_cons, ne_eq, List.cons_ne_nil, not_false_eq_true, forall_const]
    constructor
    · intro h
      obtain ⟨row, hrow, h⟩ := bind_eq_ok h
      obtain ⟨rest, hrest, h⟩ := bind_eq_ok h
      have hfits := u32s_inv hrow
      simp only [List.forall_mem_cons] at hfits
      obtain ⟨-, hplatform, hsubtype, -, -, hoffset, hsize, -⟩ := hfits
      obtain ⟨-, hplaces, rfl⟩ := (ih' rest).mp hrest
      refine ⟨⟨hplatform, hsubtype⟩, ⟨⟨?_, ?_⟩, hplaces⟩, ?_⟩
      · have := hoffset.2; omega
      · have := hsize.2; omega
      · rw [u32s_ok (u32s_inv hrow), Except.ok.injEq] at hrow
        simp only [pure_eq_ok, Except.ok.injEq] at h
        rw [← h, ← hrow]
        rfl
    · rintro ⟨⟨hplatform, hsubtype⟩, ⟨⟨hoffset, hsize⟩, hplaces⟩, rfl⟩
      have hrow := u32s_ok (l := [(e.chip : Int), platform, subtype, e.rev, e.revEnd,
          (offset : Int), roundUp page e.blob.length, 0x20]) (by
        simp only [List.forall_mem_cons, List.not_mem_nil, false_implies, implies_true, and_true]
        exact ⟨fits_natCast hchip, hplatform, hsubtype, fits_natCast hrev, fits_natCast hrevEnd,
          fits_natCast hoffset, fits_natCast hsize, by unfold Fits; omega⟩)
      rw [hrow, ok_bind, (ih' _).mpr ⟨fun _ => ⟨hplatform, hsubtype⟩, hplaces, rfl⟩, ok_bind]
      rfl

end Rows

/-! ## 3. The image

The offset of the first tree depends on the number of rows, and the later ones on the sizes before
them.  `Bytes.places` has both. -/

section Image

variable {page : Nat} {platform subtype : Int} {es : List Entry} {dtbs : List (String × Bytes)}

theorem blobs_eq (hp : 0 < page) (es : List Entry) :
    blobs page es = layout page (es.map Entry.blob) := by
  induction es with
  | nil => rfl
  | cons e es ih =>
    rw [List.map_cons, layout_cons, pad_eq_zeros hp, ← ih]
    rfl

/-- Magic, version, count and rows. -/
def front (table : List Row) : Bytes :=
  DTBH ++ [2, table.length].flatMap (leBytes 4) ++ table.flatMap Row.bytes

theorem length_front (table : List Row) : (front table).length = 12 + 32 * table.length := by
  have hrows : (table.flatMap Row.bytes).length = 32 * table.length := by
    simp [List.length_flatMap, Nat.mul_comm]
  rw [front, List.length_append, hrows]
  simp [DTBH]

/-- The table with the header filled up, and the trees behind it. -/
def imageOf (page : Nat) (table : List Row) (sections : List Bytes) : Bytes :=
  front table ++ zeros (headerLen page table.length - (front table).length) ++ layout page sections

theorem length_tableOf (offset : Nat) :
    (tableOf page platform subtype offset es).length = es.length := by
  simp [tableOf]

theorem blobs_of (h : List.Forall₂ EntryOf dtbs es) :
    es.map Entry.blob = dtbs.map Prod.snd := by
  induction h with
  | nil => rfl
  | cons h _ ih => rw [List.map_cons, List.map_cons, h.blob, ih]

theorem cells_lt (h : List.Forall₂ EntryOf dtbs es) :
    ∀ e ∈ es, e.chip < 2 ^ 32 ∧ e.rev < 2 ^ 32 ∧ e.revEnd < 2 ^ 32 := by
  induction h with
  | nil => simp
  | cons h _ ih =>
    obtain ⟨props, -, hchip, hrev, hrevEnd⟩ := h.cells
    rw [List.forall_mem_cons]
    exact ⟨⟨cell_lt hchip, cell_lt hrev, cell_lt hrevEnd⟩, ih⟩

theorem le_headerLen (hp : 0 < page) (count : Nat) :
    12 + 32 * count + 4 ≤ headerLen page count := le_roundUp hp _

/-- The count fits where the first offset does. -/
theorem InFields.count (h : InFields page platform subtype dtbs) (hne : dtbs ≠ [])
    (hp : 0 < page) : dtbs.length < 2 ^ 32 := by
  have hle := le_headerLen hp dtbs.length
  have hranges := h.ranges
  cases dtbs with
  | nil => exact absurd rfl hne
  | cons d dtbs =>
    have hfirst := (hranges _ List.mem_cons_self).1
    simp only at hfirst
    omega

/-- **The image that is written**, and when. -/
theorem dtbh_eq_iff (hne : dtbs ≠ []) (hp : 0 < page) (hes : entriesOf dtbs = .ok es)
    (hall : List.Forall₂ EntryOf dtbs es) (image : Bytes) :
    dtbh dtbs page platform subtype = .ok image ↔ InFields page platform subtype dtbs ∧
      image = imageOf page (tableOf page platform subtype (headerLen page dtbs.length) es)
        (dtbs.map Prod.snd) := by
  have hlen : es.length = dtbs.length := hall.length_eq.symm
  have hne' : es ≠ [] := by
    rw [← List.length_pos_iff, hlen]
    exact List.length_pos_iff.mpr hne
  have hrows := rows_ok_iff page platform subtype (headerLen page dtbs.length) (cells_lt hall)
  rw [blobs_of hall] at hrows
  have hheader : roundUp page (12 + 32 * es.length + 4) = headerLen page dtbs.length := by
    rw [hlen]
    rfl
  have himage : let out := DTBH ++ [2, es.length].flatMap (leBytes 4) ++
        (tableOf page platform subtype (headerLen page dtbs.length) es).flatMap Row.bytes
      out ++ zeros (headerLen page dtbs.length - out.length) ++ blobs page es =
        imageOf page (tableOf page platform subtype (headerLen page dtbs.length) es)
          (dtbs.map Prod.snd) := by
    simp only [blobs_eq hp, blobs_of hall, imageOf, front, length_tableOf, hlen]
  have hcountOk : es.length < 2 ^ 32 →
      u32s [2, (es.length : Int)] = .ok ([2, es.length].flatMap (leBytes 4)) := by
    intro h
    exact u32s_ok (l := [2, (es.length : Int)]) (by
      simp only [List.forall_mem_cons, List.not_mem_nil, false_implies, implies_true, and_true]
      exact ⟨by unfold Fits; omega, fits_natCast h⟩)
  rw [dtbh, hes, ok_bind, if_neg (by omega)]
  simp only [hheader]
  constructor
  · intro h
    obtain ⟨count, hcount, h⟩ := bind_eq_ok h
    obtain ⟨table, htable, h⟩ := bind_eq_ok h
    have hfits := u32s_inv hcount
    simp only [List.forall_mem_cons] at hfits
    rw [hcountOk (by have := hfits.2.1.2; omega), Except.ok.injEq] at hcount
    obtain ⟨hcodes, hranges, rfl⟩ := (hrows table).mp htable
    subst hcount
    simp only [pure_eq_ok, Except.ok.injEq] at h
    exact ⟨⟨(hcodes hne').1, (hcodes hne').2, hranges⟩, h.symm.trans himage⟩
  · rintro ⟨hfields, rfl⟩
    have hcount := hfields.count hne hp
    rw [hcountOk (by omega), ok_bind,
      (hrows _).mpr ⟨fun _ => ⟨hfields.platform, hfields.subtype⟩, hfields.ranges, rfl⟩, ok_bind]
    exact congrArg Except.ok himage

/-! ## 4. It is a table of the trees

The image is read with the reader's own definitions, word by word. -/

theorem length_imageOf (hp : 0 < page) (table : List Row) (sections : List Bytes) :
    (imageOf page table sections).length =
      headerLen page table.length + (layout page sections).length := by
  have hle := le_headerLen hp table.length
  simp only [imageOf, List.length_append, length_front, length_zeros]
  omega

/-- The front of the image is written as it stands. -/
theorem slice_front (page : Nat) (table : List Row) (sections : List Bytes) {i j : Nat}
    (h : j ≤ 12 + 32 * table.length) :
    slice (imageOf page table sections) i j = slice (front table) i j := by
  rw [imageOf, List.append_assoc, slice_append_left (by rw [length_front]; exact h)]

/-- A row is read as it was written. -/
theorem rowAt_imageOf (hp : 0 < page) {table : List Row} (sections : List Bytes)
    (hfits : ∀ r ∈ table, ∀ n ∈ r.words, n < 2 ^ 32) {i : Nat} (hi : i < table.length) :
    rowAt (imageOf page table sections) i = table[i]? := by
  have hlen := length_imageOf hp table sections
  have hle := le_headerLen hp table.length
  have hword : ∀ j n, table[i].words[j]? = some n →
      unpackLe 4 (imageOf page table sections) (12 + 32 * i + 4 * j) = some n := by
    intro j n hn
    obtain ⟨hj, hn'⟩ := List.getElem?_eq_some_iff.mp hn
    have hj8 : j < 8 := hj
    have hrow : slice (front table) (12 + 32 * i) (12 + 32 * i + 32) = table[i].bytes := by
      have := slice_blocks Row.length_bytes (DTBH ++ [2, table.length].flatMap (leBytes 4)) table
        [] hi
      rwa [List.append_nil] at this
    have hcell := slice_row 4 [] table[i].words [] hj
    rw [List.nil_append, List.append_nil, List.length_nil, Nat.zero_add] at hcell
    refine unpackLe_eq (by omega) ?_ (hfits _ (List.getElem_mem hi) n (hn' ▸ List.getElem_mem hj))
    have hin := slice_slice (b := front table) (i := 12 + 32 * i) (j := 12 + 32 * i + 32)
      (k := 4 * j) (l := 4 * j + 4) (by omega)
    rw [slice_front _ _ _ (by omega), Nat.add_assoc _ (4 * j), ← hin, hrow, ← hn']
    exact hcell
  have h0 := hword 0 _ rfl
  have h1 := hword 1 _ rfl
  have h2 := hword 2 _ rfl
  have h3 := hword 3 _ rfl
  have h4 := hword 4 _ rfl
  have h5 := hword 5 _ rfl
  have h6 := hword 6 _ rfl
  have h7 := hword 7 _ rfl
  simp only [Nat.mul_zero, Nat.add_zero] at h0
  rw [List.getElem?_eq_getElem hi, rowAt, h0, h1, h2, h3, h4, h5, h6, h7]
  rfl

/-- What a row says of its tree is so. -/
theorem rowFor_tableOf (hp : 0 < page) (hplatform : Fits platform) (hsubtype : Fits subtype)
    {image : Bytes} {offset : Nat} (hoffset : page ∣ offset) (hall : List.Forall₂ EntryOf dtbs es)
    (hplaces : List.Forall₂ (fun s r => slice image r.1 (r.1 + r.2) = pad page s)
      (dtbs.map Prod.snd) (places page offset (dtbs.map Prod.snd))) :
    List.Forall₂ (RowFor page platform subtype image) dtbs
      (tableOf page platform subtype offset es) := by
  induction hall generalizing offset with
  | nil => exact .nil
  | @cons d e dtbs es he hall ih =>
    obtain ⟨hblob, hrest⟩ := List.forall₂_cons.mp hplaces
    refine .cons ?_ ?_
    · have hb := he.blob
      have hread : EntryOf d ⟨e.chip, e.rev, e.revEnd, d.2⟩ := ⟨rfl, he.cells⟩
      exact
        { cells := hread
          carried := fun chip rev revEnd hcarried => by
            have heq := hread.unique hcarried.entryOf
            simp only [Entry.mk.injEq, and_true] at heq
            exact heq
          platform := Int.toNat_of_nonneg hplatform.1
          subtype := Int.toNat_of_nonneg hsubtype.1
          flags := rfl
          aligned := ⟨hoffset, dvd_roundUp page _⟩
          blob := by
            simp only [rowOf, hb]
            exact ⟨le_roundUp hp _, hblob.trans (pad_eq_zeros hp _)⟩ }
    · rw [he.blob]
      exact ih (Nat.dvd_add hoffset (dvd_roundUp page _)) hrest

theorem range_tableOf (offset : Nat) : (tableOf page platform subtype offset es).map Row.range =
    places page offset (es.map Entry.blob) := by
  induction es generalizing offset with
  | nil => rfl
  | cons e es ih => exact congrArg _ (ih _)

/-- Every word of the table has 32 bits. -/
theorem words_lt (hes : ∀ e ∈ es, e.chip < 2 ^ 32 ∧ e.rev < 2 ^ 32 ∧ e.revEnd < 2 ^ 32)
    (hplatform : Fits platform) (hsubtype : Fits subtype) {offset : Nat}
    (hranges : ∀ r ∈ places page offset (es.map Entry.blob), r.1 < 2 ^ 32 ∧ r.2 < 2 ^ 32) :
    ∀ r ∈ tableOf page platform subtype offset es, ∀ n ∈ r.words, n < 2 ^ 32 := by
  obtain ⟨hp0, hp1⟩ := hplatform
  obtain ⟨hs0, hs1⟩ := hsubtype
  induction es generalizing offset with
  | nil => simp [tableOf, places]
  | cons e es ih =>
    obtain ⟨he, hes⟩ := List.forall_mem_cons.mp hes
    obtain ⟨hr, hranges⟩ := List.forall_mem_cons.mp hranges
    refine List.forall_mem_cons.mpr ⟨?_, ih hes hranges⟩
    simp only [Row.words, rowOf, List.forall_mem_cons, List.not_mem_nil, false_implies,
      implies_true, and_true]
    exact ⟨he.1, by omega, by omega, he.2.1, he.2.2, hr.1, hr.2, by omega⟩

/-- **The image is a table of the trees.** -/
theorem table_imageOf (hne : dtbs ≠ []) (hp : 0 < page) (hall : List.Forall₂ EntryOf dtbs es)
    (hfields : InFields page platform subtype dtbs) :
    Table page platform subtype dtbs
      (imageOf page (tableOf page platform subtype (headerLen page dtbs.length) es)
        (dtbs.map Prod.snd))
      (tableOf page platform subtype (headerLen page dtbs.length) es) := by
  have hlen : (tableOf page platform subtype (headerLen page dtbs.length) es).length =
      dtbs.length := by rw [length_tableOf, hall.length_eq]
  have hle := le_headerLen hp dtbs.length
  have hsize := length_imageOf hp (tableOf page platform subtype (headerLen page dtbs.length) es)
    (dtbs.map Prod.snd)
  have hcount := hfields.count hne hp
  have hwords := words_lt (cells_lt hall) hfields.platform hfields.subtype
    (by rw [blobs_of hall]; exact hfields.ranges)
  have hranges : (tableOf page platform subtype (headerLen page dtbs.length) es).map Row.range =
      places page (headerLen page dtbs.length) (dtbs.map Prod.snd) := by
    rw [range_tableOf, blobs_of hall]
  generalize htable : tableOf page platform subtype (headerLen page dtbs.length) es = table at *
  rw [hlen] at hsize
  have hheader : (front table ++ zeros (headerLen page table.length - (front table).length)).length
      = headerLen page dtbs.length := by
    rw [List.length_append, length_front, length_zeros, hlen]
    omega
  have hcontiguous := contiguous_places hp (headerLen page dtbs.length) (dtbs.map Prod.snd)
  rw [← hranges, ← hsize] at hcontiguous
  have hplaces := slice_places hp (front table ++ zeros (headerLen page table.length -
    (front table).length)) (dtbs.map Prod.snd) []
  rw [hheader, List.append_nil] at hplaces
  have hfront : ∀ i n, [2, table.length][i]? = some n → n < 2 ^ 32 →
      unpackLe 4 (imageOf page table (dtbs.map Prod.snd)) (4 + 4 * i) = some n := by
    intro i n hn hn32
    obtain ⟨hi, rfl⟩ := List.getElem?_eq_some_iff.mp hn
    have hi2 : i < 2 := hi
    refine unpackLe_eq (by omega) ?_ hn32
    rw [slice_front _ _ _ (by omega)]
    exact slice_row 4 DTBH _ _ hi
  exact
    { magic := by
        rw [slice_front _ _ _ (by omega)]
        rfl
      version := hfront 0 2 rfl (by omega)
      count := by
        rw [← hlen]
        exact hfront 1 _ rfl (by omega)
      read := fun i hi => rowAt_imageOf hp _ hwords (by omega)
      rows := by
        rw [← htable] at hplaces ⊢
        exact rowFor_tableOf hp hfields.platform hfields.subtype (dvd_roundUp page _) hall hplaces
      contiguous := hcontiguous
      disjoint := hcontiguous.disjoint
      stop := by
        refine ⟨unpackLe_eq (by omega) ?_ (by omega), hle⟩
        rw [imageOf, slice_append_left (by omega),
          slice_append_right (by rw [length_front]; omega), length_front, hlen,
          slice_zeros (by omega)]
        rw [Nat.sub_self, Nat.add_sub_cancel_left]
        rfl }

/-- **The trees of a table are found where its rows say.** -/
theorem dtbh_table (page : Nat) (platform subtype : Int) (dtbs : List (String × Bytes))
    (hne : dtbs ≠ []) (hpage : page ∈ PAGE_SIZES) (h : ∀ d ∈ dtbs, Usable d) :
    ((∃ image, dtbh dtbs page platform subtype = .ok image) ↔
      InFields page platform subtype dtbs) ∧
    ∀ image, dtbh dtbs page platform subtype = .ok image →
      ∃ table, Table page platform subtype dtbs image table := by
  have hp : 0 < page := (show ∀ page ∈ PAGE_SIZES, 0 < page by decide) page hpage
  obtain ⟨es, hes, hall⟩ := entriesOf_ok h
  have hwritten : ∀ image, dtbh dtbs page platform subtype = .ok image ↔ _ :=
    dtbh_eq_iff hne hp hes hall
  refine ⟨⟨?_, fun hfields => ⟨_, (hwritten _).mpr ⟨hfields, rfl⟩⟩⟩, fun image himage => ?_⟩
  · rintro ⟨image, himage⟩
    exact ((hwritten image).mp himage).1
  · obtain ⟨hfields, rfl⟩ := (hwritten image).mp himage
    exact ⟨_, table_imageOf hne hp hall hfields⟩

end Image

/-- The small tree of `S9p.Boot.Pipeline` twice. -/
def starPair : List (String × Bytes) := [("a.dtb", starTree), ("b.dtb", starTree)]

theorem carried_starTree : Carried starTree 0x2652 0 255 :=
  ⟨_, fdt_starTree,
    carries_single (by decide) (by simp [starProps]) (by simp [starProps]),
    carries_single (by decide) (by simp [starProps]) (by simp [starProps]),
    carries_single (by decide) (by simp [starProps]) (by simp [starProps])⟩

theorem usable_starPair : ∀ d ∈ starPair, Usable d := by
  intro d hd
  simp only [starPair, List.mem_cons, List.not_mem_nil, or_false] at hd
  rcases hd with rfl | rfl
  · exact carried_starTree.usable
  · exact carried_starTree.usable

theorem dtbh_table_star : ∃ image table, dtbh starPair 2048 0x50A6 0x217584DA = .ok image ∧
    Table 2048 0x50A6 0x217584DA starPair image table := by
  have hfields : InFields 2048 0x50A6 0x217584DA starPair :=
    ⟨⟨by decide, by decide⟩, ⟨by decide, by decide⟩, by decide +kernel⟩
  obtain ⟨hwritten, htable⟩ := dtbh_table 2048 0x50A6 0x217584DA starPair (by simp [starPair])
    (by decide) usable_starPair
  obtain ⟨image, himage⟩ := hwritten.mpr hfields
  obtain ⟨table, htable⟩ := htable image himage
  exact ⟨image, table, himage, htable⟩

end S9p.Boot
