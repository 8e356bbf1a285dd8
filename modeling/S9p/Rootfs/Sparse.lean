/-
# The sparse image of the root filesystem

`sparse_image` looks at an image in blocks of 4096 bytes, twice.  The first pass notes the runs of
zero blocks and of others; the second writes a chunk for each run, copying the others.

* `scan_runs`: the runs noted are the runs there are, each as long as it can be.
* `sparse_iff`: the second pass writes all of them, and the image expands to what it was made
  from, exactly where no run of nonzero blocks is longer than a chunk can be: 2^20 - 1 blocks, a
  little less than 4 GiB.  With one block more the size of the chunk has no 32-bit field to go to.
-/
import S9p.Boot.Image
import S9p.Lib.Runs

namespace S9p.Rootfs

open Bytes S9p.Boot Run

/-! ## 1. `sparse_image`

Both passes read the file in blocks.  The first one keeps a run in its variables until the kind
changes, and notes it then. -/

def BS : Nat := 4096

def ZERO : Bytes := zeros BS

/-- `Z` for zeros, `R` for a raw block. -/
inductive Kind where
  | Z
  | R
  deriving DecidableEq

/-- What `f.read(BS)` returns the `i`th time. -/
def blockAt (raw : Bytes) (i : Nat) : Bytes := slice raw (i * BS) (i * BS + BS)

def kindOf (block : Bytes) : Kind := if block = ZERO then .Z else .R

/-- A chunk as it is noted; `None` is a kind as well. -/
abbrev Chunk := Run (Option Kind)

/-- The variables of the first pass. -/
structure Scan where
  chunks : List Chunk := []
  kind : Option Kind := none
  start : Nat := 0
  n : Nat := 0

/-- The run under way. -/
def Scan.chunk (s : Scan) : Chunk := ⟨s.kind, s.n, s.start⟩

/-- One round of the first pass. -/
def scanStep (raw : Bytes) (s : Scan) (i : Nat) : Scan :=
  let k := kindOf (blockAt raw i)
  let s := if some k ≠ s.kind then
      { chunks := if s.kind.isSome then s.chunks ++ [s.chunk] else s.chunks
        kind := some k, start := i, n := 0 }
    else s
  { s with n := s.n + 1 }

/-- The first pass. -/
def scan (raw : Bytes) : List Chunk :=
  let s := (List.range (raw.length / BS)).foldl (scanStep raw) {}
  s.chunks ++ [s.chunk]

/-- The loop that copies a run: `left` bytes, at most 8 MiB in a round. -/
def copy (raw : Bytes) : Nat → Nat → Nat → Py Bytes
  | _, _, 0 => return []
  | 0, _, _ + 1 => throw .struct
  | fuel + 1, pos, left + 1 => do
    let buf := slice raw pos (pos + min (left + 1) (8 <<< 20))
    let rest ← copy raw fuel (pos + buf.length) (left + 1 - buf.length)
    return buf ++ rest

/-- One chunk of the second pass. -/
def writeChunk (raw : Bytes) (c : Chunk) : Py Bytes :=
  if c.kind = some .R then do
    let sizes ← u32s [c.len, (12 + c.len * BS : Nat)]
    let data ← copy raw (c.len * BS) (c.start * BS) (c.len * BS)
    return leBytes 2 0xCAC1 ++ leBytes 2 0 ++ sizes ++ data
  else do
    let sizes ← u32s [c.len, 16]
    let fill ← u32 0
    return leBytes 2 0xCAC2 ++ leBytes 2 0 ++ sizes ++ fill

/-- A size that fits no field ends it. -/
def writeChunks (raw : Bytes) : List Chunk → Py Bytes
  | [] => return []
  | c :: cs => do
    let chunk ← writeChunk raw c
    let rest ← writeChunks raw cs
    return chunk ++ rest

/-- `struct.pack('<IHHHHIIII', ...)`. -/
def header (total chunks : Nat) : Py Bytes := do
  let magic ← u32 0xed26ff3a
  let counts ← u32s [BS, total, chunks, 0]
  return magic ++ leBytes 2 1 ++ leBytes 2 0 ++ leBytes 2 28 ++ leBytes 2 12 ++ counts

/-- `sparse_image`. -/
def sparseImage (raw : Bytes) : Py Bytes :=
  if raw.length % BS ≠ 0 then throw (.assertion "image size is not a multiple of 4096")
  else do
    let chunks := scan raw
    let head ← header (raw.length / BS) chunks.length
    let body ← writeChunks raw chunks
    return head ++ body

/-! ## 2. What a sparse image is

`expand` is a reader of the format, written from its rules.  It takes nothing from the writer but
the bytes. -/

/-- What a chunk stands for, and the rest. -/
def expandChunk (bs : Nat) (b : Bytes) : Option (Bytes × Bytes) := do
  let type ← unpackLe 2 b 0
  let blocks ← unpackLe 4 b 4
  let size ← unpackLe 4 b 8
  if type = 0xCAC1 ∧ size = 12 + blocks * bs ∧ size ≤ b.length then
    return (slice b 12 size, b.drop size)
  else if type = 0xCAC2 ∧ size = 16 ∧ size ≤ b.length then
    return ((List.replicate (blocks * bs / 4) (slice b 12 16)).flatten, b.drop size)
  else none

/-- As many chunks as the header says, and nothing behind them. -/
def expandChunks (bs : Nat) : Nat → Bytes → Option Bytes
  | 0, b => if b = [] then some [] else none
  | n + 1, b => do
    let (data, rest) ← expandChunk bs b
    let more ← expandChunks bs n rest
    return data ++ more

/-- The rules of the format, version 1.0: raw chunks are copied, fill chunks are filled. -/
def expand (b : Bytes) : Option Bytes := do
  let magic ← unpackLe 4 b 0
  let major ← unpackLe 2 b 4
  let fileHeader ← unpackLe 2 b 8
  let chunkHeader ← unpackLe 2 b 10
  let bs ← unpackLe 4 b 12
  let total ← unpackLe 4 b 16
  let chunks ← unpackLe 4 b 20
  if magic = 0xed26ff3a ∧ major = 1 ∧ fileHeader = 28 ∧ chunkHeader = 12 then
    let raw ← expandChunks bs chunks (b.drop 28)
    if raw.length = total * bs then return raw else none
  else none

/-- A chunk as it is written. -/
structure Piece where
  type : Nat
  blocks : Nat
  size : Nat
  body : Bytes

def Piece.bytes (p : Piece) : Bytes :=
  leBytes 2 p.type ++ leBytes 2 0 ++ leBytes 4 p.blocks ++ leBytes 4 p.size ++ p.body

/-- A header as it is written. -/
def headerBytes (total chunks : Nat) : Bytes :=
  leBytes 4 0xed26ff3a ++ (leBytes 2 1 ++ leBytes 2 0 ++ leBytes 2 28 ++ leBytes 2 12) ++
    [BS, total, chunks, 0].flatMap (leBytes 4)

/-- `out` is a sparse image of `raw`, and its numbers are right. -/
structure SparseOf (raw out : Bytes) : Prop where
  expands : expand out = some raw
  pieces : ∃ pieces : List Piece,
    out = headerBytes (pieces.map Piece.blocks).sum pieces.length ++ pieces.flatMap Piece.bytes ∧
    (pieces.map Piece.blocks).sum < 2 ^ 32 ∧ pieces.length < 2 ^ 32 ∧
    ∀ p ∈ pieces, p.size = p.bytes.length ∧ p.size < 2 ^ 32

/-! ## 3. The first pass

The state of the loop is the list of runs so far, with the last one still open. -/

section First

variable {raw : Bytes} {s : Scan} {i : Nat}

/-- The kind of a block. -/
def keyAt (raw : Bytes) (i : Nat) : Option Kind := some (kindOf (blockAt raw i))

/-- **One round** makes the runs of one more block of the runs so far. -/
theorem scanStep_runs (h : Runs (keyAt raw) i 0 (s.chunks ++ [s.chunk])) (hsome : s.kind.isSome) :
    Runs (keyAt raw) (i + 1) 0 ((scanStep raw s i).chunks ++ [(scanStep raw s i).chunk]) ∧
      (scanStep raw s i).kind.isSome := by
  by_cases hkey : keyAt raw i = s.kind
  · have hstep : scanStep raw s i = { s with n := s.n + 1 } := by
      rw [scanStep, if_neg (by simpa [keyAt] using hkey)]
    rw [hstep]
    exact ⟨h.extend hkey, hsome⟩
  · have hstep : scanStep raw s i =
        { chunks := s.chunks ++ [s.chunk], kind := keyAt raw i, start := i, n := 1 } := by
      rw [scanStep, if_pos (by simpa [keyAt] using hkey), if_pos hsome]
      rfl
    rw [hstep]
    exact ⟨h.begin hkey, rfl⟩

/-- **The runs noted are the runs there are.** -/
theorem scan_runs (hpos : 0 < raw.length / BS) :
    Runs (keyAt raw) (raw.length / BS) 0 (scan raw) := by
  have hrounds : ∀ n, let s := (List.range (n + 1)).foldl (scanStep raw) {}
      Runs (keyAt raw) (n + 1) 0 (s.chunks ++ [s.chunk]) ∧ s.kind.isSome := by
    intro n
    induction n with
    | zero => exact ⟨runs_one (keyAt raw), rfl⟩
    | succ n ih =>
      rw [List.range_succ, List.foldl_concat]
      exact scanStep_runs ih.1 ih.2
  obtain ⟨n, hn⟩ := Nat.exists_eq_succ_of_ne_zero (by omega : raw.length / BS ≠ 0)
  rw [scan, hn]
  exact (hrounds n).1

end First

/-! ## 4. The second pass

A run of zeros has a chunk without a body.  Its number of blocks has 32 bits, which the number of
blocks in the header has as well. -/

section Second

variable {raw : Bytes} {c : Chunk} {cs : List Chunk} {total i : Nat}

/-- The bytes of a run. -/
def dataOf (raw : Bytes) (c : Chunk) : Bytes := slice raw (c.start * BS) ((c.start + c.len) * BS)

/-- The chunk that is written for a run. -/
def pieceOf (raw : Bytes) (c : Chunk) : Piece :=
  if c.kind = some .R then ⟨0xCAC1, c.len, 12 + c.len * BS, dataOf raw c⟩
  else ⟨0xCAC2, c.len, 16, leBytes 4 0⟩

/-- The run is inside the image, and its length has a field. -/
structure Inside (raw : Bytes) (c : Chunk) : Prop where
  stop : (c.start + c.len) * BS ≤ raw.length
  len : c.len < 2 ^ 32

theorem Inside.length_dataOf (h : Inside raw c) : (dataOf raw c).length = c.len * BS := by
  rw [dataOf, length_slice h.stop, Nat.add_mul, Nat.add_sub_cancel_left]

/-- **The loop copies the whole run.** -/
theorem copy_eq {fuel pos left : Nat} (hfuel : left ≤ fuel) (h : pos + left ≤ raw.length) :
    copy raw fuel pos left = .ok (slice raw pos (pos + left)) := by
  induction fuel generalizing pos left with
  | zero =>
    obtain rfl : left = 0 := by omega
    simp [copy, slice]
  | succ fuel ih =>
    cases left with
    | zero => simp [copy, slice]
    | succ left =>
      have hbuf : (slice raw pos (pos + min (left + 1) (8 <<< 20))).length =
          min (left + 1) (8 <<< 20) := by
        rw [length_slice (by omega), Nat.add_sub_cancel_left]
      have hsome : 0 < min (left + 1) (8 <<< 20) := by simp
      rw [copy]
      simp only [hbuf]
      rw [ih (by omega) (by omega), ok_bind, pure_eq_ok, slice_append_slice _ (by omega) (by omega)]
      congr 2
      omega

/-- A chunk is written where its size has a field. -/
theorem writeChunk_iff (h : Inside raw c) (b : Bytes) : writeChunk raw c = .ok b ↔
    (c.kind = some .R → c.len < 2 ^ 20) ∧ b = (pieceOf raw c).bytes := by
  have hlen := h.len
  have hstop := h.stop
  unfold writeChunk pieceOf
  by_cases hkind : c.kind = some .R
  · rw [if_pos hkind, if_pos hkind]
    obtain ⟨size, hsize⟩ : ∃ size, 12 + c.len * BS = size := ⟨_, rfl⟩
    have hsize' : 12 + c.len * 4096 = size := hsize
    rw [hsize]
    have hcopy : copy raw (c.len * BS) (c.start * BS) (c.len * BS) = .ok (dataOf raw c) := by
      rw [copy_eq le_rfl (by rw [← Nat.add_mul]; exact hstop), ← Nat.add_mul]
      rfl
    constructor
    · intro hw
      obtain ⟨sizes, hsizes, hw⟩ := bind_eq_ok hw
      have hfits := u32s_inv hsizes
      simp only [List.forall_mem_cons] at hfits
      have hfit := hfits.2.1.2
      rw [u32s_ok (u32s_inv hsizes), Except.ok.injEq] at hsizes
      rw [hcopy, ok_bind, pure_eq_ok, Except.ok.injEq] at hw
      refine ⟨fun _ => by omega, ?_⟩
      rw [← hw, ← hsizes]
      simp [Piece.bytes]
    · rintro ⟨hshort, rfl⟩
      have hshort := hshort hkind
      have hsizes := u32s_ok (l := [(c.len : Int), (size : Int)]) (by
        simp only [List.forall_mem_cons, List.not_mem_nil, false_implies, implies_true, and_true]
        unfold Fits
        omega)
      rw [hsizes, ok_bind, hcopy, ok_bind]
      simp [Piece.bytes]
  · rw [if_neg hkind, if_neg hkind]
    have hsizes := u32s_ok (l := [(c.len : Int), 16]) (by
      simp only [List.forall_mem_cons, List.not_mem_nil, false_implies, implies_true, and_true]
      unfold Fits
      omega)
    have hzero : u32 0 = .ok (leBytes 4 0) := u32_ok (n := 0) (by omega)
    rw [hsizes, ok_bind, hzero, ok_bind]
    simp [Piece.bytes, hkind, eq_comm]

theorem writeChunks_iff (h : ∀ c ∈ cs, Inside raw c) (b : Bytes) : writeChunks raw cs = .ok b ↔
    (∀ c ∈ cs, c.kind = some .R → c.len < 2 ^ 20) ∧
      b = cs.flatMap (fun c => (pieceOf raw c).bytes) := by
  induction cs generalizing b with
  | nil => simp [writeChunks, eq_comm]
  | cons c cs ih =>
    obtain ⟨hc, hcs⟩ := List.forall_mem_cons.mp h
    rw [List.forall_mem_cons, List.flatMap_cons, writeChunks]
    constructor
    · intro hw
      obtain ⟨chunk, hchunk, hw⟩ := bind_eq_ok hw
      obtain ⟨rest, hrest, hw⟩ := bind_eq_ok hw
      obtain ⟨hshort, rfl⟩ := (writeChunk_iff hc chunk).mp hchunk
      obtain ⟨hshorts, rfl⟩ := (ih hcs rest).mp hrest
      exact ⟨⟨hshort, hshorts⟩, (Except.ok.inj hw).symm⟩
    · rintro ⟨⟨hshort, hshorts⟩, rfl⟩
      rw [(writeChunk_iff hc _).mpr ⟨hshort, rfl⟩, ok_bind, (ih hcs _).mpr ⟨hshorts, rfl⟩, ok_bind]
      rfl

end Second

/-! ## 5. The image expands to what it was made from

Reading follows writing, chunk by chunk, and the bytes that have been read are those of the blocks.
-/

section Expand

variable {raw : Bytes} {c : Chunk} {cs : List Chunk} {total i : Nat}

theorem Piece.length_bytes (p : Piece) : p.bytes.length = 12 + p.body.length := by
  simp [Piece.bytes]
  omega

/-- The three numbers of a chunk are read as they were written. -/
theorem Piece.fields (p : Piece) (rest : Bytes) (htype : p.type < 2 ^ 16)
    (hblocks : p.blocks < 2 ^ 32) (hsize : p.size < 2 ^ 32) :
      unpackLe 2 (p.bytes ++ rest) 0 = some p.type ∧
      unpackLe 4 (p.bytes ++ rest) 4 = some p.blocks ∧
      unpackLe 4 (p.bytes ++ rest) 8 = some p.size := by
  have hlen := p.length_bytes
  have h0 := slice_middle [] (leBytes 2 p.type)
    (leBytes 2 0 ++ leBytes 4 p.blocks ++ leBytes 4 p.size ++ p.body ++ rest)
  have h4 := slice_middle (leBytes 2 p.type ++ leBytes 2 0) (leBytes 4 p.blocks)
    (leBytes 4 p.size ++ p.body ++ rest)
  have h8 := slice_middle (leBytes 2 p.type ++ leBytes 2 0 ++ leBytes 4 p.blocks)
    (leBytes 4 p.size) (p.body ++ rest)
  simp only [List.length_append, length_leBytes, List.length_nil, List.append_assoc,
    List.nil_append] at h0 h4 h8
  refine ⟨unpackLe_eq ?_ ?_ htype, unpackLe_eq ?_ ?_ hblocks, unpackLe_eq ?_ ?_ hsize⟩
  · rw [List.length_append]
    omega
  · simpa [Piece.bytes] using h0
  · rw [List.length_append]
    omega
  · simpa [Piece.bytes] using h4
  · rw [List.length_append]
    omega
  · simpa [Piece.bytes] using h8

/-- Behind them stands the body. -/
theorem Piece.body_slice (p : Piece) (rest : Bytes) (h : p.size = p.bytes.length) :
    slice (p.bytes ++ rest) 12 p.size = p.body ∧ (p.bytes ++ rest).drop p.size = rest := by
  have hlen := p.length_bytes
  have hbody := slice_middle (leBytes 2 p.type ++ leBytes 2 0 ++ leBytes 4 p.blocks ++
    leBytes 4 p.size) p.body rest
  simp only [List.length_append, length_leBytes] at hbody
  constructor
  · rw [h, hlen]
    exact hbody
  · rw [h, List.drop_left]

/-- The size of a chunk is its length. -/
theorem Inside.size_pieceOf (h : Inside raw c) :
    (pieceOf raw c).size = (pieceOf raw c).bytes.length := by
  rw [Piece.length_bytes]
  unfold pieceOf
  split
  · rw [h.length_dataOf]
  · rfl

theorem size_pieceOf_lt (hshort : c.kind = some .R → c.len < 2 ^ 20) :
    (pieceOf raw c).size < 2 ^ 32 := by
  unfold pieceOf
  split
  · rename_i hkind
    have := hshort hkind
    simp only [BS]
    omega
  · exact (by decide : 16 < 2 ^ 32)

/-- Blocks of zeros are zeros. -/
theorem zero_blocks {start len : Nat}
    (h : ∀ i, start ≤ i → i < start + len → blockAt raw i = ZERO) :
    slice raw (start * BS) ((start + len) * BS) = zeros (len * BS) := by
  induction len with
  | zero => simp [slice, zeros]
  | succ len ih =>
    have hlast : slice raw ((start + len) * BS) ((start + len + 1) * BS) = zeros BS := by
      have := h (start + len) (by omega) (by omega)
      rwa [blockAt, ← Nat.succ_mul] at this
    rw [← Nat.add_assoc, ← slice_append_slice raw (Nat.mul_le_mul_right BS (Nat.le_add_right _ len))
      (Nat.mul_le_mul_right BS (Nat.le_succ _)), ih (fun i hi hi' => h i hi (by omega)), hlast,
      zeros, zeros, List.replicate_append_replicate, zeros, Nat.succ_mul]

/-- A run that is not copied is zero. -/
theorem dataOf_zero (hmax : c.Maximal (keyAt raw) total) (hkind : c.kind ≠ some .R) :
    dataOf raw c = zeros (c.len * BS) := by
  refine zero_blocks (fun i hi hi' => ?_)
  have hkey := hmax.same i hi hi'
  by_contra hne
  rw [← hkey, keyAt, kindOf, if_neg hne] at hkind
  exact hkind rfl

/-- **A chunk expands to its run.** -/
theorem expandChunk_eq (hmax : c.Maximal (keyAt raw) total) (h : Inside raw c)
    (hshort : c.kind = some .R → c.len < 2 ^ 20) (rest : Bytes) :
    expandChunk BS ((pieceOf raw c).bytes ++ rest) = some (dataOf raw c, rest) := by
  have hsize := h.size_pieceOf
  have hblocks : (pieceOf raw c).blocks = c.len := by
    unfold pieceOf
    split <;> rfl
  have htype : (pieceOf raw c).type < 2 ^ 16 := by
    unfold pieceOf
    split
    · exact (by decide : 0xCAC1 < 2 ^ 16)
    · exact (by decide : 0xCAC2 < 2 ^ 16)
  obtain ⟨h0, h4, h8⟩ :=
    (pieceOf raw c).fields rest htype (hblocks ▸ h.len) (size_pieceOf_lt hshort)
  obtain ⟨hbody, hrest⟩ := (pieceOf raw c).body_slice rest hsize
  have hle : (pieceOf raw c).size ≤ ((pieceOf raw c).bytes ++ rest).length := by
    rw [List.length_append]
    omega
  rw [expandChunk, h0, h4, h8]
  simp only [Option.bind_eq_bind, Option.bind_some]
  rw [hbody, hrest, hblocks]
  by_cases hkind : c.kind = some .R
  · have hp : pieceOf raw c = ⟨0xCAC1, c.len, 12 + c.len * BS, dataOf raw c⟩ := if_pos hkind
    rw [if_pos ⟨by rw [hp], by rw [hp], hle⟩, hp]
    rfl
  · have hp : pieceOf raw c = ⟨0xCAC2, c.len, 16, leBytes 4 0⟩ := if_neg hkind
    have hfill : slice ((pieceOf raw c).bytes ++ rest) 12 16 = leBytes 4 0 := by
      rw [hp] at hbody ⊢
      exact hbody
    have hfull : (List.replicate (c.len * BS / 4) (leBytes 4 0)).flatten = zeros (c.len * BS) := by
      have hfour : leBytes 4 0 = List.replicate 4 0 := rfl
      have hwhole : c.len * BS / 4 * 4 = c.len * BS := by
        unfold BS
        omega
      rw [hfour, List.flatten_replicate_replicate, hwhole, zeros]
    rw [if_neg (by rw [hp]; simp), if_pos ⟨by rw [hp], by rw [hp], hle⟩, hfill, hfull,
      dataOf_zero hmax hkind]
    rfl

/-- **The chunks expand to the blocks**, run after run. -/
theorem expandChunks_eq (hruns : Runs (keyAt raw) total i cs) (h : ∀ c ∈ cs, Inside raw c)
    (hshort : ∀ c ∈ cs, c.kind = some .R → c.len < 2 ^ 20) :
    expandChunks BS cs.length (cs.flatMap (fun c => (pieceOf raw c).bytes)) =
      some (slice raw (i * BS) (total * BS)) := by
  induction cs generalizing i with
  | nil =>
    have hend : i = total := hruns
    simp [expandChunks, hend, slice]
  | cons c cs ih =>
    obtain ⟨hstart, hmax, hrest⟩ := hruns
    obtain ⟨hc, hcs⟩ := List.forall_mem_cons.mp h
    obtain ⟨hs, hss⟩ := List.forall_mem_cons.mp hshort
    have hle := hrest.le
    have hmore := ih hrest hcs hss
    rw [List.length_cons, List.flatMap_cons, expandChunks, expandChunk_eq hmax hc hs]
    simp only [Option.bind_eq_bind, Option.bind_some, hmore]
    rw [dataOf, hstart, slice_append_slice raw (Nat.mul_le_mul_right BS (Nat.le_add_right _ _))
      (Nat.mul_le_mul_right BS hle)]
    rfl

/-- The header is read as it was written. -/
theorem expand_header {chunks : Nat} (body : Bytes) (htotal : total < 2 ^ 32)
    (hchunks : chunks < 2 ^ 32) : expand (headerBytes total chunks ++ body) =
      (expandChunks BS chunks body).bind (fun raw =>
        if raw.length = total * BS then some raw else none) := by
  have hlen : (headerBytes total chunks).length = 28 := by simp [headerBytes]
  have hfront : ∀ k i n, i + k ≤ 12 → n < 256 ^ k →
      slice (leBytes 4 0xed26ff3a ++ (leBytes 2 1 ++ leBytes 2 0 ++ leBytes 2 28 ++ leBytes 2 12))
        i (i + k) = leBytes k n →
      unpackLe k (headerBytes total chunks ++ body) i = some n := by
    intro k i n hi hn hat
    refine unpackLe_eq (by rw [List.length_append]; omega) ?_ hn
    rw [headerBytes, List.append_assoc, slice_append_left (by simpa using hi), hat]
  have hrow : ∀ i n, [BS, total, chunks, 0][i]? = some n → n < 2 ^ 32 →
      unpackLe 4 (headerBytes total chunks ++ body) (12 + 4 * i) = some n := by
    intro i n hn hn32
    obtain ⟨hi, rfl⟩ := List.getElem?_eq_some_iff.mp hn
    have hi4 : i < 4 := hi
    refine unpackLe_eq (by rw [List.length_append]; omega) ?_ hn32
    exact slice_row 4 (leBytes 4 0xed26ff3a ++
      (leBytes 2 1 ++ leBytes 2 0 ++ leBytes 2 28 ++ leBytes 2 12)) [BS, total, chunks, 0] body hi
  have h0 := hfront 4 0 0xed26ff3a (by decide) (by decide) rfl
  have h4 := hfront 2 4 1 (by decide) (by decide) rfl
  have h8 := hfront 2 8 28 (by decide) (by decide) rfl
  have h10 := hfront 2 10 12 (by decide) (by decide) rfl
  have h12 := hrow 0 BS rfl (by decide)
  have h16 := hrow 1 total rfl htotal
  have h20 := hrow 2 chunks rfl hchunks
  have hrest : (headerBytes total chunks ++ body).drop 28 = body := by
    rw [← hlen, List.drop_left]
  rw [expand, h0, h4, h8, h10, h12, h16, h20]
  simp only [Option.bind_eq_bind, Option.bind_some, and_self, if_true]
  rw [hrest]
  rfl

end Expand

/-! ## 6. When there is an image

The only field that can overflow is the size of a raw chunk in bytes, and a window of 2^20 blocks
without a zero block says when. -/

/-- No 2^20 blocks that follow one another are all of them nonzero. -/
def ShortRuns (raw : Bytes) : Prop :=
  ∀ i, i + 2 ^ 20 ≤ raw.length / BS → ∃ j < 2 ^ 20, blockAt raw (i + j) = ZERO

section Image

variable {raw : Bytes}

theorem header_ok {total chunks : Nat} (htotal : total < 2 ^ 32) (hchunks : chunks < 2 ^ 32) :
    header total chunks = .ok (headerBytes total chunks) := by
  have hmagic : u32 0xed26ff3a = .ok (leBytes 4 0xed26ff3a) := u32_ok (n := 0xed26ff3a) (by decide)
  have hcounts := u32s_ok (l := [(BS : Int), (total : Int), (chunks : Int), 0]) (by
    simp only [List.forall_mem_cons, List.not_mem_nil, false_implies, implies_true, and_true]
    unfold Fits BS
    omega)
  rw [header, hmagic, ok_bind, hcounts, ok_bind]
  simp [headerBytes]

/-- The runs of the first pass lie in the image. -/
theorem scan_inside (hpos : 0 < raw.length / BS) (hblocks : raw.length / BS < 2 ^ 32) :
    ∀ c ∈ scan raw, Inside raw c := by
  intro c hc
  obtain ⟨-, -, hend⟩ := (scan_runs hpos).mem hc
  have hle := Nat.div_mul_le_self raw.length BS
  exact ⟨(Nat.mul_le_mul_right BS hend).trans hle, by omega⟩

/-- The image that is written, and when. -/
theorem sparseImage_eq_iff (hsize : raw.length % BS = 0) (hpos : 0 < raw.length)
    (hblocks : raw.length / BS < 2 ^ 32) (out : Bytes) : sparseImage raw = .ok out ↔
      (∀ c ∈ scan raw, c.kind = some .R → c.len < 2 ^ 20) ∧
        out = headerBytes (raw.length / BS) (scan raw).length ++
          (scan raw).flatMap (fun c => (pieceOf raw c).bytes) := by
  have hsome : 0 < raw.length / BS := by
    unfold BS at *
    omega
  have hcount := (scan_runs hsome).length_le
  have hwrite := writeChunks_iff (scan_inside hsome hblocks)
  rw [sparseImage, if_neg (by simpa using hsize)]
  simp only [header_ok hblocks (show (scan raw).length < 2 ^ 32 by omega), ok_bind]
  constructor
  · intro h
    obtain ⟨body, hbody, h⟩ := bind_eq_ok h
    obtain ⟨hshort, rfl⟩ := (hwrite body).mp hbody
    exact ⟨hshort, (Except.ok.inj h).symm⟩
  · rintro ⟨hshort, rfl⟩
    rw [(hwrite _).mpr ⟨hshort, rfl⟩, ok_bind]
    rfl

/-- **The chunks are short where the runs are.** -/
theorem short_iff (hpos : 0 < raw.length / BS) :
    (∀ c ∈ scan raw, c.kind = some .R → c.len < 2 ^ 20) ↔ ShortRuns raw := by
  have hruns := scan_runs hpos
  constructor
  · intro hshort i hi
    by_contra hnone
    have hkey : ∀ m, i ≤ m → m < i + 2 ^ 20 → keyAt raw m = some .R := by
      intro m hm hm'
      rw [keyAt, kindOf, if_neg]
      intro hzero
      exact hnone ⟨m - i, by omega, by rwa [Nat.add_sub_cancel' hm]⟩
    obtain ⟨c, hc, hkind, hlen⟩ := hruns.window (Nat.zero_le i) (by decide) hi hkey
    exact absurd (hshort c hc hkind) (by omega)
  · intro hshort c hc hkind
    by_contra hlong
    obtain ⟨hmax, -, hend⟩ := hruns.mem hc
    obtain ⟨j, hj, hzero⟩ := hshort c.start (by omega)
    have hkey := hmax.same (c.start + j) (by omega) (by omega)
    rw [keyAt, kindOf, if_pos hzero, hkind] at hkey
    exact absurd hkey (by decide)

/-- **An image is written, and it is right,** exactly where no run of nonzero blocks is longer than
a chunk can be. -/
theorem sparse_iff (raw : Bytes) (hsize : raw.length % BS = 0) (hpos : 0 < raw.length)
    (hblocks : raw.length / BS < 2 ^ 32) :
    (∃ out, sparseImage raw = .ok out ∧ SparseOf raw out) ↔ ShortRuns raw := by
  have hsome : 0 < raw.length / BS := by
    unfold BS at *
    omega
  rw [← short_iff hsome]
  constructor
  · rintro ⟨out, hout, -⟩
    exact ((sparseImage_eq_iff hsize hpos hblocks out).mp hout).1
  · intro hshort
    have hruns := scan_runs hsome
    have hinside := scan_inside hsome hblocks
    have hcount := hruns.length_le
    have hwhole : raw.length / BS * BS = raw.length :=
      Nat.div_mul_cancel (Nat.dvd_of_mod_eq_zero hsize)
    have hsum : ((scan raw).map (pieceOf raw)).map Piece.blocks = (scan raw).map Run.len := by
      rw [List.map_map]
      refine List.map_congr_left (fun c _ => ?_)
      simp only [Function.comp_apply, pieceOf]
      split <;> rfl
    refine ⟨_, (sparseImage_eq_iff hsize hpos hblocks _).mpr ⟨hshort, rfl⟩, ?_, ?_⟩
    · rw [expand_header _ hblocks (by omega), expandChunks_eq hruns hinside hshort, Nat.zero_mul,
        hwhole, slice_zero_length, Option.bind_some, if_pos rfl]
    · refine ⟨(scan raw).map (pieceOf raw), ?_, ?_, ?_, ?_⟩
      · rw [hsum, hruns.sum, Nat.sub_zero, List.length_map, List.flatMap_map]
      · rw [hsum, hruns.sum]
        omega
      · rw [List.length_map]
        omega
      · intro p hp
        obtain ⟨c, hc, rfl⟩ := List.mem_map.mp hp
        exact ⟨(hinside c hc).size_pieceOf, size_pieceOf_lt (hshort c hc)⟩

end Image

/-! ## 7. A long run

The run is given by its length alone, so that nothing of 4 GiB has to be evaluated. -/

/-- `n` blocks without a zero. -/
def nonzero (n : Nat) : Bytes := List.replicate (n * BS) 1

theorem length_nonzero (n : Nat) : (nonzero n).length = n * BS := List.length_replicate

theorem blockAt_nonzero {n i : Nat} (h : i < n) : blockAt (nonzero n) i ≠ ZERO := by
  intro hzero
  have hle : i * BS + BS ≤ n * BS := by
    rw [← Nat.succ_mul]
    exact Nat.mul_le_mul_right BS h
  have hfirst : (blockAt (nonzero n) i)[0]? = some 1 := by
    rw [blockAt, slice, nonzero, List.drop_replicate, List.take_replicate,
      List.getElem?_replicate, if_pos (by unfold BS at *; omega)]
  rw [hzero, ZERO, zeros, List.getElem?_replicate, if_pos (by decide)] at hfirst
  exact absurd hfirst (by decide)

theorem sparse_iff_small : ∃ out, sparseImage (nonzero 1 ++ ZERO) = .ok out ∧
    SparseOf (nonzero 1 ++ ZERO) out := by
  have hlen : (nonzero 1 ++ ZERO).length = 8192 := by
    rw [List.length_append, length_nonzero, ZERO, length_zeros, BS]
  refine (sparse_iff _ (by rw [hlen, BS]) (by omega) (by rw [hlen, BS]; decide)).mpr ?_
  intro i hi
  rw [hlen, BS] at hi
  omega

/-- **4 GiB without a zero block** are not written: the size of the chunk has no field. -/
theorem long_run_fails : (nonzero (2 ^ 20)).length % BS = 0 ∧ 0 < (nonzero (2 ^ 20)).length ∧
    (nonzero (2 ^ 20)).length / BS < 2 ^ 32 ∧
    ∀ out, sparseImage (nonzero (2 ^ 20)) ≠ .ok out := by
  have hlen := length_nonzero (2 ^ 20)
  have hdiv : (nonzero (2 ^ 20)).length / BS = 2 ^ 20 := by
    rw [hlen]
    exact Nat.mul_div_cancel _ (by decide)
  have hsize : (nonzero (2 ^ 20)).length % BS = 0 := by
    rw [hlen]
    exact Nat.mul_mod_left _ _
  have hpos : 0 < (nonzero (2 ^ 20)).length := by
    rw [hlen]
    decide
  refine ⟨hsize, hpos, by omega, fun out hout => ?_⟩
  have hshort := ((sparseImage_eq_iff hsize hpos (by omega) out).mp hout).1
  obtain ⟨j, hj, hzero⟩ := (short_iff (by omega)).mp hshort 0 (by omega)
  rw [Nat.zero_add] at hzero
  exact blockAt_nonzero hj hzero

end S9p.Rootfs
