/-
# The root node of a device tree

`root_props` of `mkdtbh.py` walks over the structure block of a flattened device tree, from the
first token to the end of the root's properties.

`Fdt` says what such a blob is without saying how to read it: `PropsAt dtb strings pos ps`
holds when the tokens from `pos` on carry the properties `ps`.  `rootProps_ok` is by induction
on that derivation: the walk finds exactly what the tree carries.

A walk ends because a token takes four bytes; `rootLoop_fuel` says that the count of rounds
given to the loop is never what stops it.
-/
import S9p.Boot.Image

namespace S9p.Boot

open Bytes

/-! ## 1. `root_props`

The script reads only as far as it has to: it leaves the loop at the first child, or at the end of
the root.  An error is what Python would raise, with its text. -/

def FDT_MAGIC : Nat := 0xD00DFEED

def FDT_BEGIN_NODE : Nat := 1
def FDT_END_NODE : Nat := 2
def FDT_PROP : Nat := 3
def FDT_NOP : Nat := 4
def FDT_END : Nat := 9

/-- `struct.unpack_from(">I", b, off)`. -/
def unpackBe32 (b : Bytes) (off : Nat) : Py Nat :=
  match unpackBe 4 b off with
  | some n => return n
  | none => throw .struct

/-- `b.index(b"\0", pos)`. -/
def indexNul (b : Bytes) (pos : Nat) : Py Nat :=
  match (b.drop pos).findIdx? (fun x => x == 0) with
  | some i => return pos + i
  | none => throw (.value "subsection not found")

/-- `name.decode()`. -/
def decode (name : Bytes) : Py String :=
  match String.fromUTF8? ⟨name.toArray⟩ with
  | some s => return s
  | none => throw (.value "invalid utf-8")

/-- `f"{n:#x}"`. -/
def hex (n : Nat) : String := "0x" ++ String.ofList (Nat.toDigits 16 n)

/-- The dictionary of properties: the last one of a name counts. -/
abbrev Props := List (String × Bytes)

/-- The loop of `root_props`. -/
def rootLoop (dtb : Bytes) (offStrings : Nat) : Nat → Nat → Nat → Props → Py Props
  | 0, _, _, _ => throw .struct
  | fuel + 1, pos, depth, props => do
    let token ← unpackBe32 dtb pos
    if token = FDT_BEGIN_NODE then
      if 1 < depth + 1 then return props
      else do
        let nul ← indexNul dtb (pos + 4)
        rootLoop dtb offStrings fuel ((nul + 4) / 4 * 4) (depth + 1) props
    else if token = FDT_PROP then do
      let length ← unpackBe32 dtb (pos + 4)
      let nameOff ← unpackBe32 dtb (pos + 8)
      let nul ← indexNul dtb (offStrings + nameOff)
      let name ← decode (slice dtb (offStrings + nameOff) nul)
      rootLoop dtb offStrings fuel ((pos + 12 + length + 3) / 4 * 4) depth
        ((name, slice dtb (pos + 12) (pos + 12 + length)) :: props)
    else if token = FDT_NOP then rootLoop dtb offStrings fuel (pos + 4) depth props
    else if token = FDT_END_NODE ∨ token = FDT_END then return props
    else
      let bad := hex token
      let place := hex pos
      throw (.value s!"bad FDT token {bad} at {place}")

/-- `root_props`. -/
def rootProps (dtb : Bytes) : Py Props :=
  if dtb.length < 40 then throw (.value "not a flattened device tree")
  else do
    let magic ← unpackBe32 dtb 0
    if magic ≠ FDT_MAGIC then throw (.value "not a flattened device tree")
    else do
      let offStruct ← unpackBe32 dtb 8
      let offStrings ← unpackBe32 dtb 12
      rootLoop dtb offStrings (dtb.length + 1) offStruct 0 []

/-- `cell`: the first cell of a property. -/
def cell (props : Props) (name path : String) : Py Nat :=
  match props.lookup name with
  | none => throw (.value s!"{path}: root node has no usable {name}")
  | some raw =>
      if raw.length < 4 ∨ raw.length % 4 ≠ 0 then
        throw (.value s!"{path}: root node has no usable {name}")
      else unpackBe32 raw 0

/-! ## 2. What a device tree is

The grammar is that of the format and knows nothing of the code.  Whether a blob is a device tree
behind the root's properties is left open, as the walk does not get there. -/

/-- The big-endian cell at `pos` is `n`. -/
def CellAt (dtb : Bytes) (pos n : Nat) : Prop := unpackBe 4 dtb pos = some n

instance {dtb : Bytes} {pos n : Nat} : Decidable (CellAt dtb pos n) :=
  inferInstanceAs (Decidable (_ = _))

/-- At `pos` stands the string `s` with its terminator. -/
def StringAt (dtb : Bytes) (pos : Nat) (s : Bytes) : Prop :=
  0 ∉ s ∧ pos + s.length + 1 ≤ dtb.length ∧ slice dtb pos (pos + s.length + 1) = s ++ [0]

instance {dtb s : Bytes} {pos : Nat} : Decidable (StringAt dtb pos s) :=
  inferInstanceAs (Decidable (_ ∧ _ ∧ _))

def align4 (n : Nat) : Nat := (n + 3) / 4 * 4

/-- The tokens from `pos` on carry the properties `ps` of a node: up to its first child or its end.
It is a derivation from the left, and so the order of the tokens is that of the walk. -/
inductive PropsAt (dtb : Bytes) (strings : Nat) : Nat → Props → Prop
  | nop {pos : Nat} {ps : Props} :
      CellAt dtb pos FDT_NOP → PropsAt dtb strings (pos + 4) ps → PropsAt dtb strings pos ps
  | prop {pos o : Nat} {name : String} {value : Bytes} {ps : Props} :
      CellAt dtb pos FDT_PROP → CellAt dtb (pos + 4) value.length → CellAt dtb (pos + 8) o →
      StringAt dtb (strings + o) name.toUTF8.data.toList →
      slice dtb (pos + 12) (pos + 12 + value.length) = value →
      PropsAt dtb strings (align4 (pos + 12 + value.length)) ps →
      PropsAt dtb strings pos ((name, value) :: ps)
  | child {pos : Nat} : CellAt dtb pos FDT_BEGIN_NODE → PropsAt dtb strings pos []
  | close {pos : Nat} : CellAt dtb pos FDT_END_NODE → PropsAt dtb strings pos []

/-- The tokens from `pos` on are the root node, with the properties `ps`. -/
inductive RootAt (dtb : Bytes) (strings : Nat) : Nat → Props → Prop
  | nop {pos : Nat} {ps : Props} :
      CellAt dtb pos FDT_NOP → RootAt dtb strings (pos + 4) ps → RootAt dtb strings pos ps
  | node {pos : Nat} {s : Bytes} {ps : Props} :
      CellAt dtb pos FDT_BEGIN_NODE → StringAt dtb (pos + 4) s →
      PropsAt dtb strings (align4 (pos + 4 + s.length + 1)) ps → RootAt dtb strings pos ps

/-- A flattened device tree: its header, and a root node with the properties `ps`.  Nothing is said
of what follows the properties of the root. -/
structure Fdt (dtb : Bytes) (ps : Props) : Prop where
  header : 40 ≤ dtb.length
  magic : CellAt dtb 0 FDT_MAGIC
  totalsize : CellAt dtb 4 dtb.length
  root : ∃ offStruct offStrings, CellAt dtb 8 offStruct ∧ CellAt dtb 12 offStrings ∧
    RootAt dtb offStrings offStruct ps

/-- The property `name` is there, and its first cell is `v`. -/
def Carries (ps : Props) (name : String) (v : Nat) : Prop :=
  v < 2 ^ 32 ∧ ∃ rest, rest.length % 4 = 0 ∧ (name, beBytes 4 v ++ rest) ∈ ps ∧
    ∀ raw, (name, raw) ∈ ps → raw = beBytes 4 v ++ rest

/-! ## 3. The walk finds what the tree carries

The induction is on the derivation, so the loop is unfolded once for each token. -/

section Walk

variable {dtb : Bytes} {strings pos n : Nat} {s : Bytes} {ps props : Props}

theorem CellAt.ok (h : CellAt dtb pos n) : unpackBe32 dtb pos = .ok n := by
  rw [unpackBe32, h]
  rfl

theorem CellAt.le (h : CellAt dtb pos n) : pos + 4 ≤ dtb.length := by
  unfold CellAt unpackBe at h
  split at h
  · assumption
  · exact absurd h (by simp)

/-- The terminator is found. -/
theorem StringAt.indexNul (h : StringAt dtb pos s) :
    indexNul dtb pos = .ok (pos + s.length) := by
  obtain ⟨hfree, hlen, hat⟩ := h
  have hdrop : dtb.drop pos = s ++ 0 :: dtb.drop (pos + s.length + 1) := by
    have hsplit := List.take_append_drop (s.length + 1) (dtb.drop pos)
    have htake : (dtb.drop pos).take (s.length + 1) = s ++ [0] := by
      rw [← hat, slice]
      congr 1
      omega
    rw [htake, List.drop_drop, List.append_assoc] at hsplit
    exact hsplit.symm
  have hnone : s.findIdx? (fun x => x == 0) = none := by
    rw [List.findIdx?_eq_none_iff]
    intro x hx
    simp only [beq_eq_false_iff_ne, ne_eq]
    rintro rfl
    exact hfree hx
  have hfind : (dtb.drop pos).findIdx? (fun x => x == 0) = some s.length := by
    rw [hdrop, List.findIdx?_append, hnone]
    simp [List.findIdx?_cons]
  rw [Boot.indexNul, hfind]
  rfl

theorem StringAt.slice_eq (h : StringAt dtb pos s) : slice dtb pos (pos + s.length) = s := by
  obtain ⟨-, -, hat⟩ := h
  have hpre : slice (slice dtb pos (pos + s.length + 1)) 0 s.length = s := by
    rw [hat, slice_append_left le_rfl, slice_zero_length]
  rwa [slice_slice (by omega)] at hpre

theorem decode_ok (name : String) : decode name.toUTF8.data.toList = .ok name := by
  have hvalid : String.fromUTF8? name.toUTF8 = some name := by
    have hbytes : name.toUTF8.IsValidUTF8 := name.isValidUTF8
    rw [String.fromUTF8?, dif_pos hbytes]
    rfl
  rw [decode, Array.toArray_toList, hvalid]
  rfl

/-- **The loop finds the properties** of the node it is in. -/
theorem rootLoop_ok (h : PropsAt dtb strings pos ps) {fuel depth : Nat}
    (hfuel : dtb.length < fuel + pos) (hdepth : 0 < depth) :
    rootLoop dtb strings fuel pos depth props = .ok (ps.reverse ++ props) := by
  induction h generalizing fuel props with
  | nop htoken _ ih =>
    have hle := htoken.le
    match fuel, hfuel with
    | 0, hfuel => omega
    | fuel + 1, hfuel =>
      rw [rootLoop, htoken.ok, ok_bind, if_neg (by decide), if_neg (by decide), if_pos rfl]
      exact ih (by omega)
  | @prop pos nameOff name value ps htoken hlength hnameOff hname hvalue _ ih =>
    have hle := htoken.le
    have hstop : (pos + 12 + value.length + 3) / 4 * 4 = align4 (pos + 12 + value.length) := rfl
    match fuel, hfuel with
    | 0, hfuel => omega
    | fuel + 1, hfuel =>
      have hname' := hname.slice_eq
      rw [rootLoop, htoken.ok, ok_bind, if_neg (by decide), if_pos rfl, hlength.ok, ok_bind,
        hnameOff.ok, ok_bind, hname.indexNul, ok_bind, hname', decode_ok, ok_bind, hvalue, hstop,
        ih (by unfold align4; omega)]
      simp
  | child htoken =>
    have hle := htoken.le
    match fuel, hfuel with
    | 0, hfuel => omega
    | fuel + 1, hfuel =>
      rw [rootLoop, htoken.ok, ok_bind, if_pos rfl, if_pos (by omega)]
      rfl
  | close htoken =>
    have hle := htoken.le
    match fuel, hfuel with
    | 0, hfuel => omega
    | fuel + 1, hfuel =>
      rw [rootLoop, htoken.ok, ok_bind, if_neg (by decide), if_neg (by decide),
        if_neg (by decide), if_pos (.inl rfl)]
      rfl

theorem rootLoop_root (h : RootAt dtb strings pos ps) {fuel : Nat}
    (hfuel : dtb.length < fuel + pos) :
    rootLoop dtb strings fuel pos 0 [] = .ok ps.reverse := by
  induction h generalizing fuel with
  | nop htoken _ ih =>
    have hle := htoken.le
    match fuel, hfuel with
    | 0, hfuel => omega
    | fuel + 1, hfuel =>
      rw [rootLoop, htoken.ok, ok_bind, if_neg (by decide), if_neg (by decide), if_pos rfl]
      exact ih (by omega)
  | @node pos name ps htoken hname hprops =>
    have hle := htoken.le
    have hstart : (pos + 4 + name.length + 4) / 4 * 4 = align4 (pos + 4 + name.length + 1) := rfl
    match fuel, hfuel with
    | 0, hfuel => omega
    | fuel + 1, hfuel =>
      rw [rootLoop, htoken.ok, ok_bind, if_pos rfl, if_neg (by omega), hname.indexNul, ok_bind,
        hstart, rootLoop_ok hprops (by unfold align4; omega) (by omega), List.append_nil]

/-- **`root_props` finds what the root carries.** -/
theorem rootProps_ok (h : Fdt dtb ps) : rootProps dtb = .ok ps.reverse := by
  obtain ⟨offStruct, offStrings, hstruct, hstrings, hroot⟩ := h.root
  have hlen := h.header
  rw [rootProps, if_neg (by omega), h.magic.ok, ok_bind, if_neg (by simp), hstruct.ok, ok_bind,
    hstrings.ok, ok_bind]
  exact rootLoop_root hroot (by omega)

/-- More rounds make no difference, once there is one for each byte left. -/
theorem rootLoop_fuel {fuel depth : Nat} (hfuel : dtb.length < fuel + pos) :
    rootLoop dtb strings (fuel + 1) pos depth props =
      rootLoop dtb strings fuel pos depth props := by
  induction fuel generalizing pos depth props with
  | zero =>
    have hnone : unpackBe 4 dtb pos = none := by rw [unpackBe, if_neg (by omega)]
    simp [rootLoop, unpackBe32, hnone]
  | succ fuel ih =>
    conv_lhs => rw [rootLoop]
    conv_rhs => rw [rootLoop]
    cases htoken : unpackBe32 dtb pos with
    | error e => rfl
    | ok token =>
      simp only [ok_bind]
      split
      · split
        · rfl
        · cases hnul : Boot.indexNul dtb (pos + 4) with
          | error e => rfl
          | ok nul =>
            have hle : pos + 4 ≤ nul := by
              unfold Boot.indexNul at hnul
              split at hnul
              · simp only [pure_eq_ok, Except.ok.injEq] at hnul
                omega
              · exact absurd hnul (by simp)
            simp only [ok_bind]
            exact ih (by omega)
      · split
        · cases unpackBe32 dtb (pos + 4) with
          | error e => rfl
          | ok length =>
            cases unpackBe32 dtb (pos + 8) with
            | error e => rfl
            | ok nameOff =>
              simp only [ok_bind]
              cases Boot.indexNul dtb (strings + nameOff) with
              | error e => rfl
              | ok nul =>
                simp only [ok_bind]
                cases decode (slice dtb (strings + nameOff) nul) with
                | error e => rfl
                | ok name =>
                  simp only [ok_bind]
                  exact ih (by omega)
        · split
          · exact ih (by omega)
          · rfl

/-- The dictionary has what the tree carries under a name. -/
theorem lookup_eq {name : String} {raw : Bytes} (hmem : (name, raw) ∈ props)
    (hall : ∀ raw', (name, raw') ∈ props → raw' = raw) : props.lookup name = some raw := by
  induction props with
  | nil => exact absurd hmem (by simp)
  | cons p props ih =>
    obtain ⟨name', raw'⟩ := p
    by_cases h : name = name'
    · subst h
      rw [List.lookup_cons_self, hall raw' (by simp)]
    · rw [List.lookup_cons, beq_eq_false_iff_ne.mpr h]
      refine ih ?_ (fun r hr => hall r (by simp [hr]))
      simpa [h] using hmem

/-- **`cell` finds the cell** of a property the tree carries. -/
theorem Carries.cell {name path : String} {v : Nat} (h : Carries ps name v) :
    cell ps.reverse name path = .ok v := by
  obtain ⟨hv, rest, hrest, hmem, hall⟩ := h
  have hlookup : ps.reverse.lookup name = some (beBytes 4 v ++ rest) :=
    lookup_eq (by simpa using hmem) (fun raw hraw => hall raw (by simpa using hraw))
  have hlen : (beBytes 4 v ++ rest).length = 4 + rest.length := by simp
  have hcell : unpackBe 4 (beBytes 4 v ++ rest) 0 = some v := by
    refine unpackBe_eq (by omega) ?_ (by omega)
    have hfull := slice_zero_length (beBytes 4 v)
    rw [length_beBytes] at hfull
    rw [slice_append_left (by simp), hfull]
  rw [Boot.cell, hlookup]
  simp only
  rw [if_neg (by omega), unpackBe32, hcell]
  rfl

end Walk

end S9p.Boot
