/-
# What a blob makes of `root_props`

`root_props` is given files from the build, and its caller reports the `ValueError`s it raises and
no others.  On the encoding of a device tree it returns what the tree carries (`rootProps_ok`).
On anything else it goes from token to token by the lengths it finds there, and reads each with
`struct.unpack_from`, which raises `struct.error` behind the end.

`Next` is one step of that walk.  `rootProps_reported_iff`: the outcome is one that the caller
reports exactly where every token that is reached lies whole in the blob.
-/
import S9p.Boot.Fdt
import Mathlib.Logic.Relation

namespace S9p.Boot

open Bytes Relation

/-! ## 1. The walk

`Next` goes on for as long as the tokens make sense.  It is a relation and not a loop, so a blob
that would keep a reader busy for ever is no problem to state. -/

/-- From one token to the next, with the depth it is at. -/
inductive Next (dtb : Bytes) (strings : Nat) : Nat × Nat → Nat × Nat → Prop
  | nop {pos depth : Nat} : CellAt dtb pos FDT_NOP → Next dtb strings (pos, depth) (pos + 4, depth)
  | node {pos : Nat} {s : Bytes} : CellAt dtb pos FDT_BEGIN_NODE → StringAt dtb (pos + 4) s →
      Next dtb strings (pos, 0) (align4 (pos + 4 + s.length + 1), 1)
  | prop {pos depth length o : Nat} {name : String} :
      CellAt dtb pos FDT_PROP → CellAt dtb (pos + 4) length → CellAt dtb (pos + 8) o →
      StringAt dtb (strings + o) name.toUTF8.data.toList →
      Next dtb strings (pos, depth) (align4 (pos + 12 + length), depth)

/-- The token, and the two cells behind that of a property, are in the blob. -/
def WholeToken (dtb : Bytes) (pos : Nat) : Prop :=
  pos + 4 ≤ dtb.length ∧ (CellAt dtb pos FDT_PROP → pos + 12 ≤ dtb.length)

/-- So is every token that is reached from here. -/
def WholeFrom (dtb : Bytes) (strings : Nat) (here : Nat × Nat) : Prop :=
  ∀ there, ReflTransGen (Next dtb strings) here there → WholeToken dtb there.1

/-- So is every token of the root node, if the blob is taken for a device tree at all. -/
def WholeTokens (dtb : Bytes) : Prop :=
  40 ≤ dtb.length → CellAt dtb 0 FDT_MAGIC → ∀ offStruct offStrings, CellAt dtb 8 offStruct →
    CellAt dtb 12 offStrings → WholeFrom dtb offStrings (offStruct, 0)

/-- A result, or an error that `main` catches. -/
def Reported {α : Type} (r : Py α) : Prop := ∀ e, r = .error e → ∃ msg, e = .value msg

/-- What is asked of `root_props` on a blob: the walk ends by itself, a device tree gives its
properties (the last one of a name first), and every error is reported. -/
structure ParsedWell (dtb : Bytes) : Prop where
  ends : ∀ offStruct offStrings fuel, dtb.length < fuel →
    rootLoop dtb offStrings fuel offStruct 0 [] =
      rootLoop dtb offStrings (dtb.length + 1) offStruct 0 []
  exact : ∀ ps, Fdt dtb ps → rootProps dtb = .ok ps.reverse
  reported : Reported (rootProps dtb)

/-! ## 2. What is read, and what is raised

Each of the three things the walk reads at a token can fail, and each of them in its own way. -/

section Reads

variable {dtb : Bytes} {strings pos depth : Nat}

theorem reported_ok {α : Type} (a : α) : Reported (.ok a : Py α) := by
  intro e h
  exact absurd h (by simp)

theorem reported_value {α : Type} (msg : String) : Reported (.error (.value msg) : Py α) := by
  intro e h
  exact ⟨msg, (Except.error.inj h).symm⟩

theorem not_reported_struct {α : Type} : ¬ Reported (.error .struct : Py α) := by
  intro h
  obtain ⟨msg, hmsg⟩ := h _ rfl
  exact absurd hmsg (by simp)

theorem cellAt_iff_le : (∃ n, CellAt dtb pos n) ↔ pos + 4 ≤ dtb.length := by
  simp only [CellAt, unpackBe]
  split
  · simpa
  · simpa using Nat.lt_of_not_le ‹_›

theorem CellAt.unique {n m : Nat} (h : CellAt dtb pos n) (h' : CellAt dtb pos m) : n = m :=
  Option.some.inj (h.symm.trans h')

theorem unpackBe32_short (h : ¬ pos + 4 ≤ dtb.length) : unpackBe32 dtb pos = .error .struct := by
  rw [unpackBe32, unpackBe, if_neg h]
  rfl

/-- A terminator is found, or there is none. -/
theorem indexNul_cases (dtb : Bytes) (pos : Nat) :
    (∃ s, StringAt dtb pos s) ∨ (¬ ∃ s, StringAt dtb pos s) ∧
      indexNul dtb pos = .error (.value "subsection not found") := by
  by_cases h : ∃ s, StringAt dtb pos s
  · exact .inl h
  · refine .inr ⟨h, ?_⟩
    unfold indexNul
    cases hfind : (dtb.drop pos).findIdx? (fun x => x == 0) with
    | none => rfl
    | some i =>
      obtain ⟨hi, hat, hbefore⟩ := List.findIdx?_eq_some_iff_getElem.mp hfind
      refine absurd ⟨(dtb.drop pos).take i, ?_, ?_, ?_⟩ h
      · intro hmem
        obtain ⟨j, hj, hzero⟩ := List.getElem_of_mem hmem
        rw [List.length_take] at hj
        have hne := hbefore j (by omega)
        rw [List.getElem_take] at hzero
        exact hne (by simpa using hzero)
      · rw [List.length_drop] at hi
        rw [List.length_take, List.length_drop]
        omega
      · rw [slice, List.length_take, Nat.min_eq_left (by omega), Nat.add_assoc,
          Nat.add_sub_cancel_left, List.take_add_one, List.getElem?_eq_getElem hi]
        simpa using hat

/-- A name is decoded, or it is none. -/
theorem decode_cases (b : Bytes) :
    (∃ name : String, b = name.toUTF8.data.toList) ∨
      (¬ ∃ name : String, b = name.toUTF8.data.toList) ∧
        decode b = .error (.value "invalid utf-8") := by
  by_cases h : ∃ name : String, b = name.toUTF8.data.toList
  · exact .inl h
  · refine .inr ⟨h, ?_⟩
    unfold decode
    cases hs : String.fromUTF8? ⟨b.toArray⟩ with
    | none => rfl
    | some name =>
      refine absurd ⟨name, ?_⟩ h
      unfold String.fromUTF8? at hs
      split at hs
      · rw [← Option.some.inj hs]
        rfl
      · exact absurd hs (by simp)

/-- After a token that is whole, the rest decides. -/
theorem wholeFrom_iff {here : Nat × Nat} : WholeFrom dtb strings here ↔
    WholeToken dtb here.1 ∧ ∀ there, Next dtb strings here there → WholeFrom dtb strings there := by
  constructor
  · exact fun h => ⟨h here .refl, fun there hnext last hlast => h last (.head hnext hlast)⟩
  · rintro ⟨hhere, hnext⟩ there hthere
    rcases hthere.cases_head with rfl | ⟨mid, hmid, hrest⟩
    · exact hhere
    · exact hnext mid hmid there hrest

/-- A step is decided by the token and by what it refers to. -/
theorem next_iff {token : Nat} (h : CellAt dtb pos token) {there : Nat × Nat} :
    Next dtb strings (pos, depth) there ↔
      (token = FDT_NOP ∧ there = (pos + 4, depth)) ∨
      (token = FDT_BEGIN_NODE ∧ depth = 0 ∧ ∃ s, StringAt dtb (pos + 4) s ∧
        there = (align4 (pos + 4 + s.length + 1), 1)) ∨
      (token = FDT_PROP ∧ ∃ (length o : Nat) (name : String), CellAt dtb (pos + 4) length ∧
        CellAt dtb (pos + 8) o ∧ StringAt dtb (strings + o) name.toUTF8.data.toList ∧
        there = (align4 (pos + 12 + length), depth)) := by
  constructor
  · rintro (hat | ⟨hat, hs⟩ | ⟨hat, hlength, ho, hname⟩)
    · exact .inl ⟨h.unique hat, rfl⟩
    · exact .inr (.inl ⟨h.unique hat, rfl, _, hs, rfl⟩)
    · exact .inr (.inr ⟨h.unique hat, _, _, _, hlength, ho, hname, rfl⟩)
  · rintro (⟨rfl, rfl⟩ | ⟨rfl, rfl, s, hs, rfl⟩ | ⟨rfl, length, o, name, hlength, ho, hname, rfl⟩)
    · exact .nop h
    · exact .node h hs
    · exact .prop h hlength ho hname

theorem next_nop (h : CellAt dtb pos FDT_NOP) {there : Nat × Nat} :
    Next dtb strings (pos, depth) there ↔ there = (pos + 4, depth) := by
  rw [next_iff h]
  simp [show FDT_NOP ≠ FDT_BEGIN_NODE by decide, show FDT_NOP ≠ FDT_PROP by decide]

theorem next_node (h : CellAt dtb pos FDT_BEGIN_NODE) {there : Nat × Nat} :
    Next dtb strings (pos, depth) there ↔ depth = 0 ∧ ∃ s, StringAt dtb (pos + 4) s ∧
      there = (align4 (pos + 4 + s.length + 1), 1) := by
  rw [next_iff h]
  simp [show FDT_BEGIN_NODE ≠ FDT_NOP by decide, show FDT_BEGIN_NODE ≠ FDT_PROP by decide]

theorem next_prop (h : CellAt dtb pos FDT_PROP) {there : Nat × Nat} :
    Next dtb strings (pos, depth) there ↔ ∃ (length o : Nat) (name : String),
      CellAt dtb (pos + 4) length ∧ CellAt dtb (pos + 8) o ∧
        StringAt dtb (strings + o) name.toUTF8.data.toList ∧
          there = (align4 (pos + 12 + length), depth) := by
  rw [next_iff h]
  simp [show FDT_PROP ≠ FDT_NOP by decide, show FDT_PROP ≠ FDT_BEGIN_NODE by decide]

theorem not_next {token : Nat} (h : CellAt dtb pos token) (hnop : token ≠ FDT_NOP)
    (hbegin : token ≠ FDT_BEGIN_NODE) (hprop : token ≠ FDT_PROP) {there : Nat × Nat} :
    ¬ Next dtb strings (pos, depth) there := by
  rw [next_iff h]
  simp [hnop, hbegin, hprop]

end Reads

/-! ## 3. The outcome

The walk goes forward by four bytes at least, which is why it ends. -/

section Outcome

variable {dtb : Bytes} {strings pos depth : Nat} {props : Props}

theorem StringAt.unique {s s' : Bytes} (h : StringAt dtb pos s) (h' : StringAt dtb pos s') :
    s = s' := by
  have hnul := h.indexNul.symm.trans h'.indexNul
  rw [Except.ok.injEq, Nat.add_left_cancel_iff] at hnul
  rw [← h.slice_eq, ← h'.slice_eq, hnul]

/-- A token that is no property is whole when it can be read. -/
theorem CellAt.whole {token : Nat} (h : CellAt dtb pos token) (hne : token ≠ FDT_PROP) :
    WholeToken dtb pos :=
  ⟨h.le, fun hprop => absurd (h.unique hprop) hne⟩

/-- A name is there, or an error is raised that is reported. -/
theorem name_cases (dtb : Bytes) (off : Nat) :
    (∃ name : String, StringAt dtb off name.toUTF8.data.toList) ∨
      (∀ name : String, ¬ StringAt dtb off name.toUTF8.data.toList) ∧
        ∀ k : String → Py Props, Reported (do
          let nul ← indexNul dtb off
          let name ← decode (slice dtb off nul)
          k name) := by
  rcases indexNul_cases dtb off with ⟨s, hs⟩ | ⟨hnone, hraise⟩
  · rcases decode_cases s with ⟨name, rfl⟩ | ⟨hnot, hraise⟩
    · exact .inl ⟨name, hs⟩
    · refine .inr ⟨fun name hname => hnot ⟨name, hs.unique hname⟩, fun k => ?_⟩
      rw [hs.indexNul, ok_bind, hs.slice_eq, hraise, error_bind]
      exact reported_value _
  · refine .inr ⟨fun name hname => hnone ⟨_, hname⟩, fun k => ?_⟩
    rw [hraise, error_bind]
    exact reported_value _

/-- A property is whole where its two cells are in the blob. -/
theorem prop_cells (h : CellAt dtb pos FDT_PROP) :
    (WholeToken dtb pos ∧ ∃ length o, CellAt dtb (pos + 4) length ∧ CellAt dtb (pos + 8) o) ∨
      ¬ WholeToken dtb pos ∧ ∀ k : Nat → Nat → Py Props, ¬ Reported (do
        let length ← unpackBe32 dtb (pos + 4)
        let nameOff ← unpackBe32 dtb (pos + 8)
        k length nameOff) := by
  by_cases hle : pos + 12 ≤ dtb.length
  · obtain ⟨length, hlength⟩ := cellAt_iff_le.mpr (show pos + 4 + 4 ≤ dtb.length by omega)
    obtain ⟨o, ho⟩ := cellAt_iff_le.mpr (show pos + 8 + 4 ≤ dtb.length by omega)
    exact .inl ⟨⟨h.le, fun _ => hle⟩, length, o, hlength, ho⟩
  · refine .inr ⟨fun hwhole => hle (hwhole.2 h), fun k => ?_⟩
    by_cases hfirst : pos + 4 + 4 ≤ dtb.length
    · obtain ⟨length, hlength⟩ := cellAt_iff_le.mpr hfirst
      rw [hlength.ok, ok_bind, unpackBe32_short (by omega), error_bind]
      exact not_reported_struct
    · rw [unpackBe32_short hfirst, error_bind]
      exact not_reported_struct

/-- **The outcome is reported** exactly where the tokens that are reached are whole. -/
theorem rootLoop_reported_iff {fuel : Nat} (hfuel : dtb.length < fuel + pos) :
    Reported (rootLoop dtb strings fuel pos depth props) ↔ WholeFrom dtb strings (pos, depth) := by
  induction fuel generalizing pos depth props with
  | zero =>
    refine iff_of_false not_reported_struct (fun h => ?_)
    have := (h _ .refl).1
    simp only at this
    omega
  | succ fuel ih =>
    rw [wholeFrom_iff, rootLoop]
    by_cases hle : pos + 4 ≤ dtb.length
    swap
    · rw [unpackBe32_short hle]
      exact iff_of_false not_reported_struct (fun h => hle h.1.1)
    obtain ⟨token, htoken⟩ := cellAt_iff_le.mpr hle
    rw [htoken.ok, ok_bind]
    by_cases hbegin : token = FDT_BEGIN_NODE
    · subst hbegin
      have hwhole := htoken.whole (by decide)
      rw [if_pos rfl]
      simp only [next_node htoken]
      by_cases hdepth : 1 < depth + 1
      · rw [if_pos hdepth]
        refine iff_of_true (reported_ok _) ⟨hwhole, ?_⟩
        rintro there ⟨h, -⟩
        omega
      · rw [if_neg hdepth]
        obtain rfl : depth = 0 := by omega
        rcases indexNul_cases dtb (pos + 4) with ⟨s, hs⟩ | ⟨hnone, hraise⟩
        · have hstart : (pos + 4 + s.length + 4) / 4 * 4 = align4 (pos + 4 + s.length + 1) := rfl
          rw [hs.indexNul, ok_bind, hstart, ih (by unfold align4; omega)]
          constructor
          · intro h
            refine ⟨hwhole, ?_⟩
            rintro there ⟨-, s', hs', rfl⟩
            rwa [← hs.unique hs']
          · exact fun h => h.2 _ ⟨rfl, s, hs, rfl⟩
        · rw [hraise, error_bind]
          refine iff_of_true (reported_value _) ⟨hwhole, ?_⟩
          rintro there ⟨-, s', hs', -⟩
          exact absurd ⟨s', hs'⟩ hnone
    rw [if_neg hbegin]
    by_cases hprop : token = FDT_PROP
    · subst hprop
      rw [if_pos rfl]
      simp only [next_prop htoken]
      rcases prop_cells htoken with ⟨hwhole, length, o, hlength, ho⟩ | ⟨hshort, hraise⟩
      · rw [hlength.ok, ok_bind, ho.ok, ok_bind]
        rcases name_cases dtb (strings + o) with ⟨name, hname⟩ | ⟨hnone, hraise⟩
        · have hstop : (pos + 12 + length + 3) / 4 * 4 = align4 (pos + 12 + length) := rfl
          rw [hname.indexNul, ok_bind, hname.slice_eq, decode_ok, ok_bind, hstop,
            ih (by unfold align4; omega)]
          constructor
          · intro h
            refine ⟨hwhole, ?_⟩
            rintro there ⟨length', o', name', hlength', -, -, rfl⟩
            rwa [← hlength.unique hlength']
          · exact fun h => h.2 _ ⟨length, o, name, hlength, ho, hname, rfl⟩
        · refine iff_of_true (hraise _) ⟨hwhole, ?_⟩
          rintro there ⟨length', o', name', -, ho', hname', -⟩
          rw [← ho.unique ho'] at hname'
          exact absurd hname' (hnone name')
      · exact iff_of_false (hraise _) (fun h => hshort h.1)
    rw [if_neg hprop]
    have hwhole := htoken.whole hprop
    by_cases hnop : token = FDT_NOP
    · subst hnop
      rw [if_pos rfl, ih (by omega)]
      simp only [next_nop htoken]
      constructor
      · exact fun h => ⟨hwhole, fun there hthere => hthere ▸ h⟩
      · exact fun h => h.2 _ rfl
    · -- The walk ends here: with the properties, or with a token that is none.
      rw [if_neg hnop]
      refine iff_of_true ?_ ⟨hwhole, fun there h => absurd h (not_next htoken hnop hbegin hprop)⟩
      split
      · exact reported_ok _
      · exact reported_value _

theorem rootProps_ends (offStruct offStrings : Nat) {fuel : Nat} (hfuel : dtb.length < fuel) :
    rootLoop dtb offStrings fuel offStruct 0 [] =
      rootLoop dtb offStrings (dtb.length + 1) offStruct 0 [] := by
  induction fuel with
  | zero => omega
  | succ fuel ih =>
    by_cases hlast : dtb.length < fuel
    · rw [rootLoop_fuel (by omega), ih hlast]
    · rw [show fuel = dtb.length by omega]

/-- **Every error is reported** exactly where the tokens that are reached are whole. -/
theorem rootProps_reported_iff (dtb : Bytes) : Reported (rootProps dtb) ↔ WholeTokens dtb := by
  unfold rootProps WholeTokens
  by_cases hlen : dtb.length < 40
  · rw [if_pos hlen]
    exact iff_of_true (reported_value _) (fun h => by omega)
  rw [if_neg hlen]
  obtain ⟨magic, hmagic⟩ := cellAt_iff_le.mpr (show 0 + 4 ≤ dtb.length by omega)
  obtain ⟨offStruct, hstruct⟩ := cellAt_iff_le.mpr (show 8 + 4 ≤ dtb.length by omega)
  obtain ⟨offStrings, hstrings⟩ := cellAt_iff_le.mpr (show 12 + 4 ≤ dtb.length by omega)
  rw [hmagic.ok, ok_bind]
  by_cases hfdt : magic = FDT_MAGIC
  · subst hfdt
    rw [if_neg (by simp), hstruct.ok, ok_bind, hstrings.ok, ok_bind,
      rootLoop_reported_iff (by omega)]
    constructor
    · intro h _ _ offStruct' offStrings' hstruct' hstrings'
      rwa [← hstruct.unique hstruct', ← hstrings.unique hstrings']
    · exact fun h => h (by omega) hmagic offStruct offStrings hstruct hstrings
  · rw [if_pos hfdt]
    exact iff_of_true (reported_value _) (fun _ h => absurd (hmagic.unique h) hfdt)

end Outcome

/-! ## 4. Any blob

What is asked of any blob is put together from the outcome and from what the walk finds on a device
tree. -/

/-- **`root_props` does what its caller counts on** exactly where every token it reaches lies in
the blob. -/
theorem rootProps_parses_iff (dtb : Bytes) : ParsedWell dtb ↔ WholeTokens dtb := by
  rw [← rootProps_reported_iff]
  exact ⟨fun h => h.reported, fun h =>
    { ends := fun offStruct offStrings _ hfuel => rootProps_ends offStruct offStrings hfuel
      exact := fun _ hfdt => rootProps_ok hfdt
      reported := h }⟩

/-- A header of 40 bytes whose structure block would begin right behind it. -/
def headerOnly : Bytes := [FDT_MAGIC, 40, 40, 40, 40, 17, 16, 0, 0, 0].flatMap (beBytes 4)

/-- **A blob cut off behind its header** raises what nobody catches. -/
theorem header_only_raises : rootProps headerOnly = .error .struct ∧ ¬ ParsedWell headerOnly := by
  have hraise : rootProps headerOnly = .error .struct := by decide +kernel
  refine ⟨hraise, fun h => ?_⟩
  have hreported := h.reported
  rw [hraise] at hreported
  exact not_reported_struct hreported

end S9p.Boot
