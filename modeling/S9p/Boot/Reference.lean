/-
# The boot image made from a reference image

With `--ref` the header is that of an image the phone has accepted, and without `--ramdisk` the
ramdisk is taken out of it too.  `boot_parts.py` reads such an image strictly: a section that is
not there in full is an error.  `mkboot.py` repeats its arithmetic and takes what is there.

* `ref_mode_iff`: the new image is the reference with another kernel, dt and command line, and a
  reference that is cut off is refused, exactly where the kernel and the ramdisk of the reference
  are there in full and, with a command line, its second field is empty.
* `cmdline_runs_on`: the second field of the reference's command line is kept.
-/
import S9p.Boot.Image

namespace S9p.Boot

open Bytes

/-! ## 1. The reference

The sizes of the parts come from the header, and each part begins at a page.  A part is cut off if
the file ends inside it. -/

/-- What `boot_parts.py` takes for an image before it looks at a section. -/
structure RefImage (ref : Bytes) : Prop where
  length : 2048 ≤ ref.length
  magic : ref.take 8 = MAGIC
  page : unpackU32 ref 36 = .ok 2048

/-- The size of a part, as the header has it. -/
def sizeOf (ref : Bytes) (p : Part) : Nat := ofLe (slice ref p.field (p.field + 4))

/-- The parts in front of a part. -/
def Part.before : Part → List Part
  | .kernel => []
  | .ramdisk => [.kernel]
  | .second => [.kernel, .ramdisk]
  | .dt => [.kernel, .ramdisk, .second]

/-- Where a part begins. -/
def offsetOf (ref : Bytes) (p : Part) : Nat := walkEnd 2048 2048 (p.before.map (sizeOf ref))

/-- What there is of it. -/
def sectionOf (ref : Bytes) (p : Part) : Bytes :=
  slice ref (offsetOf ref p) (offsetOf ref p + sizeOf ref p)

/-- The part is not there in full. -/
def Cut (ref : Bytes) (p : Part) : Prop :=
  sizeOf ref p ≠ 0 ∧ ref.length < offsetOf ref p + sizeOf ref p

instance (ref : Bytes) (p : Part) : Decidable (Cut ref p) := inferInstanceAs (Decidable (_ ∧ _))

/-- The error for it. -/
def truncated (p : Part) : Error :=
  let name := p.name
  .value s!"truncated {name}"

section Parts

variable {ref : Bytes}

theorem unpackU32_eq {b : Bytes} {off : Nat} (h : off + 4 ≤ b.length) :
    unpackU32 b off = .ok (ofLe (slice b off (off + 4))) := by
  rw [unpackU32, unpackLe, if_pos h]
  rfl

theorem RefImage.size (h : RefImage ref) (p : Part) :
    unpackU32 ref p.field = .ok (sizeOf ref p) := by
  have hlen := h.length
  refine unpackU32_eq ?_
  cases p <;> simp only [Part.field] <;> omega

theorem cut_iff (p : Part) : (sectionOf ref p).length ≠ sizeOf ref p ↔ Cut ref p := by
  simp only [sectionOf, slice, Cut, List.length_take, List.length_drop]
  omega

/-- One section after the other is looked at. -/
theorem RefImage.partsFrom_cons (h : RefImage ref) (p : Part) (ps : List Part) :
    partsFrom 2048 ref (offsetOf ref p) (p :: ps) =
      if Cut ref p then .error (truncated p) else do
        let rest ← partsFrom 2048 ref (offsetOf ref p + roundUp 2048 (sizeOf ref p)) ps
        return (p, sectionOf ref p) :: rest := by
  have hcut : (slice ref (offsetOf ref p) (offsetOf ref p + sizeOf ref p)).length ≠ sizeOf ref p ↔
      Cut ref p := cut_iff p
  rw [partsFrom, h.size, ok_bind]
  simp only [hcut]
  split
  · rw [throw_eq_error, error_bind]
    rfl
  · rfl

/-- **What `boot_parts.py` makes of the reference**: the first part that is cut decides. -/
theorem RefImage.parts_eq (h : RefImage ref) : parts ref =
    if Cut ref .kernel then .error (truncated .kernel)
    else if Cut ref .ramdisk then .error (truncated .ramdisk)
    else if Cut ref .second then .error (truncated .second)
    else if Cut ref .dt then .error (truncated .dt)
    else .ok (Part.all.map (fun p => (p, sectionOf ref p))) := by
  have hlen := h.length
  have hstart : ¬ (ref.length < 2048 ∨ ref.take 8 ≠ MAGIC) := by
    rw [h.magic]
    simp [hlen]
  have hkernel := h.partsFrom_cons .kernel [.ramdisk, .second, .dt]
  have hramdisk := h.partsFrom_cons .ramdisk [.second, .dt]
  have hsecond := h.partsFrom_cons .second [.dt]
  have hdt := h.partsFrom_cons .dt []
  have hnext : offsetOf ref .kernel = 2048 ∧
      offsetOf ref .kernel + roundUp 2048 (sizeOf ref .kernel) = offsetOf ref .ramdisk ∧
      offsetOf ref .ramdisk + roundUp 2048 (sizeOf ref .ramdisk) = offsetOf ref .second ∧
      offsetOf ref .second + roundUp 2048 (sizeOf ref .second) = offsetOf ref .dt :=
    ⟨rfl, rfl, rfl, rfl⟩
  rw [hnext.2.1, hnext.1] at hkernel
  rw [hnext.2.2.1] at hramdisk
  rw [hnext.2.2.2] at hsecond
  rw [parts, if_neg hstart, h.page]
  simp only [ok_bind, ne_eq, not_true_eq_false, if_false]
  rw [Part.all, hkernel, hramdisk, hsecond, hdt]
  split
  · rfl
  split
  · rfl
  split
  · rfl
  split
  · rfl
  · rfl

/-- The reference is accepted where nothing is cut. -/
theorem RefImage.parts_ok_iff (h : RefImage ref) (own : List (Part × Bytes)) :
    parts ref = .ok own ↔
      (∀ p, ¬ Cut ref p) ∧ own = Part.all.map (fun p => (p, sectionOf ref p)) := by
  rw [h.parts_eq]
  constructor
  · intro hok
    split at hok
    · exact absurd hok (by simp)
    rename_i hkernel
    split at hok
    · exact absurd hok (by simp)
    rename_i hramdisk
    split at hok
    · exact absurd hok (by simp)
    rename_i hsecond
    split at hok
    · exact absurd hok (by simp)
    rename_i hdt
    refine ⟨fun p => ?_, (Except.ok.inj hok).symm⟩
    cases p with
    | kernel => exact hkernel
    | ramdisk => exact hramdisk
    | second => exact hsecond
    | dt => exact hdt
  · rintro ⟨hwhole, rfl⟩
    rw [if_neg (hwhole _), if_neg (hwhole _), if_neg (hwhole _), if_neg (hwhole _)]

/-- The two messages differ in their first letter. -/
theorem unsupported_ne (page : Nat) (p : Part) :
    Error.value s!"unsupported page size: {page}" ≠ truncated p := by
  intro heq
  have hfirst := congrArg (fun s : String => s.toList.head?) (Error.value.inj heq)
  simp only [String.toList_append, List.head?_append_of_ne_nil _
    (show (toString "unsupported page size: ").toList ≠ [] by decide)] at hfirst
  cases p <;> exact absurd hfirst (by decide)

/-- What is no image is not said to be cut. -/
theorem refImage_of_parts (h : (∃ own, parts ref = .ok own) ∨
    ∃ p, parts ref = .error (truncated p)) : RefImage ref := by
  have hnot : ∀ p, Error.value "not a Samsung Android boot image" ≠ truncated p := by
    intro p
    cases p <;> decide
  unfold parts at h
  split at h
  · rcases h with ⟨own, h⟩ | ⟨p, h⟩
    · exact absurd h (by simp)
    · exact absurd (Except.error.inj h) (hnot p)
  · rename_i hstart
    obtain ⟨hlen, hmagic⟩ := not_or.mp hstart
    rw [unpackU32_eq (by omega), ok_bind] at h
    split at h
    · rcases h with ⟨own, h⟩ | ⟨p, h⟩
      · exact absurd h (by simp)
      · rw [throw_eq_error, error_bind, Except.error.injEq] at h
        exact absurd h (unsupported_ne _ p)
    · rename_i hpage
      refine ⟨by omega, not_ne_iff.mp hmagic, ?_⟩
      rw [unpackU32_eq (by omega), not_ne_iff.mp hpage]

/-- The kernel or the ramdisk is said to be cut where it is. -/
theorem RefImage.truncated_iff (h : RefImage ref) :
    parts ref = .error (truncated .kernel) ∨ parts ref = .error (truncated .ramdisk) ↔
      Cut ref .kernel ∨ Cut ref .ramdisk := by
  have hne : truncated .second ≠ truncated .kernel ∧ truncated .second ≠ truncated .ramdisk ∧
      truncated .dt ≠ truncated .kernel ∧ truncated .dt ≠ truncated .ramdisk := by decide
  rw [h.parts_eq]
  by_cases hkernel : Cut ref .kernel
  · simp [hkernel]
  · by_cases hramdisk : Cut ref .ramdisk
    · simp [hkernel, hramdisk]
    · rw [if_neg hkernel, if_neg hramdisk]
      refine iff_of_false ?_ (by simp [hkernel, hramdisk])
      split
      · simp [hne.1, hne.2.1]
      split
      · simp [hne.2.2.1, hne.2.2.2]
      · simp

end Parts

/-! ## 2. The image made from it

What `mkboot.py` takes from the reference are slices, and a slice that runs past the end is shorter.
There is no error then. -/

/-- What goes into the image has 32-bit lengths, and the command line fits its field. -/
structure Encodable (a : Args) (kernel dt : Bytes) : Prop where
  kernel : kernel.length < 2 ^ 32
  dt : dt.length < 2 ^ 32
  cmdline : ∀ raw ∈ a.cmdline, raw.length < 512

/-- The command line of a header: its field and the extra field. -/
def commandLine (image : Bytes) : Bytes := slice image 64 576 ++ slice image 608 1632

/-- The bytes of the header that may differ from those of the reference. -/
def MayChange (a : Args) (i : Nat) : Prop :=
  Rewritten a i ∨ a.cmdline.isSome = true ∧ 608 ≤ i ∧ i < 1632

/-- The image is the reference, which has the parts `own`, with another kernel and dt. -/
structure Rebuilt (a : Args) (ref : Bytes) (own : List (Part × Bytes)) (kernel dt image : Bytes) :
    Prop where
  parses : parts image = .ok (Part.all.zip [kernel, contentOf own .ramdisk, [], dt])
  kept : ∀ i < HEADER_SIZE, ¬ MayChange a i → image[i]? = ref[i]?
  cmdline : ∀ raw ∈ a.cmdline, commandLine image = ljust raw 1536

/-- What is asked of `--ref` without `--ramdisk`. -/
structure RefMode (a : Args) (ref kernel dt : Bytes) : Prop where
  rebuilt : ∀ own, parts ref = .ok own → Encodable a kernel dt →
    ∃ image, mkboot a (some ref) kernel none dt = .ok image ∧ Rebuilt a ref own kernel dt image
  refused : parts ref = .error (truncated .kernel) ∨ parts ref = .error (truncated .ramdisk) →
    ∀ image, mkboot a (some ref) kernel none dt ≠ .ok image

/-- Kernel and ramdisk of the reference are there in full, and with a new command line the extra
field of the old one is empty. -/
structure SafeReference (a : Args) (ref : Bytes) : Prop where
  kernel : ¬ Cut ref .kernel
  ramdisk : ¬ Cut ref .ramdisk
  extra : a.cmdline.isSome = true → (∀ p, ¬ Cut ref p) → slice ref 608 1632 = zeros 1024

section Image

variable {a : Args} {ref kernel dt : Bytes}

theorem RefImage.reference (h : RefImage ref) : Reference ref 2048 where
  length := by
    have hlen := h.length
    have hsize : HEADER_SIZE = 1632 := rfl
    omega
  magic := h.magic
  page := h.page

theorem length_sectionOf_lt (ref : Bytes) (p : Part) : (sectionOf ref p).length < 2 ^ 32 := by
  have hsize := ofLe_lt (slice ref p.field (p.field + 4))
  have hfour : (slice ref p.field (p.field + 4)).length ≤ 4 := by
    simp only [slice, List.length_take]
    omega
  have hpow : 256 ^ (slice ref p.field (p.field + 4)).length ≤ 256 ^ 4 :=
    Nat.pow_le_pow_right (by decide) hfour
  have hlen : (sectionOf ref p).length ≤ sizeOf ref p := by
    simp only [sectionOf, slice, List.length_take]
    omega
  unfold sizeOf at hlen
  omega

/-- **From a reference an image is always written**, whatever is missing in it. -/
theorem RefImage.mkboot_ok (h : RefImage ref) (he : Encodable a kernel dt) : ∃ hdr id,
    mkboot a (some ref) kernel none dt = .ok (pad 2048 hdr ++
      (layout 2048 [kernel, sectionOf ref .ramdisk, [], dt] ++ TRAILER)) ∧
    Header hdr 2048 kernel (sectionOf ref .ramdisk) dt id ∧
    Patched a (ref.take HEADER_SIZE) hdr := by
  have hdraft : draftOf a (some ref) none =
      .ok ⟨2048, sectionOf ref .ramdisk, ref.take HEADER_SIZE⟩ := by
    have hks : unpackU32 ref 8 = .ok (sizeOf ref .kernel) := h.size .kernel
    have hrs : unpackU32 ref 16 = .ok (sizeOf ref .ramdisk) := h.size .ramdisk
    simp [draftOf, fromRef, h.magic, h.page, hks, hrs, sectionOf, offsetOf, Part.before, walkEnd]
  obtain ⟨hlen, hmagic, hpage⟩ := h.reference.header
  obtain ⟨hdr, id, himage, -, hh, hpatched⟩ := mkboot_of_draft hdraft (by decide) hlen hmagic hpage
    he.cmdline he.kernel (length_sectionOf_lt ref .ramdisk) he.dt
  rw [List.append_assoc] at himage
  exact ⟨hdr, id, himage, hh, hpatched⟩

/-- The header stands at the front of the image. -/
theorem header_front {hdr tail : Bytes} (hlen : hdr.length = HEADER_SIZE) {i : Nat}
    (hi : i < HEADER_SIZE) : (pad 2048 hdr ++ tail)[i]? = hdr[i]? := by
  obtain ⟨n, hpad⟩ := pad_eq 2048 hdr
  rw [hpad, List.append_assoc, List.getElem?_append_left (by omega)]

/-- What is left of the reference's command line. -/
theorem commandLine_eq {hdr tail raw : Bytes} (hlen : hdr.length = HEADER_SIZE)
    (hpatched : Patched a (ref.take HEADER_SIZE) hdr) (hraw : raw ∈ a.cmdline) :
    commandLine (pad 2048 hdr ++ tail) = ljust raw 512 ++ slice ref 608 1632 := by
  have hsize : HEADER_SIZE = 1632 := rfl
  have hfield : slice (pad 2048 hdr ++ tail) 64 576 = slice hdr 64 576 :=
    slice_congr (fun n _ _ => header_front hlen (by omega))
  have hextra : slice (pad 2048 hdr ++ tail) 608 1632 = slice ref 608 1632 := by
    refine slice_congr (fun n hn hn' => ?_)
    rw [header_front hlen (by omega), hpatched.kept n (by unfold Rewritten; omega),
      List.getElem?_take, if_pos (by omega)]
  rw [commandLine, hfield, hextra, hpatched.cmdline raw hraw]

theorem ljust_1536 {raw : Bytes} (h : raw.length < 512) :
    ljust raw 1536 = ljust raw 512 ++ zeros 1024 := by
  have hsum : 1536 - raw.length = (512 - raw.length) + 1024 := by omega
  rw [ljust, ljust, List.append_assoc, hsum, zeros, zeros, zeros, List.replicate_append_replicate]

/-- **The image is right** up to the extra field of the command line. -/
theorem RefImage.rebuilt_iff (h : RefImage ref) (he : Encodable a kernel dt) : ∃ image,
    mkboot a (some ref) kernel none dt = .ok image ∧
      (Rebuilt a ref (Part.all.map (fun p => (p, sectionOf ref p))) kernel dt image ↔
        (a.cmdline.isSome = true → slice ref 608 1632 = zeros 1024)) := by
  obtain ⟨hdr, id, himage, hh, hpatched⟩ := h.mkboot_ok he
  refine ⟨_, himage, ⟨fun hr hsome => ?_, fun hextra => ?_⟩⟩
  · obtain ⟨raw, hraw⟩ := Option.isSome_iff_exists.mp hsome
    have hcmdline := hr.cmdline raw hraw
    rw [commandLine_eq hh.length hpatched hraw, ljust_1536 (he.cmdline raw hraw)] at hcmdline
    exact List.append_cancel_left hcmdline
  · exact
      { parses := hh.parts_ok he.kernel (length_sectionOf_lt ref .ramdisk) he.dt
        kept := by
          intro i hi hnot
          rw [header_front hh.length hi, hpatched.kept i (fun hw => hnot (.inl hw)),
            List.getElem?_take, if_pos hi]
        cmdline := by
          intro raw hraw
          rw [commandLine_eq hh.length hpatched hraw, ljust_1536 (he.cmdline raw hraw),
            hextra (Option.isSome_iff_exists.mpr ⟨raw, hraw⟩)] }

/-- **The reference mode is right** exactly where what it takes from the reference is there, and
nothing is left of the old command line. -/
theorem ref_mode_iff (a : Args) (ref kernel dt : Bytes) : RefMode a ref kernel dt ↔
    (RefImage ref → Encodable a kernel dt → SafeReference a ref) := by
  constructor
  · intro hmode himg he
    obtain ⟨image, himage, hiff⟩ := himg.rebuilt_iff he
    have hcut : ¬ (Cut ref .kernel ∨ Cut ref .ramdisk) := fun hcut =>
      hmode.refused (himg.truncated_iff.mpr hcut) image himage
    refine ⟨fun h => hcut (.inl h), fun h => hcut (.inr h), fun hsome hwhole => ?_⟩
    obtain ⟨image', himage', hr⟩ :=
      hmode.rebuilt _ ((himg.parts_ok_iff _).mpr ⟨hwhole, rfl⟩) he
    obtain rfl : image = image' := Except.ok.inj (himage.symm.trans himage')
    exact hiff.mp hr hsome
  · intro hsafe
    constructor
    · intro own hown he
      have himg : RefImage ref := refImage_of_parts (.inl ⟨own, hown⟩)
      obtain ⟨hwhole, rfl⟩ := (himg.parts_ok_iff own).mp hown
      obtain ⟨image, himage, hiff⟩ := himg.rebuilt_iff he
      exact ⟨image, himage, hiff.mpr (fun hsome => (hsafe himg he).extra hsome hwhole)⟩
    · intro htruncated image himage
      have himg : RefImage ref := refImage_of_parts
        (.inr (htruncated.elim (fun h => ⟨_, h⟩) (fun h => ⟨_, h⟩)))
      obtain ⟨draft, -, -, hk, -, hd, hc⟩ := mkboot_inv himage
      have hs := hsafe himg ⟨hk, hd, hc⟩
      exact (himg.truncated_iff.mp htruncated).elim hs.kernel hs.ramdisk

end Image

/-! ## 3. Two references

Each reference breaks one half of the condition. -/

/-- A reference with nothing in it but one byte of a command line that is longer than its field. -/
def longCmdline : Bytes :=
  MAGIC ++ zeros 28 ++ leBytes 4 2048 ++ zeros 568 ++ [0x78] ++ zeros 1439

/-- A reference with a ramdisk of one byte, cut off behind its header. -/
def noRamdisk : Bytes := MAGIC ++ zeros 8 ++ leBytes 4 1 ++ zeros 16 ++ leBytes 4 2048 ++ zeros 2008

theorem refImage_longCmdline : RefImage longCmdline :=
  ⟨by simp [longCmdline, MAGIC], rfl, by decide +kernel⟩

theorem refImage_noRamdisk : RefImage noRamdisk :=
  ⟨by simp [noRamdisk, MAGIC], rfl, by decide +kernel⟩

/-- **The old command line runs on** behind the new one; and of a ramdisk that is cut off, what is
there is packed. -/
theorem cmdline_runs_on : ¬ RefMode { cmdline := some [0x72, 0x6f] } longCmdline [0x4d] [] ∧
    ¬ RefMode {} noRamdisk [0x4d] [] := by
  constructor
  · intro hmode
    have he : Encodable { cmdline := some [0x72, 0x6f] } [0x4d] [] :=
      ⟨by simp, by simp, by simp⟩
    have hwhole : ∀ p, ¬ Cut longCmdline p := by
      intro p
      cases p <;> decide +kernel
    obtain ⟨image, himage, hiff⟩ := refImage_longCmdline.rebuilt_iff he
    obtain ⟨image', himage', hr⟩ :=
      hmode.rebuilt _ ((refImage_longCmdline.parts_ok_iff _).mpr ⟨hwhole, rfl⟩) he
    obtain rfl : image = image' := Except.ok.inj (himage.symm.trans himage')
    exact absurd (hiff.mp hr rfl) (by decide +kernel)
  · intro hmode
    have he : Encodable {} [0x4d] [] := ⟨by simp, by simp, by simp⟩
    have hcut : Cut noRamdisk .ramdisk := by decide +kernel
    obtain ⟨image, himage, -⟩ := refImage_noRamdisk.rebuilt_iff he
    exact hmode.refused (refImage_noRamdisk.truncated_iff.mpr (.inr hcut)) image himage

end S9p.Boot
