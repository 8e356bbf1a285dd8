/-
# What PLL_CON0 is programmed to

The M, P and S fields of PLL_CON0 decide the rate of PLL_G3D.  Everything else the drivers do
to the register (the source selection, ENABLE, the status bits they read and write back)
leaves the fields alone.
-/
import S9p.G3d.Clock

namespace S9p.G3d

open Field

/-! ## 1. Rates

The rate is computed as the driver's comment has it, from the fields as numbers.  It is a `Nat`
division, so a divider of zero gives zero. -/

/-- The rate the fields say, from the 26 MHz oscillator. -/
def pllKhz (v : Word) : Nat :=
  if field 8 0x3f#32 v = 0 then 0
  else 26000 * (field 16 0x3ff#32 v).toNat / (field 8 0x3f#32 v).toNat /
    2 ^ (field 0 0x7#32 v).toNat

/-- The fields are those of the step. -/
def Programmed (st : Step) (v : Word) : Prop :=
  field 16 0x3ff#32 v = st.m.setWidth 32 ∧ field 8 0x3f#32 v = st.p.setWidth 32 ∧
    field 0 0x7#32 v = st.s.setWidth 32

instance (st : Step) (v : Word) : Decidable (Programmed st v) :=
  inferInstanceAs (Decidable (_ ∧ _ ∧ _))

theorem isStep_iff {st : Step} {v : Word} :
    isStep v st = true ↔ Programmed st v ∧ selected v = true := by
  simp [isStep, Programmed]

/-- Only the bits under the mask count. -/
theorem field_congr_pms (off : Nat) (mask : Word) {a b : Word}
    (hsub : PLL_CON0_PMS_MASK &&& (mask <<< off) = mask <<< off)
    (h : a &&& PLL_CON0_PMS_MASK = b &&& PLL_CON0_PMS_MASK) :
    field off mask a = field off mask b := by
  refine field_congr ?_
  rw [← hsub, ← BitVec.and_assoc, ← BitVec.and_assoc, h]

theorem pllKhz_congr {a b : Word} (h : a &&& PLL_CON0_PMS_MASK = b &&& PLL_CON0_PMS_MASK) :
    pllKhz a = pllKhz b := by
  unfold pllKhz
  rw [field_congr_pms 8 0x3f#32 (by decide) h, field_congr_pms 16 0x3ff#32 (by decide) h,
    field_congr_pms 0 0x7#32 (by decide) h]

theorem programmed_congr {st : Step} {a b : Word}
    (h : a &&& PLL_CON0_PMS_MASK = b &&& PLL_CON0_PMS_MASK) :
    Programmed st a ↔ Programmed st b := by
  unfold Programmed
  rw [field_congr_pms 8 0x3f#32 (by decide) h, field_congr_pms 16 0x3ff#32 (by decide) h,
    field_congr_pms 0 0x7#32 (by decide) h]

/-! ## 2. The table

Three steps, and so a finite question each: all of this is decided by going through the table. -/

/-- Every step is programmed by its own fields, and they give its rate. -/
theorem step_pms : ∀ st ∈ steps, Programmed st st.pms ∧ pllKhz st.pms = st.khz := by
  decide

/-- A word whose fields are those of a step says its rate. -/
theorem Programmed.khz {st : Step} {v : Word} (hst : st ∈ steps) (h : Programmed st v) :
    pllKhz v = st.khz := by
  obtain ⟨hpms, hkhz⟩ := step_pms st hst
  rw [← hkhz]
  unfold pllKhz
  rw [h.1, h.2.1, h.2.2, hpms.1, hpms.2.1, hpms.2.2]

theorem target_mem (k : Statics) : target k ∈ steps := stepBelow_mem _

theorem find_spec {khz : Nat} {st : Step} (h : find khz = some st) : st ∈ steps ∧ st.khz = khz :=
  ⟨List.mem_of_find?_eq_some h, by simpa using List.find?_some h⟩

/-! ## 3. What is written and read

The drivers or bits into a word from which they have cleared the mask before.  On the fields that is
the same as writing them. -/

/-- A read shows the fields and the selection as they were last written. -/
theorem shows_con0 {s : Gpu} {l : Luck} {v : Word} (h : s.shows l .con0 = some v) :
    v &&& PLL_CON0_PMS_MASK = s.regs .con0 &&& PLL_CON0_PMS_MASK ∧
      v &&& PLL_CON0_MUX_SEL = s.regs .con0 &&& PLL_CON0_MUX_SEL := by
  simp only [Gpu.shows] at h
  split at h
  · simp only [Option.some.injEq] at h
    subst h
    exact ⟨by rw [withBit_and (by decide), withBit_and (by decide)],
      by rw [withBit_and (by decide), withBit_and (by decide)]⟩
  · exact absurd h (by simp)

theorem selected_congr {a b : Word} (h : a &&& PLL_CON0_MUX_SEL = b &&& PLL_CON0_MUX_SEL) :
    selected a = selected b := by
  unfold selected
  rw [h]

theorem selected_or (v : Word) : selected (v ||| PLL_CON0_MUX_SEL) = true := by
  unfold selected
  rw [or_and_self]
  decide

/-- A read shows a step exactly if it is programmed and selected. -/
theorem isStep_shows {s : Gpu} {l : Luck} {v : Word} {st : Step}
    (h : s.shows l .con0 = some v) : isStep v st = isStep (s.regs .con0) st := by
  obtain ⟨hpms, hsel⟩ := shows_con0 h
  rw [Bool.eq_iff_iff, isStep_iff, isStep_iff, programmed_congr hpms, selected_congr hsel]

/-- New fields, or-ed into a word whose fields have been cleared. -/
theorem pms_or {v x : Word} (h : v &&& PLL_CON0_PMS_MASK = 0#32) :
    (v ||| x) &&& PLL_CON0_PMS_MASK = x &&& PLL_CON0_PMS_MASK := by
  have hdistrib : (v ||| x) &&& PLL_CON0_PMS_MASK =
      (v &&& PLL_CON0_PMS_MASK) ||| (x &&& PLL_CON0_PMS_MASK) := by
    ext i hi
    simp only [BitVec.getElem_and, BitVec.getElem_or, Bool.and_or_distrib_right]
  rw [hdistrib, h, BitVec.zero_or]

theorem pms_cleared (v : Word) :
    v &&& ~~~(PLL_CON0_ENABLE ||| PLL_CON0_PMS_MASK) &&& PLL_CON0_PMS_MASK = 0#32 := by
  rw [BitVec.and_assoc, show ~~~(PLL_CON0_ENABLE ||| PLL_CON0_PMS_MASK) &&& PLL_CON0_PMS_MASK = 0#32
    by decide, BitVec.and_zero]

/-- What `s9p_g3d_set_pll` programs, with ENABLE and without. -/
theorem programmed_set {st : Step} (hst : st ∈ steps) (v : Word) :
    let w := v &&& ~~~(PLL_CON0_ENABLE ||| PLL_CON0_PMS_MASK)
    Programmed st (w ||| st.pms) ∧ Programmed st (w ||| PLL_CON0_ENABLE ||| st.pms) := by
  intro w
  have hw : w &&& PLL_CON0_PMS_MASK = 0#32 := pms_cleared v
  have henable : (w ||| PLL_CON0_ENABLE) &&& PLL_CON0_PMS_MASK = 0#32 := by
    rw [or_and (x := PLL_CON0_ENABLE) (by decide), hw]
  have hown := (step_pms st hst).1
  exact ⟨(programmed_congr (pms_or hw)).mpr hown, (programmed_congr (pms_or henable)).mpr hown⟩

/-- Clearing the source selection or ENABLE leaves the rate. -/
theorem pllKhz_clear {v x : Word} (hx : x &&& PLL_CON0_PMS_MASK = 0#32) :
    pllKhz (v &&& ~~~x) = pllKhz v := pllKhz_congr (and_not_and hx)

theorem pllKhz_or {v x : Word} (hx : x &&& PLL_CON0_PMS_MASK = 0#32) :
    pllKhz (v ||| x) = pllKhz v := pllKhz_congr (or_and hx)

/-- With no fields set the PLL makes nothing. -/
theorem pllKhz_cleared (v : Word) :
    pllKhz (v &&& ~~~(PLL_CON0_ENABLE ||| PLL_CON0_PMS_MASK)) = 0 :=
  (pllKhz_congr (b := 0#32) (by rw [pms_cleared, BitVec.zero_and])).trans (by decide)

end S9p.G3d
