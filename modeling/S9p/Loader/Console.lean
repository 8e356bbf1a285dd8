/-
# The loader's console

`printk` of the bootloader and its one sink, the framebuffer of `simplefb.c`.  A glyph is a bitmap
of 8 by 16 pixels, drawn `scale_f` times as large where the pen is; the pen goes to a new line
where the next glyph would leave the screen on the right, and the screen is wiped where it would
leave it at the bottom.  Only the height of the pen is kept from one text to the next.

* `printed_inside`: whatever is printed, in whatever order, no byte outside the framebuffer is
  written, and no glyph is cut off at an edge of the screen.
* `fontScale_eq`: the loop that chooses the scale of a screen that has none comes to the square
  root of its diagonal.

Sums and products are those of `int` (`wrap`), and a screen may well be too large for them: with
30000 by 30000 pixels the wipe is told to fill the whole address space.  `Roomy` says that the
framebuffer has less than 2 GiB and a stride with room for its pixels, `Screen` that the screen has
room for the text and that the pen, which newlines move down without a limit, cannot go so far down
in one message that its height overflows.
-/
import Mathlib.Data.Nat.Sqrt
import Mathlib.Tactic.Linarith
import Mathlib.Tactic.Ring
import S9p.Loader.Str

namespace S9p.Loader

open Bytes Memory

/-! ## 1. The framebuffer

All numbers of the screen are `int`, and so is what is computed from them.  The memory behind the
framebuffer is as large as it has to be, so what falls outside can be said. -/

/-- `video_format`. -/
inductive VideoFormat where
  | rgb888
  | argb8888
  | abgr8888
  | bgra8888
  | rgb565

/-- `color`. -/
structure Color where
  r : UInt8
  g : UInt8
  b : UInt8
  a : UInt8

/-- What 32 bits keep of an `int`. -/
def wrap (z : Int) : Int := z.bmod (2 ^ 32)

/-- `struct video_info`; the stride is that of a pixel. -/
structure VideoInfo where
  format : VideoFormat
  width : Int
  height : Int
  stride : Int
  scale : Int
  scaleF : Int
  address : Nat

def FONTW : Int := 8
def FONTH : Int := 16
def FB_TEXT_TOP_PADDING : Int := 5

/-- `SCALED_FONTW` and `SCALED_FONTH`. -/
def VideoInfo.fontW (fb : VideoInfo) : Int := wrap (FONTW * fb.scaleF)
def VideoInfo.fontH (fb : VideoInfo) : Int := wrap (FONTH * fb.scaleF)

/-- How many bytes the framebuffer has. -/
def VideoInfo.size (fb : VideoInfo) : Nat := (fb.width * fb.height * fb.stride).toNat

/-- `clean_fbmem`; the `int` is turned into a `size_t`. -/
def cleanFbmem (fb : VideoInfo) (m : Mem) : Mem :=
  memset m fb.address 0 (wrap (fb.width * fb.height * fb.stride) % 2 ^ 64).toNat

/-- The bytes of a pixel. -/
def pixel (c : Color) : VideoFormat → Bytes
  | .argb8888 => [c.b, c.g, c.r, c.a]
  | .abgr8888 => [c.r, c.g, c.b, c.a]
  | .bgra8888 => [c.a, c.r, c.g, c.b]
  | .rgb888 => [c.b, c.g, c.r]
  | .rgb565 => leBytes 2
      ((c.r.toNat >>> 3) <<< 11 ||| (c.g.toNat >>> 2) <<< 5 ||| c.b.toNat >>> 3)

/-- `draw_pixel`. -/
def drawPixel (fb : VideoInfo) (c : Color) (m : Mem) (x y : Int) : Mem :=
  if x < 0 ∨ fb.width ≤ x ∨ y < 0 ∨ fb.height ≤ y then m
  else
    let location := wrap (x * fb.stride + y * fb.width * fb.stride)
    store m (fb.address + location).toNat (pixel c fb.format)

/-! ## 2. Text

A text is gone through once for its prefix and once for itself, with the height of the pen handed
on.  Where a character goes and what is drawn there are kept apart: `place` needs no memory and
`paint` no pen. -/

/-- `x`, `y`: the loop of the integer square root, from there on. -/
def newton (n x y : Nat) : Nat := if y < x then newton n y ((y + n / y) / 2) else x
termination_by x

/-- `get_font_scale_factor`.  A negative `n`, like 0, does not enter the loop and is clamped to 1;
and `n + 1` does not overflow, since a sum of two squares is never 3 modulo 4. -/
def fontScale (fb : VideoInfo) : Int :=
  if fb.scale ≠ 0 then fb.scale
  else
    let n := (wrap (fb.width * fb.width + fb.height * fb.height)).toNat
    let scale : Int := ((newton n n ((n + 1) / 2) / 750 : Nat) : Int)
    if scale < 1 then 1 else scale

/-- What is done for one character: nothing, or a glyph is drawn, on a wiped screen or not. -/
inductive Mark where
  | skip
  | glyph (wiped : Bool) (x y : Int)

/-- Where a character goes, and the pen after it. -/
def place (fb : VideoInfo) (textX : Int) (pen : Int × Int) (ch : UInt8) : Mark × (Int × Int) :=
  let pen := if ch = 10 then (textX, wrap (pen.2 + fb.fontH)) else if ch = 13 then (textX, pen.2)
    else pen
  if ch < 32 then (.skip, pen)
  else
    let pen := if wrap (fb.width - fb.fontW) < pen.1 then (textX, wrap (pen.2 + fb.fontH)) else pen
    if wrap (fb.height - fb.fontH) ≤ pen.2 then
      (.glyph true textX FB_TEXT_TOP_PADDING, (wrap (textX + fb.fontW), FB_TEXT_TOP_PADDING))
    else (.glyph false pen.1 pen.2, (wrap (pen.1 + fb.fontW), pen.2))

/-- `font_index`. -/
def fontIndex (ch : UInt8) : Nat := ch.toNat - 32

section Printing

variable (fb : VideoInfo) (letters : Nat → Nat → UInt8)

/-- The character as a scaled bitmap. -/
def drawGlyph (c : Color) (ix : Nat) (cx cy : Int) (m : Mem) : Mem :=
  (List.range FONTH.toNat).foldl (fun m y =>
    (List.range FONTW.toNat).foldl (fun m x =>
      if 0 < (letters ix y).toNat <<< x &&& 0x80 then
        (List.range fb.scaleF.toNat).foldl (fun m dy =>
          (List.range fb.scaleF.toNat).foldl (fun m dx =>
            drawPixel fb c m (wrap (cx + x * fb.scaleF + dx)) (wrap (cy + y * fb.scaleF + dy)))
              m) m
      else m) m) m

/-- What a mark does to the framebuffer. -/
def paint (c : Color) (ch : UInt8) (m : Mem) : Mark → Mem
  | .skip => m
  | .glyph wiped x y =>
    drawGlyph fb letters c (fontIndex ch) x y (if wiped then cleanFbmem fb m else m)

/-- The loop of `__simplefb_raw_print`. -/
def printLoop (c : Color) (textX : Int) : Bytes → Mem → Int × Int → Mem × (Int × Int)
  | [], m, pen => (m, pen)
  | ch :: text, m, pen =>
    printLoop c textX text (paint fb letters c ch m (place fb textX pen ch).1)
      (place fb textX pen ch).2

/-- Memory, and the static `last_y`. -/
structure Con where
  mem : Mem
  lastY : Int

/-- Where a text begins. -/
def Con.top (con : Con) (textY : Int) : Int := if con.lastY = 0 then textY else con.lastY

/-- The characters in front of the NUL. -/
def cstr (text : Bytes) : Bytes := text.takeWhile (· ≠ 0)

/-- `__simplefb_raw_print`. -/
def rawPrint (con : Con) (text : Bytes) (textX textY : Int) (c : Color) : Con :=
  let r := printLoop fb letters c textX (cstr text) con.mem (textX, con.top textY)
  ⟨r.1, r.2.2⟩

/-- `level_color`. -/
def levelColor : List Color :=
  [⟨255, 0, 0, 255⟩, ⟨255, 165, 0, 255⟩, ⟨255, 255, 0, 255⟩, ⟨255, 0, 0, 255⟩, ⟨255, 255, 0, 255⟩,
    ⟨0, 255, 0, 255⟩, ⟨255, 192, 0, 255⟩, ⟨128, 128, 128, 255⟩]

def bodyColor : Color := ⟨128, 128, 128, 255⟩

/-- What belongs to a level, which may be none of the eight. -/
def ofLevel {α : Type} (l : List α) (level : Int) (other : α) : α :=
  if 0 ≤ level ∧ level < l.length then (l[level.toNat]?).getD other else other

/-- `simplefb_console_write`. -/
def consoleWrite (con : Con) (level : Int) (head msg : Bytes) : Con :=
  let pc := ofLevel levelColor level ⟨255, 255, 255, 255⟩
  let headWidth := wrap (((cstr head).length : Int) * FONTW * fontScale fb)
  let con := rawPrint fb letters con head 0 FB_TEXT_TOP_PADDING pc
  rawPrint fb letters con msg headWidth FB_TEXT_TOP_PADDING bodyColor

/-- `log_prefix`. -/
def logPrefix (level : Int) : Bytes :=
  ofLevel (["[EMERG] ", "[ALERT] ", "[CRIT] ", "[ERROR] ", "[WARN] ", "[NOTICE] ", "[INFO] ",
    "[DEBUG] "].map (fun s => s.toUTF8.data.toList)) level "[UNKNOWN] ".toUTF8.data.toList

def CONFIG_LOGLEVEL : Int := 7
def PRINTK_BUFFER_SIZE : Nat := 256

/-- `printk` of a text that is formatted already, once the console is registered. -/
def printk (con : Con) (level : Int) (text : Bytes) : Con :=
  if CONFIG_LOGLEVEL < level then con
  else consoleWrite fb letters con level (logPrefix level) (text.take (PRINTK_BUFFER_SIZE - 1))

/-- Messages one after the other. -/
def printAll (con : Con) (msgs : List (Int × Bytes)) : Con :=
  msgs.foldl (fun con msg => printk fb letters con msg.1 msg.2) con

end Printing

variable {fb : VideoInfo} {letters : Nat → Nat → UInt8} {m : Mem} {p : Nat} {c : Color}
  {textX : Int} {pen : Int × Int} {ch : UInt8} {con : Con} {text : Bytes}

/-- What fits is kept. -/
theorem wrap_eq {z : Int} (hlow : -2 ^ 31 ≤ z) (hhigh : z < 2 ^ 31) : wrap z = z :=
  Int.bmod_eq_of_le (by norm_num; omega) (by norm_num; omega)

/-! ## 3. The scale

The loop is Newton's, started above the root, and ends where it no longer falls. -/

/-- A step does not go below the root. -/
theorem sqrt_le_mean {n x : Nat} (hx : 0 < x) : n.sqrt ≤ (x + n / x) / 2 := by
  have hsq : n.sqrt * n.sqrt ≤ n := Nat.sqrt_le n
  have hdiv : n < x * (n / x + 1) := Nat.lt_mul_div_succ n hx
  rw [Nat.le_div_iff_mul_le (by decide)]
  by_contra hlt
  obtain ⟨k, hk⟩ : ∃ k, n.sqrt * 2 = x + n / x + 1 + k := ⟨_, (Nat.add_sub_of_le (by omega)).symm⟩
  nlinarith [Nat.mul_le_mul_left x (Nat.le_add_right (n / x + 1) k), sq_nonneg ((n.sqrt : Int) - x)]

/-- Above the root, the loop goes down to it. -/
theorem newton_eq {n : Nat} (x : Nat) (hx : 0 < x) (h : n.sqrt ≤ x) :
    newton n x ((x + n / x) / 2) = n.sqrt := by
  induction x using Nat.strong_induction_on with
  | h x ih =>
    have hmean := sqrt_le_mean (n := n) hx
    rw [newton]
    split
    · rename_i hlt
      rcases Nat.eq_zero_or_pos ((x + n / x) / 2) with hzero | hpos
      · rw [hzero] at hmean ⊢
        rw [newton, if_neg (Nat.not_lt_zero _)]
        omega
      · exact ih _ hlt hpos hmean
    · rename_i hstop
      have hle : x ≤ n / x := by omega
      have hsq : x * x ≤ n := (Nat.le_div_iff_mul_le hx).mp hle
      exact (Nat.le_antisymm h (Nat.le_sqrt.mpr hsq)).symm

theorem newton_start (n : Nat) : newton n n ((n + 1) / 2) = n.sqrt := by
  rcases Nat.eq_zero_or_pos n with rfl | hn
  · rw [newton, if_neg (by decide)]
    rfl
  · have hstart : (n + 1) / 2 = (n + n / n) / 2 := by rw [Nat.div_self hn]
    rw [hstart, newton_eq n hn (Nat.sqrt_le_self n)]

/-- **The scale of a screen** that has none of its own: one for each 750 pixels of the diagonal,
and at least one. -/
theorem fontScale_eq (h : fb.scale = 0)
    (hsmall : fb.width * fb.width + fb.height * fb.height < 2 ^ 31) :
    fontScale fb =
      max 1 (((fb.width * fb.width + fb.height * fb.height).toNat.sqrt / 750 : Nat) : Int) := by
  have hw : 0 ≤ fb.width * fb.width := mul_self_nonneg _
  have hh : 0 ≤ fb.height * fb.height := mul_self_nonneg _
  rw [fontScale, if_neg (by simp [h]), wrap_eq (by omega) hsmall]
  simp only [newton_start]
  split <;> omega

/-- A screen of 1440 by 2960. -/
theorem fontScale_eq_qhd : fontScale ⟨.argb8888, 1440, 2960, 4, 0, 0, 0⟩ = 4 := by
  have hsqrt : Nat.sqrt 10835200 = 3291 := Nat.eq_sqrt.mpr (by norm_num) |>.symm
  have hsum : (1440 * 1440 + 2960 * 2960 : Int).toNat = 10835200 := rfl
  exact (fontScale_eq rfl (by norm_num)).trans (by rw [hsum, hsqrt]; rfl)

/-! ## 4. Inside the framebuffer

A pixel that is drawn is on the screen, because `drawPixel` looks; that it is in the framebuffer
then takes that the products are exact. -/

/-- An address outside the framebuffer. -/
def Outside (fb : VideoInfo) (p : Nat) : Prop := p < fb.address ∨ fb.address + fb.size ≤ p

/-- A pixel has room in its stride, and an `int` for the number of bytes. -/
structure Roomy (fb : VideoInfo) : Prop where
  stride : ∀ c, ((pixel c fb.format).length : Int) ≤ fb.stride
  width : 0 ≤ fb.width
  height : 0 ≤ fb.height
  size : fb.width * fb.height * fb.stride < 2 ^ 31

theorem Roomy.size_eq (hr : Roomy fb) : (fb.size : Int) = fb.width * fb.height * fb.stride := by
  have hstride : 0 ≤ fb.stride :=
    (Int.natCast_nonneg _).trans (hr.stride ⟨0, 0, 0, 0⟩)
  exact Int.toNat_of_nonneg (Int.mul_nonneg (Int.mul_nonneg hr.width hr.height) hstride)

/-- A pixel of the screen lies in the framebuffer. -/
theorem pixel_inside {x y : Int} {k : Nat} (hk : (k : Int) ≤ fb.stride) (hx : 0 ≤ x)
    (hxw : x < fb.width) (hy : 0 ≤ y) (hyh : y < fb.height) :
    0 ≤ x * fb.stride + y * fb.width * fb.stride ∧
      x * fb.stride + y * fb.width * fb.stride + k ≤ fb.size := by
  have hs : 0 ≤ fb.stride := le_trans (Int.natCast_nonneg k) hk
  have hline : 0 ≤ fb.width * fb.stride := Int.mul_nonneg (by omega) hs
  have hcol : (x + 1) * fb.stride ≤ fb.width * fb.stride :=
    Int.mul_le_mul_of_nonneg_right (by omega) hs
  have hrow : (y + 1) * (fb.width * fb.stride) ≤ fb.height * (fb.width * fb.stride) :=
    Int.mul_le_mul_of_nonneg_right (by omega) hline
  have hsize : (fb.width * fb.height * fb.stride : Int) ≤ fb.size := Int.self_le_toNat _
  have hx' : 0 ≤ x * fb.stride := Int.mul_nonneg hx hs
  have hy' : 0 ≤ y * (fb.width * fb.stride) := Int.mul_nonneg hy hline
  constructor
  · rw [Int.mul_assoc]
    omega
  · have hexp : (y + 1) * (fb.width * fb.stride) =
        y * fb.width * fb.stride + fb.width * fb.stride := by ring
    have hexp' : (x + 1) * fb.stride = x * fb.stride + fb.stride := by ring
    have hexp'' : fb.height * (fb.width * fb.stride) = fb.width * fb.height * fb.stride := by ring
    omega

theorem drawPixel_outside (hr : Roomy fb) (hp : Outside fb p) (x y : Int) :
    drawPixel fb c m x y p = m p := by
  unfold drawPixel
  split
  · rfl
  · rename_i hin
    obtain ⟨hlow, hhigh⟩ := pixel_inside (x := x) (y := y) (hr.stride c) (by omega) (by omega)
      (by omega) (by omega)
    have hsize := hr.size_eq
    have hsmall := hr.size
    rw [wrap_eq (by omega) (by omega)]
    unfold Outside at hp
    exact store_outside (by omega)

theorem foldl_keeps {α : Type} {f : Mem → α → Mem} (hf : ∀ m a, f m a p = m p) (l : List α)
    (m : Mem) : l.foldl f m p = m p := by
  induction l generalizing m with
  | nil => rfl
  | cons a l ih => rw [List.foldl_cons, ih, hf]

theorem drawGlyph_outside (hr : Roomy fb) (hp : Outside fb p) (ix : Nat) (cx cy : Int) :
    drawGlyph fb letters c ix cx cy m p = m p := by
  refine foldl_keeps (fun m y => foldl_keeps (fun m x => ?_) _ _) _ _
  split
  · exact foldl_keeps (fun m dy => foldl_keeps (fun m dx => drawPixel_outside hr hp _ _) _ _) _ _
  · rfl

theorem cleanFbmem_outside (hr : Roomy fb) (hp : Outside fb p) : cleanFbmem fb m p = m p := by
  have hsize := hr.size_eq
  have hsmall := hr.size
  have hint : (wrap (fb.width * fb.height * fb.stride) % 2 ^ 64).toNat = fb.size := by
    rw [wrap_eq (by omega) hsmall]
    omega
  have hle : written fb.address fb.size ≤ fb.size := by
    unfold written LBLOCKSIZE
    split <;> omega
  unfold Outside at hp
  rw [cleanFbmem, hint, memset_eq, filled_outside (by omega)]

theorem paint_outside (hr : Roomy fb) (hp : Outside fb p) (mark : Mark) :
    paint fb letters c ch m mark p = m p := by
  cases mark with
  | skip => rfl
  | glyph wiped x y =>
    rw [paint, drawGlyph_outside hr hp]
    cases wiped with
    | false => rfl
    | true => exact cleanFbmem_outside hr hp

theorem printLoop_outside (hr : Roomy fb) (hp : Outside fb p) :
    (printLoop fb letters c textX text m pen).1 p = m p := by
  induction text generalizing m pen with
  | nil => rfl
  | cons ch text ih => rw [printLoop, ih, paint_outside hr hp]

theorem printk_outside (hr : Roomy fb) (hp : Outside fb p) (level : Int) :
    (printk fb letters con level text).mem p = con.mem p := by
  unfold printk consoleWrite rawPrint
  split
  · rfl
  · exact (printLoop_outside hr hp).trans (printLoop_outside hr hp)

/-! ## 5. On the screen

Here the sums of the pen count as well.  Between two characters the pen is somewhere on the screen,
or below it after newlines, and comes back with the next glyph. -/

/-- What is drawn for a text, character by character. -/
def marks (fb : VideoInfo) (textX : Int) : Bytes → Int × Int → List Mark
  | [], _ => []
  | ch :: text, pen => (place fb textX pen ch).1 :: marks fb textX text (place fb textX pen ch).2

/-- The loop paints the marks, one for each character. -/
theorem printLoop_eq : (printLoop fb letters c textX text m pen).1 =
    (text.zip (marks fb textX text pen)).foldl (fun m r => paint fb letters c r.1 m r.2) m := by
  induction text generalizing m pen with
  | nil => rfl
  | cons ch text ih => rw [printLoop, ih, marks, List.zip_cons_cons, List.foldl_cons]

/-- The whole of a glyph is on the screen. -/
def OnScreen (fb : VideoInfo) : Mark → Prop
  | .skip => True
  | .glyph _ x y => 0 ≤ x ∧ x + fb.fontW ≤ fb.width ∧ 0 ≤ y ∧ y + fb.fontH ≤ fb.height

/-- The screen has room for the longest prefix and a character behind it, and for a line; and the
height of a pen that a message has taken as far down as newlines can is still an `int`. -/
structure Screen (fb : VideoInfo) : Prop where
  scale : 0 ≤ fb.scale
  scaleF : fb.scaleF = fontScale fb
  width : 11 * (FONTW * fb.scaleF) ≤ fb.width
  height : FB_TEXT_TOP_PADDING + FONTH * fb.scaleF ≤ fb.height
  right : fb.width < 2 ^ 31
  below : fb.height + 512 * (FONTH * fb.scaleF) < 2 ^ 31

/-- The font is as large as it should be, and all sums that are formed are exact. -/
structure Sizes (fb : VideoInfo) (w h : Int) : Prop where
  fontW : fb.fontW = w
  fontH : fb.fontH = h
  wPos : 0 < w
  hPos : 0 < h
  scaled : FONTW * fontScale fb = w
  width : 11 * w ≤ fb.width
  height : FB_TEXT_TOP_PADDING + h ≤ fb.height
  right : fb.width < 2 ^ 31
  below : fb.height + 512 * h < 2 ^ 31

theorem Screen.sizes (hs : Screen fb) : Sizes fb (FONTW * fb.scaleF) (FONTH * fb.scaleF) := by
  have hscale : 0 < fb.scaleF := by
    rw [hs.scaleF, fontScale]
    have := hs.scale
    split
    · omega
    · simp only
      split <;> omega
  have hw : 0 < FONTW * fb.scaleF := Int.mul_pos (by decide) hscale
  have hh : 0 < FONTH * fb.scaleF := Int.mul_pos (by decide) hscale
  have htop : FB_TEXT_TOP_PADDING = 5 := rfl
  have hheight := hs.height
  have hwidth := hs.width
  have hright := hs.right
  have hbelow := hs.below
  exact ⟨wrap_eq (by omega) (by omega), wrap_eq (by omega) (by omega), hw, hh, by rw [← hs.scaleF],
    hwidth, hheight, hright, hbelow⟩

section Pen

variable {w h : Int} (hs : Sizes fb w h)
include hs

variable (ch) in
/-- **One character.**  The pen goes down by a line at most, and after a glyph there is room for
another line. -/
theorem place_onScreen (h0 : 0 ≤ textX) (htext : textX + w ≤ fb.width)
    (hpen : 0 ≤ pen.1 ∧ 0 ≤ pen.2) (hlow : pen.2 + h < 2 ^ 31) :
    OnScreen fb (place fb textX pen ch).1 ∧
      (0 ≤ (place fb textX pen ch).2.1 ∧ 0 ≤ (place fb textX pen ch).2.2) ∧
      (place fb textX pen ch).2.2 ≤ pen.2 + h ∧
      (32 ≤ ch → (place fb textX pen ch).2.2 + h ≤ fb.height) := by
  obtain ⟨hfw, hfh, hw, hh, -, hwidth, hheight, hright, hbelow⟩ := hs
  have htop : FB_TEXT_TOP_PADDING = 5 := rfl
  unfold place
  simp only [hfw, hfh]
  rw [wrap_eq (z := pen.2 + h) (by omega) hlow, wrap_eq (z := fb.width - w) (by omega) (by omega),
    wrap_eq (z := fb.height - h) (by omega) (by omega),
    wrap_eq (z := textX + w) (by omega) (by omega)]
  by_cases hch : ch < 32
  · -- no glyph, and perhaps a new line
    have hnot : ¬ 32 ≤ ch := fun hle => absurd hch (UInt8.not_lt.mpr hle)
    simp only [if_pos hch]
    refine ⟨trivial, ?_, ?_, fun hle => absurd hle hnot⟩
    · split_ifs <;> exact ⟨by omega, by omega⟩
    · split_ifs <;> omega
  · have hne : ch ≠ 10 ∧ ch ≠ 13 := by
      constructor <;> rintro rfl <;> exact hch (by decide)
    simp only [if_neg hch, if_neg hne.1, if_neg hne.2]
    -- the pen once it is known to be in front of the right edge
    rw [wrap_eq (z := pen.2 + h) (by omega) hlow]
    generalize hr : (if fb.width - w < pen.1 then (textX, pen.2 + h) else pen) = r
    have hr' : 0 ≤ r.1 ∧ r.1 + w ≤ fb.width ∧ 0 ≤ r.2 ∧ r.2 ≤ pen.2 + h := by
      subst hr
      split <;> exact ⟨by omega, by omega, by omega, by omega⟩
    rw [wrap_eq (z := r.1 + w) (by omega) (by omega)]
    split
    · simp only [OnScreen, hfw, hfh]
      omega
    · simp only [OnScreen, hfw, hfh]
      omega

/-- **One text.** -/
theorem marks_onScreen (h0 : 0 ≤ textX) (htext : textX + w ≤ fb.width)
    (hpen : 0 ≤ pen.1 ∧ 0 ≤ pen.2) (hlow : pen.2 + text.length * h < 2 ^ 31) :
    (∀ mark ∈ marks fb textX text pen, OnScreen fb mark) ∧
      0 ≤ (printLoop fb letters c textX text m pen).2.2 ∧
      (printLoop fb letters c textX text m pen).2.2 ≤ pen.2 + text.length * h ∧
      (text ≠ [] → (∀ ch ∈ text, 32 ≤ ch) →
        (printLoop fb letters c textX text m pen).2.2 + h ≤ fb.height) := by
  have hh := hs.hPos
  induction text generalizing m pen with
  | nil => exact ⟨by simp [marks], hpen.2, by simp [printLoop], fun hne => absurd rfl hne⟩
  | cons ch text ih =>
    have hlen : ((ch :: text).length : Int) * h = text.length * h + h := by
      rw [List.length_cons]
      push_cast
      ring
    have hrest : 0 ≤ (text.length : Int) * h := Int.mul_nonneg (Int.natCast_nonneg _) hh.le
    obtain ⟨hmark, hpen', hdown, hroom⟩ := place_onScreen ch hs h0 htext hpen (by omega)
    obtain ⟨hmarks, hy, hle, hline⟩ :=
      ih (m := paint fb letters c ch m (place fb textX pen ch).1) hpen' (by omega)
    refine ⟨fun mark hmem => ?_, hy, ?_, fun _ hall => ?_⟩
    · rcases List.mem_cons.mp hmem with rfl | hmem
      · exact hmark
      · exact hmarks mark hmem
    · rw [printLoop]
      omega
    · obtain ⟨hch, htail⟩ := List.forall_mem_cons.mp hall
      rw [printLoop]
      cases text with
      | nil => exact hroom hch
      | cons ch' text => exact hline (by simp) htail

/-- Where the pen can be between two messages. -/
def Between (fb : VideoInfo) (h : Int) (con : Con) : Prop :=
  0 ≤ con.lastY ∧ con.lastY ≤ fb.height + 256 * h

omit hs in
theorem Between.top (hcon : Between fb h con) (hheight : FB_TEXT_TOP_PADDING ≤ fb.height)
    (hh : 0 ≤ h) : 0 ≤ con.top FB_TEXT_TOP_PADDING ∧
      con.top FB_TEXT_TOP_PADDING ≤ fb.height + 256 * h := by
  obtain ⟨hlow, hhigh⟩ := hcon
  have htop : FB_TEXT_TOP_PADDING = 5 := rfl
  unfold Con.top
  split <;> constructor <;> omega

theorem rawPrint_onScreen (h0 : 0 ≤ textX) (htext : textX + w ≤ fb.width)
    (hcon : Between fb h con) (hlen : (cstr text).length ≤ 255) :
    (∀ mark ∈ marks fb textX (cstr text) (textX, con.top FB_TEXT_TOP_PADDING),
      OnScreen fb mark) ∧
      0 ≤ (rawPrint fb letters con text textX FB_TEXT_TOP_PADDING c).lastY ∧
      (rawPrint fb letters con text textX FB_TEXT_TOP_PADDING c).lastY ≤
        con.top FB_TEXT_TOP_PADDING + 255 * h ∧
      (cstr text ≠ [] → (∀ ch ∈ cstr text, 32 ≤ ch) →
        (rawPrint fb letters con text textX FB_TEXT_TOP_PADDING c).lastY + h ≤ fb.height) := by
  have hh := hs.hPos
  have hheight := hs.height
  have hbelow := hs.below
  obtain ⟨htop, hhigh⟩ := hcon.top (by omega) hh.le
  have hmul : ((cstr text).length : Int) * h ≤ 255 * h :=
    Int.mul_le_mul_of_nonneg_right (by exact_mod_cast hlen) hh.le
  obtain ⟨hmarks, hy, hle, hline⟩ := @marks_onScreen fb letters con.mem c textX
    (textX, con.top FB_TEXT_TOP_PADDING) (cstr text) w h hs h0 htext ⟨h0, htop⟩
    (by dsimp only; omega)
  refine ⟨hmarks, hy, ?_, hline⟩
  unfold rawPrint
  dsimp only at hle ⊢
  omega

end Pen

/-- What is drawn for a message. -/
def printedMarks (fb : VideoInfo) (letters : Nat → Nat → UInt8) (con : Con) (level : Int)
    (text : Bytes) : List Mark :=
  if CONFIG_LOGLEVEL < level then []
  else
    let head := logPrefix level
    let headWidth := wrap (((cstr head).length : Int) * FONTW * fontScale fb)
    let con' := rawPrint fb letters con head 0 FB_TEXT_TOP_PADDING
      (ofLevel levelColor level ⟨255, 255, 255, 255⟩)
    marks fb 0 (cstr head) (0, con.top FB_TEXT_TOP_PADDING) ++
      marks fb headWidth (cstr (text.take (PRINTK_BUFFER_SIZE - 1)))
        (headWidth, con'.top FB_TEXT_TOP_PADDING)

/-- A prefix is a word of at most ten characters, all of which are drawn. -/
theorem logPrefix_line (level : Int) : cstr (logPrefix level) ≠ [] ∧
    (∀ ch ∈ cstr (logPrefix level), 32 ≤ ch) ∧ (cstr (logPrefix level)).length ≤ 10 := by
  have hall : ∀ l ∈ "[UNKNOWN] ".toUTF8.data.toList :: (["[EMERG] ", "[ALERT] ", "[CRIT] ",
      "[ERROR] ", "[WARN] ", "[NOTICE] ", "[INFO] ", "[DEBUG] "].map
        (fun s => s.toUTF8.data.toList)), cstr l ≠ [] ∧ (∀ ch ∈ cstr l, 32 ≤ ch) ∧
          (cstr l).length ≤ 10 := by decide +kernel
  refine hall _ ?_
  unfold logPrefix ofLevel
  split
  · cases hget : (["[EMERG] ", "[ALERT] ", "[CRIT] ", "[ERROR] ", "[WARN] ", "[NOTICE] ",
        "[INFO] ", "[DEBUG] "].map (fun s => s.toUTF8.data.toList))[level.toNat]? with
    | none => exact List.mem_cons_self
    | some l => exact List.mem_cons_of_mem _ (List.mem_of_getElem? hget)
  · exact List.mem_cons_self

/-- **One message.**  Its prefix takes the pen back onto the screen, however far down it was. -/
theorem printk_onScreen {w h : Int} (hs : Sizes fb w h) (hcon : Between fb h con) (level : Int)
    (text : Bytes) :
    (∀ mark ∈ printedMarks fb letters con level text, OnScreen fb mark) ∧
      Between fb h (printk fb letters con level text) := by
  obtain ⟨hne, hprinted, hlen⟩ := logPrefix_line level
  have hw := hs.wPos
  have hh := hs.hPos
  have hwidth := hs.width
  have hheight := hs.height
  have hright := hs.right
  -- the text begins behind the prefix, with room for a character
  have hhead : 0 ≤ wrap (((cstr (logPrefix level)).length : Int) * FONTW * fontScale fb) ∧
      wrap (((cstr (logPrefix level)).length : Int) * FONTW * fontScale fb) + w ≤ fb.width := by
    have hmul : ((cstr (logPrefix level)).length : Int) * w ≤ 10 * w :=
      Int.mul_le_mul_of_nonneg_right (by exact_mod_cast hlen) hw.le
    have h0 := Int.mul_nonneg (Int.natCast_nonneg (cstr (logPrefix level)).length) hw.le
    rw [Int.mul_assoc, hs.scaled, wrap_eq (by omega) (by omega)]
    omega
  unfold printedMarks printk consoleWrite
  split
  · exact ⟨by simp, hcon⟩
  · obtain ⟨hfirst, hy, -, hline⟩ := @rawPrint_onScreen fb letters
      (ofLevel levelColor level ⟨255, 255, 255, 255⟩) 0 con (logPrefix level) w h hs
      le_rfl (by omega) hcon (by omega)
    have hafter := hline hne hprinted
    have hlength : (cstr (text.take (PRINTK_BUFFER_SIZE - 1))).length ≤ 255 :=
      (List.takeWhile_sublist _).length_le.trans (List.length_take_le _ _)
    dsimp only
    generalize rawPrint fb letters con (logPrefix level) 0 FB_TEXT_TOP_PADDING
      (ofLevel levelColor level ⟨255, 255, 255, 255⟩) = con' at hy hafter ⊢
    have hcon' : Between fb h con' := ⟨hy, by omega⟩
    obtain ⟨hsecond, hy', hle, -⟩ := @rawPrint_onScreen fb letters bodyColor _ con'
      (text.take (PRINTK_BUFFER_SIZE - 1)) w h hs hhead.1 hhead.2 hcon' hlength
    refine ⟨fun mark hmem => ?_, hy', hle.trans ?_⟩
    · rcases List.mem_append.mp hmem with hmem | hmem
      · exact hfirst mark hmem
      · exact hsecond mark hmem
    · unfold Con.top
      split <;> omega

/-- **Whatever is printed** since the console was registered, no byte outside the framebuffer has
been written, and of the next message no glyph is cut off. -/
theorem printed_inside (hr : Roomy fb) (hs : Screen fb) (hcon : con.lastY = 0)
    (msgs : List (Int × Bytes)) :
    (∀ p, Outside fb p → (printAll fb letters con msgs).mem p = con.mem p) ∧
    ∀ level text, ∀ mark ∈ printedMarks fb letters (printAll fb letters con msgs) level text,
      OnScreen fb mark := by
  have hsizes := hs.sizes
  have hrun : ∀ con : Con, Between fb (FONTH * fb.scaleF) con →
      (∀ p, Outside fb p → (printAll fb letters con msgs).mem p = con.mem p) ∧
        Between fb (FONTH * fb.scaleF) (printAll fb letters con msgs) := by
    induction msgs with
    | nil => exact fun con hcon => ⟨fun _ _ => rfl, hcon⟩
    | cons msg msgs ih =>
      intro con hcon
      obtain ⟨hrest, hy⟩ := ih _ (printk_onScreen hsizes hcon msg.1 msg.2).2
      exact ⟨fun p hp => (hrest p hp).trans (printk_outside hr hp msg.1), hy⟩
  have hstart : Between fb (FONTH * fb.scaleF) con := by
    have hh := hsizes.hPos
    have := hr.height
    exact ⟨by omega, by omega⟩
  obtain ⟨hout, hy⟩ := hrun con hstart
  exact ⟨hout, fun level text => (printk_onScreen hsizes hy level text).1⟩

/-- `starlte_fb`, with the scale of the probe. -/
def starlteFb : VideoInfo where
  format := .argb8888
  width := 1440
  height := 2960
  stride := 4
  scale := 2
  scaleF := 2
  address := 0xcc000000

theorem starlteFb_roomy : Roomy starlteFb := ⟨fun _ => le_rfl, by decide, by decide, by decide⟩

theorem starlteFb_screen : Screen starlteFb :=
  ⟨by decide, by decide, by decide, by decide, by decide, by decide⟩

/-- On the phone's screen. -/
theorem printed_inside_starlte :
    (∀ p, Outside starlteFb p →
      (printAll starlteFb (fun _ _ => 0x18) ⟨fun _ => 1, 0⟩ [(6, [65, 10]), (3, [66])]).mem p = 1) ∧
    ∀ level text, ∀ mark ∈ printedMarks starlteFb (fun _ _ => 0x18)
      (printAll starlteFb (fun _ _ => 0x18) ⟨fun _ => 1, 0⟩ [(6, [65, 10]), (3, [66])]) level text,
      OnScreen starlteFb mark :=
  printed_inside starlteFb_roomy starlteFb_screen rfl _

end S9p.Loader
