/-
# The charger

The input current limit of the MAX77705 is a field of one register.  The interrupt of its current
loop lowers the limit step by step until the input holds, and userspace sets it at any time; what is
read of the field and what is written back are two transfers.

* `limit_kept_iff`: the limit never comes to be higher than the highest that was ever asked for,
  exactly if the handler never finds it at 0 with the input still too weak.
* `floatVoltage_iff`: for which voltages the one that is set, as the driver reads it back, is not
  above the one asked for, and how far below it is.

The highest limit, and not the last: between its two transfers the handler may be overtaken by
userspace setting a lower limit, and then writes back one less than what it read before.
-/
import S9p.Lib.Prog
import Mathlib.Data.BitVec

namespace S9p.Charger

open Device

/-! ## 1. The handler

The handler runs in a thread of its own and may go on for any number of rounds, as long as the input
does not hold. -/

abbrev Word := BitVec 32

/-- Transfers that may fail. -/
inductive Op where
  | regmapReadIntOk
  | regmapFieldRead
  | regmapFieldWrite (regval : Word)

@[reducible] def Ans : Op → Type
  | .regmapReadIntOk => Option Bool
  | .regmapFieldRead => Option Word
  | .regmapFieldWrite _ => Bool

abbrev P := Prog Op Ans

def perform (o : Op) : P (Ans o) := Prog.perform o

/-- What is left of `max77705_aicl_irq`: at most so many rounds, before each the look at AICL_I. -/
def aiclRounds : Nat → P Unit
  | 0 => pure ()
  | n + 1 => do
    match ← perform .regmapReadIntOk with
    | none => pure ()
    | some true => pure ()
    | some false =>
      match ← perform .regmapFieldRead with
      | none => pure ()
      | some regval =>
        let err ← perform (.regmapFieldWrite (regval - 1))
        if err then pure () else aiclRounds n

/-! ## 2. The charger

A transfer that has been lost and one that is reported as failed are two things, and either may come
without the other.  A step of the environment is userspace at its store. -/

/-- The field, which is at most a register wide.  No step reads `asked`, the highest limit that was
ever asked for.  It is there to say what the limit has to stay below. -/
structure Chgin (n : Fin 8) where
  lim : BitVec (n + 1)
  asked : Nat

/-- Whether a transfer fails, whether it is lost, and whether the input holds. -/
structure Answer where
  err : Bool
  lost : Bool
  aicl : Bool

variable {n : Fin 8}

/-- What a transfer does.  A write may fail and reach the field all the same; a reading that fails
changes nothing. -/
def act (s : Chgin n) (ch : Answer) : (o : Op) → Ans o × Chgin n
  | .regmapReadIntOk => (if ch.err then none else some ch.aicl, s)
  | .regmapFieldRead => (if ch.err then none else some (s.lim.setWidth 32), s)
  | .regmapFieldWrite regval =>
    (ch.err, if ch.lost then s else { s with lim := regval.setWidth (n + 1) })

/-- Userspace sets the limit, with one write of the field (`max77705_set_integer`), which may get
lost.  The limit it had asked for before counts no less for that. -/
def Chgin.set (s : Chgin n) (v : BitVec (n + 1)) (lost : Bool) : Chgin n :=
  ⟨if lost then s.lim else v, max s.asked v.toNat⟩

/-- A call of the handler goes through any number of rounds. -/
def charger (n : Fin 8) : System Op Ans (Chgin n) (BitVec (n + 1) × Bool) Answer Nat Unit where
  env := fun e s => some (s.set e.1 e.2)
  act := fun o ch s => some (act s ch o)
  init := fun s => s.lim.toNat ≤ s.asked
  enabled := fun _ _ => true
  call := aiclRounds

/-- With the input too weak, the handler finds only such limits. -/
def finds (weak : BitVec (n + 1) → Bool) (_ : Nat) (s : Chgin n) : (o : Op) → Answer → Bool
  | .regmapFieldRead, ch => ch.err || weak s.lim
  | _, _ => true

/-! ## 3. The limit

Each round writes one less than it has read.  What it has read may be out of date by then, but is no
higher than what somebody had asked for. -/

/-- Nobody has asked for less. -/
def Within (s : Chgin n) : Prop := s.lim.toNat ≤ s.asked

theorem within_set {s : Chgin n} (hs : Within s) (v : BitVec (n + 1)) (lost : Bool) :
    Within (s.set v lost) := by
  cases lost with
  | false => exact Nat.le_max_right ..
  | true => exact hs.trans (Nat.le_max_left ..)

theorem within_stable : (charger n).toDevice.Stable Within := by
  rintro ⟨v, lost⟩ s _ ⟨⟩ hs
  exact within_set hs v lost

/-- A limit that was once within what was asked for, is. -/
theorem asked_stable (v : Nat) : (charger n).toDevice.Stable (fun s => Within s ∧ v ≤ s.asked) := by
  rintro ⟨x, lost⟩ s _ ⟨⟩ ⟨hs, hv⟩
  exact ⟨within_set hs x lost, hv.trans (Nat.le_max_left ..)⟩

/-- **One step down.** -/
theorem lowered {v : BitVec (n + 1)} (hv : v ≠ 0#(n + 1)) :
    ((v.setWidth 32 - 1).setWidth (n + 1)).toNat = v.toNat - 1 := by
  have hlt := v.isLt
  have hpow : 2 ^ (n.val + 1) ≤ 2 ^ 8 := Nat.pow_le_pow_right (by decide) (by omega)
  have hpos : v.toNat ≠ 0 := fun h => hv (BitVec.eq_of_toNat_eq (by simpa using h))
  have hwide : (v.setWidth 32).toNat = v.toNat := by
    rw [BitVec.toNat_setWidth, Nat.mod_eq_of_lt (by omega)]
  have hsub : (v.setWidth 32 - 1).toNat = v.toNat - 1 := by
    rw [BitVec.toNat_sub, hwide, show (1 : Word).toNat = 1 by decide]
    omega
  rw [BitVec.toNat_setWidth, hsub, Nat.mod_eq_of_lt (by omega)]

variable {weak : BitVec (n + 1) → Bool} {s : Chgin n}

theorem wp_aiclRounds (hweak : weak 0#(n + 1) = false) (k c : Nat) (hs : Within s) :
    wp (charger n).toDevice (finds weak c) (fun t _ => Within t) (aiclRounds k)
      (fun _ t => Within t)
      s := by
  have hdone : ∀ t : Chgin n, Within t →
    wp (charger n).toDevice (finds weak c) (fun t _ => Within t)
      (pure ()) (fun _ t => Within t) t :=
    fun _ ht => wp_ret within_stable ht (fun _ h => h) (fun _ h => h)
  induction k generalizing s with
  | zero => exact hdone s hs
  | succ k ih =>
    refine wp_op within_stable hs (fun _ h => h) (fun s ch r t hs hok hact => ?_)
    obtain rfl : s = t := (Prod.mk.inj (Option.some.inj hact)).2
    rcases r with _ | _ | _
    · exact hdone s hs
    · refine wp_op within_stable hs (fun _ h => h) (fun s ch r t hs hok hact => ?_)
      obtain ⟨hread, rfl⟩ := Prod.mk.inj (Option.some.inj hact)
      rcases r with _ | regval
      · exact hdone s hs
      · obtain ⟨herr, rfl⟩ : ch.err = false ∧ s.lim.setWidth 32 = regval := by
          cases herr : ch.err <;> simp_all
        -- what has been read is not 0, and stays within what was asked for
        have hne : s.lim ≠ 0#(n + 1) := by
          intro hzero
          simp [finds, herr, hzero, hweak] at hok
        refine wp_op (asked_stable s.lim.toNat) ⟨hs, hs⟩ (fun _ h => h.1)
          (fun t ch r u ht hok hact => ?_)
        obtain ⟨-, rfl⟩ := Prod.mk.inj (Option.some.inj hact)
        have hwritten : Within (act t ch (.regmapFieldWrite (s.lim.setWidth 32 - 1))).2 := by
          simp only [act]
          split
          · exact ht.1
          · unfold Within
            rw [lowered hne]
            exact (Nat.sub_le _ _).trans ht.2
        rcases r with _ | _
        · exact ih hwritten
        · exact hdone _ hwritten
    · exact hdone s hs

/-- From 0 the limit goes to the highest there is. -/
theorem jumps (hweak : weak 0#(n + 1) = true) :
    ∃ s th, (charger n).Reach (finds weak) s th ∧ s.asked < s.lim.toNat := by
  have hstart : (charger n).Reach (finds weak) ⟨0, 0⟩ none := .boot (Nat.le_refl 0)
  have hlow := (hstart.start 1 rfl).op ⟨false, false, false⟩ rfl rfl
  have hok : finds weak 1 ⟨0, 0⟩ .regmapFieldRead ⟨false, false, false⟩ = true := hweak
  have hjump : ∃ th, (charger n).Reach (finds weak)
      ⟨((0#(n + 1)).setWidth 32 - 1).setWidth (n + 1), 0⟩ th :=
    ⟨_, (hlow.op _ hok rfl).op ⟨false, false, false⟩ rfl rfl⟩
  obtain ⟨th, hjump⟩ := hjump
  refine ⟨_, th, hjump, Nat.pos_of_ne_zero (fun hzero => ?_)⟩
  have hbit : (((0#(n + 1)).setWidth 32 - 1).setWidth (n + 1)).getLsbD 0 = true := by
    simp
  have hnone : ((0#(n + 1)).setWidth 32 - 1).setWidth (n + 1) = 0#(n + 1) :=
    BitVec.eq_of_toNat_eq (hzero.trans (by simp))
  rw [hnone] at hbit
  exact absurd hbit (by simp)

/-- **The limit stays within what was asked for exactly if the handler never finds it at 0** with
the input too weak, whatever fails and whenever userspace sets it. -/
theorem limit_kept_iff (weak : BitVec (n + 1) → Bool) :
    (∀ s th, (charger n).Reach (finds weak) s th → s.lim.toNat ≤ s.asked) ↔
      weak 0#(n + 1) = false := by
  constructor
  · intro hkept
    by_contra hweak
    obtain ⟨s, th, hreach, hlt⟩ := jumps (Bool.not_eq_false _ ▸ hweak)
    exact absurd (hkept s th hreach) (by omega)
  · intro hweak s th hreach
    have hholds : (charger n).Holds (finds weak) Within (fun _ _ t _ => Within t)
        (fun _ _ _ t => Within t) s th :=
      System.reach_holds (fun _ h => h) within_stable
        (fun c _ hs _ => wp_aiclRounds hweak c c hs) (fun _ _ _ _ h => h) hreach
    cases th with
    | none => exact hholds
    | some th => exact hholds.mid

/-! ## 4. The float voltage

The driver computes a code from a voltage and back, each in ranges.  The two computations are
compared for every voltage. -/

/-- The code that `max77705_set_float_voltage` writes. -/
def setFloatVoltage (floatVoltage : Int) : Nat :=
  let mv := floatVoltage.tdiv 1000
  if mv ≤ 4000 then 0x0
  else if mv ≥ 4500 then 0x23
  else if mv ≤ 4200 then ((mv - 4000).tdiv 50).toNat
  else ((mv - 4200).tdiv 10 + 0x04).toNat

/-- `max77705_get_float_voltage` -/
def getFloatVoltage (regData : Nat) : Int :=
  let mv : Int := if regData ≤ 0x04 then regData * 50 + 4000 else (regData - 4) * 10 + 4200
  mv * 1000

section Float

variable {v : Int}

theorem set_low (h : v < 4001000) : setFloatVoltage v = 0 := by
  have hmv : v.tdiv 1000 ≤ 4000 := by
    rcases Int.le_total 0 v with hpos | hneg
    · rw [Int.tdiv_eq_ediv_of_nonneg hpos]
      omega
    · have hle := Int.tdiv_le_tdiv (c := 1000) (by decide) hneg
      rw [Int.zero_tdiv] at hle
      omega
  simp [setFloatVoltage, hmv]

theorem set_eq (h : 4001000 ≤ v) : setFloatVoltage v =
    if 4500 ≤ v / 1000 then 0x23
    else if v / 1000 ≤ 4200 then ((v / 1000 - 4000) / 50).toNat
    else ((v / 1000 - 4200) / 10 + 4).toNat := by
  have hmv : v.tdiv 1000 = v / 1000 := Int.tdiv_eq_ediv_of_nonneg (by omega)
  have hlow : ¬ v / 1000 ≤ 4000 := by omega
  simp only [setFloatVoltage, hmv, hlow, if_false, ge_iff_le]
  split
  · rfl
  · split
    · rw [Int.tdiv_eq_ediv_of_nonneg (by omega)]
    · rw [Int.tdiv_eq_ediv_of_nonneg (by omega)]

/-- What is read back in the four ranges. -/
theorem get_set (v : Int) : getFloatVoltage (setFloatVoltage v) =
    if v < 4001000 then 4000000
    else if v < 4201000 then 4000000 + (v / 1000 - 4000) / 50 * 50000
    else if v < 4500000 then 4200000 + (v / 1000 - 4200) / 10 * 10000
    else 4510000 := by
  by_cases hlow : v < 4001000
  · rw [set_low hlow, if_pos hlow]
    rfl
  · rw [set_eq (by omega), if_neg hlow]
    by_cases hhigh : 4500 ≤ v / 1000
    · rw [if_pos hhigh, if_neg (by omega), if_neg (by omega)]
      rfl
    · rw [if_neg hhigh]
      by_cases hmid : v / 1000 ≤ 4200
      · rw [if_pos hmid, if_pos (by omega)]
        unfold getFloatVoltage
        rw [if_pos (by omega)]
        dsimp only
        omega
      · rw [if_neg hmid, if_neg (by omega), if_pos (by omega)]
        unfold getFloatVoltage
        dsimp only
        split
        · omega
        · omega

/-- **What is set is not above what was asked for** exactly from 4.0 V up to 4.5 V, and from 4.51 V
on: for 4.5 V the driver sets the code it reads as 4.51 V.  From 4.0 V up to 4.5 V it is less than a
step below, which is 50 mV up to 4.2 V and 10 mV from there on, and each code but the one for 4.5 V
comes back. -/
theorem floatVoltage_iff :
    (∀ v, getFloatVoltage (setFloatVoltage v) ≤ v ↔ 4000000 ≤ v ∧ v < 4500000 ∨ 4510000 ≤ v) ∧
    (∀ v, 4000000 ≤ v → v < 4500000 →
      v < getFloatVoltage (setFloatVoltage v) + if v < 4200000 then 50000 else 10000) ∧
    ∀ c, setFloatVoltage (getFloatVoltage c) = c ↔ c ≤ 35 ∧ c ≠ 34 := by
  refine ⟨fun v => ?_, fun v hlow hhigh => ?_, fun c => ?_⟩
  · rw [get_set]
    split
    · omega
    · split
      · omega
      · split <;> omega
  · rw [get_set]
    by_cases hstep : v < 4200000
    · rw [if_pos hstep]
      split
      · omega
      · rw [if_pos (by omega)]
        omega
    · rw [if_neg hstep, if_neg (by omega)]
      split
      · omega
      · omega
  · unfold getFloatVoltage
    dsimp only
    split
    · by_cases hzero : c = 0
      · subst hzero
        exact ⟨fun _ => by decide, fun _ => by decide⟩
      · rw [set_eq (by omega)]
        split
        · omega
        · split <;> omega
    · rw [set_eq (by omega)]
      split
      · omega
      · split <;> omega

end Float

end S9p.Charger
