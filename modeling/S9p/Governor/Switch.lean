/-
# The userspace governor's clock switch

`go` of `s9p-governor` takes a cluster to a step of its table: up is voltage first and PLL
after it, down is PLL first and voltage after it.  It tells "up" from "down" by looking for the
fields of PLL_CON0 in the table, and it never looks at what the voltage write returned.

* A PLL that is programmed to no step of the table counts as "up" (`cur < 0`), so its rail goes
  to the new step's voltage while the clock still runs at the old rate.  `go_safe_iff` says
  that this is the only way a single switch can go wrong, as long as every write that has to
  raise the rail is acknowledged.
* A switch always ends at its step, whatever the hardware answers (`wp_go`).
-/
import S9p.Lib.Fail
import S9p.Lib.LateReg
import S9p.Lib.Ladder
import S9p.G3d.Pll

namespace S9p.Governor

open Field Device
open S9p.G3d (Word PLL_CON0_ENABLE PLL_CON0_PMS_MASK pllKhz pllKhz_congr pms_or)

/-! ## 1. The tables

The script has tables of its own.  Their MHz are for the log, and the rate that matters is the one
the fields give. -/

inductive Cluster where
  | big
  | little
  | gpu
  deriving DecidableEq

/-- `(MHz, M, P, S, buck code)`. -/
structure Step where
  mhz : Nat
  m : BitVec 16
  p : BitVec 8
  s : BitVec 8
  code : BitVec 8
  deriving DecidableEq

def STEP_BIG : List Step := [
  ⟨1066, 246, 3, 1, 0x40⟩,
  ⟨1469, 452, 4, 1, 0x50⟩,
  ⟨1794, 138, 2, 0, 0x5c⟩,
  ⟨2314, 358, 4, 0, 0x7c⟩,
  ⟨2704, 208, 2, 0, 0x88⟩]

def STEP_LITTLE : List Step := [
  ⟨1053, 243, 3, 1, 0x4b⟩,
  ⟨1499, 173, 3, 0, 0x58⟩,
  ⟨1794, 138, 2, 0, 0x70⟩]

def STEP_GPU : List Step := [
  ⟨260, 160, 4, 2, 0x48⟩,
  ⟨455, 455, 26, 0, 0x58⟩,
  ⟨572, 286, 13, 0, 0x68⟩]

/-- An entry of `CLUSTERS`. -/
structure Entry where
  con0 : Nat
  mux : Option Nat
  buck : BitVec 8
  steps : List Step
  cpus : List Nat

def CLUSTERS : Cluster → Entry
  | .big => ⟨0x1d100120, some 0x1d101000, 0x20, STEP_BIG, [4, 5, 6, 7]⟩
  | .little => ⟨0x1d000140, some 0x1d00100c, 0x23, STEP_LITTLE, [0, 1, 2, 3]⟩
  | .gpu => ⟨0x17400140, none, 0x2b, STEP_GPU, []⟩

/-- `(M << 16) | (P << 8) | S`. -/
def Step.pms (st : Step) : Word :=
  (st.m.setWidth 32 <<< 16) ||| (st.p.setWidth 32 <<< 8) ||| st.s.setWidth 32

/-- The rate the fields give; the MHz of the table are only printed. -/
def Step.khz (st : Step) : Nat := pllKhz st.pms

/-! ## 2. Operations

Registers are reached through `/dev/mem` by their address, and the rails through the same firmware
that the kernel uses. -/

inductive Policy where
  | policy4
  | policy0
  deriving DecidableEq

/-- What the script does: it reads and writes registers through `/dev/mem`, starts the tool for the
PMIC, and writes a ceiling to cpufreq. -/
inductive Op where
  /-- `reg(addr).value` -/
  | rd (addr : Nat)
  | wr (addr : Nat) (v : Word)
  /-- How many looks at a register fit into the 0.1 s of a wait. -/
  | looks
  /-- `acpm_mfd(1, reg_no, val)` -/
  | acpm (reg val : BitVec 8)
  /-- A write to `scaling_max_freq`. -/
  | maxFreq (pol : Policy) (khz : Nat)

@[reducible] def Ans : Op → Type
  | .rd _ => Word
  | .looks => Nat
  | .acpm _ _ => Int
  | _ => Unit

/-- The registers as last written, the rails, and the frequency caps of the kernel. -/
structure Soc where
  mem : Nat → Word
  buck : Cluster → LateReg (BitVec 8)
  cap : Policy → Option Nat

/-- What the hardware decides at an operation: the status bits as they read, the looks of a wait,
how a voltage write ends, and whether the kernel takes a cap.  The looks stand for the time of a
wait: the script counts time and not rounds, and how many rounds fit into it depends on the rest of
the system. -/
structure Luck where
  stable : Bool
  busy : Bool
  looks : Nat
  pmic : LateReg.Outcome
  taken : Bool

def STABLE : Word := 1#32 <<< 29
def BUSY : Word := 1#32 <<< 16
def BYPASS : Word := 1#32 <<< 4

/-- What a register shows: a PLL its lock, a mux that it is still switching. -/
def shown (addr : Nat) (l : Luck) (v : Word) : Word :=
  if addr ∈ [0x1d100120, 0x1d000140, 0x17400140] then withBit v STABLE l.stable
  else if addr ∈ [0x1d101000, 0x1d00100c] then withBit v BUSY l.busy
  else v

/-- The cluster that a BUCK register feeds. -/
def fed (reg : BitVec 8) : Option Cluster :=
  [Cluster.big, .little, .gpu].find? (fun n => (CLUSTERS n).buck = reg)

def Soc.setBuck (s : Soc) (n : Cluster) (r : LateReg (BitVec 8)) : Soc :=
  { s with buck := fun k => if k = n then r else s.buck k }

/-- **What an operation does.**  The hardware's bits show what luck has them show.  The write of the
tool goes to the rail of a cluster, or to none, and may land late; the ceiling of cpufreq may be
refused. -/
def act : (o : Op) → Luck → Soc → Option (Ans o × Soc)
  | .rd addr, l, s => some (shown addr l (s.mem addr), s)
  | .wr addr v, _, s => some ((), { s with mem := fun a => if a = addr then v else s.mem a })
  | .looks, l, s => some (l.looks, s)
  | .acpm reg val, l, s =>
      match fed reg with
      | some n => ((s.buck n).write val l.pmic).map (fun r => (l.pmic.ret, s.setBuck n r))
      | none => some (l.pmic.ret, s)
  | .maxFreq pol khz, l, s =>
      some ((), if l.taken then { s with cap := fun p => if p = pol then some khz else s.cap p }
        else s)

/-- On its own a rail changes only when a failed write lands. -/
def landing (n : Cluster) (s : Soc) : Option Soc := (s.buck n).land.map (s.setBuck n)

def soc : Device Op Ans Soc Cluster Luck where
  env := landing
  act := act

abbrev P := Prog Op Ans

def rd (addr : Nat) : P Word := .perform (Op.rd addr)
def wr (addr : Nat) (v : Word) : P Unit := .perform (Op.wr addr v)
def looks : P Nat := .perform Op.looks
def acpm (reg val : BitVec 8) : P Int := .perform (Op.acpm reg val)

/-! ## 3. `current_step`, `set_pll` and `go`

`go` never looks at the rail, and tells the direction from what it reads of the PLL.  There is no
way for it to fail but a target outside the table. -/

/-- `st[1:4] == mps` -/
def Step.shownBy (st : Step) (v : Word) : Bool :=
  field 16 0x3ff#32 v = st.m.setWidth 32 ∧ field 8 0x3f#32 v = st.p.setWidth 32 ∧
    field 0 0x7#32 v = st.s.setWidth 32

/-- The step the fields of PLL_CON0 are those of. -/
def stepOf (n : Cluster) (v : Word) : Option Nat :=
  (CLUSTERS n).steps.findIdx? (fun st => st.shownBy v)

/-- -1 where the PLL is on no step of the table. -/
def stepIndex (n : Cluster) (v : Word) : Int :=
  match stepOf n v with
  | some i => i
  | none => -1

/-- `current_step`. -/
def currentStep (n : Cluster) : P Int := do
  let v ← rd (CLUSTERS n).con0
  return stepIndex n v

/-- `while mux.value & (1 << 16)`, left when the time is over. -/
def waitMux (mux : Nat) : Nat → P Unit
  | 0 => do
    let _ ← rd mux
    return ()
  | more + 1 => do
    let v ← rd mux
    if v &&& BUSY ≠ 0 then waitMux mux more else return ()

/-- The three writes that take PLL_CON0 to the new fields. -/
def program (con0 : Nat) (v : Word) (st : Step) : P Unit := do
  wr con0 v
  wr con0 (v ||| st.pms)
  wr con0 (v ||| PLL_CON0_ENABLE ||| st.pms)

/-- `set_pll` up to its last look: a CPU cluster waits on the oscillator behind its mux, the GPU
is bypassed to it. -/
def relock (n : Cluster) (st : Step) : P Unit :=
  let con0 := (CLUSTERS n).con0
  match (CLUSTERS n).mux with
  | some mux => do
    wr mux 1
    waitMux mux (← looks)
    let v ← rd con0
    program con0 (v &&& ~~~(PLL_CON0_ENABLE ||| PLL_CON0_PMS_MASK)) st
    wr mux 0
    waitMux mux (← looks)
  | none => do
    wr (con0 + 8) 0x30000003
    let v ← rd con0
    wr con0 (v &&& ~~~BYPASS)
    wr (con0 - 0x140) (150 * st.p.setWidth 32)
    let v ← rd con0
    program con0 (v &&& ~~~(PLL_CON0_ENABLE ||| PLL_CON0_PMS_MASK ||| BYPASS)) st
    let v ← rd con0
    wr con0 (v ||| BYPASS)

/-- `set_pll`: a PLL that does not lock is only printed. -/
def setPll (n : Cluster) (st : Step) : P Unit := do
  relock n st
  let _ ← rd (CLUSTERS n).con0

/-- `acpm_write`: a failure is printed. -/
def acpmWrite (n : Cluster) (code : BitVec 8) : P Unit := do
  let _ ← acpm (CLUSTERS n).buck code

/-- What ends the script with a traceback.  The script catches none of them. -/
inductive Stop where
  | indexError
  | keyError
  | valueError
  deriving DecidableEq

/-- `l[i]` of Python, which counts a negative index from the end. -/
def item {α : Type} (l : List α) (i : Int) : Option α :=
  if 0 ≤ i then l[i.toNat]?
  else if 0 ≤ l.length + i then l[(l.length + i).toNat]?
  else none

/-- `go`. -/
def go (n : Cluster) (target : Int) : ExceptT Stop P Unit := do
  let cur ← currentStep n
  if cur = target then return ()
  else match item (CLUSTERS n).steps target with
    | none => throw .indexError
    | some st =>
      if cur < 0 ∨ ((CLUSTERS n).steps[cur.toNat]?).any (fun old => old.code < st.code) then do
        acpmWrite n st.code
        setPll n st
      else do
        setPll n st
        acpmWrite n st.code

/-! ## 4. What the fields say

Only the fields count, and the tables are short enough to be gone through. -/

/-- Two words with the same fields. -/
def Same (a b : Word) : Prop := a &&& PLL_CON0_PMS_MASK = b &&& PLL_CON0_PMS_MASK

variable {n : Cluster} {a b v : Word} {st : Step} {i : Nat}

theorem con0_mem (n : Cluster) : (CLUSTERS n).con0 ∈ [0x1d100120, 0x1d000140, 0x17400140] := by
  cases n <;> decide

/-- The lock bit is outside the fields. -/
theorem same_shown (n : Cluster) (l : Luck) (v : Word) :
    Same (shown (CLUSTERS n).con0 l v) v := by
  unfold Same shown
  rw [if_pos (con0_mem n), withBit_and (by decide)]

theorem Same.khz (h : Same a b) : pllKhz a = pllKhz b := pllKhz_congr h

theorem Same.shownBy (h : Same a b) (st : Step) : st.shownBy a = st.shownBy b := by
  unfold Step.shownBy
  rw [S9p.G3d.field_congr_pms 16 0x3ff#32 (by decide) h,
    S9p.G3d.field_congr_pms 8 0x3f#32 (by decide) h, S9p.G3d.field_congr_pms 0 0x7#32 (by decide) h]

theorem Same.stepOf (h : Same a b) (n : Cluster) : stepOf n a = stepOf n b := by
  unfold Governor.stepOf
  congr 1
  exact funext h.shownBy

/-- Every step is found again in the fields it is programmed with. -/
theorem stepOf_pms (h : (CLUSTERS n).steps[i]? = some st) : stepOf n st.pms = some i := by
  have htable : ∀ x ∈ (CLUSTERS n).steps.zipIdx, Governor.stepOf n x.1.pms = some x.2 := by
    cases n <;> decide
  exact htable (st, i) (List.mem_zipIdx_iff_getElem?.mpr h)

/-- A PLL on a step of the table makes the rate of that step. -/
theorem khz_of_stepOf (h : stepOf n v = some i) :
    ∃ st, (CLUSTERS n).steps[i]? = some st ∧ pllKhz v = st.khz := by
  obtain ⟨hi, hfound, -⟩ := List.findIdx?_eq_some_iff_getElem.mp h
  refine ⟨_, List.getElem?_eq_getElem hi, ?_⟩
  have hown : ∀ st ∈ (CLUSTERS n).steps, st.shownBy st.pms = true := by cases n <;> decide
  have hself := hown _ (List.getElem_mem hi)
  simp only [Step.shownBy, decide_eq_true_eq] at hfound hself
  unfold Step.khz pllKhz
  rw [hfound.1, hfound.2.1, hfound.2.2, hself.1, hself.2.1, hself.2.2]

/-! ## 5. Assertions about one cluster

`At n R M` says `R` of the rail of `n` and `M` of the registers.  Only the rail moves by itself,
so it is enough that a landing write keeps `R`. -/

section At

/-- A landing write keeps `R`. -/
def Lands (R : LateReg (BitVec 8) → Prop) : Prop := ∀ r r', R r → r.land = some r' → R r'

def At (n : Cluster) (R : LateReg (BitVec 8) → Prop) (M : (Nat → Word) → Prop) (s : Soc) : Prop :=
  R (s.buck n) ∧ M s.mem

/-- One register written. -/
def upd (m : Nat → Word) (addr : Nat) (v : Word) : Nat → Word :=
  fun a => if a = addr then v else m a

@[simp] theorem upd_self (m : Nat → Word) (addr : Nat) (v : Word) : upd m addr v addr = v :=
  if_pos rfl

theorem upd_ne {m : Nat → Word} {addr addr' : Nat} (h : addr' ≠ addr) (v : Word) :
    upd m addr v addr' = m addr' := if_neg h

variable {R : LateReg (BitVec 8) → Prop} {M M' : (Nat → Word) → Prop} {s t : Soc} {α : Type}
  {ok : Soc → (o : Op) → Luck → Bool} {S : Soc → Option Op → Prop} {Q : α → Soc → Prop}
  {addr mux : Nat} {f : Nat} {m : Nat → Word}

theorem setBuck_buck (s : Soc) (n k : Cluster) (r : LateReg (BitVec 8)) :
    (s.setBuck n r).buck k = if k = n then r else s.buck k := rfl

@[simp] theorem setBuck_mem (s : Soc) (n : Cluster) (r : LateReg (BitVec 8)) :
    (s.setBuck n r).mem = s.mem := rfl

theorem at_stable (hR : Lands R) : soc.Stable (At n R M) := by
  rintro k s t h ⟨hr, hm⟩
  obtain ⟨r, hl, rfl⟩ := Option.map_eq_some_iff.mp h
  refine ⟨?_, hm⟩
  rw [setBuck_buck]
  split
  · rename_i hk
    subst hk
    exact hR _ _ hr hl
  · exact hr

theorem wp_wr {k : Unit → P α} (hR : Lands R) (hs : At n R M s)
    (hS : ∀ t o, At n R M t → S t o)
    (hk : ∀ t m, R (t.buck n) → M m → t.mem = upd m addr v → wp soc ok S (k ()) Q t) :
    wp soc ok S (.op (Op.wr addr v) k) Q s :=
  wp_op_eq (fun _ _ => rfl) (at_stable hR) hs (fun t ht => hS t _ ht)
    (fun t _ ht _ => hk _ t.mem ht.1 ht.2 rfl)

theorem wp_rd {k : Word → P α} (hR : Lands R) (hs : At n R M s)
    (hS : ∀ t o, At n R M t → S t o)
    (hk : ∀ t l, At n R M t → wp soc ok S (k (shown addr l (t.mem addr))) Q t) :
    wp soc ok S (.op (Op.rd addr) k) Q s :=
  wp_op_eq (fun _ _ => rfl) (at_stable hR) hs (fun t ht => hS t _ ht) (fun t l ht _ => hk t l ht)

theorem wp_looks {k : Nat → P α} (hR : Lands R) (hs : At n R M s)
    (hS : ∀ t o, At n R M t → S t o) (hk : ∀ t more, At n R M t → wp soc ok S (k more) Q t) :
    wp soc ok S (.op Op.looks k) Q s :=
  wp_op_eq (fun _ _ => rfl) (at_stable hR) hs (fun t ht => hS t _ ht)
    (fun t l ht _ => hk t l.looks ht)

/-- Waiting for the mux changes nothing. -/
theorem wp_waitMux (hR : Lands R) (hS : ∀ t o, At n R M t → S t o) (hs : At n R M s) (more : Nat) :
    wp soc ok S (waitMux mux more) (fun _ => At n R M) s := by
  have huses : ∀ more, (waitMux mux more).Uses (· = Op.rd mux) := by
    intro more
    induction more with
    | zero => exact ⟨rfl, fun v => trivial⟩
    | succ more ih =>
      simp only [waitMux, rd, Prog.perform_bind]
      refine ⟨rfl, fun v => ?_⟩
      dsimp only
      split
      · exact ih
      · trivial
  refine wp_of_uses (at_stable hR) ?_ (fun o t _ ht => hS t _ ht) (fun t ht => hS t _ ht)
    (huses more) hs
  rintro o rfl c t r u ht - hact
  simp only [soc, act, Option.some.injEq, Prod.mk.injEq] at hact
  exact hact.2 ▸ ht

/-- The PLL of `n` makes at most `f`. -/
def Below (n : Cluster) (f : Nat) (m : Nat → Word) : Prop := pllKhz (m (CLUSTERS n).con0) ≤ f

/-- With the fields cleared the PLL makes nothing. -/
theorem khz_cleared (h : Same v 0#32) : pllKhz v ≤ f := by
  rw [h.khz]
  exact Nat.zero_le f

/-- **The three writes**: the rate stays below `f`, and in the end the fields are those of the
step. -/
theorem wp_program (hR : Lands R) (hv : Same v 0#32) (hst : (CLUSTERS n).steps[i]? = some st)
    (hf : st.khz ≤ f) (hs : At n R (Below n f) s) (hS : ∀ t o, At n R (Below n f) t → S t o) :
    wp soc ok S (program (CLUSTERS n).con0 v st)
      (fun _ => At n R (fun m => Below n f m ∧ stepOf n (m (CLUSTERS n).con0) = some i)) s := by
  have hfields : ∀ x : Word, x &&& PLL_CON0_PMS_MASK = 0#32 → Same (x ||| st.pms) st.pms :=
    fun x hx => pms_or hx
  have hclear : v &&& PLL_CON0_PMS_MASK = 0#32 := hv.trans (by decide)
  have henable : (v ||| PLL_CON0_ENABLE) &&& PLL_CON0_PMS_MASK = 0#32 := by
    rw [or_and (by decide), hclear]
  have hplain := hfields v hclear
  have hon := hfields (v ||| PLL_CON0_ENABLE) henable
  simp only [program, wr, Prog.perform_bind]
  refine wp_wr hR hs hS (fun t m hr _ hm => ?_)
  have ht : At n R (Below n f) t := ⟨hr, by rw [Below, hm, upd_self]; exact khz_cleared hv⟩
  refine wp_wr hR ht hS (fun t m hr _ hm => ?_)
  have ht : At n R (Below n f) t :=
    ⟨hr, by rw [Below, hm, upd_self]; exact hplain.khz.le.trans hf⟩
  refine wp_wr hR ht hS (fun t m hr _ hm => ?_)
  have ht : At n R (fun m => Below n f m ∧ stepOf n (m (CLUSTERS n).con0) = some i) t := by
    refine ⟨hr, ?_, ?_⟩
    · rw [Below, hm, upd_self]
      exact hon.khz.le.trans hf
    · rw [hm, upd_self]
      exact (hon.stepOf n).trans (stepOf_pms hst)
  exact wp_ret (at_stable hR) ht (fun t ht => hS t none ⟨ht.1, ht.2.1⟩) (fun _ h => h)

/-- `v & ~((1 << 31) | (0x3ff << 16) | (0x3f << 8) | 7)`, with or without the bypass bit. -/
theorem same_cleared (v x : Word) :
    Same (v &&& ~~~(PLL_CON0_ENABLE ||| PLL_CON0_PMS_MASK ||| x)) 0#32 := by
  have h : ~~~(PLL_CON0_ENABLE ||| PLL_CON0_PMS_MASK ||| x) &&& PLL_CON0_PMS_MASK = 0#32 := by
    ext j hj
    simp only [BitVec.getElem_and, BitVec.getElem_not, BitVec.getElem_or, BitVec.getElem_zero]
    cases PLL_CON0_PMS_MASK[j] <;> simp
  unfold Same
  rw [BitVec.and_assoc, h, BitVec.and_zero, BitVec.zero_and]

theorem mux_ne (h : (CLUSTERS n).mux = some mux) : (CLUSTERS n).con0 ≠ mux := by
  cases n <;> simp only [CLUSTERS, Option.some.injEq, reduceCtorEq] at h
  all_goals subst h; decide

theorem below_upd (h : Below n f m) (hne : (CLUSTERS n).con0 ≠ addr) :
    Below n f (upd m addr v) := by
  rw [Below, upd_ne hne]
  exact h

/-- **The relock**: the rate stays below `f`, and in the end the fields are those of the step. -/
theorem wp_relock (hR : Lands R) (hst : (CLUSTERS n).steps[i]? = some st) (hf : st.khz ≤ f)
    (hs : At n R (Below n f) s) (hS : ∀ t o, At n R (Below n f) t → S t o) :
    wp soc ok S (relock n st)
      (fun _ => At n R (fun m => Below n f m ∧ stepOf n (m (CLUSTERS n).con0) = some i)) s := by
  have hS' : ∀ t o, At n R (fun m => Below n f m ∧ stepOf n (m (CLUSTERS n).con0) = some i) t →
      S t o := fun t o ht => hS t o ⟨ht.1, ht.2.1⟩
  unfold relock
  cases hmux : (CLUSTERS n).mux with
  | some mux =>
    have hne := mux_ne hmux
    simp only [wr, rd, looks, Prog.perform_bind]
    refine wp_wr hR hs hS (fun t m hr hm ht => ?_)
    refine wp_looks hR ⟨hr, ht ▸ below_upd hm hne⟩ hS (fun t more ht => ?_)
    refine wp_bind (wp_mono ?_ (wp_waitMux hR hS ht more))
    intro _ t ht
    refine wp_rd hR ht hS (fun t l ht => ?_)
    refine wp_bind (wp_mono ?_ (wp_program hR (S9p.G3d.pms_cleared _) hst hf ht hS))
    intro _ t ht
    refine wp_wr hR ht hS' (fun t m hr hm ht => ?_)
    refine wp_looks hR ⟨hr, ?_⟩ hS' (fun t more ht => wp_waitMux hR hS' ht more)
    rw [ht, upd_ne hne]
    exact ⟨below_upd hm.1 hne, hm.2⟩
  | none =>
    have hoff (v : Word) : Same (v &&& ~~~BYPASS) v := and_not_and (by decide)
    have hon (v : Word) : Same (v ||| BYPASS) v := or_and (by decide)
    simp only [wr, rd, Prog.perform_bind]
    refine wp_wr hR hs hS (fun t m hr hm ht => ?_)
    refine wp_rd hR ⟨hr, ht ▸ below_upd hm (by omega)⟩ hS (fun t l ht => ?_)
    have hlow : pllKhz (shown (CLUSTERS n).con0 l (t.mem (CLUSTERS n).con0) &&& ~~~BYPASS) ≤ f := by
      rw [(hoff _).khz, (same_shown n l _).khz]
      exact ht.2
    refine wp_wr hR ht hS (fun t m hr _ ht => ?_)
    have ht : At n R (Below n f) t := ⟨hr, by rw [Below, ht, upd_self]; exact hlow⟩
    refine wp_wr hR ht hS (fun t m hr hm ht => ?_)
    have hlock : (CLUSTERS n).con0 ≠ (CLUSTERS n).con0 - 0x140 := by cases n <;> decide
    refine wp_rd hR ⟨hr, ht ▸ below_upd hm hlock⟩ hS (fun t l ht => ?_)
    refine wp_bind (wp_mono ?_ (wp_program hR (same_cleared _ _) hst hf ht hS))
    intro _ t ht
    refine wp_rd hR ht hS' (fun t l ht => ?_)
    have hsame := (hon (shown (CLUSTERS n).con0 l (t.mem (CLUSTERS n).con0))).trans
      (same_shown n l _)
    obtain ⟨hlow, hstep⟩ := ht.2
    refine wp_wr hR ht hS' (fun t m hr _ ht => ?_)
    have hend : At n R (fun m => Below n f m ∧ stepOf n (m (CLUSTERS n).con0) = some i) t := by
      refine ⟨hr, ?_, ?_⟩
      · rw [Below, ht, upd_self]
        exact (Same.khz hsame).le.trans hlow
      · rw [ht, upd_self]
        exact (Same.stepOf hsame n).trans hstep
    exact wp_ret (at_stable hR) hend (fun t ht => hS' t none ht) (fun _ h => h)

theorem wp_setPll (hR : Lands R) (hst : (CLUSTERS n).steps[i]? = some st) (hf : st.khz ≤ f)
    (hs : At n R (Below n f) s) (hS : ∀ t o, At n R (Below n f) t → S t o) :
    wp soc ok S (setPll n st)
      (fun _ => At n R (fun m => Below n f m ∧ stepOf n (m (CLUSTERS n).con0) = some i)) s := by
  have hS' : ∀ t o, At n R (fun m => Below n f m ∧ stepOf n (m (CLUSTERS n).con0) = some i) t →
      S t o := fun t o ht => hS t o ⟨ht.1, ht.2.1⟩
  refine wp_bind (wp_mono ?_ (wp_relock hR hst hf hs hS))
  intro _ t ht
  simp only [rd, Prog.perform_bind]
  exact wp_rd hR ht hS' (fun t l ht => wp_ret (at_stable hR) ht (fun t ht => hS' t none ht)
    (fun _ h => h))

theorem wp_currentStep (hR : Lands R) (hs : At n R M s) (hS : ∀ t o, At n R M t → S t o) :
    wp soc ok S (currentStep n)
      (fun cur t => At n R M t ∧ cur = stepIndex n (t.mem (CLUSTERS n).con0)) s := by
  simp only [currentStep, rd, Prog.perform_bind]
  refine wp_rd hR hs hS (fun t l ht => ?_)
  have hindex : stepIndex n (shown (CLUSTERS n).con0 l (t.mem (CLUSTERS n).con0)) =
      stepIndex n (t.mem (CLUSTERS n).con0) := by
    unfold stepIndex
    rw [(same_shown n l _).stepOf]
  rw [hindex]
  exact wp_ret (P := fun u => At n R M u ∧ u.mem = t.mem)
    ((at_stable hR).and (fun k u w h hu => by
      obtain ⟨r, -, rfl⟩ := Option.map_eq_some_iff.mp h
      exact hu)) ⟨ht, rfl⟩ (fun u hu => hS u none hu.1) (fun u hu => ⟨hu.1, hu.2 ▸ rfl⟩)

theorem fed_buck (n : Cluster) : fed (CLUSTERS n).buck = some n := by cases n <;> decide

theorem wp_acpm {val : BitVec 8} {k : Int → P α} (hR : Lands R) (hs : At n R M s)
    (hS : ∀ t o, At n R M t → S t o)
    (hk : ∀ t l r, At n R M t → ok t (.acpm (CLUSTERS n).buck val) l = true →
      (t.buck n).write val l.pmic = some r → wp soc ok S (k l.pmic.ret) Q (t.setBuck n r)) :
    wp soc ok S (.op (Op.acpm (CLUSTERS n).buck val) k) Q s := by
  refine wp_op (at_stable hR) hs (fun t ht => hS t _ ht) (fun t l ret u ht hok hact => ?_)
  simp only [soc, act, fed_buck] at hact
  obtain ⟨r, hw, heq⟩ := Option.map_eq_some_iff.mp hact
  simp only [Prod.mk.injEq] at heq
  obtain ⟨rfl, rfl⟩ := heq
  exact hk t l r ht hok hw

end At

/-! ## 6. What the rail has to cover

The bound is on the PLL, and not on where the multiplexer stands, since the script lets the cluster
back onto the PLL whatever the waits have shown. -/

/-- The rail value `v` is enough for the rate `f`: some step at least as fast needs no more. -/
def Enough (n : Cluster) (f : Nat) (v : BitVec 8) : Prop :=
  Ladder.Covers Step.khz (fun st => st.code.toNat) (CLUSTERS n).steps v.toNat f

/-- The rate PLL_CON0 is programmed for.  The cluster runs no faster, wherever its mux is. -/
def rate (n : Cluster) (s : Soc) : Nat := pllKhz (s.mem (CLUSTERS n).con0)

/-- **The rail is high enough** for the PLL. -/
def RailSafe (n : Cluster) (s : Soc) : Prop := Enough n (rate n s) (s.buck n).value

/-- The rail, and every write still on its way to it, is enough for the PLL. -/
def Covered (n : Cluster) (s : Soc) : Prop := (s.buck n).All (Enough n (rate n s))

/-- The PLL is programmed to a step of the table. -/
def OnTable (n : Cluster) (s : Soc) : Prop := (stepOf n (s.mem (CLUSTERS n).con0)).isSome

/-- A write of `val` that has to raise the rail of `n`: the PLL is on no step, or on one with a
lower voltage. -/
def raises (n : Cluster) (val : BitVec 8) (s : Soc) : Bool :=
  match stepOf n (s.mem (CLUSTERS n).con0) with
  | none => true
  | some i => ((CLUSTERS n).steps[i]?).any (fun old => old.code < val)

/-- The test on steps: a write that has to raise a rail is acknowledged.  Any other may fail, and
land late.  This is what "with every raise heard" means in the theorems: of the writes that would be
missed, none fails. -/
def heard (s : Soc) : (o : Op) → Luck → Bool
  | .acpm reg val, l => (fed reg).all (fun n => !raises n val s || l.pmic = .acked)
  | _, _ => true

/-! ## 7. One switch

The direction that `go` takes is compared with what the rail needs.  They agree as long as the PLL
is on a step. -/

section Go

variable {s t : Soc} {target : Int} {f g : Nat}

/-- In every table a step with a higher voltage is faster. -/
theorem khz_le_of_code {a b : Step} (ha : a ∈ (CLUSTERS n).steps) (hb : b ∈ (CLUSTERS n).steps)
    (h : a.code.toNat ≤ b.code.toNat) : a.khz ≤ b.khz := by
  have htable : ∀ a ∈ (CLUSTERS n).steps, ∀ b ∈ (CLUSTERS n).steps,
      a.code.toNat ≤ b.code.toNat → a.khz ≤ b.khz := by cases n <;> decide
  exact htable a ha b hb h

/-- The voltage of a step is enough for exactly the rates up to its own. -/
theorem enough_code (hst : st ∈ (CLUSTERS n).steps) : Enough n f st.code ↔ f ≤ st.khz := by
  constructor
  · rintro ⟨a, ha, hf, hcode⟩
    exact hf.trans (khz_le_of_code ha hst hcode)
  · exact fun hf => Ladder.covers_of_mem hst hf

theorem lands_all (n : Cluster) (f : Nat) : Lands (LateReg.All (Enough n f)) :=
  fun _ _ h hl => h.land hl

/-- The registers of a cluster whose rail covers `f` and whose PLL makes no more. -/
theorem At.railSafe {M : (Nat → Word) → Prop} (h : At n (LateReg.All (Enough n f)) M t)
    (hM : ∀ m, M m → Below n f m) : RailSafe n t := h.1.value.anti (hM _ h.2)

theorem At.covered {M : (Nat → Word) → Prop} (h : At n (LateReg.All (Enough n f)) M t)
    (hM : ∀ m, M m → Below n f m) : Covered n t := h.1.mono (fun _ hv => hv.anti (hM _ h.2))

theorem item_mem {α : Type} {l : List α} {j : Int} {x : α} (h : item l j = some x) :
    ∃ i, l[i]? = some x ∧ (0 ≤ j → i = j.toNat) := by
  unfold item at h
  split at h
  · exact ⟨_, h, fun _ => rfl⟩
  · split at h
    · exact ⟨_, h, fun hj => absurd hj ‹_›⟩
    · exact absurd h (by simp)

/-- What `go` takes for "up" is a write that has to raise the rail. -/
theorem raises_iff (n : Cluster) (val : BitVec 8) (s : Soc) :
    raises n val s = true ↔
      stepIndex n (s.mem (CLUSTERS n).con0) < 0 ∨ ((CLUSTERS n).steps[(stepIndex n
        (s.mem (CLUSTERS n).con0)).toNat]?).any (fun old => old.code < val) := by
  unfold raises stepIndex
  cases stepOf n (s.mem (CLUSTERS n).con0) with
  | none => simp
  | some i =>
    simp only [Int.toNat_natCast]
    constructor
    · exact fun h => .inr h
    · rintro (h | h)
      · omega
      · exact h

/-- A PLL from which going to `st` is not up is on a step at least as fast. -/
theorem rate_of_not_raises (hst : st ∈ (CLUSTERS n).steps) (h : raises n st.code s = false) :
    OnTable n s ∧ st.khz ≤ rate n s := by
  unfold raises at h
  split at h
  · exact absurd h (by simp)
  · rename_i j hj
    obtain ⟨old, hold, hrate⟩ := khz_of_stepOf hj
    rw [hold, Option.any_some, decide_eq_false_iff_not] at h
    refine ⟨by rw [OnTable, hj]; rfl, ?_⟩
    rw [rate, hrate]
    exact khz_le_of_code hst (List.mem_of_getElem? hold) (not_lt.mp h)

/-- A PLL from which going to `st` is up makes no more than `st`, unless it is on no step. -/
theorem rate_of_raises (hst : st ∈ (CLUSTERS n).steps) (hon : OnTable n s)
    (h : raises n st.code s = true) : rate n s ≤ st.khz := by
  obtain ⟨j, hj⟩ := Option.isSome_iff_exists.mp hon
  obtain ⟨old, hold, hrate⟩ := khz_of_stepOf hj
  simp only [raises, hj, hold, Option.any_some, decide_eq_true_eq] at h
  rw [rate, hrate]
  exact khz_le_of_code (List.mem_of_getElem? hold) hst (le_of_lt h)

theorem rate_of_stepOf (hst : (CLUSTERS n).steps[i]? = some st)
    (h : stepOf n (s.mem (CLUSTERS n).con0) = some i) : rate n s = st.khz := by
  obtain ⟨st', hst', hrate⟩ := khz_of_stepOf h
  obtain rfl := Option.some.inj (hst.symm.trans hst')
  exact hrate

/-- **One switch** keeps the rail above the clock, if the clock is on a step or the new step's
voltage is enough for it. -/
theorem wp_go_safe (hcov : Covered n s)
    (hknown : OnTable n s ∨ ∀ st, item (CLUSTERS n).steps target = some st →
      Enough n (rate n s) st.code) :
    fwp soc heard (fun t _ => RailSafe n t) (go n target)
      (fun _ t => Covered n t ∧ (OnTable n t ∨ t.mem = s.mem))
      (fun _ t => Covered n t ∧ (OnTable n t ∨ t.mem = s.mem)) s := by
  have hR := lands_all n (rate n s)
  have hsame : At n (LateReg.All (Enough n (rate n s))) (· = s.mem) s := ⟨hcov, rfl⟩
  have hbelow : ∀ m, m = s.mem → Below n (rate n s) m := fun m hm => hm ▸ le_rfl
  have hS : ∀ t (o : Option Op), At n (LateReg.All (Enough n (rate n s))) (· = s.mem) t →
      RailSafe n t := fun t _ ht => ht.railSafe hbelow
  unfold go
  refine fwp_bind (fwp_lift (wp_mono ?_ (wp_currentStep hR hsame hS)))
  rintro cur t ⟨ht, rfl⟩
  split
  · exact fwp_pure (at_stable hR) ht (fun u hu => hS u none hu)
      (fun u hu => ⟨hu.covered hbelow, .inr hu.2⟩)
  · split
    · exact fwp_throw (at_stable hR) ht (fun u hu => hS u none hu)
        (fun u hu => ⟨hu.covered hbelow, .inr hu.2⟩)
    · rename_i st hitem
      obtain ⟨i, hi, -⟩ := item_mem hitem
      have hst := List.mem_of_getElem? hi
      rw [ht.2]
      split
      · rename_i hup
        have hup : raises n st.code s = true := (raises_iff n st.code s).mpr hup
        have hslow : rate n s ≤ st.khz :=
          hknown.elim (fun hon => rate_of_raises hst hon hup)
            (fun h => (enough_code hst).mp (h st hitem))
        refine fwp_bind (fwp_lift ?_)
        simp only [acpmWrite, acpm, Prog.perform_bind]
        refine wp_acpm hR ht hS (fun u l r hu hok hw => ?_)
        -- the write has been heard, so the rail is at the new step's voltage
        have hraises : raises n st.code u = true := by
          rw [← hup]
          unfold raises
          rw [hu.2]
        have hacked : l.pmic = .acked := by
          simpa [heard, fed_buck, hraises] using hok
        have hnew : At n (LateReg.All (Enough n st.khz)) (Below n st.khz) (u.setBuck n r) := by
          refine ⟨?_, ?_⟩
          · rw [setBuck_buck, if_pos rfl]
            exact LateReg.all_acked ((enough_code hst).mpr le_rfl) (hacked ▸ hw)
          · rw [setBuck_mem, hu.2]
            exact hslow
        have hS' : ∀ t (o : Option Op), At n (LateReg.All (Enough n st.khz)) (Below n st.khz) t →
            RailSafe n t := fun t _ ht => ht.railSafe (fun _ h => h)
        refine wp_ret (at_stable (lands_all n st.khz)) hnew (fun t ht => hS' t none ht)
          (fun v hv => fwp_lift (wp_mono ?_ (wp_setPll (lands_all n st.khz) hi le_rfl hv hS')))
        rintro _ w ⟨hrail, hlow, hstep⟩
        exact ⟨At.covered ⟨hrail, hlow⟩ (fun _ h => h), .inl (by rw [OnTable, hstep]; rfl)⟩
      · rename_i hdown
        have hdown : raises n st.code s = false :=
          Bool.eq_false_iff.mpr (fun h => hdown ((raises_iff n st.code s).mp h))
        obtain ⟨-, hslow⟩ := rate_of_not_raises hst hdown
        have hlow : At n (LateReg.All (Enough n (rate n s))) (Below n (rate n s)) t :=
          ⟨ht.1, hbelow _ ht.2⟩
        have hS' : ∀ t (o : Option Op), At n (LateReg.All (Enough n (rate n s)))
            (Below n (rate n s)) t → RailSafe n t := fun t _ ht => ht.railSafe (fun _ h => h)
        refine fwp_bind (fwp_lift (wp_mono ?_ (wp_setPll hR hi hslow hlow hS')))
        rintro _ u ⟨hrail, -, hstep⟩
        have hkhz := rate_of_stepOf hi hstep
        have hend : At n (LateReg.All (Enough n st.khz))
            (fun m => Below n st.khz m ∧ stepOf n (m (CLUSTERS n).con0) = some i) u :=
          ⟨hrail.mono (fun _ hv => hv.anti hslow), hkhz.le, hstep⟩
        have hS' : ∀ t (o : Option Op), At n (LateReg.All (Enough n st.khz))
            (fun m => Below n st.khz m ∧ stepOf n (m (CLUSTERS n).con0) = some i) t →
            RailSafe n t := fun t _ ht => ht.railSafe (fun _ h => h.1)
        simp only [acpmWrite, acpm, Prog.perform_bind]
        refine fwp_lift (wp_acpm (lands_all n st.khz) hend hS' (fun v l r hv _ hw => ?_))
        have hdone : At n (LateReg.All (Enough n st.khz))
            (fun m => Below n st.khz m ∧ stepOf n (m (CLUSTERS n).con0) = some i)
            (v.setBuck n r) := by
          refine ⟨?_, hv.2⟩
          rw [setBuck_buck, if_pos rfl]
          exact LateReg.All.write hv.1 ((enough_code hst).mpr le_rfl) hw
        exact wp_ret (at_stable (lands_all n st.khz)) hdone (fun t ht => hS' t none ht)
          (fun w hw => ⟨hw.covered (fun _ h => h.1), .inl (by rw [OnTable, hw.2.2]; rfl)⟩)

/-- **One switch ends at its step**, whatever the hardware answers. -/
theorem wp_go_ends {ok : Soc → (o : Op) → Luck → Bool} (htarget : 0 ≤ target) :
    fwp soc ok (fun _ _ => True) (go n target)
      (fun _ t => stepOf n (t.mem (CLUSTERS n).con0) = some target.toNat)
      (fun _ _ => item (CLUSTERS n).steps target = none) s := by
  have hR : Lands (fun _ => True) := fun _ _ _ _ => trivial
  have hS : ∀ (M : (Nat → Word) → Prop) t (o : Option Op), At n (fun _ => True) M t → True :=
    fun _ _ _ _ => trivial
  unfold go
  refine fwp_bind (fwp_lift (wp_mono ?_ (wp_currentStep hR (M := fun _ => True)
    ⟨trivial, trivial⟩ (hS _))))
  rintro cur t ⟨ht, rfl⟩
  split
  · rename_i hcur
    refine fwp_pure (at_stable hR (n := n) (M := (· = t.mem))) ⟨trivial, rfl⟩
      (fun _ _ => trivial) (fun u hu => ?_)
    rw [hu.2, ← hcur]
    unfold stepIndex at hcur ⊢
    split at hcur
    · rename_i j hj
      rw [hj]
      simp
    · omega
  · split
    · exact fwp_throw (at_stable hR) ht (fun _ _ => trivial) (fun _ _ => ‹_›)
    · rename_i st hitem
      obtain ⟨i, hi, hindex⟩ := item_mem hitem
      obtain rfl := hindex htarget
      have hpll : ∀ u : Soc, wp soc ok (fun _ _ => True) (setPll n st)
          (fun _ => At n (fun _ => True) (fun m => Below n (max (rate n u) st.khz) m ∧
            stepOf n (m (CLUSTERS n).con0) = some target.toNat)) u := fun u =>
        wp_setPll hR hi (le_max_right _ _) ⟨trivial, le_max_left _ _⟩ (hS _)
      split
      · refine fwp_bind (fwp_lift ?_)
        simp only [acpmWrite, acpm, Prog.perform_bind]
        refine wp_acpm hR ht (hS _) (fun u l r _ _ _ => ?_)
        refine wp_ret (P := fun _ => True) (fun _ _ _ _ _ => trivial) trivial
          (fun _ _ => trivial) (fun v _ => fwp_lift (wp_mono ?_ (hpll v)))
        exact fun _ w hw => hw.2.2
      · refine fwp_bind (fwp_lift (wp_mono ?_ (hpll t)))
        intro _ u hu
        simp only [acpmWrite, acpm, Prog.perform_bind]
        refine fwp_lift (wp_acpm hR hu (hS _) (fun v l r hv _ _ => ?_))
        exact wp_ret (at_stable hR (n := n) (M := fun m => stepOf n (m (CLUSTERS n).con0) =
          some target.toNat)) ⟨trivial, hv.2.2⟩ (fun _ _ => trivial) (fun w hw => hw.2)

/-- All that is on its way to a rail may land. -/
theorem drift_landed (n : Cluster) (s : Soc) :
    ∃ u, soc.Drift s u ∧ (u.buck n).pending = [] ∧ u.mem = s.mem := by
  generalize hl : (s.buck n).pending = l
  induction l generalizing s with
  | nil => exact ⟨s, .refl, hl, rfl⟩
  | cons v l ih =>
    have hland : (s.buck n).land = some ⟨v, l⟩ := by
      unfold LateReg.land
      rw [hl]
    have hbuck : ((s.setBuck n ⟨v, l⟩).buck n).pending = l := by rw [setBuck_buck, if_pos rfl]
    obtain ⟨u, hu, hempty, hmem⟩ := ih (s.setBuck n ⟨v, l⟩) hbuck
    have hstep : soc.EnvStep s (s.setBuck n ⟨v, l⟩) :=
      ⟨n, Option.map_eq_some_iff.mpr ⟨_, hland, rfl⟩⟩
    exact ⟨u, Relation.ReflTransGen.head hstep hu, hempty, hmem⟩

/-- **Exactly when one switch is safe**: with every raise heard, the rail stays above the clock
in all runs if and only if the clock is on a step of the table or the voltage of the new step is
enough for it already. -/
theorem go_safe_iff (hcov : Covered n s) (htarget : 0 ≤ target)
    (hst : item (CLUSTERS n).steps target = some st) :
    (∀ tr q t, soc.Within heard (go n target).run s tr q t → RailSafe n t) ↔
      OnTable n s ∨ Enough n (rate n s) st.code := by
  constructor
  · intro hsafe
    by_contra hnot
    obtain ⟨hoff, hlow⟩ := not_or.mp hnot
    have hnone : stepOf n (s.mem (CLUSTERS n).con0) = none := by
      simpa [OnTable] using hoff
    obtain ⟨u, hu, hempty, hmem⟩ := drift_landed n s
    -- the lowest voltage is asked for and acknowledged while the PLL stands as it was
    let l : Luck := ⟨true, false, 0, .acked, true⟩
    have hshown : stepIndex n (shown (CLUSTERS n).con0 l (s.mem (CLUSTERS n).con0)) = -1 := by
      unfold stepIndex
      rw [(same_shown n l _).stepOf, hnone]
    have hne : (-1 : Int) ≠ target := by omega
    have hwrite : (u.buck n).write st.code .acked = some ⟨st.code, []⟩ := by
      simp [LateReg.write, hempty]
    have hact : act (.acpm (CLUSTERS n).buck st.code) l u =
        some (0, u.setBuck n ⟨st.code, []⟩) := by
      simp only [act, fed_buck]
      rw [show l.pmic = LateReg.Outcome.acked from rfl, hwrite]
      rfl
    have hheard : heard u (.acpm (CLUSTERS n).buck st.code) l = true := by simp [heard, fed_buck, l]
    have hrun : soc.Within heard (go n target).run s
        [⟨Op.rd (CLUSTERS n).con0, shown (CLUSTERS n).con0 l (s.mem (CLUSTERS n).con0)⟩,
          ⟨Op.acpm (CLUSTERS n).buck st.code, 0⟩] (liftM (setPll n st) : ExceptT Stop P Unit).run
        (u.setBuck n ⟨st.code, []⟩) := by
      have hup : (-1 : Int) < 0 ∨ ((CLUSTERS n).steps[(-1 : Int).toNat]?).any
          (fun old => old.code < st.code) = true := .inl (by decide)
      refine .op l .refl rfl rfl ?_
      change soc.Within heard (ExceptT.run
        (if stepIndex n (shown _ l _) = target then _ else _)) _ _ _ _
      rw [hshown, if_neg hne, hst]
      simp only [if_pos hup]
      exact .op l hu hheard hact (.here .refl)
    have hrail := hsafe _ _ _ hrun
    apply hlow
    unfold RailSafe rate at hrail
    rw [setBuck_mem, hmem, setBuck_buck, if_pos rfl] at hrail
    exact hrail
  · intro hknown tr q t h
    refine h.mid (wp_go_safe hcov (hknown.imp_right fun henough st' hst' => ?_)) (fun _ _ h => h)
    obtain rfl := Option.some.inj (hst.symm.trans hst')
    exact henough

/-- An operation that does not touch the PLL or the rail of `k`. -/
def Elsewhere (k : Cluster) : Op → Prop
  | .wr addr _ => addr ≠ (CLUSTERS k).con0
  | .acpm reg _ => fed reg ≠ some k
  | _ => True

/-- No register of `n` is the PLL of `k`, and no BUCK of `n` feeds it. -/
theorem apart {k : Cluster} (hk : k ≠ n) :
    (CLUSTERS n).con0 ≠ (CLUSTERS k).con0 ∧
      (∀ mux, (CLUSTERS n).mux = some mux → mux ≠ (CLUSTERS k).con0) ∧
      ((CLUSTERS n).mux = none → (CLUSTERS n).con0 + 8 ≠ (CLUSTERS k).con0 ∧
        (CLUSTERS n).con0 - 0x140 ≠ (CLUSTERS k).con0) ∧
      fed (CLUSTERS n).buck ≠ some k := by
  refine ⟨?_, fun mux h => ?_, ?_, ?_⟩
  · revert hk
    cases n <;> cases k <;> decide
  · cases n <;> simp only [CLUSTERS, Option.some.injEq, reduceCtorEq] at h
    all_goals subst h; cases k <;> decide
  · cases n <;> simp only [CLUSTERS, reduceCtorEq, false_implies]
    cases k <;> decide
  · rw [fed_buck]
    simpa using hk.symm

theorem uses_waitMux (k : Cluster) (mux more : Nat) : (waitMux mux more).Uses (Elsewhere k) := by
  induction more with
  | zero => exact ⟨trivial, fun _ => trivial⟩
  | succ more ih =>
    simp only [waitMux, rd, Prog.perform_bind]
    refine ⟨trivial, fun v => ?_⟩
    dsimp only
    split
    · exact ih
    · trivial

theorem uses_relock {k : Cluster} (hk : k ≠ n) (st : Step) : (relock n st).Uses (Elsewhere k) := by
  obtain ⟨hcon0, hmux, hgpu, -⟩ := apart hk
  have hprogram : ∀ v, (program (CLUSTERS n).con0 v st).Uses (Elsewhere k) :=
    fun v => ⟨hcon0, fun _ => ⟨hcon0, fun _ => ⟨hcon0, fun _ => trivial⟩⟩⟩
  unfold relock
  split
  · rename_i mux hm
    have hm := hmux mux hm
    simp only [rd, wr, looks, Prog.perform_bind]
    refine ⟨hm, fun _ => ⟨trivial, fun _ => ?_⟩⟩
    refine Prog.uses_bind (uses_waitMux k _ _) (fun _ => ⟨trivial, fun _ => ?_⟩)
    exact Prog.uses_bind (hprogram _) (fun _ => ⟨hm, fun _ =>
      ⟨trivial, fun _ => uses_waitMux k _ _⟩⟩)
  · rename_i hm
    obtain ⟨hcon2, hlock⟩ := hgpu hm
    simp only [rd, wr, Prog.perform_bind]
    refine ⟨hcon2, fun _ => ⟨trivial, fun _ => ⟨hcon0, fun _ => ⟨hlock, fun _ => ⟨trivial, ?_⟩⟩⟩⟩⟩
    exact fun _ => Prog.uses_bind (hprogram _)
      (fun _ => ⟨trivial, fun _ => ⟨hcon0, fun _ => trivial⟩⟩)

/-- **The frame of a switch**: it touches no other cluster. -/
theorem uses_go {k : Cluster} (hk : k ≠ n) (target : Int) :
    (go n target).run.Uses (Elsewhere k) := by
  have hpll : ∀ st, (setPll n st).Uses (Elsewhere k) :=
    fun st => Prog.uses_bind (uses_relock hk st) (fun _ => ⟨trivial, fun _ => trivial⟩)
  have hacpm : ∀ code, (acpmWrite n code).Uses (Elsewhere k) :=
    fun code => ⟨(apart hk).2.2.2, fun _ => trivial⟩
  refine uses_run_bind (uses_run_lift ⟨trivial, fun _ => trivial⟩) (fun cur => ?_)
  split
  · trivial
  · split
    · trivial
    · split
      · exact uses_run_bind (uses_run_lift (hacpm _)) (fun _ => uses_run_lift (hpll _))
      · exact uses_run_bind (uses_run_lift (hpll _)) (fun _ => uses_run_lift (hacpm _))

/-- What is left alone keeps its PLL and its rail, up to writes that land. -/
theorem act_elsewhere {k : Cluster} {R : LateReg (BitVec 8) → Prop} {M : Word → Prop} {o : Op}
    {l : Luck} {r : Ans o} (ho : Elsewhere k o)
    (hs : At k R (fun m => M (m (CLUSTERS k).con0)) s) (hact : act o l s = some (r, t)) :
    At k R (fun m => M (m (CLUSTERS k).con0)) t := by
  cases o with
  | rd addr | looks =>
    simp only [act, Option.some.injEq, Prod.mk.injEq] at hact
    exact hact.2 ▸ hs
  | maxFreq pol khz =>
    simp only [act, Option.some.injEq, Prod.mk.injEq] at hact
    obtain ⟨-, rfl⟩ := hact
    split <;> exact hs
  | wr addr v =>
    simp only [act, Option.some.injEq, Prod.mk.injEq] at hact
    obtain ⟨-, rfl⟩ := hact
    refine ⟨hs.1, ?_⟩
    change M (upd s.mem addr v (CLUSTERS k).con0)
    rw [upd_ne (Ne.symm ho)]
    exact hs.2
  | acpm reg val =>
    simp only [act] at hact
    split at hact
    · rename_i n hn
      obtain ⟨w, hw, heq⟩ := Option.map_eq_some_iff.mp hact
      simp only [Prod.mk.injEq] at heq
      obtain ⟨-, rfl⟩ := heq
      refine ⟨?_, hs.2⟩
      have hne : k ≠ n := fun h => ho (h ▸ hn)
      rw [setBuck_buck, if_neg hne]
      exact hs.1
    · simp only [Option.some.injEq, Prod.mk.injEq] at hact
      exact hact.2 ▸ hs

end Go

end S9p.Governor
