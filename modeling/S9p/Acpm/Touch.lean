/-
# The rails of the touch controller

The touch controller stays dead until it has seen a power-on reset.  The driver switches its two
LDOs off and on again, with four updates that the APM carries out, and probes the controller's
driver for a while; it does so up to three times, and where the APM does not answer it tries again.

* `touch_ends`: it comes back only so often, and once it has stopped the rails are on, in every run
  whose cycles are each acknowledged altogether or refused at their first update (`CleanCycles`).
* `touch_ends_iff`: whatever becomes of the updates, the rails are on exactly where the last update
  carried out is the last one of a cycle (`EndsWhole`).
* `rail_left_off`: a cycle that fails in the middle leaves a rail off, and it can be the last one.

Waiting is left out of the model: the driver sleeps between the updates and schedules itself a
second or two ahead, and nothing it decides depends on how long that takes.  What may happen
meanwhile is that an update reported as failed is carried out after all (`Move.land`).
-/
import S9p.Lib.LateQueue
import S9p.Lib.Machine
import Mathlib.Data.List.Induction
import Mathlib.Data.List.Infix
import Mathlib.Logic.Function.Basic

namespace S9p.Acpm.Touch

/-! ## 1. The rails

The four updates of a cycle go to the APM one by one.  Each sets the two mode bits of one LDO and
leaves its other bits alone. -/

def S2MPS18_L35CTRL : BitVec 8 := 0x6c
def S2MPS18_L43CTRL : BitVec 8 := 0x74
def LDO_ON_MODE : BitVec 8 := 0xc0

def TOUCH_APM_TRIES : Nat := 30
def TOUCH_PROBES_PER_CYCLE : Nat := 12
def TOUCH_MAX_CYCLES : Nat := 3

/-- An update, as the APM is asked for it. -/
structure Update where
  reg : BitVec 8
  val : BitVec 8
  mask : BitVec 8
  deriving DecidableEq

/-- The registers of the PMIC. -/
abbrev Regs := BitVec 8 → BitVec 8

def Update.apply (regs : Regs) (u : Update) : Regs :=
  Function.update regs u.reg (regs u.reg &&& ~~~u.mask ||| u.val &&& u.mask)

/-- After all that has been done. -/
def applyAll (regs : Regs) (us : List Update) : Regs := us.foldl Update.apply regs

def l35Off : Update := ⟨S2MPS18_L35CTRL, 0, LDO_ON_MODE⟩
def l43Off : Update := ⟨S2MPS18_L43CTRL, 0, LDO_ON_MODE⟩
def l35On : Update := ⟨S2MPS18_L35CTRL, LDO_ON_MODE, LDO_ON_MODE⟩
def l43On : Update := ⟨S2MPS18_L43CTRL, LDO_ON_MODE, LDO_ON_MODE⟩

/-- The updates of `s9p_touch_ldo_power_cycle`. -/
def powerCycle : List Update := [l35Off, l43Off, l35On, l43On]

/-- Both LDOs have their mode bits. -/
def RailsOn (regs : Regs) : Prop :=
  regs S2MPS18_L35CTRL &&& LDO_ON_MODE = LDO_ON_MODE ∧
    regs S2MPS18_L43CTRL &&& LDO_ON_MODE = LDO_ON_MODE

instance (regs : Regs) : Decidable (RailsOn regs) := inferInstanceAs (Decidable (_ ∧ _))

/-! ## 2. The work

The work runs on a queue of the kernel that holds it at most once, so the state between two of its
runs is all there is.  Its inputs are what it finds and what becomes of its updates. -/

/-- What one `s9p_touch_work` finds: the device, with whether it is bound, and how each update ends,
should it be made.  These are the inputs of the work; nothing of them is decided by the driver. -/
structure Work where
  dev : Option Bool
  l35Off : LateQueue.Outcome
  l43Off : LateQueue.Outcome
  l35On : LateQueue.Outcome
  l43On : LateQueue.Outcome

/-- The three counters, whether the work is scheduled, and what the APM has been told.  The queue is
the APM's: the driver learns of it only through the codes its updates return.  There is no time in
it: the work is delayed by fixed intervals, and a run says only in which order things happen. -/
structure State where
  apmTries : Nat := 0
  cycles : Nat := 0
  probes : Nat := 0
  scheduled : Bool := true
  apm : LateQueue Update := ⟨[], []⟩

/-- What it did. -/
inductive Did where
  | alive
  | neverBound
  | gaveUp (ret : Int)
  | failed (ret : Int)
  | cycled
  | probed
  deriving DecidableEq

/-- `s9p_touch_ldo_power_cycle`; the read at its end is for the log. -/
def ldoPowerCycle (apm : LateQueue Update) (w : Work) : LateQueue Update × Int :=
  apm.submitAll
    [(l35Off, w.l35Off), (l43Off, w.l43Off), (l35On, w.l35On), (l43On, w.l43On)]

/-- `s9p_touch_work`; the result of the reprobe is for the log, too. -/
def touchWork (s : State) (w : Work) : State × Did :=
  if w.dev = some true then ({ s with scheduled := false }, .alive)
  else if s.cycles = 0 ∨ TOUCH_PROBES_PER_CYCLE ≤ s.probes then
    if TOUCH_MAX_CYCLES ≤ s.cycles then ({ s with scheduled := false }, .neverBound)
    else
      let (apm, ret) := ldoPowerCycle s.apm w
      if ret ≠ 0 then
        let s := { s with apm := apm, apmTries := s.apmTries + 1 }
        if TOUCH_APM_TRIES ≤ s.apmTries then ({ s with scheduled := false }, .gaveUp ret)
        else (s, .failed ret)
      else ({ s with apm := apm, cycles := s.cycles + 1, probes := 0 }, .cycled)
  else ({ s with probes := s.probes + 1 }, .probed)

/-- A queued update lands, or it is time for the work, if it is scheduled. -/
inductive Move where
  | land
  | work (w : Work)

/-- A work that is not scheduled does not run. -/
def step (s : State) : Move → State × Option Did
  | .land => ({ s with apm := s.apm.land }, none)
  | .work w =>
    if s.scheduled then
      let (s, did) := touchWork s w
      (s, some did)
    else (s, none)

/-- `s9p_acpm_init` has scheduled the work. -/
def boot : State := {}

/-- The state after some moves. -/
def after (s : State) (moves : List Move) : State := Machine.after step s moves

/-- What the work did, each time. -/
def trace (s : State) (moves : List Move) : List Did :=
  (Machine.outputs step s moves).flatMap Option.toList

/-! ## 3. What is asked of a run

The bounds are on what was done, and not on the counters: the counters are how the driver keeps
them. -/

/-- The work is scheduled again. -/
def Did.again : Did → Bool
  | .alive | .neverBound | .gaveUp _ => false
  | .failed _ | .cycled | .probed => true

/-- A cycle that failed. -/
def Did.isFailed : Did → Bool
  | .failed _ | .gaveUp _ => true
  | _ => false

/-- **How often**: the completed cycles, the probes with no completed cycle between them, the failed
cycles, and so how often the work is scheduled again. -/
structure Bounded (dids : List Did) : Prop where
  completed : dids.count .cycled ≤ 3
  probes : ∀ a b c, dids = a ++ b ++ c → .cycled ∉ b → b.count .probed ≤ 12
  failed : dids.countP Did.isFailed ≤ 30
  again : dids.countP Did.again ≤ 68

/-- It ends, and with the rails on. -/
structure TouchEnds (regs : Regs) (moves : List Move) : Prop where
  bounded : Bounded (trace boot moves)
  railsOn : ∀ n, (after boot (moves.take n)).scheduled = false →
    RailsOn (applyAll regs (after boot (moves.take n)).apm.done)

/-- No cycle has been cut off: the last update that was carried out is the last one of a cycle.  (An
earlier cycle may have been; the later one has repaired that.) -/
def Whole (us : List Update) : Prop := us = [] ∨ us.getLast? = some l43On

/-- So it is whenever the work is not scheduled any more. -/
def EndsWhole (moves : List Move) : Prop :=
  ∀ n, (after boot (moves.take n)).scheduled = false → Whole (after boot (moves.take n)).apm.done

/-! ## 4. What the updates leave

The mode bits of the two registers are all that the updates change, and the last one to write an LDO
decides about it.  A cycle is therefore judged by its last update. -/

section Rails

variable {regs : Regs} {u : Update} {us p : List Update}

/-- **An update sets the bits of its mask**, and leaves the other registers. -/
theorem apply_masked (regs : Regs) (u : Update) :
    u.apply regs u.reg &&& u.mask = u.val &&& u.mask := by
  rw [Update.apply, Function.update_self]
  apply BitVec.eq_of_getLsbD_eq
  intro i hi
  cases hmask : u.mask.getLsbD i <;> simp [hmask]

theorem apply_of_ne {reg : BitVec 8} (h : reg ≠ u.reg) : u.apply regs reg = regs reg :=
  Function.update_of_ne h _ _

/-- The mode bits of an LDO. -/
def modeBits (regs : Regs) (reg : BitVec 8) : BitVec 8 := regs reg &&& LDO_ON_MODE

theorem modeBits_apply (regs : Regs) (hmask : u.mask = LDO_ON_MODE) (reg : BitVec 8) :
    modeBits (u.apply regs) reg =
      if reg = u.reg then u.val &&& LDO_ON_MODE else modeBits regs reg := by
  split
  · rename_i h
    rw [modeBits, h, ← hmask, apply_masked]
  · rw [modeBits, apply_of_ne ‹_›, ← modeBits]

@[simp] theorem l35Off_l35 (regs : Regs) : modeBits (l35Off.apply regs) S2MPS18_L35CTRL = 0 :=
  modeBits_apply regs rfl _

@[simp] theorem l35Off_l43 (regs : Regs) :
    modeBits (l35Off.apply regs) S2MPS18_L43CTRL = modeBits regs S2MPS18_L43CTRL :=
  modeBits_apply regs rfl _

@[simp] theorem l43Off_l35 (regs : Regs) :
    modeBits (l43Off.apply regs) S2MPS18_L35CTRL = modeBits regs S2MPS18_L35CTRL :=
  modeBits_apply regs rfl _

@[simp] theorem l43Off_l43 (regs : Regs) : modeBits (l43Off.apply regs) S2MPS18_L43CTRL = 0 :=
  modeBits_apply regs rfl _

@[simp] theorem l35On_l35 (regs : Regs) :
    modeBits (l35On.apply regs) S2MPS18_L35CTRL = LDO_ON_MODE :=
  modeBits_apply regs rfl _

@[simp] theorem l35On_l43 (regs : Regs) :
    modeBits (l35On.apply regs) S2MPS18_L43CTRL = modeBits regs S2MPS18_L43CTRL :=
  modeBits_apply regs rfl _

@[simp] theorem l43On_l35 (regs : Regs) :
    modeBits (l43On.apply regs) S2MPS18_L35CTRL = modeBits regs S2MPS18_L35CTRL :=
  modeBits_apply regs rfl _

@[simp] theorem l43On_l43 (regs : Regs) :
    modeBits (l43On.apply regs) S2MPS18_L43CTRL = LDO_ON_MODE :=
  modeBits_apply regs rfl _

/-- **What a beginning of a cycle leaves**: both rails on if it is all of the cycle, one of them off
otherwise, whatever they were before. -/
theorem railsOn_piece (hp : p <+: powerCycle) (hne : p ≠ []) :
    RailsOn (applyAll regs p) ↔ p.getLast? = some l43On := by
  have hoff : (0 : BitVec 8) ≠ LDO_ON_MODE := by decide
  have hinits : p = [] ∨ p = [l35Off] ∨ p = [l35Off, l43Off] ∨ p = [l35Off, l43Off, l35On] ∨
      p = powerCycle := by
    simpa [powerCycle] using (List.mem_inits p powerCycle).mpr hp
  rw [RailsOn, ← modeBits, ← modeBits]
  rcases hinits with rfl | rfl | rfl | rfl | rfl
  · exact absurd rfl hne
  -- LDO35 is off.
  · exact iff_of_false (fun h => hoff ((l35Off_l35 regs).symm.trans h.1)) (by decide)
  -- LDO43 is off, and `l35On` leaves it so.
  · exact iff_of_false (fun h => hoff ((l43Off_l43 _).symm.trans h.2)) (by decide)
  · refine iff_of_false (fun h => hoff ?_) (by decide)
    rw [← h.2]
    simp [applyAll]
  · exact iff_of_true (by simp [applyAll, powerCycle]) rfl

/-- **The rails are on unless a cycle has been cut off.** -/
theorem railsOn_iff (hon : RailsOn regs) (hpieces : LateQueue.Pieces powerCycle us) :
    RailsOn (applyAll regs us) ↔ Whole us := by
  rcases eq_or_ne us [] with rfl | hne
  · exact iff_of_true hon (.inl rfl)
  · obtain ⟨us', p, rfl, hp, hp'⟩ := hpieces.last hne
    rw [applyAll, List.foldl_append, ← applyAll, railsOn_piece hp hp', Whole, or_iff_right hne,
      List.getLast?_append_of_ne_nil _ hp']

end Rails

/-! ## 5. The run

`Worked` says once what a work can do.  The counters and the APM are followed through it,
separately. -/

section Run

variable {s : State} {moves : List Move} {m : Move} {dids : List Did} {w : Work}

theorem after_concat (s : State) (moves : List Move) (m : Move) :
    after s (moves ++ [m]) = (step (after s moves) m).1 :=
  Machine.after_concat

theorem trace_concat (s : State) (moves : List Move) (m : Move) :
    trace s (moves ++ [m]) = trace s moves ++ (step (after s moves) m).2.toList := by
  rw [trace, Machine.outputs_concat, List.flatMap_append, List.flatMap_singleton, ← trace, after]

/-- The work runs a power cycle: the controller is not bound, its probes are used up, and there is a
cycle left. -/
structure RunsCycle (s : State) (w : Work) : Prop where
  unbound : w.dev ≠ some true
  probes : s.cycles = 0 ∨ TOUCH_PROBES_PER_CYCLE ≤ s.probes
  left : s.cycles < TOUCH_MAX_CYCLES

/-- **What one work can do**: stop, give up on the APM, fail to cycle the rails, cycle them, or
probe. -/
inductive Worked (s : State) (w : Work) : State → Did → Prop where
  | alive : Worked s w { s with scheduled := false } .alive
  | neverBound : Worked s w { s with scheduled := false } .neverBound
  | gaveUp (hruns : RunsCycle s w) (htries : 30 ≤ s.apmTries + 1) :
    Worked s w
      { s with apm := (ldoPowerCycle s.apm w).1, apmTries := s.apmTries + 1, scheduled := false }
      (.gaveUp (ldoPowerCycle s.apm w).2)
  | failed (hruns : RunsCycle s w) (htries : s.apmTries + 1 < 30) :
    Worked s w { s with apm := (ldoPowerCycle s.apm w).1, apmTries := s.apmTries + 1 }
      (.failed (ldoPowerCycle s.apm w).2)
  | cycled (hruns : RunsCycle s w) :
    Worked s w { s with apm := (ldoPowerCycle s.apm w).1, cycles := s.cycles + 1, probes := 0 }
      .cycled
  | probed (hcycles : s.cycles ≠ 0) (hprobes : s.probes < 12) :
    Worked s w { s with probes := s.probes + 1 } .probed

theorem touchWork_cases (s : State) (w : Work) :
    Worked s w (touchWork s w).1 (touchWork s w).2 := by
  unfold touchWork
  split
  · exact .alive
  · rename_i hunbound
    split
    · rename_i hprobes
      split
      · exact .neverBound
      · rename_i hcycles
        have hruns : RunsCycle s w := ⟨hunbound, hprobes, not_le.mp hcycles⟩
        simp only
        split
        · split
          · exact .gaveUp hruns ‹_›
          · exact .failed hruns (not_le.mp ‹_›)
        · exact .cycled hruns
    · rename_i hprobes
      obtain ⟨hcycles, hprobes⟩ := not_or.mp hprobes
      exact .probed hcycles (not_le.mp hprobes)

/-- **The APM is only ever told beginnings of the cycle.** -/
theorem pieces_after (moves : List Move) :
    LateQueue.Pieces powerCycle (after boot moves).apm.told := by
  induction moves using List.reverseRecOn with
  | nil => exact .nil
  | append_singleton moves m ih =>
    rw [after_concat]
    cases m with
    | land => simpa [step] using ih
    | work w =>
      have hops : [(l35Off, w.l35Off), (l43Off, w.l43Off), (l35On, w.l35On),
          (l43On, w.l43On)].map Prod.fst = powerCycle := rfl
      have hcycle := LateQueue.pieces_submitAll hops ih
      simp only [step]
      split
      · have hcases := touchWork_cases (after boot moves) w
        generalize (touchWork (after boot moves) w).1 = s', (touchWork (after boot moves) w).2 = did
          at hcases ⊢
        cases hcases with
        | alive => exact ih
        | neverBound => exact ih
        | gaveUp => exact hcycle
        | failed => exact hcycle
        | cycled => exact hcycle
        | probed => exact ih
      · exact ih

/-- At most `n` probes since the last completed cycle. -/
def ProbesLe (n : Nat) (dids : List Did) : Prop :=
  ∀ a b, dids = a ++ b → .cycled ∉ b → b.count .probed ≤ n

theorem ProbesLe.concat {n n' : Nat} {did : Did} (h : ProbesLe n dids)
    (hnext : did = .cycled ∨ n + [did].count .probed ≤ n') : ProbesLe n' (dids ++ [did]) := by
  intro a b hab hcycled
  rcases List.eq_nil_or_concat b with rfl | ⟨b, did', rfl⟩
  · exact Nat.zero_le _
  · rw [List.concat_eq_append, ← List.append_assoc] at hab
    obtain ⟨hdids, hlast⟩ := List.append_inj' hab rfl
    obtain rfl := List.singleton_inj.mp hlast
    rw [List.concat_eq_append, List.mem_append, not_or] at hcycled
    rcases hnext with rfl | hn
    · exact absurd (List.mem_singleton.mpr rfl) hcycled.2
    · rw [List.concat_eq_append, List.count_append]
      exact (Nat.add_le_add_right (h a b hdids hcycled.1) _).trans hn

/-- What the counters say about what has been done. -/
structure Counts (s : State) (dids : List Did) : Prop where
  cycles : dids.count .cycled = s.cycles
  cycles_le : s.cycles ≤ 3
  tries : dids.countP Did.isFailed = s.apmTries
  tries_le : s.apmTries ≤ 30
  tries_lt : s.scheduled = true → s.apmTries < 30
  fresh : s.cycles = 0 → s.probes = 0
  probes_le : s.probes ≤ 12
  probed : dids.count .probed ≤ 12 * (s.cycles - 1) + s.probes
  last : ProbesLe s.probes dids
  spaced : ∀ a b c, dids = a ++ b ++ c → .cycled ∉ b → b.count .probed ≤ 12
  again : dids.countP Did.again ≤ s.cycles + min s.apmTries 29 + dids.count .probed

/-- Probes stay apart: a new piece of what was done ends with the last work or was there. -/
theorem spaced_concat {n : Nat} {did : Did} (hn : n ≤ 12) (hlast : ProbesLe n (dids ++ [did]))
    (hspaced : ∀ a b c, dids = a ++ b ++ c → .cycled ∉ b → b.count .probed ≤ 12) :
    ∀ a b c, dids ++ [did] = a ++ b ++ c → .cycled ∉ b → b.count .probed ≤ 12 := by
  intro a b c habc hcycled
  rcases List.eq_nil_or_concat c with rfl | ⟨c, did', rfl⟩
  · rw [List.append_nil] at habc
    exact (hlast a b habc hcycled).trans hn
  · rw [List.concat_eq_append, ← List.append_assoc] at habc
    exact hspaced a b c (List.append_inj' habc rfl).1 hcycled

theorem counts_boot : Counts boot [] where
  cycles := rfl
  cycles_le := by decide
  tries := rfl
  tries_le := by decide
  tries_lt := fun _ => by decide
  fresh := fun _ => rfl
  probes_le := by decide
  probed := by decide
  last := by
    intro a b hab _
    rw [(List.append_eq_nil_iff.mp hab.symm).2]
    exact Nat.zero_le _
  spaced := by
    intro a b c habc _
    rw [(List.append_eq_nil_iff.mp (List.append_eq_nil_iff.mp habc.symm).1).2]
    exact Nat.zero_le _
  again := by decide

/-- One more thing that was done, and what the counters make of it. -/
theorem Counts.concat (h : Counts s dids) {s' : State} {did : Did}
    (hcycles : s'.cycles = s.cycles + [did].count .cycled)
    (htries : s'.apmTries = s.apmTries + [did].countP Did.isFailed)
    (hcycles_le : s'.cycles ≤ 3) (htries_le : s'.apmTries ≤ 30)
    (htries_lt : s'.scheduled = true → s'.apmTries < 30) (hfresh : s'.cycles = 0 → s'.probes = 0)
    (hprobes_le : s'.probes ≤ 12)
    (hprobed : 12 * (s.cycles - 1) + s.probes + [did].count .probed ≤
      12 * (s'.cycles - 1) + s'.probes)
    (hlast : did = .cycled ∨ s.probes + [did].count .probed ≤ s'.probes)
    (hagain : s.cycles + min s.apmTries 29 + [did].countP Did.again ≤
      s'.cycles + min s'.apmTries 29 + [did].count .probed) : Counts s' (dids ++ [did]) where
  cycles := by rw [List.count_append, h.cycles, hcycles]
  cycles_le := hcycles_le
  tries := by rw [List.countP_append, h.tries, htries]
  tries_le := htries_le
  tries_lt := htries_lt
  fresh := hfresh
  probes_le := hprobes_le
  probed := by
    rw [List.count_append]
    exact (Nat.add_le_add_right h.probed _).trans hprobed
  last := h.last.concat hlast
  spaced := spaced_concat hprobes_le (h.last.concat hlast) h.spaced
  again := by
    have := h.again
    rw [List.countP_append, List.count_append]
    omega

/-- **One work keeps the counts.** -/
theorem Counts.work (h : Counts s dids) (hs : s.scheduled = true) (w : Work) :
    Counts (touchWork s w).1 (dids ++ [(touchWork s w).2]) := by
  have hcases := touchWork_cases s w
  generalize (touchWork s w).1 = s', (touchWork s w).2 = did at hcases ⊢
  have hsched := h.tries_lt hs
  cases hcases with
  | alive =>
    exact h.concat rfl rfl h.cycles_le h.tries_le (fun hstop => absurd hstop (by simp)) h.fresh
      h.probes_le le_rfl (.inr le_rfl) le_rfl
  | neverBound =>
    exact h.concat rfl rfl h.cycles_le h.tries_le (fun hstop => absurd hstop (by simp)) h.fresh
      h.probes_le le_rfl (.inr le_rfl) le_rfl
  | gaveUp hruns htries =>
    refine h.concat rfl rfl h.cycles_le hsched (fun hstop => absurd hstop (by simp)) h.fresh
      h.probes_le le_rfl (.inr le_rfl) ?_
    simp only [List.countP_singleton, List.count_singleton, Did.again, reduceCtorEq, beq_iff_eq,
      if_false]
    omega
  | failed hruns htries =>
    refine h.concat rfl rfl h.cycles_le hsched (fun _ => htries) h.fresh h.probes_le le_rfl
      (.inr le_rfl) ?_
    simp only [List.countP_singleton, List.count_singleton, Did.again, reduceCtorEq, beq_iff_eq,
      if_false, if_true]
    omega
  | cycled hruns =>
    have hprobes := hruns.probes
    have hcycles : s.cycles < 3 := hruns.left
    simp only [TOUCH_PROBES_PER_CYCLE] at hprobes
    refine h.concat rfl rfl hcycles h.tries_le (fun _ => hsched) (fun _ => rfl) (by simp) ?_
      (.inl rfl) ?_
    · have := h.fresh
      have := h.probes_le
      simp only [List.count_singleton, reduceCtorEq, beq_iff_eq, if_false]
      omega
    · simp only [List.countP_singleton, List.count_singleton, Did.again, reduceCtorEq, beq_iff_eq,
        if_false, if_true]
      omega
  | probed hcycles hprobes =>
    refine h.concat rfl rfl h.cycles_le h.tries_le (fun _ => hsched)
      (fun hzero => absurd hzero hcycles) hprobes le_rfl (.inr le_rfl) ?_
    simp only [List.countP_singleton, List.count_singleton, Did.again, beq_self_eq_true, if_true]
    omega

theorem counts_after (moves : List Move) : Counts (after boot moves) (trace boot moves) := by
  induction moves using List.reverseRecOn with
  | nil => exact counts_boot
  | append_singleton moves m ih =>
    rw [after_concat, trace_concat]
    cases m with
    | land =>
      rw [step, Option.toList_none, List.append_nil]
      exact { ih with }
    | work w =>
      simp only [step]
      split
      · exact ih.work ‹_› w
      · rw [Option.toList_none, List.append_nil]
        exact ih

theorem bounded_trace (moves : List Move) : Bounded (trace boot moves) := by
  have h := counts_after moves
  have hcycles := h.cycles_le
  have htries := h.tries_le
  have hprobes := h.probes_le
  have hprobed := h.probed
  have hagain := h.again
  exact
    { completed := h.cycles.trans_le hcycles
      probes := h.spaced
      failed := h.tries.trans_le htries
      again := by omega }

/-- **It comes back only so often, and the rails are on once it has stopped exactly where no cycle
has been left cut off**: in every run, and at every moment of it. -/
theorem touch_ends_iff {regs : Regs} (hon : RailsOn regs) (moves : List Move) :
    TouchEnds regs moves ↔ EndsWhole moves := by
  constructor
  · intro h n hstop
    exact (railsOn_iff hon (pieces_after _).done).mp (h.railsOn n hstop)
  · intro h
    refine ⟨bounded_trace moves, fun n hstop => ?_⟩
    exact (railsOn_iff hon (pieces_after _).done).mpr (h n hstop)

/-- The APM switches LDO35 off and then has no room for the next update, thirty times. -/
theorem rail_left_off :
    ¬ TouchEnds (fun _ => 0xc0) (List.replicate 30
      (.work ⟨none, .acked, .failed (-16) (by decide) false, .acked, .acked⟩)) := by
  intro h
  have hon := (h.railsOn 30 rfl).1
  exact absurd hon (by decide)

/-! ## 6. Cycles that are carried out altogether or not at all

The APM's acceptance of the first update is what decides: once it has taken one, it has to take the
other three. -/

/-- The APM acknowledges all four updates of a cycle, or does not take the first. -/
structure Work.Clean (w : Work) : Prop where
  taken : w.l35Off = .acked → w.l43Off = .acked ∧ w.l35On = .acked ∧ w.l43On = .acked
  refused : ∀ ret hret queued, w.l35Off = .failed ret hret queued → queued = false

/-- This is so of every work of the run that runs a cycle.  What the updates of another work would
have come to does not matter.  It is read off the inputs of the works and off which of them run a
cycle, and not off what the APM is found to have done. -/
def CleanCycles (moves : List Move) : Prop :=
  ∀ before w rest, moves = before ++ .work w :: rest →
    (after boot before).scheduled = true → RunsCycle (after boot before) w → w.Clean

theorem CleanCycles.before {moves' : List Move} (h : CleanCycles (moves ++ moves')) :
    CleanCycles moves := by
  intro before w rest hmoves
  refine h before w (rest ++ moves') ?_
  rw [hmoves, List.append_assoc, List.cons_append]

theorem cleanCycles_of_clean (h : ∀ w, .work w ∈ moves → w.Clean) : CleanCycles moves := by
  intro before w rest hmoves _ _
  exact h w (by simp [hmoves])

theorem ldoPowerCycle_clean {apm : LateQueue Update} (hw : w.Clean) (hpending : apm.pending = []) :
    (ldoPowerCycle apm w).1 = apm ∨ (ldoPowerCycle apm w).1 = ⟨apm.done ++ powerCycle, []⟩ := by
  cases hfirst : w.l35Off with
  | acked =>
    obtain ⟨h43Off, h35On, h43On⟩ := hw.taken hfirst
    have hret : (ldoPowerCycle apm w).2 = 0 := by
      rw [ldoPowerCycle, hfirst, h43Off, h35On, h43On]
      rfl
    refine .inr ((LateQueue.submitAll_acked (List.cons_ne_nil _ _) hret).trans ?_)
    rw [LateQueue.told, hpending, List.append_nil]
    rfl
  | failed ret hret queued =>
    obtain rfl := hw.refused ret hret queued hfirst
    refine .inl ?_
    rw [ldoPowerCycle, hfirst, LateQueue.submitAll_cons_failed]
    rfl

/-- **Nothing is left half done**: the APM has no update queued, and the last one it has carried out
is the last one of a cycle. -/
structure AtRest (apm : LateQueue Update) : Prop where
  pending : apm.pending = []
  whole : Whole apm.done

theorem AtRest.cycle {apm : LateQueue Update} (h : AtRest apm) (hw : w.Clean) :
    AtRest (ldoPowerCycle apm w).1 := by
  rcases ldoPowerCycle_clean hw h.pending with hsame | hdone
  · rw [hsame]
    exact h
  · rw [hdone]
    exact ⟨rfl, .inr (by simp [powerCycle])⟩

/-- **One work keeps it.**  Only a work that runs a cycle tells the APM anything. -/
theorem AtRest.work (h : AtRest s.apm) (hclean : RunsCycle s w → w.Clean) :
    AtRest (touchWork s w).1.apm := by
  have hcases := touchWork_cases s w
  generalize (touchWork s w).1 = s', (touchWork s w).2 = did at hcases ⊢
  cases hcases with
  | alive => exact h
  | neverBound => exact h
  | gaveUp hruns => exact h.cycle (hclean hruns)
  | failed hruns => exact h.cycle (hclean hruns)
  | cycled hruns => exact h.cycle (hclean hruns)
  | probed => exact h

theorem atRest_after (hclean : CleanCycles moves) : AtRest (after boot moves).apm := by
  induction moves using List.reverseRecOn with
  | nil => exact ⟨rfl, .inl rfl⟩
  | append_singleton moves m ih =>
    have hrest := ih hclean.before
    rw [after_concat]
    cases m with
    | land =>
      simp only [step, LateQueue.land_of_nil hrest.pending]
      exact hrest
    | work w =>
      simp only [step]
      split
      · rename_i hscheduled
        exact hrest.work (hclean moves w [] rfl hscheduled)
      · exact hrest

/-- **It comes back only so often, and the rails are on once it has stopped**, where each cycle is
acknowledged altogether or refused at its first update. -/
theorem touch_ends {regs : Regs} (hon : RailsOn regs) (moves : List Move)
    (hclean : CleanCycles moves) : TouchEnds regs moves := by
  refine (touch_ends_iff hon moves).mpr (fun n _ => ?_)
  rw [← List.take_append_drop n moves] at hclean
  exact (atRest_after hclean.before).whole

/-- The APM is busy at first, then acknowledges the updates, and the controller is bound after its
first probe. -/
theorem touch_ends_bound :
    TouchEnds (fun _ => 0xc0) [
      .work ⟨none, .failed (-16) (by decide) false, .acked, .acked, .acked⟩,
      .work ⟨none, .acked, .acked, .acked, .acked⟩,
      .work ⟨some false, .acked, .acked, .acked, .acked⟩,
      .work ⟨some true, .acked, .acked, .acked, .acked⟩] := by
  refine touch_ends (by decide) _ (cleanCycles_of_clean (fun w hw => ?_))
  simp only [List.mem_cons, Move.work.injEq, List.not_mem_nil, or_false] at hw
  rcases hw with rfl | rfl | rfl | rfl
  · exact ⟨fun h => absurd h (by simp), fun ret hret queued h => by simp_all⟩
  · exact ⟨fun _ => ⟨rfl, rfl, rfl⟩, fun ret hret queued h => absurd h (by simp)⟩
  · exact ⟨fun _ => ⟨rfl, rfl, rfl⟩, fun ret hret queued h => absurd h (by simp)⟩
  · exact ⟨fun _ => ⟨rfl, rfl, rfl⟩, fun ret hret queued h => absurd h (by simp)⟩

end Run

end S9p.Acpm.Touch
