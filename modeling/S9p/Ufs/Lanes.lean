/-
# The lane counts that the calibration is given

The glue keeps one pair of lane counts.  A link startup fills it from the host where a count is
missing, a negotiation overwrites it with what the core desires, and every calibration takes both
its lane counts from it: the lanes that are to be used and the lanes that the host has.

* `cal_lanes_iff`: when each calibration around a power mode change is given the right counts.
* `agrees_of_desired`: so it is where the core always desires the lanes of the host, and the board
  asks for no fewer.
-/
import S9p.Ufs.Cal
import S9p.Lib.Machine
import Mathlib.Data.List.Induction

namespace S9p.Ufs

/-! ## 1. The glue

One pair of counts serves two purposes.  It is what the host has been found to have, and what has
last been negotiated. -/

/-- `struct ufs_pa_layer_attr`. -/
structure PaLayerAttr where
  gearRx : Nat
  gearTx : Nat
  laneRx : Nat
  laneTx : Nat
  pwrRx : Nat
  pwrTx : Nat
  hsRate : Nat

/-- `PA_AVAILRXDATALANES` and `PA_AVAILTXDATALANES`. -/
structure Host where
  rxLanes : Nat
  txLanes : Nat

/-- `struct exynos9810_ufs`. -/
structure Exynos9810Ufs where
  mclkRate : Nat := 0
  numRxLanes : Nat := 0
  numTxLanes : Nat := 0
  reqPmd : PwrMode
  actPmd : PwrMode := {}

inductive NotifyChange where
  | pre
  | post
  deriving DecidableEq

/-- The callbacks of the core, with what they find. -/
inductive Call where
  | linkStartup (status : NotifyChange) (rate : Nat) (rxRead txRead : Bool)
  | negotiate (desired : PaLayerAttr)
  | pwrChange (status : NotifyChange) (lock : Lock)
  | hibern8 (enter : Bool) (status : NotifyChange)

/-- What comes of them: the mode returned to the core, or a calibration around a power mode change,
with what it was given and what it did. -/
inductive Outcome where
  | quiet
  | final (attr : PaLayerAttr)
  | pmc (status : NotifyChange) (param : CalParam) (done : List Access) (err : CalErrno)

/-- The end of `exynos_ufs_parse_dt`, and what is allocated zeroed. -/
def probed (lane gear : Option UInt8) : Exynos9810Ufs where
  reqPmd :=
    { mode := FAST_MODE, hsSeries := PA_HS_MODE_B, lane := (lane.getD 1).toNat,
      gear := (gear.getD 1).toNat }

/-- `exynos_ufs_cal`: what the calibration is given.  The lane counts there are bytes, and nobody
sets the board. -/
def exynosUfsCal (ufs : Exynos9810Ufs) : CalParam where
  mclkRate := ufs.mclkRate
  targetLane := ufs.numRxLanes % 2 ^ 8
  availableLane := ufs.numRxLanes % 2 ^ 8
  pmd := ufs.actPmd
  board := 0

/-- `exynos_ufs_link_startup_notify` before the change; a read that fails leaves the count. -/
def linkStartup (host : Host) (ufs : Exynos9810Ufs) (rate : Nat) (rxRead txRead : Bool) :
    Exynos9810Ufs :=
  let ufs :=
    if ufs.numRxLanes = 0 ∨ ufs.numTxLanes = 0 then
      { ufs with
        numRxLanes := if rxRead then host.rxLanes else ufs.numRxLanes
        numTxLanes := if txRead then host.txLanes else ufs.numTxLanes }
    else ufs
  { ufs with mclkRate := rate % 2 ^ 32 }

/-- `min_t(u8, ..)`. -/
def minU8 (a b : Nat) : Nat := min (a % 2 ^ 8) (b % 2 ^ 8)

/-- `exynos_ufs_negotiate_pwr_mode`. -/
def negotiatePwrMode (ufs : Exynos9810Ufs) (desired : PaLayerAttr) : Exynos9810Ufs × PaLayerAttr :=
  let req := ufs.reqPmd
  let final : PaLayerAttr :=
    { gearRx := minU8 desired.gearRx req.gear
      gearTx := minU8 desired.gearTx req.gear
      laneRx := minU8 desired.laneRx req.lane
      laneTx := minU8 desired.laneTx req.lane
      pwrRx := req.mode
      pwrTx := req.mode
      hsRate := req.hsSeries }
  ({ ufs with
      numRxLanes := desired.laneRx
      numTxLanes := desired.laneTx
      actPmd :=
        { gear := final.gearRx, lane := final.laneRx, mode := req.mode,
          hsSeries := req.hsSeries } },
    final)

/-- `exynos_ufs_pwr_change_notify`. -/
def pwrChangeNotify (ufs : Exynos9810Ufs) (status : NotifyChange) (lock : Lock) :
    Outcome :=
  let param := exynosUfsCal ufs
  let (done, err) := match status with
    | .pre => prePmc lock param
    | .post => postPmc lock param
  .pmc status param done err

/-- One callback.  The other calibrations read the counts and change nothing here. -/
def step (host : Host) (ufs : Exynos9810Ufs) : Call → Exynos9810Ufs × Outcome
  | .linkStartup .pre rate rxRead txRead => (linkStartup host ufs rate rxRead txRead, .quiet)
  | .linkStartup .post .. => (ufs, .quiet)
  | .negotiate desired =>
    let (ufs, final) := negotiatePwrMode ufs desired
    (ufs, .final final)
  | .pwrChange status lock => (ufs, pwrChangeNotify ufs status lock)
  | .hibern8 .. => (ufs, .quiet)

/-! ## 2. What is asked of a run

The right counts are those of the host and of the last negotiation, and they are read off the list
of callbacks. -/

/-- The callbacks, one after the other. -/
def trace (host : Host) (ufs : Exynos9810Ufs) (calls : List Call) : List Outcome :=
  Machine.outputs (step host) ufs calls

/-- What was returned to the core last. -/
def lastFinal (outs : List Outcome) : Option PaLayerAttr :=
  outs.foldl (fun last out => match out with | .final attr => some attr | _ => last) none

/-- A calibration has the counts it should have: the lanes that were negotiated, the lanes of the
host; and lane 1 is turned off where it should be.  The three are asked of each calibration by
itself. -/
structure CalRight (host : Host) (last : Option PaLayerAttr) (status : NotifyChange)
    (param : CalParam) (done : List Access) : Prop where
  target : ∀ attr ∈ last, param.targetLane = attr.laneRx
  available : param.availableLane = host.rxLanes
  sqOff : status = .pre → (SqOffWritten done ↔ host.rxLanes = 2 ∧ ∃ attr ∈ last, attr.laneRx = 1)

/-- Every calibration around a power mode change is right. -/
def LanesRight (host : Host) (outs : List Outcome) : Prop :=
  ∀ n status param done err, outs[n]? = some (.pmc status param done err) →
    CalRight host (lastFinal (outs.take n)) status param done

/-- What the core desired last. -/
def lastDesired (calls : List Call) : Option PaLayerAttr :=
  calls.foldl (fun last c => match c with | .negotiate desired => some desired | _ => last) none

/-- The counts that some calls leave, received and sent: those desired last, or, where a link
startup found one missing, those of the host. -/
def counted (host : Host) (calls : List Call) : Nat × Nat :=
  calls.foldl (fun n c => match c with
    | .negotiate desired => (desired.laneRx, desired.laneTx)
    | .linkStartup .pre _ rxRead txRead =>
      if n.1 = 0 ∨ n.2 = 0 then
        (if rxRead then host.rxLanes else n.1, if txRead then host.txLanes else n.2)
      else n
    | _ => n) (0, 0)

/-- The count is that of the host, and so is the smaller one of what the core desired last and what
the board asks for. -/
structure Agrees (host : Host) (board : Nat) (calls : List Call) : Prop where
  counted : (counted host calls).1 % 2 ^ 8 = host.rxLanes
  desired : ∀ desired ∈ lastDesired calls, min (desired.laneRx % 2 ^ 8) board = host.rxLanes

/-- They agree wherever the power mode is changed. -/
def AgreesThroughout (host : Host) (board : Nat) (calls : List Call) : Prop :=
  ∀ n status lock, calls[n]? = some (.pwrChange status lock) → Agrees host board (calls.take n)

/-! ## 3. The run

Both counts of a calibration come from the same place.  They can be right together only if they are
equal. -/

section Run

variable {host : Host} {ufs : Exynos9810Ufs} {lane gear : Option UInt8} {calls : List Call}

/-- The state after some callbacks. -/
def after (host : Host) (ufs : Exynos9810Ufs) (calls : List Call) : Exynos9810Ufs :=
  Machine.after (step host) ufs calls

theorem after_concat (host : Host) (ufs : Exynos9810Ufs) (calls : List Call) (c : Call) :
    after host ufs (calls ++ [c]) = (step host (after host ufs calls) c).1 :=
  Machine.after_concat

theorem trace_concat (host : Host) (ufs : Exynos9810Ufs) (calls : List Call) (c : Call) :
    trace host ufs (calls ++ [c]) =
      trace host ufs calls ++ [(step host (after host ufs calls) c).2] :=
  Machine.outputs_concat

/-- Each callback has its outcome. -/
theorem trace_getElem? (host : Host) (ufs : Exynos9810Ufs) (calls : List Call) (n : Nat) :
    (trace host ufs calls)[n]? =
      calls[n]?.map (fun c => (step host (after host ufs (calls.take n)) c).2) :=
  Machine.outputs_getElem? n

theorem trace_take (host : Host) (ufs : Exynos9810Ufs) (calls : List Call) (n : Nat) :
    (trace host ufs calls).take n = trace host ufs (calls.take n) :=
  Machine.outputs_take n

/-- **What one callback leaves of the mode the board asks for**: everything. -/
theorem step_reqPmd (host : Host) (ufs : Exynos9810Ufs) (c : Call) :
    (step host ufs c).1.reqPmd = ufs.reqPmd := by
  cases c with
  | linkStartup status rate rxRead txRead =>
    cases status with
    | pre =>
      simp only [step, linkStartup]
      split <;> rfl
    | post => rfl
  | negotiate desired => rfl
  | pwrChange status lock => rfl
  | hibern8 enter status => rfl

theorem after_reqPmd (host : Host) (ufs : Exynos9810Ufs) (calls : List Call) :
    (after host ufs calls).reqPmd = ufs.reqPmd := by
  have hstep : ∀ (u : Exynos9810Ufs) (c : Call), u.reqPmd = ufs.reqPmd →
      (step host u c).1.reqPmd = ufs.reqPmd :=
    fun u c hu => (step_reqPmd host u c).trans hu
  exact @Machine.after_holds _ _ _ (step host) ufs calls (fun u => u.reqPmd = ufs.reqPmd) rfl hstep

/-- **The counts that are kept** are those the calls leave. -/
theorem after_counts (host : Host) (lane gear : Option UInt8) (calls : List Call) :
    ((after host (probed lane gear) calls).numRxLanes,
      (after host (probed lane gear) calls).numTxLanes) = counted host calls := by
  induction calls using List.reverseRecOn with
  | nil => rfl
  | append_singleton calls c ih =>
    rw [after_concat, counted, List.foldl_append, List.foldl_cons, List.foldl_nil, ← counted, ← ih]
    cases c with
    | linkStartup status rate rxRead txRead =>
      cases status with
      | pre =>
        simp only [step, linkStartup]
        split <;> rfl
      | post => rfl
    | negotiate desired => rfl
    | pwrChange status lock => rfl
    | hibern8 enter status => rfl

/-- **What was returned last** is made of what was desired last. -/
theorem lastFinal_trace (host : Host) (ufs : Exynos9810Ufs) (calls : List Call) :
    lastFinal (trace host ufs calls) =
      (lastDesired calls).map (fun desired => (negotiatePwrMode ufs desired).2) := by
  induction calls using List.reverseRecOn with
  | nil => rfl
  | append_singleton calls c ih =>
    rw [trace_concat, lastFinal, lastDesired, List.foldl_append, List.foldl_append, List.foldl_cons,
      List.foldl_cons, List.foldl_nil, List.foldl_nil, ← lastFinal, ← lastDesired, ih]
    cases c with
    | linkStartup status rate rxRead txRead => cases status <;> rfl
    | negotiate desired =>
      simp only [step, Option.map_some, negotiatePwrMode, after_reqPmd]
    | pwrChange status lock => rfl
    | hibern8 enter status => rfl

theorem minU8_lane (a : Nat) (lane : Option UInt8) :
    minU8 a (lane.getD 1).toNat = min (a % 2 ^ 8) (lane.getD 1).toNat := by
  rw [minU8, Nat.mod_eq_of_lt (UInt8.toNat_lt _)]

/-- **One calibration.**  Both counts are the one that is kept, so it must be the host's and the
negotiated one at a time; and then it is never a matter of turning a lane off. -/
theorem calRight_iff (host : Host) (lane gear : Option UInt8) (calls : List Call)
    (status : NotifyChange) (lock : Lock) {param : CalParam} {done : List Access}
    {err : CalErrno}
    (hout : pwrChangeNotify (after host (probed lane gear) calls) status lock =
      .pmc status param done err) :
    CalRight host (lastFinal (trace host (probed lane gear) calls)) status param done ↔
      Agrees host (lane.getD 1).toNat calls := by
  have hcount : (after host (probed lane gear) calls).numRxLanes = (counted host calls).1 := by
    rw [← after_counts host lane gear calls]
  have hlast : ∀ attr, attr ∈ lastFinal (trace host (probed lane gear) calls) ↔
      ∃ desired ∈ lastDesired calls, (negotiatePwrMode (probed lane gear) desired).2 = attr := by
    intro attr
    rw [lastFinal_trace, Option.mem_map]
  have hlane : ∀ desired, (negotiatePwrMode (probed lane gear) desired).2.laneRx =
      min (desired.laneRx % 2 ^ 8) (lane.getD 1).toNat := fun desired => minU8_lane _ _
  simp only [pwrChangeNotify, Outcome.pmc.injEq, true_and] at hout
  obtain ⟨rfl, rfl, -⟩ := hout
  constructor
  · intro h
    have havail : (counted host calls).1 % 2 ^ 8 = host.rxLanes := by
      rw [← hcount]
      exact h.available
    refine ⟨havail, fun desired hdesired => ?_⟩
    have htarget := h.target _ ((hlast _).mpr ⟨desired, hdesired, rfl⟩)
    rw [hlane] at htarget
    exact htarget.symm.trans h.available
  · intro h
    have havail : (exynosUfsCal (after host (probed lane gear) calls)).availableLane =
        host.rxLanes := by
      rw [exynosUfsCal, hcount]
      exact h.counted
    have hnegotiated : ∀ attr ∈ lastFinal (trace host (probed lane gear) calls),
        attr.laneRx = host.rxLanes := by
      intro attr hattr
      obtain ⟨desired, hdesired, rfl⟩ := (hlast attr).mp hattr
      rw [hlane]
      exact h.desired desired hdesired
    refine ⟨fun attr hattr => havail.trans (hnegotiated attr hattr).symm, havail, ?_⟩
    rintro rfl
    refine iff_of_false (sqOff_never lock _) ?_
    rintro ⟨htwo, attr, hattr, hone⟩
    have := hnegotiated attr hattr
    omega

/-- **The calibrations around the power mode changes are right exactly where the counts agree**, in
every run from the probe. -/
theorem cal_lanes_iff (host : Host) (lane gear : Option UInt8) (calls : List Call) :
    LanesRight host (trace host (probed lane gear) calls) ↔
      AgreesThroughout host (lane.getD 1).toNat calls := by
  constructor
  · intro h n status lock hcall
    have hout : (trace host (probed lane gear) calls)[n]? =
        some (pwrChangeNotify (after host (probed lane gear) (calls.take n)) status lock) := by
      rw [trace_getElem?, hcall]
      rfl
    have hright := h n _ _ _ _ hout
    rw [trace_take] at hright
    exact (calRight_iff host lane gear _ status lock rfl).mp hright
  · intro h n status param done err hout
    rw [trace_getElem?] at hout
    obtain ⟨c, hcall, hc⟩ := Option.map_eq_some_iff.mp hout
    cases c with
    | linkStartup status' rate rxRead txRead => cases status' <;> exact absurd hc (by simp [step])
    | negotiate desired => exact absurd hc (by simp [step])
    | hibern8 enter status' => exact absurd hc (by simp [step])
    | pwrChange status' lock =>
      obtain rfl : status' = status := by
        simp only [step, pwrChangeNotify, Outcome.pmc.injEq] at hc
        exact hc.1
      rw [trace_take]
      exact (calRight_iff host lane gear _ status' lock hc).mpr (h n status' lock hcall)

/-- Two lanes on both sides, and a board that asks for one: the calibration uses both. -/
theorem board_lane_ignored :
    ¬ LanesRight ⟨2, 2⟩ (trace ⟨2, 2⟩ (probed (some 1) (some 3))
      [.linkStartup .pre 166000000 true true, .linkStartup .post 0 true true,
        .negotiate ⟨3, 3, 2, 2, FAST_MODE, FAST_MODE, PA_HS_MODE_B⟩,
        .pwrChange .pre (fun _ => some 0)]) := by
  intro h
  have hright := (h 3 .pre _ _ _ rfl).target
    ⟨3, 3, 1, 1, FAST_MODE, FAST_MODE, PA_HS_MODE_B⟩ rfl
  exact absurd hright (by decide)

/-! ## 4. Where the core desires the lanes of the host

The condition is met by the board as it is shipped, which is why the defect does not show there. -/

theorem counted_of_desired {rate : Nat} {txRead : Bool}
    (hdesired : ∀ desired, .negotiate desired ∈ calls → desired.laneRx = host.rxLanes) :
    (counted host (.linkStartup .pre rate true txRead :: calls)).1 = host.rxLanes := by
  induction calls using List.reverseRecOn with
  | nil => rfl
  | append_singleton calls c ih =>
    have hbefore := ih (fun desired hmem => hdesired desired (List.mem_append_left _ hmem))
    rw [← List.cons_append, counted, List.foldl_append, List.foldl_cons, List.foldl_nil, ← counted]
    cases c with
    | linkStartup status rate rxRead txRead =>
      cases status with
      | pre =>
        simp only
        split
        · rw [hbefore, ite_self]
        · exact hbefore
      | post => exact hbefore
    | negotiate desired => exact hdesired desired (by simp)
    | pwrChange status lock => exact hbefore
    | hibern8 enter status => exact hbefore

theorem lastDesired_mem {desired : PaLayerAttr} (h : lastDesired calls = some desired) :
    .negotiate desired ∈ calls := by
  induction calls using List.reverseRecOn with
  | nil => exact absurd h (by simp [lastDesired])
  | append_singleton calls c ih =>
    rw [lastDesired, List.foldl_append, List.foldl_cons, List.foldl_nil, ← lastDesired] at h
    cases c with
    | negotiate desired' =>
      obtain rfl := Option.some.inj h
      simp
    | linkStartup status rate rxRead txRead => exact List.mem_append_left _ (ih h)
    | pwrChange status lock => exact List.mem_append_left _ (ih h)
    | hibern8 enter status => exact List.mem_append_left _ (ih h)

/-- **The shipped board**: the link startup reads the count of the host, the core desires that count
each time, and the board asks for no fewer lanes. -/
theorem agrees_of_desired {board rate : Nat} {txRead : Bool} (hhost : host.rxLanes < 2 ^ 8)
    (hboard : host.rxLanes ≤ board)
    (hdesired : ∀ desired, .negotiate desired ∈ calls → desired.laneRx = host.rxLanes) :
    AgreesThroughout host board (.linkStartup .pre rate true txRead :: calls) := by
  intro n status lock hcall
  cases n with
  | zero => exact absurd hcall (by simp)
  | succ n =>
    have hsome : ∀ desired, .negotiate desired ∈ calls.take n → desired.laneRx = host.rxLanes :=
      fun desired hmem => hdesired desired (List.mem_of_mem_take hmem)
    rw [List.take_succ_cons]
    refine ⟨?_, fun desired hlast => ?_⟩
    · rw [counted_of_desired hsome, Nat.mod_eq_of_lt hhost]
    · rcases List.mem_cons.mp (lastDesired_mem hlast) with h | hmem
      · exact absurd h (by simp)
      · rw [hsome desired hmem, Nat.mod_eq_of_lt hhost, Nat.min_eq_left hboard]

end Run

end S9p.Ufs
