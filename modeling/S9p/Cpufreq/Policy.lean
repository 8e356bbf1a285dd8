/-
# The policy poll of the CPU frequency driver

`s9p_policy_work` runs every 100 ms: it filters the three temperatures, moves the thermal level
of each cluster and of the GPU, and keeps the QoS requests of the clusters up to date.  Around
it the cpufreq core calls `s9p_init` and `s9p_exit`, and the user stores to the `boost` and
`idle_floor` parameters.

This module holds the statics of the driver and these functions over them.  A poll sees one
time and one set of readings; whether a core is idle is what the scheduler says at that
moment.  The GPU's level is applied through `s9p_g3d_set_khz`, which belongs to another
driver, so the poll is written for any monad that provides it.
-/
import Mathlib.Logic.Function.Basic
import S9p.Lib.Median
import S9p.Cpufreq.Cluster

namespace S9p.Cpufreq

/-! ## 1. The statics

Temperatures are in degrees and times in nanoseconds, as the functions of the kernel that are called
have them. -/

/-- What an invalid reading looks like. -/
def INT_MIN : Int := -2147483648

def FREQ_QOS_MAX_DEFAULT_VALUE : Nat := 2147483647

def IDLE_ENTER_POLLS : Nat := 5

/-- A window has three samples. -/
instance neZero_window : NeZero 3 := ⟨by decide⟩

/-- `struct s9p_tmu_filter`. -/
structure TmuFilter where
  sample : Fin 3 → Int
  next : Fin 3
  primed : Bool

/-- The part of `struct s9p_cluster` that changes.  A QoS request is `none` while it is not added;
`mapped` is `pll_con0` being there.  The cached level and cap stay when the requests go, which is
where the two can fall apart. -/
structure Cluster where
  mapped : Bool
  thermalLvl : Nat
  thermalChanged : Int
  busyCap : Nat
  qosThermal : Option Nat
  qosBusy : Option Nat
  qosBoost : Option Nat
  qosIdle : Option Nat
  idlePolls : Nat
  idleCapped : Bool
  qosAdded : Bool

/-- The three temperatures and their level tables. -/
inductive Zone where
  | little
  | big
  | gpu
  deriving DecidableEq

def Zone.table : Zone → List ThermalLevel
  | .little => thermalLittle
  | .big => thermalBig
  | .gpu => thermalGpu

def ClusterId.zone : ClusterId → Zone
  | .little => .little
  | .big => .big

/-- The statics of the driver. -/
structure Policy where
  cluster : ClusterId → Cluster
  filter : Zone → TmuFilter
  gpuLvl : Nat
  gpuChanged : Int
  boost : Bool
  idleFloorOn : Bool

/-- `up_at` and `max_khz` of an entry of a table. -/
def upAt (lv : List ThermalLevel) (i : Nat) : Int := (lv[i]?.map ThermalLevel.upAt).getD 0

def maxKhz (lv : List ThermalLevel) (i : Nat) : Nat := (lv[i]?.map ThermalLevel.maxKhz).getD 0

/-! ## 2. Filter and thermal level

The filter takes the median of three, and lets an invalid reading through as it is.  The level is
then chosen from the filtered value. -/

/-- `s9p_tmu_filtered`. -/
def tmuFiltered (f : TmuFilter) (value : Int) : TmuFilter × Int :=
  if value = INT_MIN then (f, INT_MIN)
  else
    let f' : TmuFilter :=
      if !f.primed then { f with sample := fun _ => value, primed := true }
      else { f with sample := Function.update f.sample f.next value, next := f.next + 1 }
    (f', med3 (f'.sample 0) (f'.sample 1) (f'.sample 2))

/-- The loop `for (i = 1; i < n; i++)` of `s9p_thermal_next`. -/
def wantLevel (temp : Int) (lv : List ThermalLevel) : Nat :=
  (List.range' 1 (lv.length - 1)).foldl (fun want i => if upAt lv i ≤ temp then i else want) 0

/-- `ktime_ms_delta`, of times in nanoseconds. -/
def ktimeMsDelta (later earlier : Int) : Int := (later - earlier).tdiv 1000000

/-- `s9p_thermal_next`: the next level, and `*changed`.  A rise takes effect at once; a fall is by
one level, and only after the hold time. -/
def thermalNext (cur : Nat) (temp : Int) (lv : List ThermalLevel) (now changed : Int) :
    Nat × Int :=
  if temp = INT_MIN then (cur, changed)
  else if cur < wantLevel temp lv then (wantLevel temp lv, now)
  else if 0 < cur ∧ temp < upAt lv cur - THERMAL_HYST ∧
      THERMAL_HOLD_MS ≤ ktimeMsDelta now changed then (cur - 1, now)
  else (cur, changed)

/-! ## 3. QoS requests

A request that is not there is `none`, and updating it does nothing.  The core may refuse to add
one, and then those already added are removed. -/

/-- `freq_qos_add_request`, which refuses a request that is there already and may fail. -/
def qosAdd (accept : Bool) (v : Nat) (req : Option Nat) : Option (Option Nat) :=
  if req.isSome ∨ accept = false then none else some (some v)

/-- `freq_qos_update_request`, which does nothing to a request that is not there. -/
def qosUpdate (v : Nat) (req : Option Nat) : Option Nat := req.map (fun _ => v)

/-- The value of the boost request. -/
def boostMax (boost : Bool) (c : ClusterId) : Nat :=
  if boost then FREQ_QOS_MAX_DEFAULT_VALUE else c.safeMax

/-- `s9p_big_cap_for`. -/
def bigCapFor (busy : Nat) : Nat :=
  if 3 ≤ busy then 1794000 else if busy = 2 then 2327000 else 2704000

/-- `s9p_init`; `accept k` says whether the core takes the `k`-th of the four requests.  The
requests already added are taken back when one is refused. -/
def init (c : ClusterId) (accept : Fin 4 → Bool) (s : Policy) : Policy :=
  let k := s.cluster c
  if !k.mapped then s
  else
    match qosAdd (accept 0) FREQ_QOS_MAX_DEFAULT_VALUE k.qosThermal with
    | none => s
    | some qosThermal =>
      match qosAdd (accept 1) FREQ_QOS_MAX_DEFAULT_VALUE k.qosBusy with
      | none => { s with cluster := Function.update s.cluster c { k with qosThermal := none } }
      | some qosBusy =>
        match qosAdd (accept 2) (boostMax s.boost c) k.qosBoost with
        | none =>
          { s with
            cluster := Function.update s.cluster c { k with qosThermal := none, qosBusy := none } }
        | some qosBoost =>
          match qosAdd (accept 3) FREQ_QOS_MAX_DEFAULT_VALUE k.qosIdle with
          | none =>
            { s with
              cluster := Function.update s.cluster c
                { k with qosThermal := none, qosBusy := none, qosBoost := none } }
          | some qosIdle =>
            { s with
              cluster := Function.update s.cluster c
                { k with
                  qosThermal := qosThermal, qosBusy := qosBusy, qosBoost := qosBoost,
                  qosIdle := qosIdle, idlePolls := 0, idleCapped := false, qosAdded := true } }

/-- `s9p_exit`. -/
def exit (c : ClusterId) (s : Policy) : Policy :=
  let k := s.cluster c
  if k.qosAdded then
    { s with
      cluster := Function.update s.cluster c
        { k with
          qosAdded := false, qosIdle := none, qosBoost := none, qosBusy := none,
          qosThermal := none } }
  else s

/-- `s9p_apply_boost` for one cluster. -/
def applyBoost (boost : Bool) (c : ClusterId) (k : Cluster) : Cluster :=
  if k.qosAdded then { k with qosBoost := qosUpdate (boostMax boost c) k.qosBoost } else k

/-- `s9p_boost_set`, with the number stored. -/
def boostSet (v : Nat) (s : Policy) : Policy :=
  let boost := decide (v ≠ 0)
  { s with boost := boost, cluster := fun c => applyBoost boost c (s.cluster c) }

/-! ## 4. The poll

The loop body has three parts for each cluster, one for each request that the poll looks after.  The
GPU comes last. -/

/-- What a poll finds: the time, the raw maximum of each sensor group, the number of busy M3 cores
and which cluster has none busy.  All of it is input, and a later poll may find anything. -/
structure Poll where
  now : Int
  raw : Zone → Int
  busy : Nat
  idle : ClusterId → Bool

/-- The lowest step of a cluster. -/
def floorKhz (c : ClusterId) : Nat := (c.steps.getLast?.map PllStep.freqKhz).getD 0

/-- `s9p_idle_floor`. -/
def idleFloor (on : Bool) (c : ClusterId) (idle : Bool) (k : Cluster) : Cluster :=
  if !k.qosAdded then k
  else
    let idlePolls :=
      if on ∧ idle then (if k.idlePolls < IDLE_ENTER_POLLS then k.idlePolls + 1 else k.idlePolls)
      else 0
    let want := decide (IDLE_ENTER_POLLS ≤ idlePolls)
    if want = k.idleCapped then { k with idlePolls := idlePolls }
    else
      { k with
        idlePolls := idlePolls, idleCapped := want,
        qosIdle := qosUpdate (if want then floorKhz c else FREQ_QOS_MAX_DEFAULT_VALUE) k.qosIdle }

/-- The thermal part of the loop body, for the filtered temperature `t`. -/
def thermalStep (c : ClusterId) (t now : Int) (k : Cluster) : Cluster :=
  let nx := thermalNext k.thermalLvl t c.thermal now k.thermalChanged
  if nx.1 ≠ k.thermalLvl then
    { k with
      thermalLvl := nx.1, thermalChanged := nx.2,
      qosThermal := qosUpdate (maxKhz c.thermal nx.1) k.qosThermal }
  else { k with thermalChanged := nx.2 }

/-- The busy-core part, for the M3 cluster only. -/
def busyStep (c : ClusterId) (busy : Nat) (k : Cluster) : Cluster :=
  if c = .big then
    let cap := bigCapFor busy
    if cap ≠ k.busyCap then { k with busyCap := cap, qosBusy := qosUpdate cap k.qosBusy } else k
  else k

/-- The loop body of `s9p_policy_work`. -/
def clusterPoll (on : Bool) (p : Poll) (c : ClusterId) (t : Int) (k : Cluster) : Cluster :=
  if !k.qosAdded then k
  else idleFloor on c (p.idle c) (busyStep c p.busy (thermalStep c t p.now k))

/-- `s9p_policy_work`; `setKhz` is `s9p_g3d_set_khz`. -/
def policyWork {m : Type → Type} [Monad m] (setKhz : Nat → m Int) (p : Poll) (s : Policy) :
    m Policy := do
  let t := fun z => (tmuFiltered (s.filter z) (p.raw z)).2
  let nx := thermalNext s.gpuLvl (t .gpu) thermalGpu p.now s.gpuChanged
  let s' : Policy := { s with
    filter := fun z => (tmuFiltered (s.filter z) (p.raw z)).1
    cluster := fun c => clusterPoll s.idleFloorOn p c (t c.zone) (s.cluster c)
    gpuChanged := nx.2 }
  if nx.1 ≠ s.gpuLvl then do
    let ret ← setKhz (maxKhz thermalGpu nx.1)
    if ret = 0 then return { s' with gpuLvl := nx.1 } else return s'
  else return s'

/-- The later parts of the loop body leave the thermal level and its request alone. -/
@[simp] theorem busyStep_thermal (c : ClusterId) (busy : Nat) (k : Cluster) :
    (busyStep c busy k).thermalLvl = k.thermalLvl ∧
      (busyStep c busy k).thermalChanged = k.thermalChanged ∧
      (busyStep c busy k).qosThermal = k.qosThermal := by
  unfold busyStep
  dsimp only
  repeat' split
  all_goals exact ⟨rfl, rfl, rfl⟩

@[simp] theorem idleFloor_thermal (on : Bool) (c : ClusterId) (idle : Bool) (k : Cluster) :
    (idleFloor on c idle k).thermalLvl = k.thermalLvl ∧
      (idleFloor on c idle k).thermalChanged = k.thermalChanged ∧
      (idleFloor on c idle k).qosThermal = k.qosThermal := by
  unfold idleFloor
  dsimp only
  repeat' split
  all_goals exact ⟨rfl, rfl, rfl⟩

/-- The other parts leave the busy cap and its request alone. -/
@[simp] theorem thermalStep_busy (c : ClusterId) (t now : Int) (k : Cluster) :
    (thermalStep c t now k).busyCap = k.busyCap ∧
      (thermalStep c t now k).qosBusy = k.qosBusy := by
  unfold thermalStep
  dsimp only
  split
  · exact ⟨rfl, rfl⟩
  · exact ⟨rfl, rfl⟩

@[simp] theorem idleFloor_busy (on : Bool) (c : ClusterId) (idle : Bool) (k : Cluster) :
    (idleFloor on c idle k).busyCap = k.busyCap ∧
      (idleFloor on c idle k).qosBusy = k.qosBusy := by
  unfold idleFloor
  dsimp only
  repeat' split
  all_goals exact ⟨rfl, rfl⟩

/-- A poll neither sets up a policy nor tears one down. -/
@[simp] theorem clusterPoll_qosAdded (on : Bool) (p : Poll) (c : ClusterId) (t : Int)
    (k : Cluster) : (clusterPoll on p c t k).qosAdded = k.qosAdded := by
  have hidle : ∀ k' : Cluster, (idleFloor on c (p.idle c) k').qosAdded = k'.qosAdded := by
    intro k'
    unfold idleFloor
    dsimp only
    repeat' split
    all_goals rfl
  unfold clusterPoll
  split
  · rfl
  · rw [hidle]
    unfold busyStep thermalStep
    dsimp only
    repeat' split
    all_goals rfl

/-- The statics after a poll to which `s9p_g3d_set_khz` answers `ret`. -/
theorem policyWork_eq (s : Policy) (p : Poll) (ret : Int) :
    let t := fun z => (tmuFiltered (s.filter z) (p.raw z)).2
    let nx := thermalNext s.gpuLvl (t .gpu) thermalGpu p.now s.gpuChanged
    policyWork (m := Id) (fun _ => ret) p s =
      { s with
        filter := fun z => (tmuFiltered (s.filter z) (p.raw z)).1
        cluster := fun c => clusterPoll s.idleFloorOn p c (t c.zone) (s.cluster c)
        gpuChanged := nx.2
        gpuLvl := if ret = 0 then nx.1 else s.gpuLvl } := by
  dsimp only [policyWork]
  split
  · by_cases hret : ret = 0
    · simp only [hret, if_true]
      rfl
    · simp only [hret, if_false]
      exact if_neg hret
  · rename_i hsame
    rw [not_not.mp hsame, ite_self]
    rfl

/-! ## 5. Runs

Each event is one step.  In the source a store to `boost` may also fall between two statements of an
init, which these runs do not have. -/

/-- What can happen; `ret` is what `s9p_g3d_set_khz` answers if the poll calls it.  An init or an
exit is for one cluster, as each is a cpufreq policy of its own. -/
inductive Event where
  | init (c : ClusterId) (accept : Fin 4 → Bool)
  | exit (c : ClusterId)
  | boostSet (v : Nat)
  | idleFloorSet (on : Bool)
  | poll (p : Poll) (ret : Int)

def Policy.step (s : Policy) : Event → Policy
  | .init c accept => init c accept s
  | .exit c => exit c s
  | .boostSet v => boostSet v s
  | .idleFloorSet on => { s with idleFloorOn := on }
  | .poll p ret => policyWork (m := Id) (fun _ => ret) p s

/-- The statics as the module is loaded. -/
structure Fresh (s : Policy) : Prop where
  clusters : ∀ c, (s.cluster c).thermalLvl = 0 ∧ (s.cluster c).busyCap = 0 ∧
    (s.cluster c).qosAdded = false ∧ (s.cluster c).idleCapped = false ∧
    (s.cluster c).qosThermal = none ∧ (s.cluster c).qosBusy = none ∧
    (s.cluster c).qosBoost = none ∧ (s.cluster c).qosIdle = none
  filters : ∀ z, (s.filter z).next = 0 ∧ (s.filter z).primed = false
  gpu : s.gpuLvl = 0

/-- The statics at boot, with the windows of both clusters mapped. -/
def atBoot : Policy where
  cluster := fun _ => {
    mapped := true, thermalLvl := 0, thermalChanged := 0, busyCap := 0, qosThermal := none,
    qosBusy := none, qosBoost := none, qosIdle := none, idlePolls := 0, idleCapped := false,
    qosAdded := false }
  filter := fun _ => ⟨fun _ => 0, 0, false⟩
  gpuLvl := 0
  gpuChanged := 0
  boost := false
  idleFloorOn := false

theorem fresh_atBoot : Fresh atBoot := by
  constructor <;> intros <;> simp [atBoot]

/-- The state after a run. -/
def Policy.run (s : Policy) (es : List Event) : Policy := es.foldl Policy.step s

/-- The level in force and the time stamp that goes with it. -/
def Policy.level (s : Policy) : Zone → Nat
  | .little => (s.cluster .little).thermalLvl
  | .big => (s.cluster .big).thermalLvl
  | .gpu => s.gpuLvl

def Policy.changed (s : Policy) : Zone → Int
  | .little => (s.cluster .little).thermalChanged
  | .big => (s.cluster .big).thermalChanged
  | .gpu => s.gpuChanged

/-- Whether a poll acts on the temperature of a zone: the policy of the cluster is up, the
GPU driver does not refuse. -/
def Policy.acts (s : Policy) (ret : Int) : Zone → Prop
  | .little => (s.cluster .little).qosAdded = true
  | .big => (s.cluster .big).qosAdded = true
  | .gpu => ret = 0

@[simp] theorem run_nil (s : Policy) : s.run [] = s := rfl

@[simp] theorem run_append (s : Policy) (es : List Event) (e : Event) :
    s.run (es ++ [e]) = (s.run es).step e := by
  simp [Policy.run]

end S9p.Cpufreq
