/-
# The governor's periods

Every period `main` of `s9p-governor` reads the CPU times, the job interrupts of the GPU and the
thermal sensors, moves the step it wants for each cluster, caps it and switches.  It owns the GPU,
and with `S9P_GOV_CPU=1` the CPU clusters too; otherwise it caps those through cpufreq.

Here a period gets what it reads as a `Sample`, and what the floating point unit makes of it is a
parameter of which only the order of the results is used.  The counts of the job interrupt are read
out of the text of `/proc/interrupts`, since that is where the script may stumble: it takes the
eight words behind the number of the interrupt for counts, and with a CPU offline one of them is a
name.

`rail_safe_iff`: with every raise heard, every rail stays above its clock through every run if and
only if the script is started with each clock on its table, or no faster than the first step.
-/
import S9p.Governor.Switch
import S9p.Lib.Reading

namespace S9p.Governor

open Field Device
open S9p.G3d (Word)

/-! ## 1. What is read

The readings are inputs, and each period has its own.  Nothing is assumed of them, but that floating
point comparisons are those of a linear order. -/

def HOT : Int := 75
def CRIT : Int := 85
def HOLD_UP : Int := 1
def HOLD_DOWN : Int := 6

def BIG_CAP_BY_BUSY : List (Nat × Nat) := [(0, 4), (1, 4), (2, 3), (3, 2), (4, 2)]

/-- What the script computes in floating point, and what it compares the results with. -/
structure Floats (α : Type) [LinearOrder α] where
  /-- `1.0 - idle / max(1, total)` -/
  util : Int → Int → α
  /-- `jobs / dt` -/
  jobRate : Int → α → α
  zero : α
  UP : α
  DOWN : α
  half : α
  rate150 : α
  rate30 : α
  rate10 : α
  down_lt_up : DOWN < UP
  rate10_lt_30 : rate10 < rate30
  rate30_lt_150 : rate30 < rate150

/-- The environment of the script: `S9P_GOV_CPU` and `S9P_GOV_MAX`. -/
structure Config where
  cpuOn : Bool
  maxStep : Cluster → Option Int

/-- `cpu_times`: total and idle time of each CPU that is online. -/
abbrev Times := List (Nat × Int × Int)

/-- `gpu_jobs`, from the lines of `/proc/interrupts`.  A line has a count for each CPU that is
online; what follows them is the name of the interrupt controller, which `int` does not take. -/
def gpuJobs (interrupts : List String) : Except Stop Int :=
  match interrupts.find? (fun l => "panfrost-job".toList <:+: l.toList) with
  | some l => do
    let counts ← (((Reading.words l).drop 1).take 8).mapM fun x =>
      (Reading.int x).elim (.error .valueError) .ok
    return counts.sum
  | none => .ok 0

/-- The count, where there is one. -/
def jobsIn (interrupts : List String) : Int := (gpuJobs interrupts).toOption.getD 0

/-- What one period reads; `tmu sensor addr` is the register as read for that sensor. -/
structure Sample (α : Type) where
  times : Times
  interrupts : List String
  dt : α
  tmu : Nat → Nat → Word

/-- The count that a period goes on with, if it goes on. -/
def Sample.jobs {α : Type} (r : Sample α) : Int := jobsIn r.interrupts

/-- Where the temperature of a sensor is: the offset of its register, and the first sensor in
it. -/
def tempReg (s : Nat) : Nat × Nat :=
  if s < 2 then (0x40, 0) else if s < 5 then (0x44, 2) else (0x48, 5)

/-- `temps`. -/
def temps (tmu : Nat → Nat → Word) (base : Nat) (sensors : List Nat) : List Int :=
  sensors.map fun s =>
    let trim := tmu s (base + s * 4)
    let e1 : Int := (trim &&& 0x1ff#32).toNat
    let e2 : Int := ((trim >>> 9) &&& 0x1ff#32).toNat
    let (off, first) := tempReg s
    let code : Int := ((tmu s (base + off) >>> (9 * (s - first))) &&& 0x1ff#32).toNat
    if e1 < e2 then (code - e1) * 60 / (e2 - e1) + 25 else code - e1 + 25

/-- `hottest`. -/
def hottest (tmu : Nat → Nat → Word) : Int :=
  ((temps tmu 0x10070000 [1, 2, 3, 4, 6] ++ temps tmu 0x10074000 [1]).max?).getD 0

/-! ## 2. What is decided

These functions are the inner part of the loop of `main`, cut where the script goes from one table
to the next. -/

/-- The variables of the loop.  They are the only memory of the script from one period to the
next. -/
structure Gov where
  prev : Times
  prevJobs : Int
  want : Cluster → Nat
  evid : Cluster → Int

section Decide

variable {α : Type} [LinearOrder α] (fl : Floats α) (cfg : Config)

/-- `util`: `now[cpu]` against `prev[cpu]`. -/
def utils (now prev : Times) : Except Stop (List (Nat × α)) :=
  now.mapM fun (cpu, t1, i1) =>
    match prev.lookup cpu with
    | some (t0, i0) => .ok (cpu, fl.util (i1 - i0) (t1 - t0))
    | none => .error .keyError

/-- `loads[n]`; its order only matters to what is printed. -/
def loads (n : Cluster) (util : List (Nat × α)) : Except Stop (List α) :=
  (CLUSTERS n).cpus.mapM fun c =>
    match util.lookup c with
    | some u => .ok u
    | none => .error .keyError

/-- The step wanted for a CPU cluster and the evidence, `top` being the load of its busiest
core. -/
def cpuStep (last : Nat) (top : α) : Nat × Int → Nat × Int
  | (cur, evid) =>
    if fl.UP ≤ top ∧ cur < last then
      let evid := if 0 ≤ evid then evid + 1 else 1
      if HOLD_UP ≤ evid then (cur + 1, 0) else (cur, evid)
    else if top ≤ fl.DOWN ∧ 0 < cur then
      let evid := if evid ≤ 0 then evid - 1 else -1
      if HOLD_DOWN ≤ -evid then (cur - 1, 0) else (cur, evid)
    else (cur, 0)

/-- The step wanted for the GPU and the evidence. -/
def gpuStep (jobRate : α) : Nat × Int → Nat × Int
  | (g, evid) =>
    if fl.rate150 < jobRate ∧ g < 2 then (g + 1, evid)
    else if fl.rate30 < jobRate ∧ g < 1 then (1, evid)
    else if jobRate < fl.rate10 ∧ 0 < g then
      let evid := evid - 1
      if HOLD_DOWN ≤ -evid then (g - 1, 0) else (g, evid)
    else (g, evid)

/-- `want[n]` and `evid[n]` of all clusters after a period. -/
def moved (load : Cluster → List α) (jobRate : α) (g : Gov) (n : Cluster) : Nat × Int :=
  match n with
  | .gpu => gpuStep fl jobRate (g.want .gpu, g.evid .gpu)
  | _ =>
    if cfg.cpuOn then
      let top := ((load n).max?).getD fl.zero
      cpuStep fl ((CLUSTERS n).steps.length - 1) top (g.want n, g.evid n)
    else (g.want n, g.evid n)

/-- The target of a cluster, `busy` M3 cores being busy at `temp` degrees. -/
def targetOf (want : Cluster → Nat) (cap : Nat) (temp : Int) (n : Cluster) : Int :=
  let target : Int := min (want n) ((cfg.maxStep n).getD 9)
  let target : Int := if cfg.cpuOn ∧ n = .big then min target cap else target
  if CRIT ≤ temp then 0 else if HOT ≤ temp then min target 1 else target

/-- The dict `loads`. -/
def loadTable (big little : List α) : Cluster → List α
  | .big => big
  | .little => little
  | .gpu => []

/-- What a period decides.  The temperature goes with it, since the caps of the clocks the kernel
owns are taken from it as well. -/
structure Decision where
  temp : Int
  target : Cluster → Int

/-- A period up to the caps. -/
def decided (g : Gov) (r : Sample α) : Except Stop (Gov × Decision) := do
  let jobs ← gpuJobs r.interrupts
  let util ← utils fl r.times g.prev
  let temp := hottest r.tmu
  let big ← loads .big util
  let little ← loads .little util
  let move := moved fl cfg (loadTable big little) (fl.jobRate (jobs - g.prevJobs) r.dt) g
  let busy := big.countP (fun u => fl.half ≤ u)
  let g : Gov := ⟨r.times, jobs, fun n => (move n).1, fun n => (move n).2⟩
  match BIG_CAP_BY_BUSY.lookup busy with
  | some cap => .ok (g, ⟨temp, targetOf cfg g.want cap temp⟩)
  | none => .error .keyError

end Decide

/-! ## 3. What is done

A period switches the clocks the script owns, or writes the caps of those it does not.  It stops
with the exception of whatever goes wrong in it. -/

/-- The clusters the governor owns, in the order of `CLUSTERS`. -/
def owned (cfg : Config) : List Cluster := if cfg.cpuOn then [.big, .little, .gpu] else [.gpu]

/-- The same in the order they are parked in. -/
def parked (cfg : Config) : List Cluster := if cfg.cpuOn then [.gpu, .big, .little] else [.gpu]

/-- `for n, v in target.items(): go(n, v)`. -/
def goAll (target : Cluster → Int) : List Cluster → ExceptT Stop P Unit
  | [] => pure ()
  | n :: ns => do
    go n (target n)
    goAll target ns

/-- `cap_cpu`: an `OSError` is passed over. -/
def capCpu (bigKhz littleKhz : Nat) : P Unit := do
  .perform (Op.maxFreq .policy4 bigKhz)
  .perform (Op.maxFreq .policy0 littleKhz)

/-- The caps of a period, while the kernel owns the CPU clocks. -/
def capped (cfg : Config) (temp : Int) : P Unit :=
  if cfg.cpuOn then pure ()
  else if CRIT ≤ temp then capCpu 1066000 650000
  else if HOT ≤ temp then capCpu 2327000 1499333
  else capCpu 2704000 1794000

section Main

variable {α : Type} [LinearOrder α] (fl : Floats α) (cfg : Config)

/-- The body of the loop. -/
def period (g : Gov) (r : Sample α) : ExceptT Stop P Gov :=
  match decided fl cfg g r with
  | .error e => throw e
  | .ok (g', d) => do
    liftM (capped cfg d.temp)
    goAll d.target (owned cfg)
    return g'

/-- The loop until it is told to stop, one sample for each time round. -/
def periods (g : Gov) : List (Sample α) → ExceptT Stop P Gov
  | [] => pure g
  | r :: rs => do
    let g ← period fl cfg g r
    periods g rs

/-- `main` up to the end of its loop.  The first readings are made once the clocks are parked. -/
def launch (times : Times) (interrupts : List String) (rs : List (Sample α)) :
    ExceptT Stop P Gov := do
  goAll (fun _ => 0) (parked cfg)
  match gpuJobs interrupts with
  | .error e => throw e
  | .ok jobs => periods fl cfg ⟨times, jobs, fun _ => 0, fun _ => 0⟩ rs

/-- `main`. -/
def main (times : Times) (interrupts : List String) (rs : List (Sample α)) :
    ExceptT Stop P Unit := do
  let _ ← launch fl cfg times interrupts rs
  goAll (fun _ => 0) (parked cfg)

end Main

/-! ## 4. The rails

What a switch needs is that the clock is known, and it leaves a clock that is.  So the question is
only how the script finds them. -/

section Rails

variable {cfg : Config} {n k : Cluster} {s t : Soc} {target : Int}

/-- The PLL is on a step of the table, or no faster than the first one.  Such a PLL is either
recognised by the script, or needs no more than what the script sets for the lowest step. -/
def Known (n : Cluster) (s : Soc) : Prop :=
  OnTable n s ∨ ∃ st, (CLUSTERS n).steps[0]? = some st ∧ rate n s ≤ st.khz

/-- A cluster whose rail covers its clock, which is known. -/
def Found (n : Cluster) (s : Soc) : Prop := Covered n s ∧ Known n s

theorem Found.railSafe (h : Found n s) : RailSafe n s := h.1.value

/-- The first step needs no more than any other. -/
theorem enough_of_first {first st : Step} {f : Nat} (hfirst : (CLUSTERS n).steps[0]? = some first)
    (hst : st ∈ (CLUSTERS n).steps) (hf : f ≤ first.khz) : Enough n f st.code := by
  have htable : ∀ a ∈ (CLUSTERS n).steps[0]?, ∀ b ∈ (CLUSTERS n).steps, a.khz ≤ b.khz := by
    cases n <;> decide
  exact (enough_code hst).mpr (hf.trans (htable first hfirst st hst))

/-- What is said of the PLL and the rail of a cluster as they were in `s`. -/
def AsIn (k : Cluster) (s : Soc) : Soc → Prop :=
  At k (LateReg.All (Enough k (rate k s))) (fun m => m (CLUSTERS k).con0 = s.mem (CLUSTERS k).con0)

theorem Found.asIn (h : Found k s) (ht : AsIn k s t) : Found k t := by
  have hcon0 : t.mem (CLUSTERS k).con0 = s.mem (CLUSTERS k).con0 := ht.2
  have hrate : rate k t = rate k s := congrArg G3d.pllKhz hcon0
  refine ⟨?_, ?_⟩
  · unfold Covered
    rw [hrate]
    exact ht.1
  · unfold Known OnTable
    rw [hcon0, hrate]
    exact h.2

theorem found_stable (k : Cluster) : soc.Stable (Found k) := by
  intro e s t h hs
  exact hs.asIn (at_stable (lands_all k _) e s t h ⟨hs.1, rfl⟩)

variable (n target) in
/-- A switch of any cluster keeps what was found of each. -/
theorem wp_go_found (hs : Found k s) :
    fwp soc heard (fun t _ => RailSafe k t) (go n target) (fun _ t => Found k t)
      (fun _ t => Found k t) s := by
  by_cases hk : k = n
  · subst hk
    have hfound : ∀ t, Covered k t ∧ (OnTable k t ∨ t.mem = s.mem) → Found k t := by
      rintro t ⟨hcov, hon | hmem⟩
      · exact ⟨hcov, .inl hon⟩
      · refine ⟨hcov, ?_⟩
        unfold Known OnTable rate
        rw [hmem]
        exact hs.2
    refine fwp_mono (fun _ => hfound) (fun _ => hfound) (wp_go_safe hs.1 (hs.2.imp_right ?_))
    rintro ⟨first, hfirst, hslow⟩ st hitem
    obtain ⟨i, hi, -⟩ := item_mem hitem
    exact enough_of_first hfirst (List.mem_of_getElem? hi) hslow
  · have hstable := at_stable (n := k) (lands_all k (rate k s))
      (M := fun m => m (CLUSTERS k).con0 = s.mem (CLUSTERS k).con0)
    refine wp_mono (fun r t ht => ?_) (wp_of_uses (P := AsIn k s) hstable
      (fun o ho l u r v hu _ hact => act_elsewhere (M := (· = s.mem (CLUSTERS k).con0)) ho hu hact)
      (fun o t _ ht => (hs.asIn ht).railSafe) (fun t ht => (hs.asIn ht).railSafe)
      (uses_go hk target) ⟨hs.1, rfl⟩)
    cases r with
    | ok a => exact hs.asIn ht
    | error e => exact hs.asIn ht

/-- All clusters in `J` are found well. -/
def AllFound (J : Cluster → Prop) (s : Soc) : Prop := ∀ k, J k → Found k s

/-- The rails of the clocks `J`. -/
def AllSafe (J : Cluster → Prop) (s : Soc) : Prop := ∀ k, J k → RailSafe k s

variable {J : Cluster → Prop}

theorem AllFound.safe (h : AllFound J s) : AllSafe J s := fun k hk => (h k hk).railSafe

theorem allFound_stable (J : Cluster → Prop) : soc.Stable (AllFound J) :=
  fun e s t h hs k hk => found_stable k e s t h (hs k hk)

theorem wp_goAll_found {target : Cluster → Int} (l : List Cluster) (hs : AllFound J s) :
    fwp soc heard (fun t _ => AllSafe J t) (goAll target l) (fun _ => AllFound J)
      (fun _ _ => True) s := by
  induction l generalizing s with
  | nil => exact fwp_pure (allFound_stable J) hs (fun _ ht => ht.safe) (fun _ h => h)
  | cons n l ih =>
    have hall := wp_all (fun k : { k // J k } => wp_go_found n (target n) (hs k k.2))
    refine fwp_bind (wp_mono ?_ (wp_step_mono (fun t o ht k hk => ht ⟨k, hk⟩) hall))
    intro r t ht
    cases r with
    | ok a => exact ih (fun k hk => ht ⟨k, hk⟩)
    | error e => trivial

/-- Caps touch no clock and no rail. -/
theorem uses_capped (cfg : Config) (temp : Int) :
    (capped cfg temp).Uses (fun o => ∃ pol khz, o = .maxFreq pol khz) := by
  unfold capped
  split
  · trivial
  · repeat' split
    all_goals exact ⟨⟨_, _, rfl⟩, fun _ => ⟨⟨_, _, rfl⟩, fun _ => trivial⟩⟩

theorem wp_capped_found (temp : Int) (hs : AllFound J s) :
    wp soc heard (fun t _ => AllSafe J t) (capped cfg temp) (fun _ => AllFound J) s := by
  refine wp_of_uses (allFound_stable J) ?_ (fun _ t _ ht => ht.safe) (fun _ ht => ht.safe)
    (uses_capped cfg temp) hs
  rintro o ⟨pol, khz, rfl⟩ l u r t hu - hact k hk
  exact (hu k hk).asIn (act_elsewhere (M := (· = u.mem (CLUSTERS k).con0))
    (show Elsewhere k (.maxFreq pol khz) from trivial) ⟨(hu k hk).1, rfl⟩ hact)

end Rails

section Main

variable {α : Type} [LinearOrder α] {fl : Floats α} {cfg : Config} {n : Cluster} {s t : Soc}
  {times : Times} {interrupts : List String} {g : Gov} {r : Sample α} {rs : List (Sample α)}
  {J : Cluster → Prop}

theorem wp_period_found (hs : AllFound J s) :
    fwp soc heard (fun t _ => AllSafe J t) (period fl cfg g r) (fun _ => AllFound J)
      (fun _ _ => True) s := by
  unfold period
  cases decided fl cfg g r with
  | error e => exact fwp_throw (allFound_stable J) hs (fun _ ht => ht.safe) (fun _ _ => trivial)
  | ok x =>
    refine fwp_bind (fwp_lift (wp_mono (fun _ t ht => ?_) (wp_capped_found _ hs)))
    refine fwp_bind (fwp_mono (fun _ u hu => ?_) (fun _ _ h => h) (wp_goAll_found _ ht))
    exact fwp_pure (allFound_stable J) hu (fun _ ht => ht.safe) (fun _ h => h)

/-- The loop, by induction on its samples. -/
theorem wp_periods_found (hs : AllFound J s) :
    fwp soc heard (fun t _ => AllSafe J t) (periods fl cfg g rs) (fun _ => AllFound J)
      (fun _ _ => True) s := by
  induction rs generalizing g s with
  | nil => exact fwp_pure (allFound_stable J) hs (fun _ ht => ht.safe) (fun _ h => h)
  | cons r rs ih =>
    exact fwp_bind (fwp_mono (fun _ t ht => ih ht) (fun _ _ h => h) (wp_period_found hs))

theorem wp_main_found (hs : AllFound J s) :
    fwp soc heard (fun t _ => AllSafe J t) (main fl cfg times interrupts rs)
      (fun _ => AllFound J) (fun _ _ => True) s := by
  refine fwp_bind (fwp_mono (fun _ t ht => wp_goAll_found _ ht) (fun _ _ h => h) ?_)
  refine fwp_bind (fwp_mono (fun _ t ht => ?_) (fun _ _ h => h) (wp_goAll_found _ hs))
  split
  · exact fwp_throw (allFound_stable J) ht (fun _ ht => ht.safe) (fun _ _ => trivial)
  · exact wp_periods_found ht

theorem mem_parked : n ∈ parked cfg ↔ n ∈ owned cfg := by
  unfold parked owned
  split
  · cases n <;> simp
  · rfl

theorem nodup_parked (cfg : Config) : (parked cfg).Nodup := by
  unfold parked
  split <;> decide

theorem goAll_append (target : Cluster → Int) (l l' : List Cluster) :
    goAll target (l ++ l') = (do goAll target l; goAll target l') := by
  induction l with
  | nil => simp [goAll]
  | cons n l ih => simp [goAll, ih]

/-- Every operation can be answered, after what is on its way has landed. -/
theorem soc_goes (s : Soc) (o : Op) : ∃ s' l r u, soc.Drift s s' ∧ heard s' o l = true ∧
    soc.act o l s' = some (r, u) := by
  let l : Luck := ⟨true, false, 0, .acked, true⟩
  cases o with
  | rd | wr | looks | maxFreq => exact ⟨s, l, _, _, .refl, rfl, rfl⟩
  | acpm reg val =>
    cases hfed : fed reg with
    | none =>
      refine ⟨s, l, l.pmic.ret, s, .refl, by simp [heard, hfed], ?_⟩
      simp [soc, act, hfed]
    | some n =>
      obtain ⟨u, hu, hempty, -⟩ := drift_landed n s
      refine ⟨u, l, 0, u.setBuck n ⟨val, []⟩, hu, by simp [heard, hfed, l], ?_⟩
      simp [soc, act, hfed, l, LateReg.write, hempty, LateReg.Outcome.ret]

theorem uses_goAll (target : Cluster → Int) {l : List Cluster} (hn : n ∉ l) :
    (goAll target l).run.Uses (Elsewhere n) := by
  induction l with
  | nil => trivial
  | cons k l ih =>
    obtain ⟨hk, hl⟩ := not_or.mp (mt List.mem_cons.mpr hn)
    exact uses_run_bind (uses_go hk _) (fun _ => ih hl)

/-- Programs that stay away from a cluster keep its PLL and what is on its rail. -/
theorem wp_elsewhere {β : Type} (ok : Soc → (o : Op) → Luck → Bool)
    {R : LateReg (BitVec 8) → Prop} {M : Word → Prop} (hR : Lands R) {p : P β}
    (hp : p.Uses (Elsewhere n)) (hs : At n R (fun m => M (m (CLUSTERS n).con0)) s) :
    wp soc ok (fun _ _ => True) p (fun _ => At n R (fun m => M (m (CLUSTERS n).con0))) s :=
  wp_of_uses (at_stable hR) (fun _ ho _ _ _ _ hu _ hact => act_elsewhere ho hu hact)
    (fun _ _ _ _ => trivial) (fun _ _ => trivial) hp hs

theorem steps_pos (n : Cluster) : 0 < (CLUSTERS n).steps.length := by cases n <;> decide

theorem item_isSome {β : Type} {l : List β} {j : Int} (h0 : 0 ≤ j) (h : j < l.length) :
    item l j ≠ none := by
  unfold item
  rw [if_pos h0, ne_eq, List.getElem?_eq_none_iff]
  omega

/-- **Switching several clusters**: each ends at its step, whatever the hardware answers. -/
theorem wp_goAll_ends {ok : Soc → (o : Op) → Luck → Bool} {target : Cluster → Int}
    {l : List Cluster} (hnodup : l.Nodup)
    (hrange : ∀ n ∈ l, 0 ≤ target n ∧ target n < (CLUSTERS n).steps.length) :
    fwp soc ok (fun _ _ => True) (goAll target l)
      (fun _ t => ∀ n ∈ l, stepOf n (t.mem (CLUSTERS n).con0) = some (target n).toNat)
      (fun _ _ => False) s := by
  induction l generalizing s with
  | nil =>
    exact fwp_pure (P := fun _ => True) (fun _ _ _ _ _ => trivial) trivial
      (fun _ _ => trivial) (fun _ _ n hn => absurd hn (by simp))
  | cons n l ih =>
    obtain ⟨hn, hl⟩ := List.nodup_cons.mp hnodup
    obtain ⟨h0, hlen⟩ := hrange n List.mem_cons_self
    refine fwp_bind (fwp_mono (fun _ t ht => ?_) (fun _ _ he => item_isSome h0 hlen he)
      (wp_go_ends h0))
    have hkeep := wp_elsewhere ok (R := fun _ => True)
      (M := fun v => stepOf n v = some (target n).toNat) (fun _ _ _ _ => trivial)
      (uses_goAll target hn) ⟨trivial, ht⟩
    refine wp_mono ?_ (wp_step_mono (fun _ _ _ => trivial)
      (wp_and (ih hl (fun k hk => hrange k (List.mem_cons_of_mem _ hk)) (s := t)) hkeep))
    rintro (e | a) u ⟨hu, hown⟩
    · exact hu
    · intro k hk
      rcases List.mem_cons.mp hk with rfl | hk
      · exact hown.2
      · exact hu k hk

/-- Every clock the governor owns is on the step the targets say. -/
def OnTargets (cfg : Config) (target : Cluster → Int) (t : Soc) : Prop :=
  ∀ n ∈ owned cfg, stepOf n (t.mem (CLUSTERS n).con0) = some (target n).toNat

theorem onTargets_stable (target : Cluster → Int) : soc.Stable (OnTargets cfg target) := by
  intro e s t h hs n hn
  obtain ⟨r, -, rfl⟩ := Option.map_eq_some_iff.mp h
  exact hs n hn

theorem nodup_owned (cfg : Config) : (owned cfg).Nodup := by
  unfold owned
  split <;> decide

/-- A period that decides on steps of the tables ends on them, whatever the hardware answers. -/
theorem wp_period_decided {ok : Soc → (o : Op) → Luck → Bool} {g' : Gov} {d : Decision}
    (h : decided fl cfg g r = .ok (g', d))
    (hrange : ∀ n ∈ owned cfg, 0 ≤ d.target n ∧ d.target n < (CLUSTERS n).steps.length) :
    fwp soc ok (fun _ _ => True) (period fl cfg g r)
      (fun a t => a = g' ∧ OnTargets cfg d.target t) (fun _ _ => False) s := by
  have htrue : soc.Stable (fun _ => True) := fun _ _ _ _ _ => trivial
  unfold period
  rw [h]
  refine fwp_bind (fwp_lift (wp_mono (fun _ u _ => ?_) (wp_of_uses (P := fun _ => True) htrue
    (fun _ _ _ _ _ _ _ _ _ => trivial) (fun _ _ _ _ => trivial) (fun _ _ => trivial)
    (uses_capped cfg _) trivial)))
  refine fwp_bind (fwp_mono (fun _ v hv => ?_) (fun _ _ h => h)
    (wp_goAll_ends (nodup_owned cfg) hrange))
  exact fwp_pure (onTargets_stable _) hv (fun _ _ => trivial) (fun w hw => ⟨rfl, hw⟩)

/-- **Exactly when the whole script is safe**: with every raise heard, all rails stay above their
clocks at every step of every run if and only if each clock is on its table, or no faster than
the first step, when the script starts. -/
theorem rail_safe_iff (hcov : ∀ n ∈ owned cfg, Covered n s) :
    (∀ tr q t, soc.Within heard (main fl cfg times interrupts rs).run s tr q t →
      ∀ n ∈ owned cfg, RailSafe n t) ↔ ∀ n ∈ owned cfg, Known n s := by
  constructor
  · intro hsafe n hn
    by_contra hnot
    -- the clusters parked before `n` leave it alone
    obtain ⟨pre, post, hsplit, hpre⟩ := List.eq_append_cons_of_mem (mem_parked.mpr hn)
    have hnodup : pre.Nodup := (List.nodup_append.mp (hsplit ▸ nodup_parked cfg)).1
    obtain ⟨tr, x, u, hruns⟩ := exists_runs soc_goes (goAll (fun _ => 0) pre).run s
    have hends := hruns.post (wp_goAll_ends hnodup
      (fun k _ => ⟨le_rfl, Int.natCast_pos.mpr (steps_pos k)⟩))
    have hfar := wp_elsewhere heard (M := (· = s.mem (CLUSTERS n).con0))
      (lands_all n (rate n s)) (uses_goAll (fun _ => 0) hpre) ⟨hcov n hn, rfl⟩
    obtain ⟨hrail, hcon0⟩ := hruns.post hfar
    have hrate : rate n u = rate n s := congrArg G3d.pllKhz hcon0
    cases x with
    | error e => exact hends
    | ok x =>
      -- there its own switch goes wrong
      obtain ⟨first, hfirst⟩ : ∃ st, item (CLUSTERS n).steps 0 = some st :=
        Option.ne_none_iff_exists'.mp (item_isSome le_rfl (Int.natCast_pos.mpr (steps_pos n)))
      obtain ⟨i, hi, hindex⟩ := item_mem hfirst
      obtain rfl : i = 0 := hindex le_rfl
      have hunsafe : ¬ ∀ tr q t, soc.Within heard (go n 0).run u tr q t → RailSafe n t := by
        rw [go_safe_iff (by rw [Covered, hrate]; exact hrail) le_rfl hfirst]
        rintro (hon | henough)
        · exact hnot (.inl (by rw [OnTable, ← hcon0]; exact hon))
        · refine hnot (.inr ⟨first, hi, ?_⟩)
          exact hrate ▸ (enough_code (List.mem_of_getElem? hi)).mp henough
      simp only [not_forall] at hunsafe
      obtain ⟨tr', q, t, hwithin, hlow⟩ := hunsafe
      have hpark : ∃ q tr, soc.Within heard (goAll (fun _ => 0) (parked cfg)).run s tr q t := by
        obtain ⟨q', hwithin⟩ := within_bind_left (fun _ => goAll (fun _ => 0) post) hwithin
        rw [hsplit, goAll_append]
        exact ⟨q', Can.within (a := x) ⟨tr, hruns⟩ ⟨tr', hwithin⟩⟩
      obtain ⟨q, tr, hpark⟩ := hpark
      obtain ⟨q, hlaunch⟩ : ∃ q,
        soc.Within heard (launch fl cfg times interrupts rs).run s tr q t :=
        within_bind_left _ hpark
      obtain ⟨q, hmain⟩ := within_bind_left (fun _ => goAll (fun _ => 0) (parked cfg)) hlaunch
      exact hlow (hsafe _ _ _ hmain n hn)
  · intro hknown tr q t h
    have hfound : AllFound (· ∈ owned cfg) s := fun k hk => ⟨hcov k hk, hknown k hk⟩
    exact h.mid (wp_main_found hfound) (fun _ _ h => h)

/-- Loads in percent. -/
def percent : Floats Int where
  util idle total := 100 - 100 * idle / max 1 total
  jobRate jobs dt := jobs / max 1 dt
  zero := 0
  UP := 70
  DOWN := 35
  half := 50
  rate150 := 150
  rate30 := 30
  rate10 := 10
  down_lt_up := by decide
  rate10_lt_30 := by decide
  rate30_lt_150 := by decide

/-- `S9P_GOV_CPU=1` and no `S9P_GOV_MAX`. -/
def allClusters : Config := ⟨true, fun _ => none⟩

/-- Clocks that have not been programmed, on high rails. -/
def unprogrammed : Soc := ⟨fun _ => 0, fun _ => ⟨0x88, []⟩, fun _ => none⟩

/-- Eight CPUs that have been idle for `idle` of `total` ticks. -/
def eight (total idle : Int) : Times := (List.range 8).map (fun c => (c, total, idle))

/-- What is read after `eight 0 0` when no CPU has been idle in between. -/
def busySample : Sample Int := ⟨eight 100 0, [], 1, fun _ _ => 0⟩

/-- A start in the middle of the tables, each rail at the voltage of its step. -/
def tuned : Soc where
  mem addr :=
    if addr = 0x1d100120 then Step.pms ⟨1794, 138, 2, 0, 0x5c⟩
    else if addr = 0x1d000140 then Step.pms ⟨1499, 173, 3, 0, 0x58⟩
    else if addr = 0x17400140 then Step.pms ⟨455, 455, 26, 0, 0x58⟩
    else 0
  buck n := ⟨match n with | .big => 0x5c | .little | .gpu => 0x58, []⟩
  cap _ := none

theorem tuned_covered (n : Cluster) : Covered n tuned := by
  intro v hv
  have htable : ∀ v ∈ (tuned.buck n).value :: (tuned.buck n).pending,
      ∃ st ∈ (CLUSTERS n).steps, rate n tuned ≤ st.khz ∧ st.code.toNat ≤ v.toNat := by
    cases n <;> decide
  exact htable v hv

theorem tuned_known (n : Cluster) : Known n tuned := by
  refine .inl ?_
  unfold OnTable
  cases n <;> decide

/-- A busy period takes the M3 cores from the step they are parked on to the next. -/
theorem rail_safe_iff_raised :
    (∀ tr q t, soc.Within heard (main percent allClusters (eight 0 0) [] [busySample]).run
      tuned tr q t → ∀ n ∈ owned allClusters, RailSafe n t) ∧
    ∃ tr q t, soc.Within heard (main percent allClusters (eight 0 0) [] [busySample]).run
      tuned tr q t ∧ stepOf .big (t.mem (CLUSTERS .big).con0) = some 1 := by
  refine ⟨(rail_safe_iff (fun n _ => tuned_covered n)).mpr (fun n _ => tuned_known n), ?_⟩
  obtain ⟨g, d, hdecided, hone, hrange⟩ : ∃ g d,
      decided percent allClusters ⟨eight 0 0, 0, fun _ => 0, fun _ => 0⟩ busySample = .ok (g, d) ∧
        d.target .big = 1 ∧
        ∀ n ∈ owned allClusters, 0 ≤ d.target n ∧ d.target n < (CLUSTERS n).steps.length :=
    ⟨_, _, rfl, by decide, by decide⟩
  have hends : fwp soc heard (fun _ _ => True)
      (launch percent allClusters (eight 0 0) [] [busySample])
      (fun _ t => stepOf .big (t.mem (CLUSTERS .big).con0) = some 1) (fun _ _ => False) tuned := by
    refine fwp_bind (fwp_mono (fun _ u _ => ?_) (fun _ _ h => h) (wp_goAll_ends
      (nodup_parked allClusters) (fun n _ => ⟨le_rfl, Int.natCast_pos.mpr (steps_pos n)⟩)))
    refine fwp_bind (fwp_mono ?_ (fun _ _ h => h) (wp_period_decided hdecided hrange))
    rintro _ v ⟨-, hsteps⟩
    have hbig := hsteps .big (by decide)
    rw [hone] at hbig
    have hstable := at_stable (n := .big) (R := fun _ => True)
      (M := fun m => stepOf .big (m (CLUSTERS .big).con0) = some 1) (fun _ _ _ _ => trivial)
    exact fwp_pure hstable ⟨trivial, hbig⟩ (fun _ _ => trivial) (fun _ h => h.2)
  obtain ⟨tr, x, t, h⟩ := exists_runs soc_goes
    (launch percent allClusters (eight 0 0) [] [busySample]).run tuned
  cases x with
  | error e => exact (h.post hends).elim
  | ok g =>
    obtain ⟨q, hmain⟩ := within_bind_left
      (fun _ => goAll (fun _ => 0) (parked allClusters)) h.within
    exact ⟨tr, q, t, hmain, h.post hends⟩

end Main

end S9p.Governor
