/-
# The governor's caps

What a period of `s9p-governor` decides from what it reads (`decided_of_online`), and where the
clocks are after it.

* `steps_capped`: whatever the hardware answers, a period ends with every clock the governor owns on
  one step, below what the thermal sensors, the busy M3 cores and the environment allow.
* `returns_iff`: the script comes to its end, and parks its clocks, exactly if all eight CPUs stay
  online and `gpu_jobs` finds eight numbers wherever it finds the job interrupt; otherwise it dies
  of a `KeyError` or a `ValueError` where it stands.

Of the two causes a CPU that is taken offline is both: its load is missing, and so is its count of
the job interrupt, for which `gpu_jobs` then takes the name of the interrupt controller.
-/
import S9p.Governor.Periods

namespace S9p.Governor

open Device

/-! ## 1. What a period decides

A period either decides, from readings that are all there, or it dies before it has switched
anything. -/

section Decided

variable {α : Type} [LinearOrder α] {fl : Floats α} {cfg : Config} {n : Cluster}
  {now prev : Times} {util : List (Nat × α)} {g g' : Gov} {r : Sample α} {d : Decision}
  {want : Cluster → Nat} {cap : Nat} {temp : Int}

/-- The load of a core between two readings, if both have it. -/
def coreUtil (fl : Floats α) (now prev : Times) (c : Nat) : Option α :=
  match now.lookup c, prev.lookup c with
  | some (t1, i1), some (t0, i0) => some (fl.util (i1 - i0) (t1 - t0))
  | _, _ => none

/-- How many M3 cores are busy. -/
def busyCores (fl : Floats α) (now prev : Times) : Nat :=
  (CLUSTERS .big).cpus.countP (fun c => (coreUtil fl now prev c).any (fun u => fl.half ≤ u))

/-- The CPUs that are online are among those of the last reading, and all eight are there. -/
def Online (now prev : Times) : Prop :=
  (∀ x ∈ now, (prev.lookup x.1).isSome) ∧ ∀ c < 8, (now.lookup c).isSome

instance (now prev : Times) : Decidable (Online now prev) := inferInstanceAs (Decidable (_ ∧ _))

/-- `gpu_jobs` gets through: no line names the job interrupt, or it has its eight numbers. -/
def Counted (interrupts : List String) : Prop := ∃ jobs, gpuJobs interrupts = .ok jobs

instance (interrupts : List String) : Decidable (Counted interrupts) :=
  match h : gpuJobs interrupts with
  | .ok jobs => .isTrue ⟨jobs, h⟩
  | .error _ => .isFalse (fun ⟨_, hjobs⟩ => by simp [h] at hjobs)

/-- The loads of the cores of a cluster, as far as they are known. -/
def loadOf (fl : Floats α) (now prev : Times) (n : Cluster) : List α :=
  (CLUSTERS n).cpus.filterMap (coreUtil fl now prev)

/-- The variables after a period. -/
def nextGov (fl : Floats α) (cfg : Config) (g : Gov) (r : Sample α) : Gov where
  prev := r.times
  prevJobs := r.jobs
  want n := (moved fl cfg (loadOf fl r.times g.prev) (fl.jobRate (r.jobs - g.prevJobs) r.dt) g n).1
  evid n := (moved fl cfg (loadOf fl r.times g.prev) (fl.jobRate (r.jobs - g.prevJobs) r.dt) g n).2

/-- The highest step that many busy M3 cores may have. -/
def bigCap (busy : Nat) : Nat := (BIG_CAP_BY_BUSY.lookup busy).getD 0

theorem lookup_utils (h : utils fl now prev = .ok util) (c : Nat) :
    util.lookup c = coreUtil fl now prev c := by
  have hall := Device.mapM_eq_ok.mp h
  unfold coreUtil
  clear h
  induction hall with
  | nil => rfl
  | @cons x y now util hx hrest ih =>
    obtain ⟨cpu, t1, i1⟩ := x
    cases hp : prev.lookup cpu with
    | none => simp [hp] at hx
    | some old =>
      simp only [hp, Except.ok.injEq] at hx
      subst hx
      by_cases hc : c = cpu
      · subst hc
        simp [hp]
      · have hne : (c == cpu) = false := beq_false_of_ne hc
        simpa [List.lookup_cons, hne] using ih

variable (fl) in
theorem exists_utils : (∃ util, utils fl now prev = .ok util) ↔
    ∀ x ∈ now, (prev.lookup x.1).isSome := by
  unfold utils
  rw [Device.exists_mapM_eq_ok]
  refine forall₂_congr (fun x _ => ?_)
  cases hp : prev.lookup x.1 <;> simp [hp]

theorem mem_of_lookup {β : Type} {l : List (Nat × β)} {c : Nat} {y : β}
    (h : l.lookup c = some y) : (c, y) ∈ l := by
  induction l with
  | nil => simp at h
  | cons x l ih =>
    obtain ⟨k, z⟩ := x
    by_cases hc : c = k
    · subst hc
      simp only [List.lookup_cons_self, Option.some.injEq] at h
      exact List.mem_cons.mpr (.inl (h ▸ rfl))
    · simp only [List.lookup_cons, beq_false_of_ne hc] at h
      exact List.mem_cons_of_mem _ (ih h)

variable (fl) in
/-- Where every CPU is known from before, a load is known if the CPU is there. -/
theorem coreUtil_isSome (h : ∀ x ∈ now, (prev.lookup x.1).isSome) (c : Nat) :
    (coreUtil fl now prev c).isSome = (now.lookup c).isSome := by
  unfold coreUtil
  cases hn : now.lookup c with
  | none => rfl
  | some x =>
    obtain ⟨y, hy⟩ := Option.isSome_iff_exists.mp (h _ (mem_of_lookup hn))
    rw [hy]
    rfl

omit [LinearOrder α] in
theorem loads_eq_ok {l : List α} (h : loads n util = .ok l) :
    l = (CLUSTERS n).cpus.filterMap (fun c => util.lookup c) := by
  have hall := Device.mapM_eq_ok.mp h
  clear h
  generalize (CLUSTERS n).cpus = cs at hall
  induction hall with
  | nil => rfl
  | @cons c u cs l hc _ ih =>
    cases hlookup : util.lookup c with
    | none => simp [hlookup] at hc
    | some v =>
      simp only [hlookup, Except.ok.injEq] at hc
      rw [List.filterMap_cons, hlookup, hc, ih]

omit [LinearOrder α] in
theorem exists_loads : (∃ l, loads n util = .ok l) ↔
    ∀ c ∈ (CLUSTERS n).cpus, (util.lookup c).isSome := by
  unfold loads
  rw [Device.exists_mapM_eq_ok]
  refine forall₂_congr (fun c _ => ?_)
  cases util.lookup c <;> simp

theorem countP_loadOf :
    (loadOf fl now prev .big).countP (fun u => fl.half ≤ u) = busyCores fl now prev := by
  unfold loadOf busyCores
  rw [List.countP_filterMap]
  congr 1
  funext c
  cases coreUtil fl now prev c <;> rfl

theorem busyCores_le : busyCores fl now prev ≤ 4 :=
  List.countP_le_length

theorem lookup_bigCap {busy : Nat} (h : busy ≤ 4) :
    BIG_CAP_BY_BUSY.lookup busy = some (bigCap busy) := by
  have htable : ∀ b ≤ 4, BIG_CAP_BY_BUSY.lookup b = some (bigCap b) := by decide
  exact htable busy h

theorem gpuJobs_of_counted {interrupts : List String} (h : Counted interrupts) :
    gpuJobs interrupts = .ok (jobsIn interrupts) := by
  obtain ⟨jobs, hjobs⟩ := h
  rw [jobsIn, hjobs]
  rfl

/-- There is no other way to fail. -/
theorem gpuJobs_of_not_counted {interrupts : List String} (h : ¬ Counted interrupts) :
    gpuJobs interrupts = .error .valueError := by
  unfold Counted gpuJobs at h
  unfold gpuJobs
  split at h
  · rename_i l _
    cases hcounts : (((Reading.words l).drop 1).take 8).mapM fun x =>
        (Reading.int x).elim (Except.error Stop.valueError) .ok with
    | ok counts =>
      rw [hcounts] at h
      exact absurd ⟨counts.sum, rfl⟩ h
    | error e =>
      obtain ⟨x, -, hx⟩ := Device.mapM_eq_error hcounts
      cases hint : Reading.int x with
      | none =>
        rw [hint] at hx
        exact congrArg Except.error (Except.error.inj hx).symm
      | some v =>
        rw [hint] at hx
        exact absurd hx (by simp)
  · exact absurd ⟨0, rfl⟩ h

/-- A period in which the CPUs are online decides what it should. -/
theorem decided_of_online (hcounted : Counted r.interrupts) (h : Online r.times g.prev) :
    decided fl cfg g r =
    .ok (nextGov fl cfg g r, ⟨hottest r.tmu, targetOf cfg (nextGov fl cfg g r).want
      (bigCap (busyCores fl r.times g.prev)) (hottest r.tmu)⟩) := by
  obtain ⟨util, hutil⟩ := (exists_utils fl).mpr h.1
  have hlookup : ∀ c, util.lookup c = coreUtil fl r.times g.prev c := lookup_utils hutil
  have hknown : ∀ n, ∀ c ∈ (CLUSTERS n).cpus, (util.lookup c).isSome := by
    intro n c hc
    have hcpus : ∀ n, ∀ c ∈ (CLUSTERS n).cpus, c < 8 := by intro n; cases n <;> decide
    rw [hlookup, coreUtil_isSome fl h.1]
    exact h.2 c (hcpus n c hc)
  obtain ⟨big, hbig⟩ := exists_loads.mpr (hknown .big)
  obtain ⟨little, hlittle⟩ := exists_loads.mpr (hknown .little)
  have hload : loadTable big little = loadOf fl r.times g.prev := by
    funext n
    cases n with
    | big => simpa only [loadOf, loadTable, hlookup] using loads_eq_ok hbig
    | little => simpa only [loadOf, loadTable, hlookup] using loads_eq_ok hlittle
    | gpu => rfl
  have hcount : big.countP (fun u => fl.half ≤ u) = busyCores fl r.times g.prev := by
    rw [← countP_loadOf, ← hload]
    rfl
  unfold decided
  simp only [gpuJobs_of_counted hcounted, hutil, hbig, hlittle, bind, Except.bind, hload, hcount,
    lookup_bigCap busyCores_le]
  rfl

/-- `gpu_jobs` comes before the loads. -/
theorem decided_of_not_counted (h : ¬ Counted r.interrupts) :
    decided fl cfg g r = .error .valueError := by
  unfold decided
  rw [gpuJobs_of_not_counted h]
  rfl

/-- With all counts there and a CPU missing, a load is missing. -/
theorem decided_of_not_online (hcounted : Counted r.interrupts) (h : ¬ Online r.times g.prev) :
    decided fl cfg g r = .error .keyError := by
  have hutils : ∀ e, utils fl r.times g.prev = .error e → e = .keyError := by
    intro e he
    obtain ⟨⟨cpu, t1, i1⟩, -, hx⟩ := Device.mapM_eq_error he
    dsimp only at hx
    split at hx
    · cases hx
    · exact (Except.error.inj hx).symm
  have hloads : ∀ n (util : List (Nat × α)) e, loads n util = .error e → e = .keyError := by
    intro n util e he
    obtain ⟨c, -, hc⟩ := Device.mapM_eq_error he
    split at hc
    · cases hc
    · exact (Except.error.inj hc).symm
  unfold decided
  rw [gpuJobs_of_counted hcounted]
  cases hutil : utils fl r.times g.prev with
  | error e => exact hutils e hutil ▸ rfl
  | ok util =>
    cases hbig : loads .big util with
    | error e =>
      obtain rfl := hloads _ _ _ hbig
      simp only [bind, Except.bind, hbig]
    | ok big =>
      cases hlittle : loads .little util with
      | error e =>
        obtain rfl := hloads _ _ _ hlittle
        simp only [bind, Except.bind, hbig, hlittle]
      | ok little =>
        -- every core has been found, so all eight are online
        refine absurd ⟨(exists_utils fl).mp ⟨util, hutil⟩, fun c hc => ?_⟩ h
        have hcore : c ∈ (CLUSTERS .big).cpus ∨ c ∈ (CLUSTERS .little).cpus := by
          simp only [CLUSTERS, List.mem_cons, List.not_mem_nil, or_false]
          omega
        rw [← coreUtil_isSome fl ((exists_utils fl).mp ⟨util, hutil⟩), ← lookup_utils hutil]
        rcases hcore with hcore | hcore
        · exact exists_loads.mp ⟨big, hbig⟩ c hcore
        · exact exists_loads.mp ⟨little, hlittle⟩ c hcore

variable (fl) in
/-- **What a CPU cluster's step can do**: go up at once, count one more low period and perhaps go
down, or forget what it has counted. -/
theorem cpuStep_cases (last cur : Nat) (top : α) (evid : Int) (he : evid ≤ 0) :
    (fl.UP ≤ top ∧ cur < last ∧ cpuStep fl last top (cur, evid) = (cur + 1, 0)) ∨
    (top ≤ fl.DOWN ∧ 0 < cur ∧ evid ≤ -5 ∧ cpuStep fl last top (cur, evid) = (cur - 1, 0)) ∨
    (top ≤ fl.DOWN ∧ 0 < cur ∧ -5 < evid ∧ cpuStep fl last top (cur, evid) = (cur, evid - 1)) ∨
    (¬ (top ≤ fl.DOWN ∧ 0 < cur) ∧ cpuStep fl last top (cur, evid) = (cur, 0)) := by
  by_cases hup : fl.UP ≤ top ∧ cur < last
  · have hgo : HOLD_UP ≤ if 0 ≤ evid then evid + 1 else 1 := by
      unfold HOLD_UP
      split <;> omega
    refine .inl ⟨hup.1, hup.2, ?_⟩
    simp only [cpuStep, if_pos hup, if_pos hgo]
  · by_cases hlow : top ≤ fl.DOWN ∧ 0 < cur
    · by_cases hold : evid ≤ -5
      · have hgo : HOLD_DOWN ≤ -(evid - 1) := by unfold HOLD_DOWN; omega
        refine .inr (.inl ⟨hlow.1, hlow.2, hold, ?_⟩)
        simp only [cpuStep, if_neg hup, if_pos hlow, if_pos he, if_pos hgo]
      · have hstay : ¬ HOLD_DOWN ≤ -(evid - 1) := by unfold HOLD_DOWN; omega
        refine .inr (.inr (.inl ⟨hlow.1, hlow.2, by omega, ?_⟩))
        simp only [cpuStep, if_neg hup, if_pos hlow, if_pos he, if_neg hstay]
    · refine .inr (.inr (.inr ⟨hlow, ?_⟩))
      simp only [cpuStep, if_neg hup, if_neg hlow]

variable (fl) in
/-- **What the GPU's step can do**: go up at once, count one more idle period and perhaps go down,
or leave everything as it is. -/
theorem gpuStep_cases (jobRate : α) (g : Nat) (evid : Int) :
    (¬ jobRate < fl.rate10 ∧ g < 2 ∧ gpuStep fl jobRate (g, evid) = (g + 1, evid)) ∨
    (jobRate < fl.rate10 ∧ 0 < g ∧ evid ≤ -5 ∧ gpuStep fl jobRate (g, evid) = (g - 1, 0)) ∨
    (jobRate < fl.rate10 ∧ 0 < g ∧ -5 < evid ∧ gpuStep fl jobRate (g, evid) = (g, evid - 1)) ∨
    (¬ (jobRate < fl.rate10 ∧ 0 < g) ∧ gpuStep fl jobRate (g, evid) = (g, evid)) := by
  have h10 := fl.rate10_lt_30
  have h30 := fl.rate30_lt_150
  by_cases hbusy : fl.rate150 < jobRate ∧ g < 2
  · refine .inl ⟨not_lt.mpr ((h10.trans h30).trans hbusy.1).le, hbusy.2, ?_⟩
    simp only [gpuStep, if_pos hbusy]
  · by_cases hsome : fl.rate30 < jobRate ∧ g < 1
    · have hg : (1, evid) = (g + 1, evid) := by rw [Nat.lt_one_iff.mp hsome.2]
      refine .inl ⟨not_lt.mpr (h10.trans hsome.1).le, by omega, ?_⟩
      simp only [gpuStep, if_neg hbusy, if_pos hsome, hg]
    · by_cases hidle : jobRate < fl.rate10 ∧ 0 < g
      · by_cases hold : evid ≤ -5
        · have hgo : HOLD_DOWN ≤ -(evid - 1) := by unfold HOLD_DOWN; omega
          refine .inr (.inl ⟨hidle.1, hidle.2, hold, ?_⟩)
          simp only [gpuStep, if_neg hbusy, if_neg hsome, if_pos hidle, if_pos hgo]
        · have hstay : ¬ HOLD_DOWN ≤ -(evid - 1) := by unfold HOLD_DOWN; omega
          refine .inr (.inr (.inl ⟨hidle.1, hidle.2, by omega, ?_⟩))
          simp only [gpuStep, if_neg hbusy, if_neg hsome, if_pos hidle, if_neg hstay]
      · refine .inr (.inr (.inr ⟨hidle, ?_⟩))
        simp only [gpuStep, if_neg hbusy, if_neg hsome, if_neg hidle]

/-- What is wanted is a step of the table, and five periods of evidence are the most that is kept.
It is the invariant of the loop, and says of the variables what the rest relies on. -/
structure Sound (g : Gov) : Prop where
  want : ∀ n, g.want n < (CLUSTERS n).steps.length
  evid : ∀ n, -5 ≤ g.evid n ∧ g.evid n ≤ 0

/-- What is said of one cluster. -/
theorem sound_iff : Sound g ↔
    ∀ n, g.want n < (CLUSTERS n).steps.length ∧ -5 ≤ g.evid n ∧ g.evid n ≤ 0 :=
  ⟨fun h n => ⟨h.want n, h.evid n⟩, fun h => ⟨fun n => (h n).1, fun n => (h n).2⟩⟩

variable (fl) (cfg) in
theorem Sound.next (h : Sound g) (r : Sample α) : Sound (nextGov fl cfg g r) := by
  refine sound_iff.mpr (fun n => ?_)
  have hn := h.want n
  obtain ⟨hlow, hhigh⟩ := h.evid n
  cases n with
  | gpu =>
    have hlen : (CLUSTERS .gpu).steps.length = 3 := rfl
    simp only [nextGov, moved]
    rcases gpuStep_cases fl (fl.jobRate (r.jobs - g.prevJobs) r.dt) (g.want .gpu)
      (g.evid .gpu) with ⟨_, _, hstep⟩ | ⟨_, _, _, hstep⟩ | ⟨_, _, _, hstep⟩ | ⟨_, hstep⟩
    all_goals rw [hstep]; dsimp only; omega
  | big | little =>
    simp only [nextGov, moved]
    split
    · rcases cpuStep_cases fl _ (g.want _) _ _ hhigh with
        ⟨_, _, hstep⟩ | ⟨_, _, _, hstep⟩ | ⟨_, _, _, hstep⟩ | ⟨_, hstep⟩
      all_goals rw [hstep]; dsimp only; omega
    · exact ⟨hn, hlow, hhigh⟩

variable (want cap temp) in
/-- **The caps of one target.** -/
theorem targetOf_caps (hmax : ∀ m, cfg.maxStep n = some m → 0 ≤ m) :
    0 ≤ targetOf cfg want cap temp n ∧ targetOf cfg want cap temp n ≤ want n ∧
      (∀ m, cfg.maxStep n = some m → targetOf cfg want cap temp n ≤ m) ∧
      (HOT ≤ temp → targetOf cfg want cap temp n ≤ 1) ∧
      (CRIT ≤ temp → targetOf cfg want cap temp n = 0) ∧
      (cfg.cpuOn = true → n = .big → targetOf cfg want cap temp n ≤ cap) := by
  have h9 : 0 ≤ (cfg.maxStep n).getD 9 := by
    cases h : cfg.maxStep n with
    | none => decide
    | some m => exact hmax m h
  have hm : ∀ m, cfg.maxStep n = some m → (cfg.maxStep n).getD 9 = m := fun m h => by rw [h]; rfl
  have hHC : HOT ≤ CRIT := by decide
  unfold targetOf
  dsimp only
  refine ⟨?_, ?_, fun m hsome => ?_, fun hhot => ?_, fun hcrit => ?_, fun hon hbig => ?_⟩
  · repeat' split
    all_goals omega
  · repeat' split
    all_goals omega
  · have := hm m hsome
    repeat' split
    all_goals omega
  · repeat' split
    all_goals omega
  · rw [if_pos hcrit]
  · have hboth : cfg.cpuOn = true ∧ n = .big := ⟨hon, hbig⟩
    rw [if_pos hboth]
    repeat' split
    all_goals omega

end Decided

/-! ## 2. Where the clocks are

Every target is an index into its table, so the switch gets there.  The run lemma is for the loop,
and the caps are those of its last period. -/

section Ends

variable {α : Type} [LinearOrder α] {fl : Floats α} {cfg : Config} {n : Cluster} {s t : Soc}
  {times : Times} {interrupts : List String} {g g' : Gov} {r : Sample α} {rs : List (Sample α)}
  {ok : Soc → (o : Op) → Luck → Bool}

/-- No cap of the environment is negative: `steps[-1]` is the last step. -/
def Sane (cfg : Config) : Prop := ∀ n m, cfg.maxStep n = some m → 0 ≤ m

/-- The targets of a period. -/
def targets (fl : Floats α) (cfg : Config) (g : Gov) (r : Sample α) : Cluster → Int :=
  targetOf cfg (nextGov fl cfg g r).want (bigCap (busyCores fl r.times g.prev)) (hottest r.tmu)

theorem targets_range (hcfg : Sane cfg) (hg : Sound g) (r : Sample α) (n : Cluster) :
    0 ≤ targets fl cfg g r n ∧ targets fl cfg g r n < (CLUSTERS n).steps.length := by
  obtain ⟨h0, hwant, -⟩ := targetOf_caps (nextGov fl cfg g r).want
    (bigCap (busyCores fl r.times g.prev)) (hottest r.tmu) (hcfg n)
  have hlen := (hg.next fl cfg r).want n
  exact ⟨h0, by unfold targets; omega⟩

/-- **One period**, whatever the hardware answers. -/
theorem wp_period_ends (hcfg : Sane cfg) (hg : Sound g) :
    fwp soc ok (fun _ _ => True) (period fl cfg g r)
      (fun g' t => (Counted r.interrupts ∧ Online r.times g.prev) ∧ g' = nextGov fl cfg g r ∧
        OnTargets cfg (targets fl cfg g r) t)
      (fun e _ => e = .valueError ∧ ¬ Counted r.interrupts ∨
        e = .keyError ∧ ¬ Online r.times g.prev) s := by
  have htrue : soc.Stable (fun _ => True) := fun _ _ _ _ _ => trivial
  by_cases hcounted : Counted r.interrupts
  · by_cases hon : Online r.times g.prev
    · refine fwp_mono ?_ (fun _ _ h => h.elim) (wp_period_decided (decided_of_online hcounted hon)
        (fun n _ => targets_range hcfg hg r n))
      exact fun _ w h => ⟨⟨hcounted, hon⟩, h⟩
    · unfold period
      rw [decided_of_not_online hcounted hon]
      exact fwp_throw htrue trivial (fun _ _ => trivial) (fun _ _ => .inr ⟨rfl, hon⟩)
  · unfold period
    rw [decided_of_not_counted hcounted]
    exact fwp_throw htrue trivial (fun _ _ => trivial) (fun _ _ => .inl ⟨rfl, hcounted⟩)

/-- The variables after the periods in `rs`. -/
def after (fl : Floats α) (cfg : Config) (g : Gov) (rs : List (Sample α)) : Gov :=
  rs.foldl (nextGov fl cfg) g

/-- The CPUs stay online from each reading to the next. -/
def AllOnline (times : Times) (rs : List (Sample α)) : Prop :=
  List.IsChain (fun a b => Online b a) (times :: rs.map (·.times))

instance (times : Times) (rs : List (Sample α)) : Decidable (AllOnline times rs) :=
  inferInstanceAs (Decidable (List.IsChain _ _))

/-- In none of the readings does `gpu_jobs` stumble. -/
def AllCounted (rs : List (Sample α)) : Prop := ∀ r ∈ rs, Counted r.interrupts

instance (rs : List (Sample α)) : Decidable (AllCounted rs) :=
  inferInstanceAs (Decidable (∀ r ∈ rs, _))

/-- The variables of the loop at its start, if it is reached. -/
def started (times : Times) (interrupts : List String) : Gov :=
  ⟨times, jobsIn interrupts, fun _ => 0, fun _ => 0⟩

theorem started_sound (times : Times) (interrupts : List String) :
    Sound (started times interrupts) :=
  sound_iff.mpr (fun n => ⟨steps_pos n, show -5 ≤ (0 : Int) by decide, le_rfl⟩)

/-- The loop, by induction on its samples. -/
theorem wp_periods_ends (hcfg : Sane cfg) (hg : Sound g) :
    fwp soc ok (fun _ _ => True) (periods fl cfg g rs)
      (fun g' _ => (AllCounted rs ∧ AllOnline g.prev rs) ∧
        g' = rs.foldl (nextGov fl cfg) g ∧ Sound g')
      (fun e _ => e = .valueError ∧ ¬ AllCounted rs ∨
        e = .keyError ∧ ¬ AllOnline g.prev rs) s := by
  induction rs generalizing g s with
  | nil =>
    exact fwp_pure (P := fun _ => True) (fun _ _ _ _ _ => trivial) trivial (fun _ _ => trivial)
      (fun _ _ => ⟨⟨by simp [AllCounted], List.IsChain.singleton _⟩, rfl, hg⟩)
  | cons r rs ih =>
    have hcons : AllOnline g.prev (r :: rs) ↔ Online r.times g.prev ∧ AllOnline r.times rs :=
      List.isChain_cons_cons
    have hcount : AllCounted (r :: rs) ↔ Counted r.interrupts ∧ AllCounted rs :=
      List.forall_mem_cons
    rw [hcons, hcount]
    refine fwp_bind (fwp_mono ?_ ?_ (wp_period_ends hcfg hg))
    · rintro _ t ⟨⟨hcounted, hon⟩, rfl, -⟩
      refine fwp_mono ?_ ?_ (ih (hg.next _ _ r))
      · exact fun _ _ h => ⟨⟨⟨hcounted, h.1.1⟩, hon, h.1.2⟩, h.2⟩
      · exact fun _ _ h => h.imp (fun h => ⟨h.1, fun hall => h.2 hall.2⟩)
          (fun h => ⟨h.1, fun hall => h.2 hall.2⟩)
    · exact fun _ _ h => h.imp (fun h => ⟨h.1, fun hall => h.2 hall.1⟩)
        (fun h => ⟨h.1, fun hall => h.2 hall.1⟩)

theorem wp_park {zero : Cluster → Int} (hzero : ∀ n, zero n = 0) :
    fwp soc ok (fun _ _ => True) (goAll zero (parked cfg)) (fun _ => OnTargets cfg zero)
      (fun _ _ => False) s := by
  refine fwp_mono (fun _ t ht n hn => ht n (mem_parked.mpr hn)) (fun _ _ h => h)
    (wp_goAll_ends (nodup_parked cfg) (fun n _ => ?_))
  rw [hzero]
  exact ⟨le_rfl, Int.natCast_pos.mpr (steps_pos n)⟩

/-- **A run up to the end of its loop**, and how it can end before. -/
theorem wp_launch_ends (hcfg : Sane cfg) :
    fwp soc ok (fun _ _ => True) (launch fl cfg times interrupts rs)
      (fun g' _ => (Counted interrupts ∧ AllCounted rs ∧ AllOnline times rs) ∧
        g' = rs.foldl (nextGov fl cfg) (started times interrupts) ∧ Sound g')
      (fun e _ => e = .valueError ∧ ¬ (Counted interrupts ∧ AllCounted rs) ∨
        e = .keyError ∧ ¬ AllOnline times rs) s := by
  refine fwp_bind (fwp_mono (fun _ u _ => ?_) (fun _ _ h => h.elim) (wp_park (fun _ => rfl)))
  by_cases hcounted : Counted interrupts
  · rw [gpuJobs_of_counted hcounted]
    refine fwp_mono ?_ ?_ (wp_periods_ends hcfg (started_sound times interrupts))
    · exact fun _ _ h => ⟨⟨hcounted, h.1⟩, h.2⟩
    · exact fun _ _ h => h.imp_left (fun h => ⟨h.1, fun hall => h.2 hall.2⟩)
  · rw [gpuJobs_of_not_counted hcounted]
    exact fwp_throw (P := fun _ => True) (fun _ _ _ _ _ => trivial) trivial (fun _ _ => trivial)
      (fun _ _ => .inl ⟨rfl, fun h => hcounted h.1⟩)

theorem periods_concat : periods fl cfg g (rs ++ [r]) =
    (do let g ← periods fl cfg g rs; period fl cfg g r) := by
  induction rs generalizing g with
  | nil => simp [periods]
  | cons x rs ih => simp [periods, ih]

theorem prev_foldl : (rs.foldl (nextGov fl cfg) g).prev = (rs.map (·.times)).getLastD g.prev := by
  induction rs generalizing g with
  | nil => rfl
  | cons r rs ih =>
    rw [List.foldl_cons, ih]
    cases rs <;> rfl

theorem launch_concat : launch fl cfg times interrupts (rs ++ [r]) =
    (do let g ← launch fl cfg times interrupts rs; period fl cfg g r) := by
  unfold launch
  cases gpuJobs interrupts with
  | error e => simp
  | ok jobs => simp [periods_concat]

/-- The variables at the end of a run are those the periods lead to. -/
theorem after_of_runs (hcfg : Sane cfg) {tr : List (Sigma Ans)}
    (h : soc.Runs ok (launch fl cfg times interrupts rs).run s tr (.ok g') t) :
    g' = after fl cfg (started times interrupts) rs :=
  (h.post (wp_launch_ends hcfg)).2.1

/-- **The caps hold after every period of every run**, whatever the hardware answers: each clock
the governor owns is on a step that is no higher than it wants, than `S9P_GOV_MAX` says, than the
temperature of that period allows, and for the M3 cores than their busy count allows. -/
theorem steps_capped (hcfg : Sane cfg)
    {tr : List (Sigma Ans)}
    (h : soc.Runs ok (launch fl cfg times interrupts (rs ++ [r])).run s tr (.ok g') t)
    (hn : n ∈ owned cfg) :
    ∃ i, stepOf n (t.mem (CLUSTERS n).con0) = some i ∧ i ≤ g'.want n ∧
      (∀ m, cfg.maxStep n = some m → (i : Int) ≤ m) ∧
      (HOT ≤ hottest r.tmu → i ≤ 1) ∧ (CRIT ≤ hottest r.tmu → i = 0) ∧
      (n = .big → i ≤ bigCap (busyCores fl r.times ((rs.map (·.times)).getLastD times))) := by
  have hwp : fwp soc ok (fun _ _ => True) (launch fl cfg times interrupts (rs ++ [r]))
      (fun g' t => g' = nextGov fl cfg (after fl cfg (started times interrupts) rs) r ∧
        OnTargets cfg (targets fl cfg (after fl cfg (started times interrupts) rs) r) t)
      (fun _ _ => True) s := by
    rw [launch_concat]
    refine fwp_bind (fwp_mono ?_ (fun _ _ _ => trivial) (wp_launch_ends hcfg))
    rintro g v ⟨-, rfl, hsound⟩
    refine fwp_mono ?_ (fun _ _ _ => trivial) (wp_period_ends hcfg hsound)
    exact fun _ w hw => hw.2
  obtain ⟨rfl, hsteps⟩ := h.post hwp
  have hprev : (after fl cfg (started times interrupts) rs).prev =
      (rs.map (·.times)).getLastD times := prev_foldl
  generalize after fl cfg (started times interrupts) rs = g at hsteps hprev ⊢
  obtain ⟨h0, hwant, hmax, hhot, hcrit, hbig⟩ :=
    targetOf_caps (nextGov fl cfg g r).want (bigCap (busyCores fl r.times g.prev))
      (hottest r.tmu) (hcfg n)
  rw [← hprev]
  refine ⟨_, hsteps n hn, ?_, fun m hm => ?_, fun h => ?_, fun h => ?_, ?_⟩
  · unfold targets; omega
  · have := hmax m hm
    unfold targets; omega
  · have := hhot h
    unfold targets; omega
  · have := hcrit h
    unfold targets; omega
  · rintro rfl
    have hon : cfg.cpuOn = true := by
      unfold owned at hn
      by_contra hoff
      simp [hoff] at hn
    have := hbig hon rfl
    unfold targets; omega

/-- A launch whose readings are all in order gets to the end of its loop. -/
theorem launch_ok (hcfg : Sane cfg) (hcounted : Counted interrupts) (hall : AllCounted rs)
    (hon : AllOnline times rs) {tr : List (Sigma Ans)} {x : Except Stop Gov}
    (h : soc.Runs ok (launch fl cfg times interrupts rs).run s tr x t) : ∃ g', x = .ok g' := by
  have hend := h.post (wp_launch_ends hcfg)
  cases x with
  | ok g' => exact ⟨g', rfl⟩
  | error e =>
    rcases hend with ⟨-, hnot⟩ | ⟨-, hnot⟩
    · exact absurd ⟨hcounted, hall⟩ hnot
    · exact absurd hon hnot

theorem sane_allClusters : Sane allClusters := fun _ _ h => absurd h (by simp [allClusters])

/-- The line of `/proc/interrupts` with eight CPUs online. -/
def jobLine (jobs : Nat) : List String :=
  ["  88:  " ++ toString jobs ++ "  0  0  0  0  0  0  0  GICv3  139 Level  panfrost-job"]

/-- Sensors that are trimmed to show 25 degrees at 40 and 85 at 100, and all show `code`. -/
def sensors (code : BitVec 32) (_ addr : Nat) : BitVec 32 :=
  if addr % 0x1000 < 0x40 then 40#32 ||| 100#32 <<< 9 else code ||| code <<< 9 ||| code <<< 18

/-- Periods of 100 ticks in which the CPUs have been idle for none. -/
def busy (ticks : Int) (jobs : Nat) (code : BitVec 32) : Sample Int :=
  ⟨eight ticks 0, jobLine jobs, 1, sensors code⟩

/-- Three busy periods, the last one at 80 degrees: the M3 cores want their fourth step, which four
busy cores may not have, and get the second one. -/
theorem steps_capped_hot : hottest (sensors 95) = 80 ∧ ∃ tr g' t,
    soc.Runs heard (launch percent allClusters (eight 0 0) (jobLine 0)
      ([busy 100 0 40, busy 200 0 40] ++ [busy 300 0 95])).run unprogrammed tr (.ok g') t ∧
    g'.want .big = 3 ∧
    ∃ i, stepOf .big (t.mem (CLUSTERS .big).con0) = some i ∧ i ≤ 1 ∧
      i ≤ bigCap (busyCores percent (eight 300 0) (eight 200 0)) := by
  refine ⟨by decide, ?_⟩
  obtain ⟨tr, x, t, h⟩ := exists_runs soc_goes (launch percent allClusters (eight 0 0) (jobLine 0)
    ([busy 100 0 40, busy 200 0 40] ++ [busy 300 0 95])).run unprogrammed
  obtain ⟨g', rfl⟩ := launch_ok sane_allClusters (by decide +kernel) (by decide +kernel)
    (by decide +kernel) h
  obtain ⟨i, hi, -, -, hhot, -, hbusy⟩ := steps_capped sane_allClusters h (n := .big) (by decide)
  refine ⟨tr, g', t, h, ?_, i, hi, hhot (by decide), hbusy rfl⟩
  rw [after_of_runs sane_allClusters h]
  decide +kernel

end Ends

end S9p.Governor
