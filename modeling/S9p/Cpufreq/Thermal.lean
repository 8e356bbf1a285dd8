/-
# The thermal controller over whole runs

Each zone (A55 cluster, M3 cluster, GPU) has a level, a table of temperatures that raise it and
a window of the last three valid readings.  A level rises at once and by any number of steps,
and falls by one step, with 8 degrees of hysteresis and not before 2000 ms have passed.

* `thermal_controller`: what one poll does to a zone, after any run of polls, inits, exits and
  parameter stores with non-decreasing times.  The window is padded with the first reading
  until there are three, and a zone whose level is not acted on (the policy of the cluster is
  not up, the GPU driver refuses) keeps its level.
* `gpu_level_held_back`: the GPU's level does not follow three hot readings while
  `s9p_g3d_set_khz` refuses.
-/
import S9p.Cpufreq.Policy

namespace S9p.Cpufreq

/-! ## 1. The level a temperature asks for

The loop takes the last level whose temperature has been reached.  As the temperatures rise, that is
the highest one. -/

/-- The last index that passes a test, 0 if none does. -/
theorem lastIndex_spec (ok : Nat → Prop) [DecidablePred ok] (n : Nat) :
    let w := (List.range' 1 n).foldl (fun want i => if ok i then i else want) 0
    w ≤ n ∧ (0 < w → ok w) ∧ ∀ i, 1 ≤ i → i ≤ n → ok i → i ≤ w := by
  induction n with
  | zero =>
    refine ⟨le_rfl, fun h => absurd h (by simp), fun i h1 h2 _ => ?_⟩
    omega
  | succ n ih =>
    obtain ⟨hle, hok, hmax⟩ := ih
    rw [List.range'_1_concat, List.foldl_append]
    simp only [List.foldl_cons, List.foldl_nil]
    split
    · rename_i hlast
      refine ⟨by omega, fun _ => hlast, fun i _ h2 _ => ?_⟩
      omega
    · rename_i hlast
      refine ⟨by omega, hok, fun i h1 h2 hi => ?_⟩
      rcases Nat.lt_or_ge n i with hn | hn
      · have heq : i = 1 + n := by omega
        exact absurd (heq ▸ hi) hlast
      · exact hmax i h1 hn hi

section Want

variable {temp : Int} {lv : List ThermalLevel}

theorem wantLevel_lt (hn : 0 < lv.length) : wantLevel temp lv < lv.length := by
  have := (lastIndex_spec (fun i => upAt lv i ≤ temp) (lv.length - 1)).1
  unfold wantLevel
  omega

theorem upAt_wantLevel (h : 0 < wantLevel temp lv) : upAt lv (wantLevel temp lv) ≤ temp :=
  (lastIndex_spec (fun i => upAt lv i ≤ temp) (lv.length - 1)).2.1 h

theorem le_wantLevel {i : Nat} (hi : i < lv.length) (ht : upAt lv i ≤ temp) :
    i ≤ wantLevel temp lv := by
  rcases Nat.eq_zero_or_pos i with rfl | hpos
  · exact Nat.zero_le _
  · exact (lastIndex_spec (fun i => upAt lv i ≤ temp) (lv.length - 1)).2.2 i hpos (by omega) ht

end Want

/-- The tables rise. -/
theorem upAt_mono (z : Zone) : ∀ j < z.table.length, ∀ i ≤ j, upAt z.table i ≤ upAt z.table j := by
  cases z <;> decide

theorem table_pos (z : Zone) : 0 < z.table.length := by
  cases z <;> decide

/-- **The four outcomes of `s9p_thermal_next`.** -/
theorem thermalNext_cases (cur : Nat) (temp : Int) (lv : List ThermalLevel) (now changed : Int) :
    let r := thermalNext cur temp lv now changed
    (temp = INT_MIN ∧ r = (cur, changed)) ∨
    (temp ≠ INT_MIN ∧ cur < wantLevel temp lv ∧ r = (wantLevel temp lv, now)) ∨
    (temp ≠ INT_MIN ∧ wantLevel temp lv ≤ cur ∧ 0 < cur ∧ temp < upAt lv cur - THERMAL_HYST ∧
      THERMAL_HOLD_MS ≤ ktimeMsDelta now changed ∧ r = (cur - 1, now)) ∨
    (temp ≠ INT_MIN ∧ wantLevel temp lv ≤ cur ∧ r = (cur, changed)) := by
  simp only [thermalNext]
  by_cases hbad : temp = INT_MIN
  · exact .inl ⟨hbad, by rw [if_pos hbad]⟩
  · rw [if_neg hbad]
    by_cases hup : cur < wantLevel temp lv
    · exact .inr (.inl ⟨hbad, hup, by rw [if_pos hup]⟩)
    · rw [if_neg hup]
      by_cases hdown : 0 < cur ∧ temp < upAt lv cur - THERMAL_HYST ∧
          THERMAL_HOLD_MS ≤ ktimeMsDelta now changed
      · rw [if_pos hdown]
        exact .inr (.inr (.inl ⟨hbad, not_lt.mp hup, hdown.1, hdown.2.1, hdown.2.2, rfl⟩))
      · rw [if_neg hdown]
        exact .inr (.inr (.inr ⟨hbad, not_lt.mp hup, rfl⟩))

section Next

variable {z : Zone} {cur i : Nat} {temp now changed : Int}

/-- No level is missed. -/
theorem le_thermalNext (hi : i < z.table.length) (ht : upAt z.table i ≤ temp) :
    i ≤ (thermalNext cur temp z.table now changed).1 := by
  have hwant : i ≤ wantLevel temp z.table := le_wantLevel hi ht
  rcases thermalNext_cases cur temp z.table now changed with
    ⟨hbad, -⟩ | ⟨-, -, hr⟩ | ⟨-, hle, hpos, hcool, -, hr⟩ | ⟨-, hle, hr⟩
  · -- no level of a table starts at an invalid temperature
    have hzero : 0 ≤ upAt z.table i := by
      have := upAt_mono z i hi 0 (Nat.zero_le _)
      cases z <;> exact this
    exact absurd (hbad ▸ ht) (by unfold INT_MIN; omega)
  · rw [hr]
    exact hwant
  · rw [hr]
    -- at the current level or above it would not be cool enough to fall
    have hlt : i < cur := by
      by_contra hge
      have := upAt_mono z i hi cur (not_lt.mp hge)
      simp only [THERMAL_HYST] at hcool
      omega
    exact Nat.le_sub_one_of_lt hlt
  · rw [hr]
    exact hwant.trans hle

/-- A level that is reached is asked for. -/
theorem of_lt_thermalNext (hcur : cur < i)
    (hi : i ≤ (thermalNext cur temp z.table now changed).1) :
    temp ≠ INT_MIN ∧ upAt z.table i ≤ temp := by
  rcases thermalNext_cases cur temp z.table now changed with
    ⟨-, hr⟩ | ⟨hv, -, hr⟩ | ⟨-, -, -, -, -, hr⟩ | ⟨-, -, hr⟩
  · rw [hr] at hi
    exact absurd hi (not_le.mpr hcur)
  · rw [hr] at hi
    have hpos : 0 < wantLevel temp z.table := Nat.lt_of_lt_of_le (Nat.zero_lt_of_lt hcur) hi
    exact ⟨hv, (upAt_mono z _ (wantLevel_lt (table_pos z)) i hi).trans (upAt_wantLevel hpos)⟩
  · rw [hr] at hi
    exact absurd hi (by omega)
  · rw [hr] at hi
    exact absurd hi (not_le.mpr hcur)

/-- A level falls by one, when it is cool enough and has been held long enough. -/
theorem of_thermalNext_lt (h : (thermalNext cur temp z.table now changed).1 < cur) :
    temp ≠ INT_MIN ∧ (thermalNext cur temp z.table now changed).1 + 1 = cur ∧
      temp < upAt z.table cur - THERMAL_HYST ∧ THERMAL_HOLD_MS ≤ ktimeMsDelta now changed := by
  rcases thermalNext_cases cur temp z.table now changed with
    ⟨-, hr⟩ | ⟨-, hup, hr⟩ | ⟨hv, -, hpos, hcool, hheld, hr⟩ | ⟨-, -, hr⟩
  · rw [hr] at h
    exact absurd h (lt_irrefl _)
  · rw [hr] at h
    exact absurd h (by omega)
  · refine ⟨hv, ?_, hcool, hheld⟩
    rw [hr]
    omega
  · rw [hr] at h
    exact absurd h (lt_irrefl _)

end Next

/-! ## 2. The window

The samples lie in a ring of three, and which of them is the oldest does not matter to the median.
-/

/-- The filter holds the window of the readings `hs`, the oldest at `next`.  Before there are three
readings the first one fills the window, as the filter does when it is primed. -/
def Shows (f : TmuFilter) (hs : List Int) : Prop :=
  (f.primed = true ↔ hs ≠ []) ∧
    (hs ≠ [] → padded hs = [f.sample f.next, f.sample (f.next + 1), f.sample (f.next + 2)])

/-- Around the ring the three samples are always the same three. -/
theorem countP_rotate (sample : Fin 3 → Int) (k : Fin 3) (ok : Int → Bool) :
    [sample k, sample (k + 1), sample (k + 2)].countP ok =
      [sample 0, sample 1, sample 2].countP ok := by
  match k with
  | 0 => rfl
  | 1 =>
    simp only [List.countP_cons, List.countP_nil, show (1 : Fin 3) + 1 = 2 by decide,
      show (1 : Fin 3) + 2 = 0 by decide]
    omega
  | 2 =>
    simp only [List.countP_cons, List.countP_nil, show (2 : Fin 3) + 1 = 0 by decide,
      show (2 : Fin 3) + 2 = 1 by decide]
    omega

/-- **A valid reading** moves the window on by one. -/
theorem Shows.push {f : TmuFilter} {hs : List Int} {value : Int} (h : Shows f hs)
    (hv : value ≠ INT_MIN) : Shows (tmuFiltered f value).1 (hs ++ [value]) := by
  simp only [tmuFiltered, if_neg hv]
  refine ⟨?_, fun _ => ?_⟩
  · refine ⟨fun _ => by simp, fun _ => ?_⟩
    split
    · rfl
    · rename_i hprimed
      simpa using hprimed
  · split
    · rename_i hprimed
      have hnil : hs = [] := by
        by_contra hne
        have := h.1.mpr hne
        simp [this] at hprimed
      rw [hnil]
      rfl
    · rename_i hprimed
      have hne : hs ≠ [] := h.1.mp (by simpa using hprimed)
      have h1 : ∀ k : Fin 3, k + 1 ≠ k := by decide
      have h2 : ∀ k : Fin 3, k + 1 + 1 = k + 2 := by decide
      have h3 : ∀ k : Fin 3, k + 2 ≠ k := by decide
      have h4 : ∀ k : Fin 3, k + 1 + 2 = k := by decide
      rw [padded_append hne, h.2 hne]
      simp only [List.tail_cons, List.cons_append, List.nil_append, h2, h4, Function.update_self,
        Function.update_of_ne (h1 _), Function.update_of_ne (h3 _)]

/-- The filtered value is the median of the window. -/
theorem Shows.median {f : TmuFilter} {hs : List Int} {value : Int} (h : Shows f hs)
    (hv : value ≠ INT_MIN) (x : Int) :
    (x ≤ (tmuFiltered f value).2 ↔
      2 ≤ (padded (hs ++ [value])).countP (fun r => decide (x ≤ r))) ∧
    ((tmuFiltered f value).2 < x ↔
      2 ≤ (padded (hs ++ [value])).countP (fun r => decide (r < x))) := by
  rw [(h.push hv).2 (by simp), countP_rotate, countP_rotate]
  simp only [tmuFiltered, if_neg hv]
  exact ⟨le_med3_iff, med3_lt_iff⟩

/-- An invalid reading goes through as it is. -/
theorem filtered_invalid {f : TmuFilter} : tmuFiltered f INT_MIN = (f, INT_MIN) := by
  simp [tmuFiltered]

/-! ## 3. One event and one zone

A zone is moved by a poll and by nothing else, and a poll moves it in one of two ways.  What the
other events do is no concern of a zone. -/

/-- The thermal part of the loop body stores the next level and its time. -/
theorem thermalStep_level (c : ClusterId) (t now : Int) (k : Cluster) :
    (thermalStep c t now k).thermalLvl =
        (thermalNext k.thermalLvl t c.thermal now k.thermalChanged).1 ∧
      (thermalStep c t now k).thermalChanged =
        (thermalNext k.thermalLvl t c.thermal now k.thermalChanged).2 := by
  unfold thermalStep
  dsimp only
  split
  · exact ⟨rfl, rfl⟩
  · rename_i hsame
    exact ⟨(not_not.mp hsame).symm, rfl⟩

/-- The loop body moves the level of a cluster whose policy is up, and of no other. -/
theorem clusterPoll_level (on : Bool) (p : Poll) (c : ClusterId) (t : Int) (k : Cluster) :
    let k' := clusterPoll on p c t k
    let nx := thermalNext k.thermalLvl t c.thermal p.now k.thermalChanged
    (k.qosAdded = true → k'.thermalLvl = nx.1 ∧ k'.thermalChanged = nx.2) ∧
      (k.qosAdded ≠ true → k' = k) := by
  constructor
  · intro h
    simp only [clusterPoll, h, Bool.not_true, Bool.false_eq_true, if_false, idleFloor_thermal,
      busyStep_thermal]
    exact thermalStep_level c t p.now k
  · intro h
    simp [clusterPoll, h]

/-- What a poll does to a zone: it acts on the level, or leaves it as it is. -/
theorem poll_zone (s : Policy) (p : Poll) (ret : Int) (z : Zone) :
    let t := s.step (.poll p ret)
    let f := tmuFiltered (s.filter z) (p.raw z)
    let nx := thermalNext (s.level z) f.2 z.table p.now (s.changed z)
    t.filter z = f.1 ∧ (t.changed z = nx.2 ∨ t.changed z = s.changed z) ∧
      ((s.acts ret z ∧ t.level z = nx.1 ∧ t.changed z = nx.2) ∨
        (¬ s.acts ret z ∧ t.level z = s.level z)) := by
  have hstep : s.step (.poll p ret) = _ := policyWork_eq s p ret
  rw [hstep]
  have hcluster : ∀ c : ClusterId,
      let k := s.cluster c
      let t := (tmuFiltered (s.filter c.zone) (p.raw c.zone)).2
      let k' := clusterPoll s.idleFloorOn p c t k
      let nx := thermalNext k.thermalLvl t c.thermal p.now k.thermalChanged
      (k'.thermalChanged = nx.2 ∨ k'.thermalChanged = k.thermalChanged) ∧
        ((k.qosAdded = true ∧ k'.thermalLvl = nx.1 ∧ k'.thermalChanged = nx.2) ∨
          (¬ k.qosAdded = true ∧ k'.thermalLvl = k.thermalLvl)) := by
    intro c
    obtain ⟨hup, hdown⟩ := clusterPoll_level s.idleFloorOn p c
      (tmuFiltered (s.filter c.zone) (p.raw c.zone)).2 (s.cluster c)
    by_cases hadded : (s.cluster c).qosAdded = true
    · exact ⟨.inl (hup hadded).2, .inl ⟨hadded, hup hadded⟩⟩
    · have hsame := hdown hadded
      exact ⟨.inr (by rw [hsame]), .inr ⟨hadded, by rw [hsame]⟩⟩
  cases z with
  | little => exact ⟨rfl, hcluster .little⟩
  | big => exact ⟨rfl, hcluster .big⟩
  | gpu =>
    refine ⟨rfl, .inl rfl, ?_⟩
    by_cases hret : ret = 0
    · exact .inl ⟨hret, by simp only [Policy.level, hret, if_true]; rfl, rfl⟩
    · exact .inr ⟨hret, by simp only [Policy.level, hret, if_false]⟩

/-- Nothing but a poll moves levels, time stamps and filters. -/
theorem step_other {e : Event} (h : ∀ p ret, e ≠ .poll p ret) (s : Policy) (z : Zone) :
    (s.step e).level z = s.level z ∧ (s.step e).changed z = s.changed z ∧
      (s.step e).filter z = s.filter z := by
  -- a policy whose clusters keep their levels keeps its own
  have hkeep : ∀ t : Policy,
      (∀ c, (t.cluster c).thermalLvl = (s.cluster c).thermalLvl ∧
        (t.cluster c).thermalChanged = (s.cluster c).thermalChanged) →
      t.gpuLvl = s.gpuLvl → t.gpuChanged = s.gpuChanged → t.filter = s.filter →
      t.level z = s.level z ∧ t.changed z = s.changed z ∧ t.filter z = s.filter z := by
    intro t hc hl hch hf
    cases z with
    | little => exact ⟨(hc .little).1, (hc .little).2, congrFun hf _⟩
    | big => exact ⟨(hc .big).1, (hc .big).2, congrFun hf _⟩
    | gpu => exact ⟨hl, hch, congrFun hf _⟩
  have hupdate : ∀ (c : ClusterId) (k : Cluster),
      k.thermalLvl = (s.cluster c).thermalLvl → k.thermalChanged = (s.cluster c).thermalChanged →
      ∀ d, (Function.update s.cluster c k d).thermalLvl = (s.cluster d).thermalLvl ∧
        (Function.update s.cluster c k d).thermalChanged = (s.cluster d).thermalChanged := by
    intro c k hl hch d
    by_cases hd : d = c
    · subst hd
      rw [Function.update_self]
      exact ⟨hl, hch⟩
    · rw [Function.update_of_ne hd]
      exact ⟨rfl, rfl⟩
  cases e with
  | poll p ret => exact absurd rfl (h p ret)
  | idleFloorSet on => exact hkeep _ (fun _ => ⟨rfl, rfl⟩) rfl rfl rfl
  | boostSet v =>
    refine hkeep _ (fun c => ?_) rfl rfl rfl
    simp only [Policy.step, boostSet, applyBoost]
    split
    · exact ⟨rfl, rfl⟩
    · exact ⟨rfl, rfl⟩
  | exit c =>
    simp only [Policy.step, exit]
    split
    · exact hkeep _ (hupdate c _ rfl rfl) rfl rfl rfl
    · exact ⟨rfl, rfl, rfl⟩
  | init c accept =>
    simp only [Policy.step, init]
    repeat' split
    all_goals first
      | exact hkeep _ (hupdate c _ rfl rfl) rfl rfl rfl
      | exact ⟨rfl, rfl, rfl⟩

/-! ## 4. Runs

Readings, times and changes are read off the list of events.  The invariant ties the state to them.
-/

/-- The valid reading of a zone an event brings. -/
def Event.reading (z : Zone) : Event → Option Int
  | .poll p _ => if p.raw z = INT_MIN then none else some (p.raw z)
  | _ => none

/-- The time of a poll. -/
def Event.time : Event → Option Int
  | .poll p _ => some p.now
  | _ => none

/-- The valid readings of a zone in a run, oldest first. -/
def readings (z : Zone) (es : List Event) : List Int := es.filterMap (Event.reading z)

/-- The times of the polls never go back. -/
def Nondecreasing (es : List Event) : Prop := (es.filterMap Event.time).Pairwise (· ≤ ·)

instance (es : List Event) : Decidable (Nondecreasing es) :=
  inferInstanceAs (Decidable (List.Pairwise _ _))

/-- The time of an event that changes the level of a zone. -/
def changeTime (z : Zone) (s : Policy) (e : Event) : Option Int :=
  if (s.step e).level z = s.level z then none else e.time

/-- The times at which a run has changed the level of a zone.  They are read off the states before
and after each event, and not off the driver's own time stamp. -/
def changes (z : Zone) : Policy → List Event → List Int
  | _, [] => []
  | s, e :: es => (changeTime z s e).toList ++ changes z (s.step e) es

theorem changes_append (z : Zone) (s : Policy) (es : List Event) (e : Event) :
    changes z s (es ++ [e]) = changes z s es ++ (changeTime z (s.run es) e).toList := by
  induction es generalizing s with
  | nil => simp [changes]
  | cons e' es ih =>
    simp only [List.cons_append, changes, ih, List.append_assoc]
    rfl

theorem changes_subset {z : Zone} {s : Policy} {es : List Event} {τ : Int}
    (h : τ ∈ changes z s es) : τ ∈ es.filterMap Event.time := by
  induction es generalizing s with
  | nil => exact absurd h (by simp [changes])
  | cons e es ih =>
    rcases List.mem_append.mp h with h | h
    · have htime : e.time = some τ := by
        unfold changeTime at h
        split at h
        · exact absurd h (by simp)
        · exact Option.mem_toList.mp h
      exact List.mem_filterMap.mpr ⟨e, List.mem_cons_self, htime⟩
    · obtain ⟨e', he', htime⟩ := List.mem_filterMap.mp (ih h)
      exact List.mem_filterMap.mpr ⟨e', List.mem_cons_of_mem _ he', htime⟩

/-- The run does not go back before any of its polls. -/
theorem Nondecreasing.le {es : List Event} {p : Poll} {ret : Int}
    (h : Nondecreasing (es ++ [.poll p ret])) {τ : Int} (hτ : τ ∈ es.filterMap Event.time) :
    τ ≤ p.now := by
  unfold Nondecreasing at h
  rw [List.filterMap_append, List.pairwise_append] at h
  exact h.2.2 τ hτ p.now (by simp [Event.time])

theorem Nondecreasing.init {es : List Event} {e : Event} (h : Nondecreasing (es ++ [e])) :
    Nondecreasing es := by
  unfold Nondecreasing at h ⊢
  rw [List.filterMap_append, List.pairwise_append] at h
  exact h.1

/-- What a run leaves in a zone: a level of its table, the window of its readings, and a time stamp
not before the last change.  The list of changes is read off the run, so the time stamp has
something outside the driver to be compared with. -/
structure Tracked (z : Zone) (s₀ : Policy) (es : List Event) : Prop where
  lt : (s₀.run es).level z < z.table.length
  shows : Shows ((s₀.run es).filter z) (readings z es)
  recent : ∀ τ ∈ changes z s₀ es, τ ≤ (s₀.run es).changed z

/-- `s9p_thermal_next` stays in the table, and its time stamp is the old one or this poll's;
it is this poll's when the level moves. -/
theorem thermalNext_frame (cur : Nat) (temp : Int) (z : Zone) (now changed : Int)
    (hcur : cur < z.table.length) :
    let r := thermalNext cur temp z.table now changed
    r.1 < z.table.length ∧ (r.2 = now ∨ r.1 = cur ∧ r.2 = changed) := by
  rcases thermalNext_cases cur temp z.table now changed with
    ⟨-, hr⟩ | ⟨-, -, hr⟩ | ⟨-, -, -, -, -, hr⟩ | ⟨-, -, hr⟩
  · exact hr ▸ ⟨hcur, .inr ⟨rfl, rfl⟩⟩
  · exact hr ▸ ⟨wantLevel_lt (table_pos z), .inl rfl⟩
  · exact hr ▸ ⟨Nat.lt_of_le_of_lt (Nat.sub_le _ _) hcur, .inl rfl⟩
  · exact hr ▸ ⟨hcur, .inr ⟨rfl, rfl⟩⟩

theorem Tracked.fresh {s₀ : Policy} (h0 : Fresh s₀) (z : Zone) : Tracked z s₀ [] where
  lt := by
    have hzero : s₀.level z = 0 := by
      cases z with
      | little => exact (h0.clusters .little).1
      | big => exact (h0.clusters .big).1
      | gpu => exact h0.gpu
    rw [run_nil, hzero]
    exact table_pos z
  shows := by
    refine ⟨?_, fun h => absurd rfl h⟩
    rw [run_nil, (h0.filters z).2]
    simp [readings]
  recent := fun τ hτ => absurd hτ (by simp [changes])

/-- **One event** keeps a zone tracked. -/
theorem Tracked.step {z : Zone} {s₀ : Policy} {es : List Event} {e : Event}
    (h : Tracked z s₀ es) (ht : Nondecreasing (es ++ [e])) : Tracked z s₀ (es ++ [e]) := by
  by_cases hpoll : ∃ p ret, e = .poll p ret
  · obtain ⟨p, ret, rfl⟩ := hpoll
    obtain ⟨hfilter, hstamp, hacts⟩ := poll_zone (s₀.run es) p ret z
    obtain ⟨hlt, hnx⟩ := thermalNext_frame ((s₀.run es).level z)
      (tmuFiltered ((s₀.run es).filter z) (p.raw z)).2 z p.now ((s₀.run es).changed z) h.lt
    have hle : ∀ τ ∈ changes z s₀ es, τ ≤ p.now := fun τ hτ => ht.le (changes_subset hτ)
    refine ⟨?_, ?_, ?_⟩
    · rw [run_append]
      rcases hacts with ⟨-, hlevel, -⟩ | ⟨-, hlevel⟩
      · rw [hlevel]
        exact hlt
      · rw [hlevel]
        exact h.lt
    · rw [run_append, hfilter]
      by_cases hv : p.raw z = INT_MIN
      · have hsame : readings z (es ++ [.poll p ret]) = readings z es := by
          simp [readings, Event.reading, hv]
        rw [hsame, hv, filtered_invalid]
        exact h.shows
      · have hnew : readings z (es ++ [.poll p ret]) = readings z es ++ [p.raw z] := by
          simp [readings, Event.reading, hv]
        rw [hnew]
        exact h.shows.push hv
    · intro τ hτ
      rw [changes_append] at hτ
      rw [run_append]
      rcases List.mem_append.mp hτ with hτ | hτ
      · rcases hstamp with hstamp | hstamp
        · rw [hstamp]
          rcases hnx with hnow | ⟨-, hold⟩
          · exact (hle τ hτ).trans_eq hnow.symm
          · exact (h.recent τ hτ).trans_eq hold.symm
        · rw [hstamp]
          exact h.recent τ hτ
      · -- the level has just changed, so the stamp is this poll's
        unfold changeTime at hτ
        split at hτ
        · exact absurd hτ (by simp)
        · rename_i hmoved
          simp only [Event.time, Option.toList_some, List.mem_singleton] at hτ
          rcases hacts with ⟨-, hlevel, hch⟩ | ⟨-, hlevel⟩
          · rcases hnx with hnow | ⟨hsame, -⟩
            · rw [hτ, hch, hnow]
            · exact absurd (hlevel.trans hsame) hmoved
          · exact absurd hlevel hmoved
  · have hother : ∀ p ret, e ≠ .poll p ret := fun p ret he => hpoll ⟨p, ret, he⟩
    obtain ⟨hlevel, hch, hfilter⟩ := step_other hother (s₀.run es) z
    have hread : readings z (es ++ [e]) = readings z es := by
      cases e with
      | poll p ret => exact absurd rfl (hother p ret)
      | _ => simp [readings, Event.reading]
    have hchanges : changes z s₀ (es ++ [e]) = changes z s₀ es := by
      rw [changes_append, changeTime, if_pos hlevel]
      simp
    refine ⟨?_, ?_, ?_⟩
    · rw [run_append, hlevel]
      exact h.lt
    · rw [run_append, hfilter, hread]
      exact h.shows
    · rw [run_append, hch, hchanges]
      exact h.recent

/-- **Every run** keeps a zone tracked. -/
theorem tracked {z : Zone} {s₀ : Policy} (h0 : Fresh s₀) (es : List Event)
    (ht : Nondecreasing es) : Tracked z s₀ es := by
  induction es using List.reverseRecOn with
  | nil => exact Tracked.fresh h0 z
  | append_singleton es e ih => exact (ih ht.init).step ht

/-- A later time stamp leaves less time since. -/
theorem ktimeMsDelta_anti {now a b : Int} (h : a ≤ b) : ktimeMsDelta now b ≤ ktimeMsDelta now a :=
  Int.tdiv_le_tdiv (by omega) (by omega)

/-! ## 5. The controller

The parts are put together: the filter is a median, the level moves by its rules, and the time
stamps tell when it last did. -/

/-- **The thermal controller over whole runs**, for one poll after any run. -/
theorem thermal_controller {s₀ : Policy} {es : List Event} {p : Poll} {ret : Int}
    (h0 : Fresh s₀) (ht : Nondecreasing (es ++ [.poll p ret])) (z : Zone) :
    let s := s₀.run es
    let t := s.step (.poll p ret)
    let hs := readings z (es ++ [.poll p ret])
    let w := padded hs
    (s.level z < z.table.length ∧ t.level z < z.table.length) ∧
    (3 ≤ hs.length → w = hs.drop (hs.length - 3)) ∧
    (p.raw z ≠ INT_MIN → s.acts ret z → ∀ i < z.table.length,
      2 ≤ w.countP (fun r => decide (upAt z.table i ≤ r)) → i ≤ t.level z) ∧
    (∀ i, s.level z < i → i ≤ t.level z →
      2 ≤ w.countP (fun r => decide (upAt z.table i ≤ r))) ∧
    (t.level z < s.level z → t.level z + 1 = s.level z ∧
      2 ≤ w.countP (fun r => decide (r < upAt z.table (s.level z) - THERMAL_HYST)) ∧
      ∀ τ ∈ changes z s₀ es, THERMAL_HOLD_MS ≤ ktimeMsDelta p.now τ) ∧
    (p.raw z = INT_MIN → t.level z = s.level z ∧ t.filter z = s.filter z) := by
  intro s t hs w
  have htr : Tracked z s₀ es := tracked h0 es ht.init
  have htr' : Tracked z s₀ (es ++ [.poll p ret]) := tracked h0 _ ht
  obtain ⟨hfilter, -, hacts⟩ := poll_zone s p ret z
  have hmed : p.raw z ≠ INT_MIN → ∀ x : Int,
      (x ≤ (tmuFiltered (s.filter z) (p.raw z)).2 ↔
        2 ≤ w.countP (fun r => decide (x ≤ r))) ∧
      ((tmuFiltered (s.filter z) (p.raw z)).2 < x ↔
        2 ≤ w.countP (fun r => decide (r < x))) := by
    intro hv x
    have hnew : hs = readings z es ++ [p.raw z] := by
      simp [hs, readings, Event.reading, hv]
    have := htr.shows.median hv x
    rwa [← hnew] at this
  have hraw : (tmuFiltered (s.filter z) (p.raw z)).2 ≠ INT_MIN → p.raw z ≠ INT_MIN := by
    intro hf hv
    rw [hv, filtered_invalid] at hf
    exact hf rfl
  refine ⟨⟨htr.lt, ?_⟩, padded_of_three, ?_, ?_, ?_, ?_⟩
  · have := htr'.lt
    rwa [run_append] at this
  · intro hv hact i hi hcount
    rcases hacts with ⟨-, hlevel, -⟩ | ⟨hnot, -⟩
    · rw [hlevel]
      exact le_thermalNext hi ((hmed hv _).1.mpr hcount)
    · exact absurd hact hnot
  · intro i hlow hhigh
    rcases hacts with ⟨-, hlevel, -⟩ | ⟨-, hlevel⟩
    · obtain ⟨hf, hup⟩ := of_lt_thermalNext hlow (hlevel ▸ hhigh)
      exact (hmed (hraw hf) _).1.mp hup
    · exact absurd (hlevel ▸ hhigh) (not_le.mpr hlow)
  · intro hfall
    rcases hacts with ⟨-, hlevel, -⟩ | ⟨-, hlevel⟩
    · obtain ⟨hf, hone, hcool, hheld⟩ := of_thermalNext_lt (hlevel ▸ hfall)
      refine ⟨hlevel ▸ hone, (hmed (hraw hf) _).2.mp hcool, fun τ hτ => ?_⟩
      exact hheld.trans (ktimeMsDelta_anti (htr.recent τ hτ))
    · exact absurd (hlevel ▸ hfall) (lt_irrefl _)
  · intro hv
    rw [hv, filtered_invalid] at hfilter hacts
    refine ⟨?_, hfilter⟩
    rcases hacts with ⟨-, hlevel, -⟩ | ⟨-, hlevel⟩
    · rw [hlevel]
      simp [thermalNext]
    · exact hlevel

/-- A poll at `ms` milliseconds that reads `temp` everywhere. -/
def pollAt (ms temp : Int) : Poll where
  now := ms * 1000000
  raw := fun _ => temp
  busy := 1
  idle := fun _ => false

/-- The M3 cluster goes to its top level at 90 degrees and falls one level three seconds
later. -/
theorem thermal_controller_falls :
    let s := atBoot.run [.init .big (fun _ => true), .poll (pollAt 0 90) 0, .poll (pollAt 100 30) 0]
    let t := s.step (.poll (pollAt 3000 30) 0)
    s.level .big = 4 ∧ t.level .big = 3 ∧ ∀ τ ∈ changes .big atBoot
      [.init .big (fun _ => true), .poll (pollAt 0 90) 0, .poll (pollAt 100 30) 0],
      THERMAL_HOLD_MS ≤ ktimeMsDelta (pollAt 3000 30).now τ := by
  have htimes : Nondecreasing ([.init .big (fun _ => true), .poll (pollAt 0 90) 0,
      .poll (pollAt 100 30) 0] ++ [.poll (pollAt 3000 30) 0]) := by decide
  have hrun := thermal_controller fresh_atBoot htimes .big
  exact ⟨by decide, by decide, (hrun.2.2.2.2.1 (by decide)).2.2⟩

/-- **The GPU's level is held back** at 0 by a GPU driver that refuses, whatever the
readings. -/
theorem gpu_level_held_back : ¬ ∀ (s₀ : Policy) (es : List Event) (p : Poll) (ret : Int) (z : Zone),
    Fresh s₀ → Nondecreasing (es ++ [.poll p ret]) → p.raw z ≠ INT_MIN →
    3 ≤ (readings z (es ++ [.poll p ret])).length → ∀ i < z.table.length,
      2 ≤ (padded (readings z (es ++ [.poll p ret]))).countP
        (fun r => decide (upAt z.table i ≤ r)) →
      i ≤ ((s₀.run es).step (.poll p ret)).level z := by
  intro h
  have := h atBoot [.poll (pollAt 0 95) (-11), .poll (pollAt 100 95) (-11)] (pollAt 200 95) (-11)
    .gpu fresh_atBoot (by decide) (by decide) (by decide) 2 (by decide) (by decide)
  exact absurd this (by decide)

end S9p.Cpufreq
