/-
# What the QoS requests of a cluster say

The policy poll rewrites a request only when the value it has cached for it changes.  The
cached thermal level and busy cap live in a static that outlives the cpufreq policy, but
`s9p_init` puts the requests themselves back to their default: a policy that is torn down and
set up again while its cluster is hot runs without its thermal cap until the level next moves.

* `thermal_cap_lost`: a cluster at its top level is set up again and polled; its thermal
  request still asks for nothing.
* `qos_mirrors_iff`: after a poll of any run the requests say what they should exactly when no
  request that still has its default is one the poll takes for up to date.
-/
import S9p.Cpufreq.Policy

namespace S9p.Cpufreq

/-! ## 1. What the requests should say

What a request should say is stated against the state of the cluster, and not against what was last
written to it. -/

/-- The requests of a cluster mirror its state, `busy` M3 cores being busy.  Nothing is asked of the
thermal request at level 0, where the source leaves it as it is. -/
structure Mirrors (boost : Bool) (busy : Nat) (c : ClusterId) (k : Cluster) : Prop where
  thermal : 0 < k.thermalLvl → ∃ v, k.qosThermal = some v ∧ v ≤ maxKhz c.thermal k.thermalLvl
  busy : c = .big → k.qosBusy = some (bigCapFor busy)
  boost : k.qosBoost = some c.safeMax ↔ boost = false
  idle : k.qosIdle = some (floorKhz c) ↔ k.idleCapped = true

/-- The poll `p`, at the temperature `t`, takes no request for up to date that has its default: the
thermal level is 0 or moves, the busy cap moves.  It is a condition on what the poll finds, before
it has changed anything. -/
structure Catches (p : Poll) (c : ClusterId) (t : Int) (k : Cluster) : Prop where
  thermal : k.qosThermal = some FREQ_QOS_MAX_DEFAULT_VALUE →
    (thermalNext k.thermalLvl t c.thermal p.now k.thermalChanged).1 = k.thermalLvl →
    k.thermalLvl = 0
  busy : c = .big → k.qosBusy = some FREQ_QOS_MAX_DEFAULT_VALUE → bigCapFor p.busy ≠ k.busyCap

/-! ## 2. What the requests can say

A request has been added with its default and may have been updated since.  Nothing else writes it,
so there are two values it can have. -/

/-- Each request of a cluster has its default or the value cached for it; boost and idle
requests are always up to date. -/
structure Accounted (boost : Bool) (c : ClusterId) (k : Cluster) : Prop where
  thermal : k.qosThermal = some FREQ_QOS_MAX_DEFAULT_VALUE ∨
    k.qosThermal = some (maxKhz c.thermal k.thermalLvl)
  busy : k.qosBusy = some FREQ_QOS_MAX_DEFAULT_VALUE ∨ k.qosBusy = some k.busyCap
  boost : k.qosBoost = some (boostMax boost c)
  idle : k.qosIdle = some (if k.idleCapped then floorKhz c else FREQ_QOS_MAX_DEFAULT_VALUE)

/-- A cluster whose policy is up has its requests accounted for, and one whose policy is down
has none. -/
def Kept (boost : Bool) (c : ClusterId) (k : Cluster) : Prop :=
  (k.qosAdded = true → Accounted boost c k) ∧
    (k.qosAdded = false → k.qosThermal = none ∧ k.qosBusy = none ∧ k.qosBoost = none ∧
      k.qosIdle = none)

/-- No level asks for as much as a request that asks for nothing. -/
theorem maxKhz_lt (c : ClusterId) (i : Nat) : maxKhz c.thermal i < FREQ_QOS_MAX_DEFAULT_VALUE := by
  have htable : ∀ l ∈ c.thermal, l.maxKhz < FREQ_QOS_MAX_DEFAULT_VALUE := by cases c <;> decide
  unfold maxKhz
  cases hl : c.thermal[i]? with
  | none => decide
  | some l => exact htable l (List.mem_of_getElem? hl)

theorem bigCapFor_lt (busy : Nat) : bigCapFor busy < FREQ_QOS_MAX_DEFAULT_VALUE := by
  unfold bigCapFor
  repeat' split
  all_goals decide

theorem safeMax_ne (c : ClusterId) : c.safeMax ≠ FREQ_QOS_MAX_DEFAULT_VALUE := by
  cases c <;> decide

theorem floorKhz_ne (c : ClusterId) : floorKhz c ≠ FREQ_QOS_MAX_DEFAULT_VALUE := by
  cases c <;> decide

section Accounted

variable {boost : Bool} {c : ClusterId} {k : Cluster}

/-- What is left to ask of accounted requests is that they do not have their default. -/
theorem Accounted.mirrors_iff (h : Accounted boost c k) (busy : Nat) :
    Mirrors boost busy c k ↔
      (0 < k.thermalLvl → k.qosThermal ≠ some FREQ_QOS_MAX_DEFAULT_VALUE) ∧
        (c = .big → k.qosBusy = some (bigCapFor busy)) := by
  constructor
  · intro hm
    refine ⟨fun hpos hdefault => ?_, hm.busy⟩
    obtain ⟨v, hv, hle⟩ := hm.thermal hpos
    rw [hdefault, Option.some.injEq] at hv
    have := maxKhz_lt c k.thermalLvl
    omega
  · rintro ⟨hthermal, hbusy⟩
    refine ⟨fun hpos => ?_, hbusy, ?_, ?_⟩
    · rcases h.thermal with hd | hv
      · exact absurd hd (hthermal hpos)
      · exact ⟨_, hv, le_rfl⟩
    · rw [h.boost]
      cases boost with
      | false => simp [boostMax]
      | true => simpa [boostMax] using (safeMax_ne c).symm
    · rw [h.idle]
      cases k.idleCapped with
      | false => simpa using (floorKhz_ne c).symm
      | true => simp

/-! ## 3. One poll

The poll updates the thermal request when the level moves, and the busy request when the cap does.
The other two are written whenever they could have changed. -/

theorem Accounted.thermalStep (h : Accounted boost c k) (t now : Int) :
    Accounted boost c (thermalStep c t now k) := by
  unfold Cpufreq.thermalStep
  dsimp only
  split
  · refine ⟨.inr ?_, h.busy, h.boost, h.idle⟩
    rcases h.thermal with hq | hq
    · rw [hq]; rfl
    · rw [hq]; rfl
  · exact ⟨h.thermal, h.busy, h.boost, h.idle⟩

theorem Accounted.busyStep (h : Accounted boost c k) (busy : Nat) :
    Accounted boost c (busyStep c busy k) := by
  unfold Cpufreq.busyStep
  dsimp only
  split
  · split
    · refine ⟨h.thermal, .inr ?_, h.boost, h.idle⟩
      rcases h.busy with hq | hq
      · rw [hq]; rfl
      · rw [hq]; rfl
    · exact h
  · exact h

theorem Accounted.idleFloor (h : Accounted boost c k) (on idle : Bool) :
    Accounted boost c (idleFloor on c idle k) := by
  unfold Cpufreq.idleFloor
  split
  · exact h
  · extract_lets idlePolls want
    split
    · exact ⟨h.thermal, h.busy, h.boost, h.idle⟩
    · refine ⟨h.thermal, h.busy, h.boost, ?_⟩
      rw [h.idle]
      rfl

/-- What the poll leaves of the thermal request. -/
theorem thermal_caught_iff (h : Accounted boost c k) (t now : Int) :
    (0 < (Cpufreq.thermalStep c t now k).thermalLvl →
        (Cpufreq.thermalStep c t now k).qosThermal ≠ some FREQ_QOS_MAX_DEFAULT_VALUE) ↔
      (k.qosThermal = some FREQ_QOS_MAX_DEFAULT_VALUE →
        (thermalNext k.thermalLvl t c.thermal now k.thermalChanged).1 = k.thermalLvl →
        k.thermalLvl = 0) := by
  unfold Cpufreq.thermalStep
  dsimp only
  split
  · rename_i hmoved
    refine ⟨fun _ _ hsame => absurd hsame hmoved, fun _ _ hdefault => ?_⟩
    have hlt := maxKhz_lt c (thermalNext k.thermalLvl t c.thermal now k.thermalChanged).1
    rcases h.thermal with hq | hq
    · rw [hq] at hdefault
      exact absurd (Option.some.inj hdefault) hlt.ne
    · rw [hq] at hdefault
      exact absurd (Option.some.inj hdefault) hlt.ne
  · rename_i hsame
    constructor
    · intro hne hdefault _
      by_contra hpos
      exact hne (Nat.pos_of_ne_zero hpos) hdefault
    · intro hzero hpos hdefault
      exact absurd (hzero hdefault (not_not.mp hsame)) (Nat.pos_iff_ne_zero.mp hpos)

/-- What the poll leaves of the busy request. -/
theorem busy_caught_iff (h : Accounted boost c k) (busy : Nat) :
    (c = .big → (Cpufreq.busyStep c busy k).qosBusy = some (bigCapFor busy)) ↔
      (c = .big → k.qosBusy = some FREQ_QOS_MAX_DEFAULT_VALUE → bigCapFor busy ≠ k.busyCap) := by
  refine forall_congr' (fun hc => ?_)
  unfold Cpufreq.busyStep
  rw [if_pos hc]
  dsimp only
  split
  · rename_i hmoved
    refine ⟨fun _ _ => hmoved, fun _ => ?_⟩
    rcases h.busy with hq | hq
    · rw [hq]; rfl
    · rw [hq]; rfl
  · rename_i hsame
    have hcap : bigCapFor busy = k.busyCap := not_not.mp hsame
    constructor
    · intro hq hdefault _
      rw [hq, Option.some.injEq] at hdefault
      exact absurd hdefault (bigCapFor_lt busy).ne
    · intro hcatch
      rcases h.busy with hq | hq
      · exact absurd hcap (hcatch hq)
      · rw [hq, hcap]

/-- **One poll of one cluster** leaves requests that mirror its state exactly when it takes
no default for up to date. -/
theorem mirrors_clusterPoll_iff (h : Accounted boost c k) (hadded : k.qosAdded = true)
    (on : Bool) (p : Poll) (t : Int) :
    Mirrors boost p.busy c (clusterPoll on p c t k) ↔ Catches p c t k := by
  have hpoll : clusterPoll on p c t k =
      Cpufreq.idleFloor on c (p.idle c) (Cpufreq.busyStep c p.busy
        (Cpufreq.thermalStep c t p.now k)) := by
    simp [clusterPoll, hadded]
  have hstep := h.thermalStep t p.now
  rw [hpoll, ((hstep.busyStep p.busy).idleFloor on (p.idle c)).mirrors_iff]
  simp only [idleFloor_thermal, idleFloor_busy, busyStep_thermal]
  rw [thermal_caught_iff h, busy_caught_iff hstep]
  simp only [thermalStep_busy]
  exact ⟨fun hc => ⟨hc.1, hc.2⟩, fun hc => ⟨hc.thermal, hc.busy⟩⟩

end Accounted

/-! ## 4. Runs

The accounts are kept by every event, whatever the order.  Whether the poll then leaves everything
right depends on the state it finds alone. -/

/-- The clusters of a policy all keep their requests. -/
def AllKept (s : Policy) : Prop := ∀ c, Kept s.boost c (s.cluster c)

theorem kept_update {s : Policy} (h : AllKept s) {c : ClusterId} {k : Cluster}
    (hk : Kept s.boost c k) (d : ClusterId) :
    Kept s.boost d (Function.update s.cluster c k d) := by
  by_cases hd : d = c
  · subst hd
    rwa [Function.update_self]
  · rw [Function.update_of_ne hd]
    exact h d

/-- A policy that could not be set up has no requests. -/
theorem qosAdd_fresh {accept : Bool} {v : Nat} {req req' : Option Nat}
    (h : qosAdd accept v req = some req') : req = none ∧ req' = some v := by
  unfold qosAdd at h
  split at h
  · exact absurd h (by simp)
  · rename_i hfree
    simp only [not_or, Option.not_isSome_iff_eq_none] at hfree
    exact ⟨hfree.1, (Option.some.inj h).symm⟩

/-- A cluster that already has its requests is not set up again. -/
theorem Kept.down {boost : Bool} {c : ClusterId} {k : Cluster} (h : Kept boost c k)
    (hq : k.qosThermal = none) : k.qosAdded = false := by
  by_contra hadded
  have hacc := h.1 (by simpa using hadded)
  rcases hacc.thermal with hd | hd
  · exact absurd (hq.symm.trans hd) (by simp)
  · exact absurd (hq.symm.trans hd) (by simp)

theorem AllKept.init {s : Policy} (h : AllKept s) (c : ClusterId) (accept : Fin 4 → Bool) :
    AllKept (init c accept s) := by
  unfold Cpufreq.init
  dsimp only
  split
  · exact h
  · split
    · exact h
    · rename_i hthermal
      obtain ⟨hfree, rfl⟩ := qosAdd_fresh hthermal
      have hdown : (s.cluster c).qosAdded = false := (h c).down hfree
      obtain ⟨-, hb, ho, hi⟩ := (h c).2 hdown
      -- the requests taken back are none again
      have hundo : ∀ k : Cluster, k.qosAdded = false → k.qosThermal = none → k.qosBusy = none →
          k.qosBoost = none → k.qosIdle = none → Kept s.boost c k :=
        fun k h0 h1 h2 h3 h4 => ⟨fun hup => absurd (h0.symm.trans hup) (by simp), fun _ =>
          ⟨h1, h2, h3, h4⟩⟩
      split
      · exact kept_update h (hundo _ hdown rfl hb ho hi)
      · rename_i hbusy
        obtain ⟨-, rfl⟩ := qosAdd_fresh hbusy
        split
        · exact kept_update h (hundo _ hdown rfl rfl ho hi)
        · rename_i hboost
          obtain ⟨-, rfl⟩ := qosAdd_fresh hboost
          split
          · exact kept_update h (hundo _ hdown rfl rfl rfl hi)
          · rename_i hidle
            obtain ⟨-, rfl⟩ := qosAdd_fresh hidle
            exact kept_update h
              ⟨fun _ => ⟨.inl rfl, .inl rfl, rfl, rfl⟩, fun hno => absurd hno (by simp)⟩

/-- **One event** keeps the requests accounted for. -/
theorem AllKept.step {s : Policy} (h : AllKept s) (e : Event) : AllKept (s.step e) := by
  cases e with
  | init c accept => exact h.init c accept
  | exit c =>
    simp only [Policy.step, exit]
    split
    · exact kept_update h ⟨fun hup => absurd hup (by simp), fun _ => ⟨rfl, rfl, rfl, rfl⟩⟩
    · exact h
  | boostSet v =>
    intro c
    simp only [Policy.step, boostSet, applyBoost]
    split
    · rename_i hadded
      have hacc := (h c).1 hadded
      refine ⟨fun _ => ⟨hacc.thermal, hacc.busy, ?_, hacc.idle⟩,
        fun hno => absurd (hno.symm.trans hadded) (by simp)⟩
      rw [hacc.boost]
      rfl
    · rename_i hadded
      exact ⟨fun hup => absurd hup hadded, (h c).2⟩
  | idleFloorSet on => exact h
  | poll p ret =>
    intro c
    simp only [Policy.step, policyWork_eq]
    constructor
    · intro hup
      rw [clusterPoll_qosAdded] at hup
      simp only [clusterPoll, hup, Bool.not_true, Bool.false_eq_true, if_false]
      exact ((((h c).1 hup).thermalStep _ _).busyStep _).idleFloor _ _
    · intro hno
      rw [clusterPoll_qosAdded] at hno
      simp only [clusterPoll, hno, Bool.not_false, if_true]
      exact (h c).2 hno

/-- **Every run** keeps the requests accounted for. -/
theorem allKept {s₀ : Policy} (h0 : Fresh s₀) (es : List Event) : AllKept (s₀.run es) := by
  induction es using List.reverseRecOn with
  | nil =>
    intro c
    obtain ⟨-, -, hdown, -, hq⟩ := h0.clusters c
    exact ⟨fun hup => absurd (hdown.symm.trans hup) (by simp), fun _ => hq⟩
  | append_singleton es e ih =>
    rw [run_append]
    exact ih.step e

/-- **The requests mirror the state** after a poll, whatever came before it, exactly when the
poll finds no request that still has its default and takes it for up to date. -/
theorem qos_mirrors_iff {s₀ : Policy} (h0 : Fresh s₀) (es : List Event) (p : Poll) (ret : Int) :
    let s := s₀.run es
    let t := s.step (.poll p ret)
    (∀ c, (t.cluster c).qosAdded = true → Mirrors t.boost p.busy c (t.cluster c)) ↔
      ∀ c, (s.cluster c).qosAdded = true →
        Catches p c (tmuFiltered (s.filter c.zone) (p.raw c.zone)).2 (s.cluster c) := by
  intro s t
  have hkept := allKept h0 es
  refine forall_congr' (fun c => ?_)
  simp only [t, Policy.step, policyWork_eq, clusterPoll_qosAdded]
  exact forall_congr' (fun hadded => mirrors_clusterPoll_iff ((hkept c).1 hadded) hadded _ _ _)

/-- A poll that finds 90 degrees everywhere and one busy M3 core. -/
def hotPoll : Poll where
  now := 0
  raw := fun _ => 90
  busy := 1
  idle := fun _ => false

/-- The M3 cluster is at its top level after that poll, and its requests say so. -/
theorem qos_mirrors_first_poll :
    let t := (atBoot.run [.init .big (fun _ => true)]).step (.poll hotPoll 0)
    (t.cluster .big).qosAdded = true ∧ (t.cluster .big).thermalLvl = 4 ∧
      Mirrors false 1 .big (t.cluster .big) := by
  have hcatches : ∀ c, ((atBoot.run [.init .big (fun _ => true)]).cluster c).qosAdded = true →
      Catches hotPoll c (tmuFiltered ((atBoot.run [.init .big (fun _ => true)]).filter c.zone)
        (hotPoll.raw c.zone)).2 ((atBoot.run [.init .big (fun _ => true)]).cluster c) := by
    intro c hadded
    cases c with
    | little => exact absurd hadded (by decide)
    | big => exact ⟨fun _ h => absurd h (by decide), fun _ _ => by decide⟩
  have hmirrors :=
    (qos_mirrors_iff fresh_atBoot [.init .big (fun _ => true)] hotPoll 0).mpr hcatches
  exact ⟨by decide, by decide, hmirrors .big (by decide)⟩

/-- **A thermal cap is lost** when a hot cluster is set up again: the level has not moved, so
the poll does not write the new request. -/
theorem thermal_cap_lost : ¬ ∀ (s₀ : Policy) (es : List Event) (p : Poll) (ret : Int),
    Fresh s₀ → ∀ c, (((s₀.run es).step (.poll p ret)).cluster c).qosAdded = true →
      Mirrors ((s₀.run es).step (.poll p ret)).boost p.busy c
        (((s₀.run es).step (.poll p ret)).cluster c) := by
  intro h
  have hm := h atBoot
    [.init .big (fun _ => true), .poll hotPoll 0, .exit .big, .init .big (fun _ => true)] hotPoll 0
    fresh_atBoot .big (by decide)
  obtain ⟨v, hv, hle⟩ := hm.thermal (by decide)
  have hdefault : some v = some FREQ_QOS_MAX_DEFAULT_VALUE := hv.symm.trans (by decide)
  rw [Option.some.inj hdefault] at hle
  exact absurd hle (by decide)

end S9p.Cpufreq
