/-
# How the governor steps down

`main` of `s9p-governor` counts evidence in `evid` and steps a cluster down when it has seen
`HOLD_DOWN` = 6 quiet periods.  For the CPU clusters a period that is not quiet clears the count;
for the GPU nothing does but a step down.

* `cpu_falls_iff`: a CPU cluster steps down exactly at the end of six quiet periods in a row, none
  of which changed its step.
* `gpu_falls`: the GPU steps down exactly at every sixth idle period, whatever lies between them.
-/
import S9p.Governor.Caps

namespace S9p.Governor

open Device

variable {α : Type} [LinearOrder α] {fl : Floats α} {cfg : Config} {n : Cluster} {s t : Soc}
  {times : Times} {interrupts : List String} {g g' : Gov} {r : Sample α} {rs : List (Sample α)}
  {ok : Soc → (o : Op) → Luck → Bool}

/-! ## 1. Quiet periods

A quiet period is judged from the step that is wanted and the readings, before the period has
changed anything. -/

/-- Every core of the cluster is at most at the lower threshold. -/
def Low (fl : Floats α) (n : Cluster) (g : Gov) (r : Sample α) : Prop :=
  ((loadOf fl r.times g.prev n).max?).getD fl.zero ≤ fl.DOWN

instance (n : Cluster) (g : Gov) (r : Sample α) : Decidable (Low fl n g r) :=
  inferInstanceAs (Decidable (_ ≤ _))

/-- All of the periods in `rs`, from `g` on, are quiet. -/
def AllLow (fl : Floats α) (cfg : Config) (n : Cluster) : Gov → List (Sample α) → Prop
  | _, [] => True
  | g, r :: rs => Low fl n g r ∧ AllLow fl cfg n (nextGov fl cfg g r) rs

instance instDecidableAllLow (n : Cluster) : (g : Gov) → (rs : List (Sample α)) →
    Decidable (AllLow fl cfg n g rs)
  | _, [] => .isTrue trivial
  | g, r :: rs =>
    have := instDecidableAllLow n (nextGov fl cfg g r) rs
    inferInstanceAs (Decidable (_ ∧ _))

/-- The GPU is above its first step and has next to nothing to do. -/
def Idle (fl : Floats α) (g : Gov) (r : Sample α) : Prop :=
  fl.jobRate (r.jobs - g.prevJobs) r.dt < fl.rate10 ∧ 0 < g.want .gpu

instance (g : Gov) (r : Sample α) : Decidable (Idle fl g r) := inferInstanceAs (Decidable (_ ∧ _))

/-- How many of the periods in `rs`, from `g` on, are idle.  It is computed from the readings and
the variables that go with them, period by period. -/
def idles (fl : Floats α) (cfg : Config) : Gov → List (Sample α) → Nat
  | _, [] => 0
  | g, r :: rs => (if Idle fl g r then 1 else 0) + idles fl cfg (nextGov fl cfg g r) rs

/-- How often the step wanted for the GPU falls. -/
def falls (fl : Floats α) (cfg : Config) : Gov → List (Sample α) → Nat
  | _, [] => 0
  | g, r :: rs => (if (nextGov fl cfg g r).want .gpu < g.want .gpu then 1 else 0) +
      falls fl cfg (nextGov fl cfg g r) rs

variable (fl) (cfg) in
theorem Sound.after (h : Sound g) (rs : List (Sample α)) : Sound (after fl cfg g rs) := by
  induction rs generalizing g with
  | nil => exact h
  | cons r rs ih => exact ih (h.next fl cfg r)

theorem after_concat (g : Gov) (rs : List (Sample α)) (r : Sample α) :
    after fl cfg g (rs ++ [r]) = nextGov fl cfg (after fl cfg g rs) r := by
  simp [after]

theorem allLow_concat : AllLow fl cfg n g (rs ++ [r]) ↔
    AllLow fl cfg n g rs ∧ Low fl n (after fl cfg g rs) r := by
  induction rs generalizing g with
  | nil => simp [AllLow, after]
  | cons x rs ih =>
    simp only [List.cons_append, AllLow, ih, and_assoc]
    rfl

/-! ## 2. The CPU clusters

The evidence of a cluster is a number from 0 down to -5.  What it counts is said by the list of
periods, from its end. -/

section Cpu

variable (hon : cfg.cpuOn = true) (hn : n ≠ .gpu)
include hon hn

variable (fl) in
/-- What a period does to a CPU cluster. -/
theorem next_cpu (hg : Sound g) (r : Sample α) :
    ((nextGov fl cfg g r).want n = g.want n + 1 ∧ (nextGov fl cfg g r).evid n = 0 ∧
        ¬ Low fl n g r) ∨
    ((nextGov fl cfg g r).want n + 1 = g.want n ∧ (nextGov fl cfg g r).evid n = 0 ∧
        Low fl n g r ∧ g.evid n = -5) ∨
    ((nextGov fl cfg g r).want n = g.want n ∧ (nextGov fl cfg g r).evid n = g.evid n - 1 ∧
        Low fl n g r ∧ 0 < g.want n ∧ -5 < g.evid n) ∨
    ((nextGov fl cfg g r).want n = g.want n ∧ (nextGov fl cfg g r).evid n = 0 ∧
        ¬ (Low fl n g r ∧ 0 < g.want n)) := by
  have hmoved : moved fl cfg (loadOf fl r.times g.prev)
      (fl.jobRate (r.jobs - g.prevJobs) r.dt) g n =
      cpuStep fl ((CLUSTERS n).steps.length - 1)
        (((loadOf fl r.times g.prev n).max?).getD fl.zero) (g.want n, g.evid n) := by
    cases n with
    | gpu => exact absurd rfl hn
    | big | little => simp only [moved, if_pos hon]
  have hlow := (hg.evid n).1
  simp only [nextGov, hmoved, Low]
  rcases cpuStep_cases fl ((CLUSTERS n).steps.length - 1) (g.want n)
    (((loadOf fl r.times g.prev n).max?).getD fl.zero) _ (hg.evid n).2 with
    ⟨hup, -, hstep⟩ | ⟨hdown, hpos, hold, hstep⟩ | ⟨hdown, hpos, hold, hstep⟩ | ⟨hnot, hstep⟩
  · exact .inl (by rw [hstep]; exact ⟨rfl, rfl, not_le.mpr (fl.down_lt_up.trans_le hup)⟩)
  · refine .inr (.inl ?_)
    rw [hstep]
    dsimp only
    exact ⟨by omega, rfl, hdown, by omega⟩
  · exact .inr (.inr (.inl (by rw [hstep]; exact ⟨rfl, rfl, hdown, hpos, hold⟩)))
  · exact .inr (.inr (.inr (by rw [hstep]; exact ⟨rfl, rfl, hnot⟩)))

variable (fl) in
/-- **What has been counted**: the periods that the evidence stands for are the last ones, all
quiet, and the step has been the same through them. -/
theorem counted (hg : Sound g) (rs : List (Sample α)) (h0 : g.evid n = 0) :
    ∃ rs₁ rs₂, rs = rs₁ ++ rs₂ ∧ (rs₂.length : Int) = -(after fl cfg g rs).evid n ∧
      AllLow fl cfg n (after fl cfg g rs₁) rs₂ ∧
      (after fl cfg g rs₁).want n = (after fl cfg g rs).want n := by
  induction rs using List.reverseRecOn with
  | nil => exact ⟨[], [], rfl, by simp [after, h0], trivial, rfl⟩
  | append_singleton rs r ih =>
    obtain ⟨rs₁, rs₂, hsplit, hlen, hlow, hwant⟩ := ih
    rw [after_concat]
    have hnone : ∀ g', (nextGov fl cfg (after fl cfg g rs) r) = g' → g'.evid n = 0 →
        ∃ rs₁ rs₂, rs ++ [r] = rs₁ ++ rs₂ ∧ (rs₂.length : Int) = -g'.evid n ∧
          AllLow fl cfg n (after fl cfg g rs₁) rs₂ ∧ (after fl cfg g rs₁).want n = g'.want n := by
      rintro _ rfl hzero
      refine ⟨rs ++ [r], [], by simp, by simp [hzero], trivial, ?_⟩
      rw [after_concat]
    rcases next_cpu fl hon hn (hg.after fl cfg rs) r with
      ⟨-, hzero, -⟩ | ⟨-, hzero, -⟩ | ⟨hsame, hmore, hquiet, -⟩ | ⟨-, hzero, -⟩
    · exact hnone _ rfl hzero
    · exact hnone _ rfl hzero
    · refine ⟨rs₁, rs₂ ++ [r], by simp [hsplit], ?_, ?_, by rw [hsame, hwant]⟩
      · rw [hmore, List.length_append]
        push_cast
        rw [hlen]
        simp only [List.length_singleton, Nat.cast_one]
        omega
      · refine allLow_concat.mpr ⟨hlow, ?_⟩
        have hjoin : after fl cfg (after fl cfg g rs₁) rs₂ = after fl cfg g rs := by
          rw [hsplit]
          exact (List.foldl_append ..).symm
        rwa [hjoin]
    · exact hnone _ rfl hzero

/-- Through quiet periods the step does not go up, and while it stays the evidence grows. -/
theorem quiet_run (hg : Sound g) (h : AllLow fl cfg n g rs) :
    (after fl cfg g rs).want n ≤ g.want n ∧
      ((after fl cfg g rs).want n = g.want n → 0 < g.want n →
        (after fl cfg g rs).evid n = g.evid n - rs.length) := by
  induction rs generalizing g with
  | nil => exact ⟨le_rfl, fun _ _ => by simp [after]⟩
  | cons r rs ih =>
    obtain ⟨hlow, hrest⟩ := h
    obtain ⟨hle, hevid⟩ := ih (hg.next _ _ r) hrest
    have hafter : after fl cfg g (r :: rs) = after fl cfg (nextGov fl cfg g r) rs := rfl
    rw [hafter, List.length_cons]
    push_cast
    rcases next_cpu _ hon hn hg r with
      ⟨-, -, hnot⟩ | ⟨hfall, -, -⟩ | ⟨hsame, hmore, -, hpos, -⟩ | ⟨hsame, -, hnot⟩
    · exact absurd hlow hnot
    · exact ⟨by omega, fun heq => by omega⟩
    · refine ⟨by omega, fun heq hpos => ?_⟩
      have := hevid (by omega) (by omega)
      omega
    · refine ⟨by omega, fun _ hpos => absurd ⟨hlow, hpos⟩ hnot⟩

end Cpu

/-- **When a CPU cluster steps down**, in any run: exactly at the end of six quiet periods in a
row through the first five of which its step has been the same. -/
theorem cpu_falls_iff (hcfg : Sane cfg) (hon : cfg.cpuOn = true) (hn : n ≠ .gpu)
    {tr : List (Sigma Ans)}
    (h : soc.Runs ok (launch fl cfg times interrupts (rs ++ [r])).run s tr (.ok g') t) :
    g'.want n < (after fl cfg (started times interrupts) rs).want n ↔
      0 < (after fl cfg (started times interrupts) rs).want n ∧
        Low fl n (after fl cfg (started times interrupts) rs) r ∧
        ∃ rs₁ rs₂, rs = rs₁ ++ rs₂ ∧ rs₂.length = 5 ∧
          AllLow fl cfg n (after fl cfg (started times interrupts) rs₁) rs₂ ∧
          (after fl cfg (started times interrupts) rs₁).want n =
            (after fl cfg (started times interrupts) rs).want n := by
  obtain rfl := after_of_runs hcfg h
  have hsound := (started_sound times interrupts).after fl cfg
  rw [after_concat]
  constructor
  · intro hfall
    rcases next_cpu fl hon hn (hsound rs) r with
      ⟨hup, -, -⟩ | ⟨hdown, -, hlow, hfive⟩ | ⟨hsame, -⟩ | ⟨hsame, -⟩
    · exact absurd hfall (by omega)
    · obtain ⟨rs₁, rs₂, hsplit, hlen, hall, hwant⟩ :=
        counted fl hon hn (started_sound times interrupts) rs rfl
      exact ⟨by omega, hlow, rs₁, rs₂, hsplit, by omega, hall, hwant⟩
    · exact absurd hfall (by omega)
    · exact absurd hfall (by omega)
  · rintro ⟨hpos, hlow, rs₁, rs₂, hsplit, hlen, hall, hwant⟩
    have hjoin : after fl cfg (after fl cfg (started times interrupts) rs₁) rs₂ =
        after fl cfg (started times interrupts) rs := by
      rw [hsplit]
      exact (List.foldl_append ..).symm
    obtain ⟨-, hevid⟩ := quiet_run hon hn (hsound rs₁) hall
    have hevid := hevid (by rw [hjoin, hwant]) (by omega)
    rw [hjoin] at hevid
    have hfive := ((hsound rs).evid n).1
    have hzero := ((hsound rs₁).evid n).2
    rcases next_cpu fl hon hn (hsound rs) r with
      ⟨-, -, hnot⟩ | ⟨hdown, -⟩ | ⟨-, -, -, -, hmore⟩ | ⟨-, -, hnot⟩
    · exact absurd hlow hnot
    · omega
    · omega
    · exact absurd ⟨hlow, hpos⟩ hnot

/-- What is read `ticks` after `busy 100 0 40`, no CPU having done anything since. -/
def quiet (ticks : Int) : Sample Int := ⟨eight (100 + ticks) ticks, jobLine 0, 1, sensors 40⟩

/-- One busy period, and five quiet ones. -/
def fiveQuiet : List (Sample Int) :=
  busy 100 0 40 :: [quiet 100, quiet 200, quiet 300, quiet 400, quiet 500]

/-- The M3 cores go up in the busy period and down again in the sixth quiet one. -/
theorem cpu_falls_iff_sixth : ∃ tr g' t,
    soc.Runs heard (launch percent allClusters (eight 0 0) (jobLine 0)
      (fiveQuiet ++ [quiet 600])).run unprogrammed tr (.ok g') t ∧
    (after percent allClusters (started (eight 0 0) (jobLine 0)) fiveQuiet).want .big = 1 ∧
    g'.want .big < 1 := by
  obtain ⟨tr, x, t, h⟩ := exists_runs soc_goes (launch percent allClusters (eight 0 0) (jobLine 0)
    (fiveQuiet ++ [quiet 600])).run unprogrammed
  obtain ⟨g', rfl⟩ := launch_ok sane_allClusters (by decide +kernel) (by decide +kernel)
    (by decide +kernel) h
  have hone : (after percent allClusters (started (eight 0 0) (jobLine 0))
      fiveQuiet).want .big = 1 :=
    by decide +kernel
  refine ⟨tr, g', t, h, hone, ?_⟩
  rw [← hone]
  refine (cpu_falls_iff sane_allClusters rfl (by decide) h).mpr
    ⟨by decide +kernel, by decide +kernel, [busy 100 0 40], _, rfl, rfl, by decide +kernel, ?_⟩
  decide +kernel

/-! ## 3. The GPU

The rule for the GPU has no branch that clears the evidence, so the periods it counts need not
follow one another. -/

variable (fl) (cfg) in
/-- What a period does to the GPU. -/
theorem next_gpu (hg : Sound g) (r : Sample α) :
    (Idle fl g r ∧ g.evid .gpu = -5 ∧ (nextGov fl cfg g r).want .gpu < g.want .gpu ∧
        (nextGov fl cfg g r).evid .gpu = 0) ∨
    (Idle fl g r ∧ ¬ (nextGov fl cfg g r).want .gpu < g.want .gpu ∧
        (nextGov fl cfg g r).evid .gpu = g.evid .gpu - 1) ∨
    (¬ Idle fl g r ∧ ¬ (nextGov fl cfg g r).want .gpu < g.want .gpu ∧
        (nextGov fl cfg g r).evid .gpu = g.evid .gpu) := by
  have hlow := (hg.evid .gpu).1
  simp only [nextGov, moved, Idle]
  rcases gpuStep_cases fl (fl.jobRate (r.jobs - g.prevJobs) r.dt) (g.want .gpu)
    (g.evid .gpu) with
    ⟨hbusy, -, hstep⟩ | ⟨hidle, hpos, hold, hstep⟩ | ⟨hidle, hpos, -, hstep⟩ | ⟨hnot, hstep⟩
  · refine .inr (.inr ?_)
    rw [hstep]
    exact ⟨fun h => hbusy h.1, by dsimp only; omega, rfl⟩
  · refine .inl ?_
    rw [hstep]
    exact ⟨⟨hidle, hpos⟩, by omega, by dsimp only; omega, rfl⟩
  · refine .inr (.inl ?_)
    rw [hstep]
    exact ⟨⟨hidle, hpos⟩, lt_irrefl _, rfl⟩
  · refine .inr (.inr ?_)
    rw [hstep]
    exact ⟨hnot, lt_irrefl _, rfl⟩

variable (fl) (cfg) in
/-- Every idle period is counted once, and six make a step down. -/
theorem idles_eq (hg : Sound g) (rs : List (Sample α)) :
    (idles fl cfg g rs : Int) - g.evid .gpu =
      6 * falls fl cfg g rs - (after fl cfg g rs).evid .gpu := by
  induction rs generalizing g with
  | nil => simp [idles, falls, after]
  | cons r rs ih =>
    have hrest := ih (hg.next fl cfg r)
    have hafter : after fl cfg g (r :: rs) = after fl cfg (nextGov fl cfg g r) rs := rfl
    rw [hafter]
    simp only [idles, falls]
    rcases next_gpu fl cfg hg r with
      ⟨hidle, hfive, hfall, hzero⟩ | ⟨hidle, hstay, hmore⟩ | ⟨hbusy, hstay, hsame⟩
    · rw [if_pos hidle, if_pos hfall]
      push_cast
      omega
    · rw [if_pos hidle, if_neg hstay]
      push_cast
      omega
    · rw [if_neg hbusy, if_neg hstay]
      push_cast
      omega

/-- **When the GPU steps down**, in any run: at every sixth idle period, however many periods that
are not idle lie between them. -/
theorem gpu_falls (hcfg : Sane cfg) {tr : List (Sigma Ans)}
    (h : soc.Runs ok (launch fl cfg times interrupts rs).run s tr (.ok g') t) :
    falls fl cfg (started times interrupts) rs = idles fl cfg (started times interrupts) rs / 6 ∧
      g'.evid .gpu = -(idles fl cfg (started times interrupts) rs % 6 : Nat) := by
  obtain rfl := after_of_runs hcfg h
  have hsound := (started_sound times interrupts).after fl cfg rs
  have hcount := idles_eq fl cfg (started_sound times interrupts) rs
  have hzero : (started times interrupts).evid .gpu = 0 := rfl
  have hbounds := hsound.evid .gpu
  constructor <;> omega

/-- A period with 40 jobs, three with none, one with 20 and three with none. -/
def sixIdle : List (Sample Int) :=
  [busy 100 40 40, busy 200 40 40, busy 300 40 40, busy 400 40 40,
    busy 500 60 40, busy 600 60 40, busy 700 60 40, busy 800 60 40]

/-- The GPU goes up for the first of them and down again after the last: six periods have been idle,
with another in between. -/
theorem gpu_falls_sixth : ∃ tr g' t,
    soc.Runs heard (launch percent allClusters (eight 0 0) (jobLine 0) sixIdle).run
      unprogrammed tr (.ok g') t ∧
    idles percent allClusters (started (eight 0 0) (jobLine 0)) sixIdle = 6 ∧
    falls percent allClusters (started (eight 0 0) (jobLine 0)) sixIdle = 1 ∧
    g'.evid .gpu = 0 := by
  obtain ⟨tr, x, t, h⟩ := exists_runs soc_goes (launch percent allClusters (eight 0 0) (jobLine 0)
    sixIdle).run unprogrammed
  obtain ⟨g', rfl⟩ := launch_ok sane_allClusters (by decide +kernel) (by decide +kernel)
    (by decide +kernel) h
  have hsix : idles percent allClusters (started (eight 0 0) (jobLine 0)) sixIdle = 6 := by
    decide +kernel
  obtain ⟨hfalls, hevid⟩ := gpu_falls sane_allClusters h
  rw [hsix] at hfalls hevid
  exact ⟨tr, g', t, h, hsix, hfalls, hevid⟩

end S9p.Governor
