/-
# The lowest request wins

Three parties ask for a GPU rate: devfreq through the clock, the thermal cap and the user's
ceiling.  `s9p_g3d_apply` takes the lowest of the three to PLL_CON0 while the domain is powered;
otherwise it only keeps it, until `s9p_g3d_domain_unlock` says that the power is back.

* `Told` is what the driver has been told so far, `Told.after` what one more call tells it.
* `lowest_request_wins`: after any calls in any order the variables hold exactly that; while the
  domain is powered and the last `s9p_g3d_apply` has returned 0, PLL_CON0 is on the highest
  step not above the lowest request; and before a call gives the lock back, its own request
  counts.  Nothing is written through the windows of `s9p-g3d` while the domain is off.

Every call does its work under `g3d_lock`, which the power-domain driver takes with
`s9p_g3d_domain_lock`, so the calls are made one at a time.  What that driver does under the
lock is its own business: it may leave anything in PLL_CON0 (`Section`).
-/
import S9p.Lib.History
import S9p.G3d.Domain
import S9p.G3d.Restore

namespace S9p.G3d

open Field Device

/-! ## 1. What the driver is told

What the driver has been told is independent of what it has made of it.  It is computed from the
history of calls alone. -/

/-- The three requests, and whether the domain is powered.  It is what a caller can know: the
driver's own variables are compared with it, and not the other way round. -/
structure Told where
  req : Nat
  thermal : Nat
  max : Nat
  powered : Bool
  deriving DecidableEq

/-- What the drivers remember of what they have been told. -/
def told (k : Statics) : Told := ⟨k.reqKhz, k.thermalKhz, k.maxKhz, k.domainPowered⟩

/-- The lowest of the three. -/
def Told.khz (w : Told) : Nat := min (min w.req w.thermal) w.max

/-- `st` is the highest stock step not above `khz`, or the lowest one where all are. -/
structure Highest (khz : Nat) (st : Step) : Prop where
  stock : st ∈ steps
  below : (∃ st' ∈ steps, st'.khz ≤ khz) →
    st.khz ≤ khz ∧ ∀ st' ∈ steps, st'.khz ≤ khz → st'.khz ≤ st.khz
  lowest : (∀ st' ∈ steps, khz < st'.khz) → ∀ st' ∈ steps, st.khz ≤ st'.khz

/-- **The lowest request is in force**: where the domain is powered, PLL_CON0 selects the PLL and
programs it for the highest step not above that request. -/
def InForce (w : Told) (con0 : Word) : Prop :=
  w.powered = true →
    ∃ st, Highest w.khz st ∧ Programmed st con0 ∧ pllKhz con0 = st.khz ∧ selected con0 = true

/-- In a list that falls, the first element with a property is the highest one. -/
theorem find?_highest {α : Type} {f : α → Nat} {p : α → Bool} {l : List α} {a : α}
    (hfall : l.Pairwise (fun a b => f b ≤ f a)) (h : l.find? p = some a) :
    ∀ b ∈ l, p b = true → f b ≤ f a := by
  obtain ⟨-, before, after, rfl, hbefore⟩ := List.find?_eq_some_iff_append.mp h
  intro b hb hpb
  rcases List.mem_append.mp hb with hb | hb
  · exact absurd hpb (by simpa using hbefore b hb)
  · rcases List.mem_cons.mp hb with rfl | hb
    · exact le_rfl
    · exact List.rel_of_pairwise_cons (List.pairwise_append.mp hfall).2.1 hb

/-- `s9p_g3d_step_below` finds it. -/
theorem highest_stepBelow (khz : Nat) : Highest khz (stepBelow khz) := by
  have hfall : steps.Pairwise (fun a b => b.khz ≤ a.khz) := by decide
  have hlow : ∀ st' ∈ steps, lowStep.khz ≤ st'.khz := by decide
  refine ⟨stepBelow_mem khz, ?_, ?_⟩
  · rintro ⟨st', hmem, hle⟩
    unfold stepBelow
    cases h : steps.find? (fun st => decide (st.khz ≤ khz)) with
    | none => exact absurd hle (by simpa using List.find?_eq_none.mp h st' hmem)
    | some st =>
      refine ⟨by simpa using List.find?_some h, fun st₁ h₁ hle₁ => ?_⟩
      exact find?_highest hfall h st₁ h₁ (decide_eq_true hle₁)
  · intro hall
    have hnone : steps.find? (fun st => decide (st.khz ≤ khz)) = none :=
      List.find?_eq_none.mpr (fun st' hmem => by simpa using hall st' hmem)
    unfold stepBelow
    rw [hnone]
    exact hlow

/-- A PLL that reads back as the target has the lowest request in force. -/
theorem inForce_of_isStep {k : Statics} {con0 : Word} (h : isStep con0 (target k) = true) :
    InForce (told k) con0 := by
  obtain ⟨hprog, hsel⟩ := isStep_iff.mp h
  exact fun _ => ⟨target k, highest_stepBelow _, hprog, hprog.khz (target_mem k), hsel⟩

/-! ## 2. The calls

The calls are the ones that store a request, and the section of the power-domain driver, which is
any program made of its operations. -/

/-- What the power-domain driver does between taking the lock and giving it back. -/
structure Section where
  body : P Int
  uses : body.Uses SectionOp

/-- Its power-on. -/
def powerOnSection : Section := ⟨powerOnLocked, uses_powerOnLocked⟩

/-- `s9p_g3d_domain_unlock` up to the unlock: what its `s9p_g3d_apply` returns, or 0. -/
def deferred (powered : Bool) : P Int := do
  mark (.domainUnlock powered)
  assign (.domainPowered powered)
  let k ← get
  if powered ∧ k.con0.isSome ∧ k.railSet then apply else return 0

/-- The calls that ask for a clock, and the sections of the other driver under the lock. -/
inductive ClockCall where
  | clkSet (rate : Nat)
  | setKhz (khz : Nat)
  | maxSet (val : Except Int Nat)
  | domain (d : Section) (powered : Bool)

/-- What each does.  The last is `s9p_g3d_domain_lock`, the work of the other driver, and
`s9p_g3d_domain_unlock` (`domain_eq`). -/
def clockProgram : ClockCall → P Int
  | .clkSet rate => clkSet rate
  | .setKhz khz => setKhz khz
  | .maxSet val => maxSet val
  | .domain d powered => do
    domainLock
    let _ ← d.body
    let ret ← deferred powered
    mutexUnlock
    return ret

theorem domainUnlock_eq (powered : Bool) :
    domainUnlock powered = (do let _ ← deferred powered; mutexUnlock) := by
  simp only [domainUnlock, deferred, mark, assign, get, Prog.perform_bind, Prog.op_bind]
  refine congrArg _ (funext fun _ => congrArg _ (funext fun _ => congrArg _ (funext fun k => ?_)))
  split
  · rfl
  · rfl

theorem domain_eq (d : Section) (powered : Bool) :
    (clockProgram (.domain d powered) >>= fun _ => pure ()) =
      (do domainLock; let _ ← d.body; domainUnlock powered) := by
  rw [domainUnlock_eq]
  simp only [clockProgram, domainLock, mutexLock, mutexUnlock, LawfulMonad.bind_assoc,
    Prog.perform_bind, Prog.op_bind]
  rfl

/-- The rail is up, the windows are mapped, and nobody holds the lock. -/
structure Ready (s : Gpu) : Prop where
  rail : s.vars.railSet = true
  pointer : s.vars.con0.isSome = true
  free : s.locked = false

/-- Nothing moves on its own between calls: what is ready stays so, the variables and PLL_CON0 as
they are. -/
theorem stable_ready (f : Statics → Word → Prop) :
    block.Stable (fun t => Ready t ∧ f t.vars (t.regs .con0)) := by
  rintro e s t h ⟨hs, hf⟩
  have hvars : t.vars = s.vars := drift_vars h
  obtain ⟨hcon0, hlocked⟩ : t.regs .con0 = s.regs .con0 ∧ t.locked = s.locked :=
    stable_still (fun t => t.regs .con0 = s.regs .con0 ∧ t.locked = s.locked) e s t h ⟨rfl, rfl⟩
  refine ⟨⟨hvars ▸ hs.rail, hvars ▸ hs.pointer, hlocked.trans hs.free⟩, ?_⟩
  rw [hvars, hcon0]
  exact hf

/-- The system of these calls, started where both drivers are up. -/
def clock : System Op Ans Gpu Env Luck ClockCall Int where
  env := drift
  act := act
  init := Ready
  enabled := fun _ _ => true
  call := clockProgram

/-- What the driver has been told once the call is made. -/
def Told.after (w : Told) : ClockCall → Told
  | .clkSet rate => { w with req := (stepBelow (rate / 1000 % 2 ^ 32)).khz }
  | .setKhz khz => if (find khz).isSome then { w with thermal := khz } else w
  | .maxSet (.ok khz) => { w with max := (stepBelow khz).khz }
  | .maxSet (.error _) => w
  | .domain _ powered => { w with powered := powered }

/-- The call makes a call of `s9p_g3d_apply`, and returns what that returned. -/
def ClockCall.applies : ClockCall → Bool
  | .clkSet _ => true
  | .setKhz khz => (find khz).isSome
  | .maxSet (.ok _) => true
  | .maxSet (.error _) => false
  | .domain _ powered => powered

/-- The calls made so far and what they have returned, the last one first. -/
abbrev History := List (ClockCall × Int)

/-- The same from the calls alone, without a look at the drivers. -/
def Told.since (w : Told) (log : History) : Told := log.foldr (fun e w => w.after e.1) w

/-- What the last `s9p_g3d_apply` has returned. -/
def lastApply : History → Option Int
  | [] => none
  | (c, ret) :: log => if c.applies then some ret else lastApply log

/-! ## 3. What the calls leave alone

A relock moves `g3d_cur_khz` and nothing else among the statics, and the other driver's section none
that the target is computed from. -/

/-- The statics the clock is decided from. -/
def core (k : Statics) : Statics :=
  { k with curKhz := 0, alwaysOn := false, initialized := false, lowPowerInitialized := false }

/-- The lock is held, and these statics are those of `k`. -/
structure Held (k : Statics) (s : Gpu) : Prop where
  vars : core s.vars = core k
  locked : s.locked = true

theorem stable_held (k : Statics) : block.Stable (Held k) := fun e s t h hs => by
  have hstill := stable_still (fun t => core t.vars = core k ∧ t.locked = true) e s t h
    ⟨hs.vars, hs.locked⟩
  exact ⟨hstill.1, hstill.2⟩

section Held

variable {k : Statics} {s : Gpu}

theorem Held.told (h : Held k s) : told s.vars = told k := by
  have hcore := h.vars
  simp only [core, Statics.mk.injEq] at hcore
  simp only [G3d.told, hcore]

theorem Held.target (h : Held k s) : target s.vars = target k :=
  congrArg (stepBelow ∘ Told.khz) h.told

theorem Held.powered (h : Held k s) : s.vars.domainPowered = k.domainPowered :=
  congrArg Told.powered h.told

theorem Held.rail (h : Held k s) : s.vars.railSet = k.railSet := by
  have hcore := congrArg Statics.railSet h.vars
  exact hcore

theorem Held.pointer (h : Held k s) : s.vars.con0 = k.con0 := by
  have hcore := congrArg Statics.con0 h.vars
  exact hcore

theorem core_assign {k' : Statics} (x : Assign) (h : core k' = core k) :
    core (k'.assign x) = core (k.assign x) := by
  simp only [core, Statics.mk.injEq] at h
  cases x with
  | _ => simp only [core, Statics.assign, h]

theorem Held.assign (h : Held k s) (x : Assign) :
    Held (k.assign x) { s with vars := s.vars.assign x } := ⟨core_assign x h.vars, h.locked⟩

theorem pllOp_held {o : Op} {l : Luck} {t : Gpu} {r : Ans o} (ho : PllOp o)
    (hact : act o l s = some (r, t)) (h : Held k s) : Held k t := by
  have hc := act_changes hact
  match o, ho with
  | .get, _ | .mark .setPll, _ | .assign (.curKhz _), _ | .rd .g3d _, _ | .poll .g3d _ _ _, _
  | .wr .g3d _ _, _ | .pmicWrite _ _, _ => exact ⟨hc.vars ▸ h.vars, hc.locked ▸ h.locked⟩

theorem sectionOp_held {o : Op} {l : Luck} {t : Gpu} {r : Ans o} (ho : SectionOp o)
    (hact : act o l s = some (r, t)) (h : Held k s) : Held k t := by
  have hc := act_changes hact
  match o, ho with
  | .get, _ | .rd .pd _, _ | .poll .pd _ _ _, _ | .wr .pd _ _, _ | .smc _, _ | .kernel _, _
  | .assign (.initialized _), _ | .assign (.lowPowerInitialized _), _
  | .assign (.alwaysOn _), _ => exact ⟨hc.vars ▸ h.vars, hc.locked ▸ h.locked⟩
  | .panic, _ => exact absurd hact (by simp [act])

end Held

/-! ## 4. `s9p_g3d_apply`

Entered with the lock held.  In a domain that is off it returns at once, with the request kept. -/

/-- Nothing is written through the windows of `s9p-g3d` while the domain is off. -/
def WritesOn (powered : Bool) : Gpu → Option Op → Prop
  | _, some (.wr .g3d _ _) => powered = true
  | _, _ => True

section Apply

variable {ok : Gpu → (o : Op) → Luck → Bool} {k : Statics} {s : Gpu}

theorem writesOn_true {t : Gpu} {o : Option Op} : WritesOn true t o := by
  unfold WritesOn
  split
  · rfl
  · trivial

/-- The power-domain driver has no access to those windows. -/
theorem sectionOp_writesOn {o : Op} {t : Gpu} {powered : Bool} (ho : SectionOp o) :
    WritesOn powered t (some o) := by
  match o, ho with
  | .get, _ | .rd .pd _, _ | .poll .pd _ _ _, _ | .wr .pd _ _, _ | .smc _, _ | .kernel _, _
  | .assign (.initialized _), _ | .assign (.lowPowerInitialized _), _
  | .assign (.alwaysOn _), _ | .panic, _ => trivial

/-- **`s9p_g3d_apply`** keeps the request, or brings it into force and says so. -/
theorem wp_apply_told (hs : Held k s) :
    wp block ok (WritesOn k.domainPowered) apply
      (fun ret t => Held k t ∧ (ret = 0 → InForce (told k) (t.regs .con0))) s := by
  have hheld := stable_held k
  have hdone : ∀ {t : Gpu}, Held k t → isStep (t.regs .con0) (target k) = true →
      InForce (told k) (t.regs .con0) := fun _ h => inForce_of_isStep h
  simp only [apply, mark, get, assign, pllIs, rd, Prog.perform_bind, Prog.op_bind]
  refine wp_mark hheld hs (fun _ _ => trivial) (fun t _ ht _ => ?_)
  refine wp_get hheld ht (fun _ _ => trivial) (fun t ht => ?_)
  rw [ht.target, ht.powered]
  split
  · rename_i hoff
    have hoff' : k.domainPowered = false := by simpa using hoff
    refine wp_ret hheld ht (fun _ _ => trivial) (fun u hu => ⟨hu, fun _ hon => ?_⟩)
    exact absurd (hoff'.symm.trans hon) (by simp)
  · rename_i hon
    have hon' : k.domainPowered = true := by simpa using hon
    rw [hon']
    refine wp_rd hheld ht (fun _ _ => trivial) (fun t l v ht hv => ?_)
    simp only [Prog.pure_eq_ret, Prog.ret_bind]
    split
    · rename_i hsame
      have hstep : isStep (t.regs .con0) (target k) = true :=
        (isStep_shows hv).symm.trans hsame
      have hkept : block.Stable (fun t => Held k t ∧ isStep (t.regs .con0) (target k) = true) :=
        hheld.and (stable_still (fun t => isStep (t.regs .con0) (target k) = true))
      refine wp_assign hkept ⟨ht, hstep⟩ (fun _ _ => trivial) (fun t ht => ?_)
      exact wp_ret hkept ⟨⟨ht.1.vars, ht.1.locked⟩, ht.2⟩ (fun _ _ => trivial)
        (fun u hu => ⟨hu.1, fun _ => hdone hu.1 hu.2⟩)
    · have hclock : wp block ok NoStop (setPll (target k))
          (ClockEnds (target k) (fun _ => True) True t) t :=
        wp_setPll_clock (target_mem k) (fun _ _ _ => trivial) (fun _ _ => trivial)
          (fun _ => trivial)
      have hframe : wp block ok (fun _ _ => True) (setPll (target k)) (fun _ => Held k) t :=
        wp_of_uses hheld (fun o ho _ _ _ _ h _ hact => pllOp_held ho hact h)
          (fun _ _ _ _ => trivial) (fun _ _ => trivial) (uses_setPll _) ht
      refine wp_mono ?_ (wp_step_mono (fun _ _ _ => writesOn_true) (wp_and hframe hclock))
      exact fun ret u hu => ⟨hu.1, fun hret => hdone hu.1 (hu.2.done hret).1⟩

end Apply

/-! ## 5. The calls, one at a time

Each call takes the lock, changes what it has to, applies and gives the lock back.  The rules below
are those four pieces. -/

section Calls

variable {ok : Gpu → (o : Op) → Luck → Bool} {k : Statics} {s : Gpu} {w₀ : Told} {con0₀ : Word}
  {log : History} {ret : Int}

/-- The last `s9p_g3d_apply` has returned 0; where there was none, what the run began with was in
force. -/
def AppliedOk (w₀ : Told) (con0₀ : Word) (log : History) : Prop :=
  lastApply log = some 0 ∨ lastApply log = none ∧ InForce w₀ con0₀

/-- What holds between calls. -/
structure Served (w₀ : Told) (con0₀ : Word) (log : History) (s : Gpu) : Prop extends Ready s where
  told : G3d.told s.vars = w₀.since log
  inForce : AppliedOk w₀ con0₀ log → InForce (w₀.since log) (s.regs .con0)

theorem stable_served (log : History) : block.Stable (Served w₀ con0₀ log) := fun e s t h hs => by
  obtain ⟨hready, htold, hforce⟩ := stable_ready (fun k con0 => G3d.told k = w₀.since log ∧
    (AppliedOk w₀ con0₀ log → InForce (w₀.since log) con0)) e s t h
      ⟨hs.toReady, hs.told, hs.inForce⟩
  exact ⟨hready, htold, hforce⟩

/-- The end of a call: the lock is given back, and the result returned. -/
theorem wp_release {c : ClockCall} (hs : Held k s)
    (hready : k.railSet = true ∧ k.con0.isSome = true)
    (htold : G3d.told k = w₀.since ((c, ret) :: log))
    (hforce : AppliedOk w₀ con0₀ ((c, ret) :: log) → InForce (told k) (s.regs .con0)) :
    wp block ok (WritesOn k.domainPowered) (.op .mutexUnlock fun _ => .ret ret : P Int)
      (fun a => Served w₀ con0₀ ((c, a) :: log)) s := by
  have hI : block.Stable (fun t => Held k t ∧ (AppliedOk w₀ con0₀ ((c, ret) :: log) →
      InForce (told k) (t.regs .con0))) := (stable_held k).and (stable_still (fun t =>
    AppliedOk w₀ con0₀ ((c, ret) :: log) → InForce (told k) (t.regs .con0)))
  refine wp_unlock hI ⟨hs, hforce⟩ (fun _ _ => trivial) (fun t ht => ?_)
  refine wp_ret (stable_served _) ⟨⟨?_, ?_, rfl⟩, ?_, ?_⟩ (fun _ _ => trivial) (fun _ h => h)
  · exact ht.1.rail.trans hready.1
  · exact (congrArg Option.isSome ht.1.pointer).trans hready.2
  · exact ht.1.told.trans htold
  · exact fun happ => htold ▸ ht.2 happ

/-- `s9p_g3d_apply` and the end of the call. -/
theorem wp_applyRelease {c : ClockCall} (hc : c.applies = true) (hs : Held k s)
    (hready : k.railSet = true ∧ k.con0.isSome = true)
    (htold : G3d.told k = (w₀.since log).after c) :
    wp block ok (WritesOn k.domainPowered)
      (apply >>= fun ret => .op .mutexUnlock fun _ => (.ret ret : P Int))
      (fun a => Served w₀ con0₀ ((c, a) :: log)) s := by
  refine wp_bind (wp_mono (fun ret t ht => ?_) (wp_apply_told hs))
  refine wp_release ht.1 hready htold (fun happ => ht.2 ?_)
  simpa [AppliedOk, lastApply, hc] using happ

/-- A call takes the lock and finds everything as it was left. -/
theorem wp_acquire {α : Type} {S : Gpu → Option Op → Prop} {p : P α} {Q : α → Gpu → Prop}
    (hS : ∀ t, S t (some .mutexLock)) (hs : Served w₀ con0₀ log s)
    (hk : ∀ t k, Held k t → k.railSet = true ∧ k.con0.isSome = true →
      G3d.told k = w₀.since log → wp block ok S p Q t) :
    wp block ok S (.op .mutexLock fun _ => p) Q s := by
  refine wp_lock (stable_served log) hs (fun t _ => hS t) (fun t ht => ?_)
  exact hk _ t.vars ⟨rfl, rfl⟩ ⟨ht.rail, ht.pointer⟩ ht.told

/-- A request is stored and applied. -/
theorem wp_request_told {c : ClockCall} {x : Assign} (hc : c.applies = true)
    (hx : ∀ k, told (k.assign x) = (told k).after c ∧ (k.assign x).railSet = k.railSet ∧
      (k.assign x).con0 = k.con0) (hs : Served w₀ con0₀ log s) :
    wp block ok (WritesOn ((w₀.since log).after c).powered) (request x)
      (fun a => Served w₀ con0₀ ((c, a) :: log)) s := by
  simp only [request, mutexLock, mutexUnlock, assign, Prog.perform_bind]
  refine wp_acquire (fun _ => trivial) hs (fun t k ht hready htold => ?_)
  refine wp_assign (stable_held k) ht (fun _ _ => trivial) (fun t ht => ?_)
  obtain ⟨htold', hrail, hpointer⟩ := hx k
  have hafter : told (k.assign x) = (w₀.since log).after c := by rw [htold', htold]
  rw [← hafter]
  exact wp_applyRelease hc (ht.assign x) ⟨hrail ▸ hready.1, hpointer ▸ hready.2⟩ hafter

/-- `s9p_g3d_clk_set` and `s9p_g3d_set_khz` look whether the rail is up before they go on. -/
theorem wp_guard {α : Type} {S : Gpu → Option Op → Prop} {p p' : P α} {Q : α → Gpu → Prop}
    (hS : ∀ t, S t (some .get)) (hs : Served w₀ con0₀ log s)
    (hp : ∀ t, Served w₀ con0₀ log t → wp block ok S p' Q t) :
    wp block ok S (.op .get fun k => if k.con0.isNone = true ∨ (!k.railSet) = true then p else p')
      Q s := by
  refine wp_get (stable_served log) hs (fun t _ => hS t) (fun t ht => ?_)
  rw [if_neg]
  · exact hp t ht
  · have hpointer := ht.pointer
    simp [ht.rail, Option.isSome_iff_ne_none.mp hpointer]

/-- A call that neither tells nor applies anything. -/
theorem Served.refused {c : ClockCall} (hc : c.applies = false) (hafter : ∀ w : Told, w.after c = w)
    (hs : Served w₀ con0₀ log s) : Served w₀ con0₀ ((c, ret) :: log) s := by
  have hsame : w₀.since ((c, ret) :: log) = w₀.since log := hafter _
  refine ⟨hs.toReady, hs.told.trans hsame.symm, fun happ => hsame ▸ hs.inForce ?_⟩
  simpa [AppliedOk, lastApply, hc] using happ

/-- The power-domain driver switches the domain, and the lock is given back. -/
theorem wp_domain_told (d : Section) (powered : Bool) (hs : Served w₀ con0₀ log s) :
    wp block ok (WritesOn powered) (clockProgram (.domain d powered))
      (fun a => Served w₀ con0₀ ((.domain d powered, a) :: log)) s := by
  simp only [clockProgram, domainLock, deferred, mutexLock, mutexUnlock, mark, assign, get,
    Prog.perform_bind, Prog.op_bind]
  refine wp_acquire (fun _ => trivial) hs (fun t k ht hready htold => ?_)
  have hbody : wp block ok (WritesOn powered) d.body (fun _ => Held k) t :=
    wp_of_uses (stable_held k) (fun o ho _ _ _ _ h _ hact => sectionOp_held ho hact h)
      (fun _ _ ho _ => sectionOp_writesOn ho) (fun _ _ => trivial) d.uses ht
  refine wp_bind (wp_mono (fun _ t ht => ?_) hbody)
  refine wp_mark (stable_held k) ht (fun _ _ => trivial) (fun t _ ht _ => ?_)
  refine wp_assign (stable_held k) ht (fun _ _ => trivial) (fun t ht => ?_)
  have hheld : Held (k.assign (.domainPowered powered))
      { t with vars := t.vars.assign (.domainPowered powered) } := ht.assign _
  have htold' : told (k.assign (.domainPowered powered)) =
      (w₀.since log).after (.domain d powered) := by
    rw [← htold]
    rfl
  refine wp_get (stable_held _) hheld (fun _ _ => trivial) (fun t ht => ?_)
  rw [ht.pointer, ht.rail]
  cases powered with
  | true =>
    rw [if_pos ⟨rfl, hready.2, hready.1⟩]
    exact wp_applyRelease rfl ht hready htold'
  | false =>
    rw [if_neg (fun h => absurd h.1 (by simp))]
    exact wp_release ht hready htold' (fun _ hon => absurd hon (by simp [told, Statics.assign]))

/-- **Every call serves what it has been told.** -/
theorem wp_clockProgram (c : ClockCall) (hs : Served w₀ con0₀ log s) :
    wp block ok (WritesOn ((w₀.since log).after c).powered) (clockProgram c)
      (fun a => Served w₀ con0₀ ((c, a) :: log)) s := by
  cases c with
  | clkSet rate =>
    simp only [clockProgram, clkSet, get, Prog.perform_bind]
    refine wp_guard (fun _ => trivial) hs (fun t ht => ?_)
    exact wp_request_told rfl (fun k => ⟨rfl, rfl, rfl⟩) ht
  | setKhz khz =>
    simp only [clockProgram, setKhz, get, Prog.perform_bind]
    split
    · rename_i hnone
      have hfind : (find khz).isSome = false := by
        rw [Option.isNone_iff_eq_none.mp hnone]
        rfl
      exact wp_ret (stable_served _) (hs.refused (c := .setKhz khz) hfind
        (fun w => by simp [Told.after, hfind]))
        (fun _ _ => trivial) (fun _ h => h)
    · rename_i hsome
      have hfind : (find khz).isSome = true := by
        rw [Option.isSome_iff_ne_none]
        simpa using hsome
      refine wp_guard (fun _ => trivial) hs (fun t ht => ?_)
      exact wp_request_told hfind (fun k => ⟨by simp [Told.after, hfind, told, Statics.assign],
        rfl, rfl⟩) ht
  | maxSet val =>
    cases val with
    | error ret =>
      exact wp_ret (stable_served _) (hs.refused rfl (fun _ => rfl)) (fun _ _ => trivial)
        (fun _ h => h)
    | ok khz =>
      simp only [clockProgram, maxSet, mutexLock, mutexUnlock, assign, get, Prog.perform_bind]
      refine wp_acquire (fun _ => trivial) hs (fun t k ht hready htold => ?_)
      refine wp_assign (stable_held k) ht (fun _ _ => trivial) (fun t ht => ?_)
      have hafter : told (k.assign (.maxKhz (stepBelow khz).khz)) =
          (w₀.since log).after (.maxSet (.ok khz)) := by
        rw [← htold]
        rfl
      rw [← hafter]
      refine wp_get (stable_held _) (ht.assign _) (fun _ _ => trivial) (fun t ht => ?_)
      rw [ht.pointer, ht.rail, if_pos ⟨hready.2, hready.1⟩]
      exact wp_applyRelease rfl ht hready hafter
  | domain d powered => exact wp_domain_told d powered hs

end Calls

/-! ## 6. All runs

The log records each call with its result, and the run lemma gives `Served` between any two of them.
-/

section RailUp

variable {ok : Gpu → (o : Op) → Luck → Bool} {k : Statics} {s : Gpu} {ret : Int}

theorem wp_railWrite_vars {polls : Nat} (hs : s.vars = k) :
    wp block ok (fun _ _ => True) (railWrite polls ret) (fun _ t => t.vars = k) s := by
  induction polls generalizing ret s with
  | zero => exact wp_ret (stable_vars k) hs (fun _ _ => trivial) (fun _ h => h)
  | succ polls ih =>
    simp only [railWrite, pmicWrite, Prog.perform_bind]
    refine wp_pmicWrite (stable_vars k) hs (fun _ _ => trivial) (fun t l buck6 ht _ _ => ?_)
    split
    · exact wp_ret (stable_vars k) ht (fun _ _ => trivial) (fun _ h => h)
    · exact ih ht

/-- **Where `s9p_g3d_rail_up` succeeds**, the lowest request is in force from then on. -/
theorem wp_railUp_ready (hpointer : s.vars.con0.isSome = true) :
    wp block ok (fun _ _ => True) railUp
      (fun ret t => ret = 0 → Ready t ∧ InForce (told t.vars) (t.regs .con0)) s := by
  have hfail : ∀ {t : Gpu} {ret : Int}, ret ≠ 0 → wp block ok (fun _ _ => True) (.ret ret : P Int)
      (fun ret t => ret = 0 → Ready t ∧ InForce (told t.vars) (t.regs .con0)) t :=
    fun hret => wp_ret (stable_still (fun _ => True)) trivial (fun _ _ => trivial)
      (fun _ _ h0 => absurd h0 hret)
  simp only [railUp, get, assign, mutexLock, mutexUnlock, Prog.perform_bind]
  refine wp_bind (wp_mono (fun ret t ht => ?_) (wp_railWrite_vars rfl))
  split
  · rename_i hret
    refine wp_get (stable_vars s.vars) ht (fun _ _ => trivial) (fun t ht => ?_)
    refine wp_assign (stable_vars s.vars) ht (fun _ _ => trivial) (fun t _ => ?_)
    split
    · exact hfail (by decide)
    · exact hfail hret
  · refine wp_assign (stable_vars s.vars) ht (fun _ _ => trivial) (fun t ht => ?_)
    refine wp_lock (stable_vars (s.vars.assign .railSet)) (congrArg (·.assign .railSet) ht)
      (fun _ _ => trivial) (fun t ht => ?_)
    have happly : wp block ok (fun _ _ => True) apply
        (fun ret t => Held (s.vars.assign .railSet) t ∧
          (ret = 0 → InForce (told (s.vars.assign .railSet)) (t.regs .con0)))
        { t with locked := true } :=
      wp_step_mono (fun _ _ _ => trivial) (wp_apply_told ⟨congrArg core ht, rfl⟩)
    refine wp_bind (wp_mono (fun ret t ht => ?_) happly)
    have hI : block.Stable (fun t => Held (s.vars.assign .railSet) t ∧
        (ret = 0 → InForce (told (s.vars.assign .railSet)) (t.regs .con0))) :=
      (stable_held _).and (stable_still (fun t =>
        ret = 0 → InForce (told (s.vars.assign .railSet)) (t.regs .con0)))
    refine wp_unlock hI ht (fun _ _ => trivial) (fun t ht => ?_)
    have hkept : block.Stable (fun t => ret = 0 →
        Ready t ∧ InForce (told t.vars) (t.regs .con0)) := fun e u v h hu hret =>
      stable_ready (fun k con0 => InForce (told k) con0) e u v h (hu hret)
    refine wp_ret hkept (fun hret => ⟨⟨?_, ?_, rfl⟩, ?_⟩) (fun _ _ => trivial) (fun _ h => h)
    · exact ht.1.rail
    · exact (congrArg Option.isSome ht.1.pointer).trans hpointer
    · rw [show told _ = told (s.vars.assign .railSet) from ht.1.told]
      exact ht.2 hret

end RailUp

section Runs

variable {s₀ s : Gpu} {log : History} {p : Option (Thread Op Ans Gpu ClockCall Int)}

/-- **The lowest request wins, also across power cycles.**  The last call of the list is the
`s9p_g3d_domain_unlock` of the source between the other driver's lock and its own release, only that
it also says what the deferred apply has returned. -/
theorem lowest_request_wins (h : clock.Log System.anyStep s₀ log s p) :
    (p = none →
      told s.vars = (told s₀.vars).since log ∧
      (AppliedOk (told s₀.vars) (s₀.regs .con0) log → InForce (told s.vars) (s.regs .con0))) ∧
    (∀ c t r v k, p = some ⟨c, t, .op (.wr .g3d r v) k⟩ →
      (((told s₀.vars).since log).after c).powered = true) ∧
    (∀ c t k ret, p = some ⟨c, t, .op .mutexUnlock k⟩ → k () = .ret ret →
      told s.vars = ((told s₀.vars).since log).after c ∧
      (c.applies = true → ret = 0 → InForce (told s.vars) (s.regs .con0))) ∧
    (∀ d powered, (clockProgram (.domain d powered) >>= fun _ => (pure () : P Unit)) =
      (do domainLock; let _ ← d.body; domainUnlock powered)) := by
  have hall := System.log_holds (Y := clock) (S := fun log c _ =>
    WritesOn (((told s₀.vars).since log).after c).powered)
    (fun hi : Ready s₀ => (⟨hi, rfl, fun happ => ?_⟩ : Served (told s₀.vars) (s₀.regs .con0) [] s₀))
    stable_served (fun log c s hs _ => wp_clockProgram c hs) (fun _ _ _ _ _ h => h) h
  · refine ⟨?_, ?_, ?_, domain_eq⟩
    · rintro rfl
      exact ⟨hall.told, fun happ => hall.told ▸ hall.inForce happ⟩
    · rintro c t r v k rfl
      exact (hall s .refl).1
    · rintro c t k ret rfl hk
      have hnext := (hall s .refl).2 prompt () _ rfl rfl
      rw [hk] at hnext
      have hserved := (hnext _ .refl).2
      refine ⟨hserved.told, fun hc hret => ?_⟩
      have hforce := hserved.inForce (.inl (by simp [lastApply, hc, hret]))
      exact hserved.told ▸ hforce
  · rcases happ with hsome | ⟨-, hforce⟩
    · exact absurd hsome (by simp [lastApply])
    · exact hforce

end Runs

/-- The block on 572 MHz with the rail up and the lock free. -/
def readyAt572 : Gpu := { at572 with locked := false }

/-- The domain goes off, devfreq asks for 260 MHz, and the domain comes back. -/
def askedWhileOff : List (ClockCall × List (Env ⊕ Luck)) :=
  [(.domain ⟨pure 0, trivial⟩ false, moving (List.replicate 5 prompt)),
    (.clkSet 260000000, moving (List.replicate 6 prompt)),
    (.domain powerOnSection true, moving (List.replicate 51 prompt))]

/-- The request waits for the power and is then in force. -/
theorem lowest_request_wins_off : ∃ log s,
    clock.Log System.anyStep readyAt572 log s none ∧ lastApply log = some 0 ∧
      told s.vars = ⟨260000, 572000, 572000, true⟩ ∧ InForce (told s.vars) (s.regs .con0) := by
  have hplay : (clock.playAll askedWhileOff [] readyAt572).any (fun x =>
      decide (lastApply x.1 = some 0) && decide (told x.2.vars = ⟨260000, 572000, 572000, true⟩)) =
      true := by decide +kernel
  obtain ⟨⟨log, s⟩, hx, hlast⟩ := (Option.any_eq_true _ _).mp hplay
  simp only [Bool.and_eq_true, decide_eq_true_eq] at hlast
  have hlog : clock.Log System.anyStep readyAt572 log s none :=
    System.log_of_playAll (fun _ _ _ _ => rfl) (.boot ⟨rfl, rfl, rfl⟩) hx
  have h := (lowest_request_wins hlog).1 rfl
  exact ⟨log, s, hlog, hlast.1, hlast.2, h.2 (.inl hlast.1)⟩

end S9p.G3d
