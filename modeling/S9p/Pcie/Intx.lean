/-
# The interrupts of the wireless chip

The port has no MSI.  Its controller latches a pulse in IRQ_PULSE for each assertion of an INTx; the
handler of the one interrupt line clears there what it has read and hands each INTx on to its own
handler.  The chip may assert one at any time, also between the read and the write that clears.

* `intx_kept`: no assertion is lost and none is made up.  As long as one has not been handed on, the
  line is up while no handler runs, and the handler that is then called hands it on.
-/
import S9p.Lib.Field
import S9p.Lib.Latch
import S9p.Lib.Path

namespace S9p.Pcie

open Device

/-! ## 1. The driver

The handler reads the pulse register once, clears what it has read, and goes through the four bits.
-/

/-- The interrupt registers of the ELBI. -/
inductive Elbi where
  | irqPulse
  | irqLevel
  | irqSpecial
  | irqEnPulse
  | irqEnLevel
  | irqEnSpecial

abbrev PCI_NUM_INTX : Nat := 4

inductive Op where
  | elbReadl (reg : Elbi)
  | elbWritel (val : BitVec 32) (reg : Elbi)
  | genericHandleDomainIrq (hwirq : Fin PCI_NUM_INTX)

@[reducible] def Ans : Op → Type
  | .elbReadl _ => BitVec 32
  | _ => Unit

abbrev P := Prog Op Ans

def perform (o : Op) : P (Ans o) := Prog.perform o

def elbReadl (reg : Elbi) : P (BitVec 32) := perform (.elbReadl reg)

def elbWritel (val : BitVec 32) (reg : Elbi) : P Unit := perform (.elbWritel val reg)

def genericHandleDomainIrq (i : Fin PCI_NUM_INTX) : P Unit := perform (.genericHandleDomainIrq i)

def IRQ_INTX_ASSERT (n : Nat) : BitVec 32 := BitVec.twoPow 32 (2 * n)

def IRQ_INTX_ASSERT_ALL : BitVec 32 :=
  IRQ_INTX_ASSERT 0 ||| IRQ_INTX_ASSERT 1 ||| IRQ_INTX_ASSERT 2 ||| IRQ_INTX_ASSERT 3

/-- `elb_writel(ep, elb_readl(ep, reg), reg)`. -/
def clearStatus (reg : Elbi) : P Unit := do
  let val ← elbReadl reg
  elbWritel val reg

/-- The interrupt sources at the end of `exynos9810_pcie_host_init`. -/
def enableSources : P Unit := do
  clearStatus .irqPulse
  clearStatus .irqLevel
  clearStatus .irqSpecial
  elbWritel IRQ_INTX_ASSERT_ALL .irqEnPulse
  elbWritel 0 .irqEnLevel
  elbWritel 0 .irqEnSpecial

/-- The loop of the handler. -/
def dispatch (val : BitVec 32) : List (Fin PCI_NUM_INTX) → P Unit
  | [] => pure ()
  | i :: is =>
    if val &&& IRQ_INTX_ASSERT i ≠ 0 then do
      genericHandleDomainIrq i
      dispatch val is
    else dispatch val is

/-- `exynos9810_pcie_irq_handler`. -/
def irqHandler : P Unit := do
  let val ← elbReadl .irqPulse
  elbWritel val .irqPulse
  dispatch val (List.finRange PCI_NUM_INTX)
  clearStatus .irqLevel
  clearStatus .irqSpecial

/-! ## 2. The port

The port latches assertions and other sources alike, and its line is up while something is both
latched and enabled. -/

/-- The registers; how often each INTx has been asserted and handed on, and whether it has been
asserted since it was last handed on.  These three are history: the driver reads none of them. -/
structure Port where
  pulse : BitVec 32
  level : BitVec 32
  special : BitVec 32
  enPulse : BitVec 32
  enLevel : BitVec 32
  enSpecial : BitVec 32
  raised : Fin PCI_NUM_INTX → Nat
  served : Fin PCI_NUM_INTX → Nat
  owed : Fin PCI_NUM_INTX → Bool

/-- The line to the GIC. -/
def Port.line (p : Port) : Bool :=
  p.pulse &&& p.enPulse ≠ 0#32 || p.level &&& p.enLevel ≠ 0#32 || p.special &&& p.enSpecial ≠ 0#32

def Port.reg (p : Port) : Elbi → BitVec 32
  | .irqPulse => p.pulse
  | .irqLevel => p.level
  | .irqSpecial => p.special
  | .irqEnPulse => p.enPulse
  | .irqEnLevel => p.enLevel
  | .irqEnSpecial => p.enSpecial

/-- A status bit is cleared by writing it. -/
def Port.write (p : Port) (val : BitVec 32) : Elbi → Port
  | .irqPulse => { p with pulse := p.pulse &&& ~~~val }
  | .irqLevel => { p with level := p.level &&& ~~~val }
  | .irqSpecial => { p with special := p.special &&& ~~~val }
  | .irqEnPulse => { p with enPulse := val }
  | .irqEnLevel => { p with enLevel := val }
  | .irqEnSpecial => { p with enSpecial := val }

/-- What happens on its own: the chip asserts an INTx, or other sources come up. -/
inductive Event where
  | intx (i : Fin PCI_NUM_INTX)
  | other (pulse level special : BitVec 32)

def Port.event (p : Port) : Event → Port
  | .intx i =>
    { p with
      pulse := p.pulse ||| IRQ_INTX_ASSERT i
      raised := Function.update p.raised i (p.raised i + 1)
      owed := Function.update p.owed i true }
  | .other pulse level special =>
    { p with
      pulse := p.pulse ||| pulse &&& ~~~IRQ_INTX_ASSERT_ALL
      level := p.level ||| level
      special := p.special ||| special }

/-- What an access does.  Handing an interrupt on is counted, and settles what was owed for its
line. -/
def act (p : Port) : (o : Op) → Ans o × Port
  | .elbReadl reg => (p.reg reg, p)
  | .elbWritel val reg => ((), p.write val reg)
  | .genericHandleDomainIrq i =>
    ((), { p with
      served := Function.update p.served i (p.served i + 1)
      owed := Function.update p.owed i false })

def port : Device Op Ans Port Event Unit where
  env := fun e p => some (p.event e)
  act := fun o _ p => some (act p o)

/-- The latches of the four INTx. -/
def Port.latch (p : Port) : Latch (Fin PCI_NUM_INTX) where
  set := fun i => p.pulse.getLsbD (2 * i)
  raised := p.raised
  served := p.served
  owed := p.owed

/-- The port with its history beginning now: what is latched is owed. -/
def Port.fresh (p : Port) : Port :=
  { p with
    raised := fun i => (p.latch.set i).toNat
    served := fun _ => 0
    owed := p.latch.set }

/-- The handler is called while the line is up, from where the sources have been enabled. -/
def intx : System Op Ans Port Event Unit Unit Unit where
  toDevice := port
  init := fun p => ∃ q tr t, port.Runs (fun _ _ _ => true) enableSources q tr () t ∧ p = t.fresh
  enabled := fun _ p => p.line
  call := fun _ => irqHandler

/-! ## 3. The latches of the port

The four INTx are latches in the sense of the library; the bits of one register that belong to them
do not overlap. -/

variable {p q t : Port} {val : BitVec 32} {i : Fin PCI_NUM_INTX}

theorem test_intx : val &&& IRQ_INTX_ASSERT i ≠ 0 ↔ val.getLsbD (2 * i) = true :=
  Field.and_twoPow_ne_zero (by have := i.isLt; unfold PCI_NUM_INTX at this; omega)

theorem all_getLsbD (i : Fin PCI_NUM_INTX) : IRQ_INTX_ASSERT_ALL.getLsbD (2 * i) = true := by
  revert i
  unfold PCI_NUM_INTX
  decide

theorem intx_getLsbD (i j : Fin PCI_NUM_INTX) :
    (IRQ_INTX_ASSERT i).getLsbD (2 * j) = decide (j = i) := by
  revert i j
  unfold PCI_NUM_INTX
  decide

theorem latch_intx (p : Port) (i : Fin PCI_NUM_INTX) :
    (p.event (.intx i)).latch = p.latch.raise i := by
  simp only [Port.latch, Port.event, Latch.raise, Latch.mk.injEq, and_true]
  funext j
  rw [BitVec.getLsbD_or, intx_getLsbD]
  by_cases hij : j = i
  · subst hij
    simp
  · simp [hij]

/-- The other sources have other bits. -/
theorem latch_other (p : Port) (x y z : BitVec 32) : (p.event (.other x y z)).latch = p.latch := by
  simp only [Port.latch, Port.event, Latch.mk.injEq, and_true]
  funext j
  have hj : (2 * j : Nat) < 32 := by have := j.isLt; unfold PCI_NUM_INTX at this; omega
  simp [all_getLsbD, hj]

theorem latch_clear (p : Port) (val : BitVec 32) :
    (p.write val .irqPulse).latch = p.latch.clear (fun i => val.getLsbD (2 * i)) := by
  simp only [Port.latch, Port.write, Latch.clear, Latch.mk.injEq, and_true]
  funext j
  have hj : (2 * j : Nat) < 32 := by have := j.isLt; unfold PCI_NUM_INTX at this; omega
  simp [hj]

/-- The sources as `exynos9810_pcie_host_init` enables them. -/
structure Enabled (p : Port) : Prop where
  pulse : p.enPulse = IRQ_INTX_ASSERT_ALL
  level : p.enLevel = 0
  special : p.enSpecial = 0

theorem Enabled.event (h : Enabled p) (e : Event) : Enabled (p.event e) := by
  cases e <;> exact ⟨h.pulse, h.level, h.special⟩

/-- Where one is latched, the line is up. -/
theorem Enabled.line (h : Enabled p) (hset : p.latch.set i = true) : p.line = true := by
  have hbit : (p.pulse &&& p.enPulse).getLsbD (2 * i) = true := by
    rw [BitVec.getLsbD_and, h.pulse, all_getLsbD, Bool.and_true]
    exact hset
  have hne : p.pulse &&& p.enPulse ≠ 0#32 := by
    intro hzero
    rw [hzero] at hbit
    exact absurd hbit (by simp)
  simp [Port.line, hne]

/-! ## 4. The handler

Between the read and the write an INTx may be asserted once more, and the write then clears it with
the others.  It has been read before, so it is still served. -/

/-- What is asked of every step: never have more been handed on than asserted. -/
def Counted (p : Port) (_ : Option Op) : Prop := ∀ i, p.served i ≤ p.raised i

theorem Kept.counted {held : Fin PCI_NUM_INTX → Bool} (h : p.latch.Kept held) (o : Option Op) :
    Counted p o := fun i => by
  have hcount := h.count i
  simp only [Port.latch] at hcount
  omega

/-- A step of the environment keeps what the latches keep. -/
theorem Kept.event {held : Fin PCI_NUM_INTX → Bool} (h : p.latch.Kept held) (e : Event) :
    (p.event e).latch.Kept held := by
  cases e with
  | intx i => exact latch_intx p i ▸ h.raise i
  | other x y z => exact latch_other p x y z ▸ h

theorem Taken.event {val : Fin PCI_NUM_INTX → Bool} (h : p.latch.Taken val) (e : Event) :
    (p.event e).latch.Taken val := by
  cases e with
  | intx i => exact latch_intx p i ▸ h.raise i
  | other x y z => exact latch_other p x y z ▸ h

theorem served_event (p : Port) (e : Event) : (p.event e).served = p.served := by
  cases e <;> rfl

/-- What is in `val` and in `rest` is still to be handed on; the rest of `val` has been since
`s₀`. -/
structure Serving (p₀ : Port) (val : BitVec 32) (rest : List (Fin PCI_NUM_INTX)) (p : Port) :
    Prop where
  enabled : Enabled p
  kept : p.latch.Kept (fun i => val.getLsbD (2 * i) && decide (i ∈ rest))
  least : ∀ i, p₀.served i ≤ p.served i
  done : ∀ i : Fin PCI_NUM_INTX, val.getLsbD (2 * i) = true → i ∉ rest → p₀.served i < p.served i

theorem serving_stable (p₀ : Port) (val : BitVec 32) (rest : List (Fin PCI_NUM_INTX)) :
    port.Stable (Serving p₀ val rest) := by
  rintro e s _ ⟨⟩ h
  refine ⟨h.enabled.event e, Kept.event h.kept e, ?_, ?_⟩
  · simpa only [served_event] using h.least
  · simpa only [served_event] using h.done

variable {Q : Unit → Port → Prop} {p₀ : Port} {rest : List (Fin PCI_NUM_INTX)}

/-- **One of those that were read** is handed on. -/
theorem Serving.serve (h : Serving p₀ val (i :: rest) p) (hi : val.getLsbD (2 * i) = true)
    (hnot : i ∉ rest) : Serving p₀ val rest (act p (.genericHandleDomainIrq i)).2 := by
  refine ⟨⟨h.enabled.pulse, h.enabled.level, h.enabled.special⟩, ?_, fun j => ?_,
    fun j hj hno => ?_⟩
  · have hserve := h.kept.serve (i := i) (by simp [hi])
    have hheld : Function.update (fun j : Fin PCI_NUM_INTX =>
        val.getLsbD (2 * j) && decide (j ∈ i :: rest)) i false =
        fun j : Fin PCI_NUM_INTX => val.getLsbD (2 * j) && decide (j ∈ rest) := by
      funext j
      by_cases hij : j = i
      · subst hij
        simp [hnot]
      · simp [hij]
    exact hheld ▸ hserve
  · have hleast := h.least j
    by_cases hij : j = i
    · subst hij
      simp only [act, Function.update_self]
      omega
    · simpa only [act, Function.update_of_ne hij] using hleast
  · by_cases hij : j = i
    · subst hij
      have hleast := h.least j
      simp only [act, Function.update_self]
      omega
    · have hdone := h.done j hj (by simp [hij, hno])
      simpa only [act, Function.update_of_ne hij] using hdone

/-- One that was not read is passed over. -/
theorem Serving.skip (h : Serving p₀ val (i :: rest) p) (hi : ¬ val.getLsbD (2 * i) = true) :
    Serving p₀ val rest p := by
  refine ⟨h.enabled, ?_, h.least, fun j hj hno => h.done j hj ?_⟩
  · have hheld : (fun j : Fin PCI_NUM_INTX => val.getLsbD (2 * j) && decide (j ∈ i :: rest)) =
        fun j : Fin PCI_NUM_INTX => val.getLsbD (2 * j) && decide (j ∈ rest) := by
      funext j
      by_cases hij : j = i
      · subst hij
        simp [hi]
      · simp [hij]
    exact hheld ▸ h.kept
  · have hij : j ≠ i := fun hij => hi (hij ▸ hj)
    simp [hij, hno]

/-- **The loop.** -/
theorem wp_dispatch (hnodup : rest.Nodup) (hs : Serving p₀ val rest p)
    (hQ : ∀ t, Serving p₀ val [] t → Q () t) :
    wp port (fun _ _ _ => true) Counted (dispatch val rest) Q p := by
  induction rest generalizing p with
  | nil => exact wp_ret (serving_stable p₀ val []) hs (fun _ ht => Kept.counted ht.kept _) hQ
  | cons i rest ih =>
    obtain ⟨hnot, hnodup⟩ := List.nodup_cons.mp hnodup
    unfold dispatch
    split
    · rename_i hi
      refine wp_op_eq (f := fun _ _ => ()) (g := fun _ s => (act s (.genericHandleDomainIrq i)).2)
        (fun _ _ => rfl) (serving_stable p₀ val (i :: rest)) hs
        (fun _ ht => Kept.counted ht.kept _) ?_
      exact fun t _ ht _ => ih hnodup (ht.serve (test_intx.mp hi) hnot)
    · rename_i hi
      exact ih hnodup (hs.skip (fun hset => hi (test_intx.mpr hset)))

/-- Status bits that are cleared without being looked at. -/
theorem wp_clearStatus {reg : Elbi} {R : Port → Prop} {S : Port → Option Op → Prop}
    (hR : port.Stable R) (hS : ∀ s o, R s → S s o) (hwrite : ∀ s val, R s → R (s.write val reg))
    (hs : R p) (hQ : ∀ t, R t → Q () t) :
    wp port (fun _ _ _ => true) S (clearStatus reg) Q p := by
  refine wp_op_eq (f := fun _ s => s.reg reg) (g := fun _ s => s) (fun _ _ => rfl) hR hs
    (fun s => hS s _) (fun s _ hs _ => ?_)
  refine wp_op_eq (f := fun _ _ => ()) (g := fun _ t => t.write (s.reg reg) reg) (fun _ _ => rfl)
    hR hs (fun t => hS t _) (fun t _ ht _ => ?_)
  exact wp_ret hR (hwrite t _ ht) (fun t => hS t _) hQ

theorem taken_stable (p₀ : Port) (val : BitVec 32) : port.Stable (fun p => Enabled p ∧
    p.latch.Taken (fun i => val.getLsbD (2 * i)) ∧ p.served = p₀.served) := by
  rintro e s _ ⟨⟩ ⟨hen, htaken, hserved⟩
  exact ⟨hen.event e, Taken.event htaken e, (served_event s e).trans hserved⟩

theorem waiting_stable (p₀ : Port) : port.Stable (fun p => Enabled p ∧
    p.latch.Kept (fun _ => false) ∧ p.served = p₀.served ∧
    ∀ i, p₀.latch.set i = true → p.latch.set i = true) := by
  rintro e s _ ⟨⟩ ⟨hen, hkept, hserved, hset⟩
  refine ⟨hen.event e, Kept.event hkept e, (served_event s e).trans hserved, fun i hi => ?_⟩
  have hs := hset i hi
  cases e with
  | intx j =>
    rw [latch_intx]
    unfold Latch.raise
    by_cases hij : i = j
    · subst hij
      exact Function.update_self ..
    · simpa only [Function.update_of_ne hij] using hs
  | other x y z => rwa [latch_other]

/-- What the handler leaves: all that was latched when it was called has been handed on. -/
structure Left (p₀ p : Port) : Prop where
  enabled : Enabled p
  kept : p.latch.Kept (fun _ => false)
  done : ∀ i, p₀.latch.set i = true → p₀.served i < p.served i

theorem wp_irqHandler (hen : Enabled p) (hkept : p.latch.Kept (fun _ => false)) :
    wp port (fun _ _ _ => true) Counted irqHandler (fun _ t => Left p t) p := by
  refine wp_op_eq (f := fun _ s => s.pulse) (g := fun _ s => s) (fun _ _ => rfl)
    (waiting_stable p) ⟨hen, hkept, rfl, fun _ hi => hi⟩ (fun _ ht => Kept.counted ht.2.1 _) ?_
  rintro s - ⟨hen, hkept, hserved, hset⟩ -
  refine wp_op_eq (f := fun _ _ => ()) (g := fun _ t => t.write s.pulse .irqPulse) (fun _ _ => rfl)
    (taken_stable p s.pulse) ⟨hen, hkept.taken, hserved⟩ (fun _ ht => Kept.counted ht.2.1.kept _) ?_
  rintro t - ⟨hen, htaken, hserved⟩ -
  -- from here on the handler holds what it has read
  have hstart : Serving p s.pulse (List.finRange PCI_NUM_INTX) (t.write s.pulse .irqPulse) := by
    refine ⟨⟨hen.pulse, hen.level, hen.special⟩, ?_, fun i => (congrFun hserved i).ge, ?_⟩
    · have hcleared := htaken.clear
      rw [← latch_clear] at hcleared
      simpa only [List.mem_finRange, decide_true, Bool.and_true] using hcleared
    · exact fun i _ hno => absurd (List.mem_finRange i) hno
  refine wp_bind (p := dispatch s.pulse _)
    (wp_dispatch (List.nodup_finRange _) hstart (fun u hu => ?_))
  have hclear : ∀ reg, reg = .irqLevel ∨ reg = .irqSpecial → ∀ u {Q : Unit → Port → Prop},
      Serving p s.pulse [] u → (∀ v, Serving p s.pulse [] v → Q () v) →
      wp port (fun _ _ _ => true) Counted (clearStatus reg) Q u := by
    intro reg hreg u Q hu hQ
    refine wp_clearStatus (serving_stable p s.pulse [])
      (fun _ _ h => Kept.counted h.kept _) ?_ hu hQ
    intro u val h
    rcases hreg with rfl | rfl
    · exact ⟨⟨h.enabled.pulse, h.enabled.level, h.enabled.special⟩, h.kept, h.least, h.done⟩
    · exact ⟨⟨h.enabled.pulse, h.enabled.level, h.enabled.special⟩, h.kept, h.least, h.done⟩
  refine wp_bind (hclear _ (.inl rfl) u hu (fun u hu => hclear _ (.inr rfl) u hu (fun v hv => ?_)))
  refine ⟨hv.enabled, ?_, fun i hi => hv.done i (hset i hi) (by simp)⟩
  simpa only [List.not_mem_nil, decide_false, Bool.and_false] using hv.kept

/-! ## 5. The port from when its sources are enabled

The handler is called while the line is up.  The invariant is for the time between two calls, and
covers those in which nobody calls it. -/

theorem enPulse_stable : port.Stable (fun p => p.enPulse = IRQ_INTX_ASSERT_ALL) := by
  rintro e s _ ⟨⟩ h
  cases e <;> exact h

theorem enLevel_stable :
    port.Stable (fun p => p.enPulse = IRQ_INTX_ASSERT_ALL ∧ p.enLevel = 0) := by
  rintro e s _ ⟨⟩ h
  cases e <;> exact h

theorem enabled_stable : port.Stable Enabled := by
  rintro e s _ ⟨⟩ h
  exact h.event e

theorem true_stable : port.Stable (fun _ => True) := fun _ _ _ _ _ => trivial

theorem wp_enableSources :
    wp port (fun _ _ _ => true) (fun _ _ => True) enableSources (fun _ t => Enabled t) p := by
  have hclear : ∀ reg (p : Port) {Q : Unit → Port → Prop}, (∀ t, Q () t) →
      wp port (fun _ _ _ => true) (fun _ _ => True) (clearStatus reg) Q p := fun reg p Q hQ =>
    wp_clearStatus true_stable (fun _ _ _ => trivial) (fun _ _ _ => trivial) trivial
      (fun t _ => hQ t)
  refine wp_bind (hclear _ p (fun p => wp_bind (hclear _ p (fun p =>
    wp_bind (hclear _ p (fun p => ?_))))))
  refine wp_op_eq (f := fun _ _ => ()) (g := fun _ s => s.write IRQ_INTX_ASSERT_ALL .irqEnPulse)
    (fun _ _ => rfl) true_stable trivial (fun _ _ => trivial) (fun p _ _ _ => ?_)
  refine wp_op_eq (f := fun _ _ => ()) (g := fun _ s => s.write 0 .irqEnLevel)
    (fun _ _ => rfl) enPulse_stable rfl (fun _ _ => trivial) (fun p _ hp _ => ?_)
  refine wp_op_eq (f := fun _ _ => ()) (g := fun _ s => s.write 0 .irqEnSpecial)
    (fun _ _ => rfl) enLevel_stable ⟨hp, rfl⟩ (fun _ _ => trivial) (fun p _ hp _ => ?_)
  exact wp_ret enabled_stable ⟨hp.1, hp.2, rfl⟩ (fun _ _ => trivial) (fun _ ht => ht)

/-- **The invariant** between two calls. -/
structure Quiet (p : Port) : Prop where
  enabled : Enabled p
  kept : p.latch.Kept (fun _ => false)

theorem quiet_stable : port.Stable Quiet := by
  rintro e s _ ⟨⟩ h
  exact ⟨h.enabled.event e, Kept.event h.kept e⟩

theorem quiet_fresh (h : Enabled p) : Quiet p.fresh := by
  refine ⟨⟨h.pulse, h.level, h.special⟩, fun i hi => .inl hi, fun i => ?_⟩
  simp [Port.fresh, Port.latch]

/-- **No INTx is lost and none is made up**, however the assertions fall between the steps of the
handler: never have more been handed on than asserted, as long as one has not been handed on the
line is up while no handler runs, and what is owed when the handler is called it has handed on at
its end. -/
theorem intx_kept {th : Option (Thread Op Ans Port Unit Unit)}
    (h : intx.Reach System.anyStep p th) :
    (∀ i, p.served i ≤ p.raised i) ∧
    (th = none → ∀ i, p.owed i = true → p.line = true) ∧
    ∀ p₀, th = some ⟨(), p₀, .ret ()⟩ → ∀ i, p₀.owed i = true → p₀.served i < p.served i := by
  have hholds : intx.Holds System.anyStep Quiet (fun _ _ => Counted)
      (fun _ p₀ _ t => Quiet p₀ ∧ Left p₀ t) p th :=
    System.reach_holds ?_ quiet_stable ?_ ?_ h
  · refine ⟨?_, ?_, ?_⟩
    · cases th with
      | none => exact Kept.counted (show Quiet p from hholds).kept none
      | some th =>
        obtain ⟨c, p₀, q⟩ := th
        cases q with
        | ret a => exact hholds.at_ret.1
        | op o k => exact hholds.at_op
    · rintro rfl i hi
      have hquiet : Quiet p := hholds
      rcases hquiet.kept.owed i hi with hset | hno
      · exact hquiet.enabled.line hset
      · exact absurd hno (by simp)
    · rintro p₀ rfl i hi
      obtain ⟨hquiet, hleft⟩ := hholds.at_ret.2
      rcases hquiet.kept.owed i hi with hset | hno
      · exact hleft.done i hset
      · exact absurd hno (by simp)
  · rintro p ⟨q, tr, t, hrun, rfl⟩
    exact quiet_fresh (hrun.post wp_enableSources)
  · intro _ p hp _
    exact wp_mono (fun _ _ hleft => ⟨hp, hleft⟩) (wp_irqHandler hp.enabled hp.kept)
  · rintro _ p₀ _ t ⟨-, hleft⟩
    exact ⟨hleft.enabled, hleft.kept⟩

/-- The port out of reset. -/
def resetPort : Port := ⟨0, 0, 0, 0, 0, 0, fun _ => 0, fun _ => 0, fun _ => false⟩

def intB : Fin PCI_NUM_INTX := ⟨1, by decide⟩

/-- INTB comes up, again before it is cleared, and once more when it has been handed on. -/
def racedRun : List (System.Ev Event Unit Unit) :=
  [.env (.intx intB), .start (), .op (), .env (.intx intB), .op (), .op (), .env (.intx intB),
    .op (),
    .op (), .op (), .op (), .done]

theorem intx_kept_raced : ∃ p : Port, p.raised intB = 3 ∧ p.served intB = 1 ∧ p.line = true := by
  obtain ⟨q, hq⟩ : ∃ q, port.run () enableSources resetPort = some ((), q) := ⟨_, rfl⟩
  obtain ⟨tr, hinit⟩ : ∃ tr, port.Runs (fun _ _ _ => true) enableSources resetPort tr () q :=
    runs_of_run (fun _ _ => rfl) hq
  have hfresh : q = { resetPort with enPulse := IRQ_INTX_ASSERT_ALL } :=
    (Prod.mk.inj (Option.some.inj hq)).2.symm
  subst hfresh
  have hrun : (intx.exec System.anyStep racedRun
      (Port.fresh { resetPort with enPulse := IRQ_INTX_ASSERT_ALL }, none)).any
      (fun x => x.2.isNone && x.1.owed intB && (x.1.raised intB == 3) &&
        (x.1.served intB == 1)) = true := by
    decide
  obtain ⟨p, th, hreach, hp⟩ := System.reach_of_exec (Y := intx) ⟨_, tr, _, hinit, rfl⟩ _ _ hrun
  simp only [Bool.and_eq_true, Option.isNone_iff_eq_none, beq_iff_eq] at hp
  exact ⟨p, hp.1.2, hp.2, (intx_kept hreach).2.1 hp.1.1.1 intB hp.1.1.2⟩

end S9p.Pcie
