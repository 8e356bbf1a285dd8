/-
# The PHY behind its clock

The registers of the PHY can be accessed only while its APB clock runs.  The glue lets it run for
each access and stops it afterwards, and nothing keeps two accesses apart: besides the calibration,
the interrupt handler reads the PHY when it dumps the state after a fatal error.

* `safe_iff`: the bus cannot wedge, whatever the contexts read and however they interleave, exactly
  if no two of them access the PHY.  What else is in the clock register stays as it is in any case.
-/
import S9p.Lib.Field
import S9p.Lib.Parallel

namespace S9p.Ufs.Pma

open Device

abbrev Word := BitVec 32

/-! ## 1. The accesses of the glue

An access is three accesses on the bus: the clock is let run, the register is read or written, and
the clock is stopped. -/

/-- What the calibration code asks of the PHY. -/
inductive Phy where
  | write (val addr : Word)
  | read (addr : Word)

@[reducible] def PhyAns : Phy → Type
  | .write _ _ => Unit
  | .read _ => Word

abbrev PhyProg := Prog Phy PhyAns Unit

/-- What that is on the bus: HCI_CLKSTOP_CTRL, and the register itself. -/
inductive Bus where
  | hciReadl
  | hciWritel (val : Word)
  | pma (o : Phy)

@[reducible] def BusAns : Bus → Type
  | .hciReadl => Word
  | .hciWritel _ => Unit
  | .pma o => PhyAns o

abbrev BusProg (α : Type) := Prog Bus BusAns α

def perform (o : Bus) : BusProg (BusAns o) := Prog.perform o

def MPHY_APBCLK_STOP : Word := BitVec.twoPow 32 3

/-- An access with the clock let run for it. -/
def clocked (o : Phy) : BusProg (PhyAns o) := do
  let clkstop ← perform .hciReadl
  perform (.hciWritel (clkstop &&& ~~~MPHY_APBCLK_STOP))
  let val ← perform (.pma o)
  perform (.hciWritel (clkstop ||| MPHY_APBCLK_STOP))
  pure val

/-- `ufs_lld_pma_write` -/
def ufsLldPmaWrite (val addr : Word) : BusProg Unit := clocked (.write val addr)

/-- `ufs_lld_pma_read` -/
def ufsLldPmaRead (addr : Word) : BusProg Word := clocked (.read addr)

/-- The hooks of the calibration code. -/
def hook : (o : Phy) → BusProg (PhyAns o)
  | .write val addr => ufsLldPmaWrite val addr
  | .read addr => ufsLldPmaRead addr

theorem hook_eq (o : Phy) : hook o = clocked o := by
  cases o <;> rfl

/-- A program of the calibration code, with its hooks. -/
def glue : PhyProg → BusProg Unit
  | .ret a => .ret a
  | .op o k => hook o >>= fun r => glue (k r)

def reads : List Word → PhyProg
  | [] => .ret ()
  | addr :: addrs => .op (.read addr) (fun _ => reads addrs)

/-- The PHY registers of `exynos_ufs_dump_state`. -/
def dumpState : PhyProg := reads [0x74, 0x8c, 0x134, 0x274]

/-! ## 2. The bus

A block that is accessed without its clock does not answer, and the bus waits for ever.  Nothing
brings it back. -/

/-- Whether the bus is wedged is a state of the hardware that nothing can read, since then nothing
works. -/
structure Soc where
  clkstop : Word
  pma : Word → Word
  wedged : Bool

/-- The PHY changes its registers. -/
def Soc.event (s : Soc) (pma : Word → Word) : Soc := { s with pma := pma }

/-- A register access to a block without its clock. -/
def Soc.touch (s : Soc) : Soc := { s with wedged := s.wedged || s.clkstop.getLsbD 3 }

/-- An access wedges the bus where the clock stands still (`Soc.touch`). -/
def Soc.access (s : Soc) : (o : Phy) → PhyAns o × Soc
  | .write val addr => ((), { s.touch with pma := Function.update s.pma addr val })
  | .read addr => (s.pma addr, s.touch)

/-- What an access on the bus does, be it to the clock register or to the PHY. -/
def act (s : Soc) : (o : Bus) → BusAns o × Soc
  | .hciReadl => (s.clkstop, s)
  | .hciWritel val => ((), { s with clkstop := val })
  | .pma o => s.access o

/-- Any number of contexts. -/
def soc (ι : Type) : Shared ι Bus BusAns Soc (Word → Word) Unit where
  env := fun pma s => some (s.event pma)
  act := fun _ o _ s => some (act s o)

/-- The clock register apart from the bit of the APB clock. -/
def Soc.others (s : Soc) : Word := s.clkstop &&& ~~~MPHY_APBCLK_STOP

section Others

variable {v : Word}

theorem others_let :
    (v &&& ~~~MPHY_APBCLK_STOP) &&& ~~~MPHY_APBCLK_STOP = v &&& ~~~MPHY_APBCLK_STOP := by
  rw [BitVec.and_assoc, BitVec.and_self]

theorem others_stop :
    (v ||| MPHY_APBCLK_STOP) &&& ~~~MPHY_APBCLK_STOP = v &&& ~~~MPHY_APBCLK_STOP :=
  Field.or_and (by decide)

theorem runs_let : (v &&& ~~~MPHY_APBCLK_STOP).getLsbD 3 = false := by
  rw [BitVec.getLsbD_and, show (~~~MPHY_APBCLK_STOP).getLsbD 3 = false by decide, Bool.and_false]

theorem stopped_stop : (v ||| MPHY_APBCLK_STOP).getLsbD 3 = true := by
  rw [BitVec.getLsbD_or, show MPHY_APBCLK_STOP.getLsbD 3 = true by decide, Bool.or_true]

end Others

theorem access_clkstop (s : Soc) (o : Phy) : (s.access o).2.clkstop = s.clkstop := by
  cases o <;> rfl

theorem access_wedged (s : Soc) (o : Phy) :
    (s.access o).2.wedged = (s.wedged || s.clkstop.getLsbD 3) := by
  cases o <;> rfl

/-! ## 3. What no context changes

Each context writes the clock register with what it has read of it, with one bit changed.  The other
bits are the same in all of them. -/

section Frame

variable {ι : Type} {i : ι} {x : Word} {s : Soc}

/-- Each leaves the other bits alone. -/
def Spares (_ : ι) (s t : Soc) : Prop := t.others = s.others

theorem others_stable (i : ι) (x : Word) :
    ((soc ι).view Spares i).Stable (fun s => s.others = x) := by
  refine Shared.view_stable ?_ (fun _ _ _ _ hG h => hG.trans h)
  rintro e s _ ⟨⟩ h
  exact h

/-- What is asked of each step. -/
def Same (i : ι) (x : Word) (s : Soc) (o : Option Bus) : Prop :=
  s.others = x ∧ (soc ι).Keeps Spares i s o

theorem same_of {o : Bus} (h : s.others = x) (hact : (act s o).2.others = x) :
    Same i x s (some o) := by
  refine ⟨h, fun _ r t hrt => ?_⟩
  obtain rfl : (act s o).2 = t := (Prod.mk.inj (Option.some.inj hrt)).2
  exact hact.trans h.symm

theorem others_access (s : Soc) (o : Phy) : (s.access o).2.others = s.others :=
  congrArg (· &&& ~~~MPHY_APBCLK_STOP) (access_clkstop s o)

/-- **One access** writes back what it has read, but for the clock. -/
theorem same_clocked {o : Phy} {Q : PhyAns o → Soc → Prop} (hs : s.others = x)
    (hQ : ∀ r t, t.others = x → Q r t) :
    wp ((soc ι).view Spares i) Shared.anyOp (Same i x) (clocked o) Q s := by
  refine wp_op_eq (f := fun _ t => t.clkstop) (g := fun _ t => t)
    (fun _ _ => rfl) (others_stable i x) hs (fun _ ht => same_of ht ht) (fun s _ hs _ => ?_)
  refine wp_op_eq (f := fun _ _ => ())
    (g := fun _ t => { t with clkstop := s.clkstop &&& ~~~MPHY_APBCLK_STOP })
    (fun _ _ => rfl) (others_stable i x) hs (fun _ ht => same_of ht (others_let.trans hs))
    (fun t _ _ _ => ?_)
  refine wp_op_eq (f := fun _ t => (t.access o).1) (g := fun _ t => (t.access o).2)
    (fun _ _ => rfl) (others_stable i x) (others_let.trans hs)
    (fun u hu => same_of hu ((others_access u o).trans hu)) (fun u _ hu _ => ?_)
  refine wp_op_eq (f := fun _ _ => ())
    (g := fun _ t => { t with clkstop := s.clkstop ||| MPHY_APBCLK_STOP })
    (fun _ _ => rfl) (others_stable i x) ((others_access u o).trans hu)
    (fun _ ht => same_of ht (others_stop.trans hs)) (fun v _ _ _ => ?_)
  exact wp_ret (others_stable i x) (others_stop.trans hs) (fun _ ht => ⟨ht, trivial⟩)
    (fun t ht => hQ _ t ht)

theorem same_glue (p : PhyProg) (hs : s.others = x) :
    wp ((soc ι).view Spares i) Shared.anyOp (Same i x) (glue p) (fun _ t => t.others = x) s := by
  induction p generalizing s with
  | ret a => exact wp_ret (others_stable i x) hs (fun _ ht => ⟨ht, trivial⟩) (fun _ ht => ht)
  | op o k ih =>
    change wp _ _ _ (hook o >>= fun r => glue (k r)) _ s
    rw [hook_eq]
    exact wp_bind (same_clocked hs (fun r t ht => ih r ht))

end Frame

/-! ## 4. One context that accesses the PHY

A context that is alone with the clock finds it as it has left it. -/

def Accesses (p : PhyProg) : Prop := ∃ o k, p = .op o k

theorem accesses_or (p : PhyProg) : Accesses p ∨ p = .ret () := by
  cases p with
  | ret a => exact .inr rfl
  | op o k => exact .inl ⟨o, k, rfl⟩

section Lone

variable {ι : Type} {p : ι → PhyProg} {i : ι} {s : Soc}

/-- The contexts without an access do nothing. -/
def Acts (p : ι → PhyProg) (j : ι) (_ _ : Soc) : Prop := Accesses (p j)

/-- What is asked of each step. -/
def Sound (p : ι → PhyProg) (i : ι) (s : Soc) (o : Option Bus) : Prop :=
  s.wedged = false ∧ (soc ι).Keeps (Acts p) i s o

theorem lone_stable (hlone : ∀ j, Accesses (p j) → j = i) {P : Soc → Prop}
    (hP : ∀ s pma, P s → P (s.event pma)) : ((soc ι).view (Acts p) i).Stable P := by
  refine Shared.view_stable ?_ (fun j _ _ hj hG _ => absurd (hlone j hG) hj)
  rintro e s _ ⟨⟩ h
  exact hP s e h

/-- **One access** finds the clock that has been let run for it. -/
theorem sound_clocked (hlone : ∀ j, Accesses (p j) → j = i) (hi : Accesses (p i)) {o : Phy}
    {Q : PhyAns o → Soc → Prop} (hs : s.wedged = false) (hQ : ∀ r t, t.wedged = false → Q r t) :
    wp ((soc ι).view (Acts p) i) Shared.anyOp (Sound p i) (clocked o) Q s := by
  have hcold := lone_stable (P := fun s => s.wedged = false) hlone (fun _ _ h => h)
  have hruns := lone_stable (P := fun s => s.wedged = false ∧ s.clkstop.getLsbD 3 = false) hlone
    (fun _ _ h => h)
  have hkeeps : ∀ s o, (soc ι).Keeps (Acts p) i s (some o) := fun _ _ _ _ _ _ => hi
  refine wp_op_eq (f := fun _ t => t.clkstop) (g := fun _ t => t) (fun _ _ => rfl) hcold hs
    (fun _ ht => ⟨ht, hkeeps _ _⟩) (fun s _ hs _ => ?_)
  refine wp_op_eq (f := fun _ _ => ())
    (g := fun _ t => { t with clkstop := s.clkstop &&& ~~~MPHY_APBCLK_STOP })
    (fun _ _ => rfl) hcold hs (fun _ ht => ⟨ht, hkeeps _ _⟩) (fun t _ ht _ => ?_)
  refine wp_op_eq (f := fun _ t => (t.access o).1) (g := fun _ t => (t.access o).2)
    (fun _ _ => rfl) hruns ⟨ht, runs_let⟩ (fun _ hu => ⟨hu.1, hkeeps _ _⟩) (fun u _ hu _ => ?_)
  have hclean : (u.access o).2.wedged = false := by rw [access_wedged, hu.1, hu.2, Bool.or_false]
  refine wp_op_eq (f := fun _ _ => ())
    (g := fun _ t => { t with clkstop := s.clkstop ||| MPHY_APBCLK_STOP })
    (fun _ _ => rfl) hcold hclean (fun _ ht => ⟨ht, hkeeps _ _⟩) (fun v _ hv _ => ?_)
  exact wp_ret hcold hv (fun _ ht => ⟨ht, trivial⟩) (fun t ht => hQ _ t ht)

theorem sound_glue (hlone : ∀ j, Accesses (p j) → j = i) (hi : Accesses (p i)) (p' : PhyProg)
    (hs : s.wedged = false) :
    wp ((soc ι).view (Acts p) i) Shared.anyOp (Sound p i) (glue p') (fun _ _ => True) s := by
  induction p' generalizing s with
  | ret a =>
    exact wp_ret (lone_stable hlone (fun _ _ h => h)) hs (fun _ ht => ⟨ht, trivial⟩)
      (fun _ _ => trivial)
  | op o k ih =>
    change wp _ _ _ (hook o >>= fun r => glue (k r)) _ s
    rw [hook_eq]
    exact wp_bind (sound_clocked hlone hi hs (fun r t ht => ih r ht))

end Lone

/-! ## 5. All contexts

If one context at the most has accesses to make, nobody stops the clock under another.  Two are
enough to wedge the bus, whatever else they do. -/

section All

variable {ι : Type} [DecidableEq ι] {p : ι → PhyProg} {init : Soc → Prop} {s : Soc}
  {q : ι → BusProg Unit}

theorem others_kept {x : Word} (hinit : ∀ s, init s → s.others = x)
    (h : (soc ι).Reach init (fun i => glue (p i)) s q) (i : ι) : s.others = x :=
  Shared.reach_state (S := fun _ s _ => s.others = x) (Q := fun _ _ s => s.others = x)
    (fun _ s hs => same_glue _ (hinit s hs)) h i (fun _ _ h => h)

/-- Without an access nothing happens on the bus. -/
theorem idle_reach (hp : ∀ i, p i = .ret ()) (h : (soc ι).Reach init (fun i => glue (p i)) s q) :
    (∃ s₀, init s₀ ∧ s.clkstop = s₀.clkstop ∧ s.wedged = s₀.wedged) ∧ ∀ i, q i = .ret () := by
  induction h with
  | boot hs => exact ⟨⟨_, hs, rfl, rfl⟩, fun i => congrArg glue (hp i)⟩
  | env _ he ih =>
    obtain ⟨⟨s₀, hs, hclk, hwedged⟩, hq⟩ := ih
    cases he
    exact ⟨⟨s₀, hs, hclk, hwedged⟩, hq⟩
  | op i _ _ hi _ ih => exact absurd (hi.symm.trans (ih.2 i)) (by simp)

theorem safe_of_lone (hinit : ∀ s, init s → s.wedged = false)
    (hlone : ∀ i j, Accesses (p i) → Accesses (p j) → i = j)
    (h : (soc ι).Reach init (fun i => glue (p i)) s q) : s.wedged = false := by
  by_cases hbusy : ∃ i, Accesses (p i)
  · obtain ⟨i, hi⟩ := hbusy
    refine Shared.reach_state (G := Acts p) (S := fun j s _ => j = i → s.wedged = false)
      (Q := fun _ _ _ => True) (fun j s hs => ?_) h i (fun _ _ h => h rfl)
    rcases accesses_or (p j) with hj | hj
    · have hglue := sound_glue (fun k hk => hlone k j hk hj) hj (p j) (hinit s hs)
      exact wp_step_mono (fun _ _ hsound => ⟨fun _ => hsound.1, hsound.2⟩) hglue
    · have hne : j ≠ i := fun hij => by
        obtain ⟨o, k, hop⟩ := hij ▸ hi
        exact absurd (hj.symm.trans hop) (by simp)
      rw [hj]
      exact fun _ _ => ⟨⟨fun hij => absurd hij hne, trivial⟩, trivial⟩
  · have hidle : ∀ i, p i = .ret () :=
      fun i => (accesses_or (p i)).resolve_left (fun hi => hbusy ⟨i, hi⟩)
    obtain ⟨⟨s₀, hs, -, hwedged⟩, -⟩ := idle_reach hidle h
    exact hwedged.trans (hinit s₀ hs)

/-- A context on the way to an access has let the clock run for it. -/
theorem open_clock {i : ι} {o : Phy} {k : PhyAns o → PhyProg}
    (h : (soc ι).Reach init (fun i => glue (p i)) s q) (hi : q i = glue (.op o k)) :
    ∃ q' k', (soc ι).Reach init (fun i => glue (p i))
      { s with clkstop := s.clkstop &&& ~~~MPHY_APBCLK_STOP } q' ∧ q' i = .op (.pma o) k' ∧
      ∀ j, j ≠ i → q' j = q j := by
  have hop : q i = (clocked o >>= fun r => glue (k r)) := by
    rw [hi, ← hook_eq]
    rfl
  obtain ⟨q₁, h₁, hi₁, hq₁⟩ := h.own () hop rfl
  obtain ⟨q₂, h₂, hi₂, hq₂⟩ := h₁.own () hi₁ rfl
  exact ⟨q₂, _, h₂, hi₂, fun j hj => (hq₂ j hj).trans (hq₁ j hj)⟩

/-- A whole access of another context stops the clock again. -/
theorem stop_clock {i j : ι} (hij : i ≠ j) {o : Phy} {k : PhyAns o → PhyProg}
    (h : (soc ι).Reach init (fun i => glue (p i)) s q) (hj : q j = glue (.op o k)) :
    ∃ t q', (soc ι).Reach init (fun i => glue (p i)) t q' ∧ t.clkstop.getLsbD 3 = true ∧
      q' i = q i := by
  have hop : q j = (clocked o >>= fun r => glue (k r)) := by
    rw [hj, ← hook_eq]
    rfl
  obtain ⟨q₁, h₁, hj₁, hq₁⟩ := h.own () hop rfl
  obtain ⟨q₂, h₂, hj₂, hq₂⟩ := h₁.own () hj₁ rfl
  obtain ⟨q₃, h₃, hj₃, hq₃⟩ := h₂.own () hj₂ rfl
  obtain ⟨q₄, h₄, -, hq₄⟩ := h₃.own () hj₃ rfl
  refine ⟨_, q₄, h₄, stopped_stop, ?_⟩
  rw [hq₄ i hij, hq₃ i hij, hq₂ i hij, hq₁ i hij]

variable (init) in
/-- **Two contexts wedge the bus**: the one lets the clock run, the other makes a whole access, and
the first then finds the clock stopped. -/
theorem wedges (hs : init s) {i j : ι} (hij : i ≠ j) (hi : Accesses (p i)) (hj : Accesses (p j)) :
    ∃ t q, (soc ι).Reach init (fun i => glue (p i)) t q ∧ t.wedged = true := by
  obtain ⟨o, k, hi⟩ := hi
  obtain ⟨o', k', hj⟩ := hj
  obtain ⟨q₁, kᵢ, h₁, hi₁, hq₁⟩ := open_clock (.boot hs) (congrArg glue hi)
  obtain ⟨t, q₂, h₂, hstopped, hi₂⟩ :=
    stop_clock hij h₁ ((hq₁ j hij.symm).trans (congrArg glue hj))
  obtain ⟨q₃, h₃, -, -⟩ := h₂.own () (hi₂.trans hi₁) rfl
  refine ⟨_, q₃, h₃, ?_⟩
  change (t.access o).2.wedged = true
  rw [access_wedged, hstopped, Bool.or_true]

end All

/-- A calibration, and the dump from the interrupt handler. -/
theorem wedges_dump {cal : PhyProg} (hcal : Accesses cal) (clkstop : Word) (pma : Word → Word) :
    ∃ s q, (soc Bool).Reach (· = ⟨clkstop, pma, false⟩)
      (fun irq => glue (if irq then dumpState else cal)) s q ∧ s.wedged = true :=
  wedges (· = ⟨clkstop, pma, false⟩) (p := fun irq => if irq then dumpState else cal) (i := false)
    (j := true) rfl (by simp) hcal ⟨_, _, rfl⟩

/-- **The bus cannot wedge exactly if no two contexts access the PHY**, whatever programs of
accesses they run and however these interleave; the clock register keeps its other bits in any
case. -/
theorem safe_iff {ι : Type} [DecidableEq ι] (p : ι → PhyProg) (clkstop : Word) (pma : Word → Word) :
    ((∀ s q, (soc ι).Reach (· = ⟨clkstop, pma, false⟩) (fun i => glue (p i)) s q →
      s.wedged = false) ↔
      ∀ i j, Accesses (p i) → Accesses (p j) → i = j) ∧
    ∀ s q, (soc ι).Reach (· = ⟨clkstop, pma, false⟩) (fun i => glue (p i)) s q →
      s.clkstop &&& ~~~MPHY_APBCLK_STOP = clkstop &&& ~~~MPHY_APBCLK_STOP := by
  refine ⟨⟨fun hsafe i j hi hj => ?_, fun hlone s q h => ?_⟩, fun s q h => ?_⟩
  · by_contra hij
    obtain ⟨t, q, h, hwedged⟩ := wedges (· = ⟨clkstop, pma, false⟩) rfl hij hi hj
    exact absurd ((hsafe t q h).symm.trans hwedged) (by simp)
  · exact safe_of_lone (by rintro _ rfl; rfl) hlone h
  · rcases isEmpty_or_nonempty ι with hempty | ⟨⟨i⟩⟩
    · obtain ⟨⟨s₀, rfl, hclk, -⟩, -⟩ := idle_reach (fun i => hempty.elim i) h
      rw [hclk]
    · exact others_kept (by rintro _ rfl; rfl) h i

end S9p.Ufs.Pma
