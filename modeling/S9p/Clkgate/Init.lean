/-
# The clock gates opened by hand

At boot `s9p-clkgate` goes through six lists of the device tree: registers to read, to open as
gates, to write, to clear bits in, to set bits in, and PLLs to switch on.  The hardware drives some
bits of these registers itself, whenever it likes, and they do not take what is written to them.

* `gates_exact`: with every register mapped, each is left with what the lists make of it in this
  order, apart from the bits the hardware drives; so the dividers of a PLL stay, and a register in
  no list stays.

What the list of the PLLs makes of them is not settled by the list alone.  The driver selects the
output of a PLL (bit 4) if it reads it as locked (bit 29), which the hardware decides.  So there is
one choice for each entry of that list: to set bit 4 too, or to leave it as it is.
-/
import S9p.Lib.Field
import S9p.Lib.Path
import S9p.Lib.Regs

namespace S9p.Clkgate

open Device
open Regs (Upd)

/-! ## 1. The driver

Each list is an array of the device tree, and each has a loop of its own.  A register that cannot be
mapped is passed over. -/

/-- A register is mapped, read and written; there is nothing else to it. -/
inductive Op where
  | ioremap (addr : BitVec 32)
  | readl (addr : BitVec 32)
  | writel (val addr : BitVec 32)

@[reducible] def Ans : Op → Type
  | .ioremap _ => Bool
  | .readl _ => BitVec 32
  | .writel _ _ => Unit

abbrev P := Prog Op Ans

def perform (o : Op) : P (Ans o) := Prog.perform o

def readl (addr : BitVec 32) : P (BitVec 32) := perform (.readl addr)

def writel (val addr : BitVec 32) : P Unit := perform (.writel val addr)

def BIT (n : Nat) : BitVec 32 := BitVec.twoPow 32 n

def CLK_GATE_MANUAL : BitVec 32 := BIT 20
def CLK_GATE_CG_VAL : BitVec 32 := BIT 21

/-- The node `s9p,clock-gates`. -/
structure Node where
  dumpRegisters : List (BitVec 32)
  gateRegisters : List (BitVec 32)
  setRegisters : List (BitVec 32)
  clearRegisters : List (BitVec 32)
  orRegisters : List (BitVec 32)
  pllEnable : List (BitVec 32)

/-- What is done to a register, if it can be mapped. -/
def mapped (addr : BitVec 32) (body : P Unit) : P Unit := do
  let reg ← perform (.ioremap addr)
  if reg then body else pure ()

/-- `for (i = 0; i < n; i++)` -/
def each (body : BitVec 32 → P Unit) : List (BitVec 32) → P Unit
  | addr :: rest => do
    mapped addr (body addr)
    each body rest
  | [] => pure ()

/-- `for (i = 0; i + 1 < n; i += 2)` -/
def eachPair (body : BitVec 32 → BitVec 32 → P Unit) : List (BitVec 32) → P Unit
  | addr :: val :: rest => do
    mapped addr (body addr val)
    eachPair body rest
  | _ => pure ()

/-- The value is read for the log only. -/
def dump (addr : BitVec 32) : P Unit := do
  let _ ← readl addr
  pure ()

def modify (addr : BitVec 32) (f : BitVec 32 → BitVec 32) : P Unit := do
  let val ← readl addr
  writel (f val) addr

/-- The value that is logged is read again. -/
def gate (addr : BitVec 32) : P Unit := do
  modify addr (fun val => val ||| CLK_GATE_MANUAL ||| CLK_GATE_CG_VAL)
  dump addr

def set (addr val : BitVec 32) : P Unit := modify addr (fun _ => val)

def clear (addr bits : BitVec 32) : P Unit := do
  modify addr (fun val => val &&& ~~~bits)
  dump addr

def or (addr bits : BitVec 32) : P Unit := do
  modify addr (fun val => val ||| bits)
  dump addr

/-- `for (t = 0; t < 5000 && !(readl(reg) & BIT(29)); t++)` -/
def waitStable (addr : BitVec 32) : Nat → P Unit
  | 0 => pure ()
  | t + 1 => do
    let val ← readl addr
    if val &&& BIT 29 ≠ 0#32 then pure () else waitStable addr t

/-- A PLL that is off is switched on and waited for. -/
def switchOn (addr val : BitVec 32) : P (BitVec 32) :=
  if val &&& BIT 31 ≠ 0#32 then pure val
  else do
    writel (val ||| BIT 31) addr
    waitStable addr 5000
    readl addr

def selectOutput (addr val : BitVec 32) : P Unit :=
  if val &&& BIT 29 ≠ 0#32 ∧ val &&& BIT 4 = 0#32 then writel (val ||| BIT 4) addr else pure ()

/-- The output is selected by what has been read back. -/
def enablePll (addr : BitVec 32) : P Unit := do
  let old ← readl addr
  let val ← switchOn addr old
  selectOutput addr val
  dump addr
  dump addr

/-- `s9p_clkgate_init`, where there is the node. -/
def clkgateInit (np : Node) : P Unit := do
  each dump np.dumpRegisters
  each gate np.gateRegisters
  eachPair set np.setRegisters
  eachPair clear np.clearRegisters
  eachPair or np.orRegisters
  each enablePll np.pllEnable

/-! ## 2. The registers

The status bits of a register belong to the hardware, which may give them any value at any time, and
a write does not reach them. -/

abbrev File := BitVec 32 → BitVec 32

/-- `v` under a mask, `x` outside. -/
def under (mask v x : BitVec 32) : BitVec 32 := v &&& mask ||| x &&& ~~~mask

section Machine

-- the bits of each register that the hardware drives
variable (status : File)

/-- **What an access does.**  What the hardware has in its own bits stays as it is. -/
def act (r : File) (maps : Bool) : (o : Op) → Ans o × File
  | .ioremap _ => (maps, r)
  | .readl addr => (r addr, r)
  | .writel val addr => ((), Function.update r addr (under (status addr) (r addr) val))

/-- The registers; a step of the hardware gives one the status bits of a value. -/
def soc : Device Op Ans File (BitVec 32 × BitVec 32) Bool where
  env := fun e r => some (Function.update r e.1 (under (status e.1) e.2 (r e.1)))
  act := fun o maps r => some (act status r maps o)

end Machine

/-- Every register can be mapped. -/
def allMapped : File → (o : Op) → Bool → Bool
  | _, .ioremap _, maps => maps
  | _, _, _ => true

/-! ## 3. What the lists are for

One update for each entry of a list, in the order of the code.  What a register ends up with is the
composition of those that name it. -/

/-- The pairs of a list, each with what it does to its register. -/
def pairUpds (upd : BitVec 32 → Upd 32) : List (BitVec 32) → List (BitVec 32 × Upd 32)
  | addr :: val :: rest => (addr, upd val) :: pairUpds upd rest
  | _ => []

/-- What becomes of a PLL: it is on, and if it has locked, so is its output. -/
def onBits (selected : Bool) : Upd 32 := Upd.setBits (if selected then BIT 31 ||| BIT 4 else BIT 31)

/-- The updates, one after the other, with the choice that is made for each PLL. -/
def Node.updates (np : Node) (selected : List Bool) : List (BitVec 32 × Upd 32) :=
  np.gateRegisters.map (fun addr => (addr, Upd.setBits (CLK_GATE_MANUAL ||| CLK_GATE_CG_VAL))) ++
  pairUpds Upd.put np.setRegisters ++
  pairUpds Upd.clearBits np.clearRegisters ++
  pairUpds Upd.setBits np.orRegisters ++
  List.zipWith (fun addr on => (addr, onBits on)) np.pllEnable selected

/-- Register files that agree in all bits but those of the hardware.  All that is said of the
registers is said up to these bits. -/
def Agree (status r x : File) : Prop := ∀ a, r a &&& ~~~status a = x a &&& ~~~status a

/-! ## 4. What the code does

The register file the code works on is compared with one on which the updates have been made, apart
from the bits of the hardware. -/

variable {status : File} {np : Node} {s : File} {us us' : List (BitVec 32 × Upd 32)}
  {U V W : List (BitVec 32 × Upd 32) → Prop} {p : P Unit} {addr : BitVec 32}

theorem under_and {st v x : BitVec 32} : under st v x &&& ~~~st = x &&& ~~~st := by
  refine BitVec.eq_of_getLsbD_eq (fun i hi => ?_)
  simp only [under, BitVec.getLsbD_and, BitVec.getLsbD_or, BitVec.getLsbD_not, hi, decide_true,
    Bool.true_and]
  cases st.getLsbD i <;> simp

theorem agree_stable (status x : File) : (soc status).Stable (fun r => Agree status r x) := by
  rintro ⟨addr, v⟩ r _ ⟨⟩ hr a
  dsimp only
  by_cases ha : a = addr
  · subst ha
    rw [Function.update_self, under_and]
    exact hr a
  · rw [Function.update_of_ne ha]
    exact hr a

/-- A write, and the register file that is meant. -/
theorem Agree.write {r x y : File} {val : BitVec 32} (hr : Agree status r x)
    (hother : ∀ a, a ≠ addr → y a = x a)
    (hval : val &&& ~~~status addr = y addr &&& ~~~status addr) :
    Agree status (act status r true (.writel val addr)).2 y := by
  intro a
  by_cases ha : a = addr
  · subst ha
    simp only [act, Function.update_self]
    rw [under_and, hval]
  · simp only [act, Function.update_of_ne ha]
    rw [hother a ha]
    exact hr a

/-- Nothing is asked of the steps. -/
abbrev Any : File → Option Op → Prop := fun _ _ => True

/-- Apart from the bits of the hardware, `p` does the updates of one of the lists in `U`. -/
def Does (status : File) (p : P Unit) (U : List (BitVec 32 × Upd 32) → Prop) : Prop :=
  ∀ s x, Agree status s x → wp (soc status) allMapped Any p
    (fun _ t => ∃ us, U us ∧ Agree status t (Regs.run us x)) s

theorem Does.bind {q : Unit → P Unit} (hp : Does status p U) (hq : Does status (q ()) V)
    (hW : ∀ us us', U us → V us' → W (us ++ us')) : Does status (p >>= q) W := by
  intro s x hs
  refine wp_bind (wp_mono ?_ (hp s x hs))
  rintro _ t ⟨us, hus, ht⟩
  refine wp_mono ?_ (hq t _ ht)
  rintro _ u ⟨us', hus', hu⟩
  refine ⟨us ++ us', hW us us' hus hus', ?_⟩
  rwa [Regs.run_append]

/-- Two parts, each with one list. -/
theorem Does.seq {q : Unit → P Unit} (hp : Does status p (· = us))
    (hq : Does status (q ()) (· = us')) : Does status (p >>= q) (· = us ++ us') :=
  hp.bind hq (fun _ _ h h' => h ▸ h' ▸ rfl)

/-- A part with one list, in front of one with a choice. -/
theorem Does.before {ι : Type} {C : ι → Prop} {f : ι → List (BitVec 32 × Upd 32)}
    {q : Unit → P Unit} (hp : Does status p (· = us))
    (hq : Does status (q ()) (fun vs => ∃ i, C i ∧ vs = f i)) :
    Does status (p >>= q) (fun vs => ∃ i, C i ∧ vs = us ++ f i) :=
  hp.bind hq (fun _ _ h ⟨i, hi, h'⟩ => ⟨i, hi, h ▸ h' ▸ rfl⟩)

theorem does_nothing : Does status (pure ()) (· = []) :=
  fun _ x hs => wp_ret (agree_stable status x) hs (fun _ _ => trivial) (fun _ ht => ⟨[], rfl, ht⟩)

theorem does_dump : Does status (dump addr) (· = []) := by
  intro s x hs
  refine wp_op_eq (f := fun _ r => r addr) (g := fun _ r => r) (fun _ _ => rfl)
    (agree_stable status x) hs (fun _ _ => trivial) (fun t _ ht _ => does_nothing t x ht)

theorem does_modify {f : BitVec 32 → BitVec 32} {u : Upd 32} (hf : ∀ v, f v = u.apply v) :
    Does status (modify addr f) (· = [(addr, u)]) := by
  intro s x hs
  refine wp_op_eq (f := fun _ r => r addr) (g := fun _ r => r) (fun _ _ => rfl)
    (agree_stable status x) hs (fun _ _ => trivial) (fun r _ hr _ => ?_)
  refine wp_op_eq (f := fun _ _ => ())
    (g := fun _ t => (act status t true (.writel (f (r addr)) addr)).2) (fun _ _ => rfl)
    (agree_stable status x) hr (fun _ _ => trivial) (fun t _ ht _ => ?_)
  have hwrite : Agree status (act status t true (.writel (f (r addr)) addr)).2
      (Regs.run [(addr, u)] x) := by
    refine ht.write (fun a ha => Regs.run_one_other ha) ?_
    rw [hf, Regs.run_one]
    exact Upd.apply_congr (hr addr)
  exact wp_ret (agree_stable status _) hwrite (fun _ _ => trivial) (fun _ hu => ⟨_, rfl, hu⟩)

theorem does_mapped (hp : Does status p U) : Does status (mapped addr p) U := by
  intro s x hs
  refine wp_op (agree_stable status x) hs (fun _ _ => trivial) (fun t maps r u ht hok hact => ?_)
  cases hact
  cases hok
  exact hp t x ht

theorem does_each {body : BitVec 32 → P Unit} {u : BitVec 32 → Upd 32} {l : List (BitVec 32)}
    (hbody : ∀ a, Does status (body a) (· = [(a, u a)])) :
    Does status (each body l) (· = l.map (fun a => (a, u a))) := by
  induction l with
  | nil => exact does_nothing
  | cons a l ih => exact (does_mapped (hbody a)).seq ih

theorem does_eachPair {body : BitVec 32 → BitVec 32 → P Unit} {u : BitVec 32 → Upd 32}
    (hbody : ∀ a v, Does status (body a v) (· = [(a, u v)])) :
    ∀ l, Does status (eachPair body l) (· = pairUpds u l)
  | [] => does_nothing
  | [_] => does_nothing
  | a :: v :: rest => (does_mapped (hbody a v)).seq (does_eachPair hbody rest)

theorem does_dumps (l : List (BitVec 32)) : Does status (each dump l) (· = []) := by
  induction l with
  | nil => exact does_nothing
  | cons a l ih => exact (does_mapped does_dump).seq ih

section Pll

variable {x y : File} {val : BitVec 32}

theorem wp_waitStable {Q : Unit → File → Prop} (n : Nat) (hs : Agree status s y)
    (hQ : ∀ t, Agree status t y → Q () t) :
    wp (soc status) allMapped Any (waitStable addr n) Q s := by
  induction n generalizing s with
  | zero => exact wp_ret (agree_stable status y) hs (fun _ _ => trivial) hQ
  | succ n ih =>
    refine wp_op_eq (f := fun _ r => r addr) (g := fun _ r => r) (fun _ _ => rfl)
      (agree_stable status y) hs (fun _ _ => trivial) (fun t _ ht _ => ?_)
    change wp _ _ _ (if t addr &&& BIT 29 ≠ 0#32 then pure () else waitStable addr n) Q t
    split
    · exact wp_ret (agree_stable status y) ht (fun _ _ => trivial) hQ
    · exact ih ht

/-- A PLL that is on is left alone; the value that is handed on is one that has been read. -/
theorem wp_switchOn {Q : BitVec 32 → File → Prop} (hs : Agree status s x)
    (hval : val &&& ~~~status addr = x addr &&& ~~~status addr)
    (hy : Regs.run [(addr, onBits false)] x = y)
    (hQ : ∀ t v, Agree status t y → v &&& ~~~status addr = y addr &&& ~~~status addr → Q v t) :
    wp (soc status) allMapped Any (switchOn addr val) Q s := by
  have hother : ∀ a, a ≠ addr → y a = x a := by
    intro a ha
    rw [← hy, Regs.run_one_other ha]
  have hon : (val ||| BIT 31) &&& ~~~status addr = y addr &&& ~~~status addr := by
    have hcongr := Upd.apply_congr (u := onBits false) hval
    rwa [onBits, Upd.setBits_apply, ← onBits, ← Regs.run_one, hy] at hcongr
  unfold switchOn
  split
  · rename_i hbit
    have hsame : val ||| BIT 31 = val :=
      Field.or_twoPow (Field.and_twoPow_ne_zero (by decide) |>.mp hbit)
    rw [hsame] at hon
    have hsy : Agree status s y := by
      intro a
      by_cases ha : a = addr
      · subst ha
        rw [hs a, ← hval, hon]
      · rw [hother a ha]
        exact hs a
    exact wp_ret (agree_stable status y) hsy (fun _ _ => trivial) (fun t ht => hQ t _ ht hon)
  · refine wp_op_eq (f := fun _ _ => ())
      (g := fun _ t => (act status t true (.writel (val ||| BIT 31) addr)).2) (fun _ _ => rfl)
      (agree_stable status x) hs (fun _ _ => trivial) (fun t _ ht _ => ?_)
    refine wp_bind (p := waitStable addr 5000)
      (wp_waitStable 5000 (ht.write hother hon) (fun t ht => ?_))
    refine wp_op_eq (f := fun _ r => r addr) (g := fun _ r => r) (fun _ _ => rfl)
      (agree_stable status y) ht (fun _ _ => trivial) (fun t _ ht _ => ?_)
    exact wp_ret (agree_stable status y) ht (fun _ _ => trivial) (fun u hu => hQ u _ hu (ht addr))

/-- The output is selected, or left as it is. -/
theorem wp_selectOutput (hs : Agree status s (Regs.run [(addr, onBits false)] x))
    (hval : val &&& ~~~status addr =
      Regs.run [(addr, onBits false)] x addr &&& ~~~status addr) :
    wp (soc status) allMapped Any (selectOutput addr val)
      (fun _ t => ∃ on, Agree status t (Regs.run [(addr, onBits on)] x)) s := by
  unfold selectOutput
  split
  · refine wp_op_eq (f := fun _ _ => ())
      (g := fun _ t => (act status t true (.writel (val ||| BIT 4) addr)).2) (fun _ _ => rfl)
      (agree_stable status _) hs (fun _ _ => trivial) (fun t _ ht _ => ?_)
    have hboth : Agree status (act status t true (.writel (val ||| BIT 4) addr)).2
        (Regs.run [(addr, onBits true)] x) := by
      refine ht.write (fun a ha => by rw [Regs.run_one_other ha, Regs.run_one_other ha]) ?_
      have hcongr := Upd.apply_congr (u := Upd.setBits (BIT 4)) hval
      rw [Upd.setBits_apply, Upd.setBits_apply] at hcongr
      rw [hcongr, Regs.run_one, Regs.run_one, onBits, onBits, Upd.setBits_apply, Upd.setBits_apply,
        BitVec.or_assoc]
      rfl
    exact wp_ret (agree_stable status _) hboth (fun _ _ => trivial) (fun _ hu => ⟨true, hu⟩)
  · exact wp_ret (agree_stable status _) hs (fun _ _ => trivial) (fun _ hu => ⟨false, hu⟩)

/-- **One PLL**: it is on afterwards, and nothing else of it has changed but which output it has. -/
theorem does_enablePll (addr : BitVec 32) :
    Does status (enablePll addr) (fun us => ∃ on, us = [(addr, onBits on)]) := by
  intro s x hs
  refine wp_op_eq (f := fun _ r => r addr) (g := fun _ r => r) (fun _ _ => rfl)
    (agree_stable status x) hs (fun _ _ => trivial) (fun r _ hr _ => ?_)
  refine wp_bind (p := switchOn addr (r addr)) (wp_switchOn hr (hr addr) rfl (fun t v ht hv => ?_))
  refine wp_bind (wp_mono ?_ (wp_selectOutput ht hv))
  rintro _ t ⟨on, ht⟩
  refine wp_mono ?_ (does_dump.seq (q := fun _ => dump addr) does_dump t _ ht)
  rintro _ u ⟨_, rfl, hu⟩
  exact ⟨_, ⟨on, rfl⟩, hu⟩

theorem does_enablePlls (l : List (BitVec 32)) : Does status (each enablePll l)
    (fun us => ∃ selected : List Bool, selected.length = l.length ∧
      us = List.zipWith (fun addr on => (addr, onBits on)) l selected) := by
  induction l with
  | nil =>
    intro s x hs
    exact wp_ret (agree_stable status x) hs (fun _ _ => trivial)
      (fun _ ht => ⟨[], ⟨[], rfl, rfl⟩, ht⟩)
  | cons a l ih =>
    refine (does_mapped (does_enablePll a)).bind ih ?_
    rintro _ _ ⟨on, rfl⟩ ⟨selected, hlen, rfl⟩
    exact ⟨on :: selected, congrArg Nat.succ hlen, rfl⟩

end Pll

theorem does_gate (addr : BitVec 32) : Does status (gate addr)
    (· = [(addr, Upd.setBits (CLK_GATE_MANUAL ||| CLK_GATE_CG_VAL))]) := by
  refine (does_modify (fun v => ?_)).seq does_dump
  rw [Upd.setBits_apply, BitVec.or_assoc]

theorem does_set (addr val : BitVec 32) :
    Does status (set addr val) (· = [(addr, Upd.put val)]) :=
  does_modify (fun _ => Upd.put_apply.symm)

theorem does_clear (addr bits : BitVec 32) :
    Does status (clear addr bits) (· = [(addr, Upd.clearBits bits)]) := by
  refine (does_modify (fun v => ?_)).seq does_dump
  exact Upd.clearBits_apply.symm

theorem does_or (addr bits : BitVec 32) :
    Does status (or addr bits) (· = [(addr, Upd.setBits bits)]) := by
  refine (does_modify (fun v => ?_)).seq does_dump
  exact Upd.setBits_apply.symm

/-- **The whole of it.** -/
theorem does_clkgateInit (np : Node) : Does status (clkgateInit np) (fun us =>
    ∃ selected : List Bool, selected.length = np.pllEnable.length ∧ us = np.updates selected) := by
  have hupdates : ∀ selected, np.updates selected = [] ++
      (np.gateRegisters.map (fun a => (a, Upd.setBits (CLK_GATE_MANUAL ||| CLK_GATE_CG_VAL))) ++
        (pairUpds Upd.put np.setRegisters ++ (pairUpds Upd.clearBits np.clearRegisters ++
          (pairUpds Upd.setBits np.orRegisters ++
            List.zipWith (fun addr on => (addr, onBits on)) np.pllEnable selected)))) := by
    intro selected
    simp only [Node.updates, List.nil_append, List.append_assoc]
  simp only [hupdates]
  refine (does_dumps np.dumpRegisters).before ?_
  refine (does_each does_gate).before ?_
  refine (does_eachPair does_set np.setRegisters).before ?_
  refine (does_eachPair does_clear np.clearRegisters).before ?_
  exact (does_eachPair does_or np.orRegisters).before (does_enablePlls np.pllEnable)

/-- **The registers at the end**, whatever they held at the start and whatever the hardware shows in
its own bits on the way: what the lists make of them, one list after the other.  For each PLL there
is the choice whether its output is selected. -/
theorem gates_exact (np : Node) {tr : List (Sigma Ans)} {t : File}
    (h : (soc status).Runs allMapped (clkgateInit np) s tr () t) :
    ∃ selected : List Bool, selected.length = np.pllEnable.length ∧
      ∀ addr, t addr &&& ~~~status addr =
        (Regs.plan (np.updates selected) addr).apply (s addr) &&& ~~~status addr := by
  obtain ⟨_, ⟨selected, hlen, rfl⟩, hagree⟩ := h.post (does_clkgateInit np s s (fun _ => rfl))
  refine ⟨selected, hlen, fun addr => ?_⟩
  rw [hagree addr, Regs.run_eq]

/-- A register in no list is left alone. -/
theorem unlisted_untouched {tr : List (Sigma Ans)} {t : File}
    (h : (soc status).Runs allMapped (clkgateInit np) s tr () t)
    (haddr : ∀ selected, ∀ e ∈ np.updates selected, e.1 ≠ addr) :
    t addr &&& ~~~status addr = s addr &&& ~~~status addr := by
  obtain ⟨_, ⟨selected, -, rfl⟩, hagree⟩ := h.post (does_clkgateInit np s s (fun _ => rfl))
  rw [hagree addr, Regs.run_eq, Regs.plan_other (haddr selected), Upd.skip_apply]

/-- The lists of the star2lte, without those that are only read. -/
def star2lte : Node where
  dumpRegisters := []
  gateRegisters := [0x10402018, 0x14202014, 0x1a2420bc, 0x1a242028, 0x104020dc, 0x104020e0,
    0x142020a8, 0x142020ac, 0x1a242064, 0x1100206c, 0x11002008]
  setRegisters := [0x14060808, 0x12345678, 0x1406080c, 0x12345674, 0x16030070, 0x1281,
    0x10050000, 0x0, 0x10060004, 23805, 0x10060008, 23805, 0x10060000, 0xff39,
    0x1041101c, 0x4, 0x14212030, 0x4, 0x104b00c4, 0x0, 0x143600c4, 0x0]
  clearRegisters := [0x1406040c, 0x800000]
  orRegisters := [0x14060704, 0x1, 0x104b00c8, 0x2, 0x143600c8, 0x2]
  pllEnable := [0x1a240220]

/-- From registers that read as zeros: the magic for TWRP, the watchdog, and the PLL that is on, its
output selected or not. -/
theorem gates_exact_star2lte : ∃ t : File,
    t 0x1406080c = 0x12345674 ∧ t 0x10060000 = 0xff39 ∧
      (t 0x1a240220 = 0x80000000 ∨ t 0x1a240220 = 0x80000010) := by
  have hgo : ∀ (r : File) (o : Op), ∃ r' maps a u, (soc fun _ => 0).Drift r r' ∧
      allMapped r' o maps = true ∧ (soc fun _ => 0).act o maps r' = some (a, u) := by
    intro r o
    cases o <;> exact ⟨r, true, _, _, .refl, rfl, rfl⟩
  obtain ⟨tr, ⟨⟩, t, hrun⟩ := exists_runs hgo (clkgateInit star2lte) (fun _ => 0)
  obtain ⟨selected, hlen, hexact⟩ := gates_exact star2lte hrun
  obtain ⟨on, rfl⟩ := List.length_eq_one_iff.mp hlen
  have hall : ∀ a, t a = (Regs.plan (star2lte.updates [on]) a).apply 0 := by
    intro a
    have h := hexact a
    change t a &&& BitVec.allOnes 32 = _ &&& BitVec.allOnes 32 at h
    rwa [BitVec.and_allOnes, BitVec.and_allOnes] at h
  refine ⟨t, ?_, ?_, ?_⟩
  · rw [hall]
    cases on <;> decide +kernel
  · rw [hall]
    cases on <;> decide +kernel
  · rw [hall]
    cases on with
    | false => exact .inl (by decide +kernel)
    | true => exact .inr (by decide +kernel)

end S9p.Clkgate
