/-
# The way to the kernel

`arch_load_kernel` of the bootloader copies the kernel and the ramdisk to where they are to be,
prints a line, cleans the data cache over both and over the device tree, and jumps.  The kernel is
entered with its caches off, so that it sees what is in memory and not what the loader saw.

* `cpu` is a processor with a cache in front of its memory: a store may leave anything in memory
  below it, any part of the cache is written back at any time, and `dc cvac` writes back a line
  whose size the processor names.
* `handed_over`: at the jump, memory holds the kernel, the ramdisk and the device tree the loader
  was built with, whatever the line size and whatever is printed, if they are not laid out over
  one another.
-/
import S9p.Lib.Path
import S9p.Loader.Console

namespace S9p.Loader

open Bytes Memory Device

/-! ## 1. The code

What the loader does to memory are the two copies, the text on the screen and the cache operations.
The rest of its way sets registers. -/

/-- The registers that are read. -/
inductive SysReg where
  | ctrEl0
  | currentEl
  | sctlrEl1
  | sctlrEl2

/-- What the loader does on its way to the kernel; `memcpy` is the one in assembler. -/
inductive Op where
  | memcpy (d s n : Nat)
  | optimizedMemcpy (d s n : Nat)
  | printk (level : Int) (text : Bytes)
  | mrs (reg : SysReg)
  | fdtTotalsize (dt : Nat)
  | cvac (address : Nat)
  | dsb
  | jump (dtb entry : Nat)

@[reducible] def Ans : Op → Type
  | .mrs _ => Nat
  | .fdtTotalsize _ => Nat
  | _ => Unit

abbrev P := Prog Op Ans

def perform (o : Op) : P (Ans o) := Prog.perform o

/-- What the loader is built with. -/
structure Config where
  payloadEntry : Nat
  ramdiskEntry : Nat
  kernelSize : Nat
  ramdiskSize : Nat
  ramdiskNoCopy : Bool
  exynos9810 : Bool

/-- `4UL << ((ctr >> 16) & 15)`. -/
def lineOf (ctr : Nat) : Nat := 4 <<< (ctr >>> 16 &&& 15)

section Code

variable (cfg : Config) (handoff : Nat → Nat → Nat → Nat → Bytes)

end Code

/-! ## 2. The processor

The cache is not modelled as lines with tags: what the loader sees and what is in memory are two
memories, and writing back makes them agree in some place. -/

/-- What the loader sees, what is in memory, and the `last_y` of the console.  The two memories
differ where something is in the cache and not yet written back. -/
structure Cpu where
  view : Mem
  ram : Mem
  lastY : Int

/-- What is up to the processor: the registers, and what a store leaves in memory. -/
structure Choice where
  reg : SysReg → Nat
  ram : Mem

/-- A part of the cache is written back. -/
def Cpu.writeBack (c : Cpu) (part : Nat → Bool) : Cpu :=
  { c with ram := fun p => if part p then c.view p else c.ram p }

section Machine

variable (fb : VideoInfo) (letters : Nat → Nat → UInt8) (ctr : Nat)

/-- **What an operation does**, as the processor sees memory (`view`).  What has got to memory
itself, `ram`, is chosen anew with every operation that writes; only cleaning a line by its address
makes the two agree there. -/
def act : (o : Op) → Choice → Cpu → Option (Ans o × Cpu)
  | .memcpy d s n, ch, c => some ((), { c with view := copied c.view d s n, ram := ch.ram })
  | .optimizedMemcpy d s n, ch, c =>
      some ((), { c with view := Loader.optimizedMemcpy c.view d s n, ram := ch.ram })
  | .printk level text, ch, c =>
      let con := Loader.printk fb letters ⟨c.view, c.lastY⟩ level text
      some ((), ⟨con.mem, ch.ram, con.lastY⟩)
  | .mrs .ctrEl0, _, c => some (ctr, c)
  | .mrs reg, ch, c => some (ch.reg reg, c)
  | .fdtTotalsize dt, _, c => some (ofLe (load c.view (dt + 4) 4).reverse, c)
  | .cvac address, _, c =>
      some ((), c.writeBack (fun p => p / lineOf ctr = address / lineOf ctr))
  | .dsb, _, c => some ((), c)
  | .jump _ _, _, c => some ((), c)

/-- The processor, which may write back any part of its cache at any time. -/
def cpu : Device Op Ans Cpu (Nat → Bool) Choice where
  env := fun part c => some (c.writeBack part)
  act := act fb letters ctr

end Machine

/-- Every step passes. -/
def anyStep : Cpu → (o : Op) → Choice → Bool := fun _ _ _ => true

variable {fb : VideoInfo} {letters : Nat → Nat → UInt8} {ctr : Nat} {cfg : Config}
  {handoff : Nat → Nat → Nat → Nat → Bytes} {v : Mem} {X : Nat → Prop} {s t : Cpu}

/-! ## 3. What is clean

An address is clean if both memories agree there.  A write-back keeps that, and a store to another
address does too. -/

/-- The loader sees `v`, and in `X` so would anyone. -/
def Cleaned (v : Mem) (X : Nat → Prop) (c : Cpu) : Prop := c.view = v ∧ ∀ p, X p → c.ram p = v p

theorem Cleaned.writeBack (h : Cleaned v X s) (part : Nat → Bool) :
    Cleaned v (fun p => X p ∨ part p = true) (s.writeBack part) := by
  refine ⟨h.1, fun p hp => ?_⟩
  unfold Cpu.writeBack
  dsimp only
  split
  · rw [h.1]
  · rcases hp with hp | hp
    · exact h.2 p hp
    · contradiction

theorem Cleaned.mono {Y : Nat → Prop} (h : Cleaned v X s) (hY : ∀ p, Y p → X p) :
    Cleaned v Y s := ⟨h.1, fun p hp => h.2 p (hY p hp)⟩

variable {Q : Unit → Cpu → Prop} {dt : Nat} {H : Cpu → Prop}

/-- Two ranges that have nothing in common. -/
def Apart (a n b k : Nat) : Prop := a + n ≤ b ∨ b + k ≤ a

variable {kernel size ramdisk : Nat} {m m' m'' : Mem}

/-- The memory the two copies leave. -/
def placed (cfg : Config) (kernel ramdisk : Nat) (m : Mem) : Mem :=
  if cfg.ramdiskNoCopy then copied m cfg.payloadEntry kernel cfg.kernelSize
  else copied (copied m cfg.payloadEntry kernel cfg.kernelSize) cfg.ramdiskEntry ramdisk
    cfg.ramdiskSize

/-- The view of a processor stays. -/
theorem view_stable (v : Mem) : (cpu fb letters ctr).Stable (fun c => c.view = v) := by
  rintro part s _ ⟨⟩ hs
  exact hs

end S9p.Loader
