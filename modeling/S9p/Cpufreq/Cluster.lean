/-
# The two CPU clusters and their tables

The static data of `src/cpufreq/s9p-cpufreq.c`: the PLL steps with their voltages, the thermal
levels, and the two clusters with the registers they are driven through.
-/
import Mathlib.Data.BitVec

namespace S9p.Cpufreq

/-! ## 1. PLL steps

The steps fall.  Their voltages are BUCK selectors, and a selector is compared with another one as a
number. -/

structure PllStep where
  freqKhz : Nat
  m : BitVec 16
  p : BitVec 8
  s : BitVec 8
  vsel : BitVec 8
  deriving DecidableEq

def stepsLittle : List PllStep := [
  ⟨1794000, 138, 2, 0, 0x70⟩,
  ⟨1499333, 173, 3, 0, 0x60⟩,
  ⟨1150500, 354, 4, 1, 0x58⟩,
  ⟨650000, 200, 4, 1, 0x50⟩,
  ⟨349916, 323, 6, 2, 0x4b⟩]

def stepsBig : List PllStep := [
  ⟨2704000, 208, 2, 0, 0x88⟩,
  ⟨2327000, 358, 4, 0, 0x7c⟩,
  ⟨1794000, 138, 2, 0, 0x60⟩,
  ⟨1469000, 452, 4, 1, 0x58⟩,
  ⟨1066000, 246, 3, 1, 0x48⟩,
  ⟨400000, 200, 13, 0, 0x40⟩]

/-! ## 2. Thermal levels

The first level has no temperature of its own: it is the one that is left when no other is reached.
-/

/-- Enter a level at `upAt` degrees. -/
structure ThermalLevel where
  maxKhz : Nat
  upAt : Int
  deriving DecidableEq

def THERMAL_HYST : Int := 8
def THERMAL_HOLD_MS : Int := 2000

def thermalBig : List ThermalLevel :=
  [⟨2704000, 0⟩, ⟨2327000, 72⟩, ⟨1794000, 80⟩, ⟨1469000, 84⟩, ⟨1066000, 88⟩]

def thermalLittle : List ThermalLevel := [⟨1794000, 0⟩, ⟨1499333, 76⟩, ⟨1150500, 86⟩]

def thermalGpu : List ThermalLevel := [⟨572000, 0⟩, ⟨455000, 80⟩, ⟨260000, 90⟩]

/-! ## 3. Clusters

Two clusters, with the same code and tables of their own. -/

/-- Which entry of `s9p_clusters`. -/
inductive ClusterId where
  | little
  | big
  deriving DecidableEq

/-- The S2MPS18 BUCK register of the cluster. -/
def ClusterId.buckReg : ClusterId → BitVec 8
  | .little => 0x23
  | .big => 0x20

def ClusterId.steps : ClusterId → List PllStep
  | .little => stepsLittle
  | .big => stepsBig

def ClusterId.thermal : ClusterId → List ThermalLevel
  | .little => thermalLittle
  | .big => thermalBig

/-- The top step proven under load. -/
def ClusterId.safeMax : ClusterId → Nat
  | .little => 1499333
  | .big => 2327000

end S9p.Cpufreq
