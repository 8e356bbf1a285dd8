import S9p.Lib.Prog
import S9p.Lib.Ring
import S9p.Lib.Field
import S9p.Acpm.Matching
import S9p.Acpm.Backlog
import S9p.Acpm.Discipline
import S9p.Lib.Through
import S9p.Acpm.Sram
import S9p.Acpm.Codes
import S9p.G3d.Codes
import S9p.Acpm.Tool
import S9p.Acpm.Sharing
import S9p.Cpufreq.SetStep
import S9p.Cpufreq.Thermal
import S9p.Cpufreq.Qos
import S9p.G3d.Domain
import S9p.G3d.Mapping
import S9p.G3d.Gate
import S9p.G3d.Pll
import S9p.G3d.Cap
import S9p.G3d.Rail
import S9p.G3d.Restore
import S9p.G3d.Requests
import S9p.G3d.Provider
import S9p.Decon.Panel
import S9p.Decon.Scanout
import S9p.Lib.Path
import S9p.Lib.History
import S9p.Cpufreq.Target
import S9p.Lib.Bytes
import S9p.Lib.Sha1
import S9p.Boot.Image
import S9p.Boot.Fdt
import S9p.Boot.Pipeline
import S9p.Boot.Reference
import S9p.Boot.Table
import S9p.Boot.Tokens
import S9p.Lib.Runs
import S9p.Rootfs.Sparse
import S9p.Lib.Since
import S9p.Muic.Switch
import S9p.Ufs.Lanes
import S9p.Acpm.Touch
import S9p.Wifi.Stamp
import S9p.Lib.Edits
import S9p.PatchTree.Chip
import S9p.PatchTree.Script
import S9p.PatchTree.Repeat
import S9p.Lib.Fail
import S9p.Rootfs.Flash
import S9p.Lib.Reading
import S9p.Acpm.Exchange
import S9p.Acpm.Command
import S9p.Acpm.Effects
import S9p.Governor.Switch
import S9p.Governor.Periods
import S9p.Governor.Caps
import S9p.Governor.Evidence
import S9p.Boot.Flash
import S9p.Recorder.Blackbox
import S9p.Lib.Memory
import S9p.Loader.Str
import S9p.Loader.Console
import S9p.Loader.Handoff
import S9p.Lib.Latch
import S9p.Pcie.Intx
import S9p.Lib.Regs
import S9p.Usb.Phy
import S9p.Clkgate.Init
import S9p.Decon.Irq
import S9p.Ufs.Pma
import S9p.Charger.Max77705
import S9p.Cpufreq.Tmu
import S9p.Power.Profiles
