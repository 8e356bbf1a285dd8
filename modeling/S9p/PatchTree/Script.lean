/-
# The script

The edits of `patch_tree.py` in their order, each with its file, its marker and its texts.  All of
them are data, but for the one of chip.c: what the theorems need of the others is decided by
evaluation.

The script is one file of Python with its edits one after the other.  An edit here has the texts it
looks for and the texts it puts in, letter for letter, since whether a marker survives a later edit
is a question about these letters.
-/
import S9p.PatchTree.Change

namespace S9p.PatchTree

open Edits

/-! ## 1. Steps

Three kinds of edit make up the script: one that replaces, one that inserts at a place, and one that
appends.  Several edits of one file may share the text that has been read. -/

/-- What the script does with one file, one time. -/
inductive Step
  /-- The edits, each under its marker.  Once, the text is the one in memory and not the file's. -/
  | edits (path : String) (fromCopy : Bool) (guards : List Guard)
  /-- The edit of chip.c. -/
  | chip

def chipC : String := "drivers/net/wireless/broadcom/brcm80211/brcmfmac/chip.c"

/-- The file that a step reads and writes. -/
def Step.path : Step → String
  | edits path _ _ => path
  | chip => chipC

/-- The step as an edit of a tree of files. -/
def Step.edit : Step → Edit String Txt
  | edits path fromCopy guards => Edits.edit path (guards.map Guard.guarded) fromCopy
  | chip => ⟨chipC, false, PatchTree.chip⟩

/-- A text of the script, line by line. -/
def lines (ls : List String) : Txt := ls.flatMap chars

/-- `replace(anchor, anchor + text, 1)`. -/
def after (anchor text : Txt) : Change := .replace anchor (anchor ++ text)

/-- `replace(anchor, text + anchor, 1)`. -/
def before (anchor text : Txt) : Change := .replace anchor (text ++ anchor)

/-- `insert_before(path, anchor, text, marker)`. -/
def insertBefore (path : String) (anchor text marker : Txt) : Step :=
  .edits path false [⟨marker, [before anchor text]⟩]

/-- `insert_after(path, anchor, text, marker)`. -/
def insertAfter (path : String) (anchor text marker : Txt) : Step :=
  .edits path false
    [⟨marker, [if (chars "\n") <:+ anchor then after anchor text else .afterLine anchor text]⟩]

/-! ## 2. The edits

Each definition is one step of the script, under the name of the file or of the variable that holds
its text.  They stand in the order in which the script makes them, those of one file next to each
other where the script has them so. -/

def ufsMakefile : Step :=
  insertAfter "drivers/ufs/host/Makefile"
    (chars "obj-$(CONFIG_SCSI_UFS_EXYNOS) += ufs-exynos.o")
    (chars "obj-$(CONFIG_SCSI_UFS_EXYNOS9810) += ufs-exynos9810.o ufs-cal-9810.o\n")
    (chars "SCSI_UFS_EXYNOS9810")

def ufsKconfigText : Txt := lines [
  "config SCSI_UFS_EXYNOS9810\n",
  "\ttristate \"Exynos 9810 UFS host controller driver\"\n",
  "\tdepends on SCSI_UFSHCD_PLATFORM && (ARCH_EXYNOS || COMPILE_TEST)\n",
  "\thelp\n",
  "\t  UFS host support for the Samsung Exynos 9810, whose PHY and UNIPRO\n",
  "\t  calibration differs from every variant ufs-exynos.c covers. Uses\n",
  "\t  Samsung's own ufs-cal-9810 sequence, unchanged from the vendor kernel.\n",
  "\n"]

def ufsKconfig : Step :=
  insertBefore "drivers/ufs/host/Kconfig" (chars "config SCSI_UFS_VARIABLE_SG_ENTRY_SIZE\n")
    ufsKconfigText (chars "SCSI_UFS_EXYNOS9810")

def ufsDefault : Step :=
  insertAfter "drivers/ufs/host/Kconfig"
    (chars "\tdefault y if SCSI_UFS_EXYNOS && SCSI_UFS_CRYPTO\n")
    (chars "\tdefault y if SCSI_UFS_EXYNOS9810\n")
    (chars "default y if SCSI_UFS_EXYNOS9810")

def clkgate : Step :=
  insertAfter "drivers/soc/samsung/Makefile" (chars "obj-$(CONFIG_EXYNOS_PMU)")
    (chars "obj-y\t\t\t\t+= s9p-clkgate.o\n") (chars "s9p-clkgate.o")

def g3dPd : Step :=
  insertAfter "drivers/soc/samsung/Makefile" (chars "s9p-clkgate.o")
    (chars "obj-y\t\t\t\t+= s9p-g3d-pd.o\n") (chars "s9p-g3d-pd.o")

def muic : Step :=
  insertAfter "drivers/soc/samsung/Makefile" (chars "s9p-g3d-pd.o")
    (chars "obj-$(CONFIG_I2C)\t\t+= s9p-max77705-muic.o\n") (chars "s9p-max77705-muic.o")

def phyMakefile : Step :=
  insertAfter "drivers/phy/samsung/Makefile"
    (chars "phy-exynos5-usbdrd.o")
    (chars "obj-$(CONFIG_GENERIC_PHY)\t+= phy-exynos9810-usbdrd.o\n")
    (chars "phy-exynos9810-usbdrd.o")

def bootfbMakefile : Step :=
  insertAfter "drivers/gpu/drm/sysfb/Makefile" (chars "simpledrm.o")
    (chars "obj-$(CONFIG_DRM_EXYNOS_BOOTFB)\t+= exynos-bootfb.o\n") (chars "DRM_EXYNOS_BOOTFB")

def fbKconfigText : Txt := lines [
  "config DRM_EXYNOS_BOOTFB\n",
  "\ttristate \"Exynos bootloader framebuffer (KMS device named exynos)\"\n",
  "\tdepends on DRM && MMU\n",
  "\tselect APERTURE_HELPERS\n",
  "\tselect DRM_CLIENT_SELECTION\n",
  "\tselect DRM_GEM_SHMEM_HELPER\n",
  "\tselect DRM_KMS_HELPER\n",
  "\tselect DRM_SYSFB_HELPER\n",
  "\thelp\n",
  "\t  simpledrm under a different name. Samsung's DECON keeps scanning out\n",
  "\t  the framebuffer the bootloader set up, so that buffer works as a\n",
  "\t  scanout without a display driver -- and calling the device \"exynos\"\n",
  "\t  is what makes Mesa pair it with the Panfrost render node.\n",
  "\n"]

def fbKconfig : Step :=
  insertBefore "drivers/gpu/drm/sysfb/Kconfig" (chars "config DRM_SIMPLEDRM\n")
    fbKconfigText (chars "DRM_EXYNOS_BOOTFB")

def i2cPath : String := "drivers/i2c/busses/i2c-exynos5.c"

def i2cTimeLeft : Txt := lines [
  "\tif (time_left == 0)\n",
  "\t\tret = -ETIMEDOUT;\n"]

def i2cDiagText : Txt := lines [
  "\tif (time_left == 0 && !i2c->atomic &&\n",
  "\t    exynos5_i2c_poll_irqs_timeout(i2c, msecs_to_jiffies(20))) \x7b\n",
  "\t\tdev_warn_once(i2c->dev, \"S9P: transfer finished but its interrupt (%d, %u so far) never ",
  "arrived; polled\\n\",\n",
  "\t\t\t      i2c->irq, kstat_irqs_usr(i2c->irq));\n",
  "\t\ttime_left = 1;\n",
  "\t\x7d\n",
  "\tif (time_left == 0) \x7b\n",
  "\t\tret = -ETIMEDOUT;\n",
  "\t\tdev_err(i2c->dev, \"S9P %s addr=%02x len=%d irq=%d(%u): ctl=%08x fifoctl=%08x inten=%08x ",
  "intst=%08x fifost=%08x conf=%08x auto=%08x to=%08x trans=%08x fs=%08x/%08x/%08x usi_con=%08x ",
  "usi_opt=%08x\\n\",\n",
  "\t\t\t(msgs->flags & I2C_M_RD) ? \"rd\" : \"wr\", msgs->addr, msgs->len,\n",
  "\t\t\ti2c->irq, kstat_irqs_usr(i2c->irq),\n",
  "\t\t\treadl(i2c->regs + 0x00), readl(i2c->regs + 0x04),\n",
  "\t\t\treadl(i2c->regs + 0x20), readl(i2c->regs + 0x24),\n",
  "\t\t\treadl(i2c->regs + 0x30), readl(i2c->regs + 0x40),\n",
  "\t\t\treadl(i2c->regs + 0x44), readl(i2c->regs + 0x48),\n",
  "\t\t\treadl(i2c->regs + 0x50), readl(i2c->regs + 0x60),\n",
  "\t\t\treadl(i2c->regs + 0x64), readl(i2c->regs + 0x68),\n",
  "\t\t\treadl(i2c->regs + 0xc4), readl(i2c->regs + 0xc8));\n",
  "\t\x7d\n"]

def i2cDiag : Step :=
  .edits i2cPath false [⟨chars "S9P_I2C_DIAG",
    [after (chars "#include <linux/i2c.h>\n")
      (chars "#include <linux/kernel_stat.h> /* S9P_I2C_DIAG */\n"),
     .replaceOnly i2cTimeLeft i2cDiagText]⟩]

def gemCreate : Txt := lines [
  "\tshmem = drm_gem_shmem_create(dev, size);\n",
  "\tif (IS_ERR(shmem))\n",
  "\t\treturn ERR_CAST(shmem);\n"]

def gemMask : Txt := lines [
  "\n",
  "\t/* S9P_GEM_DMA32: below 4 GB, so KMS can scan this out directly */\n",
  "\tmapping_set_gfp_mask(shmem->base.filp->f_mapping,\n",
  "\t\t\t     (mapping_gfp_mask(shmem->base.filp->f_mapping)\n",
  "\t\t\t      & ~__GFP_HIGHMEM) | __GFP_DMA32);\n"]

def gem : Step :=
  .edits "drivers/gpu/drm/panfrost/panfrost_gem.c" false [⟨chars "S9P_GEM_DMA32",
    [after gemCreate gemMask,
     .afterOrFirst (chars "#include <linux/err.h>\n") (chars "#include")
      (chars "#include <linux/pagemap.h> /* S9P_GEM_DMA32 */\n")]⟩]

def pjPath : String := "drivers/gpu/drm/panfrost/panfrost_job.c"

def flushParam : Txt := lines [
  "\n",
  "#include <linux/moduleparam.h> /* S9P_FLUSH */\n",
  "static bool s9p_flush_reduction = true;\n",
  "module_param_named(s9p_flush_reduction, s9p_flush_reduction, bool, 0644);\n",
  "MODULE_PARM_DESC(s9p_flush_reduction, \"use JS_CONFIG_ENABLE_FLUSH_REDUCTION on GPUs that ",
  "offer it (S9P experiment)\");\n"]

def jobFlush : Step :=
  .edits pjPath false [⟨chars "S9P_FLUSH",
    [.replaceOnly (chars "cfg |= JS_CONFIG_ENABLE_FLUSH_REDUCTION;")
      (chars "cfg |= s9p_flush_reduction ? JS_CONFIG_ENABLE_FLUSH_REDUCTION : 0; /* S9P_FLUSH */"),
     .beforeFirst (lines [
      "\n",
      "static "]) flushParam]⟩]

def jobInclude : Step :=
  insertBefore "drivers/gpu/drm/panfrost/panfrost_job.h"
    (chars "#include <uapi/drm/panfrost_drm.h>")
    (chars "#include <linux/sched.h> /* S9P_JOB_OWNER_INCLUDE */\n")
    (chars "S9P_JOB_OWNER_INCLUDE")

def jobFields : Step :=
  insertAfter "drivers/gpu/drm/panfrost/panfrost_job.h" (chars "struct panfrost_job \x7b\n")
    (lines [
      "\tpid_t submitter_tgid; /* S9P_JOB_OWNER */\n",
      "\tchar submitter_comm[TASK_COMM_LEN];\n"]) (chars "S9P_JOB_OWNER */")

def drvOwner : Step :=
  insertAfter "drivers/gpu/drm/panfrost/panfrost_drv.c" (chars "\tjob->pfdev = pfdev;\n")
    (lines [
      "\tjob->submitter_tgid = task_tgid_nr(current); /* S9P_JOB_OWNER */\n",
      "\tget_task_comm(job->submitter_comm, current);\n"]) (chars "S9P_JOB_OWNER")

def jobFault : Txt := lines [
  "\t\x7d else \x7b\n",
  "\t\tdev_err(pfdev->base.dev, \"js fault,"]

def jobDiagnostic : Txt := lines [
  "\t\x7d else \x7b\n",
  "\t\t/* S9P_JOB_OWNER: record the actual ioctl submitter. */\n",
  "\t\tdev_err(pfdev->base.dev, \"job owner=%s tgid=%d bos=%u jc=%#llx\\n\",\n",
  "\t\t\tjob->submitter_comm, job->submitter_tgid, job->bo_count, job->jc);\n",
  "\t\tdev_err(pfdev->base.dev, \"js fault,"]

def jobOwner : Step :=
  .edits pjPath false [⟨chars "S9P_JOB_OWNER", [.replaceOnly jobFault jobDiagnostic]⟩]

def beginCpuAccess : Txt := chars "\tret = drm_gem_fb_begin_cpu_access(fb, DMA_FROM_DEVICE);\n"

def fbSync : Txt := lines [
  "\tif (fb->obj[0] && !drm_gem_is_imported(fb->obj[0])) \x7b /* S9P_FB_SYNC */\n",
  "\t\tstruct sg_table *s9p_sgt = ",
  "drm_gem_shmem_get_pages_sgt(to_drm_gem_shmem_obj(fb->obj[0]));\n",
  "\t\tif (!IS_ERR_OR_NULL(s9p_sgt))\n",
  "\t\t\tdma_sync_sgtable_for_cpu(dev->dev, s9p_sgt, DMA_FROM_DEVICE);\n",
  "\t\x7d\n"]

def sysfbModeset : Step :=
  .edits "drivers/gpu/drm/sysfb/drm_sysfb_modeset.c" false [⟨chars "S9P_FB_SYNC",
    [before (chars "#include \"drm_sysfb_helper.h\"\n")
      (lines [
        "#include <linux/dma-mapping.h> /* S9P_FB_SYNC */\n",
        "#include <drm/drm_gem_shmem_helper.h>\n"]),
     .replaceOnly beginCpuAccess (fbSync ++ beginCpuAccess)]⟩]

def deviceCreate : Txt :=
  (chars "\tsdev = exynos_bootfb_device_create(&exynos_bootfb_driver, pdev);\n")

def dmaMask : Txt := lines [
  "\tret = dma_set_mask_and_coherent(&pdev->dev, DMA_BIT_MASK(40)); /* S9P_FB_SYNC */\n",
  "\tif (ret)\n",
  "\t\treturn ret;\n"]

def bootfb : Step :=
  .edits "drivers/gpu/drm/sysfb/exynos-bootfb.c" false [⟨chars "S9P_FB_SYNC",
    [after (chars "#include <linux/aperture.h>\n")
      (chars "#include <linux/dma-mapping.h> /* S9P_FB_SYNC */\n"),
     .replaceOnly deviceCreate (dmaMask ++ deviceCreate)]⟩]

def i2cAutov9 : Txt := lines [
  "\tif (i2c->variant->hw == I2C_TYPE_EXYNOSAUTOV9) \x7b\n",
  "\t\tdiv = ((clkin / (16 * i2c->op_clock)) - 1);\n",
  "\t\ti2c_timing_s3 = div << 16;\n",
  "\t\tif (hs_timings)\n",
  "\t\t\twritel(i2c_timing_s3, i2c->regs + HSI2C_TIMING_HS3);\n",
  "\t\telse\n",
  "\t\t\twritel(i2c_timing_s3, i2c->regs + HSI2C_TIMING_FS3);\n",
  "\n",
  "\t\treturn 0;\n",
  "\t\x7d\n"]

def i2cTimingText : Txt := lines [
  "\tif (i2c->variant->hw == I2C_TYPE_EXYNOSAUTOV9) \x7b /* S9P_I2C_TIMING */\n",
  "\t\tunsigned int mhz = clkin / 1000000, n, s1, s2, s3;\n",
  "\t\tvoid __iomem *r1 = i2c->regs + (hs_timings ? HSI2C_TIMING_HS1 : HSI2C_TIMING_FS1);\n",
  "\t\tvoid __iomem *r2 = i2c->regs + (hs_timings ? HSI2C_TIMING_HS2 : HSI2C_TIMING_FS2);\n",
  "\t\tvoid __iomem *r3 = i2c->regs + (hs_timings ? HSI2C_TIMING_HS3 : HSI2C_TIMING_FS3);\n",
  "\n",
  "\t\t/* vendor: div = ipclk / (op * 15), shapes from ipclk in MHz */\n",
  "\t\tdiv = (clkin / (op_clk * 15)) & 0xff;\n",
  "\t\tif (hs_timings)\n",
  "\t\t\tn = (7 * mhz) / ((div + 1) * 100);\n",
  "\t\telse\n",
  "\t\t\tn = (9 * mhz) / ((div + 1) * 10);\n",
  "\t\tif (n > 7)\n",
  "\t\t\tn = 7;\n",
  "\t\ts2 = ((0xffffffffu >> n) << n) & 0xff;\t\t/* TSCL_H */\n",
  "\t\tn = n ? n - 1 : 0;\n",
  "\t\ts1 = ((0xffffffffu >> n) << n) & 0xff;\t\t/* TSTART_HD */\n",
  "\t\ts3 = (readl(r3) & ~0x00ff0000) | (div << 16);\n",
  "\t\twritel(s3, r3);\n",
  "\t\twritel((readl(r2) & ~0xff) | s2, r2);\n",
  "\t\twritel((readl(r1) & ~0x00ff0000) | (s1 << 16), r1);\n",
  "\t\tdev_info(i2c->dev, \"S9P timing %s: ipclk=%u op=%u div=%u -> scl=%u Hz, t1=%08x t2=%08x ",
  "t3=%08x\\n\",\n",
  "\t\t\t hs_timings ? \"HS\" : \"FS\", clkin, op_clk, div,\n",
  "\t\t\t clkin / ((div + 1) * 16), readl(r1), readl(r2), readl(r3));\n",
  "\t\treturn 0;\n",
  "\t\x7d\n"]

/-- The text of i2c-exynos5.c is the one that was read before `i2cDiag`.  So it works on a copy, and
what it writes has the earlier edit in it all the same. -/
def i2cTiming : Step :=
  .edits i2cPath true [⟨chars "S9P_I2C_TIMING", [.replaceOnly i2cAutov9 i2cTimingText]⟩]

def acpm : Step :=
  insertAfter "drivers/soc/samsung/Makefile" (chars "s9p-max77705-muic.o")
    (chars "obj-$(CONFIG_S9P_ACPM)\t\t+= s9p-acpm.o\n") (chars "s9p-acpm.o")

def g3d : Step :=
  insertAfter "drivers/soc/samsung/Makefile" (chars "s9p-acpm.o")
    (chars "obj-$(CONFIG_S9P_ACPM)\t\t+= s9p-g3d.o\n") (chars "s9p-g3d.o")

def acpmKconfig : Txt := lines [
  "config S9P_ACPM\n",
  "\tbool \"ACPM MFD mailbox access (Exynos 9810 S2MPS18)\"\n",
  "\tdepends on ARCH_EXYNOS\n",
  "\thelp\n",
  "\t  The S2MPS18 main PMIC is behind the APM firmware; this speaks the\n",
  "\t  vendor acpm_ipc/acpm_mfd protocol (channel 2) so in-kernel code can\n",
  "\t  set BUCK rails. Used by s9p-cpufreq and s9p-g3d.\n",
  "\n"]

def socKconfig : Step :=
  .edits "drivers/soc/samsung/Kconfig" false [⟨chars "config S9P_ACPM", [.append acpmKconfig]⟩]

def cpufreqMakefile : Step :=
  .edits "drivers/cpufreq/Makefile" false [⟨chars "s9p-cpufreq.o",
    [.append (chars "obj-$(CONFIG_ARM_S9P_CPUFREQ) += s9p-cpufreq.o\n")]⟩]

def cpufreqKconfigText : Txt := lines [
  "config ARM_S9P_CPUFREQ\n",
  "\tbool \"cpufreq for the Samsung Exynos 9810 (Galaxy S9+)\"\n",
  "\tdepends on ARM64\n",
  "\tselect S9P_ACPM\n",
  "\thelp\n",
  "\t  Scales both clusters with the vendor PLL table entries and sets the\n",
  "\t  BUCK rails through the APM firmware. The ACPM DVFS plugin refuses\n",
  "\t  this port, so the vendor's own acme path is not available.\n",
  "\n"]

def cpufreqKconfig : Step :=
  .edits "drivers/cpufreq/Kconfig" false [⟨chars "ARM_S9P_CPUFREQ", [.append cpufreqKconfigText]⟩]

def drmMakefile : Step :=
  .edits "drivers/gpu/drm/Makefile" false [⟨chars "s9p/",
    [.append (chars "obj-$(CONFIG_DRM_S9P_DECON) += s9p/\n")]⟩]

def drmKconfig : Step :=
  .edits "drivers/gpu/drm/Kconfig" false [⟨chars "s9p/Kconfig\"",
    [after (chars "source \"drivers/gpu/drm/xlnx/Kconfig\"\n")
      (chars "source \"drivers/gpu/drm/s9p/Kconfig\"\n")]⟩]

def hwIds : Step :=
  .edits "drivers/net/wireless/broadcom/brcm80211/include/brcm_hw_ids.h" false
    [⟨chars "BRCM_CC_4361_CHIP_ID",
      [after (chars "#define BRCM_CC_4359_CHIP_ID\t\t0x4359\n")
        (chars "#define BRCM_CC_4361_CHIP_ID\t\t0x4361\n")]⟩,
     ⟨chars "BRCM_PCIE_4361_DEVICE_ID",
      [after (chars "#define BRCM_PCIE_4359_DEVICE_ID\t0x43ef\n")
        (lines [
          "#define BRCM_PCIE_4361_DEVICE_ID\t\t0x441f\n",
          "#define BRCM_PCIE_4361_2G_DEVICE_ID\t0x4420\n",
          "#define BRCM_PCIE_4361_5G_DEVICE_ID\t0x4421\n"])]⟩]

def pcieC : Step :=
  .edits "drivers/net/wireless/broadcom/brcm80211/brcmfmac/pcie.c" false
    [⟨chars "BRCMF_FW_CLM_DEF(4361",
      [after (chars "BRCMF_FW_DEF(4359, \"brcmfmac4359-pcie\");")
        (lines [
          "\n",
          "BRCMF_FW_CLM_DEF(4361, \"brcmfmac4361-pcie\");"])]⟩,
     ⟨chars "BRCMF_FW_ENTRY(BRCM_CC_4361_CHIP_ID",
      [after (chars "\tBRCMF_FW_ENTRY(BRCM_CC_4359_CHIP_ID, 0x000001FF, 4359),")
        (lines [
          "\n",
          "\tBRCMF_FW_ENTRY(BRCM_CC_4361_CHIP_ID, 0xFFFFFFFF, 4361),"])]⟩,
     ⟨chars "BRCM_PCIE_4361_DEVICE_ID, WCC",
      [after (chars "\tBRCMF_PCIE_DEVICE(BRCM_PCIE_4359_DEVICE_ID, WCC),")
        (lines [
          "\n",
          "\tBRCMF_PCIE_DEVICE(BRCM_PCIE_4361_DEVICE_ID, WCC),\n",
          "\tBRCMF_PCIE_DEVICE(BRCM_PCIE_4361_2G_DEVICE_ID, WCC),\n",
          "\tBRCMF_PCIE_DEVICE(BRCM_PCIE_4361_5G_DEVICE_ID, WCC),"])]⟩,
     ⟨chars "brcmf_pcie_probe: defer",
      [.replace
        (lines [
          "\t\tret = PTR_ERR(devinfo->ci);\n",
          "\t\tdevinfo->ci = NULL;\n",
          "\t\tgoto fail;\n"])
        (lines [
          "\t\tret = PTR_ERR(devinfo->ci);\n",
          "\t\tif (ret == -ENODEV)\t/* brcmf_pcie_probe: defer, chip not ready yet */\n",
          "\t\t\tret = -EPROBE_DEFER;\n",
          "\t\tdevinfo->ci = NULL;\n",
          "\t\tgoto fail;\n"])]⟩]

def commonringH : Step :=
  .edits "drivers/net/wireless/broadcom/brcm80211/brcmfmac/commonring.h" false [⟨chars "stamp_ptr",
    [after (chars "\tbool was_full;\n")
      (lines [
        "\n",
        "\t/* H2D item stamping: next unstamped item, phase bit, sequence */\n",
        "\tu16 stamp_ptr;\n",
        "\tu8 phase;\n",
        "\tu32 seqnum;\n"])]⟩]

def commonringHelper : Txt := lines [
  "/*\n",
  " * Every host-to-dongle work item carries a per-ring sequence number in\n",
  " * the common header's 4th byte (\"epoch\") and a phase bit in the flags\n",
  " * byte, the way Broadcom's DHD stamps them: epoch = seqnum % 253 with\n",
  " * seqnum starting at 254, phase (bit 7) flipped whenever an allocation\n",
  " * lands on the ring base. Firmware that verifies them (BCM4361 B2)\n",
  " * rejects unstamped items with ring status BADOPTION.\n",
  " */\n",
  "#define BRCMF_H2D_EPOCH_MODULO\t253\n",
  "#define BRCMF_H2D_EPOCH_INIT\t(BRCMF_H2D_EPOCH_MODULO + 1)\n",
  "#define BRCMF_H2D_PHASE_BIT\t0x80\n",
  "\n",
  "static void brcmf_commonring_stamp(struct brcmf_commonring *commonring)\n",
  "\x7b\n",
  "\tu8 *item;\n",
  "\n",
  "\twhile (commonring->stamp_ptr != commonring->w_ptr) \x7b\n",
  "\t\tif (commonring->stamp_ptr == 0)\n",
  "\t\t\tcommonring->phase ^= BRCMF_H2D_PHASE_BIT;\n",
  "\t\titem = commonring->buf_addr +\n",
  "\t\t       commonring->stamp_ptr * commonring->item_len;\n",
  "\t\titem[2] = (item[2] & ~BRCMF_H2D_PHASE_BIT) | commonring->phase;\n",
  "\t\titem[3] = commonring->seqnum % BRCMF_H2D_EPOCH_MODULO;\n",
  "\t\tcommonring->seqnum++;\n",
  "\t\tcommonring->stamp_ptr++;\n",
  "\t\tif (commonring->stamp_ptr == commonring->depth)\n",
  "\t\t\tcommonring->stamp_ptr = 0;\n",
  "\t\x7d\n",
  "\x7d\n",
  "\n"]

def commonringC : Step :=
  .edits "drivers/net/wireless/broadcom/brcm80211/brcmfmac/commonring.c" false
    [⟨chars "brcmf_commonring_stamp",
      [before
        (chars "void brcmf_commonring_config(struct brcmf_commonring *commonring, u16 depth,")
        commonringHelper,
       .replace
        (lines [
          "\tcommonring->f_ptr = 0;\n",
          "\x7d\n"])
        (lines [
          "\tcommonring->f_ptr = 0;\n",
          "\tcommonring->stamp_ptr = 0;\n",
          "\tcommonring->phase = 0;\n",
          "\tcommonring->seqnum = BRCMF_H2D_EPOCH_INIT;\n",
          "\x7d\n"]),
       after
        (lines [
          "int brcmf_commonring_write_complete(struct brcmf_commonring *commonring)\n",
          "\x7b\n"])
        (lines [
          "\tbrcmf_commonring_stamp(commonring);\n",
          "\n"])]⟩]

def dwcMakefile : Step :=
  insertAfter "drivers/pci/controller/dwc/Makefile"
    (chars "obj-$(CONFIG_PCI_EXYNOS) += pci-exynos.o\n")
    (chars "obj-$(CONFIG_PCIE_EXYNOS9810) += pcie-exynos9810.o\n")
    (chars "PCIE_EXYNOS9810")

def pcieKconfigText : Txt := lines [
  "config PCIE_EXYNOS9810\n",
  "\ttristate \"Samsung Exynos 9810 PCIe host controller (WiFi)\"\n",
  "\tdepends on PCI && OF && ARM64 && PCI_MSI\n",
  "\tselect PCIE_DW_HOST\n",
  "\tselect PCIE_DW\n",
  "\thelp\n",
  "\t  PCIe channel 0 of the Exynos 9810, wired to the WiFi module on the\n",
  "\t  Galaxy S9/S9+. The PHY is programmed with Samsung's own CAL sequence\n",
  "\t  from the driver; the single endpoint is served with MSI only.\n",
  "\n"]

def dwcKconfig : Step :=
  insertBefore "drivers/pci/controller/dwc/Kconfig" (chars "config PCIE_DW_EP\n")
    pcieKconfigText (chars "PCIE_EXYNOS9810")

def psciInclude : Step :=
  insertAfter "arch/arm64/kernel/psci.c" (chars "#include <linux/of.h>\n")
    (chars "#include <linux/io.h>\n") (chars "#include <linux/io.h>")

def m3Defaults : Txt := lines [
  "/* S9P-VENDOR-DEFAULTS: Samsung 4.9.59 pmucal_lpm_init, CPUCL1 entries. */\n",
  "static bool s9p_vendor_m3_defaults;\n",
  "\n",
  "static int __init s9p_vendor_m3_defaults_param(char *unused)\n",
  "\x7b\n",
  "\ts9p_vendor_m3_defaults = true;\n",
  "\treturn 0;\n",
  "\x7d\n",
  "early_param(\"s9p_vendor_m3_defaults\", s9p_vendor_m3_defaults_param);\n",
  "\n",
  "static int s9p_apply_vendor_m3_defaults(unsigned int cpu)\n",
  "\x7b\n",
  "\tstatic const struct \x7b\n",
  "\t\tu32 offset, mask, value;\n",
  "\t\x7d seq[] = \x7b\n",
  "\t\t/* CPU_QCH_CLUSTER1_NONCPU_SYS_PWR_REG */\n",
  "\t\t\x7b 0x1088, 0xff000000, 0x8d000000 \x7d,\n",
  "\t\t/* MEMORY_CLUSTER1_CPU[0..3]_OPTION and NONCPU_OPTION */\n",
  "\t\t\x7b 0x2114, 3, 2 \x7d,\n",
  "\t\t\x7b 0x2180, 3, 2 \x7d,\n",
  "\t\t\x7b 0x21ec, 3, 2 \x7d,\n",
  "\t\t\x7b 0x2258, 3, 2 \x7d,\n",
  "\t\t\x7b 0x2384, 3, 2 \x7d,\n",
  "\t\x7d;\n",
  "\tvoid __iomem *pmu;\n",
  "\tunsigned int i;\n",
  "\tint err = 0;\n",
  "\n",
  "\tif (!s9p_vendor_m3_defaults ||\n",
  "\t    !of_machine_is_compatible(\"samsung,exynos9810\") ||\n",
  "\t    (cpu_logical_map(cpu) & ~3ULL) != 0x100)\n",
  "\t\treturn 0;\n",
  "\tpmu = ioremap(0x14060000, 0x8000);\n",
  "\tif (!pmu)\n",
  "\t\treturn -ENOMEM;\n",
  "\tfor (i = 0; i < ARRAY_SIZE(seq); i++) \x7b\n",
  "\t\tu32 before = readl(pmu + seq[i].offset);\n",
  "\t\tu32 after;\n",
  "\n",
  "\t\twritel((before & ~seq[i].mask) | seq[i].value,\n",
  "\t\t       pmu + seq[i].offset);\n",
  "\t\tafter = readl(pmu + seq[i].offset);\n",
  "\t\tpr_info(\"S9P vendor PMU %04x: %08x -> %08x mask=%08x\\n\",\n",
  "\t\t\tseq[i].offset, before, after, seq[i].mask);\n",
  "\t\tif ((after & seq[i].mask) != seq[i].value) \x7b\n",
  "\t\t\terr = -EIO;\n",
  "\t\t\tbreak;\n",
  "\t\t\x7d\n",
  "\t\x7d\n",
  "\tdsb(sy);\n",
  "\tiounmap(pmu);\n",
  "\treturn err;\n",
  "\x7d\n",
  "/* S9P-VENDOR-DEFAULTS-END */\n",
  "\n"]

def psciDefaults : Step :=
  insertBefore "arch/arm64/kernel/psci.c" (chars "static int cpu_psci_cpu_boot(unsigned int cpu)\n")
    m3Defaults (chars "S9P-VENDOR-DEFAULTS")

def oldOn : Txt := chars "\tint err = psci_ops.cpu_on(cpu_logical_map(cpu), pa_secondary_entry);\n"

def newOn : Txt := lines [
  "\tint err = s9p_apply_vendor_m3_defaults(cpu);\n",
  "\n",
  "\tif (err)\n",
  "\t\treturn err;\n",
  "\terr = psci_ops.cpu_on(cpu_logical_map(cpu), pa_secondary_entry);\n"]

/-- The text put in is its own marker. -/
def psciCall : Step :=
  .edits "arch/arm64/kernel/psci.c" false [⟨newOn, [.replace oldOn newOn]⟩]

/-- `patch_tree.py`. -/
def script : List Step :=
  [ufsMakefile, ufsKconfig, ufsDefault, clkgate, g3dPd, muic, phyMakefile, bootfbMakefile,
   fbKconfig, i2cDiag, gem, jobFlush, jobInclude, jobFields, drvOwner, jobOwner, sysfbModeset,
   bootfb, i2cTiming, acpm, g3d, socKconfig, cpufreqMakefile, cpufreqKconfig, drmMakefile,
   drmKconfig, hwIds, pcieC, .chip, commonringH, commonringC, dwcMakefile, dwcKconfig, psciInclude,
   psciDefaults, psciCall]

end S9p.PatchTree
