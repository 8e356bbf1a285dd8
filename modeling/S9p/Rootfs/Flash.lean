/-
# Writing the root filesystem over adb

`flash_s9plus_rootfs_adb.py` writes an image to the USERDATA partition of the phone in chunks of
128 MiB: each chunk is compared first, pushed to a file on the phone, written with `dd` and read
back; at the end the whole image is read back.  An `adb` command that fails is tried again, and a
run that is cut short is started again.

* `phone` answers the commands.  A command that fails may have done part of its work: a push
  leaves any file behind, a `dd` has written a prefix of what it was to write.
* `readback_verified`: after any history of runs, where a run prints its last line or starts
  `e2fsck`, the partition begins with the image and is untouched behind it; and a run over a
  partition that begins with the image writes nothing.
* `undisturbed_run`: a run in which every command succeeds gets there.
-/
import Mathlib.Data.List.Infix
import S9p.Lib.Bytes
import S9p.Lib.Fail
import S9p.Lib.Reading

namespace S9p.Rootfs.Flash

open Bytes Device Reading

/-! ## 1. The script

The work is done chunk by chunk, and a chunk that is already there is passed over.  Each command is
tried up to three times. -/

def BYNAME : String := "/dev/block/platform/11120000.ufs/by-name"
def MB : Nat := 1 <<< 20
def CHUNK_MB : Nat := 128
def REMOTE : String := "/tmp/s9plus-rootfs-chunk.bin"

/-- The node USERDATA has to be. -/
def NODE : String := "/dev/block/sda25"

/-- The `adb` commands of the script. -/
inductive Adb where
  | getState
  | getprop
  | userId
  | readlink
  | getsize64 (node : String)
  | mounts
  | push (scratch : String)
  | ddSum (node : String) (skip : Option Nat) (count : Nat)
  | ddWrite (node : String) (seek : Nat)
  | cleanUp
  | e2fsck (node : String)
  deriving DecidableEq

/-- `*args`. -/
def Adb.args : Adb → List String
  | .getState => ["get-state"]
  | .getprop => ["shell", "getprop ro.product.device"]
  | .userId => ["shell", "id -u"]
  | .readlink => ["shell", s!"readlink -f {BYNAME}/USERDATA"]
  | .getsize64 node => ["shell", s!"blockdev --getsize64 {node}"]
  | .mounts => ["shell", "cat /proc/mounts"]
  | .push scratch => ["push", scratch, REMOTE]
  | .ddSum node (some skip) count =>
      ["shell", s!"dd if={node} bs=1048576 skip={skip} count={count} 2>/dev/null | sha256sum"]
  | .ddSum node none count =>
      ["shell", s!"dd if={node} bs=1048576 count={count} 2>/dev/null | sha256sum"]
  | .ddWrite node seek =>
      ["shell", s!"dd if={REMOTE} of={node} bs=1048576 seek={seek} conv=fsync"]
  | .cleanUp => ["shell", s!"rm -f {REMOTE}; sync"]
  | .e2fsck node => ["shell", s!"e2fsck -f -y {node}; blkid {node}"]

/-- What is left of a command that has ended: whether `returncode` is 0, `stdout.strip()`, and
the two streams together, stripped. -/
structure Output where
  ok : Bool
  stdout : String
  last : String

/-- What is printed. -/
inductive Line where
  | adbFailed (command last : String)
  | userdata (node : String) (capacity : Int) (image totalMb : Nat)
  | alreadyCorrect (index chunks : Nat)
  | written (index chunks : Nat)
  | counts (written skipped : Nat)
  | readingBack
  | verified (sha256 : String) (bytes : Nat)
  | checked (last : String)

/-- How the script ends early: `SystemExit`, `RuntimeError`, `ValueError` of `int`, `IndexError`
of `split()[0]`. -/
inductive Stop where
  | exit (message : String)
  | runtime (message : String)
  | value (text : String)
  | index

/-- What the script does to the world.  `restartServer` is `kill-server`, `start-server` and
`wait-for-recovery`, whose outcome it does not look at. -/
inductive Op where
  | adb (command : Adb)
  | restartServer
  | writeScratch (blob : Bytes)
  | unlinkScratch
  | print (line : Line)

@[reducible] def Ans : Op → Type
  | .adb _ => Output
  | _ => Unit

abbrev M := ExceptT Stop (Prog Op Ans)

def perform (o : Op) : M (Ans o) := liftM (Prog.perform o : Prog Op Ans (Ans o))

def print (line : Line) : M Unit := perform (.print line)

def require (ok : Bool) (message : String) : M Unit :=
  if ok then pure () else throw (.exit message)

/-- The loop of `adb`: `left` attempts to go. -/
def adbTry (retries : Nat) (command : Adb) : Nat → String → M String
  | 0, last =>
      let text := String.intercalate " " command.args
      throw (.runtime s!"adb {text} failed after {retries} tries:\n{last}")
  | left + 1, _ => do
    let out ← perform (.adb command)
    if out.ok then return out.stdout
    else do
      print (.adbFailed (command.args.headD "") out.last)
      perform .restartServer
      adbTry retries command left out.last

/-- `adb`. -/
def adb (command : Adb) : M String := adbTry 3 command 3 ""

/-- `adb(...).split()[0]`. -/
def digest (command : Adb) : M String := do
  let out ← adb command
  match firstWord out with
  | some word => return word
  | none => throw .index

section Script

variable (sha256 : Bytes → String) (image : Bytes) (scratch : String)

/-- The checks before anything is written; the result is `node`. -/
def prepare : M String := do
  let size := image.length
  require (size % MB = 0) "Image size must be a whole number of MiB"
  let totalMb := size / MB
  let state ← adb .getState
  require (state = "recovery") "Samsung is not in TWRP recovery"
  let device ← adb .getprop
  require (device = "star2lte") "Wrong device"
  let user ← adb .userId
  require (user = "0") "Recovery is not root"
  let node ← adb .readlink
  require (node = NODE) s!"Unexpected USERDATA node: {node}"
  let text ← adb (.getsize64 node)
  match int text with
  | none => throw (.value text)
  | some capacity => do
    require (size ≤ capacity) s!"Image {size} does not fit in {capacity}"
    let mounts ← adb .mounts
    require (¬ node.toList <:+: mounts.toList) s!"{node} is mounted:\n{mounts}"
    print (.userdata node capacity size totalMb)
    return node

/-- What is read of the image for chunk `index`. -/
def blobAt (index : Nat) : Bytes :=
  slice image (index * CHUNK_MB * MB) (index * CHUNK_MB * MB + CHUNK_MB * MB)

/-- One round of the loop over the chunks; `counts` is `written` and `skipped`. -/
def flashChunk (node : String) (chunks : Nat) (counts : Nat × Nat) (index : Nat) :
    M (Nat × Nat) := do
  let blob := blobAt image index
  let want := sha256 blob
  let count := (blob.length + MB - 1) / MB
  let found ← digest (.ddSum node (some (index * CHUNK_MB)) count)
  if found = want then do
    print (.alreadyCorrect (index + 1) chunks)
    return (counts.1, counts.2 + 1)
  else do
    perform (.writeScratch blob)
    let _ ← adb (.push scratch)
    let _ ← adb (.ddWrite node (index * CHUNK_MB))
    let back ← digest (.ddSum node (some (index * CHUNK_MB)) count)
    require (back = want) s!"chunk {index} readback mismatch"
    print (.written (index + 1) chunks)
    return (counts.1 + 1, counts.2)

/-- The chunks one after the other. -/
def flashChunks (node : String) : M (Nat × Nat) :=
  let chunks := (image.length / MB + CHUNK_MB - 1) / CHUNK_MB
  (List.range chunks).foldlM (flashChunk sha256 image scratch node chunks) (0, 0)

/-- The image is read back whole. -/
def readBack (node : String) : M Unit := do
  let expected := sha256 image
  print .readingBack
  let actual ← digest (.ddSum node none (image.length / MB))
  require (actual = expected) s!"USERDATA readback mismatch: {actual} != {expected}"
  print (.verified expected image.length)

/-- `main`. -/
def main : M Unit := do
  let node ← prepare image
  let counts ← flashChunks sha256 image scratch node
  perform .unlinkScratch
  let _ ← adb .cleanUp
  print (.counts counts.1 counts.2)
  readBack sha256 image node
  let check ← perform (.adb (.e2fsck node))
  print (.checked check.last)

end Script

/-! ## 2. The phone

A `dd` that fails has written a beginning of its input.  The partition keeps its length. -/

/-- The partition, the file at `REMOTE` and the host's scratch file. -/
structure World where
  userdata : Bytes
  remote : Option Bytes
  scratch : Option Bytes

/-- How a command ends.  The last three say what a push or an `rm` that fails leaves at `REMOTE`,
how much an interrupted `dd` has written, and what `e2fsck` makes of the file system.  A command
that has failed may be tried again, and then it has an outcome of its own. -/
structure Outcome extends Output where
  file : Option Bytes
  sent : Nat
  repaired : Bytes

/-- `x` written at `off`, as far as the partition goes. -/
def writeAt (b : Bytes) (off : Nat) (x : Bytes) : Bytes := patch b off (x.take (b.length - off))

/-- What `dd if=node bs=1048576 skip=... count=...` reads. -/
def readMb (b : Bytes) (skip count : Nat) : Bytes := slice b (skip * MB) ((skip + count) * MB)

/-- What a command does.  `e2fsck` works on the file system, which lies in the first `size`
bytes. -/
def effect (sha256 : Bytes → String) (size : Nat) (c : Outcome) (w : World) : Adb → Option World
  | .ddSum node skip count =>
      if c.ok = true ∧ node = NODE ∧
          firstWord c.stdout ≠ some (sha256 (readMb w.userdata (skip.getD 0) count)) then none
      else some w
  | .push _ =>
      if c.ok then w.scratch.map (fun data => { w with remote := some data })
      else some { w with remote := c.file }
  | .ddWrite node seek =>
      match w.remote with
      | none => if c.ok then none else some w
      | some data =>
          let data := if c.ok then data else data.take c.sent
          some (if node = NODE then
            { w with userdata := writeAt w.userdata (seek * MB) data } else w)
  | .cleanUp => some { w with remote := if c.ok then none else c.file }
  | .e2fsck node =>
      some (if node = NODE then
        { w with userdata := writeAt w.userdata 0 (c.repaired.take size) } else w)
  | _ => some w

/-- **What an operation does.**  The command to the phone is said by `effect`; the file on the host
is put there and removed. -/
def act (sha256 : Bytes → String) (size : Nat) :
    (o : Op) → Outcome → World → Option (Ans o × World)
  | .adb command, c, w => (effect sha256 size c w command).map (fun u => (c.toOutput, u))
  | .restartServer, _, w => some ((), w)
  | .writeScratch blob, _, w => some ((), { w with scratch := some blob })
  | .unlinkScratch, _, w => some ((), { w with scratch := none })
  | .print _, _, w => some ((), w)

/-- The phone, which does nothing on its own. -/
def phone (sha256 : Bytes → String) (size : Nat) : Device Op Ans World Empty Outcome where
  env := fun e _ => nomatch e
  act := act sha256 size

/-- Every step passes. -/
def anyStep : World → (o : Op) → Outcome → Bool := fun _ _ _ => true

/-- What lies behind a world after runs that may each stop anywhere.  In between the files come and
go.  A run may stop before any of its operations, which is what pulling the cable comes to. -/
inductive History (sha256 : Bytes → String) (image : Bytes) : World → World → Prop
  | start (w : World) : History sha256 image w w
  | run {w u t : World} {scratch : String} {tr : List (Sigma Ans)}
      {q : Prog Op Ans (Except Stop Unit)} : History sha256 image w u →
      (phone sha256 image.length).Within anyStep (main sha256 image scratch).run u tr q t →
      History sha256 image w t
  | files {w u : World} (remote file : Option Bytes) : History sha256 image w u →
      History sha256 image w { u with remote := remote, scratch := file }

/-! ## 3. Rules for the commands

As a command may be tried again, the assertion before it has to hold after each failure as well.
The rule says so once. -/

variable {sha256 : Bytes → String} {size : Nat} {w t : World}

/-- The phone cannot falsify anything on its own. -/
theorem still (P : World → Prop) : (phone sha256 size).Stable P := fun e => nomatch e

/-- The step property of the proofs: `J` all along, and `G` where an operation of the kind `F`
is about to be performed. -/
def Watch (J : World → Prop) (F : Op → Prop) (G : World → Prop) (t : World) (o : Option Op) :
    Prop :=
  J t ∧ ∀ o', o = some o' → F o' → G t

section Rules

variable {J G : World → Prop} {F : Op → Prop} {E : Stop → World → Prop}

theorem Watch.none (h : J t) : Watch J F G t none := ⟨h, fun _ ho => absurd ho (by simp)⟩

theorem Watch.some {o : Op} (h : J t) (hF : F o → G t) : Watch J F G t (some o) := by
  refine ⟨h, fun o' ho hf => ?_⟩
  obtain rfl := Option.some.inj ho
  exact hF hf

theorem fwp_perform {o : Op} {Q : Ans o → World → Prop} (hJ : J w) (hF : F o → G w)
    (hQ : ∀ c r u, act sha256 size o c w = some (r, u) → J u ∧ Q r u) :
    fwp (phone sha256 size) anyStep (Watch J F G) (perform o) Q E w := by
  refine fwp_lift (wp_op (still (· = w)) rfl (fun t ht => ht ▸ Watch.some hJ hF) ?_)
  rintro _ c r u rfl - hact
  obtain ⟨hu, hr⟩ := hQ c r u hact
  exact wp_ret (still (· = u)) rfl (fun t ht => ht ▸ Watch.none hu) (fun t ht => ht ▸ hr)

/-- What the host does itself has one outcome. -/
theorem fwp_host {o : Op} {r : Ans o} {v : World} {Q : Ans o → World → Prop}
    (hact : ∀ c, act sha256 size o c w = some (r, v)) (hJ : J w) (hF : F o → G w) (hJv : J v)
    (hQ : Q r v) : fwp (phone sha256 size) anyStep (Watch J F G) (perform o) Q E w := by
  refine fwp_perform hJ hF (fun c r' v' h => ?_)
  rw [hact, Option.some.injEq, Prod.mk.injEq] at h
  obtain ⟨rfl, rfl⟩ := h
  exact ⟨hJv, hQ⟩

theorem fwp_return {α : Type} {a : α} {Q : α → World → Prop} (hJ : J w) (hQ : Q a w) :
    fwp (phone sha256 size) anyStep (Watch J F G) (pure a) Q E w :=
  fwp_pure (still (· = w)) rfl (fun _ ht => ht ▸ Watch.none hJ) (fun _ ht => ht ▸ hQ)

theorem fwp_require {b : Bool} {message : String} {Q : Unit → World → Prop} (hJ : J w)
    (hQ : b = true → Q () w) :
    fwp (phone sha256 size) anyStep (Watch J F G) (require b message) Q (fun _ _ => True) w := by
  unfold require
  split
  · rename_i hb
    exact fwp_return hJ (hQ hb)
  · exact fwp_throw (still (· = w)) rfl (fun t ht => ht ▸ Watch.none hJ) (fun _ _ => trivial)

/-- The operations neither theorem asks about. -/
def Harmless : Op → Prop
  | .adb (.push _) => False
  | .adb (.ddWrite _ _) => False
  | .adb (.e2fsck _) => False
  | .print (.verified _ _) => False
  | _ => True

theorem fwp_print (hF : ∀ o, Harmless o → ¬ F o) {line : Line} {Q : Unit → World → Prop}
    (hline : Harmless (.print line)) (hJ : J w) (hQ : Q () w) :
    fwp (phone sha256 size) anyStep (Watch J F G) (print line) Q E w :=
  fwp_host (fun _ => rfl) hJ (fun hf => absurd hf (hF _ hline)) hJ hQ

/-- **The rule for `adb`.**  While the command fails `I` holds, so trying it again does no harm. -/
theorem fwp_adb (hF : ∀ o, Harmless o → ¬ F o) {I : World → Prop} {command : Adb}
    {Q : String → World → Prop} (hJ : ∀ t, I t → J t) (hG : F (.adb command) → ∀ t, I t → G t)
    (hfail : ∀ t c u, I t → c.ok = false → effect sha256 size c t command = some u → I u)
    (hok : ∀ t c u, I t → c.ok = true → effect sha256 size c t command = some u →
      J u ∧ Q c.stdout u) (hw : I w) :
    fwp (phone sha256 size) anyStep (Watch J F G) (adb command) Q (fun _ _ => True) w := by
  have main : ∀ (left : Nat) (last : String) (t : World), I t →
      fwp (phone sha256 size) anyStep (Watch J F G) (adbTry 3 command left last) Q
        (fun _ _ => True) t := by
    intro left
    induction left with
    | zero =>
      intro last t ht
      exact fwp_throw (still I) ht (fun u hu => Watch.none (hJ u hu)) (fun _ _ => trivial)
    | succ left ih =>
      intro last t ht
      refine fwp_bind (fwp_perform (hJ t ht) (fun hf => hG hf t ht) (fun c out u hact => ?_))
      obtain ⟨u', heff, heq⟩ := Option.map_eq_some_iff.mp hact
      simp only [Prod.mk.injEq] at heq
      obtain ⟨rfl, rfl⟩ := heq
      cases hc : c.ok with
      | true =>
        obtain ⟨hJu, hQ⟩ := hok t c u' ht hc heff
        rw [if_pos rfl]
        exact ⟨hJu, fwp_return hJu hQ⟩
      | false =>
        have hu : I u' := hfail t c u' ht hc heff
        refine ⟨hJ u' hu, ?_⟩
        rw [if_neg (by simp)]
        refine fwp_bind (fwp_print hF trivial (hJ u' hu) ?_)
        exact fwp_bind (fwp_host (fun _ => rfl) (hJ u' hu) (fun hf => absurd hf (hF _ trivial))
          (hJ u' hu) (ih _ u' hu))
  exact main 3 "" w hw

/-- A command that looks at the phone and leaves it alone. -/
theorem fwp_look (hF : ∀ o, Harmless o → ¬ F o) {command : Adb} {Q : String → World → Prop}
    (hharm : Harmless (.adb command))
    (hlook : ∀ c u, effect sha256 size c w command = some u → u = w) (hJ : J w)
    (hQ : ∀ c u, c.ok = true → effect sha256 size c w command = some u → Q c.stdout w) :
    fwp (phone sha256 size) anyStep (Watch J F G) (adb command) Q (fun _ _ => True) w := by
  refine fwp_adb hF (I := (· = w)) (fun t ht => ht ▸ hJ)
    (fun hf => absurd hf (hF _ hharm)) ?_ ?_ rfl
  · rintro _ c u rfl - heff
    exact hlook c u heff
  · rintro _ c u rfl hc heff
    obtain rfl := hlook c u heff
    exact ⟨hJ, hQ c u hc heff⟩

/-- **The rule for a digest**: the first word printed is the digest of what stands there. -/
theorem fwp_digest (hF : ∀ o, Harmless o → ¬ F o) {skip : Option Nat} {count : Nat}
    {Q : String → World → Prop} (hJ : J w)
    (hQ : Q (sha256 (readMb w.userdata (skip.getD 0) count)) w) :
    fwp (phone sha256 size) anyStep (Watch J F G) (digest (.ddSum NODE skip count)) Q
      (fun _ _ => True) w := by
  have heffect : ∀ c u, effect sha256 size c w (.ddSum NODE skip count) = some u →
      u = w ∧ (c.ok = true →
        firstWord c.stdout = some (sha256 (readMb w.userdata (skip.getD 0) count))) := by
    intro c u heff
    simp only [effect] at heff
    split at heff
    · exact absurd heff (by simp)
    · rename_i hc
      refine ⟨(Option.some.inj heff).symm, fun hok => ?_⟩
      by_contra hne
      exact hc ⟨hok, trivial, hne⟩
  refine fwp_bind (fwp_look hF trivial (fun c u h => (heffect c u h).1) hJ ?_)
  intro c u hc heff
  rw [(heffect c u heff).2 hc]
  exact fwp_return hJ hQ

end Rules

/-! ## 4. The partition

Chunks lie one behind the other, and a write to one of them leaves the others. -/

/-- A write that ends in front of `n` leaves what lies behind. -/
theorem drop_writeAt {b x : Bytes} {off n : Nat} (h : off + x.length ≤ n) :
    (writeAt b off x).drop n = b.drop n := by
  have hlen : (x.take (b.length - off)).length ≤ x.length := List.length_take_le' _ _
  by_cases hoff : off ≤ b.length
  · have hfront : (b.take off ++ x.take (b.length - off)).length =
        off + (x.take (b.length - off)).length := by
      rw [List.length_append, List.length_take, Nat.min_eq_left hoff]
    rw [writeAt, patch, List.drop_append, List.drop_eq_nil_of_le (by omega), List.nil_append,
      hfront, List.drop_drop]
    congr 1
    omega
  · have hnil : x.take (b.length - off) = [] := by
      rw [Nat.sub_eq_zero_of_le (by omega), List.take_zero]
    rw [writeAt, patch, hnil, List.append_nil, List.length_nil, Nat.add_zero,
      List.take_append_drop]

/-- What a chunk holds lies in the image. -/
theorem blobAt_end {image : Bytes} {index : Nat}
    (h : index < (image.length / MB + CHUNK_MB - 1) / CHUNK_MB) :
    index * CHUNK_MB * MB + (blobAt image index).length ≤ image.length := by
  have hstart : index * CHUNK_MB * MB ≤ image.length := by
    have h1 : index * CHUNK_MB ≤ image.length / MB := by
      simp only [CHUNK_MB] at h ⊢
      omega
    exact (Nat.mul_le_mul_right MB h1).trans (Nat.div_mul_le_self _ _)
  simp only [blobAt, slice, List.length_take, List.length_drop]
  omega

/-! ## 5. What lies behind the image

What lies behind the image is never written, as no chunk reaches that far.  `e2fsck` works inside
the image. -/

section Script

variable {image : Bytes} {scratch node : String}

section Stages

variable {J G : World → Prop} {F : Op → Prop}

/-- The checks leave the world. -/
theorem fwp_prepare (hF : ∀ o, Harmless o → ¬ F o) (hJ : J w) :
    fwp (phone sha256 size) anyStep (Watch J F G) (prepare image)
      (fun node t => t = w ∧ node = NODE ∧ image.length % MB = 0) (fun _ _ => True) w := by
  have hsame : ∀ (_ : Outcome) (u : World), some w = some u → u = w :=
    fun _ _ h => (Option.some.inj h).symm
  refine fwp_bind (fwp_require hJ (fun hmb => ?_))
  refine fwp_bind (fwp_look hF trivial hsame hJ (fun c _ _ _ => ?_))
  refine fwp_bind (fwp_require hJ (fun _ => ?_))
  refine fwp_bind (fwp_look hF trivial hsame hJ (fun c _ _ _ => ?_))
  refine fwp_bind (fwp_require hJ (fun _ => ?_))
  refine fwp_bind (fwp_look hF trivial hsame hJ (fun c _ _ _ => ?_))
  refine fwp_bind (fwp_require hJ (fun _ => ?_))
  refine fwp_bind (fwp_look hF trivial hsame hJ (fun c _ _ _ => ?_))
  refine fwp_bind (fwp_require hJ (fun hnode => ?_))
  refine fwp_bind (fwp_look hF trivial hsame hJ (fun c' _ _ _ => ?_))
  split
  · exact fwp_throw (still (· = w)) rfl (fun _ ht => ht ▸ Watch.none hJ) (fun _ _ => trivial)
  · refine fwp_bind (fwp_require hJ (fun _ => ?_))
    refine fwp_bind (fwp_look hF trivial hsame hJ (fun c _ _ _ => ?_))
    refine fwp_bind (fwp_require hJ (fun _ => ?_))
    refine fwp_bind (fwp_print hF trivial hJ ?_)
    exact fwp_return hJ ⟨rfl, of_decide_eq_true hnode, of_decide_eq_true hmb⟩

end Stages

/-- Where the image is known to be there: the last line of a run that succeeds, and the start of
`e2fsck`. -/
def Final : Op → Prop
  | .print (.verified _ _) => True
  | .adb (.e2fsck _) => True
  | _ => False

theorem not_final {o : Op} (h : Harmless o) : ¬ Final o := by
  cases o with
  | adb command => cases command <;> simp_all [Final, Harmless]
  | print line => cases line <;> simp_all [Final, Harmless]
  | _ => simp [Final]

/-- What lies behind the image. -/
def Behind (image rest : Bytes) (w : World) : Prop := w.userdata.drop image.length = rest

/-- The partition begins with the image. -/
def Correct (image : Bytes) (w : World) : Prop := w.userdata.take image.length = image

section Written

variable {rest : Bytes} {chunks index : Nat} {counts : Nat × Nat}

/-- A chunk is written in its place. -/
theorem fwp_flashChunk (hchunks : chunks = (image.length / MB + CHUNK_MB - 1) / CHUNK_MB)
    (hindex : index < chunks) (hw : Behind image rest w) :
    fwp (phone sha256 size) anyStep (Watch (Behind image rest) Final (Correct image))
      (flashChunk sha256 image scratch NODE chunks counts index)
      (fun _ t => Behind image rest t) (fun _ _ => True) w := by
  have hF : ∀ o, Harmless o → ¬ Final o := fun _ h => not_final h
  refine fwp_bind (fwp_digest hF hw ?_)
  split
  · exact fwp_bind (fwp_print hF trivial hw (fwp_return hw hw))
  · refine fwp_bind (fwp_host (fun _ => rfl) hw (fun hf => absurd hf (hF _ trivial)) hw ?_)
    -- while the push fails, only the file on the phone is in doubt
    refine fwp_bind (fwp_adb hF (I := fun t => Behind image rest t ∧
        t.scratch = some (blobAt image index)) (fun t ht => ht.1) (fun hf => absurd hf id) ?_ ?_
        ⟨hw, rfl⟩)
    · rintro t c u ht hc heff
      simp only [effect, hc, Bool.false_eq_true, if_false, Option.some.injEq] at heff
      subst heff
      exact ht
    rintro t c u ⟨ht, hscratch⟩ hc heff
    simp only [effect, hc, if_true, hscratch, Option.map_some, Option.some.injEq] at heff
    subst heff
    refine ⟨ht, ?_⟩
    -- whole or in part, the chunk ends in front of what lies behind the image
    have hwrite : ∀ (v : World) (x : Bytes), Behind image rest v →
        x.length ≤ (blobAt image index).length →
        Behind image rest { v with userdata := writeAt v.userdata (index * CHUNK_MB * MB) x } := by
      intro v x hv hx
      have hend := blobAt_end (hchunks ▸ hindex)
      exact (drop_writeAt (by omega)).trans hv
    refine fwp_bind (fwp_adb hF (I := fun t => Behind image rest t ∧
        t.remote = some (blobAt image index)) (fun t ht => ht.1) (fun hf => absurd hf id) ?_ ?_
        ⟨ht, rfl⟩)
    · rintro v c u ⟨hv, hremote⟩ hc heff
      simp only [effect, hremote, hc, Bool.false_eq_true, if_false, if_true,
        Option.some.injEq] at heff
      subst heff
      exact ⟨hwrite v _ hv (List.length_take_le' _ _), rfl⟩
    rintro v c u ⟨hv, hremote⟩ hc heff
    simp only [effect, hremote, hc, if_true, Option.some.injEq] at heff
    subst heff
    have hu := hwrite v _ hv le_rfl
    refine ⟨hu, fwp_bind (fwp_digest hF hu ?_)⟩
    refine fwp_bind (fwp_require hu (fun _ => ?_))
    exact fwp_bind (fwp_print hF trivial hu (fwp_return hu hu))

/-- The image is known to be there once its digest has been read back. -/
theorem fwp_readBack (hinj : Function.Injective sha256) (hmb : image.length % MB = 0)
    (hw : Behind image rest w) :
    fwp (phone sha256 size) anyStep (Watch (Behind image rest) Final (Correct image))
      (readBack sha256 image NODE) (fun _ t => t = w ∧ Correct image w) (fun _ _ => True) w := by
  have hF : ∀ o, Harmless o → ¬ Final o := fun _ h => not_final h
  have hall : image.length / MB * MB = image.length :=
    Nat.div_mul_cancel (Nat.dvd_of_mod_eq_zero hmb)
  refine fwp_bind (fwp_print hF trivial hw ?_)
  refine fwp_bind (fwp_digest hF hw ?_)
  refine fwp_bind (fwp_require hw (fun heq => ?_))
  have hread := hinj (of_decide_eq_true heq)
  have hcorrect : Correct image w := by
    simpa [readMb, slice, hall, Correct] using hread
  exact fwp_host (fun _ => rfl) hw (fun _ => hcorrect) hw ⟨rfl, hcorrect⟩

/-- **A run, wherever it stops**, has left what lies behind the image, and where it says that the
image is there, it is. -/
theorem fwp_main (hinj : Function.Injective sha256) (hw : Behind image rest w) :
    fwp (phone sha256 image.length) anyStep (Watch (Behind image rest) Final (Correct image))
      (main sha256 image scratch) (fun _ _ => True) (fun _ _ => True) w := by
  have hF : ∀ o, Harmless o → ¬ Final o := fun _ h => not_final h
  refine fwp_bind (fwp_mono ?_ (fun _ _ h => h) (fwp_prepare hF hw))
  rintro node _ ⟨rfl, rfl, hmb⟩
  refine fwp_bind (fwp_mono ?_ (fun _ _ h => h) (fwp_foldlM (I := fun _ _ t => Behind image rest t)
    (fun _ _ => still _) (fun _ _ t ht => Watch.none ht) ?_ hw))
  · intro counts t ht
    refine fwp_bind (fwp_host (fun _ => rfl) ht (fun hf => absurd hf (hF _ trivial)) ht ?_)
    refine fwp_bind (fwp_adb hF (I := Behind image rest) (fun _ h => h)
      (fun hf => absurd hf (hF _ trivial)) ?_ ?_ ht)
    · rintro v c u hv - heff
      simp only [effect, Option.some.injEq] at heff
      subst heff
      exact hv
    rintro v c u hv - heff
    simp only [effect, Option.some.injEq] at heff
    subst heff
    refine ⟨hv, fwp_bind (fwp_print hF trivial hv ?_)⟩
    refine fwp_bind (fwp_mono ?_ (fun _ _ h => h) (fwp_readBack hinj hmb hv))
    rintro - _ ⟨rfl, hcorrect⟩
    refine fwp_bind (fwp_perform hv (fun _ => hcorrect) ?_)
    rintro c out u hact
    simp only [act, effect, if_true, Option.map_some, Option.some.injEq, Prod.mk.injEq] at hact
    obtain ⟨-, rfl⟩ := hact
    have hdrop : (writeAt v.userdata 0 (c.repaired.take image.length)).drop image.length =
        v.userdata.drop image.length := drop_writeAt (by simp)
    have hu := hdrop.trans hv
    exact ⟨hu, fwp_print hF trivial hu trivial⟩
  · intro before index later hl counts t ht
    exact fwp_flashChunk rfl (range_split hl).2 ht

end Written

/-! ## 6. A partition that is correct already

A run compares before it writes, so on a correct partition it finds nothing to do.  This is also
what makes a second run short. -/

/-- What puts bytes on the phone. -/
def Writes : Op → Prop
  | .adb (.push _) => True
  | .adb (.ddWrite _ _) => True
  | _ => False

theorem not_writes {o : Op} (h : Harmless o) : ¬ Writes o := by
  cases o with
  | adb command => cases command <;> simp_all [Writes, Harmless]
  | _ => simp [Writes]

/-- The blocks `dd` counts for a chunk are the chunk. -/
theorem count_mul_MB (hmb : image.length % MB = 0) (index : Nat) :
    ((blobAt image index).length + MB - 1) / MB * MB = (blobAt image index).length := by
  have hdvd : MB ∣ (blobAt image index).length := by
    have hlen : (blobAt image index).length =
        min (CHUNK_MB * MB) (image.length - index * CHUNK_MB * MB) := by
      simp [blobAt, slice]
    rw [hlen]
    rcases Nat.le_total (CHUNK_MB * MB) (image.length - index * CHUNK_MB * MB) with h | h
    · rw [Nat.min_eq_left h]
      exact Nat.dvd_mul_left _ _
    · rw [Nat.min_eq_right h]
      exact Nat.dvd_sub (Nat.dvd_of_mod_eq_zero hmb) (Nat.dvd_mul_left _ _)
  obtain ⟨n, hn⟩ := hdvd
  have hpos : 0 < MB := by decide
  rw [hn]
  have hdiv : (MB * n + MB - 1) / MB = n := by
    rw [Nat.add_sub_assoc hpos, Nat.mul_add_div hpos, Nat.div_eq_of_lt (by omega), Nat.add_zero]
  rw [hdiv, Nat.mul_comm]

theorem readMb_chunk (hmb : image.length % MB = 0) (b : Bytes) (index : Nat) :
    readMb b (index * CHUNK_MB) (((blobAt image index).length + MB - 1) / MB) =
      slice b (index * CHUNK_MB * MB) (index * CHUNK_MB * MB + (blobAt image index).length) := by
  rw [readMb, Nat.add_mul, count_mul_MB hmb]

/-- The chunks of a correct partition are those of the image. -/
theorem slice_correct (hw : Correct image w) (index : Nat) :
    slice w.userdata (index * CHUNK_MB * MB)
      (index * CHUNK_MB * MB + (blobAt image index).length) = blobAt image index := by
  have hdrop : ∀ i, image.drop i = (w.userdata.drop i).take (image.length - i) := by
    intro i
    conv_lhs => rw [← hw]
    rw [List.drop_take]
  have hsize : image.length ≤ w.userdata.length := by
    have := congrArg List.length hw
    rw [List.length_take] at this
    omega
  have hlen : (blobAt image index).length =
      min (CHUNK_MB * MB) (image.length - index * CHUNK_MB * MB) := by
    simp [blobAt, slice]
  rw [hlen, blobAt, slice, slice, hdrop, List.take_take]
  congr 1
  omega

/-- A correct chunk is left alone. -/
theorem fwp_skipChunk {chunks index : Nat} {counts : Nat × Nat} (hmb : image.length % MB = 0)
    (hw : Correct image w) :
    fwp (phone sha256 size) anyStep (Watch (fun _ => True) Writes (fun _ => False))
      (flashChunk sha256 image scratch NODE chunks counts index) (fun _ t => t = w)
      (fun _ _ => True) w := by
  have hF : ∀ o, Harmless o → ¬ Writes o := fun _ h => not_writes h
  refine fwp_bind (fwp_digest hF trivial ?_)
  rw [Option.getD_some, readMb_chunk hmb, slice_correct hw, if_pos rfl]
  exact fwp_bind (fwp_print hF trivial trivial (fwp_return trivial rfl))

/-- **A run over a correct partition** writes nothing. -/
theorem fwp_main_skips (hw : Correct image w) :
    fwp (phone sha256 image.length) anyStep (Watch (fun _ => True) Writes (fun _ => False))
      (main sha256 image scratch) (fun _ _ => True) (fun _ _ => True) w := by
  have hF : ∀ o, Harmless o → ¬ Writes o := fun _ h => not_writes h
  have hprint : ∀ (line : Line) (t : World),
      fwp (phone sha256 image.length) anyStep (Watch (fun _ => True) Writes (fun _ => False))
        (print line) (fun _ _ => True) (fun _ _ => True) t := fun line t =>
    fwp_perform trivial (fun hf => absurd hf id) (fun _ _ _ _ => ⟨trivial, trivial⟩)
  refine fwp_bind (fwp_mono ?_ (fun _ _ h => h) (fwp_prepare hF trivial))
  rintro node w ⟨rfl, rfl, hmb⟩
  refine fwp_bind (fwp_mono ?_ (fun _ _ h => h) (fwp_foldlM (I := fun _ _ t => t = w)
    (fun _ _ => still _) (fun _ _ t ht => Watch.none trivial) ?_ rfl))
  · intro counts t _
    refine fwp_bind (fwp_perform trivial (fun hf => absurd hf id) (fun _ _ u _ => ⟨trivial, ?_⟩))
    refine fwp_bind (fwp_adb hF (I := fun _ => True) (fun _ _ => trivial)
      (fun hf => absurd hf id) (fun _ _ _ _ _ _ => trivial) (fun t c u _ _ _ => ?_) trivial)
    refine ⟨trivial, fwp_bind (fwp_mono (fun _ u _ => ?_) (fun _ _ h => h) (hprint _ u))⟩
    refine fwp_bind (fwp_mono (Q := fun _ _ => True) (fun _ u _ => ?_) (fun _ _ h => h) ?_)
    · refine fwp_bind (fwp_perform trivial (fun hf => absurd hf id)
        (fun _ _ u _ => ⟨trivial, hprint _ u⟩))
    · refine fwp_bind (fwp_mono (fun _ u _ => ?_) (fun _ _ h => h) (hprint _ u))
      refine fwp_bind (fwp_digest hF trivial ?_)
      exact fwp_bind (fwp_require trivial (fun _ => hprint _ _))
  · rintro done index later - counts w rfl
    exact fwp_skipChunk hmb hw

/-- Only these operations change the partition. -/
theorem act_userdata {o : Op} {c : Outcome} {r : Ans o} (hw : ¬ Writes o)
    (hc : ∀ node, o ≠ .adb (.e2fsck node)) (h : act sha256 size o c w = some (r, t)) :
    t.userdata = w.userdata := by
  cases o with
  | adb command =>
    obtain ⟨u, heff, heq⟩ := Option.map_eq_some_iff.mp h
    simp only [Prod.mk.injEq] at heq
    obtain ⟨-, rfl⟩ := heq
    cases command with
    | push file => exact absurd trivial hw
    | ddWrite node seek => exact absurd trivial hw
    | e2fsck node => exact absurd rfl (hc node)
    | ddSum node skip count =>
      simp only [effect] at heff
      split at heff
      · exact absurd heff (by simp)
      · exact congrArg World.userdata (Option.some.inj heff).symm
    | cleanUp =>
      simp only [effect, Option.some.injEq] at heff
      subst heff
      rfl
    | _ => exact congrArg World.userdata (Option.some.inj heff).symm
  | _ =>
    simp only [act, Option.some.injEq, Prod.mk.injEq] at h
    obtain ⟨-, rfl⟩ := h
    rfl

/-- What is neither written to nor repaired stays. -/
theorem userdata_kept {α : Type} {p q : Prog Op Ans α} {tr : List (Sigma Ans)}
    (h : (phone sha256 size).Within anyStep p w tr q t)
    (hw : ∀ d ∈ tr, ¬ Writes d.1) (hc : ∀ d ∈ tr, ∀ node, d.1 ≠ .adb (.e2fsck node)) :
    t.userdata = w.userdata := by
  have hdrift : ∀ {u v : World}, (phone sha256 size).Drift u v → v = u := fun {u _} h =>
    (still (· = u)).drift h rfl
  induction h with
  | here hst => rw [hdrift hst]
  | op ch hst _ hact _ ih =>
    obtain ⟨hw₀, hw⟩ := List.forall_mem_cons.mp hw
    obtain ⟨hc₀, hc⟩ := List.forall_mem_cons.mp hc
    rw [ih hw hc, act_userdata hw₀ hc₀ hact, hdrift hst]

/-! ## 7. Any history of runs

Between two runs the files on the phone and on the host may be anything.  The partition is what they
have in common. -/

theorem History.behind {w₀ : World} (hinj : Function.Injective sha256)
    (h : History sha256 image w₀ w) :
    Behind image (w₀.userdata.drop image.length) w := by
  induction h with
  | start => exact rfl
  | run _ hrun ih => exact hrun.mid (fwp_main hinj ih) (fun _ _ h => h.1)
  | files _ _ _ ih => exact ih

/-- **Flashing is resumable.**  After any history of runs, a run that is about to print its last
line, or to start `e2fsck`, finds the image on the partition and behind it what was there before
the first run; and up to `e2fsck`, a run over a correct partition writes nothing. -/
theorem readback_verified {w₀ : World} {tr : List (Sigma Ans)}
    {q : Prog Op Ans (Except Stop Unit)} (hinj : Function.Injective sha256)
    (hist : History sha256 image w₀ w)
    (hrun : (phone sha256 image.length).Within anyStep (main sha256 image scratch).run w tr q t) :
    (∀ o k, q = .op o k → Final o → Correct image t ∧
      t.userdata.drop image.length = w₀.userdata.drop image.length) ∧
    (Correct image w → (∀ d ∈ tr, ∀ node, d.1 ≠ .adb (.e2fsck node)) →
      t.userdata = w.userdata ∧ ∀ d ∈ tr, ¬ Writes d.1) := by
  constructor
  · rintro o k rfl hfinal
    have hstep := hrun.at_op (fwp_main hinj (hist.behind hinj))
    exact ⟨hstep.2 o rfl hfinal, hstep.1⟩
  · intro hw hcheck
    have hskip : ∀ d ∈ tr, ¬ Writes d.1 :=
      hrun.ops (fwp_main_skips hw) (fun _ o h hwrite => h.2 o rfl hwrite)
    exact ⟨userdata_kept hrun hskip hcheck, hskip⟩

/-! ## 8. A run in which every command succeeds

The run is built from its commands, each of which succeeds.  The digest has to be that of SHA-256 on
the blocks that occur. -/

/-- The way a command ends that prints `stdout` and succeeds. -/
def done (stdout : String) : Outcome where
  ok := true
  stdout := stdout
  last := stdout
  file := none
  sent := 0
  repaired := []

theorem can_print (line : Line) : Can (phone sha256 size) anyStep (print line) w () w :=
  can_perform (done "") rfl rfl

theorem can_require {b : Bool} {message : String} (h : b = true) :
    Can (phone sha256 size) anyStep (require b message) w () w := by
  rw [require, if_pos h]
  exact can_pure

theorem can_adb {command : Adb} (stdout : String)
    (h : effect sha256 size (done stdout) w command = some t) :
    Can (phone sha256 size) anyStep (adb command) w stdout t := by
  have hact : act sha256 size (.adb command) (done stdout) w =
      some ((done stdout).toOutput, t) := by
    simp only [act, h, Option.map_some]
  refine (can_perform (done stdout) rfl hact).bind ?_
  exact can_pure

theorem can_digest {skip : Option Nat} {count : Nat}
    (hword : ∀ b, firstWord (sha256 b) = some (sha256 b)) :
    Can (phone sha256 size) anyStep (digest (.ddSum NODE skip count)) w
      (sha256 (readMb w.userdata (skip.getD 0) count)) w := by
  refine (can_adb (sha256 (readMb w.userdata (skip.getD 0) count)) (t := w) ?_).bind ?_
  · exact if_neg (fun hbad => hbad.2.2 (hword _))
  · rw [hword]
    exact can_pure

theorem can_prepare (hmb : image.length % MB = 0) :
    Can (phone sha256 size) anyStep (prepare image) w NODE w := by
  refine (can_require (decide_eq_true hmb)).bind ?_
  refine (can_adb "recovery" rfl).bind ((can_require (by simp)).bind ?_)
  refine (can_adb "star2lte" rfl).bind ((can_require (by simp)).bind ?_)
  refine (can_adb "0" rfl).bind ((can_require (by simp)).bind ?_)
  refine (can_adb NODE rfl).bind ((can_require (by simp)).bind ?_)
  refine (can_adb (String.ofList (Nat.toDigits 10 image.length)) rfl).bind ?_
  rw [int_toDigits]
  refine (can_require (decide_eq_true le_rfl)).bind ?_
  refine (can_adb "" rfl).bind ((can_require (by decide)).bind ?_)
  exact (can_print _).bind can_pure

/-- The first `index` chunks are on the partition. -/
def Upto (image : Bytes) (index : Nat) (w : World) : Prop :=
  image.length ≤ w.userdata.length ∧
    w.userdata.take (min (index * CHUNK_MB * MB) image.length) =
      image.take (index * CHUNK_MB * MB)

theorem upto_succ {index : Nat} (hfits : image.length ≤ w.userdata.length)
    (hstart : index * CHUNK_MB * MB ≤ image.length)
    (hfront : w.userdata.take (index * CHUNK_MB * MB) = image.take (index * CHUNK_MB * MB))
    (hchunk : slice w.userdata (index * CHUNK_MB * MB)
      (index * CHUNK_MB * MB + (blobAt image index).length) = blobAt image index) :
    Upto image (index + 1) w := by
  have hnext : (index + 1) * CHUNK_MB * MB = index * CHUNK_MB * MB + CHUNK_MB * MB := by
    rw [Nat.add_mul, Nat.add_mul, Nat.one_mul]
  have hend : min ((index + 1) * CHUNK_MB * MB) image.length =
      index * CHUNK_MB * MB + (blobAt image index).length := by
    simp only [hnext, blobAt, slice, List.length_take, List.length_drop]
    omega
  refine ⟨hfits, ?_⟩
  have hblob : (image.drop (index * CHUNK_MB * MB)).take (CHUNK_MB * MB) = blobAt image index := by
    rw [blobAt, slice, Nat.add_sub_cancel_left]
  rw [slice, Nat.add_sub_cancel_left] at hchunk
  rw [hend, hnext, List.take_add, List.take_add, hfront, hchunk, hblob]

/-- A chunk that is not there yet is written, and then it is. -/
theorem can_flashChunk {chunks index : Nat} {counts : Nat × Nat}
    (hinj : Function.Injective sha256) (hword : ∀ b, firstWord (sha256 b) = some (sha256 b))
    (hmb : image.length % MB = 0)
    (hindex : index < (image.length / MB + CHUNK_MB - 1) / CHUNK_MB) (hw : Upto image index w) :
    ∃ counts' t, Can (phone sha256 size) anyStep
      (flashChunk sha256 image scratch NODE chunks counts index) w counts' t ∧
      Upto image (index + 1) t := by
  obtain ⟨hfits, hfront⟩ := hw
  have hend := blobAt_end hindex
  have hstart : index * CHUNK_MB * MB ≤ image.length := by omega
  rw [Nat.min_eq_left hstart] at hfront
  by_cases hfound : sha256 (readMb w.userdata (index * CHUNK_MB)
      (((blobAt image index).length + MB - 1) / MB)) = sha256 (blobAt image index)
  · refine ⟨(counts.1, counts.2 + 1), w, ?_, upto_succ hfits hstart hfront ?_⟩
    · refine (can_digest hword).bind ?_
      rw [Option.getD_some, if_pos hfound]
      exact (can_print _).bind can_pure
    · rw [← readMb_chunk hmb]
      exact hinj hfound
  · -- the partition once the chunk has been written
    have hroom : index * CHUNK_MB * MB + (blobAt image index).length ≤ w.userdata.length := by omega
    have hwrite : writeAt w.userdata (index * CHUNK_MB * MB) (blobAt image index) =
        patch w.userdata (index * CHUNK_MB * MB) (blobAt image index) := by
      rw [writeAt, List.take_of_length_le (by omega)]
    have hchunk : slice (patch w.userdata (index * CHUNK_MB * MB) (blobAt image index))
        (index * CHUNK_MB * MB) (index * CHUNK_MB * MB + (blobAt image index).length) =
          blobAt image index := slice_patch (by omega)
    have hback := readMb_chunk hmb
      (patch w.userdata (index * CHUNK_MB * MB) (blobAt image index)) index
    rw [hchunk] at hback
    let v : World := { w with
      remote := some (blobAt image index), scratch := some (blobAt image index) }
    let u : World := { v with
      userdata := patch w.userdata (index * CHUNK_MB * MB) (blobAt image index) }
    have hdd : effect sha256 size (done "") v (.ddWrite NODE (index * CHUNK_MB)) = some u := by
      simp [effect, done, hwrite, v, u]
    refine ⟨(counts.1 + 1, counts.2), u, ?_, upto_succ ?_ hstart ?_ hchunk⟩
    · refine (can_digest hword).bind ?_
      rw [Option.getD_some, if_neg hfound]
      refine (can_perform (done "") rfl rfl).bind ?_
      refine (can_adb "" rfl).bind ((can_adb "" (t := u) hdd).bind ?_)
      refine (can_digest hword).bind ((can_require ?_).bind ((can_print _).bind can_pure))
      rw [Option.getD_some, hback]
      exact decide_eq_true rfl
    · exact (length_patch hroom).symm ▸ hfits
    · have hkeep : slice (patch w.userdata (index * CHUNK_MB * MB) (blobAt image index)) 0
          (index * CHUNK_MB * MB) = slice w.userdata 0 (index * CHUNK_MB * MB) :=
        slice_patch_before (by omega) le_rfl
      simp only [slice, List.drop_zero, Nat.sub_zero] at hkeep
      exact hkeep.trans hfront

/-- **A run in which every command succeeds** comes to `e2fsck`. -/
theorem undisturbed_run (hinj : Function.Injective sha256)
    (hword : ∀ b, firstWord (sha256 b) = some (sha256 b)) (hmb : image.length % MB = 0)
    (hfits : image.length ≤ w.userdata.length) :
    ∃ t k tr, (phone sha256 image.length).Within anyStep (main sha256 image scratch).run w tr
      (.op (.adb (.e2fsck NODE)) k) t := by
  have hloop : ∃ counts t, Can (phone sha256 image.length) anyStep
      (flashChunks sha256 image scratch NODE) w counts t ∧
      Upto image (List.range ((image.length / MB + CHUNK_MB - 1) / CHUNK_MB)).length t := by
    refine can_foldlM (I := fun indices => Upto image indices.length) ?_ ⟨hfits, by simp⟩
    intro before index later hl counts u hu
    obtain ⟨rfl, hindex⟩ := range_split hl
    rw [List.length_append]
    exact can_flashChunk hinj hword hmb hindex hu
  obtain ⟨counts, v, hchunks, hv⟩ := hloop
  rw [List.length_range] at hv
  have hall : image.length / MB * MB = image.length :=
    Nat.div_mul_cancel (Nat.dvd_of_mod_eq_zero hmb)
  have hcorrect : Correct image v := by
    have hlast : image.length ≤ (image.length / MB + CHUNK_MB - 1) / CHUNK_MB * CHUNK_MB * MB := by
      conv_lhs => rw [← hall]
      refine Nat.mul_le_mul_right MB ?_
      simp only [CHUNK_MB]
      omega
    have hv := hv.2
    rwa [Nat.min_eq_right hlast, List.take_of_length_le hlast] at hv
  have hread : readMb v.userdata 0 (image.length / MB) = image := by
    rw [readMb, Nat.zero_add, hall, Nat.zero_mul, slice, List.drop_zero, Nat.sub_zero]
    exact hcorrect
  have hback : Can (phone sha256 image.length) anyStep (readBack sha256 image NODE)
      { v with scratch := none, remote := none } ()
      { v with scratch := none, remote := none } := by
    refine (can_print _).bind ((can_digest hword).bind ((can_require ?_).bind (can_print _)))
    exact decide_eq_true (congrArg sha256 hread)
  refine ⟨{ v with scratch := none, remote := none },
    fun check => (print (.checked check.last)).run,
    (can_prepare hmb).within (hchunks.within ?_)⟩
  refine (can_perform (done "") rfl rfl).within ((can_adb "" rfl).within ?_)
  exact (can_print _).within (hback.within ⟨[], .here .refl⟩)

end Script

/-- An injective digest which is that of SHA-256 on two strings, 1 MiB of zeros and of ones, and
spells out the others. -/
def spelled (b : Bytes) : String :=
  if b = zeros MB then "30e14955ebf1352266dc2ff8067e68104607e750abb9d3b36582b8af909fcb58"
  else if b = List.replicate MB 0xff then
    "f5fb04aa5b882706b9309e885f19477261336ef76a150c3b4d3489dfac3953ec"
  else String.ofList ('x' :: b.map (fun x => Char.ofNat (256 + x.toNat)))

theorem toNat_letter (x : UInt8) : (Char.ofNat (256 + x.toNat)).toNat = 256 + x.toNat := by
  have hall : ∀ n : Fin 256, (Char.ofNat (256 + n)).toNat = 256 + n := by decide +kernel
  exact hall ⟨x.toNat, x.toNat_lt⟩

theorem spelled_cases (b : Bytes) :
    (b = zeros MB ∧ (spelled b).toList.head? = some '3') ∨
    (b = List.replicate MB 0xff ∧ (spelled b).toList.head? = some 'f') ∨
    (spelled b).toList = 'x' :: b.map (fun x => Char.ofNat (256 + x.toNat)) := by
  unfold spelled
  split
  · rename_i h
    exact .inl ⟨h, by decide +kernel⟩
  · split
    · rename_i h
      exact .inr (.inl ⟨h, by decide +kernel⟩)
    · exact .inr (.inr (String.toList_ofList))

theorem spelled_injective : Function.Injective spelled := by
  intro a b hab
  have hlist := congrArg String.toList hab
  have hletter : Function.Injective (fun x : UInt8 => Char.ofNat (256 + x.toNat)) := by
    intro x y hxy
    have hnat := congrArg Char.toNat hxy
    simp only [toNat_letter] at hnat
    exact UInt8.toNat_inj.mp (by omega)
  rcases spelled_cases a with ⟨ha, hfirst⟩ | ⟨ha, hfirst⟩ | ha <;>
    rcases spelled_cases b with ⟨hb, hfirst'⟩ | ⟨hb, hfirst'⟩ | hb
  · exact ha.trans hb.symm
  · rw [hlist, hfirst'] at hfirst
    exact absurd hfirst (by decide)
  · rw [hlist, hb] at hfirst
    exact absurd hfirst (by simp)
  · rw [hlist, hfirst'] at hfirst
    exact absurd hfirst (by decide)
  · exact ha.trans hb.symm
  · rw [hlist, hb] at hfirst
    exact absurd hfirst (by simp)
  · rw [← hlist, ha] at hfirst'
    exact absurd hfirst' (by simp)
  · rw [← hlist, ha] at hfirst'
    exact absurd hfirst' (by simp)
  · rw [ha, hb] at hlist
    exact List.map_injective_iff.mpr hletter (List.cons.inj hlist).2

theorem firstWord_spelled (b : Bytes) : firstWord (spelled b) = some (spelled b) := by
  unfold spelled
  split
  · decide +kernel
  · split
    · decide +kernel
    · refine firstWord_ofList (fun c hc => ?_)
      rcases List.mem_cons.mp hc with rfl | hc
      · decide
      · obtain ⟨x, -, rfl⟩ := List.mem_map.mp hc
        simp only [space, toNat_letter, Bool.or_eq_false_iff, Bool.and_eq_false_iff,
          decide_eq_false_iff_not]
        omega

/-- An image of 1 MiB of zeros, over ones. -/
theorem readback_verified_zeros : ∃ t k tr,
    (phone spelled (zeros MB).length).Within anyStep (main spelled (zeros MB) "chunk.tmp").run
      ⟨List.replicate MB 0xff ++ [7], none, none⟩ tr (.op (.adb (.e2fsck NODE)) k) t ∧
    Correct (zeros MB) t ∧ t.userdata.drop (zeros MB).length = [7] := by
  have hones : (List.replicate MB (0xff : UInt8)).length = (zeros MB).length := by simp
  have hrun : ∃ t k tr,
      (phone spelled (zeros MB).length).Within anyStep (main spelled (zeros MB) "chunk.tmp").run
        ⟨List.replicate MB 0xff ++ [7], none, none⟩ tr (.op (.adb (.e2fsck NODE)) k) t :=
    undisturbed_run spelled_injective firstWord_spelled (by simp) (by simp)
  obtain ⟨t, k, tr, hrun⟩ := hrun
  obtain ⟨hcorrect, hbehind⟩ :=
    (readback_verified spelled_injective (.start _) hrun).1 _ k rfl trivial
  exact ⟨t, k, tr, hrun, hcorrect, hbehind.trans (List.drop_left' hones)⟩

end S9p.Rootfs.Flash
