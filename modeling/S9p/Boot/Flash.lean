/-
# Writing a boot image over adb

`flash_s9plus_boot_adb.py` writes one image to the BOOT partition of one phone.  It settles on a
serial number, checks the image and the phone, pushes the image, compares the copy, writes it with
`dd`, reads BOOT back and only then reboots.

* `usb` answers the commands, with any number of phones on it.  A push sends the file as it is by
  then, which need not be what the script has read, and one that fails leaves any file behind.
  Whether `dd` succeeds or not, anything may have landed where it was to write.
* `boot_verified`: wherever a run stops, it has touched one phone, and of that phone BOOT; BOOT
  has been written only on the phone it is made for, and the phone rebooted only from the image,
  which is still on BOOT after that.
* `undisturbed_run`: a run in which every command succeeds comes to the reboot.
-/
import S9p.Boot.Image
import S9p.PatchTree.Change
import S9p.Rootfs.Flash

namespace S9p.Boot.Flash

open Bytes Device Reading
open PatchTree (splitlines)

/-! ## 1. The script

Every command is one `adb` call that ends in a status and an output.  The script stops at the first
thing that is not as it should be, with one of Python's exceptions. -/

def BOOT : String := "/dev/block/platform/11120000.ufs/by-name/BOOT"
def remote : String := "/tmp/s9plus-native-boot.img"

/-- The node BOOT has to be. -/
def NODE : String := "/dev/block/sda10"

/-- The `adb` commands of the script. -/
inductive Adb where
  | getState
  | getprop
  | userId
  | readlink
  | getsize64
  | push (image : String)
  | sha256sum
  | dd
  | head (count : Nat)
  | reboot
  deriving DecidableEq

/-- `*args`. -/
def Adb.args : Adb → List String
  | .getState => ["get-state"]
  | .getprop => ["shell", "getprop ro.product.device"]
  | .userId => ["shell", "id -u"]
  | .readlink => ["shell", s!"readlink -f {BOOT}"]
  | .getsize64 => ["shell", s!"blockdev --getsize64 {BOOT}"]
  | .push image => ["push", image, remote]
  | .sha256sum => ["shell", s!"sha256sum {remote}"]
  | .dd => ["shell", s!"dd if={remote} of={BOOT} bs=1048576 && sync"]
  | .head count => ["shell", s!"head -c {count} {BOOT} | sha256sum"]
  | .reboot => ["reboot"]

/-- What is left of a command that has ended: whether its status is 0, and its output, which
`adb` strips. -/
structure Output where
  ok : Bool
  stdout : String

/-- What is printed. -/
inductive Line where
  | output (text : String)
  | verified (sha256 : String) (bytes : Nat)

/-- How the script ends early: `SystemExit`, `CalledProcessError`, `ValueError` of `int`,
`IndexError` of `split()[0]`, `struct.error`. -/
inductive Stop where
  | exit (message : String)
  | called
  | value (text : String)
  | index
  | struct

/-- What the script does to the world. -/
inductive Op where
  | devices
  | adb (serial : String) (command : Adb)
  | print (line : Line)

@[reducible] def Ans : Op → Type
  | .print _ => Unit
  | _ => Output

abbrev M := ExceptT Stop (Prog Op Ans)

def perform (o : Op) : M (Ans o) := liftM (Prog.perform o : Prog Op Ans (Ans o))

def print (line : Line) : M Unit := perform (.print line)

def require (ok : Bool) (message : String) : M Unit :=
  if ok then pure () else throw (.exit message)

/-- `split()[0]`. -/
def word (text : String) : M String :=
  match firstWord text with
  | some w => pure w
  | none => throw .index

/-- The lines of the listing that are taken for an S9+. -/
def hits (stdout : String) : List String :=
  (((splitlines stdout.toList).drop 1).filter
    ("device:star2lte".toList <:+: ·)).map String.ofList

/-- `find_serial`; `env` is `S9PLUS_SERIAL`. -/
def findSerial (env : Option String) : M String :=
  match env.filter (· ≠ "") with
  | some serial => pure serial
  | none => do
    let out ← perform .devices
    if out.ok then do
      let serials ← (hits out.stdout).mapM word
      match serials with
      | [serial] => return serial
      | _ => throw (.exit (s!"{serials.length} Galaxy S9+ (star2lte) devices on adb - " ++
          "set S9PLUS_SERIAL to the one to write"))
    else throw .called

/-- `adb`. -/
def adb (serial : String) (command : Adb) : M String := do
  let out ← perform (.adb serial command)
  if out.ok then return out.stdout else throw .called

/-- The checks of the image; `inDist` is whether it lies under `dist`. -/
def checkImage (inDist : Bool) (blob : Bytes) : M Unit := do
  require inDist "Image must be in this S9+ project"
  require (slice blob 0 8 = MAGIC) "Not an Android-format boot image"
  match unpackLe 4 blob 36 with
  | none => throw .struct
  | some n => require (n = 2048) "Unexpected page size"

/-- The checks of the phone. -/
def checkPhone (serial : String) (blob : Bytes) : M Unit := do
  let state ← adb serial .getState
  require (state = "recovery") "Samsung is not in recovery"
  let device ← adb serial .getprop
  require (device = "star2lte") "Wrong device"
  let user ← adb serial .userId
  require (user = "0") "Recovery is not root"
  let node ← adb serial .readlink
  require (node = NODE) "BOOT mapping changed"
  let text ← adb serial .getsize64
  match int text with
  | none => throw (.value text)
  | some size => require (blob.length ≤ size) "Image does not fit"

section Script

variable (sha256 : Bytes → String) (serial path : String) (blob : Bytes)

/-- The image goes to the phone and to BOOT. -/
def write : M Unit := do
  let expected := sha256 blob
  let pushed ← adb serial (.push path)
  print (.output pushed)
  let copy ← adb serial .sha256sum >>= word
  require (copy = expected) "USB copy checksum mismatch"
  let written ← adb serial .dd
  print (.output written)
  let actual ← adb serial (.head blob.length) >>= word
  require (actual = expected) "BOOT readback checksum mismatch; left in recovery"
  print (.verified expected blob.length)
  let out ← adb serial .reboot
  print (.output out)

/-- The script. -/
def main (env : Option String) (inDist : Bool) : M Unit := do
  let serial ← findSerial env
  checkImage inDist blob
  checkPhone serial blob
  write sha256 serial path blob

end Script

/-! ## 2. The phones

The phones are the environment of the script, and the script is all that talks to them while it
runs.  A phone may leave anything behind where a command has failed. -/

/-- A phone: what it says of itself, where the BOOT link leads, the contents of its block
devices, and the file at `remote`.  How often it has been told to reboot is only recorded, so that
a state after that can be told from one before: a phone may well come back to recovery. -/
structure Phone where
  state : String
  product : String
  user : String
  boot : String
  parts : String → Option Bytes
  file : Option Bytes
  reboots : Nat

/-- The phones on adb, by serial number. -/
abbrev World := String → Option Phone

/-- How a command ends.  The last three say what a push sends or leaves at `remote`, what lands on
the block device of a `dd`, and what becomes of a phone that is told to reboot.  None of it is
decided by the script, and a command that is reported as failed may have done its work. -/
structure Outcome extends Output where
  file : Option Bytes
  landed : Bytes
  state : String

/-- A command that prints `text` and does nothing else. -/
def told (c : Outcome) (text : String) (p : Phone) : Option Phone :=
  if c.ok = true ∧ c.stdout ≠ text then none else some p

/-- A command whose first word is the digest of `data`. -/
def digested (sha256 : Bytes → String) (c : Outcome) (data : Option Bytes) (p : Phone) :
    Option Phone :=
  if c.ok = true ∧ (data = none ∨ firstWord c.stdout ≠ data.map sha256) then none else some p

/-- `data` at the start of the node BOOT leads to. -/
def Phone.overwrite (p : Phone) (old data : Bytes) : Phone :=
  { p with parts := Function.update p.parts p.boot (some (patch old 0 data)) }

/-- What a command does to its phone.  A pipe to `sha256sum` ends well even if nothing can be
read. -/
def effect (sha256 : Bytes → String) (c : Outcome) (p : Phone) : Adb → Option Phone
  | .getState => told c p.state p
  | .getprop => told c p.product p
  | .userId => told c p.user p
  | .readlink => told c p.boot p
  | .getsize64 =>
      if c.ok = true ∧ (p.parts p.boot = none ∨
          int c.stdout ≠ (p.parts p.boot).map (fun b => (b.length : Int))) then none
      else some p
  | .push _ => if c.ok = true ∧ c.file = none then none else some { p with file := c.file }
  | .sha256sum => digested sha256 c p.file p
  | .dd =>
      match p.file, p.parts p.boot with
      | some data, some old =>
        if c.landed.length ≤ min data.length old.length ∧
            (c.ok = true → data.length ≤ old.length) then some (p.overwrite old c.landed)
        else none
      | _, _ => if c.ok then none else some p
  | .head count => digested sha256 c (some (((p.parts p.boot).getD []).take count)) p
  | .reboot => some { p with state := c.state, reboots := p.reboots + 1 }

/-- **What an operation does.**  A phone that is not there fails every command; what becomes of the
others is said by `effect`. -/
def act (sha256 : Bytes → String) : (o : Op) → Outcome → World → Option (Ans o × World)
  | .devices, c, w => some (c.toOutput, w)
  | .adb serial command, c, w =>
      match w serial with
      | none => if c.ok then none else some (c.toOutput, w)
      | some p =>
        (effect sha256 c p command).map (fun p' => (c.toOutput, Function.update w serial (some p')))
  | .print _, _, w => some ((), w)

/-- The phones, which do nothing on their own. -/
def usb (sha256 : Bytes → String) : Device Op Ans World Empty Outcome where
  env := fun e _ => nomatch e
  act := act sha256

/-- Every step passes. -/
def anyStep : World → (o : Op) → Outcome → Bool := fun _ _ _ => true

variable {sha256 : Bytes → String} {inDist : Bool} {blob : Bytes} {serial path : String}
  {w t : World} {p p₁ : Phone}

theorem usb_still : (usb sha256).Still := fun _ e => nomatch e

theorem drift_eq (h : (usb sha256).Drift w t) : t = w := (usb_still (· = w)).drift h rfl

/-! ## 3. What a run may do

The step property is for one serial number.  It says at each command what has been done so far, and
to whom. -/

/-- The phone and the image the script goes on with. -/
structure Accepted (inDist : Bool) (blob : Bytes) (p : Phone) : Prop where
  inDist : inDist = true
  android : slice blob 0 8 = MAGIC
  page : unpackLe 4 blob 36 = some 2048
  recovery : p.state = "recovery"
  star2lte : p.product = "star2lte"
  root : p.user = "0"
  boot : p.boot = NODE
  room : ∃ old, p.parts NODE = some old ∧ blob.length ≤ old.length

/-- BOOT begins with the image, in front of what was behind it. -/
def Holds (blob : Bytes) (p p' : Phone) : Prop :=
  ∃ old, p.parts NODE = some old ∧ p'.parts NODE = some (blob ++ old.drop blob.length)

/-- What a run does to its phone: other block devices stay, and so does what lies behind the image
on BOOT; the phone is told to reboot, and leaves recovery, only with the image. -/
structure Touched (inDist : Bool) (blob : Bytes) (p p' : Phone) : Prop where
  elsewhere : ∀ node, node ≠ NODE → p'.parts node = p.parts node
  written : p'.parts NODE = p.parts NODE ∨ Accepted inDist blob p ∧
    ∃ old x, p.parts NODE = some old ∧ x.length ≤ blob.length ∧
      p'.parts NODE = some (patch old 0 x)
  rebooted : p'.state = p.state ∧ p'.reboots = p.reboots ∨
    Accepted inDist blob p ∧ Holds blob p p'

/-- Where BOOT is known to hold the image. -/
def Final : Op → Prop
  | .adb _ .reboot => True
  | .print (.verified _ _) => True
  | _ => False

/-- The step property of a run for one phone.  A property of what has been done so far, at every
command of the run, whatever is done afterwards. -/
structure Served (serial : String) (inDist : Bool) (blob : Bytes) (w t : World) (o : Option Op) :
    Prop where
  others : ∀ k, k ≠ serial → t k = w k
  mine : t serial = w serial ∨
    ∃ p p', w serial = some p ∧ t serial = some p' ∧ Touched inDist blob p p'
  address : ∀ k c, o = some (.adb k c) → k = serial
  final : ∀ op, o = some op → Final op → ∃ p p', w serial = some p ∧ t serial = some p' ∧
    Accepted inDist blob p ∧ Holds blob p p'

theorem Touched.refl : Touched inDist blob p p := ⟨fun _ _ => rfl, .inl rfl, .inl ⟨rfl, rfl⟩⟩

/-- At a step that leaves the other phones alone. -/
theorem served_at {o : Option Op} (hp : w serial = some p) (hT : Touched inDist blob p p₁)
    (haddr : ∀ k c, o = some (.adb k c) → k = serial)
    (hfinal : ∀ op, o = some op → Final op → Accepted inDist blob p ∧ Holds blob p p₁) :
    Served serial inDist blob w (Function.update w serial (some p₁)) o where
  others _ hk := Function.update_of_ne hk _ _
  mine := .inr ⟨p, p₁, hp, Function.update_self .., hT⟩
  address := haddr
  final op ho hop := ⟨p, p₁, hp, Function.update_self .., hfinal op ho hop⟩

theorem served_none (hp : w serial = some p) (hT : Touched inDist blob p p₁) :
    Served serial inDist blob w (Function.update w serial (some p₁)) none :=
  served_at hp hT (fun _ _ ho => nomatch ho) (fun _ ho => nomatch ho)

/-! ## 4. Rules for the commands

There is one rule for `adb`, and the commands are cases of it: those that look, those that print a
digest, and the three that write. -/

section Rules

variable {E : Stop → World → Prop}

/-- **The rule for `adb`**, once the phone is known to be there. -/
theorem fwp_adb {command : Adb} {Q : String → World → Prop} (hp : w serial = some p)
    (hT : Touched inDist blob p p₁)
    (hfinal : Final (.adb serial command) → Accepted inDist blob p ∧ Holds blob p p₁)
    (hfail : ∀ c p₂, c.ok = false → effect sha256 c p₁ command = some p₂ →
      Touched inDist blob p p₂)
    (hok : ∀ c p₂, c.ok = true → effect sha256 c p₁ command = some p₂ →
      Touched inDist blob p p₂ ∧ Q c.stdout (Function.update w serial (some p₂))) :
    fwp (usb sha256) anyStep (Served serial inDist blob w) (adb serial command) Q
      (fun _ _ => True) (Function.update w serial (some p₁)) := by
  refine fwp_bind (fwp_act usb_still (served_at hp hT ?_ ?_) ?_)
  · rintro k c ⟨⟩
    rfl
  · rintro op ⟨⟩ hop
    exact hfinal hop
  rintro c r u - hact
  simp only [usb, act, Function.update_self, Function.update_idem, Option.map_eq_some_iff,
    Prod.mk.injEq] at hact
  obtain ⟨p₂, heff, rfl, rfl⟩ := hact
  cases hc : c.ok with
  | true =>
    obtain ⟨hT₂, hQ⟩ := hok c p₂ hc heff
    refine ⟨served_none hp hT₂, ?_⟩
    rw [if_pos rfl]
    exact fwp_done usb_still (served_none hp hT₂) hQ
  | false =>
    have hT₂ := hfail c p₂ hc heff
    refine ⟨served_none hp hT₂, ?_⟩
    rw [if_neg (by simp)]
    exact fwp_stop usb_still (served_none hp hT₂) trivial

/-- A command that looks at the phone. -/
theorem fwp_look {command : Adb} {Q : String → World → Prop} (hp : w serial = some p)
    (hT : Touched inDist blob p p₁) (hcommand : command ≠ .reboot)
    (hlook : ∀ c p₂, effect sha256 c p₁ command = some p₂ → p₂ = p₁)
    (hQ : ∀ c, c.ok = true → effect sha256 c p₁ command = some p₁ →
      Q c.stdout (Function.update w serial (some p₁))) :
    fwp (usb sha256) anyStep (Served serial inDist blob w) (adb serial command) Q
      (fun _ _ => True) (Function.update w serial (some p₁)) := by
  refine fwp_adb hp hT (fun hfinal => ?_) (fun c p₂ _ heff => ?_) (fun c p₂ hc heff => ?_)
  · cases command <;> first | exact absurd hfinal id | exact absurd rfl hcommand
  · exact hlook c p₂ heff ▸ hT
  · obtain rfl := hlook c p₂ heff
    exact ⟨hT, hQ c hc heff⟩

theorem told_eq {c : Outcome} {text : String} {p₂ : Phone} (h : told c text p₁ = some p₂) :
    p₂ = p₁ ∧ (c.ok = true → c.stdout = text) := by
  unfold told at h
  split at h
  · exact absurd h (by simp)
  · rename_i hc
    refine ⟨(Option.some.inj h).symm, fun hok => ?_⟩
    by_contra hne
    exact hc ⟨hok, hne⟩

theorem digested_eq {c : Outcome} {data : Option Bytes} {p₂ : Phone}
    (h : digested sha256 c data p₁ = some p₂) :
    p₂ = p₁ ∧ (c.ok = true → ∃ b, data = some b ∧ firstWord c.stdout = some (sha256 b)) := by
  unfold digested at h
  split at h
  · exact absurd h (by simp)
  · rename_i hc
    refine ⟨(Option.some.inj h).symm, fun hok => ?_⟩
    obtain ⟨hdata, hword⟩ := not_or.mp (fun hbad => hc ⟨hok, hbad⟩)
    obtain ⟨b, rfl⟩ := Option.ne_none_iff_exists'.mp hdata
    exact ⟨b, rfl, not_not.mp hword⟩

/-- What lands of a `dd` is no longer than the file. -/
theorem effect_dd {c : Outcome} {p₂ : Phone} {data old : Bytes} (hdata : p₁.file = some data)
    (hold : p₁.parts p₁.boot = some old) (heff : effect sha256 c p₁ .dd = some p₂) :
    c.landed.length ≤ data.length ∧ p₂ = p₁.overwrite old c.landed := by
  simp only [effect, hdata, hold, Option.ite_none_right_eq_some, Option.some.injEq] at heff
  exact ⟨heff.1.1.trans (Nat.min_le_left _ _), heff.2.symm⟩

/-- A command that prints a digest. -/
theorem fwp_digest {command : Adb} {data : Option Bytes} {Q : String → World → Prop}
    (hp : w serial = some p) (hT : Touched inDist blob p p₁) (hcommand : command ≠ .reboot)
    (heff : ∀ c, effect sha256 c p₁ command = digested sha256 c data p₁)
    (hQ : ∀ b, data = some b → Q (sha256 b) (Function.update w serial (some p₁))) :
    fwp (usb sha256) anyStep (Served serial inDist blob w) (adb serial command >>= word) Q
      (fun _ _ => True) (Function.update w serial (some p₁)) := by
  refine fwp_bind (fwp_look hp hT hcommand (fun c p₂ h => (digested_eq (heff c ▸ h)).1) ?_)
  intro c hc h
  obtain ⟨b, hdata, hword⟩ := (digested_eq (heff c ▸ h)).2 hc
  rw [word, hword]
  exact fwp_done usb_still (served_none hp hT) (hQ b hdata)

/-- A command that prints what the phone says of itself, and what is asked of it. -/
theorem fwp_told {command : Adb} {text want message : String} {rest : M Unit}
    {Q : Unit → World → Prop} (hp : w serial = some p) (hcommand : command ≠ .reboot)
    (hT : Touched inDist blob p p₁)
    (heff : ∀ c, effect sha256 c p₁ command = told c text p₁)
    (hrest : text = want → fwp (usb sha256) anyStep (Served serial inDist blob w) rest Q
      (fun _ _ => True) (Function.update w serial (some p₁))) :
    fwp (usb sha256) anyStep (Served serial inDist blob w)
      (adb serial command >>= fun out => require (out = want) message >>= fun _ => rest) Q
      (fun _ _ => True) (Function.update w serial (some p₁)) := by
  refine fwp_bind (fwp_look hp hT hcommand (fun c p₂ h => (told_eq (heff c ▸ h)).1) ?_)
  intro c hc h
  rw [(told_eq (heff c ▸ h)).2 hc]
  refine fwp_bind ?_
  unfold require
  split
  · rename_i hw
    exact fwp_done usb_still (served_none hp hT) (hrest (of_decide_eq_true hw))
  · exact fwp_stop usb_still (served_none hp hT) trivial

end Rules

/-! ## 5. A run

The checks come first and touch nothing, so a run that stops in them has nothing to account for. -/

theorem fwp_print {line : Line} {Q : Unit → World → Prop} (hp : w serial = some p)
    (hT : Touched inDist blob p p₁)
    (hfinal : Final (.print line) → Accepted inDist blob p ∧ Holds blob p p₁)
    (hQ : Q () (Function.update w serial (some p₁))) :
    fwp (usb sha256) anyStep (Served serial inDist blob w) (print line) Q (fun _ _ => True)
      (Function.update w serial (some p₁)) := by
  refine fwp_act usb_still (served_at hp hT (fun k c ho => nomatch ho) ?_) ?_
  · rintro op ⟨⟩ hop
    exact hfinal hop
  · rintro c r u - hact
    obtain ⟨rfl, rfl⟩ := Prod.mk.inj (Option.some.inj hact)
    exact ⟨served_none hp hT, hQ⟩

theorem fwp_require {S : World → Option Op → Prop} {b : Bool} {message : String}
    {Q : Unit → World → Prop} (hS : S t none) (hQ : b = true → Q () t) :
    fwp (usb sha256) anyStep S (require b message) Q (fun _ _ => True) t := by
  unfold require
  split
  · exact fwp_done usb_still hS (hQ ‹_›)
  · exact fwp_stop usb_still hS trivial

/-- The image is checked before the phone is asked anything. -/
theorem fwp_checkImage {S : World → Option Op → Prop} (hS : S t none) :
    fwp (usb sha256) anyStep S (checkImage inDist blob)
      (fun _ u => u = t ∧ inDist = true ∧ slice blob 0 8 = MAGIC ∧ unpackLe 4 blob 36 = some 2048)
      (fun _ _ => True) t := by
  refine fwp_bind (fwp_require hS (fun hdist => ?_))
  refine fwp_bind (fwp_require hS (fun hmagic => ?_))
  cases hpage : unpackLe 4 blob 36 with
  | none => exact fwp_stop usb_still hS trivial
  | some n =>
    refine fwp_require hS (fun hn => ⟨rfl, hdist, of_decide_eq_true hmagic, ?_⟩)
    rw [of_decide_eq_true hn]

/-- The phone stays as it is until all of the checks are through. -/
theorem fwp_checkPhone (hp : w serial = some p) (hdist : inDist = true)
    (hmagic : slice blob 0 8 = MAGIC) (hpage : unpackLe 4 blob 36 = some 2048) :
    fwp (usb sha256) anyStep (Served serial inDist blob w) (checkPhone serial blob)
      (fun _ t => t = Function.update w serial (some p) ∧ Accepted inDist blob p)
      (fun _ _ => True) (Function.update w serial (some p)) := by
  refine fwp_told hp (by simp) .refl (fun _ => rfl) (fun hstate => ?_)
  refine fwp_told hp (by simp) .refl (fun _ => rfl) (fun hproduct => ?_)
  refine fwp_told hp (by simp) .refl (fun _ => rfl) (fun huser => ?_)
  refine fwp_told hp (by simp) .refl (fun _ => rfl) (fun hboot => ?_)
  refine fwp_bind (fwp_look hp .refl (by simp) ?_ ?_)
  · intro c p₂ heff
    simp only [effect] at heff
    split at heff
    · exact absurd heff (by simp)
    · exact (Option.some.inj heff).symm
  intro c hc heff
  simp only [effect] at heff
  split at heff
  · exact absurd heff (by simp)
  rename_i hbad
  obtain ⟨hpart, hint⟩ := not_or.mp (fun h => hbad ⟨hc, h⟩)
  obtain ⟨old, hold⟩ := Option.ne_none_iff_exists'.mp hpart
  rw [not_not, hold, Option.map_some] at hint
  rw [hint]
  refine fwp_require (served_none hp .refl) (fun hroom => ⟨rfl, ?_⟩)
  have hlen : blob.length ≤ old.length := by exact_mod_cast of_decide_eq_true hroom
  exact ⟨hdist, hmagic, hpage, hstate, hproduct, huser, hboot, old, hboot ▸ hold, hlen⟩

/-- What lies behind the image stays, so BOOT holds the image once it begins with it. -/
theorem patch_eq {old x : Bytes} (hx : x.length ≤ blob.length)
    (h : (patch old 0 x).take blob.length = blob) :
    patch old 0 x = blob ++ old.drop blob.length := by
  have hdrop : (patch old 0 x).drop blob.length = old.drop blob.length := by
    rw [patch, List.take_zero, List.nil_append, Nat.zero_add, List.drop_append,
      List.drop_eq_nil_of_le hx, List.nil_append, List.drop_drop]
    congr 1
    omega
  rw [← List.take_append_drop blob.length (patch old 0 x), h, hdrop]

/-- **The rest of the run**, on a phone that has been accepted. -/
theorem fwp_write (hinj : Function.Injective sha256) (hp : w serial = some p)
    (hacc : Accepted inDist blob p) :
    fwp (usb sha256) anyStep (Served serial inDist blob w) (write sha256 serial path blob)
      (fun _ _ => True) (fun _ _ => True) (Function.update w serial (some p)) := by
  obtain ⟨old, hold, hroom⟩ := hacc.room
  -- a push leaves the block devices alone
  have hfile : ∀ file, Touched inDist blob p { p with file := file } :=
    fun _ => ⟨fun _ _ => rfl, .inl rfl, .inl ⟨rfl, rfl⟩⟩
  have hpush : ∀ (c : Outcome) (p₂ : Phone), effect sha256 c p (.push path) = some p₂ →
      p₂ = { p with file := c.file } := by
    intro c p₂ heff
    simp only [effect] at heff
    split at heff
    · exact absurd heff (by simp)
    · exact (Option.some.inj heff).symm
  refine fwp_bind (fwp_adb hp .refl (fun h => h.elim) (fun c p₂ _ heff => hpush c p₂ heff ▸ hfile _)
    (fun c p₂ _ heff => ?_))
  obtain rfl := hpush c p₂ heff
  refine ⟨hfile _, fwp_bind (fwp_print hp (hfile _) (fun h => h.elim) ?_)⟩
  refine fwp_bind (fwp_digest hp (hfile _) (by simp) (fun _ => rfl) (fun data hdata => ?_))
  refine fwp_bind (fwp_require (served_none hp (hfile _)) (fun hcopy => ?_))
  -- what is about to be written has the length of the image, whatever lands of it
  obtain rfl : data = blob := hinj (of_decide_eq_true hcopy)
  have hdd : ∀ (c' : Outcome) (p₂ : Phone),
      effect sha256 c' { p with file := c.file } .dd = some p₂ →
      c'.landed.length ≤ data.length ∧
        p₂ = ({ p with file := c.file } : Phone).overwrite old c'.landed :=
    fun _ _ heff => effect_dd hdata (hacc.boot ▸ hold) heff
  have hnode : ∀ x, (({ p with file := c.file } : Phone).overwrite old x).parts NODE =
      some (patch old 0 x) := by
    intro x
    simp [Phone.overwrite, hacc.boot]
  have hwritten : ∀ x : Bytes, x.length ≤ data.length →
      Touched inDist data p (({ p with file := c.file } : Phone).overwrite old x) := by
    refine fun x hx => ⟨fun node hne => ?_, .inr ⟨hacc, old, x, hold, hx, hnode x⟩,
      .inl ⟨rfl, rfl⟩⟩
    simp [Phone.overwrite, hacc.boot, hne]
  refine fwp_bind (fwp_adb hp (hfile _) (fun h => h.elim) (fun c' p₂ _ heff => ?_)
    (fun c' p₂ _ heff => ?_))
  · obtain ⟨hx, rfl⟩ := hdd c' p₂ heff
    exact hwritten _ hx
  obtain ⟨hx, rfl⟩ := hdd c' p₂ heff
  refine ⟨hwritten _ hx, fwp_bind (fwp_print hp (hwritten _ hx) (fun h => h.elim) ?_)⟩
  refine fwp_bind (fwp_digest hp (hwritten _ hx) (by simp) (fun _ => rfl) (fun back hback => ?_))
  refine fwp_bind (fwp_require (served_none hp (hwritten _ hx)) (fun heq => ?_))
  -- from here on BOOT is known to hold the image
  have hread := hinj (of_decide_eq_true heq)
  rw [← Option.some.inj hback] at hread
  have hholds : Holds data p (({ p with file := c.file } : Phone).overwrite old c'.landed) := by
    refine ⟨old, hold, ?_⟩
    have hboot : (({ p with file := c.file } : Phone).overwrite old c'.landed).boot = NODE :=
      hacc.boot
    rw [hboot, hnode, Option.getD_some] at hread
    rw [hnode, patch_eq hx hread]
  refine fwp_bind (fwp_print hp (hwritten _ hx) (fun _ => ⟨hacc, hholds⟩) ?_)
  have hreboot : ∀ (c₃ : Outcome) (p₂ : Phone),
      effect sha256 c₃ (({ p with file := c.file } : Phone).overwrite old c'.landed) .reboot =
        some p₂ → Touched inDist data p p₂ := by
    intro c₃ p₂ heff
    obtain rfl := Option.some.inj heff
    exact ⟨(hwritten _ hx).elsewhere, (hwritten _ hx).written, .inr ⟨hacc, hholds⟩⟩
  refine fwp_bind (fwp_adb hp (hwritten _ hx) (fun _ => ⟨hacc, hholds⟩)
    (fun c₃ p₂ _ heff => hreboot c₃ p₂ heff) (fun c₃ p₂ _ heff => ⟨hreboot c₃ p₂ heff, ?_⟩))
  exact fwp_print hp (hreboot c₃ p₂ heff) (fun h => h.elim) trivial

/-- What follows the choice of a phone. -/
def rest (sha256 : Bytes → String) (path : String) (blob : Bytes) (inDist : Bool)
    (serial : String) : M Unit := do
  checkImage inDist blob
  checkPhone serial blob
  write sha256 serial path blob

theorem fwp_rest (hinj : Function.Injective sha256) (hp : w serial = some p) :
    fwp (usb sha256) anyStep (Served serial inDist blob w) (rest sha256 path blob inDist serial)
      (fun _ _ => True) (fun _ _ => True) w := by
  have hsame : Function.update w serial (some p) = w := hp ▸ Function.update_eq_self _ _
  have hwhole : fwp (usb sha256) anyStep (Served serial inDist blob w)
      (rest sha256 path blob inDist serial) (fun _ _ => True) (fun _ _ => True)
      (Function.update w serial (some p)) := by
    refine fwp_bind (fwp_mono ?_ (fun _ _ h => h) (fwp_checkImage (served_none hp .refl)))
    rintro - _ ⟨rfl, hdist, hmagic, hpage⟩
    refine fwp_bind (fwp_mono ?_ (fun _ _ h => h) (fwp_checkPhone hp hdist hmagic hpage))
    rintro - _ ⟨rfl, hacc⟩
    exact fwp_write hinj hp hacc
  rwa [hsame] at hwhole

/-- Without the phone, the first command fails. -/
theorem fwp_rest_absent (hp : w serial = none) :
    fwp (usb sha256) anyStep (Served serial inDist blob w) (rest sha256 path blob inDist serial)
      (fun _ _ => True) (fun _ _ => True) w := by
  have hS : ∀ o : Option Op, (o = none ∨ o = some (.adb serial .getState)) →
      Served serial inDist blob w w o := by
    rintro o (rfl | rfl)
    · exact ⟨fun _ _ => rfl, .inl rfl, (fun _ _ ho => nomatch ho), (fun _ ho => nomatch ho)⟩
    · refine ⟨fun _ _ => rfl, .inl rfl, ?_, ?_⟩
      · rintro k c ⟨⟩
        rfl
      · rintro op ⟨⟩ hop
        exact hop.elim
  refine fwp_bind (fwp_mono ?_ (fun _ _ h => h) (fwp_checkImage (hS none (.inl rfl))))
  rintro - _ ⟨rfl, -⟩
  refine fwp_bind (fwp_bind (fwp_bind (fwp_act usb_still (hS _ (.inr rfl)) ?_)))
  rintro c r u - hact
  simp only [usb, act, hp, Option.ite_none_left_eq_some, Option.some.injEq, Prod.mk.injEq] at hact
  obtain ⟨hc, rfl, rfl⟩ := hact
  refine ⟨hS none (.inl rfl), ?_⟩
  rw [if_neg hc]
  exact fwp_stop usb_still (hS none (.inl rfl)) trivial

theorem fwp_words {S : World → Option Op → Prop} {l : List String} (hS : S t none) :
    fwp (usb sha256) anyStep S (l.mapM word) (fun _ u => u = t) (fun _ _ => True) t := by
  induction l with
  | nil => exact fwp_done usb_still hS rfl
  | cons text l ih =>
    rw [List.mapM_cons]
    refine fwp_bind ?_
    unfold word
    split
    · refine fwp_done usb_still hS (fwp_bind (fwp_mono ?_ (fun _ _ h => h) ih))
      rintro _ _ rfl
      exact fwp_done usb_still hS rfl
    · exact fwp_stop usb_still hS trivial

/-- While the phone is looked up, nothing is touched. -/
theorem fwp_findSerial (env : Option String) :
    fwp (usb sha256) anyStep (fun t o => t = w ∧ ∀ op, o = some op → op = .devices)
      (findSerial env) (fun serial t => t = w ∧ ∀ s, env = some s → s ≠ "" → serial = s)
      (fun _ _ => True) w := by
  unfold findSerial
  split
  · rename_i serial henv
    obtain ⟨rfl, -⟩ := Option.filter_eq_some_iff.mp henv
    refine fwp_done usb_still ⟨rfl, fun _ ho => nomatch ho⟩
      ⟨rfl, fun s hs _ => Option.some.inj hs⟩
  · rename_i henv
    have hnone : ∀ s, env = some s → s ≠ "" → ∀ serial : String, serial = s := by
      rintro s rfl hs
      exact absurd henv (by simp [hs])
    refine fwp_bind (fwp_act usb_still ⟨rfl, fun op ho => (Option.some.inj ho).symm⟩ ?_)
    rintro c r u - hact
    obtain ⟨rfl, rfl⟩ := Prod.mk.inj (Option.some.inj hact)
    refine ⟨⟨rfl, fun _ ho => nomatch ho⟩, ?_⟩
    have hstop : ∀ e, fwp (usb sha256) anyStep
        (fun t o => t = w ∧ ∀ op, o = some op → op = .devices) (throw e : M String)
        (fun serial t => t = w ∧ ∀ s, env = some s → s ≠ "" → serial = s) (fun _ _ => True) w :=
      fun _ => fwp_stop usb_still ⟨rfl, fun _ ho => nomatch ho⟩ trivial
    split
    · refine fwp_bind (fwp_mono ?_ (fun _ _ h => h) (fwp_words ⟨rfl, fun _ ho => nomatch ho⟩))
      rintro serials _ rfl
      split
      · exact fwp_done usb_still ⟨rfl, fun _ ho => nomatch ho⟩
          ⟨rfl, fun s hs hne => hnone s hs hne _⟩
      · exact hstop _
    · exact hstop _

/-- A reboot is recorded, and nothing else is. -/
theorem effect_reboots {command : Adb} {c : Outcome} (h : effect sha256 c p command = some p₁) :
    p₁.reboots = p.reboots + if command = .reboot then 1 else 0 := by
  cases command
  all_goals
    simp only [effect, told, digested] at h
    repeat' split at h
  all_goals cases h
  all_goals rfl

/-- The record only grows, and at a reboot it does. -/
theorem act_reboots {o : Op} {c : Outcome} {r : Ans o} (h : act sha256 o c w = some (r, t))
    (hp : w serial = some p) : ∃ p', t serial = some p' ∧ p.reboots ≤ p'.reboots ∧
      (o = .adb serial .reboot → p.reboots < p'.reboots) := by
  cases o with
  | devices | print =>
    simp only [act, Option.some.injEq, Prod.mk.injEq] at h
    exact ⟨p, h.2 ▸ hp, le_rfl, fun ho => nomatch ho⟩
  | adb k command =>
    by_cases hk : k = serial
    · subst hk
      simp only [act, hp] at h
      obtain ⟨p', heff, heq⟩ := Option.map_eq_some_iff.mp h
      obtain ⟨-, rfl⟩ := Prod.mk.inj heq
      have hcount := effect_reboots heff
      refine ⟨p', Function.update_self .., by omega, ?_⟩
      rintro ⟨⟩
      rw [if_pos rfl] at hcount
      omega
    · have hsame : t serial = w serial := by
        simp only [act] at h
        split at h
        · split at h
          · exact absurd h (by simp)
          · simp only [Option.some.injEq, Prod.mk.injEq] at h
            rw [h.2]
        · obtain ⟨p', -, heq⟩ := Option.map_eq_some_iff.mp h
          obtain ⟨-, rfl⟩ := Prod.mk.inj heq
          exact Function.update_of_ne (Ne.symm hk) _ _
      exact ⟨p, hsame.trans hp, le_rfl, fun ho => absurd (by cases ho; rfl) hk⟩

/-- After a reboot, whatever else has been done, the record is higher than before the run. -/
theorem reboots_of_within {α : Type} {q q' : Prog Op Ans α} {tr : List (Sigma Ans)}
    (h : (usb sha256).Within anyStep q w tr q' t) (hp : w serial = some p) :
    ∃ p', t serial = some p' ∧ p.reboots ≤ p'.reboots ∧
      ∀ r, ⟨.adb serial .reboot, r⟩ ∈ tr → p.reboots < p'.reboots := by
  induction h generalizing p with
  | here hst => exact ⟨p, drift_eq hst ▸ hp, le_rfl, by simp⟩
  | op ch hst _ hact _ ih =>
    obtain ⟨p₁, hp₁, hle₁, hlt₁⟩ := act_reboots hact (drift_eq hst ▸ hp)
    obtain ⟨p', hp', hle, hlt⟩ := ih hp₁
    refine ⟨p', hp', hle₁.trans hle, fun r hmem => ?_⟩
    rcases List.mem_cons.mp hmem with heq | hmem
    · cases heq
      exact (hlt₁ rfl).trans_le hle
    · exact hle₁.trans_lt (hlt r hmem)

theorem fwp_rest_served (hinj : Function.Injective sha256) :
    fwp (usb sha256) anyStep (Served serial inDist blob w) (rest sha256 path blob inDist serial)
      (fun _ _ => True) (fun _ _ => True) w := by
  cases hp : w serial with
  | none => exact fwp_rest_absent hp
  | some p => exact fwp_rest hinj hp

/-- **Ever after a reboot** BOOT holds the image.  The record tells that the state is one after a
reboot, and such a state is not the one the run began in. -/
theorem holds_of_rebooted {f : M Unit} {q : Prog Op Ans (Except Stop Unit)}
    {tr : List (Sigma Ans)} {r : Output}
    (hwp : fwp (usb sha256) anyStep (Served serial inDist blob w) f (fun _ _ => True)
      (fun _ _ => True) w)
    (hrun : (usb sha256).Within anyStep f.run w tr q t) (hmem : ⟨.adb serial .reboot, r⟩ ∈ tr) :
    ∃ p p', w serial = some p ∧ t serial = some p' ∧ Accepted inDist blob p ∧ Holds blob p p' := by
  have hthere := hrun.ops hwp (A := fun o => Final o → ∃ p, w serial = some p)
    (fun _ _ h hfinal => (h.final _ rfl hfinal).imp (fun _ h => h.choose_spec.1))
  obtain ⟨p, hp⟩ := hthere _ hmem trivial
  obtain ⟨p', hp', -, hlt⟩ := reboots_of_within hrun hp
  have hmore := hlt r hmem
  rcases hrun.mid hwp (fun _ _ h => h.mine) with hsame | ⟨p₁, p₂, hp₁, hp₂, hT⟩
  · rw [hsame, hp] at hp'
    obtain rfl := Option.some.inj hp'
    exact absurd hmore (lt_irrefl _)
  · obtain rfl := Option.some.inj (hp.symm.trans hp₁)
    obtain rfl := Option.some.inj (hp'.symm.trans hp₂)
    rcases hT.rebooted with ⟨-, hsame⟩ | hdone
    · omega
    · exact ⟨p, p', hp, hp', hdone⟩

/-- **One phone, and of it BOOT.**  Wherever a run stops, all commands have gone to one phone, the
one named in `S9PLUS_SERIAL` if one is; nothing else on adb has changed, nor any other block
device of that phone, nor what lies behind the image on BOOT.  BOOT is written on an S9+ in
recovery only; where the image is said to be verified and where the phone is told to reboot, BOOT
holds the image, and so it does ever after the reboot. -/
theorem boot_verified {env : Option String} {tr : List (Sigma Ans)}
    {q : Prog Op Ans (Except Stop Unit)} (hinj : Function.Injective sha256)
    (hrun : (usb sha256).Within anyStep (main sha256 path blob env inDist).run w tr q t) :
    ∃ serial, (∀ s, env = some s → s ≠ "" → serial = s) ∧
      (∀ k c r, ⟨.adb k c, r⟩ ∈ tr → k = serial) ∧
      (∀ k, k ≠ serial → t k = w k) ∧
      (t serial = w serial ∨
        ∃ p p', w serial = some p ∧ t serial = some p' ∧ Touched inDist blob p p') ∧
      (∀ o k, q = .op o k → Final o → ∃ p p', w serial = some p ∧ t serial = some p' ∧
        Accepted inDist blob p ∧ Holds blob p p') ∧
      ∀ k r, ⟨.adb k .reboot, r⟩ ∈ tr → ∃ p p', w serial = some p ∧ t serial = some p' ∧
        Accepted inDist blob p ∧ Holds blob p p' := by
  rcases of_within_bind (f := rest sha256 path blob inDist) hrun with
    ⟨q', hq', hop⟩ | ⟨tr₁, tr₂, serial, u, rfl, hruns, hrest⟩
  · -- no phone has been settled on
    obtain ⟨serial, hserial⟩ : ∃ serial, ∀ s, env = some s → s ≠ "" → serial = s := by
      cases env with
      | none => exact ⟨"", fun _ hs => nomatch hs⟩
      | some s => exact ⟨s, fun s' hs _ => Option.some.inj hs⟩
    have hw := hq'.mid (fwp_findSerial env) (fun _ _ h => h.1)
    have hops := hq'.ops (fwp_findSerial env) (A := (· = .devices)) (fun _ _ h => h.2 _ rfl)
    refine ⟨serial, hserial, fun k c r hmem => ?_, fun k _ => hw ▸ rfl, .inl (hw ▸ rfl), ?_,
      fun k r hmem => nomatch hops _ hmem⟩
    · exact nomatch hops _ hmem
    · rintro o k rfl hfinal
      obtain ⟨k', rfl⟩ := hop o k rfl
      obtain rfl := (hq'.at_op (fwp_findSerial env)).2 _ rfl
      exact hfinal.elim
  · obtain ⟨rfl, hserial⟩ := hruns.post (fwp_findSerial env)
    have hops := hruns.within.ops (fwp_findSerial env) (A := (· = .devices))
      (fun _ _ h => h.2 _ rfl)
    have hwp : fwp (usb sha256) anyStep (Served serial inDist blob u)
        (rest sha256 path blob inDist serial) (fun _ _ => True) (fun _ _ => True) u :=
      fwp_rest_served hinj
    have haddr := hrest.ops hwp (A := fun o => ∀ k c, o = .adb k c → k = serial)
      (fun _ _ h k c ho => h.address k c (congrArg some ho))
    refine ⟨serial, hserial, fun k c r hmem => ?_, hrest.mid hwp (fun _ _ h => h.others),
      hrest.mid hwp (fun _ _ h => h.mine), ?_, fun k r hmem => ?_⟩
    · rcases List.mem_append.mp hmem with hmem | hmem
      · exact nomatch hops _ hmem
      · exact haddr _ hmem k c rfl
    · rintro o k rfl hfinal
      exact (hrest.at_op hwp).final o rfl hfinal
    · rcases List.mem_append.mp hmem with hmem | hmem
      · exact nomatch hops _ hmem
      · obtain rfl := haddr _ hmem k .reboot rfl
        exact holds_of_rebooted hwp hrest hmem

/-! ## 6. A run in which every command succeeds

That a run can succeed says something about the script as well: none of its checks is stricter
than a good phone can meet. -/

/-- The way a command ends that prints `stdout` and succeeds. -/
def done (stdout : String) : Outcome where
  ok := true
  stdout := stdout
  file := none
  landed := []
  state := ""

theorem can_adb {command : Adb} {c : Outcome} (hp : w serial = some p) (hc : c.ok = true)
    (heff : effect sha256 c p command = some p₁) :
    Can (usb sha256) anyStep (adb serial command) w c.stdout
      (Function.update w serial (some p₁)) := by
  have hact : act sha256 (.adb serial command) c w =
      some (c.toOutput, Function.update w serial (some p₁)) := by
    simp only [act, hp, heff, Option.map_some]
  refine (can_perform c rfl hact).bind ?_
  rw [if_pos hc]
  exact can_pure

/-- A command that changes nothing. -/
theorem can_look {command : Adb} (stdout : String) (hp : w serial = some p)
    (heff : effect sha256 (done stdout) p command = some p) :
    Can (usb sha256) anyStep (adb serial command) w stdout w := by
  have hcan := can_adb (w := w) (c := done stdout) hp rfl heff
  rwa [← hp, Function.update_eq_self] at hcan

theorem can_require {b : Bool} {message : String} (h : b = true) :
    Can (usb sha256) anyStep (require b message) w () w := by
  rw [require, if_pos h]
  exact can_pure

theorem can_print (line : Line) : Can (usb sha256) anyStep (print line) w () w :=
  can_perform (done "") rfl rfl

theorem can_digest {command : Adb} {b : Bytes}
    (hword : ∀ b, firstWord (sha256 b) = some (sha256 b)) (hp : w serial = some p)
    (heff : ∀ c, effect sha256 c p command = digested sha256 c (some b) p) :
    Can (usb sha256) anyStep (adb serial command >>= word) w (sha256 b) w := by
  refine (can_look (sha256 b) hp ?_).bind ?_
  · rw [heff, digested, if_neg (by simp [done, hword])]
  · rw [word, hword]
    exact can_pure

theorem can_checkImage (hacc : Accepted inDist blob p) :
    Can (usb sha256) anyStep (checkImage inDist blob) w () w := by
  refine (can_require hacc.inDist).bind ((can_require (decide_eq_true hacc.android)).bind ?_)
  rw [hacc.page]
  exact can_require (decide_eq_true rfl)

theorem can_checkPhone (hp : w serial = some p) (hacc : Accepted inDist blob p) :
    Can (usb sha256) anyStep (checkPhone serial blob) w () w := by
  obtain ⟨old, hold, hroom⟩ := hacc.room
  have htold : ∀ {command : Adb} {text want message : String},
      (∀ c, effect sha256 c p command = told c text p) → text = want → ∀ {rest : M Unit},
      Can (usb sha256) anyStep rest w () w →
      Can (usb sha256) anyStep (adb serial command >>= fun out =>
        require (out = want) message >>= fun _ => rest) w () w := by
    rintro command text _ message heff rfl rest hrest
    refine (can_look text hp ?_).bind ((can_require (decide_eq_true rfl)).bind hrest)
    rw [heff, told, if_neg (by simp [done])]
  refine htold (fun _ => rfl) hacc.recovery (htold (fun _ => rfl) hacc.star2lte
    (htold (fun _ => rfl) hacc.root (htold (fun _ => rfl) hacc.boot ?_)))
  refine (can_look (String.ofList (Nat.toDigits 10 old.length)) hp ?_).bind ?_
  · simp [effect, hacc.boot, hold, done, int_toDigits]
  · rw [int_toDigits]
    exact can_require (decide_eq_true (by exact_mod_cast hroom))

/-- **A run in which every command succeeds** comes to the reboot. -/
theorem undisturbed_run (hword : ∀ b, firstWord (sha256 b) = some (sha256 b))
    (hp : w serial = some p) (hacc : Accepted inDist blob p) (hserial : serial ≠ "") :
    ∃ t k tr, (usb sha256).Within anyStep (main sha256 path blob (some serial) inDist).run w tr
      (.op (.adb serial .reboot) k) t := by
  obtain ⟨old, hold, hroom⟩ := hacc.room
  have hfind : findSerial (some serial) = pure serial := by
    unfold findSerial
    split
    · rename_i s hs
      obtain ⟨hs, -⟩ := Option.filter_eq_some_iff.mp hs
      rw [Option.some.inj hs]
    · rename_i hs
      exact absurd hs (by simp [hserial])
  -- the phone after the push, and after the `dd`
  have hnode : (({ p with file := some blob } : Phone).overwrite old blob).parts NODE =
      some (blob ++ old.drop blob.length) := by
    simp [Phone.overwrite, hacc.boot, patch]
  have hpush : effect sha256 { done "" with file := some blob } p (.push path) =
      some { p with file := some blob } := rfl
  have hdd : effect sha256 { done "" with landed := blob } { p with file := some blob } .dd =
      some (({ p with file := some blob } : Phone).overwrite old blob) := by
    simp [effect, hacc.boot, hold, hroom]
  have hhead : ∀ c, effect sha256 c (({ p with file := some blob } : Phone).overwrite old blob)
      (.head blob.length) = digested sha256 c (some blob)
        (({ p with file := some blob } : Phone).overwrite old blob) := by
    intro c
    have hboot : (({ p with file := some blob } : Phone).overwrite old blob).boot = NODE :=
      hacc.boot
    simp only [effect, hboot, hnode, Option.getD_some, List.take_left']
  obtain ⟨k, hk⟩ : ∃ k, (adb serial .reboot >>= fun out => print (.output out)).run =
      .op (.adb serial .reboot) k := ⟨_, rfl⟩
  unfold main
  rw [hfind, pure_bind]
  refine ⟨Function.update (Function.update w serial (some { p with file := some blob })) serial
    (some (({ p with file := some blob } : Phone).overwrite old blob)), k, ?_⟩
  refine (can_checkImage hacc).within ((can_checkPhone hp hacc).within ?_)
  refine (can_adb hp rfl hpush).within ((can_print _).within ?_)
  refine (can_digest hword (Function.update_self ..) (fun _ => rfl)).within ?_
  refine (can_require (decide_eq_true rfl)).within ?_
  refine (can_adb (Function.update_self ..) rfl hdd).within ((can_print _).within ?_)
  refine (can_digest hword (Function.update_self ..) hhead).within ?_
  refine (can_require (decide_eq_true rfl)).within ((can_print _).within ⟨[], ?_⟩)
  rw [hk]
  exact .here .refl

/-- A header, as much of it as is looked at. -/
def header : Bytes := MAGIC ++ zeros 28 ++ leBytes 4 2048

/-- An S9+ in recovery, and its BOOT. -/
def inRecovery (old : Bytes) : Phone where
  state := "recovery"
  product := "star2lte"
  user := "0"
  boot := NODE
  parts node := if node = NODE then some old else none
  file := none
  reboots := 0

/-- An injective digest which is that of SHA-256 on the header. -/
def digest (b : Bytes) : String :=
  if b = header then "c549d2a2b4e860bba2751fd5f7213528fcb6025874373616b4fdf88636e2f37b"
  else Rootfs.Flash.spelled b

theorem digest_injective : Function.Injective digest := by
  have hother : ∀ b, Rootfs.Flash.spelled b ≠
      "c549d2a2b4e860bba2751fd5f7213528fcb6025874373616b4fdf88636e2f37b" := by
    intro b heq
    have hfirst := Rootfs.Flash.spelled_cases b
    rw [heq] at hfirst
    rcases hfirst with ⟨-, h⟩ | ⟨-, h⟩ | h
    · exact absurd h (by decide +kernel)
    · exact absurd h (by decide +kernel)
    · exact absurd (congrArg List.head? h) (by rw [List.head?_cons]; decide +kernel)
  intro a b hab
  unfold digest at hab
  split at hab <;> split at hab
  · rename_i ha hb
    exact ha.trans hb.symm
  · exact absurd hab.symm (hother b)
  · exact absurd hab (hother a)
  · exact Rootfs.Flash.spelled_injective hab

theorem firstWord_digest (b : Bytes) : firstWord (digest b) = some (digest b) := by
  unfold digest
  split
  · decide +kernel
  · exact Rootfs.Flash.firstWord_spelled b

/-- Two phones on adb.  The one that is named has been told to reboot, and is back in recovery. -/
theorem boot_verified_header : ∃ t q tr,
    (usb digest).Within anyStep (main digest "boot.img" header (some "b1") true).run
      (fun _ => some (inRecovery (zeros 41))) tr q t ∧
    t "b2" = some (inRecovery (zeros 41)) ∧
    ∃ p, t "b1" = some p ∧ 0 < p.reboots ∧ p.state = "recovery" ∧
      p.parts NODE = some (header ++ [0]) := by
  have hacc : Accepted true header (inRecovery (zeros 41)) :=
    ⟨rfl, by decide, by decide, rfl, rfl, rfl, rfl, zeros 41, rfl, by decide⟩
  have hrun : ∃ t k tr, (usb digest).Within anyStep
      (main digest "boot.img" header (some "b1") true).run
      (fun _ => some (inRecovery (zeros 41))) tr (.op (.adb "b1" .reboot) k) t :=
    undisturbed_run firstWord_digest rfl hacc (by decide)
  obtain ⟨t, k, tr, hrun⟩ := hrun
  obtain ⟨serial, hserial, -, -, -, hpending, -⟩ := boot_verified digest_injective hrun
  obtain rfl := hserial "b1" rfl (by decide)
  obtain ⟨-, p, -, ht, -, -⟩ := hpending _ k rfl trivial
  let back : Outcome := { done "" with state := "recovery" }
  have hact : (usb digest).act (.adb "b1" .reboot) back t = some (back.toOutput, Function.update t
      "b1" (some { p with state := "recovery", reboots := p.reboots + 1 })) := by
    simp [usb, act, ht, effect, back]
  have hafter := hrun.concat back rfl hact
  obtain ⟨serial, hserial, -, hothers, -, -, hrebooted⟩ := boot_verified digest_injective hafter
  obtain rfl := hserial "b1" rfl (by decide)
  obtain ⟨p₀, p', hp₀, hp', -, old, hold, hboot⟩ :=
    hrebooted "b1" _ (List.mem_append_right _ List.mem_cons_self)
  obtain rfl := Option.some.inj hp₀
  obtain rfl := Option.some.inj hold
  refine ⟨_, _, _, hafter, hothers "b2" (by decide), p', hp', ?_, ?_, hboot⟩
  all_goals
    rw [Function.update_self] at hp'
    obtain rfl := Option.some.inj hp'
  · exact Nat.succ_pos _
  · rfl

end S9p.Boot.Flash
