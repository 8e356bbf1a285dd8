/-
# The flight recorder

`s9p-blackbox` writes every kernel message and a state line per minute to a log, and syncs what it
has written before it waits, so that a hard hang leaves its last minute on disk.  A log of more
than 4 MiB becomes `.1` and a new one is begun.

* `disk` is the file system the recorder writes to.  A crash keeps what has been synced and any
  beginning of what has been done since, down to a part of the last write.
* `flight_recorded`: after any number of boots, each cut off anywhere, the two files hold the end
  of everything that has reached the disk, and whatever is missing in front of it is more than
  4 MiB back; where the recorder waits, nothing it has written is still to be synced.
-/
import S9p.Lib.Bytes
import S9p.Lib.Fail
import S9p.Lib.Reading
import S9p.PatchTree.Change

namespace S9p.Recorder

open Bytes Device Reading
open PatchTree (splitlines)

/-- A text. -/
abbrev Txt := List Char

/-! ## 1. The script

The recorder waits for a kernel message or for the minute, and then writes and syncs.  It is
restarted at each boot and goes on with the same file. -/

def LIMIT : Nat := 4 <<< 20

/-- What a read of the kernel log ends in: a record, `BlockingIOError` or another `OSError`. -/
inductive Read where
  | record (text : Txt)
  | blocked
  | failed

/-- What the recorder asks of the system.  `rd` is the function of that name; the file that is
opened, synced and replaced is the log, wherever it is. -/
inductive Op where
  | openLog
  | write (data : Bytes)
  | fsync
  | fstat
  | close
  | replace
  | openKmsg
  | readKmsg
  | rd (path : String) (default : String)
  | strftime
  | monotonic
  | select

/-- The answers; `none` is an `OSError`.  Times are in nanoseconds. -/
@[reducible] def Ans : Op → Type
  | .write _ => Option Nat
  | .fstat => Option Nat
  | .readKmsg => Read
  | .rd _ _ => Txt
  | .strftime => Txt
  | .monotonic => Int
  | .select => Bool
  | _ => Option Unit

/-- How the recorder ends: `OSError`, `ValueError` of `int`, `IndexError`; `watched` is where it
is watched no longer. -/
inductive Stop where
  | os
  | value
  | index
  | watched

abbrev M := ExceptT Stop (Prog Op Ans)

def perform (o : Op) : M (Ans o) := liftM (Prog.perform o : Prog Op Ans (Ans o))

/-- The answer, or the `OSError`. -/
def got {α : Type} : Option α → M α
  | some a => pure a
  | none => throw .os

def rd (path : String) (default : String := "?") : M Txt := perform (.rd path default)

/-- `encode(errors="replace")`; what has been decoded has no surrogates. -/
def encode (text : Txt) : Bytes := text.flatMap String.utf8EncodeChar

/-- `split()`. -/
def words (text : Txt) : List Txt := (text.splitOnP space).filter (· ≠ [])

/-- `rstrip()`. -/
def rstrip (text : Txt) : Txt := (text.reverse.dropWhile space).reverse

/-- An element of a list. -/
def at? (l : List Txt) (i : Nat) : M Txt :=
  match l[i]? with
  | some text => pure text
  | none => throw .index

def cpufreq : String := "/sys/module/s9p_cpufreq/parameters/"
def g3d : String := "/sys/module/s9p_g3d/parameters/"
def policies : String := "/sys/devices/system/cpu/cpufreq/"

/-- `state`. -/
def state : M Txt := do
  let wl ← rd "/sys/class/net/wlp1s0/operstate"
  let up ← at? (words (← rd "/proc/uptime")) 0
  let load := [' '].intercalate ((words (← rd "/proc/loadavg")).take 3)
  let little ← rd (policies ++ "policy0/cpuinfo_cur_freq")
  let big ← rd (policies ++ "policy4/cpuinfo_cur_freq")
  let gpu ← rd (g3d ++ "cur_khz")
  let rail ← rd (g3d ++ "rail_uv")
  let tempLittle ← rd (cpufreq ++ "temp_little")
  let tempBig ← rd (cpufreq ++ "temp_big")
  let tempGpu ← rd (cpufreq ++ "temp_gpu")
  let idleFloor ← rd (cpufreq ++ "idle_floor")
  let stepVolt ← rd (g3d ++ "step_volt")
  let timeouts ← rd (cpufreq ++ "pll_lock_timeouts")
  let lines := splitlines (← rd "/proc/meminfo" "")
  let avail ← (lines.filter ("MemAvailable".toList.isPrefixOf ·)).mapM (fun l => at? (words l) 1)
  return "STATE up=".toList ++ up ++ " load=".toList ++ load ++ " little=".toList ++ little ++
    " big=".toList ++ big ++ " gpu=".toList ++ gpu ++ " rail=".toList ++ rail ++
    " temp(l/b/g)=".toList ++ tempLittle ++ ['/'] ++ tempBig ++ ['/'] ++ tempGpu ++
    " idle_floor=".toList ++ idleFloor ++ " step_volt=".toList ++ stepVolt ++
    " pll_to=".toList ++ timeouts ++ " wlan=".toList ++ wl ++ " mem_avail=".toList ++ avail.flatten

/-- `Out.open`. -/
def openOut : M Unit := do got (← perform .openLog)

def fsync : M Unit := do got (← perform .fsync)

def fstat : M Nat := do got (← perform .fstat)

def close : M Unit := do got (← perform .close)

def replace : M Unit := do got (← perform .replace)

def osWrite (data : Bytes) : M Nat := do got (← perform (.write data))

def openKmsg : M Unit := do got (← perform .openKmsg)

/-- `Out.sync`. -/
def sync : M Unit := do
  fsync
  let size ← fstat
  if LIMIT < size then do
    close
    replace
    openOut

/-- `Out.write`; what `os.write` returns is not looked at. -/
def write (line : Txt) (withSync : Bool) : M Unit := do
  let now ← perform .strftime
  let _ ← osWrite (encode (now ++ rstrip line ++ ['\n']))
  if withSync then sync

section Script

variable (millis : Int → Txt)

/-- The time of a record; `millis n` is `"%.3f" % (n / 1e6)`. -/
def stamp (f : List Txt) : M Txt :=
  if 2 < f.length then
    match int (String.ofList ((f[2]?).getD [])) with
    | some n => pure (millis n)
    | none => throw .value
  else pure ['?']

/-- The line of a record. -/
def kernelLine (text : Txt) : M Txt := do
  let f := (text.takeWhile (· ≠ ';')).splitOn ','
  let msg := (text.dropWhile (· ≠ ';')).drop 1
  let ts ← stamp millis f
  return "K[".toList ++ ts ++ "] <".toList ++ (f[0]?).getD [] ++ "> ".toList ++
    msg.takeWhile (· ≠ '\n')

/-- `while r:`, with `n` records written. -/
def records : Nat → Nat → M Nat
  | 0, _ => throw .watched
  | watch + 1, n => do
    match ← perform .readKmsg with
    | .blocked => return n
    | .failed => records watch n
    | .record text => do
      write (← kernelLine millis text) false
      records watch (n + 1)

/-- What is written is synced at the end. -/
def drain (watch : Nat) : M Unit := do
  let n ← records millis watch 0
  if n ≠ 0 then sync

def minute : Int := 60 * 1000000000

/-- The state line, if it is due; the result is `last`. -/
def everyMinute (last : Int) : M Int := do
  let now ← perform .monotonic
  if minute ≤ now - last then do
    write (← state) true
    return now
  else return last

/-- `select`, and what there is to read. -/
def wait (watch : Nat) : M Unit := do
  let ready ← perform .select
  if ready then drain millis watch

/-- `while True:`, watched for a while. -/
def loop : Nat → Int → M Unit
  | 0, _ => throw .watched
  | watch + 1, last => do
    let last ← everyMinute last
    wait millis watch
    loop watch last

/-- `main`. -/
def main (watch : Nat) : M Unit := do
  openOut
  let boot ← rd "/proc/sys/kernel/random/boot_id"
  let version ← rd "/proc/version"
  write ("BOOT ".toList ++ boot ++ [' '] ++ version) true
  openKmsg
  loop millis watch 0

end Script

/-! ## 2. The disk

What is synced is certain, and what has been done since may be lost from any point on.  The file
system keeps the order of the changes. -/

/-- The log and its predecessor. -/
structure Disk where
  log : Option Bytes
  old : Option Bytes

/-- What is done to the disk. -/
inductive Change where
  | create
  | append (data : Bytes)
  | rotate

def Disk.apply (d : Disk) : Change → Disk
  | .create => { d with log := some (d.log.getD []) }
  | .append data => { d with log := d.log.map (· ++ data) }
  | .rotate =>
    match d.log with
    | some log => ⟨none, some log⟩
    | none => d

/-- The bytes that are appended. -/
def Change.bytes : Change → Bytes
  | .append data => data
  | _ => []

/-- What is on the disk for certain, what has been done since, and, of what has been appended since
the boot, the part that is on the disk for certain.  The last one is history, and says what a reader
could count on after a crash. -/
structure Fs where
  base : Disk
  since : List Change
  synced : Bytes

/-- What the files would hold if nothing were lost. -/
def Fs.live (fs : Fs) : Disk := fs.since.foldl Disk.apply fs.base

/-- What has been written since the last sync. -/
def Fs.pending (fs : Fs) : Bytes := fs.since.flatMap Change.bytes

/-- At boot. -/
def fresh (d : Disk) : Fs := ⟨d, [], []⟩

/-- What the system answers. -/
structure Luck where
  fails : Bool
  count : Nat
  text : Txt
  record : Read
  now : Int
  ready : Bool

def Fs.change (fs : Fs) (c : Change) : Fs := { fs with since := fs.since ++ [c] }

/-- **What a call does.**  Each may fail; a write may take less than it was given.  What changes a
file goes to the end of what the disk has yet to get, and a sync empties that. -/
def act : (o : Op) → Luck → Fs → Option (Ans o × Fs)
  | .openLog, ch, fs => some (if ch.fails then (none, fs) else (some (), fs.change .create))
  | .write data, ch, fs =>
      if ch.fails then some (none, fs)
      else if ch.count ≤ data.length then
        some (some ch.count, fs.change (.append (data.take ch.count)))
      else none
  | .fsync, ch, fs =>
      some (if ch.fails then (none, fs) else (some (), ⟨fs.live, [], fs.synced ++ fs.pending⟩))
  | .fstat, ch, fs => some (if ch.fails then none else fs.live.log.map List.length, fs)
  | .close, ch, fs => some (if ch.fails then none else some (), fs)
  | .replace, ch, fs => some (if ch.fails then (none, fs) else (some (), fs.change .rotate))
  | .openKmsg, ch, fs => some (if ch.fails then none else some (), fs)
  | .readKmsg, ch, fs => some (ch.record, fs)
  | .rd _ _, ch, fs => some (ch.text, fs)
  | .strftime, ch, fs => some (ch.text, fs)
  | .monotonic, ch, fs => some (ch.now, fs)
  | .select, ch, fs => some (ch.ready, fs)

/-- The disk, which does nothing on its own while the phone runs. -/
def disk : Device Op Ans Fs Empty Luck where
  env := fun e _ => nomatch e
  act := act

/-- Every step passes. -/
def anyStep : Fs → (o : Op) → Luck → Bool := fun _ _ _ => true

/-- `kept` is a beginning of `all`, down to a part of an append. -/
inductive Cut : List Change → List Change → Prop
  | here (all : List Change) : Cut [] all
  | part {data : Bytes} (n : Nat) (all : List Change) :
      Cut [.append (data.take n)] (.append data :: all)
  | next (c : Change) {kept all : List Change} : Cut kept all → Cut (c :: kept) (c :: all)

/-- A crash that keeps `kept` of what has been done since the last sync. -/
def Fs.crash (fs : Fs) (kept : List Change) : Disk := kept.foldl Disk.apply fs.base

/-- Everything in the two files, the older first. -/
def Disk.contents (d : Disk) : Bytes := d.old.getD [] ++ d.log.getD []

/-- Boots one after the other, each cut off anywhere; the bytes are those that have reached the disk
since before the first one.  The recorder is started anew each time, with what the crash has
left. -/
inductive Boots (millis : Int → Txt) : Bytes → Disk → Prop
  | start (d : Disk) : Boots millis d.contents d
  | boot {all : Bytes} {d : Disk} {watch : Nat} {tr : List (Sigma Ans)}
      {q : Prog Op Ans (Except Stop Unit)} {fs : Fs} {kept : List Change} :
      Boots millis all d →
      disk.Within anyStep (main millis watch).run (fresh d) tr q fs → Cut kept fs.since →
      Boots millis (all ++ (fs.synced ++ kept.flatMap Change.bytes)) (fs.crash kept)

variable {millis : Int → Txt} {h x : Bytes} {d : Disk} {fs : Fs} {cs kept : List Change}

theorem disk_still : disk.Still := fun _ e => nomatch e

/-! ## 3. What is kept

The size is looked at when the log is synced, so a file may be longer than the limit by what was
written since the last sync. -/

/-- The files hold the end of `h`; something is missing in front of it only if the older file
alone is beyond the limit. -/
def Keeps (h : Bytes) (d : Disk) : Prop :=
  ∃ lost, h = lost ++ d.contents ∧ (lost = [] ∨ LIMIT < (d.old.getD []).length)

/-- What the recorder may do to a disk. -/
def Fine (d : Disk) : Change → Prop
  | .create => True
  | .append _ => d.log.isSome = true
  | .rotate => ∃ log, d.log = some log ∧ LIMIT < log.length

/-- Each change is fine where it is made. -/
def AllFine : Disk → List Change → Prop
  | _, [] => True
  | d, c :: cs => Fine d c ∧ AllFine (d.apply c) cs

/-- **One change.** -/
theorem Keeps.apply {c : Change} (hd : Keeps h d) (hc : Fine d c) :
    Keeps (h ++ c.bytes) (d.apply c) := by
  obtain ⟨lost, rfl, hlost⟩ := hd
  cases c with
  | create =>
    refine ⟨lost, ?_, hlost⟩
    cases hlog : d.log <;> simp [Disk.contents, Disk.apply, Change.bytes, hlog]
  | append data =>
    obtain ⟨log, hlog⟩ := Option.isSome_iff_exists.mp hc
    exact ⟨lost, by simp [Disk.contents, Disk.apply, Change.bytes, hlog], hlost⟩
  | rotate =>
    obtain ⟨log, hlog, hlimit⟩ := hc
    -- what was the older file is gone, and the log has taken its place
    refine ⟨lost ++ d.old.getD [], by simp [Disk.contents, Disk.apply, Change.bytes, hlog], .inr ?_⟩
    simpa [Disk.apply, hlog] using hlimit

/-- **Any number of changes.** -/
theorem Keeps.all (hd : Keeps h d) (hcs : AllFine d cs) :
    Keeps (h ++ cs.flatMap Change.bytes) (cs.foldl Disk.apply d) := by
  induction cs generalizing h d with
  | nil => simpa using hd
  | cons c cs ih =>
    have hrest := ih (hd.apply hcs.1) hcs.2
    rwa [List.append_assoc] at hrest

theorem allFine_concat {c : Change} (hcs : AllFine d cs) (hc : Fine (cs.foldl Disk.apply d) c) :
    AllFine d (cs ++ [c]) := by
  induction cs generalizing d with
  | nil => exact ⟨hc, trivial⟩
  | cons c' cs ih => exact ⟨hcs.1, ih hcs.2 hc⟩

/-- A crash leaves a beginning of what was done, and of what was appended. -/
theorem Cut.fine {kept : List Change} (hcut : Cut kept cs) (hcs : AllFine d cs) :
    AllFine d kept ∧ kept.flatMap Change.bytes <+: cs.flatMap Change.bytes := by
  induction hcut generalizing d with
  | here => exact ⟨trivial, List.nil_prefix⟩
  | part n all =>
    refine ⟨⟨hcs.1, trivial⟩, ?_⟩
    simpa [Change.bytes] using (List.take_prefix n _).trans (List.prefix_append _ _)
  | next c _ ih =>
    obtain ⟨hfine, hbytes⟩ := ih hcs.2
    exact ⟨⟨hcs.1, hfine⟩, (List.prefix_append_right_inj _).mpr hbytes⟩

/-! ## 4. The recorder keeps it

Each wait is reached with everything synced.  In between there may be something that is still to be
synced, and then it is the end of what was written. -/

/-- What holds all along a boot; `h` has reached the disk before. -/
structure Kept (h : Bytes) (fs : Fs) : Prop where
  base : Keeps (h ++ fs.synced) fs.base
  fine : AllFine fs.base fs.since

/-- The log is open. -/
def Open (fs : Fs) : Prop := fs.live.log.isSome = true

/-- Nothing is left to be synced, and the log is not beyond the limit. -/
def Rests (fs : Fs) : Prop := fs.pending = [] ∧ ∃ log, fs.live.log = some log ∧ log.length ≤ LIMIT

/-- The step property. -/
def Recording (h : Bytes) (fs : Fs) (o : Option Op) : Prop :=
  Kept h fs ∧ (o = some .select → Rests fs)

theorem Recording.of {o : Option Op} (hk : Kept h fs) (ho : o ≠ some .select) : Recording h fs o :=
  ⟨hk, fun heq => absurd heq ho⟩

theorem Kept.change {c : Change} (hk : Kept h fs) (hc : Fine fs.live c) : Kept h (fs.change c) :=
  ⟨hk.base, allFine_concat hk.fine hc⟩

@[simp] theorem live_change (c : Change) : (fs.change c).live = fs.live.apply c := by
  simp [Fs.live, Fs.change]

theorem Kept.sync (hk : Kept h fs) : Kept h ⟨fs.live, [], fs.synced ++ fs.pending⟩ := by
  refine ⟨?_, trivial⟩
  rw [← List.append_assoc]
  exact hk.base.all hk.fine

/-- The operations that leave the disk alone. -/
def Quiet : Op → Prop
  | .readKmsg => True
  | .rd _ _ => True
  | .strftime => True
  | .monotonic => True
  | _ => False

theorem act_quiet {o : Op} {ch : Luck} {r : Ans o} {fs' : Fs} (ho : Quiet o)
    (hact : act o ch fs = some (r, fs')) : fs' = fs := by
  cases o with
  | readKmsg | rd | strftime | monotonic => exact (Prod.mk.inj (Option.some.inj hact)).2.symm
  | _ => exact ho.elim

section Rules

variable {α : Type} {Q : α → Fs → Prop}

/-- A program of such operations. -/
theorem fwp_quiet {p : M α} (hp : p.run.Uses Quiet) (hk : Kept h fs) (hQ : ∀ a, Q a fs) :
    fwp disk anyStep (Recording h) p Q (fun _ _ => True) fs := by
  refine wp_mono ?_ (wp_of_uses (disk_still (· = fs)) (A := Quiet) ?_ ?_ ?_ hp rfl)
  · rintro (e | a) _ rfl
    · trivial
    · exact hQ a
  · rintro o ho ch _ r fs' rfl - hact
    exact act_quiet ho hact
  · rintro o _ ho rfl
    refine .of hk ?_
    rintro ⟨⟩
    exact ho
  · rintro _ rfl
    exact .of hk (by simp)

theorem fwp_return {a : α} (hk : Kept h fs) (hQ : Q a fs) :
    fwp disk anyStep (Recording h) (pure a : M α) Q (fun _ _ => True) fs :=
  fwp_done disk_still (.of hk (by simp)) hQ

theorem fwp_fail {e : Stop} (hk : Kept h fs) :
    fwp disk anyStep (Recording h) (throw e : M α) Q (fun _ _ => True) fs :=
  fwp_stop disk_still (.of hk (by simp)) trivial

/-- An operation that may end in an `OSError`, and has then done nothing. -/
theorem fwp_got {o : Op} {f : Ans o → Option α} (hk : Kept h fs) (ho : o ≠ .select)
    (hact : ∀ ch r fs', act o ch fs = some (r, fs') →
      (f r = none ∧ fs' = fs) ∨ ∃ a, f r = some a ∧ Kept h fs' ∧ Q a fs') :
    fwp disk anyStep (Recording h) (perform o >>= fun r => got (f r)) Q (fun _ _ => True) fs := by
  refine fwp_bind (fwp_act disk_still (.of hk (fun heq => ho (Option.some.inj heq))) ?_)
  intro ch r fs' _ h'
  rcases hact ch r fs' h' with ⟨hr, rfl⟩ | ⟨a, hr, hk', hQ⟩
  · rw [hr]
    exact ⟨.of hk (by simp), fwp_fail hk⟩
  · rw [hr]
    exact ⟨.of hk' (by simp), fwp_return hk' hQ⟩

end Rules

theorem fwp_openOut (hk : Kept h fs) :
    fwp disk anyStep (Recording h) openOut
      (fun _ t => Kept h t ∧ t = fs.change .create) (fun _ _ => True) fs := by
  refine fwp_got (o := .openLog) (f := id) hk (by simp) (fun ch r fs' hact => ?_)
  simp only [act, Option.some.injEq] at hact
  split at hact
  · obtain ⟨rfl, rfl⟩ := Prod.mk.inj hact
    exact .inl ⟨rfl, rfl⟩
  · obtain ⟨rfl, rfl⟩ := Prod.mk.inj hact
    have hk' : Kept h (fs.change .create) := hk.change trivial
    exact .inr ⟨(), rfl, hk', hk', rfl⟩

/-- **A sync** leaves nothing to be synced and no log beyond the limit. -/
theorem fwp_sync (hk : Kept h fs) (ho : Open fs) :
    fwp disk anyStep (Recording h) sync (fun _ t => Kept h t ∧ Rests t) (fun _ _ => True) fs := by
  obtain ⟨log, hlog⟩ := Option.isSome_iff_exists.mp ho
  have hsynced := hk.sync
  refine fwp_bind (fwp_got (o := .fsync) (f := id) hk (by simp) (fun ch r fs' hact => ?_))
  simp only [act, Option.some.injEq] at hact
  split at hact
  · obtain ⟨rfl, rfl⟩ := Prod.mk.inj hact
    exact .inl ⟨rfl, rfl⟩
  obtain ⟨rfl, rfl⟩ := Prod.mk.inj hact
  refine .inr ⟨(), rfl, hsynced, ?_⟩
  -- the size that is read is that of the log
  refine fwp_bind (fwp_got (o := .fstat) (f := id) hsynced (by simp) (fun ch r fs' hact => ?_))
  obtain ⟨hr, rfl⟩ := Prod.mk.inj (Option.some.inj hact)
  split at hr
  · exact .inl ⟨hr.symm, rfl⟩
  have hlive : (⟨fs.live, [], fs.synced ++ fs.pending⟩ : Fs).live = fs.live := rfl
  rw [hlive, hlog, Option.map_some] at hr
  refine .inr ⟨log.length, hr.symm, hsynced, ?_⟩
  split
  · rename_i hlimit
    refine fwp_bind (fwp_got (o := .close) (f := id) hsynced (by simp) (fun ch r fs' hact => ?_))
    obtain ⟨rfl, rfl⟩ := Prod.mk.inj (Option.some.inj hact)
    split
    · exact .inl ⟨rfl, rfl⟩
    refine .inr ⟨(), rfl, hsynced, ?_⟩
    have hrotated : Kept h ((⟨fs.live, [], fs.synced ++ fs.pending⟩ : Fs).change .rotate) :=
      hsynced.change ⟨log, hlog, hlimit⟩
    refine fwp_bind (fwp_got (o := .replace) (f := id) hsynced (by simp) (fun ch r fs' hact => ?_))
    simp only [act, Option.some.injEq] at hact
    split at hact
    · obtain ⟨rfl, rfl⟩ := Prod.mk.inj hact
      exact .inl ⟨rfl, rfl⟩
    obtain ⟨rfl, rfl⟩ := Prod.mk.inj hact
    refine .inr ⟨(), rfl, hrotated, fwp_mono ?_ (fun _ _ h => h) (fwp_openOut hrotated)⟩
    rintro - _ ⟨hk', rfl⟩
    refine ⟨hk', by simp [Fs.pending, Fs.change, Change.bytes], [], ?_, Nat.zero_le _⟩
    simp [hlive, hlog, Disk.apply]
  · rename_i hlimit
    exact fwp_return hsynced ⟨hsynced, rfl, log, hlog, not_lt.mp hlimit⟩

theorem fwp_write (line : Txt) (withSync : Bool) (hk : Kept h fs) (ho : Open fs) :
    fwp disk anyStep (Recording h) (write line withSync)
      (fun _ t => Kept h t ∧ Open t ∧ (withSync = true → Rests t)) (fun _ _ => True) fs := by
  obtain ⟨log, hlog⟩ := Option.isSome_iff_exists.mp ho
  refine fwp_bind (fwp_quiet (uses_run_lift ⟨trivial, fun _ => trivial⟩) hk (fun now => ?_))
  refine fwp_bind (fwp_got (o := .write _) (f := id) hk (by simp) (fun ch r fs' hact => ?_))
  simp only [act] at hact
  split at hact
  · obtain ⟨rfl, rfl⟩ := Prod.mk.inj (Option.some.inj hact)
    exact .inl ⟨rfl, rfl⟩
  split at hact
  · obtain ⟨rfl, rfl⟩ := Prod.mk.inj (Option.some.inj hact)
    refine .inr ⟨_, rfl, hk.change ho, ?_⟩
    have hk' := hk.change (c := .append ((encode (now ++ rstrip line ++ ['\n'])).take ch.count)) ho
    have ho' : Open (fs.change
        (.append ((encode (now ++ rstrip line ++ ['\n'])).take ch.count))) := by
      simp [Open, Disk.apply, hlog]
    cases withSync with
    | false => exact fwp_return hk' ⟨hk', ho', fun hsync => nomatch hsync⟩
    | true =>
      refine fwp_mono (fun _ t ht => ⟨ht.1, ?_, fun _ => ht.2⟩) (fun _ _ h => h) (fwp_sync hk' ho')
      obtain ⟨-, log', hlog', -⟩ := ht.2
      exact Option.isSome_iff_exists.mpr ⟨log', hlog'⟩
  · exact nomatch hact

theorem uses_at (l : List Txt) (i : Nat) : (at? l i).run.Uses Quiet := by
  unfold at?
  split <;> trivial

theorem uses_kernelLine (text : Txt) : (kernelLine millis text).run.Uses Quiet := by
  refine uses_run_bind (f := fun ts => pure _) ?_ (fun _ => trivial)
  unfold stamp
  split
  · split <;> trivial
  · trivial

theorem uses_state : state.run.Uses Quiet := by
  have hrd : ∀ path default, (rd path default).run.Uses Quiet := fun _ _ =>
    uses_run_lift ⟨trivial, fun _ => trivial⟩
  have havail : ∀ lines : List Txt, (lines.mapM (fun l => at? (words l) 1)).run.Uses Quiet := by
    intro lines
    induction lines with
    | nil => trivial
    | cons l lines ih =>
      rw [List.mapM_cons]
      exact uses_run_bind (uses_at _ _) (fun _ => uses_run_bind ih (fun _ => trivial))
  repeat' first
    | exact hrd _ _
    | exact uses_at _ _
    | exact havail _
    | exact trivial
    | refine uses_run_bind ?_ (fun _ => ?_)

/-- The records that are there are written, and not yet synced. -/
theorem fwp_records (watch n : Nat) (hk : Kept h fs) (ho : Open fs) (hn : n = 0 → Rests fs) :
    fwp disk anyStep (Recording h) (records millis watch n)
      (fun m t => Kept h t ∧ Open t ∧ (m = 0 → Rests t)) (fun _ _ => True) fs := by
  induction watch generalizing fs n with
  | zero => exact fwp_fail hk
  | succ watch ih =>
    refine fwp_bind (fwp_quiet (uses_run_lift ⟨trivial, fun _ => trivial⟩) hk (fun r => ?_))
    cases r with
    | blocked => exact fwp_return hk ⟨hk, ho, hn⟩
    | failed => exact ih n hk ho hn
    | record text =>
      refine fwp_bind (fwp_quiet (uses_kernelLine text) hk (fun line => ?_))
      refine fwp_bind (fwp_mono ?_ (fun _ _ h => h) (fwp_write line false hk ho))
      rintro - t ⟨hk', ho', -⟩
      exact ih (n + 1) hk' ho' (fun h => absurd h (Nat.succ_ne_zero n))

theorem Rests.open (hr : Rests fs) : Open fs := by
  obtain ⟨-, log, hlog, -⟩ := hr
  exact Option.isSome_iff_exists.mpr ⟨log, hlog⟩

theorem fwp_drain (watch : Nat) (hk : Kept h fs) (hr : Rests fs) :
    fwp disk anyStep (Recording h) (drain millis watch) (fun _ t => Kept h t ∧ Rests t)
      (fun _ _ => True) fs := by
  refine fwp_bind (fwp_mono ?_ (fun _ _ h => h) (fwp_records watch 0 hk hr.open (fun _ => hr)))
  rintro n t ⟨hk, ho, hn⟩
  split
  · exact fwp_sync hk ho
  · rename_i hzero
    exact fwp_return hk ⟨hk, hn (not_not.mp hzero)⟩

/-- With the state line or without it, nothing is left to be synced. -/
theorem fwp_everyMinute (last : Int) (hk : Kept h fs) (hr : Rests fs) :
    fwp disk anyStep (Recording h) (everyMinute last) (fun _ t => Kept h t ∧ Rests t)
      (fun _ _ => True) fs := by
  refine fwp_bind (fwp_quiet (uses_run_lift ⟨trivial, fun _ => trivial⟩) hk (fun now => ?_))
  split
  · refine fwp_bind (fwp_quiet uses_state hk (fun line => ?_))
    refine fwp_bind (fwp_mono ?_ (fun _ _ h => h) (fwp_write line true hk hr.open))
    rintro - t ⟨hk', -, hr'⟩
    exact fwp_return hk' ⟨hk', hr' rfl⟩
  · exact fwp_return hk ⟨hk, hr⟩

theorem fwp_loop (watch : Nat) (last : Int) (hk : Kept h fs) (hr : Rests fs) :
    fwp disk anyStep (Recording h) (loop millis watch last) (fun _ _ => True) (fun _ _ => True)
      fs := by
  induction watch generalizing fs last with
  | zero => exact fwp_fail hk
  | succ watch ih =>
    refine fwp_bind (fwp_mono ?_ (fun _ _ h => h) (fwp_everyMinute last hk hr))
    rintro last t ⟨hk, hr⟩
    refine fwp_bind (fwp_mono (Q := fun _ t => Kept h t ∧ Rests t)
      (fun _ t ht => ih last ht.1 ht.2) (fun _ _ h => h) ?_)
    refine fwp_bind (fwp_act disk_still ⟨hk, fun _ => hr⟩ ?_)
    intro ch ready fs' _ hact
    obtain ⟨-, rfl⟩ := Prod.mk.inj (Option.some.inj hact)
    refine ⟨.of hk (by simp), ?_⟩
    split
    · exact fwp_drain watch hk hr
    · exact fwp_return hk ⟨hk, hr⟩

variable (millis) in
/-- **A boot**, wherever it is cut off. -/
theorem fwp_main (watch : Nat) (hd : Keeps h d) :
    fwp disk anyStep (Recording h) (main millis watch) (fun _ _ => True) (fun _ _ => True)
      (fresh d) := by
  have hk : Kept h (fresh d) := ⟨by rwa [fresh, List.append_nil], trivial⟩
  refine fwp_bind (fwp_mono ?_ (fun _ _ h => h) (fwp_openOut hk))
  rintro - _ ⟨hk, rfl⟩
  have ho : Open ((fresh d).change .create) := by simp [Open, Disk.apply]
  refine fwp_bind (fwp_quiet (uses_run_lift ⟨trivial, fun _ => trivial⟩) hk (fun boot => ?_))
  refine fwp_bind (fwp_quiet (uses_run_lift ⟨trivial, fun _ => trivial⟩) hk (fun version => ?_))
  refine fwp_bind (fwp_mono ?_ (fun _ _ h => h) (fwp_write _ true hk ho))
  rintro - t ⟨hk, -, hr⟩
  refine fwp_bind (fwp_got (o := .openKmsg) (f := id) hk (by simp) (fun ch r fs' hact => ?_))
  obtain ⟨rfl, rfl⟩ := Prod.mk.inj (Option.some.inj hact)
  split
  · exact .inl ⟨rfl, rfl⟩
  · exact .inr ⟨(), rfl, hk, fwp_loop watch 0 hk (hr rfl)⟩

/-! ## 5. Any number of boots

The induction is on the boots, each of which begins with what a crash has left. -/

theorem Kept.crash (hk : Kept h fs) (hcut : Cut kept fs.since) :
    Keeps (h ++ (fs.synced ++ kept.flatMap Change.bytes)) (fs.crash kept) := by
  have hall := hk.base.all (hcut.fine hk.fine).1
  rwa [List.append_assoc] at hall

theorem Boots.keeps (hist : Boots millis h d) : Keeps h d := by
  induction hist with
  | start d => exact ⟨[], rfl, .inl rfl⟩
  | boot _ hrun hcut ih => exact (hrun.mid (fwp_main _ _ ih) (fun _ _ hS => hS.1)).crash hcut

/-- **What the recorder leaves on disk.**  After any number of boots, the next one may be cut off
anywhere and what it has done since its last sync may be lost from any point on: the two files hold
the end of everything that has reached the disk since before the first boot, which includes all
that this boot has synced, and if something is missing in front, the older file alone is more than
4 MiB.  Where the recorder waits, all it has written is synced, and the log is not beyond 4 MiB. -/
theorem flight_recorded {watch : Nat} {tr : List (Sigma Ans)} {q : Prog Op Ans (Except Stop Unit)}
    (hist : Boots millis h d)
    (hrun : disk.Within anyStep (main millis watch).run (fresh d) tr q fs)
    (hcut : Cut kept fs.since) :
    (∃ lost, h ++ (fs.synced ++ kept.flatMap Change.bytes) = lost ++ (fs.crash kept).contents ∧
      (lost = [] ∨ LIMIT < ((fs.crash kept).old.getD []).length)) ∧
    ∀ k, q = .op .select k →
      fs.pending = [] ∧ ∃ log, fs.live.log = some log ∧ log.length ≤ LIMIT := by
  have hwp := fwp_main millis watch hist.keeps
  refine ⟨(hrun.mid hwp (fun _ _ hS => hS.1)).crash hcut, ?_⟩
  rintro k rfl
  exact (hrun.at_op hwp).2 rfl

/-- A record of the kernel is there, and every write is cut short after three bytes. -/
def luck : Luck where
  fails := false
  count := 3
  text := []
  record := .record "6,1,2500000,-;hello".toList
  now := 0
  ready := true

/-- The first boot, cut off behind its second write. -/
theorem flight_recorded_first : ∃ tr q fs,
    disk.Within anyStep (main (fun _ => "2.500".toList) 2).run (fresh ⟨none, none⟩) tr q fs ∧
    fs.pending = "K[2".toUTF8.data.toList ∧
    ∃ lost, "BOO".toUTF8.data.toList = lost ++ (fs.crash []).contents ∧
      (lost = [] ∨ LIMIT < ((fs.crash []).old.getD []).length) := by
  have hplay : disk.play (List.replicate 13 (.inr luck)) (main (fun _ => "2.500".toList) 2).run
      (fresh ⟨none, none⟩) = some (.error .watched,
        ⟨⟨some [0x42, 0x4f, 0x4f], none⟩, [.append [0x4b, 0x5b, 0x32]], [0x42, 0x4f, 0x4f]⟩) := by
    rfl
  obtain ⟨tr, hruns⟩ := runs_of_play (fun _ _ _ => rfl) hplay
  obtain ⟨hkept, -⟩ := flight_recorded (.start _) hruns.within (.here _)
  exact ⟨tr, _, _, hruns.within, by decide +kernel, hkept⟩

end S9p.Recorder
