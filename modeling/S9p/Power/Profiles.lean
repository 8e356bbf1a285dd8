/-
# Power profiles that several runs set at once

A profile is three ceilings and what the Wi-Fi may do, and a file remembers its name.  The command
sets one, and so does the daemon when the desktop changes its power mode; nothing keeps the two
apart, and the file is truncated before it is written.

* `saved_last`: whatever runs there are, however they interleave and whatever fails, the file names
  the profile written last, though longer lines have left their ends behind it; or `balanced`, if it
  has been opened since.  If nothing fails it has not, once all of them are done.
* `settled_iff`: once all of them are done, the ceilings are those of the profile in the file
  exactly if the runs end in profiles with the same ceilings.
-/
import S9p.Lib.Parallel
import S9p.Lib.Reading
import S9p.PatchTree.Change
import Mathlib.Data.Fintype.Basic

namespace S9p.Power

open Device PatchTree
open Reading (strip)

/-! ## 1. The tool

A run is the command with one profile, or the daemon, which follows the desktop for as long as it is
left to.  Files are opened and written in separate steps. -/

/-- `PROFILES`, by its keys. -/
inductive Profile where
  | performance
  | balanced
  | powerSaver
deriving DecidableEq

def Profile.name : Profile → List Char
  | .performance => "performance".toList
  | .balanced => "balanced".toList
  | .powerSaver => "power-saver".toList

/-- The paths a profile is written to. -/
inductive Path where
  | little
  | big
  | gpu
deriving DecidableEq

/-- What a profile stands for. -/
structure Setting where
  little : Nat
  big : Nat
  gpu : Nat
  wifiPs : Bool

/-- `PROFILES` -/
def PROFILES : Profile → Setting
  | .performance => ⟨1794000, 2704000, 572000, false⟩
  | .balanced => ⟨1794000, 2704000, 572000, false⟩
  | .powerSaver => ⟨1150500, 1066000, 455000, true⟩

/-- The ceilings of a profile. -/
def ceiling (p : Profile) : Path → Nat
  | .little => (PROFILES p).little
  | .big => (PROFILES p).big
  | .gpu => (PROFILES p).gpu

/-- The profile of a name, if it is `in PROFILES`. -/
def profileOf (v : List Char) : Option Profile :=
  [.performance, .balanced, .powerSaver].find? (fun p => p.name = v)

/-- What a run does outside itself.  Opening the file and writing it are two operations, and so are
two ceilings. -/
inductive Op where
  | write (path : Path) (value : Nat)
  | phys
  | iw (dev : String) (powerSave : Bool)
  | openState
  | writeState (text : Txt)
  | readState
  | gio
  | active (name : String)
  | changed

@[reducible] def Ans : Op → Type
  | .write _ _ => Unit
  | .phys => List String
  | .iw _ _ | .openState | .writeState _ | .gio => Bool
  | .readState => Txt
  | .active _ | .changed => Option (List Char)

abbrev PowerProg (α : Type) := Prog Op Ans α

def perform (o : Op) : PowerProg (Ans o) := Prog.perform o

/-- Whether `iw` could be started each time. -/
def setWifi (powerSave : Bool) : List String → PowerProg Bool
  | [] => pure true
  | dev :: devs => do
    if ← perform (.iw dev powerSave) then setWifi powerSave devs else pure false

/-- `apply`: whether it returns; an error of `write` is printed. -/
def apply (profile : Profile) : PowerProg Bool := do
  perform (.write .little (ceiling profile .little))
  perform (.write .big (ceiling profile .big))
  perform (.write .gpu (ceiling profile .gpu))
  let devs ← perform .phys
  setWifi (PROFILES profile).wifiPs devs

def line (profile : Profile) : Txt := "PROFILE=".toList ++ profile.name ++ ['\n']

/-- `save`: whether it returns. -/
def save (profile : Profile) : PowerProg Bool := do
  if ← perform .openState then perform (.writeState (line profile)) else pure false

/-- What one line of the file says. -/
def savedLine (line : Txt) : Option Profile :=
  if "PROFILE=".toList <+: line then profileOf (strip (line.drop 8)) else none

/-- What `saved` makes of the text of the file. -/
def savedIn (text : Txt) : Profile :=
  ((splitlines (strip text)).findSome? savedLine).getD .balanced

/-- `saved` -/
def saved : PowerProg Profile := do
  let text ← perform .readState
  pure (savedIn text)

/-- A profile is applied and saved: by `main`, or as the power mode changes. -/
def change (profile : Profile) : PowerProg Bool := do
  if ← apply profile then save profile else pure false

/-- What is done about an `ActiveProfile`. -/
def changeTo : Option (List Char) → PowerProg Bool
  | none => pure true
  | some v =>
    match profileOf v with
    | none => pure true
    | some profile => change profile

/-- `follow`: whether it returns. -/
def follow (name : String) : PowerProg Bool := do
  changeTo (← perform (.active name))

/-- What is done as power modes and the owners of the names change; an exception ends the
callback. -/
def mainLoop : Nat → PowerProg Unit
  | 0 => pure ()
  | n + 1 => do
    let _ ← changeTo (← perform .changed)
    mainLoop n

/-- `daemon`, for `n` changes. -/
def daemon (n : Nat) : PowerProg Unit := do
  if ← apply (← saved) then
    if ← perform .gio then
      if ← follow "org.freedesktop.UPower.PowerProfiles" then
        if ← follow "net.hadess.PowerProfiles" then
          mainLoop n

/-- One change after the other: the command, or the daemon while it follows the desktop. -/
def changes : List Profile → PowerProg Unit
  | [] => pure ()
  | profile :: profiles => do
    let _ ← change profile
    changes profiles

/-- What is run: the command with a profile, or the daemon. -/
inductive Job where
  | set (profile : Profile)
  | daemon (n : Nat)

/-- The program of a run: one change, or the daemon, as long as it runs. -/
def Job.prog : Job → PowerProg Unit
  | .set profile => changes [profile]
  | .daemon n => Power.daemon n

/-! ## 2. The phone

The file is truncated when it is opened, and written from its start.  Two runs that have both opened
it write over one another. -/

/-- What has been done to the file. -/
inductive Entry (ι : Type) where
  | opened (i : ι)
  | wrote (i : ι) (text : Txt)

def Entry.by {ι : Type} : Entry ι → ι
  | .opened i => i
  | .wrote i _ => i

/-- `setBy` and `trail` are history: who wrote a ceiling last, and what has been done to the file,
the latest first.  Neither is read by any run; they are what "written last" refers to. -/
structure Phone (ι : Type) where
  ceilings : Path → Nat
  setBy : Path → Option ι
  powerSave : String → Bool
  file : Option Txt
  trail : List (Entry ι)

variable {ι : Type}

/-- The line ends of a file that is opened for its text. -/
def universal : Txt → Txt
  | '\r' :: '\n' :: cs => '\n' :: universal cs
  | '\r' :: cs => '\n' :: universal cs
  | c :: cs => c :: universal cs
  | [] => []

/-- What stands in the file. -/
def Phone.raw (s : Phone ι) : Txt := s.file.getD []

/-- `read(STATE, "")` before `strip`. -/
def Phone.text (s : Phone ι) : Txt := universal s.raw

def Phone.set (s : Phone ι) (i : ι) (path : Path) (value : Nat) : Phone ι :=
  { s with
    ceilings := Function.update s.ceilings path value
    setBy := Function.update s.setBy path (some i) }

def Phone.truncate (s : Phone ι) (i : ι) : Phone ι :=
  { s with file := some [], trail := .opened i :: s.trail }

/-- A write from the start of the file. -/
def Phone.put (s : Phone ι) (i : ι) (text : Txt) : Phone ι :=
  { s with file := some (text ++ s.raw.drop text.length), trail := .wrote i text :: s.trail }

/-- What the surroundings have to say: whether the operation succeeds, with which status `iw` ends
where it could be started, the Wi-Fi devices, and the power mode of the desktop. -/
structure Outcome where
  ok : Bool
  status : Nat
  devs : List String
  active : Option (List Char)

/-- **What an operation does**, done by `i`.  It may fail, and what is not written stays; the
answers of the desktop and of the Wi-Fi are open. -/
def act (i : ι) (ok : Bool) (ch : Outcome) (s : Phone ι) : (o : Op) → Ans o × Phone ι
  | .write path value => ((), if ok then s.set i path value else s)
  | .phys => (ch.devs, s)
  | .iw dev ps =>
      -- nobody looks at the status: the next device has its turn in any case
      (ok, if ok ∧ ch.status = 0 then { s with powerSave := Function.update s.powerSave dev ps }
        else s)
  | .openState => (ok, if ok then s.truncate i else s)
  | .writeState text => (ok, if ok then s.put i text else s)
  | .readState => (if ok then s.text else [], s)
  | .gio => (ok, s)
  | .active _ | .changed => (ch.active, s)

/-- Any number of runs; if `sure`, nothing fails. -/
def phone (ι : Type) (sure : Bool) : Shared ι Op Ans (Phone ι) Empty Outcome where
  env := fun e _ => e.elim
  act := fun i o ch s => some (act i (sure || ch.ok) ch s o)

/-- A phone that no run has touched yet. -/
def Phone.Fresh (s : Phone ι) : Prop := (∀ path, s.setBy path = none) ∧ s.trail = []

/-- The ceilings are those of the profile in the file. -/
def Phone.Settled (s : Phone ι) : Prop := s.ceilings = ceiling (savedIn s.text)

/-! ## 3. What holds of all programs of the tool

The daemon is a long program, most of which only looks.  A property that sequencing keeps is shown
for its parts once. -/

/-- The operations of the daemon that only look. -/
def Looks : Op → Prop
  | .readState | .gio | .active _ | .changed => True
  | _ => False

/-- A property of programs that sequencing keeps, and that `apply` and `change` have. -/
structure Kind (K : (α : Type) → PowerProg α → Prop) : Prop where
  ret : ∀ {α} (a : α), K α (.ret a)
  bind : ∀ {α β} {p : PowerProg α} {f : α → PowerProg β}, K α p → (∀ a, K β (f a)) → K β (p >>= f)
  look : ∀ o, Looks o → K (Ans o) (Prog.perform o)
  apply : ∀ profile, K Bool (apply profile)
  change : ∀ profile, K Bool (change profile)

namespace Kind

variable {K : (α : Type) → PowerProg α → Prop} (h : Kind K)

include h

/-- What comes after something that may raise an exception. -/
theorem guard {p : PowerProg Bool} {q : PowerProg Unit} (hp : K Bool p) (hq : K Unit q) :
    K Unit (do if ← p then q else pure ()) := by
  refine h.bind hp (fun r => ?_)
  cases r with
  | false => exact h.ret ()
  | true => exact hq

theorem changeTo (v : Option (List Char)) : K Bool (changeTo v) := by
  unfold Power.changeTo
  split
  · exact h.ret true
  · split
    · exact h.ret true
    · exact h.change _

theorem follow (name : String) : K Bool (follow name) :=
  h.bind (h.look (.active name) trivial) (fun v => h.changeTo v)

theorem mainLoop (n : Nat) : K Unit (mainLoop n) := by
  induction n with
  | zero => exact h.ret ()
  | succ n ih => exact h.bind (h.look .changed trivial) (fun v => h.bind 
      (h.changeTo v) (fun _ => ih))

theorem changes (profiles : List Profile) : K Unit (changes profiles) := by
  induction profiles with
  | nil => exact h.ret ()
  | cons profile profiles ih => exact h.bind (h.change profile) (fun _ => ih)

theorem prog (job : Job) : K Unit job.prog := by
  cases job with
  | set profile => exact h.changes [profile]
  | daemon n =>
    have hsaved : K Profile saved := h.bind (h.look .readState trivial) (fun _ => h.ret _)
    refine h.bind hsaved (fun profile => h.guard (h.apply profile) ?_)
    refine h.guard (h.look .gio trivial) (h.guard (h.follow _) (h.guard (h.follow _) ?_))
    exact h.mainLoop n

end Kind

/-! ## 4. What the file says

The reader takes the first line that names a profile.  What is left of a longer line stands behind
it, and cannot come before it. -/

theorem splitlines_key {key : Txt} (hne : key ≠ []) (hkey : ∀ c ∈ key, c ∉ lineEnds) :
    splitlines key = [key] := by
  induction key with
  | nil => exact absurd rfl hne
  | cons c cs ih =>
    rw [splitlines, if_neg (hkey c List.mem_cons_self)]
    cases cs with
    | nil => rfl
    | cons d ds => rw [ih (List.cons_ne_nil d ds) (fun e he => hkey e (List.mem_cons_of_mem c he))]

theorem splitlines_key_newline {key : Txt} (hkey : ∀ c ∈ key, c ∉ lineEnds) (rest : Txt) :
    splitlines (key ++ '\n' :: rest) = (key ++ ['\n']) :: splitlines rest := by
  induction key with
  | nil => rw [List.nil_append, splitlines, if_pos (by decide), List.nil_append]
  | cons c cs ih =>
    rw [List.cons_append, splitlines, if_neg (hkey c List.mem_cons_self),
      ih (fun e he => hkey e (List.mem_cons_of_mem c he))]
    rfl

theorem key_on_one_line (p : Profile) : ∀ c ∈ "PROFILE=".toList ++ p.name, c ∉ lineEnds := by
  have hall : ("PROFILE=".toList ++ p.name).all (fun c => decide (c ∉ lineEnds)) = true := by
    cases p <;> decide
  exact fun c hc => of_decide_eq_true (List.all_eq_true.mp hall c hc)

/-- **The first line counts**, whatever comes after it. -/
theorem savedIn_line (p : Profile) (rest : Txt) : savedIn (line p ++ rest) = p := by
  have hline : line p = "PROFILE=".toList ++ p.name ++ ['\n'] := rfl
  obtain ⟨t, hstrip, hpre⟩ := Reading.strip_append (t := '\n' :: rest)
    (show ("PROFILE=".toList ++ p.name).head?.any (fun c => !Reading.space c) = true by
      cases p <;> decide) (by cases p <;> decide)
  have hsplit : ∃ l ls, splitlines (strip (line p ++ rest)) = l :: ls ∧ savedLine l = some p := by
    rw [hline, List.append_assoc, List.singleton_append, hstrip]
    rcases List.prefix_cons_iff.mp hpre with rfl | ⟨u, rfl, -⟩
    · rw [List.append_nil]
      exact ⟨_, _, splitlines_key (by simp) (key_on_one_line p), by cases p <;> decide⟩
    · exact ⟨_, _, splitlines_key_newline (key_on_one_line p) u, by cases p <;> decide⟩
  obtain ⟨l, ls, hsplit, hl⟩ := hsplit
  rw [savedIn, hsplit, List.findSome?_cons, hl]
  rfl

theorem savedIn_nil : savedIn [] = .balanced := rfl

theorem universal_append {a : Txt} (ha : '\r' ∉ a) (b : Txt) :
    universal (a ++ b) = a ++ universal b := by
  induction a with
  | nil => rfl
  | cons c a ih =>
    have hc : c ≠ '\r' := fun heq => ha (heq ▸ List.mem_cons_self)
    rw [List.cons_append, universal, ih (fun hmem => ha (List.mem_cons_of_mem c hmem))]
    · rfl
    · exact fun _ heq _ => hc heq
    · exact hc

/-- A line of the tool is read as it was written. -/
theorem universal_line (p : Profile) (rest : Txt) :
    universal (line p ++ rest) = line p ++ universal rest :=
  universal_append (by cases p <;> decide) rest

/-! ## 5. What a run does to the phone

To the others a run is what it may do to the ceilings and the file, in its own name. -/

section Moves

variable {i j : ι} {s t : Phone ι}

/-- Ceilings are set, and the file is opened or written, in the name of `i`. -/
structure Moved (i : ι) (s t : Phone ι) : Prop where
  ceiling : ∀ path, t.setBy path = some i ∨
    t.setBy path = s.setBy path ∧ t.ceilings path = s.ceilings path
  entry : t.trail = s.trail ∨ ∃ e : Entry ι, e.by = i ∧ t.trail = e :: s.trail

theorem moved_same (hc : t.ceilings = s.ceilings) (hb : t.setBy = s.setBy)
    (ht : t.trail = s.trail) :
    Moved i s t :=
  ⟨fun _ => .inr ⟨congrFun hb _, congrFun hc _⟩, .inl ht⟩

theorem moved_set (path : Path) (value : Nat) : Moved i s (s.set i path value) := by
  refine ⟨fun path' => ?_, .inl rfl⟩
  rcases eq_or_ne path' path with rfl | hne
  · exact .inl (Function.update_self ..)
  · exact .inr ⟨Function.update_of_ne hne .., Function.update_of_ne hne ..⟩

theorem act_moved (i : ι) (ok : Bool) (ch : Outcome) (s : Phone ι) (o : Op) :
    Moved i s (act i ok ch s o).2 := by
  cases o with
  | write path value =>
    cases ok with
    | false => exact moved_same rfl rfl rfl
    | true => exact moved_set path value
  | iw dev ps =>
    simp only [act]
    split
    · exact moved_same rfl rfl rfl
    · exact moved_same rfl rfl rfl
  | openState =>
    cases ok with
    | false => exact moved_same rfl rfl rfl
    | true => exact ⟨fun _ => .inr ⟨rfl, rfl⟩, .inr ⟨.opened i, rfl, rfl⟩⟩
  | writeState text =>
    cases ok with
    | false => exact moved_same rfl rfl rfl
    | true => exact ⟨fun _ => .inr ⟨rfl, rfl⟩, .inr ⟨.wrote i text, rfl, rfl⟩⟩
  | phys | readState | gio | active name | changed => exact moved_same rfl rfl rfl

end Moves

/-! ## 6. What the trail tells

The trail has all that was done to the file, and its head says what stands in it. -/

section Told

variable {s₀ s : Phone ι}

theorem text_put (s : Phone ι) (i : ι) (p : Profile) : (s.put i (line p)).text =
    line p ++ universal (s.raw.drop (line p).length) := universal_line p _

theorem savedIn_put (s : Phone ι) (i : ι) (p : Profile) : savedIn (s.put i (line p)).text = p := by
  rw [text_put, savedIn_line]

/-- What the history says about ceilings and file, since `s₀`. -/
structure Told (s₀ s : Phone ι) : Prop where
  ceiling : ∀ path, s.setBy path = none → s.ceilings path = s₀.ceilings path
  file : match s.trail with
    | [] => s.text = s₀.text
    | .opened _ :: _ => s.text = []
    | .wrote _ text :: _ => ∃ p rest, text = line p ∧ s.text = line p ++ rest

/-- The file is only written with lines. -/
def Writes : Op → Prop
  | .writeState text => ∃ p, text = line p
  | _ => True

theorem Told.same {t : Phone ι} (h : Told s₀ s) (hc : t.ceilings = s.ceilings)
    (hb : t.setBy = s.setBy) (hf : t.file = s.file) (ht : t.trail = s.trail) : Told s₀ t := by
  refine ⟨fun path hpath => ?_, ?_⟩
  · rw [hc]
    exact h.ceiling path (congrFun hb path ▸ hpath)
  · have htext : t.text = s.text := by rw [Phone.text, Phone.text, Phone.raw, Phone.raw, hf]
    rw [ht, htext]
    exact h.file

theorem Told.act {o : Op} (h : Told s₀ s) (ho : Writes o) (i : ι) (ok : Bool) (ch : Outcome) :
    Told s₀ (act i ok ch s o).2 := by
  cases o with
  | write path value =>
    cases ok with
    | false => exact h
    | true =>
      refine ⟨fun path' hpath => ?_, h.file⟩
      change Function.update s.setBy path (some i) path' = none at hpath
      rcases eq_or_ne path' path with rfl | hne
      · rw [Function.update_self] at hpath
        exact absurd hpath (by simp)
      · rw [Function.update_of_ne hne] at hpath
        exact (Function.update_of_ne hne ..).trans (h.ceiling path' hpath)
  | iw dev ps =>
    simp only [Power.act]
    split
    · exact h.same rfl rfl rfl rfl
    · exact h
  | openState =>
    cases ok with
    | false => exact h
    | true => exact ⟨h.ceiling, rfl⟩
  | writeState text =>
    cases ok with
    | false => exact h
    | true =>
      obtain ⟨p, rfl⟩ := ho
      exact ⟨h.ceiling, p, _, rfl, text_put s i p⟩
  | phys | readState | gio | active name | changed => exact h

/-- The profile in the file, by the last that was done to it. -/
theorem Told.saved (h : Told s₀ s) :
    match s.trail with
    | [] => savedIn s.text = savedIn s₀.text
    | .opened _ :: _ => savedIn s.text = .balanced
    | .wrote _ text :: _ => text = line (savedIn s.text) := by
  have hfile := h.file
  split at hfile
  · exact congrArg savedIn hfile
  · exact (congrArg savedIn hfile).trans savedIn_nil
  · obtain ⟨p, rest, rfl, htext⟩ := hfile
    simp only [htext, savedIn_line]

end Told

section Uses

variable {p : Profile}

theorem uses_setWifi (ps : Bool) : ∀ devs, (setWifi ps devs).Uses Writes
  | [] => trivial
  | _ :: devs => ⟨trivial, fun r => by
    cases r with
    | false => trivial
    | true => exact uses_setWifi ps devs⟩

theorem uses_apply (p : Profile) : (apply p).Uses Writes :=
  ⟨trivial, fun _ => ⟨trivial, fun _ => ⟨trivial, fun _ =>
    ⟨trivial, fun devs => uses_setWifi _ devs⟩⟩⟩⟩

theorem uses_save (p : Profile) : (save p).Uses Writes := by
  refine ⟨trivial, fun r => ?_⟩
  cases r with
  | false => trivial
  | true => exact ⟨⟨p, rfl⟩, fun _ => trivial⟩

theorem uses_change (p : Profile) : (change p).Uses Writes := by
  refine Prog.uses_bind (uses_apply p) (fun r => ?_)
  cases r with
  | false => trivial
  | true => exact uses_save p

theorem kind_uses : Kind (fun _ p => p.Uses Writes) where
  ret := fun _ => trivial
  bind := Prog.uses_bind
  look := fun o ho => by
    cases o <;> first | exact ⟨trivial, fun _ => trivial⟩ | exact ho.elim
  apply := uses_apply
  change := uses_change

end Uses

section Trail

variable [DecidableEq ι] {sure : Bool} {s₀ s : Phone ι} {α : Type} {p q : ι → PowerProg α}

theorem told_reach (h₀ : s₀.trail = []) (hp : ∀ i, (p i).Uses Writes)
    (h : (phone ι sure).Reach (· = s₀) p s q) : Told s₀ s := by
  have hkeeps : ∀ j o, Writes o → ∀ ch s r t, Told s₀ s →
      (phone ι sure).act j o ch s = some (r, t) → Told s₀ t := by
    intro j o ho ch s r t hs hrt
    obtain rfl := (Prod.mk.inj (Option.some.inj hrt)).2
    exact hs.act ho j _ ch
  have hstart : Told s₀ s₀ := ⟨fun _ _ => rfl, by rw [h₀]⟩
  rcases isEmpty_or_nonempty ι with hempty | ⟨⟨i⟩⟩
  · cases h with
    | boot hs => exact hs ▸ hstart
    | @env _ _ _ e _ _ => exact e.elim
    | op i => exact hempty.elim i
  · refine Shared.reach_state (G := fun _ s t => Told s₀ s → Told s₀ t)
      (S := fun _ s _ => Told s₀ s)
      (Q := fun _ _ s => Told s₀ s) (fun j s hs => ?_) h i (fun _ _ ht => ht)
    have hstable : ((phone ι sure).view (fun _ s t => Told s₀ s → Told s₀ t) j).Stable (Told s₀) :=
      Shared.view_stable (fun e => e.elim) (fun _ _ _ _ hmove ht => hmove ht)
    exact wp_of_uses hstable (fun o ho ch s r t hs _ hrt => hkeeps j o ho ch s r t hs hrt)
      (fun o s ho hs => ⟨hs, fun ch r t hrt _ => hkeeps j o ho ch s r t hs hrt⟩)
      (fun _ hs => ⟨hs, trivial⟩) (hp j) (hs ▸ hstart)

end Trail

/-! ## 7. One run, if nothing fails

If nothing fails a run comes to its end, and knows what it did last.  The others can undo its
effect, but not what it has done. -/

section Own

variable {i j : ι} {s t : Phone ι} {lim : Path → Option Nat} {own : Option (Entry ι)}

/-- What a run knows of the last it did: the ceilings `lim` it set, and `own` of the file.  It is
what a run can rely on, whatever the others do in the meantime. -/
structure Own (i : ι) (lim : Path → Option Nat) (own : Option (Entry ι)) (s : Phone ι) : Prop where
  ceiling : ∀ path, s.setBy path = some i → lim path = some (s.ceilings path)
  entry : ∀ e, s.trail.head? = some e → e.by = i → own = some e
  set : ∀ path, (lim path).isSome → (s.setBy path).isSome
  done : own.isSome → s.trail ≠ []

/-- The others set and write in their own names. -/
theorem Own.others (h : Own i lim own s) (hm : Moved j s t) (hji : j ≠ i) : Own i lim own t := by
  refine ⟨fun path hpath => ?_, fun e he hby => ?_, fun path hset => ?_, fun hown => ?_⟩
  · rcases hm.ceiling path with hj | ⟨hb, hc⟩
    · exact absurd (Option.some.inj (hj.symm.trans hpath)) hji
    · rw [hc]
      exact h.ceiling path (hb ▸ hpath)
  · rcases hm.entry with ht | ⟨e', rfl, ht⟩
    · exact h.entry e (ht ▸ he) hby
    · rw [ht, List.head?_cons, Option.some.injEq] at he
      exact absurd (he ▸ hby) hji
  · rcases hm.ceiling path with hj | ⟨hb, -⟩
    · rw [hj]
      rfl
    · rw [hb]
      exact h.set path hset
  · rcases hm.entry with ht | ⟨e, -, ht⟩
    · rw [ht]
      exact h.done hown
    · rw [ht]
      exact List.cons_ne_nil _ _

theorem own_fresh (h : s.Fresh) (i : ι) : Own i (fun _ => none) none s := by
  refine ⟨fun path hpath => ?_, fun e he _ => ?_, fun _ hset => ?_, fun hown => ?_⟩
  · exact absurd ((h.1 path).symm.trans hpath) (by simp)
  · rw [h.2] at he
    exact absurd he (by simp)
  · exact absurd hset (by simp)
  · exact absurd hown (by simp)

theorem Own.set_path (h : Own i lim own s) (path : Path) (value : Nat) :
    Own i (Function.update lim path (some value)) own (s.set i path value) := by
  refine ⟨fun path' hpath => ?_, h.entry, fun path' hset => ?_, h.done⟩
  · rcases eq_or_ne path' path with rfl | hne
    · simp [Phone.set]
    · change Function.update s.setBy path (some i) path' = some i at hpath
      rw [Function.update_of_ne hne] at hpath ⊢
      exact (h.ceiling path' hpath).trans (congrArg some (Function.update_of_ne hne ..).symm)
  · change (Function.update s.setBy path (some i) path').isSome = true
    rcases eq_or_ne path' path with rfl | hne
    · rw [Function.update_self]
      rfl
    · rw [Function.update_of_ne hne] at hset ⊢
      exact h.set path' hset

theorem Own.push (h : Own i lim own s) {e : Entry ι} (ht : t.trail = e :: s.trail)
    (hc : t.ceilings = s.ceilings) (hb : t.setBy = s.setBy) : Own i lim (some e) t := by
  refine ⟨fun path hpath => ?_, fun e' he' _ => ?_, fun path hset => ?_, fun _ => ?_⟩
  · rw [hc]
    exact h.ceiling path (congrFun hb path ▸ hpath)
  · rw [ht, List.head?_cons] at he'
    exact he'
  · rw [hb]
    exact h.set path hset
  · rw [ht]
    exact List.cons_ne_nil _ _

theorem own_stable : ((phone ι true).view Moved i).Stable (Own i lim own) :=
  Shared.view_stable (fun e => e.elim) (fun _ _ _ hji hm h => h.others hm hji)

/-- Nothing more is asked of the steps than what every operation keeps. -/
def Step (i : ι) (s : Phone ι) (o : Option Op) : Prop := True ∧ (phone ι true).Keeps Moved i s o

theorem step (i : ι) (s : Phone ι) (o : Option Op) : Step i s o := by
  cases o with
  | none => exact ⟨trivial, trivial⟩
  | some o =>
    refine ⟨trivial, fun ch r t hrt => ?_⟩
    obtain rfl := (Prod.mk.inj (Option.some.inj hrt)).2
    exact act_moved i true ch s o

/-- What a run of `p` ends in, seen from `i`. -/
abbrev Gives {α : Type} (i : ι) (p : PowerProg α) (Q : α → Phone ι → Prop) (s : Phone ι) : Prop :=
  wp ((phone ι true).view Moved i) Shared.anyOp (Step i) p Q s

section Gives

variable {α : Type} {Q : α → Phone ι → Prop}

theorem gives_op {o : Op} {k : Ans o → PowerProg α} (h : Own i lim own s)
    (hk : ∀ ch t, Own i lim own t → Gives i (k (act i true ch t o).1) Q (act i true ch t o).2) :
    Gives i (.op o k) Q s :=
  wp_op_eq (f := fun ch t => (act i true ch t o).1) (g := fun ch t => (act i true ch t o).2)
    (fun _ _ => rfl) own_stable h (fun t _ => step i t _) (fun t ch ht _ => hk ch t ht)

theorem gives_ret {a : α} (h : Own i lim own s) (hQ : ∀ t, Own i lim own t → Q a t) :
    Gives i (.ret a) Q s :=
  wp_ret own_stable h (fun t _ => step i t none) hQ

end Gives

/-- The Wi-Fi is another matter. -/
theorem Own.iw (h : Own i lim own s) (ch : Outcome) (dev : String) (ps : Bool) :
    Own i lim own (act i true ch s (.iw dev ps)).2 := by
  simp only [act]
  split
  · exact ⟨h.ceiling, h.entry, h.set, h.done⟩
  · exact h

theorem gives_setWifi (ps : Bool) : ∀ (devs : List String) {s : Phone ι}, Own i lim own s →
    Gives i (setWifi ps devs) (fun r t => r = true ∧ Own i lim own t) s
  | [], _, h => gives_ret h (fun _ ht => ⟨rfl, ht⟩)
  | dev :: devs, _, h => gives_op h (fun ch _ ht => gives_setWifi ps devs (ht.iw ch dev ps))

/-- The ceilings of a profile, each of which has been set. -/
def ceilings (p : Profile) (path : Path) : Option Nat := some (ceiling p path)

theorem gives_apply (p : Profile) (h : Own i lim own s) :
    Gives i (apply p) (fun r t => r = true ∧ Own i (ceilings p) own t) s := by
  refine gives_op h (fun _ _ h => gives_op (h.set_path .little _) (fun _ _ h =>
    gives_op (h.set_path .big _) (fun _ _ h => gives_op (h.set_path .gpu _) (fun ch t h => ?_))))
  have hall : Function.update (Function.update (Function.update lim .little
      (some (ceiling p .little))) .big (some (ceiling p .big))) .gpu (some (ceiling p .gpu)) =
      ceilings p := by
    funext path
    cases path <;> rfl
  rw [hall] at h
  exact gives_setWifi _ _ h

theorem gives_save (p : Profile) (h : Own i lim own s) :
    Gives i (save p) (fun r t => r = true ∧ Own i lim (some (.wrote i (line p))) t) s := by
  refine gives_op h (fun _ _ h => ?_)
  refine gives_op (h.push (e := .opened i) rfl rfl rfl) (fun _ _ h => ?_)
  exact gives_ret (h.push (e := .wrote i (line p)) rfl rfl rfl) (fun _ ht => ⟨rfl, ht⟩)

theorem gives_change (p : Profile) (h : Own i lim own s) :
    Gives i (change p) (fun r t => r = true ∧ Own i (ceilings p) (some (.wrote i (line p))) t) s :=
  wp_bind (wp_mono (fun _ _ ⟨hr, h⟩ => by
    subst hr
    exact gives_save p h) (gives_apply p h))

/-- What a run knows at the end of the changes `ps`. -/
def Ended (i : ι) (ps : List Profile) (s : Phone ι) : Prop :=
  match ps.getLast? with
  | none => Own i (fun _ => none) none s
  | some p => Own i (ceilings p) (some (.wrote i (line p))) s

theorem Ended.known {ps : List Profile} (h : Ended i ps s) : ∃ lim own, Own i lim own s := by
  unfold Ended at h
  split at h
  · exact ⟨_, _, h⟩
  · exact ⟨_, _, h⟩

theorem gives_changes (before ps : List Profile) {s : Phone ι} (h : Ended i before s) :
    Gives i (changes ps) (fun _ t => Ended i (before ++ ps) t) s := by
  induction ps generalizing before s with
  | nil =>
    rw [List.append_nil]
    unfold Ended at h ⊢
    split at h
    · exact gives_ret h (fun _ ht => ht)
    · exact gives_ret h (fun _ ht => ht)
  | cons p ps ih =>
    obtain ⟨lim, own, hown⟩ := h.known
    refine wp_bind (wp_mono (fun _ t ht => ?_) (gives_change p hown))
    have hended : Ended i (before ++ [p]) t := by
      unfold Ended
      rw [List.getLast?_concat]
      exact ht.2
    have hrest := ih _ hended
    rwa [List.append_assoc, List.singleton_append] at hrest

/-- Between two operations on the file that belong together, nothing is left open. -/
def Closed (i : ι) (s : Phone ι) : Prop := ∃ lim own, Own i lim own s ∧ ∀ j, own ≠ some (.opened j)

theorem Closed.not_open (h : Closed i s) (rest : List (Entry ι)) : s.trail ≠ .opened i :: rest := by
  intro htrail
  obtain ⟨lim, own, hown, hne⟩ := h
  exact hne i (hown.entry (.opened i) (by rw [htrail]; rfl) rfl)

/-- A program that leaves the file closed. -/
abbrev Closes (i : ι) {α : Type} (p : PowerProg α) : Prop :=
  ∀ s, Closed i s → Gives i p (fun _ t => Closed i t) s

theorem closed_stable : ((phone ι true).view Moved i).Stable (Closed i) :=
  Shared.view_stable (fun e => e.elim) (fun _ _ _ hji hm ⟨lim, own, h, hne⟩ =>
    ⟨lim, own, h.others hm hji, hne⟩)

theorem closes_look (o : Op) (ho : Looks o) : Closes i (Prog.perform o) := by
  intro _ hs
  have hact : ∀ ch t, act i true ch t o = ((act i true ch t o).1, t) := by
    cases o <;> first | exact fun _ _ => rfl | exact ho.elim
  refine wp_op_eq (f := fun ch t => (act i true ch t o).1) (g := fun _ t => t)
    (fun ch t => congrArg some (hact ch t)) closed_stable hs
      (fun t _ => step i t _) (fun t _ ht _ => ?_)
  exact wp_ret closed_stable ht (fun t _ => step i t none) (fun _ ht => ht)

theorem kind_closes (i : ι) : Kind (fun _ p => Closes i p) where
  ret := fun _ _ hs => wp_ret closed_stable hs (fun t _ => step i t none) (fun _ ht => ht)
  bind := fun hp hf s hs => wp_bind (wp_mono (fun a t ht => hf a t ht) (hp s hs))
  look := closes_look
  apply := fun p _ ⟨_, own, h, hne⟩ => wp_mono (fun _ _ ht => ⟨_, own, ht.2, hne⟩) (gives_apply p h)
  change := fun p _ ⟨_, _, h, _⟩ =>
    wp_mono (fun _ _ ht => ⟨_, _, ht.2, fun _ => by simp⟩) (gives_change p h)

end Own

/-! ## 8. All of them

The run lemma for any number of contexts is that of the library.  What each of them guarantees to
the others is `Moved`. -/

section All

variable [DecidableEq ι] {sure : Bool} {s₀ s : Phone ι}

/-- **The file names the profile written last**, whatever is run, however the runs interleave and
whatever fails; if it has been opened since, it stands for `balanced`.  If nothing fails, it has not
been opened since once all runs are done. -/
theorem saved_last {jobs : ι → Job} {q : ι → PowerProg Unit} (h₀ : s₀.Fresh)
    (h : (phone ι sure).Reach (· = s₀) (fun i => (jobs i).prog) s q) :
    (match s.trail with
      | [] => savedIn s.text = savedIn s₀.text
      | .opened _ :: _ => savedIn s.text = .balanced
      | .wrote _ text :: _ => text = line (savedIn s.text)) ∧
    (sure = true → (∀ i, ∃ a, q i = .ret a) → ∀ i rest, s.trail ≠ .opened i :: rest) := by
  refine ⟨?_, ?_⟩
  · exact (told_reach h₀.2 (fun i => kind_uses.prog (jobs i)) h).saved
  · rintro rfl hret i rest
    obtain ⟨a, ha⟩ := hret i
    refine Closed.not_open (Shared.reach_ret (G := Moved) (S := fun _ _ _ => True)
      (Q := fun i _ s => Closed i s) (fun j s hs => ?_) h ha) rest
    exact (kind_closes j).prog (jobs j) s ⟨_, _, own_fresh (hs ▸ h₀) j, fun _ => by simp⟩

/-- Two runs step by step in turns. -/
def inTurns : List (Shared.Turn Bool Empty Outcome) :=
  (List.replicate 6 [false, true]).flatten.map (fun b => .op b ⟨true, 0, [], none⟩)

/-- The shorter line has been written last. -/
def overlaid (s : Phone Bool) : Bool :=
  match s.trail with
  | .wrote _ text :: _ => text == line .balanced && s.text == line .balanced ++ "ce\n".toList
  | _ => false

/-- The command with two profiles at once: the longer line leaves its end behind the shorter one. -/
theorem saved_last_overlaid : ∃ s : Phone Bool,
    s.text = line .balanced ++ "ce\n".toList ∧ line .balanced = line (savedIn s.text) := by
  let s₀ : Phone Bool := ⟨fun _ => 0, fun _ => none, fun _ => false, none, []⟩
  let jobs : Bool → Job := fun b => if b then .set .balanced else .set .performance
  obtain ⟨s, q, hreach, hs⟩ : ∃ s q,
      (phone Bool false).Reach (· = s₀) (fun b => (jobs b).prog) s q ∧ overlaid s = true :=
    @Shared.reach_of_exec _ _ _ _ _ _ _ _ (phone Bool false) (· = s₀)
      (fun b => (jobs b).prog) s₀ rfl
      inTurns overlaid (by decide)
  have hlast := (saved_last ⟨fun _ => rfl, rfl⟩ hreach).1
  unfold overlaid at hs
  split at hs
  · rename_i htrail
    simp only [Bool.and_eq_true, beq_iff_eq] at hs
    rw [htrail] at hlast
    exact ⟨s, hs.2, hs.1 ▸ hlast⟩
  · exact absurd hs (by simp)

end All

/-! ## 9. The ceilings and the file

One half is a schedule: the runs are put in an order that leaves the ceilings of one and the name of
another. -/

theorem line_injective {p p' : Profile} (h : line p = line p') : p = p' := by
  have hp := savedIn_line p []
  have hp' := savedIn_line p' []
  rw [List.append_nil] at hp hp'
  rw [← hp, ← hp', h]

theorem answered (i : ι) (o : Op) (s : Phone ι) :
    ∃ ch r t, (phone ι true).act i o ch s = some (r, t) := ⟨⟨true, 0, [], none⟩, _, _, rfl⟩

theorem changes_concat (ps : List Profile) (p : Profile) :
    changes (ps ++ [p]) = changes ps >>= fun _ => changes [p] := by
  induction ps with
  | nil => rfl
  | cons p' ps ih =>
    change (change p' >>= fun _ => changes (ps ++ [p])) =
      (change p' >>= fun _ => changes ps) >>= fun _ => changes [p]
    rw [bind_assoc, ih]

/-- What is left of a single change when the ceilings have been set. -/
def rest (p : Profile) (r : Bool) : PowerProg Unit :=
  (if r then save p else pure false) >>= fun _ => changes []

theorem changes_one (p : Profile) : changes [p] = apply p >>= rest p := by
  change (change p >>= fun _ => changes []) = _
  rw [change, bind_assoc]
  rfl

section Settled

variable [DecidableEq ι] {runs : ι → List Profile} {s₀ s : Phone ι} {p : ι → PowerProg Unit}
  {q : ι → PowerProg Unit} {i : ι}

/-- The ceilings are set, with no Wi-Fi device there. -/
theorem run_apply {profile : Profile} {f : Bool → PowerProg Unit}
    (h : (phone ι true).Reach (· = s₀) p s q) (hi : q i = apply profile >>= f) :
    ∃ t q', (phone ι true).Reach (· = s₀) p t q' ∧ q' i = f true ∧ t.ceilings = ceiling profile ∧
      ∀ j, j ≠ i → q' j = q j := by
  obtain ⟨q₁, h₁, hi₁, hq₁⟩ := h.own ⟨true, 0, [], none⟩ hi rfl
  obtain ⟨q₂, h₂, hi₂, hq₂⟩ := h₁.own ⟨true, 0, [], none⟩ hi₁ rfl
  obtain ⟨q₃, h₃, hi₃, hq₃⟩ := h₂.own ⟨true, 0, [], none⟩ hi₂ rfl
  obtain ⟨q₄, h₄, hi₄, hq₄⟩ := h₃.own ⟨true, 0, [], none⟩ hi₃ rfl
  refine ⟨_, q₄, h₄, hi₄, ?_, fun j hj => ?_⟩
  · funext path
    cases path <;> rfl
  · rw [hq₄ j hj, hq₃ j hj, hq₂ j hj, hq₁ j hj]

/-- The name is written. -/
theorem run_save {profile : Profile} {f : Bool → PowerProg Unit}
    (h : (phone ι true).Reach (· = s₀) p s q) (hi : q i = save profile >>= f) :
    ∃ t q', (phone ι true).Reach (· = s₀) p t q' ∧ q' i = f true ∧ t.ceilings = s.ceilings ∧
      savedIn t.text = profile ∧ ∀ j, j ≠ i → q' j = q j := by
  obtain ⟨q₁, h₁, hi₁, hq₁⟩ := h.own ⟨true, 0, [], none⟩ hi rfl
  obtain ⟨q₂, h₂, hi₂, hq₂⟩ := h₁.own ⟨true, 0, [], none⟩ hi₁ rfl
  exact ⟨_, q₂, h₂, hi₂, rfl, savedIn_put _ i profile, fun j hj => (hq₂ j hj).trans (hq₁ j hj)⟩

variable (s₀) in
/-- **Two runs get in each other's way**: the one sets its ceilings, the other makes its whole
change, and the first then writes its name. -/
theorem mixed [Fintype ι] {j : ι} (hij : i ≠ j) {ps ps' : List Profile} {profile profile' : Profile}
    (hi : runs i = ps ++ [profile]) (hj : runs j = ps' ++ [profile']) :
    ∃ s q, (phone ι true).Reach (· = s₀) (fun k => changes (runs k)) s q ∧
      (∀ k, ∃ a, q k = .ret a) ∧
      s.ceilings = ceiling profile' ∧ savedIn s.text = profile := by
  have hboot : (phone ι true).Reach (· = s₀) (fun k => changes (runs k)) s₀
      (fun k => changes (runs k)) := .boot rfl
  obtain ⟨s₁, q₁, h₁, hret, hq₁⟩ := hboot.finish_all answered (Finset.univ \ {i, j})
  have hi₁ : q₁ i = changes ps >>= fun _ => changes [profile] := by
    rw [hq₁ i (by simp), hi, changes_concat]
  have hj₁ : q₁ j = changes ps' >>= fun _ => changes [profile'] := by
    rw [hq₁ j (by simp), hj, changes_concat]
  obtain ⟨s₂, q₂, -, h₂, hi₂, hq₂⟩ := h₁.advance answered hi₁
  obtain ⟨s₃, q₃, -, h₃, hj₃, hq₃⟩ := h₂.advance answered ((hq₂ j hij.symm).trans hj₁)
  obtain ⟨s₄, q₄, h₄, hi₄, -, hq₄⟩ := run_apply h₃ ((hq₃ i hij).trans (hi₂.trans (changes_one _)))
  obtain ⟨s₅, q₅, h₅, hj₅, hceil, hq₅⟩ :=
    run_apply h₄ ((hq₄ j hij.symm).trans (hj₃.trans (changes_one _)))
  obtain ⟨s₆, q₆, h₆, hj₆, hceil₆, -, hq₆⟩ := run_save h₅ hj₅
  obtain ⟨s₇, q₇, h₇, hi₇, hceil₇, hsaved, hq₇⟩ :=
    run_save h₆ ((hq₆ i hij).trans ((hq₅ i hij).trans hi₄))
  refine ⟨s₇, q₇, h₇, fun k => ?_, hceil₇.trans (hceil₆.trans hceil), hsaved⟩
  rcases eq_or_ne k i with rfl | hki
  · exact ⟨(), hi₇⟩
  · rcases eq_or_ne k j with rfl | hkj
    · exact ⟨(), (hq₇ k hki).trans hj₆⟩
    · obtain ⟨a, ha⟩ := hret k (by simp [hki, hkj])
      refine ⟨a, ?_⟩
      rw [hq₇ k hki, hq₆ k hkj, hq₅ k hkj, hq₄ k hki, hq₃ k hkj, hq₂ k hki, ha]

omit [DecidableEq ι] in
theorem Ended.set_by {ps : List Profile} (h : Ended i ps s) {path : Path}
    (hpath : s.setBy path = some i) :
    ∃ profile, ps.getLast? = some profile ∧ s.ceilings path = ceiling profile path := by
  unfold Ended at h
  split at h
  · exact absurd (h.ceiling path hpath) (by simp)
  · rename_i profile hlast
    exact ⟨profile, hlast, (Option.some.inj (h.ceiling path hpath)).symm⟩

omit [DecidableEq ι] in
theorem Ended.wrote {ps : List Profile} (h : Ended i ps s) {e : Entry ι}
    (he : s.trail.head? = some e)
    (hby : e.by = i) : ∃ profile, ps.getLast? = some profile ∧ e = .wrote i (line profile) := by
  unfold Ended at h
  split at h
  · exact absurd (h.entry e he hby) (by simp)
  · rename_i profile hlast
    exact ⟨profile, hlast, (Option.some.inj (h.entry e he hby)).symm⟩

omit [DecidableEq ι] in
theorem Ended.touched {ps : List Profile} (h : Ended i ps s) {profile : Profile}
    (hlast : ps.getLast? = some profile) : (∀ path, (s.setBy path).isSome) ∧ s.trail ≠ [] := by
  unfold Ended at h
  rw [hlast] at h
  exact ⟨fun path => h.set path rfl, h.done rfl⟩

/-- Runs that end in the same ceilings leave those of the profile in the file. -/
theorem settled_of_same (h₀ : s₀.Fresh) (hsettled : s₀.Settled)
    (hsame : ∀ i j profile profile', (runs i).getLast? = some profile →
      (runs j).getLast? = some profile' → ceiling profile = ceiling profile')
    (h : (phone ι true).Reach (· = s₀) (fun i => changes (runs i)) s q)
    (hret : ∀ i, ∃ a, q i = .ret a) : s.Settled := by
  have htold : Told s₀ s := told_reach h₀.2 (fun i => kind_uses.changes (runs i)) h
  have hended : ∀ i, Ended i (runs i) s := by
    intro i
    obtain ⟨a, ha⟩ := hret i
    exact Shared.reach_ret (G := Moved) (S := fun _ _ _ => True)
      (Q := fun i _ s => Ended i (runs i) s)
      (fun j s (hs : s = s₀) => gives_changes [] (runs j) (hs ▸ own_fresh h₀ j)) h ha
  funext path
  cases htrail : s.trail with
  | nil =>
    have hnone : s.setBy path = none := by
      cases hby : s.setBy path with
      | none => rfl
      | some i =>
        obtain ⟨profile, hlast, -⟩ := (hended i).set_by hby
        exact absurd htrail ((hended i).touched hlast).2
    have htext := htold.file
    rw [htrail] at htext
    rw [htold.ceiling path hnone, show s.text = s₀.text from htext]
    exact congrFun hsettled path
  | cons e rest =>
    obtain ⟨profile, hlast, he⟩ := (hended e.by).wrote (by rw [htrail]; rfl) rfl
    have hsaved := htold.saved
    rw [htrail, he] at hsaved
    rw [← line_injective (show line profile = line (savedIn s.text) from hsaved)]
    obtain ⟨j, hj⟩ := Option.isSome_iff_exists.mp (((hended _).touched hlast).1 path)
    obtain ⟨profile', hlast', hceil⟩ := (hended j).set_by hj
    rw [hceil, hsame _ _ _ _ hlast' hlast]

/-- **When the ceilings fit the file**, if nothing fails: once all runs are done, in every order of
their steps, the ceilings are those of the profile in the file exactly if the last changes of all
runs have the same ceilings. -/
theorem settled_iff [Fintype ι] (runs : ι → List Profile) :
    (∀ s₀ s q, s₀.Fresh → s₀.Settled →
      (phone ι true).Reach (· = s₀) (fun i => changes (runs i)) s q → (∀ i, ∃ a, q i = .ret a) →
      s.Settled) ↔
    ∀ i j profile profile', (runs i).getLast? = some profile → (runs j).getLast? = some profile' →
      ceiling profile = ceiling profile' := by
  constructor
  · intro hall i j profile profile' hi hj
    rcases eq_or_ne i j with rfl | hij
    · rw [Option.some.inj (hi.symm.trans hj)]
    · obtain ⟨ps, hps⟩ := List.getLast?_eq_some_iff.mp hi
      obtain ⟨ps', hps'⟩ := List.getLast?_eq_some_iff.mp hj
      let s₀ : Phone ι := ⟨ceiling .balanced, fun _ => none, fun _ => false, none, []⟩
      obtain ⟨s, q, h, hret, hceil, hsaved⟩ := mixed s₀ hij hps hps'
      have hsettled : s.Settled := hall s₀ s q ⟨fun _ => rfl, rfl⟩ rfl h hret
      rw [← hceil, ← hsaved]
      exact hsettled.symm
  · intro hsame s₀ s q h₀ hsettled h hret
    exact settled_of_same h₀ hsettled hsame h hret

end Settled

end S9p.Power
