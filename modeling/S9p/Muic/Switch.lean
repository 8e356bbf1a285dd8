/-
# The USB switch and VBUS

The driver routes D+ and D- to the AP when it is probed, and again whenever it sees VBUS come
back: the MCU may have dropped the setting.  It sees an edge by comparing a reading with the last
one, and it keeps the new reading whether or not the write has been taken.

* `follows_iff`: wherever VBUS is there and a write could be made, one has been made since VBUS
  was first seen, exactly where the write at that first sight was taken.
* `edge_write_lost`: a write that fails on the edge is not made good by a later poll.
-/
import S9p.Lib.Machine
import S9p.Lib.Since

namespace S9p.Muic

/-! ## 1. The driver

The driver polls, so an edge is two readings that differ.  A write is two transfers on the bus, and
it has been taken if both succeed. -/

def BC_STATUS_VBUSDET : BitVec 8 := 0x80

/-- `struct s9p_muic`. -/
structure S9pMuic where
  lastBc : BitVec 8
  applied : Bool

/-- What a call finds: the parameter, what is read, and how the two transfers of a write end, should
they be made. -/
structure Call where
  path : Int
  bc : Option (BitVec 8)
  data : Int
  stop : Int

/-- `muic_opcode_write` of one byte: the data, then the end marker. -/
def opcodeWrite (c : Call) : Int :=
  if c.data < 0 then c.data else if c.stop < 0 then c.stop else 0

/-- `muic_set_path`. -/
def setPath (m : S9pMuic) (c : Call) : S9pMuic × Int :=
  let ret := opcodeWrite c
  if ret ≠ 0 then (m, ret) else ({ m with applied := true }, 0)

/-- `muic_poll`, with the result of the CONTROL1 write if one is made. -/
def poll (m : S9pMuic) (c : Call) : S9pMuic × Option Int :=
  match c.bc with
  | none => (m, none)
  | some bc =>
    if bc ≠ m.lastBc then
      if bc &&& BC_STATUS_VBUSDET ≠ 0 ∧ m.lastBc &&& BC_STATUS_VBUSDET = 0 ∧ 0 ≤ c.path then
        let (m, ret) := setPath m c
        ({ m with lastBc := bc }, some ret)
      else ({ m with lastBc := bc }, none)
    else (m, none)

/-- `s9p_muic_probe`, which fails where the two revisions cannot be read. -/
def probe (hw fw : Int) (c : Call) : Option (S9pMuic × Option Int) :=
  if hw < 0 ∨ fw < 0 then none
  else
    let m : S9pMuic := ⟨c.bc.getD 0, false⟩
    if 0 ≤ c.path then
      let (m, ret) := setPath m c
      some (m, some ret)
    else some (m, none)

/-! ## 2. What is asked of a run

Whether a write could be made is an input of each poll, even of those that make none.  That is how
one can say that a write was possible and was not made. -/

/-- A call that has been made, with the result of its write.  It is the history a property of the
polls is about. -/
structure Done where
  call : Call
  ret : Option Int

/-- A poll is noted with what it has found. -/
def step (m : S9pMuic) (c : Call) : S9pMuic × Done := ((poll m c).1, ⟨c, (poll m c).2⟩)

/-- The polls, one after the other. -/
def polls (m : S9pMuic) (cs : List Call) : List Done := Machine.outputs step m cs

def Call.Present (c : Call) : Prop := ∃ bc, c.bc = some bc ∧ bc &&& BC_STATUS_VBUSDET ≠ 0

def Call.Absent (c : Call) : Prop := ∃ bc, c.bc = some bc ∧ bc &&& BC_STATUS_VBUSDET = 0

/-- A write would be taken. -/
def Call.Writable (c : Call) : Prop := opcodeWrite c = 0

/-- VBUS is there, as far as has been read: a reading that fails says nothing. -/
def Seen (calls : List Call) : Prop := Since (fun c => ¬ c.Absent) (fun _ c => c.Present) calls

/-- CONTROL1 has been written since VBUS was first seen, and VBUS has been there since. -/
def Served (run : List Done) : Prop :=
  Since (fun d => ¬ d.call.Absent)
    (fun before d => d.ret = some 0 ∧ Seen (before.map Done.call ++ [d.call])) run

/-- After every poll that reads VBUS and could write, the switch has been set for it. -/
def Follows (run : List Done) : Prop :=
  ∀ n, 0 < n → ∀ d, run[n]? = some d → d.call.Present → d.call.Writable → Served (run.take (n + 1))

/-- Where VBUS was first seen, a write would have been taken; and VBUS has been there since. -/
def Landed (calls : List Call) : Prop :=
  Since (fun c => ¬ c.Absent) (fun before c => c.Present ∧ ¬ Seen before ∧ c.Writable) calls

/-- So it was wherever a later poll reads VBUS and could write.  It looks at the calls alone, and
not at what the driver made of them. -/
def FirstLands (calls : List Call) : Prop :=
  ∀ n, 0 < n → ∀ c, calls[n]? = some c → c.Present → c.Writable → Landed (calls.take (n + 1))

/-! ## 3. What the driver remembers

One byte is all the driver keeps, and it is the reading and not the outcome of the write. -/

section Run

variable {m : S9pMuic} {p c : Call} {cs : List Call} {ret : Option Int} {hw fw : Int}

theorem not_present_iff_of_some {bc : BitVec 8} (h : c.bc = some bc) :
    c.Absent ↔ ¬ c.Present := by
  simp [Call.Absent, Call.Present, h]

theorem Call.Present.not_absent (h : c.Present) : ¬ c.Absent := by
  obtain ⟨bc, hbc, hvbus⟩ := h
  exact fun habsent => (not_present_iff_of_some hbc).mp habsent ⟨bc, hbc, hvbus⟩

/-- The state after some polls. -/
def after (m : S9pMuic) (cs : List Call) : S9pMuic := Machine.after step m cs

theorem polls_concat (m : S9pMuic) (cs : List Call) (c : Call) :
    polls m (cs ++ [c]) = polls m cs ++ [⟨c, (poll (after m cs) c).2⟩] :=
  Machine.outputs_concat

theorem map_polls (m : S9pMuic) (cs : List Call) : (polls m cs).map Done.call = cs :=
  Machine.map_outputs (fun _ _ => rfl)

theorem take_polls (m : S9pMuic) (cs : List Call) (n : Nat) :
    (polls m cs).take n = polls m (cs.take n) :=
  Machine.outputs_take n

/-- The memory of a VBUS edge. -/
def S9pMuic.Vbus (m : S9pMuic) : Prop := m.lastBc &&& BC_STATUS_VBUSDET ≠ 0

theorem lastBc_setPath (m : S9pMuic) (c : Call) : (setPath m c).1.lastBc = m.lastBc := by
  simp only [setPath]
  split <;> rfl

theorem setPath_ret (m : S9pMuic) (c : Call) : (setPath m c).2 = 0 ↔ c.Writable := by
  simp only [setPath, Call.Writable]
  split
  · exact Iff.rfl
  · exact iff_of_true rfl (not_ne_iff.mp ‹_›)

/-- **A poll remembers what it has read**, whatever becomes of the write. -/
theorem lastBc_poll (m : S9pMuic) (c : Call) : (poll m c).1.lastBc = c.bc.getD m.lastBc := by
  unfold poll
  cases hbc : c.bc with
  | none => rfl
  | some bc =>
    simp only [Option.getD_some]
    split
    · split <;> rfl
    · exact (not_ne_iff.mp ‹_›).symm

theorem poll_vbus (m : S9pMuic) (c : Call) :
    (poll m c).1.Vbus ↔ c.Present ∨ ¬ c.Absent ∧ m.Vbus := by
  rw [S9pMuic.Vbus, lastBc_poll]
  cases hbc : c.bc with
  | none => simp [Call.Present, Call.Absent, S9pMuic.Vbus, hbc]
  | some bc =>
    rw [not_present_iff_of_some hbc]
    simp only [Option.getD_some, Call.Present, hbc, Option.some.injEq, exists_eq_left']
    exact ⟨.inl, fun h => h.elim id (fun h => not_not.mp h.1)⟩

/-- **A poll writes on the edge only.** -/
theorem poll_wrote (m : S9pMuic) (c : Call) (hpath : 0 ≤ c.path) :
    (poll m c).2 = some 0 ↔ c.Present ∧ ¬ m.Vbus ∧ c.Writable := by
  unfold poll
  cases hbc : c.bc with
  | none => simp [Call.Present, hbc]
  | some bc =>
    have hpresent : c.Present ↔ bc &&& BC_STATUS_VBUSDET ≠ 0 := by simp [Call.Present, hbc]
    rw [hpresent, S9pMuic.Vbus, not_ne_iff]
    simp only
    split
    · split
      · rename_i hedge
        rw [Option.some.injEq, setPath_ret]
        constructor
        · exact fun hwritable => ⟨hedge.1, hedge.2.1, hwritable⟩
        · exact fun h => h.2.2
      · rename_i hedge
        simp only [hpath, and_true] at hedge
        simp only [reduceCtorEq, false_iff]
        exact fun h => hedge ⟨h.1, h.2.1⟩
    · rename_i hsame
      rw [not_ne_iff.mp hsame]
      simp only [reduceCtorEq, false_iff]
      exact fun h => h.1 h.2.1

/-- The probe remembers its reading too, and always writes. -/
theorem probe_inv (hprobe : probe hw fw p = some (m, ret)) (hpath : 0 ≤ p.path) :
    (m.Vbus ↔ p.Present) ∧ (ret = some 0 ↔ p.Writable) := by
  unfold probe at hprobe
  split at hprobe
  · exact absurd hprobe (by simp)
  · simp only [Option.some.injEq, Prod.mk.injEq] at hprobe
    obtain ⟨rfl, rfl⟩ := hprobe
    rw [S9pMuic.Vbus, lastBc_setPath, Option.some.injEq, setPath_ret]
    cases hbc : p.bc with
    | none => simp [Call.Present, hbc]
    | some bc => simp [Call.Present, hbc]

/-! ## 4. The run

What the driver remembers and what has been read are followed side by side through the polls. -/

theorem not_seen_nil : ¬ Seen [] := since_nil

theorem seen_concat (cs : List Call) (c : Call) :
    Seen (cs ++ [c]) ↔ c.Present ∨ ¬ c.Absent ∧ Seen cs := since_concat cs c

theorem landed_concat (cs : List Call) (c : Call) : Landed (cs ++ [c]) ↔
    (c.Present ∧ ¬ Seen cs ∧ c.Writable) ∨ ¬ c.Absent ∧ Landed cs := since_concat cs c

theorem served_concat (run : List Done) (d : Done) : Served (run ++ [d]) ↔
    (d.ret = some 0 ∧ Seen (run.map Done.call ++ [d.call])) ∨ ¬ d.call.Absent ∧ Served run :=
  since_concat run d

/-- **The driver's memory is what has been seen.** -/
theorem vbus_after (hprobe : probe hw fw p = some (m, ret)) (hpath : 0 ≤ p.path)
    (cs : List Call) : (after m cs).Vbus ↔ Seen (p :: cs) := by
  induction cs using List.reverseRecOn with
  | nil =>
    have hseen := seen_concat [] p
    rw [List.nil_append, or_iff_left (fun h => not_seen_nil h.2)] at hseen
    exact (probe_inv hprobe hpath).1.trans hseen.symm
  | append_singleton cs c ih =>
    have hstep : after m (cs ++ [c]) = (poll (after m cs) c).1 := Machine.after_concat
    rw [hstep, poll_vbus, ih, ← List.cons_append, seen_concat]

/-- **The switch has been set since VBUS was first seen** where the first write was taken. -/
theorem served_iff (hprobe : probe hw fw p = some (m, ret)) (hpath : ∀ c ∈ p :: cs, 0 ≤ c.path) :
    Served (⟨p, ret⟩ :: polls m cs) ↔ Landed (p :: cs) := by
  have hfirst := probe_inv hprobe (hpath p List.mem_cons_self)
  induction cs using List.reverseRecOn with
  | nil =>
    have hserved := served_concat [] ⟨p, ret⟩
    have hlanded := landed_concat [] p
    have hseen := seen_concat [] p
    have hnone : ¬ Seen [] := not_seen_nil
    have hnone' : ¬ Served [] := since_nil
    have hnone'' : ¬ Landed [] := since_nil
    simp only [List.nil_append, List.map_nil] at hserved hlanded hseen
    rw [polls, Machine.outputs, hserved, hlanded, hseen, hfirst.2]
    simp only [hnone, hnone', hnone'', and_false, or_false, not_false_eq_true, true_and]
    exact and_comm
  | append_singleton cs c ih =>
    have hbefore : Served (⟨p, ret⟩ :: polls m cs) ↔ Landed (p :: cs) := by
      refine ih (fun c' hc' => hpath c' ?_)
      rw [← List.cons_append]
      exact List.mem_append_left _ hc'
    have hc : 0 ≤ c.path := hpath c (by simp)
    have hmap : (⟨p, ret⟩ :: polls m cs : List Done).map Done.call = p :: cs := by
      rw [List.map_cons, map_polls]
    have hvbus := vbus_after hprobe (hpath p List.mem_cons_self) cs
    rw [polls_concat, ← List.cons_append, ← List.cons_append, served_concat, landed_concat, hmap,
      poll_wrote _ _ hc, hvbus, hbefore, seen_concat]
    exact or_congr_left (and_iff_left_of_imp (fun h => .inl h.1))

/-- **The switch follows VBUS** exactly where the write at its first sight was taken. -/
theorem follows_iff (hprobe : probe hw fw p = some (m, ret))
    (hpath : ∀ c ∈ p :: cs, 0 ≤ c.path) :
    Follows (⟨p, ret⟩ :: polls m cs) ↔ FirstLands (p :: cs) := by
  have hserved : ∀ n, Served ((⟨p, ret⟩ :: polls m cs).take (n + 1)) ↔
      Landed ((p :: cs).take (n + 1)) := by
    intro n
    rw [List.take_succ_cons, List.take_succ_cons, take_polls]
    refine served_iff hprobe (fun c hc => hpath c ?_)
    rcases List.mem_cons.mp hc with rfl | hc
    · exact List.mem_cons_self
    · exact List.mem_cons_of_mem _ (List.mem_of_mem_take hc)
  have hcall : ∀ (n : Nat) (c : Call), (p :: cs)[n]? = some c ↔
      ∃ d : Done, (⟨p, ret⟩ :: polls m cs : List Done)[n]? = some d ∧ d.call = c := by
    intro n c
    have hmap : (⟨p, ret⟩ :: polls m cs : List Done).map Done.call = p :: cs := by
      rw [List.map_cons, map_polls]
    rw [← hmap, List.getElem?_map, Option.map_eq_some_iff]
  constructor
  · intro h n hn c hc hpresent hwritable
    obtain ⟨d, hd, rfl⟩ := (hcall n c).mp hc
    exact (hserved n).mp (h n hn d hd hpresent hwritable)
  · intro h n hn d hd hpresent hwritable
    exact (hserved n).mpr (h n hn d.call ((hcall n _).mpr ⟨d, hd, rfl⟩) hpresent hwritable)

end Run

/-! ## 5. Two runs

The same two readings, with a write that is taken and with one that is not. -/

/-- The cable is out when the driver is probed. -/
def unplugged : Call := ⟨0x09, some 0, 0, 0⟩

/-- It is plugged in, and the transfer ends with `data`. -/
def plugged (data : Int) : Call := ⟨0x09, some 0x80, data, 0⟩

theorem present_plugged (data : Int) : (plugged data).Present := ⟨0x80, rfl, by decide⟩

theorem not_seen_unplugged : ¬ Seen [unplugged] := by
  have hseen := seen_concat [] unplugged
  rw [List.nil_append] at hseen
  rw [hseen]
  rintro (⟨bc, hbc, hvbus⟩ | ⟨-, hnil⟩)
  · obtain rfl := Option.some.inj hbc
    exact hvbus (by decide)
  · exact not_seen_nil hnil

/-- The first write is taken. -/
theorem follows_iff_plugged :
    Follows (⟨unplugged, some 0⟩ :: polls ⟨0, true⟩ [plugged 0, plugged 0]) := by
  have hprobe : probe 1 1 unplugged = some (⟨0, true⟩, some 0) := rfl
  refine (follows_iff hprobe (by simp [unplugged, plugged])).mpr ?_
  have hfirst : Landed [unplugged, plugged 0] := (landed_concat [unplugged] (plugged 0)).mpr
    (.inl ⟨present_plugged 0, not_seen_unplugged, rfl⟩)
  intro n hn c hc _ _
  match n, hn with
  | 1, _ => exact hfirst
  | 2, _ =>
    exact (landed_concat [unplugged, plugged 0] (plugged 0)).mpr
      (.inr ⟨(present_plugged 0).not_absent, hfirst⟩)
  | n + 3, _ => exact absurd hc (by simp)

/-- **A write that fails on the edge is lost**: the next poll could write, and does not. -/
theorem edge_write_lost : ¬ Follows (⟨unplugged, some 0⟩ ::
    polls ⟨0, true⟩ [plugged (-5), plugged 0]) := by
  intro h
  have hserved := h 2 (by decide) ⟨plugged 0, none⟩ rfl (present_plugged 0) rfl
  have hthird := (served_concat [⟨unplugged, some 0⟩, ⟨plugged (-5), some (-5)⟩]
    ⟨plugged 0, none⟩).mp hserved
  rcases hthird with ⟨hret, -⟩ | ⟨-, hsecond⟩
  · exact absurd hret (by decide)
  rcases (served_concat [⟨unplugged, some 0⟩] ⟨plugged (-5), some (-5)⟩).mp hsecond with
    ⟨hret, -⟩ | ⟨-, hfirst⟩
  · exact absurd hret (by decide)
  rcases (served_concat [] ⟨unplugged, some 0⟩).mp hfirst with ⟨-, hseen⟩ | ⟨-, hnil⟩
  · exact not_seen_unplugged hseen
  · exact since_nil hnil

end S9p.Muic
