/-
# What the tool's commands do

What a command is documented to do to the PMIC registers is `documented`, what it does is
`carriedOut`; in both, the firmware may refuse a write or an update, which then does nothing.  They
are not the same: the line `elif op == "tsp":` is missing, so its body runs at the end of `dvfs`,
where it clears the mode bits of LDO35 and LDO43, and `tsp` prints the usage.

* `leads_main`: a run of `main` uses the numbers `numbersOf`, and `carriedOut` is due.
* `main_follows`: a run that gets to its end follows the documented commands exactly when
  `HoldsWhen`; `dvfs_clears_rails` is one that does not.
-/
import S9p.Acpm.Course
import S9p.Acpm.Matching

namespace S9p.Acpm.Tool

open Device Reading

/-! ## 1. What is documented

The usage text in the source says what each command is for.  `documented` is that text made precise,
and it is not read off the code. -/

def setReg (typ : BitVec 4) (reg val : BitVec 8) (p : Pmic) : Pmic :=
  fun t r => if t = typ ∧ r = reg then val else p t r

/-- `typ` names the chip of the PMIC, `reg` its register. -/
def updateReg (typ : BitVec 4) (reg val mask : BitVec 8) (p : Pmic) : Pmic :=
  setReg typ reg ((p typ reg &&& ~~~mask) ||| (val &&& mask)) p

/-- What `f` does if the firmware does not refuse the command `cmd`, sent with the `i`-th number of
a run from `w`. -/
def obeyed (T : Firmware) (w : World) (i : Nat) (cmd : Cmd) (f : Pmic → Pmic) (p : Pmic) : Pmic :=
  if T.code (attempt w 2 i cmd) = 0 then f p else p

/-- The mode bits of an LDO that is switched on or off. -/
def modeBits (on : Bool) : BitVec 8 := if on then 0xc0 else 0x00

/-- The update that switches the LDO with the register `reg`. -/
def railCmd (on : Bool) (reg : BitVec 8) : Cmd := toolCmd 1 FUNC_UPDATE reg (modeBits on) 0xc0

def switchRail (T : Firmware) (w : World) (i : Nat) (on : Bool) (reg : BitVec 8) (p : Pmic) :
    Pmic :=
  obeyed T w i (railCmd on reg) (updateReg 1 reg (modeBits on) 0xc0) p

/-- LDO35 (tsp_io) and LDO43 (tsp_avdd), when `k` numbers have been taken before.  There is a read
before and after each update. -/
def setRails (T : Firmware) (w : World) (k : Nat) (on : Bool) (p : Pmic) : Pmic :=
  switchRail T w (k + 5) on 0x74 (switchRail T w (k + 2) on 0x6c p)

/-- The documented effect of a command on the registers. -/
def documented (T : Firmware) (w : World) (argv : List String) (p : Pmic) : Pmic :=
  match argv with
  | "write" :: typ :: reg :: val :: _ =>
      match int0 typ, int0 reg, int0 val with
      | some typ, some reg, some val =>
          obeyed T w 1 (toolCmd (BitVec.ofInt 4 typ) FUNC_WRITE (BitVec.ofInt 8 reg)
              (BitVec.ofInt 8 val) 0)
            (setReg (BitVec.ofInt 4 typ) (BitVec.ofInt 8 reg) (BitVec.ofInt 8 val)) p
      | _, _, _ => p
  | "update" :: typ :: reg :: val :: mask :: _ =>
      match int0 typ, int0 reg, int0 val, int0 mask with
      | some typ, some reg, some val, some mask =>
          obeyed T w 1 (toolCmd (BitVec.ofInt 4 typ) FUNC_UPDATE (BitVec.ofInt 8 reg)
              (BitVec.ofInt 8 val) (BitVec.ofInt 8 mask))
            (updateReg (BitVec.ofInt 4 typ) (BitVec.ofInt 8 reg) (BitVec.ofInt 8 val)
              (BitVec.ofInt 8 mask)) p
      | _, _, _, _ => p
  | "tsp" :: "on" :: _ => setRails T w 0 true p
  | "tsp" :: "off" :: _ => setRails T w 0 false p
  | _ => p

/-- The run has returned, or printed the usage. -/
def Completed (r : Except Stop Unit) : Prop := r = .ok () ∨ r = .error .usage

/-- From `w` to `t`, the registers are what is documented, and every reply other than the tool's own
is in its ring, once.  A stop in the middle leaves no such state to compare, and is not a completed
run. -/
structure Follows (T : Firmware) (argv : List String) (w t : World) : Prop where
  due : ∀ ch ∈ T.channels, ch.id = 2 →
    due T.code ch.q (t.chan ch.id) = documented T w argv (due T.code ch.q (w.chan ch.id))
  pmic : ∀ ch ∈ T.channels, ch.id = 2 → Settled ch.q (w.chan ch.id) →
    (t.chan ch.id).pmic = documented T w argv (w.chan ch.id).pmic
  unread : ∀ ch ∈ T.channels, 2 ≤ ch.q →
    (rxMsgs ch.q (w.chan ch.id)).Subperm (rxMsgs ch.q (t.chan ch.id))
  once : ∀ ch ∈ T.channels, 2 ≤ ch.q →
    (heads ch.q (t.chan ch.id)).Perm (heads ch.q (w.chan ch.id))

/-- An LDO is switched as the update with the number `i` would have it, or that would be refused. -/
def RailIs (T : Firmware) (w : World) (i : Nat) (on : Bool) (reg : BitVec 8) (p : Pmic) : Prop :=
  T.code (attempt w 2 i (railCmd on reg)) = 0 → p 1 reg &&& 0xc0 = modeBits on

/-- The mode bits of the two LDOs. -/
def RailsAre (T : Firmware) (w : World) (k : Nat) (on : Bool) (p : Pmic) : Prop :=
  RailIs T w (k + 2) on 0x6c p ∧ RailIs T w (k + 5) on 0x74 p

/-- The numbers a run uses, with the channels it uses them on. -/
def numbersOf (argv : List String) (seq : Word) : List (Word × Word) :=
  match argv with
  | "read" :: _ | "write" :: _ | "update" :: _ => [(2, nextSeq seq)]
  | "dvfs" :: _ =>
      (5, nextSeq seq) :: (List.range 6).map (fun i => (2, nextSeq^[i + 2] seq))
  | _ => []

/-- Nothing under way on the rings carries one of the numbers. -/
def Clear (T : Firmware) (used : List (Word × Word)) (w : World) : Prop :=
  ∀ ch ∈ T.channels, 2 ≤ ch.q → Free ch.id used (heads ch.q (w.chan ch.id))

/-- What the missing line does not change.  The update that `dvfs` makes of its own comes first. -/
def Harmless (T : Firmware) (w : World) (argv : List String) (p : Pmic) : Prop :=
  match argv with
  | "dvfs" :: _ => RailsAre T w 1 false p
  | "tsp" :: "on" :: _ => RailsAre T w 0 true p
  | "tsp" :: "off" :: _ => RailsAre T w 0 false p
  | _ => True

/-- Nothing under way carries a number of the run, and before `dvfs` and `tsp` the mode bits of the
two LDOs are what the body of `tsp` sets them to.  Both parts are about the world before the run and
the arguments. -/
def HoldsWhen (T : Firmware) (argv : List String) (w : World) : Prop :=
  Clear T (numbersOf argv w.seq) w ∧
    ∀ ch ∈ T.channels, ch.id = 2 → Harmless T w argv (due T.code ch.q (w.chan ch.id))

variable {T : Firmware} {w w₀ u : World} {used : List (Word × Word)} {k : Nat} {b b' : Pmic}
  {s t : Shm}

/-! ## 2. The commands of `mfd`

All three commands build their words with `mfd`, and each field of them comes back out of the word
it was put into. -/

section Mfd

variable {typ : BitVec 4} {func reg val mask : BitVec 8} {src : Src}

/-- The number is outside the fields the firmware looks at. -/
theorem execute_numbered (cmd : Cmd) (seq : Word) :
    execute (Msg.ofCmd src (numbered cmd seq)) = execute (Msg.ofCmd src cmd) := by
  have h : ∀ (off : Nat) (m : Word), (BitVec.allOnes 32 <<< 16) &&& (m <<< off) = 0#32 →
      Field.field off m (numbered cmd seq).w0 = Field.field off m cmd.w0 := by
    intro off m hm
    simp only [numbered, Field.field_or, Field.field_shift_outside hm, BitVec.or_zero]
  have ht : cmdType (Msg.ofCmd src (numbered cmd seq)) = cmdType (Msg.ofCmd src cmd) :=
    congrArg (BitVec.setWidth 4) (h 8 0xf#32 (by decide))
  have hr : cmdReg (Msg.ofCmd src (numbered cmd seq)) = cmdReg (Msg.ofCmd src cmd) :=
    congrArg (BitVec.setWidth 8) (h 0 0xff#32 (by decide))
  funext p
  simp only [execute, ht, hr]
  rfl

theorem cmdType_toolCmd : cmdType (Msg.ofCmd src (toolCmd typ func reg val mask)) = typ := by
  have h : ∀ b : BitVec 8, (b.setWidth 32 &&& 0xff#32) &&& (0xf#32 <<< 8) = 0#32 := by decide
  simp only [cmdType, Msg.ofCmd, Quad.map, toolCmd, Field.field_or, Field.field_outside (h reg)]
  revert typ
  decide

theorem cmdReg_toolCmd : cmdReg (Msg.ofCmd src (toolCmd typ func reg val mask)) = reg := by
  have h : ∀ t : BitVec 4, Field.field 0 0xff#32 ((t.setWidth 32 &&& 0xf#32) <<< 8) = 0#32 := by
    decide
  simp only [cmdReg, Msg.ofCmd, Quad.map, toolCmd, Field.field_or, h, BitVec.zero_or]
  exact setWidth_field_byte reg

theorem cmdMask_toolCmd : cmdMask (Msg.ofCmd src (toolCmd typ func reg val mask)) = mask := by
  have h : ∀ b : BitVec 8, (b.setWidth 32 &&& 0xff#32) &&& (0xff#32 <<< 16) = 0#32 := by decide
  have hv : ∀ b : BitVec 8, ((b.setWidth 32 &&& 0xff#32) <<< 8) &&& (0xff#32 <<< 16) = 0#32 := by
    decide
  have hm : ∀ b : BitVec 8, (b.setWidth 32 &&& 0xff#32 &&& 0xff#32).setWidth 8 = b := by decide
  simp only [cmdMask, Msg.ofCmd, Quad.map, toolCmd, Field.field_or, Field.field_outside (h func),
    Field.field_outside (hv val),
    Field.field_shift (show (0xff#32 <<< 16) >>> 16 = 0xff#32 by decide), BitVec.zero_or, hm]

/-- The function and the value are where the driver puts them as well. -/
theorem cmdFunc_toolCmd : cmdFunc (Msg.ofCmd src (toolCmd typ func reg val mask)) = func :=
  cmdFunc_mkCmd src func reg val mask

theorem cmdVal_toolCmd : cmdVal (Msg.ofCmd src (toolCmd typ func reg val mask)) = val :=
  cmdVal_mkCmd src func reg val mask

variable (p : Pmic)

/-- A command of the run is obeyed, whatever its number. -/
theorem carry_attempt {i : Nat} {cmd : Cmd} {f : Pmic → Pmic}
    (h : ∀ src, execute (Msg.ofCmd src cmd) p = f p) :
    carry T.code (attempt w 2 i cmd) p = obeyed T w i cmd f p := by
  have hexec : execute (attempt w 2 i cmd) p = f p :=
    (congrFun (execute_numbered cmd _) p).trans (h _)
  rw [carry, obeyed, hexec]

/-- A read does nothing, and so does one that is refused. -/
theorem obeyed_id {i : Nat} {cmd : Cmd} : obeyed T w i cmd id p = p := by
  rw [obeyed, id, ite_self]

theorem execute_toolRead :
    execute (Msg.ofCmd src (toolCmd typ FUNC_READ reg val mask)) p = p := by
  funext t r
  simp only [execute, cmdType_toolCmd, cmdReg_toolCmd, cmdFunc_toolCmd]
  split
  · rename_i h
    rw [h.1, h.2]
    rfl
  · rfl

theorem execute_toolWrite :
    execute (Msg.ofCmd src (toolCmd typ FUNC_WRITE reg val mask)) p = setReg typ reg val p := by
  funext t r
  simp only [execute, cmdType_toolCmd, cmdReg_toolCmd, cmdFunc_toolCmd, cmdVal_toolCmd, if_true]
  rfl

theorem execute_toolUpdate :
    execute (Msg.ofCmd src (toolCmd typ FUNC_UPDATE reg val mask)) p =
      updateReg typ reg val mask p := by
  have hne : FUNC_UPDATE ≠ FUNC_WRITE := by decide
  funext t r
  simp only [execute, cmdType_toolCmd, cmdReg_toolCmd, cmdFunc_toolCmd, cmdVal_toolCmd,
    cmdMask_toolCmd, if_neg hne, if_true]
  rfl

end Mfd

/-- The rule for `mfd`. -/
theorem Course.leads_mfd (hstart : Start T w₀) (h : Course T w₀ used k b w) {func : BitVec 8}
    {typ reg val mask : Int} {tm : Timing}
    {f : Pmic → Pmic} (hf : ∀ src, execute (Msg.ofCmd src (toolCmd (BitVec.ofInt 4 typ) func
      (BitVec.ofInt 8 reg) (BitVec.ofInt 8 val) (BitVec.ofInt 8 mask))) b = f b)
    (hb : obeyed T w₀ (k + 1) (toolCmd (BitVec.ofInt 4 typ) func (BitVec.ofInt 8 reg)
      (BitVec.ofInt 8 val) (BitVec.ofInt 8 mask)) f b = b') :
    Leads T (mfd T.toTable func typ reg val mask tm)
      (fun _ => Course T w₀ (used ++ [(2, nextSeq^[k + 1] w₀.seq)]) (k + 1) b') w := by
  unfold mfd
  refine leads_bind (leads_findChannel course_stable h) ?_
  rintro ch t ⟨⟨hch, hid⟩, ht⟩
  have hid2 : ch.id = 2 := BitVec.eq_of_toNat_eq (by exact_mod_cast hid)
  have htrans := ht.leads_transact hstart hch _ tm
    (fun _ => hid2 ▸ (carry_attempt b hf).trans hb) (fun hne => absurd hid2 hne)
  rw [hid2] at htrans
  exact leads_bind htrans (fun words u hu => leads_pure course_stable hu (fun _ h => h))

/-! ## 3. The commands of `main`

The dispatch chain is followed branch by branch.  Where a command stops in the middle there is
nothing to show, since the run is not a completed one. -/

theorem leads_cmdInfo {I : World → Prop} (hI : (tool T).Stable I) (hw : I w) :
    Leads T (cmdInfo T.toTable) (fun _ => I) w := by
  have hloop : ∀ (l : List Channel) (t : World), I t → Leads T (l.forM (fun ch => do
      let txRear ← on ch.id rdTxRear
      let txFront ← on ch.id rdTxFront
      let rxRear ← on ch.id rdRxRear
      let rxFront ← on ch.id rdRxFront
      print (.channel ch (txRear, txFront) (rxRear, rxFront)))) (fun _ => I) t := by
    intro l
    induction l with
    | nil => exact fun t ht => leads_pure hI ht (fun _ h => h)
    | cons ch l ih =>
      intro t ht
      refine leads_bind ?_ (fun _ u hu => ih u hu)
      refine leads_bind (leads_look hI (fun _ => rfl) ht) (fun txRear t ht => ?_)
      refine leads_bind (leads_look hI (fun _ => rfl) ht) (fun txFront t ht => ?_)
      refine leads_bind (leads_look hI (fun _ => rfl) ht) (fun rxRear t ht => ?_)
      refine leads_bind (leads_look hI (fun _ => rfl) ht) (fun rxFront t ht => ?_)
      exact leads_print hI ht
  refine leads_bind (leads_print hI hw) (fun _ t ht => ?_)
  refine leads_bind (hloop T.channels t ht) (fun _ t ht => ?_)
  refine leads_bind (leads_rdMbox hI ht) (fun _ t ht => ?_)
  refine leads_bind (leads_rdMbox hI ht) (fun _ t ht => ?_)
  refine leads_bind (leads_rdMbox hI ht) (fun _ t ht => ?_)
  refine leads_bind (leads_rdMbox hI ht) (fun _ t ht => ?_)
  exact leads_print hI ht

/-- A read takes a number. -/
theorem Course.leads_mfdRead (hstart : Start T w₀) (h : Course T w₀ used k b w)
    {typ reg : Int} {tm : Timing} :
    Leads T (mfd T.toTable FUNC_READ typ reg 0 0 tm)
      (fun _ => Course T w₀ (used ++ [(2, nextSeq^[k + 1] w₀.seq)]) (k + 1) b) w :=
  h.leads_mfd (f := id) hstart (fun _ => execute_toolRead b) (obeyed_id b)

/-- One LDO takes three numbers, and its mode bits are set or cleared. -/
theorem Course.leads_setRail (hstart : Start T w₀) (h : Course T w₀ used k b w) {on : Bool}
    {tm : Nat → Timing} {name : String} {reg : Int} :
    Leads T (setRail T.toTable on tm name reg) (fun _ => Course T w₀
      (used ++ [(2, nextSeq^[k + 1] w₀.seq)] ++ [(2, nextSeq^[k + 2] w₀.seq)] ++
        [(2, nextSeq^[k + 3] w₀.seq)]) (k + 3)
      (switchRail T w₀ (k + 2) on (BitVec.ofInt 8 reg) b)) w := by
  have hmode : BitVec.ofInt 8 (if on then 0xc0 else 0x00) = modeBits on := by
    cases on <;> decide
  refine leads_bind (h.leads_mfdRead hstart) (fun x t ht => ?_)
  refine leads_bind (ht.leads_mfd hstart (fun _ => execute_toolUpdate b) rfl) (fun x t ht => ?_)
  rw [hmode] at ht
  refine leads_bind (ht.leads_mfdRead hstart) (fun x t ht => ?_)
  exact leads_print course_stable ht

/-- What names a domain is not `on`. -/
theorem leads_domain {I : World → Prop} (hI : (tool T).Stable I) {name : String} (hw : I w) :
    Leads T (domain name) (fun _ t => name ≠ "on" ∧ I t) w := by
  unfold domain
  split
  · rename_i dom hdom
    refine leads_pure hI hw (fun t ht => ⟨?_, ht⟩)
    rintro rfl
    have hnone : domains.lookup "on" = none := by decide
    exact absurd (hdom.symm.trans hnone) (by simp)
  · refine fwp_mono ?_ (fun _ _ h => h) (leads_number hI hw)
    rintro n t ⟨hn, ht⟩
    refine ⟨?_, ht⟩
    rintro rfl
    have hnone : int0 "on" = none := by decide +kernel
    exact absurd (hn.symm.trans hnone) (by simp)

theorem Course.leads_dvfs (hstart : Start T w₀) (hch : ch ∈ T.channels) (hid : ch.id = 5)
    (h : Course T w₀ used k b w) {name : String} {dom : Int} {khz : Option String} {tm : Timing} :
    Leads T (dvfs ch name dom khz tm)
      (fun _ => Course T w₀ (used ++ [(5, nextSeq^[k + 1] w₀.seq)]) (k + 1) b) w := by
  have htrans : ∀ {cmd} {t : World}, Course T w₀ used k b t → Leads T (transact ch cmd tm)
      (fun _ => Course T w₀ (used ++ [(5, nextSeq^[k + 1] w₀.seq)]) (k + 1) b) t := by
    intro cmd t ht
    have hne : ch.id ≠ 2 := fun h2 => absurd (h2.symm.trans hid) (by decide)
    rw [← hid]
    exact ht.leads_transact hstart hch cmd tm (fun h2 => absurd h2 hne) (fun _ => rfl)
  unfold dvfs
  split
  · refine leads_bind (leads_number course_stable h) (fun khz t ht => ?_)
    exact leads_bind (htrans ht.2) (fun _ t ht => leads_print course_stable ht)
  · exact leads_bind (htrans h) (fun _ t ht => leads_print course_stable ht)

/-- `dvfs` ends with the body of `tsp`. -/
theorem Course.leads_cmdDvfs (hstart : Start T w₀) (h : Course T w₀ [] 0 b w)
    {argv : List String} {tm : Nat → Timing} :
    Leads T (cmdDvfs T.toTable argv tm) (fun _ => Course T w₀
      ((5, nextSeq w₀.seq) :: (List.range 6).map (fun i => (2, nextSeq^[i + 2] w₀.seq))) 7
      (setRails T w₀ 1 false b)) w := by
  refine leads_bind (leads_findChannel course_stable h) ?_
  rintro ch t ⟨⟨hch, hid⟩, ht⟩
  have hid5 : ch.id = 5 := BitVec.eq_of_toNat_eq (by exact_mod_cast hid)
  refine leads_bind (leads_arg course_stable ht) (fun name t ht => ?_)
  refine leads_bind (leads_domain course_stable ht.2) ?_
  rintro dom t ⟨hname, ht⟩
  have hoff : decide (name = "on") = false := by simpa using hname
  simp only [hoff]
  refine leads_bind (ht.leads_dvfs hstart hch hid5) (fun _ t ht => ?_)
  refine leads_bind (ht.leads_setRail hstart) (fun _ t ht => ?_)
  exact ht.leads_setRail hstart

/-- What the commands do. -/
def carriedOut (T : Firmware) (w : World) (argv : List String) (p : Pmic) : Pmic :=
  match argv with
  | "dvfs" :: _ => setRails T w 1 false p
  | "tsp" :: _ => p
  | _ => documented T w argv p

theorem documented_write {args : List String} {a1 a2 a3 : String} {typ reg val : Int}
    (h1 : args[0]? = some a1) (h2 : args[1]? = some a2) (h3 : args[2]? = some a3)
    (htyp : int0 a1 = some typ) (hreg : int0 a2 = some reg) (hval : int0 a3 = some val)
    (p : Pmic) : documented T w ("write" :: args) p =
      obeyed T w 1 (toolCmd (BitVec.ofInt 4 typ) FUNC_WRITE (BitVec.ofInt 8 reg)
          (BitVec.ofInt 8 val) 0)
        (setReg (BitVec.ofInt 4 typ) (BitVec.ofInt 8 reg) (BitVec.ofInt 8 val)) p := by
  match args, h1, h2, h3 with
  | a :: b :: c :: _, h1, h2, h3 =>
    obtain rfl := Option.some.inj h1
    obtain rfl := Option.some.inj h2
    obtain rfl := Option.some.inj h3
    simp only [documented, htyp, hreg, hval]

theorem documented_update {args : List String} {a1 a2 a3 a4 : String} {typ reg val mask : Int}
    (h1 : args[0]? = some a1) (h2 : args[1]? = some a2) (h3 : args[2]? = some a3)
    (h4 : args[3]? = some a4) (htyp : int0 a1 = some typ) (hreg : int0 a2 = some reg)
    (hval : int0 a3 = some val) (hmask : int0 a4 = some mask) (p : Pmic) :
    documented T w ("update" :: args) p =
      obeyed T w 1 (toolCmd (BitVec.ofInt 4 typ) FUNC_UPDATE (BitVec.ofInt 8 reg)
          (BitVec.ofInt 8 val) (BitVec.ofInt 8 mask))
        (updateReg (BitVec.ofInt 4 typ) (BitVec.ofInt 8 reg) (BitVec.ofInt 8 val)
          (BitVec.ofInt 8 mask)) p := by
  match args, h1, h2, h3, h4 with
  | a :: b :: c :: d :: _, h1, h2, h3, h4 =>
    obtain rfl := Option.some.inj h1
    obtain rfl := Option.some.inj h2
    obtain rfl := Option.some.inj h3
    obtain rfl := Option.some.inj h4
    simp only [documented, htyp, hreg, hval, hmask]

section Commands

variable {args : List String} {tm : Nat → Timing}

theorem Course.leads_read (hstart : Start T w₀) (h : Course T w₀ [] 0 b w₀) :
    Leads T (main T.toTable ("read" :: args) tm)
      (fun _ => Course T w₀ [(2, nextSeq w₀.seq)] 1 (documented T w₀ ("read" :: args) b)) w₀ := by
  simp only [main, List.head?_cons]
  rw [if_neg (by decide), if_pos trivial]
  refine leads_bind (leads_intArg course_stable h) (fun typ t ht => ?_)
  refine leads_bind (leads_intArg course_stable ht.2) (fun reg t ht => ?_)
  refine leads_bind (ht.2.leads_mfdRead hstart) (fun x t ht => ?_)
  exact leads_print course_stable ht

theorem Course.leads_write (hstart : Start T w₀) (h : Course T w₀ [] 0 b w₀) :
    Leads T (main T.toTable ("write" :: args) tm)
      (fun _ => Course T w₀ [(2, nextSeq w₀.seq)] 1 (documented T w₀ ("write" :: args) b)) w₀ := by
  simp only [main, List.head?_cons]
  rw [if_neg (by decide), if_neg (by decide), if_pos trivial]
  refine leads_bind (leads_intArg course_stable h) (fun typ t ht => ?_)
  obtain ⟨⟨a1, h1, htyp⟩, ht⟩ := ht
  refine leads_bind (leads_intArg course_stable ht) (fun reg t ht => ?_)
  obtain ⟨⟨a2, h2, hreg⟩, ht⟩ := ht
  refine leads_bind (leads_intArg course_stable ht) (fun val t ht => ?_)
  obtain ⟨⟨a3, h3, hval⟩, ht⟩ := ht
  have hdoc := documented_write (T := T) (w := w₀) h1 h2 h3 htyp hreg hval b
  refine leads_bind (ht.leads_mfd hstart (fun _ => execute_toolWrite b) hdoc.symm)
    (fun x t ht => ?_)
  exact leads_print course_stable ht

theorem Course.leads_update (hstart : Start T w₀) (h : Course T w₀ [] 0 b w₀) :
    Leads T (main T.toTable ("update" :: args) tm)
      (fun _ => Course T w₀ [(2, nextSeq w₀.seq)] 1 (documented T w₀ ("update" :: args) b)) w₀ := by
  simp only [main, List.head?_cons]
  rw [if_neg (by decide), if_neg (by decide), if_neg (by decide), if_pos trivial]
  refine leads_bind (leads_intArg course_stable h) (fun typ t ht => ?_)
  obtain ⟨⟨a1, h1, htyp⟩, ht⟩ := ht
  refine leads_bind (leads_intArg course_stable ht) (fun reg t ht => ?_)
  obtain ⟨⟨a2, h2, hreg⟩, ht⟩ := ht
  refine leads_bind (leads_intArg course_stable ht) (fun val t ht => ?_)
  obtain ⟨⟨a3, h3, hval⟩, ht⟩ := ht
  refine leads_bind (leads_intArg course_stable ht) (fun mask t ht => ?_)
  obtain ⟨⟨a4, h4, hmask⟩, ht⟩ := ht
  have hdoc := documented_update (T := T) (w := w₀) h1 h2 h3 h4 htyp hreg hval hmask b
  refine leads_bind (ht.leads_mfd hstart (fun _ => execute_toolUpdate b) hdoc.symm)
    (fun x t ht => ?_)
  exact leads_print course_stable ht

/-- The usage is printed where no command is known, and for `tsp`; nothing has been done. -/
theorem carriedOut_usage {op : String} (hread : op ≠ "read") (hwrite : op ≠ "write")
    (hupdate : op ≠ "update") (hdvfs : op ≠ "dvfs") (args : List String) (seq : Word) (p : Pmic) :
    numbersOf (op :: args) seq = [] ∧ carriedOut T w (op :: args) p = p := by
  constructor
  · unfold numbersOf
    split <;> simp_all
  · unfold carriedOut documented
    split <;> simp_all

end Commands

theorem leads_main (hstart : Start T w₀) (h : Course T w₀ [] 0 b w₀) {argv : List String}
    (tm : Nat → Timing) (hipc : argv.head? ≠ some "ipc") :
    fwp (tool T) (fun _ _ _ => true) (fun _ _ => True) (main T.toTable argv tm)
      (fun _ t => ∃ k, Course T w₀ (numbersOf argv w₀.seq) k (carriedOut T w₀ argv b) t)
      (fun e t => e = .usage →
        ∃ k, Course T w₀ (numbersOf argv w₀.seq) k (carriedOut T w₀ argv b) t) w₀ := by
  have hlead : ∀ {p : M Unit} k, Leads T p
        (fun _ => Course T w₀ (numbersOf argv w₀.seq) k (carriedOut T w₀ argv b)) w₀ →
      fwp (tool T) (fun _ _ _ => true) (fun _ _ => True) p
        (fun _ t => ∃ k, Course T w₀ (numbersOf argv w₀.seq) k (carriedOut T w₀ argv b) t)
        (fun e t => e = .usage →
          ∃ k, Course T w₀ (numbersOf argv w₀.seq) k (carriedOut T w₀ argv b) t) w₀ := fun k hp =>
    fwp_mono (fun _ t ht => ⟨k, ht⟩) (fun e t hne heq => absurd heq hne) hp
  cases argv with
  | nil => exact hlead 0 (leads_cmdInfo course_stable h)
  | cons op args =>
    by_cases hread : op = "read"
    · subst hread
      exact hlead 1 (h.leads_read hstart)
    by_cases hwrite : op = "write"
    · subst hwrite
      exact hlead 1 (h.leads_write hstart)
    by_cases hupdate : op = "update"
    · subst hupdate
      exact hlead 1 (h.leads_update hstart)
    simp only [main, List.head?_cons, if_neg hread, if_neg hwrite, if_neg hupdate]
    split
    · rename_i hop
      subst hop
      exact hlead 0 (leads_cmdInfo course_stable h)
    split
    · rename_i hop
      exact absurd (congrArg some hop) hipc
    split
    · rename_i hop
      subst hop
      exact hlead 7 (h.leads_cmdDvfs hstart)
    rename_i hdvfs
    obtain ⟨hnums, hsame⟩ := carriedOut_usage hread hwrite hupdate hdvfs args w₀.seq b
    refine fwp_throw course_stable h (fun _ _ => trivial) (fun t ht _ => ⟨0, ?_⟩)
    rw [hnums, hsame]
    exact ht

/-! ## 4. Where the commands do what is documented

The registers are compared as they are once everything under way has been carried out, so that a
late command of somebody else does not count against the tool. -/

theorem switchRail_of_ne {i : Nat} {on : Bool} {reg reg' : BitVec 8} {p : Pmic} (h : reg' ≠ reg) :
    switchRail T w i on reg p 1 reg' = p 1 reg' := by
  rw [switchRail, obeyed]
  split
  · exact if_neg (fun heq => h heq.2)
  · rfl

/-- One LDO is left alone. -/
theorem switchRail_eq_self {i : Nat} {on : Bool} {reg : BitVec 8} {p : Pmic} :
    switchRail T w i on reg p = p ↔ RailIs T w i on reg p := by
  have hbits : ∀ v : BitVec 8,
      (v &&& ~~~0xc0) ||| (modeBits on &&& 0xc0) = v ↔ v &&& 0xc0 = modeBits on := by
    cases on <;> decide
  rw [switchRail, obeyed, RailIs]
  split
  · rename_i hcode
    rw [forall_prop_of_true hcode, ← hbits]
    constructor
    · intro h
      have hreg := congrFun (congrFun h 1) reg
      simpa only [updateReg, setReg, and_self, if_true] using hreg
    · intro h
      funext t r
      simp only [updateReg, setReg, h]
      split
      · rename_i heq
        rw [heq.1, heq.2]
      · rfl
  · rename_i hcode
    exact iff_of_true rfl (fun h => absurd h hcode)

theorem setRails_eq_self {on : Bool} {p : Pmic} :
    setRails T w k on p = p ↔ RailsAre T w k on p := by
  rw [setRails, RailsAre, ← switchRail_eq_self, ← switchRail_eq_self]
  constructor
  · intro h
    -- each register is touched by one of the two updates only
    have h6c : switchRail T w (k + 2) on 0x6c p = p := by
      funext t r
      by_cases hr : t = 1 ∧ r = 0x6c
      · obtain ⟨rfl, rfl⟩ := hr
        have hsame : switchRail T w (k + 5) on 0x74 (switchRail T w (k + 2) on 0x6c p) 1 0x6c =
          switchRail T w (k + 2) on 0x6c p 1 0x6c := switchRail_of_ne (by decide)
        rw [← hsame, h]
      · rw [switchRail, obeyed]
        split
        · exact if_neg hr
        · rfl
    exact ⟨h6c, by rwa [h6c] at h⟩
  · rintro ⟨h6c, h74⟩
    rw [h6c, h74]

/-- **The missing line** shows where the mode bits are not what they should be. -/
theorem carriedOut_eq {argv : List String} {p : Pmic} :
    carriedOut T w argv p = documented T w argv p ↔ Harmless T w argv p := by
  have hrails : ∀ on, p = setRails T w 0 on p ↔ RailsAre T w 0 on p := fun on =>
    eq_comm.trans setRails_eq_self
  unfold carriedOut Harmless
  split
  · exact setRails_eq_self
  · unfold documented
    split <;> simp_all
  · split <;> simp_all

theorem due_of_settled {code : Msg → BitVec 8} {q : Nat} (h : Settled q s) :
    due code q s = s.pmic := by
  rw [due, h.1, h.2]
  rfl

/-- When every reply is still there and nothing new is, nothing is left to carry out. -/
theorem Settled.of_perm {q : Nat} (h : Settled q s) (hsub : (rxMsgs q s).Subperm (rxMsgs q t))
    (hperm : (heads q t).Perm (heads q s)) : Settled q t := by
  have hlen := hperm.length_eq
  have hle := hsub.length_le
  simp only [heads, outstanding, List.length_map, List.length_append, h.1, h.2, Option.toList_none,
    List.map_nil, List.length_nil, Nat.add_zero] at hlen
  refine ⟨?_, List.eq_nil_of_length_eq_zero (by omega)⟩
  cases hjob : t.job with
  | none => rfl
  | some j =>
    rw [hjob, Option.toList_some, List.length_singleton] at hlen
    omega

theorem Start.course (h : Start T w)
    (hdue : ∀ ch ∈ T.channels, ch.id = 2 →
      due T.code ch.q (w.chan ch.id) = b) : Course T w [] 0 b w where
  seq := rfl
  held d hd hq := {
    idx := h.idx d hd hq
    no := rfl
    left := by
      refine ⟨_, ⟨fun _ => ⟨.refl _, rfl⟩, fun hfree => ?_⟩, .refl _⟩
      exact absurd (fun c _ => List.not_mem_nil) hfree
    due := hdue d hd }

/-- Where a run has come to its end, it has followed the documented commands if the numbers were
free and what it has done is what is documented. -/
theorem Course.follows {argv : List String} (h : Course T w used k b' u)
    (hstart : Start T w) (hdue : ∀ ch ∈ T.channels, ch.id = 2 →
      due T.code ch.q (w.chan ch.id) = b) :
    Follows T argv w u ↔
      Clear T used w ∧ ∀ ch ∈ T.channels, ch.id = 2 → b' = documented T w argv b := by
  constructor
  · intro hf
    constructor
    · intro ch hch hq
      obtain ⟨R, hleft, -⟩ := (h.held ch hch hq).left
      exact not_not.mp (fun hfree => hleft.lost hfree (hf.once ch hch hq).symm.subperm)
    · intro ch hch hid
      have hnow := (h.held ch hch (hstart.ring ch hch hid)).due hid
      rw [← hnow, hf.due ch hch hid, hdue ch hch hid]
  · rintro ⟨hclear, hdoc⟩
    have hkept : ∀ ch ∈ T.channels, 2 ≤ ch.q →
        (heads ch.q (u.chan ch.id)).Perm (heads ch.q (w.chan ch.id)) ∧
          (rxMsgs ch.q (w.chan ch.id)).Subperm (rxMsgs ch.q (u.chan ch.id)) := by
      intro ch hch hq
      obtain ⟨R, hleft, hsub⟩ := (h.held ch hch hq).left
      obtain ⟨hperm, rfl⟩ := hleft.kept (hclear ch hch hq)
      exact ⟨hperm, hsub⟩
    have hdue' : ∀ ch ∈ T.channels, ch.id = 2 →
        due T.code ch.q (u.chan ch.id) = documented T w argv (due T.code ch.q (w.chan ch.id)) := by
      intro ch hch hid
      rw [(h.held ch hch (hstart.ring ch hch hid)).due hid, hdoc ch hch hid, hdue ch hch hid]
    refine ⟨hdue', fun ch hch hid hsettled => ?_, fun ch hch hq => (hkept ch hch hq).2,
      fun ch hch hq => (hkept ch hch hq).1⟩
    obtain ⟨hperm, hsub⟩ := hkept ch hch (hstart.ring ch hch hid)
    rw [← due_of_settled (hsettled.of_perm hsub hperm), hdue' ch hch hid, due_of_settled hsettled]

/-- **A completed run follows the documented commands exactly when `HoldsWhen`.** -/
theorem main_follows {argv : List String} {tm : Nat → Timing} {w t : World} {tr : List (Sigma Ans)}
    {r : Except Stop Unit} (hstart : Start T w) (hipc : argv.head? ≠ some "ipc")
    (hrun : (tool T).Runs (fun _ _ _ => true) (main T.toTable argv tm).run w tr r t)
    (hdone : Completed r) : Follows T argv w t ↔ HoldsWhen T argv w := by
  obtain ⟨b, hdue⟩ : ∃ b, ∀ ch ∈ T.channels, ch.id = 2 → due T.code ch.q (w.chan ch.id) = b := by
    by_cases hmfd : ∃ ch ∈ T.channels, ch.id = 2
    · obtain ⟨ch, hch, hid⟩ := hmfd
      refine ⟨due T.code ch.q (w.chan ch.id), fun d hd hd2 => ?_⟩
      rw [Table.eq_of_id hd hch (hd2.trans hid.symm)]
    · exact ⟨fun _ _ => 0, fun ch hch hid => absurd ⟨ch, hch, hid⟩ hmfd⟩
  have hpost := hrun.post (leads_main hstart (hstart.course hdue) tm hipc)
  obtain ⟨k, hcourse⟩ : ∃ k, Course T w (numbersOf argv w.seq) k (carriedOut T w argv b) t := by
    rcases hdone with rfl | rfl
    · exact hpost
    · exact hpost rfl
  rw [hcourse.follows hstart hdue, HoldsWhen]
  refine and_congr_right (fun _ => forall_congr' fun ch => forall_congr' fun hch =>
    forall_congr' fun hid => ?_)
  rw [carriedOut_eq, hdue ch hch hid]

/-! Two runs, on a channel 2 with four slots and a channel 5 with one; the tool's number is 1, and
the LDOs are on. -/

/-- A firmware with the two channels that the tool uses, of which only the one for the PMIC is a
ring. -/
def smallFirmware : Firmware where
  fw := ⟨0, 0, 2, 2, 0⟩
  channels := [⟨2, 1, 0, 0, 0, 0, 0, 0, 4, 16, 0⟩, ⟨5, 2, 0, 0, 0, 0, 0, 0, 1, 16, 0⟩]
  all := rfl
  distinct := by decide
  code _ := 0

/-- Both LDOs are on, nothing is under way, and the number in memory is 1. -/
def railsOn : World := ⟨fun _ => { bootShm with pmic := fun _ _ => 0xc0 }, 1⟩

theorem railsOn_outstanding (q : Nat) (id : Word) : outstanding q (railsOn.chan id) = [] := by
  simp [outstanding, rxMsgs, txMsgs, railsOn, bootShm]

theorem railsOn_start : Start smallFirmware railsOn where
  idx ch hch hq := by
    have hpos : 0 < ch.q := by omega
    exact ⟨hq, ch.qLen.isLt, hpos, hpos, hpos, hpos⟩
  older ch _ _ c hc := by
    rw [heads, railsOn_outstanding] at hc
    exact absurd hc List.not_mem_nil
  ring ch hch := by
    revert ch
    decide

def accesses (n : Nat) : List ((Word × ApmStep) ⊕ Word) := List.replicate n (.inr 0)

/-- The firmware answers on channel 2. -/
def answered : List ((Word × ApmStep) ⊕ Word) :=
  [.inl (2, .fetch), .inl (2, .exec 0 0 0), .inl (2, .reply)]

/-- A run of `main` that returns and leaves `val` in register `reg` of the PMIC. -/
theorem runs_of_leaves (argv : List String) (es : List ((Word × ApmStep) ⊕ Word))
    (reg val : BitVec 8)
    (h : ((tool smallFirmware).play es
      (main smallFirmware.toTable argv (fun _ => ⟨0, 0⟩)).run railsOn).any
      (fun x => match x.1 with
        | .ok () => (x.2.chan 2).pmic 1 reg = val
        | .error _ => false) = true) :
    ∃ tr t, (tool smallFirmware).Runs (fun _ _ _ => true)
      (main smallFirmware.toTable argv (fun _ => ⟨0, 0⟩)).run railsOn tr (.ok ()) t ∧
        (t.chan 2).pmic 1 reg = val := by
  obtain ⟨⟨r, t⟩, hplay, hval⟩ := (Option.any_eq_true _ _).mp h
  cases r with
  | error e => exact absurd hval (by simp)
  | ok a =>
    obtain ⟨tr, hruns⟩ := runs_of_play (fun _ _ _ => rfl) hplay
    exact ⟨tr, t, hruns, of_decide_eq_true hval⟩

theorem main_follows_write : ∃ tr t, (tool smallFirmware).Runs (fun _ _ _ => true)
    (main smallFirmware.toTable ["write", "1", "0x50", "0x80"] (fun _ => ⟨0, 0⟩)).run
      railsOn tr (.ok ()) t ∧
      Follows smallFirmware ["write", "1", "0x50", "0x80"] railsOn t := by
  obtain ⟨tr, t, hrun, -⟩ := runs_of_leaves ["write", "1", "0x50", "0x80"]
    (accesses 11 ++ answered ++ accesses 13) 0x50 0x80 (by decide +kernel)
  refine ⟨tr, t, hrun, (main_follows railsOn_start (by simp) hrun (.inl rfl)).mpr ⟨?_, ?_⟩⟩
  · intro ch _ _ c hc
    rw [heads, railsOn_outstanding] at hc
    exact absurd hc List.not_mem_nil
  · exact fun _ _ _ => trivial

/-- **`dvfs gpu` switches LDO35 off**, with a firmware that refuses nothing. -/
theorem dvfs_clears_rails : ∃ (T : Firmware) (w t : World) (tr : List (Sigma Ans)),
    Start T w ∧ (∀ m, T.code m = 0) ∧ (∀ ch ∈ T.channels, outstanding ch.q (w.chan ch.id) = []) ∧
      (tool T).Runs (fun _ _ _ => true) (main T.toTable ["dvfs", "gpu"] (fun _ => ⟨0, 0⟩)).run w tr
        (.ok ()) t ∧
      (w.chan 2).pmic 1 0x6c = 0xc0 ∧ (t.chan 2).pmic 1 0x6c = 0x00 ∧
      ¬ Follows T ["dvfs", "gpu"] w t := by
  obtain ⟨tr, t, hrun, hval⟩ := runs_of_leaves ["dvfs", "gpu"]
    (accesses 7 ++ [.inl (5, .post ⟨⟨0, ⟨.tool, 1⟩⟩, ⟨0, ⟨.tool, 1⟩⟩, ⟨0, ⟨.tool, 1⟩⟩,
      ⟨0, ⟨.tool, 1⟩⟩⟩)] ++ accesses 18 ++ answered ++ accesses 23 ++ answered ++ accesses 23 ++
      answered ++ accesses 24 ++ answered ++ accesses 23 ++ answered ++ accesses 23 ++ answered ++
      accesses 13) 0x6c 0x00 (by decide +kernel)
  refine ⟨smallFirmware, railsOn, t, tr, railsOn_start, fun _ => rfl,
    fun ch _ => railsOn_outstanding _ _, hrun, rfl, hval, fun hf => ?_⟩
  have hpmic := hf.pmic ⟨2, 1, 0, 0, 0, 0, 0, 0, 4, 16, 0⟩ List.mem_cons_self rfl
    ⟨rfl, by simp [txMsgs, railsOn, bootShm]⟩
  have hreg := congrFun (congrFun hpmic 1) 0x6c
  exact absurd (hreg.symm.trans hval) (by decide)

end S9p.Acpm.Tool
