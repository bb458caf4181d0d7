import FmacSdk.SpiNor.Commands

/-! # The wire mode of the flash

A flash in QPI mode takes its commands on four wires, in single-wire mode on one,
and ignores what comes the other way. A sequence of commands is well moded when
each is sent in the mode that those before it leave; a session is, unless it is
one of a QPI part that needs 4-byte addresses or uses the security registers.
-/
namespace FmacSdk.SpiNor

def modeWire (qpi : Bool) : WireMode := if qpi then .quad else .normal

/-- A flash that heeds what is sent in its mode. -/
def modeSpec (latency : ℕ → ℕ) (status : BitVec 7) : NorSpec :=
  ⟨fun wire c _ => wire = modeWire c.qpi,latency,status⟩

def Sent.InMode (e : Sent) : Prop := e.wire = modeWire e.qpi

instance (e : Sent) : Decidable e.InMode := inferInstanceAs (Decidable (_ = _))

def AllInMode (b : SpiBus) : Prop := ∀ e ∈ b.sent, e.InMode

def qpiAfter (qpi : Bool) (opc : UInt8) : Bool :=
  if opc = enableQpi then true else if opc = disableQpi then false else qpi

def Cmd.wire : Cmd → WireMode
  | .send wire _ => wire
  | .poll wire => wire

def Cmd.qpiAfter (qpi : Bool) : Cmd → Bool
  | .send _ opc => SpiNor.qpiAfter qpi opc
  | .poll _ => qpi

def modeAfter (qpi : Bool) (cmds : List Cmd) : Bool := cmds.foldl Cmd.qpiAfter qpi

def wellModed (qpi : Bool) : List Cmd → Bool
  | [] => true
  | cmd :: cmds => cmd.wire = modeWire qpi && wellModed (cmd.qpiAfter qpi) cmds

theorem wellModed_append (qpi : Bool) (cs ds : List Cmd) :
    wellModed qpi (cs ++ ds) = (wellModed qpi cs && wellModed (modeAfter qpi cs) ds) := by
  induction cs generalizing qpi with
  | nil => rfl
  | cons c cs ih =>
    rw [List.cons_append,wellModed,wellModed,ih,Bool.and_assoc]
    rfl

section Execution
variable {latency : ℕ → ℕ} {status : BitVec 7} {b : SpiBus}

theorem send_allInMode {spec : NorSpec} (wire : WireMode) (opc : UInt8) :
    AllInMode (b.send spec wire opc) ↔ AllInMode b ∧ wire = modeWire b.nor.qpi := by
  unfold AllInMode SpiBus.send
  simp only [List.forall_mem_append,List.forall_mem_singleton]
  rfl

theorem send_qpi (wire : WireMode) (opc : UInt8) : (b.send (modeSpec latency status) wire opc).nor.qpi =
    if wire = modeWire b.nor.qpi then qpiAfter b.nor.qpi opc else b.nor.qpi := by
  show (b.nor.exec (modeSpec latency status) wire opc).qpi = _
  unfold Nor.exec qpiAfter modeSpec
  by_cases hwire : wire = modeWire b.nor.qpi
  · simp only [hwire,decide_true,if_true]
    repeat' split
    all_goals rfl
  · simp only [hwire,decide_false,if_false,Bool.false_eq_true]

theorem send_poll_qpi (wire : WireMode) :
    (b.send (modeSpec latency status) wire readStatusReg).nor.qpi = b.nor.qpi := by
  rw [send_qpi]
  split <;> rfl

theorem pollLoop_qpi (wire : WireMode) (n : ℕ) :
    (b.pollLoop (modeSpec latency status) wire n).nor.qpi = b.nor.qpi := by
  induction n generalizing b with
  | zero => rfl
  | succ n ih =>
    rw [SpiBus.pollLoop]
    split
    · rw [ih,send_poll_qpi]
    · exact send_poll_qpi wire

theorem pollLoop_allInMode (wire : WireMode) (n : ℕ) :
    AllInMode (b.pollLoop (modeSpec latency status) wire (n + 1)) ↔
      AllInMode b ∧ wire = modeWire b.nor.qpi := by
  induction n generalizing b with
  | zero =>
    rw [SpiBus.pollLoop]
    split <;> exact send_allInMode wire _
  | succ n ih =>
    rw [SpiBus.pollLoop]
    split
    · rw [ih,send_poll_qpi,send_allInMode,and_assoc,and_self]
    · exact send_allInMode wire _

theorem exec_allInMode (cmd : Cmd) :
    AllInMode (b.exec (modeSpec latency status) cmd) ↔ AllInMode b ∧ cmd.wire = modeWire b.nor.qpi := by
  cases cmd with
  | send wire opc => exact send_allInMode wire opc
  | poll wire => exact pollLoop_allInMode wire _

theorem exec_qpi {cmd : Cmd} (h : cmd.wire = modeWire b.nor.qpi) :
    (b.exec (modeSpec latency status) cmd).nor.qpi = cmd.qpiAfter b.nor.qpi := by
  cases cmd with
  | send wire opc => exact (send_qpi wire opc).trans (if_pos h)
  | poll wire => exact pollLoop_qpi wire _

theorem allInMode_of_foldl (cmds : List Cmd)
    (h : AllInMode (cmds.foldl (SpiBus.exec (modeSpec latency status)) b)) : AllInMode b := by
  induction cmds generalizing b with
  | nil => exact h
  | cons cmd cmds ih => exact ((exec_allInMode cmd).mp (ih h)).1

/-- A sequence is sent in the mode of the flash exactly if it is well moded. -/
theorem foldl_allInMode_iff (cmds : List Cmd) :
    AllInMode (cmds.foldl (SpiBus.exec (modeSpec latency status)) b) ↔
      AllInMode b ∧ wellModed b.nor.qpi cmds = true := by
  induction cmds generalizing b with
  | nil => exact (and_iff_left rfl).symm
  | cons cmd cmds ih =>
    rw [List.foldl_cons,wellModed,Bool.and_eq_true,decide_eq_true_iff]
    by_cases hwire : cmd.wire = modeWire b.nor.qpi
    · rw [ih,exec_allInMode,exec_qpi hwire]
      tauto
    · refine iff_of_false (fun h => ?_) fun h => hwire h.2.1
      exact hwire ((exec_allInMode cmd).mp (allInMode_of_foldl cmds h)).2

theorem foldl_qpi {cmds : List Cmd} (h : wellModed b.nor.qpi cmds = true) :
    (cmds.foldl (SpiBus.exec (modeSpec latency status)) b).nor.qpi = modeAfter b.nor.qpi cmds := by
  induction cmds generalizing b with
  | nil => rfl
  | cons cmd cmds ih =>
    rw [wellModed,Bool.and_eq_true,decide_eq_true_iff] at h
    have hqpi := @exec_qpi latency status b cmd h.1
    rw [List.foldl_cons,ih (by rw [hqpi]; exact h.2),hqpi]
    rfl

end Execution

/-! ## The calls -/

/-- A command that the flash takes in its mode and that leaves it there. -/
def Cmd.inMode (qpi : Bool) (cmd : Cmd) : Prop := cmd.wire = modeWire qpi ∧ cmd.qpiAfter qpi = qpi

instance (qpi : Bool) (cmd : Cmd) : Decidable (cmd.inMode qpi) := inferInstanceAs (Decidable (_ ∧ _))

theorem wellModed_of_inMode {qpi : Bool} {cmds : List Cmd} (h : ∀ cmd ∈ cmds, cmd.inMode qpi) :
    wellModed qpi cmds = true ∧ modeAfter qpi cmds = qpi := by
  induction cmds with
  | nil => exact ⟨rfl,rfl⟩
  | cons cmd cmds ih =>
    obtain ⟨hwire,hqpi⟩ := h cmd List.mem_cons_self
    have hrest := ih fun c hc => h c (List.mem_cons_of_mem _ hc)
    rw [wellModed,modeAfter,List.foldl_cons,hqpi]
    exact ⟨by rw [hrest.1,decide_eq_true hwire,Bool.and_true],hrest.2⟩

/-- The three calls whose primitives are standard instructions in every table. -/
def NorOp.ofSecurityReg : NorOp → Bool
  | .eraseSecurityReg _ | .programSecurityReg _ _ | .readSecurityReg _ _ => true
  | _ => false

section Calls
variable {f : SpiNorFlash} {mode : SpiNorMode}

theorem addrBits_eq_iff : f.addrBits = 32 ↔ ¬ f.size ≤ 0x1000000 := by
  unfold SpiNorFlash.addrBits
  split <;> omega

theorem operationCmds_inMode {qpi : Bool} {opc : UInt8} (h : SpiNor.qpiAfter qpi opc = qpi) :
    ∀ cmd ∈ operationCmds (modeWire qpi) opc, cmd.inMode qpi := by
  have hlatch : SpiNor.qpiAfter qpi writeEnable = qpi ∧ SpiNor.qpiAfter qpi writeDisable = qpi :=
    ⟨rfl,rfl⟩
  simp only [operationCmds,List.forall_mem_cons]
  exact ⟨⟨rfl,hlatch.1⟩,⟨rfl,h⟩,⟨rfl,rfl⟩,⟨rfl,hlatch.2⟩,List.forall_mem_nil _⟩

theorem op_inMode {op : NorOp} (h : mode = .qpi → op.ofSecurityReg = false) :
    ∀ cmd ∈ op.cmds f mode, cmd.inMode (mode = .qpi) := by
  have hwire : mode.wire = modeWire (mode = .qpi) := by cases mode <;> rfl
  have hoperation {opc : UInt8} (hopc : ∀ qpi, SpiNor.qpiAfter qpi opc = qpi) :
      ∀ cmd ∈ operationCmds mode.wire opc, cmd.inMode (mode = .qpi) :=
    hwire ▸ operationCmds_inMode (hopc _)
  cases op with
  | read addr n =>
    intro cmd hcmd
    obtain rfl := List.mem_singleton.mp hcmd
    exact ⟨hwire,by cases mode <;> rfl⟩
  | write addr buf =>
    intro cmd hcmd
    obtain ⟨_,_,hcmd⟩ := List.mem_flatMap.mp hcmd
    exact hoperation (by cases mode <;> exact fun _ => rfl) cmd hcmd
  | sectorErase addr | blockErase addr | chipErase => exact hoperation fun _ => rfl
  | eraseSecurityReg addr =>
    rw [decide_eq_false fun hq => Bool.noConfusion (h hq)]
    exact @operationCmds_inMode false SpiNor.eraseSecurityReg rfl
  | programSecurityReg addr buf =>
    rw [decide_eq_false fun hq => Bool.noConfusion (h hq)]
    exact @operationCmds_inMode false SpiNor.programSecurityReg rfl
  | readSecurityReg addr n =>
    rw [decide_eq_false fun hq => Bool.noConfusion (h hq)]
    intro cmd hcmd
    obtain rfl := List.mem_singleton.mp hcmd
    exact ⟨rfl,rfl⟩

/-- On a QPI part the security-register calls come on one wire. -/
theorem securityReg_not_wellModed {op : NorOp} (h : op.ofSecurityReg = true) :
    wellModed true (op.cmds f .qpi) = false := by
  cases op with
  | eraseSecurityReg | programSecurityReg | readSecurityReg => rfl
  | _ => cases h

theorem ops_wellModed_iff (ops : List NorOp) : wellModed true (ops.flatMap (NorOp.cmds f .qpi)) = true ↔
    ∀ op ∈ ops, op.ofSecurityReg = false := by
  induction ops with
  | nil => exact iff_of_true rfl (List.forall_mem_nil _)
  | cons op ops ih =>
    rw [List.flatMap_cons,wellModed_append,Bool.and_eq_true,List.forall_mem_cons]
    cases hop : op.ofSecurityReg with
    | true =>
      rw [securityReg_not_wellModed hop]
      simp
    | false =>
      obtain ⟨hwell,hmode⟩ := wellModed_of_inMode (@op_inMode f .qpi op fun _ => hop)
      simp only [decide_true] at hwell hmode
      rw [hwell,hmode,ih]
      simp

theorem openCmds_qpi : wellModed false (openCmds f .qpi) = decide (f.size ≤ 0x1000000) := by
  by_cases h : f.addrBits = 32
  · rw [decide_eq_false (addrBits_eq_iff.mp h),openCmds,if_pos h]
    rfl
  · rw [decide_eq_true (not_not.mp (mt addrBits_eq_iff.mpr h)),openCmds,if_neg h]
    rfl

theorem openCmds_inMode (h : mode ≠ .qpi) : ∀ cmd ∈ openCmds f mode, cmd.inMode false := by
  have h4b : ∀ cmd ∈ (if f.addrBits = 32 then [Cmd.send .normal enable4bAddr] else []),
      cmd.inMode false := by
    split <;> decide
  cases mode with
  | normal | dual => exact h4b
  | quad => exact List.forall_mem_append.mpr ⟨by decide,h4b⟩
  | qpi => exact absurd rfl h

/-- Open leaves the flash in the mode of the session, also where 0xB7 is lost. -/
theorem openCmds_modeAfter : modeAfter false (openCmds f mode) = decide (mode = .qpi) := by
  by_cases h : f.addrBits = 32 <;> simp only [openCmds,h,if_true,if_false] <;> cases mode <;> rfl

/-- A QPI session needs 3-byte addresses and keeps off the security registers. -/
def SpeaksWell (f : SpiNorFlash) (mode : SpiNorMode) (ops : List NorOp) : Prop :=
  mode ≠ .qpi ∨ f.size ≤ 0x1000000 ∧ ∀ op ∈ ops, op.ofSecurityReg = false

theorem sessionCmds_inMode (h : mode ≠ .qpi) (ops : List NorOp) :
    ∀ cmd ∈ sessionCmds f mode ops, cmd.inMode false := by
  have hops : ∀ cmd ∈ ops.flatMap (NorOp.cmds f mode), cmd.inMode false := by
    intro cmd hcmd
    obtain ⟨op,_,hcmd⟩ := List.mem_flatMap.mp hcmd
    have hop := @op_inMode f mode op (absurd · h) cmd hcmd
    rwa [decide_eq_false h] at hop
  have hclose : ∀ cmd ∈ closeCmds mode, cmd.inMode false := by
    rw [closeCmds,if_neg h]
    exact List.forall_mem_nil _
  exact List.forall_mem_append.mpr ⟨openCmds_inMode h,List.forall_mem_append.mpr ⟨hops,hclose⟩⟩

theorem ops_modeAfter {ops : List NorOp} (h : ∀ op ∈ ops, op.ofSecurityReg = false) :
    modeAfter true (ops.flatMap (NorOp.cmds f .qpi)) = true := by
  refine (wellModed_of_inMode fun cmd hcmd => ?_).2
  obtain ⟨op,hop,hcmd⟩ := List.mem_flatMap.mp hcmd
  exact @op_inMode f .qpi op (fun _ => h op hop) cmd hcmd

theorem sessionCmds_wellModed_iff (ops : List NorOp) :
    wellModed false (sessionCmds f mode ops) = true ↔ SpeaksWell f mode ops := by
  by_cases hmode : mode = .qpi
  · subst hmode
    have hsplit : wellModed false (sessionCmds f .qpi ops) = (decide (f.size ≤ 0x1000000) &&
        (wellModed true (ops.flatMap (NorOp.cmds f .qpi)) &&
          wellModed (modeAfter true (ops.flatMap (NorOp.cmds f .qpi))) (closeCmds .qpi))) := by
      rw [sessionCmds,wellModed_append,wellModed_append,openCmds_qpi,openCmds_modeAfter]
      rfl
    rw [hsplit,Bool.and_eq_true,Bool.and_eq_true,decide_eq_true_iff,ops_wellModed_iff]
    constructor
    · exact fun h => Or.inr ⟨h.1,h.2.1⟩
    · rintro (h | ⟨hsize,hops⟩)
      · exact absurd rfl h
      · rw [ops_modeAfter hops]
        exact ⟨hsize,hops,rfl⟩
  · exact iff_of_true (wellModed_of_inMode (sessionCmds_inMode hmode ops)).1 (Or.inl hmode)

end Calls

/-- The bus after a session with a flash that starts as `nor`, on a device that
was left on `wire`. -/
def sessionEnd (spec : NorSpec) (f : SpiNorFlash) (mode : SpiNorMode) (ops : List NorOp)
    (wire : WireMode) (nor : Nor) : SpiBus :=
  (session spec f mode ops ⟨wire,none,nor,[]⟩).2

theorem sessionEnd_eq {spec : NorSpec} {f : SpiNorFlash} {mode : SpiNorMode} {ops : List NorOp}
    {wire : WireMode} {nor : Nor} : sessionEnd spec f mode ops wire nor =
      (sessionCmds f mode ops).foldl (SpiBus.exec spec) ⟨.normal,none,nor,[]⟩ :=
  session_performs ops ⟨.normal,none,nor,[]⟩ ⟨rfl,rfl⟩

/-- Close leaves QPI mode, whatever was lost before it. -/
theorem sessionEnd_qpi {latency : ℕ → ℕ} {status : BitVec 7} {f : SpiNorFlash} {mode : SpiNorMode}
    {ops : List NorOp} {wire : WireMode} {nor : Nor} (hnor : nor.qpi = false) :
    (sessionEnd (modeSpec latency status) f mode ops wire nor).nor.qpi = false := by
  rw [sessionEnd_eq]
  by_cases hmode : mode = .qpi
  · subst hmode
    rw [sessionCmds,← List.append_assoc,List.foldl_append]
    have hquit (q : Bool) :
        (if WireMode.quad = modeWire q then SpiNor.qpiAfter q disableQpi else q) = false := by
      cases q <;> rfl
    exact (send_qpi WireMode.quad disableQpi).trans (hquit _)
  · obtain ⟨hwell,hafter⟩ := wellModed_of_inMode (@sessionCmds_inMode f mode hmode ops)
    have hqpi := @foldl_qpi latency status ⟨.normal,none,nor,[]⟩ _ (hnor.symm ▸ hwell)
    rw [hqpi,hnor,hafter]

/-- What a session that speaks the mode of the flash does. -/
structure SpeaksMode (latency : ℕ → ℕ) (status : BitVec 7) (f : SpiNorFlash) (mode : SpiNorMode)
    (ops : List NorOp) (wire : WireMode) (nor : Nor) : Prop where
  sent : AllInMode (sessionEnd (modeSpec latency status) f mode ops wire nor)
  closed : (sessionEnd (modeSpec latency status) f mode ops wire nor).nor.qpi = false

/-- A session speaks the mode of the flash exactly if it is not one of a QPI part
with 4-byte addresses or with security-register calls. -/
theorem speaksMode_iff (latency : ℕ → ℕ) (status : BitVec 7) (f : SpiNorFlash) (mode : SpiNorMode)
    (ops : List NorOp) (wire : WireMode) (nor : Nor) (hnor : nor.qpi = false) :
    SpeaksMode latency status f mode ops wire nor ↔ SpeaksWell f mode ops := by
  have hsent : AllInMode (sessionEnd (modeSpec latency status) f mode ops wire nor) ↔
      wellModed false (sessionCmds f mode ops) = true := by
    rw [sessionEnd_eq,foldl_allInMode_iff,hnor]
    exact and_iff_right (List.forall_mem_nil _)
  rw [← sessionCmds_wellModed_iff]
  constructor
  · exact fun h => hsent.mp h.sent
  · exact fun h => ⟨hsent.mpr h,sessionEnd_qpi hnor⟩

theorem speaksMode_iff_erase :
    SpeaksMode (fun _ => 3) 0 smallFlash .qpi [.sectorErase 0,.write 255 [1,2]] .single ⟨false,0,0⟩ :=
  (speaksMode_iff (fun _ => 3) 0 smallFlash .qpi [.sectorErase 0,.write 255 [1,2]] .single ⟨false,0,0⟩
    rfl).mpr (Or.inr ⟨by decide,by decide⟩)

def largeFlash : SpiNorFlash := { smallFlash with size := 0x2000000, size_lt := by decide }

/-- A 32 MiB part is told to take 4-byte addresses after it has entered QPI mode,
and a small one to erase a security register: both on one wire. -/
theorem single_wire_in_qpi :
    ⟨enable4bAddr,.normal,true,false⟩ ∈
        (sessionEnd (modeSpec (fun _ => 0) 0) largeFlash .qpi [] .normal ⟨false,0,0⟩).sent ∧
      ¬ SpeaksMode (fun _ => 0) 0 largeFlash .qpi [] .normal ⟨false,0,0⟩ ∧
      ⟨eraseSecurityReg,.normal,true,false⟩ ∈
        (sessionEnd (modeSpec (fun _ => 0) 0) smallFlash .qpi [.eraseSecurityReg 0] .normal
          ⟨false,0,0⟩).sent ∧
      ¬ SpeaksMode (fun _ => 0) 0 smallFlash .qpi [.eraseSecurityReg 0] .normal ⟨false,0,0⟩ := by
  have hlarge : ⟨enable4bAddr,.normal,true,false⟩ ∈
      (sessionEnd (modeSpec (fun _ => 0) 0) largeFlash .qpi [] .normal ⟨false,0,0⟩).sent := by decide
  have hsmall : ⟨eraseSecurityReg,.normal,true,false⟩ ∈
      (sessionEnd (modeSpec (fun _ => 0) 0) smallFlash .qpi [.eraseSecurityReg 0] .normal
        ⟨false,0,0⟩).sent := by decide
  exact ⟨hlarge,fun h => absurd (h.sent _ hlarge) (by decide),hsmall,
    fun h => absurd (h.sent _ hsmall) (by decide)⟩

end FmacSdk.SpiNor
