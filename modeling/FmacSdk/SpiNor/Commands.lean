import FmacSdk.SpiNor.Bus

/-! # The primitives as sequences of commands

On an idle bus whose wire mode is back to normal, every primitive and every call
of spi_nor.c is a sequence of commands, each on a fixed wire mode, and of loops
that read the status register; addresses and data do not change it.
-/
namespace FmacSdk.SpiNor

/-- A command, or a loop that reads the status register until it is ready. -/
inductive Cmd
  | send (wire : WireMode) (opc : UInt8)
  | poll (wire : WireMode)
deriving DecidableEq, Repr

variable (spec : NorSpec)

def SpiBus.pollLoop (wire : WireMode) : ℕ → SpiBus → SpiBus
  | 0, b => b
  | n + 1, b =>
    if b.nor.statusRegister spec wire &&& SPI_NOR_STATUS_BUSY ≠ 0 then
      (b.send spec wire readStatusReg).pollLoop wire n
    else b.send spec wire readStatusReg

def SpiBus.exec (b : SpiBus) : Cmd → SpiBus
  | .send wire opc => b.send spec wire opc
  | .poll wire => b.pollLoop spec wire (b.nor.busy + 1)

/-- Between two frames with the wire mode of the standard instructions. -/
structure SpiBus.AtRest (b : SpiBus) : Prop where
  frame : b.frame = none
  wire : b.wire = .normal

def Performs {α : Type} (c : Host α) (cmds : List Cmd) : Prop :=
  ∀ b : SpiBus, b.AtRest → (c b).2 = cmds.foldl (SpiBus.exec spec) b

section Rules
variable {spec} {α β : Type} {b : SpiBus}

theorem SpiBus.AtRest.send (h : b.AtRest) (wire : WireMode) (opc : UInt8) : (b.send spec wire opc).AtRest :=
  ⟨h.frame,h.wire⟩

theorem SpiBus.AtRest.pollLoop (h : b.AtRest) (wire : WireMode) (n : ℕ) :
    (b.pollLoop spec wire n).AtRest := by
  induction n generalizing b with
  | zero => exact h
  | succ n ih =>
    rw [SpiBus.pollLoop]
    split
    · exact ih (h.send wire _)
    · exact h.send wire _

theorem SpiBus.AtRest.exec (h : b.AtRest) (cmd : Cmd) : (b.exec spec cmd).AtRest := by
  cases cmd with
  | send wire opc => exact h.send wire opc
  | poll wire => exact h.pollLoop wire _

theorem SpiBus.AtRest.foldl (h : b.AtRest) (cmds : List Cmd) :
    (cmds.foldl (SpiBus.exec spec) b).AtRest := by
  induction cmds generalizing b with
  | nil => exact h
  | cons cmd cmds ih => exact ih (h.exec cmd)

theorem Performs.pure (a : α) : Performs spec (pure a : Host α) [] := fun _ _ => rfl

theorem Performs.bind {c : Host α} {d : α → Host β} {cs ds : List Cmd} (hc : Performs spec c cs)
    (hd : ∀ a, Performs spec (d a) ds) : Performs spec (c >>= d) (cs ++ ds) := by
  intro b h
  have hmid := hc b h
  rw [List.foldl_append,← hmid]
  exact hd (c b).1 (c b).2 (hmid ▸ h.foldl cs)

theorem Performs.forM {xs : List α} {c : α → Host Unit} {cmds : α → List Cmd}
    (h : ∀ x ∈ xs, Performs spec (c x) (cmds x)) : Performs spec (xs.forM c) (xs.flatMap cmds) := by
  induction xs with
  | nil => exact Performs.pure ()
  | cons x xs ih =>
    have hrest := ih fun y hy => h y (List.mem_cons_of_mem _ hy)
    exact (h x List.mem_cons_self).bind fun _ => hrest

/-- One frame whose command is sent in the wire mode that is set before it. -/
def Frame (spec : NorSpec) (c : Host α) (opc : UInt8) : Prop :=
  ∀ b : SpiBus, b.frame = none → (c b).2 = b.send spec b.wire opc

variable {opc : UInt8} {bytes : List UInt8}

theorem command_frame (h : bytes.head? = some opc) : Frame spec (command spec bytes) opc := by
  rintro ⟨wire,frame,nor,sent⟩ hframe
  obtain ⟨rest,rfl⟩ := List.head?_eq_some_iff.mp h
  subst hframe
  rfl

theorem readCommand_frame (h : bytes.head? = some opc) (n : ℕ) :
    Frame spec (readCommand spec bytes n) opc := by
  rintro ⟨wire,frame,nor,sent⟩ hframe
  obtain ⟨rest,rfl⟩ := List.head?_eq_some_iff.mp h
  subst hframe
  rfl

theorem dataCommand_frame (h : bytes.head? = some opc) (buf : List UInt8) :
    Frame spec (dataCommand spec bytes buf) opc := by
  rintro ⟨wire,frame,nor,sent⟩ hframe
  obtain ⟨rest,rfl⟩ := List.head?_eq_some_iff.mp h
  subst hframe
  rfl

theorem Frame.performs {c : Host α} (h : Frame spec c opc) :
    Performs spec c [.send .normal opc] := by
  intro b hb
  rw [h b hb.frame,hb.wire]
  rfl

theorem Frame.onQuad {c : Host α} (h : Frame spec c opc) :
    Performs spec (onQuad c) [.send .quad opc] := by
  rintro ⟨wire,frame,nor,sent⟩ hb
  obtain ⟨rfl,rfl⟩ := hb
  have hc := h ⟨.quad,none,nor,sent⟩ rfl
  show { (c ⟨.quad,none,nor,sent⟩).2 with wire := WireMode.normal } = _
  rw [hc]
  rfl

theorem wideRead_performs (h : bytes.head? = some opc) (wire : WireMode) (n : ℕ) :
    Performs spec (wideRead spec wire bytes n) [.send .normal opc] := by
  rintro ⟨wire',frame,nor,sent⟩ hb
  obtain ⟨rest,rfl⟩ := List.head?_eq_some_iff.mp h
  obtain ⟨rfl,rfl⟩ := hb
  rfl

theorem quadDataCommand_performs (h : bytes.head? = some opc) (buf : List UInt8) :
    Performs spec (quadDataCommand spec bytes buf) [.send .normal opc] := by
  rintro ⟨wire,frame,nor,sent⟩ hb
  obtain ⟨rest,rfl⟩ := List.head?_eq_some_iff.mp h
  obtain ⟨rfl,rfl⟩ := hb
  rfl

theorem opcAddr_head (bits : ℕ) (opc : UInt8) (addr : ℕ) (rest : List UInt8) :
    (opcAddr bits opc addr ++ rest).head? = some opc := by
  unfold opcAddr
  rw [Nat.add_comm]
  split <;> rfl

/-- A function that returns the status register, read on `wire`. -/
def ReadsStatus (spec : NorSpec) (wire : WireMode) (c : Host (BitVec 8)) : Prop :=
  ∀ b : SpiBus, b.AtRest → c b = (b.nor.statusRegister spec wire,b.send spec wire readStatusReg)

theorem standard_readsStatus : ReadsStatus spec .normal (spiNorStandardReadStatusRegister spec) := by
  rintro ⟨wire,frame,nor,sent⟩ hb
  obtain ⟨rfl,rfl⟩ := hb
  rfl

theorem qpi_readsStatus : ReadsStatus spec .quad (spiNorQpiReadStatusRegister spec) := by
  rintro ⟨wire,frame,nor,sent⟩ hb
  obtain ⟨rfl,rfl⟩ := hb
  rfl

theorem ReadsStatus.performs {wire : WireMode} {c : Host (BitVec 8)} (h : ReadsStatus spec wire c) :
    Performs spec c [.send wire readStatusReg] := fun b hb => congrArg Prod.snd (h b hb)

theorem pollStatus_run {wire : WireMode} {c : Host (BitVec 8)} (h : ReadsStatus spec wire c) (n : ℕ)
    (hb : b.AtRest) : (pollStatus c n b).2 = b.pollLoop spec wire n := by
  induction n generalizing b with
  | zero => rfl
  | succ n ih =>
    have hstep : pollStatus c (n + 1) b =
        (if (c b).1 &&& SPI_NOR_STATUS_BUSY ≠ 0 then pollStatus c n else Pure.pure ()) (c b).2 := rfl
    rw [hstep,h b hb,SpiBus.pollLoop]
    split
    · exact ih (hb.send wire _)
    · rfl

theorem untilReady_performs {wire : WireMode} {c : Host (BitVec 8)} (h : ReadsStatus spec wire c) :
    Performs spec (untilReady c) [.poll wire] := fun _ hb => pollStatus_run h _ hb

end Rules

/-! ## The calls of spi_nor.c -/

def SpiNorMode.wire (mode : SpiNorMode) : WireMode := if mode = .qpi then .quad else .normal

def SpiNorMode.readOpc : SpiNorMode → UInt8
  | .normal => readData
  | .dual => fastReadDualOutput
  | .quad => fastReadQuadOutput
  | .qpi => fastReadQuadIo

def SpiNorMode.programOpc (mode : SpiNorMode) : UInt8 :=
  if mode = .quad then quadPageProgram else pageProgram

def operationCmds (wire : WireMode) (opc : UInt8) : List Cmd :=
  [.send wire writeEnable,.send wire opc,.poll wire,.send wire writeDisable]

/-- From the release of the power-down to the write of the status register. -/
def enableCmds : List Cmd :=
  [.send .normal releasePowerDown,.send .normal readStatusReg,.send .normal writeEnable,
    .send .normal writeStatusReg,.send .normal writeDisable]

def openCmds (f : SpiNorFlash) (mode : SpiNorMode) : List Cmd :=
  (match mode with
    | .normal | .dual => []
    | .quad => enableCmds
    | .qpi => enableCmds ++ [.send .normal enableQpi])
  ++ if f.addrBits = 32 then [.send .normal enable4bAddr] else []

def closeCmds (mode : SpiNorMode) : List Cmd := if mode = .qpi then [.send .quad disableQpi] else []

def NorOp.cmds (f : SpiNorFlash) (mode : SpiNorMode) : NorOp → List Cmd
  | .read _ _ => [.send mode.wire mode.readOpc]
  | .write addr buf =>
    (spiNorWrite f addr buf.length).flatMap fun _ => operationCmds mode.wire mode.programOpc
  | .sectorErase _ => operationCmds mode.wire SpiNor.sectorErase
  | .blockErase _ => operationCmds mode.wire SpiNor.blockErase
  | .chipErase => operationCmds mode.wire SpiNor.chipErase
  | .eraseSecurityReg _ => operationCmds .normal SpiNor.eraseSecurityReg
  | .programSecurityReg _ _ => operationCmds .normal SpiNor.programSecurityReg
  | .readSecurityReg _ _ => [.send .normal SpiNor.readSecurityReg]

def sessionCmds (f : SpiNorFlash) (mode : SpiNorMode) (ops : List NorOp) : List Cmd :=
  openCmds f mode ++ (ops.flatMap (NorOp.cmds f mode) ++ closeCmds mode)

section Calls
variable {spec} {f : SpiNorFlash} {mode : SpiNorMode} {b : SpiBus}

theorem standardOperation_performs {body : Host Unit} {opc : UInt8}
    (h : Performs spec body [.send .normal opc]) :
    Performs spec (standardOperation spec body) (operationCmds .normal opc) := by
  have henable : Performs spec (spiNorStandardWriteEnable spec) _ := (command_frame rfl).performs
  have hdisable : Performs spec (spiNorStandardWriteDisable spec) _ := (command_frame rfl).performs
  exact henable.bind fun _ => h.bind fun _ =>
    (untilReady_performs standard_readsStatus).bind fun _ => hdisable

theorem qpiOperation_performs {body : Host Unit} {opc : UInt8} (h : Frame spec body opc) :
    Performs spec (qpiOperation spec body) (operationCmds .quad opc) := by
  have henable : Performs spec (spiNorQpiWriteEnable spec) _ := (command_frame rfl).onQuad
  have hdisable : Performs spec (spiNorQpiWriteDisable spec) _ := (command_frame rfl).onQuad
  exact henable.bind fun _ => h.onQuad.bind fun _ =>
    (untilReady_performs qpi_readsStatus).bind fun _ => hdisable

theorem addressed (bits : ℕ) (opc : UInt8) (addr : ℕ) : (opcAddr bits opc addr).head? = some opc := by
  simpa using opcAddr_head bits opc addr []

theorem read_performs (addr n : ℕ) :
    Performs spec ((spinorBusList spec f mode).read addr n) [.send mode.wire mode.readOpc] := by
  cases mode with
  | normal => exact (readCommand_frame (addressed _ _ _) n).performs.bind fun _ => Performs.pure ()
  | dual => exact wideRead_performs (opcAddr_head _ _ _ _) _ n
  | quad => exact wideRead_performs (opcAddr_head _ _ _ _) _ n
  | qpi => exact (readCommand_frame (opcAddr_head _ _ _ _) n).onQuad.bind fun _ => Performs.pure ()

theorem program_performs (addr : ℕ) (buf : List UInt8) :
    Performs spec ((spinorBusList spec f mode).program addr buf)
      (operationCmds mode.wire mode.programOpc) := by
  have haddr := addressed f.addrBits mode.programOpc addr
  cases mode with
  | normal => exact standardOperation_performs (dataCommand_frame haddr buf).performs
  | dual => exact standardOperation_performs (dataCommand_frame haddr buf).performs
  | quad =>
    have hbody : Performs spec (standardOperation spec _) _ :=
      standardOperation_performs (quadDataCommand_performs haddr buf)
    rintro ⟨wire,frame,nor,sent⟩ hb
    obtain ⟨rfl,rfl⟩ := hb
    exact hbody _ ⟨rfl,rfl⟩
  | qpi => exact qpiOperation_performs (dataCommand_frame haddr buf)

/-- The erase entries of the four tables. -/
theorem erase_performs (addr : ℕ) :
    Performs spec ((spinorBusList spec f mode).sectorErase addr)
        (operationCmds mode.wire SpiNor.sectorErase) ∧
      Performs spec ((spinorBusList spec f mode).blockErase addr)
        (operationCmds mode.wire SpiNor.blockErase) ∧
      Performs spec (spinorBusList spec f mode).chipErase
        (operationCmds mode.wire SpiNor.chipErase) := by
  have hsector := addressed f.addrBits SpiNor.sectorErase addr
  have hblock := addressed f.addrBits SpiNor.blockErase addr
  cases mode with
  | normal | dual | quad =>
    exact ⟨standardOperation_performs (command_frame hsector).performs,
      standardOperation_performs (command_frame hblock).performs,
      standardOperation_performs (command_frame rfl).performs⟩
  | qpi =>
    exact ⟨qpiOperation_performs (command_frame hsector),qpiOperation_performs (command_frame hblock),
      qpiOperation_performs (command_frame rfl)⟩

theorem op_performs (op : NorOp) : Performs spec (op.run spec f mode) (op.cmds f mode) := by
  cases op with
  | read addr n => exact read_performs addr n
  | write addr buf => exact Performs.forM fun c _ => program_performs c.addr (c.data buf)
  | sectorErase addr => exact (erase_performs addr).1
  | blockErase addr => exact (erase_performs addr).2.1
  | chipErase => exact (erase_performs 0).2.2
  | eraseSecurityReg addr =>
    have h : Performs spec (spiNorStandardEraseSecurityReg spec addr) _ :=
      standardOperation_performs (command_frame (addressed 24 SpiNor.eraseSecurityReg addr)).performs
    cases mode <;> exact h
  | programSecurityReg addr buf =>
    have h : Performs spec (spiNorStandardProgramSecurityReg spec addr buf) _ :=
      standardOperation_performs
        (dataCommand_frame (addressed 24 SpiNor.programSecurityReg addr) buf).performs
    cases mode <;> exact h
  | readSecurityReg addr n =>
    have h : Performs spec (spiNorStandardReadSecurityReg spec addr n) _ :=
      (readCommand_frame (opcAddr_head 24 SpiNor.readSecurityReg addr [0]) n).performs.bind
        fun _ => Performs.pure ()
    cases mode <;> exact h

theorem enter4b_performs :
    Performs spec (if f.addrBits = 32 then spiNorStandardEnter4bAddr spec else pure ())
      (if f.addrBits = 32 then [.send .normal enable4bAddr] else []) := by
  split
  · exact (command_frame rfl).performs
  · exact Performs.pure ()

theorem writeStatus_performs (data : BitVec 16) :
    Performs spec (spiNorStandardWriteStatusRegister spec data)
      [.send .normal writeEnable,.send .normal writeStatusReg,.send .normal writeDisable] := by
  have henable : Performs spec (spiNorStandardWriteEnable spec) _ := (command_frame rfl).performs
  have hdisable : Performs spec (spiNorStandardWriteDisable spec) _ := (command_frame rfl).performs
  exact henable.bind fun _ => (command_frame rfl).performs.bind fun _ => hdisable

theorem openBus_performs : Performs spec (spinorBusList spec f mode).openBus (openCmds f mode) := by
  have hrelease : Performs spec (spiNorStandardReleasePowerDown spec) _ := (command_frame rfl).performs
  have hstatus : Performs spec (spiNorStandardReadStatusRegister spec) _ := standard_readsStatus.performs
  have hqpi : Performs spec (spiNorStandardEnterQpi spec) _ := (command_frame rfl).performs
  cases mode with
  | normal | dual => exact enter4b_performs
  | quad =>
    exact hrelease.bind fun _ => hstatus.bind fun _ => (writeStatus_performs _).bind fun _ =>
      enter4b_performs
  | qpi =>
    exact hrelease.bind fun _ => hstatus.bind fun _ => (writeStatus_performs _).bind fun _ =>
      hqpi.bind fun _ => enter4b_performs

theorem open_performs : Performs spec (spiNorOpen spec f mode) (openCmds f mode) := by
  rintro ⟨wire,frame,nor,sent⟩ hb
  obtain ⟨rfl,rfl⟩ := hb
  exact openBus_performs _ ⟨rfl,rfl⟩

theorem close_performs : Performs spec (spiNorClose spec f mode) (closeCmds mode) := by
  have hcs : Performs spec (spiSetCs spec true) [] := by
    rintro ⟨wire,frame,nor,sent⟩ hb
    obtain ⟨rfl,rfl⟩ := hb
    rfl
  have hqpi : Performs spec (spiNorStandardDisableQpi spec) _ := (command_frame rfl).onQuad
  cases mode with
  | normal | dual | quad => exact (Performs.pure ()).bind fun _ => hcs
  | qpi => exact hqpi.bind fun _ => hcs

theorem session_performs (ops : List NorOp) :
    Performs spec (session spec f mode ops) (sessionCmds f mode ops) :=
  open_performs.bind fun _ => (Performs.forM fun op _ => op_performs op).bind fun _ => close_performs

end Calls

end FmacSdk.SpiNor
