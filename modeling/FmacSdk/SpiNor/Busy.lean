import FmacSdk.SpiNor.Commands
import FmacSdk.Foundation.Transition

/-! # Commands while the flash is busy

A busy flash ignores every command but the read of its status register. Programs
and erases poll before they go on; the status-register write that opens a quad or
a QPI part does not, and its write-disable is lost unless that write is immediate.
-/
namespace FmacSdk.SpiNor
open Transition

/-- A flash that heeds the read of its status register always and everything
else only when it is ready. -/
def busySpec (latency : ℕ → ℕ) (status : BitVec 7) : NorSpec :=
  ⟨fun _ c opc => c.busy = 0 ∨ opc = readStatusReg,latency,status⟩

def Sent.Heard (e : Sent) : Prop := e.busy = false ∨ e.opc = readStatusReg

instance (e : Sent) : Decidable e.Heard := inferInstanceAs (Decidable (_ ∨ _))

def AllHeard (b : SpiBus) : Prop := ∀ e ∈ b.sent, e.Heard

instance (b : SpiBus) : Decidable (AllHeard b) := inferInstanceAs (Decidable (∀ e ∈ b.sent, e.Heard))

structure Ready (b : SpiBus) : Prop where
  heard : AllHeard b
  busy : b.nor.busy = 0

section Execution
variable {latency : ℕ → ℕ} {status : BitVec 7} {b : SpiBus}

theorem send_heard_iff {spec : NorSpec} (wire : WireMode) (opc : UInt8) :
    AllHeard (b.send spec wire opc) ↔ AllHeard b ∧ (b.nor.busy = 0 ∨ opc = readStatusReg) := by
  unfold AllHeard SpiBus.send
  simp only [List.forall_mem_append,List.forall_mem_singleton,Sent.Heard,decide_eq_false_iff_not,
    not_not]

theorem Ready.send (h : Ready b) (wire : WireMode) {opc : UInt8} (hopc : startsOperation opc = false) :
    Ready (b.send (busySpec latency status) wire opc) ∧
      (b.send (busySpec latency status) wire opc).nor.started = b.nor.started := by
  have hexec : (b.nor.exec (busySpec latency status) wire opc).busy = 0 ∧
      (b.nor.exec (busySpec latency status) wire opc).started = b.nor.started := by
    simp only [Nor.exec,hopc,Bool.false_eq_true,if_false]
    split_ifs <;> simp [h.busy]
  exact ⟨⟨(send_heard_iff wire opc).mpr ⟨h.heard,Or.inl h.busy⟩,hexec.1⟩,hexec.2⟩

theorem Ready.send_operation (h : Ready b) (wire : WireMode) {opc : UInt8}
    (hopc : startsOperation opc = true) :
    (b.send (busySpec latency status) wire opc).nor.busy = latency b.nor.started := by
  have hqpi : opc ≠ enableQpi := by rintro rfl; cases hopc
  have hquit : opc ≠ disableQpi := by rintro rfl; cases hopc
  have hread : opc ≠ readStatusReg := by rintro rfl; cases hopc
  show (b.nor.exec (busySpec latency status) wire opc).busy = _
  simp [Nor.exec,busySpec,h.busy,hqpi,hquit,hread,hopc]

theorem statusRegister_busy (wire : WireMode) :
    b.nor.statusRegister (busySpec latency status) wire &&& SPI_NOR_STATUS_BUSY ≠ 0 ↔
      b.nor.busy ≠ 0 := by
  have hbit : ∀ s : BitVec 7, (s ++ (1 : BitVec 1)) &&& SPI_NOR_STATUS_BUSY ≠ 0 ∧
      (s ++ (0 : BitVec 1)) &&& SPI_NOR_STATUS_BUSY = 0 := by decide
  have hread : b.nor.statusRegister (busySpec latency status) wire =
      status ++ (if b.nor.busy ≠ 0 then 1 else 0 : BitVec 1) :=
    if_pos (decide_eq_true (Or.inr rfl))
  rw [hread]
  by_cases hbusy : b.nor.busy ≠ 0
  · rw [if_pos hbusy]
    exact iff_of_true (hbit status).1 hbusy
  · rw [if_neg hbusy]
    exact iff_of_false (not_not.mpr (hbit status).2) hbusy

theorem send_poll_busy (wire : WireMode) :
    (b.send (busySpec latency status) wire readStatusReg).nor.busy = b.nor.busy - 1 := by
  have hheeds : (busySpec latency status).heeds wire b.nor readStatusReg = true :=
    decide_eq_true (Or.inr rfl)
  show (b.nor.exec (busySpec latency status) wire readStatusReg).busy = _
  rw [Nor.exec,if_pos hheeds]
  rfl

/-- As many polls as the flash stays busy, and one that finds it ready. -/
theorem pollLoop_ready (wire : WireMode) {n : ℕ} (h : AllHeard b) (hn : b.nor.busy ≤ n) :
    Ready (b.pollLoop (busySpec latency status) wire (n + 1)) := by
  have hheard (b : SpiBus) (h : AllHeard b) :
      AllHeard (b.send (busySpec latency status) wire readStatusReg) :=
    (send_heard_iff wire _).mpr ⟨h,Or.inr rfl⟩
  induction n generalizing b with
  | zero =>
    have hidle : ¬ b.nor.busy ≠ 0 := by omega
    rw [SpiBus.pollLoop,if_neg (mt (statusRegister_busy wire).mp hidle)]
    exact ⟨hheard b h,by rw [send_poll_busy]; omega⟩
  | succ n ih =>
    rw [SpiBus.pollLoop]
    split
    · exact ih (hheard b h) (by rw [send_poll_busy]; omega)
    · rename_i hstatus
      have hidle := mt (statusRegister_busy wire).mpr hstatus
      exact ⟨hheard b h,by rw [send_poll_busy]; omega⟩

theorem heard_of_pollLoop (wire : WireMode) (n : ℕ)
    (h : AllHeard (b.pollLoop (busySpec latency status) wire n)) : AllHeard b := by
  induction n generalizing b with
  | zero => exact h
  | succ n ih =>
    rw [SpiBus.pollLoop] at h
    split at h
    · exact ((send_heard_iff wire _).mp (ih h)).1
    · exact ((send_heard_iff wire _).mp h).1

/-- Commands are never taken back. -/
theorem heard_of_foldl (cmds : List Cmd)
    (h : AllHeard (cmds.foldl (SpiBus.exec (busySpec latency status)) b)) : AllHeard b := by
  induction cmds generalizing b with
  | nil => exact h
  | cons cmd cmds ih =>
    have hcmd := ih h
    cases cmd with
    | send wire opc => exact ((send_heard_iff wire opc).mp hcmd).1
    | poll wire => exact heard_of_pollLoop wire _ hcmd

end Execution

/-! ## The calls -/

/-- Commands that leave a ready flash ready. -/
def KeepsReady (latency : ℕ → ℕ) (status : BitVec 7) (cmds : List Cmd) : Prop :=
  ∀ b : SpiBus, Ready b → Ready (cmds.foldl (SpiBus.exec (busySpec latency status)) b)

section Calls
variable {latency : ℕ → ℕ} {status : BitVec 7} {b : SpiBus} {f : SpiNorFlash} {mode : SpiNorMode}

theorem KeepsReady.nil : KeepsReady latency status [] := fun _ h => h

theorem KeepsReady.append {cs ds : List Cmd} (hc : KeepsReady latency status cs)
    (hd : KeepsReady latency status ds) : KeepsReady latency status (cs ++ ds) := by
  intro b h
  rw [List.foldl_append]
  exact hd _ (hc b h)

theorem KeepsReady.single (wire : WireMode) {opc : UInt8} (hopc : startsOperation opc = false) :
    KeepsReady latency status [.send wire opc] := fun _ h => (h.send wire hopc).1

theorem KeepsReady.flatMap {α : Type} {xs : List α} {cmds : α → List Cmd}
    (h : ∀ x, KeepsReady latency status (cmds x)) : KeepsReady latency status (xs.flatMap cmds) := by
  induction xs with
  | nil => exact KeepsReady.nil
  | cons x xs ih =>
    rw [List.flatMap_cons]
    exact (h x).append ih

/-- Program and erase: the loop waits for the end before the write-disable. -/
theorem operationCmds_ready (wire : WireMode) (opc : UInt8) :
    KeepsReady latency status (operationCmds wire opc) := by
  intro b h
  have henabled := (@Ready.send latency status b h wire writeEnable rfl).1
  have hsent : AllHeard ((b.send (busySpec latency status) wire writeEnable).send
      (busySpec latency status) wire opc) :=
    (send_heard_iff wire opc).mpr ⟨henabled.heard,Or.inl henabled.busy⟩
  exact ((pollLoop_ready wire hsent le_rfl).send wire rfl).1

theorem op_ready (op : NorOp) : KeepsReady latency status (op.cmds f mode) := by
  cases op with
  | read addr n => cases mode <;> exact KeepsReady.single _ rfl
  | write addr buf => exact KeepsReady.flatMap fun _ => operationCmds_ready _ _
  | sectorErase | blockErase | chipErase | eraseSecurityReg | programSecurityReg =>
    exact operationCmds_ready _ _
  | readSecurityReg addr n => exact KeepsReady.single _ rfl

theorem closeCmds_ready : KeepsReady latency status (closeCmds mode) := by
  unfold closeCmds
  split
  · exact KeepsReady.single _ rfl
  · exact KeepsReady.nil

theorem enter4b_ready : KeepsReady latency status
    (if f.addrBits = 32 then [.send .normal enable4bAddr] else []) := by
  split
  · exact KeepsReady.single _ rfl
  · exact KeepsReady.nil

/-- The write-disable follows the write of the status register at once. -/
theorem enableCmds_ready (h : Ready b) :
    (AllHeard (enableCmds.foldl (SpiBus.exec (busySpec latency status)) b) →
      latency b.nor.started = 0) ∧
    (latency b.nor.started = 0 → Ready (enableCmds.foldl (SpiBus.exec (busySpec latency status)) b)) := by
  have hrelease := @Ready.send latency status b h .normal releasePowerDown rfl
  have hstatus := @Ready.send latency status _ hrelease.1 .normal readStatusReg rfl
  have henable := @Ready.send latency status _ hstatus.1 .normal writeEnable rfl
  have hbusy := @Ready.send_operation latency status _ henable.1 .normal writeStatusReg rfl
  rw [henable.2,hstatus.2,hrelease.2] at hbusy
  have hsent := (@send_heard_iff _ (busySpec latency status) .normal writeStatusReg).mpr
    ⟨henable.1.heard,Or.inl henable.1.busy⟩
  constructor
  · intro hall
    rcases ((send_heard_iff _ _).mp hall).2 with hzero | hread
    · exact hbusy.symm.trans hzero
    · exact absurd hread (by decide)
  · intro hzero
    have hready : Ready _ := ⟨hsent,hbusy.trans hzero⟩
    exact (hready.send .normal rfl).1

theorem openCmds_ready (h : Ready b) (hprompt : mode = .quad ∨ mode = .qpi → latency b.nor.started = 0) :
    Ready ((openCmds f mode).foldl (SpiBus.exec (busySpec latency status)) b) := by
  have hqpi : KeepsReady latency status [.send .normal enableQpi] := KeepsReady.single _ rfl
  unfold openCmds
  rw [List.foldl_append]
  refine enter4b_ready _ ?_
  cases mode with
  | normal | dual => exact h
  | quad => exact (enableCmds_ready h).2 (hprompt (Or.inl rfl))
  | qpi =>
    rw [List.foldl_append]
    exact hqpi _ ((enableCmds_ready h).2 (hprompt (Or.inr rfl)))

theorem prompt_of_heard (h : Ready b)
    (hall : AllHeard ((openCmds f mode).foldl (SpiBus.exec (busySpec latency status)) b))
    (hmode : mode = .quad ∨ mode = .qpi) : latency b.nor.started = 0 := by
  unfold openCmds at hall
  rw [List.foldl_append] at hall
  have hopened := heard_of_foldl _ hall
  rcases hmode with rfl | rfl
  · exact (enableCmds_ready h).1 hopened
  · rw [List.foldl_append] at hopened
    exact (enableCmds_ready h).1 (heard_of_foldl _ hopened)

end Calls

/-- A call of spi_nor.c. -/
inductive NorCall
  | openFlash
  | operation (op : NorOp)
  | closeFlash

def NorCall.run (spec : NorSpec) (f : SpiNorFlash) (mode : SpiNorMode) : NorCall → Host Unit
  | .openFlash => spiNorOpen spec f mode
  | .operation op => op.run spec f mode
  | .closeFlash => spiNorClose spec f mode

def callStep (spec : NorSpec) (f : SpiNorFlash) (mode : SpiNorMode) (b : SpiBus) (call : NorCall) :
    Option SpiBus :=
  some (call.run spec f mode b).2

def NorCall.cmds (f : SpiNorFlash) (mode : SpiNorMode) : NorCall → List Cmd
  | .openFlash => openCmds f mode
  | .operation op => op.cmds f mode
  | .closeFlash => closeCmds mode

theorem call_performs {spec : NorSpec} {f : SpiNorFlash} {mode : SpiNorMode} (call : NorCall) :
    Performs spec (call.run spec f mode) (call.cmds f mode) := by
  cases call with
  | openFlash => exact open_performs
  | operation op => exact op_performs op
  | closeFlash => exact close_performs

/-- The write of the status register that opens a quad or a QPI part is
immediate. -/
def Prompt (latency : ℕ → ℕ) (mode : SpiNorMode) (b : SpiBus) : NorCall → Prop
  | .openFlash => mode = .quad ∨ mode = .qpi → latency b.nor.started = 0
  | _ => True

instance (latency : ℕ → ℕ) (mode : SpiNorMode) (b : SpiBus) (call : NorCall) :
    Decidable (Prompt latency mode b call) := by
  cases call <;> unfold Prompt <;> infer_instance

def idleBus (qpi : Bool) : SpiBus := ⟨.normal,none,⟨qpi,0,0⟩,[]⟩

section Runs
variable {latency : ℕ → ℕ} {status : BitVec 7} {f : SpiNorFlash} {mode : SpiNorMode} {b t : SpiBus}
  {call : NorCall}

theorem callStep_ready (h : Ready b) (hprompt : Prompt latency mode b call) :
    Ready ((call.cmds f mode).foldl (SpiBus.exec (busySpec latency status)) b) := by
  cases call with
  | openFlash => exact openCmds_ready h hprompt
  | operation op => exact op_ready op b h
  | closeFlash => exact closeCmds_ready b h

theorem callStep_prompt (h : Ready b)
    (hall : AllHeard ((call.cmds f mode).foldl (SpiBus.exec (busySpec latency status)) b)) :
    Prompt latency mode b call := by
  cases call with
  | openFlash => exact prompt_of_heard h hall
  | operation | closeFlash => trivial

/-- A run sends a busy flash nothing but reads of its status register exactly if
every open that writes the status register finds that write immediate. -/
theorem heard_along_iff {qpi : Bool} {calls : List NorCall}
    (h : Runs (callStep (busySpec latency status) f mode) (idleBus qpi) calls b) :
    (∀ ms u, ms <+: calls → Runs (callStep (busySpec latency status) f mode) (idleBus qpi) ms u →
        AllHeard u) ↔
      Runs (guarded (Prompt latency mode) (callStep (busySpec latency status) f mode)) (idleBus qpi)
        calls b := by
  refine Runs.guarded_iff (I := fun u : SpiBus => u.AtRest ∧ Ready u) (fun u hu => hu.2.heard) ?_ ?_ ?_ h
  · intro u c t hu hprompt hstep
    obtain rfl := Option.some.inj hstep
    rw [call_performs c u hu.1]
    exact ⟨hu.1.foldl _,callStep_ready hu.2 hprompt⟩
  · intro u c t hu hstep hall
    obtain rfl := Option.some.inj hstep
    rw [call_performs c u hu.1] at hall
    exact callStep_prompt hu.2 hall
  · exact ⟨⟨rfl,rfl⟩,List.forall_mem_nil _,rfl⟩

/-- Only the first operation of this part, the write of its status register, is
immediate. -/
def slowErase : ℕ → ℕ := fun n => if n = 0 then 0 else 2

theorem heard_along_iff_quad : ∃ b, Runs (callStep (busySpec slowErase 0) smallFlash .quad)
    (idleBus false) [.openFlash,.operation (.sectorErase 0),.operation (.read 0 1),.closeFlash] b ∧
    b.nor.started = 2 ∧ AllHeard b := by
  obtain ⟨b,hb,hstarted⟩ : ∃ b,
      exec (guarded (Prompt slowErase .quad) (callStep (busySpec slowErase 0) smallFlash .quad))
        (idleBus false) [.openFlash,.operation (.sectorErase 0),.operation (.read 0 1),.closeFlash] =
          some b ∧ b.nor.started = 2 := ⟨_,rfl,by decide⟩
  have hguarded := Runs.of_exec hb
  have hrun := hguarded.of_guarded
  exact ⟨b,hrun,hstarted,(heard_along_iff hrun).mpr hguarded _ b (List.prefix_refl _) hrun⟩

/-- The write-disable of open is sent to a part that is still busy with the write
of its status register. -/
theorem disable_while_busy : ∃ b, Runs (callStep (busySpec (fun _ => 1) 0) smallFlash .quad)
    (idleBus false) [.openFlash] b ∧ ⟨writeDisable,.normal,false,true⟩ ∈ b.sent ∧ ¬ AllHeard b := by
  obtain ⟨b,hb,hlost⟩ : ∃ b, exec (callStep (busySpec (fun _ => 1) 0) smallFlash .quad)
      (idleBus false) [.openFlash] = some b ∧ ⟨writeDisable,.normal,false,true⟩ ∈ b.sent :=
    ⟨_,rfl,by decide⟩
  exact ⟨b,Runs.of_exec hb,hlost,fun h => absurd (h _ hlost) (by decide)⟩

end Runs

end FmacSdk.SpiNor
