import FmacSdk.SpiNor.WireModes

/-! # Address framing

Every call between open and close as the calls of the SPI driver that it makes, so
that the bytes of a frame can be read off. A flash takes four address bytes once it
has accepted the command 0xB7, and three before.
-/
namespace FmacSdk.SpiNor

/-- A call of the SPI driver. -/
inductive Act
  | cs (value : Bool)
  | wireMode (wire : WireMode)
  | write (bytes : List UInt8)
  | read (n : ℕ)

/-- Calls without an address, a frame that carries an address and data to program, or
the loop over the status register. -/
inductive Step
  | plain (acts : List Act)
  | addressed (addr : ℕ) (data : List UInt8) (acts : List Act)
  | untilReady (wire : WireMode)

section Run
variable (spec : NorSpec)

def Act.run : Act → Host Unit
  | .cs value => spiSetCs spec value
  | .wireMode wire => spiWireModeSet wire
  | .write bytes => spiWrite bytes
  | .read n => do let _ ← spiRead spec n

def runActs (acts : List Act) : Host Unit := acts.forM (Act.run spec)

def Step.run : Step → Host Unit
  | .plain acts => runActs spec acts
  | .addressed _ _ acts => runActs spec acts
  | .untilReady .quad => SpiNor.untilReady (spiNorQpiReadStatusRegister spec)
  | .untilReady _ => SpiNor.untilReady (spiNorStandardReadStatusRegister spec)

def runSteps (steps : List Step) : Host Unit := steps.forM (Step.run spec)

end Run

/-! ## The frames of the primitives -/

/-- A body on the wires of the mode: the QPI functions set the quad mode around it. -/
def onWire (wire : WireMode) (acts : List Act) : List Act :=
  if wire = .quad then .wireMode .quad :: (acts ++ [.wireMode .normal]) else acts

def commandActs (bytes : List UInt8) : List Act := [.cs false,.write bytes,.cs true]

def readActs (bytes : List UInt8) (n : ℕ) : List Act := [.cs false,.write bytes,.read n,.cs true]

def dataActs (bytes buf : List UInt8) : List Act := [.cs false,.write bytes,.write buf,.cs true]

def wideReadActs (wire : WireMode) (bytes : List UInt8) (n : ℕ) : List Act :=
  [.cs false,.wireMode .normal,.write bytes,.wireMode wire,.read n,.wireMode .normal,.cs true]

def quadDataActs (bytes buf : List UInt8) : List Act :=
  [.cs false,.write bytes,.wireMode .quad,.write buf,.wireMode .normal,.cs true]

/-- The sequence of every program and erase primitive around its command. -/
def operationSteps (wire : WireMode) (body : Step) : List Step :=
  [.plain (onWire wire (commandActs [writeEnable])),body,.untilReady wire,
    .plain (onWire wire (commandActs [writeDisable]))]

section Steps
variable (f : SpiNorFlash) (addr : ℕ)

def readSteps (n : ℕ) : SpiNorMode → List Step
  | .normal => [.addressed addr [] (readActs (opcAddr f.addrBits readData addr) n)]
  | .dual => [.addressed addr [] (wideReadActs .dual (opcAddr f.addrBits fastReadDualOutput addr ++ [0]) n)]
  | .quad => [.addressed addr [] (wideReadActs .quad (opcAddr f.addrBits fastReadQuadOutput addr ++ [0]) n)]
  | .qpi => [.addressed addr [] (onWire .quad (readActs (opcAddr f.addrBits fastReadQuadIo addr ++ [0]) n))]

def programSteps (buf : List UInt8) : SpiNorMode → List Step
  | .normal | .dual => operationSteps .normal
      (.addressed addr buf (dataActs (opcAddr f.addrBits pageProgram addr) buf))
  | .quad => .plain [.wireMode .normal] :: operationSteps .normal
      (.addressed addr buf (quadDataActs (opcAddr f.addrBits quadPageProgram addr) buf))
  | .qpi => operationSteps .quad
      (.addressed addr buf (onWire .quad (dataActs (opcAddr f.addrBits pageProgram addr) buf)))

def eraseSteps (opc : UInt8) (mode : SpiNorMode) : List Step :=
  operationSteps mode.wire (.addressed addr [] (onWire mode.wire (commandActs (opcAddr f.addrBits opc addr))))

def NorOp.steps (mode : SpiNorMode) : NorOp → List Step
  | .read addr n => readSteps f addr n mode
  | .write addr buf => (spiNorWrite f addr buf.length).flatMap fun c => programSteps f c.addr (c.data buf) mode
  | .sectorErase addr => eraseSteps f addr SpiNor.sectorErase mode
  | .blockErase addr => eraseSteps f addr SpiNor.blockErase mode
  | .chipErase => operationSteps mode.wire (.plain (onWire mode.wire (commandActs [SpiNor.chipErase])))
  | .eraseSecurityReg addr => operationSteps .normal
      (.addressed addr [] (commandActs (opcAddr 24 SpiNor.eraseSecurityReg addr)))
  | .programSecurityReg addr buf => operationSteps .normal
      (.addressed addr buf (dataActs (opcAddr 24 SpiNor.programSecurityReg addr) buf))
  | .readSecurityReg addr n => [.addressed addr [] (readActs (opcAddr 24 SpiNor.readSecurityReg addr ++ [0]) n)]

end Steps

section Agreement
variable {spec : NorSpec} {f : SpiNorFlash} {mode : SpiNorMode}

theorem runSteps_append (cs ds : List Step) :
    runSteps spec (cs ++ ds) = (do runSteps spec cs; runSteps spec ds) := by
  induction cs with
  | nil => rfl
  | cons c cs ih =>
    show (do c.run spec; runSteps spec (cs ++ ds)) = _
    rw [ih]
    rfl

theorem runSteps_flatMap {α : Type} (xs : List α) (steps : α → List Step) :
    runSteps spec (xs.flatMap steps) = xs.forM fun x => runSteps spec (steps x) := by
  induction xs with
  | nil => rfl
  | cons x xs ih =>
    rw [List.flatMap_cons,runSteps_append,ih]
    rfl

theorem read_steps (addr n : ℕ) :
    runSteps spec (readSteps f addr n mode) = (spinorBusList spec f mode).read addr n := by
  cases mode <;> rfl

theorem program_steps (addr : ℕ) (buf : List UInt8) :
    runSteps spec (programSteps f addr buf mode) = (spinorBusList spec f mode).program addr buf := by
  cases mode <;> rfl

theorem op_steps (op : NorOp) : runSteps spec (op.steps f mode) = op.run spec f mode := by
  cases op with
  | read addr n => exact read_steps addr n
  | write addr buf =>
    refine (runSteps_flatMap _ _).trans ?_
    apply congrArg (List.forM _)
    funext c
    exact program_steps c.addr (c.data buf)
  | _ => cases mode <;> rfl

end Agreement

/-! ## The bytes of a frame -/

/-- The wire mode, the open frame and the frames that are complete. -/
structure Line where
  wire : WireMode
  frame : Option (List Transfer)
  done : List (List Transfer)

def Line.act (l : Line) : Act → Line
  | .cs true => { l with frame := none, done := l.done ++ l.frame.toList }
  | .cs false => { l with frame := some [] }
  | .wireMode wire => { l with wire := wire }
  | .write bytes => { l with frame := l.frame.map (· ++ [.tx l.wire bytes]) }
  | .read n => { l with frame := l.frame.map (· ++ [.rx l.wire n]) }

/-- The frames of calls that start in the wire mode of the standard instructions. -/
def frames (acts : List Act) : List (List Transfer) := (acts.foldl Line.act ⟨.normal,none,[]⟩).done

/-- What is sent before the first byte is read. -/
def header : List Transfer → List UInt8
  | .tx _ bytes :: rest => bytes ++ header rest
  | _ => []

def dummyBytes (opc : UInt8) : ℕ :=
  if opc ∈ [fastReadDualOutput,fastReadQuadOutput,fastReadQuadIo,readSecurityReg] then 1 else 0

/-- A frame as a flash with `width` address bytes takes it: the command, the address
with the most significant byte first, the dummy bytes and the data. -/
def Framing (f : SpiNorFlash) (width addr : ℕ) (data : List UInt8) (fr : List Transfer) : Prop :=
  ∃ opc bs dummies, header fr = opc :: (bs ++ (dummies ++ data)) ∧ bs.length = width ∧
    (addr < f.size → bigEndian bs = addr) ∧ dummies.length = dummyBytes opc

section Bus
variable {spec : NorSpec} {b : SpiBus} {l : Line}

/-- The flash takes the commands of the frames one after the other. -/
def SpiBus.takes (spec : NorSpec) (b : SpiBus) (frs : List (List Transfer)) : SpiBus :=
  (frs.filterMap command?).foldl (fun b c => b.send spec c.1 c.2) b

theorem takes_append (frs gs : List (List Transfer)) :
    b.takes spec (frs ++ gs) = (b.takes spec frs).takes spec gs := by
  rw [SpiBus.takes,List.filterMap_append,List.foldl_append]
  rfl

/-- The bus behind the calls that the line has seen. -/
def Line.Of (spec : NorSpec) (b : SpiBus) (l : Line) (c : SpiBus) : Prop :=
  c = { b.takes spec l.done with wire := l.wire, frame := l.frame }

theorem spiSetCs_true {c : SpiBus} {fr : List Transfer} (h : c.frame = some fr) :
    (spiSetCs spec true c).2 = match command? fr with
      | some (wire,opc) => { c.send spec wire opc with frame := none }
      | none => { c with frame := none } := by
  obtain ⟨wire,frame,nor,sent⟩ := c
  subst h
  rfl

theorem Line.Of.act {c : SpiBus} (h : l.Of spec b c) (a : Act) : (l.act a).Of spec b (a.run spec c).2 := by
  obtain ⟨wire,frame,done⟩ := l
  subst h
  cases a with
  | cs value =>
    cases value with
    | false => rfl
    | true =>
      cases frame with
      | none =>
        show _ = { b.takes spec (done ++ []) with wire := wire, frame := none }
        rw [List.append_nil]
        rfl
      | some fr =>
        show _ = { b.takes spec (done ++ [fr]) with wire := wire, frame := none }
        rw [takes_append]
        refine (spiSetCs_true rfl).trans ?_
        cases hcommand : command? fr with
        | none =>
          have hnone : (b.takes spec done).takes spec [fr] = b.takes spec done := by
            rw [SpiBus.takes,List.filterMap_cons_none hcommand]
            rfl
          rw [hnone]
        | some c =>
          have hsend : (b.takes spec done).takes spec [fr] = (b.takes spec done).send spec c.1 c.2 := by
            rw [SpiBus.takes,List.filterMap_cons_some hcommand]
            rfl
          rw [hsend]
          rfl
  | wireMode wire => rfl
  | write bytes => rfl
  | read n => rfl

theorem runActs_of {c : SpiBus} (h : l.Of spec b c) (acts : List Act) :
    (acts.foldl Line.act l).Of spec b (runActs spec acts c).2 := by
  induction acts generalizing l c with
  | nil => exact h
  | cons a acts ih => exact ih (h.act a)

theorem SpiBus.AtRest.eq (h : b.AtRest) : { b with wire := .normal, frame := none } = b := by
  obtain ⟨wire,frame,nor,sent⟩ := b
  obtain ⟨rfl,rfl⟩ := h
  rfl

/-- Calls from rest to rest are the commands of their frames. -/
theorem runActs_performs {acts : List Act}
    (h : acts.foldl Line.act ⟨.normal,none,[]⟩ = ⟨.normal,none,frames acts⟩) :
    Performs spec (runActs spec acts) (((frames acts).filterMap command?).map fun c => .send c.1 c.2) := by
  intro b hb
  have hstart : (⟨.normal,none,[]⟩ : Line).Of spec b b := hb.eq.symm
  have hrun := runActs_of hstart acts
  rw [h] at hrun
  have hrest : (b.takes spec (frames acts)).AtRest := by
    have hfold := @SpiBus.AtRest.foldl spec b hb (((frames acts).filterMap command?).map fun c => .send c.1 c.2)
    rwa [List.foldl_map] at hfold
  rw [hrun,List.foldl_map]
  exact hrest.eq

end Bus

/-! ## The width of the address -/

section Width
variable {spec : NorSpec} {f : SpiNorFlash} {mode : SpiNorMode} {b : SpiBus} {accepts : Sent → Bool}

/-- The address bytes that the flash expects, from the commands so far. -/
def addrBytes (accepts : Sent → Bool) (sent : List Sent) : ℕ :=
  if sent.any (fun e => e.opc == enable4bAddr && accepts e) then 4 else 3

/-- A step whose addressed frame is one for the width. -/
def Step.Right (f : SpiNorFlash) (width : ℕ) : Step → Prop
  | .addressed addr data acts => ∃ fr, frames acts = [fr] ∧ Framing f width addr data fr
  | .plain _ | .untilReady _ => True

/-- Every addressed frame of the steps is one for the width that the flash expects
when it comes. -/
def Framed (spec : NorSpec) (accepts : Sent → Bool) (f : SpiNorFlash) : List Step → SpiBus → Prop
  | [], _ => True
  | st :: rest, b => st.Right f (addrBytes accepts b.sent) ∧ Framed spec accepts f rest (st.run spec b).2

/-- No command of the list asks for 4-byte addresses. -/
def Quiet (cmds : List Cmd) : Prop := ∀ cmd ∈ cmds, ∀ wire, cmd ≠ .send wire enable4bAddr

theorem addrBytes_append (sent es : List Sent) (h : ∀ e ∈ es, e.opc ≠ enable4bAddr) :
    addrBytes accepts (sent ++ es) = addrBytes accepts sent := by
  have hnone : es.any (fun e => e.opc == enable4bAddr && accepts e) = false := by
    rw [List.any_eq_false]
    intro e he
    rw [beq_eq_false_iff_ne.mpr (h e he)]
    exact Bool.false_ne_true
  rw [addrBytes,List.any_append,hnone,Bool.or_false]
  rfl

theorem send_addrBytes {wire : WireMode} {opc : UInt8} (h : opc ≠ enable4bAddr) :
    addrBytes accepts (b.send spec wire opc).sent = addrBytes accepts b.sent := by
  apply addrBytes_append
  intro e he
  obtain rfl := List.mem_singleton.mp he
  exact h

theorem pollLoop_addrBytes (wire : WireMode) (n : ℕ) :
    addrBytes accepts (b.pollLoop spec wire n).sent = addrBytes accepts b.sent := by
  induction n generalizing b with
  | zero => rfl
  | succ n ih =>
    rw [SpiBus.pollLoop]
    split
    · exact ih.trans (send_addrBytes (by decide))
    · exact send_addrBytes (by decide)

theorem foldl_addrBytes {cmds : List Cmd} (h : Quiet cmds) :
    addrBytes accepts (cmds.foldl (SpiBus.exec spec) b).sent = addrBytes accepts b.sent := by
  induction cmds generalizing b with
  | nil => rfl
  | cons cmd cmds ih =>
    have hrest := ih (b := b.exec spec cmd) fun c hc => h c (List.mem_cons_of_mem _ hc)
    refine hrest.trans ?_
    cases cmd with
    | send wire opc =>
      apply send_addrBytes
      rintro rfl
      exact h _ List.mem_cons_self wire rfl
    | poll wire => exact pollLoop_addrBytes wire _

/-- A step that does not change the width. -/
def Step.Keeps (st : Step) : Prop := ∀ spec, ∃ cmds, Performs spec (st.run spec) cmds ∧ Quiet cmds

theorem framed_iff_forall {steps : List Step} (h : ∀ st ∈ steps, st.Keeps) (hb : b.AtRest) :
    Framed spec accepts f steps b ↔ ∀ st ∈ steps, st.Right f (addrBytes accepts b.sent) := by
  induction steps generalizing b with
  | nil => exact iff_of_true trivial (List.forall_mem_nil _)
  | cons st rest ih =>
    obtain ⟨cmds,hcmds,hquiet⟩ := h st List.mem_cons_self spec
    have hrun := hcmds b hb
    have htail := ih (fun x hx => h x (List.mem_cons_of_mem _ hx)) (hrun ▸ hb.foldl cmds)
    rw [List.forall_mem_cons,Framed,htail,hrun,foldl_addrBytes hquiet]

end Width

/-! ## The steps of the calls -/

section Calls
variable {spec : NorSpec} {f : SpiNorFlash} {mode : SpiNorMode} {b : SpiBus} {accepts : Sent → Bool}
variable {acts : List Act} {fr rest : List Transfer} {wire : WireMode} {bytes dummies data : List UInt8}
variable {bits addr width : ℕ} {opc : UInt8}

/-- Calls from rest to rest with one frame. -/
def Yields (acts : List Act) (fr : List Transfer) : Prop :=
  acts.foldl Line.act ⟨.normal,none,[]⟩ = ⟨.normal,none,[fr]⟩

theorem Yields.frames (h : Yields acts fr) : SpiNor.frames acts = [fr] := congrArg Line.done h

theorem Yields.performs (h : Yields acts fr) (hc : command? fr = some (wire,opc)) :
    Performs spec (runActs spec acts) [.send wire opc] := by
  have hacts : Performs spec (runActs spec acts) _ := runActs_performs (by rw [h.frames]; exact h)
  rwa [h.frames,List.filterMap_cons_some hc] at hacts

theorem quiet_send (h : opc ≠ enable4bAddr) : Quiet [.send wire opc] := by
  intro cmd hcmd wire' heq
  obtain rfl := List.mem_singleton.mp hcmd
  exact h (Cmd.send.inj heq).2

theorem Yields.plain_keeps (h : Yields acts fr) (hc : command? fr = some (wire,opc)) (hopc : opc ≠ enable4bAddr) :
    (Step.plain acts).Keeps := fun _ => ⟨_,h.performs hc,quiet_send hopc⟩

theorem untilReady_keeps (wire : WireMode) : (Step.untilReady wire).Keeps := by
  intro spec
  have hpoll : ∀ w, Quiet [.poll w] := by
    intro w cmd hcmd wire' heq
    obtain rfl := List.mem_singleton.mp hcmd
    cases heq
  cases wire with
  | quad => exact ⟨_,untilReady_performs qpi_readsStatus,hpoll _⟩
  | _ => exact ⟨_,untilReady_performs standard_readsStatus,hpoll _⟩

/-- What opcAddr sends behind the command: the address as far as it fits. -/
theorem opcAddr_bytes (hbits : bits = 24 ∨ bits = 32) (opc : UInt8) (addr : ℕ) :
    ∃ bs, opcAddr bits opc addr = opc :: bs ∧ bs.length = bits / 8 ∧ bigEndian bs = addr % 2 ^ bits := by
  obtain ⟨bs,hbs,hlen,hdec⟩ := bigEndian_opcAddr hbits (Nat.mod_lt addr (Nat.two_pow_pos bits)) opc []
  rw [List.append_nil,List.append_nil,opcAddr_mod hbits] at hbs
  exact ⟨bs,hbs,hlen,hdec⟩

/-- Only the width and the addresses beyond it tell a wrong frame from a right one. -/
theorem framing_iff (hbits : bits = 24 ∨ bits = 32) (hd : dummies.length = dummyBytes opc)
    (hfr : header fr = opcAddr bits opc addr ++ (dummies ++ data)) :
    Framing f width addr data fr ↔ width = bits / 8 ∧ (addr < f.size → addr < 2 ^ bits) := by
  obtain ⟨as,has,hlen,hdec⟩ := opcAddr_bytes hbits opc addr
  rw [has,List.cons_append] at hfr
  constructor
  · rintro ⟨opc',bs,dummies',hh,hw,haddr,hd'⟩
    obtain ⟨rfl,htail⟩ := List.cons.inj (hfr.symm.trans hh)
    have hsame : as.length = bs.length := by
      have hlens := congrArg List.length htail
      simp only [List.length_append] at hlens
      omega
    obtain ⟨rfl,-⟩ := List.append_inj htail hsame
    refine ⟨hw.symm.trans hlen,fun hlt => ?_⟩
    exact (Nat.mod_eq_iff_lt (Nat.two_pow_pos bits).ne').mp (hdec.symm.trans (haddr hlt))
  · rintro ⟨rfl,hlt⟩
    exact ⟨opc,as,dummies,hfr,hlen,fun ha => hdec.trans (Nat.mod_eq_of_lt (hlt ha)),hd⟩

/-- The step is an addressed frame with so many address bits. -/
structure Step.Sends (f : SpiNorFlash) (bits addr : ℕ) (st : Step) : Prop where
  keeps : st.Keeps
  right_iff : ∀ width, st.Right f width ↔ width = bits / 8 ∧ (addr < f.size → addr < 2 ^ bits)

theorem Yields.sends (h : Yields acts (.tx wire bytes :: rest)) (hbytes : bytes = opcAddr bits opc addr ++ dummies)
    (hrest : header rest = data) (hbits : bits = 24 ∨ bits = 32) (hd : dummies.length = dummyBytes opc)
    (hopc : opc ≠ enable4bAddr) : (Step.addressed addr data acts).Sends f bits addr := by
  constructor
  · intro spec
    have hc : command? (.tx wire bytes :: rest) = some (wire,opc) := by
      obtain ⟨as,has,-⟩ := opcAddr_bytes hbits opc addr
      rw [hbytes,has]
      rfl
    exact ⟨_,h.performs hc,quiet_send hopc⟩
  · intro width
    have hfr : header (.tx wire bytes :: rest) = opcAddr bits opc addr ++ (dummies ++ data) := by
      rw [header,hbytes,hrest,List.append_assoc]
    rw [← framing_iff hbits hd hfr,Step.Right,h.frames]
    constructor
    · rintro ⟨fr,heq,hfr⟩
      obtain rfl := List.singleton_inj.mp heq
      exact hfr
    · exact fun hfr => ⟨_,rfl,hfr⟩

theorem operation_keeps {w : WireMode} {body : Step} (hw : w = .normal ∨ w = .quad) (h : body.Keeps) :
    ∀ st ∈ operationSteps w body, st.Keeps := by
  have hlatch : ∀ opc, opc ≠ enable4bAddr → (Step.plain (onWire w (commandActs [opc]))).Keeps := by
    intro opc hopc
    rcases hw with rfl | rfl
    · have hframe : Yields (onWire .normal (commandActs [opc])) [.tx .normal [opc]] := rfl
      exact hframe.plain_keeps rfl hopc
    · have hframe : Yields (onWire .quad (commandActs [opc])) [.tx .quad [opc]] := rfl
      exact hframe.plain_keeps rfl hopc
  simp only [operationSteps,List.forall_mem_cons]
  exact ⟨hlatch _ (by decide),h,untilReady_keeps w,hlatch _ (by decide),List.forall_mem_nil _⟩

/-- The steps are addressed frames with so many bits, at the addresses of the list, and
others that carry no address. -/
structure Address (f : SpiNorFlash) (bits : ℕ) (addrs : List ℕ) (steps : List Step) : Prop where
  keeps : ∀ st ∈ steps, st.Keeps
  right_iff : ∀ width, (∀ st ∈ steps, st.Right f width) ↔
    ∀ addr ∈ addrs, width = bits / 8 ∧ (addr < f.size → addr < 2 ^ bits)

theorem Step.Sends.address {st : Step} (h : st.Sends f bits addr) : Address f bits [addr] [st] := by
  constructor
  · exact List.forall_mem_singleton.mpr h.keeps
  · intro width
    rw [List.forall_mem_singleton,List.forall_mem_singleton,h.right_iff]

theorem Step.Sends.operation {st : Step} {w : WireMode} (h : st.Sends f bits addr) (hw : w = .normal ∨ w = .quad) :
    Address f bits [addr] (operationSteps w st) := by
  constructor
  · exact operation_keeps hw h.keeps
  · intro width
    rw [List.forall_mem_singleton,← h.right_iff]
    simp only [operationSteps,List.forall_mem_cons]
    exact ⟨fun hall => hall.2.1,fun hst => ⟨trivial,hst,trivial,trivial,List.forall_mem_nil _⟩⟩

theorem Address.flatMap {α : Type} {xs : List α} {steps : α → List Step} {addr : α → ℕ}
    (h : ∀ x ∈ xs, Address f bits [addr x] (steps x)) : Address f bits (xs.map addr) (xs.flatMap steps) := by
  constructor
  · intro st hst
    obtain ⟨x,hx,hst⟩ := List.mem_flatMap.mp hst
    exact (h x hx).keeps st hst
  · intro width
    rw [List.forall_mem_flatMap,List.forall_mem_map]
    exact forall₂_congr fun x hx => ((h x hx).right_iff width).trans (List.forall_mem_singleton)

theorem mode_wire (mode : SpiNorMode) : mode.wire = .normal ∨ mode.wire = .quad := by
  cases mode <;> decide

theorem Yields.sends_bare (h : Yields acts (.tx wire (opcAddr bits opc addr) :: rest)) (hrest : header rest = data)
    (hbits : bits = 24 ∨ bits = 32) (hd : dummyBytes opc = 0) (hopc : opc ≠ enable4bAddr) :
    (Step.addressed addr data acts).Sends f bits addr :=
  h.sends (List.append_nil _).symm hrest hbits hd.symm hopc

theorem Yields.sends_dummy (h : Yields acts (.tx wire (opcAddr bits opc addr ++ [0]) :: rest))
    (hrest : header rest = data) (hbits : bits = 24 ∨ bits = 32) (hd : dummyBytes opc = 1)
    (hopc : opc ≠ enable4bAddr) : (Step.addressed addr data acts).Sends f bits addr :=
  h.sends rfl hrest hbits hd.symm hopc

section Shapes
variable (bytes buf : List UInt8) (n : ℕ)

theorem command_yields (mode : SpiNorMode) :
    Yields (onWire mode.wire (commandActs bytes)) [.tx mode.wire bytes] := by
  cases mode <;> rfl

theorem read_yields : Yields (readActs bytes n) [.tx .normal bytes,.rx .normal n] ∧
    Yields (onWire .quad (readActs bytes n)) [.tx .quad bytes,.rx .quad n] := ⟨rfl,rfl⟩

theorem data_yields : Yields (dataActs bytes buf) [.tx .normal bytes,.tx .normal buf] ∧
    Yields (onWire .quad (dataActs bytes buf)) [.tx .quad bytes,.tx .quad buf] := ⟨rfl,rfl⟩

theorem wideRead_yields (wire : WireMode) :
    Yields (wideReadActs wire bytes n) [.tx .normal bytes,.rx wire n] := rfl

theorem quadData_yields : Yields (quadDataActs bytes buf) [.tx .normal bytes,.tx .quad buf] := rfl

end Shapes

theorem read_address (addr n : ℕ) : Address f f.addrBits [addr] (readSteps f addr n mode) := by
  have hbits := f.addrBits_cases
  cases mode with
  | normal => exact ((read_yields _ n).1.sends_bare rfl hbits rfl (by decide)).address
  | dual => exact ((wideRead_yields _ n _).sends_dummy rfl hbits rfl (by decide)).address
  | quad => exact ((wideRead_yields _ n _).sends_dummy rfl hbits rfl (by decide)).address
  | qpi => exact ((read_yields _ n).2.sends_dummy rfl hbits rfl (by decide)).address

theorem program_address (addr : ℕ) (buf : List UInt8) :
    Address f f.addrBits [addr] (programSteps f addr buf mode) := by
  have hbits := f.addrBits_cases
  have hbuf : ∀ w, header [.tx w buf] = buf := fun w => List.append_nil buf
  cases mode with
  | normal | dual =>
    exact ((data_yields _ buf).1.sends_bare (hbuf _) hbits rfl (by decide)).operation (Or.inl rfl)
  | quad =>
    have hbody : Yields (quadDataActs (opcAddr f.addrBits quadPageProgram addr) buf) _ := quadData_yields _ buf
    obtain ⟨hkeeps,hright⟩ : Address f f.addrBits [addr] _ :=
      (hbody.sends_bare (hbuf _) hbits rfl (by decide)).operation (Or.inl rfl)
    constructor
    · refine List.forall_mem_cons.mpr ⟨fun spec => ⟨[],?_,List.forall_mem_nil _⟩,hkeeps⟩
      rintro ⟨wire,frame,nor,sent⟩ hb
      obtain ⟨rfl,rfl⟩ := hb
      rfl
    · intro width
      rw [programSteps,List.forall_mem_cons,hright]
      exact and_iff_right trivial
  | qpi => exact ((data_yields _ buf).2.sends_bare (hbuf _) hbits rfl (by decide)).operation (Or.inr rfl)

theorem erase_address (addr : ℕ) (opc : UInt8) (hd : dummyBytes opc = 0) (hopc : opc ≠ enable4bAddr) :
    Address f f.addrBits [addr] (eraseSteps f addr opc mode) :=
  ((command_yields _ mode).sends_bare rfl f.addrBits_cases hd hopc).operation (mode_wire mode)

/-- The address bits of a call, and the addresses of its commands. -/
def NorOp.addresses (f : SpiNorFlash) : NorOp → ℕ × List ℕ
  | .read addr _ | .sectorErase addr | .blockErase addr => (f.addrBits,[addr])
  | .write addr buf => (f.addrBits,(spiNorWrite f addr buf.length).map ProgramCall.addr)
  | .chipErase => (f.addrBits,[])
  | .eraseSecurityReg addr | .programSecurityReg addr _ | .readSecurityReg addr _ => (24,[addr])

theorem op_address (op : NorOp) : Address f (op.addresses f).1 (op.addresses f).2 (op.steps f mode) := by
  cases op with
  | read addr n => exact read_address addr n
  | write addr buf => exact Address.flatMap fun c _ => program_address c.addr (c.data buf)
  | sectorErase addr => exact erase_address addr _ rfl (by decide)
  | blockErase addr => exact erase_address addr _ rfl (by decide)
  | chipErase =>
    have hbody : Yields (onWire mode.wire (commandActs [SpiNor.chipErase])) _ := command_yields _ mode
    constructor
    · exact operation_keeps (mode_wire mode) (hbody.plain_keeps rfl (by decide))
    · intro width
      refine iff_of_true ?_ (List.forall_mem_nil _)
      simp only [NorOp.steps,operationSteps,List.forall_mem_cons]
      exact ⟨trivial,trivial,trivial,trivial,List.forall_mem_nil _⟩
  | eraseSecurityReg addr =>
    exact ((command_yields _ .normal).sends_bare rfl (Or.inl rfl) rfl (by decide)).operation (Or.inl rfl)
  | programSecurityReg addr buf =>
    exact ((data_yields _ buf).1.sends_bare (List.append_nil buf) (Or.inl rfl) rfl (by decide)).operation (Or.inl rfl)
  | readSecurityReg addr n => exact ((read_yields _ n).1.sends_dummy rfl (Or.inl rfl) rfl (by decide)).address

theorem writeLoop_ne_nil (f : SpiNorFlash) (addr off len : ℕ) : writeLoop f addr off len ≠ [] := by
  rw [writeLoop]
  split <;> exact List.cons_ne_nil _ _

theorem spiNorWrite_ne_nil (f : SpiNorFlash) (addr len : ℕ) : spiNorWrite f addr len ≠ [] := by
  unfold spiNorWrite
  dsimp only
  split
  · exact List.cons_ne_nil _ _
  · exact writeLoop_ne_nil f addr 0 len

/-- What a call with `width` address bytes needs: none, three or those of the part. -/
def NorOp.Suits (f : SpiNorFlash) (width : ℕ) : NorOp → Prop
  | .chipErase => True
  | .eraseSecurityReg addr | .programSecurityReg addr _ | .readSecurityReg addr _ =>
    width = 3 ∧ (addr < f.size → addr < 2 ^ 24)
  | .read .. | .write .. | .sectorErase _ | .blockErase _ => width = f.addrBits / 8

theorem lt_addrBits (h : addr < f.size) : addr < 2 ^ f.addrBits := by
  have hsize := f.size_lt
  unfold SpiNorFlash.addrBits
  split <;> omega

theorem suits_iff (op : NorOp) (width : ℕ) : op.Suits f width ↔
    ∀ addr ∈ (op.addresses f).2, width = (op.addresses f).1 / 8 ∧ (addr < f.size → addr < 2 ^ (op.addresses f).1) := by
  have hone : ∀ addr : ℕ, (∀ a ∈ [addr], width = f.addrBits / 8 ∧ (a < f.size → a < 2 ^ f.addrBits)) ↔
      width = f.addrBits / 8 := fun addr => by
    rw [List.forall_mem_singleton]
    exact and_iff_left lt_addrBits
  cases op with
  | read addr n => exact (hone addr).symm
  | sectorErase addr | blockErase addr => exact (hone addr).symm
  | write addr buf =>
    constructor
    · exact fun h _ _ => ⟨h,lt_addrBits⟩
    · intro h
      obtain ⟨c,hc⟩ := List.exists_mem_of_ne_nil _ (spiNorWrite_ne_nil f addr buf.length)
      exact (h c.addr (List.mem_map_of_mem hc)).1
  | chipErase => exact iff_of_true trivial (List.forall_mem_nil _)
  | eraseSecurityReg addr | programSecurityReg addr _ | readSecurityReg addr _ =>
    simp only [NorOp.Suits,NorOp.addresses,List.forall_mem_singleton,Nat.reduceDiv]

theorem framed_op_iff (hb : b.AtRest) (op : NorOp) :
    Framed spec accepts f (op.steps f mode) b ↔ op.Suits f (addrBytes accepts b.sent) := by
  have haddress : Address f (op.addresses f).1 (op.addresses f).2 (op.steps f mode) := op_address op
  rw [framed_iff_forall haddress.keeps hb,haddress.right_iff,suits_iff]

end Calls

/-! ## The sessions -/

section Sessions
variable (spec : NorSpec) (f : SpiNorFlash) (mode : SpiNorMode)

/-- Whole sessions, and the calls so far of one that is open. -/
def inSession (past : List (List NorOp)) (ops : List NorOp) : Host Unit := do
  past.forM (session spec f mode)
  spiNorOpen spec f mode
  ops.forM (NorOp.run spec f mode)

def inSessionCmds (past : List (List NorOp)) (ops : List NorOp) : List Cmd :=
  past.flatMap (sessionCmds f mode) ++ (openCmds f mode ++ ops.flatMap (NorOp.cmds f mode))

variable {spec f mode} {accepts : Sent → Bool} {past : List (List NorOp)} {ops : List NorOp}

theorem inSession_performs : Performs spec (inSession spec f mode past ops) (inSessionCmds f mode past ops) :=
  (Performs.forM fun ops _ => session_performs ops).bind fun _ =>
    open_performs.bind fun _ => Performs.forM fun op _ => op_performs op

theorem inSession_eq (wire : WireMode) (nor : Nor) :
    (inSession spec f mode past ops ⟨wire,none,nor,[]⟩).2 =
      (inSessionCmds f mode past ops).foldl (SpiBus.exec spec) ⟨.normal,none,nor,[]⟩ := by
  refine Eq.trans ?_ (inSession_performs ⟨.normal,none,nor,[]⟩ ⟨rfl,rfl⟩)
  cases past <;> rfl

theorem op_quiet (op : NorOp) : Quiet (op.cmds f mode) := by
  have hoperation : ∀ w opc, opc ≠ enable4bAddr → Quiet (operationCmds w opc) := by
    intro w opc hopc
    simp only [Quiet,operationCmds,List.forall_mem_cons]
    refine ⟨?_,?_,?_,?_,List.forall_mem_nil _⟩ <;> intro wire heq <;> cases heq
    exact hopc rfl
  have hprogram : mode.programOpc ≠ enable4bAddr := by cases mode <;> decide
  cases op with
  | read addr n => exact quiet_send (by cases mode <;> decide)
  | write addr buf =>
    intro cmd hcmd
    obtain ⟨_,-,hcmd⟩ := List.mem_flatMap.mp hcmd
    exact hoperation _ _ hprogram cmd hcmd
  | sectorErase addr | blockErase addr | chipErase | eraseSecurityReg addr | programSecurityReg addr buf =>
    exact hoperation _ _ (by decide)
  | readSecurityReg addr n => exact quiet_send (by decide)

theorem Quiet.append {cs ds : List Cmd} (hc : Quiet cs) (hd : Quiet ds) : Quiet (cs ++ ds) :=
  List.forall_mem_append.mpr ⟨hc,hd⟩

theorem Quiet.flatMap {α : Type} {xs : List α} {cmds : α → List Cmd} (h : ∀ x ∈ xs, Quiet (cmds x)) :
    Quiet (xs.flatMap cmds) := by
  intro cmd hcmd
  obtain ⟨x,hx,hcmd⟩ := List.mem_flatMap.mp hcmd
  exact h x hx cmd hcmd

/-- A part with 3-byte addresses is never told to take four. -/
theorem inSession_quiet (h : f.addrBits ≠ 32) : Quiet (inSessionCmds f mode past ops) := by
  have hopen : Quiet (openCmds f mode) := by
    unfold openCmds
    rw [if_neg h,List.append_nil]
    cases mode <;> simp [Quiet,enableCmds,enable4bAddr,releasePowerDown,readStatusReg,writeEnable,
      writeStatusReg,writeDisable,enableQpi]
  have hclose : Quiet (closeCmds mode) := by
    cases mode <;> simp [Quiet,closeCmds,disableQpi,enable4bAddr]
  have hops : ∀ ops : List NorOp, Quiet (ops.flatMap (NorOp.cmds f mode)) := fun _ =>
    Quiet.flatMap fun op _ => op_quiet op
  have hsession : ∀ ops ∈ past, Quiet (sessionCmds f mode ops) := fun ops _ =>
    hopen.append ((hops ops).append hclose)
  exact (Quiet.flatMap hsession).append (hopen.append (hops ops))

/-- At every call of every session each address has the width that the flash expects,
exactly if the part is no larger than 16 MiB or the call suits what it expects. -/
theorem framed_iff (spec : NorSpec) (accepts : Sent → Bool) (f : SpiNorFlash) (mode : SpiNorMode)
    (past : List (List NorOp)) (ops : List NorOp) (op : NorOp) (wire : WireMode) (nor : Nor) :
    Framed spec accepts f (op.steps f mode) (inSession spec f mode past ops ⟨wire,none,nor,[]⟩).2 ↔
      f.size ≤ 0x1000000 ∨
        op.Suits f (addrBytes accepts (inSession spec f mode past ops ⟨wire,none,nor,[]⟩).2.sent) := by
  rw [inSession_eq]
  have hrest : ((inSessionCmds f mode past ops).foldl (SpiBus.exec spec) ⟨.normal,none,nor,[]⟩).AtRest :=
    SpiBus.AtRest.foldl ⟨rfl,rfl⟩ _
  rw [framed_op_iff hrest]
  refine (or_iff_right_of_imp fun hsize => ?_).symm
  have h24 : f.addrBits = 24 := if_neg (not_lt.mpr hsize)
  have hquiet : Quiet (inSessionCmds f mode past ops) := inSession_quiet (by rw [h24]; decide)
  rw [foldl_addrBytes hquiet]
  cases op with
  | chipErase => trivial
  | eraseSecurityReg addr | programSecurityReg addr buf | readSecurityReg addr n =>
    exact ⟨rfl,fun hlt => by omega⟩
  | read addr n | write addr buf | sectorErase addr | blockErase addr =>
    rw [NorOp.Suits,h24]
    rfl

end Sessions

/-! ## A flash that heeds the commands of its mode -/

section InMode
variable {latency : ℕ → ℕ} {status : BitVec 7} {f : SpiNorFlash} {mode : SpiNorMode} {b : SpiBus}
variable {past : List (List NorOp)} {ops : List NorOp}

def inMode (e : Sent) : Bool := e.InMode

/-- The mode of the flash behind a command, which it may not heed. -/
def Cmd.heeded (qpi : Bool) (cmd : Cmd) : Bool := if cmd.wire = modeWire qpi then cmd.qpiAfter qpi else qpi

/-- Some command 0xB7 of the list reaches the flash in its mode. -/
def enters4b : Bool → List Cmd → Bool
  | _, [] => false
  | qpi, cmd :: cmds => decide (cmd = .send (modeWire qpi) enable4bAddr) || enters4b (cmd.heeded qpi) cmds

theorem enters4b_append (qpi : Bool) (cs ds : List Cmd) :
    enters4b qpi (cs ++ ds) = (enters4b qpi cs || enters4b (cs.foldl Cmd.heeded qpi) ds) := by
  induction cs generalizing qpi with
  | nil => rfl
  | cons c cs ih =>
    rw [List.cons_append,enters4b,enters4b,ih,Bool.or_assoc]
    rfl

theorem enters4b_quiet {cmds : List Cmd} (h : Quiet cmds) (qpi : Bool) : enters4b qpi cmds = false := by
  induction cmds generalizing qpi with
  | nil => rfl
  | cons cmd cmds ih =>
    rw [enters4b,decide_eq_false (h cmd List.mem_cons_self _),Bool.false_or]
    exact ih (fun c hc => h c (List.mem_cons_of_mem _ hc)) _

theorem exec_heeded (cmd : Cmd) :
    (b.exec (modeSpec latency status) cmd).nor.qpi = cmd.heeded b.nor.qpi := by
  cases cmd with
  | send wire opc => exact send_qpi wire opc
  | poll wire =>
    refine (pollLoop_qpi wire _).trans ?_
    unfold Cmd.heeded
    split <;> rfl

theorem exec_addrBytes (cmd : Cmd) :
    addrBytes inMode (b.exec (modeSpec latency status) cmd).sent =
      if cmd = .send (modeWire b.nor.qpi) enable4bAddr then 4 else addrBytes inMode b.sent := by
  cases cmd with
  | poll wire =>
    rw [if_neg (fun heq => by cases heq)]
    exact pollLoop_addrBytes wire _
  | send wire opc =>
    by_cases hopc : opc = enable4bAddr
    · subst hopc
      show addrBytes inMode (b.sent ++ [_]) = _
      by_cases hwire : wire = modeWire b.nor.qpi
      · rw [if_pos (by rw [hwire]),addrBytes,List.any_append]
        simp [inMode,Sent.InMode,hwire]
      · rw [if_neg (fun heq => hwire (Cmd.send.inj heq).1),addrBytes,List.any_append]
        simp [inMode,Sent.InMode,hwire,addrBytes]
    · rw [if_neg (fun heq => hopc (Cmd.send.inj heq).2)]
      exact send_addrBytes hopc

theorem foldl_addrBytes_eq (cmds : List Cmd) :
    addrBytes inMode (cmds.foldl (SpiBus.exec (modeSpec latency status)) b).sent =
      if enters4b b.nor.qpi cmds then 4 else addrBytes inMode b.sent := by
  induction cmds generalizing b with
  | nil => rfl
  | cons cmd cmds ih =>
    rw [List.foldl_cons,ih,exec_heeded,exec_addrBytes,enters4b]
    by_cases hcmd : cmd = .send (modeWire b.nor.qpi) enable4bAddr
    · rw [decide_eq_true hcmd,Bool.true_or,if_pos rfl,if_pos hcmd]
      split <;> rfl
    · rw [decide_eq_false hcmd,Bool.false_or,if_neg hcmd]

theorem enters4b_of_inMode {qpi : Bool} {cmds : List Cmd} (h : ∀ cmd ∈ cmds, cmd.inMode qpi)
    (hmem : .send (modeWire qpi) enable4bAddr ∈ cmds) : enters4b qpi cmds = true := by
  induction cmds with
  | nil => exact absurd hmem List.not_mem_nil
  | cons cmd cmds ih =>
    obtain ⟨hwire,hqpi⟩ := h cmd List.mem_cons_self
    rw [enters4b,Cmd.heeded,if_pos hwire,hqpi]
    rcases List.mem_cons.mp hmem with rfl | hmem
    · rw [decide_eq_true rfl,Bool.true_or]
    · rw [ih (fun c hc => h c (List.mem_cons_of_mem _ hc)) hmem,Bool.or_true]

/-- A QPI session enters QPI mode before it asks for 4-byte addresses, and leaves it. -/
theorem qpi_open (h : f.addrBits = 32) : enters4b false (openCmds f .qpi) = false ∧
    (openCmds f .qpi).foldl Cmd.heeded false = true := by
  unfold openCmds
  rw [if_pos h]
  decide

theorem qpi_session (h : f.addrBits = 32) (ops : List NorOp) : enters4b false (sessionCmds f .qpi ops) = false ∧
    (sessionCmds f .qpi ops).foldl Cmd.heeded false = false := by
  have hops : ∀ q, enters4b q (ops.flatMap (NorOp.cmds f .qpi)) = false :=
    enters4b_quiet (Quiet.flatMap fun op _ => op_quiet op)
  have hclose : ∀ q, enters4b q (closeCmds .qpi) = false ∧ (closeCmds .qpi).foldl Cmd.heeded q = false := by
    decide
  constructor
  · rw [sessionCmds,enters4b_append,enters4b_append,(qpi_open h).1,hops,(hclose _).1]
    rfl
  · rw [sessionCmds,List.foldl_append,List.foldl_append]
    exact (hclose _).2

theorem qpi_past (h : f.addrBits = 32) (past : List (List NorOp)) :
    enters4b false (past.flatMap (sessionCmds f .qpi)) = false ∧
      (past.flatMap (sessionCmds f .qpi)).foldl Cmd.heeded false = false := by
  induction past with
  | nil => exact ⟨rfl,rfl⟩
  | cons ops past ih =>
    obtain ⟨hnone,hleft⟩ := qpi_session h ops
    rw [List.flatMap_cons,enters4b_append,List.foldl_append,hnone,hleft]
    exact ih

/-- A large part takes 4-byte addresses in every session except one of a QPI part. -/
theorem addrBytes_inMode (h : f.addrBits = 32) (wire : WireMode) {nor : Nor} (hnor : nor.qpi = false) :
    addrBytes inMode (inSession (modeSpec latency status) f mode past ops ⟨wire,none,nor,[]⟩).2.sent =
      if mode = .qpi then 3 else 4 := by
  rw [inSession_eq,foldl_addrBytes_eq,hnor]
  by_cases hmode : mode = .qpi
  · subst hmode
    have hpast := qpi_past h past
    have hops : enters4b false (inSessionCmds f .qpi past ops) = false := by
      rw [inSessionCmds,enters4b_append,hpast.1,hpast.2,enters4b_append,(qpi_open h).1,
        enters4b_quiet (Quiet.flatMap fun op _ => op_quiet op)]
      rfl
    rw [hops]
    rfl
  · have hall : ∀ cmd ∈ inSessionCmds f mode past ops, cmd.inMode false := by
      refine List.forall_mem_append.mpr ⟨fun cmd hcmd => ?_,List.forall_mem_append.mpr
        ⟨openCmds_inMode hmode,fun cmd hcmd => ?_⟩⟩
      · obtain ⟨ops,-,hcmd⟩ := List.mem_flatMap.mp hcmd
        exact sessionCmds_inMode hmode ops cmd hcmd
      · obtain ⟨op,-,hcmd⟩ := List.mem_flatMap.mp hcmd
        have hop := @op_inMode f mode op (absurd · hmode) cmd hcmd
        rwa [decide_eq_false hmode] at hop
    have hmem : Cmd.send .normal enable4bAddr ∈ openCmds f mode := by
      unfold openCmds
      rw [if_pos h]
      exact List.mem_append_right _ List.mem_cons_self
    rw [enters4b_of_inMode hall (List.mem_append_right _ (List.mem_append_left _ hmem)),if_neg hmode]
    rfl

/-- The address width on a large part by the mode: a flash that heeds the commands of its
mode gets right addresses except for the security registers and in QPI mode. -/
theorem framed_inMode_iff (hsize : 0x1000000 < f.size) (wire : WireMode) {nor : Nor} (hnor : nor.qpi = false)
    (op : NorOp) :
    Framed (modeSpec latency status) inMode f (op.steps f mode)
        (inSession (modeSpec latency status) f mode past ops ⟨wire,none,nor,[]⟩).2 ↔
      op.Suits f (if mode = .qpi then 3 else 4) := by
  have h32 : f.addrBits = 32 := if_pos hsize
  rw [framed_op_iff,addrBytes_inMode h32 wire hnor]
  rw [inSession_eq]
  exact SpiBus.AtRest.foldl ⟨rfl,rfl⟩ _

end InMode

/-- A 32 MiB part is sent three bytes for a security register where it takes four, and in
QPI mode four for a read where it takes three. -/
theorem misframed_large :
    ¬ Framed (modeSpec (fun _ => 0) 0) inMode largeFlash (NorOp.steps largeFlash .normal (.eraseSecurityReg 0x1000))
        (inSession (modeSpec (fun _ => 0) 0) largeFlash .normal [] [] ⟨.normal,none,⟨false,0,0⟩,[]⟩).2 ∧
      ¬ Framed (modeSpec (fun _ => 0) 0) inMode largeFlash (NorOp.steps largeFlash .qpi (.read 0 4))
        (inSession (modeSpec (fun _ => 0) 0) largeFlash .qpi [] [] ⟨.normal,none,⟨false,0,0⟩,[]⟩).2 := by
  have hlarge : 0x1000000 < largeFlash.size := by decide
  rw [framed_inMode_iff hlarge _ rfl,framed_inMode_iff hlarge _ rfl]
  constructor
  · exact fun h => absurd h.1 (by decide)
  · exact fun h => absurd (show 3 = 4 from h) (by decide)

end FmacSdk.SpiNor
