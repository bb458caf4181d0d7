import FmacSdk.SpiNor.Write

/-! # The primitives of spi_nor_bus.c on the wire

Chip select, wire mode and transfers as the SPI driver sees them, and a flash
that takes the first byte between two edges of the chip select for a command. The
primitives follow the source; the XIP mode, which has no commands, is left out.
-/
namespace FmacSdk.SpiNor

def writeStatusReg : UInt8 := 0x01
def readData : UInt8 := 0x03
def readStatusReg : UInt8 := 0x05
def sectorErase : UInt8 := 0x20
def quadPageProgram : UInt8 := 0x32
def enableQpi : UInt8 := 0x38
def fastReadDualOutput : UInt8 := 0x3B
def programSecurityReg : UInt8 := 0x42
def eraseSecurityReg : UInt8 := 0x44
def readSecurityReg : UInt8 := 0x48
def fastReadQuadOutput : UInt8 := 0x6B
def releasePowerDown : UInt8 := 0xAB
def enable4bAddr : UInt8 := 0xB7
def chipErase : UInt8 := 0xC7
def blockErase : UInt8 := 0xD8
def fastReadQuadIo : UInt8 := 0xEB
def disableQpi : UInt8 := 0xFF

def SPI_NOR_STATUS_BUSY : BitVec 8 := 0x01
def SPI_NOR_STATUS2_QUAD_ENABLE : BitVec 16 := 0x200

/-- enum spi_wire_mode -/
inductive WireMode
  | single | normal | dual | quad
deriving DecidableEq, Repr

/-- The flash: whether it is in QPI mode, for how many polls it still reads busy,
and how many operations it has started. -/
structure Nor where
  qpi : Bool
  busy : ℕ
  started : ℕ
deriving DecidableEq, Repr

/-- Which commands the flash heeds, for how many polls its operations keep it
busy, and the bits of its status register above the busy bit. -/
structure NorSpec where
  heeds : WireMode → Nor → UInt8 → Bool
  latency : ℕ → ℕ
  status : BitVec 7

/-- Page program, erase and status-register write. -/
def startsOperation (opc : UInt8) : Bool :=
  opc ∈ [pageProgram,quadPageProgram,writeStatusReg,sectorErase,blockErase,chipErase,
    eraseSecurityReg,programSecurityReg]

def Nor.exec (spec : NorSpec) (wire : WireMode) (c : Nor) (opc : UInt8) : Nor :=
  if spec.heeds wire c opc then
    if opc = enableQpi then { c with qpi := true }
    else if opc = disableQpi then { c with qpi := false }
    else if opc = readStatusReg then { c with busy := c.busy - 1 }
    else if startsOperation opc then { c with busy := spec.latency c.started, started := c.started + 1 }
    else c
  else c

/-- The status register; nothing answers to a command that is not heeded. -/
def Nor.statusRegister (spec : NorSpec) (wire : WireMode) (c : Nor) : BitVec 8 :=
  if spec.heeds wire c readStatusReg then spec.status ++ (if c.busy ≠ 0 then 1 else 0 : BitVec 1) else 0

inductive Transfer
  | tx (wire : WireMode) (bytes : List UInt8)
  | rx (wire : WireMode) (n : ℕ)

/-- The command of the transfers between two edges of the chip select. -/
def command? : List Transfer → Option (WireMode × UInt8)
  | .tx wire (opc :: _) :: _ => some (wire,opc)
  | _ => none

/-- A command as it was sent, with the state of the flash at that moment. -/
structure Sent where
  opc : UInt8
  wire : WireMode
  qpi : Bool
  busy : Bool
deriving DecidableEq, Repr

/-- The wire mode of the SPI device, the transfers since the chip select went
down, the flash, and the commands so far. -/
structure SpiBus where
  wire : WireMode
  frame : Option (List Transfer)
  nor : Nor
  sent : List Sent

abbrev Host := StateM SpiBus

variable (spec : NorSpec)

/-- The flash takes a command that was sent on `wire`. -/
def SpiBus.send (b : SpiBus) (wire : WireMode) (opc : UInt8) : SpiBus :=
  { b with
    nor := b.nor.exec spec wire opc
    sent := b.sent ++ [⟨opc,wire,b.nor.qpi,b.nor.busy ≠ 0⟩] }

def spiSetCs (value : Bool) : Host Unit := modify fun b =>
  if value then
    match b.frame.bind command? with
    | some (wire,opc) => { b.send spec wire opc with frame := none }
    | none => { b with frame := none }
  else { b with frame := some [] }

def spiWireModeSet (wire : WireMode) : Host Unit := modify fun b => { b with wire := wire }

def SpiBus.transfer (b : SpiBus) (t : Transfer) : SpiBus := { b with frame := b.frame.map (· ++ [t]) }

def spiWrite (bytes : List UInt8) : Host Unit := modify fun b => b.transfer (.tx b.wire bytes)

/-- The first byte that is read, where it is a status. -/
def spiRead (n : ℕ) : Host (BitVec 8) := do
  let b ← get
  set (b.transfer (.rx b.wire n))
  return match b.frame.bind command? with
    | some (wire,_) => b.nor.statusRegister spec wire
    | none => 0

/-! ## Standard SPI instructions -/

def command (bytes : List UInt8) : Host Unit := do
  spiSetCs spec false
  spiWrite bytes
  spiSetCs spec true

def readCommand (bytes : List UInt8) (n : ℕ) : Host (BitVec 8) := do
  spiSetCs spec false
  spiWrite bytes
  let r ← spiRead spec n
  spiSetCs spec true
  return r

def dataCommand (bytes buf : List UInt8) : Host Unit := do
  spiSetCs spec false
  spiWrite bytes
  spiWrite buf
  spiSetCs spec true

/-- `while (readStatus() & SPI_NOR_STATUS_BUSY);` with at most `n` calls. -/
def pollStatus (readStatus : Host (BitVec 8)) : ℕ → Host Unit
  | 0 => pure ()
  | n + 1 => do
    let status ← readStatus
    if status &&& SPI_NOR_STATUS_BUSY ≠ 0 then pollStatus readStatus n

/-- A poll that reads busy takes one from the count, so that these calls suffice. -/
def untilReady (readStatus : Host (BitVec 8)) : Host Unit := do
  let b ← get
  pollStatus readStatus (b.nor.busy + 1)

def spiNorStandardWriteDisable : Host Unit := command spec [writeDisable]
def spiNorStandardWriteEnable : Host Unit := command spec [writeEnable]
def spiNorStandardReadStatusRegister : Host (BitVec 8) := readCommand spec [readStatusReg] 1

def spiNorStandardWriteStatusRegister (data : BitVec 16) : Host Unit := do
  spiNorStandardWriteEnable spec
  command spec [writeStatusReg,UInt8.ofBitVec (data.setWidth 8),UInt8.ofBitVec ((data >>> 8).setWidth 8)]
  spiNorStandardWriteDisable spec

/-- The sequence of every program and erase primitive around its command. -/
def standardOperation (body : Host Unit) : Host Unit := do
  spiNorStandardWriteEnable spec
  body
  untilReady (spiNorStandardReadStatusRegister spec)
  spiNorStandardWriteDisable spec

variable (f : SpiNorFlash) (addr : ℕ)

def spiNorStandardReadData (n : ℕ) : Host Unit := do
  let _ ← readCommand spec (opcAddr f.addrBits readData addr) n

def spiNorStandardPageProgram (buf : List UInt8) : Host Unit :=
  standardOperation spec (dataCommand spec (opcAddr f.addrBits pageProgram addr) buf)

def spiNorStandardSectorErase : Host Unit :=
  standardOperation spec (command spec (opcAddr f.addrBits sectorErase addr))

def spiNorStandardBlockErase : Host Unit :=
  standardOperation spec (command spec (opcAddr f.addrBits blockErase addr))

def spiNorStandardChipErase : Host Unit := standardOperation spec (command spec [chipErase])

def spiNorStandardEnterQpi : Host Unit := command spec [enableQpi]

/-- `bits_of_addr`, which the function sets to 32, is 32 wherever it is called. -/
def spiNorStandardEnter4bAddr : Host Unit := command spec [enable4bAddr]

def spiNorStandardReleasePowerDown : Host Unit := command spec [releasePowerDown]

/-- The three address bytes do not depend on `bits_of_addr`. -/
def spiNorStandardEraseSecurityReg : Host Unit :=
  standardOperation spec (command spec (opcAddr 24 eraseSecurityReg addr))

def spiNorStandardProgramSecurityReg (buf : List UInt8) : Host Unit :=
  standardOperation spec (dataCommand spec (opcAddr 24 programSecurityReg addr) buf)

def spiNorStandardReadSecurityReg (n : ℕ) : Host Unit := do
  let _ ← readCommand spec (opcAddr 24 readSecurityReg addr ++ [0]) n

def spiNorStandardOpen : Host Unit := if f.addrBits = 32 then spiNorStandardEnter4bAddr spec else pure ()

/-! ## Dual and quad SPI instructions -/

/-- Command, address and dummy byte on one wire, the data on `wire`. -/
def wideRead (wire : WireMode) (bytes : List UInt8) (n : ℕ) : Host Unit := do
  spiSetCs spec false
  spiWireModeSet .normal
  spiWrite bytes
  spiWireModeSet wire
  let _ ← spiRead spec n
  spiWireModeSet .normal
  spiSetCs spec true

def spiNorDualFastReadDualOutput (n : ℕ) : Host Unit :=
  wideRead spec .dual (opcAddr f.addrBits fastReadDualOutput addr ++ [0]) n

def spiNorQuadFastReadQuadOutput (n : ℕ) : Host Unit :=
  wideRead spec .quad (opcAddr f.addrBits fastReadQuadOutput addr ++ [0]) n

def spiNorQuadOpen : Host Unit := do
  spiNorStandardReleasePowerDown spec
  let status ← spiNorStandardReadStatusRegister spec
  spiNorStandardWriteStatusRegister spec (status.setWidth 16 ||| SPI_NOR_STATUS2_QUAD_ENABLE)
  if f.addrBits = 32 then spiNorStandardEnter4bAddr spec else pure ()

def quadDataCommand (bytes buf : List UInt8) : Host Unit := do
  spiSetCs spec false
  spiWrite bytes
  spiWireModeSet .quad
  spiWrite buf
  spiWireModeSet .normal
  spiSetCs spec true

def spiNorQuadPageProgram (buf : List UInt8) : Host Unit := do
  spiWireModeSet .normal
  standardOperation spec (quadDataCommand spec (opcAddr f.addrBits quadPageProgram addr) buf)

/-! ## QPI instructions -/

def onQuad {α : Type} (body : Host α) : Host α := do
  spiWireModeSet .quad
  let r ← body
  spiWireModeSet .normal
  return r

def spiNorQpiWriteDisable : Host Unit := onQuad (command spec [writeDisable])
def spiNorQpiWriteEnable : Host Unit := onQuad (command spec [writeEnable])
def spiNorQpiReadStatusRegister : Host (BitVec 8) := onQuad (readCommand spec [readStatusReg] 1)

def qpiOperation (body : Host Unit) : Host Unit := do
  spiNorQpiWriteEnable spec
  onQuad body
  untilReady (spiNorQpiReadStatusRegister spec)
  spiNorQpiWriteDisable spec

def spiNorQpiFastReadQuadIo (n : ℕ) : Host Unit := do
  let _ ← onQuad (readCommand spec (opcAddr f.addrBits fastReadQuadIo addr ++ [0]) n)

def spiNorQpiPageProgram (buf : List UInt8) : Host Unit :=
  qpiOperation spec (dataCommand spec (opcAddr f.addrBits pageProgram addr) buf)

def spiNorQpiSectorErase : Host Unit :=
  qpiOperation spec (command spec (opcAddr f.addrBits sectorErase addr))

def spiNorQpiBlockErase : Host Unit :=
  qpiOperation spec (command spec (opcAddr f.addrBits blockErase addr))

def spiNorQpiChipErase : Host Unit := qpiOperation spec (command spec [chipErase])

def spiNorStandardDisableQpi : Host Unit := onQuad (command spec [disableQpi])

def spiNorQpiReleasePowerDown : Host Unit := command spec [releasePowerDown]

def spiNorQpiOpen : Host Unit := do
  spiNorQpiReleasePowerDown spec
  let status ← spiNorStandardReadStatusRegister spec
  spiNorStandardWriteStatusRegister spec (status.setWidth 16 ||| SPI_NOR_STATUS2_QUAD_ENABLE)
  spiNorStandardEnterQpi spec
  if f.addrBits = 32 then spiNorStandardEnter4bAddr spec else pure ()

def spiNorQpiClose : Host Unit := spiNorStandardDisableQpi spec

/-! ## The dispatch tables and spi_nor.c -/

/-- enum spi_nor_mode without SPI_NOR_XIP_MODE -/
inductive SpiNorMode
  | normal | dual | quad | qpi
deriving DecidableEq, Repr

/-- struct spi_nor_bus without the two entries that spi_nor.c does not call. -/
structure SpiNorBus where
  openBus : Host Unit
  closeBus : Option (Host Unit)
  read : ℕ → ℕ → Host Unit
  program : ℕ → List UInt8 → Host Unit
  sectorErase : ℕ → Host Unit
  blockErase : ℕ → Host Unit
  chipErase : Host Unit
  eraseSecurityReg : ℕ → Host Unit
  programSecurityReg : ℕ → List UInt8 → Host Unit
  readSecurityReg : ℕ → ℕ → Host Unit

def spinorBusList : SpiNorMode → SpiNorBus
  | .normal => ⟨spiNorStandardOpen spec f,none,spiNorStandardReadData spec f,
      spiNorStandardPageProgram spec f,spiNorStandardSectorErase spec f,
      spiNorStandardBlockErase spec f,spiNorStandardChipErase spec,
      spiNorStandardEraseSecurityReg spec,spiNorStandardProgramSecurityReg spec,
      spiNorStandardReadSecurityReg spec⟩
  | .dual => ⟨spiNorStandardOpen spec f,none,spiNorDualFastReadDualOutput spec f,
      spiNorStandardPageProgram spec f,spiNorStandardSectorErase spec f,
      spiNorStandardBlockErase spec f,spiNorStandardChipErase spec,
      spiNorStandardEraseSecurityReg spec,spiNorStandardProgramSecurityReg spec,
      spiNorStandardReadSecurityReg spec⟩
  | .quad => ⟨spiNorQuadOpen spec f,none,spiNorQuadFastReadQuadOutput spec f,
      spiNorQuadPageProgram spec f,spiNorStandardSectorErase spec f,
      spiNorStandardBlockErase spec f,spiNorStandardChipErase spec,
      spiNorStandardEraseSecurityReg spec,spiNorStandardProgramSecurityReg spec,
      spiNorStandardReadSecurityReg spec⟩
  | .qpi => ⟨spiNorQpiOpen spec f,some (spiNorQpiClose spec),spiNorQpiFastReadQuadIo spec f,
      spiNorQpiPageProgram spec f,spiNorQpiSectorErase spec f,
      spiNorQpiBlockErase spec f,spiNorQpiChipErase spec,
      spiNorStandardEraseSecurityReg spec,spiNorStandardProgramSecurityReg spec,
      spiNorStandardReadSecurityReg spec⟩

/-- A call of spi_nor.c between open and close. -/
inductive NorOp
  | read (addr n : ℕ)
  | write (addr : ℕ) (buf : List UInt8)
  | sectorErase (addr : ℕ)
  | blockErase (addr : ℕ)
  | chipErase
  | eraseSecurityReg (addr : ℕ)
  | programSecurityReg (addr : ℕ) (buf : List UInt8)
  | readSecurityReg (addr n : ℕ)

variable (mode : SpiNorMode)

/-- spi_open takes no wire mode but SPI_WIRE_NORMAL_MODE, which flash0 asks for. -/
def spiNorOpen : Host Unit := do
  spiWireModeSet .normal
  (spinorBusList spec f mode).openBus

def spiNorClose : Host Unit := do
  match (spinorBusList spec f mode).closeBus with
  | some close => close
  | none => pure ()
  spiSetCs spec true

def NorOp.run : NorOp → Host Unit
  | .read addr n => (spinorBusList spec f mode).read addr n
  | .write addr buf => (spiNorWrite f addr buf.length).forM fun c =>
      (spinorBusList spec f mode).program c.addr (c.data buf)
  | .sectorErase addr => (spinorBusList spec f mode).sectorErase addr
  | .blockErase addr => (spinorBusList spec f mode).blockErase addr
  | .chipErase => (spinorBusList spec f mode).chipErase
  | .eraseSecurityReg addr => (spinorBusList spec f mode).eraseSecurityReg addr
  | .programSecurityReg addr buf => (spinorBusList spec f mode).programSecurityReg addr buf
  | .readSecurityReg addr n => (spinorBusList spec f mode).readSecurityReg addr n

/-- An open session. -/
def session (ops : List NorOp) : Host Unit := do
  spiNorOpen spec f mode
  ops.forM (NorOp.run spec f mode)
  spiNorClose spec f mode

end FmacSdk.SpiNor
