import FmacSdk.Foundation.PagedMemory
import Mathlib.Data.Nat.Bitwise

/-! # SPI NOR page programming on the wire

spi_nor_standard_page_program as the bytes it clocks out between two edges of
the chip select, and a flash that decodes them: a write-enable latch, a program
command that wraps inside its page and only clears bits, and a status register
that reads busy for a finite number of polls after each program.
-/
namespace FmacSdk.SpiNor
open PagedMemory

/-- SPI_NOR_STANDARD_WRITE_ENABLE, WRITE_DISABLE and PAGE_PROGRAM -/
def writeEnable : UInt8 := 0x06
def writeDisable : UInt8 := 0x04
def pageProgram : UInt8 := 0x02

/-- The fields of struct spi_nor_flash that writing uses. `addrBits` is
`bits_of_addr` as spi_nor_attach sets it from the size. -/
structure SpiNorFlash where
  size : ℕ
  pageSize : ℕ
  size_lt : size < 2 ^ 32
  pageSize_pos : 0 < pageSize

def SpiNorFlash.addrBits (f : SpiNorFlash) : ℕ := if f.size > 0x1000000 then 32 else 24

theorem SpiNorFlash.addrBits_cases (f : SpiNorFlash) : f.addrBits = 24 ∨ f.addrBits = 32 := by
  unfold addrBits
  split <;> simp

/-- SPI_NOR_OPC_ADDR32 and SPI_NOR_OPC_ADDR24, cut to the `1 + bits_of_addr/8`
bytes that are sent. -/
def opcAddr (bits : ℕ) (opc : UInt8) (addr : ℕ) : List UInt8 :=
  (if bits = 32 then
    [opc,UInt8.ofNat (addr >>> 24 &&& 0xff),UInt8.ofNat (addr >>> 16 &&& 0xff),
      UInt8.ofNat (addr >>> 8 &&& 0xff),UInt8.ofNat (addr &&& 0xff)]
  else
    [opc,UInt8.ofNat (addr >>> 16 &&& 0xff),UInt8.ofNat (addr >>> 8 &&& 0xff),
      UInt8.ofNat (addr &&& 0xff)]).take (1 + bits / 8)

/-- Most significant byte first. -/
def bigEndian (bs : List UInt8) : ℕ := bs.foldl (fun acc b => acc * 256 + b.toNat) 0

theorem bigEndian_opcAddr {bits addr : ℕ} (hbits : bits = 24 ∨ bits = 32) (ha : addr < 2 ^ bits)
    (opc : UInt8) (rest : List UInt8) :
    ∃ bs, opcAddr bits opc addr ++ rest = opc :: (bs ++ rest) ∧ bs.length = bits / 8 ∧
      bigEndian bs = addr := by
  have hff : ∀ n : ℕ, (n &&& 0xff) = n % 256 := fun n => Nat.and_two_pow_sub_one_eq_mod n 8
  rcases hbits with rfl | rfl
  · refine ⟨[UInt8.ofNat (addr >>> 16 &&& 0xff),UInt8.ofNat (addr >>> 8 &&& 0xff),
      UInt8.ofNat (addr &&& 0xff)],rfl,rfl,?_⟩
    simp only [bigEndian,List.foldl_cons,List.foldl_nil,hff,Nat.shiftRight_eq_div_pow,UInt8.toNat_ofNat']
    omega
  · refine ⟨[UInt8.ofNat (addr >>> 24 &&& 0xff),UInt8.ofNat (addr >>> 16 &&& 0xff),
      UInt8.ofNat (addr >>> 8 &&& 0xff),UInt8.ofNat (addr &&& 0xff)],rfl,rfl,?_⟩
    simp only [bigEndian,List.foldl_cons,List.foldl_nil,hff,Nat.shiftRight_eq_div_pow,UInt8.toNat_ofNat']
    omega

/-- Only the address bits that the flash takes are sent. -/
theorem opcAddr_mod {bits : ℕ} (hbits : bits = 24 ∨ bits = 32) (opc : UInt8) (addr : ℕ) :
    opcAddr bits opc (addr % 2 ^ bits) = opcAddr bits opc addr := by
  have hbyte (k : ℕ) (hk : k + 8 ≤ bits) : (addr % 2 ^ bits) >>> k &&& 0xff = addr >>> k &&& 0xff := by
    have hff (n : ℕ) : n &&& 0xff = n % 2 ^ 8 := Nat.and_two_pow_sub_one_eq_mod n 8
    have hpow : 2 ^ bits = 2 ^ k * 2 ^ (bits - k) := by rw [← pow_add,Nat.add_sub_cancel' (by omega)]
    rw [hff,hff,Nat.shiftRight_eq_div_pow,Nat.shiftRight_eq_div_pow,hpow,Nat.mod_mul_right_div_self]
    exact Nat.mod_mod_of_dvd _ (pow_dvd_pow 2 (by omega))
  have h0 : addr % 2 ^ bits &&& 0xff = addr &&& 0xff := hbyte 0 (by omega)
  rcases hbits with rfl | rfl
  · simp only [opcAddr,hbyte 16 (by decide),hbyte 8 (by decide),h0]
    rfl
  · simp only [opcAddr,hbyte 24 (by decide),hbyte 16 (by decide),hbyte 8 (by decide),h0]

/-- The chip: its cells, its write-enable latch and the polls for which the
status register will still read busy. -/
structure Chip where
  mem : ℕ → UInt8
  wel : Bool
  busy : ℕ

/-- What the chip is made for: its page size, the address bytes it expects, and
how long the program at an address keeps it busy. -/
structure ChipSpec where
  pageSize : ℕ
  addrBytes : ℕ
  latency : ℕ → ℕ

/-- One command, clocked in between two edges of the chip select. A busy chip
ignores it, and programming needs the latch and resets it. -/
def Chip.exec (spec : ChipSpec) (c : Chip) : List UInt8 → Chip
  | [] => c
  | opc :: args =>
    if c.busy ≠ 0 then c
    else if opc = writeEnable then { c with wel := true }
    else if opc = writeDisable then { c with wel := false }
    else if opc = pageProgram ∧ c.wel then
      let addr := bigEndian (args.take spec.addrBytes)
      { mem := program (· &&& ·) spec.pageSize c.mem addr (args.drop spec.addrBytes)
        wel := false, busy := spec.latency addr }
    else c

/-- `while (spi_nor_standard_read_status_register(flash) & SPI_NOR_STATUS_BUSY);` -/
def waitReady (c : Chip) : Chip :=
  if c.busy = 0 then c else waitReady { c with busy := c.busy - 1 }
termination_by c.busy

theorem waitReady_eq (c : Chip) : waitReady c = { c with busy := 0 } := by
  obtain ⟨mem,wel,n⟩ := c
  induction n with
  | zero => rw [waitReady,if_pos rfl]
  | succ n ih =>
    rw [waitReady,if_neg (Nat.succ_ne_zero n)]
    exact ih

/-- spi_nor_standard_page_program -/
def standardPageProgram (spec : ChipSpec) (f : SpiNorFlash) (c : Chip) (addr : ℕ) (buf : List UInt8) : Chip :=
  let c := c.exec spec [writeEnable]
  let c := c.exec spec (opcAddr f.addrBits pageProgram addr ++ buf)
  let c := waitReady c
  c.exec spec [writeDisable]

/-- The chip that matches the descriptor of the driver. -/
def SpiNorFlash.Matches (f : SpiNorFlash) (spec : ChipSpec) : Prop :=
  spec.pageSize = f.pageSize ∧ spec.addrBytes = f.addrBits / 8

instance (f : SpiNorFlash) (spec : ChipSpec) : Decidable (f.Matches spec) :=
  inferInstanceAs (Decidable (_ ∧ _))

/-- On an idle chip the command sequence is one program command, and leaves the
chip idle and write protected. -/
theorem standardPageProgram_eq {spec : ChipSpec} {f : SpiNorFlash} {c : Chip} {addr : ℕ} {buf : List UInt8}
    (hf : f.Matches spec) (ha : addr < f.size) (hc : c.busy = 0) :
    standardPageProgram spec f c addr buf =
      { mem := program (· &&& ·) f.pageSize c.mem addr buf, wel := false, busy := 0 } := by
  obtain ⟨hpage,hbytes⟩ := hf
  have hsize := f.size_lt
  have hbits := f.addrBits_cases
  have hlt : addr < 2 ^ f.addrBits := by unfold SpiNorFlash.addrBits; split <;> omega
  obtain ⟨bs,happ,hlen,hdec⟩ := bigEndian_opcAddr hbits hlt pageProgram buf
  have htake : (bs ++ buf).take spec.addrBytes = bs := by rw [hbytes, ← hlen,List.take_left]
  have hdrop : (bs ++ buf).drop spec.addrBytes = buf := by rw [hbytes, ← hlen,List.drop_left]
  have h1 : pageProgram ≠ writeEnable := by decide
  have h2 : pageProgram ≠ writeDisable := by decide
  have h3 : writeDisable ≠ writeEnable := by decide
  simp only [standardPageProgram,happ,waitReady_eq,Chip.exec,hc,ne_eq,not_true_eq_false,↓reduceIte,
    h1,h2,h3,htake,hdrop,hdec,hpage,and_self]

end FmacSdk.SpiNor
