import FmacSdk.Common.Errno
import FmacSdk.Foundation.BitLanes
import FmacSdk.SpiNor.Bus

/-! # The read modes of spi_nor_bus.c on hgspi_dw

The reads with the data they return, clock by clock: the flash drives as many
lanes as its read command demands, and the controller samples in the wire mode
that was last set. hgspi_dw_ioctl sets no mode but SPI_WIRE_NORMAL_MODE, and the
reads do not look at its answer.
-/
namespace FmacSdk.SpiNor.ReadModes
open BitLanes

def lanes : WireMode → Lanes
  | .single => ⟨1,0,by decide,by decide⟩
  | .normal => ⟨1,1,by decide,by decide⟩
  | .dual => ⟨2,1,by decide,by decide⟩
  | .quad => ⟨4,3,by decide,by decide⟩

/-- The wire mode of the controller, what the flash has heard on IO0 since the
chip select went down, and the clocks of its answer. -/
structure Line where
  wire : WireMode
  heard : List Bool
  out : ℕ

/-- The dummy bytes of a read command and the lanes of its data. -/
def readFormat (opc : UInt8) : Option (ℕ × WireMode) :=
  if opc = readData then some (0,.normal)
  else if opc = fastReadDualOutput then some (1,.dual)
  else if opc = fastReadQuadOutput then some (1,.quad)
  else none

def heardByte (heard : List Bool) (i : ℕ) : UInt8 := packByte fun k => heard.getD (8 * i + k) false

/-- The lanes and the address of the answer once the command, the address and the
dummy bytes are complete. -/
def answer? (addrBits : ℕ) (heard : List Bool) : Option (WireMode × ℕ) :=
  if heard.length < 8 then none
  else match readFormat (heardByte heard 0) with
    | none => none
    | some (dummy,wire) =>
      if heard.length = 8 * (1 + addrBits / 8 + dummy) then
        some (wire,bigEndian ((List.range (addrBits / 8)).map fun i => heardByte heard (i + 1)))
      else none

abbrev Wired := StateM Line

section Code
variable (accepts : WireMode → Bool) (mem : ℕ → UInt8) (f : SpiNorFlash)

/-- One clock: the flash answers or hears one more bit. -/
def Line.clock (c : Line) (io0 : Bool) : (ℕ → Bool) × Line :=
  match answer? f.addrBits c.heard with
  | some (wire,addr) =>
    ((lanes wire).drive (streamBit fun i => mem (addr + i)) c.out,{ c with out := c.out + 1 })
  | none => (fun _ => true,{ c with heard := c.heard ++ [io0] })

def Line.clocks (c : Line) : ℕ → List (ℕ → Bool) × Line
  | 0 => ([],c)
  | t + 1 =>
    let r := c.clocks t
    let next := r.2.clock mem f true
    (r.1 ++ [next.1],next.2)

def spiSetCs : Wired Unit := modify fun c => { c with heard := [], out := 0 }

/-- SPI_WIRE_MODE_SET of a driver that accepts some wire modes. -/
def wireModeSet (mode : WireMode) : Wired ℤ := do
  if accepts mode then
    modify fun c => { c with wire := mode }
    return RET_OK
  else return RET_ERR

/-- hgspi_dw_write; the last of the bits of a clock goes out on IO0. -/
def hgspiDwWrite (bytes : List UInt8) : Wired Unit := modify fun c =>
  let k := (lanes c.wire).width
  (List.range (8 * bytes.length / k)).foldl
    (fun c t => (c.clock mem f (streamBit (bytes.getD · 0) (k * t + (k - 1)))).2) c

def hgspiDwRead (n : ℕ) : Wired (List UInt8) := fun c =>
  let r := c.clocks mem f (8 * n / (lanes c.wire).width)
  (pack n ((lanes c.wire).sample fun t => r.1.getD t fun _ => true),r.2)

def spiNorStandardReadData (addr n : ℕ) : Wired (List UInt8) := do
  spiSetCs
  hgspiDwWrite mem f (opcAddr f.addrBits readData addr)
  let buf ← hgspiDwRead mem f n
  spiSetCs
  return buf

def wideRead (opc : UInt8) (wire : WireMode) (addr n : ℕ) : Wired (List UInt8) := do
  spiSetCs
  let _ ← wireModeSet accepts .normal
  hgspiDwWrite mem f (opcAddr f.addrBits opc addr ++ [0])
  let _ ← wireModeSet accepts wire
  let buf ← hgspiDwRead mem f n
  let _ ← wireModeSet accepts .normal
  spiSetCs
  return buf

def spiNorDualFastReadDualOutput (addr n : ℕ) : Wired (List UInt8) :=
  wideRead accepts mem f fastReadDualOutput .dual addr n

def spiNorQuadFastReadQuadOutput (addr n : ℕ) : Wired (List UInt8) :=
  wideRead accepts mem f fastReadQuadOutput .quad addr n

end Code

/-- The wire modes of hgspi_dw_ioctl; the other cases are commented out. -/
def hgspiDwAccepts (mode : WireMode) : Bool := mode = .normal

section Header
variable {mem : ℕ → UInt8} {f : SpiNorFlash} {c : Line}

theorem clock_of_none {io0 : Bool} (h : answer? f.addrBits c.heard = none) :
    c.clock mem f io0 = (fun _ => true,{ c with heard := c.heard ++ [io0] }) := by
  rw [Line.clock,h]

theorem clock_of_some {io0 : Bool} {wire : WireMode} {addr : ℕ}
    (h : answer? f.addrBits c.heard = some (wire,addr)) : c.clock mem f io0 =
      ((lanes wire).drive (streamBit fun i => mem (addr + i)) c.out,{ c with out := c.out + 1 }) := by
  rw [Line.clock,h]

/-- The first bits of a sequence of bytes. -/
def bits (bytes : List UInt8) (t : ℕ) : List Bool := (List.range t).map (streamBit (bytes.getD · 0))

@[simp] theorem bits_length (bytes : List UInt8) (t : ℕ) : (bits bytes t).length = t := by simp [bits]

theorem heardByte_bits {bytes : List UInt8} {t i : ℕ} (h : 8 * (i + 1) ≤ t) :
    heardByte (bits bytes t) i = bytes.getD i 0 := by
  rw [← packByte_streamBit (bytes.getD i 0)]
  apply UInt8.eq_of_toBitVec_eq
  refine BitVec.eq_of_getMsbD_eq fun k hk => ?_
  have hlt : 8 * i + k < t := by omega
  have hdiv : (8 * i + k) / 8 = i := by omega
  have hmod : (8 * i + k) % 8 = k := by omega
  rw [heardByte,packByte_getMsbD _ hk,packByte_getMsbD _ hk]
  simp [bits,hlt,streamBit,hdiv,hmod]

/-- The frame of a read command. -/
def frame (f : SpiNorFlash) (opc : UInt8) (dummy addr : ℕ) : List UInt8 :=
  opcAddr f.addrBits opc addr ++ List.replicate dummy 0

/-- The flash finds the command and the address in the frame. -/
theorem frame_parts (f : SpiNorFlash) (opc : UInt8) (dummy addr : ℕ) :
    ∃ bs, frame f opc dummy addr = opc :: (bs ++ List.replicate dummy 0) ∧
      bs.length = f.addrBits / 8 ∧ bigEndian bs = addr % 2 ^ f.addrBits := by
  have hbits := f.addrBits_cases
  obtain ⟨bs,happ,hlen,hdec⟩ := bigEndian_opcAddr hbits (Nat.mod_lt addr (Nat.two_pow_pos _)) opc
    (List.replicate dummy 0)
  rw [opcAddr_mod hbits] at happ
  exact ⟨bs,happ,hlen,hdec⟩

theorem frame_length (f : SpiNorFlash) (opc : UInt8) (dummy addr : ℕ) :
    (frame f opc dummy addr).length = 1 + f.addrBits / 8 + dummy := by
  obtain ⟨bs,happ,hlen,-⟩ := frame_parts f opc dummy addr
  rw [happ]
  simp [hlen]
  omega

variable {opc : UInt8} {dummy : ℕ} {wire : WireMode}

theorem heardByte_frame {t : ℕ} (ht : 8 ≤ t) (addr : ℕ) :
    heardByte (bits (frame f opc dummy addr) t) 0 = opc := by
  obtain ⟨bs,happ,-⟩ := frame_parts f opc dummy addr
  rw [heardByte_bits (by omega),happ]
  rfl

/-- The answer begins behind the last bit of the frame. -/
theorem answer_frame (hopc : readFormat opc = some (dummy,wire)) (addr t : ℕ) :
    answer? f.addrBits (bits (frame f opc dummy addr) t) =
      if t = 8 * (frame f opc dummy addr).length then some (wire,addr % 2 ^ f.addrBits) else none := by
  have hlen := frame_length f opc dummy addr
  unfold answer?
  rw [bits_length]
  by_cases hshort : t < 8
  · rw [if_pos hshort,if_neg (by omega)]
  · rw [if_neg hshort,heardByte_frame (by omega),hopc]
    dsimp only
    rw [← hlen]
    split
    · next hfull =>
      obtain ⟨bs,happ,hbs,hdec⟩ := frame_parts f opc dummy addr
      have hbytes : (List.range (f.addrBits / 8)).map
          (fun i => heardByte (bits (frame f opc dummy addr) t) (i + 1)) = bs := by
        apply List.ext_getElem (by simp [hbs])
        intro i hi _
        have hi : i < f.addrBits / 8 := by simpa using hi
        have hget : (opc :: (bs ++ List.replicate dummy 0)).getD (i + 1) 0 = bs[i] := by
          rw [List.getD_cons_succ,List.getD_eq_getElem?_getD,List.getElem?_append_left (hbs ▸ hi),
            List.getElem?_eq_getElem (hbs ▸ hi),Option.getD_some]
        rw [List.getElem_map,List.getElem_range,heardByte_bits (by omega),happ]
        exact hget
      rw [hbytes,hdec]
    · rfl

end Header

section Reads
variable {accepts : WireMode → Bool} {mem : ℕ → UInt8} {f : SpiNorFlash} {c : Line}
variable {opc : UInt8} {dummy : ℕ} {wire : WireMode}

/-- Nothing answers before the end of the frame, so that the flash hears it. -/
theorem write_frame (hopc : readFormat opc = some (dummy,wire)) (hc : (lanes c.wire).width = 1)
    (hheard : c.heard = []) (addr : ℕ) : (hgspiDwWrite mem f (frame f opc dummy addr) c).2 =
      { c with heard := bits (frame f opc dummy addr) (8 * (frame f opc dummy addr).length) } := by
  have hprefix (t : ℕ) (ht : t ≤ 8 * (frame f opc dummy addr).length) :
      (List.range t).foldl (fun c t =>
          (c.clock mem f (streamBit ((frame f opc dummy addr).getD · 0) (1 * t + (1 - 1)))).2) c =
        { c with heard := bits (frame f opc dummy addr) t } := by
    induction t with
    | zero =>
      rw [show bits (frame f opc dummy addr) 0 = c.heard from hheard.symm]
      rfl
    | succ t ih =>
      have hquiet : answer? f.addrBits (bits (frame f opc dummy addr) t) = none := by
        rw [answer_frame hopc addr t,if_neg (by omega)]
      rw [List.range_succ,List.foldl_append,ih (by omega),List.foldl_cons,List.foldl_nil,
        clock_of_none hquiet]
      simp [bits,List.range_succ]
  show (List.range _).foldl _ c = _
  rw [hc,Nat.div_one]
  exact hprefix _ le_rfl

/-- The lanes over the clocks of an answer. -/
theorem clocks_answer {addr : ℕ} (h : answer? f.addrBits c.heard = some (wire,addr)) (t : ℕ) :
    c.clocks mem f t = ((List.range t).map fun i =>
      (lanes wire).drive (streamBit fun i => mem (addr + i)) (c.out + i),{ c with out := c.out + t }) := by
  induction t with
  | zero => rfl
  | succ t ih =>
    have hnext : answer? f.addrBits ({ c with out := c.out + t } : Line).heard = some (wire,addr) := h
    rw [Line.clocks,ih]
    dsimp only
    rw [clock_of_some hnext]
    simp [List.range_succ,Nat.add_assoc]

theorem width_dvd (wire : WireMode) (n : ℕ) : (lanes wire).width ∣ 8 * n := by
  refine Dvd.dvd.mul_right ?_ n
  cases wire <;> decide

/-- What the controller makes of an answer. -/
theorem read_answer {addr : ℕ} (h : answer? f.addrBits c.heard = some (wire,addr)) (hout : c.out = 0)
    (n : ℕ) : (hgspiDwRead mem f n c).1 =
      pack n ((lanes c.wire).sample ((lanes wire).drive (streamBit fun i => mem (addr + i)))) := by
  refine pack_eq_iff.mpr fun j hj => ?_
  have hclock : j / (lanes c.wire).width < 8 * n / (lanes c.wire).width :=
    Nat.div_lt_div_of_lt_of_dvd (width_dvd _ n) hj
  rw [clocks_answer h,hout]
  simp [Lanes.sample,hclock]

/-- The bits behind an address, as far as the flash takes it. -/
def dataBit (mem : ℕ → UInt8) (f : SpiNorFlash) (addr : ℕ) : ℕ → Bool :=
  streamBit fun i => mem (addr % 2 ^ f.addrBits + i)

theorem frame_answer (hopc : readFormat opc = some (dummy,wire)) (addr : ℕ) :
    answer? f.addrBits (bits (frame f opc dummy addr) (8 * (frame f opc dummy addr).length)) =
      some (wire,addr % 2 ^ f.addrBits) := by
  rw [answer_frame hopc,if_pos rfl]

theorem standardRead_eq (hc : c.wire = .normal) (addr n : ℕ) :
    (spiNorStandardReadData mem f addr n c).1 = pack n (dataBit mem f addr) := by
  obtain ⟨_,heard,out⟩ := c
  obtain rfl := hc
  have hopc : readFormat readData = some (0,.normal) := rfl
  have hframe : opcAddr f.addrBits readData addr = frame f readData 0 addr := (List.append_nil _).symm
  show (hgspiDwRead mem f n (hgspiDwWrite mem f (opcAddr f.addrBits readData addr) ⟨.normal,[],0⟩).2).1 = _
  rw [hframe,write_frame hopc rfl rfl,read_answer (frame_answer hopc addr) rfl,Lanes.sample_drive]
  rfl

/-- The standard read returns the bytes of the chip. -/
theorem standardRead_bytes (hc : c.wire = .normal) (addr n : ℕ) :
    (spiNorStandardReadData mem f addr n c).1 = (List.range n).map fun i => mem (addr % 2 ^ f.addrBits + i) := by
  rw [standardRead_eq hc]
  exact pack_streamBit n _

/-- The data of a wide command goes through the lanes of the mode that the driver
was in or has accepted. -/
theorem wideRead_eq (hopc : readFormat opc = some (1,wire)) (hc : c.wire = .normal) (addr n : ℕ) :
    (wideRead accepts mem f opc wire addr n c).1 =
      pack n ((lanes (if accepts wire then wire else .normal)).sample
        ((lanes wire).drive (dataBit mem f addr))) := by
  obtain ⟨_,heard,out⟩ := c
  obtain rfl := hc
  have hset (mode : WireMode) (c : Line) : (wireModeSet accepts mode c).2 =
      { c with wire := if accepts mode then mode else c.wire } := by
    unfold wireModeSet
    cases accepts mode <;> rfl
  have hnormal : (wireModeSet accepts .normal ⟨.normal,[],0⟩).2 = ⟨.normal,[],0⟩ := by
    rw [hset]
    simp
  have hwrite : (hgspiDwWrite mem f (opcAddr f.addrBits opc addr ++ [0]) ⟨.normal,[],0⟩).2 = _ :=
    write_frame hopc rfl rfl addr
  show (hgspiDwRead mem f n (wireModeSet accepts wire
    (hgspiDwWrite mem f (opcAddr f.addrBits opc addr ++ [0])
      (wireModeSet accepts .normal ⟨.normal,[],0⟩).2).2).2).1 = _
  rw [hnormal,hwrite,hset]
  exact read_answer (frame_answer hopc addr) rfl n

/-- With a driver that accepts the mode, a wide read returns what the standard
one does. -/
theorem wideRead_of_accepts (hopc : readFormat opc = some (1,wire)) (hwire : accepts wire = true)
    (hc : c.wire = .normal) (addr n : ℕ) : (wideRead accepts mem f opc wire addr n c).1 =
      (spiNorStandardReadData mem f addr n c).1 := by
  rw [wideRead_eq hopc hc,standardRead_eq hc,if_pos hwire,Lanes.sample_drive]

/-- On one lane it returns one bit of each clock. -/
theorem wideRead_of_rejects (hopc : readFormat opc = some (1,wire)) (hwire : accepts wire = false)
    (htop : 1 ≤ (lanes wire).top) (hlane : (lanes wire).top - 1 < (lanes wire).width)
    (hc : c.wire = .normal) (addr n : ℕ) : (wideRead accepts mem f opc wire addr n c).1 =
      pack n fun j => dataBit mem f addr ((lanes wire).width * j + ((lanes wire).top - 1)) := by
  have hlanes : (if accepts wire then wire else .normal) = WireMode.normal := by rw [hwire]; rfl
  rw [wideRead_eq hopc hc,hlanes]
  congr 1
  funext j
  exact Lanes.sample_drive_one rfl htop hlane _ j

theorem dualRead_eq (hc : c.wire = .normal) (addr n : ℕ) :
    (spiNorDualFastReadDualOutput hgspiDwAccepts mem f addr n c).1 =
      pack n fun j => dataBit mem f addr (2 * j) :=
  wideRead_of_rejects rfl rfl (by decide) (by decide) hc addr n

theorem quadRead_eq (hc : c.wire = .normal) (addr n : ℕ) :
    (spiNorQuadFastReadQuadOutput hgspiDwAccepts mem f addr n c).1 =
      pack n fun j => dataBit mem f addr (4 * j + 2) :=
  wideRead_of_rejects rfl rfl (by decide) (by decide) hc addr n

/-- The modes agree exactly on the data whose every bit is that at twice its
place and the one at four times its place and two. -/
theorem reads_agree_iff (hc : c.wire = .normal) (addr n : ℕ) :
    ((spiNorDualFastReadDualOutput hgspiDwAccepts mem f addr n c).1 =
        (spiNorStandardReadData mem f addr n c).1 ∧
      (spiNorQuadFastReadQuadOutput hgspiDwAccepts mem f addr n c).1 =
        (spiNorStandardReadData mem f addr n c).1) ↔
    ∀ j < 8 * n, dataBit mem f addr (2 * j) = dataBit mem f addr j ∧
      dataBit mem f addr (4 * j + 2) = dataBit mem f addr j := by
  rw [dualRead_eq hc,quadRead_eq hc,standardRead_eq hc,pack_eq_iff,pack_eq_iff]
  exact ⟨fun h j hj => ⟨h.1 j hj,h.2 j hj⟩,fun h => ⟨fun j hj => (h j hj).1,fun j hj => (h j hj).2⟩⟩

/-- A session of reads stays in the wire mode in which spi_open has left it. -/
theorem clock_wire (io0 : Bool) : (c.clock mem f io0).2.wire = c.wire := by
  unfold Line.clock
  split <;> rfl

theorem clocks_wire (t : ℕ) : (c.clocks mem f t).2.wire = c.wire := by
  induction t with
  | zero => rfl
  | succ t ih => exact (clock_wire true).trans ih

theorem write_wire (bytes : List UInt8) : (hgspiDwWrite mem f bytes c).2.wire = c.wire := by
  have hfold (l : List ℕ) (io0 : ℕ → Bool) (c : Line) :
      (l.foldl (fun c t => (c.clock mem f (io0 t)).2) c).wire = c.wire := by
    induction l generalizing c with
    | nil => rfl
    | cons t l ih => exact (ih _).trans (clock_wire _)
  exact hfold _ _ c

theorem reads_wire (hc : c.wire = .normal) (addr n : ℕ) :
    (spiNorStandardReadData mem f addr n c).2.wire = .normal ∧
      (wideRead hgspiDwAccepts mem f opc wire addr n c).2.wire = .normal := by
  constructor
  · exact (clocks_wire _).trans ((write_wire _).trans hc)
  · have hset (mode : WireMode) {c : Line} (h : c.wire = .normal) :
        (wireModeSet hgspiDwAccepts mode c).2.wire = .normal := by
      unfold wireModeSet hgspiDwAccepts
      by_cases hmode : mode = .normal
      · simp only [hmode]
        rfl
      · simp only [hmode]
        exact h
    let c₁ := (wireModeSet hgspiDwAccepts .normal { c with heard := [], out := 0 }).2
    let c₂ := (hgspiDwWrite mem f (opcAddr f.addrBits opc addr ++ [0]) c₁).2
    have h₁ : c₁.wire = .normal := hset .normal hc
    have h₂ : c₂.wire = .normal := (write_wire _).trans h₁
    have h₃ : (wireModeSet hgspiDwAccepts wire c₂).2.wire = .normal := hset wire h₂
    have h₄ : (hgspiDwRead mem f n (wireModeSet hgspiDwAccepts wire c₂).2).2.wire = .normal :=
      (clocks_wire _).trans h₃
    exact hset .normal h₄

def flash0 : SpiNorFlash := ⟨0x100000,256,by decide,Nat.succ_pos _⟩

theorem reads_agree_iff_erased :
    (spiNorDualFastReadDualOutput hgspiDwAccepts (fun _ => 0xff) flash0 0x1000 16 ⟨.normal,[],0⟩).1 =
        (spiNorStandardReadData (fun _ => 0xff) flash0 0x1000 16 ⟨.normal,[],0⟩).1 ∧
      (spiNorQuadFastReadQuadOutput hgspiDwAccepts (fun _ => 0xff) flash0 0x1000 16 ⟨.normal,[],0⟩).1 =
        (spiNorStandardReadData (fun _ => 0xff) flash0 0x1000 16 ⟨.normal,[],0⟩).1 := by
  refine (reads_agree_iff rfl 0x1000 16).mpr fun j _ => ?_
  have hone (i : ℕ) : dataBit (fun _ => 0xff) flash0 0x1000 i = true := by
    have hbits : ∀ k < 8, (0xff : UInt8).toBitVec.getMsbD k = true := by decide
    exact hbits (i % 8) (Nat.mod_lt i (by decide))
  rw [hone,hone,hone]
  exact ⟨rfl,rfl⟩

/-- A byte of alternating bits: the wide modes return its even bits only. -/
theorem alternating_bits :
    (spiNorStandardReadData (fun _ => 0x55) flash0 0 1 ⟨.normal,[],0⟩).1 = [0x55] ∧
      (spiNorDualFastReadDualOutput hgspiDwAccepts (fun _ => 0x55) flash0 0 1 ⟨.normal,[],0⟩).1 = [0x00] ∧
      (spiNorQuadFastReadQuadOutput hgspiDwAccepts (fun _ => 0x55) flash0 0 1 ⟨.normal,[],0⟩).1 = [0x00] := by
  rw [standardRead_eq rfl,dualRead_eq rfl,quadRead_eq rfl]
  decide

end Reads

end FmacSdk.SpiNor.ReadModes
