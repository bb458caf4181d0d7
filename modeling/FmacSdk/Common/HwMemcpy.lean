import FmacSdk.Driver.M2mDma

/-! # Copies and fills through the DMA engine

hw_memcpy and hw_memset leave short lengths to the C library. dma_memcpy and
dma_memset write the first and the last 16 bytes themselves, so that no cache
line is shared with the engine, and give the engine what is between.
-/
namespace FmacSdk.M2mDma
open ByteMemory
open DwDmac (DMA_XFER_DIR_M2M DMA_XFER_DIR_M2D)

def SRAM_BASE : BitVec 32 := 0x20000000

/-- The device behind m2mdma when a transfer starts. -/
structure Dma where
  ch0Lock : Bool
  busy : ℕ → BitVec 32

/-- The request that both functions make; they leave the block fields alone. -/
def middle (mode : DmaXferMode) (dir : ℕ) (dest src n : BitVec 32) : DmaXferData where
  dest := dest
  src := src
  blkWidth := 0
  blkHeight := 0
  srcAddrMode := mode
  srcWidth := 0
  dstWidth := 0
  dir := dir
  elementPerWidth := DMA_SLAVE_BUSWIDTH_1_BYTE
  elementNum := n

def dmaMemcpy (dma : Dma) (m : Memory) (dst src n : BitVec 32) : Memory :=
  if n ≤ 32 then copyRun m dst src n.toNat
  else
    -- dma_buf
    let head (i : ℕ) : BitVec 8 := m (src + BitVec.ofNat 32 i)
    let tail (i : ℕ) : BitVec 8 := m (src + n - 16 + BitVec.ofNat 32 i)
    let dir := if dst < SRAM_BASE ∨ src < SRAM_BASE then DMA_XFER_DIR_M2D else DMA_XFER_DIR_M2M
    let m := (hgM2mDmaXfer m dma.ch0Lock dma.busy
      (middle .increase dir (dst + 16) (src + 16) (n - 32))).mem
    writeRun (writeRun m dst head 16) (dst + n - 16) tail 16

/-- `val` is the address of the local variable that the engine reads the byte from. -/
def dmaMemset (dma : Dma) (m : Memory) (val dst : BitVec 32) (c : BitVec 8) (n : BitVec 32) : Memory :=
  let m := Function.update m val c
  if n ≤ 32 then writeRun m dst (fun _ => c) n.toNat
  else
    let dir := if dst < SRAM_BASE then DMA_XFER_DIR_M2D else DMA_XFER_DIR_M2M
    let m := (hgM2mDmaXfer m dma.ch0Lock dma.busy (middle .recycle dir (dst + 16) val (n - 32))).mem
    writeRun (writeRun m dst (fun _ => c) 16) (dst + n - 16) (fun _ => c) 16

def hwMemcpy0 (m2mdma : Option Dma) (m : Memory) (dest src size : BitVec 32) : Memory :=
  match m2mdma with
  | some dma => if size > 45 then dmaMemcpy dma m dest src size else osMemcpy m dest src size
  | none => osMemcpy m dest src size

/-- Without MEM_TRACE. -/
def hwMemcpy (m2mdma : Option Dma) (m : Memory) (dest src size : BitVec 32) : Memory :=
  if dest ≠ 0 ∧ src ≠ 0 then hwMemcpy0 m2mdma m dest src size else m

def hwMemset (m2mdma : Option Dma) (m : Memory) (val dest : BitVec 32) (c : BitVec 8)
    (n : BitVec 32) : Memory :=
  if dest ≠ 0 then
    match m2mdma with
    | some dma => if n > 12 then dmaMemset dma m val dest c n else osMemset m dest c n
    | none => osMemset m dest c n
  else m

section Lengths
variable {n dst src : BitVec 32} {m : Memory}

theorem add_sub_sixteen (hn : 16 ≤ n.toNat) : dst + n - 16 = dst + BitVec.ofNat 32 (n.toNat - 16) := by
  have := n.isLt
  apply BitVec.eq_of_toNat_eq
  rw [BitVec.toNat_sub,BitVec.toNat_add,BitVec.toNat_add,BitVec.toNat_ofNat,
    Nat.mod_eq_of_lt (show n.toNat - 16 < 2 ^ 32 by omega)]
  show (2 ^ 32 - 16 + (dst.toNat + n.toNat) % 2 ^ 32) % 2 ^ 32 = (dst.toNat + (n.toNat - 16)) % 2 ^ 32
  omega

/-- A length above 32, as the head, the middle and the tail. -/
theorem length_parts (hn : ¬ n ≤ 32) : 16 + (n - 32).toNat + 16 = n.toNat ∧ n - 32 ≠ 0 := by
  have hlong : 32 < n.toNat := by
    rw [BitVec.not_le,BitVec.lt_def] at hn
    exact hn
  have hmid : (n - 32).toNat = n.toNat - 32 := by
    have := n.isLt
    rw [BitVec.toNat_sub]
    show (2 ^ 32 - 32 + n.toNat) % 2 ^ 32 = n.toNat - 32
    omega
  refine ⟨by omega,fun hzero => ?_⟩
  rw [hzero] at hmid
  have : (0 : BitVec 32).toNat = 0 := rfl
  omega

theorem middle_count (mode : DmaXferMode) (dir : ℕ) (dest src n : BitVec 32) :
    (middle mode dir dest src n).count = n := BitVec.mul_one n

theorem middle_increase (dma : Dma) (dir : ℕ) (dest src : BitVec 32) (hn : n ≠ 0) :
    (hgM2mDmaXfer m dma.ch0Lock dma.busy (middle .increase dir dest src n)).mem
      = copyRun m dest src n.toNat := by
  have hregular : (middle .increase dir dest src n).Regular := (middle_count _ _ _ _ _).trans_ne hn
  rw [xfer_mem hregular (show DMA_SLAVE_BUSWIDTH_1_BYTE < DMA_SLAVE_BUSWIDTH_UNDEFINED by decide)]
  show copyRun m dest src (middle .increase dir dest src n).count.toNat = _
  rw [middle_count]

theorem middle_recycle (dma : Dma) (dir : ℕ) (dest val : BitVec 32) (hn : n ≠ 0) :
    (hgM2mDmaXfer m dma.ch0Lock dma.busy (middle .recycle dir dest val n)).mem
      = writeRun m dest (fun _ => m val) n.toNat := by
  have hregular : (middle .recycle dir dest val n).Regular := (middle_count _ _ _ _ _).trans_ne hn
  rw [xfer_mem hregular (show DMA_SLAVE_BUSWIDTH_1_BYTE < DMA_SLAVE_BUSWIDTH_UNDEFINED by decide)]
  show writeRun m dest (fun _ => m val) (middle .recycle dir dest val n).count.toNat = _
  rw [middle_count]

end Lengths

section Result
variable {m : Memory} {dst src n val : BitVec 32} {c : BitVec 8}

theorem dmaMemcpy_eq (dma : Dma) (hapart : Apart dst src n.toNat) :
    dmaMemcpy dma m dst src n = osMemcpy m dst src n := by
  unfold dmaMemcpy osMemcpy
  split
  · rfl
  · rename_i hn
    obtain ⟨hparts,hzero⟩ := length_parts hn
    have hfit : 16 + (n - 32).toNat + 16 ≤ 2 ^ 32 := hparts ▸ n.isLt.le
    have hlast : n.toNat - 16 = 16 + (n - 32).toNat := by omega
    have hmid : Apart (dst + 16) (src + 16) (n - 32).toNat := Apart.middle (hparts ▸ hapart)
    dsimp only
    rw [middle_increase _ _ _ _ hzero,copyRun_eq_writeRun hmid,copyRun_eq_writeRun hapart]
    simp only [add_sub_sixteen (n := n) (by omega),hlast,add_ofNat_add]
    have hwhole := writeRun_parts m dst (fun i => m (src + BitVec.ofNat 32 i)) hfit
    rw [hparts] at hwhole
    rw [← hwhole]
    simp only [← add_ofNat_add]
    rfl

theorem dmaMemset_eq (dma : Dma) :
    dmaMemset dma m val dst c n = osMemset (Function.update m val c) dst c n := by
  unfold dmaMemset osMemset
  dsimp only
  split
  · rfl
  · rename_i hn
    obtain ⟨hparts,hzero⟩ := length_parts hn
    have hfit : 16 + (n - 32).toNat + 16 ≤ 2 ^ 32 := hparts ▸ n.isLt.le
    have hlast : n.toNat - 16 = 16 + (n - 32).toNat := by omega
    have hwhole := writeRun_parts (Function.update m val c) dst (fun _ => c) hfit
    rw [hparts] at hwhole
    rw [middle_recycle _ _ _ _ hzero,Function.update_self,add_sub_sixteen (by omega),hlast,← hwhole]
    rfl

theorem hwMemcpy0_eq (m2mdma : Option Dma) (hapart : Apart dst src n.toNat) :
    hwMemcpy0 m2mdma m dst src n = osMemcpy m dst src n := by
  cases m2mdma with
  | none => rfl
  | some dma =>
    unfold hwMemcpy0
    dsimp only
    split
    · exact dmaMemcpy_eq dma hapart
    · rfl

/-- The stack slot apart, hw_memset does what memset does. -/
theorem hwMemset_eq (m2mdma : Option Dma) (hdst : dst ≠ 0) {a : BitVec 32} (ha : a ≠ val) :
    hwMemset m2mdma m val dst c n a = osMemset m dst c n a := by
  unfold hwMemset
  rw [if_pos hdst]
  cases m2mdma with
  | none => rfl
  | some dma =>
    dsimp only
    split
    · rw [dmaMemset_eq]
      exact writeRun_congr (Function.update_of_ne ha _ _)
    · rfl

end Result

/-- For every length, with and without the engine and whatever channel it finds,
the bytes of the destination are those that the C library writes and no other
byte changes. -/
theorem hwMemcpy_hwMemset (m2mdma : Option Dma) (m : Memory) :
    (∀ dest src n, dest ≠ 0 → src ≠ 0 → Apart dest src n.toNat →
      hwMemcpy m2mdma m dest src n = osMemcpy m dest src n ∧
        ∀ a, (∀ i < n.toNat, a ≠ dest + BitVec.ofNat 32 i) → hwMemcpy m2mdma m dest src n a = m a) ∧
    ∀ val dest c n, dest ≠ 0 → ∀ a ≠ val,
      hwMemset m2mdma m val dest c n a = osMemset m dest c n a ∧
        ((∀ i < n.toNat, a ≠ dest + BitVec.ofNat 32 i) → hwMemset m2mdma m val dest c n a = m a) := by
  constructor
  · intro dest src n hdest hsrc hapart
    have hcopy : hwMemcpy m2mdma m dest src n = osMemcpy m dest src n :=
      (if_pos ⟨hdest,hsrc⟩).trans (hwMemcpy0_eq m2mdma hapart)
    refine ⟨hcopy,fun a ha => ?_⟩
    rw [hcopy]
    exact copyRun_outside ha
  · intro val dest c n hdest a ha
    have hfill := @hwMemset_eq m dest n val c m2mdma hdest a ha
    refine ⟨hfill,fun hout => ?_⟩
    rw [hfill]
    exact writeRun_outside hout

theorem hwMemcpy_hwMemset_sram :
    hwMemcpy (some ⟨false,allBusy⟩) (fun a => a.setWidth 8) 0x20000100 0x20000200 46
      = osMemcpy (fun a => a.setWidth 8) 0x20000100 0x20000200 46 ∧
    hwMemset (some ⟨false,allFree⟩) (fun _ => 0) 0x20001000 0x20000100 7 33 0x20000120 = 7 := by
  have hapart : Apart (0x20000100 : BitVec 32) 0x20000200 (46 : BitVec 32).toNat := by
    unfold Apart
    decide
  have hcopy := (hwMemcpy_hwMemset (some ⟨false,allBusy⟩) (fun a => a.setWidth 8)).1
  have hfill := (hwMemcpy_hwMemset (some ⟨false,allFree⟩) (fun _ => 0)).2
  refine ⟨(hcopy _ _ _ (by decide) (by decide) hapart).1,?_⟩
  rw [(hfill _ _ 7 33 (by decide) _ (by decide)).1]
  rfl

end FmacSdk.M2mDma
