import FmacSdk.Driver.DwDmac
import FmacSdk.Foundation.ByteMemory

/-! # The memory-to-memory DMA engine

hg_m2m_dma_xfer looks for one of two channels while other contexts take and free
them, and moves the data in software where it finds none. The engine moves
DMA_DLEN + 1 bytes in increasing order.
-/
namespace FmacSdk.M2mDma
open ByteMemory
open DwDmac (DMA_XFER_DIR_M2M)

abbrev Memory := ByteMemory.Memory 32 (BitVec 8)

def HG_M2M_DMA_NUM : ℕ := 2
def DMA_SLAVE_BUSWIDTH_1_BYTE : BitVec 32 := 0
def DMA_SLAVE_BUSWIDTH_UNDEFINED : BitVec 32 := 4

inductive DmaXferMode
  | increase | recycle | blkcpy
deriving DecidableEq, Repr

/-- struct dma_xfer_data as far as hg_m2m_dma_xfer reads it. -/
structure DmaXferData where
  dest : BitVec 32
  src : BitVec 32
  blkWidth : BitVec 16
  blkHeight : BitVec 12
  srcAddrMode : DmaXferMode
  srcWidth : BitVec 12
  dstWidth : BitVec 12
  dir : ℕ
  elementPerWidth : BitVec 32
  elementNum : BitVec 32

/-! ## The two back-ends -/

/-- The registers of a channel when DMA_CON_DTE is set. -/
structure MemDmaCh where
  tadr : BitVec 32
  sadr : BitVec 32
  data : BitVec 32
  dlen : BitVec 32
  memset : Bool

/-- What the engine does before it clears DMA_CON_DTE. -/
def MemDmaCh.transfer (ch : MemDmaCh) (m : Memory) : Memory :=
  if ch.memset then writeRun m ch.tadr (fun _ => ch.data.setWidth 8) (ch.dlen.toNat + 1)
  else copyRun m ch.tadr ch.sadr (ch.dlen.toNat + 1)

def osMemcpy (m : Memory) (dest src n : BitVec 32) : Memory := copyRun m dest src n.toNat

def osMemset (m : Memory) (dest : BitVec 32) (c : BitVec 8) (n : BitVec 32) : Memory :=
  writeRun m dest (fun _ => c) n.toNat

/-- The loop over the rows of a block; `src_step` is `i * src_width` in row `i`. -/
def blkRows (data : DmaXferData) (row : (dst src : BitVec 32) → Memory → Memory) : ℕ → Memory → Memory
  | 0, m => m
  | i + 1, m => row (data.dest + BitVec.ofNat 32 i * data.dstWidth.setWidth 32)
      (data.src + BitVec.ofNat 32 i * data.srcWidth.setWidth 32) (blkRows data row i m)

def softBlkcpy (m : Memory) (data : DmaXferData) : Memory :=
  blkRows data (fun dst src m => copyRun m dst src data.blkWidth.toNat) data.blkHeight.toNat m

def hwBlkcpy (m : Memory) (data : DmaXferData) : Memory :=
  blkRows data (fun dst src => MemDmaCh.transfer
    { tadr := dst, sadr := src, data := 0, dlen := data.blkWidth.setWidth 32 - 1, memset := false })
    data.blkHeight.toNat m

/-! ## The search for a channel -/

/-- The loop of hg_m2m_dma_get_free_ch from channel `ch` downwards. -/
def freeChFrom (busyFlag : BitVec 32) (chFix : ℕ) : ℕ → ℤ
  | 0 => if busyFlag.getLsbD 0 then -1 else 0
  | ch + 1 =>
    if busyFlag.getLsbD (ch + 1) then
      if chFix < HG_M2M_DMA_NUM then -1 else freeChFrom busyFlag chFix ch
    else (ch + 1 : ℕ)

def hgM2mDmaGetFreeCh (busyFlag : BitVec 32) (chFix : ℕ) : ℤ :=
  freeChFrom busyFlag chFix (if chFix ≥ HG_M2M_DMA_NUM then 1 else chFix)

/-- One attempt: the channel, and ch0_lock behind it. -/
def attempt (busyFlag : BitVec 32) (dir : ℕ) (ch0Lock : Bool) : ℤ × Bool :=
  if dir ≠ DMA_XFER_DIR_M2M then
    let ch := hgM2mDmaGetFreeCh busyFlag 0
    (ch,ch0Lock || decide (ch = 0))
  else (hgM2mDmaGetFreeCh busyFlag (if ch0Lock then 1 else HG_M2M_DMA_NUM),ch0Lock)

/-- The attempts from number `i` on, `retry` after the first; `busy i` is what
the other contexts make of busy_flag by then. -/
def acquire (busy : ℕ → BitVec 32) (dir : ℕ) : ℕ → ℕ → Bool → ℤ × Bool
  | 0, i, ch0Lock => attempt (busy i) dir ch0Lock
  | retry + 1, i, ch0Lock =>
    let r := attempt (busy i) dir ch0Lock
    if r.1 ≥ 0 then r else acquire busy dir retry (i + 1) r.2

/-! ## The transfer -/

/-- The entries of dma_element_size; a byte behind them is not known. -/
def dmaElementSize (i : BitVec 32) : BitVec 32 := [1,2,4,8].getD i.toNat 0

def DmaXferData.count (data : DmaXferData) : BitVec 32 :=
  data.elementNum * dmaElementSize data.elementPerWidth

structure Outcome where
  mem : Memory
  ch0Lock : Bool
  ret : ℤ
  /-- The indices at which dma_element_size was read. -/
  tableReads : List (BitVec 32)

def softXfer (m : Memory) (data : DmaXferData) : Memory :=
  match data.srcAddrMode with
  | .recycle => osMemset m data.dest (m data.src) data.count
  | .increase => osMemcpy m data.dest data.src data.count
  | .blkcpy => softBlkcpy m data

def hwXfer (m : Memory) (data : DmaXferData) : Memory :=
  let val : BitVec 32 := (m data.src).setWidth 32
  match data.srcAddrMode with
  | .blkcpy => hwBlkcpy m data
  | mode => MemDmaCh.transfer
      { tadr := data.dest, sadr := data.src, data := val, dlen := data.count - 1
        memset := mode = .recycle } m

/-- The table is read before element_per_width is checked. -/
def hgM2mDmaXfer (m : Memory) (ch0Lock : Bool) (busy : ℕ → BitVec 32) (data : DmaXferData) : Outcome :=
  let tableReads := [data.elementPerWidth]
  if data.elementPerWidth ≥ DMA_SLAVE_BUSWIDTH_UNDEFINED then ⟨m,ch0Lock,-EBUSY,tableReads⟩
  else
    let r := acquire busy data.dir (data.count >>> 8).toNat 0 ch0Lock
    if r.1 < 0 then ⟨softXfer m data,r.2,r.1,tableReads⟩
    else ⟨hwXfer m data,r.2,r.1,tableReads⟩

section Agreement
variable {m : Memory} {ch0Lock : Bool} {busy : ℕ → BitVec 32} {data : DmaXferData}

/-- DMA_DLEN counts from 0, so that a length of 0 is one of 2^32 for the engine. -/
theorem dlen_succ {n : BitVec 32} (h : n ≠ 0) : (n - 1).toNat + 1 = n.toNat := by
  have hpos : n.toNat ≠ 0 := fun hzero => h (BitVec.eq_of_toNat_eq hzero)
  have := n.isLt
  rw [BitVec.toNat_sub]
  show (2 ^ 32 - 1 + n.toNat) % 2 ^ 32 + 1 = n.toNat
  omega

/-- The requests with a length of at least one byte where bytes are moved. -/
def DmaXferData.Regular (data : DmaXferData) : Prop :=
  match data.srcAddrMode with
  | .blkcpy => data.blkWidth ≠ 0
  | _ => data.count ≠ 0

theorem hwBlkcpy_eq (h : data.blkWidth ≠ 0) : hwBlkcpy m data = softBlkcpy m data := by
  have hwiden : (data.blkWidth.setWidth 32).toNat = data.blkWidth.toNat := by
    rw [BitVec.toNat_setWidth]
    exact Nat.mod_eq_of_lt (data.blkWidth.isLt.trans (by decide))
  have hwidth : data.blkWidth.setWidth 32 ≠ 0 := by
    intro hzero
    rw [hzero] at hwiden
    exact h (BitVec.eq_of_toNat_eq hwiden.symm)
  have hlen : (data.blkWidth.setWidth 32 - 1).toNat + 1 = data.blkWidth.toNat := by
    rw [dlen_succ hwidth,hwiden]
  unfold hwBlkcpy softBlkcpy MemDmaCh.transfer
  simp only [hlen]
  rfl

theorem hwXfer_eq (h : data.Regular) : hwXfer m data = softXfer m data := by
  unfold DmaXferData.Regular at h
  unfold hwXfer softXfer
  cases hmode : data.srcAddrMode with
  | blkcpy =>
    rw [hmode] at h
    exact hwBlkcpy_eq h
  | recycle =>
    rw [hmode] at h
    have hval : ((m data.src).setWidth 32).setWidth 8 = m data.src := by
      rw [BitVec.setWidth_setWidth_of_le _ (by decide),BitVec.setWidth_eq]
    simp only [MemDmaCh.transfer,osMemset,dlen_succ h,hval]
    rfl
  | increase =>
    rw [hmode] at h
    simp only [MemDmaCh.transfer,osMemcpy,dlen_succ h]
    rfl

/-- Whatever channel is found, a regular request has the effect of the software. -/
theorem xfer_mem (h : data.Regular) (hwidth : data.elementPerWidth < DMA_SLAVE_BUSWIDTH_UNDEFINED) :
    (hgM2mDmaXfer m ch0Lock busy data).mem = softXfer m data := by
  unfold hgM2mDmaXfer
  rw [if_neg (BitVec.not_le.mpr hwidth)]
  dsimp only
  split
  · rfl
  · exact hwXfer_eq h

/-! ## A request with and without a free channel -/

/-- No channel is taken, or both are, whenever one is looked for. -/
def allFree : ℕ → BitVec 32 := fun _ => 0
def allBusy : ℕ → BitVec 32 := fun _ => 3

theorem attempt_channel (busyFlag : BitVec 32) (dir : ℕ) (ch0Lock : Bool) :
    (attempt busyFlag dir ch0Lock).1 = hgM2mDmaGetFreeCh busyFlag
      (if dir ≠ DMA_XFER_DIR_M2M then 0 else if ch0Lock then 1 else HG_M2M_DMA_NUM) := by
  unfold attempt
  split <;> rfl

theorem attempt_allFree (i dir : ℕ) (ch0Lock : Bool) : (attempt (allFree i) dir ch0Lock).1 ≥ 0 := by
  have hfree : hgM2mDmaGetFreeCh 0 0 ≥ 0 ∧ hgM2mDmaGetFreeCh 0 1 ≥ 0
      ∧ hgM2mDmaGetFreeCh 0 HG_M2M_DMA_NUM ≥ 0 := by decide
  rw [attempt_channel]
  split
  · exact hfree.1
  · split
    · exact hfree.2.1
    · exact hfree.2.2

theorem attempt_allBusy (i dir : ℕ) (ch0Lock : Bool) : (attempt (allBusy i) dir ch0Lock).1 < 0 := by
  have hbusy : hgM2mDmaGetFreeCh 3 0 < 0 ∧ hgM2mDmaGetFreeCh 3 1 < 0
      ∧ hgM2mDmaGetFreeCh 3 HG_M2M_DMA_NUM < 0 := by decide
  rw [attempt_channel]
  split
  · exact hbusy.1
  · split
    · exact hbusy.2.1
    · exact hbusy.2.2

theorem acquire_allFree (dir retry i : ℕ) (ch0Lock : Bool) :
    (acquire allFree dir retry i ch0Lock).1 ≥ 0 := by
  have hfirst := attempt_allFree i dir ch0Lock
  cases retry with
  | zero => exact hfirst
  | succ retry =>
    rw [acquire,if_pos hfirst]
    exact hfirst

theorem acquire_allBusy (dir retry i : ℕ) (ch0Lock : Bool) :
    (acquire allBusy dir retry i ch0Lock).1 < 0 := by
  induction retry generalizing i ch0Lock with
  | zero => exact attempt_allBusy i dir ch0Lock
  | succ retry ih =>
    rw [acquire,if_neg (Int.not_le.mpr (attempt_allBusy i dir ch0Lock))]
    exact ih (i + 1) _

end Agreement

/-- The channel that a request gets, or -1. -/
def DmaXferData.channel (data : DmaXferData) (ch0Lock : Bool) (busy : ℕ → BitVec 32) : ℤ :=
  (acquire busy data.dir (data.count >>> 8).toNat 0 ch0Lock).1

/-- The software fallback cannot be told from the engine, and a refused width is
refused before the table is read at it. -/
structure FallbackAgrees (data : DmaXferData) : Prop where
  effect : ∀ m ch0Lock free busy, 0 ≤ data.channel ch0Lock free → data.channel ch0Lock busy < 0 →
    (hgM2mDmaXfer m ch0Lock free data).mem = (hgM2mDmaXfer m ch0Lock busy data).mem
  success : ∀ m ch0Lock free busy, 0 ≤ data.channel ch0Lock free → data.channel ch0Lock busy < 0 →
    (0 ≤ (hgM2mDmaXfer m ch0Lock free data).ret ↔ 0 ≤ (hgM2mDmaXfer m ch0Lock busy data).ret)
  checked : data.elementPerWidth ≥ DMA_SLAVE_BUSWIDTH_UNDEFINED →
    ∀ m ch0Lock busy, (hgM2mDmaXfer m ch0Lock busy data).tableReads = []

theorem xfer_ret {m : Memory} {ch0Lock : Bool} {busy : ℕ → BitVec 32} {data : DmaXferData}
    (hwidth : data.elementPerWidth < DMA_SLAVE_BUSWIDTH_UNDEFINED) :
    (hgM2mDmaXfer m ch0Lock busy data).ret = data.channel ch0Lock busy := by
  unfold hgM2mDmaXfer
  rw [if_neg (BitVec.not_le.mpr hwidth)]
  dsimp only
  split <;> rfl

/-- A request that is served in software answers -1, and one that is refused has
read the table by then. -/
theorem not_fallbackAgrees (data : DmaXferData) : ¬ FallbackAgrees data := by
  intro h
  have m : Memory := fun _ => 0
  by_cases hwidth : data.elementPerWidth < DMA_SLAVE_BUSWIDTH_UNDEFINED
  · have hfree : 0 ≤ data.channel false allFree := acquire_allFree data.dir _ 0 false
    have hbusy : data.channel false allBusy < 0 := acquire_allBusy data.dir _ 0 false
    have hsame := (h.success m false allFree allBusy hfree hbusy).mp
      ((xfer_ret hwidth).symm ▸ hfree)
    rw [xfer_ret hwidth] at hsame
    exact absurd hsame (Int.not_le.mpr hbusy)
  · have hnone := h.checked (BitVec.not_lt.mp hwidth) m false allFree
    have hread : (hgM2mDmaXfer m false allFree data).tableReads = [data.elementPerWidth] := by
      unfold hgM2mDmaXfer
      rw [if_pos (BitVec.not_lt.mp hwidth)]
    rw [hread] at hnone
    cases hnone

/-- A copy of one byte. -/
def oneByte : DmaXferData where
  dest := 0x20000100
  src := 0x20000200
  blkWidth := 0
  blkHeight := 0
  srcAddrMode := .increase
  srcWidth := 0
  dstWidth := 0
  dir := DMA_XFER_DIR_M2M
  elementPerWidth := DMA_SLAVE_BUSWIDTH_1_BYTE
  elementNum := 1

/-- The byte is copied either way, and the answer is 1 or -1. -/
theorem oneByte_answers : (hgM2mDmaXfer (fun _ => 0) false allFree oneByte).ret = 1
    ∧ (hgM2mDmaXfer (fun _ => 0) false allBusy oneByte).ret = -1 ∧ ¬ FallbackAgrees oneByte := by
  refine ⟨by decide,by decide,fun h => ?_⟩
  have hsame := (h.success (fun _ => 0) false allFree allBusy (by decide) (by decide)).mp (by decide)
  exact absurd hsame (by decide)

end FmacSdk.M2mDma
