import FmacSdk.Common.Errno
import Mathlib.Algebra.GroupWithZero.Nat
import Mathlib.Data.List.FinRange
import Mathlib.Logic.Function.Basic

/-! # The dw_dmac controller

Channels are claimed in order by dw_dmac_xfer and released by dw_dmac_stop; a
transfer that has ended keeps its channel until then. A bit of chn_used_flag is
kept with the client that claimed it.
-/
namespace FmacSdk.DwDmac

def DW_DMAC_MAX_DMAC_CHN : ℕ := 4

/-- enum dma_xfer_direct and enum dma_slave_buswidth -/
def DMA_XFER_DIR_M2M : ℕ := 1
def DMA_XFER_DIR_M2D : ℕ := 2
def DMA_XFER_DIR_D2M : ℕ := 3
def DMA_XFER_DIR_D2D : ℕ := 4
def DMA_SLAVE_BUSWIDTH_1_BYTE : ℕ := 0
def DMA_SLAVE_BUSWIDTH_8_BYTES : ℕ := 3

instance : NeZero DW_DMAC_MAX_DMAC_CHN := ⟨Nat.succ_ne_zero 3⟩

abbrev Channel := Fin DW_DMAC_MAX_DMAC_CHN

/-- What dw_dmac_xfer decides on in struct dma_xfer_data; `client` stands for its
addresses, request lines and interrupt handler. -/
structure DmaXferData (ι : Type*) where
  client : ι
  elementPerWidth : ℕ
  elementNum : ℕ
  dir : ℕ
deriving DecidableEq

/-- struct hgdma_dw: the claimed channels and the transfers in flight. -/
structure HgdmaDw (ι : Type*) where
  opened : Bool
  chnUsed : Channel → Option ι
  inFlight : Channel → Option ℕ

variable {ι : Type*}

/-- The state that dw_dmac_attach leaves. -/
def attach : HgdmaDw ι := ⟨true,fun _ => none,fun _ => none⟩

/-- The first channel whose bit in chn_used_flag is clear. -/
def freeChannel (d : HgdmaDw ι) : Option Channel :=
  (List.finRange DW_DMAC_MAX_DMAC_CHN).find? fun ch => (d.chnUsed ch).isNone

/-- dw_dmac_xfer, with ASSERT compiled to nothing: the channel or an error. -/
def dwDmacXfer (d : HgdmaDw ι) (data : DmaXferData ι) : HgdmaDw ι × ℤ :=
  if d.opened = false then (d,RET_ERR)
  else
    match freeChannel d with
    | none => (d, -EBUSY)
    | some ch =>
      let claimed := { d with chnUsed := Function.update d.chnUsed ch (some data.client) }
      if data.elementPerWidth ≥ DMA_SLAVE_BUSWIDTH_8_BYTES then (claimed,RET_ERR)
      else if data.dir = DMA_XFER_DIR_M2M ∨ data.dir = DMA_XFER_DIR_D2M ∨
          data.dir = DMA_XFER_DIR_M2D ∨ data.dir = DMA_XFER_DIR_D2D then
        ({ claimed with inFlight := Function.update d.inFlight ch (some data.elementNum) },(ch : ℕ))
      else (d,RET_ERR)

/-- dw_dmac_stop -/
def dwDmacStop (d : HgdmaDw ι) (chn : ℕ) : HgdmaDw ι :=
  if h : chn < DW_DMAC_MAX_DMAC_CHN then
    if (d.chnUsed ⟨chn,h⟩).isSome then
      { d with
        chnUsed := Function.update d.chnUsed ⟨chn,h⟩ none
        inFlight := Function.update d.inFlight ⟨chn,h⟩ none }
    else d
  else d

/-- The hardware ends the transfer of a channel. -/
def xferDone (d : HgdmaDw ι) (ch : Channel) : HgdmaDw ι :=
  { d with inFlight := Function.update d.inFlight ch none }

/-- A request claims the free channel for its client or changes no claim. -/
theorem dwDmacXfer_chnUsed (d : HgdmaDw ι) (data : DmaXferData ι) (ch : Channel) :
    (dwDmacXfer d data).1.chnUsed ch = d.chnUsed ch ∨
      (dwDmacXfer d data).1.chnUsed ch = some data.client := by
  unfold dwDmacXfer
  split
  · exact Or.inl rfl
  · split
    · exact Or.inl rfl
    · next free _ =>
      have hclaim : Function.update d.chnUsed free (some data.client) ch = d.chnUsed ch ∨
          Function.update d.chnUsed free (some data.client) ch = some data.client := by
        by_cases h : ch = free
        · subst h
          exact Or.inr (Function.update_self ..)
        · exact Or.inl (Function.update_of_ne h ..)
      simp only
      split
      · exact hclaim
      · split
        · exact hclaim
        · exact Or.inl rfl

@[simp] theorem dwDmacXfer_opened (d : HgdmaDw ι) (data : DmaXferData ι) :
    (dwDmacXfer d data).1.opened = d.opened := by
  unfold dwDmacXfer
  split
  · rfl
  · split
    · rfl
    · simp only
      split
      · rfl
      · split <;> rfl

/-- A well-formed request on an open controller fails only for want of a channel. -/
theorem dwDmacXfer_wellFormed {d : HgdmaDw ι} {data : DmaXferData ι} (hopen : d.opened = true)
    (hwidth : data.elementPerWidth < DMA_SLAVE_BUSWIDTH_8_BYTES)
    (hdir : data.dir = DMA_XFER_DIR_M2M ∨ data.dir = DMA_XFER_DIR_D2M ∨
      data.dir = DMA_XFER_DIR_M2D ∨ data.dir = DMA_XFER_DIR_D2D) :
    dwDmacXfer d data = match freeChannel d with
      | none => (d, -EBUSY)
      | some ch => ({ d with
          chnUsed := Function.update d.chnUsed ch (some data.client)
          inFlight := Function.update d.inFlight ch (some data.elementNum) },((ch : ℕ) : ℤ)) := by
  unfold dwDmacXfer
  rw [if_neg (by simp [hopen])]
  cases freeChannel d with
  | none => rfl
  | some ch =>
    simp only
    rw [if_neg (by omega),if_pos hdir]

/-- A request that fails leaves the controller as it was, unless it is too wide. -/
theorem dwDmacXfer_failed {d : HgdmaDw ι} {data : DmaXferData ι}
    (hwidth : data.elementPerWidth < DMA_SLAVE_BUSWIDTH_8_BYTES) (h : (dwDmacXfer d data).2 < 0) :
    (dwDmacXfer d data).1 = d := by
  unfold dwDmacXfer at h ⊢
  split
  · rfl
  · next hopen =>
    rw [if_neg hopen] at h
    cases hfree : freeChannel d with
    | none => rfl
    | some ch =>
      simp only [hfree] at h ⊢
      rw [if_neg (not_le.mpr hwidth)] at h ⊢
      split
      · next hdir =>
        rw [if_pos hdir] at h
        exact absurd h (not_lt.mpr (Int.natCast_nonneg _))
      · rfl

/-- Stopping a channel clears its claim and no other. -/
theorem dwDmacStop_chnUsed (d : HgdmaDw ι) (chn : ℕ) (ch : Channel) :
    (dwDmacStop d chn).chnUsed ch = if (ch : ℕ) = chn then none else d.chnUsed ch := by
  unfold dwDmacStop
  by_cases h : chn < DW_DMAC_MAX_DMAC_CHN
  · by_cases hch : (ch : ℕ) = chn
    · subst hch
      cases hused : d.chnUsed ch <;> simp [hused]
    · have hne : ch ≠ ⟨chn,h⟩ := fun he => hch (congrArg Fin.val he)
      by_cases hused : (d.chnUsed ⟨chn,h⟩).isSome = true
      · simp [h,hused,hch,Function.update_of_ne hne]
      · simp [h,hused,hch]
  · have hch : (ch : ℕ) ≠ chn := fun he => h (he ▸ ch.isLt)
    simp [h,hch]

theorem dwDmacStop_inFlight (d : HgdmaDw ι) (chn ch : Channel) : (dwDmacStop d chn).inFlight ch =
    if ch = chn ∧ (d.chnUsed chn).isSome then none else d.inFlight ch := by
  unfold dwDmacStop
  rw [dif_pos chn.isLt]
  by_cases hused : (d.chnUsed chn).isSome = true
  · by_cases hch : ch = chn
    · subst hch
      simp [hused]
    · simp [hused,hch]
  · simp [hused]

@[simp] theorem dwDmacStop_opened (d : HgdmaDw ι) (chn : ℕ) : (dwDmacStop d chn).opened = d.opened := by
  unfold dwDmacStop
  split
  · split <;> rfl
  · rfl

end FmacSdk.DwDmac
