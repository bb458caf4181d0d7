import FmacSdk.Driver.DwDmac
import FmacSdk.Foundation.Leases
import FmacSdk.Foundation.Transition

/-! # Interleaved requests to dw_dmac

dw_dmac_xfer claims a channel with the interrupts off and goes on with them on;
its default exit gives the channel back by a load and a store of chn_used_flag.
-/
namespace FmacSdk.DwDmac
open Leases Transition
variable {ι : Type*}

abbrev DmaEvent := Event Channel ℕ ℤ

/-- Where a call of dw_dmac_xfer is; behind its last access it only returns. -/
inductive XferPc (ι : Type*)
  | claim (data : DmaXferData ι)
  | check (data : DmaXferData ι) (ch : Channel)
  | start (data : DmaXferData ι) (ch : Channel)
  | load (ch : Channel)
  | store (ch : Channel) (loaded : Channel → Option ι)

def XferPc.channel : XferPc ι → Option Channel
  | .claim _ => none
  | .check _ ch | .start _ ch | .load ch | .store ch _ => some ch

/-- The controller, the calls in progress and what has happened, newest first. -/
structure Calls (ι : Type*) where
  dev : HgdmaDw ι
  calls : ℕ → Option (XferPc ι)
  next : ℕ
  log : List DmaEvent

inductive Label (ι : Type*)
  | xfer (data : DmaXferData ι)
  | go (id : ℕ)
  | done (ch : Channel) (stops : Bool)
  | stop (ch : Channel)

def Calls.setPc (s : Calls ι) (id : ℕ) (pc : XferPc ι) : Calls ι :=
  { s with calls := Function.update s.calls id (some pc) }

def Calls.finish (s : Calls ι) (id : ℕ) (result : Except ℤ Channel) : Calls ι :=
  { s with calls := Function.update s.calls id none, log := .returned id result :: s.log }

def Calls.enter (s : Calls ι) (data : DmaXferData ι) : Calls ι :=
  { s.setPc s.next (.claim data) with next := s.next + 1 }

def Calls.setDev (s : Calls ι) (dev : HgdmaDw ι) : Calls ι := { s with dev := dev }

/-- dw_dmac_stop on a channel -/
def Calls.stop (s : Calls ι) (ch : Channel) : Calls ι :=
  { s with dev := dwDmacStop s.dev ch, log := .released ch :: s.log }

/-- The next access of a call. -/
def Calls.go (s : Calls ι) (id : ℕ) : XferPc ι → Calls ι
  | .claim data =>
    match freeChannel s.dev with
    | none => s.finish id (.error (-EBUSY))
    | some ch =>
      { s.setPc id (.check data ch) with
        dev := { s.dev with chnUsed := Function.update s.dev.chnUsed ch (some data.client) }
        log := .claimed id ch :: s.log }
  | .check data ch =>
    if data.elementPerWidth ≥ DMA_SLAVE_BUSWIDTH_8_BYTES then s.finish id (.error RET_ERR)
    else if data.dir = DMA_XFER_DIR_M2M ∨ data.dir = DMA_XFER_DIR_D2M ∨
        data.dir = DMA_XFER_DIR_M2D ∨ data.dir = DMA_XFER_DIR_D2D then s.setPc id (.start data ch)
    else s.setPc id (.load ch)
  | .start data ch =>
    (s.setDev { s.dev with
      inFlight := Function.update s.dev.inFlight ch (some data.elementNum) }).finish id (.ok ch)
  | .load ch => s.setPc id (.store ch s.dev.chnUsed)
  | .store ch loaded =>
    (s.setDev { s.dev with chnUsed := Function.update loaded ch none }).finish id (.error RET_ERR)

/-- The channel was returned to a caller who has not stopped it. -/
def Calls.Owned (s : Calls ι) (ch : Channel) : Prop :=
  ∃ id ∈ holder ch s.log, .returned id (.ok ch) ∈ s.log

instance (s : Calls ι) (ch : Channel) : Decidable (s.Owned ch) :=
  inferInstanceAs (Decidable (∃ id ∈ holder ch s.log, _))

/-- A request, an access of a call, the interrupt at the end of a transfer, whose
handler may stop its channel, and dma_stop by the owner. -/
def step (s : Calls ι) : Label ι → Option (Calls ι)
  | .xfer data =>
    if s.dev.opened = false then some ((s.enter data).finish s.next (.error RET_ERR))
    else some (s.enter data)
  | .go id => (s.calls id).map (s.go id)
  | .done ch stops =>
    if (s.dev.inFlight ch).isSome then
      some (if stops then (s.setDev (xferDone s.dev ch)).stop ch else s.setDev (xferDone s.dev ch))
    else none
  | .stop ch => if s.Owned ch then some (s.stop ch) else none

/-- The state that dw_dmac_attach leaves, opened or not. -/
def attached (opened : Bool) : Calls ι := ⟨{ attach with opened := opened },fun _ => none,0,[]⟩

/-- Every bit has an owner or a call that works on it, and no channel two. -/
structure Accounted (s : Calls ι) : Prop where
  bits : ∀ ch, (s.dev.chnUsed ch).isSome = true ↔ ∃ id, holder ch s.log = some id
  owned : ∀ ch id, holder ch s.log = some id → s.calls id = none → .returned id (.ok ch) ∈ s.log
  exclusive : Exclusive s.log

/-- The accesses that keep the bits: the request behind a claim is not too wide,
and at the store of the default exit its load is still right, but for the bit of
the call. -/
def XferPc.Safe (dev : HgdmaDw ι) : XferPc ι → Prop
  | .check data _ => data.elementPerWidth < DMA_SLAVE_BUSWIDTH_8_BYTES
  | .store ch loaded => ∀ ch', ch' ≠ ch → (loaded ch').isSome = (dev.chnUsed ch').isSome
  | _ => True

instance (dev : HgdmaDw ι) : (pc : XferPc ι) → Decidable (pc.Safe dev)
  | .check _ _ => inferInstanceAs (Decidable (_ < _))
  | .store ch _ => inferInstanceAs (Decidable (∀ ch', ch' ≠ ch → _))
  | .claim _ | .start _ _ | .load _ => inferInstanceAs (Decidable True)

def Calls.Safe (s : Calls ι) : Label ι → Prop
  | .go id => ∀ pc ∈ s.calls id, pc.Safe s.dev
  | _ => True

instance (s : Calls ι) : (l : Label ι) → Decidable (s.Safe l)
  | .go id => inferInstanceAs (Decidable (∀ pc ∈ s.calls id, pc.Safe s.dev))
  | .xfer _ | .done _ _ | .stop _ => inferInstanceAs (Decidable True)

/-- A call in progress holds its channel, which has no transfer yet, and has not
returned. -/
structure InProgress (s : Calls ι) (id : ℕ) (pc : XferPc ι) : Prop where
  holds : ∀ ch, holder ch s.log = some id ↔ pc.channel = some ch
  idle : ∀ ch, pc.channel = some ch → s.dev.inFlight ch = none
  pending : ∀ r, .returned id r ∉ s.log

structure Inv (s : Calls ι) : Prop where
  accounted : Accounted s
  quiet : ∀ ch, holder ch s.log = none → s.dev.inFlight ch = none
  fresh : ∀ id, s.next ≤ id → s.calls id = none ∧ (∀ ch, holder ch s.log ≠ some id) ∧
    ∀ r, .returned id r ∉ s.log
  calls : ∀ id pc, s.calls id = some pc → InProgress s id pc

variable {s t : Calls ι}

theorem Inv.free_iff (h : Inv s) (ch : Channel) : s.dev.chnUsed ch = none ↔ holder ch s.log = none := by
  rw [← Option.not_isSome_iff_eq_none,← Option.not_isSome_iff_eq_none,h.accounted.bits,
    Option.isSome_iff_exists]

theorem Inv.lt_next (h : Inv s) {id : ℕ} {pc : XferPc ι} (hpc : s.calls id = some pc) : id < s.next := by
  by_contra hge
  rw [(h.fresh id (not_lt.mp hge)).1] at hpc
  simp at hpc

/-- An access that changes nothing but where the call is. -/
theorem Inv.setPc (h : Inv s) {id : ℕ} {pc pc' : XferPc ι} (hpc : s.calls id = some pc)
    (hch : pc'.channel = pc.channel) : Inv (s.setPc id pc') := by
  have hlt := h.lt_next hpc
  refine ⟨⟨h.accounted.bits,fun ch j hj hcall => ?_,h.accounted.exclusive⟩,h.quiet,fun j hj => ?_,
    fun j pcj hj => ?_⟩
  · have hne : j ≠ id := by
      rintro rfl
      simp [Calls.setPc] at hcall
    exact h.accounted.owned ch j hj (by simpa [Calls.setPc,hne] using hcall)
  · have hge : s.next ≤ j := hj
    have hne : j ≠ id := by omega
    refine ⟨?_,(h.fresh j hj).2⟩
    simpa [Calls.setPc,hne] using (h.fresh j hj).1
  · by_cases hne : j = id
    · subst hne
      obtain rfl : pc' = pcj := by simpa [Calls.setPc] using hj
      have hold := h.calls j pc hpc
      exact ⟨fun ch => hch ▸ hold.holds ch,fun ch hc => hold.idle ch (hch ▸ hc),hold.pending⟩
    · have hold := h.calls j pcj (by simpa [Calls.setPc,hne] using hj)
      exact ⟨hold.holds,hold.idle,hold.pending⟩

theorem InProgress.frame {j : ℕ} {pc : XferPc ι} (h : InProgress s j pc)
    (hheld : ∀ ch, holder ch t.log = some j ↔ holder ch s.log = some j)
    (hidle : ∀ ch, holder ch s.log = some j → t.dev.inFlight ch = s.dev.inFlight ch)
    (hret : ∀ r, .returned j r ∈ t.log → .returned j r ∈ s.log) : InProgress t j pc := by
  refine ⟨fun ch => (hheld ch).trans (h.holds ch),fun ch hc => ?_,fun r hr => h.pending r (hret r hr)⟩
  rw [hidle ch ((h.holds ch).mpr hc)]
  exact h.idle ch hc

theorem Inv.claim (h : Inv s) {id : ℕ} {data : DmaXferData ι} {ch : Channel}
    (hpc : s.calls id = some (.claim data)) (hfree : freeChannel s.dev = some ch) :
    Inv (s.go id (.claim data)) := by
  have hlt := h.lt_next hpc
  have hcall := h.calls id _ hpc
  have hused : s.dev.chnUsed ch = none := by simpa using List.find?_some hfree
  have hholder : holder ch s.log = none := (h.free_iff ch).mp hused
  have hother (j : ℕ) (hne : j ≠ id) (ch' : Channel) :
      holder ch' (.claimed id ch :: s.log) = some j ↔ holder ch' s.log = some j := by
    by_cases hch : ch = ch'
    · subst hch
      simp [hholder,Ne.symm hne]
    · rw [holder_claimed_of_ne hch]
  simp only [Calls.go,hfree]
  refine ⟨⟨fun ch' => ?_,fun ch' j hj hnone => ?_,?_⟩,fun ch' hnone => ?_,fun j hj => ?_,fun j pc hj => ?_⟩
  · by_cases hch : ch' = ch
    · subst hch
      simp
    · have hsame : Function.update s.dev.chnUsed ch (some data.client) ch' = s.dev.chnUsed ch' :=
        Function.update_of_ne hch _ _
      rw [holder_claimed_of_ne (Ne.symm hch)]
      show (Function.update s.dev.chnUsed ch (some data.client) ch').isSome = true ↔ _
      rw [hsame]
      exact h.accounted.bits ch'
  · have hne : j ≠ id := by
      rintro rfl
      simp [Calls.setPc] at hnone
    have hret := h.accounted.owned ch' j ((hother j hne ch').mp hj) (by simpa [Calls.setPc,hne] using hnone)
    exact List.mem_cons_of_mem _ hret
  · refine h.accounted.exclusive.cons fun i r he => ?_
    obtain ⟨-,rfl⟩ := Event.claimed.inj he
    exact hholder
  · by_cases hch : ch = ch'
    · subst hch
      simp at hnone
    · exact h.quiet ch' (by rwa [holder_claimed_of_ne hch] at hnone)
  · have hge : s.next ≤ j := hj
    have hne : j ≠ id := by omega
    obtain ⟨hcalls,hholds,hret⟩ := h.fresh j hge
    refine ⟨by simpa [Calls.setPc,hne] using hcalls,fun ch' he => hholds ch' ((hother j hne ch').mp he),?_⟩
    simpa using hret
  · by_cases hne : j = id
    · subst hne
      obtain rfl : .check data ch = pc := by simpa [Calls.setPc] using hj
      refine ⟨fun ch' => ?_,fun ch' hc => ?_,by simpa using hcall.pending⟩
      · by_cases hch : ch = ch'
        · subst hch
          simp [XferPc.channel]
        · rw [holder_claimed_of_ne hch,hcall.holds]
          simp [XferPc.channel,hch]
      · obtain rfl : ch = ch' := by simpa [XferPc.channel] using hc
        exact h.quiet ch hholder
    · have hold := h.calls j pc (by simpa [Calls.setPc,hne] using hj)
      exact hold.frame (hother j hne) (fun _ _ => rfl) (by simp)

theorem mem_of_returned {i j : ℕ} {r r' : Except ℤ Channel} {log : List DmaEvent} (hne : j ≠ i)
    (h : .returned j r ∈ Event.returned i r' :: log) : .returned j r ∈ log := by
  rcases List.mem_cons.mp h with he | h
  · exact absurd (Event.returned.inj he).1 hne
  · exact h

/-- A call that fails leaves the bits of the other calls. -/
theorem Inv.fail (h : Inv s) {id : ℕ} {pc : XferPc ι} (hpc : s.calls id = some pc) (e : ℤ)
    {dev : HgdmaDw ι} (hflight : dev.inFlight = s.dev.inFlight)
    (hbits : ∀ ch, (dev.chnUsed ch).isSome = true ↔ ∃ j, holder ch s.log = some j ∧ j ≠ id) :
    Inv ((s.setDev dev).finish id (.error e)) := by
  have hlt := h.lt_next hpc
  have hcall := h.calls id pc hpc
  have hholder (ch : Channel) (j : ℕ) : holder ch (.returned id (.error e) :: s.log) = some j ↔
      holder ch s.log = some j ∧ j ≠ id := holder_error_eq_some
  have hcalls {j : ℕ} (hne : j ≠ id) : ((s.setDev dev).finish id (.error e)).calls j = s.calls j :=
    Function.update_of_ne hne _ _
  refine ⟨⟨fun ch => ?_,fun ch j hj hnone => ?_,?_⟩,fun ch hnone => ?_,fun j hj => ?_,fun j pcj hj => ?_⟩
  · exact (hbits ch).trans (exists_congr fun j => (hholder ch j).symm)
  · obtain ⟨hj,hne⟩ := (hholder ch j).mp hj
    exact List.mem_cons_of_mem _ (h.accounted.owned ch j hj (hcalls hne ▸ hnone))
  · exact h.accounted.exclusive.cons (by simp)
  · show dev.inFlight ch = none
    rw [hflight]
    by_cases hid : holder ch s.log = some id
    · exact hcall.idle ch ((hcall.holds ch).mp hid)
    · exact h.quiet ch ((holder_error_of_ne hid).symm.trans hnone)
  · have hge : s.next ≤ j := hj
    have hne : j ≠ id := by omega
    obtain ⟨hnone,hholds,hret⟩ := h.fresh j hge
    exact ⟨(hcalls hne).trans hnone,fun ch he => hholds ch ((hholder ch j).mp he).1,
      fun r hr => hret r (mem_of_returned hne hr)⟩
  · have hne : j ≠ id := by
      rintro rfl
      simp [Calls.finish] at hj
    have hold := h.calls j pcj (hcalls hne ▸ hj)
    exact hold.frame (fun ch => (hholder ch j).trans (and_iff_left hne)) (fun ch _ => congrFun hflight ch)
      fun r => mem_of_returned hne

/-- A call that starts its transfer hands its channel over. -/
theorem Inv.started (h : Inv s) {id : ℕ} {data : DmaXferData ι} {ch : Channel}
    (hpc : s.calls id = some (.start data ch)) : Inv (s.go id (.start data ch)) := by
  have hlt := h.lt_next hpc
  have hcall := h.calls id _ hpc
  have hmine : holder ch s.log = some id := (hcall.holds ch).mpr rfl
  have hcalls {j : ℕ} (hne : j ≠ id) : (s.go id (.start data ch)).calls j = s.calls j :=
    Function.update_of_ne hne _ _
  have hflight {ch' : Channel} (hne : holder ch' s.log ≠ some id) :
      (s.go id (.start data ch)).dev.inFlight ch' = s.dev.inFlight ch' :=
    Function.update_of_ne (fun he : ch' = ch => hne (he ▸ hmine)) _ _
  refine ⟨⟨h.accounted.bits,fun ch' j hj hnone => ?_,?_⟩,fun ch' hnone => ?_,fun j hj => ?_,fun j pc hj => ?_⟩
  · by_cases hne : j = id
    · subst hne
      obtain rfl : ch = ch' := by simpa [XferPc.channel] using (hcall.holds ch').mp hj
      exact List.mem_cons_self
    · exact List.mem_cons_of_mem _ (h.accounted.owned ch' j hj (hcalls hne ▸ hnone))
  · exact h.accounted.exclusive.cons (by simp)
  · have hnone : holder ch' s.log = none := hnone
    rw [hflight (by simp [hnone])]
    exact h.quiet ch' hnone
  · have hge : s.next ≤ j := hj
    have hne : j ≠ id := by omega
    obtain ⟨hnone,hholds,hret⟩ := h.fresh j hge
    exact ⟨(hcalls hne).trans hnone,hholds,fun r hr => hret r (mem_of_returned hne hr)⟩
  · have hne : j ≠ id := by
      rintro rfl
      simp [Calls.go,Calls.finish] at hj
    have hold := h.calls j pc (hcalls hne ▸ hj)
    refine hold.frame (fun _ => Iff.rfl) (fun ch' hj' => hflight ?_) fun r => mem_of_returned hne
    simpa [hj'] using hne

/-- A stop takes the channel from a call that has returned it. -/
theorem Inv.stop (h : Inv s) {ch : Channel}
    (hreturned : ∀ id pc, s.calls id = some pc → pc.channel ≠ some ch) : Inv (s.stop ch) := by
  have hused (ch' : Channel) : (s.stop ch).dev.chnUsed ch' =
      if (ch' : ℕ) = ch then none else s.dev.chnUsed ch' := dwDmacStop_chnUsed s.dev ch ch'
  have hflight (ch' : Channel) : (s.stop ch).dev.inFlight ch' =
      if ch' = ch ∧ (s.dev.chnUsed ch).isSome then none else s.dev.inFlight ch' :=
    dwDmacStop_inFlight s.dev ch ch'
  have hother {ch' : Channel} {j : ℕ} : holder ch' (.released ch :: s.log) = some j ↔
      ch' ≠ ch ∧ holder ch' s.log = some j := by
    by_cases hch : ch = ch'
    · subst hch
      simp
    · simp [holder_released_of_ne hch,Ne.symm hch]
  refine ⟨⟨fun ch' => ?_,fun ch' j hj hnone => ?_,?_⟩,fun ch' hnone => ?_,fun j hj => ?_,fun j pc hj => ?_⟩
  · rw [hused]
    by_cases hch : ch' = ch
    · subst hch
      simp [Calls.stop]
    · rw [if_neg (fun he => hch (Fin.ext he))]
      refine (h.accounted.bits ch').trans (exists_congr fun j => ?_)
      exact (hother.trans (and_iff_right hch)).symm
  · exact List.mem_cons_of_mem _ (h.accounted.owned ch' j (hother.mp hj).2 hnone)
  · exact h.accounted.exclusive.cons (by simp)
  · rw [hflight]
    split
    · rfl
    · next hkept =>
      by_cases hch : ch' = ch
      · subst hch
        refine h.quiet ch' ((h.free_iff ch').mp ?_)
        simpa using hkept
      · exact h.quiet ch' ((holder_released_of_ne (Ne.symm hch)).symm.trans hnone)
  · obtain ⟨hnone,hholds,hret⟩ := h.fresh j hj
    exact ⟨hnone,fun ch' he => hholds ch' (hother.mp he).2,by simpa [Calls.stop] using hret⟩
  · have hold := h.calls j pc hj
    have hne {ch' : Channel} (hh : holder ch' s.log = some j) : ch' ≠ ch := fun he =>
      hreturned j pc hj (he ▸ (hold.holds ch').mp hh)
    refine hold.frame (fun ch' => hother.trans (and_iff_right_of_imp hne)) (fun ch' hh => ?_) (by simp [Calls.stop])
    rw [hflight,if_neg fun hc => hne hh hc.1]

/-- The end of a transfer, of whatever call. -/
theorem Inv.done (h : Inv s) (ch : Channel) : Inv (s.setDev (xferDone s.dev ch)) := by
  have hflight {ch' : Channel} (hnone : s.dev.inFlight ch' = none) :
      (xferDone s.dev ch).inFlight ch' = none := by
    unfold xferDone
    by_cases hch : ch' = ch
    · subst hch
      simp
    · simpa [hch] using hnone
  refine ⟨⟨h.accounted.bits,h.accounted.owned,h.accounted.exclusive⟩,fun ch' hnone => hflight (h.quiet ch' hnone),h.fresh,fun j pc hj => ?_⟩
  have hold := h.calls j pc hj
  exact ⟨hold.holds,fun ch' hc => hflight (hold.idle ch' hc),hold.pending⟩

theorem Inv.enter (h : Inv s) (data : DmaXferData ι) : Inv (s.enter data) := by
  obtain ⟨-,hholds,hret⟩ := h.fresh s.next le_rfl
  have hcalls {j : ℕ} (hne : j ≠ s.next) : (s.enter data).calls j = s.calls j :=
    Function.update_of_ne hne _ _
  refine ⟨⟨h.accounted.bits,fun ch j hj hnone => ?_,h.accounted.exclusive⟩,h.quiet,fun j hj => ?_,
    fun j pc hj => ?_⟩
  · have hne : j ≠ s.next := fun he => hholds ch (he ▸ hj)
    exact h.accounted.owned ch j hj (hcalls hne ▸ hnone)
  · have hge : s.next + 1 ≤ j := hj
    obtain ⟨hnone,hrest⟩ := h.fresh j (by omega)
    exact ⟨(hcalls (by omega)).trans hnone,hrest⟩
  · by_cases hne : j = s.next
    · subst hne
      obtain rfl : .claim data = pc := by simpa [Calls.enter,Calls.setPc] using hj
      exact ⟨fun ch => iff_of_false (hholds ch) (by simp [XferPc.channel]),by simp [XferPc.channel],hret⟩
    · have hold := h.calls j pc (hcalls hne ▸ hj)
      exact ⟨hold.holds,hold.idle,hold.pending⟩

/-- A call that fails without a channel changes no bit. -/
theorem Inv.reject (h : Inv s) {id : ℕ} {data : DmaXferData ι} (hpc : s.calls id = some (.claim data))
    (e : ℤ) : Inv (s.finish id (.error e)) := by
  show Inv ((s.setDev s.dev).finish id (.error e))
  refine h.fail hpc e rfl fun ch => (h.accounted.bits ch).trans (exists_congr fun j => ?_)
  have hnot : holder ch s.log ≠ some id := fun hh => by
    simpa [XferPc.channel] using ((h.calls id _ hpc).holds ch).mp hh
  exact (and_iff_left_of_imp fun hj (he : j = id) => hnot (he ▸ hj)).symm

theorem Inv.store (h : Inv s) {id : ℕ} {ch : Channel} {loaded : Channel → Option ι}
    (hpc : s.calls id = some (.store ch loaded))
    (hsafe : ∀ ch', ch' ≠ ch → (loaded ch').isSome = (s.dev.chnUsed ch').isSome) :
    Inv (s.go id (.store ch loaded)) := by
  have hcall := h.calls id _ hpc
  refine h.fail hpc RET_ERR rfl fun ch' => ?_
  by_cases hch : ch' = ch
  · subst hch
    have hmine : holder ch' s.log = some id := (hcall.holds ch').mpr rfl
    simp [hmine,eq_comm]
  · have hnot : holder ch' s.log ≠ some id := fun hh =>
      hch (by simpa [XferPc.channel,eq_comm] using (hcall.holds ch').mp hh)
    show (Function.update loaded ch none ch').isSome = true ↔ _
    rw [Function.update_of_ne hch,hsafe ch' hch,h.accounted.bits]
    exact exists_congr fun j => (and_iff_left_of_imp fun hj (he : j = id) => hnot (he ▸ hj)).symm

theorem Inv.go (h : Inv s) {id : ℕ} {pc : XferPc ι} (hpc : s.calls id = some pc) (hsafe : pc.Safe s.dev) :
    Inv (s.go id pc) := by
  cases pc with
  | claim data =>
    cases hfree : freeChannel s.dev with
    | none =>
      simp only [Calls.go,hfree]
      exact h.reject hpc _
    | some ch => exact h.claim hpc hfree
  | check data ch =>
    simp only [Calls.go]
    rw [if_neg (not_le.mpr hsafe)]
    split
    · exact h.setPc hpc rfl
    · exact h.setPc hpc rfl
  | start data ch => exact h.started hpc
  | load ch => exact h.setPc hpc rfl
  | store ch loaded => exact h.store hpc hsafe

theorem Inv.step (h : Inv s) {l : Label ι} (hsafe : s.Safe l) (hstep : step s l = some t) : Inv t := by
  cases l with
  | xfer data =>
    simp only [DwDmac.step] at hstep
    split at hstep
    · obtain rfl := Option.some.inj hstep
      exact (h.enter data).reject (Function.update_self ..) _
    · obtain rfl := Option.some.inj hstep
      exact h.enter data
  | go id =>
    obtain ⟨pc,hpc,rfl⟩ := Option.map_eq_some_iff.mp hstep
    exact h.go hpc (hsafe pc hpc)
  | done ch stops =>
    simp only [DwDmac.step] at hstep
    split at hstep
    · next hflight =>
      obtain rfl := Option.some.inj hstep
      split
      · refine (h.done ch).stop fun id pc hpc hc => ?_
        simp [(h.calls id pc hpc).idle ch hc] at hflight
      · exact h.done ch
    · simp at hstep
  | stop ch =>
    simp only [DwDmac.step] at hstep
    split at hstep
    · next howned =>
      obtain rfl := Option.some.inj hstep
      obtain ⟨id,hid,hret⟩ := howned
      refine h.stop fun j pc hpc hc => ?_
      have hcall := h.calls j pc hpc
      obtain rfl : id = j := Option.some.inj (hid.symm.trans ((hcall.holds ch).mpr hc))
      exact hcall.pending _ hret
    · simp at hstep

theorem attached_inv (opened : Bool) : Inv (attached opened : Calls ι) := by
  refine ⟨⟨by simp [attached,attach],by simp [attached],Exclusive.nil⟩,?_,?_,?_⟩ <;>
    simp [attached,attach]

/-- An access that is not safe shows in a bit. -/
theorem Inv.shows (h : Inv s) {id : ℕ} {pc : XferPc ι} (hpc : s.calls id = some pc)
    (hafter : Accounted (s.go id pc)) : pc.Safe s.dev := by
  have hcall := h.calls id pc hpc
  cases pc with
  | claim _ | start _ _ | load _ => trivial
  | check data ch =>
    by_contra hwide
    have hmine : holder ch s.log = some id := (hcall.holds ch).mpr rfl
    simp only [Calls.go] at hafter
    rw [if_pos (not_lt.mp hwide)] at hafter
    have hbit : (s.dev.chnUsed ch).isSome = true := (h.accounted.bits ch).mpr ⟨id,hmine⟩
    obtain ⟨j,hj⟩ := (hafter.bits ch).mp hbit
    obtain ⟨hj,hne⟩ := holder_error_eq_some.mp hj
    exact hne (Option.some.inj (hj.symm.trans hmine))
  | store ch loaded =>
    intro ch' hch
    have hnot : holder ch' s.log ≠ some id := fun hh =>
      hch (by simpa [XferPc.channel,eq_comm] using (hcall.holds ch').mp hh)
    have hbits := hafter.bits ch'
    simp only [Calls.go,Calls.finish,Calls.setDev] at hbits
    rw [Function.update_of_ne hch,holder_error_of_ne hnot] at hbits
    exact Bool.eq_iff_iff.mpr (hbits.trans (h.accounted.bits ch').symm)

/-- The channels are accounted for in every state of a run exactly if no claim is
made for a request that is too wide and no bit changes between the load and the
store of the default exit. -/
theorem accounted_along_iff {opened : Bool} {ls : List (Label ι)} (h : Runs step (attached opened) ls s) :
    (∀ ms t, ms <+: ls → Runs step (attached opened) ms t → Accounted t) ↔
      Runs (guarded Calls.Safe step) (attached opened) ls s := by
  refine h.guarded_iff (I := Inv) (fun _ hi => hi.accounted) (fun _ _ _ hi hg hs => hi.step hg hs)
    (fun u l v hi hs hp => ?_) (attached_inv opened)
  cases l with
  | go id =>
    intro pc hpc
    obtain ⟨pc',hpc',rfl⟩ := Option.map_eq_some_iff.mp hs
    obtain rfl : pc' = pc := Option.some.inj (hpc'.symm.trans hpc)
    exact hi.shows hpc hp
  | xfer _ | done _ _ | stop _ => trivial

/-- What dw_dmac_xfer returns. -/
def code : Except ℤ Channel → ℤ
  | .ok ch => (ch : ℕ)
  | .error e => e

theorem exec_go {id : ℕ} {pc : XferPc ι} (hpc : s.calls id = some pc) (k : ℕ) :
    exec step s (List.replicate (k + 1) (.go id)) = exec step (s.go id pc) (List.replicate k (.go id)) := by
  simp [List.replicate_succ,step,hpc]

section Uninterrupted
variable {data : DmaXferData ι} {ch : Channel}

/-- A call has claimed a channel and looks at its request next. -/
def Calls.claimed (s : Calls ι) (data : DmaXferData ι) (ch : Channel) : Calls ι :=
  { (s.enter data).setPc s.next (.check data ch) with
    dev := { s.dev with chnUsed := Function.update s.dev.chnUsed ch (some data.client) }
    log := .claimed s.next ch :: s.log }

theorem claimed_calls : (s.claimed data ch).calls s.next = some (.check data ch) := Function.update_self ..

theorem exec_enter (hopen : s.dev.opened ≠ false) (k : ℕ) :
    exec step s (.xfer data :: List.replicate (k + 1) (.go s.next)) =
      exec step ((s.enter data).go s.next (.claim data)) (List.replicate k (.go s.next)) := by
  have hclaim : (s.enter data).calls s.next = some (.claim data) := Function.update_self ..
  rw [exec_cons,step,if_neg hopen]
  exact exec_go hclaim k

theorem exec_busy (hopen : s.dev.opened ≠ false) (hfree : freeChannel s.dev = none) :
    exec step s (.xfer data :: List.replicate 1 (.go s.next)) =
      some ((s.enter data).finish s.next (.error (-EBUSY))) := by
  have hbusy : (s.enter data).go s.next (.claim data) = (s.enter data).finish s.next (.error (-EBUSY)) := by
    show (match freeChannel s.dev with | none => _ | some ch => _) = _
    rw [hfree]
  rw [exec_enter hopen 0,hbusy]
  rfl

theorem exec_claimed (hopen : s.dev.opened ≠ false) (hfree : freeChannel s.dev = some ch) (k : ℕ) :
    exec step s (.xfer data :: List.replicate (k + 2) (.go s.next)) =
      exec step ((s.claimed data ch).go s.next (.check data ch)) (List.replicate k (.go s.next)) := by
  have hclaimed : (s.enter data).go s.next (.claim data) = s.claimed data ch := by
    show (match freeChannel s.dev with | none => _ | some ch => _) = _
    rw [hfree]
    rfl
  rw [exec_enter hopen (k + 1),hclaimed]
  exact exec_go claimed_calls k

theorem exec_wide (hopen : s.dev.opened ≠ false) (hfree : freeChannel s.dev = some ch)
    (hwide : data.elementPerWidth ≥ DMA_SLAVE_BUSWIDTH_8_BYTES) :
    exec step s (.xfer data :: List.replicate 2 (.go s.next)) =
      some ((s.claimed data ch).finish s.next (.error RET_ERR)) := by
  rw [exec_claimed hopen hfree 0,Calls.go,if_pos hwide]
  rfl

theorem exec_started (hopen : s.dev.opened ≠ false) (hfree : freeChannel s.dev = some ch)
    (hwidth : ¬ data.elementPerWidth ≥ DMA_SLAVE_BUSWIDTH_8_BYTES)
    (hdir : data.dir = DMA_XFER_DIR_M2M ∨ data.dir = DMA_XFER_DIR_D2M ∨
      data.dir = DMA_XFER_DIR_M2D ∨ data.dir = DMA_XFER_DIR_D2D) :
    exec step s (.xfer data :: List.replicate 3 (.go s.next)) =
      some (((s.claimed data ch).setPc s.next (.start data ch)).go s.next (.start data ch)) := by
  have hpc : ((s.claimed data ch).setPc s.next (.start data ch)).calls s.next = some (.start data ch) :=
    Function.update_self ..
  rw [exec_claimed hopen hfree 1,Calls.go,if_neg hwidth,if_pos hdir]
  exact exec_go hpc 0

/-- The default exit stores what it has loaded, with its own bit cleared. -/
theorem exec_undirected (hopen : s.dev.opened ≠ false) (hfree : freeChannel s.dev = some ch)
    (hwidth : ¬ data.elementPerWidth ≥ DMA_SLAVE_BUSWIDTH_8_BYTES)
    (hdir : ¬ (data.dir = DMA_XFER_DIR_M2M ∨ data.dir = DMA_XFER_DIR_D2M ∨
      data.dir = DMA_XFER_DIR_M2D ∨ data.dir = DMA_XFER_DIR_D2D)) :
    ∃ t : Calls ι, exec step s (.xfer data :: List.replicate 4 (.go s.next)) =
      some ((t.setDev s.dev).finish s.next (.error RET_ERR)) := by
  let u := (s.claimed data ch).setPc s.next (.load ch)
  have hload : u.calls s.next = some (.load ch) := Function.update_self ..
  let v := u.setPc s.next (.store ch (s.claimed data ch).dev.chnUsed)
  have hstore : v.calls s.next = some (.store ch (s.claimed data ch).dev.chnUsed) := Function.update_self ..
  have hused : s.dev.chnUsed ch = none := by simpa using List.find?_some hfree
  have hrestored : Function.update (Function.update s.dev.chnUsed ch (some data.client)) ch none =
      s.dev.chnUsed := by
    rw [Function.update_idem,← hused,Function.update_eq_self]
  have hdev : { v.dev with chnUsed := Function.update (s.claimed data ch).dev.chnUsed ch none } = s.dev := by
    simp only [v,u,Calls.setPc,Calls.claimed,hrestored]
  refine ⟨v,?_⟩
  rw [exec_claimed hopen hfree 2,Calls.go,if_neg hwidth,if_neg hdir,exec_go hload]
  refine (exec_go hstore 0).trans ?_
  rw [Calls.go,hdev]
  rfl

/-- A call that nothing interrupts is dw_dmac_xfer. -/
theorem xfer_alone (s : Calls ι) (data : DmaXferData ι) : ∃ k t r,
    exec step s (.xfer data :: List.replicate k (.go s.next)) = some t ∧ t.calls s.next = none ∧
      t.log.head? = some (.returned s.next r) ∧ (t.dev,code r) = dwDmacXfer s.dev data := by
  have hdone (u : Calls ι) (r : Except ℤ Channel) : (u.finish s.next r).calls s.next = none :=
    Function.update_self ..
  unfold dwDmacXfer
  by_cases hopen : s.dev.opened = false
  · refine ⟨0,(s.enter data).finish s.next (.error RET_ERR),.error RET_ERR,?_,hdone _ _,rfl,?_⟩
    · simp [step,hopen]
    · rw [if_pos hopen]
      rfl
  · rw [if_neg hopen]
    cases hfree : freeChannel s.dev with
    | none => exact ⟨1,_,_,exec_busy hopen hfree,hdone _ _,rfl,rfl⟩
    | some ch =>
      dsimp only
      split
      · next hwide => exact ⟨2,_,_,exec_wide hopen hfree hwide,hdone _ _,rfl,rfl⟩
      · next hwidth =>
        split
        · next hdir => exact ⟨3,_,_,exec_started hopen hfree hwidth hdir,hdone _ _,rfl,rfl⟩
        · next hdir =>
          obtain ⟨t,ht⟩ := exec_undirected hopen hfree hwidth hdir
          exact ⟨4,_,_,ht,hdone _ _,rfl,rfl⟩

end Uninterrupted

def request (elementPerWidth dir : ℕ) : DmaXferData Unit := ⟨(),elementPerWidth,64,dir⟩

/-- A transfer that its handler stops, beside a request in no direction. -/
def accountedSchedule : List (Label Unit) :=
  [.xfer (request 0 DMA_XFER_DIR_M2D),.go 0,.xfer (request 0 0),.go 0,.go 1,.go 1,.go 0,.go 1,.go 1,
    .done 0 true]

theorem accounted_along_iff_two : ∃ s, Runs step (attached true) accountedSchedule s ∧
    ∀ ms t, ms <+: accountedSchedule → Runs step (attached true) ms t → Accounted t := by
  obtain ⟨s,hs⟩ : ∃ s, exec (guarded Calls.Safe step) (attached true) accountedSchedule = some s :=
    ⟨_,rfl⟩
  have hrun := Runs.of_exec hs
  exact ⟨s,hrun.of_guarded,(accounted_along_iff hrun.of_guarded).mpr hrun⟩

/-- A request that is too wide takes its channel for good; a claim between the
load and the store of the default exit is lost, and its channel claimed again. -/
theorem channel_leaked :
    (∃ ls s, Runs step (attached true : Calls Unit) ls s ∧
      s.log = [.returned 0 (.error RET_ERR),.claimed 0 0] ∧ ¬ Accounted s) ∧
    ∃ ls s, Runs step (attached true : Calls Unit) ls s ∧
      s.log = [.claimed 3 1,.claimed 2 0,.returned 1 (.ok 1),.returned 0 (.error RET_ERR),.claimed 1 1,
        .claimed 0 0] ∧ ¬ Accounted s := by
  constructor
  · obtain ⟨s,hs,hlog,hused⟩ : ∃ s, exec step (attached true)
        [.xfer (request 3 DMA_XFER_DIR_M2D),.go 0,.go 0] = some s ∧
        s.log = [.returned 0 (.error RET_ERR),.claimed 0 0] ∧ (s.dev.chnUsed 0).isSome = true :=
      ⟨_,rfl,rfl,rfl⟩
    refine ⟨_,s,Runs.of_exec hs,hlog,fun h => ?_⟩
    obtain ⟨id,hid⟩ := (h.bits 0).mp hused
    have hnone : holder 0 s.log = none := by rw [hlog]; decide
    exact absurd (hid.symm.trans hnone) (by simp)
  · obtain ⟨s,hs,hlog⟩ : ∃ s, exec step (attached true)
        [.xfer (request 0 0),.xfer (request 0 DMA_XFER_DIR_M2D),.xfer (request 0 DMA_XFER_DIR_M2D),
          .xfer (request 0 DMA_XFER_DIR_M2D),.go 0,.go 0,.go 0,.go 1,.go 0,.go 1,.go 1,.go 2,.go 3] = some s ∧
        s.log = [.claimed 3 1,.claimed 2 0,.returned 1 (.ok 1),.returned 0 (.error RET_ERR),.claimed 1 1,
          .claimed 0 0] := ⟨_,rfl,rfl⟩
    exact ⟨_,s,Runs.of_exec hs,hlog,fun h => absurd (h.exclusive [] 3 1 _ hlog) (by decide)⟩

end FmacSdk.DwDmac
