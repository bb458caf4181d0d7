import FmacSdk.Driver.DwDmac
import FmacSdk.Foundation.Signals
import FmacSdk.Foundation.Transition
import Mathlib.Data.Fintype.Basic

/-! # Waiting for a DMA transfer

The UART and SPI drivers on one dw_dmac. Nothing looks at what dma_xfer returns,
so each call is the list of its accesses; a completion interrupt runs the handler
of the transfer, which stops the channel and posts a semaphore of the device.
-/
namespace FmacSdk.DmaWaits
open DwDmac Signals Transition

/-- The semaphores tx_dma_sema and rx_dma_sema of the devices; each stands for the
interrupt handler of its transfers too. -/
inductive Sema
  | uartTx (dev : ℕ)
  | uartRx (dev : ℕ)
  | spiTx (dev : ℕ)
  | spiRx (dev : ℕ)
deriving DecidableEq

/-- The transfer of a call for a handler. -/
structure Xfer where
  call : ℕ
  sema : Sema
deriving DecidableEq

/-- An access of a call: dma_xfer, its end on a claimed channel, os_sema_down. -/
inductive Access
  | xfer (data : DmaXferData Xfer)
  | start (data : DmaXferData Xfer) (ch : Channel)
  | down (sema : Sema)
deriving DecidableEq

/-- A call on a device whose dma is the controller. -/
inductive Func
  | puts (dev size : ℕ)
  | gets (dev size : ℕ)
  | read (dev size : ℕ)
  | write (dev size : ℕ)

def Func.size : Func → ℕ
  | .puts _ size | .gets _ size | .read _ size | .write _ size => size

/-- hguart_puts -/
def hguartPuts (call dev size : ℕ) : List Access :=
  [.xfer ⟨⟨call,.uartTx dev⟩,DMA_SLAVE_BUSWIDTH_1_BYTE,size,DMA_XFER_DIR_M2D⟩,.down (.uartTx dev)]

/-- hguart_gets, where the wait is commented out. -/
def hguartGets (call dev size : ℕ) : List Access :=
  [.xfer ⟨⟨call,.uartRx dev⟩,DMA_SLAVE_BUSWIDTH_1_BYTE,size,DMA_XFER_DIR_D2M⟩]

/-- hgspi_dw_read; the master has a second transfer for its clock. -/
def hgspiDwRead (SER : ℕ → Bool) (call dev size : ℕ) : List Access :=
  if size = 0 then []
  else if SER dev then
    [.xfer ⟨⟨call,.spiRx dev⟩,DMA_SLAVE_BUSWIDTH_1_BYTE,size,DMA_XFER_DIR_D2M⟩,
      .xfer ⟨⟨call,.spiTx dev⟩,DMA_SLAVE_BUSWIDTH_1_BYTE,size,DMA_XFER_DIR_M2D⟩,
      .down (.spiTx dev),.down (.spiRx dev)]
  else
    [.xfer ⟨⟨call,.spiRx dev⟩,DMA_SLAVE_BUSWIDTH_1_BYTE,size,DMA_XFER_DIR_D2M⟩,.down (.spiRx dev)]

/-- hgspi_dw_write -/
def hgspiDwWrite (call dev size : ℕ) : List Access :=
  if size = 0 then []
  else [.xfer ⟨⟨call,.spiTx dev⟩,DMA_SLAVE_BUSWIDTH_1_BYTE,size,DMA_XFER_DIR_M2D⟩,.down (.spiTx dev)]

def Func.body (SER : ℕ → Bool) (call : ℕ) : Func → List Access
  | .puts dev size => hguartPuts call dev size
  | .gets dev size => hguartGets call dev size
  | .read dev size => hgspiDwRead SER call dev size
  | .write dev size => hgspiDwWrite call dev size

/-- A call with the accesses before it; with none it has returned. -/
structure Task where
  func : Func
  rest : List Access

inductive Event
  | accepted (x : Xfer)
  | completed (x : Xfer) (moved : ℕ)
deriving DecidableEq

structure Sys where
  dma : HgdmaDw Xfer
  sema : Sema → ℕ
  calls : ℕ → Option Task
  next : ℕ
  log : List Event

/-- A call, an access of a call, and the interrupt at the end of a transfer. -/
inductive Label
  | enter (func : Func)
  | go (i : ℕ)
  | done (ch : Channel)

def DW_DMAC_CTLH_BLOCK_TS_MASK : ℕ := 0xFFF

def Sys.setTask (s : Sys) (i : ℕ) (t : Task) : Sys := { s with calls := Function.update s.calls i (some t) }

/-- The next access of call `i`. -/
def Sys.go (s : Sys) (i : ℕ) (func : Func) : List Access → Option Sys
  | [] => none
  | .xfer data :: rest =>
    if s.dma.opened = false then some (s.setTask i ⟨func,rest⟩)
    else
      match freeChannel s.dma with
      | none => some (s.setTask i ⟨func,rest⟩)
      | some ch => some { s.setTask i ⟨func,.start data ch :: rest⟩ with
          dma := { s.dma with chnUsed := Function.update s.dma.chnUsed ch (some data.client) } }
  | .start data ch :: rest => some { s.setTask i ⟨func,rest⟩ with
      dma := { s.dma with inFlight := Function.update s.dma.inFlight ch (some data.elementNum) }
      log := .accepted data.client :: s.log }
  | .down sm :: rest =>
    if s.sema sm = 0 then none
    else some { s.setTask i ⟨func,rest⟩ with sema := Function.update s.sema sm (s.sema sm - 1) }

/-- hguart_dma_tx_irq_hdl, hguart_dma_rx_irq_hdl, hgspi_dma_tx_irq_hdl and
hgspi_dma_rx_irq_hdl: dma_stop, then os_sema_up but for the second. -/
def Sys.irqHdl (s : Sys) (ch : Channel) : Sema → Sys
  | .uartRx _ => { s with dma := dwDmacStop s.dma ch }
  | sm => { s with dma := dwDmacStop s.dma ch, sema := Function.update s.sema sm (s.sema sm + 1) }

section Code
variable (SER : ℕ → Bool)

def step (s : Sys) : Label → Option Sys
  | .enter func => some { s.setTask s.next ⟨func,func.body SER s.next⟩ with next := s.next + 1 }
  | .go i => (s.calls i).bind fun t => s.go i t.func t.rest
  | .done ch =>
    match s.dma.chnUsed ch, s.dma.inFlight ch with
    | some x, some n => some ({ s with
        dma := xferDone s.dma ch
        log := .completed x (n &&& DW_DMAC_CTLH_BLOCK_TS_MASK) :: s.log }.irqHdl ch x.sema)
    | _, _ => none

end Code

/-- The controller attached, opened or not, and the devices opened. -/
def booted (opened : Bool) : Sys := ⟨{ attach with opened := opened },fun _ => 0,fun _ => none,0,[]⟩

/-- dw_dmac_xfer returned a channel for it. -/
def Sys.Accepted (s : Sys) (x : Xfer) : Prop := .accepted x ∈ s.log

def Sys.InFlight (s : Sys) (x : Xfer) (n : ℕ) : Prop :=
  ∃ ch, s.dma.chnUsed ch = some x ∧ s.dma.inFlight ch = some n

/-- Its completion has run the handler, after so many bytes. -/
def Sys.Completed (s : Sys) (x : Xfer) (moved : ℕ) : Prop := .completed x moved ∈ s.log

/-- The wait of a call is yet to come or not over. -/
def Sys.Waiting (s : Sys) (i : ℕ) (sm : Sema) : Prop := ∃ t ∈ s.calls i, .down sm ∈ t.rest

/-- No other call in progress waits where call `i` does. -/
def Sys.Alone (s : Sys) (i : ℕ) (sm : Sema) : Prop :=
  s.Waiting i sm → ∀ j, s.Waiting j sm → j = i

def AloneAlong (SER : ℕ → Bool) (opened : Bool) (ls : List Label) (i : ℕ) (sm : Sema) : Prop :=
  ∀ ms t, ms <+: ls → Runs (step SER) (booted opened) ms t → t.Alone i sm

def Access.asks : Access → Option Sema
  | .xfer data => some data.client.sema
  | .start _ _ | .down _ => none

/-- The handler posts the semaphore. -/
def Sema.posted : Sema → Bool
  | .uartRx _ => false
  | .uartTx _ | .spiTx _ | .spiRx _ => true

/-- What a call asks of the controller and what is left to do after. -/
structure Request (i size : ℕ) (data : DmaXferData Xfer) (rest : List Access) : Prop where
  call : data.client.call = i
  num : data.elementNum = size
  width : data.elementPerWidth = DMA_SLAVE_BUSWIDTH_1_BYTE
  dir : data.dir = DMA_XFER_DIR_M2D ∨ data.dir = DMA_XFER_DIR_D2M
  waits : data.client.sema.posted = true → .down data.client.sema ∈ rest
  once : ∀ a ∈ rest, a.asks ≠ some data.client.sema

def WellFormed (i size : ℕ) : List Access → Prop
  | [] => True
  | .xfer data :: rest => Request i size data rest ∧ WellFormed i size rest
  | .start _ _ :: _ => False
  | .down sm :: rest => sm.posted = true ∧ (∀ a ∈ rest, a.asks ≠ some sm ∧ a ≠ .down sm) ∧ WellFormed i size rest

/-- A claimed channel is the call's and has no transfer before it is started. -/
def Sys.Ready (s : Sys) (i size : ℕ) : List Access → Prop
  | .start data ch :: rest => Request i size data rest ∧ WellFormed i size rest ∧
      s.dma.chnUsed ch = some data.client ∧ s.dma.inFlight ch = none
  | rest => WellFormed i size rest

/-- The call has asked for a post that it has not taken. -/
def Task.Asked (t : Task) (sm : Sema) : Prop := .down sm ∈ t.rest ∧ ∀ a ∈ t.rest, a.asks ≠ some sm

instance (t : Task) (sm : Sema) : Decidable (t.Asked sm) := inferInstanceAs (Decidable (_ ∧ _))

def Sys.jobs (s : Sys) (sm : Sema) : Finset Channel :=
  Finset.univ.filter fun ch => (s.dma.chnUsed ch).map Xfer.sema = some sm

def Sys.waiters (s : Sys) (sm : Sema) : Finset ℕ :=
  (Finset.range s.next).filter fun j => ∃ t ∈ s.calls j, t.Asked sm

/-- A transfer of `n` bytes is under way or has ended. -/
def Sys.Served (s : Sys) (x : Xfer) (n : ℕ) : Prop :=
  s.InFlight x n ∨ s.Completed x (n &&& DW_DMAC_CTLH_BLOCK_TS_MASK)

structure Inv (s : Sys) : Prop where
  fresh : ∀ i, s.next ≤ i → s.calls i = none
  ready : ∀ i t, s.calls i = some t → s.Ready i t.func.size t.rest
  quiet : ∀ ch, s.dma.chnUsed ch = none → s.dma.inFlight ch = none
  due : ∀ sm, sm.posted = true → Due (s.sema sm) (s.jobs sm) (s.waiters sm)
  served : ∀ x, s.Accepted x → ∃ t ∈ s.calls x.call, s.Served x t.func.size

variable {SER : ℕ → Bool} {s u : Sys} {i : ℕ} {f : Func} {rest : List Access} {sm : Sema}

theorem body_wellFormed (f : Func) (i : ℕ) : WellFormed i f.size (f.body SER i) := by
  have hpair (sm : Sema) (n dir : ℕ) (hsm : sm.posted = true)
      (hdir : dir = DMA_XFER_DIR_M2D ∨ dir = DMA_XFER_DIR_D2M) :
      WellFormed i n [.xfer ⟨⟨i,sm⟩,DMA_SLAVE_BUSWIDTH_1_BYTE,n,dir⟩,.down sm] :=
    ⟨⟨rfl,rfl,rfl,hdir,fun _ => List.mem_singleton_self _,by simp [Access.asks]⟩,hsm,by simp,trivial⟩
  cases f with
  | puts dev n => exact hpair _ _ _ rfl (Or.inl rfl)
  | gets dev n =>
    refine ⟨⟨rfl,rfl,rfl,Or.inr rfl,fun h => ?_,by simp⟩,trivial⟩
    simp [Sema.posted] at h
  | read dev n =>
    show WellFormed i n (hgspiDwRead SER i dev n)
    unfold hgspiDwRead
    split
    · trivial
    · split
      · exact ⟨⟨rfl,rfl,rfl,Or.inr rfl,fun _ => by simp,by simp [Access.asks]⟩,
          ⟨rfl,rfl,rfl,Or.inl rfl,fun _ => by simp,by simp [Access.asks]⟩,
          rfl,by simp [Access.asks],rfl,by simp,trivial⟩
      · exact hpair _ _ _ rfl (Or.inr rfl)
  | write dev n =>
    show WellFormed i n (hgspiDwWrite i dev n)
    unfold hgspiDwWrite
    split
    · trivial
    · exact hpair _ _ _ rfl (Or.inl rfl)

theorem WellFormed.ready (h : WellFormed i f.size rest) : s.Ready i f.size rest := by
  cases rest with
  | nil => exact h
  | cons a rest =>
    cases a with
    | start data ch => exact h.elim
    | xfer data => exact h
    | down sm => exact h

theorem Inv.mem_waiters (h : Inv s) {j : ℕ} : j ∈ s.waiters sm ↔ ∃ t, s.calls j = some t ∧ t.Asked sm := by
  unfold Sys.waiters
  rw [Finset.mem_filter,Finset.mem_range]
  refine and_iff_right_of_imp fun ⟨t,ht,_⟩ => ?_
  by_contra hge
  rw [h.fresh j (not_lt.mp hge)] at ht
  simp at ht

@[simp] theorem mem_jobs {ch : Channel} : ch ∈ s.jobs sm ↔ (s.dma.chnUsed ch).map Xfer.sema = some sm := by
  simp [Sys.jobs]

theorem Inv.lt_next (h : Inv s) {t : Task} (hpc : s.calls i = some t) : i < s.next := by
  by_contra hge
  rw [h.fresh i (not_lt.mp hge)] at hpc
  simp at hpc

section Waiters
variable {t t' : Task}

theorem Inv.mem_waiters_setTask (h : Inv s) (hpc : s.calls i = some t) {j : ℕ} :
    j ∈ (s.setTask i t').waiters sm ↔ (j = i ∧ t'.Asked sm) ∨ (j ≠ i ∧ j ∈ s.waiters sm) := by
  have hlt := h.lt_next hpc
  unfold Sys.waiters Sys.setTask
  rw [Finset.mem_filter,Finset.mem_filter,Finset.mem_range]
  by_cases hj : j = i
  · subst hj
    simp [hlt]
  · simp [hj]

theorem Inv.waiters_insert (h : Inv s) (hpc : s.calls i = some t) (ht' : t'.Asked sm) :
    (s.setTask i t').waiters sm = insert i (s.waiters sm) := by
  ext j
  rw [h.mem_waiters_setTask hpc,Finset.mem_insert]
  by_cases hj : j = i <;> simp [hj,ht']

theorem Inv.waiters_erase (h : Inv s) (hpc : s.calls i = some t) (ht' : ¬ t'.Asked sm) :
    (s.setTask i t').waiters sm = (s.waiters sm).erase i := by
  ext j
  rw [h.mem_waiters_setTask hpc,Finset.mem_erase]
  simp [ht']

theorem Inv.waiters_same (h : Inv s) (hpc : s.calls i = some t) (heq : t'.Asked sm ↔ t.Asked sm) :
    (s.setTask i t').waiters sm = s.waiters sm := by
  by_cases ht : t.Asked sm
  · rw [h.waiters_insert hpc (heq.mpr ht),Finset.insert_eq_of_mem (h.mem_waiters.mpr ⟨t,hpc,ht⟩)]
  · rw [h.waiters_erase hpc (fun ht' => ht (heq.mp ht')),Finset.erase_eq_of_notMem]
    rintro hmem
    obtain ⟨t₀,ht₀,hasked⟩ := h.mem_waiters.mp hmem
    obtain rfl : t₀ = t := Option.some.inj (ht₀.symm.trans hpc)
    exact ht hasked

end Waiters

theorem Sys.Ready.frame {j n : ℕ} {l : List Access} (h : s.Ready j n l)
    (hframe : ∀ ch x, s.dma.chnUsed ch = some x → x.call = j → s.dma.inFlight ch = none →
      u.dma.chnUsed ch = some x ∧ u.dma.inFlight ch = none) : u.Ready j n l := by
  cases l with
  | nil => exact h
  | cons a l =>
    cases a with
    | start data ch =>
      obtain ⟨hreq,hrest,hused,hidle⟩ := h
      exact ⟨hreq,hrest,hframe ch _ hused hreq.call hidle⟩
    | xfer data => exact h
    | down sm => exact h

/-- A step of call `i`: what it asked for is due to it, and the other calls keep
their channels. -/
theorem Inv.move (h : Inv s) {t : Task} (hpc : s.calls i = some t)
    (hcalls : u.calls = Function.update s.calls i (some ⟨t.func,rest⟩)) (hnext : u.next = s.next)
    (hready : u.Ready i t.func.size rest)
    (hothers : ∀ ch x, s.dma.chnUsed ch = some x → x.call ≠ i → s.dma.inFlight ch = none →
      u.dma.chnUsed ch = some x ∧ u.dma.inFlight ch = none)
    (hquiet : ∀ ch, u.dma.chnUsed ch = none → u.dma.inFlight ch = none)
    (hdue : ∀ sm, sm.posted = true → Due (u.sema sm) (u.jobs sm) (u.waiters sm))
    (hkeep : ∀ x n, s.Served x n → u.Served x n)
    (hnew : ∀ x, u.Accepted x → s.Accepted x ∨ (x.call = i ∧ u.Served x t.func.size)) : Inv u := by
  have hlt := h.lt_next hpc
  have hself : u.calls i = some ⟨t.func,rest⟩ := by
    rw [hcalls]
    exact Function.update_self ..
  refine ⟨fun j hj => ?_,fun j tj hj => ?_,hquiet,hdue,fun x hx => ?_⟩
  · rw [hnext] at hj
    rw [hcalls,Function.update_of_ne (by omega)]
    exact h.fresh j hj
  · by_cases hne : j = i
    · subst hne
      obtain rfl := Option.some.inj (hself.symm.trans hj)
      exact hready
    · rw [hcalls,Function.update_of_ne hne] at hj
      exact (h.ready j tj hj).frame fun ch x hused hcall => hothers ch x hused (hcall ▸ hne)
  · rcases hnew x hx with hold | ⟨rfl,hserved⟩
    · obtain ⟨tx,htx,hserved⟩ := h.served x hold
      by_cases hne : x.call = i
      · subst hne
        obtain rfl : tx = t := Option.some.inj (htx.symm.trans hpc)
        exact ⟨_,hself,hkeep x _ hserved⟩
      · refine ⟨tx,?_,hkeep x _ hserved⟩
        rw [hcalls,Function.update_of_ne hne]
        exact htx
    · exact ⟨_,hself,hserved⟩

/-- An entry that is set stays where an empty one is changed. -/
theorem update_of_none {α β : Type*} [DecidableEq α] {g : α → Option β} {a b : α} {x : β} (ha : g a = none)
    (hb : g b = some x) (y : Option β) : Function.update g a y b = some x := by
  have hne : b ≠ a := by
    rintro rfl
    simp [ha] at hb
  rw [Function.update_of_ne hne,hb]

theorem asked_cons {a : Access} (hdown : a ≠ .down sm) (hasks : a.asks ≠ some sm) :
    Task.Asked ⟨f,rest⟩ sm ↔ Task.Asked ⟨f,a :: rest⟩ sm := by
  simp [Task.Asked,Ne.symm hdown,hasks]

section Steps
variable {data : DmaXferData Xfer} {ch : Channel}

/-- dma_xfer gives an error and the call goes on. -/
theorem Inv.refused (h : Inv s) (hpc : s.calls i = some ⟨f,.xfer data :: rest⟩) :
    Inv (s.setTask i ⟨f,rest⟩) := by
  obtain ⟨hreq,hrest⟩ : Request i f.size data rest ∧ WellFormed i f.size rest := h.ready i _ hpc
  refine h.move hpc rfl rfl hrest.ready (fun ch x hused _ hidle => ⟨hused,hidle⟩) h.quiet
    (fun sm hsm => (h.due sm hsm).mono ?_) (fun _ _ hx => hx) (fun _ => Or.inl)
  by_cases hsame : data.client.sema = sm
  · subst hsame
    rw [h.waiters_insert hpc ⟨hreq.waits hsm,hreq.once⟩]
    exact Finset.subset_insert ..
  · exact (h.waiters_same hpc (asked_cons (by simp) (by simpa [Access.asks] using hsame))).ge

theorem jobs_claim (hfree : s.dma.chnUsed ch = none) (x : Xfer) (sm : Sema) :
    Sys.jobs { s with dma := { s.dma with chnUsed := Function.update s.dma.chnUsed ch (some x) } } sm =
      if x.sema = sm then insert ch (s.jobs sm) else s.jobs sm := by
  ext ch'
  by_cases hch : ch' = ch
  · subst hch
    by_cases hsm : x.sema = sm <;> simp [hsm,hfree]
  · by_cases hsm : x.sema = sm <;> simp [hsm,hch]

theorem Inv.claim (h : Inv s) (hpc : s.calls i = some ⟨f,.xfer data :: rest⟩)
    (hfree : s.dma.chnUsed ch = none) :
    Inv { s.setTask i ⟨f,.start data ch :: rest⟩ with
      dma := { s.dma with chnUsed := Function.update s.dma.chnUsed ch (some data.client) } } := by
  obtain ⟨hreq,hrest⟩ : Request i f.size data rest ∧ WellFormed i f.size rest := h.ready i _ hpc
  have hkeep {ch' : Channel} {x : Xfer} (hused : s.dma.chnUsed ch' = some x) :
      Function.update s.dma.chnUsed ch (some data.client) ch' = some x := update_of_none hfree hused _
  refine h.move hpc rfl rfl ⟨hreq,hrest,Function.update_self ..,h.quiet ch hfree⟩
    (fun ch' x hused _ hidle => ⟨hkeep hused,hidle⟩) (fun ch' hnone => ?_) (fun sm hsm => ?_)
    (fun x n hx => hx.imp (fun ⟨ch',hused,hn⟩ => ⟨ch',hkeep hused,hn⟩) id) (fun _ => Or.inl)
  · refine h.quiet ch' ?_
    by_contra hused
    obtain ⟨x,hx⟩ := Option.ne_none_iff_exists'.mp hused
    exact absurd ((hkeep hx).symm.trans hnone) (by simp)
  · have hold := h.due sm hsm
    show Due (s.sema sm) (Sys.jobs { s with dma := _ } sm) ((s.setTask i ⟨f,.start data ch :: rest⟩).waiters sm)
    rw [jobs_claim hfree]
    split
    · next hsame =>
      subst hsame
      have hnot : i ∉ s.waiters data.client.sema := fun hmem => by
        obtain ⟨t,ht,hasked⟩ := h.mem_waiters.mp hmem
        obtain rfl := Option.some.inj (ht.symm.trans hpc)
        exact hasked.2 _ List.mem_cons_self rfl
      rw [h.waiters_insert hpc ((asked_cons (by simp) (by simp [Access.asks])).mp ⟨hreq.waits hsm,hreq.once⟩)]
      exact hold.start hnot
    · next hsame =>
      have hxfer : Task.Asked ⟨f,rest⟩ sm ↔ Task.Asked ⟨f,.xfer data :: rest⟩ sm :=
        asked_cons (by simp) (by simpa [Access.asks] using hsame)
      have hstart : Task.Asked ⟨f,rest⟩ sm ↔ Task.Asked ⟨f,.start data ch :: rest⟩ sm :=
        asked_cons (by simp) (by simp [Access.asks])
      rw [h.waiters_same hpc (hstart.symm.trans hxfer)]
      exact hold

theorem Inv.start (h : Inv s) (hpc : s.calls i = some ⟨f,.start data ch :: rest⟩) :
    Inv { s.setTask i ⟨f,rest⟩ with
      dma := { s.dma with inFlight := Function.update s.dma.inFlight ch (some data.elementNum) }
      log := .accepted data.client :: s.log } := by
  obtain ⟨hreq,hrest,hused,hidle⟩ : Request i f.size data rest ∧ WellFormed i f.size rest ∧
    s.dma.chnUsed ch = some data.client ∧ s.dma.inFlight ch = none := h.ready i _ hpc
  refine h.move hpc rfl rfl hrest.ready (fun ch' x hx hcall hnone => ⟨hx,?_⟩) (fun ch' hnone => ?_)
    (fun sm hsm => ?_) (fun x n hx => ?_) (fun x hx => ?_)
  · have hne : ch' ≠ ch := by
      rintro rfl
      obtain rfl := Option.some.inj (hx.symm.trans hused)
      exact hcall hreq.call
    exact (Function.update_of_ne hne ..).trans hnone
  · have hne : ch' ≠ ch := by
      rintro rfl
      exact absurd (hused.symm.trans hnone) (by simp)
    exact (Function.update_of_ne hne ..).trans (h.quiet ch' hnone)
  · show Due (s.sema sm) (s.jobs sm) ((s.setTask i ⟨f,rest⟩).waiters sm)
    rw [h.waiters_same hpc (asked_cons (by simp) (by simp [Access.asks]))]
    exact h.due sm hsm
  · exact hx.imp (fun ⟨ch',hx,hn⟩ => ⟨ch',hx,update_of_none hidle hn _⟩) (List.mem_cons_of_mem _)
  · rcases List.mem_cons.mp hx with hx | hx
    · obtain rfl := Event.accepted.inj hx
      refine Or.inr ⟨hreq.call,Or.inl ⟨ch,hused,?_⟩⟩
      exact (Function.update_self ..).trans (congrArg some hreq.num)
    · exact Or.inl hx

/-- os_sema_down takes a post. -/
theorem Inv.down (h : Inv s) (hpc : s.calls i = some ⟨f,.down sm :: rest⟩) (hpos : s.sema sm ≠ 0) :
    Inv { s.setTask i ⟨f,rest⟩ with sema := Function.update s.sema sm (s.sema sm - 1) } := by
  obtain ⟨-,honce,hrest⟩ : sm.posted = true ∧ (∀ a ∈ rest, a.asks ≠ some sm ∧ a ≠ .down sm) ∧
    WellFormed i f.size rest := h.ready i _ hpc
  refine h.move hpc rfl rfl hrest.ready (fun ch x hused _ hidle => ⟨hused,hidle⟩) h.quiet
    (fun sm' hsm => ?_) (fun _ _ hx => hx) (fun _ => Or.inl)
  have hold := h.due sm' hsm
  show Due (Function.update s.sema sm (s.sema sm - 1) sm') (s.jobs sm') ((s.setTask i ⟨f,rest⟩).waiters sm')
  by_cases hsame : sm' = sm
  · subst hsame
    have hasked : Task.Asked ⟨f,.down sm' :: rest⟩ sm' :=
      ⟨List.mem_cons_self,List.forall_mem_cons.mpr ⟨by simp [Access.asks],fun a ha => (honce a ha).1⟩⟩
    have hnot : ¬ Task.Asked ⟨f,rest⟩ sm' := fun hasked => (honce _ hasked.1).2 rfl
    rw [Function.update_self,h.waiters_erase hpc hnot]
    rw [← Nat.sub_one_add_one hpos] at hold
    exact hold.take (h.mem_waiters.mpr ⟨_,hpc,hasked⟩)
  · rw [Function.update_of_ne hsame,
      h.waiters_same hpc (asked_cons (by simpa using Ne.symm hsame) (by simp [Access.asks]))]
    exact hold

end Steps

@[simp] theorem irqHdl_dma (ch : Channel) : (s.irqHdl ch sm).dma = dwDmacStop s.dma ch := by
  cases sm <;> rfl
@[simp] theorem irqHdl_calls (ch : Channel) : (s.irqHdl ch sm).calls = s.calls := by cases sm <;> rfl
@[simp] theorem irqHdl_next (ch : Channel) : (s.irqHdl ch sm).next = s.next := by cases sm <;> rfl
@[simp] theorem irqHdl_log (ch : Channel) : (s.irqHdl ch sm).log = s.log := by cases sm <;> rfl

theorem irqHdl_sema (ch : Channel) (sm' : Sema) : (s.irqHdl ch sm).sema sm' =
    if sm' = sm ∧ sm.posted = true then s.sema sm' + 1 else s.sema sm' := by
  by_cases hsame : sm' = sm
  · subst hsame
    cases sm' <;> simp [Sys.irqHdl,Sema.posted]
  · cases sm <;> simp [Sys.irqHdl,hsame]

/-- What the interrupt at the end of a transfer does. -/
structure Ended (s u : Sys) (ch : Channel) (x : Xfer) (n : ℕ) : Prop where
  used : s.dma.chnUsed ch = some x
  flight : s.dma.inFlight ch = some n
  calls : u.calls = s.calls
  next : u.next = s.next
  chnUsed : ∀ ch', u.dma.chnUsed ch' = if ch' = ch then none else s.dma.chnUsed ch'
  inFlight : ∀ ch', u.dma.inFlight ch' = if ch' = ch then none else s.dma.inFlight ch'
  sema : ∀ sm, u.sema sm = if sm = x.sema ∧ x.sema.posted = true then s.sema sm + 1 else s.sema sm
  log : u.log = .completed x (n &&& DW_DMAC_CTLH_BLOCK_TS_MASK) :: s.log

theorem step_done {ch : Channel} (hs : step SER s (.done ch) = some u) : ∃ x n, Ended s u ch x n := by
  simp only [step] at hs
  split at hs
  · next x n hused hflight =>
    obtain rfl := Option.some.inj hs
    refine ⟨x,n,hused,hflight,irqHdl_calls ch,irqHdl_next ch,fun ch' => ?_,fun ch' => ?_,
      fun sm => irqHdl_sema ch sm,irqHdl_log ch⟩
    · simp [dwDmacStop_chnUsed,xferDone,Fin.ext_iff]
    · by_cases hch : ch' = ch
      · simp [dwDmacStop_inFlight,xferDone,hch]
      · simp [dwDmacStop_inFlight,xferDone,hch]
  · simp at hs

section Ended
variable {ch : Channel} {x : Xfer} {n : ℕ}

theorem Ended.jobs (e : Ended s u ch x n) (sm : Sema) : u.jobs sm = (s.jobs sm).erase ch := by
  ext ch'
  by_cases hch : ch' = ch <;> simp [e.chnUsed,hch]

theorem Ended.waiters (e : Ended s u ch x n) (sm : Sema) : u.waiters sm = s.waiters sm := by
  unfold Sys.waiters
  rw [e.calls,e.next]

theorem Ended.completed (e : Ended s u ch x n) : u.Completed x (n &&& DW_DMAC_CTLH_BLOCK_TS_MASK) := by
  unfold Sys.Completed
  rw [e.log]
  exact List.mem_cons_self

theorem Ended.keeps (e : Ended s u ch x n) {y : Xfer} {m : ℕ} (h : s.Completed y m) : u.Completed y m := by
  unfold Sys.Completed
  rw [e.log]
  exact List.mem_cons_of_mem _ h

/-- A transfer in flight is the one that has ended, or it goes on. -/
theorem Ended.flight_cases (e : Ended s u ch x n) {y : Xfer} {m : ℕ} (h : s.InFlight y m) : (y = x ∧ m = n) ∨ u.InFlight y m := by
  obtain ⟨ch',hused,hflight⟩ := h
  by_cases hch : ch' = ch
  · subst hch
    obtain rfl := Option.some.inj (hused.symm.trans e.used)
    obtain rfl := Option.some.inj (hflight.symm.trans e.flight)
    exact Or.inl ⟨rfl,rfl⟩
  · exact Or.inr ⟨ch',by rw [e.chnUsed,if_neg hch,hused],by rw [e.inFlight,if_neg hch,hflight]⟩

/-- Every other transfer goes on. -/
theorem Ended.served (e : Ended s u ch x n) {y : Xfer} {m : ℕ} (h : s.Served y m) : u.Served y m := by
  rcases h with hflight | hdone
  · rcases e.flight_cases hflight with ⟨rfl,rfl⟩ | hflight
    · exact Or.inr e.completed
    · exact Or.inl hflight
  · exact Or.inr (e.keeps hdone)

theorem Inv.ended (h : Inv s) (e : Ended s u ch x n) : Inv u := by
  refine ⟨fun i hi => ?_,fun i t hi => ?_,fun ch' hnone => ?_,fun sm hsm => ?_,fun y hy => ?_⟩
  · rw [e.calls]
    exact h.fresh i (e.next ▸ hi)
  · rw [e.calls] at hi
    refine (h.ready i t hi).frame fun ch' y hused _ hidle => ?_
    have hne : ch' ≠ ch := by
      rintro rfl
      exact absurd (hidle.symm.trans e.flight) (by simp)
    rw [e.chnUsed,e.inFlight,if_neg hne,if_neg hne]
    exact ⟨hused,hidle⟩
  · rw [e.chnUsed] at hnone
    rw [e.inFlight]
    split
    · rfl
    · next hne => exact h.quiet ch' (by rwa [if_neg hne] at hnone)
  · rw [e.jobs,e.waiters,e.sema]
    have hold := h.due sm hsm
    by_cases hsame : sm = x.sema
    · subst hsame
      rw [if_pos ⟨rfl,hsm⟩]
      exact hold.post (by simp [e.used])
    · have hnot : ch ∉ s.jobs sm := by simpa [e.used] using Ne.symm hsame
      rw [if_neg (fun hpost => hsame hpost.1),Finset.erase_eq_of_notMem hnot]
      exact hold
  · have hold : s.Accepted y := by simpa [Sys.Accepted,e.log] using hy
    obtain ⟨t,ht,hserved⟩ := h.served y hold
    exact ⟨t,by rwa [e.calls],e.served hserved⟩

end Ended

theorem Inv.enter (h : Inv s) (f : Func) :
    Inv { s.setTask s.next ⟨f,f.body SER s.next⟩ with next := s.next + 1 } := by
  have hother {j : ℕ} {t : Task} (ht : s.calls j = some t) : j ≠ s.next := (h.lt_next ht).ne
  refine ⟨fun j hj => ?_,fun j t hj => ?_,h.quiet,fun sm hsm => (h.due sm hsm).mono fun j hj => ?_,
    fun x hx => ?_⟩
  · have hj : s.next + 1 ≤ j := hj
    exact (Function.update_of_ne (by omega) ..).trans (h.fresh j (by omega))
  · by_cases hne : j = s.next
    · subst hne
      have hself : Function.update s.calls s.next (some ⟨f,f.body SER s.next⟩) s.next = some t := hj
      rw [Function.update_self] at hself
      obtain rfl := Option.some.inj hself
      exact (body_wellFormed f s.next).ready
    · exact h.ready j t ((Function.update_of_ne hne ..).symm.trans hj)
  · obtain ⟨t,ht,hasked⟩ := h.mem_waiters.mp hj
    have hlt := h.lt_next ht
    refine Finset.mem_filter.mpr ⟨Finset.mem_range.mpr (by omega : j < s.next + 1),t,?_,hasked⟩
    exact (Function.update_of_ne (hother ht) ..).trans ht
  · obtain ⟨t,ht,hserved⟩ := h.served x hx
    exact ⟨t,(Function.update_of_ne (hother ht) ..).trans ht,hserved⟩

/-- The steps of a call in progress: a request that is refused or claims a channel,
the start of its transfer, a wait. -/
theorem go_cases {t : Task} (hgo : s.go i t.func t.rest = some u) :
    (∃ data rest, t.rest = .xfer data :: rest ∧ u = s.setTask i ⟨t.func,rest⟩) ∨
    (∃ data rest ch, t.rest = .xfer data :: rest ∧ s.dma.chnUsed ch = none ∧
      u = { s.setTask i ⟨t.func,.start data ch :: rest⟩ with
        dma := { s.dma with chnUsed := Function.update s.dma.chnUsed ch (some data.client) } }) ∨
    (∃ data rest ch, t.rest = .start data ch :: rest ∧ u = { s.setTask i ⟨t.func,rest⟩ with
        dma := { s.dma with inFlight := Function.update s.dma.inFlight ch (some data.elementNum) }
        log := .accepted data.client :: s.log }) ∨
    ∃ sm rest, t.rest = .down sm :: rest ∧ s.sema sm ≠ 0 ∧
      u = { s.setTask i ⟨t.func,rest⟩ with sema := Function.update s.sema sm (s.sema sm - 1) } := by
  obtain ⟨f,body⟩ := t
  dsimp only at hgo ⊢
  cases body with
  | nil => simp [Sys.go] at hgo
  | cons a rest =>
    cases a with
    | xfer data =>
      simp only [Sys.go] at hgo
      split at hgo
      · exact Or.inl ⟨data,rest,rfl,(Option.some.inj hgo).symm⟩
      · split at hgo
        · exact Or.inl ⟨data,rest,rfl,(Option.some.inj hgo).symm⟩
        · next ch hfree =>
          have hused : s.dma.chnUsed ch = none := by simpa using List.find?_some hfree
          exact Or.inr (Or.inl ⟨data,rest,ch,rfl,hused,(Option.some.inj hgo).symm⟩)
    | start data ch =>
      exact Or.inr (Or.inr (Or.inl ⟨data,rest,ch,rfl,(Option.some.inj hgo).symm⟩))
    | down sm =>
      simp only [Sys.go] at hgo
      split at hgo
      · simp at hgo
      · next hpos => exact Or.inr (Or.inr (Or.inr ⟨sm,rest,rfl,hpos,(Option.some.inj hgo).symm⟩))

theorem Inv.go (h : Inv s) {t : Task} (hpc : s.calls i = some t) (hgo : s.go i t.func t.rest = some u) :
    Inv u := by
  have hpc' {rest : List Access} (hrest : t.rest = rest) : s.calls i = some ⟨t.func,rest⟩ := hrest ▸ hpc
  rcases go_cases hgo with ⟨data,rest,hrest,rfl⟩ | ⟨data,rest,ch,hrest,hfree,rfl⟩ |
    ⟨data,rest,ch,hrest,rfl⟩ | ⟨sm,rest,hrest,hpos,rfl⟩
  · exact h.refused (hpc' hrest)
  · exact h.claim (hpc' hrest) hfree
  · exact h.start (hpc' hrest)
  · exact h.down (hpc' hrest) hpos

theorem Inv.step (h : Inv s) (l : Label) (hs : DmaWaits.step SER s l = some u) : Inv u := by
  cases l with
  | enter f =>
    obtain rfl := Option.some.inj hs
    exact h.enter f
  | go i =>
    obtain ⟨t,hpc,hgo⟩ := Option.bind_eq_some_iff.mp hs
    exact h.go hpc hgo
  | done ch =>
    obtain ⟨x,n,e⟩ := step_done hs
    exact h.ended e

theorem booted_inv (opened : Bool) : Inv (booted opened) := by
  refine ⟨fun _ _ => rfl,fun i t hi => ?_,fun _ _ => rfl,fun sm _ => ?_,fun x hx => ?_⟩
  · simp [booted] at hi
  · have hjobs : (booted opened).jobs sm = ∅ := by simp [Sys.jobs,booted,attach]
    have hwaiters : (booted opened).waiters sm = ∅ := by simp [Sys.waiters,booted]
    rw [hjobs,hwaiters]
    exact Due.none
  · simp [Sys.Accepted,booted] at hx

theorem reachable_inv {opened : Bool} {ls : List Label} (h : Runs (step SER) (booted opened) ls s) : Inv s :=
  h.invariant (fun _ l _ hi hs => hi.step l hs) (booted_inv opened)

/-- A transfer that was accepted ends with a post left for its call, or the call
has waited until then. -/
structure Attended (SER : ℕ → Bool) (s : Sys) (i : ℕ) (sm : Sema) : Prop where
  waiting : ∀ t, s.calls i = some t → s.Accepted ⟨i,sm⟩ → .down sm ∈ t.rest → s.InFlight ⟨i,sm⟩ t.func.size ∨
    s.Completed ⟨i,sm⟩ (t.func.size &&& DW_DMAC_CTLH_BLOCK_TS_MASK) ∧ 0 < s.sema sm
  waited : ∀ t, s.calls i = some t → s.Accepted ⟨i,sm⟩ → .down sm ∈ t.func.body SER i → .down sm ∉ t.rest →
    s.Completed ⟨i,sm⟩ (t.func.size &&& DW_DMAC_CTLH_BLOCK_TS_MASK)

theorem WellFormed.posted {n : ℕ} (h : WellFormed i n rest) (hsm : .down sm ∈ rest) : sm.posted = true := by
  induction rest with
  | nil => simp at hsm
  | cons a rest ih =>
    cases a with
    | start data ch => exact h.elim
    | xfer data => exact ih h.2 (by simpa using hsm)
    | down sm' =>
      rcases List.mem_cons.mp hsm with heq | hsm
      · obtain rfl := Access.down.inj heq
        exact h.1
      · exact ih h.2.2 hsm

/-- A step that neither asks for the transfer of call `i` nor takes a post. -/
theorem Attended.keep (h : Attended SER s i sm)
    (hcalls : ∀ t, u.calls i = some t → ∃ t₀, s.calls i = some t₀ ∧ t.func = t₀.func ∧
      (.down sm ∈ t.rest ↔ .down sm ∈ t₀.rest))
    (hacc : u.Accepted ⟨i,sm⟩ → s.Accepted ⟨i,sm⟩)
    (hflight : ∀ n, s.InFlight ⟨i,sm⟩ n → u.InFlight ⟨i,sm⟩ n ∨
      u.Completed ⟨i,sm⟩ (n &&& DW_DMAC_CTLH_BLOCK_TS_MASK) ∧ 0 < u.sema sm)
    (hdone : ∀ n, s.Completed ⟨i,sm⟩ n → u.Completed ⟨i,sm⟩ n) (hsema : s.sema sm ≤ u.sema sm) :
    Attended SER u i sm := by
  constructor
  · intro t ht ha hdown
    obtain ⟨t₀,ht₀,hfunc,hiff⟩ := hcalls t ht
    rw [hfunc]
    rcases h.waiting t₀ ht₀ (hacc ha) (hiff.mp hdown) with hfl | ⟨hd,hpos⟩
    · exact hflight _ hfl
    · exact Or.inr ⟨hdone _ hd,hpos.trans_le hsema⟩
  · intro t ht ha hbody hdown
    obtain ⟨t₀,ht₀,hfunc,hiff⟩ := hcalls t ht
    rw [hfunc] at hbody ⊢
    exact hdone _ (h.waited t₀ ht₀ (hacc ha) hbody (fun hd => hdown (hiff.mpr hd)))

/-- The calls after a step of one of them. -/
theorem calls_setTask {j : ℕ} {t tj t' : Task} (hpc : s.calls j = some tj)
    (ht : (s.setTask j t').calls i = some t) :
    (j = i ∧ s.calls i = some tj ∧ t = t') ∨ (j ≠ i ∧ s.calls i = some t) := by
  have ht : Function.update s.calls j (some t') i = some t := ht
  by_cases hj : j = i
  · subst hj
    rw [Function.update_self] at ht
    exact Or.inl ⟨rfl,hpc,(Option.some.inj ht).symm⟩
  · rw [Function.update_of_ne (Ne.symm hj)] at ht
    exact Or.inr ⟨hj,ht⟩

/-- A step of any call that leaves the wait of call `i` where it is. -/
theorem calls_same {j : ℕ} {tj t : Task} (hpc : s.calls j = some tj)
    (hrest : j = i → (.down sm ∈ rest ↔ .down sm ∈ tj.rest))
    (ht : (s.setTask j ⟨tj.func,rest⟩).calls i = some t) :
    ∃ t₀, s.calls i = some t₀ ∧ t.func = t₀.func ∧ (.down sm ∈ t.rest ↔ .down sm ∈ t₀.rest) := by
  rcases calls_setTask hpc ht with ⟨hj,htj,rfl⟩ | ⟨-,ht⟩
  · exact ⟨tj,htj,rfl,hrest hj⟩
  · exact ⟨t,ht,rfl,Iff.rfl⟩

theorem Inv.not_accepted (h : Inv s) : ¬ s.Accepted ⟨s.next,sm⟩ := by
  intro ha
  obtain ⟨t,ht,-⟩ := h.served _ ha
  exact absurd (h.lt_next ht) (lt_irrefl _)

/-- At its own wait a call finds the post of its own transfer. -/
theorem Attended.down (h : Attended SER s i sm) (hi : Inv s) (halone : s.Alone i sm)
    (hpc : s.calls i = some ⟨f,.down sm :: rest⟩) (hpos : s.sema sm ≠ 0) :
    Attended SER { s.setTask i ⟨f,rest⟩ with sema := Function.update s.sema sm (s.sema sm - 1) } i sm := by
  obtain ⟨hsm,honce,-⟩ : sm.posted = true ∧ (∀ a ∈ rest, a.asks ≠ some sm ∧ a ≠ .down sm) ∧
    WellFormed i f.size rest := hi.ready i _ hpc
  constructor
  · intro t ht _ hdown
    rcases calls_setTask hpc ht with ⟨-,-,rfl⟩ | ⟨hne,-⟩
    · exact absurd rfl (honce _ hdown).2
    · exact absurd rfl hne
  · intro t ht ha _ _
    rcases calls_setTask hpc ht with ⟨-,-,rfl⟩ | ⟨hne,-⟩
    · rcases h.waiting _ hpc ha List.mem_cons_self with ⟨ch,hused,-⟩ | ⟨hdone,-⟩
      · have hmine : s.waiters sm ⊆ {i} := fun j hj => by
          obtain ⟨tj,htj,hasked⟩ := hi.mem_waiters.mp hj
          exact Finset.mem_singleton.mpr (halone ⟨_,hpc,List.mem_cons_self⟩ j ⟨tj,htj,hasked.1⟩)
        have hjob : ch ∈ s.jobs sm := by simp [hused]
        exact absurd ((hi.due sm hsm).alone hmine hjob).1 hpos
      · exact hdone
    · exact absurd rfl hne

/-- The claim of any call keeps the channel of the transfer. -/
theorem Attended.claim (h : Attended SER s i sm) {j : ℕ} {data : DmaXferData Xfer} {ch : Channel}
    (hpc : s.calls j = some ⟨f,.xfer data :: rest⟩) (hfree : s.dma.chnUsed ch = none) :
    Attended SER { s.setTask j ⟨f,.start data ch :: rest⟩ with
      dma := { s.dma with chnUsed := Function.update s.dma.chnUsed ch (some data.client) } } i sm :=
  h.keep (fun _ => calls_same hpc fun _ => by simp) id
    (fun _ ⟨ch',hused,hn⟩ => Or.inl ⟨ch',update_of_none hfree hused _,hn⟩) (fun _ => id) le_rfl

theorem Attended.start (h : Attended SER s i sm) (hi : Inv s) {j : ℕ} {data : DmaXferData Xfer} {ch : Channel}
    (hpc : s.calls j = some ⟨f,.start data ch :: rest⟩) : Attended SER { s.setTask j ⟨f,rest⟩ with
      dma := { s.dma with inFlight := Function.update s.dma.inFlight ch (some data.elementNum) }
      log := .accepted data.client :: s.log } i sm := by
  obtain ⟨hreq,-,hused,hidle⟩ : Request j f.size data rest ∧ WellFormed j f.size rest ∧
    s.dma.chnUsed ch = some data.client ∧ s.dma.inFlight ch = none := hi.ready j _ hpc
  by_cases hmine : data.client = ⟨i,sm⟩
  · obtain rfl : j = i := hreq.call.symm.trans (congrArg Xfer.call hmine)
    constructor
    · intro t ht _ _
      rcases calls_setTask hpc ht with ⟨-,-,rfl⟩ | ⟨hne,-⟩
      · exact Or.inl ⟨ch,hmine ▸ hused,(Function.update_self ..).trans (congrArg some hreq.num)⟩
      · exact absurd rfl hne
    · intro t ht _ hbody hdown
      rcases calls_setTask hpc ht with ⟨-,-,rfl⟩ | ⟨hne,-⟩
      · have hwaits := hreq.waits
        rw [hmine] at hwaits
        exact absurd (hwaits ((body_wellFormed f j).posted hbody)) hdown
      · exact absurd rfl hne
  · refine h.keep (fun _ => calls_same hpc fun _ => by simp) (fun ha => ?_)
      (fun _ ⟨ch',hused',hn⟩ => Or.inl ⟨ch',hused',update_of_none hidle hn _⟩)
      (fun _ => List.mem_cons_of_mem _) le_rfl
    rcases List.mem_cons.mp ha with heq | ha
    · exact absurd (Event.accepted.inj heq).symm hmine
    · exact ha

/-- Another call takes no post that call `i` waits for. -/
theorem Attended.down_other (h : Attended SER s i sm) (halone : s.Alone i sm) {j : ℕ} {sm' : Sema}
    (hpc : s.calls j = some ⟨f,.down sm' :: rest⟩) (hother : ¬ (j = i ∧ sm' = sm)) :
    Attended SER { s.setTask j ⟨f,rest⟩ with sema := Function.update s.sema sm' (s.sema sm' - 1) } i sm := by
  by_cases hsm : sm' = sm
  · subst hsm
    have hj : j ≠ i := fun he => hother ⟨he,rfl⟩
    constructor
    · intro t ht _ hdown
      rcases calls_setTask hpc ht with ⟨he,-⟩ | ⟨-,ht⟩
      · exact absurd he hj
      · exact absurd (halone ⟨t,ht,hdown⟩ j ⟨_,hpc,List.mem_cons_self⟩) hj
    · intro t ht ha hbody hdown
      rcases calls_setTask hpc ht with ⟨he,-⟩ | ⟨-,ht⟩
      · exact absurd he hj
      · exact h.waited t ht ha hbody hdown
  · refine h.keep (fun _ => calls_same hpc fun _ => ?_) id (fun _ => Or.inl) (fun _ => id) ?_
    · simpa using fun he => absurd he.symm hsm
    · exact (Function.update_of_ne (Ne.symm hsm) ..).ge

theorem Attended.go (h : Attended SER s i sm) (hi : Inv s) (halone : s.Alone i sm) {j : ℕ} {t : Task}
    (hpc : s.calls j = some t) (hgo : s.go j t.func t.rest = some u) : Attended SER u i sm := by
  have hpc' {rest : List Access} (hrest : t.rest = rest) : s.calls j = some ⟨t.func,rest⟩ := hrest ▸ hpc
  rcases go_cases hgo with ⟨data,rest,hrest,rfl⟩ | ⟨data,rest,ch,hrest,hfree,rfl⟩ |
    ⟨data,rest,ch,hrest,rfl⟩ | ⟨sm',rest,hrest,hpos,rfl⟩
  · exact h.keep (fun _ => calls_same hpc fun _ => by simp [hrest]) id (fun _ => Or.inl) (fun _ => id) le_rfl
  · exact h.claim (hpc' hrest) hfree
  · exact h.start hi (hpc' hrest)
  · by_cases hmine : j = i ∧ sm' = sm
    · obtain ⟨rfl,rfl⟩ := hmine
      exact h.down hi halone (hpc' hrest) hpos
    · exact h.down_other halone (hpc' hrest) hmine

theorem Attended.ended (h : Attended SER s i sm) (hsm : sm.posted = true) {ch : Channel} {x : Xfer} {n : ℕ}
    (e : Ended s u ch x n) : Attended SER u i sm := by
  have hsema : s.sema sm ≤ u.sema sm := by
    rw [e.sema]
    split <;> omega
  refine h.keep (fun t ht => ⟨t,e.calls ▸ ht,rfl,Iff.rfl⟩) (fun ha => ?_) (fun m hm => ?_) (fun m => e.keeps) hsema
  · simpa [Sys.Accepted,e.log] using ha
  · rcases e.flight_cases hm with ⟨rfl,rfl⟩ | hflight
    · right
      rw [e.sema,if_pos ⟨rfl,hsm⟩]
      exact ⟨e.completed,Nat.succ_pos _⟩
    · exact Or.inl hflight

theorem Attended.step (h : Attended SER s i sm) (hi : Inv s) (halone : s.Alone i sm) (hsm : sm.posted = true)
    (l : Label) (hs : DmaWaits.step SER s l = some u) : Attended SER u i sm := by
  cases l with
  | enter f =>
    obtain rfl := Option.some.inj hs
    by_cases hnew : s.next = i
    · subst hnew
      exact ⟨fun t _ ha _ => absurd ha hi.not_accepted,fun t _ ha _ _ => absurd ha hi.not_accepted⟩
    · refine h.keep (fun t ht => ⟨t,?_,rfl,Iff.rfl⟩) id (fun _ => Or.inl) (fun _ => id) le_rfl
      exact (Function.update_of_ne (Ne.symm hnew) ..).symm.trans ht
  | go j =>
    obtain ⟨t,hpc,hgo⟩ := Option.bind_eq_some_iff.mp hs
    exact h.go hi halone hpc hgo
  | done ch =>
    obtain ⟨x,n,e⟩ := step_done hs
    exact h.ended hsm e

/-- While a call waits alone its transfer is attended to. -/
theorem Attended.run {opened : Bool} {ls : List Label} (h : Runs (DmaWaits.step SER) (booted opened) ls s)
    (hsm : sm.posted = true) (halone : AloneAlong SER opened ls i sm) : Attended SER s i sm := by
  induction h with
  | refl => exact ⟨fun t ht => by simp [booted] at ht,fun t ht => by simp [booted] at ht⟩
  | @tail t u ls l hrun hlast ih =>
    have hbefore : Attended SER t i sm :=
      ih fun ms v hms => halone ms v (hms.trans (List.prefix_append _ _))
    exact hbefore.step (reachable_inv hrun) (halone ls t (List.prefix_append _ _) hrun) hsm l hlast

/-- A request that nothing interrupts is dw_dmac_xfer. -/
theorem Inv.xfer_alone (h : Inv s) {data : DmaXferData Xfer} (hpc : s.calls i = some ⟨f,.xfer data :: rest⟩) :
    ∃ k t, exec (DmaWaits.step SER) s (List.replicate k (.go i)) = some t ∧ t.calls i = some ⟨f,rest⟩ ∧
      t.dma = (dwDmacXfer s.dma data).1 ∧
      t.log = if 0 ≤ (dwDmacXfer s.dma data).2 then .accepted data.client :: s.log else s.log := by
  obtain ⟨hreq,-⟩ : Request i f.size data rest ∧ WellFormed i f.size rest := h.ready i _ hpc
  have hself (s : Sys) (l : List Access) : (s.setTask i ⟨f,l⟩).calls i = some ⟨f,l⟩ := Function.update_self ..
  have hgo {u : Sys} (hu : s.go i f (.xfer data :: rest) = some u) (k : ℕ) :
      exec (DmaWaits.step SER) s (List.replicate (k + 1) (.go i)) =
        exec (DmaWaits.step SER) u (List.replicate k (.go i)) := by
    rw [List.replicate_succ,exec_cons,DmaWaits.step,hpc]
    exact congrArg (Option.bind · _) hu
  by_cases hopen : s.dma.opened = false
  · have hxfer : dwDmacXfer s.dma data = (s.dma,RET_ERR) := if_pos hopen
    rw [hxfer]
    exact ⟨1,_,hgo (if_pos hopen) 0,hself s rest,rfl,rfl⟩
  · have hwidth : data.elementPerWidth < DMA_SLAVE_BUSWIDTH_8_BYTES := by
      rw [hreq.width]
      decide
    have hdir : data.dir = DMA_XFER_DIR_M2M ∨ data.dir = DMA_XFER_DIR_D2M ∨
        data.dir = DMA_XFER_DIR_M2D ∨ data.dir = DMA_XFER_DIR_D2D := by
      rcases hreq.dir with hd | hd <;> simp [hd]
    have hxfer := dwDmacXfer_wellFormed (by simpa using hopen) hwidth hdir
    cases hfree : freeChannel s.dma with
    | none =>
      rw [hfree] at hxfer
      rw [hxfer]
      refine ⟨1,_,hgo ?_ 0,hself s rest,rfl,rfl⟩
      rw [Sys.go,if_neg hopen,hfree]
    | some ch =>
      rw [hfree] at hxfer
      rw [hxfer]
      let u : Sys := { s.setTask i ⟨f,.start data ch :: rest⟩ with
        dma := { s.dma with chnUsed := Function.update s.dma.chnUsed ch (some data.client) } }
      have hclaim : s.go i f (.xfer data :: rest) = some u := by
        rw [Sys.go,if_neg hopen,hfree]
      have hpc' : u.calls i = some ⟨f,.start data ch :: rest⟩ := hself s _
      let v : Sys := { u.setTask i ⟨f,rest⟩ with
        dma := { u.dma with inFlight := Function.update u.dma.inFlight ch (some data.elementNum) }
        log := .accepted data.client :: u.log }
      have hstart : DmaWaits.step SER u (.go i) = some v := by
        rw [DmaWaits.step,hpc']
        rfl
      refine ⟨2,v,?_,hself u rest,rfl,?_⟩
      · rw [hgo hclaim 1,List.replicate_one,exec_cons,hstart]
        rfl
      · rw [if_pos (Int.natCast_nonneg _)]
        rfl

theorem and_mask {n : ℕ} (h : n ≤ DW_DMAC_CTLH_BLOCK_TS_MASK) : n &&& DW_DMAC_CTLH_BLOCK_TS_MASK = n := by
  have hmod : n &&& DW_DMAC_CTLH_BLOCK_TS_MASK = n % 2 ^ 12 := Nat.and_two_pow_sub_one_eq_mod n 12
  rw [hmod]
  exact Nat.mod_eq_of_lt (Nat.lt_succ_of_le h)

def Label.isEnter : Label → Bool
  | .enter _ => true
  | .go _ | .done _ => false

theorem next_eq {opened : Bool} {ls : List Label} (h : Runs (step SER) (booted opened) ls s) :
    s.next = ls.countP Label.isEnter := by
  induction h with
  | refl => rfl
  | @tail t u ls l hrun hlast ih =>
    rw [List.countP_append,← ih]
    cases l with
    | enter f =>
      obtain rfl := Option.some.inj hlast
      rfl
    | go i =>
      obtain ⟨task,-,hgo⟩ := Option.bind_eq_some_iff.mp hlast
      rcases go_cases hgo with ⟨_,_,_,rfl⟩ | ⟨_,_,_,_,_,rfl⟩ | ⟨_,_,_,_,rfl⟩ | ⟨_,_,_,_,rfl⟩ <;> rfl
    | done ch =>
      obtain ⟨x,n,e⟩ := step_done hlast
      exact e.next

end FmacSdk.DmaWaits
