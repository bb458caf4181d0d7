import FmacSdk.Driver.DwDmac
import FmacSdk.MacBus.UartBus

/-! # The UART MAC bus in fixed-length mode

uart_bus_set_fixlen and uart_device_init statement by statement, the receive
path of hguart over the dw_dmac controller, and other clients of the controller
that claim and release channels at any time. Interrupts may come between any two
statements of the command.
-/
namespace FmacSdk.UartFixlen
open DwDmac Transition

/-- A client of the controller: the receive side of this bus, or any other. -/
inductive Client
  | uartRx
  | other (id : ℕ)
deriving DecidableEq, Repr

/-- What happens to the receive buffer: a DMA of a length is programmed, it ends
in fixed-length mode, or the interrupt handler passes a length to bus.recv. -/
inductive Event
  | arm (len : ℕ)
  | done (len : ℕ)
  | recv (len : ℕ)
deriving DecidableEq, Repr

def Event.len : Event → ℕ
  | .arm n => n
  | .done n => n
  | .recv n => n

/-- The next statement of uart_bus_set_fixlen and uart_device_init. -/
inductive CmdPc
  | idle
  | assign (fixlen : ℕ)
  | close
  | stop
  | gets
  | request
deriving DecidableEq, Repr

/-- The fields of struct mac_bus_uart for both modes, the interrupt enable of the
UART, the controller, and a record of events and of released clients. -/
structure System where
  dma : HgdmaDw Client
  stream : UartBus.MacBusUart
  sysFixlen : ℕ
  fixlen : ℕ
  rxChn : ℕ
  irqEnabled : Bool
  cmd : CmdPc
  log : List Event
  released : List Client

/-- mac_bus_uart_attach up to its call of uart_device_init. -/
def start (sysFixlen : ℕ) : System where
  dma := DwDmac.attach
  stream := UartBus.attach
  sysFixlen := sysFixlen
  fixlen := if sysFixlen > UartBus.rxBufSize then UartBus.rxBufSize else sysFixlen
  rxChn := 0
  irqEnabled := false
  cmd := .close
  log := []
  released := []

def toUint8 (r : ℤ) : ℕ := (r % 256).toNat

/-- hguart_gets with a DMA device: the result of dma_xfer is dropped. -/
def hguartGets (s : System) (size : ℕ) : System × ℤ :=
  let data : DmaXferData Client := ⟨.uartRx,DMA_SLAVE_BUSWIDTH_1_BYTE,size,DMA_XFER_DIR_D2M⟩
  let (dma,ret) := dwDmacXfer s.dma data
  ({ s with dma := dma, log := if 0 ≤ ret then s.log ++ [.arm size] else s.log },RET_OK)

/-- enum uart_irq_flag as far as the driver raises it for reception. -/
inductive IrqFlag
  | rxByte (b : UInt8)
  | dmaRxDone
deriving DecidableEq, Repr

/-- uart_bus_irq_hdl -/
def uartBusIrqHdl (s : System) : IrqFlag → System
  | .rxByte b =>
    if s.fixlen > 0 then
      let s := { s with log := s.log ++ [.recv s.fixlen] }
      let (s,ret) := hguartGets s s.fixlen
      { s with rxChn := toUint8 ret }
    else { s with stream := UartBus.irqHdl s.stream b }
  | .dmaRxDone => s

/-- hguart_dma_rx_irq_hdl -/
def hguartDmaRxIrqHdl (s : System) (ch : Channel) : System :=
  uartBusIrqHdl { s with dma := dwDmacStop s.dma ch } .dmaRxDone

/-- uart_bus_set_fixlen up to its assignment. -/
def uartBusSetFixlen (s : System) (fixlen : ℕ) : System :=
  if s.fixlen ≠ fixlen then { s with sysFixlen := fixlen, cmd := .assign fixlen } else s

/-- The clients whose channel dma_stop(rx_chn) releases. -/
def ownerOf (d : HgdmaDw Client) (chn : ℕ) : Option Client :=
  if h : chn < DW_DMAC_MAX_DMAC_CHN then d.chnUsed ⟨chn,h⟩ else none

/-- The next statement of the command; uart_close clears the interrupt enable. -/
def cmdStep (s : System) : Option System :=
  match s.cmd with
  | .idle => none
  | .assign n => some { s with fixlen := n, cmd := .close }
  | .close => some { s with irqEnabled := false, cmd := .stop }
  | .stop =>
    some { s with
      dma := dwDmacStop s.dma s.rxChn
      released := s.released ++ (ownerOf s.dma s.rxChn).toList
      cmd := .gets }
  | .gets =>
    if s.fixlen > 0 then
      let (s,ret) := hguartGets s s.fixlen
      some { s with rxChn := toUint8 ret, cmd := .request }
    else some { s with cmd := .request }
  | .request => some { s with irqEnabled := true, cmd := .idle }

/-- The completion interrupt of a channel; other clients have handlers of their own. -/
def dmaDone (s : System) (ch : Channel) : Option System :=
  match s.dma.inFlight ch, s.dma.chnUsed ch with
  | some n, some .uartRx =>
    let s := { s with dma := xferDone s.dma ch }
    let s := { s with log := if s.fixlen > 0 then s.log ++ [.done n] else s.log }
    some (hguartDmaRxIrqHdl s ch)
  | some _, some (.other _) => some { s with dma := xferDone s.dma ch }
  | _, _ => none

inductive Act
  | setFixlen (n : UInt16)
  | cmd
  | rxByte (b : UInt8)
  | dmaDone (ch : Channel)
  | otherXfer (data : DmaXferData ℕ)
  | otherStop (ch : Channel)

def step (s : System) : Act → Option System
  | .setFixlen n => if s.cmd = .idle then some (uartBusSetFixlen s n.toNat) else none
  | .cmd => cmdStep s
  | .rxByte b => if s.irqEnabled then some (uartBusIrqHdl s (.rxByte b)) else none
  | .dmaDone ch => dmaDone s ch
  | .otherXfer data =>
    some { s with dma := (dwDmacXfer s.dma { data with client := .other data.client }).1 }
  | .otherStop ch =>
    match s.dma.chnUsed ch with
    | some (.other _) => some { s with dma := dwDmacStop s.dma ch }
    | _ => none

/-! ## The property and its condition -/

/-- Every receive DMA that ends is followed by one bus.recv of its length and one
DMA of that length, and there is no other bus.recv. -/
def Cycles : List Event → Prop
  | [] => True
  | .arm _ :: rest => Cycles rest
  | .done n :: .recv m :: .arm k :: rest => m = n ∧ k = n ∧ Cycles rest
  | _ => False

structure Sound (s : System) : Prop where
  lens : ∀ e ∈ s.log, e.len ≤ UartBus.rxBufSize
  cycles : Cycles s.log
  names : ∀ ch, s.dma.chnUsed ch = some .uartRx → (s.dma.inFlight ch).isSome → (ch : ℕ) = s.rxChn
  releases : ∀ c ∈ s.released, c = .uartRx

/-- uart_device_init finds rx_chn with no other client, arms at most a buffer, on
channel 0 if any, and in fixed-length mode neither a receive DMA ends nor a byte
interrupt comes. -/
def Safe (s : System) : Act → Prop
  | .cmd =>
    (s.cmd = .stop → ∀ c ∈ ownerOf s.dma s.rxChn, c = .uartRx) ∧
    (s.cmd = .gets → s.fixlen > 0 → ∀ ch ∈ freeChannel s.dma, (ch : ℕ) = 0 ∧ s.fixlen ≤ UartBus.rxBufSize)
  | .rxByte _ => s.fixlen = 0
  | .dmaDone ch => s.dma.chnUsed ch = some .uartRx → s.fixlen = 0
  | _ => True

instance (s : System) : ∀ a, Decidable (Safe s a)
  | .cmd => inferInstanceAs (Decidable ((_ → _) ∧ (_ → _ → _)))
  | .rxByte _ => inferInstanceAs (Decidable (_ = _))
  | .dmaDone _ => inferInstanceAs (Decidable (_ → _))
  | .setFixlen _ => isTrue trivial
  | .otherXfer _ => isTrue trivial
  | .otherStop _ => isTrue trivial

/-! ## Runs that meet the condition -/

/-- In such runs rx_chn is 0, receive DMAs are on channel 0, and the log only
grows by DMAs that fit. -/
structure Inv (s : System) : Prop where
  opened : s.dma.opened = true
  chn : s.rxChn = 0
  names : ∀ ch, s.dma.chnUsed ch = some .uartRx → (ch : ℕ) = 0
  arms : ∀ e ∈ s.log, ∃ n, e = .arm n ∧ n ≤ UartBus.rxBufSize
  releases : ∀ c ∈ s.released, c = .uartRx

/-- Programmed DMAs alone leave the rest of the log to be judged. -/
theorem cycles_append {log rest : List Event} (h : ∀ e ∈ log, ∃ n, e = .arm n) :
    Cycles (log ++ rest) ↔ Cycles rest := by
  induction log with
  | nil => exact Iff.rfl
  | cons e log ih =>
    obtain ⟨n,rfl⟩ := h e List.mem_cons_self
    exact ih fun e he => h e (List.mem_cons_of_mem _ he)

theorem Inv.all_arms {s : System} (h : Inv s) : ∀ e ∈ s.log, ∃ n, e = Event.arm n :=
  fun e he => (h.arms e he).imp fun _ hn => hn.1

theorem Inv.sound {s : System} (h : Inv s) : Sound s := by
  refine ⟨?_,?_,?_,h.releases⟩
  · intro e he
    obtain ⟨n,rfl,hn⟩ := h.arms e he
    exact hn
  · have hnil : Cycles (s.log ++ []) := (cycles_append h.all_arms).mpr trivial
    rwa [List.append_nil] at hnil
  · intro ch hch _
    rw [h.chn]
    exact h.names ch hch

theorem start_inv (sysFixlen : ℕ) : Inv (start sysFixlen) := by
  refine ⟨rfl,rfl,?_,?_,?_⟩
  · intro ch hch
    cases hch
  · intro e he
    cases he
  · intro c hc
    cases hc

/-- hguart_gets programs a DMA on the free channel, if there is one. -/
theorem hguartGets_eq {s : System} (hopen : s.dma.opened = true) (size : ℕ) :
    (hguartGets s size).1 = match freeChannel s.dma with
      | none => s
      | some ch => { s with
          dma := { s.dma with
            chnUsed := Function.update s.dma.chnUsed ch (some .uartRx)
            inFlight := Function.update s.dma.inFlight ch (some size) }
          log := s.log ++ [.arm size] } := by
  have hxfer : dwDmacXfer s.dma ⟨.uartRx,DMA_SLAVE_BUSWIDTH_1_BYTE,size,DMA_XFER_DIR_D2M⟩ = _ :=
    dwDmacXfer_wellFormed hopen (Nat.zero_lt_succ 2) (Or.inr (Or.inl rfl))
  simp only [hguartGets,hxfer]
  cases freeChannel s.dma with
  | none => rfl
  | some ch => simp

theorem Inv.gets {s : System} (h : Inv s)
    (hsafe : ∀ ch ∈ freeChannel s.dma, (ch : ℕ) = 0 ∧ s.fixlen ≤ UartBus.rxBufSize) (pc : CmdPc) :
    Inv { (hguartGets s s.fixlen).1 with rxChn := 0, cmd := pc } := by
  rw [hguartGets_eq h.opened]
  cases hfree : freeChannel s.dma with
  | none => exact ⟨h.opened,rfl,h.names,h.arms,h.releases⟩
  | some ch =>
    obtain ⟨hch,hlen⟩ := hsafe ch hfree
    refine ⟨h.opened,rfl,?_,?_,h.releases⟩
    · intro c hc
      by_cases hcc : c = ch
      · rw [hcc]
        exact hch
      · simp only [Function.update_of_ne hcc] at hc
        exact h.names c hc
    · intro e he
      rcases List.mem_append.mp he with he | he
      · exact h.arms e he
      · exact ⟨s.fixlen,List.mem_singleton.mp he,hlen⟩

theorem Inv.stop {s : System} (h : Inv s) (chn : ℕ) : Inv { s with dma := dwDmacStop s.dma chn } := by
  refine ⟨by simpa using h.opened,h.chn,?_,h.arms,h.releases⟩
  intro ch hch
  simp only [dwDmacStop_chnUsed] at hch
  split at hch
  · cases hch
  · exact h.names ch hch

theorem Inv.cmdStep {s t : System} (h : Inv s) (hsafe : Safe s .cmd) (ht : cmdStep s = some t) :
    Inv t := by
  unfold UartFixlen.cmdStep at ht
  cases hcmd : s.cmd with
  | idle =>
    rw [hcmd] at ht
    cases ht
  | assign n =>
    rw [hcmd] at ht
    cases ht
    exact ⟨h.opened,h.chn,h.names,h.arms,h.releases⟩
  | close =>
    rw [hcmd] at ht
    cases ht
    exact ⟨h.opened,h.chn,h.names,h.arms,h.releases⟩
  | stop =>
    rw [hcmd] at ht
    cases ht
    have hstop := h.stop s.rxChn
    refine ⟨hstop.opened,h.chn,hstop.names,h.arms,?_⟩
    intro c hc
    rcases List.mem_append.mp hc with hc | hc
    · exact h.releases c hc
    · exact hsafe.1 hcmd c (Option.mem_toList.mp hc)
  | gets =>
    rw [hcmd] at ht
    simp only at ht
    split at ht
    · next hpos =>
      cases ht
      exact h.gets (hsafe.2 hcmd hpos) .request
    · cases ht
      exact ⟨h.opened,h.chn,h.names,h.arms,h.releases⟩
  | request =>
    rw [hcmd] at ht
    cases ht
    exact ⟨h.opened,h.chn,h.names,h.arms,h.releases⟩

theorem Inv.dmaDone {s t : System} {ch : Channel} (h : Inv s) (hsafe : Safe s (.dmaDone ch))
    (ht : dmaDone s ch = some t) : Inv t := by
  unfold UartFixlen.dmaDone at ht
  split at ht
  · next n _ hused =>
    cases ht
    have hzero : ¬ s.fixlen > 0 := by
      have := hsafe hused
      omega
    simp only [hzero,↓reduceIte]
    exact Inv.stop (s := { s with dma := xferDone s.dma ch })
      ⟨h.opened,h.chn,h.names,h.arms,h.releases⟩ ch
  · cases ht
    exact ⟨h.opened,h.chn,h.names,h.arms,h.releases⟩
  · cases ht

theorem Inv.step {s t : System} {a : Act} (h : Inv s) (hsafe : Safe s a) (ht : step s a = some t) :
    Inv t := by
  cases a with
  | setFixlen n =>
    simp only [UartFixlen.step] at ht
    split at ht
    · cases ht
      unfold uartBusSetFixlen
      split
      · exact ⟨h.opened,h.chn,h.names,h.arms,h.releases⟩
      · exact h
    · cases ht
  | cmd => exact h.cmdStep hsafe ht
  | rxByte b =>
    simp only [UartFixlen.step] at ht
    split at ht
    · cases ht
      have hzero : ¬ s.fixlen > 0 := by
        have : s.fixlen = 0 := hsafe
        omega
      simp only [uartBusIrqHdl,hzero,↓reduceIte]
      exact ⟨h.opened,h.chn,h.names,h.arms,h.releases⟩
    · cases ht
  | dmaDone ch => exact h.dmaDone hsafe ht
  | otherXfer data =>
    cases ht
    refine ⟨by simpa using h.opened,h.chn,?_,h.arms,h.releases⟩
    intro ch hch
    rcases dwDmacXfer_chnUsed s.dma { data with client := Client.other data.client } ch with heq | heq
    · exact h.names ch (heq ▸ hch)
    · rw [heq] at hch
      cases hch
  | otherStop ch =>
    simp only [UartFixlen.step] at ht
    split at ht
    · cases ht
      exact h.stop ch
    · cases ht

/-! ## The condition is exact -/

theorem Inv.gets_safe {s : System} (h : Inv s) {chn : ℕ} (hchn : chn = 0) {pc : CmdPc}
    (hsound : Sound { (hguartGets s s.fixlen).1 with rxChn := chn, cmd := pc }) :
    ∀ ch ∈ freeChannel s.dma, (ch : ℕ) = 0 ∧ s.fixlen ≤ UartBus.rxBufSize := by
  subst hchn
  rw [hguartGets_eq h.opened] at hsound
  intro ch hch
  rw [Option.mem_def] at hch
  simp only [hch] at hsound
  exact ⟨hsound.names ch (by simp) (by simp),hsound.lens (.arm s.fixlen) (by simp)⟩

/-- A bus.recv or the end of a DMA right behind programmed DMAs breaks the cycles. -/
theorem Inv.not_cycles {s : System} (h : Inv s) {rest : List Event} (hrest : ¬ Cycles rest) :
    ¬ Cycles (s.log ++ rest) := fun hc => hrest ((cycles_append h.all_arms).mp hc)

theorem Inv.rxByte_safe {s : System} {b : UInt8} (h : Inv s)
    (hsound : Sound (uartBusIrqHdl s (.rxByte b))) : s.fixlen = 0 := by
  by_contra hne
  have hpos : s.fixlen > 0 := Nat.pos_of_ne_zero hne
  have hcycles := hsound.cycles
  simp only [uartBusIrqHdl,hpos,↓reduceIte] at hcycles
  rw [hguartGets_eq (by exact h.opened)] at hcycles
  split at hcycles
  · exact h.not_cycles (by simp [Cycles]) hcycles
  · simp only [List.append_assoc,List.singleton_append] at hcycles
    exact h.not_cycles (by simp [Cycles]) hcycles

theorem Inv.step_safe {s t : System} {a : Act} (h : Inv s) (ht : UartFixlen.step s a = some t)
    (hsound : Sound t) : Safe s a := by
  cases a with
  | cmd =>
    simp only [UartFixlen.step,UartFixlen.cmdStep] at ht
    constructor
    · intro hcmd c hc
      rw [hcmd] at ht
      cases ht
      exact hsound.releases c (List.mem_append_right _ (Option.mem_toList.mpr hc))
    · intro hcmd hpos
      rw [hcmd] at ht
      simp only [hpos,↓reduceIte,Option.some.injEq] at ht
      subst ht
      exact h.gets_safe rfl hsound
  | rxByte b =>
    simp only [UartFixlen.step] at ht
    split at ht
    · cases ht
      exact h.rxByte_safe hsound
    · cases ht
  | dmaDone ch =>
    intro hused
    by_contra hne
    have hpos : s.fixlen > 0 := Nat.pos_of_ne_zero hne
    simp only [UartFixlen.step,UartFixlen.dmaDone,hused,hpos,↓reduceIte] at ht
    split at ht
    · cases ht
      exact h.not_cycles (by simp [Cycles]) hsound.cycles
    · next heq => cases heq
    · cases ht
  | _ => trivial

/-- In every run from the attach the property holds all along exactly if every
step meets the condition. -/
theorem sound_iff_safe (sysFixlen : ℕ) (acts : List Act) (s : System)
    (h : Runs step (start sysFixlen) acts s) :
    (∀ pre u, pre <+: acts → Runs step (start sysFixlen) pre u → Sound u) ↔
      Runs (guarded Safe step) (start sysFixlen) acts s :=
  h.guarded_iff (fun _ hi => hi.sound) (fun _ _ _ hi hg ht => hi.step hg ht)
    (fun _ _ _ hi ht hs => hi.step_safe ht hs) (start_inv sysFixlen)

def channel0 : Channel := ⟨0,by decide⟩

/-- uart_device_init from its first statement to its end. -/
def initAll : List Act := [.cmd,.cmd,.cmd,.cmd]

/-- A length is set with another client on the next channel, and taken back. -/
theorem sound_iff_safe_set : ∃ s, Runs step (start 0)
    (initAll ++ [.setFixlen 64,.cmd] ++ initAll ++ [.otherXfer ⟨7,0,16,1⟩,.setFixlen 0,.cmd] ++ initAll) s ∧
    s.log = [.arm 64] ∧ Sound s := by
  refine Runs.exists_of_exec_guarded (G := Safe) System.log (v := [.arm 64]) rfl ?_
  intro s hguarded hlog
  have hrun := hguarded.of_guarded
  exact ⟨hlog,(sound_iff_safe 0 _ s hrun).mpr hguarded _ s (List.prefix_refl _) hrun⟩

/-- A length above the buffer is programmed as it is; a receive DMA that ends is
neither passed on nor re-armed; a channel of another client is released. -/
theorem fixlen_unsound :
    (∃ s, Runs step (start 0) (initAll ++ [.setFixlen 8192,.cmd] ++ initAll) s ∧
      s.log = [.arm 8192] ∧ ¬ Sound s) ∧
    (∃ s, Runs step (start 0) (initAll ++ [.setFixlen 64,.cmd] ++ initAll ++ [.dmaDone channel0]) s ∧
      s.log = [.arm 64,.done 64] ∧ s.dma.inFlight channel0 = none ∧ ¬ Sound s) ∧
    (∃ s, Runs step (start 0) (initAll ++ [.otherXfer ⟨7,0,16,1⟩,.setFixlen 64,.cmd] ++ initAll) s ∧
      s.released = [.other 7] ∧ ¬ Sound s) := by
  refine ⟨?_,?_,?_⟩
  · refine Runs.exists_of_exec System.log (v := [.arm 8192]) rfl ?_
    intro s _ hlog
    refine ⟨hlog,fun h => ?_⟩
    have hle := h.lens (.arm 8192) (by simp [hlog])
    exact absurd hle (by decide)
  · refine Runs.exists_of_exec (fun s => (s.log,s.dma.inFlight channel0)) (v := ([.arm 64,.done 64],none)) rfl ?_
    intro s _ hend
    obtain ⟨hlog,hdma⟩ := Prod.mk.inj hend
    refine ⟨hlog,hdma,fun h => ?_⟩
    have hcycles := h.cycles
    simp [hlog,Cycles] at hcycles
  · refine Runs.exists_of_exec System.released (v := [.other 7]) rfl ?_
    intro s _ hreleased
    refine ⟨hreleased,fun h => ?_⟩
    have hrel := h.releases (.other 7) (by simp [hreleased])
    cases hrel

end FmacSdk.UartFixlen
