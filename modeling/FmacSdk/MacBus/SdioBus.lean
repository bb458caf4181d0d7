import FmacSdk.Foundation.RetryQueue
import FmacSdk.Foundation.Transition
import FmacSdk.MacBus.MacBus
import Mathlib.Logic.Function.Basic

/-! # The SDIO MAC bus

Two receive buffers behind one busy register. The receive interrupt stores the
length of the frame in the current buffer and moves on to the other one if that
is empty; otherwise it tells the host to wait, and the task lifts the block.
Interrupt handlers and the sections under disable_irq are single steps.
-/
namespace FmacSdk.SdioBus
open Transition MacBus

/-- struct mac_bus_sdio with the device registers that the code writes: the
busy register and the buffer of the last sdio_slave_read. Buffer and index 0
is `false`. `txerr` and `rxerr` count errors. -/
structure MacBusSdio where
  txerr : ℕ
  rxerr : ℕ
  curId : Bool
  ready : Bool
  pending : Bool
  rxBuf : Bool → Frame
  rxCnt : Bool → ℕ
  rxsema : ℕ
  userReg1 : Bool
  armed : Bool

/-- The state that mac_bus_sdio_attach leaves. -/
def attach : MacBusSdio where
  txerr := 0
  rxerr := 0
  curId := false
  ready := false
  pending := false
  rxBuf := fun _ => ⟨0,[]⟩
  rxCnt := fun _ => 0
  rxsema := 0
  userReg1 := false
  armed := false

def sdioSlaveRead (s : MacBusSdio) (id : Bool) : MacBusSdio := { s with armed := id }

/-- sdio_bus_set_busy -/
def setBusy (s : MacBusSdio) (busy : Bool) : MacBusSdio :=
  { s with pending := busy, userReg1 := busy }

/-- sdio_bus_update_rxbuff: whether it moved to the other buffer is returned. -/
def updateRxbuff (s : MacBusSdio) : MacBusSdio × Bool :=
  if s.rxCnt (!s.curId) = 0 then ({ s with curId := !s.curId }, true) else (s,false)

/-- SDIO_SLAVE_IRQ_RX of sdio_bus_irq, after the transfer of `frame` into the
armed buffer. `rx_cnt` has sixteen bits. -/
def irqRx (s : MacBusSdio) (frame : Frame) : MacBusSdio :=
  let s := { s with rxBuf := Function.update s.rxBuf s.armed frame }
  let s := { s with ready := true }
  let s := if s.pending then { s with rxerr := s.rxerr + 1 } else s
  let s := { s with rxCnt := Function.update s.rxCnt s.curId (frame.data.length % 2 ^ 16) }
  let (s,moved) := updateRxbuff s
  let s := if moved then setBusy s false else setBusy s true
  let s := sdioSlaveRead s s.curId
  { s with rxsema := s.rxsema + 1 }

/-- The interrupt when the other buffer is empty: it becomes the current one. -/
theorem irqRx_move {s : MacBusSdio} {f : Frame} (h : s.rxCnt (!s.curId) = 0) :
    irqRx s f = { s with
      rxBuf := Function.update s.rxBuf s.armed f
      ready := true
      rxerr := if s.pending then s.rxerr + 1 else s.rxerr
      rxCnt := Function.update s.rxCnt s.curId (f.data.length % 2 ^ 16)
      curId := !s.curId
      pending := false
      userReg1 := false
      armed := !s.curId
      rxsema := s.rxsema + 1 } := by
  cases hp : s.pending <;> simp [irqRx,updateRxbuff,setBusy,sdioSlaveRead,h,hp]

/-- The interrupt when the other buffer is still in use: the host is blocked. -/
theorem irqRx_stay {s : MacBusSdio} {f : Frame} (h : s.rxCnt (!s.curId) ≠ 0) :
    irqRx s f = { s with
      rxBuf := Function.update s.rxBuf s.armed f
      ready := true
      rxerr := if s.pending then s.rxerr + 1 else s.rxerr
      rxCnt := Function.update s.rxCnt s.curId (f.data.length % 2 ^ 16)
      pending := true
      userReg1 := true
      armed := s.curId
      rxsema := s.rxsema + 1 } := by
  cases hp : s.pending <;> simp [irqRx,updateRxbuff,setBusy,sdioSlaveRead,h,hp]

/-- SDIO_SLAVE_IRQ_RESET of sdio_bus_irq -/
def irqReset (s : MacBusSdio) : MacBusSdio :=
  let s := setBusy s s.pending
  sdioSlaveRead s s.curId

/-- sdio_bus_ioctl -/
def ioctl (s : MacBusSdio) (cmd : ℕ) : MacBusSdio × ℤ :=
  if cmd = MACBUS_IOCTL_BUFFER_IDLE ∧ s.pending then
    ({ s with rxsema := s.rxsema + 1 }, -ENOTSUPP)
  else (s, -ENOTSUPP)

/-- The last section of the loop of sdio_bus_rx_task. -/
def finishLoop (s : MacBusSdio) : MacBusSdio :=
  if s.pending then
    let (s,moved) := updateRxbuff s
    if moved then setBusy (sdioSlaveRead s s.curId) false else s
  else s

/-- The two calls of sdio_bus_proc_rxbuff in the loop. The first one remembers
id2 for the second one. -/
inductive Call
  | first (id2 : Option Bool)
  | second
deriving DecidableEq, Repr

/-- Program counter of sdio_bus_rx_task; 0xff is `none`. In `recv` the receiver
has been handed the length `len` and has not answered yet. -/
inductive TaskPc
  | down
  | snapshot
  | proc (call : Call) (id : Option Bool)
  | recv (call : Call) (id : Bool) (len : ℕ)
  | clear (call : Call) (id : Bool) (ret : ℤ)
  | finish
deriving DecidableEq, Repr

/-- Where the loop goes on after sdio_bus_proc_rxbuff has returned. -/
def Call.next (call : Call) (ret : ℤ) : TaskPc :=
  match call with
  | .first id2 => if ret = -ENOMEM then .down else .proc .second id2
  | .second => .finish

/-- The bus and its task, with a record of what was transferred, offered to
bus.recv and cleared, and of the unanswered frame of each buffer. -/
structure System where
  bus : MacBusSdio
  task : TaskPc
  arrived : List Frame
  offers : List Offer
  cleared : List Frame
  unanswered : Bool → Option Frame

def start : System where
  bus := attach
  task := .down
  arrived := []
  offers := []
  cleared := []
  unanswered := fun _ => none

/-- `reply` is the answer of bus.recv, `task` any other step of the task. -/
inductive Act
  | irqRx (data : List UInt8)
  | irqReset
  | ioctl (cmd : ℕ)
  | task
  | reply (ret : ℤ)
deriving DecidableEq, Repr

/-- The ids that the first section of the loop reads. -/
def snapshotIds (s : MacBusSdio) : Option Bool × Option Bool :=
  (if s.rxCnt (!s.curId) = 0 then none else some (!s.curId),
    if s.rxCnt s.curId = 0 then none else some s.curId)

/-- One step of sdio_bus_rx_task other than the return of bus.recv. -/
def taskStep (s : System) : Option System :=
  match s.task with
  | .down =>
    if 0 < s.bus.rxsema then
      some { s with bus := { s.bus with rxsema := s.bus.rxsema - 1 }, task := .snapshot }
    else none
  | .snapshot =>
    some { s with task := .proc (.first (snapshotIds s.bus).2) (snapshotIds s.bus).1 }
  | .proc call none => some { s with task := call.next 0 }
  | .proc call (some id) => some { s with task := .recv call id (s.bus.rxCnt id) }
  | .recv _ _ _ => none
  | .clear call id ret =>
    some { s with
      bus := { s.bus with
        rxCnt := Function.update s.bus.rxCnt id 0
        rxerr := if ret ≠ 0 then s.bus.rxerr + 1 else s.bus.rxerr }
      cleared := s.cleared ++ [s.bus.rxBuf id]
      task := call.next ret }
  | .finish => some { s with bus := finishLoop s.bus, task := .down }

/-- The return of bus.recv: any answer but -ENOMEM settles the frame. -/
def replyStep (s : System) (ret : ℤ) : Option System :=
  match s.task with
  | .recv call id len =>
    let offer : Offer := ⟨s.bus.rxBuf id,len,ret⟩
    let s := { s with offers := s.offers ++ [offer] }
    if ret = -ENOMEM then some { s with task := call.next ret }
    else some { s with
      task := .clear call id ret
      unanswered := Function.update s.unanswered id none }
  | _ => none

def step (s : System) : Act → Option System
  | .irqRx data =>
    let frame : Frame := ⟨s.arrived.length,data⟩
    some { s with
      bus := irqRx s.bus frame
      arrived := s.arrived ++ [frame]
      unanswered := Function.update s.unanswered s.bus.armed (some frame) }
  | .irqReset => some { s with bus := irqReset s.bus }
  | .ioctl cmd => some { s with bus := (ioctl s.bus cmd).1 }
  | .task => taskStep s
  | .reply ret => replyStep s ret

end FmacSdk.SdioBus
