import FmacSdk.Foundation.Transition
import FmacSdk.MacBus.MacBus

/-! # The USB MAC bus

One receive buffer that is armed for the host, handed to bus.recv by the receive
interrupt, and kept pending when there is no memory. Callers in task context
claim a pending frame and try again. Interrupt handlers are single steps and may
run between any two statements of a call.
-/
namespace FmacSdk.UsbBus
open Transition MacBus

/-- The size for TXW4002ACK803, which the project file defines. -/
def USB_BUS_RXBUFF_SIZE : ℕ := 4096

/-- TIME_AFTER on 64-bit jiffies -/
def timeAfter (a b : BitVec 64) : Bool := (b - a).msb

/-- struct mac_bus_usb as far as receiving uses it; `pending` has eight bits. -/
structure MacBusUsb where
  rxerr : ℕ
  rxbuff : Frame
  pending : ℕ
  ready : Bool
  rxcount : ℕ
  pdTick : BitVec 64

/-- usb_bus_proc_pending_data after its atomic decrement found a frame. -/
inductive CallPc
  | claimed
  | checked (drop : Bool)
  | passing (drop : Bool) (frame : Frame) (len : ℕ)
  | answered (drop : Bool) (ret : ℤ)
  | settled
  | cleared
deriving DecidableEq, Repr

/-- The bus, the reads that are armed, the calls of usb_bus_proc_pending_data
that hold a frame, the number of frames received and what bus.recv was offered. -/
structure System where
  bus : MacBusUsb
  armed : ℕ
  calls : List CallPc
  received : ℕ
  offers : List Offer

/-- The state that mac_bus_usb_attach leaves: nothing is armed before the reset. -/
def start : System where
  bus := ⟨0,⟨0,[]⟩,0,false,0,0⟩
  armed := 0
  calls := []
  received := 0
  offers := []

/-- `irqReset` and `irqRx` are usb_bus_irq, `ret` being the answer of bus.recv
and `now` the jiffies; `call i` is the next statement of the `i`-th call. -/
inductive Act
  | irqReset
  | irqRx (data : List UInt8) (ret : ℤ) (now : BitVec 64)
  | ioctl (cmd : ℕ)
  | pdwork
  | call (i : ℕ) (now : BitVec 64)
  | answer (i : ℕ) (ret : ℤ)
deriving DecidableEq, Repr

def usbDeviceWifiRead (s : System) : System := { s with armed := s.armed + 1 }

/-- USB_DEV_RESET_IRQ: the reset has cancelled the armed read. -/
def irqReset (s : System) : System :=
  let s := { s with armed := 0 }
  let s := { s with bus := { s.bus with pending := 0 } }
  usbDeviceWifiRead s

/-- USB_EP_RX_IRQ after the transfer of `frame`, which used up the armed read. -/
def irqRx (s : System) (frame : Frame) (ret : ℤ) (now : BitVec 64) : System :=
  let len := frame.data.length
  let s := { s with armed := s.armed - 1, received := s.received + 1 }
  let s := { s with bus := { s.bus with
    rxbuff := frame, pending := 0, ready := true, rxcount := len % 2 ^ 16 } }
  if len > USB_BUS_RXBUFF_SIZE then
    let s := { s with bus := { s.bus with rxerr := s.bus.rxerr + 1 } }
    let s := usbDeviceWifiRead s
    { s with bus := { s.bus with rxcount := 0 } }
  else
    let offer : Offer := ⟨frame,len,ret⟩
    let s := { s with offers := s.offers ++ [offer] }
    let s := if ret ≠ 0 then { s with bus := { s.bus with rxerr := s.bus.rxerr + 1 } } else s
    if ret = -ENOMEM then { s with bus := { s.bus with pending := 1, pdTick := now } }
    else
      let s := usbDeviceWifiRead s
      { s with bus := { s.bus with rxcount := 0 } }

/-- The atomic decrement that opens usb_bus_proc_pending_data. -/
def procPendingData (s : System) : System :=
  if s.bus.pending ≠ 0 then
    { s with bus := { s.bus with pending := s.bus.pending - 1 }, calls := s.calls ++ [.claimed] }
  else s

/-- usb_bus_ioctl -/
def ioctl (s : System) (cmd : ℕ) : System × ℤ :=
  if cmd = MACBUS_IOCTL_BUFFER_IDLE then (procPendingData s, -ENOTSUPP) else (s, -ENOTSUPP)

/-- usb_bus_pdwork -/
def pdwork (s : System) : System := procPendingData s

def System.setCall (s : System) (i : ℕ) (pc : CallPc) : System := { s with calls := s.calls.set i pc }

/-- The statements of usb_bus_proc_pending_data behind the decrement. -/
def callStep (s : System) (i : ℕ) (now : BitVec 64) : Option System :=
  match s.calls[i]? with
  | some .claimed => some (s.setCall i (.checked (timeAfter now (s.bus.pdTick + 100))))
  | some (.checked drop) => some (s.setCall i (.passing drop s.bus.rxbuff s.bus.rxcount))
  | some (.answered drop ret) =>
    if ret ≠ 0 then
      let s := { s with bus := { s.bus with rxerr := s.bus.rxerr + 1 } }
      if drop = false ∧ ret = -ENOMEM then
        some { s with bus := { s.bus with pending := 1 }, calls := s.calls.eraseIdx i }
      else some (s.setCall i .settled)
    else some (s.setCall i .settled)
  | some .settled =>
    let s := { s with bus := { s.bus with rxcount := 0 } }
    some (s.setCall i .cleared)
  | some .cleared =>
    let s := usbDeviceWifiRead s
    some { s with calls := s.calls.eraseIdx i }
  | _ => none

/-- bus.recv returns to the `i`-th call. -/
def answerStep (s : System) (i : ℕ) (ret : ℤ) : Option System :=
  match s.calls[i]? with
  | some (.passing drop frame len) =>
    let offer : Offer := ⟨frame,len,ret⟩
    let s := { s with offers := s.offers ++ [offer] }
    some (s.setCall i (.answered drop ret))
  | _ => none

def step (s : System) : Act → Option System
  | .irqReset => some (irqReset s)
  | .irqRx data ret now => if 0 < s.armed then some (irqRx s ⟨s.received,data⟩ ret now) else none
  | .ioctl cmd => some (ioctl s cmd).1
  | .pdwork => some (pdwork s)
  | .call i now => callStep s i now
  | .answer i ret => answerStep s i ret

end FmacSdk.UsbBus
