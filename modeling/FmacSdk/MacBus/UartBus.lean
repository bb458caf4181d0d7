import FmacSdk.Common.Rbuffer
import FmacSdk.Foundation.Transition

/-! # The UART MAC bus in byte-stream mode

Two writers and one reader share a ring and the position `stopPos` up to which
the reader may consume: the receive interrupt, called once per byte, and the
one-shot timer callback, both atomic, and the task, whose loop is cut at every
read of a shared field. The task compiles to four reads of `stopPos` in one
iteration and only its own write moves `rpos`.
-/
namespace FmacSdk.UartBus
open Rbuffer Transition

/-- UART_BUS_RX_BUF_SIZE -/
def rxBufSize : ℕ := 4096

/-- The fields of struct mac_bus_uart that byte-stream mode uses. `rxbuff` is the
storage of the ring, and `sema` and `timerArmed` stand for the two OS objects. -/
structure MacBusUart where
  rb : RBuffer UInt8
  rxcount : ℕ
  stopPos : ℕ
  magic : ℕ
  frmLen : ℕ
  sema : ℕ
  timerArmed : Bool

/-- The state mac_bus_uart_attach leaves in a zero-allocated structure. -/
def attach : MacBusUart :=
  { rb := Rbuffer.init rxBufSize (fun _ => 0), rxcount := 0, stopPos := 0, magic := 0, frmLen := 0,
    sema := 0, timerArmed := false }

/-- The end of a frame, shared by the byte interrupt and the timer callback. -/
def endFrame (u : MacBusUart) : MacBusUart :=
  { u with stopPos := u.rb.wpos, rxcount := 0, frmLen := 0, magic := 0, sema := u.sema + 1 }

/-- The shift register that assembles a little-endian uint16. -/
def shiftIn (acc : ℕ) (b : UInt8) : ℕ := acc >>> 8 ||| b.toNat <<< 8

/-- Lines 112 to 120: store the byte and watch for the header. -/
def storeByte (u : MacBusUart) (b : UInt8) : MacBusUart :=
  let rxcount := (u.rxcount + 1) % 2 ^ 32
  { u with
    rb := Rbuffer.set u.rb b
    rxcount := rxcount
    magic := if rxcount ≤ 2 then shiftIn u.magic b else u.magic
    frmLen := if rxcount ≤ 2 then u.frmLen
      else if rxcount = 5 ∨ rxcount = 6 then shiftIn u.frmLen b else u.frmLen }

/-- Lines 122 and 123: a complete frame, or a ring that holds all it can. -/
def frameDone (u : MacBusUart) : Bool :=
  (u.magic == 0x1A2B && u.frmLen != 0 && decide (u.rxcount ≥ u.frmLen)) ||
    decide (Rbuffer.count u.rb ≥ rxBufSize - 1)

/-- uart_bus_irq_hdl for UART_IRQ_FLAG_RX_BYTE with `fixlen = 0`. -/
def irqHdl (u : MacBusUart) (b : UInt8) : MacBusUart :=
  let u := storeByte { u with timerArmed := false } b
  let u := if frameDone u then endFrame u else u
  { u with timerArmed := true }

/-- uart_bus_timer_cb; the timer was opened as TIMER_TYPE_ONCE. -/
def timerCb (u : MacBusUart) : MacBusUart := { endFrame u with timerArmed := false }

/-- One call of hw_memcpy by the task: offsets into the allocated buffer and into
`rxbuff`, the length, and the size of the allocation. -/
structure Copy where
  dst : ℕ
  src : ℕ
  len : ℕ
  size : ℕ
deriving DecidableEq, Repr

def Copy.InBounds (c : Copy) : Prop := c.dst + c.len ≤ c.size ∧ c.src + c.len ≤ rxBufSize

instance (c : Copy) : Decidable c.InBounds := inferInstanceAs (Decidable (_ ∧ _))

def hwMemcpy (buf : ℕ → UInt8) (dst : ℕ) (mem : ℕ → UInt8) (src len : ℕ) : ℕ → UInt8 :=
  fun i => if dst ≤ i ∧ i < dst + len then mem (src + (i - dst)) else buf i

/-- Where the task stands. `count` is the local of that name and `buf` the
contents of the allocation. -/
inductive TaskPc
  | down
  | compare
  | subtract (ge : Bool)
  | alloc (count : ℤ)
  | branch (count : ℕ) (buf : ℕ → UInt8)
  | copyWhole (count : ℕ) (buf : ℕ → UInt8)
  | copyHead (count : ℕ) (buf : ℕ → UInt8)
  | copyTail (count part : ℕ) (buf : ℕ → UInt8)
  | recv (count : ℕ) (buf : ℕ → UInt8)
  | advance (count : ℕ)

/-- The task waits for its semaphore. -/
def TaskPc.isDown : TaskPc → Bool
  | .down => true
  | _ => false

theorem TaskPc.eq_down {pc : TaskPc} (h : pc.isDown = true) : pc = .down := by
  cases pc <;> first | rfl | cases h

/-- The bus with its task, and what an observer on both sides has seen: the bytes
the interrupt was called with, the copies made and the buffers given to bus.recv. -/
structure System where
  bus : MacBusUart
  pc : TaskPc
  received : List UInt8
  copies : List Copy
  delivered : List (List UInt8)

def start : System := ⟨attach,.down,[],[],[]⟩

inductive Act
  | byte (b : UInt8)
  | timer
  /-- One step of the task; `mem` is what os_malloc returns if it is called. -/
  | task (mem : Option (ℕ → UInt8))

/-- One step of uart_bus_task between two reads of shared fields. -/
def taskStep (s : System) (mem : Option (ℕ → UInt8)) : Option System :=
  let u := s.bus
  match s.pc with
  | .down => if 0 < u.sema then some { s with bus := { u with sema := u.sema - 1 }, pc := .compare } else none
  | .compare => some { s with pc := .subtract (decide (u.stopPos ≥ u.rb.rpos)) }
  | .subtract ge =>
    some { s with pc := .alloc (if ge then (u.stopPos : ℤ) - u.rb.rpos
      else (u.rb.qsize : ℤ) - u.rb.rpos + u.stopPos) }
  | .alloc count =>
    if count > 0 then
      match mem with
      | some buf => some { s with pc := .branch count.toNat buf }
      | none => some { s with pc := .advance count.toNat }
    else some { s with pc := .down }
  | .branch count buf =>
    some { s with pc := if u.stopPos > u.rb.rpos then .copyWhole count buf else .copyHead count buf }
  | .copyWhole count buf =>
    some { s with pc := .recv count (hwMemcpy buf 0 u.rb.rbq u.rb.rpos count)
                  copies := s.copies ++ [⟨0,u.rb.rpos,count,count⟩] }
  | .copyHead count buf =>
    let part := u.rb.qsize - u.rb.rpos
    some { s with pc := .copyTail count part (hwMemcpy buf 0 u.rb.rbq u.rb.rpos part)
                  copies := s.copies ++ [⟨0,u.rb.rpos,part,count⟩] }
  | .copyTail count part buf =>
    some { s with pc := .recv count (hwMemcpy buf part u.rb.rbq 0 u.stopPos)
                  copies := s.copies ++ [⟨part,0,u.stopPos,count⟩] }
  | .recv count buf =>
    some { s with pc := .advance count, delivered := s.delivered ++ [(List.range count).map buf] }
  | .advance count =>
    some { s with bus := { u with rb := { u.rb with rpos := npos u.rb.qsize u.rb.rpos count } }, pc := .down }

def step (s : System) : Act → Option System
  | .byte b => some { s with bus := irqHdl s.bus b, received := s.received ++ [b] }
  | .timer => if s.bus.timerArmed then some { s with bus := timerCb s.bus } else none
  | .task mem => taskStep s mem

/-- The environment of the byte-stream results: no byte fills the ring and
os_malloc succeeds. -/
def Roomy (s : System) : Act → Prop
  | .byte b => full (irqHdl s.bus b).rb = false
  | .timer => True
  | .task mem => mem.isSome

instance (s : System) : (a : Act) → Decidable (Roomy s a)
  | .byte b => inferInstanceAs (Decidable (full (irqHdl s.bus b).rb = false))
  | .timer => isTrue trivial
  | .task mem => inferInstanceAs (Decidable (mem.isSome = true))

/-- Every copy stays in both buffers, and what was handed over is the beginning
of what was received. -/
def Sound (s : System) : Prop := (∀ c ∈ s.copies, c.InBounds) ∧ s.delivered.flatten <+: s.received

/-! ## The interrupt handler, seen from the ring -/

@[simp] theorem timerCb_stopPos (u : MacBusUart) : (timerCb u).stopPos = u.rb.wpos := rfl

theorem irqHdl_rb (u : MacBusUart) (b : UInt8) : (irqHdl u b).rb = Rbuffer.set u.rb b := by
  simp only [irqHdl]
  split <;> rfl

/-- The handler either leaves the stop position alone or moves it to the write
position. -/
theorem irqHdl_stopPos (u : MacBusUart) (b : UInt8) :
    (irqHdl u b).stopPos = u.stopPos ∨ (irqHdl u b).stopPos = (Rbuffer.set u.rb b).wpos := by
  simp only [irqHdl]
  split
  · exact Or.inr rfl
  · exact Or.inl rfl

end FmacSdk.UartBus
