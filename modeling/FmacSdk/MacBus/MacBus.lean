import FmacSdk.Common.Errno

/-! # What the MAC buses share

The commands of mac_bus.h, frames as the host transfers them, and a record of
what bus.recv was offered.
-/
namespace FmacSdk.MacBus

/-- enum MAC_BUS_IOCTL -/
def MACBUS_IOCTL_BUFFER_IDLE : ℕ := 4

/-- What the host transfers; `seq` numbers the transfers. -/
structure Frame where
  seq : ℕ
  data : List UInt8
deriving DecidableEq, Repr

/-- One call of bus.recv: the frame in the buffer, the length passed, the answer. -/
structure Offer where
  frame : Frame
  len : ℕ
  ret : ℤ
deriving DecidableEq, Repr

end FmacSdk.MacBus
