import Mathlib.Algebra.Group.Nat.Defs
import Mathlib.Data.Int.Notation

/-! # Return codes

The codes of errno.h and typesdef.h that the modelled functions return, as the
positive numbers of the header; functions negate the errno ones.
-/
namespace FmacSdk

def RET_OK : ℤ := 0
def RET_ERR : ℤ := -1

def ESRCH : ℤ := 3
def EAGAIN : ℤ := 11
def ENOMEM : ℤ := 12
def EBUSY : ℤ := 16
def EEXIST : ℤ := 17
def ENODEV : ℤ := 19
def EINVAL : ℤ := 22
def EDEADLK : ℤ := 35
def ENONET : ℤ := 64
def ETIMEDOUT : ℤ := 110
def ENOTSUPP : ℤ := 524

end FmacSdk
