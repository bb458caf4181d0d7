import Mathlib.Data.BitVec

/-! # Registers with a flag that is cleared by writing one to it

The control bits hold what was written last. One bit of the register is no
control bit but a flag: the hardware raises it, reading shows it, and a write
clears it exactly if it writes a one there.
-/
namespace FmacSdk.StatusReg

/-- A register of `n` bits whose flag is bit `p`. -/
structure FlagReg (n p : ℕ) where
  ctl : BitVec n
  flag : Bool
  clear : ctl.getLsbD p = false

variable {n p : ℕ}

@[ext] theorem FlagReg.ext {r s : FlagReg n p} (hctl : r.ctl = s.ctl) (hflag : r.flag = s.flag) :
    r = s := by
  cases r
  cases s
  cases hctl
  cases hflag
  rfl

def mask (n p : ℕ) : BitVec n := BitVec.twoPow n p

def FlagReg.read (r : FlagReg n p) : BitVec n := if r.flag then r.ctl ||| mask n p else r.ctl

def FlagReg.write (r : FlagReg n p) (v : BitVec n) : FlagReg n p where
  ctl := v &&& ~~~ mask n p
  flag := r.flag && !v.getLsbD p
  clear := by
    simp only [mask,BitVec.getLsbD_and,BitVec.getLsbD_not,BitVec.getLsbD_twoPow]
    by_cases h : p < n <;> simp [h]

/-- No control bit set. -/
def FlagReg.blank (flag : Bool) : FlagReg n p := ⟨0,flag,BitVec.getLsbD_zero⟩

def FlagReg.raise (r : FlagReg n p) : FlagReg n p := { r with flag := true }

@[simp] theorem FlagReg.blank_ctl (flag : Bool) : (blank flag : FlagReg n p).ctl = 0 := rfl
@[simp] theorem FlagReg.raise_ctl (r : FlagReg n p) : r.raise.ctl = r.ctl := rfl
@[simp] theorem FlagReg.raise_flag (r : FlagReg n p) : r.raise.flag = true := rfl
@[simp] theorem FlagReg.write_ctl (r : FlagReg n p) (v : BitVec n) :
    (r.write v).ctl = v &&& ~~~ mask n p := rfl
@[simp] theorem FlagReg.write_flag (r : FlagReg n p) (v : BitVec n) :
    (r.write v).flag = (r.flag && !v.getLsbD p) := rfl

theorem mask_getLsbD (hp : p < n) : (mask n p).getLsbD p = true := by simp [mask,hp]

theorem FlagReg.read_getLsbD (hp : p < n) (r : FlagReg n p) : r.read.getLsbD p = r.flag := by
  unfold read
  cases hf : r.flag with
  | true => simp [mask_getLsbD hp]
  | false => simp [r.clear]

/-- Reads and writes agree with the control bits everywhere else. -/
theorem FlagReg.read_getLsbD_of_ne (r : FlagReg n p) {i : ℕ} (hi : i ≠ p) :
    r.read.getLsbD i = r.ctl.getLsbD i := by
  unfold read
  split
  · simp [mask,Ne.symm hi]
  · rfl

theorem FlagReg.write_getLsbD_of_ne (r : FlagReg n p) (v : BitVec n) {i : ℕ} (hi : i ≠ p) :
    (r.write v).ctl.getLsbD i = v.getLsbD i := by
  rw [write_ctl,BitVec.getLsbD_and,BitVec.getLsbD_not,mask,BitVec.getLsbD_twoPow]
  by_cases hn : i < n
  · simp [hn,Ne.symm hi]
  · simp [BitVec.getLsbD_of_ge v i (not_lt.mp hn)]

/-- The test of the flag on a value that was read. -/
theorem FlagReg.read_and_mask_iff (hp : p < n) (r : FlagReg n p) :
    r.read &&& mask n p ≠ 0 ↔ r.flag = true := by
  have hmask : mask n p ≠ 0 := by
    intro h
    have := mask_getLsbD hp
    simp [h] at this
  rw [show r.read &&& mask n p = _ from BitVec.and_twoPow _ _,r.read_getLsbD hp]
  cases r.flag with
  | true => simpa [mask] using hmask
  | false => simp

/-- Whatever a read shows of the flag, writing the read value back, with a one
at the flag or not, keeps the control bits. -/
theorem FlagReg.or_and_not_mask (r : FlagReg n p) :
    (r.ctl ||| mask n p) &&& ~~~ mask n p = r.ctl ∧ r.ctl &&& ~~~ mask n p = r.ctl := by
  constructor <;> apply BitVec.eq_of_getLsbD_eq <;> intro i hi <;>
    simp only [mask,BitVec.getLsbD_and,BitVec.getLsbD_or,BitVec.getLsbD_not,BitVec.getLsbD_twoPow,hi,
      decide_true,Bool.true_and] <;>
    by_cases h : p = i
  · simp [← h,r.clear]
  · simp [h]
  · simp [← h,r.clear]
  · simp [h]

/-- Setting the flag's bit in the value that was read clears the flag. -/
theorem FlagReg.write_read_or (hp : p < n) (r : FlagReg n p) :
    r.write (r.read ||| mask n p) = { r with flag := false } := by
  have hor : r.read ||| mask n p = r.ctl ||| mask n p := by
    unfold read
    split
    · rw [BitVec.or_assoc,BitVec.or_self]
    · rfl
  apply FlagReg.ext
  · rw [write_ctl,hor]
    exact r.or_and_not_mask.1
  · simp [mask_getLsbD hp]

end FmacSdk.StatusReg
