import Mathlib.Data.BitVec
import Mathlib.Logic.Function.Basic

/-! # Fields of a register

A register of `n` bits holds fields of `w` bits side by side. Writing one of them
changes it and no other.
-/
namespace FmacSdk.BitFields

section Fields
variable {n w k j p : ℕ}

def field (w : ℕ) (r : BitVec n) (k : ℕ) : BitVec w := r.extractLsb' (w * k) w

/-- The ones of field `k`. -/
def mask (n w k : ℕ) : BitVec n := (BitVec.allOnes w).setWidth n <<< (w * k)

def put (r : BitVec n) (k : ℕ) (v : BitVec w) : BitVec n := r &&& ~~~ mask n w k ||| v.setWidth n <<< (w * k)

theorem mask_getLsbD (hp : p < n) : (mask n w k).getLsbD p = decide (w * k ≤ p ∧ p < w * k + w) := by
  by_cases hlow : p < w * k
  · have hout : ¬ (w * k ≤ p ∧ p < w * k + w) := by omega
    simp [mask,hp,hlow,hout]
  · by_cases hin : p < w * k + w
    · have hbit : p - w * k < w := by omega
      simp [mask,hp,hlow,hbit,hin,not_lt.mp hlow]
    · have hbit : ¬ p - w * k < w := by omega
      simp [mask,hp,hlow,hbit,hin]

theorem put_getLsbD (r : BitVec n) (v : BitVec w) (hp : p < n) :
    (put r k v).getLsbD p = if w * k ≤ p ∧ p < w * k + w then v.getLsbD (p - w * k) else r.getLsbD p := by
  have hv : (v.setWidth n <<< (w * k)).getLsbD p = (decide (w * k ≤ p) && v.getLsbD (p - w * k)) := by
    by_cases hlow : p < w * k
    · simp [hp,hlow]
    · simp [hp,hlow,not_lt.mp hlow]
  rw [put,BitVec.getLsbD_or,BitVec.getLsbD_and,BitVec.getLsbD_not,mask_getLsbD hp,hv]
  split_ifs with hin
  · simp [hin]
  · by_cases hlow : w * k ≤ p
    · have hhigh : v.getLsbD (p - w * k) = false := BitVec.getLsbD_of_ge _ _ (by omega)
      simp [hp,hin,hhigh]
    · simp [hp,hlow]

/-- Read after write. -/
theorem field_put (r : BitVec n) (v : BitVec w) (hk : w * k + w ≤ n) : field w (put r k v) k = v := by
  apply BitVec.eq_of_getLsbD_eq
  intro i hi
  rw [field,BitVec.getLsbD_extractLsb',put_getLsbD r v (by omega),if_pos (by omega)]
  simp [hi]

/-- The other fields are kept. -/
theorem field_put_of_ne (r : BitVec n) (v : BitVec w) (hjk : j ≠ k) (hj : w * j + w ≤ n) :
    field w (put r k v) j = field w r j := by
  have hapart : w * j + w ≤ w * k ∨ w * k + w ≤ w * j := by
    rcases Nat.lt_or_gt_of_ne hjk with hlt | hgt
    · exact Or.inl (by rw [← Nat.mul_succ]; exact Nat.mul_le_mul_left w hlt)
    · exact Or.inr (by rw [← Nat.mul_succ]; exact Nat.mul_le_mul_left w hgt)
  apply BitVec.eq_of_getLsbD_eq
  intro i hi
  rw [field,field,BitVec.getLsbD_extractLsb',BitVec.getLsbD_extractLsb',put_getLsbD r v (by omega),if_neg (by omega)]

theorem put_zero (r : BitVec n) (k : ℕ) : put r k (0 : BitVec w) = r &&& ~~~ mask n w k := by
  rw [put]
  simp

/-- A store through the lane of a field, a word with one bit. -/
theorem put_of_lane (r : BitVec n) (k : ℕ) (v : BitVec w) :
    r &&& ~~~ (1#n <<< (w * k) * (BitVec.allOnes w).setWidth n) ||| 1#n <<< (w * k) * v.setWidth n = put r k v := by
  rw [← BitVec.twoPow_eq,BitVec.twoPow_mul_eq_shiftLeft,BitVec.twoPow_mul_eq_shiftLeft]
  rfl

end Fields

/-! ## Rows of registers -/

section Rows
variable {b n w m i j p : ℕ}

/-- Field `i` of a row of registers that hold `m` fields each. -/
def rowField (w m : ℕ) (regs : Fin b → BitVec n) (i : ℕ) (hi : i / m < b) : BitVec w := field w (regs ⟨i / m,hi⟩) (i % m)

def rowPut (m : ℕ) (regs : Fin b → BitVec n) (i : ℕ) (hi : i / m < b) (v : BitVec w) : Fin b → BitVec n :=
  Function.update regs ⟨i / m,hi⟩ (put (regs ⟨i / m,hi⟩) (i % m) v)

theorem rowField_rowPut (regs : Fin b → BitVec n) (hi : i / m < b) (v : BitVec w) (hfit : w * (i % m) + w ≤ n) :
    rowField w m (rowPut m regs i hi v) i hi = v := by
  rw [rowField,rowPut,Function.update_self]
  exact field_put _ v hfit

theorem rowField_rowPut_of_ne (regs : Fin b → BitVec n) (hi : i / m < b) (hj : j / m < b) (v : BitVec w)
    (hne : j ≠ i) (hfit : w * (j % m) + w ≤ n) :
    rowField w m (rowPut m regs i hi v) j hj = rowField w m regs j hj := by
  rw [rowField,rowField,rowPut]
  by_cases hreg : (⟨j / m,hj⟩ : Fin b) = ⟨i / m,hi⟩
  · have hsame : j / m = i / m := Fin.mk.inj hreg
    have hplace : j % m ≠ i % m := by
      intro h
      apply hne
      rw [← Nat.div_add_mod j m,← Nat.div_add_mod i m,hsame,h]
    rw [hreg,Function.update_self]
    exact field_put_of_ne _ v hplace hfit
  · rw [Function.update_of_ne hreg]

/-- The bits of the field are those of the value, and every other bit of the row is kept. -/
theorem rowPut_getLsbD (regs : Fin b → BitVec n) (hi : i / m < b) (v : BitVec w) (k : Fin b) (hp : p < n) :
    (rowPut m regs i hi v k).getLsbD p =
      if k = i / m ∧ w * (i % m) ≤ p ∧ p < w * (i % m) + w then v.getLsbD (p - w * (i % m)) else (regs k).getLsbD p := by
  rw [rowPut]
  by_cases hreg : k = ⟨i / m,hi⟩
  · have hk : (k : ℕ) = i / m := congrArg Fin.val hreg
    rw [← hreg,Function.update_self,put_getLsbD _ v hp]
    simp only [hk,true_and]
  · have hk : (k : ℕ) ≠ i / m := fun h => hreg (Fin.ext h)
    rw [Function.update_of_ne hreg,if_neg (fun h => hk h.1)]

end Rows

end FmacSdk.BitFields
