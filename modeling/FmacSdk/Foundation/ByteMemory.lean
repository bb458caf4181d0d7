import Mathlib.Data.BitVec
import Mathlib.Logic.Function.Basic

/-! # Runs of cells in an address space that wraps

Cells are addressed by bit vectors. A run of `n` cells starts at an address and
goes on modulo the size of the space; loops write it cell by cell in increasing
order. Off the run a memory keeps its content, and a copy to a run that is apart
from its source writes what the source held before.
-/
namespace FmacSdk.ByteMemory

abbrev Memory (w : ℕ) (β : Type*) := BitVec w → β

variable {w : ℕ} {β : Type*} {m : Memory w β} {dst src a : BitVec w} {f : ℕ → β} {n : ℕ}

/-- `for (i = 0; i < n; i++) dst[i] = f(i)` -/
def writeRun (m : Memory w β) (dst : BitVec w) (f : ℕ → β) : ℕ → Memory w β
  | 0 => m
  | n + 1 => Function.update (writeRun m dst f n) (dst + BitVec.ofNat w n) (f n)

/-- `for (i = 0; i < n; i++) dst[i] = src[i]` -/
def copyRun (m : Memory w β) (dst src : BitVec w) : ℕ → Memory w β
  | 0 => m
  | n + 1 =>
    let m' := copyRun m dst src n
    Function.update m' (dst + BitVec.ofNat w n) (m' (src + BitVec.ofNat w n))

/-- No cell of the two runs is the same. -/
def Apart (dst src : BitVec w) (n : ℕ) : Prop :=
  ∀ i < n, ∀ j < n, src + BitVec.ofNat w i ≠ dst + BitVec.ofNat w j

theorem writeRun_outside (h : ∀ j < n, a ≠ dst + BitVec.ofNat w j) : writeRun m dst f n a = m a := by
  induction n with
  | zero => rfl
  | succ n ih =>
    rw [writeRun,Function.update_of_ne (h n n.lt_succ_self)]
    exact ih fun j hj => h j (Nat.lt_succ_of_lt hj)

theorem writeRun_congr {m' : Memory w β} (h : m a = m' a) : writeRun m dst f n a = writeRun m' dst f n a := by
  induction n with
  | zero => exact h
  | succ n ih =>
    rw [writeRun,writeRun,Function.update_apply,Function.update_apply,ih]

theorem copyRun_outside (h : ∀ j < n, a ≠ dst + BitVec.ofNat w j) : copyRun m dst src n a = m a := by
  induction n with
  | zero => rfl
  | succ n ih =>
    rw [copyRun,Function.update_of_ne (h n n.lt_succ_self)]
    exact ih fun j hj => h j (Nat.lt_succ_of_lt hj)

theorem copyRun_eq_writeRun (h : Apart dst src n) :
    copyRun m dst src n = writeRun m dst (fun i => m (src + BitVec.ofNat w i)) n := by
  induction n with
  | zero => rfl
  | succ n ih =>
    have hrest : Apart dst src n :=
      fun i hi j hj => h i (Nat.lt_succ_of_lt hi) j (Nat.lt_succ_of_lt hj)
    have hsrc : writeRun m dst (fun i => m (src + BitVec.ofNat w i)) n (src + BitVec.ofNat w n)
        = m (src + BitVec.ofNat w n) :=
      writeRun_outside fun j hj => h n n.lt_succ_self j (Nat.lt_succ_of_lt hj)
    rw [copyRun,ih hrest,writeRun,hsrc]

theorem add_ofNat_inj {i j : ℕ} (hi : i < 2 ^ w) (hj : j < 2 ^ w) :
    dst + BitVec.ofNat w i = dst + BitVec.ofNat w j ↔ i = j := by
  rw [BitVec.add_right_inj,← BitVec.toNat_inj,BitVec.toNat_ofNat,BitVec.toNat_ofNat,
    Nat.mod_eq_of_lt hi,Nat.mod_eq_of_lt hj]

theorem add_ofNat_add (i j : ℕ) :
    dst + BitVec.ofNat w i + BitVec.ofNat w j = dst + BitVec.ofNat w (i + j) := by
  rw [BitVec.add_assoc,← BitVec.ofNat_add]

/-- A run that begins at offset `o`, seen at offset `k`. -/
theorem writeRun_at {o k : ℕ} (hn : o + n ≤ 2 ^ w) (hk : k < 2 ^ w) :
    writeRun m (dst + BitVec.ofNat w o) f n (dst + BitVec.ofNat w k) =
      if o ≤ k ∧ k < o + n then f (k - o) else m (dst + BitVec.ofNat w k) := by
  induction n with
  | zero =>
    rw [if_neg (by omega)]
    rfl
  | succ n ih =>
    rw [writeRun,add_ofNat_add]
    by_cases hlast : k = o + n
    · subst hlast
      rw [Function.update_self,if_pos (by omega),Nat.add_sub_cancel_left]
    · rw [Function.update_of_ne fun h => hlast ((add_ofNat_inj hk (by omega)).mp h),ih (by omega)]
      exact if_congr (by omega) rfl rfl

theorem writeRun_start {k : ℕ} (hn : n ≤ 2 ^ w) (hk : k < 2 ^ w) :
    writeRun m dst f n (dst + BitVec.ofNat w k) = if k < n then f k else m (dst + BitVec.ofNat w k) := by
  have h : writeRun m (dst + BitVec.ofNat w 0) f n (dst + BitVec.ofNat w k) = _ :=
    writeRun_at (by omega) hk
  simpa using h

/-- Every address is at some offset. -/
theorem exists_offset (dst a : BitVec w) : ∃ k < 2 ^ w, a = dst + BitVec.ofNat w k := by
  refine ⟨(a - dst).toNat,(a - dst).isLt,?_⟩
  rw [BitVec.ofNat_toNat,BitVec.setWidth_eq,BitVec.add_comm,BitVec.sub_add_cancel]

/-- The middle of a run first, then its head and its tail. -/
theorem writeRun_parts (m : Memory w β) (dst : BitVec w) (f : ℕ → β) {p q r : ℕ}
    (hn : p + q + r ≤ 2 ^ w) :
    writeRun (writeRun (writeRun m (dst + BitVec.ofNat w p) (fun i => f (p + i)) q) dst f p)
        (dst + BitVec.ofNat w (p + q)) (fun i => f (p + q + i)) r
      = writeRun m dst f (p + q + r) := by
  funext a
  obtain ⟨k,hk,rfl⟩ := exists_offset dst a
  rw [writeRun_at hn hk,writeRun_start (by omega) hk,writeRun_at (by omega) hk,writeRun_start hn hk]
  by_cases htail : p + q ≤ k ∧ k < p + q + r
  · rw [if_pos htail,if_pos (by omega),Nat.add_sub_cancel' htail.1]
  · rw [if_neg htail]
    by_cases hhead : k < p
    · rw [if_pos hhead,if_pos (by omega)]
    · rw [if_neg hhead]
      by_cases hmid : p ≤ k ∧ k < p + q
      · rw [if_pos hmid,if_pos (by omega),Nat.add_sub_cancel' hmid.1]
      · rw [if_neg hmid,if_neg (by omega)]

theorem Apart.middle {p q r : ℕ} (h : Apart dst src (p + q + r)) :
    Apart (dst + BitVec.ofNat w p) (src + BitVec.ofNat w p) q := by
  intro i hi j hj
  rw [add_ofNat_add,add_ofNat_add]
  exact h (p + i) (by omega) (p + j) (by omega)

end FmacSdk.ByteMemory
