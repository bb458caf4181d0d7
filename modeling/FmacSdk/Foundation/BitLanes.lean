import Mathlib.Data.BitVec
import Mathlib.Data.List.Basic

/-! # Bits on the lanes of a bus

A stream of bytes as bits, most significant bit first, and the ways in which a
sender puts some of them at each clock on the lanes of a bus. Who samples the way
it was sent gets the stream back; who samples one lane of it gets every few bits.
-/
namespace FmacSdk.BitLanes

def streamBit (bytes : ℕ → UInt8) (j : ℕ) : Bool := (bytes (j / 8)).toBitVec.getMsbD (j % 8)

/-- The first bits of a stream in a shift register. -/
def shiftIn (w n : ℕ) (s : ℕ → Bool) : BitVec w :=
  (List.range n).foldl (fun b k => b.shiftConcat (s k)) 0

def packByte (s : ℕ → Bool) : UInt8 := ⟨shiftIn 8 8 s⟩

def pack (n : ℕ) (s : ℕ → Bool) : List UInt8 := (List.range n).map fun i => packByte fun k => s (8 * i + k)

theorem shiftIn_getLsbD {w n i : ℕ} (hi : i < n) (hn : n ≤ w) (s : ℕ → Bool) :
    (shiftIn w n s).getLsbD i = s (n - 1 - i) := by
  induction n generalizing i with
  | zero => omega
  | succ n ih =>
    have hstep : shiftIn w (n + 1) s = (shiftIn w n s).shiftConcat (s n) := by
      simp [shiftIn,List.range_succ]
    rw [hstep,BitVec.getLsbD_shiftConcat,decide_eq_true (by omega : i < w),Bool.true_and]
    split
    · next h0 => rw [h0,Nat.add_sub_cancel,Nat.sub_zero]
    · next h0 =>
      rw [ih (by omega) (by omega)]
      congr 1
      omega

theorem packByte_getMsbD (s : ℕ → Bool) {k : ℕ} (hk : k < 8) : (packByte s).toBitVec.getMsbD k = s k := by
  rw [BitVec.getMsbD_eq_getLsbD,decide_eq_true hk,Bool.true_and]
  show (shiftIn 8 8 s).getLsbD (8 - 1 - k) = s k
  rw [shiftIn_getLsbD (by omega) le_rfl]
  congr 1
  omega

theorem packByte_streamBit (b : UInt8) : packByte b.toBitVec.getMsbD = b := by
  apply UInt8.eq_of_toBitVec_eq
  exact BitVec.eq_of_getMsbD_eq fun k hk => packByte_getMsbD _ hk

theorem pack_eq_iff {n : ℕ} {s t : ℕ → Bool} : pack n s = pack n t ↔ ∀ j < 8 * n, s j = t j := by
  constructor
  · intro h j hj
    have hbyte := List.map_inj_left.mp h (j / 8) (List.mem_range.mpr (by omega))
    have hbit := congrArg (fun b : UInt8 => b.toBitVec.getMsbD (j % 8)) hbyte
    simp only [packByte_getMsbD _ (Nat.mod_lt j (by omega : 0 < 8)),Nat.div_add_mod] at hbit
    exact hbit
  · intro h
    refine List.map_inj_left.mpr fun i hi => ?_
    have hi := List.mem_range.mp hi
    apply UInt8.eq_of_toBitVec_eq
    refine BitVec.eq_of_getMsbD_eq fun k hk => ?_
    rw [packByte_getMsbD _ hk,packByte_getMsbD _ hk]
    exact h _ (by omega)

/-- Packing the bits of bytes gives the bytes back. -/
theorem pack_streamBit (n : ℕ) (bytes : ℕ → UInt8) : pack n (streamBit bytes) = (List.range n).map bytes := by
  refine List.map_inj_left.mpr fun i _ => ?_
  apply UInt8.eq_of_toBitVec_eq
  refine BitVec.eq_of_getMsbD_eq fun k hk => ?_
  have hdiv : (8 * i + k) / 8 = i := by omega
  have hmod : (8 * i + k) % 8 = k := by omega
  rw [packByte_getMsbD _ hk,streamBit,hdiv,hmod]

/-- `width` bits at each clock, the first of them on lane `top` and the others on
the lanes below. -/
structure Lanes where
  width : ℕ
  top : ℕ
  pos : 0 < width
  fits : width ≤ top + 1

/-- The lanes while a stream is sent; a lane that nobody drives is pulled up. -/
def Lanes.drive (m : Lanes) (s : ℕ → Bool) (t lane : ℕ) : Bool :=
  if lane ≤ m.top ∧ m.top - lane < m.width then s (m.width * t + (m.top - lane)) else true

def Lanes.sample (m : Lanes) (bus : ℕ → ℕ → Bool) (j : ℕ) : Bool := bus (j / m.width) (m.top - j % m.width)

theorem Lanes.sample_drive (m : Lanes) (s : ℕ → Bool) : m.sample (m.drive s) = s := by
  funext j
  have hlt := Nat.mod_lt j m.pos
  have hfits := m.fits
  have hlane : m.top - (m.top - j % m.width) = j % m.width := by omega
  rw [sample,drive,hlane,if_pos ⟨Nat.sub_le _ _,hlt⟩,Nat.div_add_mod]

/-- One lane of a wider bus carries every `width`-th bit. -/
theorem Lanes.sample_drive_one {m w : Lanes} (hm : m.width = 1) (htop : m.top ≤ w.top)
    (hlane : w.top - m.top < w.width) (s : ℕ → Bool) (j : ℕ) :
    m.sample (w.drive s) j = s (w.width * j + (w.top - m.top)) := by
  rw [sample,hm,Nat.div_one,Nat.mod_one,Nat.sub_zero,drive,if_pos ⟨htop,hlane⟩]

end FmacSdk.BitLanes
