import FmacSdk.Common.Errno
import FmacSdk.Foundation.BitFields

/-! # Alternate functions of the GPIO pins

Each pin has a nibble in one of four AFR registers, the number of its alternate
function, and two bits in one of two MODE registers. The driver spreads the bit of
the pin over the lanes of these fields; what is left is a store to two fields.
-/
namespace FmacSdk.HggpioV2Afio
open BitFields

/-- MODE0..MODE1 and AFR0..AFR3 -/
structure Hw where
  mode : Fin 2 → BitVec 32
  afr : Fin 4 → BitVec 32

/-- The three stages that pin_mode and afr have in common: the low sixteen bits, two by
two, in the nibbles of a word. -/
def spreadPairs (x : BitVec 32) : BitVec 32 :=
  let x := (x &&& 0xFF00#32) <<< 8 ||| x &&& 0x00FF#32
  let x := (x &&& 0x00F000F0#32) <<< 4 ||| x &&& 0x000F000F#32
  (x &&& 0x0C0C0C0C#32) <<< 2 ||| x &&& 0x03030303#32

def pinMode (pinBits : BitVec 32) : BitVec 32 :=
  let x := spreadPairs pinBits
  (x &&& 0x22222222#32) <<< 1 ||| x &&& 0x11111111#32

def afr (pinMode : BitVec 32) : BitVec 32 := spreadPairs (pinMode >>> 15 ||| pinMode)

def afrl (afr : BitVec 32) : BitVec 32 := afr &&& 0x11111111#32

def afrh (afr : BitVec 32) : BitVec 32 := afr >>> 1 &&& 0x11111111#32

def storeAfr (r lane afSel : BitVec 32) : BitVec 32 := r &&& ~~~ (lane * 0x0F#32) ||| lane * afSel

def storeMode (r pinMode : BitVec 32) : BitVec 32 := r &&& ~~~ pinMode ||| pinMode <<< 1

/-- A branch of hggpio_v2_afio: the registers of sixteen pins, AFR0, AFR1 and MODE0 or
AFR2, AFR3 and MODE1. -/
def storeBank (reg : Hw) (bank : Fin 2) (pinBits afSel : BitVec 32) : Hw :=
  let low : Fin 4 := ⟨2 * bank,by omega⟩
  let high : Fin 4 := ⟨2 * bank + 1,by omega⟩
  let mode := pinMode pinBits
  let lanes := afr mode
  let afr := Function.update reg.afr low (storeAfr (reg.afr low) (afrl lanes) afSel)
  { afr := Function.update afr high (storeAfr (afr high) (afrh lanes) afSel)
    mode := Function.update reg.mode bank (storeMode (reg.mode bank) mode) }

/-- hggpio_v2_afio of a port whose pins are numbered from `lo` to `hi` -/
def hggpioV2Afio (lo hi : ℕ) (reg : Hw) (pin : ℕ) (afSel : BitVec 32) : Hw × ℤ :=
  if pin < lo ∨ hi < pin then (reg,-EINVAL)
  else
    let pin := pin - lo
    let pinBits := 1#32 <<< pin
    if pin ≤ 15 then (storeBank reg 0 pinBits afSel,RET_OK)
    else (storeBank reg 1 (pinBits >>> 16) afSel,RET_OK)

/-! ## The spread bits -/

theorem pinMode_bit : ∀ p < 16, pinMode (1#32 <<< p) = 1#32 <<< (2 * p) := by decide

/-- The lanes of a pin of the low register. -/
theorem lanes_low : ∀ p < 8, afrl (afr (1#32 <<< (2 * p))) = 1#32 <<< (4 * p) ∧ afrh (afr (1#32 <<< (2 * p))) = 0 := by
  decide

theorem lanes_high : ∀ p < 8, afrl (afr (1#32 <<< (2 * (p + 8)))) = 0 ∧
    afrh (afr (1#32 <<< (2 * (p + 8)))) = 1#32 <<< (4 * p) := by
  decide

theorem high_bit : ∀ p < 16, (1#32 <<< (p + 16)) >>> 16 = 1#32 <<< p := by decide

section Stores
variable {r : BitVec 32} {k : ℕ}

theorem storeAfr_zero (r afSel : BitVec 32) : storeAfr r 0 afSel = r := by
  have hnone (x : BitVec 32) : 0 * x = 0 := BitVec.zero_mul
  rw [storeAfr,hnone,hnone]
  show r &&& BitVec.allOnes 32 ||| 0#32 = r
  rw [BitVec.and_allOnes,BitVec.or_zero]

theorem storeAfr_lane (r : BitVec 32) (k : ℕ) {afSel : BitVec 32} (haf : afSel.toNat < 16) :
    storeAfr r (1#32 <<< (4 * k)) afSel = put r k (afSel.setWidth 4) := by
  have hwide : (afSel.setWidth 4).setWidth 32 = afSel := by
    apply BitVec.eq_of_toNat_eq
    rw [BitVec.toNat_setWidth,BitVec.toNat_setWidth,Nat.mod_eq_of_lt (by omega : afSel.toNat < 2 ^ 4),
      Nat.mod_eq_of_lt afSel.isLt]
  rw [← put_of_lane,hwide]
  rfl

/-- The lower bit of the field is cleared and the upper one set, whatever they were. -/
theorem storeMode_bit (r : BitVec 32) (k : ℕ) : storeMode r (1#32 <<< (2 * k)) = put r k 2#2 := by
  apply BitVec.eq_of_getLsbD_eq
  intro p hp
  rw [put_getLsbD r 2#2 hp,storeMode,← BitVec.shiftLeft_add,← BitVec.twoPow_eq,← BitVec.twoPow_eq,BitVec.getLsbD_or,
    BitVec.getLsbD_and,BitVec.getLsbD_not,BitVec.getLsbD_twoPow,BitVec.getLsbD_twoPow]
  by_cases hlower : p = 2 * k
  · simp [hlower]
  · have hkeep : 2 * k ≠ p := fun h => hlower h.symm
    by_cases hupper : p = 2 * k + 1
    · have hin : 2 * k + 1 < 32 := by omega
      simp [hupper,hin]
    · have hout : ¬ (2 * k ≤ p ∧ p < 2 * k + 2) := by omega
      have hset : 2 * k + 1 ≠ p := fun h => hupper h.symm
      simp [hp,hkeep,hout,hset]

end Stores

/-! ## The port as pins -/

theorem afr_lt (i : Fin 32) : (i : ℕ) / 8 < 4 := by omega

theorem mode_lt (i : Fin 32) : (i : ℕ) / 16 < 2 := by omega

/-- What a call is for: a store to the two fields of the pin. -/
def Hw.select (reg : Hw) (i : Fin 32) (af : BitVec 4) : Hw :=
  ⟨rowPut 16 reg.mode i (mode_lt i) 2#2,rowPut 8 reg.afr i (afr_lt i) af⟩

/-- The number of the alternate function of a pin. -/
def Hw.afrField (reg : Hw) (i : Fin 32) : BitVec 4 := rowField 4 8 reg.afr i (afr_lt i)

def Hw.modeField (reg : Hw) (i : Fin 32) : BitVec 2 := rowField 2 16 reg.mode i (mode_lt i)

section Calls
variable {lo hi : ℕ} {i : Fin 32} {afSel : BitVec 32}

theorem storeBank_afr (reg : Hw) (i : Fin 32) (haf : afSel.toNat < 16) :
    (storeBank reg ⟨i / 16,mode_lt i⟩ (1#32 <<< (i % 16 : ℕ)) afSel).afr =
      rowPut 8 reg.afr i (afr_lt i) (afSel.setWidth 4) := by
  have hplace : (i : ℕ) % 16 < 16 := Nat.mod_lt _ (by omega)
  simp only [storeBank,pinMode_bit _ hplace,rowPut]
  by_cases hlow : (i : ℕ) % 16 < 8
  · obtain ⟨hafrl,hafrh⟩ := lanes_low _ hlow
    have hreg : (i : ℕ) / 8 = 2 * (i / 16) := by omega
    have hnibble : (i : ℕ) % 8 = i % 16 := by omega
    rw [hafrl,hafrh,storeAfr_zero,Function.update_eq_self,storeAfr_lane _ _ haf]
    simp only [hreg,hnibble]
  · obtain ⟨p,hp⟩ : ∃ p, (i : ℕ) % 16 = p + 8 := ⟨i % 16 - 8,by omega⟩
    obtain ⟨hafrl,hafrh⟩ := lanes_high p (by omega)
    have hreg : (i : ℕ) / 8 = 2 * (i / 16) + 1 := by omega
    have hnibble : (i : ℕ) % 8 = p := by omega
    rw [hp,hafrl,hafrh,storeAfr_zero,Function.update_eq_self,storeAfr_lane _ _ haf]
    simp only [hreg,hnibble]

theorem storeBank_eq (reg : Hw) (i : Fin 32) (haf : afSel.toNat < 16) :
    storeBank reg ⟨i / 16,mode_lt i⟩ (1#32 <<< (i % 16 : ℕ)) afSel = reg.select i (afSel.setWidth 4) := by
  have hplace : (i : ℕ) % 16 < 16 := Nat.mod_lt _ (by omega)
  have hmode : (storeBank reg ⟨i / 16,mode_lt i⟩ (1#32 <<< (i % 16 : ℕ)) afSel).mode =
      rowPut 16 reg.mode i (mode_lt i) 2#2 := by
    simp only [storeBank,pinMode_bit _ hplace,storeMode_bit]
    rfl
  rw [Hw.select,← hmode,← storeBank_afr reg i haf]

/-- The lanes come to the plain store: one call of a port with at most 32 pins. -/
theorem hggpioV2Afio_eq (reg : Hw) (hpin : lo + i ≤ hi) (haf : afSel.toNat < 16) :
    hggpioV2Afio lo hi reg (lo + i) afSel = (reg.select i (afSel.setWidth 4),RET_OK) := by
  have hrange : ¬ (lo + i < lo ∨ hi < lo + i) := by omega
  rw [hggpioV2Afio,if_neg hrange,← storeBank_eq reg i haf]
  simp only [Nat.add_sub_cancel_left]
  by_cases hbank : (i : ℕ) ≤ 15
  · have hzero : (⟨i / 16,mode_lt i⟩ : Fin 2) = 0 := Fin.ext (by simp; omega)
    have hplace : (i : ℕ) % 16 = i := by omega
    rw [if_pos hbank,hzero,hplace]
  · have hone : (⟨i / 16,mode_lt i⟩ : Fin 2) = 1 := Fin.ext (by simp; omega)
    have hplace : (i : ℕ) = i % 16 + 16 := by omega
    have hbit := high_bit (i % 16) (Nat.mod_lt _ (by omega))
    rw [← hplace] at hbit
    rw [if_neg hbank,hone,hbit]

theorem hggpioV2Afio_rejected {pin : ℕ} (reg : Hw) (afSel : BitVec 32) (hpin : pin < lo ∨ hi < pin) :
    hggpioV2Afio lo hi reg pin afSel = (reg,-EINVAL) :=
  if_pos hpin

/-- What a call leaves in the six registers. -/
structure Selected (old new : Hw) (i : Fin 32) (afSel : BitVec 32) : Prop where
  afr : (new.afrField i).toNat = afSel.toNat
  mode : new.modeField i = 2
  afrKept : ∀ (k : Fin 4), ∀ p < 32, ¬ ((k : ℕ) = i / 8 ∧ 4 * (i % 8 : ℕ) ≤ p ∧ p < 4 * (i % 8) + 4) →
    (new.afr k).getLsbD p = (old.afr k).getLsbD p
  modeKept : ∀ (k : Fin 2), ∀ p < 32, ¬ ((k : ℕ) = i / 16 ∧ 2 * (i % 16 : ℕ) ≤ p ∧ p < 2 * (i % 16) + 2) →
    (new.mode k).getLsbD p = (old.mode k).getLsbD p

theorem Hw.select_afrField (reg : Hw) (i : Fin 32) (af : BitVec 4) : (reg.select i af).afrField i = af :=
  rowField_rowPut reg.afr (afr_lt i) af (by omega)

theorem Hw.select_modeField (reg : Hw) (i : Fin 32) (af : BitVec 4) : (reg.select i af).modeField i = 2 :=
  rowField_rowPut reg.mode (mode_lt i) 2#2 (by omega)

/-- For every pin of a port and every previous content of the registers: the nibble of the
pin is `afSel`, its mode is 2, and no other bit is changed. -/
theorem hggpioV2Afio_selected (lo hi : ℕ) (reg : Hw) (i : Fin 32) (afSel : BitVec 32) (hpin : lo + i ≤ hi)
    (haf : afSel.toNat < 16) :
    Selected reg (hggpioV2Afio lo hi reg (lo + i) afSel).1 i afSel ∧ (hggpioV2Afio lo hi reg (lo + i) afSel).2 = RET_OK := by
  rw [hggpioV2Afio_eq reg hpin haf]
  refine ⟨⟨?_,reg.select_modeField i _,?_,?_⟩,rfl⟩
  · rw [Hw.select_afrField,BitVec.toNat_setWidth]
    exact Nat.mod_eq_of_lt haf
  · intro k p hp hother
    exact (rowPut_getLsbD reg.afr _ _ k hp).trans (if_neg hother)
  · intro k p hp hother
    exact (rowPut_getLsbD reg.mode _ _ k hp).trans (if_neg hother)

theorem hggpioV2Afio_selected_last :
    Selected ⟨fun _ => BitVec.allOnes 32,fun _ => BitVec.allOnes 32⟩
        (hggpioV2Afio 32 63 ⟨fun _ => BitVec.allOnes 32,fun _ => BitVec.allOnes 32⟩ 63 5).1 31 5 ∧
      (hggpioV2Afio 32 63 ⟨fun _ => BitVec.allOnes 32,fun _ => BitVec.allOnes 32⟩ 63 5).2 = RET_OK :=
  hggpioV2Afio_selected 32 63 _ 31 5 (by decide) (by decide)

end Calls

/-! ## Runs of calls -/

/-- A pin as the registers hold it: its alternate function and its mode. -/
def Hw.pin (reg : Hw) (i : Fin 32) : BitVec 4 × BitVec 2 := (reg.afrField i,reg.modeField i)

structure Call where
  pin : ℕ
  afSel : BitVec 32

def afioAll (lo hi : ℕ) (reg : Hw) (calls : List Call) : Hw :=
  calls.foldl (fun reg c => (hggpioV2Afio lo hi reg c.pin c.afSel).1) reg

section Runs
variable {lo hi : ℕ} {i : Fin 32}

theorem Hw.select_pin_of_ne (reg : Hw) {i j : Fin 32} (hj : j ≠ i) (af : BitVec 4) :
    (reg.select i af).pin j = reg.pin j := by
  have hne : (j : ℕ) ≠ i := fun h => hj (Fin.ext h)
  have hafr : (reg.select i af).afrField j = reg.afrField j :=
    rowField_rowPut_of_ne reg.afr (afr_lt i) (afr_lt j) af hne (by omega)
  have hmode : (reg.select i af).modeField j = reg.modeField j :=
    rowField_rowPut_of_ne reg.mode (mode_lt i) (mode_lt j) 2#2 hne (by omega)
  rw [Hw.pin,Hw.pin,hafr,hmode]

/-- One call changes the pin it names and no other. -/
theorem call_pin (hport : hi < lo + 32) (reg : Hw) (c : Call) (haf : c.afSel.toNat < 16) (hpin : lo + i ≤ hi) :
    (hggpioV2Afio lo hi reg c.pin c.afSel).1.pin i =
      if c.pin = lo + i then (c.afSel.setWidth 4,2) else reg.pin i := by
  by_cases hrange : c.pin < lo ∨ hi < c.pin
  · have hother : c.pin ≠ lo + i := by omega
    rw [hggpioV2Afio_rejected reg c.afSel hrange,if_neg hother]
  · obtain ⟨j,hj⟩ : ∃ j : Fin 32, c.pin = lo + j := ⟨⟨c.pin - lo,by omega⟩,by simp; omega⟩
    rw [hj,hggpioV2Afio_eq reg (by omega) haf]
    by_cases hsame : i = j
    · rw [hsame,if_pos rfl,Hw.pin,Hw.select_afrField,Hw.select_modeField]
    · have hother : lo + (j : ℕ) ≠ lo + i := fun h => hsame (Fin.ext (by omega))
      rw [if_neg hother]
      exact reg.select_pin_of_ne hsame _

/-- After any calls every pin is as its last call selected it, or as it was before. -/
theorem afioAll_pin (hport : hi < lo + 32) (reg : Hw) (calls : List Call) (haf : ∀ c ∈ calls, c.afSel.toNat < 16)
    (hpin : lo + i ≤ hi) :
    (afioAll lo hi reg calls).pin i =
      ((calls.filter fun c => c.pin = lo + i).getLast?.map fun c => (c.afSel.setWidth 4,2)).getD (reg.pin i) := by
  induction calls using List.reverseRecOn with
  | nil => rfl
  | append_singleton calls c ih =>
    have hrun : afioAll lo hi reg (calls ++ [c]) = (hggpioV2Afio lo hi (afioAll lo hi reg calls) c.pin c.afSel).1 := by
      simp [afioAll]
    rw [hrun,call_pin hport _ c (haf c (by simp)) hpin,ih (fun d hd => haf d (by simp [hd])),List.filter_append]
    by_cases hname : c.pin = lo + i <;> simp [hname]

end Runs

end FmacSdk.HggpioV2Afio
