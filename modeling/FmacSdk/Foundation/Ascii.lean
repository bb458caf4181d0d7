import Mathlib.Data.List.Basic
import Mathlib.Data.Nat.Digits.Lemmas
import Mathlib.Data.UInt

/-! # Letters and digits in a text

A text is compared without regard to case through its lower-case form. Numbers are
printed in decimal, and their text is read back as the number.
-/
namespace FmacSdk.Ascii
variable {c d : UInt8}

def lower (c : UInt8) : UInt8 := if 65 ≤ c ∧ c ≤ 90 then c + 32 else c

theorem lower_toNat (c : UInt8) :
    (lower c).toNat = if 65 ≤ c.toNat ∧ c.toNat ≤ 90 then c.toNat + 32 else c.toNat := by
  unfold lower
  simp only [UInt8.le_iff_toNat_le]
  split_ifs with hupper hnat hnat
  · rw [UInt8.toNat_add]
    show (c.toNat + 32) % 2 ^ 8 = c.toNat + 32
    omega
  · exact absurd hupper hnat
  · exact absurd hnat hupper
  · rfl

theorem lower_eq_zero : lower c = 0 ↔ c = 0 := by
  constructor
  · intro h
    have hnat : (lower c).toNat = 0 := congrArg UInt8.toNat h
    rw [lower_toNat] at hnat
    apply UInt8.toNat_inj.mp
    show c.toNat = 0
    split_ifs at hnat
    omega
  · rintro rfl
    rfl

/-- Letters that differ in their case are 32 apart, in the lower half of the code. -/
theorem lower_eq_lower (h : lower c = lower d) :
    c = d ∨ (c.toNat + 32 = d.toNat ∨ d.toNat + 32 = c.toNat) ∧ c.toNat < 128 ∧ d.toNat < 128 := by
  have hnat := congrArg UInt8.toNat h
  rw [lower_toNat,lower_toNat] at hnat
  by_cases heq : c.toNat = d.toNat
  · exact Or.inl (UInt8.toNat_inj.mp heq)
  · right
    split_ifs at hnat <;> omega

/-! ## Decimal numbers -/

def IsDigit (c : UInt8) : Prop := 48 ≤ c.toNat ∧ c.toNat ≤ 57

instance (c : UInt8) : Decidable (IsDigit c) := inferInstanceAs (Decidable (_ ∧ _))

def digit (k : ℕ) : UInt8 := UInt8.ofNat (48 + k)

def decimal (n : ℕ) : List UInt8 := if n = 0 then [digit 0] else (Nat.digits 10 n).reverse.map digit

/-- The number that digits go on to from `v`. -/
def number (v : ℕ) (s : List UInt8) : ℕ := s.foldl (fun v c => 10 * v + (c.toNat - 48)) v

section Decimals
variable {n k v : ℕ} {s : List UInt8}

theorem digit_toNat (hk : k < 10) : (digit k).toNat = 48 + k := by
  rw [digit,UInt8.toNat_ofNat']
  omega

theorem digit_isDigit (hk : k < 10) : IsDigit (digit k) := by
  rw [IsDigit,digit_toNat hk]
  omega

theorem isDigit_of_mem_decimal (hc : c ∈ decimal n) : IsDigit c := by
  unfold decimal at hc
  split_ifs at hc with hzero
  · rw [List.mem_singleton.mp hc]
    exact digit_isDigit (by omega)
  · obtain ⟨k,hk,rfl⟩ := List.mem_map.mp hc
    exact digit_isDigit (Nat.digits_lt_base (by omega) (List.mem_reverse.mp hk))

theorem decimal_ne_nil (n : ℕ) : decimal n ≠ [] := by
  unfold decimal
  split_ifs with hzero
  · simp
  · simpa [Nat.digits_eq_nil_iff_eq_zero] using hzero

theorem number_digits (ks : List ℕ) (hks : ∀ k ∈ ks, k < 10) :
    number 0 (ks.reverse.map digit) = Nat.ofDigits 10 ks := by
  induction ks with
  | nil => rfl
  | cons k ks ih =>
    have hk := digit_toNat (hks k List.mem_cons_self)
    have hrest := ih fun j hj => hks j (List.mem_cons_of_mem _ hj)
    unfold number at hrest ⊢
    rw [List.reverse_cons,List.map_append,List.foldl_append,hrest,Nat.ofDigits_cons]
    simp [hk]
    omega

/-- Printing and reading. -/
theorem number_decimal (n : ℕ) : number 0 (decimal n) = n := by
  unfold decimal
  split_ifs with hzero
  · rw [hzero]
    rfl
  · rw [number_digits _ fun k hk => Nat.digits_lt_base (by omega) hk]
    exact Nat.ofDigits_digits 10 n

theorem decimal_length_le (hn : n < 10 ^ k) (hk : 0 < k) : (decimal n).length ≤ k := by
  unfold decimal
  split_ifs with hzero
  · exact hk
  · rw [List.length_map,List.length_reverse]
    exact (Nat.digits_length_le_iff (by omega) n).mpr hn

end Decimals

/-! ## Hexadecimal bytes -/

def hexDigit (k : ℕ) : UInt8 := if k < 10 then UInt8.ofNat (48 + k) else UInt8.ofNat (87 + k)

def hexByte (b : UInt8) : List UInt8 := [hexDigit (b.toNat / 16),hexDigit (b.toNat % 16)]

def hexText (bs : List UInt8) : List UInt8 := bs.flatMap hexByte

/-- A digit in either letter case. -/
def IsHex (c : UInt8) : Prop := ∃ k < 16, lower c = hexDigit k

instance (c : UInt8) : Decidable (IsHex c) := inferInstanceAs (Decidable (∃ k < 16, lower c = hexDigit k))

section Hexadecimals
variable {b b' : UInt8} {bs bs' : List UInt8} {j k : ℕ}

theorem hexDigit_toNat (hk : k < 16) : (hexDigit k).toNat = if k < 10 then 48 + k else 87 + k := by
  unfold hexDigit
  split_ifs with hdecimal
  · rw [UInt8.toNat_ofNat']
    omega
  · rw [UInt8.toNat_ofNat']
    omega

theorem hexDigit_inj (hj : j < 16) (hk : k < 16) (h : hexDigit j = hexDigit k) : j = k := by
  have hnat := congrArg UInt8.toNat h
  rw [hexDigit_toNat hj,hexDigit_toNat hk] at hnat
  split_ifs at hnat <;> omega

theorem lower_hexDigit (hk : k < 16) : lower (hexDigit k) = hexDigit k := by
  apply UInt8.toNat_inj.mp
  rw [lower_toNat,hexDigit_toNat hk]
  split_ifs <;> omega

theorem IsHex.ne_zero (h : IsHex c) : c ≠ 0 := by
  obtain ⟨k,hk,hdigit⟩ := h
  rintro rfl
  have hnat : (0 : ℕ) = (hexDigit k).toNat := congrArg UInt8.toNat hdigit
  rw [hexDigit_toNat hk] at hnat
  split_ifs at hnat <;> omega

theorem isHex_lower : IsHex (lower c) ↔ IsHex c := by
  have htwice : lower (lower c) = lower c := by
    apply UInt8.toNat_inj.mp
    rw [lower_toNat,lower_toNat]
    split_ifs <;> omega
  rw [IsHex,IsHex,htwice]

/-- Two digits are the text of one byte. -/
theorem hexByte_ofNat (hj : j < 16) (hk : k < 16) : hexByte (UInt8.ofNat (16 * j + k)) = [hexDigit j,hexDigit k] := by
  have hnat : (UInt8.ofNat (16 * j + k)).toNat = 16 * j + k := by
    rw [UInt8.toNat_ofNat']
    omega
  rw [hexByte,hnat,(by omega : (16 * j + k) / 16 = j),(by omega : (16 * j + k) % 16 = k)]

theorem hexByte_inj (h : hexByte b = hexByte b') : b = b' := by
  have hb := b.toNat_lt
  have hb' := b'.toNat_lt
  simp only [hexByte,List.cons.injEq,and_true] at h
  have hhigh := hexDigit_inj (by omega) (by omega) h.1
  have hlow := hexDigit_inj (by omega) (by omega) h.2
  apply UInt8.toNat_inj.mp
  omega

@[simp] theorem hexByte_length (b : UInt8) : (hexByte b).length = 2 := rfl

@[simp] theorem hexText_nil : hexText [] = [] := rfl

@[simp] theorem hexText_cons (b : UInt8) (bs : List UInt8) : hexText (b :: bs) = hexByte b ++ hexText bs := rfl

@[simp] theorem hexText_length (bs : List UInt8) : (hexText bs).length = 2 * bs.length := by
  induction bs with
  | nil => rfl
  | cons b bs ih =>
    rw [hexText_cons,List.length_append,ih,hexByte_length,List.length_cons]
    omega

theorem hexText_inj (h : hexText bs = hexText bs') : bs = bs' := by
  induction bs generalizing bs' with
  | nil =>
    have hlen := congrArg List.length h
    simp only [hexText_nil,List.length_nil,hexText_length] at hlen
    exact (List.length_eq_zero_iff.mp (by omega)).symm
  | cons b bs ih =>
    cases bs' with
    | nil => simp [hexByte] at h
    | cons b' bs' =>
      obtain ⟨hb,hbs⟩ := List.append_inj h (by simp)
      rw [hexByte_inj hb,ih hbs]

theorem isHex_of_mem_hexText (bs : List UInt8) (hc : c ∈ hexText bs) : IsHex c := by
  obtain ⟨b,_,hc⟩ := List.mem_flatMap.mp hc
  have hb := b.toNat_lt
  have hdigit : ∀ k < 16, IsHex (hexDigit k) := fun k hk => ⟨k,hk,lower_hexDigit hk⟩
  rcases List.mem_pair.mp hc with rfl | rfl
  · exact hdigit _ (by omega)
  · exact hdigit _ (by omega)

theorem lower_hexText (bs : List UInt8) : (hexText bs).map lower = hexText bs := by
  induction bs with
  | nil => rfl
  | cons b bs ih =>
    have hb := b.toNat_lt
    rw [hexText_cons,List.map_append,ih]
    congr 1
    simp only [hexByte,List.map_cons,List.map_nil]
    rw [lower_hexDigit (by omega),lower_hexDigit (by omega)]

end Hexadecimals

end FmacSdk.Ascii
