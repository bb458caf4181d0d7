import Mathlib.Data.BitVec
import Mathlib.Data.Nat.Log

/-! # Bitmaps with the first bit at the top of a word

Bit `nr` of a bitmap is bit `31 - nr % 32` of word `nr / 32`, so the first bit
that is set is found by skipping empty words and then halving a word.
-/
namespace FmacSdk.Rhino

/-- BITMAP_MASK -/
def bitmapMask (nr : ℕ) : BitVec 32 := 1#32 <<< (31 - nr % 32)

/-- BITMAP_WORD -/
def bitmapWord (nr : ℕ) : ℕ := nr / 32

/-- krhino_bitmap_set -/
def krhinoBitmapSet (bitmap : List (BitVec 32)) (nr : ℕ) : List (BitVec 32) :=
  bitmap.modify (bitmapWord nr) (· ||| bitmapMask nr)

/-- krhino_bitmap_clear -/
def krhinoBitmapClear (bitmap : List (BitVec 32)) (nr : ℕ) : List (BitVec 32) :=
  bitmap.modify (bitmapWord nr) (· &&& ~~~ bitmapMask nr)

/-- One halving step: where none of the upper bits under `mask` is set, the word
is shifted by their number. -/
def halve (mask : BitVec 32) (n : ℕ) (s : ℕ × BitVec 32) : ℕ × BitVec 32 :=
  if s.2 &&& mask = 0#32 then (s.1 + n,s.2 <<< n) else s

/-- The search within a word. -/
def firstBitOfWord (tmp : BitVec 32) : ℕ :=
  let s := halve 0xFFFF0000#32 16 (0,tmp)
  let s := halve 0xFF000000#32 8 s
  let s := halve 0xF0000000#32 4 s
  let s := halve 0xC0000000#32 2 s
  if s.2 &&& 0x80000000#32 = 0#32 then s.1 + 1 else s.1

/-- krhino_find_first_bit: without a set bit the code reads on behind the bitmap. -/
def krhinoFindFirstBit : List (BitVec 32) → Option ℕ
  | [] => none
  | w :: bitmap => if w = 0#32 then (krhinoFindFirstBit bitmap).map (· + 32) else some (firstBitOfWord w)

/-- Bit `nr` of a bitmap. -/
def bitmapBit (bitmap : List (BitVec 32)) (nr : ℕ) : Bool := (bitmap.getD (nr / 32) 0#32).getLsbD (31 - nr % 32)

/-! ## One word -/

/-- A mask of the upper bits tests for a small word. -/
theorem and_mask_eq_zero {m : BitVec 32} {k : ℕ} (hmask : ∀ i < 32, m.getLsbD i = decide (k ≤ i))
    (x : BitVec 32) : x &&& m = 0#32 ↔ x.toNat < 2 ^ k := by
  constructor
  · intro hzero
    apply Nat.lt_pow_two_of_testBit
    intro i hi
    change x.getLsbD i = false
    rcases Nat.lt_or_ge i 32 with hlt | hge
    · have hbit := congrArg (fun y => y.getLsbD i) hzero
      simpa [hmask i hlt,hi] using hbit
    · exact BitVec.getLsbD_of_ge x i hge
  · intro hlt
    apply BitVec.eq_of_getLsbD_eq
    intro i hi
    rw [BitVec.getLsbD_and,hmask i hi]
    by_cases hk : k ≤ i
    · have hbit : x.getLsbD i = false :=
        Nat.testBit_lt_two_pow (hlt.trans_le (Nat.pow_le_pow_right (by omega) hk))
      simp [hbit]
    · simp [hk]

/-- How far a word was shifted and how large it is by now. -/
def Shifted (tmp : BitVec 32) (b : ℕ) (s : ℕ × BitVec 32) : Prop :=
  s.2.toNat = tmp.toNat * 2 ^ s.1 ∧ 2 ^ b ≤ s.2.toNat

/-- A halving step leaves a word whose upper `n` bits are not all zero. -/
theorem Shifted.halve {tmp m : BitVec 32} {n b : ℕ} {s : ℕ × BitVec 32} (h : Shifted tmp b s)
    (hb : b + n + n = 32) (hmask : ∀ i < 32, m.getLsbD i = decide (32 - n ≤ i)) :
    Shifted tmp (32 - n) (halve m n s) := by
  obtain ⟨hval,hlow⟩ := h
  unfold Rhino.halve
  split_ifs with hzero
  · have hlt := (and_mask_eq_zero hmask s.2).mp hzero
    have hshift : (s.2 <<< n).toNat = s.2.toNat * 2 ^ n := by
      rw [BitVec.toNat_shiftLeft,Nat.shiftLeft_eq,Nat.mod_eq_of_lt]
      calc s.2.toNat * 2 ^ n < 2 ^ (32 - n) * 2 ^ n := Nat.mul_lt_mul_of_pos_right hlt (Nat.two_pow_pos n)
        _ = 2 ^ 32 := by rw [← Nat.pow_add]; congr 1; omega
    refine ⟨?_,?_⟩
    · rw [hshift,hval,Nat.mul_assoc,← Nat.pow_add]
    · rw [hshift,show 32 - n = b + n by omega,Nat.pow_add]
      exact Nat.mul_le_mul_right _ hlow
  · refine ⟨hval,?_⟩
    rw [and_mask_eq_zero hmask] at hzero
    exact not_lt.mp hzero

/-- The search in a word ends at its highest bit. -/
theorem firstBitOfWord_spec {tmp : BitVec 32} (hne : tmp ≠ 0#32) :
    firstBitOfWord tmp < 32 ∧ 2 ^ (31 - firstBitOfWord tmp) ≤ tmp.toNat ∧
      tmp.toNat < 2 ^ (32 - firstBitOfWord tmp) := by
  have hpos : 1 ≤ tmp.toNat := by
    rw [Nat.one_le_iff_ne_zero]
    intro hzero
    exact hne (BitVec.eq_of_toNat_eq hzero)
  have h0 : Shifted tmp 0 (0,tmp) := ⟨by simp,by simpa using hpos⟩
  have h4 := (((h0.halve (m := 0xFFFF0000#32) (n := 16) rfl (by decide)).halve
    (m := 0xFF000000#32) (n := 8) rfl (by decide)).halve
    (m := 0xF0000000#32) (n := 4) rfl (by decide)).halve (m := 0xC0000000#32) (n := 2) rfl (by decide)
  simp only [firstBitOfWord]
  generalize halve 0xC0000000#32 2 _ = s at h4 ⊢
  obtain ⟨hval,hlow⟩ := h4
  have hlast := and_mask_eq_zero (m := 0x80000000#32) (k := 31) (by decide) s.2
  have hlt := s.2.isLt
  have hnr : s.1 < 32 := by
    by_contra hge
    have hbig := Nat.pow_le_pow_right (n := 2) (by omega) (not_lt.mp hge)
    have := Nat.mul_le_mul hpos hbig
    omega
  -- bounds on the shifted word are bounds on the word
  have hscale : ∀ k, k ≤ 32 → s.1 ≤ k → (2 ^ (k - s.1) ≤ tmp.toNat ↔ 2 ^ k ≤ s.2.toNat) := by
    intro k _ hk
    rw [hval,show k = (k - s.1) + s.1 by omega,Nat.pow_add,Nat.add_sub_cancel]
    exact (Nat.mul_le_mul_right_iff (Nat.two_pow_pos _)).symm
  split_ifs with htop
  · have hsmall := hlast.mp htop
    have hnr' : s.1 < 31 := by
      by_contra hge
      have hs : s.1 = 31 := by omega
      rw [hs] at hval
      omega
    have hge := (hscale 30 (by omega) (by omega)).mpr hlow
    have hub := (hscale 31 (by omega) (by omega)).not.mpr (by omega)
    refine ⟨by omega,?_,?_⟩
    · rwa [show 31 - (s.1 + 1) = 30 - s.1 by omega]
    · rw [show 32 - (s.1 + 1) = 31 - s.1 by omega]
      exact not_le.mp hub
  · have hge := (hscale 31 (by omega) (by omega)).mpr (not_lt.mp (hlast.not.mp htop))
    have hub := (hscale 32 (by omega) (by omega)).not.mpr (by omega)
    exact ⟨hnr,hge,not_le.mp hub⟩

/-- The bit found is set and no bit in front of it is. -/
theorem firstBitOfWord_bits {tmp : BitVec 32} (hne : tmp ≠ 0#32) :
    tmp.getLsbD (31 - firstBitOfWord tmp) = true ∧
      ∀ j < firstBitOfWord tmp, tmp.getLsbD (31 - j) = false := by
  obtain ⟨hlt,hlow,hhigh⟩ := firstBitOfWord_spec hne
  constructor
  · have hdiv : tmp.toNat / 2 ^ (31 - firstBitOfWord tmp) = 1 := by
      apply Nat.div_eq_of_lt_le
      · simpa using hlow
      · rw [show 32 - firstBitOfWord tmp = 31 - firstBitOfWord tmp + 1 by omega,Nat.pow_succ] at hhigh
        omega
    change tmp.toNat.testBit _ = true
    rw [Nat.testBit_eq_decide_div_mod_eq,hdiv]
    rfl
  · intro j hj
    exact Nat.testBit_lt_two_pow (hhigh.trans_le (Nat.pow_le_pow_right (by omega) (by omega)))

/-! ## The whole bitmap -/

theorem bitmapBit_cons (w : BitVec 32) (bitmap : List (BitVec 32)) (nr : ℕ) :
    bitmapBit (w :: bitmap) nr = if nr < 32 then w.getLsbD (31 - nr) else bitmapBit bitmap (nr - 32) := by
  unfold bitmapBit
  split_ifs with hlt
  · rw [Nat.div_eq_of_lt hlt,Nat.mod_eq_of_lt hlt]
    rfl
  · obtain ⟨k,rfl⟩ := Nat.exists_eq_add_of_le' (not_lt.mp hlt)
    simp

/-- The search finds the least bit that is set; it runs off the bitmap exactly
where none is. -/
theorem krhinoFindFirstBit_spec (bitmap : List (BitVec 32)) :
    (∀ nr, krhinoFindFirstBit bitmap = some nr ↔
      bitmapBit bitmap nr = true ∧ ∀ j < nr, bitmapBit bitmap j = false) ∧
    (krhinoFindFirstBit bitmap = none ↔ ∀ nr, bitmapBit bitmap nr = false) := by
  suffices h : (∃ nr, krhinoFindFirstBit bitmap = some nr ∧ bitmapBit bitmap nr = true ∧
      ∀ j < nr, bitmapBit bitmap j = false) ∨
      (krhinoFindFirstBit bitmap = none ∧ ∀ nr, bitmapBit bitmap nr = false) by
    rcases h with ⟨k,hk,hset,hleast⟩ | ⟨hnone,hclear⟩
    · refine ⟨fun nr => ⟨?_,?_⟩,⟨fun hno => by simp [hk] at hno,fun hclear => by simp [hclear k] at hset⟩⟩
      · intro hnr
        obtain rfl : k = nr := Option.some.inj (hk.symm.trans hnr)
        exact ⟨hset,hleast⟩
      · rintro ⟨hset',hleast'⟩
        rw [hk]
        congr 1
        rcases Nat.lt_trichotomy k nr with hlt | heq | hgt
        · simp [hleast' k hlt] at hset
        · exact heq
        · simp [hleast nr hgt] at hset'
    · refine ⟨fun nr => ⟨fun hsome => by simp [hnone] at hsome,fun hset => ?_⟩,⟨fun _ => hclear,fun _ => hnone⟩⟩
      simp [hclear nr] at hset
  induction bitmap with
  | nil => exact Or.inr ⟨rfl,fun nr => by simp [bitmapBit]⟩
  | cons w bitmap ih =>
    by_cases hw : w = 0#32
    · have hfirst : ∀ j < 32, bitmapBit (w :: bitmap) j = false := by
        intro j hj
        rw [bitmapBit_cons,if_pos hj,hw]
        simp
      have hrest : ∀ j, bitmapBit (w :: bitmap) (j + 32) = bitmapBit bitmap j := by
        intro j
        rw [bitmapBit_cons,if_neg (by omega),Nat.add_sub_cancel]
      rcases ih with ⟨nr,hnr,hset,hleast⟩ | ⟨hnone,hclear⟩
      · refine Or.inl ⟨nr + 32,by simp [krhinoFindFirstBit,hw,hnr],(hrest nr).trans hset,?_⟩
        intro j hj
        rcases Nat.lt_or_ge j 32 with hlt | hge
        · exact hfirst j hlt
        · obtain ⟨k,rfl⟩ := Nat.exists_eq_add_of_le' hge
          rw [hrest]
          exact hleast k (by omega)
      · refine Or.inr ⟨by simp [krhinoFindFirstBit,hw,hnone],?_⟩
        intro j
        rcases Nat.lt_or_ge j 32 with hlt | hge
        · exact hfirst j hlt
        · obtain ⟨k,rfl⟩ := Nat.exists_eq_add_of_le' hge
          rw [hrest]
          exact hclear k
    · have hlt := (firstBitOfWord_spec hw).1
      obtain ⟨hset,hleast⟩ := firstBitOfWord_bits hw
      refine Or.inl ⟨firstBitOfWord w,by simp [krhinoFindFirstBit,hw],?_,?_⟩
      · rw [bitmapBit_cons,if_pos hlt]
        exact hset
      · intro j hj
        rw [bitmapBit_cons,if_pos (by omega)]
        exact hleast j hj

theorem bitmapMask_bit {nr j : ℕ} (hj : j < 32) :
    (bitmapMask nr).getLsbD (31 - j) = decide (j = nr % 32) := by
  have hmod := Nat.mod_lt nr (show 0 < 32 by omega)
  unfold bitmapMask
  rw [BitVec.getLsbD_shiftLeft,BitVec.getLsbD_one]
  grind

/-- Setting a bit of the bitmap sets that bit and no other one. -/
theorem bitmapBit_set {bitmap : List (BitVec 32)} {nr : ℕ} (hnr : nr < 32 * bitmap.length) (j : ℕ) :
    bitmapBit (krhinoBitmapSet bitmap nr) j = if j = nr then true else bitmapBit bitmap j := by
  unfold bitmapBit krhinoBitmapSet bitmapWord
  simp only [List.getD_eq_getElem?_getD,List.getElem?_modify]
  have hj := Nat.div_add_mod j 32
  have hn := Nat.div_add_mod nr 32
  by_cases hword : nr / 32 = j / 32
  · have hin : j / 32 < bitmap.length := by omega
    simp only [hword,↓reduceIte,List.getElem?_eq_getElem hin,Option.map_eq_map,Option.map_some,
      Option.getD_some]
    rw [BitVec.getLsbD_or,bitmapMask_bit (Nat.mod_lt j (by omega))]
    have heq : j % 32 = nr % 32 ↔ j = nr := by omega
    by_cases hjn : j = nr <;> simp [heq,hjn]
  · have hne : j ≠ nr := by rintro rfl; exact hword rfl
    simp [hword,hne]

/-- Clearing a bit of the bitmap clears that bit and no other one. -/
theorem bitmapBit_clear {bitmap : List (BitVec 32)} {nr : ℕ} (hnr : nr < 32 * bitmap.length) (j : ℕ) :
    bitmapBit (krhinoBitmapClear bitmap nr) j = if j = nr then false else bitmapBit bitmap j := by
  unfold bitmapBit krhinoBitmapClear bitmapWord
  simp only [List.getD_eq_getElem?_getD,List.getElem?_modify]
  have hj := Nat.div_add_mod j 32
  have hn := Nat.div_add_mod nr 32
  by_cases hword : nr / 32 = j / 32
  · have hin : j / 32 < bitmap.length := by omega
    simp only [hword,↓reduceIte,List.getElem?_eq_getElem hin,Option.map_eq_map,Option.map_some,
      Option.getD_some]
    rw [BitVec.getLsbD_and,BitVec.getLsbD_not,bitmapMask_bit (Nat.mod_lt j (by omega))]
    have heq : j % 32 = nr % 32 ↔ j = nr := by omega
    have hlt : 31 - j % 32 < 32 := by omega
    by_cases hjn : j = nr <;> simp [heq,hjn,hlt]
  · have hne : j ≠ nr := by rintro rfl; exact hword rfl
    simp [hword,hne]

@[simp] theorem krhinoBitmapSet_length (bitmap : List (BitVec 32)) (nr : ℕ) :
    (krhinoBitmapSet bitmap nr).length = bitmap.length := by simp [krhinoBitmapSet]

@[simp] theorem krhinoBitmapClear_length (bitmap : List (BitVec 32)) (nr : ℕ) :
    (krhinoBitmapClear bitmap nr).length = bitmap.length := by simp [krhinoBitmapClear]

end FmacSdk.Rhino
