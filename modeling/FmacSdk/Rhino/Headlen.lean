import Mathlib.Data.BitVec
import Mathlib.Tactic.IntervalCases

/-! # The length header of a dynamic ring buffer message

A length is written big endian in one, two or three bytes. The two upper bits of
the first byte say how many bytes there are, so a reader that knows nothing but
the first byte finds the end of the header.
-/
namespace FmacSdk.Rhino

/-- Byte `k` of a word as a little endian machine stores it. -/
def byteAt (x : BitVec 32) (k : ℕ) : BitVec 8 := (x >>> (8 * k)).setWidth 8

/-- The word that a little endian machine reads from four bytes. -/
def leWord (b0 b1 b2 b3 : BitVec 8) : BitVec 32 := b3 ++ b2 ++ b1 ++ b0

/-- krhino_ntohl -/
def krhinoNtohl (x : BitVec 32) : BitVec 32 :=
  (x &&& 0x000000ff#32) <<< 24 ||| (x &&& 0x0000ff00#32) <<< 8 |||
    (x &&& 0x00ff0000#32) >>> 8 ||| (x &&& 0xff000000#32) >>> 24

/-- COMPRESS_LEN: the last case is the value of RHINO_INV_PARAM. -/
def compressLen (x : ℕ) : ℕ :=
  if x ≤ 0x7f then 1 else if x ≤ 0x3fff then 2 else if x ≤ 0x3fffff then 3 else 5

/-- ringbuf_headlen_compress: the number of bytes and the bytes stored in `cmp_buf`. -/
def ringbufHeadlenCompress (headLen : ℕ) : ℕ × List (BitVec 8) :=
  let beLen := krhinoNtohl (BitVec.ofNat 32 headLen)
  let pLen := byteAt beLen
  let lenBytes := compressLen headLen
  (lenBytes,
    if lenBytes = 1 then [0x7f#8 &&& pLen 3]
    else if lenBytes = 2 then [0x80#8 ||| pLen 2,pLen 3]
    else if lenBytes = 3 then [0xC0#8 ||| pLen 1,pLen 2,pLen 3]
    else [])

/-- ringbuf_headlen_decompress -/
def ringbufHeadlenDecompress (bufLen : ℕ) (cmpBuf : List (BitVec 8)) : ℕ :=
  let lenBuf := List.replicate (4 - bufLen) 0#8 ++ cmpBuf
  let lenBuf := if bufLen > 1 then lenBuf.modify (4 - bufLen) (· &&& 0x3f#8) else lenBuf
  (krhinoNtohl (leWord (lenBuf.getD 0 0#8) (lenBuf.getD 1 0#8) (lenBuf.getD 2 0#8) (lenBuf.getD 3 0#8))).toNat

/-- The number of header bytes that ringbuf_pop reads off the first one. -/
def headlenBytes (b : BitVec 8) : Option ℕ :=
  if b &&& 0x80#8 = 0#8 then some 1
  else if b &&& 0xC0#8 = 0x80#8 then some 2
  else if b &&& 0xC0#8 = 0xC0#8 then some 3
  else none

/-! ## Words and their bytes -/

theorem byteAt_leWord (b0 b1 b2 b3 : BitVec 8) :
    byteAt (leWord b0 b1 b2 b3) 0 = b0 ∧ byteAt (leWord b0 b1 b2 b3) 1 = b1 ∧
      byteAt (leWord b0 b1 b2 b3) 2 = b2 ∧ byteAt (leWord b0 b1 b2 b3) 3 = b3 := by
  refine ⟨?_,?_,?_,?_⟩ <;> ext i hi <;> simp [byteAt,leWord] <;> grind

theorem leWord_byteAt (x : BitVec 32) : leWord (byteAt x 0) (byteAt x 1) (byteAt x 2) (byteAt x 3) = x := by
  ext i hi
  simp [byteAt,leWord]
  grind

/-- The bytes come out in the opposite order. -/
theorem byteAt_krhinoNtohl (x : BitVec 32) :
    byteAt (krhinoNtohl x) 0 = byteAt x 3 ∧ byteAt (krhinoNtohl x) 1 = byteAt x 2 ∧
      byteAt (krhinoNtohl x) 2 = byteAt x 1 ∧ byteAt (krhinoNtohl x) 3 = byteAt x 0 := by
  refine ⟨?_,?_,?_,?_⟩ <;> ext i hi <;> interval_cases i <;> simp [krhinoNtohl,byteAt]

theorem krhinoNtohl_leWord (b0 b1 b2 b3 : BitVec 8) :
    krhinoNtohl (leWord b0 b1 b2 b3) = leWord b3 b2 b1 b0 := by
  obtain ⟨h0,h1,h2,h3⟩ := byteAt_krhinoNtohl (leWord b0 b1 b2 b3)
  obtain ⟨k0,k1,k2,k3⟩ := byteAt_leWord b0 b1 b2 b3
  rw [← leWord_byteAt (krhinoNtohl _),h0,h1,h2,h3,k0,k1,k2,k3]

theorem byteAt_toNat (n k : ℕ) (hn : n < 2 ^ 32) :
    (byteAt (BitVec.ofNat 32 n) k).toNat = n / 2 ^ (8 * k) % 256 := by
  have hself : n % 4294967296 = n := Nat.mod_eq_of_lt hn
  simp [byteAt,Nat.shiftRight_eq_div_pow,hself]

theorem byteAt_eq_zero {n k : ℕ} (hn : n < 2 ^ (8 * k)) (hw : n < 2 ^ 32) :
    byteAt (BitVec.ofNat 32 n) k = 0#8 := by
  apply BitVec.eq_of_toNat_eq
  rw [byteAt_toNat n k hw,Nat.div_eq_of_lt hn]
  rfl

/-! ## The marks in the first byte -/

theorem mark_one : ∀ b : BitVec 8, b < 128#8 → 0x7f#8 &&& b = b ∧ headlenBytes b = some 1 := by
  decide +kernel

theorem mark_two : ∀ b : BitVec 8, b < 64#8 →
    (0x80#8 ||| b) &&& 0x3f#8 = b ∧ headlenBytes (0x80#8 ||| b) = some 2 := by
  decide +kernel

theorem mark_three : ∀ b : BitVec 8, b < 64#8 →
    (0xC0#8 ||| b) &&& 0x3f#8 = b ∧ headlenBytes (0xC0#8 ||| b) = some 3 := by
  decide +kernel

/-- The error branch of the reader is never taken: every byte has a mark. -/
theorem headlenBytes_ne_none : ∀ b : BitVec 8, headlenBytes b ≠ none := by
  decide +kernel

theorem compressLen_valid {n : ℕ} (hn : n ≤ 0x3fffff) : 1 ≤ compressLen n ∧ compressLen n ≤ 3 := by
  unfold compressLen
  split_ifs <;> omega

theorem compressLen_invalid {n : ℕ} (hn : 0x3fffff < n) : compressLen n = 5 := by
  unfold compressLen
  rw [if_neg (by omega),if_neg (by omega),if_neg (by omega)]

/-- Every length that the header can carry is read back from it, and the first
byte alone gives the number of its bytes. -/
theorem headlen_roundtrip {n : ℕ} (hn : n ≤ 0x3fffff) :
    (ringbufHeadlenCompress n).2.length = compressLen n ∧
      (ringbufHeadlenCompress n).2.head?.bind headlenBytes = some (compressLen n) ∧
      ringbufHeadlenDecompress (compressLen n) (ringbufHeadlenCompress n).2 = n := by
  have hw : n < 2 ^ 32 := by omega
  obtain ⟨-,h1,h2,h3⟩ := byteAt_krhinoNtohl (BitVec.ofNat 32 n)
  have hzero : ∀ k, n < 2 ^ (8 * k) → byteAt (BitVec.ofNat 32 n) k = 0#8 := fun k hk => byteAt_eq_zero hk hw
  have hword : (leWord (byteAt (BitVec.ofNat 32 n) 0) (byteAt (BitVec.ofNat 32 n) 1)
      (byteAt (BitVec.ofNat 32 n) 2) (byteAt (BitVec.ofNat 32 n) 3)).toNat = n := by
    rw [leWord_byteAt,BitVec.toNat_ofNat,Nat.mod_eq_of_lt hw]
  have hlt : ∀ k c : ℕ, n / 2 ^ (8 * k) < c → c < 256 → byteAt (BitVec.ofNat 32 n) k < BitVec.ofNat 8 c := by
    intro k c hc hc'
    rw [BitVec.lt_def,byteAt_toNat n k hw,BitVec.toNat_ofNat,Nat.mod_eq_of_lt hc']
    exact (Nat.mod_le _ _).trans_lt hc
  by_cases hone : n ≤ 0x7f
  · have hlen : compressLen n = 1 := if_pos hone
    obtain ⟨hmask,hmark⟩ := mark_one _ (hlt 0 128 (by omega) (by omega))
    simp only [ringbufHeadlenCompress,hlen,↓reduceIte,h3,hmask]
    refine ⟨rfl,hmark,?_⟩
    simp only [hzero 1 (by omega),hzero 2 (by omega),hzero 3 (by omega)] at hword
    simpa [ringbufHeadlenDecompress,krhinoNtohl_leWord] using hword
  by_cases htwo : n ≤ 0x3fff
  · have hlen : compressLen n = 2 := by simp [compressLen,hone,htwo]
    obtain ⟨hmask,hmark⟩ := mark_two _ (hlt 1 64 (by omega) (by omega))
    simp only [ringbufHeadlenCompress,hlen,↓reduceIte,h2,h3,OfNat.ofNat_ne_one]
    refine ⟨rfl,hmark,?_⟩
    simp only [hzero 2 (by omega),hzero 3 (by omega)] at hword
    simpa [ringbufHeadlenDecompress,krhinoNtohl_leWord,hmask] using hword
  · have hlen : compressLen n = 3 := by simp [compressLen,hone,htwo,hn]
    obtain ⟨hmask,hmark⟩ := mark_three _ (hlt 2 64 (by omega) (by omega))
    simp only [ringbufHeadlenCompress,hlen,↓reduceIte,h1,h2,h3,OfNat.ofNat_ne_one]
    refine ⟨rfl,hmark,?_⟩
    simp only [hzero 3 (by omega)] at hword
    simpa [ringbufHeadlenDecompress,krhinoNtohl_leWord,hmask] using hword

end FmacSdk.Rhino
