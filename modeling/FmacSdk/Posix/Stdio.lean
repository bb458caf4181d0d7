import FmacSdk.Common.Errno
import FmacSdk.Foundation.Objects
import Mathlib.Algebra.Order.Group.Nat
import Mathlib.Algebra.Ring.Int.Defs
import Mathlib.Tactic.Common

/-! # Files through a buffer in sram

write_from_psram and read_to_psram move a caller's buffer in slices of at most
STDIO_RWBUF_SIZE bytes. The file layer is what it answers to each call.
-/
namespace FmacSdk.Stdio
open Objects

def STDIO_RWBUF_SIZE : ℕ := 10000

/-- The answers of osal_fread and osal_fwrite: to call `i` for `n` bytes, how many were
transferred or a negative error, and the bytes that were read. -/
structure File where
  answer : ℕ → ℕ → ℤ
  data : ℕ → ℕ → List UInt8
  answer_le : ∀ i n, answer i n ≤ n
  answer_int : ∀ i n, -2 ^ 31 ≤ answer i n
  data_length : ∀ i n, (data i n).length = (answer i n).toNat

/-- A call of the file layer, with the bytes that it was handed or that it stored. -/
structure Transfer where
  size : ℕ
  answer : ℤ
  bytes : List UInt8

def uint32 (z : ℤ) : ℕ := (z % 2 ^ 32).toNat

def int32 (n : ℕ) : ℤ := if n % 2 ^ 32 < 2 ^ 31 then ((n % 2 ^ 32 : ℕ) : ℤ) else ((n % 2 ^ 32 : ℕ) : ℤ) - 2 ^ 32

/-- left_len < STDIO_RWBUF_SIZE ? left_len : STDIO_RWBUF_SIZE -/
def sliceLen (left : ℤ) : ℤ := if left < STDIO_RWBUF_SIZE then left else STDIO_RWBUF_SIZE

theorem sub_sliceLen_lt {left : ℤ} (h : left ≠ 0) : (left - sliceLen left).natAbs < left.natAbs := by
  unfold sliceLen STDIO_RWBUF_SIZE
  split_ifs <;> omega

def writeLoop (f : File) (psramBuf : List UInt8) (left writeLen : ℤ) (i : ℕ) (sramBuf : List UInt8)
    (calls : List Transfer) : Option (ℤ × List Transfer) :=
  if hleft : left = 0 then some (writeLen,calls)
  else do
    let bytes ← read psramBuf writeLen.toNat (uint32 (sliceLen left))
    let sramBuf ← write sramBuf 0 bytes
    let slice ← read sramBuf 0 (uint32 (sliceLen left))
    let len := f.answer i (uint32 (sliceLen left))
    let calls := calls ++ [⟨uint32 (sliceLen left),len,slice⟩]
    if len < sliceLen left then some (writeLen + len,calls)
    else writeLoop f psramBuf (left - sliceLen left) (writeLen + sliceLen left) (i + 1) sramBuf calls
termination_by left.natAbs
decreasing_by exact sub_sliceLen_lt hleft

def writeFromPsram (f : File) (sramBuf : Option (List UInt8)) (psramBuf : List UInt8) (nbytes : ℕ) :
    Option (ℤ × List Transfer) :=
  match sramBuf with
  | none => some (-ENOMEM,[])
  | some sramBuf => writeLoop f psramBuf (int32 nbytes) 0 0 sramBuf []

def readLoop (f : File) (left readLen : ℤ) (i : ℕ) (sramBuff psramBuf : List UInt8) (calls : List Transfer) :
    Option (ℤ × List Transfer × List UInt8) :=
  if hleft : left = 0 then some (readLen,calls,psramBuf)
  else do
    let len := f.answer i (uint32 (sliceLen left))
    let sramBuff ← write sramBuff 0 (f.data i (uint32 (sliceLen left)))
    let bytes ← read sramBuff 0 (uint32 len)
    let psramBuf ← write psramBuf readLen.toNat bytes
    let calls := calls ++ [⟨uint32 (sliceLen left),len,bytes⟩]
    if len < sliceLen left then some (readLen + len,calls,psramBuf)
    else readLoop f (left - sliceLen left) (readLen + sliceLen left) (i + 1) sramBuff psramBuf calls
termination_by left.natAbs
decreasing_by exact sub_sliceLen_lt hleft

def readToPsram (f : File) (sramBuff : Option (List UInt8)) (psramBuf : List UInt8) (nbytes : ℕ) :
    Option (ℤ × List Transfer × List UInt8) :=
  match sramBuff with
  | none => some (-ENOMEM,[],psramBuf)
  | some sramBuff => readLoop f (int32 nbytes) 0 0 sramBuff psramBuf []

/-! ## What a transfer is for -/

/-- The bytes that the file layer took or gave. -/
def moved (calls : List Transfer) : List UInt8 := calls.flatMap fun c => c.bytes.take c.answer.toNat

/-- All calls but the last are answered in full, and the result counts the bytes of all,
unless the first of them is an error. -/
structure Counts (n : ℕ) (calls : List Transfer) (ret : ℤ) : Prop where
  full : ∀ c ∈ calls.dropLast, c.answer = c.size
  complete : (∀ c ∈ calls.getLast?, c.answer = c.size) → (moved calls).length = n
  failed : moved calls = [] → (∃ c ∈ calls.getLast?, c.answer < 0) → ret < 0
  counted : ¬ (moved calls = [] ∧ ∃ c ∈ calls.getLast?, c.answer < 0) → ret = (moved calls).length

/-- Without its own buffer a function answers an error and calls nobody; else the file gets
the caller's bytes. -/
def Wrote (n : ℕ) (sramBuf : Option (List UInt8)) (psramBuf : List UInt8)
    (result : Option (ℤ × List Transfer)) : Prop :=
  ∃ ret calls, result = some (ret,calls) ∧ moved calls <+: psramBuf ∧
    if sramBuf = none then ret < 0 ∧ calls = [] else Counts n calls ret

def Filled (n : ℕ) (sramBuff : Option (List UInt8)) (psramBuf : List UInt8)
    (result : Option (ℤ × List Transfer × List UInt8)) : Prop :=
  ∃ ret calls, result = some (ret,calls,moved calls ++ psramBuf.drop (moved calls).length) ∧
    if sramBuff = none then ret < 0 ∧ calls = [] else Counts n calls ret

/-- How much call `i` asks for. -/
def slice (n i : ℕ) : ℕ := min STDIO_RWBUF_SIZE (n - STDIO_RWBUF_SIZE * i)

/-- Call `i` with what it moved. -/
def sliceCall (f : File) (n i : ℕ) (bytes : List UInt8) : Transfer := ⟨slice n i,f.answer i (slice n i),bytes⟩

/-- The first `q` answers are in full. -/
def Full (f : File) (n q : ℕ) : Prop := ∀ i < q, f.answer i (slice n i) = slice n i

/-- From call `lo` on, the answer that ends the transfer is no error. -/
def NoError (f : File) (n lo : ℕ) : Prop :=
  ∀ q, lo ≤ q → Full f n q → STDIO_RWBUF_SIZE * q < n → 0 ≤ f.answer q (slice n q)

/-- A transfer that ended behind `q` full answers: with all bytes, or at a short answer. -/
inductive Ended (f : File) (n q : ℕ) : List Transfer → ℤ → Prop
  | done {calls : List Transfer} (hq : Full f n q) (hn : n ≤ STDIO_RWBUF_SIZE * q)
      (hcalls : ∀ c ∈ calls, c.answer = c.size) (hmoved : (moved calls).length = n) : Ended f n q calls n
  | short {calls : List Transfer} {c : Transfer} (hq : Full f n q) (hn : STDIO_RWBUF_SIZE * q < n)
      (hcalls : ∀ c ∈ calls, c.answer = c.size) (hmoved : (moved calls).length = STDIO_RWBUF_SIZE * q)
      (hanswer : c.answer = f.answer q (slice n q)) (hsize : c.size = slice n q) (hshort : c.answer < c.size)
      (hbytes : c.answer.toNat ≤ c.bytes.length) :
      Ended f n q (calls ++ [c]) ((STDIO_RWBUF_SIZE * q : ℕ) + c.answer)

section Slices
variable {f : File} {n q p i : ℕ} {calls : List Transfer} {c : Transfer} {ret : ℤ} {m : List UInt8}

theorem slice_pos (hi : STDIO_RWBUF_SIZE * i < n) : 0 < slice n i := by
  unfold slice STDIO_RWBUF_SIZE at *
  omega

theorem slice_le (n i : ℕ) : slice n i ≤ STDIO_RWBUF_SIZE := Nat.min_le_left _ _

theorem slice_fits (n i : ℕ) : STDIO_RWBUF_SIZE * i + slice n i ≤ max n (STDIO_RWBUF_SIZE * i) := by
  unfold slice
  omega

/-- The last slice is the rest. -/
theorem slice_last (hi : STDIO_RWBUF_SIZE * i < n) (hlast : n ≤ STDIO_RWBUF_SIZE * (i + 1)) :
    STDIO_RWBUF_SIZE * i + slice n i = n := by
  rw [Nat.mul_succ] at hlast
  unfold slice
  omega

theorem slice_next (hnext : STDIO_RWBUF_SIZE * (i + 1) < n) :
    STDIO_RWBUF_SIZE * i + slice n i = STDIO_RWBUF_SIZE * (i + 1) := by
  rw [Nat.mul_succ] at hnext ⊢
  unfold slice
  omega

theorem left_next (n i : ℕ) :
    ((n - STDIO_RWBUF_SIZE * i : ℕ) : ℤ) - slice n i = (n - (STDIO_RWBUF_SIZE * i + slice n i) : ℕ) := by
  unfold slice
  omega

theorem sliceLen_eq (n i : ℕ) : sliceLen ((n - STDIO_RWBUF_SIZE * i : ℕ) : ℤ) = slice n i := by
  unfold sliceLen slice STDIO_RWBUF_SIZE at *
  split_ifs <;> omega

theorem uint32_natCast (h : n < 2 ^ 32) : uint32 (n : ℤ) = n := by
  unfold uint32
  omega

theorem int32_eq (h : n < 2 ^ 31) : int32 n = n := by
  rw [int32,Nat.mod_eq_of_lt (by omega),if_pos h]

@[simp] theorem moved_nil : moved [] = [] := rfl

@[simp] theorem moved_concat (calls : List Transfer) (c : Transfer) :
    moved (calls ++ [c]) = moved calls ++ c.bytes.take c.answer.toNat := by
  simp [moved]

theorem moved_sliceCall (calls : List Transfer) (f : File) (n i : ℕ) (bytes : List UInt8) :
    moved (calls ++ [sliceCall f n i bytes]) = moved calls ++ bytes.take (f.answer i (slice n i)).toNat :=
  moved_concat calls _

theorem full_concat (hcalls : ∀ c ∈ calls, c.answer = c.size) (hc : c.answer = c.size) :
    ∀ d ∈ calls ++ [c], d.answer = d.size := by
  intro d hd
  rcases List.mem_append.mp hd with hd | hd
  · exact hcalls d hd
  · rw [List.mem_singleton.mp hd,hc]

theorem Full.succ (h : Full f n q) (hanswer : f.answer q (slice n q) = slice n q) : Full f n (q + 1) := by
  intro i hi
  rcases Nat.lt_succ_iff_lt_or_eq.mp hi with hlt | rfl
  · exact h i hlt
  · exact hanswer

theorem Ended.full (h : Ended f n q calls ret) : Full f n q := by cases h <;> assumption

/-- The first short answer is the one the transfer ended at. -/
theorem Ended.eq_of_short (h : Ended f n q calls ret) (hp : Full f n p) (hn : STDIO_RWBUF_SIZE * p < n)
    (hshort : f.answer p (slice n p) < slice n p) : p = q := by
  have hle : ¬ p < q := fun hlt => by
    rw [h.full p hlt] at hshort
    exact lt_irrefl _ hshort
  cases h with
  | done hq hlast => exact absurd (Nat.lt_of_mul_lt_mul_left (lt_of_lt_of_le hn hlast)) hle
  | short hq hn' hcalls hmoved hanswer hsize hless =>
    rcases Nat.lt_trichotomy p q with hlt | heq | hgt
    · exact absurd hlt hle
    · exact heq
    · rw [hanswer,hsize,hp q hgt] at hless
      exact absurd hless (lt_irrefl _)

/-- An error that is looked for is the answer the transfer ended at. -/
theorem Ended.noError_iff (h : Ended f n q calls ret) {lo : ℕ} :
    NoError f n lo ↔ (lo ≤ q → STDIO_RWBUF_SIZE * q < n → 0 ≤ f.answer q (slice n q)) := by
  constructor
  · intro hno hlo hn
    exact hno q hlo h.full hn
  · intro hq p hlo hp hn
    by_contra hneg
    obtain rfl := h.eq_of_short hp hn (by omega)
    exact hneg (hq hlo hn)

theorem Ended.counts_of_end (h : Ended f n q calls ret) :
    Counts n calls ret ↔ (0 < q → STDIO_RWBUF_SIZE * q < n → 0 ≤ f.answer q (slice n q)) := by
  cases h with
  | done hq hn hcalls hmoved =>
    refine iff_of_true ⟨fun c hc => hcalls c (List.dropLast_subset calls hc),fun _ => hmoved,?_,?_⟩ ?_
    · rintro _ ⟨c,hc,hneg⟩
      have hfull := hcalls c (List.mem_of_mem_getLast? hc)
      omega
    · intro _
      rw [hmoved]
    · intro _ hlt
      omega
  | @short calls c hq hn hcalls hmoved hanswer hsize hshort hbytes =>
    have hlength : (moved (calls ++ [c])).length = STDIO_RWBUF_SIZE * q + c.answer.toNat := by
      rw [moved_concat,List.length_append,hmoved,List.length_take,Nat.min_eq_left hbytes]
    have hnil : moved (calls ++ [c]) = [] ↔ STDIO_RWBUF_SIZE * q + c.answer.toNat = 0 := by
      rw [← List.length_eq_zero_iff,hlength]
    have hpos : 0 < q ↔ 0 < STDIO_RWBUF_SIZE * q := by unfold STDIO_RWBUF_SIZE; omega
    rw [← hanswer]
    constructor
    · intro hcounts hq0 _
      have hret := hcounts.counted fun h => by have := hnil.mp h.1; omega
      rw [hlength] at hret
      omega
    · intro hok
      constructor
      · rw [List.dropLast_concat]
        exact hcalls
      · intro hall
        have heq := hall c (by simp)
        omega
      · rintro hempty ⟨d,hd,hneg⟩
        obtain rfl : c = d := by simpa using hd
        have hzero := hnil.mp hempty
        omega
      · intro hnot
        have hsign : 0 ≤ c.answer := by
          by_contra hneg
          by_cases hq0 : 0 < q
          · exact hneg (hok hq0 hn)
          · refine hnot ⟨hnil.mpr ?_,c,by simp,not_le.mp hneg⟩
            rw [Int.toNat_eq_zero.mpr (not_le.mp hneg).le,Nat.eq_zero_of_not_pos hq0,Nat.mul_zero]
        rw [hlength]
        clear hnot
        omega

end Slices

section Writes
variable {f : File} {n q i : ℕ} {calls : List Transfer} {psramBuf sramBuf : List UInt8}

/-- The bytes of slice `i`. -/
def sliceOf (psramBuf : List UInt8) (i : ℕ) : List UInt8 :=
  (psramBuf.drop (STDIO_RWBUF_SIZE * i)).take (slice psramBuf.length i)

theorem sliceOf_length (psramBuf : List UInt8) (i : ℕ) : (sliceOf psramBuf i).length = slice psramBuf.length i := by
  rw [sliceOf,List.length_take,List.length_drop]
  unfold slice
  omega

theorem take_append_sliceOf (psramBuf : List UInt8) (i : ℕ) :
    psramBuf.take (STDIO_RWBUF_SIZE * i) ++ sliceOf psramBuf i =
      psramBuf.take (STDIO_RWBUF_SIZE * i + slice psramBuf.length i) := List.take_add.symm

/-- One slice of a write. -/
theorem writeLoop_step (hn : psramBuf.length < 2 ^ 31) (hsram : sramBuf.length = STDIO_RWBUF_SIZE)
    (hi : STDIO_RWBUF_SIZE * i < psramBuf.length) (calls : List Transfer) :
    ∃ sramBuf' : List UInt8, sramBuf'.length = STDIO_RWBUF_SIZE ∧
      writeLoop f psramBuf (psramBuf.length - STDIO_RWBUF_SIZE * i : ℕ) (STDIO_RWBUF_SIZE * i : ℕ) i sramBuf calls =
        if f.answer i (slice psramBuf.length i) < slice psramBuf.length i then
          some ((STDIO_RWBUF_SIZE * i : ℕ) + f.answer i (slice psramBuf.length i),
            calls ++ [sliceCall f psramBuf.length i (sliceOf psramBuf i)])
        else writeLoop f psramBuf ((psramBuf.length - STDIO_RWBUF_SIZE * i : ℕ) - slice psramBuf.length i)
          ((STDIO_RWBUF_SIZE * i : ℕ) + slice psramBuf.length i) (i + 1) sramBuf'
          (calls ++ [sliceCall f psramBuf.length i (sliceOf psramBuf i)]) := by
  have hle := slice_le psramBuf.length i
  have hfit := (slice_fits psramBuf.length i).trans_eq (max_eq_left hi.le)
  have hwidth : uint32 (slice psramBuf.length i : ℤ) = slice psramBuf.length i := uint32_natCast (by omega)
  have hbytes := sliceOf_length psramBuf i
  have hread : read psramBuf (STDIO_RWBUF_SIZE * i) (slice psramBuf.length i) = some (sliceOf psramBuf i) :=
    if_pos hfit
  have hwrite := write_zero sramBuf (sliceOf psramBuf i) (by rw [hbytes,hsram]; exact hle)
  have hback : read (sliceOf psramBuf i ++ sramBuf.drop (sliceOf psramBuf i).length) 0 (slice psramBuf.length i) =
      some (sliceOf psramBuf i) := by
    rw [read_zero (by rw [List.length_append,hbytes]; omega),List.take_left' hbytes]
  refine ⟨_,(write_length hwrite).trans hsram,?_⟩
  rw [writeLoop,dif_neg (by omega)]
  simp only [sliceCall,sliceLen_eq,hwidth,Int.toNat_natCast,hread,hwrite,hback,Option.bind_eq_bind,Option.bind_some]

/-- A write from slice `i` on. -/
theorem writeLoop_spec (calls : List Transfer) (hn : psramBuf.length < 2 ^ 31) (k : ℕ)
    (hk : psramBuf.length - STDIO_RWBUF_SIZE * i = k)
    (hsram : sramBuf.length = STDIO_RWBUF_SIZE) (hi : STDIO_RWBUF_SIZE * i < psramBuf.length)
    (hfull : Full f psramBuf.length i) (hcalls : ∀ c ∈ calls, c.answer = c.size)
    (hmoved : moved calls = psramBuf.take (STDIO_RWBUF_SIZE * i)) :
    ∃ q ret calls', writeLoop f psramBuf (psramBuf.length - STDIO_RWBUF_SIZE * i : ℕ) (STDIO_RWBUF_SIZE * i : ℕ) i
        sramBuf calls = some (ret,calls') ∧
      Ended f psramBuf.length q calls' ret ∧ moved calls' <+: psramBuf := by
  induction k using Nat.strong_induction_on generalizing i sramBuf calls with
  | _ k ih =>
    obtain ⟨sramBuf',hsram',hstep⟩ := writeLoop_step (f := f) hn hsram hi calls
    have hlaw := f.answer_le i (slice psramBuf.length i)
    have hbytes := sliceOf_length psramBuf i
    rw [hstep]
    split_ifs with hshort
    · refine ⟨i,_,_,rfl,Ended.short hfull hi hcalls ?_ rfl rfl hshort ?_,?_⟩
      · rw [hmoved,List.length_take,Nat.min_eq_left hi.le]
      · show (f.answer i (slice psramBuf.length i)).toNat ≤ (sliceOf psramBuf i).length
        omega
      · rw [moved_sliceCall,hmoved]
        refine List.IsPrefix.trans ?_ (List.take_prefix (STDIO_RWBUF_SIZE * i + slice psramBuf.length i) psramBuf)
        rw [← take_append_sliceOf]
        exact (List.prefix_append_right_inj _).mpr (List.take_prefix _ _)
    · have hanswer : f.answer i (slice psramBuf.length i) = slice psramBuf.length i := by omega
      have hall := full_concat (c := sliceCall f psramBuf.length i (sliceOf psramBuf i)) hcalls hanswer
      have hmoved' : moved (calls ++ [sliceCall f psramBuf.length i (sliceOf psramBuf i)]) =
          psramBuf.take (STDIO_RWBUF_SIZE * i + slice psramBuf.length i) := by
        rw [moved_sliceCall,hmoved,hanswer,Int.toNat_natCast,List.take_of_length_le hbytes.le,take_append_sliceOf]
      rw [left_next,← Int.natCast_add]
      by_cases hlast : psramBuf.length ≤ STDIO_RWBUF_SIZE * (i + 1)
      · rw [slice_last hi hlast,List.take_length] at hmoved'
        rw [slice_last hi hlast,writeLoop,dif_pos (by omega)]
        exact ⟨i + 1,_,_,rfl,Ended.done (hfull.succ hanswer) hlast hall (by rw [hmoved']),[],
          by rw [List.append_nil,hmoved']⟩
      · have hnext := slice_next (not_le.mp hlast)
        rw [hnext] at hmoved' ⊢
        refine ih (psramBuf.length - STDIO_RWBUF_SIZE * (i + 1)) ?_ _ rfl hsram' (not_le.mp hlast) (hfull.succ hanswer)
          hall hmoved'
        have hpos := slice_pos hi
        omega

end Writes

section Reads
variable {f : File} {n q i : ℕ} {calls : List Transfer} {psramBuf sramBuff : List UInt8}

/-- One slice of a read that is answered without an error. -/
theorem readLoop_step (hn : n < 2 ^ 31) (hsram : sramBuff.length = STDIO_RWBUF_SIZE) (hi : STDIO_RWBUF_SIZE * i < n)
    (hanswer : 0 ≤ f.answer i (slice n i)) (front back : List UInt8) (hfront : front.length = STDIO_RWBUF_SIZE * i)
    (hback : STDIO_RWBUF_SIZE * i + back.length = n) (calls : List Transfer) :
    ∃ sramBuff' : List UInt8, sramBuff'.length = STDIO_RWBUF_SIZE ∧
      readLoop f (n - STDIO_RWBUF_SIZE * i : ℕ) (STDIO_RWBUF_SIZE * i : ℕ) i sramBuff (front ++ back) calls =
        if f.answer i (slice n i) < slice n i then
          some ((STDIO_RWBUF_SIZE * i : ℕ) + f.answer i (slice n i),
            calls ++ [sliceCall f n i (f.data i (slice n i))],
            front ++ (f.data i (slice n i) ++ back.drop (f.data i (slice n i)).length))
        else readLoop f ((n - STDIO_RWBUF_SIZE * i : ℕ) - slice n i) ((STDIO_RWBUF_SIZE * i : ℕ) + slice n i) (i + 1)
          sramBuff' (front ++ (f.data i (slice n i) ++ back.drop (f.data i (slice n i)).length))
          (calls ++ [sliceCall f n i (f.data i (slice n i))]) := by
  have hle := slice_le n i
  have hlaw := f.answer_le i (slice n i)
  have hdata := f.data_length i (slice n i)
  have hfit := (slice_fits n i).trans_eq (max_eq_left hi.le)
  have hwidth : uint32 (slice n i : ℤ) = slice n i := uint32_natCast (by omega)
  have hsize : uint32 (f.answer i (slice n i)) = (f.data i (slice n i)).length := by
    unfold uint32
    omega
  have hwrite := write_zero sramBuff (f.data i (slice n i)) (by omega)
  have hread : read (f.data i (slice n i) ++ sramBuff.drop (f.data i (slice n i)).length) 0
      (f.data i (slice n i)).length = some (f.data i (slice n i)) := by
    rw [read_zero (by simp),List.take_left]
  have hput : write (front ++ back) (STDIO_RWBUF_SIZE * i) (f.data i (slice n i)) =
      some (front ++ (f.data i (slice n i) ++ back.drop (f.data i (slice n i)).length)) := by
    rw [← hfront]
    exact write_append front back _ (by omega)
  refine ⟨_,(write_length hwrite).trans hsram,?_⟩
  rw [readLoop,dif_neg (by omega)]
  simp only [sliceCall,sliceLen_eq n i,hwidth,Int.toNat_natCast,hwrite,hsize,hread,hput,Option.bind_eq_bind,
    Option.bind_some]

/-- The copy of an error's length leaves the buffer. -/
theorem readLoop_error (hn : n < 2 ^ 31) (hsram : sramBuff.length = STDIO_RWBUF_SIZE) (hi : STDIO_RWBUF_SIZE * i < n)
    (hanswer : f.answer i (slice n i) < 0) (psramBuf : List UInt8) (calls : List Transfer) :
    readLoop f (n - STDIO_RWBUF_SIZE * i : ℕ) (STDIO_RWBUF_SIZE * i : ℕ) i sramBuff psramBuf calls = none := by
  have hle := slice_le n i
  have hfit := (slice_fits n i).trans_eq (max_eq_left hi.le)
  have hint := f.answer_int i (slice n i)
  have hdata := f.data_length i (slice n i)
  have hwidth : uint32 (slice n i : ℤ) = slice n i := uint32_natCast (by omega)
  have hwrite := write_zero sramBuff (f.data i (slice n i)) (by omega)
  have hread : read (f.data i (slice n i) ++ sramBuff.drop (f.data i (slice n i)).length) 0
      (uint32 (f.answer i (slice n i))) = none := by
    apply read_eq_none_iff.mpr
    rw [write_length hwrite,hsram]
    unfold uint32 STDIO_RWBUF_SIZE
    omega
  rw [readLoop,dif_neg (by omega)]
  simp only [sliceLen_eq n i,hwidth,hwrite,hread,Option.bind_eq_bind,Option.bind_some,Option.bind_none]

/-- A read from slice `i` on: it ends, or it is stopped by an error. -/
theorem readLoop_spec (calls : List Transfer) (hn : psramBuf.length < 2 ^ 31) (k : ℕ)
    (hk : psramBuf.length - STDIO_RWBUF_SIZE * i = k)
    (hsram : sramBuff.length = STDIO_RWBUF_SIZE) (hi : STDIO_RWBUF_SIZE * i < psramBuf.length)
    (hfull : Full f psramBuf.length i) (hcalls : ∀ c ∈ calls, c.answer = c.size)
    (hmoved : (moved calls).length = STDIO_RWBUF_SIZE * i) :
    ∃ q, (∃ ret calls', readLoop f (psramBuf.length - STDIO_RWBUF_SIZE * i : ℕ) (STDIO_RWBUF_SIZE * i : ℕ) i sramBuff
          (moved calls ++ psramBuf.drop (STDIO_RWBUF_SIZE * i)) calls =
            some (ret,calls',moved calls' ++ psramBuf.drop (moved calls').length) ∧
        Ended f psramBuf.length q calls' ret ∧
        (STDIO_RWBUF_SIZE * q < psramBuf.length → 0 ≤ f.answer q (slice psramBuf.length q))) ∨
      (Full f psramBuf.length q ∧ STDIO_RWBUF_SIZE * q < psramBuf.length ∧ f.answer q (slice psramBuf.length q) < 0 ∧
        readLoop f (psramBuf.length - STDIO_RWBUF_SIZE * i : ℕ) (STDIO_RWBUF_SIZE * i : ℕ) i sramBuff
          (moved calls ++ psramBuf.drop (STDIO_RWBUF_SIZE * i)) calls = none) := by
  induction k using Nat.strong_induction_on generalizing i sramBuff calls with
  | _ k ih =>
    by_cases herror : f.answer i (slice psramBuf.length i) < 0
    · exact ⟨i,Or.inr ⟨hfull,hi,herror,readLoop_error hn hsram hi herror _ _⟩⟩
    obtain ⟨sramBuff',hsram',hstep⟩ := readLoop_step (f := f) hn hsram hi (not_lt.mp herror)
      (moved calls) (psramBuf.drop (STDIO_RWBUF_SIZE * i)) hmoved (by rw [List.length_drop]; omega) calls
    have hlaw := f.answer_le i (slice psramBuf.length i)
    have hdata := f.data_length i (slice psramBuf.length i)
    have hbytes : moved (calls ++ [sliceCall f psramBuf.length i (f.data i (slice psramBuf.length i))]) =
        moved calls ++ f.data i (slice psramBuf.length i) := by
      rw [moved_sliceCall,List.take_of_length_le hdata.le]
    have hrest : moved calls ++ (f.data i (slice psramBuf.length i) ++
        (psramBuf.drop (STDIO_RWBUF_SIZE * i)).drop (f.data i (slice psramBuf.length i)).length) =
          moved (calls ++ [sliceCall f psramBuf.length i (f.data i (slice psramBuf.length i))]) ++
            psramBuf.drop (moved (calls ++ [sliceCall f psramBuf.length i (f.data i (slice psramBuf.length i))])).length := by
      rw [hbytes,List.drop_drop,List.append_assoc,List.length_append,hmoved]
    rw [hstep,hrest]
    split_ifs with hshort
    · refine ⟨i,Or.inl ⟨_,_,rfl,Ended.short hfull hi hcalls hmoved rfl rfl hshort hdata.ge,fun _ => not_lt.mp herror⟩⟩
    · have hanswer : f.answer i (slice psramBuf.length i) = slice psramBuf.length i := by omega
      have hall := full_concat (c := sliceCall f psramBuf.length i (f.data i (slice psramBuf.length i))) hcalls hanswer
      have hmoved' : (moved (calls ++ [sliceCall f psramBuf.length i (f.data i (slice psramBuf.length i))])).length =
          STDIO_RWBUF_SIZE * i + slice psramBuf.length i := by
        rw [hbytes,List.length_append,hmoved]
        omega
      rw [left_next,← Int.natCast_add]
      by_cases hlast : psramBuf.length ≤ STDIO_RWBUF_SIZE * (i + 1)
      · have hsum := slice_last hi hlast
        rw [hsum] at hmoved'
        rw [hsum,readLoop,dif_pos (by omega)]
        exact ⟨i + 1,Or.inl ⟨_,_,rfl,Ended.done (hfull.succ hanswer) hlast hall hmoved',fun hlt => by omega⟩⟩
      · have hnext := slice_next (not_le.mp hlast)
        rw [hnext] at hmoved' ⊢
        rw [hmoved']
        refine ih (psramBuf.length - STDIO_RWBUF_SIZE * (i + 1)) ?_ _ rfl hsram' (not_le.mp hlast) (hfull.succ hanswer)
          hall hmoved'
        have hpos := slice_pos hi
        omega

end Reads

/-! ## Whole calls -/

section Calls
variable {f : File} {n : ℕ} {psramBuf sramBuf : List UInt8}

theorem ended_empty (f : File) : Ended f 0 0 [] 0 :=
  Ended.done (fun i hi => absurd hi (Nat.not_lt_zero i)) (Nat.zero_le _) (by simp) rfl

theorem writeFromPsram_spec (hn : psramBuf.length < 2 ^ 31) (hsram : sramBuf.length = STDIO_RWBUF_SIZE) :
    ∃ q ret calls, writeFromPsram f (some sramBuf) psramBuf psramBuf.length = some (ret,calls) ∧
      Ended f psramBuf.length q calls ret ∧ moved calls <+: psramBuf := by
  rw [writeFromPsram,int32_eq hn]
  rcases Nat.eq_zero_or_pos psramBuf.length with hzero | hpos
  · rw [hzero,writeLoop,dif_pos Int.ofNat_zero]
    exact ⟨0,0,[],rfl,ended_empty f,List.nil_prefix⟩
  · have hrun := writeLoop_spec (f := f) (i := 0) [] hn _ rfl hsram (by simpa using hpos)
      (fun i hi => absurd hi (Nat.not_lt_zero i)) (by simp) (by simp)
    simpa using hrun

theorem readToPsram_spec (hn : psramBuf.length < 2 ^ 31) (hsram : sramBuf.length = STDIO_RWBUF_SIZE) :
    ∃ q, (∃ ret calls, readToPsram f (some sramBuf) psramBuf psramBuf.length =
          some (ret,calls,moved calls ++ psramBuf.drop (moved calls).length) ∧
        Ended f psramBuf.length q calls ret ∧
        (STDIO_RWBUF_SIZE * q < psramBuf.length → 0 ≤ f.answer q (slice psramBuf.length q))) ∨
      (Full f psramBuf.length q ∧ STDIO_RWBUF_SIZE * q < psramBuf.length ∧ f.answer q (slice psramBuf.length q) < 0 ∧
        readToPsram f (some sramBuf) psramBuf psramBuf.length = none) := by
  rw [readToPsram,int32_eq hn]
  rcases Nat.eq_zero_or_pos psramBuf.length with hzero | hpos
  · refine ⟨0,Or.inl ⟨0,[],?_,?_,fun hlt => by omega⟩⟩
    · rw [hzero,readLoop,dif_pos Int.ofNat_zero]
      rfl
    · rw [hzero]
      exact ended_empty f
  · have hrun := readLoop_spec (f := f) (i := 0) [] hn _ rfl hsram (by simpa using hpos)
      (fun i hi => absurd hi (Nat.not_lt_zero i)) (by simp) (by simp)
    simpa using hrun

theorem int32_negative (hn : 2 ^ 31 ≤ n) (hsize : n < 2 ^ 32) :
    int32 n = (n : ℤ) - 2 ^ 32 ∧ sliceLen ((n : ℤ) - 2 ^ 32) = (n : ℤ) - 2 ^ 32 ∧ uint32 ((n : ℤ) - 2 ^ 32) = n := by
  refine ⟨?_,?_,?_⟩
  · rw [int32,Nat.mod_eq_of_lt hsize,if_neg (by omega)]
  · unfold sliceLen STDIO_RWBUF_SIZE
    rw [if_pos (by omega)]
  · unfold uint32
    omega

/-- A length from 2^31 on is a negative one, and more than the slice has room for. -/
theorem writeFromPsram_negative (f : File) (hn : 2 ^ 31 ≤ psramBuf.length) (hsize : psramBuf.length < 2 ^ 32)
    (hsram : sramBuf.length = STDIO_RWBUF_SIZE) :
    writeFromPsram f (some sramBuf) psramBuf psramBuf.length = none := by
  obtain ⟨hint,hslice,hwidth⟩ := int32_negative hn hsize
  have hread : read psramBuf (0 : ℤ).toNat psramBuf.length = some psramBuf := by
    rw [Int.toNat_zero,read_zero le_rfl,List.take_length]
  have hwrite : write sramBuf 0 psramBuf = none := by
    apply write_eq_none_iff.mpr
    rw [hsram]
    unfold STDIO_RWBUF_SIZE
    omega
  rw [writeFromPsram,hint,writeLoop,dif_neg (by omega)]
  simp only [hslice,hwidth,hread,hwrite,Option.bind_eq_bind,Option.bind_some,Option.bind_none]

theorem readToPsram_negative (f : File) (hn : 2 ^ 31 ≤ psramBuf.length) (hsize : psramBuf.length < 2 ^ 32)
    (hsram : sramBuf.length = STDIO_RWBUF_SIZE) :
    readToPsram f (some sramBuf) psramBuf psramBuf.length = none ∨
      ∃ ret calls buf, readToPsram f (some sramBuf) psramBuf psramBuf.length = some (ret,calls,buf) ∧ ret < 0 ∧
        ∀ c ∈ calls.getLast?, 0 ≤ c.answer := by
  obtain ⟨hint,hslice,hwidth⟩ := int32_negative hn hsize
  have hdata := f.data_length 0 psramBuf.length
  have hlow := f.answer_int 0 psramBuf.length
  rw [readToPsram,hint,readLoop,dif_neg (by omega)]
  simp only [hslice,hwidth,Int.toNat_zero]
  cases hfill : write sramBuf 0 (f.data 0 psramBuf.length) with
  | none => exact Or.inl rfl
  | some sramBuff' =>
    cases hcopy : read sramBuff' 0 (uint32 (f.answer 0 psramBuf.length)) with
    | none => exact Or.inl (by simp [hcopy])
    | some bytes =>
      -- an error would ask for more than the slice has
      have hsign : 0 ≤ f.answer 0 psramBuf.length := by
        by_contra hneg
        have hnone : read sramBuff' 0 (uint32 (f.answer 0 psramBuf.length)) = none := by
          apply read_eq_none_iff.mpr
          rw [write_length hfill,hsram]
          unfold uint32 STDIO_RWBUF_SIZE
          omega
        exact absurd (hcopy.symm.trans hnone) (by simp)
      cases hput : write psramBuf 0 bytes with
      | none => exact Or.inl (by simp [hcopy,hput])
      | some buf =>
        right
        refine ⟨(psramBuf.length : ℤ) - 2 ^ 32,[⟨psramBuf.length,f.answer 0 psramBuf.length,bytes⟩],buf,?_,by omega,?_⟩
        · simp only [Option.bind_eq_bind,Option.bind_some,hcopy,hput]
          rw [if_neg (by omega),readLoop,dif_pos (by omega),Int.zero_add]
          rfl
        · simpa using hsign

theorem wrote_iff (f : File) (psramBuf sramBuf : List UInt8) (hn : psramBuf.length < 2 ^ 31)
    (hsram : sramBuf.length = STDIO_RWBUF_SIZE) :
    Wrote psramBuf.length (some sramBuf) psramBuf (writeFromPsram f (some sramBuf) psramBuf psramBuf.length) ↔
      NoError f psramBuf.length 1 := by
  obtain ⟨q,ret,calls,hrun,hended,hpre⟩ := writeFromPsram_spec (f := f) hn hsram
  rw [hrun,hended.noError_iff]
  refine Iff.trans ⟨?_,fun h => ⟨ret,calls,rfl,hpre,h⟩⟩ hended.counts_of_end
  rintro ⟨ret',calls',heq,_,hcounts⟩
  obtain ⟨rfl,rfl⟩ := Prod.mk.inj (Option.some.inj heq)
  exact hcounts

theorem filled_iff (f : File) (psramBuf sramBuf : List UInt8) (hn : psramBuf.length < 2 ^ 31)
    (hsram : sramBuf.length = STDIO_RWBUF_SIZE) :
    Filled psramBuf.length (some sramBuf) psramBuf (readToPsram f (some sramBuf) psramBuf psramBuf.length) ↔
      NoError f psramBuf.length 0 := by
  obtain ⟨q,⟨ret,calls,hrun,hended,hok⟩ | ⟨hfull,hlt,herror,hrun⟩⟩ := readToPsram_spec (f := f) hn hsram
  · rw [hrun]
    refine iff_of_true ⟨ret,calls,rfl,?_⟩ (hended.noError_iff.mpr fun _ => hok)
    exact hended.counts_of_end.mpr fun _ => hok
  · rw [hrun]
    refine iff_of_false ?_ fun hno => ?_
    · rintro ⟨ret,calls,heq,_⟩
      exact absurd heq (by simp)
    · exact absurd (hno q (Nat.zero_le q) hfull hlt) (not_le.mpr herror)

/-- Without an error where it is looked for, and with a length that is no negative int, a
transfer does what it is for; and only then. -/
theorem stdio_iff (f : File) (sram : Option (List UInt8)) (psramBuf : List UInt8)
    (hsram : ∀ buf ∈ sram, buf.length = STDIO_RWBUF_SIZE) (hsize : psramBuf.length < 2 ^ 32) :
    (Wrote psramBuf.length sram psramBuf (writeFromPsram f sram psramBuf psramBuf.length) ↔
      sram = none ∨ psramBuf.length < 2 ^ 31 ∧ NoError f psramBuf.length 1) ∧
    (Filled psramBuf.length sram psramBuf (readToPsram f sram psramBuf psramBuf.length) ↔
      sram = none ∨ psramBuf.length < 2 ^ 31 ∧ NoError f psramBuf.length 0) := by
  cases sram with
  | none =>
    refine ⟨iff_of_true ⟨-ENOMEM,[],rfl,List.nil_prefix,?_⟩ (Or.inl rfl),
      iff_of_true ⟨-ENOMEM,[],rfl,?_⟩ (Or.inl rfl)⟩
    · exact ⟨by decide,rfl⟩
    · exact ⟨by decide,rfl⟩
  | some sramBuf =>
    have hbuf := hsram sramBuf rfl
    rw [or_iff_right (by simp),or_iff_right (by simp)]
    by_cases hn : psramBuf.length < 2 ^ 31
    · rw [and_iff_right hn,and_iff_right hn]
      exact ⟨wrote_iff f psramBuf sramBuf hn hbuf,filled_iff f psramBuf sramBuf hn hbuf⟩
    · refine ⟨iff_of_false ?_ fun h => hn h.1,iff_of_false ?_ fun h => hn h.1⟩
      · rintro ⟨ret,calls,hrun,_⟩
        rw [writeFromPsram_negative f (not_lt.mp hn) hsize hbuf] at hrun
        exact absurd hrun (by simp)
      · rintro ⟨ret,calls,hrun,hcounts⟩
        rcases readToPsram_negative f (not_lt.mp hn) hsize hbuf with hnone | ⟨ret',calls',buf,hsome,hneg,hlast⟩
        · exact absurd (hnone.symm.trans hrun) (by simp)
        · have heq := Option.some.inj (hsome.symm.trans hrun)
          obtain ⟨rfl,hrest⟩ := Prod.mk.inj heq
          obtain ⟨rfl,_⟩ := Prod.mk.inj hrest
          have hret := hcounts.counted fun h => by
            obtain ⟨c,hc,herror⟩ := h.2
            exact absurd (hlast c hc) (not_le.mpr herror)
          omega

/-- A file that answers the first `k` calls in full, and all others with an error. -/
def failing (k : ℕ) : File where
  answer i n := if i < k then n else -5
  data i n := if i < k then List.replicate n 7 else []
  answer_le i n := by split_ifs <;> omega
  answer_int i n := by split_ifs <;> omega
  data_length i n := by split_ifs <;> simp

theorem stdio_iff_short :
    Wrote 3 (some (List.replicate STDIO_RWBUF_SIZE 0)) [1,2,3]
        (writeFromPsram (failing 1) (some (List.replicate STDIO_RWBUF_SIZE 0)) [1,2,3] 3) ∧
      Filled 3 (some (List.replicate STDIO_RWBUF_SIZE 0)) [1,2,3]
        (readToPsram (failing 1) (some (List.replicate STDIO_RWBUF_SIZE 0)) [1,2,3] 3) := by
  have hno : ∀ lo, NoError (failing 1) 3 lo := by
    intro lo q _ _ hn
    obtain rfl : q = 0 := by
      unfold STDIO_RWBUF_SIZE at hn
      omega
    exact Int.natCast_nonneg _
  have hsram : ∀ buf ∈ some (List.replicate STDIO_RWBUF_SIZE (0 : UInt8)), buf.length = STDIO_RWBUF_SIZE := by
    intro buf hbuf
    rw [← Option.mem_some.mp hbuf,List.length_replicate]
  have hiff := stdio_iff (failing 1) (some (List.replicate STDIO_RWBUF_SIZE 0)) [1,2,3] hsram (by decide)
  exact ⟨hiff.1.mpr (Or.inr ⟨by decide,hno 1⟩),hiff.2.mpr (Or.inr ⟨by decide,hno 0⟩)⟩

/-- An error behind the first slice of a write, and an error at a read. -/
theorem stdio_fails :
    ¬ Wrote 10001 (some (List.replicate STDIO_RWBUF_SIZE 0)) (List.replicate 10001 1)
        (writeFromPsram (failing 1) (some (List.replicate STDIO_RWBUF_SIZE 0)) (List.replicate 10001 1) 10001) ∧
      ¬ Filled 1 (some (List.replicate STDIO_RWBUF_SIZE 0)) [1]
        (readToPsram (failing 0) (some (List.replicate STDIO_RWBUF_SIZE 0)) [1] 1) := by
  have hlen : (List.replicate 10001 (1 : UInt8)).length = 10001 := List.length_replicate
  constructor
  · intro h
    have hiff := wrote_iff (failing 1) (List.replicate 10001 1) (List.replicate STDIO_RWBUF_SIZE 0)
      (by rw [hlen]; decide) List.length_replicate
    rw [hlen] at hiff
    have herror := hiff.mp h 1 le_rfl (fun i hi => by obtain rfl := Nat.lt_one_iff.mp hi; rfl) (by decide)
    exact absurd herror (by decide)
  · intro h
    have hiff := filled_iff (failing 0) [1] (List.replicate STDIO_RWBUF_SIZE 0) (by decide) List.length_replicate
    have herror := hiff.mp h 0 le_rfl (fun i hi => absurd hi (Nat.not_lt_zero i)) (by decide)
    exact absurd herror (by decide)

end Calls

end FmacSdk.Stdio
