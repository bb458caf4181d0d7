import FmacSdk.Foundation.Lockstep
import FmacSdk.Foundation.RingStream
import Mathlib.Data.BitVec
import Mathlib.Tactic.NormNum

/-! # The byte fifo of the kernel

The two counters run freely and wrap at the width of a word; only their residues
address the memory, so the size has to be a power of two. Seen by its callers
the fifo is a queue of bytes that takes what there is room for.
-/
namespace FmacSdk.Rhino
open RingStream Lockstep

/-- struct k_fifo; the counters `in` and `out`. -/
structure KFifo where
  inn : BitVec 32
  out : BitVec 32
  mask : BitVec 32
  data : ℕ → BitVec 8
  freeBytes : BitVec 32
  size : BitVec 32

/-- fifo_unused -/
def fifoUnused (fifo : KFifo) : BitVec 32 := fifo.mask + 1#32 - (fifo.inn - fifo.out)

/-- is_power_of_2 -/
def isPowerOf2 (n : BitVec 32) : Bool := n ≠ 0#32 && n &&& (n - 1#32) = 0#32

/-- fifo_init: the return value and the fifo. -/
def fifoInit (fifo : KFifo) (buffer : ℕ → BitVec 8) (size : BitVec 32) : BitVec 8 × KFifo :=
  if !isPowerOf2 size then (1#8,fifo)
  else
    let fifo := { fifo with inn := 0#32, out := 0#32, data := buffer }
    if size < 2#32 then (1#8,{ fifo with mask := 0#32 })
    else (0#8,{ fifo with mask := size - 1#32, freeBytes := size, size := size })

/-- fifo_min -/
def fifoMin (x y : BitVec 32) : BitVec 32 := if x > y then y else x

/-- fifo_copy_in -/
def fifoCopyIn (fifo : KFifo) (src : ℕ → BitVec 8) (len off : BitVec 32) : KFifo :=
  let size := fifo.mask + 1#32
  let off := off &&& fifo.mask
  let l := fifoMin len (size - off)
  { fifo with
    data := blit (blit fifo.data off.toNat (cells src 0 l.toNat)) 0 (cells src l.toNat (len - l).toNat) }

/-- fifo_in: the number of bytes taken and the fifo. -/
def fifoIn (fifo : KFifo) (buf : ℕ → BitVec 8) (len : BitVec 32) : BitVec 32 × KFifo :=
  let l := fifoUnused fifo
  let len := if len > l then l else len
  let fifo := fifoCopyIn fifo buf len fifo.inn
  (len,{ fifo with inn := fifo.inn + len, freeBytes := fifo.freeBytes - len })

/-- kfifo_copy_out: the bytes stored at `dst`. -/
def kfifoCopyOut (fifo : KFifo) (len off : BitVec 32) : List (BitVec 8) :=
  let size := fifo.mask + 1#32
  let off := off &&& fifo.mask
  let l := fifoMin len (size - off)
  cells fifo.data off.toNat l.toNat ++ cells fifo.data 0 (len - l).toNat

/-- internal_fifo_out_peek and fifo_out_peek -/
def fifoOutPeek (fifo : KFifo) (len : BitVec 32) : BitVec 32 × List (BitVec 8) :=
  let l := fifo.inn - fifo.out
  let len := if len > l then l else len
  (len,kfifoCopyOut fifo len fifo.out)

/-- fifo_out -/
def fifoOut (fifo : KFifo) (len : BitVec 32) : BitVec 32 × List (BitVec 8) × KFifo :=
  let (len,bytes) := fifoOutPeek fifo len
  (len,bytes,{ fifo with out := fifo.out + len, freeBytes := fifo.freeBytes + len })

/-- fifo_out_all -/
def fifoOutAll (fifo : KFifo) : BitVec 32 × List (BitVec 8) × KFifo :=
  let len := fifo.size - fifo.freeBytes
  if len = 0#32 then (0#32,[],fifo) else fifoOut fifo len

/-- The requests of the callers of the fifo. -/
inductive FifoOp
  | put (buf : ℕ → BitVec 8) (len : BitVec 32)
  | peek (len : BitVec 32)
  | get (len : BitVec 32)
  | getAll

/-- The fifo as the code has it: the reply is the count with the bytes handed out. -/
def fifoStep (fifo : KFifo) : FifoOp → KFifo × ℕ × List (BitVec 8)
  | .put buf len => ((fifoIn fifo buf len).2,(fifoIn fifo buf len).1.toNat,[])
  | .peek len => (fifo,(fifoOutPeek fifo len).1.toNat,(fifoOutPeek fifo len).2)
  | .get len => ((fifoOut fifo len).2.2,(fifoOut fifo len).1.toNat,(fifoOut fifo len).2.1)
  | .getAll => ((fifoOutAll fifo).2.2,(fifoOutAll fifo).1.toNat,(fifoOutAll fifo).2.1)

/-- What the fifo is for: a queue of at most `cap` bytes. -/
def byteQueueStep (cap : ℕ) (xs : List (BitVec 8)) : FifoOp → List (BitVec 8) × ℕ × List (BitVec 8)
  | .put buf len =>
    let n := min len.toNat (cap - xs.length)
    (xs ++ cells buf 0 n,n,[])
  | .peek len => (xs,min len.toNat xs.length,xs.take len.toNat)
  | .get len => (xs.drop len.toNat,min len.toNat xs.length,xs.take len.toNat)
  | .getAll => ([],xs.length,xs)

/-! ## The bytes in the fifo -/

/-- A fifo over `cap` bytes of `mem` that holds the bytes `xs`. -/
structure FifoHolds (mem : ℕ → BitVec 8) (cap : ℕ) (fifo : KFifo) (xs : List (BitVec 8)) : Prop where
  power : ∃ k < 32, cap = 2 ^ k
  mask : fifo.mask.toNat = cap - 1
  size : fifo.size.toNat = cap
  used : (fifo.inn - fifo.out).toNat = xs.length
  bytes : Stream cap fifo.data (fifo.out.toNat % cap) (fifo.inn.toNat % cap) fifo.freeBytes.toNat xs
  outside : ∀ k, cap ≤ k → fifo.data k = mem k

variable {mem : ℕ → BitVec 8} {cap : ℕ} {fifo : KFifo} {xs : List (BitVec 8)} {len : BitVec 32}

theorem FifoHolds.cap_bounds (h : FifoHolds mem cap fifo xs) : 0 < cap ∧ cap ≤ 2 ^ 31 := by
  obtain ⟨k,hk,rfl⟩ := h.power
  exact ⟨Nat.two_pow_pos k,Nat.pow_le_pow_right (by omega) (by omega)⟩

/-- Masking a counter leaves its residue. -/
theorem FifoHolds.and_mask (h : FifoHolds mem cap fifo xs) (x : BitVec 32) :
    (x &&& fifo.mask).toNat = x.toNat % cap := by
  obtain ⟨k,-,hk⟩ := h.power
  rw [BitVec.toNat_and,h.mask,hk,Nat.and_two_pow_sub_one_eq_mod]

/-- The width of the counters is a whole number of turns. -/
theorem FifoHolds.mod_add (h : FifoHolds mem cap fifo xs) (x y : BitVec 32) :
    (x + y).toNat % cap = (x.toNat % cap + y.toNat) % cap := by
  obtain ⟨k,hk,rfl⟩ := h.power
  rw [BitVec.toNat_add,Nat.mod_mod_of_dvd _ (Nat.pow_dvd_pow 2 hk.le),Nat.mod_add_mod]

theorem FifoHolds.cells_size (h : FifoHolds mem cap fifo xs) : (fifo.mask + 1#32).toNat = cap := by
  obtain ⟨hpos,hle⟩ := h.cap_bounds
  have hmask := h.mask
  rw [BitVec.toNat_add,BitVec.toNat_ofNat]
  omega

theorem FifoHolds.unused (h : FifoHolds mem cap fifo xs) :
    (fifoUnused fifo).toNat = cap - xs.length ∧ xs.length ≤ cap := by
  have hsize := h.bytes.size
  have hcells := h.cells_size
  have hused := h.used
  refine ⟨?_,by omega⟩
  unfold fifoUnused
  rw [BitVec.toNat_sub_of_le (by rw [BitVec.le_def]; omega),hcells,hused]

theorem fifoMin_toNat (x y : BitVec 32) : (fifoMin x y).toNat = min x.toNat y.toNat := by
  unfold fifoMin
  split_ifs with hgt
  · rw [gt_iff_lt,BitVec.lt_def] at hgt
    omega
  · rw [gt_iff_lt,BitVec.lt_def] at hgt
    omega

/-- The first part of a copy goes to the end of the memory at most. -/
theorem FifoHolds.first_part (h : FifoHolds mem cap fifo xs) (len off : BitVec 32) :
    (fifoMin len (fifo.mask + 1#32 - (off &&& fifo.mask))).toNat = min len.toNat (cap - off.toNat % cap) ∧
      (len - fifoMin len (fifo.mask + 1#32 - (off &&& fifo.mask))).toNat =
        len.toNat - min len.toNat (cap - off.toNat % cap) := by
  have hlt := Nat.mod_lt off.toNat h.cap_bounds.1
  have hsub : (fifo.mask + 1#32 - (off &&& fifo.mask)).toNat = cap - off.toNat % cap := by
    rw [BitVec.toNat_sub_of_le (by rw [BitVec.le_def,h.cells_size,h.and_mask]; omega),h.cells_size,h.and_mask]
  have hmin : (fifoMin len (fifo.mask + 1#32 - (off &&& fifo.mask))).toNat =
      min len.toNat (cap - off.toNat % cap) := by
    rw [fifoMin_toNat,hsub]
  refine ⟨hmin,?_⟩
  rw [BitVec.toNat_sub_of_le (by rw [BitVec.le_def,hmin]; omega),hmin]

/-- Bytes that there is room for are appended. -/
theorem FifoHolds.put (h : FifoHolds mem cap fifo xs) (buf : ℕ → BitVec 8)
    (hroom : len.toNat ≤ cap - xs.length) :
    FifoHolds mem cap
      { fifoCopyIn fifo buf len fifo.inn with
        inn := fifo.inn + len, freeBytes := fifo.freeBytes - len }
      (xs ++ cells buf 0 len.toNat) := by
  have hsize := h.bytes.size
  have hused := h.used
  obtain ⟨hpos,hle⟩ := h.cap_bounds
  have htail := Nat.mod_lt fifo.inn.toNat hpos
  obtain ⟨hfirst,hsecond⟩ := h.first_part len fifo.inn
  have hlen : (cells buf 0 len.toNat).length = len.toNat := cells_length ..
  have hput := h.bytes.put_split (cells buf 0 len.toNat) htail (by omega)
  rw [hlen,cells_take,cells_drop,Nat.zero_add] at hput
  refine ⟨h.power,h.mask,h.size,?_,?_,?_⟩
  · simp only [fifoCopyIn,List.length_append,hlen]
    bv_omega
  · have hfree : (fifo.freeBytes - len).toNat = fifo.freeBytes.toNat - len.toNat :=
      BitVec.toNat_sub_of_le (by rw [BitVec.le_def]; omega)
    simp only [fifoCopyIn,hfirst,hsecond,h.and_mask,h.mod_add,hfree]
    exact hput
  · intro k hk
    simp only [fifoCopyIn,hfirst,hsecond,h.and_mask]
    rw [blit_outside (by right; rw [cells_length]; omega),blit_outside (by right; rw [cells_length]; omega)]
    exact h.outside k hk

/-- Bytes that are there are read in order. -/
theorem FifoHolds.copyOut (h : FifoHolds mem cap fifo xs) (hn : len.toNat ≤ xs.length) :
    kfifoCopyOut fifo len fifo.out = xs.take len.toNat := by
  have hhead := Nat.mod_lt fifo.out.toNat h.cap_bounds.1
  obtain ⟨hfirst,hsecond⟩ := h.first_part len fifo.out
  simp only [kfifoCopyOut,hfirst,hsecond,h.and_mask]
  exact (h.bytes.get_split hhead hn).1

theorem FifoHolds.get (h : FifoHolds mem cap fifo xs) (hn : len.toNat ≤ xs.length) :
    FifoHolds mem cap { fifo with out := fifo.out + len, freeBytes := fifo.freeBytes + len }
      (xs.drop len.toNat) := by
  have hsize := h.bytes.size
  have hused := h.used
  obtain ⟨hpos,hle⟩ := h.cap_bounds
  have hhead := Nat.mod_lt fifo.out.toNat hpos
  refine ⟨h.power,h.mask,h.size,?_,?_,h.outside⟩
  · rw [List.length_drop]
    bv_omega
  · have hfree : (fifo.freeBytes + len).toNat = fifo.freeBytes.toNat + len.toNat := by
      rw [BitVec.toNat_add]
      omega
    simp only [hfree,h.mod_add]
    exact (h.bytes.get_split hhead hn).2

/-- A request is cut down to what is there. -/
theorem FifoHolds.clamp (h : FifoHolds mem cap fifo xs) (len : BitVec 32) :
    (if len > fifo.inn - fifo.out then fifo.inn - fifo.out else len).toNat = min len.toNat xs.length := by
  rw [← h.used]
  exact fifoMin_toNat len (fifo.inn - fifo.out)

theorem FifoHolds.peek (h : FifoHolds mem cap fifo xs) (len : BitVec 32) :
    (fifoOutPeek fifo len).1.toNat = min len.toNat xs.length ∧
      (fifoOutPeek fifo len).2 = xs.take len.toNat := by
  have hlen := h.clamp len
  refine ⟨hlen,?_⟩
  simp only [fifoOutPeek]
  rw [h.copyOut (by omega),hlen,List.take_eq_take_iff]
  omega

theorem FifoHolds.out (h : FifoHolds mem cap fifo xs) (len : BitVec 32) :
    (fifoOut fifo len).1.toNat = min len.toNat xs.length ∧ (fifoOut fifo len).2.1 = xs.take len.toNat ∧
      FifoHolds mem cap (fifoOut fifo len).2.2 (xs.drop len.toNat) := by
  obtain ⟨hcount,hbytes⟩ := h.peek len
  have hle : (fifoOutPeek fifo len).1.toNat ≤ xs.length := by omega
  have hnext := h.get hle
  have hdrop : xs.drop (min len.toNat xs.length) = xs.drop len.toNat := by
    rw [List.drop_eq_drop_iff]
    omega
  rw [hcount,hdrop] at hnext
  exact ⟨hcount,hbytes,hnext⟩

theorem FifoHolds.outAll (h : FifoHolds mem cap fifo xs) :
    (fifoOutAll fifo).1.toNat = xs.length ∧ (fifoOutAll fifo).2.1 = xs ∧
      FifoHolds mem cap (fifoOutAll fifo).2.2 [] := by
  have hsize := h.bytes.size
  have hlen : (fifo.size - fifo.freeBytes).toNat = xs.length := by
    rw [BitVec.toNat_sub_of_le (by rw [BitVec.le_def,h.size]; omega),h.size]
    omega
  simp only [fifoOutAll]
  split_ifs with hzero
  · rw [hzero] at hlen
    obtain rfl : xs = [] := List.eq_nil_of_length_eq_zero hlen.symm
    exact ⟨rfl,rfl,h⟩
  · obtain ⟨hcount,hbytes,hnext⟩ := h.out (fifo.size - fifo.freeBytes)
    rw [hlen] at hcount hbytes hnext
    rw [List.take_length] at hbytes
    rw [List.drop_length] at hnext
    exact ⟨by omega,hbytes,hnext⟩

theorem FifoHolds.in (h : FifoHolds mem cap fifo xs) (buf : ℕ → BitVec 8) (len : BitVec 32) :
    (fifoIn fifo buf len).1.toNat = min len.toNat (cap - xs.length) ∧
      FifoHolds mem cap (fifoIn fifo buf len).2 (xs ++ cells buf 0 (min len.toNat (cap - xs.length))) := by
  obtain ⟨hunused,-⟩ := h.unused
  have hcount : (fifoIn fifo buf len).1.toNat = min len.toNat (cap - xs.length) := by
    rw [← hunused]
    exact fifoMin_toNat len (fifoUnused fifo)
  have hle : (fifoIn fifo buf len).1.toNat ≤ cap - xs.length := by omega
  have hnext := h.put buf hle
  rw [hcount] at hnext
  exact ⟨hcount,hnext⟩

/-- One request of a caller, answered by the fifo as by the queue of bytes. -/
theorem FifoHolds.step (h : FifoHolds mem cap fifo xs) (o : FifoOp) :
    (fifoStep fifo o).2 = (byteQueueStep cap xs o).2 ∧
      FifoHolds mem cap (fifoStep fifo o).1 (byteQueueStep cap xs o).1 := by
  cases o with
  | put buf len =>
    obtain ⟨hcount,hnext⟩ := h.in buf len
    exact ⟨by simp only [fifoStep,byteQueueStep,hcount],hnext⟩
  | peek len =>
    obtain ⟨hcount,hbytes⟩ := h.peek len
    exact ⟨by simp only [fifoStep,byteQueueStep,hcount,hbytes],h⟩
  | get len =>
    obtain ⟨hcount,hbytes,hnext⟩ := h.out len
    exact ⟨by simp only [fifoStep,byteQueueStep,hcount,hbytes],hnext⟩
  | getAll =>
    obtain ⟨hcount,hbytes,hnext⟩ := h.outAll
    exact ⟨by simp only [fifoStep,byteQueueStep,hcount,hbytes],hnext⟩

/-- The sizes that the fifo can be set up with. -/
theorem isPowerOf2_iff (n : BitVec 32) : isPowerOf2 n = true ↔ ∃ k < 32, n.toNat = 2 ^ k := by
  have hnat : isPowerOf2 n = true ↔ n.toNat ≠ 0 ∧ n.toNat &&& (n.toNat - 1) = 0 := by
    unfold isPowerOf2
    rw [Bool.and_eq_true,decide_eq_true_eq,decide_eq_true_eq,Ne,← BitVec.toNat_inj,← BitVec.toNat_inj,
      BitVec.toNat_and]
    refine and_congr_right fun hne => ?_
    rw [BitVec.toNat_sub_of_le (by rw [BitVec.le_def]; simp at hne ⊢; omega)]
    rfl
  rw [hnat,Nat.ne_zero_and_sub_one_eq_zero_iff_isPowerOfTwo]
  constructor
  · rintro ⟨k,hk⟩
    refine ⟨k,?_,hk⟩
    have hlt : 2 ^ k < 2 ^ 32 := hk ▸ n.isLt
    exact (Nat.pow_lt_pow_iff_right (by omega)).mp hlt
  · rintro ⟨k,-,hk⟩
    exact ⟨k,hk⟩

theorem fifoInit_holds {size : BitVec 32} (hinit : (fifoInit fifo mem size).1 = 0#8) :
    FifoHolds mem size.toNat (fifoInit fifo mem size).2 [] := by
  have hpow : isPowerOf2 size = true := by
    by_contra hno
    rw [Bool.not_eq_true] at hno
    simp [fifoInit,hno] at hinit
  have hsmall : ¬ size < 2#32 := by
    intro hlt
    simp [fifoInit,hpow,hlt] at hinit
  have heq : (fifoInit fifo mem size).2 =
      { fifo with
        inn := 0#32, out := 0#32, data := mem, mask := size - 1#32, freeBytes := size, size := size } := by
    simp [fifoInit,hpow,hsmall]
  rw [heq]
  refine ⟨(isPowerOf2_iff size).mp hpow,?_,rfl,by simp,by simpa using stream_nil mem,fun _ _ => rfl⟩
  exact BitVec.toNat_sub_of_le (by bv_omega)

/-- A fifo that was set up answers every sequence of requests as the queue of
bytes does, however often its counters wrap. -/
theorem fifo_replies {size : BitVec 32} (hinit : (fifoInit fifo mem size).1 = 0#8) (os : List FifoOp) :
    replies fifoStep (fifoInit fifo mem size).2 os = replies (byteQueueStep size.toNat) [] os :=
  replies_eq (fun _ _ o h => h.step o) (fifoInit_holds hinit) os

theorem fifo_replies_four :
    replies fifoStep (fifoInit ⟨0#32,0#32,0#32,fun _ => 0#8,0#32,0#32⟩ (fun _ => 0#8) 4#32).2
        [.put (fun k => BitVec.ofNat 8 k) 3#32,.get 2#32,.put (fun _ => 9#8) 5#32,.peek 2#32,.getAll] =
      [(3,[]),(2,[0#8,1#8]),(3,[]),(2,[2#8,9#8]),(4,[2#8,9#8,9#8,9#8])] := by
  exact (fifo_replies (by decide) _).trans (by decide)

end FmacSdk.Rhino
