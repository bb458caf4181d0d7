import FmacSdk.Foundation.Lockstep
import FmacSdk.Foundation.RingStream
import FmacSdk.Rhino.Headlen
import FmacSdk.Rhino.Kstat

/-! # The ring buffer of the kernel

The ring keeps blocks of one size, or messages of any length behind a length
header. Header and data are split where they meet the end of the memory. Seen by
its callers the ring is a queue of messages with a bound on the bytes it holds.
-/
namespace FmacSdk.Rhino
open RingStream Lockstep

/-- RINGBUF_TYPE_FIX and RINGBUF_TYPE_DYN -/
inductive RingbufType
  | fix
  | dyn
  deriving DecidableEq,Repr

/-- k_ringbuf_t; the pointers are offsets into the memory at `buf`. -/
structure KRingbuf where
  buf : ℕ → BitVec 8
  bufEnd : ℕ
  head : ℕ
  tail : ℕ
  freesize : ℕ
  type : RingbufType
  blkSize : ℕ

/-- ringbuf_reset -/
def ringbufReset (rb : KRingbuf) : KRingbuf := { rb with head := 0, tail := 0, freesize := rb.bufEnd }

/-- ringbuf_init -/
def ringbufInit (buf : ℕ → BitVec 8) (len : ℕ) (type : RingbufType) (blockSize : ℕ) : KRingbuf :=
  ringbufReset ⟨buf,len,0,0,0,type,blockSize⟩

/-- ringbuf_is_full -/
def ringbufIsFull (rb : KRingbuf) : Bool :=
  (rb.type = .dyn && rb.freesize < 2) || (rb.type = .fix && rb.freesize < rb.blkSize)

/-- ringbuf_is_empty -/
def ringbufIsEmpty (rb : KRingbuf) : Bool := rb.freesize == rb.bufEnd

/-- `if (tail == end) tail = buf;` -/
def wrapTail (rb : KRingbuf) : KRingbuf := if rb.tail = rb.bufEnd then { rb with tail := 0 } else rb

/-- `if (head == end) head = buf;` -/
def wrapHead (rb : KRingbuf) : KRingbuf := if rb.head = rb.bufEnd then { rb with head := 0 } else rb

/-- memcpy to the tail. -/
def copyTo (rb : KRingbuf) (bytes : List (BitVec 8)) : KRingbuf :=
  { rb with
    buf := blit rb.buf rb.tail bytes
    tail := rb.tail + bytes.length
    freesize := rb.freesize - bytes.length }

/-- The copy of the header and of the data in ringbuf_push. -/
def copyIn (rb : KRingbuf) (bytes : List (BitVec 8)) : KRingbuf :=
  let splitLen := rb.bufEnd - rb.tail
  if rb.head ≤ rb.tail ∧ splitLen < bytes.length ∧ 0 < splitLen then
    copyTo { copyTo rb (bytes.take splitLen) with tail := 0 } (bytes.drop splitLen)
  else copyTo rb bytes

/-- ringbuf_push; `data` is memory from the pointer on. -/
def ringbufPush (rb : KRingbuf) (data : ℕ → BitVec 8) (len : ℕ) : Kstat × KRingbuf :=
  if ringbufIsFull rb then (.ringbufFull,rb)
  else
    match rb.type with
    | .fix => (.success,copyTo (wrapTail rb) (cells data 0 rb.blkSize))
    | .dyn =>
      let (lenBytes,cLen) := ringbufHeadlenCompress len
      if lenBytes = 0 ∨ 3 < lenBytes then (.invParam,rb)
      else if rb.freesize < lenBytes + len then (.ringbufFull,rb)
      else (.success,copyIn (wrapTail (copyIn (wrapTail rb) cLen)) (cells data 0 len))

/-- memcpy of `n` bytes from the head. -/
def copyFrom (rb : KRingbuf) (n : ℕ) : KRingbuf × List (BitVec 8) :=
  ({ rb with head := rb.head + n, freesize := rb.freesize + n },cells rb.buf rb.head n)

/-- The copy of the header and of the data in ringbuf_pop, where `across` is the
condition under which the copy may be split. -/
def copyOut (rb : KRingbuf) (across : Bool) (n : ℕ) : KRingbuf × List (BitVec 8) :=
  let splitLen := rb.bufEnd - rb.head
  if across ∧ splitLen < n then
    let (rb,front) := copyFrom rb splitLen
    let (rb,back) := copyFrom { rb with head := 0 } (n - splitLen)
    (rb,front ++ back)
  else copyFrom rb n

/-- The length bytes in ringbuf_pop. -/
def popLen (rb : KRingbuf) (lenBytes : ℕ) : KRingbuf × List (BitVec 8) :=
  copyOut rb (0 < rb.bufEnd - rb.head) lenBytes

/-- The data in ringbuf_pop. -/
def popData (rb : KRingbuf) (len : ℕ) : KRingbuf × List (BitVec 8) :=
  let rb := wrapHead rb
  copyOut rb (rb.tail < rb.head) len

/-- ringbuf_pop: the status, the ring and the bytes stored at `pdata`, whose
number is stored at `plen`. -/
def ringbufPop (rb : KRingbuf) : Kstat × KRingbuf × List (BitVec 8) :=
  if ringbufIsEmpty rb then (.ringbufEmpty,rb,[])
  else
    let rb := wrapHead rb
    match rb.type with
    | .fix =>
      let (rb,data) := copyFrom rb rb.blkSize
      (.success,rb,data)
    | .dyn =>
      match headlenBytes (rb.buf rb.head) with
      | none => (.invParam,rb,[])
      | some lenBytes =>
        let (rb,cLen) := popLen rb lenBytes
        let (rb,data) := popData rb (ringbufHeadlenDecompress lenBytes cLen)
        (.success,rb,data)

/-! ## The bytes in the ring -/

/-- The stream of bytes that the ring holds. -/
abbrev KRingbuf.Bytes (rb : KRingbuf) (xs : List (BitVec 8)) : Prop :=
  Stream rb.bufEnd rb.buf rb.head rb.tail rb.freesize xs

/-- The fields that no copy changes. -/
def KRingbuf.Same (rb rb' : KRingbuf) : Prop :=
  rb'.bufEnd = rb.bufEnd ∧ rb'.type = rb.type ∧ rb'.blkSize = rb.blkSize

/-- Memory behind the ring is left alone. -/
def KRingbuf.Inside (rb rb' : KRingbuf) : Prop := ∀ k, rb.bufEnd ≤ k → rb'.buf k = rb.buf k

variable {rb : KRingbuf} {xs ys : List (BitVec 8)} {n : ℕ}

theorem wrapTail_bytes (h : rb.Bytes xs) (hend : 0 < rb.bufEnd) :
    (wrapTail rb).Bytes xs ∧ (wrapTail rb).tail < rb.bufEnd ∧ rb.Same (wrapTail rb) ∧
      (wrapTail rb).freesize = rb.freesize ∧ rb.Inside (wrapTail rb) := by
  unfold wrapTail
  split_ifs with heq
  · exact ⟨h.wrap_tail heq,hend,⟨rfl,rfl,rfl⟩,rfl,fun _ _ => rfl⟩
  · exact ⟨h,Nat.lt_of_le_of_ne h.tail_le heq,⟨rfl,rfl,rfl⟩,rfl,fun _ _ => rfl⟩

theorem wrapHead_bytes (h : rb.Bytes xs) (hend : 0 < rb.bufEnd) :
    (wrapHead rb).Bytes xs ∧ (wrapHead rb).head < rb.bufEnd ∧ rb.Same (wrapHead rb) ∧
      (wrapHead rb).freesize = rb.freesize ∧ (wrapHead rb).buf = rb.buf := by
  unfold wrapHead
  split_ifs with heq
  · exact ⟨h.wrap_head heq,hend,⟨rfl,rfl,rfl⟩,rfl,rfl⟩
  · exact ⟨h,Nat.lt_of_le_of_ne h.head_le heq,⟨rfl,rfl,rfl⟩,rfl,rfl⟩

/-- Bytes that fit into the ring are appended to the stream, split or not. -/
theorem copyIn_bytes (h : rb.Bytes xs) (ys : List (BitVec 8)) (ht : rb.tail < rb.bufEnd) (hroom : ys.length ≤ rb.freesize) :
    (copyIn rb ys).Bytes (xs ++ ys) ∧ rb.Same (copyIn rb ys) ∧
      (copyIn rb ys).freesize = rb.freesize - ys.length ∧ rb.Inside (copyIn rb ys) := by
  have hsize := h.size
  have hcases := h.tail_cases
  have hhead := h.head_le
  simp only [copyIn]
  split_ifs with hsplit
  · obtain ⟨-,hlt,hpos⟩ := hsplit
    have hfront : (ys.take (rb.bufEnd - rb.tail)).length = rb.bufEnd - rb.tail := by
      rw [List.length_take,Nat.min_eq_left hlt.le]
    have hback : (ys.drop (rb.bufEnd - rb.tail)).length = ys.length - (rb.bufEnd - rb.tail) := List.length_drop
    have hput := h.put (ys.take (rb.bufEnd - rb.tail)) ht (by omega) (by omega)
    rw [hfront,Nat.add_sub_cancel' ht.le] at hput
    have hrest := (hput.wrap_tail rfl).put (ys.drop (rb.bufEnd - rb.tail)) (by omega) (by omega) (by omega)
    rw [List.append_assoc,List.take_append_drop] at hrest
    refine ⟨?_,⟨rfl,rfl,rfl⟩,?_,?_⟩
    · simpa [KRingbuf.Bytes,copyTo,hfront] using hrest
    · simp only [copyTo,hfront,hback]
      omega
    · intro k hk
      simp only [copyTo]
      rw [blit_outside (by omega),blit_outside (by omega)]
  · have hfit : rb.tail + ys.length ≤ rb.bufEnd := by omega
    refine ⟨h.put ys ht hfit hroom,⟨rfl,rfl,rfl⟩,rfl,?_⟩
    intro k hk
    exact blit_outside (by omega)

/-- The bytes read are the first ones of the stream, split or not. -/
theorem copyOut_bytes (h : rb.Bytes xs) (hh : rb.head < rb.bufEnd) (hn : n ≤ xs.length) {b : Bool}
    (hacross : b = false → rb.head + n ≤ rb.bufEnd) :
    (copyOut rb b n).2 = xs.take n ∧ (copyOut rb b n).1.Bytes (xs.drop n) ∧
      rb.Same (copyOut rb b n).1 ∧ (copyOut rb b n).1.freesize = rb.freesize + n ∧
      (copyOut rb b n).1.buf = rb.buf := by
  have hsize := h.size
  simp only [copyOut]
  split_ifs with hsplit
  · have hlt := hsplit.2
    obtain ⟨hfront,hmid⟩ := h.get (n := rb.bufEnd - rb.head) hh (by omega) (by omega)
    rw [Nat.add_sub_cancel' hh.le] at hmid
    obtain ⟨hback,hrest⟩ := (hmid.wrap_head rfl).get (n := n - (rb.bufEnd - rb.head)) (by omega) (by omega)
      (by rw [List.length_drop]; omega)
    have hsum : rb.bufEnd - rb.head + (n - (rb.bufEnd - rb.head)) = n := by omega
    rw [List.drop_drop,hsum] at hrest
    refine ⟨?_,?_,⟨rfl,rfl,rfl⟩,?_,rfl⟩
    · simp only [copyFrom]
      rw [hfront,hback,← List.take_add,hsum]
    · exact hrest
    · simp only [copyFrom]
      omega
  · have hfit : rb.head + n ≤ rb.bufEnd := by
      cases b with
      | false => exact hacross rfl
      | true =>
        simp only [true_and] at hsplit
        omega
    obtain ⟨hfront,hrest⟩ := h.get hh hfit hn
    exact ⟨hfront,hrest,⟨rfl,rfl,rfl⟩,rfl,rfl⟩

/-- In front of the end the length bytes may always be split. -/
theorem popLen_bytes (h : rb.Bytes xs) (hh : rb.head < rb.bufEnd) (hn : n ≤ xs.length) :
    (popLen rb n).2 = xs.take n ∧ (popLen rb n).1.Bytes (xs.drop n) ∧ rb.Same (popLen rb n).1 ∧
      (popLen rb n).1.freesize = rb.freesize + n ∧ (popLen rb n).1.buf = rb.buf :=
  copyOut_bytes h hh hn fun hno => by
    simp only [decide_eq_false_iff_not] at hno
    omega

/-- Data that is not in front of the tail is in one piece, as the length in front
of it was read already. -/
theorem popData_bytes (h : rb.Bytes xs) (hend : 0 < rb.bufEnd) (hfree : 0 < rb.freesize)
    (hn : n ≤ xs.length) :
    (popData rb n).2 = xs.take n ∧ (popData rb n).1.Bytes (xs.drop n) ∧ rb.Same (popData rb n).1 ∧
      (popData rb n).1.buf = rb.buf := by
  obtain ⟨hbytes,hlt,⟨he,ht,hk⟩,hf,hbuf⟩ := wrapHead_bytes h hend
  have hcases := hbytes.tail_cases
  have hsize := hbytes.size
  have htail := hbytes.tail_le
  obtain ⟨hread,hrest,⟨he',ht',hk'⟩,-,hbuf'⟩ :=
    copyOut_bytes hbytes (by omega) hn (b := decide ((wrapHead rb).tail < (wrapHead rb).head)) fun hno => by
      simp only [decide_eq_false_iff_not,not_lt] at hno
      omega
  exact ⟨hread,hrest,⟨he'.trans he,ht'.trans ht,hk'.trans hk⟩,hbuf'.trans hbuf⟩

/-! ## The messages in the ring -/

abbrev Msg := List (BitVec 8)

/-- What a message occupies: a block as it is, or its length header in front of it. -/
def frame : RingbufType → Msg → List (BitVec 8)
  | .fix, m => m
  | .dyn, m => (ringbufHeadlenCompress m.length).2 ++ m

def stored (type : RingbufType) (ms : List Msg) : ℕ := (ms.flatMap (frame type)).length

/-- The bytes that a push takes from the caller's memory. -/
def msgOf (type : RingbufType) (blkSize : ℕ) (data : ℕ → BitVec 8) (len : ℕ) : Msg :=
  match type with
  | .fix => cells data 0 blkSize
  | .dyn => cells data 0 len

/-- What the ring answers to a message when it has `free` bytes left. -/
def accepts (type : RingbufType) (blkSize free len : ℕ) : Kstat :=
  match type with
  | .fix => if free < blkSize then .ringbufFull else .success
  | .dyn =>
    if free < 2 then .ringbufFull
    else if 0x3fffff < len then .invParam
    else if free < compressLen len + len then .ringbufFull
    else .success

/-- The requests of the callers of the ring. -/
inductive RingOp
  | push (data : ℕ → BitVec 8) (len : ℕ)
  | pop
  | reset

/-- The ring as the code has it: the reply is the status with the bytes popped. -/
def ringbufStep (rb : KRingbuf) : RingOp → KRingbuf × Kstat × Msg
  | .push data len => ((ringbufPush rb data len).2,(ringbufPush rb data len).1,[])
  | .pop => ((ringbufPop rb).2.1,(ringbufPop rb).1,(ringbufPop rb).2.2)
  | .reset => (ringbufReset rb,.success,[])

/-- What the ring is for: a queue of messages in `cap` bytes. -/
def queueStep (type : RingbufType) (blkSize cap : ℕ) (ms : List Msg) : RingOp → List Msg × Kstat × Msg
  | .push data len =>
    match accepts type blkSize (cap - stored type ms) len with
    | .success => (ms ++ [msgOf type blkSize data len],.success,[])
    | err => (ms,err,[])
  | .pop =>
    match ms with
    | [] => ([],.ringbufEmpty,[])
    | m :: rest => (rest,.success,m)
  | .reset => ([],.success,[])

/-- A message that the ring can hold. -/
def Fits (type : RingbufType) (blkSize : ℕ) (m : Msg) : Prop :=
  match type with
  | .fix => m.length = blkSize
  | .dyn => m.length ≤ 0x3fffff

/-- A ring over `cap` bytes of `mem` that holds the messages `ms`. -/
structure Carries (mem : ℕ → BitVec 8) (type : RingbufType) (blkSize cap : ℕ) (rb : KRingbuf)
    (ms : List Msg) : Prop where
  same : rb.bufEnd = cap ∧ rb.type = type ∧ rb.blkSize = blkSize
  bytes : rb.Bytes (ms.flatMap (frame type))
  fits : ∀ m ∈ ms, Fits type blkSize m
  outside : ∀ k, cap ≤ k → rb.buf k = mem k
  blocks : type = .fix → 0 < blkSize ∧ blkSize ∣ cap ∧ blkSize ∣ rb.head ∧ blkSize ∣ rb.tail

variable {mem : ℕ → BitVec 8} {type : RingbufType} {blkSize cap : ℕ} {ms : List Msg} {m : Msg}

theorem frame_ne_nil (hm : Fits type blkSize m) (hblk : type = .fix → 0 < blkSize) : frame type m ≠ [] := by
  cases type with
  | fix =>
    intro hnil
    have hpos := hblk rfl
    have hlen : m.length = blkSize := hm
    rw [show m = [] from hnil,List.length_nil] at hlen
    omega
  | dyn =>
    intro hnil
    have hlen := (headlen_roundtrip hm).1
    have hpos := (compressLen_valid hm).1
    rw [(List.append_eq_nil_iff.mp hnil).1,List.length_nil] at hlen
    omega

theorem Carries.cap_pos (h : Carries mem type blkSize cap rb ms) (hne : ms ≠ []) : 0 < cap := by
  have hsize := h.bytes.size
  have hcap := h.same.1
  obtain ⟨m,rest,rfl⟩ := List.exists_cons_of_ne_nil hne
  have hframe := frame_ne_nil (h.fits m List.mem_cons_self) fun ht => (h.blocks ht).1
  have hpos := List.length_pos_iff.mpr hframe
  rw [List.flatMap_cons,List.length_append] at hsize
  omega

theorem Carries.free_eq (h : Carries mem type blkSize cap rb ms) : rb.freesize = cap - stored type ms := by
  have hsize := h.bytes.size
  have hcap := h.same.1
  unfold stored
  omega

theorem Carries.empty_iff (h : Carries mem type blkSize cap rb ms) : ringbufIsEmpty rb = true ↔ ms = [] := by
  have hsize := h.bytes.size
  unfold ringbufIsEmpty
  rw [beq_iff_eq]
  constructor
  · intro hfree
    by_contra hne
    obtain ⟨m,rest,rfl⟩ := List.exists_cons_of_ne_nil hne
    have hframe := frame_ne_nil (h.fits m List.mem_cons_self) fun ht => (h.blocks ht).1
    have hpos := List.length_pos_iff.mpr hframe
    rw [List.flatMap_cons,List.length_append] at hsize
    omega
  · rintro rfl
    simpa using hsize

theorem Carries.init (hblk : type = .fix → 0 < blkSize ∧ blkSize ∣ cap) :
    Carries mem type blkSize cap (ringbufInit mem cap type blkSize) [] :=
  ⟨⟨rfl,rfl,rfl⟩,stream_nil mem,by simp,fun _ _ => rfl,
    fun ht => ⟨(hblk ht).1,(hblk ht).2,dvd_zero _,dvd_zero _⟩⟩

theorem Carries.reset (h : Carries mem type blkSize cap rb ms) :
    Carries mem type blkSize cap (ringbufReset rb) [] :=
  ⟨h.same,stream_nil rb.buf,by simp,h.outside,
    fun ht => ⟨(h.blocks ht).1,(h.blocks ht).2.1,dvd_zero _,dvd_zero _⟩⟩

/-! ## One push -/

theorem wrapTail_dvd (h : blkSize ∣ rb.tail) : blkSize ∣ (wrapTail rb).tail := by
  unfold wrapTail
  split_ifs
  · exact dvd_zero _
  · exact h

theorem wrapTail_head (rb : KRingbuf) : (wrapTail rb).head = rb.head := by
  unfold wrapTail
  split_ifs <;> rfl

theorem wrapHead_tail (rb : KRingbuf) : (wrapHead rb).tail = rb.tail := by
  unfold wrapHead
  split_ifs <;> rfl

theorem wrapHead_dvd (h : blkSize ∣ rb.head) : blkSize ∣ (wrapHead rb).head := by
  unfold wrapHead
  split_ifs
  · exact dvd_zero _
  · exact h

/-- Between two block boundaries there is room for a block. -/
theorem block_fits {a b : ℕ} (ha : blkSize ∣ a) (hb : blkSize ∣ b) (hlt : a < b) : a + blkSize ≤ b := by
  have := Nat.le_of_dvd (by omega) (Nat.dvd_sub hb ha)
  omega

theorem Carries.push_fix (h : Carries mem .fix blkSize cap rb ms) (hfree : blkSize ≤ rb.freesize)
    (data : ℕ → BitVec 8) :
    Carries mem .fix blkSize cap (copyTo (wrapTail rb) (cells data 0 rb.blkSize))
      (ms ++ [cells data 0 blkSize]) := by
  obtain ⟨hend,htype,hblk⟩ := h.same
  obtain ⟨hpos,hcap,hhead,htail⟩ := h.blocks rfl
  have hsize := h.bytes.size
  obtain ⟨hbytes,hlt,⟨hend',htype',hblk'⟩,hfree',hin⟩ := wrapTail_bytes h.bytes (by omega)
  have hdvd := wrapTail_dvd htail
  have hfit := block_fits hdvd (hend ▸ hcap) hlt
  rw [hblk]
  have hlen : (cells data 0 blkSize).length = blkSize := cells_length ..
  have hput := hbytes.put (cells data 0 blkSize) (by omega) (by rw [hend',hlen]; exact hfit)
    (by rw [hlen,hfree']; exact hfree)
  refine ⟨⟨hend'.trans hend,htype'.trans htype,hblk'.trans hblk⟩,?_,?_,?_,fun _ => ⟨hpos,hcap,?_,?_⟩⟩
  · rw [List.flatMap_append,List.flatMap_singleton]
    exact hput
  · intro m hm
    rcases List.mem_append.mp hm with hm | hm
    · exact h.fits m hm
    · obtain rfl := List.mem_singleton.mp hm
      exact hlen
  · intro k hk
    refine (blit_outside (by rw [hlen]; omega)).trans ((hin k (by omega)).trans (h.outside k hk))
  · simpa only [copyTo,wrapTail_head] using hhead
  · simp only [copyTo,hlen]
    exact Nat.dvd_add hdvd (Nat.dvd_refl _)

theorem Carries.push_dyn (h : Carries mem .dyn blkSize cap rb ms) {len : ℕ} (hlen : len ≤ 0x3fffff)
    (hfree : compressLen len + len ≤ rb.freesize) (data : ℕ → BitVec 8) :
    Carries mem .dyn blkSize cap
      (copyIn (wrapTail (copyIn (wrapTail rb) (ringbufHeadlenCompress len).2)) (cells data 0 len))
      (ms ++ [cells data 0 len]) := by
  obtain ⟨hend,htype,hblk⟩ := h.same
  have hsize := h.bytes.size
  have hhdr := (headlen_roundtrip hlen).1
  have hpos := (compressLen_valid hlen).1
  have hdata : (cells data 0 len).length = len := cells_length ..
  obtain ⟨hb1,hlt1,⟨he1,ht1,hk1⟩,hf1,hin1⟩ := wrapTail_bytes h.bytes (by omega)
  obtain ⟨hb2,⟨he2,ht2,hk2⟩,hf2,hin2⟩ :=
    copyIn_bytes hb1 (ringbufHeadlenCompress len).2 (by omega) (by omega)
  obtain ⟨hb3,hlt3,⟨he3,ht3,hk3⟩,hf3,hin3⟩ := wrapTail_bytes hb2 (by omega)
  obtain ⟨hb4,⟨he4,ht4,hk4⟩,hf4,hin4⟩ :=
    copyIn_bytes hb3 (cells data 0 len) (by omega) (by omega)
  refine ⟨⟨by omega,?_,by omega⟩,?_,?_,?_,fun ht => by simp at ht⟩
  · rw [ht4,ht3,ht2,ht1,htype]
  · rw [List.flatMap_append,List.flatMap_singleton,frame,hdata,← List.append_assoc]
    exact hb4
  · intro m hm
    rcases List.mem_append.mp hm with hm | hm
    · exact h.fits m hm
    · obtain rfl := List.mem_singleton.mp hm
      exact hdata.trans_le hlen
  · intro k hk
    rw [hin4 k (by omega),hin3 k (by omega),hin2 k (by omega),hin1 k (by omega),h.outside k hk]

/-- A push answers as the queue of messages does and leaves its messages behind. -/
theorem Carries.push (h : Carries mem type blkSize cap rb ms) (data : ℕ → BitVec 8) (len : ℕ) :
    (ringbufPush rb data len).1 = accepts type blkSize (cap - stored type ms) len ∧
      Carries mem type blkSize cap (ringbufPush rb data len).2
        (if accepts type blkSize (cap - stored type ms) len = .success
          then ms ++ [msgOf type blkSize data len] else ms) := by
  obtain ⟨hend,htype,hblk⟩ := h.same
  rw [← h.free_eq]
  unfold ringbufPush ringbufIsFull accepts
  cases type with
  | fix =>
    simp only [htype,hblk,reduceCtorEq,decide_false,decide_true,Bool.false_and,Bool.true_and,
      Bool.false_or,decide_eq_true_eq]
    by_cases hfull : rb.freesize < blkSize
    · simpa [hfull] using h
    · simpa [hfull,msgOf,hblk] using h.push_fix (by omega) data
  | dyn =>
    simp only [htype,reduceCtorEq,decide_false,decide_true,Bool.false_and,Bool.true_and,
      Bool.or_false,decide_eq_true_eq]
    by_cases hfull : rb.freesize < 2
    · simpa [hfull] using h
    by_cases hlen : 0x3fffff < len
    · have hbad : (ringbufHeadlenCompress len).1 = 5 := compressLen_invalid hlen
      simpa [hfull,hlen,hbad] using h
    have hgood : (ringbufHeadlenCompress len).1 = compressLen len := rfl
    have hvalid := compressLen_valid (not_lt.mp hlen)
    have hheader : ¬ (compressLen len = 0 ∨ 3 < compressLen len) := by omega
    by_cases hroom : rb.freesize < compressLen len + len
    · simpa [hfull,hlen,hgood,hheader,hroom] using h
    · simpa [hfull,hlen,hgood,hheader,hroom,msgOf] using h.push_dyn (not_lt.mp hlen) (not_lt.mp hroom) data

/-! ## One pop -/

theorem Carries.pop_fix (h : Carries mem .fix blkSize cap rb (m :: ms)) :
    (copyFrom (wrapHead rb) (wrapHead rb).blkSize).2 = m ∧
      Carries mem .fix blkSize cap (copyFrom (wrapHead rb) (wrapHead rb).blkSize).1 ms := by
  obtain ⟨hend,htype,hblk⟩ := h.same
  obtain ⟨hpos,hcap,hhead,htail⟩ := h.blocks rfl
  have hm : m.length = blkSize := h.fits m List.mem_cons_self
  obtain ⟨hbytes,hlt,⟨hend',htype',hblk'⟩,hfree',hbuf⟩ :=
    wrapHead_bytes h.bytes (hend ▸ h.cap_pos (List.cons_ne_nil _ _))
  have hdvd := wrapHead_dvd hhead
  have hfit := block_fits hdvd (hend ▸ hcap) hlt
  have hxs : (m :: ms).flatMap (frame .fix) = m ++ ms.flatMap (frame .fix) := rfl
  rw [hxs] at hbytes
  obtain ⟨hread,hrest⟩ := hbytes.get (n := blkSize) (by omega) (by omega) (by simp; omega)
  rw [hblk',hblk]
  refine ⟨?_,⟨hend'.trans hend,htype'.trans htype,hblk'.trans hblk⟩,?_,?_,?_,fun _ => ⟨hpos,hcap,?_,?_⟩⟩
  · exact hread.trans (hm ▸ List.take_left)
  · rw [← hm,List.drop_left,hm] at hrest
    exact hrest
  · exact fun m' hm' => h.fits m' (List.mem_cons_of_mem _ hm')
  · intro k hk
    simp only [copyFrom,hbuf]
    exact h.outside k hk
  · exact Nat.dvd_add hdvd (Nat.dvd_refl _)
  · simpa only [copyFrom,wrapHead_tail] using htail

/-- The byte at the head is the first one of the stream. -/
theorem bytes_head (h : rb.Bytes xs) (hh : rb.head < rb.bufEnd) (hne : xs ≠ []) :
    xs.head? = some (rb.buf rb.head) := by
  have hread := (h.get (n := 1) hh (by omega) (List.length_pos_iff.mpr hne)).1
  obtain ⟨x,rest,rfl⟩ := List.exists_cons_of_ne_nil hne
  simpa [cells,eq_comm] using hread

theorem Carries.pop_dyn (h : Carries mem .dyn blkSize cap rb (m :: ms)) :
    (ringbufPop rb).1 = .success ∧ (ringbufPop rb).2.2 = m ∧
      Carries mem .dyn blkSize cap (ringbufPop rb).2.1 ms := by
  obtain ⟨hend,htype,hblk⟩ := h.same
  have hm : m.length ≤ 0x3fffff := h.fits m List.mem_cons_self
  obtain ⟨hhdr,hmark,hlen⟩ := headlen_roundtrip hm
  have hpos := (compressLen_valid hm).1
  have hempty : ringbufIsEmpty rb = false := by
    rw [← Bool.not_eq_true,h.empty_iff]
    exact List.cons_ne_nil _ _
  obtain ⟨hb1,hlt1,⟨he1,ht1,hk1⟩,hf1,hbuf1⟩ :=
    wrapHead_bytes h.bytes (hend ▸ h.cap_pos (List.cons_ne_nil _ _))
  have hxs : (m :: ms).flatMap (frame .dyn) =
      (ringbufHeadlenCompress m.length).2 ++ (m ++ ms.flatMap (frame .dyn)) := by
    simp [frame]
  rw [hxs] at hb1
  have hne : (ringbufHeadlenCompress m.length).2 ≠ [] := List.length_pos_iff.mp (by omega)
  have hfirst : headlenBytes ((wrapHead rb).buf (wrapHead rb).head) = some (compressLen m.length) := by
    have hhead := bytes_head hb1 (by omega) (by simp [hne])
    rw [List.head?_append_of_ne_nil _ hne] at hhead
    rw [hhead] at hmark
    exact hmark
  obtain ⟨hc2,hb2,⟨he2,ht2,hk2⟩,hf2,hbuf2⟩ :=
    popLen_bytes (n := compressLen m.length) hb1 (by omega) (by simp; omega)
  rw [← hhdr,List.take_left,hhdr] at hc2
  rw [← hhdr,List.drop_left,hhdr] at hb2
  obtain ⟨hc3,hb3,⟨he3,ht3,hk3⟩,hbuf3⟩ :=
    popData_bytes (n := m.length) hb2 (by omega) (by omega) (by simp)
  rw [List.take_left] at hc3
  rw [List.drop_left] at hb3
  have hpop : ringbufPop rb =
      (.success,popData (popLen (wrapHead rb) (compressLen m.length)).1 m.length) := by
    unfold ringbufPop
    simp only [hempty,Bool.false_eq_true,↓reduceIte,ht1,htype,hfirst,hc2,hlen]
  rw [hpop]
  have hsame : (popData (popLen (wrapHead rb) (compressLen m.length)).1 m.length).1.bufEnd = cap ∧
      (popData (popLen (wrapHead rb) (compressLen m.length)).1 m.length).1.type = .dyn ∧
      (popData (popLen (wrapHead rb) (compressLen m.length)).1 m.length).1.blkSize = blkSize :=
    ⟨by omega,by rw [ht3,ht2,ht1,htype],by omega⟩
  refine ⟨rfl,hc3,hsame,hb3,?_,?_,fun ht => by simp at ht⟩
  · exact fun m' hm' => h.fits m' (List.mem_cons_of_mem _ hm')
  · intro k hk
    rw [hbuf3,hbuf2,hbuf1]
    exact h.outside k hk

/-- A pop answers as the queue of messages does: it hands out the oldest one. -/
theorem Carries.pop (h : Carries mem type blkSize cap rb (m :: ms)) :
    (ringbufPop rb).1 = .success ∧ (ringbufPop rb).2.2 = m ∧
      Carries mem type blkSize cap (ringbufPop rb).2.1 ms := by
  cases type with
  | dyn => exact h.pop_dyn
  | fix =>
    have hempty : ringbufIsEmpty rb = false := by
      rw [← Bool.not_eq_true,h.empty_iff]
      exact List.cons_ne_nil _ _
    have htype : (wrapHead rb).type = .fix := by
      unfold wrapHead
      split_ifs <;> exact h.same.2.1
    have hpop : ringbufPop rb = (.success,copyFrom (wrapHead rb) (wrapHead rb).blkSize) := by
      unfold ringbufPop
      simp only [hempty,Bool.false_eq_true,↓reduceIte,htype]
    rw [hpop]
    exact ⟨rfl,h.pop_fix⟩

theorem Carries.pop_empty (h : Carries mem type blkSize cap rb []) :
    ringbufPop rb = (.ringbufEmpty,rb,[]) := by
  have hempty := h.empty_iff.mpr rfl
  simp [ringbufPop,hempty]

/-- One request of a caller, answered by the ring as by the queue. -/
theorem Carries.step (h : Carries mem type blkSize cap rb ms) (o : RingOp) :
    (ringbufStep rb o).2 = (queueStep type blkSize cap ms o).2 ∧
      Carries mem type blkSize cap (ringbufStep rb o).1 (queueStep type blkSize cap ms o).1 := by
  cases o with
  | push data len =>
    obtain ⟨hstat,hnext⟩ := h.push data len
    simp only [ringbufStep,queueStep]
    rw [hstat]
    split
    · next hok => exact ⟨by rw [hok],by simpa [hok] using hnext⟩
    · next err hno =>
      rw [if_neg hno] at hnext
      exact ⟨rfl,hnext⟩
  | pop =>
    cases ms with
    | nil =>
      simpa [ringbufStep,queueStep,h.pop_empty] using h
    | cons m rest =>
      obtain ⟨hstat,hdata,hnext⟩ := h.pop
      exact ⟨by simp only [ringbufStep,queueStep,hstat,hdata],hnext⟩
  | reset => exact ⟨rfl,h.reset⟩

/-- Whatever its callers do, the ring answers as the queue of messages does: it
takes and refuses the same ones and hands them out whole and in order. -/
theorem ringbuf_replies (mem : ℕ → BitVec 8) (hblk : type = .fix → 0 < blkSize ∧ blkSize ∣ cap)
    (os : List RingOp) :
    replies ringbufStep (ringbufInit mem cap type blkSize) os = replies (queueStep type blkSize cap) [] os :=
  have h0 : Carries mem type blkSize cap (ringbufInit mem cap type blkSize) [] := Carries.init hblk
  replies_eq (fun _ _ o h => h.step o) h0 os

/-- Two messages in eight bytes, the second one around the end, and a third one refused. -/
theorem ringbuf_replies_around :
    replies ringbufStep (ringbufInit (fun _ => 0#8) 8 .dyn 4)
        [.push (fun k => BitVec.ofNat 8 k) 4,.pop,.push (fun k => BitVec.ofNat 8 (k + 7)) 5,
          .push (fun _ => 9#8) 2,.pop,.pop] =
      [(.success,[]),(.success,[0#8,1#8,2#8,3#8]),(.success,[]),(.ringbufFull,[]),
        (.success,[7#8,8#8,9#8,10#8,11#8]),(.ringbufEmpty,[])] := by
  exact (ringbuf_replies (fun _ => 0#8) (fun h => by cases h) _).trans (by decide)

/-- In every state a ring reaches, no cell behind its memory was written, the
pointers are inside and the free bytes are those that no message occupies. -/
theorem ringbuf_inside (mem : ℕ → BitVec 8) (hblk : type = .fix → 0 < blkSize ∧ blkSize ∣ cap)
    (os : List RingOp) :
    let rb := after ringbufStep (ringbufInit mem cap type blkSize) os
    let ms := after (queueStep type blkSize cap) [] os
    (∀ k, cap ≤ k → rb.buf k = mem k) ∧ rb.head ≤ cap ∧ rb.tail ≤ cap ∧
      rb.freesize + stored type ms = cap := by
  have h : Carries mem type blkSize cap (after ringbufStep (ringbufInit mem cap type blkSize) os)
      (after (queueStep type blkSize cap) [] os) :=
    after_rel (fun _ _ o h => (h.step o).2) (Carries.init hblk) os
  have hend := h.same.1
  exact ⟨h.outside,h.bytes.head_le.trans hend.le,h.bytes.tail_le.trans hend.le,h.bytes.size.trans hend⟩

theorem ringbuf_inside_blocks :
    let rb := after ringbufStep (ringbufInit (fun _ => 0#8) 4 .fix 2) [.push (fun _ => 9#8) 2,.pop]
    (∀ k, 4 ≤ k → rb.buf k = 0#8) ∧ rb.head ≤ 4 ∧ rb.tail ≤ 4 := by
  have hblk : RingbufType.fix = .fix → 0 < 2 ∧ 2 ∣ 4 := fun _ => ⟨by decide,by decide⟩
  obtain ⟨hout,hhead,htail,-⟩ := ringbuf_inside (fun _ => 0#8) hblk [.push (fun _ => 9#8) 2,.pop]
  exact ⟨hout,hhead,htail⟩

end FmacSdk.Rhino
