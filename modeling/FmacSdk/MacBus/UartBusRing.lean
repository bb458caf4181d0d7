import FmacSdk.MacBus.UartBus

/-! # Ring safety of the UART MAC bus task

The task takes the length of a copy from one read of `stopPos` and its shape
from two later reads. Over unbounded positions the task is safe exactly as long
as an interrupt in between does not move `stopPos` to or behind the wrap. The
invariant below relates every local of the task to the read position `r` and the
stop position `st`; each interrupt only extends what was received.
-/
namespace FmacSdk.UartBus
open Rbuffer RingWindow Transition

/-- The task has fixed a positive length and will still read `stopPos`. -/
def HoldsCount : TaskPc → Prop
  | .alloc count => 0 < count
  | .branch _ _ | .copyHead _ _ | .copyTail _ _ _ => True
  | _ => False

instance : (pc : TaskPc) → Decidable (HoldsCount pc)
  | .alloc count => inferInstanceAs (Decidable (0 < count))
  | .branch _ _ | .copyHead _ _ | .copyTail _ _ _ => isTrue trivial
  | .down | .compare | .subtract _ | .copyWhole _ _ | .recv _ _ | .advance _ => isFalse id

/-- The stop position is left alone, or moved to a place before the wrap, while
the task holds a length. -/
def Calm (s : System) (stop : ℕ) : Prop :=
  HoldsCount s.pc → stop = s.bus.stopPos ∨ s.bus.rb.rpos < stop

/-- The condition on single steps under which the task is safe. -/
def Undisturbed (s : System) : Act → Prop
  | .byte b => Calm s (irqHdl s.bus b).stopPos
  | .timer => Calm s (timerCb s.bus).stopPos
  | .task _ => True

instance (s : System) (stop : ℕ) : Decidable (Calm s stop) := inferInstanceAs (Decidable (_ → _))

instance (s : System) : (a : Act) → Decidable (Undisturbed s a)
  | .byte b => inferInstanceAs (Decidable (Calm s (irqHdl s.bus b).stopPos))
  | .timer => inferInstanceAs (Decidable (Calm s (timerCb s.bus).stopPos))
  | .task _ => isTrue trivial

theorem hwMemcpy_map (buf mem : ℕ → UInt8) (dst src len : ℕ) :
    (List.range (dst + len)).map (hwMemcpy buf dst mem src len) =
      (List.range dst).map buf ++ (List.range len).map (fun i => mem (src + i)) := by
  rw [List.range_add, List.map_append, List.map_map]
  congr 1
  · apply List.map_congr_left
    intro i hi
    have hi' := List.mem_range.mp hi
    exact if_neg (by omega)
  · apply List.map_congr_left
    intro i hi
    have hi' := List.mem_range.mp hi
    simp [hwMemcpy,hi']

/-- The shared fields stand at read position `r` and stop position `st`, and the
ring holds everything received from `r` on. -/
structure Linear (s : System) (r st : ℕ) : Prop where
  size : s.bus.rb.qsize = rxBufSize
  ring : At s.bus.rb r s.received.length
  stop_eq : s.bus.stopPos = st % rxBufSize
  le_stop : r ≤ st
  stop_le : st ≤ s.received.length
  held : window rxBufSize s.bus.rb.rbq r (s.received.length - r) = s.received.drop r

/-- Where the stop position lies as seen from the read index. -/
theorem Linear.stop_cases {s : System} {r st : ℕ} (h : Linear s r st) :
    (s.bus.rb.rpos + (st - r) < rxBufSize ∧ s.bus.stopPos = s.bus.rb.rpos + (st - r)) ∨
    (rxBufSize ≤ s.bus.rb.rpos + (st - r) ∧ s.bus.stopPos + rxBufSize = s.bus.rb.rpos + (st - r)) := by
  have hc := h.ring.residue_cases h.le_stop h.stop_le
  rwa [h.size, ← h.stop_eq] at hc

theorem Linear.rpos_lt {s : System} {r st : ℕ} (h : Linear s r st) : s.bus.rb.rpos < rxBufSize :=
  h.size ▸ h.ring.rpos_lt

theorem Linear.span_lt {s : System} {r st : ℕ} (h : Linear s r st) : st - r < rxBufSize := by
  have hlt := h.ring.lt
  have hle := h.stop_le
  have hr := h.le_stop
  rw [h.size] at hlt
  omega

/-- What the ring holds behind `r`, up to any received position. -/
theorem Linear.window_eq {s : System} {r st n : ℕ} (h : Linear s r st) (hn : r + n ≤ s.received.length) :
    window rxBufSize s.bus.rb.rbq r n = (s.received.drop r).take n := by
  rw [← h.held,window_take _ _ (by omega)]

/-- The local length `n` describes received bytes up to the stop position, or the
stop position has moved on without reaching the wrap. -/
def Counted (s : System) (r st n : ℕ) : Prop :=
  0 < n ∧ r + n ≤ st ∧ (r + n = st ∨ s.bus.rb.rpos < s.bus.stopPos)

/-- A copy in two parts is under way: the length reaches the stop position behind
the wrap. -/
def Wrapped (s : System) (r st n : ℕ) : Prop :=
  0 < n ∧ r + n = st ∧ s.bus.stopPos ≤ s.bus.rb.rpos

/-- What the locals of the task mean at each of its positions. -/
def TaskOk (s : System) (r st : ℕ) : Prop :=
  match s.pc with
  | .down | .compare => s.delivered.flatten = s.received.take r
  | .subtract ge => s.delivered.flatten = s.received.take r ∧
      (ge = false → s.bus.stopPos < s.bus.rb.rpos)
  | .alloc count => s.delivered.flatten = s.received.take r ∧
      (0 < count → Counted s r st count.toNat)
  | .branch n _ => s.delivered.flatten = s.received.take r ∧ Counted s r st n
  | .copyWhole n _ => s.delivered.flatten = s.received.take r ∧ r + n ≤ st ∧ s.bus.rb.rpos + n ≤ rxBufSize
  | .copyHead n _ => s.delivered.flatten = s.received.take r ∧ Wrapped s r st n
  | .copyTail n part buf => s.delivered.flatten = s.received.take r ∧ Wrapped s r st n ∧
      part = rxBufSize - s.bus.rb.rpos ∧ (List.range part).map buf = (s.received.drop r).take part
  | .recv n buf => s.delivered.flatten = s.received.take r ∧ r + n ≤ st ∧
      (List.range n).map buf = (s.received.drop r).take n
  | .advance n => r + n ≤ st ∧ s.delivered.flatten = s.received.take (r + n)

/-- The invariant of the undisturbed system. -/
def Safe (s : System) : Prop :=
  (∀ c ∈ s.copies, c.InBounds) ∧ ∃ r st, Linear s r st ∧ TaskOk s r st

/-! ## Interrupts -/

/-- What an interrupt may change: it extends the received bytes and moves the
stop position forward; the task and the read index stay. -/
structure Interrupted (s s' : System) (r st st' : ℕ) : Prop where
  linear : Linear s' r st'
  le : st ≤ st'
  pc : s'.pc = s.pc
  delivered : s'.delivered = s.delivered
  copies : s'.copies = s.copies
  rpos : s'.bus.rb.rpos = s.bus.rb.rpos
  received : s.received <+: s'.received

theorem Roomy.set_not_full {s : System} {b : UInt8} (h : Roomy s (.byte b)) :
    full (Rbuffer.set s.bus.rb b) = false := by
  simpa only [Roomy,irqHdl_rb] using h

/-- A ring that is full stays full, so room after a byte was room before it. -/
theorem Roomy.not_full {s : System} {b : UInt8} (h : Roomy s (.byte b)) : full s.bus.rb = false := by
  have hset := h.set_not_full
  by_contra hf
  rw [Bool.not_eq_false] at hf
  simp [Rbuffer.set,hf] at hset

theorem byte_interrupted {s : System} {r st : ℕ} {b : UInt8} (h : Linear s r st)
    (hroom : Roomy s (.byte b)) :
    ∃ st', Interrupted s { s with bus := irqHdl s.bus b, received := s.received ++ [b] } r st st' := by
  obtain ⟨hat,hsize,hrpos,hwin⟩ := h.ring.set hroom.not_full b
  have hle := h.ring.le
  have hheld : window rxBufSize (Rbuffer.set s.bus.rb b).rbq r (s.received.length + 1 - r) =
      (s.received ++ [b]).drop r := by
    rw [← h.size,hwin,h.size,h.held,List.drop_append_of_le_length hle]
  have hlin : ∀ st', (irqHdl s.bus b).stopPos = st' % rxBufSize → r ≤ st' → st' ≤ s.received.length + 1 →
      Linear { s with bus := irqHdl s.bus b, received := s.received ++ [b] } r st' := by
    intro st' he hr' hs'
    refine ⟨?_,?_,he,hr',?_,?_⟩ <;> simp only [irqHdl_rb,List.length_append,List.length_singleton]
    · exact hsize.trans h.size
    · exact hat
    · exact hs'
    · exact hheld
  have hstop := h.stop_le
  have hls := h.le_stop
  rcases irqHdl_stopPos s.bus b with hst | hst
  · exact ⟨st,hlin st (hst.trans h.stop_eq) hls (by omega),le_rfl,rfl,rfl,rfl,
      by simpa only [irqHdl_rb] using hrpos,List.prefix_append _ _⟩
  · have hw : (irqHdl s.bus b).stopPos = (s.received.length + 1) % rxBufSize := by
      rw [hst,hat.wpos_eq,hsize,h.size]
    exact ⟨s.received.length + 1,hlin _ hw (by omega) le_rfl,by omega,rfl,rfl,rfl,
      by simpa only [irqHdl_rb] using hrpos,List.prefix_append _ _⟩

theorem timer_interrupted {s : System} {r st : ℕ} (h : Linear s r st) :
    Interrupted s { s with bus := timerCb s.bus } r st s.received.length := by
  refine ⟨⟨h.size,h.ring,?_,h.ring.le,le_rfl,h.held⟩,h.stop_le,rfl,rfl,rfl,rfl,List.prefix_rfl⟩
  simp only [timerCb_stopPos]
  rw [h.ring.wpos_eq,h.size]

/-- What was delivered or copied stays a part of what is received. -/
theorem Interrupted.take_eq {s s' : System} {r st st' n : ℕ} (h : Interrupted s s' r st st')
    (hn : n ≤ s.received.length) : s'.received.take n = s.received.take n := by
  obtain ⟨ext,he⟩ := h.received
  rw [← he,List.take_append_of_le_length hn]

theorem Interrupted.drop_take_eq {s s' : System} {r st st' n : ℕ} (h : Interrupted s s' r st st')
    (hn : r + n ≤ s.received.length) : (s'.received.drop r).take n = (s.received.drop r).take n := by
  obtain ⟨ext,he⟩ := h.received
  rw [← he,List.drop_append_of_le_length (by omega),List.take_append_of_le_length (by simp; omega)]

/-- A calm interrupt keeps the length the task holds meaningful. -/
theorem Interrupted.counted {s s' : System} {r st st' n : ℕ} (h : Interrupted s s' r st st')
    (hl : Linear s r st) (hcalm : s'.bus.stopPos = s.bus.stopPos ∨ s.bus.rb.rpos < s'.bus.stopPos)
    (hc : Counted s r st n) : Counted s' r st' n := by
  obtain ⟨hn,hle,hcase⟩ := hc
  have hst := h.le
  refine ⟨hn,by omega,?_⟩
  rw [h.rpos]
  rcases hcalm with heq | hgt
  · have h1 := hl.stop_cases
    have h2 := h.linear.stop_cases
    rw [h.rpos,heq] at h2
    have hspan := h.linear.span_lt
    omega
  · exact Or.inr hgt

theorem Interrupted.wrapped {s s' : System} {r st st' n : ℕ} (h : Interrupted s s' r st st')
    (hl : Linear s r st) (hcalm : s'.bus.stopPos = s.bus.stopPos ∨ s.bus.rb.rpos < s'.bus.stopPos)
    (hc : Wrapped s r st n) : Wrapped s' r st' n := by
  obtain ⟨hn,heq,hle⟩ := hc
  have h1 := hl.stop_cases
  have h2 := h.linear.stop_cases
  rw [h.rpos] at h2
  have hst := h.le
  have hspan := h.linear.span_lt
  unfold Wrapped
  rw [h.rpos]
  omega

theorem Interrupted.taskOk {s s' : System} {r st st' : ℕ} (h : Interrupted s s' r st st')
    (hl : Linear s r st) (hcalm : Calm s s'.bus.stopPos) (ht : TaskOk s r st) : TaskOk s' r st' := by
  have hr := hl.le_stop
  have hs := hl.stop_le
  have hst := h.le
  unfold Calm at hcalm
  unfold TaskOk at ht ⊢
  rw [h.pc,h.delivered]
  cases hpc : s.pc with
  | down | compare =>
    simp only [hpc] at ht
    simpa only [h.take_eq (hr.trans hs)] using ht
  | subtract ge =>
    simp only [hpc] at ht
    refine ⟨by simpa only [h.take_eq (hr.trans hs)] using ht.1,fun hge => ?_⟩
    have h1 := hl.stop_cases
    have h2 := h.linear.stop_cases
    have hspan := h.linear.span_lt
    have hlt := ht.2 hge
    rw [h.rpos] at h2 ⊢
    omega
  | alloc count =>
    simp only [hpc] at ht
    refine ⟨by simpa only [h.take_eq (hr.trans hs)] using ht.1,fun hpos => ?_⟩
    exact h.counted hl (hcalm (by simpa [hpc,HoldsCount] using hpos)) (ht.2 hpos)
  | branch n buf =>
    simp only [hpc] at ht
    exact ⟨by simpa only [h.take_eq (hr.trans hs)] using ht.1,
      h.counted hl (hcalm (by simp [hpc,HoldsCount])) ht.2⟩
  | copyWhole n buf =>
    simp only [hpc] at ht
    exact ⟨by simpa only [h.take_eq (hr.trans hs)] using ht.1,by omega,by simpa only [h.rpos] using ht.2.2⟩
  | copyHead n buf =>
    simp only [hpc] at ht
    exact ⟨by simpa only [h.take_eq (hr.trans hs)] using ht.1,
      h.wrapped hl (hcalm (by simp [hpc,HoldsCount])) ht.2⟩
  | copyTail n part buf =>
    simp only [hpc] at ht
    obtain ⟨hd,hw,hp,hb⟩ := ht
    have hcases := hl.stop_cases
    have hlt := hl.rpos_lt
    refine ⟨by simpa only [h.take_eq (hr.trans hs)] using hd,
      h.wrapped hl (hcalm (by simp [hpc,HoldsCount])) hw,by simpa only [h.rpos] using hp,?_⟩
    obtain ⟨hn,heq,hle⟩ := hw
    rw [h.drop_take_eq (by omega)]
    exact hb
  | recv n buf =>
    simp only [hpc] at ht
    refine ⟨by simpa only [h.take_eq (hr.trans hs)] using ht.1,by omega,?_⟩
    rw [h.drop_take_eq (by omega)]
    exact ht.2.2
  | advance n =>
    simp only [hpc] at ht
    refine ⟨by omega,?_⟩
    rw [h.take_eq (by omega)]
    exact ht.2

theorem Interrupted.safe {s s' : System} {r st st' : ℕ} (h : Interrupted s s' r st st')
    (hl : Linear s r st) (hcopies : ∀ c ∈ s.copies, c.InBounds) (hcalm : Calm s s'.bus.stopPos)
    (ht : TaskOk s r st) : Safe s' :=
  ⟨by rwa [h.copies],r,st',h.linear,h.taskOk hl hcalm ht⟩

/-! ## The task -/

/-- A step of the task that leaves the shared positions alone. -/
theorem Linear.congr {s s' : System} {r st : ℕ} (h : Linear s r st) (hrb : s'.bus.rb = s.bus.rb)
    (hstop : s'.bus.stopPos = s.bus.stopPos) (hrec : s'.received = s.received) : Linear s' r st := by
  refine ⟨?_,?_,?_,h.le_stop,?_,?_⟩
  · rw [hrb]; exact h.size
  · rw [hrb,hrec]; exact h.ring
  · rw [hstop]; exact h.stop_eq
  · rw [hrec]; exact h.stop_le
  · rw [hrb,hrec]; exact h.held

/-- Handing over `n` bytes behind `r` continues what was delivered. -/
theorem take_add_eq {bs : List UInt8} {r n : ℕ} : bs.take (r + n) = bs.take r ++ (bs.drop r).take n :=
  List.take_add

theorem copies_append {cs : List Copy} (h : ∀ c ∈ cs, c.InBounds) {c : Copy} (hc : c.InBounds) :
    ∀ c' ∈ cs ++ [c], c'.InBounds := by
  intro c' hm
  rcases List.mem_append.mp hm with hm | hm
  · exact h c' hm
  · exact (List.mem_singleton.mp hm) ▸ hc

/-- Bytes up to the wrap stand in one block behind the read index. -/
theorem Linear.block_eq {s : System} {r st n : ℕ} (h : Linear s r st) (hn : r + n ≤ s.received.length)
    (hfit : s.bus.rb.rpos + n ≤ rxBufSize) :
    (List.range n).map (fun i => s.bus.rb.rbq (s.bus.rb.rpos + i)) = (s.received.drop r).take n := by
  have hr := h.ring.rpos_eq
  rw [h.size] at hr
  rw [← h.window_eq hn,window_block _ (by omega), ← hr]

theorem Linear.copied {s : System} {r st n : ℕ} (h : Linear s r st) (hn : r + n ≤ s.received.length)
    (hfit : s.bus.rb.rpos + n ≤ rxBufSize) (buf : ℕ → UInt8) :
    (List.range n).map (hwMemcpy buf 0 s.bus.rb.rbq s.bus.rb.rpos n) = (s.received.drop r).take n := by
  have hm := hwMemcpy_map buf s.bus.rb.rbq 0 s.bus.rb.rpos n
  simp only [Nat.zero_add,List.range_zero,List.map_nil,List.nil_append] at hm
  rw [hm,h.block_eq hn hfit]

/-- The second part of a copy completes the first. -/
theorem Linear.copied_wrap {s : System} {r st part k : ℕ} (h : Linear s r st)
    (hn : r + (part + k) ≤ s.received.length) (hpart : part = rxBufSize - s.bus.rb.rpos)
    (hk : k ≤ s.bus.rb.rpos) {buf : ℕ → UInt8}
    (hbuf : (List.range part).map buf = (s.received.drop r).take part) :
    (List.range (part + k)).map (hwMemcpy buf part s.bus.rb.rbq 0 k) =
      (s.received.drop r).take (part + k) := by
  have hlt := h.rpos_lt
  have hr := h.ring.rpos_eq
  rw [h.size] at hr
  have hwin := h.window_eq hn
  rw [window_wrap _ (by omega) (by omega) (by omega), ← hr,← hpart,
    show s.bus.rb.rpos + (part + k) - rxBufSize = k by omega] at hwin
  rw [hwMemcpy_map,hbuf,← h.block_eq (by omega) (by omega),← hwin]
  simp only [Nat.zero_add]

theorem taskStep_safe {s s' : System} {mem : Option (ℕ → UInt8)} (hs : Safe s) (hmem : mem.isSome)
    (he : taskStep s mem = some s') : Safe s' := by
  obtain ⟨hcopies,r,st,hl,ht⟩ := hs
  have hcases := hl.stop_cases
  have hrpos := hl.rpos_lt
  have hspan := hl.span_lt
  have hls := hl.le_stop
  have hsl := hl.stop_le
  have hsize := hl.size
  unfold taskStep at he
  unfold TaskOk at ht
  cases hpc : s.pc with
  | down =>
    simp only [hpc] at he ht
    split at he
    · cases he
      exact ⟨hcopies,r,st,hl.congr rfl rfl rfl,ht⟩
    · cases he
  | compare =>
    simp only [hpc] at he ht
    cases he
    refine ⟨hcopies,r,st,hl.congr rfl rfl rfl,ht,fun hge => ?_⟩
    simpa using hge
  | subtract ge =>
    simp only [hpc] at he ht
    cases he
    refine ⟨hcopies,r,st,hl.congr rfl rfl rfl,ht.1,fun hpos => ?_⟩
    unfold Counted
    cases ge with
    | true =>
      simp only [↓reduceIte] at hpos ⊢
      omega
    | false =>
      have hlt := ht.2 rfl
      simp only [Bool.false_eq_true,↓reduceIte,hsize] at hpos ⊢
      omega
  | alloc count =>
    obtain ⟨buf,rfl⟩ := Option.isSome_iff_exists.mp hmem
    simp only [hpc] at he ht
    split at he
    · next hpos =>
      cases he
      exact ⟨hcopies,r,st,hl.congr rfl rfl rfl,ht.1,ht.2 hpos⟩
    · cases he
      exact ⟨hcopies,r,st,hl.congr rfl rfl rfl,ht.1⟩
  | branch n buf =>
    simp only [hpc] at he ht
    cases he
    obtain ⟨hd,hn,hle,hc⟩ := ht
    refine ⟨hcopies,r,st,hl.congr rfl rfl rfl,?_⟩
    by_cases hgt : s.bus.stopPos > s.bus.rb.rpos
    · simp only [TaskOk,if_pos hgt]
      exact ⟨hd,hle,by omega⟩
    · simp only [TaskOk,if_neg hgt]
      exact ⟨hd,hn,by omega,by simp only; omega⟩
  | copyWhole n buf =>
    simp only [hpc] at he ht
    cases he
    obtain ⟨hd,hle,hfit⟩ := ht
    have hcopied := hl.copied (n := n) (by omega) hfit buf
    exact ⟨copies_append hcopies ⟨by simp,by simpa using hfit⟩,r,st,hl.congr rfl rfl rfl,hd,hle,hcopied⟩
  | copyHead n buf =>
    simp only [hpc] at he ht
    cases he
    obtain ⟨hd,hn,heq,hwrap⟩ := ht
    have hpart : s.bus.rb.qsize - s.bus.rb.rpos = rxBufSize - s.bus.rb.rpos := by rw [hsize]
    have hcopied := hl.copied (n := rxBufSize - s.bus.rb.rpos) (by omega) (by omega) buf
    refine ⟨copies_append hcopies ⟨?_,?_⟩,r,st,hl.congr rfl rfl rfl,hd,⟨hn,heq,hwrap⟩,hpart,?_⟩
    · simp only [hpart]; omega
    · simp only [hpart]; omega
    · rw [hpart]
      exact hcopied
  | copyTail n part buf =>
    simp only [hpc] at he ht
    cases he
    obtain ⟨hd,⟨hn,heq,hwrap⟩,hpart,hbuf⟩ := ht
    obtain rfl : n = part + s.bus.stopPos := by omega
    refine ⟨copies_append hcopies ⟨?_,?_⟩,r,st,hl.congr rfl rfl rfl,hd,heq.le,?_⟩
    · simp only; omega
    · simp only; omega
    · exact hl.copied_wrap (by omega) hpart hwrap hbuf
  | recv n buf =>
    simp only [hpc] at he ht
    cases he
    obtain ⟨hd,hle,hbuf⟩ := ht
    refine ⟨hcopies,r,st,hl.congr rfl rfl rfl,hle,?_⟩
    simp only [List.flatten_append,List.flatten_singleton]
    rw [hd,hbuf,take_add_eq]
  | advance n =>
    simp only [hpc] at he ht
    cases he
    obtain ⟨hle,hd⟩ := ht
    refine ⟨hcopies,r + n,st,⟨hsize,hl.ring.advance (by omega),hl.stop_eq,hle,hsl,?_⟩,hd⟩
    have hheld := congrArg (List.drop n) hl.held
    rw [window_drop _ _ (by omega),List.drop_drop] at hheld
    rwa [Nat.sub_sub] at hheld

theorem step_safe {s s' : System} {a : Act} (hs : Safe s) (hroom : Roomy s a) (hcalm : Undisturbed s a)
    (he : step s a = some s') : Safe s' := by
  obtain ⟨hcopies,r,st,hl,ht⟩ := hs
  cases a with
  | byte b =>
    obtain ⟨st',hi⟩ := byte_interrupted hl hroom
    cases he
    exact hi.safe hl hcopies hcalm ht
  | timer =>
    simp only [step] at he
    split at he
    · cases he
      exact (timer_interrupted hl).safe hl hcopies hcalm ht
    · cases he
  | task mem => exact taskStep_safe ⟨hcopies,r,st,hl,ht⟩ hroom he

theorem start_safe : Safe start := by
  have hat : At start.bus.rb 0 0 := init_at (by norm_num [rxBufSize]) _
  exact ⟨by simp [start],0,0,⟨rfl,hat,rfl,le_rfl,le_rfl,rfl⟩,rfl⟩

/-- The environment of the runs below: room in the ring, memory, and no
disturbance between the reads of one iteration. -/
def Undisturbing (s : System) (a : Act) : Prop := Roomy s a ∧ Undisturbed s a

instance (s : System) (a : Act) : Decidable (Undisturbing s a) := inferInstanceAs (Decidable (_ ∧ _))

theorem Runs.safe {s : System} {as : List Act} (h : Runs (guarded Undisturbing step) start as s) : Safe s :=
  h.guarded_invariant (fun _ _ _ hs hg he => step_safe hs hg.1 hg.2 he) start_safe

theorem Safe.sound {s : System} (h : Safe s) : Sound s := by
  obtain ⟨hcopies,r,st,hl,ht⟩ := h
  refine ⟨hcopies,?_⟩
  have hp : ∀ n, s.delivered.flatten = s.received.take n → s.delivered.flatten <+: s.received := by
    intro n hn
    rw [hn]
    exact List.take_prefix _ _
  unfold TaskOk at ht
  cases hpc : s.pc <;> simp only [hpc] at ht
  case down | compare => exact hp _ ht
  case advance => exact hp _ ht.2
  all_goals exact hp _ ht.1

/-- In every run whose interrupts leave the stop position before the wrap while
the task holds a length, every copy stays in its buffers and the task hands over
the received bytes in order. -/
theorem undisturbed_run_sound {s : System} {as : List Act}
    (h : Runs (guarded Undisturbing step) start as s) : Sound s :=
  (Runs.safe h).sound

/-- The bytes of a short transfer, ended by the timer and taken in one iteration. -/
theorem undisturbed_run_sound_pair :
    ∃ s, Runs (guarded Undisturbing step) start
      ([.byte 7,.byte 9,.timer] ++ List.replicate 8 (.task (some fun _ => 0))) s ∧
      s.delivered = [[7,9]] ∧ Sound s := by
  refine Runs.exists_of_exec System.delivered (v := [[7,9]]) rfl ?_
  intro s hrun hd
  exact ⟨hd,undisturbed_run_sound hrun⟩

/-! ## A stop position that passes the wrap between two reads -/

/-- The system after `n` zero bytes and nothing else. -/
def zeros (n : ℕ) : System :=
  { bus := { rb := ⟨0,n,rxBufSize,fun _ => 0⟩, rxcount := n, stopPos := 0, magic := 0, frmLen := 0,
             sema := 0, timerArmed := decide (0 < n) }
    pc := .down, received := List.replicate n 0, copies := [], delivered := [] }

theorem zeros_not_full {n : ℕ} (hn : n ≤ 4094) : full (zeros n).bus.rb = false := by
  have hlt : n < rxBufSize := by simp only [rxBufSize]; omega
  have hat : At (zeros n).bus.rb 0 n := ⟨rfl,(Nat.mod_eq_of_lt hlt).symm,Nat.zero_le n,by simpa [zeros] using hlt⟩
  by_contra hf
  have := hat.full_iff.mp (by simpa using hf)
  simp only [zeros,rxBufSize] at this
  omega

theorem zeros_step {n : ℕ} (hn : n < 4094) : guarded Roomy step (zeros n) (.byte 0) = some (zeros (n + 1)) := by
  have hset : Rbuffer.set (zeros n).bus.rb 0 = (zeros (n + 1)).bus.rb := by
    have hp : npos rxBufSize n 1 = n + 1 := if_neg (by simp only [rxBufSize]; omega)
    simp only [Rbuffer.set,zeros_not_full hn.le,Bool.false_eq_true,↓reduceIte]
    simp [zeros,hp]
  have hcnt : Rbuffer.count (zeros (n + 1)).bus.rb = n + 1 := by simp [Rbuffer.count,zeros]
  have hmod : (n + 1) % 2 ^ 32 = n + 1 := Nat.mod_eq_of_lt (by omega)
  have hirq : irqHdl (zeros n).bus 0 = (zeros (n + 1)).bus := by
    have hdone : frameDone (storeByte { (zeros n).bus with timerArmed := false } 0) = false := by
      simp only [frameDone,storeByte,hset,hcnt]
      simp [zeros,shiftIn,rxBufSize]
      omega
    simp only [irqHdl,hdone,Bool.false_eq_true,↓reduceIte]
    simp only [storeByte,hset]
    simp only [zeros,hmod]
    simp [shiftIn]
  rw [guarded_eq_some]
  refine ⟨?_,?_⟩
  · simp only [Roomy,hirq]
    exact zeros_not_full hn
  · simp only [step,hirq]
    simp [zeros,List.replicate_succ']

theorem zeros_run {n : ℕ} (hn : n ≤ 4094) :
    Runs (guarded Roomy step) start (List.replicate n (.byte 0)) (zeros n) := by
  induction n with
  | zero => exact Runs.refl _
  | succ n ih =>
    rw [List.replicate_succ']
    exact (ih (by omega)).tail (zeros_step (by omega))

/-- One iteration takes 4094 bytes; the next one fixes a length of 1 and then
finds `stopPos` behind the wrap. -/
def wrapSchedule : List Act :=
  [.timer] ++ List.replicate 8 (.task (some fun _ => 0)) ++
    [.byte 0,.timer] ++ List.replicate 4 (.task (some fun _ => 0)) ++
    [.byte 0,.timer] ++ List.replicate 2 (.task (some fun _ => 0))

theorem moved_stop_overruns : ¬ ∀ s as, Runs (guarded Roomy step) start as s → Sound s := by
  intro hall
  obtain ⟨s,hs,hc⟩ : ∃ s, exec (guarded Roomy step) (zeros 4094) wrapSchedule = some s ∧
      s.copies = [⟨0,0,4094,4094⟩,⟨0,4094,2,1⟩] := ⟨_,rfl,by decide⟩
  have hsound := hall s _ ((zeros_run le_rfl).append (Runs.of_exec hs))
  have hbad := hsound.1 ⟨0,4094,2,1⟩ (by simp [hc])
  exact absurd hbad (by decide)

end FmacSdk.UartBus
