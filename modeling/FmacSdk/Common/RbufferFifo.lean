import FmacSdk.Foundation.BoundedFifo
import FmacSdk.Common.Rbuffer

/-! # The ring buffer as a bounded queue

Storing and removing on the ring are appending and removing on a queue whose
capacity is one less than the size of the storage, with the stored elements
read off from the read position.
-/
namespace FmacSdk.Rbuffer
open RingWindow BoundedFifo
variable {α : Type*} {cap : ℕ}

/-- RB_SET and RB_GET into the result variable of the caller. -/
def step (s : RBuffer α × α) : Op α → RBuffer α × α
  | .push v => (set s.1 v,s.2)
  | .pop => get s.1 s.2

def run (s : RBuffer α × α) (ops : List (Op α)) : RBuffer α × α := ops.foldl step s

/-- The queue lists the elements of the ring from its read position on. -/
def Contents (rb : RBuffer α) (f : Fifo α cap) : Prop :=
  rb.qsize = cap + 1 ∧ ∃ r, At rb r (r + f.elems.length) ∧
    window rb.qsize rb.rbq r f.elems.length = f.elems

/-- What the macros say about a ring that holds the queue. -/
structure Agrees (rb : RBuffer α) (f : Fifo α cap) : Prop where
  qsize_eq : rb.qsize = cap + 1
  rpos_lt : rb.rpos < rb.qsize
  wpos_lt : rb.wpos < rb.qsize
  count_eq : count rb = f.elems.length
  empty_iff : empty rb = true ↔ f.elems.length = 0
  full_iff : full rb = true ↔ f.elems.length = cap
  stored : (List.range f.elems.length).map (fun i => rb.rbq ((rb.rpos + i) % rb.qsize)) = f.elems
  set_full : ∀ v, f.elems.length = cap → set rb v = rb
  get_empty : ∀ val, f.elems.length = 0 → get rb val = (rb,val)

variable {rb : RBuffer α} {f : Fifo α cap}

theorem Contents.agrees (h : Contents rb f) : Agrees rb f := by
  obtain ⟨hq,r,hat,hw⟩ := h
  have hempty : empty rb = true ↔ f.elems.length = 0 := by
    rw [hat.empty_iff]
    omega
  have hfull : full rb = true ↔ f.elems.length = cap := by
    rw [hat.full_iff]
    omega
  refine ⟨hq,hat.rpos_lt,hat.wpos_lt,?_,hempty,hfull,?_,fun v hl => ?_,fun val hl => ?_⟩
  · rw [hat.count]
    omega
  · rw [hat.rpos_eq]
    simpa [window] using hw
  · simp [set,hfull.mpr hl]
  · simp [get,hempty.mpr hl]

theorem Contents.init (buff : ℕ → α) : Contents (init (cap + 1) buff) (Fifo.empty : Fifo α cap) :=
  ⟨rfl,0,init_at (Nat.succ_pos cap) buff,rfl⟩

theorem Contents.set (h : Contents rb f) (v : α) : Contents (set rb v) (f.push v) := by
  have hagrees := h.agrees
  obtain ⟨hq,r,hat,hw⟩ := h
  rcases Nat.lt_or_eq_of_le f.bound with hl | hl
  · have hf : full rb = false := by
      rw [Bool.eq_false_iff]
      exact fun he => hl.ne (hagrees.full_iff.mp he)
    obtain ⟨hat',hq',hr',hw'⟩ := hat.set hf v
    have hlen : r + f.elems.length + 1 - r = (f.push v).elems.length := by
      simp [Fifo.push_elems_of_lt hl]
      omega
    rw [Nat.add_sub_cancel_left,hw,← Fifo.push_elems_of_lt hl,hlen] at hw'
    refine ⟨hq'.trans hq,r,?_,?_⟩
    · rw [← hlen]
      simpa [Nat.add_assoc] using hat'
    · rw [hq']
      exact hw'
  · rw [hagrees.set_full v hl,Fifo.push_of_full hl]
    exact ⟨hq,r,hat,hw⟩

theorem Contents.get (h : Contents rb f) (val : α) :
    Contents (get rb val).1 f.pop ∧ (get rb val).2 = f.elems.head?.getD val := by
  have hagrees := h.agrees
  obtain ⟨hq,r,hat,hw⟩ := h
  cases helems : f.elems with
  | nil =>
    rw [hagrees.get_empty val (by simp [helems]),Fifo.pop_of_empty helems]
    exact ⟨⟨hq,r,hat,hw⟩,rfl⟩
  | cons x xs =>
    have hlen : f.elems.length = xs.length + 1 := by simp [helems]
    have hempty : empty rb = false := by
      rw [Bool.eq_false_iff]
      intro he
      have := hagrees.empty_iff.mp he
      omega
    have hadv := hat.advance (n := 1) (by omega)
    rw [hlen,helems,Nat.add_comm xs.length 1,window_append] at hw
    have hhead : rb.rbq rb.rpos = x ∧ window rb.qsize rb.rbq (r + 1) xs.length = xs := by
      simpa [window,hat.rpos_eq] using hw
    simp only [Rbuffer.get,hempty,Bool.false_eq_true,↓reduceIte]
    refine ⟨⟨hq,r + 1,?_,?_⟩,hhead.1⟩
    · rw [Fifo.pop_elems,helems]
      convert hadv using 1
      simp
      omega
    · rw [Fifo.pop_elems,helems]
      exact hhead.2

theorem run_contents (cap : ℕ) (buff : ℕ → α) (val : α) (ops : List (Op α)) :
    Contents (run (init (cap + 1) buff,val) ops).1 (Fifo.run ((Fifo.empty : Fifo α cap),val) ops).1 ∧
      (run (init (cap + 1) buff,val) ops).2 = (Fifo.run ((Fifo.empty : Fifo α cap),val) ops).2 := by
  apply List.foldl_rel (r := fun s (t : Fifo α cap × α) => Contents s.1 t.1 ∧ s.2 = t.2)
    (a := (init (cap + 1) buff,val)) (b := (Fifo.empty,val)) ⟨Contents.init buff,rfl⟩
  rintro op - ⟨rb,val⟩ ⟨f,last⟩ ⟨hc,rfl : val = last⟩
  cases op with
  | push v => exact ⟨hc.set v,rfl⟩
  | pop => exact hc.get val

/-- Every sequence of operations on a ring of any size refines the queue of one
element less. -/
theorem run_refines_fifo {size : ℕ} (hs : 1 ≤ size) (buff : ℕ → α) (val : α) (ops : List (Op α)) :
    Agrees (run (init size buff,val) ops).1 (Fifo.run ((Fifo.empty : Fifo α (size - 1)),val) ops).1 ∧
      (run (init size buff,val) ops).2 = (Fifo.run ((Fifo.empty : Fifo α (size - 1)),val) ops).2 := by
  obtain ⟨cap,rfl⟩ := Nat.exists_eq_add_of_le' hs
  obtain ⟨hc,hlast⟩ := run_contents cap buff val ops
  exact ⟨hc.agrees,hlast⟩

theorem run_refines_fifo_three :
    count (run (init 3 (fun _ => 0),0) [.push 5,.push 6,.push 7,.pop]).1 = 1 ∧
      (run (init 3 (fun _ => 0),0) [.push 5,.push 6,.push 7,.pop]).2 = 5 := by
  have h := run_refines_fifo (by decide : 1 ≤ 3) (fun _ => 0) 0 [.push 5,.push 6,.push 7,.pop]
  exact ⟨h.1.count_eq.trans (by decide),h.2.trans (by decide)⟩

end FmacSdk.Rbuffer
