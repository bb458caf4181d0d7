import FmacSdk.Common.RbufferFifo
import Mathlib.Data.List.Induction
import Mathlib.Order.Bounds.Basic

/-! # The declared size and the free space of a ring

RBUFFER_DEF reserves one slot more than the size that it is given, but RB_INIT
makes the ring of the size itself, so that the last slot is never used. RB_IDLE
counts the slot that stays free.
-/
namespace FmacSdk.Rbuffer
open RingWindow BoundedFifo
variable {α : Type*} {cap size : ℕ}

/-- The slots of RBUFFER_DEF. -/
def slots (size : ℕ) : ℕ := size + 1

/-- RB_IDLE, a difference of signed numbers. -/
def idle (rb : RBuffer α) : ℤ := rb.qsize - count rb

/-- How many of the values that are stored one after the other are not dropped. -/
def accepted : RBuffer α → List α → ℕ
  | _, [] => 0
  | rb, v :: vs => (if full rb then 0 else 1) + accepted (set rb v) vs

/-- The ring takes `n` more values before the next RB_GET, whatever they are. -/
def Takes (rb : RBuffer α) (n : ℕ) : Prop := ∀ vs, accepted rb vs = min vs.length n

/-- RB_IDLE says what the ring takes. -/
def IdleRight (rb : RBuffer α) : Prop := ∃ n : ℕ, Takes rb n ∧ idle rb = n

/-- The most that a ring of the size ever holds at once. -/
def Stores (size : ℕ) (buff : ℕ → α) (val : α) (n : ℕ) : Prop :=
  IsGreatest {k | ∃ ops, count (run (init size buff,val) ops).1 = k} n

structure SpaceRight (size : ℕ) (buff : ℕ → α) (val : α) (ops : List (Op α)) : Prop where
  idle : IdleRight (run (init size buff,val) ops).1
  capacity : Stores size buff val size

variable {rb : RBuffer α} {f : Fifo α cap}

/-- A ring takes what the queue it holds has room for. -/
theorem Contents.takes (h : Contents rb f) : Takes rb (cap - f.elems.length) := by
  intro vs
  induction vs generalizing rb f with
  | nil => exact (Nat.zero_min _).symm
  | cons v vs ih =>
    have hset := ih (h.set v)
    have hfull := h.agrees.full_iff
    have hbound := f.bound
    rw [accepted,hset,List.length_cons]
    by_cases hl : f.elems.length = cap
    · rw [if_pos (hfull.mpr hl),Fifo.push_of_full hl]
      omega
    · rw [if_neg (hfull.not.mpr hl),Fifo.push_elems_of_lt (by omega),List.length_append,
        List.length_singleton]
      omega

theorem Takes.unique {m n : ℕ} (hm : Takes rb m) (hn : Takes rb n) (v : α) : m = n := by
  have h := (hm (List.replicate (m + n) v)).symm.trans (hn (List.replicate (m + n) v))
  rw [List.length_replicate] at h
  omega

/-- RB_IDLE counts one slot more than the ring takes. -/
theorem Contents.idle (h : Contents rb f) : idle rb = (cap - f.elems.length : ℕ) + 1 := by
  have hq := h.agrees.qsize_eq
  have hc := h.agrees.count_eq
  have hbound := f.bound
  rw [Rbuffer.idle,hq,hc]
  omega

theorem push_run_length (val : α) (n : ℕ) (f : Fifo α cap) (last : α) :
    (Fifo.run (f,last) (List.replicate n (.push val))).1.elems.length = min cap (f.elems.length + n) := by
  induction n generalizing f with
  | zero => exact (Nat.min_eq_right f.bound).symm
  | succ n ih =>
    refine (ih (f.push val)).trans ?_
    have hbound := f.bound
    by_cases hl : f.elems.length = cap
    · rw [Fifo.push_of_full hl]
      omega
    · rw [Fifo.push_elems_of_lt (by omega),List.length_append,List.length_singleton]
      omega

/-- One element less than the size can be stored. -/
theorem run_stores (buff : ℕ → α) (val : α) : Stores (cap + 1) buff val cap := by
  constructor
  · refine ⟨List.replicate cap (.push val),?_⟩
    rw [(run_contents cap buff val _).1.agrees.count_eq,push_run_length]
    exact Nat.min_eq_left (Nat.le_add_left _ _)
  · rintro n ⟨ops,rfl⟩
    rw [(run_contents cap buff val ops).1.agrees.count_eq]
    exact Fifo.bound _

/-- No operation writes the last slot of RBUFFER_DEF. -/
theorem run_last_slot (buff : ℕ → α) (val : α) (ops : List (Op α)) :
    (run (init (cap + 1) buff,val) ops).1.rbq (slots (cap + 1) - 1) = buff (slots (cap + 1) - 1) := by
  induction ops using List.reverseRecOn with
  | nil => rfl
  | append_singleton ops op ih =>
    have hagrees := (run_contents cap buff val ops).1.agrees
    have hstep : run (init (cap + 1) buff,val) (ops ++ [op]) = step (run (init (cap + 1) buff,val) ops) op :=
      List.foldl_concat _ _ _ _
    rw [hstep]
    cases op with
    | push v =>
      show (set _ v).rbq _ = _
      unfold set
      split
      · exact ih
      · have hw := hagrees.wpos_lt
        rw [hagrees.qsize_eq] at hw
        exact (Function.update_of_ne hw.ne' _ _).trans ih
    | pop =>
      show (get _ _).1.rbq _ = _
      unfold get
      split <;> exact ih

/-- For every size and after every sequence of operations RB_IDLE is one more than
what the ring takes, and the ring stores one element less than it was declared for. -/
theorem not_spaceRight (hs : 1 ≤ size) (buff : ℕ → α) (val : α) (ops : List (Op α)) :
    ¬ IdleRight (run (init size buff,val) ops).1 ∧ ¬ Stores size buff val size := by
  obtain ⟨cap,rfl⟩ := Nat.exists_eq_add_of_le' hs
  have hc := (run_contents cap buff val ops).1
  constructor
  · rintro ⟨n,hn,he⟩
    have huniq := hn.unique hc.takes val
    rw [hc.idle,huniq] at he
    omega
  · intro h
    exact absurd (h.unique (run_stores buff val)) (Nat.succ_ne_self cap)

theorem not_spaceRight_four : ¬ IdleRight (run (init 4 fun _ => 0,0) [.push 5,.push 6,.pop]).1 ∧
    ¬ Stores 4 (fun _ => 0) 0 4 :=
  not_spaceRight (by decide) (fun _ => 0) 0 [.push 5,.push 6,.pop]

/-- A ring declared for one element takes none and shows one free slot. -/
theorem spaceRight_fails_one : ¬ SpaceRight 1 (fun _ => 0) 0 [] := by
  rintro ⟨⟨n,hn,hidle⟩,-⟩
  have hnone : accepted (run (init 1 fun _ => 0,0) []).1 [7] = 0 := by decide
  have hone : idle (run (init 1 fun _ => 0,0) []).1 = 1 := by decide
  have htakes := hn [7]
  rw [hnone,List.length_singleton] at htakes
  rw [hone] at hidle
  omega

end FmacSdk.Rbuffer
