import Mathlib.Data.List.Basic
import Mathlib.Data.List.TakeWhile

/-! # Objects that end

An object of memory is the list of its cells. A read or a write that leaves it has
no result, so a program that has one stayed inside all the objects it was given.
-/
namespace FmacSdk.Objects

section Cells
variable {α : Type*} {m m' u v w xs ys : List α} {i n : ℕ} {x : α}

def load (m : List α) (i : ℕ) : Option α := m[i]?

def read (m : List α) (i n : ℕ) : Option (List α) :=
  if i + n ≤ m.length then some ((m.drop i).take n) else none

def write (m : List α) (i : ℕ) (xs : List α) : Option (List α) :=
  if i + xs.length ≤ m.length then some (m.take i ++ (xs ++ m.drop (i + xs.length))) else none

def store (m : List α) (i : ℕ) (x : α) : Option (List α) := write m i [x]

theorem read_eq_none_iff : read m i n = none ↔ m.length < i + n := by
  unfold read
  split_ifs with h
  · simp [h]
  · simp [not_le.mp h]

theorem write_eq_none_iff : write m i xs = none ↔ m.length < i + xs.length := by
  unfold write
  split_ifs with h
  · simp [h]
  · simp [not_le.mp h]

theorem read_zero (h : n ≤ m.length) : read m 0 n = some (m.take n) := by
  rw [read,if_pos (by omega),List.drop_zero]

/-- What lies around the cells is kept. -/
theorem write_append (u m xs : List α) (h : xs.length ≤ m.length) :
    write (u ++ m) u.length xs = some (u ++ (xs ++ m.drop xs.length)) := by
  have hdrop : (u ++ m).drop (u.length + xs.length) = m.drop xs.length := by
    rw [← List.drop_drop,List.drop_left]
  rw [write,if_pos (by simp [h]),List.take_left,hdrop]

theorem write_zero (m xs : List α) (h : xs.length ≤ m.length) : write m 0 xs = some (xs ++ m.drop xs.length) :=
  write_append [] m xs h

theorem write_length (h : write m i xs = some m') : m'.length = m.length := by
  unfold write at h
  split_ifs at h with hfits
  obtain rfl := Option.some.inj h
  simp
  omega

theorem store_middle (u w : List α) (y : α) : store (u ++ y :: w) u.length x = some (u ++ x :: w) :=
  write_append u (y :: w) [x] (by simp)

theorem load_middle (u w : List α) (y : α) : load (u ++ y :: w) u.length = some y := by
  simp [load]

end Cells

/-! ## Strings that end in a zero byte -/

/-- The string at an address of an object. -/
def text (m : List UInt8) (p : ℕ) : Option (List UInt8) :=
  if 0 ∈ m.drop p then some ((m.drop p).takeWhile fun c => c ≠ 0) else none

section Strings
variable {m s t u v : List UInt8} {p : ℕ}

theorem takeWhile_nonzero (hs : 0 ∉ s) : (s ++ 0 :: v).takeWhile (fun c => c ≠ 0) = s := by
  induction s with
  | nil => simp
  | cons c s ih =>
    have hc : c ≠ 0 := (List.ne_of_not_mem_cons hs).symm
    have hrest := ih (List.not_mem_of_not_mem_cons hs)
    rw [List.cons_append,List.takeWhile_cons_of_pos (by simpa using hc),hrest]

theorem text_middle (u v : List UInt8) (hs : 0 ∉ s) : text (u ++ (s ++ 0 :: v)) u.length = some s := by
  rw [text,List.drop_left,if_pos (by simp),takeWhile_nonzero hs]

theorem text_zero (v : List UInt8) (hs : 0 ∉ s) : text (s ++ 0 :: v) 0 = some s := text_middle [] v hs

/-- A string and what is behind its terminator. -/
theorem exists_text (h : 0 ∈ m) : ∃ s v, 0 ∉ s ∧ m = s ++ 0 :: v := by
  induction m with
  | nil => simp at h
  | cons c m ih =>
    by_cases hc : c = 0
    · exact ⟨[],m,by simp,by rw [hc]; rfl⟩
    · have hrest : 0 ∈ m := by simpa [Ne.symm hc] using h
      obtain ⟨s,v,hs,hm⟩ := ih hrest
      refine ⟨c :: s,v,?_,by rw [hm]; rfl⟩
      simp [hs,Ne.symm hc]

end Strings

end FmacSdk.Objects
