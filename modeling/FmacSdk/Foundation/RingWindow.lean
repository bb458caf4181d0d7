import Mathlib.Data.Nat.ModEq
import Mathlib.Data.List.Basic
import Mathlib.Logic.Function.Basic
import Mathlib.Tactic.Ring

/-! # Circular storage seen through unbounded positions

Positions count every element ever written and only their residue is stored.
A window lists the elements from one position on. Two positions less than one
revolution apart are determined by their residues, and writing at the end of a
window shorter than one revolution extends it without changing what it held.
-/
namespace FmacSdk.RingWindow
variable {α : Type*} {q : ℕ}

/-- The `n` elements stored from position `p` on. -/
def window (q : ℕ) (m : ℕ → α) (p n : ℕ) : List α := (List.range n).map (fun i => m ((p + i) % q))

@[simp] theorem window_length (m : ℕ → α) (p n : ℕ) : (window q m p n).length = n := by
  simp [window]

theorem window_append (m : ℕ → α) (p a b : ℕ) :
    window q m p (a + b) = window q m p a ++ window q m (p + a) b := by
  simp only [window, List.range_add, List.map_append, List.map_map]
  congr 1
  apply List.map_congr_left
  intro i _
  simp [Nat.add_assoc]

theorem window_take (m : ℕ → α) (p : ℕ) {a n : ℕ} (h : a ≤ n) :
    (window q m p n).take a = window q m p a := by
  obtain ⟨b,rfl⟩ := Nat.exists_eq_add_of_le h
  rw [window_append, List.take_append_of_le_length (by simp)]
  exact List.take_of_length_le (by simp)

theorem window_drop (m : ℕ → α) (p : ℕ) {a n : ℕ} (h : a ≤ n) :
    (window q m p n).drop a = window q m (p + a) (n - a) := by
  obtain ⟨b,rfl⟩ := Nat.exists_eq_add_of_le h
  rw [window_append, List.drop_append_of_le_length (by simp)]
  simp [List.drop_of_length_le]

/-- Residues less than one revolution apart coincide only for equal positions. -/
theorem residue_ne {a b : ℕ} (hab : a < b) (hb : b < a + q) : a % q ≠ b % q := by
  intro h
  have hd : q ∣ b - a := (Nat.modEq_iff_dvd' hab.le).mp h
  have := Nat.le_of_dvd (by omega) hd
  omega

/-- Writing behind a window of less than one revolution appends to it. -/
theorem window_write (m : ℕ → α) (v : α) {p w : ℕ} (hp : p ≤ w) (hw : w < p + q) :
    window q (Function.update m (w % q) v) p (w + 1 - p) = window q m p (w - p) ++ [v] := by
  have hn : w + 1 - p = (w - p) + 1 := by omega
  rw [hn,window_append]
  congr 1
  · apply List.map_congr_left
    intro i hi
    have hi' := List.mem_range.mp hi
    exact Function.update_of_ne (residue_ne (by omega) (by omega)) _ _
  · simp [window,Nat.add_sub_cancel' hp]

/-- The residue of a position at most one revolution ahead. -/
theorem residue_add {p n : ℕ} (hn : n ≤ q) (hq : 0 < q) :
    (p + n) % q = if p % q + n < q then p % q + n else p % q + n - q := by
  have hr := Nat.mod_lt p hq
  rw [Nat.add_mod]
  rcases Nat.lt_or_eq_of_le hn with hn | rfl
  · rw [Nat.mod_eq_of_lt hn]
    split
    · next h => exact Nat.mod_eq_of_lt h
    · next h => rw [Nat.mod_eq_sub_mod (by omega), Nat.mod_eq_of_lt (by omega)]
  · rw [Nat.mod_self, if_neg (by omega)]
    simp [Nat.mod_eq_of_lt hr]

/-- A window that ends before the wrap is one contiguous block. -/
theorem window_block (m : ℕ → α) {p n : ℕ} (h : p % q + n ≤ q) :
    window q m p n = (List.range n).map (fun i => m (p % q + i)) := by
  apply List.map_congr_left
  intro i hi
  have hi' := List.mem_range.mp hi
  rw [residue_add (by omega) (by omega), if_pos (by omega)]

/-- A window that passes the wrap is the block up to the end and the block from
the start. -/
theorem window_wrap (m : ℕ → α) {p n : ℕ} (hq : 0 < q) (hn : n ≤ q) (h : q ≤ p % q + n) :
    window q m p n = (List.range (q - p % q)).map (fun i => m (p % q + i)) ++
      (List.range (p % q + n - q)).map m := by
  have hr := Nat.mod_lt p hq
  have hsplit : n = (q - p % q) + (p % q + n - q) := by omega
  have hstart : (p + (q - p % q)) % q = 0 := by
    rw [residue_add (by omega) hq, if_neg (by omega)]
    omega
  rw [congrArg (window q m p) hsplit,window_append,window_block m (by omega)]
  congr 1
  rw [window_block m (by omega),hstart]
  simp

end FmacSdk.RingWindow
