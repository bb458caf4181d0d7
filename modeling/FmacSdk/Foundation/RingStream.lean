import FmacSdk.Foundation.RingWindow

/-! # Streams of cells in a ring

A stream begins at a head cell and goes on at the first cell behind the last
one. The head and the next free cell may stand behind the last cell in place of
the first one. Blocks are copied in and out where they do not cross the end; a
block that does cross it is copied in two parts.
-/
namespace FmacSdk.RingStream
open RingWindow
variable {α : Type*} {q : ℕ} {m : ℕ → α} {head tail free n : ℕ} {xs ys : List α}

/-- The memory after a block was copied to the cells from `i` on. -/
def blit (m : ℕ → α) (i : ℕ) (xs : List α) : ℕ → α :=
  fun k => if h : i ≤ k ∧ k - i < xs.length then xs.get ⟨k - i,h.2⟩ else m k

/-- The block of `n` cells from `i` on. -/
def cells (m : ℕ → α) (i n : ℕ) : List α := (List.range n).map fun k => m (i + k)

@[simp] theorem cells_length (m : ℕ → α) (i n : ℕ) : (cells m i n).length = n := by simp [cells]

theorem cells_add (m : ℕ → α) (i a b : ℕ) : cells m i (a + b) = cells m i a ++ cells m (i + a) b := by
  simp only [cells,List.range_add,List.map_append,List.map_map]
  congr 1
  apply List.map_congr_left
  intro k _
  simp [Nat.add_assoc]

theorem cells_take (m : ℕ → α) (i n a : ℕ) : (cells m i n).take a = cells m i (min n a) := by
  rcases Nat.le_total n a with h | h
  · rw [Nat.min_eq_left h,List.take_of_length_le (by simpa using h)]
  · obtain ⟨b,rfl⟩ := Nat.exists_eq_add_of_le h
    rw [Nat.min_eq_right h,cells_add,List.take_left' (by simp)]

theorem cells_drop (m : ℕ → α) (i n a : ℕ) :
    (cells m i n).drop a = cells m (i + min n a) (n - min n a) := by
  rcases Nat.le_total n a with h | h
  · rw [Nat.min_eq_left h,List.drop_of_length_le (by simpa using h),Nat.sub_self]
    rfl
  · obtain ⟨b,rfl⟩ := Nat.exists_eq_add_of_le h
    rw [Nat.min_eq_right h,Nat.add_sub_cancel_left,cells_add,List.drop_left' (by simp)]

theorem blit_outside {i k : ℕ} (h : k < i ∨ i + xs.length ≤ k) : blit m i xs k = m k :=
  dif_neg (by omega)

theorem blit_inside {i k : ℕ} (h : k < xs.length) : blit m i xs (i + k) = xs.get ⟨k,h⟩ := by
  unfold blit
  rw [dif_pos ⟨by omega,by omega⟩]
  congr 2
  omega

@[simp] theorem blit_nil (m : ℕ → α) (i : ℕ) : blit m i [] = m := by
  funext k
  exact dif_neg (by simp)

theorem cells_blit (m : ℕ → α) (i : ℕ) (xs : List α) : cells (blit m i xs) i xs.length = xs := by
  apply List.ext_getElem
  · simp
  · intro k hk hk'
    simpa [cells] using blit_inside (m := m) (i := i) hk'

/-- A block copied behind a window that it does not reach around to extends it. -/
theorem window_blit (hq : 0 < q) {p t : ℕ} (ht : t = (p + n) % q) (hfit : t + ys.length ≤ q)
    (hroom : n + ys.length ≤ q) :
    window q (blit m t ys) p (n + ys.length) = window q m p n ++ ys := by
  have hnext : ∀ j, j < ys.length → (p + n + j) % q = t + j := by
    intro j hj
    rw [residue_add (by omega) hq,← ht,if_pos (by omega)]
  rw [window_append]
  congr 1
  · apply List.map_congr_left
    intro i hi
    have hi' := List.mem_range.mp hi
    refine blit_outside ?_
    by_contra hin
    obtain ⟨j,hj⟩ := Nat.exists_eq_add_of_le (show t ≤ (p + i) % q by omega)
    refine residue_ne (a := p + i) (b := p + n + j) (q := q) (by omega) (by omega) ?_
    rw [hnext j (by omega),hj]
  · rw [window_block _ (by rw [← ht]; exact hfit),← ht]
    exact cells_blit m t ys

/-- A stream `xs` that begins at `head`, with the next free cell and their number. -/
structure Stream (q : ℕ) (m : ℕ → α) (head tail free : ℕ) (xs : List α) : Prop where
  head_le : head ≤ q
  tail_le : tail ≤ q
  size : free + xs.length = q
  tail_mod : tail % q = (head + xs.length) % q
  held : window q m head xs.length = xs

theorem stream_nil (m : ℕ → α) : Stream q m 0 0 q [] :=
  ⟨Nat.zero_le _,Nat.zero_le _,rfl,rfl,rfl⟩

theorem eq_of_mod_eq {a b : ℕ} (ha : a ≤ q) (hb : b ≤ 2 * q) (h : a % q = b % q) :
    b = a ∨ b = a + q ∨ b = a + 2 * q ∨ b + q = a := by
  have hda := Nat.div_add_mod a q
  have hdb := Nat.div_add_mod b q
  rcases Nat.eq_zero_or_pos q with rfl | hq
  · omega
  have hka : a / q ≤ 1 := Nat.div_le_of_le_mul (by omega)
  have hkb : b / q ≤ 2 := Nat.div_le_of_le_mul (by omega)
  generalize a / q = i at hda hka
  generalize b / q = j at hdb hkb
  have hturns : (i = 0 ∨ i = 1) ∧ (j = 0 ∨ j = 1 ∨ j = 2) := by omega
  rcases hturns with ⟨rfl | rfl,rfl | rfl | rfl⟩ <;> omega

/-- How far the next free cell is from the head. -/
theorem Stream.tail_cases (h : Stream q m head tail free xs) :
    head + xs.length = tail ∨ head + xs.length = tail + q ∨ head + xs.length = tail + 2 * q ∨
      head + xs.length + q = tail :=
  eq_of_mod_eq h.tail_le (by have := h.head_le; have := h.size; omega) h.tail_mod

/-- Only the residue of the next free cell counts. -/
theorem Stream.retail (h : Stream q m head tail free xs) {tail' : ℕ} (hle : tail' ≤ q)
    (hmod : tail' % q = tail % q) : Stream q m head tail' free xs :=
  ⟨h.head_le,hle,h.size,hmod.trans h.tail_mod,h.held⟩

theorem window_residue {p p' : ℕ} (h : p' % q = p % q) (m : ℕ → α) (n : ℕ) :
    window q m p' n = window q m p n := by
  apply List.map_congr_left
  intro i _
  rw [Nat.add_mod,h,← Nat.add_mod]

theorem Stream.rehead (h : Stream q m head tail free xs) {head' : ℕ} (hle : head' ≤ q)
    (hmod : head' % q = head % q) : Stream q m head' tail free xs := by
  refine ⟨hle,h.tail_le,h.size,?_,?_⟩
  · rw [h.tail_mod,Nat.add_mod,← hmod,← Nat.add_mod]
  · rw [window_residue hmod,h.held]

theorem Stream.wrap_tail (h : Stream q m head tail free xs) (heq : tail = q) :
    Stream q m head 0 free xs := h.retail (Nat.zero_le _) (by rw [heq]; simp)

theorem Stream.wrap_head (h : Stream q m head tail free xs) (heq : head = q) :
    Stream q m 0 tail free xs := h.rehead (Nat.zero_le _) (by rw [heq]; simp)

/-- A block that ends in front of the end of the ring is copied in one piece. -/
theorem Stream.put (h : Stream q m head tail free xs) (ys : List α) (ht : tail < q) (hfit : tail + ys.length ≤ q)
    (hroom : ys.length ≤ free) :
    Stream q (blit m tail ys) head (tail + ys.length) (free - ys.length) (xs ++ ys) := by
  have hsize := h.size
  have hmod : tail = (head + xs.length) % q := by rw [← h.tail_mod,Nat.mod_eq_of_lt ht]
  refine ⟨h.head_le,hfit,by simp; omega,?_,?_⟩
  · rw [List.length_append,← Nat.add_assoc,Nat.add_mod,h.tail_mod,← Nat.add_mod]
  · rw [List.length_append,window_blit (by omega) hmod hfit (by omega),h.held]

/-- A block in front of the end of the ring is read in one piece. -/
theorem Stream.get (h : Stream q m head tail free xs) (hh : head < q) (hfit : head + n ≤ q)
    (hn : n ≤ xs.length) :
    cells m head n = xs.take n ∧ Stream q m (head + n) tail (free + n) (xs.drop n) := by
  have hmod : head % q = head := Nat.mod_eq_of_lt hh
  have hsize := h.size
  constructor
  · rw [← h.held,window_take m head hn,window_block m (by omega),hmod]
    rfl
  · refine ⟨hfit,h.tail_le,by simp; omega,?_,?_⟩
    · rw [h.tail_mod,List.length_drop]
      congr 1
      omega
    · rw [List.length_drop,← window_drop m head hn,h.held]

/-- A block is copied up to the end of the ring and the rest of it to the start. -/
theorem Stream.put_split (h : Stream q m head tail free xs) (ys : List α) (ht : tail < q) (hroom : ys.length ≤ free) :
    Stream q (blit (blit m tail (ys.take (q - tail))) 0 (ys.drop (q - tail))) head
      ((tail + ys.length) % q) (free - ys.length) (xs ++ ys) := by
  have hsize := h.size
  rcases Nat.lt_or_ge (q - tail) ys.length with hlt | hge
  · have hfront : (ys.take (q - tail)).length = q - tail := by
      rw [List.length_take,Nat.min_eq_left hlt.le]
    have hback : (ys.drop (q - tail)).length = ys.length - (q - tail) := List.length_drop
    have hput := (h.put (ys.take (q - tail)) ht (by omega) (by omega)).wrap_tail (by omega)
    have hrest := hput.put (ys.drop (q - tail)) (by omega) (by omega) (by omega)
    have hfree : free - (q - tail) - (ys.length - (q - tail)) = free - ys.length := by omega
    have hturn : (tail + ys.length) % q = ys.length - (q - tail) := by
      rw [show tail + ys.length = ys.length - (q - tail) + q by omega,Nat.add_mod_right,
        Nat.mod_eq_of_lt (by omega)]
    rw [List.append_assoc,List.take_append_drop,hfront,hback,hfree,Nat.zero_add] at hrest
    rw [hturn]
    exact hrest
  · rw [List.take_of_length_le hge,List.drop_of_length_le hge,blit_nil]
    exact (h.put ys ht (by omega) hroom).retail (Nat.mod_lt _ (by omega)).le (Nat.mod_mod _ _)

/-- A block is read up to the end of the ring and the rest of it from the start. -/
theorem Stream.get_split (h : Stream q m head tail free xs) (hh : head < q) (hn : n ≤ xs.length) :
    cells m head (min n (q - head)) ++ cells m 0 (n - min n (q - head)) = xs.take n ∧
      Stream q m ((head + n) % q) tail (free + n) (xs.drop n) := by
  have hsize := h.size
  rcases Nat.lt_or_ge (q - head) n with hlt | hge
  · rw [Nat.min_eq_right hlt.le]
    obtain ⟨hfront,hmid⟩ := h.get (n := q - head) hh (by omega) (by omega)
    obtain ⟨hback,hrest⟩ := (hmid.wrap_head (by omega)).get (n := n - (q - head)) (by omega) (by omega)
      (by rw [List.length_drop]; omega)
    have hsum : q - head + (n - (q - head)) = n := by omega
    rw [List.drop_drop,Nat.add_assoc,hsum] at hrest
    have hturn : (head + n) % q = 0 + (n - (q - head)) := by
      rw [show head + n = n - (q - head) + q by omega,Nat.add_mod_right,Nat.mod_eq_of_lt (by omega)]
      omega
    rw [hfront,hback,← List.take_add,hsum,hturn]
    exact ⟨rfl,hrest⟩
  · rw [Nat.min_eq_left hge,Nat.sub_self]
    obtain ⟨hread,hrest⟩ := h.get (n := n) hh (by omega) hn
    refine ⟨?_,hrest.rehead (Nat.mod_lt _ (by omega)).le (Nat.mod_mod _ _)⟩
    rw [← hread]
    simp [cells]

end FmacSdk.RingStream
