import Mathlib.Data.List.Basic

/-! # A list read as a concatenation of blocks

A sequence that follows a concatenation of nonempty blocks is always a number of
whole blocks and a proper part of the next one. One further element either
extends the part or completes the block.
-/
namespace FmacSdk.Blocks
variable {α : Type*} {blocks : List (List α)} {xs p : List α} {j k m : ℕ}

/-- The first `k` blocks in a row. -/
def upTo (blocks : List (List α)) (k : ℕ) : List α := (blocks.take k).flatten

theorem upTo_succ {f : List α} (h : blocks[k]? = some f) : upTo blocks (k + 1) = upTo blocks k ++ f := by
  simp [upTo,List.take_add_one,h]

theorem upTo_length_le (blocks : List (List α)) (h : j ≤ k) : (upTo blocks j).length ≤ (upTo blocks k).length := by
  obtain ⟨d,rfl⟩ := Nat.exists_eq_add_of_le h
  simp [upTo,List.take_add]

/-- Nonempty blocks make later boundaries strictly later. -/
theorem upTo_length_lt (hne : ∀ f ∈ blocks, f ≠ []) (h : j < k) (hk : k ≤ blocks.length) :
    (upTo blocks j).length < (upTo blocks k).length := by
  obtain ⟨f,hget⟩ : ∃ f, blocks[j]? = some f := ⟨_,List.getElem?_eq_getElem (Nat.lt_of_lt_of_le h hk)⟩
  have hpos := List.length_pos_iff.mpr (hne f (List.mem_of_getElem? hget))
  have hle := upTo_length_le blocks (show j + 1 ≤ k by omega)
  rw [upTo_succ hget,List.length_append] at hle
  omega

/-- `xs` is `k` whole blocks and a proper part `p` of the next one. -/
structure Progress (blocks : List (List α)) (xs : List α) (k : ℕ) (p : List α) : Prop where
  split : xs = upTo blocks k ++ p
  le : k ≤ blocks.length
  part : p = [] ∨ ∃ f, blocks[k]? = some f ∧ p <+: f ∧ p.length < f.length

theorem progress_start (blocks : List (List α)) : Progress blocks [] 0 [] := ⟨rfl,Nat.zero_le _,Or.inl rfl⟩

theorem Progress.length_eq (h : Progress blocks xs k p) : xs.length = (upTo blocks k).length + p.length := by
  rw [h.split,List.length_append]

/-- The next element belongs to the next block. -/
theorem Progress.next (h : Progress blocks xs k p) (hne : ∀ f ∈ blocks, f ≠ []) {b : α}
    (hx : xs ++ [b] <+: blocks.flatten) : ∃ f, blocks[k]? = some f ∧ p ++ [b] <+: f := by
  have hflat : blocks.flatten = upTo blocks k ++ (blocks.drop k).flatten := by
    rw [upTo, ← List.flatten_append,List.take_append_drop]
  rw [h.split,hflat,List.append_assoc,List.prefix_append_right_inj] at hx
  cases hd : blocks.drop k with
  | nil => simp [hd] at hx
  | cons f rest =>
    have hk : blocks[k]? = some f := by
      have := congrArg List.head? hd
      rwa [List.head?_drop] at this
    refine ⟨f,hk,?_⟩
    have hlen : p.length < f.length := by
      rcases h.part with rfl | ⟨g,hg,_,hlt⟩
      · exact List.length_pos_iff.mpr (hne f (List.mem_of_getElem? hk))
      · obtain rfl : f = g := by simpa [hk] using hg
        exact hlt
    rw [hd,List.flatten_cons] at hx
    exact List.prefix_of_prefix_length_le hx (List.prefix_append _ _) (by simpa [Nat.add_one_le_iff] using hlen)

/-- The element completes the block. -/
theorem Progress.complete (h : Progress blocks xs k p) {b : α} (hf : blocks[k]? = some (p ++ [b])) :
    Progress blocks (xs ++ [b]) (k + 1) [] := by
  refine ⟨?_,?_,Or.inl rfl⟩
  · rw [upTo_succ hf,h.split]
    simp
  · exact (List.getElem?_eq_some_iff.mp hf).1

/-- The element extends the part. -/
theorem Progress.extend (h : Progress blocks xs k p) {b : α} {f : List α} (hf : blocks[k]? = some f)
    (hp : p ++ [b] <+: f) (hn : (p ++ [b]).length < f.length) : Progress blocks (xs ++ [b]) k (p ++ [b]) :=
  ⟨by rw [h.split,List.append_assoc],h.le,Or.inr ⟨f,hf,hp,hn⟩⟩

/-- Whole blocks contained in the sequence are among the completed ones. -/
theorem Progress.le_of_length (h : Progress blocks xs k p) (hne : ∀ f ∈ blocks, f ≠ [])
    (hm : m ≤ blocks.length) (hlen : (upTo blocks m).length ≤ xs.length) : m ≤ k := by
  by_contra hlt
  have hkm : k + 1 ≤ m := by omega
  obtain ⟨f,hget⟩ : ∃ f, blocks[k]? = some f := ⟨_,List.getElem?_eq_getElem (Nat.lt_of_lt_of_le hkm hm)⟩
  have hpart : p.length < f.length := by
    rcases h.part with rfl | ⟨g,hg,_,hlt⟩
    · exact List.length_pos_iff.mpr (hne f (List.mem_of_getElem? hget))
    · obtain rfl : f = g := by simpa [hget] using hg
      exact hlt
  have hle := upTo_length_le blocks hkm
  rw [upTo_succ hget,List.length_append] at hle
  have := h.length_eq
  omega

/-- At a boundary there is no part. -/
theorem Progress.part_nil (h : Progress blocks xs k p) (hne : ∀ f ∈ blocks, f ≠ [])
    (hm : m ≤ blocks.length) (hx : xs = upTo blocks m) : p = [] := by
  have hmk := h.le_of_length hne hm (Nat.le_of_eq (by rw [hx]))
  have hle := upTo_length_le blocks hmk
  have hlen := h.length_eq
  rw [hx] at hlen
  exact List.length_eq_zero_iff.mp (by omega)

end FmacSdk.Blocks
