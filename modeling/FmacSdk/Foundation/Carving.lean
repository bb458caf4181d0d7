import Mathlib.Logic.Function.Basic
import Mathlib.Order.Nat

/-! # Blocks carved off one end of an area

Keys are given blocks of an area from its base up, each above those before it. A
block ends where the next block that is not empty begins, or at the top.
-/
namespace FmacSdk.Carving
variable {K : Type*} {base top : ℕ} {block : K → Option (ℕ × ℕ)} {k k' : K} {a n a' n' : ℕ}

structure Carved (base top : ℕ) (block : K → Option (ℕ × ℕ)) : Prop where
  le : base ≤ top
  inside : ∀ k a n, block k = some (a,n) → base ≤ a ∧ a + n ≤ top
  apart : ∀ k k' a n a' n', k ≠ k' → block k = some (a,n) → block k' = some (a',n') → a + n ≤ a' ∨ a' + n' ≤ a
  next : ∀ k a n, block k = some (a,n) → a + n = top ∨ ∃ k' n', block k' = some (a + n,n') ∧ 0 < n'

theorem Carved.empty (h : base ≤ top) : Carved base top (fun _ : K => none) := by
  constructor <;> simp [h]

theorem Carved.push [DecidableEq K] (h : Carved base top block) (hk : block k = none) (n : ℕ) :
    Carved base (top + n) (Function.update block k (some (top,n))) := by
  have hself : Function.update block k (some (top,n)) k = some (top,n) := Function.update_self ..
  have hold {k' : K} {a' n' : ℕ} (hk' : block k' = some (a',n')) :
      Function.update block k (some (top,n)) k' = some (a',n') := by
    have hne : k' ≠ k := by
      rintro rfl
      simp [hk] at hk'
    rw [Function.update_of_ne hne,hk']
  have hcases {k' : K} {a' n' : ℕ} (hk' : Function.update block k (some (top,n)) k' = some (a',n')) :
      k' = k ∧ a' = top ∧ n' = n ∨ block k' = some (a',n') := by
    by_cases hne : k' = k
    · rw [hne,hself] at hk'
      obtain ⟨rfl,rfl⟩ := Prod.mk.inj (Option.some.inj hk')
      exact Or.inl ⟨hne,rfl,rfl⟩
    · rw [Function.update_of_ne hne] at hk'
      exact Or.inr hk'
  refine ⟨h.le.trans (Nat.le_add_right ..),fun k' a' n' hk' => ?_,fun k₁ k₂ a₁ n₁ a₂ n₂ hne h₁ h₂ => ?_,
    fun k' a' n' hk' => ?_⟩
  · rcases hcases hk' with ⟨-,rfl,rfl⟩ | hk'
    · exact ⟨h.le,le_rfl⟩
    · have := h.inside k' a' n' hk'
      omega
  · rcases hcases h₁ with ⟨rfl,rfl,rfl⟩ | hold₁
    · rcases hcases h₂ with ⟨rfl,-,-⟩ | hold₂
      · exact absurd rfl hne
      · exact Or.inr (h.inside _ _ _ hold₂).2
    · rcases hcases h₂ with ⟨rfl,rfl,rfl⟩ | hold₂
      · exact Or.inl (h.inside _ _ _ hold₁).2
      · exact h.apart _ _ _ _ _ _ hne hold₁ hold₂
  · rcases hcases hk' with ⟨-,rfl,rfl⟩ | hk'
    · exact Or.inl rfl
    · rcases h.next k' a' n' hk' with htop | ⟨k'',n'',hk'',hpos⟩
      · rcases Nat.eq_zero_or_pos n with rfl | hn
        · exact Or.inl htop
        · exact Or.inr ⟨k,n,htop ▸ hself,hn⟩
      · exact Or.inr ⟨k'',n'',hold hk'',hpos⟩

/-- A range that does not fit in its block meets another block, or leaves the area. -/
theorem Carved.exceeds (h : Carved base top block) (hk : block k = some (a,n)) {m : ℕ} (hm : n < m) :
    top < a + m ∨ ∃ k' n', k' ≠ k ∧ block k' = some (a + n,n') ∧ 0 < n' := by
  rcases h.next k a n hk with htop | ⟨k',n',hk',hpos⟩
  · left
    omega
  · refine Or.inr ⟨k',n',?_,hk',hpos⟩
    rintro rfl
    obtain ⟨ha,hn⟩ := Prod.mk.inj (Option.some.inj (hk.symm.trans hk'))
    omega

end FmacSdk.Carving
