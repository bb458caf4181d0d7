import Mathlib.Algebra.BigOperators.Group.Finset.Piecewise
import Mathlib.Algebra.Order.BigOperators.Group.Finset
import Mathlib.Data.Fintype.BigOperators

/-! # Weights of places summed over those who stand there

Each of finitely many actors is at a place, and each place has a weight. A move
of one actor changes the sum by the difference of two weights.
-/
namespace FmacSdk.Tally
variable {ι α : Type*} [Fintype ι] {w : α → ℕ} {f g : ι → α} {i j : ι} {a : α}

def tally (w : α → ℕ) (f : ι → α) : ℕ := ∑ i, w (f i)

theorem tally_congr (h : ∀ i, w (f i) = w (g i)) : tally w f = tally w g :=
  Finset.sum_congr rfl fun i _ => h i

theorem tally_update [DecidableEq ι] (w : α → ℕ) (f : ι → α) (i : ι) (a : α) :
    tally w (Function.update f i a) + w (f i) = tally w f + w a := by
  have hrest : ∑ j ∈ Finset.univ.erase i, w (Function.update f i a j) = ∑ j ∈ Finset.univ.erase i, w (f j) :=
    Finset.sum_congr rfl fun j hj => by rw [Function.update_of_ne (Finset.ne_of_mem_erase hj)]
  have hnew := Finset.sum_erase_add Finset.univ (fun j => w (Function.update f i a j)) (Finset.mem_univ i)
  have hold := Finset.sum_erase_add Finset.univ (fun j => w (f j)) (Finset.mem_univ i)
  rw [Function.update_self] at hnew
  unfold tally
  omega

theorem sum_update [DecidableEq ι] (n : ι → ℕ) (i : ι) (k : ℕ) :
    ∑ j, Function.update n i k j + n i = ∑ j, n j + k := tally_update id n i k

theorem le_tally (w : α → ℕ) (f : ι → α) (i : ι) : w (f i) ≤ tally w f :=
  Finset.single_le_sum (f := fun i => w (f i)) (fun _ _ => Nat.zero_le _) (Finset.mem_univ i)

/-- A weight of one stands at one place. -/
theorem eq_of_tally_le_one (h : tally w f ≤ 1) (hi : 0 < w (f i)) (hj : 0 < w (f j)) : i = j := by
  classical
  by_contra hne
  have hpair : ∑ k ∈ ({i,j} : Finset ι), w (f k) ≤ tally w f :=
    Finset.sum_le_sum_of_subset (Finset.subset_univ _)
  rw [Finset.sum_pair hne] at hpair
  omega

end FmacSdk.Tally
