import Mathlib.Data.Finset.Card

/-! # Posts and those who wait for them

Jobs post a counter when they end, and each waiter takes one post. Every post
not taken yet and every job under way was asked for by a waiter of its own.
-/
namespace FmacSdk.Signals
variable {J W : Type*} {posts : ℕ} {jobs : Finset J} {waiters : Finset W} {j : J} {w : W}

def Due (posts : ℕ) (jobs : Finset J) (waiters : Finset W) : Prop := posts + jobs.card ≤ waiters.card

theorem Due.none : Due 0 (∅ : Finset J) (∅ : Finset W) := le_rfl

/-- Where one waits alone, a job under way is its own and nothing is posted. -/
theorem Due.alone (h : Due posts jobs waiters) (hw : waiters ⊆ {w}) (hj : j ∈ jobs) :
    posts = 0 ∧ jobs = {j} := by
  have hone : waiters.card ≤ 1 := Finset.card_le_card hw
  have hpos : 0 < jobs.card := Finset.card_pos.mpr ⟨j,hj⟩
  unfold Due at h
  have hjobs : jobs.card = 1 := by omega
  obtain ⟨k,rfl⟩ := Finset.card_eq_one.mp hjobs
  obtain rfl := Finset.mem_singleton.mp hj
  exact ⟨by omega,rfl⟩

/-- A waiter whose job was refused waits all the same. -/
theorem Due.mono {waiters' : Finset W} (h : Due posts jobs waiters) (hw : waiters ⊆ waiters') :
    Due posts jobs waiters' := Nat.le_trans h (Finset.card_le_card hw)

theorem Due.start [DecidableEq J] [DecidableEq W] (h : Due posts jobs waiters) (hw : w ∉ waiters) :
    Due posts (insert j jobs) (insert w waiters) := by
  have hjobs : (insert j jobs).card ≤ jobs.card + 1 := Finset.card_insert_le j jobs
  unfold Due at h ⊢
  rw [Finset.card_insert_of_notMem hw]
  omega

/-- A job that ends is a post. -/
theorem Due.post [DecidableEq J] (h : Due posts jobs waiters) (hj : j ∈ jobs) :
    Due (posts + 1) (jobs.erase j) waiters := by
  have hjobs : (jobs.erase j).card + 1 = jobs.card := Finset.card_erase_add_one hj
  unfold Due at h ⊢
  omega

theorem Due.take [DecidableEq W] (h : Due (posts + 1) jobs waiters) (hw : w ∈ waiters) :
    Due posts jobs (waiters.erase w) := by
  have hwaiters : (waiters.erase w).card + 1 = waiters.card := Finset.card_erase_add_one hw
  unfold Due at h ⊢
  omega

end FmacSdk.Signals
