import FmacSdk.Foundation.ByteMemory

/-! # Blocks in an address space that wraps

A buffer is read as blocks of `n` cells. An engine that goes through it block by
block, in place or into a buffer that is clear of it, maps its blocks.
-/
namespace FmacSdk.BlockMemory
open ByteMemory
variable {w : ℕ} {β : Type*} {m m' : Memory w β} {a b src dst x : BitVec w} {n k l : ℕ}

/-- None of the `k` cells from `a` is one of the `l` cells from `b`. -/
def Clear (a : BitVec w) (k : ℕ) (b : BitVec w) (l : ℕ) : Prop :=
  ∀ i < k, ∀ j < l, a + BitVec.ofNat w i ≠ b + BitVec.ofNat w j

/-- The cell is not one of the `k` cells from `a`. -/
def Off (x a : BitVec w) (k : ℕ) : Prop := ∀ j < k, x ≠ a + BitVec.ofNat w j

instance : Decidable (Clear a k b l) := inferInstanceAs (Decidable (∀ i < k, ∀ j < l, _))

instance : Decidable (Off x a k) := inferInstanceAs (Decidable (∀ j < k, _))

theorem Off.head {d : ℕ} (h : Off x a k) (hd : d ≤ k) : Off x a d := fun j hj => h j (hj.trans_le hd)

theorem Off.rest {d : ℕ} (h : Off x a (d + k)) : Off x (a + BitVec.ofNat w d) k := by
  intro j hj
  rw [add_ofNat_add]
  exact h (d + j) (Nat.add_lt_add_left hj d)

theorem Clear.symm (h : Clear a k b l) : Clear b l a k := fun i hi j hj heq => h j hj i hi heq.symm

theorem Clear.first {k' l' : ℕ} (h : Clear a k b l) (hk : k' ≤ k) (hl : l' ≤ l) : Clear a k' b l' :=
  fun i hi j hj => h i (hi.trans_le hk) j (hj.trans_le hl)

theorem Clear.rest_left {d : ℕ} (h : Clear a (d + k) b l) : Clear (a + BitVec.ofNat w d) k b l := by
  intro i hi j hj
  rw [add_ofNat_add]
  exact h (d + i) (Nat.add_lt_add_left hi d) j hj

theorem Clear.rest_right {d : ℕ} (h : Clear a k b (d + l)) : Clear a k (b + BitVec.ofNat w d) l :=
  h.symm.rest_left.symm

/-- A run is clear of what is in front of it. -/
theorem clear_rest {d : ℕ} (hk : d + k ≤ 2 ^ w) : Clear (a + BitVec.ofNat w d) k a d := by
  intro i hi j hj
  rw [add_ofNat_add]
  exact fun heq => absurd ((add_ofNat_inj (by omega) (by omega)).mp heq) (by omega)

/-- A run that does not cover the space. -/
theorem Clear.lt (h : Clear a 1 b l) : l < 2 ^ w := by
  obtain ⟨j,hj,heq⟩ := exists_offset b (a + BitVec.ofNat w 0)
  by_contra hl
  exact h 0 Nat.one_pos j (by omega) heq

/-! ## One block -/

def readBlock (n : ℕ) (m : Memory w β) (a : BitVec w) : Fin n → β := fun i => m (a + BitVec.ofNat w i)

def writeBlock [NeZero n] (m : Memory w β) (a : BitVec w) (c : Fin n → β) : Memory w β :=
  writeRun m a (fun j => c (Fin.ofNat n j)) n

theorem readBlock_congr (h : ∀ i < n, m (a + BitVec.ofNat w i) = m' (b + BitVec.ofNat w i)) :
    readBlock n m a = readBlock n m' b := by
  funext i
  exact h i i.isLt

theorem readBlock_writeBlock [NeZero n] (hn : n ≤ 2 ^ w) (c : Fin n → β) :
    readBlock n (writeBlock m a c) a = c := by
  funext i
  have hi := i.isLt
  refine (writeRun_start hn (hi.trans_le hn)).trans ((if_pos hi).trans (congrArg c ?_))
  exact Fin.ext (Nat.mod_eq_of_lt hi)

theorem writeBlock_outside [NeZero n] {c : Fin n → β} (h : Off x a n) :
    writeBlock m a c x = m x := writeRun_outside h

def blocks (n : ℕ) (m : Memory w β) (a : BitVec w) : ℕ → List (Fin n → β)
  | 0 => []
  | k + 1 => readBlock n m a :: blocks n m (a + BitVec.ofNat w n) k

theorem size_succ (n k : ℕ) : n * (k + 1) = n + n * k := (Nat.mul_succ n k).trans (Nat.add_comm _ _)

theorem blocks_congr (h : ∀ i < n * k, m (a + BitVec.ofNat w i) = m' (b + BitVec.ofNat w i)) :
    blocks n m a k = blocks n m' b k := by
  induction k generalizing a b with
  | zero => rfl
  | succ k ih =>
    rw [size_succ] at h
    have hhead : readBlock n m a = readBlock n m' b := readBlock_congr fun i hi => h i (by omega)
    refine congrArg₂ List.cons hhead (ih fun i hi => ?_)
    rw [add_ofNat_add,add_ofNat_add]
    exact h (n + i) (by omega)

/-- The engine: block after block from `src` to `dst`. -/
def mapBlocks [NeZero n] (f : (Fin n → β) → (Fin n → β)) (m : Memory w β) (src dst : BitVec w) : ℕ → Memory w β
  | 0 => m
  | k + 1 => mapBlocks f (writeBlock m dst (f (readBlock n m src))) (src + BitVec.ofNat w n)
      (dst + BitVec.ofNat w n) k

theorem mapBlocks_outside [NeZero n] {f : (Fin n → β) → (Fin n → β)}
    (h : Off x dst (n * k)) : mapBlocks f m src dst k x = m x := by
  induction k generalizing m src dst with
  | zero => rfl
  | succ k ih =>
    rw [size_succ] at h
    exact (ih h.rest).trans (writeBlock_outside (h.head (Nat.le_add_right n _)))

theorem blocks_mapBlocks [NeZero n] {f : (Fin n → β) → (Fin n → β)} (hk : n * k ≤ 2 ^ w)
    (hsrc : src = dst ∨ Clear src (n * k) dst (n * k)) :
    blocks n (mapBlocks f m src dst k) dst k = (blocks n m src k).map f := by
  induction k generalizing m src dst with
  | zero => rfl
  | succ k ih =>
    rw [size_succ] at hk hsrc
    let m₁ := writeBlock m dst (f (readBlock n m src))
    have hdst : Clear (dst + BitVec.ofNat w n) (n * k) dst n := clear_rest hk
    -- what is still to be read is not written yet
    have hsrc₁ : Clear (src + BitVec.ofNat w n) (n * k) dst n := by
      rcases hsrc with rfl | hsrc
      · exact hdst
      · exact hsrc.rest_left.first le_rfl (by omega)
    have hnext : src + BitVec.ofNat w n = dst + BitVec.ofNat w n ∨
        Clear (src + BitVec.ofNat w n) (n * k) (dst + BitVec.ofNat w n) (n * k) := by
      rcases hsrc with rfl | hsrc
      · exact Or.inl rfl
      · exact Or.inr (hsrc.rest_left.rest_right)
    have hhead : readBlock n (mapBlocks f m src dst (k + 1)) dst = f (readBlock n m src) := by
      have hwrite : readBlock n m₁ dst = f (readBlock n m src) := readBlock_writeBlock (by omega) _
      refine (readBlock_congr fun i hi => ?_).trans hwrite
      exact mapBlocks_outside fun j hj => hdst.symm i hi j hj
    have hrest : blocks n m₁ (src + BitVec.ofNat w n) k = blocks n m (src + BitVec.ofNat w n) k :=
      blocks_congr fun i hi => writeBlock_outside fun j hj => hsrc₁ i hi j hj
    have htail := (ih (by omega) hnext : blocks n (mapBlocks f m₁ _ _ k) _ k = _)
    exact congrArg₂ List.cons hhead (htail.trans (congrArg (List.map f) hrest))

end FmacSdk.BlockMemory
