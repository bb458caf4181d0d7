import Mathlib.Data.List.Sort
import Mathlib.Data.List.Nodup

/-! # Lists ordered by a key

A new element goes in front of the first element with a larger key, behind all
those with its own. A list that was ordered stays so, and the others keep the
order they had.
-/
namespace FmacSdk.WaitList
variable {α : Type*}

/-- Put `e` in front of the first element with the property, or at the end. -/
def insertBefore (f : α → Bool) (e : α) : List α → List α
  | [] => [e]
  | x :: l => if f x then e :: x :: l else x :: insertBefore f e l

variable {f : α → Bool} {e x : α} {l : List α} {key : α → ℕ}

theorem insertBefore_eq (f : α → Bool) (e : α) (l : List α) :
    insertBefore f e l = l.takeWhile (fun x => !f x) ++ e :: l.dropWhile (fun x => !f x) := by
  induction l with
  | nil => rfl
  | cons x l ih =>
    by_cases hx : f x <;> simp [insertBefore,hx,ih]

/-- Only the answers for the elements of the list matter. -/
theorem insertBefore_congr {g : α → Bool} (h : ∀ x ∈ l, f x = g x) : insertBefore f e l = insertBefore g e l := by
  induction l with
  | nil => rfl
  | cons x l ih =>
    rw [insertBefore,insertBefore,h x List.mem_cons_self,ih fun y hy => h y (List.mem_cons_of_mem _ hy)]

theorem insertBefore_perm (f : α → Bool) (e : α) (l : List α) : (insertBefore f e l).Perm (e :: l) := by
  rw [insertBefore_eq]
  refine List.perm_middle.trans ?_
  rw [List.takeWhile_append_dropWhile]

@[simp] theorem mem_insertBefore : x ∈ insertBefore f e l ↔ x = e ∨ x ∈ l := by
  rw [(insertBefore_perm f e l).mem_iff,List.mem_cons]

theorem insertBefore_nodup (hl : l.Nodup) (he : e ∉ l) : (insertBefore f e l).Nodup :=
  (insertBefore_perm f e l).nodup_iff.mpr (List.nodup_cons.mpr ⟨he,hl⟩)

/-- Ordered by the key, smallest first. -/
def Ordered (key : α → ℕ) (l : List α) : Prop := l.Pairwise fun x y => key x ≤ key y

theorem ordered_congr {key' : α → ℕ} (h : Ordered key l) (heq : ∀ x ∈ l, key' x = key x) :
    Ordered key' l := by
  refine List.Pairwise.imp_of_mem ?_ h
  intro x y hx hy hle
  rw [heq x hx,heq y hy]
  exact hle

theorem Ordered.sublist {l' : List α} (h : Ordered key l) (hsub : l'.Sublist l) : Ordered key l' :=
  List.Pairwise.sublist hsub h

/-- The first element has the least key. -/
theorem Ordered.head_le (h : Ordered key (x :: l)) {y : α} (hy : y ∈ x :: l) : key x ≤ key y := by
  rcases List.mem_cons.mp hy with rfl | hy
  · exact le_rfl
  · exact List.rel_of_pairwise_cons h hy

theorem Ordered.insert (h : Ordered key l) (e : α) :
    Ordered key (insertBefore (fun x => key e < key x) e l) := by
  induction l with
  | nil => exact List.pairwise_singleton ..
  | cons x l ih =>
    unfold insertBefore
    split_ifs with hx
    · have hlt : key e < key x := by simpa using hx
      refine List.pairwise_cons.mpr ⟨?_,h⟩
      intro y hy
      exact hlt.le.trans (h.head_le hy)
    · have hle : key x ≤ key e := by simpa using hx
      refine List.pairwise_cons.mpr ⟨?_,ih (List.Pairwise.of_cons h)⟩
      intro y hy
      rcases mem_insertBefore.mp hy with rfl | hy
      · exact hle
      · exact List.rel_of_pairwise_cons h hy

/-- An element is taken with those in front of it when all of them pass the test. -/
theorem Ordered.mem_takeWhile (h : Ordered key l) (hx : x ∈ l) (hf : ∀ y ∈ l, key y ≤ key x → f y = true) :
    x ∈ l.takeWhile f := by
  induction l with
  | nil => cases hx
  | cons y l ih =>
    rw [List.takeWhile_cons_of_pos (hf y List.mem_cons_self (h.head_le hx))]
    rcases List.mem_cons.mp hx with rfl | hx
    · exact List.mem_cons_self
    · exact List.mem_cons_of_mem _ (ih h.of_cons hx fun z hz => hf z (List.mem_cons_of_mem _ hz))

/-- In front of what is left there is one that does not pass the test. -/
theorem Ordered.mem_dropWhile (h : Ordered key l) (hx : x ∈ l.dropWhile f) :
    ∃ y ∈ l, f y = false ∧ key y ≤ key x := by
  induction l with
  | nil => cases hx
  | cons y l ih =>
    by_cases hy : f y = true
    · rw [List.dropWhile_cons_of_pos hy] at hx
      obtain ⟨z,hz,hfz,hle⟩ := ih h.of_cons hx
      exact ⟨z,List.mem_cons_of_mem _ hz,hfz,hle⟩
    · rw [List.dropWhile_cons_of_neg hy] at hx
      exact ⟨y,List.mem_cons_self,by simpa using hy,h.head_le hx⟩

/-- Among equal keys the newcomer is the last. -/
theorem Ordered.insert_eq (h : Ordered key l) (e : α) :
    insertBefore (fun x => key e < key x) e l =
      l.filter (fun x => key x ≤ key e) ++ e :: l.filter (fun x => key e < key x) := by
  induction l with
  | nil => rfl
  | cons x l ih =>
    unfold insertBefore
    split_ifs with hx
    · have hlt : key e < key x := by simpa using hx
      have hall : ∀ y ∈ x :: l, key e < key y := fun y hy => hlt.trans_le (h.head_le hy)
      have hnone : (x :: l).filter (fun y => key y ≤ key e) = [] := by
        rw [List.filter_eq_nil_iff]
        intro y hy
        simpa using hall y hy
      have hsome : (x :: l).filter (fun y => key e < key y) = x :: l := by
        rw [List.filter_eq_self]
        intro y hy
        simpa using hall y hy
      rw [hnone,hsome]
      rfl
    · have hle : key x ≤ key e := by simpa using hx
      rw [ih (List.Pairwise.of_cons h)]
      simp [hle,hx]

end FmacSdk.WaitList
