import Mathlib.Data.List.FinRange
import Mathlib.Data.Set.Card
import Mathlib.Data.Set.Insert
import Mathlib.Logic.Function.Basic

/-! # Tables with a mark for free slots

A table of fixed size in which one value marks the slots that are free. The
values of the other slots are what it stores, and a value is erased by freeing
the first slot that holds it, which is enough where no value stands twice.
-/
namespace FmacSdk.Slots
variable {n : ℕ} {α : Type*} {free a b : α} {t : Fin n → α}

/-- No value but the mark stands in two slots. -/
def Distinct (free : α) (t : Fin n → α) : Prop := ∀ i j, t i = t j → t i ≠ free → i = j

def stored (free : α) (t : Fin n → α) : Set α := {a | a ≠ free ∧ ∃ i, t i = a}

def firstSlot (p : Fin n → Bool) : Option (Fin n) := (List.finRange n).find? p

theorem firstSlot_some {p : Fin n → Bool} {i : Fin n} (h : firstSlot p = some i) : p i = true :=
  List.find?_some h

theorem firstSlot_none {p : Fin n → Bool} (h : firstSlot p = none) (i : Fin n) : p i = false := by
  simpa using List.find?_eq_none.mp h i (List.mem_finRange i)

/-- Filling one slot keeps a table distinct unless another slot holds the value. -/
theorem firstSlot_min {p : Fin n → Bool} {i j : Fin n} (h : firstSlot p = some i) (hj : j < i) :
    p j = false := by
  obtain ⟨-,before,after,happ,hfalse⟩ := List.find?_eq_some_iff_append.mp h
  have hsorted : (before ++ i :: after).Pairwise (· < ·) := happ ▸ List.pairwise_lt_finRange n
  have hmem : j ∈ before ++ i :: after := happ ▸ List.mem_finRange j
  rcases List.mem_append.mp hmem with hb | ha
  · simpa using hfalse j hb
  · rcases List.mem_cons.mp ha with rfl | ha
    · exact absurd hj (lt_irrefl _)
    · have := (List.pairwise_cons.mp (List.pairwise_append.mp hsorted).2.1).1 j ha
      exact absurd (hj.trans this) (lt_irrefl _)

theorem distinct_update_iff (h : Distinct free t) (i : Fin n) :
    Distinct free (Function.update t i a) ↔ a = free ∨ ∀ j ≠ i, t j ≠ a := by
  constructor
  · intro hnew
    by_cases ha : a = free
    · exact Or.inl ha
    · refine Or.inr fun j hj hja => hj ?_
      apply hnew j i
      · rw [Function.update_of_ne hj,Function.update_self,hja]
      · rwa [Function.update_of_ne hj,hja]
  · intro hfree j k hjk hj
    by_cases hji : j = i
    · by_cases hki : k = i
      · rw [hji,hki]
      · rw [hji,Function.update_self,Function.update_of_ne hki] at hjk
        rw [hji,Function.update_self] at hj
        exact absurd hjk.symm (hfree.resolve_left hj k hki)
    · rw [Function.update_of_ne hji] at hjk hj
      by_cases hki : k = i
      · rw [hki,Function.update_self] at hjk
        exact absurd hjk (hfree.resolve_left (hjk ▸ hj) j hji)
      · rw [Function.update_of_ne hki] at hjk
        exact h j k hjk hj

theorem Distinct.update_free (h : Distinct free t) (i : Fin n) :
    Distinct free (Function.update t i free) :=
  (distinct_update_iff h i).mpr (Or.inl rfl)

theorem Distinct.update_new (h : Distinct free t) (hnew : ∀ j, t j ≠ a) (i : Fin n) :
    Distinct free (Function.update t i a) :=
  (distinct_update_iff h i).mpr (Or.inr fun j _ => hnew j)

theorem stored_update_free (h : Distinct free t) {i : Fin n} (hi : t i = a) :
    stored free (Function.update t i free) = stored free t \ {a} := by
  ext b
  constructor
  · rintro ⟨hb,j,hj⟩
    have hji : j ≠ i := by
      rintro rfl
      rw [Function.update_self] at hj
      exact hb hj.symm
    rw [Function.update_of_ne hji] at hj
    refine ⟨⟨hb,j,hj⟩,fun hba => hji ?_⟩
    apply h j i
    · rw [hj,hi,Set.mem_singleton_iff.mp hba]
    · rwa [hj]
  · rintro ⟨⟨hb,j,hj⟩,hba⟩
    have hji : j ≠ i := by
      rintro rfl
      exact hba (hj.symm.trans hi)
    exact ⟨hb,j,by rw [Function.update_of_ne hji,hj]⟩

theorem stored_update_new {i : Fin n} (hi : t i = free) (ha : a ≠ free) :
    stored free (Function.update t i a) = insert a (stored free t) := by
  ext b
  constructor
  · rintro ⟨hb,j,hj⟩
    by_cases hji : j = i
    · rw [hji,Function.update_self] at hj
      exact Or.inl hj.symm
    · rw [Function.update_of_ne hji] at hj
      exact Or.inr ⟨hb,j,hj⟩
  · rintro (rfl | ⟨hb,j,hj⟩)
    · exact ⟨ha,i,Function.update_self ..⟩
    · have hji : j ≠ i := by
        rintro rfl
        exact hb (hj.symm.trans hi)
      exact ⟨hb,j,by rw [Function.update_of_ne hji,hj]⟩

/-- There is a free slot where fewer values are stored than there are slots. -/
theorem ncard_stored_lt_iff (h : Distinct free t) : (stored free t).ncard < n ↔ ∃ i, t i = free := by
  have himage : stored free t = t '' {i | t i ≠ free} := by
    ext b
    constructor
    · rintro ⟨hb,i,rfl⟩
      exact ⟨i,hb,rfl⟩
    · rintro ⟨i,hi,rfl⟩
      exact ⟨hi,i,rfl⟩
  have hcard : (stored free t).ncard = {i | t i ≠ free}.ncard := by
    rw [himage]
    exact Set.InjOn.ncard_image fun i hi j _ hij => h i j hij hi
  have huniv : (Set.univ : Set (Fin n)).ncard = n := by rw [Set.ncard_univ,Nat.card_fin]
  rw [hcard]
  constructor
  · intro hlt
    by_contra hfull
    have hall : {i | t i ≠ free} = Set.univ := Set.eq_univ_of_forall fun i hi => hfull ⟨i,hi⟩
    rw [hall,huniv] at hlt
    exact lt_irrefl _ hlt
  · rintro ⟨i,hi⟩
    have hss : {i | t i ≠ free} ⊂ Set.univ :=
      Set.ssubset_univ_iff.mpr fun hall => (hall ▸ Set.mem_univ i : i ∈ {i | t i ≠ free}) hi
    exact lt_of_lt_of_eq (Set.ncard_lt_ncard hss) huniv

section Erase
variable [DecidableEq α]

def eraseFirst (free : α) (t : Fin n → α) (a : α) : Fin n → α :=
  match firstSlot fun i => t i = a with
  | some i => Function.update t i free
  | none => t

theorem eraseFirst_distinct (h : Distinct free t) (a : α) : Distinct free (eraseFirst free t a) := by
  unfold eraseFirst
  split
  · exact h.update_free _
  · exact h

/-- One slot is enough where no value stands twice. -/
theorem stored_eraseFirst (h : Distinct free t) (a : α) :
    stored free (eraseFirst free t a) = stored free t \ {a} := by
  unfold eraseFirst
  split
  · rename_i i hi
    exact stored_update_free h (of_decide_eq_true (firstSlot_some hi))
  · rename_i hnone
    have hne (j : Fin n) : t j ≠ a := of_decide_eq_false (firstSlot_none hnone j)
    exact (Set.sdiff_singleton_eq_self fun hmem => hmem.2.elim hne).symm

end Erase

end FmacSdk.Slots
