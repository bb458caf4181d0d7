import Mathlib.Data.List.Nodup
import Mathlib.Data.List.Count
import Mathlib.Logic.Function.Basic

/-! # Numbering equal elements

Each element of a list with the number of equal ones in front of it. The pairs are
distinct; names made of them are distinct unless a numbered one is also a plain one.
-/
namespace FmacSdk.Ranks
section Ranks
variable {α β : Type*} [BEq α] {past l : List α} {a b : α} {k : ℕ}

/-- The ranks of a list behind the elements of `past`. -/
def ranksAfter (past : List α) : List α → List (α × ℕ)
  | [] => []
  | a :: l => (a,past.count a) :: ranksAfter (a :: past) l

def ranks (l : List α) : List (α × ℕ) := ranksAfter [] l

/-- What a dictionary with the last number of each element holds behind `past`. -/
def lastRank (past : List α) (a : α) : Option ℕ := if past.count a = 0 then none else some (past.count a - 1)

theorem lastRank_nil : lastRank ([] : List α) = fun _ => none := by
  funext a
  simp [lastRank]

variable [LawfulBEq α]

theorem mem_ranksAfter : (b,k) ∈ ranksAfter past l ↔ past.count b ≤ k ∧ k < past.count b + l.count b := by
  induction l generalizing past with
  | nil => simp [ranksAfter]
  | cons a l ih =>
    rw [ranksAfter,List.mem_cons,ih,Prod.mk.injEq]
    by_cases hab : a = b
    · subst hab
      simp only [List.count_cons_self,true_and]
      omega
    · have hba : ¬ b = a := fun h => hab h.symm
      rw [List.count_cons_of_ne hab,List.count_cons_of_ne hab]
      simp only [hba,false_and,false_or]

theorem nodup_ranksAfter (past l : List α) : (ranksAfter past l).Nodup := by
  induction l generalizing past with
  | nil => exact List.nodup_nil
  | cons a l ih =>
    refine List.nodup_cons.mpr ⟨fun hmem => ?_,ih (a :: past)⟩
    have hlater := (mem_ranksAfter.mp hmem).1
    rw [List.count_cons_self] at hlater
    omega

theorem mem_ranks : (a,k) ∈ ranks l ↔ k < l.count a := by
  rw [ranks,mem_ranksAfter]
  simp

theorem nodup_ranks (l : List α) : (ranks l).Nodup := nodup_ranksAfter [] l

theorem lastRank_cons [DecidableEq α] (past : List α) (a : α) :
    lastRank (a :: past) = Function.update (lastRank past) a (some (past.count a)) := by
  funext b
  by_cases hb : b = a
  · subst hb
    simp [lastRank]
  · rw [Function.update_of_ne hb,lastRank,lastRank,List.count_cons_of_ne (Ne.symm hb)]

/-- Where plain names are those of equal elements only, and so are numbered ones, two names
are equal exactly if one is plain and one is numbered. -/
theorem nodup_names_iff (name : α → ℕ → β) (hplain : ∀ a b, name a 0 = name b 0 → a = b)
    (hnumber : ∀ a b j k, name a (j + 1) = name b (k + 1) → a = b ∧ j = k) (l : List α) :
    ((ranks l).map fun p => name p.1 p.2).Nodup ↔
      ∀ a ∈ l, ∀ b ∈ l, ∀ k < l.count b, 0 < k → name a 0 ≠ name b k := by
  rw [List.nodup_map_iff_inj_on (nodup_ranks l)]
  constructor
  · intro hinj a ha b _ k hk hpos hname
    have hfirst : (a,0) ∈ ranks l := mem_ranks.mpr (List.count_pos_iff.mpr ha)
    have hpair := hinj (a,0) hfirst (b,k) (mem_ranks.mpr hk) hname
    exact absurd (Prod.mk.inj hpair).2 (Nat.ne_of_lt hpos)
  · rintro hclash ⟨a,j⟩ haj ⟨b,k⟩ hbk hname
    have haj := mem_ranks.mp haj
    have hbk := mem_ranks.mp hbk
    have ha : a ∈ l := List.count_pos_iff.mp (by omega)
    have hb : b ∈ l := List.count_pos_iff.mp (by omega)
    cases j with
    | zero =>
      cases k with
      | zero => rw [hplain a b hname]
      | succ k => exact absurd hname (hclash a ha b hb (k + 1) hbk k.succ_pos)
    | succ j =>
      cases k with
      | zero => exact absurd hname.symm (hclash b hb a ha (j + 1) haj j.succ_pos)
      | succ k =>
        obtain ⟨rfl,rfl⟩ := hnumber a b j k hname
        rfl

end Ranks

end FmacSdk.Ranks
