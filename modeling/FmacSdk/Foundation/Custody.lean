import Mathlib.Data.List.Nodup
import Mathlib.Data.List.Perm.Basic

/-! # Numbered items that change hands

A family of lists: the items that each place has. Items are numbered as they come
up and are handed from place to place, so that each is in one place, once.
-/
namespace FmacSdk.Custody
variable {P : Type*} {f g : P → List ℕ} {n b : ℕ} {p q : P}

/-- The items below `n` are in one place each. -/
structure Kept (f : P → List ℕ) (n : ℕ) : Prop where
  nodup : ∀ p, (f p).Nodup
  unique : ∀ p q b, b ∈ f p → b ∈ f q → p = q
  mem_iff : ∀ b, (∃ p, b ∈ f p) ↔ b < n

/-- Two places share their items anew. -/
structure Handed (f g : P → List ℕ) (p q : P) : Prop where
  ne : p ≠ q
  perm : (g p ++ g q).Perm (f p ++ f q)
  other : ∀ r, r ≠ p → r ≠ q → g r = f r

/-- A place gets a new item. -/
structure Added (f g : P → List ℕ) (p : P) (b : ℕ) : Prop where
  perm : (g p).Perm (b :: f p)
  other : ∀ r, r ≠ p → g r = f r

theorem Handed.mem_or (h : Handed f g p q) : b ∈ g p ∨ b ∈ g q ↔ b ∈ f p ∨ b ∈ f q := by
  simpa using h.perm.mem_iff (a := b)

theorem Handed.mem_iff (h : Handed f g p q) : (∃ r, b ∈ g r) ↔ ∃ r, b ∈ f r := by
  have hor : (b ∈ g p ∨ b ∈ g q) ↔ (b ∈ f p ∨ b ∈ f q) := h.mem_or
  constructor
  · rintro ⟨r,hr⟩
    by_cases hp : r = p
    · obtain hf | hf := hor.mp (Or.inl (hp ▸ hr))
      exacts [⟨p,hf⟩,⟨q,hf⟩]
    · by_cases hq : r = q
      · obtain hf | hf := hor.mp (Or.inr (hq ▸ hr))
        exacts [⟨p,hf⟩,⟨q,hf⟩]
      · exact ⟨r,h.other r hp hq ▸ hr⟩
  · rintro ⟨r,hr⟩
    by_cases hp : r = p
    · obtain hg | hg := hor.mpr (Or.inl (hp ▸ hr))
      exacts [⟨p,hg⟩,⟨q,hg⟩]
    · by_cases hq : r = q
      · obtain hg | hg := hor.mpr (Or.inr (hq ▸ hr))
        exacts [⟨p,hg⟩,⟨q,hg⟩]
      · exact ⟨r,(h.other r hp hq).symm ▸ hr⟩

theorem Kept.none (h : ∀ p, f p = []) : Kept f 0 := by
  refine ⟨fun p => ?_,fun p q b hb => ?_,fun b => ?_⟩ <;> simp_all

theorem Kept.lt (h : Kept f n) (hb : b ∈ f p) : b < n := (h.mem_iff b).mp ⟨p,hb⟩

theorem Kept.fresh (h : Kept f n) (p : P) : n ∉ f p := fun hn => Nat.lt_irrefl n (h.lt hn)

theorem Kept.handed (h : Kept f n) (hh : Handed f g p q) : Kept g n := by
  have hdisjoint : (f p).Disjoint (f q) := fun b hp hq => hh.ne (h.unique p q b hp hq)
  have hnodup : (g p ++ g q).Nodup :=
    hh.perm.nodup_iff.mpr (List.nodup_append'.mpr ⟨h.nodup p,h.nodup q,hdisjoint⟩)
  obtain ⟨hp,hq,hapart⟩ := List.nodup_append'.mp hnodup
  have hback {b : ℕ} (hb : b ∈ g p ∨ b ∈ g q) {r : P} (hrp : r ≠ p) (hrq : r ≠ q) : b ∉ g r := by
    rw [hh.other r hrp hrq]
    intro hr
    rcases hh.mem_or.mp hb with hf | hf
    · exact hrp (h.unique r p b hr hf)
    · exact hrq (h.unique r q b hr hf)
  have hshared {b : ℕ} {r r' : P} (hpair : r = p ∨ r = q) (hr : b ∈ g r) (hr' : b ∈ g r') : r = r' := by
    by_contra hne
    rcases hpair with rfl | rfl
    · by_cases hq' : r' = q
      · exact hapart hr (hq' ▸ hr')
      · exact hback (Or.inl hr) (Ne.symm hne) hq' hr'
    · by_cases hp' : r' = p
      · exact hapart (hp' ▸ hr') hr
      · exact hback (Or.inr hr) hp' (Ne.symm hne) hr'
  refine ⟨fun r => ?_,fun r r' b hr hr' => ?_,fun b => hh.mem_iff.trans (h.mem_iff b)⟩
  · by_cases hrp : r = p
    · exact hrp ▸ hp
    · by_cases hrq : r = q
      · exact hrq ▸ hq
      · exact hh.other r hrp hrq ▸ h.nodup r
  · by_cases hpair : r = p ∨ r = q
    · exact hshared hpair hr hr'
    · by_cases hpair' : r' = p ∨ r' = q
      · exact (hshared hpair' hr' hr).symm
      · push Not at hpair hpair'
        rw [hh.other r hpair.1 hpair.2] at hr
        rw [hh.other r' hpair'.1 hpair'.2] at hr'
        exact h.unique r r' b hr hr'

theorem Added.mem_self (h : Added f g p b) {c : ℕ} : c ∈ g p ↔ c = b ∨ c ∈ f p := by
  rw [h.perm.mem_iff,List.mem_cons]

theorem Kept.added (h : Kept f n) (ha : Added f g p n) : Kept g (n + 1) := by
  have hmem {b : ℕ} {r : P} (hr : b ∈ g r) : b = n ∧ r = p ∨ b ∈ f r := by
    by_cases hrp : r = p
    · obtain rfl := hrp
      exact (ha.mem_self.mp hr).imp_left fun hb => ⟨hb,rfl⟩
    · exact Or.inr (ha.other r hrp ▸ hr)
  refine ⟨fun r => ?_,fun r r' b hr hr' => ?_,fun b => ?_⟩
  · by_cases hrp : r = p
    · rw [hrp,ha.perm.nodup_iff]
      exact List.nodup_cons.mpr ⟨h.fresh p,h.nodup p⟩
    · exact ha.other r hrp ▸ h.nodup r
  · rcases hmem hr with ⟨rfl,rfl⟩ | hf <;> rcases hmem hr' with ⟨hb,hp⟩ | hf'
    · exact hp.symm
    · exact absurd hf' (h.fresh r')
    · exact absurd (hb ▸ hf) (h.fresh r)
    · exact h.unique r r' b hf hf'
  · rw [Nat.lt_succ_iff_lt_or_eq,← h.mem_iff]
    constructor
    · rintro ⟨r,hr⟩
      rcases hmem hr with ⟨hb,-⟩ | hf
      exacts [Or.inr hb,Or.inl ⟨r,hf⟩]
    · rintro (⟨r,hr⟩ | rfl)
      · by_cases hrp : r = p
        · exact ⟨p,ha.mem_self.mpr (Or.inr (hrp ▸ hr))⟩
        · exact ⟨r,(ha.other r hrp).symm ▸ hr⟩
      · exact ⟨p,ha.mem_self.mpr (Or.inl rfl)⟩

end FmacSdk.Custody
