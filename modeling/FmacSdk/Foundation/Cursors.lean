import Mathlib.Data.List.Basic
import Mathlib.Data.List.Nodup

/-! # A cursor into a list that is edited

A walk over a list keeps the key of the element it is to go on with, while elements are
put in front, changed or erased. As long as that element itself is not erased, nothing
comes to be ahead of the cursor that was not there before.
-/
namespace FmacSdk.Cursors
variable {α κ : Type*}

/-- The first element with the property is changed. -/
def modifyFirst (p : α → Bool) (f : α → α) : List α → List α
  | [] => []
  | a :: l => if p a then f a :: l else a :: modifyFirst p f l

variable {p : α → Bool} {f : α → α} {a b : α} {l : List α}

theorem mem_modifyFirst (h : b ∈ modifyFirst p f l) : b ∈ l ∨ ∃ a ∈ l, p a = true ∧ b = f a := by
  induction l with
  | nil => exact absurd h List.not_mem_nil
  | cons a l ih =>
    unfold modifyFirst at h
    split at h
    · next hp =>
      rcases List.mem_cons.mp h with rfl | h
      · exact Or.inr ⟨a,List.mem_cons_self,hp,rfl⟩
      · exact Or.inl (List.mem_cons_of_mem a h)
    · rcases List.mem_cons.mp h with rfl | h
      · exact Or.inl List.mem_cons_self
      · rcases ih h with h | ⟨c,hc,hp,rfl⟩
        · exact Or.inl (List.mem_cons_of_mem a h)
        · exact Or.inr ⟨c,List.mem_cons_of_mem a hc,hp,rfl⟩

theorem map_modifyFirst {γ : Type*} {g : α → γ} (hg : ∀ a, g (f a) = g a) : (modifyFirst p f l).map g = l.map g := by
  induction l with
  | nil => rfl
  | cons a l ih =>
    unfold modifyFirst
    split
    · exact congrArg (· :: l.map g) (hg a)
    · exact congrArg (g a :: ·) ih

/-! ## The list from the cursor on -/

variable [DecidableEq κ] (key : α → κ)

/-- Nothing where the element is gone. -/
def ahead (l : List α) : Option κ → List α
  | none => []
  | some n => l.dropWhile fun a => key a ≠ n

/-- The cursor at the first element. -/
def cursor (l : List α) : Option κ := l.head?.map key

/-- The cursor is at an element or behind the last one. -/
def Held (l : List α) (c : Option κ) : Prop := ∀ n ∈ c, ∃ a ∈ l, key a = n

variable {key} {c : Option κ}

theorem ahead_suffix : ahead key l c <:+ l := by
  cases c with
  | none => exact List.nil_suffix
  | some n => exact List.dropWhile_suffix _

theorem ahead_cons (h : some (key a) ≠ c) : ahead key (a :: l) c = ahead key l c := by
  cases c with
  | none => rfl
  | some n =>
    have hne : key a ≠ n := fun heq => h (congrArg some heq)
    simp [ahead,hne]

theorem ahead_self : ahead key (a :: l) (some (key a)) = a :: l := by
  simp [ahead]

theorem ahead_ne_nil (h : a ∈ l) : ahead key l (some (key a)) ≠ [] := by
  induction l with
  | nil => exact absurd h List.not_mem_nil
  | cons d l ih =>
    by_cases hd : key d = key a
    · rw [← hd,ahead_self]
      exact List.cons_ne_nil d l
    · rw [ahead_cons fun heq => hd (Option.some.inj heq)]
      rcases List.mem_cons.mp h with rfl | h
      · exact absurd rfl hd
      · exact ih h

theorem mem_ahead_eraseP (h : ∀ a ∈ l, p a = true → some (key a) ≠ c) (hb : b ∈ ahead key (l.eraseP p) c) :
    b ∈ ahead key l c := by
  cases c with
  | none => exact hb
  | some n =>
    induction l with
    | nil => exact hb
    | cons a l ih =>
      have hrest := fun a' ha' => h a' (List.mem_cons_of_mem a ha')
      by_cases hp : p a = true
      · rw [List.eraseP_cons_of_pos hp] at hb
        rwa [ahead_cons (h a List.mem_cons_self hp)]
      · rw [List.eraseP_cons_of_neg hp] at hb
        by_cases hn : some (key a) = some n
        · rw [← hn,ahead_self] at hb
          rw [← hn,ahead_self]
          exact (List.eraseP_sublist.cons_cons a).subset hb
        · rw [ahead_cons hn] at hb ⊢
          exact ih hrest hb

theorem mem_ahead_modifyFirst (hkey : ∀ a, key (f a) = key a) (hb : b ∈ ahead key (modifyFirst p f l) c) :
    b ∈ ahead key l c ∨ ∃ a ∈ ahead key l c, p a = true ∧ b = f a := by
  cases c with
  | none => exact absurd hb List.not_mem_nil
  | some n =>
    induction l with
    | nil => exact absurd hb List.not_mem_nil
    | cons a l ih =>
      by_cases hn : some (key a) = some n
      · rw [← hn,ahead_self]
        exact mem_modifyFirst (ahead_suffix.subset hb)
      · rw [ahead_cons hn]
        unfold modifyFirst at hb
        split at hb
        · have hn' : some (key (f a)) ≠ some n := (hkey a).symm ▸ hn
          rw [ahead_cons hn'] at hb
          exact Or.inl hb
        · rw [ahead_cons hn] at hb
          exact ih hb

/-- The cursor is put at what is ahead of it. -/
theorem ahead_cursor (hnodup : (l.map key).Nodup) {post : List α} (h : post <:+ l) : ahead key l (cursor key post) = post := by
  obtain ⟨pre,rfl⟩ := h
  cases post with
  | nil => rfl
  | cons a post =>
    induction pre with
    | nil => exact ahead_self
    | cons d pre ih =>
      obtain ⟨hd,hnodup⟩ := List.nodup_cons.mp hnodup
      have hne : some (key d) ≠ cursor key (a :: post) := by
        intro heq
        obtain hda : key d = key a := Option.some.inj heq
        exact hd (List.mem_map.mpr ⟨a,List.mem_append_right pre List.mem_cons_self,hda.symm⟩)
      exact (ahead_cons hne).trans (ih hnodup)

omit [DecidableEq κ] in
theorem Held.cursor {post : List α} (h : post <:+ l) : Held key l (cursor key post) := by
  intro n hn
  obtain ⟨a,ha,rfl⟩ := Option.map_eq_some_iff.mp hn
  exact ⟨a,h.subset (List.mem_of_head? ha),rfl⟩

omit [DecidableEq κ] in
theorem Held.cons (h : Held key l c) : Held key (a :: l) c := by
  intro n hn
  obtain ⟨b,hb,hkey⟩ := h n hn
  exact ⟨b,List.mem_cons_of_mem a hb,hkey⟩

omit [DecidableEq κ] in
theorem Held.modifyFirst (hkey : ∀ a, key (f a) = key a) (h : Held key l c) : Held key (modifyFirst p f l) c := by
  intro n hn
  obtain ⟨b,hb,rfl⟩ := h n hn
  have hmem : key b ∈ (Cursors.modifyFirst p f l).map key := by
    rw [map_modifyFirst hkey]
    exact List.mem_map.mpr ⟨b,hb,rfl⟩
  obtain ⟨d,hd,heq⟩ := List.mem_map.mp hmem
  exact ⟨d,hd,heq⟩

omit [DecidableEq κ] in
theorem Held.eraseP (hkeep : ∀ a ∈ l, p a = true → some (key a) ≠ c) (h : Held key l c) : Held key (l.eraseP p) c := by
  intro n hn
  obtain ⟨b,hb,rfl⟩ := h n hn
  have hp : ¬ p b = true := fun hp => hkeep b hb hp hn.symm
  exact ⟨b,(List.mem_eraseP_of_neg hp).mpr hb,rfl⟩

end FmacSdk.Cursors
