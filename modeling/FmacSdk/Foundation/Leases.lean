import Mathlib.Data.List.Basic

/-! # Resources claimed by calls

A log, newest event first, of calls that claim a resource and return it to their
caller or fail, and of releases. A resource is held by the call that claimed it
last, until the resource is released or the call fails.
-/
namespace FmacSdk.Leases
variable {R I ε : Type*}

inductive Event (R I ε : Type*)
  | claimed (i : I) (r : R)
  | returned (i : I) (result : Except ε R)
  | released (r : R)
deriving DecidableEq

variable [DecidableEq R] [DecidableEq I]

def holder (r : R) : List (Event R I ε) → Option I
  | [] => none
  | .claimed i q :: log => if q = r then some i else holder r log
  | .returned i (.error _) :: log => if holder r log = some i then none else holder r log
  | .returned _ (.ok _) :: log => holder r log
  | .released q :: log => if q = r then none else holder r log

/-- Only what nobody holds is claimed. -/
def Exclusive (log : List (Event R I ε)) : Prop :=
  ∀ post i r pre, log = post ++ .claimed i r :: pre → holder r pre = none

variable {r q : R} {i j : I} {log : List (Event R I ε)}

@[simp] theorem holder_nil : holder r ([] : List (Event R I ε)) = none := rfl
@[simp] theorem holder_ok : holder r (.returned i (.ok q) :: log) = holder r log := rfl
theorem holder_error {e : ε} : holder r (.returned i (.error e) :: log) =
    if holder r log = some i then none else holder r log := rfl

@[simp] theorem holder_claimed_self : holder r (.claimed i r :: log) = some i := if_pos rfl
@[simp] theorem holder_released_self : holder r (.released r :: log) = none := if_pos rfl
theorem holder_claimed_of_ne (h : q ≠ r) : holder r (.claimed i q :: log) = holder r log := if_neg h
theorem holder_released_of_ne (h : q ≠ r) : holder r (.released q :: log) = holder r log := if_neg h
theorem holder_error_of_ne {e : ε} (h : holder r log ≠ some i) :
    holder r (.returned i (.error e) :: log) = holder r log := if_neg h

/-- A failing call holds nothing, and no other call loses what it holds. -/
theorem holder_error_eq_some {e : ε} :
    holder r (.returned i (.error e) :: log) = some j ↔ holder r log = some j ∧ j ≠ i := by
  rw [holder_error]
  split
  · next h => simp +contextual [h,eq_comm]
  · next h =>
    constructor
    · intro hj
      exact ⟨hj,fun he => h (he ▸ hj)⟩
    · exact And.left

/-- An event that ends the hold of `i` on `r`. -/
def Ends (i : I) (r : R) (e : Event R I ε) : Prop :=
  e = .released r ∨ (∃ err, e = .returned i (.error err)) ∨ ∃ j, e = .claimed j r

/-- Who claimed it, with no release, no failure and no other claim since. -/
theorem holder_eq_some_iff : holder r log = some i ↔
    ∃ post pre, log = post ++ .claimed i r :: pre ∧ ∀ e ∈ post, ¬ Ends i r e := by
  induction log with
  | nil => simp
  | cons e log ih =>
    have hcons (hkeep : holder r (e :: log) = some i ↔ holder r log = some i) (he : ¬ Ends i r e) :
        holder r (e :: log) = some i ↔
          ∃ post pre, e :: log = post ++ .claimed i r :: pre ∧ ∀ e ∈ post, ¬ Ends i r e := by
      rw [hkeep,ih]
      constructor
      · rintro ⟨post,pre,rfl,hpost⟩
        exact ⟨e :: post,pre,rfl,List.forall_mem_cons.mpr ⟨he,hpost⟩⟩
      · rintro ⟨post,pre,heq,hpost⟩
        cases post with
        | nil => exact absurd (Or.inr (Or.inr ⟨i,(List.cons.inj heq).1⟩)) he
        | cons e' post => exact ⟨post,pre,(List.cons.inj heq).2,(List.forall_mem_cons.mp hpost).2⟩
    have hends (hlose : holder r (e :: log) ≠ some i) (he : Ends i r e) (hne : e ≠ .claimed i r) :
        holder r (e :: log) = some i ↔
          ∃ post pre, e :: log = post ++ .claimed i r :: pre ∧ ∀ e ∈ post, ¬ Ends i r e := by
      refine iff_of_false hlose ?_
      rintro ⟨post,pre,heq,hpost⟩
      cases post with
      | nil => exact hne (List.cons.inj heq).1
      | cons e' post =>
        obtain rfl := (List.cons.inj heq).1
        exact hpost e List.mem_cons_self he
    cases e with
    | claimed j q =>
      by_cases hq : q = r
      · subst hq
        by_cases hj : j = i
        · subst hj
          exact iff_of_true holder_claimed_self ⟨[],log,rfl,by simp⟩
        · exact hends (by simpa using hj) (Or.inr (Or.inr ⟨j,rfl⟩)) (by simpa using hj)
      · exact hcons (by rw [holder_claimed_of_ne hq]) (by simpa [Ends] using hq)
    | returned j result =>
      cases result with
      | ok q => exact hcons (by rw [holder_ok]) (by simp [Ends])
      | error err =>
        by_cases hj : j = i
        · subst hj
          exact hends (fun h => (holder_error_eq_some.mp h).2 rfl) (Or.inr (Or.inl ⟨err,rfl⟩)) (by simp)
        · exact hcons (by simp [holder_error_eq_some,Ne.symm hj]) (by simpa [Ends] using hj)
    | released q =>
      by_cases hq : q = r
      · subst hq
        exact hends (by simp) (Or.inl rfl) (by simp)
      · exact hcons (by rw [holder_released_of_ne hq]) (by simpa [Ends] using hq)

theorem Exclusive.nil : Exclusive ([] : List (Event R I ε)) := by
  intro post i r pre h
  simp at h

theorem Exclusive.cons {e : Event R I ε} (h : Exclusive log)
    (he : ∀ i r, e = .claimed i r → holder r log = none) : Exclusive (e :: log) := by
  intro post i r pre heq
  cases post with
  | nil =>
    obtain ⟨he',rfl⟩ := List.cons.inj heq
    exact he i r he'
  | cons e' post => exact h post i r pre (List.cons.inj heq).2

/-- Between two claims of a resource the first one ends. -/
theorem Exclusive.ended (h : Exclusive log) {post mid pre : List (Event R I ε)}
    (hlog : log = post ++ .claimed j r :: (mid ++ .claimed i r :: pre)) :
    ∃ e ∈ mid, Ends i r e := by
  by_contra hnone
  have hheld : holder r (mid ++ .claimed i r :: pre) = some i :=
    holder_eq_some_iff.mpr ⟨mid,pre,rfl,fun e he hends => hnone ⟨e,he,hends⟩⟩
  rw [h post j r _ hlog] at hheld
  simp at hheld

end FmacSdk.Leases
