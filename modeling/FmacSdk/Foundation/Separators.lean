import Mathlib.Data.List.Basic
import Mathlib.Data.List.Infix

/-! # Cutting at a separator

A list is cut at the first place where the separator occurs, and again behind it, until
no place or no piece is left. The pieces with the separator between them are the list.
-/
namespace FmacSdk.Separators
section Cuts
variable {α : Type*} [DecidableEq α] {p s t u v : List α} {k : ℕ}

/-- What is in front of the first occurrence of the separator, and what is behind it. -/
def cut (p : List α) : List α → Option (List α × List α)
  | [] => none
  | c :: s =>
    if p <+: c :: s then some ([],(c :: s).drop p.length) else (cut p s).map fun w => (c :: w.1,w.2)

theorem cut_eq_some (h : cut p s = some (u,v)) : s = u ++ (p ++ v) := by
  induction s generalizing u with
  | nil => simp [cut] at h
  | cons c s ih =>
    rw [cut] at h
    split_ifs at h with hocc
    · obtain ⟨rfl,rfl⟩ := Prod.mk.inj (Option.some.inj h)
      exact (List.prefix_iff_eq_append.mp hocc).symm
    · obtain ⟨w,hw,heq⟩ := Option.map_eq_some_iff.mp h
      obtain ⟨rfl,rfl⟩ := Prod.mk.inj heq
      rw [List.cons_append,← ih hw]

/-- The piece that is cut off has no occurrence. -/
theorem not_infix_of_cut (hp : p ≠ []) (h : cut p s = some (u,v)) : ¬ p <:+: u := by
  induction s generalizing u with
  | nil => simp [cut] at h
  | cons c s ih =>
    rw [cut] at h
    split_ifs at h with hocc
    · obtain ⟨rfl,_⟩ := Prod.mk.inj (Option.some.inj h)
      simpa using hp
    · obtain ⟨w,hw,heq⟩ := Option.map_eq_some_iff.mp h
      obtain ⟨rfl,rfl⟩ := Prod.mk.inj heq
      intro hin
      rcases List.infix_cons_iff.mp hin with hfront | hrest
      · apply hocc
        rw [cut_eq_some hw]
        exact hfront.trans (List.prefix_append (c :: w.1) _)
      · exact ih hw hrest

theorem cut_eq_none (hp : p ≠ []) (h : cut p s = none) : ¬ p <:+: s := by
  induction s with
  | nil => simpa using hp
  | cons c s ih =>
    rw [cut] at h
    split_ifs at h with hocc
    intro hin
    rcases List.infix_cons_iff.mp hin with hfront | hrest
    · exact hocc hfront
    · exact ih (Option.map_eq_none_iff.mp h) hrest

/-- At most `k` cuts, and none behind which nothing is left. -/
def pieces (p : List α) : ℕ → List α → List (List α)
  | 0, s => [s]
  | k + 1, s =>
    match cut p s with
    | none => [s]
    | some (u,v) => if v = [] then [u] else u :: pieces p k v

theorem pieces_uncut (k : ℕ) (h : cut p s = none) : pieces p (k + 1) s = [s] := by rw [pieces,h]

theorem pieces_ended (k : ℕ) (h : cut p s = some (u,[])) : pieces p (k + 1) s = [u] := by
  rw [pieces,h]
  exact if_pos rfl

theorem pieces_cut (k : ℕ) (h : cut p s = some (u,v)) (hv : v ≠ []) : pieces p (k + 1) s = u :: pieces p k v := by
  rw [pieces,h]
  exact if_neg hv

/-- Induction on the cuts: none is allowed, none is found, one ends the list, one leaves a rest. -/
theorem pieces_induction (p : List α) {C : ℕ → List α → Prop} (zero : ∀ s, C 0 s)
    (uncut : ∀ k s, cut p s = none → C (k + 1) s) (ended : ∀ k s u, cut p s = some (u,[]) → C (k + 1) s)
    (step : ∀ k s u v, cut p s = some (u,v) → v ≠ [] → C k v → C (k + 1) s) (k : ℕ) (s : List α) : C k s := by
  induction k generalizing s with
  | zero => exact zero s
  | succ k ih =>
    cases hcut : cut p s with
    | none => exact uncut k s hcut
    | some w =>
      obtain ⟨u,v⟩ := w
      by_cases hv : v = []
      · exact ended k s u (hv ▸ hcut)
      · exact step k s u v hcut hv (ih v)

theorem pieces_ne_nil (p : List α) (k : ℕ) (s : List α) : pieces p k s ≠ [] := by
  induction k, s using pieces_induction p with
  | zero s => simp [pieces]
  | uncut k s hcut => simp [pieces_uncut k hcut]
  | ended k s u hcut => simp [pieces_ended k hcut]
  | step k s u v hcut hv ih => simp [pieces_cut k hcut hv]

theorem pieces_length_le (p : List α) (k : ℕ) (s : List α) : (pieces p k s).length ≤ k + 1 := by
  induction k, s using pieces_induction p with
  | zero s => simp [pieces]
  | uncut k s hcut => simp [pieces_uncut k hcut]
  | ended k s u hcut => simp [pieces_ended k hcut]
  | step k s u v hcut hv ih =>
    rw [pieces_cut k hcut hv,List.length_cons]
    exact Nat.succ_le_succ ih

/-- Nothing is lost but a separator that nothing follows. -/
theorem pieces_join (p : List α) (k : ℕ) (s : List α) :
    p.intercalate (pieces p k s) = s ∨ p.intercalate (pieces p k s) ++ p = s := by
  induction k, s using pieces_induction p with
  | zero s => simp [pieces]
  | uncut k s hcut => simp [pieces_uncut k hcut]
  | ended k s u hcut =>
    right
    rw [pieces_ended k hcut,cut_eq_some hcut]
    simp
  | step k s u v hcut hv ih =>
    rw [pieces_cut k hcut hv,List.intercalate_cons_of_ne_nil (pieces_ne_nil p k v),cut_eq_some hcut]
    rcases ih with hjoin | hjoin
    · left
      rw [hjoin,List.append_assoc]
    · right
      rw [List.append_assoc,List.append_assoc,hjoin]

theorem not_infix_of_mem_pieces (hp : p ≠ []) (ht : t ∈ (pieces p k s).dropLast) : ¬ p <:+: t := by
  induction k, s using pieces_induction p with
  | zero s => simp [pieces] at ht
  | uncut k s hcut => simp [pieces_uncut k hcut] at ht
  | ended k s u hcut => simp [pieces_ended k hcut] at ht
  | step k s u v hcut hv ih =>
    rw [pieces_cut k hcut hv,List.dropLast_cons_of_ne_nil (pieces_ne_nil p k v)] at ht
    rcases List.mem_cons.mp ht with rfl | hrest
    · exact not_infix_of_cut hp hcut
    · exact ih hrest

/-- The last piece has an occurrence only where no cut was left. -/
theorem length_of_infix_last (hp : p ≠ []) (hlast : t ∈ (pieces p k s).getLast?) (hin : p <:+: t) :
    (pieces p k s).length = k + 1 := by
  induction k, s using pieces_induction p with
  | zero s => simp [pieces]
  | uncut k s hcut =>
    obtain rfl : s = t := by simpa [pieces_uncut k hcut] using hlast
    exact absurd hin (cut_eq_none hp hcut)
  | ended k s u hcut =>
    obtain rfl : u = t := by simpa [pieces_ended k hcut] using hlast
    exact absurd hin (not_infix_of_cut hp hcut)
  | step k s u v hcut hv ih =>
    rw [pieces_cut k hcut hv] at hlast ⊢
    rw [List.getLast?_cons_of_ne_nil (pieces_ne_nil p k v)] at hlast
    rw [List.length_cons,ih hlast]

omit [DecidableEq α] in
theorem nil_of_cons_eq_append {c : α} (hu : c ∉ u) (h : c :: u = t ++ c :: v) : t = [] ∧ u = v := by
  cases t with
  | nil => exact ⟨rfl,(List.cons.inj h).2⟩
  | cons d t =>
    refine absurd ?_ hu
    rw [(List.cons.inj h).2]
    exact List.mem_append_right t List.mem_cons_self

omit [DecidableEq α] in
/-- The last separator, behind which there is none, determines the two pieces. -/
theorem last_separator_inj {c : α} (hu : c ∉ u) (hv : c ∉ v) (h : s ++ c :: u = t ++ c :: v) : s = t ∧ u = v := by
  rcases List.append_eq_append_iff.mp h with ⟨w,rfl,hw⟩ | ⟨w,rfl,hw⟩
  · obtain ⟨rfl,rfl⟩ := nil_of_cons_eq_append hu hw
    exact ⟨(List.append_nil s).symm,rfl⟩
  · obtain ⟨rfl,rfl⟩ := nil_of_cons_eq_append hv hw
    exact ⟨List.append_nil t,rfl⟩

end Cuts

end FmacSdk.Separators
