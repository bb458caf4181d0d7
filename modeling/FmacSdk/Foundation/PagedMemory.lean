import Mathlib.Data.List.Basic
import Mathlib.Logic.Function.Basic
import Mathlib.Data.Nat.Basic

/-! # Memory that is programmed page by page

A program command starts at an address and wraps inside the page of that
address; a cell combines its old content with the new one. On cells in the
erased state a command that stays in its page is a plain overlay, and overlays
of segments that tile a range make up the overlay of the range.
-/
namespace FmacSdk.PagedMemory
variable {α : Type*} {page : ℕ}

/-- Nonempty segments `(start, length)` in increasing order, without gap or
overlap, from `a` up to `b`. -/
def Tiles : ℕ → List (ℕ × ℕ) → ℕ → Prop
  | a, [], b => a = b
  | a, s :: rest, b => s.1 = a ∧ 0 < s.2 ∧ Tiles (a + s.2) rest b

theorem Tiles.le {a b : ℕ} {l : List (ℕ × ℕ)} (h : Tiles a l b) : a ≤ b := by
  induction l generalizing a with
  | nil => exact Nat.le_of_eq h
  | cons s rest ih =>
    have := ih h.2.2
    omega

theorem Tiles.mem_bounds {a b : ℕ} {l : List (ℕ × ℕ)} (h : Tiles a l b) {s : ℕ × ℕ} (hs : s ∈ l) :
    a ≤ s.1 ∧ 0 < s.2 ∧ s.1 + s.2 ≤ b := by
  induction l generalizing a with
  | nil => simp at hs
  | cons t rest ih =>
    obtain ⟨ht,hpos,hrest⟩ := h
    have hle := hrest.le
    rcases List.mem_cons.mp hs with rfl | hs
    · omega
    · have := ih hrest hs
      omega

/-- The slices of a list that belong to the segments make up one slice. -/
theorem Tiles.slices {a b base : ℕ} {l : List (ℕ × ℕ)} (h : Tiles a l b) (hbase : base ≤ a) (xs : List α) :
    (l.map fun s => (xs.drop (s.1 - base)).take s.2).flatten = (xs.drop (a - base)).take (b - a) := by
  induction l generalizing a with
  | nil =>
    obtain rfl : a = b := h
    simp
  | cons s rest ih =>
    obtain ⟨rfl,_,hrest⟩ := h
    have hle := hrest.le
    have hoff : s.1 + s.2 - base = s.1 - base + s.2 := by omega
    have hlen : b - s.1 = s.2 + (b - (s.1 + s.2)) := by omega
    rw [List.map_cons,List.flatten_cons,ih hrest (by omega),hoff,hlen,List.take_add,List.drop_drop]

/-- The segment does not pass the end of the page it starts in. -/
def InPage (page : ℕ) (s : ℕ × ℕ) : Prop := s.1 % page + s.2 ≤ page

theorem InPage.same_page {s : ℕ × ℕ} (h : InPage page s) {x : ℕ} (hs : s.1 ≤ x) (hx : x < s.1 + s.2) :
    x / page = s.1 / page := by
  unfold InPage at h
  obtain ⟨d,rfl⟩ := Nat.exists_eq_add_of_le hs
  have hpos : 0 < page := by omega
  have hd := Nat.div_add_mod s.1 page
  have : s.1 + d = page * (s.1 / page) + (s.1 % page + d) := by omega
  rw [this,Nat.mul_add_div hpos,Nat.div_eq_of_lt (show s.1 % page + d < page by omega),Nat.add_zero]

/-- The address behind `a` inside the page of `a`. -/
def nextInPage (page a : ℕ) : ℕ := a - a % page + (a + 1) % page

theorem nextInPage_eq (page a : ℕ) (h : a % page + 1 < page) :
    nextInPage page a = a + 1 ∧ (a + 1) % page = a % page + 1 := by
  have hmod : (a + 1) % page = a % page + 1 := by
    rw [Nat.add_mod,Nat.mod_eq_of_lt (show 1 < page by omega),Nat.mod_eq_of_lt h]
  have hle := Nat.mod_le a page
  refine ⟨?_,hmod⟩
  unfold nextInPage
  omega

section Program
variable (op : α → α → α) {e : α}

/-- One program command: each cell combines with the next element. -/
def program (page : ℕ) : (ℕ → α) → ℕ → List α → (ℕ → α)
  | m, _, [] => m
  | m, a, b :: bs => program page (Function.update m a (op (m a) b)) (nextInPage page a) bs

/-- Memory with `xs` laid over it from `a` on. -/
def overlay (m : ℕ → α) (a : ℕ) (xs : List α) : ℕ → α :=
  fun x => if a ≤ x then (xs[x - a]?).getD (m x) else m x

@[simp] theorem overlay_nil (m : ℕ → α) (a : ℕ) : overlay m a [] = m := by
  funext x
  simp [overlay]

/-- An overlay changes its range only. -/
theorem overlay_outside {m : ℕ → α} {a x : ℕ} {xs : List α} (h : x < a ∨ a + xs.length ≤ x) :
    overlay m a xs x = m x := by
  unfold overlay
  split
  · rw [List.getElem?_eq_none (by omega)]
    rfl
  · rfl

theorem overlay_inside {m : ℕ → α} {a i : ℕ} {xs : List α} (h : i < xs.length) :
    overlay m a xs (a + i) = xs[i] := by
  simp [overlay,h]

theorem overlay_append (m : ℕ → α) (a : ℕ) (xs ys : List α) :
    overlay (overlay m a xs) (a + xs.length) ys = overlay m a (xs ++ ys) := by
  funext x
  by_cases hx : x < a + xs.length
  · by_cases ha : a ≤ x
    · obtain ⟨i,rfl⟩ := Nat.exists_eq_add_of_le ha
      rw [overlay_outside (Or.inl hx),overlay_inside (by omega),overlay_inside (by simp; omega),
        List.getElem_append_left (by omega)]
    · rw [overlay_outside (Or.inl hx),overlay_outside (by omega),overlay_outside (by omega)]
  · obtain ⟨i,rfl⟩ := Nat.exists_eq_add_of_le (Nat.not_lt.mp hx)
    by_cases hi : i < ys.length
    · rw [overlay_inside hi,Nat.add_assoc,overlay_inside (by simp; omega),
        List.getElem_append_right (by omega)]
      simp
    · rw [overlay_outside (by omega),overlay_outside (by omega),overlay_outside (by simp; omega)]

theorem update_eq_overlay (m : ℕ → α) (a : ℕ) (b : α) : Function.update m a b = overlay m a [b] := by
  funext x
  rcases Nat.lt_trichotomy x a with hx | rfl | hx
  · rw [overlay_outside (Or.inl hx),Function.update_of_ne (by omega)]
  · simp [overlay]
  · rw [overlay_outside (Or.inr (by simp; omega)),Function.update_of_ne (by omega)]

variable {op}

/-- A command within its page on erased cells lays the data over the memory. -/
theorem program_erased (he : ∀ b, op e b = b) {m : ℕ → α} {a : ℕ} {bs : List α}
    (hin : a % page + bs.length ≤ page) (hm : ∀ x, a ≤ x → x < a + bs.length → m x = e) :
    program op page m a bs = overlay m a bs := by
  induction bs generalizing m a with
  | nil => simp [program]
  | cons b bs ih =>
    rw [program,hm a le_rfl (by simp),he,update_eq_overlay]
    rcases bs with _ | ⟨c,cs⟩
    · rfl
    · simp only [List.length_cons] at hin hm
      obtain ⟨hnext,hmod⟩ := nextInPage_eq page a (by omega)
      rw [hnext,ih (by simp only [List.length_cons]; omega)]
      · exact overlay_append m a [b] (c :: cs)
      · intro x hx hlt
        simp only [List.length_cons] at hlt
        rw [overlay_outside (Or.inr (by simpa using hx)),hm x (by omega) (by omega)]

/-- Commands that tile an erased range write it as a whole. -/
theorem fold_program (he : ∀ b, op e b = b) {m : ℕ → α} {a b : ℕ} {cs : List (ℕ × List α)}
    (ht : Tiles a (cs.map fun c => (c.1,c.2.length)) b)
    (hin : ∀ c ∈ cs, InPage page (c.1,c.2.length)) (hm : ∀ x, a ≤ x → x < b → m x = e) :
    cs.foldl (fun m c => program op page m c.1 c.2) m = overlay m a (cs.map Prod.snd).flatten := by
  induction cs generalizing m a with
  | nil => simp
  | cons c rest ih =>
    obtain ⟨ha,hpos,hrest⟩ := ht
    obtain ⟨c,xs⟩ := c
    simp only at ha hpos hrest
    subst ha
    have hb := hrest.le
    have hstep : program op page m c xs = overlay m c xs :=
      program_erased he (hin (c,xs) List.mem_cons_self) (fun x hx hlt => hm x hx (by omega))
    rw [List.foldl_cons,hstep,ih hrest (fun c hc => hin c (List.mem_cons_of_mem _ hc))]
    · exact overlay_append m c xs _
    · intro x hx hlt
      rw [overlay_outside (Or.inr hx),hm x (by omega) hlt]

end Program

end FmacSdk.PagedMemory
