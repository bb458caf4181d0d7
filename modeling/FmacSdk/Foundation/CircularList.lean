import Mathlib.Data.List.Nodup
import Mathlib.Logic.Function.Basic

/-! # Circular doubly linked lists

Every node has a next and a previous one. A span goes from one node to another
along both links; a ring is a span that comes back. All edits join two nodes, and
a ring that has neither of the two is left as it was.
-/
namespace FmacSdk.CircularList
variable {N : Type*}

/-- The two links of every node. -/
structure Links (N : Type*) where
  next : N → N
  prev : N → N

variable [DecidableEq N]

def Links.setNext (m : Links N) (a b : N) : Links N := { m with next := Function.update m.next a b }

def Links.setPrev (m : Links N) (a b : N) : Links N := { m with prev := Function.update m.prev a b }

/-- Make `b` follow `a`. -/
def Links.join (m : Links N) (a b : N) : Links N := (m.setNext a b).setPrev b a

omit [DecidableEq N] in
/-- The nodes met between two nodes. -/
def Span (m : Links N) : N → List N → N → Prop
  | a, [], b => m.next a = b ∧ m.prev b = a
  | a, x :: l, b => m.next a = x ∧ m.prev x = a ∧ Span m x l b

omit [DecidableEq N] in
/-- A ring through a head node. -/
def Ring (m : Links N) (h : N) (l : List N) : Prop := Span m h l h

variable {m m' : Links N} {a b c e h p n x : N} {l r : List N}

@[simp] theorem join_next (m : Links N) (a b : N) : (m.join a b).next = Function.update m.next a b := rfl

@[simp] theorem join_prev (m : Links N) (a b : N) : (m.join a b).prev = Function.update m.prev b a := rfl

omit [DecidableEq N] in
theorem span_append : Span m a (l ++ x :: r) b ↔ Span m a l x ∧ Span m x r b := by
  induction l generalizing a with
  | nil => simp only [List.nil_append,Span,and_assoc]
  | cons y l ih => simp only [List.cons_append,Span,ih,and_assoc]

omit [DecidableEq N] in
/-- A span reads the next of its nodes but the last and the previous of its nodes
but the first. -/
theorem Span.congr (hs : Span m a l b) (hn : ∀ y ∈ a :: l, m'.next y = m.next y)
    (hp : ∀ y ∈ b :: l, m'.prev y = m.prev y) : Span m' a l b := by
  induction l generalizing a with
  | nil => exact ⟨(hn a List.mem_cons_self).trans hs.1,(hp b List.mem_cons_self).trans hs.2⟩
  | cons y l ih =>
    obtain ⟨hnext,hprev,hrest⟩ := hs
    refine ⟨(hn a List.mem_cons_self).trans hnext,(hp y (by simp)).trans hprev,ih hrest ?_ ?_⟩
    · exact fun z hz => hn z (List.mem_cons_of_mem _ hz)
    · intro z hz
      rcases List.mem_cons.mp hz with rfl | hz
      · exact hp z List.mem_cons_self
      · exact hp z (by simp [hz])

omit [DecidableEq N] in
theorem Span.prev_mem (hs : Span m a l b) : m.prev b ∈ a :: l := by
  induction l generalizing a with
  | nil => exact hs.2 ▸ List.mem_cons_self
  | cons y l ih => exact List.mem_cons_of_mem _ (ih hs.2.2)

omit [DecidableEq N] in
theorem Span.next_eq (hs : Span m a l b) : m.next a = l.headD b := by
  cases l with
  | nil => exact hs.1
  | cons y l => exact hs.1

/-- A span is led to another node by joining its last node to it. -/
theorem Span.redirect (hs : Span m a l b) (hnd : (a :: l).Nodup) (hc : c ∉ l) :
    Span (m.join (m.prev b) c) a l c := by
  induction l generalizing a with
  | nil =>
    have hlast : m.prev b = a := hs.2
    exact ⟨by simp [hlast],by simp [hlast]⟩
  | cons y l ih =>
    obtain ⟨hnext,hprev,hrest⟩ := hs
    obtain ⟨ha,hnd'⟩ := List.nodup_cons.mp hnd
    have hlast := hrest.prev_mem
    refine ⟨?_,?_,ih hrest hnd' fun hmem => hc (List.mem_cons_of_mem _ hmem)⟩
    · rw [join_next,Function.update_of_ne,hnext]
      rintro rfl
      exact ha hlast
    · rw [join_prev,Function.update_of_ne,hprev]
      rintro rfl
      exact hc List.mem_cons_self

/-! ## Rings -/

omit [DecidableEq N] in
/-- A ring may be entered at any of its nodes. -/
theorem ring_rotate : Ring m h (l ++ x :: r) ↔ Ring m x (r ++ h :: l) := by
  unfold Ring
  rw [span_append,span_append,and_comm]

omit [DecidableEq N] in
theorem Ring.next_eq (hr : Ring m h l) : m.next h = l.headD h := Span.next_eq hr

omit [DecidableEq N] in
/-- The neighbours of a node are in its ring. -/
theorem Ring.neighbours_mem (hr : Ring m h l) (hx : x ∈ h :: l) : m.next x ∈ h :: l ∧ m.prev x ∈ h :: l := by
  have hself : ∀ {y : N} {t : List N}, Ring m y t → m.next y ∈ y :: t ∧ m.prev y ∈ y :: t := by
    intro y t ht
    refine ⟨?_,Span.prev_mem ht⟩
    rw [ht.next_eq]
    cases t with
    | nil => exact List.mem_cons_self
    | cons z t => exact List.mem_cons_of_mem _ List.mem_cons_self
  rcases List.mem_cons.mp hx with rfl | hx
  · exact hself hr
  · obtain ⟨l1,l2,rfl⟩ := List.append_of_mem hx
    have hperm : (x :: (l2 ++ h :: l1)).Perm (h :: (l1 ++ x :: l2)) :=
      @List.perm_append_comm _ (x :: l2) (h :: l1)
    obtain ⟨hnext,hprev⟩ := hself (ring_rotate.mp hr)
    exact ⟨hperm.mem_iff.mp hnext,hperm.mem_iff.mp hprev⟩

theorem Ring.away (hr : Ring m h l) (ha : a ∉ h :: l) (hb : b ∉ h :: l) : Ring (m.join a b) h l := by
  refine Span.congr hr ?_ ?_
  · intro y hy
    exact Function.update_of_ne (ne_of_mem_of_not_mem hy ha) _ _
  · intro y hy
    exact Function.update_of_ne (ne_of_mem_of_not_mem hy hb) _ _

/-- A new node is put in front of the head by joining it to both sides. -/
theorem Ring.insert (hr : Ring m h l) (hnd : (h :: l).Nodup) (he : e ∉ h :: l) :
    Ring ((m.join (m.prev h) e).join e h) h (l ++ [e]) := by
  have hel : e ∉ l := fun hmem => he (List.mem_cons_of_mem _ hmem)
  have hspan := Span.redirect hr hnd hel
  refine span_append.mpr ⟨hspan.congr ?_ ?_,by simp [Span]⟩
  · intro y hy
    exact Function.update_of_ne (ne_of_mem_of_not_mem hy he) _ _
  · intro y hy
    refine Function.update_of_ne ?_ _ _
    rintro rfl
    rcases List.mem_cons.mp hy with heq | hmem
    · exact he (heq ▸ List.mem_cons_self)
    · exact (List.nodup_cons.mp hnd).1 hmem

/-- A node other than the head is taken out by joining its two sides. -/
theorem Ring.remove (hr : Ring m h (l ++ e :: r)) (hnd : (h :: (l ++ e :: r)).Nodup) :
    Ring (m.join (m.prev e) (m.next e)) h (l ++ r) := by
  obtain ⟨hleft,hright⟩ := span_append.mp hr
  have hnd' : (h :: l).Nodup := by
    rw [← List.cons_append] at hnd
    exact hnd.of_append_left
  have hfirst := hleft.prev_mem
  have hh : h ∉ l ++ e :: r := (List.nodup_cons.mp hnd).1
  have hlr := (List.nodup_append.mp (List.nodup_cons.mp hnd).2).2.2
  cases r with
  | nil =>
    rw [hright.next_eq,List.append_nil]
    exact hleft.redirect hnd' fun hmem => hh (List.mem_append_left _ hmem)
  | cons y r =>
    obtain ⟨hnext,hprev,hrest⟩ := hright
    rw [hnext]
    have hy : y ∉ l := fun hmem => hlr y hmem y (by simp) rfl
    refine span_append.mpr ⟨hleft.redirect hnd' hy,hrest.congr ?_ ?_⟩
    · intro z hz
      refine Function.update_of_ne ?_ _ _
      rintro rfl
      rcases List.mem_cons.mp hfirst with heq | hmem
      · exact hh (heq ▸ List.mem_append_right _ (List.mem_cons_of_mem _ hz))
      · exact hlr _ hmem _ (List.mem_cons_of_mem _ hz) rfl
    · intro z hz
      refine Function.update_of_ne ?_ _ _
      rintro rfl
      have hnd2 : (z :: r).Nodup := (List.nodup_cons.mp (List.nodup_append.mp (List.nodup_cons.mp hnd).2).2.1).2
      rcases List.mem_cons.mp hz with heq | hmem
      · exact hh (by simp [heq])
      · exact (List.nodup_cons.mp hnd2).1 hmem

/-- Taking the head out leaves the ring of the others. -/
theorem Ring.remove_head (hr : Ring m h (x :: r)) (hnd : (h :: x :: r).Nodup) :
    Ring (m.join (m.prev h) (m.next h)) x r := by
  have hr' : Ring m x (r ++ h :: []) := (ring_rotate (l := [])).mp hr
  have hnd' : (x :: (r ++ h :: [])).Nodup := by
    refine (List.Perm.nodup_iff ?_).mp hnd
    exact (List.perm_append_singleton h (x :: r)).symm
  simpa using hr'.remove hnd'

end FmacSdk.CircularList
