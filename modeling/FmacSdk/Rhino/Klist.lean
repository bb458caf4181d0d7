import FmacSdk.Foundation.CircularList
import FmacSdk.Foundation.Transition
import FmacSdk.Foundation.WaitList
import Mathlib.Data.List.TakeWhile

/-! # The lists of the kernel

A list is a ring of nodes with the head among them. The wait list of an object is
kept in the order of the priorities by one loop that stops at the first task with
a lower one.
-/
namespace FmacSdk.Rhino
open CircularList WaitList Transition
variable {N : Type*} [DecidableEq N]

/-- klist_init -/
def klistInit (m : Links N) (listHead : N) : Links N := (m.setNext listHead listHead).setPrev listHead listHead

/-- is_klist_empty -/
def isKlistEmpty (m : Links N) (list : N) : Bool := m.next list = list

/-- klist_insert -/
def klistInsert (m : Links N) (head element : N) : Links N :=
  let m := m.setPrev element (m.prev head)
  let m := m.setNext element head
  let m := m.setNext (m.prev head) element
  m.setPrev head element

/-- klist_rm -/
def klistRm (m : Links N) (element : N) : Links N :=
  let m := m.setNext (m.prev element) (m.next element)
  m.setPrev (m.next element) (m.prev element)

/-- The loop `for (tmp = ..; tmp != head; tmp = tmp->next) if (stop) break;` -/
def klistSearch (m : Links N) (head : N) (stop : N → Bool) : ℕ → N → N
  | 0, tmp => tmp
  | n + 1, tmp => if tmp = head then tmp else if stop tmp then tmp else klistSearch m head stop n (m.next tmp)

/-- pend_list_add, where `prio` is read off the task that a node belongs to. -/
def pendListAdd (m : Links N) (prio : N → ℕ) (fuel : ℕ) (head task : N) : Links N :=
  klistInsert m (klistSearch m head (fun tmp => prio task < prio tmp) fuel (m.next head)) task

variable {m : Links N} {h e x : N} {l r : List N}

theorem klistInit_ring (m : Links N) (h : N) : Ring (klistInit m h) h [] :=
  ⟨Function.update_self ..,Function.update_self ..⟩

omit [DecidableEq N] in
theorem head_notMem (hnd : (h :: l).Nodup) : h ∉ l := (List.nodup_cons.mp hnd).1

/-- A list is empty where its head is alone in the ring. -/
theorem isKlistEmpty_iff (hr : Ring m h l) (hnd : (h :: l).Nodup) : isKlistEmpty m h = true ↔ l = [] := by
  unfold isKlistEmpty
  rw [decide_eq_true_eq,hr.next_eq]
  cases l with
  | nil => simp
  | cons y l =>
    have hne : y ≠ h := fun heq => head_notMem hnd (heq ▸ List.mem_cons_self)
    simp [hne]

theorem klistInsert_eq (hp : m.prev h ≠ e) (he : e ≠ h) :
    klistInsert m h e = (m.join (m.prev h) e).join e h := by
  have hprev : (m.setPrev e (m.prev h)).prev h = m.prev h := Function.update_of_ne he.symm _ _
  unfold klistInsert
  simp only [Links.join,Links.setNext,Links.setPrev] at hprev ⊢
  rw [hprev,Function.update_comm hp]

theorem klistRm_eq (m : Links N) (e : N) : klistRm m e = m.join (m.prev e) (m.next e) := by
  have hnext : (m.setNext (m.prev e) (m.next e)).next e = m.next e := by
    simp only [Links.setNext,Function.update_apply]
    split_ifs <;> rfl
  simp only [klistRm,hnext]
  rfl

/-- A new element goes to the end of the list. -/
theorem klistInsert_ring (hr : Ring m h l) (hnd : (h :: l).Nodup) (he : e ∉ h :: l) :
    Ring (klistInsert m h e) h (l ++ [e]) := by
  have hprev := Span.prev_mem hr
  rw [klistInsert_eq (ne_of_mem_of_not_mem hprev he) (ne_of_mem_of_not_mem List.mem_cons_self he).symm]
  exact hr.insert hnd he

/-- An element is put in front of any other one. -/
theorem klistInsert_before (hr : Ring m h (l ++ x :: r)) (hnd : (h :: (l ++ x :: r)).Nodup)
    (he : e ∉ h :: (l ++ x :: r)) : Ring (klistInsert m x e) h (l ++ e :: x :: r) := by
  have hperm : (x :: (r ++ h :: l)).Perm (h :: (l ++ x :: r)) :=
    @List.perm_append_comm _ (x :: r) (h :: l)
  have hins := klistInsert_ring (ring_rotate.mp hr) (hperm.nodup_iff.mpr hnd) (mt hperm.mem_iff.mp he)
  rw [List.append_assoc,List.cons_append] at hins
  have hback := ring_rotate.mpr hins
  simpa using hback

/-- An element is taken out of the list. -/
theorem klistRm_ring (hr : Ring m h (l ++ e :: r)) (hnd : (h :: (l ++ e :: r)).Nodup) :
    Ring (klistRm m e) h (l ++ r) := by
  rw [klistRm_eq]
  exact hr.remove hnd

/-- The loop ends at the first node where it is to stop, or back at the head. -/
theorem klistSearch_eq {stop : N → Bool} {a : N} {n : ℕ} (hs : Span m a l h) (hh : h ∉ l) (hn : l.length < n) :
    klistSearch m h stop n (m.next a) = (l.find? stop).getD h := by
  induction l generalizing a n with
  | nil =>
    obtain ⟨n,rfl⟩ := Nat.exists_eq_succ_of_ne_zero (by omega : n ≠ 0)
    simp [klistSearch,hs.1]
  | cons y l ih =>
    obtain ⟨hnext,-,hrest⟩ := hs
    obtain ⟨n,rfl⟩ := Nat.exists_eq_succ_of_ne_zero (by omega : n ≠ 0)
    have hne : y ≠ h := fun heq => hh (heq ▸ List.mem_cons_self)
    rw [klistSearch,hnext,if_neg hne,List.find?_cons]
    by_cases hstop : stop y
    · simp [hstop]
    · rw [if_neg hstop,ih hrest (fun hmem => hh (List.mem_cons_of_mem _ hmem)) (by simpa using hn)]
      simp [hstop]

/-- The loop of pend_list_add with the insertion behind it puts a task in front of
the first one with a lower priority. -/
theorem pendListAdd_ring (prio : N → ℕ) {n : ℕ} (hr : Ring m h l) (hnd : (h :: l).Nodup) (he : e ∉ h :: l)
    (hn : l.length < n) :
    Ring (pendListAdd m prio n h e) h (insertBefore (fun x => prio e < prio x) e l) := by
  unfold pendListAdd
  rw [klistSearch_eq hr (head_notMem hnd) hn,insertBefore_eq]
  have hsplit := List.takeWhile_append_dropWhile (p := fun x => !decide (prio e < prio x)) (l := l)
  have hfind := List.find?_eq_head?_dropWhile_not (p := fun x => decide (prio e < prio x)) l
  generalize l.takeWhile (fun x => !decide (prio e < prio x)) = front at hsplit ⊢
  generalize l.dropWhile (fun x => !decide (prio e < prio x)) = back at hsplit hfind ⊢
  subst hsplit
  rw [hfind]
  cases back with
  | nil => exact klistInsert_ring (by simpa using hr) (by simpa using hnd) (by simpa using he)
  | cons x back => exact klistInsert_before hr hnd he

/-! ## The wait list of an object -/

/-- What the functions of k_pend.c do with the wait list of one object. -/
inductive PendCall (N : Type*)
  | add (task : N)
  | rm (task : N)
  | reorder (task : N) (prio : ℕ)
  | setPrio (task : N) (prio : ℕ)

/-- The links of the nodes with the priorities of their tasks. -/
structure PendNodes (N : Type*) where
  links : Links N
  prio : N → ℕ

/-- pend_list_add, klist_rm and pend_list_reorder, the last one where task_prio_change gave the task
another priority; the priority of a task elsewhere changes without a look at the list. -/
def pendStep (head : N) (fuel : ℕ) (s : PendNodes N) : PendCall N → Option (PendNodes N)
  | .add task => some { s with links := pendListAdd s.links s.prio fuel head task }
  | .rm task => some { s with links := klistRm s.links task }
  | .reorder task pri =>
    let prio := Function.update s.prio task pri
    some ⟨pendListAdd (klistRm s.links task) prio fuel head task,prio⟩
  | .setPrio task pri => some { s with prio := Function.update s.prio task pri }

/-- The tasks that wait, in their order. -/
structure Waiters (N : Type*) where
  list : List N
  prio : N → ℕ

/-- The same on a list: a task comes once, and only a task in the list is taken out or moved. -/
def waitersStep (head : N) (a : Waiters N) : PendCall N → Option (Waiters N)
  | .add task =>
    if task ∈ head :: a.list then none
    else some { a with list := insertBefore (fun x => a.prio task < a.prio x) task a.list }
  | .rm task => if task ∈ a.list then some { a with list := a.list.erase task } else none
  | .reorder task pri =>
    let prio := Function.update a.prio task pri
    if task ∈ a.list then some ⟨insertBefore (fun x => prio task < prio x) task (a.list.erase task),prio⟩ else none
  | .setPrio task pri => if task ∈ a.list then none else some { a with prio := Function.update a.prio task pri }

/-- The ring holds the list, and the list is in order. -/
structure Lines (h : N) (s : PendNodes N) (a : Waiters N) : Prop where
  ring : Ring s.links h a.list
  nodup : (h :: a.list).Nodup
  prio : s.prio = a.prio
  ordered : Ordered a.prio a.list

variable {s : PendNodes N} {a a' : Waiters N} {n : ℕ}

theorem klistRm_erase (hr : Ring m h l) (hnd : (h :: l).Nodup) (he : e ∈ l) :
    Ring (klistRm m e) h (l.erase e) ∧ (h :: l.erase e).Nodup ∧ e ∉ h :: l.erase e := by
  obtain ⟨front,back,hout,rfl,herase⟩ := List.exists_erase_eq he
  rw [herase]
  have hne : e ≠ h := fun heq => head_notMem hnd (heq ▸ he)
  have hcons := List.nodup_cons.mp hnd
  have hsub : (front ++ back).Sublist (front ++ e :: back) := (List.sublist_cons_self e back).append_left front
  have hmiddle := List.nodup_middle.mp hcons.2
  refine ⟨klistRm_ring hr hnd,List.nodup_cons.mpr ⟨fun hmem => hcons.1 (hsub.subset hmem),hcons.2.sublist hsub⟩,?_⟩
  rw [List.mem_cons,not_or]
  exact ⟨hne,(List.nodup_cons.mp hmiddle).1⟩

/-- A new task keeps the lines. -/
theorem Lines.enter {prio : N → ℕ} (hr : Ring m h l) (hnd : (h :: l).Nodup) (he : e ∉ h :: l) (ho : Ordered prio l)
    (hn : l.length < n) :
    Lines h ⟨pendListAdd m prio n h e,prio⟩ ⟨insertBefore (fun x => prio e < prio x) e l,prio⟩ := by
  have hperm : (h :: insertBefore (fun x => prio e < prio x) e l).Perm (e :: h :: l) :=
    ((insertBefore_perm _ e l).cons h).trans (.swap e h l)
  exact ⟨pendListAdd_ring prio hr hnd he hn,hperm.nodup_iff.mpr (List.nodup_cons.mpr ⟨he,hnd⟩),rfl,ho.insert e⟩

theorem Lines.step (hl : Lines h s a) (hn : a.list.length < n) {c : PendCall N} (hc : waitersStep h a c = some a') :
    ∃ s', pendStep h n s c = some s' ∧ Lines h s' a' ∧ a'.list.length ≤ a.list.length + 1 := by
  obtain ⟨links,prio⟩ := s
  obtain ⟨hring,hnd,rfl,hord⟩ := hl
  cases c with
  | add task =>
    simp only [waitersStep,Option.ite_none_left_eq_some,Option.some.injEq] at hc
    obtain ⟨hout,rfl⟩ := hc
    exact ⟨_,rfl,Lines.enter hring hnd hout hord hn,(insertBefore_perm _ task a.list).length_eq.le⟩
  | rm task =>
    simp only [waitersStep,Option.ite_none_right_eq_some,Option.some.injEq] at hc
    obtain ⟨hmem,rfl⟩ := hc
    obtain ⟨hring',hnd',-⟩ := klistRm_erase hring hnd hmem
    exact ⟨_,rfl,⟨hring',hnd',rfl,hord.sublist List.erase_sublist⟩,List.length_erase_le.trans (Nat.le_succ _)⟩
  | reorder task pri =>
    simp only [waitersStep,Option.ite_none_right_eq_some,Option.some.injEq] at hc
    obtain ⟨hmem,rfl⟩ := hc
    obtain ⟨hring',hnd',hout⟩ := klistRm_erase hring hnd hmem
    have hsame : ∀ x ∈ a.list.erase task, Function.update a.prio task pri x = a.prio x := fun x hx =>
      Function.update_of_ne (ne_of_mem_of_not_mem hx (mt (List.mem_cons_of_mem h) hout)) _ _
    have hord' := ordered_congr (hord.sublist List.erase_sublist) hsame
    have hlen : (a.list.erase task).length < n := List.length_erase_le.trans_lt hn
    refine ⟨_,rfl,Lines.enter hring' hnd' hout hord' hlen,?_⟩
    rw [(insertBefore_perm _ task _).length_eq,List.length_cons]
    exact Nat.succ_le_succ List.length_erase_le
  | setPrio task pri =>
    simp only [waitersStep,Option.ite_none_left_eq_some,Option.some.injEq] at hc
    obtain ⟨hout,rfl⟩ := hc
    have hsame : ∀ x ∈ a.list, Function.update a.prio task pri x = a.prio x := fun x hx =>
      Function.update_of_ne (ne_of_mem_of_not_mem hx hout) _ _
    exact ⟨_,rfl,⟨hring,hnd,rfl,ordered_congr hord hsame⟩,Nat.le_succ _⟩

/-- Whatever comes to wait, goes or gets another priority, the ring of the object holds the tasks
that wait in the order of their priorities, and the first node behind the head is the most urgent
of them. Who comes next goes behind all those of his priority. -/
theorem pend_list_follows (links : Links N) (prio : N → ℕ) (h : N) {cs : List (PendCall N)}
    (hrun : Runs (waitersStep h) ⟨[],prio⟩ cs a) (hn : cs.length < n) :
    ∃ s, Runs (pendStep h n) ⟨klistInit links h,prio⟩ cs s ∧ Ring s.links h a.list ∧ (h :: a.list).Nodup ∧
      Ordered a.prio a.list ∧ s.links.next h = a.list.headD h ∧ (isKlistEmpty s.links h = true ↔ a.list = []) ∧
      ∀ e, insertBefore (fun x => a.prio e < a.prio x) e a.list =
        a.list.filter (fun x => a.prio x ≤ a.prio e) ++ e :: a.list.filter (fun x => a.prio e < a.prio x) := by
  suffices hlines : ∃ s, Runs (pendStep h n) ⟨klistInit links h,prio⟩ cs s ∧ Lines h s a ∧ a.list.length ≤ cs.length by
    obtain ⟨s,hs,⟨hring,hnd,-,hord⟩,-⟩ := hlines
    exact ⟨s,hs,hring,hnd,hord,hring.next_eq,isKlistEmpty_iff hring hnd,hord.insert_eq⟩
  induction hrun with
  | refl =>
    exact ⟨_,Runs.refl _,⟨klistInit_ring links h,List.nodup_singleton h,rfl,List.Pairwise.nil⟩,le_rfl⟩
  | @tail b c ls l _ hlast ih =>
    rw [List.length_append,List.length_singleton] at hn ⊢
    obtain ⟨s,hs,hlines,hle⟩ := ih (by omega)
    obtain ⟨s',hs',hlines',hle'⟩ := hlines.step (n := n) (by omega) hlast
    exact ⟨s',hs.tail hs',hlines',hle'.trans (Nat.succ_le_succ hle)⟩

/-- Of three tasks the last one is raised above the others. -/
theorem pend_list_follows_three :
    ∃ s, Runs (pendStep 0 5) ⟨klistInit ⟨id,id⟩ 0,id⟩ [.add 1,.add 3,.add 2,.reorder 3 1] s ∧
      Ring s.links 0 [1,3,2] ∧ s.links.next 0 = 1 := by
  obtain ⟨a,ha,hlist⟩ : ∃ a, Runs (waitersStep 0) ⟨[],id⟩ [.add 1,.add 3,.add 2,.reorder 3 1] a ∧ a.list = [1,3,2] :=
    Runs.exists_of_exec Waiters.list (by decide +kernel) fun _ _ hseen => hseen
  obtain ⟨s,hs,hring,-,-,hnext,-,-⟩ := pend_list_follows (n := 5) ⟨id,id⟩ id 0 ha (by decide)
  rw [hlist] at hring hnext
  exact ⟨s,hs,hring,hnext⟩

end FmacSdk.Rhino
