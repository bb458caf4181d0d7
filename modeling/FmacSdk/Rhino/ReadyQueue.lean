import FmacSdk.Foundation.Transition
import FmacSdk.Rhino.Bitmap
import FmacSdk.Rhino.Klist

/-! # The ready queue

The tasks of one priority form a ring that is entered at the task to run next; a
bitmap tells which priorities have a ring, and the highest of them is kept beside
it. The list of the tasks of every priority is what the three stand for.
-/
namespace FmacSdk.Rhino
open CircularList Transition
variable {T : Type*} [DecidableEq T]

/-- runqueue_t; a null pointer is `none`. -/
structure Runqueue (T : Type*) where
  curListItem : ℕ → Option T
  taskBitMap : List (BitVec 32)
  highestPri : ℕ

/-- The ready queue with the links of the tasks, their priorities and the running one. -/
structure ReadyQueue (T : Type*) where
  links : Links T
  rq : Runqueue T
  prio : T → ℕ
  active : T

/-- RHINO_CONFIG_PRI_MAX -/
def priMax : ℕ := 62

/-- runqueue_init -/
def runqueueInit : Runqueue T := ⟨fun _ => none,[0#32,0#32],priMax⟩

/-- ready_list_init -/
def readyListInit (s : ReadyQueue T) (task : T) : ReadyQueue T :=
  { s with
    links := klistInit s.links task
    rq :=
      { curListItem := Function.update s.rq.curListItem (s.prio task) (some task)
        taskBitMap := krhinoBitmapSet s.rq.taskBitMap (s.prio task)
        highestPri := if s.prio task < s.rq.highestPri then s.prio task else s.rq.highestPri } }

/-- ready_list_add_tail -/
def readyListAddTail (s : ReadyQueue T) (task : T) : ReadyQueue T :=
  match s.rq.curListItem (s.prio task) with
  | none => readyListInit s task
  | some cur => { s with links := klistInsert s.links cur task }

/-- ready_list_add_head -/
def readyListAddHead (s : ReadyQueue T) (task : T) : ReadyQueue T :=
  match s.rq.curListItem (s.prio task) with
  | none => readyListInit s task
  | some cur =>
    { s with
      links := klistInsert s.links cur task
      rq := { s.rq with curListItem := Function.update s.rq.curListItem (s.prio task) (some task) } }

/-- ready_list_add -/
def readyListAdd (s : ReadyQueue T) (task : T) : ReadyQueue T :=
  if s.prio task = s.prio s.active then readyListAddTail s task else readyListAddHead s task

/-- ready_list_rm; `none` where the code follows a null pointer or finds no task. -/
def readyListRm (s : ReadyQueue T) (task : T) : Option (ReadyQueue T) :=
  let pri := s.prio task
  match s.rq.curListItem pri with
  | none => none
  | some cur =>
    if cur ≠ s.links.next cur then
      some
        { s with
          links := klistRm s.links task
          rq :=
            { s.rq with
              curListItem :=
                if cur = task then Function.update s.rq.curListItem pri (some (s.links.next cur))
                else s.rq.curListItem } }
    else
      let rq :=
        { s.rq with
          curListItem := Function.update s.rq.curListItem pri none
          taskBitMap := krhinoBitmapClear s.rq.taskBitMap pri }
      if pri ≠ rq.highestPri then some { s with rq := rq }
      else (krhinoFindFirstBit rq.taskBitMap).map fun i => { s with rq := { rq with highestPri := i } }

/-- ready_list_head_to_tail -/
def readyListHeadToTail (s : ReadyQueue T) (task : T) : Option (ReadyQueue T) :=
  (s.rq.curListItem (s.prio task)).map fun cur =>
    { s with
      rq := { s.rq with
        curListItem := Function.update s.rq.curListItem (s.prio task) (some (s.links.next cur)) } }

/-- preferred_cpu_ready_task_get -/
def preferredReadyTask (s : ReadyQueue T) : Option T := s.rq.curListItem s.rq.highestPri

/-! ## The lists it stands for -/

/-- A task joins the lists behind the others of its priority. -/
def listsAddTail (ready : ℕ → List T) (p : ℕ) (task : T) : ℕ → List T :=
  Function.update ready p (ready p ++ [task])

/-- A task joins the lists in front of the others of its priority. -/
def listsAddHead (ready : ℕ → List T) (p : ℕ) (task : T) : ℕ → List T :=
  Function.update ready p (task :: ready p)

def listsRm (ready : ℕ → List T) (p : ℕ) (task : T) : ℕ → List T :=
  Function.update ready p ((ready p).erase task)

/-- The first task of a priority goes behind the others. -/
def listsRotate (ready : ℕ → List T) (p : ℕ) : ℕ → List T :=
  Function.update ready p ((ready p).tail ++ (ready p).head?.toList)

/-- The task to run: the first one of the highest priority that has any. -/
def listsPreferred (ready : ℕ → List T) : Option T := (List.range priMax).findSome? fun p => (ready p).head?

/-- The ready queue stands for the lists. -/
structure Represents (s : ReadyQueue T) (ready : ℕ → List T) : Prop where
  cur : ∀ p, s.rq.curListItem p = (ready p).head?
  ring : ∀ p h l, ready p = h :: l → Ring s.links h l
  nodup : ∀ p, (ready p).Nodup
  prio : ∀ p, ∀ t ∈ ready p, s.prio t = p
  bound : ∀ p, ready p ≠ [] → p < priMax
  words : s.rq.taskBitMap.length = 2
  bits : ∀ p, bitmapBit s.rq.taskBitMap p = decide (ready p ≠ [])
  highest_le : ∀ p, ready p ≠ [] → s.rq.highestPri ≤ p
  highest : (∃ p, ready p ≠ []) → ready s.rq.highestPri ≠ []
  vacant : (∀ p, ready p = []) → s.rq.highestPri = priMax

variable {s s' : ReadyQueue T} {ready : ℕ → List T} {t : T} {p : ℕ}

omit [DecidableEq T] in
theorem represents_init (links : Links T) (prio : T → ℕ) (active : T) :
    Represents (⟨links,runqueueInit,prio,active⟩ : ReadyQueue T) fun _ => [] := by
  refine ⟨fun _ => rfl,?_,fun _ => List.nodup_nil,?_,?_,rfl,?_,?_,?_,fun _ => rfl⟩
  · intro p h l hcons
    cases hcons
  · intro p t ht
    cases ht
  · intro p hne
    exact absurd rfl hne
  · intro p
    have hword : ∀ k, [0#32,0#32].getD k 0#32 = 0#32
      | 0 => rfl
      | 1 => rfl
      | _ + 2 => rfl
    simp only [bitmapBit,runqueueInit,hword]
    simp
  · intro p hne
    exact absurd rfl hne
  · rintro ⟨p,hne⟩
    exact absurd rfl hne

omit [DecidableEq T] in
/-- The task that the queue prefers is the first one of the highest priority. -/
theorem Represents.preferred (h : Represents s ready) (hne : ∃ p, ready p ≠ []) :
    preferredReadyTask s = listsPreferred ready ∧ preferredReadyTask s = (ready s.rq.highestPri).head? ∧
      ready s.rq.highestPri ≠ [] := by
  have hhigh := h.highest hne
  have hcur : preferredReadyTask s = (ready s.rq.highestPri).head? := h.cur _
  refine ⟨?_,hcur,hhigh⟩
  rw [hcur]
  unfold listsPreferred
  have hlt := h.bound _ hhigh
  obtain ⟨k,hk⟩ := Nat.exists_eq_add_of_lt hlt
  have hsplit : List.range priMax = List.range s.rq.highestPri ++
      (List.range (k + 1)).map (s.rq.highestPri + ·) := by
    rw [show priMax = s.rq.highestPri + (k + 1) by omega,List.range_add]
  have hfront : (List.range s.rq.highestPri).findSome? (fun p => (ready p).head?) = none := by
    rw [List.findSome?_eq_none_iff]
    intro p hp
    rw [List.head?_eq_none_iff]
    by_contra hne'
    exact absurd (h.highest_le p hne') (by simpa using List.mem_range.mp hp)
  obtain ⟨x,l,hx⟩ := List.exists_cons_of_ne_nil hhigh
  rw [hsplit,List.findSome?_append,hfront,List.range_succ_eq_map]
  simp [hx]

/-! ## One operation -/

omit [DecidableEq T] in
theorem Represents.ring_nodup (h : Represents s ready) {x : T} {l : List T} (hp : ready p = x :: l) :
    (x :: l).Nodup := hp ▸ h.nodup p

/-- The first task of a priority gets a ring of its own. -/
theorem Represents.init (h : Represents s ready) (hlt : s.prio t < priMax) (ht : ∀ p, t ∉ ready p)
    (hnil : ready (s.prio t) = []) :
    Represents (readyListInit s t) (Function.update ready (s.prio t) [t]) := by
  have hwords : s.prio t < 32 * s.rq.taskBitMap.length := by
    rw [h.words]
    unfold priMax at hlt
    omega
  refine ⟨?_,?_,?_,?_,?_,?_,?_,?_,?_,?_⟩
  · intro p
    by_cases hp : p = s.prio t
    · subst hp
      simp [readyListInit]
    · simp [readyListInit,hp,h.cur p]
  · intro p a l hcons
    by_cases hp : p = s.prio t
    · subst hp
      obtain ⟨rfl,rfl⟩ : t = a ∧ [] = l := by simpa using hcons
      exact klistInit_ring _ _
    · rw [Function.update_of_ne hp] at hcons
      exact (h.ring p a l hcons).away (hcons ▸ ht p) (hcons ▸ ht p)
  · intro p
    by_cases hp : p = s.prio t
    · subst hp
      simp
    · simpa [hp] using h.nodup p
  · intro p x hx
    by_cases hp : p = s.prio t
    · subst hp
      obtain rfl : x = t := by simpa using hx
      rfl
    · exact h.prio p x (by simpa [hp] using hx)
  · intro p hne
    by_cases hp : p = s.prio t
    · exact hp ▸ hlt
    · exact h.bound p (by simpa [hp] using hne)
  · simp [readyListInit,h.words]
  · intro p
    simp only [readyListInit]
    rw [bitmapBit_set hwords]
    by_cases hp : p = s.prio t
    · simp [hp]
    · simp [hp,h.bits p]
  · intro p hne
    by_cases hp : p = s.prio t
    · simp only [readyListInit]
      split_ifs <;> omega
    · have hle := h.highest_le p (by simpa [hp] using hne)
      simp only [readyListInit]
      split_ifs <;> omega
  · intro _
    simp only [readyListInit]
    split_ifs with hless
    · simp
    · by_cases hp : s.rq.highestPri = s.prio t
      · simp [hp]
      · -- the highest priority was not beyond the new one, so it had tasks already
        rw [Function.update_of_ne hp]
        refine h.highest ?_
        by_contra hno
        have hall : ∀ p, ready p = [] := by simpa using hno
        have hvacant := h.vacant hall
        omega
  · intro hall
    have := hall (s.prio t)
    simp at this

omit [DecidableEq T] in
/-- A list that stays inhabited only has to come with its ring. -/
theorem Represents.replace (h : Represents s ready) (hne : ready p ≠ []) {m : Links T} {a : T} {l : List T}
    (hcur : s'.rq.curListItem = Function.update s.rq.curListItem p (some a)) (hlinks : s'.links = m)
    (hmap : s'.rq.taskBitMap = s.rq.taskBitMap) (hhigh : s'.rq.highestPri = s.rq.highestPri)
    (hprio : s'.prio = s.prio) (hnd : (a :: l).Nodup) (hall : ∀ x ∈ a :: l, s.prio x = p)
    (hring : Ring m a l) (haway : ∀ q x r, q ≠ p → ready q = x :: r → Ring m x r) :
    Represents s' (Function.update ready p (a :: l)) := by
  have hsome : ∀ q, Function.update ready p (a :: l) q ≠ [] ↔ ready q ≠ [] := by
    intro q
    by_cases hq : q = p
    · subst hq
      simpa using hne
    · simp [hq]
  subst hlinks
  refine ⟨?_,?_,?_,?_,?_,by rw [hmap,h.words],?_,?_,?_,?_⟩
  · intro q
    rw [hcur]
    by_cases hq : q = p
    · subst hq
      simp
    · simp [hq,h.cur q]
  · intro q x r hcons
    by_cases hq : q = p
    · subst hq
      obtain ⟨rfl,rfl⟩ : a = x ∧ l = r := by simpa using hcons
      exact hring
    · exact haway q x r hq (by simpa [hq] using hcons)
  · intro q
    by_cases hq : q = p
    · subst hq
      simpa using hnd
    · simpa [hq] using h.nodup q
  · intro q x hx
    rw [hprio]
    by_cases hq : q = p
    · subst hq
      exact hall x (by simpa using hx)
    · exact h.prio q x (by simpa [hq] using hx)
  · exact fun q hq => h.bound q ((hsome q).mp hq)
  · intro q
    rw [hmap,h.bits q]
    exact decide_eq_decide.mpr (hsome q).symm
  · rw [hhigh]
    exact fun q hq => h.highest_le q ((hsome q).mp hq)
  · rintro ⟨q,hq⟩
    rw [hhigh]
    exact (hsome _).mpr (h.highest ⟨q,(hsome q).mp hq⟩)
  · intro hall'
    exact absurd (hall' p) (by simp)

omit [DecidableEq T] in
theorem Represents.apart (h : Represents s ready) {q : ℕ} {x : T} (hx : x ∈ ready p) (hq : q ≠ p) :
    x ∉ ready q := fun hx' => hq ((h.prio q x hx').symm.trans (h.prio p x hx))

/-- The rings of the other priorities when a task joins one. -/
theorem Represents.insert_away (h : Represents s ready) {x : T} {l : List T} (hp : ready p = x :: l)
    (ht : ∀ p, t ∉ ready p) (q : ℕ) (y : T) (r : List T) (hq : q ≠ p) (hqr : ready q = y :: r) :
    Ring (klistInsert s.links x t) y r := by
  have hx : t ∉ x :: l := hp ▸ ht _
  have hprev := Span.prev_mem (h.ring _ x l hp)
  rw [klistInsert_eq (ne_of_mem_of_not_mem hprev hx) (ne_of_mem_of_not_mem List.mem_cons_self hx).symm]
  have hother : ∀ z ∈ x :: l, z ∉ y :: r := fun z hz => hqr ▸ h.apart (hp ▸ hz) hq
  exact ((h.ring q y r hqr).away (hother _ hprev) (hqr ▸ ht q)).away (hqr ▸ ht q)
    (hother _ List.mem_cons_self)

/-- The rings of the other priorities when a task leaves one. -/
theorem Represents.remove_away (h : Represents s ready) {x : T} {l : List T} (hp : ready p = x :: l)
    (ht : t ∈ ready p) (q : ℕ) (y : T) (r : List T) (hq : q ≠ p) (hqr : ready q = y :: r) :
    Ring (klistRm s.links t) y r := by
  rw [klistRm_eq]
  obtain ⟨hnext,hprev⟩ := (h.ring _ x l hp).neighbours_mem (hp ▸ ht)
  have hother : ∀ z ∈ x :: l, z ∉ y :: r := fun z hz => hqr ▸ h.apart (hp ▸ hz) hq
  exact (h.ring q y r hqr).away (hother _ hprev) (hother _ hnext)

theorem Represents.addTail (h : Represents s ready) (hlt : s.prio t < priMax) (ht : ∀ p, t ∉ ready p) :
    Represents (readyListAddTail s t) (listsAddTail ready (s.prio t) t) := by
  unfold readyListAddTail listsAddTail
  rw [h.cur]
  cases hp : ready (s.prio t) with
  | nil => exact h.init hlt ht hp
  | cons x l =>
    have hnd := h.ring_nodup hp
    have hx : t ∉ x :: l := hp ▸ ht _
    have hring := h.ring _ x l hp
    change Represents { s with links := klistInsert s.links x t } (Function.update ready _ (x :: (l ++ [t])))
    refine h.replace (hp ▸ List.cons_ne_nil _ _) ?_ rfl rfl rfl rfl
      ?_ ?_ (klistInsert_ring hring hnd hx) ?_
    · exact (Function.update_eq_self_iff.mpr (by rw [h.cur,hp]; rfl)).symm
    · exact (List.perm_append_singleton t (x :: l)).nodup_iff.mpr (List.nodup_cons.mpr ⟨hx,hnd⟩)
    · intro y hy
      rcases List.mem_append.mp (show y ∈ (x :: l) ++ [t] from hy) with hy | hy
      · exact h.prio _ y (hp ▸ hy)
      · rw [List.mem_singleton.mp hy]
    · exact h.insert_away hp ht

theorem Represents.addHead (h : Represents s ready) (hlt : s.prio t < priMax) (ht : ∀ p, t ∉ ready p) :
    Represents (readyListAddHead s t) (listsAddHead ready (s.prio t) t) := by
  unfold readyListAddHead listsAddHead
  rw [h.cur]
  cases hp : ready (s.prio t) with
  | nil => exact h.init hlt ht hp
  | cons x l =>
    have hnd := h.ring_nodup hp
    have hx : t ∉ x :: l := hp ▸ ht _
    have hring := klistInsert_ring (h.ring _ x l hp) hnd hx
    refine h.replace (hp ▸ List.cons_ne_nil _ _) rfl rfl rfl rfl rfl (List.nodup_cons.mpr ⟨hx,hnd⟩) ?_
      ((ring_rotate (r := [])).mp hring) (h.insert_away hp ht)
    intro y hy
    rcases List.mem_cons.mp hy with rfl | hy
    · rfl
    · exact h.prio _ y (hp ▸ hy)

theorem Represents.add (h : Represents s ready) (hlt : s.prio t < priMax) (ht : ∀ p, t ∉ ready p) :
    Represents (readyListAdd s t)
      (if s.prio t = s.prio s.active then listsAddTail ready (s.prio t) t
        else listsAddHead ready (s.prio t) t) := by
  unfold readyListAdd
  split_ifs
  · exact h.addTail hlt ht
  · exact h.addHead hlt ht

omit [DecidableEq T] in
/-- The last task of a priority takes its ring away; the highest priority is
found again in the bitmap. -/
theorem Represents.clear (h : Represents s ready) (hp : ready p = [t])
    (hother : ∃ q, q ≠ p ∧ ready q ≠ []) {high : ℕ}
    (hhigh : if p ≠ s.rq.highestPri then high = s.rq.highestPri
      else krhinoFindFirstBit (krhinoBitmapClear s.rq.taskBitMap p) = some high) :
    Represents { s with
      rq :=
        { curListItem := Function.update s.rq.curListItem p none
          taskBitMap := krhinoBitmapClear s.rq.taskBitMap p
          highestPri := high } } (Function.update ready p []) := by
  have hlt := h.bound p (by simp [hp])
  have hwords : p < 32 * s.rq.taskBitMap.length := by
    rw [h.words]
    unfold priMax at hlt
    omega
  have hbits : ∀ q, bitmapBit (krhinoBitmapClear s.rq.taskBitMap p) q =
      decide (Function.update ready p [] q ≠ []) := by
    intro q
    rw [bitmapBit_clear hwords]
    by_cases hq : q = p
    · simp [hq]
    · simp [hq,h.bits q]
  have hspec : (∀ q, Function.update ready p [] q ≠ [] → high ≤ q) ∧ Function.update ready p [] high ≠ [] := by
    split_ifs at hhigh with hpri
    · subst hhigh
      constructor
      · intro q hq
        refine h.highest_le q ?_
        by_cases hqp : q = p
        · simp [hqp] at hq
        · simpa [hqp] using hq
      · rw [Function.update_of_ne (Ne.symm hpri)]
        exact h.highest ⟨p,by simp [hp]⟩
    · obtain ⟨hset,hleast⟩ := ((krhinoFindFirstBit_spec _).1 high).mp hhigh
      rw [hbits,decide_eq_true_eq] at hset
      refine ⟨?_,hset⟩
      intro q hq
      by_contra hlt'
      have hzero := hleast q (not_le.mp hlt')
      rw [hbits,decide_eq_false_iff_not] at hzero
      exact hzero hq
  refine ⟨?_,?_,?_,?_,?_,by simp [h.words],hbits,hspec.1,fun _ => hspec.2,?_⟩
  · intro q
    by_cases hq : q = p
    · subst hq
      simp
    · simp [hq,h.cur q]
  · intro q x l hcons
    by_cases hq : q = p
    · subst hq
      simp at hcons
    · exact h.ring q x l (by simpa [hq] using hcons)
  · intro q
    by_cases hq : q = p
    · subst hq
      simp
    · simpa [hq] using h.nodup q
  · intro q x hx
    by_cases hq : q = p
    · subst hq
      simp at hx
    · exact h.prio q x (by simpa [hq] using hx)
  · intro q hne
    by_cases hq : q = p
    · subst hq
      exact hlt
    · exact h.bound q (by simpa [hq] using hne)
  · intro hall
    obtain ⟨q,hqp,hq⟩ := hother
    exact absurd (hall q) (by simpa [hqp] using hq)

/-- A task leaves the queue while another one stays in it. -/
theorem Represents.rm (h : Represents s ready) (ht : t ∈ ready (s.prio t))
    (hother : ∃ q x, x ∈ ready q ∧ x ≠ t) :
    ∃ s', readyListRm s t = some s' ∧ s'.prio = s.prio ∧ s'.active = s.active ∧
      Represents s' (listsRm ready (s.prio t) t) := by
  unfold readyListRm listsRm
  have hnd := h.nodup (s.prio t)
  simp only
  rw [h.cur]
  obtain ⟨x,l,hp⟩ := List.exists_cons_of_ne_nil (List.ne_nil_of_mem ht)
  have hring := h.ring _ x l hp
  have hnext := hring.next_eq
  rw [hp] at ht hnd ⊢
  simp only [List.head?_cons]
  cases l with
  | nil =>
    obtain rfl : t = x := by simpa using ht
    have hself : s.links.next t = t := hnext
    have hrest : ∃ q, q ≠ s.prio t ∧ ready q ≠ [] := by
      obtain ⟨q,x,hx,hne⟩ := hother
      refine ⟨q,?_,List.ne_nil_of_mem hx⟩
      rintro rfl
      rw [hp] at hx
      exact hne (List.mem_singleton.mp hx)
    rw [hself,if_neg (by simp),List.erase_cons_head]
    by_cases hpri : s.prio t ≠ s.rq.highestPri
    · rw [if_pos hpri]
      exact ⟨_,rfl,rfl,rfl,h.clear hp hrest (by rw [if_pos hpri])⟩
    · rw [if_neg hpri]
      cases hfind : krhinoFindFirstBit (krhinoBitmapClear s.rq.taskBitMap (s.prio t)) with
      | some high => exact ⟨_,rfl,rfl,rfl,h.clear hp hrest (by rw [if_neg hpri,hfind])⟩
      | none =>
        obtain ⟨q,hq,hne⟩ := hrest
        have hlt := h.bound (s.prio t) (by simp [hp])
        have hzero := (krhinoFindFirstBit_spec _).2.mp hfind q
        rw [bitmapBit_clear (by rw [h.words]; unfold priMax at hlt; omega),if_neg hq,h.bits q,
          decide_eq_false_iff_not] at hzero
        exact absurd hne hzero
  | cons y l =>
    have hxy : x ≠ s.links.next x := by
      rw [hnext]
      exact fun heq => (List.nodup_cons.mp hnd).1 (heq ▸ List.mem_cons_self)
    rw [if_pos hxy]
    refine ⟨_,rfl,rfl,rfl,?_⟩
    have hne : ready (s.prio t) ≠ [] := hp ▸ List.cons_ne_nil _ _
    have haway := h.remove_away hp (hp ▸ ht)
    have hall : ∀ z ∈ x :: y :: l, s.prio z = s.prio t := fun z hz => h.prio _ z (hp ▸ hz)
    by_cases hxt : x = t
    · subst hxt
      rw [List.erase_cons_head]
      refine h.replace hne (m := klistRm s.links x) ?_ rfl rfl rfl rfl (List.nodup_cons.mp hnd).2
        (fun z hz => hall z (List.mem_cons_of_mem _ hz)) ?_ haway
      · rw [if_pos rfl,hnext]
        rfl
      · rw [klistRm_eq]
        exact hring.remove_head hnd
    · obtain ⟨l1,l2,hl⟩ := List.append_of_mem ((List.mem_cons.mp ht).resolve_left (Ne.symm hxt))
      rw [hl] at hring hnd hall ⊢
      have htl : t ∉ x :: l1 := by
        rw [← List.cons_append] at hnd
        exact fun hmem => (List.nodup_append.mp hnd).2.2 t hmem t List.mem_cons_self rfl
      have herase : (x :: (l1 ++ t :: l2)).erase t = x :: (l1 ++ l2) := by
        rw [← List.cons_append,List.erase_append_right _ htl,List.erase_cons_head,List.cons_append]
      have hsub : (x :: (l1 ++ l2)).Sublist (x :: (l1 ++ t :: l2)) :=
        (List.Sublist.append_left (List.sublist_cons_self t l2) l1).cons_cons x
      rw [herase]
      refine h.replace hne (m := klistRm s.links t) ?_ rfl rfl rfl rfl (hsub.nodup hnd)
        (fun z hz => hall z (hsub.subset hz)) (klistRm_ring hring hnd) haway
      rw [if_neg hxt]
      exact (Function.update_eq_self_iff.mpr (by rw [h.cur,hp]; rfl)).symm

omit [DecidableEq T] in
theorem Represents.rotate (h : Represents s ready) (hne : ready (s.prio t) ≠ []) :
    ∃ s', readyListHeadToTail s t = some s' ∧ s'.prio = s.prio ∧ s'.active = s.active ∧
      Represents s' (listsRotate ready (s.prio t)) := by
  unfold readyListHeadToTail listsRotate
  obtain ⟨x,l,hp⟩ := List.exists_cons_of_ne_nil hne
  have hring := h.ring _ x l hp
  have hnd := h.ring_nodup hp
  rw [h.cur,hp]
  refine ⟨_,rfl,rfl,rfl,?_⟩
  have hcur : Function.update s.rq.curListItem (s.prio t) (some (s.links.next x)) =
      Function.update s.rq.curListItem (s.prio t) (some (l.headD x)) :=
    congrArg (fun z => Function.update s.rq.curListItem (s.prio t) (some z)) hring.next_eq
  have haway : ∀ q y r, q ≠ s.prio t → ready q = y :: r → Ring s.links y r :=
    fun q y r _ hq => h.ring q y r hq
  have hall : ∀ z ∈ x :: l, s.prio z = s.prio t := fun z hz => h.prio _ z (hp ▸ hz)
  cases l with
  | nil => exact h.replace hne hcur rfl rfl rfl rfl hnd hall hring haway
  | cons y l =>
    have hperm : (y :: (l ++ [x])).Perm (x :: y :: l) := List.perm_append_singleton x (y :: l)
    exact h.replace hne hcur rfl rfl rfl rfl (hperm.nodup_iff.mpr hnd)
      (fun z hz => hall z (hperm.mem_iff.mp hz)) ((ring_rotate (l := [])).mp hring) haway

/-! ## Runs -/

/-- What the kernel does with the queue: a task that is in no list may get another
priority, and the preferred task is made the running one. -/
inductive ReadyCall (T : Type*)
  | add (task : T)
  | addHead (task : T)
  | addTail (task : T)
  | rm (task : T)
  | headToTail (task : T)
  | setPrio (task : T) (pri : ℕ)
  | switch

/-- The queue as the code has it. -/
def readyStep (s : ReadyQueue T) : ReadyCall T → Option (ReadyQueue T)
  | .add task => some (readyListAdd s task)
  | .addHead task => some (readyListAddHead s task)
  | .addTail task => some (readyListAddTail s task)
  | .rm task => readyListRm s task
  | .headToTail task => readyListHeadToTail s task
  | .setPrio task pri => some { s with prio := Function.update s.prio task pri }
  | .switch => (preferredReadyTask s).map fun task => { s with active := task }

/-- The lists with the priorities and the running task. -/
structure ReadyLists (T : Type*) where
  ready : ℕ → List T
  prio : T → ℕ
  active : T

def ReadyLists.Unlisted (a : ReadyLists T) (task : T) : Prop := ∀ p < priMax, task ∉ a.ready p

instance (a : ReadyLists T) (task : T) : Decidable (a.Unlisted task) :=
  inferInstanceAs (Decidable (∀ p < priMax, task ∉ a.ready p))

/-- The lists under the calls that the kernel makes: it adds tasks that are in no
list, takes out tasks that are in theirs and never the last one of all. -/
def listsStep (a : ReadyLists T) : ReadyCall T → Option (ReadyLists T)
  | .add task =>
    if a.prio task < priMax ∧ a.Unlisted task then
      some { a with
        ready :=
          if a.prio task = a.prio a.active then listsAddTail a.ready (a.prio task) task
          else listsAddHead a.ready (a.prio task) task }
    else none
  | .addHead task =>
    if a.prio task < priMax ∧ a.Unlisted task then
      some { a with ready := listsAddHead a.ready (a.prio task) task }
    else none
  | .addTail task =>
    if a.prio task < priMax ∧ a.Unlisted task then
      some { a with ready := listsAddTail a.ready (a.prio task) task }
    else none
  | .rm task =>
    if task ∈ a.ready (a.prio task) ∧ ∃ q < priMax, ∃ x ∈ a.ready q, x ≠ task then
      some { a with ready := listsRm a.ready (a.prio task) task }
    else none
  | .headToTail task =>
    if a.ready (a.prio task) ≠ [] then some { a with ready := listsRotate a.ready (a.prio task) } else none
  | .setPrio task pri => if a.Unlisted task then some { a with prio := Function.update a.prio task pri } else none
  | .switch => (listsPreferred a.ready).map fun task => { a with active := task }

/-- The queue and the lists agree. -/
def Agree (s : ReadyQueue T) (a : ReadyLists T) : Prop :=
  Represents s a.ready ∧ s.prio = a.prio ∧ s.active = a.active

omit [DecidableEq T] in
theorem Agree.unlisted {a : ReadyLists T} (h : Agree s a) (ht : a.Unlisted t) (p : ℕ) : t ∉ a.ready p := by
  rcases Nat.lt_or_ge p priMax with hlt | hge
  · exact ht p hlt
  · intro hmem
    exact absurd (h.1.bound p (List.ne_nil_of_mem hmem)) (not_lt.mpr hge)

/-- A priority is changed while the task is in no list. -/
theorem Represents.setPrio (h : Represents s ready) (ht : ∀ p, t ∉ ready p) (pri : ℕ) :
    Represents { s with prio := Function.update s.prio t pri } ready := by
  refine ⟨h.cur,h.ring,h.nodup,?_,h.bound,h.words,h.bits,h.highest_le,h.highest,h.vacant⟩
  intro p x hx
  exact (Function.update_of_ne (ne_of_mem_of_not_mem hx (ht p)) _ _).trans (h.prio p x hx)

@[simp] theorem readyListAddTail_prio (s : ReadyQueue T) (t : T) : (readyListAddTail s t).prio = s.prio := by
  unfold readyListAddTail
  split <;> rfl

@[simp] theorem readyListAddTail_active (s : ReadyQueue T) (t : T) :
    (readyListAddTail s t).active = s.active := by
  unfold readyListAddTail
  split <;> rfl

@[simp] theorem readyListAddHead_prio (s : ReadyQueue T) (t : T) : (readyListAddHead s t).prio = s.prio := by
  unfold readyListAddHead
  split <;> rfl

@[simp] theorem readyListAddHead_active (s : ReadyQueue T) (t : T) :
    (readyListAddHead s t).active = s.active := by
  unfold readyListAddHead
  split <;> rfl

/-- Every call on the lists is one on the queue. -/
theorem Agree.step {a a' : ReadyLists T} (h : Agree s a) (c : ReadyCall T) (hc : listsStep a c = some a') :
    ∃ s', readyStep s c = some s' ∧ Agree s' a' := by
  obtain ⟨hrep,hprio,hactive⟩ := h
  have hun : ∀ {x}, a.Unlisted x → ∀ p, x ∉ a.ready p := Agree.unlisted ⟨hrep,hprio,hactive⟩
  cases c with
  | add task =>
    simp only [listsStep,Option.ite_none_right_eq_some,Option.some.injEq] at hc
    obtain ⟨⟨hlt,ht⟩,rfl⟩ := hc
    have hadd := hrep.add (t := task) (hprio ▸ hlt) (hun ht)
    rw [hprio,hactive] at hadd
    refine ⟨_,rfl,hadd,?_,?_⟩
    · unfold readyListAdd
      split_ifs <;> simpa using hprio
    · unfold readyListAdd
      split_ifs <;> simpa using hactive
  | addHead task =>
    simp only [listsStep,Option.ite_none_right_eq_some,Option.some.injEq] at hc
    obtain ⟨⟨hlt,ht⟩,rfl⟩ := hc
    have hadd := hrep.addHead (t := task) (hprio ▸ hlt) (hun ht)
    rw [hprio] at hadd
    exact ⟨_,rfl,hadd,by simpa using hprio,by simpa using hactive⟩
  | addTail task =>
    simp only [listsStep,Option.ite_none_right_eq_some,Option.some.injEq] at hc
    obtain ⟨⟨hlt,ht⟩,rfl⟩ := hc
    have hadd := hrep.addTail (t := task) (hprio ▸ hlt) (hun ht)
    rw [hprio] at hadd
    exact ⟨_,rfl,hadd,by simpa using hprio,by simpa using hactive⟩
  | rm task =>
    simp only [listsStep,Option.ite_none_right_eq_some,Option.some.injEq] at hc
    obtain ⟨⟨ht,q,-,x,hx,hne⟩,rfl⟩ := hc
    obtain ⟨s',hs',hprio',hactive',hrep'⟩ := hrep.rm (t := task) (hprio ▸ ht) ⟨q,x,hx,hne⟩
    rw [hprio] at hrep'
    exact ⟨s',hs',hrep',hprio'.trans hprio,hactive'.trans hactive⟩
  | headToTail task =>
    simp only [listsStep,Option.ite_none_right_eq_some,Option.some.injEq] at hc
    obtain ⟨hne,rfl⟩ := hc
    obtain ⟨s',hs',hprio',hactive',hrep'⟩ := hrep.rotate (t := task) (hprio ▸ hne)
    rw [hprio] at hrep'
    exact ⟨s',hs',hrep',hprio'.trans hprio,hactive'.trans hactive⟩
  | setPrio task pri =>
    simp only [listsStep,Option.ite_none_right_eq_some,Option.some.injEq] at hc
    obtain ⟨ht,rfl⟩ := hc
    exact ⟨_,rfl,hrep.setPrio (hun ht) pri,by simp only [hprio],hactive⟩
  | switch =>
    obtain ⟨task,htask,rfl⟩ := Option.map_eq_some_iff.mp hc
    have hne : ∃ p, a.ready p ≠ [] := by
      obtain ⟨p,-,hp⟩ := List.exists_of_findSome?_eq_some htask
      exact ⟨p,by rintro hnil; simp [hnil] at hp⟩
    have hpref := (hrep.preferred hne).1.trans htask
    exact ⟨{ s with active := task },by simp [readyStep,hpref],
      ⟨hrep.cur,hrep.ring,hrep.nodup,hrep.prio,hrep.bound,hrep.words,hrep.bits,hrep.highest_le,hrep.highest,
        hrep.vacant⟩,hprio,rfl⟩

/-- Whatever the kernel does with it, the queue goes along with the lists: a
priority has its bit and its ring exactly where it has tasks, and the task that
is switched to is the first one of the highest priority with any. -/
theorem ready_queue_follows (links : Links T) (prio : T → ℕ) (active : T) {cs : List (ReadyCall T)}
    {a : ReadyLists T} (hrun : Runs listsStep ⟨fun _ => [],prio,active⟩ cs a) :
    ∃ s, Runs readyStep ⟨links,runqueueInit,prio,active⟩ cs s ∧
      (∀ p, bitmapBit s.rq.taskBitMap p = decide (a.ready p ≠ [])) ∧
      (∀ p x l, a.ready p = x :: l → s.rq.curListItem p = some x ∧ Ring s.links x l) ∧
      ((∃ p, a.ready p ≠ []) →
        preferredReadyTask s = listsPreferred a.ready ∧ a.ready s.rq.highestPri ≠ [] ∧
          ∀ p, a.ready p ≠ [] → s.rq.highestPri ≤ p) := by
  suffices h : ∃ s, Runs readyStep ⟨links,runqueueInit,prio,active⟩ cs s ∧ Agree s a by
    obtain ⟨s,hs,hrep,-,-⟩ := h
    refine ⟨s,hs,hrep.bits,?_,fun hne => ⟨(hrep.preferred hne).1,hrep.highest hne,hrep.highest_le⟩⟩
    intro p x l hp
    exact ⟨by rw [hrep.cur,hp]; rfl,hrep.ring p x l hp⟩
  induction hrun with
  | refl => exact ⟨_,Runs.refl _,represents_init links prio active,rfl,rfl⟩
  | tail _ hlast ih =>
    obtain ⟨s,hs,hagree⟩ := ih
    obtain ⟨s',hs',hagree'⟩ := hagree.step _ hlast
    exact ⟨s',hs.tail hs',hagree'⟩

/-- Two tasks of one priority and a third one, the first of them taken out again. -/
theorem ready_queue_follows_three :
    ∃ s : ReadyQueue (Fin 4),
      Runs readyStep ⟨⟨id,id⟩,runqueueInit,fun t => 10 - t.val,0⟩
          [.add 1,.addTail 2,.addTail 3,.switch,.rm 3,.switch] s ∧
        preferredReadyTask s = some 2 := by
  have hexec : (exec listsStep (⟨fun _ => [],fun t => 10 - t.val,0⟩ : ReadyLists (Fin 4))
      [.add 1,.addTail 2,.addTail 3,.switch,.rm 3,.switch]).map
        (fun a => (decide (a.ready 8 ≠ []),listsPreferred a.ready)) = some (true,some 2) := by decide +kernel
  obtain ⟨a,ha,hseen⟩ := Runs.exists_of_exec (P := fun a => (∃ p, a.ready p ≠ []) ∧ listsPreferred a.ready = some 2)
    _ hexec (fun a _ hv => by
      obtain ⟨hne,hpref⟩ := Prod.mk.injEq .. ▸ hv
      exact ⟨⟨8,of_decide_eq_true hne⟩,hpref⟩)
  obtain ⟨s,hs,-,-,hpref⟩ := ready_queue_follows ⟨id,id⟩ (fun t : Fin 4 => 10 - t.val) 0 ha
  exact ⟨s,hs,(hpref hseen.1).1.trans hseen.2⟩

end FmacSdk.Rhino
