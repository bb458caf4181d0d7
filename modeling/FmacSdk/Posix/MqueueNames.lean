import FmacSdk.Foundation.CString
import FmacSdk.Foundation.Transition
import Mathlib.Data.List.Find
import Mathlib.Data.List.Nodup

/-! # The names of message queues

mq_open looks a name up in mq_list and adds a queue in two critical sections, and
keeps the first 31 bytes of the name. Names are for a map to descriptors.
-/
namespace FmacSdk.MqueueNames
open CString Transition
variable {ι : Type*}

/-- A string without its terminator. -/
abbrev Name := { s : List UInt8 // 0 ∉ s }

/-- A struct pthread_mq, with the name it was opened under. -/
structure PthreadMq where
  addr : ℕ
  name : ℕ → UInt8
  opened : Name

/-- The next statement of mq_open or mq_unlink. -/
inductive Pc
  | out
  | openFind (name : Name)
  | openAlloc (name : Name)
  | openAdd (name : Name) (mq : ℕ)
  | unlinkFind (name : Name)
  | unlinkFree (mq : ℕ)

/-- mq_open finds or adds the queue that it returns, or mq_unlink unlinks one or none. -/
inductive Event
  | opened (name : Name) (mqd : ℕ)
  | unlinked (name : Name) (mqd : Option ℕ)
deriving DecidableEq

/-- Who has a block. -/
inductive Owner (ι : Type*)
  | list
  | thread (i : ι)
deriving DecidableEq

/-- With the events so far, latest first. -/
structure Sys (ι : Type*) where
  mqList : List PthreadMq
  heap : ℕ → Option (Owner ι)
  pc : ι → Pc
  log : List Event

/-- A call, a statement, or an os_zalloc that succeeds at an address. -/
inductive Label (ι : Type*)
  | mqOpen (i : ι) (name : Name)
  | mqUnlink (i : ι) (name : Name)
  | go (i : ι)
  | zalloc (i : ι) (a : ℕ)

/-- os_strcmp(next->name, name) == 0 -/
def PthreadMq.isNamed (mq : PthreadMq) (name : Name) : Bool := (strcmp name.1 mq.name).1

/-- mq_list_find, without the removal. -/
def mqListFind (l : List PthreadMq) (name : Name) : Option PthreadMq := l.find? fun mq => mq.isNamed name

/-- The list that mq_list_find leaves where unlink is set. -/
def mqListUnlink (l : List PthreadMq) (name : Name) : List PthreadMq := l.eraseP fun mq => mq.isNamed name

/-- The struct that mq_open fills in. -/
def initialized (a : ℕ) (name : Name) : PthreadMq := ⟨a,strncpy 31 name.1 fun _ => 0,name⟩

def Sys.give (s : Sys ι) (a : ℕ) (o : Option (Owner ι)) : Sys ι := { s with heap := Function.update s.heap a o }

def Sys.record (s : Sys ι) (e : Event) : Sys ι := { s with log := e :: s.log }

@[simp] theorem give_log (s : Sys ι) (a : ℕ) (o : Option (Owner ι)) : (s.give a o).log = s.log := rfl

@[simp] theorem record_log (s : Sys ι) (e : Event) : (s.record e).log = e :: s.log := rfl

section Code
variable [DecidableEq ι]

def Sys.at (s : Sys ι) (i : ι) (p : Pc) : Sys ι := { s with pc := Function.update s.pc i p }

@[simp] theorem at_log (s : Sys ι) (i : ι) (p : Pc) : (s.at i p).log = s.log := rfl

def Sys.go (s : Sys ι) (i : ι) : Pc → Option (Sys ι)
  | .openFind name =>
    match mqListFind s.mqList name with
    | some mq => some ((s.at i .out).record (.opened name mq.addr))
    | none => some (s.at i (.openAlloc name))
  | .openAdd name a =>
    let s := { s with mqList := initialized a name :: s.mqList }
    some (((s.give a (some .list)).at i .out).record (.opened name a))
  | .unlinkFind name =>
    match mqListFind s.mqList name with
    | some mq =>
      let s := { s with mqList := mqListUnlink s.mqList name }
      some (((s.give mq.addr (some (.thread i))).at i (.unlinkFree mq.addr)).record (.unlinked name (some mq.addr)))
    | none => some ((s.at i .out).record (.unlinked name none))
  | .unlinkFree a => some ((s.give a none).at i .out)
  | .out | .openAlloc _ => none

def step (s : Sys ι) : Label ι → Option (Sys ι)
  | .mqOpen i name => match s.pc i with
    | .out => some (s.at i (.openFind name))
    | _ => none
  | .mqUnlink i name => match s.pc i with
    | .out => some (s.at i (.unlinkFind name))
    | _ => none
  | .go i => s.go i (s.pc i)
  | .zalloc i a => match s.pc i with
    | .openAlloc name =>
      if a ≠ 0 ∧ s.heap a = none then some ((s.give a (some (.thread i))).at i (.openAdd name a)) else none
    | _ => none

end Code

/-- No queue is open. -/
def start : Sys ι := ⟨[],fun _ => none,fun _ => .out,[]⟩

/-- The queue that is open under a name: the latest, unless the name was unlinked since. -/
def queue (name : Name) : List Event → Option ℕ
  | [] => none
  | .opened name' d :: log => if name' = name then some d else queue name log
  | .unlinked name' _ :: log => if name' = name then none else queue name log

/-- What names are for. -/
structure Named (log : List Event) : Prop where
  same : ∀ name d d' l₁ l₂ l₃, log = l₁ ++ .opened name d' :: l₂ ++ .opened name d :: l₃ →
    (∀ r, .unlinked name r ∉ l₂) → d = d'
  apart : ∀ name name' d d', .opened name d ∈ log → .opened name' d' ∈ log → name ≠ name' → d ≠ d'
  unlinks : ∀ name r l₁ l₂, log = l₁ ++ .unlinked name r :: l₂ → r = queue name l₂

/-- The first queue in the list under whose name, cut, a name is found. -/
def Sys.first (s : Sys ι) (name : Name) : Option PthreadMq := s.mqList.find? fun mq => mq.opened.1.take 31 = name.1

/-- The descriptor was returned for another name. -/
def Event.clashes (name : Name) (a : ℕ) : Event → Bool
  | .opened name' d => decide (name' ≠ name ∧ d = a)
  | .unlinked .. => false

/-- The queue that is found was opened under another name, or one that was opened under the
name is not found or was added since, or the address was that of a queue of another name. -/
def Confuses (s : Sys ι) : Label ι → Prop
  | .go i => match s.pc i with
    | .openFind name => ∃ mq ∈ s.first name, mq.opened ≠ name
    | .openAdd name a => (∃ mq ∈ s.mqList, mq.opened = name) ∨ ∃ e ∈ s.log, e.clashes name a
    | .unlinkFind name => match s.first name with
      | some mq => mq.opened ≠ name
      | none => ∃ mq ∈ s.mqList, mq.opened = name
    | _ => False
  | _ => False

instance (s : Sys ι) (l : Label ι) : Decidable (Confuses s l) := by
  unfold Confuses
  split
  · split
    · infer_instance
    · infer_instance
    · split <;> infer_instance
    · infer_instance
  · infer_instance

section Logs
variable {name : Name} {d : ℕ} {r : Option ℕ} {log l : List Event}

/-- The queue of a name was opened under it, and the name was not unlinked since. -/
theorem queue_split (h : queue name log = some d) :
    ∃ l₁ l₂, log = l₁ ++ .opened name d :: l₂ ∧ ∀ r, .unlinked name r ∉ l₁ := by
  induction log with
  | nil => simp [queue] at h
  | cons e log ih =>
    cases e with
    | opened name' d' =>
      simp only [queue] at h
      split_ifs at h with hname
      · obtain rfl := Option.some.inj h
        exact ⟨[],log,by rw [hname]; rfl,by simp⟩
      · obtain ⟨l₁,l₂,rfl,hlinked⟩ := ih h
        exact ⟨.opened name' d' :: l₁,l₂,rfl,by simpa using hlinked⟩
    | unlinked name' r =>
      simp only [queue] at h
      split_ifs at h with hname
      obtain ⟨l₁,l₂,rfl,hlinked⟩ := ih h
      exact ⟨.unlinked name' r :: l₁,l₂,rfl,by simpa [Ne.symm hname] using hlinked⟩

theorem queue_mem (h : queue name log = some d) : .opened name d ∈ log := by
  obtain ⟨l₁,l₂,rfl,-⟩ := queue_split h
  simp

theorem Named.tail {e : Event} (h : Named (e :: log)) : Named log := by
  refine ⟨fun name d d' l₁ l₂ l₃ hlog => ?_,fun name name' d d' hd hd' => ?_,fun name r l₁ l₂ hlog => ?_⟩
  · exact h.same name d d' (e :: l₁) l₂ l₃ (by rw [hlog]; rfl)
  · exact h.apart name name' d d' (List.mem_cons_of_mem _ hd) (List.mem_cons_of_mem _ hd')
  · exact h.unlinks name r (e :: l₁) l₂ (by rw [hlog]; rfl)

/-- All openings of a name since it was unlinked are of one queue. -/
theorem Named.queue_eq (h : Named (l ++ .opened name d :: log)) (hlinked : ∀ r, .unlinked name r ∉ l) :
    queue name (l ++ .opened name d :: log) = some d := by
  induction l with
  | nil => simp [queue]
  | cons e l ih =>
    have hrest := ih h.tail fun r hr => hlinked r (List.mem_cons_of_mem _ hr)
    cases e with
    | opened name' d' =>
      by_cases hname : name' = name
      · obtain rfl := hname
        have heq := h.same name' d d' [] l log rfl fun r hr => hlinked r (List.mem_cons_of_mem _ hr)
        simp [queue,heq]
      · simpa [queue,hname] using hrest
    | unlinked name' r =>
      have hname : name' ≠ name := by
        rintro rfl
        exact hlinked r List.mem_cons_self
      simpa [queue,hname] using hrest

theorem named_opened_iff : Named (.opened name d :: log) ↔ Named log ∧
    (∀ d', queue name log = some d' → d' = d) ∧ ∀ name' d', .opened name' d' ∈ log → name' ≠ name → d' ≠ d := by
  constructor
  · intro h
    refine ⟨h.tail,fun d' hd' => ?_,fun name' d' hd' hname => ?_⟩
    · obtain ⟨l₂,l₃,hlog,hlinked⟩ := queue_split hd'
      exact h.same name d' d [] l₂ l₃ (by rw [hlog]; rfl) hlinked
    · exact h.apart name' name d' d (List.mem_cons_of_mem _ hd') List.mem_cons_self hname
  · rintro ⟨h,hsame,hapart⟩
    refine ⟨fun name₁ d₁ d₂ l₁ l₂ l₃ hlog hlinked => ?_,fun name₁ name₂ d₁ d₂ h₁ h₂ hne => ?_,fun name₁ r l₁ l₂ hlog => ?_⟩
    · cases l₁ with
      | nil =>
        obtain ⟨heq,rfl⟩ := List.cons.inj hlog
        obtain ⟨rfl,rfl⟩ := Event.opened.inj heq
        exact hsame d₁ (h.queue_eq hlinked)
      | cons e l₁ => exact h.same name₁ d₁ d₂ l₁ l₂ l₃ (List.cons.inj hlog).2 hlinked
    · rcases List.mem_cons.mp h₁ with hnew₁ | hold₁ <;> rcases List.mem_cons.mp h₂ with hnew₂ | hold₂
      · obtain ⟨rfl,rfl⟩ := Event.opened.inj hnew₁
        exact absurd (Event.opened.inj hnew₂).1.symm hne
      · obtain ⟨rfl,rfl⟩ := Event.opened.inj hnew₁
        exact (hapart name₂ d₂ hold₂ hne.symm).symm
      · obtain ⟨rfl,rfl⟩ := Event.opened.inj hnew₂
        exact hapart name₁ d₁ hold₁ hne
      · exact h.apart name₁ name₂ d₁ d₂ hold₁ hold₂ hne
    · cases l₁ with
      | nil => exact absurd (List.cons.inj hlog).1 (by simp)
      | cons e l₁ => exact h.unlinks name₁ r l₁ l₂ (List.cons.inj hlog).2

theorem named_unlinked_iff : Named (.unlinked name r :: log) ↔ Named log ∧ r = queue name log := by
  constructor
  · intro h
    exact ⟨h.tail,h.unlinks name r [] log rfl⟩
  · rintro ⟨h,rfl⟩
    refine ⟨fun name₁ d₁ d₂ l₁ l₂ l₃ hlog => ?_,fun name₁ name₂ d₁ d₂ h₁ h₂ => ?_,fun name₁ r l₁ l₂ hlog => ?_⟩
    · cases l₁ with
      | nil => exact absurd (List.cons.inj hlog).1 (by simp)
      | cons e l₁ => exact h.same name₁ d₁ d₂ l₁ l₂ l₃ (List.cons.inj hlog).2
    · exact h.apart name₁ name₂ d₁ d₂ (by simpa using h₁) (by simpa using h₂)
    · cases l₁ with
      | nil =>
        obtain ⟨heq,rfl⟩ := List.cons.inj hlog
        obtain ⟨rfl,rfl⟩ := Event.unlinked.inj heq
        rfl
      | cons e l₁ => exact h.unlinks name₁ r l₁ l₂ (List.cons.inj hlog).2

end Logs

/-- The block that a thread has. -/
def Pc.block : Pc → Option ℕ
  | .openAdd _ a | .unlinkFree a => some a
  | _ => none

structure Inv (s : Sys ι) : Prop where
  named : Named s.log
  stored : ∀ mq ∈ s.mqList, mq = initialized mq.addr mq.opened
  listed : ∀ mq ∈ s.mqList, s.heap mq.addr = some .list
  nodup : (s.mqList.map PthreadMq.addr).Nodup
  blocks : ∀ i a, (s.pc i).block = some a → s.heap a = some (.thread i)
  queues : ∀ name d, queue name s.log = some d ↔ ∃ mq ∈ s.mqList, mq.opened = name ∧ mq.addr = d

section Steps
variable {s t : Sys ι} {i : ι} {p : Pc} {name : Name} {mq : PthreadMq} {a : ℕ} {o : Owner ι} {l : Label ι}

theorem Inv.start : Inv (start : Sys ι) := by
  refine ⟨⟨?_,?_,?_⟩,?_,?_,?_,?_,?_⟩ <;> simp [MqueueNames.start,Pc.block,queue]

theorem isNamed_iff (a : ℕ) (name name' : Name) :
    (initialized a name').isNamed name = true ↔ name'.1.take 31 = name.1 :=
  strcmp_zeros_iff name.2 name'.2

/-- mq_list_find goes by the names, cut to 31 bytes. -/
theorem Inv.find_eq (h : Inv s) (name : Name) : mqListFind s.mqList name = s.first name := by
  apply List.find?_congr
  intro mq hmq
  have hstored := h.stored mq hmq
  rw [hstored,Bool.eq_iff_iff,isNamed_iff]
  exact decide_eq_true_iff.symm

/-- The queue that is found is the one that is removed. -/
theorem perm_unlink {l : List PthreadMq} (h : mqListFind l name = some mq) : l.Perm (mq :: mqListUnlink l name) := by
  obtain ⟨hnamed,l₁,l₂,rfl,hbefore⟩ := List.find?_eq_some_iff_append.mp h
  rw [mqListUnlink,List.eraseP_append_right _ (by simpa using hbefore)]
  have hunlink : (mq :: l₂).eraseP (fun mq => mq.isNamed name) = l₂ := List.eraseP_cons_of_pos hnamed
  rw [hunlink]
  exact List.perm_middle

/-- Two queues in the list under one name are one. -/
theorem Inv.unique {mq' : PthreadMq} (h : Inv s) (hmq : mq ∈ s.mqList) (hmq' : mq' ∈ s.mqList)
    (hname : mq.opened = mq'.opened) : mq = mq' := by
  have hqueue := (h.queues _ _).mpr ⟨mq,hmq,rfl,rfl⟩
  have hqueue' := (h.queues _ _).mpr ⟨mq',hmq',rfl,rfl⟩
  rw [hname,hqueue'] at hqueue
  exact List.inj_on_of_nodup_map h.nodup hmq hmq' (Option.some.inj hqueue).symm

theorem Inv.queue_none (h : Inv s) (hnone : ∀ mq ∈ s.mqList, mq.opened ≠ name) : queue name s.log = none := by
  apply Option.eq_none_iff_forall_ne_some.mpr
  intro d hd
  obtain ⟨mq,hmq,hname,-⟩ := (h.queues name d).mp hd
  exact hnone mq hmq hname

theorem Inv.opened_mem (h : Inv s) (hmq : mq ∈ s.mqList) : .opened mq.opened mq.addr ∈ s.log :=
  queue_mem ((h.queues _ _).mpr ⟨mq,hmq,rfl,rfl⟩)

theorem Inv.found_iff (h : Inv s) (hmq : mq ∈ s.mqList) :
    Named (.opened name mq.addr :: s.log) ↔ mq.opened = name := by
  rw [named_opened_iff]
  constructor
  · rintro ⟨-,-,hapart⟩
    by_contra hne
    exact hapart _ _ (h.opened_mem hmq) hne rfl
  · rintro rfl
    refine ⟨h.named,fun d' hd' => ?_,fun name' d' hd' hne => ?_⟩
    · obtain ⟨mq',hmq',hname,rfl⟩ := (h.queues _ _).mp hd'
      rw [h.unique hmq' hmq hname]
    · exact h.named.apart _ _ _ _ hd' (h.opened_mem hmq) hne

theorem Inv.added_iff (h : Inv s) (ha : s.heap a = some (.thread i)) : Named (.opened name a :: s.log) ↔
    ¬ ((∃ mq ∈ s.mqList, mq.opened = name) ∨ ∃ e ∈ s.log, e.clashes name a) := by
  rw [named_opened_iff]
  constructor
  · rintro ⟨-,hsame,hapart⟩ (⟨mq,hmq,hname⟩ | ⟨e,he,hclash⟩)
    · obtain rfl := hsame _ ((h.queues _ _).mpr ⟨mq,hmq,hname,rfl⟩)
      have hlisted := h.listed mq hmq
      simp [ha] at hlisted
    · cases e with
      | opened name' d =>
        obtain ⟨hne,rfl⟩ := of_decide_eq_true hclash
        exact hapart name' d he hne rfl
      | unlinked name' r => simp [Event.clashes] at hclash
  · intro hgood
    refine ⟨h.named,fun d' hd' => ?_,fun name' d' hd' hne => ?_⟩
    · obtain ⟨mq,hmq,hname,-⟩ := (h.queues _ _).mp hd'
      exact absurd (Or.inl ⟨mq,hmq,hname⟩) hgood
    · rintro rfl
      exact hgood (Or.inr ⟨_,hd',decide_eq_true ⟨hne,rfl⟩⟩)

theorem Inv.unlinked_some_iff (h : Inv s) (hmq : mq ∈ s.mqList) :
    Named (.unlinked name (some mq.addr) :: s.log) ↔ mq.opened = name := by
  rw [named_unlinked_iff]
  constructor
  · rintro ⟨-,hqueue⟩
    obtain ⟨mq',hmq',hname,haddr⟩ := (h.queues _ _).mp hqueue.symm
    rwa [List.inj_on_of_nodup_map h.nodup hmq hmq' haddr.symm]
  · rintro rfl
    exact ⟨h.named,((h.queues _ _).mpr ⟨mq,hmq,rfl,rfl⟩).symm⟩

theorem Inv.unlinked_none_iff (h : Inv s) :
    Named (.unlinked name none :: s.log) ↔ ¬ ∃ mq ∈ s.mqList, mq.opened = name := by
  rw [named_unlinked_iff]
  constructor
  · rintro ⟨-,hqueue⟩ ⟨mq,hmq,hname⟩
    have hsome := (h.queues _ _).mpr ⟨mq,hmq,hname,rfl⟩
    simp [← hqueue] at hsome
  · intro hnone
    refine ⟨h.named,(h.queue_none fun mq hmq hname => hnone ⟨mq,hmq,hname⟩).symm⟩

variable [DecidableEq ι]

/-- A step enters a call or finds nothing to open, or does something to the heap, the list or the log. -/
theorem Inv.step_cases (h : Inv s) (hs : step s l = some t) :
    (∃ i p, ¬ Confuses s l ∧ p.block = none ∧ t = s.at i p) ∨
    (∃ i name a, l = .zalloc i a ∧ s.heap a = none ∧ t = (s.give a (some (.thread i))).at i (.openAdd name a)) ∨
    (∃ i name mq, l = .go i ∧ s.pc i = .openFind name ∧ s.first name = some mq ∧
      t = (s.at i .out).record (.opened name mq.addr)) ∨
    (∃ i name a, l = .go i ∧ s.pc i = .openAdd name a ∧
      t = ((Sys.give { s with mqList := initialized a name :: s.mqList } a (some .list)).at i .out).record
        (.opened name a)) ∨
    (∃ i name, l = .go i ∧ s.pc i = .unlinkFind name ∧ s.first name = none ∧
      t = (s.at i .out).record (.unlinked name none)) ∨
    (∃ i name mq, l = .go i ∧ s.pc i = .unlinkFind name ∧ s.first name = some mq ∧
      t = ((Sys.give { s with mqList := mqListUnlink s.mqList name } mq.addr (some (.thread i))).at i
        (.unlinkFree mq.addr)).record (.unlinked name (some mq.addr))) ∨
    ∃ i a, l = .go i ∧ s.pc i = .unlinkFree a ∧ t = (s.give a none).at i .out := by
  cases l with
  | mqOpen i name | mqUnlink i name =>
    simp only [step] at hs
    split at hs
    · exact Or.inl ⟨i,_,id,rfl,(Option.some.inj hs).symm⟩
    · cases hs
  | zalloc i a =>
    simp only [step] at hs
    split at hs
    · next name _ =>
      obtain ⟨hfree,hs⟩ := Option.ite_none_right_eq_some.mp hs
      exact Or.inr (Or.inl ⟨i,name,a,rfl,hfree.2,(Option.some.inj hs).symm⟩)
    · cases hs
  | go i =>
    simp only [step] at hs
    cases hpc : s.pc i with
    | out | openAlloc name => simp [hpc,Sys.go] at hs
    | openFind name =>
      simp only [hpc,Sys.go,h.find_eq] at hs
      cases hfind : s.first name with
      | none =>
        rw [hfind] at hs
        refine Or.inl ⟨i,.openAlloc name,?_,rfl,(Option.some.inj hs).symm⟩
        simp [Confuses,hpc,hfind]
      | some mq =>
        rw [hfind] at hs
        exact Or.inr (Or.inr (Or.inl ⟨i,name,mq,rfl,hpc,hfind,(Option.some.inj hs).symm⟩))
    | openAdd name a =>
      rw [hpc] at hs
      exact Or.inr (Or.inr (Or.inr (Or.inl ⟨i,name,a,rfl,hpc,(Option.some.inj hs).symm⟩)))
    | unlinkFind name =>
      simp only [hpc,Sys.go,h.find_eq] at hs
      refine Or.inr (Or.inr (Or.inr (Or.inr ?_)))
      cases hfind : s.first name with
      | none =>
        rw [hfind] at hs
        exact Or.inl ⟨i,name,rfl,hpc,hfind,(Option.some.inj hs).symm⟩
      | some mq =>
        rw [hfind] at hs
        exact Or.inr (Or.inl ⟨i,name,mq,rfl,hpc,hfind,(Option.some.inj hs).symm⟩)
    | unlinkFree a =>
      rw [hpc] at hs
      exact Or.inr (Or.inr (Or.inr (Or.inr (Or.inr (Or.inr ⟨i,a,rfl,hpc,(Option.some.inj hs).symm⟩)))))

/-- The names go wrong at the steps that confuse them. -/
theorem Inv.named_iff (h : Inv s) (hs : step s l = some t) : Named t.log ↔ ¬ Confuses s l := by
  obtain ⟨i,p,hgood,-,rfl⟩ | ⟨i,name,a,rfl,-,rfl⟩ | ⟨i,name,mq,rfl,hpc,hfind,rfl⟩ | ⟨i,name,a,rfl,hpc,rfl⟩ |
    ⟨i,name,rfl,hpc,hfind,rfl⟩ | ⟨i,name,mq,rfl,hpc,hfind,rfl⟩ | ⟨i,a,rfl,hpc,rfl⟩ := h.step_cases hs
  · exact iff_of_true h.named hgood
  · exact iff_of_true h.named id
  · have hiff : Named (.opened name mq.addr :: s.log) ↔ mq.opened = name :=
      h.found_iff (List.mem_of_find?_eq_some hfind)
    simpa [Confuses,hpc,hfind] using hiff
  · simp only [Confuses,hpc]
    exact h.added_iff (h.blocks i a (by rw [hpc]; rfl))
  · simp only [Confuses,hpc,hfind]
    exact h.unlinked_none_iff
  · have hiff : Named (.unlinked name (some mq.addr) :: s.log) ↔ mq.opened = name :=
      h.unlinked_some_iff (List.mem_of_find?_eq_some hfind)
    simpa [Confuses,hpc,hfind] using hiff
  · simpa [Confuses,hpc] using h.named

/-- The blocks of the threads after thread `i` moves. -/
theorem blocks_update {heap : ℕ → Option (Owner ι)} (h : Inv s)
    (hheap : ∀ j a, j ≠ i → s.heap a = some (.thread j) → heap a = some (.thread j))
    (hblock : ∀ a, p.block = some a → heap a = some (.thread i)) (j : ι) (a : ℕ)
    (hj : (Function.update s.pc i p j).block = some a) : heap a = some (.thread j) := by
  by_cases hji : j = i
  · obtain rfl := hji
    rw [Function.update_self] at hj
    exact hblock a hj
  · rw [Function.update_of_ne hji] at hj
    exact hheap j a hji (h.blocks j a hj)

theorem Inv.move (h : Inv s) (hp : p.block = none) : Inv (s.at i p) :=
  ⟨h.named,h.stored,h.listed,h.nodup,blocks_update h (fun _ _ _ => id) (by simp [hp]),h.queues⟩

theorem Inv.found (h : Inv s) (hmq : mq ∈ s.mqList) (hnamed : Named (.opened mq.opened mq.addr :: s.log)) :
    Inv ((s.at i .out).record (.opened mq.opened mq.addr)) := by
  have hmove := h.move (i := i) (p := .out) rfl
  refine ⟨hnamed,h.stored,h.listed,h.nodup,hmove.blocks,fun name d => ?_⟩
  have hqueue : queue mq.opened s.log = some mq.addr := (h.queues _ _).mpr ⟨mq,hmq,rfl,rfl⟩
  have hsame : queue name (.opened mq.opened mq.addr :: s.log) = queue name s.log := by
    rw [queue]
    split_ifs with hname
    · rw [← hname,hqueue]
    · rfl
  exact hsame ▸ h.queues name d

theorem Inv.added (h : Inv s) (hpc : s.pc i = .openAdd name a) (hnamed : Named (.opened name a :: s.log))
    (hnew : ∀ mq ∈ s.mqList, mq.opened ≠ name) :
    Inv (((Sys.give { s with mqList := initialized a name :: s.mqList } a (some .list)).at i .out).record
      (.opened name a)) := by
  have hown := h.blocks i a (by rw [hpc]; rfl)
  have hlisted {mq : PthreadMq} (hmq : mq ∈ s.mqList) : mq.addr ≠ a := by
    rintro rfl
    have hlist := h.listed mq hmq
    simp [hown] at hlist
  refine ⟨hnamed,fun mq hmq => ?_,fun mq hmq => ?_,?_,blocks_update (s := s) h (fun j b hj hb => ?_) (by simp [Pc.block]),
    fun name' d => ?_⟩
  · rcases List.mem_cons.mp hmq with rfl | hmq
    · rfl
    · exact h.stored mq hmq
  · rcases List.mem_cons.mp hmq with rfl | hmq
    · exact Function.update_self ..
    · exact (Function.update_of_ne (hlisted hmq) ..).trans (h.listed mq hmq)
  · refine List.nodup_cons.mpr ⟨fun hmem => ?_,h.nodup⟩
    obtain ⟨mq,hmq,haddr⟩ := List.mem_map.mp hmem
    exact hlisted hmq haddr
  · refine (Function.update_of_ne ?_ ..).trans hb
    rintro rfl
    exact hj (by simpa [hown] using hb.symm)
  · show queue name' (.opened name a :: s.log) = some d ↔ _
    rw [queue]
    split_ifs with hname
    · constructor
      · intro hd
        exact ⟨initialized a name,List.mem_cons_self,hname,Option.some.inj hd⟩
      · rintro ⟨mq,hmq,hopened,rfl⟩
        rcases List.mem_cons.mp hmq with rfl | hmq
        · rfl
        · exact absurd (hopened.trans hname.symm) (hnew mq hmq)
    · rw [h.queues]
      constructor
      · rintro ⟨mq,hmq,hmqs⟩
        exact ⟨mq,List.mem_cons_of_mem _ hmq,hmqs⟩
      · rintro ⟨mq,hmq,hopened,haddr⟩
        rcases List.mem_cons.mp hmq with rfl | hmq
        · exact absurd hopened hname
        · exact ⟨mq,hmq,hopened,haddr⟩

theorem Inv.unlinked (h : Inv s) (hfind : mqListFind s.mqList mq.opened = some mq)
    (hnamed : Named (.unlinked mq.opened (some mq.addr) :: s.log)) :
    Inv (((Sys.give { s with mqList := mqListUnlink s.mqList mq.opened } mq.addr (some (.thread i))).at i
      (.unlinkFree mq.addr)).record (.unlinked mq.opened (some mq.addr))) := by
  have hperm := perm_unlink hfind
  have hmem {mq' : PthreadMq} : mq' ∈ s.mqList ↔ mq' = mq ∨ mq' ∈ mqListUnlink s.mqList mq.opened := by
    rw [hperm.mem_iff,List.mem_cons]
  obtain ⟨hnot,hnodup⟩ := List.nodup_cons.mp ((hperm.map PthreadMq.addr).nodup_iff.mp h.nodup)
  have hother {mq' : PthreadMq} (hmq' : mq' ∈ mqListUnlink s.mqList mq.opened) : mq'.addr ≠ mq.addr := by
    intro haddr
    exact hnot (haddr ▸ List.mem_map_of_mem hmq')
  have hlisted := h.listed mq (hmem.mpr (Or.inl rfl))
  refine ⟨hnamed,fun mq' hmq' => h.stored mq' (hmem.mpr (Or.inr hmq')),fun mq' hmq' => ?_,hnodup,
    blocks_update (s := s) h (fun j b _ hb => ?_) (fun b hb => ?_),fun name d => ?_⟩
  · exact (Function.update_of_ne (hother hmq') ..).trans (h.listed mq' (hmem.mpr (Or.inr hmq')))
  · refine (Function.update_of_ne ?_ ..).trans hb
    rintro rfl
    simp [hlisted] at hb
  · obtain rfl := Option.some.inj hb
    exact Function.update_self ..
  · show queue name (.unlinked mq.opened _ :: s.log) = some d ↔ ∃ mq' ∈ mqListUnlink s.mqList mq.opened, _
    rw [queue]
    split_ifs with hname
    · refine iff_of_false (by simp) ?_
      rintro ⟨mq',hmq',hopened,-⟩
      have heq := h.unique (hmem.mpr (Or.inr hmq')) (hmem.mpr (Or.inl rfl)) (hopened.trans hname.symm)
      exact hother hmq' (congrArg _ heq)
    · rw [h.queues]
      constructor
      · rintro ⟨mq',hmq',hopened,haddr⟩
        rcases hmem.mp hmq' with rfl | hmq'
        · exact absurd hopened hname
        · exact ⟨mq',hmq',hopened,haddr⟩
      · rintro ⟨mq',hmq',hmqs⟩
        exact ⟨mq',hmem.mpr (Or.inr hmq'),hmqs⟩

theorem Inv.missed (h : Inv s) (hnone : ∀ mq ∈ s.mqList, mq.opened ≠ name)
    (hnamed : Named (.unlinked name none :: s.log)) : Inv ((s.at i .out).record (.unlinked name none)) := by
  have hmove := h.move (i := i) (p := .out) rfl
  refine ⟨hnamed,h.stored,h.listed,h.nodup,hmove.blocks,fun name' d => ?_⟩
  have hsame : queue name' (.unlinked name none :: s.log) = queue name' s.log := by
    rw [queue]
    split_ifs with hname
    · exact (hname ▸ h.queue_none hnone).symm
    · rfl
  exact hsame ▸ h.queues name' d

theorem Inv.freed (h : Inv s) (hpc : s.pc i = .unlinkFree a) : Inv ((s.give a none).at i .out) := by
  have hown := h.blocks i a (by rw [hpc]; rfl)
  have hother {o : Owner ι} {b : ℕ} (ho : o ≠ .thread i) (hb : s.heap b = some o) :
      Function.update s.heap a none b = some o := by
    refine (Function.update_of_ne ?_ ..).trans hb
    rintro rfl
    exact ho (Option.some.inj (hb.symm.trans hown))
  refine ⟨h.named,h.stored,fun mq hmq => hother (by simp) (h.listed mq hmq),h.nodup,
    blocks_update (s := s) h (fun j b hj hb => hother (by simpa using hj) hb) (by simp [Pc.block]),h.queues⟩

theorem Inv.zalloc (h : Inv s) (ha : s.heap a = none) :
    Inv ((s.give a (some (.thread i))).at i (.openAdd name a)) := by
  have hother {o : Owner ι} {b : ℕ} (hb : s.heap b = some o) :
      Function.update s.heap a (some (.thread i)) b = some o := by
    refine (Function.update_of_ne ?_ ..).trans hb
    rintro rfl
    simp [ha] at hb
  refine ⟨h.named,h.stored,fun mq hmq => hother (h.listed mq hmq),h.nodup,
    blocks_update (s := s) h (fun j b _ hb => hother hb) (fun b hb => ?_),h.queues⟩
  obtain rfl := Option.some.inj hb
  exact Function.update_self ..

theorem Inv.step (h : Inv s) (hgood : ¬ Confuses s l) (hs : MqueueNames.step s l = some t) : Inv t := by
  have hnamed := (h.named_iff hs).mpr hgood
  obtain ⟨i,p,-,hp,rfl⟩ | ⟨i,name,a,rfl,hfree,rfl⟩ | ⟨i,name,mq,rfl,hpc,hfind,rfl⟩ | ⟨i,name,a,rfl,hpc,rfl⟩ |
    ⟨i,name,rfl,hpc,hfind,rfl⟩ | ⟨i,name,mq,rfl,hpc,hfind,rfl⟩ | ⟨i,a,rfl,hpc,rfl⟩ := h.step_cases hs
  · exact h.move hp
  · exact h.zalloc hfree
  · obtain rfl : mq.opened = name := by simpa [Confuses,hpc,hfind] using hgood
    exact h.found (List.mem_of_find?_eq_some hfind) hnamed
  · simp only [Confuses,hpc] at hgood
    exact h.added hpc hnamed fun mq hmq hname => hgood (Or.inl ⟨mq,hmq,hname⟩)
  · simp only [Confuses,hpc,hfind] at hgood
    exact h.missed (fun mq hmq hname => hgood ⟨mq,hmq,hname⟩) hnamed
  · obtain rfl : mq.opened = name := by simpa [Confuses,hpc,hfind] using hgood
    exact h.unlinked ((h.find_eq _).trans hfind) hnamed
  · exact h.freed hpc

/-- Names are kept right all along in the runs in which no step confuses them. -/
theorem named_iff_run {ls : List (Label ι)} (h : Runs MqueueNames.step MqueueNames.start ls s) :
    (∀ ms u, ms <+: ls → Runs MqueueNames.step MqueueNames.start ms u → Named u.log) ↔
      Runs (guarded (fun s l => ¬ Confuses s l) MqueueNames.step) MqueueNames.start ls s :=
  Runs.guarded_iff (P := fun s => Named s.log) (fun _ hi => hi.named) (fun _ _ _ hi hgood hs => hi.step hgood hs)
    (fun _ _ _ hi hs hp => (hi.named_iff hs).mp hp) Inv.start h

end Steps

/-- The name of that many letters. -/
def letters (n : ℕ) : Name := ⟨List.replicate n 65,by simp⟩

/-- A name of 31 bytes is opened twice and unlinked. -/
theorem named_short : ∃ s, Runs step (start : Sys Bool) [.mqOpen true (letters 31),.go true,.zalloc true 1,.go true,
      .mqOpen false (letters 31),.go false,.mqUnlink true (letters 31),.go true] s ∧
    s.log = [.unlinked (letters 31) (some 1),.opened (letters 31) 1,.opened (letters 31) 1] ∧ Named s.log := by
  refine Runs.exists_of_exec_guarded (G := fun s l => ¬ Confuses s l) Sys.log
    (v := [.unlinked (letters 31) (some 1),.opened (letters 31) 1,.opened (letters 31) 1]) (by decide +kernel) ?_
  intro s hrun hlog
  exact ⟨hlog,(named_iff_run hrun.of_guarded).mpr hrun _ s (List.prefix_refl _) hrun.of_guarded⟩

/-- A name of 32 bytes is opened twice as two queues and cannot be unlinked, and its first 31
bytes find a queue of that name; and two threads open one name at once. -/
theorem named_fails :
    (∃ s, Runs step (start : Sys Bool) [.mqOpen true (letters 32),.go true,.zalloc true 1,.go true,
        .mqOpen true (letters 32),.go true,.zalloc true 2,.go true,.mqUnlink true (letters 32),.go true] s ∧
      s.log = [.unlinked (letters 32) none,.opened (letters 32) 2,.opened (letters 32) 1] ∧ ¬ Named s.log) ∧
    (∃ s, Runs step (start : Sys Bool) [.mqOpen true (letters 32),.go true,.zalloc true 1,.go true,
        .mqOpen true (letters 31),.go true] s ∧
      s.log = [.opened (letters 31) 1,.opened (letters 32) 1] ∧ ¬ Named s.log) ∧
    ∃ s, Runs step (start : Sys Bool) [.mqOpen true (letters 1),.go true,.mqOpen false (letters 1),.go false,
        .zalloc true 1,.go true,.zalloc false 2,.go false] s ∧
      s.log = [.opened (letters 1) 2,.opened (letters 1) 1] ∧ ¬ Named s.log := by
  refine ⟨?_,?_,?_⟩
  · refine Runs.exists_of_exec Sys.log
      (v := [.unlinked (letters 32) none,.opened (letters 32) 2,.opened (letters 32) 1]) (by decide +kernel) ?_
    intro s _ hlog
    refine ⟨hlog,fun h => ?_⟩
    have hsame := h.same (letters 32) 1 2 [.unlinked (letters 32) none] [] [] hlog (by simp)
    omega
  · refine Runs.exists_of_exec Sys.log (v := [.opened (letters 31) 1,.opened (letters 32) 1]) (by decide +kernel) ?_
    intro s _ hlog
    refine ⟨hlog,fun h => ?_⟩
    rw [hlog] at h
    exact h.apart (letters 31) (letters 32) 1 1 (by simp) (by simp) (by decide) rfl
  · refine Runs.exists_of_exec Sys.log (v := [.opened (letters 1) 2,.opened (letters 1) 1]) (by decide +kernel) ?_
    intro s _ hlog
    refine ⟨hlog,fun h => ?_⟩
    have hsame := h.same (letters 1) 1 2 [] [] [] hlog (by simp)
    omega

end FmacSdk.MqueueNames
