import FmacSdk.Foundation.WaitList
import FmacSdk.Rhino.ReadyQueue

/-! # Tasks and the lists they are in

A task is in the ready list of its priority, in the wait list of an object and in
the list of those that wait for a tick, each exactly when its state says so. The
functions that move tasks between the lists keep it that way.
-/
namespace FmacSdk.Rhino
open WaitList
variable {T O : Type*} [DecidableEq T] [DecidableEq O]

/-- task_stat_t -/
inductive TaskStat
  | seed
  | rdy
  | pend
  | suspended
  | pendSuspended
  | sleep
  | sleepSuspended
  | deleted
  deriving DecidableEq,Repr

/-- blk_state_t -/
inductive BlkState
  | finish
  | abort
  | timeout
  | del
  | invalid
  deriving DecidableEq,Repr

def TaskStat.pending : TaskStat → Bool
  | .pend | .pendSuspended => true
  | _ => false

def TaskStat.sleeping : TaskStat → Bool
  | .sleep | .sleepSuspended => true
  | _ => false

def TaskStat.isSuspended : TaskStat → Bool
  | .suspended | .pendSuspended | .sleepSuspended => true
  | _ => false

/-- The task exists. -/
def TaskStat.live : TaskStat → Bool
  | .seed | .deleted => false
  | _ => true

/-- What becomes of a task whose wait or sleep is over. -/
def TaskStat.ended : TaskStat → TaskStat
  | .pend | .sleep => .rdy
  | .pendSuspended | .sleepSuspended => .suspended
  | st => st

@[simp] theorem TaskStat.ended_live (st : TaskStat) : st.ended.live = st.live := by cases st <;> rfl

@[simp] theorem TaskStat.ended_pending (st : TaskStat) : st.ended.pending = false := by cases st <;> rfl

@[simp] theorem TaskStat.ended_sleeping (st : TaskStat) : st.ended.sleeping = false := by cases st <;> rfl

/-- RHINO_NO_WAIT -/
def noWait : BitVec 64 := 0#64

/-- RHINO_WAIT_FOREVER -/
def waitForever : BitVec 64 := BitVec.allOnes 64

/-- RHINO_IDLE_PRI -/
def idlePri : ℕ := priMax - 1

/-- The fields of all tasks that the scheduler reads, the lists and the globals.
`taskHead` is the list of the tasks that exist, g_kobj_list.task_head. -/
structure Sched (T O : Type*) where
  taskState : T → TaskStat
  blkState : T → BlkState
  blkObj : T → Option O
  prio : T → ℕ
  suspendCount : T → ℕ
  tickMatch : T → BitVec 64
  tickRemain : T → BitVec 64
  tickHead : T → Bool
  ready : ℕ → List T
  blkList : O → List T
  tickList : List T
  taskHead : List T
  tickCount : BitVec 64
  active : T
  schedLock : ℕ
  intrptNested : ℕ
  running : Bool

namespace Sched

/-- ready_list_add_tail -/
def readyListAddTail (s : Sched T O) (task : T) : Sched T O :=
  { s with ready := listsAddTail s.ready (s.prio task) task }

/-- ready_list_add_head -/
def readyListAddHead (s : Sched T O) (task : T) : Sched T O :=
  { s with ready := listsAddHead s.ready (s.prio task) task }

/-- ready_list_add -/
def readyListAdd (s : Sched T O) (task : T) : Sched T O :=
  { s with
    ready :=
      if s.prio task = s.prio s.active then listsAddTail s.ready (s.prio task) task
      else listsAddHead s.ready (s.prio task) task }

/-- ready_list_rm -/
def readyListRm (s : Sched T O) (task : T) : Sched T O :=
  { s with ready := listsRm s.ready (s.prio task) task }

/-- ready_list_head_to_tail -/
def readyListHeadToTail (s : Sched T O) (task : T) : Sched T O :=
  { s with ready := listsRotate s.ready (s.prio task) }

/-- klist_rm of the node `task_list` of a task that waits for its object -/
def blkListRm (s : Sched T O) (task : T) : Sched T O :=
  { s with
    blkList :=
      match s.blkObj task with
      | none => s.blkList
      | some obj => Function.update s.blkList obj ((s.blkList obj).erase task) }

/-- pend_list_add -/
def pendListAdd (s : Sched T O) (obj : O) (task : T) : Sched T O :=
  { s with
    blkList := Function.update s.blkList obj
      (insertBefore (fun tmp => s.prio task < s.prio tmp) task (s.blkList obj)) }

/-- tick_list_insert with tick_list_pri_insert -/
def tickListInsert (s : Sched T O) (task : T) (time : BitVec 64) : Sched T O :=
  if 0#64 < time then
    { s with
      tickMatch := Function.update s.tickMatch task (s.tickCount + time)
      tickRemain := Function.update s.tickRemain task time
      tickList := insertBefore (fun q => time < s.tickMatch q - s.tickCount) task s.tickList
      tickHead := Function.update s.tickHead task true }
  else s

/-- tick_list_rm -/
def tickListRm (s : Sched T O) (task : T) : Sched T O :=
  { s with
    tickList := if s.tickHead task then s.tickList.erase task else s.tickList
    tickHead := Function.update s.tickHead task false }

/-- `task->task_state = stat` -/
def setState (s : Sched T O) (task : T) (stat : TaskStat) : Sched T O :=
  { s with taskState := Function.update s.taskState task stat }

/-- pend_task_wakeup with BLK_FINISH and pend_task_rm with BLK_DEL -/
def pendTaskEnd (s : Sched T O) (task : T) (blk : BlkState) : Option (Sched T O) :=
  let finish (s : Sched T O) : Sched T O :=
    let s := s.tickListRm task
    { s with
      blkState := Function.update s.blkState task blk
      blkObj := Function.update s.blkObj task none }
  match s.taskState task with
  | .pend => some (finish (((s.blkListRm task).readyListAdd task).setState task .rdy))
  | .pendSuspended => some (finish ((s.blkListRm task).setState task .suspended))
  | _ => none

/-- pend_to_blk_obj -/
def pendToBlkObj (s : Sched T O) (obj : O) (task : T) (timeout : BitVec 64) : Sched T O :=
  let s := { s with blkObj := Function.update s.blkObj task (some obj) }
  let s := if timeout ≠ waitForever then s.tickListInsert task timeout else s
  let s := s.setState task .pend
  (s.readyListRm task).pendListAdd obj task

/-- pend_list_reorder -/
def pendListReorder (s : Sched T O) (task : T) : Sched T O :=
  match s.blkObj task with
  | none => s
  | some obj => (s.blkListRm task).pendListAdd obj task

/-- RHINO_CRITICAL_EXIT_SCHED with core_sched; `none` where no task is ready. -/
def coreSched (s : Sched T O) : Option (Sched T O) :=
  if 0 < s.intrptNested then some s
  else if 0 < s.schedLock then some s
  else (listsPreferred s.ready).map fun task => { s with active := task }

/-! ## Where the tasks are -/

/-- The task is in the lists that its state says, and in no others. -/
structure TaskPlaced (s : Sched T O) (t : T) : Prop where
  ready : ∀ p, t ∈ s.ready p ↔ s.taskState t = .rdy ∧ s.prio t = p
  blk : ∀ obj, t ∈ s.blkList obj ↔ (s.taskState t).pending = true ∧ s.blkObj t = some obj
  obj : (s.taskState t).pending = true → ∃ obj, s.blkObj t = some obj
  tick : t ∈ s.tickList ↔ s.tickHead t = true
  timed : s.tickHead t = true → (s.taskState t).pending = true ∨ (s.taskState t).sleeping = true
  asleep : (s.taskState t).sleeping = true → s.tickHead t = true
  count : (s.taskState t).isSuspended = true → 0 < s.suspendCount t
  known : (s.taskState t).live = true → t ∈ s.taskHead
  bound : (s.taskState t).live = true → s.prio t < priMax

/-- No list has a task twice, and the wait lists are ordered by the priority. -/
structure ListsKept (s : Sched T O) : Prop where
  ready : ∀ p, (s.ready p).Nodup
  blk : ∀ obj, (s.blkList obj).Nodup
  ordered : ∀ obj, Ordered s.prio (s.blkList obj)
  tick : s.tickList.Nodup

structure Placed (s : Sched T O) : Prop where
  task : ∀ t, s.TaskPlaced t
  lists : s.ListsKept

/-- Nothing that concerns the task has changed. -/
structure Untouched (s s' : Sched T O) (t : T) : Prop where
  state : s'.taskState t = s.taskState t
  obj : s'.blkObj t = s.blkObj t
  prio : s'.prio t = s.prio t
  count : s'.suspendCount t = s.suspendCount t
  head : s'.tickHead t = s.tickHead t
  ready : ∀ p, t ∈ s'.ready p ↔ t ∈ s.ready p
  blk : ∀ obj, t ∈ s'.blkList obj ↔ t ∈ s.blkList obj
  tick : t ∈ s'.tickList ↔ t ∈ s.tickList
  known : t ∈ s'.taskHead ↔ t ∈ s.taskHead

variable {s s' s'' : Sched T O} {t x : T} {p : ℕ} {o : O} {time : BitVec 64} {blk : BlkState} {st : TaskStat}

omit [DecidableEq T] [DecidableEq O]

theorem Untouched.refl (s : Sched T O) (t : T) : Untouched s s t :=
  ⟨rfl,rfl,rfl,rfl,rfl,fun _ => Iff.rfl,fun _ => Iff.rfl,Iff.rfl,Iff.rfl⟩

theorem Untouched.trans (h : Untouched s s' t) (h' : Untouched s' s'' t) : Untouched s s'' t :=
  ⟨h'.state.trans h.state,h'.obj.trans h.obj,h'.prio.trans h.prio,h'.count.trans h.count,h'.head.trans h.head,
    fun p => (h'.ready p).trans (h.ready p),fun o => (h'.blk o).trans (h.blk o),h'.tick.trans h.tick,
    h'.known.trans h.known⟩

theorem TaskPlaced.of_untouched (h : s.TaskPlaced t) (hu : Untouched s s' t) : s'.TaskPlaced t := by
  refine ⟨fun p => ?_,fun o => ?_,?_,?_,?_,?_,?_,?_,?_⟩
  · rw [hu.ready,hu.state,hu.prio]
    exact h.ready p
  · rw [hu.blk,hu.state,hu.obj]
    exact h.blk o
  · rw [hu.state,hu.obj]
    exact h.obj
  · rw [hu.tick,hu.head]
    exact h.tick
  · rw [hu.state,hu.head]
    exact h.timed
  · rw [hu.state,hu.head]
    exact h.asleep
  · rw [hu.state,hu.count]
    exact h.count
  · rw [hu.known,hu.state]
    exact h.known
  · rw [hu.state,hu.prio]
    exact h.bound

/-- Only one task was moved. -/
theorem Placed.change (h : s.Placed) (hu : ∀ x, x ≠ t → Untouched s s' x) (ht : s'.TaskPlaced t)
    (hl : s'.ListsKept) : s'.Placed := by
  refine ⟨fun x => ?_,hl⟩
  by_cases hx : x = t
  · exact hx ▸ ht
  · exact (h.task x).of_untouched (hu x hx)

/-- What else the scheduler keeps does not matter. -/
theorem Placed.congr (h : s.Placed) (hst : s'.taskState = s.taskState) (hobj : s'.blkObj = s.blkObj)
    (hprio : s'.prio = s.prio) (hcount : s'.suspendCount = s.suspendCount) (hhead : s'.tickHead = s.tickHead)
    (hready : s'.ready = s.ready) (hblk : s'.blkList = s.blkList) (htick : s'.tickList = s.tickList)
    (hknown : s'.taskHead = s.taskHead) : s'.Placed := by
  refine ⟨fun t => (h.task t).of_untouched ?_,?_,?_,?_,?_⟩
  · refine ⟨?_,?_,?_,?_,?_,fun p => ?_,fun o => ?_,?_,?_⟩
    · rw [hst]
    · rw [hobj]
    · rw [hprio]
    · rw [hcount]
    · rw [hhead]
    · rw [hready]
    · rw [hblk]
    · rw [htick]
    · rw [hknown]
  · exact hready ▸ h.lists.ready
  · exact hblk ▸ h.lists.blk
  · exact hblk ▸ hprio ▸ h.lists.ordered
  · exact htick ▸ h.lists.tick

/-- What a task notes that does not wait does not matter. -/
theorem Placed.note (h : s.Placed) {f : T → Option O}
    (hf : ∀ x, (s.taskState x).pending = true → f x = s.blkObj x) : Placed { s with blkObj := f } := by
  refine ⟨fun x => ?_,⟨h.lists.ready,h.lists.blk,h.lists.ordered,h.lists.tick⟩⟩
  have hx := h.task x
  refine ⟨hx.ready,fun o => ?_,fun hp => ?_,hx.tick,hx.timed,hx.asleep,hx.count,hx.known,hx.bound⟩
  · refine (hx.blk o).trans (and_congr_right fun hp => ?_)
    rw [← hf x hp]
  · obtain ⟨o,ho⟩ := hx.obj hp
    exact ⟨o,(hf x hp).trans ho⟩

/-- A task that waits for nothing and is not ready. -/
structure Nowhere (s : Sched T O) (t : T) : Prop where
  ready : ∀ p, t ∉ s.ready p
  blk : ∀ obj, t ∉ s.blkList obj
  tick : t ∉ s.tickList
  head : s.tickHead t = false

theorem TaskPlaced.not_ready (h : s.TaskPlaced t) (hs : s.taskState t ≠ .rdy) (p : ℕ) : t ∉ s.ready p :=
  fun hmem => hs ((h.ready p).mp hmem).1

theorem TaskPlaced.not_blk (h : s.TaskPlaced t) (hs : (s.taskState t).pending = false) (obj : O) :
    t ∉ s.blkList obj := by
  intro hmem
  rw [((h.blk obj).mp hmem).1] at hs
  cases hs

theorem TaskPlaced.not_timed (h : s.TaskPlaced t) (hp : (s.taskState t).pending = false)
    (hs : (s.taskState t).sleeping = false) : t ∉ s.tickList ∧ s.tickHead t = false := by
  have hhead : s.tickHead t = false := by
    rw [Bool.eq_false_iff]
    intro hhead
    rcases h.timed hhead with h | h
    · simp [h] at hp
    · simp [h] at hs
  exact ⟨fun hmem => by simp [h.tick.mp hmem] at hhead,hhead⟩

/-- A task in no list is placed when it is suspended, or does not exist. -/
theorem Nowhere.placed (h : s.Nowhere t) (hs : s.taskState t ≠ .rdy) (hp : (s.taskState t).pending = false)
    (hsl : (s.taskState t).sleeping = false) (hc : (s.taskState t).isSuspended = true → 0 < s.suspendCount t)
    (hk : (s.taskState t).live = true → t ∈ s.taskHead) (hb : (s.taskState t).live = true → s.prio t < priMax) :
    s.TaskPlaced t := by
  refine ⟨fun p => ?_,fun o => ?_,?_,?_,?_,?_,hc,hk,hb⟩
  · simp [h.ready p,hs]
  · simp [h.blk o,hp]
  · simp [hp]
  · simp [h.tick,h.head]
  · simp [h.head]
  · simp [hsl]

/-- A task that is only in the ready list of its priority. -/
theorem placed_rdy (hr : ∀ p, t ∈ s.ready p ↔ s.prio t = p) (hblk : ∀ obj, t ∉ s.blkList obj)
    (htick : t ∉ s.tickList) (hhead : s.tickHead t = false) (hs : s.taskState t = .rdy) (hk : t ∈ s.taskHead)
    (hb : s.prio t < priMax) : s.TaskPlaced t := by
  refine ⟨fun p => ?_,fun o => ?_,?_,?_,?_,?_,?_,fun _ => hk,fun _ => hb⟩
  · simp [hr p,hs]
  · simp [hblk o,hs,TaskStat.pending]
  · simp [hs,TaskStat.pending]
  · simp [htick,hhead]
  · simp [hhead]
  · simp [hs,TaskStat.sleeping]
  · simp [hs,TaskStat.isSuspended]

end Sched

/-! ## The ready lists -/

section Lists
variable {ready : ℕ → List T} {p q : ℕ} {t x : T}

omit [DecidableEq T] in
theorem mem_listsAdd {b : Prop} [Decidable b] :
    x ∈ (if b then listsAddTail ready p t else listsAddHead ready p t) q ↔ x ∈ ready q ∨ q = p ∧ x = t := by
  by_cases hq : q = p
  · subst hq
    split_ifs <;> simp [listsAddTail,listsAddHead,or_comm]
  · split_ifs <;> simp [listsAddTail,listsAddHead,hq]

omit [DecidableEq T] in
theorem nodup_listsAdd {b : Prop} [Decidable b] (h : (ready q).Nodup) (ht : t ∉ ready p) :
    ((if b then listsAddTail ready p t else listsAddHead ready p t) q).Nodup := by
  by_cases hq : q = p
  · subst hq
    split_ifs
    · simpa [listsAddTail,List.nodup_append,h] using fun a ha (heq : a = t) => ht (heq ▸ ha)
    · simpa [listsAddHead,h] using ht
  · split_ifs <;> simpa [listsAddTail,listsAddHead,hq] using h

theorem mem_listsRm (h : (ready p).Nodup) : x ∈ listsRm ready p t q ↔ x ∈ ready q ∧ ¬(q = p ∧ x = t) := by
  by_cases hq : q = p
  · subst hq
    simp [listsRm,h.mem_erase_iff,and_comm]
  · simp [listsRm,hq]

theorem nodup_listsRm (h : (ready q).Nodup) : (listsRm ready p t q).Nodup := by
  by_cases hq : q = p
  · subst hq
    simpa [listsRm] using h.erase t
  · simpa [listsRm,hq] using h

omit [DecidableEq T] in
theorem mem_listsRotate : x ∈ listsRotate ready p q ↔ x ∈ ready q := by
  by_cases hq : q = p
  · subst hq
    rw [listsRotate,Function.update_self]
    cases ready q <;> simp [or_comm]
  · simp [listsRotate,hq]

omit [DecidableEq T] in
theorem nodup_listsRotate (h : (ready q).Nodup) : (listsRotate ready p q).Nodup := by
  by_cases hq : q = p
  · subst hq
    rw [listsRotate,Function.update_self]
    cases hl : ready q with
    | nil => simp
    | cons y l =>
      rw [hl] at h
      exact (List.perm_append_singleton y l).nodup_iff.mpr h
  · simpa [listsRotate,hq] using h

end Lists

end FmacSdk.Rhino
