import Mathlib.Data.List.Infix
import FmacSdk.Foundation.Transition
import FmacSdk.Rhino.MutexCalls
import FmacSdk.Rhino.TaskCalls
import FmacSdk.Rhino.Ticks

/-! # Runs of the kernel

Calls of tasks and of interrupts follow each other in any order. Where the callers keep
to what no call checks, every call comes to an end, and what holds between the calls
holds in every state that is reached from krhino_init.
-/
namespace FmacSdk.Rhino
open WaitList Donation Sched Transition RingStream
variable {T O : Type*} [DecidableEq T] [DecidableEq O]

/-- A call with its parameters. -/
inductive Call (T O : Type*)
  | start
  | schedDisable
  | schedEnable
  | intrptEnter
  | intrptExit
  | tickProc
  | taskCreate (task : T) (prio ticks : ℕ) (autorun : Bool) (flag : AllocFlag)
  | taskDel (task : Option T)
  | taskSleep (ticks : BitVec 64)
  | taskYield
  | taskSuspend (task : T)
  | taskResume (task : T)
  | taskPriChange (task : T) (pri : ℕ)
  | mutexCreate (mutex : O) (flag : AllocFlag)
  | mutexDel (mutex : O) (flag : AllocFlag)
  | mutexLock (mutex : O) (ticks : BitVec 64)
  | mutexUnlock (mutex : O)
  | semCreate (sem : O) (count : ℕ) (flag : AllocFlag)
  | semDel (sem : O) (flag : AllocFlag)
  | semGive (sem : O) (wakeAll : Bool)
  | semTake (sem : O) (ticks : BitVec 64)
  | semCountSet (sem : O) (count : ℕ)
  | eventCreate (event : O) (flags : BitVec 32) (flag : AllocFlag)
  | eventDel (event : O) (flag : AllocFlag)
  | eventGet (event : O) (flags : BitVec 32) (opt : EventOpt) (ticks : BitVec 64)
  | eventSet (event : O) (flags : BitVec 32) (opt : EventOpt)
  | queueCreate (queue : O) (start : ℕ → BitVec 8) (msgNum : ℕ) (flag : AllocFlag)
  | queueDel (queue : O) (flag : AllocFlag)
  | queueSend (queue : O) (data : ℕ → BitVec 8) (wakeAll : Bool)
  | queueRecv (queue : O) (ticks : BitVec 64)
  | queueFlush (queue : O)
  | bufQueueCreate (queue : O) (buf : ℕ → BitVec 8) (size maxMsg : ℕ) (type : RingbufType) (flag : AllocFlag)
  | bufQueueDel (queue : O) (flag : AllocFlag)
  | bufQueueSend (queue : O) (data : ℕ → BitVec 8) (size : ℕ)
  | bufQueueRecv (queue : O) (ticks : BitVec 64)
  | bufQueueFlush (queue : O)

namespace Kernel

/-- The function that is called. -/
def call (s : Kernel T O) : Call T O → Option (Ret × Kernel T O)
  | .start => s.krhinoStart
  | .schedDisable => s.onSched s.krhinoSchedDisable
  | .schedEnable => s.onSched s.krhinoSchedEnable
  | .intrptEnter => s.onSched s.krhinoIntrptEnter
  | .intrptExit => s.onSched s.krhinoIntrptExit
  | .tickProc => s.krhinoTickProc
  | .taskCreate task prio ticks autorun flag => s.krhinoTaskCreate task prio ticks autorun flag
  | .taskDel task => s.krhinoTaskDel task
  | .taskSleep ticks => s.onSched (s.krhinoTaskSleep ticks)
  | .taskYield => s.onSched s.krhinoTaskYield
  | .taskSuspend task => s.onSched (s.krhinoTaskSuspend task)
  | .taskResume task => s.onSched (s.krhinoTaskResume task)
  | .taskPriChange task pri => s.krhinoTaskPriChange task pri
  | .mutexCreate m flag => s.krhinoMutexCreate m flag
  | .mutexDel m flag => s.krhinoMutexDel m flag
  | .mutexLock m ticks => s.krhinoMutexLock m ticks
  | .mutexUnlock m => s.krhinoMutexUnlock m
  | .semCreate o count flag => s.krhinoSemCreate o count flag
  | .semDel o flag => s.krhinoSemDel o flag
  | .semGive o wakeAll => s.semGive o wakeAll
  | .semTake o ticks => s.krhinoSemTake o ticks
  | .semCountSet o count => s.krhinoSemCountSet o count
  | .eventCreate o flags flag => s.krhinoEventCreate o flags flag
  | .eventDel o flag => s.krhinoEventDel o flag
  | .eventGet o flags opt ticks => s.krhinoEventGet o flags opt ticks
  | .eventSet o flags opt => s.krhinoEventSet o flags opt
  | .queueCreate o start msgNum flag => s.krhinoQueueCreate o start msgNum flag
  | .queueDel o flag => s.krhinoQueueDel o flag
  | .queueSend o data wakeAll => s.msgSend o data wakeAll
  | .queueRecv o ticks => s.krhinoQueueRecv o ticks
  | .queueFlush o => s.krhinoQueueFlush o
  | .bufQueueCreate o buf size maxMsg type flag => s.krhinoBufQueueCreate o buf size maxMsg type flag
  | .bufQueueDel o flag => s.krhinoBufQueueDel o flag
  | .bufQueueSend o data size => s.krhinoBufQueueSend o data size
  | .bufQueueRecv o ticks => s.krhinoBufQueueRecv o ticks
  | .bufQueueFlush o => s.krhinoBufQueueFlush o

def step (s : Kernel T O) (c : Call T O) : Option (Kernel T O) := (s.call c).map Prod.snd

/-- `(mutex_nested_t)-1` locks by this task -/
def Kobj.nestedFull (k : Kobj T) (task : T) : Bool :=
  match k with
  | .mutex mutexTask nested => mutexTask = some task && nested = mutexNestedMax
  | _ => false

/-- What the callers see to, and no call checks: before the first task runs, tasks and objects are
only created, and each is created when it does not exist; only a task that exists is deleted or
given another priority; the idle task neither waits nor locks a mutex; ticks come in interrupts,
and neither the interrupts nor the locks of a mutex are nested too deep. -/
def allowed (idle : T) (s : Kernel T O) : Call T O → Bool
  | .start | .mutexUnlock _ => true
  | .taskCreate task .. => !(s.taskState task).live
  | .mutexCreate o _ | .semCreate o .. | .eventCreate o .. | .queueCreate o .. | .bufQueueCreate o .. => (s.obj o).isNone
  | .mutexLock m _ =>
    !s.running || decide (0 < s.intrptNested) || (decide (s.active ≠ idle) && !Kobj.nestedFull (s.obj m) s.active)
  | .intrptEnter => s.running && decide (s.intrptNested < intrptMaxNestedLevel)
  | .intrptExit | .tickProc => s.running && decide (0 < s.intrptNested)
  | .taskYield => s.running && decide (s.intrptNested = 0)
  | .taskSleep _ => s.running && (decide (0 < s.intrptNested) || decide (s.active ≠ idle))
  | .semTake _ ticks | .eventGet _ _ _ ticks | .queueRecv _ ticks | .bufQueueRecv _ ticks =>
    s.running && (decide (0 < s.intrptNested) || decide (ticks = noWait) || decide (s.active ≠ idle))
  | .taskDel task => s.running && (s.taskState (task.getD s.active)).live
  | .taskPriChange task _ => s.running && decide (s.taskState task ≠ .seed)
  | _ => s.running

/-- The objects that a call is about. -/
def concerns (s : Kernel T O) : Call T O → Set O
  | .taskDel task => {m | m ∈ s.mutexList (task.getD s.active)}
  | .mutexCreate o _ | .mutexDel o _ | .mutexLock o _ | .mutexUnlock o => {o}
  | .semCreate o .. | .semDel o _ | .semGive o _ | .semTake o _ | .semCountSet o _ => {o}
  | .eventCreate o .. | .eventDel o _ | .eventGet o .. | .eventSet o .. => {o}
  | .queueCreate o .. | .queueDel o _ | .queueSend o .. | .queueRecv o _ | .queueFlush o => {o}
  | .bufQueueCreate o .. | .bufQueueDel o _ | .bufQueueSend o .. | .bufQueueRecv o _ | .bufQueueFlush o => {o}
  | _ => ∅

/-- The tasks that a call deletes. -/
def deleted (s : Kernel T O) : Call T O → Set T
  | .taskDel task => {task.getD s.active}
  | _ => ∅

/-- What the waits come to that a call ends. -/
def Call.outcome : Call T O → BlkState
  | .mutexDel .. | .semDel .. | .eventDel .. | .queueDel .. | .bufQueueDel .. => .del
  | _ => .finish

/-- What those find whose waits a call ends: who waited for an event its flags as they are set, who
waited for a queue or a buffer queue the message that is sent. -/
def wakes (s : Kernel T O) : Call T O → Wakes
  | .mutexUnlock m => ⟨.finish,fun _ => ∃ u n, s.obj m = .mutex u n⟩
  | .semGive o _ => ⟨.finish,fun _ => ∃ count peak, s.obj o = .sem count peak⟩
  | .eventSet o flags _ => eventWakes (s.obj o) flags
  | .queueSend o data _ => ⟨.finish,fun y => (∃ q, s.obj o = .queue q) ∧ y.2.1 = cells data 0 ptrSize⟩
  | .bufQueueSend o data len =>
    ⟨.finish,fun y => (∃ q, s.obj o = .bufQueue q) ∧ y.2.1 = cells data 0 len ∧ y.2.2.1 = len⟩
  | .taskDel _ => .finish
  | .mutexDel .. | .semDel .. | .eventDel .. | .queueDel .. | .bufQueueDel .. => .del
  | _ => .none

variable {s s' : Kernel T O} {c : Call T O} {idle t : T} {o : O} {wk : Wakes} {cs : List (Call T O)}

omit [DecidableEq T] [DecidableEq O] in
theorem Kobj.isNone_iff {k : Kobj T} : Kobj.isNone k = true ↔ k = .none := by
  cases k <;> simp [Kobj.isNone]

omit [DecidableEq T] in
theorem objCreate_serves (h : s.Sound idle) {k : Kobj T} (hnone : Kobj.isNone (s.obj o) = true)
    (hk : ∀ u n, k ≠ .mutex (some u) n) (flag : AllocFlag) (ret : Ret) :
    s.Serves idle ∅ {o} wk (some (ret,s.objCreate o k flag)) :=
  ⟨_,_,rfl,objCreate_sound h (Kobj.isNone_iff.mp hnone) hk flag,
    Resting.congr rfl rfl rfl rfl rfl (fun _ ho => Function.update_of_ne ho _ _)
      fun _ _ _ => keeps_setObj (Scope.Keeps.of_ne (by simp [Kobj.isNone_iff.mp hnone])) _⟩

omit [DecidableEq O] in
/-- Whoever may wait is not the idle task. -/
theorem ne_idle {ticks : BitVec 64}
    (hc : (s.running && (decide (0 < s.intrptNested) || decide (ticks = noWait) || decide (s.active ≠ idle))) = true) :
    s.intrptNested = 0 → ticks ≠ noWait → s.active ≠ idle := by
  intro hin hwait
  simpa [hin,hwait] using (Bool.and_eq_true_iff.mp hc).2

/-- One call that keeps to the contract. -/
theorem call_serves (h : s.Sound idle) (hc : allowed idle s c = true) (hne : c ≠ .tickProc) :
    s.Serves idle (s.deleted c) (s.concerns c) (s.wakes c) (s.call c) := by
  have hcur := h.current
  cases c with
  | start => exact krhinoStart_serves h
  | schedDisable => exact h.onSched (krhinoSchedDisable_current hcur)
  | schedEnable => exact h.onSched (krhinoSchedEnable_current hcur)
  | intrptEnter => exact h.onSched (krhinoIntrptEnter_current hcur (by simpa using (Bool.and_eq_true_iff.mp hc).2))
  | intrptExit => exact h.onSched (krhinoIntrptExit_current hcur (by simpa using (Bool.and_eq_true_iff.mp hc).2))
  | tickProc => exact absurd rfl hne
  | taskCreate task prio ticks autorun flag =>
    exact krhinoTaskCreate_serves h (by simpa [allowed] using hc) prio ticks autorun flag
  | taskDel task => exact krhinoTaskDel_serves h task (Bool.and_eq_true_iff.mp hc).2
  | taskSleep ticks =>
    refine h.onSched (krhinoTaskSleep_current hcur fun hin => ?_)
    simpa [hin] using (Bool.and_eq_true_iff.mp hc).2
  | taskYield => exact h.onSched (krhinoTaskYield_current hcur)
  | taskSuspend task => exact h.onSched (krhinoTaskSuspend_current hcur)
  | taskResume task => exact h.onSched (krhinoTaskResume_current hcur)
  | taskPriChange task pri => exact krhinoTaskPriChange_serves h (by simpa using (Bool.and_eq_true_iff.mp hc).2) pri
  | mutexCreate m flag => exact krhinoMutexCreate_serves h (Kobj.isNone_iff.mp hc) flag
  | mutexDel m flag => exact krhinoMutexDel_serves h m flag
  | mutexLock m ticks =>
    refine krhinoMutexLock_serves h m ticks fun hrun hin => ?_
    have hboth : s.active ≠ idle ∧ Kobj.nestedFull (s.obj m) s.active = false := by simpa [allowed,hrun,hin] using hc
    refine ⟨hboth.1,fun hm => ?_⟩
    simp [hm,Kobj.nestedFull] at hboth
  | mutexUnlock m => exact krhinoMutexUnlock_serves h m
  | semCreate o count flag => exact objCreate_serves h hc (by simp) flag _
  | semDel o flag => exact objDel_serves h (by rintro (_ | _ | _ | _ | _ | _) <;> simp [Kobj.isSem,Kobj.isMutex]) flag o
  | semGive o wakeAll => exact semGive_serves h o wakeAll
  | semTake o ticks => exact krhinoSemTake_serves h o ticks (ne_idle hc)
  | semCountSet o count => exact krhinoSemCountSet_serves h o count
  | eventCreate o flags flag => exact objCreate_serves h hc (by simp) flag _
  | eventDel o flag => exact objDel_serves h (by rintro (_ | _ | _ | _ | _ | _) <;> simp [Kobj.isEvent,Kobj.isMutex]) flag o
  | eventGet o flags opt ticks => exact krhinoEventGet_serves h o flags opt ticks (ne_idle hc)
  | eventSet o flags opt => exact krhinoEventSet_serves h o flags opt
  | queueCreate o start msgNum flag =>
    simp only [call,krhinoQueueCreate]
    split_ifs
    · exact h.same _
    · exact objCreate_serves h hc (by simp) flag _
  | queueDel o flag => exact objDel_serves h (by rintro (_ | _ | _ | _ | _ | _) <;> simp [Kobj.isQueue,Kobj.isMutex]) flag o
  | queueSend o data wakeAll => exact msgSend_serves h o data wakeAll
  | queueRecv o ticks => exact krhinoQueueRecv_serves h o ticks (ne_idle hc)
  | queueFlush o => exact krhinoQueueFlush_serves h o
  | bufQueueCreate o buf size maxMsg type flag =>
    simp only [call,krhinoBufQueueCreate]
    split_ifs
    · exact h.same _
    · exact h.same _
    · exact objCreate_serves h hc (by simp) flag _
  | bufQueueDel o flag =>
    exact objDel_serves h (by rintro (_ | _ | _ | _ | _ | _) <;> simp [Kobj.isBufQueue,Kobj.isMutex]) flag o
  | bufQueueSend o data size => exact krhinoBufQueueSend_serves h o data size
  | bufQueueRecv o ticks => exact krhinoBufQueueRecv_serves h o ticks (ne_idle hc)
  | bufQueueFlush o => exact krhinoBufQueueFlush_serves h o

/-! ## What holds in every state that is reached -/

/-- The kernel with callers that keep to the contract. -/
def obeying (idle : T) : Kernel T O → Call T O → Option (Kernel T O) := guarded (fun s c => allowed idle s c = true) step

def Call.isTick : Call T O → Bool
  | .tickProc => true
  | _ => false

/-- What a step leaves behind. -/
theorem obeying_sound (h : s.Sound idle) (hs : obeying idle s c = some s') :
    s'.Sound idle ∧ (c = .tickProc ∧ Passed s s' ∨
      Call.isTick c = false ∧ Resting (s.scope (s.deleted c) (s.concerns c) (s.wakes c)) s s') := by
  obtain ⟨hc,hs⟩ := guarded_eq_some.mp hs
  unfold step at hs
  by_cases htick : c = .tickProc
  · subst htick
    have hin : 0 < s.intrptNested := by simpa using (Bool.and_eq_true_iff.mp hc).2
    obtain ⟨u,hu,hsound,hpassed⟩ := krhinoTickProc_passed h (Or.inl hin)
    rw [call,hu] at hs
    obtain rfl := Option.some.inj hs
    exact ⟨hsound,Or.inl ⟨rfl,hpassed⟩⟩
  · obtain ⟨ret,u,hu,hsound,hrest⟩ := call_serves h hc htick
    rw [hu] at hs
    obtain rfl := Option.some.inj hs
    refine ⟨hsound,Or.inr ⟨?_,hrest⟩⟩
    cases c <;> first | rfl | exact absurd rfl htick

theorem reached_sound (h : Runs (obeying idle) (krhinoInit idle) cs s) : s.Sound idle :=
  h.invariant (fun _ _ _ hi hs => (obeying_sound hi hs).1) (krhinoInit_sound idle)

/-- Task 1 locks mutex 0, and task 2, which is more urgent, comes to wait for it. -/
def contended : List (Call ℕ ℕ) :=
  [.taskCreate 1 10 0 true .static,.taskCreate 2 5 0 true .static,.mutexCreate 0 .static,.start,.taskSleep 2,
    .mutexLock 0 waitForever,.intrptEnter,.tickProc,.tickProc,.intrptExit,.mutexLock 0 10]

omit [DecidableEq T] [DecidableEq O] in
/-- The first task of the highest priority is the most urgent one that is ready. -/
theorem listsPreferred_urgent (h : s.Placed) (ht : listsPreferred s.ready = some t) :
    (s.ready (s.prio t)).head? = some t ∧ ∀ u, s.taskState u = .rdy → s.prio t ≤ s.prio u := by
  obtain ⟨l1,p,l2,hsplit,hp,hnone⟩ := List.findSome?_eq_some_iff.mp ht
  have hprio : s.prio t = p := (((h.task t).ready p).mp (List.mem_of_mem_head? hp)).2
  refine ⟨hprio ▸ hp,fun u hu => ?_⟩
  by_contra hlt
  have hmem : u ∈ s.ready (s.prio u) := ((h.task u).ready _).mpr ⟨hu,rfl⟩
  have hrange : s.prio u ∈ l1 ++ p :: l2 := by
    rw [← hsplit,List.mem_range]
    exact (h.task u).bound (by simp [hu,TaskStat.live])
  have hbehind : ∀ q ∈ p :: l2, p ≤ q := by
    have hsorted := List.pairwise_lt_range (n := priMax)
    rw [hsplit,List.pairwise_append] at hsorted
    intro q hq
    rcases List.mem_cons.mp hq with rfl | hq
    · exact le_rfl
    · exact (List.rel_of_pairwise_cons hsorted.2.1 hq).le
  rcases List.mem_append.mp hrange with hq | hq
  · exact List.ne_nil_of_mem hmem (List.head?_eq_none_iff.mp (hnone _ hq))
  · exact hlt (hprio ▸ hbehind _ hq)

/-- The task that runs is ready, the most urgent one and the first of its priority, unless an
interrupt is served or the scheduler is locked; and while it is locked, it is still ready. -/
theorem kernel_runs_most_urgent (h : Runs (obeying idle) (krhinoInit idle) cs s) (hrun : s.running = true) :
    (s.intrptNested = 0 ∨ 0 < s.schedLock → s.taskState s.active = .rdy) ∧
    (s.intrptNested = 0 → s.schedLock = 0 → (s.ready (s.prio s.active)).head? = some s.active ∧
      ∀ u, s.taskState u = .rdy → s.prio s.active ≤ s.prio u) := by
  have hcur := (reached_sound h).current
  exact ⟨hcur.rdy,fun hin hlock => listsPreferred_urgent hcur.placed (hcur.best hrun hin hlock)⟩

theorem kernel_runs_most_urgent_contended :
    ∃ s, Runs (obeying 0) (krhinoInit 0 : Kernel ℕ ℕ) contended s ∧ (s.ready 5).head? = some 1 ∧
      ∀ u, s.taskState u = .rdy → 5 ≤ s.prio u := by
  refine Runs.exists_of_exec (fun s => (s.running,s.intrptNested,s.schedLock,s.active,s.prio 1)) (v := (true,0,0,1,5))
    (by decide +kernel) fun s h hseen => ?_
  obtain ⟨hrun,hin,hlock,hact,hprio⟩ :
      s.running = true ∧ s.intrptNested = 0 ∧ s.schedLock = 0 ∧ s.active = 1 ∧ s.prio 1 = 5 := by simpa using hseen
  simpa [hact,hprio] using (kernel_runs_most_urgent h hrun).2 hin hlock

/-- Every task runs at the most urgent of its own priority and of those of the tasks that wait for
a mutex it holds; so nobody waits, over however many mutexes, for one less urgent. -/
theorem kernel_inherits (h : Runs (obeying idle) (krhinoInit idle) cs s) :
    (∀ t ∈ s.Live, IsLeast (insert (s.bPrio t) (s.prio '' {w | s.boss w = some t})) (s.prio t)) ∧
    ∀ w t, Relation.TransGen (fun x y => s.boss x = some y) w t → s.prio t ≤ s.prio w := by
  have hs := reached_sound h
  refine ⟨hs.inherits,fun w t hchain => ?_⟩
  have hstep : ∀ x y, s.boss x = some y → s.prio y ≤ s.prio x := fun x y hxy =>
    (hs.inherits y (boss_live hs.placed hs.owned x y hxy)).2 (mem_lent hxy)
  induction hchain with
  | single hxy => exact hstep _ _ hxy
  | tail _ hxy ih => exact (hstep _ _ hxy).trans ih

theorem kernel_inherits_contended :
    ∃ s, Runs (obeying 0) (krhinoInit 0 : Kernel ℕ ℕ) contended s ∧ s.boss 2 = some 1 ∧ s.prio 1 ≤ s.prio 2 ∧
      IsLeast (insert 10 (s.prio '' {w | s.boss w = some 1})) (s.prio 1) := by
  refine Runs.exists_of_exec (fun s => (s.boss 2,s.bPrio 1,(s.taskState 1).live)) (v := (some 1,10,true))
    (by decide +kernel) fun s h hseen => ?_
  obtain ⟨hboss,hbase,hlive⟩ : s.boss 2 = some 1 ∧ s.bPrio 1 = 10 ∧ (s.taskState 1).live = true := by simpa using hseen
  obtain ⟨hleast,hchain⟩ := kernel_inherits h
  exact ⟨hboss,hchain 2 1 (.single hboss),hbase ▸ hleast 1 hlive⟩

/-- Whoever holds a mutex exists, has it in the list of his mutexes exactly once and waits not for
it; a mutex in such a list is held by that task, and nobody waits for one that nobody holds. -/
theorem kernel_owners (h : Runs (obeying idle) (krhinoInit idle) cs s) :
    (∀ m t n, s.obj m = .mutex (some t) n → t ∈ s.Live ∧ 0 < n ∧ (s.mutexList t).count m = 1 ∧ t ∉ s.blkList m) ∧
    (∀ t ∈ s.Live, ∀ m ∈ s.mutexList t, ∃ n, s.obj m = .mutex (some t) n) ∧
    ∀ m n, s.obj m = .mutex none n → s.blkList m = [] := by
  have ho := (reached_sound h).owned
  refine ⟨fun m t n hm => ?_,fun t ht m hm => (ho.holds t ht m).mp hm,ho.free⟩
  have ht := (ho.live m t n hm).1
  exact ⟨ht,ho.nested m t n hm,List.count_eq_one_of_mem (ho.nodup t ht) ((ho.holds t ht m).mpr ⟨n,hm⟩),ho.other m t n hm⟩

theorem kernel_owners_contended :
    ∃ s n, Runs (obeying 0) (krhinoInit 0 : Kernel ℕ ℕ) contended s ∧ s.obj 0 = .mutex (some 1) n ∧ 0 < n ∧
      (s.mutexList 1).count 0 = 1 ∧ 1 ∉ s.blkList 0 := by
  obtain ⟨s,h,hlive,hm⟩ : ∃ s, Runs (obeying 0) (krhinoInit 0 : Kernel ℕ ℕ) contended s ∧
      ((s.taskState 1).live = true ∧ s.mutexList 1 = [0]) :=
    Runs.exists_of_exec (fun s => ((s.taskState 1).live,s.mutexList 1)) (v := (true,[0])) (by decide +kernel)
      fun s _ hseen => by simpa using hseen
  obtain ⟨n,hn⟩ := (kernel_owners h).2.1 1 hlive 0 (by simp [hm])
  obtain ⟨-,hpos,hcount,hother⟩ := (kernel_owners h).1 0 1 n hn
  exact ⟨s,n,h,hn,hpos,hcount,hother⟩

/-- Nobody waits for what is there: who waits for a semaphore finds no token, for an event not the
flags, for a queue no message, for a mutex another holder, and the object exists. -/
theorem kernel_waits (h : Runs (obeying idle) (krhinoInit idle) cs s) (o : O) : ∀ t ∈ s.blkList o, s.Lacks o t :=
  (reached_sound h).waits o (Set.notMem_empty o)

theorem kernel_waits_contended :
    ∃ s, Runs (obeying 0) (krhinoInit 0 : Kernel ℕ ℕ) contended s ∧ s.blkList 0 = [2] ∧ s.Lacks 0 2 := by
  refine Runs.exists_of_exec (fun s => s.blkList 0) (v := [2]) (by decide +kernel) fun s h hseen => ?_
  exact ⟨hseen,kernel_waits h 0 2 (by simp [hseen])⟩

/-- Every task is in the lists that its state says and in no others, the wait lists go by the
priority and the tick list by what is left. -/
theorem kernel_placed (h : Runs (obeying idle) (krhinoInit idle) cs s) : s.Placed ∧ s.TickKept :=
  ⟨(reached_sound h).placed,(reached_sound h).ticks⟩

theorem kernel_placed_contended :
    ∃ s, Runs (obeying 0) (krhinoInit 0 : Kernel ℕ ℕ) contended s ∧ s.Placed ∧ s.TickKept :=
  Runs.exists_of_exec (fun s => s.running) (v := true) (by decide +kernel) fun _ h _ => kernel_placed h

/-! ## Time -/

/-- A step of the kernel is one tick nearer to the end of a wait exactly when it is a tick. -/
theorem step_left (h : s.Sound idle) (hs : obeying idle s c = some s') (ht : t ∈ s.tickList) :
    s'.ticksLeft t + (if Call.isTick c then 1 else 0) = s.ticksLeft t := by
  have hpos := h.ticks.left t ht
  unfold ticksLeft at hpos ⊢
  rcases (obeying_sound h hs).2 with ⟨rfl,hp⟩ | ⟨htick,hr⟩
  · have hleft := (tick_left hpos).1
    unfold ticksLeft at hleft
    rw [hp.tickMatch,hp.count,hleft]
    simp only [Call.isTick,if_true]
    omega
  · rw [hr.timed t fun hu => hu ht,hr.count,htick]
    rfl

def ticksIn (cs : List (Call T O)) : ℕ := cs.countP Call.isTick

omit [DecidableEq T] [DecidableEq O] in
theorem ticksIn_concat (cs : List (Call T O)) (c : Call T O) :
    ticksIn (cs ++ [c]) = ticksIn cs + if Call.isTick c then 1 else 0 := by
  rw [ticksIn,List.countP_append,List.countP_singleton]
  rfl

variable {n : BitVec 64} {s1 : Kernel T O} {ms : List (Call T O)} {Q : Kernel T O → Call T O → Prop}

/-- The condition holds of every call of the run and the state that it comes to. -/
def Along (idle : T) (s : Kernel T O) (cs : List (Call T O)) (Q : Kernel T O → Call T O → Prop) : Prop :=
  ∀ ps c u, ps ++ [c] <+: cs → Runs (obeying idle) s ps u → Q u c

theorem Along.init (h : Along idle s (cs ++ [c]) Q) : Along idle s cs Q :=
  fun ps c' u hps => h ps c' u (hps.trans (List.prefix_append _ _))

theorem Along.last (h : Along idle s (cs ++ [c]) Q) (hrun : Runs (obeying idle) s cs s1) : Q s1 c :=
  h cs c s1 (List.prefix_refl _) hrun

/-- No call of the run deletes the task. -/
def Spared (idle : T) (s : Kernel T O) (t : T) (cs : List (Call T O)) : Prop := Along idle s cs fun u c => t ∉ u.deleted c

/-- Whoever waits for a tick through a whole run has waited for fewer ticks than he had to. -/
theorem waits_left (h : s.Sound idle) (hrun : Runs (obeying idle) s ms s')
    (hstay : ∀ ps u, ps <+: ms → Runs (obeying idle) s ps u → t ∈ u.tickList) :
    s'.Sound idle ∧ s'.ticksLeft t + ticksIn ms = s.ticksLeft t := by
  induction hrun with
  | refl => exact ⟨h,rfl⟩
  | @tail u v ls c hls hs ih =>
    obtain ⟨hu,hleft⟩ := ih fun ps w hps => hstay ps w (hps.trans (List.prefix_append _ _))
    have ht := hstay ls u (List.prefix_append _ _) hls
    have hone := step_left hu hs ht
    refine ⟨(obeying_sound hu hs).1,?_⟩
    rw [ticksIn_concat]
    omega

/-- A task that waits with a timeout, for whatever it is, does so for fewer ticks than the timeout:
it no longer waits, or no longer for the same, when that many have passed. -/
theorem kernel_waits_in_time (h : Runs (obeying idle) (krhinoInit idle) cs s) (hrun : Runs (obeying idle) s ms s')
    (hstay : ∀ ps u, ps <+: ms → Runs (obeying idle) s ps u → t ∈ u.tickList) :
    ticksIn ms < s.ticksLeft t ∧ s'.ticksLeft t + ticksIn ms = s.ticksLeft t := by
  obtain ⟨hs',hleft⟩ := waits_left (reached_sound h) hrun hstay
  have hpos := hs'.ticks.left t (hstay ms s' (List.prefix_refl _) hrun)
  exact ⟨by omega,hleft⟩

theorem kernel_waits_in_time_contended :
    ∃ s s', Runs (obeying 0) (krhinoInit 0 : Kernel ℕ ℕ) contended s ∧
      Runs (obeying 0) s [.intrptEnter,.tickProc,.tickProc] s' ∧ 2 < s.ticksLeft 2 ∧ s'.ticksLeft 2 + 2 = s.ticksLeft 2 := by
  obtain ⟨s,h,hnext⟩ : ∃ s, Runs (obeying 0) (krhinoInit 0 : Kernel ℕ ℕ) contended s ∧
      ((exec (obeying 0) s [.intrptEnter,.tickProc,.tickProc]).isSome = true ∧
        ∀ ps ∈ [(.intrptEnter : Call ℕ ℕ),.tickProc,.tickProc].inits,
          (exec (obeying 0) s ps).all (fun u => decide (2 ∈ u.tickList)) = true) :=
    Runs.exists_of_exec (fun s => ((exec (obeying 0) s [.intrptEnter,.tickProc,.tickProc]).isSome,
        decide (∀ ps ∈ [(.intrptEnter : Call ℕ ℕ),.tickProc,.tickProc].inits,
          (exec (obeying 0) s ps).all (fun u => decide (2 ∈ u.tickList)) = true))) (v := (true,true))
      (by decide +kernel) fun s _ hseen => by simpa using hseen
  obtain ⟨s',hs'⟩ := Option.isSome_iff_exists.mp hnext.1
  refine ⟨s,s',h,Runs.of_exec hs',kernel_waits_in_time h (Runs.of_exec hs') fun ps u hps hu => ?_⟩
  have hall := hnext.2 ps ((List.mem_inits _ _).mpr hps)
  rw [hu.exec_eq] at hall
  simpa using hall

end Kernel

end FmacSdk.Rhino
