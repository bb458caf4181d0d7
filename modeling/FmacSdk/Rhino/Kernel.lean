import FmacSdk.Rhino.Ringbuf
import FmacSdk.Rhino.SchedCalls
import FmacSdk.Rhino.TimeSlice

/-! # The objects of the kernel

Mutexes, semaphores, event flags and queues stand beside the tasks. Every object
has a wait list of its own in the scheduler; what it holds is here.
-/
namespace FmacSdk.Rhino
open RingStream
variable {T O : Type*} [DecidableEq T] [DecidableEq O]

/-- K_OBJ_STATIC_ALLOC and K_OBJ_DYN_ALLOC -/
inductive AllocFlag
  | static
  | dyn
  deriving DecidableEq,Repr

/-- RHINO_OR, RHINO_OR_CLEAR, RHINO_AND and RHINO_AND_CLEAR -/
inductive EventOpt
  | or
  | orClear
  | and
  | andClear
  deriving DecidableEq,Repr

/-- `opt & RHINO_FLAGS_AND_MASK` -/
def EventOpt.isAnd : EventOpt → Bool
  | .and | .andClear => true
  | _ => false

/-- `opt & RHINO_FLAGS_CLEAR_MASK` -/
def EventOpt.clears : EventOpt → Bool
  | .orClear | .andClear => true
  | _ => false

/-- kqueue_t -/
structure Kqueue where
  size : ℕ
  curNum : ℕ
  peakNum : ℕ
  ringbuf : KRingbuf

/-- kbuf_queue_t -/
structure KbufQueue where
  maxMsgSize : ℕ
  curNum : ℕ
  peakNum : ℕ
  minFreeBufSize : ℕ
  ringbuf : KRingbuf

/-- What stands behind a blk_obj_t, by its obj_type. -/
inductive Kobj (T : Type*)
  | none
  | mutex (mutexTask : Option T) (ownerNested : ℕ)
  | sem (count peakCount : ℕ)
  | event (flags : BitVec 32)
  | queue (q : Kqueue)
  | bufQueue (q : KbufQueue)

/-- RHINO_OBJ_TYPE_NONE -/
def Kobj.isNone : Kobj T → Bool
  | .none => true
  | _ => false

/-- RHINO_SEM_OBJ_TYPE -/
def Kobj.isSem : Kobj T → Bool
  | .sem .. => true
  | _ => false

/-- RHINO_EVENT_OBJ_TYPE -/
def Kobj.isEvent : Kobj T → Bool
  | .event _ => true
  | _ => false

/-- RHINO_QUEUE_OBJ_TYPE -/
def Kobj.isQueue : Kobj T → Bool
  | .queue _ => true
  | _ => false

/-- RHINO_BUF_QUEUE_OBJ_TYPE -/
def Kobj.isBufQueue : Kobj T → Bool
  | .bufQueue _ => true
  | _ => false

/-- The scheduler with the other fields of the tasks and with the objects. A task
has the list of the mutexes it holds, the last one first; `actlFlags` is what
pend_info points to and `msg` what is at the address, or the pointer itself. -/
structure Kernel (T O : Type*) extends Sched T O where
  bPrio : T → ℕ
  mutexList : T → List O
  mmAllocFlag : T → AllocFlag
  timeSlice : T → ℕ
  timeTotal : T → ℕ
  schedPolicy : T → SchedPolicy
  pendOption : T → EventOpt
  pendFlags : T → BitVec 32
  actlFlags : T → BitVec 32
  msg : T → List (BitVec 8)
  bqMsgSize : T → ℕ
  obj : O → Kobj T
  objAllocFlag : O → AllocFlag

/-- RHINO_CONFIG_TIME_SLICE_DEFAULT -/
def timeSliceDefault : ℕ := 5

namespace Kernel

/-- `obj->blk_obj.obj_type = ..` with the fields of the object -/
def setObj (s : Kernel T O) (o : O) (k : Kobj T) : Kernel T O := { s with obj := Function.update s.obj o k }

/-- RHINO_CRITICAL_EXIT_SCHED and the return -/
def exitSched (s : Kernel T O) (ret : Ret) : Option (Ret × Kernel T O) :=
  (s.toSched.exitSched ret).map fun r => (r.1,{ s with toSched := r.2 })

/-- A call that is only about the scheduler. -/
def onSched (s : Kernel T O) (out : Option (Ret × Sched T O)) : Option (Ret × Kernel T O) :=
  out.map fun r => (r.1,{ s with toSched := r.2 })

/-- The state of krhino_init before any task is created. -/
def empty (idle : T) : Kernel T O where
  taskState _ := .seed
  blkState _ := .finish
  blkObj _ := none
  prio _ := 0
  suspendCount _ := 0
  tickMatch _ := 0#64
  tickRemain _ := 0#64
  tickHead _ := false
  ready _ := []
  blkList _ := []
  tickList := []
  taskHead := []
  tickCount := 0#64
  active := idle
  schedLock := 0
  intrptNested := 0
  running := false
  bPrio _ := 0
  mutexList _ := []
  mmAllocFlag _ := .static
  timeSlice _ := 0
  timeTotal _ := 0
  schedPolicy _ := .fifo
  pendOption _ := .or
  pendFlags _ := 0#32
  actlFlags _ := 0#32
  msg _ := []
  bqMsgSize _ := 0
  obj _ := .none
  objAllocFlag _ := .static

/-- task_create from the memset on, up to the choice of the next task -/
def taskSpawn (s : Kernel T O) (task : T) (prio ticks : ℕ) (autorun : Bool) (flag : AllocFlag) : Kernel T O :=
  let total := if 0 < ticks then ticks % 2 ^ 32 else timeSliceDefault
  let s : Kernel T O :=
    { s with
      taskState := Function.update s.taskState task (if autorun then .rdy else .suspended)
      blkState := Function.update s.blkState task .finish
      blkObj := Function.update s.blkObj task none
      prio := Function.update s.prio task prio
      suspendCount := Function.update s.suspendCount task (if autorun then 0 else 1)
      tickMatch := Function.update s.tickMatch task 0#64
      tickRemain := Function.update s.tickRemain task 0#64
      tickHead := Function.update s.tickHead task false
      taskHead := s.taskHead ++ [task]
      bPrio := Function.update s.bPrio task prio
      mutexList := Function.update s.mutexList task []
      mmAllocFlag := Function.update s.mmAllocFlag task flag
      timeSlice := Function.update s.timeSlice task total
      timeTotal := Function.update s.timeTotal task total
      schedPolicy := Function.update s.schedPolicy task .rr
      pendOption := Function.update s.pendOption task .or
      pendFlags := Function.update s.pendFlags task 0#32
      msg := Function.update s.msg task []
      bqMsgSize := Function.update s.bqMsgSize task 0 }
  if autorun then { s with toSched := s.toSched.readyListAddTail task } else s

/-- krhino_init, as far as the idle task goes -/
def krhinoInit (idle : T) : Kernel T O := (empty idle).taskSpawn idle idlePri 0 true .static

/-- krhino_task_create and krhino_task_dyn_create with task_create; the idle task was
created by krhino_init. -/
def krhinoTaskCreate (s : Kernel T O) (task : T) (prio ticks : ℕ) (autorun : Bool) (flag : AllocFlag) :
    Option (Ret × Kernel T O) :=
  if priMax ≤ prio then some (.done .beyondMaxPri,s)
  else if 0 < s.intrptNested then some (.done .notCalledByIntrpt,s)
  else if prio = idlePri then some (.done .idleTaskExist,s)
  else if autorun = true ∧ s.running = true then
    (s.taskSpawn task prio ticks autorun flag).exitSched (.done .success)
  else some (.done .success,s.taskSpawn task prio ticks autorun flag)

/-- krhino_start, which does not return when it starts the first task -/
def krhinoStart (s : Kernel T O) : Option (Ret × Kernel T O) :=
  if s.running then some (.done .running,s)
  else (listsPreferred s.ready).map fun task => (.blocked,{ s with active := task, running := true })

/-! ## Mutexes and priorities -/

/-- The loop of mutex_pri_look over the mutexes of a task: the priority, and the
mutexes without `rel`. `pri` keeps its last value where nobody waits. -/
def priLookLoop (s : Kernel T O) (rel : Option O) : List O → ℕ → ℕ → ℕ × List O
  | [], _, newPri => (newPri,[])
  | m :: l, pri, newPri =>
    if some m = rel then priLookLoop s rel l pri newPri
    else
      let pri := match s.blkList m with
        | [] => pri
        | task :: _ => s.prio task
      let r := priLookLoop s rel l pri (if pri < newPri then pri else newPri)
      (r.1,m :: r.2)

/-- mutex_pri_limit -/
def mutexPriLimit (s : Kernel T O) (task : T) (pri : ℕ) : ℕ := (s.priLookLoop none (s.mutexList task) pri pri).1

/-- mutex_pri_look -/
def mutexPriLook (s : Kernel T O) (task : T) (rel : Option O) : ℕ × Kernel T O :=
  let r := s.priLookLoop rel (s.mutexList task) (s.bPrio task) (s.bPrio task)
  (r.1,{ s with mutexList := Function.update s.mutexList task r.2 })

/-- One turn of the loop of task_pri_change, with the task and the priority of the next
one; `none` where k_err_proc is called or a null pointer followed. -/
def taskPriChangeTurn (s : Kernel T O) (task : T) (newPri : ℕ) : Option (Kernel T O × Option (T × ℕ)) :=
  if s.prio task = newPri then some (s,none)
  else
    let oldPri := s.prio task
    (s.toSched.taskPriSet task newPri).bind fun c =>
      let s : Kernel T O := { s with toSched := c }
      if (s.taskState task).pending then
        match (s.blkObj task).map s.obj with
        | some (.mutex none _) => none
        | some (.mutex (some mutexTask) _) =>
          if s.prio task < s.prio mutexTask then some (s,some (mutexTask,newPri))
          else if s.prio mutexTask = oldPri then
            let r := s.mutexPriLook mutexTask none
            if r.1 ≠ r.2.prio mutexTask then some (r.2,some (mutexTask,r.1)) else some (r.2,none)
          else some (s,none)
        | some _ => some (s,none)
        | none => none
      else some (s,none)

/-- task_pri_change; `none` where the fuel does not suffice. -/
def taskPriChange : ℕ → Kernel T O → T → ℕ → Option (Kernel T O)
  | 0, _, _, _ => none
  | n + 1, s, task, newPri =>
    (s.taskPriChangeTurn task newPri).bind fun r =>
      match r.2 with
      | none => some r.1
      | some (task,newPri) => taskPriChange n r.1 task newPri

/-- A turn for every task that exists is enough for task_pri_change. -/
def priFuel (s : Kernel T O) : ℕ := s.taskHead.length + 1

/-- mutex_release -/
def mutexRelease (s : Kernel T O) (task : T) (rel : Option O) : Option (Kernel T O) :=
  let r := s.mutexPriLook task rel
  if r.1 ≠ r.2.prio task then taskPriChange r.2.priFuel r.2 task r.1 else some r.2

/-- mutex_task_pri_reset -/
def mutexTaskPriReset (s : Kernel T O) (task : T) : Option (Kernel T O) :=
  match (s.blkObj task).map s.obj with
  | some (.mutex none _) => none
  | some (.mutex (some mutexTask) _) =>
    if s.prio mutexTask = s.prio task then s.mutexRelease mutexTask none else some s
  | some _ => some s
  | none => none

/-- krhino_task_pri_change -/
def krhinoTaskPriChange (s : Kernel T O) (task : T) (pri : ℕ) : Option (Ret × Kernel T O) :=
  if idlePri ≤ s.prio task then some (.done .priChgNotAllowed,s)
  else if idlePri ≤ pri then some (.done .priChgNotAllowed,s)
  else if s.taskState task = .deleted then some (.done .invTaskState,s)
  else if 0 < s.intrptNested then some (.done .notCalledByIntrpt,s)
  else
    let priLimit := s.mutexPriLimit task pri
    let s := { s with bPrio := Function.update s.bPrio task pri }
    (taskPriChange s.priFuel s task priLimit).bind fun s => s.exitSched (.done .success)

/-! ## The ends of waits -/

/-- `while (!is_klist_empty(blk_list_head)) ..` for a wait list of the length `n`: the
first task gets what `f` gives it and its wait ends. -/
def pendTaskEndAll (f : Kernel T O → T → Kernel T O) (blk : BlkState) (o : O) : ℕ → Kernel T O → Option (Kernel T O)
  | 0, s => some s
  | n + 1, s =>
    match s.blkList o with
    | [] => some s
    | task :: _ =>
      let s := f s task
      (s.toSched.pendTaskEnd task blk).bind fun c => pendTaskEndAll f blk o n { s with toSched := c }

/-- The `while` loop of the calls that delete an object. -/
def pendTaskRmAll (s : Kernel T O) (o : O) : Option (Kernel T O) :=
  pendTaskEndAll (fun s _ => s) .del o (s.blkList o).length s

/-- The loop of task_mutex_free -/
def taskMutexFree : List O → Kernel T O → Option (Kernel T O)
  | [], s => some s
  | m :: l, s =>
    match s.obj m with
    | .mutex _ nested =>
      match s.blkList m with
      | [] => taskMutexFree l (s.setObj m (.mutex none nested))
      | nextTask :: _ =>
        (s.toSched.pendTaskEnd nextTask .finish).bind fun c =>
          let s : Kernel T O := { s with toSched := c }
          let s := s.setObj m (.mutex (some nextTask) nested)
          taskMutexFree l
            { s with mutexList := Function.update s.mutexList nextTask (m :: s.mutexList nextTask) }
    | _ => taskMutexFree l s

/-- The switch of krhino_task_del with the removal from g_kobj_list.task_head -/
def taskUnlist (s : Kernel T O) (task : T) : Option (Kernel T O) :=
  let unlisted (s : Kernel T O) : Kernel T O := { s with taskHead := s.taskHead.erase task }
  match s.taskState task with
  | .rdy => some (unlisted { s with toSched := (s.toSched.readyListRm task).setState task .deleted })
  | .suspended => some (unlisted { s with toSched := s.toSched.setState task .deleted })
  | .sleep | .sleepSuspended =>
    some (unlisted { s with toSched := (s.toSched.tickListRm task).setState task .deleted })
  | .pend | .pendSuspended =>
    let s : Kernel T O := { s with toSched := ((s.toSched.tickListRm task).blkListRm task).setState task .deleted }
    (s.mutexTaskPriReset task).map unlisted
  | _ => none

/-- krhino_task_del; a null pointer stands for the task that runs. -/
def krhinoTaskDel (s : Kernel T O) (task : Option T) : Option (Ret × Kernel T O) :=
  if 0 < s.intrptNested then some (.done .notCalledByIntrpt,s)
  else
    let task := task.getD s.active
    if s.prio task = idlePri then some (.done .taskDelNotAllowed,s)
    else if s.mmAllocFlag task ≠ .static then some (.done .kobjDelErr,s)
    else if task = s.active ∧ 0 < s.schedLock then some (.done .schedDisable,s)
    else
      (taskMutexFree (s.mutexList task) s).bind fun s =>
        if s.taskState task = .seed ∨ s.taskState task = .deleted then some (.done .invTaskState,s)
        else (s.taskUnlist task).bind fun s => s.exitSched (.done .success)

/-! ## Ticks -/

/-- The body of the loop of tick_list_update for a task whose time is up -/
def tickTaskUpdate (s : Kernel T O) (task : T) : Option (Kernel T O) :=
  (s.toSched.tickTaskEnd task).bind fun c =>
    if (s.taskState task).pending then
      (mutexTaskPriReset { s with toSched := c } task).map fun s =>
        { s with blkObj := Function.update s.blkObj task none }
    else some { s with toSched := c }

/-- The loop of tick_list_update, which notes the next task before it wakes one. -/
def tickLoop : List T → Kernel T O → Option (Kernel T O)
  | [], s => some s
  | task :: l, s =>
    if (s.tickMatch task - s.tickCount).toInt ≤ 0 then (s.tickTaskUpdate task).bind (tickLoop l) else some s

/-- tick_list_update -/
def tickListUpdate (s : Kernel T O) (ticks : BitVec 64) : Option (Kernel T O) :=
  tickLoop s.tickList { s with tickCount := s.tickCount + ticks }

/-- time_slice_update -/
def timeSliceUpdate (s : Kernel T O) : Kernel T O :=
  match s.ready (s.prio s.active) with
  | [] => s
  | [_] => s
  | task :: _ =>
    if s.schedPolicy task = .fifo then s
    else
      let slice := if 0 < s.timeSlice task then s.timeSlice task - 1 else s.timeSlice task
      if 0 < slice then { s with timeSlice := Function.update s.timeSlice task slice }
      else
        { s with
          toSched := s.toSched.readyListHeadToTail task
          timeSlice := Function.update s.timeSlice task (s.timeTotal task) }

/-- krhino_tick_proc -/
def krhinoTickProc (s : Kernel T O) : Option (Ret × Kernel T O) :=
  (s.tickListUpdate 1#64).map fun s => (.done .success,s.timeSliceUpdate)

/-! ## Objects that are created and deleted -/

/-- mutex_create, sem_create, event_create, queue_create and buf_queue_create, where the
parameters are accepted -/
def objCreate (s : Kernel T O) (o : O) (k : Kobj T) (flag : AllocFlag) : Kernel T O :=
  { s with
    obj := Function.update s.obj o k
    objAllocFlag := Function.update s.objAllocFlag o flag
    blkList := Function.update s.blkList o [] }

/-- The calls that delete an object that is no mutex; `isKind` is the check of its type. -/
def objDel (s : Kernel T O) (isKind : Kobj T → Bool) (flag : AllocFlag) (o : O) : Option (Ret × Kernel T O) :=
  if 0 < s.intrptNested then some (.done .notCalledByIntrpt,s)
  else if !isKind (s.obj o) then some (.done .kobjTypeErr,s)
  else if s.objAllocFlag o ≠ flag then some (.done .kobjDelErr,s)
  else ((s.setObj o .none).pendTaskRmAll o).bind fun s => s.exitSched (.done .success)

/-! ## Mutexes -/

/-- krhino_mutex_create and krhino_mutex_dyn_create with mutex_create -/
def krhinoMutexCreate (s : Kernel T O) (m : O) (flag : AllocFlag) : Option (Ret × Kernel T O) :=
  some (.done .success,s.objCreate m (.mutex none 0) flag)

/-- krhino_mutex_del and krhino_mutex_dyn_del -/
def krhinoMutexDel (s : Kernel T O) (m : O) (flag : AllocFlag) : Option (Ret × Kernel T O) :=
  if 0 < s.intrptNested then some (.done .notCalledByIntrpt,s)
  else
    match s.obj m with
    | .mutex mutexTask _ =>
      if s.objAllocFlag m ≠ flag then some (.done .kobjDelErr,s)
      else
        let s := s.setObj m .none
        (match mutexTask with
          | none => some s
          | some task => s.mutexRelease task (some m)).bind fun s =>
            (s.pendTaskRmAll m).bind fun s => s.exitSched (.done .success)
    | _ => some (.done .kobjTypeErr,s)

/-- `(mutex_nested_t)-1` -/
def mutexNestedMax : ℕ := 2 ^ 32 - 1

/-- krhino_mutex_lock up to the wait -/
def krhinoMutexLock (s : Kernel T O) (m : O) (ticks : BitVec 64) : Option (Ret × Kernel T O) :=
  if !s.running then some (.done .success,s)
  else if 0 < s.intrptNested then some (.done .notCalledByIntrpt,s)
  else
    match s.obj m with
    | .mutex none _ =>
      let s := s.setObj m (.mutex (some s.active) 1)
      some (.done .success,
        { s with mutexList := Function.update s.mutexList s.active (m :: s.mutexList s.active) })
    | .mutex (some mutexTask) nested =>
      if s.active = mutexTask then
        if nested = mutexNestedMax then none
        else some (.done .mutexOwnerNested,s.setObj m (.mutex (some mutexTask) (nested + 1)))
      else if ticks = noWait then some (.done .noPendWait,s)
      else if 0 < s.schedLock then some (.done .schedDisable,s)
      else
        (if s.prio s.active < s.prio mutexTask then taskPriChange s.priFuel s mutexTask (s.prio s.active)
          else some s).bind fun s =>
            { s with toSched := s.toSched.pendToBlkObj m s.active ticks }.exitSched .blocked
    | _ => some (.done .kobjTypeErr,s)

/-- krhino_mutex_unlock -/
def krhinoMutexUnlock (s : Kernel T O) (m : O) : Option (Ret × Kernel T O) :=
  if !s.running then some (.done .success,s)
  else if 0 < s.intrptNested then some (.done .notCalledByIntrpt,s)
  else
    match s.obj m with
    | .mutex mutexTask nested =>
      if mutexTask ≠ some s.active then some (.done .mutexNotReleasedByOwner,s)
      else if 0 < nested - 1 then some (.done .mutexOwnerNested,s.setObj m (.mutex mutexTask (nested - 1)))
      else
        (s.setObj m (.mutex mutexTask (nested - 1))).mutexRelease s.active (some m) |>.bind fun s =>
          match s.blkList m with
          | [] => some (.done .success,s.setObj m (.mutex none (nested - 1)))
          | task :: _ =>
            (s.toSched.pendTaskEnd task .finish).bind fun c =>
              let s : Kernel T O := { s with toSched := c }
              let s := s.setObj m (.mutex (some task) 1)
              { s with mutexList := Function.update s.mutexList task (m :: s.mutexList task) }.exitSched (.done .success)
    | _ => some (.done .kobjTypeErr,s)

/-! ## Semaphores -/

/-- `(sem_count_t)-1` -/
def semCountMax : ℕ := 2 ^ 32 - 1

/-- krhino_sem_create and krhino_sem_dyn_create with sem_create -/
def krhinoSemCreate (s : Kernel T O) (o : O) (count : ℕ) (flag : AllocFlag) : Option (Ret × Kernel T O) :=
  some (.done .success,s.objCreate o (.sem count count) flag)

/-- krhino_sem_del and krhino_sem_dyn_del -/
def krhinoSemDel (s : Kernel T O) (o : O) (flag : AllocFlag) : Option (Ret × Kernel T O) := s.objDel Kobj.isSem flag o

/-- krhino_sem_give and krhino_sem_give_all with sem_give -/
def semGive (s : Kernel T O) (o : O) (wakeAll : Bool) : Option (Ret × Kernel T O) :=
  match s.obj o with
  | .sem count peak =>
    if s.blkList o = [] then
      if count = semCountMax then some (.done .semOvf,s)
      else some (.done .success,s.setObj o (.sem (count + 1) (if peak < count + 1 then count + 1 else peak)))
    else
      let n := if wakeAll then (s.blkList o).length else 1
      (pendTaskEndAll (fun s _ => s) .finish o n s).bind fun s => s.exitSched (.done .success)
  | _ => some (.done .kobjTypeErr,s)

/-- krhino_sem_take up to the wait -/
def krhinoSemTake (s : Kernel T O) (o : O) (ticks : BitVec 64) : Option (Ret × Kernel T O) :=
  if 0 < s.intrptNested then some (.done .notCalledByIntrpt,s)
  else
    match s.obj o with
    | .sem count peak =>
      if 0 < count then some (.done .success,s.setObj o (.sem (count - 1) peak))
      else if ticks = noWait then some (.done .noPendWait,s)
      else if 0 < s.schedLock then some (.done .schedDisable,s)
      else { s with toSched := s.toSched.pendToBlkObj o s.active ticks }.exitSched .blocked
    | _ => some (.done .kobjTypeErr,s)

/-- krhino_sem_count_set -/
def krhinoSemCountSet (s : Kernel T O) (o : O) (semCount : ℕ) : Option (Ret × Kernel T O) :=
  if 0 < s.intrptNested then some (.done .notCalledByIntrpt,s)
  else
    match s.obj o with
    | .sem count peak =>
      if count = 0 ∧ s.blkList o ≠ [] then some (.done .semTaskWaiting,s)
      else some (.done .success,s.setObj o (.sem semCount (if peak < semCount then semCount else peak)))
    | _ => some (.done .kobjTypeErr,s)

/-! ## Event flags -/

/-- The test of the flags in krhino_event_get and event_set -/
def eventHolds (flags want : BitVec 32) (opt : EventOpt) : Bool :=
  if opt.isAnd then flags &&& want = want else flags &&& want ≠ 0#32

/-- krhino_event_create and krhino_event_dyn_create with event_create -/
def krhinoEventCreate (s : Kernel T O) (o : O) (flags : BitVec 32) (flag : AllocFlag) : Option (Ret × Kernel T O) :=
  some (.done .success,s.objCreate o (.event flags) flag)

/-- krhino_event_del and krhino_event_dyn_del -/
def krhinoEventDel (s : Kernel T O) (o : O) (flag : AllocFlag) : Option (Ret × Kernel T O) := s.objDel Kobj.isEvent flag o

/-- krhino_event_get up to the wait -/
def krhinoEventGet (s : Kernel T O) (o : O) (flags : BitVec 32) (opt : EventOpt) (ticks : BitVec 64) :
    Option (Ret × Kernel T O) :=
  if 0 < s.intrptNested then some (.done .notCalledByIntrpt,s)
  else
    match s.obj o with
    | .event cur =>
      if eventHolds cur flags opt then
        some (.flagged cur,s.setObj o (.event (if opt.clears then cur &&& ~~~flags else cur)))
      else if ticks = noWait then some (.done .noPendWait,s)
      else if 0 < s.schedLock then some (.done .schedDisable,s)
      else
        { s with
          pendOption := Function.update s.pendOption s.active opt
          pendFlags := Function.update s.pendFlags s.active flags
          toSched := s.toSched.pendToBlkObj o s.active ticks }.exitSched .blocked
    | _ => some (.done .kobjTypeErr,s)

/-- The loop of event_set, which notes the next task before it wakes one; `cur` are the
flags that all waiting tasks are tested with, and what is left of them is carried along. -/
def eventSetLoop (cur : BitVec 32) : List T → BitVec 32 → Kernel T O → Option (BitVec 32 × Kernel T O)
  | [], flags, s => some (flags,s)
  | task :: l, flags, s =>
    if eventHolds cur (s.pendFlags task) (s.pendOption task) then
      let s := { s with actlFlags := Function.update s.actlFlags task cur }
      (s.toSched.pendTaskEnd task .finish).bind fun c =>
        eventSetLoop cur l (if (s.pendOption task).clears then flags &&& ~~~s.pendFlags task else flags)
          { s with toSched := c }
    else eventSetLoop cur l flags s

/-- krhino_event_set with event_set -/
def krhinoEventSet (s : Kernel T O) (o : O) (flags : BitVec 32) (opt : EventOpt) : Option (Ret × Kernel T O) :=
  if opt ≠ .and ∧ opt ≠ .or then some (.done .noThisEventOpt,s)
  else
    match s.obj o with
    | .event cur =>
      if opt.isAnd then some (.done .success,s.setObj o (.event (cur &&& flags)))
      else
        (eventSetLoop (cur ||| flags) (s.blkList o) (cur ||| flags) s).bind fun r =>
          (r.2.setObj o (.event r.1)).exitSched (.done .success)
    | _ => some (.done .kobjTypeErr,s)

/-! ## Queues -/

/-- `sizeof(void *)` -/
def ptrSize : ℕ := 4

/-- krhino_queue_create and krhino_queue_dyn_create with queue_create -/
def krhinoQueueCreate (s : Kernel T O) (o : O) (start : ℕ → BitVec 8) (msgNum : ℕ) (flag : AllocFlag) :
    Option (Ret × Kernel T O) :=
  if msgNum = 0 then some (.done .invParam,s)
  else
    some (.done .success,
      s.objCreate o (.queue ⟨msgNum,0,0,ringbufInit start (msgNum * ptrSize) .fix ptrSize⟩) flag)

/-- krhino_queue_del and krhino_queue_dyn_del -/
def krhinoQueueDel (s : Kernel T O) (o : O) (flag : AllocFlag) : Option (Ret × Kernel T O) := s.objDel Kobj.isQueue flag o

/-- krhino_queue_back_send and krhino_queue_all_send with msg_send; `data` are the bytes of
the pointer that is sent. -/
def msgSend (s : Kernel T O) (o : O) (data : ℕ → BitVec 8) (wakeAll : Bool) : Option (Ret × Kernel T O) :=
  match s.obj o with
  | .queue q =>
    if q.size ≤ q.curNum then some (.done .queueFull,s)
    else if s.blkList o = [] then
      some (.done .success,
        s.setObj o (.queue
          { q with
            curNum := q.curNum + 1
            peakNum := if q.peakNum < q.curNum + 1 then q.curNum + 1 else q.peakNum
            ringbuf := (ringbufPush q.ringbuf data ptrSize).2 }))
    else
      let n := if wakeAll then (s.blkList o).length else 1
      (pendTaskEndAll (fun s task => { s with msg := Function.update s.msg task (cells data 0 ptrSize) })
        .finish o n s).bind fun s => s.exitSched (.done .success)
  | _ => some (.done .kobjTypeErr,s)

/-- krhino_queue_recv up to the wait -/
def krhinoQueueRecv (s : Kernel T O) (o : O) (ticks : BitVec 64) : Option (Ret × Kernel T O) :=
  if 0 < s.intrptNested ∧ ticks ≠ noWait then some (.done .notCalledByIntrpt,s)
  else
    match s.obj o with
    | .queue q =>
      if 0 < q.curNum then
        let r := ringbufPop q.ringbuf
        some (.received r.2.2,s.setObj o (.queue { q with curNum := q.curNum - 1, ringbuf := r.2.1 }))
      else if ticks = noWait then some (.done .noPendWait,s)
      else if 0 < s.schedLock then some (.done .schedDisable,s)
      else { s with toSched := s.toSched.pendToBlkObj o s.active ticks }.exitSched .blocked
    | _ => some (.done .kobjTypeErr,s)

/-- krhino_queue_flush -/
def krhinoQueueFlush (s : Kernel T O) (o : O) : Option (Ret × Kernel T O) :=
  if 0 < s.intrptNested then some (.done .notCalledByIntrpt,s)
  else
    match s.obj o with
    | .queue q =>
      some (.done .success,s.setObj o (.queue { q with curNum := 0, ringbuf := ringbufReset q.ringbuf }))
    | _ => some (.done .kobjTypeErr,s)

/-! ## Buffer queues -/

/-- krhino_buf_queue_create, krhino_fix_buf_queue_create and krhino_buf_queue_dyn_create with
buf_queue_create -/
def krhinoBufQueueCreate (s : Kernel T O) (o : O) (buf : ℕ → BitVec 8) (size maxMsg : ℕ) (type : RingbufType)
    (flag : AllocFlag) : Option (Ret × Kernel T O) :=
  if maxMsg = 0 then some (.done .invParam,s)
  else if size = 0 then some (.done .bufQueueSizeZero,s)
  else
    some (.done .success,
      s.objCreate o (.bufQueue ⟨maxMsg,0,0,size,ringbufInit buf size type maxMsg⟩) flag)

/-- krhino_buf_queue_del and krhino_buf_queue_dyn_del -/
def krhinoBufQueueDel (s : Kernel T O) (o : O) (flag : AllocFlag) : Option (Ret × Kernel T O) :=
  s.objDel Kobj.isBufQueue flag o

/-- krhino_buf_queue_send with buf_queue_send -/
def krhinoBufQueueSend (s : Kernel T O) (o : O) (data : ℕ → BitVec 8) (msgSize : ℕ) : Option (Ret × Kernel T O) :=
  match s.obj o with
  | .bufQueue q =>
    if q.maxMsgSize < msgSize then some (.done .bufQueueMsgSizeOverflow,s)
    else if msgSize = 0 then some (.done .invParam,s)
    else
      match s.blkList o with
      | [] =>
        let r := ringbufPush q.ringbuf data msgSize
        if r.1 ≠ .success then some (.done (if r.1 = .ringbufFull then .bufQueueFull else r.1),s)
        else
          some (.done .success,
            s.setObj o (.bufQueue
              { q with
                curNum := q.curNum + 1
                peakNum := if q.peakNum < q.curNum + 1 then q.curNum + 1 else q.peakNum
                minFreeBufSize :=
                  if r.2.freesize < q.minFreeBufSize then r.2.freesize else q.minFreeBufSize
                ringbuf := r.2 }))
      | task :: _ =>
        let s :=
          { s with
            msg := Function.update s.msg task (cells data 0 msgSize)
            bqMsgSize := Function.update s.bqMsgSize task msgSize }
        (s.toSched.pendTaskEnd task .finish).bind fun c => { s with toSched := c }.exitSched (.done .success)
  | _ => some (.done .kobjTypeErr,s)

/-- krhino_buf_queue_recv up to the wait -/
def krhinoBufQueueRecv (s : Kernel T O) (o : O) (ticks : BitVec 64) : Option (Ret × Kernel T O) :=
  if 0 < s.intrptNested ∧ ticks ≠ noWait then some (.done .notCalledByIntrpt,s)
  else
    match s.obj o with
    | .bufQueue q =>
      if !ringbufIsEmpty q.ringbuf then
        let r := ringbufPop q.ringbuf
        some (.received r.2.2,s.setObj o (.bufQueue { q with curNum := q.curNum - 1, ringbuf := r.2.1 }))
      else if ticks = noWait then some (.done .noPendWait,s)
      else if 0 < s.schedLock then some (.done .schedDisable,s)
      else { s with toSched := s.toSched.pendToBlkObj o s.active ticks }.exitSched .blocked
    | _ => some (.done .kobjTypeErr,s)

/-- krhino_buf_queue_flush -/
def krhinoBufQueueFlush (s : Kernel T O) (o : O) : Option (Ret × Kernel T O) :=
  if 0 < s.intrptNested then some (.done .notCalledByIntrpt,s)
  else
    match s.obj o with
    | .bufQueue q =>
      let rb := ringbufReset q.ringbuf
      some (.done .success,s.setObj o (.bufQueue
        { q with curNum := 0, peakNum := 0, minFreeBufSize := rb.freesize, ringbuf := rb }))
    | _ => some (.done .kobjTypeErr,s)

end Kernel

end FmacSdk.Rhino
