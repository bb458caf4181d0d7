import FmacSdk.Rhino.SchedMoves

/-! # The choice of the task to run

A call that has moved tasks ends with the choice of the first task of the highest
priority, unless an interrupt is served or the scheduler is locked. The idle task is
always ready, so there is one.
-/
namespace FmacSdk.Rhino
open WaitList
variable {T O : Type*} [DecidableEq T] [DecidableEq O]

/-- What a call comes to: its status, RHINO_SUCCESS with a message or with flags, or
it does not return for now. -/
inductive Ret
  | done (stat : Kstat)
  | received (msg : List (BitVec 8))
  | flagged (flags : BitVec 32)
  | blocked
  deriving DecidableEq,Repr

/-- SCHED_MAX_LOCK_COUNT -/
def schedMaxLockCount : ℕ := 200

/-- RHINO_CONFIG_INTRPT_MAX_NESTED_LEVEL -/
def intrptMaxNestedLevel : ℕ := 188

namespace Sched

/-- RHINO_CRITICAL_EXIT_SCHED and the return -/
def exitSched (s : Sched T O) (ret : Ret) : Option (Ret × Sched T O) := s.coreSched.map fun s => (ret,s)

/-- krhino_sched_disable -/
def krhinoSchedDisable (s : Sched T O) : Option (Ret × Sched T O) :=
  if 0 < s.intrptNested then some (.done .notCalledByIntrpt,s)
  else if schedMaxLockCount ≤ s.schedLock then some (.done .schedLockCountOvf,s)
  else some (.done .success,{ s with schedLock := s.schedLock + 1 })

/-- krhino_sched_enable -/
def krhinoSchedEnable (s : Sched T O) : Option (Ret × Sched T O) :=
  if 0 < s.intrptNested then some (.done .notCalledByIntrpt,s)
  else if s.schedLock = 0 then some (.done .schedAlreadyEnabled,s)
  else
    let s := { s with schedLock := s.schedLock - 1 }
    if 0 < s.schedLock then some (.done .schedDisable,s) else s.exitSched (.done .success)

/-- krhino_intrpt_enter -/
def krhinoIntrptEnter (s : Sched T O) : Option (Ret × Sched T O) :=
  if intrptMaxNestedLevel ≤ s.intrptNested then none
  else some (.done .success,{ s with intrptNested := s.intrptNested + 1 })

/-- krhino_intrpt_exit -/
def krhinoIntrptExit (s : Sched T O) : Option (Ret × Sched T O) :=
  if s.intrptNested = 0 then none
  else { s with intrptNested := s.intrptNested - 1 }.exitSched (.done .success)

/-- krhino_task_sleep -/
def krhinoTaskSleep (s : Sched T O) (ticks : BitVec 64) : Option (Ret × Sched T O) :=
  if ticks = 0#64 then some (.done .invParam,s)
  else if 0 < s.intrptNested then some (.done .notCalledByIntrpt,s)
  else if 0 < s.schedLock then some (.done .schedDisable,s)
  else (s.taskSleep s.active ticks).exitSched .blocked

/-- krhino_task_yield -/
def krhinoTaskYield (s : Sched T O) : Option (Ret × Sched T O) :=
  (s.readyListHeadToTail s.active).exitSched (.done .success)

/-- `task->suspend_count = count; task->task_state = stat` -/
def setSuspended (s : Sched T O) (task : T) (count : ℕ) (stat : TaskStat) : Sched T O :=
  { s with suspendCount := Function.update s.suspendCount task count }.setState task stat

/-- krhino_task_suspend with task_suspend -/
def krhinoTaskSuspend (s : Sched T O) (task : T) : Option (Ret × Sched T O) :=
  if s.prio task = idlePri then some (.done .taskSuspendNotAllowed,s)
  else if task = s.active ∧ 0 < s.schedLock then some (.done .schedDisable,s)
  else
    match s.taskState task with
    | .rdy => ((s.setSuspended task 1 .suspended).readyListRm task).exitSched (.done .success)
    | .sleep => (s.setSuspended task 1 .sleepSuspended).exitSched (.done .success)
    | .pend => (s.setSuspended task 1 .pendSuspended).exitSched (.done .success)
    | .suspended | .sleepSuspended | .pendSuspended =>
      if s.suspendCount task = 255 then some (.done .suspendedCountOvf,s)
      else (s.setSuspended task (s.suspendCount task + 1) (s.taskState task)).exitSched (.done .success)
    | _ => some (.done .invTaskState,s)

/-- krhino_task_resume with task_resume -/
def krhinoTaskResume (s : Sched T O) (task : T) : Option (Ret × Sched T O) :=
  let count := s.suspendCount task - 1
  match s.taskState task with
  | .rdy | .sleep | .pend => some (.done .taskNotSuspended,s)
  | .suspended =>
    if count = 0 then ((s.setSuspended task count .rdy).readyListAdd task).exitSched (.done .success)
    else (s.setSuspended task count .suspended).exitSched (.done .success)
  | .sleepSuspended =>
    (s.setSuspended task count (if count = 0 then .sleep else .sleepSuspended)).exitSched (.done .success)
  | .pendSuspended =>
    (s.setSuspended task count (if count = 0 then .pend else .pendSuspended)).exitSched (.done .success)
  | _ => some (.done .invTaskState,s)

/-! ## What holds between the calls -/

/-- The idle task is ready, and all others are more urgent. -/
structure IdleKept (s : Sched T O) (idle : T) : Prop where
  rdy : s.taskState idle = .rdy
  prio : s.prio idle = idlePri
  others : ∀ t, t ≠ idle → (s.taskState t).live = true → s.prio t < idlePri

/-- A task that is asked for by its number is ready, and it is the first one of
the highest priority where nothing keeps the kernel from switching to it. -/
structure Current (s : Sched T O) (idle : T) : Prop where
  placed : s.Placed
  idle : s.IdleKept idle
  rdy : s.intrptNested = 0 ∨ 0 < s.schedLock → s.taskState s.active = .rdy
  best : s.running = true → s.intrptNested = 0 → s.schedLock = 0 → listsPreferred s.ready = some s.active

/-- Nothing has changed for those that wait for an object, or hold one. -/
structure Calm (s s' : Sched T O) : Prop where
  prio : s'.prio = s.prio
  obj : s'.blkObj = s.blkObj
  blk : s'.blkList = s.blkList
  known : s'.taskHead = s.taskHead
  pending : ∀ t, (s'.taskState t).pending = (s.taskState t).pending
  live : ∀ t, (s'.taskState t).live = (s.taskState t).live
  ticks : s.TickKept → s'.TickKept
  count : s'.tickCount = s.tickCount
  timed : ∀ t ∉ s.Untimed, s'.tickMatch t = s.tickMatch t
  asleep : ∀ t, (s.taskState t).sleeping = true → (s'.taskState t).sleeping = true
  awake : ∀ t, t ≠ s.active → (s'.taskState t).sleeping = (s.taskState t).sleeping
  ends : s'.blkState = s.blkState

variable {s s' s'' : Sched T O} {t x idle : T} {time : BitVec 64} {st : TaskStat} {ret : Ret} {n : ℕ}

omit [DecidableEq T] [DecidableEq O]

theorem Calm.of_eq (hprio : s'.prio = s.prio) (hobj : s'.blkObj = s.blkObj) (hblk : s'.blkList = s.blkList)
    (hknown : s'.taskHead = s.taskHead) (hlist : s'.tickList = s.tickList) (hmatch : s'.tickMatch = s.tickMatch)
    (hcount : s'.tickCount = s.tickCount) (hends : s'.blkState = s.blkState)
    (hstate : ∀ t, (s'.taskState t).pending = (s.taskState t).pending ∧ (s'.taskState t).live = (s.taskState t).live ∧
      (s'.taskState t).sleeping = (s.taskState t).sleeping) : Calm s s' :=
  ⟨hprio,hobj,hblk,hknown,fun t => (hstate t).1,fun t => (hstate t).2.1,fun h => h.congr hlist hmatch hcount,
    hcount,fun t _ => congrFun hmatch t,fun t hs => (hstate t).2.2.trans hs,fun t _ => (hstate t).2.2,hends⟩

theorem Calm.refl (s : Sched T O) : Calm s s := Calm.of_eq rfl rfl rfl rfl rfl rfl rfl rfl fun _ => ⟨rfl,rfl,rfl⟩

/-- Neither the ready lists nor who runs matter. -/
theorem Calm.switch (h : Calm s s') (r : ℕ → List T) (t : T) : Calm s { s' with ready := r, active := t } :=
  ⟨h.prio,h.obj,h.blk,h.known,h.pending,h.live,fun ht => (h.ticks ht).congr rfl rfl rfl,h.count,h.timed,h.asleep,
    h.awake,h.ends⟩

theorem listsPreferred_mem {ready : ℕ → List T} (h : listsPreferred ready = some t) : ∃ p, t ∈ ready p := by
  obtain ⟨p,-,hp⟩ := List.exists_of_findSome?_eq_some h
  exact ⟨p,List.mem_of_head? hp⟩

theorem listsPreferred_isSome {ready : ℕ → List T} {p : ℕ} (hp : p < priMax) (hne : ready p ≠ []) :
    ∃ t, listsPreferred ready = some t := by
  rw [← Option.isSome_iff_exists,listsPreferred,List.findSome?_isSome_iff]
  exact ⟨p,List.mem_range.mpr hp,by simpa using hne⟩

/-- The choice of the next task: there is one, and it is the first of the highest priority. -/
theorem exitSched_current (h : s.Placed) (hidle : s.IdleKept idle)
    (hlock : 0 < s.schedLock → s.taskState s.active = .rdy) (ret : Ret) :
    ∃ s', s.exitSched ret = some (ret,s') ∧ s'.Current idle ∧ s' = { s with active := s'.active } := by
  unfold exitSched coreSched
  split_ifs with hin hloc
  · exact ⟨s,rfl,⟨h,hidle,fun hor => hlock (hor.resolve_left (by omega)),fun _ h0 => by omega⟩,rfl⟩
  · exact ⟨s,rfl,⟨h,hidle,fun _ => hlock hloc,fun _ _ h0 => by omega⟩,rfl⟩
  · have hmem : idle ∈ s.ready idlePri := ((h.task idle).ready idlePri).mpr ⟨hidle.rdy,hidle.prio⟩
    obtain ⟨t,ht⟩ := listsPreferred_isSome (by decide) (List.ne_nil_of_mem hmem)
    obtain ⟨p,hp⟩ := listsPreferred_mem ht
    refine ⟨{ s with active := t },by rw [ht]; rfl,⟨?_,⟨hidle.rdy,hidle.prio,hidle.others⟩,?_,fun _ _ _ => ht⟩,rfl⟩
    · exact h.change (t := t) (fun x _ => ⟨rfl,rfl,rfl,rfl,rfl,fun _ => Iff.rfl,fun _ => Iff.rfl,Iff.rfl,Iff.rfl⟩)
        ((h.task t).of_untouched
          ⟨rfl,rfl,rfl,rfl,rfl,fun _ => Iff.rfl,fun _ => Iff.rfl,Iff.rfl,Iff.rfl⟩)
        ⟨h.lists.ready,h.lists.blk,h.lists.ordered,h.lists.tick⟩
    · exact fun _ => (((h.task t).ready p).mp hp).1

theorem IdleKept.of_calm (h : s.IdleKept idle) (hc : Calm s s') (hrdy : s'.taskState idle = .rdy) :
    s'.IdleKept idle := by
  refine ⟨hrdy,hc.prio ▸ h.prio,fun t ht hl => ?_⟩
  rw [hc.prio]
  exact h.others t ht ((hc.live t).symm.trans hl)

/-- A call of a task or of an interrupt that does not concern objects. -/
def Answers (s : Sched T O) (idle : T) (out : Option (Ret × Sched T O)) : Prop :=
  ∃ ret s', out = some (ret,s') ∧ s'.Current idle ∧ Calm s s'

theorem Current.same (h : s.Current idle) (ret : Ret) : s.Answers idle (some (ret,s)) :=
  ⟨ret,s,rfl,h,Calm.refl s⟩

theorem Current.exit (h : s.Current idle) (hc : Calm s s') (hp : s'.Placed) (hrdy : s'.taskState idle = .rdy)
    (hlock : 0 < s'.schedLock → s'.taskState s'.active = .rdy) (ret : Ret) :
    s.Answers idle (s'.exitSched ret) := by
  obtain ⟨s'',hs,hcur,heq⟩ := exitSched_current hp (h.idle.of_calm hc hrdy) hlock ret
  refine ⟨ret,s'',hs,hcur,?_⟩
  rw [heq]
  exact hc.switch s'.ready s''.active

theorem krhinoSchedDisable_current (h : s.Current idle) : s.Answers idle s.krhinoSchedDisable := by
  unfold krhinoSchedDisable
  split_ifs with hin hmax
  · exact h.same _
  · exact h.same _
  · refine ⟨_,_,rfl,⟨?_,⟨h.idle.rdy,h.idle.prio,h.idle.others⟩,fun _ => h.rdy (Or.inl (by omega)),?_⟩,
      Calm.of_eq rfl rfl rfl rfl rfl rfl rfl rfl fun _ => ⟨rfl,rfl,rfl⟩⟩
    · exact h.placed.congr rfl rfl rfl rfl rfl rfl rfl rfl rfl
    · intro _ _ hzero
      exact absurd hzero (Nat.succ_ne_zero _)

theorem krhinoSchedEnable_current (h : s.Current idle) : s.Answers idle s.krhinoSchedEnable := by
  unfold krhinoSchedEnable
  split_ifs with hin hzero
  · exact h.same _
  · exact h.same _
  have hp : Placed { s with schedLock := s.schedLock - 1 } := h.placed.congr rfl rfl rfl rfl rfl rfl rfl rfl rfl
  have hrdy : s.taskState s.active = .rdy := h.rdy (Or.inl (by omega))
  have hc : Calm s { s with schedLock := s.schedLock - 1 } := Calm.of_eq rfl rfl rfl rfl rfl rfl rfl rfl fun _ => ⟨rfl,rfl,rfl⟩
  simp only
  split_ifs with hlock
  · refine ⟨_,_,rfl,⟨hp,h.idle.of_calm hc h.idle.rdy,fun _ => hrdy,?_⟩,hc⟩
    intro _ _ hnone
    exact absurd hnone hlock.ne'
  · exact h.exit hc hp h.idle.rdy (fun _ => hrdy) _

theorem krhinoIntrptEnter_current (h : s.Current idle) (hmax : s.intrptNested < intrptMaxNestedLevel) :
    s.Answers idle s.krhinoIntrptEnter := by
  unfold krhinoIntrptEnter
  rw [if_neg (not_le.mpr hmax)]
  refine ⟨_,_,rfl,⟨?_,⟨h.idle.rdy,h.idle.prio,h.idle.others⟩,?_,?_⟩,
    Calm.of_eq rfl rfl rfl rfl rfl rfl rfl rfl fun _ => ⟨rfl,rfl,rfl⟩⟩
  · exact h.placed.congr rfl rfl rfl rfl rfl rfl rfl rfl rfl
  · intro hor
    exact h.rdy (hor.imp_left fun h0 => absurd h0 (Nat.succ_ne_zero _))
  · intro _ hzero _
    exact absurd hzero (Nat.succ_ne_zero _)

theorem krhinoIntrptExit_current (h : s.Current idle) (hin : 0 < s.intrptNested) :
    s.Answers idle s.krhinoIntrptExit := by
  unfold krhinoIntrptExit
  rw [if_neg hin.ne']
  have hc : Calm s { s with intrptNested := s.intrptNested - 1 } := Calm.of_eq rfl rfl rfl rfl rfl rfl rfl rfl fun _ => ⟨rfl,rfl,rfl⟩
  refine h.exit hc ?_ h.idle.rdy (fun hlock => h.rdy (Or.inr hlock)) _
  exact h.placed.congr rfl rfl rfl rfl rfl rfl rfl rfl rfl

section Moves
variable [DecidableEq T]

omit [DecidableEq T] in
theorem krhinoTaskYield_current (h : s.Current idle) : s.Answers idle s.krhinoTaskYield := by
  unfold krhinoTaskYield
  have hc : Calm s (s.readyListHeadToTail s.active) := Calm.of_eq rfl rfl rfl rfl rfl rfl rfl rfl fun _ => ⟨rfl,rfl,rfl⟩
  exact h.exit hc h.placed.rotate h.idle.rdy (fun hlock => h.rdy (Or.inr hlock)) _

/-- Who falls asleep was ready before. -/
theorem calm_taskSleep (h : s.Placed) (hrdy : s.taskState s.active = .rdy) (hpos : 0#64 < time) :
    Calm s (s.taskSleep s.active time) := by
  generalize hact : s.active = t at hrdy
  obtain ⟨htick,-⟩ := (h.task t).not_timed (by simp [hrdy,TaskStat.pending]) (by simp [hrdy,TaskStat.sleeping])
  have hinsert : s.TickKept → (s.taskSleep t time).TickKept := by
    intro hk
    have hins := hk.insert htick hpos
    rw [tickListInsert_eq hpos] at hins
    rw [taskSleep,tickListInsert_eq hpos]
    exact hins.congr rfl rfl rfl
  rw [taskSleep,tickListInsert_eq hpos] at hinsert ⊢
  have hstate : ∀ x, x ≠ t → Function.update s.taskState t .sleep x = s.taskState x :=
    fun x hx => Function.update_of_ne hx _ _
  have hfree : t ∈ s.Untimed := htick
  refine ⟨rfl,rfl,rfl,rfl,fun x => ?_,fun x => ?_,hinsert,rfl,fun x hx => ?_,fun x hsleep => ?_,fun x hx => ?_,rfl⟩
  · by_cases hx : x = t
    · simp [hx,setState,readyListRm,hrdy,TaskStat.pending]
    · simp [hx,setState,readyListRm]
  · by_cases hx : x = t
    · simp [hx,setState,readyListRm,hrdy,TaskStat.live]
    · simp [hx,setState,readyListRm]
  · exact Function.update_of_ne (ne_of_mem_of_not_mem hfree hx).symm _ _
  · have hx : x ≠ t := fun heq => by simp [heq,hrdy,TaskStat.sleeping] at hsleep
    exact (congrArg TaskStat.sleeping (hstate x hx)).trans hsleep
  · exact congrArg TaskStat.sleeping (hstate x (hact ▸ hx))

/-- The task that runs falls asleep, which the idle task never does. -/
theorem krhinoTaskSleep_current (h : s.Current idle) (hidle : s.intrptNested = 0 → s.active ≠ idle) :
    s.Answers idle (s.krhinoTaskSleep time) := by
  unfold krhinoTaskSleep
  split_ifs with hzero hin hlock
  · exact h.same _
  · exact h.same _
  · exact h.same _
  have hpos : 0#64 < time := by
    rw [BitVec.lt_def]
    exact Nat.pos_of_ne_zero fun h0 => hzero (BitVec.eq_of_toNat_eq h0)
  have hnest : s.intrptNested = 0 := Nat.eq_zero_of_not_pos hin
  have hrdy := h.rdy (Or.inl hnest)
  have hstate : (s.taskSleep s.active time).taskState = Function.update s.taskState s.active .sleep := by
    rw [taskSleep,tickListInsert_eq hpos]
    rfl
  refine h.exit (calm_taskSleep h.placed hrdy hpos) (h.placed.taskSleep hrdy hpos) ?_ ?_ _
  · rw [hstate,Function.update_of_ne (hidle hnest).symm]
    exact h.idle.rdy
  · intro hl
    rw [taskSleep,tickListInsert_eq hpos] at hl
    exact absurd hl hlock

/-- The state of a task is another one of the same kind. -/
theorem Placed.setSuspended (h : s.Placed) (hp : st.pending = (s.taskState t).pending)
    (hs : st.sleeping = (s.taskState t).sleeping) (hl : st.live = (s.taskState t).live)
    (hr : s.taskState t ≠ .rdy ∧ st ≠ .rdy) (hc : st.isSuspended = true → 0 < n) :
    (s.setSuspended t n st).Placed := by
  have hplaced := h.task t
  have hself : (s.setSuspended t n st).taskState t = st := Function.update_self ..
  refine h.change (t := t) (fun x hx => ?_) ?_ (h.lists.congr rfl rfl rfl rfl)
  · exact ⟨Function.update_of_ne hx _ _,rfl,rfl,Function.update_of_ne hx _ _,rfl,fun _ => Iff.rfl,fun _ => Iff.rfl,
      Iff.rfl,Iff.rfl⟩
  · refine ⟨fun p => ?_,fun o => ?_,?_,hplaced.tick,?_,?_,?_,?_,?_⟩
    · rw [hself]
      exact iff_of_false (hplaced.not_ready hr.1 p) fun hand => hr.2 hand.1
    · rw [hself,hp]
      exact hplaced.blk o
    · rw [hself,hp]
      exact hplaced.obj
    · rw [hself,hp,hs]
      exact hplaced.timed
    · rw [hself,hs]
      exact hplaced.asleep
    · rw [hself]
      have hself' : (s.setSuspended t n st).suspendCount t = n := Function.update_self ..
      exact hself'.symm ▸ hc
    · rw [hself,hl]
      exact hplaced.known
    · rw [hself,hl]
      exact hplaced.bound

/-- A ready task is suspended. -/
theorem Placed.suspend_rdy (h : s.Placed) (hrdy : s.taskState t = .rdy) (hn : 0 < n) :
    ((s.setSuspended t n .suspended).readyListRm t).Placed := by
  have hplaced := h.task t
  have hstate : ((s.setSuspended t n .suspended).readyListRm t).taskState t = .suspended := Function.update_self ..
  refine h.change (t := t) (fun x hx => ?_) ?_ ?_
  · have hu : Untouched s (s.setSuspended t n .suspended) x :=
      ⟨Function.update_of_ne hx _ _,rfl,rfl,Function.update_of_ne hx _ _,rfl,fun _ => Iff.rfl,fun _ => Iff.rfl,
        Iff.rfl,Iff.rfl⟩
    exact hu.trans (untouched_readyListRm hx)
  · have hblk := hplaced.not_blk (by simp [hrdy,TaskStat.pending])
    obtain ⟨htick,hhead⟩ := hplaced.not_timed (by simp [hrdy,TaskStat.pending]) (by simp [hrdy,TaskStat.sleeping])
    have hlive : (s.taskState t).live = true := by simp [hrdy,TaskStat.live]
    have hready : ∀ p, t ∉ (s.readyListRm t).ready p := notMem_readyListRm h
    have hout : Nowhere ((s.setSuspended t n .suspended).readyListRm t) t := ⟨hready,hblk,htick,hhead⟩
    have hself : ((s.setSuspended t n .suspended).readyListRm t).suspendCount t = n := Function.update_self ..
    refine hout.placed ?_ ?_ ?_ (fun _ => ?_) (fun _ => hplaced.known hlive) fun _ => hplaced.bound hlive
    · simp [hstate]
    · simp [hstate,TaskStat.pending]
    · simp [hstate,TaskStat.sleeping]
    · rwa [hself]
  · have hset : (s.setSuspended t n .suspended).ListsKept := h.lists.congr rfl rfl rfl rfl
    exact hset.readyListRm

/-- A suspended task is ready again. -/
theorem Placed.resume_rdy (h : s.Placed) (hsusp : s.taskState t = .suspended) :
    ((s.setSuspended t n .rdy).readyListAdd t).Placed := by
  have hplaced := h.task t
  have hnot := hplaced.not_ready (by simp [hsusp])
  have hlive : (s.taskState t).live = true := by simp [hsusp,TaskStat.live]
  refine h.change (t := t) (fun x hx => ?_) ?_ ?_
  · have hu : Untouched s (s.setSuspended t n .rdy) x :=
      ⟨Function.update_of_ne hx _ _,rfl,rfl,Function.update_of_ne hx _ _,rfl,fun _ => Iff.rfl,fun _ => Iff.rfl,
        Iff.rfl,Iff.rfl⟩
    exact hu.trans (untouched_readyListAdd hx)
  · obtain ⟨htick,hhead⟩ := hplaced.not_timed (by simp [hsusp,TaskStat.pending]) (by simp [hsusp,TaskStat.sleeping])
    refine placed_rdy (fun p => ?_) (hplaced.not_blk (by simp [hsusp,TaskStat.pending])) htick hhead
      (Function.update_self ..) (hplaced.known hlive) (hplaced.bound hlive)
    have hno : t ∉ (s.setSuspended t n .rdy).ready p := hnot p
    simp only [readyListAdd]
    rw [mem_listsAdd]
    simp [hno,eq_comm]
  · have hset : (s.setSuspended t n .rdy).ListsKept := h.lists.congr rfl rfl rfl rfl
    exact hset.readyListAdd hnot

theorem calm_setSuspended (hp : st.pending = (s.taskState t).pending) (hs : st.sleeping = (s.taskState t).sleeping)
    (hl : st.live = (s.taskState t).live) : Calm s (s.setSuspended t n st) := by
  have hstate : ∀ x, (s.setSuspended t n st).taskState x = if x = t then st else s.taskState x :=
    fun x => Function.update_apply ..
  refine Calm.of_eq rfl rfl rfl rfl rfl rfl rfl rfl fun x => ?_
  rw [hstate]
  split_ifs with hx
  · rw [hx]
    exact ⟨hp,hl,hs⟩
  · exact ⟨rfl,rfl,rfl⟩

/-- A task gets another state, which is not that it runs, and the next one is chosen. -/
theorem Current.exit_setSuspended (h : s.Current idle) (hp : st.pending = (s.taskState t).pending)
    (hs : st.sleeping = (s.taskState t).sleeping) (hl : st.live = (s.taskState t).live)
    (hr : s.taskState t ≠ .rdy ∧ st ≠ .rdy) (hc : st.isSuspended = true → 0 < n) (ret : Ret) :
    s.Answers idle ((s.setSuspended t n st).exitSched ret) := by
  have hstate : ∀ x, s.taskState x = .rdy → (s.setSuspended t n st).taskState x = .rdy := by
    intro x hx
    refine (Function.update_of_ne ?_ _ _).trans hx
    rintro rfl
    exact hr.1 hx
  exact h.exit (calm_setSuspended hp hs hl) (h.placed.setSuspended hp hs hl hr hc) (hstate _ h.idle.rdy)
    (fun hlock => hstate _ (h.rdy (Or.inr hlock))) ret

theorem krhinoTaskSuspend_current (h : s.Current idle) : s.Answers idle (s.krhinoTaskSuspend t) := by
  unfold krhinoTaskSuspend
  by_cases hpri : s.prio t = idlePri
  · rw [if_pos hpri]
    exact h.same _
  rw [if_neg hpri]
  by_cases hself : t = s.active ∧ 0 < s.schedLock
  · rw [if_pos hself]
    exact h.same _
  rw [if_neg hself]
  have hidle : t ≠ idle := fun heq => hpri (heq ▸ h.idle.prio)
  cases hst : s.taskState t with
  | seed | deleted => exact h.same _
  | sleep | pend =>
    exact h.exit_setSuspended (by rw [hst]; rfl) (by rw [hst]; rfl) (by rw [hst]; rfl) (by simp [hst])
      (fun _ => Nat.one_pos) _
  | suspended | sleepSuspended | pendSuspended =>
    simp only
    split_ifs with hmax
    · exact h.same _
    · exact h.exit_setSuspended (by rw [hst]) (by rw [hst]) (by rw [hst]) (by simp [hst]) (fun _ => Nat.succ_pos _) _
  | rdy =>
    have hc : Calm s ((s.setSuspended t 1 .suspended).readyListRm t) := by
      have hset : Calm s (s.setSuspended t 1 .suspended) :=
        calm_setSuspended (by rw [hst]; rfl) (by rw [hst]; rfl) (by rw [hst]; rfl)
      exact hset.switch _ _
    refine h.exit hc (h.placed.suspend_rdy hst Nat.one_pos) ?_ ?_ _
    · exact (Function.update_of_ne hidle.symm _ _).trans h.idle.rdy
    · intro hlock
      have hactive : s.active ≠ t := fun heq => hself ⟨heq.symm,hlock⟩
      exact (Function.update_of_ne hactive _ _).trans (h.rdy (Or.inr hlock))

theorem krhinoTaskResume_current (h : s.Current idle) : s.Answers idle (s.krhinoTaskResume t) := by
  unfold krhinoTaskResume
  cases hst : s.taskState t with
  | seed | deleted | rdy | sleep | pend => exact h.same _
  | sleepSuspended | pendSuspended =>
    simp only
    split_ifs with hzero
    · exact h.exit_setSuspended (by rw [hst]; rfl) (by rw [hst]; rfl) (by rw [hst]; rfl) (by simp [hst])
        (fun hsusp => by cases hsusp) _
    · exact h.exit_setSuspended (by rw [hst]) (by rw [hst]) (by rw [hst]) (by simp [hst])
        (fun _ => Nat.pos_of_ne_zero hzero) _
  | suspended =>
    simp only
    split_ifs with hzero
    · have hc : Calm s ((s.setSuspended t (s.suspendCount t - 1) .rdy).readyListAdd t) := by
        have hset : Calm s (s.setSuspended t (s.suspendCount t - 1) .rdy) :=
          calm_setSuspended (by rw [hst]; rfl) (by rw [hst]; rfl) (by rw [hst]; rfl)
        exact hset.switch _ _
      have hstate : ∀ x, s.taskState x = .rdy →
          ((s.setSuspended t (s.suspendCount t - 1) .rdy).readyListAdd t).taskState x = .rdy := by
        intro x hx
        by_cases hxt : x = t
        · exact hxt ▸ Function.update_self ..
        · exact (Function.update_of_ne hxt _ _).trans hx
      exact h.exit hc (h.placed.resume_rdy hst) (hstate _ h.idle.rdy) (fun hlock => hstate _ (h.rdy (Or.inr hlock))) _
    · exact h.exit_setSuspended (by rw [hst]) (by rw [hst]) (by rw [hst]) (by simp [hst])
        (fun _ => Nat.pos_of_ne_zero hzero) _

end Moves

end Sched

end FmacSdk.Rhino
