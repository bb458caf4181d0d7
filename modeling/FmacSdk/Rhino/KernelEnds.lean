import FmacSdk.Rhino.KernelRuns

/-! # How waits end

Whoever waits for an object is woken by a call about it, be it the one that deletes it, or by
the tick that ends his time. What he is told is still there when he runs again, and a mutex
that he has come to hold is still his.
-/
namespace FmacSdk.Rhino
open Sched Transition
variable {T O : Type*} [DecidableEq T] [DecidableEq O]

/-- pend_state_end_proc; `none` where k_err_proc is called. -/
def pendStateEndProc : BlkState → Option Kstat
  | .finish => some .success
  | .abort => some .blkAbort
  | .timeout => some .blkTimeout
  | .del => some .blkDel
  | .invalid => none

namespace Kernel

/-- What a task is told whose wait the call ends. -/
def Call.told (c : Call T O) : BlkState := if Call.isTick c then .timeout else Call.outcome c

/-- The status that the task returns with then. -/
def Call.status (c : Call T O) : Kstat :=
  if Call.isTick c then .blkTimeout else if Call.outcome c = .del then .blkDel else .success

/-- The call is about the object, or it is the tick that the task has waited for. -/
def Rouses (s : Kernel T O) (t : T) (o : O) (c : Call T O) : Prop :=
  if Call.isTick c then t ∈ s.tickList ∧ (s.ticksLeft t = 1 ∨ 2 ^ 63 < s.ticksLeft t) else o ∈ s.concerns c

/-- What is noted is what the call leaves behind for those whose waits it ends. -/
def Informs (s : Kernel T O) (c : Call T O) (y : BlkState × Msg × ℕ × BitVec 32) : Prop :=
  y.1 = Call.told c ∧ (Call.isTick c = false → (s.wakes c).note y)

/-- The task exists and waits for nothing. -/
structure Awake (s : Kernel T O) (t : T) : Prop where
  live : t ∈ s.Live
  pending : (s.taskState t).pending = false
  sleeping : (s.taskState t).sleeping = false

variable {s s' : Kernel T O} {c : Call T O} {idle t : T} {o : O} {cs ms : List (Call T O)}

omit [DecidableEq T] [DecidableEq O] in
theorem pendStateEndProc_told (c : Call T O) : pendStateEndProc (Call.told c) = some (Call.status c) := by
  cases c <;> rfl

omit [DecidableEq T] [DecidableEq O] in
theorem wakes_blk (s : Kernel T O) (c : Call T O) : (s.wakes c).blk = Call.outcome c := by
  cases c <;> rfl

omit [DecidableEq T] [DecidableEq O] in
theorem wakes_finish (h : Call.outcome c ≠ .del) : (s.wakes c).blk = .finish := by
  rw [wakes_blk]
  cases c <;> first | rfl | exact absurd rfl h

theorem Along.single {Q : Kernel T O → Call T O → Prop} (h : Q s c) : Along idle s [c] Q := by
  rintro ps d u ⟨rest,hrest⟩ hu
  cases ps with
  | nil =>
    obtain ⟨rfl,-⟩ : d = c ∧ rest = [] := by simpa using hrest
    obtain rfl : s = u := by simpa using hu.exec_eq
    exact h
  | cons => simp at hrest

/-- A task that waits for nothing keeps what it was told as long as it does not call. -/
theorem step_keeps (h : s.Sound idle) (hs : obeying idle s c = some s') (hd : t ∉ s.deleted c) (haway : s.active ≠ t)
    (ha : s.Awake t) : s'.Awake t ∧ s'.notes t = s.notes t := by
  rcases (obeying_sound h hs).2 with ⟨rfl,hpass⟩ | ⟨-,hr⟩
  · rcases hpass.fate t with ⟨hstate,hblk,-⟩ | ⟨htick,-⟩
    · obtain ⟨hmsg,hsize,hflags⟩ := hpass.told
      refine ⟨⟨?_,by rw [hstate,ha.pending],by rw [hstate,ha.sleeping]⟩,by unfold notes; rw [hblk,hmsg,hsize,hflags]⟩
      unfold Live
      rw [Set.mem_ofPred_eq,hstate]
      exact ha.live
    · exact absurd htick ((h.placed.task t).not_timed ha.pending ha.sleeping).1
  · rcases hr.fate t hd ha.live haway.symm with ⟨hp,hsleep,-,hnotes⟩ | ⟨hp,-⟩
    · exact ⟨⟨hr.alive t hd ha.live,hp.trans ha.pending,hsleep.trans ha.sleeping⟩,hnotes⟩
    · rw [ha.pending] at hp
      cases hp

/-- A task that waits for an object goes on to do so, or the call ends its wait and tells it how. -/
theorem step_ends (h : s.Sound idle) (hs : obeying idle s c = some s') (hd : t ∉ s.deleted c) (hw : s.waitsFor t = some o)
    (haway : s.active ≠ t) :
    s'.waitsFor t = some o ∨ s'.Awake t ∧ s.Informs c (s'.notes t) ∧ s.Rouses t o c := by
  have hp : (s.taskState t).pending = true := by
    by_contra hp
    rw [waitsFor_of_not_pending (Bool.eq_false_iff.mpr hp)] at hw
    cases hw
  have hl : t ∈ s.Live := by
    cases hst : s.taskState t <;> simp [Live,hst,TaskStat.pending,TaskStat.live] at hp ⊢
  rcases (obeying_sound h hs).2 with ⟨rfl,hpass⟩ | ⟨hno,hr⟩
  · rcases hpass.fate t with ⟨-,-,hsame⟩ | ⟨hmem,hdue,hstate,hblk⟩
    · exact Or.inl (hsame.trans hw)
    · refine Or.inr ⟨⟨?_,by rw [hstate,TaskStat.ended_pending],by rw [hstate,TaskStat.ended_sleeping]⟩,
        ⟨hblk.trans (if_pos hp),fun hno => by cases hno⟩,⟨hmem,hdue⟩⟩
      unfold Live
      rw [Set.mem_ofPred_eq,hstate,TaskStat.ended_live]
      exact hl
  · rcases hr.fate t hd hl haway.symm with ⟨-,-,hsame,-⟩ | ⟨-,hp',hsleep',hblk,hnote⟩
    · exact Or.inl (hsame.trans hw)
    · refine Or.inr ⟨⟨hr.alive t hd hl,hp',hsleep'⟩,⟨?_,fun _ => hnote⟩,?_⟩
      · rw [Call.told,hno]
        exact hblk.trans (wakes_blk s c)
      · rw [Rouses,hno]
        by_contra ho
        have hstill := hr.waits t hd o ho hw
        rw [waitsFor_of_not_pending hp'] at hstill
        cases hstill

/-- The run has ended the wait of the task, which still finds what it was told. -/
def Ended (idle : T) (s : Kernel T O) (t : T) (o : O) (ms : List (Call T O)) (s' : Kernel T O) : Prop :=
  ∃ l1 d l2 u v, ms = l1 ++ d :: l2 ∧ Runs (obeying idle) s l1 u ∧ obeying idle u d = some v ∧
    Runs (obeying idle) v l2 s' ∧ u.waitsFor t = some o ∧ u.Rouses t o d ∧
    u.Informs d (v.notes t) ∧ s'.notes t = v.notes t

theorem run_ends (h : s.Sound idle) (hw : s.waitsFor t = some o) (hrun : Runs (obeying idle) s ms s')
    (hdel : Spared idle s t ms) (haway : Along idle s ms fun u _ => u.active ≠ t) :
    s'.Sound idle ∧ (s'.waitsFor t = some o ∨ s'.Awake t ∧ Ended idle s t o ms s') := by
  induction hrun with
  | refl => exact ⟨h,Or.inl hw⟩
  | @tail u v ls c hls hs ih =>
    obtain ⟨hu,hcase⟩ := ih (Along.init hdel) haway.init
    have hout := Along.last hdel hls
    have hnot := haway.last hls
    refine ⟨(obeying_sound hu hs).1,?_⟩
    rcases hcase with hwait | ⟨ha,l1,d,l2,x,y,rfl,hx,hd,hy,hxw,hby,htold,hsame⟩
    · rcases step_ends hu hs hout hwait hnot with hstill | ⟨ha,htold,hby⟩
      · exact Or.inl hstill
      · exact Or.inr ⟨ha,ls,c,[],u,v,rfl,hls,hs,Runs.refl v,hwait,hby,htold,rfl⟩
    · obtain ⟨ha',hkeep⟩ := step_keeps hu hs hout hnot ha
      refine Or.inr ⟨ha',l1,d,l2 ++ [c],x,y,?_,hx,hd,hy.tail hs,hxw,hby,htold,hkeep.trans hsame⟩
      rw [List.append_assoc,List.cons_append]

/-- Whoever waited for an object and has not run since was woken by one call of the run, and the
status that he returns with says which: a timeout for the tick, RHINO_BLK_DEL for the call that
deleted the object, RHINO_SUCCESS for any other one. He finds what that one left for him, be it
the message that was sent or the flags that were set. -/
theorem kernel_wait_ends (h : Runs (obeying idle) (krhinoInit idle) cs s) (hw : s.waitsFor t = some o)
    (hrun : Runs (obeying idle) s ms s') (hdel : Spared idle s t ms)
    (haway : Along idle s ms fun u _ => u.active ≠ t) (hend : s'.waitsFor t ≠ some o) :
    ∃ l1 d l2 u v, ms = l1 ++ d :: l2 ∧ Runs (obeying idle) s l1 u ∧ obeying idle u d = some v ∧
      Runs (obeying idle) v l2 s' ∧ u.waitsFor t = some o ∧ u.Rouses t o d ∧
      pendStateEndProc (s'.blkState t) = some (Call.status d) ∧ (Call.isTick d = false → (u.wakes d).note (s'.notes t)) := by
  obtain ⟨-,hstill | ⟨-,l1,d,l2,u,v,hms,hu,hd,hv,huw,hby,htold,hsame⟩⟩ := run_ends (reached_sound h) hw hrun hdel haway
  · exact absurd hstill hend
  · rw [← hsame] at htold
    have hblk : s'.blkState t = Call.told d := htold.1
    exact ⟨l1,d,l2,u,v,hms,hu,hd,hv,huw,hby,hblk ▸ pendStateEndProc_told d,htold.2⟩

/-- Task 1 gives the mutex back that task 2 waits for. -/
theorem contended_unlock :
    ∃ s s', Runs (obeying 0) (krhinoInit 0 : Kernel ℕ ℕ) contended s ∧ s.waitsFor 2 = some 0 ∧ s.active = 1 ∧
      (∃ n, s.obj 0 = .mutex (some 1) n) ∧ obeying 0 s (.mutexUnlock 0) = some s' ∧ s'.waitsFor 2 = none ∧
      s'.blkState 2 = .finish := by
  obtain ⟨s,h,hw,hact,hlist,hlive,hnext⟩ : ∃ s, Runs (obeying 0) (krhinoInit 0 : Kernel ℕ ℕ) contended s ∧
      (s.waitsFor 2 = some 0 ∧ s.active = 1 ∧ s.mutexList 1 = [0] ∧ (s.taskState 1).live = true ∧
        (obeying 0 s (.mutexUnlock 0)).map (fun u => decide (u.waitsFor 2 = none ∧ u.blkState 2 = .finish)) = some true) :=
    Runs.exists_of_exec (fun s => ((s.waitsFor 2,s.active),(s.mutexList 1,(s.taskState 1).live),
        (obeying 0 s (.mutexUnlock 0)).map fun u => decide (u.waitsFor 2 = none ∧ u.blkState 2 = .finish)))
      (v := ((some 0,1),([0],true),some true)) (by decide +kernel) fun s _ hseen => by simpa [and_assoc] using hseen
  obtain ⟨s',hs',hseen⟩ := Option.map_eq_some_iff.mp hnext
  have hheld := ((reached_sound h).owned.holds 1 hlive 0).mp (by simp [hlist])
  exact ⟨s,s',h,hw,hact,hheld,hs',of_decide_eq_true hseen⟩

theorem kernel_wait_ends_contended :
    ∃ s s', Runs (obeying 0) (krhinoInit 0 : Kernel ℕ ℕ) contended s ∧ s.waitsFor 2 = some 0 ∧
      Runs (obeying 0) s [.mutexUnlock 0] s' ∧ pendStateEndProc (s'.blkState 2) = some .success := by
  obtain ⟨s,s',h,hw,hact,-,hs',hnone,-⟩ := contended_unlock
  have hdel : Spared 0 s 2 [.mutexUnlock 0] := Along.single (Set.notMem_empty _)
  have haway : Along 0 s [.mutexUnlock 0] fun u _ => u.active ≠ 2 := Along.single (by simp [hact])
  obtain ⟨l1,d,l2,u,v,hms,-,-,-,-,-,hstat,-⟩ := kernel_wait_ends h hw (Runs.single hs') hdel haway (by simp [hnone])
  have hmem : d ∈ [(.mutexUnlock 0 : Call ℕ ℕ)] := by simp [hms]
  obtain rfl := List.mem_singleton.mp hmem
  exact ⟨s,s',h,hw,Runs.single hs',hstat⟩

/-! ## Mutexes -/

/-- Whoever waits for a mutex or holds it goes on to do so, gets it, or his time is over. -/
theorem step_claims (h : s.Sound idle) (hs : obeying idle s c = some s') (hd : t ∉ s.deleted c) (haway : s.active ≠ t)
    (hstay : Call.outcome c = .del → o ∉ s.concerns c) (hm : s.Claims t o) :
    s'.Claims t o ∨ s'.Awake t ∧ s'.blkState t = .timeout := by
  rcases (obeying_sound h hs).2 with ⟨rfl,hpass⟩ | ⟨-,hr⟩
  · have hobj : s'.obj o = s.obj o := congrFun hpass.obj o
    rcases hm with ⟨hw,v,n,hv⟩ | ⟨n,hv⟩
    · rcases step_ends h hs hd hw haway with hstill | ⟨ha,htold,-⟩
      · exact Or.inl (Or.inl ⟨hstill,v,n,hobj.trans hv⟩)
      · exact Or.inr ⟨ha,htold.1⟩
    · exact Or.inl (Or.inr ⟨n,hobj.trans hv⟩)
  · refine Or.inl ?_
    by_cases hdel : Call.outcome c = .del
    · have hout := hstay hdel
      have hobj : s'.obj o = s.obj o := hr.obj o hout
      rcases hm with ⟨hw,v,n,hv⟩ | ⟨n,hv⟩
      · exact Or.inl ⟨hr.waits t hd o hout hw,v,n,hobj.trans hv⟩
      · exact Or.inr ⟨n,hobj.trans hv⟩
    · exact hr.claims (wakes_finish hdel) t hd haway.symm o hm

theorem run_claims (h : s.Sound idle) (hm : s.Claims t o) (hrun : Runs (obeying idle) s ms s') (hdel : Spared idle s t ms)
    (haway : Along idle s ms fun u _ => u.active ≠ t)
    (hstay : Along idle s ms fun u c => Call.outcome c = .del → o ∉ u.concerns c) :
    s'.Sound idle ∧ (s'.Claims t o ∨ s'.Awake t ∧ s'.blkState t = .timeout) := by
  induction hrun with
  | refl => exact ⟨h,Or.inl hm⟩
  | @tail u v ls c hls hs ih =>
    obtain ⟨hu,hcase⟩ := ih (Along.init hdel) haway.init hstay.init
    have hout := Along.last hdel hls
    have hnot := haway.last hls
    refine ⟨(obeying_sound hu hs).1,?_⟩
    rcases hcase with hclaims | ⟨ha,hblk⟩
    · exact step_claims hu hs hout hnot (hstay.last hls) hclaims
    · obtain ⟨ha',hkeep⟩ := step_keeps hu hs hout hnot ha
      exact Or.inr ⟨ha',(congrArg Prod.fst hkeep).trans hblk⟩

/-- Whoever waited for a mutex, has not run since and comes back with RHINO_SUCCESS holds it, if
nobody has deleted it. -/
theorem kernel_lock_granted (h : Runs (obeying idle) (krhinoInit idle) cs s) (hw : s.waitsFor t = some o) {v : Option T}
    {n : ℕ} (hv : s.obj o = .mutex v n) (hrun : Runs (obeying idle) s ms s') (hdel : Spared idle s t ms)
    (haway : Along idle s ms fun u _ => u.active ≠ t)
    (hstay : Along idle s ms fun u c => Call.outcome c = .del → o ∉ u.concerns c) (hend : s'.waitsFor t ≠ some o)
    (hstat : pendStateEndProc (s'.blkState t) = some .success) : ∃ n', s'.obj o = .mutex (some t) n' := by
  obtain ⟨-,hcase⟩ := run_claims (reached_sound h) (Or.inl ⟨hw,v,n,hv⟩) hrun hdel haway hstay
  rcases hcase with (⟨hstill,-⟩ | hheld) | ⟨-,hblk⟩
  · exact absurd hstill hend
  · exact hheld
  · rw [hblk] at hstat
    cases hstat

theorem kernel_lock_granted_contended :
    ∃ s s', Runs (obeying 0) (krhinoInit 0 : Kernel ℕ ℕ) contended s ∧ s.waitsFor 2 = some 0 ∧
      Runs (obeying 0) s [.mutexUnlock 0] s' ∧ ∃ n, s'.obj 0 = .mutex (some 2) n := by
  obtain ⟨s,s',h,hw,hact,⟨n,hn⟩,hs',hnone,hblk⟩ := contended_unlock
  have hdel : Spared 0 s 2 [.mutexUnlock 0] := Along.single (Set.notMem_empty _)
  have haway : Along 0 s [.mutexUnlock 0] fun u _ => u.active ≠ 2 := Along.single (by simp [hact])
  have hstay : Along 0 s [.mutexUnlock 0] fun u c => Call.outcome c = .del → 0 ∉ u.concerns c :=
    Along.single (by simp [Call.outcome])
  exact ⟨s,s',h,hw,Runs.single hs',
    kernel_lock_granted h hw hn (Runs.single hs') hdel haway hstay (by simp [hnone]) (by rw [hblk]; rfl)⟩

end Kernel

end FmacSdk.Rhino
