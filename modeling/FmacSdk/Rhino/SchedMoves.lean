import FmacSdk.Rhino.Kstat
import FmacSdk.Rhino.Sched

/-! # The calls that move tasks

Tasks are woken, put to wait, put to sleep, suspended, resumed, given another
priority, created and deleted. Each of these moves one task between the lists and
leaves the others where they are.
-/
namespace FmacSdk.Rhino
open WaitList
variable {T O : Type*} [DecidableEq T] [DecidableEq O]

namespace Sched

variable {s s' : Sched T O} {t x : T} {p : ℕ} {o : O} {time : BitVec 64} {blk : BlkState} {st : TaskStat}

/-! ## Single list operations -/

omit [DecidableEq O] in
theorem untouched_setState (hx : x ≠ t) : Untouched s (s.setState t st) x :=
  ⟨Function.update_of_ne hx _ _,rfl,rfl,rfl,rfl,fun _ => Iff.rfl,fun _ => Iff.rfl,Iff.rfl,Iff.rfl⟩

omit [DecidableEq T] [DecidableEq O] in
theorem untouched_readyListAdd (hx : x ≠ t) : Untouched s (s.readyListAdd t) x :=
  ⟨rfl,rfl,rfl,rfl,rfl,fun _ => mem_listsAdd.trans (or_iff_left fun h => hx h.2),fun _ => Iff.rfl,Iff.rfl,Iff.rfl⟩

omit [DecidableEq O] in
theorem untouched_readyListRm (hx : x ≠ t) : Untouched s (s.readyListRm t) x := by
  refine ⟨rfl,rfl,rfl,rfl,rfl,fun p => ?_,fun _ => Iff.rfl,Iff.rfl,Iff.rfl⟩
  simp only [readyListRm,listsRm]
  by_cases hp : p = s.prio t
  · rw [hp,Function.update_self,List.mem_erase_of_ne hx]
  · rw [Function.update_of_ne hp]

theorem untouched_blkListRm (hx : x ≠ t) : Untouched s (s.blkListRm t) x := by
  refine ⟨rfl,rfl,rfl,rfl,rfl,fun _ => Iff.rfl,fun o => ?_,Iff.rfl,Iff.rfl⟩
  simp only [blkListRm]
  cases s.blkObj t with
  | none => rfl
  | some obj =>
    by_cases ho : o = obj
    · simp only [ho,Function.update_self,List.mem_erase_of_ne hx]
    · simp only [Function.update_of_ne ho]

omit [DecidableEq T] in
theorem untouched_pendListAdd (hx : x ≠ t) : Untouched s (s.pendListAdd o t) x := by
  refine ⟨rfl,rfl,rfl,rfl,rfl,fun _ => Iff.rfl,fun o' => ?_,Iff.rfl,Iff.rfl⟩
  simp only [pendListAdd]
  by_cases ho : o' = o
  · simp only [ho,Function.update_self,mem_insertBefore,hx,false_or]
  · simp only [Function.update_of_ne ho]

omit [DecidableEq O] in
theorem untouched_tickListInsert (hx : x ≠ t) : Untouched s (s.tickListInsert t time) x := by
  unfold tickListInsert
  split_ifs
  · exact ⟨rfl,rfl,rfl,rfl,Function.update_of_ne hx _ _,fun _ => Iff.rfl,fun _ => Iff.rfl,
      mem_insertBefore.trans (or_iff_right hx),Iff.rfl⟩
  · exact Untouched.refl s x

omit [DecidableEq O] in
theorem untouched_tickListRm (hx : x ≠ t) : Untouched s (s.tickListRm t) x := by
  refine ⟨rfl,rfl,rfl,rfl,Function.update_of_ne hx _ _,fun _ => Iff.rfl,fun _ => Iff.rfl,?_,Iff.rfl⟩
  simp only [tickListRm]
  split_ifs
  · exact List.mem_erase_of_ne hx
  · exact Iff.rfl

omit [DecidableEq T] [DecidableEq O] in
/-- The lists alone count. -/
theorem ListsKept.congr (h : s.ListsKept) (hr : s'.ready = s.ready) (hb : s'.blkList = s.blkList)
    (hp : s'.prio = s.prio) (ht : s'.tickList = s.tickList) : s'.ListsKept := by
  refine ⟨?_,?_,?_,?_⟩
  · exact hr ▸ h.ready
  · exact hb ▸ h.blk
  · exact hb ▸ hp ▸ h.ordered
  · exact ht ▸ h.tick

omit [DecidableEq T] [DecidableEq O] in
theorem ListsKept.readyListAdd (h : s.ListsKept) (ht : ∀ p, t ∉ s.ready p) : (s.readyListAdd t).ListsKept :=
  ⟨fun p => nodup_listsAdd (h.ready p) (ht _),h.blk,h.ordered,h.tick⟩

omit [DecidableEq O] in
theorem ListsKept.readyListRm (h : s.ListsKept) : (s.readyListRm t).ListsKept :=
  ⟨fun p => nodup_listsRm (h.ready p),h.blk,h.ordered,h.tick⟩

theorem blkListRm_sublist : ((s.blkListRm t).blkList o).Sublist (s.blkList o) := by
  simp only [Sched.blkListRm]
  cases s.blkObj t with
  | none => exact List.Sublist.refl _
  | some obj =>
    by_cases ho : o = obj
    · simpa only [ho,Function.update_self] using List.erase_sublist
    · simp only [Function.update_of_ne ho,List.Sublist.refl]

theorem ListsKept.blkListRm (h : s.ListsKept) : (s.blkListRm t).ListsKept :=
  ⟨h.ready,fun o => blkListRm_sublist.nodup (h.blk o),fun o => (h.ordered o).sublist blkListRm_sublist,h.tick⟩

omit [DecidableEq T] in
theorem ListsKept.pendListAdd (h : s.ListsKept) (ht : t ∉ s.blkList o) : (s.pendListAdd o t).ListsKept := by
  refine ⟨h.ready,fun o' => ?_,fun o' => ?_,h.tick⟩
  · by_cases ho : o' = o
    · simpa only [Sched.pendListAdd,ho,Function.update_self] using insertBefore_nodup (h.blk o) ht
    · simpa only [Sched.pendListAdd,Function.update_of_ne ho] using h.blk o'
  · by_cases ho : o' = o
    · simpa only [Sched.pendListAdd,ho,Function.update_self] using (h.ordered o).insert t
    · simpa only [Sched.pendListAdd,Function.update_of_ne ho] using h.ordered o'

omit [DecidableEq O] in
theorem ListsKept.tickListInsert (h : s.ListsKept) (ht : t ∉ s.tickList) : (s.tickListInsert t time).ListsKept := by
  unfold Sched.tickListInsert
  split_ifs
  · exact ⟨h.ready,h.blk,h.ordered,insertBefore_nodup h.tick ht⟩
  · exact h

omit [DecidableEq O] in
theorem ListsKept.tickListRm (h : s.ListsKept) : (s.tickListRm t).ListsKept := by
  refine ⟨h.ready,h.blk,h.ordered,?_⟩
  simp only [Sched.tickListRm]
  split_ifs
  · exact h.tick.erase t
  · exact h.tick

omit [DecidableEq T] [DecidableEq O] in
/-- The first task of a priority goes behind the others. -/
theorem Placed.rotate (h : s.Placed) : (s.readyListHeadToTail t).Placed := by
  refine ⟨fun x => ?_,?_⟩
  · exact (h.task x).of_untouched
      ⟨rfl,rfl,rfl,rfl,rfl,fun _ => mem_listsRotate,fun _ => Iff.rfl,Iff.rfl,Iff.rfl⟩
  · exact ⟨fun p => nodup_listsRotate (h.lists.ready p),h.lists.blk,h.lists.ordered,h.lists.tick⟩

/-! ## The tick list -/

/-- How many ticks are left for a task in the tick list. -/
def ticksLeft (s : Sched T O) (t : T) : ℕ := (s.tickMatch t - s.tickCount).toNat

/-- The tick list is ordered by what is left, and that is never nothing. -/
structure TickKept (s : Sched T O) : Prop where
  ordered : Ordered s.ticksLeft s.tickList
  left : ∀ t ∈ s.tickList, 0 < s.ticksLeft t

/-- The tasks that wait for no tick. -/
def Untimed (s : Sched T O) : Set T := {t | t ∉ s.tickList}

/-- The object that a task waits for. -/
def waitsFor (s : Sched T O) (t : T) : Option O := if (s.taskState t).pending then s.blkObj t else none

section Ticks
omit [DecidableEq T] [DecidableEq O]

theorem waitsFor_of_not_pending (h : (s.taskState t).pending = false) : s.waitsFor t = none :=
  if_neg (by simp [h])

theorem mem_blkList_iff (h : s.Placed) : t ∈ s.blkList o ↔ s.waitsFor t = some o := by
  rw [(h.task t).blk,waitsFor]
  by_cases hp : (s.taskState t).pending = true
  · rw [if_pos hp]
    exact and_iff_right hp
  · rw [if_neg hp]
    exact iff_of_false (fun hand => hp hand.1) (Option.some_ne_none o).symm

theorem TickKept.sublist (h : s.TickKept) (hsub : s'.tickList.Sublist s.tickList)
    (hmatch : ∀ t ∈ s'.tickList, s'.tickMatch t = s.tickMatch t) (hcount : s'.tickCount = s.tickCount) :
    s'.TickKept := by
  have hleft : ∀ t ∈ s'.tickList, s'.ticksLeft t = s.ticksLeft t := by
    intro t ht
    unfold ticksLeft
    rw [hmatch t ht,hcount]
  refine ⟨ordered_congr (h.ordered.sublist hsub) hleft,fun t ht => ?_⟩
  rw [hleft t ht]
  exact h.left t (hsub.subset ht)

theorem TickKept.congr (h : s.TickKept) (hlist : s'.tickList = s.tickList) (hmatch : s'.tickMatch = s.tickMatch)
    (hcount : s'.tickCount = s.tickCount) : s'.TickKept :=
  h.sublist (hlist ▸ List.Sublist.refl _) (fun t _ => congrFun hmatch t) hcount

end Ticks

omit [DecidableEq O] in
theorem tickListRm_sublist : (s.tickListRm t).tickList.Sublist s.tickList := by
  simp only [tickListRm]
  split_ifs
  · exact List.erase_sublist
  · exact List.Sublist.refl _

omit [DecidableEq O] in
/-- A new time keeps the order. -/
theorem TickKept.insert (h : s.TickKept) (ht : t ∉ s.tickList) (hpos : 0#64 < time) :
    (s.tickListInsert t time).TickKept := by
  have hleft : ∀ x, (s.tickListInsert t time).ticksLeft x = if x = t then time.toNat else s.ticksLeft x := by
    intro x
    unfold ticksLeft tickListInsert
    rw [if_pos hpos]
    by_cases hx : x = t
    · simp only [hx,Function.update_self,if_true]
      rw [BitVec.add_comm,BitVec.add_sub_cancel]
    · simp only [Function.update_of_ne hx,hx,if_false]
  have hself : (s.tickListInsert t time).ticksLeft t = time.toNat := by rw [hleft,if_pos rfl]
  have hold : ∀ x ∈ s.tickList, (s.tickListInsert t time).ticksLeft x = s.ticksLeft x := by
    intro x hx
    rw [hleft,if_neg (ne_of_mem_of_not_mem hx ht)]
  have hlist : (s.tickListInsert t time).tickList =
      insertBefore (fun q => (s.tickListInsert t time).ticksLeft t < (s.tickListInsert t time).ticksLeft q) t s.tickList := by
    rw [hself,insertBefore_congr (g := fun q => decide (time < s.tickMatch q - s.tickCount))]
    · unfold tickListInsert
      rw [if_pos hpos]
    · intro x hx
      rw [hold x hx]
      rfl
  refine ⟨?_,fun x hx => ?_⟩
  · rw [hlist]
    exact (ordered_congr h.ordered hold).insert t
  · rw [hlist,mem_insertBefore] at hx
    rcases hx with rfl | hx
    · rw [hself]
      exact hpos
    · rw [hold x hx]
      exact h.left x hx

/-! ## The end of a wait or a sleep -/

/-- The switch of tick_list_update for a task whose time is up, without the
priority of the mutex it waited for. -/
def tickTaskEnd (s : Sched T O) (task : T) : Option (Sched T O) :=
  match s.taskState task with
  | .sleep =>
    let s := { s with blkState := Function.update s.blkState task .finish }
    some (((s.setState task .rdy).tickListRm task).readyListAdd task)
  | .pend =>
    let s := ((s.tickListRm task).blkListRm task).readyListAdd task
    let s := { s with blkState := Function.update s.blkState task .timeout }
    some (s.setState task .rdy)
  | .pendSuspended =>
    let s := (s.tickListRm task).blkListRm task
    let s := { s with blkState := Function.update s.blkState task .timeout }
    some (s.setState task .suspended)
  | .sleepSuspended =>
    let s := s.setState task .suspended
    let s := { s with blkState := Function.update s.blkState task .finish }
    some (s.tickListRm task)
  | _ => none

/-- What ends a wait or a sleep does: the task leaves the lists it waited in and
is ready unless it is suspended. -/
def ended (s : Sched T O) (t : T) (blk : BlkState) : Sched T O :=
  { s with
    taskState := Function.update s.taskState t (s.taskState t).ended
    blkState := Function.update s.blkState t blk
    blkObj := Function.update s.blkObj t none
    tickHead := Function.update s.tickHead t false
    ready := if (s.taskState t).ended = .rdy then (s.readyListAdd t).ready else s.ready
    blkList := (s.blkListRm t).blkList
    tickList := (s.tickListRm t).tickList }

theorem pendTaskEnd_eq (hp : (s.taskState t).pending = true) : s.pendTaskEnd t blk = some (s.ended t blk) := by
  unfold pendTaskEnd ended
  cases hst : s.taskState t <;> simp only [hst,TaskStat.pending,Bool.false_eq_true] at hp
  · rfl
  · rfl

theorem blkListRm_notMem (h : ∀ obj, t ∉ s.blkList obj) : (s.blkListRm t).blkList = s.blkList := by
  unfold blkListRm
  cases s.blkObj t with
  | none => rfl
  | some obj => simp only [List.erase_of_not_mem (h obj),Function.update_eq_self]

theorem tickTaskEnd_eq (h : s.TaskPlaced t) (hhead : s.tickHead t = true) :
    s.tickTaskEnd t =
      some { s.ended t (if (s.taskState t).pending then .timeout else .finish) with blkObj := s.blkObj } := by
  unfold tickTaskEnd ended
  have hstat := h.timed hhead
  have hblk := h.not_blk
  cases hst : s.taskState t <;> simp only [hst,TaskStat.pending,TaskStat.sleeping,Bool.false_eq_true,or_self] at hstat hblk
  · rfl
  · rfl
  · rw [blkListRm_notMem (hblk trivial)]
    rfl
  · rw [blkListRm_notMem (hblk trivial)]
    rfl

omit [DecidableEq O] in
theorem notMem_tickListRm (h : s.Placed) : t ∉ (s.tickListRm t).tickList := by
  simp only [tickListRm]
  split_ifs with hhead
  · exact fun hmem => (h.lists.tick.mem_erase_iff.mp hmem).1 rfl
  · exact mt (h.task t).tick.mp hhead

theorem notMem_blkListRm (h : s.Placed) (obj : O) : t ∉ (s.blkListRm t).blkList obj := by
  intro hmem
  simp only [blkListRm] at hmem
  have hplaced := h.task t
  cases hobj : s.blkObj t with
  | none =>
    rw [hobj] at hmem
    have hsome := ((hplaced.blk obj).mp hmem).2
    rw [hobj] at hsome
    cases hsome
  | some o =>
    simp only [hobj] at hmem
    by_cases ho : obj = o
    · rw [ho,Function.update_self] at hmem
      exact ((h.lists.blk o).mem_erase_iff.mp hmem).1 rfl
    · rw [Function.update_of_ne ho] at hmem
      have hsome := ((hplaced.blk obj).mp hmem).2
      rw [hobj] at hsome
      exact ho (Option.some.inj hsome).symm

/-- A wait or a sleep ends; the object may still be noted. -/
theorem Placed.ended (h : s.Placed) (hst : (s.taskState t).pending = true ∨ (s.taskState t).sleeping = true)
    {f : T → Option O} (hf : ∀ x, x ≠ t → f x = s.blkObj x) : Placed { s.ended t blk with blkObj := f } := by
  have hplaced := h.task t
  have hnot : ∀ p, t ∉ s.ready p := hplaced.not_ready (by
    intro hrdy
    simp [hrdy,TaskStat.pending,TaskStat.sleeping] at hst)
  have hlive : (s.taskState t).live = true := by
    cases hs : s.taskState t <;> simp_all [TaskStat.pending,TaskStat.sleeping,TaskStat.live]
  refine h.change (t := t) (fun x hx => ?_) ?_ ?_
  · have htick := (untouched_tickListRm (s := s) hx).tick
    have hblk := (untouched_blkListRm (s := s) hx).blk
    refine ⟨Function.update_of_ne hx _ _,hf x hx,rfl,rfl,Function.update_of_ne hx _ _,fun p => ?_,hblk,htick,Iff.rfl⟩
    simp only [Sched.ended]
    split_ifs
    · exact (untouched_readyListAdd hx).ready p
    · exact Iff.rfl
  · have htick := notMem_tickListRm (t := t) h
    have hblk := notMem_blkListRm (t := t) h
    by_cases hrdy : (s.taskState t).ended = .rdy
    · refine placed_rdy (fun p => ?_) hblk htick (Function.update_self ..) ?_ (hplaced.known hlive) (hplaced.bound hlive)
      · simp only [Sched.ended,if_pos hrdy,readyListAdd]
        rw [mem_listsAdd]
        simp [hnot p,eq_comm]
      · simp [Sched.ended,hrdy]
    · have hsusp : (s.taskState t).ended = .suspended ∧ (s.taskState t).isSuspended = true := by
        cases hs : s.taskState t <;>
          simp_all [TaskStat.pending,TaskStat.sleeping,TaskStat.ended,TaskStat.isSuspended]
      have hstate : (s.ended t blk).taskState t = .suspended := by simp [Sched.ended,hsusp.1]
      have hout : Nowhere { s.ended t blk with blkObj := f } t :=
        ⟨fun p => by simpa [Sched.ended,hrdy] using hnot p,hblk,htick,Function.update_self ..⟩
      refine hout.placed ?_ ?_ ?_ ?_ ?_ ?_
      · simp [hstate]
      · simp [hstate,TaskStat.pending]
      · simp [hstate,TaskStat.sleeping]
      · exact fun _ => hplaced.count hsusp.2
      · exact fun _ => hplaced.known hlive
      · exact fun _ => hplaced.bound hlive
  · have hl := h.lists
    refine ⟨fun p => ?_,hl.blkListRm.blk,hl.blkListRm.ordered,hl.tickListRm.tick⟩
    simp only [Sched.ended]
    split_ifs
    · exact (hl.readyListAdd hnot).ready p
    · exact hl.ready p

theorem TickKept.ended (h : s.TickKept) : (s.ended t blk).TickKept :=
  h.sublist tickListRm_sublist (fun _ _ => rfl) rfl

/-! ## The start of a wait or a sleep -/

omit [DecidableEq O] in
theorem tickListInsert_eq (hpos : 0#64 < time) :
    s.tickListInsert t time =
      { s with
        tickMatch := Function.update s.tickMatch t (s.tickCount + time)
        tickRemain := Function.update s.tickRemain t time
        tickList := insertBefore (fun q => time < s.tickMatch q - s.tickCount) t s.tickList
        tickHead := Function.update s.tickHead t true } := if_pos hpos

omit [DecidableEq O] in
theorem notMem_readyListRm (h : s.Placed) (p : ℕ) : t ∉ (s.readyListRm t).ready p := by
  intro hmem
  rw [readyListRm,mem_listsRm (h.lists.ready _)] at hmem
  exact hmem.2 ⟨(((h.task t).ready p).mp hmem.1).2.symm,rfl⟩

theorem pendToBlkObj_eq (hpos : 0#64 < time) :
    s.pendToBlkObj o t time =
      { s with
        taskState := Function.update s.taskState t .pend
        blkObj := Function.update s.blkObj t (some o)
        ready := (s.readyListRm t).ready
        blkList := (s.pendListAdd o t).blkList
        tickMatch := if time = waitForever then s.tickMatch else Function.update s.tickMatch t (s.tickCount + time)
        tickRemain := if time = waitForever then s.tickRemain else Function.update s.tickRemain t time
        tickList := if time = waitForever then s.tickList else (s.tickListInsert t time).tickList
        tickHead := if time = waitForever then s.tickHead else Function.update s.tickHead t true } := by
  unfold pendToBlkObj
  by_cases hforever : time = waitForever
  · simp only [hforever,ne_eq,not_true_eq_false,if_false,if_true]
    rfl
  · simp only [hforever,ne_eq,not_false_eq_true,if_true,if_false,tickListInsert_eq hpos]
    rfl

/-- A task that runs starts to wait for an object. -/
theorem Placed.pendToBlkObj (h : s.Placed) (hrdy : s.taskState t = .rdy) (hpos : 0#64 < time) :
    (s.pendToBlkObj o t time).Placed := by
  have hplaced := h.task t
  have hnot := hplaced.not_blk (by simp [hrdy,TaskStat.pending])
  obtain ⟨htick,hhead⟩ := hplaced.not_timed (by simp [hrdy,TaskStat.pending]) (by simp [hrdy,TaskStat.sleeping])
  have hlive : (s.taskState t).live = true := by simp [hrdy,TaskStat.live]
  have hout := notMem_readyListRm (t := t) h
  rw [pendToBlkObj_eq hpos]
  refine h.change (t := t) (fun x hx => ?_) ?_ ?_
  · have htimer : Untouched s (s.tickListInsert t time) x := untouched_tickListInsert hx
    rw [tickListInsert_eq hpos] at htimer ⊢
    refine ⟨Function.update_of_ne hx _ _,Function.update_of_ne hx _ _,rfl,rfl,?_,
      (untouched_readyListRm hx).ready,(untouched_pendListAdd hx).blk,?_,Iff.rfl⟩
    · split_ifs
      · rfl
      · exact htimer.head
    · simp only
      split_ifs
      · exact Iff.rfl
      · exact htimer.tick
  · refine ⟨fun p => ?_,fun o' => ?_,?_,?_,?_,?_,?_,fun _ => hplaced.known hlive,fun _ => hplaced.bound hlive⟩
    · simpa using hout p
    · by_cases ho : o' = o
      · simp [pendListAdd,ho,TaskStat.pending]
      · simpa [pendListAdd,ho,Ne.symm ho,TaskStat.pending] using hnot o'
    · exact fun _ => ⟨o,Function.update_self ..⟩
    · rw [tickListInsert_eq hpos]
      simp only
      split_ifs
      · exact hplaced.tick
      · simp
    · simp [TaskStat.pending]
    · simp [TaskStat.sleeping]
    · simp [TaskStat.isSuspended]
  · refine ⟨h.lists.readyListRm.ready,(h.lists.pendListAdd (hnot o)).blk,(h.lists.pendListAdd (hnot o)).ordered,?_⟩
    simp only
    split_ifs
    · exact h.lists.tick
    · exact (h.lists.tickListInsert htick).tick

theorem TickKept.pendToBlkObj (h : s.TickKept) (ht : t ∉ s.tickList) (hpos : 0#64 < time) :
    (s.pendToBlkObj o t time).TickKept := by
  have hins := h.insert ht hpos
  rw [pendToBlkObj_eq hpos]
  rw [tickListInsert_eq hpos] at hins ⊢
  by_cases hforever : time = waitForever
  · exact h.congr (if_pos hforever) (if_pos hforever) rfl
  · exact hins.congr (if_neg hforever) (if_neg hforever) rfl

omit [DecidableEq T] [DecidableEq O] in
/-- Whoever is ready waits for no tick. -/
theorem untimed_of_rdy (h : s.Placed) (hrdy : s.taskState t = .rdy) : t ∈ s.Untimed :=
  ((h.task t).not_timed (by simp [hrdy,TaskStat.pending]) (by simp [hrdy,TaskStat.sleeping])).1

/-- krhino_task_sleep, up to the choice of the next task -/
def taskSleep (s : Sched T O) (task : T) (ticks : BitVec 64) : Sched T O :=
  ((s.setState task .sleep).tickListInsert task ticks).readyListRm task

omit [DecidableEq O] in
theorem Placed.taskSleep (h : s.Placed) (hrdy : s.taskState t = .rdy) (hpos : 0#64 < time) :
    (s.taskSleep t time).Placed := by
  have hplaced := h.task t
  have hnot := hplaced.not_blk (by simp [hrdy,TaskStat.pending])
  obtain ⟨htick,-⟩ := hplaced.not_timed (by simp [hrdy,TaskStat.pending]) (by simp [hrdy,TaskStat.sleeping])
  have hlive : (s.taskState t).live = true := by simp [hrdy,TaskStat.live]
  have hout := notMem_readyListRm (t := t) h
  unfold Sched.taskSleep
  refine h.change (t := t) (fun x hx => ?_) ?_ ?_
  · exact ((untouched_setState hx).trans (untouched_tickListInsert hx)).trans (untouched_readyListRm hx)
  · rw [tickListInsert_eq hpos]
    refine ⟨fun p => ?_,fun o' => ?_,?_,?_,?_,?_,?_,fun _ => hplaced.known hlive,fun _ => hplaced.bound hlive⟩
    · simpa [readyListRm,setState] using hout p
    · simpa [readyListRm,setState,TaskStat.pending] using hnot o'
    · simp [readyListRm,setState,TaskStat.pending]
    · simp [readyListRm]
    · simp [readyListRm,setState,TaskStat.sleeping]
    · simp [readyListRm]
    · simp [readyListRm,setState,TaskStat.isSuspended]
  · have hset : (s.setState t .sleep).ListsKept := h.lists.congr rfl rfl rfl rfl
    exact (hset.tickListInsert htick).readyListRm

/-! ## Another priority -/

/-- The switch of task_pri_change -/
def taskPriSet (s : Sched T O) (task : T) (newPri : ℕ) : Option (Sched T O) :=
  match s.taskState task with
  | .rdy =>
    let s := s.readyListRm task
    let s := { s with prio := Function.update s.prio task newPri }
    some (if task = s.active then s.readyListAddHead task else s.readyListAddTail task)
  | .sleep | .suspended | .sleepSuspended => some { s with prio := Function.update s.prio task newPri }
  | .pend | .pendSuspended =>
    let s := { s with prio := Function.update s.prio task newPri }
    some (s.pendListReorder task)
  | _ => none

omit [DecidableEq T] [DecidableEq O] in
/-- An order by other priorities is the same where these have not changed. -/
theorem ordered_update [DecidableEq T] {l : List T} {v : ℕ} (h : Ordered s.prio l) (ht : t ∉ l) :
    Ordered (Function.update s.prio t v) l :=
  ordered_congr h fun _ hx => Function.update_of_ne (ne_of_mem_of_not_mem hx ht) _ _

/-- A task that exists gets another priority and stays in the lists that it is in. -/
theorem Placed.taskPriSet (h : s.Placed) (hlive : (s.taskState t).live = true) {v : ℕ} (hv : v < priMax) :
    ∃ s', s.taskPriSet t v = some s' ∧ s'.Placed ∧
      s' = { s with prio := Function.update s.prio t v, ready := s'.ready, blkList := s'.blkList } := by
  have hplaced := h.task t
  have hl := h.lists
  unfold Sched.taskPriSet
  cases hst : s.taskState t <;> simp only [hst,TaskStat.live,Bool.false_eq_true] at hlive
  case rdy =>
    have hnot := hplaced.not_blk (by simp [hst,TaskStat.pending])
    obtain ⟨htick,hhead⟩ := hplaced.not_timed (by simp [hst,TaskStat.pending]) (by simp [hst,TaskStat.sleeping])
    have hout := notMem_readyListRm (t := t) h
    refine ⟨{ s with
      prio := Function.update s.prio t v
      ready := if t ≠ s.active then listsAddTail (s.readyListRm t).ready v t
        else listsAddHead (s.readyListRm t).ready v t },?_,?_,rfl⟩
    · simp only [readyListRm]
      split_ifs <;> simp_all [readyListAddHead,readyListAddTail]
    · refine h.change (t := t) (fun x hx => ?_) ?_ ?_
      · refine ⟨rfl,rfl,Function.update_of_ne hx _ _,rfl,rfl,fun p => ?_,fun _ => Iff.rfl,Iff.rfl,Iff.rfl⟩
        rw [mem_listsAdd,(untouched_readyListRm hx).ready]
        simp [hx]
      · refine placed_rdy (fun p => ?_) hnot htick hhead hst (hplaced.known (by simp [hst,TaskStat.live])) ?_
        · rw [mem_listsAdd]
          simp [hout p,eq_comm]
        · simpa using hv
      · refine ⟨fun p => nodup_listsAdd (hl.readyListRm.ready p) (hout v),hl.blk,fun obj => ?_,hl.tick⟩
        exact ordered_update (hl.ordered obj) (hnot obj)
  case sleep | suspended | sleepSuspended =>
    refine ⟨_,rfl,h.change (t := t) (fun x hx => ?_) ?_ ?_,rfl⟩
    · exact ⟨rfl,rfl,Function.update_of_ne hx _ _,rfl,rfl,fun _ => Iff.rfl,fun _ => Iff.rfl,Iff.rfl,Iff.rfl⟩
    · refine ⟨fun p => ?_,hplaced.blk,hplaced.obj,hplaced.tick,hplaced.timed,hplaced.asleep,hplaced.count,
        hplaced.known,fun _ => by simpa using hv⟩
      simp [hst,hplaced.not_ready (by simp [hst]) p]
    · refine ⟨hl.ready,hl.blk,fun obj => ?_,hl.tick⟩
      exact ordered_update (hl.ordered obj) (hplaced.not_blk (by simp [hst,TaskStat.pending]) obj)
  case pend | pendSuspended =>
    obtain ⟨o,ho⟩ := hplaced.obj (by simp [hst,TaskStat.pending])
    have hout := notMem_blkListRm (t := t) h
    let s1 : Sched T O := { s with prio := Function.update s.prio t v }
    have hre : s1.pendListReorder t = (s1.blkListRm t).pendListAdd o t := by
      simp only [s1,pendListReorder,ho]
    refine ⟨_,rfl,?_,?_⟩
    · rw [hre]
      refine h.change (t := t) (fun x hx => ?_) ?_ ?_
      · have hu : Untouched s s1 x :=
          ⟨rfl,rfl,Function.update_of_ne hx _ _,rfl,rfl,fun _ => Iff.rfl,fun _ => Iff.rfl,Iff.rfl,Iff.rfl⟩
        exact (hu.trans (untouched_blkListRm hx)).trans (untouched_pendListAdd hx)
      · refine ⟨fun p => ?_,fun o' => ?_,hplaced.obj,hplaced.tick,hplaced.timed,hplaced.asleep,hplaced.count,
          hplaced.known,fun _ => by simpa [s1,Sched.pendListAdd,Sched.blkListRm] using hv⟩
        · have hno := hplaced.not_ready (by simp [hst]) p
          simp [s1,Sched.pendListAdd,Sched.blkListRm,hst,hno]
        · by_cases hoo : o' = o
          · simp [s1,Sched.pendListAdd,Sched.blkListRm,hoo,hst,ho,TaskStat.pending]
          · have hno : t ∉ s.blkList o' := by
              rw [hplaced.blk,ho]
              exact fun hand => hoo (Option.some.inj hand.2).symm
            simp [s1,Sched.pendListAdd,Sched.blkListRm,hoo,hst,ho,TaskStat.pending,hno,Ne.symm hoo]
      · have hkept : (s1.blkListRm t).ListsKept :=
          ⟨hl.ready,hl.blkListRm.blk,fun obj => ordered_update (hl.blkListRm.ordered obj) (hout obj),hl.tick⟩
        exact hkept.pendListAdd (hout o)
    · rw [hre]
      rfl

/-! ## A task that begins or ends to exist -/

omit [DecidableEq T] [DecidableEq O] in
/-- A task that does not exist is in no list. -/
theorem nowhere_of_not_live (hp : s.Placed) (ht : (s.taskState t).live = false) : s.Nowhere t := by
  have hst : s.taskState t ≠ .rdy ∧ (s.taskState t).pending = false ∧ (s.taskState t).sleeping = false := by
    cases hst : s.taskState t <;> simp_all [TaskStat.live,TaskStat.pending,TaskStat.sleeping]
  obtain ⟨htick,hhead⟩ := (hp.task t).not_timed hst.2.1 hst.2.2
  exact ⟨(hp.task t).not_ready hst.1,(hp.task t).not_blk hst.2.1,htick,hhead⟩

/-- What task_create does to the lists and to what the scheduler reads -/
def spawn (s : Sched T O) (t : T) (prio : ℕ) (autorun : Bool) : Sched T O :=
  { s with
    taskState := Function.update s.taskState t (if autorun then .rdy else .suspended)
    blkState := Function.update s.blkState t .finish
    blkObj := Function.update s.blkObj t none
    prio := Function.update s.prio t prio
    suspendCount := Function.update s.suspendCount t (if autorun then 0 else 1)
    tickMatch := Function.update s.tickMatch t 0#64
    tickRemain := Function.update s.tickRemain t 0#64
    tickHead := Function.update s.tickHead t false
    taskHead := s.taskHead ++ [t]
    ready := if autorun then listsAddTail s.ready prio t else s.ready }

omit [DecidableEq O] in
theorem Placed.spawn {prio : ℕ} (h : s.Placed) (hout : s.Nowhere t) (hprio : prio < priMax)
    (autorun : Bool) : (s.spawn t prio autorun).Placed := by
  have hadd : ∀ {x p}, x ∈ listsAddTail s.ready prio t p ↔ x ∈ s.ready p ∨ p = prio ∧ x = t := by
    intro x p
    have hmem := @mem_listsAdd T s.ready prio p t x True _
    rwa [if_pos trivial] at hmem
  refine h.change (t := t) (fun x hx => ?_) ?_ ⟨fun p => ?_,h.lists.blk,fun o => ?_,h.lists.tick⟩
  · refine ⟨Function.update_of_ne hx _ _,Function.update_of_ne hx _ _,Function.update_of_ne hx _ _,
      Function.update_of_ne hx _ _,Function.update_of_ne hx _ _,fun p => ?_,fun _ => Iff.rfl,Iff.rfl,?_⟩
    · simp only [Sched.spawn]
      split_ifs
      · rw [hadd]
        simp [hx]
      · exact Iff.rfl
    · simp [Sched.spawn,hx]
  · have hknown : t ∈ (s.spawn t prio autorun).taskHead := by simp [Sched.spawn]
    have hbound : (s.spawn t prio autorun).prio t < priMax := by simpa [Sched.spawn] using hprio
    have hhead : (s.spawn t prio autorun).tickHead t = false := Function.update_self ..
    cases autorun with
    | true =>
      refine placed_rdy (fun p => ?_) hout.blk hout.tick hhead (Function.update_self ..) hknown hbound
      simp only [Sched.spawn,if_true,hadd,Function.update_self]
      simp [hout.ready p,eq_comm]
    | false =>
      have hstate : (s.spawn t prio false).taskState t = .suspended := Function.update_self ..
      have hcount : (s.spawn t prio false).suspendCount t = 1 := Function.update_self ..
      have hnow : (s.spawn t prio false).Nowhere t := ⟨hout.ready,hout.blk,hout.tick,hhead⟩
      refine hnow.placed ?_ ?_ ?_ (fun _ => ?_) (fun _ => hknown) fun _ => hbound
      · simp [hstate]
      · simp [hstate,TaskStat.pending]
      · simp [hstate,TaskStat.sleeping]
      · rw [hcount]
        exact Nat.one_pos
  · simp only [Sched.spawn]
    split_ifs
    · have hnodup := nodup_listsAdd (p := prio) (t := t) (b := True) (h.lists.ready p) (hout.ready prio)
      rwa [if_pos trivial] at hnodup
    · exact h.lists.ready p
  · exact ordered_update (h.lists.ordered o) (hout.blk o)

/-- A task that is deleted is taken out of all lists. -/
def removed (s : Sched T O) (t : T) : Sched T O :=
  { s with
    taskState := Function.update s.taskState t .deleted
    tickHead := Function.update s.tickHead t false
    ready := (s.readyListRm t).ready
    blkList := (s.blkListRm t).blkList
    tickList := (s.tickListRm t).tickList }

theorem nowhere_removed (h : s.Placed) : (s.removed t).Nowhere t :=
  ⟨notMem_readyListRm h,notMem_blkListRm h,notMem_tickListRm h,Function.update_self ..⟩

theorem Placed.removed (h : s.Placed) : (s.removed t).Placed := by
  have hstate : (s.removed t).taskState t = .deleted := Function.update_self ..
  refine h.change (t := t) (fun x hx => ?_) ?_ ?_
  · have hready : Untouched s (s.readyListRm t) x := untouched_readyListRm hx
    have hblk : Untouched s (s.blkListRm t) x := untouched_blkListRm hx
    have htick : Untouched s (s.tickListRm t) x := untouched_tickListRm hx
    exact ⟨Function.update_of_ne hx _ _,rfl,rfl,rfl,htick.head,hready.ready,hblk.blk,htick.tick,Iff.rfl⟩
  · refine (nowhere_removed h).placed ?_ ?_ ?_ ?_ ?_ ?_
    · simp [hstate]
    · simp [hstate,TaskStat.pending]
    · simp [hstate,TaskStat.sleeping]
    · simp [hstate,TaskStat.isSuspended]
    · simp [hstate,TaskStat.live]
    · simp [hstate,TaskStat.live]
  · exact ⟨h.lists.readyListRm.ready,h.lists.blkListRm.blk,h.lists.blkListRm.ordered,h.lists.tickListRm.tick⟩

/-! A removal from a list that the task is not in does nothing. -/

omit [DecidableEq O] in
theorem readyListRm_self (h : ∀ p, t ∉ s.ready p) : s.readyListRm t = s := by
  simp only [readyListRm,listsRm,List.erase_of_not_mem (h _),Function.update_eq_self]

theorem blkListRm_self (h : ∀ obj, t ∉ s.blkList obj) : s.blkListRm t = s :=
  congrArg (fun b => { s with blkList := b }) (blkListRm_notMem h)

omit [DecidableEq O] in
theorem tickListRm_self (h : s.tickHead t = false) : s.tickListRm t = s := by
  simp only [tickListRm,h,Bool.false_eq_true,if_false]
  rw [← h,Function.update_eq_self]

/-- What krhino_task_del does to the lists, by the state of the task -/
theorem removed_eq (h : s.TaskPlaced t) :
    match s.taskState t with
    | .rdy => (s.readyListRm t).setState t .deleted = s.removed t
    | .suspended => s.setState t .deleted = s.removed t
    | .sleep | .sleepSuspended => (s.tickListRm t).setState t .deleted = s.removed t
    | .pend | .pendSuspended => ((s.tickListRm t).blkListRm t).setState t .deleted = s.removed t
    | _ => True := by
  have hall : s.removed t = (((s.readyListRm t).blkListRm t).tickListRm t).setState t .deleted := rfl
  have hready := h.not_ready
  have hblk := h.not_blk
  have htick := h.not_timed
  cases hst : s.taskState t <;> simp only [hst] at hready hblk htick ⊢
  case rdy =>
    rw [hall,blkListRm_self (s := s.readyListRm t) (hblk rfl),tickListRm_self (s := s.readyListRm t) (htick rfl rfl).2]
  case suspended =>
    rw [hall,readyListRm_self (hready (by simp)),blkListRm_self (hblk rfl),tickListRm_self (htick rfl rfl).2]
  case sleep | sleepSuspended =>
    rw [hall,readyListRm_self (hready (by simp)),blkListRm_self (hblk rfl)]
  case pend | pendSuspended =>
    rw [hall,readyListRm_self (hready (by simp))]
    rfl

end Sched

end FmacSdk.Rhino
