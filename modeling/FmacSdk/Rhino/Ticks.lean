import FmacSdk.Rhino.MutexPass

/-! # Ticks

A tick ends the waits and the sleeps whose time is up, in the order of the tick list,
and uses up the time slice of the task that runs. The list is ordered by what is left,
so those that are woken are the ones at its head.
-/
namespace FmacSdk.Rhino
open WaitList Donation Sched
variable {T O : Type*}

namespace Kernel

/-- The test of the loop of tick_list_update -/
def due (s : Kernel T O) (t : T) : Bool := (s.tickMatch t - s.tickCount).toInt ≤ 0

/-- What holds while the tick list is gone through. -/
structure Ticking (s : Kernel T O) (idle : T) : Prop extends Steady s idle where
  inherits : s.Inherits
  waits : ∀ o, s.Waits o

/-- Neither the time nor what the choice of the next task depends on has changed, nor the objects. -/
structure Ticked (s s' : Kernel T O) : Prop where
  obj : s'.obj = s.obj
  tickMatch : s'.tickMatch = s.tickMatch
  count : s'.tickCount = s.tickCount
  active : s'.active = s.active
  lock : s'.schedLock = s.schedLock
  nested : s'.intrptNested = s.intrptNested
  running : s'.running = s.running
  told : s'.msg = s.msg ∧ s'.bqMsgSize = s.bqMsgSize ∧ s'.actlFlags = s.actlFlags

variable {s s' s'' : Kernel T O} {t x idle : T} {blk : BlkState} {f : T → Option O} {U : Set O}

theorem Ticked.refl (s : Kernel T O) : Ticked s s := ⟨rfl,rfl,rfl,rfl,rfl,rfl,rfl,rfl,rfl,rfl⟩

theorem Ticked.trans (h : Ticked s s') (h' : Ticked s' s'') : Ticked s s'' :=
  ⟨h'.obj.trans h.obj,h'.tickMatch.trans h.tickMatch,h'.count.trans h.count,h'.active.trans h.active,h'.lock.trans h.lock,
    h'.nested.trans h.nested,h'.running.trans h.running,h'.told.1.trans h.told.1,h'.told.2.1.trans h.told.2.1,
    h'.told.2.2.trans h.told.2.2⟩

theorem Ticked.due (h : Ticked s s') : s'.due = s.due := by
  funext t
  unfold Kernel.due
  rw [h.tickMatch,h.count]

/-! ## What is noted -/

theorem boss_note (hf : ∀ x, (s.taskState x).pending = true → f x = s.blkObj x) :
    boss { s with blkObj := f } = s.boss := by
  funext x
  unfold boss
  by_cases hp : (s.taskState x).pending = true
  · simp only [if_pos hp,hf x hp]
  · rw [if_neg hp,if_neg hp]

theorem Steady.note (h : s.Steady idle) (hf : ∀ x, (s.taskState x).pending = true → f x = s.blkObj x) :
    Steady { s with blkObj := f } idle :=
  ⟨h.placed.note hf,h.rdy,h.base,h.bases,h.owned.congr rfl rfl rfl fun _ => List.Subset.refl _,h.locked⟩

theorem Ticking.note (h : s.Ticking idle) (hf : ∀ x, (s.taskState x).pending = true → f x = s.blkObj x) :
    Ticking { s with blkObj := f } idle := by
  refine ⟨h.toSteady.note hf,?_,fun o => (h.waits o).congr rfl (List.Subset.refl _) fun _ _ => ⟨rfl,rfl⟩⟩
  unfold Inherits
  rw [boss_note hf]
  exact h.inherits

/-! ## One task -/

section Ticks
variable [DecidableEq T] [DecidableEq O]

/-- The time of a task is up, which still notes what it waited for. -/
def lapsed (s : Kernel T O) (t : T) (blk : BlkState) : Kernel T O :=
  { s with toSched := { s.toSched.ended t blk with blkObj := s.blkObj } }

theorem noted_endWait (hp : ((s.endWait t blk).taskState x).pending = true) :
    s.blkObj x = (s.endWait t blk).blkObj x := by
  refine (Function.update_of_ne ?_ _ _).symm
  rintro rfl
  simp [endWait,ended] at hp

theorem live_lapsed (t : T) (blk : BlkState) : (s.lapsed t blk).Live = s.Live := @live_endWait T O s t blk _ _

theorem boss_lapsed (t : T) (blk : BlkState) : (s.lapsed t blk).boss = Function.update s.boss t none :=
  (boss_note (s := s.endWait t blk) fun _ => noted_endWait).trans boss_endWait

theorem Steady.lapsed (h : s.Steady idle) (hst : (s.taskState t).pending = true ∨ (s.taskState t).sleeping = true) :
    (s.lapsed t blk).Steady idle :=
  (h.endWait hst).note fun _ => noted_endWait

theorem Waits.lapsed {o : O} (h : s.Waits o) : (s.lapsed t blk).Waits o :=
  h.congr rfl (List.Sublist.subset blkListRm_sublist) fun _ _ => ⟨rfl,rfl⟩

/-- A task whose time is up is woken, and whoever it waited for runs at what is left to him. -/
theorem tickTaskUpdate_spec (h : s.Ticking idle) (ht : t ∈ s.tickList) :
    ∃ s', s.tickTaskUpdate t = some s' ∧ s'.Ticking idle ∧ Ticked s s' ∧ s'.tickList = s.tickList.erase t ∧
      s'.taskState = Function.update s.taskState t (s.taskState t).ended ∧
      s'.blkState = Function.update s.blkState t (if (s.taskState t).pending then .timeout else .finish) ∧
      ∀ x, x ≠ t → s'.blkObj x = s.blkObj x := by
  have hplaced := h.placed.task t
  have hhead : s.tickHead t = true := hplaced.tick.mp ht
  have hst := hplaced.timed hhead
  have hlive := live_lapsed (s := s) t (if (s.taskState t).pending then .timeout else .finish)
  have hboss := boss_lapsed (s := s) t (if (s.taskState t).pending then .timeout else .finish)
  have hsteady : (s.lapsed t (if (s.taskState t).pending then .timeout else .finish)).Steady idle := h.toSteady.lapsed hst
  have hlist : (s.tickListRm t).tickList = s.tickList.erase t := if_pos hhead
  unfold tickTaskUpdate
  rw [tickTaskEnd_eq hplaced hhead,Option.bind_some]
  by_cases hp : (s.taskState t).pending = true
  · obtain ⟨m,hm⟩ := hplaced.obj hp
    have hmem : t ∈ s.blkList m := (hplaced.blk m).mpr ⟨hp,hm⟩
    have hfree : ∀ n, s.obj m ≠ .mutex none n := by
      intro n hn
      rw [h.owned.free m n hn] at hmem
      cases hmem
    obtain ⟨s1,hs1,hr,hsteady1,hin1⟩ := hsteady.lapse h.placed hmem h.inherits hfree hlive.le rfl rfl rfl hm hboss
    have hwaits : ∀ o, s1.Waits o := fun o => hr.waits hsteady.placed hsteady1.placed (h.waits o).lapsed
    have hticking : s1.Ticking idle := ⟨hsteady1,hin1,hwaits⟩
    have hnote : ∀ x, (s1.taskState x).pending = true → Function.update s1.blkObj t none x = s1.blkObj x := by
      obtain ⟨p,r,b,rfl⟩ := hr
      intro x hx
      refine Function.update_of_ne ?_ _ _
      rintro rfl
      simp [lapsed,ended] at hx
    rw [if_pos hp]
    refine ⟨{ s1 with blkObj := Function.update s1.blkObj t none },?_,hticking.note hnote,?_⟩
    · exact congrArg (Option.map _) hs1
    · obtain ⟨p,r,b,rfl⟩ := hr
      exact ⟨⟨rfl,rfl,rfl,rfl,rfl,rfl,rfl,rfl,rfl,rfl⟩,hlist,rfl,rfl,fun x hx => Function.update_of_ne hx _ _⟩
  · have hnone : s.boss t = none := boss_of_not_pending (by simpa using hp)
    rw [← hnone,Function.update_eq_self] at hboss
    have hin : (s.lapsed t (if (s.taskState t).pending then .timeout else .finish)).Inherits := by
      unfold Inherits
      rw [hlive,hboss]
      exact h.inherits
    rw [if_neg hp]
    exact ⟨_,rfl,⟨hsteady,hin,fun o => (h.waits o).lapsed⟩,⟨rfl,rfl,rfl,rfl,rfl,rfl,rfl,rfl,rfl,rfl⟩,hlist,
      rfl,rfl,fun _ _ => rfl⟩

/-! ## The tick list -/

/-- The tasks at the head of the tick list whose time is up are woken, in their order. -/
theorem tickLoop_spec (l : List T) (h : s.Ticking idle) (hl : s.tickList = l) :
    ∃ s', tickLoop l s = some s' ∧ s'.Ticking idle ∧ Ticked s s' ∧ s'.tickList = l.dropWhile s.due ∧
      (∀ x, s'.taskState x = if x ∈ l.takeWhile s.due then (s.taskState x).ended else s.taskState x) ∧
      (∀ x, s'.blkState x =
        if x ∈ l.takeWhile s.due then if (s.taskState x).pending then .timeout else .finish else s.blkState x) ∧
      ∀ x ∉ l.takeWhile s.due, s'.blkObj x = s.blkObj x := by
  induction l generalizing s with
  | nil => exact ⟨s,rfl,h,Ticked.refl s,hl,fun _ => rfl,fun _ => rfl,fun _ _ => rfl⟩
  | cons t l ih =>
    have hnodup : t ∉ l := (List.nodup_cons.mp (hl ▸ h.placed.lists.tick)).1
    rw [tickLoop]
    by_cases hdue : s.due t = true
    · obtain ⟨s1,hs1,h1,hsame,hlist,hstate,hblk,hobj⟩ := tickTaskUpdate_spec h (hl ▸ List.mem_cons_self)
      rw [hl,List.erase_cons_head] at hlist
      obtain ⟨s',hs',h',hsame',hlist',hstate',hblk',hobj'⟩ := ih h1 hlist
      have hout : t ∉ l.takeWhile s.due := fun hmem => hnodup (List.takeWhile_subset _ hmem)
      rw [hsame.due] at hlist' hstate' hblk' hobj'
      rw [List.dropWhile_cons_of_pos hdue,List.takeWhile_cons_of_pos hdue]
      refine ⟨s',?_,h',hsame.trans hsame',hlist',fun x => ?_,fun x => ?_,fun x hx => ?_⟩
      · rw [if_pos (by simpa [due] using hdue),hs1,Option.bind_some,hs']
      · rw [hstate',hstate]
        by_cases hx : x = t
        · simp [hx,hout]
        · simp [hx]
      · rw [hblk',hstate,hblk]
        by_cases hx : x = t
        · simp [hx,hout]
        · simp [hx]
      · rw [List.mem_cons,not_or] at hx
        rw [hobj' x hx.2,hobj x hx.1]
    · rw [List.dropWhile_cons_of_neg hdue,List.takeWhile_cons_of_neg hdue]
      refine ⟨s,if_neg (by simpa [due] using hdue),h,Ticked.refl s,hl,fun x => ?_,fun x => ?_,fun _ _ => rfl⟩
      · simp
      · simp

omit [DecidableEq T] [DecidableEq O] in
/-- What is left for a task after one tick, and whether its time is up. -/
theorem tick_left (hpos : 0 < s.ticksLeft t) :
    ticksLeft { s.toSched with tickCount := s.tickCount + 1#64 } t = s.ticksLeft t - 1 ∧
      ((s.tickMatch t - (s.tickCount + 1#64)).toInt ≤ 0 ↔ s.ticksLeft t = 1 ∨ 2 ^ 63 < s.ticksLeft t) := by
  have hsub : s.tickMatch t - (s.tickCount + 1#64) = s.tickMatch t - s.tickCount - 1#64 := (BitVec.sub_sub ..).symm
  unfold ticksLeft at hpos ⊢
  simp only [hsub]
  generalize s.tickMatch t - s.tickCount = d at hpos ⊢
  have hnat : (d - 1#64).toNat = d.toNat - 1 := by
    rw [BitVec.toNat_sub_of_le]
    · rfl
    · exact hpos
  refine ⟨hnat,?_⟩
  have hlt := d.isLt
  rw [BitVec.toInt_eq_toNat_cond,hnat]
  split_ifs <;> omega

/-! ## The tick -/

/-- What the tasks see of a tick: those at the head of the list whose time is up are woken. -/
structure Passed (s s' : Kernel T O) : Prop where
  obj : s'.obj = s.obj
  tickMatch : s'.tickMatch = s.tickMatch
  count : s'.tickCount = s.tickCount + 1#64
  woken : ∀ t ∈ s.tickList, s.ticksLeft t = 1 →
    s'.taskState t = (s.taskState t).ended ∧
      s'.blkState t = if (s.taskState t).pending then .timeout else .finish
  fate : ∀ t,
    (s'.taskState t = s.taskState t ∧ s'.blkState t = s.blkState t ∧ s'.waitsFor t = s.waitsFor t) ∨
    (t ∈ s.tickList ∧ (s.ticksLeft t = 1 ∨ 2 ^ 63 < s.ticksLeft t) ∧ s'.taskState t = (s.taskState t).ended ∧
      s'.blkState t = if (s.taskState t).pending then .timeout else .finish)
  told : s'.msg = s.msg ∧ s'.bqMsgSize = s.bqMsgSize ∧ s'.actlFlags = s.actlFlags

omit [DecidableEq T] in
/-- Whose time is not up is left alone. -/
theorem Passed.kept (h : Passed s s') (ht : t ∈ s.tickList → s.ticksLeft t ≤ 2 ^ 63 ∧ s.ticksLeft t ≠ 1) :
    s'.taskState t = s.taskState t ∧ s'.waitsFor t = s.waitsFor t := by
  rcases h.fate t with ⟨hstate,-,hw⟩ | ⟨hmem,hor,-⟩
  · exact ⟨hstate,hw⟩
  · have := ht hmem
    omega

omit [DecidableEq T] [DecidableEq O] in
theorem Kept.rotate (h : s.Kept idle U) (t : T) :
    Kept { s with toSched := s.toSched.readyListHeadToTail t } idle U := by
  have hboss : boss { s with toSched := s.toSched.readyListHeadToTail t } = s.boss := boss_congr (fun _ => rfl) rfl rfl
  refine ⟨⟨h.placed.rotate,h.rdy,h.base,h.bases,h.owned.congr rfl rfl rfl fun _ => List.Subset.refl _,h.locked⟩,?_,
    fun o ho => (h.waits o ho).congr rfl (List.Subset.refl _) fun _ _ => ⟨rfl,rfl⟩,h.ticks.congr rfl rfl rfl⟩
  unfold Inherits
  rw [hboss]
  exact h.inherits

omit [DecidableEq O] in
/-- The time slice of the task that runs is used up, and then the next of its priority has its turn. -/
theorem Kept.timeSliceUpdate (h : s.Kept idle U) :
    s.timeSliceUpdate.Kept idle U ∧ ∃ r ts, s.timeSliceUpdate = { s with ready := r, timeSlice := ts } := by
  unfold Kernel.timeSliceUpdate
  cases hl : s.ready (s.prio s.active) with
  | nil => exact ⟨h,s.ready,s.timeSlice,rfl⟩
  | cons t l =>
    cases l with
    | nil => exact ⟨h,s.ready,s.timeSlice,rfl⟩
    | cons u l =>
      simp only
      generalize (if 0 < s.timeSlice t then s.timeSlice t - 1 else s.timeSlice t) = slice
      split_ifs
      · exact ⟨h,s.ready,s.timeSlice,rfl⟩
      · exact ⟨h.congr rfl rfl rfl rfl rfl rfl,s.ready,_,rfl⟩
      · exact ⟨(h.rotate t).congr rfl rfl rfl rfl rfl rfl,_,_,rfl⟩

/-- krhino_tick_proc in an interrupt, or before the first task is started: it goes through the tick
list to its end, and what holds between the calls holds again. -/
theorem krhinoTickProc_passed (h : s.Sound idle) (hin : 0 < s.intrptNested ∨ s.running = false) :
    ∃ s', s.krhinoTickProc = some (.done .success,s') ∧ s'.Sound idle ∧ Passed s s' := by
  let s0 : Kernel T O := { s with tickCount := s.tickCount + 1#64 }
  have h0 : s0.Ticking idle := by
    refine ⟨⟨h.placed.congr rfl rfl rfl rfl rfl rfl rfl rfl rfl,h.rdy,h.base,h.bases,?_,h.locked⟩,h.inherits,?_⟩
    · exact h.owned.congr rfl rfl rfl fun _ => List.Subset.refl _
    · exact fun o => (h.waits o (Set.notMem_empty o)).congr rfl (List.Subset.refl _) fun _ _ => ⟨rfl,rfl⟩
  obtain ⟨s1,hs1,h1,hsame,hlist,hstate,hblk,hobj⟩ := tickLoop_spec s.tickList h0 rfl
  have hdue : ∀ t ∈ s.tickList, s0.due t = true ↔ s.ticksLeft t = 1 ∨ 2 ^ 63 < s.ticksLeft t := by
    intro t ht
    rw [← (tick_left (h.ticks.left t ht)).2]
    exact decide_eq_true_iff
  have hleft : ∀ t ∈ s.tickList, s1.ticksLeft t = s.ticksLeft t - 1 := by
    intro t ht
    rw [← (tick_left (h.ticks.left t ht)).1]
    unfold ticksLeft
    rw [hsame.tickMatch,hsame.count]
  -- those that are left come behind one whose time is not up
  have hticks : s1.TickKept := by
    refine ⟨?_,fun t ht => ?_⟩
    · rw [hlist]
      refine Ordered.sublist ?_ (List.dropWhile_sublist _)
      refine List.Pairwise.imp_of_mem (fun {x y} hx hy hle => ?_) h.ticks.ordered
      rw [hleft x hx,hleft y hy]
      exact Nat.sub_le_sub_right hle 1
    · rw [hlist] at ht
      obtain ⟨y,hy,hnot,hle⟩ := h.ticks.ordered.mem_dropWhile ht
      have hpos := h.ticks.left y hy
      have hmore := mt (hdue y hy).mpr (by simp [hnot])
      rw [hleft t (List.dropWhile_subset _ ht)]
      omega
  have hkept : s1.Kept idle ∅ := ⟨h1.toSteady,h1.inherits,fun o _ => h1.waits o,hticks⟩
  obtain ⟨hk,r,ts,heq⟩ := hkept.timeSliceUpdate
  rw [heq] at hk
  have hrdy : ∀ t, s.taskState t = .rdy → s1.taskState t = .rdy := by
    intro t ht
    rw [hstate]
    have ht0 : s0.taskState t = .rdy := ht
    split_ifs
    · exact congrArg TaskStat.ended ht0
    · exact ht0
  have hidle : Sched.IdleKept { s1.toSched with ready := r } idle := hk.idleKept
  refine ⟨{ s1 with ready := r, timeSlice := ts },?_,⟨hk,hk.placed,hidle,fun hor => ?_,fun hrun hzero => ?_⟩,
    hsame.obj,hsame.tickMatch,hsame.count,fun t ht hone => ?_,fun t => ?_,hsame.told⟩
  · unfold krhinoTickProc tickListUpdate
    rw [hs1,Option.map_some,heq]
  · have hact : s.intrptNested = 0 ∨ 0 < s.schedLock := by
      change s1.intrptNested = 0 ∨ 0 < s1.schedLock at hor
      rwa [hsame.nested,hsame.lock] at hor
    change s1.taskState s1.active = .rdy
    rw [hsame.active]
    exact hrdy _ (h.current.rdy hact)
  · change s1.running = true at hrun
    change s1.intrptNested = 0 at hzero
    rw [hsame.running] at hrun
    rw [hsame.nested] at hzero
    rcases hin with hin | hin
    · exact absurd hzero hin.ne'
    · exact absurd (hrun.symm.trans hin) (by decide)
  · have hmem : t ∈ s.tickList.takeWhile s0.due := by
      refine h.ticks.ordered.mem_takeWhile ht fun y hy hle => (hdue y hy).mpr (Or.inl ?_)
      have hpos := h.ticks.left y hy
      omega
    exact ⟨(hstate t).trans (if_pos hmem),(hblk t).trans (if_pos hmem)⟩
  · by_cases hmem : t ∈ s.tickList.takeWhile s0.due
    · have htick := List.takeWhile_subset _ hmem
      exact Or.inr ⟨htick,(hdue t htick).mp (List.mem_takeWhile_imp hmem),(hstate t).trans (if_pos hmem),
        (hblk t).trans (if_pos hmem)⟩
    · refine Or.inl ⟨(hstate t).trans (if_neg hmem),(hblk t).trans (if_neg hmem),?_⟩
      unfold waitsFor
      simp only [hstate t,if_neg hmem,hobj t hmem,s0]

end Ticks

end Kernel

end FmacSdk.Rhino
