import FmacSdk.Rhino.KernelKept

/-! # Calls about objects that nobody holds

Semaphores, event flags and the queues: a call takes what is there, waits for it, or
brings something and ends waits. Nobody is left to wait for what is there.
-/
namespace FmacSdk.Rhino
open Sched RingStream
variable {T O : Type*} [DecidableEq T] [DecidableEq O]

/-- The object is a mutex, held or not. -/
def Kobj.isMutex : Kobj T → Bool
  | .mutex _ _ => true
  | _ => false

namespace Kernel

variable {s s' : Kernel T O} {t idle : T} {o : O} {U E : Set O} {D : Set T} {k k' : Kobj T} {ret : Ret} {n : ℕ}
  {blk : BlkState} {wk : Wakes} {c : Scope T O} {time : BitVec 64} {cur want x : BitVec 32} {opt : EventOpt}

omit [DecidableEq T] in
/-- The object holds something else, and whoever waits still waits with reason. -/
theorem Sound.setObj (h : s.Sound idle) (hobj : s.obj o = k) (hk : Kobj.isMutex k = false)
    (hk' : Kobj.isMutex k' = false) (hw : (s.setObj o k').Waits o) : (s.setObj o k').Sound idle := by
  have hno : ∀ u n, s.obj o ≠ .mutex u n := by
    rintro u n heq
    rw [← hobj,heq] at hk
    cases hk
  have hno' : ∀ u n, k' ≠ .mutex u n := by
    rintro u n rfl
    cases hk'
  have hset := (h.toKept.mono (Set.empty_subset {o})).setObj (fun u => hno (some u)) (fun u => hno' (some u))
    fun n heq => absurd heq (hno' none n)
  exact ⟨hset.close hw,h.current⟩

omit [DecidableEq T] in
theorem Sound.setObj_serves (h : s.Sound idle) (hobj : s.obj o = k) (hk : Kobj.isMutex k = false)
    (hk' : Kobj.isMutex k' = false) (hw : (s.setObj o k').Waits o) (ret : Ret) :
    s.Serves idle D {o} wk (some (ret,s.setObj o k')) := by
  refine h.serves (h.setObj hobj hk hk' hw).toKept rfl rfl (fun _ ho => setObj_of_ne ho) (fun o' _ => keeps_setObj ?_ o') ret
  refine Scope.Keeps.of_ne ?_
  rintro u n heq
  rw [← hobj,heq] at hk
  cases hk

omit [DecidableEq T] [DecidableEq O] in
/-- Nobody waits for it. -/
theorem Waits.of_nil (h : s.blkList o = []) : s.Waits o := by
  intro t ht
  rw [h] at ht
  cases ht

/-- The task that runs waits for an object. -/
theorem Sound.block {s₀ : Kernel T O} (h : s.Sound idle) (hidle : s.active ≠ idle) (hin : s.intrptNested = 0)
    (hlock : s.schedLock = 0) (htime : time ≠ noWait) (hobj : s.obj o = k) (hk : Kobj.isMutex k = false)
    (hlacks : s.Lacks o s.active) (hs : s.toSched = s₀.toSched) (hnotes : s.notes = s₀.notes) (hsame : s.obj = s₀.obj) :
    s₀.Serves idle D E wk ((s.pend o time).exitSched .blocked) := by
  have hpos : 0#64 < time := by
    rw [BitVec.lt_def]
    exact Nat.pos_of_ne_zero fun h0 => htime (BitVec.eq_of_toNat_eq h0)
  have hrdy := h.current.rdy (Or.inl hin)
  have hno : ∀ u n, s.obj o ≠ .mutex u n := by
    rintro u n heq
    rw [← hobj,heq] at hk
    cases hk
  have hfree : s.active ∈ s₀.Untimed := hs ▸ untimed_of_rdy h.placed hrdy
  have hsched : Resting (s₀.scope D E wk) s₀ s :=
    Resting.congr (by rw [hs]) (by rw [hs]) (by rw [hs]) (by rw [hs]) hnotes (fun o _ => congrFun hsame o)
      fun _ _ _ => hsame ▸ Scope.Keeps.refl _ _
  have hcaller : s.active = s₀.active := by rw [hs]
  exact (h.toKept.pend hrdy hidle hlock hpos hno hlacks).serves_exit (hsched.trans (resting_pend hrdy hpos hfree hcaller)) _

/-- The tasks at the head of the wait list are woken, and the next one is chosen. -/
theorem Sound.wake (h : s.Sound idle) (hobj : s.obj o = k) (hk : Kobj.isMutex k = false)
    {f : Kernel T O → T → Kernel T O} (hf : Tells f)
    (hnote : ∀ (s : Kernel T O) t, wk.note ((Kernel.endWait (f s t) t wk.blk).notes t)) (n : ℕ) (ret : Ret) :
    s.Serves idle D {o} wk ((pendTaskEndAll f wk.blk o n s).bind fun s => s.exitSched ret) := by
  have hno : ∀ u n, s.obj o ≠ .mutex u n := by
    rintro u n heq
    rw [← hobj,heq] at hk
    cases hk
  have hnone : ∀ t ∈ s.blkList o, s.boss t = none := fun t ht => boss_of_obj h.placed ht fun u => hno (some u)
  obtain ⟨s',hs',hk',hr,-,-⟩ := h.toKept.pendTaskEndAll (c := s.scope D {o} wk) hf wk.blk n hnone (Set.mem_singleton o) rfl
    hnote fun _ => hno
  rw [hs',Option.bind_some]
  exact hk'.serves_exit hr ret

/-! ## Creation and deletion -/

omit [DecidableEq T] in
theorem objCreate_sound (h : s.Sound idle) (hnone : s.obj o = .none) (hk : ∀ u n, k ≠ .mutex (some u) n)
    (flag : AllocFlag) : (s.objCreate o k flag).Sound idle := by
  have hnil : s.blkList o = [] := by
    refine List.eq_nil_iff_forall_not_mem.mpr fun t ht => ?_
    have hl := h.waits o (Set.notMem_empty o) t ht
    simp only [Lacks,hnone] at hl
  have hset : (s.setObj o k).Kept idle {o} := by
    refine (h.toKept.mono (Set.empty_subset {o})).setObj ?_ hk fun _ _ => hnil
    simp [hnone]
  have hcreate : s.objCreate o k flag = { s.setObj o k with objAllocFlag := Function.update s.objAllocFlag o flag } := by
    simp only [objCreate,Kernel.setObj,← hnil,Function.update_eq_self]
  rw [hcreate]
  have hkept : Kept { s.setObj o k with objAllocFlag := Function.update s.objAllocFlag o flag } idle ∅ :=
    (hset.close (Waits.of_nil hnil)).congr rfl rfl rfl rfl rfl rfl
  exact ⟨hkept,h.current⟩

/-- Whoever waited for an object that is deleted does no longer. -/
theorem Kept.delete {s₀ : Kernel T O} (h : s.Kept idle {o}) (ho : s.obj o = .none)
    (hr : Resting (s₀.scope D {o} .del) s₀ s) (ret : Ret) :
    s₀.Serves idle D {o} .del ((s.pendTaskRmAll o).bind fun s => s.exitSched ret) := by
  have hnone : ∀ t ∈ s.blkList o, s.boss t = none := fun t ht => boss_of_obj h.placed ht (by simp [ho])
  obtain ⟨s',hs',hk',hr',-,hdrop⟩ := h.pendTaskEndAll (c := s₀.scope D {o} .del) tells_nothing .del (s.blkList o).length
    hnone (Set.mem_singleton o) rfl (fun _ _ => trivial) fun hb => absurd hb scope_del
  rw [pendTaskRmAll,hs',Option.bind_some]
  rw [List.drop_length] at hdrop
  exact (hk'.close (Waits.of_nil hdrop)).serves_exit (hr.trans hr') ret

theorem objDel_serves (h : s.Sound idle) {isKind : Kobj T → Bool} (hkind : ∀ k, isKind k = true → Kobj.isMutex k = false)
    (flag : AllocFlag) (o : O) : s.Serves idle ∅ {o} .del (s.objDel isKind flag o) := by
  unfold objDel
  split_ifs with hin htype hflag
  · exact h.same _
  · exact h.same _
  · exact h.same _
  have hk : Kobj.isMutex (s.obj o) = false := hkind _ (by simpa using htype)
  have hno : ∀ u n, s.obj o ≠ .mutex u n := by
    rintro u n heq
    rw [heq] at hk
    cases hk
  have hset : (s.setObj o .none).Kept idle {o} :=
    (h.toKept.mono (Set.empty_subset {o})).setObj (fun u => hno (some u)) (by simp) (by simp)
  exact hset.delete setObj_self (resting_setObj (Set.mem_singleton o) fun hb => absurd hb scope_del) _

/-! ## Semaphores -/

theorem semGive_serves (h : s.Sound idle) (o : O) (wakeAll : Bool) :
    s.Serves idle ∅ {o} ⟨.finish,fun _ => ∃ count peak, s.obj o = .sem count peak⟩ (s.semGive o wakeAll) := by
  unfold semGive
  cases hobj : s.obj o with
  | sem count peak =>
    by_cases hnil : s.blkList o = []
    · simp only [if_pos hnil]
      by_cases hmax : count = semCountMax
      · rw [if_pos hmax]
        exact h.same _
      · rw [if_neg hmax]
        exact h.setObj_serves hobj rfl rfl (Waits.of_nil hnil) _
    · simp only [if_neg hnil]
      refine h.wake hobj rfl tells_nothing ?_ _ _
      exact fun _ _ => ⟨_,_,rfl⟩
  | _ => exact h.same _

omit [DecidableEq T] [DecidableEq O] in
/-- Nobody waits for a semaphore that has something. -/
theorem Sound.blkList_sem (h : s.Sound idle) {count peak : ℕ} (hobj : s.obj o = .sem count peak) (hpos : 0 < count) :
    s.blkList o = [] := by
  refine List.eq_nil_iff_forall_not_mem.mpr fun t ht => ?_
  have hl := h.waits o (Set.notMem_empty o) t ht
  simp only [Lacks,hobj] at hl
  omega

theorem krhinoSemTake_serves (h : s.Sound idle) (o : O) (ticks : BitVec 64)
    (hidle : s.intrptNested = 0 → ticks ≠ noWait → s.active ≠ idle) :
    s.Serves idle ∅ {o} wk (s.krhinoSemTake o ticks) := by
  unfold krhinoSemTake
  by_cases hin : 0 < s.intrptNested
  · rw [if_pos hin]
    exact h.same _
  rw [if_neg hin]
  cases hobj : s.obj o with
  | sem count peak =>
    simp only
    by_cases hpos : 0 < count
    · rw [if_pos hpos]
      exact h.setObj_serves hobj rfl rfl (Waits.of_nil (h.blkList_sem hobj hpos)) _
    rw [if_neg hpos]
    split_ifs with hwait hlock
    · exact h.same _
    · exact h.same _
    · refine h.block (hidle (by omega) hwait) (by omega) (by omega) hwait hobj rfl ?_ rfl rfl rfl
      simp only [Lacks,hobj]
      omega
  | _ => exact h.same _

omit [DecidableEq T] in
theorem krhinoSemCountSet_serves (h : s.Sound idle) (o : O) (count : ℕ) :
    s.Serves idle ∅ {o} wk (s.krhinoSemCountSet o count) := by
  unfold krhinoSemCountSet
  by_cases hin : 0 < s.intrptNested
  · rw [if_pos hin]
    exact h.same _
  rw [if_neg hin]
  cases hobj : s.obj o with
  | sem cur peak =>
    simp only
    by_cases hwait : cur = 0 ∧ s.blkList o ≠ []
    · rw [if_pos hwait]
      exact h.same _
    · rw [if_neg hwait]
      have hnil : s.blkList o = [] := by
        by_cases hzero : cur = 0
        · exact not_not.mp fun hne => hwait ⟨hzero,hne⟩
        · exact h.blkList_sem hobj (Nat.pos_of_ne_zero hzero)
      exact h.setObj_serves hobj rfl rfl (Waits.of_nil hnil) _
  | _ => exact h.same _

/-! ## Event flags -/

/-- Fewer flags do not help. -/
theorem eventHolds_of_and (h : eventHolds (cur &&& x) want opt = true) : eventHolds cur want opt = true := by
  unfold eventHolds at h ⊢
  by_cases hand : opt.isAnd = true
  · simp only [hand,if_true,decide_eq_true_eq] at h ⊢
    rw [← h]
    ext i
    simpa using fun hcur _ _ => hcur
  · simp only [hand,Bool.false_eq_true,if_false,decide_eq_true_eq] at h ⊢
    intro hzero
    refine h ?_
    rw [BitVec.and_assoc,BitVec.and_comm x want,← BitVec.and_assoc,hzero,BitVec.zero_and]

omit [DecidableEq T] in
/-- Whoever waits for flags still does where there are fewer of them. -/
theorem Waits.fewer (h : s.Waits o) (hobj : s.obj o = .event cur) (x : BitVec 32) :
    (s.setObj o (.event (cur &&& x))).Waits o := by
  intro t ht
  have hl := h t ht
  simp only [Lacks,hobj,setObj_self] at hl ⊢
  rw [Bool.eq_false_iff] at hl ⊢
  exact fun hh => hl (eventHolds_of_and hh)

omit [DecidableEq T] [DecidableEq O] in
/-- What the task that runs asks for is noted. -/
theorem Sound.ask [DecidableEq T] (h : s.Sound idle) (hin : s.intrptNested = 0) (want : BitVec 32) (opt : EventOpt) :
    Sound { s with
      pendOption := Function.update s.pendOption s.active opt
      pendFlags := Function.update s.pendFlags s.active want } idle := by
  have hrdy := h.current.rdy (Or.inl hin)
  have hnot := (h.placed.task s.active).not_blk (by simp [hrdy,TaskStat.pending])
  refine ⟨⟨h.toSteady.congr rfl rfl rfl rfl,h.inherits,fun o ho => (h.waits o ho).congr rfl (List.Subset.refl _) ?_,
    h.ticks⟩,h.current⟩
  intro t ht
  have hne : t ≠ s.active := fun heq => hnot o (heq ▸ ht)
  exact ⟨Function.update_of_ne hne _ _,Function.update_of_ne hne _ _⟩

theorem krhinoEventGet_serves (h : s.Sound idle) (o : O) (flags : BitVec 32) (opt : EventOpt) (ticks : BitVec 64)
    (hidle : s.intrptNested = 0 → ticks ≠ noWait → s.active ≠ idle) :
    s.Serves idle ∅ {o} wk (s.krhinoEventGet o flags opt ticks) := by
  unfold krhinoEventGet
  by_cases hin : 0 < s.intrptNested
  · rw [if_pos hin]
    exact h.same _
  rw [if_neg hin]
  cases hobj : s.obj o with
  | event cur =>
    simp only
    by_cases hholds : eventHolds cur flags opt = true
    · rw [if_pos hholds]
      have hw := h.waits o (Set.notMem_empty o)
      by_cases hclear : opt.clears = true
      · rw [if_pos hclear]
        exact h.setObj_serves hobj rfl rfl (hw.fewer hobj _) _
      · rw [if_neg hclear]
        have hsame := hw.fewer hobj (BitVec.allOnes 32)
        rw [BitVec.and_allOnes] at hsame
        exact h.setObj_serves hobj rfl rfl hsame _
    rw [if_neg hholds]
    split_ifs with hwait hlock
    · exact h.same _
    · exact h.same _
    · have hnest := Nat.eq_zero_of_not_pos hin
      refine (h.ask hnest flags opt).block (hidle hnest hwait) hnest (Nat.eq_zero_of_not_pos hlock) hwait hobj rfl ?_ rfl rfl rfl
      simpa only [Lacks,hobj,Function.update_self,Bool.eq_false_iff] using hholds
  | _ => exact h.same _

/-- The loop ends the waits of those whose flags there are, and takes away what they clear. -/
theorem eventSetLoop_kept (cur : BitVec 32) (l : List T) (flags : BitVec 32) (h : s.Kept idle {o}) (hl : l.Nodup)
    (hin : ∀ t ∈ l, t ∈ s.blkList o) (ho : ∀ u n, s.obj o ≠ .mutex u n) (hc : o ∈ c.objs) (hblk : .finish = c.blk)
    (hnote : ∀ y : BlkState × Msg × ℕ × BitVec 32, y.2.2.2 = cur → c.note y) :
    ∃ x s', eventSetLoop cur l flags s = some (flags &&& x,s') ∧ s'.Kept idle {o} ∧
      Resting c s s' ∧ s'.obj = s.obj ∧ s'.pendFlags = s.pendFlags ∧ s'.pendOption = s.pendOption ∧
      ∀ t ∈ s'.blkList o, t ∈ s.blkList o ∧ (t ∈ l → eventHolds cur (s.pendFlags t) (s.pendOption t) = false) := by
  induction l generalizing s flags with
  | nil =>
    refine ⟨BitVec.allOnes 32,s,?_,h,Resting.refl ..,rfl,rfl,rfl,fun t ht => ⟨ht,fun hnil => by cases hnil⟩⟩
    rw [eventSetLoop,BitVec.and_allOnes]
  | cons t l ih =>
    obtain ⟨hfirst,hl⟩ := List.nodup_cons.mp hl
    rw [eventSetLoop]
    by_cases hholds : eventHolds cur (s.pendFlags t) (s.pendOption t) = true
    · rw [if_pos hholds]
      have ht := hin t List.mem_cons_self
      have hp : (s.taskState t).pending = true := (((h.placed.task t).blk o).mp ht).1
      let s1 : Kernel T O := { s with actlFlags := Function.update s.actlFlags t cur }
      have hk1 : s1.Kept idle {o} := h.congr rfl rfl rfl rfl rfl rfl
      have hboss : s1.boss t = none := boss_of_obj hk1.placed ht fun u => ho (some u)
      have hk2 : (s1.endWait t .finish).Kept idle {o} := hk1.endWait hp hboss
      have hone : Resting c s (s1.endWait t .finish) := by
        refine resting_endWait h.placed ht hc hblk rfl rfl (fun x hx => ?_) (fun _ u i heq => absurd heq (ho u i))
          (hnote _ (Function.update_self ..))
        exact congrArg (fun a => (s.blkState x,s.msg x,s.bqMsgSize x,a)) (Function.update_of_ne hx _ _)
      have hsub : ∀ y ∈ (s1.endWait t .finish).blkList o, y ∈ s.blkList o :=
        fun y hy => List.Sublist.subset blkListRm_sublist hy
      have hout : t ∉ (s1.endWait t .finish).blkList o := notMem_blkListRm hk1.placed o
      have hrest : ∀ y ∈ l, y ∈ (s1.endWait t .finish).blkList o := by
        intro y hy
        have hyt : y ≠ t := ne_of_mem_of_not_mem hy hfirst
        have hu : Untouched s1.toSched (s1.toSched.blkListRm t) y := untouched_blkListRm hyt
        exact (hu.blk o).mpr (hin y (List.mem_cons_of_mem _ hy))
      obtain ⟨x,s',hloop,hk',hr,hobj,hf,hopt,hleft⟩ :=
        ih (if (s.pendOption t).clears then flags &&& ~~~s.pendFlags t else flags) hk2 hl hrest ho
      refine ⟨(if (s.pendOption t).clears then ~~~s.pendFlags t else BitVec.allOnes 32) &&& x,s',?_,hk',
        hone.trans hr,hobj,hf,hopt,fun y hy => ?_⟩
      · simp only [pendTaskEnd_eq hp,Option.bind_some]
        refine hloop.trans ?_
        split_ifs
        · rw [BitVec.and_assoc]
        · rw [BitVec.allOnes_and]
      · obtain ⟨hmem,hno⟩ := hleft y hy
        refine ⟨hsub y hmem,fun hyl => ?_⟩
        rcases List.mem_cons.mp hyl with rfl | hyl
        · exact absurd hmem hout
        · exact hno hyl
    · rw [if_neg hholds]
      obtain ⟨x,s',hloop,hk',hr,hobj,hf,hopt,hleft⟩ :=
        ih flags h hl (fun y hy => hin y (List.mem_cons_of_mem _ hy)) ho
      refine ⟨x,s',hloop,hk',hr,hobj,hf,hopt,fun y hy => ?_⟩
      obtain ⟨hmem,hno⟩ := hleft y hy
      refine ⟨hmem,fun hyl => ?_⟩
      rcases List.mem_cons.mp hyl with rfl | hyl
      · exact Bool.eq_false_iff.mpr hholds
      · exact hno hyl

/-- Whoever waited for an event finds its flags as they are set. -/
def eventWakes (k : Kobj T) (flags : BitVec 32) : Wakes :=
  ⟨.finish,fun y => ∃ cur, k = .event cur ∧ y.2.2.2 = cur ||| flags⟩

theorem krhinoEventSet_serves (h : s.Sound idle) (o : O) (flags : BitVec 32) (opt : EventOpt) :
    s.Serves idle ∅ {o} (eventWakes (s.obj o) flags) (s.krhinoEventSet o flags opt) := by
  unfold krhinoEventSet
  by_cases hopt : opt ≠ .and ∧ opt ≠ .or
  · rw [if_pos hopt]
    exact h.same _
  rw [if_neg hopt]
  cases hobj : s.obj o with
  | event cur =>
    simp only
    by_cases hand : opt.isAnd = true
    · rw [if_pos hand]
      exact h.setObj_serves hobj rfl rfl ((h.waits o (Set.notMem_empty o)).fewer hobj _) _
    rw [if_neg hand]
    obtain ⟨x,s',hloop,hk,hr,hobj',hf,hopt',hleft⟩ := eventSetLoop_kept (o := o)
      (c := s.scope ∅ {o} (eventWakes (.event cur : Kobj T) flags)) (cur ||| flags)
      (s.blkList o) (cur ||| flags) (h.toKept.mono (Set.empty_subset {o})) (h.placed.lists.blk o) (fun _ ht => ht)
      (by simp [hobj]) (Set.mem_singleton o) rfl fun y hy => ⟨cur,rfl,hy⟩
    rw [hloop,Option.bind_some]
    have hk' : (s'.setObj o (.event ((cur ||| flags) &&& x))).Kept idle {o} := by
      refine hk.setObj ?_ (by simp) (by simp)
      simp [hobj',hobj]
    have hset : Resting (s.scope ∅ {o} (eventWakes (.event cur : Kobj T) flags)) s'
        (s'.setObj o (.event ((cur ||| flags) &&& x))) :=
      resting_setObj (Set.mem_singleton o) fun _ => Scope.Keeps.of_ne (by simp [hobj',hobj])
    refine (hk'.close fun t ht => ?_).serves_exit (hr.trans hset) _
    obtain ⟨hmem,hno⟩ := hleft t ht
    have hfalse := hno hmem
    have hflags : (s'.setObj o (.event ((cur ||| flags) &&& x))).pendFlags t = s.pendFlags t := congrFun hf t
    have hoption : (s'.setObj o (.event ((cur ||| flags) &&& x))).pendOption t = s.pendOption t := congrFun hopt' t
    simp only [Lacks,setObj_self]
    rw [hflags,hoption,Bool.eq_false_iff]
    rw [Bool.eq_false_iff] at hfalse
    exact fun hh => hfalse (eventHolds_of_and hh)
  | _ => exact h.same _

/-! ## Queues -/

theorem msgSend_serves (h : s.Sound idle) (o : O) (data : ℕ → BitVec 8) (wakeAll : Bool) :
    s.Serves idle ∅ {o} ⟨.finish,fun y => (∃ q, s.obj o = .queue q) ∧ y.2.1 = cells data 0 ptrSize⟩
      (s.msgSend o data wakeAll) := by
  unfold msgSend
  cases hobj : s.obj o with
  | queue q =>
    simp only
    by_cases hfull : q.size ≤ q.curNum
    · rw [if_pos hfull]
      exact h.same _
    rw [if_neg hfull]
    by_cases hnil : s.blkList o = []
    · rw [if_pos hnil]
      exact h.setObj_serves hobj rfl rfl (Waits.of_nil hnil) _
    · rw [if_neg hnil]
      refine h.wake hobj rfl (tells_msg _) ?_ _ _
      exact fun _ _ => ⟨⟨q,rfl⟩,Function.update_self ..⟩
  | _ => exact h.same _

theorem krhinoQueueRecv_serves (h : s.Sound idle) (o : O) (ticks : BitVec 64)
    (hidle : s.intrptNested = 0 → ticks ≠ noWait → s.active ≠ idle) :
    s.Serves idle ∅ {o} wk (s.krhinoQueueRecv o ticks) := by
  unfold krhinoQueueRecv
  by_cases hin : 0 < s.intrptNested ∧ ticks ≠ noWait
  · rw [if_pos hin]
    exact h.same _
  rw [if_neg hin]
  cases hobj : s.obj o with
  | queue q =>
    simp only
    by_cases hpos : 0 < q.curNum
    · rw [if_pos hpos]
      have hnil : s.blkList o = [] := by
        refine List.eq_nil_iff_forall_not_mem.mpr fun t ht => ?_
        have hl := h.waits o (Set.notMem_empty o) t ht
        simp only [Lacks,hobj] at hl
        omega
      exact h.setObj_serves hobj rfl rfl (Waits.of_nil hnil) _
    rw [if_neg hpos]
    by_cases hwait : ticks = noWait
    · rw [if_pos hwait]
      exact h.same _
    rw [if_neg hwait]
    split_ifs with hlock
    · exact h.same _
    · have hnest : s.intrptNested = 0 := Nat.eq_zero_of_not_pos fun hpos => hin ⟨hpos,hwait⟩
      refine h.block (hidle hnest hwait) hnest (by omega) hwait hobj rfl ?_ rfl rfl rfl
      simp only [Lacks,hobj]
      omega
  | _ => exact h.same _

omit [DecidableEq T] in
theorem krhinoQueueFlush_serves (h : s.Sound idle) (o : O) : s.Serves idle ∅ {o} wk (s.krhinoQueueFlush o) := by
  unfold krhinoQueueFlush
  by_cases hin : 0 < s.intrptNested
  · rw [if_pos hin]
    exact h.same _
  rw [if_neg hin]
  cases hobj : s.obj o with
  | queue q =>
    refine h.setObj_serves hobj rfl rfl (fun t ht => ?_) _
    simp only [Lacks,setObj_self]
  | _ => exact h.same _

/-! ## Buffer queues -/

theorem krhinoBufQueueSend_serves (h : s.Sound idle) (o : O) (data : ℕ → BitVec 8) (len : ℕ) :
    s.Serves idle ∅ {o} ⟨.finish,fun y => (∃ q, s.obj o = .bufQueue q) ∧ y.2.1 = cells data 0 len ∧ y.2.2.1 = len⟩
      (s.krhinoBufQueueSend o data len) := by
  unfold krhinoBufQueueSend
  cases hobj : s.obj o with
  | bufQueue q =>
    simp only
    by_cases hlen : q.maxMsgSize < len
    · rw [if_pos hlen]
      exact h.same _
    rw [if_neg hlen]
    by_cases hzero : len = 0
    · rw [if_pos hzero]
      exact h.same _
    rw [if_neg hzero]
    cases hl : s.blkList o with
    | nil =>
      simp only
      by_cases hpush : (ringbufPush q.ringbuf data len).1 ≠ .success
      · rw [if_pos hpush]
        exact h.same _
      · rw [if_neg hpush]
        exact h.setObj_serves hobj rfl rfl (Waits.of_nil hl) _
    | cons t l =>
      let s1 : Kernel T O :=
        { s with
          msg := Function.update s.msg t (cells data 0 len)
          bqMsgSize := Function.update s.bqMsgSize t len }
      have hk1 : s1.Kept idle ∅ := h.toKept.congr rfl rfl rfl rfl rfl rfl
      have ht : t ∈ s1.blkList o := by
        change t ∈ s.blkList o
        rw [hl]
        exact List.mem_cons_self
      have hp : (s.taskState t).pending = true := (((h.placed.task t).blk o).mp ht).1
      have hboss : s1.boss t = none := boss_of_obj hk1.placed ht (by simp [s1,hobj])
      simp only [pendTaskEnd_eq hp,Option.bind_some]
      refine (hk1.endWait hp hboss).serves_exit ?_ _
      refine resting_endWait h.placed ht (Set.mem_singleton o) rfl rfl rfl (fun x hx => ?_) (by simp [hobj])
        ⟨⟨q,rfl⟩,Function.update_self ..,Function.update_self ..⟩
      simp only [notes,s1,Function.update_of_ne hx]
  | _ => exact h.same _

theorem krhinoBufQueueRecv_serves (h : s.Sound idle) (o : O) (ticks : BitVec 64)
    (hidle : s.intrptNested = 0 → ticks ≠ noWait → s.active ≠ idle) :
    s.Serves idle ∅ {o} wk (s.krhinoBufQueueRecv o ticks) := by
  unfold krhinoBufQueueRecv
  by_cases hin : 0 < s.intrptNested ∧ ticks ≠ noWait
  · rw [if_pos hin]
    exact h.same _
  rw [if_neg hin]
  cases hobj : s.obj o with
  | bufQueue q =>
    simp only
    by_cases hsome : (!ringbufIsEmpty q.ringbuf) = true
    · rw [if_pos hsome]
      have hnil : s.blkList o = [] := by
        refine List.eq_nil_iff_forall_not_mem.mpr fun t ht => ?_
        have hl := h.waits o (Set.notMem_empty o) t ht
        simp only [Lacks,hobj] at hl
        simp [hl] at hsome
      exact h.setObj_serves hobj rfl rfl (Waits.of_nil hnil) _
    rw [if_neg hsome]
    by_cases hwait : ticks = noWait
    · rw [if_pos hwait]
      exact h.same _
    rw [if_neg hwait]
    split_ifs with hlock
    · exact h.same _
    · have hnest : s.intrptNested = 0 := Nat.eq_zero_of_not_pos fun hpos => hin ⟨hpos,hwait⟩
      refine h.block (hidle hnest hwait) hnest (by omega) hwait hobj rfl ?_ rfl rfl rfl
      simpa only [Lacks,hobj,Bool.not_eq_true',Bool.not_eq_false] using hsome
  | _ => exact h.same _

omit [DecidableEq T] in
theorem krhinoBufQueueFlush_serves (h : s.Sound idle) (o : O) : s.Serves idle ∅ {o} wk (s.krhinoBufQueueFlush o) := by
  unfold krhinoBufQueueFlush
  by_cases hin : 0 < s.intrptNested
  · rw [if_pos hin]
    exact h.same _
  rw [if_neg hin]
  cases hobj : s.obj o with
  | bufQueue q =>
    refine h.setObj_serves hobj rfl rfl (fun t ht => ?_) _
    simp [Lacks,setObj_self,ringbufIsEmpty,ringbufReset]
  | _ => exact h.same _

end Kernel

end FmacSdk.Rhino
