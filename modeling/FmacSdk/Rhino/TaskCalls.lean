import FmacSdk.Rhino.MutexPass

/-! # Calls about tasks

Tasks are created, get another priority and are deleted. A task that is deleted hands
on what it holds, and whoever it waited for may have to run at a lower priority again.
-/
namespace FmacSdk.Rhino
open WaitList Donation Sched
variable {T O : Type*} [DecidableEq T] [DecidableEq O]

namespace Kernel

variable {s s' : Kernel T O} {t u w idle : T} {m : O} {c : Scope T O} {wk : Wakes} {k : Kobj T} {n : ℕ}

/-! ## Another priority -/

theorem krhinoTaskPriChange_serves (h : s.Sound idle) (hseed : s.taskState t ≠ .seed) (pri : ℕ) :
    s.Serves idle ∅ ∅ wk (s.krhinoTaskPriChange t pri) := by
  unfold krhinoTaskPriChange
  split_ifs with hidle hpri hdel hin
  · exact h.same _
  · exact h.same _
  · exact h.same _
  · exact h.same _
  have ht : t ∈ s.Live := by
    cases hst : s.taskState t <;> simp_all [Live,TaskStat.live]
  have hti : t ≠ idle := fun heq => hidle (heq ▸ h.idleKept.prio.ge)
  let s1 : Kernel T O := { s with bPrio := Function.update s.bPrio t pri }
  have hsteady : s1.Steady idle := by
    refine ⟨h.placed,h.rdy,?_,fun x hx hxi => ?_,h.owned.congr rfl rfl rfl fun _ => List.Subset.refl _,h.locked⟩
    · exact (Function.update_of_ne (Ne.symm hti) _ _).trans h.base
    · change Function.update s.bPrio t pri x < idlePri
      by_cases hxt : x = t
      · rw [hxt,Function.update_self]
        exact not_le.mp hpri
      · rw [Function.update_of_ne hxt]
        exact h.bases x hx hxi
  have hset : Settled (s1.Live \ {t}) s1.bPrio s1.boss s1.prio :=
    h.inherits.rebase fun x hx => Function.update_of_ne hx _ _
  have hb : ∀ w, s1.boss w = some t ↔ ∃ o ∈ s1.mutexList t, some o ≠ none ∧ w ∈ s1.blkList o := by
    intro w
    rw [boss_iff hsteady.placed hsteady.owned ht]
    simp
  have hleast : IsLeast (lent s1.bPrio s1.boss s1.prio t) (s.mutexPriLimit t pri) := by
    have hlook : ∀ l p q, s1.priLookLoop none l p q = s.priLookLoop none l p q :=
      @priLookLoop_congr T O s s1 _ rfl rfl none
    have hpri1 : s1.bPrio t = pri := Function.update_self ..
    have hl := look_isLeast hsteady.placed.lists.ordered hb
    rwa [hlook,hpri1] at hl
  obtain ⟨s2,hs2,hr,hsteady2,hinherits⟩ := hsteady.priChange ht hset hleast
  change s.Serves idle ∅ ∅ wk ((taskPriChange s1.priFuel s1 t (s.mutexPriLimit t pri)).bind fun s =>
    s.exitSched (.done .success))
  rw [hs2,Option.bind_some]
  have hwaits : ∀ o ∉ (∅ : Set O), s2.Waits o := by
    intro o ho
    have hw : s1.Waits o := h.waits o ho
    exact hr.waits hsteady.placed hsteady2.placed hw
  have hk : s2.Kept idle ∅ := ⟨hsteady2,hinherits,hwaits,hr.ticks (s := s1) h.ticks⟩
  have hsame : Resting (s.scope ∅ ∅ wk) s s1 :=
    Resting.congr rfl rfl rfl rfl rfl (fun _ _ => rfl) fun _ _ _ => Scope.Keeps.refl _ _
  exact hk.serves_exit (hsame.trans hr.resting) _

/-! ## Creation -/

omit [DecidableEq O] in
theorem toSched_taskSpawn (t : T) (prio ticks : ℕ) (autorun : Bool) (flag : AllocFlag) :
    (s.taskSpawn t prio ticks autorun flag).toSched = s.toSched.spawn t prio autorun := by
  unfold taskSpawn Sched.spawn
  cases autorun with
  | true => simp [Sched.readyListAddTail]
  | false => rfl

omit [DecidableEq O] in
theorem taskSpawn_obj (t : T) (prio ticks : ℕ) (autorun : Bool) (flag : AllocFlag) :
    (s.taskSpawn t prio ticks autorun flag).obj = s.obj ∧
      (s.taskSpawn t prio ticks autorun flag).bPrio = Function.update s.bPrio t prio ∧
      (s.taskSpawn t prio ticks autorun flag).mutexList = Function.update s.mutexList t [] ∧
      (s.taskSpawn t prio ticks autorun flag).pendFlags = Function.update s.pendFlags t 0#32 ∧
      (s.taskSpawn t prio ticks autorun flag).pendOption = Function.update s.pendOption t .or := by
  unfold taskSpawn
  cases autorun <;> exact ⟨rfl,rfl,rfl,rfl,rfl⟩

omit [DecidableEq O] in
/-- A task that did not exist holds nothing, waits for nothing and is lent nothing. -/
theorem Kept.taskSpawn (h : s.Kept idle ∅) (ht : (s.taskState t).live = false) {prio : ℕ} (hprio : prio < idlePri)
    (ticks : ℕ) (autorun : Bool) (flag : AllocFlag) : (s.taskSpawn t prio ticks autorun flag).Kept idle ∅ := by
  have hout : s.Nowhere t := nowhere_of_not_live h.placed ht
  have hsched := toSched_taskSpawn (s := s) t prio ticks autorun flag
  obtain ⟨hobj,hbase,hmutex,hflags,hopt⟩ := taskSpawn_obj (s := s) t prio ticks autorun flag
  generalize s.taskSpawn t prio ticks autorun flag = s' at hsched hobj hbase hmutex hflags hopt
  have hp' : s'.Placed := by
    rw [hsched]
    exact h.placed.spawn hout (hprio.trans (by decide)) autorun
  have hrdy : ∀ x, s.taskState x = .rdy → x ≠ t := by
    rintro x hx rfl
    simp [hx,TaskStat.live] at ht
  have hti : idle ≠ t := hrdy idle h.rdy
  have hstate : ∀ x, x ≠ t → s'.taskState x = s.taskState x := by
    intro x hx
    rw [hsched]
    exact Function.update_of_ne hx _ _
  have hown : (s'.taskState t).live = true ∧ (s'.taskState t).pending = false := by
    have hst : s'.taskState t = if autorun then .rdy else .suspended := by
      rw [hsched]
      exact Function.update_self ..
    rw [hst]
    cases autorun <;> exact ⟨rfl,rfl⟩
  have hlive : ∀ x, x ∈ s'.Live ↔ x = t ∨ x ∈ s.Live := by
    intro x
    by_cases hx : x = t
    · simp [hx,Live,hown.1]
    · simp [hx,Live,hstate x hx]
  have hfree : ∀ m n, s.obj m ≠ .mutex (some t) n := by
    intro m n hm
    have := (h.owned.live m t n hm).1
    simp [Live,ht] at this
  have hboss : s'.boss = s.boss := by
    funext x
    by_cases hx : x = t
    · rw [hx,boss_of_not_pending hown.2]
      refine (boss_of_not_pending ?_).symm
      cases hst : s.taskState t <;> simp_all [TaskStat.live,TaskStat.pending]
    · unfold boss
      rw [hstate x hx,hobj,hsched]
      simp [Sched.spawn,hx]
  have hprios : ∀ x, x ≠ t → s'.prio x = s.prio x := by
    intro x hx
    rw [hsched]
    exact Function.update_of_ne hx _ _
  have hblk : s'.blkList = s.blkList := by rw [hsched]; rfl
  have hsame : s'.tickList = s.tickList ∧ s'.tickCount = s.tickCount ∧ s'.active = s.active ∧
      s'.schedLock = s.schedLock := by
    rw [hsched]
    exact ⟨rfl,rfl,rfl,rfl⟩
  refine ⟨⟨hp',?_,?_,fun x hx hxi => ?_,⟨fun x hx m => ?_,fun x hx => ?_,fun m x n hm => ?_,fun m x n hm => ?_,
    fun m x n hm => ?_,fun m n hm => ?_⟩,fun hl => ?_⟩,fun x hx => ?_,fun o ho => ?_,?_⟩
  · rw [hstate idle hti]
    exact h.rdy
  · rw [hbase,Function.update_of_ne hti]
    exact h.base
  · rw [hbase]
    by_cases hxt : x = t
    · rwa [hxt,Function.update_self]
    · rw [Function.update_of_ne hxt]
      exact h.bases x (((hlive x).mp hx).resolve_left hxt) hxi
  · rw [hobj,hmutex]
    by_cases hxt : x = t
    · rw [hxt,Function.update_self]
      refine iff_of_false (by simp) ?_
      rintro ⟨n,hn⟩
      exact hfree m n hn
    · rw [Function.update_of_ne hxt]
      exact h.owned.holds x (((hlive x).mp hx).resolve_left hxt) m
  · rw [hmutex]
    by_cases hxt : x = t
    · rw [hxt,Function.update_self]
      exact List.nodup_nil
    · rw [Function.update_of_ne hxt]
      exact h.owned.nodup x (((hlive x).mp hx).resolve_left hxt)
  · rw [hobj] at hm
    obtain ⟨hl,hi⟩ := h.owned.live m x n hm
    exact ⟨(hlive x).mpr (Or.inr hl),hi⟩
  · rw [hobj] at hm
    exact h.owned.nested m x n hm
  · rw [hobj] at hm
    rw [hblk]
    exact h.owned.other m x n hm
  · rw [hobj] at hm
    rw [hblk]
    exact h.owned.free m n hm
  · rw [hsame.2.2.2] at hl
    rw [hsame.2.2.1,hstate _ (hrdy _ (h.locked hl))]
    exact h.locked hl
  · have hnobody : ∀ w, s.boss w ≠ some t := by
      intro w hw
      have := boss_live h.placed h.owned w t hw
      simp [Live,ht] at this
    rw [hboss,isLeast_lent_iff]
    by_cases hxt : x = t
    · subst hxt
      have hpx : s'.prio x = prio := by rw [hsched]; exact Function.update_self ..
      have hbx : s'.bPrio x = prio := by rw [hbase]; exact Function.update_self ..
      rw [hpx,hbx]
      exact ⟨Or.inl rfl,le_rfl,fun w hw => absurd hw (hnobody w)⟩
    · have hw : ∀ w, s.boss w = some x → s'.prio w = s.prio w := by
        intro w hw
        refine hprios w ?_
        rintro rfl
        obtain ⟨m,n,hm,-⟩ := (boss_eq_some h.placed).mp hw
        exact hout.blk m hm
      have hold := isLeast_lent_iff.mp (h.inherits x (((hlive x).mp hx).resolve_left hxt))
      rw [hprios x hxt,hbase,Function.update_of_ne hxt]
      refine ⟨hold.1.imp_right ?_,hold.2.1,fun w hwx => ?_⟩
      · rintro ⟨w,hwx,hwp⟩
        exact ⟨w,hwx,(hw w hwx).trans hwp⟩
      · rw [hw w hwx]
        exact hold.2.2 w hwx
  · refine (h.waits o ho).congr (by rw [hobj]) (hblk ▸ List.Subset.refl _) fun x hx => ?_
    have hxt : x ≠ t := by
      rintro rfl
      rw [hblk] at hx
      exact hout.blk o hx
    rw [hflags,hopt]
    exact ⟨Function.update_of_ne hxt _ _,Function.update_of_ne hxt _ _⟩
  · refine h.ticks.sublist (hsame.1 ▸ List.Sublist.refl _) (fun x hx => ?_) hsame.2.1
    have hxt : x ≠ t := fun heq => hout.tick (heq ▸ hsame.1 ▸ hx)
    rw [hsched]
    exact Function.update_of_ne hxt _ _

omit [DecidableEq O] in
/-- A task that did not exist waited for nothing. -/
theorem resting_taskSpawn (ht : (s.taskState t).live = false) (prio ticks : ℕ) (autorun : Bool)
    (flag : AllocFlag) (hfree : t ∈ c.timed) : Resting c s (s.taskSpawn t prio ticks autorun flag) := by
  have hsched := toSched_taskSpawn (s := s) t prio ticks autorun flag
  have hne : ∀ x, (s.taskState x).live = true → x ≠ t := by
    rintro x hx rfl
    simp [ht] at hx
  have hstate : ∀ x, x ≠ t → (s.taskSpawn t prio ticks autorun flag).taskState x = s.taskState x := by
    intro x hx
    rw [hsched]
    exact Function.update_of_ne hx _ _
  have hwaits : ∀ x, x ≠ t → (s.taskSpawn t prio ticks autorun flag).waitsFor x = s.waitsFor x := by
    intro x hx
    have hblk : (s.taskSpawn t prio ticks autorun flag).blkObj x = s.blkObj x := by
      rw [hsched]
      exact Function.update_of_ne hx _ _
    unfold waitsFor
    rw [hstate x hx,hblk]
  refine ⟨?_,fun x hx => ?_,fun x _ hx => ?_,fun x _ o _ hx => ?_,fun o _ => congrFun (taskSpawn_obj t prio ticks autorun flag).1 o,
    fun x _ hx => ?_,fun x _ hx _ => ?_,fun _ x hx hne m hm => ?_⟩
  · rw [hsched]
    rfl
  · rw [hsched]
    exact Function.update_of_ne (ne_of_mem_of_not_mem hfree hx).symm _ _
  · have hxt : x ≠ t := hne x (by cases hst : s.taskState x <;> simp_all [TaskStat.sleeping,TaskStat.live])
    rw [hstate x hxt]
    exact hx
  · have hxt : x ≠ t := hne x (by cases hst : s.taskState x <;> simp_all [waitsFor,TaskStat.pending,TaskStat.live])
    exact (hwaits x hxt).trans hx
  · exact (congrArg TaskStat.live (hstate x (hne x hx))).trans hx
  · have hxt := hne x hx
    refine Or.inl ⟨by rw [hstate x hxt],by rw [hstate x hxt],hwaits x hxt,?_⟩
    unfold notes taskSpawn
    cases autorun <;> simp [hxt,Sched.readyListAddTail]
  · have hsame : (s.taskSpawn t prio ticks autorun flag).obj m = s.obj m := congrFun (taskSpawn_obj t prio ticks autorun flag).1 m
    by_cases hxt : x = t
    · subst hxt
      rcases hm with ⟨hw,-⟩ | ⟨i,hv⟩
      · have hfree : (s.taskState x).pending = false := by
          cases hst : s.taskState x <;> simp_all [TaskStat.pending,TaskStat.live]
        rw [waitsFor_of_not_pending hfree] at hw
        cases hw
      · exact Or.inr ⟨i,hsame.trans hv⟩
    · refine hm.congr (hwaits x hxt) ?_ hx hne
      rw [hsame]
      exact Scope.Keeps.refl _ _

omit [DecidableEq O] in
theorem krhinoTaskCreate_serves (h : s.Sound idle) (ht : (s.taskState t).live = false) (prio ticks : ℕ)
    (autorun : Bool) (flag : AllocFlag) : s.Serves idle ∅ ∅ wk (s.krhinoTaskCreate t prio ticks autorun flag) := by
  unfold krhinoTaskCreate
  by_cases hmax : priMax ≤ prio
  · rw [if_pos hmax]
    exact h.same _
  rw [if_neg hmax]
  by_cases hin : 0 < s.intrptNested
  · rw [if_pos hin]
    exact h.same _
  rw [if_neg hin]
  by_cases hpri : prio = idlePri
  · rw [if_pos hpri]
    exact h.same _
  rw [if_neg hpri]
  have hless : prio < idlePri := by
    have hidle : idlePri + 1 = priMax := by decide
    omega
  have hk : (s.taskSpawn t prio ticks autorun flag).Kept idle ∅ := h.toKept.taskSpawn ht hless ticks autorun flag
  have hsched := toSched_taskSpawn (s := s) t prio ticks autorun flag
  have hne : ∀ x, (s.taskState x).live = true → x ≠ t := by
    rintro x hx rfl
    simp [ht] at hx
  have hr : Resting (s.scope ∅ ∅ wk) s (s.taskSpawn t prio ticks autorun flag) :=
    resting_taskSpawn ht prio ticks autorun flag (nowhere_of_not_live h.placed ht).tick
  by_cases hrun : autorun = true ∧ s.running = true
  · rw [if_pos hrun]
    exact hk.serves_exit hr _
  · rw [if_neg hrun]
    have hrdy := h.current.rdy (Or.inl (Nat.eq_zero_of_not_pos hin))
    have hat : s.active ≠ t := hne s.active (by simp [hrdy,TaskStat.live])
    refine ⟨_,_,rfl,⟨hk,hk.placed,hk.idleKept,fun _ => ?_,fun hr hn hl => ?_⟩,hr⟩
    · rw [hsched]
      exact (Function.update_of_ne hat _ _).trans hrdy
    · have hauto : autorun = false := by
        have hr' : s.running = true := by
          rw [hsched] at hr
          exact hr
        simpa [hr'] using hrun
      rw [hsched] at hr hn hl ⊢
      have hready : (s.toSched.spawn t prio autorun).ready = s.ready := by simp [Sched.spawn,hauto]
      rw [hready]
      exact h.current.best hr hn hl

/-! ## The start of the system -/

omit [DecidableEq T] [DecidableEq O] in
/-- krhino_start switches to the first task of the highest priority. -/
theorem krhinoStart_serves (h : s.Sound idle) : s.Serves idle ∅ ∅ wk s.krhinoStart := by
  unfold krhinoStart
  split_ifs with hrun
  · exact h.same _
  have hmem : idle ∈ s.ready idlePri := ((h.placed.task idle).ready idlePri).mpr ⟨h.rdy,h.idleKept.prio⟩
  obtain ⟨x,hx⟩ := listsPreferred_isSome (by decide) (List.ne_nil_of_mem hmem)
  obtain ⟨p,hp⟩ := listsPreferred_mem hx
  have hrdy : s.taskState x = .rdy := (((h.placed.task x).ready p).mp hp).1
  have hk := h.toKept.switch x true fun _ => hrdy
  rw [hx]
  exact ⟨_,_,rfl,⟨hk,hk.placed,hk.idleKept,fun _ => hrdy,fun _ _ _ => hx⟩,
    Resting.congr rfl rfl rfl rfl rfl (fun _ _ => rfl) fun _ _ _ => Scope.Keeps.refl _ _⟩

omit [DecidableEq O] in
/-- After krhino_init the idle task is the only one. -/
theorem krhinoInit_sound (idle : T) : (krhinoInit idle : Kernel T O).Sound idle := by
  have hempty : (empty idle : Kernel T O).Placed := by
    refine ⟨fun t => ⟨?_,?_,?_,?_,?_,?_,?_,?_,?_⟩,⟨?_,?_,?_,?_⟩⟩
    all_goals simp [empty,TaskStat.pending,TaskStat.sleeping,TaskStat.isSuspended,TaskStat.live,Ordered]
  have hsched : (krhinoInit idle : Kernel T O).toSched = (empty idle : Kernel T O).toSched.spawn idle idlePri true :=
    toSched_taskSpawn idle idlePri 0 true .static
  obtain ⟨hobj,hbase,hmutex,-,-⟩ := taskSpawn_obj (s := (empty idle : Kernel T O)) idle idlePri 0 true .static
  have hout : (empty idle : Kernel T O).Nowhere idle := nowhere_of_not_live hempty rfl
  have hp : (krhinoInit idle : Kernel T O).Placed := by
    rw [hsched]
    exact hempty.spawn hout (by decide) true
  change (krhinoInit idle : Kernel T O).obj = _ at hobj
  change (krhinoInit idle : Kernel T O).bPrio = _ at hbase
  change (krhinoInit idle : Kernel T O).mutexList = _ at hmutex
  have hstate : ∀ x, (krhinoInit idle : Kernel T O).taskState x = if x = idle then .rdy else .seed := by
    intro x
    rw [hsched]
    exact Function.update_apply ..
  have hlive : ∀ x, x ∈ (krhinoInit idle : Kernel T O).Live ↔ x = idle := by
    intro x
    by_cases hx : x = idle <;> simp [Live,hstate,hx,TaskStat.live]
  have hboss : ∀ x, (krhinoInit idle : Kernel T O).boss x = none := by
    intro x
    refine boss_of_not_pending ?_
    rw [hstate]
    split_ifs <;> rfl
  have hprio : (krhinoInit idle : Kernel T O).prio idle = idlePri := by
    rw [hsched]
    exact Function.update_self ..
  have hlists : (krhinoInit idle : Kernel T O).blkList = (fun _ => []) ∧ (krhinoInit idle : Kernel T O).tickList = [] ∧
      (krhinoInit idle : Kernel T O).active = idle ∧ (krhinoInit idle : Kernel T O).running = false := by
    rw [hsched]
    exact ⟨rfl,rfl,rfl,rfl⟩
  have hrdy : (krhinoInit idle : Kernel T O).taskState idle = .rdy := by simp [hstate]
  have hk : (krhinoInit idle : Kernel T O).Kept idle ∅ := by
    refine ⟨⟨hp,hrdy,by rw [hbase]; exact Function.update_self ..,fun x hx hxi => absurd ((hlive x).mp hx) hxi,
      ⟨fun x hx m => ?_,fun x hx => ?_,?_,?_,?_,?_⟩,fun _ => by rw [hlists.2.2.1]; exact hrdy⟩,fun x hx => ?_,
      fun o _ t ht => ?_,⟨?_,?_⟩⟩
    · rw [hmutex,(hlive x).mp hx,hobj]
      simp [empty]
    · rw [hmutex,(hlive x).mp hx]
      simp
    · simp [hobj,empty]
    · simp [hobj,empty]
    · simp [hobj,empty]
    · simp [hobj,empty]
    · rw [(hlive x).mp hx,isLeast_lent_iff,hprio,hbase]
      simp [hboss]
    · rw [hlists.1] at ht
      cases ht
    · rw [hlists.2.1]
      exact List.Pairwise.nil
    · rw [hlists.2.1]
      exact fun _ hx => absurd hx List.not_mem_nil
  refine ⟨hk,hp,hk.idleKept,fun _ => by rw [hlists.2.2.1]; exact hrdy,fun hr => ?_⟩
  rw [hlists.2.2.2] at hr
  cases hr

/-! ## Deletion -/

/-- What is left to free of the mutexes of a task that is deleted. -/
def left (s : Kernel T O) (t : T) (l : List O) : Kernel T O :=
  { s with mutexList := Function.update s.mutexList t l }

/-- Mutexes are freed or handed on while the task still exists; it may no longer run at
the priority it should. -/
theorem taskMutexFree_spec (l : List O) (hE : ∀ m ∈ l, m ∈ c.objs) (hblk : .finish = c.blk) (hnote : ∀ y, c.note y)
    (hgone : t ∈ c.gone) (ht : t ∈ s.Live) (h : (s.left t l).Steady idle)
    (hset : Settled (s.Live \ {t}) s.bPrio s.boss s.prio) (hw : ∀ o, s.Waits o) (hk : s.TickKept) :
    ∃ s', taskMutexFree l s = some s' ∧ (s'.left t []).Steady idle ∧
      Settled (s'.Live \ {t}) s'.bPrio s'.boss s'.prio ∧ (∀ o, s'.Waits o) ∧ s'.TickKept ∧ s'.taskState t = s.taskState t ∧
      s'.active = s.active ∧ s'.schedLock = s.schedLock ∧ Resting c s s' := by
  induction l generalizing s with
  | nil => exact ⟨s,rfl,h,hset,hw,hk,rfl,rfl,rfl,Resting.refl ..⟩
  | cons m l ih =>
    have hlist : (s.left t (m :: l)).mutexList t = m :: l := Function.update_self ..
    have hmem : m ∈ (s.left t (m :: l)).mutexList t := by
      rw [hlist]
      exact List.mem_cons_self
    obtain ⟨n,hm⟩ := (h.owned.holds t ht m).mp hmem
    have hm' : s.obj m = .mutex (some t) n := hm
    have hnodup : m ∉ l ∧ l.Nodup := by
      have hold := h.owned.nodup t ht
      rw [hlist] at hold
      exact List.nodup_cons.mp hold
    have hlists : ∀ x ∈ s.Live, ∀ o, o ∈ (s.left t l).mutexList x ↔ o ≠ m ∧ o ∈ (s.left t (m :: l)).mutexList x := by
      intro x hx o
      simp only [left]
      by_cases hxt : x = t
      · subst hxt
        simp only [Function.update_self,List.mem_cons]
        exact ⟨fun ho => ⟨fun heq => hnodup.1 (heq ▸ ho),Or.inr ho⟩,fun ho => ho.2.resolve_left ho.1⟩
      · simp only [Function.update_of_ne hxt]
        refine ⟨fun ho => ⟨fun heq => ?_,ho⟩,fun ho => ho.2⟩
        have hox : m ∈ (s.left t (m :: l)).mutexList x := by
          simp only [left,Function.update_of_ne hxt]
          exact heq ▸ ho
        obtain ⟨j,hj⟩ := (h.owned.holds x hx m).mp hox
        exact hxt (Option.some.inj (Kobj.mutex.inj (hm.symm.trans hj)).1).symm
    have hnodups : ∀ x ∈ s.Live, ((s.left t l).mutexList x).Nodup := by
      intro x hx
      have hold := h.owned.nodup x hx
      simp only [left] at hold ⊢
      by_cases hxt : x = t
      · subst hxt
        rw [Function.update_self]
        exact hnodup.2
      · rwa [Function.update_of_ne hxt] at hold ⊢
    have hmE : m ∈ c.objs := hE m List.mem_cons_self
    have hkeeps : ∀ v, c.Keeps (s.obj m) (.mutex v n) := by
      intro v
      rw [hm']
      refine Scope.Keeps.mutex fun x hx _ heq => ?_
      obtain rfl := Option.some.inj heq
      exact absurd hgone hx
    replace hE : ∀ o ∈ l, o ∈ c.objs := fun o ho => hE o (List.mem_cons_of_mem _ ho)
    rw [taskMutexFree]
    simp only [hm']
    cases hl : s.blkList m with
    | nil =>
      have hboss : (s.setObj m (.mutex none n)).boss = s.boss := boss_setObj_nil h.placed hl
      have hout : ∀ x, x ∉ s.blkList m := fun x hx => by rw [hl] at hx; cases hx
      have howned : ((s.setObj m (.mutex none n)).left t l).Owned idle := by
        refine h.owned.pass (k := .mutex none n) rfl rfl (fun x hx o => ?_) hnodups (by simp) (fun _ _ => hl)
          fun o => List.Subset.refl _
        have hsame : o ∈ ((s.setObj m (.mutex none n)).left t l).mutexList x ↔
            o ≠ m ∧ o ∈ (s.left t (m :: l)).mutexList x := hlists x hx o
        simpa using hsame
      have hsteady : ((s.setObj m (.mutex none n)).left t l).Steady idle :=
        ⟨h.placed,h.rdy,h.base,h.bases,howned,h.locked⟩
      have hwaits : ∀ o, (s.setObj m (.mutex none n)).Waits o := by
        intro o x hx
        have hom : o ≠ m := fun heq => hout x (heq ▸ hx)
        have hw' : (s.setObj m (.mutex none n)).Waits o :=
          (hw o).congr (setObj_of_ne hom) (List.Subset.refl _) fun _ _ => ⟨rfl,rfl⟩
        exact hw' x hx
      obtain ⟨s',hs',hleft,hset',hwaits',hk',hstate,hact,hlock,hr⟩ := ih (s := s.setObj m (.mutex none n)) hE ht hsteady
        (hboss ▸ hset) hwaits hk
      exact ⟨s',hs',hleft,hset',hwaits',hk',hstate,hact,hlock,(resting_setObj hmE fun _ => hkeeps none).trans hr⟩
    | cons x rest =>
      have hx : x ∈ s.blkList m := hl ▸ List.mem_cons_self
      have hpend : (s.taskState x).pending = true := (((h.placed.task x).blk m).mp hx).1
      have hxt : x ≠ t := by
        rintro rfl
        exact h.owned.other m x n hm hx
      -- the mutex leaves the list of the task before the next holder gets it
      have hfreed : Freed (s.left t (m :: l)) (s.left t l) m t := by
        refine ⟨⟨s.prio,s.ready,s.blkList,Function.update s.mutexList t l,s.obj m,?_⟩,⟨n,hm⟩,h.placed,fun _ _ => rfl,
          hlists,hnodups⟩
        simp only [left,Function.update_eq_self]
      have hn : 0 < n := h.owned.nested m t n hm
      have hsteady := hfreed.hand_steady h hx hn
      have hsettled := hfreed.hand_settled (n := n) (A := s.Live \ {t}) h hl hset
      let s1 : Kernel T O := (s.endWait x .finish).setObj m (.mutex (some x) n)
      let s2 : Kernel T O := { s1 with mutexList := Function.update s1.mutexList x (m :: s1.mutexList x) }
      have heq : s2.left t l = (s.left t l).handOver x m n := by
        have hcomm : Function.update (Function.update s.mutexList x (m :: s.mutexList x)) t l =
            Function.update (Function.update s.mutexList t l) x (m :: (Function.update s.mutexList t l) x) := by
          rw [Function.update_comm hxt,Function.update_of_ne hxt]
        simp only [left,s2,s1,handOver,Kernel.setObj,Kernel.endWait,hcomm]
      have hlive : s2.Live = s.Live := live_endWait
      have hboss : s2.boss = ((s.left t l).handOver x m n).boss := by
        rw [← heq]
        exact boss_congr (fun _ => rfl) rfl rfl
      have hwaits : ∀ o, s2.Waits o := by
        intro o
        have hold : (s.left t (m :: l)).Waits o := hw o
        have hnew : (s2.left t l).Waits o := heq ▸ hfreed.hand_waits h.placed hold
        exact hnew
      have hplaced : s.Placed := h.placed
      have hgiven : Resting c s (s.setObj m (.mutex (some x) n)) := resting_setObj hmE fun _ => hkeeps (some x)
      have hended : Resting c (s.setObj m (.mutex (some x) n)) ((s.setObj m (.mutex (some x) n)).endWait x .finish) := by
        refine resting_endWait hplaced hx hmE hblk rfl rfl (fun _ _ => rfl) (fun _ v i hv => ?_) (hnote _)
        rw [setObj_self] at hv
        exact (Kobj.mutex.inj hv).1.symm
      have hlisted : Resting c ((s.setObj m (.mutex (some x) n)).endWait x .finish) s2 :=
        Resting.congr rfl rfl rfl rfl rfl (fun _ _ => rfl) fun _ _ _ => Scope.Keeps.refl _ _
      rw [sdiff_idem,← hboss] at hsettled
      obtain ⟨s',hs',hleft,hset',hwaits',hk',hstate,hact,hlock,hr⟩ := ih (s := s2) hE (hlive ▸ ht) (heq ▸ hsteady)
        (hlive ▸ hsettled) hwaits hk.ended
      refine ⟨s',?_,hleft,hset',hwaits',hk',hstate.trans (Function.update_of_ne hxt.symm _ _),hact,hlock,
        ((hgiven.trans hended).trans hlisted).trans hr⟩
      simp only [pendTaskEnd_eq hpend,Option.bind_some]
      exact hs'

/-- The task is deleted and out of all lists, but still in that of the tasks. -/
def bury (s : Kernel T O) (t : T) : Kernel T O := { s with toSched := s.toSched.removed t }

theorem live_bury : (s.bury t).Live = s.Live \ {t} := by
  ext x
  by_cases hx : x = t
  · simp [Live,bury,removed,hx,TaskStat.live]
  · simp [Live,bury,removed,hx]

theorem boss_bury : (s.bury t).boss = Function.update s.boss t none := by
  funext x
  by_cases hx : x = t
  · rw [hx,Function.update_self]
    exact boss_of_not_pending (by simp [bury,removed,TaskStat.pending])
  · rw [Function.update_of_ne hx]
    simp [boss,bury,removed,hx]

theorem bury_sub (o : O) : (s.bury t).blkList o ⊆ s.blkList o := List.Sublist.subset blkListRm_sublist

theorem resting_bury (ht : t ∈ c.gone) : Resting c s (s.bury t) := by
  have hstate : ∀ x, x ≠ t → (s.bury t).taskState x = s.taskState x := fun x hx => Function.update_of_ne hx _ _
  have hne : ∀ x ∉ c.gone, x ≠ t := fun x hx => (ne_of_mem_of_not_mem ht hx).symm
  have hwaits : ∀ x ∉ c.gone, (s.bury t).waitsFor x = s.waitsFor x := by
    intro x hx
    unfold waitsFor
    rw [hstate x (hne x hx)]
    rfl
  refine ⟨rfl,fun _ _ => rfl,fun x hx hs => ?_,fun x hx o _ hw => (hwaits x hx).trans hw,fun _ _ => rfl,fun x hx hl => ?_,
    fun x hx _ _ => ?_,fun _ x hx hact m hm => hm.congr (hwaits x hx) (Scope.Keeps.refl _ _) hx hact⟩
  · rw [hstate x (hne x hx)]
    exact hs
  · rw [live_bury]
    exact ⟨hl,hne x hx⟩
  · exact Or.inl ⟨by rw [hstate x (hne x hx)],by rw [hstate x (hne x hx)],hwaits x hx,rfl⟩

/-- A task that holds nothing any more can go. -/
theorem Steady.bury (h : (s.left t []).Steady idle) (hti : t ≠ idle) (hlock : 0 < s.schedLock → s.active ≠ t) :
    (s.bury t).Steady idle := by
  have hlive : ∀ x, x ∈ (s.bury t).Live → x ∈ s.Live ∧ x ≠ t := fun x hx => by
    rw [live_bury] at hx
    exact hx
  have hmutex : ∀ x, x ≠ t → (s.left t []).mutexList x = s.mutexList x := fun x hx => Function.update_of_ne hx _ _
  have hother : ∀ x, x ≠ t → s.taskState x = .rdy → (s.bury t).taskState x = .rdy :=
    fun x hx hst => (Function.update_of_ne hx _ _).trans hst
  refine ⟨h.placed.removed,hother idle (Ne.symm hti) h.rdy,h.base,fun x hx => h.bases x (hlive x hx).1,
    ⟨fun x hx m => ?_,fun x hx => ?_,fun m x n hm => ?_,h.owned.nested,fun m x n hm hx => ?_,fun m n hm => ?_⟩,
    fun hl => ?_⟩
  · have hold := h.owned.holds x (hlive x hx).1 m
    rwa [hmutex x (hlive x hx).2] at hold
  · have hold := h.owned.nodup x (hlive x hx).1
    rwa [hmutex x (hlive x hx).2] at hold
  · obtain ⟨hl,hi⟩ := h.owned.live m x n hm
    refine ⟨?_,hi⟩
    rw [live_bury]
    refine ⟨hl,?_⟩
    rintro rfl
    have hmem := (h.owned.holds x hl m).mpr ⟨n,hm⟩
    have hnil : (s.left x []).mutexList x = [] := Function.update_self ..
    rw [hnil] at hmem
    cases hmem
  · exact h.owned.other m x n hm (bury_sub m hx)
  · have hnil : s.blkList m = [] := h.owned.free m n hm
    exact List.subset_nil.mp (hnil ▸ bury_sub m)
  · exact hother _ (hlock hl) (h.locked hl)

omit [DecidableEq O] in
/-- A task that does not exist leaves the list of the tasks. -/
theorem Kept.unlist (h : s.Kept idle ∅) (ht : (s.taskState t).live = false) :
    Kept { s with taskHead := s.taskHead.erase t } idle ∅ := by
  have hboss : boss { s with taskHead := s.taskHead.erase t } = s.boss := boss_congr (fun _ => rfl) rfl rfl
  have hp : Placed { s.toSched with taskHead := s.taskHead.erase t } := by
    refine ⟨fun x => ?_,⟨h.placed.lists.ready,h.placed.lists.blk,h.placed.lists.ordered,h.placed.lists.tick⟩⟩
    have hx := h.placed.task x
    refine ⟨hx.ready,hx.blk,hx.obj,hx.tick,hx.timed,hx.asleep,hx.count,fun hl => ?_,hx.bound⟩
    have hxt : x ≠ t := by
      rintro rfl
      rw [ht] at hl
      cases hl
    exact (List.mem_erase_of_ne hxt).mpr (hx.known hl)
  refine ⟨⟨hp,h.rdy,h.base,h.bases,h.owned.congr rfl rfl rfl fun _ => List.Subset.refl _,
    h.locked⟩,?_,fun o ho => ?_,h.ticks.congr rfl rfl rfl⟩
  · unfold Inherits
    rw [hboss]
    exact h.inherits
  · exact (h.waits o ho).congr rfl (List.Subset.refl _) fun _ _ => ⟨rfl,rfl⟩

/-- The task goes, and whoever it waited for runs at what is left to him. -/
theorem taskUnlist_spec (hgone : t ∈ c.gone) (ht : t ∈ s.Live) (hti : t ≠ idle) (h : (s.left t []).Steady idle)
    (hset : Settled (s.Live \ {t}) s.bPrio s.boss s.prio) (hw : ∀ o, s.Waits o) (hk : s.TickKept)
    (hlock : 0 < s.schedLock → s.active ≠ t) :
    ∃ s', s.taskUnlist t = some s' ∧ s'.Kept idle ∅ ∧ Resting c s s' := by
  have hsteady := Steady.bury h hti hlock
  have hplaced : s.Placed := h.placed
  have hdead : ((s.bury t).taskState t).live = false := by simp [bury,removed,TaskStat.live]
  have hwaits : ∀ o, (s.bury t).Waits o := fun o => (hw o).congr rfl (bury_sub o) fun _ _ => ⟨rfl,rfl⟩
  have hrest : Resting c s (s.bury t) := resting_bury hgone
  have hticks : (s.bury t).TickKept := hk.sublist tickListRm_sublist (fun _ _ => rfl) rfl
  have hin : s.boss t = none → (s.bury t).Inherits := by
    intro hnone
    unfold Inherits
    rw [live_bury,boss_bury,← hnone,Function.update_eq_self]
    exact hset
  have hdone : ∀ s' : Kernel T O, s'.Kept idle ∅ → Resting c s s' → (s'.taskState t).live = false →
      Kept { s' with taskHead := s'.taskHead.erase t } idle ∅ ∧
        Resting c s { s' with taskHead := s'.taskHead.erase t } :=
    fun s' hk hr hd => ⟨hk.unlist hd,
      hr.trans (Resting.congr rfl rfl rfl rfl rfl (fun _ _ => rfl) fun _ _ _ => Scope.Keeps.refl _ _)⟩
  have heq := removed_eq (hplaced.task t)
  unfold taskUnlist
  cases hst : s.taskState t <;> simp only [hst] at heq ⊢
  case seed | deleted => simp [Live,hst,TaskStat.live] at ht
  case rdy | suspended | sleep | sleepSuspended =>
    have hnone : s.boss t = none := boss_of_not_pending (by simp [hst,TaskStat.pending])
    obtain ⟨hk,hr⟩ := hdone (s.bury t) ⟨hsteady,hin hnone,fun o _ => hwaits o,hticks⟩ hrest hdead
    rw [heq]
    exact ⟨_,rfl,hk,hr⟩
  case pend | pendSuspended =>
    rw [heq]
    change ∃ s', ((s.bury t).mutexTaskPriReset t).map (fun s => { s with taskHead := s.taskHead.erase t }) = some s' ∧ _
    obtain ⟨m,hm⟩ := (hplaced.task t).obj (by simp [hst,TaskStat.pending])
    have hmem : t ∈ s.blkList m := ((hplaced.task t).blk m).mpr ⟨by simp [hst,TaskStat.pending],hm⟩
    have hfree : ∀ n, s.obj m ≠ .mutex none n := by
      intro n hn
      have hnil : s.blkList m = [] := h.owned.free m n hn
      rw [hnil] at hmem
      cases hmem
    obtain ⟨s1,hs1,hr1,hsteady1,hin1⟩ := hsteady.lapse hplaced hmem hset hfree live_bury.le rfl rfl rfl hm boss_bury
    have hk1 : s1.Kept idle ∅ :=
      ⟨hsteady1,hin1,fun o _ => hr1.waits hsteady.placed hsteady1.placed (hwaits o),hr1.ticks hticks⟩
    have hd1 : (s1.taskState t).live = false := by
      obtain ⟨f,r,b,rfl⟩ := hr1
      exact hdead
    obtain ⟨hk2,hr2⟩ := hdone s1 hk1 (hrest.trans hr1.resting) hd1
    rw [hs1]
    exact ⟨_,rfl,hk2,hr2⟩

theorem krhinoTaskDel_serves (h : s.Sound idle) (task : Option T) (ht : task.getD s.active ∈ s.Live) :
    s.Serves idle {task.getD s.active} {m | m ∈ s.mutexList (task.getD s.active)} .finish (s.krhinoTaskDel task) := by
  unfold krhinoTaskDel
  simp only
  generalize task.getD s.active = t at ht
  split_ifs with hin hpri hflag hlock
  · exact h.same _
  · exact h.same _
  · exact h.same _
  · exact h.same _
  have hti : t ≠ idle := fun heq => hpri (heq ▸ h.idleKept.prio)
  have hleft : (s.left t (s.mutexList t)).Steady idle := by
    have hsame : s.left t (s.mutexList t) = s := by simp only [left,Function.update_eq_self]
    rw [hsame]
    exact h.toSteady
  obtain ⟨s1,hs1,hsteady,hset,hwaits,hticks,hstate,hact,hlock1,hr⟩ := taskMutexFree_spec
    (c := s.scope {t} {m | m ∈ s.mutexList t} .finish) (s.mutexList t) (fun _ hm => hm) rfl (fun _ => trivial) (Set.mem_singleton t) ht hleft
    (h.inherits.mono Set.sdiff_subset) (fun o => h.waits o (Set.notMem_empty o)) h.ticks
  have ht1 : t ∈ s1.Live := by
    change (s1.taskState t).live = true
    rw [hstate]
    exact ht
  have hexists : ¬(s1.taskState t = .seed ∨ s1.taskState t = .deleted) := by
    rintro (hst | hst) <;> simp [Live,hst,TaskStat.live] at ht1
  obtain ⟨s2,hs2,hk,hr2⟩ := taskUnlist_spec (c := s.scope {t} {m | m ∈ s.mutexList t} .finish) rfl ht1 hti
    hsteady hset hwaits hticks fun hl heq => hlock ⟨heq.symm.trans hact,hlock1 ▸ hl⟩
  rw [hs1,Option.bind_some,if_neg hexists,hs2,Option.bind_some]
  exact hk.serves_exit (hr.trans hr2) _

end Kernel

end FmacSdk.Rhino
