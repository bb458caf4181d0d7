import FmacSdk.Rhino.KernelKept

/-! # Mutexes that change hands

One mutex gets another holder, or none, while the task that held it may run at a
priority that is no longer his. All others run at theirs.
-/
namespace FmacSdk.Rhino
open WaitList Donation Sched
variable {T O : Type*}

namespace Kernel

variable {s s' : Kernel T O} {t u w idle : T} {m : O} {A : Set T} {c : Scope T O} {k : Kobj T} {v n : ℕ} {rel : Option O}

theorem Repri.live (h : Repri s s') : s'.Live = s.Live := by
  obtain ⟨f,r,b,rfl⟩ := h
  rfl

theorem Repri.resting (h : Repri s s') : Resting c s s' := by
  obtain ⟨f,r,b,rfl⟩ := h
  exact Resting.congr rfl rfl rfl rfl rfl (fun _ _ => rfl) fun _ _ _ => Scope.Keeps.refl _ _

theorem Repri.steady (h : Repri s s') (hs : s.Steady idle) (hp' : s'.Placed) : s'.Steady idle := by
  have ho := h.owned hs.placed hp' hs.owned
  obtain ⟨f,r,b,rfl⟩ := h
  exact ⟨hp',hs.rdy,hs.base,hs.bases,ho,hs.locked⟩

theorem Repri.ticks (h : Repri s s') (hk : s.TickKept) : s'.TickKept := by
  obtain ⟨f,r,b,rfl⟩ := h
  exact hk.congr rfl rfl rfl

theorem Repri.waits (h : Repri s s') (hp : s.Placed) (hp' : s'.Placed) {o : O} (hw : s.Waits o) : s'.Waits o := by
  have hsub : s'.blkList o ⊆ s.blkList o := fun t ht => (h.mem_blkList hp hp' o).mp ht
  obtain ⟨f,r,b,rfl⟩ := h
  exact hw.congr rfl hsub fun _ _ => ⟨rfl,rfl⟩

/-- One mutex gets another holder, in whose list it is then. -/
theorem Owned.pass [DecidableEq O] (h : s.Owned idle) (hlive : s'.Live = s.Live)
    (hobj : s'.obj = Function.update s.obj m k)
    (hlist : ∀ x ∈ s.Live, ∀ o, o ∈ s'.mutexList x ↔ (o = m ∧ ∃ n, k = .mutex (some x) n) ∨ (o ≠ m ∧ o ∈ s.mutexList x))
    (hnodup : ∀ x ∈ s.Live, (s'.mutexList x).Nodup)
    (hk : ∀ x n, k = .mutex (some x) n → x ∈ s.Live ∧ x ≠ idle ∧ 0 < n ∧ x ∉ s'.blkList m)
    (hfree : ∀ n, k = .mutex none n → s'.blkList m = []) (hsub : ∀ o, s'.blkList o ⊆ s.blkList o) : s'.Owned idle := by
  have hself : s'.obj m = k := by rw [hobj,Function.update_self]
  have hother : ∀ o, o ≠ m → s'.obj o = s.obj o := fun o ho => by rw [hobj,Function.update_of_ne ho]
  refine ⟨fun x hx o => ?_,?_,fun o x n ho => ?_,fun o x n ho => ?_,fun o x n ho hmem => ?_,fun o n ho => ?_⟩
  · rw [hlive] at hx
    rw [hlist x hx]
    by_cases hom : o = m
    · simp [hom,hself]
    · simp only [hom,false_and,ne_eq,not_false_eq_true,true_and,false_or,hother o hom]
      exact h.holds x hx o
  · rw [hlive]
    exact hnodup
  · by_cases hom : o = m
    · obtain ⟨hl,hi,-,-⟩ := hk x n (hself ▸ hom ▸ ho)
      exact ⟨hlive ▸ hl,hi⟩
    · rw [hlive]
      exact h.live o x n (hother o hom ▸ ho)
  · by_cases hom : o = m
    · exact (hk x n (hself ▸ hom ▸ ho)).2.2.1
    · exact h.nested o x n (hother o hom ▸ ho)
  · by_cases hom : o = m
    · subst hom
      exact (hk x n (hself ▸ ho)).2.2.2 hmem
    · exact h.other o x n (hother o hom ▸ ho) (hsub o hmem)
  · by_cases hom : o = m
    · subst hom
      exact hfree n (hself ▸ ho)
    · exact List.subset_nil.mp (h.free o n (hother o hom ▸ ho) ▸ hsub o)

/-- Whoever waits for the mutex waits for its new holder, the others for whom they did. -/
theorem boss_pass [DecidableEq O] (hp' : s'.Placed) (hobj : s'.obj = Function.update s.obj m k)
    (hblk : ∀ o, o ≠ m → ∀ x, x ∈ s'.blkList o ↔ x ∈ s.blkList o) :
    s'.boss w = some u ↔ (w ∈ s'.blkList m ∧ ∃ n, k = .mutex (some u) n) ∨
      ∃ o, o ≠ m ∧ w ∈ s.blkList o ∧ ∃ n, s.obj o = .mutex (some u) n := by
  rw [boss_eq_some hp']
  constructor
  · rintro ⟨o,n,hw,ho⟩
    by_cases hom : o = m
    · subst hom
      exact Or.inl ⟨hw,n,by rw [← ho,hobj,Function.update_self]⟩
    · rw [hobj,Function.update_of_ne hom] at ho
      exact Or.inr ⟨o,hom,(hblk o hom w).mp hw,n,ho⟩
  · rintro (⟨hw,n,hk⟩ | ⟨o,hom,hw,n,ho⟩)
    · exact ⟨m,n,hw,by rw [hobj,Function.update_self,hk]⟩
    · exact ⟨o,n,(hblk o hom w).mpr hw,by rw [hobj,Function.update_of_ne hom,ho]⟩

/-- All but the old holder run at their priorities, if the new one is the most urgent of those who wait. -/
theorem settled_pass [DecidableEq O] {prio : T → ℕ} (hp : s.Placed) (hp' : s'.Placed)
    (h : Settled A s.bPrio s.boss prio) (hobj : s'.obj = Function.update s.obj m k)
    (hblk : ∀ o, o ≠ m → ∀ x, x ∈ s'.blkList o ↔ x ∈ s.blkList o) (hsub : s'.blkList m ⊆ s.blkList m)
    (hm : ∀ u n, s.obj m = .mutex (some u) n → u = t)
    (hle : ∀ x ∈ s'.blkList m, ∀ u n, k = .mutex (some u) n → prio u ≤ prio x) :
    Settled (A \ {t}) s.bPrio s'.boss prio := by
  refine h.shift {t} fun x => ?_
  by_cases hx : x ∈ s.blkList m
  · have hone : ∀ o, x ∈ s.blkList o → o = m := by
      intro o ho
      have heq := (((hp.task x).blk o).mp ho).2.symm.trans (((hp.task x).blk m).mp hx).2
      exact Option.some.inj heq
    refine Or.inr ⟨fun u hu => ?_,fun u hu => ?_⟩
    · obtain ⟨o,n,ho,hou⟩ := (boss_eq_some hp).mp hu
      exact hm u n (hone o ho ▸ hou)
    · rcases (boss_pass hp' hobj hblk).mp hu with ⟨hxm,n,hk⟩ | ⟨o,hom,ho,-⟩
      · exact hle x hxm u n hk
      · exact absurd (hone o ho) hom
  · refine Or.inl (Option.ext fun u => ?_)
    rw [boss_pass hp' hobj hblk,boss_eq_some hp]
    constructor
    · rintro (⟨hxm,-⟩ | ⟨o,-,ho,n,hou⟩)
      · exact absurd (hsub hxm) hx
      · exact ⟨o,n,ho,hou⟩
    · rintro ⟨o,n,ho,hou⟩
      have hom : o ≠ m := fun heq => hx (heq ▸ ho)
      exact Or.inr ⟨o,hom,ho,n,hou⟩

/-- What becomes of a mutex that nobody waits for concerns nobody who waits. -/
theorem boss_setObj_nil [DecidableEq O] (hp : s.Placed) (hnil : s.blkList m = []) : (s.setObj m k).boss = s.boss := by
  have hp' : (s.setObj m k).Placed := hp
  funext w
  refine Option.ext fun u => ?_
  have hno : ∀ x, x ∉ s.blkList m := fun x hx => by rw [hnil] at hx; cases hx
  rw [boss_pass (s := s) (m := m) (k := k) hp' rfl (fun _ _ _ => Iff.rfl),boss_eq_some hp]
  constructor
  · rintro (⟨hw,-⟩ | ⟨o,-,hw,n,ho⟩)
    · exact absurd hw (hno w)
    · exact ⟨o,n,hw,ho⟩
  · rintro ⟨o,n,hw,ho⟩
    exact Or.inr ⟨o,fun heq => hno w (heq ▸ hw),hw,n,ho⟩

section Change
variable [DecidableEq T] [DecidableEq O]

/-- A task that is the only one at the wrong priority gets the right one. -/
theorem Steady.priChange (h : s.Steady idle) (ht : t ∈ s.Live) (hset : Settled (s.Live \ {t}) s.bPrio s.boss s.prio)
    (hv : IsLeast (lent s.bPrio s.boss s.prio t) v) :
    ∃ s', taskPriChange s.priFuel s t v = some s' ∧ Repri s s' ∧ s'.Steady idle ∧ s'.Inherits := by
  obtain ⟨s',hs',hp',hr,hi⟩ := taskPriChange_inherits h.placed h.owned h.bound ht hset hv
  exact ⟨s',hs',hr,hr.steady h hp',hi⟩

/-- mutex_release without a mutex that is given back. -/
theorem Steady.release_none (h : s.Steady idle) (ht : t ∈ s.Live)
    (hset : Settled (s.Live \ {t}) s.bPrio s.boss s.prio) :
    ∃ s', s.mutexRelease t none = some s' ∧ Repri s s' ∧ s'.Steady idle ∧ s'.Inherits := by
  unfold mutexRelease
  simp only [mutexPriLook_none h.placed h.owned ht]
  by_cases heq : sInf (lent s.bPrio s.boss s.prio t) = s.prio t
  · rw [if_neg (not_not.mpr heq)]
    refine ⟨s,rfl,Repri.refl s,h,hset.insert ?_⟩
    rw [← heq]
    exact isLeast_sInf_lent
  · rw [if_pos heq]
    exact h.priChange ht hset isLeast_sInf_lent

/-- mutex_task_pri_reset for a task that no longer waits for the mutex it still notes. -/
theorem Steady.reset (h : s.Steady idle) (hobj : s.blkObj w = some m) (hm : s.obj m = .mutex (some u) n)
    (hset : Settled (s.Live \ {u}) s.bPrio s.boss s.prio)
    (hkeep : s.prio u ≠ s.prio w → IsLeast (lent s.bPrio s.boss s.prio u) (s.prio u)) :
    ∃ s', s.mutexTaskPriReset w = some s' ∧ Repri s s' ∧ s'.Steady idle ∧ s'.Inherits := by
  unfold mutexTaskPriReset
  simp only [hobj,Option.map_some,hm]
  by_cases heq : s.prio u = s.prio w
  · rw [if_pos heq]
    exact h.release_none (h.owned.live m u n hm).1 hset
  · rw [if_neg heq]
    exact ⟨s,rfl,Repri.refl s,h,hset.insert (hkeep heq)⟩

/-- A task waits no more for what it still notes, and whoever it waited for runs at what is left to him. -/
theorem Steady.lapse (h : s'.Steady idle) (hp : s.Placed) (ht : t ∈ s.blkList m)
    (hset : Settled A s.bPrio s.boss s.prio) (hfree : ∀ n, s.obj m ≠ .mutex none n) (hlive : s'.Live ⊆ A)
    (hbase : s'.bPrio = s.bPrio) (hprio : s'.prio = s.prio) (hobj : s'.obj = s.obj)
    (hnoted : s'.blkObj t = some m) (hboss : s'.boss = Function.update s.boss t none) :
    ∃ s'', s'.mutexTaskPriReset t = some s'' ∧ Repri s' s'' ∧ s''.Steady idle ∧ s''.Inherits := by
  have hother : ∀ x, x ≠ t → s'.boss x = s.boss x := fun x hx => hboss ▸ Function.update_of_ne hx _ _
  have hself : s'.boss t = none := hboss ▸ Function.update_self ..
  cases hko : s.obj m with
  | mutex mutexTask n =>
    cases mutexTask with
    | none => exact absurd hko (hfree n)
    | some u =>
      have hwas : s.boss t = some u := (boss_eq_some hp).mpr ⟨m,n,ht,hko⟩
      have hu : u ∈ s'.Live := (h.owned.live m u n (hobj ▸ hko)).1
      have hshift : Settled (s'.Live \ {u}) s'.bPrio s'.boss s'.prio := by
        rw [hbase,hprio]
        refine (hset.shift {u} fun x => ?_).mono (Set.sdiff_subset_sdiff_left hlive)
        by_cases hx : x = t
        · subst hx
          refine Or.inr ⟨fun y hy => (Option.some.inj (hwas.symm.trans hy)).symm,fun y hy => ?_⟩
          rw [hself] at hy
          cases hy
        · exact Or.inl (hother x hx)
      refine h.reset hnoted (hobj ▸ hko) hshift fun hne => ?_
      rw [hprio] at hne
      rw [hbase,hprio]
      exact hset.leave (hlive hu) hne hother (by simp [hself])
  | _ =>
    have hnone : s.boss t = none := boss_of_obj hp ht (by simp [hko])
    refine ⟨s',?_,Repri.refl s',h,?_⟩
    · simp only [mutexTaskPriReset,hnoted,Option.map_some,hobj,hko]
    · unfold Inherits
      rw [hboss,← hnone,Function.update_eq_self,hbase,hprio]
      exact hset.mono hlive

/-- task_pri_change for a task that is ready ends with its first turn. -/
theorem taskPriChange_rdy (hp : s.Placed) (hrdy : s.taskState t = .rdy) (hv : v < priMax) :
    ∃ s', taskPriChange (n + 1) s t v = some s' ∧ s'.Placed ∧ Repri s s' ∧ s'.prio = Function.update s.prio t v ∧
      (s.prio t = v → s' = s) := by
  rw [taskPriChange,taskPriChangeTurn]
  by_cases heq : s.prio t = v
  · rw [if_pos heq]
    exact ⟨s,rfl,hp,Repri.refl s,by rw [← heq,Function.update_eq_self],fun _ => rfl⟩
  rw [if_neg heq]
  obtain ⟨c,hc,hplaced,hceq⟩ := hp.taskPriSet (t := t) (v := v) (by simp [hrdy,TaskStat.live]) hv
  refine ⟨{ s with toSched := c },?_,hplaced,⟨_,_,_,by rw [hceq]⟩,by rw [hceq],fun h => absurd h heq⟩
  have hstate : c.taskState t = .rdy := by
    rw [hceq]
    exact hrdy
  rw [hc,Option.bind_some]
  simp only [hstate,TaskStat.pending]
  rfl

/-- mutex_release for the task that runs: its list loses the mutex, and it runs at the priority
that was looked up. -/
theorem release_rdy (hp : s.Placed) (hrdy : s.taskState t = .rdy) (hbase : s.bPrio t < priMax) (rel : Option O) :
    ∃ s', s.mutexRelease t rel = some s' ∧ s'.Placed ∧
      Repri { s with mutexList := Function.update s.mutexList t ((s.mutexList t).filter fun m => some m ≠ rel) } s' ∧
      s'.prio = Function.update s.prio t (s.priLookLoop rel (s.mutexList t) (s.bPrio t) (s.bPrio t)).1 ∧
      (s.prio t = (s.priLookLoop rel (s.mutexList t) (s.bPrio t) (s.bPrio t)).1 →
        s' = { s with mutexList := Function.update s.mutexList t ((s.mutexList t).filter fun m => some m ≠ rel) }) := by
  obtain ⟨-,hle,-,-⟩ := priLookLoop_spec hp.lists.ordered rel (s.mutexList t) (le_refl (s.bPrio t))
  unfold mutexRelease
  simp only [mutexPriLook_eq hp.lists.ordered]
  generalize (s.priLookLoop rel (s.mutexList t) (s.bPrio t) (s.bPrio t)).1 = v at hle ⊢
  let s1 : Kernel T O :=
    { s with mutexList := Function.update s.mutexList t ((s.mutexList t).filter fun m => some m ≠ rel) }
  by_cases heq : s.prio t = v
  · rw [if_neg (not_not.mpr heq.symm)]
    exact ⟨s1,rfl,hp,Repri.refl s1,by rw [← heq,Function.update_eq_self],fun _ => rfl⟩
  · rw [if_pos (Ne.symm heq)]
    obtain ⟨s',hs',hp',hr,hprio,hsame⟩ := taskPriChange_rdy (s := s1) (n := s1.taskHead.length) (t := t) (v := v) hp hrdy
      (hle.trans_lt hbase)
    exact ⟨s',hs',hp',hr,hprio,hsame⟩

/-! ## The next holder -/

/-- The end of a wait concerns only the list of what was waited for. -/
theorem blkList_endWait_of_ne (hp : s.Placed) (ht : t ∈ s.blkList m) {blk : BlkState} {o : O} (ho : o ≠ m) :
    (s.endWait t blk).blkList o = s.blkList o := by
  have hobj := (((hp.task t).blk m).mp ht).2
  simp [endWait,ended,blkListRm,hobj,ho]

/-- The wait of a task for a mutex ends, and the task holds it. -/
def handOver (s : Kernel T O) (t : T) (m : O) (n : ℕ) : Kernel T O :=
  { (s.endWait t .finish).setObj m (.mutex (some t) n) with
    mutexList := Function.update s.mutexList t (m :: s.mutexList t) }

/-- `u` has given the mutex back and may have changed his priority; those who wait for it are still there. -/
structure Freed (s s1 : Kernel T O) (m : O) (u : T) : Prop where
  same : ∃ f r b l k, s1 =
    { s with prio := f, ready := r, blkList := b, mutexList := l, obj := Function.update s.obj m k }
  held : ∃ n, s.obj m = .mutex (some u) n
  placed : s1.Placed
  prio : ∀ x, x ≠ u → s1.prio x = s.prio x
  list : ∀ x ∈ s.Live, ∀ o, o ∈ s1.mutexList x ↔ o ≠ m ∧ o ∈ s.mutexList x
  nodup : ∀ x ∈ s.Live, (s1.mutexList x).Nodup

variable {s1 : Kernel T O} {l : List T}

omit [DecidableEq T] in
theorem Freed.mem_blkList (h : Freed s s1 m u) (hp : s.Placed) {o : O} : t ∈ s1.blkList o ↔ t ∈ s.blkList o := by
  rw [(h.placed.task t).blk,(hp.task t).blk]
  obtain ⟨f,r,b,l,k,rfl⟩ := h.same
  rfl

omit [DecidableEq T] in
theorem Freed.live (h : Freed s s1 m u) : s1.Live = s.Live := by
  obtain ⟨f,r,b,l,k,rfl⟩ := h.same
  rfl

theorem Freed.resting (h : Freed s s1 m u) (ht : t ∈ s1.blkList m) (hm : m ∈ c.objs) (hblk : .finish = c.blk)
    (hu : u ∈ c.gone ∨ u = c.caller) (hnote : ∀ x, c.note x) : Resting c s (s1.handOver t m n) := by
  obtain ⟨j,hj⟩ := h.held
  have hkeeps : c.Keeps (s.obj m) (.mutex (some t) n) := by
    rw [hj]
    refine Scope.Keeps.mutex fun x hx hne heq => ?_
    obtain rfl := Option.some.inj heq
    exact absurd hu (not_or.mpr ⟨hx,hne⟩)
  -- the one who waits has the mutex before his wait ends
  have hgiven : Resting c s (s1.setObj m (.mutex (some t) n)) := by
    obtain ⟨f,r,b,l,k,rfl⟩ := h.same
    have hobj : Function.update (Function.update s.obj m k) m (.mutex (some t) n) = (s.setObj m (.mutex (some t) n)).obj :=
      Function.update_idem ..
    refine Resting.congr rfl rfl rfl rfl rfl (fun o ho => ?_) fun _ o _ => ?_
    · exact (congrFun hobj o).trans (setObj_of_ne (ne_of_mem_of_not_mem hm ho).symm)
    · have hkept := keeps_setObj hkeeps o
      rw [← congrFun hobj o] at hkept
      exact hkept
  have hended : Resting c (s1.setObj m (.mutex (some t) n)) ((s1.setObj m (.mutex (some t) n)).endWait t .finish) := by
    refine resting_endWait h.placed ht hm hblk rfl rfl (fun _ _ => rfl) (fun _ v i hv => ?_) (hnote _)
    rw [setObj_self] at hv
    exact (Kobj.mutex.inj hv).1.symm
  have hlisted : Resting c ((s1.setObj m (.mutex (some t) n)).endWait t .finish) (s1.handOver t m n) :=
    Resting.congr rfl rfl rfl rfl rfl (fun _ _ => rfl) fun _ _ _ => Scope.Keeps.refl _ _
  exact (hgiven.trans hended).trans hlisted

omit [DecidableEq T] [DecidableEq O] in
/-- Who waits for an object does not run. -/
theorem not_rdy_of_mem (hp : s.Placed) {o : O} (ht : t ∈ s.blkList o) : s.taskState t ≠ .rdy := by
  intro hst
  have hpend := (((hp.task t).blk o).mp ht).1
  simp [hst,TaskStat.pending] at hpend

theorem Freed.hand_obj (h : Freed s s1 m u) :
    (s1.handOver t m n).obj = Function.update s.obj m (.mutex (some t) n) := by
  obtain ⟨f,r,b,l,k,rfl⟩ := h.same
  exact Function.update_idem ..

theorem Freed.hand_placed (h : Freed s s1 m u) (ht : t ∈ s1.blkList m) : (s1.handOver t m n).Placed :=
  h.placed.ended (Or.inl (((h.placed.task t).blk m).mp ht).1) fun _ hx => Function.update_of_ne hx _ _

theorem Freed.hand_sub (h : Freed s s1 m u) (hp : s.Placed) (o : O) :
    (s1.handOver t m n).blkList o ⊆ s.blkList o :=
  fun _ hx => (h.mem_blkList hp).mp (List.Sublist.subset blkListRm_sublist hx)

theorem Freed.hand_mem (h : Freed s s1 m u) (hp : s.Placed) (ht : t ∈ s1.blkList m) :
    ∀ o, o ≠ m → ∀ x, x ∈ (s1.handOver t m n).blkList o ↔ x ∈ s.blkList o := by
  intro o ho x
  have heq : (s1.handOver t m n).blkList o = s1.blkList o := blkList_endWait_of_ne h.placed ht ho
  rw [heq,h.mem_blkList hp]

theorem Freed.hand_ticks (h : Freed s s1 m u) (hk : s.TickKept) : (s1.handOver t m n).TickKept := by
  have hsame : s1.TickKept := by
    obtain ⟨f,r,b,l,k,rfl⟩ := h.same
    exact hk.congr rfl rfl rfl
  exact hsame.ended

/-- The tasks and the owners fit together when the next one has the mutex. -/
theorem Freed.hand_steady (h : Freed s s1 m u) (hs : s.Steady idle) (ht : t ∈ s1.blkList m) (hn : 0 < n) :
    (s1.handOver t m n).Steady idle := by
  have hmem : t ∈ s.blkList m := (h.mem_blkList hs.placed).mp ht
  have hpend : (s1.taskState t).pending = true := (((h.placed.task t).blk m).mp ht).1
  have hti : t ≠ idle := fun heq => not_rdy_of_mem hs.placed hmem (heq ▸ hs.rdy)
  have htu : t ≠ u := by
    rintro rfl
    obtain ⟨j,hj⟩ := h.held
    exact hs.owned.other m t j hj hmem
  have hlive : (s1.handOver t m n).Live = s.Live := live_endWait.trans h.live
  have htlive : t ∈ s.Live := by
    rw [← h.live]
    cases hst : s1.taskState t <;> simp_all [Live,TaskStat.pending,TaskStat.live]
  have hother : ∀ x, s.taskState x = .rdy → (s1.handOver t m n).taskState x = .rdy := by
    intro x hx
    have hxt : x ≠ t := fun heq => not_rdy_of_mem hs.placed hmem (heq ▸ hx)
    refine (Function.update_of_ne hxt _ _).trans ?_
    obtain ⟨f,r,b,l,k,rfl⟩ := h.same
    exact hx
  have hout : m ∉ s1.mutexList t := fun hm => ((h.list t htlive m).mp hm).1 rfl
  have howned : (s1.handOver t m n).Owned idle := by
    refine hs.owned.pass hlive h.hand_obj (fun x hx o => ?_) (fun x hx => ?_) (fun x j hx => ?_) (fun j hj => ?_)
      (h.hand_sub hs.placed)
    · change o ∈ Function.update s1.mutexList t (m :: s1.mutexList t) x ↔ _
      by_cases hxt : x = t
      · subst hxt
        rw [Function.update_self,List.mem_cons,h.list x hx]
        simp
      · rw [Function.update_of_ne hxt,h.list x hx]
        simp [Ne.symm hxt]
    · change (Function.update s1.mutexList t (m :: s1.mutexList t) x).Nodup
      by_cases hxt : x = t
      · subst hxt
        rw [Function.update_self]
        exact List.nodup_cons.mpr ⟨hout,h.nodup x hx⟩
      · rw [Function.update_of_ne hxt]
        exact h.nodup x hx
    · obtain ⟨heq,rfl⟩ := Kobj.mutex.inj hx
      obtain rfl := Option.some.inj heq
      exact ⟨htlive,hti,hn,notMem_blkListRm h.placed m⟩
    · cases (Kobj.mutex.inj hj).1
  have hbase : (s1.handOver t m n).bPrio = s.bPrio ∧ (s1.handOver t m n).schedLock = s.schedLock ∧
      (s1.handOver t m n).active = s.active := by
    obtain ⟨f,r,b,l,k,rfl⟩ := h.same
    exact ⟨rfl,rfl,rfl⟩
  refine ⟨h.hand_placed ht,hother _ hs.rdy,hbase.1 ▸ hs.base,?_,howned,fun hl => ?_⟩
  · rw [hlive,hbase.1]
    exact hs.bases
  · rw [hbase.2.1] at hl
    rw [hbase.2.2]
    exact hother _ (hs.locked hl)

/-- All but the one who gave the mutex back run at their priorities. -/
theorem Freed.hand_settled (h : Freed s s1 m u) (hs : s.Steady idle) (hl : s1.blkList m = t :: l)
    (hset : Settled A s.bPrio s.boss s.prio) : Settled (A \ {u}) s.bPrio (s1.handOver t m n).boss s.prio := by
  have ht : t ∈ s1.blkList m := hl ▸ List.mem_cons_self
  obtain ⟨j,hj⟩ := h.held
  have hne : ∀ x ∈ s1.blkList m, x ≠ u := by
    rintro x hx rfl
    exact hs.owned.other m x j hj ((h.mem_blkList hs.placed).mp hx)
  refine settled_pass hs.placed (h.hand_placed ht) hset h.hand_obj (h.hand_mem hs.placed ht) (h.hand_sub hs.placed m)
    (fun x i hi => ?_) fun x hx y i hi => ?_
  · exact (Option.some.inj (Kobj.mutex.inj (hj.symm.trans hi)).1).symm
  · obtain rfl := Option.some.inj (Kobj.mutex.inj hi).1
    have hx1 : x ∈ s1.blkList m := List.Sublist.subset blkListRm_sublist hx
    rw [← h.prio t (hne t ht),← h.prio x (hne x hx1)]
    exact Ordered.head_le (hl ▸ h.placed.lists.ordered m) (hl ▸ hx1)

/-- Whoever still waits for the one who gave the mutex back waits for another one that he holds. -/
theorem Freed.hand_boss (h : Freed s s1 m u) (hs : s.Steady idle) (ht : t ∈ s1.blkList m) :
    (s1.handOver t m n).boss w = some u ↔ ∃ o ∈ s.mutexList u, some o ≠ some m ∧ w ∈ s.blkList o := by
  obtain ⟨j,hj⟩ := h.held
  have hlive : u ∈ s.Live := (hs.owned.live m u j hj).1
  have htu : t ≠ u := by
    rintro rfl
    exact hs.owned.other m t j hj ((h.mem_blkList hs.placed).mp ht)
  rw [boss_pass (h.hand_placed ht) h.hand_obj (h.hand_mem hs.placed ht)]
  constructor
  · rintro (⟨-,i,hi⟩ | ⟨o,hom,hw,i,hi⟩)
    · exact absurd (Option.some.inj (Kobj.mutex.inj hi).1) htu
    · exact ⟨o,(hs.owned.holds u hlive o).mpr ⟨i,hi⟩,fun heq => hom (Option.some.inj heq),hw⟩
  · rintro ⟨o,ho,hom,hw⟩
    exact Or.inr ⟨o,fun heq => hom (congrArg some heq),hw,(hs.owned.holds u hlive o).mp ho⟩

theorem Freed.hand_waits (h : Freed s s1 m u) (hp : s.Placed) {o : O} (hw : s.Waits o) :
    (s1.handOver t m n).Waits o := by
  by_cases hom : o = m
  · intro x _
    simp [Lacks,h.hand_obj,hom]
  · have hsub := h.hand_sub hp (t := t) (n := n) o
    have hflags : (s1.handOver t m n).pendFlags = s.pendFlags ∧ (s1.handOver t m n).pendOption = s.pendOption := by
      obtain ⟨f,r,b,l,k,rfl⟩ := h.same
      exact ⟨rfl,rfl⟩
    refine hw.congr ?_ hsub fun x _ => ⟨congrFun hflags.1 x,congrFun hflags.2 x⟩
    rw [h.hand_obj,Function.update_of_ne hom]

end Change

end Kernel

end FmacSdk.Rhino
