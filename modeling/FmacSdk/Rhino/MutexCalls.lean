import FmacSdk.Rhino.MutexPass
import FmacSdk.Rhino.ObjectCalls

/-! # Calls about mutexes

A mutex is locked, unlocked and deleted. A task that has to wait lends its priority to
the holder before it waits, and the holder gives back what was lent with the mutex.
-/
namespace FmacSdk.Rhino
open WaitList Donation Sched
variable {T O : Type*} [DecidableEq T] [DecidableEq O]

namespace Kernel

variable {s s' : Kernel T O} {t u w idle : T} {m : O} {wk : Wakes} {k : Kobj T} {n n' : ℕ} {time : BitVec 64}

omit [DecidableEq T] in
theorem krhinoMutexCreate_serves (h : s.Sound idle) (hnone : s.obj m = .none) (flag : AllocFlag) :
    s.Serves idle ∅ {m} wk (s.krhinoMutexCreate m flag) :=
  ⟨_,_,rfl,objCreate_sound h hnone (by simp) flag,
    Resting.congr rfl rfl rfl rfl rfl (fun _ ho => Function.update_of_ne ho _ _)
      fun _ _ _ => keeps_setObj (Scope.Keeps.of_ne (by simp [hnone])) _⟩

omit [DecidableEq T] in
/-- A mutex that nobody waits for has a new holder, or none. -/
theorem Sound.handle {l : T → List O} (h : s.Sound idle) (hnil : s.blkList m = [])
    (hlist : ∀ x ∈ s.Live, ∀ o, o ∈ l x ↔ (o = m ∧ ∃ n, k = .mutex (some x) n) ∨ (o ≠ m ∧ o ∈ s.mutexList x))
    (hnodup : ∀ x ∈ s.Live, (l x).Nodup)
    (hk : ∀ x n, k = .mutex (some x) n → x ∈ s.Live ∧ x ≠ idle ∧ 0 < n) :
    Sound { s.setObj m k with mutexList := l } idle := by
  have hboss : boss { s.setObj m k with mutexList := l } = s.boss := boss_setObj_nil h.placed hnil
  refine ⟨⟨⟨h.placed,h.rdy,h.base,h.bases,?_,h.locked⟩,?_,fun o ho t ht => ?_,h.ticks⟩,h.current⟩
  · refine h.owned.pass rfl rfl hlist hnodup (fun x n hx => ?_) (fun _ _ => hnil) fun o => List.Subset.refl _
    obtain ⟨hl,hi,hn⟩ := hk x n hx
    exact ⟨hl,hi,hn,fun hmem => by
      change x ∈ s.blkList m at hmem
      rw [hnil] at hmem
      cases hmem⟩
  · unfold Inherits
    rw [hboss]
    exact h.inherits
  · have hom : o ≠ m := by
      rintro rfl
      change t ∈ s.blkList o at ht
      rw [hnil] at ht
      cases ht
    have hw : (s.setObj m k).Waits o :=
      (h.waits o ho).congr (setObj_of_ne hom) (List.Subset.refl _) fun _ _ => ⟨rfl,rfl⟩
    exact hw t ht

/-- The task that runs takes a mutex that is free. -/
theorem Sound.lock_free (h : s.Sound idle) (hrdy : s.taskState s.active = .rdy) (hidle : s.active ≠ idle)
    (hm : s.obj m = .mutex none n) :
    Sound { s.setObj m (.mutex (some s.active) 1) with
      mutexList := Function.update s.mutexList s.active (m :: s.mutexList s.active) } idle := by
  have hlive : s.active ∈ s.Live := by simp [Live,hrdy,TaskStat.live]
  have hout : ∀ x ∈ s.Live, m ∉ s.mutexList x := by
    intro x hx hmem
    obtain ⟨n',hn'⟩ := (h.owned.holds x hx m).mp hmem
    rw [hm] at hn'
    cases hn'
  refine h.handle (h.owned.free m n hm) (fun x hx o => ?_) (fun x hx => ?_) fun x n hx => ?_
  · by_cases hxa : x = s.active
    · subst hxa
      by_cases ho : o = m
      · simp [ho]
      · simp [ho]
    · rw [Function.update_of_ne hxa]
      by_cases ho : o = m
      · simp [ho,hout x hx,Ne.symm hxa]
      · simp [ho]
  · by_cases hxa : x = s.active
    · subst hxa
      rw [Function.update_self]
      exact List.nodup_cons.mpr ⟨hout _ hx,h.owned.nodup _ hx⟩
    · rw [Function.update_of_ne hxa]
      exact h.owned.nodup x hx
  · obtain ⟨heq,rfl⟩ := Kobj.mutex.inj hx
    obtain rfl := Option.some.inj heq
    exact ⟨hlive,hidle,Nat.one_pos⟩

omit [DecidableEq T] in
/-- The count of how often its holder has locked a mutex does not matter to the tasks. -/
theorem Sound.nest (h : s.Sound idle) (hm : s.obj m = .mutex (some u) n) (hn' : 0 < n') :
    (s.setObj m (.mutex (some u) n')).Sound idle := by
  have hheld : ∀ o x, (∃ j, (s.setObj m (.mutex (some u) n')).obj o = .mutex (some x) j) ↔
      ∃ j, s.obj o = .mutex (some x) j := by
    intro o x
    by_cases ho : o = m
    · subst ho
      simp only [setObj_self,hm,Kobj.mutex.injEq]
      exact ⟨fun ⟨j,hx,_⟩ => ⟨n,hx,rfl⟩,fun ⟨j,hx,_⟩ => ⟨n',hx,rfl⟩⟩
    · simp only [setObj_of_ne ho]
  have hp' : (s.setObj m (.mutex (some u) n')).Placed := h.placed
  have hboss : (s.setObj m (.mutex (some u) n')).boss = s.boss := by
    funext w
    refine Option.ext fun x => ?_
    rw [boss_eq_some hp',boss_eq_some h.placed]
    refine exists_congr fun o => ?_
    simp only [exists_and_left,hheld]
    rfl
  have hown := h.owned
  refine ⟨⟨⟨h.placed,h.rdy,h.base,h.bases,⟨fun x hx o => ?_,hown.nodup,fun o x j hj => ?_,fun o x j hj => ?_,
    fun o x j hj => ?_,fun o j hj => ?_⟩,h.locked⟩,?_,fun o ho t ht => ?_,h.ticks⟩,h.current⟩
  · rw [hheld]
    exact hown.holds x hx o
  · obtain ⟨j',hj'⟩ := (hheld o x).mp ⟨j,hj⟩
    exact hown.live o x j' hj'
  · by_cases ho : o = m
    · rw [ho,setObj_self] at hj
      exact (Kobj.mutex.inj hj).2 ▸ hn'
    · rw [setObj_of_ne ho] at hj
      exact hown.nested o x j hj
  · obtain ⟨j',hj'⟩ := (hheld o x).mp ⟨j,hj⟩
    exact hown.other o x j' hj'
  · by_cases ho : o = m
    · rw [ho,setObj_self] at hj
      cases (Kobj.mutex.inj hj).1
    · rw [setObj_of_ne ho] at hj
      exact hown.free o j hj
  · unfold Inherits
    rw [hboss]
    exact h.inherits
  · by_cases hom : o = m
    · subst hom
      simp [Lacks,setObj_self]
    · have hw : (s.setObj m (.mutex (some u) n')).Waits o :=
        (h.waits o ho).congr (setObj_of_ne hom) (List.Subset.refl _) fun _ _ => ⟨rfl,rfl⟩
      exact hw t ht

/-! ## Locking -/

/-- The holder runs at no less than the one who is about to wait lends him. -/
theorem lock_raise (h : s.Sound idle) (hrdy : s.taskState s.active = .rdy) (hm : s.obj m = .mutex (some u) n) :
    ∃ s1, (if s.prio s.active < s.prio u then taskPriChange s.priFuel s u (s.prio s.active) else some s) = some s1 ∧
      Repri s s1 ∧ s1.Placed ∧
      Settled s.Live s.bPrio (Function.update s.boss s.active (some u)) s1.prio := by
  have hu : u ∈ s.Live := (h.owned.live m u n hm).1
  have hnone : s.boss s.active = none := boss_of_not_pending (by simp [hrdy,TaskStat.pending])
  by_cases hlt : s.prio s.active < s.prio u
  · rw [if_pos hlt]
    -- the holder is to run as if the priority of the one who waits were his own
    obtain ⟨hset,hleast⟩ := h.inherits.promise hu hlt.le
    obtain ⟨prio',hwalk,hsettled,hmoved⟩ := walk_raise (boss_ne_self h.placed h.owned) (boss_live h.placed h.owned)
      (fun x hx => (h.placed.task x).known hx) s.bPrio hu hset hleast hlt (n := s.taskHead.length)
      (Nat.lt_succ_of_le List.countP_le_length)
    have hv : s.prio s.active < priMax :=
      (h.placed.task s.active).bound (by simp [hrdy,TaskStat.live])
    obtain ⟨s1,hs1,hp1,hr,hprio⟩ := taskPriChange_walk h.placed h.owned h.bound hu hv hwalk
    refine ⟨s1,hs1,hr,hp1,?_⟩
    rw [hprio]
    have hsame : prio' s.active = s.prio s.active := by
      by_contra hne
      exact lt_irrefl _ (hmoved s.active hne).1
    have hle : s.prio s.active ≤ s.bPrio u := hlt.le.trans ((h.inherits u hu).2 mem_lent_base)
    exact hsettled.join hle (fun w hw => Function.update_of_ne hw _ _) hnone (Function.update_self ..) hsame
  · rw [if_neg hlt]
    refine ⟨s,rfl,Repri.refl s,h.placed,?_⟩
    have hshift : Settled (s.Live \ ∅) s.bPrio (Function.update s.boss s.active (some u)) s.prio := by
      refine h.inherits.shift ∅ fun x => ?_
      by_cases hx : x = s.active
      · subst hx
        refine Or.inr ⟨fun t ht => ?_,fun t ht => ?_⟩
        · rw [hnone] at ht
          cases ht
        · rw [Function.update_self] at ht
          exact Option.some.inj ht ▸ not_lt.mp hlt
      · exact Or.inl (Function.update_of_ne hx _ _)
    rwa [Set.sdiff_empty] at hshift

theorem krhinoMutexLock_serves (h : s.Sound idle) (m : O) (ticks : BitVec 64)
    (hc : s.running = true → s.intrptNested = 0 → s.active ≠ idle ∧ s.obj m ≠ .mutex (some s.active) mutexNestedMax) :
    s.Serves idle ∅ {m} wk (s.krhinoMutexLock m ticks) := by
  unfold krhinoMutexLock
  by_cases hrun : (!s.running) = true
  · rw [if_pos hrun]
    exact h.same _
  rw [if_neg hrun]
  by_cases hin : 0 < s.intrptNested
  · rw [if_pos hin]
    exact h.same _
  rw [if_neg hin]
  have hnest := Nat.eq_zero_of_not_pos hin
  have hrdy := h.current.rdy (Or.inl hnest)
  obtain ⟨hidle,hmax⟩ := hc (by simpa using hrun) hnest
  cases hm : s.obj m with
  | mutex mutexTask nested =>
    cases mutexTask with
    | none =>
      refine ⟨_,_,rfl,h.lock_free hrdy hidle hm,Resting.congr rfl rfl rfl rfl rfl (fun _ ho => setObj_of_ne ho)
        fun _ o _ => keeps_setObj ?_ o⟩
      rw [hm]
      exact Scope.Keeps.mutex (by simp)
    | some u =>
      simp only
      by_cases hself : s.active = u
      · rw [if_pos hself,if_neg fun heq => hmax (by rw [hm,heq,hself])]
        refine ⟨_,_,rfl,h.nest hm (Nat.succ_pos _),resting_setObj (Set.mem_singleton m) fun _ => ?_⟩
        rw [hm]
        exact Scope.Keeps.mutex fun _ _ _ ht => ht
      rw [if_neg hself]
      by_cases hwait : ticks = noWait
      · rw [if_pos hwait]
        exact h.same _
      rw [if_neg hwait]
      by_cases hlock : 0 < s.schedLock
      · rw [if_pos hlock]
        exact h.same _
      rw [if_neg hlock]
      obtain ⟨s1,hs1,hr,hp1,hsettled⟩ := lock_raise h hrdy hm
      rw [hs1,Option.bind_some]
      have hpos : 0#64 < ticks := by
        rw [BitVec.lt_def]
        exact Nat.pos_of_ne_zero fun h0 => hwait (BitVec.eq_of_toNat_eq h0)
      have hsteady := hr.steady h.toSteady hp1
      have hboss1 := hr.boss
      have hlive1 := hr.live
      have hwaits1 : ∀ o ∉ (∅ : Set O), s1.Waits o := fun o ho => hr.waits h.placed hp1 (h.waits o ho)
      have hrest : Resting (s.scope ∅ {m} wk) s s1 := hr.resting
      have hbase1 : s1.bPrio = s.bPrio := by
        obtain ⟨f,r,b,rfl⟩ := hr
        rfl
      obtain ⟨hact,hstate1,hobj1,hlock1⟩ : s1.active = s.active ∧ s1.taskState = s.taskState ∧ s1.obj = s.obj ∧
          s1.schedLock = s.schedLock := by
        obtain ⟨f,r,b,rfl⟩ := hr
        exact ⟨rfl,rfl,rfl,rfl⟩
      have hrdy1 : s1.taskState s1.active = .rdy := by rw [hstate1,hact,hrdy]
      have hfree : s1.active ∈ s.Untimed := hact ▸ untimed_of_rdy h.placed hrdy
      have hm1 : s1.obj m = .mutex (some u) nested := by rw [hobj1,hm]
      have hlacks : s1.Lacks m s1.active := by simp [Lacks,hm1]
      have hpend : (s1.pend m ticks).Steady idle := by
        refine hsteady.pend hrdy1 (hact ▸ hidle) ?_ hpos (fun j hj => ?_) fun j hj => ?_
        · rw [hlock1]
          exact Nat.eq_zero_of_not_pos hlock
        · rw [hm1] at hj
          cases hj
        · rw [hm1,hact] at hj
          exact hself (Option.some.inj (Kobj.mutex.inj hj).1).symm
      have hkept : (s1.pend m ticks).Kept idle ∅ := by
        refine ⟨hpend,?_,fun o ho => (hwaits1 o ho).pend hpos hlacks,pend_ticks hp1 (hr.ticks h.ticks) hrdy1 hpos⟩
        have hprio : (s1.pend m ticks).prio = s1.prio := by rw [Kernel.pend,pendToBlkObj_eq hpos]
        have hbase : (s1.pend m ticks).bPrio = s.bPrio := hbase1
        unfold Inherits
        rw [live_pend hrdy1 hpos,boss_pend hpos,hprio,hbase,hm1,hlive1,hboss1,hact]
        exact hsettled
      exact hkept.serves_exit (hrest.trans (resting_pend hrdy1 hpos hfree hact)) .blocked
  | _ => exact h.same _

/-! ## Unlocking -/

omit [DecidableEq T] in
/-- A mutex that nobody waits for is given back: its holder ran at his own priority, as far
as that mutex goes. -/
theorem look_same (h : s.Sound idle) (hu : u ∈ s.Live) (hnil : s.blkList m = []) :
    (s.priLookLoop (some m) (s.mutexList u) (s.bPrio u) (s.bPrio u)).1 = s.prio u := by
  have hb : ∀ w, s.boss w = some u ↔ ∃ o ∈ s.mutexList u, some o ≠ some m ∧ w ∈ s.blkList o := by
    intro w
    rw [boss_iff h.placed h.owned hu]
    refine exists_congr fun o => and_congr_right fun _ => ?_
    constructor
    · intro hw
      refine ⟨fun heq => ?_,hw⟩
      rw [Option.some.inj heq,hnil] at hw
      cases hw
    · exact fun hw => hw.2
  exact (look_isLeast h.placed.lists.ordered hb).unique (h.inherits u hu)

theorem Sound.unlock_free (h : s.Sound idle)
    (hm : s.obj m = .mutex (some s.active) n) (hnil : s.blkList m = []) (n' : ℕ) :
    Sound { s.setObj m (.mutex none n') with
      mutexList := Function.update s.mutexList s.active ((s.mutexList s.active).filter fun o => some o ≠ some m) } idle := by
  have hout : ∀ x ∈ s.Live, x ≠ s.active → m ∉ s.mutexList x := by
    intro x hx hxa hmem
    obtain ⟨j,hj⟩ := (h.owned.holds x hx m).mp hmem
    rw [hm] at hj
    exact hxa (Option.some.inj (Kobj.mutex.inj hj).1).symm
  refine h.handle hnil (fun x hx o => ?_) (fun x hx => ?_) fun x j hx => ?_
  · by_cases hxa : x = s.active
    · subst hxa
      simp [and_comm]
    · rw [Function.update_of_ne hxa]
      by_cases ho : o = m
      · simp [ho,hout x hx hxa]
      · simp [ho]
  · by_cases hxa : x = s.active
    · subst hxa
      rw [Function.update_self]
      exact (h.owned.nodup _ hx).filter _
    · rw [Function.update_of_ne hxa]
      exact h.owned.nodup x hx
  · cases (Kobj.mutex.inj hx).1

/-- The first of those who wait gets the mutex, and the one who gives it back runs at what is left to him. -/
theorem Sound.unlock_pass {s1 : Kernel T O} {l : List T} (h : s.Sound idle) (hrdy : s.taskState s.active = .rdy)
    (hf : Freed s s1 m s.active) (hl : s1.blkList m = t :: l)
    (hprio : s1.prio = Function.update s.prio s.active
      (s.priLookLoop (some m) (s.mutexList s.active) (s.bPrio s.active) (s.bPrio s.active)).1) :
    (s1.handOver t m 1).Kept idle ∅ := by
  have ht : t ∈ s1.blkList m := hl ▸ List.mem_cons_self
  have hsteady : (s1.handOver t m 1).Steady idle := hf.hand_steady h.toSteady ht Nat.one_pos
  have hset : Settled (s.Live \ {s.active}) s.bPrio (s1.handOver t m 1).boss s.prio :=
    hf.hand_settled h.toSteady hl h.inherits
  have hleast := look_isLeast h.placed.lists.ordered fun w => hf.hand_boss (w := w) (n := 1) h.toSteady ht
  have hmem : t ∈ s.blkList m := (hf.mem_blkList h.placed).mp ht
  have hta : s.active ≠ t := fun heq => not_rdy_of_mem h.placed hmem (heq ▸ hrdy)
  have hstate : s1.taskState = s.taskState ∧ s1.bPrio = s.bPrio := by
    obtain ⟨f,r,b,l,k,rfl⟩ := hf.same
    exact ⟨rfl,rfl⟩
  have hrdy2 : (s1.handOver t m 1).taskState s.active = .rdy :=
    (Function.update_of_ne hta _ _).trans (hstate.1 ▸ hrdy)
  have hnone : (s1.handOver t m 1).boss s.active = none :=
    boss_of_not_pending (by rw [hrdy2]; rfl)
  refine ⟨hsteady,?_,fun o ho => hf.hand_waits h.placed (h.waits o ho),hf.hand_ticks h.ticks⟩
  have hlive : (s1.handOver t m 1).Live = s.Live := live_endWait.trans hf.live
  have hprio2 : (s1.handOver t m 1).prio = Function.update s.prio s.active
      (s.priLookLoop (some m) (s.mutexList s.active) (s.bPrio s.active) (s.bPrio s.active)).1 := hprio
  have hbase : (s1.handOver t m 1).bPrio = s.bPrio := hstate.2
  unfold Inherits
  rw [hlive,hbase,hprio2]
  intro x hx
  exact hset.update hleast hx (by rw [hnone]; simp)

theorem krhinoMutexUnlock_serves (h : s.Sound idle) (m : O) :
    s.Serves idle ∅ {m} ⟨.finish,fun _ => ∃ u n, s.obj m = .mutex u n⟩ (s.krhinoMutexUnlock m) := by
  unfold krhinoMutexUnlock
  by_cases hrun : (!s.running) = true
  · rw [if_pos hrun]
    exact h.same _
  rw [if_neg hrun]
  by_cases hin : 0 < s.intrptNested
  · rw [if_pos hin]
    exact h.same _
  rw [if_neg hin]
  have hrdy := h.current.rdy (Or.inl (Nat.eq_zero_of_not_pos hin))
  cases hm : s.obj m with
  | mutex mutexTask nested =>
    simp only
    by_cases hown : mutexTask ≠ some s.active
    · rw [if_pos hown]
      exact h.same _
    rw [if_neg hown]
    obtain rfl := not_not.mp hown
    by_cases hmore : 0 < nested - 1
    · rw [if_pos hmore]
      refine ⟨_,_,rfl,h.nest hm hmore,resting_setObj (Set.mem_singleton m) fun _ => ?_⟩
      rw [hm]
      exact Scope.Keeps.mutex fun _ _ _ ht => ht
    rw [if_neg hmore]
    have halive : s.active ∈ s.Live := by simp [Live,hrdy,TaskStat.live]
    obtain ⟨s1,hs1,hp1,hr,hprio,hsame⟩ := release_rdy (s := s.setObj m (.mutex (some s.active) (nested - 1)))
      (t := s.active) h.placed hrdy (h.bound _ halive) (some m)
    rw [hs1,Option.bind_some]
    have hlook : ∀ rel l p q, (s.setObj m (.mutex (some s.active) (nested - 1))).priLookLoop rel l p q =
        s.priLookLoop rel l p q := priLookLoop_congr rfl rfl
    rw [hlook] at hprio hsame
    have hout : ∀ x ∈ s.Live, x ≠ s.active → m ∉ s.mutexList x := by
      intro x hx hxa hmem
      obtain ⟨j,hj⟩ := (h.owned.holds x hx m).mp hmem
      rw [hm] at hj
      exact hxa (Option.some.inj (Kobj.mutex.inj hj).1).symm
    have hmutex : s1.mutexList = Function.update s.mutexList s.active
        ((s.mutexList s.active).filter fun o => some o ≠ some m) := by
      obtain ⟨f,r,b,rfl⟩ := hr
      rfl
    have hfreed : Freed s s1 m s.active := by
      refine ⟨?_,⟨_,hm⟩,hp1,fun x hx => ?_,fun x hx o => ?_,fun x hx => ?_⟩
      · obtain ⟨f,r,b,rfl⟩ := hr
        exact ⟨f,r,b,_,_,rfl⟩
      · rw [hprio]
        exact Function.update_of_ne hx _ _
      · rw [hmutex]
        by_cases hxa : x = s.active
        · subst hxa
          simp [and_comm]
        · rw [Function.update_of_ne hxa]
          exact ⟨fun ho => ⟨fun heq => hout x hx hxa (heq ▸ ho),ho⟩,fun ho => ho.2⟩
      · rw [hmutex]
        by_cases hxa : x = s.active
        · subst hxa
          rw [Function.update_self]
          exact (h.owned.nodup _ hx).filter _
        · rw [Function.update_of_ne hxa]
          exact h.owned.nodup x hx
    cases hl : s1.blkList m with
    | nil =>
      have hnil : s.blkList m = [] := by
        refine List.eq_nil_iff_forall_not_mem.mpr fun x hx => ?_
        rw [← hfreed.mem_blkList h.placed,hl] at hx
        cases hx
      obtain rfl := hsame (look_same h halive hnil).symm
      have hfree := h.unlock_free hm hnil (nested - 1)
      simp only [Kernel.setObj,Function.update_idem] at hfree ⊢
      refine ⟨_,_,rfl,hfree,Resting.congr rfl rfl rfl rfl rfl (fun _ ho => Function.update_of_ne ho _ _)
        fun _ o _ => keeps_setObj ?_ o⟩
      rw [hm]
      exact Scope.Keeps.mutex fun t _ hne heq => absurd (Option.some.inj heq).symm hne
    | cons t l =>
      have ht : t ∈ s1.blkList m := hl ▸ List.mem_cons_self
      have hpend : (s1.taskState t).pending = true := (((hp1.task t).blk m).mp ht).1
      simp only [pendTaskEnd_eq hpend,Option.bind_some]
      refine (h.unlock_pass hrdy hfreed hl hprio).serves_exit ?_ _
      exact hfreed.resting ht (Set.mem_singleton m) rfl (Or.inr rfl) fun _ => ⟨_,_,rfl⟩
  | _ => exact h.same _

/-! ## Deletion -/

/-- The holder of a mutex that is deleted runs at what is left to him. -/
theorem Sound.release (h : s.Sound idle) (hm : s.obj m = .mutex (some u) n) :
    ∃ s', (s.setObj m .none).mutexRelease u (some m) = some s' ∧ s'.Kept idle {m} ∧ s'.obj m = .none ∧
      Resting (s.scope ∅ {m} .del) s s' := by
  have hu : u ∈ s.Live := (h.owned.live m u n hm).1
  have hlook : ∀ rel l p q, (s.setObj m .none).priLookLoop rel l p q = s.priLookLoop rel l p q :=
    priLookLoop_congr rfl rfl
  let s1 : Kernel T O := { s.setObj m .none with
    mutexList := Function.update s.mutexList u ((s.mutexList u).filter fun o => some o ≠ some m) }
  have hrelease : (s.setObj m .none).mutexPriLook u (some m) =
      ((s.priLookLoop (some m) (s.mutexList u) (s.bPrio u) (s.bPrio u)).1,s1) := by
    have hord : ∀ o, Ordered (s.setObj m .none).prio ((s.setObj m .none).blkList o) := h.placed.lists.ordered
    rw [mutexPriLook_eq hord,hlook]
    rfl
  have hout : ∀ x ∈ s.Live, x ≠ u → m ∉ s.mutexList x := by
    intro x hx hxu hmem
    obtain ⟨j,hj⟩ := (h.owned.holds x hx m).mp hmem
    rw [hm] at hj
    exact hxu (Option.some.inj (Kobj.mutex.inj hj).1).symm
  have howned : s1.Owned idle := by
    refine h.owned.pass (k := .none) rfl rfl (fun x hx o => ?_) (fun x hx => ?_) (by simp) (by simp)
      fun o => List.Subset.refl _
    · change o ∈ Function.update s.mutexList u ((s.mutexList u).filter fun o => some o ≠ some m) x ↔ _
      by_cases hxu : x = u
      · subst hxu
        simp [and_comm]
      · rw [Function.update_of_ne hxu]
        by_cases ho : o = m
        · simp [ho,hout x hx hxu]
        · simp [ho]
    · change (Function.update s.mutexList u ((s.mutexList u).filter fun o => some o ≠ some m) x).Nodup
      by_cases hxu : x = u
      · subst hxu
        rw [Function.update_self]
        exact (h.owned.nodup x hx).filter _
      · rw [Function.update_of_ne hxu]
        exact h.owned.nodup x hx
  have hp1 : s1.Placed := h.placed
  have hsteady : s1.Steady idle := ⟨hp1,h.rdy,h.base,h.bases,howned,h.locked⟩
  have hset : Settled (s.Live \ {u}) s.bPrio s1.boss s.prio :=
    settled_pass (k := .none) h.placed hp1 h.inherits rfl (fun _ _ _ => Iff.rfl) (List.Subset.refl _)
      (fun x j hj => (Option.some.inj (Kobj.mutex.inj (hm.symm.trans hj)).1).symm) (by simp)
  have hb : ∀ w, s1.boss w = some u ↔ ∃ o ∈ s.mutexList u, some o ≠ some m ∧ w ∈ s.blkList o := by
    intro w
    rw [boss_pass (s := s) (k := .none) hp1 rfl (fun _ _ _ => Iff.rfl)]
    constructor
    · rintro (⟨-,j,hj⟩ | ⟨o,hom,hw,j,hj⟩)
      · cases hj
      · exact ⟨o,(h.owned.holds u hu o).mpr ⟨j,hj⟩,fun heq => hom (Option.some.inj heq),hw⟩
    · rintro ⟨o,ho,hom,hw⟩
      exact Or.inr ⟨o,fun heq => hom (congrArg some heq),hw,(h.owned.holds u hu o).mp ho⟩
  have hleast := look_isLeast h.placed.lists.ordered hb
  have hwaits : ∀ o ∉ ({m} : Set O), s1.Waits o := fun o ho =>
    (h.waits o (Set.notMem_empty o)).congr (setObj_of_ne ho) (List.Subset.refl _) fun _ _ => ⟨rfl,rfl⟩
  have hset1 : Resting (s.scope ∅ {m} .del) s s1 :=
    Resting.congr rfl rfl rfl rfl rfl (fun _ ho => setObj_of_ne ho) fun hb => absurd hb scope_del
  unfold mutexRelease
  simp only [hrelease]
  by_cases heq : (s.priLookLoop (some m) (s.mutexList u) (s.bPrio u) (s.bPrio u)).1 = s1.prio u
  · rw [if_neg (not_not.mpr heq)]
    have hinherits : s1.Inherits := hset.insert (heq ▸ hleast)
    exact ⟨s1,rfl,⟨hsteady,hinherits,hwaits,h.ticks⟩,setObj_self,hset1⟩
  · rw [if_pos heq]
    obtain ⟨s2,hs2,hr,hsteady2,hinherits⟩ := hsteady.priChange hu hset hleast
    refine ⟨s2,hs2,⟨hsteady2,hinherits,fun o ho => hr.waits hp1 hsteady2.placed (hwaits o ho),?_⟩,?_,?_⟩
    · exact hr.ticks (s := s1) h.ticks
    · obtain ⟨f,r,b,rfl⟩ := hr
      exact setObj_self
    · exact hset1.trans hr.resting

theorem krhinoMutexDel_serves (h : s.Sound idle) (m : O) (flag : AllocFlag) :
    s.Serves idle ∅ {m} .del (s.krhinoMutexDel m flag) := by
  unfold krhinoMutexDel
  by_cases hin : 0 < s.intrptNested
  · rw [if_pos hin]
    exact h.same _
  rw [if_neg hin]
  cases hm : s.obj m with
  | mutex mutexTask nested =>
    simp only
    by_cases hflag : s.objAllocFlag m ≠ flag
    · rw [if_pos hflag]
      exact h.same _
    rw [if_neg hflag]
    cases mutexTask with
    | none =>
      rw [Option.bind_some]
      have hset : (s.setObj m .none).Kept idle {m} :=
        (h.toKept.mono (Set.empty_subset {m})).setObj (by simp [hm]) (by simp) (by simp)
      exact hset.delete setObj_self (resting_setObj (Set.mem_singleton m) fun hb => absurd hb scope_del) _
    | some u =>
      obtain ⟨s1,hs1,hk,hnone,hr⟩ := h.release hm
      simp only [hs1,Option.bind_some]
      exact hk.delete hnone hr _
  | _ => exact h.same _

end Kernel

end FmacSdk.Rhino
