import FmacSdk.Foundation.Donation
import FmacSdk.Rhino.Kernel
import Mathlib.Order.Lattice.Nat

/-! # Inherited priorities

Whoever waits for a mutex lends his priority to the task that holds it. The loop of
task_pri_change walks from a task to the holder of the mutex it waits for, and
leaves every task at the most urgent of its base and of what it is lent.
-/
namespace FmacSdk.Rhino
open WaitList Donation
variable {T O : Type*}

namespace Kernel

/-- The task that holds the mutex that `t` waits for. -/
def boss (s : Kernel T O) (t : T) : Option T :=
  if (s.taskState t).pending then
    match (s.blkObj t).map s.obj with
    | some (.mutex mutexTask _) => mutexTask
    | _ => none
  else none

/-- The tasks that exist. -/
def Live (s : Kernel T O) : Set T := {t | (s.taskState t).live = true}

/-- Every task runs at the most urgent of its base and of what it is lent. -/
def Inherits (s : Kernel T O) : Prop := Settled s.Live s.bPrio s.boss s.prio

/-- Each mutex is in the list of the task that holds it, and only there; a task that
waits for one waits for another task. -/
structure Owned (s : Kernel T O) (idle : T) : Prop where
  holds : ∀ t, t ∈ s.Live → ∀ m, m ∈ s.mutexList t ↔ ∃ n, s.obj m = .mutex (some t) n
  nodup : ∀ t, t ∈ s.Live → (s.mutexList t).Nodup
  live : ∀ m t n, s.obj m = .mutex (some t) n → t ∈ s.Live ∧ t ≠ idle
  nested : ∀ m t n, s.obj m = .mutex (some t) n → 0 < n
  other : ∀ m t n, s.obj m = .mutex (some t) n → t ∉ s.blkList m
  free : ∀ m n, s.obj m = .mutex none n → s.blkList m = []

/-- Only priorities were changed, and places in the lists that go by them. -/
def Repri (s s' : Kernel T O) : Prop := ∃ f r b, s' = { s with prio := f, ready := r, blkList := b }

variable {s s' s'' : Kernel T O} {t u w idle : T} {m : O} {v n : ℕ} {rel : Option O}

theorem Repri.refl (s : Kernel T O) : Repri s s := ⟨s.prio,s.ready,s.blkList,rfl⟩

theorem Repri.trans (h : Repri s s') (h' : Repri s' s'') : Repri s s'' := by
  obtain ⟨f,r,b,rfl⟩ := h
  obtain ⟨f',r',b',rfl⟩ := h'
  exact ⟨f',r',b',rfl⟩

theorem Repri.boss (h : Repri s s') : s'.boss = s.boss := by
  obtain ⟨f,r,b,rfl⟩ := h
  rfl

theorem Repri.mem_blkList (h : Repri s s') (hp : s.Placed) (hp' : s'.Placed) (o : O) :
    t ∈ s'.blkList o ↔ t ∈ s.blkList o := by
  rw [(hp'.task t).blk,(hp.task t).blk]
  obtain ⟨f,r,b,rfl⟩ := h
  rfl

theorem Repri.owned (h : Repri s s') (hp : s.Placed) (hp' : s'.Placed) (ho : s.Owned idle) : s'.Owned idle := by
  have hmem := fun t m => h.mem_blkList (t := t) hp hp' m
  obtain ⟨f,r,b,rfl⟩ := h
  refine ⟨ho.holds,ho.nodup,ho.live,ho.nested,fun m t n hm => ?_,fun m n hm => ?_⟩
  · rw [hmem]
    exact ho.other m t n hm
  · refine List.eq_nil_iff_forall_not_mem.mpr fun t ht => ?_
    rw [hmem,ho.free m n hm] at ht
    cases ht

theorem boss_eq_some (hp : s.Placed) : s.boss w = some u ↔ ∃ m n, w ∈ s.blkList m ∧ s.obj m = .mutex (some u) n := by
  unfold boss
  constructor
  · intro h
    split_ifs at h with hpend
    cases hobj : s.blkObj w with
    | none => simp [hobj] at h
    | some m =>
      rw [hobj,Option.map_some] at h
      cases hm : s.obj m with
      | mutex mutexTask n =>
        simp only [hm] at h
        exact ⟨m,n,((hp.task w).blk m).mpr ⟨hpend,hobj⟩,by rw [hm,h]⟩
      | _ => simp [hm] at h
  · rintro ⟨m,n,hw,hm⟩
    obtain ⟨hpend,hobj⟩ := ((hp.task w).blk m).mp hw
    rw [if_pos hpend,hobj,Option.map_some,hm]

theorem boss_ne_self (hp : s.Placed) (ho : s.Owned idle) (t : T) : s.boss t ≠ some t := by
  intro h
  obtain ⟨m,n,hw,hm⟩ := (boss_eq_some hp).mp h
  exact ho.other m t n hm hw

theorem boss_live (hp : s.Placed) (ho : s.Owned idle) (t u : T) (h : s.boss t = some u) : u ∈ s.Live := by
  obtain ⟨m,n,-,hm⟩ := (boss_eq_some hp).mp h
  exact (ho.live m u n hm).1

/-- Those that wait for a task are in the wait lists of the mutexes it holds. -/
theorem boss_iff (hp : s.Placed) (ho : s.Owned idle) (hu : u ∈ s.Live) :
    s.boss w = some u ↔ ∃ m ∈ s.mutexList u, w ∈ s.blkList m := by
  rw [boss_eq_some hp]
  constructor
  · rintro ⟨m,n,hw,hm⟩
    exact ⟨m,(ho.holds u hu m).mpr ⟨n,hm⟩,hw⟩
  · rintro ⟨m,hmem,hw⟩
    obtain ⟨n,hm⟩ := (ho.holds u hu m).mp hmem
    exact ⟨m,n,hw,hm⟩

theorem boss_of_not_pending (h : (s.taskState t).pending = false) : s.boss t = none := by
  unfold boss
  rw [h]
  rfl

variable [DecidableEq T] [DecidableEq O]

omit [DecidableEq T] in
/-- The loop finds the least of the start value and of the priorities of those who wait. -/
theorem priLookLoop_spec (hord : ∀ o, Ordered s.prio (s.blkList o)) (rel : Option O) (l : List O) {pri newPri : ℕ}
    (hle : newPri ≤ pri) :
    (s.priLookLoop rel l pri newPri).2 = l.filter (fun m => some m ≠ rel) ∧
      (s.priLookLoop rel l pri newPri).1 ≤ newPri ∧
      (∀ m ∈ l, some m ≠ rel → ∀ w ∈ s.blkList m, (s.priLookLoop rel l pri newPri).1 ≤ s.prio w) ∧
      ((s.priLookLoop rel l pri newPri).1 = newPri ∨
        ∃ m ∈ l, some m ≠ rel ∧ ∃ w ∈ s.blkList m, s.prio w = (s.priLookLoop rel l pri newPri).1) := by
  induction l generalizing pri newPri with
  | nil => simp [priLookLoop]
  | cons m l ih =>
    by_cases hrel : some m = rel
    · obtain ⟨hlist,hbase,hall,hmem⟩ := ih hle
      have hstep : s.priLookLoop rel (m :: l) pri newPri = s.priLookLoop rel l pri newPri := by
        rw [priLookLoop,if_pos hrel]
      rw [hstep]
      refine ⟨by rw [hlist]; simp [hrel],hbase,?_,?_⟩
      · intro m' hm' hne
        rcases List.mem_cons.mp hm' with rfl | hm'
        · exact absurd hrel hne
        · exact hall m' hm' hne
      · exact hmem.imp_right fun ⟨m',hm',hrest⟩ => ⟨m',List.mem_cons_of_mem _ hm',hrest⟩
    · -- the value read last is not more urgent than the result so far
      obtain ⟨pri',new',hstep,hle',hnew,hhead,hfrom⟩ : ∃ pri' new', s.priLookLoop rel (m :: l) pri newPri =
          ((s.priLookLoop rel l pri' new').1,m :: (s.priLookLoop rel l pri' new').2) ∧ new' ≤ pri' ∧ new' ≤ newPri ∧
            (∀ w ∈ s.blkList m, new' ≤ s.prio w) ∧ (new' = newPri ∨ ∃ w ∈ s.blkList m, s.prio w = new') := by
        cases hblk : s.blkList m with
        | nil =>
          refine ⟨pri,newPri,?_,hle,le_rfl,by simp,Or.inl rfl⟩
          rw [priLookLoop,if_neg hrel]
          simp [hblk,not_lt.mpr hle]
        | cons x rest =>
          have hfirst : ∀ w ∈ x :: rest, s.prio x ≤ s.prio w := fun w hw =>
            Ordered.head_le (hblk ▸ hord m) hw
          refine ⟨s.prio x,min (s.prio x) newPri,?_,min_le_left _ _,min_le_right _ _,
            fun w hw => (min_le_left _ _).trans (hfirst w hw),?_⟩
          · rw [priLookLoop,if_neg hrel]
            have hmin : (if s.prio x < newPri then s.prio x else newPri) = min (s.prio x) newPri := by
              split_ifs with hlt
              · exact (min_eq_left hlt.le).symm
              · exact (min_eq_right (not_lt.mp hlt)).symm
            simp only [hblk,hmin]
          · rcases le_total (s.prio x) newPri with hx | hx
            · exact Or.inr ⟨x,List.mem_cons_self,(min_eq_left hx).symm⟩
            · exact Or.inl (min_eq_right hx)
      obtain ⟨hlist,hbase,hall,hmem⟩ := ih hle'
      rw [hstep]
      refine ⟨by simp [hlist,hrel],hbase.trans hnew,?_,?_⟩
      · intro m' hm' hne w hw
        rcases List.mem_cons.mp hm' with rfl | hm'
        · exact hbase.trans (hhead w hw)
        · exact hall m' hm' hne w hw
      · rcases hmem with heq | ⟨m',hm',hrest⟩
        · rcases hfrom with hsame | ⟨w,hw,hwn⟩
          · exact Or.inl (heq.trans hsame)
          · exact Or.inr ⟨m,List.mem_cons_self,hrel,w,hw,hwn.trans heq.symm⟩
        · exact Or.inr ⟨m',List.mem_cons_of_mem _ hm',hrest⟩

omit [DecidableEq T] in
/-- The loop reads the wait lists and the priorities. -/
theorem priLookLoop_congr (hb : s'.blkList = s.blkList) (hp : s'.prio = s.prio) (rel : Option O) (l : List O)
    (pri newPri : ℕ) : s'.priLookLoop rel l pri newPri = s.priLookLoop rel l pri newPri := by
  induction l generalizing pri newPri with
  | nil => rfl
  | cons m l ih => simp only [priLookLoop,hb,hp,ih]

omit [DecidableEq T] in
/-- mutex_pri_look finds the priority at which a task is to run. -/
theorem look_isLeast (hord : ∀ o, Ordered s.prio (s.blkList o)) {b : T → Option T}
    (hb : ∀ w, b w = some u ↔ ∃ m ∈ s.mutexList u, some m ≠ rel ∧ w ∈ s.blkList m) :
    IsLeast (lent s.bPrio b s.prio u) (s.priLookLoop rel (s.mutexList u) (s.bPrio u) (s.bPrio u)).1 := by
  obtain ⟨-,hbase,hall,hmem⟩ := priLookLoop_spec hord rel (s.mutexList u) (le_refl (s.bPrio u))
  refine isLeast_lent_iff.mpr ⟨?_,hbase,fun w hw => ?_⟩
  · refine hmem.imp_right ?_
    rintro ⟨m,hm,hne,w,hw,hwn⟩
    exact ⟨w,(hb w).mpr ⟨m,hm,hne,hw⟩,hwn⟩
  · obtain ⟨m,hm,hne,hmw⟩ := (hb w).mp hw
    exact hall m hm hne w hmw

/-- The list that is left has no mutex that is given back. -/
theorem mutexPriLook_eq (hord : ∀ o, Ordered s.prio (s.blkList o)) (u : T) (rel : Option O) :
    s.mutexPriLook u rel = ((s.priLookLoop rel (s.mutexList u) (s.bPrio u) (s.bPrio u)).1,
      { s with mutexList := Function.update s.mutexList u ((s.mutexList u).filter fun m => some m ≠ rel) }) := by
  unfold mutexPriLook
  simp only [(priLookLoop_spec hord rel (s.mutexList u) (le_refl (s.bPrio u))).1]

/-- Without a mutex to release mutex_pri_look only looks. -/
theorem mutexPriLook_none (hp : s.Placed) (ho : s.Owned idle) (hu : u ∈ s.Live) :
    s.mutexPriLook u none = (sInf (lent s.bPrio s.boss s.prio u),s) := by
  have hord := hp.lists.ordered
  have hb : ∀ w, s.boss w = some u ↔ ∃ m ∈ s.mutexList u, some m ≠ none ∧ w ∈ s.blkList m := by
    intro w
    rw [boss_iff hp ho hu]
    simp
  rw [mutexPriLook_eq hord,(look_isLeast hord hb).unique isLeast_sInf_lent]
  simp

/-! ## The loop -/

/-- A turn that ends the loop, or goes on with the task that is waited for. -/
theorem taskPriChangeTurn_spec (hp : s.Placed) (ho : s.Owned idle) (ht : t ∈ s.Live) (hv : v < priMax)
    (hne : s.prio t ≠ v) :
    ∃ s', s'.Placed ∧ Repri s s' ∧ s'.prio = Function.update s.prio t v ∧
      s.taskPriChangeTurn t v =
        match s.boss t with
        | none => some (s',none)
        | some u =>
          if v < s'.prio u then some (s',some (u,v))
          else if s'.prio u = s.prio t then
            let w := sInf (lent s.bPrio s.boss s'.prio u)
            if w = s'.prio u then some (s',none) else some (s',some (u,w))
          else some (s',none) := by
  obtain ⟨c,hc,hplaced,heq⟩ := hp.taskPriSet ht hv
  have hrepri : Repri s { s with toSched := c } := ⟨_,_,_,by rw [heq]⟩
  have hboss := hrepri.boss
  have howned := hrepri.owned hp hplaced ho
  have hprio : c.prio = Function.update s.prio t v := by rw [heq]
  have hself : c.prio t = v := by rw [hprio,Function.update_self]
  refine ⟨{ s with toSched := c },hplaced,hrepri,hprio,?_⟩
  have hstate : c.taskState = s.taskState := by rw [heq]
  have hobj : c.blkObj = s.blkObj := by rw [heq]
  rw [taskPriChangeTurn,if_neg hne,hc]
  simp only [Option.bind_some,hstate,hobj,hself]
  unfold boss
  by_cases hpend : (s.taskState t).pending = true
  · obtain ⟨m,hm⟩ := (hp.task t).obj hpend
    simp only [hpend,if_true,hm,Option.map_some]
    cases hk : s.obj m with
    | mutex mutexTask k =>
      cases mutexTask with
      | none =>
        have hwait : t ∈ s.blkList m := ((hp.task t).blk m).mpr ⟨hpend,hm⟩
        rw [ho.free m k hk] at hwait
        cases hwait
      | some u =>
        have hu : u ∈ s.Live := (ho.live m u k hk).1
        have hulive : u ∈ Live { s with toSched := c } := by
          change (c.taskState u).live = true
          rw [hstate]
          exact hu
        have hlook := mutexPriLook_none hplaced howned hulive
        rw [hboss] at hlook
        simp only [hlook,ne_eq,ite_not]
        rfl
    | _ => rfl
  · rw [if_neg hpend,if_neg hpend]

/-- The loop follows the walk. -/
theorem taskPriChange_walk (hp : s.Placed) (ho : s.Owned idle) (hb : ∀ t ∈ s.Live, s.bPrio t < priMax)
    (ht : t ∈ s.Live) (hv : v < priMax) {prio' : T → ℕ} (hwalk : walk s.bPrio s.boss n s.prio t v = some prio') :
    ∃ s', taskPriChange n s t v = some s' ∧ s'.Placed ∧ Repri s s' ∧ s'.prio = prio' := by
  induction n generalizing s t v with
  | zero => cases hwalk
  | succ n ih =>
    rw [walk] at hwalk
    by_cases hne : s.prio t = v
    · rw [if_pos hne] at hwalk
      refine ⟨s,?_,hp,Repri.refl s,Option.some.inj hwalk⟩
      rw [taskPriChange,taskPriChangeTurn,if_pos hne]
      rfl
    rw [if_neg hne] at hwalk
    obtain ⟨s1,hp1,hrepri,hprio,hturn⟩ := taskPriChangeTurn_spec hp ho ht hv hne
    have hstop : ∀ p, s.taskPriChangeTurn t v = some (s1,none) → some (Function.update s.prio t v) = some p →
        ∃ s', taskPriChange (n + 1) s t v = some s' ∧ s'.Placed ∧ Repri s s' ∧ s'.prio = p := by
      intro p hone h
      refine ⟨s1,?_,hp1,hrepri,hprio.trans (Option.some.inj h)⟩
      rw [taskPriChange,hone]
      rfl
    -- the loop goes on with a task that exists
    have hgo : ∀ u w, s.taskPriChangeTurn t v = some (s1,some (u,w)) → s.boss t = some u → w < priMax →
        walk s.bPrio s.boss n (Function.update s.prio t v) u w = some prio' →
        ∃ s', taskPriChange (n + 1) s t v = some s' ∧ s'.Placed ∧ Repri s s' ∧ s'.prio = prio' := by
      intro u w hone hu hw h
      have hboss := hrepri.boss
      have ho1 := hrepri.owned hp hp1 ho
      have hulive := boss_live hp ho t u hu
      have hlive : s1.Live = s.Live ∧ s1.bPrio = s.bPrio := by
        obtain ⟨f,r,b,rfl⟩ := hrepri
        exact ⟨rfl,rfl⟩
      rw [← hprio,← hboss,← hlive.2] at h
      obtain ⟨s2,hs2,hp2,hrepri2,hprio2⟩ := ih hp1 ho1 (hlive.1 ▸ hlive.2 ▸ hb) (hlive.1 ▸ hulive) hw h
      refine ⟨s2,?_,hp2,hrepri.trans hrepri2,hprio2⟩
      rw [taskPriChange,hone]
      exact hs2
    simp only [hprio] at hturn
    cases hboss : s.boss t with
    | none =>
      simp only [hboss] at hwalk hturn
      exact hstop _ hturn hwalk
    | some u =>
      simp only [hboss] at hwalk hturn
      split_ifs at hwalk hturn with h1 h2 h3
      · exact hgo u v hturn hboss hv hwalk
      · exact hstop _ hturn hwalk
      · refine hgo u _ hturn hboss ?_ hwalk
        have hu := boss_live hp ho t u hboss
        exact (isLeast_sInf_lent.2 mem_lent_base).trans_lt (hb u hu)
      · exact hstop _ hturn hwalk

/-- Everyone runs at his priority again when task_pri_change has made the last one do so. -/
theorem taskPriChange_inherits (hp : s.Placed) (ho : s.Owned idle) (hb : ∀ t ∈ s.Live, s.bPrio t < priMax)
    (ht : t ∈ s.Live) (h : Settled (s.Live \ {t}) s.bPrio s.boss s.prio)
    (hv : IsLeast (lent s.bPrio s.boss s.prio t) v) :
    ∃ s', taskPriChange s.priFuel s t v = some s' ∧ s'.Placed ∧ Repri s s' ∧ s'.Inherits := by
  obtain ⟨prio',hwalk,hsettled⟩ := walk_settles (boss_ne_self hp ho) (boss_live hp ho)
    (fun x hx => (hp.task x).known hx) ht h hv (Nat.lt_succ_self _)
  have hlt : v < priMax := (hv.2 mem_lent_base).trans_lt (hb t ht)
  obtain ⟨s',hs',hp',hrepri,hprio⟩ := taskPriChange_walk hp ho hb ht hlt hwalk
  refine ⟨s',hs',hp',hrepri,?_⟩
  subst hprio
  have hboss := hrepri.boss
  obtain ⟨f,r,b,rfl⟩ := hrepri
  exact hsettled

end Kernel

end FmacSdk.Rhino
