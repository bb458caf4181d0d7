import FmacSdk.Posix.PthreadPhase

/-! # Lifetimes of thread descriptors

Every descriptor is in one of its phases in every run that keeps the order; a
statement of a task is a step of one descriptor, and the others stay as they are.
-/
namespace FmacSdk.Pthread
open Slots Transition
variable {ι : Type*}

structure Inv (s : Sys ι) : Prop where
  distinct : Distinct 0 s.pthreads
  phase : ∀ d, Phase (s.view d)
  mine : ∀ k d, (s.pc k).owner = some d → k = .thread d
  untouched : s.touched = []

theorem Inv.booted : Inv (booted : Sys ι) where
  distinct i j _ hne := absurd rfl hne
  phase d := by
    refine .fresh (by by_cases h : d = 0 <;> simp [Sys.view,Pthread.booted,h]; omega) rfl (fun k => ?_) rfl ?_ rfl
    · cases k <;> rfl
    · rintro ⟨hd,j,hj⟩
      exact hd hj.symm
  mine k d h := by cases k <;> simp [Pthread.booted,Pc.owner] at h
  untouched := rfl

section Views
variable {s t : Sys ι} {k : OsTask ι} {p q : Pc} {d e : ℕ}

@[simp] theorem view_setThd (x : Thd) : (s.setThd d x).view d = { s.view d with thd := x } :=
  View.ext rfl rfl rfl (Function.update_self ..) rfl rfl

theorem view_setThd_of_ne (x : Thd) (h : e ≠ d) : (s.setThd d x).view e = s.view e :=
  View.ext rfl rfl rfl (Function.update_of_ne h ..) rfl rfl

theorem touch_eq (h : (s.thds d).frees = 0) : s.touch d = s := if_neg (by omega)

variable [DecidableEq ι]

/-- A task that stays in the program, or in a call, seen from a descriptor. -/
theorem view_at (h : k = .thread d → q.life = (s.pc k).life) : (s.at k q).view d = (s.view d).act k (q.role d) := by
  have hlife : ((s.at k q).pc (.thread d)).life = (s.pc (.thread d)).life := by
    by_cases hk : .thread d = k
    · subst hk
      exact (congrArg Pc.life (Function.update_self ..)).trans (h rfl)
    · exact congrArg Pc.life (Function.update_of_ne hk ..)
  have hrole : (fun j => ((s.at k q).pc j).role d) = Function.update (s.view d).role k (q.role d) :=
    Function.comp_update (Pc.role d) s.pc k q
  exact View.ext rfl hlife hrole rfl rfl rfl

theorem view_at_other (h : k = .thread e → q.life = (s.pc k).life) (hrole : q.role e = (s.pc k).role e) :
    (s.at k q).view e = s.view e := by
  rw [view_at h,hrole]
  exact act_self

/-- A statement that a thread takes for itself. -/
theorem view_at_own (h : q.role d = (s.pc (.thread d)).role d) :
    (s.at (.thread d) q).view d = { s.view d with life := q.life } := by
  have hlife : ((s.at (.thread d) q).pc (.thread d)).life = q.life := congrArg Pc.life (Function.update_self ..)
  have hrole : (fun j => ((s.at (.thread d) q).pc j).role d) = (s.view d).role := by
    refine (Function.comp_update (Pc.role d) s.pc (.thread d) q).trans ?_
    rw [h]
    exact Function.update_eq_self ..
  exact View.ext rfl hlife hrole rfl rfl rfl

/-- A task changes one descriptor, and goes on. -/
theorem Inv.move (h : Inv s) {u : Sys ι} (hpc : u.pc k = s.pc k) (hmine : ∀ j e, (u.pc j).owner = some e → j = .thread e)
    (hdistinct : Distinct 0 u.pthreads) (huntouched : u.touched = []) (hviews : ∀ e, e ≠ d → u.view e = s.view e)
    (hrole : ∀ e, e ≠ d → q.role e = (s.pc k).role e) (hlife : ∀ e, e ≠ d → k = .thread e → q.life = (s.pc k).life)
    (howner : ∀ e, q.owner = some e → k = .thread e) (hphase : Phase ((u.at k q).view d)) : Inv (u.at k q) := by
  refine ⟨hdistinct,fun e => ?_,fun j e hj => ?_,huntouched⟩
  · by_cases he : e = d
    · exact he ▸ hphase
    · have hlife' : k = .thread e → q.life = (u.pc k).life := fun hk => (hlife e he hk).trans (by rw [hpc])
      rw [view_at_other hlife' ((hrole e he).trans (by rw [hpc])),hviews e he]
      exact h.phase e
  · by_cases hjk : j = k
    · subst hjk
      have hself : (u.at j q).pc j = q := Function.update_self ..
      rw [hself] at hj
      exact howner e hj
    · have hother : (u.at k q).pc j = u.pc j := Function.update_of_ne hjk ..
      rw [hother] at hj
      exact hmine j e hj

/-- A task does something with the descriptor for which it was called. -/
theorem Inv.call (h : Inv s) (hk : s.pc k = p) {u : Sys ι} (hpc : u.pc = s.pc) (hdistinct : Distinct 0 u.pthreads)
    (huntouched : u.touched = s.touched) (hviews : ∀ e, e ≠ d → u.view e = s.view e)
    (hrole : ∀ e, e ≠ d → p.role e = .none ∧ q.role e = .none) (hlife : q.life = p.life) (howner : q.owner = none)
    (hphase : Phase ((u.view d).act k (q.role d))) : Inv (u.at k q) := by
  subst hk
  refine h.move (congrFun hpc k) (fun j e hj => h.mine j e (by rwa [hpc] at hj)) hdistinct
    (huntouched.trans h.untouched) hviews (fun e he => (hrole e he).2.trans (hrole e he).1.symm) (fun _ _ _ => hlife)
    (by simp [howner]) ?_
  rw [view_at fun _ => hlife.trans (by rw [hpc])]
  exact hphase

/-- A thread does something with its own descriptor. -/
theorem Inv.own (h : Inv s) (hk : s.pc (.thread d) = p) {u : Sys ι} (hpc : u.pc = s.pc)
    (hdistinct : Distinct 0 u.pthreads) (huntouched : u.touched = s.touched) (hviews : ∀ e, e ≠ d → u.view e = s.view e)
    (hrole : ∀ e, p.role e = .none ∧ q.role e = .none) (howner : ∀ e, q.owner = some e → d = e)
    (hphase : Phase { u.view d with life := q.life }) : Inv (u.at (.thread d) q) := by
  subst hk
  have hsame (e : ℕ) : q.role e = (s.pc (.thread d)).role e := (hrole e).2.trans (hrole e).1.symm
  refine h.move (congrFun hpc _) (fun j e hj => h.mine j e (by rwa [hpc] at hj)) hdistinct
    (huntouched.trans h.untouched) hviews (fun e _ => hsame e)
    (fun e he hd => absurd (OsTask.thread.inj hd).symm he) (fun e he => by rw [howner e he]) ?_
  rw [view_at_own ((hsame d).trans (by rw [hpc]))]
  exact hphase

/-- A task that does nothing with descriptors. -/
theorem Inv.stays (h : Inv s) (hk : s.pc k = p) (hrole : ∀ e, q.role e = p.role e) (hlife : q.life = p.life)
    (howner : ∀ e, q.owner = some e → k = .thread e) : Inv (s.at k q) := by
  subst hk
  have hview : (s.at k q).view 0 = s.view 0 := view_at_other (fun _ => hlife) (hrole 0)
  refine h.move (d := 0) rfl h.mine h.distinct h.untouched (fun _ _ => rfl) (fun e _ => hrole e) (fun _ _ _ => hlife)
    howner ?_
  rw [hview]
  exact h.phase 0

omit [DecidableEq ι] in
/-- What a task does with a descriptor. -/
theorem Inv.used (h : Inv s) (hk : s.pc k = p) {r : Role} (hp : p.role d = r) (hr : r ≠ .none) :
    (s.view d).Used k ∧ (s.view d).role k = r := by
  have hrole : (s.view d).role k = r := (congrArg (Pc.role d) hk).trans hp
  exact ⟨(h.phase d).used_by fun hnone => hr (hrole.symm.trans hnone),hrole⟩

theorem Inv.alloc (h : Inv s) {b : Bool} (hpc : s.pc k = .alloc b) :
    Inv ({ s with next := s.next + 1 }.at k (.set (s.next + 1) b)) := by
  have hold : ({ s with next := s.next + 1 } : Sys ι).view (s.next + 1) = { s.view (s.next + 1) with fresh := False } :=
    View.ext (by simp [Sys.view]) rfl rfl rfl rfl rfl
  have hset : (Pc.set (s.next + 1) b).role (s.next + 1) = .set := if_pos rfl
  refine h.call (d := s.next + 1) hpc rfl h.distinct rfl (fun e he => ?_) (fun e he => ⟨rfl,if_neg he.symm⟩) rfl rfl ?_
  · have hfresh : (e = 0 ∨ s.next + 1 < e) = (e = 0 ∨ s.next < e) := propext (by omega)
    exact View.ext hfresh rfl rfl rfl rfl rfl
  · rw [hold,hset]
    exact (h.phase _).alloc (Or.inr (Nat.lt_succ_self _))

omit [DecidableEq ι] in
theorem pthreadSet_eq {t' : Fin PTHREAD_MAX → ℕ} (hset : pthreadSet s.pthreads d = some t') (hd : d ≠ 0)
    (hnew : ¬ s.Listed d) (hs : Distinct 0 s.pthreads) :
    Distinct 0 t' ∧ stored 0 t' = insert d (stored 0 s.pthreads) := by
  obtain ⟨j,hj,rfl⟩ := Option.map_eq_some_iff.mp hset
  have hzero : s.pthreads j = 0 := of_decide_eq_true (firstSlot_some hj)
  exact ⟨hs.update_new (fun i hi => hnew ⟨hd,i,hi⟩) j,stored_update_new hzero hd⟩

theorem Inv.set (h : Inv s) {b : Bool} (hpc : s.pc k = .set d b) (ht : s.go k (.set d b) = some t) : Inv t := by
  obtain ⟨hused,hk⟩ := h.used hpc (r := .set) (if_pos rfl) (by decide)
  rw [Sys.go] at ht
  split at ht
  · next t' hset =>
    obtain rfl := Option.some.inj ht
    obtain ⟨hdistinct,hstored⟩ :=
      pthreadSet_eq hset (fun hd => hused.kept.allocated (Or.inl hd)) (hused.new hk).2.2.2 h.distinct
    have hinit : (Pc.init d b).role d = .init := if_pos rfl
    have hold : ({ s with pthreads := t' } : Sys ι).view d = { s.view d with listed := True } := by
      have hlisted : d ∈ stored 0 t' := hstored ▸ Set.mem_insert ..
      exact View.ext rfl rfl rfl rfl (eq_true hlisted) rfl
    refine h.call hpc rfl hdistinct rfl (fun e he => ?_) (fun e he => ⟨if_neg he.symm,if_neg he.symm⟩) rfl rfl ?_
    · have hsame : e ∈ stored 0 t' ↔ e ∈ stored 0 s.pthreads := by simp [hstored,he]
      exact View.ext rfl rfl rfl rfl (propext hsame) rfl
    · rw [hold,hinit]
      exact hused.set hk
  · obtain rfl := Option.some.inj ht
    refine h.call hpc rfl h.distinct rfl (fun e he => view_setThd_of_ne _ he) (fun e he => ⟨if_neg he.symm,rfl⟩)
      rfl rfl ?_
    rw [view_setThd]
    exact hused.full hk

theorem Inv.init (h : Inv s) {b : Bool} (hpc : s.pc k = .init d b) :
    Inv (((s.touch d).setThd d { s.thds d with detachstate := b, joinSema := some 0 }).at k (.start d)) := by
  obtain ⟨hused,hk⟩ := h.used hpc (r := .init) (if_pos rfl) (by decide)
  have hstart : (Pc.start d).role d = .start := if_pos rfl
  rw [touch_eq hused.kept.frees]
  refine h.call hpc rfl h.distinct rfl (fun e he => view_setThd_of_ne _ he)
    (fun e he => ⟨if_neg he.symm,if_neg he.symm⟩) rfl rfl ?_
  rw [view_setThd,hstart]
  exact hused.init hk b

omit [DecidableEq ι] in
theorem absent_of_life (h : (s.view d).life = .absent) : s.pc (.thread d) = .absent := by
  have h : (s.pc (.thread d)).life = .absent := h
  cases hpc : s.pc (.thread d) with
  | absent => rfl
  | free e x entry => cases entry <;> simp [hpc,Pc.life] at h
  | _ => simp [hpc,Pc.life] at h

omit [DecidableEq ι] in
theorem deleted_of_life (h : (s.view d).life = .deleted) : s.pc (.thread d) = .deleted := by
  have h : (s.pc (.thread d)).life = .deleted := h
  cases hpc : s.pc (.thread d) with
  | deleted => rfl
  | free e x entry => cases entry <;> simp [hpc,Pc.life] at h
  | _ => simp [hpc,Pc.life] at h

/-- The new task runs at once. -/
theorem Inv.start (h : Inv s) (hpc : s.pc k = .start d) :
    Inv (((s.touch d).at (.thread d) (.run 0)).at k (.run RET_OK)) := by
  obtain ⟨hused,hk⟩ := h.used hpc (r := .start) (if_pos rfl) (by decide)
  have habsent : s.pc (.thread d) = .absent := absent_of_life (hused.starts hk).1
  have hne : k ≠ .thread d := by
    rintro rfl
    simp [hpc] at habsent
  have hsame : (s.at (.thread d) (.run 0)).pc k = s.pc k := Function.update_of_ne hne ..
  have hold : (s.at (.thread d) (.run 0)).view d = { s.view d with life := .running } :=
    view_at_own (by rw [habsent]; rfl)
  rw [touch_eq hused.kept.frees]
  refine h.move (d := d) hsame (fun j e hj => ?_) h.distinct h.untouched (fun e he => ?_) (fun e he => ?_)
    (fun e _ _ => ?_) (by simp [Pc.owner]) ?_
  · by_cases hjd : j = .thread d
    · have hself : (s.at (.thread d) (.run 0)).pc j = .run 0 := by
        rw [hjd]
        exact Function.update_self ..
      simp [hself,Pc.owner] at hj
    · have hother : (s.at (.thread d) (.run 0)).pc j = s.pc j := Function.update_of_ne hjd ..
      exact h.mine j e (hother ▸ hj)
  · exact view_at_other (fun hd => absurd (OsTask.thread.inj hd).symm he) (by rw [habsent]; rfl)
  · simp [hpc,Pc.role,Ne.symm he]
  · rw [hpc]
    rfl
  · rw [view_at (fun hd => absurd hd hne),hold]
    exact hused.start hk

theorem Inv.check (h : Inv s) (hpc : s.pc k = .check d) :
    Inv ((s.touch d).at k (if (s.thds d).detachstate then .run (-EINVAL) else .down d)) := by
  obtain ⟨hused,hk⟩ := h.used hpc (r := .check) (if_pos rfl) (by decide)
  have hnext : (if (s.thds d).detachstate then Pc.run (-EINVAL) else .down d).role d =
      if (s.thds d).detachstate then .none else .join := by
    split
    · rfl
    · exact if_pos rfl
  rw [touch_eq hused.kept.frees]
  refine h.call (d := d) hpc rfl h.distinct rfl (fun _ _ => rfl) (fun e he => ⟨if_neg he.symm,?_⟩) ?_ ?_ ?_
  · split
    · rfl
    · exact if_neg he.symm
  · split <;> rfl
  · split <;> rfl
  · rw [hnext]
    exact hused.check hk

theorem Inv.down (h : Inv s) (hpc : s.pc k = .down d) : Inv ((s.touch d).at k (.wait d)) := by
  obtain ⟨hused,-⟩ := h.used hpc (r := .join) (if_pos rfl) (by decide)
  rw [touch_eq hused.kept.frees]
  exact h.stays hpc (fun _ => rfl) rfl (by simp [Pc.owner])

theorem Inv.wait (h : Inv s) (hpc : s.pc k = .wait d) (ht : s.go k (.wait d) = some t) : Inv t := by
  obtain ⟨hused,hk⟩ := h.used hpc (r := .join) (if_pos rfl) (by decide)
  have hfree : (Pc.free d .del false).role d = .free .del := if_pos rfl
  rw [Sys.go] at ht
  split at ht
  · next hnone =>
    have hsema := (hused.join hk).2.2.2
    rw [show (s.view d).thd.joinSema = none from hnone] at hsema
    simp at hsema
  · simp at ht
  · next n hsema =>
    obtain rfl := Option.some.inj ht
    refine h.call hpc rfl h.distinct rfl (fun e he => view_setThd_of_ne _ he)
      (fun e he => ⟨if_neg he.symm,if_neg he.symm⟩) rfl rfl ?_
    rw [view_setThd,hfree]
    exact hused.wait hk hsema

theorem Inv.detach (h : Inv s) (hpc : s.pc k = .detach d) :
    Inv (((s.touch d).setThd d { s.thds d with detachstate := true }).at k (.run 0)) := by
  obtain ⟨hused,hk⟩ := h.used hpc (r := .detach) (if_pos rfl) (by decide)
  rw [touch_eq hused.kept.frees]
  refine h.call hpc rfl h.distinct rfl (fun e he => view_setThd_of_ne _ he) (fun e he => ⟨if_neg he.symm,rfl⟩)
    rfl rfl ?_
  rw [view_setThd]
  exact hused.detach hk

theorem Inv.finish (h : Inv s) (hpc : s.pc (.thread d) = .finish d) :
    Inv ((s.touch d).at (.thread d) (if (s.thds d).detachstate then .free d .del true else .up d)) := by
  obtain ⟨hkept,hphase⟩ := (h.phase d).finish (congrArg Pc.life hpc)
  have hnext : (if (s.thds d).detachstate then Pc.free d .del true else .up d).life =
      if (s.thds d).detachstate then .freeing .del else .up := by
    split <;> rfl
  rw [touch_eq hkept.frees]
  refine h.own hpc rfl h.distinct rfl (fun _ _ => rfl) (fun e => ⟨rfl,by split <;> rfl⟩) ?_ ?_
  · intro e he
    split at he <;> exact Option.some.inj he
  · rw [hnext]
    exact hphase

theorem Inv.up (h : Inv s) (hpc : s.pc (.thread d) = .up d) :
    Inv (((s.touch d).setThd d { s.thds d with joinSema := (s.thds d).joinSema.map (· + 1) }).at (.thread d) .ended) := by
  obtain ⟨hkept,hphase⟩ := (h.phase d).up (congrArg Pc.life hpc)
  rw [touch_eq hkept.frees]
  refine h.own hpc rfl h.distinct rfl (fun e he => view_setThd_of_ne _ he) (fun _ => ⟨rfl,rfl⟩) (by simp [Pc.owner]) ?_
  rw [view_setThd]
  exact hphase

omit [DecidableEq ι] in
theorem pthreadDel_eq (hs : Distinct 0 s.pthreads) : Distinct 0 (pthreadDel s.pthreads d) ∧
    d ∉ stored 0 (pthreadDel s.pthreads d) ∧
    ∀ e, e ≠ d → ({ s with pthreads := pthreadDel s.pthreads d } : Sys ι).view e = s.view e := by
  have hstored : stored 0 (pthreadDel s.pthreads d) = stored 0 s.pthreads \ {d} := stored_eraseFirst hs d
  refine ⟨eraseFirst_distinct hs d,by simp [hstored],fun e he => ?_⟩
  have hsame : e ∈ stored 0 (pthreadDel s.pthreads d) ↔ e ∈ stored 0 s.pthreads := by simp [hstored,he]
  exact View.ext rfl rfl rfl rfl (propext hsame) rfl

/-- A detached thread frees its descriptor. -/
theorem Inv.free_own (h : Inv s) {x : FreeStmt} (hpc : s.pc (.thread d) = .free d x true) :
    Inv (s.free (.thread d) d true x) := by
  have hlife : (s.view d).life = .freeing x := congrArg Pc.life hpc
  obtain ⟨hkept,-,-,hlisted⟩ := (h.phase d).freeing hlife
  cases x with
  | del =>
    obtain ⟨hdistinct,hnone,hviews⟩ := pthreadDel_eq (d := d) h.distinct
    exact h.own hpc rfl hdistinct rfl hviews (fun _ => ⟨rfl,rfl⟩) (fun _ he => Option.some.inj he)
      ((h.phase d).freeing_next hlife (by decide) hnone _)
  | semaDel =>
    have hgone : ¬ (s.view d).listed := by simp [hlisted]
    rw [Sys.free,touch_eq hkept.frees]
    refine h.own hpc rfl h.distinct rfl (fun e he => view_setThd_of_ne _ he) (fun _ => ⟨rfl,rfl⟩)
      (fun _ he => Option.some.inj he) ?_
    rw [view_setThd]
    exact (h.phase d).freeing_next hlife (by decide) hgone none
  | keyDestroy | freeTls =>
    have hgone : ¬ (s.view d).listed := by simp [hlisted]
    rw [Sys.free,touch_eq hkept.frees]
    exact h.own hpc rfl h.distinct rfl (fun _ _ => rfl) (fun _ => ⟨rfl,rfl⟩) (fun _ he => Option.some.inj he)
      ((h.phase d).freeing_next hlife (by decide) hgone _)
  | freeThd =>
    refine h.own hpc (u := s.setThd d { s.thds d with frees := (s.thds d).frees + 1 }) rfl h.distinct rfl
      (fun e he => view_setThd_of_ne _ he) (fun _ => ⟨rfl,rfl⟩) (by simp [Pc.owner]) ?_
    rw [view_setThd]
    exact (h.phase d).freeing_end hlife

/-- A join frees the descriptor. -/
theorem Inv.free_join (h : Inv s) {x : FreeStmt} (hpc : s.pc k = .free d x false) : Inv (s.free k d false x) := by
  obtain ⟨hused,hk⟩ := h.used hpc (r := .free x) (if_pos rfl) (by simp)
  have hlisted := (hused.free hk).2.2.2
  have hnext (y : FreeStmt) (hy : y ≠ .del) {u : Sys ι} (hupc : u.pc = s.pc) (hdistinct : Distinct 0 u.pthreads)
      (huntouched : u.touched = s.touched) (hviews : ∀ e, e ≠ d → u.view e = s.view e) {l : Prop} (hl : ¬ l)
      (o : Option ℕ) (hview : u.view d = { s.view d with thd := { s.thds d with joinSema := o }, listed := l }) :
      Inv (u.at k (.free d y false)) := by
    have hfree : (Pc.free d y false).role d = .free y := if_pos rfl
    refine h.call hpc hupc hdistinct huntouched hviews (fun e he => ⟨if_neg he.symm,if_neg he.symm⟩) rfl rfl ?_
    rw [hview,hfree]
    exact hused.free_next hk hy hl o
  cases x with
  | del =>
    obtain ⟨hdistinct,hnone,hviews⟩ := pthreadDel_eq (d := d) h.distinct
    exact hnext .semaDel (by decide) rfl hdistinct rfl hviews hnone _ rfl
  | semaDel =>
    have hgone : ¬ (s.view d).listed := by simp [hlisted]
    rw [Sys.free,touch_eq hused.kept.frees]
    exact hnext .keyDestroy (by decide) rfl h.distinct rfl (fun e he => view_setThd_of_ne _ he) hgone none (view_setThd _)
  | keyDestroy =>
    have hgone : ¬ (s.view d).listed := by simp [hlisted]
    rw [Sys.free,touch_eq hused.kept.frees]
    exact hnext .freeTls (by decide) rfl h.distinct rfl (fun _ _ => rfl) hgone _ rfl
  | freeTls =>
    have hgone : ¬ (s.view d).listed := by simp [hlisted]
    rw [Sys.free,touch_eq hused.kept.frees]
    exact hnext .freeThd (by decide) rfl h.distinct rfl (fun _ _ => rfl) hgone _ rfl
  | freeThd =>
    let u : Sys ι := s.setThd d { s.thds d with frees := (s.thds d).frees + 1 }
    have hview : ({ u with joined := Function.update u.joined d true } : Sys ι).view d =
        { s.view d with thd := { s.thds d with frees := (s.thds d).frees + 1 }, joined := true } :=
      View.ext rfl rfl rfl (Function.update_self ..) rfl (Function.update_self ..)
    refine h.call hpc (u := { u with joined := Function.update u.joined d true }) rfl h.distinct rfl (fun e he => ?_)
      (fun e he => ⟨if_neg he.symm,rfl⟩) rfl rfl ?_
    · exact View.ext rfl rfl rfl (Function.update_of_ne he ..) rfl (Function.update_of_ne he ..)
    · rw [hview]
      exact hused.free_end hk

omit [DecidableEq ι] in
/-- The tasks beyond those of the program are not there. -/
theorem Inv.nobody (h : Inv s) {P : Pc → Bool} (habsent : P .absent = false) (hno : ¬ s.Any P) (j : OsTask ι) :
    P (s.pc j) = false := by
  by_contra hj
  have hj : P (s.pc j) = true := by simpa using hj
  cases j with
  | os i => exact hno (Or.inl ⟨i,hj⟩)
  | thread e =>
    by_cases he : e < s.next + 1
    · exact hno (Or.inr ⟨e,he,hj⟩)
    · have hpc : s.pc (.thread e) = .absent := absent_of_life ((h.phase e).absent (Or.inr (by omega)))
      simp [hpc,habsent] at hj

theorem joins_of_role (h : p.role d = .check ∨ p.role d = .join ∨ ∃ x, p.role d = .free x) : p.joins d = true := by
  unfold Pc.role at h
  split at h
  all_goals first
    | split_ifs at h with he <;> simp_all [Pc.joins]
    | simp at h

theorem detaches_of_role (h : p.role d = .detach) : p.detaches d = true := by
  unfold Pc.role at h
  split at h
  all_goals first
    | split_ifs at h with he <;> simp_all [Pc.detaches]
    | simp at h

theorem life_of_inside (h : p.inside = true) : p.life = .running := by
  cases p with
  | free e x entry => cases entry <;> simp_all [Pc.inside,Pc.life]
  | _ => simp_all [Pc.inside,Pc.life]

omit [DecidableEq ι] in
theorem Inv.no_joins (h : Inv s) (hno : ¬ s.Any (Pc.joins d)) (j : OsTask ι) :
    (s.view d).role j ≠ .check ∧ (s.view d).role j ≠ .join ∧ ∀ x, (s.view d).role j ≠ .free x := by
  have hj : (s.pc j).joins d = false := h.nobody rfl hno j
  refine ⟨fun hr => ?_,fun hr => ?_,fun x hr => ?_⟩
  · simp [joins_of_role (Or.inl hr)] at hj
  · simp [joins_of_role (Or.inr (Or.inl hr))] at hj
  · simp [joins_of_role (Or.inr (Or.inr ⟨x,hr⟩))] at hj

omit [DecidableEq ι] in
theorem Inv.no_detaches (h : Inv s) (hno : ¬ s.Any (Pc.detaches d)) (j : OsTask ι) :
    (s.view d).role j ≠ .detach := by
  intro hr
  have hj : (s.pc j).detaches d = false := h.nobody rfl hno j
  simp [detaches_of_role hr] at hj

omit [DecidableEq ι] in
theorem pthreadGet_eq (hget : pthreadGet s.pthreads d = some e) : s.Listed d ∧ e = d := by
  obtain ⟨hlisted,hsome⟩ := Option.ite_none_right_eq_some.mp hget
  exact ⟨hlisted,(Option.some.inj hsome).symm⟩

theorem Inv.joinGet (h : Inv s) (hpc : s.pc k = .joinGet d) (hgood : s.May k (.joinGet d))
    (ht : s.go k (.joinGet d) = some t) : Inv t := by
  rw [Sys.go] at ht
  split at ht
  · next e hget =>
    obtain ⟨hlisted,rfl⟩ := pthreadGet_eq hget
    obtain rfl := Option.some.inj ht
    by_cases hself : k = .thread e
    · rw [if_pos hself]
      exact h.stays hpc (fun _ => rfl) rfl (by simp [Pc.owner])
    · rw [if_neg hself]
      have hcheck : (Pc.check e).role e = .check := if_pos rfl
      refine h.call (d := e) hpc rfl h.distinct rfl (fun _ _ => rfl) (fun e' he => ⟨rfl,if_neg he.symm⟩) rfl rfl ?_
      rw [hcheck]
      refine (h.phase e).joinGet hlisted ?_
      rcases hgood hlisted hself with ⟨hdetach,hinside⟩ | ⟨hdetach,hjoins,hdetaches,habsent,hdeleted⟩
      · exact Or.inl ⟨hdetach,life_of_inside hinside⟩
      · have hlife : (s.view e).life ≠ .absent := fun hlife => habsent (absent_of_life hlife)
        refine Or.inr ⟨hdetach,(h.phase e).quiet hlife (h.no_joins hjoins) (h.no_detaches hdetaches),hlife,fun hlife => ?_⟩
        exact hdeleted (deleted_of_life hlife)
  · obtain rfl := Option.some.inj ht
    exact h.stays hpc (fun _ => rfl) rfl (by simp [Pc.owner])

theorem Inv.detachGet (h : Inv s) (hpc : s.pc k = .detachGet d) (hgood : s.May k (.detachGet d))
    (ht : s.go k (.detachGet d) = some t) : Inv t := by
  rw [Sys.go] at ht
  split at ht
  · next e hget =>
    obtain ⟨hlisted,rfl⟩ := pthreadGet_eq hget
    obtain rfl := Option.some.inj ht
    obtain ⟨hinside,hjoins⟩ := hgood hlisted
    have hdetach : (Pc.detach e).role e = .detach := if_pos rfl
    refine h.call (d := e) hpc rfl h.distinct rfl (fun _ _ => rfl) (fun e' he => ⟨rfl,if_neg he.symm⟩) rfl rfl ?_
    rw [hdetach]
    refine (h.phase e).detachGet hlisted (life_of_inside hinside) fun hfalse j => ?_
    have hj := h.no_joins (hjoins hfalse) j
    exact ⟨hj.1,hj.2.1⟩
  · obtain rfl := Option.some.inj ht
    exact h.stays hpc (fun _ => rfl) rfl (by simp [Pc.owner])

theorem Inv.exitGet (h : Inv s) (hpc : s.pc k = .exitGet) (ht : s.go k .exitGet = some t) : Inv t := by
  have hreturn : Inv (s.at k (.run 0)) :=
    h.stays hpc (fun _ => rfl) rfl (by simp [Pc.owner])
  cases k with
  | os i =>
    obtain rfl := Option.some.inj ht
    exact hreturn
  | thread d =>
    rw [Sys.go] at ht
    split at ht
    · next e hget =>
      obtain ⟨-,rfl⟩ := pthreadGet_eq hget
      obtain rfl := Option.some.inj ht
      exact h.stays hpc (fun _ => rfl) rfl (fun _ he => by rw [Option.some.inj he])
    · obtain rfl := Option.some.inj ht
      exact hreturn

theorem Inv.exit (h : Inv s) (hpc : s.pc (.thread d) = .exit d) (hgood : s.May (.thread d) (.exit d)) :
    Inv ((s.touch d).at (.thread d) .deleted) := by
  obtain ⟨hdetach,hjoins,hdetaches⟩ := hgood
  have hlife : (s.view d).life = .running := congrArg Pc.life hpc
  have hquiet := (h.phase d).quiet (by simp [hlife]) (h.no_joins hjoins) (h.no_detaches hdetaches)
  rw [touch_eq ((h.phase d).kept hlife).frees]
  exact h.own hpc rfl h.distinct rfl (fun _ _ => rfl) (fun _ => ⟨rfl,rfl⟩) (by simp [Pc.owner])
    ((h.phase d).exit hlife hdetach hquiet)

theorem Inv.ends (h : Inv s) {r : ℤ} (hpc : s.pc (.thread d) = .run r) (hgood : Ordered s (.ends d)) :
    Inv (s.at (.thread d) (.finish d)) := by
  obtain ⟨hdetaches,hjoins⟩ := hgood
  have hlife : (s.view d).life = .running := congrArg Pc.life hpc
  exact h.own hpc rfl h.distinct rfl (fun _ _ => rfl) (fun _ => ⟨rfl,rfl⟩) (fun _ he => Option.some.inj he)
    ((h.phase d).ends hlife (h.no_detaches hdetaches) fun hdetach j => (h.no_joins (hjoins hdetach) j).1)

theorem Inv.go (h : Inv s) (hgood : s.May k (s.pc k)) (ht : s.go k (s.pc k) = some t) : Inv t := by
  cases hpc : s.pc k with
  | absent => simp [hpc,Sys.go] at ht
  | run r => simp [hpc,Sys.go] at ht
  | ended => simp [hpc,Sys.go] at ht
  | deleted => simp [hpc,Sys.go] at ht
  | alloc b =>
    rw [hpc] at ht
    obtain rfl := Option.some.inj ht
    exact h.alloc hpc
  | set d b => exact h.set hpc (hpc ▸ ht)
  | init d b =>
    rw [hpc] at ht
    obtain rfl := Option.some.inj ht
    exact h.init hpc
  | start d =>
    rw [hpc] at ht
    obtain rfl := Option.some.inj ht
    exact h.start hpc
  | joinGet d => exact h.joinGet hpc (hpc ▸ hgood) (hpc ▸ ht)
  | check d =>
    rw [hpc] at ht
    obtain rfl := Option.some.inj ht
    exact h.check hpc
  | down d =>
    rw [hpc] at ht
    obtain rfl := Option.some.inj ht
    exact h.down hpc
  | wait d => exact h.wait hpc (hpc ▸ ht)
  | detachGet d => exact h.detachGet hpc (hpc ▸ hgood) (hpc ▸ ht)
  | detach d =>
    rw [hpc] at ht
    obtain rfl := Option.some.inj ht
    exact h.detach hpc
  | exitGet => exact h.exitGet hpc (hpc ▸ ht)
  | exit d =>
    obtain rfl := h.mine k d (by rw [hpc]; rfl)
    rw [hpc] at ht
    obtain rfl := Option.some.inj ht
    exact h.exit hpc (hpc ▸ hgood)
  | finish d =>
    obtain rfl := h.mine k d (by rw [hpc]; rfl)
    rw [hpc] at ht
    obtain rfl := Option.some.inj ht
    exact h.finish hpc
  | up d =>
    obtain rfl := h.mine k d (by rw [hpc]; rfl)
    rw [hpc] at ht
    obtain rfl := Option.some.inj ht
    exact h.up hpc
  | free d x entry =>
    rw [hpc] at ht
    obtain rfl := Option.some.inj ht
    cases entry with
    | true =>
      obtain rfl := h.mine k d (by rw [hpc]; rfl)
      exact h.free_own hpc
    | false => exact h.free_join hpc

theorem Inv.step (h : Inv s) {l : Label ι} (hgood : Ordered s l) (hs : Pthread.step s l = some t) : Inv t := by
  have hcall {k : OsTask ι} {r : ℤ} {q : Pc} (hpc : s.pc k = .run r) (hrole : ∀ e, q.role e = .none)
      (hlife : q.life = .running) (howner : q.owner = none) : Inv (s.at k q) :=
    h.stays hpc (fun e => hrole e) hlife (by simp [howner])
  cases l with
  | go k => exact h.go hgood hs
  | create k b | join k d | detach k d | exit k =>
    rw [Pthread.step] at hs
    split at hs
    · next r hpc =>
      obtain rfl := Option.some.inj hs
      exact hcall hpc (fun _ => rfl) rfl rfl
    · simp at hs
  | ends d =>
    rw [Pthread.step] at hs
    split at hs
    · next r hpc =>
      obtain rfl := Option.some.inj hs
      exact h.ends hpc hgood
    · simp at hs
  | fail k =>
    rw [Pthread.step] at hs
    split at hs
    · next b hpc =>
      obtain rfl := Option.some.inj hs
      exact h.stays hpc (fun _ => rfl) rfl (by simp [Pc.owner])
    · simp at hs

end Views

section Soundness
variable {s : Sys ι} {d : ℕ}

theorem Sys.Finished.life (h : s.Finished d) : (s.view d).life = .ended ∨ (s.view d).life = .deleted :=
  h.imp (congrArg Pc.life) (congrArg Pc.life)

theorem Inv.sound (h : Inv s) : s.Sound := by
  refine ⟨fun d => (h.phase d).frees_le,h.untouched,fun k d hpc hends => ?_,fun d hends => (h.phase d).unlisted hends.life⟩
  obtain ⟨hused,hk⟩ := h.used hpc (r := .join) (if_pos rfl) (by decide)
  obtain ⟨-,-,-,hstate⟩ := hused.join hk
  rcases hstate with ⟨hlife,-⟩ | ⟨-,hsema⟩
  · rcases hends.life with hended | hdeleted
    · simp [hended] at hlife
    · simp [hdeleted] at hlife
  · exact ⟨0,hsema⟩

/-- The descriptors are sound in every run that keeps the order. -/
theorem sound_run [DecidableEq ι] [Fintype ι] {ls : List (Label ι)} (h : Runs (guarded Ordered step) booted ls s) :
    s.Sound :=
  (h.guarded_invariant (fun _ _ _ hi hgood hs => hi.step hgood hs) Inv.booted).sound

end Soundness

/-- One task makes a thread. -/
def created (detached : Bool) : List (Label Bool) :=
  .create (.os true) detached :: List.replicate 4 (.go (.os true))

def joined : List (Label Bool) :=
  created false ++ [.join (.os true) 1,.go (.os true),.go (.os true),.go (.os true),.ends 1,.go (.thread 1),
    .go (.thread 1)] ++ List.replicate 6 (.go (.os true))

theorem sound_joined : ∃ s, Runs (guarded Ordered step) booted joined s ∧ s.joined 1 = true ∧ ¬ s.Listed 1 ∧ s.Sound := by
  refine Runs.exists_of_exec (fun s => (s.joined 1,decide (s.Listed 1))) (v := (true,false)) (by decide +kernel) ?_
  intro s hrun hends
  obtain ⟨hjoined,hlisted⟩ : s.joined 1 = true ∧ ¬ s.Listed 1 := by simpa using hends
  exact ⟨hjoined,hlisted,sound_run hrun⟩

/-- What the runs below end with. -/
def Sys.seen (s : Sys Bool) : Pc × Pc × Thd × Bool :=
  (s.pc (.os false),s.pc (.thread 1),s.thds 1,decide (s.Listed 1))

theorem fails_of {ls : List (Label Bool)} {v : Pc × Pc × Thd × Bool} (h : (exec step booted ls).map Sys.seen = some v)
    (hfail : ∀ s : Sys Bool, s.seen = v → ¬ s.Sound) : ∃ s, Runs step booted ls s ∧ s.seen = v ∧ ¬ s.Sound := by
  refine Runs.exists_of_exec Sys.seen h ?_
  intro s _ hv
  exact ⟨hv,hfail s hv⟩

/-- A task joins a thread that calls pthread_exit. -/
def exited : List (Label Bool) :=
  created false ++ [.join (.os false) 1,.go (.os false),.go (.os false),.go (.os false),.exit (.thread 1),
    .go (.thread 1),.go (.thread 1)]

/-- A thread is detached when it has ended. -/
def detachedLate : List (Label Bool) :=
  created false ++ [.ends 1,.go (.thread 1),.go (.thread 1),.detach (.os false) 1,.go (.os false),.go (.os false)]

/-- A thread is detached while a task waits for it. -/
def detachedJoined : List (Label Bool) :=
  created false ++ [.join (.os false) 1,.go (.os false),.go (.os false),.go (.os false),.detach (.os true) 1,
    .go (.os true),.go (.os true),.ends 1] ++ List.replicate 6 (.go (.thread 1)) ++ List.replicate 6 (.go (.os false))

/-- Two tasks wait for a thread. -/
def joinedTwice : List (Label Bool) :=
  created false ++ [.join (.os true) 1,.go (.os true),.go (.os true),.go (.os true),.join (.os false) 1,
    .go (.os false),.go (.os false),.go (.os false),.ends 1,.go (.thread 1),.go (.thread 1)] ++
    List.replicate 6 (.go (.os true))

/-- The join does not return, the slot is lost, the descriptor is freed twice, and the
second join waits on a descriptor that was freed. -/
theorem sound_fails :
    (∃ s, Runs step booted exited s ∧ s.seen = (.wait 1,.deleted,⟨false,some 0,0⟩,true) ∧ ¬ s.Sound) ∧
    (∃ s, Runs step booted detachedLate s ∧ s.seen = (.run 0,.ended,⟨true,some 1,0⟩,true) ∧ ¬ s.Sound) ∧
    (∃ s, Runs step booted detachedJoined s ∧ s.seen = (.run 0,.ended,⟨true,none,2⟩,false) ∧ ¬ s.Sound) ∧
    ∃ s, Runs step booted joinedTwice s ∧ s.seen = (.wait 1,.ended,⟨false,none,1⟩,false) ∧ ¬ s.Sound := by
  refine ⟨?_,?_,?_,?_⟩
  · refine fails_of (by decide +kernel) fun s hseen h => ?_
    obtain ⟨hwait,hdeleted,hthd,-⟩ := by simpa [Sys.seen] using hseen
    obtain ⟨n,hn⟩ := h.joins _ 1 hwait (Or.inr hdeleted)
    simp [hthd] at hn
  · refine fails_of (by decide +kernel) fun s hseen h => ?_
    obtain ⟨-,hended,hthd,hlisted⟩ := by simpa [Sys.seen] using hseen
    exact h.slots 1 (Or.inl hended) (Or.inr (by rw [hthd])) hlisted
  · refine fails_of (by decide +kernel) fun s hseen h => ?_
    obtain ⟨-,-,hthd,-⟩ := by simpa [Sys.seen] using hseen
    have honce := h.once 1
    simp [hthd] at honce
  · refine fails_of (by decide +kernel) fun s hseen h => ?_
    obtain ⟨hwait,hended,hthd,-⟩ := by simpa [Sys.seen] using hseen
    obtain ⟨n,hn⟩ := h.joins _ 1 hwait (Or.inl hended)
    simp [hthd] at hn

end FmacSdk.Pthread
