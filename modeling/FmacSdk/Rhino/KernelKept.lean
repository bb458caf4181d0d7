import FmacSdk.Rhino.MutexPri

/-! # What holds between the calls of the kernel

The tasks are where their states say, the owners of mutexes run at what they are
lent, the tick list is ordered, and whoever waits for an object waits with reason.
In the middle of a call some objects may be at work.
-/
namespace FmacSdk.Rhino
open WaitList Donation Sched
variable {T O : Type*}

namespace Kernel

/-- The object has nothing for the task. -/
def Lacks (s : Kernel T O) (o : O) (t : T) : Prop :=
  match s.obj o with
  | .none => False
  | .mutex mutexTask _ => mutexTask ≠ none
  | .sem count _ => count = 0
  | .event flags => eventHolds flags (s.pendFlags t) (s.pendOption t) = false
  | .queue q => q.curNum = 0
  | .bufQueue q => ringbufIsEmpty q.ringbuf = true

/-- Nobody waits for what is there. -/
def Waits (s : Kernel T O) (o : O) : Prop := ∀ t ∈ s.blkList o, s.Lacks o t

/-- The tasks, the lists and the owners fit together; the priorities may be at work. -/
structure Steady (s : Kernel T O) (idle : T) : Prop where
  placed : s.Placed
  rdy : s.taskState idle = .rdy
  base : s.bPrio idle = idlePri
  bases : ∀ t ∈ s.Live, t ≠ idle → s.bPrio t < idlePri
  owned : s.Owned idle
  locked : 0 < s.schedLock → s.taskState s.active = .rdy

/-- What holds in the middle of a call, where the objects of `U` are at work. -/
structure Kept (s : Kernel T O) (idle : T) (U : Set O) : Prop extends Steady s idle where
  inherits : s.Inherits
  waits : ∀ o ∉ U, s.Waits o
  ticks : s.TickKept

/-- What holds between the calls. -/
structure Sound (s : Kernel T O) (idle : T) : Prop extends Kept s idle ∅ where
  current : s.toSched.Current idle

/-- What a task finds in its record when its wait is over. -/
def notes (s : Kernel T O) (t : T) : BlkState × Msg × ℕ × BitVec 32 :=
  (s.blkState t,s.msg t,s.bqMsgSize t,s.actlFlags t)

/-- What the waits come to that a call ends, and what their tasks find noted. -/
structure Wakes where
  blk : BlkState
  note : BlkState × Msg × ℕ × BitVec 32 → Prop

/-- Nothing is said about what they find. -/
def Wakes.finish : Wakes := ⟨.finish,fun _ => True⟩

def Wakes.del : Wakes := ⟨.del,fun _ => True⟩

/-- No wait ends. -/
def Wakes.none : Wakes := ⟨.finish,fun _ => False⟩

/-- A task goes on as it did, or its wait comes to this end. -/
def Fate (wk : Wakes) (s s' : Kernel T O) (t : T) : Prop :=
  ((s'.taskState t).pending = (s.taskState t).pending ∧ (s'.taskState t).sleeping = (s.taskState t).sleeping ∧
    s'.waitsFor t = s.waitsFor t ∧ s'.notes t = s.notes t) ∨
  ((s.taskState t).pending = true ∧ (s'.taskState t).pending = false ∧ (s'.taskState t).sleeping = false ∧
    s'.blkState t = wk.blk ∧ wk.note (s'.notes t))

/-- The task waits for the mutex, or holds it. -/
def Claims (s : Kernel T O) (t : T) (m : O) : Prop :=
  (s.waitsFor t = some m ∧ ∃ u n, s.obj m = .mutex u n) ∨ ∃ n, s.obj m = .mutex (some t) n

/-- Whom and what a call concerns: who calls, who is deleted, who may have to wait for another tick,
the objects, and what a wait that it ends comes to. -/
structure Scope (T O : Type*) extends Wakes where
  caller : T
  gone : Set T
  timed : Set T
  objs : Set O

/-- A mutex stays one, and only who calls or is deleted loses it. -/
def Scope.Keeps (c : Scope T O) (k k' : Kobj T) : Prop :=
  ∀ u n, k = .mutex u n → ∃ u' n', k' = .mutex u' n' ∧ ∀ t ∉ c.gone, t ≠ c.caller → u = some t → u' = some t

/-- No time passes. Whoever sleeps goes on to do so, and whoever waits waits for the same and for the
same tick, but for those that the call concerns; and so do the objects. -/
structure Resting (c : Scope T O) (s s' : Kernel T O) : Prop where
  count : s'.tickCount = s.tickCount
  timed : ∀ t ∉ c.timed, s'.tickMatch t = s.tickMatch t
  asleep : ∀ t ∉ c.gone, (s.taskState t).sleeping = true → (s'.taskState t).sleeping = true
  waits : ∀ t ∉ c.gone, ∀ o ∉ c.objs, s.waitsFor t = some o → s'.waitsFor t = some o
  obj : ∀ o ∉ c.objs, s'.obj o = s.obj o
  alive : ∀ t ∉ c.gone, t ∈ s.Live → t ∈ s'.Live
  fate : ∀ t ∉ c.gone, t ∈ s.Live → t ≠ c.caller → Fate c.toWakes s s' t
  claims : c.blk = .finish → ∀ t ∉ c.gone, t ≠ c.caller → ∀ m, s.Claims t m → s'.Claims t m

/-- The scope of a call in this state. -/
def scope (s : Kernel T O) (D : Set T) (E : Set O) (wk : Wakes) : Scope T O :=
  { wk with caller := s.active, gone := D, timed := s.Untimed, objs := E }

/-- A call returns, or blocks, and what holds between the calls holds again; it concerns no objects
but those of `E`, and of those that sleep or wait for others only the tasks of `D`. -/
def Serves (s : Kernel T O) (idle : T) (D : Set T) (E : Set O) (wk : Wakes) (out : Option (Ret × Kernel T O)) : Prop :=
  ∃ ret s', out = some (ret,s') ∧ s'.Sound idle ∧ Resting (s.scope D E wk) s s'

variable {s s' : Kernel T O} {t u idle : T} {o m : O} {U : Set O} {D : Set T} {E : Set O} {blk : BlkState} {wk : Wakes} {k : Kobj T}
  {ret : Ret} {n : ℕ} {time : BitVec 64} {c : Scope T O}

theorem Steady.bound (h : s.Steady idle) (t : T) (ht : t ∈ s.Live) : s.bPrio t < priMax := by
  have hidle : idlePri < priMax := by decide
  by_cases heq : t = idle
  · rw [heq,h.base]
    exact hidle
  · exact (h.bases t ht heq).trans hidle

/-- Nobody waits for the idle task, which holds nothing. -/
theorem Steady.boss_ne_idle (h : s.Steady idle) (t : T) : s.boss t ≠ some idle := by
  intro hb
  obtain ⟨m,n,-,hm⟩ := (boss_eq_some h.placed).mp hb
  exact (h.owned.live m idle n hm).2 rfl

theorem Kept.idleKept (h : s.Kept idle U) : s.IdleKept idle := by
  have hlive : ∀ t, (s.taskState t).live = true → s.prio t ≤ s.bPrio t :=
    fun t ht => (h.inherits t ht).2 mem_lent_base
  refine ⟨h.rdy,?_,fun t ht hl => (hlive t hl).trans_lt (h.bases t hl ht)⟩
  have hl : idle ∈ s.Live := by simp [Live,h.rdy,TaskStat.live]
  obtain ⟨hfrom,-⟩ := isLeast_lent_iff.mp (h.inherits idle hl)
  rcases hfrom with heq | ⟨x,hx,-⟩
  · exact heq.trans h.base
  · exact absurd hx (h.boss_ne_idle x)

/-! ## Changes that do not matter -/

theorem boss_congr (hp : ∀ t, (s'.taskState t).pending = (s.taskState t).pending) (hb : s'.blkObj = s.blkObj)
    (ho : s'.obj = s.obj) : s'.boss = s.boss := by
  funext t
  unfold boss
  rw [hp,hb,ho]

/-- The lists lose elements, the mutexes and the ones that exist are the same. -/
theorem Owned.congr (h : s.Owned idle) (hlive : s'.Live = s.Live) (hm : s'.mutexList = s.mutexList)
    (ho : s'.obj = s.obj) (hsub : ∀ o, s'.blkList o ⊆ s.blkList o) : s'.Owned idle := by
  refine ⟨?_,?_,?_,?_,fun m t n hmt ht => ?_,fun m n hmn => ?_⟩
  · rw [hlive,hm,ho]
    exact h.holds
  · rw [hlive,hm]
    exact h.nodup
  · rw [hlive,ho]
    exact h.live
  · rw [ho]
    exact h.nested
  · rw [ho] at hmt
    exact h.other m t n hmt (hsub m ht)
  · rw [ho] at hmn
    exact List.subset_nil.mp (h.free m n hmn ▸ hsub m)

theorem Waits.congr (h : s.Waits o) (ho : s'.obj o = s.obj o) (hsub : s'.blkList o ⊆ s.blkList o)
    (hf : ∀ t ∈ s'.blkList o, s'.pendFlags t = s.pendFlags t ∧ s'.pendOption t = s.pendOption t) : s'.Waits o := by
  intro t ht
  have hl := h t (hsub ht)
  unfold Lacks at hl ⊢
  rw [ho,(hf t ht).1,(hf t ht).2]
  exact hl

theorem Steady.congr (h : s.Steady idle) (hs : s'.toSched = s.toSched) (hb : s'.bPrio = s.bPrio)
    (hm : s'.mutexList = s.mutexList) (ho : s'.obj = s.obj) : s'.Steady idle := by
  have hlive : s'.Live = s.Live := by
    unfold Live
    rw [hs]
  refine ⟨?_,?_,hb ▸ h.base,?_,h.owned.congr hlive hm ho ?_,?_⟩
  · rw [hs]
    exact h.placed
  · rw [hs]
    exact h.rdy
  · rw [hlive,hb]
    exact h.bases
  · rw [hs]
    exact fun _ => List.Subset.refl _
  · rw [hs]
    exact h.locked

/-- What is received, and what else a call notes, does not matter. -/
theorem Kept.congr (h : s.Kept idle U) (hs : s'.toSched = s.toSched) (hb : s'.bPrio = s.bPrio)
    (hm : s'.mutexList = s.mutexList) (ho : s'.obj = s.obj) (hf : s'.pendFlags = s.pendFlags)
    (hopt : s'.pendOption = s.pendOption) : s'.Kept idle U := by
  refine ⟨h.toSteady.congr hs hb hm ho,?_,fun o hU => (h.waits o hU).congr (congrFun ho o) ?_ ?_,?_⟩
  · have hboss : s'.boss = s.boss := boss_congr (fun t => by rw [hs]) (by rw [hs]) ho
    have hlive : s'.Live = s.Live := by
      unfold Live
      rw [hs]
    unfold Inherits
    rw [hlive,hb,hboss,hs]
    exact h.inherits
  · rw [hs]
    exact List.Subset.refl _
  · exact fun t _ => ⟨congrFun hf t,congrFun hopt t⟩
  · rw [hs]
    exact h.ticks

theorem Kept.mono (h : s.Kept idle U) {V : Set O} (hsub : U ⊆ V) : s.Kept idle V :=
  ⟨h.toSteady,h.inherits,fun o ho => h.waits o fun hU => ho (hsub hU),h.ticks⟩

/-- The object is no longer at work. -/
theorem Kept.close (h : s.Kept idle {o}) (hw : s.Waits o) : s.Kept idle ∅ := by
  refine ⟨h.toSteady,h.inherits,fun o' _ => ?_,h.ticks⟩
  by_cases ho : o' = o
  · exact ho ▸ hw
  · exact h.waits o' ho

/-! ## What a call leaves alone -/

section Resting
variable {s'' : Kernel T O} {u' : Option T} {n' : ℕ}

theorem Scope.Keeps.refl (c : Scope T O) (k : Kobj T) : c.Keeps k k := fun u n h => ⟨u,n,h,fun _ _ _ ht => ht⟩

theorem Scope.Keeps.of_ne {k' : Kobj T} (h : ∀ u n, k ≠ .mutex u n) : c.Keeps k k' := fun u n hk => absurd hk (h u n)

theorem Scope.Keeps.mutex {v : Option T} (h : ∀ t ∉ c.gone, t ≠ c.caller → v = some t → u' = some t) :
    c.Keeps (.mutex v n) (.mutex u' n') := by
  intro v' i hk
  obtain ⟨rfl,rfl⟩ := Kobj.mutex.inj hk
  exact ⟨u',n',rfl,h⟩

theorem scope_del : (s.scope D E .del).blk ≠ .finish := by
  intro h
  cases h

/-- Whoever has a claim keeps it where the mutex is kept. -/
theorem Claims.congr (h : s.Claims t m) (hw : s'.waitsFor t = s.waitsFor t) (hk : c.Keeps (s.obj m) (s'.obj m))
    (ht : t ∉ c.gone) (hne : t ≠ c.caller) : s'.Claims t m := by
  rcases h with ⟨hwait,v,i,hm⟩ | ⟨i,hm⟩
  · obtain ⟨v',i',hm',-⟩ := hk v i hm
    exact Or.inl ⟨hw.trans hwait,v',i',hm'⟩
  · obtain ⟨v',i',hm',hv⟩ := hk _ i hm
    exact Or.inr ⟨i',by rw [hm',hv t ht hne rfl]⟩

theorem Fate.refl (wk : Wakes) (s : Kernel T O) (t : T) : Fate wk s s t := Or.inl ⟨rfl,rfl,rfl,rfl⟩

/-- A wait that has come to an end does not come to another one. -/
theorem Fate.trans (h : Fate wk s s' t) (h' : Fate wk s' s'' t) : Fate wk s s'' t := by
  rcases h with ⟨hp,hs,hw,hn⟩ | ⟨hp,hp',hs',hb,hnote⟩
  · rcases h' with ⟨hp',hs',hw',hn'⟩ | ⟨hp',hend⟩
    · exact Or.inl ⟨hp'.trans hp,hs'.trans hs,hw'.trans hw,hn'.trans hn⟩
    · exact Or.inr ⟨hp.symm.trans hp',hend⟩
  · rcases h' with ⟨hp'',hs'',-,hn'⟩ | ⟨hp'',-⟩
    · exact Or.inr ⟨hp,hp''.trans hp',hs''.trans hs',(congrArg Prod.fst hn').trans hb,by rw [hn']; exact hnote⟩
    · rw [hp'] at hp''
      cases hp''

theorem Resting.refl (c : Scope T O) (s : Kernel T O) : Resting c s s :=
  ⟨rfl,fun _ _ => rfl,fun _ _ h => h,fun _ _ _ _ h => h,fun _ _ => rfl,fun _ _ h => h,fun t _ _ _ => Fate.refl _ s t,
    fun _ _ _ _ _ h => h⟩

theorem Resting.trans (h : Resting c s s') (h' : Resting c s' s'') : Resting c s s'' :=
  ⟨h'.count.trans h.count,fun t ht => (h'.timed t ht).trans (h.timed t ht),
    fun t ht hs => h'.asleep t ht (h.asleep t ht hs),
    fun t ht o ho hw => h'.waits t ht o ho (h.waits t ht o ho hw),fun o ho => (h'.obj o ho).trans (h.obj o ho),
    fun t ht hl => h'.alive t ht (h.alive t ht hl),
    fun t ht hl hne => (h.fate t ht hl hne).trans (h'.fate t ht (h.alive t ht hl) hne),
    fun hb t ht hne m hm => h'.claims hb t ht hne m (h.claims hb t ht hne m hm)⟩

/-- What else a call changes does not matter. -/
theorem Resting.congr (hstate : s'.taskState = s.taskState) (hblk : s'.blkObj = s.blkObj)
    (hmatch : s'.tickMatch = s.tickMatch) (hcount : s'.tickCount = s.tickCount) (hnotes : s'.notes = s.notes)
    (hobj : ∀ o ∉ c.objs, s'.obj o = s.obj o)
    (hkeeps : c.blk = .finish → ∀ o ∈ c.objs, c.Keeps (s.obj o) (s'.obj o)) : Resting c s s' := by
  have hwaits : s'.waitsFor = s.waitsFor := by
    unfold waitsFor
    rw [hstate,hblk]
  refine ⟨hcount,fun t _ => congrFun hmatch t,fun t _ hs => ?_,fun t _ o _ hw => ?_,hobj,fun t _ hl => ?_,
    fun t _ _ _ => Or.inl ⟨?_,?_,congrFun hwaits t,congrFun hnotes t⟩,fun hb t ht hne m hm => ?_⟩
  · rw [hstate]
    exact hs
  · rw [hwaits]
    exact hw
  · unfold Live at hl ⊢
    rw [hstate]
    exact hl
  · rw [hstate]
  · rw [hstate]
  · refine hm.congr (congrFun hwaits t) ?_ ht hne
    by_cases hmem : m ∈ c.objs
    · exact hkeeps hb m hmem
    · rw [hobj m hmem]
      exact Scope.Keeps.refl _ _

end Resting

/-! ## The end of a call -/

/-- Another task runs. -/
theorem Kept.switch (h : s.Kept idle U) (t : T) (running : Bool) (hl : 0 < s.schedLock → s.taskState t = .rdy) :
    Kept { s with active := t, running := running } idle U := by
  have hboss : boss { s with active := t, running := running } = s.boss := boss_congr (fun _ => rfl) rfl rfl
  refine ⟨⟨h.placed.congr rfl rfl rfl rfl rfl rfl rfl rfl rfl,h.rdy,h.base,h.bases,
    h.owned.congr rfl rfl rfl fun _ => List.Subset.refl _,hl⟩,?_,fun o ho => ?_,h.ticks.congr rfl rfl rfl⟩
  · unfold Inherits
    rw [hboss]
    exact h.inherits
  · exact (h.waits o ho).congr rfl (List.Subset.refl _) fun _ _ => ⟨rfl,rfl⟩

/-- The next task is chosen. -/
theorem Kept.serves_exit {s₀ : Kernel T O} (h : s.Kept idle ∅) (hr : Resting (s₀.scope D E wk) s₀ s) (ret : Ret) :
    s₀.Serves idle D E wk (s.exitSched ret) := by
  obtain ⟨c,hc,hcur,heq⟩ := exitSched_current h.placed h.idleKept h.locked ret
  refine ⟨ret,{ s with toSched := c },?_,⟨?_,hcur⟩,hr.trans ?_⟩
  · rw [exitSched,hc]
    rfl
  · have hlock : 0 < s.schedLock → s.taskState c.active = .rdy := by
      intro hl
      have hrdy := hcur.rdy (Or.inr (by rw [heq]; exact hl))
      rw [heq] at hrdy
      exact hrdy
    have hswitch := h.switch c.active s.running hlock
    rw [heq]
    exact hswitch
  · rw [heq]
    exact Resting.congr rfl rfl rfl rfl rfl (fun _ _ => rfl) fun _ _ _ => Scope.Keeps.refl _ _

theorem Sound.same (h : s.Sound idle) (ret : Ret) : s.Serves idle D E wk (some (ret,s)) :=
  ⟨ret,s,rfl,h,Resting.refl ..⟩

/-- A call that leaves the tasks alone. -/
theorem Sound.serves (h : s.Sound idle) (hk : s'.Kept idle ∅) (hs : s'.toSched = s.toSched) (hnotes : s'.notes = s.notes)
    (hobj : ∀ o ∉ E, s'.obj o = s.obj o) (hkeeps : ∀ o ∈ E, (s.scope D E wk).Keeps (s.obj o) (s'.obj o)) (ret : Ret) :
    s.Serves idle D E wk (some (ret,s')) := by
  refine ⟨ret,s',rfl,⟨hk,hs ▸ h.current⟩,Resting.congr ?_ ?_ ?_ ?_ hnotes hobj fun _ => hkeeps⟩
  · rw [hs]
  · rw [hs]
  · rw [hs]
  · rw [hs]

/-- A call that is only about the scheduler. -/
theorem Sound.onSched (h : s.Sound idle) {out : Option (Ret × Sched T O)} (ha : s.toSched.Answers idle out) :
    s.Serves idle ∅ ∅ wk (s.onSched out) := by
  obtain ⟨ret,c,rfl,hcur,hc⟩ := ha
  have hboss : boss { s with toSched := c } = s.boss := boss_congr hc.pending hc.obj rfl
  have hlive : Live { s with toSched := c } = s.Live := by
    unfold Live
    simp only [hc.live]
  have hwaits : ∀ t, c.waitsFor t = s.waitsFor t := by
    intro t
    unfold waitsFor
    rw [hc.pending t,hc.obj]
  refine ⟨ret,{ s with toSched := c },rfl,⟨⟨⟨hcur.placed,hcur.idle.rdy,h.base,hlive ▸ h.bases,
    h.owned.congr hlive rfl rfl ?_,fun hl => hcur.rdy (Or.inr hl)⟩,?_,fun o ho => ?_,hc.ticks h.ticks⟩,hcur⟩,
    hc.count,hc.timed,fun t _ => hc.asleep t,fun t _ o _ hw => (hwaits t).trans hw,fun _ _ => rfl,fun t _ hl => (hc.live t).trans hl,
    fun t _ _ hne => Or.inl ⟨hc.pending t,hc.awake t hne,hwaits t,?_⟩,
    fun _ t ht hne m hm => hm.congr (hwaits t) (Scope.Keeps.refl _ _) ht hne⟩
  · exact fun o => hc.blk ▸ List.Subset.refl _
  · unfold Inherits
    rw [hlive,hboss,hc.prio]
    exact h.inherits
  · exact (h.waits o ho).congr rfl (hc.blk ▸ List.Subset.refl _) fun _ _ => ⟨rfl,rfl⟩
  · exact congrArg (fun b => (b,s.msg t,s.bqMsgSize t,s.actlFlags t)) (congrFun hc.ends t)

/-! ## The end of a wait -/

section Waits
variable [DecidableEq T] [DecidableEq O]

/-- The wait of a task ends with this state. -/
def endWait (s : Kernel T O) (t : T) (blk : BlkState) : Kernel T O := { s with toSched := s.toSched.ended t blk }

theorem live_endWait : (s.endWait t blk).Live = s.Live := by
  ext x
  by_cases hx : x = t
  · simp [Live,endWait,ended,hx]
  · simp [Live,endWait,ended,hx]

theorem boss_endWait : (s.endWait t blk).boss = Function.update s.boss t none := by
  funext x
  by_cases hx : x = t
  · rw [hx,Function.update_self]
    exact boss_of_not_pending (by simp [endWait,ended])
  · rw [Function.update_of_ne hx]
    simp [boss,endWait,ended,hx]

theorem Steady.endWait (h : s.Steady idle) (hp : (s.taskState t).pending = true ∨ (s.taskState t).sleeping = true) :
    (s.endWait t blk).Steady idle := by
  have hother : ∀ x, s.taskState x = .rdy → (s.endWait t blk).taskState x = .rdy := by
    intro x hx
    refine (Function.update_of_ne ?_ _ _).trans hx
    rintro rfl
    simp [hx,TaskStat.pending,TaskStat.sleeping] at hp
  have hlive : (s.endWait t blk).Live = s.Live := live_endWait
  refine ⟨?_,hother _ h.rdy,h.base,hlive ▸ h.bases,?_,fun hl => hother _ (h.locked hl)⟩
  · exact h.placed.ended hp fun x hx => Function.update_of_ne hx _ _
  · have hsub : ∀ o, (s.endWait t blk).blkList o ⊆ s.blkList o := fun o => List.Sublist.subset blkListRm_sublist
    exact h.owned.congr hlive rfl rfl hsub

theorem Waits.endWait (h : s.Waits o) : (s.endWait t blk).Waits o :=
  h.congr rfl (List.Sublist.subset blkListRm_sublist) fun _ _ => ⟨rfl,rfl⟩

/-- The end of a wait for what nobody holds. -/
theorem Kept.endWait (h : s.Kept idle U) (hp : (s.taskState t).pending = true) (hb : s.boss t = none) :
    (s.endWait t blk).Kept idle U := by
  refine ⟨h.toSteady.endWait (Or.inl hp),?_,fun o ho => (h.waits o ho).endWait,h.ticks.ended⟩
  unfold Inherits
  rw [live_endWait,boss_endWait,← hb,Function.update_eq_self]
  exact h.inherits

omit [DecidableEq T] [DecidableEq O] in
/-- Who waits for an object that is no mutex lends his priority to nobody. -/
theorem boss_of_obj (hp : s.Placed) (ht : t ∈ s.blkList o) (ho : ∀ u n, s.obj o ≠ .mutex (some u) n) :
    s.boss t = none := by
  rw [Option.eq_none_iff_forall_not_mem]
  intro u hu
  obtain ⟨m,n,hm,hobj⟩ := (boss_eq_some hp).mp hu
  have heq : some m = some o := (((hp.task t).blk m).mp hm).2.symm.trans (((hp.task t).blk o).mp ht).2
  exact ho u n (Option.some.inj heq ▸ hobj)

theorem blkList_endWait (hp : s.Placed) {l : List T} (hl : s.blkList o = t :: l) :
    (s.endWait t blk).blkList o = l := by
  have ht : t ∈ s.blkList o := hl ▸ List.mem_cons_self
  have hobj := (((hp.task t).blk o).mp ht).2
  simp [endWait,ended,blkListRm,hobj,hl]

/-- Only the one who waited for the object is told, and only his wait is over. -/
theorem resting_endWait {s1 : Kernel T O} (hp : s.Placed) (ht : t ∈ s.blkList o) (ho : o ∈ c.objs) (hblk : blk = c.blk)
    (hs : s1.toSched = s.toSched) (hobj : s1.obj = s.obj) (hnotes : ∀ x, x ≠ t → s1.notes x = s.notes x)
    (hheld : c.blk = .finish → ∀ u n, s.obj o = .mutex u n → u = some t) (hnote : c.note ((s1.endWait t blk).notes t)) :
    Resting c s (s1.endWait t blk) := by
  have hpend : (s.taskState t).pending = true := (((hp.task t).blk o).mp ht).1
  have hsched : (s1.endWait t blk).toSched = s.toSched.ended t blk := by rw [endWait,hs]
  have hstate : ∀ x, x ≠ t → (s1.endWait t blk).taskState x = s.taskState x := by
    intro x hx
    rw [hsched]
    exact Function.update_of_ne hx _ _
  have hwaits : ∀ x, x ≠ t → (s1.endWait t blk).waitsFor x = s.waitsFor x := by
    intro x hx
    have hblkObj : (s1.endWait t blk).blkObj x = s.blkObj x := by
      rw [hsched]
      exact Function.update_of_ne hx _ _
    unfold waitsFor
    rw [hstate x hx,hblkObj]
  refine ⟨by rw [hsched]; rfl,fun _ _ => by rw [hsched]; rfl,fun x _ hx => ?_,fun x _ o' ho' hx => ?_,fun _ _ => congrFun hobj _,
    fun x _ hx => ?_,fun x _ hx _ => ?_,fun hb x hx hne m hm => ?_⟩
  · have hxt : x ≠ t := by
      rintro rfl
      cases hst : s.taskState x <;> simp [hst,TaskStat.pending,TaskStat.sleeping] at hpend hx
    rw [hstate x hxt]
    exact hx
  · have hxt : x ≠ t := by
      rintro rfl
      have heq := ((mem_blkList_iff hp).mp ht).symm.trans hx
      exact ho' (Option.some.inj heq ▸ ho)
    exact (hwaits x hxt).trans hx
  · have hlive : (s1.endWait t blk).Live = s.Live := by
      rw [live_endWait]
      unfold Live
      rw [hs]
    exact hlive ▸ hx
  · by_cases hxt : x = t
    · subst hxt
      have hended : (s1.endWait x blk).taskState x = (s.taskState x).ended := by
        rw [hsched]
        exact Function.update_self ..
      refine Or.inr ⟨hpend,?_,?_,?_,hnote⟩
      · rw [hended,TaskStat.ended_pending]
      · rw [hended,TaskStat.ended_sleeping]
      · rw [hsched,← hblk]
        exact Function.update_self ..
    · refine Or.inl ⟨by rw [hstate x hxt],by rw [hstate x hxt],hwaits x hxt,?_⟩
      have hends : (s1.endWait t blk).blkState x = s1.blkState x := Function.update_of_ne hxt _ _
      rw [← hnotes x hxt]
      exact congrArg (fun b => (b,s1.msg x,s1.bqMsgSize x,s1.actlFlags x)) hends
  · have hsame : (s1.endWait t blk).obj m = s.obj m := congrFun hobj m
    by_cases hxt : x = t
    · subst hxt
      rcases hm with ⟨hw,v,i,hv⟩ | ⟨i,hv⟩
      · obtain rfl := Option.some.inj (((mem_blkList_iff hp).mp ht).symm.trans hw)
        exact Or.inr ⟨i,by rw [hsame,hv,hheld hb v i hv]⟩
      · exact Or.inr ⟨i,hsame.trans hv⟩
    · refine hm.congr (hwaits x hxt) ?_ hx hne
      rw [hsame]
      exact Scope.Keeps.refl _ _

/-- A task is given a message, or nothing. -/
def Tells (f : Kernel T O → T → Kernel T O) : Prop :=
  ∀ s t, ∃ msg, f s t = { s with msg := msg } ∧ ∀ x, x ≠ t → msg x = s.msg x

omit [DecidableEq T] [DecidableEq O] in
theorem tells_nothing : Tells (fun (s : Kernel T O) _ => s) := fun s _ => ⟨s.msg,rfl,fun _ _ => rfl⟩

omit [DecidableEq O] in
theorem tells_msg (v : Msg) : Tells (fun (s : Kernel T O) t => { s with msg := Function.update s.msg t v }) :=
  fun s t => ⟨Function.update s.msg t v,rfl,fun _ hx => Function.update_of_ne hx _ _⟩

/-- The tasks at the head of a wait list are woken one after the other; what they are
given does not matter. -/
theorem Kept.pendTaskEndAll {f : Kernel T O → T → Kernel T O} (hf : Tells f) (blk : BlkState) (n : ℕ)
    (h : s.Kept idle U) (hnone : ∀ t ∈ s.blkList o, s.boss t = none) (ho : o ∈ c.objs) (hblk : blk = c.blk)
    (hnote : ∀ (s : Kernel T O) t, c.note ((Kernel.endWait (f s t) t blk).notes t))
    (hfree : c.blk = .finish → ∀ u n, s.obj o ≠ .mutex u n) :
    ∃ s', pendTaskEndAll f blk o n s = some s' ∧ s'.Kept idle U ∧ Resting c s s' ∧
      s'.obj = s.obj ∧ s'.blkList o = (s.blkList o).drop n := by
  induction n generalizing s with
  | zero => exact ⟨s,rfl,h,Resting.refl ..,rfl,rfl⟩
  | succ n ih =>
    rw [Kernel.pendTaskEndAll]
    cases hl : s.blkList o with
    | nil => exact ⟨s,rfl,h,Resting.refl ..,rfl,by rw [hl,List.drop_nil]⟩
    | cons t l =>
      obtain ⟨msg,hmsg,hother⟩ := hf s t
      have ht : t ∈ s.blkList o := hl ▸ List.mem_cons_self
      have hp : (s.taskState t).pending = true := (((h.placed.task t).blk o).mp ht).1
      have hk : (Kernel.endWait { s with msg := msg } t blk).Kept idle U := by
        have hsame : Kept { s with msg := msg } idle U := h.congr rfl rfl rfl rfl rfl rfl
        exact hsame.endWait hp (hnone t ht)
      have hlist : (Kernel.endWait { s with msg := msg } t blk).blkList o = l := blkList_endWait h.placed hl
      have hboss : ∀ x ∈ (Kernel.endWait { s with msg := msg } t blk).blkList o,
          (Kernel.endWait { s with msg := msg } t blk).boss x = none := by
        intro x hx
        rw [hlist] at hx
        rw [boss_endWait,Function.update_apply]
        split_ifs
        · rfl
        · exact hnone x (hl ▸ List.mem_cons_of_mem _ hx)
      obtain ⟨s',hs',hk',hr,hobj,hdrop⟩ := ih hk hboss hfree
      have hone : Resting c s (Kernel.endWait { s with msg := msg } t blk) := by
        refine resting_endWait h.placed ht ho hblk rfl rfl (fun x hx => ?_) (fun hb u i heq => absurd heq (hfree hb u i))
          (hmsg ▸ hnote s t)
        exact congrArg (fun m => (s.blkState x,m,s.bqMsgSize x,s.actlFlags x)) (hother x hx)
      refine ⟨s',?_,hk',hone.trans hr,hobj,by rw [hdrop,hlist]; rfl⟩
      simp only [hmsg,pendTaskEnd_eq hp,Option.bind_some]
      exact hs'

/-! ## The start of a wait -/

/-- The task that runs starts to wait. -/
def pend (s : Kernel T O) (o : O) (time : BitVec 64) : Kernel T O :=
  { s with toSched := s.toSched.pendToBlkObj o s.active time }

theorem pend_taskState (hpos : 0#64 < time) :
    (s.pend o time).taskState = Function.update s.taskState s.active .pend := by
  rw [pend,pendToBlkObj_eq hpos]

theorem live_pend (hrdy : s.taskState s.active = .rdy) (hpos : 0#64 < time) : (s.pend o time).Live = s.Live := by
  ext x
  unfold Live
  rw [pend_taskState hpos]
  by_cases hx : x = s.active
  · simp [hx,hrdy,TaskStat.live]
  · simp [hx]

theorem mem_pend (hpos : 0#64 < time) {o' : O} :
    t ∈ (s.pend o time).blkList o' ↔ t ∈ s.blkList o' ∨ o' = o ∧ t = s.active := by
  rw [pend,pendToBlkObj_eq hpos]
  by_cases ho : o' = o
  · simp [Sched.pendListAdd,ho,or_comm]
  · simp [Sched.pendListAdd,ho]

/-- The one who starts to wait for a mutex lends his priority to its holder. -/
theorem boss_pend (hpos : 0#64 < time) :
    (s.pend o time).boss = Function.update s.boss s.active
      (match s.obj o with
        | .mutex mutexTask _ => mutexTask
        | _ => none) := by
  funext x
  rw [pend,pendToBlkObj_eq hpos]
  by_cases hx : x = s.active
  · simp only [boss,hx,Function.update_self,TaskStat.pending,if_true,Option.map_some]
    cases s.obj o <;> rfl
  · simp [boss,hx]

theorem Steady.pend (h : s.Steady idle) (hrdy : s.taskState s.active = .rdy) (hidle : s.active ≠ idle)
    (hlock : s.schedLock = 0) (hpos : 0#64 < time) (hfree : ∀ n, s.obj o ≠ .mutex none n)
    (hself : ∀ n, s.obj o ≠ .mutex (some s.active) n) : (s.pend o time).Steady idle := by
  have hlive : (s.pend o time).Live = s.Live := live_pend hrdy hpos
  have hmem : ∀ {x o'}, x ∈ (s.pend o time).blkList o' ↔ x ∈ s.blkList o' ∨ o' = o ∧ x = s.active := mem_pend hpos
  refine ⟨h.placed.pendToBlkObj hrdy hpos,?_,h.base,hlive ▸ h.bases,?_,fun hl => ?_⟩
  · rw [pend_taskState hpos,Function.update_of_ne hidle.symm]
    exact h.rdy
  · refine ⟨hlive ▸ h.owned.holds,hlive ▸ h.owned.nodup,hlive ▸ h.owned.live,h.owned.nested,fun m x n hm hx => ?_,
      fun m n hm => ?_⟩
    · rcases hmem.mp hx with hx | ⟨rfl,rfl⟩
      · exact h.owned.other m x n hm hx
      · exact hself n hm
    · refine List.eq_nil_iff_forall_not_mem.mpr fun x hx => ?_
      rcases hmem.mp hx with hx | ⟨rfl,rfl⟩
      · rw [h.owned.free m n hm] at hx
        cases hx
      · exact hfree n hm
  · rw [Kernel.pend,pendToBlkObj_eq hpos] at hl
    exact absurd hl (by simp [hlock])

/-- Who runs and starts to wait waited for nothing before. -/
theorem resting_pend (hrdy : s.taskState s.active = .rdy) (hpos : 0#64 < time) (hfree : s.active ∈ c.timed)
    (hcaller : s.active = c.caller) : Resting c s (s.pend o time) := by
  have hstate : ∀ x, x ≠ s.active → (s.pend o time).taskState x = s.taskState x := by
    intro x hx
    rw [pend_taskState hpos]
    exact Function.update_of_ne hx _ _
  have hwaits : ∀ x, x ≠ s.active → (s.pend o time).waitsFor x = s.waitsFor x := by
    intro x hx
    have hblk : (s.pend o time).blkObj x = s.blkObj x := by
      rw [Kernel.pend,pendToBlkObj_eq hpos]
      exact Function.update_of_ne hx _ _
    unfold waitsFor
    rw [hstate x hx,hblk]
  refine ⟨?_,fun x hx => ?_,fun x _ hx => ?_,fun x _ o' _ hx => ?_,fun _ _ => rfl,fun x _ hx => ?_,fun x _ _ hx => ?_,
    fun _ x hx hne m hm => hm.congr (hwaits x (hcaller ▸ hne)) (Scope.Keeps.refl _ _) hx hne⟩
  · rw [Kernel.pend,pendToBlkObj_eq hpos]
  · rw [Kernel.pend,pendToBlkObj_eq hpos]
    simp only
    split_ifs
    · rfl
    · exact Function.update_of_ne (ne_of_mem_of_not_mem hfree hx).symm _ _
  · have hxt : x ≠ s.active := fun heq => by simp [heq,hrdy,TaskStat.sleeping] at hx
    rw [hstate x hxt]
    exact hx
  · have hxt : x ≠ s.active := by
      rintro rfl
      rw [waitsFor_of_not_pending (by simp [hrdy,TaskStat.pending])] at hx
      cases hx
    exact (hwaits x hxt).trans hx
  · exact (live_pend hrdy hpos).symm ▸ hx
  · have hxt : x ≠ s.active := hcaller ▸ hx
    refine Or.inl ⟨by rw [hstate x hxt],by rw [hstate x hxt],hwaits x hxt,?_⟩
    unfold notes
    rw [Kernel.pend,pendToBlkObj_eq hpos]

theorem pend_ticks (hp : s.Placed) (h : s.TickKept) (hrdy : s.taskState s.active = .rdy) (hpos : 0#64 < time) :
    (s.pend o time).TickKept := by
  obtain ⟨htick,-⟩ := (hp.task s.active).not_timed (by simp [hrdy,TaskStat.pending]) (by simp [hrdy,TaskStat.sleeping])
  exact h.pendToBlkObj htick hpos

/-- Who waits with reason may go on to wait, and the one that runs starts to. -/
theorem Waits.pend {o' : O} (h : s.Waits o') (hpos : 0#64 < time) (hlacks : s.Lacks o s.active) :
    (s.pend o time).Waits o' := by
  intro t ht
  rcases (mem_pend hpos).mp ht with ht | ⟨rfl,rfl⟩
  · exact h t ht
  · exact hlacks

/-- The task that runs starts to wait for an object that is no mutex. -/
theorem Kept.pend (h : s.Kept idle U) (hrdy : s.taskState s.active = .rdy) (hidle : s.active ≠ idle)
    (hlock : s.schedLock = 0) (hpos : 0#64 < time) (ho : ∀ u n, s.obj o ≠ .mutex u n) (hlacks : s.Lacks o s.active) :
    (s.pend o time).Kept idle U := by
  refine ⟨h.toSteady.pend hrdy hidle hlock hpos (ho _) (ho _),?_,fun o' hU => (h.waits o' hU).pend hpos hlacks,
    pend_ticks h.placed h.ticks hrdy hpos⟩
  have hboss : (s.pend o time).boss = s.boss := by
    have hnone : s.boss s.active = none := boss_of_not_pending (by simp [hrdy,TaskStat.pending])
    rw [boss_pend hpos]
    cases hobj : s.obj o with
    | mutex u n => exact absurd hobj (ho u n)
    | _ => exact hnone ▸ Function.update_eq_self ..
  unfold Inherits
  rw [live_pend hrdy hpos,hboss,Kernel.pend,pendToBlkObj_eq hpos]
  exact h.inherits

end Waits

/-! ## Objects -/

section Objects
variable [DecidableEq O]

theorem setObj_of_ne {o' : O} (h : o' ≠ o) : (s.setObj o k).obj o' = s.obj o' := Function.update_of_ne h _ _

theorem setObj_self : (s.setObj o k).obj o = k := Function.update_self ..

theorem keeps_setObj (hk : c.Keeps (s.obj o) k) (o' : O) : c.Keeps (s.obj o') ((s.setObj o k).obj o') := by
  by_cases h : o' = o
  · rw [h,setObj_self]
    exact hk
  · rw [setObj_of_ne h]
    exact Scope.Keeps.refl _ _

theorem resting_setObj (ho : o ∈ c.objs) (hk : c.blk = .finish → c.Keeps (s.obj o) k) : Resting c s (s.setObj o k) :=
  Resting.congr rfl rfl rfl rfl rfl (fun _ ho' => setObj_of_ne (ne_of_mem_of_not_mem ho ho').symm)
    fun hb o' _ => keeps_setObj (hk hb) o'

/-- What an object that nobody holds comes to does not matter to the tasks. -/
theorem Kept.setObj (h : s.Kept idle {o}) (ho : ∀ u n, s.obj o ≠ .mutex (some u) n)
    (hk : ∀ u n, k ≠ .mutex (some u) n) (hfree : ∀ n, k = .mutex none n → s.blkList o = []) :
    (s.setObj o k).Kept idle {o} := by
  have hheld : ∀ m u n, (s.setObj o k).obj m = .mutex (some u) n ↔ s.obj m = .mutex (some u) n := by
    intro m u n
    by_cases hm : m = o
    · rw [hm,setObj_self]
      exact iff_of_false (hk u n) (ho u n)
    · rw [setObj_of_ne hm]
  have hboss : (s.setObj o k).boss = s.boss := by
    funext t
    refine Option.ext fun u => ?_
    have hp : (s.setObj o k).Placed := h.placed
    have hiff := (boss_eq_some hp (w := t) (u := u)).trans
      (exists_congr fun m => exists_congr fun n => and_congr_right fun _ => hheld m u n)
    exact hiff.trans (boss_eq_some h.placed).symm
  have hown := h.owned
  refine ⟨⟨h.placed,h.rdy,h.base,h.bases,⟨?_,hown.nodup,?_,?_,?_,?_⟩,h.locked⟩,?_,fun o' hne => ?_,h.ticks⟩
  · intro t ht m
    simp only [hheld]
    exact hown.holds t ht m
  · exact fun m t n hm => hown.live m t n ((hheld m t n).mp hm)
  · exact fun m t n hm => hown.nested m t n ((hheld m t n).mp hm)
  · exact fun m t n hm => hown.other m t n ((hheld m t n).mp hm)
  · intro m n hm
    by_cases heq : m = o
    · rw [heq,setObj_self] at hm
      exact heq ▸ hfree n hm
    · rw [setObj_of_ne heq] at hm
      exact hown.free m n hm
  · unfold Inherits
    rw [hboss]
    exact h.inherits
  · exact (h.waits o' hne).congr (setObj_of_ne hne) (List.Subset.refl _) fun _ _ => ⟨rfl,rfl⟩

end Objects

end Kernel

end FmacSdk.Rhino
