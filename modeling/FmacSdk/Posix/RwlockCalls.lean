import FmacSdk.Posix.Rwlock

/-! # Calls on a reader-writer lock

One call on an initialised pthread_rwlock_t whose fields may hold anything. The
underlying calls return any result; what the other threads do to the fields
before rw_mutex is taken and during a wait is part of the call's input.
-/
namespace FmacSdk.Rwlock

@[ext] theorem Fields.ext {c d : Fields} (hr : c.rwNwaitreaders = d.rwNwaitreaders)
    (hw : c.rwNwaitwriters = d.rwNwaitwriters) (hc : c.rwRefcount = d.rwRefcount) : c = d := by
  cases c
  cases d
  cases hr
  cases hw
  cases hc
  rfl

/-- What is added to the three fields. -/
instance : Add Fields := ⟨fun c d => ⟨c.rwNwaitreaders + d.rwNwaitreaders,
  c.rwNwaitwriters + d.rwNwaitwriters,c.rwRefcount + d.rwRefcount⟩⟩

instance : Zero Fields := ⟨⟨0,0,0⟩⟩

/-- The test of pthread_rwlock_destroy. -/
def Fields.Busy (c : Fields) : Prop :=
  c.rwRefcount ≠ 0 ∨ c.rwNwaitreaders ≠ 0 ∨ c.rwNwaitwriters ≠ 0

instance (c : Fields) : Decidable c.Busy := inferInstanceAs (Decidable (_ ∨ _))

/-- One wait for a condition: its result, and what the others do to the fields
until rw_mutex is taken again. -/
structure Wait where
  result : ℤ
  others : Fields

/-- What a call meets: the result of pthread_mutex_lock and what the others do until
then, the waits, and the result of pthread_cond_signal or pthread_cond_broadcast. -/
structure Outcomes where
  lock : ℤ
  before : Fields
  waits : List Wait
  wake : ℤ

/-- The fields while a call runs, what the others have added to them so far, and
whether the caller has rw_mutex. -/
structure Call where
  fields : Fields
  others : Fields
  mine : Bool
deriving DecidableEq

def Call.start (c : Fields) : Call := ⟨c,0,false⟩

def Call.yield (s : Call) (d : Fields) : Call := { s with fields := s.fields + d, others := s.others + d }

def Call.addNwait (s : Call) (n : ℤ) (m : Mode) : Call := { s with fields := s.fields.addNwait n m }

def Call.grant (s : Call) (m : Mode) : Call := { s with fields := s.fields.grant m }

def Call.mutexLock (s : Call) (o : Outcomes) : Call := { s.yield o.before with mine := o.lock = 0 }

/-- The owner's pthread_mutex_unlock; its result is not read. -/
def Call.mutexUnlock (s : Call) : Call := { s with mine := false }

/-- The loop of the functions that wait; no outcome while it still waits. -/
def waitLoop (m : Mode) : List Wait → Call → Option (ℤ × Call)
  | ws, s =>
    if s.fields.Refuses m then
      match ws with
      | [] => none
      | w :: ws =>
        let s' := ((s.addNwait 1 m).yield w.others).addNwait (-1) m
        if w.result = 0 then waitLoop m ws s' else some (w.result,s')
    else some (0,s.grant m)

/-- What a function that locks does with rw_mutex. -/
def Func.locked (f : Func) (ws : List Wait) (s : Call) : Option (ℤ × Call) :=
  if f.wait = .never then
    if s.fields.Refuses f.mode then some (-EBUSY,s) else some (0,s.grant f.mode)
  else waitLoop f.mode ws s

inductive Op
  | init
  | destroy
  | lock (f : Func)
  | unlock
deriving DecidableEq

/-- A call of pthread_rwlock_init, pthread_rwlock_destroy, a function that locks or
pthread_rwlock_unlock, with its result. -/
def Op.run (op : Op) (o : Outcomes) (s : Call) : Option (ℤ × Call) :=
  let l := s.mutexLock o
  match op with
  | .init => some (0,{ s with fields := 0 })
  | .destroy =>
    if o.lock ≠ 0 then some (o.lock,l)
    else if l.fields.Busy then some (-EBUSY,l)
    else some (0,l.mutexUnlock)
  | .lock f =>
    if o.lock ≠ 0 then some (o.lock,l)
    else (f.locked o.waits l).map fun r => (r.1,r.2.mutexUnlock)
  | .unlock =>
    if o.lock ≠ 0 then some (o.lock,l)
    else
      let fields := l.fields.release
      some (if fields.wakes = none then 0 else o.wake,{ l with fields := fields }.mutexUnlock)

/-- The calls that must leave the fields alone when they fail. -/
def Op.restores : Op → Bool
  | .destroy | .lock _ => true
  | .init | .unlock => false

/-- What a call that returned owes: rw_mutex is not the caller's, and if it failed the
fields are as the other threads have made them. -/
structure Released (op : Op) (c : Fields) (r : ℤ) (t : Call) : Prop where
  mutex : t.mine = false
  kept : op.restores = true → r ≠ 0 → t.fields = c + t.others

variable {m : Mode} {ws : List Wait} {c d : Fields} {s t : Call} {r : ℤ}

/-- The caller itself has added nothing to the fields. -/
def Call.Balanced (c : Fields) (s : Call) : Prop := s.fields = c + s.others

theorem start_balanced (c : Fields) : (Call.start c).Balanced c := by
  apply Fields.ext <;> exact (Int.add_zero _).symm

theorem Call.Balanced.yield (h : s.Balanced c) (d : Fields) : (s.yield d).Balanced c := by
  show s.fields + d = c + (s.others + d)
  rw [h]
  apply Fields.ext <;> exact Int.add_assoc ..

theorem Call.Balanced.mutexLock (h : s.Balanced c) (o : Outcomes) : (s.mutexLock o).Balanced c :=
  h.yield o.before

/-- A wait takes its count back, whatever the others have done. -/
theorem Call.Balanced.wait (h : s.Balanced c) (d : Fields) (m : Mode) :
    (((s.addNwait 1 m).yield d).addNwait (-1) m).Balanced c := by
  have hy := h.yield d
  have hcount : (((s.addNwait 1 m).yield d).addNwait (-1) m).fields = (s.yield d).fields := by
    cases m <;> apply Fields.ext <;> try rfl
    · show s.fields.rwNwaitreaders + 1 + d.rwNwaitreaders + -1 = s.fields.rwNwaitreaders + d.rwNwaitreaders
      omega
    · show s.fields.rwNwaitwriters + 1 + d.rwNwaitwriters + -1 = s.fields.rwNwaitwriters + d.rwNwaitwriters
      omega
  exact hcount.trans hy

/-- Every way out of the loop keeps rw_mutex, and the ways out with an error have
changed nothing. -/
theorem waitLoop_balanced (h : waitLoop m ws s = some (r,t)) (hs : s.Balanced c) (hne : r ≠ 0) :
    t.Balanced c := by
  induction ws generalizing s with
  | nil =>
    unfold waitLoop at h
    split at h
    · cases h
    · cases h
      exact absurd rfl hne
  | cons w ws ih =>
    unfold waitLoop at h
    split at h
    · dsimp only at h
      split at h
      · exact ih h (hs.wait w.others m)
      · cases h
        exact hs.wait w.others m
    · cases h
      exact absurd rfl hne

theorem locked_balanced {f : Func} (h : f.locked ws s = some (r,t)) (hs : s.Balanced c) (hne : r ≠ 0) :
    t.Balanced c := by
  unfold Func.locked at h
  split at h
  · split at h
    · cases h
      exact hs
    · cases h
      exact absurd rfl hne
  · exact waitLoop_balanced h hs hne

/-- A call that pthread_mutex_lock refuses has nothing to give back. -/
theorem released_of_lock_fails {op : Op} {o : Outcomes} (hl : o.lock ≠ 0) :
    Released op c r ((Call.start c).mutexLock o) :=
  ⟨decide_eq_false hl,fun _ _ => (start_balanced c).mutexLock o⟩

theorem destroy_released_iff {o : Outcomes} (h : Op.run .destroy o (Call.start c) = some (r,t)) :
    Released .destroy c r t ↔ ¬ (o.lock = 0 ∧ (c + o.before).Busy) := by
  unfold Op.run at h
  dsimp only at h
  by_cases hl : o.lock = 0
  · rw [if_neg (not_not.mpr hl)] at h
    by_cases hbusy : (c + o.before).Busy
    · rw [if_pos (show ((Call.start c).mutexLock o).fields.Busy from hbusy)] at h
      cases h
      refine iff_of_false (fun hrel => ?_) (not_not.mpr ⟨hl,hbusy⟩)
      exact absurd (hrel.mutex.symm.trans (decide_eq_true hl)) Bool.false_ne_true
    · rw [if_neg (show ¬ ((Call.start c).mutexLock o).fields.Busy from hbusy)] at h
      cases h
      exact iff_of_true ⟨rfl,fun _ hne => absurd rfl hne⟩ fun hb => hbusy hb.2
  · rw [if_pos hl] at h
    cases h
    exact iff_of_true (released_of_lock_fails hl) fun hb => hl hb.1

theorem lock_released {f : Func} {o : Outcomes} (h : Op.run (.lock f) o (Call.start c) = some (r,t)) :
    Released (.lock f) c r t := by
  unfold Op.run at h
  dsimp only at h
  by_cases hl : o.lock = 0
  · rw [if_neg (not_not.mpr hl)] at h
    obtain ⟨⟨r',s⟩,hs,he⟩ := Option.map_eq_some_iff.mp h
    cases he
    refine ⟨rfl,fun _ hne => ?_⟩
    have hkept : s.Balanced c := locked_balanced hs ((start_balanced c).mutexLock o) hne
    exact hkept
  · rw [if_pos hl] at h
    cases h
    exact released_of_lock_fails hl

theorem unlock_released {o : Outcomes} (h : Op.run .unlock o (Call.start c) = some (r,t)) :
    Released .unlock c r t := by
  refine ⟨?_,fun hres => absurd hres Bool.false_ne_true⟩
  unfold Op.run at h
  dsimp only at h
  by_cases hl : o.lock = 0
  · rw [if_neg (not_not.mpr hl)] at h
    cases h
    rfl
  · rw [if_pos hl] at h
    cases h
    exact decide_eq_false hl

/-- Every call returns without rw_mutex and, if it failed, without a change of its own,
except a destroy that gets rw_mutex and finds the lock in use. -/
theorem run_released_iff {op : Op} {o : Outcomes} (h : op.run o (Call.start c) = some (r,t)) :
    Released op c r t ↔ ¬ (op = .destroy ∧ o.lock = 0 ∧ (c + o.before).Busy) := by
  cases op with
  | init =>
    cases h
    exact iff_of_true ⟨rfl,fun hres => absurd hres Bool.false_ne_true⟩ (by simp)
  | destroy => simpa using destroy_released_iff h
  | lock f => exact iff_of_true (lock_released h) (by simp)
  | unlock => exact iff_of_true (unlock_released h) (by simp)

/-- A writer that times out while a reader comes and goes. -/
theorem timedwrlock_released : Released (.lock pthreadRwlockTimedwrlock) ⟨0,0,1⟩ (-ETIMEDOUT)
    ⟨⟨0,0,1⟩,⟨0,0,0⟩,false⟩ :=
  (run_released_iff (o := ⟨0,⟨0,0,1⟩,[⟨0,⟨1,0,0⟩⟩,⟨-ETIMEDOUT,⟨-1,0,-1⟩⟩],0⟩) (by decide)).mpr (by decide)

/-- pthread_rwlock_destroy keeps rw_mutex where it finds the lock in use. -/
theorem destroy_keeps_mutex : ∃ t, Op.run .destroy ⟨0,0,[],0⟩ (Call.start ⟨0,0,1⟩) = some (-EBUSY,t) ∧
    ¬ Released .destroy ⟨0,0,1⟩ (-EBUSY) t := by
  refine ⟨_,rfl,fun h => ?_⟩
  exact absurd h.mutex.symm Bool.false_ne_true

end FmacSdk.Rwlock
