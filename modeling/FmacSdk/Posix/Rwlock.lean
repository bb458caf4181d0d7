import FmacSdk.Common.Errno
import FmacSdk.Foundation.Tally
import FmacSdk.Foundation.Transition

/-! # Reader-writer locks

An initialised pthread_rwlock_t. A thread takes the statements of pthread_rwlock.c
one by one; rw_mutex and the two condition variables are correct, but a wait may
end by itself, with any result.
-/
namespace FmacSdk.Rwlock
open Tally Transition

inductive Mode
  | rd
  | wr
deriving DecidableEq

inductive Patience
  | forever
  | timed
  | never
deriving DecidableEq

/-- A function that locks. -/
structure Func where
  mode : Mode
  wait : Patience
deriving DecidableEq

def pthreadRwlockRdlock : Func := ⟨.rd,.forever⟩
def pthreadRwlockTimedrdlock : Func := ⟨.rd,.timed⟩
def pthreadRwlockTryrdlock : Func := ⟨.rd,.never⟩
def pthreadRwlockWrlock : Func := ⟨.wr,.forever⟩
def pthreadRwlockTimedwrlock : Func := ⟨.wr,.timed⟩
def pthreadRwlockTrywrlock : Func := ⟨.wr,.never⟩

/-- The fields of struct pthread_rwlock that rw_mutex guards. -/
structure Fields where
  rwNwaitreaders : ℤ
  rwNwaitwriters : ℤ
  rwRefcount : ℤ
deriving DecidableEq

/-- The condition of the loops and of the try functions. -/
def Fields.Refuses (c : Fields) : Mode → Prop
  | .rd => c.rwRefcount < 0 ∨ 0 < c.rwNwaitwriters
  | .wr => c.rwRefcount ≠ 0

instance (c : Fields) (m : Mode) : Decidable (c.Refuses m) :=
  match m with
  | .rd => inferInstanceAs (Decidable (_ ∨ _))
  | .wr => inferInstanceAs (Decidable (_ ≠ _))

def Fields.nwait (c : Fields) : Mode → ℤ
  | .rd => c.rwNwaitreaders
  | .wr => c.rwNwaitwriters

def Fields.addNwait (c : Fields) (n : ℤ) : Mode → Fields
  | .rd => { c with rwNwaitreaders := c.rwNwaitreaders + n }
  | .wr => { c with rwNwaitwriters := c.rwNwaitwriters + n }

def Fields.grant (c : Fields) : Mode → Fields
  | .rd => { c with rwRefcount := c.rwRefcount + 1 }
  | .wr => { c with rwRefcount := -1 }

def Fields.release (c : Fields) : Fields :=
  if 0 < c.rwRefcount then { c with rwRefcount := c.rwRefcount - 1 }
  else if c.rwRefcount = -1 then { c with rwRefcount := 0 }
  else c

/-- Whom pthread_rwlock_unlock wakes: one writer, or the readers. -/
def Fields.wakes (c : Fields) : Option Mode :=
  if 0 < c.rwNwaitwriters then
    if c.rwRefcount = 0 then some .wr else none
  else if 0 < c.rwNwaitreaders then some .rd
  else none

/-- The next statement of a thread: of a function that locks, with its result, or of
pthread_rwlock_unlock. A thread outside has the result of its last call. -/
inductive Pc
  | out (result : ℤ)
  | enter (f : Func)
  | test (f : Func)
  | count (f : Func)
  | wait (f : Func)
  | blocked (f : Func) (woken : Option ℤ)
  | uncount (f : Func) (result : ℤ)
  | check (f : Func) (result : ℤ)
  | grant (f : Func) (result : ℤ)
  | leave (f : Func) (result : ℤ)
  | unlock
  | release
  | wake
  | unlocked (result : ℤ)
deriving DecidableEq

variable {ι : Type*}

/-- The holds of a thread are those it was granted and has not given up. -/
structure Sys (ι : Type*) where
  rwMutex : Option ι
  fields : Fields
  pc : ι → Pc
  held : Mode → ι → ℕ

/-- A call, a statement, a pthread_mutex_lock that fails, a pthread_cond_signal that
wakes a thread, and a wait that ends by itself. -/
inductive Label (ι : Type*)
  | lock (i : ι) (f : Func)
  | unlock (i : ι)
  | go (i : ι)
  | fail (i : ι) (result : ℤ)
  | signal (i j : ι)
  | expire (j : ι) (result : ℤ)

/-- In pthread_cond_wait or pthread_cond_timedwait, which nobody has ended. -/
def Pc.Asleep (p : Pc) (m : Mode) : Prop := ∃ f, p = .blocked f none ∧ f.mode = m

instance (p : Pc) (m : Mode) : Decidable (p.Asleep m) :=
  match p with
  | .blocked f none => decidable_of_iff (f.mode = m) (by simp [Pc.Asleep])
  | .blocked _ (some _) | .out _ | .enter _ | .test _ | .count _ | .wait _ | .uncount .. | .check .. |
    .grant .. | .leave .. | .unlock | .release | .wake | .unlocked _ => isFalse (by simp [Pc.Asleep])

/-- The thread is between its increment of a waiters' counter and the decrement. -/
def Pc.nwait (m : Mode) : Pc → ℕ
  | .wait f | .blocked f _ | .uncount f _ => if f.mode = m then 1 else 0
  | _ => 0

def Pc.Waiting (p : Pc) (m : Mode) : Prop := p.nwait m = 1

instance (p : Pc) (m : Mode) : Decidable (p.Waiting m) := inferInstanceAs (Decidable (_ = _))

/-- The thread has rw_mutex. -/
def Pc.locked : Pc → Bool
  | .test _ | .count _ | .wait _ | .uncount .. | .check .. | .grant .. | .leave .. | .release | .wake |
    .unlocked _ => true
  | .out _ | .enter _ | .blocked .. | .unlock => false

/-- The condition is broadcast to the readers. -/
def Pc.awake : Pc → Pc
  | .blocked f none => if f.mode = .rd then .blocked f (some 0) else .blocked f none
  | p => p

section Code
variable [DecidableEq ι]

def Sys.at (s : Sys ι) (i : ι) (p : Pc) : Sys ι := { s with pc := Function.update s.pc i p }

/-- os_mutex_lock -/
def Sys.acquire (s : Sys ι) (i : ι) (p : Pc) : Option (Sys ι) :=
  if s.rwMutex = none then some { s.at i p with rwMutex := some i } else none

def Sys.hold (s : Sys ι) (i : ι) (m : Mode) : Mode → ι → ℕ :=
  Function.update s.held m (Function.update (s.held m) i (s.held m i + 1))

/-- The thread gives up the lock, for writing if it has it so. -/
def Sys.giveUp (s : Sys ι) (i : ι) : Mode → ι → ℕ :=
  let m := if 0 < s.held .wr i then .wr else .rd
  Function.update s.held m (Function.update (s.held m) i (s.held m i - 1))

variable [Fintype ι]

/-- The statement of thread `i`. -/
def Sys.go (s : Sys ι) (i : ι) : Pc → Option (Sys ι)
  | .out _ => none
  | .enter f => s.acquire i (.test f)
  | .test f => some (s.at i
      (if s.fields.Refuses f.mode then if f.wait = .never then .leave f (-EBUSY) else .count f
      else .grant f 0))
  | .count f => some { s.at i (.wait f) with fields := s.fields.addNwait 1 f.mode }
  | .wait f => some { s.at i (.blocked f none) with rwMutex := none }
  | .blocked _ none => none
  | .blocked f (some r) => s.acquire i (.uncount f r)
  | .uncount f r => some { s.at i (.check f r) with fields := s.fields.addNwait (-1) f.mode }
  | .check f r => some (s.at i (if r = 0 then .test f else .grant f r))
  | .grant f r =>
    if r = 0 then some { s.at i (.leave f r) with fields := s.fields.grant f.mode, held := s.hold i f.mode }
    else some (s.at i (.leave f r))
  | .leave _ r => some { s.at i (.out r) with rwMutex := none }
  | .unlock => s.acquire i .release
  | .release => some { s.at i .wake with fields := s.fields.release, held := s.giveUp i }
  | .wake =>
    match s.fields.wakes with
    | none => some (s.at i (.unlocked 0))
    | some .rd => some (Sys.at { s with pc := fun j => (s.pc j).awake } i (.unlocked 0))
    | some .wr => if ∃ j, (s.pc j).Asleep .wr then none else some (s.at i (.unlocked 0))
  | .unlocked r => some { s.at i (.out r) with rwMutex := none }

/-- Only a holder unlocks. -/
def step (s : Sys ι) : Label ι → Option (Sys ι)
  | .lock i f => match s.pc i with
    | .out _ => some (s.at i (.enter f))
    | _ => none
  | .unlock i => match s.pc i with
    | .out _ => if 0 < s.held .rd i ∨ 0 < s.held .wr i then some (s.at i .unlock) else none
    | _ => none
  | .go i => s.go i (s.pc i)
  | .fail i r => match s.pc i with
    | .enter _ | .unlock => if r = 0 then none else some (s.at i (.out r))
    | _ => none
  | .signal i j => match s.pc i, s.pc j with
    | .wake, .blocked f none =>
      if s.fields.wakes = some .wr ∧ f.mode = .wr then
        some ((s.at j (.blocked f (some 0))).at i (.unlocked 0))
      else none
    | _, _ => none
  | .expire j r => match s.pc j with
    | .blocked f none => some (s.at j (.blocked f (some r)))
    | _ => none

end Code

/-- pthread_rwlock_init -/
def initialised : Sys ι := ⟨none,⟨0,0,0⟩,fun _ => .out 0,fun _ _ => 0⟩

section Holds
variable [DecidableEq ι] {s t : Sys ι} {i j : ι} {p : Pc}

@[simp] theorem at_rwMutex (p : Pc) : (s.at i p).rwMutex = s.rwMutex := rfl
@[simp] theorem at_fields (p : Pc) : (s.at i p).fields = s.fields := rfl
@[simp] theorem at_pc_self (p : Pc) : (s.at i p).pc i = p := Function.update_self ..
@[simp] theorem at_held (p : Pc) : (s.at i p).held = s.held := rfl

@[simp] theorem hold_self (m : Mode) : s.hold i m m = Function.update (s.held m) i (s.held m i + 1) :=
  Function.update_self ..

theorem hold_of_ne {m m' : Mode} (h : m' ≠ m) : s.hold i m m' = s.held m' := Function.update_of_ne h ..

theorem hold_other (m m' : Mode) (h : j ≠ i) : s.hold i m m' j = s.held m' j := by
  by_cases hm : m' = m
  · subst hm
    rw [hold_self,Function.update_of_ne h]
  · rw [hold_of_ne hm]

theorem giveUp_other (m : Mode) (h : j ≠ i) : s.giveUp i m j = s.held m j := by
  unfold Sys.giveUp
  by_cases hm : m = if 0 < s.held .wr i then .wr else .rd
  · rw [hm,Function.update_self,Function.update_of_ne h]
  · rw [Function.update_of_ne hm]

end Holds

section Invariant
variable [Fintype ι] {s : Sys ι} {i : ι}

/-- What the reference count says of the holds. -/
def Counts (r : ℤ) (held : Mode → ι → ℕ) : Prop :=
  (r = -1 ∧ ∑ i, held .wr i = 1 ∧ ∑ i, held .rd i = 0) ∨ (r = ∑ i, held .rd i ∧ ∑ i, held .wr i = 0)

structure Inv (s : Sys ι) : Prop where
  mutex : ∀ i, (s.pc i).locked = true ↔ s.rwMutex = some i
  nwait : ∀ m, s.fields.nwait m = tally (Pc.nwait m) s.pc
  counts : Counts s.fields.rwRefcount s.held
  granted : ∀ i f, s.pc i = .grant f 0 → ¬ s.fields.Refuses f.mode
  holds : ∀ i, s.pc i = .unlock ∨ s.pc i = .release → 0 < s.held .rd i ∨ 0 < s.held .wr i

theorem Inv.initialised : Inv (initialised : Sys ι) := by
  constructor
  · intro i
    simp [Rwlock.initialised,Pc.locked]
  · intro m
    cases m <;> simp [Rwlock.initialised,Fields.nwait,tally,Pc.nwait]
  · right
    simp [Rwlock.initialised]
  · intro i f hpc
    simp [Rwlock.initialised] at hpc
  · intro i hpc
    simp [Rwlock.initialised] at hpc

theorem le_holds (held : Mode → ι → ℕ) (m : Mode) (i : ι) : held m i ≤ ∑ j, held m j := le_tally id (held m) i

theorem Inv.excludes (h : Inv s) (hi : 0 < s.held .wr i) :
    s.held .wr i = 1 ∧ ∀ j m, 0 < s.held m j → j = i ∧ m = .wr := by
  have hle := le_holds s.held .wr i
  rcases h.counts with ⟨-,hone,hnone⟩ | ⟨-,hnone⟩
  · refine ⟨by omega,fun j m hj => ?_⟩
    have hjle := le_holds s.held m j
    cases m with
    | rd => omega
    | wr => exact ⟨eq_of_tally_le_one (w := id) (f := s.held .wr) hone.le hj hi,rfl⟩
  · omega

end Invariant

section Counting
variable [DecidableEq ι] [Fintype ι] {s t : Sys ι} {i j : ι} {p : Pc} {r : ℤ} {held : Mode → ι → ℕ}

/-- Only the thread that has rw_mutex touches the fields, and a thread moves alone. -/
structure Move (s t : Sys ι) (i : ι) (p : Pc) : Prop where
  pc : t.pc = Function.update s.pc i p
  mutex : p.locked = true ↔ t.rwMutex = some i
  others : ∀ j, j ≠ i → (t.rwMutex = some j ↔ s.rwMutex = some j)
  nwait : ∀ m, t.fields.nwait m + (s.pc i).nwait m = s.fields.nwait m + p.nwait m
  counts : Counts t.fields.rwRefcount t.held
  granted : ∀ f, p = .grant f 0 → ¬ t.fields.Refuses f.mode
  fields : (s.pc i).locked = true ∨ t.fields = s.fields
  holds : p = .unlock ∨ p = .release → 0 < t.held .rd i ∨ 0 < t.held .wr i
  held : ∀ j, j ≠ i → ∀ m, t.held m j = s.held m j

theorem Inv.move (h : Inv s) (m : Move s t i p) : Inv t := by
  have hself : t.pc i = p := by rw [m.pc,Function.update_self]
  have hother {j : ι} (hj : j ≠ i) : t.pc j = s.pc j := by rw [m.pc,Function.update_of_ne hj]
  constructor
  · intro j
    by_cases hj : j = i
    · rw [hj,hself,m.mutex]
    · rw [hother hj,h.mutex,m.others j hj]
  · intro md
    have htally := tally_update (Pc.nwait md) s.pc i p
    have hnwait := m.nwait md
    rw [h.nwait] at hnwait
    rw [m.pc]
    omega
  · exact m.counts
  · intro j f hpc
    by_cases hj : j = i
    · rw [hj,hself] at hpc
      exact m.granted f hpc
    · rw [hother hj] at hpc
      rcases m.fields with hlocked | heq
      · have hmine : (s.pc j).locked = true := by rw [hpc]; rfl
        rw [h.mutex] at hlocked hmine
        exact absurd (Option.some.inj (hmine.symm.trans hlocked)) hj
      · rw [heq]
        exact h.granted j f hpc
  · intro j hpc
    by_cases hj : j = i
    · rw [hj,hself] at hpc
      exact hj ▸ m.holds hpc
    · rw [hother hj] at hpc
      rw [m.held j hj,m.held j hj]
      exact h.holds j hpc

theorem Counts.grant (h : Counts s.fields.rwRefcount s.held) {m : Mode} (hm : ¬ s.fields.Refuses m) :
    Counts (s.fields.grant m).rwRefcount (s.hold i m) := by
  have hsum := sum_update (s.held m) i (s.held m i + 1)
  cases m with
  | rd =>
    have hfree : 0 ≤ s.fields.rwRefcount := not_lt.mp fun hneg => hm (Or.inl hneg)
    rcases h with ⟨hr,-,-⟩ | ⟨hr,hwr⟩
    · omega
    · right
      rw [hold_self,hold_of_ne (by decide)]
      refine ⟨?_,hwr⟩
      simp only [Fields.grant]
      omega
  | wr =>
    have hfree : s.fields.rwRefcount = 0 := not_not.mp hm
    rcases h with ⟨hr,-,-⟩ | ⟨hr,hwr⟩
    · omega
    · left
      rw [hold_self,hold_of_ne (by decide)]
      refine ⟨rfl,?_,?_⟩ <;> omega

theorem Counts.release (h : Counts s.fields.rwRefcount s.held) (hi : 0 < s.held .rd i ∨ 0 < s.held .wr i) :
    Counts s.fields.release.rwRefcount (s.giveUp i) := by
  have hrd := le_holds s.held .rd i
  have hwr := le_holds s.held .wr i
  rcases h with ⟨hr,hone,hnone⟩ | ⟨hr,hnone⟩
  · have hpos : 0 < s.held .wr i := by omega
    have hsum := sum_update (s.held .wr) i (s.held .wr i - 1)
    have hrelease : s.fields.release.rwRefcount = 0 := by
      simp [Fields.release,hr]
    right
    rw [hrelease,Sys.giveUp,if_pos hpos,Function.update_self,Function.update_of_ne (by decide),hnone]
    refine ⟨rfl,?_⟩
    omega
  · have hzero : ¬ 0 < s.held .wr i := by omega
    have hsum := sum_update (s.held .rd) i (s.held .rd i - 1)
    have hpos : 0 < s.fields.rwRefcount := by omega
    have hrelease : s.fields.release.rwRefcount = s.fields.rwRefcount - 1 := by
      simp [Fields.release,hpos]
    right
    rw [hrelease,Sys.giveUp,if_neg hzero,Function.update_self,Function.update_of_ne (by decide)]
    refine ⟨?_,hnone⟩
    omega

/-- The thread keeps rw_mutex, or has no part in it. -/
theorem Inv.stays (h : Inv s) {q : Pc} (hpc : s.pc i = q) (hlocked : p.locked = q.locked)
    (hnwait : ∀ m, p.nwait m = q.nwait m) (hgranted : ∀ f, p = .grant f 0 → ¬ s.fields.Refuses f.mode)
    (hholds : p = .unlock ∨ p = .release → 0 < s.held .rd i ∨ 0 < s.held .wr i) : Inv (s.at i p) :=
  h.move { pc := rfl
           mutex := by rw [hlocked,← hpc]; exact h.mutex i
           others := fun _ _ => Iff.rfl
           nwait := fun m => by rw [hnwait,← hpc]; rfl
           counts := h.counts
           granted := hgranted
           fields := Or.inr rfl
           holds := hholds
           held := fun _ _ _ => rfl }

theorem Inv.acquire (h : Inv s) {q : Pc} (hpc : s.pc i = q) (hlocked : p.locked = true)
    (hnwait : ∀ m, p.nwait m = q.nwait m)
    (hgranted : ∀ f, p ≠ .grant f 0) (hholds : p = .unlock ∨ p = .release → 0 < s.held .rd i ∨ 0 < s.held .wr i)
    (ht : s.acquire i p = some t) : Inv t := by
  obtain ⟨hfree,ht⟩ := Option.ite_none_right_eq_some.mp ht
  obtain rfl := Option.some.inj ht
  exact h.move { pc := rfl
                 mutex := by simp [hlocked]
                 others := fun j hj => by simp [hfree,Ne.symm hj]
                 nwait := fun m => by rw [hnwait,← hpc]; rfl
                 counts := h.counts
                 granted := fun f hf => absurd hf (hgranted f)
                 fields := Or.inr rfl
                 holds := hholds
                 held := fun _ _ _ => rfl }

theorem Inv.yields (h : Inv s) {q : Pc} (hpc : s.pc i = q) (hmine : q.locked = true) (hlocked : p.locked = false)
    (hnwait : ∀ m, p.nwait m = q.nwait m) (hunlock : p ≠ .unlock) : Inv { s.at i p with rwMutex := none } := by
  subst hpc
  have hmutex : s.rwMutex = some i := (h.mutex i).mp hmine
  refine h.move { pc := rfl
                  mutex := by simp [hlocked]
                  others := fun j hj => by simp [hmutex,Ne.symm hj]
                  nwait := fun m => by rw [hnwait]; rfl
                  counts := h.counts
                  granted := fun f hf => by simp [hf,Pc.locked] at hlocked
                  fields := Or.inr rfl
                  holds := fun hp => ?_
                  held := fun _ _ _ => rfl }
  rcases hp with rfl | rfl
  · exact absurd rfl hunlock
  · simp [Pc.locked] at hlocked

/-- The thread that has rw_mutex writes the fields. -/
theorem Inv.writes (h : Inv s) {c : Fields} {held : Mode → ι → ℕ} {q : Pc} (hpc : s.pc i = q)
    (hmine : q.locked = true) (hlocked : p.locked = true)
    (hnwait : ∀ m, c.nwait m + q.nwait m = s.fields.nwait m + p.nwait m)
    (hcounts : Counts c.rwRefcount held) (hgranted : ∀ f, p ≠ .grant f 0) (hrelease : p ≠ .release)
    (hheld : ∀ j, j ≠ i → ∀ m, held m j = s.held m j) : Inv { s.at i p with fields := c, held := held } := by
  subst hpc
  refine h.move { pc := rfl
                  mutex := iff_of_true hlocked ((h.mutex i).mp hmine)
                  others := fun _ _ => Iff.rfl
                  nwait := hnwait
                  counts := hcounts
                  granted := fun f hf => absurd hf (hgranted f)
                  fields := Or.inl hmine
                  holds := fun hp => ?_
                  held := hheld }
  rcases hp with rfl | rfl
  · simp [Pc.locked] at hlocked
  · exact absurd rfl hrelease

@[simp] theorem addNwait_nwait (c : Fields) (n : ℤ) (m m' : Mode) :
    (c.addNwait n m).nwait m' = c.nwait m' + if m = m' then n else 0 := by
  cases m <;> cases m' <;> simp [Fields.addNwait,Fields.nwait]

@[simp] theorem addNwait_rwRefcount (c : Fields) (n : ℤ) (m : Mode) :
    (c.addNwait n m).rwRefcount = c.rwRefcount := by cases m <;> rfl

@[simp] theorem grant_nwait (c : Fields) (m m' : Mode) : (c.grant m).nwait m' = c.nwait m' := by
  cases m <;> cases m' <;> rfl

@[simp] theorem release_nwait (c : Fields) (m : Mode) : c.release.nwait m = c.nwait m := by
  unfold Fields.release
  split_ifs <;> cases m <;> rfl

@[simp] theorem awake_nwait (p : Pc) (m : Mode) : p.awake.nwait m = p.nwait m := by
  unfold Pc.awake
  split
  · split_ifs <;> rfl
  · rfl

@[simp] theorem awake_locked (p : Pc) : p.awake.locked = p.locked := by
  unfold Pc.awake
  split
  · split_ifs <;> rfl
  · rfl

theorem awake_eq {p q : Pc} (h : p.awake = q) (hq : ∀ f woken, q ≠ .blocked f woken) : p = q := by
  unfold Pc.awake at h
  split at h
  · split_ifs at h <;> exact absurd h.symm (hq _ _)
  · exact h

omit [DecidableEq ι] in
/-- Whoever of the readers wakes. -/
theorem Inv.awake (h : Inv s) {pc : ι → Pc} (hpc : ∀ i, pc i = s.pc i ∨ pc i = (s.pc i).awake) :
    Inv { s with pc := pc } := by
  have hnwait (m : Mode) (i : ι) : (pc i).nwait m = (s.pc i).nwait m := by
    rcases hpc i with h | h <;> simp [h]
  have hback (i : ι) {q : Pc} (hi : pc i = q) (hq : ∀ f woken, q ≠ .blocked f woken) : s.pc i = q := by
    rcases hpc i with h | h
    · exact h.symm.trans hi
    · exact awake_eq (h.symm.trans hi) hq
  constructor
  · intro i
    rw [← h.mutex]
    rcases hpc i with h | h <;> simp [h]
  · exact fun m => (h.nwait m).trans (congrArg _ (tally_congr fun i => (hnwait m i).symm))
  · exact h.counts
  · exact fun i f hi => h.granted i f (hback i hi (by simp))
  · exact fun i hi => h.holds i (hi.imp (hback i · (by simp)) (hback i · (by simp)))

theorem Inv.go (h : Inv s) (hgo : s.go i (s.pc i) = some t) : Inv t := by
  cases hpc : s.pc i with
  | out r => simp [hpc,Sys.go] at hgo
  | enter f =>
    rw [hpc] at hgo
    exact h.acquire (p := .test f) hpc rfl (fun _ => rfl) (by simp) (by simp) hgo
  | test f =>
    rw [hpc] at hgo
    obtain rfl := Option.some.inj hgo
    split_ifs with hrefuse hnever
    · exact h.stays hpc rfl (fun _ => rfl) (by simp) (by simp)
    · exact h.stays hpc rfl (fun _ => rfl) (by simp) (by simp)
    · refine h.stays hpc rfl (fun _ => rfl) (fun g hg => ?_) (by simp)
      obtain ⟨rfl,-⟩ := Pc.grant.inj hg
      exact hrefuse
  | count f =>
    rw [hpc] at hgo
    obtain rfl := Option.some.inj hgo
    refine h.writes hpc rfl rfl (fun m => ?_) (by simpa using h.counts) (by simp) (by simp)
      (fun _ _ _ => rfl)
    by_cases hm : f.mode = m <;> simp [Pc.nwait,hm]
  | wait f =>
    rw [hpc] at hgo
    obtain rfl := Option.some.inj hgo
    exact h.yields hpc rfl rfl (fun _ => rfl) (by simp)
  | blocked f woken =>
    rw [hpc] at hgo
    cases woken with
    | none => simp [Sys.go] at hgo
    | some r => exact h.acquire (p := .uncount f r) hpc rfl (fun _ => rfl) (by simp) (by simp) hgo
  | uncount f r =>
    rw [hpc] at hgo
    obtain rfl := Option.some.inj hgo
    refine h.writes hpc rfl rfl (fun m => ?_) (by simpa using h.counts) (by simp) (by simp)
      (fun _ _ _ => rfl)
    by_cases hm : f.mode = m <;> simp [Pc.nwait,hm]
  | check f r =>
    rw [hpc] at hgo
    obtain rfl := Option.some.inj hgo
    split_ifs with hr
    · exact h.stays hpc rfl (fun _ => rfl) (by simp) (by simp)
    · exact h.stays hpc rfl (fun _ => rfl) (by simp [hr]) (by simp)
  | grant f r =>
    rw [hpc] at hgo
    by_cases hr : r = 0
    · subst hr
      rw [Sys.go,if_pos rfl] at hgo
      obtain rfl := Option.some.inj hgo
      exact h.writes hpc rfl rfl (fun m => by simp [Pc.nwait])
        (h.counts.grant (h.granted i f hpc)) (by simp) (by simp) (fun j hj m => hold_other _ _ hj)
    · rw [Sys.go,if_neg hr] at hgo
      obtain rfl := Option.some.inj hgo
      exact h.stays hpc rfl (fun _ => rfl) (by simp) (by simp)
  | leave f r =>
    rw [hpc] at hgo
    obtain rfl := Option.some.inj hgo
    exact h.yields hpc rfl rfl (fun _ => rfl) (by simp)
  | unlock =>
    rw [hpc] at hgo
    exact h.acquire (p := .release) hpc rfl (fun _ => rfl) (by simp) (fun _ => h.holds i (Or.inl hpc)) hgo
  | release =>
    rw [hpc] at hgo
    obtain rfl := Option.some.inj hgo
    exact h.writes hpc rfl rfl (fun m => by simp [Pc.nwait])
      (h.counts.release (h.holds i (Or.inr hpc))) (by simp) (by simp) (fun j hj m => giveUp_other _ hj)
  | wake =>
    rw [hpc] at hgo
    rw [Sys.go] at hgo
    split at hgo
    · obtain rfl := Option.some.inj hgo
      exact h.stays hpc rfl (fun _ => rfl) (by simp) (by simp)
    · obtain rfl := Option.some.inj hgo
      have hawake : (s.pc i).awake = .wake := by
        rw [hpc]
        rfl
      exact (h.awake fun _ => Or.inr rfl).stays hawake rfl (fun _ => rfl) (by simp) (by simp)
    · obtain ⟨-,ht⟩ := Option.ite_none_left_eq_some.mp hgo
      obtain rfl := Option.some.inj ht
      exact h.stays hpc rfl (fun _ => rfl) (by simp) (by simp)
  | unlocked r =>
    rw [hpc] at hgo
    obtain rfl := Option.some.inj hgo
    exact h.yields hpc rfl rfl (fun _ => rfl) (by simp)

/-- A thread that neither has nor takes rw_mutex moves and touches nothing else. -/
inductive Turn (s : Sys ι) (i : ι) : Pc → Prop
  | lock {r : ℤ} (f : Func) (hpc : s.pc i = .out r) : Turn s i (.enter f)
  | unlock {r : ℤ} (hpc : s.pc i = .out r) (hheld : 0 < s.held .rd i ∨ 0 < s.held .wr i) : Turn s i .unlock
  | failLock {f : Func} (r : ℤ) (hpc : s.pc i = .enter f) : Turn s i (.out r)
  | failUnlock (r : ℤ) (hpc : s.pc i = .unlock) : Turn s i (.out r)
  | expire {f : Func} (r : ℤ) (hpc : s.pc i = .blocked f none) : Turn s i (.blocked f (some r))

theorem step_cases {l : Label ι} (hs : step s l = some t) :
    (∃ i, l = .go i ∧ s.go i (s.pc i) = some t) ∨ (∃ i p, Turn s i p ∧ t = s.at i p) ∨
    ∃ i j f, s.pc i = .wake ∧ s.pc j = .blocked f none ∧ f.mode = .wr ∧ s.fields.wakes = some .wr ∧
      t = (s.at j (.blocked f (some 0))).at i (.unlocked 0) := by
  cases l with
  | go i => exact Or.inl ⟨i,rfl,hs⟩
  | lock i f =>
    rw [step] at hs
    split at hs
    · next r hpc => exact Or.inr (Or.inl ⟨i,_,.lock f hpc,(Option.some.inj hs).symm⟩)
    · simp at hs
  | unlock i =>
    rw [step] at hs
    split at hs
    · next r hpc =>
      obtain ⟨hheld,hs⟩ := Option.ite_none_right_eq_some.mp hs
      exact Or.inr (Or.inl ⟨i,_,.unlock hpc hheld,(Option.some.inj hs).symm⟩)
    · simp at hs
  | fail i r =>
    rw [step] at hs
    split at hs
    · next hpc =>
      obtain ⟨-,hs⟩ := Option.ite_none_left_eq_some.mp hs
      exact Or.inr (Or.inl ⟨i,_,.failLock r hpc,(Option.some.inj hs).symm⟩)
    · next hpc =>
      obtain ⟨-,hs⟩ := Option.ite_none_left_eq_some.mp hs
      exact Or.inr (Or.inl ⟨i,_,.failUnlock r hpc,(Option.some.inj hs).symm⟩)
    · simp at hs
  | signal i j =>
    rw [step] at hs
    split at hs
    · next f hi hj =>
      obtain ⟨⟨hwakes,hwr⟩,hs⟩ := Option.ite_none_right_eq_some.mp hs
      exact Or.inr (Or.inr ⟨i,j,f,hi,hj,hwr,hwakes,(Option.some.inj hs).symm⟩)
    · simp at hs
  | expire j r =>
    rw [step] at hs
    split at hs
    · next f hpc => exact Or.inr (Or.inl ⟨j,_,.expire r hpc,(Option.some.inj hs).symm⟩)
    · simp at hs

theorem Inv.turn (h : Inv s) (ht : Turn s i p) : Inv (s.at i p) := by
  cases ht with
  | lock f hpc => exact h.stays hpc rfl (fun _ => rfl) (by simp) (by simp)
  | unlock hpc hheld =>
    exact h.stays hpc rfl (fun _ => rfl) (by simp) (fun _ => hheld)
  | failLock r hpc => exact h.stays hpc rfl (fun _ => rfl) (by simp) (by simp)
  | failUnlock r hpc => exact h.stays hpc rfl (fun _ => rfl) (by simp) (by simp)
  | expire r hpc => exact h.stays hpc rfl (fun _ => rfl) (by simp) (by simp)

theorem Inv.step (h : Inv s) (l : Label ι) (hs : Rwlock.step s l = some t) : Inv t := by
  rcases step_cases hs with ⟨i,-,hgo⟩ | ⟨i,p,hturn,rfl⟩ | ⟨i,j,f,hi,hj,-,-,rfl⟩
  · exact h.go hgo
  · exact h.turn hturn
  · have hne : i ≠ j := by
      rintro rfl
      simp [hi] at hj
    have hi' : (s.at j (.blocked f (some 0))).pc i = .wake := (Function.update_of_ne hne ..).trans hi
    exact (h.turn (.expire 0 hj)).stays hi' rfl (fun _ => rfl) (by simp) (by simp)

theorem reachable_inv {ls : List (Label ι)} (h : Runs Rwlock.step initialised ls s) : Inv s :=
  h.invariant (fun _ l _ hi => hi.step l) Inv.initialised

/-- What the lock is for. A thread waits from its increment to its decrement, which is
its time in pthread_cond_wait or pthread_cond_timedwait whenever rw_mutex is free. -/
structure Sys.Safe (s : Sys ι) : Prop where
  excludes : ∀ i, 0 < s.held .wr i → s.held .wr i = 1 ∧ ∀ j m, 0 < s.held m j → j = i ∧ m = .wr
  writer : s.fields.rwRefcount = -1 ↔ ∑ i, s.held .wr i = 1
  readers : s.fields.rwRefcount ≠ -1 → s.fields.rwRefcount = ∑ i, s.held .rd i
  waiting : ∀ m, s.fields.nwait m = (Finset.univ.filter fun i => (s.pc i).Waiting m).card
  inWait : s.rwMutex = none → ∀ i m, (s.pc i).Waiting m ↔ ∃ f woken, s.pc i = .blocked f woken ∧ f.mode = m
  granted : ∀ l t i, step s l = some t → s.held .rd i < t.held .rd i → ∀ j, ¬ (t.pc j).Waiting .wr

end Counting

end FmacSdk.Rwlock
