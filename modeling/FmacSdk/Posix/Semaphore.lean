import FmacSdk.Foundation.Transition
import FmacSdk.Posix.TimespecDelta

/-! # Semaphores

A sem_t points to an os_semaphore, which counts, lets a waiting thread take a
token whenever there is one, and ends a wait early only when its time is over.
-/
namespace FmacSdk.Semaphore
open Transition TimespecDelta
variable {ι : Type*}

def NULL : ℕ := 0

/-- Outside, with whether the last wait succeeded, and blocked in os_sema_down. -/
inductive Pc
  | out (ok : Bool)
  | down (tmo : ℕ)
deriving DecidableEq

/-- With the posts, and the waits that returned success. -/
structure Sys (ι : Type*) where
  count : ℕ
  pc : ι → Pc
  posts : ℕ
  waits : ℕ

/-- The waiting functions; a timed one finds the current time. -/
inductive Func
  | wait
  | trywait
  | timedwait (abstime : Option Timespec) (cur : Timespec)

/-- A call, a token for a thread that is blocked, and the end of its time. -/
inductive Label (ι : Type*)
  | post (i : ι)
  | down (i : ι) (f : Func)
  | wake (i : ι)
  | expire (i : ι)

def osSemaInit (val : ℕ) : ℕ := val

/-- With the count of the new semaphore that *sem points to. -/
def semInit (sem : ℕ) (alloc : Bool) (_pshared : ℤ) (_value : ℕ) : ℤ × Option ℕ :=
  if sem = NULL then (-EINVAL,none)
  else if alloc then (RET_OK,some (osSemaInit 0))
  else (-ENOMEM,none)

def semGetvalue (s : Sys ι) : ℕ := s.count

section Code
variable [DecidableEq ι] (timespecDetalTicks : Timespec → Timespec → ℤ × ℕ)

def Sys.at (s : Sys ι) (i : ι) (p : Pc) : Sys ι := { s with pc := Function.update s.pc i p }

def Sys.take (s : Sys ι) (i : ι) : Sys ι := { s.at i (.out true) with count := s.count - 1, waits := s.waits + 1 }

/-- Takes a token, or waits for one up to the time. -/
def osSemaDown (s : Sys ι) (i : ι) (tmo : ℕ) : Sys ι :=
  if 0 < s.count then s.take i else s.at i (if tmo = 0 then .out false else .down tmo)

def semTimedwait (s : Sys ι) (i : ι) (abstime : Option Timespec) (cur : Timespec) : Sys ι :=
  osSemaDown s i (pthreadTimespecDelta timespecDetalTicks abstime cur)

def semTrywait (s : Sys ι) (i : ι) : Sys ι := osSemaDown s i 0

def semWait (s : Sys ι) (i : ι) : Sys ι := osSemaDown s i osWaitForever

def Func.call (s : Sys ι) (i : ι) : Func → Sys ι
  | .wait => semWait s i
  | .trywait => semTrywait s i
  | .timedwait abstime cur => semTimedwait timespecDetalTicks s i abstime cur

def semPost (s : Sys ι) : Sys ι := { s with count := s.count + 1, posts := s.posts + 1 }

def step (s : Sys ι) : Label ι → Option (Sys ι)
  | .post i => match s.pc i with
    | .out _ => some (semPost s)
    | .down _ => none
  | .down i f => match s.pc i with
    | .out _ => some (f.call timespecDetalTicks s i)
    | .down _ => none
  | .wake i => match s.pc i with
    | .out _ => none
    | .down _ => if 0 < s.count then some (s.take i) else none
  | .expire i => match s.pc i with
    | .out _ => none
    | .down tmo => if tmo = osWaitForever then none else some (s.at i (.out false))

/-- What a semaphore with an initial value is for: it has that value and the posts to give
away, and does so at once. -/
structure Counts (v : ℕ) (s : Sys ι) : Prop where
  bounded : s.waits ≤ v + s.posts
  value : (semGetvalue s : ℤ) = v + s.posts - s.waits
  prompt : ∀ i f r, s.waits < v + s.posts → s.pc i = .out r →
    ∃ t, step timespecDetalTicks s (.down i f) = some t ∧ t.pc i = .out true
  wakes : ∀ i tmo, s.waits < v + s.posts → s.pc i = .down tmo →
    ∃ t, step timespecDetalTicks s (.wake i) = some t ∧ t.pc i = .out true

end Code

/-- After sem_init, with the count it made. -/
def inited (count : ℕ) : Sys ι := ⟨count,fun _ => .out false,0,0⟩

section Steps
variable [DecidableEq ι] {timespecDetalTicks : Timespec → Timespec → ℤ × ℕ} {s t : Sys ι} {i : ι} {v : ℕ}

/-- The tokens that are there and those taken are the posts. -/
def Inv (s : Sys ι) : Prop := s.count + s.waits = s.posts

theorem Inv.take (h : Inv s) (hpos : 0 < s.count) : Inv (s.take i) := by
  have htokens : s.count + s.waits = s.posts := h
  show s.count - 1 + (s.waits + 1) = s.posts
  omega

theorem Inv.osSemaDown (h : Inv s) (tmo : ℕ) : Inv (osSemaDown s i tmo) := by
  unfold Semaphore.osSemaDown
  split_ifs with hpos
  · exact h.take hpos
  · exact h
  · exact h

theorem Inv.step (h : Inv s) {l : Label ι} (hs : Semaphore.step timespecDetalTicks s l = some t) : Inv t := by
  cases l with
  | post i =>
    rw [Semaphore.step] at hs
    split at hs
    · obtain rfl := Option.some.inj hs
      have htokens : s.count + s.waits = s.posts := h
      show s.count + 1 + s.waits = s.posts + 1
      omega
    · simp at hs
  | down i f =>
    rw [Semaphore.step] at hs
    split at hs
    · obtain rfl := Option.some.inj hs
      cases f with
      | wait | trywait | timedwait abstime cur => exact h.osSemaDown _
    · simp at hs
  | wake i =>
    rw [Semaphore.step] at hs
    split at hs
    · simp at hs
    · obtain ⟨hpos,hs⟩ := Option.ite_none_right_eq_some.mp hs
      obtain rfl := Option.some.inj hs
      exact h.take hpos
  | expire i =>
    rw [Semaphore.step] at hs
    split at hs
    · simp at hs
    · obtain ⟨-,hs⟩ := Option.ite_none_left_eq_some.mp hs
      obtain rfl := Option.some.inj hs
      exact h

theorem take_pc : (s.take i).pc i = .out true := Function.update_self ..

theorem osSemaDown_pos (hpos : 0 < s.count) (tmo : ℕ) : osSemaDown s i tmo = s.take i := if_pos hpos

theorem call_pos (hpos : 0 < s.count) (f : Func) : f.call timespecDetalTicks s i = s.take i := by
  cases f with
  | wait | trywait | timedwait abstime cur => exact osSemaDown_pos hpos _

theorem Inv.counts (h : Inv s) : Counts timespecDetalTicks 0 s := by
  have htokens : s.count + s.waits = s.posts := h
  refine ⟨by omega,?_,fun i f r hleft hpc => ?_,fun i tmo hleft hpc => ?_⟩
  · show (s.count : ℤ) = _
    omega
  · refine ⟨s.take i,?_,take_pc⟩
    rw [Semaphore.step,hpc]
    exact congrArg some (call_pos (by omega) f)
  · refine ⟨s.take i,?_,take_pc⟩
    rw [Semaphore.step,hpc]
    exact if_pos (by omega)

/-- sem_init makes every semaphore with the count 0. -/
theorem semInit_ok {sem c : ℕ} {alloc : Bool} {pshared : ℤ} (hinit : semInit sem alloc pshared v = (RET_OK,some c)) :
    c = 0 := by
  unfold semInit at hinit
  split_ifs at hinit
  · simp at hinit
  · simpa [osSemaInit] using hinit.symm
  · simp at hinit

/-- In every state after sem_init the semaphore counts right exactly where the initial
value is 0. -/
theorem counts_iff {sem c : ℕ} {alloc : Bool} {pshared : ℤ} {ls : List (Label ι)}
    (hinit : semInit sem alloc pshared v = (RET_OK,some c))
    (h : Runs (Semaphore.step timespecDetalTicks) (inited c) ls s) : Counts timespecDetalTicks v s ↔ v = 0 := by
  obtain rfl := semInit_ok hinit
  have hinv : Inv s := h.invariant (fun _ _ _ hi hs => hi.step hs) (rfl : Inv (inited 0))
  constructor
  · intro hcounts
    have hvalue : (s.count : ℤ) = v + s.posts - s.waits := hcounts.value
    have htokens : s.count + s.waits = s.posts := hinv
    omega
  · rintro rfl
    exact hinv.counts

end Steps

/-- One thread waits until another posts. -/
theorem counts_posted : ∃ s, Runs (step roundedUp) (inited 0 : Sys Bool) [.down true .wait,.post false,.wake true] s ∧
    s.pc true = .out true ∧ Counts roundedUp 0 s := by
  refine Runs.exists_of_exec (fun s => s.pc true) (v := .out true) rfl ?_
  intro s hrun hpc
  have hinit : semInit 8 true 0 0 = (RET_OK,some 0) := rfl
  exact ⟨hpc,(counts_iff hinit hrun).mpr rfl⟩

/-- A pool of one is empty from the start. -/
theorem counts_fails : semInit 8 true 0 1 = (RET_OK,some 0) ∧
    ∃ s, Runs (step roundedUp) (inited 0 : Sys Bool) [.down true .trywait] s ∧ s.pc true = .out false ∧
      ¬ Counts roundedUp 1 s := by
  refine ⟨rfl,Runs.exists_of_exec (fun s => (s.pc true,s.count,s.waits)) (v := (.out false,0,0)) rfl ?_⟩
  intro s _ hend
  obtain ⟨hpc,hend⟩ := Prod.mk.inj hend
  obtain ⟨hcount,hwaits⟩ := Prod.mk.inj hend
  refine ⟨hpc,fun h => ?_⟩
  have hvalue : (s.count : ℤ) = (1 : ℕ) + s.posts - s.waits := h.value
  omega

end FmacSdk.Semaphore
