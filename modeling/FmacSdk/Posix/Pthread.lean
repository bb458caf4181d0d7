import FmacSdk.Common.Errno
import FmacSdk.Foundation.Slots
import FmacSdk.Foundation.Transition
import Mathlib.Data.Fintype.Basic

/-! # Thread descriptors

The calls of pthread.c that make, use and free a struct pthread_task, by any number
of tasks, statement by statement. The descriptors are numbered from 1 in the order of
their allocation, and NULL is 0; a number is not used again.
-/
namespace FmacSdk.Pthread
open Slots Transition

def PTHREAD_MAX : ℕ := 32

/-- The fields of a descriptor that decide, and how often it was freed. A semaphore
is deleted when it has no count. -/
structure Thd where
  detachstate : Bool
  joinSema : Option ℕ
  frees : ℕ
deriving DecidableEq

/-- A task of the system, or the one behind a descriptor. -/
inductive OsTask (ι : Type*)
  | os (i : ι)
  | thread (d : ℕ)
deriving DecidableEq

/-- The statements of pthread_free. -/
inductive FreeStmt
  | del
  | semaDel
  | keyDestroy
  | freeTls
  | freeThd
deriving DecidableEq

/-- The next statement of a task. A task that runs has the result of its last call, and
the start routine of a thread is left to pthread_task_entry. -/
inductive Pc
  | absent
  | run (result : ℤ)
  | alloc (detached : Bool)
  | set (d : ℕ) (detached : Bool)
  | init (d : ℕ) (detached : Bool)
  | start (d : ℕ)
  | joinGet (d : ℕ)
  | check (d : ℕ)
  | down (d : ℕ)
  | wait (d : ℕ)
  | detachGet (d : ℕ)
  | detach (d : ℕ)
  | exitGet
  | exit (d : ℕ)
  | finish (d : ℕ)
  | up (d : ℕ)
  | free (d : ℕ) (x : FreeStmt) (entry : Bool)
  | ended
  | deleted
deriving DecidableEq

variable {ι : Type*}

/-- With the threads that were joined, and the accesses to descriptors already freed. -/
structure Sys (ι : Type*) where
  pthreads : Fin PTHREAD_MAX → ℕ
  thds : ℕ → Thd
  next : ℕ
  pc : OsTask ι → Pc
  joined : ℕ → Bool
  touched : List ℕ

/-- A call, the end of a start routine, a statement, and an allocation that fails. -/
inductive Label (ι : Type*)
  | create (k : OsTask ι) (detached : Bool)
  | join (k : OsTask ι) (d : ℕ)
  | detach (k : OsTask ι) (d : ℕ)
  | exit (k : OsTask ι)
  | ends (d : ℕ)
  | go (k : OsTask ι)
  | fail (k : OsTask ι)

/-- pthread_get -/
def pthreadGet (t : Fin PTHREAD_MAX → ℕ) (d : ℕ) : Option ℕ :=
  if d ≠ 0 ∧ ∃ j, t j = d then some d else none

/-- pthread_del -/
def pthreadDel (t : Fin PTHREAD_MAX → ℕ) (d : ℕ) : Fin PTHREAD_MAX → ℕ := eraseFirst 0 t d

/-- pthread_set -/
def pthreadSet (t : Fin PTHREAD_MAX → ℕ) (d : ℕ) : Option (Fin PTHREAD_MAX → ℕ) :=
  (firstSlot fun j => t j = 0).map fun j => Function.update t j d

section Code
variable [DecidableEq ι]

def Sys.at (s : Sys ι) (k : OsTask ι) (p : Pc) : Sys ι := { s with pc := Function.update s.pc k p }

def Sys.setThd (s : Sys ι) (d : ℕ) (t : Thd) : Sys ι := { s with thds := Function.update s.thds d t }

/-- The descriptor is read or written. -/
def Sys.touch (s : Sys ι) (d : ℕ) : Sys ι :=
  if 0 < (s.thds d).frees then { s with touched := d :: s.touched } else s

/-- The statement of pthread_free; the thread's own call is the last of its entry. -/
def Sys.free (s : Sys ι) (k : OsTask ι) (d : ℕ) (entry : Bool) : FreeStmt → Sys ι
  | .del => { s with pthreads := pthreadDel s.pthreads d }.at k (.free d .semaDel entry)
  | .semaDel => ((s.touch d).setThd d { s.thds d with joinSema := none }).at k (.free d .keyDestroy entry)
  | .keyDestroy => (s.touch d).at k (.free d .freeTls entry)
  | .freeTls => (s.touch d).at k (.free d .freeThd entry)
  | .freeThd =>
    let t := s.setThd d { s.thds d with frees := (s.thds d).frees + 1 }
    if entry then t.at k .ended else { t with joined := Function.update t.joined d true }.at k (.run 0)

/-- The statement of task `k`. A thread is the current task when it asks for itself. -/
def Sys.go (s : Sys ι) (k : OsTask ι) : Pc → Option (Sys ι)
  | .absent | .run _ | .ended | .deleted => none
  | .alloc b => some ({ s with next := s.next + 1 }.at k (.set (s.next + 1) b))
  | .set d b =>
    match pthreadSet s.pthreads d with
    | some t => some ({ s with pthreads := t }.at k (.init d b))
    | none => some ((s.setThd d { s.thds d with frees := (s.thds d).frees + 1 }).at k (.run (-ESRCH)))
  | .init d b => some (((s.touch d).setThd d { s.thds d with detachstate := b, joinSema := some 0 }).at k (.start d))
  | .start d => some (((s.touch d).at (.thread d) (.run 0)).at k (.run RET_OK))
  | .joinGet d =>
    match pthreadGet s.pthreads d with
    | some d => some (s.at k (if k = .thread d then .run (-EDEADLK) else .check d))
    | none => some (s.at k (.run 0))
  | .check d => some ((s.touch d).at k (if (s.thds d).detachstate then .run (-EINVAL) else .down d))
  | .down d => some ((s.touch d).at k (.wait d))
  | .wait d =>
    match (s.thds d).joinSema with
    | none => some (s.at k (.free d .del false))
    | some 0 => none
    | some (n + 1) => some ((s.setThd d { s.thds d with joinSema := some n }).at k (.free d .del false))
  | .detachGet d =>
    match pthreadGet s.pthreads d with
    | some d => some (s.at k (.detach d))
    | none => some (s.at k (.run 0))
  | .detach d => some (((s.touch d).setThd d { s.thds d with detachstate := true }).at k (.run 0))
  | .exitGet =>
    match k with
    | .os _ => some (s.at k (.run 0))
    | .thread d =>
      match pthreadGet s.pthreads d with
      | some d => some (s.at k (.exit d))
      | none => some (s.at k (.run 0))
  | .exit d => some ((s.touch d).at k .deleted)
  | .finish d => some ((s.touch d).at k (if (s.thds d).detachstate then .free d .del true else .up d))
  | .up d => some (((s.touch d).setThd d { s.thds d with joinSema := (s.thds d).joinSema.map (· + 1) }).at k .ended)
  | .free d x entry => some (s.free k d entry x)

def step (s : Sys ι) : Label ι → Option (Sys ι)
  | .create k b => match s.pc k with
    | .run _ => some (s.at k (.alloc b))
    | _ => none
  | .join k d => match s.pc k with
    | .run _ => some (s.at k (.joinGet d))
    | _ => none
  | .detach k d => match s.pc k with
    | .run _ => some (s.at k (.detachGet d))
    | _ => none
  | .exit k => match s.pc k with
    | .run _ => some (s.at k .exitGet)
    | _ => none
  | .ends d => match s.pc (.thread d) with
    | .run _ => some (s.at (.thread d) (.finish d))
    | _ => none
  | .go k => s.go k (s.pc k)
  | .fail k => match s.pc k with
    | .alloc _ => some (s.at k (.run (-ENOMEM)))
    | _ => none

end Code

/-- No thread yet. -/
def booted : Sys ι where
  pthreads _ := 0
  thds _ := ⟨false,some 0,0⟩
  next := 0
  pc
    | .os _ => .run 0
    | .thread _ => .absent
  joined _ := false
  touched := []

def Sys.Listed (s : Sys ι) (d : ℕ) : Prop := d ≠ 0 ∧ ∃ j, s.pthreads j = d

instance (s : Sys ι) (d : ℕ) : Decidable (s.Listed d) := inferInstanceAs (Decidable (_ ∧ _))

/-- The thread has returned, or called pthread_exit. -/
def Sys.Finished (s : Sys ι) (d : ℕ) : Prop := s.pc (.thread d) = .ended ∨ s.pc (.thread d) = .deleted

/-- No descriptor is freed twice or touched when it is freed, nobody waits for a thread
that has finished, and a thread that is done with and was joined or detached has no slot. -/
structure Sys.Sound (s : Sys ι) : Prop where
  once : ∀ d, (s.thds d).frees ≤ 1
  untouched : s.touched = []
  joins : ∀ k d, s.pc k = .wait d → s.Finished d → ∃ n, (s.thds d).joinSema = some (n + 1)
  slots : ∀ d, s.Finished d → (s.joined d = true ∨ (s.thds d).detachstate = true) → ¬ s.Listed d

/-- The task is in a call that has looked up `d`: to detach it, or to join it. -/
def Pc.detaches (d : ℕ) : Pc → Bool
  | .detach e => e = d
  | _ => false

def Pc.joins (d : ℕ) : Pc → Bool
  | .check e | .down e | .wait e | .free e _ false => e = d
  | _ => false

def Sys.Any (s : Sys ι) (p : Pc → Bool) : Prop :=
  (∃ i, p (s.pc (.os i)) = true) ∨ ∃ d < s.next + 1, p (s.pc (.thread d)) = true

instance [Fintype ι] (s : Sys ι) (p : Pc → Bool) : Decidable (s.Any p) := inferInstanceAs (Decidable (_ ∨ _))

/-- The task has begun, and not left its start routine. -/
def Pc.inside : Pc → Bool
  | .absent | .finish _ | .up _ | .free _ _ true | .ended | .deleted => false
  | _ => true

/-- What a join may find: a thread that stays detached for a while, or one that nobody
else joins or detaches. -/
def Sys.MayJoin (s : Sys ι) (d : ℕ) : Prop :=
  ((s.thds d).detachstate = true ∧ (s.pc (.thread d)).inside = true) ∨
    ((s.thds d).detachstate = false ∧ ¬ s.Any (Pc.joins d) ∧ ¬ s.Any (Pc.detaches d) ∧
      s.pc (.thread d) ≠ .absent ∧ s.pc (.thread d) ≠ .deleted)

instance [Fintype ι] (s : Sys ι) (d : ℕ) : Decidable (s.MayJoin d) := inferInstanceAs (Decidable (_ ∨ _))

/-- A join finds a thread that it may, a detachment one that is not being joined and has
not ended, and a thread that is neither joined nor detached calls pthread_exit. -/
def Sys.May (s : Sys ι) (k : OsTask ι) : Pc → Prop
  | .joinGet d => s.Listed d → k ≠ .thread d → s.MayJoin d
  | .detachGet d =>
    s.Listed d → (s.pc (.thread d)).inside = true ∧ ((s.thds d).detachstate = false → ¬ s.Any (Pc.joins d))
  | .exit d => (s.thds d).detachstate = false ∧ ¬ s.Any (Pc.joins d) ∧ ¬ s.Any (Pc.detaches d)
  | _ => True

instance [DecidableEq ι] [Fintype ι] (s : Sys ι) (k : OsTask ι) (p : Pc) : Decidable (s.May k p) :=
  match p with
  | .joinGet _ | .detachGet _ => inferInstanceAs (Decidable (_ → _))
  | .exit _ => inferInstanceAs (Decidable (_ ∧ _))
  | .absent | .run _ | .alloc _ | .set .. | .init .. | .start _ | .check _ | .down _ | .wait _ | .detach _ |
    .exitGet | .finish _ | .up _ | .free .. | .ended | .deleted => isTrue trivial

/-- No start routine ends while a call is about to use what it found of the thread. -/
def Ordered (s : Sys ι) : Label ι → Prop
  | .go k => s.May k (s.pc k)
  | .ends d => ¬ s.Any (Pc.detaches d) ∧ ((s.thds d).detachstate = true → ¬ s.Any (Pc.joins d))
  | .create .. | .join .. | .detach .. | .exit _ | .fail _ => True

instance [DecidableEq ι] [Fintype ι] (s : Sys ι) (l : Label ι) : Decidable (Ordered s l) :=
  match l with
  | .go k => inferInstanceAs (Decidable (s.May k _))
  | .ends _ => inferInstanceAs (Decidable (_ ∧ _))
  | .create .. | .join .. | .detach .. | .exit _ | .fail _ => isTrue trivial

end FmacSdk.Pthread
