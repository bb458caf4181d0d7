import FmacSdk.Posix.PthreadMutex
import FmacSdk.Posix.Rwlock

/-! # Reader-writer locks on their first use

Calls on a pthread_rwlock_t set to PTHREAD_RWLOCK_INITIALIZER. The statements of the
lock itself are those of Rwlock; here are the ones before them, which initialise the
lock, its mutex and its condition variables or load their pointers.
-/
namespace FmacSdk.RwlockInit
open PthreadMutex (InitStmt Ptrs)
open Rwlock (Counts Fields Func Mode Pc)
open Transition

/-- The pointers in struct pthread_rwlock. -/
inductive Handle
  | mutex
  | cond (m : Mode)
deriving DecidableEq

inductive Counter
  | nwait (m : Mode)
  | refcount
deriving DecidableEq

inductive Part
  | handle (h : Handle)
  | counter (c : Counter)
deriving DecidableEq

def clear (c : Fields) : Counter → Fields
  | .nwait .rd => { c with rwNwaitreaders := 0 }
  | .nwait .wr => { c with rwNwaitwriters := 0 }
  | .refcount => { c with rwRefcount := 0 }

/-- A statement that initialises, or loads what the next statement of the lock uses. -/
inductive Instr
  | testAttr
  | setAttr
  | init (h : Handle) (x : InitStmt)
  | clear (c : Counter)
  | test (h : Handle)
  | load (h : Handle)
  | wakes
deriving DecidableEq

/-- pthread_mutex_init and pthread_cond_init -/
def pthreadInit (h : Handle) : List Instr := [.init h .memset,.init h .alloc,.init h .store]

def pthreadRwlockInit : List Instr :=
  .setAttr :: pthreadInit .mutex ++ pthreadInit (.cond .rd) ++ pthreadInit (.cond .wr) ++
    [.clear (.nwait .wr),.clear (.nwait .rd),.clear .refcount]

/-- What comes before a statement of the lock. -/
def prologue : Pc → List Instr
  | .enter _ | .unlock => [.testAttr,.test .mutex,.load .mutex]
  | .wait f => [.test (.cond f.mode),.load (.cond f.mode),.load .mutex]
  | .leave .. | .unlocked _ => [.test .mutex,.load .mutex]
  | .wake => [.wakes]
  | .out _ | .test _ | .count _ | .blocked .. | .uncount .. | .check .. | .grant .. | .release => []

/-- The objects are numbered from 1. The log has what was initialised. -/
structure Setup where
  attr : ℤ
  ptr : Handle → ℕ
  objects : ℕ
  done : List Part

/-- PTHREAD_PROCESS_PRIVATE -/
def PRIVATE : ℤ := 0

/-- An initialising statement, with the local pointer of its call. -/
def Instr.setup (p : Setup × ℕ) : Instr → Setup × ℕ
  | .setAttr => ({ p.1 with attr := PRIVATE },p.2)
  | .init h x =>
    let q := x.run ⟨p.1.ptr h,p.2,p.1.objects⟩
    ({ p.1 with
      ptr := Function.update p.1.ptr h q.shared
      objects := q.objects
      done := if x = .store then p.1.done ++ [.handle h] else p.1.done },q.m)
  | .clear c => ({ p.1 with done := p.1.done ++ [.counter c] },p.2)
  | .testAttr | .test _ | .load _ | .wakes => p

def Instr.clears (c : Fields) : Instr → Fields
  | .clear k => RwlockInit.clear c k
  | .testAttr | .setAttr | .init .. | .test _ | .load _ | .wakes => c

variable {ι : Type*}

/-- Each thread has statements to take before its next one of the lock, and local
variables: the pointer in an initialisation, the pointers it loaded, and whom it wakes. -/
structure Sys (ι : Type*) where
  setup : Setup
  owner : ℕ → Option ι
  core : Rwlock.Sys ι
  todo : ι → List Instr
  m : ι → ℕ
  arg : Handle → ι → ℕ
  waking : ι → Option Mode
  inits : ℕ

section Code
variable [DecidableEq ι]

def Sys.put (s : Sys ι) (i : ι) (rest : List Instr) : Sys ι := { s with todo := Function.update s.todo i rest }

def Sys.instr (s : Sys ι) (i : ι) (rest : List Instr) : Instr → Sys ι
  | .testAttr =>
    if s.setup.attr = -1 then { s.put i (pthreadRwlockInit ++ rest) with inits := s.inits + 1 } else s.put i rest
  | .test h => s.put i (if s.setup.ptr h = 0 then pthreadInit h ++ rest else rest)
  | .load h =>
    { s.put i rest with arg := Function.update s.arg h (Function.update (s.arg h) i (s.setup.ptr h)) }
  | .wakes =>
    let m := s.core.fields.wakes
    { s.put i (m.elim rest fun m => .test (.cond m) :: .load (.cond m) :: rest) with
      waking := Function.update s.waking i m }
  | x =>
    { s.put i rest with
      setup := (x.setup (s.setup,s.m i)).1
      m := Function.update s.m i (x.setup (s.setup,s.m i)).2
      core := { s.core with fields := x.clears s.core.fields } }

/-- The thread is at a statement of the lock. -/
def Sys.goto (s : Sys ι) (i : ι) (p : Pc) : Sys ι := { s.put i (prologue p) with core := s.core.at i p }

/-- os_mutex_lock -/
def Sys.acquire (s : Sys ι) (i : ι) (p : Pc) : Option (Sys ι) :=
  if s.arg .mutex i ≠ 0 ∧ s.owner (s.arg .mutex i) = none then
    some { s.goto i p with owner := Function.update s.owner (s.arg .mutex i) (some i) }
  else none

/-- os_mutex_unlock, which only the owner can do -/
def Sys.yield (s : Sys ι) (i : ι) (p : Pc) : Sys ι :=
  { s.goto i p with
    owner := if s.owner (s.arg .mutex i) = some i then Function.update s.owner (s.arg .mutex i) none else s.owner }

/-- The thread sleeps on the object that thread `i` has loaded. -/
def Sys.Hears (s : Sys ι) (i : ι) (m : Mode) (j : ι) : Prop :=
  (s.core.pc j).Asleep m ∧ s.arg (.cond m) j = s.arg (.cond m) i

instance (s : Sys ι) (i : ι) (m : Mode) (j : ι) : Decidable (s.Hears i m j) := inferInstanceAs (Decidable (_ ∧ _))

variable [Fintype ι]

/-- The statement of the lock. -/
def Sys.stmt (s : Sys ι) (i : ι) : Pc → Option (Sys ι)
  | .enter f => s.acquire i (.test f)
  | .unlock => s.acquire i .release
  | .blocked f (some r) => s.acquire i (.uncount f r)
  | .wait f => some (s.yield i (.blocked f none))
  | .leave _ r | .unlocked r => some (s.yield i (.out r))
  | .wake =>
    match s.waking i with
    | none => some (s.goto i (.unlocked 0))
    | some .rd =>
      let pc := fun j => if s.Hears i .rd j then (s.core.pc j).awake else s.core.pc j
      some (Sys.goto { s with core := { s.core with pc := pc } } i (.unlocked 0))
    | some .wr => if ∃ j, s.Hears i .wr j then none else some (s.goto i (.unlocked 0))
  | p => (s.core.go i p).map fun c => { s.put i (prologue (c.pc i)) with core := c }

open Rwlock (Label)

/-- Only a holder unlocks. -/
def step (s : Sys ι) : Label ι → Option (Sys ι)
  | .lock i f => match s.core.pc i with
    | .out _ => some (s.goto i (.enter f))
    | _ => none
  | .unlock i => match s.core.pc i with
    | .out _ => if 0 < s.core.held .rd i ∨ 0 < s.core.held .wr i then some (s.goto i .unlock) else none
    | _ => none
  | .go i => match s.todo i with
    | x :: rest => some (s.instr i rest x)
    | [] => s.stmt i (s.core.pc i)
  | .fail i r => match s.core.pc i, s.todo i with
    | .enter _, [] | .unlock, [] => if r = 0 then none else some (s.goto i (.out r))
    | _, _ => none
  | .signal i j => match s.core.pc i, s.todo i, s.core.pc j with
    | .wake, [], .blocked f none =>
      if s.waking i = some .wr ∧ s.Hears i .wr j then some ((s.goto j (.blocked f (some 0))).goto i (.unlocked 0))
      else none
    | _, _, _ => none
  | .expire j r => match s.core.pc j with
    | .blocked f none => some (s.goto j (.blocked f (some r)))
    | _ => none

end Code

/-- Before pthread_rwlock_init. -/
def start : Setup := ⟨-1,fun _ => 0,0,[]⟩

/-- PTHREAD_RWLOCK_INITIALIZER -/
def initializer : Sys ι := ⟨start,fun _ => none,Rwlock.initialised,fun _ => [],fun _ => 0,fun _ _ => 0,fun _ => none,0⟩

/-- The statement belongs to pthread_rwlock_init, or to one of the calls in it. -/
def Instr.inits : Instr → Bool
  | .setAttr | .init .. | .clear _ => true
  | .testAttr | .test _ | .load _ | .wakes => false

/-- The call is past the test of attr, and its call of pthread_rwlock_init. -/
def Sys.Past (s : Sys ι) (i : ι) : Prop :=
  (∀ r, s.core.pc i ≠ .out r) ∧ ∀ x ∈ s.todo i, x ≠ .testAttr ∧ x.inits = false

/-- The lock is initialised once, completely before it is used, and a writer is alone. -/
structure Sys.Once (s : Sys ι) : Prop where
  inits : s.inits ≤ 1
  parts : s.setup.done.Nodup
  ready : ∀ i, s.Past i → s.inits = 1 ∧ ∀ o, o ∈ s.setup.done
  excludes : ∀ i, 0 < s.core.held .wr i → s.core.held .wr i = 1 ∧ ∀ j m, 0 < s.core.held m j → j = i ∧ m = .wr

/-- A call tests attr while another has to go on with pthread_rwlock_init. -/
def Races (s : Sys ι) : Rwlock.Label ι → Prop
  | .go i => (s.todo i).head? = some .testAttr ∧ ∃ j, ∃ x ∈ s.todo j, x.inits = true
  | .lock .. | .unlock _ | .fail .. | .signal .. | .expire .. => False

instance [Fintype ι] (s : Sys ι) (l : Rwlock.Label ι) : Decidable (Races s l) :=
  match l with
  | .go _ => inferInstanceAs (Decidable (_ ∧ _))
  | .lock .. | .unlock _ | .fail .. | .signal .. | .expire .. => isFalse id

/-- What a prefix of pthread_rwlock_init leaves. -/
def made (xs : List Instr) : Setup × ℕ := xs.foldl Instr.setup (start,0)

theorem made_concat (xs : List Instr) (x : Instr) : made (xs ++ [x]) = x.setup (made xs) := List.foldl_concat ..

theorem made_nodup : ∀ xs ∈ pthreadRwlockInit.inits, (made xs).1.done.Nodup := by decide

/-- The last counter is cleared at the end only, and attr is set at the start. -/
theorem made_partial : ∀ xs ∈ pthreadRwlockInit.inits, xs ≠ pthreadRwlockInit →
    .counter .refcount ∉ (made xs).1.done ∧ ((made xs).1.attr = -1 → xs = []) := by decide

theorem made_done (o : Part) : o ∈ (made pthreadRwlockInit).1.done := by
  rcases o with (_ | m) | (m | _)
  · decide
  · cases m <;> decide
  · cases m <;> decide
  · decide

theorem made_ptr (h : Handle) : (made pthreadRwlockInit).1.ptr h ≠ 0 := by
  rcases h with _ | m
  · decide
  · cases m <;> decide

theorem init_inits : ∀ x ∈ pthreadRwlockInit, x.inits = true := by decide

/-- The statements between the test of attr and os_mutex_lock. -/
def locks : List Instr := [.test .mutex,.load .mutex]

/-- Outside, or before the test of attr. -/
def Sys.Outside (s : Sys ι) (i : ι) : Prop :=
  (∃ r, s.core.pc i = .out r ∧ s.todo i = []) ∨ ∃ f, s.core.pc i = .enter f ∧ s.todo i = .testAttr :: locks

def usesMutex : Pc → Bool
  | .enter _ | .unlock | .wait _ | .blocked .. | .leave .. | .unlocked _ => true
  | .out _ | .test _ | .count _ | .uncount .. | .check .. | .grant .. | .release | .wake => false

/-- The thread initialises nothing, and uses the first mutex. -/
structure Sys.Settled (s : Sys ι) (i : ι) : Prop where
  quiet : ∀ x ∈ s.todo i, x.inits = false
  loaded : usesMutex (s.core.pc i) = true → .load .mutex ∈ s.todo i ∨ s.arg .mutex i = 1
  blocked : ∀ f woken, s.core.pc i = .blocked f woken → s.arg .mutex i = 1

/-- The lock behind the first mutex. -/
def Sys.abs (s : Sys ι) : Rwlock.Sys ι := { s.core with rwMutex := s.owner 1 }

structure Sys.Idle (s : Sys ι) : Prop where
  fields : s.core.fields = ⟨0,0,0⟩
  held : ∀ m i, s.core.held m i = 0
  owner : ∀ m, s.owner m = none

section Invariant
variable [Fintype ι] {s t : Sys ι} {i j : ι}

/-- The lock is initialised. -/
structure After (s : Sys ι) : Prop where
  setup : s.setup = (made pthreadRwlockInit).1
  inits : s.inits = 1
  core : Rwlock.Inv s.abs
  threads : ∀ i, s.Settled i

/-- Before pthread_rwlock_init, in it, and after it. -/
inductive Inv (s : Sys ι) : Prop
  | before (hsetup : s.setup = start) (hm : ∀ i, s.m i = 0) (hinits : s.inits = 0) (hidle : s.Idle)
      (hout : ∀ i, s.Outside i)
  | during (i : ι) (f : Func) (xs : List Instr) (x : Instr) (ys : List Instr)
      (hbody : xs ++ x :: ys = pthreadRwlockInit) (hmade : made xs = (s.setup,s.m i)) (hinits : s.inits = 1)
      (hidle : s.Idle) (hpc : s.core.pc i = .enter f) (htodo : s.todo i = x :: ys ++ locks)
      (hothers : ∀ j, j ≠ i → s.Outside j)
  | after (h : After s)

theorem Inv.initializer : Inv (initializer : Sys ι) :=
  .before rfl (fun _ => rfl) rfl ⟨rfl,fun _ _ => rfl,fun _ => rfl⟩ fun _ => Or.inl ⟨0,rfl,rfl⟩

omit [Fintype ι] in
theorem Sys.Outside.not_past (h : s.Outside i) : ¬ s.Past i := by
  rintro ⟨hpc,htodo⟩
  rcases h with ⟨r,hr,-⟩ | ⟨f,-,hf⟩
  · exact hpc r hr
  · exact (htodo .testAttr (by simp [hf])).1 rfl

omit [Fintype ι] in
theorem Sys.Outside.quiet (h : s.Outside i) : ∀ x ∈ s.todo i, x.inits = false := by
  rcases h with ⟨r,-,hr⟩ | ⟨f,-,hf⟩
  · simp [hr]
  · rw [hf]
    decide

/-- Nobody has been at the mutex yet. -/
theorem Sys.Idle.abs_inv (h : s.Idle) (hpc : ∀ i, (∃ r, s.core.pc i = .out r) ∨ ∃ f, s.core.pc i = .enter f) :
    Rwlock.Inv s.abs := by
  have hfields : s.abs.fields = ⟨0,0,0⟩ := h.fields
  constructor
  · intro i
    have hfree : s.abs.rwMutex = none := h.owner 1
    have hlocked : (s.abs.pc i).locked = false := by
      rcases hpc i with ⟨r,hr⟩ | ⟨f,hf⟩
      · exact congrArg Pc.locked hr
      · exact congrArg Pc.locked hf
    simp [hfree,hlocked]
  · intro m
    have hnone : ∀ i, (s.abs.pc i).nwait m = 0 := by
      intro i
      rcases hpc i with ⟨r,hr⟩ | ⟨f,hf⟩
      · exact congrArg (Pc.nwait m) hr
      · exact congrArg (Pc.nwait m) hf
    rw [hfields]
    cases m <;> simp [Fields.nwait,Tally.tally,hnone]
  · right
    have hheld : ∀ m i, s.abs.held m i = 0 := h.held
    rw [hfields]
    simp [hheld]
  · intro i f hgrant
    have hgrant : s.core.pc i = .grant f 0 := hgrant
    rcases hpc i with ⟨r,hr⟩ | ⟨g,hg⟩
    · simp [hr] at hgrant
    · simp [hg] at hgrant
  · intro i hunlock
    have hunlock : s.core.pc i = .unlock ∨ s.core.pc i = .release := hunlock
    rcases hpc i with ⟨r,hr⟩ | ⟨g,hg⟩
    · simp [hr] at hunlock
    · simp [hg] at hunlock

theorem Inv.once (h : Inv s) : s.Once := by
  have hidle (hidle : s.Idle) {i : ι} (hi : 0 < s.core.held .wr i) : False := by
    rw [hidle.held] at hi
    exact lt_irrefl _ hi
  cases h with
  | before hsetup _ hinits hidle' hout =>
    refine ⟨by omega,by simp [hsetup,start],fun i hi => ((hout i).not_past hi).elim,fun i hi => ?_⟩
    exact (hidle hidle' hi).elim
  | during k f xs x ys hbody hmade hinits hidle' _ htodo hothers =>
    refine ⟨by omega,?_,fun i hi => ?_,fun i hi => (hidle hidle' hi).elim⟩
    · have hnodup := made_nodup xs ((List.mem_inits ..).mpr ⟨x :: ys,hbody⟩)
      rwa [hmade] at hnodup
    · by_cases hik : i = k
      · have hx : x.inits = true := init_inits x (by simp [← hbody])
        have hquiet := (hi.2 x (by simp [hik,htodo])).2
        simp [hx] at hquiet
      · exact ((hothers i hik).not_past hi).elim
  | after h =>
    refine ⟨by rw [h.inits],?_,fun i _ => ⟨h.inits,fun o => ?_⟩,fun i hi => h.core.excludes hi⟩
    · rw [h.setup]
      exact made_nodup _ ((List.mem_inits ..).mpr (List.prefix_refl _))
    · rw [h.setup]
      exact made_done o

end Invariant

theorem prologue_quiet (p : Pc) : ∀ x ∈ prologue p, x.inits = false := by
  cases p <;> simp [prologue,Instr.inits]

theorem load_mem_prologue {p : Pc} (h : usesMutex p = true) :
    .load .mutex ∈ prologue p ∨ ∃ f woken, p = .blocked f woken := by
  cases p <;> simp_all [prologue,usesMutex]

theorem usesMutex_awake (p : Pc) : usesMutex p.awake = usesMutex p := by
  unfold Pc.awake
  split
  · split_ifs <;> rfl
  · rfl

theorem blocked_of_awake {p : Pc} {f : Func} {woken : Option ℤ} (h : p.awake = .blocked f woken) :
    ∃ g o, p = .blocked g o := by
  unfold Pc.awake at h
  split at h
  · exact ⟨_,_,rfl⟩
  · exact ⟨f,woken,h⟩

section Steps
variable [DecidableEq ι] [Fintype ι] {s t : Sys ι} {i j : ι} {p : Pc} {x : Instr} {rest : List Instr}

/-- A thread goes to a statement of the lock, and may wake readers. -/
structure Moves (s t : Sys ι) (i : ι) : Prop where
  setup : t.setup = s.setup
  inits : t.inits = s.inits
  arg : t.arg = s.arg
  todo : t.todo = Function.update s.todo i (prologue (t.core.pc i))
  others : ∀ j, j ≠ i → t.core.pc j = s.core.pc j ∨ t.core.pc j = (s.core.pc j).awake

theorem After.move (h : After s) (m : Moves s t i) (hcore : Rwlock.Inv t.abs)
    (hblocked : ∀ f woken, t.core.pc i = .blocked f woken → s.arg .mutex i = 1) : After t := by
  refine ⟨m.setup.trans h.setup,m.inits.trans h.inits,hcore,fun j => ?_⟩
  by_cases hj : j = i
  · subst hj
    have htodo : t.todo j = prologue (t.core.pc j) := by rw [m.todo,Function.update_self]
    refine ⟨fun x hx => ?_,fun huses => ?_,fun f woken hpc => ?_⟩
    · rw [htodo] at hx
      exact prologue_quiet _ x hx
    · rcases load_mem_prologue huses with hload | ⟨f,woken,hpc⟩
      · left
        rwa [htodo]
      · right
        rw [m.arg]
        exact hblocked f woken hpc
    · rw [m.arg]
      exact hblocked f woken hpc
  · have htodo : t.todo j = s.todo j := by rw [m.todo,Function.update_of_ne hj]
    have hthread := h.threads j
    refine ⟨fun x hx => hthread.quiet x (htodo ▸ hx),fun huses => ?_,fun f woken hpc => ?_⟩
    · rw [htodo,m.arg]
      refine hthread.loaded ?_
      rcases m.others j hj with heq | heq
      · rwa [← heq]
      · rwa [← usesMutex_awake,← heq]
    · rw [m.arg]
      rcases m.others j hj with heq | heq
      · exact hthread.blocked f woken (heq.symm.trans hpc)
      · obtain ⟨g,o,hg⟩ := blocked_of_awake (heq.symm.trans hpc)
        exact hthread.blocked g o hg

theorem After.goto (h : After s) {o : ℕ → Option ι} (hcore : Rwlock.Inv { s.abs.at i p with rwMutex := o 1 })
    (hblocked : ∀ f woken, p = .blocked f woken → s.arg .mutex i = 1) : After { s.goto i p with owner := o } := by
  have hself : (s.core.at i p).pc i = p := Rwlock.at_pc_self p
  refine h.move (i := i) ⟨rfl,rfl,rfl,?_,fun j hj => Or.inl (Function.update_of_ne hj ..)⟩ hcore
    fun f woken hpc => hblocked f woken (hself.symm.trans hpc)
  exact congrArg (Function.update s.todo i) (congrArg prologue hself.symm)

theorem After.put (h : After s) (htodo : s.todo i = x :: rest) (ys : List Instr)
    (hquiet : ∀ y ∈ ys, y ∈ rest ∨ y.inits = false) (hkeeps : .load .mutex ∈ x :: rest → .load .mutex ∈ ys) :
    After (s.put i ys) := by
  refine ⟨h.setup,h.inits,h.core,fun j => ?_⟩
  have hthread := h.threads j
  by_cases hj : j = i
  · subst hj
    have hself : (s.put j ys).todo j = ys := Function.update_self ..
    refine ⟨fun y hy => ?_,fun huses => ?_,hthread.blocked⟩
    · rw [hself] at hy
      rcases hquiet y hy with hmem | hy
      · exact hthread.quiet y (by rw [htodo]; exact List.mem_cons_of_mem _ hmem)
      · exact hy
    · rw [hself]
      exact (hthread.loaded huses).imp_left fun hmem => hkeeps (htodo ▸ hmem)
  · have hother : (s.put i ys).todo j = s.todo j := Function.update_of_ne hj ..
    refine ⟨fun y hy => hthread.quiet y (hother ▸ hy),fun huses => ?_,hthread.blocked⟩
    rw [hother]
    exact hthread.loaded huses

theorem After.load (h : After s) (k : Handle) (htodo : s.todo i = .load k :: rest) :
    After { s.put i rest with
      arg := Function.update s.arg k (Function.update (s.arg k) i (s.setup.ptr k)) } := by
  have hptr : s.setup.ptr .mutex = 1 := by
    rw [h.setup]
    rfl
  let t : Sys ι := { s.put i rest with
    arg := Function.update s.arg k (Function.update (s.arg k) i (s.setup.ptr k)) }
  have hone (j : ι) (hj : s.arg .mutex j = 1) : t.arg .mutex j = 1 := by
    by_cases hk : .mutex = k
    · subst hk
      have harg : t.arg .mutex = Function.update (s.arg .mutex) i (s.setup.ptr .mutex) :=
        Function.update_self Handle.mutex _ s.arg
      rw [harg,hptr]
      by_cases hji : j = i
      · rw [hji,Function.update_self]
      · rw [Function.update_of_ne hji,hj]
    · exact (congrFun (Function.update_of_ne hk ..) j).trans hj
  suffices ht : After t from ht
  refine ⟨h.setup,h.inits,h.core,fun j => ?_⟩
  have hthread := h.threads j
  by_cases hji : j = i
  · subst hji
    have hself : t.todo j = rest := Function.update_self ..
    refine ⟨fun y hy => hthread.quiet y ?_,fun huses => ?_,fun f woken hpc => hone j (hthread.blocked f woken hpc)⟩
    · rw [htodo]
      exact List.mem_cons_of_mem _ (hself ▸ hy)
    · rw [hself]
      rcases hthread.loaded huses with hmem | harg
      · rw [htodo] at hmem
        rcases List.mem_cons.mp hmem with heq | hmem
        · obtain rfl := Instr.load.inj heq
          right
          have harg : t.arg .mutex = Function.update (s.arg .mutex) j (s.setup.ptr .mutex) :=
            Function.update_self Handle.mutex _ s.arg
          rw [harg,Function.update_self,hptr]
        · exact Or.inl hmem
      · exact Or.inr (hone j harg)
  · have hother : t.todo j = s.todo j := Function.update_of_ne hji ..
    refine ⟨fun y hy => hthread.quiet y (hother ▸ hy),fun huses => ?_,fun f woken hpc => hone j (hthread.blocked f woken hpc)⟩
    rw [hother]
    exact (hthread.loaded huses).imp_right (hone j)

theorem After.instr (h : After s) (htodo : s.todo i = x :: rest) : After (s.instr i rest x) := by
  have hx : x.inits = false := (h.threads i).quiet x (by simp [htodo])
  cases x with
  | testAttr =>
    have hattr : s.setup.attr ≠ -1 := by
      rw [h.setup]
      decide
    rw [Sys.instr,if_neg hattr]
    exact h.put htodo _ (fun y hy => Or.inl hy) (by simp)
  | test k =>
    have hptr : s.setup.ptr k ≠ 0 := by
      rw [h.setup]
      exact made_ptr k
    rw [Sys.instr,if_neg hptr]
    exact h.put htodo _ (fun y hy => Or.inl hy) (by simp)
  | load k => exact h.load k htodo
  | wakes =>
    have hput := h.put htodo (s.core.fields.wakes.elim rest fun m => .test (.cond m) :: .load (.cond m) :: rest)
      (fun y hy => ?_) ?_
    · have hthread (j : ι) := hput.threads j
      exact ⟨hput.setup,hput.inits,hput.core,fun j => ⟨(hthread j).quiet,(hthread j).loaded,(hthread j).blocked⟩⟩
    · cases hw : s.core.fields.wakes with
      | none => exact Or.inl (by simpa [hw] using hy)
      | some m =>
        have hy : y = .test (.cond m) ∨ y = .load (.cond m) ∨ y ∈ rest := by simpa [hw] using hy
        rcases hy with rfl | rfl | hy
        · exact Or.inr rfl
        · exact Or.inr rfl
        · exact Or.inl hy
    · cases s.core.fields.wakes <;> simp_all
  | setAttr => simp [Instr.inits] at hx
  | init k z => simp [Instr.inits] at hx
  | clear c => simp [Instr.inits] at hx

/-- A statement that does not call the operating system. -/
def inner : Pc → Bool
  | .test _ | .count _ | .uncount .. | .check .. | .grant .. | .release => true
  | .out _ | .enter _ | .unlock | .wait _ | .blocked .. | .leave .. | .unlocked _ | .wake => false

/-- It does not look at rw_mutex, and leaves the other threads where they are. -/
theorem go_inner {c d : Rwlock.Sys ι} (hp : inner p = true) (h : c.go i p = some d) (o : Option ι) :
    ({ c with rwMutex := o } : Rwlock.Sys ι).go i p = some { d with rwMutex := o } ∧
      (∀ j, j ≠ i → d.pc j = c.pc j) ∧ ∀ f woken, d.pc i ≠ .blocked f woken := by
  have hother (q : Pc) (j : ι) (hj : j ≠ i) : (c.at i q).pc j = c.pc j := Function.update_of_ne hj ..
  cases p with
  | test f =>
    obtain rfl := Option.some.inj h
    refine ⟨rfl,hother _,fun g woken hpc => ?_⟩
    rw [Rwlock.at_pc_self] at hpc
    split_ifs at hpc
  | grant f r =>
    rw [Rwlock.Sys.go] at h
    split_ifs at h with hr <;> obtain rfl := Option.some.inj h
    · exact ⟨if_pos hr,hother _,by simp⟩
    · exact ⟨if_neg hr,hother _,by simp⟩
  | check f r =>
    obtain rfl := Option.some.inj h
    refine ⟨rfl,hother _,fun g woken hpc => ?_⟩
    rw [Rwlock.at_pc_self] at hpc
    split_ifs at hpc
  | count f | uncount f r | release =>
    obtain rfl := Option.some.inj h
    exact ⟨rfl,hother _,by simp⟩
  | out r | enter f | unlock | wait f | blocked f woken | leave f r | unlocked r | wake => simp [inner] at hp

theorem After.acquire (h : After s) {q : Pc} (hpc : s.core.pc i = q) (harg : s.arg .mutex i = 1)
    (hgo : s.abs.go i q = s.abs.acquire i p) (hp : ∀ f woken, p ≠ .blocked f woken) (ht : s.acquire i p = some t) :
    After t := by
  obtain ⟨⟨-,hfree⟩,ht⟩ := Option.ite_none_right_eq_some.mp ht
  obtain rfl := Option.some.inj ht
  rw [harg] at hfree ⊢
  refine h.goto ?_ fun f woken hf => absurd hf (hp f woken)
  have hacquire : s.abs.acquire i p = some { s.abs.at i p with rwMutex := some i } := if_pos hfree
  have hgo : s.abs.go i (s.abs.pc i) = some { s.abs.at i p with rwMutex := some i } := by
    rw [← hacquire,← hgo]
    exact congrArg (s.abs.go i) hpc
  rw [Function.update_self]
  exact h.core.go hgo

theorem After.yield (h : After s) {q : Pc} (hpc : s.core.pc i = q) (harg : s.arg .mutex i = 1)
    (hlocked : q.locked = true) (hgo : s.abs.go i q = some { s.abs.at i p with rwMutex := none }) :
    After (s.yield i p) := by
  have howner : s.owner 1 = some i := (h.core.mutex i).mp ((congrArg Pc.locked hpc).trans hlocked)
  refine h.goto ?_ fun _ _ _ => harg
  have hfree : (if s.owner (s.arg .mutex i) = some i then Function.update s.owner (s.arg .mutex i) none
      else s.owner) 1 = none := by
    rw [harg,if_pos howner,Function.update_self]
  rw [hfree]
  exact h.core.go ((congrArg (s.abs.go i) hpc).trans hgo)

theorem After.wakes (h : After s) (hpc : s.core.pc i = .wake) (ht : s.stmt i .wake = some t) : After t := by
  have hreturn : After (s.goto i (.unlocked 0)) :=
    h.goto (h.core.stays hpc rfl (fun _ => rfl) (by simp) (by simp)) (by simp)
  rw [Sys.stmt] at ht
  split at ht
  · obtain rfl := Option.some.inj ht
    exact hreturn
  · obtain rfl := Option.some.inj ht
    let pc := fun j => if s.Hears i .rd j then (s.core.pc j).awake else s.core.pc j
    have hawake (j : ι) : pc j = s.core.pc j ∨ pc j = (s.core.pc j).awake := by
      by_cases hj : s.Hears i .rd j
      · exact Or.inr (if_pos hj)
      · exact Or.inl (if_neg hj)
    have hi : pc i = .wake := by
      rcases hawake i with hi | hi
      · exact hi.trans hpc
      · rw [hi,hpc]
        rfl
    have hcore : Rwlock.Inv ({ s.abs with pc := pc }.at i (.unlocked 0)) :=
      (h.core.awake hawake).stays hi rfl (fun _ => rfl) (by simp) (by simp)
    have hself : ({ s.core with pc := pc }.at i (.unlocked 0)).pc i = .unlocked 0 := Rwlock.at_pc_self _
    refine h.move (i := i) ⟨rfl,rfl,rfl,?_,fun j hj => ?_⟩ hcore fun f woken hf => ?_
    · exact congrArg (Function.update s.todo i) (congrArg prologue hself.symm)
    · have hother : ({ s.core with pc := pc }.at i (.unlocked 0)).pc j = pc j := Function.update_of_ne hj ..
      exact (hawake j).imp hother.trans hother.trans
    · exact absurd (hself.symm.trans hf) (by simp)
  · obtain rfl := Option.some.inj (Option.ite_none_left_eq_some.mp ht).2
    exact hreturn

theorem stmt_inner (hp : inner p = true) :
    s.stmt i p = (s.core.go i p).map fun c => { s.put i (prologue (c.pc i)) with core := c } := by
  cases p with
  | test f | count f | uncount f r | check f r | grant f r | release => rfl
  | out r | enter f | unlock | wait f | blocked f woken | leave f r | unlocked r | wake => simp [inner] at hp

theorem After.inner (h : After s) {q : Pc} (hpc : s.core.pc i = q) (hq : inner q = true) {c : Rwlock.Sys ι}
    (hgo : s.core.go i q = some c) : After { s.put i (prologue (c.pc i)) with core := c } := by
  obtain ⟨habs,hothers,hblocked⟩ := go_inner hq hgo (s.owner 1)
  refine h.move (i := i) ⟨rfl,rfl,rfl,rfl,fun j hj => Or.inl (hothers j hj)⟩ ?_ fun f woken hf => absurd hf (hblocked f woken)
  exact h.core.go ((congrArg (s.abs.go i) hpc).trans habs)

theorem After.stmt (h : After s) (htodo : s.todo i = []) (ht : s.stmt i (s.core.pc i) = some t) : After t := by
  have harg (huses : usesMutex (s.core.pc i) = true) : s.arg .mutex i = 1 := by
    rcases (h.threads i).loaded huses with hload | harg
    · simp [htodo] at hload
    · exact harg
  cases hpc : s.core.pc i with
  | out r => simp [hpc,Sys.stmt,Rwlock.Sys.go] at ht
  | enter f =>
    rw [hpc] at ht
    exact h.acquire hpc (harg (by rw [hpc]; rfl)) rfl (by simp) ht
  | unlock =>
    rw [hpc] at ht
    exact h.acquire hpc (harg (by rw [hpc]; rfl)) rfl (by simp) ht
  | blocked f woken =>
    cases woken with
    | none => simp [hpc,Sys.stmt,Rwlock.Sys.go] at ht
    | some r =>
      rw [hpc] at ht
      exact h.acquire hpc (harg (by rw [hpc]; rfl)) rfl (by simp) ht
  | wait f =>
    rw [hpc] at ht
    obtain rfl := Option.some.inj ht
    exact h.yield hpc (harg (by rw [hpc]; rfl)) rfl rfl
  | leave f r =>
    rw [hpc] at ht
    obtain rfl := Option.some.inj ht
    exact h.yield hpc (harg (by rw [hpc]; rfl)) rfl rfl
  | unlocked r =>
    rw [hpc] at ht
    obtain rfl := Option.some.inj ht
    exact h.yield hpc (harg (by rw [hpc]; rfl)) rfl rfl
  | wake => exact h.wakes hpc (hpc ▸ ht)
  | test f | count f | uncount f r | check f r | grant f r | release =>
    rw [hpc,stmt_inner rfl] at ht
    obtain ⟨c,hc,rfl⟩ := Option.map_eq_some_iff.mp ht
    exact h.inner hpc rfl hc

theorem Inv.after_of (h : Inv s) (hout : ∀ r, s.core.pc i ≠ .out r)
    (hin : (∀ f, s.core.pc i ≠ .enter f) ∨ s.todo i = []) : After s := by
  have hoff (ho : s.Outside i) : False := by
    rcases ho with ⟨r,hr,-⟩ | ⟨f,hf,htodo⟩
    · exact hout r hr
    · rcases hin with hin | hin
      · exact hin f hf
      · simp [htodo] at hin
  cases h with
  | before _ _ _ _ hothers => exact (hoff (hothers i)).elim
  | during k f xs x ys _ _ _ _ hpc htodo hothers =>
    by_cases hik : i = k
    · subst hik
      rcases hin with hin | hin
      · exact absurd hpc (hin f)
      · simp [htodo] at hin
    · exact (hoff (hothers i hik)).elim
  | after h => exact h

theorem Inv.lock (h : Inv s) {r : ℤ} (f : Func) (hpc : s.core.pc i = .out r) : Inv (s.goto i (.enter f)) := by
  have hself : (s.goto i (.enter f)).Outside i :=
    Or.inr ⟨f,Rwlock.at_pc_self _,Function.update_self ..⟩
  have hpcs (j : ι) (hj : j ≠ i) : (s.goto i (.enter f)).core.pc j = s.core.pc j := Function.update_of_ne hj ..
  have htodos (j : ι) (hj : j ≠ i) : (s.goto i (.enter f)).todo j = s.todo j := Function.update_of_ne hj ..
  have hother (j : ι) (hj : j ≠ i) (ho : s.Outside j) : (s.goto i (.enter f)).Outside j := by
    unfold Sys.Outside
    rw [hpcs j hj,htodos j hj]
    exact ho
  cases h with
  | before hsetup hm hinits hidle hout =>
    refine .before hsetup hm hinits ⟨hidle.fields,hidle.held,hidle.owner⟩ fun j => ?_
    by_cases hj : j = i
    · exact hj ▸ hself
    · exact hother j hj (hout j)
  | during k g xs x ys hbody hmade hinits hidle hk htodo hothers =>
    have hki : k ≠ i := by
      rintro rfl
      simp [hk] at hpc
    refine .during k g xs x ys hbody hmade hinits ⟨hidle.fields,hidle.held,hidle.owner⟩ ((hpcs k hki).trans hk)
      ((htodos k hki).trans htodo) fun j hj => ?_
    by_cases hji : j = i
    · exact hji ▸ hself
    · exact hother j hji (hothers j hj)
  | after h => exact .after (h.goto (h.core.turn (.lock f hpc)) (by simp))

omit [Fintype ι] in
theorem instr_inits (hx : x.inits = true) : s.instr i rest x =
    { s.put i rest with
      setup := (x.setup (s.setup,s.m i)).1
      m := Function.update s.m i (x.setup (s.setup,s.m i)).2
      core := { s.core with fields := x.clears s.core.fields } } := by
  cases x with
  | setAttr | init k z | clear c => rfl
  | testAttr | test k | load k | wakes => simp [Instr.inits] at hx

theorem clears_zero (x : Instr) : x.clears ⟨0,0,0⟩ = ⟨0,0,0⟩ := by
  cases x with
  | clear c =>
    cases c with
    | nwait m => cases m <;> rfl
    | refcount => rfl
  | setAttr | init k z | testAttr | test k | load k | wakes => rfl

omit [DecidableEq ι] [Fintype ι] in
theorem Sys.Outside.settled (h : s.Outside i) : s.Settled i := by
  refine ⟨h.quiet,fun huses => ?_,fun f woken hpc => ?_⟩
  · rcases h with ⟨r,hr,-⟩ | ⟨f,-,htodo⟩
    · simp [hr,usesMutex] at huses
    · exact Or.inl (by rw [htodo]; decide)
  · rcases h with ⟨r,hr,-⟩ | ⟨g,hg,-⟩
    · simp [hr] at hpc
    · simp [hg] at hpc

/-- A statement of pthread_rwlock_init. -/
theorem Inv.inits (h : Inv s) (htodo : s.todo i = x :: rest) (hx : x.inits = true) : Inv (s.instr i rest x) := by
  rw [instr_inits hx]
  cases h with
  | before _ _ _ _ hout =>
    have hquiet := (hout i).quiet x (by simp [htodo])
    simp [hx] at hquiet
  | during k f xs y ys hbody hmade hinits hidle hpc htodo' hothers =>
    obtain rfl : i = k := by
      by_contra hik
      have hquiet := (hothers i hik).quiet x (by simp [htodo])
      simp [hx] at hquiet
    obtain ⟨rfl,rfl⟩ := List.cons.inj (htodo.symm.trans htodo')
    let t : Sys ι := { s.put i (ys ++ locks) with
      setup := (x.setup (s.setup,s.m i)).1
      m := Function.update s.m i (x.setup (s.setup,s.m i)).2
      core := { s.core with fields := x.clears s.core.fields } }
    have hself : t.todo i = ys ++ locks := Function.update_self ..
    have hm : t.m i = (x.setup (s.setup,s.m i)).2 := Function.update_self ..
    have hnext : made (xs ++ [x]) = (t.setup,t.m i) := by
      rw [made_concat,hmade,hm]
    have hbody' : (xs ++ [x]) ++ ys = pthreadRwlockInit := by
      rw [← hbody]
      simp
    have hidle' : t.Idle := by
      refine ⟨?_,hidle.held,hidle.owner⟩
      have hfields : t.core.fields = x.clears s.core.fields := rfl
      rw [hfields,hidle.fields,clears_zero]
    have hothers' (j : ι) (hj : j ≠ i) : t.Outside j := by
      have htodos : t.todo j = s.todo j := Function.update_of_ne hj ..
      unfold Sys.Outside
      rw [htodos]
      exact hothers j hj
    suffices ht : Inv t from ht
    cases ys with
    | cons z zs => exact .during i f (xs ++ [x]) z zs hbody' hnext hinits hidle' hpc hself hothers'
    | nil =>
      rw [List.append_nil] at hbody'
      refine .after ⟨?_,hinits,?_,fun j => ?_⟩
      · rw [← hbody',hnext]
      · refine hidle'.abs_inv fun j => ?_
        by_cases hj : j = i
        · exact Or.inr ⟨f,by rw [hj]; exact hpc⟩
        · exact (hothers' j hj).imp (fun ⟨r,hr,_⟩ => ⟨r,hr⟩) fun ⟨g,hg,_⟩ => ⟨g,hg⟩
      · by_cases hj : j = i
        · subst hj
          refine ⟨fun y hy => ?_,fun _ => Or.inl ?_,fun g woken hg => absurd (hpc.symm.trans hg) (by simp)⟩
          · rw [hself] at hy
            revert y
            decide
          · rw [hself]
            decide
        · exact (hothers' j hj).settled
  | after h =>
    have hquiet := (h.threads i).quiet x (by simp [htodo])
    simp [hx] at hquiet

theorem Inv.instr (h : Inv s) (hgood : ¬ Races s (.go i)) (htodo : s.todo i = x :: rest) (hx : x.inits = false) :
    Inv (s.instr i rest x) := by
  have htest (ho : s.Outside i) : ∃ f, s.core.pc i = .enter f ∧ x = .testAttr ∧ rest = locks := by
    rcases ho with ⟨r,-,hr⟩ | ⟨f,hf,hlocks⟩
    · simp [hr] at htodo
    · obtain ⟨rfl,rfl⟩ := List.cons.inj (hlocks.symm.trans htodo)
      exact ⟨f,hf,rfl,rfl⟩
  cases h with
  | before hsetup hm hinits hidle hout =>
    obtain ⟨f,hf,rfl,rfl⟩ := htest (hout i)
    have hattr : s.setup.attr = -1 := by
      rw [hsetup]
      rfl
    rw [Sys.instr,if_pos hattr]
    refine .during i f [] .setAttr pthreadRwlockInit.tail rfl ?_ (by simp [hinits])
      ⟨hidle.fields,hidle.held,hidle.owner⟩ hf (Function.update_self ..) fun j hj => ?_
    · rw [made,List.foldl_nil,← hsetup,← hm i]
      rfl
    · have htodos : (s.put i (pthreadRwlockInit ++ locks)).todo j = s.todo j := Function.update_of_ne hj ..
      exact (hout j).imp (fun ⟨r,hr,h⟩ => ⟨r,hr,htodos.trans h⟩) fun ⟨g,hg,h⟩ => ⟨g,hg,htodos.trans h⟩
  | during k f xs y ys hbody hmade hinits hidle hpc htodo' hothers =>
    have hy : y.inits = true := init_inits y (by simp [← hbody])
    have hik : i ≠ k := by
      rintro rfl
      obtain ⟨rfl,-⟩ := List.cons.inj (htodo.symm.trans htodo')
      simp [hy] at hx
    obtain ⟨g,hg,rfl,rfl⟩ := htest (hothers i hik)
    exact absurd ⟨by rw [htodo]; rfl,k,y,by simp [htodo'],hy⟩ hgood
  | after h => exact .after (h.instr htodo)

theorem After.fails (h : After s) (hpc : (∃ f, s.core.pc i = .enter f) ∨ s.core.pc i = .unlock) (r : ℤ) :
    After (s.goto i (.out r)) := by
  refine h.goto ?_ (by simp)
  rcases hpc with ⟨f,hf⟩ | hpc
  · exact h.core.turn (.failLock r hf)
  · exact h.core.turn (.failUnlock r hpc)

theorem After.expire (h : After s) {f : Func} (hpc : s.core.pc i = .blocked f none) (r : ℤ) :
    After (s.goto i (.blocked f (some r))) :=
  h.goto (h.core.turn (.expire r hpc)) fun _ _ _ => (h.threads i).blocked f none hpc

theorem After.signal (h : After s) {f : Func} (hi : s.core.pc i = .wake) (hj : s.core.pc j = .blocked f none) :
    After ((s.goto j (.blocked f (some 0))).goto i (.unlocked 0)) := by
  have hne : i ≠ j := by
    rintro rfl
    simp [hi] at hj
  have hexpire := h.expire hj 0
  have hi' : (s.goto j (.blocked f (some 0))).abs.pc i = .wake := (Function.update_of_ne hne ..).trans hi
  exact hexpire.goto (hexpire.core.stays hi' rfl (fun _ => rfl) (by simp) (by simp)) (by simp)

theorem Inv.unlock (h : Inv s) {r : ℤ} (hpc : s.core.pc i = .out r)
    (hheld : 0 < s.core.held .rd i ∨ 0 < s.core.held .wr i) : Inv (s.goto i .unlock) := by
  have hidle (hidle : s.Idle) : False := by
    rw [hidle.held,hidle.held] at hheld
    exact hheld.elim (lt_irrefl _) (lt_irrefl _)
  cases h with
  | before _ _ _ hidle' _ => exact (hidle hidle').elim
  | during _ _ _ _ _ _ _ _ hidle' _ _ _ => exact (hidle hidle').elim
  | after h => exact .after (h.goto (h.core.turn (.unlock hpc hheld)) (by simp))

theorem Inv.step (h : Inv s) {l : Rwlock.Label ι} (hgood : ¬ Races s l) (hs : RwlockInit.step s l = some t) :
    Inv t := by
  cases l with
  | lock i f =>
    rw [RwlockInit.step] at hs
    split at hs
    · next r hpc =>
      obtain rfl := Option.some.inj hs
      exact h.lock f hpc
    · simp at hs
  | unlock i =>
    rw [RwlockInit.step] at hs
    split at hs
    · next r hpc =>
      obtain ⟨hheld,hs⟩ := Option.ite_none_right_eq_some.mp hs
      obtain rfl := Option.some.inj hs
      exact h.unlock hpc hheld
    · simp at hs
  | go i =>
    rw [RwlockInit.step] at hs
    split at hs
    · next x rest htodo =>
      obtain rfl := Option.some.inj hs
      cases hx : x.inits with
      | true => exact h.inits htodo hx
      | false => exact h.instr hgood htodo hx
    · next htodo =>
      have hout (r : ℤ) : s.core.pc i ≠ .out r := by
        intro hr
        simp [hr,Sys.stmt,Rwlock.Sys.go] at hs
      exact .after ((h.after_of hout (Or.inr htodo)).stmt htodo hs)
  | fail i r =>
    rw [RwlockInit.step] at hs
    split at hs
    · next f hpc htodo =>
      obtain rfl := Option.some.inj (Option.ite_none_left_eq_some.mp hs).2
      exact .after ((h.after_of (by simp [hpc]) (Or.inr htodo)).fails (Or.inl ⟨f,hpc⟩) r)
    · next hpc htodo =>
      obtain rfl := Option.some.inj (Option.ite_none_left_eq_some.mp hs).2
      exact .after ((h.after_of (by simp [hpc]) (Or.inr htodo)).fails (Or.inr hpc) r)
    · simp at hs
  | signal i j =>
    rw [RwlockInit.step] at hs
    split at hs
    · next f hi htodo hj =>
      obtain rfl := Option.some.inj (Option.ite_none_right_eq_some.mp hs).2
      exact .after ((h.after_of (by simp [hi]) (Or.inr htodo)).signal hi hj)
    · simp at hs
  | expire j r =>
    rw [RwlockInit.step] at hs
    split at hs
    · next f hpc =>
      obtain rfl := Option.some.inj hs
      exact .after ((h.after_of (i := j) (by simp [hpc]) (Or.inl (by simp [hpc]))).expire hpc r)
    · simp at hs

/-- The test finds attr as it was, or set before the rest. -/
theorem Races.not_once {l : Rwlock.Label ι} (hrace : Races s l) (h : Inv s) (hs : RwlockInit.step s l = some t) :
    ¬ t.Once := by
  cases l with
  | go i =>
    obtain ⟨hhead,j,x,hmem,hx⟩ := hrace
    obtain ⟨rest,htodo⟩ := List.head?_eq_some_iff.mp hhead
    rw [RwlockInit.step,htodo] at hs
    obtain rfl := Option.some.inj hs
    cases h with
    | before _ _ _ _ hout => simp [(hout j).quiet x hmem] at hx
    | during k f xs y ys hbody hmade hinits hidle hpc htodo' hothers =>
      intro hone
      have hik : i ≠ k := by
        rintro rfl
        obtain ⟨rfl,-⟩ := List.cons.inj (htodo.symm.trans htodo')
        have hy := init_inits .testAttr (by rw [← hbody]; simp)
        simp [Instr.inits] at hy
      have hpart := made_partial xs ((List.mem_inits ..).mpr ⟨y :: ys,hbody⟩) (by simp [← hbody])
      rw [hmade] at hpart
      by_cases hattr : s.setup.attr = -1
      · rw [Sys.instr,if_pos hattr] at hone
        have hle : s.inits + 1 ≤ 1 := hone.inits
        omega
      · rw [Sys.instr,if_neg hattr] at hone
        have hpast : (s.put i rest).Past i := by
          rcases hothers i hik with ⟨r,-,hr⟩ | ⟨g,hg,hlocks⟩
          · simp [hr] at htodo
          · obtain ⟨-,rfl⟩ := List.cons.inj (hlocks.symm.trans htodo)
            have hself : (s.put i locks).todo i = locks := Function.update_self ..
            refine ⟨fun r hr => absurd (hg.symm.trans hr) (by simp),?_⟩
            rw [hself]
            decide
        exact hpart.1 ((hone.ready i hpast).2 _)
    | after h => simp [(h.threads j).quiet x hmem] at hx
  | _ => exact hrace.elim

/-- The lock is initialised once, before its use, in exactly the runs in which no call
tests attr while another is in pthread_rwlock_init. -/
theorem init_once_iff {ls : List (Rwlock.Label ι)} (h : Runs RwlockInit.step initializer ls s) :
    (∀ ms u, ms <+: ls → Runs RwlockInit.step initializer ms u → u.Once) ↔
      Runs (guarded (fun s l => ¬ Races s l) RwlockInit.step) initializer ls s :=
  h.guarded_iff (fun _ hi => hi.once) (fun _ _ _ hi hgood hs => hi.step hgood hs)
    (fun _ _ _ hi hs ht hrace => hrace.not_once hi hs ht) Inv.initializer

end Steps

/-- Both threads call pthread_rwlock_wrlock. The second finds attr set, and locks before
the first clears the counters. -/
def overtaken : List (Rwlock.Label Bool) :=
  [.lock true Rwlock.pthreadRwlockWrlock,.lock false Rwlock.pthreadRwlockWrlock] ++ List.replicate 11 (.go true) ++
    List.replicate 9 (.go false) ++ List.replicate 11 (.go true)

theorem wrlock_two : ∃ s, Runs step (initializer : Sys Bool) overtaken s ∧ s.core.pc true = .out 0 ∧
    s.core.pc false = .out 0 ∧ s.core.held .wr true = 1 ∧ s.core.held .wr false = 1 ∧ ¬ s.Once := by
  refine Runs.exists_of_exec (fun s => (s.core.pc true,s.core.pc false,s.core.held .wr true,s.core.held .wr false))
    (v := (.out 0,.out 0,1,1)) (by decide +kernel) ?_
  intro s _ hends
  obtain ⟨htrue,hfalse,hone,htwo⟩ : s.core.pc true = .out 0 ∧ s.core.pc false = .out 0 ∧
      s.core.held .wr true = 1 ∧ s.core.held .wr false = 1 := by simpa using hends
  refine ⟨htrue,hfalse,hone,htwo,fun h => ?_⟩
  have hsame := ((h.excludes true (by omega)).2 false .wr (by omega)).1
  simp at hsame

/-- What holds of a mutex, and of a lock, in all their runs. -/
theorem static_locks_iff [DecidableEq ι] [Fintype ι] :
    (∀ (ls : List (PthreadMutex.Label ι)) s, Runs PthreadMutex.step PthreadMutex.zeroed ls s →
      ((∀ ms u, ms <+: ls → Runs PthreadMutex.step PthreadMutex.zeroed ms u → u.Once) ↔
        Runs (guarded (fun s l => ¬ PthreadMutex.Races s l) PthreadMutex.step) PthreadMutex.zeroed ls s)) ∧
    ∀ (ls : List (Rwlock.Label ι)) s, Runs step initializer ls s →
      ((∀ ms u, ms <+: ls → Runs step initializer ms u → u.Once) ↔
        Runs (guarded (fun s l => ¬ Races s l) step) initializer ls s) :=
  ⟨fun _ _ h => PthreadMutex.lock_once_iff h,fun _ _ h => init_once_iff h⟩

/-- The second thread comes when the first is done with the initialisation. -/
def followed : List (Rwlock.Label Bool) :=
  [.lock true Rwlock.pthreadRwlockRdlock,.lock false Rwlock.pthreadRwlockRdlock] ++ List.replicate 22 (.go true) ++
    List.replicate 9 (.go false)

theorem static_locks_shared : ∃ s, Runs (guarded (fun s l => ¬ Races s l) step) initializer followed s ∧
    s.core.held .rd true = 1 ∧ s.core.held .rd false = 1 ∧
    ∀ ms u, ms <+: followed → Runs step initializer ms u → u.Once := by
  refine Runs.exists_of_exec (fun s => (s.core.held .rd true,s.core.held .rd false)) (v := (1,1)) (by decide +kernel) ?_
  intro s hrun hends
  obtain ⟨hone,htwo⟩ : s.core.held .rd true = 1 ∧ s.core.held .rd false = 1 := by simpa using hends
  exact ⟨hone,htwo,(static_locks_iff.2 _ _ hrun.of_guarded).mpr hrun⟩

/-- Two owners of one mutex, and two writers. -/
theorem static_locks_fail : (∃ (ls : List (PthreadMutex.Label Bool)) (s : PthreadMutex.Sys Bool),
      Runs PthreadMutex.step PthreadMutex.zeroed ls s ∧ s.inits = 2 ∧ s.owner 1 = some true ∧
      s.owner 2 = some false ∧ ¬ s.Once) ∧
    ∃ s : Sys Bool, Runs step initializer overtaken s ∧ s.core.held .wr true = 1 ∧ s.core.held .wr false = 1 ∧
      ¬ s.Once := by
  obtain ⟨s,hs,-,-,hone,htwo,hinits,hfail⟩ := PthreadMutex.lock_two
  obtain ⟨t,ht,-,-,htrue,hfalse,hfail'⟩ := wrlock_two
  exact ⟨⟨_,s,hs,hinits,hone,htwo,hfail⟩,t,ht,htrue,hfalse,hfail'⟩

end FmacSdk.RwlockInit
