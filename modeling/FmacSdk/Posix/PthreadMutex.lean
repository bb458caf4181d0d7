import FmacSdk.Foundation.Transition
import Mathlib.Data.Fintype.Defs
import Mathlib.Data.Int.Order.Basic

/-! # Mutexes on their first use

Calls on one zero-initialised pthread_mutex_t. The os_mutex objects behind it are
numbered from 1 and correct; NULL is number 0, which nobody can lock.
-/
namespace FmacSdk.PthreadMutex
open Transition

/-- The statements of pthread_mutex_init, and of pthread_cond_init. -/
inductive InitStmt
  | memset
  | alloc
  | store
deriving DecidableEq

def InitStmt.next : InitStmt → Option InitStmt
  | .memset => some .alloc
  | .alloc => some .store
  | .store => none

/-- The pointer behind the mutex, the local pointer of a call, and the objects so far. -/
structure Ptrs where
  shared : ℕ
  m : ℕ
  objects : ℕ
deriving DecidableEq

def InitStmt.run (p : Ptrs) : InitStmt → Ptrs
  | .memset => { p with shared := 0 }
  | .alloc => { p with m := p.objects + 1, objects := p.objects + 1 }
  | .store => { p with shared := p.m }

/-- What is so before a statement of the first call of pthread_mutex_init. -/
def InitStmt.Before (p : Ptrs) : InitStmt → Prop
  | .memset | .alloc => p.shared = 0 ∧ p.objects = 0
  | .store => p.shared = 0 ∧ p.objects = 1 ∧ p.m = 1

inductive Func
  | lock
  | timedlock
  | trylock
  | unlock
deriving DecidableEq

/-- The next statement of a thread: the test of the pointer, pthread_mutex_init, the
argument of the call of the operating system, and this call. -/
inductive Pc
  | out (result : ℤ)
  | test (f : Func)
  | init (f : Func) (x : InitStmt)
  | load (f : Func)
  | os (f : Func) (m : ℕ)
deriving DecidableEq

variable {ι : Type*}

structure Sys (ι : Type*) where
  mutex : ℕ
  objects : ℕ
  owner : ℕ → Option ι
  pc : ι → Pc
  m : ι → ℕ
  inits : ℕ

/-- A call, a statement, and a call of the operating system that fails. -/
inductive Label (ι : Type*)
  | call (i : ι) (f : Func)
  | go (i : ι)
  | fail (i : ι) (result : ℤ)

section Code
variable [DecidableEq ι]

def Sys.at (s : Sys ι) (i : ι) (p : Pc) : Sys ι := { s with pc := Function.update s.pc i p }

/-- The statement of thread `i`. -/
def Sys.go (s : Sys ι) (i : ι) : Pc → Option (Sys ι)
  | .out _ => none
  | .test f =>
    if s.mutex = 0 then some { s.at i (.init f .memset) with inits := s.inits + 1 }
    else some (s.at i (.load f))
  | .init f x =>
    let p := x.run ⟨s.mutex,s.m i,s.objects⟩
    some { s.at i (x.next.elim (.load f) (.init f)) with
      mutex := p.shared, m := Function.update s.m i p.m, objects := p.objects }
  | .load f => some (s.at i (.os f s.mutex))
  | .os .unlock m =>
    if s.owner m = some i then some { s.at i (.out 0) with owner := Function.update s.owner m none } else none
  | .os _ m =>
    if m ≠ 0 ∧ s.owner m = none then some { s.at i (.out 0) with owner := Function.update s.owner m (some i) }
    else none

def step (s : Sys ι) : Label ι → Option (Sys ι)
  | .call i f => match s.pc i with
    | .out _ => some (s.at i (.test f))
    | _ => none
  | .go i => s.go i (s.pc i)
  | .fail i r => match s.pc i with
    | .os f m => if r = 0 ∨ (f = .unlock ∧ s.owner m = some i) then none else some (s.at i (.out r))
    | _ => none

end Code

/-- PTHREAD_MUTEX_INITIALIZER -/
def zeroed : Sys ι := ⟨0,0,fun _ => none,fun _ => .out 0,fun _ => 0,0⟩

/-- The call is past the test of the pointer, and its call of pthread_mutex_init. -/
def Pc.past : Pc → Bool
  | .load _ | .os .. => true
  | .out _ | .test _ | .init .. => false

/-- pthread_mutex_init runs once, whoever is past it has the object that it made, and
two threads do not own it. -/
structure Sys.Once (s : Sys ι) : Prop where
  inits : s.inits ≤ 1
  ready : ∀ i, (s.pc i).past = true → s.inits = 1 ∧ s.objects = 1 ∧ s.mutex = 1
  excludes : ∀ m m' i j, s.owner m = some i → s.owner m' = some j → i = j

def Pc.tests : Pc → Bool
  | .test _ => true
  | .out _ | .init .. | .load _ | .os .. => false

def Pc.inits : Pc → Bool
  | .init .. => true
  | .out _ | .test _ | .load _ | .os .. => false

/-- A call tests the pointer between another's test and its store. -/
def Races (s : Sys ι) : Label ι → Prop
  | .go i => (s.pc i).tests = true ∧ ∃ j, (s.pc j).inits = true
  | .call .. | .fail .. => False

instance [Fintype ι] (s : Sys ι) (l : Label ι) : Decidable (Races s l) :=
  match l with
  | .go _ => inferInstanceAs (Decidable (_ ∧ _))
  | .call .. | .fail .. => isFalse id

/-- Outside, or before the test of the pointer. -/
def Pc.early : Pc → Bool
  | .out _ | .test _ => true
  | .init .. | .load _ | .os .. => false

/-- Not in pthread_mutex_init, with no other object than the first. -/
def Pc.Settled : Pc → Prop
  | .init .. => False
  | .os _ m => m = 1
  | .out _ | .test _ | .load _ => True

/-- Before the first call of pthread_mutex_init, in it, and after it. -/
inductive Inv (s : Sys ι) : Prop
  | before (hmutex : s.mutex = 0) (hobjects : s.objects = 0) (hinits : s.inits = 0)
      (howner : ∀ m, s.owner m = none) (hpc : ∀ i, (s.pc i).early = true)
  | during (i : ι) (f : Func) (x : InitStmt) (hpc : s.pc i = .init f x)
      (hx : x.Before ⟨s.mutex,s.m i,s.objects⟩) (hinits : s.inits = 1) (howner : ∀ m, s.owner m = none)
      (hothers : ∀ j, j ≠ i → (s.pc j).early = true)
  | after (hmutex : s.mutex = 1) (hobjects : s.objects = 1) (hinits : s.inits = 1)
      (howner : ∀ m i, s.owner m = some i → m = 1) (hpc : ∀ i, (s.pc i).Settled)

theorem early_not_past {p : Pc} (h : p.early = true) : p.past = false := by
  cases p <;> simp_all [Pc.early,Pc.past]

theorem early_not_inits {p : Pc} (h : p.early = true) : p.inits = false := by
  cases p <;> simp_all [Pc.early,Pc.inits]

theorem early_settled {p : Pc} (h : p.early = true) : p.Settled := by
  cases p <;> simp_all [Pc.early,Pc.Settled]

theorem Pc.Settled.not_inits {p : Pc} (h : p.Settled) : p.inits = false := by
  cases p <;> simp_all [Pc.Settled,Pc.inits]

theorem InitStmt.Before.shared {p : Ptrs} {x : InitStmt} (h : x.Before p) : p.shared = 0 := by
  cases x <;> exact h.1

variable {s t : Sys ι} {i j : ι} {p : Pc}

theorem Inv.zeroed : Inv (zeroed : Sys ι) := .before rfl rfl rfl (fun _ => rfl) fun _ => rfl

theorem Inv.once (h : Inv s) : s.Once := by
  cases h with
  | before _ _ hinits howner hpc =>
    refine ⟨by omega,fun i hi => ?_,fun m _ i _ hi => ?_⟩
    · simp [early_not_past (hpc i)] at hi
    · simp [howner m] at hi
  | during i f x hpc _ hinits howner hothers =>
    refine ⟨by omega,fun j hj => ?_,fun m _ j _ hj => ?_⟩
    · by_cases hji : j = i
      · simp [hji,hpc,Pc.past] at hj
      · simp [early_not_past (hothers j hji)] at hj
    · simp [howner m] at hj
  | after hmutex hobjects hinits howner _ =>
    refine ⟨by omega,fun _ _ => ⟨hinits,hobjects,hmutex⟩,fun m m' i j hi hj => ?_⟩
    rw [howner m i hi] at hi
    rw [howner m' j hj] at hj
    exact Option.some.inj (hi.symm.trans hj)

section Steps
variable [DecidableEq ι]

@[simp] theorem at_pc_self (p : Pc) : (s.at i p).pc i = p := Function.update_self ..

theorem at_pc_of_ne (p : Pc) (h : j ≠ i) : (s.at i p).pc j = s.pc j := Function.update_of_ne h ..

theorem at_pc_forall (P : Pc → Prop) (h : ∀ j, P (s.pc j)) (hp : P p) (j : ι) : P ((s.at i p).pc j) := by
  by_cases hj : j = i
  · rw [hj,at_pc_self]
    exact hp
  · rw [at_pc_of_ne p hj]
    exact h j

/-- A thread that does not touch the objects. -/
theorem Inv.stays (h : Inv s) (hearly : (s.pc i).early = true → p.early = true) (hinits : (s.pc i).inits = false)
    (hsettled : (s.pc i).Settled → p.Settled) : Inv (s.at i p) := by
  cases h with
  | before hmutex hobjects hzero howner hpc =>
    exact .before hmutex hobjects hzero howner (at_pc_forall (·.early = true) hpc (hearly (hpc i)))
  | during k f x hpc hx hone howner hothers =>
    have hk : k ≠ i := by
      rintro rfl
      simp [hpc,Pc.inits] at hinits
    refine .during k f x ((at_pc_of_ne p hk).trans hpc) hx hone howner fun j hj => ?_
    by_cases hji : j = i
    · rw [hji,at_pc_self]
      exact hearly (hothers i hk.symm)
    · rw [at_pc_of_ne p hji]
      exact hothers j hj
  | after hmutex hobjects hone howner hpc =>
    exact .after hmutex hobjects hone howner (at_pc_forall Pc.Settled hpc (hsettled (hpc i)))

theorem Inv.test (h : Inv s) (hgood : ¬ Races s (.go i)) {f : Func} (hpc : s.pc i = .test f)
    (hs : s.go i (.test f) = some t) : Inv t := by
  cases h with
  | before hmutex hobjects hinits howner hearly =>
    rw [Sys.go,if_pos hmutex] at hs
    obtain rfl := Option.some.inj hs
    refine .during i f .memset (at_pc_self _) ⟨hmutex,hobjects⟩ (by simp [hinits]) howner fun j hj => ?_
    exact (congrArg Pc.early (at_pc_of_ne _ hj)).trans (hearly j)
  | during k g x hk _ _ _ _ => exact absurd ⟨by rw [hpc]; rfl,k,by rw [hk]; rfl⟩ hgood
  | after hmutex hobjects hinits howner hsettled =>
    rw [Sys.go,if_neg (by rw [hmutex]; decide)] at hs
    obtain rfl := Option.some.inj hs
    exact .after hmutex hobjects hinits howner (at_pc_forall Pc.Settled hsettled trivial)

theorem Inv.init (h : Inv s) {f : Func} {x : InitStmt} (hpc : s.pc i = .init f x)
    (hs : s.go i (.init f x) = some t) : Inv t := by
  cases h with
  | before _ _ _ _ hearly =>
    have hi := early_not_inits (hearly i)
    simp [hpc,Pc.inits] at hi
  | during k g y hk hx hinits howner hothers =>
    obtain rfl : i = k := by
      by_contra hne
      have hi := early_not_inits (hothers i hne)
      simp [hpc,Pc.inits] at hi
    obtain ⟨rfl,rfl⟩ := Pc.init.inj (hpc.symm.trans hk)
    obtain rfl := Option.some.inj hs
    have hearly (p : Pc) : ∀ j, j ≠ i → ((s.at i p).pc j).early = true := fun j hj => by
      rw [at_pc_of_ne p hj]
      exact hothers j hj
    cases x with
    | memset =>
      exact .during i f .alloc (at_pc_self _) ⟨rfl,hx.2⟩ hinits howner (hearly _)
    | alloc =>
      obtain ⟨hshared,hobjects⟩ := hx
      have hnext : s.objects + 1 = 1 := congrArg (· + 1) hobjects
      exact .during i f .store (at_pc_self _) ⟨hshared,hnext,(Function.update_self ..).trans hnext⟩ hinits howner
        (hearly _)
    | store =>
      obtain ⟨-,hobjects,hm⟩ := hx
      refine .after hm hobjects hinits (fun m j hj => ?_) fun j => ?_
      · exact absurd ((howner m).symm.trans hj) (by simp)
      · by_cases hj : j = i
        · have hself : (s.at i (.load f)).pc i = .load f := at_pc_self _
          rw [hj]
          exact (congrArg Pc.Settled hself).mpr trivial
        · exact early_settled (hearly _ j hj)
  | after _ _ _ _ hsettled =>
    have hi := (hsettled i).not_inits
    simp [hpc,Pc.inits] at hi

theorem Inv.load (h : Inv s) {f : Func} (hpc : s.pc i = .load f) : Inv (s.at i (.os f s.mutex)) := by
  cases h with
  | before _ _ _ _ hearly =>
    have hi := hearly i
    simp [hpc,Pc.early] at hi
  | during k g x hk _ _ _ hothers =>
    have hne : i ≠ k := by
      rintro rfl
      simp [hpc] at hk
    have hi := hothers i hne
    simp [hpc,Pc.early] at hi
  | after hmutex hobjects hinits howner hsettled =>
    exact .after hmutex hobjects hinits howner (at_pc_forall Pc.Settled hsettled hmutex)

/-- The object is the first, so its owner may change. -/
theorem Inv.owns (h : Inv s) {f : Func} {m : ℕ} (hpc : s.pc i = .os f m) (o : Option ι) (r : ℤ) :
    Inv { s.at i (.out r) with owner := Function.update s.owner m o } := by
  cases h with
  | before _ _ _ _ hearly =>
    have hi := hearly i
    simp [hpc,Pc.early] at hi
  | during k g x hk _ _ _ hothers =>
    have hne : i ≠ k := by
      rintro rfl
      simp [hpc] at hk
    have hi := hothers i hne
    simp [hpc,Pc.early] at hi
  | after hmutex hobjects hinits howner hsettled =>
    have hm : m = 1 := by simpa [hpc,Pc.Settled] using hsettled i
    refine .after hmutex hobjects hinits (fun m' j hj => ?_) (at_pc_forall Pc.Settled hsettled trivial)
    by_cases hm' : m' = m
    · exact hm'.trans hm
    · exact howner m' j ((Function.update_of_ne hm' ..).symm.trans hj)

theorem Inv.step (h : Inv s) {l : Label ι} (hgood : ¬ Races s l) (hs : PthreadMutex.step s l = some t) : Inv t := by
  cases l with
  | call i f =>
    rw [PthreadMutex.step] at hs
    split at hs
    · next r hpc =>
      obtain rfl := Option.some.inj hs
      exact h.stays (fun _ => rfl) (by rw [hpc]; rfl) (fun _ => trivial)
    · simp at hs
  | go i =>
    have hs : s.go i (s.pc i) = some t := hs
    cases hpc : s.pc i with
    | out r => simp [hpc,Sys.go] at hs
    | test f => exact h.test hgood hpc (hpc ▸ hs)
    | init f x => exact h.init hpc (hpc ▸ hs)
    | load f =>
      rw [hpc] at hs
      obtain rfl := Option.some.inj hs
      exact h.load hpc
    | os f m =>
      rw [hpc] at hs
      cases f <;> obtain rfl := Option.some.inj (Option.ite_none_right_eq_some.mp hs).2 <;> exact h.owns hpc _ _
  | fail i r =>
    rw [PthreadMutex.step] at hs
    split at hs
    · next f m hpc =>
      obtain rfl := Option.some.inj (Option.ite_none_left_eq_some.mp hs).2
      exact h.stays (fun _ => rfl) (by rw [hpc]; rfl) (fun _ => trivial)
    · simp at hs

/-- The pointer is NULL between the test and the store. -/
theorem Races.not_once {l : Label ι} (hrace : Races s l) (h : Inv s) (hs : PthreadMutex.step s l = some t) :
    ¬ t.Once := by
  cases l with
  | go i =>
    obtain ⟨htests,j,hj⟩ := hrace
    cases h with
    | before _ _ _ _ hearly => simp [early_not_inits (hearly j)] at hj
    | during k f x hk hx hinits _ _ =>
      cases hpc : s.pc i with
      | test g =>
        have hs : s.go i (s.pc i) = some t := hs
        rw [hpc,Sys.go,if_pos hx.shared] at hs
        obtain rfl := Option.some.inj hs
        intro hone
        have hle : s.inits + 1 ≤ 1 := hone.inits
        omega
      | _ => simp [hpc,Pc.tests] at htests
    | after _ _ _ _ hsettled => simp [(hsettled j).not_inits] at hj
  | _ => exact hrace.elim

variable [Fintype ι]

/-- The mutex is initialised once, and excludes, in exactly the runs in which no call
tests the pointer between another's test and its store. -/
theorem lock_once_iff {ls : List (Label ι)} (h : Runs PthreadMutex.step zeroed ls s) :
    (∀ ms u, ms <+: ls → Runs PthreadMutex.step zeroed ms u → u.Once) ↔
      Runs (guarded (fun s l => ¬ Races s l) PthreadMutex.step) zeroed ls s :=
  h.guarded_iff (fun _ hi => hi.once) (fun _ _ _ hi hgood hs => hi.step hgood hs)
    (fun _ _ _ hi hs ht hrace => hrace.not_once hi hs ht) Inv.zeroed

end Steps

/-- Both threads find the pointer NULL, and each locks the object it made. -/
theorem lock_two : ∃ s, Runs step (zeroed : Sys Bool)
    [.call true .lock,.call false .lock,.go true,.go false,.go true,.go true,.go true,.go true,.go true,
      .go false,.go false,.go false,.go false,.go false] s ∧
    s.pc true = .out 0 ∧ s.pc false = .out 0 ∧ s.owner 1 = some true ∧ s.owner 2 = some false ∧ s.inits = 2 ∧
    ¬ s.Once := by
  refine Runs.exists_of_exec (fun s => (s.pc true,s.pc false,s.owner 1,s.owner 2,s.inits))
    (v := (.out 0,.out 0,some true,some false,2)) rfl ?_
  intro s _ hend
  obtain ⟨htrue,hend⟩ := Prod.mk.inj hend
  obtain ⟨hfalse,hend⟩ := Prod.mk.inj hend
  obtain ⟨hone,hend⟩ := Prod.mk.inj hend
  obtain ⟨htwo,hinits⟩ := Prod.mk.inj hend
  exact ⟨htrue,hfalse,hone,htwo,hinits,fun h => absurd (h.excludes 1 2 _ _ hone htwo) (by decide)⟩

end FmacSdk.PthreadMutex
