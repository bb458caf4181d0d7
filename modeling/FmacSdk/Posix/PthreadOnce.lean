import FmacSdk.Foundation.Transition
import Mathlib.Data.Int.Order.Basic

/-! # pthread_once

Calls on one control. A call tests and sets the control with interrupts off, and
touches nothing shared after that but in init_routine.
-/
namespace FmacSdk.PthreadOnce
open Transition
variable {ι : Type*}

def PTHREAD_ONCE_INIT : ℤ := 0

/-- Outside, before the section with interrupts off, and in init_routine. -/
inductive Pc
  | out
  | test
  | init
deriving DecidableEq

/-- With the runs of init_routine that began and ended, and the calls that returned. -/
structure Sys (ι : Type*) where
  onceControl : ℤ
  pc : ι → Pc
  began : ℕ
  ended : ℕ
  returned : ℕ

/-- A call, its section with interrupts off, and a step or the end of init_routine. -/
inductive Label (ι : Type*)
  | call (i : ι)
  | go (i : ι)
  | work (i : ι)
  | done (i : ι)

section Code
variable [DecidableEq ι]

def Sys.at (s : Sys ι) (i : ι) (p : Pc) : Sys ι := { s with pc := Function.update s.pc i p }

def step (s : Sys ι) : Label ι → Option (Sys ι)
  | .call i => if s.pc i = .out then some (s.at i .test) else none
  | .go i =>
    if s.pc i = .test then
      if s.onceControl = 0 then some { s.at i .init with onceControl := 1, began := s.began + 1 }
      else some { s.at i .out with returned := s.returned + 1 }
    else none
  | .work i => if s.pc i = .init then some s else none
  | .done i =>
    if s.pc i = .init then some { s.at i .out with ended := s.ended + 1, returned := s.returned + 1 } else none

end Code

def booted : Sys ι := ⟨PTHREAD_ONCE_INIT,fun _ => .out,0,0,0⟩

/-- init_routine runs once, and has run when a call returns. -/
structure Sys.Once (s : Sys ι) : Prop where
  began : s.began ≤ 1
  returned : 0 < s.returned → s.began = 1 ∧ s.ended = 1

/-- A call tests the control while init_routine runs. -/
def Late [DecidableEq ι] (s : Sys ι) : Label ι → Prop
  | .go i => s.pc i = .test ∧ s.ended < s.began
  | _ => False

instance [DecidableEq ι] (s : Sys ι) (l : Label ι) : Decidable (Late s l) :=
  match l with
  | .go _ => inferInstanceAs (Decidable (_ ∧ _))
  | .call _ | .work _ | .done _ => isFalse id

/-- Before the run of init_routine, in it, and after it. -/
inductive Inv (s : Sys ι) : Prop
  | before (hcontrol : s.onceControl = 0) (hbegan : s.began = 0) (hended : s.ended = 0)
      (hreturned : s.returned = 0) (hpc : ∀ i, s.pc i ≠ .init)
  | runs (i : ι) (hcontrol : s.onceControl = 1) (hbegan : s.began = 1) (hended : s.ended = 0)
      (hreturned : s.returned = 0) (hpc : ∀ j, s.pc j = .init ↔ j = i)
  | after (hcontrol : s.onceControl = 1) (hbegan : s.began = 1) (hended : s.ended = 1)
      (hpc : ∀ i, s.pc i ≠ .init)

theorem Inv.once {s : Sys ι} (h : Inv s) : s.Once := by
  cases h with
  | before _ hbegan _ hreturned _ => exact ⟨by omega,by omega⟩
  | runs _ _ hbegan _ hreturned _ => exact ⟨by omega,by omega⟩
  | after _ hbegan hended _ => exact ⟨by omega,fun _ => ⟨hbegan,hended⟩⟩

section Steps
variable [DecidableEq ι] {s t : Sys ι} {i j : ι}

@[simp] theorem at_pc_self (p : Pc) : (s.at i p).pc i = p := Function.update_self ..

theorem at_pc_of_ne (p : Pc) (h : j ≠ i) : (s.at i p).pc j = s.pc j := Function.update_of_ne h ..

theorem at_ne_init {p : Pc} (h : ∀ j, s.pc j ≠ .init) (hp : p ≠ .init) (j : ι) : (s.at i p).pc j ≠ .init := by
  revert j
  apply (Function.forall_update_iff s.pc fun _ p => p ≠ .init).mpr
  exact ⟨hp,fun j _ => h j⟩

theorem Inv.call (h : Inv s) (hpc : s.pc i = .out) : Inv (s.at i .test) := by
  cases h with
  | before hc hb he hr hp => exact .before hc hb he hr (at_ne_init hp (by decide))
  | runs k hc hb he hr hp =>
    refine .runs k hc hb he hr fun j => ?_
    by_cases hj : j = i
    · have hk : i ≠ k := by
        intro hik
        have hrun := (hp i).mpr hik
        simp [hpc] at hrun
      simp [hj,hk]
    · rw [at_pc_of_ne _ hj]
      exact hp j
  | after hc hb he hp => exact .after hc hb he (at_ne_init hp (by decide))

theorem Inv.go (h : Inv s) (hgood : ¬ Late s (.go i)) (hpc : s.pc i = .test)
    (hs : PthreadOnce.step s (.go i) = some t) : Inv t := by
  rw [PthreadOnce.step,if_pos hpc] at hs
  cases h with
  | before hc hb he hr hp =>
    rw [if_pos hc] at hs
    obtain rfl := Option.some.inj hs
    refine .runs i rfl (by simp [hb]) he hr fun j => ?_
    by_cases hj : j = i
    · simp [hj]
    · simpa [at_pc_of_ne _ hj,hj] using hp j
  | runs k hc hb he hr hp => exact absurd ⟨hpc,by omega⟩ hgood
  | after hc hb he hp =>
    rw [if_neg (by rw [hc]; decide)] at hs
    obtain rfl := Option.some.inj hs
    exact .after hc hb he (at_ne_init hp (by decide))

theorem Inv.done (h : Inv s) (hpc : s.pc i = .init) :
    Inv { s.at i .out with ended := s.ended + 1, returned := s.returned + 1 } := by
  cases h with
  | before hc hb he hr hp => exact absurd hpc (hp i)
  | runs k hc hb he hr hp =>
    refine .after hc hb (by simp [he]) fun j => ?_
    obtain rfl := (hp i).mp hpc
    by_cases hj : j = i
    · simp [hj]
    · simpa [at_pc_of_ne _ hj] using (hp j).not.mpr hj
  | after hc hb he hp => exact absurd hpc (hp i)

theorem Inv.step (h : Inv s) {l : Label ι} (hgood : ¬ Late s l) (hs : PthreadOnce.step s l = some t) : Inv t := by
  cases l with
  | call i =>
    obtain ⟨hpc,hs⟩ := Option.ite_none_right_eq_some.mp hs
    obtain rfl := Option.some.inj hs
    exact h.call hpc
  | go i => exact h.go hgood (Option.ite_none_right_eq_some.mp hs).1 hs
  | work i =>
    obtain rfl := Option.some.inj (Option.ite_none_right_eq_some.mp hs).2
    exact h
  | done i =>
    obtain ⟨hpc,hs⟩ := Option.ite_none_right_eq_some.mp hs
    obtain rfl := Option.some.inj hs
    exact h.done hpc

/-- A late call returns while init_routine runs. -/
theorem Late.not_once {l : Label ι} (hlate : Late s l) (h : Inv s) (hs : PthreadOnce.step s l = some t) :
    ¬ t.Once := by
  cases l with
  | go i =>
    obtain ⟨hpc,hrun⟩ := hlate
    cases h with
    | before hc hb he hr hp => omega
    | runs k hc hb he hr hp =>
      rw [PthreadOnce.step,if_pos hpc,if_neg (by rw [hc]; decide)] at hs
      obtain rfl := Option.some.inj hs
      intro ht
      have hended : s.ended = 1 := (ht.returned (Nat.succ_pos _)).2
      omega
    | after hc hb he hp => omega
  | _ => exact hlate.elim

/-- init_routine runs once, before any call returns, in exactly the runs in which no
call tests the control while it runs. -/
theorem once_iff {ls : List (Label ι)} (h : Runs PthreadOnce.step booted ls s) :
    (∀ ms u, ms <+: ls → Runs PthreadOnce.step booted ms u → u.Once) ↔
      Runs (guarded (fun s l => ¬ Late s l) PthreadOnce.step) booted ls s :=
  h.guarded_iff (fun _ hi => hi.once) (fun _ _ _ hi hgood hs => hi.step hgood hs)
    (fun _ _ _ hi hs ht hlate => hlate.not_once hi hs ht) (.before rfl rfl rfl rfl (by simp [booted]))

end Steps

theorem once_two : ∃ s, Runs (guarded (fun s l => ¬ Late s l) step) (booted : Sys Bool)
    [.call true,.go true,.call false,.work true,.done true,.go false] s ∧ s.returned = 2 ∧
    ∀ ms u, ms <+: [.call true,.go true,.call false,.work true,.done true,.go false] →
      Runs step (booted : Sys Bool) ms u → u.Once := by
  refine Runs.exists_of_exec Sys.returned (v := 2) rfl ?_
  intro s hrun hreturned
  exact ⟨hreturned,(once_iff hrun.of_guarded).mpr hrun⟩

/-- The second call does not wait for the first. -/
theorem once_fails : ∃ s, Runs step (booted : Sys Bool) [.call true,.go true,.work true,.call false,.go false] s ∧
    s.pc true = .init ∧ s.pc false = .out ∧ s.returned = 1 ∧ ¬ s.Once := by
  refine Runs.exists_of_exec (fun s => (s.pc true,s.pc false,s.returned,s.ended)) (v := (.init,.out,1,0)) rfl ?_
  intro s _ hend
  obtain ⟨htrue,hend⟩ := Prod.mk.inj hend
  obtain ⟨hfalse,hend⟩ := Prod.mk.inj hend
  obtain ⟨hreturned,hended⟩ := Prod.mk.inj hend
  refine ⟨htrue,hfalse,hreturned,fun h => ?_⟩
  have hone : s.ended = 1 := (h.returned (by omega)).2
  omega

end FmacSdk.PthreadOnce
