import FmacSdk.Common.Errno
import FmacSdk.Foundation.Transition
import Mathlib.Data.Int.Order.Basic
import Mathlib.Order.Nat

/-! # Barriers

Calls of pthread_barrier_wait on a barrier that pthread_barrier_init set to a count.
Its mutex and its condition variable are correct, but a wait may end by itself.
-/
namespace FmacSdk.PthreadBarrier
open Transition
variable {ι : Type*}

/-- The next statement of a thread. -/
inductive Pc
  | out
  | enter
  | test
  | last
  | broadcast
  | wait
  | blocked (woken : Bool)
  | unlock (result : ℤ)
deriving DecidableEq

/-- A call has a turn once it has the mutex, and leaves it with its result. -/
structure Sys (ι : Type*) where
  count : ℤ
  mutex : Option ι
  pc : ι → Pc
  turn : ι → ℕ
  arrivals : ℕ
  returned : List (ℕ × ℤ)

/-- A call, a statement, and a wait that ends by itself. -/
inductive Label (ι : Type*)
  | call (i : ι)
  | go (i : ι)
  | expire (i : ι)

def Pc.awake : Pc → Pc
  | .blocked _ => .blocked true
  | p => p

def Pc.locked : Pc → Bool
  | .test | .last | .broadcast | .wait | .unlock _ => true
  | .out | .enter | .blocked _ => false

section Code
variable [DecidableEq ι]

def Sys.at (s : Sys ι) (i : ι) (p : Pc) : Sys ι := { s with pc := Function.update s.pc i p }

/-- os_mutex_lock -/
def Sys.acquire (s : Sys ι) (i : ι) (p : Pc) : Option (Sys ι) :=
  if s.mutex = none then some { s.at i p with mutex := some i } else none

/-- The statement of thread `i`. -/
def Sys.go (s : Sys ι) (i : ι) : Pc → Option (Sys ι)
  | .out => none
  | .enter => s.acquire i .test
  | .test =>
    some { s.at i (if s.count = 0 then .unlock EINVAL else .last) with
      count := if s.count = 0 then s.count else s.count - 1
      turn := Function.update s.turn i s.arrivals
      arrivals := s.arrivals + 1 }
  | .last => some (s.at i (if s.count = 0 then .broadcast else .wait))
  | .broadcast => some (Sys.at { s with pc := fun j => (s.pc j).awake } i (.unlock 0))
  | .wait => some { s.at i (.blocked false) with mutex := none }
  | .blocked false => none
  | .blocked true => s.acquire i (.unlock 0)
  | .unlock r => some { s.at i .out with mutex := none, returned := (s.turn i,r) :: s.returned }

def step (s : Sys ι) : Label ι → Option (Sys ι)
  | .call i => if s.pc i = .out then some (s.at i .enter) else none
  | .go i => s.go i (s.pc i)
  | .expire i => if s.pc i = .blocked false then some (s.at i (.blocked true)) else none

end Code

/-- pthread_barrier_init -/
def init (n : ℕ) : Sys ι := ⟨n,none,fun _ => .out,fun _ => 0,0,[]⟩

/-- A call has returned its result, or is past the barrier and returns it next. -/
def Sys.Passed (s : Sys ι) (k : ℕ) (r : ℤ) : Prop :=
  (k,r) ∈ s.returned ∨ ∃ i, s.pc i = .unlock r ∧ s.turn i = k

/-- The calls go in rounds of `n`: none passes before its round is complete, nobody
sleeps on when it is, and all succeed. -/
structure Sys.Rounds (n : ℕ) (s : Sys ι) : Prop where
  early : ∀ k r, s.Passed k r → (k / n + 1) * n ≤ s.arrivals
  success : ∀ k r, s.Passed k r → r = 0
  released : s.mutex = none → ∀ i, s.pc i = .blocked false → s.arrivals < (s.turn i / n + 1) * n

/-- A call finds the count used up, or returns from its wait before it is. -/
def Strays (s : Sys ι) : Label ι → Prop
  | .go i => (s.pc i = .test ∧ s.count = 0) ∨ (s.pc i = .blocked true ∧ s.count ≠ 0)
  | .call _ | .expire _ => False

instance (s : Sys ι) (l : Label ι) : Decidable (Strays s l) :=
  match l with
  | .go _ => inferInstanceAs (Decidable (_ ∨ _))
  | .call _ | .expire _ => isFalse id

/-- The call has its turn. -/
def Pc.placed : Pc → Bool
  | .last | .broadcast | .wait | .blocked _ | .unlock _ => true
  | .out | .enter | .test => false

/-- The call will broadcast, if the count is used up. -/
def Pc.rouses (p : Pc) : Prop := p = .last ∨ p = .broadcast

structure Inv (n : ℕ) (s : Sys ι) : Prop where
  mutex : ∀ i, (s.pc i).locked = true ↔ s.mutex = some i
  count : s.arrivals + s.count = n
  nonneg : 0 ≤ s.count
  returned : ∀ k r, (k,r) ∈ s.returned → r = 0 ∧ s.count = 0 ∧ k < s.arrivals
  unlock : ∀ i r, s.pc i = .unlock r → r = 0 ∧ s.count = 0
  broadcast : ∀ i, s.pc i = .broadcast → s.count = 0
  wait : ∀ i, s.pc i = .wait → 0 < s.count
  turn : ∀ i, (s.pc i).placed = true → s.turn i < s.arrivals
  asleep : ∀ i, s.pc i = .blocked false → 0 < s.count ∨ ∃ j, (s.pc j).rouses

theorem Inv.init (n : ℕ) : Inv n (init n : Sys ι) := by
  constructor <;> simp [PthreadBarrier.init,Pc.locked,Pc.placed]

theorem round_of_lt {n k : ℕ} (h : k < n) : (k / n + 1) * n = n := by
  rw [Nat.div_eq_of_lt h,Nat.zero_add,Nat.one_mul]

variable {n : ℕ} {s t : Sys ι} {i j : ι} {p : Pc}

theorem Inv.passed (h : Inv n s) {k : ℕ} {r : ℤ} (hp : s.Passed k r) : r = 0 ∧ s.count = 0 ∧ k < s.arrivals := by
  rcases hp with hmem | ⟨i,hpc,rfl⟩
  · exact h.returned k r hmem
  · obtain ⟨hr,hcount⟩ := h.unlock i r hpc
    exact ⟨hr,hcount,h.turn i (by rw [hpc]; rfl)⟩

theorem Inv.rounds (h : Inv n s) : s.Rounds n := by
  have hcount := h.count
  have hnonneg := h.nonneg
  constructor
  · intro k r hp
    obtain ⟨-,hzero,hk⟩ := h.passed hp
    rw [round_of_lt (by omega)]
    omega
  · exact fun k r hp => (h.passed hp).1
  · intro hfree i hpc
    have hturn := h.turn i (by rw [hpc]; rfl)
    have hpos : 0 < s.count := by
      rcases h.asleep i hpc with hpos | ⟨j,hj⟩
      · exact hpos
      · have hlocked : (s.pc j).locked = true := by rcases hj with hj | hj <;> rw [hj] <;> rfl
        rw [h.mutex,hfree] at hlocked
        simp at hlocked
    rw [round_of_lt (by omega)]
    omega

section Steps
variable [DecidableEq ι]

/-- Thread `i` moves and touches the count only if it has the mutex. -/
structure Move (n : ℕ) (s t : Sys ι) (i : ι) (p : Pc) : Prop where
  pc : t.pc = Function.update s.pc i p
  mutex : p.locked = true ↔ t.mutex = some i
  others : ∀ j, j ≠ i → (t.mutex = some j ↔ s.mutex = some j)
  count : t.arrivals + t.count = n
  nonneg : 0 ≤ t.count
  keep : (s.pc i).locked = true ∨ t.count = s.count
  arrivals : s.arrivals ≤ t.arrivals
  turns : ∀ j, j ≠ i → t.turn j = s.turn j
  returned : ∀ k r, (k,r) ∈ t.returned → r = 0 ∧ t.count = 0 ∧ k < t.arrivals
  unlock : ∀ r, p = .unlock r → r = 0 ∧ t.count = 0
  broadcast : p = .broadcast → t.count = 0
  wait : p = .wait → 0 < t.count
  turn : p.placed = true → t.turn i < t.arrivals
  asleep : p = .blocked false → 0 < t.count
  rouse : (∃ j, j ≠ i ∧ s.pc j = .blocked false) → 0 < s.count ∨ (s.pc i).rouses → 0 < t.count ∨ p.rouses

theorem Inv.move (h : Inv n s) (m : Move n s t i p) : Inv n t := by
  have hself : t.pc i = p := by rw [m.pc,Function.update_self]
  have hother {j : ι} (hj : j ≠ i) : t.pc j = s.pc j := by rw [m.pc,Function.update_of_ne hj]
  have hkeep {j : ι} (hj : j ≠ i) (hlocked : (s.pc j).locked = true) : t.count = s.count := by
    refine m.keep.resolve_left fun hmine => ?_
    rw [h.mutex] at hlocked hmine
    exact hj (Option.some.inj (hlocked.symm.trans hmine))
  constructor
  · intro j
    by_cases hj : j = i
    · rw [hj,hself,m.mutex]
    · rw [hother hj,h.mutex,m.others j hj]
  · exact m.count
  · exact m.nonneg
  · exact m.returned
  · intro j r hpc
    by_cases hj : j = i
    · rw [hj,hself] at hpc
      exact m.unlock r hpc
    · rw [hother hj] at hpc
      rw [hkeep hj (by rw [hpc]; rfl)]
      exact h.unlock j r hpc
  · intro j hpc
    by_cases hj : j = i
    · rw [hj,hself] at hpc
      exact m.broadcast hpc
    · rw [hother hj] at hpc
      rw [hkeep hj (by rw [hpc]; rfl)]
      exact h.broadcast j hpc
  · intro j hpc
    by_cases hj : j = i
    · rw [hj,hself] at hpc
      exact m.wait hpc
    · rw [hother hj] at hpc
      rw [hkeep hj (by rw [hpc]; rfl)]
      exact h.wait j hpc
  · intro j hplaced
    by_cases hj : j = i
    · rw [hj,hself] at hplaced
      exact hj ▸ m.turn hplaced
    · rw [hother hj] at hplaced
      rw [m.turns j hj]
      exact (h.turn j hplaced).trans_le m.arrivals
  · intro j hpc
    by_cases hj : j = i
    · rw [hj,hself] at hpc
      exact Or.inl (m.asleep hpc)
    · rw [hother hj] at hpc
      have hdone (hbefore : 0 < s.count ∨ (s.pc i).rouses) : 0 < t.count ∨ ∃ k, (t.pc k).rouses :=
        (m.rouse ⟨j,hj,hpc⟩ hbefore).imp_right fun hp => ⟨i,hself ▸ hp⟩
      rcases h.asleep j hpc with hpos | ⟨k,hk⟩
      · exact hdone (Or.inl hpos)
      · by_cases hki : k = i
        · exact hdone (Or.inr (hki ▸ hk))
        · exact Or.inr ⟨k,by rw [hother hki]; exact hk⟩

/-- The thread changes nothing but its place and its part of the mutex. -/
theorem Inv.quiet (h : Inv n s) (hpc : t.pc = Function.update s.pc i p)
    (hmutex : p.locked = true ↔ t.mutex = some i) (hothers : ∀ j, j ≠ i → (t.mutex = some j ↔ s.mutex = some j))
    (hsame : t.count = s.count ∧ t.arrivals = s.arrivals ∧ t.turn = s.turn ∧ t.returned = s.returned)
    (hunlock : ∀ r, p = .unlock r → r = 0 ∧ s.count = 0) (hbroadcast : p = .broadcast → s.count = 0)
    (hwait : p = .wait → 0 < s.count) (hplaced : p.placed = true → (s.pc i).placed = true)
    (hasleep : p = .blocked false → 0 < s.count) (hrouse : (s.pc i).rouses → 0 < s.count ∨ p.rouses) : Inv n t := by
  obtain ⟨hcount,harrivals,hturn,hreturned⟩ := hsame
  refine h.move (i := i) (p := p) ⟨hpc,hmutex,hothers,?_,?_,Or.inr hcount,harrivals.ge,?_,?_,?_,?_,?_,?_,?_,?_⟩
  · rw [hcount,harrivals,h.count]
  · rw [hcount]
    exact h.nonneg
  · exact fun j _ => congrFun hturn j
  · rw [hcount,harrivals,hreturned]
    exact h.returned
  · rwa [hcount]
  · rwa [hcount]
  · rwa [hcount]
  · rw [hturn,harrivals]
    exact fun hp => h.turn i (hplaced hp)
  · rwa [hcount]
  · rw [hcount]
    exact fun _ hbefore => hbefore.elim Or.inl hrouse

theorem awake_eq {q : Pc} (h : p.awake = q) (hq : ∀ b, q ≠ .blocked b) : p = q := by
  cases p with
  | blocked b => exact absurd h.symm (hq true)
  | _ => exact h

theorem awake_ne : p.awake ≠ .blocked false := by
  cases p <;> simp [Pc.awake]

omit [DecidableEq ι] in
theorem Inv.awake (h : Inv n s) : Inv n { s with pc := fun j => (s.pc j).awake } where
  mutex i := by
    have hlocked : (s.pc i).awake.locked = (s.pc i).locked := by cases s.pc i <;> rfl
    rw [hlocked]
    exact h.mutex i
  count := h.count
  nonneg := h.nonneg
  returned := h.returned
  unlock i r hpc := h.unlock i r (awake_eq hpc (by simp))
  broadcast i hpc := h.broadcast i (awake_eq hpc (by simp))
  wait i hpc := h.wait i (awake_eq hpc (by simp))
  turn i hplaced := h.turn i (by cases hpc : s.pc i <;> simp_all [Pc.awake,Pc.placed])
  asleep i hpc := absurd hpc awake_ne

theorem Inv.acquire (h : Inv n s) (hlocked : p.locked = true)
    (hunlock : ∀ r, p = .unlock r → r = 0 ∧ s.count = 0) (hbroadcast : p ≠ .broadcast) (hwait : p ≠ .wait)
    (hplaced : p.placed = true → (s.pc i).placed = true) (hrouse : ¬ (s.pc i).rouses)
    (ht : s.acquire i p = some t) : Inv n t := by
  obtain ⟨hfree,ht⟩ := Option.ite_none_right_eq_some.mp ht
  obtain rfl := Option.some.inj ht
  refine h.quiet rfl (by simp [hlocked]) (fun j hj => by simp [hfree,Ne.symm hj]) ⟨rfl,rfl,rfl,rfl⟩ hunlock
    (fun hp => absurd hp hbroadcast) (fun hp => absurd hp hwait) hplaced (fun hp => ?_) (fun hp => absurd hp hrouse)
  simp [hp,Pc.locked] at hlocked

theorem Inv.arrive (h : Inv n s) (hpc : s.pc i = .test) (hne : s.count ≠ 0) :
    Inv n { s.at i .last with
      count := s.count - 1, turn := Function.update s.turn i s.arrivals, arrivals := s.arrivals + 1 } := by
  have hcount := h.count
  have hnonneg := h.nonneg
  have hmine : (s.pc i).locked = true := by rw [hpc]; rfl
  refine h.move (i := i) (p := .last) { pc := rfl
                                        mutex := iff_of_true rfl ((h.mutex i).mp hmine)
                                        others := fun _ _ => Iff.rfl
                                        count := ?_
                                        nonneg := ?_
                                        keep := Or.inl hmine
                                        arrivals := Nat.le_succ _
                                        turns := fun j hj => Function.update_of_ne hj ..
                                        returned := fun k r hp => absurd (h.returned k r hp).2.1 hne
                                        unlock := by simp
                                        broadcast := by simp
                                        wait := by simp
                                        turn := by simp
                                        asleep := by simp
                                        rouse := fun _ _ => Or.inr (Or.inl rfl) }
  · push_cast
    omega
  · have hpred : 0 ≤ s.count - 1 := by omega
    exact hpred

theorem Inv.leave (h : Inv n s) {r : ℤ} (hpc : s.pc i = .unlock r) :
    Inv n { s.at i .out with mutex := none, returned := (s.turn i,r) :: s.returned } := by
  obtain ⟨hr,hzero⟩ := h.unlock i r hpc
  have hturn := h.turn i (by rw [hpc]; rfl)
  have hmutex : s.mutex = some i := (h.mutex i).mp (by rw [hpc]; rfl)
  refine h.move (i := i) (p := .out) { pc := rfl
                                       mutex := by simp [Pc.locked]
                                       others := fun j hj => by simp [hmutex,Ne.symm hj]
                                       count := h.count
                                       nonneg := h.nonneg
                                       keep := Or.inr rfl
                                       arrivals := le_rfl
                                       turns := fun _ _ => rfl
                                       returned := fun k q hp => ?_
                                       unlock := by simp
                                       broadcast := by simp
                                       wait := by simp
                                       turn := by simp [Pc.placed]
                                       asleep := by simp
                                       rouse := fun _ hb => Or.inl (hb.resolve_right (by simp [hpc,Pc.rouses])) }
  rcases List.mem_cons.mp hp with heq | hmem
  · obtain ⟨rfl,rfl⟩ := Prod.mk.inj heq
    exact ⟨hr,hzero,hturn⟩
  · exact h.returned k q hmem

theorem Inv.go (h : Inv n s) (hgood : ¬ Strays s (.go i)) (hgo : s.go i (s.pc i) = some t) : Inv n t := by
  cases hpc : s.pc i with
  | out => simp [hpc,Sys.go] at hgo
  | enter =>
    rw [hpc] at hgo
    exact h.acquire rfl (by simp) (by simp) (by simp) (by simp [Pc.placed]) (by simp [hpc,Pc.rouses]) hgo
  | test =>
    have hne : s.count ≠ 0 := fun hzero => hgood (Or.inl ⟨hpc,hzero⟩)
    rw [hpc,Sys.go,if_neg hne,if_neg hne] at hgo
    obtain rfl := Option.some.inj hgo
    exact h.arrive hpc hne
  | last =>
    rw [hpc] at hgo
    obtain rfl := Option.some.inj hgo
    have hmutex : s.mutex = some i := (h.mutex i).mp (by rw [hpc]; rfl)
    have hnonneg := h.nonneg
    split_ifs with hzero
    · exact h.quiet rfl (iff_of_true rfl hmutex) (fun _ _ => Iff.rfl) ⟨rfl,rfl,rfl,rfl⟩ (by simp) (fun _ => hzero)
        (by simp) (by simp [hpc,Pc.placed]) (by simp) (fun _ => Or.inr (Or.inr rfl))
    · have hpos : 0 < s.count := by omega
      exact h.quiet rfl (iff_of_true rfl hmutex) (fun _ _ => Iff.rfl) ⟨rfl,rfl,rfl,rfl⟩ (by simp) (by simp)
        (fun _ => hpos) (by simp [hpc,Pc.placed]) (by simp) (fun _ => Or.inl hpos)
  | broadcast =>
    rw [hpc] at hgo
    obtain rfl := Option.some.inj hgo
    have hzero := h.broadcast i hpc
    have hmutex : s.mutex = some i := (h.mutex i).mp (by rw [hpc]; rfl)
    have hpc' : (s.pc i).awake = .broadcast := by rw [hpc]; rfl
    have hturn := h.turn i (by rw [hpc]; rfl)
    exact h.awake.move (i := i) (p := .unlock 0) { pc := rfl
                                                   mutex := iff_of_true rfl hmutex
                                                   others := fun _ _ => Iff.rfl
                                                   count := h.count
                                                   nonneg := h.nonneg
                                                   keep := Or.inr rfl
                                                   arrivals := le_rfl
                                                   turns := fun _ _ => rfl
                                                   returned := h.returned
                                                   unlock := fun r hr => ⟨(Pc.unlock.inj hr).symm,hzero⟩
                                                   broadcast := by simp
                                                   wait := by simp
                                                   turn := fun _ => hturn
                                                   asleep := by simp
                                                   rouse := fun ⟨j,_,hj⟩ => absurd hj awake_ne }
  | wait =>
    rw [hpc] at hgo
    obtain rfl := Option.some.inj hgo
    have hmutex : s.mutex = some i := (h.mutex i).mp (by rw [hpc]; rfl)
    exact h.quiet rfl (by simp [Pc.locked]) (fun j hj => by simp [hmutex,Ne.symm hj]) ⟨rfl,rfl,rfl,rfl⟩ (by simp)
      (by simp) (by simp) (by simp [hpc,Pc.placed]) (fun _ => h.wait i hpc) (by simp [hpc,Pc.rouses])
  | blocked woken =>
    rw [hpc] at hgo
    cases woken with
    | false => simp [Sys.go] at hgo
    | true =>
      have hzero : s.count = 0 := by
        by_contra hne
        exact hgood (Or.inr ⟨hpc,hne⟩)
      exact h.acquire rfl (fun r hr => ⟨(Pc.unlock.inj hr).symm,hzero⟩) (by simp) (by simp)
        (by simp [hpc,Pc.placed]) (by simp [hpc,Pc.rouses]) hgo
  | unlock r =>
    rw [hpc] at hgo
    obtain rfl := Option.some.inj hgo
    exact h.leave hpc

theorem Inv.outside (h : Inv n s) (hpc : (s.pc i).locked = false) (hp : p.locked = false)
    (hplaced : p.placed = true → (s.pc i).placed = true) (hasleep : p ≠ .blocked false) : Inv n (s.at i p) := by
  have hmutex : s.mutex ≠ some i := by
    rw [Ne,← h.mutex,hpc]
    simp
  refine h.quiet rfl (iff_of_false (by simp [hp]) hmutex) (fun _ _ => Iff.rfl) ⟨rfl,rfl,rfl,rfl⟩ ?_ ?_ ?_ hplaced
    (fun hb => absurd hb hasleep) ?_
  · rintro r rfl
    simp [Pc.locked] at hp
  · rintro rfl
    simp [Pc.locked] at hp
  · rintro rfl
    simp [Pc.locked] at hp
  · rintro (hr | hr) <;> simp [hr,Pc.locked] at hpc

theorem Inv.step (h : Inv n s) {l : Label ι} (hgood : ¬ Strays s l) (hs : PthreadBarrier.step s l = some t) :
    Inv n t := by
  cases l with
  | call i =>
    obtain ⟨hpc,hs⟩ := Option.ite_none_right_eq_some.mp hs
    obtain rfl := Option.some.inj hs
    exact h.outside (by rw [hpc]; rfl) rfl (by simp [Pc.placed]) (by simp)
  | go i => exact h.go hgood hs
  | expire i =>
    obtain ⟨hpc,hs⟩ := Option.ite_none_right_eq_some.mp hs
    obtain rfl := Option.some.inj hs
    exact h.outside (by rw [hpc]; rfl) rfl (by simp [hpc,Pc.placed]) (by simp)

/-- A call that strays fails, or passes too early. -/
theorem Strays.not_rounds {l : Label ι} (hl : Strays s l) (h : Inv n s) (hs : PthreadBarrier.step s l = some t) :
    ¬ t.Rounds n := by
  cases l with
  | go i =>
    rw [PthreadBarrier.step] at hs
    intro ht
    rcases hl with ⟨hpc,hzero⟩ | ⟨hpc,hne⟩
    · rw [hpc,Sys.go,if_pos hzero,if_pos hzero] at hs
      obtain rfl := Option.some.inj hs
      have hfail := ht.success s.arrivals EINVAL (Or.inr ⟨i,Function.update_self ..,Function.update_self ..⟩)
      simp [EINVAL] at hfail
    · rw [hpc,Sys.go] at hs
      obtain rfl := Option.some.inj (Option.ite_none_right_eq_some.mp hs).2
      have hcount := h.count
      have hnonneg := h.nonneg
      have hturn := h.turn i (by rw [hpc]; rfl)
      have hearly : (s.turn i / n + 1) * n ≤ s.arrivals :=
        ht.early (s.turn i) 0 (Or.inr ⟨i,Function.update_self ..,rfl⟩)
      rw [round_of_lt (by omega)] at hearly
      omega
  | _ => exact hl.elim

/-- Calls on a barrier go in rounds in exactly the runs in which none finds the count
used up or returns from its wait before it is. -/
theorem rounds_iff {ls : List (Label ι)} (h : Runs PthreadBarrier.step (PthreadBarrier.init n) ls s) :
    (∀ ms u, ms <+: ls → Runs PthreadBarrier.step (PthreadBarrier.init n) ms u → u.Rounds n) ↔
      Runs (guarded (fun s l => ¬ Strays s l) PthreadBarrier.step) (PthreadBarrier.init n) ls s :=
  h.guarded_iff (fun _ hi => hi.rounds) (fun _ _ _ hi hgood hs => hi.step hgood hs)
    (fun _ _ _ hi hs ht hl => hl.not_rounds hi hs ht) (Inv.init n)

end Steps

/-- Two threads meet. -/
def meeting : List (Label Bool) :=
  [.call true,.go true,.go true,.go true,.go true,.call false,.go false,.go false,.go false,.go false,.go false,
    .go true,.go true]

theorem rounds_meeting : ∃ s, Runs (guarded (fun s l => ¬ Strays s l) step) (init 2 : Sys Bool) meeting s ∧
    s.returned = [(0,0),(1,0)] ∧
    ∀ ms u, ms <+: meeting → Runs step (init 2 : Sys Bool) ms u → u.Rounds 2 := by
  refine Runs.exists_of_exec Sys.returned (v := [(0,0),(1,0)]) rfl ?_
  intro s hrun hreturned
  exact ⟨hreturned,(rounds_iff hrun.of_guarded).mpr hrun⟩

/-- A third call fails, and a call returns from a wait that ended by itself. -/
theorem rounds_fail :
    (∃ s, Runs step (init 2 : Sys Bool) (meeting ++ [.call true,.go true,.go true,.go true]) s ∧
      s.returned = [(2,EINVAL),(0,0),(1,0)] ∧ ¬ s.Rounds 2) ∧
    ∃ s, Runs step (init 2 : Sys Bool) [.call true,.go true,.go true,.go true,.go true,.expire true,.go true,.go true] s ∧
      s.returned = [(0,0)] ∧ s.arrivals = 1 ∧ ¬ s.Rounds 2 := by
  constructor
  · refine Runs.exists_of_exec Sys.returned (v := [(2,EINVAL),(0,0),(1,0)]) rfl ?_
    intro s _ hreturned
    refine ⟨hreturned,fun h => ?_⟩
    have hfail := h.success 2 EINVAL (Or.inl (by simp [hreturned]))
    simp [EINVAL] at hfail
  · refine Runs.exists_of_exec (fun s => (s.returned,s.arrivals)) (v := ([(0,0)],1)) rfl ?_
    intro s _ hend
    obtain ⟨hreturned,harrivals⟩ := Prod.mk.inj hend
    refine ⟨hreturned,harrivals,fun h => ?_⟩
    have hearly := h.early 0 0 (Or.inl (by simp [hreturned]))
    omega

end FmacSdk.PthreadBarrier
