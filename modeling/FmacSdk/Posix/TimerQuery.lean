import FmacSdk.Posix.Timer
import Mathlib.Tactic.LinearCombination
import Mathlib.Tactic.Ring

/-! # What timer_gettime reports

The remaining time is a difference of ticks, so callers act at ticks, where the
clock that they read is exact.
-/
namespace FmacSdk.Timers
open Transition TimespecDelta

/-- A timespec can show the ticks: they are whole seconds, or a tick is whole nanoseconds. -/
def Osal.Shows (o : Osal) (n : ℕ) : Prop := n % o.hz = 0 ∨ 1000000000 % o.hz = 0

instance (o : Osal) (n : ℕ) : Decidable (o.Shows n) := inferInstanceAs (Decidable (_ ∨ _))

/-- The old value that timer_settime stores, unless it refuses the new one. -/
def ovalue (o : Osal) (now : ℕ) (t : PosixTimer) (value : Itimerspec) : Option Itimerspec :=
  if Refused o value then none else some (timerGettime o now t)

/-- What a report is for: the interval of the last arming call unless the timer is disarmed
or one-shot, and the time to the next notification. -/
structure Sys.Reported (o : Osal) (s : Sys) (r : Itimerspec) : Prop where
  interval : r.itInterval.ns * o.hz = s.interval
  idle : s.timer.due = none → r.itValue.ns = 0
  remaining : ∀ due, s.timer.due = some due → s.now < due → r.itValue.ns * o.hz = due - s.now
  positive : ∀ due, s.timer.due = some due → s.now < due → 0 < r.itValue.ns
  bounded : ∀ due, s.timer.due = some due → s.now < due → r.itValue.ns * o.hz ≤ max s.value s.interval

/-- timer_settime is called at a tick. -/
def AtTick (s : Sys) : Label → Prop
  | .settime .. => s.now % TICK = 0
  | .wait _ | .expire => True

instance (s : Sys) (l : Label) : Decidable (AtTick s l) :=
  match l with
  | .settime .. => inferInstanceAs (Decidable (_ = _))
  | .wait _ | .expire => isTrue trivial

/-- posix_timer_cb starts the timer again, a timer that was set with a period is disarmed, a
time-out is cut to 32 bits, a period stands for none, or a timespec cannot show the ticks. -/
def Misreports (o : Osal) (s : Sys) : Label → Prop
  | .wait d => (s.now + d) % TICK = 0 ∧ ∃ due ∈ s.timer.due, ¬ o.Shows ((due - (s.now + d)) / TICK)
  | .expire => 0 < s.timer.periodTime
  | .settime flags value cur => ¬ Refused o value ∧
    if TimespecIsZero value.itValue then 0 < s.timer.periodTime
    else if (expiredJiff o flags value (some cur)).2 = 0 then 0 < periodJiff o value
    else 2 ^ 32 ≤ o.osJiffiesToMsecs (expiredJiff o flags value (some cur)).2 ∨
      periodJiff o value = osWaitForever ∨ ¬ o.Shows (periodJiff o value) ∨
      ¬ o.Shows (expiredJiff o flags value (some cur)).2

instance (o : Osal) (s : Sys) (l : Label) : Decidable (Misreports o s l) :=
  match l with
  | .wait _ | .settime .. => inferInstanceAs (Decidable (_ ∧ _))
  | .expire => inferInstanceAs (Decidable (_ < _))

/-- The stamp is the tick at which the timer fires. -/
structure Stamped (s : Sys) (due : ℕ) : Prop where
  stamp : ∃ e, due = e * TICK ∧ s.timer.expiredTime = e % 2 ^ 64
  left : s.now ≤ due
  small : due < s.now + 2 ^ 64 * TICK
  value : due ≤ s.now + s.value

structure Clear (o : Osal) (s : Sys) : Prop where
  period : s.timer.periodTime * TICK = s.interval
  periodic : s.timer.periodTime ≠ osWaitForever
  shownPeriod : o.Shows s.timer.periodTime
  stamped : ∀ due, s.timer.due = some due → Stamped s due
  shown : ∀ due, s.timer.due = some due → s.now % TICK = 0 → o.Shows ((due - s.now) / TICK)

section Reports
variable {o : Osal} {s t : Sys} {p v m n : ℕ}

theorem ofTicks_ns (h : o.Shows n) : (ofTicks o n).ns * o.hz = n * TICK := by
  have hdiv : (o.hz * (n / o.hz) + n % o.hz : ℤ) = n := by
    exact_mod_cast Nat.div_add_mod n o.hz
  have hns : (ofTicks o n).ns = (n / o.hz : ℕ) * 1000000000 + (n % o.hz : ℕ) * (1000000000 / o.hz : ℤ) := rfl
  have htick : (TICK : ℤ) = 1000000000 := rfl
  rw [hns,htick]
  rcases h with hzero | hnano
  · rw [hzero]
    push_cast
    have hmod : (n % o.hz : ℤ) = 0 := by exact_mod_cast hzero
    rw [hmod] at hdiv
    linear_combination 1000000000 * hdiv
  · have hmul : (1000000000 / o.hz : ℤ) * o.hz = 1000000000 := by
      refine Int.ediv_mul_cancel ?_
      exact_mod_cast Nat.dvd_of_mod_eq_zero hnano
    push_cast
    linear_combination 1000000000 * hdiv + (n % o.hz : ℤ) * hmul

/-- The difference of two stamps of 64 bits. -/
theorem stamp_sub {e n : ℕ} (hle : n ≤ e) (hlt : e - n < 2 ^ 64) :
    (e % 2 ^ 64 + 2 ^ 64 - n % 2 ^ 64) % 2 ^ 64 = e - n := by
  omega

theorem Clear.reported (h : Clear o s) (htick : s.now % TICK = 0) : s.Reported o (timerGettime o s.now s.timer) := by
  have hvalue {due : ℕ} (hdue : s.timer.due = some due) :
      (timerGettime o s.now s.timer).itValue.ns * o.hz = due - s.now := by
    obtain ⟨⟨e,he,hstamp⟩,hleft,hsmall,-⟩ := h.stamped due hdue
    have hshown := h.shown due hdue htick
    have hunits : TICK = 1000000000 := rfl
    obtain ⟨n,hn⟩ : ∃ n, s.now = n * TICK := ⟨s.now / TICK,by rw [hunits] at htick ⊢; omega⟩
    have hjiffies : osJiffies s.now = n % 2 ^ 64 := by
      rw [osJiffies,hn,Nat.mul_div_cancel n (by decide)]
    have hle : n ≤ e := by
      rw [he,hn,hunits] at hleft
      omega
    have hlt : e - n < 2 ^ 64 := by
      rw [he,hn,hunits] at hsmall
      omega
    have hticks : (due - s.now) / TICK = e - n := by
      rw [he,hn,hunits]
      omega
    have hget : (timerGettime o s.now s.timer).itValue = ofTicks o (e - n) := by
      rw [timerGettime,hdue,hstamp,hjiffies,stamp_sub hle hlt]
      rfl
    rw [hticks] at hshown
    rw [hget,ofTicks_ns hshown,he,hn]
    push_cast [hle]
    ring
  refine ⟨?_,fun hdue => ?_,fun due hdue _ => hvalue hdue,fun due hdue hlt => ?_,fun due hdue hlt => ?_⟩
  · have hget : (timerGettime o s.now s.timer).itInterval = ofTicks o s.timer.periodTime := if_pos h.periodic
    rw [hget,ofTicks_ns h.shownPeriod,← h.period]
    push_cast
    rfl
  · have hget : (timerGettime o s.now s.timer).itValue = ⟨0,0⟩ := by
      rw [timerGettime,hdue]
      rfl
    rw [hget]
    rfl
  · have heq := hvalue hdue
    have hpos : 0 < (timerGettime o s.now s.timer).itValue.ns * o.hz := by
      rw [heq]
      omega
    exact pos_of_mul_pos_left hpos (Int.natCast_nonneg _)
  · rw [hvalue hdue]
    have hbound := (h.stamped due hdue).value
    have hmax := Nat.le_max_left s.value s.interval
    omega

theorem Clear.disarmed (h : Clear o s) (hperiod : s.timer.periodTime = 0) : Clear o s.disarmed := by
  refine ⟨?_,h.periodic,h.shownPeriod,fun due hdue => ?_,fun due hdue => ?_⟩
  · show s.timer.periodTime * TICK = 0
    rw [hperiod,Nat.zero_mul]
  · simp [Sys.disarmed] at hdue
  · simp [Sys.disarmed] at hdue

/-- The only notification is made at once. -/
theorem clear_past : Clear o (s.past o 0) := by
  have hnone : (s.past o 0).timer.due = none := rfl
  have hperiodic : (0 : ℕ) ≠ osWaitForever := by decide +kernel
  refine ⟨rfl,hperiodic,Or.inl (Nat.zero_mod _),fun due hdue => ?_,fun due hdue => ?_⟩
  · simp [hnone] at hdue
  · simp [hnone] at hdue

theorem clear_created (e : Sigevent) : Clear o (created e) := by
  have hperiodic : (0 : ℕ) ≠ osWaitForever := by decide +kernel
  refine ⟨Nat.zero_mul TICK,hperiodic,Or.inl (Nat.zero_mod _),fun due hdue => ?_,fun due hdue => ?_⟩
  · simp [created] at hdue
  · simp [created] at hdue

theorem clear_armed (htick : s.now % TICK = 0) (hv : v < 2 ^ 64) (hm : v * 1000 = m * o.hz) (hsmall : m < 2 ^ 32)
    (hp : p ≠ osWaitForever) (hshown : o.Shows p) (hshown' : o.Shows v) : Clear o (s.armed o p v m) := by
  have hunits : TICK = 1000000000 := rfl
  have hcut : m % 2 ^ 32 * o.msec = v * TICK := by
    have hmsec : m * o.msec = 1000000 * (m * o.hz) := Nat.mul_left_comm ..
    rw [Nat.mod_eq_of_lt hsmall,hmsec,← hm,hunits]
    omega
  have hdue {due : ℕ} (hdue : (s.armed o p v m).timer.due = some due) : due = s.now + v * TICK := by
    rw [← hcut]
    exact (Option.some.inj hdue).symm
  refine ⟨rfl,hp,hshown,fun due h => ?_,fun due h _ => ?_⟩
  · obtain rfl := hdue h
    refine ⟨⟨s.now / TICK + v,?_,?_⟩,Nat.le_add_right ..,?_,le_rfl⟩
    · rw [hunits] at htick ⊢
      omega
    · show (s.now / TICK % 2 ^ 64 + v) % 2 ^ 64 = _
      rw [Nat.mod_add_mod]
    · show s.now + v * TICK < s.now + 2 ^ 64 * TICK
      rw [hunits]
      omega
  · obtain rfl := hdue h
    have hticks : (s.now + v * TICK - s.now) / TICK = v := by
      rw [Nat.add_sub_cancel_left,Nat.mul_div_cancel v (by decide)]
    show o.Shows ((s.now + v * TICK - s.now) / TICK)
    rwa [hticks]

/-- The timer has fired and is not started again. -/
theorem Clear.expired (h : Clear o s) (hperiod : s.timer.periodTime = 0) (hs : step o s .expire = some t) : Clear o t := by
  obtain ⟨-,hs⟩ := Option.ite_none_right_eq_some.mp hs
  have htimer : posixTimerCb o s.now { s.timer with due := none } = { s.timer with due := none } := by
    rw [posixTimerCb,if_neg (by simp [hperiod])]
  rw [htimer] at hs
  have hfields : t.timer = { s.timer with due := none } ∧ t.interval = s.interval := by
    obtain rfl := Option.some.inj hs
    split_ifs <;> exact ⟨rfl,rfl⟩
  obtain ⟨htimer,hinterval⟩ := hfields
  refine ⟨?_,?_,?_,fun due hdue => ?_,fun due hdue => ?_⟩
  · rw [htimer,hinterval]
    exact h.period
  · rw [htimer]
    exact h.periodic
  · rw [htimer]
    exact h.shownPeriod
  · simp [htimer] at hdue
  · simp [htimer] at hdue

theorem Clear.wait (h : Clear o s) {d : ℕ} (hgood : ¬ Misreports o s (.wait d))
    (hs : step o s (.wait d) = some t) : Clear o t := by
  obtain ⟨hleft,hs⟩ := Option.ite_none_right_eq_some.mp hs
  obtain rfl := Option.some.inj hs
  refine ⟨h.period,h.periodic,h.shownPeriod,fun due hdue => ?_,fun due hdue htick => ?_⟩
  · obtain ⟨hstamp,-,hsmall,hvalue⟩ := h.stamped due hdue
    have hle := hleft due hdue
    refine ⟨hstamp,hle,?_,?_⟩
    · show due < s.now + d + 2 ^ 64 * TICK
      omega
    · show due ≤ s.now + d + s.value
      omega
  · by_contra hshown
    exact hgood ⟨htick,due,hdue,hshown⟩

theorem Clear.step (h : Clear o s) {l : Label} (htick : AtTick s l) (hgood : ¬ Misreports o s l)
    (hs : Timers.step o s l = some t) : Clear o t := by
  cases l with
  | wait d => exact h.wait hgood hs
  | expire => exact h.expired (Nat.eq_zero_of_not_pos hgood) hs
  | settime flags value cur =>
    obtain ⟨hconv,hs⟩ := Option.ite_none_right_eq_some.mp hs
    obtain rfl := Option.some.inj hs
    rcases settime_cases (s := s) hconv with
      ⟨-,heq⟩ | ⟨hrefused,hzero,heq⟩ | ⟨hrefused,hzero,⟨hv,heq⟩ | ⟨v,m,hv,hpos,hsmall,hmsecs,hm,heq⟩⟩
    · rwa [heq]
    · have hperiod : ¬ 0 < s.timer.periodTime := by
        intro hpos
        refine hgood ⟨hrefused,?_⟩
        rwa [if_pos hzero]
      rw [heq]
      exact h.disarmed (Nat.eq_zero_of_not_pos hperiod)
    · have hperiod : ¬ 0 < periodJiff o value := by
        intro hpos
        refine hgood ⟨hrefused,?_⟩
        rwa [if_neg hzero,if_pos hv]
      rw [heq,Nat.eq_zero_of_not_pos hperiod]
      exact clear_past
    · have hfine : ¬ (2 ^ 32 ≤ m ∨ periodJiff o value = osWaitForever ∨ ¬ o.Shows (periodJiff o value) ∨ ¬ o.Shows v) := by
        intro hbad
        refine hgood ⟨hrefused,?_⟩
        rwa [if_neg hzero,hv,if_neg hpos.ne',hmsecs]
      push Not at hfine
      rw [heq]
      exact clear_armed htick hsmall hm hfine.1 hfine.2.1 hfine.2.2.1 hfine.2.2.2

/-- In the runs in which no step leads to a wrong report, all reports at ticks are right, also
those of timer_settime. -/
theorem reported_run {e : Sigevent} {ls : List Label}
    (h : Runs (guarded (fun s l => AtTick s l ∧ ¬ Misreports o s l) (Timers.step o)) (created e) ls s)
    (htick : s.now % TICK = 0) : s.Reported o (timerGettime o s.now s.timer) ∧
      ∀ value, ∀ r ∈ ovalue o s.now s.timer value, s.Reported o r := by
  have hclear : Clear o s :=
    h.guarded_invariant (fun _ _ _ hi hgood hs => hi.step hgood.1 hgood.2 hs) (clear_created e)
  have hreported := hclear.reported htick
  refine ⟨hreported,fun value r hr => ?_⟩
  obtain ⟨-,hr⟩ := Option.ite_none_left_eq_some.mp hr
  obtain rfl := Option.some.inj hr
  exact hreported

end Reports

/-- A one-shot timer is asked on its way. -/
theorem reported_oneShot : ∃ s, Runs (guarded (fun s l => AtTick s l ∧ ¬ Misreports (exact 1000 (by decide)) s l)
      (step (exact 1000 (by decide)))) (created event) [.settime 0 (setting 10 0) ⟨0,0⟩,.wait 3000000000] s ∧
    (timerGettime (exact 1000 (by decide)) s.now s.timer).itValue.ns = 7000000 ∧
    s.Reported (exact 1000 (by decide)) (timerGettime (exact 1000 (by decide)) s.now s.timer) := by
  refine Runs.exists_of_exec (fun s => (s.now,(timerGettime (exact 1000 (by decide)) s.now s.timer).itValue.ns))
    (v := (3000000000,7000000)) (by decide +kernel) ?_
  intro s hrun hget
  obtain ⟨hnow,hvalue⟩ := Prod.mk.inj hget
  exact ⟨hvalue,(reported_run hrun (by rw [hnow]; decide)).1⟩

/-- A periodic timer that has fired reports no remaining time, then 2 ^ 64 - 1 ticks, and one
that is disarmed reports its old interval. -/
theorem reported_fails :
    (∃ s, Runs (step (exact 1000 (by decide))) (created event)
        [.settime 0 (setting 10 20) ⟨0,0⟩,.wait 10000000000,.expire] s ∧
      s.timer.due = some (s.now + 20000000000) ∧
      (timerGettime (exact 1000 (by decide)) s.now s.timer).itValue.ns = 0 ∧
      ¬ s.Reported (exact 1000 (by decide)) (timerGettime (exact 1000 (by decide)) s.now s.timer)) ∧
    (∃ s, Runs (step (exact 1000 (by decide))) (created event)
        [.settime 0 (setting 10 20) ⟨0,0⟩,.wait 10000000000,.expire,.wait 1000000000] s ∧
      (timerGettime (exact 1000 (by decide)) s.now s.timer).itValue.ns = (2 ^ 64 - 1) * 1000000) ∧
    ∃ s, Runs (step (exact 1000 (by decide))) (created event)
        [.settime 0 (setting 10 20) ⟨0,0⟩,.settime 0 (setting 0 0) ⟨0,0⟩] s ∧ s.timer.due = none ∧
      (timerGettime (exact 1000 (by decide)) s.now s.timer).itInterval.ns = 20000000 ∧
      ¬ s.Reported (exact 1000 (by decide)) (timerGettime (exact 1000 (by decide)) s.now s.timer) := by
  refine ⟨?_,?_,?_⟩
  · refine Runs.exists_of_exec (fun s => (s.now,s.timer.due,
      (timerGettime (exact 1000 (by decide)) s.now s.timer).itValue.ns))
      (v := (10000000000,some 30000000000,0)) (by decide +kernel) ?_
    intro s _ hget
    obtain ⟨hnow,hget⟩ := Prod.mk.inj hget
    obtain ⟨hdue,hvalue⟩ := Prod.mk.inj hget
    refine ⟨by rw [hnow]; exact hdue,hvalue,fun h => ?_⟩
    have hpos := h.positive _ hdue (by rw [hnow]; decide)
    omega
  · refine Runs.exists_of_exec (fun s => (timerGettime (exact 1000 (by decide)) s.now s.timer).itValue.ns)
      (v := (2 ^ 64 - 1) * 1000000) (by decide +kernel) ?_
    intro s _ hvalue
    exact hvalue
  · refine Runs.exists_of_exec (fun s => (s.timer.due,s.interval,
      (timerGettime (exact 1000 (by decide)) s.now s.timer).itInterval.ns)) (v := (none,0,20000000)) (by decide +kernel) ?_
    intro s _ hget
    obtain ⟨hdue,hget⟩ := Prod.mk.inj hget
    obtain ⟨hinterval,hreport⟩ := Prod.mk.inj hget
    refine ⟨hdue,hreport,fun h => ?_⟩
    have heq := h.interval
    rw [hreport,hinterval] at heq
    exact absurd heq (by decide)

end FmacSdk.Timers
