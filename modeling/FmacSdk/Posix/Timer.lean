import FmacSdk.Common.Errno
import FmacSdk.Foundation.Transition
import FmacSdk.Posix.TimespecDelta
import Mathlib.Tactic.Linarith

/-! # Timers

timer_settime arms an os_timer, which fires once, and posix_timer_cb notifies and
arms it again. Time is counted in parts of which a tick has TICK and a nanosecond
OS_HZ, so that ticks, milliseconds and nanoseconds are whole at every tick rate.
-/
namespace FmacSdk.Timers
open Transition TimespecDelta

def TICK : ℕ := 1000000000
def TIMER_ABSTIME : ℕ := 1
def SIGEV_THREAD : ℕ := 2

/-- The tick rate and the functions of the operating system layer, which are exact where the
result is whole and fits. -/
structure Osal where
  hz : ℕ
  pos : 0 < hz
  timespecValidate : Timespec → Bool
  timespecToTicks : Timespec → ℕ
  timespecDetalTicks : Timespec → Timespec → ℤ × ℕ
  osJiffiesToMsecs : ℕ → ℕ
  toTicks_eq : ∀ (t : Timespec) (n : ℕ), t.ns * hz = n * TICK → n < 2 ^ 64 → timespecToTicks t = n
  detalTicks_later : ∀ (abs now : Timespec) (n : ℕ), now.ns < abs.ns → (abs.ns - now.ns) * hz = n * TICK →
    n < 2 ^ 64 → timespecDetalTicks abs now = (RET_OK,n)
  detalTicks_passed : ∀ abs now : Timespec, abs.ns ≤ now.ns → (timespecDetalTicks abs now).1 ≠ RET_OK
  toMsecs_eq : ∀ j m : ℕ, j * 1000 = m * hz → osJiffiesToMsecs j = m

def Osal.msec (o : Osal) : ℕ := 1000000 * o.hz

structure Itimerspec where
  itInterval : Timespec
  itValue : Timespec

def TimespecIsZero (t : Timespec) : Prop := t.tvSec = 0 ∧ t.tvNsec = 0

instance (t : Timespec) : Decidable (TimespecIsZero t) := inferInstanceAs (Decidable (_ ∧ _))

/-- How a notification is made: by a call, or in a thread of its own. -/
inductive Way
  | call
  | thread
deriving DecidableEq

/-- A struct sigevent, with whether sigev_notify_attributes is set. -/
structure Sigevent where
  sigevNotify : ℕ
  attributes : Bool

/-- The notification of an instant. -/
def Sigevent.notify (e : Sigevent) (now : ℕ) : List (ℕ × Way) :=
  if e.sigevNotify = SIGEV_THREAD then [(now,if e.attributes then .thread else .call)] else []

/-- A struct posix_timer, with when its os_timer fires. -/
structure PosixTimer where
  due : Option ℕ
  periodTime : ℕ
  expiredTime : ℕ

def osJiffies (now : ℕ) : ℕ := now / TICK % 2 ^ 64

section Code
variable (o : Osal)

/-- The time-out is an unsigned long of 32 bits. -/
def osTimerStart (now : ℕ) (t : PosixTimer) (expires : ℕ) : PosixTimer :=
  { t with due := some (now + expires % 2 ^ 32 * o.msec) }

/-- Besides the notification. -/
def posixTimerCb (now : ℕ) (t : PosixTimer) : PosixTimer :=
  if 0 < t.periodTime then osTimerStart o now t t.periodTime else t

/-- ret and expired_jiff, with what clock_gettime gives. -/
def expiredJiff (flags : ℕ) (value : Itimerspec) (cur : Option Timespec) : ℤ × ℕ :=
  if flags &&& TIMER_ABSTIME = TIMER_ABSTIME then
    let (ret,expired) := match cur with
      | none => (-EINVAL,0)
      | some cur => o.timespecDetalTicks value.itValue cur
    if ret ≠ 0 then (if ret = -ETIMEDOUT then 0 else ret,0) else (ret,expired)
  else (0,o.timespecToTicks value.itValue)

/-- The values are not valid. -/
def Refused (value : Itimerspec) : Prop :=
  ¬ TimespecIsZero value.itValue ∧
    (o.timespecValidate value.itInterval = false ∨ o.timespecValidate value.itValue = false)

instance (value : Itimerspec) : Decidable (Refused o value) := inferInstanceAs (Decidable (_ ∧ _))

/-- period_jiff -/
def periodJiff (value : Itimerspec) : ℕ :=
  if TimespecIsZero value.itInterval then 0 else o.timespecToTicks value.itInterval

/-- With the result, and whether posix_timer_cb was called. -/
def timerSettime (now : ℕ) (t : PosixTimer) (flags : ℕ) (value : Itimerspec) (cur : Option Timespec) :
    PosixTimer × ℤ × Bool :=
  if Refused o value then (t,-EINVAL,false)
  else
    let t := { t with due := none }
    if TimespecIsZero value.itValue then (t,0,false)
    else
      let t := { t with periodTime := periodJiff o value }
      let (ret,expired) := expiredJiff o flags value cur
      if expired = 0 then (posixTimerCb o now t,ret,true)
      else (osTimerStart o now { t with expiredTime := (osJiffies now + expired) % 2 ^ 64 } (o.osJiffiesToMsecs expired),
        ret,false)

def nanosecondsPerTick : ℤ := NANOSECONDS_PER_SECOND / o.hz

def ofTicks (n : ℕ) : Timespec := ⟨n / o.hz,n % o.hz * nanosecondsPerTick o⟩

def timerGettime (now : ℕ) (t : PosixTimer) : Itimerspec where
  itValue := if t.due.isSome then ofTicks o ((t.expiredTime + 2 ^ 64 - osJiffies now) % 2 ^ 64) else ⟨0,0⟩
  itInterval := if t.periodTime ≠ osWaitForever then ofTicks o t.periodTime else ⟨0,0⟩

/-- The nanoseconds to the first notification that are asked for. -/
def asked (flags : ℕ) (value : Itimerspec) (cur : Timespec) : ℤ :=
  if flags &&& TIMER_ABSTIME = TIMER_ABSTIME then value.itValue.ns - cur.ns else value.itValue.ns

/-- A number of nanoseconds that is a whole number of ticks, which fits. -/
def Osal.Whole (ns : ℤ) : Prop := 0 ≤ ns ∧ ns * o.hz % TICK = 0 ∧ ns * o.hz < 2 ^ 64 * TICK

instance (ns : ℤ) : Decidable (o.Whole ns) := inferInstanceAs (Decidable (_ ∧ _))

/-- The conversions of the values are exact. -/
def Convertible (flags : ℕ) (value : Itimerspec) (cur : Timespec) : Prop :=
  o.Whole value.itInterval.ns ∧
    (flags &&& TIMER_ABSTIME = TIMER_ABSTIME ∧ value.itValue.ns ≤ cur.ns ∨
      o.Whole (asked flags value cur) ∧ asked flags value cur % 1000000 = 0)

instance (flags : ℕ) (value : Itimerspec) (cur : Timespec) : Decidable (Convertible o flags value cur) :=
  inferInstanceAs (Decidable (_ ∧ _))

end Code

/-- With the notifications so far, latest first; and with what the last setting asks for: when
the next notification is due, the time to the first and between later ones, and those so far. -/
structure Sys where
  now : ℕ
  timer : PosixTimer
  event : Sigevent
  notified : List (ℕ × Way)
  next : Option ℕ
  value : ℕ
  interval : ℕ
  wanted : List (ℕ × Way)

/-- Time passes, the os_timer fires, and timer_settime finds the current time. -/
inductive Label
  | wait (d : ℕ)
  | expire
  | settime (flags : ℕ) (value : Itimerspec) (cur : Timespec)

section Runs
variable (o : Osal)

/-- When the notification after one that is due now is due. -/
def Sys.later (s : Sys) : Option ℕ := if s.interval = 0 then none else some (s.now + s.interval)

/-- The setting asks for its notifications. -/
def Sys.want (s : Sys) (flags : ℕ) (value : Itimerspec) (cur : Timespec) : Sys :=
  if TimespecIsZero value.itValue then { s with next := none, value := 0, interval := 0 }
  else
    let s := { s with
      value := (asked flags value cur * o.hz).toNat
      interval := (value.itInterval.ns * o.hz).toNat }
    if s.value = 0 then { s with next := s.later, wanted := s.event.notify s.now ++ s.wanted }
    else { s with next := some (s.now + s.value) }

/-- timer_settime with values whose conversions are exact. -/
def Sys.settime (s : Sys) (flags : ℕ) (value : Itimerspec) (cur : Timespec) : Sys :=
  let r := timerSettime o s.now s.timer flags value (some cur)
  if Refused o value then { s with timer := r.1 }
  else
    let s := { s with timer := r.1, notified := if r.2.2 then s.event.notify s.now ++ s.notified else s.notified }
    s.want o flags value cur

def step (s : Sys) : Label → Option Sys
  | .wait d => if ∀ due ∈ s.timer.due, s.now + d ≤ due then some { s with now := s.now + d } else none
  | .expire =>
    if s.timer.due = some s.now then
      let s := { s with
        timer := posixTimerCb o s.now { s.timer with due := none }
        notified := s.event.notify s.now ++ s.notified }
      some (if s.next = some s.now then { s with next := s.later, wanted := s.event.notify s.now ++ s.wanted } else s)
    else none
  | .settime flags value cur =>
    if TimespecIsZero value.itValue ∨ Refused o value ∨ Convertible o flags value cur then
      some (s.settime o flags value cur)
    else none

end Runs

/-- timer_create -/
def created (e : Sigevent) : Sys := ⟨0,⟨none,0,0⟩,e,[],none,0,0,[]⟩

/-- The notifications are those that are asked for, and so is the next. -/
structure Sys.Punctual (s : Sys) : Prop where
  due : s.timer.due = s.next
  notified : s.notified = s.wanted

/-- The timer is disarmed. -/
def Sys.disarmed (s : Sys) : Sys :=
  { s with timer := { s.timer with due := none }, next := none, value := 0, interval := 0 }

/-- The timer is set with a period, and the first notification is made. -/
def Sys.past (o : Osal) (s : Sys) (p : ℕ) : Sys where
  now := s.now
  timer := posixTimerCb o s.now { s.timer with due := none, periodTime := p }
  event := s.event
  notified := s.event.notify s.now ++ s.notified
  next := if p = 0 then none else some (s.now + p * TICK)
  value := 0
  interval := p * TICK
  wanted := s.event.notify s.now ++ s.wanted

/-- The timer is set with a period, and the first notification is due after `v` ticks, for
which it is started for `m` milliseconds. -/
def Sys.armed (o : Osal) (s : Sys) (p v m : ℕ) : Sys :=
  { s with
    timer := ⟨some (s.now + m % 2 ^ 32 * o.msec),p,(osJiffies s.now + v) % 2 ^ 64⟩
    next := some (s.now + v * TICK)
    value := v * TICK
    interval := p * TICK }

section Settings
variable {o : Osal} {s t : Sys} {flags : ℕ} {value : Itimerspec} {cur : Timespec} {ns : ℤ}

theorem Osal.Whole.ticks (h : o.Whole ns) : ∃ n : ℕ, n < 2 ^ 64 ∧ ns * o.hz = n * TICK := by
  obtain ⟨hns,hmod,hlt⟩ := h
  have hnonneg : 0 ≤ ns * o.hz := mul_nonneg hns (Int.natCast_nonneg _)
  have htick : (TICK : ℤ) = 1000000000 := rfl
  rw [htick] at hmod hlt ⊢
  refine ⟨(ns * o.hz / 1000000000).toNat,?_,?_⟩ <;> omega

/-- The ticks to the first notification, and their milliseconds. -/
theorem Convertible.expired (h : Convertible o flags value cur) : ∃ v m : ℕ, v < 2 ^ 64 ∧ v * 1000 = m * o.hz ∧
    (expiredJiff o flags value (some cur)).2 = v ∧ (asked flags value cur * o.hz).toNat = v * TICK := by
  obtain ⟨-,hpast | ⟨hwhole,hmsec⟩⟩ := h
  · obtain ⟨habs,hle⟩ := hpast
    have hret := o.detalTicks_passed value.itValue cur hle
    have hasked : asked flags value cur ≤ 0 := by
      rw [asked,if_pos habs]
      omega
    refine ⟨0,0,by decide,by simp,?_,?_⟩
    · rw [RET_OK] at hret
      simp [expiredJiff,habs,hret]
    · have hneg : asked flags value cur * o.hz ≤ 0 := mul_nonpos_of_nonpos_of_nonneg hasked (Int.natCast_nonneg _)
      omega
  · obtain ⟨v,hv,hticks⟩ := hwhole.ticks
    have htoNat : (asked flags value cur * o.hz).toNat = v * TICK := by
      rw [hticks]
      exact Int.toNat_natCast (v * TICK)
    obtain ⟨a,ha⟩ : (1000000 : ℤ) ∣ asked flags value cur := Int.dvd_of_emod_eq_zero hmsec
    have ha0 : 0 ≤ a := by
      have := hwhole.1
      omega
    have hmsecs : v * 1000 = a.toNat * o.hz := by
      have htick : (TICK : ℤ) = 1000000000 := rfl
      have hscaled : 1000000 * (a * o.hz) = 1000000 * (v * 1000 : ℤ) := by
        rw [ha,htick] at hticks
        linarith
      have hcast : ((v * 1000 : ℕ) : ℤ) = (a.toNat * o.hz : ℕ) := by
        push_cast
        rw [Int.toNat_of_nonneg ha0]
        linarith
      exact Int.ofNat.inj hcast
    refine ⟨v,a.toNat,hv,hmsecs,?_,htoNat⟩
    by_cases habs : flags &&& TIMER_ABSTIME = TIMER_ABSTIME
    · have hasked : asked flags value cur = value.itValue.ns - cur.ns := if_pos habs
      rw [hasked] at hticks
      by_cases hlater : cur.ns < value.itValue.ns
      · simp [expiredJiff,habs,o.detalTicks_later _ _ v hlater hticks hv,RET_OK]
      · have hle : value.itValue.ns ≤ cur.ns := not_lt.mp hlater
        have hret := o.detalTicks_passed value.itValue cur hle
        have hneg : (v * TICK : ℤ) ≤ 0 := by
          rw [← hticks]
          exact mul_nonpos_of_nonpos_of_nonneg (by omega) (Int.natCast_nonneg _)
        obtain rfl : v = 0 := by
          have htick : (TICK : ℤ) = 1000000000 := rfl
          rw [htick] at hneg
          omega
        rw [RET_OK] at hret
        simp [expiredJiff,habs,hret]
    · have hasked : asked flags value cur = value.itValue.ns := if_neg habs
      rw [hasked] at hticks
      simp [expiredJiff,habs,o.toTicks_eq _ v hticks hv]

/-- The ticks of the period. -/
theorem Convertible.period (h : Convertible o flags value cur) :
    (value.itInterval.ns * o.hz).toNat = periodJiff o value * TICK := by
  obtain ⟨p,hp,hticks⟩ := h.1.ticks
  have hperiod : periodJiff o value = p := by
    unfold periodJiff
    split_ifs with hzero
    · have hns : value.itInterval.ns = 0 := by simp [Timespec.ns,hzero.1,hzero.2]
      have htick : (TICK : ℤ) = 1000000000 := rfl
      rw [hns,htick] at hticks
      omega
    · exact o.toTicks_eq _ p hticks hp
  rw [hticks,hperiod]
  exact Int.toNat_natCast (p * TICK)

/-- What timer_settime does to the timer. -/
theorem settime_cases (h : TimespecIsZero value.itValue ∨ Refused o value ∨ Convertible o flags value cur) :
    Refused o value ∧ s.settime o flags value cur = s ∨
    ¬ Refused o value ∧ TimespecIsZero value.itValue ∧ s.settime o flags value cur = s.disarmed ∨
    ¬ Refused o value ∧ ¬ TimespecIsZero value.itValue ∧
      ((expiredJiff o flags value (some cur)).2 = 0 ∧ s.settime o flags value cur = s.past o (periodJiff o value) ∨
      ∃ v m, (expiredJiff o flags value (some cur)).2 = v ∧ 0 < v ∧ v < 2 ^ 64 ∧ o.osJiffiesToMsecs v = m ∧
        v * 1000 = m * o.hz ∧ s.settime o flags value cur = s.armed o (periodJiff o value) v m) := by
  by_cases hrefused : Refused o value
  · left
    simp [Sys.settime,timerSettime,hrefused]
  · by_cases hzero : TimespecIsZero value.itValue
    · right
      left
      simp [Sys.settime,timerSettime,hrefused,hzero,Sys.want,Sys.disarmed]
    · have hconv := (h.resolve_left hzero).resolve_left hrefused
      obtain ⟨v,m,hv,hm,hexpired,hasked⟩ := hconv.expired
      have hinterval := hconv.period
      have htick : 0 < TICK := by decide
      refine Or.inr (Or.inr ⟨hrefused,hzero,?_⟩)
      rcases Nat.eq_zero_or_pos v with rfl | hpos
      · left
        refine ⟨hexpired,?_⟩
        simp [Sys.settime,timerSettime,hrefused,hzero,hexpired,Sys.want,hasked,hinterval,Sys.past,Sys.later,htick.ne']
      · have hmsecs := o.toMsecs_eq v m hm
        refine Or.inr ⟨v,m,hexpired,hpos,hv,hmsecs,hm,?_⟩
        simp [Sys.settime,timerSettime,hrefused,hzero,hexpired,Sys.want,hasked,hinterval,Sys.armed,osTimerStart,
          hmsecs,htick.ne',hpos.ne']

end Settings

section Runs
variable {o : Osal} {s t : Sys} {p v m : ℕ}

/-- A time-out of as many milliseconds as there are ticks in the period, cut to 32 bits, is
not the period; or one to a first notification is cut to 32 bits. -/
def Strays (o : Osal) (s : Sys) : Label → Prop
  | .wait _ => False
  | .expire => s.timer.periodTime % 2 ^ 32 * o.hz ≠ s.timer.periodTime * 1000
  | .settime flags value cur => ¬ Refused o value ∧ ¬ TimespecIsZero value.itValue ∧
    if (expiredJiff o flags value (some cur)).2 = 0 then
      periodJiff o value % 2 ^ 32 * o.hz ≠ periodJiff o value * 1000
    else 2 ^ 32 ≤ o.osJiffiesToMsecs (expiredJiff o flags value (some cur)).2

instance (s : Sys) (l : Label) : Decidable (Strays o s l) := by
  unfold Strays
  split <;> infer_instance

structure Inv (s : Sys) : Prop extends s.Punctual where
  period : s.timer.due ≠ none → s.timer.periodTime * TICK = s.interval

/-- The period is kept exactly where its ticks, taken for milliseconds, are as long. -/
theorem cb_due_iff {x : PosixTimer} (hx : x.due = none) (now : ℕ) :
    (posixTimerCb o now x).due = (if x.periodTime = 0 then none else some (now + x.periodTime * TICK)) ↔
      x.periodTime % 2 ^ 32 * o.hz = x.periodTime * 1000 := by
  rcases Nat.eq_zero_or_pos x.periodTime with hzero | hpos
  · simp [posixTimerCb,hzero,hx]
  · have hcb : (posixTimerCb o now x).due = some (now + x.periodTime % 2 ^ 32 * o.msec) := by
      rw [posixTimerCb,if_pos hpos]
      rfl
    have hmsec : x.periodTime % 2 ^ 32 * o.msec = 1000000 * (x.periodTime % 2 ^ 32 * o.hz) :=
      Nat.mul_left_comm ..
    have htick : TICK = 1000000000 := rfl
    rw [hcb,hmsec,if_neg hpos.ne',Option.some_inj,htick]
    omega

theorem cb_periodTime (x : PosixTimer) (now : ℕ) : (posixTimerCb o now x).periodTime = x.periodTime := by
  unfold posixTimerCb
  split_ifs <;> rfl

/-- The first notification is in time exactly where its milliseconds are not cut. -/
theorem armed_due_iff (hm : v * 1000 = m * o.hz) :
    (s.armed o p v m).timer.due = (s.armed o p v m).next ↔ ¬ 2 ^ 32 ≤ m := by
  have hmsec (k : ℕ) : k * o.msec = 1000000 * (k * o.hz) := Nat.mul_left_comm ..
  have htick : TICK = 1000000000 := rfl
  have hpos := o.pos
  show some (s.now + m % 2 ^ 32 * o.msec) = some (s.now + v * TICK) ↔ _
  rw [Option.some_inj,hmsec,htick]
  constructor
  · intro heq hlarge
    have hprod : m % 2 ^ 32 * o.hz = m * o.hz := by omega
    have hcut : m % 2 ^ 32 = m := Nat.eq_of_mul_eq_mul_right hpos hprod
    omega
  · intro hsmall
    have hcut : m % 2 ^ 32 = m := Nat.mod_eq_of_lt (not_le.mp hsmall)
    rw [hcut]
    omega

theorem Inv.disarmed (h : Inv s) : Inv s.disarmed := ⟨⟨rfl,h.notified⟩,fun hdue => absurd rfl hdue⟩

theorem Inv.past (h : Inv s) (hperiod : p % 2 ^ 32 * o.hz = p * 1000) : Inv (s.past o p) := by
  refine ⟨⟨?_,?_⟩,fun _ => ?_⟩
  · exact (cb_due_iff (o := o) (x := { s.timer with due := none, periodTime := p }) rfl s.now).mpr hperiod
  · exact congrArg (s.event.notify s.now ++ ·) h.notified
  · exact congrArg (· * TICK) (cb_periodTime ..)

theorem Inv.armed (h : Inv s) (hm : v * 1000 = m * o.hz) (hsmall : ¬ 2 ^ 32 ≤ m) : Inv (s.armed o p v m) :=
  ⟨⟨(armed_due_iff hm).mpr hsmall,h.notified⟩,fun _ => rfl⟩

/-- After the notification. -/
def Sys.expired (o : Osal) (s : Sys) : Sys :=
  { s with
    timer := posixTimerCb o s.now { s.timer with due := none }
    notified := s.event.notify s.now ++ s.notified
    next := s.later
    wanted := s.event.notify s.now ++ s.wanted }

theorem Inv.expire_eq (h : Inv s) (hs : step o s .expire = some t) : s.timer.due = some s.now ∧ t = s.expired o := by
  obtain ⟨hdue,hs⟩ := Option.ite_none_right_eq_some.mp hs
  have hnext : s.next = some s.now := h.due ▸ hdue
  refine ⟨hdue,(Option.some.inj hs).symm.trans ?_⟩
  simp [hnext,Sys.expired,Sys.later]

/-- The next notification after one. -/
theorem Inv.expired_due_iff (h : Inv s) (hdue : s.timer.due = some s.now) :
    (s.expired o).timer.due = (s.expired o).next ↔ s.timer.periodTime % 2 ^ 32 * o.hz = s.timer.periodTime * 1000 := by
  have hinterval := h.period (by simp [hdue])
  have hnext : (s.expired o).next =
      if s.timer.periodTime = 0 then none else some (s.now + s.timer.periodTime * TICK) := by
    have hzero : s.timer.periodTime * TICK = 0 ↔ s.timer.periodTime = 0 := by
      rw [TICK]
      omega
    show s.later = _
    simp only [Sys.later,← hinterval,hzero]
  rw [hnext]
  exact cb_due_iff (x := { s.timer with due := none }) rfl s.now

theorem Inv.step (h : Inv s) {l : Label} (hgood : ¬ Strays o s l) (hs : Timers.step o s l = some t) : Inv t := by
  cases l with
  | wait d =>
    obtain ⟨-,hs⟩ := Option.ite_none_right_eq_some.mp hs
    obtain rfl := Option.some.inj hs
    exact ⟨⟨h.due,h.notified⟩,h.period⟩
  | expire =>
    obtain ⟨hdue,rfl⟩ := h.expire_eq hs
    refine ⟨⟨(h.expired_due_iff hdue).mpr (not_not.mp hgood),?_⟩,fun _ => ?_⟩
    · exact congrArg (s.event.notify s.now ++ ·) h.notified
    · exact (congrArg (· * TICK) (cb_periodTime ..)).trans (h.period (by simp [hdue]))
  | settime flags value cur =>
    obtain ⟨hconv,hs⟩ := Option.ite_none_right_eq_some.mp hs
    obtain rfl := Option.some.inj hs
    rcases settime_cases (s := s) hconv with
      ⟨-,heq⟩ | ⟨-,-,heq⟩ | ⟨hrefused,hzero,⟨hv,heq⟩ | ⟨v,m,hv,hpos,-,hmsecs,hm,heq⟩⟩
    · rwa [heq]
    · rw [heq]
      exact h.disarmed
    · rw [heq]
      refine h.past ?_
      by_contra hperiod
      refine hgood ⟨hrefused,hzero,?_⟩
      rwa [if_pos hv]
    · rw [heq]
      refine h.armed hm fun hlarge => hgood ⟨hrefused,hzero,?_⟩
      rwa [hv,if_neg hpos.ne',hmsecs]

/-- A step that strays shows in the next notification. -/
theorem Strays.not_punctual {l : Label} (hl : Strays o s l) (h : Inv s) (hs : Timers.step o s l = some t) :
    ¬ t.Punctual := by
  intro ht
  cases l with
  | wait d => exact hl
  | expire =>
    obtain ⟨hdue,rfl⟩ := h.expire_eq hs
    exact hl ((h.expired_due_iff hdue).mp ht.due)
  | settime flags value cur =>
    obtain ⟨hconv,hs⟩ := Option.ite_none_right_eq_some.mp hs
    obtain rfl := Option.some.inj hs
    obtain ⟨hrefused,hzero,hbad⟩ := hl
    rcases settime_cases (s := s) hconv with
      ⟨hrefused',-⟩ | ⟨-,hzero',-⟩ | ⟨-,-,⟨hv,heq⟩ | ⟨v,m,hv,hpos,-,hmsecs,hm,heq⟩⟩
    · exact hrefused hrefused'
    · exact hzero hzero'
    · rw [if_pos hv] at hbad
      rw [heq] at ht
      exact hbad ((cb_due_iff (x := { s.timer with due := none, periodTime := periodJiff o value }) rfl s.now).mp ht.due)
    · rw [hv,if_neg hpos.ne',hmsecs] at hbad
      rw [heq] at ht
      exact (armed_due_iff hm).mp ht.due hbad

/-- The notifications are those that are asked for in exactly the runs in which no period
and no time-out strays. -/
theorem punctual_iff {e : Sigevent} {ls : List Label} (h : Runs (Timers.step o) (created e) ls s) :
    (∀ ms u, ms <+: ls → Runs (Timers.step o) (created e) ms u → u.Punctual) ↔
      Runs (guarded (fun s l => ¬ Strays o s l) (Timers.step o)) (created e) ls s :=
  h.guarded_iff (fun _ hi => hi.toPunctual) (fun _ _ _ hi hgood hs => hi.step hgood hs)
    (fun _ _ _ hi hs ht hl => hl.not_punctual hi hs ht) ⟨⟨rfl,rfl⟩,fun hdue => absurd rfl hdue⟩

end Runs

/-- The operating system layer at a tick rate, with conversions that round down. -/
def exact (hz : ℕ) (pos : 0 < hz) : Osal where
  hz := hz
  pos := pos
  timespecValidate t := decide (0 ≤ t.tvNsec ∧ t.tvNsec < NANOSECONDS_PER_SECOND)
  timespecToTicks t := (t.ns * hz / TICK).toNat
  timespecDetalTicks abs now :=
    if now.ns < abs.ns then (RET_OK,((abs.ns - now.ns) * hz / TICK).toNat) else (-ETIMEDOUT,0)
  osJiffiesToMsecs j := j * 1000 / hz
  toTicks_eq t n hticks _ := by
    have htick : (TICK : ℤ) = 1000000000 := rfl
    rw [hticks,htick]
    omega
  detalTicks_later abs now n hlater hticks _ := by
    have htick : (TICK : ℤ) = 1000000000 := rfl
    rw [if_pos hlater,hticks,htick]
    refine Prod.ext rfl ?_
    show (n * 1000000000 / 1000000000 : ℤ).toNat = n
    omega
  detalTicks_passed abs now hle := by
    rw [if_neg (not_lt.mpr hle)]
    decide
  toMsecs_eq j m hm := by
    rw [hm]
    exact Nat.mul_div_cancel m pos

def event : Sigevent := ⟨SIGEV_THREAD,false⟩

/-- A setting with the values in ms. -/
def setting (value interval : ℤ) : Itimerspec := ⟨⟨0,interval * 1000000⟩,⟨0,value * 1000000⟩⟩

/-- Two periods of 20 ms after the first 10 ms, at 1000 ticks a second. -/
def periodic : List Label :=
  [.settime 0 (setting 10 20) ⟨0,0⟩,.wait 10000000000,.expire,.wait 20000000000,.expire]

theorem punctual_periodic : ∃ s, Runs (guarded (fun s l => ¬ Strays (exact 1000 (by decide)) s l)
      (step (exact 1000 (by decide)))) (created event) periodic s ∧
    s.notified = [(30000000000,.call),(10000000000,.call)] ∧
    ∀ ms u, ms <+: periodic → Runs (step (exact 1000 (by decide))) (created event) ms u → u.Punctual := by
  refine Runs.exists_of_exec Sys.notified (v := [(30000000000,.call),(10000000000,.call)]) (by decide +kernel) ?_
  intro s hrun hnotified
  exact ⟨hnotified,(punctual_iff hrun.of_guarded).mpr hrun⟩

/-- At 100 ticks a second a period of 20 ms is started for two. -/
theorem punctual_fails : ∃ s, Runs (step (exact 100 (by decide))) (created event)
      [.settime 0 (setting 10 20) ⟨0,0⟩,.wait 1000000000,.expire] s ∧
    s.timer.due = some 1200000000 ∧ s.next = some 3000000000 ∧ ¬ s.Punctual := by
  refine Runs.exists_of_exec (fun s => (s.timer.due,s.next)) (v := (some 1200000000,some 3000000000))
    (by decide +kernel) ?_
  intro s _ hget
  obtain ⟨hdue,hnext⟩ := Prod.mk.inj hget
  refine ⟨hdue,hnext,fun h => ?_⟩
  have heq : s.timer.due = s.next := h.due
  rw [hdue,hnext] at heq
  simp at heq

end FmacSdk.Timers
