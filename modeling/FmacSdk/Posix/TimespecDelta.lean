import FmacSdk.Common.Errno
import Mathlib.Data.Int.Order.Basic
import Mathlib.Order.Nat

/-! # Absolute deadlines

pthread_timespec_delta turns the deadline of a timed call into its time-out in
milliseconds. timespec_detal_ticks is a function of the operating system layer.
-/
namespace FmacSdk.TimespecDelta

def OS_HZ : ℕ := 1000
def OS_MS_PERIOD_TICK : ℕ := 1000 / OS_HZ
def NANOSECONDS_PER_SECOND : ℤ := 1000000000
def NANOSECONDS_PER_TICK : ℤ := NANOSECONDS_PER_SECOND / OS_HZ
def NANOSECONDS_PER_MSEC : ℤ := 1000000
def osWaitForever : ℕ := 0xFFFFFFFF

structure Timespec where
  tvSec : ℤ
  tvNsec : ℤ

def Timespec.ns (t : Timespec) : ℤ := t.tvSec * NANOSECONDS_PER_SECOND + t.tvNsec

/-- The product is a uint64. -/
def osJiffiesToMsecs (j : ℕ) : ℕ := j * OS_MS_PERIOD_TICK % 2 ^ 64

section Code
variable (timespecDetalTicks : Timespec → Timespec → ℤ × ℕ)

/-- With the time that os_systime gives. -/
def pthreadTimespecDelta (abstime : Option Timespec) (cur : Timespec) : ℕ :=
  match abstime with
  | none => osWaitForever
  | some abs =>
    let (ret,ticks) := timespecDetalTicks abs cur
    if ret = RET_OK then osJiffiesToMsecs ticks % 2 ^ 32 else osWaitForever

/-- The ticks from now to a later time, to within one; another time is an error. -/
structure DetalTicks : Prop where
  ok : ∀ abs now, now.ns < abs.ns → (timespecDetalTicks abs now).1 = RET_OK
  below : ∀ abs now, now.ns < abs.ns →
    abs.ns - now.ns < ((timespecDetalTicks abs now).2 + 1) * NANOSECONDS_PER_TICK
  above : ∀ abs now, now.ns < abs.ns →
    (timespecDetalTicks abs now).2 * NANOSECONDS_PER_TICK < abs.ns - now.ns + NANOSECONDS_PER_TICK
  passed : ∀ abs now, abs.ns ≤ now.ns → (timespecDetalTicks abs now).1 ≠ RET_OK

end Code

/-- What a time-out is for: none for a deadline that has passed, and else the time
that remains. -/
structure Honest (abstime : Option Timespec) (cur : Timespec) (tmo : ℕ) : Prop where
  passed : ∀ abs ∈ abstime, abs.ns ≤ cur.ns → tmo = 0
  remains : ∀ abs ∈ abstime, cur.ns < abs.ns →
    tmo ≠ osWaitForever ∧ abs.ns - cur.ns ≤ tmo * NANOSECONDS_PER_MSEC + NANOSECONDS_PER_TICK
  forever : tmo = osWaitForever → abstime = none

variable {timespecDetalTicks : Timespec → Timespec → ℤ × ℕ} {abs cur : Timespec}

theorem delta_later (h : DetalTicks timespecDetalTicks) (hlater : cur.ns < abs.ns) :
    pthreadTimespecDelta timespecDetalTicks (some abs) cur = (timespecDetalTicks abs cur).2 % 2 ^ 32 := by
  have hok : pthreadTimespecDelta timespecDetalTicks (some abs) cur =
      osJiffiesToMsecs (timespecDetalTicks abs cur).2 % 2 ^ 32 := if_pos (h.ok abs cur hlater)
  rw [hok,osJiffiesToMsecs,Nat.mod_mod_of_dvd _ (by decide),OS_MS_PERIOD_TICK,OS_HZ]
  simp

theorem delta_passed (h : DetalTicks timespecDetalTicks) (hpassed : abs.ns ≤ cur.ns) :
    pthreadTimespecDelta timespecDetalTicks (some abs) cur = osWaitForever :=
  if_neg (h.passed abs cur hpassed)

theorem honest_none : Honest none cur osWaitForever := by
  constructor <;> simp

theorem honest_later (h : DetalTicks timespecDetalTicks) (hlater : cur.ns < abs.ns) :
    Honest (some abs) cur ((timespecDetalTicks abs cur).2 % 2 ^ 32) ↔
      (timespecDetalTicks abs cur).2 * OS_MS_PERIOD_TICK < osWaitForever := by
  have hbelow := h.below abs cur hlater
  have habove := h.above abs cur hlater
  have htick : NANOSECONDS_PER_TICK = 1000000 := by decide
  have hperiod : OS_MS_PERIOD_TICK = 1 := by decide
  rw [htick] at hbelow habove
  rw [hperiod,Nat.mul_one,osWaitForever]
  generalize (timespecDetalTicks abs cur).2 = ticks at hbelow habove ⊢
  constructor
  · intro hh
    obtain ⟨hfinite,hlong⟩ := hh.remains abs rfl hlater
    rw [htick,NANOSECONDS_PER_MSEC] at hlong
    rw [osWaitForever] at hfinite
    by_contra hge
    omega
  · intro hlt
    have hmod : ticks % 2 ^ 32 = ticks := Nat.mod_eq_of_lt (by omega)
    rw [hmod]
    refine ⟨fun a ha hpassed => ?_,fun a ha _ => ⟨?_,?_⟩,fun hforever => ?_⟩
    · obtain rfl := Option.some.inj ha
      omega
    · exact hlt.ne
    · obtain rfl := Option.some.inj ha
      rw [htick,NANOSECONDS_PER_MSEC]
      omega
    · exact absurd hforever hlt.ne

theorem not_honest_passed (hpassed : abs.ns ≤ cur.ns) : ¬ Honest (some abs) cur osWaitForever := by
  intro h
  have hzero := h.passed abs rfl hpassed
  simp [osWaitForever] at hzero

/-- The time-out is honest exactly where there is no deadline, or one to come whose
milliseconds are fewer than those that stand for none. -/
theorem delta_honest_iff (h : DetalTicks timespecDetalTicks) (abstime : Option Timespec) (cur : Timespec) :
    Honest abstime cur (pthreadTimespecDelta timespecDetalTicks abstime cur) ↔
      ∀ abs ∈ abstime, cur.ns < abs.ns ∧ (timespecDetalTicks abs cur).2 * OS_MS_PERIOD_TICK < osWaitForever := by
  cases abstime with
  | none => exact iff_of_true honest_none (by simp)
  | some abs =>
    by_cases hlater : cur.ns < abs.ns
    · rw [delta_later h hlater,honest_later h hlater]
      simp [hlater]
    · rw [delta_passed h (not_lt.mp hlater)]
      refine iff_of_false (not_honest_passed (not_lt.mp hlater)) fun hall => ?_
      exact hlater (hall abs rfl).1

/-- The ticks rounded up. -/
def roundedUp (abs now : Timespec) : ℤ × ℕ :=
  if now.ns < abs.ns then (RET_OK,((abs.ns - now.ns + (NANOSECONDS_PER_TICK - 1)) / NANOSECONDS_PER_TICK).toNat)
  else (-ETIMEDOUT,0)

theorem detalTicks_roundedUp : DetalTicks roundedUp := by
  have htick : NANOSECONDS_PER_TICK = 1000000 := by decide
  constructor
  · intro abs now hlater
    rw [roundedUp,if_pos hlater]
  · intro abs now hlater
    rw [roundedUp,if_pos hlater,htick]
    simp only
    omega
  · intro abs now hlater
    rw [roundedUp,if_pos hlater,htick]
    simp only
    omega
  · intro abs now hpassed
    rw [roundedUp,if_neg (not_lt.mpr hpassed)]
    decide

theorem delta_honest_iff_second : pthreadTimespecDelta roundedUp (some ⟨1,0⟩) ⟨0,0⟩ = 1000 ∧
    Honest (some ⟨1,0⟩) ⟨0,0⟩ (pthreadTimespecDelta roundedUp (some ⟨1,0⟩) ⟨0,0⟩) := by
  refine ⟨by decide,(delta_honest_iff detalTicks_roundedUp _ _).mpr ?_⟩
  rintro abs habs
  obtain rfl := Option.some.inj habs
  decide

/-- A deadline that has passed is waited for without end. -/
theorem delta_passed_fails : pthreadTimespecDelta roundedUp (some ⟨0,0⟩) ⟨1,0⟩ = osWaitForever ∧
    ¬ Honest (some ⟨0,0⟩) ⟨1,0⟩ (pthreadTimespecDelta roundedUp (some ⟨0,0⟩) ⟨1,0⟩) := by
  have hforever : pthreadTimespecDelta roundedUp (some ⟨0,0⟩) ⟨1,0⟩ = osWaitForever := by decide
  rw [hforever]
  exact ⟨rfl,not_honest_passed (by decide)⟩

end FmacSdk.TimespecDelta
