import FmacSdk.Common.Errno
import FmacSdk.Driver.HgtimerHw
import FmacSdk.Foundation.OneShot
import FmacSdk.Foundation.Slots
import FmacSdk.Foundation.Transition

/-! # The timer driver

hgtimer_v2_start changes TMR_CON by three read-modify-writes, and the interrupt
handler calls back before its own two. A start from a task can be interrupted at
every access, and the counter runs in between; one from the callback runs inside
the handler. A callback is identified by the start that passed it.
-/
namespace FmacSdk.Hgtimer
open StatusReg OneShot Transition Slots

inductive TimerType
  | once
  | periodic
deriving DecidableEq, Repr

structure Dev where
  hw : Hw
  opened : Bool
  mode : TimerType
  cb : Option ℕ

abbrev Hw.IntrEn (h : Hw) : Prop := h.con.ctl.getLsbD 13 = true

/-- The first prescaler for which the ticks fit into the counter; `part[1]` of
the union is the upper half. -/
def prescaler (overall : BitVec 32) : Option (Fin 8) :=
  (List.finRange 8).find? fun i => (overall.toNat / 2 ^ 16 : ℕ) < 2 ^ (i : ℕ)

/-- The checks of hgtimer_v2_start, and the prescaler and TMR_PR that it sets;
`mhz` is sys_get_apbclk() / 1000000. -/
def startArgs (opened : Bool) (mhz tmoUs : BitVec 32) : Except ℤ (BitVec 3 × BitVec 16) :=
  let overall := tmoUs * mhz
  if opened = false then .error (-ENONET)
  else if tmoUs = 0 then .error (-EINVAL)
  else match prescaler overall with
    | none => .error RET_ERR
    | some i => .ok (BitVec.ofFin i,((overall >>> (i : ℕ)) - 1).setWidth 16)

theorem prescaler_fits {overall : BitVec 32} {i : Fin 8} (h : prescaler overall = some i) :
    overall.toNat / 2 ^ (i : ℕ) < 2 ^ 16 := by
  have hfit : overall.toNat / 2 ^ 16 < 2 ^ (i : ℕ) := by simpa using firstSlot_some h
  rw [Nat.div_lt_iff_lt_mul (Nat.two_pow_pos _)] at hfit ⊢
  rw [Nat.mul_comm]
  exact hfit

/-- No prescaler leaves a timeout without a tick. -/
theorem prescaler_pos {overall : BitVec 32} {i : Fin 8} (h : prescaler overall = some i)
    (hne : overall ≠ 0) : 0 < overall.toNat / 2 ^ (i : ℕ) := by
  refine Nat.div_pos ?_ (Nat.two_pow_pos _)
  by_cases hi : (i : ℕ) = 0
  · have : overall.toNat ≠ 0 := fun h0 => hne (BitVec.eq_of_toNat_eq h0)
    rw [hi]
    omega
  · have hprev : ¬ overall.toNat / 2 ^ 16 < 2 ^ ((i : ℕ) - 1) := by
      simpa using firstSlot_min (j := ⟨i - 1,by omega⟩) h (Fin.mk_lt_of_lt_val (by omega))
    have hpow : 2 ^ (i : ℕ) ≤ 2 ^ 16 * 2 ^ ((i : ℕ) - 1) := by
      rw [← pow_add]
      exact Nat.pow_le_pow_right Nat.two_pos (by omega)
    rw [Nat.div_lt_iff_lt_mul (Nat.two_pow_pos _)] at hprev
    rw [Nat.mul_comm] at hpow
    omega

/-- The period is the ticks of the timeout divided by the prescaler. -/
theorem startArgs_period {opened : Bool} {mhz tmoUs : BitVec 32} {psc : BitVec 3} {pr : BitVec 16}
    (h : startArgs opened mhz tmoUs = .ok (psc,pr)) (hne : tmoUs * mhz ≠ 0) :
    pr.toNat + 1 = (tmoUs * mhz).toNat / 2 ^ psc.toNat := by
  unfold startArgs at h
  dsimp only at h
  split at h
  · simp at h
  · split at h
    · simp at h
    · cases hpsc : prescaler (tmoUs * mhz) with
      | none => simp [hpsc] at h
      | some i =>
        simp only [hpsc,Except.ok.injEq,Prod.mk.injEq] at h
        obtain ⟨rfl,rfl⟩ := h
        have hfits := prescaler_fits hpsc
        have hpos := prescaler_pos hpsc hne
        have hshift : ((tmoUs * mhz) >>> (i : ℕ)).toNat = (tmoUs * mhz).toNat / 2 ^ (i : ℕ) := by
          rw [BitVec.toNat_ushiftRight,Nat.shiftRight_eq_div_pow]
        have hi : (BitVec.ofFin i : BitVec 3).toNat = i := rfl
        rw [hi]
        bv_omega

/-- The next access of hgtimer_v2_start; a write holds the value read before. -/
inductive StartPc
  | setCb
  | readEn
  | writeEn (v : BitVec 32)
  | zeroCnt
  | setPr
  | readOff
  | writeOff (v : BitVec 32)
  | readOn
  | writeOn (v : BitVec 32)
deriving DecidableEq, Repr

/-- A start in progress. -/
structure Start where
  n : ℕ
  psc : BitVec 3
  pr : BitVec 16
  pc : StartPc
deriving DecidableEq, Repr

def startOff : BitVec 32 :=
  HGTIMER_V2_CON_PSC_MASK ||| HGTIMER_V2_CON_INC_SRC_MASK ||| HGTIMER_V2_CON_MODE_DIS_MASK

def startOn (psc : BitVec 3) : BitVec 32 :=
  HGTIMER_V2_CON_TIMER_PNG ||| HGTIMER_V2_CON_PSC psc
    ||| HGTIMER_V2_CON_INC_SRC HGTIMER_V2_SOURCE_SYS_RISING
    ||| HGTIMER_V2_CON_MODE HGTIMER_V2_MODE_SEL_COUNTER

def Dev.setHw (d : Dev) (hw : Hw) : Dev := { d with hw := hw }

def Dev.writeCon (d : Dev) (v : BitVec 32) : Dev := d.setHw { d.hw with con := d.hw.con.write v }

/-- One access of a start with a callback. It replaces the callback first and
runs from its last write on. -/
def Start.go (c : Start) (d : Dev) : Dev × List Event × Option Start :=
  match c.pc with
  | .setCb => ({ d with cb := some c.n },[.drop],some { c with pc := .readEn })
  | .readEn => (d,[],some { c with pc := .writeEn d.hw.con.read })
  | .writeEn v => (d.writeCon (v ||| HGTIMER_V2_CON_TMR_INTR_EN),[],some { c with pc := .zeroCnt })
  | .zeroCnt => (d.setHw { d.hw with cnt := 0 },[],some { c with pc := .setPr })
  | .setPr => (d.setHw { d.hw with pr := c.pr },[],some { c with pc := .readOff })
  | .readOff => (d,[],some { c with pc := .writeOff d.hw.con.read })
  | .writeOff v => (d.writeCon (v &&& ~~~ startOff),[],some { c with pc := .readOn })
  | .readOn => (d,[],some { c with pc := .writeOn d.hw.con.read })
  | .writeOn v => (d.writeCon (v ||| startOn c.psc),[.start c.n (c.pr.toNat + 1)],none)

/-- hgtimer_v2_stop -/
def Dev.stop (d : Dev) : Dev := d.writeCon 0

/-- Where hgtimer_v2_irq_handler is: in the callback, which may be in a start of
its own, or at an access of its own. -/
inductive Isr
  | callback (inner : Option Start)
  | readPng
  | writePng (v : BitVec 32)
  | readMode
  | writeMode (v : BitVec 32)
deriving DecidableEq, Repr

structure Sys where
  dev : Dev
  task : Option Start
  isr : Option Isr
  next : ℕ
  log : List Event

inductive Label
  | count
  | taskStart (tmoUs : BitVec 32)
  | taskStop
  | taskGo
  | irq
  | cbStart (tmoUs : BitVec 32)
  | cbStop
  | isrGo
deriving DecidableEq, Repr

/-- One access of the handler behind its test of the pending flag. -/
def Sys.isrGo (s : Sys) : Isr → Sys
  | .callback (some c) =>
    let r := c.go s.dev
    { s with dev := r.1, isr := some (.callback r.2.2), log := s.log ++ r.2.1 }
  | .callback none => { s with isr := some .readPng }
  | .readPng => { s with isr := some (.writePng s.dev.hw.con.read) }
  | .writePng v => { s with
      dev := s.dev.writeCon (v ||| HGTIMER_V2_CON_TIMER_PNG)
      isr := if s.dev.mode = .once then some .readMode else none }
  | .readMode => { s with isr := some (.writeMode s.dev.hw.con.read) }
  | .writeMode v => { s with
      dev := s.dev.writeCon (v &&& ~~~ HGTIMER_V2_CON_MODE_DIS_MASK), isr := none }

/-- The handler runs on top of a task. It is entered while the flag is raised and
the interrupt enabled. -/
def step (mhz : BitVec 32) (s : Sys) : Label → Option Sys
  | .count =>
    if s.dev.hw.Counting then
      some { s with dev := s.dev.setHw s.dev.hw.count, log := s.log ++ [.count] }
    else none
  | .taskStart tmoUs =>
    if s.isr = none ∧ s.task = none then
      match startArgs s.dev.opened mhz tmoUs with
      | .error _ => some s
      | .ok (psc,pr) => some { s with task := some ⟨s.next,psc,pr,.setCb⟩, next := s.next + 1 }
    else none
  | .taskStop =>
    if s.isr = none ∧ s.task = none then some { s with dev := s.dev.stop, log := s.log ++ [.drop] }
    else none
  | .taskGo =>
    if s.isr = none then
      s.task.map fun c => { s with
        dev := (c.go s.dev).1, task := (c.go s.dev).2.2, log := s.log ++ (c.go s.dev).2.1 }
    else none
  | .irq =>
    if s.isr = none ∧ s.dev.hw.con.flag = true ∧ s.dev.hw.IntrEn then
      match s.dev.cb with
      | some n => some { s with isr := some (.callback none), log := s.log ++ [.call n] }
      | none => some { s with isr := some .readPng }
    else none
  | .cbStart tmoUs =>
    if s.isr = some (.callback none) then
      match startArgs s.dev.opened mhz tmoUs with
      | .error _ => some s
      | .ok (psc,pr) => some { s with
          isr := some (.callback (some ⟨s.next,psc,pr,.setCb⟩)), next := s.next + 1 }
    else none
  | .cbStop =>
    if s.isr = some (.callback none) then some { s with dev := s.dev.stop, log := s.log ++ [.drop] }
    else none
  | .isrGo => s.isr.map s.isrGo

/-- The timer as hgtimer_v2_open leaves it, with no mode selected. -/
def opened (flag : Bool) (cnt pr : BitVec 16) : Sys where
  dev := { hw := ⟨FlagReg.blank flag,cnt,pr⟩, opened := true, mode := .once, cb := none }
  task := none
  isr := none
  next := 0
  log := []

end FmacSdk.Hgtimer
