import FmacSdk.Driver.HgtimerHw
import FmacSdk.Foundation.Transition

/-! # The hardware tick

hw_timer_get_tick stops the timer, joins the overflow count with the counter and
starts it again; the interrupt counts the overflows. Both leave interrupts
disabled where they touch the register, so they exclude each other, and only the
counter goes on between their accesses.
-/
namespace FmacSdk.Hgtimer
open StatusReg Transition

/-- The next access of the function that runs with interrupts disabled. -/
inductive TickPc
  | idle
  | stop (reg : BitVec 32)
  | readCnt (reg : BitVec 32)
  | reopen (reg : BitVec 32)
  | irqRead
  | irqWrite (reg : BitVec 32)
  | irqCount
deriving DecidableEq

/-- The timer with the overflow count; beside it the counts since the start, and
every returned tick with the counts at the moment at which it was taken. -/
structure Tick where
  hw : Hw
  intrCnt : BitVec 32
  pc : TickPc
  counts : ℕ
  returned : List (BitVec 32 × ℕ)

/-- The control bits that hw_timer_init writes. -/
def tickConfig (psc : BitVec 3) : BitVec 32 :=
  HGTIMER_V2_CON_TMR_INTR_EN ||| HGTIMER_V2_CON_PSC psc
    ||| HGTIMER_V2_CON_MODE HGTIMER_V2_MODE_SEL_COUNTER
    ||| HGTIMER_V2_CON_INC_SRC HGTIMER_V2_SOURCE_SYS_RISING

def hwTimerInit (psc : BitVec 3) (hw : Hw) : Tick where
  hw := {
    con := hw.con.write (HGTIMER_V2_CON_TIMER_PNG ||| tickConfig psc)
    cnt := 0
    pr := 0xFFFF }
  intrCnt := 0
  pc := .idle
  counts := 0
  returned := []

/-- The value that hw_timer_get_tick computes while the timer stands still. -/
def tickValue (reg intrCnt : BitVec 32) (cnt : BitVec 16) : BitVec 32 :=
  let overflows := if reg &&& HGTIMER_V2_CON_TIMER_PNG ≠ 0 then intrCnt + 1 else intrCnt
  overflows <<< 16 ||| cnt.setWidth 32

/-- The next access. -/
def Tick.go (s : Tick) : Option Tick :=
  match s.pc with
  | .idle => none
  | .stop reg => some { s with hw := { s.hw with con := s.hw.con.write 0 }, pc := .readCnt reg }
  | .readCnt reg => some { s with
      pc := .reopen reg
      returned := s.returned ++ [(tickValue reg s.intrCnt s.hw.cnt,s.counts)] }
  | .reopen reg => some { s with
      hw := { s.hw with con := s.hw.con.write (reg &&& 0x7FFFFFFF) }, pc := .idle }
  | .irqRead => some { s with pc := .irqWrite s.hw.con.read }
  | .irqWrite reg => some { s with
      hw := { s.hw with con := s.hw.con.write (reg ||| HGTIMER_V2_CON_TIMER_PNG) }, pc := .irqCount }
  | .irqCount => some { s with intrCnt := s.intrCnt + 1, pc := .idle }

inductive TickLabel
  | count | getTick | irq | go
deriving DecidableEq, Repr

/-- A count, the entry into one of the two functions, or the next access of the
one that runs. The counter does not overflow while an overflow is pending. -/
def tickStep (s : Tick) : TickLabel → Option Tick
  | .count =>
    if s.hw.Counting ∧ ¬ (s.hw.cnt = s.hw.pr ∧ s.hw.con.flag = true) then
      some { s with hw := s.hw.count, counts := s.counts + 1 }
    else none
  | .getTick => if s.pc = .idle then some { s with pc := .stop s.hw.con.read } else none
  | .irq =>
    if s.pc = .idle then
      some { s with pc := if s.hw.con.read &&& HGTIMER_V2_CON_TIMER_PNG ≠ 0 then .irqRead else .idle }
    else none
  | .go => s.go

/-- The returned ticks are the counts, and they never go backwards. -/
structure Exact (returned : List (BitVec 32 × ℕ)) : Prop where
  value : ∀ p ∈ returned, p.1.toNat = p.2 % 2 ^ 32
  mono : returned.Pairwise fun p q => p.2 ≤ q.2

def TickPc.stopping : TickPc → Bool
  | .stop _ => true
  | _ => false

/-- No tick is read while an overflow is pending, and none falls between the
read of the register and the stop. -/
def Tick.Clear (s : Tick) : TickLabel → Prop
  | .getTick => s.hw.con.flag = false
  | .count => s.pc.stopping = true → s.hw.cnt ≠ s.hw.pr
  | _ => True

/-- The register and the value held at each access, while no overflow is lost. -/
def TickPc.OK (psc : BitVec 3) (con : TmrCon) : TickPc → Prop
  | .idle => con.ctl = tickConfig psc
  | .stop reg => con.ctl = tickConfig psc ∧ con.flag = false ∧ reg = tickConfig psc
  | .readCnt reg => con.ctl = 0 ∧ con.flag = false ∧ reg = tickConfig psc
  | .reopen reg => con.ctl = 0 ∧ con.flag = false ∧ reg = tickConfig psc
  | .irqRead => con.ctl = tickConfig psc ∧ con.flag = true
  | .irqWrite reg => con.ctl = tickConfig psc ∧ con.flag = true ∧ reg = con.read
  | .irqCount => con.ctl = tickConfig psc

/-- The overflows that the software has not counted yet. -/
def Tick.owed (s : Tick) : ℕ :=
  (if s.hw.con.flag = true then 1 else 0) + (if s.pc = .irqCount then 1 else 0)

structure TickInv (psc : BitVec 3) (s : Tick) : Prop where
  total : s.counts % 2 ^ 32 = ((s.intrCnt.toNat + s.owed) * 2 ^ 16 + s.hw.cnt.toNat) % 2 ^ 32
  pr : s.hw.pr = 0xFFFF
  pc : s.pc.OK psc s.hw.con
  exact : Exact s.returned
  past : ∀ p ∈ s.returned, p.2 ≤ s.counts

theorem tickConfig_facts (psc : BitVec 3) : tickConfig psc &&& ~~~ mask 32 15 = tickConfig psc ∧
    tickConfig psc &&& 0x7FFFFFFF = tickConfig psc ∧ (tickConfig psc).getLsbD 15 = false ∧
    (HGTIMER_V2_CON_TIMER_PNG ||| tickConfig psc) &&& ~~~ mask 32 15 = tickConfig psc := by
  revert psc
  decide

theorem shift_or_toNat (c : BitVec 32) (k : BitVec 16) :
    (c <<< 16 ||| k.setWidth 32).toNat = (c.toNat * 2 ^ 16 + k.toNat) % 2 ^ 32 := by
  have hand : c <<< 16 &&& k.setWidth 32 = 0#32 := by
    apply BitVec.eq_of_getLsbD_eq
    intro i hi
    by_cases h : i < 16
    · simp [h]
    · simp [BitVec.getLsbD_of_ge k i (by omega)]
  rw [← BitVec.add_eq_or_of_and_eq_zero _ _ hand]
  simp only [BitVec.toNat_add,BitVec.toNat_shiftLeft,BitVec.toNat_setWidth,Nat.shiftLeft_eq]
  omega

/-- Counting an owed overflow keeps the total, also where the count wraps. -/
theorem counted_mod (a f c : ℕ) :
    ((a + (f + 1)) * 2 ^ 16 + c) % 2 ^ 32 = (((a + 1) % 2 ^ 32 + (f + 0)) * 2 ^ 16 + c) % 2 ^ 32 := by
  omega

theorem tickValue_config (psc : BitVec 3) (intrCnt : BitVec 32) (cnt : BitVec 16) :
    (tickValue (tickConfig psc) intrCnt cnt).toNat =
      (intrCnt.toNat * 2 ^ 16 + cnt.toNat) % 2 ^ 32 := by
  have hclear : ¬ tickConfig psc &&& HGTIMER_V2_CON_TIMER_PNG ≠ 0 := by
    revert psc
    decide
  rw [tickValue,if_neg hclear]
  exact shift_or_toNat intrCnt cnt

theorem init_inv (psc : BitVec 3) (hw : Hw) : TickInv psc (hwTimerInit psc hw) := by
  have hpng : (HGTIMER_V2_CON_TIMER_PNG ||| tickConfig psc).getLsbD 15 = true := by
    revert psc
    decide
  have hflag : (hwTimerInit psc hw).hw.con.flag = false := by
    show (hw.con.flag && !(HGTIMER_V2_CON_TIMER_PNG ||| tickConfig psc).getLsbD 15) = false
    rw [hpng,Bool.not_true,Bool.and_false]
  refine ⟨?_,rfl,(tickConfig_facts psc).2.2.2,⟨by simp [hwTimerInit],List.Pairwise.nil⟩,by simp [hwTimerInit]⟩
  rw [Tick.owed,hflag]
  show 0 % 2 ^ 32 = ((0 + ((if false = true then 1 else 0) + if TickPc.idle = .irqCount then 1 else 0))
    * 2 ^ 16 + 0) % 2 ^ 32
  simp

variable {psc : BitVec 3} {s t : Tick}

/-- A count adds one to the total, at an overflow through the pending flag. -/
theorem TickInv.count (h : TickInv psc s) (hclear : s.Clear .count)
    (hstep : tickStep s .count = some t) : TickInv psc t := by
  have htotal := h.total
  have hpast : ∀ p ∈ s.returned, p.2 ≤ s.counts + 1 := fun p hp => Nat.le_succ_of_le (h.past p hp)
  simp only [tickStep] at hstep
  split at hstep
  · next hrun =>
    obtain rfl := Option.some.inj hstep
    by_cases hover : s.hw.cnt = s.hw.pr
    · have hflag : s.hw.con.flag = false := by simpa [hover] using hrun.2
      have hcnt : s.hw.cnt.toNat = 65535 := by rw [hover,h.pr]; rfl
      rw [Hw.count_of_eq hover]
      refine ⟨?_,h.pr,?_,h.exact,hpast⟩
      · simp only [Tick.owed,hflag,FlagReg.raise_flag] at htotal ⊢
        simp only [Bool.false_eq_true,if_false,if_true,BitVec.ofNat_eq_ofNat,BitVec.toNat_ofNat,
          Nat.zero_mod] at htotal ⊢
        omega
      · have hpc := h.pc
        show s.pc.OK psc s.hw.con.raise
        cases hs : s.pc with
        | stop reg => exact absurd hover (hclear (by rw [hs]; rfl))
        | readCnt reg | reopen reg =>
          rw [hs] at hpc
          exact absurd hrun.1 (by simp [Hw.Counting,hpc.1])
        | irqRead =>
          rw [hs] at hpc
          simp [hpc.2] at hflag
        | irqWrite reg =>
          rw [hs] at hpc
          simp [hpc.2.1] at hflag
        | idle | irqCount =>
          rw [hs] at hpc
          exact hpc
    · have hcnt : (s.hw.cnt + 1).toNat = s.hw.cnt.toNat + 1 := by
        have hpr := h.pr
        bv_omega
      rw [Hw.count_of_ne hover]
      refine ⟨?_,h.pr,h.pc,h.exact,hpast⟩
      simp only [Tick.owed,hcnt] at htotal ⊢
      omega
  · simp at hstep

/-- A tick is taken with the flag clear, so the value read is the configuration. -/
theorem TickInv.getTick (h : TickInv psc s) (hclear : s.hw.con.flag = false)
    (hstep : tickStep s .getTick = some t) : TickInv psc t := by
  have htotal := h.total
  simp only [tickStep] at hstep
  split at hstep
  · next hidle =>
    obtain rfl := Option.some.inj hstep
    have hpc := h.pc
    rw [hidle] at hpc
    have hread : s.hw.con.read = tickConfig psc := by
      rw [FlagReg.read,hclear]
      exact hpc
    refine ⟨?_,h.pr,⟨hpc,hclear,hread⟩,h.exact,h.past⟩
    simpa [Tick.owed,hidle] using htotal
  · simp at hstep

theorem TickInv.irq (h : TickInv psc s) (hstep : tickStep s .irq = some t) : TickInv psc t := by
  have htotal := h.total
  simp only [tickStep] at hstep
  split at hstep
  · next hidle =>
    obtain rfl := Option.some.inj hstep
    have hpc := h.pc
    rw [hidle] at hpc
    rw [png_eq_mask]
    split
    · next hpng =>
      have hflag := (FlagReg.read_and_mask_iff (by decide) _).mp hpng
      refine ⟨?_,h.pr,⟨hpc,hflag⟩,h.exact,h.past⟩
      simpa [Tick.owed,hidle] using htotal
    · refine ⟨?_,h.pr,hpc,h.exact,h.past⟩
      simpa [Tick.owed,hidle] using htotal
  · simp at hstep

/-- While the timer stands still the value of a tick is the number of counts,
and the interrupt moves an overflow from the flag to the count. -/
theorem TickInv.go (h : TickInv psc s) (hstep : s.go = some t) : TickInv psc t := by
  have htotal := h.total
  have hpc := h.pc
  unfold Tick.go at hstep
  cases hs : s.pc with
  | idle => simp [hs] at hstep
  | stop reg =>
    rw [hs] at hpc hstep
    obtain rfl := Option.some.inj hstep
    refine ⟨?_,h.pr,⟨by simp,by simp [hpc.2.1],hpc.2.2⟩,h.exact,h.past⟩
    simpa [Tick.owed,hs,hpc.2.1] using htotal
  | readCnt reg =>
    rw [hs] at hpc hstep
    obtain rfl := Option.some.inj hstep
    have howed : s.owed = 0 := by simp [Tick.owed,hs,hpc.2.1]
    rw [howed] at htotal
    refine ⟨?_,h.pr,hpc,⟨?_,?_⟩,?_⟩
    · simpa [Tick.owed,hpc.2.1] using htotal
    · intro p hp
      rcases List.mem_append.mp hp with hp | hp
      · exact h.exact.value p hp
      · obtain rfl := List.mem_singleton.mp hp
        rw [hpc.2.2,tickValue_config]
        exact htotal.symm
    · refine List.pairwise_append.mpr ⟨h.exact.mono,List.pairwise_singleton _ _,?_⟩
      intro p hp q hq
      obtain rfl := List.mem_singleton.mp hq
      exact h.past p hp
    · intro p hp
      rcases List.mem_append.mp hp with hp | hp
      · exact h.past p hp
      · obtain rfl := List.mem_singleton.mp hp
        exact le_rfl
  | reopen reg =>
    rw [hs] at hpc hstep
    obtain rfl := Option.some.inj hstep
    refine ⟨?_,h.pr,?_,h.exact,h.past⟩
    · simpa [Tick.owed,hs,hpc.2.1] using htotal
    · have hfacts := tickConfig_facts psc
      show (reg &&& 0x7FFFFFFF) &&& ~~~ mask 32 15 = tickConfig psc
      rw [hpc.2.2,hfacts.2.1,hfacts.1]
  | irqRead =>
    rw [hs] at hpc hstep
    obtain rfl := Option.some.inj hstep
    refine ⟨?_,h.pr,⟨hpc.1,hpc.2,rfl⟩,h.exact,h.past⟩
    simpa [Tick.owed,hs] using htotal
  | irqWrite reg =>
    rw [hs] at hpc hstep
    obtain rfl := Option.some.inj hstep
    have hwrite : s.hw.con.write (reg ||| HGTIMER_V2_CON_TIMER_PNG) = { s.hw.con with flag := false } := by
      rw [hpc.2.2,png_eq_mask]
      exact FlagReg.write_read_or (by decide) _
    rw [hwrite]
    refine ⟨?_,h.pr,hpc.1,h.exact,h.past⟩
    simpa [Tick.owed,hs,hpc.2.1] using htotal
  | irqCount =>
    rw [hs] at hpc hstep
    obtain rfl := Option.some.inj hstep
    refine ⟨?_,h.pr,hpc,h.exact,h.past⟩
    have hadd : (s.intrCnt + 1).toNat = (s.intrCnt.toNat + 1) % 2 ^ 32 := BitVec.toNat_add _ _
    simp only [Tick.owed,hs,if_true,reduceCtorEq,if_false,hadd] at htotal ⊢
    exact htotal.trans (counted_mod _ _ _)

instance (s : Tick) : (l : TickLabel) → Decidable (s.Clear l)
  | .getTick => inferInstanceAs (Decidable (s.hw.con.flag = false))
  | .count => inferInstanceAs (Decidable (s.pc.stopping = true → s.hw.cnt ≠ s.hw.pr))
  | .irq | .go => isTrue trivial

theorem TickInv.step (h : TickInv psc s) {l : TickLabel} (hclear : s.Clear l)
    (hstep : tickStep s l = some t) : TickInv psc t := by
  cases l with
  | count => exact h.count hclear hstep
  | getTick => exact h.getTick hclear hstep
  | irq => exact h.irq hstep
  | go => exact h.go hstep

/-- Whatever the interleaving, the returned ticks are the counts as long as no
overflow is pending when a tick is read and none falls into its first access. -/
theorem ticks_exact (psc : BitVec 3) (hw : Hw) {ls : List TickLabel}
    (h : Runs (guarded Tick.Clear tickStep) (hwTimerInit psc hw) ls s) : Exact s.returned :=
  (h.guarded_invariant (fun _ _ _ hi hg hs => hi.step hg hs) (init_inv psc hw)).exact

def plainHw : Hw := ⟨⟨0,false,rfl⟩,0,0⟩

theorem ticks_exact_two : ∃ s : Tick, s.returned = [(2,2)] ∧ Exact s.returned := by
  obtain ⟨s,hs,hret⟩ : ∃ s, exec (guarded Tick.Clear tickStep) (hwTimerInit 7 plainHw)
      [.count,.count,.getTick,.go,.go,.go,.count] = some s ∧ s.returned = [(2,2)] := ⟨_,rfl,by decide⟩
  exact ⟨s,hret,ticks_exact 7 plainHw (Runs.of_exec hs)⟩

/-- The counter on its own, up to the end of a period. -/
theorem counts_run {n : ℕ} (hrun : s.hw.Counting) (hn : s.hw.cnt.toNat + n ≤ s.hw.pr.toNat) :
    Runs tickStep s (List.replicate n .count) { s with
      hw := { s.hw with cnt := s.hw.cnt + BitVec.ofNat 16 n }, counts := s.counts + n } := by
  induction n with
  | zero => simpa using Runs.refl s
  | succ n ih =>
    rw [List.replicate_succ']
    refine (ih (by omega)).tail ?_
    have hne : s.hw.cnt + BitVec.ofNat 16 n ≠ s.hw.pr := by
      have := s.hw.pr.isLt
      bv_omega
    have hadd : s.hw.cnt + BitVec.ofNat 16 n + 1 = s.hw.cnt + BitVec.ofNat 16 (n + 1) := by
      bv_omega
    simp only [tickStep]
    rw [if_pos ⟨hrun,fun h => hne h.1⟩,Hw.count_of_ne hne,hadd]
    rfl

/-- One count before the first overflow. -/
def fullTick : Tick :=
  { hwTimerInit 7 plainHw with hw := { (hwTimerInit 7 plainHw).hw with cnt := 65535 }, counts := 65535 }

theorem fullTick_run :
    Runs tickStep (hwTimerInit 7 plainHw) (List.replicate 65535 .count) fullTick :=
  counts_run (s := hwTimerInit 7 plainHw) (by decide) (by decide)

/-- A tick that is read while an overflow is pending is right but loses it, and
an overflow behind the first access is missed at once. -/
theorem overflow_lost :
    (∃ ls s, Runs tickStep (hwTimerInit 7 plainHw) ls s ∧
      s.returned = [(65536,65536),(0,65536)] ∧ ¬ Exact s.returned) ∧
    ∃ ls s, Runs tickStep (hwTimerInit 7 plainHw) ls s ∧
      s.returned = [(0,65536)] ∧ ¬ Exact s.returned := by
  have hwrong {returned : List (BitVec 32 × ℕ)} (h : (0,65536) ∈ returned) : ¬ Exact returned :=
    fun he => absurd (he.value _ h) (by decide)
  constructor
  · obtain ⟨s,hs,hret⟩ : ∃ s, exec tickStep fullTick
        [.count,.getTick,.go,.go,.go,.getTick,.go,.go] = some s ∧
        s.returned = [(65536,65536),(0,65536)] := ⟨_,rfl,by decide⟩
    exact ⟨_,s,fullTick_run.append (Runs.of_exec hs),hret,hwrong (by simp [hret])⟩
  · obtain ⟨s,hs,hret⟩ : ∃ s, exec tickStep fullTick [.getTick,.count,.go,.go] = some s ∧
        s.returned = [(0,65536)] := ⟨_,rfl,by decide⟩
    exact ⟨_,s,fullTick_run.append (Runs.of_exec hs),hret,hwrong (by simp [hret])⟩

end FmacSdk.Hgtimer
