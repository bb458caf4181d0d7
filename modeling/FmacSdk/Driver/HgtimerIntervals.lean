import FmacSdk.Driver.HgtimerV2

/-! # Intervals and time differences of the timer driver

hgtimer_v2_start turns microseconds into a prescaler and a period, and
hgtimer_v2_ioctl turns two readings of the counter into microseconds. Both work
on 32 bits, and the counter wraps behind TMR_PR.
-/
namespace FmacSdk.Hgtimer
open StatusReg Slots

/-- sys_get_apbclk() / 1000000, a quotient of signed numbers. -/
def apbMhz (apbclk : BitVec 32) : BitVec 32 := apbclk.sdiv 1000000

/-- The checks of hgtimer_v2_start, and the prescaler and the whole word that it
writes to TMR_PR. A failed assertion resets the chip. -/
def start (ndebug opened : Bool) (apbclk tmoUs : BitVec 32) :
    Option (Except ℤ (BitVec 3 × BitVec 32)) :=
  let overall := tmoUs * apbMhz apbclk
  if opened = false then some (.error (-ENONET))
  else if tmoUs = 0 then some (.error (-EINVAL))
  else if ndebug = false ∧ ¬ overall.toNat ≤ 2 ^ 16 * 128 then none
  else match prescaler overall with
    | none => some (.error RET_ERR)
    | some i => some (.ok (BitVec.ofFin i,(overall >>> (i : ℕ)) - 1))

inductive TimerIoctl
  | getTimestamp
  | calcTimeDiffUs
  | other
deriving DecidableEq, Repr

def Hw.psc (h : Hw) : BitVec 32 := (h.con.read &&& HGTIMER_V2_CON_PSC_MASK) >>> 8

/-- hgtimer_v2_ioctl -/
def Hw.ioctl (h : Hw) (apbclk : BitVec 32) (cmd : TimerIoctl) (param1 param2 : BitVec 32) :
    BitVec 32 :=
  match cmd with
  | .getTimestamp => h.cnt.setWidth 32
  | .calcTimeDiffUs =>
    let diff := if param2 > param1 then param2 - param1 else param2 + h.pr.setWidth 32 - param1
    (diff <<< h.psc) / apbMhz apbclk
  | .other => BitVec.ofInt 32 RET_ERR

section Clock
variable {apbclk : BitVec 32} {m : ℕ}

/-- A clock of whole megahertz. -/
theorem apbMhz_toNat (hclk : apbclk.toInt = m * 1000000) : (apbMhz apbclk).toNat = m := by
  have hpos : apbclk.toNat < 2 ^ 31 := by
    rw [BitVec.toInt_eq_toNat_cond] at hclk
    split at hclk <;> omega
  have hmsb : apbclk.msb = false := BitVec.msb_eq_false_iff_two_mul_lt.mpr (by omega)
  have hlit : (1000000 : BitVec 32).msb = false := by decide
  have hnat : apbclk.toNat = m * 1000000 := by
    rw [BitVec.toInt_eq_toNat_of_msb hmsb] at hclk
    omega
  rw [apbMhz,BitVec.sdiv_eq,hmsb,hlit]
  show apbclk.toNat / 1000000 = m
  omega

/-- The product of hgtimer_v2_start wraps. -/
theorem overall_toNat (hclk : apbclk.toInt = m * 1000000) (tmoUs : BitVec 32) :
    (tmoUs * apbMhz apbclk).toNat = tmoUs.toNat * m % 2 ^ 32 := by
  rw [BitVec.toNat_mul,apbMhz_toNat hclk]

end Clock

/-! ## Intervals -/

section Interval
variable {ndebug : Bool} {apbclk tmoUs overall : BitVec 32} {psc : BitVec 3} {pr : BitVec 32} {m : ℕ}

/-- Every product below 2 ^ 23 has a prescaler, and no other has. -/
theorem prescaler_isSome_iff : (∃ i, prescaler overall = some i) ↔ overall.toNat < 2 ^ 23 := by
  constructor
  · rintro ⟨i,hi⟩
    have hfits := prescaler_fits hi
    rw [Nat.div_lt_iff_lt_mul (Nat.two_pow_pos _)] at hfits
    have hpow : 2 ^ (i : ℕ) ≤ 2 ^ 7 := Nat.pow_le_pow_right Nat.two_pos (by omega)
    omega
  · intro hlt
    cases hnone : prescaler overall with
    | some i => exact ⟨i,rfl⟩
    | none =>
      have hlast := firstSlot_none hnone (Fin.last 7)
      simp only [Fin.val_last,decide_eq_false_iff_not] at hlast
      omega

/-- A start that is accepted has found a prescaler; the assertion never stops one. -/
theorem start_ok_iff : start ndebug true apbclk tmoUs = some (.ok (psc,pr)) ↔ tmoUs ≠ 0 ∧
    ∃ i, prescaler (tmoUs * apbMhz apbclk) = some i ∧ psc = BitVec.ofFin i ∧
      pr = ((tmoUs * apbMhz apbclk) >>> (i : ℕ)) - 1 := by
  by_cases hne : tmoUs = 0
  · simp [start,hne]
  · cases hpsc : prescaler (tmoUs * apbMhz apbclk) with
    | none =>
      simp only [start,hpsc,Bool.true_eq_false,if_false,if_neg hne]
      split <;> simp
    | some i =>
      have hlt := prescaler_isSome_iff.mp ⟨i,hpsc⟩
      have hassert : ¬ (ndebug = false ∧ ¬ (tmoUs * apbMhz apbclk).toNat ≤ 2 ^ 16 * 128) := by omega
      simp only [start,hpsc,Bool.true_eq_false,if_false,if_neg hne,if_neg hassert,Option.some.injEq,
        Except.ok.injEq,Prod.mk.injEq]
      constructor
      · rintro ⟨rfl,rfl⟩
        exact ⟨hne,i,rfl,rfl,rfl⟩
      · rintro ⟨-,j,rfl,rfl,rfl⟩
        exact ⟨rfl,rfl⟩

/-- Below the assertion, the start decides as its checks alone do and the counter
keeps the lower half of the word. -/
theorem start_startArgs {opened : Bool} {r : Except ℤ (BitVec 3 × BitVec 32)}
    (h : start ndebug opened apbclk tmoUs = some r) :
    startArgs opened (apbMhz apbclk) tmoUs = r.map fun a => (a.1,a.2.setWidth 16) := by
  unfold start at h
  dsimp only at h
  split at h
  · cases h
    simp_all [startArgs,Except.map]
  · split at h
    · cases h
      simp_all [startArgs,Except.map]
    · split at h
      · cases h
      · split at h <;> cases h <;> simp_all [startArgs,Except.map]

/-- The accesses of a start with nothing in between. -/
def Start.runs : ℕ → Start → Dev → Dev
  | 0, _, d => d
  | n + 1, c, d =>
    match (c.go d).2.2 with
    | none => (c.go d).1
    | some c' => c'.runs n (c.go d).1

theorem psc_getLsbD (h : Hw) {i : ℕ} (hi : i < 3) : h.psc.getLsbD i = h.con.ctl.getLsbD (8 + i) := by
  have hmask : ∀ j < 3, HGTIMER_V2_CON_PSC_MASK.getLsbD (8 + j) = true := by decide
  rw [Hw.psc,BitVec.getLsbD_ushiftRight,BitVec.getLsbD_and,hmask i hi,Bool.and_true,
    FlagReg.read_getLsbD_of_ne _ (by omega)]

/-- What the last write of a start leaves in the prescaler field. -/
theorem psc_writeOn (d : Dev) (v : BitVec 32) (psc : BitVec 3) {i : ℕ} (hi : i < 3)
    (hoff : v.getLsbD (8 + i) = false) :
    (d.writeCon (v ||| startOn psc)).hw.psc.getLsbD i = psc.getLsbD i := by
  have hon : ∀ p : BitVec 3, ∀ j < 3, (startOn p).getLsbD (8 + j) = p.getLsbD j := by decide
  rw [psc_getLsbD _ hi]
  show (d.hw.con.write _).ctl.getLsbD _ = _
  rw [FlagReg.write_getLsbD_of_ne _ _ (by omega),BitVec.getLsbD_or,hoff,hon psc i hi,Bool.false_or]

theorem startOff_psc {i : ℕ} (hi : i < 3) (v : BitVec 32) :
    (v &&& ~~~ startOff).getLsbD (8 + i) = false := by
  have hoff : ∀ j < 3, (~~~ startOff).getLsbD (8 + j) = false := by decide
  rw [BitVec.getLsbD_and,hoff i hi,Bool.and_false]

theorem psc_of_ge (h : Hw) {i : ℕ} (hi : 3 ≤ i) : h.psc.getLsbD i = false := by
  have hmask : ∀ j < 32, 3 ≤ j → HGTIMER_V2_CON_PSC_MASK.getLsbD (8 + j) = false := by decide
  by_cases hlt : i < 32
  · rw [Hw.psc,BitVec.getLsbD_ushiftRight,BitVec.getLsbD_and,hmask i hlt hi,Bool.and_false]
  · exact BitVec.getLsbD_of_ge _ _ (not_lt.mp hlt)

/-- Left alone, a start programs the prescaler and the period that it has computed. -/
theorem runs_programs (c : Start) (hc : c.pc = .setCb) (d : Dev) :
    (c.runs 9 d).hw.pr = c.pr ∧ (c.runs 9 d).hw.psc = c.psc.setWidth 32 := by
  obtain ⟨n,psc,pr,pc⟩ := c
  subst hc
  refine ⟨rfl,BitVec.eq_of_getLsbD_eq fun i hi => ?_⟩
  rw [BitVec.getLsbD_setWidth,decide_eq_true hi,Bool.true_and]
  by_cases h3 : i < 3
  · -- The write before has cleared the field.
    refine psc_writeOn _ _ psc h3 ?_
    rw [FlagReg.read_getLsbD_of_ne _ (by omega)]
    show (FlagReg.write _ _).ctl.getLsbD _ = _
    rw [FlagReg.write_getLsbD_of_ne _ _ (by omega)]
    exact startOff_psc h3 _
  · rw [psc_of_ge _ (not_lt.mp h3),BitVec.getLsbD_of_ge _ _ (not_lt.mp h3)]

/-- What a timeout of so many counts has to be programmed as. -/
structure Interval (counts : ℕ) (psc : BitVec 3) (pr : BitVec 32) : Prop where
  fits : pr.toNat < 2 ^ 16
  le : (pr.toNat + 1) * 2 ^ psc.toNat ≤ counts
  lt : counts < (pr.toNat + 1) * 2 ^ psc.toNat + 2 ^ psc.toNat

/-- A start that is accepted programs the product that is left after the wrap. -/
theorem start_interval (hok : start ndebug true apbclk tmoUs = some (.ok (psc,pr)))
    (hpos : tmoUs * apbMhz apbclk ≠ 0) : Interval (tmoUs * apbMhz apbclk).toNat psc pr := by
  obtain ⟨-,i,hi,rfl,rfl⟩ := start_ok_iff.mp hok
  have hfits := prescaler_fits hi
  have hquot := prescaler_pos hi hpos
  have hshift : ((tmoUs * apbMhz apbclk) >>> (i : ℕ)).toNat =
      (tmoUs * apbMhz apbclk).toNat / 2 ^ (i : ℕ) := by
    rw [BitVec.toNat_ushiftRight,Nat.shiftRight_eq_div_pow]
  have hpr : (((tmoUs * apbMhz apbclk) >>> (i : ℕ)) - 1).toNat + 1 =
      (tmoUs * apbMhz apbclk).toNat / 2 ^ (i : ℕ) := by bv_omega
  have hsplit := Nat.div_add_mod (tmoUs * apbMhz apbclk).toNat (2 ^ (i : ℕ))
  have hmod := Nat.mod_lt (tmoUs * apbMhz apbclk).toNat (Nat.two_pow_pos (i : ℕ))
  have hi3 : (BitVec.ofFin i : BitVec 3).toNat = i := rfl
  rw [Nat.mul_comm] at hsplit
  exact ⟨by omega,by rw [hpr,hi3]; omega,by rw [hpr,hi3]; omega⟩

/-- No prescaler and no period reach 2 ^ 32 counts. -/
theorem Interval.counts_lt {counts : ℕ} (h : Interval counts psc pr) : counts < 2 ^ 32 := by
  have hpsc : 2 ^ psc.toNat ≤ 2 ^ 7 := Nat.pow_le_pow_right Nat.two_pos (by omega)
  have hprod : (pr.toNat + 1) * 2 ^ psc.toNat ≤ 2 ^ 16 * 2 ^ 7 := Nat.mul_le_mul h.fits hpsc
  have hlt := h.lt
  omega

/-- A start at `m` MHz is refused or programs its timeout, and is not refused below
2 ^ 23 counts. -/
structure StartsRight (ndebug : Bool) (apbclk tmoUs : BitVec 32) (m : ℕ) : Prop where
  interval : ∀ psc pr, start ndebug true apbclk tmoUs = some (.ok (psc,pr)) →
    Interval (tmoUs.toNat * m) psc pr
  accepted : tmoUs.toNat * m < 2 ^ 23 → ∃ psc pr, start ndebug true apbclk tmoUs = some (.ok (psc,pr))

theorem start_accepted_iff (hne : tmoUs ≠ 0) :
    (∃ psc pr, start ndebug true apbclk tmoUs = some (.ok (psc,pr))) ↔
      (tmoUs * apbMhz apbclk).toNat < 2 ^ 23 := by
  rw [← prescaler_isSome_iff]
  constructor
  · rintro ⟨psc,pr,hok⟩
    obtain ⟨-,i,hi,-⟩ := start_ok_iff.mp hok
    exact ⟨i,hi⟩
  · rintro ⟨i,hi⟩
    exact ⟨_,_,start_ok_iff.mpr ⟨hne,i,hi,rfl,rfl⟩⟩

/-- A start does what its timeout says exactly while the product of the timeout and
the clock does not wrap, or wraps to a value that is refused. -/
theorem start_right_iff (hm : 1 ≤ m) (hclk : apbclk.toInt = m * 1000000) (hne : tmoUs ≠ 0) :
    StartsRight ndebug apbclk tmoUs m ↔
      tmoUs.toNat * m < 2 ^ 32 ∨ 2 ^ 23 ≤ tmoUs.toNat * m % 2 ^ 32 := by
  have hwrap := overall_toNat hclk tmoUs
  have haccept : (∃ psc pr, start ndebug true apbclk tmoUs = some (.ok (psc,pr))) ↔
      tmoUs.toNat * m % 2 ^ 32 < 2 ^ 23 := by
    rw [start_accepted_iff hne,hwrap]
  constructor
  · intro h
    by_contra hbad
    rw [not_or,Nat.not_lt,Nat.not_le] at hbad
    obtain ⟨psc,pr,hok⟩ := haccept.mpr hbad.2
    have hlt := (h.interval psc pr hok).counts_lt
    omega
  · intro h
    constructor
    · intro psc pr hok
      have hlow := haccept.mp ⟨psc,pr,hok⟩
      have hexact : tmoUs.toNat * m % 2 ^ 32 = tmoUs.toNat * m := Nat.mod_eq_of_lt (by omega)
      have hpos : tmoUs * apbMhz apbclk ≠ 0 := by
        intro h0
        have htmo : tmoUs.toNat ≠ 0 := fun h => hne (BitVec.eq_of_toNat_eq h)
        have hprod : 0 < tmoUs.toNat * m := Nat.mul_pos (Nat.pos_of_ne_zero htmo) hm
        rw [h0] at hwrap
        simp only [BitVec.ofNat_eq_ofNat,BitVec.toNat_ofNat] at hwrap
        omega
      have hint := start_interval hok hpos
      rwa [hwrap,hexact] at hint
    · intro hlow
      rw [haccept]
      omega

/-- One second at 48 MHz wraps to no small value. -/
theorem start_right_one_second : StartsRight true 48000000 1000000 48 :=
  (start_right_iff (m := 48) (by decide) (by decide) (by decide)).mpr (by decide)

/-- 89.5 seconds at 48 MHz wrap to 32 counts. -/
theorem start_wraps_short : ¬ StartsRight true 48000000 89478486 48 := by
  intro h
  have hlt := (h.interval 0 31 (by decide)).lt
  exact absurd hlt (by decide)

end Interval

/-! ## Time differences -/

section TimeDiff
variable {apbclk : BitVec 32} {m d : ℕ} {h : Hw}

theorem count_psc (h : Hw) : h.count.psc = h.psc := by
  have hctl : h.count.con.ctl = h.con.ctl := by
    unfold Hw.count
    split <;> rfl
  apply BitVec.eq_of_getLsbD_eq
  intro i _
  by_cases h3 : i < 3
  · rw [psc_getLsbD _ h3,psc_getLsbD _ h3,hctl]
  · rw [psc_of_ge _ (not_lt.mp h3),psc_of_ge _ (not_lt.mp h3)]

theorem psc_lt (h : Hw) : h.psc.toNat < 8 := by
  have hfield : h.psc = (h.psc.setWidth 3).setWidth 32 := by
    apply BitVec.eq_of_getLsbD_eq
    intro i hi
    rw [BitVec.getLsbD_setWidth,BitVec.getLsbD_setWidth,decide_eq_true hi,Bool.true_and]
    by_cases h3 : i < 3
    · rw [decide_eq_true h3,Bool.true_and]
    · rw [psc_of_ge _ (not_lt.mp h3),decide_eq_false h3,Bool.false_and]
  rw [hfield,BitVec.toNat_setWidth]
  exact (Nat.mod_le _ _).trans_lt (BitVec.isLt _)

/-- The counter runs over 0 to TMR_PR and wraps. -/
theorem count_iterate (hcnt : h.cnt.toNat ≤ h.pr.toNat) (d : ℕ) :
    (Hw.count^[d] h).pr = h.pr ∧ (Hw.count^[d] h).psc = h.psc ∧
      (Hw.count^[d] h).cnt.toNat = (h.cnt.toNat + d) % (h.pr.toNat + 1) := by
  induction d with
  | zero => exact ⟨rfl,rfl,(Nat.mod_eq_of_lt (Nat.lt_succ_of_le hcnt)).symm⟩
  | succ d ih =>
    obtain ⟨hpr,hpsc,hval⟩ := ih
    rw [Function.iterate_succ_apply']
    have hmod : (h.cnt.toNat + d) % (h.pr.toNat + 1) < h.pr.toNat + 1 := Nat.mod_lt _ (Nat.succ_pos _)
    refine ⟨?_,(count_psc _).trans hpsc,?_⟩
    · unfold Hw.count
      split <;> exact hpr
    · rw [← Nat.add_assoc,← Nat.mod_add_mod,← hval]
      by_cases hend : (Hw.count^[d] h).cnt = (Hw.count^[d] h).pr
      · rw [Hw.count_of_eq hend,hend,hpr,Nat.mod_self]
        rfl
      · rw [Hw.count_of_ne hend]
        have hne : (Hw.count^[d] h).cnt.toNat ≠ h.pr.toNat := fun he =>
          hend (BitVec.eq_of_toNat_eq (he.trans (congrArg BitVec.toNat hpr).symm))
        rw [Nat.mod_eq_of_lt (by omega)]
        show ((Hw.count^[d] h).cnt + 1).toNat = _
        bv_omega

/-- The counts that hgtimer_v2_ioctl finds between two stamps. -/
def stampDiff (pr p1 p2 : ℕ) : ℕ := if p1 < p2 then p2 - p1 else p2 + pr - p1

theorem timeDiff_toNat (hclk : apbclk.toInt = m * 1000000) {p1 p2 : BitVec 16}
    (h1 : p1.toNat ≤ h.pr.toNat) :
    (h.ioctl apbclk .calcTimeDiffUs (p1.setWidth 32) (p2.setWidth 32)).toNat =
      stampDiff h.pr.toNat p1.toNat p2.toNat * 2 ^ h.psc.toNat / m := by
  have hwide : ∀ p : BitVec 16, (p.setWidth 32).toNat = p.toNat := fun p => by
    rw [BitVec.toNat_setWidth,Nat.mod_eq_of_lt (by omega)]
  have hpsc : 2 ^ h.psc.toNat ≤ 2 ^ 7 :=
    Nat.pow_le_pow_right Nat.two_pos (Nat.le_of_lt_succ (psc_lt h))
  have hdiff : (if p2.setWidth 32 > p1.setWidth 32 then p2.setWidth 32 - p1.setWidth 32
      else p2.setWidth 32 + h.pr.setWidth 32 - p1.setWidth 32 : BitVec 32).toNat =
        stampDiff h.pr.toNat p1.toNat p2.toNat := by
    have hlt : p2.setWidth 32 > p1.setWidth 32 ↔ p1.toNat < p2.toNat := by
      rw [gt_iff_lt,BitVec.lt_def,hwide,hwide]
    have hw1 := hwide p1
    have hw2 := hwide p2
    have hwp := hwide h.pr
    unfold stampDiff
    by_cases hcase : p1.toNat < p2.toNat
    · rw [if_pos (hlt.mpr hcase),if_pos hcase]
      bv_omega
    · rw [if_neg (hlt.not.mpr hcase),if_neg hcase]
      bv_omega
  have hbound : stampDiff h.pr.toNat p1.toNat p2.toNat ≤ 2 ^ 17 := by
    unfold stampDiff
    split <;> omega
  have hprod : stampDiff h.pr.toNat p1.toNat p2.toNat * 2 ^ h.psc.toNat ≤ 2 ^ 17 * 2 ^ 7 :=
    Nat.mul_le_mul hbound hpsc
  rw [Hw.ioctl,BitVec.toNat_udiv,apbMhz_toNat hclk,BitVec.shiftLeft_eq',BitVec.toNat_shiftLeft,hdiff,
    Nat.shiftLeft_eq,Nat.mod_eq_of_lt (by omega)]

/-- Dropping `k` of `x` keeps the quotient exactly while the remainder holds `k`. -/
theorem sub_div_eq_iff {x k : ℕ} (hm : 0 < m) (hk : k ≤ x) : (x - k) / m = x / m ↔ k ≤ x % m := by
  have hsplit := Nat.div_add_mod x m
  have hmod := Nat.mod_lt x hm
  rw [Nat.div_eq_iff hm]
  rw [Nat.mul_comm] at hsplit
  constructor
  · rintro ⟨hle,-⟩
    omega
  · intro hrem
    exact ⟨by omega,by omega⟩

/-- The difference that is asked for comes back without a wrap between the stamps;
across a wrap one count is missing, and equal stamps give a whole period. -/
theorem timeDiff_eq_iff (hm : 1 ≤ m) (hclk : apbclk.toInt = m * 1000000) (hpr : 1 ≤ h.pr.toNat)
    (hcnt : h.cnt.toNat ≤ h.pr.toNat) (hd : d ≤ h.pr.toNat) :
    ((Hw.count^[d] h).ioctl apbclk .calcTimeDiffUs (h.ioctl apbclk .getTimestamp 0 0)
        ((Hw.count^[d] h).ioctl apbclk .getTimestamp 0 0)).toNat = d * 2 ^ h.psc.toNat / m ↔
      if d = 0 then h.pr.toNat * 2 ^ h.psc.toNat < m
      else h.cnt.toNat + d ≤ h.pr.toNat ∨ 2 ^ h.psc.toNat ≤ d * 2 ^ h.psc.toNat % m := by
  obtain ⟨hpr',hpsc',hval⟩ := count_iterate hcnt d
  show ((Hw.count^[d] h).ioctl apbclk .calcTimeDiffUs (h.cnt.setWidth 32)
    ((Hw.count^[d] h).cnt.setWidth 32)).toNat = _ ↔ _
  rw [timeDiff_toNat hclk (by rw [hpr']; exact hcnt),hpr',hpsc',hval]
  by_cases hzero : d = 0
  · -- Both stamps are the same.
    rw [if_pos hzero,hzero,Nat.add_zero,Nat.mod_eq_of_lt (Nat.lt_succ_of_le hcnt)]
    have hdiff : stampDiff h.pr.toNat h.cnt.toNat h.cnt.toNat = h.pr.toNat := by
      rw [stampDiff,if_neg (lt_irrefl _),Nat.add_sub_cancel_left]
    rw [hdiff,Nat.zero_mul,Nat.zero_div,Nat.div_eq_zero_iff_lt hm]
  · rw [if_neg hzero]
    by_cases hwrap : h.cnt.toNat + d ≤ h.pr.toNat
    · have hdiff : stampDiff h.pr.toNat h.cnt.toNat (h.cnt.toNat + d) = d := by
        rw [stampDiff,if_pos (by omega),Nat.add_sub_cancel_left]
      rw [Nat.mod_eq_of_lt (Nat.lt_succ_of_le hwrap),hdiff]
      exact iff_of_true rfl (Or.inl hwrap)
    · -- The counter has wrapped once, and the code takes TMR_PR for the whole period.
      have hmod : (h.cnt.toNat + d) % (h.pr.toNat + 1) = h.cnt.toNat + d - (h.pr.toNat + 1) := by
        rw [Nat.mod_eq_sub_mod (by omega),Nat.mod_eq_of_lt (by omega)]
      have hdiff : stampDiff h.pr.toNat h.cnt.toNat (h.cnt.toNat + d - (h.pr.toNat + 1)) = d - 1 := by
        rw [stampDiff,if_neg (by omega)]
        omega
      have hone : 2 ^ h.psc.toNat ≤ d * 2 ^ h.psc.toNat := Nat.le_mul_of_pos_left _ (by omega)
      rw [hmod,hdiff,Nat.sub_mul,Nat.one_mul,sub_div_eq_iff hm hone,or_iff_right hwrap]

theorem timeDiff_no_wrap :
    ((Hw.count^[3] ⟨FlagReg.blank false,5,9⟩).ioctl 1000000 .calcTimeDiffUs 5 8).toNat = 3 :=
  (timeDiff_eq_iff (m := 1) (d := 3) (h := ⟨FlagReg.blank false,5,9⟩)
    (by decide) (by decide) (by decide) (by decide) (by decide)).mpr (by decide)

/-- Six counts across the wrap come back as five. -/
theorem timeDiff_misses_count :
    ¬ ((Hw.count^[6] ⟨FlagReg.blank false,5,9⟩).ioctl 1000000 .calcTimeDiffUs 5 1).toNat = 6 * 2 ^ 0 / 1 :=
  by decide

end TimeDiff

end FmacSdk.Hgtimer
