import FmacSdk.Project.SyscfgRanges

/-! # Boot

main repairs the image that it loaded and fills in a channel list when there is
none. Which images come out with every range established depends on two repairs
that read a field before its own range is established.
-/
namespace FmacSdk.Syscfg

/-- The ranges behind the checks of syscfg_check. -/
structure Checked (c : SysConfig) : Prop where
  standbyChannel : 1 ≤ c.standbyChannel.toNat ∧ c.standbyChannel.toNat ≤ max 1 c.chanCnt.toNat
  chanCnt : c.chanCnt.toNat ≤ 16
  beaconInt : 1 ≤ c.beaconInt.toNat ∧ c.beaconInt.toNat ≤ 10000
  autoSleepTime : c.autoSleepTime ≠ 0
  psconnectPeriod : c.psconnectPeriod ≠ 0
  psconnectRoundup : c.psconnectRoundup ≠ 0
  standbyPeriodMs : c.standbyPeriodMs ≠ 0
  aplostTime : c.aplostTime ≠ 0
  dtimPeriod : c.dtimPeriod ≠ 0
  bssMaxIdle : c.bssMaxIdle ≠ 0
  frmMax : c.frmMax ≠ 0
  rtsMax : c.rtsMax ≠ 0
  roamRssiDiff : c.roamRssiDiff ≠ 0
  roamRssiInt : c.roamRssiInt ≠ 0
  roamRssiTh : c.roamRssiTh ≠ 0
  psmode : c.psmode.toNat < DSLEEP_MODE_NUM
  waitPsmode : c.waitPsmode.toNat < DSLEEP_WAIT_MODE_NUM

/-- What the radio is started with. -/
structure Booted (c : SysConfig) : Prop where
  txBw : ahValidBw c.txBw
  bssBw : ahValidBw c.bssBw
  standbyChannel : 1 ≤ c.standbyChannel.toNat ∧ c.standbyChannel.toNat ≤ c.chanCnt.toNat

/-- The images that boot repairs completely. -/
abbrev Repairable (c : SysConfig) : Prop :=
  ¬ (16 < c.standbyChannel.toNat ∧ c.standbyChannel.toNat ≤ c.chanCnt.toNat) ∧
    if c.chanCnt = 0 then ahValidBw c.txBw ∨ ahValidBw c.bssBw else ahValidBw c.bssBw

/-- A repaired field is in the range that the repair checks. -/
theorem ite_not {α : Type*} {p : α → Prop} [DecidablePred p] {x d : α} (hd : ¬ p d) :
    ¬ p (if p x then d else x) := by
  split
  · exact hd
  · assumption

theorem syscfgCheck_checked_iff (c : SysConfig) : Checked (syscfgCheck c) ↔
    ¬ (16 < c.standbyChannel.toNat ∧ c.standbyChannel.toNat ≤ c.chanCnt.toNat) := by
  rw [← syscfgCheck_standbyChannel_iff]
  constructor
  · intro h
    exact h.standbyChannel
  · intro h
    have hcnt : ¬ (syscfgCheck c).chanCnt > 16 := ite_not (p := fun x : BitVec 8 => x > 16) (by decide)
    have hint : ¬ ((syscfgCheck c).beaconInt = 0 ∨ (syscfgCheck c).beaconInt > 10000) :=
      ite_not (p := fun x : BitVec 16 => x = 0 ∨ x > 10000) (by decide)
    have hps : ¬ (syscfgCheck c).psmode.toNat > DSLEEP_MODE_NUM - 1 :=
      ite_not (p := fun x : BitVec 3 => x.toNat > DSLEEP_MODE_NUM - 1) (by decide)
    have hwait : ¬ (syscfgCheck c).waitPsmode.toNat > DSLEEP_WAIT_MODE_NUM - 1 :=
      ite_not (p := fun x : BitVec 2 => x.toNat > DSLEEP_WAIT_MODE_NUM - 1) (by decide)
    refine ⟨h,?_,?_,?_,?_,?_,?_,?_,?_,?_,?_,?_,?_,?_,?_,Nat.lt_of_le_pred (by decide) (not_lt.mp hps),
      Nat.lt_of_le_pred (by decide) (not_lt.mp hwait)⟩
    · simpa [BitVec.lt_def] using hcnt
    · bv_omega
    all_goals exact ite_not (p := fun x => x = 0) (by decide)

theorem syscfgCheck_wkhostReasons (c : SysConfig) {i : ℕ} (hi : i < 32) :
    (syscfgCheck c).wkhostReasons[i] = if c.wkhostReasonsSet = 0 then
      defaultReasons.getD i c.wkhostReasons[i] else c.wkhostReasons[i] := by
  unfold syscfgCheck
  dsimp only
  split
  · rw [Vector.getElem_ofFn]
    rfl
  · rfl

/-- The reasons that are filled in do not depend on what they replace. -/
theorem wkhostReasons_idempotent (c : SysConfig) :
    (syscfgCheck (syscfgCheck c)).wkhostReasons = (syscfgCheck c).wkhostReasons := by
  apply Vector.ext
  intro i hi
  have hset : (syscfgCheck c).wkhostReasonsSet = c.wkhostReasonsSet := rfl
  rw [syscfgCheck_wkhostReasons _ hi,hset,syscfgCheck_wkhostReasons c hi]
  split
  · rw [List.getD_eq_getElem?_getD,List.getD_eq_getElem?_getD]
    cases defaultReasons[i]? <;> rfl
  · rfl

/-- Where every range holds, there is nothing to repair. -/
theorem syscfgCheck_eq_self {c : SysConfig} (h : Checked c)
    (htx : ahValidBw c.txBw ∨ c.txBw = c.bssBw)
    (hreasons : (syscfgCheck c).wkhostReasons = c.wkhostReasons) :
    syscfgCheck c = c := by
  have hstandby : (if c.standbyChannel = 0 ∨ c.standbyChannel > c.chanCnt then 1
      else c.standbyChannel) = c.standbyChannel := by
    have hrange := h.standbyChannel
    split
    · bv_omega
    · rfl
  have hint : ¬ (c.beaconInt = 0 ∨ c.beaconInt > 10000) := by
    have := h.beaconInt
    bv_omega
  have hcnt : ¬ c.chanCnt > 16 := by
    have := h.chanCnt
    bv_omega
  have hps : ¬ c.psmode.toNat > DSLEEP_MODE_NUM - 1 := not_lt.mpr (Nat.le_pred_of_lt h.psmode)
  have hwait : ¬ c.waitPsmode.toNat > DSLEEP_WAIT_MODE_NUM - 1 :=
    not_lt.mpr (Nat.le_pred_of_lt h.waitPsmode)
  have htx' : (if ¬ ahValidBw c.txBw then c.bssBw else c.txBw) = c.txBw := by
    split
    · next hn => exact (htx.resolve_left hn).symm
    · rfl
  unfold syscfgCheck at hreasons ⊢
  dsimp only at hreasons
  rw [if_neg h.autoSleepTime,if_neg h.psconnectPeriod,if_neg h.psconnectRoundup,if_neg hps,
    if_neg hwait,hstandby,if_neg h.standbyPeriodMs,if_neg hcnt,if_neg h.aplostTime,if_neg hint,
    if_neg h.dtimPeriod,if_neg h.bssMaxIdle,htx',if_neg h.frmMax,if_neg h.rtsMax,hreasons,
    if_neg h.roamRssiDiff,if_neg h.roamRssiInt,if_neg h.roamRssiTh]

theorem syscfgCheck_idempotent {c : SysConfig} (h : Checked (syscfgCheck c)) :
    syscfgCheck (syscfgCheck c) = syscfgCheck c := by
  apply syscfgCheck_eq_self h _ (wkhostReasons_idempotent c)
  show ahValidBw (if ¬ ahValidBw c.txBw then c.bssBw else c.txBw) ∨
    (if ¬ ahValidBw c.txBw then c.bssBw else c.txBw) = c.bssBw
  split
  · exact Or.inr rfl
  · next hv => exact Or.inl (not_not.mp hv)

/-- Without a channel list boot brings its own bandwidth, with one it keeps the
stored bandwidth as it is. -/
theorem boot_booted_iff {moduleType : BitVec 8} {c : SysConfig} (h : Checked (syscfgCheck c)) :
    Booted (boot moduleType c) ↔
      if c.chanCnt = 0 then ahValidBw c.txBw ∨ ahValidBw c.bssBw else ahValidBw c.bssBw := by
  have htx := syscfgCheck_txBw_iff c
  have hzero := syscfgCheck_chanCnt_eq_zero_iff c
  have hrange := h.standbyChannel
  unfold boot
  obtain ⟨hcnt,he⟩ | ⟨hcnt,chans,bw,hpos,hlen,hbw,he⟩ :=
    setDefaultChanlist_cases moduleType (syscfgCheck c)
  · rw [he,if_neg (mt hzero.mpr hcnt)]
    constructor
    · intro hb
      exact hb.bssBw
    · intro hbss
      refine ⟨htx.mpr (Or.inr hbss),hbss,hrange.1,?_⟩
      bv_omega
  · have hone := syscfgCheck_standbyChannel_eq_one (hzero.mp hcnt)
    have hnew := setChannels_chanCnt (c := syscfgCheck c) hlen
    rw [he,if_pos (hzero.mp hcnt)]
    constructor
    · intro hb
      exact htx.mp hb.txBw
    · intro hvalid
      refine ⟨htx.mpr hvalid,hbw,?_,?_⟩
      · show 1 ≤ (syscfgCheck c).standbyChannel.toNat
        rw [hone]
        decide
      · show (syscfgCheck c).standbyChannel.toNat ≤ ((syscfgCheck c).setChannels chans).chanCnt.toNat
        rw [hone,hnew]
        exact hpos

/-- The images for which boot establishes every range. -/
theorem boot_establishes_iff (moduleType : BitVec 8) (stored : SysConfig) :
    (syscfgCheck (syscfgCheck stored) = syscfgCheck stored ∧ Checked (syscfgCheck stored) ∧
      Booted (boot moduleType stored)) ↔ Repairable stored := by
  constructor
  · rintro ⟨-,hchecked,hbooted⟩
    exact ⟨(syscfgCheck_checked_iff stored).mp hchecked,(boot_booted_iff hchecked).mp hbooted⟩
  · rintro ⟨hstandby,hbw⟩
    have hchecked := (syscfgCheck_checked_iff stored).mpr hstandby
    exact ⟨syscfgCheck_idempotent hchecked,hchecked,(boot_booted_iff hchecked).mpr hbw⟩

/-- The compiled-in configuration comes out without a bandwidth, and twenty
stored channels with the last but two for standby with a channel out of range. -/
theorem boot_defaults : ¬ Booted (boot MODULE_TYPE_750M defaults) ∧
    ¬ Checked (syscfgCheck { defaults with bssBw := 8, chanCnt := 20, standbyChannel := 18 }) :=
  ⟨fun h => absurd h.txBw (by decide),fun h => absurd h.standbyChannel.2 (by decide)⟩

end FmacSdk.Syscfg
