import FmacSdk.Foundation.Transition
import FmacSdk.Project.WifiCfg

/-! # The ranges of the configuration under the setters

syscfg_check enforces ranges at boot; of the setters only a few check their
arguments. Every setter stores one group of fields, so what it does to the
ranges is a condition on its own arguments, and the ranges hold along exactly
the runs in which every call meets its condition.
-/
namespace FmacSdk.Syscfg
open Transition

/-- The ranges that syscfg_check enforces. -/
structure OK (c : SysConfig) : Prop where
  beaconInt : 1 ≤ c.beaconInt.toNat ∧ c.beaconInt.toNat ≤ 10000
  dtimPeriod : 1 ≤ c.dtimPeriod.toNat
  bssMaxIdle : 1 ≤ c.bssMaxIdle.toNat
  aplostTime : 1 ≤ c.aplostTime.toNat
  chanCnt : c.chanCnt.toNat ≤ 16
  psmode : c.psmode.toNat < DSLEEP_MODE_NUM
  waitPsmode : c.waitPsmode.toNat < DSLEEP_WAIT_MODE_NUM
  psconnectPeriod : c.psconnectPeriod ≠ 0
  psconnectRoundup : c.psconnectRoundup ≠ 0
  standbyPeriodMs : c.standbyPeriodMs ≠ 0
  standbyChannel : 1 ≤ c.standbyChannel.toNat ∧ c.standbyChannel.toNat ≤ max 1 c.chanCnt.toNat
  frmMax : c.frmMax ≠ 0
  rtsMax : c.rtsMax ≠ 0
  txBw : ahValidBw c.txBw
  autoSleepTime : c.autoSleepTime ≠ 0

/-- When a setter keeps the ranges of a state in which they hold. -/
def Op.keeps (drv : Driver) (w : World) : Op → Bool
  | .setTxBw txBw => ahValidBw txBw
  | .setChanList chanList chanCnt =>
    drv.sysctrlFreqTypeMatch (chanList 0) ≠ 0 ∨
      w.cfgs.standbyChannel.toNat ≤ max 1 (min chanCnt.toNat 16)
  | .setBeaconInt beaconInt => 1 ≤ beaconInt.toNat % 2 ^ 16 ∧ beaconInt.toNat % 2 ^ 16 ≤ 10000
  | .setBssMaxidle maxIdle => maxIdle.toNat % 2 ^ 16 ≠ 0
  | .setDtimPeriod dtimPeriod => dtimPeriod.toNat / w.cfgs.beaconInt.toNat % 2 ^ 16 ≠ 0
  | .setPsmode psmode => psmode.toNat % 8 ≠ 7
  | .setStandby _ periodMs => periodMs ≠ 0
  | .setSleepAplostTime time => time = 0 ∨ time.toNat % 2 ^ 16 ≠ 0
  | .setAutoSleepTime time => time ≠ 0
  | .setMaxTxcnt frmMax rtsMax => frmMax ≠ 0 ∧ rtsMax ≠ 0
  | _ => true

variable {drv : Driver} {w : World}

/-- A setter of the common shape, its guard being free where nothing changes. -/
theorem update_ok_iff (hok : OK w.cfgs) {changed keeps : Prop} [Decidable changed]
    {cfgs : SysConfig} {cs : List Call} (hstored : changed → (OK cfgs ↔ keeps))
    (hsame : ¬ changed → keeps) : OK (w.update changed cfgs cs).1.cfgs ↔ keeps := by
  rw [update_cfgs]
  by_cases h : changed
  · rw [if_pos h]
    exact hstored h
  · rw [if_neg h]
    exact iff_of_true hok (hsame h)

theorem update_ok (hok : OK w.cfgs) {changed : Prop} [Decidable changed] {cfgs : SysConfig}
    {cs : List Call} (hstored : OK cfgs) : OK (w.update changed cfgs cs).1.cfgs := by
  rw [update_cfgs]
  split
  · exact hstored
  · exact hok

theorem wificfgFlush_cfgs (ifidx : BitVec 8) : (wificfgFlush w ifidx).cfgs = w.cfgs := rfl

theorem setMode_ok (hok : OK w.cfgs) (mode : BitVec 8) : OK (wificfgSetMode w mode).cfgs := by
  have hstored : OK { w.cfgs with wifiMode := mode } := { hok with }
  unfold wificfgSetMode
  simp only [apply_ite World.cfgs,wificfgSave_cfgs,World.call_cfgs,wificfgFlush_cfgs,World.store_cfgs]
  split
  · exact hok
  · simpa using hstored

theorem setBssBw_ok (hok : OK w.cfgs) (bssBw : BitVec 8) : OK (wificfgSetBssBw w bssBw).1.cfgs := by
  unfold wificfgSetBssBw
  dsimp only
  split
  · exact hok
  · exact update_ok hok { hok with }

theorem setTxBw_ok_iff (hok : OK w.cfgs) (txBw : BitVec 8) :
    OK (wificfgSetTxBw w txBw).1.cfgs ↔ ahValidBw txBw := by
  apply update_ok_iff hok
  · rintro -
    exact ⟨fun h => h.txBw,fun h => { hok with txBw := h }⟩
  · intro h
    rw [← not_not.mp h]
    exact hok.txBw

theorem setBeaconInt_ok_iff (hok : OK w.cfgs) (beaconInt : BitVec 32) :
    OK (wificfgSetBeaconInt w beaconInt).1.cfgs ↔
      1 ≤ beaconInt.toNat % 2 ^ 16 ∧ beaconInt.toNat % 2 ^ 16 ≤ 10000 := by
  apply update_ok_iff hok
  · rintro -
    rw [← BitVec.toNat_setWidth]
    exact ⟨fun h => h.beaconInt,fun h => { hok with beaconInt := h }⟩
  · intro h
    have := hok.beaconInt
    omega

theorem setBssMaxidle_ok_iff (hok : OK w.cfgs) (maxIdle : BitVec 32) :
    OK (wificfgSetBssMaxidle w maxIdle).1.cfgs ↔ maxIdle.toNat % 2 ^ 16 ≠ 0 := by
  apply update_ok_iff hok
  · rintro -
    rw [← BitVec.toNat_setWidth,← Nat.one_le_iff_ne_zero]
    exact ⟨fun h => h.bssMaxIdle,fun h => { hok with bssMaxIdle := h }⟩
  · intro h
    have := hok.bssMaxIdle
    omega

theorem setDtimPeriod_ok_iff (hok : OK w.cfgs) (dtimPeriod : BitVec 32) :
    OK (wificfgSetDtimPeriod w dtimPeriod).1.cfgs ↔
      dtimPeriod.toNat / w.cfgs.beaconInt.toNat % 2 ^ 16 ≠ 0 := by
  have hq : (dtimPeriod / w.cfgs.beaconInt.setWidth 32).toNat
      = dtimPeriod.toNat / w.cfgs.beaconInt.toNat := by
    rw [BitVec.toNat_udiv,BitVec.toNat_setWidth,Nat.mod_eq_of_lt (by omega)]
  rw [← hq]
  apply update_ok_iff hok
  · rintro -
    rw [← BitVec.toNat_setWidth,← Nat.one_le_iff_ne_zero]
    exact ⟨fun h => h.dtimPeriod,fun h => { hok with dtimPeriod := h }⟩
  · intro h
    have := hok.dtimPeriod
    omega

theorem setPsmode_ok_iff (hok : OK w.cfgs) (psmode : BitVec 8) :
    OK (wificfgSetPsmode w psmode).1.cfgs ↔ psmode.toNat % 8 ≠ 7 := by
  have hlow : (psmode.setWidth 3).toNat < DSLEEP_MODE_NUM ↔ psmode.toNat % 8 ≠ 7 := by
    simp only [DSLEEP_MODE_NUM,BitVec.toNat_setWidth]
    omega
  rw [← hlow]
  apply update_ok_iff hok
  · rintro -
    exact ⟨fun h => h.psmode,fun h => { hok with psmode := h }⟩
  · intro h
    have := hok.psmode
    rw [BitVec.toNat_setWidth]
    omega

theorem setWaitPsmode_ok (hok : OK w.cfgs) (mode : BitVec 8) :
    OK (wificfgSetWaitPsmode w mode).1.cfgs := by
  unfold wificfgSetWaitPsmode
  rw [update_cfgs]
  split
  · rename_i h
    have hmode : (mode.setWidth 2).toNat < DSLEEP_WAIT_MODE_NUM := by
      rw [BitVec.toNat_setWidth]
      exact (Nat.mod_le _ _).trans_lt h.2
    exact { hok with waitPsmode := hmode }
  · exact hok

theorem setPsconnect_ok (hok : OK w.cfgs) (period roundup : BitVec 8) :
    OK (wificfgSetPsconnect w period roundup).1.cfgs := by
  unfold wificfgSetPsconnect
  split
  · exact hok
  · rename_i h
    rw [not_or] at h
    exact update_ok hok { hok with psconnectPeriod := h.1, psconnectRoundup := h.2 }

/-- The setter puts the channel into its range, so only the period is left. -/
theorem setStandby_ok_iff (hok : OK w.cfgs) (channel : BitVec 8) (periodMs : BitVec 32) :
    OK (wificfgSetStandby w channel periodMs).1.cfgs ↔ periodMs ≠ 0 := by
  apply update_ok_iff hok
  · rintro -
    refine ⟨fun h => h.standbyPeriodMs,fun h => { hok with
      standbyPeriodMs := h, standbyChannel := ?_ }⟩
    dsimp only
    split
    · simp
    · rename_i hrange
      rw [not_or] at hrange
      have hpos : channel.toNat ≠ 0 := fun h0 => hrange.1 (BitVec.eq_of_toNat_eq h0)
      have hle : channel.toNat ≤ w.cfgs.chanCnt.toNat := BitVec.le_def.mp (BitVec.not_lt.mp hrange.2)
      omega
  · intro h
    rw [not_or,not_not,not_not] at h
    rw [← h.2]
    exact hok.standbyPeriodMs

theorem setSleepAplostTime_ok_iff (hok : OK w.cfgs) (time : BitVec 32) :
    OK (wificfgSetSleepAplostTime w time).1.cfgs ↔ time = 0 ∨ time.toNat % 2 ^ 16 ≠ 0 := by
  apply update_ok_iff hok
  · rintro ⟨hpos,-⟩
    have hne : time ≠ 0 := by
      rintro rfl
      exact absurd hpos (by decide)
    rw [or_iff_right hne,← BitVec.toNat_setWidth,← Nat.one_le_iff_ne_zero]
    exact ⟨fun h => h.aplostTime,fun h => { hok with aplostTime := h }⟩
  · intro h
    by_cases hzero : time = 0
    · exact Or.inl hzero
    · have hpos : time > 0 := (BitVec.pos_iff_ne_zero time).mpr hzero
      have hsame : w.cfgs.aplostTime.toNat = time.toNat := by
        by_contra hne
        exact h ⟨hpos,hne⟩
      have := hok.aplostTime
      omega

theorem setAutoSleepTime_ok_iff (hok : OK w.cfgs) (time : BitVec 8) :
    OK (wificfgSetAutoSleepTime w time).1.cfgs ↔ time ≠ 0 := by
  have hstime : (if time > 32 then -1 else time.setWidth 16 * 1000 : BitVec 16) ≠ 0 ↔ time ≠ 0 := by
    revert time
    decide
  rw [← hstime]
  apply update_ok_iff hok
  · rintro -
    exact ⟨fun h => h.autoSleepTime,fun h => { hok with autoSleepTime := h }⟩
  · intro h
    rw [← not_not.mp h]
    exact hok.autoSleepTime

theorem setMaxTxcnt_ok_iff (hok : OK w.cfgs) (frmMax rtsMax : BitVec 8) :
    OK (wificfgSetMaxTxcnt w frmMax rtsMax).1.cfgs ↔ frmMax ≠ 0 ∧ rtsMax ≠ 0 := by
  apply update_ok_iff hok
  · rintro -
    exact ⟨fun h => ⟨h.frmMax,h.rtsMax⟩,fun h => { hok with frmMax := h.1, rtsMax := h.2 }⟩
  · intro h
    rw [not_or,not_not,not_not] at h
    rw [h.1,h.2]
    exact ⟨hok.frmMax,hok.rtsMax⟩

theorem pushChannel_ok {cfgs : SysConfig} (h : OK cfgs) (cs : List Call) :
    OK (w.pushChannel drv cfgs cs).cfgs := { h with }

theorem setChannel_ok (hok : OK w.cfgs) (channel : BitVec 8) :
    OK (wificfgSetChannel drv w channel).1.cfgs := by
  unfold wificfgSetChannel
  dsimp only
  split
  · rw [wificfgSave_cfgs]
    exact pushChannel_ok hok _
  · exact hok

theorem chanArgs_length (chanList : ℕ → BitVec 16) (chanCnt : BitVec 8) :
    (chanArgs chanList chanCnt).length = min chanCnt.toNat 16 := by
  simp [chanArgs]

/-- Storing a list of at most 16 channels bounds standby_channel by its length. -/
theorem pushChanList_ok_iff (hok : OK w.cfgs) {chans : List (BitVec 16)} (hlen : chans.length ≤ 16) :
    OK (w.pushChanList drv chans).cfgs ↔ w.cfgs.standbyChannel.toNat ≤ max 1 chans.length := by
  have hcnt : (BitVec.ofNat 8 chans.length).toNat = chans.length := by
    rw [BitVec.toNat_ofNat,Nat.mod_eq_of_lt (by omega)]
  constructor
  · intro h
    have := h.standbyChannel.2
    rwa [← hcnt]
  · intro h
    rw [← hcnt] at h hlen
    exact { hok with chanCnt := hlen, standbyChannel := ⟨hok.standbyChannel.1,h⟩ }

theorem setChanList_ok_iff (hok : OK w.cfgs) (chanList : ℕ → BitVec 16) (chanCnt : BitVec 8) :
    OK (wificfgSetChanList drv w chanList chanCnt).1.cfgs ↔
      drv.sysctrlFreqTypeMatch (chanList 0) ≠ 0 ∨
        w.cfgs.standbyChannel.toNat ≤ max 1 (min chanCnt.toNat 16) := by
  have hlen := chanArgs_length chanList chanCnt
  unfold wificfgSetChanList
  dsimp only
  split
  · split
    · rename_i hfreq
      exact iff_of_true hok (Or.inl hfreq)
    · rename_i hfreq
      rw [wificfgSave_cfgs,pushChanList_ok_iff hok (by omega),hlen,or_iff_right hfreq]
  · rename_i hsame
    have hcnt : w.cfgs.chanCnt.toNat = min chanCnt.toNat 16 := by
      rw [← hlen]
      exact not_not.mp (not_or.mp hsame).1
    exact iff_of_true hok (Or.inr (hcnt ▸ hok.standbyChannel.2))

/-- What any setter does to the ranges of a state in which they hold. -/
theorem apply_ok_iff (hok : OK w.cfgs) (op : Op) :
    OK (op.apply drv w).1.cfgs ↔ op.keeps drv w = true := by
  cases op with
  | setTxBw txBw => exact (setTxBw_ok_iff hok txBw).trans decide_eq_true_iff.symm
  | setChanList chanList chanCnt => exact (setChanList_ok_iff hok chanList chanCnt).trans decide_eq_true_iff.symm
  | setBeaconInt beaconInt => exact (setBeaconInt_ok_iff hok beaconInt).trans decide_eq_true_iff.symm
  | setBssMaxidle maxIdle => exact (setBssMaxidle_ok_iff hok maxIdle).trans decide_eq_true_iff.symm
  | setDtimPeriod dtimPeriod => exact (setDtimPeriod_ok_iff hok dtimPeriod).trans decide_eq_true_iff.symm
  | setPsmode psmode => exact (setPsmode_ok_iff hok psmode).trans decide_eq_true_iff.symm
  | setStandby channel periodMs => exact (setStandby_ok_iff hok channel periodMs).trans decide_eq_true_iff.symm
  | setSleepAplostTime time => exact (setSleepAplostTime_ok_iff hok time).trans decide_eq_true_iff.symm
  | setAutoSleepTime time => exact (setAutoSleepTime_ok_iff hok time).trans decide_eq_true_iff.symm
  | setMaxTxcnt frmMax rtsMax => exact (setMaxTxcnt_ok_iff hok frmMax rtsMax).trans decide_eq_true_iff.symm
  | setPriChan priChan => exact iff_of_true (update_ok (w := w.call _) hok { hok with }) rfl
  | setMode mode => exact iff_of_true (setMode_ok hok mode) rfl
  | setBssBw bssBw => exact iff_of_true (setBssBw_ok hok bssBw) rfl
  | setChannel channel => exact iff_of_true (setChannel_ok hok channel) rfl
  | setPsconnect period roundup => exact iff_of_true (setPsconnect_ok hok period roundup) rfl
  | setWaitPsmode mode => exact iff_of_true (setWaitPsmode_ok hok mode) rfl
  | setTxPower txpower =>
    refine iff_of_true ?_ rfl
    show OK (wificfgSetTxPower drv w txpower).1.cfgs
    unfold wificfgSetTxPower
    split
    · rw [wificfgSave_cfgs]
      exact { hok with }
    · exact hok
  | setAutoSave on =>
    refine iff_of_true ?_ rfl
    show OK (wificfgSetAutoSave w on).1.cfgs
    unfold wificfgSetAutoSave
    split
    · rw [wificfgSave_cfgs]
      exact { hok with }
    · exact hok
  | setAcktmo tmo =>
    refine iff_of_true ?_ rfl
    show OK (wificfgSetAcktmo w tmo).1.cfgs
    unfold wificfgSetAcktmo
    split
    · rw [World.call_cfgs,wificfgSave_cfgs]
      exact { hok with }
    · exact hok
  | setApChanSwitch chan counter =>
    refine iff_of_true ?_ rfl
    show OK (wificfgSetApChanSwitch w chan counter).1.cfgs
    unfold wificfgSetApChanSwitch
    split <;> exact hok
  | setMcastKey key =>
    refine iff_of_true ?_ rfl
    show OK (wificfgSetMcastKey w key).1.cfgs
    unfold wificfgSetMcastKey
    dsimp only
    split
    · exact { hok with }
    · exact hok
  | setRepeaterSsid | setRepeaterPsk | setRtc | setRadioOnoff | weak => exact iff_of_true hok rfl
  | _ => exact iff_of_true (update_ok hok { hok with }) rfl

/-- When boot leaves the ranges behind, in terms of the stored image. -/
abbrev BootKeeps (stored : SysConfig) : Prop :=
  (ahValidBw stored.txBw ∨ ahValidBw stored.bssBw) ∧
    ¬ (16 < stored.standbyChannel.toNat ∧ stored.standbyChannel.toNat ≤ stored.chanCnt.toNat)

/-- The default channel list comes with a bandwidth, whatever the module. -/
theorem setDefaultChanlist_cases (moduleType : BitVec 8) (c : SysConfig) :
    (c.chanCnt ≠ 0 ∧ syscfgSetDefaultChanlist moduleType c = c) ∨
    (c.chanCnt = 0 ∧ ∃ chans bw, 0 < chans.length ∧ chans.length ≤ 16 ∧ ahValidBw bw ∧
      syscfgSetDefaultChanlist moduleType c = { c.setChannels chans with bssBw := bw }) := by
  unfold syscfgSetDefaultChanlist
  by_cases hcnt : c.chanCnt = 0
  · refine Or.inr ⟨hcnt,?_⟩
    rw [if_neg (not_not.mpr hcnt)]
    split
    · exact ⟨_,_,by decide,by decide,by decide,rfl⟩
    · split
      · exact ⟨_,_,by decide,by decide,by decide,rfl⟩
      · split
        · exact ⟨_,_,by decide,by decide,by decide,rfl⟩
        · split <;> exact ⟨_,_,by decide,by decide,by decide,rfl⟩
  · exact Or.inl ⟨hcnt,if_pos hcnt⟩

theorem setChannels_chanCnt {c : SysConfig} {chans : List (BitVec 16)} (h : chans.length ≤ 16) :
    (c.setChannels chans).chanCnt.toNat = chans.length := by
  simp only [SysConfig.setChannels,BitVec.toNat_ofNat]
  exact Nat.mod_eq_of_lt (by omega)

/-- The default channel list changes the ranges of no image but their bound on
standby_channel, which it leaves at 1. -/
theorem setDefaultChanlist_ok_iff (moduleType : BitVec 8) {c : SysConfig}
    (hstandby : c.chanCnt = 0 → c.standbyChannel = 1) :
    OK (syscfgSetDefaultChanlist moduleType c) ↔ OK c := by
  obtain ⟨-,he⟩ | ⟨hcnt,chans,bw,hpos,hlen,-,he⟩ := setDefaultChanlist_cases moduleType c
  · rw [he]
  · have hone := hstandby hcnt
    have hnew := setChannels_chanCnt (c := c) hlen
    rw [he]
    constructor
    · intro h
      exact { h with chanCnt := by simp [hcnt], standbyChannel := by simp [hone] }
    · intro h
      exact { h with
        chanCnt := hnew.trans_le hlen
        standbyChannel := by simp [SysConfig.setChannels,hone] }

theorem syscfgCheck_txBw_iff (c : SysConfig) :
    ahValidBw (syscfgCheck c).txBw ↔ ahValidBw c.txBw ∨ ahValidBw c.bssBw := by
  unfold syscfgCheck
  by_cases h : ahValidBw c.txBw
  · simp only [h,not_true_eq_false,if_false,true_or]
  · simp only [h,not_false_eq_true,if_true,false_or]

/-- standby_channel is compared with chan_cnt before chan_cnt is cut to 16. -/
theorem syscfgCheck_standbyChannel_iff (c : SysConfig) :
    (1 ≤ (syscfgCheck c).standbyChannel.toNat ∧
      (syscfgCheck c).standbyChannel.toNat ≤ max 1 (syscfgCheck c).chanCnt.toNat) ↔
      ¬ (16 < c.standbyChannel.toNat ∧ c.standbyChannel.toNat ≤ c.chanCnt.toNat) := by
  simp only [syscfgCheck,gt_iff_lt,BitVec.lt_def,← BitVec.toNat_inj,BitVec.ofNat_eq_ofNat,
    BitVec.toNat_ofNat]
  split <;> split <;> simp <;> omega

theorem syscfgCheck_ok_iff (c : SysConfig) : OK (syscfgCheck c) ↔ BootKeeps c := by
  have htx := syscfgCheck_txBw_iff c
  have hstandby := syscfgCheck_standbyChannel_iff c
  constructor
  · intro h
    exact ⟨htx.mp h.txBw,hstandby.mp h.standbyChannel⟩
  · rintro ⟨hbw,hch⟩
    have hlow (x : BitVec 16) (d : BitVec 16) (hd : 1 ≤ d.toNat) :
        1 ≤ (if x = 0 then d else x).toNat := by
      split <;> bv_omega
    refine ⟨?_,hlow _ _ (by decide),hlow _ _ (by decide),hlow _ _ (by decide),?_,?_,?_,?_,?_,?_,
      hstandby.mpr hch,?_,?_,htx.mpr hbw,?_⟩
    all_goals
      unfold syscfgCheck
      dsimp only
      split
      · decide
      · first | assumption | (simp only [DSLEEP_MODE_NUM,DSLEEP_WAIT_MODE_NUM] at *; omega) | bv_omega

theorem syscfgCheck_chanCnt_eq_zero_iff (c : SysConfig) :
    (syscfgCheck c).chanCnt = 0 ↔ c.chanCnt = 0 := by
  simp only [syscfgCheck,gt_iff_lt]
  split <;> bv_omega

theorem syscfgCheck_standbyChannel_eq_one {c : SysConfig} (h : c.chanCnt = 0) :
    (syscfgCheck c).standbyChannel = 1 := by
  simp only [syscfgCheck,gt_iff_lt,h]
  split <;> bv_omega

theorem boot_ok_iff (moduleType : BitVec 8) (stored : SysConfig) :
    OK (boot moduleType stored) ↔ BootKeeps stored := by
  rw [boot,setDefaultChanlist_ok_iff,syscfgCheck_ok_iff]
  intro hcnt
  exact syscfgCheck_standbyChannel_eq_one ((syscfgCheck_chanCnt_eq_zero_iff stored).mp hcnt)

theorem step_isSome (hok : OK w.cfgs) (op : Op) : step drv w op = some (op.apply drv w).1 := by
  have hint : w.cfgs.beaconInt ≠ 0 := by
    intro h
    have := hok.beaconInt.1
    rw [h] at this
    exact absurd this (by decide)
  cases op with
  | setDtimPeriod dtimPeriod => exact if_neg hint
  | _ => rfl

/-- Boot leaves the ranges behind exactly for the images above. From there on the
ranges hold in every state of a run, where the next call then never divides by
zero, exactly if every call meets its condition. -/
theorem ok_along_iff (drv : Driver) :
    (∀ moduleType stored, OK (boot moduleType stored) ↔ BootKeeps stored) ∧
    ∀ w ops w', OK w.cfgs → Runs (step drv) w ops w' →
      ((∀ ms u, ms <+: ops → Runs (step drv) w ms u →
          OK u.cfgs ∧ ∀ op, (step drv u op).isSome = true) ↔
        Runs (guarded (fun u (op : Op) => op.keeps drv u = true) (step drv)) w ops w') := by
  refine ⟨boot_ok_iff,fun w ops w' hok hrun => ?_⟩
  apply Runs.guarded_iff (I := fun u : World => OK u.cfgs)
    (P := fun u : World => OK u.cfgs ∧ ∀ op, (step drv u op).isSome = true) _ _ _ hok hrun
  · intro u hu
    refine ⟨hu,fun op => ?_⟩
    rw [step_isSome hu]
    rfl
  · intro u op v hu hkeeps hv
    obtain rfl : (op.apply drv u).1 = v := by simpa [step_isSome hu] using hv
    exact (apply_ok_iff hu op).mpr hkeeps
  · intro u op v hu hv hpost
    obtain rfl : (op.apply drv u).1 = v := by simpa [step_isSome hu] using hv
    exact (apply_ok_iff hu op).mp hpost.1

theorem booted_ok : OK booted.cfgs := (boot_ok_iff 0 { defaults with bssBw := 8 }).mpr (by decide)

theorem ok_along_iff_booted : ∀ ms u, ms <+: [Op.setBeaconInt 200,.setDtimPeriod 400] →
    Runs (step zeroDriver) booted ms u →
      OK u.cfgs ∧ ∀ op, (step zeroDriver u op).isSome = true := by
  obtain ⟨w',hw⟩ : ∃ w', exec (guarded (fun u (op : Op) => op.keeps zeroDriver u = true)
      (step zeroDriver)) booted [.setBeaconInt 200,.setDtimPeriod 400] = some w' := ⟨_,rfl⟩
  have hrun := Runs.of_exec hw
  exact ((ok_along_iff zeroDriver).2 booted _ w' booted_ok hrun.of_guarded).mpr hrun

/-- A beacon interval of zero is stored, and the next dtim_period divides by it. -/
theorem zero_beacon_int : OK booted.cfgs ∧
    ¬ OK ((Op.setBeaconInt 0).apply zeroDriver booted).1.cfgs ∧
    exec (step zeroDriver) booted [.setBeaconInt 0,.setDtimPeriod 400] = none :=
  ⟨booted_ok,fun h => absurd h.beaconInt.1 (by decide),rfl⟩

end FmacSdk.Syscfg
