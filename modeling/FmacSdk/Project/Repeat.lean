import FmacSdk.Project.SyscfgFlush
import FmacSdk.Project.ChanList

/-! # The same call again

A setter that compares its argument with the stored field does nothing when it is
called again, unless the field is too narrow for the argument or the value is
clamped after the comparison.
-/
namespace FmacSdk.Syscfg

/-- A call into ieee80211_* or lmac_*. -/
def Call.intoStack : Call → Bool
  | .conf _ _ _ | .iface _ _ _ | .deliverInit _ _ | .lmac _ _ | .lmacGetTxpower => true
  | .gpioSetVal _ | .systemSleep | .systemResume _ | .atcmdRecv _ _ => false

/-- The configuration, the flash and the layers below are left alone. -/
structure Silent (w w' : World) : Prop where
  cfgs : w'.cfgs = w.cfgs
  saved : w'.saved = w.saved
  calls : w'.calls.filter Call.intoStack = w.calls.filter Call.intoStack

/-- Called twice, `f` is silent the second time. -/
def Repeats (f : World → World × ℤ) (w : World) : Prop := Silent (f w).1 (f (f w).1).1

/-- The interface and the radio keep the value that they were given. -/
structure Echoes (drv : Driver) : Prop where
  channel : ∀ (calls : List Call) (ifidx channel : BitVec 8), drv.answer (calls ++
    [.conf ifidx .channel [channel.toNat],.iface ifidx .getChannel []]) = channel.toNat
  txpower : ∀ (calls : List Call) (txpower : BitVec 8), drv.answer (calls ++
    [.lmac .txpower [txpower.toNat],.lmacGetTxpower]) = txpower.toNat

/-- The operations that compare their arguments with what is stored. -/
def Op.compares : Op → Bool
  | .setPriChan _ | .setWkhostReasons _ _ | .setPairedStas _ _ | .setRtc _ | .setRadioOnoff _
  | .setApChanSwitch _ _ => false
  | _ => true

/-- When such an operation is silent the second time. -/
def Op.repeats (c : SysConfig) : Op → Bool
  | .setBeaconInt beaconInt => beaconInt.toNat < 2 ^ 16
  | .setBssMaxidle maxIdle => maxIdle.toNat < 2 ^ 16
  | .setDtimPeriod dtimPeriod => (dtimPeriod / c.beaconInt.setWidth 32).toNat < 2 ^ 16
  | .setSleepAplostTime time => time.toNat < 2 ^ 16
  | .setWkioMode mode => mode.toNat < 2 ^ 1 ∨ c.autoSave = 0
  | .setPsmode psmode => psmode.toNat < 2 ^ 3 ∨ c.autoSave = 0
  | .setWkdataSave wkdataSave => wkdataSave.toNat < 2 ^ 1 ∨ c.autoSave = 0
  | .setAutosleep autosleep => autosleep.toNat < 2 ^ 1 ∨ c.autoSave = 0
  | .setReassocWkhost enable => enable.toNat < 2 ^ 1 ∨ c.autoSave = 0
  | .setPairAutostop en => en.toNat < 2 ^ 1 ∨ c.autoSave = 0
  | .setDhcpcEn en => en.toNat < 2 ^ 1 ∨ c.autoSave = 0
  | .setMacFilterEn en => en.toNat < 2 ^ 1 ∨ c.autoSave = 0
  | .setDupFilterEn en => en.toNat < 2 ^ 1 ∨ c.autoSave = 0
  | .setDis1v1M2u dis => dis.toNat < 2 ^ 1 ∨ c.autoSave = 0
  | .setDisPsconnect dis => dis.toNat < 2 ^ 1 ∨ c.autoSave = 0
  | .setConnectPaironly en => en.toNat < 2 ^ 1 ∨ (c.autoSave = 0 ∧ en.toNat % 2 = 0)
  | .setAutoSave on => on.toNat < 2 ^ 1
  | .setAutoChanSwitch disable => disable.toNat < 2 ^ 1
  | .setSuperPwr superPwr => superPwr.toNat < 2 ^ 3
  | .setDcdc13 en => en.toNat < 2 ^ 2
  | .setPaPwrctrlDis dis => dis.toNat < 2 ^ 1
  | .setAntAutoOff off => off.toNat < 2 ^ 1
  | .setAntSel sel => sel.toNat < 2 ^ 1
  | .setApHide en => en.toNat < 2 ^ 1
  | .setDualAnt en => en.toNat < 2 ^ 1
  | .setCcaForCe en => en.toNat < 2 ^ 1
  | .setApPsmode en => en.toNat < 2 ^ 1
  | .setWakeupIo io edge => io.toNat < 2 ^ 7 ∧ edge.toNat < 2 ^ 1
  | .setRoaming vals count => roamChanged c vals count → (vals 0).toNat < 2 ^ 1
  | .setStandby channel periodMs =>
    c.standbyChannel ≠ channel ∨ c.standbyPeriodMs ≠ periodMs →
      channel = 1 ∨ (channel ≠ 0 ∧ channel ≤ c.chanCnt)
  | _ => true

section Updates
variable {w : World}

theorem Silent.refl (w : World) : Silent w w := ⟨rfl,rfl,rfl⟩

theorem update_saved {changed : Prop} [Decidable changed] {cfgs : SysConfig} {cs : List Call} :
    (w.update changed cfgs cs).1.saved =
      w.saved ++ if changed ∧ cfgs.autoSave ≠ 0 then [cfgs] else [] := by
  unfold World.update
  by_cases hchanged : changed
  · simp only [hchanged,true_and]
    exact wificfgSave_saved _
  · rw [if_neg hchanged,if_neg fun h => hchanged h.1,List.append_nil]

theorem update_silent_iff {changed : Prop} [Decidable changed] {cfgs : SysConfig} {cs : List Call} :
    Silent w (w.update changed cfgs cs).1 ↔
      (changed → cfgs = w.cfgs ∧ cfgs.autoSave = 0 ∧ cs.filter Call.intoStack = []) := by
  by_cases hchanged : changed
  · rw [imp_iff_right hchanged]
    constructor
    · rintro ⟨hcfgs,hsaved,hcalls⟩
      rw [update_cfgs,if_pos hchanged] at hcfgs
      rw [update_calls,if_pos hchanged,List.filter_append] at hcalls
      refine ⟨hcfgs,?_,by simpa using hcalls⟩
      by_contra hsave
      rw [update_saved,if_pos ⟨hchanged,hsave⟩] at hsaved
      simp at hsaved
    · rintro ⟨hcfgs,hsave,hcalls⟩
      refine ⟨?_,?_,?_⟩
      · rw [update_cfgs,if_pos hchanged,hcfgs]
      · rw [update_saved,if_neg (by simp [hsave]),List.append_nil]
      · rw [update_calls,if_pos hchanged,List.filter_append,hcalls,List.append_nil]
  · refine iff_of_true ?_ fun h => absurd h hchanged
    rw [World.update,if_neg hchanged]
    exact Silent.refl w

theorem update_repeats_iff (changed : SysConfig → Prop) [∀ c, Decidable (changed c)]
    (new : SysConfig → SysConfig) (cs : SysConfig → List Call) :
    Repeats (fun u => u.update (changed u.cfgs) (new u.cfgs) (cs u.cfgs)) w ↔
      (changed w.cfgs → changed (new w.cfgs) → new (new w.cfgs) = new w.cfgs ∧
        (new (new w.cfgs)).autoSave = 0 ∧ (cs (new w.cfgs)).filter Call.intoStack = []) := by
  have hcfgs := @update_cfgs w (changed w.cfgs) _ (new w.cfgs) (cs w.cfgs)
  refine Iff.trans update_silent_iff ?_
  rw [hcfgs]
  by_cases hchanged : changed w.cfgs
  · rw [if_pos hchanged,imp_iff_right hchanged]
  · rw [if_neg hchanged]
    exact iff_of_true (fun h => absurd h hchanged) (fun h => absurd h hchanged)

theorem update_settled {changed : Prop} [Decidable changed] {cfgs : SysConfig} {cs : List Call}
    (h : ¬ changed) : Silent w (w.update changed cfgs cs).1 :=
  update_silent_iff.mpr fun hchanged => absurd hchanged h

/-- A comparison that fails once the values are stored. -/
theorem update_settles (changed : SysConfig → Prop) [∀ c, Decidable (changed c)] {cfgs : SysConfig}
    {cs : List Call} (h : ¬ changed cfgs) : ¬ changed (w.update (changed w.cfgs) cfgs cs).1.cfgs := by
  rw [update_cfgs]
  split
  · exact h
  · assumption

/-- The setters of one field that is as wide as the argument. -/
theorem update_stores {α : Type} [DecidableEq α] (field : SysConfig → α) {value : α}
    {cfgs : SysConfig} {cs : List Call} (h : field cfgs = value) :
    ¬ field (w.update (field w.cfgs ≠ value) cfgs cs).1.cfgs ≠ value :=
  update_settles (fun c => field c ≠ value) (not_not.mpr h)

variable {k n : ℕ}

/-- A comparison with a field of `k` bits, before and after the argument is stored. -/
theorem narrow_iff (stored : BitVec k) (arg : BitVec n) {P : Prop} :
    (stored.toNat ≠ arg.toNat → (arg.setWidth k).toNat ≠ arg.toNat → P) ↔ arg.toNat < 2 ^ k ∨ P := by
  by_cases hfits : arg.toNat < 2 ^ k
  · exact iff_of_true (fun _ h => absurd ((setWidth_toNat_eq_iff arg).mpr hfits) h) (Or.inl hfits)
  · have hstored : stored.toNat ≠ arg.toNat := fun h => hfits (h ▸ stored.isLt)
    have hcut := mt (setWidth_toNat_eq_iff (m := k) arg).mp hfits
    exact ⟨fun h => Or.inr (h hstored hcut),fun h _ _ => h.resolve_left hfits⟩

/-- Where the second comparison must not find a difference. -/
theorem narrow_fits_iff (stored : BitVec k) (arg : BitVec n) :
    (stored.toNat ≠ arg.toNat → ¬ (arg.setWidth k).toNat ≠ arg.toNat) ↔ arg.toNat < 2 ^ k :=
  (narrow_iff stored arg).trans (or_iff_left id)

/-- The setters of one narrow field. -/
theorem field_repeats_iff (field : SysConfig → BitVec k) (arg : BitVec n)
    (new : SysConfig → SysConfig) (cs : SysConfig → List Call)
    (hfield : ∀ c, field (new c) = arg.setWidth k) (hnew : ∀ c, new (new c) = new c) :
    Repeats (fun u => u.update ((field u.cfgs).toNat ≠ arg.toNat) (new u.cfgs) (cs u.cfgs)) w ↔
      arg.toNat < 2 ^ k ∨
        ((new w.cfgs).autoSave = 0 ∧ (cs (new w.cfgs)).filter Call.intoStack = []) := by
  refine (update_repeats_iff (fun c => (field c).toNat ≠ arg.toNat) new cs).trans ?_
  rw [hfield,hnew,narrow_iff,eq_self_iff_true,true_and]

/-- A narrow field that is stored and not pushed. -/
theorem stored_repeats_iff (field : SysConfig → BitVec k) (arg : BitVec n)
    (new : SysConfig → SysConfig) (hfield : ∀ c, field (new c) = arg.setWidth k)
    (hnew : ∀ c, new (new c) = new c) (hsave : (new w.cfgs).autoSave = w.cfgs.autoSave) :
    Repeats (fun u => u.update ((field u.cfgs).toNat ≠ arg.toNat) (new u.cfgs) []) w ↔
      decide (arg.toNat < 2 ^ k ∨ w.cfgs.autoSave = 0) = true := by
  refine (field_repeats_iff field arg new (fun _ => []) hfield hnew).trans ?_
  rw [hsave,decide_eq_true_iff]
  simp

/-- A narrow field that is pushed too. -/
theorem pushed_repeats_iff (field : SysConfig → BitVec k) (arg : BitVec n)
    (new : SysConfig → SysConfig) (cs : SysConfig → List Call)
    (hfield : ∀ c, field (new c) = arg.setWidth k) (hnew : ∀ c, new (new c) = new c)
    (hpush : (cs (new w.cfgs)).filter Call.intoStack ≠ []) :
    Repeats (fun u => u.update ((field u.cfgs).toNat ≠ arg.toNat) (new u.cfgs) (cs u.cfgs)) w ↔
      decide (arg.toNat < 2 ^ k) = true := by
  refine (field_repeats_iff field arg new cs hfield hnew).trans ?_
  rw [decide_eq_true_iff]
  exact or_iff_left fun h => hpush h.2

theorem repeats_comm {a b : World → ℕ} {new : World → SysConfig} {cs : World → List Call} :
    Repeats (fun u => u.update (a u ≠ b u) (new u) (cs u)) w ↔
      Repeats (fun u => u.update (b u ≠ a u) (new u) (cs u)) w := by
  have hcomm (u : World) :
      u.update (a u ≠ b u) (new u) (cs u) = u.update (b u ≠ a u) (new u) (cs u) :=
    if_congr ne_comm rfl rfl
  simp only [hcomm]

end Updates

section Ops
variable {drv : Driver} {w : World}

/-- A setter whose guard fails after it has passed. -/
theorem Repeats.of_guard {f : World → World × ℤ} (guard : SysConfig → Prop)
    (hidle : ∀ u : World, ¬ guard u.cfgs → (f u).1 = u)
    (hset : guard w.cfgs → ¬ guard (f w).1.cfgs) : Repeats f w := by
  have hagain : (f (f w).1).1 = (f w).1 := by
    by_cases h : guard w.cfgs
    · exact hidle _ (hset h)
    · rw [hidle w h,hidle w h]
  unfold Repeats
  rw [hagain]
  exact Silent.refl _

theorem setMode_repeats (mode : BitVec 8) : Repeats (fun u => (wificfgSetMode u mode,0)) w := by
  refine Repeats.of_guard (fun c => c.wifiMode ≠ mode) (fun u h => ?_) fun h => ?_
  · exact if_pos (not_not.mp h)
  · exact not_not.mpr (setMode_wifiMode mode)

theorem setBssBw_repeats (bssBw : BitVec 8) : Repeats (fun u => wificfgSetBssBw u bssBw) w := by
  refine Repeats.of_guard (fun c => c.bssBw ≠ bssBw ∧ ahValidBw bssBw) (fun u h => ?_) fun h => ?_
  · dsimp only [wificfgSetBssBw]
    split
    · rfl
    · rename_i hvalid
      rw [World.update,if_neg fun hne => hvalid ⟨hne,fun hbw => h ⟨hne,hbw⟩⟩]
  · dsimp only [wificfgSetBssBw]
    rw [if_neg fun hne => hne.2 h.2,update_cfgs,if_pos h.1]
    exact fun hne => hne.1 rfl

theorem setPsconnect_repeats (period roundup : BitVec 8) :
    Repeats (fun u => wificfgSetPsconnect u period roundup) w := by
  by_cases hzero : period = 0 ∨ roundup = 0
  · have hidle (u : World) : wificfgSetPsconnect u period roundup = (u,-EINVAL) := if_pos hzero
    simp only [Repeats,hidle]
    exact Silent.refl w
  · have hset (u : World) : wificfgSetPsconnect u period roundup = _ := if_neg hzero
    simp only [Repeats,hset]
    exact update_settled (update_settles
      (fun c => c.psconnectPeriod ≠ period ∨ c.psconnectRoundup ≠ roundup) (by simp))

theorem setChannel_repeats (hdrv : Echoes drv) (channel : BitVec 8) :
    Repeats (fun u => wificfgSetChannel drv u channel) w := by
  refine Repeats.of_guard (fun c => c.channel ≠ channel) (fun u h => ?_) fun h => ?_
  · exact congrArg Prod.fst (if_neg h)
  · dsimp only [wificfgSetChannel]
    rw [if_pos h,wificfgSave_cfgs]
    simp only [World.pushChannel,eachAp_eq,orAp_eq,World.store_cfgs,World.call_calls,
      World.store_calls,List.cons_append,List.nil_append,hdrv.channel]
    simp

theorem setTxPower_repeats (hdrv : Echoes drv) (txpower : BitVec 8) :
    Repeats (fun u => wificfgSetTxPower drv u txpower) w := by
  refine Repeats.of_guard (fun c => c.txpower ≠ txpower) (fun u h => ?_) fun h => ?_
  · exact congrArg Prod.fst (if_neg h)
  · dsimp only [wificfgSetTxPower]
    rw [if_pos h,wificfgSave_cfgs]
    simp only [World.store_cfgs,World.call_calls,hdrv.txpower]
    simp

theorem pushChanList_settled {chans : List (BitVec 16)} (hlen : chans.length ≤ 16) :
    ¬ (w.pushChanList drv chans).cfgs.listChanged chans := by
  have hcnt : (w.pushChanList drv chans).cfgs.chanCnt.toNat = chans.length := by
    show (BitVec.ofNat 8 chans.length).toNat = chans.length
    rw [BitVec.toNat_ofNat,Nat.mod_eq_of_lt (by omega)]
  have hstored : (w.pushChanList drv chans).cfgs.storedChans = chans := pushChanList_storedChans hlen
  rw [SysConfig.storedChans,hcnt] at hstored
  exact fun h => h.elim (fun h => h hcnt) (fun h => h hstored.symm)

theorem setChanList_repeats (chanList : ℕ → BitVec 16) (chanCnt : BitVec 8) :
    Repeats (fun u => wificfgSetChanList drv u chanList chanCnt) w := by
  refine Repeats.of_guard (fun c => c.listChanged (chanArgs chanList chanCnt) ∧
    drv.sysctrlFreqTypeMatch (chanList 0) = 0) (fun u h => ?_) fun h => ?_
  · dsimp only [wificfgSetChanList]
    split
    · rename_i hchanged
      rw [if_pos fun hfreq => h ⟨hchanged,hfreq⟩]
    · rfl
  · dsimp only [wificfgSetChanList]
    rw [if_pos h.1,if_neg (not_not.mpr h.2),wificfgSave_cfgs]
    have hlen : (chanArgs chanList chanCnt).length ≤ 16 := by simp [chanArgs]
    exact fun hne => pushChanList_settled hlen hne.1

theorem setAcktmo_repeats (tmo : BitVec 16) : Repeats (fun u => wificfgSetAcktmo u tmo) w := by
  refine Repeats.of_guard (fun c => c.ackTmo ≠ tmo) (fun u h => ?_) fun h => ?_
  · exact congrArg Prod.fst (if_neg h)
  · dsimp only [wificfgSetAcktmo]
    rw [if_pos h,World.call_cfgs,wificfgSave_cfgs]
    exact fun hne => hne rfl

theorem setMcastKey_repeats (key : BitVec 256) : Repeats (fun u => wificfgSetMcastKey u key) w := by
  refine Repeats.of_guard (fun c => c.mcastKey ≠ key) (fun u h => ?_) fun h => ?_
  · exact congrArg Prod.fst (if_neg h)
  · dsimp only [wificfgSetMcastKey]
    rw [if_pos h]
    exact fun hne => hne rfl

/-- The save is forced, so that an argument above 1 is written every time. -/
theorem setAutoSave_repeats_iff (on : BitVec 8) :
    Repeats (fun u => wificfgSetAutoSave u on) w ↔ decide (on.toNat < 2 ^ 1) = true := by
  rw [decide_eq_true_iff]
  constructor
  · intro h
    by_contra hwide
    have hstored (c : SysConfig) : c.autoSave.toNat ≠ on.toNat := fun h => hwide (h ▸ c.autoSave.isLt)
    have hwrites (u : World) : (wificfgSetAutoSave u on).1.saved.length = u.saved.length + 1 := by
      unfold wificfgSetAutoSave
      rw [if_pos (hstored u.cfgs)]
      exact List.length_append
    have hlen := congrArg List.length h.saved
    rw [hwrites] at hlen
    omega
  · intro hfits
    refine Repeats.of_guard (fun c => c.autoSave.toNat ≠ on.toNat) (fun u h => ?_) fun h => ?_
    · exact congrArg Prod.fst (if_neg h)
    · dsimp only [wificfgSetAutoSave]
      rw [if_pos h,wificfgSave_cfgs,World.store_cfgs]
      exact not_not.mpr ((setWidth_toNat_eq_iff on).mpr hfits)

theorem setSsid_repeats (ssid : List UInt8) : Repeats (fun u => wificfgSetSsid u ssid) w := by
  refine update_settled (update_settles
    (fun c => c.ssid.take SSID_MAX_LEN ≠ ssid.take SSID_MAX_LEN) (not_not.mpr ?_))
  exact List.take_of_length_le (List.length_take_le _ _)

theorem setBssid_repeats (bssid : BitVec 48) : Repeats (fun u => wificfgSetBssid u bssid) w :=
  update_settled (update_settles (fun c => modeIsSta c.wifiMode ∧ c.bssid ≠ bssid) fun h => h.2 rfl)

theorem setWaitPsmode_repeats (mode : BitVec 8) : Repeats (fun u => wificfgSetWaitPsmode u mode) w := by
  refine update_settled (update_settles
    (fun c => c.waitPsmode.toNat ≠ mode.toNat ∧ mode.toNat < DSLEEP_WAIT_MODE_NUM) ?_)
  rintro ⟨hne,hlt⟩
  exact hne ((setWidth_toNat_eq_iff mode).mpr (Nat.lt_of_lt_of_le hlt (by decide)))

theorem setSleepAplostTime_repeats_iff (time : BitVec 32) :
    Repeats (fun u => wificfgSetSleepAplostTime u time) w ↔ decide (time.toNat < 2 ^ 16) = true := by
  refine (update_repeats_iff (fun c => time > 0 ∧ c.aplostTime.toNat ≠ time.toNat)
    (fun c => { c with aplostTime := time.setWidth 16 })
    (fun c => [.conf (orAp (ifidxOf c.wifiMode false)) .aplostTime [time.toNat]])).trans ?_
  rw [decide_eq_true_iff,← narrow_fits_iff w.cfgs.aplostTime time]
  constructor
  · intro h hne hcut
    have hpos : time > 0 := by
      have hwide := mt (setWidth_toNat_eq_iff (m := 16) time).mpr hcut
      rw [gt_iff_lt,BitVec.lt_def]
      show 0 < time.toNat
      omega
    exact absurd (h ⟨hpos,hne⟩ ⟨hpos,hcut⟩).2.2 (by simp [Call.intoStack])
  · exact fun h hne hcut => (h hne.2 hcut.2).elim

theorem setSuperPwr_repeats_iff (superPwr : BitVec 8) :
    Repeats (fun u => wificfgSetSuperPwr u superPwr) w ↔ decide (superPwr.toNat < 2 ^ 3) = true := by
  refine (update_repeats_iff (fun c => c.superPwrSet = 0 ∨ c.superPwr.toNat ≠ superPwr.toNat)
    (fun c => { c with superPwr := superPwr.setWidth 3, superPwrSet := 1 })
    (fun _ => [.lmac .superPwr [superPwr.toNat]])).trans ?_
  rw [decide_eq_true_iff]
  constructor
  · intro h
    refine (narrow_fits_iff w.cfgs.superPwr superPwr).mp fun hne hcut => ?_
    exact absurd (h (Or.inr hne) (Or.inr hcut)).2.2 (by simp [Call.intoStack])
  · intro hfits hne hcut
    have hwide : (superPwr.setWidth 3).toNat ≠ superPwr.toNat :=
      hcut.resolve_left (show ¬ (1 : BitVec 1) = 0 by decide)
    exact absurd ((setWidth_toNat_eq_iff superPwr).mpr hfits) hwide

theorem setWakeupIo_repeats_iff (io edge : BitVec 8) :
    Repeats (fun u => wificfgSetWakeupIo u io edge) w ↔
      decide (io.toNat < 2 ^ 7 ∧ edge.toNat < 2 ^ 1) = true := by
  refine (update_repeats_iff
    (fun c => c.wkupIo.toNat ≠ io.toNat ∨ c.wkioEdge.toNat ≠ edge.toNat)
    (fun c => { c with wkupIo := io.setWidth 7, wkioEdge := edge.setWidth 1 })
    (fun _ => [.lmac .wakeupIo [io.toNat,edge.toNat]])).trans ?_
  rw [decide_eq_true_iff]
  constructor
  · intro h
    by_contra hwide
    have hne : w.cfgs.wkupIo.toNat ≠ io.toNat ∨ w.cfgs.wkioEdge.toNat ≠ edge.toNat := by
      have := w.cfgs.wkupIo.isLt
      have := w.cfgs.wkioEdge.isLt
      omega
    have hagain : (io.setWidth 7).toNat ≠ io.toNat ∨ (edge.setWidth 1).toNat ≠ edge.toNat := by
      rwa [ne_eq,ne_eq,setWidth_toNat_eq_iff,setWidth_toNat_eq_iff,← not_and_or]
    exact absurd (h hne hagain).2.2 (by simp [Call.intoStack])
  · rintro ⟨hio,hedge⟩ - (hne | hne)
    · exact absurd ((setWidth_toNat_eq_iff io).mpr hio) hne
    · exact absurd ((setWidth_toNat_eq_iff edge).mpr hedge) hne

/-- The channel is clamped behind the comparison. -/
theorem setStandby_repeats_iff (channel : BitVec 8) (periodMs : BitVec 32) :
    Repeats (fun u => wificfgSetStandby u channel periodMs) w ↔
      decide (w.cfgs.standbyChannel ≠ channel ∨ w.cfgs.standbyPeriodMs ≠ periodMs →
        channel = 1 ∨ (channel ≠ 0 ∧ channel ≤ w.cfgs.chanCnt)) = true := by
  let inRange (c : SysConfig) : BitVec 8 := if channel = 0 ∨ channel > c.chanCnt then 1 else channel
  refine (update_repeats_iff (fun c => c.standbyChannel ≠ channel ∨ c.standbyPeriodMs ≠ periodMs)
    (fun c => { c with standbyChannel := inRange c, standbyPeriodMs := periodMs })
    (fun c => [.lmac .standby (standbyArgs (inRange c) periodMs)])).trans ?_
  rw [decide_eq_true_iff]
  refine imp_congr_right fun _ => ?_
  have hkept : inRange w.cfgs = channel ↔ channel = 1 ∨ (channel ≠ 0 ∧ channel ≤ w.cfgs.chanCnt) := by
    dsimp only [inRange]
    split
    · rename_i h
      rw [gt_iff_lt,BitVec.lt_def] at h
      rw [BitVec.le_def,eq_comm]
      refine ⟨Or.inl,fun h' => h'.elim id fun h' => ?_⟩
      exact absurd h (not_or.mpr ⟨h'.1,Nat.not_lt.mpr h'.2⟩)
    · rename_i h
      rw [not_or,gt_iff_lt,BitVec.lt_def,Nat.not_lt] at h
      exact iff_of_true rfl (Or.inr h)
  rw [← hkept]
  constructor
  · intro h
    by_contra hne
    exact absurd (h (Or.inl hne)).2.2 (by simp [Call.intoStack])
  · rintro h (hne | hne)
    · exact absurd h hne
    · exact absurd rfl hne

theorem roamArg_roamArg (vals : ℕ → BitVec 8) (count : BitVec 8) (i : ℕ) (stored : BitVec 8) :
    roamArg vals count i (roamArg vals count i stored) = roamArg vals count i stored := by
  unfold roamArg
  split <;> rfl

theorem setRoaming_repeats_iff (vals : ℕ → BitVec 8) (count : BitVec 8) :
    Repeats (fun u => wificfgSetRoaming u vals count) w ↔
      decide (roamChanged w.cfgs vals count → (vals 0).toNat < 2 ^ 1) = true := by
  refine (update_repeats_iff (fun c => roamChanged c vals count)
    (fun c => { c with
      roamStart := (vals 0).setWidth 1
      roamRssiTh := roamArg vals count 2 c.roamRssiTh
      roamRssiDiff := roamArg vals count 3 c.roamRssiDiff
      roamRssiInt := roamArg vals count 4 c.roamRssiInt })
    (fun c => [.conf (ifidxOf c.wifiMode false) .roaming [(vals 0).toNat],
      .conf (ifidxOf c.wifiMode false) .roamConfig
        [(vals 2).toNat,(vals 3).toNat,(vals 4).toNat]])).trans ?_
  rw [decide_eq_true_iff]
  refine imp_congr_right fun hchanged => ?_
  simp only [roamArg_roamArg,ne_eq,not_true,or_false,roamChanged,BitVec.toNat_setWidth]
  constructor
  · intro h
    by_contra hwide
    have hcount : count > 0 := by
      by_contra hzero
      have hnone : count.toNat = 0 := by
        rw [gt_iff_lt,BitVec.lt_def,Nat.not_lt] at hzero
        exact Nat.le_zero.mp hzero
      have hkeep (i : ℕ) (stored : BitVec 8) : roamArg vals count i stored = stored :=
        if_neg fun h => absurd h.1 (by omega)
      simp only [roamChanged,hkeep,ne_eq,not_true,or_false] at hchanged
      exact hzero hchanged.1
    have := h ⟨hcount,by omega⟩
    exact absurd this.2.2 (by simp [Call.intoStack])
  · intro hfits h
    exact absurd (Nat.mod_eq_of_lt hfits) h.2

theorem setConnectPaironly_repeats_iff (en : BitVec 8) :
    Repeats (fun u => wificfgSetConnectPaironly u en) w ↔
      decide (en.toNat < 2 ^ 1 ∨ (w.cfgs.autoSave = 0 ∧ en.toNat % 2 = 0)) = true := by
  refine (field_repeats_iff SysConfig.pairConnOnly en
    (fun c => { c with pairConnOnly := en.setWidth 1 })
    (fun c => if en.setWidth 1 = (1 : BitVec 1) then restart c.wifiMode else [])
    (fun _ => rfl) (fun _ => rfl)).trans ?_
  rw [decide_eq_true_iff]
  refine or_congr_right (and_congr_right fun _ => ?_)
  have hodd : en.setWidth 1 = (1 : BitVec 1) ↔ en.toNat % 2 = 1 := by
    rw [← BitVec.toNat_inj,BitVec.toNat_setWidth]
    rfl
  by_cases hen : en.setWidth 1 = (1 : BitVec 1)
  · rw [if_pos hen]
    have := hodd.mp hen
    exact iff_of_false (by simp [restart,Call.intoStack]) (by omega)
  · rw [if_neg hen]
    have := mt hodd.mpr hen
    exact iff_of_true rfl (by omega)

/-- The pin is no call into the stack. -/
theorem setWkioMode_repeats_iff (mode : BitVec 8) : Repeats (fun u => wificfgSetWkioMode u mode) w ↔
    decide (mode.toNat < 2 ^ 1 ∨ w.cfgs.autoSave = 0) = true := by
  refine (field_repeats_iff SysConfig.wkioMode mode (fun c => { c with wkioMode := mode.setWidth 1 })
    (fun _ => [.gpioSetVal (mode.setWidth 1).toNat]) (fun _ => rfl) (fun _ => rfl)).trans ?_
  rw [decide_eq_true_iff]
  exact or_congr_right (and_iff_left rfl)

theorem setDtimPeriod_repeats_iff (dtimPeriod : BitVec 32) :
    Repeats (fun u => wificfgSetDtimPeriod u dtimPeriod) w ↔
      decide ((dtimPeriod / w.cfgs.beaconInt.setWidth 32).toNat < 2 ^ 16) = true := by
  let quotient (c : SysConfig) : BitVec 32 := dtimPeriod / c.beaconInt.setWidth 32
  refine (update_repeats_iff (fun c => c.dtimPeriod.toNat ≠ (quotient c).toNat)
    (fun c => { c with dtimPeriod := (quotient c).setWidth 16 })
    (fun c => eachAp (ifidxOf c.wifiMode false)
      fun i => [.conf i .dtimInt [((quotient c).setWidth 16).toNat]])).trans ?_
  rw [decide_eq_true_iff,← narrow_fits_iff w.cfgs.dtimPeriod (quotient w.cfgs)]
  refine imp_congr_right fun _ => imp_congr_right fun _ => iff_of_false (fun h => ?_) id
  exact absurd h.2.2 (by simp [Call.intoStack])

theorem op_repeats_iff (hdrv : Echoes drv) {op : Op} (hcompares : op.compares = true) :
    Repeats (fun u => op.apply drv u) w ↔ op.repeats w.cfgs = true := by
  cases op with
  | setTxBw txBw => exact iff_of_true (update_settled (update_stores SysConfig.txBw rfl)) rfl
  | setTxMcs txMcs => exact iff_of_true (update_settled (update_stores SysConfig.txMcs rfl)) rfl
  | setMacaddr addr => exact iff_of_true (update_settled (update_stores SysConfig.mac rfl)) rfl
  | setWpaPsk psk => exact iff_of_true (update_settled (update_stores SysConfig.psk rfl)) rfl
  | setKeyMgmt keyMgmt => exact iff_of_true (update_settled (update_stores SysConfig.keyMgmt rfl)) rfl
  | setAggCnt aggCnt => exact iff_of_true (update_settled (update_stores SysConfig.aggCnt rfl)) rfl
  | setAutoSleepTime time => exact iff_of_true (update_settled (update_stores SysConfig.autoSleepTime rfl)) rfl
  | setMode mode => exact iff_of_true (setMode_repeats mode) rfl
  | setBssBw bssBw => exact iff_of_true (setBssBw_repeats bssBw) rfl
  | setChannel channel => exact iff_of_true (setChannel_repeats hdrv channel) rfl
  | setChanList chanList chanCnt => exact iff_of_true (setChanList_repeats chanList chanCnt) rfl
  | setSsid ssid => exact iff_of_true (setSsid_repeats ssid) rfl
  | setBssid bssid => exact iff_of_true (setBssid_repeats bssid) rfl
  | setTxPower txpower => exact iff_of_true (setTxPower_repeats hdrv txpower) rfl
  | setPsconnect period roundup => exact iff_of_true (setPsconnect_repeats period roundup) rfl
  | setWaitPsmode mode => exact iff_of_true (setWaitPsmode_repeats mode) rfl
  | setAcktmo tmo => exact iff_of_true (setAcktmo_repeats tmo) rfl
  | setMcastKey key => exact iff_of_true (setMcastKey_repeats key) rfl
  | setAcs acs tmo =>
    exact iff_of_true (update_settled (update_settles
      (fun c => c.acsEnable ≠ acs ∨ c.acsTmo ≠ tmo) (by simp))) rfl
  | setMaxTxcnt frmMax rtsMax =>
    exact iff_of_true (update_settled (update_settles
      (fun c => frmMax ≠ c.frmMax ∨ rtsMax ≠ c.rtsMax) (by simp))) rfl
  | setRepeaterSsid | setRepeaterPsk | weak => exact iff_of_true (Silent.refl w) rfl
  | setPriChan | setWkhostReasons | setPairedStas | setRtc | setRadioOnoff | setApChanSwitch =>
    cases hcompares
  | setAutoSave on => exact setAutoSave_repeats_iff on
  | setSleepAplostTime time => exact setSleepAplostTime_repeats_iff time
  | setSuperPwr superPwr => exact setSuperPwr_repeats_iff superPwr
  | setWakeupIo io edge => exact setWakeupIo_repeats_iff io edge
  | setStandby channel periodMs => exact setStandby_repeats_iff channel periodMs
  | setRoaming vals count => exact setRoaming_repeats_iff vals count
  | setConnectPaironly en => exact setConnectPaironly_repeats_iff en
  | setWkioMode mode => exact setWkioMode_repeats_iff mode
  | setDtimPeriod dtimPeriod => exact setDtimPeriod_repeats_iff dtimPeriod
  | setPsmode psmode =>
    exact stored_repeats_iff SysConfig.psmode psmode (fun c => { c with psmode := psmode.setWidth 3 })
      (fun _ => rfl) (fun _ => rfl) rfl
  | setWkdataSave wkdataSave =>
    exact stored_repeats_iff SysConfig.wkdataSave wkdataSave (fun c => { c with wkdataSave := wkdataSave.setWidth 1 })
      (fun _ => rfl) (fun _ => rfl) rfl
  | setAutosleep autosleep =>
    exact stored_repeats_iff SysConfig.autosleep autosleep (fun c => { c with autosleep := autosleep.setWidth 1 })
      (fun _ => rfl) (fun _ => rfl) rfl
  | setReassocWkhost enable =>
    exact stored_repeats_iff SysConfig.reassocWkhost enable (fun c => { c with reassocWkhost := enable.setWidth 1 })
      (fun _ => rfl) (fun _ => rfl) rfl
  | setPairAutostop en =>
    exact stored_repeats_iff SysConfig.pairAutostop en (fun c => { c with pairAutostop := en.setWidth 1 })
      (fun _ => rfl) (fun _ => rfl) rfl
  | setDhcpcEn en =>
    exact stored_repeats_iff SysConfig.dhcpcEn en (fun c => { c with dhcpcEn := en.setWidth 1 })
      (fun _ => rfl) (fun _ => rfl) rfl
  | setMacFilterEn en =>
    exact stored_repeats_iff SysConfig.macFilterEn en (fun c => { c with macFilterEn := en.setWidth 1 })
      (fun _ => rfl) (fun _ => rfl) rfl
  | setDupFilterEn en =>
    exact repeats_comm.trans (stored_repeats_iff SysConfig.dupfilter en
      (fun c => { c with dupfilter := en.setWidth 1 }) (fun _ => rfl) (fun _ => rfl) rfl)
  | setDis1v1M2u dis =>
    exact repeats_comm.trans (stored_repeats_iff SysConfig.dis1v1M2u dis
      (fun c => { c with dis1v1M2u := dis.setWidth 1 }) (fun _ => rfl) (fun _ => rfl) rfl)
  | setDisPsconnect dis =>
    exact repeats_comm.trans (stored_repeats_iff SysConfig.disPsconnect dis
      (fun c => { c with disPsconnect := dis.setWidth 1 }) (fun _ => rfl) (fun _ => rfl) rfl)
  | setBeaconInt beaconInt =>
    exact pushed_repeats_iff SysConfig.beaconInt beaconInt
      (fun c => { c with beaconInt := beaconInt.setWidth 16 }) (fun c => eachAp (ifidxOf c.wifiMode false) fun i => [.conf i .beaconInt [beaconInt.toNat]])
      (fun _ => rfl) (fun _ => rfl) (by simp [Call.intoStack])
  | setBssMaxidle maxIdle =>
    exact pushed_repeats_iff SysConfig.bssMaxIdle maxIdle
      (fun c => { c with bssMaxIdle := maxIdle.setWidth 16 }) (fun c => eachAp (ifidxOf c.wifiMode false) fun i => [.conf i .bssMaxIdle [(maxIdle.setWidth 16).toNat]])
      (fun _ => rfl) (fun _ => rfl) (by simp [Call.intoStack])
  | setAutoChanSwitch disable =>
    exact pushed_repeats_iff SysConfig.autoChsw disable
      (fun c => { c with autoChsw := disable.setWidth 1 }) (fun _ => [.lmac .autoChanSwitch [lnot disable]])
      (fun _ => rfl) (fun _ => rfl) (by simp [Call.intoStack])
  | setDcdc13 en =>
    exact pushed_repeats_iff SysConfig.dcdc13 en
      (fun c => { c with dcdc13 := en.setWidth 2 }) (fun _ => [.lmac .vdd13 [en.toNat]])
      (fun _ => rfl) (fun _ => rfl) (by simp [Call.intoStack])
  | setPaPwrctrlDis dis =>
    exact pushed_repeats_iff SysConfig.paPwrctrlDis dis
      (fun c => { c with paPwrctrlDis := dis.setWidth 1 }) (fun _ => [.lmac .paPwrCtrl [lnot dis]])
      (fun _ => rfl) (fun _ => rfl) (by simp [Call.intoStack])
  | setApHide en =>
    exact pushed_repeats_iff SysConfig.apHide en
      (fun c => { c with apHide := en.setWidth 1 }) (fun c => eachAp (ifidxOf c.wifiMode false) fun i => [.conf i .aphide [en.toNat]])
      (fun _ => rfl) (fun _ => rfl) (by simp [Call.intoStack])
  | setAntAutoOff off =>
    exact repeats_comm.trans (pushed_repeats_iff SysConfig.antAutoDis off
      (fun c => { c with antAutoDis := off.setWidth 1, dualAnt := 1 }) (fun _ => [.lmac .antAutoEn [lnot off]])
      (fun _ => rfl) (fun _ => rfl) (by simp [Call.intoStack]))
  | setAntSel sel =>
    exact repeats_comm.trans (pushed_repeats_iff SysConfig.antSel sel
      (fun c => { c with antSel := sel.setWidth 1 }) (fun _ => [.lmac .antSel [sel.toNat]])
      (fun _ => rfl) (fun _ => rfl) (by simp [Call.intoStack]))
  | setDualAnt en =>
    exact repeats_comm.trans (pushed_repeats_iff SysConfig.dualAnt en
      (fun c => { c with dualAnt := en.setWidth 1 }) (fun _ => [.lmac .antDualEn [en.toNat]])
      (fun _ => rfl) (fun _ => rfl) (by simp [Call.intoStack]))
  | setCcaForCe en =>
    exact repeats_comm.trans (pushed_repeats_iff SysConfig.ccaForCe en
      (fun c => { c with ccaForCe := en.setWidth 1 }) (fun _ => [.lmac .ccaForCe [en.toNat]])
      (fun _ => rfl) (fun _ => rfl) (by simp [Call.intoStack]))
  | setApPsmode en =>
    exact repeats_comm.trans (pushed_repeats_iff SysConfig.apPsmode en
      (fun c => { c with apPsmode := en.setWidth 1 }) (fun _ => [.lmac .apPsmodeEn [en.toNat]])
      (fun _ => rfl) (fun _ => rfl) (by simp [Call.intoStack]))

end Ops

/-- The second of two calls does nothing exactly if the argument fits what stores it. -/
theorem second_silent_iff {drv : Driver} (hdrv : Echoes drv) {op : Op} (hcompares : op.compares = true)
    {w w₁ w₂ : World} (hfirst : step drv w op = some w₁) (hsecond : step drv w₁ op = some w₂) :
    Silent w₁ w₂ ↔ op.repeats w.cfgs = true := by
  rw [← op_repeats_iff hdrv hcompares,step_eq hsecond,step_eq hfirst]
  rfl

/-- A driver that answers with the value that was pushed last. -/
def echoDriver : Driver :=
  { zeroDriver with
    answer := fun calls => match calls.reverse with
      | .iface _ .getChannel _ :: .conf _ .channel [channel] :: _ => channel
      | .lmacGetTxpower :: .lmac .txpower [txpower] :: _ => txpower
      | _ => 0 }

theorem echoDriver_echoes : Echoes echoDriver :=
  ⟨fun _ _ _ => by simp [echoDriver],fun _ _ => by simp [echoDriver]⟩

theorem second_silent_iff_channel : ∃ w₁ w₂, step echoDriver booted (.setChannel 3) = some w₁ ∧
    step echoDriver w₁ (.setChannel 3) = some w₂ ∧ Silent w₁ w₂ := by
  refine ⟨_,_,rfl,rfl,?_⟩
  have hcompares : Op.compares (.setChannel 3) = true := rfl
  exact (second_silent_iff (w := booted) echoDriver_echoes hcompares rfl rfl).mpr rfl

/-- 8 is cut to 0 in the three bits of psmode, so that it always differs. -/
theorem psmode_saved_again : ∃ w₁ w₂, step echoDriver booted (.setPsmode 8) = some w₁ ∧
    step echoDriver w₁ (.setPsmode 8) = some w₂ ∧ w₁.cfgs.psmode = 0 ∧
    w₂.saved.length = w₁.saved.length + 1 ∧ ¬ Silent w₁ w₂ :=
  ⟨_,_,rfl,rfl,rfl,rfl,fun h => absurd (congrArg List.length h.saved) (by decide)⟩

end FmacSdk.Syscfg
