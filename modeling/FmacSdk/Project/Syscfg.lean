import FmacSdk.Project.SysConfig

/-! # Loading, checking and flushing the configuration

The functions of syscfg.c around the setters: the choice of an interface index,
the ranges that are enforced at boot, and the flush that pushes a whole
configuration to one interface and to the radio.
-/
namespace FmacSdk.Syscfg

def MODULE_TYPE_750M : BitVec 8 := 1
def MODULE_TYPE_810M : BitVec 8 := 5
def MODULE_TYPE_850M : BitVec 8 := 16
def MODULE_TYPE_860M : BitVec 8 := 3

def syscfgSave (w : World) : World := { w with saved := w.saved ++ [w.cfgs] }

def wificfgSave (w : World) (force : ℤ) : World :=
  if force ≠ 0 ∨ w.cfgs.autoSave ≠ 0 then syscfgSave w else w

@[simp] theorem syscfgSave_cfgs (w : World) : (syscfgSave w).cfgs = w.cfgs := rfl
@[simp] theorem syscfgSave_calls (w : World) : (syscfgSave w).calls = w.calls := rfl

@[simp] theorem syscfgSave_statusChannel (w : World) :
    (syscfgSave w).statusChannel = w.statusChannel := rfl

@[simp] theorem wificfgSave_cfgs (w : World) (force : ℤ) : (wificfgSave w force).cfgs = w.cfgs := by
  unfold wificfgSave
  split <;> rfl

@[simp] theorem wificfgSave_calls (w : World) (force : ℤ) :
    (wificfgSave w force).calls = w.calls := by
  unfold wificfgSave
  split <;> rfl

@[simp] theorem wificfgSave_statusChannel (w : World) (force : ℤ) :
    (wificfgSave w force).statusChannel = w.statusChannel := by
  unfold wificfgSave
  split <;> rfl

theorem wificfgSave_saved (w : World) :
    (wificfgSave w 0).saved = w.saved ++ if w.cfgs.autoSave ≠ 0 then [w.cfgs] else [] := by
  unfold wificfgSave
  by_cases hsave : w.cfgs.autoSave ≠ 0
  · rw [if_pos (Or.inr hsave),if_pos hsave]
    rfl
  · rw [if_neg (not_or.mpr ⟨fun h => h rfl,hsave⟩),if_neg hsave,List.append_nil]

/-- The dual-AP mode is signalled by -1, an unknown mode by 0. -/
def wificfgGetIfidx (wifiMode : BitVec 8) (switchAp : Bool) : ℤ :=
  if wifiMode = WIFI_MODE_STA ∨ wifiMode = WIFI_MODE_AP ∨ wifiMode = WIFI_MODE_WNBSTA
      ∨ wifiMode = WIFI_MODE_WNBAP then wifiMode.toNat
  else if wifiMode = WIFI_MODE_AP_STA then
    if switchAp then WIFI_MODE_AP.toNat else WIFI_MODE_STA.toNat
  else if wifiMode = WIFI_MODE_WNBAP_WNBSTA then
    if switchAp then WIFI_MODE_WNBAP.toNat else WIFI_MODE_WNBSTA.toNat
  else if wifiMode = WIFI_MODE_AP_WNBSTA then
    if switchAp then WIFI_MODE_AP.toNat else WIFI_MODE_WNBSTA.toNat
  else if wifiMode = WIFI_MODE_WNBAP_STA then
    if switchAp then WIFI_MODE_WNBAP.toNat else WIFI_MODE_STA.toNat
  else if wifiMode = WIFI_MODE_AP_WNBAP then -1
  else 0

/-- Every caller stores the index in a uint8. -/
def ifidxOf (wifiMode : BitVec 8) (switchAp : Bool) : BitVec 8 :=
  BitVec.ofInt 8 (wificfgGetIfidx wifiMode switchAp)

/-- `if (ifidx < 0) { both APs } else { ifidx }` around calls `f`. -/
def eachAp (ifidx : BitVec 8) (f : BitVec 8 → List Call) : List Call :=
  if (ifidx.toNat : ℤ) < 0 then f WIFI_MODE_AP ++ f WIFI_MODE_WNBAP else f ifidx

/-- `if (ifidx < 0) ifidx = WIFI_MODE_AP` -/
def orAp (ifidx : BitVec 8) : BitVec 8 := if (ifidx.toNat : ℤ) < 0 then WIFI_MODE_AP else ifidx

@[simp] theorem uint8_not_neg (x : BitVec 8) : ¬ (x.toNat : ℤ) < 0 := by omega

@[simp] theorem eachAp_eq (ifidx : BitVec 8) (f : BitVec 8 → List Call) : eachAp ifidx f = f ifidx :=
  if_neg (uint8_not_neg ifidx)

@[simp] theorem orAp_eq (ifidx : BitVec 8) : orAp ifidx = ifidx := if_neg (uint8_not_neg ifidx)

/-- The first `chan_cnt` entries of chan_list. -/
def SysConfig.channels (c : SysConfig) : List ℕ :=
  (c.chanList.toList.take c.chanCnt.toNat).map BitVec.toNat

def SysConfig.setChannels (c : SysConfig) (chans : List (BitVec 16)) : SysConfig :=
  { c with
    chanList := Vector.ofFn fun i => chans.getD i c.chanList[i]
    chanCnt := BitVec.ofNat 8 chans.length }

def syscfgSetDefaultChanlist (moduleType : BitVec 8) (c : SysConfig) : SysConfig :=
  if c.chanCnt ≠ 0 then c
  else if moduleType = MODULE_TYPE_750M then { c.setChannels [7640,7720,7800] with bssBw := 8 }
  else if moduleType = MODULE_TYPE_810M then { c.setChannels [8050,8150] with bssBw := 8 }
  else if moduleType = MODULE_TYPE_850M then { c.setChannels [8450,8550] with bssBw := 8 }
  else if moduleType = MODULE_TYPE_860M then { c.setChannels [8640,8660] with bssBw := 2 }
  else { c.setChannels [9080,9160,9240] with bssBw := 8 }

/-- The assignments of syscfg_check to wkhost_reasons, DSLEEP_WK_REASON_TIM first. -/
def defaultReasons : List (BitVec 8) := [2,3,4,9,11,8,7,12]

/-- The checks of syscfg_check. None reads a field that an earlier one may have
changed, so they are one update: standby_channel meets chan_cnt unbounded. -/
def syscfgCheck (c : SysConfig) : SysConfig :=
  { c with
    autoSleepTime := if c.autoSleepTime = 0 then 10000 else c.autoSleepTime
    psconnectPeriod := if c.psconnectPeriod = 0 then 60 else c.psconnectPeriod
    psconnectRoundup := if c.psconnectRoundup = 0 then 4 else c.psconnectRoundup
    psmode := if c.psmode.toNat > DSLEEP_MODE_NUM - 1 then 0 else c.psmode
    waitPsmode := if c.waitPsmode.toNat > DSLEEP_WAIT_MODE_NUM - 1 then 0 else c.waitPsmode
    standbyChannel :=
      if c.standbyChannel = 0 ∨ c.standbyChannel > c.chanCnt then 1 else c.standbyChannel
    standbyPeriodMs := if c.standbyPeriodMs = 0 then 5000 else c.standbyPeriodMs
    chanCnt := if c.chanCnt > 16 then 16 else c.chanCnt
    aplostTime := if c.aplostTime = 0 then 7 else c.aplostTime
    beaconInt := if c.beaconInt = 0 ∨ c.beaconInt > 10000 then 500 else c.beaconInt
    dtimPeriod := if c.dtimPeriod = 0 then 2 else c.dtimPeriod
    bssMaxIdle := if c.bssMaxIdle = 0 then 300 else c.bssMaxIdle
    txBw := if ¬ ahValidBw c.txBw then c.bssBw else c.txBw
    frmMax := if c.frmMax = 0 then 7 else c.frmMax
    rtsMax := if c.rtsMax = 0 then 31 else c.rtsMax
    wkhostReasons := if c.wkhostReasonsSet = 0 then
      Vector.ofFn fun i => defaultReasons.getD i c.wkhostReasons[i] else c.wkhostReasons
    roamRssiDiff := if c.roamRssiDiff = 0 then 12 else c.roamRssiDiff
    roamRssiInt := if c.roamRssiInt = 0 then 5 else c.roamRssiInt
    roamRssiTh := if c.roamRssiTh = 0 then BitVec.ofInt 8 (-60) else c.roamRssiTh }

/-- What main does to the image that it loaded, up to the first setter. -/
def boot (moduleType : BitVec 8) (stored : SysConfig) : SysConfig :=
  syscfgSetDefaultChanlist moduleType (syscfgCheck stored)

/-- The C operator `!` -/
def lnot {n : ℕ} (x : BitVec n) : ℕ := if x = 0 then 1 else 0

/-- The channel that a flush pushes. -/
def flushChannel (c : SysConfig) (statusChannel : BitVec 8) : BitVec 8 :=
  if c.channel = 0 ∧ statusChannel ≠ 0 then statusChannel else c.channel

def flushMac (c : SysConfig) : List (ConfParam × List ℕ) :=
  if c.mac ≠ 0 then [(.mac,[c.mac.toNat])] else []

/-- The pushes of wificfg_flush to the interface behind the address; without
WIFI_REPEATER_SUPPORT the repeater branch only prints. -/
def flushConf (c : SysConfig) (statusChannel ifidx : BitVec 8) : List (ConfParam × List ℕ) :=
  [(.use4addr,[c.use4addr.toNat]),
   (.chanlist,c.channels ++ [c.chanCnt.toNat]),
   (.channel,[(flushChannel c statusChannel).toNat]),
   (.bssbw,[c.bssBw.toNat]),
   (.aplostTime,[c.aplostTime.toNat]),
   (.apPsmodeEn,[c.apPsmode.toNat]),
   (.beaconInt,[c.beaconInt.toNat]),
   (.dtimInt,[c.dtimPeriod.toNat]),
   (.bssMaxIdle,[c.bssMaxIdle.toNat])]
  ++ (if c.bssid ≠ 0 then [(.bssid,[c.bssid.toNat])] else [])
  ++ (if modeIsAp ifidx ∧ modeIsRepeater c.wifiMode ∧ c.cfgInit ≠ 0 then []
    else [(.ssid,c.ssid.map UInt8.toNat),(.keymgmt,[c.keyMgmt.toNat]),(.psk,[c.psk.toNat])])
  ++ [(.wpaCipher,[c.wpaProto.toNat,c.pairwiseCipher.toNat,c.groupCipher.toNat]),
   (.dupfilter,[1]),
   (.roaming,[c.roamStart.toNat]),
   (.roamConfig,[c.roamRssiTh.toNat,c.roamRssiDiff.toNat,c.roamRssiInt.toNat]),
   (.wpaGroupRekey,[0])]

/-- The values that lmac_set_standby gets for a channel and a period. -/
def standbyArgs (channel : BitVec 8) (periodMs : BitVec 32) : List ℕ :=
  [(channel.setWidth 32 - 1).toNat,(periodMs * 1000).toNat]

/-- The pushes of wificfg_flush to the radio. -/
def flushLmac (c : SysConfig) : List (LmacParam × List ℕ) :=
  [(.bssBw,[c.bssBw.toNat]),
   (.txMcs,[c.txMcs.toNat]),
   (.txpower,[c.txpower.toNat]),
   (.aggcnt,[c.aggCnt.toNat]),
   (.autoChanSwitch,[lnot c.autoChsw]),
   (.wakeupIo,[c.wkupIo.toNat,c.wkioEdge.toNat]),
   (.superPwr,[if c.superPwrSet ≠ 0 then c.superPwr.toNat else TX_PWR_SUPER_EN.toNat]),
   (.paPwrCtrl,[lnot c.paPwrctrlDis]),
   (.vdd13,[c.dcdc13.toNat]),
   (.ackTimeoutExtra,[c.ackTmo.toNat])]
  ++ (if c.dualAnt ≠ 0 then [(.antAutoEn,[lnot c.antAutoDis]),(.antSel,[c.antSel.toNat])] else [])
  ++ [(.psMode,[c.psmode.toNat]),
   (.waitPsmode,[c.waitPsmode.toNat]),
   (.psconnectPeriod,[c.psconnectPeriod.toNat]),
   (.apPsmodeEn,[c.apPsmode.toNat]),
   (.standby,standbyArgs c.standbyChannel c.standbyPeriodMs),
   (.ccaForCe,[c.ccaForCe.toNat])]

def confs (ifidx : BitVec 8) (ps : List (ConfParam × List ℕ)) : List Call :=
  ps.map fun p => .conf ifidx p.1 p.2

/-- The calls of wificfg_flush in the order of the source. -/
def flushCalls (c : SysConfig) (statusChannel ifidx : BitVec 8) : List Call :=
  confs ifidx (flushMac c)
  ++ (if c.use4addr ≠ 0 then [.deliverInit 128 60] else [])
  ++ confs ifidx (flushConf c statusChannel ifidx)
  ++ (flushLmac c).map (fun p => .lmac p.1 p.2)
  ++ [.gpioSetVal c.wkioMode.toNat]

def wificfgFlush (w : World) (ifidx : BitVec 8) : World :=
  w.call (flushCalls w.cfgs w.statusChannel ifidx)

end FmacSdk.Syscfg
