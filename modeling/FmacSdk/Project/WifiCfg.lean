import FmacSdk.Project.Syscfg

/-! # The setters

The wificfg_set_* operations. Most compare their arguments with the stored
fields as C does after promotion, store them with the truncation of the field,
push the new value and save; the others keep their own body. Console output is
left out.
-/
namespace FmacSdk.Syscfg

/-- The shape that most setters share. -/
def World.update (w : World) (changed : Prop) [Decidable changed] (cfgs : SysConfig)
    (cs : List Call) : World × ℤ :=
  if changed then (wificfgSave ((w.store cfgs).call cs) 0,0) else (w,0)

section Update
variable {w : World} {changed : Prop} [Decidable changed] {cfgs : SysConfig} {cs : List Call}

@[simp] theorem update_cfgs :
    (w.update changed cfgs cs).1.cfgs = if changed then cfgs else w.cfgs := by
  unfold World.update
  split <;> simp

theorem update_calls :
    (w.update changed cfgs cs).1.calls = w.calls ++ if changed then cs else [] := by
  unfold World.update
  split <;> simp

@[simp] theorem update_statusChannel :
    (w.update changed cfgs cs).1.statusChannel = w.statusChannel := by
  unfold World.update
  split <;> simp

end Update

variable (drv : Driver) (w : World)

def wificfgSetMode (mode : BitVec 8) : World :=
  let modeAp := ifidxOf mode true
  let modeSta := ifidxOf mode false
  if w.cfgs.wifiMode = mode then w
  else
    let w := w.store { w.cfgs with wifiMode := mode }
    let w := w.call [.iface WIFI_MODE_AP .ifaceStop [],.iface WIFI_MODE_STA .ifaceStop [],
      .iface WIFI_MODE_WNBAP .ifaceStop [],.iface WIFI_MODE_WNBSTA .ifaceStop []]
    if modeIsSta mode ∨ modeIsAp mode then
      wificfgSave ((wificfgFlush w mode).call [.iface mode .ifaceStart []]) 0
    else if mode = WIFI_MODE_AP_STA ∨ mode = WIFI_MODE_WNBAP_WNBSTA ∨ mode = WIFI_MODE_AP_WNBSTA
        ∨ mode = WIFI_MODE_WNBAP_STA then
      wificfgSave ((wificfgFlush (wificfgFlush w modeAp) modeSta).call
        [.iface modeSta .ifaceStart []]) 0
    else if mode = WIFI_MODE_AP_WNBAP then
      let w := (wificfgFlush w WIFI_MODE_AP).call [.iface WIFI_MODE_AP .ifaceStart []]
      wificfgSave ((wificfgFlush w WIFI_MODE_WNBAP).call [.iface WIFI_MODE_WNBAP .ifaceStart []]) 0
    else w

def wificfgSetBssBw (bssBw : BitVec 8) : World × ℤ :=
  let ifidx := orAp (ifidxOf w.cfgs.wifiMode false)
  if w.cfgs.bssBw ≠ bssBw ∧ ¬ ahValidBw bssBw then (w,-EINVAL)
  else w.update (w.cfgs.bssBw ≠ bssBw) { w.cfgs with bssBw := bssBw }
    [.conf ifidx .bssbw [bssBw.toNat]]

def wificfgSetTxBw (txBw : BitVec 8) : World × ℤ :=
  w.update (w.cfgs.txBw ≠ txBw) { w.cfgs with txBw := txBw } [.lmac .txBw [txBw.toNat]]

def wificfgSetTxMcs (txMcs : BitVec 8) : World × ℤ :=
  w.update (w.cfgs.txMcs ≠ txMcs) { w.cfgs with txMcs := txMcs } [.lmac .txMcs [txMcs.toNat]]

/-- Pushes, then stores the channel that the interface answers. -/
def World.pushChannel (cfgs : SysConfig) (cs : List Call) : World :=
  let ifidx := orAp (ifidxOf cfgs.wifiMode false)
  let w := (w.store cfgs).call (cs ++ [.iface ifidx .getChannel []])
  w.store { cfgs with channel := BitVec.ofInt 8 (drv.answer w.calls) }

def wificfgSetChannel (channel : BitVec 8) : World × ℤ :=
  let ifidx := ifidxOf w.cfgs.wifiMode false
  if w.cfgs.channel ≠ channel then
    (wificfgSave (w.pushChannel drv w.cfgs
      (eachAp ifidx fun i => [.conf i .channel [channel.toNat]])) 0,0)
  else (w,0)

/-- Stores the list and pushes it with channel 1; the dual-AP branch pushes the
list to one AP only. -/
def World.pushChanList (chans : List (BitVec 16)) : World :=
  let ifidx := ifidxOf w.cfgs.wifiMode false
  let cfgs := w.cfgs.setChannels chans
  let list := cfgs.channels ++ [cfgs.chanCnt.toNat]
  w.pushChannel drv cfgs
    (if (ifidx.toNat : ℤ) < 0 then
      [.conf WIFI_MODE_AP .chanlist list,.conf WIFI_MODE_AP .channel [1],
        .conf WIFI_MODE_WNBAP .channel [1]]
    else [.conf ifidx .chanlist list,.conf ifidx .channel [1]])

/-- The two comparisons that decide whether a channel list is new. -/
abbrev SysConfig.listChanged (c : SysConfig) (chans : List (BitVec 16)) : Prop :=
  c.chanCnt.toNat ≠ chans.length ∨ chans ≠ c.chanList.toList.take chans.length

/-- The entries that a setter with a pointer and a count reads. -/
def chanArgs (chanList : ℕ → BitVec 16) (chanCnt : BitVec 8) : List (BitVec 16) :=
  (List.range (min chanCnt.toNat 16)).map chanList

def wificfgSetChanList (chanList : ℕ → BitVec 16) (chanCnt : BitVec 8) : World × ℤ :=
  let chans := chanArgs chanList chanCnt
  if w.cfgs.listChanged chans then
    if drv.sysctrlFreqTypeMatch (chanList 0) ≠ 0 then (w,-EINVAL)
    else (wificfgSave (w.pushChanList drv chans) 0,0)
  else (w,0)

def wificfgSetMacaddr (addr : BitVec 48) : World × ℤ :=
  let ifidx := ifidxOf w.cfgs.wifiMode false
  w.update (w.cfgs.mac ≠ addr) { w.cfgs with mac := addr }
    (eachAp ifidx fun i => [.conf i .mac [addr.toNat]])

def wificfgSetSsid (ssid : List UInt8) : World × ℤ :=
  let ifidx := ifidxOf w.cfgs.wifiMode false
  let new := ssid.take SSID_MAX_LEN
  w.update (w.cfgs.ssid.take SSID_MAX_LEN ≠ new)
    { w.cfgs with bssidSet := 0, bssid := 0, ssid := new }
    ([.conf WIFI_MODE_STA .bssid [],.conf WIFI_MODE_WNBSTA .bssid []]
      ++ eachAp ifidx fun i => [.conf i .ssid (new.map UInt8.toNat)])

def wificfgSetBssid (bssid : BitVec 48) : World × ℤ :=
  w.update (modeIsSta w.cfgs.wifiMode ∧ w.cfgs.bssid ≠ bssid) { w.cfgs with bssid := bssid }
    [.conf WIFI_MODE_STA .bssid [bssid.toNat],.conf WIFI_MODE_WNBSTA .bssid [bssid.toNat]]

def wificfgSetWpaPsk (psk : BitVec 256) : World × ℤ :=
  let ifidx := ifidxOf w.cfgs.wifiMode false
  w.update (w.cfgs.psk ≠ psk) { w.cfgs with psk := psk }
    (eachAp ifidx fun i => [.conf i .psk [psk.toNat]])

def wificfgSetKeyMgmt (keyMgmt : BitVec 32) : World × ℤ :=
  let ifidx := ifidxOf w.cfgs.wifiMode false
  w.update (w.cfgs.keyMgmt ≠ keyMgmt) { w.cfgs with keyMgmt := keyMgmt }
    (eachAp ifidx fun i => [.conf i .keymgmt [keyMgmt.toNat]])

def wificfgSetAcs (acs tmo : BitVec 8) : World × ℤ :=
  let ifidx := orAp (ifidxOf w.cfgs.wifiMode false)
  w.update (w.cfgs.acsEnable ≠ acs ∨ w.cfgs.acsTmo ≠ tmo)
    { w.cfgs with acsEnable := acs, acsTmo := tmo } [.conf ifidx .acs [acs.toNat,tmo.toNat]]

/-- The push comes first and in every case. -/
def wificfgSetPriChan (priChan : BitVec 8) : World × ℤ :=
  let w := w.call [.lmac .priChan [priChan.toNat]]
  w.update (w.cfgs.priChan ≠ priChan) { w.cfgs with priChan := priChan } []

/-- What is stored is what the radio answers, not the argument. -/
def wificfgSetTxPower (txpower : BitVec 8) : World × ℤ :=
  if w.cfgs.txpower ≠ txpower then
    let w := w.call [.lmac .txpower [txpower.toNat],.lmacGetTxpower]
    (wificfgSave (w.store { w.cfgs with txpower := BitVec.ofInt 8 (drv.answer w.calls) }) 0,0)
  else (w,0)

def wificfgSetBeaconInt (beaconInt : BitVec 32) : World × ℤ :=
  let ifidx := ifidxOf w.cfgs.wifiMode false
  w.update (w.cfgs.beaconInt.toNat ≠ beaconInt.toNat)
    { w.cfgs with beaconInt := beaconInt.setWidth 16 }
    (eachAp ifidx fun i => [.conf i .beaconInt [beaconInt.toNat]])

/-- ieee80211_conf_set_bss_max_idle takes a uint16. -/
def wificfgSetBssMaxidle (maxIdle : BitVec 32) : World × ℤ :=
  let ifidx := ifidxOf w.cfgs.wifiMode false
  w.update (w.cfgs.bssMaxIdle.toNat ≠ maxIdle.toNat)
    { w.cfgs with bssMaxIdle := maxIdle.setWidth 16 }
    (eachAp ifidx fun i => [.conf i .bssMaxIdle [(maxIdle.setWidth 16).toNat]])

def wificfgSetWkioMode (mode : BitVec 8) : World × ℤ :=
  w.update (w.cfgs.wkioMode.toNat ≠ mode.toNat) { w.cfgs with wkioMode := mode.setWidth 1 }
    [.gpioSetVal (mode.setWidth 1).toNat]

/-- The division by beacon_int comes before every test; a zero divisor gives 0
here and is excluded by `step` below. ieee80211_conf_set_dtim_int takes a uint16. -/
def wificfgSetDtimPeriod (dtimPeriod : BitVec 32) : World × ℤ :=
  let ifidx := ifidxOf w.cfgs.wifiMode false
  let dtimPeriod := dtimPeriod / w.cfgs.beaconInt.setWidth 32
  w.update (w.cfgs.dtimPeriod.toNat ≠ dtimPeriod.toNat)
    { w.cfgs with dtimPeriod := dtimPeriod.setWidth 16 }
    (eachAp ifidx fun i => [.conf i .dtimInt [(dtimPeriod.setWidth 16).toNat]])

def wificfgSetPsmode (psmode : BitVec 8) : World × ℤ :=
  w.update (w.cfgs.psmode.toNat ≠ psmode.toNat) { w.cfgs with psmode := psmode.setWidth 3 } []

def wificfgSetWkdataSave (wkdataSave : BitVec 8) : World × ℤ :=
  w.update (w.cfgs.wkdataSave.toNat ≠ wkdataSave.toNat)
    { w.cfgs with wkdataSave := wkdataSave.setWidth 1 } []

def wificfgSetAutosleep (autosleep : BitVec 8) : World × ℤ :=
  w.update (w.cfgs.autosleep.toNat ≠ autosleep.toNat)
    { w.cfgs with autosleep := autosleep.setWidth 1 } []

def wificfgSetPsconnect (period roundup : BitVec 8) : World × ℤ :=
  if period = 0 ∨ roundup = 0 then (w,-EINVAL)
  else w.update (w.cfgs.psconnectPeriod ≠ period ∨ w.cfgs.psconnectRoundup ≠ roundup)
    { w.cfgs with psconnectPeriod := period, psconnectRoundup := roundup }
    [.lmac .psconnectPeriod [period.toNat]]

def wificfgSetWaitPsmode (mode : BitVec 8) : World × ℤ :=
  w.update (w.cfgs.waitPsmode.toNat ≠ mode.toNat ∧ mode.toNat < DSLEEP_WAIT_MODE_NUM)
    { w.cfgs with waitPsmode := mode.setWidth 2 } [.lmac .waitPsmode [mode.toNat]]

def wificfgSetStandby (channel : BitVec 8) (periodMs : BitVec 32) : World × ℤ :=
  let inRange := if channel = 0 ∨ channel > w.cfgs.chanCnt then 1 else channel
  w.update (w.cfgs.standbyChannel ≠ channel ∨ w.cfgs.standbyPeriodMs ≠ periodMs)
    { w.cfgs with standbyChannel := inRange, standbyPeriodMs := periodMs }
    [.lmac .standby (standbyArgs inRange periodMs)]

def wificfgSetSleepAplostTime (time : BitVec 32) : World × ℤ :=
  let ifidx := orAp (ifidxOf w.cfgs.wifiMode false)
  w.update (time > 0 ∧ w.cfgs.aplostTime.toNat ≠ time.toNat)
    { w.cfgs with aplostTime := time.setWidth 16 } [.conf ifidx .aplostTime [time.toNat]]

def wificfgSetAggCnt (aggCnt : BitVec 8) : World × ℤ :=
  w.update (w.cfgs.aggCnt ≠ aggCnt) { w.cfgs with aggCnt := aggCnt } [.lmac .aggcnt [aggCnt.toNat]]

def wificfgSetAutoChanSwitch (disable : BitVec 8) : World × ℤ :=
  w.update (w.cfgs.autoChsw.toNat ≠ disable.toNat) { w.cfgs with autoChsw := disable.setWidth 1 }
    [.lmac .autoChanSwitch [lnot disable]]

def wificfgSetReassocWkhost (enable : BitVec 8) : World × ℤ :=
  w.update (w.cfgs.reassocWkhost.toNat ≠ enable.toNat)
    { w.cfgs with reassocWkhost := enable.setWidth 1 } []

def wificfgSetWakeupIo (io edge : BitVec 8) : World × ℤ :=
  w.update (w.cfgs.wkupIo.toNat ≠ io.toNat ∨ w.cfgs.wkioEdge.toNat ≠ edge.toNat)
    { w.cfgs with wkupIo := io.setWidth 7, wkioEdge := edge.setWidth 1 }
    [.lmac .wakeupIo [io.toNat,edge.toNat]]

def wificfgSetAutoSleepTime (time : BitVec 8) : World × ℤ :=
  let stime : BitVec 16 := if time > 32 then -1 else time.setWidth 16 * 1000
  w.update (w.cfgs.autoSleepTime ≠ stime) { w.cfgs with autoSleepTime := stime } []

def wificfgSetPairAutostop (en : BitVec 8) : World × ℤ :=
  w.update (w.cfgs.pairAutostop.toNat ≠ en.toNat) { w.cfgs with pairAutostop := en.setWidth 1 } []

def wificfgSetSuperPwr (superPwr : BitVec 8) : World × ℤ :=
  w.update (w.cfgs.superPwrSet = 0 ∨ w.cfgs.superPwr.toNat ≠ superPwr.toNat)
    { w.cfgs with superPwr := superPwr.setWidth 3, superPwrSet := 1 }
    [.lmac .superPwr [superPwr.toNat]]

/-- Without WIFI_REPEATER_SUPPORT the two repeater setters only print. -/
def wificfgSetRepeaterSsid (_ssid : List UInt8) : World × ℤ := (w,0)

def wificfgSetRepeaterPsk (_psk : BitVec 256) : World × ℤ := (w,0)

/-- The one setter that saves by force. -/
def wificfgSetAutoSave (on : BitVec 8) : World × ℤ :=
  if w.cfgs.autoSave.toNat ≠ on.toNat then
    (wificfgSave (w.store { w.cfgs with autoSave := on.setWidth 1 }) 1,0)
  else (w,0)

def wificfgSetDcdc13 (en : BitVec 8) : World × ℤ :=
  w.update (w.cfgs.dcdc13.toNat ≠ en.toNat) { w.cfgs with dcdc13 := en.setWidth 2 }
    [.lmac .vdd13 [en.toNat]]

/-- Saves before it pushes. -/
def wificfgSetAcktmo (tmo : BitVec 16) : World × ℤ :=
  if w.cfgs.ackTmo ≠ tmo then
    ((wificfgSave (w.store { w.cfgs with ackTmo := tmo }) 0).call
      [.lmac .ackTimeoutExtra [tmo.toNat]],0)
  else (w,0)

def wificfgSetPaPwrctrlDis (dis : BitVec 8) : World × ℤ :=
  w.update (w.cfgs.paPwrctrlDis.toNat ≠ dis.toNat) { w.cfgs with paPwrctrlDis := dis.setWidth 1 }
    [.lmac .paPwrCtrl [lnot dis]]

def wificfgSetDhcpcEn (en : BitVec 8) : World × ℤ :=
  w.update (w.cfgs.dhcpcEn.toNat ≠ en.toNat) { w.cfgs with dhcpcEn := en.setWidth 1 } []

def wificfgSetAntAutoOff (off : BitVec 8) : World × ℤ :=
  w.update (off.toNat ≠ w.cfgs.antAutoDis.toNat)
    { w.cfgs with antAutoDis := off.setWidth 1, dualAnt := 1 } [.lmac .antAutoEn [lnot off]]

def wificfgSetAntSel (sel : BitVec 8) : World × ℤ :=
  w.update (sel.toNat ≠ w.cfgs.antSel.toNat) { w.cfgs with antSel := sel.setWidth 1 }
    [.lmac .antSel [sel.toNat]]

def wificfgSetWkhostReasons (reasons : ℕ → BitVec 8) (count : BitVec 8) : World × ℤ :=
  w.update True
    { w.cfgs with
      wkhostReasons := Vector.ofFn fun i => if i.val < min count.toNat 32 then reasons i else 0
      wkhostReasonsSet := 1 } []

def wificfgSetMacFilterEn (en : BitVec 8) : World × ℤ :=
  w.update (w.cfgs.macFilterEn.toNat ≠ en.toNat) { w.cfgs with macFilterEn := en.setWidth 1 } []

/-- `if (count > i && vals[i])` keeps the stored value otherwise. -/
def roamArg (vals : ℕ → BitVec 8) (count : BitVec 8) (i : ℕ) (stored : BitVec 8) : BitVec 8 :=
  if count.toNat > i ∧ vals i ≠ 0 then vals i else stored

/-- The pushes take vals[2] to vals[4] whatever `count` is. -/
def wificfgSetRoaming (vals : ℕ → BitVec 8) (count : BitVec 8) : World × ℤ :=
  let ifidx := ifidxOf w.cfgs.wifiMode false
  let th := roamArg vals count 2 w.cfgs.roamRssiTh
  let diff := roamArg vals count 3 w.cfgs.roamRssiDiff
  let int := roamArg vals count 4 w.cfgs.roamRssiInt
  w.update ((count > 0 ∧ w.cfgs.roamStart.toNat ≠ (vals 0).toNat) ∨ w.cfgs.roamRssiTh ≠ th
      ∨ w.cfgs.roamRssiDiff ≠ diff ∨ w.cfgs.roamRssiInt ≠ int)
    { w.cfgs with
      roamStart := (vals 0).setWidth 1, roamRssiTh := th, roamRssiDiff := diff, roamRssiInt := int }
    [.conf ifidx .roaming [(vals 0).toNat],
      .conf ifidx .roamConfig [(vals 2).toNat,(vals 3).toNat,(vals 4).toNat]]

def wificfgSetApHide (en : BitVec 8) : World × ℤ :=
  let ifidx := ifidxOf w.cfgs.wifiMode false
  w.update (w.cfgs.apHide.toNat ≠ en.toNat) { w.cfgs with apHide := en.setWidth 1 }
    (eachAp ifidx fun i => [.conf i .aphide [en.toNat]])

def wificfgSetDualAnt (en : BitVec 8) : World × ℤ :=
  w.update (en.toNat ≠ w.cfgs.dualAnt.toNat) { w.cfgs with dualAnt := en.setWidth 1 }
    [.lmac .antDualEn [en.toNat]]

def wificfgSetMaxTxcnt (frmMax rtsMax : BitVec 8) : World × ℤ :=
  w.update (frmMax ≠ w.cfgs.frmMax ∨ rtsMax ≠ w.cfgs.rtsMax)
    { w.cfgs with frmMax := frmMax, rtsMax := rtsMax }
    [.lmac .retryCnt [frmMax.toNat,rtsMax.toNat]]

def wificfgSetDupFilterEn (en : BitVec 8) : World × ℤ :=
  w.update (en.toNat ≠ w.cfgs.dupfilter.toNat) { w.cfgs with dupfilter := en.setWidth 1 } []

def wificfgSetDis1v1M2u (dis : BitVec 8) : World × ℤ :=
  w.update (dis.toNat ≠ w.cfgs.dis1v1M2u.toNat) { w.cfgs with dis1v1M2u := dis.setWidth 1 } []

def wificfgSetRtc (data : List UInt8) : World × ℤ :=
  let ifidx := orAp (ifidxOf w.cfgs.wifiMode false)
  let w := w.call [.conf ifidx .rtc (data.map UInt8.toNat)]
  (w,drv.answer w.calls)

def wificfgSetDisPsconnect (dis : BitVec 8) : World × ℤ :=
  w.update (dis.toNat ≠ w.cfgs.disPsconnect.toNat)
    { w.cfgs with disPsconnect := dis.setWidth 1 } []

def wificfgSetCcaForCe (en : BitVec 8) : World × ℤ :=
  w.update (en.toNat ≠ w.cfgs.ccaForCe.toNat) { w.cfgs with ccaForCe := en.setWidth 1 }
    [.lmac .ccaForCe [en.toNat]]

def wificfgSetApPsmode (en : BitVec 8) : World × ℤ :=
  w.update (en.toNat ≠ w.cfgs.apPsmode.toNat) { w.cfgs with apPsmode := en.setWidth 1 }
    [.lmac .apPsmodeEn [en.toNat]]

def wificfgSetApChanSwitch (chan counter : BitVec 8) : World × ℤ :=
  if modeIsAp w.cfgs.wifiMode ∧ chan > 0 ∧ chan ≤ w.cfgs.chanCnt then
    let freq := w.cfgs.chanList.toList.getD (chan.toNat - 1) 0
    (w.call [.atcmdRecv ['A','T','+','C','S','_','N','U','M','='] (Int.tdiv (freq.toNat - 7000) 10),
      .atcmdRecv ['A','T','+','C','S','_','C','N','T','='] counter.toNat],RET_OK)
  else (w,RET_ERR)

def wificfgSetRadioOnoff (data : BitVec 8) : World × ℤ :=
  let ifidx := orAp (ifidxOf w.cfgs.wifiMode false)
  let w := w.call [.conf ifidx .radioOnoff [data.toNat]]
  (w,drv.answer w.calls)

/-- The interface is restarted under the number of the mode. -/
def restart (mode : BitVec 8) : List Call := [.iface mode .ifaceStop [],.iface mode .ifaceStart []]

def wificfgSetConnectPaironly (en : BitVec 8) : World × ℤ :=
  let stored : BitVec 1 := en.setWidth 1
  w.update (w.cfgs.pairConnOnly.toNat ≠ en.toNat) { w.cfgs with pairConnOnly := stored }
    (if stored = 1 then restart w.cfgs.wifiMode else [])

/-- The six bytes at index `i` of a list of addresses. -/
def macAt (macList : ℕ → BitVec 8) (i : ℕ) : BitVec 48 :=
  macList (6 * i) ++ macList (6 * i + 1) ++ macList (6 * i + 2) ++ macList (6 * i + 3)
    ++ macList (6 * i + 4) ++ macList (6 * i + 5)

/-- A little-endian word at byte `pos` after the first `n` bytes from `pair_stas`
on were overwritten by `src`. -/
def overrun (src : ℕ → BitVec 8) (n pos : ℕ) (old : BitVec 32) : BitVec 32 :=
  let byte (j : ℕ) : BitVec 8 := if pos + j < n then src (pos + j) else old.extractLsb' (8 * j) 8
  byte 3 ++ byte 2 ++ byte 1 ++ byte 0

/-- `cnt` is not bounded by SYS_STA_MAX: later addresses land in the fields
behind `pair_stas`, and from there on outside of sys_cfgs. -/
def wificfgSetPairedStas (macList : ℕ → BitVec 8) (cnt : BitVec 8) : World × ℤ :=
  let ifidx := ifidxOf w.cfgs.wifiMode false
  let kept (sta : BitVec 48) : Bool :=
    (List.range (min cnt.toNat SYS_STA_MAX)).any fun j => sta = macAt macList j
  let dropped := w.cfgs.pairStas.toList.filter fun sta => sta ≠ 0 ∧ kept sta = false
  let n := 6 * cnt.toNat
  w.update True
    { w.cfgs with
      pairStas := Vector.ofFn fun i => if i.val < cnt.toNat then macAt macList i else 0
      uartFixlen := overrun macList n 48 w.cfgs.uartFixlen
      wpaProto := overrun macList n 52 w.cfgs.wpaProto
      pairwiseCipher := overrun macList n 56 w.cfgs.pairwiseCipher
      groupCipher := overrun macList n 60 w.cfgs.groupCipher
      roamRssiTh := if 64 < n then macList 64 else w.cfgs.roamRssiTh
      roamRssiDiff := if 65 < n then macList 65 else w.cfgs.roamRssiDiff
      roamRssiInt := if 66 < n then macList 66 else w.cfgs.roamRssiInt
      pairConnOnly := 1 }
    (dropped.flatMap (fun sta => eachAp ifidx fun i => [.iface i .unpair [sta.toNat]])
      ++ restart w.cfgs.wifiMode)

/-- The new key is not saved. -/
def wificfgSetMcastKey (key : BitVec 256) : World × ℤ :=
  let modeSta := ifidxOf w.cfgs.wifiMode false
  let modeAp := ifidxOf w.cfgs.wifiMode true
  if w.cfgs.mcastKey ≠ key then
    ((w.store { w.cfgs with mkeySet := 1, mcastKey := key }).call
      ([.conf modeSta .mcastKey [1,key.toNat]]
        ++ if modeSta ≠ modeAp then [.conf modeAp .mcastKey [1,key.toNat]] else []),RET_OK)
  else (w,RET_ERR)

/-- An operation of this module with its arguments; `weak` is any of the setters
of wifi_cfg.c that syscfg.c does not replace. -/
inductive Op
  | setMode (mode : BitVec 8)
  | setBssBw (bssBw : BitVec 8)
  | setTxBw (txBw : BitVec 8)
  | setTxMcs (txMcs : BitVec 8)
  | setChannel (channel : BitVec 8)
  | setChanList (chanList : ℕ → BitVec 16) (chanCnt : BitVec 8)
  | setMacaddr (addr : BitVec 48)
  | setSsid (ssid : List UInt8)
  | setBssid (bssid : BitVec 48)
  | setWpaPsk (psk : BitVec 256)
  | setKeyMgmt (keyMgmt : BitVec 32)
  | setAcs (acs tmo : BitVec 8)
  | setPriChan (priChan : BitVec 8)
  | setTxPower (txpower : BitVec 8)
  | setBeaconInt (beaconInt : BitVec 32)
  | setBssMaxidle (maxIdle : BitVec 32)
  | setWkioMode (mode : BitVec 8)
  | setDtimPeriod (dtimPeriod : BitVec 32)
  | setPsmode (psmode : BitVec 8)
  | setWkdataSave (wkdataSave : BitVec 8)
  | setAutosleep (autosleep : BitVec 8)
  | setPsconnect (period roundup : BitVec 8)
  | setWaitPsmode (mode : BitVec 8)
  | setStandby (channel : BitVec 8) (periodMs : BitVec 32)
  | setSleepAplostTime (time : BitVec 32)
  | setAggCnt (aggCnt : BitVec 8)
  | setAutoChanSwitch (disable : BitVec 8)
  | setReassocWkhost (enable : BitVec 8)
  | setWakeupIo (io edge : BitVec 8)
  | setAutoSleepTime (time : BitVec 8)
  | setPairAutostop (en : BitVec 8)
  | setSuperPwr (superPwr : BitVec 8)
  | setRepeaterSsid (ssid : List UInt8)
  | setRepeaterPsk (psk : BitVec 256)
  | setAutoSave (on : BitVec 8)
  | setDcdc13 (en : BitVec 8)
  | setAcktmo (tmo : BitVec 16)
  | setPaPwrctrlDis (dis : BitVec 8)
  | setDhcpcEn (en : BitVec 8)
  | setAntAutoOff (off : BitVec 8)
  | setAntSel (sel : BitVec 8)
  | setWkhostReasons (reasons : ℕ → BitVec 8) (count : BitVec 8)
  | setMacFilterEn (en : BitVec 8)
  | setRoaming (vals : ℕ → BitVec 8) (count : BitVec 8)
  | setApHide (en : BitVec 8)
  | setDualAnt (en : BitVec 8)
  | setMaxTxcnt (frmMax rtsMax : BitVec 8)
  | setDupFilterEn (en : BitVec 8)
  | setDis1v1M2u (dis : BitVec 8)
  | setRtc (data : List UInt8)
  | setDisPsconnect (dis : BitVec 8)
  | setCcaForCe (en : BitVec 8)
  | setApPsmode (en : BitVec 8)
  | setApChanSwitch (chan counter : BitVec 8)
  | setRadioOnoff (data : BitVec 8)
  | setConnectPaironly (en : BitVec 8)
  | setPairedStas (macList : ℕ → BitVec 8) (cnt : BitVec 8)
  | setMcastKey (key : BitVec 256)
  | weak

/-- The call of an operation: the state behind it and what it returns. -/
def Op.apply : Op → World × ℤ
  | .setMode mode => (wificfgSetMode w mode,0)
  | .setBssBw bssBw => wificfgSetBssBw w bssBw
  | .setTxBw txBw => wificfgSetTxBw w txBw
  | .setTxMcs txMcs => wificfgSetTxMcs w txMcs
  | .setChannel channel => wificfgSetChannel drv w channel
  | .setChanList chanList chanCnt => wificfgSetChanList drv w chanList chanCnt
  | .setMacaddr addr => wificfgSetMacaddr w addr
  | .setSsid ssid => wificfgSetSsid w ssid
  | .setBssid bssid => wificfgSetBssid w bssid
  | .setWpaPsk psk => wificfgSetWpaPsk w psk
  | .setKeyMgmt keyMgmt => wificfgSetKeyMgmt w keyMgmt
  | .setAcs acs tmo => wificfgSetAcs w acs tmo
  | .setPriChan priChan => wificfgSetPriChan w priChan
  | .setTxPower txpower => wificfgSetTxPower drv w txpower
  | .setBeaconInt beaconInt => wificfgSetBeaconInt w beaconInt
  | .setBssMaxidle maxIdle => wificfgSetBssMaxidle w maxIdle
  | .setWkioMode mode => wificfgSetWkioMode w mode
  | .setDtimPeriod dtimPeriod => wificfgSetDtimPeriod w dtimPeriod
  | .setPsmode psmode => wificfgSetPsmode w psmode
  | .setWkdataSave wkdataSave => wificfgSetWkdataSave w wkdataSave
  | .setAutosleep autosleep => wificfgSetAutosleep w autosleep
  | .setPsconnect period roundup => wificfgSetPsconnect w period roundup
  | .setWaitPsmode mode => wificfgSetWaitPsmode w mode
  | .setStandby channel periodMs => wificfgSetStandby w channel periodMs
  | .setSleepAplostTime time => wificfgSetSleepAplostTime w time
  | .setAggCnt aggCnt => wificfgSetAggCnt w aggCnt
  | .setAutoChanSwitch disable => wificfgSetAutoChanSwitch w disable
  | .setReassocWkhost enable => wificfgSetReassocWkhost w enable
  | .setWakeupIo io edge => wificfgSetWakeupIo w io edge
  | .setAutoSleepTime time => wificfgSetAutoSleepTime w time
  | .setPairAutostop en => wificfgSetPairAutostop w en
  | .setSuperPwr superPwr => wificfgSetSuperPwr w superPwr
  | .setRepeaterSsid ssid => wificfgSetRepeaterSsid w ssid
  | .setRepeaterPsk psk => wificfgSetRepeaterPsk w psk
  | .setAutoSave on => wificfgSetAutoSave w on
  | .setDcdc13 en => wificfgSetDcdc13 w en
  | .setAcktmo tmo => wificfgSetAcktmo w tmo
  | .setPaPwrctrlDis dis => wificfgSetPaPwrctrlDis w dis
  | .setDhcpcEn en => wificfgSetDhcpcEn w en
  | .setAntAutoOff off => wificfgSetAntAutoOff w off
  | .setAntSel sel => wificfgSetAntSel w sel
  | .setWkhostReasons reasons count => wificfgSetWkhostReasons w reasons count
  | .setMacFilterEn en => wificfgSetMacFilterEn w en
  | .setRoaming vals count => wificfgSetRoaming w vals count
  | .setApHide en => wificfgSetApHide w en
  | .setDualAnt en => wificfgSetDualAnt w en
  | .setMaxTxcnt frmMax rtsMax => wificfgSetMaxTxcnt w frmMax rtsMax
  | .setDupFilterEn en => wificfgSetDupFilterEn w en
  | .setDis1v1M2u dis => wificfgSetDis1v1M2u w dis
  | .setRtc data => wificfgSetRtc drv w data
  | .setDisPsconnect dis => wificfgSetDisPsconnect w dis
  | .setCcaForCe en => wificfgSetCcaForCe w en
  | .setApPsmode en => wificfgSetApPsmode w en
  | .setApChanSwitch chan counter => wificfgSetApChanSwitch w chan counter
  | .setRadioOnoff data => wificfgSetRadioOnoff drv w data
  | .setConnectPaironly en => wificfgSetConnectPaironly w en
  | .setPairedStas macList cnt => wificfgSetPairedStas w macList cnt
  | .setMcastKey key => wificfgSetMcastKey w key
  | .weak => (w,-ENOTSUPP)

/-- One call of a setter as a step; an integer division by zero is no step. -/
def step (w : World) (op : Op) : Option World :=
  match op with
  | .setDtimPeriod _ => if w.cfgs.beaconInt = 0 then none else some (op.apply drv w).1
  | _ => some (op.apply drv w).1

/-- A driver that answers 0 and accepts every frequency. -/
def zeroDriver : Driver where
  answer _ := 0
  wmmParam _ := []
  sysctrlFreqTypeMatch _ := 0
  wpaPassphrase _ _ := 0

/-- The first state of a device whose image is the initial one but for bss_bw. -/
def booted : World := ⟨boot 0 { defaults with bssBw := 8 },0,[],[]⟩

end FmacSdk.Syscfg
