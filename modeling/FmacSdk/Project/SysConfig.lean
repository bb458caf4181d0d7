import FmacSdk.Common.Errno
import FmacSdk.Foundation.Writes
import Mathlib.Data.List.OfFn

/-! # The system configuration

sys_cfgs with the widths of its fields, the calls that the configuration code
makes into the protocol stack and the radio driver, and the flash image. Both
layers are only known by what they are told and what they answer.
-/
namespace FmacSdk.Syscfg
open Writes

/-! enum WIFI_WORK_MODE, as the uint8 in which it is stored -/

def WIFI_MODE_NONE : BitVec 8 := 0
def WIFI_MODE_STA : BitVec 8 := 1
def WIFI_MODE_WNBSTA : BitVec 8 := 2
def WIFI_MODE_AP : BitVec 8 := 3
def WIFI_MODE_WNBAP : BitVec 8 := 4
def WIFI_MODE_AP_STA : BitVec 8 := 5
def WIFI_MODE_WNBAP_WNBSTA : BitVec 8 := 6
def WIFI_MODE_AP_WNBSTA : BitVec 8 := 7
def WIFI_MODE_WNBAP_STA : BitVec 8 := 8
def WIFI_MODE_AP_WNBAP : BitVec 8 := 9

abbrev modeIsAp (mode : BitVec 8) : Prop := mode = WIFI_MODE_AP ∨ mode = WIFI_MODE_WNBAP
abbrev modeIsSta (mode : BitVec 8) : Prop := mode = WIFI_MODE_STA ∨ mode = WIFI_MODE_WNBSTA
abbrev modeIsRepeater (mode : BitVec 8) : Prop :=
  mode ≥ WIFI_MODE_AP_STA ∧ mode ≠ WIFI_MODE_AP_WNBAP

/-- AH_VALID_BW -/
abbrev ahValidBw (bw : BitVec 8) : Prop := bw = 1 ∨ bw = 2 ∨ bw = 4 ∨ bw = 8

def SSID_MAX_LEN : ℕ := 32
def PASSWD_MAX_LEN : ℕ := 32
def SYS_STA_MAX : ℕ := 8
def TX_PWR_SUPER_EN : BitVec 8 := 1
def DSLEEP_MODE_NUM : ℕ := 7
def DSLEEP_WAIT_MODE_NUM : ℕ := 2
def WPA_KEY_MGMT_PSK : BitVec 32 := 2
def WPA_KEY_MGMT_NONE : BitVec 32 := 4
def WPA_PROTO_RSN : BitVec 32 := 2
def WPA_CIPHER_CCMP : BitVec 32 := 16

/-- struct sys_config as far as the configuration code uses it; an object in
static storage is zero where it is not initialised. A string is the bytes before
its terminator, an address or a key is one number. -/
structure SysConfig where
  wifiMode : BitVec 8 := 0
  bssBw : BitVec 8 := 0
  txMcs : BitVec 8 := 0
  chanCnt : BitVec 8 := 0
  txpower : BitVec 8 := 0
  acsEnable : BitVec 8 := 0
  acsTmo : BitVec 8 := 0
  chanList : Vector (BitVec 16) 16 := Vector.replicate 16 0
  bssid : BitVec 48 := 0
  mac : BitVec 48 := 0
  ssid : List UInt8 := []
  psk : BitVec 256 := 0
  mcastKey : BitVec 256 := 0
  passwd : List UInt8 := []
  bssMaxIdle : BitVec 16 := 0
  beaconInt : BitVec 16 := 0
  ackTmo : BitVec 16 := 0
  dtimPeriod : BitVec 16 := 0
  aplostTime : BitVec 16 := 0
  autoSleepTime : BitVec 16 := 0
  psconnectPeriod : BitVec 8 := 0
  psconnectRoundup : BitVec 8 := 0
  wkupIo : BitVec 7 := 0
  wkioEdge : BitVec 1 := 0
  priChan : BitVec 8 := 0
  aggCnt : BitVec 8 := 0
  channel : BitVec 8 := 0
  frmMax : BitVec 8 := 0
  rtsMax : BitVec 8 := 0
  txBw : BitVec 8 := 0
  wifiHwmode : BitVec 8 := 0
  keyMgmt : BitVec 32 := 0
  autoSave : BitVec 1 := 0
  wkioMode : BitVec 1 := 0
  autoChsw : BitVec 1 := 0
  dupfilter : BitVec 1 := 0
  paPwrctrlDis : BitVec 1 := 0
  pairAutostop : BitVec 1 := 0
  superPwrSet : BitVec 1 := 0
  dcdc13 : BitVec 2 := 0
  dhcpcEn : BitVec 1 := 0
  wkhostReasonsSet : BitVec 1 := 0
  dualAnt : BitVec 1 := 0
  antAutoDis : BitVec 1 := 0
  antSel : BitVec 1 := 0
  macFilterEn : BitVec 1 := 0
  bssidSet : BitVec 1 := 0
  reassocWkhost : BitVec 1 := 0
  use4addr : BitVec 1 := 0
  wkdataSave : BitVec 1 := 0
  autosleep : BitVec 1 := 0
  psmode : BitVec 3 := 0
  pairConnOnly : BitVec 1 := 0
  dis1v1M2u : BitVec 1 := 0
  disPsconnect : BitVec 1 := 0
  apHide : BitVec 1 := 0
  ccaForCe : BitVec 1 := 0
  apPsmode : BitVec 1 := 0
  wkhostReasons : Vector (BitVec 8) 32 := Vector.replicate 32 0
  waitPsmode : BitVec 2 := 0
  roamStart : BitVec 1 := 0
  cfgInit : BitVec 1 := 0
  mkeySet : BitVec 1 := 0
  superPwr : BitVec 3 := 0
  standbyChannel : BitVec 8 := 0
  standbyPeriodMs : BitVec 32 := 0
  pairStas : Vector (BitVec 48) SYS_STA_MAX := Vector.replicate SYS_STA_MAX 0
  uartFixlen : BitVec 32 := 0
  wpaProto : BitVec 32 := 0
  pairwiseCipher : BitVec 32 := 0
  groupCipher : BitVec 32 := 0
  roamRssiTh : BitVec 8 := 0
  roamRssiDiff : BitVec 8 := 0
  roamRssiInt : BitVec 8 := 0

/-- The initial value of sys_cfgs, without the addresses that nothing here uses. -/
def defaults : SysConfig where
  wifiMode := WIFI_MODE_STA
  channel := 0
  beaconInt := 500
  dtimPeriod := 2
  bssMaxIdle := 300
  keyMgmt := WPA_KEY_MGMT_PSK
  autoSave := 1
  priChan := 3
  txMcs := 0xff
  acsEnable := 1
  wkioMode := 0
  paPwrctrlDis := 0
  dcdc13 := 0
  psmode := 0
  dupfilter := 1
  aplostTime := 10
  dhcpcEn := 1
  wpaProto := WPA_PROTO_RSN
  pairwiseCipher := WPA_CIPHER_CCMP
  groupCipher := WPA_CIPHER_CCMP
  use4addr := 1
  txpower := 20

/-- The parameters that ieee80211_conf_set_* pushes to an interface. -/
inductive ConfParam
  | mac | use4addr | chanlist | channel | bssbw | aplostTime | apPsmodeEn | beaconInt | dtimInt
  | bssMaxIdle | bssid | ssid | keymgmt | psk | wpaCipher | dupfilter | roaming | roamConfig
  | wpaGroupRekey | acs | aphide | hwmode | rtc | radioOnoff | mcastKey | wmmParam
deriving DecidableEq, Repr

/-- The parameters that lmac_set_* pushes to the radio. -/
inductive LmacParam
  | bssBw | txBw | txMcs | txpower | priChan | aggcnt | autoChanSwitch | wakeupIo | superPwr
  | paPwrCtrl | vdd13 | ackTimeoutExtra | antDualEn | antAutoEn | antSel | psMode | waitPsmode
  | psconnectPeriod | apPsmodeEn | standby | ccaForCe | retryCnt
deriving DecidableEq, Repr

/-- The calls of ieee80211_* on an interface that push no parameter. -/
inductive IfaceFn
  | ifaceStart | ifaceStop | ifaceSleep | unpair | pairing | scan | wakeupSta | getChannel
  | getWmmParam
deriving DecidableEq, Repr

/-- A call out of the configuration code with the values it passes; pointers
stand for what they point to, NULL for no value. -/
inductive Call
  | conf (ifidx : BitVec 8) (param : ConfParam) (args : List ℕ)
  | iface (ifidx : BitVec 8) (fn : IfaceFn) (args : List ℕ)
  | deliverInit (max lifetime : ℕ)
  | lmac (param : LmacParam) (args : List ℕ)
  | lmacGetTxpower
  | gpioSetVal (val : ℕ)
  | systemSleep
  | systemResume (type : ℕ)
  | atcmdRecv (cmd : List Char) (value : ℤ)
deriving DecidableEq, Repr

/-- What a push writes to: a parameter of an interface, or one of the radio. -/
inductive Key
  | conf (ifidx : BitVec 8) (param : ConfParam)
  | lmac (param : LmacParam)
deriving DecidableEq, Repr

def Call.push? : Call → Option (Key × List ℕ)
  | .conf ifidx param args => some (.conf ifidx param,args)
  | .lmac param args => some (.lmac param,args)
  | _ => none

/-- The interface that a call into ieee80211_* names. -/
def Call.ifidx? : Call → Option (BitVec 8)
  | .conf ifidx _ _ => some ifidx
  | .iface ifidx _ _ => some ifidx
  | _ => none

/-- What the modelled functions take from code outside of the repository: the
answer to the last call of a history, the fields of struct ieee80211_wmm_param
that it filled in, and functions of the arguments alone. -/
structure Driver where
  answer : List Call → ℤ
  wmmParam : List Call → List ℕ
  sysctrlFreqTypeMatch : BitVec 16 → ℤ
  wpaPassphrase : List UInt8 → List UInt8 → BitVec 256

/-- sys_cfgs, the channel of sys_status, the calls so far and the images that
syscfg_write stored, newest last. -/
structure World where
  cfgs : SysConfig
  statusChannel : BitVec 8
  calls : List Call
  saved : List SysConfig

def World.call (w : World) (cs : List Call) : World := { w with calls := w.calls ++ cs }

def World.store (w : World) (cfgs : SysConfig) : World := { w with cfgs := cfgs }

/-- The map from interface and parameter to the value pushed last. -/
def World.pushed (w : World) : Key → Option (List ℕ) := lastWrite (w.calls.filterMap Call.push?)

section Fields
variable (w : World) (cs : List Call) (cfgs : SysConfig)

@[simp] theorem World.call_cfgs : (w.call cs).cfgs = w.cfgs := rfl
@[simp] theorem World.call_statusChannel : (w.call cs).statusChannel = w.statusChannel := rfl
@[simp] theorem World.call_calls : (w.call cs).calls = w.calls ++ cs := rfl
@[simp] theorem World.store_cfgs : (w.store cfgs).cfgs = cfgs := rfl
@[simp] theorem World.store_statusChannel : (w.store cfgs).statusChannel = w.statusChannel := rfl
@[simp] theorem World.store_calls : (w.store cfgs).calls = w.calls := rfl

end Fields

end FmacSdk.Syscfg
