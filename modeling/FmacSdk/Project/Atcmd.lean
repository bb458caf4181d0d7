import FmacSdk.Project.WifiCfg

/-! # The AT commands of the Wi-Fi interfaces

The handlers of atcmd.c that call into an interface, on the argument strings
that the parser of AT lines passes. Replies to the console are left out, and a
byte read behind the end of a string is zero.
-/
namespace FmacSdk.Syscfg

/-- The bytes of a literal. -/
def bytes (s : List Char) : List UInt8 := s.map fun c => c.toNat.toUInt8

/-- os_atoi; an int that overflows wraps. -/
def atoi (s : List UInt8) : BitVec 32 :=
  let s := s.dropWhile fun c => c = 32 ∨ (9 ≤ c ∧ c ≤ 13)
  let digits (s : List UInt8) : ℤ :=
    (s.takeWhile fun c => 48 ≤ c ∧ c ≤ 57).foldl (fun n c => 10 * n + (c.toNat - 48)) 0
  BitVec.ofInt 32 (match s with
    | 45 :: s => -digits s
    | 43 :: s => digits s
    | s => digits s)

def hexchr2int (c : UInt8) : Option ℕ :=
  if 48 ≤ c ∧ c ≤ 57 then some (c.toNat - 48)
  else if 97 ≤ c ∧ c ≤ 102 then some (c.toNat - 97 + 10)
  else if 65 ≤ c ∧ c ≤ 70 then some (c.toNat - 65 + 10)
  else none

/-- hex2char on two digits, `none` for its -1. -/
def hex2char (a b : UInt8) : Option ℕ :=
  match hexchr2int a, hexchr2int b with
  | some x, some y => some (16 * x + y)
  | _, _ => none

/-- The bytes that hex2bin writes for at most `len` pairs; it returns their number. -/
def hex2bin : ℕ → List UInt8 → List ℕ
  | len + 1, a :: b :: s =>
    match hex2char a b with
    | some x => x :: hex2bin len s
    | none => []
  | _, _ => []

/-- The number that bytes spell, the first one highest. -/
def spell (bs : List ℕ) : ℕ := bs.foldl (fun n b => 256 * n + b) 0

/-- str2mac: the uint8 of -1 where the digits are none. -/
def str2mac (s : List UInt8) : BitVec 48 :=
  BitVec.ofNat 48 (spell ((List.range 6).map fun i =>
    (hex2char (s.getD (3 * i) 0) (s.getD (3 * i + 1) 0)).getD 255))

/-- os_strcasecmp against a literal in lower case -/
def sameName (s : List UInt8) (name : List Char) : Prop :=
  s.map (fun c => if 65 ≤ c ∧ c ≤ 90 then c + 32 else c) = bytes name

instance (s : List UInt8) (name : List Char) : Decidable (sameName s name) :=
  inferInstanceAs (Decidable (_ = _))

/-- The only argument starts with a question mark. -/
abbrev asks (argv : ℕ → List UInt8) (argc : ℕ) : Prop := argc = 1 ∧ (argv 0).head? = some 63

variable (drv : Driver) (w : World) (argv : ℕ → List UInt8) (argc : ℕ)

def sysWifiAtcmdSetChannel : World :=
  let ifidx := ifidxOf w.cfgs.wifiMode false
  if asks argv argc then w.call [.iface ifidx .getChannel []]
  else if argc = 1 then
    let chan := (atoi (argv 0)).toInt
    -- chan_max is 16 for TXW4002ACK803
    if chan < 1 ∨ chan > 16 then w
    else syscfgSave (w.pushChannel drv w.cfgs (eachAp ifidx fun i => [.conf i .channel [chan.toNat]]))
  else w

def sysWifiAtcmdSetEncrypt : World :=
  let ifidx := ifidxOf w.cfgs.wifiMode false
  let push (keyMgmt : BitVec 32) : World :=
    syscfgSave ((w.store { w.cfgs with keyMgmt := keyMgmt }).call
      (eachAp ifidx fun i => [.conf i .keymgmt [keyMgmt.toNat]]))
  if asks argv argc then w
  else if argc = 1 then
    if (argv 0).head? = some 49 then push WPA_KEY_MGMT_PSK
    else if (argv 0).head? = some 48 then push WPA_KEY_MGMT_NONE
    else w
  else w

/-- The length is checked as a uint8. -/
def sysWifiAtcmdSetSsid : World :=
  let ifidx := ifidxOf w.cfgs.wifiMode false
  let ssid := (argv 0).take SSID_MAX_LEN
  if asks argv argc then w
  else if argc = 1 ∧ (argv 0).length % 2 ^ 8 ≤ SSID_MAX_LEN
      ∧ w.cfgs.ssid.take SSID_MAX_LEN ≠ ssid then
    let psk := if w.cfgs.passwd.length > 0 then drv.wpaPassphrase ssid w.cfgs.passwd else w.cfgs.psk
    syscfgSave ((w.store { w.cfgs with bssid := 0, ssid := ssid, psk := psk }).call
      ([.conf WIFI_MODE_STA .bssid [],.conf WIFI_MODE_WNBSTA .bssid []] ++ eachAp ifidx fun i =>
        [.conf i .ssid (ssid.map UInt8.toNat),.conf i .psk [psk.toNat]]))
  else w

def sysWifiAtcmdSetKey : World :=
  let ifidx := ifidxOf w.cfgs.wifiMode false
  let passwd := (argv 0).take PASSWD_MAX_LEN
  if asks argv argc then w
  else if argc = 1 ∧ (argv 0).length ≥ 8 ∧ w.cfgs.passwd ≠ passwd then
    let psk := if w.cfgs.ssid.length > 0 then drv.wpaPassphrase w.cfgs.ssid passwd else w.cfgs.psk
    syscfgSave ((w.store { w.cfgs with passwd := passwd, psk := psk }).call
      (eachAp ifidx fun i => [.conf i .psk [psk.toNat]]))
  else w

def sysWifiAtcmdSetPsk : World :=
  let ifidx := ifidxOf w.cfgs.wifiMode false
  let bin := hex2bin 32 (argv 0)
  let psk := BitVec.ofNat 256 (spell bin)
  if asks argv argc then w
  else if argc = 1 ∧ (argv 0).length ≥ 64 ∧ bin.length = 32 ∧ psk ≠ w.cfgs.psk then
    syscfgSave ((w.store { w.cfgs with psk := psk }).call
      (eachAp ifidx fun i => [.conf i .psk [psk.toNat]]))
  else w

/-- The modes that are compiled in without WIFI_WNBSTA_SUPPORT and WIFI_WNBAP_SUPPORT. -/
def modeNamed (s : List UInt8) : Option (BitVec 8) :=
  if sameName s ['a','p'] then some WIFI_MODE_AP
  else if sameName s ['s','t','a'] then some WIFI_MODE_STA
  else if sameName s ['a','p','s','t','a'] then some WIFI_MODE_AP_STA
  else none

def sysWifiAtcmdSetWifimode : World :=
  if asks argv argc then w
  else if argc = 1 then
    match modeNamed (argv 0) with
    | some mode => if mode ≠ w.cfgs.wifiMode then syscfgSave (wificfgSetMode w mode) else w
    | none => w
  else w

/-- With two arguments the scan data holds chan_bitmap, scan_cnt and scan_time. -/
def sysWifiAtcmdScan : World :=
  let ifidx := ifidxOf w.cfgs.wifiMode false
  let scan := if argc = 2 then
    [0xffff,((atoi (argv 0)).setWidth 8).toNat,((atoi (argv 1)).setWidth 8).toNat] else []
  w.call (eachAp ifidx fun i => [.iface i .scan (1 :: scan)])

/-- ieee80211_pairing takes a uint16. -/
def sysWifiAtcmdPair : World :=
  let ifidx := ifidxOf w.cfgs.wifiMode false
  w.call (eachAp ifidx fun i => [.iface i .pairing [((atoi (argv 0)).setWidth 16).toNat]])

def sysWifiAtcmdUnpair : World :=
  let ifidx := ifidxOf w.cfgs.wifiMode false
  if argc > 0 ∧ (argv 0).head? ≠ some 63 then
    w.call (eachAp ifidx fun i => [.iface i .unpair [(str2mac (argv 0)).toNat]])
  else w

def sysWifiAtcmdAphide : World :=
  let ifidx := ifidxOf w.cfgs.wifiMode false
  if asks argv argc then w
  else if argc = 1 then
    let apHide : BitVec 1 := if atoi (argv 0) ≠ 0 then 1 else 0
    syscfgSave ((w.store { w.cfgs with apHide := apHide }).call
      (eachAp ifidx fun i => [.conf i .aphide [apHide.toNat]]))
  else w

def sysWifiAtcmdHwmode : World :=
  let ifidx := orAp (ifidxOf w.cfgs.wifiMode false)
  if asks argv argc then w
  else if argc = 1 then
    let hwmode : BitVec 8 := (atoi (argv 0)).setWidth 8
    syscfgSave ((w.store { w.cfgs with wifiHwmode := hwmode }).call
      [.conf ifidx .hwmode [hwmode.toNat]])
  else w

/-- The one handler that asks for the AP of a mode with a station and an AP. -/
def sysWifiAtcmdWakeup : World :=
  let ifidx := ifidxOf w.cfgs.wifiMode true
  -- DSLEEP_WK_REASON_APWK
  let reason : BitVec 32 := if argc > 1 then atoi (argv 1) else 12
  if argc ≥ 1 then
    let addr : BitVec 48 := if (argv 0).length ≥ 17 then str2mac (argv 0) else 0
    let aid : BitVec 16 := if (argv 0).length ≥ 17 then 0 else (atoi (argv 0)).setWidth 16
    w.call (eachAp ifidx fun i => [.iface i .wakeupSta [addr.toNat,aid.toNat,reason.toNat]])
  else w

def sysWifiAtcmdBssBw : World :=
  let ifidx := orAp (ifidxOf w.cfgs.wifiMode false)
  let bw : BitVec 8 := (atoi (argv 0)).setWidth 8
  if asks argv argc then w
  else if argc = 1 ∧ ahValidBw bw ∧ w.cfgs.bssBw ≠ bw then
    syscfgSave ((w.store { w.cfgs with bssBw := bw }).call [.conf ifidx .bssbw [bw.toNat]])
  else w

def sysWifiAtcmdChanList : World :=
  let chans := (List.range (min argc 16)).map fun i => (atoi (argv i)).setWidth 16
  if asks argv argc then w
  else if (∀ i < min argc 16, (atoi (argv i)).toInt < 65536
        ∧ drv.sysctrlFreqTypeMatch ((atoi (argv i)).setWidth 16) ≠ RET_ERR)
      ∧ w.cfgs.listChanged chans then
    syscfgSave (w.pushChanList drv chans)
  else w

/-- No branch for the dual-AP mode, here and in the two handlers below. -/
def sysWifiAtcmdApPsmode : World :=
  let ifidx := ifidxOf w.cfgs.wifiMode false
  if asks argv argc then w
  else if argc = 1 then
    let apPsmode : BitVec 1 := (atoi (argv 0)).setWidth 1
    syscfgSave ((w.store { w.cfgs with apPsmode := apPsmode }).call
      [.conf ifidx .apPsmodeEn [apPsmode.toNat]])
  else w

def sysWifiAtcmdDsleep : World :=
  let ifidx := ifidxOf w.cfgs.wifiMode false
  if asks argv argc then w
  else if argc = 1 then
    let ps : BitVec 8 := (atoi (argv 0)).setWidth 8
    w.call [.iface ifidx .ifaceSleep [ps.toNat],
      if ps = 0 then .systemResume ps.toNat else .systemSleep]
  else w

def sysWifiAtcmdSetWmmParam : World :=
  let ifidx := ifidxOf w.cfgs.wifiMode false
  if asks argv argc then w.call ((List.range 4).map fun ac => .iface ifidx .getWmmParam [ac])
  else if argc = 3 then
    let ac : BitVec 8 := (atoi (argv 0)).setWidth 8
    if ac < 4 then
      let w := w.call [.iface ifidx .getWmmParam [ac.toNat]]
      w.call [.conf ifidx .wmmParam ([ac.toNat,((atoi (argv 1)).setWidth 16).toNat,
        ((atoi (argv 2)).setWidth 16).toNat] ++ drv.wmmParam w.calls)]
    else w
  else w

/-- The handlers of this module. -/
inductive AtHandler
  | setChannel | setEncrypt | setSsid | setKey | setPsk | setWifimode | scan | pair | unpair | aphide
  | hwmode | wakeup | bssBw | chanList | apPsmode | dsleep | setWmmParam
deriving DecidableEq, Repr

def AtHandler.apply : AtHandler → World
  | .setChannel => sysWifiAtcmdSetChannel drv w argv argc
  | .setEncrypt => sysWifiAtcmdSetEncrypt w argv argc
  | .setSsid => sysWifiAtcmdSetSsid drv w argv argc
  | .setKey => sysWifiAtcmdSetKey drv w argv argc
  | .setPsk => sysWifiAtcmdSetPsk w argv argc
  | .setWifimode => sysWifiAtcmdSetWifimode w argv argc
  | .scan => sysWifiAtcmdScan w argv argc
  | .pair => sysWifiAtcmdPair w argv
  | .unpair => sysWifiAtcmdUnpair w argv argc
  | .aphide => sysWifiAtcmdAphide w argv argc
  | .hwmode => sysWifiAtcmdHwmode w argv argc
  | .wakeup => sysWifiAtcmdWakeup w argv argc
  | .bssBw => sysWifiAtcmdBssBw w argv argc
  | .chanList => sysWifiAtcmdChanList drv w argv argc
  | .apPsmode => sysWifiAtcmdApPsmode w argv argc
  | .dsleep => sysWifiAtcmdDsleep w argv argc
  | .setWmmParam => sysWifiAtcmdSetWmmParam drv w argv argc

end FmacSdk.Syscfg
