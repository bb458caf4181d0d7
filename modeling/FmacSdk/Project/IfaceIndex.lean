import FmacSdk.Project.Atcmd

/-! # The interface index of setters and AT commands

Every caller of wificfg_get_ifidx keeps the index in a uint8, where the -1 of
the dual-AP mode becomes 255 and no test for a negative index succeeds. In the
other modes the index names an interface of the mode.
-/
namespace FmacSdk.Syscfg

def interfaces : List (BitVec 8) :=
  [WIFI_MODE_STA,WIFI_MODE_AP,WIFI_MODE_WNBSTA,WIFI_MODE_WNBAP]

/-- The nine modes that wificfg_set_mode switches to. -/
abbrev ValidMode (mode : BitVec 8) : Prop := 1 ≤ mode ∧ mode ≤ 9

/-- The calls made in a mode name interfaces, and in the dual-AP mode every value
that goes to one AP goes to the other. -/
structure Addressed (mode : BitVec 8) (cs : List Call) : Prop where
  index : ∀ c ∈ cs, ∀ i, c.ifidx? = some i → i ∈ interfaces
  both : mode = WIFI_MODE_AP_WNBAP → ∀ param args,
    .conf WIFI_MODE_AP param args ∈ cs ↔ .conf WIFI_MODE_WNBAP param args ∈ cs

theorem ifidxOf_single {mode : BitVec 8} (hmode : mode ∈ interfaces) (switchAp : Bool) :
    ifidxOf mode switchAp = mode := by
  revert mode switchAp
  decide

/-- Calls that name no interface. -/
theorem Addressed.quiet {mode : BitVec 8} {cs : List Call} (h : ∀ c ∈ cs, c.ifidx? = none) :
    Addressed mode cs := by
  constructor
  · intro c hc i hi
    exact absurd (h c hc) (by simp [hi])
  · intro _ param args
    constructor
    · intro hc
      exact absurd (h _ hc) (by simp [Call.ifidx?])
    · intro hc
      exact absurd (h _ hc) (by simp [Call.ifidx?])

/-- What a call of the configuration code leaves behind is addressed. -/
def AddressedBy (w w' : World) : Prop :=
  Addressed w'.cfgs.wifiMode (w'.calls.drop w.calls.length)

theorem addressedBy_iff {w w' : World} {cs : List Call} (h : w'.calls = w.calls ++ cs) :
    AddressedBy w w' ↔ Addressed w'.cfgs.wifiMode cs := by
  rw [AddressedBy,h,List.drop_left]

theorem AddressedBy.quiet {w w' : World} {cs : List Call} (h : w'.calls = w.calls ++ cs)
    (hcs : ∀ c ∈ cs, c.ifidx? = none) : AddressedBy w w' :=
  (addressedBy_iff h).mpr (Addressed.quiet hcs)

theorem AddressedBy.refl (w : World) : AddressedBy w w :=
  AddressedBy.quiet (List.append_nil w.calls).symm (by simp)

variable {drv : Driver} {w : World}

/-- When a setter calls into an interface that wificfg_get_ifidx names. -/
def Op.reaches (drv : Driver) (w : World) : Op → Bool
  | .setBssBw bssBw => w.cfgs.bssBw ≠ bssBw ∧ ahValidBw bssBw
  | .setChannel channel => w.cfgs.channel ≠ channel
  | .setChanList chanList chanCnt =>
    w.cfgs.listChanged (chanArgs chanList chanCnt) ∧ drv.sysctrlFreqTypeMatch (chanList 0) = 0
  | .setMacaddr addr => w.cfgs.mac ≠ addr
  | .setSsid ssid => w.cfgs.ssid.take SSID_MAX_LEN ≠ ssid.take SSID_MAX_LEN
  | .setWpaPsk psk => w.cfgs.psk ≠ psk
  | .setKeyMgmt keyMgmt => w.cfgs.keyMgmt ≠ keyMgmt
  | .setAcs acs tmo => w.cfgs.acsEnable ≠ acs ∨ w.cfgs.acsTmo ≠ tmo
  | .setBeaconInt beaconInt => w.cfgs.beaconInt.toNat ≠ beaconInt.toNat
  | .setBssMaxidle maxIdle => w.cfgs.bssMaxIdle.toNat ≠ maxIdle.toNat
  | .setDtimPeriod dtimPeriod =>
    w.cfgs.dtimPeriod.toNat ≠ (dtimPeriod / w.cfgs.beaconInt.setWidth 32).toNat
  | .setSleepAplostTime time => time > 0 ∧ w.cfgs.aplostTime.toNat ≠ time.toNat
  | .setRoaming vals count =>
    (count > 0 ∧ w.cfgs.roamStart.toNat ≠ (vals 0).toNat)
      ∨ w.cfgs.roamRssiTh ≠ roamArg vals count 2 w.cfgs.roamRssiTh
      ∨ w.cfgs.roamRssiDiff ≠ roamArg vals count 3 w.cfgs.roamRssiDiff
      ∨ w.cfgs.roamRssiInt ≠ roamArg vals count 4 w.cfgs.roamRssiInt
  | .setApHide en => w.cfgs.apHide.toNat ≠ en.toNat
  | .setRtc _ => true
  | .setRadioOnoff _ => true
  | .setMcastKey key => w.cfgs.mcastKey ≠ key
  | _ => false

def Within (cs : List Call) : Prop := ∀ c ∈ cs, ∀ i, c.ifidx? = some i → i ∈ interfaces

theorem Within.append {cs ds : List Call} (h : Within cs) (h' : Within ds) : Within (cs ++ ds) := by
  intro c hc
  rcases List.mem_append.mp hc with hc | hc
  · exact h c hc
  · exact h' c hc

/-- wificfg_set_mode stops every interface before it starts any. -/
def stopAll : List Call :=
  [.iface WIFI_MODE_AP .ifaceStop [],.iface WIFI_MODE_STA .ifaceStop [],
    .iface WIFI_MODE_WNBAP .ifaceStop [],.iface WIFI_MODE_WNBSTA .ifaceStop []]

/-- The calls of wificfg_set_mode behind the stops, `c` holding the new mode. -/
def startCalls (c : SysConfig) (statusChannel : BitVec 8) : List Call :=
  let modeAp := ifidxOf c.wifiMode true
  let modeSta := ifidxOf c.wifiMode false
  if modeIsSta c.wifiMode ∨ modeIsAp c.wifiMode then
    flushCalls c statusChannel c.wifiMode ++ [.iface c.wifiMode .ifaceStart []]
  else if c.wifiMode = WIFI_MODE_AP_STA ∨ c.wifiMode = WIFI_MODE_WNBAP_WNBSTA
      ∨ c.wifiMode = WIFI_MODE_AP_WNBSTA ∨ c.wifiMode = WIFI_MODE_WNBAP_STA then
    flushCalls c statusChannel modeAp
      ++ (flushCalls c statusChannel modeSta ++ [.iface modeSta .ifaceStart []])
  else if c.wifiMode = WIFI_MODE_AP_WNBAP then
    (flushCalls c statusChannel WIFI_MODE_AP ++ [.iface WIFI_MODE_AP .ifaceStart []])
      ++ (flushCalls c statusChannel WIFI_MODE_WNBAP ++ [.iface WIFI_MODE_WNBAP .ifaceStart []])
  else []

theorem setMode_calls (mode : BitVec 8) (hmode : w.cfgs.wifiMode ≠ mode) :
    (wificfgSetMode w mode).calls =
      w.calls ++ (stopAll ++ startCalls { w.cfgs with wifiMode := mode } w.statusChannel) := by
  simp only [wificfgSetMode,startCalls,if_neg hmode,wificfgFlush,apply_ite World.calls,
    wificfgSave_calls,World.call_calls,World.store_calls]
  split
  · simp [stopAll]
  · split
    · simp [stopAll]
    · split <;> simp [stopAll]

theorem setMode_wifiMode (mode : BitVec 8) : (wificfgSetMode w mode).cfgs.wifiMode = mode := by
  simp only [wificfgSetMode,wificfgFlush,apply_ite World.cfgs,wificfgSave_cfgs,World.call_cfgs,
    World.store_cfgs,ite_self]
  split
  · assumption
  · rfl

section Handlers
variable {argv : ℕ → List UInt8} {argc : ℕ}

/-- When an AT command calls into an interface that wificfg_get_ifidx names. -/
def AtHandler.reaches (drv : Driver) (w : World) (argv : ℕ → List UInt8) (argc : ℕ) :
    AtHandler → Bool
  | .setChannel => asks argv argc ∨
    (argc = 1 ∧ ¬ ((atoi (argv 0)).toInt < 1 ∨ (atoi (argv 0)).toInt > 16))
  | .setEncrypt => ¬ asks argv argc ∧ argc = 1 ∧
    ((argv 0).head? = some 49 ∨ (argv 0).head? = some 48)
  | .setSsid => ¬ asks argv argc ∧ argc = 1 ∧ (argv 0).length % 2 ^ 8 ≤ SSID_MAX_LEN ∧
    w.cfgs.ssid.take SSID_MAX_LEN ≠ (argv 0).take SSID_MAX_LEN
  | .setKey => ¬ asks argv argc ∧ argc = 1 ∧ (argv 0).length ≥ 8 ∧
    w.cfgs.passwd ≠ (argv 0).take PASSWD_MAX_LEN
  | .setPsk => ¬ asks argv argc ∧ argc = 1 ∧ (argv 0).length ≥ 64 ∧
    (hex2bin 32 (argv 0)).length = 32 ∧ BitVec.ofNat 256 (spell (hex2bin 32 (argv 0))) ≠ w.cfgs.psk
  | .setWifimode => false
  | .scan => true
  | .pair => true
  | .unpair => argc > 0 ∧ (argv 0).head? ≠ some 63
  | .aphide => ¬ asks argv argc ∧ argc = 1
  | .hwmode => ¬ asks argv argc ∧ argc = 1
  | .wakeup => argc ≥ 1
  | .bssBw => ¬ asks argv argc ∧ argc = 1 ∧ ahValidBw ((atoi (argv 0)).setWidth 8) ∧
    w.cfgs.bssBw ≠ (atoi (argv 0)).setWidth 8
  | .chanList => ¬ asks argv argc ∧
    (∀ i < min argc 16, (atoi (argv i)).toInt < 65536 ∧
      drv.sysctrlFreqTypeMatch ((atoi (argv i)).setWidth 16) ≠ RET_ERR) ∧
    w.cfgs.listChanged ((List.range (min argc 16)).map fun i => (atoi (argv i)).setWidth 16)
  | .apPsmode => ¬ asks argv argc ∧ argc = 1
  | .dsleep => ¬ asks argv argc ∧ argc = 1
  | .setWmmParam => asks argv argc ∨ (argc = 3 ∧ ((atoi (argv 0)).setWidth 8 : BitVec 8) < 4)

theorem reaches_iff {w' : World} {b : Bool} {reaches : Prop}
    (haddr : AddressedBy w w' ↔ (w.cfgs.wifiMode = WIFI_MODE_AP_WNBAP → ¬ reaches))
    (hb : b = true ↔ reaches) :
    AddressedBy w w' ↔ (w.cfgs.wifiMode = WIFI_MODE_AP_WNBAP → ¬ b = true) := by
  rw [hb]
  exact haddr

end Handlers

/-- An operation of the host interface or a line of the AT console. -/
inductive Entry
  | setter (op : Op)
  | atcmd (h : AtHandler) (argv : ℕ → List UInt8) (argc : ℕ)

def Entry.apply (drv : Driver) (w : World) : Entry → World
  | .setter op => (op.apply drv w).1
  | .atcmd h argv argc => h.apply drv w argv argc

end FmacSdk.Syscfg
