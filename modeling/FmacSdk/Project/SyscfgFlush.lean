import FmacSdk.Foundation.Writes
import FmacSdk.Project.IfaceIndex

/-! # Setters against a flush

The stack and the radio are a map from parameters to the value pushed last. A
flush writes a table of the configuration into it, one entry a parameter. Where
the map holds the table, a setter keeps it so exactly if it pushes, for the
parameters whose entries it changes, what the new table says.
-/
namespace FmacSdk.Syscfg
open Writes

/-- What a flush of a mode with one interface writes to that interface. -/
def confTable (c : SysConfig) (statusChannel : BitVec 8) : ConfParam → Option (List ℕ)
  | .mac => if c.mac ≠ 0 then some [c.mac.toNat] else none
  | .use4addr => some [c.use4addr.toNat]
  | .chanlist => some (c.channels ++ [c.chanCnt.toNat])
  | .channel => some [(flushChannel c statusChannel).toNat]
  | .bssbw => some [c.bssBw.toNat]
  | .aplostTime => some [c.aplostTime.toNat]
  | .apPsmodeEn => some [c.apPsmode.toNat]
  | .beaconInt => some [c.beaconInt.toNat]
  | .dtimInt => some [c.dtimPeriod.toNat]
  | .bssMaxIdle => some [c.bssMaxIdle.toNat]
  | .bssid => if c.bssid ≠ 0 then some [c.bssid.toNat] else none
  | .ssid => some (c.ssid.map UInt8.toNat)
  | .keymgmt => some [c.keyMgmt.toNat]
  | .psk => some [c.psk.toNat]
  | .wpaCipher => some [c.wpaProto.toNat,c.pairwiseCipher.toNat,c.groupCipher.toNat]
  | .dupfilter => some [1]
  | .roaming => some [c.roamStart.toNat]
  | .roamConfig => some [c.roamRssiTh.toNat,c.roamRssiDiff.toNat,c.roamRssiInt.toNat]
  | .wpaGroupRekey => some [0]
  | .acs | .aphide | .hwmode | .rtc | .radioOnoff | .mcastKey | .wmmParam => none

/-- What a flush writes to the radio. -/
def lmacTable (c : SysConfig) : LmacParam → Option (List ℕ)
  | .bssBw => some [c.bssBw.toNat]
  | .txMcs => some [c.txMcs.toNat]
  | .txpower => some [c.txpower.toNat]
  | .aggcnt => some [c.aggCnt.toNat]
  | .autoChanSwitch => some [lnot c.autoChsw]
  | .wakeupIo => some [c.wkupIo.toNat,c.wkioEdge.toNat]
  | .superPwr => some [if c.superPwrSet ≠ 0 then c.superPwr.toNat else TX_PWR_SUPER_EN.toNat]
  | .paPwrCtrl => some [lnot c.paPwrctrlDis]
  | .vdd13 => some [c.dcdc13.toNat]
  | .ackTimeoutExtra => some [c.ackTmo.toNat]
  | .antAutoEn => if c.dualAnt ≠ 0 then some [lnot c.antAutoDis] else none
  | .antSel => if c.dualAnt ≠ 0 then some [c.antSel.toNat] else none
  | .psMode => some [c.psmode.toNat]
  | .waitPsmode => some [c.waitPsmode.toNat]
  | .psconnectPeriod => some [c.psconnectPeriod.toNat]
  | .apPsmodeEn => some [c.apPsmode.toNat]
  | .standby => some (standbyArgs c.standbyChannel c.standbyPeriodMs)
  | .ccaForCe => some [c.ccaForCe.toNat]
  | .txBw | .priChan | .antDualEn | .retryCnt => none

def table (c : SysConfig) (statusChannel ifidx : BitVec 8) : Key → Option (List ℕ)
  | .conf i param => if i = ifidx then confTable c statusChannel param else none
  | .lmac param => lmacTable c param

theorem lastWrite_flushConf {c : SysConfig} {ifidx : BitVec 8} (hmode : ¬ modeIsRepeater c.wifiMode)
    (statusChannel : BitVec 8) (param : ConfParam) :
    lastWrite (flushMac c ++ flushConf c statusChannel ifidx) param
      = confTable c statusChannel param := by
  simp only [flushMac,flushConf,hmode,false_and,and_false,if_false]
  cases param <;> simp [confTable,lastWrite_ite]

theorem lastWrite_flushLmac (c : SysConfig) (param : LmacParam) :
    lastWrite (flushLmac c) param = lmacTable c param := by
  simp only [flushLmac]
  cases param <;> simp [lmacTable,lastWrite_ite]

theorem confs_push (ifidx : BitVec 8) (ps : List (ConfParam × List ℕ)) :
    (confs ifidx ps).filterMap Call.push? = ps.map fun p => (Key.conf ifidx p.1,p.2) := by
  rw [confs,List.filterMap_map,← List.filterMap_eq_map]
  rfl

theorem flushCalls_push (c : SysConfig) (statusChannel ifidx : BitVec 8) :
    (flushCalls c statusChannel ifidx).filterMap Call.push?
      = (flushMac c ++ flushConf c statusChannel ifidx).map (fun p => (Key.conf ifidx p.1,p.2))
        ++ (flushLmac c).map fun p => (Key.lmac p.1,p.2) := by
  have hinit : (if c.use4addr ≠ 0 then [Call.deliverInit 128 60] else []).filterMap Call.push? = [] := by
    split <;> rfl
  have hlmac : ((flushLmac c).map fun p => Call.lmac p.1 p.2).filterMap Call.push?
      = (flushLmac c).map fun p => (Key.lmac p.1,p.2) := by
    rw [List.filterMap_map,← List.filterMap_eq_map]
    rfl
  simp only [flushCalls,List.filterMap_append,confs_push,hinit,hlmac,List.append_nil,List.map_append]
  exact List.append_nil _

/-- A flush writes its table. -/
theorem lastWrite_flushCalls {c : SysConfig} {ifidx : BitVec 8} (hmode : ¬ modeIsRepeater c.wifiMode)
    (statusChannel : BitVec 8) (k : Key) :
    lastWrite ((flushCalls c statusChannel ifidx).filterMap Call.push?) k
      = table c statusChannel ifidx k := by
  rw [flushCalls_push,lastWrite_append]
  cases k with
  | conf i param =>
    rw [lastWrite_map_of_ne (f := Key.lmac) (by simp),Option.none_or]
    by_cases hi : i = ifidx
    · subst hi
      have hinj : Function.Injective (Key.conf i) := fun p q h => by simpa using h
      rw [lastWrite_map hinj,lastWrite_flushConf hmode]
      exact (if_pos rfl).symm
    · rw [lastWrite_map_of_ne (f := Key.conf ifidx) fun p h => hi (Key.conf.inj h).1.symm]
      exact (if_neg hi).symm
  | lmac param =>
    have hinj : Function.Injective Key.lmac := fun p q h => by simpa using h
    rw [lastWrite_map hinj,lastWrite_flushLmac,lastWrite_map_of_ne (f := Key.conf ifidx) (by simp),
      Option.or_none]
    rfl

/-- The map holds the table of the configuration. -/
def Agrees (w : World) (ifidx : BitVec 8) : Prop :=
  Settled (w.calls.filterMap Call.push?)
    ((flushCalls w.cfgs w.statusChannel ifidx).filterMap Call.push?)

theorem agrees_iff (w : World) (ifidx : BitVec 8) :
    Agrees w ifidx ↔ (wificfgFlush w ifidx).pushed = w.pushed := by
  rw [World.pushed,wificfgFlush,World.call_calls,List.filterMap_append]
  rfl

theorem wificfgFlush_agrees (w : World) (ifidx : BitVec 8) : Agrees (wificfgFlush w ifidx) ifidx := by
  rw [Agrees,wificfgFlush,World.call_calls,List.filterMap_append]
  exact settled_append_self _ _

variable {drv : Driver} {w : World} {ifidx : BitVec 8}

theorem Agrees.entry (h : Agrees w ifidx) (hmode : ¬ modeIsRepeater w.cfgs.wifiMode) {k : Key}
    {v : List ℕ} (hk : table w.cfgs w.statusChannel ifidx k = some v) : w.pushed k = some v :=
  settled_iff.mp h k v ((lastWrite_flushCalls hmode w.statusChannel k).trans hk)

/-- The footprint rule for a call that stores and pushes: only the entries that it
stores anew and the parameters that it pushes are compared. -/
theorem Agrees.step_iff (h : Agrees w ifidx) (hmode : ¬ modeIsRepeater w.cfgs.wifiMode) {w' : World}
    {cs : List Call} (hcalls : w'.calls = w.calls ++ cs)
    (hmode' : w'.cfgs.wifiMode = w.cfgs.wifiMode) (hstatus : w'.statusChannel = w.statusChannel)
    (ks : List Key)
    (htable : ∀ k, k ∉ ks →
      table w'.cfgs w.statusChannel ifidx k = table w.cfgs w.statusChannel ifidx k)
    (hpush : ∀ k, k ∉ ks → lastWrite (cs.filterMap Call.push?) k = none) :
    Agrees w' ifidx ↔ ∀ k ∈ ks, ∀ v, table w'.cfgs w.statusChannel ifidx k = some v →
      (lastWrite (cs.filterMap Call.push?) k).or (w.pushed k) = some v := by
  have hmode'' : ¬ modeIsRepeater w'.cfgs.wifiMode := by rwa [hmode']
  rw [Agrees,hcalls,List.filterMap_append,hstatus,
    settled_append_iff_on (fun k => k ∈ ks) h (fun k hk => by
      rw [lastWrite_flushCalls hmode'',lastWrite_flushCalls hmode,htable k hk]) hpush]
  simp only [lastWrite_flushCalls hmode'',World.pushed]

/-- Tables that differ in the entries of `ks` only. -/
theorem table_congr {c c' : SysConfig} {statusChannel : BitVec 8} {ks : List Key}
    (hconf : ∀ param, .conf ifidx param ∉ ks →
      confTable c' statusChannel param = confTable c statusChannel param)
    (hlmac : ∀ param, .lmac param ∉ ks → lmacTable c' param = lmacTable c param) (k : Key)
    (hk : k ∉ ks) : table c' statusChannel ifidx k = table c statusChannel ifidx k := by
  cases k with
  | conf i param =>
    by_cases hi : i = ifidx
    · subst hi
      simpa only [table,if_true] using hconf param hk
    · simp only [table,hi,if_false]
  | lmac param => exact hlmac param hk

theorem single_not_repeater {mode : BitVec 8} (hmode : mode ∈ interfaces) : ¬ modeIsRepeater mode := by
  revert mode
  decide

section Update
variable (h : Agrees w ifidx) (hmode : ¬ modeIsRepeater w.cfgs.wifiMode) {changed : Prop}
  [Decidable changed] {cfgs : SysConfig}

include h hmode

/-- The footprint rule for the setters of the common shape. -/
theorem update_agrees_iff {cs : List Call} (hcfgs : cfgs.wifiMode = w.cfgs.wifiMode)
    (ks : List Key)
    (hconf : ∀ param, .conf ifidx param ∉ ks →
      confTable cfgs w.statusChannel param = confTable w.cfgs w.statusChannel param)
    (hlmac : ∀ param, .lmac param ∉ ks → lmacTable cfgs param = lmacTable w.cfgs param)
    (hpush : ∀ k, k ∉ ks → lastWrite (cs.filterMap Call.push?) k = none) :
    Agrees (w.update changed cfgs cs).1 ifidx ↔ (changed → ∀ k ∈ ks, ∀ v,
      table cfgs w.statusChannel ifidx k = some v →
        (lastWrite (cs.filterMap Call.push?) k).or (w.pushed k) = some v) := by
  by_cases hchanged : changed
  · have hcalls : (w.update changed cfgs cs).1.calls = w.calls ++ cs := by
      rw [update_calls,if_pos hchanged]
    have hstored : (w.update changed cfgs cs).1.cfgs = cfgs := by rw [update_cfgs,if_pos hchanged]
    rw [h.step_iff hmode hcalls (by rw [hstored,hcfgs]) update_statusChannel ks
      (by rw [hstored]; exact table_congr hconf hlmac) hpush,hstored]
    simp [hchanged]
  · have hsame : (w.update changed cfgs cs).1 = w := by rw [World.update,if_neg hchanged]
    rw [hsame]
    exact iff_of_true h fun hc => absurd hc hchanged

/-- One entry is stored and one parameter pushed, the one of that entry. -/
theorem update_push_agrees_iff {c : Call} {k : Key} {v : List ℕ} (hc : c.push? = some (k,v))
    (hcfgs : cfgs.wifiMode = w.cfgs.wifiMode)
    (hconf : ∀ param, .conf ifidx param ≠ k →
      confTable cfgs w.statusChannel param = confTable w.cfgs w.statusChannel param)
    (hlmac : ∀ param, .lmac param ≠ k → lmacTable cfgs param = lmacTable w.cfgs param) :
    Agrees (w.update changed cfgs [c]).1 ifidx ↔
      (changed → ∀ v', table cfgs w.statusChannel ifidx k = some v' → v = v') := by
  have hpush (k' : Key) : lastWrite ([c].filterMap Call.push?) k' = if k = k' then some v else none := by
    simp [hc]
  rw [update_agrees_iff h hmode hcfgs [k] (fun p hp => hconf p (by simpa using hp))
    (fun p hp => hlmac p (by simpa using hp)) (fun k' hk => by
      rw [hpush,if_neg fun heq => hk (by simp [heq])])]
  simp only [List.mem_singleton,forall_eq,hpush,if_true,Option.some_or,Option.some.injEq]

/-- A setter of one parameter of the interface replaces one entry of the table. -/
theorem update_conf_agrees_iff {param : ConfParam} {v : List ℕ} {e : Option (List ℕ)}
    (hcfgs : cfgs.wifiMode = w.cfgs.wifiMode)
    (hconf : confTable cfgs w.statusChannel
      = Function.update (confTable w.cfgs w.statusChannel) param e)
    (hlmac : lmacTable cfgs = lmacTable w.cfgs) :
    Agrees (w.update changed cfgs [.conf ifidx param v]).1 ifidx ↔
      (changed → ∀ v', e = some v' → v = v') := by
  have hentry : table cfgs w.statusChannel ifidx (.conf ifidx param) = e := by
    rw [table,if_pos rfl,hconf,Function.update_self]
  rw [update_push_agrees_iff h hmode rfl hcfgs (fun p hp => ?_) (fun p _ => congrFun hlmac p),hentry]
  rw [hconf,Function.update_of_ne fun heq => hp (by rw [heq])]

theorem update_lmac_agrees_iff {param : LmacParam} {v : List ℕ} {e : Option (List ℕ)}
    (hcfgs : cfgs.wifiMode = w.cfgs.wifiMode)
    (hconf : confTable cfgs w.statusChannel = confTable w.cfgs w.statusChannel)
    (hlmac : lmacTable cfgs = Function.update (lmacTable w.cfgs) param e) :
    Agrees (w.update changed cfgs [.lmac param v]).1 ifidx ↔
      (changed → ∀ v', e = some v' → v = v') := by
  have hentry : table cfgs w.statusChannel ifidx (.lmac param) = e := by
    rw [table,hlmac,Function.update_self]
  rw [update_push_agrees_iff h hmode rfl hcfgs (fun p _ => congrFun hconf p) (fun p hp => ?_),hentry]
  rw [hlmac,Function.update_of_ne fun heq => hp (by rw [heq])]

end Update

/-- Values that fit into a field survive its truncation, and only those. -/
theorem setWidth_toNat_eq_iff {n m : ℕ} (x : BitVec n) :
    (x.setWidth m).toNat = x.toNat ↔ x.toNat < 2 ^ m := by
  rw [BitVec.toNat_setWidth]
  exact Nat.mod_eq_iff_lt (Nat.two_pow_pos m).ne'

/-- The push of an argument and the flush of the field that it was cut to agree if
it fits; a setter that pushes nothing has compared the two. -/
theorem push_cut_iff {n m : ℕ} {changed : Prop} (x : BitVec n)
    (hkept : ¬ changed → x.toNat < 2 ^ m) :
    (changed → ∀ v', some [(x.setWidth m).toNat] = some v' → [x.toNat] = v') ↔ x.toNat < 2 ^ m := by
  have hsame : (∀ v', some [(x.setWidth m).toNat] = some v' → [x.toNat] = v') ↔ x.toNat < 2 ^ m := by
    rw [← setWidth_toNat_eq_iff]
    simp only [Option.some.injEq,forall_eq',List.cons.injEq,and_true]
    exact eq_comm
  rw [hsame]
  exact ⟨fun h => by_contra fun hwide => hwide (h (not_imp_comm.mp hkept hwide)),fun h _ => h⟩

section Setters
variable (h : Agrees w w.cfgs.wifiMode) (hmode : w.cfgs.wifiMode ∈ interfaces)

include h hmode

theorem setBeaconInt_agrees_iff (beaconInt : BitVec 32) :
    Agrees (wificfgSetBeaconInt w beaconInt).1 w.cfgs.wifiMode ↔ beaconInt.toNat < 2 ^ 16 := by
  unfold wificfgSetBeaconInt
  simp only [eachAp_eq,ifidxOf_single hmode]
  refine Iff.trans (update_conf_agrees_iff h (single_not_repeater hmode)
    (e := some [(beaconInt.setWidth 16).toNat]) (by rfl) ?_ (by rfl)) ?_
  · funext param
    cases param <;> rfl
  · exact push_cut_iff beaconInt fun hsame => not_not.mp hsame ▸ w.cfgs.beaconInt.isLt

theorem setSleepAplostTime_agrees_iff (time : BitVec 32) :
    Agrees (wificfgSetSleepAplostTime w time).1 w.cfgs.wifiMode ↔ time.toNat < 2 ^ 16 := by
  unfold wificfgSetSleepAplostTime
  simp only [orAp_eq,ifidxOf_single hmode]
  refine Iff.trans (update_conf_agrees_iff h (single_not_repeater hmode)
    (e := some [(time.setWidth 16).toNat]) (by rfl) ?_ (by rfl)) ?_
  · funext param
    cases param <;> rfl
  · refine push_cut_iff time fun hsame => ?_
    have hstored := w.cfgs.aplostTime.isLt
    rw [gt_iff_lt,BitVec.lt_def,show (0 : BitVec 32).toNat = 0 from rfl] at hsame
    omega

theorem setBssMaxidle_agrees (maxIdle : BitVec 32) :
    Agrees (wificfgSetBssMaxidle w maxIdle).1 w.cfgs.wifiMode := by
  unfold wificfgSetBssMaxidle
  simp only [eachAp_eq,ifidxOf_single hmode]
  refine (update_conf_agrees_iff h (single_not_repeater hmode)
    (e := some [(maxIdle.setWidth 16).toNat]) (by rfl) ?_ (by rfl)).mpr (by simp)
  funext param
  cases param <;> rfl

theorem setDtimPeriod_agrees (dtimPeriod : BitVec 32) :
    Agrees (wificfgSetDtimPeriod w dtimPeriod).1 w.cfgs.wifiMode := by
  unfold wificfgSetDtimPeriod
  simp only [eachAp_eq,ifidxOf_single hmode]
  refine (update_conf_agrees_iff h (single_not_repeater hmode)
    (e := some [((dtimPeriod / w.cfgs.beaconInt.setWidth 32).setWidth 16 : BitVec 16).toNat])
    (by rfl) ?_ (by rfl)).mpr (by simp)
  funext param
  cases param <;> rfl

theorem setKeyMgmt_agrees (keyMgmt : BitVec 32) :
    Agrees (wificfgSetKeyMgmt w keyMgmt).1 w.cfgs.wifiMode := by
  unfold wificfgSetKeyMgmt
  simp only [eachAp_eq,ifidxOf_single hmode]
  refine (update_conf_agrees_iff h (single_not_repeater hmode) (e := some [keyMgmt.toNat]) (by rfl) ?_
    (by rfl)).mpr (by simp)
  funext param
  cases param <;> rfl

theorem setWpaPsk_agrees (psk : BitVec 256) : Agrees (wificfgSetWpaPsk w psk).1 w.cfgs.wifiMode := by
  unfold wificfgSetWpaPsk
  simp only [eachAp_eq,ifidxOf_single hmode]
  refine (update_conf_agrees_iff h (single_not_repeater hmode) (e := some [psk.toNat]) (by rfl) ?_
    (by rfl)).mpr (by simp)
  funext param
  cases param <;> rfl

/-- A zero address is pushed by the setter and skipped by the flush. -/
theorem setMacaddr_agrees (addr : BitVec 48) :
    Agrees (wificfgSetMacaddr w addr).1 w.cfgs.wifiMode := by
  unfold wificfgSetMacaddr
  simp only [eachAp_eq,ifidxOf_single hmode]
  refine (update_conf_agrees_iff h (single_not_repeater hmode)
    (e := if addr ≠ 0 then some [addr.toNat] else none) (by rfl) ?_ (by rfl)).mpr ?_
  · funext param
    cases param <;> rfl
  · intro _ v' hv'
    split at hv'
    · exact Option.some.inj hv'
    · cases hv'

theorem setTxMcs_agrees (txMcs : BitVec 8) : Agrees (wificfgSetTxMcs w txMcs).1 w.cfgs.wifiMode := by
  refine (update_lmac_agrees_iff h (single_not_repeater hmode) (e := some [txMcs.toNat]) (by rfl)
    (by rfl) ?_).mpr (by simp)
  funext param
  cases param <;> rfl

theorem setAggCnt_agrees (aggCnt : BitVec 8) :
    Agrees (wificfgSetAggCnt w aggCnt).1 w.cfgs.wifiMode := by
  refine (update_lmac_agrees_iff h (single_not_repeater hmode) (e := some [aggCnt.toNat]) (by rfl)
    (by rfl) ?_).mpr (by simp)
  funext param
  cases param <;> rfl

theorem setStandby_agrees (channel : BitVec 8) (periodMs : BitVec 32) :
    Agrees (wificfgSetStandby w channel periodMs).1 w.cfgs.wifiMode := by
  unfold wificfgSetStandby
  generalize (if channel = 0 ∨ channel > w.cfgs.chanCnt then 1 else channel) = inRange
  refine (update_lmac_agrees_iff h (single_not_repeater hmode)
    (e := some (standbyArgs inRange periodMs)) (by rfl) (by rfl) ?_).mpr (by simp)
  funext param
  cases param <;> rfl

theorem setPsconnect_agrees (period roundup : BitVec 8) :
    Agrees (wificfgSetPsconnect w period roundup).1 w.cfgs.wifiMode := by
  unfold wificfgSetPsconnect
  split
  · exact h
  · refine (update_lmac_agrees_iff h (single_not_repeater hmode) (e := some [period.toNat]) (by rfl)
      (by rfl) ?_).mpr (by simp)
    funext param
    cases param <;> rfl

/-- The bound of the setter makes every mode fit into the field. -/
theorem setWaitPsmode_agrees (mode : BitVec 8) :
    Agrees (wificfgSetWaitPsmode w mode).1 w.cfgs.wifiMode := by
  refine (update_lmac_agrees_iff h (single_not_repeater hmode)
    (e := some [(mode.setWidth 2 : BitVec 2).toNat]) (by rfl) (by rfl) ?_).mpr ?_
  · funext param
    cases param <;> rfl
  · rintro ⟨-,hlt⟩
    have hfits : (mode.setWidth 2).toNat = mode.toNat :=
      (setWidth_toNat_eq_iff mode).mpr (hlt.trans (by decide))
    simp only [hfits,Option.some.injEq,forall_eq']

theorem setWakeupIo_agrees_iff (io edge : BitVec 8) :
    Agrees (wificfgSetWakeupIo w io edge).1 w.cfgs.wifiMode ↔ io.toNat < 2 ^ 7 ∧ edge.toNat < 2 ^ 1 := by
  refine Iff.trans (update_lmac_agrees_iff h (single_not_repeater hmode)
    (e := some [(io.setWidth 7 : BitVec 7).toNat,(edge.setWidth 1 : BitVec 1).toNat]) (by rfl) (by rfl) ?_) ?_
  · funext param
    cases param <;> rfl
  · rw [← setWidth_toNat_eq_iff,← setWidth_toNat_eq_iff]
    simp only [Option.some.injEq,forall_eq',List.cons.injEq,and_true,BitVec.toNat_setWidth]
    omega

theorem setDcdc13_agrees_iff (en : BitVec 8) :
    Agrees (wificfgSetDcdc13 w en).1 w.cfgs.wifiMode ↔ en.toNat < 2 ^ 2 := by
  refine Iff.trans (update_lmac_agrees_iff h (single_not_repeater hmode)
    (e := some [(en.setWidth 2 : BitVec 2).toNat]) (by rfl) (by rfl) ?_) ?_
  · funext param
    cases param <;> rfl
  · exact push_cut_iff en fun hsame => not_not.mp hsame ▸ w.cfgs.dcdc13.isLt

theorem setSuperPwr_agrees_iff (superPwr : BitVec 8) :
    Agrees (wificfgSetSuperPwr w superPwr).1 w.cfgs.wifiMode ↔ superPwr.toNat < 2 ^ 3 := by
  refine Iff.trans (update_lmac_agrees_iff h (single_not_repeater hmode)
    (e := some [(superPwr.setWidth 3 : BitVec 3).toNat]) (by rfl) (by rfl) ?_) ?_
  · funext param
    cases param <;> rfl
  · exact push_cut_iff superPwr fun hsame => not_not.mp (not_or.mp hsame).2 ▸ w.cfgs.superPwr.isLt

theorem setPaPwrctrlDis_agrees_iff (dis : BitVec 8) :
    Agrees (wificfgSetPaPwrctrlDis w dis).1 w.cfgs.wifiMode ↔ dis = 0 ∨ dis.toNat % 2 = 1 := by
  refine Iff.trans (update_lmac_agrees_iff h (single_not_repeater hmode)
    (e := some [lnot (dis.setWidth 1 : BitVec 1)]) (by rfl) (by rfl) ?_) ?_
  · funext param
    cases param <;> rfl
  · simp only [Option.some.injEq,forall_eq',List.cons.injEq,and_true]
    generalize w.cfgs.paPwrctrlDis = stored
    revert dis stored
    decide

theorem setPsmode_agrees_iff (psmode : BitVec 8) :
    Agrees (wificfgSetPsmode w psmode).1 w.cfgs.wifiMode ↔
      psmode.toNat % 2 ^ 3 = w.cfgs.psmode.toNat := by
  have hrep := single_not_repeater hmode
  have hold : w.pushed (.lmac .psMode) = some [w.cfgs.psmode.toNat] := h.entry hrep rfl
  refine Iff.trans (update_agrees_iff h hrep (by rfl) [.lmac .psMode]
    (by rintro (_ | _) - <;> rfl) (by rintro (_ | _) hp <;> first | rfl | simp at hp)
    (by simp)) ?_
  simp only [List.mem_singleton,forall_eq,table,lmacTable,List.filterMap_nil,lastWrite_nil,
    Option.none_or,hold,Option.some.injEq,forall_eq',List.cons.injEq,and_true,BitVec.toNat_setWidth]
  omega

/-- The interface gets the new bandwidth, the radio keeps the old one. -/
theorem setBssBw_agrees_iff {bssBw : BitVec 8} (hret : (wificfgSetBssBw w bssBw).2 = 0) :
    Agrees (wificfgSetBssBw w bssBw).1 w.cfgs.wifiMode ↔ w.cfgs.bssBw = bssBw := by
  have hrep := single_not_repeater hmode
  have hold : w.pushed (.lmac .bssBw) = some [w.cfgs.bssBw.toNat] := h.entry hrep rfl
  unfold wificfgSetBssBw at hret ⊢
  simp only [orAp_eq,ifidxOf_single hmode] at hret ⊢
  split at hret
  · exact absurd hret (show -EINVAL ≠ 0 by decide)
  · rename_i hvalid
    rw [if_neg hvalid]
    refine Iff.trans (update_agrees_iff h hrep (by rfl)
      [.conf w.cfgs.wifiMode .bssbw,.lmac .bssBw]
      (by rintro (_ | _) hp <;> first | rfl | simp at hp)
      (by rintro (_ | _) hp <;> first | rfl | simp at hp) ?_) ?_
    · intro k hk
      simp only [List.mem_cons,not_or] at hk
      simp [Call.push?,Ne.symm hk.1]
    · simp [table,confTable,lmacTable,Call.push?,hold,BitVec.toNat_inj]

/-- The radio gets the new value, the interface keeps the old one. -/
theorem setApPsmode_agrees_iff (en : BitVec 8) :
    Agrees (wificfgSetApPsmode w en).1 w.cfgs.wifiMode ↔ en.toNat = w.cfgs.apPsmode.toNat := by
  have hrep := single_not_repeater hmode
  have hold : w.pushed (.conf w.cfgs.wifiMode .apPsmodeEn) = some [w.cfgs.apPsmode.toNat] :=
    h.entry hrep (if_pos rfl)
  refine Iff.trans (update_agrees_iff h hrep (by rfl)
    [.conf w.cfgs.wifiMode .apPsmodeEn,.lmac .apPsmodeEn]
    (by rintro (_ | _) hp <;> first | rfl | simp at hp)
    (by rintro (_ | _) hp <;> first | rfl | simp at hp) ?_) ?_
  · intro k hk
    simp only [List.mem_cons,not_or] at hk
    simp [Call.push?,Ne.symm hk.2.1]
  · simp [table,confTable,lmacTable,Call.push?,hold]
    omega

/-- What a call of wificfg_set_roaming changes. -/
abbrev roamChanged (c : SysConfig) (vals : ℕ → BitVec 8) (count : BitVec 8) : Prop :=
  (count > 0 ∧ c.roamStart.toNat ≠ (vals 0).toNat)
    ∨ c.roamRssiTh ≠ roamArg vals count 2 c.roamRssiTh
    ∨ c.roamRssiDiff ≠ roamArg vals count 3 c.roamRssiDiff
    ∨ c.roamRssiInt ≠ roamArg vals count 4 c.roamRssiInt

/-- The arguments that are pushed are those that are stored. -/
abbrev roamStored (c : SysConfig) (vals : ℕ → BitVec 8) (count : BitVec 8) : Prop :=
  (vals 0).toNat < 2 ^ 1 ∧ vals 2 = roamArg vals count 2 c.roamRssiTh
    ∧ vals 3 = roamArg vals count 3 c.roamRssiDiff ∧ vals 4 = roamArg vals count 4 c.roamRssiInt

theorem setRoaming_agrees_iff (vals : ℕ → BitVec 8) (count : BitVec 8) :
    Agrees (wificfgSetRoaming w vals count).1 w.cfgs.wifiMode ↔
      (roamChanged w.cfgs vals count → roamStored w.cfgs vals count) := by
  unfold wificfgSetRoaming
  simp only [ifidxOf_single hmode]
  refine Iff.trans (update_agrees_iff h (single_not_repeater hmode) (by rfl)
    [.conf w.cfgs.wifiMode .roaming,.conf w.cfgs.wifiMode .roamConfig]
    (by rintro (_ | _) hp <;> first | rfl | simp at hp)
    (by rintro (_ | _) - <;> rfl) ?_) ?_
  · intro k hk
    simp only [List.mem_cons,not_or] at hk
    simp [Call.push?,Ne.symm hk.1,Ne.symm hk.2.1]
  · refine imp_congr_right fun _ => ?_
    have hstart : (vals 0).toNat = ((vals 0).setWidth 1 : BitVec 1).toNat ↔ (vals 0).toNat < 2 ^ 1 :=
      eq_comm.trans (setWidth_toNat_eq_iff _)
    rw [roamStored,← hstart]
    simp [-BitVec.toNat_setWidth,table,confTable,Call.push?,BitVec.toNat_inj]

/-- The radio keeps the argument, the configuration keeps the answer. -/
theorem setTxPower_agrees_iff (txpower : BitVec 8) :
    Agrees (wificfgSetTxPower drv w txpower).1 w.cfgs.wifiMode ↔ (w.cfgs.txpower ≠ txpower →
      BitVec.ofInt 8 (drv.answer (w.calls ++ [.lmac .txpower [txpower.toNat],.lmacGetTxpower]))
        = txpower) := by
  have hrep := single_not_repeater hmode
  unfold wificfgSetTxPower
  split
  · rename_i hchanged
    have hcs : [Call.lmac .txpower [txpower.toNat],.lmacGetTxpower].filterMap Call.push?
        = [(.lmac .txpower,[txpower.toNat])] := rfl
    refine Iff.trans (h.step_iff hrep (show _ = w.calls ++
        [.lmac .txpower [txpower.toNat],.lmacGetTxpower] by simp) (by simp) (by simp)
      [.lmac .txpower] (table_congr
        (by rintro (_ | _) - <;> simp [confTable,flushChannel,SysConfig.channels])
        (by rintro (_ | _) hp <;> first | (simp [lmacTable]; done) | simp at hp)) ?_) ?_
    · intro k hk
      rw [List.mem_singleton] at hk
      simp [hcs,Ne.symm hk]
    · simp [-BitVec.toNat_ofInt,hcs,table,lmacTable,BitVec.toNat_inj,hchanged]
      exact eq_comm
  · rename_i hsame
    exact iff_of_true h fun hc => absurd hc hsame

theorem setAcktmo_agrees (tmo : BitVec 16) : Agrees (wificfgSetAcktmo w tmo).1 w.cfgs.wifiMode := by
  have hrep := single_not_repeater hmode
  unfold wificfgSetAcktmo
  split
  · refine (h.step_iff hrep (show _ = w.calls ++ [.lmac .ackTimeoutExtra [tmo.toNat]] by simp)
      (by simp) (by simp) [.lmac .ackTimeoutExtra] (table_congr
        (by rintro (_ | _) - <;> simp [confTable,flushChannel,SysConfig.channels])
        (by rintro (_ | _) hp <;> first | (simp [lmacTable]; done) | simp at hp)) ?_).mpr ?_
    · intro k hk
      simp only [List.mem_singleton] at hk
      simp [Call.push?,Ne.symm hk]
    · simp [table,lmacTable,Call.push?]
  · exact h

omit h hmode in
theorem flushChannel_eq_one_iff (c : SysConfig) (statusChannel : BitVec 8) :
    flushChannel c statusChannel = 1 ↔ c.channel = 1 ∨ (c.channel = 0 ∧ statusChannel = 1) := by
  unfold flushChannel
  split
  · rename_i hzero
    simp [hzero.1]
  · rename_i hset
    have hnot : ¬ (c.channel = 0 ∧ statusChannel = 1) := by
      rintro ⟨hzero,rfl⟩
      exact hset ⟨hzero,by decide⟩
    simp only [hnot,or_false]

/-- The calls of a new channel list to the interface of the mode. -/
def listCalls (c : SysConfig) (chans : List (BitVec 16)) : List Call :=
  [.conf c.wifiMode .chanlist ((c.setChannels chans).channels ++ [(c.setChannels chans).chanCnt.toNat]),
    .conf c.wifiMode .channel [1],.iface c.wifiMode .getChannel []]

/-- What the interface answers to the query behind a new list. -/
def channelAnswer (drv : Driver) (w : World) (chans : List (BitVec 16)) : BitVec 8 :=
  BitVec.ofInt 8 (drv.answer (w.calls ++ listCalls w.cfgs chans))

omit h in
theorem pushChanList_eq (chans : List (BitVec 16)) :
    w.pushChanList drv chans = (w.store { w.cfgs.setChannels chans with
      channel := channelAnswer drv w chans }).call (listCalls w.cfgs chans) := by
  simp only [World.pushChanList,World.pushChannel,uint8_not_neg,if_false,orAp_eq]
  rw [show (w.cfgs.setChannels chans).wifiMode = w.cfgs.wifiMode from rfl,ifidxOf_single hmode]
  rfl

/-- The list is pushed as it is stored, the channel as 1. -/
theorem pushChanList_agrees_iff (chans : List (BitVec 16)) :
    Agrees (wificfgSave (w.pushChanList drv chans) 0) w.cfgs.wifiMode ↔
      channelAnswer drv w chans = 1 ∨ (channelAnswer drv w chans = 0 ∧ w.statusChannel = 1) := by
  have hcs : (listCalls w.cfgs chans).filterMap Call.push?
      = [(.conf w.cfgs.wifiMode .chanlist,(w.cfgs.setChannels chans).channels
          ++ [(w.cfgs.setChannels chans).chanCnt.toNat]),
        (.conf w.cfgs.wifiMode .channel,[1])] := rfl
  rw [pushChanList_eq hmode]
  refine Iff.trans (h.step_iff (single_not_repeater hmode)
    (show _ = w.calls ++ listCalls w.cfgs chans by simp) (by simp; rfl) (by simp)
    [.conf w.cfgs.wifiMode .chanlist,.conf w.cfgs.wifiMode .channel] (table_congr
      (by rintro (_ | _) hp <;> first | (rw [wificfgSave_cfgs]; rfl) | simp at hp)
      (by rintro (_ | _) - <;> (rw [wificfgSave_cfgs]; rfl))) ?_) ?_
  · intro k hk
    simp only [List.mem_cons,not_or] at hk
    simp [hcs,Ne.symm hk.1,Ne.symm hk.2.1]
  · have hlist : table { w.cfgs.setChannels chans with channel := channelAnswer drv w chans }
        w.statusChannel w.cfgs.wifiMode (.conf w.cfgs.wifiMode .chanlist)
        = some ((w.cfgs.setChannels chans).channels ++ [(w.cfgs.setChannels chans).chanCnt.toNat]) :=
      if_pos rfl
    have hchannel : table { w.cfgs.setChannels chans with channel := channelAnswer drv w chans }
        w.statusChannel w.cfgs.wifiMode (.conf w.cfgs.wifiMode .channel)
        = some [(flushChannel { w.cfgs.setChannels chans with
            channel := channelAnswer drv w chans } w.statusChannel).toNat] := if_pos rfl
    rw [← flushChannel_eq_one_iff
      { w.cfgs.setChannels chans with channel := channelAnswer drv w chans },← BitVec.toNat_inj]
    simp only [wificfgSave_cfgs,World.call_cfgs,World.store_cfgs,List.forall_mem_cons,
      List.not_mem_nil,hlist,hchannel,hcs]
    simp [eq_comm]

/-- The list that is stored is the list that is pushed; a rejected one is no call. -/
theorem setChanList_agrees_iff {chanList : ℕ → BitVec 16} {chanCnt : BitVec 8}
    (hret : (wificfgSetChanList drv w chanList chanCnt).2 = 0) :
    Agrees (wificfgSetChanList drv w chanList chanCnt).1 w.cfgs.wifiMode ↔
      (w.cfgs.listChanged (chanArgs chanList chanCnt) →
        channelAnswer drv w (chanArgs chanList chanCnt) = 1 ∨
          (channelAnswer drv w (chanArgs chanList chanCnt) = 0 ∧ w.statusChannel = 1)) := by
  unfold wificfgSetChanList at hret ⊢
  dsimp only at hret ⊢
  by_cases hchanged : w.cfgs.listChanged (chanArgs chanList chanCnt)
  · rw [if_pos hchanged] at hret ⊢
    split at hret
    · exact absurd hret (show -EINVAL ≠ 0 by decide)
    · rename_i hfreq
      rw [if_neg hfreq,pushChanList_agrees_iff h hmode]
      exact (imp_iff_right hchanged).symm
  · rw [if_neg hchanged]
    exact iff_of_true h fun hc => absurd hc hchanged

end Setters

/-- The setters of parameters that a flush pushes as well. -/
def Op.flushed : Op → Bool
  | .setBssBw _ | .setRoaming _ _ | .setApPsmode _ | .setPsmode _ | .setWaitPsmode _
  | .setPsconnect _ _ | .setStandby _ _ | .setSleepAplostTime _ | .setBeaconInt _
  | .setBssMaxidle _ | .setDtimPeriod _ | .setChanList _ _ | .setMacaddr _ | .setKeyMgmt _
  | .setWpaPsk _ | .setAggCnt _ | .setSuperPwr _ | .setWakeupIo _ _ | .setDcdc13 _
  | .setAcktmo _ | .setPaPwrctrlDis _ | .setTxPower _ | .setTxMcs _ => true
  | _ => false

/-- When such a setter pushes what a flush of the new configuration would push. -/
def Op.pushesAsFlush (drv : Driver) (w : World) : Op → Bool
  | .setBssBw bssBw => w.cfgs.bssBw = bssBw
  | .setRoaming vals count => roamChanged w.cfgs vals count → roamStored w.cfgs vals count
  | .setApPsmode en => en.toNat = w.cfgs.apPsmode.toNat
  | .setPsmode psmode => psmode.toNat % 2 ^ 3 = w.cfgs.psmode.toNat
  | .setSleepAplostTime time => time.toNat < 2 ^ 16
  | .setBeaconInt beaconInt => beaconInt.toNat < 2 ^ 16
  | .setChanList chanList chanCnt => w.cfgs.listChanged (chanArgs chanList chanCnt) →
      channelAnswer drv w (chanArgs chanList chanCnt) = 1 ∨
        (channelAnswer drv w (chanArgs chanList chanCnt) = 0 ∧ w.statusChannel = 1)
  | .setSuperPwr superPwr => superPwr.toNat < 2 ^ 3
  | .setWakeupIo io edge => io.toNat < 2 ^ 7 ∧ edge.toNat < 2 ^ 1
  | .setDcdc13 en => en.toNat < 2 ^ 2
  | .setPaPwrctrlDis dis => dis = 0 ∨ dis.toNat % 2 = 1
  | .setTxPower txpower => w.cfgs.txpower ≠ txpower →
      BitVec.ofInt 8 (drv.answer (w.calls ++ [.lmac .txpower [txpower.toNat],.lmacGetTxpower]))
        = txpower
  | _ => true

theorem apply_agrees_iff (h : Agrees w w.cfgs.wifiMode) (hmode : w.cfgs.wifiMode ∈ interfaces) {op : Op}
    (hop : op.flushed = true) (hret : (op.apply drv w).2 = 0) :
    Agrees (op.apply drv w).1 w.cfgs.wifiMode ↔ op.pushesAsFlush drv w = true := by
  cases op with
  | setBssBw bssBw => exact (setBssBw_agrees_iff h hmode hret).trans decide_eq_true_iff.symm
  | setChanList chanList chanCnt =>
    exact (setChanList_agrees_iff h hmode hret).trans decide_eq_true_iff.symm
  | setRoaming vals count => exact (setRoaming_agrees_iff h hmode vals count).trans decide_eq_true_iff.symm
  | setApPsmode en => exact (setApPsmode_agrees_iff h hmode en).trans decide_eq_true_iff.symm
  | setPsmode psmode => exact (setPsmode_agrees_iff h hmode psmode).trans decide_eq_true_iff.symm
  | setSleepAplostTime time =>
    exact (setSleepAplostTime_agrees_iff h hmode time).trans decide_eq_true_iff.symm
  | setBeaconInt beaconInt => exact (setBeaconInt_agrees_iff h hmode beaconInt).trans decide_eq_true_iff.symm
  | setSuperPwr superPwr => exact (setSuperPwr_agrees_iff h hmode superPwr).trans decide_eq_true_iff.symm
  | setWakeupIo io edge => exact (setWakeupIo_agrees_iff h hmode io edge).trans decide_eq_true_iff.symm
  | setDcdc13 en => exact (setDcdc13_agrees_iff h hmode en).trans decide_eq_true_iff.symm
  | setPaPwrctrlDis dis => exact (setPaPwrctrlDis_agrees_iff h hmode dis).trans decide_eq_true_iff.symm
  | setTxPower txpower => exact (setTxPower_agrees_iff h hmode txpower).trans decide_eq_true_iff.symm
  | setWaitPsmode mode => exact iff_of_true (setWaitPsmode_agrees h hmode mode) rfl
  | setPsconnect period roundup => exact iff_of_true (setPsconnect_agrees h hmode period roundup) rfl
  | setStandby channel periodMs => exact iff_of_true (setStandby_agrees h hmode channel periodMs) rfl
  | setBssMaxidle maxIdle => exact iff_of_true (setBssMaxidle_agrees h hmode maxIdle) rfl
  | setDtimPeriod dtimPeriod => exact iff_of_true (setDtimPeriod_agrees h hmode dtimPeriod) rfl
  | setMacaddr addr => exact iff_of_true (setMacaddr_agrees h hmode addr) rfl
  | setKeyMgmt keyMgmt => exact iff_of_true (setKeyMgmt_agrees h hmode keyMgmt) rfl
  | setWpaPsk psk => exact iff_of_true (setWpaPsk_agrees h hmode psk) rfl
  | setAggCnt aggCnt => exact iff_of_true (setAggCnt_agrees h hmode aggCnt) rfl
  | setAcktmo tmo => exact iff_of_true (setAcktmo_agrees h hmode tmo) rfl
  | setTxMcs txMcs => exact iff_of_true (setTxMcs_agrees h hmode txMcs) rfl
  | _ => cases hop

theorem step_eq {op : Op} {w' : World} (hstep : step drv w op = some w') : w' = (op.apply drv w).1 := by
  cases op with
  | setDtimPeriod dtimPeriod =>
    simp only [step] at hstep
    split at hstep
    · cases hstep
    · exact (Option.some.inj hstep).symm
  | _ => exact (Option.some.inj hstep).symm

/-- In a mode with one interface, from a state that a flush leaves as it is, a
successful setter leads to another such state exactly if its push is the flush's. -/
theorem flush_unchanged_iff (drv : Driver) {w w' : World} (hmode : w.cfgs.wifiMode ∈ interfaces)
    (hflush : (wificfgFlush w w.cfgs.wifiMode).pushed = w.pushed) {op : Op} (hop : op.flushed = true)
    (hstep : step drv w op = some w') (hret : (op.apply drv w).2 = 0) :
    (wificfgFlush w' w.cfgs.wifiMode).pushed = w'.pushed ↔ op.pushesAsFlush drv w = true := by
  rw [← agrees_iff] at hflush ⊢
  rw [step_eq hstep]
  exact apply_agrees_iff hflush hmode hop hret

/-- The device as wificfg_flush leaves it. -/
def flushedSta : World := wificfgFlush booted WIFI_MODE_STA

theorem flushedSta_flushed : (wificfgFlush flushedSta flushedSta.cfgs.wifiMode).pushed = flushedSta.pushed :=
  (agrees_iff _ _).mp (wificfgFlush_agrees booted WIFI_MODE_STA)

theorem flush_unchanged_iff_beaconInt :
    (wificfgFlush (wificfgSetBeaconInt flushedSta 200).1 WIFI_MODE_STA).pushed
      = (wificfgSetBeaconInt flushedSta 200).1.pushed :=
  (flush_unchanged_iff zeroDriver (by decide) flushedSta_flushed
    (by exact (rfl : (Op.setBeaconInt 200).flushed = true)) rfl rfl).mpr (by decide)

/-- A new bandwidth reaches the interface, and the radio only with the next flush. -/
theorem flushedSta_bssBw :
    (wificfgFlush flushedSta flushedSta.cfgs.wifiMode).pushed = flushedSta.pushed ∧
    (wificfgSetBssBw flushedSta 4).2 = 0 ∧
    (wificfgSetBssBw flushedSta 4).1.pushed (.conf WIFI_MODE_STA .bssbw) = some [4] ∧
    (wificfgSetBssBw flushedSta 4).1.pushed (.lmac .bssBw) = some [8] ∧
    (wificfgFlush (wificfgSetBssBw flushedSta 4).1 WIFI_MODE_STA).pushed
      ≠ (wificfgSetBssBw flushedSta 4).1.pushed :=
  ⟨flushedSta_flushed,rfl,by decide,by decide,
    fun h => absurd (congrFun h (.lmac .bssBw)) (by decide)⟩

end FmacSdk.Syscfg
