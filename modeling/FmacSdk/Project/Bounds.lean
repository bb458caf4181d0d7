import FmacSdk.Project.Atcmd
import FmacSdk.Project.SyscfgFlush
import FmacSdk.Project.SyscfgRanges
import Mathlib.Data.Nat.Digits.Lemmas

/-! # The memory that the setters and getters access

The arrays behind the list setters are accessed at indices and over lengths that
come from the arguments and from counts that earlier calls stored. An array of a
caller has the number of elements that is passed with it. chan_cnt stays within
chan_list along every run; what else may leave an array is a condition on the
single call.
-/
namespace FmacSdk.Syscfg
open Transition

/-- `len` elements from `start` on in an array of `extent` elements. -/
structure Access where
  extent : ℕ
  start : ℤ
  len : ℕ
deriving DecidableEq, Repr

def Access.InBounds (a : Access) : Prop := a.len = 0 ∨ (0 ≤ a.start ∧ a.start + a.len ≤ a.extent)

instance (a : Access) : Decidable a.InBounds := inferInstanceAs (Decidable (_ ∨ _))

def element (extent : ℕ) (i : ℤ) : Access := ⟨extent,i,1⟩

@[simp] theorem element_inBounds {extent : ℕ} {i : ℤ} :
    (element extent i).InBounds ↔ 0 ≤ i ∧ i < extent := by
  simp only [element,Access.InBounds]
  omega

@[simp] theorem prefix_inBounds {extent len : ℕ} : Access.InBounds ⟨extent,0,len⟩ ↔ len ≤ extent := by
  simp only [Access.InBounds]
  omega

/-- The characters that %d prints. -/
def printed (v : ℤ) : ℕ := (if v < 0 then 1 else 0) + max 1 (Nat.digits 10 v.natAbs).length

theorem printed_le_one {v : ℤ} : printed v ≤ 1 ↔ 0 ≤ v ∧ v ≤ 9 := by
  unfold printed
  split
  · omega
  · rw [zero_add,max_le_iff,and_iff_right le_rfl,Nat.digits_length_le_iff (by decide)]
    omega

inductive CfgLabel
  | op (op : Op)
  | atChanList (argv : ℕ → List UInt8) (argc : ℕ)
  | getFreqRange
  | getChanList (chanCnt : BitVec 8)

/-- A getter changes nothing. -/
def cfgStep (drv : Driver) (w : World) : CfgLabel → Option World
  | .op op => step drv w op
  | .atChanList argv argc => some (sysWifiAtcmdChanList drv w argv argc)
  | .getFreqRange => some w
  | .getChanList _ => some w

section Accesses
variable (drv : Driver) (c : SysConfig)

/-- The accesses to chan_list. -/
def getFreqRangeAccesses : List Access :=
  [element 16 0,element 16 (c.chanCnt.toNat - 1),element 16 1,element 16 0]

def getChanListAccesses (chanCnt : BitVec 8) : List Access :=
  let count := if chanCnt < c.chanCnt then chanCnt.toNat else c.chanCnt.toNat
  [⟨chanCnt.toNat,0,count⟩,⟨16,0,count⟩]

/-- The comparison of the lists comes only after that of the counts; the first
element of the argument is read before anything is stored. -/
def setChanListAccesses (chanList : ℕ → BitVec 16) (chanCnt : BitVec 8) : List Access :=
  let n := min chanCnt.toNat 16
  (if c.chanCnt.toNat = n then [⟨chanCnt.toNat,0,n⟩,⟨16,0,n⟩] else [])
  ++ if c.listChanged (chanArgs chanList chanCnt) then
      element chanCnt.toNat 0 ::
        if drv.sysctrlFreqTypeMatch (chanList 0) ≠ 0 then []
        else [⟨chanCnt.toNat,0,n⟩,⟨16,0,n⟩,⟨16,0,n⟩]
    else []

/-- A slot that is not free is searched for up to the first match, then cleared. -/
def setPairedStasAccesses (macList : ℕ → BitVec 8) (cnt : BitVec 8) : List Access :=
  ((List.range SYS_STA_MAX).flatMap fun i =>
    let sta := c.pairStas.toList.getD i 0
    element SYS_STA_MAX i ::
      if sta = 0 then []
      else (((List.range (min cnt.toNat SYS_STA_MAX)).filter fun j => ∀ k < j, sta ≠ macAt macList k).map
          fun (j : ℕ) => element cnt.toNat j) ++ [element SYS_STA_MAX i])
  ++ (List.range cnt.toNat).flatMap fun (i : ℕ) => [element SYS_STA_MAX i,element cnt.toNat i]

def setWkhostReasonsAccesses (count : BitVec 8) : List Access :=
  let n := if count.toNat > 32 then 32 else count.toNat
  [⟨32,0,32⟩,⟨count.toNat,0,n⟩,⟨32,0,n⟩]

def setRoamingAccesses (vals : ℕ → BitVec 8) (count : BitVec 8) : List Access :=
  let guarded (i : ℕ) : List ℕ := if count.toNat > i then i :: if vals i ≠ 0 then [i] else [] else []
  ((if count > 0 then [0] else []) ++ guarded 2 ++ guarded 3 ++ guarded 4
    ++ if roamChanged c vals count then
        [0] ++ guarded 2 ++ guarded 3 ++ guarded 4 ++ [0,2,3,4]
      else []).map fun (i : ℕ) => element count.toNat i

/-- The number of the channel that is switched to. -/
def csNum (chan : BitVec 8) : ℤ := Int.tdiv ((c.chanList.toList.getD (chan.toNat - 1) 0).toNat - 7000) 10

/-- Both lines have ten characters before the number, and a terminator. -/
def setApChanSwitchAccesses (chan counter : BitVec 8) : List Access :=
  if modeIsAp c.wifiMode ∧ chan > 0 ∧ chan ≤ c.chanCnt then
    [element 16 (chan.toNat - 1),⟨12,0,10 + printed (csNum c chan) + 1⟩,⟨12,0,10 + printed counter.toNat + 1⟩]
  else []

def CfgLabel.accesses : CfgLabel → List Access
  | .getFreqRange => getFreqRangeAccesses c
  | .getChanList chanCnt => getChanListAccesses c chanCnt
  | .op (.setChanList chanList chanCnt) => setChanListAccesses drv c chanList chanCnt
  | .op (.setPairedStas macList cnt) => setPairedStasAccesses c macList cnt
  | .op (.setWkhostReasons _ count) => setWkhostReasonsAccesses count
  | .op (.setRoaming vals count) => setRoamingAccesses c vals count
  | .op (.setApChanSwitch chan counter) => setApChanSwitchAccesses c chan counter
  | _ => []

/-- When a call stays within the arrays. -/
def CfgLabel.inArrays : CfgLabel → Bool
  | .getFreqRange => c.chanCnt ≠ 0
  | .op (.setChanList _ chanCnt) => chanCnt ≠ 0 ∨ c.chanCnt = 0
  | .op (.setPairedStas _ cnt) => cnt.toNat ≤ SYS_STA_MAX
  | .op (.setRoaming vals count) => roamChanged c vals count → 5 ≤ count.toNat
  | .op (.setApChanSwitch chan counter) => modeIsAp c.wifiMode ∧ chan > 0 ∧ chan ≤ c.chanCnt →
      (0 ≤ csNum c chan ∧ csNum c chan ≤ 9) ∧ counter.toNat ≤ 9
  | _ => true

end Accesses

section Calls
variable {drv : Driver} {c : SysConfig}

def AllInBounds (as : List Access) : Prop := ∀ a ∈ as, a.InBounds

@[simp] theorem allInBounds_nil : AllInBounds [] := List.forall_mem_nil _

@[simp] theorem allInBounds_cons {a : Access} {as : List Access} :
    AllInBounds (a :: as) ↔ a.InBounds ∧ AllInBounds as := List.forall_mem_cons

@[simp] theorem allInBounds_append {as bs : List Access} :
    AllInBounds (as ++ bs) ↔ AllInBounds as ∧ AllInBounds bs := List.forall_mem_append

@[simp] theorem allInBounds_ite {p : Prop} [Decidable p] {as : List Access} :
    AllInBounds (if p then as else []) ↔ (p → AllInBounds as) := by
  by_cases h : p <;> simp [h]

theorem uint8_eq_zero {x : BitVec 8} : x = 0 ↔ x.toNat = 0 := by simp [← BitVec.toNat_inj]

theorem getFreqRange_inBounds_iff (hcnt : c.chanCnt.toNat ≤ 16) :
    AllInBounds (getFreqRangeAccesses c) ↔ c.chanCnt ≠ 0 := by
  rw [ne_eq,uint8_eq_zero]
  simp only [getFreqRangeAccesses,allInBounds_cons,allInBounds_nil,element_inBounds,and_true]
  omega

theorem getChanList_inBounds (hcnt : c.chanCnt.toNat ≤ 16) (chanCnt : BitVec 8) :
    AllInBounds (getChanListAccesses c chanCnt) := by
  simp only [getChanListAccesses,allInBounds_cons,allInBounds_nil,prefix_inBounds,and_true,BitVec.lt_def]
  split <;> omega

/-- An empty argument is read where it replaces a list that is not empty. -/
theorem setChanList_inBounds_iff (chanList : ℕ → BitVec 16) (chanCnt : BitVec 8) :
    AllInBounds (setChanListAccesses drv c chanList chanCnt) ↔ chanCnt ≠ 0 ∨ c.chanCnt = 0 := by
  have hlists : AllInBounds [⟨chanCnt.toNat,0,min chanCnt.toNat 16⟩,⟨16,0,min chanCnt.toNat 16⟩,
      ⟨16,0,min chanCnt.toNat 16⟩] := by
    simp
  have hfirst : AllInBounds (setChanListAccesses drv c chanList chanCnt) ↔
      (c.listChanged (chanArgs chanList chanCnt) → 0 < chanCnt.toNat) := by
    unfold setChanListAccesses
    simp only [allInBounds_append,allInBounds_ite,allInBounds_cons,element_inBounds]
    constructor
    · intro h hchanged
      have := (h.2 hchanged).1
      omega
    · intro h
      refine ⟨fun _ => by simp,fun hchanged => ?_⟩
      have hpos := h hchanged
      refine ⟨by omega,?_⟩
      split
      · simp
      · exact hlists
  rw [hfirst]
  by_cases hzero : chanCnt = 0
  · subst hzero
    have hchanged : c.listChanged (chanArgs chanList 0) ↔ ¬ c.chanCnt = 0 := by
      rw [uint8_eq_zero]
      simp [SysConfig.listChanged,chanArgs]
    rw [hchanged]
    simp
  · have hpos : 0 < chanCnt.toNat := by
      rw [uint8_eq_zero] at hzero
      omega
    exact iff_of_true (fun _ => hpos) (Or.inl hzero)

@[simp] theorem allInBounds_flatMap {α : Type} {xs : List α} {as : α → List Access} :
    AllInBounds (xs.flatMap as) ↔ ∀ x ∈ xs, AllInBounds (as x) := List.forall_mem_flatMap

/-- The search of the argument for the address in slot `i`. -/
theorem slotSearch_inBounds {cnt i : ℕ} (sta : BitVec 48) (p : ℕ → Bool) (hi : i < SYS_STA_MAX) :
    AllInBounds (element SYS_STA_MAX i :: if sta = 0 then []
      else (((List.range (min cnt SYS_STA_MAX)).filter p).map fun (j : ℕ) => element cnt j)
        ++ [element SYS_STA_MAX i]) := by
  have hslot : (element SYS_STA_MAX i).InBounds := by
    rw [element_inBounds]
    omega
  refine allInBounds_cons.mpr ⟨hslot,?_⟩
  split
  · exact allInBounds_nil
  · refine allInBounds_append.mpr ⟨fun a ha => ?_,allInBounds_cons.mpr ⟨hslot,allInBounds_nil⟩⟩
    obtain ⟨j,hj,rfl⟩ := List.mem_map.mp ha
    have hlt := List.mem_range.mp (List.mem_of_mem_filter hj)
    rw [element_inBounds]
    omega

theorem setPairedStas_inBounds_iff (macList : ℕ → BitVec 8) (cnt : BitVec 8) :
    AllInBounds (setPairedStasAccesses c macList cnt) ↔ cnt.toNat ≤ SYS_STA_MAX := by
  have hsearch : AllInBounds ((List.range SYS_STA_MAX).flatMap _) :=
    allInBounds_flatMap.mpr fun i hi => @slotSearch_inBounds cnt.toNat i (c.pairStas.toList.getD i 0)
      (fun j => ∀ k < j, c.pairStas.toList.getD i 0 ≠ macAt macList k) (List.mem_range.mp hi)
  refine allInBounds_append.trans ((and_iff_right hsearch).trans ?_)
  simp only [allInBounds_flatMap,allInBounds_cons,allInBounds_nil,element_inBounds,List.mem_range,and_true]
  constructor
  · intro hall
    by_contra hlt
    have := (hall SYS_STA_MAX (by omega)).1
    omega
  · intro hle i hi
    omega

theorem setWkhostReasons_inBounds (count : BitVec 8) :
    AllInBounds (setWkhostReasonsAccesses count) := by
  simp only [setWkhostReasonsAccesses,allInBounds_cons,allInBounds_nil,prefix_inBounds,and_true]
  split <;> omega

theorem guardedArg_lt (vals : ℕ → BitVec 8) (count : BitVec 8) (k : ℕ) :
    ∀ i ∈ (if count.toNat > k then k :: if vals k ≠ 0 then [k] else [] else []), i < count.toNat := by
  split
  · rename_i hlt
    split <;> simp [hlt]
  · exact List.forall_mem_nil _

/-- What is pushed is read whatever the count. -/
theorem setRoaming_inBounds_iff (vals : ℕ → BitVec 8) (count : BitVec 8) :
    AllInBounds (setRoamingAccesses c vals count) ↔ (roamChanged c vals count → 5 ≤ count.toNat) := by
  have hindex (is : List ℕ) :
      AllInBounds (is.map fun i : ℕ => element count.toNat i) ↔ ∀ i ∈ is, i < count.toNat := by
    simp [AllInBounds]
  have hstart : ∀ i ∈ (if count > 0 then [0] else []), i < count.toNat := by
    split
    · rename_i hpos
      rw [gt_iff_lt,BitVec.lt_def] at hpos
      exact List.forall_mem_singleton.mpr hpos
    · exact List.forall_mem_nil _
  have hargs := guardedArg_lt vals count
  unfold setRoamingAccesses
  dsimp only
  rw [hindex,List.forall_mem_append]
  by_cases hchanged : roamChanged c vals count
  · rw [if_pos hchanged,imp_iff_right hchanged]
    constructor
    · intro hall
      exact hall.2 4 (by simp)
    · intro hfive
      simp only [List.forall_mem_append]
      refine ⟨⟨⟨⟨hstart,hargs 2⟩,hargs 3⟩,hargs 4⟩,⟨⟨⟨?_,hargs 2⟩,hargs 3⟩,hargs 4⟩,?_⟩
      · exact List.forall_mem_singleton.mpr (by omega)
      · intro i hi
        simp only [List.mem_cons,List.not_mem_nil,or_false] at hi
        omega
  · rw [if_neg hchanged]
    simp only [List.forall_mem_append]
    refine iff_of_true ⟨⟨⟨⟨hstart,hargs 2⟩,hargs 3⟩,hargs 4⟩,List.forall_mem_nil _⟩ ?_
    exact fun h => absurd h hchanged

theorem setApChanSwitch_inBounds_iff (hcnt : c.chanCnt.toNat ≤ 16) (chan counter : BitVec 8) :
    AllInBounds (setApChanSwitchAccesses c chan counter) ↔
      (modeIsAp c.wifiMode ∧ chan > 0 ∧ chan ≤ c.chanCnt →
        (0 ≤ csNum c chan ∧ csNum c chan ≤ 9) ∧ counter.toNat ≤ 9) := by
  have hnum : 10 + printed (csNum c chan) + 1 ≤ 12 ↔ 0 ≤ csNum c chan ∧ csNum c chan ≤ 9 := by
    rw [← printed_le_one]
    omega
  have hcounter : 10 + printed counter.toNat + 1 ≤ 12 ↔ counter.toNat ≤ 9 := by
    have := printed_le_one (v := counter.toNat)
    omega
  unfold setApChanSwitchAccesses
  rw [allInBounds_ite]
  refine imp_congr_right fun hbranch => ?_
  obtain ⟨-,hpos,hle⟩ := hbranch
  rw [gt_iff_lt,BitVec.lt_def] at hpos
  rw [BitVec.le_def] at hle
  have hchan : (element 16 (chan.toNat - 1)).InBounds := by
    rw [element_inBounds]
    simp at hpos
    omega
  simp only [allInBounds_cons,allInBounds_nil,prefix_inBounds,hnum,hcounter,hchan,true_and,and_true]

theorem accesses_inBounds_iff (hcnt : c.chanCnt.toNat ≤ 16) (l : CfgLabel) :
    AllInBounds (l.accesses drv c) ↔ l.inArrays c = true := by
  cases l with
  | getFreqRange => exact (getFreqRange_inBounds_iff hcnt).trans decide_eq_true_iff.symm
  | getChanList chanCnt => exact iff_of_true (getChanList_inBounds hcnt chanCnt) rfl
  | atChanList argv argc => exact iff_of_true allInBounds_nil rfl
  | op op =>
    cases op with
    | setChanList chanList chanCnt =>
      exact (setChanList_inBounds_iff chanList chanCnt).trans decide_eq_true_iff.symm
    | setPairedStas macList cnt =>
      exact (setPairedStas_inBounds_iff macList cnt).trans decide_eq_true_iff.symm
    | setWkhostReasons reasons count => exact iff_of_true (setWkhostReasons_inBounds count) rfl
    | setRoaming vals count => exact (setRoaming_inBounds_iff vals count).trans decide_eq_true_iff.symm
    | setApChanSwitch chan counter =>
      exact (setApChanSwitch_inBounds_iff hcnt chan counter).trans decide_eq_true_iff.symm
    | _ => exact iff_of_true allInBounds_nil rfl

end Calls

/-! ## The count of channels along a run -/

section Count
variable {drv : Driver} {w : World}

theorem update_chanCnt {changed : Prop} [Decidable changed] {cfgs : SysConfig} {cs : List Call}
    (h : cfgs.chanCnt = w.cfgs.chanCnt) : (w.update changed cfgs cs).1.cfgs.chanCnt = w.cfgs.chanCnt := by
  rw [update_cfgs]
  split
  · exact h
  · rfl

theorem pushChanList_chanCnt {chans : List (BitVec 16)} (hlen : chans.length ≤ 16) :
    (w.pushChanList drv chans).cfgs.chanCnt.toNat ≤ 16 := by
  show (BitVec.ofNat 8 chans.length).toNat ≤ 16
  rw [BitVec.toNat_ofNat]
  exact (Nat.mod_le _ _).trans hlen

theorem setMode_chanCnt (mode : BitVec 8) : (wificfgSetMode w mode).cfgs.chanCnt = w.cfgs.chanCnt := by
  unfold wificfgSetMode
  simp only [apply_ite World.cfgs,wificfgSave_cfgs,World.call_cfgs,wificfgFlush_cfgs,World.store_cfgs]
  simp only [apply_ite SysConfig.chanCnt,ite_self]

/-- Setters that store no list keep its count. -/
theorem apply_chanCnt_eq {op : Op} (hop : ∀ list cnt, op ≠ .setChanList list cnt) :
    (op.apply drv w).1.cfgs.chanCnt = w.cfgs.chanCnt := by
  cases op with
  | setMode mode => exact setMode_chanCnt mode
  | setChanList chanList chanCnt => exact absurd rfl (hop chanList chanCnt)
  | setBssBw bssBw =>
    show (wificfgSetBssBw w bssBw).1.cfgs.chanCnt = w.cfgs.chanCnt
    unfold wificfgSetBssBw
    dsimp only
    split
    · rfl
    · exact update_chanCnt (by rfl)
  | setPsconnect period roundup =>
    show (wificfgSetPsconnect w period roundup).1.cfgs.chanCnt = w.cfgs.chanCnt
    unfold wificfgSetPsconnect
    split
    · rfl
    · exact update_chanCnt (by rfl)
  | setChannel channel =>
    show (wificfgSetChannel drv w channel).1.cfgs.chanCnt = w.cfgs.chanCnt
    unfold wificfgSetChannel
    dsimp only
    split
    · rw [wificfgSave_cfgs]
      rfl
    · rfl
  | setTxPower txpower =>
    show (wificfgSetTxPower drv w txpower).1.cfgs.chanCnt = w.cfgs.chanCnt
    unfold wificfgSetTxPower
    split <;> simp
  | setAutoSave on =>
    show (wificfgSetAutoSave w on).1.cfgs.chanCnt = w.cfgs.chanCnt
    unfold wificfgSetAutoSave
    split <;> simp
  | setAcktmo tmo =>
    show (wificfgSetAcktmo w tmo).1.cfgs.chanCnt = w.cfgs.chanCnt
    unfold wificfgSetAcktmo
    split <;> simp
  | setApChanSwitch chan counter =>
    show (wificfgSetApChanSwitch w chan counter).1.cfgs.chanCnt = w.cfgs.chanCnt
    unfold wificfgSetApChanSwitch
    split <;> rfl
  | setMcastKey key =>
    show (wificfgSetMcastKey w key).1.cfgs.chanCnt = w.cfgs.chanCnt
    unfold wificfgSetMcastKey
    dsimp only
    split <;> rfl
  | setPriChan priChan => exact (update_chanCnt (w := w.call _) (by rfl)).trans rfl
  | setRepeaterSsid | setRepeaterPsk | setRtc | setRadioOnoff | weak => rfl
  | _ => exact update_chanCnt (by rfl)

theorem apply_chanCnt (h : w.cfgs.chanCnt.toNat ≤ 16) (op : Op) :
    (op.apply drv w).1.cfgs.chanCnt.toNat ≤ 16 := by
  cases op with
  | setChanList chanList chanCnt =>
    show (wificfgSetChanList drv w chanList chanCnt).1.cfgs.chanCnt.toNat ≤ 16
    unfold wificfgSetChanList
    dsimp only
    split
    · split
      · exact h
      · rw [wificfgSave_cfgs]
        exact pushChanList_chanCnt (by simp [chanArgs])
    · exact h
  | _ => exact (congrArg BitVec.toNat (apply_chanCnt_eq (by simp))).trans_le h

theorem atChanList_chanCnt (h : w.cfgs.chanCnt.toNat ≤ 16) (argv : ℕ → List UInt8) (argc : ℕ) :
    (sysWifiAtcmdChanList drv w argv argc).cfgs.chanCnt.toNat ≤ 16 := by
  unfold sysWifiAtcmdChanList
  dsimp only
  split
  · exact h
  · split
    · rw [syscfgSave_cfgs]
      exact pushChanList_chanCnt (by simp)
    · exact h

theorem cfgStep_chanCnt {w' : World} {l : CfgLabel} (h : w.cfgs.chanCnt.toNat ≤ 16)
    (hstep : cfgStep drv w l = some w') : w'.cfgs.chanCnt.toNat ≤ 16 := by
  cases l with
  | op op =>
    rw [step_eq hstep]
    exact apply_chanCnt h op
  | atChanList argv argc =>
    obtain rfl := Option.some.inj hstep
    exact atChanList_chanCnt h argv argc
  | getFreqRange | getChanList =>
    obtain rfl := Option.some.inj hstep
    exact h

theorem syscfgCheck_chanCnt (c : SysConfig) : (syscfgCheck c).chanCnt.toNat ≤ 16 := by
  simp only [syscfgCheck,gt_iff_lt,BitVec.lt_def]
  split
  · decide
  · rename_i h
    simpa using h

theorem boot_chanCnt (moduleType : BitVec 8) (c : SysConfig) : (boot moduleType c).chanCnt.toNat ≤ 16 := by
  have hlist (chans : List (BitVec 16)) (bw : BitVec 8) (hlen : chans.length ≤ 16) :
      { (syscfgCheck c).setChannels chans with bssBw := bw }.chanCnt.toNat ≤ 16 := by
    show (BitVec.ofNat 8 chans.length).toNat ≤ 16
    rw [BitVec.toNat_ofNat]
    exact (Nat.mod_le _ _).trans hlen
  unfold boot syscfgSetDefaultChanlist
  split
  · exact syscfgCheck_chanCnt c
  · repeat' split
    all_goals exact hlist _ _ (by decide)

end Count

/-- From syscfg_check on, a run stays within the arrays exactly if each of its
calls does by itself. -/
theorem accesses_along_iff (drv : Driver) (stored : SysConfig) {w w' : World} {ls : List CfgLabel}
    (hstart : w.cfgs = syscfgCheck stored ∨ ∃ moduleType, w.cfgs = boot moduleType stored)
    (hrun : Runs (cfgStep drv) w ls w') :
    (∀ ms l u, ms ++ [l] <+: ls → Runs (cfgStep drv) w ms u → AllInBounds (l.accesses drv u.cfgs)) ↔
      Runs (guarded (fun u (l : CfgLabel) => l.inArrays u.cfgs = true) (cfgStep drv)) w ls w' := by
  have hcnt : w.cfgs.chanCnt.toNat ≤ 16 := by
    rcases hstart with h | ⟨moduleType,h⟩
    · rw [h]
      exact syscfgCheck_chanCnt stored
    · rw [h]
      exact boot_chanCnt moduleType stored
  exact Runs.guarded_iff_steps (I := fun u : World => u.cfgs.chanCnt.toNat ≤ 16)
    (Q := fun u (l : CfgLabel) => AllInBounds (l.accesses drv u.cfgs))
    (fun _ _ _ h _ hstep => cfgStep_chanCnt h hstep) (fun _ l h => accesses_inBounds_iff h l) hcnt hrun

theorem accesses_along_iff_booted : ∃ u,
    Runs (cfgStep zeroDriver) booted [.op (.setChanList (fun _ => 7640) 3)] u ∧
    AllInBounds (CfgLabel.getFreqRange.accesses zeroDriver u.cfgs) := by
  obtain ⟨u,hu⟩ : ∃ u, exec (cfgStep zeroDriver) booted [.op (.setChanList (fun _ => 7640) 3)] = some u :=
    ⟨_,rfl⟩
  obtain ⟨w',hw⟩ : ∃ w', exec (guarded (fun u (l : CfgLabel) => l.inArrays u.cfgs = true)
      (cfgStep zeroDriver)) booted [.op (.setChanList (fun _ => 7640) 3),.getFreqRange] = some w' :=
    ⟨_,rfl⟩
  have hguarded := Runs.of_exec hw
  have hall := (accesses_along_iff zeroDriver { defaults with bssBw := 8 } (Or.inr ⟨0,rfl⟩)
    hguarded.of_guarded).mpr hguarded
  exact ⟨u,Runs.of_exec hu,hall _ _ u (List.prefix_refl _) (Runs.of_exec hu)⟩

/-- An empty list from AT+CHAN_LIST, and wificfg_get_freq_range reads the element
before the first. -/
theorem empty_chan_list : ∃ u, cfgStep zeroDriver booted (.atChanList (fun _ => []) 0) = some u ∧
    element 16 (-1) ∈ CfgLabel.getFreqRange.accesses zeroDriver u.cfgs ∧
    ¬ AllInBounds (CfgLabel.getFreqRange.accesses zeroDriver u.cfgs) := by
  refine ⟨_,rfl,by decide,fun h => ?_⟩
  exact absurd (h (element 16 (-1)) (by decide)) (by decide)

end FmacSdk.Syscfg
