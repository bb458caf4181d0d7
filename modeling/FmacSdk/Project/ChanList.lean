import FmacSdk.Project.Atcmd

/-! # Two ways to set the channel list

wificfg_set_chan_list asks for the first frequency of a new list and takes any
status but 0 for a refusal; AT+CHAN_LIST asks for every frequency of any list
and takes RET_ERR alone for one.
-/
namespace FmacSdk.Syscfg

variable {drv : Driver} {w : World}

/-- AT+CHAN_LIST answers OK. -/
def atcmdChanListAccepts (drv : Driver) (argv : ℕ → List UInt8) (argc : ℕ) : Prop :=
  ¬ asks argv argc ∧ ∀ i < min argc 16, (atoi (argv i)).toInt < 65536
    ∧ drv.sysctrlFreqTypeMatch ((atoi (argv i)).setWidth 16) ≠ RET_ERR

/-- The argument strings of a command that gives the frequencies of a list. -/
structure Spells (argv : ℕ → List UInt8) (argc : ℕ) (chanList : ℕ → BitVec 16) : Prop where
  number : ∀ i < argc, atoi (argv i) = (chanList i).setWidth 32
  command : ¬ asks argv argc

/-- The channels that are stored. -/
def SysConfig.storedChans (c : SysConfig) : List (BitVec 16) := c.chanList.toList.take c.chanCnt.toNat

theorem storedChans_setChannels (c : SysConfig) {chans : List (BitVec 16)} (hlen : chans.length ≤ 16) :
    (c.setChannels chans).storedChans = chans := by
  have hcnt : (BitVec.ofNat 8 chans.length).toNat = chans.length := by
    rw [BitVec.toNat_ofNat,Nat.mod_eq_of_lt (by omega)]
  simp only [SysConfig.storedChans,SysConfig.setChannels,hcnt]
  apply List.ext_getElem
  · simpa using hlen
  · intro i h₁ h₂
    simp [h₂]

theorem pushChanList_storedChans {chans : List (BitVec 16)} (hlen : chans.length ≤ 16) :
    (w.pushChanList drv chans).cfgs.storedChans = chans :=
  storedChans_setChannels w.cfgs hlen

section Accept
variable {chanList : ℕ → BitVec 16} {chanCnt : BitVec 8} {argv : ℕ → List UInt8}

theorem mem_chanArgs (hcnt : chanCnt.toNat ≤ 16) {chan : BitVec 16} :
    chan ∈ chanArgs chanList chanCnt ↔ ∃ i < chanCnt.toNat, chanList i = chan := by
  simp [chanArgs,Nat.min_eq_left hcnt]

theorem setChanList_accepts_iff : (wificfgSetChanList drv w chanList chanCnt).2 = 0 ↔
    (w.cfgs.listChanged (chanArgs chanList chanCnt) → drv.sysctrlFreqTypeMatch (chanList 0) = 0) := by
  unfold wificfgSetChanList
  dsimp only
  by_cases hchanged : w.cfgs.listChanged (chanArgs chanList chanCnt)
  · rw [if_pos hchanged,imp_iff_right hchanged]
    split
    · rename_i hfreq
      exact iff_of_false (show ¬ (-EINVAL : ℤ) = 0 by decide) hfreq
    · rename_i hfreq
      exact iff_of_true rfl (not_not.mp hfreq)
  · rw [if_neg hchanged]
    exact iff_of_true rfl fun h => absurd h hchanged

theorem setChanList_stored (hchanged : w.cfgs.listChanged (chanArgs chanList chanCnt))
    (hfreq : drv.sysctrlFreqTypeMatch (chanList 0) = 0) :
    (wificfgSetChanList drv w chanList chanCnt).1.cfgs.storedChans = chanArgs chanList chanCnt := by
  unfold wificfgSetChanList
  dsimp only
  rw [if_pos hchanged,if_neg (not_not.mpr hfreq),wificfgSave_cfgs]
  exact pushChanList_storedChans (by simp [chanArgs])

theorem Spells.chan (h : Spells argv chanCnt.toNat chanList) {i : ℕ} (hi : i < chanCnt.toNat) :
    (atoi (argv i)).toInt < 65536 ∧ (atoi (argv i)).setWidth 16 = chanList i := by
  rw [h.number i hi]
  generalize chanList i = chan
  constructor
  · rw [BitVec.toInt_eq_toNat_of_lt] <;> rw [BitVec.toNat_setWidth] <;> omega
  · rw [BitVec.setWidth_setWidth_of_le _ (by omega),BitVec.setWidth_eq]

theorem Spells.chans (h : Spells argv chanCnt.toNat chanList) :
    ((List.range (min chanCnt.toNat 16)).map fun i => (atoi (argv i)).setWidth 16)
      = chanArgs chanList chanCnt := by
  apply List.map_congr_left
  intro i hi
  rw [List.mem_range] at hi
  exact (h.chan (by omega)).2

theorem atcmdChanList_accepts_iff (h : Spells argv chanCnt.toNat chanList) (hcnt : chanCnt.toNat ≤ 16) :
    atcmdChanListAccepts drv argv chanCnt.toNat ↔
      ∀ i < chanCnt.toNat, drv.sysctrlFreqTypeMatch (chanList i) ≠ RET_ERR := by
  unfold atcmdChanListAccepts
  rw [and_iff_right h.command,Nat.min_eq_left hcnt]
  refine forall₂_congr fun i hi => ?_
  rw [(h.chan hi).2]
  exact and_iff_right (h.chan hi).1

theorem atcmdChanList_stored (h : Spells argv chanCnt.toNat chanList)
    (hchanged : w.cfgs.listChanged (chanArgs chanList chanCnt))
    (haccepts : atcmdChanListAccepts drv argv chanCnt.toNat) :
    (sysWifiAtcmdChanList drv w argv chanCnt.toNat).cfgs.storedChans = chanArgs chanList chanCnt := by
  unfold sysWifiAtcmdChanList
  dsimp only
  rw [if_neg h.command,h.chans,if_pos ⟨haccepts.2,hchanged⟩,syscfgSave_cfgs]
  exact pushChanList_storedChans (by simp [chanArgs])

end Accept

/-- The statuses of a list for which the two ways do the same. -/
def StatusesAgree (drv : Driver) (c : SysConfig) (chanList : ℕ → BitVec 16) (chanCnt : BitVec 8) : Prop :=
  if c.listChanged (chanArgs chanList chanCnt) then
    (∀ i < chanCnt.toNat, drv.sysctrlFreqTypeMatch (chanList i) = 0) ∨
      (drv.sysctrlFreqTypeMatch (chanList 0) ≠ 0 ∧
        ∃ i < chanCnt.toNat, drv.sysctrlFreqTypeMatch (chanList i) = RET_ERR)
  else ∀ i < chanCnt.toNat, drv.sysctrlFreqTypeMatch (chanList i) ≠ RET_ERR

/-- Both accept the same lists, and store only channels that match the module. -/
structure AcceptAlike (drv : Driver) (w : World) (chanList : ℕ → BitVec 16) (chanCnt : BitVec 8)
    (argv : ℕ → List UInt8) : Prop where
  accept : (wificfgSetChanList drv w chanList chanCnt).2 = 0 ↔
    atcmdChanListAccepts drv argv chanCnt.toNat
  setter : w.cfgs.listChanged (chanArgs chanList chanCnt) →
    (wificfgSetChanList drv w chanList chanCnt).2 = 0 →
      ∀ chan ∈ (wificfgSetChanList drv w chanList chanCnt).1.cfgs.storedChans,
        drv.sysctrlFreqTypeMatch chan = 0
  command : w.cfgs.listChanged (chanArgs chanList chanCnt) →
    atcmdChanListAccepts drv argv chanCnt.toNat →
      ∀ chan ∈ (sysWifiAtcmdChanList drv w argv chanCnt.toNat).cfgs.storedChans,
        drv.sysctrlFreqTypeMatch chan = 0

theorem acceptAlike_iff (drv : Driver) (w : World) {chanList : ℕ → BitVec 16} {chanCnt : BitVec 8}
    {argv : ℕ → List UInt8} (hcnt : 1 ≤ chanCnt.toNat ∧ chanCnt.toNat ≤ 16)
    (hargv : Spells argv chanCnt.toNat chanList) :
    AcceptAlike drv w chanList chanCnt argv ↔ StatusesAgree drv w.cfgs chanList chanCnt := by
  have hset := @setChanList_accepts_iff drv w chanList chanCnt
  have hat := @atcmdChanList_accepts_iff drv _ _ _ hargv hcnt.2
  unfold StatusesAgree
  by_cases hchanged : w.cfgs.listChanged (chanArgs chanList chanCnt)
  · rw [if_pos hchanged]
    rw [imp_iff_right hchanged] at hset
    constructor
    · intro h
      by_cases hfirst : drv.sysctrlFreqTypeMatch (chanList 0) = 0
      · refine Or.inl fun i hi => ?_
        apply h.setter hchanged (hset.mpr hfirst)
        rw [setChanList_stored hchanged hfirst,mem_chanArgs hcnt.2]
        exact ⟨i,hi,rfl⟩
      · refine Or.inr ⟨hfirst,?_⟩
        by_contra hnone
        push Not at hnone
        exact hfirst (hset.mp (h.accept.mpr (hat.mpr hnone)))
    · rintro (hall | ⟨hfirst,i,hi,herr⟩)
      · have hok : drv.sysctrlFreqTypeMatch (chanList 0) = 0 := hall 0 hcnt.1
        have haccepts : atcmdChanListAccepts drv argv chanCnt.toNat :=
          hat.mpr fun i hi => by rw [hall i hi]; decide
        have hargs : ∀ chan ∈ chanArgs chanList chanCnt, drv.sysctrlFreqTypeMatch chan = 0 := by
          intro chan hchan
          obtain ⟨i,hi,rfl⟩ := (mem_chanArgs hcnt.2).mp hchan
          exact hall i hi
        refine ⟨iff_of_true (hset.mpr hok) haccepts,fun _ _ => ?_,fun _ _ => ?_⟩
        · rwa [setChanList_stored hchanged hok]
        · rwa [atcmdChanList_stored hargv hchanged haccepts]
      · have hno : ¬ atcmdChanListAccepts drv argv chanCnt.toNat := fun h => hat.mp h i hi herr
        have hret : ¬ (wificfgSetChanList drv w chanList chanCnt).2 = 0 := fun h => hfirst (hset.mp h)
        exact ⟨iff_of_false hret hno,fun _ h => absurd h hret,fun _ h => absurd h hno⟩
  · rw [if_neg hchanged,← hat]
    have hret : (wificfgSetChanList drv w chanList chanCnt).2 = 0 :=
      hset.mpr fun h => absurd h hchanged
    constructor
    · exact fun h => h.accept.mp hret
    · exact fun h => ⟨iff_of_true hret h,fun hc => absurd hc hchanged,fun hc => absurd hc hchanged⟩

theorem acceptAlike_iff_default : AcceptAlike zeroDriver booted (fun _ => 7640) 3
    (fun _ => bytes ['7','6','4','0']) := by
  refine (acceptAlike_iff zeroDriver booted (by decide) ⟨fun i _ => ?_,by decide⟩).mpr ?_
  · rfl
  · unfold StatusesAgree
    split
    · exact Or.inl fun i _ => rfl
    · exact fun i _ => show (0 : ℤ) ≠ RET_ERR by decide

/-- A module that knows 7640 only; it answers 1 for any other frequency. -/
def narrowDriver : Driver :=
  { zeroDriver with sysctrlFreqTypeMatch := fun freq => if freq = 7640 then 0 else 1 }

/-- With status 1 for every frequency the command accepts what the setter refuses;
with status 1 for the second alone both accept the list and store it. -/
theorem unmatched_frequency :
    ¬ AcceptAlike narrowDriver booted (fun _ => 9080) 2 (fun _ => bytes ['9','0','8','0'])
      ∧ ¬ AcceptAlike narrowDriver booted (fun i => if i = 0 then 7640 else 9080) 2
        (fun i => if i = 0 then bytes ['7','6','4','0'] else bytes ['9','0','8','0']) := by
  constructor
  · intro h
    have hset := h.accept.mpr ⟨by decide,by decide⟩
    exact absurd hset (by decide)
  · intro h
    have hstored := h.setter (by decide) rfl 9080 (by decide)
    exact absurd hstored (by decide)

end FmacSdk.Syscfg
