import FmacSdk.Foundation.PreparedLog
import FmacSdk.Foundation.Transition
import FmacSdk.Project.IfaceIndex

/-! # Switching the Wi-Fi mode

wificfg_set_mode stores the mode and stops every interface before it looks at
the mode. The interfaces that run are read off from the starts and stops among
the calls, and an interface has to be flushed before it is started.
-/
namespace FmacSdk.Syscfg
open Writes PreparedLog Transition

/-- Whether a call starts or stops an interface. -/
def Call.power? : Call → Option (BitVec 8 × Bool)
  | .iface i .ifaceStart _ => some (i,true)
  | .iface i .ifaceStop _ => some (i,false)
  | _ => none

/-- The interface that a call starts. -/
def Call.started? : Call → Option (BitVec 8)
  | .iface i .ifaceStart _ => some i
  | _ => none

/-- An interface runs if it was started and not stopped since. -/
def World.Running (w : World) (i : BitVec 8) : Prop :=
  lastWrite (w.calls.filterMap Call.power?) i = some true

/-- The interfaces of a mode. -/
def modeInterfaces (mode : BitVec 8) : List (BitVec 8) :=
  if mode = WIFI_MODE_AP_STA then [WIFI_MODE_AP,WIFI_MODE_STA]
  else if mode = WIFI_MODE_WNBAP_WNBSTA then [WIFI_MODE_WNBAP,WIFI_MODE_WNBSTA]
  else if mode = WIFI_MODE_AP_WNBSTA then [WIFI_MODE_AP,WIFI_MODE_WNBSTA]
  else if mode = WIFI_MODE_WNBAP_STA then [WIFI_MODE_WNBAP,WIFI_MODE_STA]
  else if mode = WIFI_MODE_AP_WNBAP then [WIFI_MODE_AP,WIFI_MODE_WNBAP]
  else [mode]

/-- What a refused switch leaves as it was. -/
structure Untouched (w w' : World) : Prop where
  wifiMode : w'.cfgs.wifiMode = w.cfgs.wifiMode
  running : ∀ i ∈ interfaces, w'.Running i ↔ w.Running i
  saved : w'.saved = w.saved

/-- What a switch to another mode ends with. -/
structure Switched (mode : BitVec 8) (w w' : World) : Prop where
  wifiMode : w'.cfgs.wifiMode = mode
  flushed : ∃ cs, w'.calls = w.calls ++ cs ∧
    Prepared Call.started? (flushCalls w'.cfgs w'.statusChannel) cs
  running : ∀ i ∈ interfaces, w'.Running i → i ∈ modeInterfaces mode
  saved : w.cfgs.autoSave ≠ 0 → w'.saved = w.saved ++ [w'.cfgs]

/-- One call is all or nothing. -/
def AllOrNothing (w : World) (mode : BitVec 8) : Prop :=
  (¬ ValidMode mode → Untouched w (wificfgSetMode w mode)) ∧
    (ValidMode mode → mode ≠ w.cfgs.wifiMode → Switched mode w (wificfgSetMode w mode))

variable {w : World} {mode : BitVec 8}

theorem confs_power (ifidx : BitVec 8) (ps : List (ConfParam × List ℕ)) :
    ∀ c ∈ confs ifidx ps, c.power? = none := by
  intro c hc
  obtain ⟨p,-,rfl⟩ := List.mem_map.mp hc
  rfl

/-- A flush starts and stops nothing. -/
theorem flushCalls_power (c : SysConfig) (statusChannel ifidx : BitVec 8) :
    ∀ call ∈ flushCalls c statusChannel ifidx, call.power? = none := by
  intro call hcall
  simp only [flushCalls,List.mem_append] at hcall
  rcases hcall with (((hc | hc) | hc) | hc) | hc
  · exact confs_power _ _ call hc
  · split at hc
    · obtain rfl := List.mem_singleton.mp hc
      rfl
    · simp at hc
  · exact confs_power _ _ call hc
  · obtain ⟨p,-,rfl⟩ := List.mem_map.mp hc
    rfl
  · obtain rfl := List.mem_singleton.mp hc
    rfl

theorem started_of_power {c : Call} (h : c.power? = none) : c.started? = none := by
  unfold Call.power? at h
  unfold Call.started?
  split <;> simp_all

theorem power_nil {cs : List Call} (h : ∀ c ∈ cs, c.power? = none) :
    cs.filterMap Call.power? = [] := List.filterMap_eq_nil_iff.mpr h

/-- The starts of a mode in their order. -/
def startList (mode : BitVec 8) : List (BitVec 8 × Bool) :=
  if modeIsSta mode ∨ modeIsAp mode then [(mode,true)]
  else if mode = WIFI_MODE_AP_STA ∨ mode = WIFI_MODE_WNBAP_WNBSTA ∨ mode = WIFI_MODE_AP_WNBSTA
      ∨ mode = WIFI_MODE_WNBAP_STA then [(ifidxOf mode false,true)]
  else if mode = WIFI_MODE_AP_WNBAP then [(WIFI_MODE_AP,true),(WIFI_MODE_WNBAP,true)]
  else []

def stopList : List (BitVec 8 × Bool) :=
  [(WIFI_MODE_AP,false),(WIFI_MODE_STA,false),(WIFI_MODE_WNBAP,false),(WIFI_MODE_WNBSTA,false)]

theorem startCalls_power (c : SysConfig) (statusChannel : BitVec 8) :
    (startCalls c statusChannel).filterMap Call.power? = startList c.wifiMode := by
  have hflush (i : BitVec 8) := power_nil (flushCalls_power c statusChannel i)
  unfold startCalls startList
  dsimp only
  split
  · rw [List.filterMap_append,hflush]
    rfl
  · split
    · rw [List.filterMap_append,List.filterMap_append,hflush,hflush]
      rfl
    · split
      · rw [List.filterMap_append,List.filterMap_append,List.filterMap_append,hflush,hflush]
        rfl
      · rfl

/-- Only interfaces of the mode are started. -/
theorem startList_mem {p : BitVec 8 × Bool} (h : p ∈ startList mode) : p.1 ∈ modeInterfaces mode := by
  unfold startList at h
  split at h
  · next hsingle =>
    obtain rfl := List.mem_singleton.mp h
    rcases hsingle with (rfl | rfl) | rfl | rfl <;> decide
  · split at h
    · next hpair =>
      obtain rfl := List.mem_singleton.mp h
      rcases hpair with rfl | rfl | rfl | rfl <;> decide
    · split at h
      · next hdual =>
        subst hdual
        rcases List.mem_pair.mp h with rfl | rfl <;> decide
      · simp at h

/-- Every interface is stopped first. -/
theorem lastWrite_stopList {i : BitVec 8} (hi : i ∈ interfaces) :
    lastWrite stopList i = some false := by
  simp only [interfaces,List.mem_cons,List.not_mem_nil,or_false] at hi
  rcases hi with rfl | rfl | rfl | rfl <;> rfl

theorem running_setMode (hmode : w.cfgs.wifiMode ≠ mode) {i : BitVec 8} (hi : i ∈ interfaces)
    (h : (wificfgSetMode w mode).Running i) : i ∈ modeInterfaces mode := by
  have hstops : stopAll.filterMap Call.power? = stopList := rfl
  rw [World.Running,setMode_calls mode hmode,List.filterMap_append,List.filterMap_append,
    startCalls_power,hstops,lastWrite_append,lastWrite_append,lastWrite_stopList hi,Option.or_assoc,
    Option.some_or,Option.or_eq_some_iff] at h
  rcases h with h | ⟨-,h⟩
  · exact startList_mem (lastWrite_mem h)
  · simp at h

/-- Every start comes behind the flush of its interface. -/
theorem startCalls_prepared (c : SysConfig) (statusChannel : BitVec 8) :
    Prepared Call.started? (flushCalls c statusChannel) (stopAll ++ startCalls c statusChannel) := by
  have hflush {cs : List Call} (h : Prepared Call.started? (flushCalls c statusChannel) cs)
      (i : BitVec 8) : Prepared Call.started? (flushCalls c statusChannel)
        (cs ++ flushCalls c statusChannel i) :=
    h.append_quiet fun a ha => started_of_power (flushCalls_power c statusChannel i a ha)
  have hstart {cs : List Call} (h : Prepared Call.started? (flushCalls c statusChannel) cs)
      (i : BitVec 8) : Prepared Call.started? (flushCalls c statusChannel)
        (cs ++ (flushCalls c statusChannel i ++ [.iface i .ifaceStart []])) := by
    rw [← List.append_assoc]
    refine (hflush h i).append_event fun k hk => ?_
    obtain rfl : i = k := by simpa [Call.started?] using hk
    exact List.suffix_append _ _ |>.isInfix
  have hstop : Prepared Call.started? (flushCalls c statusChannel) stopAll :=
    Prepared.nil.append_quiet (by decide)
  unfold startCalls
  dsimp only
  split
  · exact hstart hstop _
  · split
    · rw [← List.append_assoc]
      exact hstart (hflush hstop _) _
    · split
      · rw [← List.append_assoc]
        exact hstart (hstart hstop _) _
      · simpa using hstop

theorem setMode_cfgs (hmode : w.cfgs.wifiMode ≠ mode) :
    (wificfgSetMode w mode).cfgs = { w.cfgs with wifiMode := mode } := by
  simp only [wificfgSetMode,if_neg hmode,wificfgFlush,apply_ite World.cfgs,wificfgSave_cfgs,
    World.call_cfgs,World.store_cfgs,ite_self]

theorem setMode_statusChannel (hmode : w.cfgs.wifiMode ≠ mode) :
    (wificfgSetMode w mode).statusChannel = w.statusChannel := by
  simp only [wificfgSetMode,if_neg hmode,wificfgFlush,apply_ite World.statusChannel,
    wificfgSave_statusChannel,World.call_statusChannel,World.store_statusChannel,ite_self]

/-- A mode that is none of the nine falls through the switch. -/
theorem validMode_cases (hvalid : ValidMode mode) : (modeIsSta mode ∨ modeIsAp mode) ∨
    (mode = WIFI_MODE_AP_STA ∨ mode = WIFI_MODE_WNBAP_WNBSTA ∨ mode = WIFI_MODE_AP_WNBSTA
      ∨ mode = WIFI_MODE_WNBAP_STA) ∨ mode = WIFI_MODE_AP_WNBAP := by
  revert mode
  decide

theorem setMode_saved (hvalid : ValidMode mode) (hmode : w.cfgs.wifiMode ≠ mode)
    (hsave : w.cfgs.autoSave ≠ 0) :
    (wificfgSetMode w mode).saved = w.saved ++ [{ w.cfgs with wifiMode := mode }] := by
  have hsaved (u : World) (hu : u.cfgs.autoSave ≠ 0) : (wificfgSave u 0).saved = u.saved ++ [u.cfgs] := by
    rw [wificfgSave_saved,if_pos hu]
  unfold wificfgSetMode
  dsimp only
  rw [if_neg hmode]
  split
  · exact hsaved _ hsave
  · next hsingle =>
    split
    · exact hsaved _ hsave
    · next hpair =>
      rw [if_pos (((validMode_cases hvalid).resolve_left hsingle).resolve_left hpair)]
      exact hsaved _ hsave

theorem setMode_switched (hvalid : ValidMode mode) (hmode : w.cfgs.wifiMode ≠ mode) :
    Switched mode w (wificfgSetMode w mode) := by
  refine ⟨setMode_wifiMode mode,⟨_,setMode_calls mode hmode,?_⟩,
    fun i hi => running_setMode hmode hi,fun hsave => ?_⟩
  · rw [setMode_cfgs hmode,setMode_statusChannel hmode]
    exact startCalls_prepared _ _
  · rw [setMode_saved hvalid hmode hsave,setMode_cfgs hmode]

theorem setMode_same (hmode : w.cfgs.wifiMode = mode) : wificfgSetMode w mode = w := if_pos hmode

/-- A call is all or nothing exactly if its mode is one of the nine, or the one
that is stored already. -/
theorem allOrNothing_iff : AllOrNothing w mode ↔ ValidMode mode ∨ w.cfgs.wifiMode = mode := by
  constructor
  · rintro ⟨hrefused,-⟩
    by_cases hvalid : ValidMode mode
    · exact Or.inl hvalid
    · right
      rw [← (hrefused hvalid).wifiMode]
      exact setMode_wifiMode mode
  · intro h
    constructor
    · intro hinvalid
      rw [setMode_same (h.resolve_left hinvalid)]
      exact ⟨rfl,fun i hi => Iff.rfl,rfl⟩
    · intro hvalid hmode
      exact setMode_switched hvalid hmode.symm

def modeStep (w : World) (mode : BitVec 8) : Option World := some (wificfgSetMode w mode)

/-- Along a sequence of calls every one is all or nothing exactly if each asks
for a mode that the switch knows or for the mode that is stored. -/
theorem modes_along_iff {w w' : World} {modes : List (BitVec 8)} (h : Runs modeStep w modes w') :
    (∀ ms mode u, ms ++ [mode] <+: modes → Runs modeStep w ms u → AllOrNothing u mode) ↔
      Runs (guarded (fun (u : World) mode => ValidMode mode ∨ u.cfgs.wifiMode = mode) modeStep)
        w modes w' :=
  Runs.guarded_iff_steps (I := fun _ => True) (fun _ _ _ _ _ _ => trivial)
    (fun _ _ _ => allOrNothing_iff) trivial h

theorem modes_along_iff_booted :
    AllOrNothing (wificfgSetMode booted WIFI_MODE_AP) WIFI_MODE_AP_WNBAP := by
  obtain ⟨w',hw⟩ : ∃ w', exec (guarded (fun (u : World) mode =>
      ValidMode mode ∨ u.cfgs.wifiMode = mode) modeStep) booted
      [WIFI_MODE_AP,WIFI_MODE_AP_WNBAP] = some w' := ⟨_,rfl⟩
  have hrun := Runs.of_exec hw
  exact (modes_along_iff hrun.of_guarded).mpr hrun [WIFI_MODE_AP] _ _ (List.prefix_refl _)
    (Runs.single rfl)

/-- A mode beyond the enumeration is stored, and the interface that ran is stopped. -/
theorem unknown_mode : (wificfgSetMode booted WIFI_MODE_AP).Running WIFI_MODE_AP ∧
    (wificfgSetMode (wificfgSetMode booted WIFI_MODE_AP) 10).cfgs.wifiMode = 10 ∧
    ¬ (wificfgSetMode (wificfgSetMode booted WIFI_MODE_AP) 10).Running WIFI_MODE_AP ∧
    ¬ AllOrNothing (wificfgSetMode booted WIFI_MODE_AP) 10 := by
  refine ⟨rfl,setMode_wifiMode 10,fun h => ?_,fun h => ?_⟩
  · have hstopped : lastWrite ((wificfgSetMode (wificfgSetMode booted WIFI_MODE_AP) 10).calls.filterMap
        Call.power?) WIFI_MODE_AP = some false := rfl
    exact absurd (hstopped.symm.trans h) (by decide)
  · exact absurd (allOrNothing_iff.mp h) (by decide)

end FmacSdk.Syscfg
