import FmacSdk.Foundation.Slots
import FmacSdk.Foundation.Transition
import FmacSdk.Project.WifiCfg

/-! # The list of paired stations

pair_stas keeps an address in each of its slots, and the zero address marks a
free one. A station stores its access point in slot 0, an access point searches
for a slot. No address stands twice as long as a station does not store one
that is already in a later slot, and the zero address passes for a paired one
while a slot is free.
-/
namespace FmacSdk.Syscfg
open Slots Transition

abbrev Mac := BitVec 48

def SysConfig.slot (c : SysConfig) (i : Fin SYS_STA_MAX) : Mac := c.pairStas[i]

def SysConfig.setSlot (c : SysConfig) (i : Fin SYS_STA_MAX) (mac : Mac) : SysConfig :=
  { c with pairStas := c.pairStas.set i mac }

@[simp] theorem slot_setSlot (c : SysConfig) (i : Fin SYS_STA_MAX) (mac : Mac) :
    (c.setSlot i mac).slot = Function.update c.slot i mac := by
  funext j
  simp only [SysConfig.slot,SysConfig.setSlot,Fin.getElem_fin,Vector.getElem_set,Function.update_apply,
    Fin.ext_iff,eq_comm]

def sysCheckPairsta (c : SysConfig) (mac : Mac) : ℤ :=
  if (List.finRange SYS_STA_MAX).any (fun i => c.slot i = mac) then 0 else 1

theorem sysCheckPairsta_eq_zero {c : SysConfig} {mac : Mac} :
    sysCheckPairsta c mac = 0 ↔ ∃ i, c.slot i = mac := by
  simp [sysCheckPairsta]

/-- `connected i` is what ieee80211_conf_get_stainfo answers for the station of
slot i; the loop that evicts stops at the first one that is not connected. -/
def sysSavePairsta (c : SysConfig) (mac : Mac) (del : Bool) (connected : Fin SYS_STA_MAX → Bool) :
    SysConfig :=
  if modeIsSta c.wifiMode then
    if del then if c.slot ⟨0,by decide⟩ = mac then c.setSlot ⟨0,by decide⟩ 0 else c
    else c.setSlot ⟨0,by decide⟩ mac
  else if del = false ∧ sysCheckPairsta c mac = 0 then c
  else if del then
    match firstSlot fun i => c.slot i = mac with
    | some i => c.setSlot i 0
    | none => c
  else
    match firstSlot fun i => c.slot i = 0 with
    | some i => c.setSlot i mac
    | none =>
      match firstSlot fun i => !connected i with
      | some i => c.setSlot i mac
      | none => c

/-- The events of IEEE80211_EVENT_* that the handler reacts to, with the address
behind param1. -/
inductive PairEvent
  | pairSuccess (mac : Mac) (connected : Fin SYS_STA_MAX → Bool)
  | unpairSuccess (mac : Mac)
  | preAuth (mac : Mac)
  | preAssoc (mac : Mac)

def sysIeee80211EventPairsta (c : SysConfig) : PairEvent → SysConfig × ℤ
  | .pairSuccess mac connected => (sysSavePairsta c mac false connected,RET_OK)
  | .unpairSuccess mac => (sysSavePairsta c mac true fun _ => false,RET_OK)
  | .preAuth mac => (c,if c.pairConnOnly ≠ 0 then sysCheckPairsta c mac else RET_OK)
  | .preAssoc mac => (c,if c.pairConnOnly ≠ 0 then sysCheckPairsta c mac else RET_OK)

section Save
variable {c : SysConfig} {mac : Mac}

theorem save_wifiMode (del : Bool) (connected : Fin SYS_STA_MAX → Bool) :
    (sysSavePairsta c mac del connected).wifiMode = c.wifiMode := by
  unfold sysSavePairsta
  repeat' split
  all_goals rfl

theorem save_pairConnOnly (del : Bool) (connected : Fin SYS_STA_MAX → Bool) :
    (sysSavePairsta c mac del connected).pairConnOnly = c.pairConnOnly := by
  unfold sysSavePairsta
  repeat' split
  all_goals rfl

theorem unpair_slot (hmode : ¬ modeIsSta c.wifiMode) (connected : Fin SYS_STA_MAX → Bool) :
    (sysSavePairsta c mac true connected).slot = eraseFirst 0 c.slot mac := by
  unfold sysSavePairsta eraseFirst
  rw [if_neg hmode,if_neg (by simp)]
  simp only [if_true]
  split
  · rename_i hfind
    rw [slot_setSlot,hfind]
  · rename_i hfind
    rw [hfind]

theorem unpair_distinct (h : Distinct 0 c.slot) (connected : Fin SYS_STA_MAX → Bool) :
    Distinct 0 (sysSavePairsta c mac true connected).slot := by
  by_cases hmode : modeIsSta c.wifiMode
  · unfold sysSavePairsta
    rw [if_pos hmode,if_pos rfl]
    split
    · simpa using h.update_free _
    · exact h
  · rw [unpair_slot hmode]
    exact eraseFirst_distinct h mac

/-- Erasing leaves no slot with the address behind. -/
theorem unpair_gone (h : Distinct 0 c.slot) (hmac : mac ≠ 0) (hmode : ¬ modeIsSta c.wifiMode)
    (connected : Fin SYS_STA_MAX → Bool) (i : Fin SYS_STA_MAX) :
    (sysSavePairsta c mac true connected).slot i ≠ mac := by
  intro hi
  have hmem : mac ∈ stored 0 (eraseFirst 0 c.slot mac) := ⟨hmac,i,by rw [← unpair_slot hmode,hi]⟩
  rw [stored_eraseFirst h] at hmem
  exact hmem.2 rfl

/-- A station overwrites slot 0 without a look at the others. -/
theorem pair_distinct_iff (h : Distinct 0 c.slot) (hmac : mac ≠ 0)
    (connected : Fin SYS_STA_MAX → Bool) :
    Distinct 0 (sysSavePairsta c mac false connected).slot ↔
      (modeIsSta c.wifiMode → ∀ i ≠ ⟨0,by decide⟩, c.slot i ≠ mac) := by
  by_cases hmode : modeIsSta c.wifiMode
  · unfold sysSavePairsta
    rw [if_pos hmode,if_neg Bool.false_ne_true,slot_setSlot,distinct_update_iff h,or_iff_right hmac]
    exact (imp_iff_right hmode).symm
  · refine iff_of_true ?_ fun hsta => absurd hsta hmode
    unfold sysSavePairsta
    rw [if_neg hmode]
    split
    · exact h
    · rename_i hcheck
      have hnew (j : Fin SYS_STA_MAX) : c.slot j ≠ mac := fun hj =>
        hcheck ⟨rfl,sysCheckPairsta_eq_zero.mpr ⟨j,hj⟩⟩
      rw [if_neg Bool.false_ne_true]
      split
      · simpa using h.update_new hnew _
      · split
        · simpa using h.update_new hnew _
        · exact h

end Save

/-- What happens to the list: an event with an address other than zero, or a
change of the mode. -/
inductive PairLabel
  | pairSuccess (mac : Mac) (connected : Fin SYS_STA_MAX → Bool)
  | unpairSuccess (mac : Mac)
  | wifiMode (mode : BitVec 8)

def pairStep (c : SysConfig) : PairLabel → Option SysConfig
  | .pairSuccess mac connected =>
    if mac = 0 then none else some (sysIeee80211EventPairsta c (.pairSuccess mac connected)).1
  | .unpairSuccess mac =>
    if mac = 0 then none else some (sysIeee80211EventPairsta c (.unpairSuccess mac)).1
  | .wifiMode mode => some { c with wifiMode := mode }

/-- A station does not pair with an address that is in a later slot. -/
def PairLabel.fresh (c : SysConfig) : PairLabel → Bool
  | .pairSuccess mac _ => modeIsSta c.wifiMode → ∀ i ≠ ⟨0,by decide⟩, c.slot i ≠ mac
  | _ => true

/-- No address stands twice, and in the mode of an access point an unpair event
leaves its address in no slot. -/
structure PairListOK (c : SysConfig) : Prop where
  distinct : Distinct 0 c.slot
  unpair : ¬ modeIsSta c.wifiMode → ∀ mac ≠ 0, ∀ i,
    (sysIeee80211EventPairsta c (.unpairSuccess mac)).1.slot i ≠ mac

theorem pairStep_distinct_iff {c c' : SysConfig} {l : PairLabel} (h : Distinct 0 c.slot)
    (hstep : pairStep c l = some c') : Distinct 0 c'.slot ↔ l.fresh c = true := by
  cases l with
  | pairSuccess mac connected =>
    simp only [pairStep] at hstep
    split at hstep
    · cases hstep
    · rename_i hmac
      obtain rfl := Option.some.inj hstep
      exact (pair_distinct_iff h hmac connected).trans decide_eq_true_iff.symm
  | unpairSuccess mac =>
    simp only [pairStep] at hstep
    split at hstep
    · cases hstep
    · obtain rfl := Option.some.inj hstep
      exact iff_of_true (unpair_distinct h fun _ => false) rfl
  | wifiMode mode =>
    obtain rfl := Option.some.inj hstep
    exact iff_of_true h rfl

/-- From an empty list on, the list is as it should be along exactly the runs in
which no station pairs with an address of a later slot. -/
theorem pairListOK_along_iff {c c' : SysConfig} {ls : List PairLabel} (hempty : ∀ i, c.slot i = 0)
    (hrun : Runs pairStep c ls c') :
    (∀ ms u, ms <+: ls → Runs pairStep c ms u → PairListOK u) ↔
      Runs (guarded (fun u (l : PairLabel) => l.fresh u = true) pairStep) c ls c' := by
  have hinit : Distinct 0 c.slot := fun i _ _ hi => absurd (hempty i) hi
  refine Runs.guarded_iff (I := fun u : SysConfig => Distinct 0 u.slot) ?_ ?_ ?_ hinit hrun
  · intro u hu
    exact ⟨hu,fun hmode mac hmac i => unpair_gone hu hmac hmode (fun _ => false) i⟩
  · intro u l v hu hfresh hv
    exact (pairStep_distinct_iff hu hv).mpr hfresh
  · intro u l v hu hv hok
    exact (pairStep_distinct_iff hu hv).mp hok.distinct

theorem pairListOK_along_iff_ap : ∃ c', Runs pairStep { defaults with wifiMode := WIFI_MODE_AP }
    [.pairSuccess 1 fun _ => false,.unpairSuccess 1] c' ∧ PairListOK c' := by
  obtain ⟨c',hc'⟩ : ∃ c', exec (guarded (fun u (l : PairLabel) => l.fresh u = true) pairStep)
      { defaults with wifiMode := WIFI_MODE_AP } [.pairSuccess 1 fun _ => false,.unpairSuccess 1]
      = some c' := ⟨_,rfl⟩
  have hguarded := Runs.of_exec hc'
  have hrun := hguarded.of_guarded
  exact ⟨c',hrun,(pairListOK_along_iff (by decide) hrun).mpr hguarded _ c' (List.prefix_refl _) hrun⟩

/-- An access point that becomes a station and pairs with an address of slot 1:
back as an access point it frees slot 0 only. -/
theorem paired_twice : ∃ u v,
    exec pairStep { defaults with wifiMode := WIFI_MODE_AP } [.pairSuccess 1 fun _ => false,
      .pairSuccess 2 fun _ => false,.wifiMode WIFI_MODE_STA,.pairSuccess 2 fun _ => false] = some u ∧
    ¬ Distinct 0 u.slot ∧
    exec pairStep u [.wifiMode WIFI_MODE_AP,.unpairSuccess 2] = some v ∧ ∃ i, v.slot i = 2 := by
  refine ⟨_,_,rfl,fun h => ?_,rfl,⟨1,by decide⟩,by decide⟩
  have hsame := h ⟨0,by decide⟩ ⟨1,by decide⟩ (by decide) (by decide)
  exact absurd hsame (by decide)

end FmacSdk.Syscfg
