import FmacSdk.Project.IfaceIndex
import FmacSdk.Project.PairSta
import Mathlib.Data.List.Perm.Basic

/-! # Setting the list of paired stations

wificfg_set_paired_stas replaces the list and asks the stack to unpair what it
dropped. The answers come later and name an address only, so an answer to an
earlier call frees the slot of a later one that stored the address again.
-/
namespace FmacSdk.Syscfg
open Slots Transition

variable {w : World} {macList : ℕ → BitVec 8} {cnt : BitVec 8}

theorem setPairedStas_slot (i : Fin SYS_STA_MAX) :
    (wificfgSetPairedStas w macList cnt).1.cfgs.slot i
      = if i.val < cnt.toNat then macAt macList i else 0 := by
  simp [SysConfig.slot,wificfgSetPairedStas]

theorem setPairedStas_pairConnOnly : (wificfgSetPairedStas w macList cnt).1.cfgs.pairConnOnly = 1 := by
  simp [wificfgSetPairedStas]

theorem setPairedStas_wifiMode :
    (wificfgSetPairedStas w macList cnt).1.cfgs.wifiMode = w.cfgs.wifiMode := by
  simp [wificfgSetPairedStas]

/-- The addresses of an argument list. -/
def listed (macList : ℕ → BitVec 8) (cnt : BitVec 8) : Set Mac :=
  {mac | ∃ j < cnt.toNat, macAt macList j = mac}

/-- At most SYS_STA_MAX addresses, none of them zero. -/
abbrev ValidList (macList : ℕ → BitVec 8) (cnt : BitVec 8) : Prop :=
  cnt.toNat ≤ SYS_STA_MAX ∧ ∀ j < cnt.toNat, macAt macList j ≠ 0

/-- The list is what is stored afterwards. -/
theorem stored_setPairedStas (hlist : ValidList macList cnt) :
    stored 0 (wificfgSetPairedStas w macList cnt).1.cfgs.slot = listed macList cnt := by
  ext mac
  constructor
  · rintro ⟨hmac,i,hi⟩
    rw [setPairedStas_slot] at hi
    split at hi
    · rename_i hlt
      exact ⟨i,hlt,hi⟩
    · exact absurd hi.symm hmac
  · rintro ⟨j,hj,rfl⟩
    refine ⟨hlist.2 j hj,⟨j,hj.trans_le hlist.1⟩,?_⟩
    rw [setPairedStas_slot]
    exact if_pos hj

/-! ## Admission -/

inductive AdmitLabel
  | pairSuccess (mac : Mac) (connected : Fin SYS_STA_MAX → Bool)
  | unpairSuccess (mac : Mac)
  | setPairedStas (macList : ℕ → BitVec 8) (cnt : BitVec 8)

def admitStep (w : World) : AdmitLabel → Option World
  | .pairSuccess mac connected =>
    some (w.store (sysIeee80211EventPairsta w.cfgs (.pairSuccess mac connected)).1)
  | .unpairSuccess mac => some (w.store (sysIeee80211EventPairsta w.cfgs (.unpairSuccess mac)).1)
  | .setPairedStas macList cnt =>
    if ValidList macList cnt then some (wificfgSetPairedStas w macList cnt).1 else none

theorem admitStep_pairConnOnly {w' : World} {l : AdmitLabel} (h : w.cfgs.pairConnOnly ≠ 0)
    (hstep : admitStep w l = some w') : w'.cfgs.pairConnOnly ≠ 0 := by
  cases l with
  | pairSuccess mac connected =>
    obtain rfl := Option.some.inj hstep
    exact (save_pairConnOnly false connected).trans_ne h
  | unpairSuccess mac =>
    obtain rfl := Option.some.inj hstep
    exact (save_pairConnOnly true fun _ => false).trans_ne h
  | setPairedStas macList cnt =>
    simp only [admitStep] at hstep
    split at hstep
    · obtain rfl := Option.some.inj hstep
      rw [setPairedStas_pairConnOnly]
      decide
    · cases hstep

/-- In a run with pair_conn_only set, exactly the stored addresses are admitted,
unless the address is zero and a slot is free. -/
theorem admitted_iff_stored {w w' : World} {ls : List AdmitLabel} (hpair : w.cfgs.pairConnOnly ≠ 0)
    (hrun : Runs admitStep w ls w') (mac : Mac) :
    (∀ e ∈ [PairEvent.preAuth mac,.preAssoc mac],
      (sysIeee80211EventPairsta w'.cfgs e).2 = 0 ↔ mac ∈ stored 0 w'.cfgs.slot) ↔
      (mac ≠ 0 ∨ ∀ i, w'.cfgs.slot i ≠ 0) := by
  have honly : w'.cfgs.pairConnOnly ≠ 0 :=
    hrun.invariant (I := fun u => u.cfgs.pairConnOnly ≠ 0)
      (fun _ _ _ h hstep => admitStep_pairConnOnly h hstep) hpair
  have hanswer : ∀ e ∈ [PairEvent.preAuth mac,.preAssoc mac],
      (sysIeee80211EventPairsta w'.cfgs e).2 = sysCheckPairsta w'.cfgs mac := by
    intro e he
    have hif : (if w'.cfgs.pairConnOnly ≠ 0 then sysCheckPairsta w'.cfgs mac else RET_OK)
        = sysCheckPairsta w'.cfgs mac := if_pos honly
    rcases List.mem_pair.mp he with rfl | rfl
    · exact hif
    · exact hif
  constructor
  · intro h
    by_cases hmac : mac = 0
    · refine Or.inr fun i hi => ?_
      have hzero := h (.preAuth mac) (by simp)
      rw [hanswer _ (by simp),sysCheckPairsta_eq_zero] at hzero
      exact (hzero.mp ⟨i,hi.trans hmac.symm⟩).1 hmac
    · exact Or.inl hmac
  · intro h e he
    rw [hanswer e he,sysCheckPairsta_eq_zero]
    constructor
    · rintro ⟨i,hi⟩
      refine ⟨?_,i,hi⟩
      rintro rfl
      exact h.elim (absurd rfl) fun hfull => hfull i hi
    · exact fun hmem => hmem.2

/-- A station with one address in its list, and pair_conn_only set. -/
def pairOnly : World := booted.store { booted.cfgs with pairConnOnly := 1 }

theorem admitted_iff_stored_one : ∃ u, exec admitStep pairOnly [.setPairedStas (fun _ => 2) 1] = some u ∧
    ∀ e ∈ [PairEvent.preAuth 5,.preAssoc 5],
      (sysIeee80211EventPairsta u.cfgs e).2 = 0 ↔ 5 ∈ stored 0 u.cfgs.slot := by
  obtain ⟨u,hu⟩ : ∃ u, exec admitStep pairOnly [.setPairedStas (fun _ => 2) 1] = some u := ⟨_,rfl⟩
  have hpair : pairOnly.cfgs.pairConnOnly ≠ 0 := by decide
  exact ⟨u,hu,(admitted_iff_stored hpair (Runs.of_exec hu) 5).mpr (Or.inl (by decide))⟩

/-- With one station in the list the zero address is admitted beside it. -/
theorem zero_admitted : ∃ u, exec admitStep pairOnly [.setPairedStas (fun _ => 2) 1] = some u ∧
    u.cfgs.pairConnOnly = 1 ∧ (sysIeee80211EventPairsta u.cfgs (.preAuth 0)).2 = 0 ∧
    (0 : Mac) ∉ stored 0 u.cfgs.slot :=
  ⟨_,rfl,rfl,by decide,fun h => h.1 rfl⟩

/-! ## Late answers -/

/-- The address that a call of ieee80211_unpair names. -/
def Call.unpaired? : Call → Option Mac
  | .iface _ .unpair [mac] => some (BitVec.ofNat 48 mac)
  | _ => none

/-- The configuration and the unpair requests that are not yet answered. -/
structure PairSystem where
  world : World
  pending : List Mac

inductive AckLabel
  | setPairedStas (macList : ℕ → BitVec 8) (cnt : BitVec 8)
  | unpairSuccess (k : ℕ)

/-- No address is listed twice. -/
abbrev DistinctList (macList : ℕ → BitVec 8) (cnt : BitVec 8) : Prop :=
  ValidList macList cnt ∧
    ∀ j < cnt.toNat, ∀ k < cnt.toNat, macAt macList j = macAt macList k → j = k

/-- A call leaves its unpair requests behind, and any of them may be answered next. -/
def ackStep (s : PairSystem) : AckLabel → Option PairSystem
  | .setPairedStas macList cnt =>
    if DistinctList macList cnt then
      let w := (wificfgSetPairedStas s.world macList cnt).1
      some ⟨w,s.pending ++ (w.calls.drop s.world.calls.length).filterMap Call.unpaired?⟩
    else none
  | .unpairSuccess k =>
    match s.pending[k]? with
    | some mac => some ⟨s.world.store (sysIeee80211EventPairsta s.world.cfgs (.unpairSuccess mac)).1,
        s.pending.eraseIdx k⟩
    | none => none

def AckLabel.isAck : AckLabel → Bool
  | .setPairedStas _ _ => false
  | .unpairSuccess _ => true

/-- What a call drops: the stored addresses that its list does not have. -/
def dropped (c : SysConfig) (macList : ℕ → BitVec 8) (cnt : BitVec 8) : List Mac :=
  c.pairStas.toList.filter fun mac => mac ≠ 0 ∧ ∀ j < cnt.toNat, macAt macList j ≠ mac

theorem setPairedStas_calls (hmode : w.cfgs.wifiMode ∈ interfaces) (hcnt : cnt.toNat ≤ SYS_STA_MAX) :
    (wificfgSetPairedStas w macList cnt).1.calls = w.calls ++
      ((dropped w.cfgs macList cnt).map (fun mac => .iface w.cfgs.wifiMode .unpair [mac.toNat])
        ++ restart w.cfgs.wifiMode) := by
  have hdropped : (w.cfgs.pairStas.toList.filter fun sta => sta ≠ 0 ∧
      ((List.range (min cnt.toNat SYS_STA_MAX)).any fun j => sta = macAt macList j) = false)
      = dropped w.cfgs macList cnt := by
    apply List.filter_congr
    intro sta _
    refine decide_eq_decide.mpr (and_congr_right fun _ => ?_)
    rw [List.any_eq_false,Nat.min_eq_left hcnt]
    simp only [List.mem_range,decide_eq_true_eq]
    exact forall₂_congr fun j _ => ne_comm
  unfold wificfgSetPairedStas
  simp only [update_calls,if_true,eachAp_eq,ifidxOf_single hmode,hdropped]
  rw [← List.map_eq_flatMap]

theorem unpaired_requests (mode : BitVec 8) (macs : List Mac) :
    (macs.map (fun mac => Call.iface mode .unpair [mac.toNat]) ++ restart mode).filterMap Call.unpaired?
      = macs := by
  rw [List.filterMap_append,List.filterMap_map]
  have hrestart : (restart mode).filterMap Call.unpaired? = [] := rfl
  have hmac : Call.unpaired? ∘ (fun mac : Mac => Call.iface mode .unpair [mac.toNat]) = some := by
    funext mac
    simp [Call.unpaired?]
  rw [hrestart,hmac,List.filterMap_some,List.append_nil]

theorem setPairedStas_distinct (hlist : DistinctList macList cnt) :
    Distinct 0 (wificfgSetPairedStas w macList cnt).1.cfgs.slot := by
  intro i k hik hi
  simp only [setPairedStas_slot] at hik hi
  split at hik
  · rename_i hlt
    split at hik
    · rename_i hlt'
      exact Fin.ext (hlist.2 i hlt k hlt' hik)
    · rw [if_pos hlt] at hi
      exact absurd hik hi
  · rename_i hge
    rw [if_neg hge] at hi
    exact absurd rfl hi

theorem ackStep_set {s s' : PairSystem} (hmode : s.world.cfgs.wifiMode ∈ interfaces)
    (hstep : ackStep s (.setPairedStas macList cnt) = some s') :
    DistinctList macList cnt ∧ s'.world = (wificfgSetPairedStas s.world macList cnt).1 ∧
      s'.pending = s.pending ++ dropped s.world.cfgs macList cnt := by
  simp only [ackStep] at hstep
  split at hstep
  · rename_i hlist
    obtain rfl := Option.some.inj hstep
    refine ⟨hlist,rfl,?_⟩
    rw [setPairedStas_calls hmode hlist.1.1,List.drop_left,unpaired_requests]
  · cases hstep

theorem modeIsAp_single {mode : BitVec 8} (h : modeIsAp mode) : mode ∈ interfaces ∧ ¬ modeIsSta mode := by
  rcases h with rfl | rfl <;> decide

/-- The calls of one step on an access point. -/
theorem ackStep_calls {s s' : PairSystem} (hmode : modeIsAp s.world.cfgs.wifiMode)
    (hstep : ackStep s (.setPairedStas macList cnt) = some s') :
    s'.world.calls = s.world.calls ++
      ((dropped s.world.cfgs macList cnt).map (fun mac =>
        .iface s.world.cfgs.wifiMode .unpair [mac.toNat]) ++ restart s.world.cfgs.wifiMode) := by
  have hinterface := (modeIsAp_single hmode).1
  obtain ⟨hlist,hworld,-⟩ := ackStep_set hinterface hstep
  rw [hworld,setPairedStas_calls hinterface hlist.1.1]

theorem listed_not_dropped {c : SysConfig} {mac : Mac} (h : mac ∈ listed macList cnt) :
    mac ∉ dropped c macList cnt := by
  intro hmem
  obtain ⟨j,hj,hjmac⟩ := h
  exact (of_decide_eq_true (List.mem_filter.mp hmem).2).2 j hj hjmac

theorem ackStep_ack {s s' : PairSystem} {k : ℕ} (hstep : ackStep s (.unpairSuccess k) = some s') :
    ∃ mac, (mac :: s'.pending).Perm s.pending ∧
      s'.world = s.world.store (sysSavePairsta s.world.cfgs mac true fun _ => false) := by
  simp only [ackStep] at hstep
  split at hstep
  · rename_i mac hk
    obtain rfl := Option.some.inj hstep
    obtain ⟨hlt,rfl⟩ := List.getElem?_eq_some_iff.mp hk
    exact ⟨_,List.getElem_cons_eraseIdx_perm hlt,rfl⟩
  · cases hstep

theorem ackStep_wifiMode {s s' : PairSystem} {l : AckLabel} (hstep : ackStep s l = some s') :
    s'.world.cfgs.wifiMode = s.world.cfgs.wifiMode := by
  cases l with
  | setPairedStas macList cnt =>
    simp only [ackStep] at hstep
    split at hstep
    · obtain rfl := Option.some.inj hstep
      exact setPairedStas_wifiMode
    · cases hstep
  | unpairSuccess k =>
    obtain ⟨mac,-,hworld⟩ := ackStep_ack hstep
    rw [hworld]
    exact save_wifiMode true fun _ => false

/-- What a run of answers has left of the list: nothing that it answered. -/
structure Answered (start s : PairSystem) : Prop where
  mode : ¬ modeIsSta s.world.cfgs.wifiMode
  distinct : Distinct 0 s.world.cfgs.slot
  stored : ∃ answers : List Mac, (answers ++ s.pending).Perm start.pending ∧
    stored 0 s.world.cfgs.slot = stored 0 start.world.cfgs.slot \ {mac | mac ∈ answers}

theorem Answered.step {start s s' : PairSystem} {k : ℕ} (h : Answered start s)
    (hstep : ackStep s (.unpairSuccess k) = some s') : Answered start s' := by
  obtain ⟨mac,hperm,hworld⟩ := ackStep_ack hstep
  obtain ⟨answers,hanswers,hstored⟩ := h.stored
  refine ⟨by rw [ackStep_wifiMode hstep]; exact h.mode,?_,mac :: answers,?_,?_⟩
  · rw [hworld]
    exact unpair_distinct h.distinct fun _ => false
  · have hcons : (mac :: answers ++ s'.pending).Perm (answers ++ (mac :: s'.pending)) :=
      List.perm_middle.symm
    exact (hcons.trans (hperm.append_left answers)).trans hanswers
  · rw [hworld,World.store_cfgs,unpair_slot h.mode,stored_eraseFirst h.distinct,hstored,
      Set.sdiff_sdiff]
    congr 1
    ext m
    simp

theorem Answered.run {start s t : PairSystem} {ls : List AckLabel} (h : Answered start s)
    (hrun : Runs ackStep s ls t) (hacks : ∀ l ∈ ls, l.isAck = true) : Answered start t := by
  induction hrun with
  | refl => exact h
  | @tail t u ls l _ hstep ih =>
    have hinit := ih fun m hm => hacks m (List.mem_append_left _ hm)
    have hack := hacks l (List.mem_append_right _ (List.mem_singleton_self l))
    cases l with
    | setPairedStas macList cnt => cases hack
    | unpairSuccess k => exact hinit.step hstep

/-- Once every answer is there, the list of the last call is stored exactly if no
answer that was still open before that call names one of its addresses; the
unpair requests are those for the dropped addresses in every case. -/
theorem delivered_iff {s₀ s₁ s₂ s₃ : PairSystem} {pre post : List AckLabel}
    (hmode : modeIsAp s₀.world.cfgs.wifiMode) (hpre : Runs ackStep s₀ pre s₁)
    (hset : ackStep s₁ (.setPairedStas macList cnt) = some s₂) (hpost : Runs ackStep s₂ post s₃)
    (hacks : ∀ l ∈ post, l.isAck = true) (hdone : s₃.pending = []) :
    (stored 0 s₃.world.cfgs.slot = listed macList cnt ∧
      ∀ ms u v list n, ms ++ [.setPairedStas list n] <+: pre ++ .setPairedStas macList cnt :: post →
        Runs ackStep s₀ ms u → ackStep u (.setPairedStas list n) = some v →
        v.world.calls = u.world.calls ++
          ((dropped u.world.cfgs list n).map (fun mac =>
            .iface u.world.cfgs.wifiMode .unpair [mac.toNat]) ++ restart u.world.cfgs.wifiMode)) ↔
      ∀ mac ∈ s₁.pending, mac ∉ listed macList cnt := by
  have hrun {ls : List AckLabel} {s : PairSystem} (h : Runs ackStep s₀ ls s) :
      modeIsAp s.world.cfgs.wifiMode :=
    h.invariant (I := fun s => modeIsAp s.world.cfgs.wifiMode)
      (fun s l t hs hstep => by rwa [ackStep_wifiMode hstep]) hmode
  have hap := modeIsAp_single (hrun hpre)
  obtain ⟨hlist,hworld,hpending⟩ := ackStep_set hap.1 hset
  have hstored : stored 0 s₂.world.cfgs.slot = listed macList cnt := by
    rw [hworld,stored_setPairedStas hlist.1]
  have hsta : ¬ modeIsSta s₂.world.cfgs.wifiMode := by
    rw [ackStep_wifiMode hset]
    exact hap.2
  have hstart : Answered s₂ s₂ :=
    ⟨hsta,by rw [hworld]; exact setPairedStas_distinct hlist,[],List.Perm.refl _,by simp⟩
  obtain ⟨answers,hperm,hend⟩ := (Answered.run hstart hpost hacks).stored
  rw [hdone,List.append_nil] at hperm
  -- the answers after the call are those to requests before it and to its own
  have hanswers (mac : Mac) : mac ∈ answers ↔ mac ∈ s₁.pending ∨
      mac ∈ dropped s₁.world.cfgs macList cnt := by
    rw [hperm.mem_iff,hpending,List.mem_append]
  rw [and_iff_left fun ms u v list n _ hu hstep => ackStep_calls (hrun hu) hstep,hend,hstored,
    sdiff_eq_left,Set.disjoint_right]
  constructor
  · intro h mac hmac
    exact h ((hanswers mac).mpr (Or.inl hmac))
  · intro h mac hmac hmem
    rcases (hanswers mac).mp hmac with hold | hdropped
    · exact h mac hold hmem
    · exact listed_not_dropped hmem hdropped

def apWorld : World := booted.store { booted.cfgs with wifiMode := WIFI_MODE_AP }

theorem delivered_iff_two : ∃ s₁ s₂ s₃,
    exec ackStep ⟨apWorld,[]⟩ [.setPairedStas (fun _ => 1) 1] = some s₁ ∧
    ackStep s₁ (.setPairedStas (fun _ => 2) 1) = some s₂ ∧
    exec ackStep s₂ [.unpairSuccess 0] = some s₃ ∧
    stored 0 s₃.world.cfgs.slot = listed (fun _ => 2) 1 := by
  obtain ⟨s₁,h₁,hs₁⟩ : ∃ s, exec ackStep ⟨apWorld,[]⟩ [.setPairedStas (fun _ => 1) 1] = some s ∧
    s.pending = [] ∧ ∃ t u, ackStep s (.setPairedStas (fun _ => 2) 1) = some t ∧
      exec ackStep t [.unpairSuccess 0] = some u ∧ u.pending = [] := ⟨_,rfl,rfl,_,_,rfl,rfl,rfl⟩
  obtain ⟨hpending,s₂,s₃,h₂,h₃,hdone⟩ := hs₁
  refine ⟨s₁,s₂,s₃,h₁,h₂,h₃,?_⟩
  have hiff := delivered_iff (Or.inl rfl) (Runs.of_exec h₁) h₂ (Runs.of_exec h₃) (by decide) hdone
  exact (hiff.mpr (by simp [hpending])).1

/-- The answer to the first request comes after its address was listed again. -/
theorem late_answer : ∃ s, exec ackStep ⟨apWorld,[]⟩ [.setPairedStas (fun _ => 1) 1,
      .setPairedStas (fun _ => 2) 1,.setPairedStas (fun _ => 1) 1,.unpairSuccess 0,.unpairSuccess 0]
      = some s ∧ s.pending = [] ∧ stored 0 s.world.cfgs.slot ≠ listed (fun _ => 1) 1 := by
  refine ⟨_,rfl,rfl,fun h => ?_⟩
  have hmem : macAt (fun _ => 1) 0 ∈ listed (fun _ => 1) 1 := ⟨0,by decide,rfl⟩
  rw [← h] at hmem
  obtain ⟨-,i,hi⟩ := hmem
  revert hi i
  decide

end FmacSdk.Syscfg
