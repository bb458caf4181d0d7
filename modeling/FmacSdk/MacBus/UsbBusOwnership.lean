import FmacSdk.MacBus.UsbBus

/-! # Who owns the receive buffer of the USB bus

The buffer is armed, or it holds a pending frame, or one call works on it, and
never two of these at once, as long as no reset comes while a call is under way.
A reset in that window arms the buffer under the call.
-/
namespace FmacSdk.UsbBus
open Transition MacBus

/-- The frame that the call claimed is not settled yet. -/
def CallPc.holds : CallPc → Prop
  | .claimed => True
  | .checked _ => True
  | .passing _ _ _ => True
  | .answered _ _ => True
  | .settled => False
  | .cleared => False

/-- What the claim on the buffer amounts to: one armed read at most, none while a
frame is pending or held by a call, and a frame is offered again only after -ENOMEM. -/
structure Owned (s : System) : Prop where
  once : s.armed ≤ 1
  pending : 0 < s.armed → s.bus.pending = 0
  held : 0 < s.armed → ∀ pc ∈ s.calls, ¬ pc.holds
  offers : s.offers.Pairwise fun p o => o.frame.seq = p.frame.seq → p.ret = -ENOMEM

/-- No reset comes while a call is between its decrement and its end. -/
def Quiet (s : System) : Act → Prop
  | .irqReset => s.calls = []
  | _ => True

instance (s : System) : ∀ a, Decidable (Quiet s a)
  | .irqReset => inferInstanceAs (Decidable (_ = _))
  | .irqRx _ _ _ => isTrue trivial
  | .ioctl _ => isTrue trivial
  | .pdwork => isTrue trivial
  | .call _ _ => isTrue trivial
  | .answer _ _ => isTrue trivial

/-- bus.recv has answered the frame in the buffer with -ENOMEM only. -/
def Retried (s : System) : Prop := ∀ o ∈ s.offers, o.frame.seq = s.bus.rxbuff.seq → o.ret = -ENOMEM

/-- What a call relies on. -/
def Phase (s : System) : CallPc → Prop
  | .claimed => Retried s
  | .checked _ => Retried s
  | .passing _ frame _ => Retried s ∧ frame = s.bus.rxbuff
  | .answered _ ret => ret = -ENOMEM → Retried s
  | .settled => True
  | .cleared => True

/-- One token goes round: an armed read, the pending flag, or a call. -/
structure Inv (s : System) : Prop where
  token : s.armed + s.bus.pending + s.calls.length ≤ 1
  pending : 0 < s.bus.pending → Retried s
  phase : ∀ pc ∈ s.calls, Phase s pc
  fresh : ∀ o ∈ s.offers, o.frame.seq < s.received
  filled : 0 < s.bus.pending + s.calls.length → s.bus.rxbuff.seq < s.received
  offers : s.offers.Pairwise fun p o => o.frame.seq = p.frame.seq → p.ret = -ENOMEM

theorem Inv.owned {s : System} (h : Inv s) : Owned s := by
  have htoken := h.token
  refine ⟨by omega,fun ha => by omega,?_,h.offers⟩
  intro ha pc hpc
  have := List.length_pos_of_mem hpc
  omega

/-- There is at most one call. -/
theorem Inv.call {s : System} {i : ℕ} {pc : CallPc} (h : Inv s) (hi : s.calls[i]? = some pc) :
    i = 0 ∧ s.calls = [pc] ∧ s.armed = 0 ∧ s.bus.pending = 0 := by
  have htoken := h.token
  have hlt : i < s.calls.length := (List.getElem?_eq_some_iff.mp hi).1
  obtain ⟨a,ha⟩ := List.length_eq_one_iff.mp (show s.calls.length = 1 by omega)
  obtain rfl : i = 0 := by omega
  rw [ha] at hi
  refine ⟨rfl,?_,by omega,by omega⟩
  simpa [ha] using hi

theorem pairwise_offer {offers : List Offer} {o : Offer}
    (h : offers.Pairwise fun p o => o.frame.seq = p.frame.seq → p.ret = -ENOMEM)
    (ho : ∀ p ∈ offers, p.frame.seq = o.frame.seq → p.ret = -ENOMEM) :
    (offers ++ [o]).Pairwise fun p o => o.frame.seq = p.frame.seq → p.ret = -ENOMEM := by
  refine List.pairwise_append.mpr ⟨h,List.pairwise_singleton _ _,?_⟩
  intro p hp q hq heq
  rw [List.mem_singleton.mp hq] at heq
  exact ho p hp heq.symm

theorem Retried.append {s : System} (h : Retried s) {bus : MacBusUsb} {o : Offer}
    (hbuf : bus.rxbuff = s.bus.rxbuff) (ho : o.ret = -ENOMEM) (calls : List CallPc) :
    Retried { s with bus := bus, offers := s.offers ++ [o], calls := calls } := by
  intro p hp heq
  rcases List.mem_append.mp hp with hp | hp
  · exact h p hp (heq.trans (congrArg Frame.seq hbuf))
  · rw [List.mem_singleton.mp hp]
    exact ho

theorem start_inv : Inv start := by
  refine ⟨by decide,fun hp => absurd hp (by decide),?_,?_,fun hp => absurd hp (by decide),?_⟩
  · intro pc hpc
    simp [start] at hpc
  · intro o ho
    simp [start] at ho
  · exact List.Pairwise.nil

theorem Inv.irqReset {s : System} (h : Inv s) (hq : s.calls = []) : Inv (irqReset s) := by
  refine ⟨?_,fun hp => absurd hp (Nat.lt_irrefl 0),?_,h.fresh,?_,h.offers⟩
  · simp [UsbBus.irqReset,usbDeviceWifiRead,hq]
  · intro pc hpc
    simp [UsbBus.irqReset,usbDeviceWifiRead,hq] at hpc
  · intro hp
    simp [UsbBus.irqReset,usbDeviceWifiRead,hq] at hp

/-- The interrupt on an armed buffer: what it was offered, and who owns it next. -/
theorem irqRx_cases (s : System) (frame : Frame) (ret : ℤ) (now : BitVec 64) :
    let t := irqRx s frame ret now
    t.bus.rxbuff = frame ∧ t.received = s.received + 1 ∧ t.calls = s.calls ∧
    (t.offers = s.offers ∧ t.armed = s.armed - 1 + 1 ∧ t.bus.pending = 0 ∨
      t.offers = s.offers ++ [⟨frame,frame.data.length,ret⟩] ∧
        (ret = -ENOMEM ∧ t.armed = s.armed - 1 ∧ t.bus.pending = 1 ∨
          t.armed = s.armed - 1 + 1 ∧ t.bus.pending = 0)) := by
  simp only [UsbBus.irqRx,usbDeviceWifiRead]
  by_cases hover : frame.data.length > USB_BUS_RXBUFF_SIZE
  · simp [hover]
  · have h0 : (0 : ℤ) ≠ -ENOMEM := by decide
    by_cases hret : ret = -ENOMEM
    · subst hret
      simp [hover,h0.symm]
    · by_cases hok : ret = 0
      · subst hok
        simp [hover,h0]
      · simp [hover,hret,hok]

theorem Inv.irqRx {s : System} (h : Inv s) (ha : 0 < s.armed) (data : List UInt8) (ret : ℤ)
    (now : BitVec 64) : Inv (irqRx s ⟨s.received,data⟩ ret now) := by
  obtain ⟨hbuf,hrec,hcalls,hcase⟩ := irqRx_cases s ⟨s.received,data⟩ ret now
  set t := UsbBus.irqRx s ⟨s.received,data⟩ ret now
  have htoken := h.token
  have hnone : s.calls = [] := List.length_eq_zero_iff.mp (by omega)
  have hlen : t.calls.length = 0 := by rw [hcalls,hnone]; rfl
  have hphase : ∀ pc ∈ t.calls, Phase t pc := by
    intro pc hpc
    rw [hcalls,hnone] at hpc
    simp at hpc
  have hfilled : 0 < t.bus.pending + t.calls.length → t.bus.rxbuff.seq < t.received := by
    intro _
    rw [hbuf,hrec]
    exact Nat.lt_succ_self _
  have hold : ∀ o ∈ s.offers, o.frame.seq < t.received := by
    intro o ho
    have := h.fresh o ho
    omega
  rcases hcase with ⟨hoff,harm,hpend⟩ | ⟨hoff,hcase⟩
  · exact ⟨by omega,fun hp => by omega,hphase,hoff ▸ hold,hfilled,hoff ▸ h.offers⟩
  · have hnew : ∀ p ∈ s.offers, p.frame.seq = s.received → p.ret = -ENOMEM := by
      intro p hp heq
      have := h.fresh p hp
      omega
    have hoffers := pairwise_offer (o := ⟨⟨s.received,data⟩,data.length,ret⟩) h.offers hnew
    rw [← hoff] at hoffers
    have hfresh : ∀ o ∈ t.offers, o.frame.seq < t.received := by
      intro o ho
      rw [hoff] at ho
      rcases List.mem_append.mp ho with ho | ho
      · exact hold o ho
      · rw [List.mem_singleton.mp ho,hrec]
        exact Nat.lt_succ_self _
    rcases hcase with ⟨hret,harm,hpend⟩ | ⟨harm,hpend⟩
    · refine ⟨by omega,fun _ => ?_,hphase,hfresh,hfilled,hoffers⟩
      intro o ho heq
      rw [hbuf] at heq
      rw [hoff] at ho
      rcases List.mem_append.mp ho with ho | ho
      · exact hnew o ho heq
      · rw [List.mem_singleton.mp ho]
        exact hret
    · exact ⟨by omega,fun hp => by omega,hphase,hfresh,hfilled,hoffers⟩

/-- A claim takes the token from the pending flag. -/
theorem Inv.procPendingData {s : System} (h : Inv s) : Inv (procPendingData s) := by
  unfold UsbBus.procPendingData
  split
  · next hp =>
    have htoken := h.token
    have hnone : s.calls = [] := List.length_eq_zero_iff.mp (by omega)
    refine ⟨?_,fun hpos => ?_,?_,h.fresh,fun _ => h.filled (by omega),h.offers⟩
    · simp only [hnone,List.nil_append,List.length_singleton]
      omega
    · simp only at hpos
      omega
    · intro pc hpc
      simp only [hnone,List.nil_append,List.mem_singleton] at hpc
      subst hpc
      exact h.pending (by omega)
  · exact h

/-- A statement of the only call that keeps the token. -/
theorem Inv.setCall {s t : System} {pc : CallPc} (h : Inv s) (hcalls : s.calls = [pc]) {pc' : CallPc}
    (hbuf : t.bus.rxbuff = s.bus.rxbuff) (hpend : t.bus.pending = s.bus.pending)
    (harm : t.armed = s.armed) (hset : t.calls = [pc']) (hrec : t.received = s.received)
    (hoff : t.offers = s.offers) (hphase : Phase t pc') : Inv t := by
  have htoken := h.token
  have hretried : Retried s → Retried t := by
    intro hr
    unfold Retried
    rw [hoff,hbuf]
    exact hr
  rw [hcalls] at htoken
  refine ⟨by rw [harm,hpend,hset]; exact htoken,fun hp => hretried (h.pending (hpend ▸ hp)),?_,?_,?_,?_⟩
  · intro qc hqc
    rw [hset] at hqc
    rw [List.mem_singleton.mp hqc]
    exact hphase
  · rw [hoff,hrec]
    exact h.fresh
  · intro _
    rw [hbuf,hrec]
    exact h.filled (by simp [hcalls])
  · rw [hoff]
    exact h.offers

/-- The end of the only call passes the token on to the flag or to the host. -/
theorem Inv.endCall {s t : System} {pc : CallPc} (h : Inv s) (hcalls : s.calls = [pc])
    (hbuf : t.bus.rxbuff = s.bus.rxbuff) (htoken : t.armed + t.bus.pending = 1) (hset : t.calls = [])
    (hrec : t.received = s.received) (hoff : t.offers = s.offers)
    (hpend : 0 < t.bus.pending → Retried s) : Inv t := by
  refine ⟨by rw [hset,List.length_nil]; omega,?_,?_,?_,?_,?_⟩
  · intro hp
    unfold Retried
    rw [hoff,hbuf]
    exact hpend hp
  · intro qc hqc
    rw [hset] at hqc
    simp at hqc
  · rw [hoff,hrec]
    exact h.fresh
  · intro _
    rw [hbuf,hrec]
    exact h.filled (by simp [hcalls])
  · rw [hoff]
    exact h.offers

theorem Inv.callStep {s t : System} {i : ℕ} {now : BitVec 64} (h : Inv s)
    (ht : callStep s i now = some t) : Inv t := by
  unfold UsbBus.callStep at ht
  cases hi : s.calls[i]? with
  | none => simp [hi] at ht
  | some pc =>
    obtain ⟨rfl,hcalls,harm,hpend⟩ := h.call hi
    have hphase : Phase s pc := h.phase pc (by simp [hcalls])
    have hset : ∀ pc', s.calls.set 0 pc' = [pc'] := fun pc' => by rw [hcalls]; rfl
    have herase : s.calls.eraseIdx 0 = [] := by rw [hcalls]; rfl
    simp only [hi] at ht
    cases pc with
    | claimed =>
      cases ht
      exact h.setCall hcalls rfl rfl rfl (hset _) rfl rfl hphase
    | checked drop =>
      cases ht
      exact h.setCall hcalls rfl rfl rfl (hset _) rfl rfl ⟨hphase,rfl⟩
    | passing drop frame len => cases ht
    | answered drop ret =>
      simp only at ht
      split at ht
      · split at ht
        · next hretry =>
          cases ht
          exact h.endCall hcalls rfl (by simp [harm]) herase rfl rfl fun _ => hphase hretry.2
        · cases ht
          exact h.setCall hcalls rfl rfl rfl (hset _) rfl rfl trivial
      · cases ht
        exact h.setCall hcalls rfl rfl rfl (hset _) rfl rfl trivial
    | settled =>
      cases ht
      exact h.setCall hcalls rfl rfl rfl (hset _) rfl rfl trivial
    | cleared =>
      cases ht
      exact h.endCall hcalls rfl (by simp [usbDeviceWifiRead,harm,hpend]) herase rfl rfl
        (fun hp => absurd hp (by simp [usbDeviceWifiRead,hpend]))

/-- A call offers the frame that it claimed; no other frame can be in the buffer. -/
theorem Inv.answerStep {s t : System} {i : ℕ} {ret : ℤ} (h : Inv s)
    (ht : answerStep s i ret = some t) : Inv t := by
  unfold UsbBus.answerStep at ht
  cases hi : s.calls[i]? with
  | none => simp [hi] at ht
  | some pc =>
    obtain ⟨rfl,hcalls,harm,hpend⟩ := h.call hi
    have hphase : Phase s pc := h.phase pc (by simp [hcalls])
    simp only [hi] at ht
    cases pc with
    | passing drop frame len =>
      cases ht
      rcases hphase with ⟨hretried,rfl⟩
      have hfilled : s.bus.rxbuff.seq < s.received := h.filled (by simp [hcalls])
      have hset : s.calls.set 0 (.answered drop ret) = [.answered drop ret] := by rw [hcalls]; rfl
      refine ⟨?_,fun hp => ?_,?_,?_,fun _ => hfilled,pairwise_offer h.offers hretried⟩
      · simp [System.setCall,hset,harm,hpend]
      · exact absurd hp (by simp [System.setCall,hpend])
      · intro qc hqc
        simp only [System.setCall,hset,List.mem_singleton] at hqc
        subst hqc
        exact fun hret => hretried.append rfl hret _
      · intro o ho
        rcases List.mem_append.mp ho with ho | ho
        · exact h.fresh o ho
        · rw [List.mem_singleton.mp ho]
          exact hfilled
    | _ => cases ht

theorem Inv.step {s t : System} {a : Act} (h : Inv s) (hq : Quiet s a) (ht : step s a = some t) :
    Inv t := by
  cases a with
  | irqReset =>
    cases ht
    exact h.irqReset hq
  | irqRx data ret now =>
    simp only [UsbBus.step] at ht
    split at ht
    · next ha =>
      cases ht
      exact h.irqRx ha data ret now
    · cases ht
  | ioctl cmd =>
    cases ht
    unfold ioctl
    split
    · exact h.procPendingData
    · exact h
  | pdwork =>
    cases ht
    exact h.procPendingData
  | call i now => exact h.callStep ht
  | answer i ret => exact h.answerStep ht

/-- In every run without a reset during a call the buffer has one owner, and a
frame is offered again only after -ENOMEM. -/
theorem quiet_run_owned (acts : List Act) (s : System) (h : Runs (guarded Quiet step) start acts s) :
    Owned s :=
  (h.guarded_invariant (fun _ _ _ hi hq ht => hi.step hq ht) start_inv).owned

/-- A frame that found no memory is passed again by BUFFER_IDLE and accepted,
and the next one follows. -/
theorem quiet_run_owned_retry : ∃ s, Runs (guarded Quiet step) start
    [.irqReset,.irqRx [7] (-ENOMEM) 0,.ioctl MACBUS_IOCTL_BUFFER_IDLE,.call 0 1,.call 0 1,.answer 0 0,
      .call 0 1,.call 0 1,.call 0 1,.irqRx [8] 0 2] s ∧
    s.offers.map (fun o => (o.frame.seq,o.ret)) = [(0,-12),(0,0),(1,0)] ∧ Owned s := by
  refine Runs.exists_of_exec (fun s => s.offers.map fun o => (o.frame.seq,o.ret)) (v := [(0,-12),(0,0),(1,0)]) rfl ?_
  intro s hrun hoffers
  exact ⟨hoffers,quiet_run_owned _ s hrun⟩

/-- A reset between the decrement and the check arms the buffer, the next frame
is accepted by the interrupt, and the call passes that frame to bus.recv again
with the buffer armed; its end arms a second read. -/
theorem reset_in_call : ∃ s, Runs step start
    [.irqReset,.irqRx [7] (-ENOMEM) 0,.ioctl MACBUS_IOCTL_BUFFER_IDLE,.irqReset,.irqRx [8] 0 1,
      .call 0 1,.call 0 1,.answer 0 0,.call 0 1,.call 0 1,.call 0 1] s ∧
    s.armed = 2 ∧ s.offers.map (fun o => (o.frame.seq,o.ret)) = [(0,-12),(1,0),(1,0)] ∧
    ¬ Owned s := by
  refine Runs.exists_of_exec (fun s => (s.armed,s.offers.map fun o => (o.frame.seq,o.ret)))
    (v := (2,[(0,-12),(1,0),(1,0)])) rfl ?_
  intro s _ hend
  obtain ⟨harm,hoffers⟩ := Prod.mk.inj hend
  refine ⟨harm,hoffers,?_⟩
  intro howned
  have := howned.once
  omega

end FmacSdk.UsbBus
