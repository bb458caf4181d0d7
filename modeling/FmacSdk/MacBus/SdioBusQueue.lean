import FmacSdk.MacBus.SdioBus

/-! # Double buffering as a queue

As long as the host transfers only while the busy register is clear, the two
buffers of the SDIO bus are a queue of at most two frames: the older one is
never in the current buffer, the armed buffer is free whenever the host may
transfer, and bus.recv is offered the head of the queue until it answers.
-/
namespace FmacSdk.SdioBus
open Transition RetryQueue MacBus

/-- `pkt_len` as mac_bus_sdio_attach sets it. -/
def pktLen (drvAggsize : UInt16) : ℕ := if drvAggsize.toNat > 2048 then drvAggsize.toNat else 2048

theorem pktLen_lt (drvAggsize : UInt16) : pktLen drvAggsize < 2 ^ 16 := by
  have := drvAggsize.toNat_lt
  unfold pktLen
  split <;> omega

/-- The host transfers a frame that fits, and only while the busy register is clear. -/
def Permitted (drvAggsize : UInt16) (s : System) : Act → Prop
  | .irqRx data => s.bus.userReg1 = false ∧ 1 ≤ data.length ∧ data.length ≤ pktLen drvAggsize
  | _ => True

instance (drvAggsize : UInt16) (s : System) : ∀ a, Decidable (Permitted drvAggsize s a)
  | .irqRx _ => inferInstanceAs (Decidable (_ ∧ _ ∧ _))
  | .irqReset => isTrue trivial
  | .ioctl _ => isTrue trivial
  | .task => isTrue trivial
  | .reply _ => isTrue trivial

/-- bus.recv accepted or rejected the frame. -/
def settled (o : Offer) : Bool := o.ret ≠ -ENOMEM

/-- The unanswered frames, the one outside the current buffer first. -/
def queueOf (cur : Bool) (unanswered : Bool → Option Frame) : List Frame :=
  (unanswered (!cur)).toList ++ (unanswered cur).toList

def System.queue (s : System) : List Frame := queueOf s.bus.curId s.unanswered

/-- The buffer with an answered frame whose length is not yet cleared. -/
def TaskPc.clears : TaskPc → Option Bool
  | .clear _ id _ => some id
  | _ => none

def System.clearing (s : System) : List Frame := (s.task.clears.map s.bus.rxBuf).toList

/-- What the frames went through: the offers follow the order of arrival, each
with the whole frame, and the cleared frames are the settled ones but for one
that is about to be cleared. -/
structure Served (s : System) : Prop where
  account : Account Offer.frame settled s.arrived s.offers s.queue
  whole : ∀ o ∈ s.offers, o.len = o.frame.data.length
  clears : s.cleared ++ s.clearing = finals Offer.frame settled s.offers
  numbered : s.arrived.map Frame.seq = List.range s.arrived.length

/-- The invariant of the bus alone. -/
structure Buffers (s : MacBusSdio) : Prop where
  armed : s.armed = s.curId
  mirror : s.userReg1 = s.pending
  free : s.pending = false → s.rxCnt s.curId = 0
  count : ∀ b, s.rxCnt b ≠ 0 → s.rxCnt b = (s.rxBuf b).data.length

/-- The second buffer of the loop is the current one, full and blocked. -/
def SecondId (s : MacBusSdio) (id2 : Option Bool) : Prop :=
  ∀ id ∈ id2, id = s.curId ∧ s.pending = true ∧ s.rxCnt s.curId ≠ 0

/-- Which buffer a call of sdio_bus_proc_rxbuff works on. -/
def CallOf (s : MacBusSdio) (id : Bool) : Call → Prop
  | .first id2 => id = (!s.curId) ∧ s.rxCnt (!s.curId) ≠ 0 ∧ SecondId s id2
  | .second => SecondId s (some id) ∧ s.rxCnt (!s.curId) = 0

/-- What the task may rely on, by program counter. -/
def Phase (s : MacBusSdio) : TaskPc → Prop
  | .down => s.pending = true → s.rxCnt (!s.curId) ≠ 0
  | .snapshot => s.pending = true → s.rxCnt (!s.curId) ≠ 0
  | .proc call (some id) => CallOf s id call
  | .proc call none => call = .first none ∨ call = .second
  | .recv call id len => CallOf s id call ∧ len = s.rxCnt id
  | .clear call id ret => CallOf s id call ∧ ret ≠ -ENOMEM
  | .finish => True

/-- The buffer holds a frame that bus.recv has not settled. -/
def Holds (s : System) (b : Bool) : Prop :=
  s.bus.rxCnt b ≠ 0 ∧ s.task.clears ≠ some b

structure Inv (s : System) : Prop where
  buffers : Buffers s.bus
  phase : Phase s.bus s.task
  held : ∀ b, Holds s b → s.unanswered b = some (s.bus.rxBuf b)
  free : ∀ b, ¬ Holds s b → s.unanswered b = none
  served : Served s

theorem eq_or_eq_not (b c : Bool) : b = c ∨ b = !c := by cases b <;> cases c <;> simp

/-! ## The receive interrupt -/

theorem irqRx_rxCnt (s : MacBusSdio) (f : Frame) :
    (irqRx s f).rxCnt = Function.update s.rxCnt s.curId (f.data.length % 2 ^ 16) := by
  by_cases h : s.rxCnt (!s.curId) = 0
  · rw [irqRx_move h]
  · rw [irqRx_stay h]

theorem irqRx_rxBuf (s : MacBusSdio) (f : Frame) :
    (irqRx s f).rxBuf = Function.update s.rxBuf s.armed f := by
  by_cases h : s.rxCnt (!s.curId) = 0
  · rw [irqRx_move h]
  · rw [irqRx_stay h]

theorem Inv.unblocked {s : System} (h : Inv s) (hreg : s.bus.userReg1 = false) :
    s.bus.pending = false ∧ s.bus.rxCnt s.bus.curId = 0 ∧ s.unanswered s.bus.curId = none := by
  have hpend : s.bus.pending = false := h.buffers.mirror.symm.trans hreg
  have hcnt := h.buffers.free hpend
  exact ⟨hpend,hcnt,h.free _ fun hh => hh.1 hcnt⟩

/-- While the host is not blocked a call works on the buffer beside the current one. -/
theorem CallOf.beside {s : MacBusSdio} {id : Bool} {call : Call} (h : CallOf s id call)
    (hpend : s.pending = false) : id = (!s.curId) ∧ s.rxCnt (!s.curId) ≠ 0 := by
  cases call with
  | first id2 => exact ⟨h.1,h.2.1⟩
  | second =>
    have := (h.1 id rfl).2.1
    simp [hpend] at this

theorem Buffers.irqRx {s : MacBusSdio} {f : Frame} (h : Buffers s)
    (hlen : f.data.length < 2 ^ 16) : Buffers (irqRx s f) := by
  have hmod : f.data.length % 2 ^ 16 = f.data.length := Nat.mod_eq_of_lt hlen
  have hcount : ∀ b, Function.update s.rxCnt s.curId (f.data.length % 2 ^ 16) b ≠ 0 →
      Function.update s.rxCnt s.curId (f.data.length % 2 ^ 16) b =
        (Function.update s.rxBuf s.armed f b).data.length := by
    intro b hb
    rw [h.armed]
    rcases eq_or_eq_not b s.curId with rfl | rfl
    · rw [Function.update_self,Function.update_self,hmod]
    · simp only [ne_eq,Bool.not_eq_eq_eq_not,Bool.eq_not_self,not_false_eq_true,
        Function.update_of_ne] at hb ⊢
      exact h.count _ hb
  by_cases hother : s.rxCnt (!s.curId) = 0
  · rw [irqRx_move hother]
    exact ⟨rfl,rfl,fun _ => by simpa using hother,hcount⟩
  · rw [irqRx_stay hother]
    exact ⟨rfl,rfl,fun hp => by simp at hp,hcount⟩

/-- The task may go on relying on its facts when the calls under way keep theirs. -/
theorem Phase.mono {s t : MacBusSdio} {pc : TaskPc} (h : Phase s pc)
    (hdown : (s.pending = true → s.rxCnt (!s.curId) ≠ 0) → t.pending = true → t.rxCnt (!t.curId) ≠ 0)
    (hcall : ∀ id call, CallOf s id call → CallOf t id call ∧ t.rxCnt id = s.rxCnt id) :
    Phase t pc := by
  cases pc with
  | down => exact hdown h
  | snapshot => exact hdown h
  | proc call id =>
    cases id with
    | none => exact h
    | some id => exact (hcall id call h).1
  | recv call id len => exact ⟨(hcall id call h.1).1,h.2.trans (hcall id call h.1).2.symm⟩
  | clear call id ret => exact ⟨(hcall id call h.1).1,h.2⟩
  | finish => trivial

theorem Phase.irqRx {s : MacBusSdio} {f : Frame} {pc : TaskPc} (h : Phase s pc)
    (hpend : s.pending = false) : Phase (irqRx s f) pc := by
  by_cases hother : s.rxCnt (!s.curId) = 0
  · rw [irqRx_move hother]
    refine h.mono (fun _ hp => by simp at hp) ?_
    intro id call hc
    exact absurd hother (hc.beside hpend).2
  · rw [irqRx_stay hother]
    refine h.mono (fun _ _ => by simpa using hother) ?_
    intro id call hc
    rcases hc.beside hpend with ⟨rfl,_⟩
    refine ⟨?_,by simp⟩
    cases call with
    | first id2 =>
      refine ⟨rfl,by simpa using hother,?_⟩
      intro id hid
      have := (hc.2.2 id hid).2.1
      simp [hpend] at this
    | second =>
      have := (hc.1 _ rfl).2.1
      simp [hpend] at this

theorem Phase.clears {s : MacBusSdio} {pc : TaskPc} (h : Phase s pc) (hpend : s.pending = false) :
    pc.clears ≠ some s.curId := by
  intro hc
  cases pc with
  | clear call id ret =>
    have := (h.1.beside hpend).1
    simp only [TaskPc.clears,Option.some.injEq] at hc
    subst hc
    simp at this
  | _ => simp [TaskPc.clears] at hc

/-- A frame that arrives queues up behind the ones that wait. -/
theorem Inv.queue_irqRx {s : System} (h : Inv s) (hreg : s.bus.userReg1 = false) (f : Frame) :
    queueOf (SdioBus.irqRx s.bus f).curId (Function.update s.unanswered s.bus.armed (some f)) =
      s.queue ++ [f] := by
  rcases h.unblocked hreg with ⟨_,_,hnone⟩
  rw [System.queue,queueOf,queueOf,h.buffers.armed,hnone]
  by_cases hother : s.bus.rxCnt (!s.bus.curId) = 0
  · rw [irqRx_move hother,h.free _ fun hh => hh.1 hother]
    simp [h.free _ fun hh => hh.1 hother]
  · rw [irqRx_stay hother]
    simp

theorem Inv.irqRx {s t : System} {data : List UInt8} {drvAggsize : UInt16} (h : Inv s)
    (hp : Permitted drvAggsize s (.irqRx data)) (ht : step s (.irqRx data) = some t) : Inv t := by
  cases ht
  rcases hp with ⟨hreg,hpos,hle⟩
  rcases h.unblocked hreg with ⟨hpend,hcnt,hnone⟩
  have hlt : data.length < 2 ^ 16 := hle.trans_lt (pktLen_lt drvAggsize)
  have hclear := h.phase.clears hpend
  have harmed := h.buffers.armed
  refine ⟨h.buffers.irqRx hlt,h.phase.irqRx hpend,?_,?_,?_,?_,?_,?_⟩
  · intro b hb
    simp only [Holds,irqRx_rxCnt] at hb
    simp only [irqRx_rxBuf,harmed]
    rcases eq_or_eq_not b s.bus.curId with rfl | rfl
    · simp
    · simp only [ne_eq,Bool.not_eq_eq_eq_not,Bool.eq_not_self,not_false_eq_true,
        Function.update_of_ne] at hb ⊢
      exact h.held _ hb
  · intro b hb
    simp only [Holds,irqRx_rxCnt,Nat.mod_eq_of_lt hlt] at hb
    simp only [harmed]
    rcases eq_or_eq_not b s.bus.curId with rfl | rfl
    · exact absurd ⟨by simp only [Function.update_self]; omega,hclear⟩ hb
    · simp only [ne_eq,Bool.not_eq_eq_eq_not,Bool.eq_not_self,not_false_eq_true,
        Function.update_of_ne] at hb ⊢
      exact h.free _ hb
  · have := h.served.account.arrive ⟨s.arrived.length,data⟩
    rwa [← h.queue_irqRx hreg] at this
  · exact h.served.whole
  · have hmap : s.task.clears.map (SdioBus.irqRx s.bus ⟨s.arrived.length,data⟩).rxBuf =
        s.task.clears.map s.bus.rxBuf := by
      refine Option.map_congr ?_
      intro id hid
      have hne : id ≠ s.bus.curId := fun he => hclear (he ▸ hid)
      rw [irqRx_rxBuf,harmed,Function.update_of_ne hne]
    simp only [System.clearing,hmap]
    exact h.served.clears
  · simp [h.served.numbered,List.range_succ]

/-- Steps that leave the buffers and the records alone. -/
theorem Inv.congr {s t : System} (h : Inv s) (hbuffers : Buffers t.bus) (hphase : Phase t.bus t.task)
    (hcur : t.bus.curId = s.bus.curId) (hcnt : t.bus.rxCnt = s.bus.rxCnt)
    (hbuf : t.bus.rxBuf = s.bus.rxBuf) (hclears : t.task.clears = s.task.clears)
    (hrec : (t.arrived,t.offers,t.cleared,t.unanswered) =
      (s.arrived,s.offers,s.cleared,s.unanswered)) : Inv t := by
  simp only [Prod.mk.injEq] at hrec
  rcases hrec with ⟨harr,hoff,hcl,hun⟩
  have hholds : ∀ b, Holds t b ↔ Holds s b := fun b => by simp only [Holds,hcnt,hclears]
  refine ⟨hbuffers,hphase,?_,?_,?_,?_,?_,?_⟩
  · intro b hb
    rw [hun,hbuf]
    exact h.held b ((hholds b).mp hb)
  · intro b hb
    rw [hun]
    exact h.free b fun hs => hb ((hholds b).mpr hs)
  · simpa only [System.queue,harr,hoff,hun,hcur] using h.served.account
  · rw [hoff]
    exact h.served.whole
  · simpa only [System.clearing,hcl,hoff,hclears,hbuf] using h.served.clears
  · rw [harr]
    exact h.served.numbered

theorem Inv.irqReset {s : System} (h : Inv s) : Inv { s with bus := irqReset s.bus } := by
  have hphase : Phase (SdioBus.irqReset s.bus) s.task :=
    h.phase.mono (fun hd => hd) (fun id call hc => ⟨by cases call <;> exact hc,rfl⟩)
  exact h.congr ⟨rfl,rfl,h.buffers.free,h.buffers.count⟩ hphase rfl rfl rfl rfl rfl

/-- A change of the semaphore count changes nothing for the buffers. -/
theorem Inv.sema {s : System} (h : Inv s) (n : ℕ) : Inv { s with bus := { s.bus with rxsema := n } } := by
  have hphase : Phase { s.bus with rxsema := n } s.task :=
    h.phase.mono (fun hd => hd) (fun id call hc => ⟨by cases call <;> exact hc,rfl⟩)
  exact h.congr ⟨h.buffers.armed,h.buffers.mirror,h.buffers.free,h.buffers.count⟩ hphase rfl rfl rfl
    rfl rfl

theorem Inv.ioctl {s : System} (h : Inv s) (cmd : ℕ) :
    Inv { s with bus := (SdioBus.ioctl s.bus cmd).1 } := by
  unfold SdioBus.ioctl
  split
  · exact h.sema _
  · exact h

/-! ## The task -/

theorem Inv.snapshot {s : System} (h : Inv s) (htask : s.task = .snapshot) :
    Phase s.bus (.proc (.first (snapshotIds s.bus).2) (snapshotIds s.bus).1) := by
  have hdown : s.bus.pending = true → s.bus.rxCnt (!s.bus.curId) ≠ 0 := by
    have := h.phase
    rwa [htask] at this
  unfold snapshotIds
  by_cases hother : s.bus.rxCnt (!s.bus.curId) = 0
  · have hpend : s.bus.pending = false := by
      cases hp : s.bus.pending with
      | false => rfl
      | true => exact absurd hother (hdown hp)
    simp only [hother,h.buffers.free hpend,↓reduceIte]
    exact Or.inl rfl
  · simp only [hother,↓reduceIte]
    refine ⟨rfl,hother,?_⟩
    intro id hid
    by_cases hcur : s.bus.rxCnt s.bus.curId = 0
    · simp [hcur] at hid
    · simp only [hcur,↓reduceIte,Option.mem_def,Option.some.injEq] at hid
      refine ⟨hid.symm,?_,hcur⟩
      cases hp : s.bus.pending with
      | false => exact absurd (h.buffers.free hp) hcur
      | true => rfl

/-- After a call the loop goes on, or starts again with the frame that found no memory. -/
theorem CallOf.next {s : MacBusSdio} {id : Bool} {call : Call} (h : CallOf s id call) :
    Phase s (call.next (-ENOMEM)) := by
  cases call with
  | first id2 =>
    simp only [Call.next,↓reduceIte]
    exact fun _ => h.2.1
  | second => exact trivial

theorem CallOf.next_cleared {s : MacBusSdio} {id : Bool} {call : Call} {ret : ℤ} {n : ℕ}
    (h : CallOf s id call) (hret : ret ≠ -ENOMEM) :
    Phase { s with rxCnt := Function.update s.rxCnt id 0, rxerr := n } (call.next ret) := by
  cases call with
  | first id2 =>
    rcases h with ⟨rfl,_,hsecond⟩
    simp only [Call.next,hret,↓reduceIte]
    cases id2 with
    | none => exact Or.inr rfl
    | some id2 =>
      refine ⟨?_,by simp⟩
      intro id hid
      simpa using hsecond id hid
  | second => exact trivial

/-- The frame that a call works on is the head of the queue. -/
theorem Inv.queue_head {s : System} {id : Bool} {call : Call} (h : Inv s) (hc : CallOf s.bus id call)
    (hclears : s.task.clears = none) :
    s.queue = s.bus.rxBuf id :: queueOf s.bus.curId (Function.update s.unanswered id none) := by
  have hheld : ∀ b, s.bus.rxCnt b ≠ 0 → s.unanswered b = some (s.bus.rxBuf b) :=
    fun b hb => h.held b ⟨hb,by simp [hclears]⟩
  cases call with
  | first id2 =>
    rcases hc with ⟨rfl,hcnt,_⟩
    simp [System.queue,queueOf,hheld _ hcnt]
  | second =>
    rcases hc.1 id rfl with ⟨rfl,_,hcnt⟩
    have hnone : s.unanswered (!s.bus.curId) = none := h.free _ fun hh => hh.1 hc.2
    simp [System.queue,queueOf,hheld _ hcnt,hnone]

theorem CallOf.count {s : MacBusSdio} {id : Bool} {call : Call} (h : CallOf s id call) :
    s.rxCnt id ≠ 0 := by
  cases call with
  | first id2 =>
    rcases h with ⟨rfl,hcnt,_⟩
    exact hcnt
  | second =>
    rcases h.1 id rfl with ⟨rfl,_,hcnt⟩
    exact hcnt

theorem Call.next_clears (call : Call) (ret : ℤ) : (call.next ret).clears = none := by
  cases call with
  | first id2 =>
    by_cases hret : ret = -ENOMEM <;> simp [Call.next,hret,TaskPc.clears]
  | second => rfl

/-- No frame is cleared between a call of bus.recv and its answer. -/
theorem Inv.cleared_eq {s : System} (h : Inv s) (hclears : s.task.clears = none) :
    s.cleared = finals Offer.frame settled s.offers := by
  simpa [System.clearing,hclears] using h.served.clears

theorem Inv.whole_offer {s : System} {id : Bool} {call : Call} (h : Inv s) (hc : CallOf s.bus id call)
    (ret : ℤ) : ∀ o ∈ s.offers ++ [⟨s.bus.rxBuf id,s.bus.rxCnt id,ret⟩],
      o.len = o.frame.data.length := by
  intro o ho
  rcases List.mem_append.mp ho with ho | ho
  · exact h.served.whole o ho
  · rw [List.mem_singleton.mp ho]
    exact h.buffers.count id hc.count

/-- After -ENOMEM the frame stays at the head of the queue. -/
theorem Inv.retry {s : System} {id : Bool} {call : Call} {len : ℕ} (h : Inv s)
    (htask : s.task = .recv call id len) :
    Inv { s with
      offers := s.offers ++ [⟨s.bus.rxBuf id,len,-ENOMEM⟩]
      task := call.next (-ENOMEM) } := by
  have hphase := h.phase
  rw [htask] at hphase
  rcases hphase with ⟨hc,rfl⟩
  have hclears : s.task.clears = none := by rw [htask]; rfl
  have hnext := call.next_clears (-ENOMEM)
  refine ⟨h.buffers,hc.next,?_,?_,?_,h.whole_offer hc _,?_,h.served.numbered⟩
  · intro b hb
    exact h.held b ⟨hb.1,by simp [hclears]⟩
  · intro b hb
    exact h.free b fun hs => hb ⟨hs.1,by simp [hnext]⟩
  · exact h.served.account.retry (h.queue_head hc hclears) rfl
  · simp only [System.clearing,hnext]
    rw [finals_append_retry rfl, ← h.cleared_eq hclears]
    exact List.append_nil _

/-- Any other answer takes the frame off the queue. -/
theorem Inv.answer {s : System} {id : Bool} {call : Call} {len : ℕ} {ret : ℤ} (h : Inv s)
    (htask : s.task = .recv call id len) (hret : ret ≠ -ENOMEM) :
    Inv { s with
      offers := s.offers ++ [⟨s.bus.rxBuf id,len,ret⟩]
      task := .clear call id ret
      unanswered := Function.update s.unanswered id none } := by
  have hphase := h.phase
  rw [htask] at hphase
  rcases hphase with ⟨hc,rfl⟩
  have hclears : s.task.clears = none := by rw [htask]; rfl
  have hsettled : settled ⟨s.bus.rxBuf id,s.bus.rxCnt id,ret⟩ = true := by
    simpa [settled] using hret
  refine ⟨h.buffers,⟨hc,hret⟩,?_,?_,?_,h.whole_offer hc _,?_,h.served.numbered⟩
  · intro b hb
    have hne : b ≠ id := fun he => hb.2 (by rw [he]; rfl)
    simp only [Function.update_of_ne hne]
    exact h.held b ⟨hb.1,by simp [hclears]⟩
  · intro b hb
    by_cases hbid : b = id
    · simp [hbid]
    · simp only [Function.update_of_ne hbid]
      refine h.free b fun hs => hb ⟨hs.1,?_⟩
      simpa [TaskPc.clears] using Ne.symm hbid
  · exact h.served.account.answer (h.queue_head hc hclears) hsettled
  · rw [finals_append_final hsettled, ← h.cleared_eq hclears]
    rfl

theorem Inv.replyStep {s t : System} {ret : ℤ} (h : Inv s) (ht : replyStep s ret = some t) :
    Inv t := by
  unfold SdioBus.replyStep at ht
  cases htask : s.task with
  | recv call id len =>
    simp only [htask] at ht
    by_cases hret : ret = -ENOMEM
    · subst hret
      cases ht
      exact h.retry htask
    · simp only [hret,↓reduceIte,Option.some.injEq] at ht
      subst ht
      exact h.answer htask hret
  | _ => simp [htask] at ht

/-- The length of an answered frame is cleared. -/
theorem Inv.clear {s : System} {id : Bool} {call : Call} {ret : ℤ} {n : ℕ} (h : Inv s)
    (htask : s.task = .clear call id ret) :
    Inv { s with
      bus := { s.bus with rxCnt := Function.update s.bus.rxCnt id 0, rxerr := n }
      cleared := s.cleared ++ [s.bus.rxBuf id]
      task := call.next ret } := by
  have hphase := h.phase
  rw [htask] at hphase
  rcases hphase with ⟨hc,hret⟩
  have hclears : s.task.clears = some id := by rw [htask]; rfl
  have hnext := call.next_clears ret
  have hne : ∀ b, Function.update s.bus.rxCnt id 0 b ≠ 0 → b ≠ id := by
    rintro b hb rfl
    simp at hb
  refine ⟨⟨h.buffers.armed,h.buffers.mirror,?_,?_⟩,hc.next_cleared hret,?_,?_,h.served.account,
    h.served.whole,?_,h.served.numbered⟩
  · intro hp
    have := h.buffers.free hp
    by_cases hcur : s.bus.curId = id
    · simp [hcur]
    · simpa [Function.update_of_ne hcur] using this
  · intro b hb
    have hb' := hne b hb
    simp only [Function.update_of_ne hb'] at hb ⊢
    exact h.buffers.count b hb
  · intro b hb
    have hb' := hne b hb.1
    have hcnt := hb.1
    simp only [Function.update_of_ne hb'] at hcnt
    refine h.held b ⟨hcnt,?_⟩
    simpa [hclears] using Ne.symm hb'
  · intro b hb
    by_cases hbid : b = id
    · exact h.free b fun hs => hs.2 (by rw [hclears,hbid])
    · refine h.free b fun hs => hb ⟨?_,by simp [hnext]⟩
      simpa only [Function.update_of_ne hbid] using hs.1
  · simp only [System.clearing,hnext]
    rw [← h.served.clears]
    simp [System.clearing,hclears]

/-- The last section of the loop moves on to the other buffer when it is free
and lets the host go on. -/
theorem Inv.finish {s : System} (h : Inv s) (htask : s.task = .finish) :
    Inv { s with bus := finishLoop s.bus, task := .down } := by
  have hclears : s.task.clears = none := by rw [htask]; rfl
  by_cases hmove : s.bus.pending = true ∧ s.bus.rxCnt (!s.bus.curId) = 0
  · rcases hmove with ⟨hpend,hother⟩
    have hnone : s.unanswered (!s.bus.curId) = none := h.free _ fun hh => hh.1 hother
    have heq : finishLoop s.bus = { s.bus with
        curId := !s.bus.curId, armed := !s.bus.curId, pending := false, userReg1 := false } := by
      simp [finishLoop,updateRxbuff,setBusy,sdioSlaveRead,hpend,hother]
    have hqueue : queueOf (!s.bus.curId) s.unanswered = s.queue := by
      simp [System.queue,queueOf,hnone]
    rw [heq]
    refine ⟨⟨rfl,rfl,fun _ => hother,h.buffers.count⟩,fun hp => by simp at hp,?_,?_,?_,
      h.served.whole,?_,h.served.numbered⟩
    · exact fun b hb => h.held b ⟨hb.1,by simp [hclears]⟩
    · exact fun b hb => h.free b fun hs => hb ⟨hs.1,by simp [TaskPc.clears]⟩
    · have := h.served.account
      rwa [← hqueue] at this
    · exact (List.append_nil _).trans (h.cleared_eq hclears)
  · have heq : finishLoop s.bus = s.bus := by
      unfold finishLoop updateRxbuff
      split
      · next hpend =>
        have hother : s.bus.rxCnt (!s.bus.curId) ≠ 0 := fun h0 => hmove ⟨hpend,h0⟩
        simp [hother]
      · rfl
    rw [heq]
    refine h.congr h.buffers ?_ rfl rfl rfl (by rw [hclears]; rfl) rfl
    exact fun hp h0 => hmove ⟨hp,h0⟩

theorem Inv.taskStep {s t : System} (h : Inv s) (ht : taskStep s = some t) : Inv t := by
  have hphase := h.phase
  unfold SdioBus.taskStep at ht
  cases htask : s.task with
  | down =>
    simp only [htask] at ht hphase
    split at ht
    · cases ht
      exact (h.sema _).congr (h.sema _).buffers hphase rfl rfl rfl (by rw [htask]; rfl) rfl
    · cases ht
  | snapshot =>
    simp only [htask] at ht
    cases ht
    exact h.congr h.buffers (h.snapshot htask) rfl rfl rfl (by rw [htask]; rfl) rfl
  | proc call id =>
    cases id with
    | none =>
      simp only [htask] at ht hphase
      cases ht
      have hnext : Phase s.bus (call.next 0) := by
        rcases hphase with rfl | rfl
        · exact Or.inr rfl
        · exact trivial
      exact h.congr h.buffers hnext rfl rfl rfl (by rw [htask]; exact call.next_clears 0) rfl
    | some id =>
      simp only [htask] at ht hphase
      cases ht
      exact h.congr h.buffers ⟨hphase,rfl⟩ rfl rfl rfl (by rw [htask]; rfl) rfl
  | recv call id len => simp [htask] at ht
  | clear call id ret =>
    simp only [htask] at ht
    cases ht
    exact h.clear htask
  | finish =>
    simp only [htask] at ht
    cases ht
    exact h.finish htask

theorem Inv.step {drvAggsize : UInt16} {s t : System} {a : Act} (h : Inv s)
    (hp : Permitted drvAggsize s a) (ht : step s a = some t) : Inv t := by
  cases a with
  | irqRx data => exact h.irqRx hp ht
  | irqReset =>
    cases ht
    exact h.irqReset
  | ioctl cmd =>
    cases ht
    exact h.ioctl cmd
  | task => exact h.taskStep ht
  | reply ret => exact h.replyStep ht

theorem start_inv : Inv start := by
  refine ⟨⟨rfl,rfl,fun _ => rfl,fun b hb => absurd rfl hb⟩,fun hp => by simp [start,attach] at hp,?_,
    fun _ _ => rfl,⟨Account.empty,by simp [start],rfl,rfl⟩⟩
  intro b hb
  exact absurd rfl hb.1

theorem inv_of_runs {drvAggsize : UInt16} {acts : List Act} {s : System}
    (h : Runs (guarded (Permitted drvAggsize) step) start acts s) : Inv s :=
  h.guarded_invariant (fun _ _ _ hi hp ht => hi.step hp ht) start_inv

/-- The buffer that a permitted transfer overwrites holds no unanswered frame,
offers follow the order of arrival and repeat a frame only after -ENOMEM, and the
cleared frames are the answered ones in that order, each once. -/
theorem buffered_in_order (drvAggsize : UInt16) (acts : List Act) (s : System)
    (h : Runs (guarded (Permitted drvAggsize) step) start acts s) :
    (∀ data, Permitted drvAggsize s (.irqRx data) → s.unanswered s.bus.armed = none) ∧
    InOrder Offer.frame settled s.arrived s.offers ∧
    (∀ o ∈ s.offers, o.len = o.frame.data.length) ∧
    s.cleared ++ s.clearing = finals Offer.frame settled s.offers ∧
    finals Offer.frame settled s.offers ++ s.queue = s.arrived ∧
    s.arrived.map Frame.seq = List.range s.arrived.length := by
  have hinv := inv_of_runs h
  refine ⟨?_,hinv.served.account.order,hinv.served.whole,hinv.served.clears,hinv.served.account.sum,
    hinv.served.numbered⟩
  intro data hp
  rw [hinv.buffers.armed]
  exact (hinv.unblocked hp.1).2.2

/-- Two frames fill both buffers, the first is retried after BUFFER_IDLE, then
both are taken and a third one follows. -/
def retrySchedule : List Act :=
  [.irqRx [1],.irqRx [2],.task,.task,.task,.reply (-ENOMEM),.ioctl MACBUS_IOCTL_BUFFER_IDLE,
    .task,.task,.task,.reply 0,.task,.task,.reply 0,.task,.task,.irqRx [3]]

theorem buffered_in_order_retry :
    ∃ s, Runs (guarded (Permitted 0) step) start retrySchedule s ∧
      s.offers.map (fun o => (o.frame.seq,o.ret)) = [(0,-12),(0,0),(1,0)] ∧
      s.cleared ++ s.clearing = finals Offer.frame settled s.offers := by
  refine Runs.exists_of_exec (fun s => s.offers.map fun o => (o.frame.seq,o.ret)) (v := [(0,-12),(0,0),(1,0)]) rfl ?_
  intro s hrun hoffers
  exact ⟨hoffers,(buffered_in_order 0 retrySchedule s hrun).2.2.2.1⟩

end FmacSdk.SdioBus
