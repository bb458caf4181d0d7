import FmacSdk.Driver.HgtimerV2

/-! # One-shot semantics of the timer driver

While no start runs inside the callback and no start of a task meets the old
period, the log of the timer is that of a one-shot timer and the hardware holds
what is owed.
-/
namespace FmacSdk.Hgtimer
open StatusReg OneShot Transition

/-- The counter is set but the old mode is still selected. -/
def StartPc.exposed : StartPc → Bool
  | .setPr | .readOff | .writeOff _ => true
  | _ => false

abbrev Untouched (task : Option Start) : Prop := ∀ c ∈ task, c.pc = .setCb

/-- The handler has read TMR_CON for the last time. -/
def Isr.deselecting : Isr → Bool
  | .writeMode _ => true
  | _ => false

/-- The steps by which no start is met halfway and none is undone: the timer does
not count while a start has set the counter but not yet stopped it, its interrupt
is not taken behind the first access of a start, no period ends between the last
two accesses of the handler, and no start succeeds inside the callback. -/
def Sys.Safe (mhz : BitVec 32) (s : Sys) : Label → Prop
  | .count => (∀ c ∈ s.task, c.pc.exposed = false) ∧
      (s.dev.hw.cnt = s.dev.hw.pr → ∀ i ∈ s.isr, i.deselecting = false)
  | .irq => Untouched s.task
  | .cbStart tmoUs => (startArgs s.dev.opened mhz tmoUs).isOk = false
  | _ => True

instance (mhz : BitVec 32) (s : Sys) : (l : Label) → Decidable (s.Safe mhz l)
  | .count => inferInstanceAs (Decidable (_ ∧ _))
  | .irq => inferInstanceAs (Decidable (Untouched s.task))
  | .cbStart _ => inferInstanceAs (Decidable (_ = false))
  | .taskStart _ | .taskStop | .taskGo | .cbStop | .isrGo => inferInstanceAs (Decidable True)

/-- What the log promises of the callbacks, and what comes next. -/
structure OneShotOK (mhz : BitVec 32) (s : Sys) : Prop where
  called : ∀ pre n post, s.log = pre ++ .call n :: post → ∃ p m, Started pre n p m ∧ p ≤ m
  answered : ∀ n p m, Started s.log n p m → ∃ t,
    exec (step mhz) s (List.replicate (p - m) .count ++ [.irq]) = some t ∧
      t.log = s.log ++ (List.replicate (p - m) .count ++ [.call n])

/-- What the hardware holds for a debt. -/
def Dev.Owes (d : Dev) : Debt → Prop
  | .none => ¬ d.hw.Counting ∧ ¬ (d.hw.con.flag = true ∧ d.hw.IntrEn)
  | .armed n k => d.cb = some n ∧ d.hw.Counting ∧ d.hw.IntrEn ∧ d.hw.con.flag = false ∧
      d.hw.cnt.toNat + k = d.hw.pr.toNat + 1 ∧ 0 < k
  | .due n => d.cb = some n ∧ d.hw.IntrEn ∧ d.hw.con.flag = true

/-- What a start has established by each of its accesses. -/
def Dev.Prepared (d : Dev) (c : Start) : StartPc → Prop
  | .setCb | .readEn | .writeEn _ => True
  | .zeroCnt => d.hw.IntrEn
  | .setPr => d.hw.IntrEn ∧ d.hw.cnt = 0
  | .readOff => d.hw.IntrEn ∧ d.hw.cnt = 0 ∧ d.hw.pr = c.pr
  | .writeOff v => v.getLsbD 13 = true ∧ d.hw.cnt = 0 ∧ d.hw.pr = c.pr
  | .readOn => d.hw.IntrEn ∧ d.hw.cnt = 0 ∧ d.hw.pr = c.pr ∧ ¬ d.hw.Counting
  | .writeOn v => v.getLsbD 13 = true ∧ d.hw.cnt = 0 ∧ d.hw.pr = c.pr ∧ ¬ d.hw.Counting

/-- The debt by what runs: nothing is owed from the second access of a start on
and while the handler runs. -/
def Sys.Holds (s : Sys) (d : Debt) : Prop :=
  match s.isr with
  | none => (Untouched s.task ∧ s.dev.Owes d) ∨
      ∃ c, s.task = some c ∧ c.pc ≠ .setCb ∧ d = .none ∧ s.dev.cb = some c.n ∧ s.dev.Prepared c c.pc
  | some (.callback inner) => d = .none ∧ Untouched s.task ∧ inner = none
  | some (.writeMode v) => d = .none ∧ Untouched s.task ∧ v.getLsbD 15 = s.dev.hw.con.flag
  | some _ => d = .none ∧ Untouched s.task

structure Inv (s : Sys) (d : Debt) : Prop where
  opened : s.dev.opened = true
  once : s.dev.mode = .once
  replay : replay .none s.log = some d
  holds : s.Holds d

section Registers
variable {d : Dev} {v : BitVec 32}

theorem writeCon_en : (d.writeCon (v ||| HGTIMER_V2_CON_TMR_INTR_EN)).hw.IntrEn := by
  show (d.hw.con.write _).ctl.getLsbD 13 = true
  rw [FlagReg.write_getLsbD_of_ne _ _ (by decide),BitVec.getLsbD_or]
  simp [HGTIMER_V2_CON_TMR_INTR_EN]

theorem writeCon_not_counting {m : BitVec 32}
    (hm : ~~~ m &&& ~~~ mask 32 15 &&& HGTIMER_V2_CON_MODE_DIS_MASK = 0) :
    ¬ (d.writeCon (v &&& ~~~ m)).hw.Counting := by
  rw [not_not]
  show v &&& ~~~ m &&& ~~~ mask 32 15 &&& HGTIMER_V2_CON_MODE_DIS_MASK = 0
  rw [BitVec.and_assoc,BitVec.and_assoc,← BitVec.and_assoc (~~~ m),hm]
  exact BitVec.and_zero

theorem writeCon_off_en (hv : v.getLsbD 13 = true) : (d.writeCon (v &&& ~~~ startOff)).hw.IntrEn := by
  show (d.hw.con.write _).ctl.getLsbD 13 = true
  rw [FlagReg.write_getLsbD_of_ne _ _ (by decide),BitVec.getLsbD_and,hv]
  decide

theorem writeCon_modeOff_flag (hv : v.getLsbD 15 = d.hw.con.flag) :
    (d.writeCon (v &&& ~~~ HGTIMER_V2_CON_MODE_DIS_MASK)).hw.con.flag = false := by
  have hbit : (~~~ HGTIMER_V2_CON_MODE_DIS_MASK).getLsbD 15 = true := by decide
  show (d.hw.con.flag && !(v &&& ~~~ HGTIMER_V2_CON_MODE_DIS_MASK).getLsbD 15) = false
  rw [BitVec.getLsbD_and,hbit,hv]
  cases d.hw.con.flag <;> rfl

/-- The last write of a start clears the flag and selects the counter mode. -/
theorem writeCon_on (psc : BitVec 3) (hv : v.getLsbD 13 = true) :
    (d.writeCon (v ||| startOn psc)).hw.IntrEn ∧ (d.writeCon (v ||| startOn psc)).hw.Counting ∧
      (d.writeCon (v ||| startOn psc)).hw.con.flag = false := by
  have hbits : (startOn psc).getLsbD 4 = true ∧ (startOn psc).getLsbD 15 = true := by
    revert psc
    decide
  have hmode : (d.writeCon (v ||| startOn psc)).hw.con.ctl.getLsbD 4 = true := by
    show (d.hw.con.write _).ctl.getLsbD 4 = true
    rw [FlagReg.write_getLsbD_of_ne _ _ (by decide),BitVec.getLsbD_or,hbits.1,Bool.or_true]
  refine ⟨?_,fun h => ?_,?_⟩
  · show (d.hw.con.write _).ctl.getLsbD 13 = true
    rw [FlagReg.write_getLsbD_of_ne _ _ (by decide),BitVec.getLsbD_or,hv,Bool.true_or]
  · have hbit := congrArg (fun x => x.getLsbD 4) h
    have hmask : HGTIMER_V2_CON_MODE_DIS_MASK.getLsbD 4 = true := by decide
    rw [BitVec.getLsbD_and,hmode,hmask] at hbit
    simp at hbit
  · show (d.hw.con.flag && !(v ||| startOn psc).getLsbD 15) = false
    rw [BitVec.getLsbD_or,hbits.2,Bool.or_true,Bool.not_true,Bool.and_false]

theorem stop_owes : d.stop.Owes .none := by
  have hctl : d.stop.hw.con.ctl = 0 := BitVec.zero_and
  constructor
  · rw [Hw.Counting,hctl]
    decide
  · rintro ⟨-,hen⟩
    rw [Hw.IntrEn,hctl] at hen
    exact absurd hen (by decide)

theorem count_ctl (hw : Hw) : hw.count.con.ctl = hw.con.ctl := by
  unfold Hw.count
  split <;> rfl

theorem count_flag_of_ne {hw : Hw} (h : hw.cnt ≠ hw.pr) : hw.count.con.flag = hw.con.flag := by
  rw [Hw.count_of_ne h]

end Registers

variable {mhz : BitVec 32} {s t : Sys} {d : Debt}

/-- One count pays one off. -/
theorem Owes.count {dev : Dev} (h : dev.Owes d) (hrun : dev.hw.Counting) :
    ∃ d', d.step .count = some d' ∧ (dev.setHw dev.hw.count).Owes d' := by
  cases d with
  | none => exact absurd hrun h.1
  | armed n k =>
    obtain ⟨hcb,-,hen,hflag,hleft,hk⟩ := h
    refine ⟨_,rfl,?_⟩
    by_cases hover : dev.hw.cnt = dev.hw.pr
    · have hk1 : k - 1 = 0 := by rw [hover] at hleft; omega
      rw [hk1,Hw.count_of_eq hover]
      exact ⟨hcb,hen,rfl⟩
    · have hk1 : ¬ k - 1 = 0 := by bv_omega
      rw [owe,if_neg hk1,Hw.count_of_ne hover]
      refine ⟨hcb,hrun,hen,hflag,?_,by omega⟩
      show (dev.hw.cnt + 1).toNat + (k - 1) = dev.hw.pr.toNat + 1
      bv_omega
  | due n =>
    obtain ⟨hcb,hen,hflag⟩ := h
    refine ⟨_,rfl,hcb,?_,?_⟩
    · rw [Hw.IntrEn,Dev.setHw,count_ctl]
      exact hen
    · show dev.hw.count.con.flag = true
      unfold Hw.count
      split
      · rfl
      · exact hflag

/-- A count that meets no start halfway keeps what the start has prepared. -/
theorem Prepared.count {dev : Dev} {c : Start} {pc : StartPc} (h : dev.Prepared c pc) (hexposed : pc.exposed = false)
    (hrun : dev.hw.Counting) : (dev.setHw dev.hw.count).Prepared c pc := by
  cases pc with
  | setCb | readEn | writeEn v => trivial
  | zeroCnt =>
    show (dev.hw.count).con.ctl.getLsbD 13 = true
    rw [count_ctl]
    exact h
  | setPr | readOff | writeOff v => simp [StartPc.exposed] at hexposed
  | readOn | writeOn v => exact absurd hrun h.2.2.2

theorem Inv.count (h : Inv s d) (hsafe : s.Safe mhz .count) (hstep : step mhz s .count = some t) :
    ∃ d', d.step .count = some d' ∧ Inv t d' := by
  simp only [step] at hstep
  split at hstep
  · next hrun =>
    obtain rfl := Option.some.inj hstep
    have hholds := h.holds
    have hreplay (d' : Debt) (hd : d.step .count = some d') :
        OneShot.replay .none (s.log ++ [.count]) = some d' := (replay_concat h.replay _).trans hd
    cases hisr : s.isr with
    | none =>
      simp only [Sys.Holds,hisr] at hholds
      rcases hholds with ⟨htask,howes⟩ | ⟨c,htask,hpc,rfl,hcb,hprep⟩
      · obtain ⟨d',hd,howes'⟩ := Owes.count howes hrun
        refine ⟨d',hd,h.opened,h.once,hreplay d' hd,?_⟩
        exact Or.inl ⟨htask,howes'⟩
      · refine ⟨.none,rfl,h.opened,h.once,hreplay .none rfl,?_⟩
        have hexposed := hsafe.1 c htask
        exact Or.inr ⟨c,htask,hpc,rfl,hcb,Prepared.count hprep hexposed hrun⟩
    | some i =>
      simp only [Sys.Holds,hisr] at hholds
      cases i with
      | callback inner =>
        obtain ⟨rfl,htask,hinner⟩ := hholds
        refine ⟨.none,rfl,h.opened,h.once,hreplay .none rfl,?_⟩
        exact ⟨rfl,htask,hinner⟩
      | writeMode v =>
        obtain ⟨rfl,htask,hv⟩ := hholds
        refine ⟨.none,rfl,h.opened,h.once,hreplay .none rfl,?_⟩
        refine ⟨rfl,htask,?_⟩
        show v.getLsbD 15 = s.dev.hw.count.con.flag
        rw [count_flag_of_ne fun he => absurd (hsafe.2 he _ hisr) (by simp [Isr.deselecting])]
        exact hv
      | readPng | writePng v | readMode =>
        obtain ⟨rfl,htask⟩ := hholds
        refine ⟨.none,rfl,h.opened,h.once,hreplay .none rfl,?_⟩
        exact ⟨rfl,htask⟩
  · simp at hstep

/-- A call is only made where it is due. -/
theorem Inv.irq (h : Inv s d) (hsafe : Untouched s.task) (hstep : step mhz s .irq = some t) :
    ∃ n, d = .due n ∧ Inv t .none ∧ t.log = s.log ++ [.call n] := by
  simp only [step] at hstep
  split at hstep
  · next hentry =>
    have hholds := h.holds
    simp only [Sys.Holds,hentry.1] at hholds
    rcases hholds with ⟨htask,howes⟩ | ⟨c,htask,hpc,-⟩
    · cases d with
      | none => exact absurd hentry.2 howes.2
      | armed n k =>
        have hflag := howes.2.2.2.1
        simp [hentry.2.1] at hflag
      | due n =>
        rw [howes.1] at hstep
        obtain rfl := Option.some.inj hstep
        exact ⟨n,rfl,⟨h.opened,h.once,(replay_concat h.replay _).trans (by simp [Debt.step]),
          rfl,htask,rfl⟩,rfl⟩
    · exact absurd (hsafe c htask) hpc
  · simp at hstep

theorem Inv.taskStart (h : Inv s d) {tmoUs : BitVec 32}
    (hstep : step mhz s (.taskStart tmoUs) = some t) : Inv t d := by
  simp only [step] at hstep
  split at hstep
  · next hidle =>
    have hholds := h.holds
    simp only [Sys.Holds,hidle.1,hidle.2] at hholds
    cases hargs : startArgs s.dev.opened mhz tmoUs with
    | error e =>
      rw [hargs] at hstep
      obtain rfl := Option.some.inj hstep
      exact h
    | ok args =>
      rw [hargs] at hstep
      obtain rfl := Option.some.inj hstep
      refine ⟨h.opened,h.once,h.replay,?_⟩
      simp only [Sys.Holds,hidle.1]
      rcases hholds with ⟨-,howes⟩ | ⟨c,htask,-⟩
      · exact Or.inl ⟨fun c hc => by obtain rfl := Option.mem_some.mp hc; rfl,howes⟩
      · exact absurd htask (by simp)
  · simp at hstep

theorem Inv.taskStop (h : Inv s d) (hstep : step mhz s .taskStop = some t) : Inv t .none := by
  simp only [step] at hstep
  split at hstep
  · next hidle =>
    obtain rfl := Option.some.inj hstep
    refine ⟨h.opened,h.once,(replay_concat h.replay _).trans (by cases d <;> rfl),?_⟩
    simp only [Sys.Holds,hidle.1,hidle.2]
    exact Or.inl ⟨by simp [Untouched],stop_owes⟩
  · simp at hstep

theorem Inv.cbStop (h : Inv s d) (hstep : step mhz s .cbStop = some t) : Inv t .none := by
  simp only [step] at hstep
  split at hstep
  · next hcall =>
    obtain rfl := Option.some.inj hstep
    have hholds := h.holds
    simp only [Sys.Holds,hcall] at hholds
    refine ⟨h.opened,h.once,(replay_concat h.replay _).trans (by cases d <;> rfl),?_⟩
    simpa [Sys.Holds,hcall] using hholds.2.1
  · simp at hstep

theorem Inv.cbStart (h : Inv s d) {tmoUs : BitVec 32}
    (hsafe : (startArgs s.dev.opened mhz tmoUs).isOk = false)
    (hstep : step mhz s (.cbStart tmoUs) = some t) : Inv t d := by
  simp only [step] at hstep
  split at hstep
  · cases hargs : startArgs s.dev.opened mhz tmoUs with
    | error e =>
      rw [hargs] at hstep
      obtain rfl := Option.some.inj hstep
      exact h
    | ok args =>
      rw [hargs] at hsafe
      exact absurd hsafe (by simp [Except.isOk,Except.toBool])
  · simp at hstep

theorem read_en {dev : Dev} (h : dev.hw.IntrEn) : dev.hw.con.read.getLsbD 13 = true := by
  rw [FlagReg.read_getLsbD_of_ne _ (by decide)]
  exact h

/-- A start drops what was owed at its first access and owes its own period at
its last one. -/
theorem Start.go_holds {c : Start} {dev : Dev} {r : Dev × List Event × Option Start}
    (hgo : c.go dev = r) (hopened : dev.opened = true) (honce : dev.mode = .once)
    (hholds : c.pc = .setCb ∨ d = .none ∧ dev.cb = some c.n ∧ dev.Prepared c c.pc) :
    r.1.opened = true ∧ r.1.mode = .once ∧ ∃ d', OneShot.replay d r.2.1 = some d' ∧
      match r.2.2 with
      | none => r.1.Owes d'
      | some c' => c'.pc ≠ .setCb ∧ d' = .none ∧ r.1.cb = some c'.n ∧ r.1.Prepared c' c'.pc := by
  subst hgo
  cases hc : c.pc with
  | setCb =>
    simp only [Start.go,hc]
    refine ⟨hopened,honce,.none,by cases d <;> rfl,?_⟩
    exact ⟨by simp,rfl,trivial,trivial⟩
  | readEn =>
    rw [hc] at hholds
    obtain ⟨rfl,hcb,-⟩ := hholds.resolve_left (by simp)
    simp only [Start.go,hc]
    exact ⟨hopened,honce,.none,rfl,by simp,rfl,hcb,trivial⟩
  | writeEn v =>
    rw [hc] at hholds
    obtain ⟨rfl,hcb,-⟩ := hholds.resolve_left (by simp)
    simp only [Start.go,hc]
    exact ⟨hopened,honce,.none,rfl,by simp,rfl,hcb,writeCon_en⟩
  | zeroCnt =>
    rw [hc] at hholds
    obtain ⟨rfl,hcb,hen⟩ := hholds.resolve_left (by simp)
    simp only [Start.go,hc]
    exact ⟨hopened,honce,.none,rfl,by simp,rfl,hcb,hen,rfl⟩
  | setPr =>
    rw [hc] at hholds
    obtain ⟨rfl,hcb,hen,hcnt⟩ := hholds.resolve_left (by simp)
    simp only [Start.go,hc]
    exact ⟨hopened,honce,.none,rfl,by simp,rfl,hcb,hen,hcnt,rfl⟩
  | readOff | readOn =>
    rw [hc] at hholds
    obtain ⟨rfl,hcb,hen,hset⟩ := hholds.resolve_left (by simp)
    simp only [Start.go,hc]
    exact ⟨hopened,honce,.none,rfl,by simp,rfl,hcb,read_en hen,hset⟩
  | writeOff v =>
    rw [hc] at hholds
    obtain ⟨rfl,hcb,hen,hcnt,hpr⟩ := hholds.resolve_left (by simp)
    simp only [Start.go,hc]
    exact ⟨hopened,honce,.none,rfl,by simp,rfl,hcb,writeCon_off_en hen,hcnt,hpr,
      writeCon_not_counting (by decide)⟩
  | writeOn v =>
    rw [hc] at hholds
    obtain ⟨rfl,hcb,hen,hcnt,hpr,-⟩ := hholds.resolve_left (by simp)
    simp only [Start.go,hc]
    obtain ⟨hen',hrun,hflag⟩ := writeCon_on (d := dev) c.psc hen
    refine ⟨hopened,honce,owe c.n (c.pr.toNat + 1),rfl,?_⟩
    rw [owe,if_neg (Nat.succ_ne_zero _)]
    refine ⟨hcb,hrun,hen',hflag,?_,Nat.succ_pos _⟩
    show dev.hw.cnt.toNat + (c.pr.toNat + 1) = dev.hw.pr.toNat + 1
    rw [hcnt,hpr]
    simp

theorem Inv.taskGo (h : Inv s d) (hstep : step mhz s .taskGo = some t) : ∃ d', Inv t d' := by
  simp only [step] at hstep
  split at hstep
  · next hidle =>
    obtain ⟨c,htask,rfl⟩ := Option.map_eq_some_iff.mp hstep
    have hholds := h.holds
    simp only [Sys.Holds,hidle] at hholds
    have hc : c.pc = .setCb ∨ d = .none ∧ s.dev.cb = some c.n ∧ s.dev.Prepared c c.pc := by
      rcases hholds with ⟨huntouched,-⟩ | ⟨c',htask',-,hrest⟩
      · exact Or.inl (huntouched c htask)
      · obtain rfl : c' = c := Option.some.inj (htask'.symm.trans htask)
        exact Or.inr hrest
    obtain ⟨hopened,honce,d',hd,hnext⟩ := Start.go_holds rfl h.opened h.once hc
    refine ⟨d',hopened,honce,?_,?_⟩
    · show OneShot.replay .none (s.log ++ _) = some d'
      rw [replay_append,h.replay]
      exact hd
    · simp only [Sys.Holds,hidle]
      cases hrest : (c.go s.dev).2.2 with
      | none =>
        rw [hrest] at hnext
        exact Or.inl ⟨by simp [Untouched],hnext⟩
      | some c' =>
        rw [hrest] at hnext
        exact Or.inr ⟨c',rfl,hnext⟩
  · simp at hstep

/-- Behind the callback the handler clears the flag and deselects the mode. -/
theorem Inv.isrGo (h : Inv s d) (hstep : step mhz s .isrGo = some t) : Inv t d := by
  obtain ⟨i,hisr,rfl⟩ := Option.map_eq_some_iff.mp hstep
  have hholds := h.holds
  simp only [Sys.Holds,hisr] at hholds
  cases i with
  | callback inner =>
    obtain ⟨rfl,htask,rfl⟩ := hholds
    exact ⟨h.opened,h.once,h.replay,rfl,htask⟩
  | readPng =>
    obtain ⟨rfl,htask⟩ := hholds
    exact ⟨h.opened,h.once,h.replay,rfl,htask⟩
  | writePng v =>
    obtain ⟨rfl,htask⟩ := hholds
    refine ⟨h.opened,h.once,h.replay,?_⟩
    simp only [Sys.isrGo,Sys.Holds,if_pos h.once]
    exact ⟨trivial,htask⟩
  | readMode =>
    obtain ⟨rfl,htask⟩ := hholds
    exact ⟨h.opened,h.once,h.replay,rfl,htask,FlagReg.read_getLsbD (by decide) _⟩
  | writeMode v =>
    obtain ⟨rfl,htask,hv⟩ := hholds
    have hclear := writeCon_modeOff_flag hv
    exact ⟨h.opened,h.once,h.replay,Or.inl ⟨htask,writeCon_not_counting (by decide),
      fun hf => Bool.false_ne_true (hclear.symm.trans hf.1)⟩⟩

theorem Inv.step (h : Inv s d) {l : Label} (hsafe : s.Safe mhz l) (hstep : step mhz s l = some t) :
    ∃ d', Inv t d' := by
  cases l with
  | count => exact (h.count hsafe hstep).imp fun _ hd => hd.2
  | taskStart tmoUs => exact ⟨d,h.taskStart hstep⟩
  | taskStop => exact ⟨.none,h.taskStop hstep⟩
  | taskGo => exact h.taskGo hstep
  | irq => exact ⟨.none,(h.irq hsafe hstep).choose_spec.2.1⟩
  | cbStart tmoUs => exact ⟨d,h.cbStart hsafe hstep⟩
  | cbStop => exact ⟨.none,h.cbStop hstep⟩
  | isrGo => exact ⟨d,h.isrGo hstep⟩

/-- Only a timer at rest owes anything. -/
theorem Inv.owed (h : Inv s d) (hd : d ≠ .none) :
    s.isr = none ∧ Untouched s.task ∧ s.dev.Owes d := by
  have hholds := h.holds
  cases hisr : s.isr with
  | none =>
    simp only [Sys.Holds,hisr] at hholds
    rcases hholds with hquiet | ⟨c,-,-,hnone,-⟩
    · exact ⟨rfl,hquiet⟩
    · exact absurd hnone hd
  | some i =>
    simp only [Sys.Holds,hisr] at hholds
    cases i <;> exact absurd hholds.1 hd

/-- A debt is paid by its counts and one entry of the handler. -/
theorem Inv.answer {n k : ℕ} (h : Inv s (owe n k)) : ∃ t,
    exec (Hgtimer.step mhz) s (List.replicate k .count ++ [.irq]) = some t ∧
      t.log = s.log ++ (List.replicate k .count ++ [.call n]) := by
  induction k generalizing s with
  | zero =>
    obtain ⟨hisr,-,hcb,hen,hflag⟩ := h.owed (by simp [owe])
    have hirq : Hgtimer.step mhz s .irq =
        some { s with isr := some (.callback none), log := s.log ++ [.call n] } := by
      have hentry : s.isr = none ∧ s.dev.hw.con.flag = true ∧ s.dev.hw.IntrEn := ⟨hisr,hflag,hen⟩
      simp only [Hgtimer.step]
      rw [if_pos hentry,hcb]
    exact ⟨_,by simpa using hirq,rfl⟩
  | succ k ih =>
    obtain ⟨hisr,htask,-,hrun,-⟩ := h.owed (d := owe n (k + 1)) (by simp [owe])
    have hcount : Hgtimer.step mhz s .count =
        some { s with dev := s.dev.setHw s.dev.hw.count, log := s.log ++ [.count] } := if_pos hrun
    have hsafe : s.Safe mhz .count := by
      refine ⟨fun c hc => ?_,fun _ => by simp [hisr]⟩
      rw [htask c hc]
      rfl
    obtain ⟨d',hd,hinv⟩ := h.count hsafe hcount
    obtain rfl : owe n k = d' := by simpa [owe_count] using hd
    obtain ⟨t,ht,hlog⟩ := ih hinv
    refine ⟨t,?_,?_⟩
    · rw [List.replicate_succ,List.cons_append,exec_cons,hcount]
      exact ht
    · rw [hlog]
      simp [List.replicate_succ]

theorem Inv.oneShotOK (h : Inv s d) : OneShotOK mhz s := by
  have hsome : (OneShot.replay .none s.log).isSome := by rw [h.replay]; rfl
  refine ⟨fun pre n post hlog => call_started hsome hlog,fun n p m hstarted => ?_⟩
  obtain rfl : d = owe n (p - m) := by
    have := h.replay.symm.trans (replay_started hsome hstarted)
    simpa using this
  exact h.answer

theorem opened_inv (flag : Bool) (cnt pr : BitVec 16) : Inv (opened flag cnt pr) .none := by
  refine ⟨rfl,rfl,rfl,Or.inl ⟨by simp [Untouched,opened],?_,?_⟩⟩
  · simp [Hw.Counting,opened]
  · simp [Hw.IntrEn,opened]

/-- In every run without such a step each callback is behind its start and a
period of counts, and what a start still owes is paid by its counts and the next
entry of the handler. -/
theorem oneShot_along {flag : Bool} {cnt pr : BitVec 16}
    {ls : List Label} (h : Runs (guarded (fun s : Sys => s.Safe mhz) (step mhz)) (opened flag cnt pr) ls s) :
    OneShotOK mhz s := by
  have hinv : ∃ d, Inv s d := h.guarded_invariant (I := fun s => ∃ d, Inv s d)
    (fun _ _ _ hi hg hs => hi.choose_spec.step hg hs) ⟨_,opened_inv flag cnt pr⟩
  exact hinv.choose_spec.oneShotOK

/-- A start of two ticks, made and answered. -/
def startedTwo : List Label :=
  .taskStart 2 :: List.replicate 9 .taskGo ++ [.count,.count,.irq]

theorem oneShot_along_two : ∃ s, Runs (guarded (fun s : Sys => s.Safe 1) (step 1))
    (opened false 0 0) (startedTwo ++ List.replicate 5 .isrGo) s ∧ OneShotOK 1 s := by
  obtain ⟨s,hs⟩ : ∃ s, exec (guarded (fun s : Sys => s.Safe 1) (step 1)) (opened false 0 0)
      (startedTwo ++ List.replicate 5 .isrGo) = some s := ⟨_,rfl⟩
  exact ⟨s,Runs.of_exec hs,oneShot_along (Runs.of_exec hs)⟩

def restart : List Label := startedTwo ++ .cbStart 2 :: List.replicate 14 .isrGo

/-- A start inside the callback is undone by the handler behind it. -/
theorem restart_cancelled : ∃ s, Runs (step 1) (opened false 0 0) restart s ∧
    s.isr = none ∧ ¬ OneShotOK 1 s := by
  obtain ⟨s,hs⟩ : ∃ s, exec (step 1) (opened false 0 0) restart = some s := ⟨_,rfl⟩
  have hisr : (exec (step 1) (opened false 0 0) restart).map Sys.isr = some none := by decide
  have hlog : (exec (step 1) (opened false 0 0) restart).map Sys.log =
      some ([.drop,.start 0 2,.count,.count,.call 0,.drop] ++ [.start 1 2]) := by decide
  rw [hs] at hisr hlog
  refine ⟨s,Runs.of_exec hs,Option.some.inj hisr,fun h => ?_⟩
  obtain ⟨t,ht,-⟩ := h.answered 1 2 0 ⟨_,Option.some.inj hlog⟩
  have hblocked : exec (step 1) (opened false 0 0) (restart ++ [.count,.count,.irq]) = none :=
    Option.isNone_iff_eq_none.mp (by decide)
  rw [exec_append,hs] at hblocked
  exact absurd (ht.symm.trans hblocked) (by simp)

end FmacSdk.Hgtimer
