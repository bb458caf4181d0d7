import FmacSdk.Driver.HgCrcHold

/-! # The CRC engine asleep

hg_crc_suspend and hg_crc_resume beside hg_crc_calc and hg_crc_hold. The blocks that
hold the saved registers are numbered as they are allocated; the registers keep
nothing while the clock is closed.
-/
namespace FmacSdk.HgCrcSleep
open HgCrc Transition
open HgCrcHold (Calc)
variable {ι : Type*}

def BIT (n : BitVec 32) : BitVec 32 := (1 : BitVec 32) <<< n

/-- What a suspend changes. -/
structure Snapshot (ι : Type*) where
  hold : Option ι
  irq : Bool
  flags : BitVec 32
  regs : Option ℕ
  hw : Regs

/-- The next statement of hg_crc_suspend or hg_crc_resume, with what was before the mutex was
locked, and whether the registers were restored. -/
inductive Pc (ι : Type*)
  | out
  | suspLock
  | suspIrq (before : Snapshot ι)
  | suspFlags (before : Snapshot ι)
  | suspMalloc (before : Snapshot ι)
  | suspSave (before : Snapshot ι)
  | resTest
  | resUnlock
  | resRestore
  | resFlags
  | resIrq
  | resIf (restored : Bool)
  | resFree
  | resNull

/-- A suspend returns an error, or a resume that follows a successful one returns. -/
inductive Event (ι : Type*)
  | failed (before after : Snapshot ι)
  | resumed (before after : Snapshot ι)

/-- With the blocks that were allocated and freed, and what was before the last successful suspend
until a resume has followed it. -/
structure Sys (ι : Type*) where
  crc : HgCrcHold.Sys ι
  irq : Bool
  clk : Bool
  hw : Regs
  regs : Option ℕ
  saved : ℕ → Regs
  blocks : ℕ
  freed : List ℕ
  pc : ι → Pc ι
  asleep : Option (Snapshot ι)
  log : List (Event ι)

/-- A step of hg_crc_calc or hg_crc_hold, with what is in CRC_OUT; a call, a statement, a time-out
of os_mutex_lock, an os_malloc that fails, and what the registers become without a clock. -/
inductive Label (ι : Type*)
  | crc (l : HgCrcHold.Label ι) (out : BitVec 32)
  | suspend (i : ι)
  | resume (i : ι)
  | go (i : ι)
  | timeout (i : ι)
  | noMem (i : ι)
  | lose (hw : Regs)

def task : HgCrcHold.Label ι → ι
  | .crcCalc i .. | .crcHold i .. | .crcUnhold i .. | .go i | .lock i | .timeout i | .set i _ | .done i _ => i

def Pc.isOut : Pc ι → Bool
  | .out => true
  | _ => false

def calcIsOut : HgCrcHold.Pc → Bool
  | .out _ => true
  | _ => false

/-- What a calculation writes to the registers. -/
def programmed (c : Calc) (hw : Regs) (out : BitVec 32) : Regs :=
  if c.cont then hw.continued out c.req
  else match c.req.config with
    | .ok cfg => cfg.regs c.req
    | .error _ => hw

def Sys.now (s : Sys ι) : Snapshot ι := ⟨s.crc.hold,s.irq,s.crc.dev.flags,s.regs,s.hw⟩

section Code
variable [DecidableEq ι]

def Sys.at (s : Sys ι) (i : ι) (p : Pc ι) : Sys ι := { s with pc := Function.update s.pc i p }

def Sys.setHold (s : Sys ι) (hold : Option ι) : Sys ι := { s with crc := { s.crc with hold := hold } }

def Sys.setFlags (s : Sys ι) (flags : BitVec 32) : Sys ι := { s with crc := { s.crc with dev := ⟨flags,s.crc.dev.cookie⟩ } }

def Sys.record (s : Sys ι) (e : Event ι) : Sys ι := { s with log := e :: s.log }

/-- The return of a resume, which ends the sleep if it is done. -/
def Sys.resumed (s : Sys ι) (done : Bool) : Sys ι :=
  match s.asleep with
  | some before => { s.record (.resumed before s.now) with asleep := if done then none else s.asleep }
  | none => s

def Sys.go (s : Sys ι) (i : ι) : Pc ι → Option (Sys ι)
  | .suspLock => if s.crc.hold = none then some ((s.setHold (some i)).at i (.suspIrq s.now)) else none
  | .suspIrq b => some ({ s with irq := false }.at i (.suspFlags b))
  | .suspFlags b => some ((s.setFlags (BIT HGCRC_FLAGS_SUSPEND)).at i (.suspMalloc b))
  | .suspMalloc b => some ({ s with regs := some s.blocks, blocks := s.blocks + 1 }.at i (.suspSave b))
  | .suspSave b =>
    let saved := match s.regs with
      | some r => Function.update s.saved r s.hw
      | none => s.saved
    some ({ s with saved := saved, clk := false, asleep := some { b with hw := s.hw } }.at i .out)
  | .resTest =>
    some (s.at i (if s.crc.dev.flags &&& BIT HGCRC_FLAGS_SUSPEND ≠ 0 ∧ s.regs ≠ none then .resUnlock else .resIf false))
  | .resUnlock =>
    if s.crc.hold = some i then some ((s.setHold none).at i .resRestore)
    else some ((s.resumed false).at i .out)
  | .resRestore =>
    let hw := match s.regs with
      | some r => s.saved r
      | none => s.hw
    some ({ s with clk := true, hw := hw }.at i .resFlags)
  | .resFlags => some ((s.setFlags (s.crc.dev.flags &&& ~~~BIT HGCRC_FLAGS_SUSPEND)).at i .resIrq)
  | .resIrq => some ({ s with irq := true }.at i (.resIf true))
  | .resIf _ => some (if s.regs ≠ none then s.at i .resFree else (s.resumed true).at i .out)
  | .resFree =>
    let freed := match s.regs with
      | some r => r :: s.freed
      | none => s.freed
    some ({ s with freed := freed }.at i .resNull)
  | .resNull => some ((Sys.resumed { s with regs := none } true).at i .out)
  | .out => none

/-- The registers after a step of hg_crc_calc or hg_crc_hold. -/
def Sys.written (s : Sys ι) (out : BitVec 32) : HgCrcHold.Label ι → Regs
  | .go i => match s.crc.pc i with
    | .program c => programmed c s.hw out
    | _ => s.hw
  | _ => s.hw

def step (s : Sys ι) : Label ι → Option (Sys ι)
  | .crc l out =>
    if (s.pc (task l)).isOut then
      (HgCrcHold.step s.crc l).map fun crc => { s with crc := crc, hw := s.written out l }
    else none
  | .suspend i => if (s.pc i).isOut ∧ calcIsOut (s.crc.pc i) then some (s.at i .suspLock) else none
  | .resume i => if (s.pc i).isOut ∧ calcIsOut (s.crc.pc i) then some (s.at i .resTest) else none
  | .go i => s.go i (s.pc i)
  | .timeout i => match s.pc i with
    | .suspLock => some ((s.record (.failed s.now s.now)).at i .out)
    | _ => none
  | .noMem i => match s.pc i with
    | .suspMalloc b =>
      let t := { s with regs := none }
      some ((t.record (.failed b t.now)).at i .out)
    | _ => none
  | .lose hw => if s.clk = false then some { s with hw := hw } else none

end Code

/-- hg_crc_attach, with what the registers have. -/
def attached (hw : Regs) : Sys ι :=
  ⟨HgCrcHold.attached,true,true,hw,none,fun _ => hw,0,[],fun _ => .out,none,[]⟩

/-- The statements that write and read the block of the saved registers. -/
def Pc.uses : Pc ι → Bool
  | .suspSave _ | .resRestore => true
  | _ => false

/-- What sleep is for: a suspend that fails leaves all as it was, a resume restores what the
suspend before it found, nothing is calculated in between, and no block is freed twice or used
after that. -/
structure Sys.Sound (s : Sys ι) : Prop where
  failed : ∀ b a, .failed b a ∈ s.log → a.hold = b.hold ∧ a.irq = b.irq ∧ a.flags = b.flags ∧ a.regs = b.regs
  resumed : ∀ b a, .resumed b a ∈ s.log → a.hw = b.hw ∧ a.irq = b.irq ∧ a.flags = b.flags ∧ a.hold = b.hold
  idle : s.asleep ≠ none → ∀ i, (s.crc.pc i).atWork = none
  once : s.freed.Nodup
  live : ∀ i, (s.pc i).uses = true → ∀ r ∈ s.regs, r ∉ s.freed

/-- A call has passed hg_crc_hold or has the mutex. -/
def past : HgCrcHold.Pc → Bool
  | .set _ | .program _ | .wait _ | .release .. => true
  | _ => false

/-- A suspend has the mutex. -/
def Pc.suspends : Pc ι → Bool
  | .suspIrq _ | .suspFlags _ | .suspMalloc _ | .suspSave _ => true
  | _ => false

/-- The mutex is locked to sleep, or the engine is asleep. -/
def Sys.Down (s : Sys ι) : Prop := s.asleep ≠ none ∨ ∃ j, (s.pc j).suspends = true

/-- The mutex is unlocked with a cookie while the engine is down, or under the calculations of
other tasks. -/
def Sys.Frees (s : Sys ι) (i : ι) (cookie : BitVec 16) : Prop :=
  s.crc.dev.unlocks cookie = true ∧ (s.Down ∨ s.crc.hold = some i ∧ ∃ j, j ≠ i ∧ past (s.crc.pc j) = true)

/-- An allocation fails; hg_crc_calc has the cookie of the device while the engine is down; the
mutex is unlocked with a cookie, or is locked before a resume is done; a resume of
another task than the one that has suspended finds a block. -/
def Disturbs (s : Sys ι) : Label ι → Prop
  | .crc (.go i) _ => match s.crc.pc i with
    | .test (.ofCalc req ..) => s.crc.dev.locks req.cookie = false ∧ s.Down
    | .release c _ => s.Frees i c.req.cookie
    | .unhold cookie _ => s.Frees i cookie
    | _ => False
  | .crc (.lock _) _ => s.asleep ≠ none
  | .noMem _ => True
  | .go i => match s.pc i with
    | .suspLock => s.asleep ≠ none
    | .resTest => s.regs ≠ none ∧ ¬ (s.asleep ≠ none ∧ s.crc.hold = some i)
    | .resIf restored => restored = false ∧ s.regs ≠ none
    | _ => False
  | _ => False

instance (s : Sys ι) : Decidable (s.asleep = none) := decidable_of_iff (s.asleep.isNone = true) Option.isNone_iff_eq_none

instance [Fintype ι] (s : Sys ι) : Decidable s.Down := inferInstanceAs (Decidable (_ ∨ _))

instance [DecidableEq ι] [Fintype ι] (s : Sys ι) (i : ι) (cookie : BitVec 16) : Decidable (s.Frees i cookie) :=
  inferInstanceAs (Decidable (_ ∧ _))

instance [DecidableEq ι] [Fintype ι] (s : Sys ι) (l : Label ι) : Decidable (Disturbs s l) := by
  unfold Disturbs
  split
  · split <;> infer_instance
  · infer_instance
  · infer_instance
  · split <;> infer_instance
  · infer_instance

/-- What the engine is doing. -/
inductive Mode (ι : Type*)
  | awake
  | suspending (i : ι)
  | asleep (i : ι)
  | resuming (i : ι)

structure Snapshot.Free (b : Snapshot ι) : Prop where
  hold : b.hold = none
  irq : b.irq = true
  flags : b.flags = 0

/-- The block of the saved registers is not freed. -/
def Sys.Live (s : Sys ι) : Prop := ∃ r, s.regs = some r ∧ r ∉ s.freed ∧ r < s.blocks

def Sys.Suspending (s : Sys ι) : Pc ι → Prop
  | .suspIrq b => b.Free ∧ s.crc.dev.flags = 0
  | .suspFlags b => b.Free ∧ s.irq = false
  | .suspMalloc b => b.Free ∧ s.irq = false ∧ s.crc.dev.flags = 2
  | .suspSave b => b.Free ∧ s.irq = false ∧ s.crc.dev.flags = 2 ∧ s.Live
  | _ => False

def Sys.Saved (s : Sys ι) (b : Snapshot ι) : Prop :=
  s.crc.dev.flags = 2 ∧ s.Live ∧ ∀ r ∈ s.regs, s.saved r = b.hw

/-- The registers are those of the snapshot again. -/
def Sys.Restored (s : Sys ι) (b : Snapshot ι) (flags : BitVec 32) : Prop :=
  s.clk = true ∧ s.hw = b.hw ∧ s.crc.dev.flags = flags

def Sys.Resuming (s : Sys ι) (b : Snapshot ι) : Pc ι → Prop
  | .resRestore => s.Saved b
  | .resFlags => s.Restored b 2 ∧ s.Live
  | .resIrq => s.Restored b 0 ∧ s.Live
  | .resIf true | .resFree => s.Restored b 0 ∧ s.irq = true ∧ s.Live
  | .resNull => s.Restored b 0 ∧ s.irq = true ∧ s.regs ≠ none
  | _ => False

def Mode.Of (s : Sys ι) : Mode ι → Prop
  | .awake => s.asleep = none ∧ s.clk = true ∧ s.irq = true ∧ (s.crc.hold = none → s.crc.dev.flags = 0)
  | .suspending i => s.asleep = none ∧ s.clk = true ∧ s.crc.hold = some i ∧ s.Suspending (s.pc i)
  | .asleep i => s.crc.hold = some i ∧ ∃ b, s.asleep = some b ∧ b.Free ∧ s.Saved b
  | .resuming i => s.crc.hold = none ∧ ∃ b, s.asleep = some b ∧ b.Free ∧ s.Resuming b (s.pc i)

/-- Task `j` may be at a statement. -/
def Pc.Fits (m : Mode ι) (j : ι) : Pc ι → Prop
  | .out | .suspLock | .resTest | .resIf false => m ≠ .suspending j ∧ m ≠ .resuming j
  | .suspIrq _ | .suspFlags _ | .suspMalloc _ | .suspSave _ => m = .suspending j
  | .resUnlock => m = .asleep j
  | .resRestore | .resFlags | .resIrq | .resIf true | .resFree | .resNull => m = .resuming j

def Event.Good : Event ι → Prop
  | .failed b a => a.hold = b.hold ∧ a.irq = b.irq ∧ a.flags = b.flags ∧ a.regs = b.regs
  | .resumed b a => a.hw = b.hw ∧ a.irq = b.irq ∧ a.flags = b.flags ∧ a.hold = b.hold

structure Inv (s : Sys ι) (m : Mode ι) : Prop where
  mode : m.Of s
  tasks : ∀ j, (s.pc j).Fits m j
  calm : m ≠ .awake ∨ s.crc.hold = none → ∀ j, past (s.crc.pc j) = false
  flags : s.crc.dev.flags = 0 ∨ s.crc.dev.flags = 2
  log : ∀ e ∈ s.log, e.Good
  once : s.freed.Nodup
  numbered : ∀ r ∈ s.freed, r < s.blocks

section Steps
variable {s t : Sys ι} {m m' : Mode ι} {i j : ι} {p : Pc ι} {l : Label ι} {b : Snapshot ι}

theorem Inv.attached (hw : Regs) : Inv (attached hw : Sys ι) .awake := by
  refine ⟨⟨rfl,rfl,rfl,fun _ => rfl⟩,fun j => ?_,fun _ j => rfl,Or.inl rfl,?_,?_,?_⟩
  · constructor <;> simp
  all_goals simp [HgCrcSleep.attached]

theorem past_of_atWork {p : HgCrcHold.Pc} {c : Calc} (h : p.atWork = some c) : past p = true := by
  cases p with
  | wait c | release c r => rfl
  | _ => cases h

theorem Inv.not_awake (h : Inv s m) (hasleep : s.asleep ≠ none) : m ≠ .awake := by
  rintro rfl
  exact hasleep h.mode.1

/-- The mutex is free and the engine is not asleep. -/
theorem Inv.awake (h : Inv s m) (hnone : s.crc.hold = none) (hasleep : s.asleep = none) : m = .awake := by
  cases m with
  | awake => rfl
  | suspending k =>
    have hsome := h.mode.2.2.1
    simp [hnone] at hsome
  | asleep k =>
    have hsome := h.mode.1
    simp [hnone] at hsome
  | resuming k =>
    obtain ⟨-,b,hsome,-⟩ := h.mode
    simp [hasleep] at hsome

theorem Inv.sound (h : Inv s m) : s.Sound := by
  refine ⟨fun b a hmem => h.log _ hmem,fun b a hmem => h.log _ hmem,fun hasleep i => ?_,h.once,fun i huses r hr => ?_⟩
  · have hcalm := h.calm (Or.inl (h.not_awake hasleep)) i
    cases hwork : (s.crc.pc i).atWork with
    | none => rfl
    | some c => simp [past_of_atWork hwork] at hcalm
  · have hlive {s : Sys ι} {r : ℕ} (h : s.Live) (hr : s.regs = some r) : r ∉ s.freed := by
      obtain ⟨r',hregs,hfree,-⟩ := h
      obtain rfl := Option.some.inj (hregs.symm.trans hr)
      exact hfree
    have hfits := h.tasks i
    cases hpc : s.pc i with
    | suspSave b =>
      rw [hpc] at hfits
      obtain rfl : m = .suspending i := hfits
      have hstage := h.mode.2.2.2
      rw [hpc] at hstage
      exact hlive hstage.2.2.2 hr
    | resRestore =>
      rw [hpc] at hfits
      obtain rfl : m = .resuming i := hfits
      obtain ⟨-,b,-,-,hstage⟩ := h.mode
      rw [hpc] at hstage
      exact hlive hstage.2.1 hr
    | _ => simp [hpc,Pc.uses] at huses

/-- In every other mode the engine is down. -/
theorem Inv.down (h : Inv s m) (hm : m ≠ .awake) : s.Down := by
  cases m with
  | awake => exact absurd rfl hm
  | suspending i =>
    right
    refine ⟨i,?_⟩
    have hstage := h.mode.2.2.2
    cases hpc : s.pc i with
    | suspIrq b | suspFlags b | suspMalloc b | suspSave b => rfl
    | _ => simp [hpc,Sys.Suspending] at hstage
  | asleep i | resuming i =>
    obtain ⟨-,b,hasleep,-⟩ := h.mode
    exact Or.inl (by simp [hasleep])

theorem Mode.Of.congr (h : m.Of s) (hnow : t.now = s.now) (hclk : t.clk = s.clk) (hfreed : t.freed = s.freed)
    (hsaved : t.saved = s.saved) (hblocks : t.blocks = s.blocks) (hasleep : t.asleep = s.asleep)
    (hpc : ∀ k, m = .suspending k ∨ m = .resuming k → t.pc k = s.pc k) : m.Of t := by
  obtain ⟨hhold,hirq,hflags,hregs,hhw⟩ := Snapshot.mk.inj hnow
  cases m with
  | awake =>
    simp only [Mode.Of,hasleep,hclk,hirq,hhold,hflags]
    exact h
  | suspending k =>
    obtain ⟨hnone,hopen,hk,hstage⟩ := h
    refine ⟨hasleep.trans hnone,hclk.trans hopen,hhold.trans hk,?_⟩
    rw [hpc k (Or.inl rfl)]
    cases hpck : s.pc k with
    | suspIrq b | suspFlags b | suspMalloc b | suspSave b =>
      rw [hpck] at hstage
      simpa only [Sys.Suspending,Sys.Live,hirq,hflags,hregs,hfreed,hblocks] using hstage
    | _ => simp [hpck,Sys.Suspending] at hstage
  | asleep k =>
    obtain ⟨hk,b,hb,hfree,hkept⟩ := h
    refine ⟨hhold.trans hk,b,hasleep.trans hb,hfree,?_⟩
    simpa only [Sys.Saved,Sys.Live,hflags,hregs,hfreed,hblocks,hsaved] using hkept
  | resuming k =>
    obtain ⟨hk,b,hb,hfree,hstage⟩ := h
    refine ⟨hhold.trans hk,b,hasleep.trans hb,hfree,?_⟩
    rw [hpc k (Or.inr rfl)]
    cases hpck : s.pc k with
    | resRestore | resFlags | resIrq | resFree | resNull =>
      rw [hpck] at hstage
      simpa only [Sys.Resuming,Sys.Restored,Sys.Saved,Sys.Live,hclk,hirq,hflags,hregs,hhw,hfreed,hblocks,hsaved] using hstage
    | resIf restored =>
      rw [hpck] at hstage
      cases restored with
      | true => simpa only [Sys.Resuming,Sys.Restored,Sys.Live,hclk,hirq,hflags,hregs,hhw,hfreed,hblocks] using hstage
      | false => simp [Sys.Resuming] at hstage
    | _ => simp [hpck,Sys.Resuming] at hstage

/-- While the engine is asleep there is a block. -/
theorem Inv.regs_ne_none (h : Inv s m) (hasleep : s.asleep ≠ none) : s.regs ≠ none := by
  have hsome (hlive : s.Live) : s.regs ≠ none := by
    obtain ⟨r,hr,-⟩ := hlive
    simp [hr]
  cases m with
  | awake | suspending k => exact absurd h.mode.1 hasleep
  | asleep k =>
    obtain ⟨-,b,-,-,hsaved⟩ := h.mode
    exact hsome hsaved.2.1
  | resuming k =>
    obtain ⟨-,b,-,-,hstage⟩ := h.mode
    cases hpc : s.pc k with
    | resRestore =>
      rw [hpc] at hstage
      exact hsome hstage.2.1
    | resFlags | resIrq =>
      rw [hpc] at hstage
      exact hsome hstage.2
    | resFree =>
      rw [hpc] at hstage
      exact hsome hstage.2.2
    | resNull =>
      rw [hpc] at hstage
      exact hstage.2.2
    | resIf restored =>
      rw [hpc] at hstage
      cases restored with
      | true => exact hsome hstage.2.2
      | false => simp [Sys.Resuming] at hstage
    | _ => simp [hpc,Sys.Resuming] at hstage

/-- The registers are lost only where they are in the block. -/
theorem Inv.lose (h : Inv s m) (hclk : s.clk = false) (hw : Regs) : Inv { s with hw := hw } m := by
  refine ⟨?_,h.tasks,h.calm,h.flags,h.log,h.once,h.numbered⟩
  have hopen : s.clk ≠ true := by simp [hclk]
  cases m with
  | awake | suspending k => exact absurd h.mode.2.1 hopen
  | asleep k => exact h.mode
  | resuming k =>
    obtain ⟨hnone,b,hasleep,hfree,hstage⟩ := h.mode
    refine ⟨hnone,b,hasleep,hfree,?_⟩
    show Sys.Resuming _ b (s.pc k)
    cases hpc : s.pc k with
    | resRestore =>
      rw [hpc] at hstage
      exact hstage
    | resFlags | resIrq | resFree | resNull =>
      rw [hpc] at hstage
      exact absurd hstage.1.1 hopen
    | resIf restored =>
      rw [hpc] at hstage
      cases restored with
      | true => exact absurd hstage.1.1 hopen
      | false => simp [Sys.Resuming] at hstage
    | _ => simp [hpc,Sys.Resuming] at hstage

theorem Inv.past_false (h : Inv s m) (hnone : m ≠ .awake ∨ s.crc.hold = none) : past (s.crc.pc j) ≠ true := by
  rw [h.calm hnone j]
  simp

/-- The mutex is unlocked by a cookie only while the engine is up, and not under other calculations. -/
theorem not_frees {l : HgCrcHold.Label ι} {out : BitVec 32} {cookie : BitVec 16} (hgood : ¬ Disturbs s (.crc l out))
    (hl : l = .go (task l)) (hunlocks : s.crc.dev.unlocks cookie = true)
    (hat : (∃ q r, s.crc.pc (task l) = .release q r ∧ q.req.cookie = cookie) ∨ ∃ of, s.crc.pc (task l) = .unhold cookie of) :
    ¬ (s.Down ∨ s.crc.hold = some (task l) ∧ ∃ j, j ≠ task l ∧ past (s.crc.pc j) = true) := by
  intro hbad
  rw [hl] at hgood
  rcases hat with ⟨q,r,hq,rfl⟩ | ⟨of,hq⟩
  · simp only [Disturbs,hq] at hgood
    exact hgood ⟨hunlocks,hbad⟩
  · simp only [Disturbs,hq] at hgood
    exact hgood ⟨hunlocks,hbad⟩

variable [DecidableEq ι]

/-- What a step of hg_crc_calc or hg_crc_hold does to the device, where its task goes to `p`: nothing;
a calculation passes by its cookie; the mutex is locked; the flag is set; the mutex is
unlocked by a cookie. -/
inductive Effect (c d : HgCrcHold.Sys ι) (l : HgCrcHold.Label ι) (p : HgCrcHold.Pc) : Prop
  | keeps (hhold : d.hold = c.hold) (hdev : d.dev = c.dev) (hpast : past p = true → past (c.pc (task l)) = true)
  | shares (req : CrcDevReq) (cont : Bool) (of : Option ℕ) (hl : l = .go (task l))
    (hat : c.pc (task l) = .test (.ofCalc req cont of)) (hlocks : c.dev.locks req.cookie = false)
    (hhold : d.hold = c.hold) (hdev : d.dev = c.dev)
  | locks (hl : l = .lock (task l)) (hnone : c.hold = none) (hhold : d.hold = some (task l)) (hdev : d.dev = c.dev)
  | sets (hpast : past (c.pc (task l)) = true) (hhold : d.hold = c.hold) (j : BitVec 64) (hdev : d.dev = c.dev.held j)
  | unlocks (hl : l = .go (task l)) (hp : past p = false) (cookie : BitVec 16) (hunlocks : c.dev.unlocks cookie = true)
    (hat : (∃ q r, c.pc (task l) = .release q r ∧ q.req.cookie = cookie) ∨ ∃ of, c.pc (task l) = .unhold cookie of)
    (hhold : d.hold = if c.hold = some (task l) then none else c.hold) (hdev : d.dev = c.dev.unheld)

theorem go_effect {c d : HgCrcHold.Sys ι} (hs : c.go i (c.pc i) = some d) :
    ∃ p, d.pc = Function.update c.pc i p ∧ Effect c d (.go i) p := by
  cases hpc : c.pc i with
  | out r | lock q | set q | wait q => simp [hpc,HgCrcHold.Sys.go] at hs
  | test q =>
    obtain rfl := Option.some.inj (hpc ▸ hs)
    refine ⟨_,rfl,?_⟩
    cases hlocks : c.dev.locks q.cookie with
    | true => exact .keeps rfl rfl fun hpast => absurd hpast Bool.false_ne_true
    | false =>
      cases q with
      | ofCalc req cont of => exact .shares req cont of rfl hpc hlocks rfl rfl
      | ofHold cookie of => exact .keeps rfl rfl fun hpast => absurd hpast Bool.false_ne_true
  | program q =>
    obtain rfl := Option.some.inj (hpc ▸ hs)
    refine ⟨_,rfl,.keeps rfl rfl fun _ => ?_⟩
    rw [task,hpc]
    rfl
  | release q r =>
    simp only [hpc,HgCrcHold.Sys.go] at hs
    split at hs
    · next hunlocks =>
      obtain rfl := Option.some.inj hs
      exact ⟨_,rfl,.unlocks rfl rfl _ hunlocks (Or.inl ⟨q,r,hpc,rfl⟩) rfl rfl⟩
    · obtain rfl := Option.some.inj hs
      exact ⟨_,rfl,.keeps rfl rfl fun hpast => absurd hpast Bool.false_ne_true⟩
  | unhold cookie of =>
    simp only [hpc,HgCrcHold.Sys.go] at hs
    split at hs
    · next hunlocks =>
      obtain rfl := Option.some.inj hs
      exact ⟨_,rfl,.unlocks rfl rfl _ hunlocks (Or.inr ⟨of,hpc⟩) rfl rfl⟩
    · obtain rfl := Option.some.inj hs
      exact ⟨_,rfl,.keeps rfl rfl fun hpast => absurd hpast Bool.false_ne_true⟩

theorem crc_effect {c d : HgCrcHold.Sys ι} {l : HgCrcHold.Label ι} (hs : HgCrcHold.step c l = some d) :
    ∃ p, d.pc = Function.update c.pc (task l) p ∧ Effect c d l p := by
  cases l with
  | crcCalc i req cont of =>
    obtain ⟨-,rfl⟩ := HgCrcHold.call_eq hs
    refine ⟨_,rfl,.keeps rfl rfl fun hpast => ?_⟩
    split at hpast <;> cases hpast
  | crcHold i cookie of | crcUnhold i cookie of =>
    obtain ⟨-,rfl⟩ := HgCrcHold.call_eq hs
    exact ⟨_,rfl,.keeps rfl rfl fun hpast => absurd hpast Bool.false_ne_true⟩
  | go i => exact go_effect hs
  | lock i =>
    simp only [HgCrcHold.step] at hs
    split at hs
    · obtain ⟨hnone,hs⟩ := Option.ite_none_right_eq_some.mp hs
      obtain rfl := Option.some.inj hs
      exact ⟨_,rfl,.locks rfl hnone rfl rfl⟩
    · cases hs
  | timeout i =>
    simp only [HgCrcHold.step] at hs
    split at hs
    · obtain rfl := Option.some.inj hs
      exact ⟨_,rfl,.keeps rfl rfl fun hpast => absurd hpast Bool.false_ne_true⟩
    · cases hs
  | set i j =>
    simp only [HgCrcHold.step] at hs
    split at hs
    · next q hpc =>
      have hpast : past (c.pc i) = true := by rw [hpc]; rfl
      cases q with
      | ofCalc req cont of | ofHold cookie of =>
        obtain rfl := Option.some.inj hs
        exact ⟨_,rfl,.sets hpast rfl j rfl⟩
    · cases hs
  | done i ok =>
    simp only [HgCrcHold.step] at hs
    split at hs
    · next q hpc =>
      obtain rfl := Option.some.inj hs
      refine ⟨_,rfl,.keeps rfl rfl fun _ => ?_⟩
      rw [task,hpc]
      rfl
    · cases hs

theorem held_flags {d : Dev} (h : d.flags = 0 ∨ d.flags = 2) (osJiffies : BitVec 64) :
    (d.held osJiffies).flags = 0 ∨ (d.held osJiffies).flags = 2 := by
  right
  rcases h with h | h <;> simp [Dev.held,h,HGCRC_FLAGS_HOLD]

theorem unheld_zero {d : Dev} (h : d.flags = 0 ∨ d.flags = 2) : d.unheld.flags = 0 := by
  rcases h with h | h <;> simp [Dev.unheld,h,HGCRC_FLAGS_HOLD]

/-- A cookie opens the engine only while the flag is set. -/
theorem flags_of_unlocked {d : Dev} {cookie : BitVec 16} (h : d.locks cookie = false) : d.flags ≠ 0 := by
  intro hzero
  have hbit := (locks_false_iff.mp h).1
  simp [hzero] at hbit

omit [DecidableEq ι] in
theorem written_eq (out : BitVec 32) (l : HgCrcHold.Label ι) (hcalm : ∀ j, past (s.crc.pc j) = false) :
    s.written out l = s.hw := by
  cases l with
  | go i =>
    cases hpc : s.crc.pc i with
    | program c =>
      have hi := hcalm i
      simp [hpc,past] at hi
    | _ => simp [Sys.written,hpc]
  | _ => rfl

/-- The calculations of the tasks go on while the engine is awake. -/
theorem Inv.calculated (h : Inv s .awake) {d : HgCrcHold.Sys ι} {q : HgCrcHold.Pc} (hpc : d.pc = Function.update s.crc.pc i q)
    (hw : Regs) (hflags : d.dev.flags = 0 ∨ d.dev.flags = 2)
    (hnone : d.hold = none → d.dev.flags = 0 ∧ past q = false ∧ ∀ j, j ≠ i → past (s.crc.pc j) = false) :
    Inv { s with crc := d, hw := hw } .awake := by
  refine ⟨⟨h.mode.1,h.mode.2.1,h.mode.2.2.1,fun hd => (hnone hd).1⟩,h.tasks,fun hcalm => ?_,hflags,h.log,h.once,h.numbered⟩
  show ∀ j, past (d.pc j) = false
  rw [hpc]
  apply (Function.forall_update_iff s.crc.pc fun _ q => past q = false).mpr
  exact (hnone (hcalm.resolve_left fun hm => hm rfl)).2

/-- While the engine is down the tasks do not get at it. -/
theorem Inv.waited (h : Inv s m) {d : HgCrcHold.Sys ι} {q : HgCrcHold.Pc} (hm : m ≠ .awake)
    (hpc : d.pc = Function.update s.crc.pc i q) (hq : past q = false) (hhold : d.hold = s.crc.hold) (hdev : d.dev = s.crc.dev) :
    Inv { s with crc := d } m := by
  have hnow : Sys.now { s with crc := d } = s.now := by
    simp [Sys.now,hhold,hdev]
  refine ⟨h.mode.congr hnow rfl rfl rfl rfl rfl fun _ _ => rfl,h.tasks,fun _ => ?_,?_,h.log,h.once,h.numbered⟩
  · show ∀ j, past (d.pc j) = false
    rw [hpc]
    apply (Function.forall_update_iff s.crc.pc fun _ q => past q = false).mpr
    exact ⟨hq,fun j _ => h.calm (Or.inl hm) j⟩
  · show d.dev.flags = 0 ∨ d.dev.flags = 2
    rw [hdev]
    exact h.flags

theorem Inv.crcAwake (h : Inv s .awake) {l : HgCrcHold.Label ι} {out : BitVec 32} {d : HgCrcHold.Sys ι} {q : HgCrcHold.Pc}
    (hgood : ¬ Disturbs s (.crc l out)) (hpc : d.pc = Function.update s.crc.pc (task l) q) (heffect : Effect s.crc d l q)
    (hw : Regs) : Inv { s with crc := d, hw := hw } .awake := by
  cases heffect with
  | keeps hhold hdev hq =>
    refine h.calculated hpc _ (hdev ▸ h.flags) fun hnone => ?_
    have hfree := hhold.symm.trans hnone
    refine ⟨hdev ▸ h.mode.2.2.2 hfree,?_,fun j _ => h.calm (Or.inr hfree) j⟩
    rw [Bool.eq_false_iff]
    intro htrue
    exact h.past_false (Or.inr hfree) (hq htrue)
  | shares req cont of hl hat hlocks hhold hdev =>
    refine h.calculated hpc _ (hdev ▸ h.flags) fun hnone => ?_
    exact absurd (h.mode.2.2.2 (hhold.symm.trans hnone)) (flags_of_unlocked hlocks)
  | locks hl hfree hhold hdev =>
    refine h.calculated hpc _ (hdev ▸ h.flags) fun hnone => ?_
    simp [hnone] at hhold
  | sets hp hhold j hdev =>
    refine h.calculated hpc _ (hdev ▸ held_flags h.flags j) fun hnone => ?_
    exact absurd hp (h.past_false (Or.inr (hhold.symm.trans hnone)))
  | unlocks hl hq cookie hunlocks hat hhold hdev =>
    have hzero := unheld_zero h.flags
    refine h.calculated hpc _ (hdev ▸ Or.inl hzero) fun hnone => ⟨hdev ▸ hzero,hq,fun j hj => ?_⟩
    by_cases hown : s.crc.hold = some (task l)
    · rw [Bool.eq_false_iff]
      intro hp
      exact not_frees hgood hl hunlocks hat (Or.inr ⟨hown,j,hj,hp⟩)
    · rw [if_neg hown] at hhold
      exact h.calm (Or.inr (hhold.symm.trans hnone)) j

theorem Inv.crcDown (h : Inv s m) (hm : m ≠ .awake) {l : HgCrcHold.Label ι} {out : BitVec 32} {d : HgCrcHold.Sys ι}
    {q : HgCrcHold.Pc} (hgood : ¬ Disturbs s (.crc l out)) (hpc : d.pc = Function.update s.crc.pc (task l) q)
    (heffect : Effect s.crc d l q) : Inv { s with crc := d } m := by
  have hdown := h.down hm
  cases heffect with
  | keeps hhold hdev hq =>
    refine h.waited hm hpc ?_ hhold hdev
    rw [Bool.eq_false_iff]
    intro htrue
    exact h.past_false (Or.inl hm) (hq htrue)
  | shares req cont of hl hat hlocks =>
    rw [hl] at hgood
    simp only [Disturbs,hat] at hgood
    exact absurd ⟨hlocks,hdown⟩ hgood
  | locks hl hnone =>
    rw [hl] at hgood
    have hasleep : s.asleep = none := not_not.mp hgood
    exact absurd (h.awake hnone hasleep) hm
  | sets hp => exact absurd hp (h.past_false (Or.inl hm))
  | unlocks hl hq cookie hunlocks hat => exact absurd (Or.inl hdown) (not_frees hgood hl hunlocks hat)

theorem Inv.crc (h : Inv s m) {l : HgCrcHold.Label ι} {out : BitVec 32} (hgood : ¬ Disturbs s (.crc l out))
    (hs : step s (.crc l out) = some t) : Inv t m := by
  obtain ⟨-,hs⟩ := Option.ite_none_right_eq_some.mp hs
  obtain ⟨d,hd,rfl⟩ := Option.map_eq_some_iff.mp hs
  obtain ⟨q,hpc,heffect⟩ := crc_effect hd
  by_cases hm : m = .awake
  · subst hm
    exact h.crcAwake hgood hpc heffect _
  · rw [written_eq out l (h.calm (Or.inl hm))]
    exact h.crcDown hm hgood hpc heffect

/-- The task that suspends or resumes, or has suspended. -/
def Mode.owner : Mode ι → Option ι
  | .awake => none
  | .suspending i | .asleep i | .resuming i => some i

omit [DecidableEq ι] in
theorem fits_of_owner_ne (h : p.Fits m j) (hm : m.owner ≠ some j) (hm' : m'.owner ≠ some j) : p.Fits m' j := by
  have hplain : m' ≠ .suspending j ∧ m' ≠ .resuming j := by
    constructor
    all_goals
      rintro rfl
      exact hm' rfl
  cases p with
  | out | suspLock | resTest => exact hplain
  | resIf restored =>
    cases restored with
    | false => exact hplain
    | true =>
      obtain rfl : m = .resuming j := h
      exact absurd rfl hm
  | suspIrq b | suspFlags b | suspMalloc b | suspSave b =>
    obtain rfl : m = .suspending j := h
    exact absurd rfl hm
  | resUnlock =>
    obtain rfl : m = .asleep j := h
    exact absurd rfl hm
  | resRestore | resFlags | resIrq | resFree | resNull =>
    obtain rfl : m = .resuming j := h
    exact absurd rfl hm

/-- The task that suspends or resumes takes a step. -/
theorem Inv.stage (h : Inv s m) (hmode : m'.Of t) (hpc : t.pc = Function.update s.pc i p) (hp : p.Fits m' i)
    (hm : ∀ k ∈ m.owner, k = i) (hm' : ∀ k ∈ m'.owner, k = i) (hcrc : t.crc.pc = s.crc.pc)
    (hcalm : m ≠ .awake ∨ s.crc.hold = none) (hflags : t.crc.dev.flags = 0 ∨ t.crc.dev.flags = 2)
    (hlog : ∀ e ∈ t.log, e.Good) (honce : t.freed.Nodup) (hnumbered : ∀ r ∈ t.freed, r < t.blocks) : Inv t m' := by
  refine ⟨hmode,?_,fun _ j => ?_,hflags,hlog,honce,hnumbered⟩
  · rw [hpc]
    refine (Function.forall_update_iff s.pc fun j p => p.Fits m' j).mpr ⟨hp,fun j hj => ?_⟩
    refine fits_of_owner_ne (h.tasks j) (fun hown => ?_) (fun hown => ?_)
    · exact hj (hm j hown)
    · exact hj (hm' j hown)
  · rw [hcrc]
    exact h.calm hcalm j

/-- A task that neither suspends nor resumes takes a step that changes nothing else. -/
theorem Inv.move (h : Inv s m) (hplain : m ≠ .suspending i ∧ m ≠ .resuming i) (hp : p.Fits m i) : Inv (s.at i p) m := by
  refine ⟨h.mode.congr rfl rfl rfl rfl rfl rfl fun k hk => Function.update_of_ne ?_ .., ?_,h.calm,h.flags,h.log,h.once,
    h.numbered⟩
  · rintro rfl
    exact hk.elim hplain.1 hplain.2
  · exact (Function.forall_update_iff s.pc fun j p => p.Fits m j).mpr ⟨hp,fun j _ => h.tasks j⟩

theorem Inv.suspLock (h : Inv s m) (hnone : s.crc.hold = none) (hasleep : s.asleep = none) :
    Inv ((s.setHold (some i)).at i (.suspIrq s.now)) (.suspending i) := by
  obtain rfl := h.awake hnone hasleep
  obtain ⟨-,hclk,hirq,hflags⟩ := h.mode
  refine h.stage ⟨hasleep,hclk,rfl,?_⟩ rfl rfl (by simp [Mode.owner]) (by simp [Mode.owner]) rfl (Or.inr hnone) h.flags h.log
    h.once h.numbered
  show Sys.Suspending _ (Function.update s.pc i _ i)
  rw [Function.update_self]
  exact ⟨⟨hnone,hirq,hflags hnone⟩,hflags hnone⟩

/-- A suspend goes on to its next statement. -/
theorem Inv.suspendsTo (h : Inv s (.suspending i)) (hpc : t.pc = Function.update s.pc i p) (hstage : t.Suspending p)
    (hasleep : t.asleep = none) (hclk : t.clk = true) (hhold : t.crc.hold = some i) (hcrc : t.crc.pc = s.crc.pc)
    (hflags : t.crc.dev.flags = 0 ∨ t.crc.dev.flags = 2) (hlog : t.log = s.log) (hfreed : t.freed = s.freed)
    (hblocks : s.blocks ≤ t.blocks) : Inv t (.suspending i) := by
  have hfits : p.Fits (.suspending i) i := by
    cases p with
    | suspIrq b | suspFlags b | suspMalloc b | suspSave b => rfl
    | _ => exact hstage.elim
  refine h.stage ⟨hasleep,hclk,hhold,?_⟩ hpc hfits (by simp [Mode.owner]) (by simp [Mode.owner]) hcrc (Or.inl (by simp)) hflags
    (hlog ▸ h.log) (hfreed ▸ h.once) fun r hr => ?_
  · rw [hpc,Function.update_self]
    exact hstage
  · rw [hfreed] at hr
    exact (h.numbered r hr).trans_le hblocks

/-- A suspend goes on. -/
theorem Inv.suspends (h : Inv s (.suspending i)) (hs : s.go i (s.pc i) = some t) (hat : (s.pc i).suspends = true) :
    ∃ m', Inv t m' := by
  obtain ⟨hasleep,hclk,hhold,hstage⟩ := h.mode
  cases hpc : s.pc i with
  | suspIrq b =>
    rw [hpc] at hstage
    obtain rfl := Option.some.inj (hpc ▸ hs)
    exact ⟨_,h.suspendsTo rfl ⟨hstage.1,rfl⟩ hasleep hclk hhold rfl h.flags rfl rfl le_rfl⟩
  | suspFlags b =>
    rw [hpc] at hstage
    obtain rfl := Option.some.inj (hpc ▸ hs)
    have hbit : BIT HGCRC_FLAGS_SUSPEND = 2 := rfl
    exact ⟨_,h.suspendsTo rfl ⟨hstage.1,hstage.2,hbit⟩ hasleep hclk hhold rfl (Or.inr hbit) rfl rfl le_rfl⟩
  | suspMalloc b =>
    rw [hpc] at hstage
    obtain rfl := Option.some.inj (hpc ▸ hs)
    have hlive : s.blocks ∉ s.freed ∧ s.blocks < s.blocks + 1 :=
      ⟨fun hr => Nat.lt_irrefl _ (h.numbered _ hr),Nat.lt_succ_self _⟩
    exact ⟨_,h.suspendsTo rfl ⟨hstage.1,hstage.2.1,hstage.2.2,s.blocks,rfl,hlive⟩ hasleep hclk hhold rfl h.flags rfl rfl
      (Nat.le_succ _)⟩
  | suspSave b =>
    rw [hpc] at hstage
    obtain ⟨hfree,-,hflags,hlive⟩ := hstage
    obtain rfl := Option.some.inj (hpc ▸ hs)
    refine ⟨.asleep i,h.stage ⟨hhold,{ b with hw := s.hw },rfl,⟨hfree.1,hfree.2,hfree.3⟩,hflags,hlive,fun r hr => ?_⟩ rfl
      (by simp [Pc.Fits]) (by simp [Mode.owner]) (by simp [Mode.owner]) rfl (Or.inl (by simp)) h.flags h.log h.once h.numbered⟩
    have hregs : s.regs = some r := hr
    simp only [Sys.at,hregs]
    exact Function.update_self ..
  | _ => simp [hpc,Pc.suspends] at hat

theorem Inv.resTest (h : Inv s m) (hpc : s.pc i = .resTest)
    (hgood : s.regs ≠ none → s.asleep ≠ none ∧ s.crc.hold = some i) (hs : s.go i .resTest = some t) : Inv t m := by
  have hfits := h.tasks i
  rw [hpc] at hfits
  obtain rfl := Option.some.inj hs
  refine h.move hfits ?_
  split_ifs with htest
  · obtain ⟨hasleep,hhold⟩ := hgood htest.2
    cases m with
    | awake | suspending k => exact absurd h.mode.1 hasleep
    | asleep k =>
      obtain rfl := Option.some.inj (hhold.symm.trans h.mode.1)
      rfl
    | resuming k =>
      have hnone := h.mode.1
      simp [hhold] at hnone
  · exact hfits

theorem Inv.resUnlock (h : Inv s (.asleep i)) : Inv ((s.setHold none).at i .resRestore) (.resuming i) := by
  obtain ⟨-,b,hasleep,hfree,hsaved⟩ := h.mode
  refine h.stage ⟨rfl,b,hasleep,hfree,?_⟩ rfl rfl (by simp [Mode.owner]) (by simp [Mode.owner]) rfl (Or.inl (by simp))
    h.flags h.log h.once h.numbered
  show Sys.Resuming _ b (Function.update s.pc i _ i)
  rw [Function.update_self]
  exact hsaved

/-- A resume goes on to its next statement. -/
theorem Inv.resumesTo (h : Inv s (.resuming i)) (hpc : t.pc = Function.update s.pc i p) (hasleep : t.asleep = some b)
    (hfree : b.Free) (hstage : t.Resuming b p) (hhold : t.crc.hold = none) (hcrc : t.crc.pc = s.crc.pc)
    (hflags : t.crc.dev.flags = 0 ∨ t.crc.dev.flags = 2) (hlog : t.log = s.log) (honce : t.freed.Nodup)
    (hnumbered : ∀ r ∈ t.freed, r < t.blocks) : Inv t (.resuming i) := by
  have hfits : p.Fits (.resuming i) i := by
    cases p with
    | resRestore | resFlags | resIrq | resFree | resNull => rfl
    | resIf restored =>
      cases restored with
      | true => rfl
      | false => exact hstage.elim
    | _ => exact hstage.elim
  refine h.stage ⟨hhold,b,hasleep,hfree,?_⟩ hpc hfits (by simp [Mode.owner]) (by simp [Mode.owner]) hcrc (Or.inl (by simp))
    hflags (hlog ▸ h.log) honce hnumbered
  rw [hpc,Function.update_self]
  exact hstage

/-- A resume that has unlocked the mutex goes on. -/
theorem Inv.resumes (h : Inv s (.resuming i)) (hs : s.go i (s.pc i) = some t) : ∃ m', Inv t m' := by
  obtain ⟨hnone,b,hasleep,hfree,hstage⟩ := h.mode
  cases hpc : s.pc i with
  | resRestore =>
    rw [hpc] at hstage
    obtain ⟨hflags,hlive,hblock⟩ := hstage
    obtain rfl := Option.some.inj (hpc ▸ hs)
    refine ⟨_,h.resumesTo rfl hasleep hfree ⟨⟨rfl,?_,hflags⟩,hlive⟩ hnone rfl h.flags rfl h.once h.numbered⟩
    obtain ⟨r,hregs,-⟩ := hlive
    simp only [Sys.at,hregs]
    exact hblock r hregs
  | resFlags =>
    rw [hpc] at hstage
    obtain ⟨⟨hclk,hhw,hflags⟩,hlive⟩ := hstage
    obtain rfl := Option.some.inj (hpc ▸ hs)
    have hzero : s.crc.dev.flags &&& ~~~BIT HGCRC_FLAGS_SUSPEND = 0 := by
      rw [hflags]
      rfl
    exact ⟨_,h.resumesTo rfl hasleep hfree ⟨⟨hclk,hhw,hzero⟩,hlive⟩ hnone rfl (Or.inl hzero) rfl h.once h.numbered⟩
  | resIrq =>
    rw [hpc] at hstage
    obtain rfl := Option.some.inj (hpc ▸ hs)
    exact ⟨_,h.resumesTo rfl hasleep hfree ⟨hstage.1,rfl,hstage.2⟩ hnone rfl h.flags rfl h.once h.numbered⟩
  | resIf restored =>
    rw [hpc] at hstage
    cases restored with
    | false => simp [Sys.Resuming] at hstage
    | true =>
      obtain ⟨r,hregs,-⟩ := hstage.2.2
      simp only [hpc,Sys.go,hregs,ne_eq,reduceCtorEq,not_false_eq_true,if_true] at hs
      obtain rfl := Option.some.inj hs
      exact ⟨_,h.resumesTo rfl hasleep hfree hstage hnone rfl h.flags rfl h.once h.numbered⟩
  | resFree =>
    rw [hpc] at hstage
    obtain ⟨hrestored,hirq,r,hregs,hnew,hlt⟩ := hstage
    have hsome : s.regs ≠ none := by simp [hregs]
    simp only [hpc,Sys.go,hregs] at hs
    obtain rfl := Option.some.inj hs
    refine ⟨_,h.resumesTo rfl hasleep hfree ⟨hrestored,hirq,?_⟩ hnone rfl h.flags rfl (List.nodup_cons.mpr ⟨hnew,h.once⟩)
      fun k hk => ?_⟩
    · exact hregs ▸ hsome
    · rcases List.mem_cons.mp hk with rfl | hk
      · exact hlt
      · exact h.numbered k hk
  | resNull =>
    rw [hpc] at hstage
    obtain ⟨⟨hclk,hhw,hflags⟩,hirq,-⟩ := hstage
    obtain rfl := Option.some.inj (hpc ▸ hs)
    simp only [Sys.resumed,hasleep,if_true]
    refine ⟨.awake,h.stage ⟨rfl,hclk,hirq,fun _ => hflags⟩ rfl (by simp [Pc.Fits]) (by simp [Mode.owner]) (by simp [Mode.owner])
      rfl (Or.inl (by simp)) h.flags (fun e he => ?_) h.once h.numbered⟩
    rcases List.mem_cons.mp he with rfl | he
    · exact ⟨hhw,hirq.trans hfree.irq.symm,hflags.trans hfree.flags.symm,hnone.trans hfree.hold.symm⟩
    · exact h.log e he
  | _ => simp [hpc,Sys.Resuming] at hstage

/-- A resume that had nothing to restore returns. -/
theorem Inv.returned (h : Inv s m) (hpc : s.pc i = .resIf false) (hregs : s.regs = none)
    (hs : s.go i (.resIf false) = some t) : Inv t m := by
  have hfits := h.tasks i
  rw [hpc] at hfits
  have hasleep : s.asleep = none := by
    by_contra hsome
    exact h.regs_ne_none hsome hregs
  have hsame : s.resumed true = s := by simp only [Sys.resumed,hasleep]
  simp only [Sys.go,hregs,ne_eq,not_true_eq_false,if_false,hsame] at hs
  obtain rfl := Option.some.inj hs
  exact h.move (p := .out) hfits hfits

theorem Inv.go (h : Inv s m) (hgood : ¬ Disturbs s (.go i)) (hs : s.go i (s.pc i) = some t) : ∃ m', Inv t m' := by
  have hfits := h.tasks i
  cases hpc : s.pc i with
  | out => simp [hpc,Sys.go] at hs
  | suspLock =>
    simp only [hpc,Sys.go] at hs
    obtain ⟨hnone,hs⟩ := Option.ite_none_right_eq_some.mp hs
    obtain rfl := Option.some.inj hs
    simp only [Disturbs,hpc,not_not] at hgood
    exact ⟨_,h.suspLock hnone hgood⟩
  | suspIrq b | suspFlags b | suspMalloc b | suspSave b =>
    rw [hpc] at hfits
    obtain rfl : m = .suspending i := hfits
    exact h.suspends hs (by rw [hpc]; rfl)
  | resTest =>
    refine ⟨m,h.resTest hpc (fun hregs => ?_) (hpc ▸ hs)⟩
    simp only [Disturbs,hpc] at hgood
    by_contra hbad
    exact hgood ⟨hregs,hbad⟩
  | resUnlock =>
    rw [hpc] at hfits
    obtain rfl : m = .asleep i := hfits
    simp only [hpc,Sys.go,h.mode.1,if_true] at hs
    obtain rfl := Option.some.inj hs
    exact ⟨_,h.resUnlock⟩
  | resRestore | resFlags | resIrq | resFree | resNull =>
    rw [hpc] at hfits
    obtain rfl : m = .resuming i := hfits
    exact h.resumes hs
  | resIf restored =>
    cases restored with
    | true =>
      rw [hpc] at hfits
      obtain rfl : m = .resuming i := hfits
      exact h.resumes hs
    | false =>
      simp only [Disturbs,hpc,true_and,not_not] at hgood
      exact ⟨m,h.returned hpc hgood (hpc ▸ hs)⟩

theorem Inv.step (h : Inv s m) (hgood : ¬ Disturbs s l) (hs : HgCrcSleep.step s l = some t) : ∃ m', Inv t m' := by
  cases l with
  | crc l out => exact ⟨m,h.crc hgood hs⟩
  | suspend i | resume i =>
    obtain ⟨⟨hout,-⟩,hs⟩ := Option.ite_none_right_eq_some.mp hs
    obtain rfl := Option.some.inj hs
    have hfits := h.tasks i
    cases hpc : s.pc i with
    | out =>
      rw [hpc] at hfits
      exact ⟨m,h.move hfits hfits⟩
    | _ => simp [hpc,Pc.isOut] at hout
  | go i => exact h.go hgood hs
  | noMem i => exact absurd trivial hgood
  | lose hw =>
    obtain ⟨hclk,hs⟩ := Option.ite_none_right_eq_some.mp hs
    obtain rfl := Option.some.inj hs
    exact ⟨m,h.lose hclk hw⟩
  | timeout i =>
    simp only [HgCrcSleep.step] at hs
    split at hs
    · next hpc =>
      obtain rfl := Option.some.inj hs
      have hfits := h.tasks i
      rw [hpc] at hfits
      have hmoved := h.move (p := .out) hfits hfits
      refine ⟨m,⟨hmoved.mode.congr rfl rfl rfl rfl rfl rfl fun _ _ => rfl,hmoved.tasks,h.calm,h.flags,fun e he => ?_,h.once,h.numbered⟩⟩
      rcases List.mem_cons.mp he with rfl | he
      · exact ⟨rfl,rfl,rfl,rfl⟩
      · exact h.log e he
    · cases hs

end Steps

/-- The clock at the end of a run, what is calculated, and whether the engine is asleep. -/
def Sys.seen (s : Sys Bool) : Bool × Option Calc × Bool := (s.clk,(s.crc.pc false).atWork,s.asleep.isSome)

end FmacSdk.HgCrcSleep
