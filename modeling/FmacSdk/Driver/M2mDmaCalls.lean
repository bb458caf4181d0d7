import FmacSdk.Driver.M2mDma
import FmacSdk.Foundation.Transition

/-! # Interleaved calls of hg_m2m_dma_xfer

busy_flag is read and written with the interrupts off and ch0_lock is not. A call
holds a channel from its claim until it gives it back, no two hold the same, and
every call comes to its end.
-/
namespace FmacSdk.M2mDma
open Transition
open DwDmac (DMA_XFER_DIR_M2M)

/-- Where a call is: at the check of its width, before an attempt, at the claim,
behind one of channel 0, in the software with its answer, before a transfer of the engine, waiting
for it, or done. -/
inductive Pc
  | check (data : DmaXferData)
  | lock (data : DmaXferData) (retry : ℕ)
  | claim (data : DmaXferData) (retry chFix : ℕ)
  | setLock (data : DmaXferData) (ch : ℕ)
  | soft (n : ℕ)
  | transfer (data : DmaXferData) (ch row : ℕ)
  | wait (data : DmaXferData) (ch row polls : ℕ)
  | free (ch : ℕ)
  | done (ret : ℤ)

inductive Event
  | claimed (call ch : ℕ)
  | freed (call ch : ℕ)
deriving DecidableEq, Repr

def Event.call : Event → ℕ
  | .claimed i _ | .freed i _ => i

structure Sys where
  busyFlag : BitVec 32
  ch0Lock : Bool
  calls : ℕ → Option Pc
  next : ℕ
  log : List Event

deriving instance DecidableEq for DmaXferData

inductive Label
  | xfer (data : DmaXferData)
  | go (i : ℕ)
deriving DecidableEq

def BIT (ch : ℕ) : BitVec 32 := BitVec.twoPow 32 ch

/-- How often the engine is started for a request. -/
def DmaXferData.rows (data : DmaXferData) : ℕ :=
  match data.srcAddrMode with
  | .blkcpy => data.blkHeight.toNat
  | _ => 1

def Sys.setPc (s : Sys) (i : ℕ) (pc : Pc) : Sys := { s with calls := Function.update s.calls i (some pc) }

/-- `while (retry--)` behind an attempt without a channel. -/
def afterMiss (data : DmaXferData) (n : ℕ) : ℕ → Pc
  | 0 => .soft n
  | retry + 1 => .lock data retry

section Code
variable (time : ℕ → ℕ → ℕ)

/-- The next access of call `i`, whose transfer number `row` is seen running for
`time i row` polls. -/
def Sys.go (s : Sys) (i : ℕ) : Pc → Option Sys
  | .check data => some (s.setPc i (if data.elementPerWidth ≥ DMA_SLAVE_BUSWIDTH_UNDEFINED then .done (-EBUSY)
      else .lock data (data.count >>> 8).toNat))
  | .lock data retry => some (s.setPc i (.claim data retry
      (if data.dir ≠ DMA_XFER_DIR_M2M then 0 else if s.ch0Lock then 1 else HG_M2M_DMA_NUM)))
  | .claim data retry chFix =>
    match hgM2mDmaGetFreeCh s.busyFlag chFix with
    | .ofNat ch => some { s.setPc i (if data.dir ≠ DMA_XFER_DIR_M2M ∧ ch = 0 then .setLock data ch
          else .transfer data ch 0) with
        busyFlag := s.busyFlag ||| BIT ch
        log := s.log ++ [.claimed i ch] }
    | .negSucc n => some (s.setPc i (afterMiss data n retry))
  | .setLock data ch => some { s.setPc i (.transfer data ch 0) with ch0Lock := true }
  | .soft n => some (s.setPc i (.done (.negSucc n)))
  | .transfer data ch row =>
    some (s.setPc i (if row < data.rows then .wait data ch row (time i row) else .free ch))
  | .wait data ch row 0 => some (s.setPc i (.transfer data ch (row + 1)))
  | .wait data ch row (polls + 1) => some (s.setPc i (.wait data ch row polls))
  | .free ch => some { s.setPc i (.done ch) with
      busyFlag := s.busyFlag &&& ~~~ BIT ch
      log := s.log ++ [.freed i ch] }
  | .done _ => none

def step (s : Sys) : Label → Option Sys
  | .xfer data => some { s.setPc s.next (.check data) with next := s.next + 1 }
  | .go i => (s.calls i).bind (s.go time i)

end Code

/-- The state that hg_m2m_dma_dev_attach leaves. -/
def attached : Sys := ⟨0,false,fun _ => none,0,[]⟩

/-- Call `i` is between claiming and freeing channel `ch`. -/
def Sys.Holds (s : Sys) (i ch : ℕ) : Prop := .claimed i ch ∈ s.log ∧ .freed i ch ∉ s.log

def Sys.eventsOf (s : Sys) (i : ℕ) : List Event := s.log.filter fun e => e.call = i

/-- The channels belong to the calls in progress, each to one, and a call that
returns has freed what it had claimed. -/
structure Owned (s : Sys) : Prop where
  exclusive : ∀ i j ch, s.Holds i ch → s.Holds j ch → i = j
  bits : ∀ ch, s.busyFlag.getLsbD ch = true ↔ ∃ i, s.Holds i ch
  returned : ∀ i ret, s.calls i = some (.done ret) →
    s.eventsOf i = [] ∨ ∃ ch, s.eventsOf i = [.claimed i ch,.freed i ch]

/-- A call is never stuck and has only so many steps left. -/
structure Terminates (time : ℕ → ℕ → ℕ) (s : Sys) (i : ℕ) : Prop where
  unblocked : (∃ ret, s.calls i = some (.done ret)) ∨ (step time s (.go i)).isSome
  bounded : ∃ n, ∀ ls t, Runs (step time) s ls t → ls.count (.go i) ≤ n

def Pc.channel : Pc → Option ℕ
  | .setLock _ ch | .transfer _ ch _ | .wait _ ch _ _ | .free ch => some ch
  | _ => none

/-- What a call has done to busy_flag by then. -/
def Pc.events (i : ℕ) : Pc → List Event
  | .setLock _ ch | .transfer _ ch _ | .wait _ ch _ _ | .free ch => [.claimed i ch]
  | .done (.ofNat ch) => [.claimed i ch,.freed i ch]
  | _ => []

def Sys.At (s : Sys) (i ch : ℕ) : Prop := ∃ pc ∈ s.calls i, pc.channel = some ch

structure Inv (s : Sys) : Prop where
  fresh : ∀ i, s.next ≤ i → s.calls i = none
  events : ∀ i, s.eventsOf i = (s.calls i).elim [] (Pc.events i)
  bits : ∀ ch, s.busyFlag.getLsbD ch = true ↔ ∃ i, s.At i ch
  exclusive : ∀ i j ch, s.At i ch → s.At j ch → i = j

variable {time : ℕ → ℕ → ℕ} {s t : Sys} {i : ℕ} {pc : Pc}

theorem mem_eventsOf {e : Event} (h : e.call = i) : e ∈ s.eventsOf i ↔ e ∈ s.log := by
  simp [Sys.eventsOf,h]

/-- By the log a call holds what it is at. -/
theorem Inv.holds_iff (h : Inv s) (i ch : ℕ) : s.Holds i ch ↔ s.At i ch := by
  have hclaimed : .claimed i ch ∈ s.log ↔ .claimed i ch ∈ s.eventsOf i := (mem_eventsOf rfl).symm
  have hfreed : .freed i ch ∈ s.log ↔ .freed i ch ∈ s.eventsOf i := (mem_eventsOf rfl).symm
  unfold Sys.Holds Sys.At
  rw [hclaimed,hfreed,h.events]
  cases hpc : s.calls i with
  | none => simp
  | some pc =>
    cases pc with
    | done ret => cases ret <;> simp [Pc.events,Pc.channel]
    | _ => simp [Pc.events,Pc.channel,eq_comm]

theorem Inv.owned (h : Inv s) : Owned s := by
  refine ⟨fun i j ch hi hj => ?_,fun ch => ?_,fun i ret hi => ?_⟩
  · exact h.exclusive i j ch ((h.holds_iff i ch).mp hi) ((h.holds_iff j ch).mp hj)
  · exact (h.bits ch).trans (exists_congr fun i => (h.holds_iff i ch).symm)
  · rw [h.events,hi]
    cases ret with
    | ofNat ch => exact Or.inr ⟨ch,rfl⟩
    | negSucc n => exact Or.inl rfl

theorem Inv.lt_next (h : Inv s) (hpc : s.calls i = some pc) : i < s.next := by
  by_contra hge
  rw [h.fresh i (not_lt.mp hge)] at hpc
  simp at hpc

theorem setPc_at (pc : Pc) (j ch : ℕ) :
    (s.setPc i pc).At j ch ↔ (j = i ∧ pc.channel = some ch) ∨ (j ≠ i ∧ s.At j ch) := by
  unfold Sys.At Sys.setPc
  by_cases hj : j = i
  · subst hj
    simp
  · simp [hj]

theorem Inv.at_iff (h : s.calls i = some pc) (ch : ℕ) : s.At i ch ↔ pc.channel = some ch := by
  simp [Sys.At,h]

/-- A step of call `i`: its own events and channel change, and only they. -/
theorem Inv.move (h : Inv s) (hpc : s.calls i = some pc) {pc' : Pc} {busyFlag : BitVec 32} (ch0Lock : Bool)
    {evs : List Event} (hown : ∀ e ∈ evs, e.call = i) (hev : pc'.events i = pc.events i ++ evs)
    (hbits : ∀ ch, busyFlag.getLsbD ch = true ↔ pc'.channel = some ch ∨ ∃ j, j ≠ i ∧ s.At j ch)
    (hfree : ∀ ch, pc'.channel = some ch → ∀ j, j ≠ i → ¬ s.At j ch) :
    Inv { s.setPc i pc' with busyFlag := busyFlag, ch0Lock := ch0Lock, log := s.log ++ evs } := by
  have hlt := h.lt_next hpc
  refine ⟨fun j hj => ?_,fun j => ?_,fun ch => ?_,fun j k ch hj hk => ?_⟩
  · have hj : s.next ≤ j := hj
    have hne : j ≠ i := by omega
    exact (Function.update_of_ne hne _ _).trans (h.fresh j hj)
  · have hsplit : (s.log ++ evs).filter (fun e => e.call = j) =
        s.eventsOf j ++ evs.filter fun e => e.call = j := List.filter_append ..
    show (s.log ++ evs).filter (fun e => e.call = j) = (Function.update s.calls i (some pc') j).elim [] _
    rw [hsplit,h.events j]
    by_cases hj : j = i
    · subst hj
      have hall : evs.filter (fun e => e.call = j) = evs := by
        rw [List.filter_eq_self]
        exact fun e he => decide_eq_true (hown e he)
      rw [hall,hpc,Function.update_self]
      exact hev.symm
    · have hnone : evs.filter (fun e => e.call = j) = [] := by
        rw [List.filter_eq_nil_iff]
        intro e he
        simpa [hown e he] using Ne.symm hj
      rw [hnone,List.append_nil,Function.update_of_ne hj]
  · refine (hbits ch).trans ⟨?_,?_⟩
    · rintro (hch | ⟨j,hj,hat⟩)
      · exact ⟨i,(setPc_at pc' i ch).mpr (Or.inl ⟨rfl,hch⟩)⟩
      · exact ⟨j,(setPc_at pc' j ch).mpr (Or.inr ⟨hj,hat⟩)⟩
    · rintro ⟨j,hat⟩
      rcases (setPc_at pc' j ch).mp hat with ⟨-,hch⟩ | hother
      · exact Or.inl hch
      · exact Or.inr ⟨j,hother⟩
  · rcases (setPc_at pc' j ch).mp hj with ⟨rfl,hch⟩ | ⟨hne,hat⟩ <;>
      rcases (setPc_at pc' k ch).mp hk with ⟨rfl,hch'⟩ | ⟨hne',hat'⟩
    · rfl
    · exact absurd hat' (hfree ch hch k hne')
    · exact absurd hat (hfree ch hch' j hne)
    · exact h.exclusive j k ch hat hat'

/-- A step that keeps what the call holds. -/
theorem Inv.keep (h : Inv s) (hpc : s.calls i = some pc) {pc' : Pc} (ch0Lock : Bool)
    (hev : pc'.events i = pc.events i) (hch : pc'.channel = pc.channel) :
    Inv { s.setPc i pc' with ch0Lock := ch0Lock } := by
  have hmove : Inv { s.setPc i pc' with busyFlag := s.busyFlag, ch0Lock := ch0Lock, log := s.log ++ [] } := by
    refine h.move hpc ch0Lock (by simp) (by simpa using hev) (fun ch => (h.bits ch).trans ?_)
      fun ch he j hj hat => ?_
    · rw [hch,← Inv.at_iff hpc]
      constructor
      · rintro ⟨j,hat⟩
        by_cases hj : j = i
        · exact Or.inl (hj ▸ hat)
        · exact Or.inr ⟨j,hj,hat⟩
      · rintro (hat | ⟨j,-,hat⟩)
        · exact ⟨i,hat⟩
        · exact ⟨j,hat⟩
    · exact hj (h.exclusive j i ch hat ((Inv.at_iff hpc ch).mpr (hch ▸ he)))
  rw [List.append_nil] at hmove
  exact hmove

theorem freeChFrom_free {busyFlag : BitVec 32} {chFix n ch : ℕ}
    (h : freeChFrom busyFlag chFix n = Int.ofNat ch) : busyFlag.getLsbD ch = false ∧ ch ≤ n := by
  induction n with
  | zero =>
    unfold freeChFrom at h
    split at h
    · simp at h
    · next hfree =>
      obtain rfl : 0 = ch := Int.ofNat.inj h
      exact ⟨by simpa using hfree,le_rfl⟩
  | succ n ih =>
    unfold freeChFrom at h
    split at h
    · split at h
      · simp at h
      · obtain ⟨hfree,hle⟩ := ih h
        exact ⟨hfree,by omega⟩
    · next hfree =>
      obtain rfl : n + 1 = ch := Int.ofNat.inj h
      exact ⟨by simpa using hfree,le_rfl⟩

theorem getFreeCh_free {busyFlag : BitVec 32} {chFix ch : ℕ}
    (h : hgM2mDmaGetFreeCh busyFlag chFix = Int.ofNat ch) : busyFlag.getLsbD ch = false ∧ ch < 32 := by
  obtain ⟨hfree,hle⟩ := freeChFrom_free h
  refine ⟨hfree,?_⟩
  split at hle
  · omega
  · next hfix =>
    have hfix : chFix < 2 := not_le.mp hfix
    omega

theorem or_BIT {busyFlag : BitVec 32} {ch : ℕ} (hch : ch < 32) (k : ℕ) :
    (busyFlag ||| BIT ch).getLsbD k = true ↔ ch = k ∨ busyFlag.getLsbD k = true := by
  simp [BIT,hch,or_comm]

theorem and_not_BIT (busyFlag : BitVec 32) (ch k : ℕ) :
    (busyFlag &&& ~~~ BIT ch).getLsbD k = true ↔ ch ≠ k ∧ busyFlag.getLsbD k = true := by
  by_cases hk : k < 32
  · by_cases hch : ch = k
    · subst hch
      simp [BIT,hk]
    · simp [BIT,hk,hch,Ne.symm hch]
  · simp [BitVec.getLsbD_of_ge busyFlag k (not_lt.mp hk)]

theorem Inv.claim (h : Inv s) {data : DmaXferData} {retry chFix ch : ℕ}
    (hpc : s.calls i = some (.claim data retry chFix)) (hget : hgM2mDmaGetFreeCh s.busyFlag chFix = .ofNat ch)
    {pc' : Pc} (hch : pc'.channel = some ch) (hev : pc'.events i = [.claimed i ch]) :
    Inv { s.setPc i pc' with busyFlag := s.busyFlag ||| BIT ch, log := s.log ++ [.claimed i ch] } := by
  obtain ⟨hfree,hlt⟩ := getFreeCh_free hget
  have hnobody (j : ℕ) : ¬ s.At j ch := fun hat => by
    rw [(h.bits ch).mpr ⟨j,hat⟩] at hfree
    simp at hfree
  have hnone (k : ℕ) : ¬ s.At i k := by simp [Inv.at_iff hpc,Pc.channel]
  refine h.move hpc s.ch0Lock (by simp [Event.call]) hev (fun k => (or_BIT hlt k).trans ?_) fun k he j _ => ?_
  · rw [hch,Option.some.injEq,h.bits]
    refine or_congr_right (exists_congr fun j => ?_)
    exact (and_iff_right_of_imp fun hat (he : j = i) => hnone k (he ▸ hat)).symm
  · obtain rfl : ch = k := Option.some.inj (hch.symm.trans he)
    exact hnobody j

theorem Inv.free (h : Inv s) {ch : ℕ} (hpc : s.calls i = some (.free ch)) :
    Inv { s.setPc i (.done ch) with busyFlag := s.busyFlag &&& ~~~ BIT ch, log := s.log ++ [.freed i ch] } := by
  have hmine : s.At i ch := (Inv.at_iff hpc ch).mpr rfl
  refine h.move hpc s.ch0Lock (by simp [Event.call]) rfl (fun k => (and_not_BIT _ ch k).trans ?_) fun k he => ?_
  · simp only [Pc.channel,reduceCtorEq,false_or]
    rw [h.bits]
    constructor
    · rintro ⟨hne,j,hat⟩
      refine ⟨j,fun he => hne ?_,hat⟩
      simpa [Pc.channel] using (Inv.at_iff hpc k).mp (he ▸ hat)
    · rintro ⟨j,hj,hat⟩
      refine ⟨fun he => hj ?_,j,hat⟩
      subst he
      exact h.exclusive j i ch hat hmine
  · simp [Pc.channel] at he

theorem Inv.go (h : Inv s) (hpc : s.calls i = some pc) (hgo : s.go time i pc = some t) : Inv t := by
  cases pc with
  | check data =>
    obtain rfl := Option.some.inj hgo
    refine h.keep hpc s.ch0Lock ?_ ?_ <;> split <;> rfl
  | lock data retry =>
    obtain rfl := Option.some.inj hgo
    exact h.keep hpc s.ch0Lock rfl rfl
  | claim data retry chFix =>
    simp only [Sys.go] at hgo
    split at hgo
    · next ch hget =>
      obtain rfl := Option.some.inj hgo
      refine h.claim hpc hget ?_ ?_ <;> split <;> rfl
    · obtain rfl := Option.some.inj hgo
      refine h.keep hpc s.ch0Lock ?_ ?_ <;> cases retry <;> rfl
  | setLock data ch =>
    obtain rfl := Option.some.inj hgo
    exact h.keep hpc true rfl rfl
  | soft n =>
    obtain rfl := Option.some.inj hgo
    exact h.keep hpc s.ch0Lock rfl rfl
  | transfer data ch row =>
    obtain rfl := Option.some.inj hgo
    refine h.keep hpc s.ch0Lock ?_ ?_ <;> split <;> rfl
  | wait data ch row polls =>
    cases polls with
    | zero =>
      obtain rfl := Option.some.inj hgo
      exact h.keep hpc s.ch0Lock rfl rfl
    | succ polls =>
      obtain rfl := Option.some.inj hgo
      exact h.keep hpc s.ch0Lock rfl rfl
  | free ch =>
    obtain rfl := Option.some.inj hgo
    exact h.free hpc
  | done ret => simp [Sys.go] at hgo

theorem Inv.xfer (h : Inv s) (data : DmaXferData) :
    Inv { s.setPc s.next (.check data) with next := s.next + 1 } := by
  have hnew := h.fresh s.next le_rfl
  have hat (j ch : ℕ) : (s.setPc s.next (.check data)).At j ch ↔ s.At j ch := by
    rw [setPc_at]
    by_cases hj : j = s.next
    · subst hj
      simp [Pc.channel,Sys.At,hnew]
    · simp [hj]
  refine ⟨fun j hj => ?_,fun j => ?_,fun ch => ?_,fun j k ch hj hk => ?_⟩
  · have hj : s.next + 1 ≤ j := hj
    exact (Function.update_of_ne (by omega) _ _).trans (h.fresh j (by omega))
  · show s.eventsOf j = (Function.update s.calls s.next (some (.check data)) j).elim [] _
    rw [h.events]
    by_cases hj : j = s.next
    · subst hj
      rw [hnew,Function.update_self]
      rfl
    · rw [Function.update_of_ne hj]
  · exact (h.bits ch).trans (exists_congr fun j => (hat j ch).symm)
  · exact h.exclusive j k ch ((hat j ch).mp hj) ((hat k ch).mp hk)

theorem Inv.step (h : Inv s) {l : Label} (hstep : step time s l = some t) : Inv t := by
  cases l with
  | xfer data =>
    obtain rfl := Option.some.inj hstep
    exact h.xfer data
  | go i =>
    obtain ⟨pc,hpc,hgo⟩ := Option.bind_eq_some_iff.mp hstep
    exact h.go hpc hgo

theorem attached_inv : Inv attached := by
  refine ⟨by simp [attached],by simp [attached,Sys.eventsOf],?_,?_⟩ <;> simp [attached,Sys.At]

/-- The steps of the last `n` of `rows` transfers, and of giving the channel back. -/
def transferLeft (time : ℕ → ℕ) (rows : ℕ) : ℕ → ℕ
  | 0 => 2
  | n + 1 => time (rows - (n + 1)) + 2 + transferLeft time rows n

def DmaXferData.left (data : DmaXferData) (time : ℕ → ℕ) (row : ℕ) : ℕ :=
  transferLeft time data.rows (data.rows - row)

theorem left_of_lt {data : DmaXferData} {time : ℕ → ℕ} {row : ℕ} (h : row < data.rows) :
    data.left time row = time row + 2 + data.left time (row + 1) := by
  have hsucc : data.rows - row = data.rows - (row + 1) + 1 := by omega
  have hrow : data.rows - (data.rows - (row + 1) + 1) = row := by omega
  unfold DmaXferData.left
  rw [hsucc,transferLeft,hrow]

theorem left_pos (data : DmaXferData) (time : ℕ → ℕ) (row : ℕ) : 2 ≤ data.left time row := by
  unfold DmaXferData.left
  cases data.rows - row with
  | zero => exact le_rfl
  | succ n =>
    rw [transferLeft]
    omega

/-- How many steps a call has left at most: two for each attempt to come, those of
the transfers and the polls of each. -/
def Pc.left (time : ℕ → ℕ) : Pc → ℕ
  | .check data => 2 * ((data.count >>> 8).toNat + 1) + data.left time 0 + 3
  | .lock data retry => 2 * (retry + 1) + data.left time 0 + 2
  | .claim data retry _ => 2 * retry + 1 + data.left time 0 + 2
  | .setLock data _ => data.left time 0 + 1
  | .soft _ => 1
  | .transfer data _ row => data.left time row
  | .wait data _ row polls => polls + 1 + data.left time (row + 1)
  | .free _ => 1
  | .done _ => 0

/-- A step of a call moves it on by at least one of its steps, and no other call. -/
theorem go_pc (hgo : s.go time i pc = some t) :
    ∃ pc', t.calls = Function.update s.calls i (some pc') ∧ pc'.left (time i) < pc.left (time i) := by
  cases pc with
  | check data =>
    obtain rfl := Option.some.inj hgo
    refine ⟨_,rfl,?_⟩
    split <;> simp only [Pc.left] <;> omega
  | lock data retry =>
    obtain rfl := Option.some.inj hgo
    refine ⟨_,rfl,?_⟩
    simp only [Pc.left]
    omega
  | claim data retry chFix =>
    have hpos := left_pos data (time i) 0
    simp only [Sys.go] at hgo
    split at hgo
    · obtain rfl := Option.some.inj hgo
      refine ⟨_,rfl,?_⟩
      split <;> simp only [Pc.left] <;> omega
    · obtain rfl := Option.some.inj hgo
      refine ⟨_,rfl,?_⟩
      cases retry <;> simp only [afterMiss,Pc.left] <;> omega
  | setLock data ch =>
    obtain rfl := Option.some.inj hgo
    exact ⟨_,rfl,Nat.lt_succ_self _⟩
  | soft n =>
    obtain rfl := Option.some.inj hgo
    exact ⟨_,rfl,Nat.one_pos⟩
  | transfer data ch row =>
    obtain rfl := Option.some.inj hgo
    refine ⟨_,rfl,?_⟩
    split
    · next hrow =>
      simp only [Pc.left]
      rw [left_of_lt hrow]
      omega
    · exact left_pos data (time i) row
  | wait data ch row polls =>
    cases polls with
    | zero =>
      obtain rfl := Option.some.inj hgo
      refine ⟨_,rfl,?_⟩
      simp only [Pc.left]
      omega
    | succ polls =>
      obtain rfl := Option.some.inj hgo
      refine ⟨_,rfl,?_⟩
      simp only [Pc.left]
      omega
  | free ch =>
    obtain rfl := Option.some.inj hgo
    exact ⟨_,rfl,Nat.one_pos⟩
  | done ret => simp [Sys.go] at hgo

/-- The steps that a call takes in a run are taken off those it has left. -/
theorem count_left {ls : List Label} (h : Runs (step time) s ls t) (hinv : Inv s) (hcall : s.calls i = some pc) :
    ∃ pc', t.calls i = some pc' ∧ ls.count (.go i) + pc'.left (time i) ≤ pc.left (time i) := by
  have hrun : ∃ pc', t.calls i = some pc' ∧ Inv t ∧
      ls.count (.go i) + pc'.left (time i) ≤ pc.left (time i) := by
    induction h with
    | refl => exact ⟨pc,hcall,hinv,by simp⟩
    | @tail t u ls l _ hs ih =>
      obtain ⟨pc',hpc',ht,hle⟩ := ih
      have hu := ht.step hs
      rw [List.count_append,List.count_singleton]
      cases l with
      | xfer data =>
        obtain rfl := Option.some.inj hs
        have hne : i ≠ t.next := Nat.ne_of_lt (ht.lt_next hpc')
        exact ⟨pc',(Function.update_of_ne hne _ _).trans hpc',hu,by simpa using hle⟩
      | go j =>
        obtain ⟨pcj,hpcj,hgo⟩ := Option.bind_eq_some_iff.mp hs
        obtain ⟨pc'',hcalls,hless⟩ := go_pc hgo
        by_cases hj : j = i
        · subst hj
          obtain rfl : pcj = pc' := Option.some.inj (hpcj.symm.trans hpc')
          refine ⟨pc'',by rw [hcalls,Function.update_self],hu,?_⟩
          simp only [beq_self_eq_true,if_true]
          omega
        · refine ⟨pc',by rw [hcalls,Function.update_of_ne (Ne.symm hj),hpc'],hu,?_⟩
          simpa [hj] using hle
  obtain ⟨pc',hpc',-,hle⟩ := hrun
  exact ⟨pc',hpc',hle⟩

theorem go_unblocked (time : ℕ → ℕ → ℕ) (s : Sys) (i : ℕ) (pc : Pc) : (∃ ret, pc = .done ret) ∨ (s.go time i pc).isSome := by
  cases pc with
  | done ret => exact Or.inl ⟨ret,rfl⟩
  | claim data retry chFix =>
    refine Or.inr ?_
    simp only [Sys.go]
    split <;> rfl
  | wait data ch row polls => cases polls <;> exact Or.inr rfl
  | check | lock | setLock | soft | transfer | free => exact Or.inr rfl

theorem Inv.terminates (h : Inv s) (hpc : s.calls i = some pc) : Terminates time s i := by
  refine ⟨?_,pc.left (time i),fun ls t hrun => ?_⟩
  · rcases go_unblocked time s i pc with ⟨ret,rfl⟩ | hgo
    · exact Or.inl ⟨ret,hpc⟩
    · refine Or.inr ?_
      simp only [M2mDma.step,hpc]
      exact hgo
  · obtain ⟨pc',-,hle⟩ := count_left hrun h hpc
    omega

/-- In every state of every run the channels are those of the calls in progress,
and every call comes to its end. -/
theorem xfer_owned {ls : List Label} (h : Runs (step time) attached ls s) :
    Owned s ∧ ∀ i, s.calls i ≠ none → Terminates time s i := by
  have hinv : Inv s := h.invariant (fun _ _ _ hi hs => hi.step hs) attached_inv
  refine ⟨hinv.owned,fun i hi => ?_⟩
  obtain ⟨pc,hpc⟩ := Option.ne_none_iff_exists'.mp hi
  exact hinv.terminates hpc

/-- Call `i` gets from `s` to `t` without another call. -/
def Alone (time : ℕ → ℕ → ℕ) (i : ℕ) (s t : Sys) : Prop :=
  ∃ k, Runs (step time) s (List.replicate k (.go i)) t

theorem Alone.refl : Alone time i s s := ⟨0,Runs.refl s⟩

theorem Alone.go (hpc : s.calls i = some pc) (hgo : s.go time i pc = some t) : Alone time i s t :=
  ⟨1,Runs.single (by simp only [step,hpc]; exact hgo)⟩

theorem Alone.trans {u : Sys} (h : Alone time i s t) (h' : Alone time i t u) : Alone time i s u := by
  obtain ⟨k,hk⟩ := h
  obtain ⟨m,hm⟩ := h'
  exact ⟨k + m,List.replicate_add k m _ ▸ hk.append hm⟩

/-- What a call has to do with: where it is, busy_flag and ch0_lock. -/
def Sys.Shows (s : Sys) (i : ℕ) (pc : Pc) (busyFlag : BitVec 32) (ch0Lock : Bool) : Prop :=
  s.calls i = some pc ∧ s.busyFlag = busyFlag ∧ s.ch0Lock = ch0Lock

section Alone
variable (time)
variable {busyFlag : BitVec 32} {ch0Lock : Bool} {data : DmaXferData} {ch : ℕ}

theorem setPc_shows (pc : Pc) (busyFlag : BitVec 32) (ch0Lock : Bool) (log : List Event) :
    Sys.Shows { s.setPc i pc with busyFlag := busyFlag, ch0Lock := ch0Lock, log := log } i pc busyFlag ch0Lock :=
  ⟨Function.update_self ..,rfl,rfl⟩

theorem alone_wait {row polls : ℕ} (h : s.Shows i (.wait data ch row polls) busyFlag ch0Lock) :
    ∃ t, Alone time i s t ∧ t.Shows i (.transfer data ch (row + 1)) busyFlag ch0Lock := by
  induction polls generalizing s with
  | zero =>
    obtain ⟨hpc,rfl,rfl⟩ := h
    exact ⟨_,Alone.go hpc rfl,setPc_shows _ _ _ _⟩
  | succ polls ih =>
    obtain ⟨hpc,rfl,rfl⟩ := h
    obtain ⟨t,ht,hshows⟩ := ih (setPc_shows (.wait data ch row polls) s.busyFlag s.ch0Lock s.log)
    exact ⟨t,(Alone.go hpc rfl).trans ht,hshows⟩

theorem alone_transfer {n row : ℕ} (hn : data.rows - row = n)
    (h : s.Shows i (.transfer data ch row) busyFlag ch0Lock) :
    ∃ t, Alone time i s t ∧ t.Shows i (.free ch) busyFlag ch0Lock := by
  induction n generalizing s row with
  | zero =>
    obtain ⟨hpc,rfl,rfl⟩ := h
    refine ⟨_,Alone.go hpc rfl,?_⟩
    rw [if_neg (by omega : ¬ row < data.rows)]
    exact setPc_shows _ _ _ _
  | succ n ih =>
    obtain ⟨hpc,rfl,rfl⟩ := h
    have hgo : s.go time i (.transfer data ch row) = some (s.setPc i (.wait data ch row (time i row))) := by
      rw [Sys.go,if_pos (by omega : row < data.rows)]
    obtain ⟨t,ht,hwait⟩ := alone_wait time
      (setPc_shows (s := s) (i := i) (.wait data ch row (time i row)) s.busyFlag s.ch0Lock s.log)
    obtain ⟨u,hu,hfree⟩ := ih (by omega) hwait
    exact ⟨u,(Alone.go hpc hgo).trans (ht.trans hu),hfree⟩

theorem attempt_lock (busyFlag : BitVec 32) (dir : ℕ) (ch0Lock : Bool) : (attempt busyFlag dir ch0Lock).2 =
    (ch0Lock || decide (dir ≠ DMA_XFER_DIR_M2M ∧ (attempt busyFlag dir ch0Lock).1 = 0)) := by
  unfold attempt
  by_cases hdir : dir = DMA_XFER_DIR_M2M <;> simp [hdir]

/-- Alone, the search for a channel gives the transfer on it or leads to `miss`. -/
def Leads (s : Sys) (i : ℕ) (data : DmaXferData) (busyFlag : BitVec 32) (miss : ℕ → Pc) : ℤ × Bool → Prop
  | (.ofNat ch,lock) => ∃ t, Alone time i s t ∧ t.Shows i (.transfer data ch 0) (busyFlag ||| BIT ch) lock
  | (.negSucc n,lock) => ∃ t, Alone time i s t ∧ t.Shows i (miss n) busyFlag lock

theorem Leads.after {u : Sys} {miss : ℕ → Pc} {r : ℤ × Bool} (h : Leads time u i data busyFlag miss r)
    (hu : Alone time i s u) : Leads time s i data busyFlag miss r := by
  obtain ⟨ch,lock⟩ := r
  cases ch with
  | ofNat ch =>
    obtain ⟨t,ht,hshows⟩ := h
    exact ⟨t,hu.trans ht,hshows⟩
  | negSucc n =>
    obtain ⟨t,ht,hshows⟩ := h
    exact ⟨t,hu.trans ht,hshows⟩

/-- One attempt. -/
theorem alone_attempt {retry : ℕ} (h : s.Shows i (.lock data retry) busyFlag ch0Lock) :
    Leads time s i data busyFlag (afterMiss data · retry) (attempt busyFlag data.dir ch0Lock) := by
  obtain ⟨hpc,rfl,rfl⟩ := h
  let chFix := if data.dir ≠ DMA_XFER_DIR_M2M then 0 else if s.ch0Lock then 1 else HG_M2M_DMA_NUM
  let u := s.setPc i (.claim data retry chFix)
  have hlocked : Alone time i s u := Alone.go hpc rfl
  have hclaim : u.calls i = some (.claim data retry chFix) := Function.update_self ..
  have hlock := attempt_lock s.busyFlag data.dir s.ch0Lock
  have hget := attempt_channel s.busyFlag data.dir s.ch0Lock
  generalize attempt s.busyFlag data.dir s.ch0Lock = r at hlock hget ⊢
  obtain ⟨ch,lock⟩ := r
  dsimp only at hlock hget
  cases ch with
  | ofNat ch =>
    by_cases hset : data.dir ≠ DMA_XFER_DIR_M2M ∧ ch = 0
    · obtain rfl : true = lock := by simpa [hset.1,hset.2] using hlock.symm
      let v : Sys := { u.setPc i (.setLock data ch) with
        busyFlag := s.busyFlag ||| BIT ch, log := s.log ++ [.claimed i ch] }
      have hgo : u.go time i (.claim data retry chFix) = some v := by
        show (match hgM2mDmaGetFreeCh s.busyFlag chFix with | .ofNat ch => _ | .negSucc n => _) = _
        rw [← hget]
        dsimp only
        rw [if_pos hset]
        rfl
      have hpc' : v.calls i = some (.setLock data ch) := Function.update_self ..
      exact ⟨_,hlocked.trans ((Alone.go hclaim hgo).trans (Alone.go hpc' rfl)),Function.update_self ..,rfl,rfl⟩
    · obtain rfl : s.ch0Lock = lock := by
        refine (hlock.trans ?_).symm
        rw [decide_eq_false fun he => hset ⟨he.1,Int.ofNat.inj he.2⟩,Bool.or_false]
      have hgo : u.go time i (.claim data retry chFix) = some { u.setPc i (.transfer data ch 0) with
          busyFlag := s.busyFlag ||| BIT ch, log := s.log ++ [.claimed i ch] } := by
        show (match hgM2mDmaGetFreeCh s.busyFlag chFix with | .ofNat ch => _ | .negSucc n => _) = _
        rw [← hget]
        dsimp only
        rw [if_neg hset]
        rfl
      exact ⟨_,hlocked.trans (Alone.go hclaim hgo),Function.update_self ..,rfl,rfl⟩
  | negSucc n =>
    obtain rfl : s.ch0Lock = lock := by
      refine (hlock.trans ?_).symm
      rw [decide_eq_false fun he => by simp at he,Bool.or_false]
    have hgo : u.go time i (.claim data retry chFix) = some (u.setPc i (afterMiss data n retry)) := by
      show (match hgM2mDmaGetFreeCh s.busyFlag chFix with | .ofNat ch => _ | .negSucc n => _) = _
      rw [← hget]
    exact ⟨_,hlocked.trans (Alone.go hclaim hgo),Function.update_self ..,rfl,rfl⟩

/-- The loop of a call that sees the same busy_flag at each attempt. -/
theorem alone_acquire {retry : ℕ} (index : ℕ) (h : s.Shows i (.lock data retry) busyFlag ch0Lock) :
    Leads time s i data busyFlag .soft (acquire (fun _ => busyFlag) data.dir retry index ch0Lock) := by
  have hfirst := alone_attempt time h
  induction retry generalizing s index ch0Lock with
  | zero =>
    rw [acquire]
    exact hfirst
  | succ retry ih =>
    rw [acquire]
    generalize attempt busyFlag data.dir ch0Lock = r at hfirst ⊢
    obtain ⟨ch,lock⟩ := r
    cases ch with
    | ofNat ch =>
      rw [if_pos (show (Int.ofNat ch,lock).1 ≥ 0 from Int.natCast_nonneg ch)]
      exact hfirst
    | negSucc n =>
      obtain ⟨t,ht,hshows⟩ := hfirst
      rw [if_neg (by simp)]
      exact (ih (index + 1) hshows (alone_attempt time hshows)).after time ht

theorem acquire_free {retry index ch : ℕ} (h : (acquire (fun _ => busyFlag) data.dir retry index ch0Lock).1 = .ofNat ch) :
    busyFlag.getLsbD ch = false ∧ ch < 32 := by
  have hattempt {ch0Lock : Bool} (h : (attempt busyFlag data.dir ch0Lock).1 = .ofNat ch) :
      busyFlag.getLsbD ch = false ∧ ch < 32 :=
    getFreeCh_free ((attempt_channel busyFlag data.dir ch0Lock).symm.trans h)
  induction retry generalizing index ch0Lock with
  | zero => exact hattempt h
  | succ retry ih =>
    rw [acquire] at h
    split at h
    · exact hattempt h
    · exact ih h

theorem free_claimed {ch : ℕ} (h : busyFlag.getLsbD ch = false) (hlt : ch < 32) :
    (busyFlag ||| BIT ch) &&& ~~~ BIT ch = busyFlag := by
  apply BitVec.eq_of_getLsbD_eq
  intro k _
  rw [Bool.eq_iff_iff,and_not_BIT,or_BIT hlt]
  constructor
  · rintro ⟨hne,rfl | hbit⟩
    · exact absurd rfl hne
    · exact hbit
  · intro hbit
    exact ⟨fun he => by rw [he,hbit] at h; simp at h,Or.inr hbit⟩

/-- A call without another one is hg_m2m_dma_xfer where busy_flag stays as it is. -/
theorem xfer_alone (m : Memory) (h : s.Shows i (.check data) busyFlag ch0Lock) : ∃ t, Alone time i s t ∧
    t.Shows i (.done (hgM2mDmaXfer m ch0Lock (fun _ => busyFlag) data).ret) busyFlag
      (hgM2mDmaXfer m ch0Lock (fun _ => busyFlag) data).ch0Lock := by
  obtain ⟨hpc,rfl,rfl⟩ := h
  unfold hgM2mDmaXfer
  by_cases hwidth : data.elementPerWidth ≥ DMA_SLAVE_BUSWIDTH_UNDEFINED
  · refine ⟨_,Alone.go hpc rfl,?_⟩
    rw [if_pos hwidth,if_pos hwidth]
    exact setPc_shows _ _ _ _
  · have hgo : s.go time i (.check data) = some (s.setPc i (.lock data (data.count >>> 8).toNat)) := by
      rw [Sys.go,if_neg hwidth]
    have hlock : (s.setPc i (.lock data (data.count >>> 8).toNat)).Shows i _ s.busyFlag s.ch0Lock :=
      setPc_shows _ _ _ s.log
    have hacquire := alone_acquire time 0 hlock
    have hfree (ch : ℕ) : (acquire (fun _ => s.busyFlag) data.dir (data.count >>> 8).toNat 0 s.ch0Lock).1 =
        .ofNat ch → s.busyFlag.getLsbD ch = false ∧ ch < 32 := acquire_free
    rw [if_neg hwidth]
    generalize acquire (fun _ => s.busyFlag) data.dir (data.count >>> 8).toNat 0 s.ch0Lock = r
      at hacquire hfree ⊢
    obtain ⟨ch,lock⟩ := r
    cases ch with
    | ofNat ch =>
      obtain ⟨hbit,hlt⟩ := hfree ch rfl
      obtain ⟨t,ht,htransfer⟩ := hacquire
      obtain ⟨u,hu,hpc',hbusy,hlast⟩ := alone_transfer time rfl htransfer
      have hdone : u.go time i (.free ch) = some { u.setPc i (.done ch) with
          busyFlag := u.busyFlag &&& ~~~ BIT ch, log := u.log ++ [.freed i ch] } := rfl
      rw [if_neg (show ¬ (Int.ofNat ch,lock).1 < 0 from not_lt.mpr (Int.natCast_nonneg ch))]
      refine ⟨_,(Alone.go hpc hgo).trans (ht.trans (hu.trans (Alone.go hpc' hdone))),Function.update_self ..,?_,hlast⟩
      show u.busyFlag &&& ~~~ BIT ch = s.busyFlag
      rw [hbusy,free_claimed hbit hlt]
    | negSucc n =>
      obtain ⟨t,ht,hpc',hbusy,hlast⟩ := hacquire
      rw [if_pos (show (Int.negSucc n,lock).1 < 0 from Int.negSucc_lt_zero n)]
      exact ⟨_,(Alone.go hpc hgo).trans (ht.trans (Alone.go hpc' rfl)),Function.update_self ..,hbusy,hlast⟩

end Alone

theorem xfer_owned_copy : ∃ ls s, Runs (step fun _ _ => 1) attached ls s ∧
    (∃ ret, s.calls 0 = some (.done ret)) ∧ Owned s ∧ Terminates (fun _ _ => 1) s 0 := by
  have hcall : Runs (step fun _ _ => 1) attached [.xfer oneByte] _ := Runs.single rfl
  obtain ⟨s,⟨k,hk⟩,hdone,-⟩ := xfer_alone (fun _ _ => 1) (fun _ => 0)
    (setPc_shows (s := { attached with next := 1 }) (i := 0) (.check oneByte) 0 false [])
  obtain ⟨howned,hends⟩ := xfer_owned (hcall.append hk)
  exact ⟨_,s,hcall.append hk,⟨_,hdone⟩,howned,hends 0 (by rw [hdone]; exact Option.some_ne_none _)⟩

end FmacSdk.M2mDma
