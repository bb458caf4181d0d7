import FmacSdk.Driver.HgCrc
import FmacSdk.Foundation.Transition
import Mathlib.Data.Fintype.Defs

/-! # Who holds the CRC engine

Tasks call hg_crc_calc and hg_crc_hold. What runs under dev->lock is one step; the
hold mutex is unlocked by its owner only. Explicit holds are numbered, and a task
that gives hg_crc_calc a cookie may have it from one of them.
-/
namespace FmacSdk.HgCrcHold
open HgCrc Transition
variable {ι : Type*}

/-- A hg_crc_hold with hold 1, in hg_crc_calc or by itself; `of` is the explicit hold that the
cookie is from. -/
inductive Call
  | ofCalc (req : CrcDevReq) (cont : Bool) (of : Option ℕ)
  | ofHold (cookie : BitVec 16) (of : Option ℕ)

def Call.cookie : Call → BitVec 16
  | .ofCalc req .. => req.cookie
  | .ofHold cookie _ => cookie

def Call.of : Call → Option ℕ
  | .ofCalc _ _ of | .ofHold _ of => of

/-- The locals of hg_crc_calc after hg_crc_hold. -/
structure Calc where
  req : CrcDevReq
  cont : Bool
  hold : Bool
  of : Option ℕ

/-- The next statement of a task. -/
inductive Pc
  | out (result : ℤ)
  | test (c : Call)
  | lock (c : Call)
  | set (c : Call)
  | program (c : Calc)
  | wait (c : Calc)
  | release (c : Calc) (result : ℤ)
  | unhold (cookie : BitVec 16) (of : Option ℕ)

/-- With the owner of the hold mutex, the cookies of the explicit holds, and the one that is
outstanding. -/
structure Sys (ι : Type*) where
  dev : Dev
  hold : Option ι
  pc : ι → Pc
  holds : List (BitVec 16)
  outstanding : Option ℕ

/-- A call, a statement, os_mutex_lock of the hold mutex and its time-out, what follows with the
jiffies, and the end of the wait for the engine. -/
inductive Label (ι : Type*)
  | crcCalc (i : ι) (req : CrcDevReq) (cont : Bool) (of : Option ℕ)
  | crcHold (i : ι) (cookie : BitVec 16) (of : Option ℕ)
  | crcUnhold (i : ι) (cookie : BitVec 16) (of : Option ℕ)
  | go (i : ι)
  | lock (i : ι)
  | timeout (i : ι)
  | set (i : ι) (osJiffies : BitVec 64)
  | done (i : ι) (ok : Bool)

/-- hg_crc_hold returns RET_OK, with the cookie of the device. -/
def Call.next (cookie : BitVec 16) : Call → Pc
  | .ofCalc req cont of => .program ⟨{ req with cookie := cookie },cont,req.cookie = cookie,of⟩
  | .ofHold .. => .out RET_OK

/-- The cookie is that of the explicit hold it is from. -/
def Sys.Gave (s : Sys ι) (cookie : BitVec 16) (of : Option ℕ) : Prop := ∀ n ∈ of, s.holds[n]? = some cookie

instance (s : Sys ι) (cookie : BitVec 16) (of : Option ℕ) : Decidable (s.Gave cookie of) := by
  unfold Sys.Gave
  infer_instance

section Code
variable [DecidableEq ι]

def Sys.at (s : Sys ι) (i : ι) (p : Pc) : Sys ι := { s with pc := Function.update s.pc i p }

/-- os_mutex_unlock of the hold mutex. -/
def Sys.unlock (s : Sys ι) (i : ι) : Sys ι := { s with hold := if s.hold = some i then none else s.hold }

/-- The calls before their first statements that wait or write. -/
def Sys.call (s : Sys ι) (i : ι) (cookie : BitVec 16) (of : Option ℕ) (p : Pc) : Option (Sys ι) :=
  match s.pc i with
  | .out _ => if s.Gave cookie of then some (s.at i p) else none
  | _ => none

def Sys.go (s : Sys ι) (i : ι) : Pc → Option (Sys ι)
  | .test c => some (s.at i (if s.dev.locks c.cookie then .lock c else c.next s.dev.cookie))
  | .program c => some (s.at i (.wait c))
  | .release c result =>
    if s.dev.unlocks c.req.cookie then some (({ s with dev := s.dev.unheld }.unlock i).at i (.out result))
    else some (s.at i (.out result))
  | .unhold cookie of =>
    if s.dev.unlocks cookie then
      let s := { s with dev := s.dev.unheld, outstanding := if of = s.outstanding then none else s.outstanding }
      some ((s.unlock i).at i (.out RET_OK))
    else some (s.at i (.out RET_ERR))
  | .out _ | .lock _ | .set _ | .wait _ => none

def step (s : Sys ι) : Label ι → Option (Sys ι)
  | .crcCalc i req cont of => s.call i req.cookie of (match req.config with
    | .error e => .out e
    | .ok _ => .test (.ofCalc req cont of))
  | .crcHold i cookie of => s.call i cookie of (.test (.ofHold cookie of))
  | .crcUnhold i cookie of => s.call i cookie of (.unhold cookie of)
  | .go i => s.go i (s.pc i)
  | .lock i => match s.pc i with
    | .lock c => if s.hold = none then some ({ s with hold := some i }.at i (.set c)) else none
    | _ => none
  | .timeout i => match s.pc i with
    | .lock _ => some (s.at i (.out (-EBUSY)))
    | _ => none
  | .set i osJiffies => match s.pc i with
    | .set c =>
      let t := { s with dev := s.dev.held osJiffies }
      match c with
      | .ofCalc .. => some (t.at i (c.next t.dev.cookie))
      | .ofHold .. =>
        some ({ t with holds := s.holds ++ [t.dev.cookie], outstanding := some s.holds.length }.at i (.out RET_OK))
    | _ => none
  | .done i ok => match s.pc i with
    | .wait c =>
      let result := if ok then RET_OK else RET_ERR
      some (s.at i (if c.cont ∨ c.hold then .out result else .release c result))
    | _ => none

end Code

/-- hg_crc_attach -/
def attached : Sys ι := ⟨⟨0,0⟩,none,fun _ => .out 0,[],none⟩

/-- The calculation that has programmed the registers and not returned. -/
def Pc.atWork : Pc → Option Calc
  | .wait c | .release c _ => some c
  | _ => none

/-- A call has locked the hold mutex and is to unlock it, or to return with an explicit hold. -/
def Pc.owes : Pc → Bool
  | .set _ | .release .. => true
  | .program c | .wait c => !c.hold
  | _ => false

/-- What the hold protocol is for: two tasks use the registers at once only under one explicit
hold, and the mutex is locked for an explicit hold or a call in progress only. -/
structure Sys.Held (s : Sys ι) : Prop where
  apart : ∀ i j c c', i ≠ j → (s.pc i).atWork = some c → (s.pc j).atWork = some c' → ∃ n, c.of = some n ∧ c'.of = some n
  owned : s.hold ≠ none ↔ s.outstanding ≠ none ∨ ∃ i, (s.pc i).owes = true

/-- The explicit hold under which a task has passed hg_crc_hold without the mutex. -/
def Pc.shares : Pc → Bool
  | .program c | .wait c => c.hold
  | _ => false

/-- A cookie that is not from the outstanding hold is that of the device, the jiffies are the
cookie that was left in the request or the request is to be continued without a hold, or a
hold ends under its calculations or in another task. -/
def Collides (s : Sys ι) : Label ι → Prop
  | .go i => match s.pc i with
    | .test c => s.dev.locks c.cookie = false ∧ ¬ (s.outstanding ≠ none ∧ c.of = s.outstanding)
    | .unhold cookie of => s.dev.unlocks cookie = true ∧
      ¬ (s.outstanding ≠ none ∧ of = s.outstanding ∧ s.hold ≠ none ∧ (∀ j ∈ s.hold, i = j) ∧ ∀ j, (s.pc j).shares = false)
    | _ => False
  | .set i osJiffies => match s.pc i with
    | .set (.ofCalc req cont _) => cont = true ∨ req.cookie = (osJiffies &&& 0xffff).setWidth 16
    | _ => False
  | _ => False

instance [DecidableEq ι] [Fintype ι] (s : Sys ι) (l : Label ι) : Decidable (Collides s l) := by
  unfold Collides
  split
  · split <;> infer_instance
  · split <;> infer_instance
  · infer_instance

/-- What the hold mutex is locked for. -/
inductive Mode (ι : Type*)
  | free
  | taking (i : ι)
  | byCalc (i : ι)
  | byHold (n : ℕ) (i : ι)

def Mode.Of (s : Sys ι) : Mode ι → Prop
  | .free => s.hold = none ∧ s.outstanding = none ∧ s.dev.flags &&& HGCRC_FLAGS_HOLD = 0
  | .taking i => s.hold = some i ∧ s.outstanding = none ∧ s.dev.flags &&& HGCRC_FLAGS_HOLD = 0
  | .byCalc i => s.hold = some i ∧ s.outstanding = none ∧ s.dev.flags &&& HGCRC_FLAGS_HOLD ≠ 0
  | .byHold n i => s.hold = some i ∧ s.outstanding = some n ∧ s.dev.flags &&& HGCRC_FLAGS_HOLD ≠ 0

/-- Task `j` may be at a statement. -/
def Pc.Fits (m : Mode ι) (d : Dev) (j : ι) : Pc → Prop
  | .out _ | .test _ | .lock _ | .unhold .. => m ≠ .taking j ∧ m ≠ .byCalc j
  | .set _ => m = .taking j
  | .program c | .wait c =>
    c.hold = true ∧ (∃ n i, m = .byHold n i ∧ c.of = some n) ∨
      c.hold = false ∧ c.cont = false ∧ m = .byCalc j ∧ d.unlocks c.req.cookie = true
  | .release c _ => m = .byCalc j ∧ d.unlocks c.req.cookie = true

structure Inv (s : Sys ι) (m : Mode ι) : Prop where
  mode : m.Of s
  tasks : ∀ j, (s.pc j).Fits m s.dev j

section Steps
variable {s t : Sys ι} {m m' : Mode ι} {i j : ι} {p : Pc} {c : Calc} {l : Label ι}

theorem Inv.attached : Inv (attached : Sys ι) .free := by
  refine ⟨⟨rfl,rfl,BitVec.zero_and⟩,fun j => ?_⟩
  constructor <;> simp

theorem atWork_of_fits {d : Dev} (h : p.Fits m d j) (hp : p.atWork = some c) : (∃ n i, m = .byHold n i ∧ c.of = some n) ∨
    m = .byCalc j := by
  cases p with
  | wait c' =>
    obtain rfl := Option.some.inj hp
    exact h.imp And.right fun h => h.2.2.1
  | release c' r => exact Or.inr h.1
  | _ => cases hp

/-- The calls that owe an unlock are those the mutex is locked for. -/
theorem owes_iff_of_fits {d : Dev} (h : p.Fits m d j) : p.owes = true ↔ m = .taking j ∨ m = .byCalc j := by
  cases p with
  | set c => exact iff_of_true rfl (Or.inl h)
  | release c r => exact iff_of_true rfl (Or.inr h.1)
  | program c | wait c =>
    rcases h with ⟨hhold,n,i,rfl,-⟩ | ⟨hhold,-,rfl,-⟩
    · simp [Pc.owes,hhold]
    · simp [Pc.owes,hhold]
  | out r | test c | lock c | unhold cookie of => exact iff_of_false (by simp [Pc.owes]) (not_or.mpr h)

theorem Inv.held (h : Inv s m) : s.Held := by
  refine ⟨fun i j c c' hij hi hj => ?_,?_⟩
  · rcases atWork_of_fits (h.tasks i) hi with ⟨n,k,rfl,hof⟩ | rfl
    · rcases atWork_of_fits (h.tasks j) hj with ⟨n',k',heq,hof'⟩ | hcalc
      · obtain ⟨rfl,rfl⟩ := Mode.byHold.inj heq
        exact ⟨n,hof,hof'⟩
      · cases hcalc
    · rcases atWork_of_fits (h.tasks j) hj with ⟨n',k',heq,-⟩ | hcalc
      · cases heq
      · exact absurd (Mode.byCalc.inj hcalc) hij
  · have howes : (∃ i, (s.pc i).owes = true) ↔ ∃ i, m = .taking i ∨ m = .byCalc i :=
      exists_congr fun i => owes_iff_of_fits (h.tasks i)
    rw [howes]
    cases m with
    | free => simp [h.mode.1,h.mode.2.1]
    | taking i => simp [h.mode.1]
    | byCalc i => simp [h.mode.1]
    | byHold n i => simp [h.mode.1,h.mode.2.1]

variable [DecidableEq ι]

/-- Task `i` moves, and the others fit the new mode. -/
theorem Inv.change (h : Inv s m) (hmode : m'.Of t) (hpc : t.pc = Function.update s.pc i p) (hp : p.Fits m' t.dev i)
    (hother : ∀ j, j ≠ i → (s.pc j).Fits m s.dev j → (s.pc j).Fits m' t.dev j) : Inv t m' := by
  refine ⟨hmode,?_⟩
  rw [hpc]
  apply (Function.forall_update_iff s.pc fun j p => p.Fits m' t.dev j).mpr
  exact ⟨hp,fun j hj => hother j hj (h.tasks j)⟩

theorem Inv.move (h : Inv s m) (hp : p.Fits m s.dev i) : Inv (s.at i p) m :=
  h.change (by cases m <;> exact h.mode) rfl hp fun _ _ => id

theorem Inv.locked (h : Inv s m) (hnone : s.hold = none) (c : Call) :
    Inv (Sys.at { s with hold := some i } i (.set c)) (.taking i) := by
  cases m with
  | free =>
    refine h.change ⟨rfl,h.mode.2⟩ rfl rfl fun j hj hfits => ?_
    cases hpc : s.pc j with
    | program c | wait c | release c r | set c => simp [hpc,Pc.Fits] at hfits
    | _ => simp [Pc.Fits,Ne.symm hj]
  | taking j | byCalc j | byHold n j =>
    have hsome := h.mode.1
    simp [hnone] at hsome

theorem Inv.setCalc (h : Inv s m) {req : CrcDevReq} {of : Option ℕ} {osJiffies : BitVec 64}
    (hpc : s.pc i = .set (.ofCalc req false of)) (hne : req.cookie ≠ (s.dev.held osJiffies).cookie) :
    Inv (Sys.at { s with dev := s.dev.held osJiffies } i ((Call.ofCalc req false of).next (s.dev.held osJiffies).cookie))
      (.byCalc i) := by
  have hfits := h.tasks i
  rw [hpc] at hfits
  obtain rfl : m = .taking i := hfits
  obtain ⟨hhold,hout,-⟩ := h.mode
  have hunlocks := held_unlocks s.dev osJiffies
  refine h.change ⟨hhold,hout,?_⟩ rfl ?_ fun j hj hfits => ?_
  · exact (of_decide_eq_true hunlocks).1
  · exact Or.inr ⟨decide_eq_false hne,rfl,rfl,hunlocks⟩
  · cases hpc : s.pc j with
    | program c | wait c | release c r => simp [hpc,Pc.Fits] at hfits
    | set c =>
      rw [hpc] at hfits
      exact absurd (Mode.taking.inj hfits) (Ne.symm hj)
    | _ => simp [Pc.Fits,Ne.symm hj]

theorem Inv.setHold (h : Inv s m) {cookie : BitVec 16} {of : Option ℕ} {osJiffies : BitVec 64}
    (hpc : s.pc i = .set (.ofHold cookie of)) (holds : List (BitVec 16)) (n : ℕ) :
    Inv (Sys.at { s with dev := s.dev.held osJiffies, holds := holds, outstanding := some n } i (.out RET_OK))
      (.byHold n i) := by
  have hfits := h.tasks i
  rw [hpc] at hfits
  obtain rfl : m = .taking i := hfits
  have hunlocks := held_unlocks s.dev osJiffies
  refine h.change ⟨h.mode.1,rfl,?_⟩ rfl (by simp [Pc.Fits]) fun j hj hfits => ?_
  · exact (of_decide_eq_true hunlocks).1
  · cases hpc : s.pc j with
    | program c | wait c | release c r => simp [hpc,Pc.Fits] at hfits
    | set c =>
      rw [hpc] at hfits
      exact absurd (Mode.taking.inj hfits) (Ne.symm hj)
    | _ => simp [Pc.Fits]

/-- The mutex is unlocked with no calculation under way in another task. -/
theorem Inv.unlocked (h : Inv s m) {r : ℤ} (hhold : s.hold = some i) (hout : t.outstanding = none)
    (hdev : t.dev = s.dev.unheld) (hunlock : t.hold = if s.hold = some i then none else s.hold)
    (hpc : t.pc = Function.update s.pc i (.out r))
    (hother : ∀ j, j ≠ i → m ≠ .taking j ∧ m ≠ .byCalc j ∧ (s.pc j).shares = false) : Inv t .free := by
  refine h.change ⟨?_,hout,?_⟩ hpc (by simp [Pc.Fits]) fun j hj hfits => ?_
  · rw [hunlock,if_pos hhold]
  · rw [hdev]
    exact unheld_flags s.dev
  · obtain ⟨htaking,hcalc,hshares⟩ := hother j hj
    cases hpcj : s.pc j with
    | set c =>
      rw [hpcj] at hfits
      exact absurd hfits htaking
    | release c r =>
      rw [hpcj] at hfits
      exact absurd hfits.1 hcalc
    | program c | wait c =>
      rw [hpcj] at hfits hshares
      rcases hfits with ⟨hhold,-⟩ | ⟨-,-,heq,-⟩
      · simp [Pc.shares,hhold] at hshares
      · exact absurd heq hcalc
    | _ => simp [Pc.Fits]

theorem Inv.go (h : Inv s m) (hgood : ¬ Collides s (.go i)) (hs : s.go i (s.pc i) = some t) : ∃ m', Inv t m' := by
  have hfits := h.tasks i
  cases hpc : s.pc i with
  | out r | lock c | set c | wait c => simp [hpc,Sys.go] at hs
  | test c =>
    rw [hpc] at hfits
    obtain rfl := Option.some.inj (hpc ▸ hs)
    cases hlocks : s.dev.locks c.cookie with
    | true => exact ⟨m,h.move hfits⟩
    | false =>
      refine ⟨m,h.move ?_⟩
      simp only [Collides,hpc,hlocks,true_and,not_not] at hgood
      obtain ⟨hout,hof⟩ := hgood
      cases c with
      | ofHold cookie of => exact hfits
      | ofCalc req cont of =>
        have hcookie : req.cookie = s.dev.cookie := (locks_false_iff.mp hlocks).2
        cases m with
        | byHold n k =>
          have hn : of = some n := hof.trans h.mode.2.1
          exact Or.inl ⟨decide_eq_true hcookie,n,k,rfl,hn⟩
        | free => exact absurd h.mode.2.1 hout
        | taking k | byCalc k => exact absurd h.mode.2.1 hout
  | program c =>
    rw [hpc] at hfits
    obtain rfl := Option.some.inj (hpc ▸ hs)
    exact ⟨m,h.move hfits⟩
  | release c r =>
    rw [hpc] at hfits
    obtain ⟨rfl,hunlocks⟩ := hfits
    simp only [hpc,Sys.go,hunlocks,if_pos] at hs
    obtain rfl := Option.some.inj hs
    refine ⟨.free,h.unlocked h.mode.1 h.mode.2.1 rfl rfl rfl fun j hj => ⟨by simp,?_,?_⟩⟩
    · exact fun heq => hj (Mode.byCalc.inj heq).symm
    · have hfitsj := h.tasks j
      cases hpcj : s.pc j with
      | program c | wait c =>
        rw [hpcj] at hfitsj
        rcases hfitsj with ⟨-,n,k,heq,-⟩ | ⟨hhold,-⟩
        · cases heq
        · exact hhold
      | _ => rfl
  | unhold cookie of =>
    rw [hpc] at hfits
    simp only [hpc,Sys.go] at hs
    cases hunlocks : s.dev.unlocks cookie with
    | false =>
      obtain rfl := Option.some.inj (hunlocks ▸ hs)
      exact ⟨m,h.move hfits⟩
    | true =>
      simp only [Collides,hpc,hunlocks,true_and,not_not] at hgood
      obtain ⟨hout,hof,hhold,howner,hshares⟩ := hgood
      obtain rfl := Option.some.inj (hunlocks ▸ hs)
      obtain ⟨k,hk⟩ := Option.ne_none_iff_exists'.mp hhold
      obtain rfl := howner k hk
      refine ⟨.free,h.unlocked hk (if_pos hof) rfl rfl rfl fun j hj => ⟨?_,?_,hshares j⟩⟩
      · rintro rfl
        exact hout h.mode.2.1
      · rintro rfl
        exact hout h.mode.2.1

theorem call_eq {cookie : BitVec 16} {of : Option ℕ} (hs : s.call i cookie of p = some t) :
    (∃ r, s.pc i = .out r) ∧ t = s.at i p := by
  simp only [Sys.call] at hs
  split at hs
  · next r hpc =>
    obtain ⟨-,hs⟩ := Option.ite_none_right_eq_some.mp hs
    exact ⟨⟨r,hpc⟩,(Option.some.inj hs).symm⟩
  · cases hs

theorem Inv.step (h : Inv s m) (hgood : ¬ Collides s l) (hs : HgCrcHold.step s l = some t) : ∃ m', Inv t m' := by
  cases l with
  | crcCalc i req cont of =>
    obtain ⟨⟨r,hpc⟩,rfl⟩ := call_eq hs
    have hfits := h.tasks i
    rw [hpc] at hfits
    refine ⟨m,h.move ?_⟩
    split <;> exact hfits
  | crcHold i cookie of | crcUnhold i cookie of =>
    obtain ⟨⟨r,hpc⟩,rfl⟩ := call_eq hs
    have hfits := h.tasks i
    rw [hpc] at hfits
    exact ⟨m,h.move hfits⟩
  | go i => exact h.go hgood hs
  | lock i =>
    simp only [HgCrcHold.step] at hs
    split at hs
    · next c hpc =>
      obtain ⟨hnone,hs⟩ := Option.ite_none_right_eq_some.mp hs
      obtain rfl := Option.some.inj hs
      exact ⟨_,h.locked hnone c⟩
    · cases hs
  | timeout i =>
    simp only [HgCrcHold.step] at hs
    split at hs
    · next c hpc =>
      obtain rfl := Option.some.inj hs
      have hfits := h.tasks i
      rw [hpc] at hfits
      exact ⟨m,h.move hfits⟩
    · cases hs
  | set i osJiffies =>
    simp only [HgCrcHold.step] at hs
    split at hs
    · next c hpc =>
      cases c with
      | ofCalc req cont of =>
        obtain rfl := Option.some.inj hs
        simp only [Collides,hpc,not_or,Bool.not_eq_true] at hgood
        obtain ⟨rfl,hne⟩ := hgood
        exact ⟨_,h.setCalc hpc hne⟩
      | ofHold cookie of =>
        obtain rfl := Option.some.inj hs
        exact ⟨_,h.setHold hpc _ _⟩
    · cases hs
  | done i ok =>
    simp only [HgCrcHold.step] at hs
    split at hs
    · next c hpc =>
      obtain rfl := Option.some.inj hs
      have hfits := h.tasks i
      rw [hpc] at hfits
      refine ⟨m,h.move ?_⟩
      rcases hfits with ⟨hhold,n,k,rfl,-⟩ | ⟨hhold,hcont,rfl,hunlocks⟩
      · simp [hhold,Pc.Fits]
      · simp [hhold,hcont,Pc.Fits,hunlocks]
    · cases hs

end Steps

/-- A CRC32 of some bytes, with what was left in the cookie. -/
def left (cookie : BitVec 16) : CrcDevReq := ⟨7,cookie,0x20000000,64⟩

/-- Who has the mutex at the end of a run, and who is to give it back. -/
def Sys.seen (s : Sys Bool) : Option Bool × Option ℕ × Bool × Bool :=
  (s.hold,s.outstanding,(s.pc true).owes,(s.pc false).owes)

end FmacSdk.HgCrcHold
