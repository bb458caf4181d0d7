import FmacSdk.Common.Errno
import FmacSdk.Foundation.Custody
import FmacSdk.Posix.MqueueNames
import Mathlib.Data.Fintype.Defs
import Mathlib.Data.Int.Order.Basic

/-! # How long message queues live

A descriptor is a bare pointer to the struct pthread_mq, which mq_unlink frees.
Structs and message blocks are numbered as they are allocated, so a number stands
for one block for ever.
-/
namespace FmacSdk.MqueueLifetime
open Custody MqueueNames Transition
open scoped List
variable {ι : Type*}

/-- A struct pthread_mq besides its name; what is in the msgq is the val and its data. -/
structure Mq where
  unlink : Bool
  size : ℕ
  msgq : List (ℕ × ℕ)
  opened : Bool
  deleted : Bool

def blank : Mq := ⟨false,0,[],false,false⟩

/-- The next statement of a call. -/
inductive Pc
  | out (result : ℤ)
  | openFind (name : Name) (size : ℕ)
  | openAlloc (name : Name) (size : ℕ)
  | openAdd (name : Name) (mq : ℕ)
  | unlinkFind (name : Name)
  | unlinkCnt (mq : ℕ)
  | unlinkGet (mq : ℕ)
  | unlinkFreeData (mq val data : ℕ)
  | unlinkFreeVal (mq val : ℕ)
  | unlinkDel (mq : ℕ)
  | unlinkFree (mq : ℕ)
  | send (mq : ℕ)
  | sendAlloc (mq : ℕ)
  | sendDup (mq val : ℕ)
  | sendPut (mq val data : ℕ)
  | sendFreeData (val data : ℕ)
  | sendFree (val : ℕ)
  | recv (mq : ℕ)
  | recvGet (mq : ℕ)
  | recvFreeData (val data : ℕ)
  | recvFree (val : ℕ)

/-- With how many structs and message blocks were allocated, and those that were freed. -/
structure Sys (ι : Type*) where
  mqList : List PthreadMq
  mq : ℕ → Mq
  mqs : ℕ
  blocks : ℕ
  goneMqs : List ℕ
  goneBlocks : List ℕ
  pc : ι → Pc

/-- A call, a statement, an allocation that fails, or a wait of os_msgq that fails. -/
inductive Label (ι : Type*)
  | mqOpen (i : ι) (name : Name) (size : ℕ)
  | mqClose (i : ι)
  | mqUnlink (i : ι) (name : Name)
  | mqSend (i : ι) (mq : ℕ)
  | mqReceive (i : ι) (mq : ℕ)
  | go (i : ι)
  | noMem (i : ι)
  | fail (i : ι)

def Pc.isOut : Pc → Bool
  | .out _ => true
  | _ => false

section Code

def Sys.set (s : Sys ι) (q : ℕ) (f : Mq → Mq) : Sys ι := { s with mq := Function.update s.mq q (f (s.mq q)) }

def Sys.free (s : Sys ι) (b : ℕ) : Sys ι := { s with goneBlocks := b :: s.goneBlocks }

variable [DecidableEq ι]

def Sys.at (s : Sys ι) (i : ι) (p : Pc) : Sys ι := { s with pc := Function.update s.pc i p }

/-- os_msgq_get of a message that is there. -/
def Sys.get (s : Sys ι) (q : ℕ) : Sys ι := s.set q fun m => { m with msgq := m.msgq.tail }

def Sys.go (s : Sys ι) (i : ι) : Pc → Option (Sys ι)
  | .openFind name size =>
    match mqListFind s.mqList name with
    | some mq => some (s.at i (.out mq.addr))
    | none => some (s.at i (.openAlloc name size))
  | .openAlloc name size =>
    some (({ s with mqs := s.mqs + 1 }.set s.mqs fun _ => ⟨false,size,[],false,false⟩).at i (.openAdd name s.mqs))
  | .openAdd name q =>
    some (({ s with mqList := initialized q name :: s.mqList }.set q fun m => { m with opened := true }).at i (.out q))
  | .unlinkFind name =>
    match mqListFind s.mqList name with
    | some mq =>
      let s := { s with mqList := mqListUnlink s.mqList name }
      some ((s.set mq.addr fun m => { m with unlink := true }).at i (.unlinkCnt mq.addr))
    | none => some (s.at i (.out (-ENODEV)))
  | .unlinkCnt q => some (s.at i (if 0 < (s.mq q).msgq.length then .unlinkGet q else .unlinkDel q))
  | .unlinkGet q =>
    match (s.mq q).msgq with
    | [] => some (s.at i (.unlinkCnt q))
    | (val,data) :: _ => some ((s.get q).at i (.unlinkFreeData q val data))
  | .unlinkFreeData q val data => some ((s.free data).at i (.unlinkFreeVal q val))
  | .unlinkFreeVal q val => some ((s.free val).at i (.unlinkCnt q))
  | .unlinkDel q => some ((s.set q fun m => { m with deleted := true }).at i (.unlinkFree q))
  | .unlinkFree q => some ({ s with goneMqs := q :: s.goneMqs }.at i (.out 0))
  | .send q => some (s.at i (if (s.mq q).unlink then .out (-ENODEV) else .sendAlloc q))
  | .sendAlloc q => some ({ s with blocks := s.blocks + 1 }.at i (.sendDup q s.blocks))
  | .sendDup q val => some ({ s with blocks := s.blocks + 1 }.at i (.sendPut q val s.blocks))
  | .sendPut q val data =>
    if (s.mq q).msgq.length < (s.mq q).size then
      some ((s.set q fun m => { m with msgq := m.msgq ++ [(val,data)] }).at i (.out RET_OK))
    else none
  | .sendFreeData val data => some ((s.free data).at i (.sendFree val))
  | .sendFree val => some ((s.free val).at i (.out (-ENOMEM)))
  | .recv q => some (s.at i (if (s.mq q).unlink then .out (-ENODEV) else .recvGet q))
  | .recvGet q =>
    match (s.mq q).msgq with
    | [] => none
    | (val,data) :: _ => some ((s.get q).at i (.recvFreeData val data))
  | .recvFreeData val data => some ((s.free data).at i (.recvFree val))
  | .recvFree val => some ((s.free val).at i (.out 0))
  | .out _ => none

/-- A call begins, of a thread that is in none. -/
def Sys.call (s : Sys ι) (i : ι) (p : Pc) : Option (Sys ι) := if (s.pc i).isOut then some (s.at i p) else none

def step (s : Sys ι) : Label ι → Option (Sys ι)
  | .mqOpen i name size => s.call i (.openFind name size)
  | .mqClose i => s.call i (.out 0)
  | .mqUnlink i name => s.call i (.unlinkFind name)
  | .mqSend i q => if (s.mq q).opened then s.call i (.send q) else none
  | .mqReceive i q => if (s.mq q).opened then s.call i (.recv q) else none
  | .go i => s.go i (s.pc i)
  | .noMem i => match s.pc i with
    | .openAlloc .. | .sendAlloc _ => some (s.at i (.out (-ENOMEM)))
    | .sendDup _ val => some (s.at i (.sendFree val))
    | _ => none
  | .fail i => match s.pc i with
    | .sendPut _ val data => some (s.at i (.sendFreeData val data))
    | .recvGet _ => some (s.at i (.out (-1)))
    | _ => none

end Code

/-- No queue is open. -/
def start : Sys ι := ⟨[],fun _ => blank,0,0,[],[],fun _ => .out 0⟩

/-- Who has a struct or a block. -/
inductive Place (ι : Type*)
  | thread (i : ι)
  | list
  | msgq (q : ℕ)
  | gone
deriving DecidableEq

/-- The blocks that a call has to free or pass on. -/
def Pc.blocks : Pc → List ℕ
  | .sendPut _ val data | .sendFreeData val data | .recvFreeData val data | .unlinkFreeData _ val data => [val,data]
  | .sendDup _ val | .sendFree val | .recvFree val | .unlinkFreeVal _ val => [val]
  | _ => []

/-- The struct that a call has to add or free. -/
def Pc.mqs : Pc → List ℕ
  | .openAdd _ q | .unlinkCnt q | .unlinkGet q | .unlinkFreeData q _ _ | .unlinkFreeVal q _ | .unlinkDel q |
    .unlinkFree q => [q]
  | _ => []

/-- The queue whose unlink flag is read next. -/
def Pc.tests : Pc → Option ℕ
  | .send q | .recv q => some q
  | _ => none

/-- The queue whose unlink flag was not set, until the call is done with its msgq. -/
def Pc.passed : Pc → Option ℕ
  | .sendAlloc q | .sendDup q _ | .sendPut q .. | .recvGet q => some q
  | _ => none

/-- The queue that a call has unlinked. -/
def Pc.unlinks : Pc → Option ℕ
  | .unlinkCnt q | .unlinkGet q | .unlinkFreeData q .. | .unlinkFreeVal q _ | .unlinkDel q | .unlinkFree q => some q
  | _ => none

def Mq.blocks (m : Mq) : List ℕ := m.msgq.flatMap fun x => [x.1,x.2]

def Sys.blocksAt (s : Sys ι) : Place ι → List ℕ
  | .thread i => (s.pc i).blocks
  | .list => []
  | .msgq q => (s.mq q).blocks
  | .gone => s.goneBlocks

def Sys.mqsAt (s : Sys ι) : Place ι → List ℕ
  | .thread i => (s.pc i).mqs
  | .list => s.mqList.map PthreadMq.addr
  | .msgq _ => []
  | .gone => s.goneMqs

/-- What the next statements of the calls access is not freed, nor is what mq_list has; a call
that passed its test has its msgq until it is done with it; each message block is in one
place, once, or was freed once, and is not lost in a msgq that was deleted. -/
structure Sys.Safe (s : Sys ι) : Prop where
  tests : ∀ i q, (s.pc i).tests = some q → q ∉ s.goneMqs
  passed : ∀ i q, (s.pc i).passed = some q → q ∉ s.goneMqs ∧ (s.mq q).deleted = false
  has : ∀ i, ∀ q ∈ (s.pc i).mqs, q ∉ s.goneMqs
  listed : ∀ mq ∈ s.mqList, mq.addr ∉ s.goneMqs
  once : Kept s.blocksAt s.blocks
  kept : ∀ q, (s.mq q).deleted = true → (s.mq q).blocks = []

/-- A call gets the descriptor of a queue that was freed, a msgq is deleted with messages in it
or before calls that passed their tests are done with it, or a queue is freed before a call
has read its flag. -/
def Dangles (s : Sys ι) : Label ι → Prop
  | .mqSend _ q | .mqReceive _ q => q ∈ s.goneMqs
  | .go i => match s.pc i with
    | .unlinkDel q => (s.mq q).msgq ≠ [] ∨ ∃ j, (s.pc j).passed = some q
    | .unlinkFree q => ∃ j, (s.pc j).tests = some q
    | _ => False
  | _ => False

instance [Fintype ι] (s : Sys ι) (l : Label ι) : Decidable (Dangles s l) := by
  unfold Dangles
  split
  · infer_instance
  · infer_instance
  · split
    · infer_instance
    · infer_instance
    · infer_instance
  · infer_instance

structure Inv (s : Sys ι) : Prop where
  tests : ∀ i q, (s.pc i).tests = some q → q < s.mqs ∧ q ∉ s.goneMqs
  passed : ∀ i q, (s.pc i).passed = some q → q < s.mqs ∧ (s.mq q).deleted = false
  structs : Kept s.mqsAt s.mqs
  blocks : Kept s.blocksAt s.blocks
  empty : ∀ q, (s.mq q).deleted = true → (s.mq q).msgq = []
  fresh : ∀ q, s.mqs ≤ q → s.mq q = blank
  gone : ∀ q ∈ s.goneMqs, (s.mq q).deleted = true
  freeing : ∀ i q, s.pc i = .unlinkFree q → (s.mq q).deleted = true
  unlinked : ∀ i q, (s.pc i).unlinks = some q → (s.mq q).unlink = true
  flag : ∀ q, (s.mq q).deleted = true → (s.mq q).unlink = true

/-- A call may go to a statement, as far as the queue goes that it uses next. -/
structure Goes (s : Sys ι) (p : Pc) : Prop where
  tests : ∀ q, p.tests = some q → q < s.mqs ∧ q ∉ s.goneMqs
  passed : ∀ q, p.passed = some q → q < s.mqs ∧ (s.mq q).deleted = false
  freeing : ∀ q, p ≠ .unlinkFree q

section Steps
variable {s t u : Sys ι} {i j : ι} {p : Pc} {q b val data : ℕ} {l : Label ι}

theorem Inv.start : Inv (start : Sys ι) := by
  refine ⟨?_,?_,Kept.none fun p => ?_,Kept.none fun p => ?_,?_,?_,?_,?_,?_,?_⟩
  · simp [MqueueLifetime.start,Pc.tests]
  · simp [MqueueLifetime.start,Pc.passed]
  · cases p <;> rfl
  · cases p <;> rfl
  all_goals simp [MqueueLifetime.start,Pc.unlinks,blank]

theorem Inv.safe (h : Inv s) : s.Safe := by
  have hhas {i : ι} {q : ℕ} (hq : q ∈ (s.pc i).mqs) : q ∉ s.goneMqs := by
    intro hgone
    have hplace := h.structs.unique (.thread i) .gone q hq hgone
    cases hplace
  have hlisted {mq : PthreadMq} (hmq : mq ∈ s.mqList) : mq.addr ∉ s.goneMqs := by
    intro hgone
    have hplace := h.structs.unique .list .gone mq.addr (List.mem_map_of_mem hmq) hgone
    cases hplace
  refine ⟨fun i q hi => (h.tests i q hi).2,fun i q hi => ⟨fun hgone => ?_,(h.passed i q hi).2⟩,fun i q => hhas,
    fun mq => hlisted,h.blocks,fun q hq => ?_⟩
  · have hdeleted := h.gone q hgone
    simp [(h.passed i q hi).2] at hdeleted
  · rw [Mq.blocks,h.empty q hq]
    rfl

theorem goes_quiet (htests : p.tests = none) (hpassed : p.passed = none) (hfreeing : ∀ q, p ≠ .unlinkFree q) :
    Goes s p := by
  refine ⟨fun q hq => ?_,fun q hq => ?_,hfreeing⟩
  · simp [htests] at hq
  · simp [hpassed] at hq

theorem goes_passed (htests : p.tests = none) (hpassed : p.passed = some q) (hq : q < s.mqs ∧ (s.mq q).deleted = false)
    (hfreeing : ∀ q, p ≠ .unlinkFree q) : Goes s p := by
  refine ⟨fun r hr => ?_,fun r hr => ?_,hfreeing⟩
  · simp [htests] at hr
  · obtain rfl := Option.some.inj (hpassed.symm.trans hr)
    exact hq

theorem set_self (s : Sys ι) (q : ℕ) (f : Mq → Mq) : (s.set q f).mq q = f (s.mq q) := Function.update_self ..

theorem set_of_ne (s : Sys ι) (f : Mq → Mq) {q r : ℕ} (hr : r ≠ q) : (s.set q f).mq r = s.mq r :=
  Function.update_of_ne hr ..

variable [DecidableEq ι]

theorem at_self (s : Sys ι) (i : ι) (p : Pc) : (s.at i p).pc i = p := Function.update_self ..

theorem at_of_ne (s : Sys ι) (p : Pc) (hj : j ≠ i) : (s.at i p).pc j = s.pc j := Function.update_of_ne hj ..

theorem at_cases {P : Pc → Prop} (hp : P p) (hs : P (s.pc j)) : P ((s.at i p).pc j) := by
  by_cases hj : j = i
  · rw [hj,at_self]
    exact hp
  · rw [at_of_ne s p hj]
    exact hs

theorem mqsAt_of_ne (hpc : u.pc = s.pc) (hj : j ≠ i) : (u.at i p).mqsAt (.thread j) = s.mqsAt (.thread j) := by
  rw [Sys.mqsAt,at_of_ne u p hj,hpc]
  rfl

theorem mqsAt_eq (hp : p.mqs = (s.pc i).mqs) (hpc : u.pc = s.pc) (hlist : u.mqList = s.mqList)
    (hgone : u.goneMqs = s.goneMqs) : (u.at i p).mqsAt = s.mqsAt := by
  funext r
  cases r with
  | thread j =>
    by_cases hj : j = i
    · rw [hj,Sys.mqsAt,at_self,hp]
      rfl
    · exact mqsAt_of_ne hpc hj
  | list => exact congrArg (List.map PthreadMq.addr) hlist
  | msgq r => rfl
  | gone => exact hgone

theorem blocksAt_of_ne (hpc : u.pc = s.pc) (hj : j ≠ i) : (u.at i p).blocksAt (.thread j) = s.blocksAt (.thread j) := by
  rw [Sys.blocksAt,at_of_ne u p hj,hpc]
  rfl

theorem blocksAt_eq (hp : p.blocks = (s.pc i).blocks) (hpc : u.pc = s.pc) (hmsgq : ∀ q, (u.mq q).msgq = (s.mq q).msgq)
    (hgone : u.goneBlocks = s.goneBlocks) : (u.at i p).blocksAt = s.blocksAt := by
  funext r
  cases r with
  | thread j =>
    by_cases hj : j = i
    · rw [hj,Sys.blocksAt,at_self,hp]
      rfl
    · exact blocksAt_of_ne hpc hj
  | list => rfl
  | msgq r => exact congrArg (List.flatMap _) (hmsgq r)
  | gone => exact hgone

theorem Inv.structs_at (h : Inv s) (hp : p.mqs = (s.pc i).mqs) (hpc : u.pc = s.pc) (hlist : u.mqList = s.mqList)
    (hgone : u.goneMqs = s.goneMqs) : Kept (u.at i p).mqsAt s.mqs := by
  rw [mqsAt_eq hp hpc hlist hgone]
  exact h.structs

theorem Inv.blocks_at (h : Inv s) (hp : p.blocks = (s.pc i).blocks) (hpc : u.pc = s.pc)
    (hmsgq : ∀ q, (u.mq q).msgq = (s.mq q).msgq) (hgone : u.goneBlocks = s.goneBlocks) :
    Kept (u.at i p).blocksAt s.blocks := by
  rw [blocksAt_eq hp hpc hmsgq hgone]
  exact h.blocks

/-- A step of thread `i` that keeps what is in its place and marks no queue as deleted or gone. -/
theorem Inv.next (h : Inv s) (hpc : u.pc = s.pc) (hgone : u.goneMqs = s.goneMqs) (hle : s.mqs ≤ u.mqs)
    (hmq : ∀ q, (u.mq q).deleted = (s.mq q).deleted) (hflag : ∀ q, (s.mq q).unlink = true → (u.mq q).unlink = true)
    (hgoes : Goes s p) (hunlinks : ∀ q, p.unlinks = some q → (u.mq q).unlink = true)
    (hempty : ∀ q, (s.mq q).deleted = true → (u.mq q).msgq = [])
    (hfresh : ∀ q, u.mqs ≤ q → u.mq q = s.mq q)
    (hstructs : Kept (u.at i p).mqsAt u.mqs) (hblocks : Kept (u.at i p).blocksAt u.blocks) : Inv (u.at i p) := by
  have hcases {j : ι} {P : Pc → Prop} (hp : P p) (hs : P (s.pc j)) : P ((u.at i p).pc j) :=
    at_cases (s := u) hp (hpc ▸ hs)
  refine ⟨fun j q => ?_,fun j q => ?_,hstructs,hblocks,fun q hq => ?_,fun q hq => ?_,fun q hq => ?_,fun j q => ?_,
    fun j q => ?_,fun q hq => ?_⟩
  · refine hcases (P := fun p => p.tests = some q → q < u.mqs ∧ q ∉ u.goneMqs) (fun hq => ?_) (fun hq => ?_)
    · exact ⟨(hgoes.tests q hq).1.trans_le hle,hgone ▸ (hgoes.tests q hq).2⟩
    · exact ⟨(h.tests j q hq).1.trans_le hle,hgone ▸ (h.tests j q hq).2⟩
  · refine hcases (P := fun p => p.passed = some q → q < u.mqs ∧ (u.mq q).deleted = false) (fun hq => ?_) (fun hq => ?_)
    · exact ⟨(hgoes.passed q hq).1.trans_le hle,hmq q ▸ (hgoes.passed q hq).2⟩
    · exact ⟨(h.passed j q hq).1.trans_le hle,hmq q ▸ (h.passed j q hq).2⟩
  · exact hempty q (hmq q ▸ hq)
  · have heq : (u.at i p).mq q = s.mq q := hfresh q hq
    rw [heq]
    exact h.fresh q (hle.trans hq)
  · exact (hmq q).trans (h.gone q (hgone ▸ hq))
  · refine hcases (P := fun p => p = .unlinkFree q → (u.mq q).deleted = true) (fun hq => ?_) (fun hq => ?_)
    · exact absurd hq (hgoes.freeing q)
    · exact (hmq q).trans (h.freeing j q hq)
  · refine hcases (P := fun p => p.unlinks = some q → (u.mq q).unlink = true) (hunlinks q) fun hq => ?_
    exact hflag q (h.unlinked j q hq)
  · exact hflag q (h.flag q (hmq q ▸ hq))

/-- Thread `i` goes on with what it has. -/
theorem Inv.move (h : Inv s) (hgoes : Goes s p) (hunlinks : ∀ q, p.unlinks = some q → (s.pc i).unlinks = some q)
    (hmqs : p.mqs = (s.pc i).mqs) (hblocks : p.blocks = (s.pc i).blocks) : Inv (s.at i p) := by
  refine h.next rfl rfl le_rfl (fun _ => rfl) (fun _ => id) hgoes (fun q hq => h.unlinked i q (hunlinks q hq)) h.empty
    (fun _ _ => rfl) ?_ ?_
  · exact h.structs_at hmqs rfl rfl rfl
  · exact h.blocks_at hblocks rfl (fun _ => rfl) rfl

theorem Inv.freed (h : Inv s) (hgoes : Goes s p) (hunlinks : ∀ q, p.unlinks = some q → (s.pc i).unlinks = some q)
    (hmqs : p.mqs = (s.pc i).mqs) (hblocks : (s.pc i).blocks.Perm (b :: p.blocks)) : Inv ((s.free b).at i p) := by
  refine h.next rfl rfl le_rfl (fun _ => rfl) (fun _ => id) hgoes (fun q hq => h.unlinked i q (hunlinks q hq)) h.empty
    (fun _ _ => rfl) ?_ ?_
  · exact h.structs_at hmqs rfl rfl rfl
  · refine h.blocks.handed (p := .thread i) (q := .gone) ⟨by simp,?_,fun r hr hr' => ?_⟩
    · show (((s.free b).at i p).pc i).blocks ++ b :: s.goneBlocks ~ (s.pc i).blocks ++ s.goneBlocks
      rw [at_self]
      exact List.perm_middle.trans (hblocks.symm.append_right _)
    · cases r with
      | thread j => exact blocksAt_of_ne rfl (by simpa using hr)
      | list | msgq q => rfl
      | gone => exact absurd rfl hr'

theorem Inv.allocated (h : Inv s) (hgoes : Goes s p) (hunlinks : p.unlinks = none) (hmqs : p.mqs = (s.pc i).mqs)
    (hblocks : p.blocks.Perm (s.blocks :: (s.pc i).blocks)) : Inv (Sys.at { s with blocks := s.blocks + 1 } i p) := by
  refine h.next rfl rfl le_rfl (fun _ => rfl) (fun _ => id) hgoes (by simp [hunlinks]) h.empty (fun _ _ => rfl) ?_ ?_
  · exact h.structs_at hmqs rfl rfl rfl
  · refine h.blocks.added (p := .thread i) ⟨?_,fun r hr => ?_⟩
    · show ((Sys.at { s with blocks := s.blocks + 1 } i p).pc i).blocks ~ _
      rw [at_self]
      exact hblocks
    · cases r with
      | thread j => exact blocksAt_of_ne rfl (by simpa using hr)
      | list | msgq q | gone => rfl

/-- A message is passed between thread `i` and a queue. -/
theorem Inv.passes (h : Inv s) {f : Mq → Mq} (hgoes : Goes s p)
    (hunlinks : ∀ q, p.unlinks = some q → (s.pc i).unlinks = some q) (hmqs : p.mqs = (s.pc i).mqs) (hq : q < s.mqs)
    (hf : (f (s.mq q)).deleted = (s.mq q).deleted ∧ (f (s.mq q)).unlink = (s.mq q).unlink) (hempty : (s.mq q).deleted = true → (f (s.mq q)).msgq = [])
    (hperm : p.blocks ++ (f (s.mq q)).blocks ~ (s.pc i).blocks ++ (s.mq q).blocks) : Inv ((s.set q f).at i p) := by
  have hflags (r : ℕ) : ((s.set q f).mq r).deleted = (s.mq r).deleted ∧ ((s.set q f).mq r).unlink = (s.mq r).unlink := by
    by_cases hr : r = q
    · rw [hr,set_self]
      exact hf
    · rw [set_of_ne s f hr]
      exact ⟨rfl,rfl⟩
  refine h.next rfl rfl le_rfl (fun r => (hflags r).1) (fun r => (hflags r).2.trans) hgoes
    (fun r hr => (hflags r).2.trans (h.unlinked i r (hunlinks r hr))) (fun r => ?_) (fun r hr => ?_) ?_ ?_
  · by_cases hr : r = q
    · rw [hr,set_self]
      exact hempty
    · rw [set_of_ne s f hr]
      exact h.empty r
  · exact set_of_ne s f (Nat.ne_of_gt (hq.trans_le hr))
  · exact h.structs_at hmqs rfl rfl rfl
  · refine h.blocks.handed (p := .thread i) (q := .msgq q) ⟨by simp,?_,fun r hr hr' => ?_⟩
    · show (((s.set q f).at i p).pc i).blocks ++ ((s.set q f).mq q).blocks ~ _
      rw [at_self,set_self]
      exact hperm
    · cases r with
      | thread j => exact blocksAt_of_ne rfl (by simpa using hr)
      | msgq r =>
        show ((s.set q f).mq r).blocks = (s.mq r).blocks
        rw [set_of_ne s f (by simpa using hr')]
      | list | gone => rfl

/-- A queue gets other flags, and threads and mq_list share the structs anew. -/
theorem Inv.flagged (h : Inv s) {list : List PthreadMq} {f : Mq → Mq} (hgoes : Goes s p)
    (hunlinks : ∀ r, p.unlinks = some r → r = q ∧ (f (s.mq q)).unlink = true) (hblocks : p.blocks = (s.pc i).blocks)
    (hq : q < s.mqs) (hf : ∀ m, (f m).deleted = m.deleted ∧ (f m).msgq = m.msgq ∧ (m.unlink = true → (f m).unlink = true))
    (hperm : p.mqs ++ list.map PthreadMq.addr ~ (s.pc i).mqs ++ s.mqList.map PthreadMq.addr) :
    Inv ((Sys.set { s with mqList := list } q f).at i p) := by
  have hmq (r : ℕ) : ((Sys.set { s with mqList := list } q f).mq r).deleted = (s.mq r).deleted ∧
      ((Sys.set { s with mqList := list } q f).mq r).msgq = (s.mq r).msgq ∧
        ((s.mq r).unlink = true → ((Sys.set { s with mqList := list } q f).mq r).unlink = true) := by
    by_cases hr : r = q
    · rw [hr,set_self]
      exact hf _
    · rw [set_of_ne _ f hr]
      exact ⟨rfl,rfl,id⟩
  refine h.next rfl rfl le_rfl (fun r => (hmq r).1) (fun r => (hmq r).2.2) hgoes (fun r hr => ?_)
    (fun r hr => (hmq r).2.1.trans (h.empty r hr)) (fun r hr => ?_) ?_ (h.blocks_at hblocks rfl (fun r => (hmq r).2.1) rfl)
  · obtain ⟨rfl,hflag⟩ := hunlinks r hr
    rw [set_self]
    exact hflag
  · exact set_of_ne _ f (Nat.ne_of_gt (hq.trans_le hr))
  · refine h.structs.handed (p := .thread i) (q := .list) ⟨by simp,?_,fun r hr hr' => ?_⟩
    · show (((Sys.set { s with mqList := list } q f).at i p).pc i).mqs ++ list.map PthreadMq.addr ~ _
      rw [at_self]
      exact hperm
    · cases r with
      | thread j => exact mqsAt_of_ne rfl (by simpa using hr)
      | list => exact absurd rfl hr'
      | msgq r | gone => rfl

theorem Inv.openAlloc (h : Inv s) {name : Name} {size : ℕ} (hpc : s.pc i = .openAlloc name size) :
    Inv ((Sys.set { s with mqs := s.mqs + 1 } s.mqs fun _ => ⟨false,size,[],false,false⟩).at i
      (.openAdd name s.mqs)) := by
  have hmq (q : ℕ) : ((Sys.set { s with mqs := s.mqs + 1 } s.mqs fun _ => ⟨false,size,[],false,false⟩).mq q) =
      { s.mq q with size := if q = s.mqs then size else (s.mq q).size } := by
    by_cases hq : q = s.mqs
    · rw [hq,set_self,h.fresh s.mqs le_rfl,if_pos rfl]
      rfl
    · rw [set_of_ne _ _ hq,if_neg hq]
  refine h.next rfl rfl (Nat.le_succ _) (fun q => by rw [hmq])
    (fun q hq => (congrArg Mq.unlink (hmq q)).trans hq) (goes_quiet rfl rfl (by simp)) (by simp [Pc.unlinks])
    (fun q hq => (congrArg Mq.msgq (hmq q)).trans (h.empty q hq)) (fun q hq => set_of_ne _ _ (Nat.ne_of_gt hq)) ?_
    (h.blocks_at (by rw [hpc]; rfl) rfl (fun q => by rw [hmq]) rfl)
  refine h.structs.added (p := .thread i) ⟨?_,fun r hr => ?_⟩
  · show (((Sys.set { s with mqs := s.mqs + 1 } s.mqs _).at i (.openAdd name s.mqs)).pc i).mqs ~ s.mqs :: (s.pc i).mqs
    rw [at_self,hpc]
    exact List.Perm.refl _
  · cases r with
    | thread j => exact mqsAt_of_ne rfl (by simpa using hr)
    | list | msgq q | gone => rfl

/-- The msgq is deleted when it is empty and no call is at it. -/
theorem Inv.deleted (h : Inv s) (hpc : s.pc i = .unlinkDel q) (hempty : (s.mq q).msgq = [])
    (hpassed : ¬ ∃ j, (s.pc j).passed = some q) :
    Inv ((s.set q fun m => { m with deleted := true }).at i (.unlinkFree q)) := by
  have hlt : q < s.mqs := h.structs.lt (p := .thread i) (by simp [Sys.mqsAt,hpc,Pc.mqs])
  have hmq {r : ℕ} (hr : r ≠ q) := set_of_ne s (fun m => { m with deleted := true }) hr
  have hself := set_self s q fun m => { m with deleted := true }
  have hmsgq (r : ℕ) : ((s.set q fun m => { m with deleted := true }).mq r).msgq = (s.mq r).msgq := by
    by_cases hr : r = q
    · rw [hr,hself]
    · rw [hmq hr]
  have hunlink (r : ℕ) : ((s.set q fun m => { m with deleted := true }).mq r).unlink = (s.mq r).unlink := by
    by_cases hr : r = q
    · rw [hr,hself]
    · rw [hmq hr]
  have hunlinked := h.unlinked i q (by rw [hpc]; rfl)
  refine ⟨fun j r => ?_,fun j r => ?_,?_,?_,fun r hr => ?_,fun r hr => ?_,fun r hr => ?_,fun j r => ?_,fun j r => ?_,
    fun r hr => ?_⟩
  · exact at_cases (P := fun p => p.tests = some r → r < s.mqs ∧ r ∉ s.goneMqs) (by simp [Pc.tests]) (h.tests j r)
  · refine at_cases (P := fun p => p.passed = some r → r < s.mqs ∧
      ((s.set q fun m => { m with deleted := true }).mq r).deleted = false) (by simp [Pc.passed]) fun hr => ?_
    have hne : r ≠ q := by
      rintro rfl
      exact hpassed ⟨j,hr⟩
    rw [hmq hne]
    exact h.passed j r hr
  · exact h.structs_at (by rw [hpc]; rfl) rfl rfl rfl
  · exact h.blocks_at (by rw [hpc]; rfl) rfl hmsgq rfl
  · refine (hmsgq r).trans ?_
    by_cases hrq : r = q
    · rw [hrq,hempty]
    · refine h.empty r ?_
      have heq := hmq hrq
      exact heq ▸ hr
  · exact (hmq (Nat.ne_of_gt (hlt.trans_le hr))).trans (h.fresh r hr)
  · by_cases hrq : r = q
    · obtain rfl := hrq
      exact congrArg Mq.deleted hself
    · exact (congrArg Mq.deleted (hmq hrq)).trans (h.gone r hr)
  · refine at_cases (P := fun p => p = .unlinkFree r →
      ((s.set q fun m => { m with deleted := true }).mq r).deleted = true) (fun hr => ?_) (fun hr => ?_)
    · obtain rfl := Pc.unlinkFree.inj hr
      exact congrArg Mq.deleted hself
    · by_cases hrq : r = q
      · obtain rfl := hrq
        exact congrArg Mq.deleted hself
      · exact (congrArg Mq.deleted (hmq hrq)).trans (h.freeing j r hr)
  · refine at_cases (P := fun p => p.unlinks = some r →
      ((s.set q fun m => { m with deleted := true }).mq r).unlink = true) (fun hr => ?_) (fun hr => ?_)
    · obtain rfl := Option.some.inj hr
      exact (hunlink q).trans hunlinked
    · exact (hunlink r).trans (h.unlinked j r hr)
  · refine (hunlink r).trans ?_
    by_cases hrq : r = q
    · rw [hrq,hunlinked]
    · have heq := hmq hrq
      exact h.flag r (heq ▸ hr)

/-- The struct is freed when no call is about to read its flag. -/
theorem Inv.structFreed (h : Inv s) (hpc : s.pc i = .unlinkFree q) (htests : ¬ ∃ j, (s.pc j).tests = some q) :
    Inv (Sys.at { s with goneMqs := q :: s.goneMqs } i (.out 0)) := by
  refine ⟨fun j r => ?_,fun j r => ?_,?_,?_,h.empty,h.fresh,fun r hr => ?_,fun j r => ?_,fun j r => ?_,h.flag⟩
  · refine at_cases (P := fun p => p.tests = some r → r < s.mqs ∧ r ∉ q :: s.goneMqs) (by simp [Pc.tests]) fun hr => ?_
    have hne : r ≠ q := by
      rintro rfl
      exact htests ⟨j,hr⟩
    simpa [hne] using h.tests j r hr
  · exact at_cases (P := fun p => p.passed = some r → r < s.mqs ∧ (s.mq r).deleted = false) (by simp [Pc.passed])
      (h.passed j r)
  · refine h.structs.handed (p := .thread i) (q := .gone) ⟨by simp,?_,fun r hr hr' => ?_⟩
    · show ((Sys.at { s with goneMqs := q :: s.goneMqs } i (.out 0)).pc i).mqs ++ q :: s.goneMqs ~
        (s.pc i).mqs ++ s.goneMqs
      rw [at_self,hpc]
      exact List.Perm.refl _
    · cases r with
      | thread j => exact mqsAt_of_ne rfl (by simpa using hr)
      | list | msgq r => rfl
      | gone => exact absurd rfl hr'
  · exact h.blocks_at (by rw [hpc]; rfl) rfl (fun _ => rfl) rfl
  · rcases List.mem_cons.mp hr with rfl | hr
    · exact h.freeing i r hpc
    · exact h.gone r hr
  · exact at_cases (P := fun p => p = .unlinkFree r → (s.mq r).deleted = true) (by simp) (h.freeing j r)
  · exact at_cases (P := fun p => p.unlinks = some r → (s.mq r).unlink = true) (by simp [Pc.unlinks]) (h.unlinked j r)

theorem call_eq (hs : s.call i p = some t) : (s.pc i).mqs = [] ∧ (s.pc i).blocks = [] ∧ t = s.at i p := by
  obtain ⟨hout,hs⟩ := Option.ite_none_right_eq_some.mp hs
  obtain rfl := Option.some.inj hs
  cases hpc : s.pc i with
  | out r => exact ⟨rfl,rfl,rfl⟩
  | _ => simp [hpc,Pc.isOut] at hout

theorem Inv.call (h : Inv s) (hs : s.call i p = some t) (hgoes : Goes s p) (hunlinks : p.unlinks = none)
    (hmqs : p.mqs = []) (hblocks : p.blocks = []) : Inv t := by
  obtain ⟨hmqs',hblocks',rfl⟩ := call_eq hs
  exact h.move hgoes (by simp [hunlinks]) (hmqs.trans hmqs'.symm) (hblocks.trans hblocks'.symm)

/-- The first of the messages is taken out of a queue. -/
theorem Inv.get (h : Inv s) {rest : List (ℕ × ℕ)} (hmsgq : (s.mq q).msgq = (val,data) :: rest) (hgoes : Goes s p)
    (hunlinks : ∀ q, p.unlinks = some q → (s.pc i).unlinks = some q) (hmqs : p.mqs = (s.pc i).mqs)
    (hblocks : p.blocks = [val,data]) (hnone : (s.pc i).blocks = []) : Inv ((s.get q).at i p) := by
  have hlt : q < s.mqs := by
    by_contra hge
    rw [h.fresh q (Nat.le_of_not_lt hge)] at hmsgq
    cases hmsgq
  refine h.passes hgoes hunlinks hmqs hlt ⟨rfl,rfl⟩ (fun hdeleted => ?_) ?_
  · simp [h.empty q hdeleted]
  · rw [hblocks,hnone,Mq.blocks,Mq.blocks,hmsgq]
    exact List.Perm.refl _

theorem Inv.go (h : Inv s) (hgood : ¬ Dangles s (.go i)) (hs : s.go i (s.pc i) = some t) : Inv t := by
  cases hpc : s.pc i with
  | out r => simp [hpc,Sys.go] at hs
  | openFind name size =>
    simp only [hpc,Sys.go] at hs
    split at hs
    all_goals
      obtain rfl := Option.some.inj hs
      exact h.move (goes_quiet rfl rfl (by simp)) (by simp [hpc,Pc.unlinks]) (by rw [hpc]; rfl) (by rw [hpc]; rfl)
  | openAlloc name size =>
    obtain rfl := Option.some.inj (hpc ▸ hs)
    exact h.openAlloc hpc
  | openAdd name q =>
    obtain rfl := Option.some.inj (hpc ▸ hs)
    have hlt : q < s.mqs := h.structs.lt (p := .thread i) (by simp [Sys.mqsAt,hpc,Pc.mqs])
    refine h.flagged (goes_quiet rfl rfl (by simp)) (by simp [Pc.unlinks]) (by rw [hpc]; rfl) hlt
      (fun m => ⟨rfl,rfl,id⟩) ?_
    rw [hpc]
    exact List.Perm.refl _
  | unlinkFind name =>
    simp only [hpc,Sys.go] at hs
    split at hs
    · next mq hfind =>
      obtain rfl := Option.some.inj hs
      have hmem : mq ∈ s.mqList := List.mem_of_find?_eq_some hfind
      have hlt : mq.addr < s.mqs := h.structs.lt (p := .list) (List.mem_map_of_mem hmem)
      refine h.flagged (goes_quiet rfl rfl (by simp)) (fun r hr => ⟨(Option.some.inj hr).symm,rfl⟩) (by rw [hpc]; rfl) hlt
        (fun m => ⟨rfl,rfl,fun _ => rfl⟩) ?_
      rw [hpc]
      exact ((perm_unlink hfind).map PthreadMq.addr).symm
    · obtain rfl := Option.some.inj hs
      exact h.move (goes_quiet rfl rfl (by simp)) (by simp [hpc,Pc.unlinks]) (by rw [hpc]; rfl) (by rw [hpc]; rfl)
  | unlinkCnt q =>
    obtain rfl := Option.some.inj (hpc ▸ hs)
    split_ifs
    all_goals
      exact h.move (goes_quiet rfl rfl (by simp)) (by simp [hpc,Pc.unlinks]) (by rw [hpc]; rfl) (by rw [hpc]; rfl)
  | unlinkGet q =>
    simp only [hpc,Sys.go] at hs
    split at hs
    · obtain rfl := Option.some.inj hs
      exact h.move (goes_quiet rfl rfl (by simp)) (by simp [hpc,Pc.unlinks]) (by rw [hpc]; rfl) (by rw [hpc]; rfl)
    · next val data rest hmsgq =>
      obtain rfl := Option.some.inj hs
      exact h.get hmsgq (goes_quiet rfl rfl (by simp)) (by simp [hpc,Pc.unlinks]) (by rw [hpc]; rfl) rfl (by rw [hpc]; rfl)
  | unlinkFreeData q val data =>
    obtain rfl := Option.some.inj (hpc ▸ hs)
    refine h.freed (goes_quiet rfl rfl (by simp)) (by simp [hpc,Pc.unlinks]) (by rw [hpc]; rfl) ?_
    rw [hpc]
    exact List.Perm.swap ..
  | unlinkFreeVal q val =>
    obtain rfl := Option.some.inj (hpc ▸ hs)
    exact h.freed (goes_quiet rfl rfl (by simp)) (by simp [hpc,Pc.unlinks]) (by rw [hpc]; rfl) (by rw [hpc]; rfl)
  | unlinkDel q =>
    obtain rfl := Option.some.inj (hpc ▸ hs)
    simp only [Dangles,hpc,not_or,not_not] at hgood
    exact h.deleted hpc hgood.1 hgood.2
  | unlinkFree q =>
    obtain rfl := Option.some.inj (hpc ▸ hs)
    simp only [Dangles,hpc] at hgood
    exact h.structFreed hpc hgood
  | send q | recv q =>
    obtain rfl := Option.some.inj (hpc ▸ hs)
    have hlt := (h.tests i q (by rw [hpc]; rfl)).1
    split_ifs
    · exact h.move (goes_quiet rfl rfl (by simp)) (by simp [hpc,Pc.unlinks]) (by rw [hpc]; rfl) (by rw [hpc]; rfl)
    · next hflag =>
      have hdeleted : (s.mq q).deleted = false := by
        by_contra hdeleted
        exact hflag (h.flag q (Bool.not_eq_false _ ▸ hdeleted))
      exact h.move (goes_passed rfl rfl ⟨hlt,hdeleted⟩ (by simp)) (by simp [Pc.unlinks]) (by rw [hpc]; rfl) (by rw [hpc]; rfl)
  | sendAlloc q =>
    obtain rfl := Option.some.inj (hpc ▸ hs)
    have hpassed := h.passed i q (by rw [hpc]; rfl)
    exact h.allocated (goes_passed rfl rfl hpassed (by simp)) rfl (by rw [hpc]; rfl) (by rw [hpc]; rfl)
  | sendDup q val =>
    obtain rfl := Option.some.inj (hpc ▸ hs)
    have hpassed := h.passed i q (by rw [hpc]; rfl)
    refine h.allocated (goes_passed rfl rfl hpassed (by simp)) rfl (by rw [hpc]; rfl) ?_
    rw [hpc]
    exact List.Perm.swap ..
  | sendPut q val data =>
    simp only [hpc,Sys.go] at hs
    obtain ⟨-,hs⟩ := Option.ite_none_right_eq_some.mp hs
    obtain rfl := Option.some.inj hs
    obtain ⟨hlt,hdeleted⟩ := h.passed i q (by rw [hpc]; rfl)
    refine h.passes (goes_quiet rfl rfl (by simp)) (by simp [hpc,Pc.unlinks]) (by rw [hpc]; rfl) hlt ⟨rfl,rfl⟩
      (by simp [hdeleted]) ?_
    rw [hpc]
    simp only [Mq.blocks,List.flatMap_append]
    change _ ++ [val,data] ~ [val,data] ++ _
    exact List.perm_append_comm
  | recvGet q =>
    simp only [hpc,Sys.go] at hs
    split at hs
    · cases hs
    · next val data rest hmsgq =>
      obtain rfl := Option.some.inj hs
      exact h.get hmsgq (goes_quiet rfl rfl (by simp)) (by simp [hpc,Pc.unlinks]) (by rw [hpc]; rfl) rfl (by rw [hpc]; rfl)
  | sendFreeData val data | recvFreeData val data =>
    obtain rfl := Option.some.inj (hpc ▸ hs)
    refine h.freed (goes_quiet rfl rfl (by simp)) (by simp [hpc,Pc.unlinks]) (by rw [hpc]; rfl) ?_
    rw [hpc]
    exact List.Perm.swap ..
  | sendFree val | recvFree val =>
    obtain rfl := Option.some.inj (hpc ▸ hs)
    exact h.freed (goes_quiet rfl rfl (by simp)) (by simp [hpc,Pc.unlinks]) (by rw [hpc]; rfl) (by rw [hpc]; rfl)

theorem Inv.step (h : Inv s) (hgood : ¬ Dangles s l) (hs : MqueueLifetime.step s l = some t) : Inv t := by
  have hdescriptor {q : ℕ} (hopened : (s.mq q).opened = true) : q < s.mqs := by
    by_contra hge
    rw [h.fresh q (Nat.le_of_not_lt hge)] at hopened
    cases hopened
  cases l with
  | mqOpen i name size | mqUnlink i name | mqClose i =>
    exact h.call hs (goes_quiet rfl rfl (by simp)) rfl rfl rfl
  | mqSend i q | mqReceive i q =>
    obtain ⟨hopened,hs⟩ := Option.ite_none_right_eq_some.mp hs
    refine h.call hs ⟨fun r hr => ?_,by simp [Pc.passed],by simp⟩ rfl rfl rfl
    obtain rfl := Option.some.inj hr
    exact ⟨hdescriptor hopened,hgood⟩
  | go i => exact h.go hgood hs
  | noMem i =>
    simp only [MqueueLifetime.step] at hs
    split at hs
    · next hpc =>
      obtain rfl := Option.some.inj hs
      exact h.move (goes_quiet rfl rfl (by simp)) (by simp [Pc.unlinks]) (by rw [hpc]; rfl) (by rw [hpc]; rfl)
    · next hpc =>
      obtain rfl := Option.some.inj hs
      exact h.move (goes_quiet rfl rfl (by simp)) (by simp [Pc.unlinks]) (by rw [hpc]; rfl) (by rw [hpc]; rfl)
    · next hpc =>
      obtain rfl := Option.some.inj hs
      exact h.move (goes_quiet rfl rfl (by simp)) (by simp [Pc.unlinks]) (by rw [hpc]; rfl) (by rw [hpc]; rfl)
    · cases hs
  | fail i =>
    simp only [MqueueLifetime.step] at hs
    split at hs
    · next hpc =>
      obtain rfl := Option.some.inj hs
      exact h.move (goes_quiet rfl rfl (by simp)) (by simp [Pc.unlinks]) (by rw [hpc]; rfl) (by rw [hpc]; rfl)
    · next hpc =>
      obtain rfl := Option.some.inj hs
      exact h.move (goes_quiet rfl rfl (by simp)) (by simp [Pc.unlinks]) (by rw [hpc]; rfl) (by rw [hpc]; rfl)
    · cases hs

/-- Where a step dangles, the state after it is not safe. -/
theorem not_dangles_of_safe (hs : MqueueLifetime.step s l = some t) (hsafe : t.Safe) : ¬ Dangles s l := by
  cases l with
  | mqOpen i name size | mqUnlink i name | mqClose i | noMem i | fail i => exact id
  | mqSend i q | mqReceive i q =>
    intro hgone
    obtain ⟨-,hs⟩ := Option.ite_none_right_eq_some.mp hs
    obtain ⟨-,-,rfl⟩ := call_eq hs
    refine hsafe.tests i q ?_ hgone
    rw [at_self]
    rfl
  | go i =>
    simp only [MqueueLifetime.step] at hs
    cases hpc : s.pc i with
    | unlinkDel q =>
      obtain rfl := Option.some.inj (hpc ▸ hs)
      have hself := set_self s q fun m => { m with deleted := true }
      have hdeleted := congrArg Mq.deleted hself
      simp only [Dangles,hpc]
      rintro (hmsgq | ⟨j,hj⟩)
      · have hlost := (congrArg Mq.blocks hself).symm.trans (hsafe.kept q hdeleted)
        cases hrest : (s.mq q).msgq with
        | nil => exact hmsgq hrest
        | cons x rest => simp [Mq.blocks,hrest] at hlost
      · have hne : j ≠ i := by
          rintro rfl
          simp [hpc,Pc.passed] at hj
        have hpassed := (hsafe.passed j q (by rw [at_of_ne _ _ hne]; exact hj)).2
        exact absurd (hdeleted.symm.trans hpassed) (by simp)
    | unlinkFree q =>
      obtain rfl := Option.some.inj (hpc ▸ hs)
      simp only [Dangles,hpc]
      rintro ⟨j,hj⟩
      have hne : j ≠ i := by
        rintro rfl
        simp [hpc,Pc.tests] at hj
      exact hsafe.tests j q (by rw [at_of_ne _ _ hne]; exact hj) List.mem_cons_self
    | _ => simp [Dangles,hpc]

/-- All along, no freed queue is used and no block lost or freed twice, in the runs in which no
step dangles. -/
theorem safe_iff_run [Fintype ι] {ls : List (Label ι)} (h : Runs MqueueLifetime.step MqueueLifetime.start ls s) :
    (∀ ms u, ms <+: ls → Runs MqueueLifetime.step MqueueLifetime.start ms u → u.Safe) ↔
      Runs (guarded (fun s l => ¬ Dangles s l) MqueueLifetime.step) MqueueLifetime.start ls s :=
  Runs.guarded_iff (fun _ hi => hi.safe) (fun _ _ _ hi hgood hs => hi.step hgood hs)
    (fun _ _ _ _ hs hp => not_dangles_of_safe hs hp) Inv.start h

end Steps

/-- mq_open, with a queue of two messages. -/
def opening : List (Label Bool) := [.mqOpen true (letters 1) 2,.go true,.go true,.go true]

/-- A message is sent and freed by mq_unlink. -/
theorem safe_drained : ∃ s, Runs step start (opening ++ [.mqSend true 0,.go true,.go true,.go true,.go true,
      .mqUnlink false (letters 1),.go false,.go false,.go false,.go false,.go false,.go false,.go false,.go false]) s ∧
    s.goneMqs = [0] ∧ s.goneBlocks = [0,1] ∧ s.blocks = 2 ∧ s.Safe := by
  refine Runs.exists_of_exec_guarded (G := fun s l => ¬ Dangles s l) (fun s => (s.goneMqs,s.goneBlocks,s.blocks))
    (v := ([0],[0,1],2)) (by decide +kernel) ?_
  intro s hrun hgone
  obtain ⟨hmqs,hgone⟩ := Prod.mk.inj hgone
  obtain ⟨hblocks,hcount⟩ := Prod.mk.inj hgone
  exact ⟨hmqs,hblocks,hcount,(safe_iff_run hrun.of_guarded).mpr hrun _ s (List.prefix_refl _) hrun.of_guarded⟩

/-- A descriptor is used after mq_unlink has freed the queue; the queue is freed under a thread
that waits for a message; and a message that is sent during mq_unlink is lost. -/
theorem safe_fails :
    (∃ s, Runs step start (opening ++ [.mqUnlink true (letters 1),.go true,.go true,.go true,.go true,.mqSend true 0]) s ∧
      0 ∈ s.goneMqs ∧ (s.pc true).tests = some 0 ∧ ¬ s.Safe) ∧
    (∃ s, Runs step start (opening ++ [.mqReceive false 0,.go false,.mqUnlink true (letters 1),.go true,.go true,.go true,
        .go true]) s ∧ 0 ∈ s.goneMqs ∧ (s.pc false).passed = some 0 ∧ ¬ s.Safe) ∧
    ∃ s, Runs step start (opening ++ [.mqSend false 0,.go false,.go false,.go false,.mqUnlink true (letters 1),.go true,
        .go true,.go false,.go true,.go true]) s ∧ 0 ∈ s.goneMqs ∧ (s.mq 0).blocks = [0,1] ∧ ¬ s.Safe := by
  refine ⟨?_,?_,?_⟩
  · refine Runs.exists_of_exec (fun s => (s.goneMqs,(s.pc true).tests)) (v := ([0],some 0)) (by decide +kernel) ?_
    intro s _ hgone
    obtain ⟨hgone,htests⟩ := Prod.mk.inj hgone
    have hmem : 0 ∈ s.goneMqs := by simp [hgone]
    exact ⟨hmem,htests,fun h => h.tests true 0 htests hmem⟩
  · refine Runs.exists_of_exec (fun s => (s.goneMqs,(s.pc false).passed)) (v := ([0],some 0)) (by decide +kernel) ?_
    intro s _ hgone
    obtain ⟨hgone,hpassed⟩ := Prod.mk.inj hgone
    have hmem : 0 ∈ s.goneMqs := by simp [hgone]
    exact ⟨hmem,hpassed,fun h => (h.passed false 0 hpassed).1 hmem⟩
  · refine Runs.exists_of_exec (fun s => (s.goneMqs,(s.mq 0).deleted,(s.mq 0).blocks)) (v := ([0],true,[0,1]))
      (by decide +kernel) ?_
    intro s _ hgone
    obtain ⟨hgone,hlost⟩ := Prod.mk.inj hgone
    obtain ⟨hdeleted,hblocks⟩ := Prod.mk.inj hlost
    refine ⟨by simp [hgone],hblocks,fun h => ?_⟩
    have hkept := h.kept 0 hdeleted
    simp [hblocks] at hkept

end FmacSdk.MqueueLifetime
