import FmacSdk.Common.Errno
import FmacSdk.Foundation.OwnedHeap
import FmacSdk.Foundation.Transition
import Mathlib.Data.Int.Order.Basic
import Mathlib.Data.List.Nodup

/-! # Message queues

Threads send to one queue and receive from it. os_msgq is a bounded first-in
first-out queue of words, here the addresses of struct pthread_mq_data blocks;
allocations and waits may fail. No statement writes the length of a block.
-/
namespace FmacSdk.Mqueue
open OwnedHeap Transition
variable {ι : Type*}

abbrev Bytes := List UInt8

/-- A struct pthread_mq_data, or the copy of a message. -/
inductive Block
  | val (data len : ℕ)
  | bytes (b : Bytes)
deriving DecidableEq

/-- Who has a block: a thread, or the queue for the message of a number. -/
inductive Owner (ι : Type*)
  | thread (i : ι)
  | queue (k : ℕ)
deriving DecidableEq

/-- The next statement of _mq_send, with the bytes at msg_ptr unless that is NULL, or of
_mq_receive, with msg_len and the number of the message it took. -/
inductive Pc
  | out (result : ℤ)
  | send (msg : Option Bytes)
  | sendAlloc (msg : Option Bytes)
  | sendDup (msg : Option Bytes) (val : ℕ)
  | sendPut (val : ℕ)
  | sendFreeData (val : ℕ)
  | sendFree (val : ℕ)
  | recv (msgLen : ℕ)
  | recvGet (msgLen : ℕ)
  | recvCopy (msgLen val k : ℕ)
  | recvFreeData (val : ℕ)
  | recvFree (val : ℕ)
deriving DecidableEq

/-- With the messages whose sends succeeded, how many of them were taken, and what each
receive that took one gave its caller along with success. -/
structure Sys (ι : Type*) where
  unlink : Bool
  msgq : List ℕ
  heap : Heap ℕ (Owner ι) Block
  pc : ι → Pc
  sent : List Bytes
  taken : ℕ
  given : List (ℕ × Option Bytes)

/-- A call, a statement, an os_malloc that succeeds at an address with what lies there, one
that fails, a wait of os_msgq that fails, and os_memcpy with what lies behind the block. -/
inductive Label (ι : Type*)
  | send (i : ι) (msg : Option Bytes)
  | recv (i : ι) (msgLen : ℕ)
  | go (i : ι)
  | alloc (i : ι) (a data len : ℕ)
  | noMem (i : ι)
  | fail (i : ι)
  | copy (i : ι) (beyond : Bytes)

/-- The fields of a struct pthread_mq_data. -/
def Sys.val (s : Sys ι) (v : ℕ) : ℕ × ℕ :=
  match s.heap v with
  | some (_,.val data len) => (data,len)
  | _ => (0,0)

def Sys.bytes (s : Sys ι) (d : ℕ) : Bytes :=
  match s.heap d with
  | some (_,.bytes b) => b
  | _ => []

section Code
variable [DecidableEq ι] (size : ℕ)

def Sys.at (s : Sys ι) (i : ι) (p : Pc) : Sys ι := { s with pc := Function.update s.pc i p }

def Sys.free (s : Sys ι) (a : ℕ) : Sys ι := { s with heap := Function.update s.heap a none }

/-- val->data is set by its owner. -/
def Sys.setData (s : Sys ι) (i : ι) (v data : ℕ) : Sys ι :=
  { s with heap := Function.update s.heap v (some (.thread i,.val data (s.val v).2)) }

/-- The two blocks of a message change hands. -/
def Sys.hand (s : Sys ι) (o : Owner ι) (v : ℕ) : Sys ι :=
  let heap := Function.update s.heap (s.val v).1 (some (o,.bytes (s.bytes (s.val v).1)))
  { s with heap := Function.update heap v (some (o,.val (s.val v).1 (s.val v).2)) }

/-- The statement of thread `i`, unless it allocates or copies. -/
def Sys.go (s : Sys ι) (i : ι) : Pc → Option (Sys ι)
  | .send msg => some (s.at i (if s.unlink then .out (-ENODEV) else .sendAlloc msg))
  | .sendDup msg v =>
    match msg with
    | none | some [] => some ((s.setData i v 0).at i (.sendFree v))
    | some _ => none
  | .sendPut v =>
    if s.msgq.length < size then
      some { (s.hand (.queue s.sent.length) v).at i (.out RET_OK) with
        msgq := s.msgq ++ [v], sent := s.sent ++ [s.bytes (s.val v).1] }
    else none
  | .sendFreeData v => some ((s.free (s.val v).1).at i (.sendFree v))
  | .sendFree v => some ((s.free v).at i (.out (-ENOMEM)))
  | .recv n => some (s.at i (if s.unlink then .out (-ENODEV) else .recvGet n))
  | .recvGet n =>
    match s.msgq with
    | [] => none
    | v :: msgq => some { (s.hand (.thread i) v).at i (.recvCopy n v s.taken) with msgq := msgq, taken := s.taken + 1 }
  | .recvFreeData v => some ((s.free (s.val v).1).at i (.recvFree v))
  | .recvFree v => some ((s.free v).at i (.out 0))
  | .out _ | .sendAlloc _ | .recvCopy .. => none

/-- os_memcpy of val->len bytes from val->data. -/
def Sys.copied (s : Sys ι) (v : ℕ) (beyond : Bytes) : Bytes := (s.bytes (s.val v).1).take (s.val v).2 ++ beyond

def step (s : Sys ι) : Label ι → Option (Sys ι)
  | .send i msg => match s.pc i with
    | .out _ => some (s.at i (.send msg))
    | _ => none
  | .recv i n => match s.pc i with
    | .out _ => some (s.at i (.recv n))
    | _ => none
  | .go i => s.go size i (s.pc i)
  | .alloc i a data len =>
    if a ≠ 0 ∧ s.heap a = none then
      match s.pc i with
      | .sendAlloc msg =>
        some (Sys.at { s with heap := Function.update s.heap a (some (.thread i,.val data len)) } i (.sendDup msg a))
      | .sendDup (some (c :: m)) v =>
        some ((Sys.setData { s with heap := Function.update s.heap a (some (.thread i,.bytes (c :: m))) } i v a).at i
          (.sendPut v))
      | _ => none
    else none
  | .noMem i => match s.pc i with
    | .sendAlloc _ => some (s.at i (.out (-ENOMEM)))
    | .sendDup (some (_ :: _)) v => some ((s.setData i v 0).at i (.sendFree v))
    | _ => none
  | .fail i => match s.pc i with
    | .sendPut v => some (s.at i (.sendFreeData v))
    | .recvGet _ => some (s.at i (.out (-1)))
    | _ => none
  | .copy i beyond => match s.pc i with
    | .recvCopy n v k =>
      if beyond.length = (s.val v).2 - (s.bytes (s.val v).1).length then
        some { s.at i (.recvFreeData v) with
          given := (k,if (s.val v).2 ≤ n then some (s.copied v beyond) else none) :: s.given }
      else none
    | _ => none

end Code

/-- mq_open -/
def opened : Sys ι := ⟨false,[],fun _ => none,fun _ => .out 0,[],0,[]⟩

/-- The owner has both blocks of a message. -/
def Sys.Holds (s : Sys ι) (o : Owner ι) (v : ℕ) (m : Bytes) : Prop :=
  ∃ d len, s.heap v = some (o,.val d len) ∧ s.heap d = some (o,.bytes m)

/-- What a send that returned success and a receive that took a message are for: each
message is given as it was sent, once, or on its way, or in the queue. -/
structure Sys.Lossless (s : Sys ι) : Prop where
  delivered : ∀ k r, (k,r) ∈ s.given → k < s.taken ∧ ∃ m, r = some m ∧ s.sent[k]? = some m
  once : (s.given.map Prod.fst).Nodup
  kept : ∀ k m, s.sent[k]? = some m → (∃ r, (k,r) ∈ s.given) ∨
    (∃ i n v, s.pc i = .recvCopy n v k ∧ s.Holds (.thread i) v m) ∨
    s.taken ≤ k ∧ ∃ v, s.msgq[k - s.taken]? = some v ∧ s.Holds (.queue k) v m

/-- A receive finds a length that is not that of the message, or more than its buffer has. -/
def Spoils (s : Sys ι) : Label ι → Prop
  | .copy i _ => match s.pc i with
    | .recvCopy n v _ => ¬ ((s.val v).2 = (s.bytes (s.val v).1).length ∧ (s.val v).2 ≤ n)
    | _ => False
  | _ => False

instance (s : Sys ι) (l : Label ι) : Decidable (Spoils s l) := by
  unfold Spoils
  split
  · split <;> infer_instance
  · infer_instance

/-- What a thread has at a statement. -/
def Sys.Owes (s : Sys ι) (i : ι) : Pc → Prop
  | .sendDup _ v | .sendFree v | .recvFree v => ∃ d len, s.heap v = some (.thread i,.val d len)
  | .sendPut v | .sendFreeData v | .recvFreeData v => ∃ m, s.Holds (.thread i) v m
  | .recvCopy _ v k => k < s.taken ∧ (∀ r, (k,r) ∉ s.given) ∧ ∃ m, s.sent[k]? = some m ∧ s.Holds (.thread i) v m
  | _ => True

structure Inv (s : Sys ι) : Prop where
  calls : ∀ i, s.Owes i (s.pc i)
  queue : ∀ k v, s.msgq[k]? = some v → ∃ m, s.sent[s.taken + k]? = some m ∧ s.Holds (.queue (s.taken + k)) v m
  length : s.sent.length = s.taken + s.msgq.length
  given : ∀ k r, (k,r) ∈ s.given → k < s.taken ∧ ∃ m, r = some m ∧ s.sent[k]? = some m
  once : (s.given.map Prod.fst).Nodup
  fate : ∀ k, k < s.taken → (∃ r, (k,r) ∈ s.given) ∨ ∃ i n v, s.pc i = .recvCopy n v k
  alone : ∀ i j n n' v v' k, s.pc i = .recvCopy n v k → s.pc j = .recvCopy n' v' k → i = j

theorem Inv.opened : Inv (opened : Sys ι) := by
  constructor <;> simp [Mqueue.opened,Sys.Owes]

variable {s t : Sys ι} {i j : ι} {o : Owner ι} {v d len : ℕ} {m : Bytes} {p : Pc}

theorem val_eq (h : s.heap v = some (o,.val d len)) : s.val v = (d,len) := by
  simp [Sys.val,h]

theorem bytes_eq (h : s.heap d = some (o,.bytes m)) : s.bytes d = m := by
  simp [Sys.bytes,h]

theorem Sys.Holds.bytes (h : s.Holds o v m) : s.bytes (s.val v).1 = m := by
  obtain ⟨d,len,hv,hd⟩ := h
  rw [val_eq hv,bytes_eq hd]

theorem Inv.lossless (h : Inv s) : s.Lossless := by
  refine ⟨h.given,h.once,fun k m hk => ?_⟩
  by_cases hlt : k < s.taken
  · rcases h.fate k hlt with hgiven | ⟨i,n,v,hpc⟩
    · exact Or.inl hgiven
    · have howes := h.calls i
      rw [hpc] at howes
      obtain ⟨-,-,m',hk',hholds⟩ := howes
      obtain rfl := Option.some.inj (hk.symm.trans hk')
      exact Or.inr (Or.inl ⟨i,n,v,hpc,hholds⟩)
  · have hge : s.taken ≤ k := Nat.le_of_not_lt hlt
    have hbound : k - s.taken < s.msgq.length := by
      have hlen := (List.getElem?_eq_some_iff.mp hk).1
      rw [h.length] at hlen
      omega
    obtain ⟨m',hk',hholds⟩ := h.queue _ _ (List.getElem?_eq_getElem hbound)
    rw [Nat.add_sub_cancel' hge] at hk' hholds
    obtain rfl := Option.some.inj (hk.symm.trans hk')
    exact Or.inr (Or.inr ⟨hge,_,List.getElem?_eq_getElem hbound,hholds⟩)

/-- The owner keeps its blocks. -/
def Keeps (s t : Sys ι) (o : Owner ι) : Prop := ∀ a b, s.heap a = some (o,b) → t.heap a = some (o,b)

theorem Keeps.holds (h : Keeps s t o) (hholds : s.Holds o v m) : t.Holds o v m := by
  obtain ⟨d,len,hv,hd⟩ := hholds
  exact ⟨d,len,h _ _ hv,h _ _ hd⟩

theorem Keeps.owes (h : Keeps s t (.thread i)) (hsent : ∀ (k : ℕ) m, s.sent[k]? = some m → t.sent[k]? = some m)
    (htaken : s.taken ≤ t.taken)
    (hgiven : ∀ n v k, p = .recvCopy n v k → ∀ r, (k,r) ∈ t.given → (k,r) ∈ s.given)
    (howes : s.Owes i p) : t.Owes i p := by
  cases p with
  | sendDup msg v | sendFree v | recvFree v => exact howes.imp fun d => .imp fun len => h _ _
  | sendPut v | sendFreeData v | recvFreeData v => exact howes.imp fun m => h.holds
  | recvCopy n v k =>
    obtain ⟨hk,hnot,m,hm,hholds⟩ := howes
    exact ⟨Nat.lt_of_lt_of_le hk htaken,fun r hr => hnot r (hgiven n v k rfl r hr),m,hsent k m hm,h.holds hholds⟩
  | _ => trivial

/-- The thread writes a block of its own, or frees it. -/
theorem keeps_own {b : Block} (hown : s.heap v = some (.thread i,b)) (x : Option (Owner ι × Block))
    (o : Owner ι) (ho : o ≠ .thread i) : Keeps s { s with heap := Function.update s.heap v x } o :=
  fun _ _ h => update_of_owner_ne hown h ho x

theorem keeps_free {a : ℕ} (hfree : s.heap a = none) (x : Option (Owner ι × Block)) (o : Owner ι) :
    Keeps s { s with heap := Function.update s.heap a x } o :=
  fun _ _ h => update_of_free hfree h x

theorem Keeps.trans {u : Sys ι} (h : Keeps s t o) (h' : Keeps t u o) : Keeps s u o :=
  fun a b hab => h' a b (h a b hab)

theorem keeps_setData (hown : s.heap v = some (.thread i,.val d len)) (data : ℕ) (ho : o ≠ .thread i) :
    Keeps s (s.setData i v data) o := keeps_own hown _ o ho

theorem setData_heap (hown : s.heap v = some (.thread i,.val d len)) (data : ℕ) :
    (s.setData i v data).heap v = some (.thread i,.val data len) := by
  rw [Sys.setData,val_eq hown]
  exact Function.update_self ..

/-- The blocks of one owner go to another, and nobody else notices. -/
theorem Sys.Holds.hand (h : s.Holds o v m) (o' : Owner ι) :
    (s.hand o' v).Holds o' v m ∧ ∀ q, q ≠ o → Keeps s (s.hand o' v) q := by
  obtain ⟨d,len,hv,hd⟩ := h
  have hne : d ≠ v := by
    rintro rfl
    simp [hv] at hd
  simp only [Sys.hand,val_eq hv,bytes_eq hd]
  refine ⟨⟨d,len,Function.update_self ..,?_⟩,fun q hq a b hab => ?_⟩
  · exact (Function.update_of_ne hne ..).trans (Function.update_self ..)
  · have hdata := update_of_owner_ne hd hab hq (some (o',.bytes m))
    have hval : Function.update s.heap d (some (o',.bytes m)) v = some (o,.val d len) :=
      (Function.update_of_ne (Ne.symm hne) ..).trans hv
    exact update_of_owner_ne hval hdata hq _

/-- Where the length is that of the message, the whole message is copied. -/
theorem Sys.Holds.copied (h : s.Holds o v m) {beyond : Bytes} (hlen : (s.val v).2 = (s.bytes (s.val v).1).length)
    (hbeyond : beyond.length = (s.val v).2 - (s.bytes (s.val v).1).length) : s.copied v beyond = m := by
  rw [hlen,Nat.sub_self,List.length_eq_zero_iff] at hbeyond
  rw [Sys.copied,hlen,hbeyond,h.bytes]
  simp

/-- A receive is about to copy. -/
def Pc.copies : Pc → Bool
  | .recvCopy .. => true
  | _ => false

section Steps
variable [DecidableEq ι]

/-- Thread `i` moves, with its own blocks, and neither takes nor gives a message. -/
theorem Inv.move (h : Inv s) (hpc : t.pc = Function.update s.pc i p)
    (hsent : ∀ (k : ℕ) m, s.sent[k]? = some m → t.sent[k]? = some m) (htaken : t.taken = s.taken)
    (hgiven : t.given = s.given) (hkeeps : ∀ o, o ≠ .thread i → Keeps s t o) (howes : t.Owes i p)
    (hbefore : (s.pc i).copies = false) (hafter : p.copies = false)
    (hqueue : ∀ k v, t.msgq[k]? = some v → ∃ m, t.sent[t.taken + k]? = some m ∧ t.Holds (.queue (t.taken + k)) v m)
    (hlength : t.sent.length = t.taken + t.msgq.length) : Inv t := by
  have hself : t.pc i = p := by rw [hpc,Function.update_self]
  have hother {j : ι} (hj : j ≠ i) : t.pc j = s.pc j := by rw [hpc,Function.update_of_ne hj]
  have hcopies {j : ι} {n v k : ℕ} (hj : t.pc j = .recvCopy n v k) : s.pc j = .recvCopy n v k := by
    by_cases hji : j = i
    · rw [hji,hself] at hj
      simp [hj,Pc.copies] at hafter
    · rwa [hother hji] at hj
  refine ⟨fun j => ?_,hqueue,hlength,?_,?_,fun k hk => ?_,fun j j' n n' v v' k hj hj' => ?_⟩
  · by_cases hj : j = i
    · rw [hj,hself]
      exact howes
    · rw [hother hj]
      refine Keeps.owes (hkeeps (.thread j) (by simpa using hj)) hsent (Nat.le_of_eq htaken.symm) ?_ (h.calls j)
      simp [hgiven]
  · rw [hgiven,htaken]
    exact fun k r hr => (h.given k r hr).imp_right (.imp fun m => .imp_right (hsent k m))
  · rw [hgiven]
    exact h.once
  · rw [htaken] at hk
    rw [hgiven]
    refine (h.fate k hk).imp_right fun ⟨j,n,v,hj⟩ => ⟨j,n,v,?_⟩
    have hji : j ≠ i := by
      rintro rfl
      simp [hj,Pc.copies] at hbefore
    rw [hother hji]
    exact hj
  · exact h.alone j j' n n' v v' k (hcopies hj) (hcopies hj')

/-- Only the heap changes, and the thread. -/
theorem Inv.works (h : Inv s) {heap : Heap ℕ (Owner ι) Block}
    (hkeeps : ∀ o, o ≠ .thread i → Keeps s { s with heap := heap } o)
    (howes : Sys.Owes { s with heap := heap } i p) (hbefore : (s.pc i).copies = false)
    (hafter : p.copies = false) : Inv (Sys.at { s with heap := heap } i p) := by
  refine h.move rfl (fun _ _ => id) rfl rfl hkeeps ?_ hbefore hafter (fun k v hk => ?_) h.length
  · cases p with
    | recvCopy n v k => simp [Pc.copies] at hafter
    | _ => exact howes
  · obtain ⟨m,hm,hholds⟩ := h.queue k v hk
    exact ⟨m,hm,Keeps.holds (hkeeps _ (by simp)) hholds⟩

/-- The heap does not change. -/
theorem Inv.stays (h : Inv s) (howes : s.Owes i p) (hbefore : (s.pc i).copies = false)
    (hafter : p.copies = false) : Inv (s.at i p) :=
  h.works (fun _ _ _ _ => id) howes hbefore hafter

theorem Inv.alloc (h : Inv s) {a data : ℕ} {msg : Option Bytes} (hpc : s.pc i = .sendAlloc msg)
    (hfree : s.heap a = none) :
    Inv (Sys.at { s with heap := Function.update s.heap a (some (.thread i,.val data len)) } i (.sendDup msg a)) :=
  h.works (fun o _ => keeps_free hfree _ o) ⟨data,len,Function.update_self ..⟩
    (by rw [hpc]; rfl) rfl

theorem Inv.dup (h : Inv s) {a : ℕ} {msg : Option Bytes} (hpc : s.pc i = .sendDup msg v) (hfree : s.heap a = none)
    (m : Bytes) :
    Inv ((Sys.setData { s with heap := Function.update s.heap a (some (.thread i,.bytes m)) } i v a).at i
      (.sendPut v)) := by
  have howes := h.calls i
  rw [hpc] at howes
  obtain ⟨d,len,hv⟩ := howes
  have hv' := update_of_free hfree hv (some (.thread i,.bytes m))
  have hne : a ≠ v := by
    rintro rfl
    simp [hv] at hfree
  refine h.works (fun o ho => ?_) ⟨m,a,len,?_,?_⟩ (by rw [hpc]; rfl) rfl
  · exact (keeps_free hfree _ o).trans (keeps_setData (s := { s with heap := _ }) hv' a ho)
  · exact setData_heap (s := { s with heap := _ }) hv' a
  · exact (Function.update_of_ne hne ..).trans (Function.update_self ..)

theorem Inv.noData (h : Inv s) {msg : Option Bytes} (hpc : s.pc i = .sendDup msg v) :
    Inv ((s.setData i v 0).at i (.sendFree v)) := by
  have howes := h.calls i
  rw [hpc] at howes
  obtain ⟨d,len,hv⟩ := howes
  exact h.works (fun o ho => keeps_setData hv 0 ho) ⟨0,len,setData_heap hv 0⟩
    (by rw [hpc]; rfl) rfl

theorem Inv.put (h : Inv s) (hpc : s.pc i = .sendPut v) :
    Inv { (s.hand (.queue s.sent.length) v).at i (.out RET_OK) with
      msgq := s.msgq ++ [v], sent := s.sent ++ [s.bytes (s.val v).1] } := by
  have howes := h.calls i
  rw [hpc] at howes
  obtain ⟨m,hm⟩ := howes
  rw [hm.bytes]
  obtain ⟨hhand,hkeeps⟩ := hm.hand (.queue s.sent.length)
  have hgrow (k : ℕ) (m' : Bytes) (hk : s.sent[k]? = some m') : (s.sent ++ [m])[k]? = some m' := by
    rw [List.getElem?_append_left (List.getElem?_eq_some_iff.mp hk).1]
    exact hk
  refine h.move (p := .out RET_OK) rfl hgrow rfl rfl hkeeps trivial (by rw [hpc]; rfl) rfl (fun k w hk => ?_) ?_
  · by_cases hlt : k < s.msgq.length
    · have hold : s.msgq[k]? = some w := by rwa [List.getElem?_append_left hlt] at hk
      obtain ⟨m',hm',hholds⟩ := h.queue k w hold
      exact ⟨m',hgrow _ _ hm',Keeps.holds (hkeeps _ (by simp)) hholds⟩
    · obtain ⟨hlast,rfl⟩ : k - s.msgq.length = 0 ∧ v = w := by
        rw [List.getElem?_append_right (Nat.le_of_not_lt hlt)] at hk
        simpa [List.getElem?_singleton] using hk
      have hnumber : s.taken + k = s.sent.length := by
        rw [h.length]
        omega
      have hthere : (s.sent ++ [m])[s.taken + k]? = some m := by simp [hnumber]
      exact ⟨m,hthere,hnumber ▸ hhand⟩
  · have hlength : (s.sent ++ [m]).length = s.taken + (s.msgq ++ [v]).length := by
      simp [h.length,Nat.add_assoc]
    exact hlength

theorem Inv.get (h : Inv s) {n : ℕ} {msgq : List ℕ} (hpc : s.pc i = .recvGet n) (hq : s.msgq = v :: msgq) :
    Inv { (s.hand (.thread i) v).at i (.recvCopy n v s.taken) with msgq := msgq, taken := s.taken + 1 } := by
  obtain ⟨m,hm,hholds⟩ := h.queue 0 v (by simp [hq])
  obtain ⟨hhand,hkeeps⟩ := hholds.hand (.thread i)
  have hnew (r : Option Bytes) : (s.taken,r) ∉ s.given := fun hr => Nat.lt_irrefl _ (h.given _ r hr).1
  let t : Sys ι := { (s.hand (.thread i) v).at i (.recvCopy n v s.taken) with msgq := msgq, taken := s.taken + 1 }
  have hself : t.pc i = .recvCopy n v s.taken := Function.update_self ..
  have hother {j : ι} (hj : j ≠ i) : t.pc j = s.pc j := Function.update_of_ne hj ..
  have hless {j : ι} {n' v' k : ℕ} (hj : s.pc j = .recvCopy n' v' k) : k < s.taken := by
    have howes := h.calls j
    rw [hj] at howes
    exact howes.1
  suffices ht : Inv t from ht
  refine ⟨fun j => ?_,fun k w hk => ?_,?_,fun k r hr => ?_,h.once,fun k hk => ?_,
    fun j j' n₁ n₂ v₁ v₂ k hj hj' => ?_⟩
  · by_cases hj : j = i
    · rw [hj,hself]
      exact ⟨Nat.lt_succ_self _,hnew,m,hm,hhand⟩
    · rw [hother hj]
      exact Keeps.owes (hkeeps (.thread j) (by simp)) (fun _ _ => id) (Nat.le_succ _) (fun _ _ _ _ _ => id) (h.calls j)
  · obtain ⟨m',hm',hholds'⟩ := h.queue (k + 1) w (by simpa [hq] using hk)
    have hnumber : s.taken + 1 + k = s.taken + (k + 1) := by omega
    have htaken : t.taken + k = s.taken + (k + 1) := hnumber
    rw [htaken]
    exact ⟨m',hm',Keeps.holds (hkeeps _ (by simp)) hholds'⟩
  · have hlength := h.length
    rw [hq,List.length_cons] at hlength
    have hnext : s.sent.length = s.taken + 1 + msgq.length := by omega
    exact hnext
  · exact (h.given k r hr).imp_left Nat.lt_succ_of_lt
  · rcases Nat.lt_succ_iff_lt_or_eq.mp hk with hlt | rfl
    · refine (h.fate k hlt).imp_right fun ⟨j,n',v',hj⟩ => ⟨j,n',v',?_⟩
      have hji : j ≠ i := by
        rintro rfl
        simp [hpc] at hj
      exact (hother hji).trans hj
    · exact Or.inr ⟨i,n,v,hself⟩
  · have hmine {j : ι} {n' v' : ℕ} (hk : t.pc j = .recvCopy n' v' k) :
        (j = i ∧ k = s.taken) ∨ (j ≠ i ∧ s.pc j = .recvCopy n' v' k ∧ k < s.taken) := by
      by_cases hji : j = i
      · rw [hji,hself] at hk
        exact Or.inl ⟨hji,(Pc.recvCopy.inj hk).2.2.symm⟩
      · rw [hother hji] at hk
        exact Or.inr ⟨hji,hk,hless hk⟩
    rcases hmine hj with ⟨rfl,hk⟩ | ⟨-,hj,hk⟩ <;> rcases hmine hj' with ⟨rfl,hk'⟩ | ⟨-,hj',hk'⟩
    · rfl
    · omega
    · omega
    · exact h.alone j j' _ _ _ _ k hj hj'

theorem Inv.copy (h : Inv s) {n k : ℕ} {beyond : Bytes} (hpc : s.pc i = .recvCopy n v k)
    (hgood : (s.val v).2 = (s.bytes (s.val v).1).length ∧ (s.val v).2 ≤ n)
    (hbeyond : beyond.length = (s.val v).2 - (s.bytes (s.val v).1).length) :
    Inv { s.at i (.recvFreeData v) with
      given := (k,if (s.val v).2 ≤ n then some (s.copied v beyond) else none) :: s.given } := by
  have howes := h.calls i
  rw [hpc] at howes
  obtain ⟨hk,hnot,m,hm,hholds⟩ := howes
  rw [if_pos hgood.2,hholds.copied hgood.1 hbeyond]
  let t : Sys ι := { s.at i (.recvFreeData v) with given := (k,some m) :: s.given }
  have hself : t.pc i = .recvFreeData v := Function.update_self ..
  have hother {j : ι} (hj : j ≠ i) : t.pc j = s.pc j := Function.update_of_ne hj ..
  have hcopies {j : ι} {n' v' k' : ℕ} (hj : t.pc j = .recvCopy n' v' k') :
      j ≠ i ∧ s.pc j = .recvCopy n' v' k' := by
    by_cases hji : j = i
    · rw [hji,hself] at hj
      simp at hj
    · exact ⟨hji,by rwa [hother hji] at hj⟩
  suffices ht : Inv t from ht
  refine ⟨fun j => ?_,h.queue,h.length,fun k' r hr => ?_,?_,fun k' hk' => ?_,
    fun j j' _ _ _ _ k' hj hj' => h.alone j j' _ _ _ _ k' (hcopies hj).2 (hcopies hj').2⟩
  · by_cases hj : j = i
    · rw [hj,hself]
      exact ⟨m,hholds⟩
    · rw [hother hj]
      refine Keeps.owes (s := s) (fun _ _ => id) (fun _ _ => id) (Nat.le_refl _) ?_ (h.calls j)
      intro n' v' k' hpcj r hr
      rcases List.mem_cons.mp hr with heq | hr
      · obtain ⟨rfl,-⟩ := Prod.mk.inj heq
        exact absurd (h.alone j i _ _ _ _ _ hpcj hpc) hj
      · exact hr
  · rcases List.mem_cons.mp hr with heq | hr
    · obtain ⟨rfl,rfl⟩ := Prod.mk.inj heq
      exact ⟨hk,m,rfl,hm⟩
    · exact h.given k' r hr
  · refine List.nodup_cons.mpr ⟨fun hmem => ?_,h.once⟩
    obtain ⟨⟨k',r⟩,hr,rfl⟩ := List.mem_map.mp hmem
    exact hnot r hr
  · rcases h.fate k' hk' with ⟨r,hr⟩ | ⟨j,n',v',hj⟩
    · exact Or.inl ⟨r,List.mem_cons_of_mem _ hr⟩
    · by_cases hji : j = i
      · subst hji
        obtain ⟨-,-,rfl⟩ := Pc.recvCopy.inj (hpc.symm.trans hj)
        exact Or.inl ⟨_,List.mem_cons_self⟩
      · exact Or.inr ⟨j,n',v',(hother hji).trans hj⟩

theorem Inv.freeData (h : Inv s) (hholds : ∃ m, s.Holds (.thread i) v m) (hbefore : (s.pc i).copies = false)
    (hafter : p.copies = false) (howes : ∀ u : Sys ι, (∃ d len, u.heap v = some (.thread i,.val d len)) → u.Owes i p) :
    Inv ((s.free (s.val v).1).at i p) := by
  obtain ⟨m,d,len,hv,hd⟩ := hholds
  rw [val_eq hv]
  refine h.works (fun o ho => keeps_own hd none o ho) (howes _ ⟨d,len,?_⟩) hbefore hafter
  exact update_of_block_ne hd hv (by simp) none

theorem Inv.free (h : Inv s) (hval : ∃ d len, s.heap v = some (.thread i,.val d len))
    (hbefore : (s.pc i).copies = false) (r : ℤ) : Inv ((s.free v).at i (.out r)) := by
  obtain ⟨d,len,hv⟩ := hval
  exact h.works (fun o ho => keeps_own hv none o ho) trivial hbefore rfl

variable {size : ℕ}

theorem Inv.go (h : Inv s) (hgo : s.go size i (s.pc i) = some t) : Inv t := by
  have howes := h.calls i
  cases hpc : s.pc i with
  | out r | sendAlloc msg | recvCopy n v k => simp [hpc,Sys.go] at hgo
  | send msg | recv n =>
    rw [hpc] at hgo
    obtain rfl := Option.some.inj hgo
    split_ifs <;> exact h.stays trivial (by rw [hpc]; rfl) rfl
  | sendDup msg v =>
    rw [hpc] at hgo
    rcases msg with _ | _ | ⟨c,m⟩
    · obtain rfl := Option.some.inj hgo
      exact h.noData hpc
    · obtain rfl := Option.some.inj hgo
      exact h.noData hpc
    · simp [Sys.go] at hgo
  | sendPut v =>
    rw [hpc] at hgo
    obtain rfl := Option.some.inj (Option.ite_none_right_eq_some.mp hgo).2
    exact h.put hpc
  | sendFreeData v | recvFreeData v =>
    rw [hpc] at hgo howes
    obtain rfl := Option.some.inj hgo
    exact h.freeData howes (by rw [hpc]; rfl) rfl (fun _ => id)
  | sendFree v | recvFree v =>
    rw [hpc] at hgo howes
    obtain rfl := Option.some.inj hgo
    exact h.free howes (by rw [hpc]; rfl) _
  | recvGet n =>
    rw [hpc,Sys.go] at hgo
    split at hgo
    · simp at hgo
    · next v msgq hq =>
      obtain rfl := Option.some.inj hgo
      exact h.get hpc hq

theorem Inv.step (h : Inv s) {l : Label ι} (hgood : ¬ Spoils s l) (hs : Mqueue.step size s l = some t) : Inv t := by
  cases l with
  | send i msg | recv i n =>
    rw [Mqueue.step] at hs
    split at hs
    · next r hpc =>
      obtain rfl := Option.some.inj hs
      exact h.stays trivial (by rw [hpc]; rfl) rfl
    · simp at hs
  | go i => exact h.go hs
  | alloc i a data len =>
    obtain ⟨⟨-,hfree⟩,hs⟩ := Option.ite_none_right_eq_some.mp hs
    split at hs
    · next msg hpc =>
      obtain rfl := Option.some.inj hs
      exact h.alloc hpc hfree
    · next c m v hpc =>
      obtain rfl := Option.some.inj hs
      exact h.dup hpc hfree (c :: m)
    · simp at hs
  | noMem i =>
    rw [Mqueue.step] at hs
    split at hs
    · next msg hpc =>
      obtain rfl := Option.some.inj hs
      exact h.stays trivial (by rw [hpc]; rfl) rfl
    · next c m v hpc =>
      obtain rfl := Option.some.inj hs
      exact h.noData hpc
    · simp at hs
  | fail i =>
    have howes := h.calls i
    rw [Mqueue.step] at hs
    split at hs
    · next v hpc =>
      obtain rfl := Option.some.inj hs
      rw [hpc] at howes
      exact h.stays howes (by rw [hpc]; rfl) rfl
    · next n hpc =>
      obtain rfl := Option.some.inj hs
      exact h.stays trivial (by rw [hpc]; rfl) rfl
    · simp at hs
  | copy i beyond =>
    rw [Mqueue.step] at hs
    split at hs
    · next n v k hpc =>
      obtain ⟨hbeyond,hs⟩ := Option.ite_none_right_eq_some.mp hs
      obtain rfl := Option.some.inj hs
      refine h.copy hpc ?_ hbeyond
      simpa [Spoils,hpc] using hgood
    · simp at hs

/-- A copy that spoils its message shows. -/
theorem Spoils.not_lossless {l : Label ι} (hl : Spoils s l) (h : Inv s) (hs : Mqueue.step size s l = some t) :
    ¬ t.Lossless := by
  cases l with
  | copy i beyond =>
    have howes := h.calls i
    rw [Mqueue.step] at hs
    split at hs
    · next n v k hpc =>
      obtain ⟨hbeyond,hs⟩ := Option.ite_none_right_eq_some.mp hs
      obtain rfl := Option.some.inj hs
      rw [hpc] at howes
      obtain ⟨-,-,m,hm,hholds⟩ := howes
      have hbad : ¬ ((s.val v).2 = (s.bytes (s.val v).1).length ∧ (s.val v).2 ≤ n) := by
        simpa [Spoils,hpc] using hl
      rw [hholds.bytes] at hbad hbeyond
      intro ht
      obtain ⟨-,m',hr,hm'⟩ := ht.delivered k _ List.mem_cons_self
      obtain rfl := Option.some.inj (hm.symm.trans hm')
      obtain ⟨hfits,hcopied⟩ := Option.ite_none_right_eq_some.mp hr
      refine hbad ⟨?_,hfits⟩
      have hlen : (s.copied v beyond).length = m.length := by rw [Option.some.inj hcopied]
      rw [Sys.copied,hholds.bytes,List.length_append,List.length_take,hbeyond] at hlen
      omega
    · simp at hs
  | _ => exact hl.elim

/-- No message is lost silently in exactly the runs in which each receive finds the length
of the message it took, and room for it. -/
theorem lossless_iff {ls : List (Label ι)} (h : Runs (Mqueue.step size) opened ls s) :
    (∀ ms u, ms <+: ls → Runs (Mqueue.step size) opened ms u → u.Lossless) ↔
      Runs (guarded (fun s l => ¬ Spoils s l) (Mqueue.step size)) opened ls s :=
  h.guarded_iff (fun _ hi => hi.lossless) (fun _ _ _ hi hgood hs => hi.step hgood hs)
    (fun _ _ _ hi hs ht hl => hl.not_lossless hi hs ht) Inv.opened

end Steps

/-- One thread sends three bytes, with a length found in the block, and another receives. -/
def exchange (len n : ℕ) (beyond : Bytes) : List (Label Bool) :=
  [.send true (some [1,2,3]),.go true,.alloc true 8 0 len,.alloc true 16 0 0,.go true,
    .recv false n,.go false,.go false,.copy false beyond,.go false,.go false]

theorem lossless_exchange : ∃ s, Runs (guarded (fun s l => ¬ Spoils s l) (step 1)) opened (exchange 3 4 []) s ∧
    s.given = [(0,some [1,2,3])] ∧
    ∀ ms u, ms <+: exchange 3 4 [] → Runs (step 1) opened ms u → u.Lossless := by
  refine Runs.exists_of_exec Sys.given (v := [(0,some [1,2,3])]) rfl ?_
  intro s hrun hgiven
  exact ⟨hgiven,(lossless_iff hrun.of_guarded).mpr hrun⟩

/-- The length is what os_malloc left there, here 0, and a message longer than the buffer
is thrown away; both receives succeed. -/
theorem lossless_fails :
    (∃ s, Runs (step 1) opened (exchange 0 4 []) s ∧ s.pc true = .out RET_OK ∧ s.pc false = .out 0 ∧
      s.given = [(0,some [])] ∧ ¬ s.Lossless) ∧
    ∃ s, Runs (step 1) opened (exchange 3 2 []) s ∧ s.pc true = .out RET_OK ∧ s.pc false = .out 0 ∧
      s.given = [(0,none)] ∧ ¬ s.Lossless := by
  constructor
  · refine Runs.exists_of_exec (fun s => (s.pc true,s.pc false,s.given,s.sent))
      (v := (.out RET_OK,.out 0,[(0,some [])],[[1,2,3]])) rfl ?_
    intro s _ hend
    obtain ⟨htrue,hend⟩ := Prod.mk.inj hend
    obtain ⟨hfalse,hend⟩ := Prod.mk.inj hend
    obtain ⟨hgiven,hsent⟩ := Prod.mk.inj hend
    refine ⟨htrue,hfalse,hgiven,fun h => ?_⟩
    obtain ⟨-,m,hr,hm⟩ := h.delivered 0 _ (by rw [hgiven]; exact List.mem_cons_self)
    obtain rfl := Option.some.inj hr
    simp [hsent] at hm
  · refine Runs.exists_of_exec (fun s => (s.pc true,s.pc false,s.given)) (v := (.out RET_OK,.out 0,[(0,none)])) rfl ?_
    intro s _ hend
    obtain ⟨htrue,hend⟩ := Prod.mk.inj hend
    obtain ⟨hfalse,hgiven⟩ := Prod.mk.inj hend
    refine ⟨htrue,hfalse,hgiven,fun h => ?_⟩
    obtain ⟨-,m,hr,-⟩ := h.delivered 0 _ (by rw [hgiven]; exact List.mem_cons_self)
    simp at hr

end FmacSdk.Mqueue
