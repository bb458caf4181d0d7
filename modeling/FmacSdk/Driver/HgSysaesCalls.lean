import FmacSdk.Driver.HgSysaesCbc
import FmacSdk.Foundation.Transition
import Mathlib.Data.Fintype.Defs

/-! # Requests that share the AES engine

Tasks fill the key registers before they lock the engine, byte by byte, and CBC unlocks
it between its blocks. The engine works for some time on what it has been given; its
interrupt ups a semaphore. The buffers of a request are its own.
-/
namespace FmacSdk.HgSysaesCalls
open HgSysaes Transition

/-- struct sysaes_para with what its pointers point to, for one of the two functions. -/
structure Request where
  flags : HgSysaesMode
  mode : BitVec 8
  keyLen : BitVec 8
  key : Key
  iv : Block
  blockNum : BitVec 32
  src : List Block
  dest : List Block
  srcLength : src.length = blockNum.toNat
  destLength : dest.length = blockNum.toNat
  fits : AES_BLOCK_SIZE * blockNum.toNat < 2 ^ 32

/-- A call in its loop: dest is what has been written and what is from `pos` on. -/
structure Call where
  req : Request
  written : List Block
  rest : List Block
  cbc : Block
  tmp : Block

/-- The local arrays are written before they are read. -/
def Request.start (req : Request) : Call := ⟨req,[],req.dest,fun _ => 0,fun _ => 0⟩

def Call.dest (c : Call) : List Block := c.written ++ c.rest

/-- The message is at dest, and the iv in the local array. -/
def Call.enter (c : Call) : Call := { c with written := [], rest := c.req.src, cbc := c.req.iv }

/-- `i < blocks` -/
def Call.continues (c : Call) : Bool := decide ((c.written.length : ℤ) < c.req.blockNum.toInt)

/-- The loop up to hg_sysaes_hdl. -/
def Call.before (c : Call) : Call :=
  match c.rest, c.req.flags with
  | b :: _, .encrypt => { c with cbc := mix c.cbc b }
  | b :: _, .decrypt => { c with tmp := b }
  | [], _ => c

/-- The loop behind hg_sysaes_hdl. -/
def Call.after (c : Call) : Call :=
  match c.rest, c.req.flags with
  | _ :: bs, .encrypt => { c with written := c.written ++ [c.cbc], rest := bs }
  | b :: bs, .decrypt => { c with written := c.written ++ [mix b c.cbc], rest := bs, cbc := c.tmp }
  | [], _ => c

/-- What the engine does where the registers are left alone. -/
def Call.serve (f : Equiv.Perm Block) (c : Call) : Call :=
  if c.req.mode = AES_MODE_ECB then
    let n := (c.req.blockNum &&& BLOCK_NUM_NUM_MSK).toNat
    { c with rest := (c.req.src.take n).map (c.req.flags.apply f) ++ c.rest.drop n }
  else match c.rest, c.req.flags with
    | _, .encrypt => { c with cbc := f c.cbc }
    | b :: bs, .decrypt => { c with rest := f.symm b :: bs }
    | [], .decrypt => c

/-- Anything in the buffers of a call. -/
def Call.scramble (junk : ℕ → Block) (c : Call) : Call :=
  { c with
    written := c.written.mapIdx fun i _ => junk i
    rest := c.rest.mapIdx fun i _ => junk (c.written.length + i)
    cbc := junk (c.written.length + c.rest.length) }

/-- The next statement: with `j` bytes of the key written, at the head of hg_sysaes_hdl, at
os_mutex_lock, behind its time-out, at the registers, at os_sema_down, at os_mutex_unlock and
behind hg_sysaes_hdl. -/
inductive Pc
  | out (result : ℤ)
  | fill (c : Call) (j : ℕ)
  | request (c : Call)
  | lock (c : Call)
  | lateUnlock (c : Call)
  | program (c : Call)
  | wait (c : Call)
  | unlock (c : Call) (ret : ℤ)
  | next (c : Call) (ret : ℤ)

/-- What the engine works on; disturbed where its registers have been changed meanwhile. -/
structure Job (ι : Type*) where
  owner : ι
  disturbed : Bool

structure Return where
  req : Request
  ret : ℤ
  dest : List Block

/-- With the returns, and the calls of os_mutex_unlock with the holder at the time. -/
structure Sys (ι : Type*) where
  key : Key
  lock : Option ι
  job : Option (Job ι)
  pending : Bool
  done : ℕ
  pc : ι → Pc
  returns : List Return
  unlocks : List (ι × Option ι)

/-- A call; a statement that does not wait; os_mutex_lock and its time-out; os_mutex_unlock, by
which a mutex of another task is released or not; os_sema_down and its time-out; the engine
is done, and its interrupt. -/
inductive Label (ι : Type*)
  | call (i : ι) (req : Request)
  | go (i : ι)
  | lock (i : ι)
  | lockTimeout (i : ι)
  | unlock (i : ι) (released : Bool)
  | down (i : ι)
  | doneTimeout (i : ι)
  | finish (junk : ℕ → Block)
  | irq

section Code
variable {ι : Type*} [DecidableEq ι] (cipher : BitVec 8 → Key → Equiv.Perm Block)

def Sys.at (s : Sys ι) (i : ι) (p : Pc) : Sys ι := { s with pc := Function.update s.pc i p }

def Sys.ret (s : Sys ι) (i : ι) (c : Call) (ret : ℤ) : Sys ι :=
  { s.at i (.out ret) with returns := ⟨c.req,ret,c.dest⟩ :: s.returns }

/-- The test of the loop of CBC. -/
def Sys.loop (s : Sys ι) (i : ι) (c : Call) : Sys ι :=
  if c.continues then s.at i (.request c.before) else s.ret i c RET_OK

/-- One byte of hg_sysaes_fill_key. -/
def Sys.write (s : Sys ι) (j : Fin 32) (v : BitVec 8) : Sys ι :=
  { s with
    key := Function.update s.key j v
    job := s.job.map fun job => { job with disturbed := job.disturbed || decide (s.key j ≠ v) } }

def Sys.go (s : Sys ι) (i : ι) : Pc → Option (Sys ι)
  | .fill c j =>
    if h : j < 32 then some ((s.write ⟨j,h⟩ (c.req.key ⟨j,h⟩)).at i (.fill c (j + 1)))
    else if c.req.mode = AES_MODE_ECB then some (s.at i (.request c))
    else if c.req.mode = AES_MODE_CBC then some (s.loop i c.enter)
    else some (s.ret i c RET_ERR)
  | .request c => some (s.at i (if c.req.keyLen ≠ AES_KEY_LEN_BIT_256 then .next c RET_ERR else .lock c))
  | .program c => some { s.at i (.wait c) with job := some ⟨i,s.job.isSome⟩, pending := false }
  | .next c ret => if c.req.mode = AES_MODE_ECB then some (s.ret i c ret) else some (s.loop i c.after)
  | .out _ | .lock _ | .lateUnlock _ | .wait _ | .unlock .. => none

/-- os_mutex_unlock -/
def Sys.unlock (s : Sys ι) (i : ι) (released : Bool) : Sys ι :=
  { s with
    lock := if s.lock = some i ∨ released then none else s.lock
    unlocks := (i,s.lock) :: s.unlocks }

/-- The result for the call that waits for it; otherwise what is left in the buffers of the owner. -/
def Sys.finish (s : Sys ι) (job : Job ι) (junk : ℕ → Block) : Pc :=
  match s.pc job.owner with
  | .wait c => .wait (if job.disturbed then c.scramble junk else c.serve (cipher AES_KEY_LEN_BIT_256 s.key))
  | .fill c j => .fill (c.scramble junk) j
  | .request c => .request (c.scramble junk)
  | .lock c => .lock (c.scramble junk)
  | .lateUnlock c => .lateUnlock (c.scramble junk)
  | .program c => .program (c.scramble junk)
  | .unlock c ret => .unlock (c.scramble junk) ret
  | .next c ret => .next (c.scramble junk) ret
  | .out ret => .out ret

def step (s : Sys ι) : Label ι → Option (Sys ι)
  | .call i req => match s.pc i with
    | .out _ => some (if req.mode > AES_MODE_CBC then s.ret i req.start RET_ERR else s.at i (.fill req.start 0))
    | _ => none
  | .go i => s.go i (s.pc i)
  | .lock i => match s.pc i with
    | .lock c => if s.lock = none then some { s.at i (.program c) with lock := some i } else none
    | _ => none
  | .lockTimeout i => match s.pc i with
    | .lock c => some (s.at i (.lateUnlock c))
    | _ => none
  | .unlock i released => match s.pc i with
    | .lateUnlock c => some ((s.unlock i released).at i (.next c RET_ERR))
    | .unlock c ret => some ((s.unlock i released).at i (.next c ret))
    | _ => none
  | .down i => match s.pc i with
    | .wait c => if 0 < s.done then some { s.at i (.unlock c RET_OK) with done := s.done - 1 } else none
    | _ => none
  | .doneTimeout i => match s.pc i with
    | .wait c => some (s.at i (.unlock c RET_ERR))
    | _ => none
  | .finish junk => match s.job with
    | some job => some { s.at job.owner (s.finish cipher job junk) with job := none, pending := true }
    | none => none
  | .irq => if s.pending then some { s with pending := false, done := s.done + 1 } else none

/-- hg_sysaes_attach -/
def attached (key : Key) : Sys ι := ⟨key,none,none,false,0,fun _ => .out 0,[],[]⟩

/-! ## Success means correct output -/

def Request.cipherOf (req : Request) : Equiv.Perm Block := cipher req.keyLen req.key

/-- The message under `f`. -/
def Request.output (f : Equiv.Perm Block) (req : Request) : List Block :=
  if req.mode = AES_MODE_ECB then req.src.map (req.flags.apply f)
  else match req.flags with
    | .encrypt => CipherChaining.encrypt mix f req.iv req.src
    | .decrypt => CipherChaining.decrypt mix f.symm req.iv req.src

structure Sys.Correct (s : Sys ι) : Prop where
  outputs : ∀ r ∈ s.returns, r.ret = RET_OK → r.dest = r.req.output (r.req.cipherOf cipher)
  releases : ∀ u ∈ s.unlocks, u.2 = some u.1

end Code

/-! ## When it does -/

/-- There is another block to be worked on. -/
def Call.again (c : Call) : Bool := c.req.mode ≠ AES_MODE_ECB && c.after.continues

/-- The request whose key is to stay in the key registers, with the number of its bytes that are there. -/
def Pc.relies (working : Bool) : Pc → Option (Request × ℕ)
  | .fill c j => if c.req.keyLen = AES_KEY_LEN_BIT_256 then some (c.req,j) else none
  | .request c => if c.req.keyLen = AES_KEY_LEN_BIT_256 then some (c.req,32) else none
  | .lock c | .program c => some (c.req,32)
  | .wait c => if working ∨ c.again then some (c.req,32) else none
  | .unlock c _ | .next c _ => if c.again then some (c.req,32) else none
  | .out _ | .lateUnlock _ => none

def Sys.relies {ι : Type*} (s : Sys ι) (i : ι) : Option (Request × ℕ) := (s.pc i).relies s.job.isSome

/-- A byte of the key of `i` is overwritten with another. -/
def Sys.Loses {ι : Type*} (s : Sys ι) (i : ι) (j : Fin 32) (v : BitVec 8) : Prop :=
  ∃ x ∈ s.relies i, j.val < x.2 ∧ x.1.key j ≠ v

/-- A request that hg_sysaes_hdl refuses while CBC goes on, or that is longer than the engine counts. -/
def Request.Irregular (req : Request) : Prop :=
  (req.mode = AES_MODE_CBC ∧ req.keyLen ≠ AES_KEY_LEN_BIT_256 ∧ req.src ≠ []) ∨
    (req.mode = AES_MODE_ECB ∧ req.keyLen = AES_KEY_LEN_BIT_256 ∧ BLOCK_NUM_NUM_MSK < req.blockNum)

/-- An irregular request, a key that is filled over another, or a wait that times out. -/
def Spoils {ι : Type*} (s : Sys ι) : Label ι → Prop
  | .call _ req => req.Irregular
  | .go i => match s.pc i with
    | .fill c j => ∃ h : j < 32, ∃ k, k ≠ i ∧ s.Loses k ⟨j,h⟩ (c.req.key ⟨j,h⟩)
    | _ => False
  | .lockTimeout _ | .doneTimeout _ => True
  | .lock _ | .unlock .. | .down _ | .finish _ | .irq => False

instance {ι : Type*} (s : Sys ι) (i : ι) (j : Fin 32) (v : BitVec 8) : Decidable (s.Loses i j v) :=
  inferInstanceAs (Decidable (∃ x ∈ s.relies i, j.val < x.2 ∧ x.1.key j ≠ v))

instance (req : Request) : Decidable req.Irregular := inferInstanceAs (Decidable (_ ∨ _))

instance {ι : Type*} [DecidableEq ι] [Fintype ι] (s : Sys ι) (l : Label ι) : Decidable (Spoils s l) := by
  unfold Spoils
  cases l with
  | go i => dsimp only; cases s.pc i <;> infer_instance
  | _ => infer_instance

/-! ## The calls -/

section Loop
variable {f : Equiv.Perm Block} {c : Call} {req : Request}

/-- What CBC makes of the blocks from here on. -/
def Call.chain (f : Equiv.Perm Block) (c : Call) : List Block :=
  match c.req.flags with
  | .encrypt => CipherChaining.encrypt mix f c.cbc c.rest
  | .decrypt => CipherChaining.decrypt mix f.symm c.cbc c.rest

/-- At the test of the loop. -/
structure Call.AtHead (f : Equiv.Perm Block) (c : Call) : Prop where
  mode : c.req.mode ≠ AES_MODE_ECB
  out : c.written ++ c.chain f = c.req.output f
  length : c.written.length + c.rest.length = c.req.blockNum.toNat

theorem Call.AtHead.enter (h : req.mode ≠ AES_MODE_ECB) : req.start.enter.AtHead f :=
  ⟨h,(if_neg h).symm,(Nat.zero_add _).trans req.srcLength⟩

theorem Call.AtHead.continues (h : c.AtHead f) : c.continues = true ↔ c.rest ≠ [] := by
  have hfits : 16 * c.req.blockNum.toNat < 2 ^ 32 := c.req.fits
  have hlength := h.length
  unfold Call.continues
  rw [decide_eq_true_iff,BitVec.toInt_eq_toNat_of_lt (by omega),← List.length_pos_iff]
  omega

theorem Call.AtHead.dest (h : c.AtHead f) (hrest : c.rest = []) : c.dest = c.req.output f := by
  have hchain : c.chain f = c.rest := by
    unfold Call.chain
    rw [hrest]
    cases c.req.flags <;> rfl
  rw [← h.out,hchain]
  rfl

/-- One block. -/
theorem Call.AtHead.next (h : c.AtHead f) (hrest : c.rest ≠ []) : (c.before.serve f).after.AtHead f := by
  obtain ⟨req,written,rest,cbc,tmp⟩ := c
  obtain ⟨hmode,hout,hlength⟩ := h
  cases rest with
  | nil => exact absurd rfl hrest
  | cons b bs =>
    have hsum : written.length + (bs.length + 1) = req.blockNum.toNat := hlength
    have hlength' (x : Block) : (written ++ [x]).length + bs.length = req.blockNum.toNat := by
      rw [List.length_append,List.length_singleton]
      omega
    cases hflags : req.flags with
    | encrypt =>
      have hnext : ((Call.before ⟨req,written,b :: bs,cbc,tmp⟩).serve f).after =
          ⟨req,written ++ [f (mix cbc b)],bs,f (mix cbc b),tmp⟩ := by
        simp [Call.before,Call.serve,Call.after,hflags,hmode]
      rw [hnext]
      refine ⟨hmode,?_,hlength' _⟩
      rw [← hout]
      simp [Call.chain,hflags,CipherChaining.encrypt]
    | decrypt =>
      have hnext : ((Call.before ⟨req,written,b :: bs,cbc,tmp⟩).serve f).after =
          ⟨req,written ++ [mix (f.symm b) cbc],bs,b,b⟩ := by
        simp [Call.before,Call.serve,Call.after,hflags,hmode]
      rw [hnext]
      refine ⟨hmode,?_,hlength' _⟩
      rw [← hout]
      simp [Call.chain,hflags,CipherChaining.decrypt]

/-- What the engine is given in ECB. -/
structure Call.Whole (c : Call) : Prop where
  written : c.written = []
  length : c.rest.length = c.req.blockNum.toNat
  counted : c.req.keyLen = AES_KEY_LEN_BIT_256 → c.req.blockNum ≤ BLOCK_NUM_NUM_MSK

/-- Up to the work of the engine. -/
def Call.Ready (f : Equiv.Perm Block) (c : Call) : Prop :=
  if c.req.mode = AES_MODE_ECB then c.Whole
  else ∃ c₀ : Call, c₀.AtHead f ∧ c₀.rest ≠ [] ∧ c = c₀.before

/-- From the work of the engine on. -/
def Call.Served (f : Equiv.Perm Block) (c : Call) : Prop :=
  if c.req.mode = AES_MODE_ECB then c.dest = c.req.output f
  else c.after.AtHead f

theorem before_req (c : Call) : c.before.req = c.req := by
  unfold Call.before
  split <;> rfl

theorem after_req (c : Call) : c.after.req = c.req := by
  unfold Call.after
  split <;> rfl

theorem serve_req (f : Equiv.Perm Block) (c : Call) : (c.serve f).req = c.req := by
  unfold Call.serve
  split
  · rfl
  · split <;> rfl

theorem Call.Whole.serve (h : c.Whole) (hmode : c.req.mode = AES_MODE_ECB)
    (hlen : c.req.keyLen = AES_KEY_LEN_BIT_256) : (c.serve f).dest = c.req.output f := by
  have hcount : (c.req.blockNum &&& BLOCK_NUM_NUM_MSK).toNat = c.req.blockNum.toNat := by
    have hbound : c.req.blockNum.toNat < 2 ^ 20 := Nat.lt_succ_of_le (h.counted hlen)
    rw [BitVec.toNat_and]
    exact (Nat.and_two_pow_sub_one_eq_mod _ 20).trans (Nat.mod_eq_of_lt hbound)
  have hsrc : c.req.src.take c.req.blockNum.toNat = c.req.src := List.take_of_length_le c.req.srcLength.le
  have hrest : c.rest.drop c.req.blockNum.toNat = [] := List.drop_of_length_le h.length.le
  unfold Call.serve Call.dest Request.output
  rw [if_pos hmode,if_pos hmode]
  simp [hcount,hsrc,hrest,h.written]

theorem Call.Ready.serve (h : c.Ready f) (hlen : c.req.keyLen = AES_KEY_LEN_BIT_256) : (c.serve f).Served f := by
  unfold Call.Ready at h
  unfold Call.Served
  rw [serve_req]
  by_cases hmode : c.req.mode = AES_MODE_ECB
  · rw [if_pos hmode] at h ⊢
    exact h.serve hmode hlen
  · rw [if_neg hmode] at h ⊢
    obtain ⟨c₀,hhead,hrest,rfl⟩ := h
    exact hhead.next hrest

end Loop

/-! ## The invariant -/

section Invariant
variable (cipher : BitVec 8 → Key → Equiv.Perm Block)

/-- Where no wait times out. -/
def Pc.Good (working : Bool) : Pc → Prop
  | .out _ => True
  | .fill c _ => c = c.req.start ∧ ¬ c.req.Irregular
  | .request c => c.Ready (c.req.cipherOf cipher) ∧ (c.req.mode ≠ AES_MODE_ECB → c.req.keyLen = AES_KEY_LEN_BIT_256)
  | .lock c | .program c => c.Ready (c.req.cipherOf cipher) ∧ c.req.keyLen = AES_KEY_LEN_BIT_256
  | .lateUnlock _ => False
  | .wait c => c.req.keyLen = AES_KEY_LEN_BIT_256 ∧
    if working then c.Ready (c.req.cipherOf cipher) else c.Served (c.req.cipherOf cipher)
  | .unlock c ret => ret = RET_OK ∧ c.req.keyLen = AES_KEY_LEN_BIT_256 ∧ c.Served (c.req.cipherOf cipher)
  | .next c ret => if ret = RET_OK then c.req.keyLen = AES_KEY_LEN_BIT_256 ∧ c.Served (c.req.cipherOf cipher)
    else c.req.mode = AES_MODE_ECB

/-- Between os_mutex_lock and os_mutex_unlock. -/
def Pc.holds : Pc → Bool
  | .program _ | .wait _ | .unlock .. => true
  | _ => false

variable {ι : Type*}

def Sys.completions (s : Sys ι) : ℕ := s.job.isSome.toNat + s.pending.toNat + s.done

structure Inv (s : Sys ι) : Prop where
  correct : s.Correct cipher
  calls : ∀ i, (s.pc i).Good cipher s.job.isSome
  key : ∀ i, ∀ x ∈ s.relies i, ∀ b : Fin 32, b.val < x.2 → s.key b = x.1.key b
  holder : ∀ i, (s.pc i).holds = true ↔ s.lock = some i
  job : ∀ j ∈ s.job, j.disturbed = false ∧ ∃ c, s.pc j.owner = .wait c
  waiting : ∀ i c, s.pc i = .wait c → s.completions = 1
  quiet : (∀ i c, s.pc i ≠ .wait c) → s.completions = 0

end Invariant

section Steps
variable {cipher : BitVec 8 → Key → Equiv.Perm Block} {ι : Type*} {s t : Sys ι} {i k : ι} {p : Pc} {c : Call}
variable {working working' : Bool}

theorem Pc.Good.free (h : p.Good cipher working) (hfree : p.holds = false) : p.Good cipher working' := by
  cases p with
  | wait c | program c | unlock c ret => cases hfree
  | _ => exact h

theorem relies_free (hfree : p.holds = false) : p.relies working = p.relies working' := by
  cases p with
  | wait c | program c | unlock c ret => cases hfree
  | _ => rfl

/-- Nobody else is between os_mutex_lock and os_mutex_unlock. -/
theorem Inv.others (h : Inv cipher s) (hi : (s.pc i).holds = true) (hk : k ≠ i) : (s.pc k).holds = false := by
  rw [← Bool.not_eq_true]
  intro hheld
  have hlock : some k = some i := ((h.holder k).mp hheld).symm.trans ((h.holder i).mp hi)
  exact hk (Option.some.inj hlock)

/-- The task that has the lock. -/
theorem Inv.holding (h : Inv cipher s) (hpc : s.pc i = p) (hp : p.holds = true) :
    s.lock = some i ∧ ∀ k, k ≠ i → (s.pc k).holds = false := by
  have hholds : (s.pc i).holds = true := by rwa [hpc]
  exact ⟨(h.holder i).mp hholds,fun k hk => h.others hholds hk⟩

/-- What is known of the task at its statement. -/
theorem Inv.at_pc (h : Inv cipher s) (hpc : s.pc i = p) : p.Good cipher s.job.isSome ∧
    ∀ x ∈ p.relies s.job.isSome, ∀ b : Fin 32, b.val < x.2 → s.key b = x.1.key b := by
  have hrelies := h.key i
  unfold Sys.relies at hrelies
  exact ⟨hpc ▸ h.calls i,hpc ▸ hrelies⟩

theorem Inv.attached (key : Key) : Inv cipher (attached key : Sys ι) := by
  refine ⟨⟨?_,?_⟩,fun i => trivial,?_,?_,?_,?_,fun _ => rfl⟩ <;>
    simp [HgSysaesCalls.attached,Sys.relies,Pc.relies,Pc.holds]

variable [DecidableEq ι]

@[simp] theorem at_pc_self (p : Pc) : (s.at i p).pc i = p := Function.update_self ..

theorem at_pc_other (p : Pc) (hk : k ≠ i) : (s.at i p).pc k = s.pc k := Function.update_of_ne hk ..

theorem at_forall {P : ι → Pc → Prop} (hself : P i p) (hother : ∀ k, k ≠ i → P k (s.pc k)) (k : ι) :
    P k ((s.at i p).pc k) := by
  by_cases hk : k = i
  · subst hk
    rw [at_pc_self]
    exact hself
  · rw [at_pc_other p hk]
    exact hother k hk

/-- A statement outside the lock. -/
theorem Inv.move (h : Inv cipher s) (hfrom : (s.pc i).holds = false) (hto : p.holds = false)
    (hgood : p.Good cipher s.job.isSome)
    (hkey : ∀ x ∈ p.relies s.job.isSome, ∀ b : Fin 32, b.val < x.2 → s.key b = x.1.key b) : Inv cipher (s.at i p) where
  correct := ⟨h.correct.outputs,h.correct.releases⟩
  calls := at_forall (P := fun _ p => p.Good cipher s.job.isSome) hgood fun k _ => h.calls k
  key := at_forall (P := fun _ p => ∀ x ∈ p.relies s.job.isSome, ∀ b : Fin 32, b.val < x.2 → s.key b = x.1.key b)
    hkey fun k _ => h.key k
  holder := by
    refine at_forall (P := fun k p => p.holds = true ↔ s.lock = some k) ?_ fun k _ => h.holder k
    rw [hto,← hfrom]
    exact h.holder i
  job j hj := by
    obtain ⟨hclean,c,hwait⟩ := h.job j hj
    have hne : j.owner ≠ i := by
      rintro rfl
      rw [hwait] at hfrom
      cases hfrom
    exact ⟨hclean,c,(at_pc_other p hne).trans hwait⟩
  waiting := by
    refine at_forall (P := fun _ p => ∀ c, p = .wait c → s.completions = 1) (fun c hp => ?_) fun k _ => h.waiting k
    rw [hp] at hto
    cases hto
  quiet hnone := by
    refine h.quiet fun k c hwait => ?_
    have hne : k ≠ i := by
      rintro rfl
      rw [hwait] at hfrom
      cases hfrom
    exact hnone k c ((at_pc_other p hne).trans hwait)

theorem Inv.ret (h : Inv cipher s) (hfrom : (s.pc i).holds = false) {ret : ℤ}
    (hout : ret = RET_OK → c.dest = c.req.output (c.req.cipherOf cipher)) : Inv cipher (s.ret i c ret) := by
  have hmove : Inv cipher (s.at i (.out ret)) := h.move hfrom rfl trivial (by simp [Pc.relies])
  refine ⟨⟨fun r hr => ?_,hmove.correct.releases⟩,hmove.calls,hmove.key,hmove.holder,hmove.job,hmove.waiting,hmove.quiet⟩
  rcases List.mem_cons.mp hr with rfl | hr
  · exact hout
  · exact h.correct.outputs r hr

/-- A statement at which the task is the only one that is, or will be, between os_mutex_lock and
os_mutex_unlock. -/
theorem Inv.alone (h : Inv cipher s) (hothers : ∀ k, k ≠ i → (s.pc k).holds = false)
    (hpc : t.pc = (s.at i p).pc) (hkey : t.key = s.key) (hcorrect : t.Correct cipher)
    (hgood : p.Good cipher t.job.isSome)
    (hrelies : ∀ x ∈ p.relies t.job.isSome, ∀ b : Fin 32, b.val < x.2 → s.key b = x.1.key b)
    (hlock : t.lock = if p.holds then some i else none)
    (hjob : ∀ j ∈ t.job, j.disturbed = false ∧ j.owner = i ∧ ∃ c, p = .wait c)
    (hwait : ∀ c, p = .wait c → t.completions = 1) (hquiet : (∀ c, p ≠ .wait c) → t.completions = 0) : Inv cipher t where
  correct := hcorrect
  calls := by
    rw [hpc]
    exact at_forall (P := fun _ p => p.Good cipher t.job.isSome) hgood fun k hk => (h.calls k).free (hothers k hk)
  key k := by
    unfold Sys.relies
    rw [hpc,hkey]
    refine at_forall (P := fun _ p => ∀ x ∈ p.relies t.job.isSome, ∀ b : Fin 32, b.val < x.2 → s.key b = x.1.key b)
      hrelies (fun k hk => ?_) k
    rw [relies_free (hothers k hk)]
    exact h.key k
  holder := by
    rw [hpc,hlock]
    refine at_forall (P := fun k p' => p'.holds = true ↔ (if p.holds then some i else none) = some k) ?_ fun k hk => ?_
    · cases p.holds <;> simp
    · rw [hothers k hk]
      cases p.holds <;> simp [hk.symm]
  job j hj := by
    obtain ⟨hclean,hi,c,hp⟩ := hjob j hj
    refine ⟨hclean,c,?_⟩
    rw [hpc,hi,at_pc_self,hp]
  waiting := by
    rw [hpc]
    refine at_forall (P := fun _ p => ∀ c, p = .wait c → t.completions = 1) hwait fun k hk c hc => ?_
    have := hothers k hk
    rw [hc] at this
    cases this
  quiet hnone := by
    refine hquiet fun c hp => hnone i c ?_
    rw [hpc,at_pc_self,hp]

omit [DecidableEq ι] in
/-- With nobody at os_sema_down there is nothing to wait for. -/
theorem Inv.idle (h : Inv cipher s) (hothers : ∀ k, k ≠ i → (s.pc k).holds = false) (hi : ∀ c, s.pc i ≠ .wait c) :
    s.job = none ∧ s.pending = false ∧ s.done = 0 := by
  have hzero : s.completions = 0 := by
    refine h.quiet fun k c hwait => ?_
    by_cases hk : k = i
    · subst hk
      exact hi c hwait
    · have := hothers k hk
      rw [hwait] at this
      cases this
  unfold Sys.completions at hzero
  refine ⟨?_,?_,by omega⟩
  · cases hjob : s.job with
    | none => rfl
    | some j =>
      rw [hjob,Option.isSome_some,Bool.toNat_true] at hzero
      omega
  · cases hpending : s.pending with
    | false => rfl
    | true =>
      rw [hpending,Bool.toNat_true] at hzero
      omega

theorem Inv.lock (h : Inv cipher s) (hpc : s.pc i = .lock c) (hlock : s.lock = none) :
    Inv cipher { s.at i (.program c) with lock := some i } := by
  have hfree (k : ι) : (s.pc k).holds = false := by
    rw [← Bool.not_eq_true,h.holder k,hlock]
    exact nofun
  obtain ⟨hgood,hrelies⟩ := h.at_pc hpc
  obtain ⟨hjob,hpending,hdone⟩ := h.idle (i := i) (fun k _ => hfree k) (by simp [hpc])
  refine h.alone (fun k _ => hfree k) rfl rfl ⟨h.correct.outputs,h.correct.releases⟩ hgood hrelies rfl ?_ ?_ ?_
  · simp [Sys.at,hjob]
  · simp
  · simp [Sys.at,Sys.completions,hjob,hpending,hdone]

theorem Inv.unlock (h : Inv cipher s) {ret : ℤ} (hpc : s.pc i = .unlock c ret) (released : Bool) :
    Inv cipher ((s.unlock i released).at i (.next c ret)) := by
  obtain ⟨hlock,hothers⟩ := h.holding hpc rfl
  obtain ⟨⟨rfl,hlen,hserved⟩,hrelies⟩ := h.at_pc hpc
  obtain ⟨hjob,hpending,hdone⟩ := h.idle (i := i) hothers (by simp [hpc])
  refine h.alone hothers rfl rfl ⟨h.correct.outputs,fun u hu => ?_⟩ ⟨hlen,hserved⟩ hrelies ?_ ?_ ?_ ?_
  · rcases List.mem_cons.mp hu with rfl | hu
    · exact hlock
    · exact h.correct.releases u hu
  · exact if_pos (Or.inl hlock)
  · simp [Sys.at,Sys.unlock,hjob]
  · simp
  · simp [Sys.at,Sys.unlock,Sys.completions,hjob,hpending,hdone]

theorem Inv.program (h : Inv cipher s) (hpc : s.pc i = .program c) :
    Inv cipher { s.at i (.wait c) with job := some ⟨i,s.job.isSome⟩, pending := false } := by
  obtain ⟨hlock,hothers⟩ := h.holding hpc rfl
  obtain ⟨hgood,hrelies⟩ := h.at_pc hpc
  obtain ⟨hjob,-,hdone⟩ := h.idle (i := i) hothers (by simp [hpc])
  refine h.alone hothers rfl rfl ⟨h.correct.outputs,h.correct.releases⟩ ⟨hgood.2,hgood.1⟩ hrelies hlock ?_ ?_ ?_
  · simp [hjob]
  · simp [Sys.at,Sys.completions,hdone]
  · simp

/-- The completion of the own request, which is the only one there is. -/
theorem Inv.down (h : Inv cipher s) (hpc : s.pc i = .wait c) (hdone : 0 < s.done) :
    Inv cipher { s.at i (.unlock c RET_OK) with done := s.done - 1 } := by
  obtain ⟨hlock,hothers⟩ := h.holding hpc rfl
  have hone := h.waiting i c hpc
  unfold Sys.completions at hone
  have hjob : s.job.isSome = false := by
    rw [← Bool.not_eq_true]
    intro hsome
    rw [hsome,Bool.toNat_true] at hone
    omega
  obtain ⟨hgood,hrelies⟩ := h.at_pc hpc
  rw [hjob] at hgood hrelies
  refine h.alone hothers rfl rfl ⟨h.correct.outputs,h.correct.releases⟩ ⟨rfl,hgood.1,hgood.2⟩ ?_ hlock ?_ ?_ fun _ => ?_
  · simpa [Pc.relies] using hrelies
  · have hnone : s.job = none := by simpa using hjob
    simp [Sys.at,hnone]
  · simp
  · show s.job.isSome.toNat + s.pending.toNat + (s.done - 1) = 0
    omega

theorem Inv.finish (h : Inv cipher s) {j : Job ι} (hj : s.job = some j) (junk : ℕ → Block) :
    Inv cipher { s.at j.owner (s.finish cipher j junk) with job := none, pending := true } := by
  obtain ⟨hclean,c,hpc⟩ := h.job j hj
  obtain ⟨hlock,hothers⟩ := h.holding hpc rfl
  have hone := h.waiting _ c hpc
  unfold Sys.completions at hone
  rw [hj] at hone
  obtain ⟨hgood,hrelies⟩ := h.at_pc hpc
  rw [hj] at hgood hrelies
  obtain ⟨hlen,hready⟩ := hgood
  have hkey : s.key = c.req.key := by
    funext b
    exact hrelies _ rfl b b.isLt
  have hfinish : s.finish cipher j junk = .wait (c.serve (c.req.cipherOf cipher)) := by
    unfold Sys.finish Request.cipherOf
    simp only [hpc,hclean,hkey,hlen]
    rfl
  rw [hfinish]
  refine h.alone hothers rfl rfl ⟨h.correct.outputs,h.correct.releases⟩ ?_ ?_ hlock ?_ ?_ ?_
  · have hserved : (c.serve (c.req.cipherOf cipher)).Served (c.req.cipherOf cipher) := Call.Ready.serve hready hlen
    refine ⟨(congrArg Request.keyLen (serve_req _ c)).trans hlen,?_⟩
    show Call.Served (Request.cipherOf cipher (c.serve _).req) _
    rw [serve_req]
    exact hserved
  · intro x hx b _
    obtain ⟨-,hx⟩ := Option.ite_none_right_eq_some.mp hx
    obtain rfl := Option.some.inj hx
    rw [hkey]
    exact congrFun (congrArg Request.key (serve_req _ c)).symm b
  · simp
  · intro _ _
    show 0 + 1 + s.done = 1
    rw [Option.isSome_some,Bool.toNat_true] at hone
    omega
  · simp

omit [DecidableEq ι] in
theorem Inv.irq (h : Inv cipher s) (hpending : s.pending = true) :
    Inv cipher { s with pending := false, done := s.done + 1 } := by
  have hcount : Sys.completions { s with pending := false, done := s.done + 1 } = s.completions := by
    simp only [Sys.completions,hpending,Bool.toNat_true,Bool.toNat_false]
    omega
  exact ⟨⟨h.correct.outputs,h.correct.releases⟩,h.calls,h.key,h.holder,h.job,
    fun i c hpc => hcount.trans (h.waiting i c hpc),fun hnone => hcount.trans (h.quiet hnone)⟩

omit [DecidableEq ι] in
/-- A byte of the key registers, where nobody's key is lost. -/
theorem Inv.write (h : Inv cipher s) {j : Fin 32} {v : BitVec 8} (hkeep : ∀ k, ¬ s.Loses k j v) : Inv cipher (s.write j v) := by
  have hsome : (s.write j v).job.isSome = s.job.isSome := Option.isSome_map
  have hcount : (s.write j v).completions = s.completions := by
    unfold Sys.completions
    rw [hsome]
    rfl
  refine ⟨⟨h.correct.outputs,h.correct.releases⟩,?_,?_,h.holder,?_,?_,?_⟩
  · rw [hsome]
    exact h.calls
  · intro k x hx b hb
    unfold Sys.relies at hx
    rw [hsome] at hx
    by_cases hbj : b = j
    · subst hbj
      have hsame : x.1.key b = v := by
        by_contra hne
        exact hkeep k ⟨x,hx,hb,hne⟩
      exact (Function.update_self ..).trans hsame.symm
    · exact (Function.update_of_ne hbj ..).trans (h.key k x hx b hb)
  · intro job hjob
    obtain ⟨job,hold,rfl⟩ := Option.map_eq_some_iff.mp hjob
    obtain ⟨hclean,c,hpc⟩ := h.job job hold
    have hrelies : (c.req,32) ∈ s.relies job.owner := by
      unfold Sys.relies
      rw [hpc,hold]
      rfl
    have hsame : s.key j = v := by
      rw [h.key _ _ hrelies j j.isLt]
      by_contra hne
      exact hkeep _ ⟨_,hrelies,j.isLt,hne⟩
    exact ⟨by simp [hclean,hsame],c,hpc⟩
  · intro i c hpc
    exact hcount.trans (h.waiting i c hpc)
  · intro hnone
    exact hcount.trans (h.quiet hnone)

/-- The test of the loop; where it goes on, the key is there. -/
theorem Inv.loop (h : Inv cipher s) (hfrom : (s.pc i).holds = false) (hhead : c.AtHead (c.req.cipherOf cipher))
    (hlen : c.rest ≠ [] → c.req.keyLen = AES_KEY_LEN_BIT_256) (hkey : c.rest ≠ [] → s.key = c.req.key) :
    Inv cipher (s.loop i c) := by
  unfold Sys.loop
  split
  · next hcontinues =>
    have hrest := hhead.continues.mp hcontinues
    refine h.move hfrom rfl ?_ ?_
    · refine ⟨?_,fun _ => ?_⟩
      · unfold Call.Ready
        rw [before_req,if_neg hhead.mode]
        exact ⟨c,hhead,hrest,rfl⟩
      · rw [before_req]
        exact hlen hrest
    · intro x hx b _
      obtain ⟨-,hx⟩ := Option.ite_none_right_eq_some.mp hx
      obtain rfl := Option.some.inj hx
      rw [hkey hrest]
      exact congrFun (congrArg Request.key (before_req c)).symm b
  · next hcontinues =>
    have hrest : c.rest = [] := by
      by_contra hne
      exact hcontinues (hhead.continues.mpr hne)
    exact h.ret hfrom fun _ => hhead.dest hrest

omit [DecidableEq ι] in
/-- The key is filled. -/
theorem Inv.filled (h : Inv cipher s) {j : ℕ} (hpc : s.pc i = .fill c j) (hj : ¬ j < 32)
    (hlen : c.req.keyLen = AES_KEY_LEN_BIT_256) : s.key = c.req.key := by
  have hrelies : (c.req,j) ∈ s.relies i := by
    unfold Sys.relies
    rw [hpc]
    exact if_pos hlen
  funext b
  exact h.key i _ hrelies b (b.isLt.trans_le (not_lt.mp hj))

theorem Inv.fill (h : Inv cipher s) {j : ℕ} (hpc : s.pc i = .fill c j) (hgood : ¬ Spoils s (.go i))
    (hs : s.go i (.fill c j) = some t) : Inv cipher t := by
  have hfree : (s.pc i).holds = false := by
    rw [hpc]
    rfl
  obtain ⟨⟨hstart,hregular⟩,hrelies⟩ := h.at_pc hpc
  rw [Sys.go] at hs
  by_cases hj : j < 32
  · obtain rfl := Option.some.inj ((dif_pos hj).symm.trans hs)
    have hkeep : ∀ k, ¬ s.Loses k ⟨j,hj⟩ (c.req.key ⟨j,hj⟩) := by
      intro k hlost
      by_cases hk : k = i
      · subst hk
        obtain ⟨x,hx,hlt,-⟩ := hlost
        unfold Sys.relies at hx
        rw [hpc] at hx
        obtain ⟨-,hx⟩ := Option.ite_none_right_eq_some.mp hx
        obtain rfl := Option.some.inj hx
        exact Nat.lt_irrefl j hlt
      · apply hgood
        simp only [Spoils,hpc]
        exact ⟨hj,k,hk,hlost⟩
    refine (h.write hkeep).move hfree rfl ⟨hstart,hregular⟩ fun x hx b hb => ?_
    obtain ⟨hlen,hx⟩ := Option.ite_none_right_eq_some.mp hx
    obtain rfl := Option.some.inj hx
    by_cases hbj : b = ⟨j,hj⟩
    · subst hbj
      exact Function.update_self ..
    · have hbelow : b.val < j := by
        have : b.val ≠ j := fun heq => hbj (Fin.ext heq)
        have : b.val < j + 1 := hb
        omega
      exact (Function.update_of_ne hbj ..).trans (hrelies _ (if_pos hlen) b hbelow)
  · rw [dif_neg hj] at hs
    have hkey := h.filled hpc hj
    split at hs
    · next hmode =>
      obtain rfl := Option.some.inj hs
      refine h.move hfree rfl ⟨?_,fun hne => absurd hmode hne⟩ fun x hx b _ => ?_
      · unfold Call.Ready
        rw [if_pos hmode,hstart]
        refine ⟨rfl,c.req.destLength,fun hlen => ?_⟩
        by_contra hlt
        exact hregular (Or.inr ⟨hmode,hlen,BitVec.not_le.mp hlt⟩)
      · obtain ⟨hlen,hx⟩ := Option.ite_none_right_eq_some.mp hx
        obtain rfl := Option.some.inj hx
        exact congrFun (hkey hlen) b
    · next hecb =>
      split at hs
      · next hmode =>
        obtain rfl := Option.some.inj hs
        have hlen (hsrc : c.req.src ≠ []) : c.req.keyLen = AES_KEY_LEN_BIT_256 := by
          by_contra hne
          exact hregular (Or.inl ⟨hmode,hne,hsrc⟩)
        refine h.loop hfree ?_ hlen fun hsrc => hkey (hlen hsrc)
        rw [hstart]
        exact Call.AtHead.enter hecb
      · obtain rfl := Option.some.inj hs
        exact h.ret hfree fun herr => absurd herr (by decide)

theorem Inv.request (h : Inv cipher s) (hpc : s.pc i = .request c) (hs : s.go i (.request c) = some t) : Inv cipher t := by
  have hfree : (s.pc i).holds = false := by
    rw [hpc]
    rfl
  obtain ⟨⟨hready,hlen⟩,hrelies⟩ := h.at_pc hpc
  obtain rfl := Option.some.inj hs
  split
  · next hne =>
    have hmode : c.req.mode = AES_MODE_ECB := by
      by_contra hcbc
      exact hne (hlen hcbc)
    refine h.move hfree rfl hmode fun x hx => ?_
    obtain ⟨hagain,-⟩ := Option.ite_none_right_eq_some.mp hx
    simp [Call.again,hmode] at hagain
  · next heq =>
    have heq := not_not.mp heq
    refine h.move hfree rfl ⟨hready,heq⟩ fun x hx => hrelies x ?_
    exact (if_pos heq).trans hx

theorem Inv.next (h : Inv cipher s) {ret : ℤ} (hpc : s.pc i = .next c ret) (hs : s.go i (.next c ret) = some t) :
    Inv cipher t := by
  have hfree : (s.pc i).holds = false := by
    rw [hpc]
    rfl
  obtain ⟨hcall,hrelies⟩ := h.at_pc hpc
  unfold Pc.Good at hcall
  unfold Sys.go at hs
  by_cases hmode : c.req.mode = AES_MODE_ECB
  · obtain rfl := Option.some.inj ((if_pos hmode).symm.trans hs)
    refine h.ret hfree fun hok => ?_
    obtain ⟨-,hserved⟩ := (if_pos hok).mp hcall
    exact (if_pos hmode).mp hserved
  · obtain rfl := Option.some.inj ((if_neg hmode).symm.trans hs)
    have hok : ret = RET_OK := by
      by_contra hne
      exact hmode ((if_neg hne).mp hcall)
    obtain ⟨hlen,hserved⟩ := (if_pos hok).mp hcall
    have hhead : c.after.AtHead (c.req.cipherOf cipher) := (if_neg hmode).mp hserved
    refine h.loop hfree (after_req c ▸ hhead) (fun _ => (congrArg Request.keyLen (after_req c)).trans hlen) fun hrest => ?_
    have hagain : c.again = true := by
      simp [Call.again,hmode,hhead.continues.mpr hrest]
    funext b
    rw [after_req]
    exact hrelies _ (if_pos hagain) b b.isLt

theorem Inv.go (h : Inv cipher s) (hgood : ¬ Spoils s (.go i)) (hs : s.go i (s.pc i) = some t) : Inv cipher t := by
  cases hpc : s.pc i with
  | out _ | lock _ | lateUnlock _ | wait _ | unlock _ _ =>
    rw [hpc] at hs
    cases hs
  | fill c j =>
    rw [hpc] at hs
    exact h.fill hpc hgood hs
  | request c =>
    rw [hpc] at hs
    exact h.request hpc hs
  | program c =>
    rw [hpc] at hs
    obtain rfl := Option.some.inj hs
    exact h.program hpc
  | next c ret =>
    rw [hpc] at hs
    exact h.next hpc hs

theorem Inv.step {l : Label ι} (h : Inv cipher s) (hgood : ¬ Spoils s l) (hs : HgSysaesCalls.step cipher s l = some t) :
    Inv cipher t := by
  cases l with
  | call i req =>
    simp only [HgSysaesCalls.step] at hs
    split at hs
    · next r hpc =>
      obtain rfl := Option.some.inj hs
      have hfree : (s.pc i).holds = false := by
        rw [hpc]
        rfl
      split
      · exact h.ret hfree fun herr => absurd herr (by decide)
      · refine h.move hfree rfl ⟨rfl,hgood⟩ fun x hx b hb => ?_
        obtain ⟨-,hx⟩ := Option.ite_none_right_eq_some.mp hx
        obtain rfl := Option.some.inj hx
        exact absurd hb (Nat.not_lt_zero _)
    · cases hs
  | go i => exact h.go hgood hs
  | lock i =>
    simp only [HgSysaesCalls.step] at hs
    split at hs
    · next c hpc =>
      obtain ⟨hlock,hs⟩ := Option.ite_none_right_eq_some.mp hs
      obtain rfl := Option.some.inj hs
      exact h.lock hpc hlock
    · cases hs
  | lockTimeout i | doneTimeout i => exact absurd trivial hgood
  | unlock i released =>
    simp only [HgSysaesCalls.step] at hs
    split at hs
    · next c hpc =>
      exact (h.at_pc hpc).1.elim
    · next c ret hpc =>
      obtain rfl := Option.some.inj hs
      exact h.unlock hpc released
    · cases hs
  | down i =>
    simp only [HgSysaesCalls.step] at hs
    split at hs
    · next c hpc =>
      obtain ⟨hdone,hs⟩ := Option.ite_none_right_eq_some.mp hs
      obtain rfl := Option.some.inj hs
      exact h.down hpc hdone
    · cases hs
  | finish junk =>
    simp only [HgSysaesCalls.step] at hs
    split at hs
    · next j hj =>
      obtain rfl := Option.some.inj hs
      exact h.finish hj junk
    · cases hs
  | irq =>
    obtain ⟨hpending,hs⟩ := Option.ite_none_right_eq_some.mp hs
    obtain rfl := Option.some.inj hs
    exact h.irq hpending

/-- Where no request is irregular, no key is filled over another and no wait times out, success
means correct output. -/
theorem correct_run [∀ (s : Sys ι) l, Decidable (Spoils s l)] {key : Key} {ls : List (Label ι)}
    (h : Runs (guarded (fun s l => ¬ Spoils s l) (HgSysaesCalls.step cipher)) (HgSysaesCalls.attached key) ls s) :
    s.Correct cipher := by
  have hinv : Inv cipher s := h.guarded_invariant (fun _ _ _ hi hgood hs => hi.step hgood hs) (Inv.attached key)
  exact hinv.correct

/-- A time-out of os_mutex_lock ends in a release by a task that does not hold the mutex. -/
theorem Inv.lockTimeout {u : Sys ι} {released : Bool} (h : Inv cipher s)
    (hs : HgSysaesCalls.step cipher s (.lockTimeout i) = some t)
    (hu : HgSysaesCalls.step cipher t (.unlock i released) = some u) : ¬ u.Correct cipher := by
  simp only [HgSysaesCalls.step] at hs
  split at hs
  · next c hpc =>
    obtain rfl := Option.some.inj hs
    have hfree : ¬ s.lock = some i := by
      rw [← h.holder i,hpc]
      exact nofun
    simp only [HgSysaesCalls.step,at_pc_self] at hu
    obtain rfl := Option.some.inj hu
    intro hcorrect
    exact hfree (hcorrect.releases (i,s.lock) List.mem_cons_self)
  · cases hs

end Steps

/-! ## Two tasks -/

/-- One block in ECB, with a key of one byte again and again. -/
def ecbRequest (k : BitVec 8) : Request :=
  ⟨.encrypt,AES_MODE_ECB,AES_KEY_LEN_BIT_256,fun _ => k,fun _ => 0,1,[fun _ => 0],[fun _ => 0],rfl,rfl,by decide⟩

/-- Two blocks in CBC, in place. -/
def cbcRequest (k : BitVec 8) : Request :=
  ⟨.encrypt,AES_MODE_CBC,AES_KEY_LEN_BIT_256,fun _ => k,fun _ => 7,2,[fun _ => 1,fun _ => 2],[fun _ => 1,fun _ => 2],
    rfl,rfl,by decide⟩

/-- A request from the head of hg_sysaes_hdl to its return. -/
def served (i : Bool) : List (Label Bool) :=
  [.go i,.lock i,.go i,.finish fun _ _ => 0,.irq,.down i,.unlock i false,.go i]

def filled (i : Bool) (req : Request) : List (Label Bool) := .call i req :: List.replicate 33 (.go i)

/-- The second task fills its key before the first one has locked the engine. -/
theorem correct_overwritten : ∃ s, Runs (step fun _ => xorCipher) (attached fun _ => 0)
    (filled true (ecbRequest 0) ++ filled false (ecbRequest 1) ++ served true) s ∧ ¬ s.Correct fun _ => xorCipher := by
  refine Runs.exists_of_exec (fun s => s.returns.map fun r =>
    (r.ret,r.dest.map (· 0),(r.req.output (r.req.cipherOf fun _ => xorCipher)).map (· 0)))
    (v := [(RET_OK,[1],[0])]) (by decide +kernel) ?_
  intro s _ hreturns hcorrect
  obtain ⟨r,hr,hout⟩ := List.map_eq_singleton_iff.mp hreturns
  have hret : r.ret = RET_OK := congrArg Prod.fst hout
  have hdest : r.dest.map (· 0) = [1] := congrArg (fun x => x.2.1) hout
  have houtput : (r.req.output (r.req.cipherOf fun _ => xorCipher)).map (· 0) = [0] := congrArg (fun x => x.2.2) hout
  have hmem : r ∈ s.returns := hr ▸ List.mem_singleton_self r
  rw [hcorrect.outputs r hmem hret,houtput] at hdest
  exact absurd hdest (by decide)

/-- Two tasks with the same key; the second is served between the blocks of the first. -/
def shared : List (Label Bool) :=
  filled true (cbcRequest 5) ++ filled false (ecbRequest 5) ++ served true ++ served false ++ served true

theorem correct_shared : ∃ s, Runs (guarded (fun s l => ¬ Spoils s l) (step fun _ => xorCipher)) (attached fun _ => 0)
    shared s ∧ s.returns.map (·.ret) = [RET_OK,RET_OK] ∧ s.Correct fun _ => xorCipher := by
  refine Runs.exists_of_exec (fun s => s.returns.map (·.ret)) (v := [RET_OK,RET_OK]) (by decide +kernel) ?_
  intro s hrun hreturns
  exact ⟨hreturns,correct_run hrun⟩

end FmacSdk.HgSysaesCalls
