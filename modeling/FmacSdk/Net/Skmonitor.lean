import FmacSdk.Foundation.Cursors
import FmacSdk.Foundation.Transition
import Mathlib.Data.BitVec

/-! # The socket monitor

One task passes the registered sockets to select, a work then walks over the entries and
calls back. What is done between lock and unlock is one step; the walk unlocks for every
callback and keeps a pointer to the entry behind.
-/
namespace FmacSdk.Skmonitor
open Cursors Transition

/-- enum skmonitor_flags -/
inductive Flag
  | read | write | error
deriving DecidableEq, Repr

def Flag.mask : Flag → BitVec 8
  | .read => 1
  | .write => 2
  | .error => 4

def has (flags : BitVec 8) (f : Flag) : Bool := flags &&& f.mask ≠ 0

/-- rset, wset and eset. -/
abbrev FdSets := Flag → BitVec 16 → Bool

def FdSets.set (sets : FdSets) (f : Flag) (sock : BitVec 16) : FdSets :=
  Function.update sets f (Function.update (sets f) sock true)

/-- struct skmonitor_entry with its address and the number of its registration. Addresses are not
used again. -/
structure Entry where
  id : ℕ
  sock : BitVec 16
  flags : BitVec 8
  disable : BitVec 1
  priv : BitVec 32
  cb : BitVec 32
  reg : ℕ

/-- What sock_monitor_add does to an entry that exists. -/
def Entry.renew (flags cb priv : BitVec 32) (reg : ℕ) (e : Entry) : Entry :=
  { e with cb := cb, priv := priv, flags := flags.setWidth 8, reg := reg }

def Entry.turn (disable : BitVec 8) (e : Entry) : Entry := { e with disable := disable.setWidth 1 }

/-- What sock_monitor_work copies before it unlocks. -/
structure Callback where
  sock : BitVec 16
  flags : BitVec 8
  priv : BitVec 32
  cb : BitVec 32
  reg : ℕ

/-- A positive count with the ready descriptors, 0, or -1. -/
inductive SelectRet
  | ready (sets : FdSets)
  | timeout
  | error

/-- The next statement of sock_monitor_task. -/
inductive TaskPc
  | down | fill | select
deriving DecidableEq, Repr

/-- The next statement of sock_monitor_work: with a callback copied, in the callback, behind the
walk, or past a read of an entry that was freed. -/
inductive WorkPc
  | idle
  | queued
  | call (c : Callback) (next : Option ℕ)
  | run (c : Callback) (next : Option ℕ)
  | finish
  | crashed

/-- A sock_monitor_del has returned, with the number of registrations when it had the lock; a
callback is started. -/
inductive Event
  | deleted (sock : BitVec 16) (before : ℕ)
  | started (sock : BitVec 16) (reg : ℕ)
deriving DecidableEq, Repr

/-- What the walk calls, as the entry is then, and what the latest select reported. -/
structure Called where
  sock : BitVec 16
  flags : BitVec 8
  registered : BitVec 8
  disable : BitVec 1
  last : Option FdSets

/-- The callers are tasks, and the callback that runs. -/
structure Sys (ι : Type*) where
  entries : List Entry
  nextId : ℕ
  nextReg : ℕ
  sets : FdSets
  last : Option FdSets
  run : ℕ
  task : TaskPc
  work : WorkPc
  pc : Option ι → Option (BitVec 16 × ℕ)
  log : List Event
  calls : List Called

inductive Label (ι : Type*)
  | semaDown
  | fill
  | select (ret : SelectRet)
  | work
  | start
  | back
  | finish
  | add (k : Option ι) (sock : BitVec 16) (flags : BitVec 32) (cb priv : BitVec 32) (got : Bool)
  | del (k : Option ι) (sock : BitVec 16)
  | delReturn (k : Option ι)
  | disable (k : Option ι) (sock : BitVec 16) (disable : BitVec 8)

/-! ## The task and the walk -/

/-- The loop of sock_monitor_task. -/
def fillSets (sets : FdSets) : List Entry → FdSets
  | [] => sets
  | e :: es =>
    if e.disable = 0 then
      let sets := if has e.flags .read then sets.set .read e.sock else sets
      let sets := if has e.flags .write then sets.set .write e.sock else sets
      let sets := if has e.flags .error then sets.set .error e.sock else sets
      fillSets sets es
    else fillSets sets es

/-- The flags of sock_monitor_work for a socket. -/
def gather (sets : FdSets) (sock : BitVec 16) : BitVec 8 :=
  let flags : BitVec 8 := 0
  let flags := if sets .read sock then flags ||| Flag.read.mask else flags
  let flags := if sets .write sock then flags ||| Flag.write.mask else flags
  if sets .error sock then flags ||| Flag.error.mask else flags

/-- The next entry that is called back, and what is behind it. -/
def walk (sets : FdSets) : List Entry → Option (Entry × List Entry)
  | [] => none
  | e :: es => if gather sets e.sock ≠ 0 ∧ e.cb ≠ 0 then some (e,es) else walk sets es

section Code
variable {ι : Type*}

def Sys.running (s : Sys ι) : Option Callback :=
  match s.work with
  | .run c _ => some c
  | _ => none

/-- The caller is not in another call; the callback is one while it runs. -/
def Sys.free (s : Sys ι) (k : Option ι) : Bool := (s.pc k).isNone && (k.isSome || s.running.isSome)

/-- sock_monitor_work with the lock, from an entry on. -/
def Sys.walkOn (s : Sys ι) (es : List Entry) : Sys ι :=
  match walk s.sets es with
  | none => { s with work := .finish }
  | some (e,rest) =>
    let flags := gather s.sets e.sock
    { s with
      work := .call ⟨e.sock,flags,e.priv,e.cb,e.reg⟩ (cursor Entry.id rest)
      calls := ⟨e.sock,flags,e.flags,e.disable,s.last⟩ :: s.calls }

def Sys.back (s : Sys ι) (next : Option ℕ) : Sys ι :=
  match next with
  | none => { s with work := .finish }
  | some n =>
    match ahead Entry.id s.entries (some n) with
    | [] => { s with work := .crashed }
    | es => s.walkOn es

def Sys.select (s : Sys ι) : SelectRet → Sys ι
  | .ready sets =>
    let sets : FdSets := fun f sock => s.sets f sock && sets f sock
    { s with sets := sets, last := some sets, task := .down, work := .queued }
  | .timeout => { s with last := none, task := .down, run := s.run + 1 }
  | .error => { s with last := none, task := .down, work := .queued }

/-- sock_monitor_add -/
def Sys.add (s : Sys ι) (sock : BitVec 16) (flags cb priv : BitVec 32) (got : Bool) : Sys ι :=
  if sock.toInt < 0 ∨ cb = 0 then s
  else if s.entries.any fun e => e.sock = sock then
    { s with
      entries := modifyFirst (fun e => e.sock = sock) (Entry.renew flags cb priv s.nextReg) s.entries
      nextReg := s.nextReg + 1 }
  else if got then
    { s with
      entries := ⟨s.nextId,sock,flags.setWidth 8,0,priv,cb,s.nextReg⟩ :: s.entries
      nextId := s.nextId + 1
      nextReg := s.nextReg + 1 }
  else s

/-- sock_monitor_disable; the field has one bit. -/
def Sys.disable (s : Sys ι) (sock : BitVec 16) (disable : BitVec 8) : Sys ι :=
  let turned (e : Entry) : Bool := e.sock = sock ∧ e.disable.setWidth 8 ≠ disable
  { s with entries := modifyFirst turned (Entry.turn disable) s.entries }

variable [DecidableEq ι]

/-- sock_monitor_del up to its return. -/
def Sys.del (s : Sys ι) (k : Option ι) (sock : BitVec 16) : Sys ι :=
  { s with
    entries := s.entries.eraseP fun e => e.sock = sock
    pc := Function.update s.pc k (some (sock,s.nextReg)) }

/-- A return to the callback of the socket itself is not recorded. -/
def Sys.delReturn (s : Sys ι) (k : Option ι) (sock : BitVec 16) (before : ℕ) : Sys ι :=
  { s with
    pc := Function.update s.pc k none
    log := if k = none ∧ s.running.map Callback.sock = some sock then s.log else .deleted sock before :: s.log }

/-- `self` is g_skmonitor.sock. -/
def step (self : BitVec 16) (s : Sys ι) : Label ι → Option (Sys ι)
  | .semaDown => match s.task with
    | .down => if 0 < s.run then some { s with run := s.run - 1, task := .fill } else none
    | _ => none
  | .fill => match s.task with
    | .fill => some { s with
        sets := fillSets (FdSets.set (fun _ _ => false) .read self) s.entries
        task := .select }
    | _ => none
  | .select ret => match s.task with
    | .select => some (s.select ret)
    | _ => none
  | .work => match s.work with
    | .queued => some (s.walkOn s.entries)
    | _ => none
  | .start => match s.work with
    | .call c next => some { s with work := .run c next, log := .started c.sock c.reg :: s.log }
    | _ => none
  | .back => match s.work with
    | .run _ next => if s.pc none = none then some (s.back next) else none
    | _ => none
  | .finish => match s.work with
    | .finish => some { s with work := .idle, run := s.run + 1 }
    | _ => none
  | .add k sock flags cb priv got => if s.free k then some (s.add sock flags cb priv got) else none
  | .del k sock => if s.free k then some (s.del k sock) else none
  | .delReturn k => match s.pc k with
    | some (sock,before) => some (s.delReturn k sock before)
    | none => none
  | .disable k sock disable => if s.free k then some (s.disable sock disable) else none

end Code

/-- sock_monitor_init -/
def init {ι : Type*} : Sys ι := ⟨[],0,0,fun _ _ => false,none,1,.down,.idle,fun _ => none,[],[]⟩

/-! ## What a step does to the entries -/

theorem gather_has (sets : FdSets) (sock : BitVec 16) (f : Flag) : has (gather sets sock) f = sets f sock := by
  unfold gather
  cases hr : sets .read sock <;> cases hw : sets .write sock <;> cases he : sets .error sock <;> cases f <;>
    simp [has,Flag.mask,hr,hw,he]

theorem walk_some {sets : FdSets} {es rest : List Entry} {e : Entry} (h : walk sets es = some (e,rest)) :
    gather sets e.sock ≠ 0 ∧ e :: rest <:+ es := by
  induction es with
  | nil => cases h
  | cons d es ih =>
    unfold walk at h
    split at h
    · next hd =>
      cases h
      exact ⟨hd.1,List.suffix_refl _⟩
    · obtain ⟨hgather,hsuffix⟩ := ih h
      exact ⟨hgather,hsuffix.trans (List.suffix_cons d es)⟩

section Steps
variable {ι : Type*} {s t : Sys ι} {self : BitVec 16} {l : Label ι} {es : List Entry} {next : Option ℕ}
variable {sock : BitVec 16} {flags cb priv : BitVec 32} {got : Bool}

/-- What the walk does with the lock: it ends, or has an entry called. -/
theorem walkOn_cases (s : Sys ι) (es : List Entry) :
    s.walkOn es = { s with work := .finish } ∨
    ∃ e rest, gather s.sets e.sock ≠ 0 ∧ e :: rest <:+ es ∧ s.walkOn es = { s with
      work := .call ⟨e.sock,gather s.sets e.sock,e.priv,e.cb,e.reg⟩ (cursor Entry.id rest)
      calls := ⟨e.sock,gather s.sets e.sock,e.flags,e.disable,s.last⟩ :: s.calls } := by
  unfold Sys.walkOn
  cases hwalk : walk s.sets es with
  | none => exact Or.inl rfl
  | some x =>
    obtain ⟨e,rest⟩ := x
    obtain ⟨hgather,hsuffix⟩ := walk_some hwalk
    exact Or.inr ⟨e,rest,hgather,hsuffix,rfl⟩

/-- With the entry still there, the walk goes on with what is ahead. -/
theorem back_held (h : Held Entry.id s.entries next) : s.back next = s.walkOn (ahead Entry.id s.entries next) := by
  cases next with
  | none => rfl
  | some n =>
    obtain ⟨e,he,rfl⟩ := h n rfl
    have hne : ahead Entry.id s.entries (some e.id) ≠ [] := ahead_ne_nil he
    unfold Sys.back
    dsimp only
    split
    · next hnil => exact absurd hnil hne
    · rfl

theorem add_cases (s : Sys ι) (sock : BitVec 16) (flags cb priv : BitVec 32) (got : Bool) :
    s.add sock flags cb priv got = s ∨
    ¬ (sock.toInt < 0 ∨ cb = 0) ∧ (s.add sock flags cb priv got = { s with
      entries := modifyFirst (fun e => e.sock = sock) (Entry.renew flags cb priv s.nextReg) s.entries
      nextReg := s.nextReg + 1 } ∨
    got = true ∧ (∀ e ∈ s.entries, e.sock ≠ sock) ∧ s.add sock flags cb priv got = { s with
      entries := ⟨s.nextId,sock,flags.setWidth 8,0,priv,cb,s.nextReg⟩ :: s.entries
      nextId := s.nextId + 1
      nextReg := s.nextReg + 1 }) := by
  unfold Sys.add
  split
  · exact Or.inl rfl
  · next hvalid =>
    split
    · exact Or.inr ⟨hvalid,Or.inl rfl⟩
    · next hnone =>
      split
      · next hgot => exact Or.inr ⟨hvalid,Or.inr ⟨hgot,by simpa using hnone,rfl⟩⟩
      · exact Or.inl rfl

/-- One entry for a socket, and addresses and numbers that are handed out once. -/
structure Listed (s : Sys ι) : Prop where
  ids : (s.entries.map Entry.id).Nodup
  socks : (s.entries.map Entry.sock).Nodup
  id : ∀ e ∈ s.entries, e.id < s.nextId
  reg : ∀ e ∈ s.entries, e.reg < s.nextReg

/-- Entries that keep their addresses and sockets are listed as before. -/
theorem Listed.modify (h : Listed s) {p : Entry → Bool} {f : Entry → Entry} {r : ℕ} (hid : ∀ e, (f e).id = e.id)
    (hsock : ∀ e, (f e).sock = e.sock) (hr : s.nextReg ≤ r) (hreg : ∀ e, e.reg < r → (f e).reg < r) :
    Listed { s with entries := modifyFirst p f s.entries, nextReg := r } := by
  have hids : (modifyFirst p f s.entries).map Entry.id = s.entries.map Entry.id := map_modifyFirst hid
  have hsocks : (modifyFirst p f s.entries).map Entry.sock = s.entries.map Entry.sock := map_modifyFirst hsock
  refine ⟨hids ▸ h.ids,hsocks ▸ h.socks,fun e he => ?_,fun e he => ?_⟩
  · rcases mem_modifyFirst he with he | ⟨d,hd,-,rfl⟩
    · exact h.id e he
    · exact hid d ▸ h.id d hd
  · rcases mem_modifyFirst he with he | ⟨d,hd,-,rfl⟩
    · exact (h.reg e he).trans_le hr
    · exact hreg d ((h.reg d hd).trans_le hr)

theorem Listed.add (h : Listed s) : Listed (s.add sock flags cb priv got) := by
  rcases add_cases s sock flags cb priv got with heq | ⟨-,heq | ⟨-,hnew,heq⟩⟩
  · rw [heq]
    exact h
  · rw [heq]
    exact h.modify (fun _ => rfl) (fun _ => rfl) (Nat.le_succ _) fun _ _ => Nat.lt_succ_self _
  · rw [heq]
    refine ⟨List.nodup_cons.mpr ⟨fun hmem => ?_,h.ids⟩,List.nodup_cons.mpr ⟨fun hmem => ?_,h.socks⟩,
      List.forall_mem_cons.mpr ⟨Nat.lt_succ_self _,fun e he => Nat.lt_succ_of_lt (h.id e he)⟩,
      List.forall_mem_cons.mpr ⟨Nat.lt_succ_self _,fun e he => Nat.lt_succ_of_lt (h.reg e he)⟩⟩
    · obtain ⟨e,he,heq⟩ := List.mem_map.mp hmem
      have hlt := h.id e he
      rw [heq] at hlt
      exact Nat.lt_irrefl _ hlt
    · obtain ⟨e,he,heq⟩ := List.mem_map.mp hmem
      exact hnew e he heq

theorem Listed.disable (h : Listed s) (disable : BitVec 8) : Listed (s.disable sock disable) :=
  h.modify (fun _ => rfl) (fun _ => rfl) le_rfl fun _ he => he

theorem Listed.del [DecidableEq ι] (h : Listed s) (k : Option ι) : Listed (s.del k sock) := by
  have hsub : (s.entries.eraseP fun e => e.sock = sock).Sublist s.entries := List.eraseP_sublist
  exact ⟨h.ids.sublist (hsub.map _),h.socks.sublist (hsub.map _),fun e he => h.id e (hsub.subset he),
    fun e he => h.reg e (hsub.subset he)⟩

theorem Listed.same (h : Listed s) (heq : t.entries = s.entries ∧ t.nextId = s.nextId ∧ t.nextReg = s.nextReg) :
    Listed t := by
  obtain ⟨hentries,hid,hreg⟩ := heq
  exact ⟨hentries ▸ h.ids,hentries ▸ h.socks,hentries ▸ hid ▸ h.id,hentries ▸ hreg ▸ h.reg⟩

theorem walkOn_same (s : Sys ι) (es : List Entry) :
    (s.walkOn es).entries = s.entries ∧ (s.walkOn es).nextId = s.nextId ∧ (s.walkOn es).nextReg = s.nextReg := by
  rcases walkOn_cases s es with heq | ⟨e,rest,-,-,heq⟩ <;> exact heq ▸ ⟨rfl,rfl,rfl⟩

theorem back_same (s : Sys ι) (next : Option ℕ) :
    (s.back next).entries = s.entries ∧ (s.back next).nextId = s.nextId ∧ (s.back next).nextReg = s.nextReg := by
  unfold Sys.back
  split
  · exact ⟨rfl,rfl,rfl⟩
  · split
    · exact ⟨rfl,rfl,rfl⟩
    · exact walkOn_same s _

/-- The erased entry was the only one for its socket. -/
theorem Listed.erased (h : Listed s) {e : Entry} (he : e ∈ s.entries.eraseP fun e => e.sock = sock) : e.sock ≠ sock := by
  intro hsock
  have hsocks := h.socks
  have hlist : ∀ es : List Entry, (es.map Entry.sock).Nodup → e ∉ es.eraseP fun e => e.sock = sock := by
    intro es
    induction es with
    | nil => exact fun _ => List.not_mem_nil
    | cons d es ih =>
      intro hnodup hmem
      obtain ⟨hd,hnodup⟩ := List.nodup_cons.mp hnodup
      by_cases hds : d.sock = sock
      · rw [List.eraseP_cons_of_pos (by simpa using hds)] at hmem
        exact hd (List.mem_map.mpr ⟨e,hmem,hsock.trans hds.symm⟩)
      · rw [List.eraseP_cons_of_neg (by simpa using hds)] at hmem
        rcases List.mem_cons.mp hmem with rfl | hmem
        · exact hds hsock
        · exact ih hnodup hmem
  exact hlist s.entries hsocks he

variable [DecidableEq ι]

/-- What a step needs, and what it leaves. -/
def Takes (self : BitVec 16) (s t : Sys ι) : Label ι → Prop
  | .semaDown => s.task = .down ∧ 0 < s.run ∧ t = { s with run := s.run - 1, task := .fill }
  | .fill => s.task = .fill ∧ t = { s with
      sets := fillSets (FdSets.set (fun _ _ => false) .read self) s.entries
      task := .select }
  | .select ret => s.task = .select ∧ t = s.select ret
  | .work => s.work = .queued ∧ t = s.walkOn s.entries
  | .start => ∃ c next, s.work = .call c next ∧
      t = { s with work := .run c next, log := .started c.sock c.reg :: s.log }
  | .back => ∃ c next, s.work = .run c next ∧ s.pc none = none ∧ t = s.back next
  | .finish => s.work = .finish ∧ t = { s with work := .idle, run := s.run + 1 }
  | .add k sock flags cb priv got => s.free k = true ∧ t = s.add sock flags cb priv got
  | .del k sock => s.free k = true ∧ t = s.del k sock
  | .delReturn k => ∃ sock before, s.pc k = some (sock,before) ∧ t = s.delReturn k sock before
  | .disable k sock disable => s.free k = true ∧ t = s.disable sock disable

theorem step_takes (hs : step self s l = some t) : Takes self s t l := by
  cases l with
  | semaDown =>
    simp only [step] at hs
    split at hs
    · next htask =>
      obtain ⟨hrun,hs⟩ := Option.ite_none_right_eq_some.mp hs
      exact ⟨htask,hrun,(Option.some.inj hs).symm⟩
    · cases hs
  | fill | select | work | finish =>
    simp only [step] at hs
    split at hs
    · next hpc => exact ⟨hpc,(Option.some.inj hs).symm⟩
    · cases hs
  | start =>
    simp only [step] at hs
    split at hs
    · next c next hwork => exact ⟨c,next,hwork,(Option.some.inj hs).symm⟩
    · cases hs
  | back =>
    simp only [step] at hs
    split at hs
    · next c next hwork =>
      obtain ⟨hreturned,hs⟩ := Option.ite_none_right_eq_some.mp hs
      exact ⟨c,next,hwork,hreturned,(Option.some.inj hs).symm⟩
    · cases hs
  | delReturn k =>
    simp only [step] at hs
    split at hs
    · next sock before hk => exact ⟨sock,before,hk,(Option.some.inj hs).symm⟩
    · cases hs
  | add | del | disable =>
    obtain ⟨hfree,hs⟩ := Option.ite_none_right_eq_some.mp hs
    exact ⟨hfree,(Option.some.inj hs).symm⟩

/-- Only the three calls edit the list. -/
theorem Listed.step (h : Listed s) (hs : Skmonitor.step self s l = some t) : Listed t := by
  have htakes := step_takes hs
  cases l with
  | add k sock flags cb priv got =>
    obtain ⟨-,rfl⟩ := htakes
    exact h.add
  | del k sock =>
    obtain ⟨-,rfl⟩ := htakes
    exact h.del k
  | disable k sock disable =>
    obtain ⟨-,rfl⟩ := htakes
    exact h.disable disable
  | semaDown =>
    obtain ⟨-,-,rfl⟩ := htakes
    exact h.same ⟨rfl,rfl,rfl⟩
  | fill | finish =>
    obtain ⟨-,rfl⟩ := htakes
    exact h.same ⟨rfl,rfl,rfl⟩
  | select ret =>
    obtain ⟨-,rfl⟩ := htakes
    cases ret <;> exact h.same ⟨rfl,rfl,rfl⟩
  | work =>
    obtain ⟨-,rfl⟩ := htakes
    exact h.same (walkOn_same s s.entries)
  | start =>
    obtain ⟨c,next,-,rfl⟩ := htakes
    exact h.same ⟨rfl,rfl,rfl⟩
  | back =>
    obtain ⟨c,next,-,-,rfl⟩ := htakes
    exact h.same (back_same s next)
  | delReturn k =>
    obtain ⟨sock,before,-,rfl⟩ := htakes
    exact h.same ⟨rfl,rfl,rfl⟩

end Steps

end FmacSdk.Skmonitor
