import FmacSdk.Common.Errno
import FmacSdk.Foundation.Chains
import FmacSdk.Foundation.Transition
import Mathlib.Data.List.Nodup

/-! # The device registry

dev_register looks for the id in one critical section of s_dev_mgr.mutex and enters
the object in another; between the two it writes dev_id. The list runs through the
objects themselves.
-/
namespace FmacSdk.DevMgr
open Chains Transition
variable {ι δ : Type*}

/-- s_dev_mgr.next and the fields of every object. -/
structure Registry (δ : Type*) where
  head : Option δ
  next : δ → Option δ
  devId : δ → BitVec 32

/-- dev_get, which has compared at most `n` objects. -/
def Registry.devGet (g : Registry δ) (devId : BitVec 32) (n : ℕ) : Option (Option δ) :=
  search g.next (fun d => g.devId d == devId) n g.head

/-- The objects of the first `n` that have an operation and whose hook agrees. -/
def Registry.visit (g : Registry δ) (op hook : δ → Bool) (n : ℕ) : Option (List δ) :=
  (walk g.next n g.head).map fun l => l.filter fun d => op d && hook d

/-- The objects that dev_suspend suspends. -/
def Registry.devSuspend (g : Registry δ) (suspend devSuspendHook : δ → Bool) (n : ℕ) : Option (List δ) :=
  g.visit suspend devSuspendHook n

/-- The objects that dev_resume resumes. -/
def Registry.devResume (g : Registry δ) (resume devResumeHook : δ → Bool) (n : ℕ) : Option (List δ) :=
  g.visit resume devResumeHook n

/-- The next statement of dev_register; a task outside has the result of its last call. -/
inductive Pc (δ : Type*)
  | out (result : ℤ)
  | get (devId : BitVec 32) (device : δ)
  | setId (devId : BitVec 32) (device : δ)
  | insert (devId : BitVec 32) (device : δ)
deriving DecidableEq

/-- `log` has the successful registrations, the latest first. -/
structure Sys (ι δ : Type*) where
  reg : Registry δ
  pc : ι → Pc δ
  log : List (BitVec 32 × δ)

/-- A call, a dev_get that returns after `n` objects, and the two other statements. -/
inductive Label (ι δ : Type*)
  | call (i : ι) (devId : BitVec 32) (device : δ)
  | get (i : ι) (n : ℕ)
  | setId (i : ι)
  | insert (i : ι)

section Code
variable [DecidableEq ι] [DecidableEq δ]

def Registry.setId (g : Registry δ) (d : δ) (devId : BitVec 32) : Registry δ :=
  { g with devId := Function.update g.devId d devId }

def Registry.insert (g : Registry δ) (d : δ) : Registry δ :=
  { g with next := Function.update g.next d g.head, head := some d }

def Sys.at (s : Sys ι δ) (i : ι) (p : Pc δ) : Sys ι δ := { s with pc := Function.update s.pc i p }

def step (s : Sys ι δ) : Label ι δ → Option (Sys ι δ)
  | .call i devId device => match s.pc i with
    | .out _ => some (s.at i (.get devId device))
    | _ => none
  | .get i n => match s.pc i with
    | .get devId device => (s.reg.devGet devId n).map fun dev =>
        s.at i (if dev.isSome then .out (-EEXIST) else .setId devId device)
    | _ => none
  | .setId i => match s.pc i with
    | .setId devId device => some { s.at i (.insert devId device) with reg := s.reg.setId device devId }
    | _ => none
  | .insert i => match s.pc i with
    | .insert devId device => some { s.at i (.out RET_OK) with
        reg := s.reg.insert device, log := (devId,device) :: s.log }
    | _ => none

end Code

/-- dev_init; the objects hold anything. -/
def booted (next : δ → Option δ) (devId : δ → BitVec 32) : Sys ι δ := ⟨⟨none,next,devId⟩,fun _ => .out 0,[]⟩

/-- The object that was registered last under an id. -/
def latest (log : List (BitVec 32 × δ)) (devId : BitVec 32) : Option δ :=
  (log.find? fun r => r.1 == devId).map Prod.snd

def Sys.registered (s : Sys ι δ) : List δ := s.log.map Prod.snd

def Registry.Listed (g : Registry δ) (d : δ) : Prop := Reaches g.next g.head d

/-- What the registry promises its callers. -/
structure Sys.Sound (s : Sys ι δ) : Prop where
  acyclic : ¬ Loops s.reg.next s.reg.head
  unique : ∀ d e, s.reg.Listed d → s.reg.Listed e → s.reg.devId d = s.reg.devId e → d = e
  devGet : ∀ devId, ∃ n dev, s.reg.devGet devId n = some dev
  devSuspend : ∀ suspend hook, ∃ n l, s.reg.devSuspend suspend hook n = some l
  devResume : ∀ resume hook, ∃ n l, s.reg.devResume resume hook n = some l
  latest : ∀ devId n dev, s.reg.devGet devId n = some dev → dev = DevMgr.latest s.log devId

section Guard
variable [DecidableEq δ]

/-- An id is written only into an object that is not registered or has it already. An
object is entered only if it is new, no registered object has its id and nobody has
changed the id since it was written. -/
def Pc.Safe (s : Sys ι δ) : Pc δ → Prop
  | .setId devId device => device ∈ s.registered → s.reg.devId device = devId
  | .insert devId device => s.reg.devId device = devId ∧
      ∀ d ∈ s.registered, d ≠ device ∧ s.reg.devId d ≠ devId
  | .out _ | .get .. => True

instance (s : Sys ι δ) : (p : Pc δ) → Decidable (p.Safe s)
  | .setId .. => inferInstanceAs (Decidable (_ → _))
  | .insert .. => inferInstanceAs (Decidable (_ ∧ _))
  | .out _ | .get .. => inferInstanceAs (Decidable True)

def Safe (s : Sys ι δ) : Label ι δ → Prop
  | .setId i | .insert i => (s.pc i).Safe s
  | .call .. | .get .. => True

instance (s : Sys ι δ) : (l : Label ι δ) → Decidable (Safe s l)
  | .setId i | .insert i => inferInstanceAs (Decidable ((s.pc i).Safe s))
  | .call .. | .get .. => inferInstanceAs (Decidable True)

end Guard

/-- The list has the registered objects in the order of the log, each under the id
of its registration. -/
structure Inv (s : Sys ι δ) : Prop where
  chain : Seg s.reg.next s.reg.head s.registered none
  ids : ∀ r ∈ s.log, s.reg.devId r.2 = r.1
  unique : (s.log.map Prod.fst).Nodup

section Steps
variable {s t : Sys ι δ} {i : ι} {d e : δ} {devId : BitVec 32}

theorem Inv.listed_iff (h : Inv s) : s.reg.Listed d ↔ d ∈ s.registered := h.chain.reaches_iff

theorem Inv.find (h : Inv s) (devId : BitVec 32) :
    s.registered.find? (fun d => s.reg.devId d == devId) = latest s.log devId := by
  have hids := h.ids
  unfold Sys.registered latest
  rw [List.find?_map]
  generalize s.log = log at hids
  induction log with
  | nil => rfl
  | cons r log ih =>
    have hr : ((fun d => s.reg.devId d == devId) ∘ Prod.snd) r = (r.1 == devId) := by
      rw [Function.comp_apply,hids r List.mem_cons_self]
    have htail := ih fun r' hr' => hids r' (List.mem_cons_of_mem r hr')
    rw [List.find?_cons,List.find?_cons,hr]
    cases hid : r.1 == devId with
    | true => rfl
    | false => exact htail

theorem Inv.devGet (h : Inv s) (devId : BitVec 32) :
    s.reg.devGet devId s.registered.length = some (latest s.log devId) := by
  rw [← h.find devId]
  exact h.chain.search _

theorem Inv.devGet_eq (h : Inv s) {n : ℕ} {dev : Option δ} (hget : s.reg.devGet devId n = some dev) :
    dev = latest s.log devId :=
  search_unique hget (h.devGet devId)

/-- Two registered objects with one id are one object. -/
theorem Inv.devId_inj (h : Inv s) (hd : d ∈ s.registered) (he : e ∈ s.registered)
    (hid : s.reg.devId d = s.reg.devId e) : d = e := by
  obtain ⟨r,hr,rfl⟩ := List.mem_map.mp hd
  obtain ⟨r',hr',rfl⟩ := List.mem_map.mp he
  rw [h.ids r hr,h.ids r' hr'] at hid
  exact congrArg Prod.snd (List.inj_on_of_nodup_map h.unique hr hr' hid)

theorem Inv.sound (h : Inv s) : s.Sound where
  acyclic := h.chain.no_loop
  unique _ _ hd he hid := h.devId_inj (h.listed_iff.mp hd) (h.listed_iff.mp he) hid
  devGet devId := ⟨_,_,h.devGet devId⟩
  devSuspend _ _ := ⟨_,_,congrArg (Option.map _) h.chain.walk⟩
  devResume _ _ := ⟨_,_,congrArg (Option.map _) h.chain.walk⟩
  latest _ _ _ hget := h.devGet_eq hget

theorem Inv.latest_devId (h : Inv s) (hd : d ∈ s.registered) : latest s.log (s.reg.devId d) = some d := by
  rw [← h.find]
  cases hfind : s.registered.find? fun e => s.reg.devId e == s.reg.devId d with
  | none => exact absurd BEq.rfl (List.find?_eq_none.mp hfind d hd)
  | some e =>
    have hid : s.reg.devId e = s.reg.devId d :=
      beq_iff_eq.mp (List.find?_some (p := fun e => s.reg.devId e == s.reg.devId d) hfind)
    rw [h.devId_inj (List.mem_of_find?_eq_some hfind) hd hid]

/-- What depends on the registry and the log alone. -/
theorem Inv.congr (h : Inv s) (hreg : t.reg = s.reg) (hlog : t.log = s.log) : Inv t := by
  obtain ⟨chain,ids,unique⟩ := h
  constructor
  · rw [Sys.registered,hreg,hlog]
    exact chain
  · rw [hreg,hlog]
    exact ids
  · rw [hlog]
    exact unique

theorem Inv.booted (next : δ → Option δ) (devId : δ → BitVec 32) : Inv (booted next devId : Sys ι δ) :=
  ⟨rfl,fun _ hr => absurd hr List.not_mem_nil,List.nodup_nil⟩

theorem devGet_devId {g : Registry δ} {n : ℕ} (h : g.devGet devId n = some (some d)) : g.devId d = devId :=
  beq_iff_eq.mp (search_some (f := fun d => g.devId d == devId) h)

theorem latest_cons_self (log : List (BitVec 32 × δ)) : latest ((devId,d) :: log) devId = some d := by
  simp [latest]

variable [DecidableEq ι] [DecidableEq δ]

theorem Inv.setId (h : Inv s) (hsafe : Pc.Safe s (.setId devId d)) (p : Pc δ) :
    Inv { s.at i p with reg := s.reg.setId d devId } := by
  refine ⟨h.chain,fun r hr => ?_,h.unique⟩
  show Function.update s.reg.devId d devId r.2 = r.1
  rw [← h.ids r hr]
  by_cases hd : r.2 = d
  · subst hd
    rw [Function.update_self,hsafe (List.mem_map_of_mem hr)]
  · exact Function.update_of_ne hd _ _

theorem Inv.insert (h : Inv s) (hsafe : Pc.Safe s (.insert devId d)) (p : Pc δ) :
    Inv { s.at i p with reg := s.reg.insert d, log := (devId,d) :: s.log } := by
  obtain ⟨hid,hnew⟩ := hsafe
  have hd : d ∉ s.registered := fun hmem => (hnew d hmem).1 rfl
  constructor
  · exact h.chain.push hd
  · intro r hr
    rcases List.mem_cons.mp hr with rfl | hr
    · exact hid
    · exact h.ids r hr
  · refine List.nodup_cons.mpr ⟨fun hmem => ?_,h.unique⟩
    obtain ⟨r,hr,hfst⟩ := List.mem_map.mp hmem
    exact (hnew r.2 (List.mem_map_of_mem hr)).2 ((h.ids r hr).trans hfst)

/-- What the statements of dev_register do to the registry and the log. -/
theorem step_cases {l : Label ι δ} (hs : DevMgr.step s l = some t) :
    (t.reg = s.reg ∧ t.log = s.log ∧ Safe s l) ∨
    (∃ i devId d, l = .setId i ∧ s.pc i = .setId devId d ∧
      t = { s.at i (.insert devId d) with reg := s.reg.setId d devId }) ∨
    (∃ i devId d, l = .insert i ∧ s.pc i = .insert devId d ∧
      t = { s.at i (.out RET_OK) with reg := s.reg.insert d, log := (devId,d) :: s.log }) := by
  cases l with
  | call i devId d =>
    unfold DevMgr.step at hs
    dsimp only at hs
    split at hs
    · cases hs
      exact .inl ⟨rfl,rfl,trivial⟩
    · cases hs
  | get i n =>
    unfold DevMgr.step at hs
    dsimp only at hs
    split at hs
    · obtain ⟨dev,-,rfl⟩ := Option.map_eq_some_iff.mp hs
      exact .inl ⟨rfl,rfl,trivial⟩
    · cases hs
  | setId i =>
    unfold DevMgr.step at hs
    dsimp only at hs
    split at hs
    · rename_i devId d hpc
      exact .inr (.inl ⟨i,devId,d,rfl,hpc,(Option.some.inj hs).symm⟩)
    · cases hs
  | insert i =>
    unfold DevMgr.step at hs
    dsimp only at hs
    split at hs
    · rename_i devId d hpc
      exact .inr (.inr ⟨i,devId,d,rfl,hpc,(Option.some.inj hs).symm⟩)
    · cases hs

theorem Inv.step (h : Inv s) {l : Label ι δ} (hsafe : Safe s l) (hs : DevMgr.step s l = some t) : Inv t := by
  obtain ⟨hreg,hlog,-⟩ | ⟨i,devId,d,rfl,hpc,rfl⟩ | ⟨i,devId,d,rfl,hpc,rfl⟩ := step_cases hs
  · exact h.congr hreg hlog
  · rw [Safe,hpc] at hsafe
    exact h.setId hsafe _
  · rw [Safe,hpc] at hsafe
    exact h.insert hsafe _

/-- An id that is written into a registered object is no longer found under the old one. -/
theorem Inv.setId_safe (h : Inv s) {p : Pc δ}
    (ht : Sys.Sound { s.at i p with reg := s.reg.setId d devId }) : Pc.Safe s (.setId devId d) := by
  intro hd
  obtain ⟨n,dev,hget⟩ := ht.devGet (s.reg.devId d)
  obtain rfl : dev = some d := (ht.latest _ n dev hget).trans (h.latest_devId hd)
  have hid : Function.update s.reg.devId d devId d = s.reg.devId d := devGet_devId hget
  rw [Function.update_self] at hid
  exact hid.symm

/-- An entry that is not safe makes a loop, gives an id twice or is not found. -/
theorem Inv.insert_safe (h : Inv s) {p : Pc δ}
    (ht : Sys.Sound { s.at i p with reg := s.reg.insert d, log := (devId,d) :: s.log }) :
    Pc.Safe s (.insert devId d) := by
  have hnew : d ∉ s.registered := fun hd => ht.acyclic (h.chain.push_loops hd)
  have hid : s.reg.devId d = devId := by
    obtain ⟨n,dev,hget⟩ := ht.devGet devId
    obtain rfl : dev = some d := (ht.latest _ n dev hget).trans (latest_cons_self s.log)
    exact devGet_devId (g := s.reg.insert d) hget
  refine ⟨hid,fun e he => ?_⟩
  have hne : e ≠ d := fun heq => hnew (heq ▸ he)
  refine ⟨hne,fun hdup => hne ?_⟩
  have hlisted : ∀ x ∈ d :: s.registered, (s.reg.insert d).Listed x := fun x hx =>
    (h.chain.push hnew).reaches_iff.mpr hx
  exact ht.unique e d (hlisted e (List.mem_cons_of_mem d he)) (hlisted d List.mem_cons_self) (hdup.trans hid.symm)

theorem Inv.safe_of_sound (h : Inv s) {l : Label ι δ} (hs : DevMgr.step s l = some t) (ht : t.Sound) :
    Safe s l := by
  obtain ⟨-,-,hsafe⟩ | ⟨i,devId,d,rfl,hpc,rfl⟩ | ⟨i,devId,d,rfl,hpc,rfl⟩ := step_cases hs
  · exact hsafe
  · rw [Safe,hpc]
    exact h.setId_safe ht
  · rw [Safe,hpc]
    exact h.insert_safe ht

/-- The registry keeps its promises in every state of exactly the runs in which every
id is written and every object entered safely. -/
theorem sound_iff {next : δ → Option δ} {ids : δ → BitVec 32} {ls : List (Label ι δ)}
    (h : Runs DevMgr.step (booted next ids) ls s) :
    (∀ ms u, ms <+: ls → Runs DevMgr.step (booted next ids) ms u → u.Sound) ↔
      Runs (guarded Safe DevMgr.step) (booted next ids) ls s :=
  h.guarded_iff (fun _ hi => hi.sound) (fun _ _ _ hi hsafe hs => hi.step hsafe hs)
    (fun _ _ _ hi hs ht => hi.safe_of_sound hs ht) (Inv.booted next ids)

end Steps

def twoTasks : List (Label Bool Bool) :=
  [.call true 1 true,.get true 0,.setId true,.call false 2 false,.insert true,.get false 1,.setId false,
    .insert false]

/-- Two tasks register two objects, one behind the other. -/
theorem sound_two : ∃ s, Runs (guarded Safe step) (booted (fun _ => none) fun _ => 0) twoTasks s ∧
    s.log = [(2,false),(1,true)] ∧
    ∀ ms u, ms <+: twoTasks → Runs step (booted (fun _ => none) fun _ => 0) ms u → u.Sound := by
  refine Runs.exists_of_exec Sys.log (v := [(2,false),(1,true)]) rfl ?_
  intro s hrun hlog
  exact ⟨hlog,(sound_iff hrun.of_guarded).mpr hrun⟩

/-- An object that is registered a second time, under another id, is its own successor. -/
theorem reregistered_loops : ∃ s, Runs step (booted (fun _ => none) fun _ => 0 : Sys Unit Unit)
    [.call () 1 (),.get () 0,.setId (),.insert (),.call () 2 (),.get () 1,.setId (),.insert ()] s ∧ ¬ s.Sound := by
  refine Runs.exists_of_exec (fun s => (s.reg.head,s.reg.next ())) (v := (some (),some ())) rfl ?_
  intro s _ hend h
  obtain ⟨hhead,hnext⟩ := Prod.mk.inj hend
  apply h.acyclic
  exact ⟨(),[()],⟨[],hhead⟩,List.cons_ne_nil () [],rfl,hnext⟩

end FmacSdk.DevMgr
