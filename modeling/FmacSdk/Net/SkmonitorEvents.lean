import FmacSdk.Net.SkmonitorLifetime

/-! # What the socket monitor reports

The sets are filled from one version of the list, reduced by select, and read against a
later version. The walk looks neither at the flags nor at disable of an entry, so that what
it calls is right as long as every entry ahead of it fits the sets.
-/
namespace FmacSdk.Skmonitor
open Cursors Transition
variable {ι : Type*}

/-- The latest select returned a positive count with the socket in the set. -/
def isReady (last : Option FdSets) (f : Flag) (sock : BitVec 16) : Bool := last.any fun sets => sets f sock

/-- Each flag was reported, the entry was registered for it, and was not disabled. -/
def Called.Real (r : Called) : Prop :=
  ∀ f, has r.flags f = true → isReady r.last f r.sock = true ∧ has r.registered f = true ∧ r.disable = 0

/-- No freed entry is called, and what is called is real. -/
structure Sys.Real (s : Sys ι) : Prop where
  alive : s.work ≠ .crashed
  real : ∀ r ∈ s.calls, r.Real

/-- The entries that the walk has not come to. -/
def coming (work : WorkPc) (entries : List Entry) : List Entry :=
  match work with
  | .queued => entries
  | .call _ next | .run _ next => ahead Entry.id entries next
  | _ => []

def Sys.queued (s : Sys ι) : Bool :=
  match s.work with
  | .queued => true
  | _ => false

instance {p : Flag → Prop} [DecidablePred p] : Decidable (∃ f, p f) :=
  decidable_of_iff (p .read ∨ p .write ∨ p .error)
    ⟨fun h => h.elim (fun h => ⟨_,h⟩) fun h => h.elim (fun h => ⟨_,h⟩) fun h => ⟨_,h⟩,fun ⟨f,h⟩ => by
      cases f with
      | read => exact Or.inl h
      | write => exact Or.inr (Or.inl h)
      | error => exact Or.inr (Or.inr h)⟩

/-- An entry was changed since the sets were filled, select fails with an entry in its sets, an entry
that the walk will come to is registered for less than the sets hold or is disabled, or the entry
that the walk holds is deleted. -/
def Misleads (s : Sys ι) : Label ι → Prop
  | .select (.ready sets) => ∃ e ∈ s.entries, ∃ f, s.sets f e.sock = true ∧ sets f e.sock = true ∧
      ¬ (has e.flags f = true ∧ e.disable = 0)
  | .select .error => ∃ e ∈ s.entries, ∃ f, s.sets f e.sock = true
  | .add _ sock flags cb _ got => ¬ (sock.toInt < 0 ∨ cb = 0) ∧
      ((∃ e ∈ coming s.work s.entries, e.sock = sock) ∨
        s.queued = true ∧ (∀ e ∈ s.entries, e.sock ≠ sock) ∧ got = true) ∧
      ∃ f, s.sets f sock = true ∧ ¬ (isReady s.last f sock = true ∧ has (flags.setWidth 8) f = true)
  | .del _ sock => ∃ e ∈ s.entries, e.sock = sock ∧ some e.id = s.held
  | .disable _ sock disable => disable.setWidth 1 ≠ 0 ∧
      ∃ e ∈ coming s.work s.entries, e.sock = sock ∧ ∃ f, s.sets f sock = true
  | _ => False

instance (s : Sys ι) (l : Label ι) : Decidable (Misleads s l) :=
  match l with
  | .select (.ready _) => by change Decidable (∃ _, _); infer_instance
  | .select .error => by change Decidable (∃ _, _); infer_instance
  | .add .. => by change Decidable (_ ∧ _); infer_instance
  | .del .. => by change Decidable (∃ _, _); infer_instance
  | .disable .. => by change Decidable (_ ∧ _); infer_instance
  | .select .timeout | .semaDown | .fill | .work | .start | .back | .finish | .delReturn _ => inferInstanceAs (Decidable False)

/-- The walk may call the entry. -/
def Sys.Fit (s : Sys ι) (e : Entry) : Prop :=
  ∀ f, s.sets f e.sock = true → isReady s.last f e.sock = true ∧ has e.flags f = true ∧ e.disable = 0

/-! ## The entries ahead -/

section Coming
variable {work : WorkPc} {es : List Entry} {p : Entry → Bool} {g : Entry → Entry} {d e : Entry}

theorem mem_coming_modifyFirst (hid : ∀ e, (g e).id = e.id) (he : e ∈ coming work (modifyFirst p g es)) :
    e ∈ coming work es ∨ ∃ d ∈ coming work es, p d = true ∧ e = g d := by
  cases work with
  | queued => exact mem_modifyFirst he
  | call c next | run c next => exact mem_ahead_modifyFirst hid he
  | idle | finish | crashed => exact absurd he List.not_mem_nil

theorem coming_idle (hwork : work = .idle) : coming work es = [] := by
  subst hwork
  rfl

end Coming

section Steps
variable {s t : Sys ι} {self : BitVec 16} {l : Label ι} {sock : BitVec 16} {es : List Entry} {d e : Entry}

theorem mem_coming_cons (hheld : Held Entry.id s.entries s.held) (hd : ∀ e ∈ s.entries, e.id ≠ d.id)
    (he : e ∈ coming s.work (d :: s.entries)) : e ∈ coming s.work s.entries ∨ e = d ∧ s.queued = true := by
  unfold Sys.held at hheld
  unfold Sys.queued
  cases hwork : s.work with
  | queued =>
    rw [hwork] at he
    rcases List.mem_cons.mp he with rfl | he
    · exact Or.inr ⟨rfl,rfl⟩
    · exact Or.inl he
  | call c next | run c next =>
    rw [hwork] at he hheld
    refine Or.inl ?_
    have hnext : some d.id ≠ next := by
      rintro rfl
      obtain ⟨e,he,heq⟩ := hheld d.id rfl
      exact hd e he heq
    have hahead : e ∈ ahead Entry.id (d :: s.entries) next := he
    rwa [ahead_cons hnext] at hahead
  | idle | finish | crashed =>
    rw [hwork] at he
    exact absurd he List.not_mem_nil

theorem mem_coming_eraseP {p : Entry → Bool} (hkeep : ∀ e ∈ s.entries, p e = true → some e.id ≠ s.held)
    (he : e ∈ coming s.work (s.entries.eraseP p)) : e ∈ coming s.work s.entries := by
  unfold Sys.held at hkeep
  cases hwork : s.work with
  | queued =>
    rw [hwork] at he
    exact List.eraseP_subset he
  | call c next | run c next =>
    rw [hwork] at he hkeep
    exact mem_ahead_eraseP hkeep he
  | idle | finish | crashed =>
    rw [hwork] at he
    exact absurd he List.not_mem_nil

/-! ## The entries that fit -/

/-- What the walk calls is real if the entry fits. -/
theorem Sys.Fit.real (h : s.Fit e) : Called.Real ⟨e.sock,gather s.sets e.sock,e.flags,e.disable,s.last⟩ := by
  intro f hf
  exact h f ((gather_has s.sets e.sock f).symm.trans hf)

def TaskPc.count : TaskPc → ℕ
  | .down => 0
  | _ => 1

def WorkPc.count : WorkPc → ℕ
  | .idle => 0
  | _ => 1

/-- One of the task, the work and the semaphore goes on. -/
structure Current (s : Sys ι) : Prop extends Listed s where
  one : s.run + s.task.count + s.work.count = 1
  alive : s.work ≠ .crashed
  held : Held Entry.id s.entries s.held
  fit : ∀ e ∈ coming s.work s.entries, s.Fit e
  real : ∀ r ∈ s.calls, r.Real

theorem Current.init : Current (Skmonitor.init : Sys ι) := by
  refine ⟨⟨?_,?_,?_,?_⟩,rfl,nofun,?_,?_,?_⟩ <;> simp [Skmonitor.init,Sys.held,Held,coming]

/-- The work is idle while the task has something to do. -/
theorem Current.idle (h : Current s) (hbusy : 0 < s.run + s.task.count) : s.work = .idle := by
  have hone := h.one
  cases hwork : s.work with
  | idle => rfl
  | _ =>
    rw [hwork] at hone
    have hcount : s.run + s.task.count + 1 = 1 := hone
    omega

theorem Current.walkOn (h : Current s) (hactive : s.work.count = 1) (hes : es <:+ s.entries)
    (hfit : ∀ e ∈ es, s.Fit e) : Current (s.walkOn es) := by
  have hone := h.one
  rw [hactive] at hone
  rcases walkOn_cases s es with heq | ⟨e,rest,-,hsuffix,heq⟩
  · rw [heq]
    exact ⟨⟨h.ids,h.socks,h.id,h.reg⟩,hone,nofun,nofun,nofun,h.real⟩
  · rw [heq]
    have hrest : rest <:+ s.entries := (List.suffix_cons e rest).trans (hsuffix.trans hes)
    have hahead : ahead Entry.id s.entries (cursor Entry.id rest) = rest := ahead_cursor h.ids hrest
    have he : s.Fit e := hfit e (hsuffix.subset List.mem_cons_self)
    refine ⟨⟨h.ids,h.socks,h.id,h.reg⟩,hone,nofun,Held.cursor hrest,fun d hd => ?_,
      List.forall_mem_cons.mpr ⟨he.real,h.real⟩⟩
    have hmem : d ∈ rest := hahead ▸ hd
    exact hfit d (hsuffix.subset (List.mem_cons_of_mem e hmem))

theorem Current.add {flags cb priv : BitVec 32} {got : Bool} (k : Option ι) (h : Current s)
    (hgood : ¬ Misleads s (.add k sock flags cb priv got)) : Current (s.add sock flags cb priv got) := by
  have hlisted : Listed (s.add sock flags cb priv got) := h.toListed.add
  have hcovers : ¬ (sock.toInt < 0 ∨ cb = 0) → ((∃ e ∈ coming s.work s.entries, e.sock = sock) ∨
      s.queued = true ∧ (∀ e ∈ s.entries, e.sock ≠ sock) ∧ got = true) →
      ∀ f, s.sets f sock = true → isReady s.last f sock = true ∧ has (flags.setWidth 8) f = true := by
    intro hvalid hreached f hf
    by_contra hless
    exact hgood ⟨hvalid,hreached,f,hf,hless⟩
  rcases add_cases s sock flags cb priv got with heq | ⟨hvalid,heq | ⟨hgot,hnew,heq⟩⟩
  · rw [heq]
    exact h
  · rw [heq] at hlisted ⊢
    have hheld : Held Entry.id (modifyFirst (fun e => e.sock = sock) (Entry.renew flags cb priv s.nextReg) s.entries)
        s.held := Held.modifyFirst (fun _ => rfl) h.held
    refine ⟨hlisted,h.one,h.alive,hheld,fun e he => ?_,h.real⟩
    have hid : ∀ e, (Entry.renew flags cb priv s.nextReg e).id = e.id := fun _ => rfl
    rcases mem_coming_modifyFirst hid he with he | ⟨d,hd,hsock,rfl⟩
    · exact h.fit e he
    · intro f hf
      have hsock : d.sock = sock := of_decide_eq_true hsock
      obtain ⟨hready,hflags⟩ := hcovers hvalid (Or.inl ⟨d,hd,hsock⟩) f (hsock ▸ hf)
      exact ⟨hsock ▸ hready,hflags,(h.fit d hd f hf).2.2⟩
  · rw [heq] at hlisted ⊢
    refine ⟨hlisted,h.one,h.alive,h.held.cons,fun e he => ?_,h.real⟩
    rcases mem_coming_cons h.held (fun e he => (h.id e he).ne) he with he | ⟨rfl,hqueued⟩
    · exact h.fit e he
    · intro f hf
      obtain ⟨hready,hflags⟩ := hcovers hvalid (Or.inr ⟨hqueued,hnew,hgot⟩) f hf
      exact ⟨hready,hflags,rfl⟩

theorem Current.disable (k : Option ι) (disable : BitVec 8) (h : Current s)
    (hgood : ¬ Misleads s (.disable k sock disable)) : Current (s.disable sock disable) := by
  have hheld : Held Entry.id (s.disable sock disable).entries s.held := Held.modifyFirst (fun _ => rfl) h.held
  refine ⟨h.toListed.disable disable,h.one,h.alive,hheld,fun e he => ?_,h.real⟩
  have hid : ∀ e, (Entry.turn disable e).id = e.id := fun _ => rfl
  rcases mem_coming_modifyFirst hid he with he | ⟨d,hd,hturned,rfl⟩
  · exact h.fit e he
  · intro f hf
    obtain ⟨hready,hflags,-⟩ := h.fit d hd f hf
    have hsock : d.sock = sock := (of_decide_eq_true hturned).1
    refine ⟨hready,hflags,?_⟩
    by_contra hdisable
    exact hgood ⟨hdisable,d,hd,hsock,f,hsock ▸ hf⟩

theorem Current.select (ret : SelectRet) (h : Current s) (htask : s.task = .select)
    (hgood : ¬ Misleads s (.select ret)) : Current (s.select ret) := by
  have hone := h.one
  have hidle : s.work = .idle := h.idle (by rw [htask]; exact Nat.succ_pos _)
  rw [htask,hidle] at hone
  cases ret with
  | ready sets =>
    refine ⟨⟨h.ids,h.socks,h.id,h.reg⟩,hone,nofun,nofun,?_,h.real⟩
    intro e he f hf
    obtain ⟨hset,hready⟩ := Bool.and_eq_true_iff.mp hf
    refine ⟨hf,?_⟩
    by_contra hunfit
    exact hgood ⟨e,he,f,hset,hready,hunfit⟩
  | timeout =>
    have hone : s.run + 1 + 0 + s.work.count = 1 := by rwa [hidle]
    refine ⟨⟨h.ids,h.socks,h.id,h.reg⟩,hone,h.alive,h.held,?_,h.real⟩
    intro e he
    have hnil : coming s.work s.entries = [] := coming_idle hidle
    exact absurd (hnil ▸ he) List.not_mem_nil
  | error =>
    refine ⟨⟨h.ids,h.socks,h.id,h.reg⟩,hone,nofun,nofun,?_,h.real⟩
    intro e he f hf
    exact absurd ⟨e,he,f,hf⟩ hgood

theorem Current.start (h : Current s) {c : Callback} {next : Option ℕ} (hwork : s.work = .call c next) :
    Current { s with work := .run c next, log := .started c.sock c.reg :: s.log } := by
  have hone := h.one
  have hheld := h.held
  have hfit := h.fit
  unfold Sys.held at hheld
  rw [hwork] at hone hheld hfit
  exact ⟨⟨h.ids,h.socks,h.id,h.reg⟩,hone,nofun,hheld,hfit,h.real⟩

theorem Current.finish (h : Current s) (hwork : s.work = .finish) : Current { s with work := .idle, run := s.run + 1 } := by
  have hone := h.one
  rw [hwork] at hone
  refine ⟨⟨h.ids,h.socks,h.id,h.reg⟩,?_,nofun,nofun,nofun,h.real⟩
  have hcount : s.run + s.task.count + 1 = 1 := hone
  change s.run + 1 + s.task.count + 0 = 1
  omega

variable [DecidableEq ι]

theorem Current.del (k : Option ι) (h : Current s) (hgood : ¬ Misleads s (.del k sock)) : Current (s.del k sock) := by
  have hkeep : ∀ e ∈ s.entries, decide (e.sock = sock) = true → some e.id ≠ s.held := by
    intro e he hsock heq
    exact hgood ⟨e,he,of_decide_eq_true hsock,heq⟩
  have hheld : Held Entry.id (s.del k sock).entries s.held := Held.eraseP hkeep h.held
  exact ⟨h.toListed.del k,h.one,h.alive,hheld,fun e he => h.fit e (mem_coming_eraseP hkeep he),h.real⟩

theorem Current.step (h : Current s) (hgood : ¬ Misleads s l) (hs : Skmonitor.step self s l = some t) : Current t := by
  have hlisted : Listed t := h.toListed.step hs
  have htakes := step_takes hs
  have hone := h.one
  cases l with
  | semaDown =>
    obtain ⟨htask,hrun,rfl⟩ := htakes
    refine ⟨hlisted,?_,h.alive,h.held,h.fit,h.real⟩
    rw [htask] at hone
    have hcount : s.run + 0 + s.work.count = 1 := hone
    change s.run - 1 + 1 + s.work.count = 1
    omega
  | fill =>
    obtain ⟨htask,rfl⟩ := htakes
    have hidle : s.work = .idle := h.idle (by rw [htask]; exact Nat.succ_pos _)
    rw [htask] at hone
    refine ⟨hlisted,hone,h.alive,h.held,?_,h.real⟩
    intro e he
    have hnil : coming s.work s.entries = [] := coming_idle hidle
    exact absurd (hnil ▸ he) List.not_mem_nil
  | select ret =>
    obtain ⟨htask,rfl⟩ := htakes
    exact h.select ret htask hgood
  | work =>
    obtain ⟨hwork,rfl⟩ := htakes
    have hfit := h.fit
    rw [hwork] at hfit
    exact h.walkOn (congrArg WorkPc.count hwork) (List.suffix_refl _) hfit
  | start =>
    obtain ⟨c,next,hwork,rfl⟩ := htakes
    exact h.start hwork
  | back =>
    obtain ⟨c,next,hwork,-,rfl⟩ := htakes
    have hfit := h.fit
    have hheld := h.held
    unfold Sys.held at hheld
    rw [hwork] at hfit hheld
    rw [back_held hheld]
    exact h.walkOn (congrArg WorkPc.count hwork) ahead_suffix hfit
  | finish =>
    obtain ⟨hwork,rfl⟩ := htakes
    exact h.finish hwork
  | add k sock flags cb priv got =>
    obtain ⟨-,rfl⟩ := htakes
    exact h.add k hgood
  | del k sock =>
    obtain ⟨-,rfl⟩ := htakes
    exact h.del k hgood
  | delReturn k =>
    obtain ⟨sock,before,-,rfl⟩ := htakes
    exact ⟨hlisted,hone,h.alive,h.held,h.fit,h.real⟩
  | disable k sock disable =>
    obtain ⟨-,rfl⟩ := htakes
    exact h.disable k disable hgood

/-- Where nothing misleads the walk, every callback is real. -/
theorem reports_run {ls : List (Label ι)}
    (h : Runs (guarded (fun s l => ¬ Misleads s l) (Skmonitor.step self)) Skmonitor.init ls s) : s.Real := by
  have hcurrent : Current s := h.guarded_invariant (fun _ _ _ hi hgood hs => hi.step hgood hs) Current.init
  exact ⟨hcurrent.alive,hcurrent.real⟩

end Steps

/-! ## A select that fails -/

/-- A socket that is registered for read and idle is called back after a select that returned -1. -/
theorem reports_fails : ∃ s, Runs (step 3) init
    [.add (some ()) 4 1 0x1000 0 true,.semaDown,.fill,.select .error,.work,.start] s ∧
    s.log = [.started 4 0] ∧ ¬ s.Real := by
  refine Runs.exists_of_exec (fun s => (s.log,s.calls.map fun r => (r.flags,r.last.isSome)))
    (v := ([.started 4 0],[(1,false)])) (by decide +kernel) ?_
  intro s _ hcalls
  obtain ⟨hlog,hcalls⟩ := Prod.mk.inj hcalls
  refine ⟨hlog,fun hreal => ?_⟩
  obtain ⟨r,hr,hcalled⟩ := List.mem_map.mp (hcalls ▸ List.mem_singleton_self ((1 : BitVec 8),false))
  obtain ⟨hflags,hlast⟩ := Prod.mk.inj hcalled
  have hready : isReady r.last .read r.sock = true := (hreal.real r hr .read (hflags ▸ rfl)).1
  have hnone : r.last = none := Option.isNone_iff_eq_none.mp (Option.isSome_eq_false_iff.mp hlast)
  rw [hnone] at hready
  cases hready

/-- The walk calls both sockets back, one of which is registered again on the way, and an idle one
is disabled. -/
theorem reports_ready : ∃ s, Runs (guarded (fun s l => ¬ Misleads s l) (step 3)) init
    [.add (some ()) 4 1 0x1000 0 true,.add (some ()) 5 3 0x2000 0 true,.add (some ()) 6 1 0x3000 0 true,.semaDown,.fill,
      .select (.ready fun f sock => f = .read ∧ sock ≠ 6),.disable (some ()) 6 1,.work,.start,
      .add none 4 3 0x4000 0 true,.back,.start,.back,.finish] s ∧
    s.log = [.started 4 3,.started 5 1] ∧ s.Real := by
  refine Runs.exists_of_exec Sys.log (v := [.started 4 3,.started 5 1]) (by decide +kernel) ?_
  intro s hrun hlog
  exact ⟨hlog,reports_run hrun⟩

end FmacSdk.Skmonitor
