import FmacSdk.Net.Skmonitor

/-! # The lifetime of socket monitor entries

Tasks and callbacks add, delete and disable sockets at every point of the walk. There is
always one entry for a socket; that the walk goes on with a live entry, and that nothing
deleted is called back, depends on when sock_monitor_del runs.
-/
namespace FmacSdk.Skmonitor
open Cursors Transition
variable {ι : Type*} [DecidableEq ι]

/-- No freed entry is read, each socket has one entry, and what was registered when a
sock_monitor_del had the lock is not started after its return. -/
structure Sys.Safe (s : Sys ι) : Prop where
  alive : s.work ≠ .crashed
  one : (s.entries.map Entry.sock).Nodup
  quiet : s.log.Pairwise fun later earlier => ∀ sock before reg,
    earlier = .deleted sock before → later = .started sock reg → before ≤ reg

/-- The entry that the walk is to go on with after a callback. -/
def Sys.held (s : Sys ι) : Option ℕ :=
  match s.work with
  | .call _ next | .run _ next => next
  | _ => none

/-- An entry is deleted that the walk holds, or a sock_monitor_del returns while a callback that it
deleted is copied and not started. -/
def Endangers (s : Sys ι) : Label ι → Prop
  | .del _ sock => ∃ e ∈ s.entries, e.sock = sock ∧ some e.id = s.held
  | .delReturn k => match s.pc k, s.work with
    | some (sock,before), .call c _ => c.sock = sock ∧ c.reg < before
    | _, _ => False
  | _ => False

instance (s : Sys ι) (l : Label ι) : Decidable (Endangers s l) := by
  unfold Endangers
  cases l with
  | delReturn k => dsimp only; split <;> infer_instance
  | _ => infer_instance

/-- What is registered for the socket was registered since. -/
def Sys.Since (s : Sys ι) (sock : BitVec 16) (before : ℕ) : Prop :=
  before ≤ s.nextReg ∧ ∀ e ∈ s.entries, e.sock = sock → before ≤ e.reg

structure Inv (s : Sys ι) : Prop extends Listed s where
  alive : s.work ≠ .crashed
  held : Held Entry.id s.entries s.held
  pending : ∀ k sock before, s.pc k = some (sock,before) → s.Since sock before
  deleted : ∀ sock before, .deleted sock before ∈ s.log → s.Since sock before ∧
    ∀ c next, s.work = .call c next → c.sock = sock → before ≤ c.reg
  quiet : s.log.Pairwise fun later earlier => ∀ sock before reg,
    earlier = .deleted sock before → later = .started sock reg → before ≤ reg

section Steps
variable {s t : Sys ι} {self : BitVec 16} {l : Label ι} {sock : BitVec 16} {before : ℕ}

omit [DecidableEq ι] in
theorem Inv.safe (h : Inv s) : s.Safe := ⟨h.alive,h.socks,h.quiet⟩

omit [DecidableEq ι] in
theorem Inv.init : Inv (Skmonitor.init : Sys ι) := by
  refine ⟨⟨?_,?_,?_,?_⟩,nofun,?_,?_,?_,List.Pairwise.nil⟩ <;> simp [Skmonitor.init,Sys.held,Held]

/-- The registrations are those that there were, and new ones. -/
def Grows (s t : Sys ι) : Prop :=
  s.nextReg ≤ t.nextReg ∧
    ∀ e ∈ t.entries, (∃ d ∈ s.entries, d.sock = e.sock ∧ d.reg = e.reg) ∨ s.nextReg ≤ e.reg

omit [DecidableEq ι] in
theorem Grows.same (hentries : t.entries = s.entries) (hreg : t.nextReg = s.nextReg) : Grows s t := by
  refine ⟨hreg.ge,fun e he => Or.inl ⟨e,?_,rfl,rfl⟩⟩
  rwa [← hentries]

omit [DecidableEq ι] in
theorem Sys.Since.grow (h : s.Since sock before) (hgrows : Grows s t) : t.Since sock before := by
  refine ⟨h.1.trans hgrows.1,fun e he hsock => ?_⟩
  rcases hgrows.2 e he with ⟨d,hd,hds,hdr⟩ | hnew
  · exact (h.2 d hd (hds.trans hsock)).trans_eq hdr
  · exact h.1.trans hnew

omit [DecidableEq ι] in
/-- A step other than the start of a callback and sock_monitor_del. -/
theorem Inv.keep (h : Inv s) (hlisted : Listed t) (hgrows : Grows s t) (hpc : t.pc = s.pc) (hlog : t.log = s.log)
    (halive : t.work ≠ .crashed) (hheld : Held Entry.id t.entries t.held)
    (hcall : ∀ c next, t.work = .call c next →
      s.work = .call c next ∨ ∃ e ∈ s.entries, e.sock = c.sock ∧ e.reg = c.reg) : Inv t where
  toListed := hlisted
  alive := halive
  held := hheld
  pending k sock before hk := (h.pending k sock before (hpc ▸ hk)).grow hgrows
  deleted sock before hmem := by
    obtain ⟨hsince,hcopied⟩ := h.deleted sock before (hlog ▸ hmem)
    refine ⟨hsince.grow hgrows,fun c next hwork hsock => ?_⟩
    rcases hcall c next hwork with hold | ⟨e,he,hes,her⟩
    · exact hcopied c next hold hsock
    · exact (hsince.2 e he (hes.trans hsock)).trans_eq her
  quiet := hlog ▸ h.quiet

omit [DecidableEq ι] in
/-- The work is not in the walk after the step. -/
theorem Inv.away (h : Inv s) (hlisted : Listed t) (hentries : t.entries = s.entries) (hreg : t.nextReg = s.nextReg)
    (hpc : t.pc = s.pc) (hlog : t.log = s.log) (hwork : t.work = .idle ∨ t.work = .queued ∨ t.work = .finish) :
    Inv t := by
  have hheld : t.held = none := by
    unfold Sys.held
    rcases hwork with hwork | hwork | hwork <;> rw [hwork]
  refine h.keep hlisted (Grows.same hentries hreg) hpc hlog ?_ (hheld ▸ nofun) fun c next hcall => ?_
  · rcases hwork with hwork | hwork | hwork <;> exact hwork ▸ nofun
  · rcases hwork with hwork | hwork | hwork <;> exact nomatch hwork.symm.trans hcall

omit [DecidableEq ι] in
theorem Inv.walkOn (h : Inv s) {es : List Entry} (hes : es <:+ s.entries) : Inv (s.walkOn es) := by
  rcases walkOn_cases s es with heq | ⟨e,rest,-,hsuffix,heq⟩
  · rw [heq]
    exact h.away ⟨h.ids,h.socks,h.id,h.reg⟩ rfl rfl rfl rfl (Or.inr (Or.inr rfl))
  · rw [heq]
    have hmem : e ∈ s.entries := hes.subset (hsuffix.subset List.mem_cons_self)
    have hrest : rest <:+ s.entries := (List.suffix_cons e rest).trans (hsuffix.trans hes)
    refine h.keep ⟨h.ids,h.socks,h.id,h.reg⟩ (Grows.same rfl rfl) rfl rfl nofun (Held.cursor hrest) ?_
    intro c next hwork
    cases hwork
    exact Or.inr ⟨e,hmem,rfl,rfl⟩

omit [DecidableEq ι] in
theorem Inv.add (h : Inv s) {flags cb priv : BitVec 32} {got : Bool} : Inv (s.add sock flags cb priv got) := by
  have hlisted : Listed (s.add sock flags cb priv got) := h.toListed.add
  rcases add_cases s sock flags cb priv got with heq | ⟨-,heq | ⟨-,-,heq⟩⟩
  · rw [heq]
    exact h
  · rw [heq] at hlisted ⊢
    have hheld : Held Entry.id (modifyFirst (fun e => e.sock = sock) (Entry.renew flags cb priv s.nextReg) s.entries)
        s.held := Held.modifyFirst (fun _ => rfl) h.held
    refine h.keep hlisted ⟨Nat.le_succ _,fun e he => ?_⟩ rfl rfl h.alive hheld fun c next hwork => Or.inl hwork
    rcases mem_modifyFirst he with he | ⟨d,-,-,rfl⟩
    · exact Or.inl ⟨e,he,rfl,rfl⟩
    · exact Or.inr le_rfl
  · rw [heq] at hlisted ⊢
    refine h.keep hlisted ⟨Nat.le_succ _,?_⟩ rfl rfl h.alive (Held.cons h.held) fun c next hwork => Or.inl hwork
    exact List.forall_mem_cons.mpr ⟨Or.inr le_rfl,fun e he => Or.inl ⟨e,he,rfl,rfl⟩⟩

omit [DecidableEq ι] in
theorem Inv.disable (h : Inv s) (disable : BitVec 8) : Inv (s.disable sock disable) := by
  have hheld : Held Entry.id (s.disable sock disable).entries s.held := Held.modifyFirst (fun _ => rfl) h.held
  refine h.keep (h.toListed.disable disable) ⟨le_rfl,fun e he => ?_⟩ rfl rfl h.alive hheld
    fun c next hwork => Or.inl hwork
  rcases mem_modifyFirst he with he | ⟨d,hd,-,rfl⟩
  · exact Or.inl ⟨e,he,rfl,rfl⟩
  · exact Or.inl ⟨d,hd,rfl,rfl⟩

/-- The entry that is erased is not the one that the walk holds. -/
theorem Inv.del (h : Inv s) (k : Option ι) (hkeep : ¬ ∃ e ∈ s.entries, e.sock = sock ∧ some e.id = s.held) :
    Inv (s.del k sock) := by
  have hsub : (s.entries.eraseP fun e => e.sock = sock).Sublist s.entries := List.eraseP_sublist
  have hgrows : Grows s (s.del k sock) := ⟨le_rfl,fun e he => Or.inl ⟨e,hsub.subset he,rfl,rfl⟩⟩
  have hheld : Held Entry.id (s.del k sock).entries s.held :=
    Held.eraseP (fun e he hsock heq => hkeep ⟨e,he,of_decide_eq_true hsock,heq⟩) h.held
  refine ⟨h.toListed.del k,h.alive,hheld,fun k' sock' before' hk => ?_,fun sock' before' hmem => ?_,h.quiet⟩
  · by_cases hkk : k' = k
    · subst hkk
      have hself : (s.del k' sock).pc k' = some (sock,s.nextReg) := Function.update_self ..
      obtain ⟨rfl,rfl⟩ := Prod.mk.inj (Option.some.inj (hself.symm.trans hk))
      exact ⟨le_rfl,fun e he hsock => absurd hsock (h.toListed.erased he)⟩
    · exact (h.pending k' sock' before' ((Function.update_of_ne hkk ..).symm.trans hk)).grow hgrows
  · obtain ⟨hsince,hcopied⟩ := h.deleted sock' before' hmem
    exact ⟨hsince.grow hgrows,hcopied⟩

theorem Inv.delReturn (h : Inv s) {k : Option ι} (hk : s.pc k = some (sock,before))
    (hkeep : ∀ c next, s.work = .call c next → ¬ (c.sock = sock ∧ c.reg < before)) :
    Inv (s.delReturn k sock before) := by
  have hpending : ∀ k' sock' before', (s.delReturn k sock before).pc k' = some (sock',before') →
      s.Since sock' before' := by
    intro k' sock' before' hk'
    by_cases hkk : k' = k
    · subst hkk
      exact absurd ((Function.update_self ..).symm.trans hk') (Option.some_ne_none _).symm
    · exact h.pending k' sock' before' ((Function.update_of_ne hkk ..).symm.trans hk')
  refine ⟨⟨h.ids,h.socks,h.id,h.reg⟩,h.alive,h.held,hpending,?_,?_⟩
  · intro sock' before' hmem
    unfold Sys.delReturn at hmem
    dsimp only at hmem
    split at hmem
    · exact h.deleted sock' before' hmem
    · rcases List.mem_cons.mp hmem with heq | hmem
      · cases heq
        refine ⟨h.pending k sock before hk,fun c next hwork hsock => ?_⟩
        by_contra hlt
        exact hkeep c next hwork ⟨hsock,not_le.mp hlt⟩
      · exact h.deleted sock' before' hmem
  · unfold Sys.delReturn
    dsimp only
    split
    · exact h.quiet
    · exact List.pairwise_cons.mpr ⟨fun _ _ _ _ _ _ hstarted => (nomatch hstarted),h.quiet⟩

omit [DecidableEq ι] in
theorem Inv.start (h : Inv s) {c : Callback} {next : Option ℕ} (hwork : s.work = .call c next) :
    Inv { s with work := .run c next, log := .started c.sock c.reg :: s.log } := by
  have hheld : s.held = next := by
    unfold Sys.held
    rw [hwork]
  refine ⟨⟨h.ids,h.socks,h.id,h.reg⟩,nofun,hheld ▸ h.held,h.pending,fun sock before hmem => ?_,?_⟩
  · rcases List.mem_cons.mp hmem with heq | hmem
    · cases heq
    · exact ⟨(h.deleted sock before hmem).1,nofun⟩
  · refine List.pairwise_cons.mpr ⟨fun earlier hmem sock before reg hdeleted hstarted => ?_,h.quiet⟩
    subst hdeleted
    obtain ⟨rfl,rfl⟩ := Event.started.inj hstarted
    exact (h.deleted c.sock before hmem).2 c next hwork rfl

theorem Inv.step (h : Inv s) (hgood : ¬ Endangers s l) (hs : Skmonitor.step self s l = some t) : Inv t := by
  have hlisted : Listed t := h.toListed.step hs
  have htakes := step_takes hs
  cases l with
  | semaDown =>
    obtain ⟨-,-,rfl⟩ := htakes
    exact h.keep hlisted (Grows.same rfl rfl) rfl rfl h.alive h.held fun c next => Or.inl
  | fill =>
    obtain ⟨-,rfl⟩ := htakes
    exact h.keep hlisted (Grows.same rfl rfl) rfl rfl h.alive h.held fun c next => Or.inl
  | select ret =>
    obtain ⟨-,rfl⟩ := htakes
    cases ret with
    | ready | error => exact h.away hlisted rfl rfl rfl rfl (Or.inr (Or.inl rfl))
    | timeout => exact h.keep hlisted (Grows.same rfl rfl) rfl rfl h.alive h.held fun c next => Or.inl
  | work =>
    obtain ⟨-,rfl⟩ := htakes
    exact h.walkOn (List.suffix_refl _)
  | start =>
    obtain ⟨c,next,hwork,rfl⟩ := htakes
    exact h.start hwork
  | back =>
    obtain ⟨c,next,hwork,-,rfl⟩ := htakes
    have hheld : s.held = next := by
      unfold Sys.held
      rw [hwork]
    rw [back_held (hheld ▸ h.held)]
    exact h.walkOn ahead_suffix
  | finish =>
    obtain ⟨-,rfl⟩ := htakes
    exact h.away hlisted rfl rfl rfl rfl (Or.inl rfl)
  | add k sock flags cb priv got =>
    obtain ⟨-,rfl⟩ := htakes
    exact h.add
  | del k sock =>
    obtain ⟨-,rfl⟩ := htakes
    exact h.del k hgood
  | delReturn k =>
    obtain ⟨sock,before,hk,rfl⟩ := htakes
    refine h.delReturn hk fun c next hwork hbad => hgood ?_
    simp only [Endangers,hk,hwork]
    exact hbad
  | disable k sock disable =>
    obtain ⟨-,rfl⟩ := htakes
    exact h.disable disable

omit [DecidableEq ι] in
theorem Listed.init : Listed (Skmonitor.init : Sys ι) := Inv.init.toListed

/-- Each socket has one entry in every run. -/
theorem listed_run {ls : List (Label ι)} (h : Runs (Skmonitor.step self) Skmonitor.init ls s) : Listed s :=
  h.invariant (fun _ _ _ hlisted hs => hlisted.step hs) Listed.init

/-- Where the walk keeps what it holds and no sock_monitor_del overtakes a callback, the monitor
is safe. -/
theorem entries_run {ls : List (Label ι)}
    (h : Runs (guarded (fun s l => ¬ Endangers s l) (Skmonitor.step self)) Skmonitor.init ls s) : s.Safe := by
  have hinv : Inv s := h.guarded_invariant (fun _ _ _ hi hgood hs => hi.step hgood hs) Inv.init
  exact hinv.safe

end Steps

/-! ## Two sockets -/

/-- Two tasks register a socket each, and select reports both. -/
def reported : List (Label Bool) :=
  [.add (some true) 4 1 0x1000 0 true,.add (some false) 5 1 0x2000 0 true,.semaDown,.fill,
    .select (.ready fun _ _ => true),.work,.start]

/-- The callback of one socket deletes the other. -/
theorem entries_fails : ∃ s, Runs (step 3) init (reported ++ [.del none 4,.delReturn none,.back]) s ∧ ¬ s.Safe := by
  refine Runs.exists_of_exec (fun s => match s.work with
    | .crashed => true
    | _ => false) (v := true) (by decide +kernel) ?_
  intro s _ hwork hsafe
  apply hsafe.alive
  split at hwork
  · assumption
  · cases hwork

/-- Each callback deletes its own socket, and one is registered again. -/
theorem entries_reported : ∃ s, Runs (guarded (fun s l => ¬ Endangers s l) (step 3)) init (reported ++
    [.del none 5,.delReturn none,.add none 5 2 0x3000 0 true,.back,.start,.del none 4,.delReturn none,.back,.finish]) s ∧
    s.log = [.started 4 0,.started 5 1] ∧ s.Safe := by
  refine Runs.exists_of_exec Sys.log (v := [.started 4 0,.started 5 1]) (by decide +kernel) ?_
  intro s hrun hlog
  exact ⟨hlog,entries_run hrun⟩

end FmacSdk.Skmonitor
