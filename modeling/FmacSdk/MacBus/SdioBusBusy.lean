import FmacSdk.MacBus.SdioBus

/-! # The busy mirror of the SDIO bus

`ready` and `pending` share a byte. A transmit error clears `ready` in task
context by loading the byte and storing it back, so that a receive interrupt
in between loses its `pending`. The mirror of the busy register holds in
exactly the runs in which every such store writes back the current `pending`.
-/
namespace FmacSdk.SdioBus
open Transition MacBus

/-- ALIGN of typesdef.h -/
def align (s a : ℕ) : ℕ := (s + a - 1) / a * a

/-- The transfer that a transmit function has handed to the device. -/
inductive Transfer
  | write (len : ℕ)
  | writeScatter (count : ℕ)
deriving DecidableEq, Repr

/-- A task in a transmit function. In `failed` the transfer returned the error
`ret`, in `stores` the shared byte has been loaded and `pending` is its bit. -/
inductive WriterPc
  | returned (ret : ℤ)
  | transfers (job : Transfer)
  | failed (ret : ℤ)
  | stores (ret : ℤ) (pending : Bool)
deriving DecidableEq, Repr

/-- The receive side together with any number of transmitting tasks. -/
structure Shared where
  sys : System
  writers : ℕ → WriterPc

def idle : Shared := ⟨start,fun _ => .returned RET_OK⟩

inductive SharedAct
  | receive (a : Act)
  | write (i len : ℕ)
  | writeScatter (i count : ℕ)
  | done (i : ℕ) (ret : ℤ)
  | load (i : ℕ)
  | store (i : ℕ)
deriving DecidableEq, Repr

def Shared.setWriter (s : Shared) (i : ℕ) (pc : WriterPc) : Shared :=
  { s with writers := Function.update s.writers i pc }

def Shared.txError (s : Shared) : Shared :=
  { s with sys := { s.sys with bus := { s.sys.bus with txerr := s.sys.bus.txerr + 1 } } }

/-- The common first part of the transmit functions: a bus that is not ready
refuses the transfer. -/
def beginTransfer (s : Shared) (i : ℕ) (job : Transfer) : Option Shared :=
  match s.writers i with
  | .returned _ =>
    if s.sys.bus.ready then some (s.setWriter i (.transfers job))
    else some (s.txError.setWriter i (.returned RET_ERR))
  | _ => none

/-- sdio_bus_write -/
def sdioBusWrite (s : Shared) (i len : ℕ) : Option Shared := beginTransfer s i (.write (align len 4))

/-- sdio_bus_write_scatter -/
def sdioBusWriteScatter (s : Shared) (i count : ℕ) : Option Shared :=
  beginTransfer s i (.writeScatter count)

/-- `bus.txerr++` and then `ready = 0` as a load and a store of the byte. -/
def sharedStep (s : Shared) : SharedAct → Option Shared
  | .receive a => (step s.sys a).map fun t => { s with sys := t }
  | .write i len => sdioBusWrite s i len
  | .writeScatter i count => sdioBusWriteScatter s i count
  | .done i ret =>
    match s.writers i with
    | .transfers _ =>
      if ret ≠ 0 then some (s.txError.setWriter i (.failed ret))
      else some (s.setWriter i (.returned ret))
    | _ => none
  | .load i =>
    match s.writers i with
    | .failed ret => some (s.setWriter i (.stores ret s.sys.bus.pending))
    | _ => none
  | .store i =>
    match s.writers i with
    | .stores ret pending =>
      let bus := { s.sys.bus with ready := false, pending := pending }
      some ({ s with sys := { s.sys with bus := bus } }.setWriter i (.returned ret))
    | _ => none

/-- The busy register holds what `pending` remembers. -/
def Mirror (s : Shared) : Prop := s.sys.bus.userReg1 = s.sys.bus.pending

/-- The bit that the writer has loaded and is about to store. -/
def WriterPc.loaded : WriterPc → Option Bool
  | .stores _ pending => some pending
  | _ => none

/-- A store of the shared byte writes back the `pending` that is there. -/
def Kept (s : Shared) : SharedAct → Prop
  | .store i => ∀ pending ∈ (s.writers i).loaded, pending = s.sys.bus.pending
  | _ => True

instance (s : Shared) : ∀ a, Decidable (Kept s a)
  | .store i => inferInstanceAs (Decidable (∀ pending ∈ (s.writers i).loaded, _))
  | .receive _ => isTrue trivial
  | .write _ _ => isTrue trivial
  | .writeScatter _ _ => isTrue trivial
  | .done _ _ => isTrue trivial
  | .load _ => isTrue trivial

theorem irqRx_mirror (s : MacBusSdio) (f : Frame) : (irqRx s f).userReg1 = (irqRx s f).pending := by
  by_cases h : s.rxCnt (!s.curId) = 0
  · rw [irqRx_move h]
  · rw [irqRx_stay h]

theorem finishLoop_mirror {s : MacBusSdio} (h : s.userReg1 = s.pending) :
    (finishLoop s).userReg1 = (finishLoop s).pending := by
  unfold finishLoop updateRxbuff
  by_cases hpend : s.pending = true
  · by_cases hother : s.rxCnt (!s.curId) = 0
    · simp [hpend,hother,setBusy,sdioSlaveRead]
    · simpa [hpend,hother] using h
  · simpa [hpend] using h

/-- The receive side writes `pending` and the busy register together. -/
theorem step_mirror {s t : System} {a : Act} (h : s.bus.userReg1 = s.bus.pending)
    (ht : step s a = some t) : t.bus.userReg1 = t.bus.pending := by
  cases a with
  | irqRx data =>
    cases ht
    exact irqRx_mirror _ _
  | irqReset =>
    cases ht
    rfl
  | ioctl cmd =>
    cases ht
    unfold ioctl
    split <;> exact h
  | task =>
    simp only [step,taskStep] at ht
    split at ht
    · split at ht
      · cases ht
        exact h
      · cases ht
    · cases ht
      exact h
    · cases ht
      exact h
    · cases ht
      exact h
    · cases ht
    · cases ht
      exact h
    · cases ht
      exact finishLoop_mirror h
  | reply ret =>
    simp only [step,replyStep] at ht
    split at ht
    · split at ht <;> cases ht <;> exact h
    · cases ht

/-- A transmit function touches neither bit before its store. -/
theorem beginTransfer_mirror {s t : Shared} {i : ℕ} {job : Transfer} (h : Mirror s)
    (ht : beginTransfer s i job = some t) : Mirror t := by
  unfold beginTransfer at ht
  split at ht
  · split at ht <;> cases ht <;> exact h
  · cases ht

theorem sharedStep_mirror_iff {s t : Shared} {a : SharedAct} (h : Mirror s)
    (ht : sharedStep s a = some t) : Mirror t ↔ Kept s a := by
  cases a with
  | receive a =>
    obtain ⟨u,hu,rfl⟩ := Option.map_eq_some_iff.mp ht
    exact iff_of_true (step_mirror h hu) trivial
  | write i len => exact iff_of_true (beginTransfer_mirror h ht) trivial
  | writeScatter i count => exact iff_of_true (beginTransfer_mirror h ht) trivial
  | done i ret =>
    simp only [sharedStep] at ht
    split at ht
    · split at ht <;> cases ht <;> exact iff_of_true h trivial
    · cases ht
  | load i =>
    simp only [sharedStep] at ht
    split at ht
    · cases ht
      exact iff_of_true h trivial
    · cases ht
  | store i =>
    simp only [sharedStep] at ht
    split at ht
    · next ret pending hw =>
      cases ht
      have hkept : Kept s (.store i) ↔ pending = s.sys.bus.pending := by
        simp [Kept,hw,WriterPc.loaded]
      rw [hkept]
      simp only [Mirror,Shared.setWriter] at h ⊢
      rw [h]
      exact eq_comm
    · cases ht

/-- In every run the mirror holds all along exactly if each store of the shared
byte finds the `pending` that it writes back. -/
theorem mirror_iff_kept (acts : List SharedAct) (s : Shared) (h : Runs sharedStep idle acts s) :
    (∀ pre u, pre <+: acts → Runs sharedStep idle pre u → Mirror u) ↔
      Runs (guarded Kept sharedStep) idle acts s :=
  h.guarded_iff (fun _ hm => hm) (fun _ _ _ hm hk ht => (sharedStep_mirror_iff hm ht).mpr hk)
    (fun _ _ _ hm ht => (sharedStep_mirror_iff hm ht).mp) rfl

/-- A transfer fails while a second frame has the host blocked, and the error
path keeps the bit. -/
theorem mirror_iff_kept_blocked : ∃ s, Runs sharedStep idle
    [.receive (.irqRx [1]),.receive (.irqRx [2]),.write 0 64,.done 0 (-1),.load 0,.store 0] s ∧
    s.sys.bus.pending = true ∧ Mirror s := by
  refine Runs.exists_of_exec_guarded (G := Kept) (fun s => s.sys.bus.pending) (v := true) rfl ?_
  intro s hguarded hpend
  have hrun := hguarded.of_guarded
  exact ⟨hpend,(mirror_iff_kept _ s hrun).mpr hguarded _ s (List.prefix_refl _) hrun⟩

/-- A transfer fails, and between the load and the store of its error path a
second frame blocks the host. The task then answers both frames and waits, with
the busy register still set. -/
theorem lost_pending : ∃ s, Runs sharedStep idle
    ([.receive (.irqRx [1]),.write 0 64,.done 0 (-1),.load 0,.receive (.irqRx [2]),.store 0] ++
      ([.task,.task,.task,.reply 0,.task,.task,.reply 0,.task,.task,
        .task,.task,.task,.task,.task].map SharedAct.receive)) s ∧
    s.sys.bus.userReg1 = true ∧ s.sys.bus.pending = false ∧ s.sys.cleared = s.sys.arrived ∧
    s.sys.task = .down ∧ s.sys.bus.rxsema = 0 ∧ ¬ Mirror s := by
  refine Runs.exists_of_exec (fun s => decide (s.sys.bus.userReg1 = true ∧ s.sys.bus.pending = false ∧
    s.sys.cleared = s.sys.arrived ∧ s.sys.task = .down ∧ s.sys.bus.rxsema = 0)) (v := true) rfl ?_
  intro s _ hend
  obtain ⟨hreg,hpend,hcleared,hdown,hsema⟩ := of_decide_eq_true hend
  refine ⟨hreg,hpend,hcleared,hdown,hsema,?_⟩
  simp [Mirror,hreg,hpend]

end FmacSdk.SdioBus
