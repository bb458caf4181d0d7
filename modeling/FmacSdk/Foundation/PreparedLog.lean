import Mathlib.Data.List.Basic
import Mathlib.Data.List.Infix

/-! # Logs whose events are prepared

Some entries of a log are events that carry a key, and an event is prepared if
the entries that belong to its key stand in the log in one piece before it.
Entries that are no events may be appended at any time.
-/
namespace FmacSdk.PreparedLog
variable {A K : Type*}

/-- Every event of the log is preceded by the preparation of its key. -/
def Prepared (event : A → Option K) (prep : K → List A) (log : List A) : Prop :=
  ∀ pre a post k, log = pre ++ a :: post → event a = some k → prep k <:+: pre

variable {event : A → Option K} {prep : K → List A} {log : List A}

theorem Prepared.nil : Prepared event prep [] := by
  intro pre a post k h
  simp at h

theorem Prepared.append_quiet (h : Prepared event prep log) {quiet : List A}
    (hq : ∀ a ∈ quiet, event a = none) : Prepared event prep (log ++ quiet) := by
  intro pre a post k hsplit hevent
  rcases List.append_eq_append_iff.mp hsplit with ⟨mid,rfl,hmid⟩ | ⟨mid,hpre,hmid⟩
  · have := hq a (by simp [hmid])
    simp [this] at hevent
  · cases mid with
    | nil =>
      rw [List.nil_append] at hmid
      have := hq a (by simp [← hmid])
      simp [this] at hevent
    | cons b mid =>
      obtain ⟨rfl,-⟩ := List.cons_eq_cons.mp hmid
      exact h pre a mid k hpre hevent

/-- An event may follow once its preparation is in the log. -/
theorem Prepared.append_event (h : Prepared event prep log) {a : A}
    (ha : ∀ k, event a = some k → prep k <:+: log) : Prepared event prep (log ++ [a]) := by
  intro pre b post k hsplit hevent
  rcases List.append_eq_append_iff.mp hsplit with ⟨mid,rfl,hmid⟩ | ⟨mid,hpre,hmid⟩
  · cases mid with
    | nil =>
      obtain ⟨rfl,-⟩ := List.cons_eq_cons.mp hmid
      simpa using ha k hevent
    | cons c mid => simp at hmid
  · cases mid with
    | nil =>
      obtain ⟨rfl,-⟩ := List.cons_eq_cons.mp hmid
      simpa [hpre] using ha k hevent
    | cons c mid =>
      obtain ⟨rfl,-⟩ := List.cons_eq_cons.mp hmid
      exact h pre b mid k hpre hevent

end FmacSdk.PreparedLog
