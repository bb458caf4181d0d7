import Mathlib.Data.List.Basic

/-! # Machines that answer every request

A machine takes a request to a next state and a reply. Two machines agree on
every sequence of requests where a relation of their states is kept by each
request and forces equal replies; what a relation keeps holds after the whole
sequence.
-/
namespace FmacSdk.Lockstep
variable {S T O R : Type*}

/-- The replies to a sequence of requests. -/
def replies (step : S → O → S × R) (s : S) : List O → List R
  | [] => []
  | o :: os => (step s o).2 :: replies step (step s o).1 os

/-- The state after a sequence of requests. -/
def after (step : S → O → S × R) (s : S) (os : List O) : S := os.foldl (fun s o => (step s o).1) s

@[simp] theorem after_nil (step : S → O → S × R) (s : S) : after step s [] = s := rfl

@[simp] theorem after_cons (step : S → O → S × R) (s : S) (o : O) (os : List O) :
    after step s (o :: os) = after step (step s o).1 os := rfl

variable {step : S → O → S × R} {step' : T → O → T × R} {rel : S → T → Prop}

/-- A relation kept by each request is kept by a sequence of them. -/
theorem after_rel (hstep : ∀ s t o, rel s t → rel (step s o).1 (step' t o).1) {s : S} {t : T}
    (h : rel s t) (os : List O) : rel (after step s os) (after step' t os) := by
  induction os generalizing s t with
  | nil => exact h
  | cons o os ih => exact ih (hstep s t o h)

/-- Machines in a relation that forces equal replies are not told apart. -/
theorem replies_eq
    (hstep : ∀ s t o, rel s t → (step s o).2 = (step' t o).2 ∧ rel (step s o).1 (step' t o).1)
    {s : S} {t : T} (h : rel s t) (os : List O) : replies step s os = replies step' t os := by
  induction os generalizing s t with
  | nil => rfl
  | cons o os ih =>
    obtain ⟨hreply,hnext⟩ := hstep s t o h
    rw [replies,replies,hreply,ih hnext]

end FmacSdk.Lockstep
