import Mathlib.Data.List.Basic
import Mathlib.Data.List.Induction

/-! # One-shot timers

A log of starts, drops, counts and calls. Replaying it keeps what is still owed:
nothing, a call after some more counts, or a call that is due. A log that can be
replayed has a call only behind its start and at least a period of counts, with
nothing else in between.
-/
namespace FmacSdk.OneShot

inductive Event
  | start (n p : ℕ)
  | drop
  | count
  | call (n : ℕ)
deriving DecidableEq, Repr

/-- What a timer owes. -/
inductive Debt
  | none
  | armed (n k : ℕ)
  | due (n : ℕ)
deriving DecidableEq, Repr

/-- Owing the call of `n` after `k` more counts. -/
def owe (n k : ℕ) : Debt := if k = 0 then .due n else .armed n k

def Debt.step : Debt → Event → Option Debt
  | _, .start n p => some (owe n p)
  | _, .drop => some .none
  | .armed n k, .count => some (owe n (k - 1))
  | d, .count => some d
  | .due n, .call m => if m = n then some .none else Option.none
  | _, .call _ => Option.none

def replay (d : Debt) (log : List Event) : Option Debt := log.foldlM Debt.step d

theorem replay_append (d : Debt) (log post : List Event) :
    replay d (log ++ post) = (replay d log).bind fun d' => replay d' post := by
  simp only [replay,List.foldlM_append]
  rfl

theorem replay_concat {d d' : Debt} {log : List Event} (h : replay d log = some d') (e : Event) :
    replay d (log ++ [e]) = d'.step e := by
  rw [replay_append,h]
  simp [replay]

/-- A start with `m` counts behind it and nothing else. -/
def Started (log : List Event) (n p m : ℕ) : Prop :=
  ∃ pre, log = pre ++ .start n p :: List.replicate m .count

theorem Started.count {log : List Event} {n p m : ℕ} (h : Started log n p m) :
    Started (log ++ [.count]) n p (m + 1) := by
  obtain ⟨pre,rfl⟩ := h
  exact ⟨pre,by simp [List.replicate_succ']⟩

/-- What is owed comes from the start that ends the log but for counts. -/
def Debt.From (log : List Event) : Debt → Prop
  | .none => True
  | .armed n k => 0 < k ∧ ∃ p m, Started log n p m ∧ m + k = p
  | .due n => ∃ p m, Started log n p m ∧ p ≤ m

theorem owe_from {log : List Event} {n p m k : ℕ} (h : Started log n p m) (hk : m + k = p) :
    (owe n k).From log := by
  unfold owe
  split
  · exact ⟨p,m,h,by omega⟩
  · exact ⟨by omega,p,m,h,hk⟩

theorem step_from {d d' : Debt} {log : List Event} {e : Event} (h : d.From log)
    (hstep : d.step e = some d') : d'.From (log ++ [e]) := by
  cases e with
  | start n p =>
    obtain rfl : owe n p = d' := by cases d <;> simpa [Debt.step] using hstep
    exact owe_from ⟨log,rfl⟩ (Nat.zero_add p)
  | drop =>
    obtain rfl : Debt.none = d' := by cases d <;> simpa [Debt.step] using hstep
    trivial
  | count =>
    cases d with
    | none =>
      obtain rfl : Debt.none = d' := by simpa [Debt.step] using hstep
      trivial
    | armed n k =>
      obtain rfl : owe n (k - 1) = d' := by simpa [Debt.step] using hstep
      obtain ⟨hk,p,m,hs,hsum⟩ := h
      exact owe_from hs.count (by omega)
    | due n =>
      obtain rfl : Debt.due n = d' := by simpa [Debt.step] using hstep
      obtain ⟨p,m,hs,hle⟩ := h
      exact ⟨p,m + 1,hs.count,by omega⟩
  | call n =>
    cases d with
    | none | armed => simp [Debt.step] at hstep
    | due m =>
      obtain ⟨-,rfl⟩ : n = m ∧ Debt.none = d' := by simpa [Debt.step] using hstep
      trivial

theorem replay_from {log : List Event} {d : Debt} (h : replay .none log = some d) : d.From log := by
  induction log using List.reverseRecOn generalizing d with
  | nil =>
    obtain rfl : Debt.none = d := by simpa [replay] using h
    trivial
  | append_singleton log e ih =>
    rw [replay_append] at h
    obtain ⟨d₀,h₀,he⟩ := Option.bind_eq_some_iff.mp h
    exact step_from (ih h₀) (by simpa [replay] using he)

/-- Every call is behind its start and at least a period of counts. -/
theorem call_started {log pre post : List Event} {n : ℕ} (h : (replay .none log).isSome)
    (hlog : log = pre ++ .call n :: post) : ∃ p m, Started pre n p m ∧ p ≤ m := by
  obtain ⟨d,hd⟩ := Option.isSome_iff_exists.mp h
  rw [hlog,replay_append] at hd
  obtain ⟨d₀,h₀,hrest⟩ := Option.bind_eq_some_iff.mp hd
  obtain ⟨d₁,h₁,-⟩ := Option.bind_eq_some_iff.mp (show (d₀.step (.call n)).bind _ = _ from hrest)
  have hfrom := replay_from h₀
  cases d₀ with
  | none | armed => simp [Debt.step] at h₁
  | due m =>
    obtain ⟨rfl,-⟩ : n = m ∧ Debt.none = d₁ := by simpa [Debt.step] using h₁
    exact hfrom

theorem owe_count (n k : ℕ) : (owe n k).step .count = some (owe n (k - 1)) := by
  cases k with
  | zero => rfl
  | succ k => simp [owe,Debt.step]

theorem replay_counts (n k m : ℕ) :
    replay (owe n k) (List.replicate m .count) = some (owe n (k - m)) := by
  induction m with
  | zero => rfl
  | succ m ih => rw [List.replicate_succ',replay_concat ih,owe_count,Nat.sub_sub]

/-- What a start with counts behind it still owes. -/
theorem replay_started {log : List Event} {n p m : ℕ} (h : (replay .none log).isSome)
    (hs : Started log n p m) : replay .none log = some (owe n (p - m)) := by
  obtain ⟨pre,rfl⟩ := hs
  obtain ⟨d,hd⟩ := Option.isSome_iff_exists.mp h
  rw [replay_append] at hd ⊢
  obtain ⟨d₀,h₀,-⟩ := Option.bind_eq_some_iff.mp hd
  have hstart : d₀.step (.start n p) = some (owe n p) := by cases d₀ <;> rfl
  rw [h₀]
  show (d₀.step (.start n p)).bind (fun d => replay d (List.replicate m .count)) = _
  rw [hstart]
  exact replay_counts n p m

end FmacSdk.OneShot
