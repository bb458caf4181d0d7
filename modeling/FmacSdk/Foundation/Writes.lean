import Mathlib.Data.List.Basic
import Mathlib.Data.Option.Basic
import Mathlib.Logic.Function.Basic

/-! # Logs of writes to a keyed store

A log is a list of writes, oldest first, and the store holds the last write of
every key. A second log is settled behind a first one when replaying it changes
no key, which is a comparison on the keys that the second log writes. Where both
logs grow, only the keys whose last write moved have to be compared again.
-/
namespace FmacSdk.Writes
variable {K V : Type*} [DecidableEq K]

def lastWrite : List (K × V) → K → Option V
  | [], _ => none
  | w :: ws, k => (lastWrite ws k).or (if w.1 = k then some w.2 else none)

@[simp] theorem lastWrite_nil (k : K) : lastWrite ([] : List (K × V)) k = none := rfl

@[simp] theorem lastWrite_cons (w : K × V) (ws : List (K × V)) (k : K) :
    lastWrite (w :: ws) k = (lastWrite ws k).or (if w.1 = k then some w.2 else none) := rfl

@[simp] theorem lastWrite_append (ws ws' : List (K × V)) (k : K) :
    lastWrite (ws ++ ws') k = (lastWrite ws' k).or (lastWrite ws k) := by
  induction ws with
  | nil => simp
  | cons w ws ih => simp [ih,Option.or_assoc]

theorem lastWrite_ite (p : Prop) [Decidable p] (ws ws' : List (K × V)) (k : K) :
    lastWrite (if p then ws else ws') k = if p then lastWrite ws k else lastWrite ws' k :=
  apply_ite (fun ws => lastWrite ws k) p ws ws'

theorem lastWrite_eq_none {ws : List (K × V)} {k : K} (h : k ∉ ws.map Prod.fst) :
    lastWrite ws k = none := by
  induction ws with
  | nil => rfl
  | cons w ws ih =>
    simp only [List.map_cons,List.mem_cons,not_or] at h
    simp [ih h.2,Ne.symm h.1]

/-- What a key holds was written to it. -/
theorem lastWrite_mem {ws : List (K × V)} {k : K} {v : V} (h : lastWrite ws k = some v) :
    (k,v) ∈ ws := by
  induction ws with
  | nil => simp at h
  | cons w ws ih =>
    rw [lastWrite_cons,Option.or_eq_some_iff] at h
    rcases h with h | ⟨-,h⟩
    · exact List.mem_cons_of_mem _ (ih h)
    · split at h
      · next hk =>
        obtain rfl := Option.some.inj h
        exact hk ▸ List.mem_cons_self
      · simp at h

/-- Renaming the keys by an injection moves the last writes with them. -/
theorem lastWrite_map {K' : Type*} [DecidableEq K'] {f : K → K'} (hf : f.Injective)
    (ws : List (K × V)) (k : K) :
    lastWrite (ws.map fun w => (f w.1,w.2)) (f k) = lastWrite ws k := by
  induction ws with
  | nil => rfl
  | cons w ws ih => simp [ih,hf.eq_iff]

omit [DecidableEq K] in
theorem lastWrite_map_of_ne {K' : Type*} [DecidableEq K'] {f : K → K'} {k' : K'}
    (h : ∀ k, f k ≠ k') (ws : List (K × V)) :
    lastWrite (ws.map fun w => (f w.1,w.2)) k' = none := by
  apply lastWrite_eq_none
  simp only [List.map_map,List.mem_map,Function.comp_apply]
  rintro ⟨w,-,hw⟩
  exact h w.1 hw

/-- Replaying `ws` behind `log` changes no key. -/
def Settled (log ws : List (K × V)) : Prop := lastWrite (log ++ ws) = lastWrite log

theorem settled_iff {log ws : List (K × V)} :
    Settled log ws ↔ ∀ k v, lastWrite ws k = some v → lastWrite log k = some v := by
  constructor
  · intro h k v hv
    have hk : lastWrite (log ++ ws) k = lastWrite log k := congrFun h k
    rw [← hk,lastWrite_append,hv]
    rfl
  · intro h
    funext k
    rw [lastWrite_append]
    cases hv : lastWrite ws k with
    | none => rfl
    | some v => exact (h k v hv).symm

/-- Replaying once more changes nothing. -/
theorem settled_append_self (log ws : List (K × V)) : Settled (log ++ ws) ws := by
  rw [settled_iff]
  intro k v hv
  rw [lastWrite_append,hv,Option.some_or]

/-- The footprint rule: outside of `S` neither the pushes nor the new log moved
a key, so only the keys of `S` are compared. -/
theorem settled_append_iff_on {log ws ps ws' : List (K × V)} (S : K → Prop)
    (h : Settled log ws) (hws : ∀ k, ¬ S k → lastWrite ws' k = lastWrite ws k)
    (hps : ∀ k, ¬ S k → lastWrite ps k = none) :
    Settled (log ++ ps) ws' ↔
      ∀ k, S k → ∀ v, lastWrite ws' k = some v →
        (lastWrite ps k).or (lastWrite log k) = some v := by
  simp only [settled_iff,lastWrite_append]
  constructor
  · intro hall k _ v hv
    exact hall k v hv
  · intro hon k v hv
    by_cases hk : S k
    · exact hon k hk v hv
    · rw [hps k hk,Option.none_or]
      exact settled_iff.mp h k v ((hws k hk) ▸ hv)

end FmacSdk.Writes
