import Mathlib.Logic.Basic
import Mathlib.Data.List.Basic

/-! # Runs of a partial labelled step function

A system is a state type, a label type and a step that is defined exactly where
the label is enabled. Runs are recorded with their labels, a guard on steps is
again a step, and every invariant of a system is proved through one rule.
-/
namespace FmacSdk.Transition
variable {S L A B : Type*}

/-- A finite run with its labels in the order in which they were taken. -/
inductive Runs (step : S → L → Option S) : S → List L → S → Prop
  | refl (s : S) : Runs step s [] s
  | tail {s t u : S} {ls : List L} {l : L} :
      Runs step s ls t → step t l = some u → Runs step s (ls ++ [l]) u

/-- The run as a computation, used to evaluate a concrete schedule. -/
def exec (step : S → L → Option S) (s : S) (ls : List L) : Option S := ls.foldlM step s

@[simp] theorem exec_nil (step : S → L → Option S) (s : S) : exec step s [] = some s := rfl

@[simp] theorem exec_cons (step : S → L → Option S) (s : S) (l : L) (ls : List L) :
    exec step s (l :: ls) = (step s l).bind (fun t => exec step t ls) := rfl

theorem exec_append (step : S → L → Option S) (s : S) (ls ms : List L) :
    exec step s (ls ++ ms) = (exec step s ls).bind (fun t => exec step t ms) := by
  simp only [exec, List.foldlM_append]
  rfl

theorem Runs.exec_eq {step : S → L → Option S} {s t : S} {ls : List L}
    (h : Runs step s ls t) : exec step s ls = some t := by
  induction h with
  | refl => rfl
  | tail _ hs ih => simp [exec_append,ih,hs]

theorem Runs.single {step : S → L → Option S} {s t : S} {l : L} (h : step s l = some t) :
    Runs step s [l] t := by
  simpa using (Runs.refl s).tail h

theorem Runs.append {step : S → L → Option S} {s t u : S} {ls ms : List L}
    (h : Runs step s ls t) (h' : Runs step t ms u) : Runs step s (ls ++ ms) u := by
  induction h' with
  | refl => simpa using h
  | tail _ hs ih => simpa [List.append_assoc] using ih.tail hs

theorem Runs.of_exec {step : S → L → Option S} {s t : S} {ls : List L}
    (h : exec step s ls = some t) : Runs step s ls t := by
  induction ls generalizing s with
  | nil =>
    obtain rfl : s = t := by simpa using h
    exact Runs.refl s
  | cons l ls ih =>
    obtain ⟨m,hm,hrest⟩ := Option.bind_eq_some_iff.mp h
    exact (Runs.single hm).append (ih hrest)

/-- A schedule that runs, with what is seen of the state it ends in. -/
theorem Runs.exists_of_exec {step : S → L → Option S} {s : S} {ls : List L} {P : S → Prop} (f : S → A) {v : A}
    (h : (exec step s ls).map f = some v) (hseen : ∀ t, Runs step s ls t → f t = v → P t) :
    ∃ t, Runs step s ls t ∧ P t := by
  obtain ⟨t,ht,hv⟩ := Option.map_eq_some_iff.mp h
  have hrun := Runs.of_exec ht
  exact ⟨t,hrun,hseen t hrun hv⟩

/-- What holds initially and is preserved by every enabled step holds at the
end of every run; runs are closed under prefixes, so it holds all along. -/
theorem Runs.invariant {step : S → L → Option S} {I : S → Prop}
    (hstep : ∀ s l t, I s → step s l = some t → I t) {s t : S} {ls : List L}
    (h : Runs step s ls t) (hs : I s) : I t := by
  induction h with
  | refl => exact hs
  | tail _ he ih => exact hstep _ _ _ ih he

section Guards
variable (G : S → L → Prop) [∀ s l, Decidable (G s l)]

/-- The same system with the steps that fail the guard removed. -/
def guarded (step : S → L → Option S) (s : S) (l : L) : Option S :=
  if G s l then step s l else none

variable {G}

theorem guarded_eq_some {step : S → L → Option S} {s t : S} {l : L} :
    guarded G step s l = some t ↔ G s l ∧ step s l = some t := by
  unfold guarded
  by_cases h : G s l <;> simp [h]

/-- Removing steps removes runs and adds none. -/
theorem Runs.of_guarded {step : S → L → Option S} {s t : S} {ls : List L}
    (h : Runs (guarded G step) s ls t) : Runs step s ls t := by
  induction h with
  | refl => exact Runs.refl _
  | tail _ hs ih => exact ih.tail (guarded_eq_some.mp hs).2

/-- The schedule of a run that the guard lets through. -/
theorem Runs.exists_of_exec_guarded {step : S → L → Option S} {s : S} {ls : List L} {P : S → Prop} (f : S → A) {v : A}
    (h : (exec (guarded G step) s ls).map f = some v)
    (hseen : ∀ t, Runs (guarded G step) s ls t → f t = v → P t) : ∃ t, Runs step s ls t ∧ P t := by
  obtain ⟨t,hrun,ht⟩ := Runs.exists_of_exec f h hseen
  exact ⟨t,hrun.of_guarded,ht⟩

/-- The invariant rule with the guard of every step at hand. -/
theorem Runs.guarded_invariant {step : S → L → Option S} {I : S → Prop}
    (hstep : ∀ s l t, I s → G s l → step s l = some t → I t) {s t : S} {ls : List L}
    (h : Runs (guarded G step) s ls t) (hs : I s) : I t :=
  h.invariant (fun s l t hi he => hstep s l t hi (guarded_eq_some.mp he).1 (guarded_eq_some.mp he).2) hs

/-- Where the guard keeps an invariant and its violation shows in a property,
the runs with the property in every state are the guarded ones. -/
theorem Runs.guarded_iff {step : S → L → Option S} {I P : S → Prop} (hprop : ∀ s, I s → P s)
    (hkeep : ∀ s l t, I s → G s l → step s l = some t → I t)
    (hshow : ∀ s l t, I s → step s l = some t → P t → G s l) {s t : S} {ls : List L} (hs : I s)
    (h : Runs step s ls t) :
    (∀ ms u, ms <+: ls → Runs step s ms u → P u) ↔ Runs (guarded G step) s ls t := by
  constructor
  · intro hall
    induction h with
    | refl => exact Runs.refl _
    | @tail t u ls l hrun hlast ih =>
      have hinit := ih fun ms v hms => hall ms v (hms.trans (List.prefix_append _ _))
      have ht : I t := hinit.guarded_invariant hkeep hs
      have hu : P u := hall _ u (List.prefix_refl _) (hrun.tail hlast)
      exact hinit.tail (guarded_eq_some.mpr ⟨hshow t l u ht hlast hu,hlast⟩)
  · intro hguarded ms u hms hrun
    rcases hms with ⟨post,rfl⟩
    have hexec := hguarded.exec_eq
    rw [exec_append] at hexec
    obtain ⟨v,hv,_⟩ := Option.bind_eq_some_iff.mp hexec
    have hpre : Runs (guarded G step) s ms v := Runs.of_exec hv
    obtain rfl : u = v := by
      have := hrun.exec_eq.symm.trans hpre.of_guarded.exec_eq
      simpa using this
    exact hprop u (hpre.guarded_invariant hkeep hs)

/-- Where a property of the single steps is the guard, the runs all of whose
steps have it are the guarded ones. -/
theorem Runs.guarded_iff_steps {step : S → L → Option S} {I : S → Prop} {Q : S → L → Prop}
    (hkeep : ∀ s l t, I s → G s l → step s l = some t → I t) (hstep : ∀ s l, I s → (Q s l ↔ G s l))
    {s t : S} {ls : List L} (hs : I s) (h : Runs step s ls t) :
    (∀ ms l u, ms ++ [l] <+: ls → Runs step s ms u → Q u l) ↔ Runs (guarded G step) s ls t := by
  induction h with
  | refl =>
    refine iff_of_true (fun ms l u hms => ?_) (Runs.refl _)
    simpa using hms.length_le
  | @tail t u ls l hrun hlast ih =>
    constructor
    · intro hall
      have hinit := ih.mp fun ms m v hms => hall ms m v (hms.trans (List.prefix_append _ _))
      have hlabel := hall ls l t (List.prefix_refl _) hrun
      exact hinit.tail (guarded_eq_some.mpr
        ⟨(hstep t l (hinit.guarded_invariant hkeep hs)).mp hlabel,hlast⟩)
    · intro hguarded ms m v hms hv
      have hexec := hguarded.exec_eq
      rw [exec_append] at hexec
      obtain ⟨t',ht',hl⟩ := Option.bind_eq_some_iff.mp hexec
      have hinit : Runs (guarded G step) s ls t' := Runs.of_exec ht'
      obtain rfl : t = t' := by
        have := hrun.exec_eq.symm.trans hinit.of_guarded.exec_eq
        simpa using this
      rcases List.prefix_concat_iff.mp hms with heq | hms
      · obtain ⟨rfl,hm⟩ := List.append_inj' heq rfl
        obtain rfl : m = l := by simpa using hm
        obtain rfl : v = t := by
          have := hv.exec_eq.symm.trans hrun.exec_eq
          simpa using this
        have hg : (guarded G step v m).isSome := by
          cases hgv : guarded G step v m with
          | none => simp [hgv] at hl
          | some x => rfl
        obtain ⟨x,hx⟩ := Option.isSome_iff_exists.mp hg
        exact (hstep v m (hinit.guarded_invariant hkeep hs)).mpr (guarded_eq_some.mp hx).1
      · exact ih.mpr hinit ms m v hms hv

end Guards

end FmacSdk.Transition
