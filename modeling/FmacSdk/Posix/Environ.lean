import FmacSdk.Foundation.Slots
import FmacSdk.Foundation.Transition
import Mathlib.Data.Int.Order.Basic
import Mathlib.Data.List.AList

/-! # Environment variables

getenv, setenv and unsetenv keep pointers to names and values in a table, and
compare the pointers. The buffers that they point to belong to the callers.
-/
namespace FmacSdk.Environ
open Slots Transition

def ENV_MAX_CNT : ℕ := 8

abbrev Slot := Fin ENV_MAX_CNT
abbrev Bytes := List UInt8

/-- The address of a buffer; a pointer that may be NULL is an option. -/
abbrev Ptr := ℕ

/-- _env_list_ -/
structure EnvList where
  name : Slot → Option Ptr
  value : Slot → Option Ptr

def getenv (e : EnvList) (name : Ptr) : Option Ptr :=
  match firstSlot fun i => e.name i = some name with
  | some i => e.value i
  | none => none

def setenv (e : EnvList) (name value : Ptr) (overwrite : ℤ) : EnvList × ℤ :=
  match firstSlot fun i => e.name i = some name with
  | some i =>
    if overwrite ≠ 0 ∨ e.value i = none then ({ e with value := Function.update e.value i (some value) },0)
    else (e,-1)
  | none =>
    match firstSlot fun j => e.name j = none with
    | some j => (⟨Function.update e.name j (some name),Function.update e.value j (some value)⟩,0)
    | none => (e,-1)

def unsetenv (e : EnvList) (name : Ptr) : EnvList × ℤ :=
  match firstSlot fun i => e.name i = some name with
  | some i => (⟨Function.update e.name i none,Function.update e.value i none⟩,0)
  | none => (e,0)

/-- Names with their values, as strings. -/
abbrev Vars := AList fun _ : Bytes => Bytes

/-- A new name takes effect while there is room. -/
def Vars.setenv (e : Vars) (name value : Bytes) (overwrite : ℤ) : Vars × ℤ :=
  if name ∈ e then (if overwrite ≠ 0 then e.insert name value else e,0)
  else if e.keys.length < ENV_MAX_CNT then (e.insert name value,0)
  else (e,-1)

/-- With the string in each buffer, and the variables that the calls made. -/
structure Sys where
  list : EnvList
  mem : Ptr → Bytes
  vars : Vars

/-- The program writes a string to a buffer, or calls. -/
inductive Label
  | write (p : Ptr) (str : Bytes)
  | get (name : Ptr)
  | set (name value : Ptr) (overwrite : ℤ)
  | unset (name : Ptr)

def step (s : Sys) : Label → Option Sys
  | .write p str => some { s with mem := Function.update s.mem p str }
  | .get _ => some s
  | .set name value overwrite => some { s with
    list := (setenv s.list name value overwrite).1
    vars := (s.vars.setenv (s.mem name) (s.mem value) overwrite).1 }
  | .unset name => some { s with
    list := (unsetenv s.list name).1
    vars := s.vars.erase (s.mem name) }

def booted (mem : Ptr → Bytes) : Sys := ⟨⟨fun _ => none,fun _ => none⟩,mem,∅⟩

def Sys.nameAt (s : Sys) (i : Slot) : Option Bytes := (s.list.name i).map s.mem

def Sys.valueAt (s : Sys) (i : Slot) : Option Bytes := (s.list.value i).map s.mem

/-- The strings of the table are the variables. -/
structure Sys.Holds (s : Sys) : Prop where
  distinct : Distinct none s.nameAt
  reads : ∀ n v, s.vars.lookup n = some v ↔ ∃ i, s.nameAt i = some n ∧ s.valueAt i = some v

/-- The call returns what the variables say. -/
def Answers (s : Sys) : Label → Prop
  | .get name => (getenv s.list name).map s.mem = s.vars.lookup (s.mem name)
  | .set name value overwrite =>
    (setenv s.list name value overwrite).2 = (s.vars.setenv (s.mem name) (s.mem value) overwrite).2
  | .write .. | .unset _ => True

/-- The environment is a map of strings: in the call and after it. -/
def Maps (s : Sys) (l : Label) : Prop := Answers s l ∧ ∀ t, step s l = some t → t.Holds

/-- A name that is set comes from another buffer, or is not to be overwritten, or the string
in a buffer that the table points to changes. -/
def Misnames (s : Sys) : Label → Prop
  | .write p str => s.mem p ≠ str ∧ ∃ i, s.list.name i = some p ∨ s.list.value i = some p
  | .get name | .unset name => ∃ i, s.nameAt i = some (s.mem name) ∧ s.list.name i ≠ some name
  | .set name _ overwrite => ∃ i, s.nameAt i = some (s.mem name) ∧ (s.list.name i ≠ some name ∨ overwrite = 0)

instance (s : Sys) (l : Label) : Decidable (Misnames s l) := by
  unfold Misnames
  split <;> infer_instance

structure Inv (s : Sys) : Prop extends s.Holds where
  valued : ∀ i, s.list.name i = none ↔ s.list.value i = none

theorem Inv.booted (mem : Ptr → Bytes) : Inv (booted mem) := by
  refine ⟨⟨fun i j _ hi => absurd rfl hi,fun n v => ?_⟩,fun _ => Iff.rfl⟩
  simp [Environ.booted,Sys.nameAt]

section Steps
variable {s : Sys} {i j : Slot} {p q name value : Ptr} {n v : Bytes} {overwrite : ℤ}

theorem nameAt_of_name (h : s.list.name i = some p) : s.nameAt i = some (s.mem p) := by
  rw [Sys.nameAt,h,Option.map_some]

theorem Sys.Holds.slot_eq (h : s.Holds) (hi : s.nameAt i = some n) (hj : s.nameAt j = some n) : i = j :=
  h.distinct i j (hi.trans hj.symm) (by simp [hi])

/-- The slot with the buffer of the name. -/
theorem Sys.Holds.find_some (h : s.Holds) (hi : s.list.name i = some p) :
    firstSlot (fun j => s.list.name j = some p) = some i := by
  cases hfound : firstSlot fun j => s.list.name j = some p with
  | none => simpa [hi] using firstSlot_none hfound i
  | some j =>
    have hj : s.list.name j = some p := of_decide_eq_true (firstSlot_some hfound)
    rw [h.slot_eq (nameAt_of_name hi) (nameAt_of_name hj)]

theorem find_none (h : ∀ i, s.list.name i ≠ some p) : firstSlot (fun j => s.list.name j = some p) = none := by
  cases hfound : firstSlot fun j => s.list.name j = some p with
  | none => rfl
  | some j => exact absurd (of_decide_eq_true (firstSlot_some hfound)) (h j)

/-- No slot has the buffer where another slot has the name. -/
theorem Sys.Holds.other (h : s.Holds) (hi : s.nameAt i = some (s.mem p)) (hp : s.list.name i ≠ some p) (j : Slot) :
    s.list.name j ≠ some p := by
  intro hj
  obtain rfl := h.slot_eq hi (nameAt_of_name hj)
  exact hp hj

/-- No slot has the buffer where none has the name. -/
theorem absent (h : ∀ i, s.nameAt i ≠ some (s.mem p)) (i : Slot) : s.list.name i ≠ some p :=
  fun hi => h i (nameAt_of_name hi)

theorem Inv.valueAt (h : Inv s) (hi : s.nameAt i = some n) : ∃ v, s.valueAt i = some v := by
  have hname : s.list.name i ≠ none := by
    intro hnone
    simp [Sys.nameAt,hnone] at hi
  obtain ⟨p,hp⟩ := Option.ne_none_iff_exists'.mp ((h.valued i).not.mp hname)
  exact ⟨s.mem p,by rw [Sys.valueAt,hp,Option.map_some]⟩

theorem Inv.mem_vars_iff (h : Inv s) : n ∈ s.vars ↔ ∃ i, s.nameAt i = some n := by
  rw [← AList.lookup_isSome,Option.isSome_iff_exists]
  constructor
  · rintro ⟨v,hv⟩
    obtain ⟨i,hi,-⟩ := (h.reads n v).mp hv
    exact ⟨i,hi⟩
  · rintro ⟨i,hi⟩
    obtain ⟨v,hv⟩ := h.valueAt hi
    exact ⟨v,(h.reads n v).mpr ⟨i,hi,hv⟩⟩

theorem Inv.lookup (h : Inv s) (hi : s.nameAt i = some n) : s.vars.lookup n = s.valueAt i := by
  obtain ⟨v,hv⟩ := h.valueAt hi
  rw [hv]
  exact (h.reads n v).mpr ⟨i,hi,hv⟩

theorem Inv.lookup_none (h : Inv s) (hn : ∀ i, s.nameAt i ≠ some n) : s.vars.lookup n = none :=
  AList.lookup_eq_none.mpr fun hmem => (h.mem_vars_iff.mp hmem).elim hn

/-- The names that are set are those in the table, so they leave a slot where they are few. -/
theorem Inv.room (h : Inv s) : s.vars.keys.length < ENV_MAX_CNT ↔ ∃ i, s.list.name i = none := by
  have hstored : stored none s.nameAt = some '' {n | n ∈ s.vars.keys} := by
    ext b
    constructor
    · rintro ⟨hb,i,hi⟩
      obtain ⟨n,rfl⟩ := Option.ne_none_iff_exists'.mp hb
      exact ⟨n,AList.mem_keys.mp (h.mem_vars_iff.mpr ⟨i,hi⟩),rfl⟩
    · rintro ⟨n,hn,rfl⟩
      exact ⟨by simp,h.mem_vars_iff.mp (AList.mem_keys.mpr hn)⟩
  have hcard : (stored none s.nameAt).ncard = s.vars.keys.length := by
    rw [hstored,Set.InjOn.ncard_image (Option.some_injective _).injOn]
    have hset : {n | n ∈ s.vars.keys} = (s.vars.keys.toFinset : Set Bytes) := by
      ext n
      simp
    rw [hset,Set.ncard_coe_finset,List.toFinset_card_of_nodup s.vars.keys_nodup]
  rw [← hcard,ncard_stored_lt_iff h.distinct]
  simp [Sys.nameAt]

variable {t : Sys}

/-- One slot gets a name that no other slot has. -/
theorem Inv.put (h : Inv s) (hother : ∀ j ≠ i, s.nameAt j ≠ some n) (hi : s.nameAt i = none ∨ s.nameAt i = some n)
    (hname : t.nameAt = Function.update s.nameAt i (some n))
    (hvalue : t.valueAt = Function.update s.valueAt i (some v)) (hvars : t.vars = s.vars.insert n v) : t.Holds := by
  refine ⟨?_,fun m w => ?_⟩
  · rw [hname]
    exact (distinct_update_iff h.distinct i).mpr (Or.inr hother)
  · rw [hname,hvalue,hvars]
    by_cases hm : m = n
    · rw [hm,AList.lookup_insert]
      constructor
      · rintro hw
        exact ⟨i,Function.update_self ..,hw ▸ Function.update_self ..⟩
      · rintro ⟨j,hj,hw⟩
        by_cases hji : j = i
        · rwa [hji,Function.update_self] at hw
        · rw [Function.update_of_ne hji] at hj
          exact absurd hj (hother j hji)
    · rw [AList.lookup_insert_ne hm,h.reads]
      refine exists_congr fun j => ?_
      by_cases hji : j = i
      · rw [hji,Function.update_self]
        refine iff_of_false (fun hj => ?_) fun hj => hm (Option.some.inj hj.1).symm
        rcases hi with hi | hi
        · simp [hi] at hj
        · exact hm (Option.some.inj (hi.symm.trans hj.1)).symm
      · rw [Function.update_of_ne hji,Function.update_of_ne hji]

/-- The slot of a name is freed. -/
theorem Inv.drop (h : Inv s) (hi : s.nameAt i = some n) (hname : t.nameAt = Function.update s.nameAt i none)
    (hvalue : t.valueAt = Function.update s.valueAt i none) (hvars : t.vars = s.vars.erase n) : t.Holds := by
  refine ⟨?_,fun m w => ?_⟩
  · rw [hname]
    exact h.distinct.update_free i
  · rw [hname,hvalue,hvars]
    by_cases hm : m = n
    · rw [hm,AList.lookup_erase]
      refine iff_of_false (by simp) ?_
      rintro ⟨j,hj,-⟩
      by_cases hji : j = i
      · simp [hji] at hj
      · rw [Function.update_of_ne hji] at hj
        exact hji (h.slot_eq hj hi)
    · rw [AList.lookup_erase_ne hm,h.reads]
      refine exists_congr fun j => ?_
      by_cases hji : j = i
      · rw [hji,Function.update_self]
        refine iff_of_false (fun hj => hm (Option.some.inj (hi.symm.trans hj.1)).symm) ?_
        simp
      · rw [Function.update_of_ne hji,Function.update_of_ne hji]

theorem update_map (f : Slot → Option Ptr) (i : Slot) (p : Option Ptr) :
    (fun j => (Function.update f i p j).map s.mem) = Function.update (fun j => (f j).map s.mem) i (p.map s.mem) := by
  funext j
  by_cases hj : j = i
  · rw [hj,Function.update_self,Function.update_self]
  · rw [Function.update_of_ne hj,Function.update_of_ne hj]

/-- A name is in a slot by its own pointer, and so in no other one, or by another pointer, or in none. -/
theorem Inv.named_cases (h : Inv s) (name : Ptr) :
    (∃ i, s.nameAt i = some (s.mem name) ∧ s.list.name i = some name ∧
      ∀ j, s.nameAt j = some (s.mem name) → s.list.name j = some name) ∨
    (∃ i, s.nameAt i = some (s.mem name) ∧ s.list.name i ≠ some name) ∨
    ∀ i, s.nameAt i ≠ some (s.mem name) := by
  by_cases hset : ∃ i, s.nameAt i = some (s.mem name)
  · obtain ⟨i,hi⟩ := hset
    by_cases hp : s.list.name i = some name
    · refine Or.inl ⟨i,hi,hp,fun j hj => ?_⟩
      obtain rfl := h.slot_eq hi hj
      exact hp
    · exact Or.inr (Or.inl ⟨i,hi,hp⟩)
  · exact Or.inr (Or.inr fun i hi => hset ⟨i,hi⟩)

theorem Inv.get_iff (h : Inv s) : Maps s (.get name) ↔ ¬ Misnames s (.get name) := by
  have hnext : ∀ t, step s (.get name) = some t → t.Holds := by
    intro t ht
    obtain rfl := Option.some.inj ht
    exact h.toHolds
  rcases h.named_cases name with ⟨i,hi,hp,hown⟩ | ⟨i,hi,hp⟩ | hunset
  · refine iff_of_true ⟨?_,hnext⟩ fun ⟨j,hj,hne⟩ => hne (hown j hj)
    rw [Answers,getenv,h.find_some hp]
    exact (h.lookup hi).symm
  · refine iff_of_false (fun hmaps => ?_) fun hgood => hgood ⟨i,hi,hp⟩
    have hanswer : (getenv s.list name).map s.mem = s.vars.lookup (s.mem name) := hmaps.1
    obtain ⟨v,hv⟩ := h.valueAt hi
    rw [getenv,find_none (h.other hi hp),h.lookup hi,hv] at hanswer
    simp at hanswer
  · refine iff_of_true ⟨?_,hnext⟩ fun ⟨i,hi,_⟩ => hunset i hi
    rw [Answers,getenv,find_none (absent hunset),h.lookup_none hunset]
    rfl

theorem Inv.unset_iff (h : Inv s) : Maps s (.unset name) ↔ ¬ Misnames s (.unset name) := by
  rcases h.named_cases name with ⟨i,hi,hp,hown⟩ | ⟨i,hi,hp⟩ | hunset
  · refine iff_of_true ⟨trivial,fun t ht => ?_⟩ fun ⟨j,hj,hne⟩ => hne (hown j hj)
    obtain rfl := Option.some.inj ht
    rw [unsetenv,h.find_some hp]
    exact h.drop hi (update_map ..) (update_map ..) rfl
  · refine iff_of_false (fun hmaps => ?_) fun hgood => hgood ⟨i,hi,hp⟩
    -- The slot stays, and the variable goes.
    have hnext := hmaps.2 _ rfl
    rw [unsetenv,find_none (h.other hi hp)] at hnext
    obtain ⟨v,hv⟩ := h.valueAt hi
    have hread := (hnext.reads (s.mem name) v).mpr ⟨i,hi,hv⟩
    simp at hread
  · refine iff_of_true ⟨trivial,fun t ht => ?_⟩ fun ⟨i,hi,_⟩ => hunset i hi
    obtain rfl := Option.some.inj ht
    rw [unsetenv,find_none (absent hunset)]
    refine ⟨h.distinct,fun m w => ?_⟩
    by_cases hm : m = s.mem name
    · rw [hm,AList.lookup_erase]
      exact iff_of_false (by simp) fun ⟨j,hj,_⟩ => hunset j hj
    · rw [AList.lookup_erase_ne hm]
      exact h.reads m w

/-- The name is set from the buffer. -/
theorem Inv.set_own (h : Inv s) (hp : s.list.name i = some name) :
    Maps s (.set name value overwrite) ↔ overwrite ≠ 0 := by
  have hi := nameAt_of_name hp
  have hmem : s.mem name ∈ s.vars := h.mem_vars_iff.mpr ⟨i,hi⟩
  have hvalued : s.list.value i ≠ none := (h.valued i).not.mp (by simp [hp])
  by_cases hover : overwrite = 0
  · refine iff_of_false (fun hmaps => ?_) (not_not.mpr hover)
    have hanswer : (setenv s.list name value overwrite).2 =
      (s.vars.setenv (s.mem name) (s.mem value) overwrite).2 := hmaps.1
    simp [setenv,h.find_some hp,Vars.setenv,hmem,hover,hvalued] at hanswer
  · refine iff_of_true ⟨?_,fun t ht => ?_⟩ hover
    · simp [Answers,setenv,h.find_some hp,Vars.setenv,hmem,hover]
    · obtain rfl := Option.some.inj ht
      have hother (j : Slot) (hj : j ≠ i) : s.nameAt j ≠ some (s.mem name) := fun hj' => hj (h.slot_eq hj' hi)
      refine h.put (v := s.mem value) hother (Or.inr hi) ?_ ?_ (by simp [Vars.setenv,hmem,hover])
      · rw [← hi,Function.update_eq_self]
        simp [setenv,h.find_some hp,hover]
        rfl
      · simp only [setenv,h.find_some hp,hover,ne_eq,not_false_eq_true,true_or,if_true]
        exact update_map ..

/-- The name is set from another buffer. -/
theorem Inv.not_set_alias (h : Inv s) (hi : s.nameAt i = some (s.mem name)) (hp : s.list.name i ≠ some name) :
    ¬ Maps s (.set name value overwrite) := by
  have hmem : s.mem name ∈ s.vars := h.mem_vars_iff.mpr ⟨i,hi⟩
  intro hmaps
  cases hfree : firstSlot fun j => s.list.name j = none with
  | some j =>
    -- The name gets a second slot.
    have hnone : s.list.name j = none := of_decide_eq_true (firstSlot_some hfree)
    have hji : j ≠ i := by
      rintro rfl
      simp [Sys.nameAt,hnone] at hi
    have hnext := hmaps.2 _ rfl
    have hlist : (setenv s.list name value overwrite).1.name = Function.update s.list.name j (some name) := by
      rw [setenv,find_none (h.other hi hp),hfree]
    refine hji (hnext.slot_eq (n := s.mem name) ?_ ?_)
    · simp [Sys.nameAt,hlist]
    · simpa [Sys.nameAt,hlist,Ne.symm hji] using hi
  | none =>
    have hanswer : (setenv s.list name value overwrite).2 =
      (s.vars.setenv (s.mem name) (s.mem value) overwrite).2 := hmaps.1
    simp [setenv,find_none (h.other hi hp),hfree,Vars.setenv,hmem] at hanswer

/-- The name is not set. -/
theorem Inv.set_new (h : Inv s) (hunset : ∀ i, s.nameAt i ≠ some (s.mem name)) :
    Maps s (.set name value overwrite) := by
  have hmem : s.mem name ∉ s.vars := fun hmem => (h.mem_vars_iff.mp hmem).elim hunset
  cases hfree : firstSlot fun j => s.list.name j = none with
  | some j =>
    have hnone : s.list.name j = none := of_decide_eq_true (firstSlot_some hfree)
    have hroom := h.room.mpr ⟨j,hnone⟩
    refine ⟨?_,fun t ht => ?_⟩
    · simp [Answers,setenv,find_none (absent hunset),hfree,Vars.setenv,hmem,hroom]
    · obtain rfl := Option.some.inj ht
      refine h.put (i := j) (v := s.mem value) (fun k _ => hunset k) (Or.inl (by simp [Sys.nameAt,hnone])) ?_ ?_
        (by simp [Vars.setenv,hmem,hroom])
      · simp only [setenv,find_none (absent hunset),hfree]
        exact update_map ..
      · simp only [setenv,find_none (absent hunset),hfree]
        exact update_map ..
  | none =>
    have hfull : ¬ s.vars.keys.length < ENV_MAX_CNT := by
      intro hroom
      obtain ⟨j,hj⟩ := h.room.mp hroom
      simpa [hj] using firstSlot_none hfree j
    refine ⟨?_,fun t ht => ?_⟩
    · simp [Answers,setenv,find_none (absent hunset),hfree,Vars.setenv,hmem,hfull]
    · obtain rfl := Option.some.inj ht
      simp only [setenv,find_none (absent hunset),hfree,Vars.setenv,if_neg hmem,if_neg hfull]
      exact h.toHolds

theorem Inv.set_iff (h : Inv s) :
    Maps s (.set name value overwrite) ↔ ¬ Misnames s (.set name value overwrite) := by
  rcases h.named_cases name with ⟨i,hi,hp,hown⟩ | ⟨i,hi,hp⟩ | hunset
  · rw [h.set_own hp]
    refine ⟨fun hover ⟨j,hj,hne⟩ => ?_,fun hgood hover => hgood ⟨i,hi,Or.inr hover⟩⟩
    exact hne.elim (fun hne => hne (hown j hj)) hover
  · exact iff_of_false (h.not_set_alias hi hp) fun hgood => hgood ⟨i,hi,Or.inl hp⟩
  · exact iff_of_true (h.set_new hunset) fun ⟨i,hi,_⟩ => hunset i hi

variable {str : Bytes}

theorem map_update_of_ne {o : Option Ptr} (h : o ≠ some p) : o.map (Function.update s.mem p str) = o.map s.mem := by
  cases o with
  | none => rfl
  | some q =>
    have hq : q ≠ p := fun hq => h (congrArg some hq)
    rw [Option.map_some,Option.map_some,Function.update_of_ne hq]

/-- A string that the table points to changes. -/
theorem Inv.not_write (h : Inv s) (hne : s.mem p ≠ str) (hi : s.list.name i = some p ∨ s.list.value i = some p) :
    ¬ ({ s with mem := Function.update s.mem p str } : Sys).Holds := by
  intro ht
  have hname (j : Slot) (hj : s.list.name j ≠ some p) :
    Sys.nameAt { s with mem := Function.update s.mem p str } j = s.nameAt j := map_update_of_ne hj
  by_cases hnamed : ∃ j, s.list.name j = some p
  · -- No slot has the name any more.
    obtain ⟨j,hj⟩ := hnamed
    have hold := nameAt_of_name hj
    obtain ⟨v,hv⟩ := h.valueAt hold
    obtain ⟨k,hk,-⟩ := (ht.reads (s.mem p) v).mp ((h.reads _ _).mpr ⟨j,hold,hv⟩)
    by_cases hkp : s.list.name k = some p
    · have hnew : Sys.nameAt { s with mem := Function.update s.mem p str } k = some str := by
        simp [Sys.nameAt,hkp]
      exact hne (Option.some.inj (hk.symm.trans hnew))
    · rw [hname k hkp] at hk
      obtain rfl := h.slot_eq hk hold
      exact hkp hj
  · -- The name of the slot has another value.
    have hvalue : s.list.value i = some p := hi.resolve_left fun hi => hnamed ⟨i,hi⟩
    have hset : s.list.name i ≠ none := (h.valued i).not.mpr (by simp [hvalue])
    obtain ⟨q,hq⟩ := Option.ne_none_iff_exists'.mp hset
    have hold := nameAt_of_name hq
    have hv : s.valueAt i = some (s.mem p) := by rw [Sys.valueAt,hvalue,Option.map_some]
    obtain ⟨k,hk,hkv⟩ := (ht.reads _ _).mp ((h.reads _ _).mpr ⟨i,hold,hv⟩)
    rw [hname k fun hk => hnamed ⟨k,hk⟩] at hk
    obtain rfl := h.slot_eq hk hold
    have hnew : Sys.valueAt { s with mem := Function.update s.mem p str } k = some str := by
      simp [Sys.valueAt,hvalue]
    exact hne (Option.some.inj (hkv.symm.trans hnew))

theorem Inv.write_iff (h : Inv s) : Maps s (.write p str) ↔ ¬ Misnames s (.write p str) := by
  by_cases hne : s.mem p = str
  · refine iff_of_true ⟨trivial,fun t ht => ?_⟩ fun hbad => hbad.1 hne
    obtain rfl := Option.some.inj ht
    rw [← hne,Function.update_eq_self]
    exact h.toHolds
  · by_cases hused : ∃ i, s.list.name i = some p ∨ s.list.value i = some p
    · obtain ⟨i,hi⟩ := hused
      exact iff_of_false (fun hmaps => h.not_write hne hi (hmaps.2 _ rfl)) fun hgood => hgood ⟨hne,i,hi⟩
    · refine iff_of_true ⟨trivial,fun t ht => ?_⟩ fun hbad => hused hbad.2
      obtain rfl := Option.some.inj ht
      have hname : Sys.nameAt { s with mem := Function.update s.mem p str } = s.nameAt :=
        funext fun j => map_update_of_ne fun hj => hused ⟨j,Or.inl hj⟩
      have hvalue : Sys.valueAt { s with mem := Function.update s.mem p str } = s.valueAt :=
        funext fun j => map_update_of_ne fun hj => hused ⟨j,Or.inr hj⟩
      refine ⟨hname ▸ h.distinct,fun m w => ?_⟩
      rw [hname,hvalue]
      exact h.reads m w

theorem Inv.maps_iff (h : Inv s) (l : Label) : Maps s l ↔ ¬ Misnames s l := by
  cases l with
  | write p str => exact h.write_iff
  | get name => exact h.get_iff
  | set name value overwrite => exact h.set_iff
  | unset name => exact h.unset_iff

/-- A slot has a value where it has a name. -/
def Valued (e : EnvList) : Prop := ∀ i, e.name i = none ↔ e.value i = none

theorem Valued.setenv {e : EnvList} (h : Valued e) (name value : Ptr) (overwrite : ℤ) :
    Valued (setenv e name value overwrite).1 := by
  unfold Environ.setenv
  split
  · next i hi =>
    have hname : e.name i = some name := of_decide_eq_true (firstSlot_some hi)
    split_ifs
    · intro j
      by_cases hj : j = i
      · simp [hj,hname]
      · simpa [hj] using h j
    · exact h
  · split
    · next j hj =>
      intro k
      by_cases hk : k = j
      · simp [hk]
      · simpa [hk] using h k
    · exact h

theorem Valued.unsetenv {e : EnvList} (h : Valued e) (name : Ptr) : Valued (unsetenv e name).1 := by
  unfold Environ.unsetenv
  split
  · next i hi =>
    intro j
    by_cases hj : j = i
    · simp [hj]
    · simpa [hj] using h j
  · exact h

theorem Inv.step (h : Inv s) {l : Label} (hgood : ¬ Misnames s l) (hs : Environ.step s l = some t) : Inv t := by
  refine ⟨((h.maps_iff l).mpr hgood).2 t hs,?_⟩
  cases l with
  | write p str | get name =>
    obtain rfl := Option.some.inj hs
    exact h.valued
  | set name value overwrite =>
    obtain rfl := Option.some.inj hs
    exact Valued.setenv h.valued name value overwrite
  | unset name =>
    obtain rfl := Option.some.inj hs
    exact Valued.unsetenv h.valued name

/-- The environment is a map of strings in exactly the runs in which a name that is set comes
from its own buffer, is not set again without overwriting, and no string of the table changes. -/
theorem maps_iff_run {mem : Ptr → Bytes} {ls : List Label} (h : Runs Environ.step (booted mem) ls s) :
    (∀ ms l u, ms ++ [l] <+: ls → Runs Environ.step (booted mem) ms u → Maps u l) ↔
      Runs (guarded (fun s l => ¬ Misnames s l) Environ.step) (booted mem) ls s :=
  h.guarded_iff_steps (fun _ _ _ hi hgood hs => hi.step hgood hs) (fun _ l hi => hi.maps_iff l) (Inv.booted mem)

end Steps

/-- Two buffers with one name, and the values. -/
def buffers : Ptr → Bytes := fun p => if p = 16 ∨ p = 32 then [65] else if p = 48 then [1] else [2]

theorem maps_overwritten : ∃ s, Runs (guarded (fun s l => ¬ Misnames s l) step) (booted buffers)
    [.set 16 48 0,.set 16 64 1,.get 16,.unset 16,.get 32] s ∧
    ∀ ms l u, ms ++ [l] <+: [.set 16 48 0,.set 16 64 1,.get 16,.unset 16,.get 32] →
      Runs step (booted buffers) ms u → Maps u l := by
  obtain ⟨s,hs⟩ : ∃ s, exec (guarded (fun s l => ¬ Misnames s l) step) (booted buffers)
      [.set 16 48 0,.set 16 64 1,.get 16,.unset 16,.get 32] = some s := ⟨_,rfl⟩
  have hrun := Runs.of_exec hs
  exact ⟨s,hrun,(maps_iff_run hrun.of_guarded).mpr hrun⟩

/-- getenv does not find the name in another buffer, and setenv fails where it is to keep
a value. -/
theorem maps_fails : ∃ s, Runs step (booted buffers) [.set 16 48 1] s ∧
    (getenv s.list 32 = none ∧ s.vars.lookup (s.mem 32) = some [1] ∧ ¬ Maps s (.get 32)) ∧
    ((setenv s.list 16 64 0).2 = -1 ∧ (s.vars.setenv (s.mem 16) (s.mem 64) 0).2 = 0 ∧ ¬ Maps s (.set 16 64 0)) := by
  refine Runs.exists_of_exec (fun s => (getenv s.list 32,s.vars.lookup (s.mem 32),(setenv s.list 16 64 0).2,
    (s.vars.setenv (s.mem 16) (s.mem 64) 0).2)) (v := (none,some [1],-1,0)) rfl ?_
  intro s _ hend
  obtain ⟨hget,hend⟩ := Prod.mk.inj hend
  obtain ⟨hlookup,hend⟩ := Prod.mk.inj hend
  obtain ⟨hset,hvars⟩ := Prod.mk.inj hend
  refine ⟨⟨hget,hlookup,fun h => ?_⟩,hset,hvars,fun h => ?_⟩
  · have hanswer : (getenv s.list 32).map s.mem = s.vars.lookup (s.mem 32) := h.1
    simp [hget,hlookup] at hanswer
  · have hanswer : (setenv s.list 16 64 0).2 = (s.vars.setenv (s.mem 16) (s.mem 64) 0).2 := h.1
    simp [hset,hvars] at hanswer

end FmacSdk.Environ
