import FmacSdk.Common.Errno
import FmacSdk.Foundation.Transition
import Mathlib.Data.Int.Order.Basic

/-! # Thread-specific data

A table of keys for all threads, and for each live thread a block of values that its
first pthread_setspecific allocates. Allocation succeeds, with anything in the block.
-/
namespace FmacSdk.PthreadTls
open Transition
variable {ι : Type*}

def PTHREAD_KEY_MAX : ℕ := 8
def NULL : ℕ := 0

/-- A struct pthread_key_data; the destructor is the address of a function. -/
structure KeyData where
  isUsed : Bool
  destructor : ℕ

abbrev Block := ℕ → ℕ

/-- With what each thread set for a key since the key was created. -/
structure Sys (ι : Type*) where
  threadKeys : ℕ → KeyData
  tls : ι → Option Block
  value : ι → ℕ → Option ℕ

/-- A call by a thread; os_malloc finds `mem` in the block. -/
inductive Label (ι : Type*)
  | create (i : ι) (destructor : ℕ)
  | delete (i : ι) (key : ℕ)
  | set (i : ι) (key value : ℕ) (mem : Block)
  | get (i : ι) (key : ℕ)

def Label.isGet : Label ι → Bool
  | .get .. => true
  | .create .. | .delete .. | .set .. => false

/-- Whoever set a value for the key, it is not a value of the next key there. -/
def Sys.forget (s : Sys ι) (key : ℕ) : Sys ι := { s with value := fun i => Function.update (s.value i) key none }

/-- With *key. -/
def pthreadKeyCreate (s : Sys ι) (destructor : ℕ) : Sys ι × ℤ × Option ℕ :=
  match (List.range PTHREAD_KEY_MAX).find? (fun index => !(s.threadKeys index).isUsed) with
  | some index =>
    ({ s.forget index with threadKeys := Function.update s.threadKeys index ⟨true,destructor⟩ },0,some index)
  | none => (s,-EAGAIN,none)

def pthreadKeyDelete (s : Sys ι) (key : ℕ) : Sys ι × ℤ :=
  if PTHREAD_KEY_MAX ≤ key then (s,-EINVAL)
  else ({ s.forget key with threadKeys := Function.update s.threadKeys key ⟨false,NULL⟩ },RET_OK)

/-- The calls of destructors, as functions with their arguments. -/
def pthreadKeyDestroy (s : Sys ι) (tls : Option Block) : List (ℕ × ℕ) :=
  match tls with
  | none => []
  | some data => (List.range PTHREAD_KEY_MAX).filterMap fun index =>
    if (s.threadKeys index).isUsed ∧ data index ≠ NULL then some ((s.threadKeys index).destructor,data index)
    else none

section Code
variable [DecidableEq ι]

def pthreadTls (s : Sys ι) (i : ι) (create : Bool) (size : ℕ) (mem : Block) : Sys ι × Option Block :=
  if create then
    match s.tls i with
    | some ptr => (s,some ptr)
    | none =>
      if size = 0 then (s,none) else ({ s with tls := Function.update s.tls i (some mem) },some mem)
  else ({ s with tls := Function.update s.tls i none },none)

def pthreadGetspecific (s : Sys ι) (i : ι) (key : ℕ) : Sys ι × ℕ :=
  let (s,tls) := pthreadTls s i false 0 (fun _ => NULL)
  match tls with
  | some data => if key < PTHREAD_KEY_MAX ∧ (s.threadKeys key).isUsed then (s,data key) else (s,NULL)
  | none => (s,NULL)

def Sys.store (s : Sys ι) (i : ι) (data : Block) (key value : ℕ) : Sys ι :=
  { s with
    tls := Function.update s.tls i (some (Function.update data key value))
    value := Function.update s.value i (Function.update (s.value i) key (some value)) }

def pthreadSetspecific (s : Sys ι) (i : ι) (key value : ℕ) (mem : Block) : Sys ι × ℤ :=
  let (s,tls) := pthreadTls s i true (PTHREAD_KEY_MAX * 4) mem
  match tls with
  | some data =>
    if key < PTHREAD_KEY_MAX ∧ (s.threadKeys key).isUsed then (s.store i data key value,RET_OK) else (s,-EINVAL)
  | none => (s,-EINVAL)

def step (s : Sys ι) : Label ι → Option (Sys ι)
  | .create _ destructor => some (pthreadKeyCreate s destructor).1
  | .delete _ key => some (pthreadKeyDelete s key).1
  | .set i key value mem => some (pthreadSetspecific s i key value mem).1
  | .get i key => some (pthreadGetspecific s i key).1

end Code

def booted : Sys ι := ⟨fun _ => ⟨false,NULL⟩,fun _ => none,fun _ _ => none⟩

section Map
variable [DecidableEq ι] {s : Sys ι}

/-- What the thread set last for the key, and NULL if it set nothing. -/
def Sys.specific (s : Sys ι) (i : ι) (key : ℕ) : ℕ := (s.value i key).getD NULL

/-- The call returns what the map says. -/
def Answers (s : Sys ι) : Label ι → Prop
  | .get i key => (pthreadGetspecific s i key).2 = s.specific i key
  | _ => True

/-- The call asks for a value that is not NULL. -/
def Asks (s : Sys ι) : Label ι → Prop
  | .get i key => s.specific i key ≠ NULL
  | _ => False

instance (s : Sys ι) (l : Label ι) : Decidable (Asks s l) :=
  match l with
  | .get _ _ => inferInstanceAs (Decidable (_ ≠ _))
  | .create .. | .delete .. | .set .. => isFalse id

/-- pthread_tls without create frees the block and returns NULL. -/
theorem getspecific_eq (s : Sys ι) (i : ι) (key : ℕ) : (pthreadGetspecific s i key).2 = NULL := rfl

theorem answers_iff (s : Sys ι) (l : Label ι) : Answers s l ↔ ¬ Asks s l := by
  cases l with
  | get i key =>
    rw [Answers,Asks,getspecific_eq,not_not,eq_comm]
  | _ => exact iff_of_true trivial id

/-- Thread-specific data is a map in exactly the runs that read nothing but NULL from it. -/
theorem answers_iff_run {ls : List (Label ι)} (h : Runs step booted ls s) :
    (∀ ms l u, ms ++ [l] <+: ls → Runs step booted ms u → Answers u l) ↔
      Runs (guarded (fun s l => ¬ Asks s l) step) booted ls s :=
  h.guarded_iff_steps (I := fun _ => True) (fun _ _ _ _ _ _ => trivial) (fun s l _ => answers_iff s l) trivial

end Map

/-- Two threads create keys and set values; one asks for a value it never set. -/
def apart : List (Label Bool) :=
  [.create true 0,.set true 0 5 (fun _ => 0),.create true 0,.get true 1,.get false 0]

theorem answers_apart : ∃ s, Runs (guarded (fun s l => ¬ Asks s l) step) booted apart s ∧ s.specific true 0 = 5 ∧
    ∀ ms l u, ms ++ [l] <+: apart → Runs step booted ms u → Answers u l := by
  refine Runs.exists_of_exec (fun s => s.specific true 0) (v := 5) rfl ?_
  intro s hrun hspecific
  exact ⟨hspecific,(answers_iff_run hrun.of_guarded).mpr hrun⟩

/-- A thread does not get back what it set. -/
theorem answers_fail : ∃ s, Runs step (booted : Sys Bool) [.create true 0,.set true 0 5 (fun _ => 0)] s ∧
    s.specific true 0 = 5 ∧ (pthreadGetspecific s true 0).2 = NULL ∧ ¬ Answers s (.get true 0) := by
  refine Runs.exists_of_exec (fun s => s.specific true 0) (v := 5) rfl ?_
  intro s _ hspecific
  refine ⟨hspecific,rfl,fun h => ?_⟩
  have hnull : NULL = s.specific true 0 := h
  rw [hspecific] at hnull
  exact absurd hnull (by decide)

section Selections
variable {α β : Type*} {f g : α → Option β} {l : List α}

theorem length_filterMap_le (h : ∀ a ∈ l, ∀ b, g a = some b → f a = some b) :
    (l.filterMap g).length ≤ (l.filterMap f).length := by
  induction l with
  | nil => exact Nat.le_refl _
  | cons a l ih =>
    have hrest := ih fun x hx => h x (List.mem_cons_of_mem _ hx)
    cases hg : g a with
    | none =>
      rw [List.filterMap_cons_none hg]
      cases hf : f a with
      | none => rwa [List.filterMap_cons_none hf]
      | some b =>
        rw [List.filterMap_cons_some hf]
        exact Nat.le_succ_of_le hrest
    | some b =>
      rw [List.filterMap_cons_some hg,List.filterMap_cons_some (h a List.mem_cons_self b hg)]
      exact Nat.succ_le_succ hrest

/-- Where one selection has all that the other has, they are the same list only if
they select the same. -/
theorem filterMap_eq_iff (h : ∀ a ∈ l, ∀ b, g a = some b → f a = some b) :
    l.filterMap f = l.filterMap g ↔ ∀ a ∈ l, f a = g a := by
  induction l with
  | nil => simp
  | cons a l ih =>
    have hsub := fun x hx => h x (List.mem_cons_of_mem a hx)
    have hrest := ih hsub
    rw [List.forall_mem_cons,← hrest]
    cases hg : g a with
    | none =>
      cases hf : f a with
      | none => simp [List.filterMap_cons_none hf,List.filterMap_cons_none hg]
      | some b =>
        refine iff_of_false (fun heq => ?_) (by simp)
        have hle := length_filterMap_le hsub
        rw [List.filterMap_cons_some hf,List.filterMap_cons_none hg] at heq
        rw [← heq,List.length_cons] at hle
        omega
    | some b =>
      have hf : f a = some b := h a List.mem_cons_self b hg
      simp [List.filterMap_cons_some hf,List.filterMap_cons_some hg,hf]

end Selections

section Destructors
variable {s t : Sys ι} {i : ι} {key : ℕ}

/-- The calls that are due at the end of a thread. -/
def Sys.due (s : Sys ι) (i : ι) : List (ℕ × ℕ) :=
  (List.range PTHREAD_KEY_MAX).filterMap fun key =>
    if (s.threadKeys key).isUsed ∧ (s.threadKeys key).destructor ≠ NULL then
      match s.value i key with
      | some value => if value ≠ NULL then some ((s.threadKeys key).destructor,value) else none
      | none => none
    else none

/-- What is set for a key lies in the block, while the key is there. -/
def Stored (s : Sys ι) : Prop := ∀ i key value, s.value i key = some value →
  (s.threadKeys key).isUsed = true ∧ ∃ data, s.tls i = some data ∧ data key = value

theorem Stored.booted : Stored (booted : Sys ι) := by
  intro i key value h
  simp [PthreadTls.booted] at h

theorem Stored.renew (h : Stored s) (keyData : KeyData) :
    Stored { s.forget key with threadKeys := Function.update s.threadKeys key keyData } := by
  intro j k value hvalue
  have hset : Function.update (s.value j) key none k = some value := hvalue
  by_cases hk : k = key
  · rw [hk,Function.update_self] at hset
    simp at hset
  · rw [Function.update_of_ne hk] at hset
    obtain ⟨hused,hdata⟩ := h j k value hset
    have hused' : (Function.update s.threadKeys key keyData k).isUsed = true := by
      rw [Function.update_of_ne hk]
      exact hused
    exact ⟨hused',hdata⟩

theorem Stored.create (h : Stored s) (destructor : ℕ) : Stored (pthreadKeyCreate s destructor).1 := by
  unfold pthreadKeyCreate
  split
  · exact h.renew _
  · exact h

theorem Stored.delete (h : Stored s) (key : ℕ) : Stored (pthreadKeyDelete s key).1 := by
  unfold pthreadKeyDelete
  split_ifs
  · exact h
  · exact h.renew _

/-- A value in the block that is not NULL has a destructor, and was set for the key. -/
def Clean (s : Sys ι) (i : ι) : Prop := ∀ data, s.tls i = some data → ∀ key, key < PTHREAD_KEY_MAX →
  (s.threadKeys key).isUsed = true → data key ≠ NULL →
  (s.threadKeys key).destructor ≠ NULL ∧ (s.value i key).isSome = true

theorem Stored.clean_iff (h : Stored s) (i : ι) : pthreadKeyDestroy s (s.tls i) = s.due i ↔ Clean s i := by
  cases hdata : s.tls i with
  | none =>
    have hunset (key : ℕ) : s.value i key = none := by
      cases hvalue : s.value i key with
      | none => rfl
      | some value =>
        obtain ⟨-,data,hsome,-⟩ := h i key value hvalue
        simp [hdata] at hsome
    refine iff_of_true ?_ fun data hsome => by simp [hdata] at hsome
    simp [pthreadKeyDestroy,Sys.due,hunset]
  | some data =>
    have hcell {key value : ℕ} (hvalue : s.value i key = some value) : data key = value := by
      obtain ⟨-,data',hsome,hkey⟩ := h i key value hvalue
      obtain rfl := Option.some.inj (hdata.symm.trans hsome)
      exact hkey
    unfold pthreadKeyDestroy Sys.due
    rw [filterMap_eq_iff]
    · simp only [List.mem_range]
      constructor
      · intro hall data' hsome key hkey hused hne
        obtain rfl := Option.some.inj (hdata.symm.trans hsome)
        have hkeys := hall key hkey
        rw [if_pos ⟨hused,hne⟩] at hkeys
        obtain ⟨⟨-,hdestructor⟩,hdue⟩ := Option.ite_none_right_eq_some.mp hkeys.symm
        refine ⟨hdestructor,?_⟩
        cases hvalue : s.value i key with
        | none => simp [hvalue] at hdue
        | some value => rfl
      · intro hclean key hkey
        by_cases hcalls : (s.threadKeys key).isUsed = true ∧ data key ≠ NULL
        · obtain ⟨hdestructor,hset⟩ := hclean data hdata key hkey hcalls.1 hcalls.2
          obtain ⟨value,hvalue⟩ := Option.isSome_iff_exists.mp hset
          have hvalue' := hcell hvalue
          rw [if_pos hcalls,if_pos ⟨hcalls.1,hdestructor⟩,hvalue]
          simp [← hvalue',hcalls.2]
        · rw [if_neg hcalls]
          split_ifs with hused
          · cases hvalue : s.value i key with
            | none => rfl
            | some value =>
              have hnull : value = NULL := by
                by_contra hne
                exact hcalls ⟨hused.1,by rwa [hcell hvalue]⟩
              simp [hnull]
          · rfl
    · intro key _ call hcall
      obtain ⟨⟨hused,-⟩,hdue⟩ := Option.ite_none_right_eq_some.mp hcall
      cases hvalue : s.value i key with
      | none => simp [hvalue] at hdue
      | some value =>
        rw [hvalue] at hdue
        obtain ⟨hne,hcall⟩ := Option.ite_none_right_eq_some.mp hdue
        rw [← hcell hvalue] at hne hcall
        rw [if_pos ⟨hused,hne⟩,hcall]

variable [DecidableEq ι]

theorem Stored.allocate (h : Stored s) (hnone : s.tls i = none) (mem : Block) :
    Stored { s with tls := Function.update s.tls i (some mem) } := by
  intro j k value hvalue
  obtain ⟨hused,data,hdata,hk⟩ := h j k value hvalue
  have hji : j ≠ i := by
    rintro rfl
    simp [hnone] at hdata
  exact ⟨hused,data,(Function.update_of_ne hji ..).trans hdata,hk⟩

theorem Stored.store (h : Stored s) {data : Block} (hdata : s.tls i = some data)
    (hused : (s.threadKeys key).isUsed = true) (value : ℕ) : Stored (s.store i data key value) := by
  intro j k value' hvalue
  by_cases hji : j = i
  · subst hji
    have htls : (s.store j data key value).tls j = some (Function.update data key value) := Function.update_self ..
    have hval : (s.store j data key value).value j = Function.update (s.value j) key (some value) :=
      Function.update_self ..
    rw [hval] at hvalue
    by_cases hk : k = key
    · subst hk
      rw [Function.update_self] at hvalue
      obtain rfl := Option.some.inj hvalue
      exact ⟨hused,_,htls,Function.update_self ..⟩
    · rw [Function.update_of_ne hk] at hvalue
      obtain ⟨hused',data',hdata',hk'⟩ := h j k value' hvalue
      obtain rfl := Option.some.inj (hdata.symm.trans hdata')
      exact ⟨hused',_,htls,(Function.update_of_ne hk ..).trans hk'⟩
  · have hval : (s.store i data key value).value j = s.value j := Function.update_of_ne hji ..
    rw [hval] at hvalue
    obtain ⟨hused',data',hdata',hk'⟩ := h j k value' hvalue
    exact ⟨hused',data',(Function.update_of_ne hji ..).trans hdata',hk'⟩

theorem Stored.set (h : Stored s) (value : ℕ) (mem : Block) : Stored (pthreadSetspecific s i key value mem).1 := by
  have hsize : ¬ PTHREAD_KEY_MAX * 4 = 0 := by decide
  cases hdata : s.tls i with
  | none =>
    have hfresh := h.allocate hdata mem
    simp only [pthreadSetspecific,pthreadTls,hdata,if_pos,if_neg hsize]
    split_ifs with hused
    · exact hfresh.store (Function.update_self ..) hused.2 value
    · exact hfresh
  | some data =>
    simp only [pthreadSetspecific,pthreadTls,hdata,if_pos]
    split_ifs with hused
    · exact h.store hdata hused.2 value
    · exact h

theorem Stored.step (h : Stored s) {l : Label ι} (hget : l.isGet = false) (hs : PthreadTls.step s l = some t) :
    Stored t := by
  cases l with
  | create i destructor =>
    obtain rfl := Option.some.inj hs
    exact h.create destructor
  | delete i key =>
    obtain rfl := Option.some.inj hs
    exact h.delete key
  | set i key value mem =>
    obtain rfl := Option.some.inj hs
    exact h.set value mem
  | get i key => simp [Label.isGet] at hget

theorem Stored.run {ls : List (Label ι)} (h : Runs PthreadTls.step PthreadTls.booted ls s)
    (hget : ∀ l ∈ ls, l.isGet = false) : Stored s := by
  induction h with
  | refl => exact Stored.booted
  | tail _ hlast ih =>
    have hbefore := ih fun l hl => hget l (List.mem_append_left _ hl)
    exact hbefore.step (hget _ (by simp)) hlast

/-- The destructors that pthread_free calls are those that are due exactly where each value
left in the block of the thread that is not NULL, under a key in use, was set for that key
and has a destructor. -/
theorem destroy_iff {ls : List (Label ι)} (h : Runs PthreadTls.step PthreadTls.booted ls s)
    (hget : ∀ l ∈ ls, l.isGet = false) (i : ι) :
    pthreadKeyDestroy s (s.tls i) = s.due i ↔ Clean s i := (Stored.run h hget).clean_iff i

end Destructors

/-- One key with a destructor, and a value for it. -/
def keyed : List (Label Bool) := [.create true 256,.set true 0 5 (fun _ => 0)]

theorem destroy_keyed : ∃ s, Runs step booted keyed s ∧ pthreadKeyDestroy s (s.tls true) = [(256,5)] ∧
    Clean s true := by
  refine Runs.exists_of_exec (fun s => (pthreadKeyDestroy s (s.tls true),s.due true)) (v := ([(256,5)],[(256,5)])) rfl ?_
  intro s hrun hend
  obtain ⟨hcalls,hdue⟩ := Prod.mk.inj hend
  exact ⟨hcalls,(destroy_iff hrun (by decide) true).mp (hcalls.trans hdue.symm)⟩

/-- A key without a destructor, a key for which nothing was set, and a key that took the
place of another. -/
theorem destroy_fails :
    (∃ s, Runs step (booted : Sys Bool) [.create true NULL,.set true 0 5 (fun _ => 0)] s ∧
      pthreadKeyDestroy s (s.tls true) = [(NULL,5)] ∧ s.due true = []) ∧
    (∃ s, Runs step (booted : Sys Bool) [.create true 256,.create true 512,.set true 0 5 (fun _ => 7)] s ∧
      pthreadKeyDestroy s (s.tls true) = [(256,5),(512,7)] ∧ s.due true = [(256,5)]) ∧
    ∃ s, Runs step (booted : Sys Bool) [.create true 256,.set true 0 5 (fun _ => 0),.delete true 0,.create true 512] s ∧
      pthreadKeyDestroy s (s.tls true) = [(512,5)] ∧ s.due true = [] := by
  refine ⟨?_,?_,?_⟩
  · refine Runs.exists_of_exec (fun s => (pthreadKeyDestroy s (s.tls true),s.due true)) (v := ([(NULL,5)],[])) rfl ?_
    intro s _ hend
    exact Prod.mk.inj hend
  · refine Runs.exists_of_exec (fun s => (pthreadKeyDestroy s (s.tls true),s.due true))
      (v := ([(256,5),(512,7)],[(256,5)])) rfl ?_
    intro s _ hend
    exact Prod.mk.inj hend
  · refine Runs.exists_of_exec (fun s => (pthreadKeyDestroy s (s.tls true),s.due true)) (v := ([(512,5)],[])) rfl ?_
    intro s _ hend
    exact Prod.mk.inj hend

end FmacSdk.PthreadTls
