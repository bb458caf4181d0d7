import FmacSdk.Rhino.ReadyQueue

/-! # Time slices

Every tick takes from the slice of the first task of the running priority; a task
that has used its slice up goes behind the others of that priority. A round of
ticks therefore runs each of them for its own slice, in the order of the list.
-/
namespace FmacSdk.Rhino
open CircularList
variable {T : Type*} [DecidableEq T]

/-- KSCHED_FIFO and KSCHED_RR -/
inductive SchedPolicy
  | fifo
  | rr
  deriving DecidableEq,Repr

/-- The fields of the tasks that the time slices need. -/
structure Slices (T : Type*) where
  timeSlice : T → ℕ
  timeTotal : T → ℕ
  schedPolicy : T → SchedPolicy

/-- time_slice_update -/
def timeSliceUpdate (s : ReadyQueue T) (sl : Slices T) : Option (ReadyQueue T × Slices T) :=
  match s.rq.curListItem (s.prio s.active) with
  | none => some (s,sl)
  | some task =>
    if sl.schedPolicy task = .fifo then some (s,sl)
    else if s.links.next task = task then some (s,sl)
    else
      let slice := if 0 < sl.timeSlice task then sl.timeSlice task - 1 else sl.timeSlice task
      if 0 < slice then some (s,{ sl with timeSlice := Function.update sl.timeSlice task slice })
      else
        (readyListHeadToTail s task).map fun s =>
          (s,{ sl with timeSlice := Function.update sl.timeSlice task (sl.timeTotal task) })

/-- A tick of the timer and the choice of the task on leaving its interrupt. -/
def tick (s : ReadyQueue T × Slices T) : Option (ReadyQueue T × Slices T) :=
  (timeSliceUpdate s.1 s.2).bind fun s =>
    (preferredReadyTask s.1).map fun task => ({ s.1 with active := task },s.2)

/-- The tasks that run during `n` ticks, with the state behind them. -/
def ticks : ℕ → ReadyQueue T × Slices T → Option (List T × ReadyQueue T × Slices T)
  | 0, s => some ([],s)
  | n + 1, s => (tick s).bind fun s' => (ticks n s').map fun r => (s.1.active :: r.1,r.2)

/-- The ticks that a task runs before it goes behind the others. -/
def turn (sl : Slices T) (t : T) : ℕ := max 1 (sl.timeSlice t)

/-- The queue holds `l` at the running priority, whose first task runs, and no
task of a higher one. -/
structure Running (s : ReadyQueue T) (ready : ℕ → List T) (pri : ℕ) (l : List T) : Prop where
  rep : Represents s ready
  list : ready pri = l
  first : l.head? = some s.active
  above : ∀ p < pri, ready p = []

variable {s s' : ReadyQueue T} {sl sl' : Slices T} {ready : ℕ → List T} {pri n : ℕ} {x y : T} {l l1 l2 : List T}

omit [DecidableEq T] in
theorem Running.prio_eq (h : Running s ready pri (x :: l)) : s.active = x ∧ s.prio x = pri := by
  have hx : x = s.active := by simpa using h.first
  refine ⟨hx.symm,h.rep.prio pri x ?_⟩
  rw [h.list]
  exact List.mem_cons_self

omit [DecidableEq T] in
/-- The task that is chosen is the first one of the running priority. -/
theorem Running.chosen (h : Represents s ready) (hlist : ready pri = x :: l) (habove : ∀ p < pri, ready p = []) :
    preferredReadyTask s = some x ∧ Running { s with active := x } ready pri (x :: l) := by
  have hne : ∃ p, ready p ≠ [] := ⟨pri,by simp [hlist]⟩
  have hhigh : s.rq.highestPri = pri := by
    have hle := h.highest_le pri (by simp [hlist])
    have hsome := h.highest hne
    by_contra hno
    exact hsome (habove _ (lt_of_le_of_ne hle hno))
  have hpref := (h.preferred hne).2.1
  rw [hhigh,hlist] at hpref
  refine ⟨hpref,?_,hlist,rfl,habove⟩
  exact ⟨h.cur,h.ring,h.nodup,h.prio,h.bound,h.words,h.bits,h.highest_le,h.highest,h.vacant⟩

/-- A tick in front of the last one of a turn only takes from the slice. -/
theorem Running.tick_within (h : Running s ready pri (x :: y :: l)) (hrr : sl.schedPolicy x = .rr)
    (hslice : 1 < sl.timeSlice x) :
    ∃ s', tick (s,sl) = some (s',{ sl with timeSlice := Function.update sl.timeSlice x (sl.timeSlice x - 1) }) ∧
      Running s' ready pri (x :: y :: l) := by
  obtain ⟨hactive,hprio⟩ := h.prio_eq
  obtain ⟨hpref,hrun⟩ := Running.chosen h.rep h.list h.above
  refine ⟨_,?_,hrun⟩
  have hcur : s.rq.curListItem (s.prio s.active) = some x := by
    rw [hactive,hprio,h.rep.cur,h.list]
    rfl
  have hnext : s.links.next x ≠ x := by
    rw [(h.rep.ring pri x (y :: l) h.list).next_eq]
    exact fun heq => (List.nodup_cons.mp (h.rep.ring_nodup h.list)).1 (heq ▸ List.mem_cons_self)
  have hpos : 0 < sl.timeSlice x := by omega
  have hleft : 0 < sl.timeSlice x - 1 := by omega
  simp [tick,timeSliceUpdate,hcur,hrr,hnext,hpos,hleft,hpref]

/-- The last tick of a turn puts the task behind the others. -/
theorem Running.tick_last (h : Running s ready pri (x :: y :: l)) (hrr : sl.schedPolicy x = .rr)
    (hslice : sl.timeSlice x ≤ 1) :
    ∃ s', tick (s,sl) = some (s',{ sl with timeSlice := Function.update sl.timeSlice x (sl.timeTotal x) }) ∧
      Running s' (Function.update ready pri (y :: l ++ [x])) pri (y :: l ++ [x]) := by
  obtain ⟨hactive,hprio⟩ := h.prio_eq
  have hcur : s.rq.curListItem (s.prio s.active) = some x := by
    rw [hactive,hprio,h.rep.cur,h.list]
    rfl
  have hnext : s.links.next x ≠ x := by
    rw [(h.rep.ring pri x (y :: l) h.list).next_eq]
    exact fun heq => (List.nodup_cons.mp (h.rep.ring_nodup h.list)).1 (heq ▸ List.mem_cons_self)
  obtain ⟨s1,hs1,-,-,hrep⟩ := h.rep.rotate (t := x) (by rw [hprio,h.list]; exact List.cons_ne_nil _ _)
  have hrot : listsRotate ready (s.prio x) = Function.update ready pri (y :: l ++ [x]) := by
    rw [hprio]
    simp [listsRotate,h.list]
  rw [hrot] at hrep
  have habove : ∀ p < pri, Function.update ready pri (y :: l ++ [x]) p = [] := by
    intro p hp
    rw [Function.update_of_ne (by omega)]
    exact h.above p hp
  obtain ⟨hpref,hrun⟩ := Running.chosen hrep (Function.update_self ..) habove
  refine ⟨_,?_,hrun⟩
  have hzero : ¬ 0 < (if 0 < sl.timeSlice x then sl.timeSlice x - 1 else sl.timeSlice x) := by
    split_ifs <;> omega
  simp only [tick,timeSliceUpdate,hcur,hrr,hnext,hs1,hzero,reduceCtorEq,↓reduceIte,Option.map_some,
    Option.bind_some,hpref]

theorem ticks_succ (s : ReadyQueue T × Slices T) (n : ℕ) :
    ticks (n + 1) s = (tick s).bind fun s' => (ticks n s').map fun r => (s.1.active :: r.1,r.2) := rfl

theorem ticks_add {a b : ℕ} {s s' s'' : ReadyQueue T × Slices T} {ts ts' : List T}
    (h : ticks a s = some (ts,s')) (h' : ticks b s' = some (ts',s'')) :
    ticks (a + b) s = some (ts ++ ts',s'') := by
  induction a generalizing s ts with
  | zero =>
    obtain ⟨rfl,rfl⟩ : [] = ts ∧ s = s' := by simpa [ticks] using h
    simpa using h'
  | succ a ih =>
    rw [ticks_succ,Option.bind_eq_some_iff] at h
    obtain ⟨m,hm,hrest⟩ := h
    obtain ⟨⟨us,u⟩,hu,heq⟩ := Option.map_eq_some_iff.mp hrest
    obtain ⟨rfl,rfl⟩ : s.1.active :: us = ts ∧ u = s' := by simpa using heq
    rw [Nat.add_right_comm,ticks_succ,hm,Option.bind_some,ih hu]
    rfl

/-- A turn: the task runs for its slice, which is filled up again, and goes behind
the others. -/
theorem Running.turn (h : Running s ready pri (x :: y :: l)) (hrr : sl.schedPolicy x = .rr) :
    ∃ s', ticks (turn sl x) (s,sl) =
        some (List.replicate (turn sl x) x,s',
          { sl with timeSlice := Function.update sl.timeSlice x (sl.timeTotal x) }) ∧
      Running s' (Function.update ready pri (y :: l ++ [x])) pri (y :: l ++ [x]) := by
  obtain ⟨n,hn⟩ : ∃ n, sl.timeSlice x ≤ n := ⟨_,le_rfl⟩
  induction n generalizing s sl with
  | zero =>
    obtain ⟨s',hs',hrun⟩ := h.tick_last hrr (by omega)
    have hturn : Rhino.turn sl x = 1 := by simp [Rhino.turn]; omega
    refine ⟨s',?_,hrun⟩
    rw [hturn,ticks_succ,hs']
    simp [ticks,h.prio_eq.1]
  | succ n ih =>
    rcases Nat.lt_or_ge 1 (sl.timeSlice x) with hlt | hge
    · obtain ⟨s1,hs1,hrun1⟩ := h.tick_within hrr hlt
      have hrr1 : ({ sl with timeSlice := Function.update sl.timeSlice x (sl.timeSlice x - 1) } :
          Slices T).schedPolicy x = .rr := hrr
      obtain ⟨s',hs',hrun⟩ := ih hrun1 hrr1 (by simp; omega)
      have hturn : Rhino.turn sl x =
          Rhino.turn { sl with timeSlice := Function.update sl.timeSlice x (sl.timeSlice x - 1) } x + 1 := by
        simp [Rhino.turn]
        omega
      refine ⟨s',?_,hrun⟩
      rw [hturn,ticks_succ,hs1,Option.bind_some,hs']
      simp [h.prio_eq.1,List.replicate_succ]
    · obtain ⟨s',hs',hrun⟩ := h.tick_last hrr hge
      have hturn : Rhino.turn sl x = 1 := by simp [Rhino.turn]; omega
      refine ⟨s',?_,hrun⟩
      rw [hturn,ticks_succ,hs']
      simp [ticks,h.prio_eq.1]

/-- The slices with those of some tasks filled up again. -/
def refill (sl : Slices T) (l : List T) : Slices T :=
  { sl with timeSlice := fun t => if t ∈ l then sl.timeTotal t else sl.timeSlice t }

theorem refill_cons (sl : Slices T) (hx : x ∉ l) :
    refill { sl with timeSlice := Function.update sl.timeSlice x (sl.timeTotal x) } l = refill sl (x :: l) := by
  unfold refill
  congr 1
  funext t
  by_cases htx : t = x
  · subst htx
    simp [hx]
  · simp [htx]

/-- The turns of the first tasks of the list. -/
theorem Running.turns (h : Running s ready pri (l1 ++ l2)) (hlen : 2 ≤ (l1 ++ l2).length)
    (hrr : ∀ t ∈ l1, sl.schedPolicy t = .rr) :
    ∃ s', ticks (l1.map (Rhino.turn sl)).sum (s,sl) =
        some (l1.flatMap fun t => List.replicate (Rhino.turn sl t) t,s',refill sl l1) ∧
      Running s' (Function.update ready pri (l2 ++ l1)) pri (l2 ++ l1) := by
  induction l1 generalizing s sl ready l2 with
  | nil =>
    refine ⟨s,by simp [ticks,refill],?_⟩
    rw [List.append_nil,Function.update_eq_self_iff.mpr h.list.symm]
    exact h
  | cons x l1 ih =>
    have hnd := h.rep.nodup pri
    rw [h.list,List.cons_append,List.nodup_cons] at hnd
    have hx : x ∉ l1 := fun hmem => hnd.1 (List.mem_append_left _ hmem)
    obtain ⟨y,l,hrest⟩ : ∃ y l, l1 ++ l2 = y :: l := by
      refine List.exists_cons_of_ne_nil fun hnil => ?_
      rw [List.cons_append,hnil] at hlen
      simp at hlen
    rw [List.cons_append,hrest] at h
    obtain ⟨s1,hs1,hrun1⟩ := h.turn (hrr x List.mem_cons_self)
    rw [← hrest,List.append_assoc] at hrun1
    have hrr1 : ∀ t ∈ l1, ({ sl with timeSlice := Function.update sl.timeSlice x (sl.timeTotal x) } :
        Slices T).schedPolicy t = .rr := fun t ht => hrr t (List.mem_cons_of_mem _ ht)
    obtain ⟨s2,hs2,hrun2⟩ := ih hrun1 (by simp at hlen ⊢; omega) hrr1
    have hsame : ∀ t ∈ l1, Rhino.turn { sl with timeSlice := Function.update sl.timeSlice x (sl.timeTotal x) } t =
        Rhino.turn sl t := by
      intro t ht
      simp [Rhino.turn,ne_of_mem_of_not_mem ht hx]
    rw [List.map_congr_left hsame,List.flatMap_congr fun t ht => by rw [hsame t ht],refill_cons sl hx] at hs2
    rw [Function.update_idem,List.append_assoc,List.singleton_append] at hrun2
    exact ⟨s2,ticks_add hs1 hs2,hrun2⟩

/-- A round of ticks runs every task of the running priority for exactly its own
slice, in the order of the list, and leaves the list as it was with all of these
slices filled up again. -/
theorem round_of_ticks (h : Running s ready pri l) (hlen : 2 ≤ l.length)
    (hrr : ∀ t ∈ l, sl.schedPolicy t = .rr) :
    ∃ s', ticks (l.map (turn sl)).sum (s,sl) =
        some (l.flatMap fun t => List.replicate (turn sl t) t,s',refill sl l) ∧
      Running s' ready pri l := by
  have hall : Running s ready pri (l ++ []) := by simpa using h
  obtain ⟨s',hs',hrun⟩ := hall.turns (by simpa using hlen) hrr
  rw [List.nil_append,Function.update_eq_self_iff.mpr h.list.symm] at hrun
  exact ⟨s',hs',hrun⟩

/-- Two tasks of priority 5 with slices of two and three ticks. -/
theorem round_of_ticks_two :
    (ticks 5 (readyListAddTail (readyListAddTail (⟨⟨id,id⟩,runqueueInit,fun _ => 5,0⟩ : ReadyQueue (Fin 2)) 0) 1,
      ⟨fun t => 2 + t.val,fun _ => 5,fun _ => .rr⟩)).map Prod.fst = some [0,0,1,1,1] := by
  have h0 := (represents_init (T := Fin 2) ⟨id,id⟩ (fun _ => 5) 0).addTail (t := 0) (by decide) (by simp)
  have h1 := h0.addTail (t := 1) (by decide) (by
    intro p
    by_cases hp : p = 5 <;> simp [listsAddTail,hp])
  have hrun : Running (readyListAddTail (readyListAddTail (⟨⟨id,id⟩,runqueueInit,fun _ => 5,0⟩ : ReadyQueue (Fin 2)) 0) 1)
      (listsAddTail (listsAddTail (fun _ => []) 5 0) 5 1) 5 [0,1] := by
    refine ⟨h1,by simp [listsAddTail],rfl,?_⟩
    intro p hp
    simp [listsAddTail,hp.ne]
  have hrr : ∀ t ∈ [0,1], (⟨fun t => 2 + t.val,fun _ => 5,fun _ => .rr⟩ : Slices (Fin 2)).schedPolicy t = .rr :=
    fun _ _ => rfl
  obtain ⟨s',hs',-⟩ := round_of_ticks hrun (by decide) hrr
  have hsum : (([0,1] : List (Fin 2)).map (turn ⟨fun t => 2 + t.val,fun _ => 5,fun _ => .rr⟩)).sum = 5 := by decide
  rw [hsum] at hs'
  rw [hs']
  rfl

end FmacSdk.Rhino
