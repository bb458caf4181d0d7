import FmacSdk.Posix.Pthread

/-! # Phases of a thread descriptor

What a descriptor goes through from its allocation to its release, seen from the
descriptor: how far its thread is, and what the calls of the others do with it.
-/
namespace FmacSdk.Pthread
variable {ι : Type*}

inductive Life
  | absent
  | running
  | finish
  | up
  | freeing (x : FreeStmt)
  | ended
  | deleted
deriving DecidableEq

def Pc.life : Pc → Life
  | .absent => .absent
  | .finish _ => .finish
  | .up _ => .up
  | .free _ x true => .freeing x
  | .ended => .ended
  | .deleted => .deleted
  | _ => .running

/-- What a task does with the descriptor. -/
inductive Role
  | none
  | set
  | init
  | start
  | check
  | join
  | detach
  | free (x : FreeStmt)
deriving DecidableEq

def Pc.role (d : ℕ) : Pc → Role
  | .set e _ => if e = d then .set else .none
  | .init e _ => if e = d then .init else .none
  | .start e => if e = d then .start else .none
  | .check e => if e = d then .check else .none
  | .down e | .wait e => if e = d then .join else .none
  | .detach e => if e = d then .detach else .none
  | .free e x false => if e = d then .free x else .none
  | _ => .none

/-- The statements that a thread takes for itself. -/
def Pc.owner : Pc → Option ℕ
  | .exit d | .finish d | .up d | .free d _ true => some d
  | _ => none

@[ext] structure View (ι : Type*) where
  fresh : Prop
  life : Life
  role : OsTask ι → Role
  thd : Thd
  listed : Prop
  joined : Bool

def Sys.view (s : Sys ι) (d : ℕ) : View ι :=
  ⟨d = 0 ∨ s.next < d,(s.pc (.thread d)).life,fun k => (s.pc k).role d,s.thds d,s.Listed d,s.joined d⟩

/-- Nobody else does anything with the descriptor. -/
def Alone (r : OsTask ι → Role) (k : OsTask ι) : Prop := ∀ j, j ≠ k → r j = .none

def Quiet (r : OsTask ι → Role) : Prop := ∀ k, r k = .none

/-- Allocated, not freed, and not joined. -/
def View.Kept (v : View ι) : Prop := ¬ v.fresh ∧ v.thd.frees = 0 ∧ v.joined = false

/-- What holds when task `k` does something with the descriptor: it makes it, or joins the
thread alone, or it is one of those who detach it or find it detached, or frees it. -/
inductive View.Used (v : View ι) (k : OsTask ι) : Prop
  | creates (hkept : v.Kept) (hlife : v.life = .absent) (halone : Alone v.role k)
      (hrole : v.role k = .set ∧ ¬ v.listed ∨ v.role k = .init ∧ v.listed ∨
        v.role k = .start ∧ v.listed ∧ v.thd.joinSema = some 0)
  | joins (hkept : v.Kept) (hlisted : v.listed) (hdetach : v.thd.detachstate = false)
      (hlife : (v.life = .running ∨ v.life = .finish ∨ v.life = .up) ∧ v.thd.joinSema = some 0 ∨
        v.life = .ended ∧ v.thd.joinSema = some 1)
      (hrole : v.role k = .check ∨ v.role k = .join) (halone : Alone v.role k)
  | detaches (hkept : v.Kept) (hlisted : v.listed) (hlife : v.life = .running) (hsema : v.thd.joinSema = some 0)
      (hrole : ∀ j, v.role j = .none ∨ v.role j = .detach ∨ v.role j = .check ∧ v.thd.detachstate = true)
  | frees (hkept : v.Kept) (hdetach : v.thd.detachstate = false) (hlife : v.life = .ended)
      (x : FreeStmt) (halone : Alone v.role k) (hrole : v.role k = .free x) (hlisted : v.listed ↔ x = .del)

/-- The phases of a descriptor. -/
inductive Phase (v : View ι) : Prop
  | fresh (hfresh : v.fresh) (hlife : v.life = .absent) (hrole : Quiet v.role) (hthd : v.thd = ⟨false,some 0,0⟩)
      (hlisted : ¬ v.listed) (hjoined : v.joined = false)
  | used (k : OsTask ι) (h : v.Used k)
  | idle (hkept : v.Kept) (hlisted : v.listed) (hrole : Quiet v.role)
      (hlife : v.life = .running ∧ v.thd.joinSema = some 0 ∨ v.thd.detachstate = false ∧
        ((v.life = .finish ∨ v.life = .up) ∧ v.thd.joinSema = some 0 ∨ v.life = .ended ∧ v.thd.joinSema = some 1))
  | detached (hkept : v.Kept) (hdetach : v.thd.detachstate = true) (hrole : Quiet v.role)
      (hlife : v.life = .finish ∧ v.listed ∨ ∃ x, v.life = .freeing x ∧ (v.listed ↔ x = .del))
  | freed (hfresh : ¬ v.fresh) (hlife : v.life = .ended ∨ v.life = .absent) (hrole : Quiet v.role)
      (hfrees : v.thd.frees = 1) (hlisted : ¬ v.listed)
  | deleted (hkept : v.Kept) (hdetach : v.thd.detachstate = false) (hlife : v.life = .deleted) (hrole : Quiet v.role)

def View.act [DecidableEq ι] (v : View ι) (k : OsTask ι) (r : Role) : View ι :=
  { v with role := Function.update v.role k r }

section Phases
variable {v : View ι} {k : OsTask ι}

theorem View.Kept.allocated (h : v.Kept) : ¬ v.fresh := h.1

theorem View.Kept.frees (h : v.Kept) : v.thd.frees = 0 := h.2.1

theorem View.Kept.joined (h : v.Kept) : v.joined = false := h.2.2

theorem View.Used.kept (h : v.Used k) : v.Kept := by
  cases h <;> assumption

theorem Phase.used_by (h : Phase v) (hk : v.role k ≠ .none) : v.Used k := by
  cases h with
  | fresh _ _ hrole _ _ _ => exact absurd (hrole k) hk
  | used j h =>
    have hwho (halone : Alone v.role j) : k = j := by
      by_contra hne
      exact hk (halone k hne)
    cases h with
    | creates hkept hlife halone hrole =>
      obtain rfl := hwho halone
      exact .creates hkept hlife halone hrole
    | joins hkept hlisted hdetach hlife hrole halone =>
      obtain rfl := hwho halone
      exact .joins hkept hlisted hdetach hlife hrole halone
    | detaches hkept hlisted hlife hsema hrole => exact .detaches hkept hlisted hlife hsema hrole
    | frees hkept hdetach hlife x halone hrole hlisted =>
      obtain rfl := hwho halone
      exact .frees hkept hdetach hlife x halone hrole hlisted
  | idle _ _ hrole _ => exact absurd (hrole k) hk
  | detached _ _ hrole _ => exact absurd (hrole k) hk
  | freed _ _ hrole _ _ => exact absurd (hrole k) hk
  | deleted _ _ _ hrole => exact absurd (hrole k) hk

theorem View.Used.new (h : v.Used k) (hk : v.role k = .set) : v.Kept ∧ v.life = .absent ∧ Alone v.role k ∧ ¬ v.listed := by
  cases h with
  | creates hkept hlife halone hrole => exact ⟨hkept,hlife,halone,by simpa [hk] using hrole⟩
  | joins _ _ _ _ hrole _ => simp [hk] at hrole
  | detaches _ _ _ _ hrole => simpa [hk] using hrole k
  | frees _ _ _ _ _ hrole _ => simp [hk] at hrole

theorem View.Used.starts (h : v.Used k) (hk : v.role k = .start) :
    v.life = .absent ∧ Alone v.role k ∧ v.listed ∧ v.thd.joinSema = some 0 := by
  cases h with
  | creates _ hlife halone hrole => exact ⟨hlife,halone,by simpa [hk] using hrole⟩
  | joins _ _ _ _ hrole _ => simp [hk] at hrole
  | detaches _ _ _ _ hrole => simpa [hk] using hrole k
  | frees _ _ _ _ _ hrole _ => simp [hk] at hrole

/-- A join has its thread for itself, and waits for its end. -/
theorem View.Used.join (h : v.Used k) (hk : v.role k = .join) :
    v.listed ∧ v.thd.detachstate = false ∧ Alone v.role k ∧
      ((v.life = .running ∨ v.life = .finish ∨ v.life = .up) ∧ v.thd.joinSema = some 0 ∨
        v.life = .ended ∧ v.thd.joinSema = some 1) := by
  cases h with
  | creates _ _ _ hrole => simp [hk] at hrole
  | joins _ hlisted hdetach hlife _ halone => exact ⟨hlisted,hdetach,halone,hlife⟩
  | detaches _ _ _ _ hrole => simpa [hk] using hrole k
  | frees _ _ _ _ _ hrole _ => simp [hk] at hrole

theorem Phase.absent (h : Phase v) (hfresh : v.fresh) : v.life = .absent := by
  cases h with
  | fresh _ hlife _ _ _ _ => exact hlife
  | used _ h => exact absurd hfresh h.kept.allocated
  | idle hkept _ _ _ => exact absurd hfresh hkept.allocated
  | detached hkept _ _ _ => exact absurd hfresh hkept.allocated
  | freed hold _ _ _ _ => exact absurd hfresh hold
  | deleted hkept _ _ _ => exact absurd hfresh hkept.allocated

theorem Phase.kept (h : Phase v) (hlife : v.life = .running) : v.Kept := by
  cases h with
  | fresh _ habsent _ _ _ _ => simp [hlife] at habsent
  | used _ h => exact h.kept
  | idle hkept _ _ _ => exact hkept
  | detached hkept _ _ _ => exact hkept
  | freed _ hends _ _ _ => simp [hlife] at hends
  | deleted hkept _ _ _ => exact hkept

/-- Without joins and detachments nobody does anything with a thread that was made. -/
theorem Phase.quiet (h : Phase v) (hlife : v.life ≠ .absent)
    (hjoins : ∀ j, v.role j ≠ .check ∧ v.role j ≠ .join ∧ ∀ x, v.role j ≠ .free x)
    (hdetaches : ∀ j, v.role j ≠ .detach) : Quiet v.role := by
  intro j
  by_contra hj
  cases h.used_by hj with
  | creates _ habsent _ _ => exact hlife habsent
  | joins _ _ _ _ hrole _ => exact hrole.elim (hjoins j).1 (hjoins j).2.1
  | detaches _ _ _ _ hrole =>
    rcases hrole j with hnone | hdetach | ⟨hcheck,-⟩
    · exact hj hnone
    · exact hdetaches j hdetach
    · exact (hjoins j).1 hcheck
  | frees _ _ _ x _ hrole _ => exact (hjoins j).2.2 x hrole

/-- os_task_del of the current task -/
theorem Phase.exit (h : Phase v) (hlife : v.life = .running) (hdetach : v.thd.detachstate = false)
    (hquiet : Quiet v.role) : Phase { v with life := .deleted } :=
  .deleted (h.kept hlife) hdetach rfl hquiet

/-- The start routine returns. -/
theorem Phase.ends (h : Phase v) (hlife : v.life = .running) (hdetaches : ∀ j, v.role j ≠ .detach)
    (hchecks : v.thd.detachstate = true → ∀ j, v.role j ≠ .check) : Phase { v with life := .finish } := by
  have hquiet (hkept : v.Kept) (hlisted : v.listed) (hsema : v.thd.joinSema = some 0) (hrole : Quiet v.role) :
      Phase { v with life := .finish } := by
    cases hd : v.thd.detachstate with
    | true => exact .detached hkept hd hrole (Or.inl ⟨rfl,hlisted⟩)
    | false =>
      exact .idle hkept hlisted hrole
        (Or.inr ⟨hd,Or.inl ⟨Or.inl rfl,hsema⟩⟩)
  cases h with
  | fresh _ habsent _ _ _ _ => simp [hlife] at habsent
  | used k h =>
    cases h with
    | creates _ habsent _ _ => simp [hlife] at habsent
    | joins hkept hlisted hdetach hstate hrole halone =>
      have hsema : v.thd.joinSema = some 0 := by simpa [hlife] using hstate
      exact .used k (.joins hkept hlisted hdetach
        (Or.inl ⟨Or.inr (Or.inl rfl),hsema⟩) hrole halone)
    | detaches hkept hlisted _ hsema hrole =>
      refine hquiet hkept hlisted hsema fun j => ?_
      rcases hrole j with hnone | hdetach | ⟨hcheck,hd⟩
      · exact hnone
      · exact absurd hdetach (hdetaches j)
      · exact absurd hcheck (hchecks hd j)
    | frees _ _ hended _ _ _ _ => simp [hlife] at hended
  | idle hkept hlisted hrole hstate =>
    have hsema : v.thd.joinSema = some 0 := by simpa [hlife] using hstate
    exact hquiet hkept hlisted hsema hrole
  | detached _ _ _ hends => simp [hlife] at hends
  | freed _ hends _ _ _ => simp [hlife] at hends
  | deleted _ _ hdeleted _ => simp [hlife] at hdeleted

/-- pthread_task_entry reads detachstate. -/
theorem Phase.finish (h : Phase v) (hlife : v.life = .finish) :
    v.Kept ∧ Phase { v with life := if v.thd.detachstate then .freeing .del else .up } := by
  cases h with
  | fresh _ habsent _ _ _ _ => simp [hlife] at habsent
  | used k h =>
    refine ⟨h.kept,?_⟩
    cases h with
    | creates _ habsent _ _ => simp [hlife] at habsent
    | joins hkept hlisted hdetach hstate hrole halone =>
      have hsema : v.thd.joinSema = some 0 := by simpa [hlife] using hstate
      rw [hdetach]
      exact .used k (.joins hkept hlisted hdetach
        (Or.inl ⟨Or.inr (Or.inr rfl),hsema⟩) hrole halone)
    | detaches _ _ hrunning _ _ => simp [hlife] at hrunning
    | frees _ _ hended _ _ _ _ => simp [hlife] at hended
  | idle hkept hlisted hrole hstate =>
    obtain ⟨hdetach,hsema⟩ : v.thd.detachstate = false ∧ v.thd.joinSema = some 0 := by simpa [hlife] using hstate
    refine ⟨hkept,?_⟩
    rw [hdetach]
    exact .idle hkept hlisted hrole
      (Or.inr ⟨hdetach,Or.inl ⟨Or.inr rfl,hsema⟩⟩)
  | detached hkept hdetach hrole hstate =>
    have hlisted : v.listed := by simpa [hlife] using hstate
    refine ⟨hkept,?_⟩
    rw [hdetach]
    exact .detached hkept hdetach hrole
      (Or.inr ⟨.del,rfl,iff_of_true hlisted rfl⟩)
  | freed _ hends _ _ _ => simp [hlife] at hends
  | deleted _ _ hdeleted _ => simp [hlife] at hdeleted

/-- The thread ups its semaphore. -/
theorem Phase.up (h : Phase v) (hlife : v.life = .up) :
    v.Kept ∧ Phase { v with life := .ended, thd := { v.thd with joinSema := v.thd.joinSema.map (· + 1) } } := by
  cases h with
  | fresh _ habsent _ _ _ _ => simp [hlife] at habsent
  | used k h =>
    refine ⟨h.kept,?_⟩
    cases h with
    | creates _ habsent _ _ => simp [hlife] at habsent
    | joins hkept hlisted hdetach hstate hrole halone =>
      have hsema : v.thd.joinSema = some 0 := by simpa [hlife] using hstate
      exact .used k (.joins hkept hlisted hdetach
        (Or.inr ⟨rfl,congrArg (Option.map (· + 1)) hsema⟩) hrole halone)
    | detaches _ _ hrunning _ _ => simp [hlife] at hrunning
    | frees _ _ hended _ _ _ _ => simp [hlife] at hended
  | idle hkept hlisted hrole hstate =>
    obtain ⟨hdetach,hsema⟩ : v.thd.detachstate = false ∧ v.thd.joinSema = some 0 := by simpa [hlife] using hstate
    exact ⟨hkept,.idle hkept hlisted hrole
      (Or.inr ⟨hdetach,Or.inr ⟨rfl,congrArg (Option.map (· + 1)) hsema⟩⟩)⟩
  | detached _ _ _ hends => simp [hlife] at hends
  | freed _ hends _ _ _ => simp [hlife] at hends
  | deleted _ _ hdeleted _ => simp [hlife] at hdeleted

/-- A detached thread frees its own descriptor. -/
theorem Phase.freeing (h : Phase v) {x : FreeStmt} (hlife : v.life = .freeing x) :
    v.Kept ∧ v.thd.detachstate = true ∧ Quiet v.role ∧ (v.listed ↔ x = .del) := by
  cases h with
  | fresh _ habsent _ _ _ _ => simp [hlife] at habsent
  | used k h => cases h <;> simp_all
  | idle _ _ _ hstate => simp [hlife] at hstate
  | detached hkept hdetach hrole hstate =>
    have hlisted : v.listed ↔ x = .del := by simpa [hlife] using hstate
    exact ⟨hkept,hdetach,hrole,hlisted⟩
  | freed _ hends _ _ _ => simp [hlife] at hends
  | deleted _ _ hdeleted _ => simp [hlife] at hdeleted

theorem Phase.freeing_next (h : Phase v) {x y : FreeStmt} (hlife : v.life = .freeing x) (hy : y ≠ .del) {l : Prop}
    (hl : ¬ l) (o : Option ℕ) :
    Phase { v with life := .freeing y, thd := { v.thd with joinSema := o }, listed := l } := by
  obtain ⟨hkept,hdetach,hrole,-⟩ := h.freeing hlife
  exact .detached hkept hdetach hrole (Or.inr ⟨y,rfl,iff_of_false hl hy⟩)

theorem Phase.freeing_end (h : Phase v) (hlife : v.life = .freeing .freeThd) :
    Phase { v with life := .ended, thd := { v.thd with frees := v.thd.frees + 1 } } := by
  obtain ⟨hkept,-,hrole,hlisted⟩ := h.freeing hlife
  exact .freed hkept.allocated (Or.inl rfl) hrole (congrArg (· + 1) hkept.frees) (by simp [hlisted])

/-- A join that has waited frees the descriptor. -/
theorem View.Used.free (h : v.Used k) {x : FreeStmt} (hk : v.role k = .free x) :
    v.thd.detachstate = false ∧ v.life = .ended ∧ Alone v.role k ∧ (v.listed ↔ x = .del) := by
  cases h with
  | creates _ _ _ hrole => simp [hk] at hrole
  | joins _ _ _ _ hrole _ => simp [hk] at hrole
  | detaches _ _ _ _ hrole => simpa [hk] using hrole k
  | frees _ hdetach hended y halone hrole hlisted =>
    obtain rfl := Role.free.inj (hk.symm.trans hrole)
    exact ⟨hdetach,hended,halone,hlisted⟩

theorem Phase.frees_le (h : Phase v) : v.thd.frees ≤ 1 := by
  cases h with
  | fresh _ _ _ hthd _ _ => simp [hthd]
  | used _ h => simp [h.kept.frees]
  | idle hkept _ _ _ => simp [hkept.frees]
  | detached hkept _ _ _ => simp [hkept.frees]
  | freed _ _ _ hfrees _ => exact hfrees.le
  | deleted hkept _ _ _ => simp [hkept.frees]

theorem Phase.unlisted (h : Phase v) (hlife : v.life = .ended ∨ v.life = .deleted)
    (hdone : v.joined = true ∨ v.thd.detachstate = true) : ¬ v.listed := by
  have hnot (hkept : v.Kept) (hdetach : v.thd.detachstate = false) : False := by
    rcases hdone with hjoined | hdetached
    · simp [hkept.joined] at hjoined
    · simp [hdetach] at hdetached
  cases h with
  | fresh _ habsent _ _ _ _ => simp [habsent] at hlife
  | used _ h =>
    cases h with
    | creates _ habsent _ _ => simp [habsent] at hlife
    | joins hkept _ hdetach _ _ _ => exact (hnot hkept hdetach).elim
    | detaches _ _ hrunning _ _ => simp [hrunning] at hlife
    | frees hkept hdetach _ _ _ _ _ => exact (hnot hkept hdetach).elim
  | idle hkept _ _ hstate =>
    rcases hstate with ⟨hrunning,-⟩ | ⟨hdetach,-⟩
    · simp [hrunning] at hlife
    · exact (hnot hkept hdetach).elim
  | detached _ _ _ hstate =>
    rcases hstate with ⟨hfinish,-⟩ | ⟨x,hfreeing,-⟩
    · simp [hfinish] at hlife
    · simp [hfreeing] at hlife
  | freed _ _ _ _ hnone => exact hnone
  | deleted hkept hdetach _ _ => exact (hnot hkept hdetach).elim

variable [DecidableEq ι]

@[simp] theorem act_role_self (r : Role) : (v.act k r).role k = r := Function.update_self ..

theorem act_role_of_ne (r : Role) {j : OsTask ι} (h : j ≠ k) : (v.act k r).role j = v.role j :=
  Function.update_of_ne h ..

theorem act_self : v.act k (v.role k) = v := by
  unfold View.act
  rw [Function.update_eq_self]

theorem Alone.act (h : Alone v.role k) (r : Role) : Alone (v.act k r).role k := fun j hj =>
  (act_role_of_ne r hj).trans (h j hj)

theorem Alone.leaves (h : Alone v.role k) : Quiet (v.act k .none).role := fun j => by
  by_cases hj : j = k
  · rw [hj,act_role_self]
  · exact h.act .none j hj

theorem Quiet.enters (h : Quiet v.role) (r : Role) : Alone (v.act k r).role k := fun j hj =>
  (act_role_of_ne r hj).trans (h j)

/-- os_zalloc -/
theorem Phase.alloc (h : Phase v) (hfresh : v.fresh) : Phase ({ v with fresh := False }.act k .set) := by
  cases h with
  | fresh _ hlife hrole hthd hlisted hjoined =>
    refine .used k (.creates ⟨id,congrArg Thd.frees hthd,hjoined⟩ hlife (hrole.enters .set) (Or.inl ⟨?_,hlisted⟩))
    exact act_role_self _
  | used _ h => exact absurd hfresh h.kept.allocated
  | idle hkept _ _ _ => exact absurd hfresh hkept.allocated
  | detached hkept _ _ _ => exact absurd hfresh hkept.allocated
  | freed hold _ _ _ _ => exact absurd hfresh hold
  | deleted hkept _ _ _ => exact absurd hfresh hkept.allocated

theorem View.Used.set (h : v.Used k) (hk : v.role k = .set) : Phase ({ v with listed := True }.act k .init) := by
  obtain ⟨hkept,hlife,halone,-⟩ := h.new hk
  refine .used k (.creates hkept hlife (halone.act .init) ?_)
  exact Or.inr (Or.inl ⟨act_role_self _,trivial⟩)

theorem View.Used.full (h : v.Used k) (hk : v.role k = .set) :
    Phase ({ v with thd := { v.thd with frees := v.thd.frees + 1 } }.act k .none) := by
  obtain ⟨hkept,hlife,halone,hlisted⟩ := h.new hk
  exact .freed hkept.allocated (Or.inr hlife) halone.leaves (congrArg (· + 1) hkept.frees) hlisted

theorem View.Used.init (h : v.Used k) (hk : v.role k = .init) (b : Bool) :
    Phase ({ v with thd := { v.thd with detachstate := b, joinSema := some 0 } }.act k .start) := by
  cases h with
  | creates hkept hlife halone hrole =>
    have hlisted : v.listed := by simpa [hk] using hrole
    refine .used k (.creates hkept hlife (halone.act .start) ?_)
    exact Or.inr (Or.inr ⟨act_role_self _,hlisted,rfl⟩)
  | joins _ _ _ _ hrole _ => simp [hk] at hrole
  | detaches _ _ _ _ hrole => simpa [hk] using hrole k
  | frees _ _ _ _ _ hrole _ => simp [hk] at hrole

theorem View.Used.start (h : v.Used k) (hk : v.role k = .start) : Phase ({ v with life := .running }.act k .none) := by
  obtain ⟨-,halone,hlisted,hsema⟩ := h.starts hk
  exact .idle h.kept hlisted halone.leaves (Or.inl ⟨rfl,hsema⟩)

/-- The lookup of pthread_join. -/
theorem Phase.joinGet (h : Phase v) (hlisted : v.listed)
    (hmay : v.thd.detachstate = true ∧ v.life = .running ∨
      v.thd.detachstate = false ∧ Quiet v.role ∧ v.life ≠ .absent ∧ v.life ≠ .deleted) : Phase (v.act k .check) := by
  have hbusy {j : OsTask ι} {r : Role} (hj : v.role j = r) (hr : r ≠ .none) (hd : v.thd.detachstate = false) :
      False := by
    rcases hmay with ⟨htrue,-⟩ | ⟨-,hquiet,-⟩
    · simp [hd] at htrue
    · exact hr (hj.symm.trans (hquiet j))
  have hrun (hd : v.thd.detachstate = true) : v.life = .running := by
    rcases hmay with ⟨-,hlife⟩ | ⟨hfalse,-⟩
    · exact hlife
    · simp [hd] at hfalse
  cases h with
  | fresh _ _ _ _ hno _ => exact absurd hlisted hno
  | used j h =>
    cases h with
    | creates _ hlife _ _ =>
      rcases hmay with ⟨-,hrun⟩ | ⟨-,-,habsent,-⟩
      · simp [hlife] at hrun
      · exact absurd hlife habsent
    | joins _ _ hdetach _ hrole _ =>
      rcases hrole with hrole | hrole <;> exact (hbusy hrole (by decide) hdetach).elim
    | detaches hkept _ hlife hsema hrole =>
      rcases hmay with ⟨hdetach,-⟩ | ⟨hdetach,hquiet,-⟩
      · refine .used k (.detaches hkept hlisted hlife hsema fun j => ?_)
        by_cases hj : j = k
        · rw [hj,act_role_self]
          exact Or.inr (Or.inr ⟨rfl,hdetach⟩)
        · rw [act_role_of_ne .check hj]
          exact hrole j
      · exact .used k (.joins hkept hlisted hdetach (Or.inl ⟨Or.inl hlife,hsema⟩)
          (Or.inl (act_role_self _)) (hquiet.enters .check))
    | frees _ hdetach _ x _ hrole _ => exact (hbusy hrole (by simp) hdetach).elim
  | idle hkept _ hquiet hlife =>
    cases hd : v.thd.detachstate with
    | true =>
      have hsema : v.thd.joinSema = some 0 := by
        rcases hlife with ⟨-,hsema⟩ | ⟨hfalse,-⟩
        · exact hsema
        · simp [hd] at hfalse
      refine .used k (.detaches hkept hlisted (hrun hd) hsema fun j => ?_)
      by_cases hj : j = k
      · rw [hj,act_role_self]
        exact Or.inr (Or.inr ⟨rfl,hd⟩)
      · rw [act_role_of_ne .check hj]
        exact Or.inl (hquiet j)
    | false =>
      refine .used k (.joins hkept hlisted hd ?_ (Or.inl (act_role_self _))
        (hquiet.enters .check))
      rcases hlife with ⟨hrunning,hsema⟩ | ⟨-,⟨hlife,hsema⟩ | hended⟩
      · exact Or.inl ⟨Or.inl hrunning,hsema⟩
      · exact Or.inl ⟨Or.inr hlife,hsema⟩
      · exact Or.inr hended
  | detached _ hdetach _ hlife =>
    rw [hrun hdetach] at hlife
    simp at hlife
  | freed _ _ _ _ hno => exact absurd hlisted hno
  | deleted _ hdetach hlife _ =>
    rcases hmay with ⟨-,hrun⟩ | ⟨-,-,-,hdeleted⟩
    · simp [hlife] at hrun
    · exact absurd hlife hdeleted

theorem View.Used.check (h : v.Used k) (hk : v.role k = .check) :
    Phase (v.act k (if v.thd.detachstate then .none else .join)) := by
  cases h with
  | creates _ _ _ hrole => simp [hk] at hrole
  | joins hkept hlisted hdetach hlife _ halone =>
    rw [hdetach]
    exact .used k (.joins hkept hlisted hdetach hlife (Or.inr (act_role_self _))
      (halone.act .join))
  | detaches hkept hlisted hlife hsema hrole =>
    have hdetach : v.thd.detachstate = true := by simpa [hk] using hrole k
    rw [hdetach]
    refine .used k (.detaches hkept hlisted hlife hsema fun j => ?_)
    by_cases hj : j = k
    · rw [hj]
      exact Or.inl (act_role_self _)
    · rw [act_role_of_ne _ hj]
      exact hrole j
  | frees _ _ _ _ _ hrole _ => simp [hk] at hrole

theorem View.Used.wait (h : v.Used k) (hk : v.role k = .join) {n : ℕ} (hsema : v.thd.joinSema = some (n + 1)) :
    Phase ({ v with thd := { v.thd with joinSema := some n } }.act k (.free .del)) := by
  obtain ⟨hlisted,hdetach,halone,hlife⟩ := h.join hk
  rw [hsema] at hlife
  have hended : v.life = .ended := by
    rcases hlife with ⟨-,hzero⟩ | ⟨hended,-⟩
    · simp at hzero
    · exact hended
  exact .used k (.frees h.kept hdetach hended .del (halone.act _)
    (act_role_self _) (iff_of_true hlisted rfl))

/-- The lookup of pthread_detach. -/
theorem Phase.detachGet (h : Phase v) (hlisted : v.listed) (hlife : v.life = .running)
    (hno : v.thd.detachstate = false → ∀ j, v.role j ≠ .check ∧ v.role j ≠ .join) : Phase (v.act k .detach) := by
  have hnext (hkept : v.Kept) (hsema : v.thd.joinSema = some 0)
      (hrole : ∀ j, v.role j = .none ∨ v.role j = .detach ∨ v.role j = .check ∧ v.thd.detachstate = true) :
      Phase (v.act k .detach) := by
    refine .used k (.detaches hkept hlisted hlife hsema fun j => ?_)
    by_cases hj : j = k
    · rw [hj]
      exact Or.inr (Or.inl (act_role_self _))
    · rw [act_role_of_ne _ hj]
      exact hrole j
  cases h with
  | fresh _ _ _ _ hnone _ => exact absurd hlisted hnone
  | used j h =>
    cases h with
    | creates _ habsent _ _ => simp [hlife] at habsent
    | joins _ _ hdetach _ hrole _ => exact (hrole.elim (hno hdetach j).1 (hno hdetach j).2).elim
    | detaches hkept _ _ hsema hrole => exact hnext hkept hsema hrole
    | frees _ _ hended _ _ _ _ => simp [hlife] at hended
  | idle hkept _ hquiet hstate =>
    have hsema : v.thd.joinSema = some 0 := by simpa [hlife] using hstate
    exact hnext hkept hsema fun j => Or.inl (hquiet j)
  | detached _ _ _ hends => simp [hlife] at hends
  | freed _ _ _ _ hnone => exact absurd hlisted hnone
  | deleted _ _ hdeleted _ => simp [hlife] at hdeleted

theorem View.Used.detach (h : v.Used k) (hk : v.role k = .detach) :
    Phase ({ v with thd := { v.thd with detachstate := true } }.act k .none) := by
  cases h with
  | creates _ _ _ hrole => simp [hk] at hrole
  | joins _ _ _ _ hrole _ => simp [hk] at hrole
  | detaches hkept hlisted hlife hsema hrole =>
    refine .used k (.detaches hkept hlisted hlife hsema fun j => ?_)
    by_cases hj : j = k
    · rw [hj]
      exact Or.inl (act_role_self _)
    · rw [act_role_of_ne _ hj]
      exact (hrole j).imp_right (Or.imp_right fun hcheck => ⟨hcheck.1,rfl⟩)
  | frees _ _ _ _ _ hrole _ => simp [hk] at hrole

theorem View.Used.free_next (h : v.Used k) {x y : FreeStmt} (hk : v.role k = .free x) (hy : y ≠ .del) {l : Prop}
    (hl : ¬ l) (o : Option ℕ) :
    Phase ({ v with thd := { v.thd with joinSema := o }, listed := l }.act k (.free y)) := by
  obtain ⟨hdetach,hended,halone,-⟩ := h.free hk
  exact .used k (.frees h.kept hdetach hended y (halone.act _)
    (act_role_self _) (iff_of_false hl hy))

theorem View.Used.free_end (h : v.Used k) (hk : v.role k = .free .freeThd) :
    Phase ({ v with thd := { v.thd with frees := v.thd.frees + 1 }, joined := true }.act k .none) := by
  obtain ⟨-,hended,halone,hlisted⟩ := h.free hk
  exact .freed h.kept.allocated (Or.inl hended) halone.leaves (congrArg (· + 1) h.kept.frees)
    fun hl => absurd (hlisted.mp hl) (by decide)

end Phases

end FmacSdk.Pthread
