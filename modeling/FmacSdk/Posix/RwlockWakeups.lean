import FmacSdk.Posix.Rwlock

/-! # Wake-ups of a reader-writer lock

pthread_cond_signal wakes one and pthread_cond_broadcast all that wait, and a wait
may time out. Only pthread_rwlock_unlock wakes readers, so a writer that gives up
leaves behind those who waited because of it.
-/
namespace FmacSdk.Rwlock
open Tally Transition

/-- In a wait that has not timed out. -/
def Pc.Blocked (p : Pc) (m : Mode) : Prop := ∃ f, f.mode = m ∧ (p = .blocked f none ∨ p = .blocked f (some 0))

/-- A wake-up for the thread has been issued. -/
def Pc.Issued (p : Pc) (m : Mode) : Prop := ∃ f, f.mode = m ∧ p = .blocked f (some 0)

/-- The thread will see to those who sleep, or stop them from getting the lock. -/
def Pc.duty : Mode → Pc → Bool
  | _, .wake => true
  | .rd, .test f | .rd, .count f | .rd, .check f _ | .rd, .grant f _ => f.mode = .wr
  | .rd, .leave f r => f.mode = .wr ∧ r ≠ 0
  | .wr, .test f => f.mode = .wr
  | .wr, .blocked f (some r) | .wr, .uncount f r | .wr, .check f r | .wr, .grant f r => f.mode = .wr ∧ r = 0
  | _, _ => false

/-- A writer unlocks rw_mutex without the lock. -/
def Pc.denied : Pc → Bool
  | .leave f r => f.mode = .wr ∧ r ≠ 0
  | _ => false

section Fates
variable {ι : Type*} [Fintype ι]

/-- No wake-up is lost. -/
structure Sys.Attended (s : Sys ι) : Prop where
  readers : s.rwMutex = none → ∀ i, (s.pc i).Blocked .rd →
    (∃ j, 0 < s.held .wr j) ∨ (∃ j, (s.pc j).Waiting .wr) ∨ (s.pc i).Issued .rd
  writers : s.rwMutex = none → ∀ i, (s.pc i).Blocked .wr →
    (∃ j m, 0 < s.held m j) ∨ ∃ j, (s.pc j).Issued .wr

/-- A writer that did not get the lock leaves it to readers that sleep. -/
def Forsakes (s : Sys ι) : Label ι → Prop
  | .go i => (s.pc i).denied = true ∧ (∃ j, (s.pc j).Asleep .rd) ∧ ¬ s.fields.Refuses .rd
  | _ => False

instance (s : Sys ι) (l : Label ι) : Decidable (Forsakes s l) :=
  match l with
  | .go _ => inferInstanceAs (Decidable (_ ∧ _ ∧ _))
  | .lock .. | .unlock _ | .fail .. | .signal .. | .expire .. => isFalse id

structure Watched (s : Sys ι) : Prop where
  refused : ∀ i f, s.pc i = .count f ∨ s.pc i = .wait f → s.fields.Refuses f.mode
  asleep : ∀ m, (∃ i, (s.pc i).Asleep m) → s.fields.Refuses m ∨ ∃ j, (s.pc j).duty m = true

omit [Fintype ι] in
theorem Watched.initialised : Watched (initialised : Sys ι) := by
  constructor
  · intro i f hpc
    simp [Rwlock.initialised] at hpc
  · rintro m ⟨i,f,hpc,-⟩
    simp [Rwlock.initialised] at hpc

variable {s t : Sys ι} {i j : ι} {p : Pc} {m : Mode}

end Fates

section Steps
variable {ι : Type*} [DecidableEq ι] [Fintype ι] {s t : Sys ι} {i j : ι} {p : Pc}

/-- Thread `i` moves: what it stopped it still stops, unless nobody sleeps any more. -/
theorem Watched.move (h : Watched s) (hi : Inv s) (hpc : t.pc = Function.update s.pc i p)
    (hfields : (s.pc i).locked = true ∨ t.fields = s.fields)
    (hrefused : ∀ f, p = .count f ∨ p = .wait f → t.fields.Refuses f.mode)
    (hasleep : ∀ m, p.Asleep m → t.fields.Refuses m)
    (hkeep : ∀ m, s.fields.Refuses m ∨ (s.pc i).duty m = true → (∃ j, j ≠ i ∧ (s.pc j).Asleep m) →
      t.fields.Refuses m ∨ ∃ k, (t.pc k).duty m = true) : Watched t := by
  have hself : t.pc i = p := by rw [hpc,Function.update_self]
  have hother {j : ι} (hj : j ≠ i) : t.pc j = s.pc j := by rw [hpc,Function.update_of_ne hj]
  constructor
  · intro j f hpcj
    by_cases hj : j = i
    · rw [hj,hself] at hpcj
      exact hrefused f hpcj
    · rw [hother hj] at hpcj
      rcases hfields with hlocked | heq
      · have hmine : (s.pc j).locked = true := by rcases hpcj with hp | hp <;> rw [hp] <;> rfl
        rw [hi.mutex] at hlocked hmine
        exact absurd (Option.some.inj (hmine.symm.trans hlocked)) hj
      · rw [heq]
        exact h.refused j f hpcj
  · rintro m ⟨j,hj⟩
    by_cases hji : j = i
    · rw [hji,hself] at hj
      exact Or.inl (hasleep m hj)
    · rw [hother hji] at hj
      have hdone (hbefore : s.fields.Refuses m ∨ (s.pc i).duty m = true) :
          t.fields.Refuses m ∨ ∃ k, (t.pc k).duty m = true := hkeep m hbefore ⟨j,hji,hj⟩
      rcases h.asleep m ⟨j,hj⟩ with hrefuse | ⟨k,hk⟩
      · exact hdone (Or.inl hrefuse)
      · by_cases hki : k = i
        · exact hdone (Or.inr (hki ▸ hk))
        · exact Or.inr ⟨k,by rw [hother hki]; exact hk⟩

/-- The fields stay, and what the thread saw to it still sees to. -/
theorem Watched.still (h : Watched s) (hi : Inv s) (hpc : t.pc = Function.update s.pc i p)
    (hfields : t.fields = s.fields) (hrefused : ∀ f, p = .count f ∨ p = .wait f → s.fields.Refuses f.mode)
    (hasleep : ∀ m, p.Asleep m → s.fields.Refuses m)
    (hduty : ∀ m, (s.pc i).duty m = true → s.fields.Refuses m ∨ p.duty m = true) : Watched t := by
  have hself : t.pc i = p := by rw [hpc,Function.update_self]
  refine h.move hi hpc (Or.inr hfields) ?_ ?_ ?_ <;> rw [hfields]
  · exact hrefused
  · exact hasleep
  · intro m hbefore _
    have hafter : s.fields.Refuses m ∨ p.duty m = true := hbefore.elim Or.inl (hduty m)
    exact hafter.imp_right fun hp => ⟨i,by rw [hself]; exact hp⟩

theorem Watched.acquire (h : Watched s) (hi : Inv s) (hrefused : ∀ f, ¬ (p = .count f ∨ p = .wait f))
    (hasleep : ∀ m, ¬ p.Asleep m) (hduty : ∀ m, (s.pc i).duty m = true → p.duty m = true)
    (ht : s.acquire i p = some t) : Watched t := by
  obtain rfl := Option.some.inj (Option.ite_none_right_eq_some.mp ht).2
  exact h.still hi rfl rfl (fun f hf => absurd hf (hrefused f)) (fun m hm => absurd hm (hasleep m))
    (fun m hm => Or.inr (hduty m hm))

theorem Watched.turn (h : Watched s) (hi : Inv s) (ht : Turn s i p) : Watched (s.at i p) := by
  cases ht with
  | lock f hpc => exact h.still hi rfl rfl (by simp) (by simp [Pc.Asleep]) (by simp [hpc,Pc.duty])
  | unlock hpc => exact h.still hi rfl rfl (by simp) (by simp [Pc.Asleep]) (by simp [hpc,Pc.duty])
  | failLock r hpc => exact h.still hi rfl rfl (by simp) (by simp [Pc.Asleep]) (by simp [hpc,Pc.duty])
  | failUnlock r hpc => exact h.still hi rfl rfl (by simp) (by simp [Pc.Asleep]) (by simp [hpc,Pc.duty])
  | expire r hpc => exact h.still hi rfl rfl (by simp) (by simp [Pc.Asleep]) (by simp [hpc,Pc.duty])

theorem asleep_nwait {m : Mode} (h : p.Asleep m) : p.nwait m = 1 := by
  obtain ⟨f,rfl,rfl⟩ := h
  simp [Pc.nwait]

omit [DecidableEq ι] in
/-- Who sleeps is counted. -/
theorem Inv.nwait_pos (h : Inv s) {m : Mode} (hj : (s.pc j).Asleep m) : 0 < s.fields.nwait m := by
  have hle := le_tally (Pc.nwait m) s.pc j
  rw [asleep_nwait hj] at hle
  rw [h.nwait]
  omega

theorem awake_asleep {m : Mode} (h : p.awake.Asleep m) : m = .wr ∧ p.Asleep m := by
  obtain ⟨f,hp,rfl⟩ := h
  unfold Pc.awake at hp
  split at hp
  · split_ifs at hp with hrd
    · simp at hp
    · obtain ⟨heq,-⟩ := Pc.blocked.inj hp
      rw [heq] at hrd
      refine ⟨?_,f,by rw [heq],rfl⟩
      cases hm : f.mode with
      | rd => exact absurd hm hrd
      | wr => rfl
  · next hnone => exact absurd hp (hnone f)

theorem awake_duty {m : Mode} (h : p.duty m = true) : p.awake.duty m = true := by
  unfold Pc.awake
  split
  · cases m <;> simp [Pc.duty] at h
  · exact h

omit [DecidableEq ι] [Fintype ι] in
theorem Watched.awake (h : Watched s) : Watched { s with pc := fun j => (s.pc j).awake } where
  refused i f hpc := h.refused i f (hpc.imp (awake_eq · (by simp)) (awake_eq · (by simp)))
  asleep m := by
    rintro ⟨i,hi⟩
    exact (h.asleep m ⟨i,(awake_asleep hi).2⟩).imp_right fun ⟨j,hj⟩ => ⟨j,awake_duty hj⟩

omit [DecidableEq ι] in
theorem Inv.nwait_nonneg (h : Inv s) (m : Mode) : 0 ≤ s.fields.nwait m := by
  rw [h.nwait]
  exact Int.natCast_nonneg _

theorem Refuses.addNwait {c : Fields} {m : Mode} (h : c.Refuses m) (m' : Mode) : (c.addNwait 1 m').Refuses m := by
  cases m with
  | rd =>
    rcases h with hneg | hpos
    · left
      rwa [addNwait_rwRefcount]
    · right
      cases m' with
      | rd => exact hpos
      | wr => exact Int.lt_add_one_of_le hpos.le
  | wr =>
    have hne : (c.addNwait 1 m').rwRefcount ≠ 0 := by rwa [addNwait_rwRefcount]
    exact hne

omit [DecidableEq ι] in
/-- What pthread_rwlock_unlock finds when it wakes nobody. -/
theorem Inv.refuses_of_wakes_eq_none (h : Inv s) (hwakes : s.fields.wakes = none) {m : Mode}
    (hj : (s.pc j).Asleep m) : s.fields.Refuses m := by
  have hpos := h.nwait_pos hj
  unfold Fields.wakes at hwakes
  cases m with
  | rd =>
    have hreaders : 0 < s.fields.rwNwaitreaders := hpos
    by_cases hwriters : 0 < s.fields.rwNwaitwriters
    · exact Or.inr hwriters
    · rw [if_neg hwriters,if_pos hreaders] at hwakes
      simp at hwakes
  | wr =>
    have hwriters : 0 < s.fields.rwNwaitwriters := hpos
    rw [if_pos hwriters] at hwakes
    have hne : s.fields.rwRefcount ≠ 0 := by
      intro hzero
      simp [hzero] at hwakes
    exact hne

theorem wakes_eq_wr {c : Fields} (h : c.wakes = some .wr) : 0 < c.rwNwaitwriters := by
  unfold Fields.wakes at h
  by_contra hno
  rw [if_neg hno] at h
  split_ifs at h
  simp at h

theorem wakes_eq_rd {c : Fields} (h : c.wakes = some .rd) : c.rwNwaitwriters ≤ 0 := by
  unfold Fields.wakes at h
  by_contra hno
  rw [if_pos (not_le.mp hno)] at h
  split_ifs at h
  simp at h

theorem Watched.wake (h : Watched s) (hi : Inv s) (hpc : s.pc i = .wake) (hgo : s.go i .wake = some t) :
    Watched t := by
  rw [Sys.go] at hgo
  split at hgo
  · next hwakes =>
    obtain rfl := Option.some.inj hgo
    refine h.move hi rfl (by simp [hpc,Pc.locked]) (by simp) (by simp [Pc.Asleep]) ?_
    rintro m - ⟨j,-,hj⟩
    exact Or.inl (hi.refuses_of_wakes_eq_none hwakes hj)
  · next hwakes =>
    obtain rfl := Option.some.inj hgo
    refine h.awake.move (hi.awake fun _ => Or.inr rfl) rfl (by simp [hpc,Pc.locked,Pc.awake]) (by simp) (by simp [Pc.Asleep]) ?_
    rintro m - ⟨j,-,hj⟩
    obtain ⟨rfl,hj⟩ := awake_asleep hj
    have hpos : 0 < s.fields.rwNwaitwriters := hi.nwait_pos hj
    exact absurd hpos (not_lt.mpr (wakes_eq_rd hwakes))
  · next hwakes =>
    obtain ⟨hnone,hgo⟩ := Option.ite_none_left_eq_some.mp hgo
    obtain rfl := Option.some.inj hgo
    refine h.move hi rfl (by simp [hpc,Pc.locked]) (by simp) (by simp [Pc.Asleep]) ?_
    rintro m - ⟨j,-,hj⟩
    cases m with
    | rd => exact Or.inl (Or.inr (wakes_eq_wr hwakes))
    | wr => exact absurd ⟨j,hj⟩ hnone

/-- A writer is woken. -/
theorem Watched.signal (h : Watched s) (hi : Inv s) {f : Func} (hpc : s.pc i = .wake)
    (hpcj : s.pc j = .blocked f none) (hf : f.mode = .wr) (hwakes : s.fields.wakes = some .wr) :
    Watched ((s.at j (.blocked f (some 0))).at i (.unlocked 0)) := by
  have hne : i ≠ j := by
    rintro rfl
    simp [hpc] at hpcj
  have hwoken : ((s.at j (.blocked f (some 0))).at i (.unlocked 0)).pc j = .blocked f (some 0) := by
    simp [Sys.at,Function.update_of_ne (Ne.symm hne)]
  have hpc' : (s.at j (.blocked f (some 0))).pc i = .wake := (Function.update_of_ne hne ..).trans hpc
  refine (h.turn hi (.expire 0 hpcj)).move (hi.turn (.expire 0 hpcj)) rfl (by simp [hpc',Pc.locked]) (by simp)
    (by simp [Pc.Asleep]) ?_
  rintro m - -
  cases m with
  | rd => exact Or.inl (Or.inr (wakes_eq_wr hwakes))
  | wr => exact Or.inr ⟨j,by simp [hwoken,Pc.duty,hf]⟩

theorem Watched.go (h : Watched s) (hi : Inv s) (hgood : ¬ Forsakes s (.go i))
    (hgo : s.go i (s.pc i) = some t) : Watched t := by
  cases hpc : s.pc i with
  | out r => simp [hpc,Sys.go] at hgo
  | enter f =>
    rw [hpc] at hgo
    exact h.acquire hi (by simp) (by simp [Pc.Asleep]) (by simp [hpc,Pc.duty]) hgo
  | test f =>
    rw [hpc] at hgo
    obtain rfl := Option.some.inj hgo
    split_ifs with hrefuse hnever
    · refine h.still hi rfl rfl (by simp) (by simp [Pc.Asleep]) (fun m hm => ?_)
      cases m with
      | rd => exact Or.inr (by simpa [hpc,Pc.duty,EBUSY] using hm)
      | wr => exact Or.inl (by simpa [show f.mode = .wr by simpa [hpc,Pc.duty] using hm] using hrefuse)
    · refine h.still hi rfl rfl (by simpa using hrefuse) (by simp [Pc.Asleep]) (fun m hm => ?_)
      cases m with
      | rd => exact Or.inr (by simpa [hpc,Pc.duty] using hm)
      | wr => exact Or.inl (by simpa [show f.mode = .wr by simpa [hpc,Pc.duty] using hm] using hrefuse)
    · refine h.still hi rfl rfl (by simp) (by simp [Pc.Asleep]) (fun m hm => Or.inr ?_)
      cases m <;> simpa [hpc,Pc.duty] using hm
  | count f =>
    rw [hpc] at hgo
    obtain rfl := Option.some.inj hgo
    refine h.move hi rfl (by simp [hpc,Pc.locked]) (fun g hg => ?_) (by simp [Pc.Asleep]) (fun m hbefore _ => ?_)
    · obtain rfl : f = g := by simpa using hg
      exact Refuses.addNwait (h.refused i f (Or.inl hpc)) _
    · left
      rcases hbefore with hrefuse | hduty
      · exact Refuses.addNwait hrefuse _
      · cases m with
        | rd =>
          have hf : f.mode = .wr := by simpa [hpc,Pc.duty] using hduty
          rw [hf]
          exact Or.inr (Int.lt_add_one_of_le (hi.nwait_nonneg .wr))
        | wr => simp [hpc,Pc.duty] at hduty
  | wait f =>
    rw [hpc] at hgo
    obtain rfl := Option.some.inj hgo
    refine h.still hi rfl rfl (by simp) ?_ (by simp [hpc,Pc.duty])
    rintro m ⟨g,hg,rfl⟩
    obtain ⟨rfl,-⟩ := Pc.blocked.inj hg
    exact h.refused i f (Or.inr hpc)
  | blocked f woken =>
    rw [hpc] at hgo
    cases woken with
    | none => simp [Sys.go] at hgo
    | some r =>
      refine h.acquire hi (by simp) (by simp [Pc.Asleep]) (fun m hm => ?_) hgo
      cases m with
      | rd => simp [hpc,Pc.duty] at hm
      | wr => simpa [hpc,Pc.duty] using hm
  | uncount f r =>
    rw [hpc] at hgo
    obtain rfl := Option.some.inj hgo
    refine h.move hi rfl (by simp [hpc,Pc.locked]) (by simp) (by simp [Pc.Asleep]) (fun m hbefore _ => ?_)
    cases m with
    | rd =>
      cases hf : f.mode with
      | rd =>
        left
        exact hbefore.elim id (by simp [hpc,Pc.duty])
      | wr => exact Or.inr ⟨i,by simp [Pc.duty,hf]⟩
    | wr =>
      refine hbefore.imp (fun hne => ?_) (fun hduty => ⟨i,?_⟩)
      · have hsame : (s.fields.addNwait (-1) f.mode).rwRefcount ≠ 0 := by rwa [addNwait_rwRefcount]
        exact hsame
      · simpa [hpc,Pc.duty] using hduty
  | check f r =>
    rw [hpc] at hgo
    obtain rfl := Option.some.inj hgo
    split_ifs with hr
    · refine h.still hi rfl rfl (by simp) (by simp [Pc.Asleep]) (fun m hm => Or.inr ?_)
      cases m <;> simp_all [Pc.duty]
    · refine h.still hi rfl rfl (by simp) (by simp [Pc.Asleep]) (fun m hm => Or.inr ?_)
      cases m <;> simp_all [Pc.duty]
  | grant f r =>
    rw [hpc] at hgo
    by_cases hr : r = 0
    · subst hr
      rw [Sys.go,if_pos rfl] at hgo
      obtain rfl := Option.some.inj hgo
      have hfree := hi.granted i f hpc
      refine h.move hi rfl (by simp [hpc,Pc.locked]) (by simp) (by simp [Pc.Asleep]) (fun m hbefore _ => Or.inl ?_)
      cases hf : f.mode with
      | rd =>
        rw [hf] at hfree
        cases m with
        | rd => exact absurd (hbefore.resolve_right (by simp [hpc,Pc.duty,hf])) hfree
        | wr =>
          have hnonneg : 0 ≤ s.fields.rwRefcount := not_lt.mp fun hneg => hfree (Or.inl hneg)
          have hne : s.fields.rwRefcount + 1 ≠ 0 := by omega
          exact hne
      | wr =>
        cases m with
        | rd => exact Or.inl (by decide : (-1 : ℤ) < 0)
        | wr => exact (by decide : (-1 : ℤ) ≠ 0)
    · rw [Sys.go,if_neg hr] at hgo
      obtain rfl := Option.some.inj hgo
      refine h.still hi rfl rfl (by simp) (by simp [Pc.Asleep]) (fun m hm => Or.inr ?_)
      cases m <;> simp_all [Pc.duty]
  | leave f r =>
    rw [hpc] at hgo
    obtain rfl := Option.some.inj hgo
    refine h.move hi rfl (Or.inr rfl) (by simp) (by simp [Pc.Asleep]) ?_
    rintro m hbefore ⟨j,-,hj⟩
    refine Or.inl (hbefore.elim id fun hduty => ?_)
    cases m with
    | rd =>
      by_contra hrefuse
      exact hgood ⟨by simpa [hpc,Pc.duty,Pc.denied] using hduty,⟨j,hj⟩,hrefuse⟩
    | wr => simp [hpc,Pc.duty] at hduty
  | unlock =>
    rw [hpc] at hgo
    exact h.acquire hi (by simp) (by simp [Pc.Asleep]) (by simp [hpc,Pc.duty]) hgo
  | release =>
    rw [hpc] at hgo
    obtain rfl := Option.some.inj hgo
    exact h.move hi rfl (by simp [hpc,Pc.locked]) (by simp) (by simp [Pc.Asleep])
      (fun m _ _ => Or.inr ⟨i,by simp [Pc.duty]⟩)
  | wake => exact h.wake hi hpc (hpc ▸ hgo)
  | unlocked r =>
    rw [hpc] at hgo
    obtain rfl := Option.some.inj hgo
    exact h.still hi rfl rfl (by simp) (by simp [Pc.Asleep]) (by simp [hpc,Pc.duty])

theorem Watched.step (h : Watched s) (hi : Inv s) {l : Label ι} (hgood : ¬ Forsakes s l)
    (hs : Rwlock.step s l = some t) : Watched t := by
  rcases step_cases hs with ⟨i,rfl,hgo⟩ | ⟨i,p,hturn,rfl⟩ | ⟨i,j,f,hpc,hpcj,hf,hwakes,rfl⟩
  · exact h.go hi hgood hgo
  · exact h.turn hi hturn
  · exact h.signal hi hpc hpcj hf hwakes

end Steps

/-- A reader holds the lock, a writer waits for it with a time limit, and another reader
waits for the writer. -/
def queued : List (Label (Fin 3)) :=
  [.lock 0 pthreadRwlockRdlock,.go 0,.go 0,.go 0,.go 0,.lock 1 pthreadRwlockTimedwrlock,.go 1,.go 1,.go 1,.go 1,
    .lock 2 pthreadRwlockRdlock,.go 2,.go 2,.go 2,.go 2]

end FmacSdk.Rwlock
