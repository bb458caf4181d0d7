import Mathlib.Data.List.Count
import Mathlib.Order.ConditionallyCompleteLattice.Basic

/-! # Lent priorities

Everyone waits for at most one other, his boss, and lends him his own priority; a
smaller one is more urgent. A priority is settled where it is the least of the
base and of what is lent. When one priority has changed, those of the boss, of his
boss and so on follow, and the walk ends as soon as nothing changes.
-/
namespace FmacSdk.Donation
variable {T P : Type*} [ConditionallyCompleteLinearOrderBot P] [WellFoundedLT P]

/-- What `t` can run at: its base and what the ones that wait for it run at. -/
def lent (base : T → P) (boss : T → Option T) (prio : T → P) (t : T) : Set P :=
  insert (base t) (prio '' {w | boss w = some t})

/-- All of `A` run at the most urgent priority that they have or are lent. -/
def Settled (A : Set T) (base : T → P) (boss : T → Option T) (prio : T → P) : Prop :=
  ∀ t ∈ A, IsLeast (lent base boss prio t) (prio t)

variable {A : Set T} {base : T → P} {boss boss' : T → Option T} {prio prio' : T → P} {t u x : T} {v : P}

omit [ConditionallyCompleteLinearOrderBot P] [WellFoundedLT P] in
theorem mem_lent_base : base t ∈ lent base boss prio t := Set.mem_insert ..

omit [ConditionallyCompleteLinearOrderBot P] [WellFoundedLT P] in
theorem mem_lent (h : boss x = some t) : prio x ∈ lent base boss prio t :=
  Set.mem_insert_of_mem _ (Set.mem_image_of_mem _ h)

omit [ConditionallyCompleteLinearOrderBot P] [WellFoundedLT P] in
theorem mem_lent_iff : v ∈ lent base boss prio t ↔ v = base t ∨ ∃ x, boss x = some t ∧ prio x = v :=
  Iff.rfl

theorem isLeast_sInf_lent : IsLeast (lent base boss prio t) (sInf (lent base boss prio t)) :=
  isLeast_csInf ⟨_,mem_lent_base⟩

omit [WellFoundedLT P] in
theorem isLeast_lent_iff :
    IsLeast (lent base boss prio t) v ↔
      (v = base t ∨ ∃ x, boss x = some t ∧ prio x = v) ∧ v ≤ base t ∧ ∀ x, boss x = some t → v ≤ prio x := by
  constructor
  · rintro ⟨hmem,hle⟩
    exact ⟨hmem,hle mem_lent_base,fun x hx => hle (mem_lent hx)⟩
  · rintro ⟨hmem,hbase,hall⟩
    refine ⟨hmem,?_⟩
    rintro w (rfl | ⟨x,hx,rfl⟩)
    · exact hbase
    · exact hall x hx

omit [WellFoundedLT P] in
/-- The least one is read off the base and the ones who wait, whose priorities are the same. -/
theorem isLeast_lent_congr (hb : ∀ x, boss' x = some t ↔ boss x = some t)
    (hp : ∀ x, boss x = some t → prio' x = prio x) :
    IsLeast (lent base boss' prio' t) v ↔ IsLeast (lent base boss prio t) v := by
  rw [isLeast_lent_iff,isLeast_lent_iff]
  refine and_congr (or_congr_right (exists_congr fun x => ?_)) (and_congr_right fun _ => forall_congr' fun x => ?_)
  · rw [hb x]
    exact and_congr_right fun hx => by rw [hp x hx]
  · rw [hb x]
    exact imp_congr_right fun hx => by rw [hp x hx]

omit [WellFoundedLT P] in
theorem Settled.mono {B : Set T} (h : Settled B base boss prio) (hsub : A ⊆ B) : Settled A base boss prio :=
  fun t ht => h t (hsub ht)

omit [WellFoundedLT P] in
theorem Settled.insert (h : Settled (A \ {t}) base boss prio) (ht : IsLeast (lent base boss prio t) (prio t)) :
    Settled A base boss prio := by
  intro x hx
  by_cases hxt : x = t
  · exact hxt ▸ ht
  · exact h x ⟨hx,hxt⟩

/-! ## One priority changes -/

section Change
variable [DecidableEq T]

omit [WellFoundedLT P] in
/-- The others, apart from the boss, do not notice. -/
theorem Settled.update (h : Settled (A \ {t}) base boss prio)
    (hv : IsLeast (lent base boss prio t) v) (hx : x ∈ A) (hboss : boss t ≠ some x) :
    IsLeast (lent base boss (Function.update prio t v) x) (Function.update prio t v x) := by
  have hothers : ∀ w, boss w = some x → Function.update prio t v w = prio w := by
    intro w hw
    refine Function.update_of_ne ?_ _ _
    rintro rfl
    exact hboss hw
  rw [isLeast_lent_congr (fun _ => Iff.rfl) hothers]
  by_cases hxt : x = t
  · rw [hxt,Function.update_self]
    exact hv
  · rw [Function.update_of_ne hxt]
    exact h x ⟨hx,hxt⟩

omit [WellFoundedLT P] in
/-- The boss takes over what became more urgent than he is. -/
theorem Settled.take (h : Settled A base boss prio) (hu : u ∈ A) (hboss : boss t = some u) (hv : v ≤ prio u) :
    IsLeast (lent base boss (Function.update prio t v) u) v := by
  obtain ⟨-,hbase,hall⟩ := isLeast_lent_iff.mp (h u hu)
  refine isLeast_lent_iff.mpr ⟨Or.inr ⟨t,hboss,Function.update_self ..⟩,hv.trans hbase,fun x hx => ?_⟩
  by_cases hxt : x = t
  · rw [hxt,Function.update_self]
  · rw [Function.update_of_ne hxt]
    exact hv.trans (hall x hx)

omit [WellFoundedLT P] in
/-- The boss stays where he is when he did not run at what `t` lent him. -/
theorem Settled.keep (h : Settled A base boss prio) (hu : u ∈ A) (hne : prio u ≠ prio t) (hv : prio u ≤ v) :
    IsLeast (lent base boss (Function.update prio t v) u) (prio u) := by
  obtain ⟨hmem,hbase,hall⟩ := isLeast_lent_iff.mp (h u hu)
  refine isLeast_lent_iff.mpr ⟨?_,hbase,fun x hx => ?_⟩
  · refine hmem.imp_right ?_
    rintro ⟨x,hx,hxu⟩
    have hxt : x ≠ t := fun heq => hne (heq ▸ hxu.symm)
    exact ⟨x,hx,(Function.update_of_ne hxt _ _).trans hxu⟩
  · by_cases hxt : x = t
    · rw [hxt,Function.update_self]
      exact hv
    · rw [Function.update_of_ne hxt]
      exact hall x hx

end Change

/-! ## Those who wait change -/

omit [WellFoundedLT P] in
/-- Some stop waiting for one of `U`, and whom they wait for instead is more urgent than they are. -/
theorem Settled.shift (h : Settled A base boss prio) (U : Set T)
    (hb : ∀ x, boss' x = boss x ∨
      (∀ t, boss x = some t → t ∈ U) ∧ ∀ t, boss' x = some t → prio t ≤ prio x) :
    Settled (A \ U) base boss' prio := by
  rintro t ⟨ht,htu⟩
  obtain ⟨hmem,hbase,hall⟩ := isLeast_lent_iff.mp (h t ht)
  refine isLeast_lent_iff.mpr ⟨?_,hbase,fun x hx => ?_⟩
  · refine hmem.imp_right ?_
    rintro ⟨x,hx,hxt⟩
    rcases hb x with heq | ⟨hleft,-⟩
    · exact ⟨x,heq.trans hx,hxt⟩
    · exact absurd (hleft t hx) htu
  · rcases hb x with heq | ⟨-,hle⟩
    · exact hall x (heq.symm.trans hx)
    · exact hle t hx

omit [WellFoundedLT P] in
/-- He whom `x` leaves stays where he is when he did not run at what `x` lent him. -/
theorem Settled.leave (h : Settled A base boss prio) (hu : u ∈ A) (hne : prio u ≠ prio x)
    (hb : ∀ w, w ≠ x → boss' w = boss w) (hx : boss' x ≠ some u) : IsLeast (lent base boss' prio u) (prio u) := by
  obtain ⟨hmem,hbase,hall⟩ := isLeast_lent_iff.mp (h u hu)
  refine isLeast_lent_iff.mpr ⟨?_,hbase,fun w hw => ?_⟩
  · refine hmem.imp_right ?_
    rintro ⟨w,hw,hwu⟩
    have hwx : w ≠ x := fun heq => hne (heq ▸ hwu.symm)
    exact ⟨w,(hb w hwx).trans hw,hwu⟩
  · have hwx : w ≠ x := fun heq => hx (heq ▸ hw)
    exact hall w ((hb w hwx).symm.trans hw)

omit [WellFoundedLT P] in
/-- Another base concerns nobody else. -/
theorem Settled.rebase {base' : T → P} (h : Settled A base boss prio) (hb : ∀ x, x ≠ u → base' x = base x) :
    Settled (A \ {u}) base' boss prio := by
  rintro t ⟨ht,htu⟩
  rw [isLeast_lent_iff,hb t htu]
  exact isLeast_lent_iff.mp (h t ht)

section Waiters
variable [DecidableEq T]

omit [WellFoundedLT P] in
/-- Whoever runs at what a new one will lend him counts as if that were his base. -/
theorem Settled.promise (h : Settled A base boss prio) (hu : u ∈ A) (hv : v ≤ prio u) :
    Settled (A \ {u}) (Function.update base u v) boss prio ∧
      IsLeast (lent (Function.update base u v) boss prio u) v := by
  refine ⟨h.rebase fun x hx => Function.update_of_ne hx _ _,?_⟩
  · obtain ⟨-,-,hall⟩ := isLeast_lent_iff.mp (h u hu)
    rw [isLeast_lent_iff,Function.update_self]
    exact ⟨Or.inl rfl,le_rfl,fun x hx => hv.trans (hall x hx)⟩

omit [WellFoundedLT P] in
/-- The new one starts to wait. -/
theorem Settled.join (h : Settled A (Function.update base u v) boss prio) (hbase : v ≤ base u)
    (hb : ∀ w, w ≠ x → boss' w = boss w) (hx : boss x = none) (hx' : boss' x = some u) (hv : prio x = v) :
    Settled A base boss' prio := by
  have hold : ∀ t w, boss w = some t → boss' w = some t := by
    intro t w hw
    rw [hb w fun heq => by rw [heq,hx] at hw; cases hw]
    exact hw
  intro t ht
  obtain ⟨hmem,hle,hall⟩ := isLeast_lent_iff.mp (h t ht)
  rw [isLeast_lent_iff]
  by_cases htu : t = u
  · subst htu
    rw [Function.update_self] at hmem hle
    refine ⟨Or.inr ?_,hle.trans hbase,fun w hw => ?_⟩
    · rcases hmem with heq | ⟨w,hw,hwt⟩
      · exact ⟨x,hx',hv.trans heq.symm⟩
      · exact ⟨w,hold t w hw,hwt⟩
    · by_cases hwx : w = x
      · rw [hwx,hv]
        exact hle
      · exact hall w ((hb w hwx).symm.trans hw)
  · rw [Function.update_of_ne htu] at hmem hle
    refine ⟨hmem.imp_right fun ⟨w,hw,hwt⟩ => ⟨w,hold t w hw,hwt⟩,hle,fun w hw => ?_⟩
    have hwx : w ≠ x := fun heq => by
      rw [heq,hx'] at hw
      exact htu (Option.some.inj hw).symm
    exact hall w ((hb w hwx).symm.trans hw)

end Waiters

/-! ## The walk -/

section Walk
variable [DecidableEq T]

open scoped Classical in
/-- Give `t` the priority `v` and let those follow that it waits for; `none` where
the steps do not suffice. -/
noncomputable def walk (base : T → P) (boss : T → Option T) : ℕ → (T → P) → T → P → Option (T → P)
  | 0, _, _, _ => none
  | n + 1, prio, t, v =>
    if prio t = v then some prio
    else
      let prio' := Function.update prio t v
      match boss t with
      | none => some prio'
      | some u =>
        if v < prio' u then walk base boss n prio' u v
        else if prio' u = prio t then
          let w := sInf (lent base boss prio' u)
          if w = prio' u then some prio' else walk base boss n prio' u w
        else some prio'

omit [ConditionallyCompleteLinearOrderBot P] [WellFoundedLT P] in
/-- One fewer has the property when one that had it lost it. -/
theorem countP_update_lt {f : P → Bool} {l : List T} (ht : t ∈ l) (hold : f (prio t) = true) (hnew : f v = false) :
    l.countP (fun x => f (Function.update prio t v x)) < l.countP fun x => f (prio x) := by
  obtain ⟨l1,l2,rfl⟩ := List.append_of_mem ht
  have hle : ∀ l : List T, l.countP (fun x => f (Function.update prio t v x)) ≤ l.countP fun x => f (prio x) := by
    intro l
    refine List.countP_mono_left fun x _ hx => ?_
    by_cases hxt : x = t
    · rw [hxt,Function.update_self,hnew] at hx
      cases hx
    · rwa [Function.update_of_ne hxt] at hx
  rw [List.countP_append,List.countP_append,List.countP_cons_of_neg (by simp [hnew]),
    List.countP_cons_of_pos (p := fun x => f (prio x)) hold]
  have h1 := hle l1
  have h2 := hle l2
  omega

variable {l : List T} {n : ℕ}

omit [WellFoundedLT P] in
/-- A more urgent priority is handed on until one is met that is as urgent. -/
theorem walk_raise (hself : ∀ t, boss t ≠ some t) (hclosed : ∀ t u, boss t = some u → u ∈ A)
    (hl : ∀ t ∈ A, t ∈ l) (base₀ : T → P) (ht : t ∈ A) (h : Settled (A \ {t}) base boss prio)
    (hv : IsLeast (lent base boss prio t) v) (hlt : v < prio t) (hn : l.countP (fun x => v < prio x) < n + 1) :
    ∃ prio', walk base₀ boss (n + 1) prio t v = some prio' ∧ Settled A base boss prio' ∧
      ∀ x, prio' x ≠ prio x → v < prio x ∧ prio' x = v := by
  induction n generalizing t prio with
  | zero =>
    have hzero : l.countP (fun x => v < prio x) = 0 := by omega
    have hnot := List.countP_eq_zero.mp hzero t (hl t ht)
    simp [hlt] at hnot
  | succ n ih =>
    have hmoved : ∀ x, Function.update prio t v x ≠ prio x → v < prio x ∧ Function.update prio t v x = v := by
      intro x hx
      by_cases hxt : x = t
      · rw [hxt]
        exact ⟨hlt,Function.update_self ..⟩
      · exact absurd (Function.update_of_ne hxt _ _) hx
    rw [walk,if_neg hlt.ne']
    simp only
    cases hboss : boss t with
    | none =>
      refine ⟨_,rfl,fun x hx => ?_,hmoved⟩
      exact h.update hv hx (by simp [hboss])
    | some u =>
      have hut : u ≠ t := fun heq => hself t (heq ▸ hboss)
      have hu : u ∈ A \ {t} := ⟨hclosed t u hboss,hut⟩
      have hprio : Function.update prio t v u = prio u := Function.update_of_ne hut _ _
      have hothers : Settled (A \ {u}) base boss (Function.update prio t v) := by
        rintro x ⟨hx,hxu⟩
        refine h.update hv hx ?_
        rw [hboss]
        exact fun heq => hxu (Option.some.inj heq).symm
      simp only [hprio]
      by_cases hraise : v < prio u
      · rw [if_pos hraise]
        have hcount := countP_update_lt (f := fun p => decide (v < p)) (hl t ht) (by simpa using hlt)
          (show decide (v < v) = false by simp)
        obtain ⟨prio',hwalk,hsettled,hkept⟩ := ih hu.1 hothers (h.take hu hboss hraise.le)
          (hprio.symm ▸ hraise) (by omega)
        refine ⟨prio',hwalk,hsettled,fun x hx => ?_⟩
        by_cases hsame : prio' x = Function.update prio t v x
        · rw [hsame] at hx ⊢
          exact hmoved x hx
        · obtain ⟨hless,hval⟩ := hkept x hsame
          by_cases hxt : x = t
          · rw [hxt,Function.update_self] at hless
            exact absurd hless (lt_irrefl _)
          · rw [Function.update_of_ne hxt] at hless
            exact ⟨hless,hval⟩
      · have hle : prio u ≤ v := not_lt.mp hraise
        have hne : prio u ≠ prio t := (hle.trans_lt hlt).ne
        rw [if_neg hraise,if_neg hne]
        refine ⟨_,rfl,hothers.insert ?_,hmoved⟩
        rw [hprio]
        exact h.keep hu hne hle

/-- A less urgent priority is handed on to those who ran at the old one. -/
theorem walk_lower (hself : ∀ t, boss t ≠ some t) (hclosed : ∀ t u, boss t = some u → u ∈ A)
    (hl : ∀ t ∈ A, t ∈ l) {p : P} (hp : prio t = p) (ht : t ∈ A) (h : Settled (A \ {t}) base boss prio)
    (hv : IsLeast (lent base boss prio t) v) (hlt : p < v) (hn : l.countP (fun x => prio x = p) < n + 1) :
    ∃ prio', walk base boss (n + 1) prio t v = some prio' ∧ Settled A base boss prio' := by
  induction n generalizing t prio v with
  | zero =>
    have hzero : l.countP (fun x => prio x = p) = 0 := by omega
    have hnot := List.countP_eq_zero.mp hzero t (hl t ht)
    simp [hp] at hnot
  | succ n ih =>
    subst hp
    rw [walk,if_neg hlt.ne]
    simp only
    cases hboss : boss t with
    | none =>
      refine ⟨_,rfl,fun x hx => ?_⟩
      exact h.update hv hx (by simp [hboss])
    | some u =>
      have hut : u ≠ t := fun heq => hself t (heq ▸ hboss)
      have hu : u ∈ A \ {t} := ⟨hclosed t u hboss,hut⟩
      have hprio : Function.update prio t v u = prio u := Function.update_of_ne hut _ _
      have hothers : Settled (A \ {u}) base boss (Function.update prio t v) := by
        rintro x ⟨hx,hxu⟩
        refine h.update hv hx ?_
        rw [hboss]
        exact fun heq => hxu (Option.some.inj heq).symm
      -- nobody runs at less than what is lent to him
      have hle : prio u ≤ prio t := (isLeast_lent_iff.mp (h u hu)).2.2 t hboss
      have hleast : IsLeast (lent base boss (Function.update prio t v) u)
          (sInf (lent base boss (Function.update prio t v) u)) := isLeast_sInf_lent
      simp only [hprio]
      split_ifs with hraise heq hsame
      · exact absurd (hraise.trans_le hle) hlt.not_gt
      · refine ⟨_,rfl,hothers.insert ?_⟩
        rw [hprio,← hsame]
        exact hleast
      · have hcount : l.countP (fun x => decide (Function.update prio t v x = prio t)) <
            l.countP fun x => decide (prio x = prio t) :=
          countP_update_lt (f := fun p => decide (p = prio t)) (hl t ht) (by simp) (by simp [hlt.ne'])
        have hless : prio t < sInf (lent base boss (Function.update prio t v) u) := by
          refine lt_of_le_of_ne ?_ fun h => hsame (h.symm.trans heq.symm)
          obtain ⟨hmem,-⟩ := hleast
          generalize sInf (lent base boss (Function.update prio t v) u) = w at hmem
          rw [← heq]
          obtain ⟨-,hbase,hall⟩ := isLeast_lent_iff.mp (h u hu)
          rcases mem_lent_iff.mp hmem with rfl | ⟨x,hx,rfl⟩
          · exact hbase
          · by_cases hxt : x = t
            · rw [hxt,Function.update_self]
              exact hle.trans hlt.le
            · rw [Function.update_of_ne hxt]
              exact hall x hx
        exact ih (hprio.trans heq) hu.1 hothers hleast hless (by omega)
      · refine ⟨_,rfl,hothers.insert ?_⟩
        rw [hprio]
        exact h.keep hu heq (hle.trans hlt.le)

/-- As many steps as there are participants suffice, and they leave everyone settled. -/
theorem walk_settles (hself : ∀ t, boss t ≠ some t) (hclosed : ∀ t u, boss t = some u → u ∈ A)
    (hl : ∀ t ∈ A, t ∈ l) (ht : t ∈ A) (h : Settled (A \ {t}) base boss prio)
    (hv : IsLeast (lent base boss prio t) v) (hn : l.length < n) :
    ∃ prio', walk base boss n prio t v = some prio' ∧ Settled A base boss prio' := by
  obtain ⟨n,rfl⟩ := Nat.exists_eq_succ_of_ne_zero (by omega : n ≠ 0)
  rcases lt_trichotomy v (prio t) with hlt | heq | hlt
  · have hle : l.countP (fun x => v < prio x) ≤ l.length := List.countP_le_length
    obtain ⟨prio',hwalk,hsettled,-⟩ := walk_raise hself hclosed hl base ht h hv hlt (n := n) (by omega)
    exact ⟨prio',hwalk,hsettled⟩
  · subst heq
    exact ⟨prio,by rw [walk,if_pos rfl],h.insert hv⟩
  · have hle : l.countP (fun x => prio x = prio t) ≤ l.length := List.countP_le_length
    exact walk_lower hself hclosed hl rfl ht h hv hlt (by omega)

end Walk

end FmacSdk.Donation
