import FmacSdk.Foundation.Ascii

/-! # Comparison without regard to case

Both functions take bytes that are 32 apart for one letter. A string is an object that
ends with its terminator, and a pointer into it is what is left of it. Whether char is
signed is a parameter.
-/
namespace FmacSdk.Strcasecmp
open Ascii

def charValue (signed : Bool) (c : UInt8) : ℤ :=
  if signed = true ∧ 128 ≤ c.toNat then (c.toNat : ℤ) - 256 else c.toNat

/-- `*s1 == *s2 || *s1 + 32 == *s2 || *s1 - 32 == *s2` -/
def Alike (signed : Bool) (c d : UInt8) : Prop :=
  charValue signed c = charValue signed d ∨ charValue signed c + 32 = charValue signed d ∨
    charValue signed c - 32 = charValue signed d

instance (signed : Bool) (c d : UInt8) : Decidable (Alike signed c d) := inferInstanceAs (Decidable (_ ∨ _))

def strcasecmp (signed : Bool) : List UInt8 → List UInt8 → Option ℤ
  | c :: s1, d :: s2 =>
    if c ≠ 0 ∨ d ≠ 0 then
      if Alike signed c d then strcasecmp signed s1 s2 else some (-1)
    else some 0
  | _, _ => none

/-- Where the loop of strncasecmp leaves i. -/
def strncasecmpLoop (signed : Bool) (n : ℕ) : ℕ → List UInt8 → List UInt8 → Option ℕ
  | i, c :: s1, d :: s2 =>
    if i < n ∧ c ≠ 0 ∧ d ≠ 0 then
      if Alike signed c d then strncasecmpLoop signed n (i + 1) s1 s2 else some i
    else some i
  | i, c :: _, [] => if i < n ∧ c ≠ 0 then none else some i
  | i, [], _ => if i < n then none else some i

def strncasecmp (signed : Bool) (s1 s2 : List UInt8) (n : ℕ) : Option ℤ :=
  (strncasecmpLoop signed n 0 s1 s2).map fun i => if i ≠ n then 1 else 0

/-- Equal but for the case of letters. -/
def CaseEqual (a b : List UInt8) : Prop := a.map lower = b.map lower

instance (a b : List UInt8) : Decidable (CaseEqual a b) := inferInstanceAs (Decidable (_ = _))

/-- The first `n` characters are equal but for the case, the terminators among them. -/
def CasePrefix (n : ℕ) (a b : List UInt8) : Prop :=
  ((a ++ [0]).map lower).take n = ((b ++ [0]).map lower).take n

instance (n : ℕ) (a b : List UInt8) : Decidable (CasePrefix n a b) := inferInstanceAs (Decidable (_ = _))

/-- A result that tells whether the strings are equal, without a read behind a terminator. -/
def Tells (r : Option ℤ) (p : Prop) : Prop := ∃ v, r = some v ∧ (v = 0 ↔ p)

/-- A place up to the first terminator shows that the strings differ. -/
def Shows (signed : Bool) (a b : List UInt8) : Prop :=
  ∃ (i : ℕ) (c d : UInt8), (a ++ [0])[i]? = some c ∧ (b ++ [0])[i]? = some d ∧ ¬ Alike signed c d

/-- The first `n` characters of both strings are there, and alike. -/
def AlikeTo (signed : Bool) (n : ℕ) (a b : List UInt8) : Prop :=
  n ≤ a.length ∧ n ≤ b.length ∧ ∀ i < n, ∀ c d : UInt8, a[i]? = some c → b[i]? = some d → Alike signed c d

section Letters
variable {signed : Bool} {c d : UInt8} {a b : List UInt8} {n : ℕ}

theorem Alike.refl (signed : Bool) (c : UInt8) : Alike signed c c := Or.inl rfl

theorem Alike.of_lower (h : lower c = lower d) : Alike signed c d := by
  rcases lower_eq_lower h with rfl | ⟨hfar,hc,hd⟩
  · exact Alike.refl signed c
  · unfold Alike charValue
    rw [if_neg (by omega),if_neg (by omega)]
    omega

theorem CaseEqual.length_eq (h : CaseEqual a b) : a.length = b.length := by
  simpa using congrArg List.length h

theorem shows_nil : ¬ Shows signed [] [] := by
  rintro ⟨i,c,d,hc,hd,hdiffer⟩
  have hboth : (some c : Option UInt8) = some d := hc.symm.trans hd
  obtain rfl := Option.some.inj hboth
  exact hdiffer (Alike.refl signed c)

theorem shows_left : Shows signed (c :: a) [] ↔ ¬ Alike signed c 0 := by
  constructor
  · rintro ⟨i,c',d',hc,hd,hdiffer⟩
    cases i with
    | zero =>
      obtain rfl := Option.some.inj hc
      obtain rfl := Option.some.inj hd
      exact hdiffer
    | succ i => simp at hd
  · intro h
    exact ⟨0,c,0,rfl,rfl,h⟩

theorem shows_right : Shows signed [] (d :: b) ↔ ¬ Alike signed 0 d := by
  constructor
  · rintro ⟨i,c',d',hc,hd,hdiffer⟩
    cases i with
    | zero =>
      obtain rfl := Option.some.inj hc
      obtain rfl := Option.some.inj hd
      exact hdiffer
    | succ i => simp at hc
  · intro h
    exact ⟨0,0,d,rfl,rfl,h⟩

theorem shows_cons : Shows signed (c :: a) (d :: b) ↔ ¬ Alike signed c d ∨ Shows signed a b := by
  constructor
  · rintro ⟨i,c',d',hc,hd,hdiffer⟩
    cases i with
    | zero =>
      obtain rfl := Option.some.inj hc
      obtain rfl := Option.some.inj hd
      exact Or.inl hdiffer
    | succ i => exact Or.inr ⟨i,c',d',by simpa using hc,by simpa using hd,hdiffer⟩
  · rintro (h | ⟨i,c',d',hc,hd,hdiffer⟩)
    · exact ⟨0,c,d,rfl,rfl,h⟩
    · exact ⟨i + 1,c',d',by simpa using hc,by simpa using hd,hdiffer⟩

/-- Nothing shows a difference in strings that are equal but for the case. -/
theorem CaseEqual.not_shows (h : CaseEqual a b) : ¬ Shows signed a b := by
  induction a generalizing b with
  | nil =>
    obtain rfl : b = [] := List.eq_nil_of_length_eq_zero h.length_eq.symm
    exact shows_nil
  | cons c a ih =>
    cases b with
    | nil => simp [CaseEqual] at h
    | cons d b =>
      obtain ⟨hletter,hrest⟩ := List.cons.inj h
      rw [shows_cons]
      rintro (hdiffer | hshows)
      · exact hdiffer (Alike.of_lower hletter)
      · exact ih hrest hshows

end Letters

section Results
variable {signed : Bool} {c d : UInt8} {a b : List UInt8} {n : ℕ}

/-- The first place that shows a difference decides; without one, strings of different
lengths are read behind the shorter one. -/
theorem strcasecmp_cases (signed : Bool) (ha : 0 ∉ a) (hb : 0 ∉ b) :
    Shows signed a b ∧ strcasecmp signed (a ++ [0]) (b ++ [0]) = some (-1) ∨
    ¬ Shows signed a b ∧ a.length = b.length ∧ strcasecmp signed (a ++ [0]) (b ++ [0]) = some 0 ∨
    ¬ Shows signed a b ∧ a.length ≠ b.length ∧ strcasecmp signed (a ++ [0]) (b ++ [0]) = none := by
  induction a generalizing b with
  | nil =>
    cases b with
    | nil => exact Or.inr (Or.inl ⟨shows_nil,rfl,rfl⟩)
    | cons d b =>
      have hd : d ≠ 0 := (List.ne_of_not_mem_cons hb).symm
      rw [shows_right]
      by_cases halike : Alike signed 0 d
      · exact Or.inr (Or.inr ⟨not_not.mpr halike,by simp,by simp [strcasecmp,hd,halike]⟩)
      · exact Or.inl ⟨halike,by simp [strcasecmp,hd,halike]⟩
  | cons c a ih =>
    have hc : c ≠ 0 := (List.ne_of_not_mem_cons ha).symm
    have ha' : 0 ∉ a := List.not_mem_of_not_mem_cons ha
    cases b with
    | nil =>
      rw [shows_left]
      by_cases halike : Alike signed c 0
      · have hbehind : strcasecmp signed (a ++ [0]) [] = none := by cases a <;> rfl
        exact Or.inr (Or.inr ⟨not_not.mpr halike,by simp,by simp [strcasecmp,hc,halike,hbehind]⟩)
      · exact Or.inl ⟨halike,by simp [strcasecmp,hc,halike]⟩
    | cons d b =>
      have hb' : 0 ∉ b := List.not_mem_of_not_mem_cons hb
      rw [shows_cons]
      by_cases halike : Alike signed c d
      · simpa [strcasecmp,hc,halike] using ih ha' hb'
      · exact Or.inl ⟨Or.inl halike,by simp [strcasecmp,hc,halike]⟩

theorem alikeTo_zero : AlikeTo signed 0 a b :=
  ⟨Nat.zero_le _,Nat.zero_le _,fun i hi => absurd hi i.not_lt_zero⟩

theorem alikeTo_cons :
    AlikeTo signed (n + 1) (c :: a) (d :: b) ↔ Alike signed c d ∧ AlikeTo signed n a b := by
  constructor
  · rintro ⟨ha,hb,hall⟩
    refine ⟨hall 0 n.succ_pos c d rfl rfl,by simpa using ha,by simpa using hb,?_⟩
    intro i hi c' d' hc hd
    exact hall (i + 1) (by omega) c' d' (by simpa using hc) (by simpa using hd)
  · rintro ⟨halike,ha,hb,hall⟩
    refine ⟨by simpa using ha,by simpa using hb,?_⟩
    intro i hi c' d' hc hd
    cases i with
    | zero =>
      obtain rfl := Option.some.inj hc
      obtain rfl := Option.some.inj hd
      exact halike
    | succ i => exact hall i (by omega) c' d' (by simpa using hc) (by simpa using hd)

/-- The loop stays inside the strings, and gets to the bound if all is alike. -/
theorem strncasecmpLoop_spec (signed : Bool) (hb : 0 ∉ b) (i k : ℕ) (ha : 0 ∉ a) :
    ∃ j, strncasecmpLoop signed (i + k) i (a ++ [0]) (b ++ [0]) = some (i + j) ∧
      (j = k ↔ AlikeTo signed k a b) := by
  induction a generalizing b i k with
  | nil =>
    refine ⟨0,?_,?_⟩
    · cases b <;> simp [strncasecmpLoop]
    · constructor
      · rintro rfl
        exact alikeTo_zero
      · intro h
        exact (Nat.le_zero.mp h.1).symm
  | cons c a ih =>
    have hc : c ≠ 0 := (List.ne_of_not_mem_cons ha).symm
    have ha' : 0 ∉ a := List.not_mem_of_not_mem_cons ha
    cases b with
    | nil =>
      refine ⟨0,by simp [strncasecmpLoop],?_⟩
      constructor
      · rintro rfl
        exact alikeTo_zero
      · intro h
        exact (Nat.le_zero.mp h.2.1).symm
    | cons d b =>
      have hd : d ≠ 0 := (List.ne_of_not_mem_cons hb).symm
      have hb' : 0 ∉ b := List.not_mem_of_not_mem_cons hb
      cases k with
      | zero =>
        exact ⟨0,by simp [strncasecmpLoop],iff_of_true rfl alikeTo_zero⟩
      | succ k =>
        rw [alikeTo_cons]
        by_cases halike : Alike signed c d
        · obtain ⟨j,hrun,hj⟩ := ih hb' (i + 1) k ha'
          have hbound : i + (k + 1) = i + 1 + k := by omega
          have hindex : i + (j + 1) = i + 1 + j := by omega
          have hinside : i < i + 1 + k := by omega
          refine ⟨j + 1,?_,?_⟩
          · simp [strncasecmpLoop,hc,hd,halike,hbound,hinside,hrun,hindex]
          · rw [and_iff_right halike,← hj]
            omega
        · exact ⟨0,by simp [strncasecmpLoop,hc,hd,halike],iff_of_false (by omega) fun h => halike h.1⟩

theorem CasePrefix.alikeTo (h : CasePrefix n a b) (ha : 0 ∉ a) (hn : n ≤ a.length) : AlikeTo signed n a b := by
  induction a generalizing b n with
  | nil =>
    obtain rfl := Nat.le_zero.mp hn
    exact alikeTo_zero
  | cons c a ih =>
    have hc : c ≠ 0 := (List.ne_of_not_mem_cons ha).symm
    have ha' : 0 ∉ a := List.not_mem_of_not_mem_cons ha
    cases n with
    | zero => exact alikeTo_zero
    | succ n =>
      cases b with
      | nil =>
        have hhead : lower c = lower 0 := (List.cons.inj h).1
        exact absurd (lower_eq_zero.mp hhead) hc
      | cons d b =>
        obtain ⟨hletter,hrest⟩ := List.cons.inj h
        exact alikeTo_cons.mpr ⟨Alike.of_lower hletter,ih hrest ha' (by simpa using hn)⟩

theorem strcasecmp_iff (signed : Bool) (ha : 0 ∉ a) (hb : 0 ∉ b) :
    Tells (strcasecmp signed (a ++ [0]) (b ++ [0])) (CaseEqual a b) ↔ CaseEqual a b ∨ Shows signed a b := by
  rcases strcasecmp_cases signed ha hb with ⟨hshows,hr⟩ | ⟨hsame,-,hr⟩ | ⟨hsame,hlength,hr⟩
  · have hdiffer : ¬ CaseEqual a b := fun h => h.not_shows hshows
    rw [hr]
    exact iff_of_true ⟨-1,rfl,iff_of_false (by omega) hdiffer⟩ (Or.inr hshows)
  · rw [hr,or_iff_left hsame]
    constructor
    · rintro ⟨v,hv,hzero⟩
      obtain rfl := Option.some.inj hv
      exact hzero.mp rfl
    · intro hequal
      exact ⟨0,rfl,iff_of_true rfl hequal⟩
  · have hdiffer : ¬ CaseEqual a b := fun h => hlength h.length_eq
    rw [hr]
    refine iff_of_false ?_ (not_or.mpr ⟨hdiffer,hsame⟩)
    rintro ⟨v,hv,-⟩
    cases hv

theorem strncasecmp_iff (signed : Bool) (ha : 0 ∉ a) (hb : 0 ∉ b) (n : ℕ) :
    Tells (strncasecmp signed (a ++ [0]) (b ++ [0]) n) (CasePrefix n a b) ↔
      if CasePrefix n a b then n ≤ a.length else ¬ AlikeTo signed n a b := by
  obtain ⟨j,hrun,hj⟩ := strncasecmpLoop_spec signed hb 0 n ha
  rw [Nat.zero_add,Nat.zero_add] at hrun
  have hresult : Tells (strncasecmp signed (a ++ [0]) (b ++ [0]) n) (CasePrefix n a b) ↔
      (AlikeTo signed n a b ↔ CasePrefix n a b) := by
    rw [Tells,strncasecmp,hrun,← hj]
    by_cases hend : j = n
    · simp [hend]
    · simp [hend]
  rw [hresult]
  split_ifs with hfront
  · rw [iff_true_right hfront]
    exact ⟨fun h => h.1,hfront.alikeTo ha⟩
  · exact iff_false_right hfront

/-- For all strings, all bounds and both kinds of char. -/
theorem casecmp_iff (signed : Bool) (ha : 0 ∉ a) (hb : 0 ∉ b) :
    (Tells (strcasecmp signed (a ++ [0]) (b ++ [0])) (CaseEqual a b) ↔ CaseEqual a b ∨ Shows signed a b) ∧
    ∀ n, Tells (strncasecmp signed (a ++ [0]) (b ++ [0]) n) (CasePrefix n a b) ↔
      if CasePrefix n a b then n ≤ a.length else ¬ AlikeTo signed n a b :=
  ⟨strcasecmp_iff signed ha hb,strncasecmp_iff signed ha hb⟩

end Results

/-- "aP" is "Ap", and "ap" is not the start of "sta". -/
theorem casecmp_iff_modes : Tells (strcasecmp false ([97,80] ++ [0]) ([65,112] ++ [0])) (CaseEqual [97,80] [65,112]) ∧
    Tells (strncasecmp false ([97,80] ++ [0]) ([65,112] ++ [0]) 2) (CasePrefix 2 [97,80] [65,112]) := by
  have hiff := casecmp_iff (a := [97,80]) (b := [65,112]) false (by decide) (by decide)
  constructor
  · exact hiff.1.mpr (Or.inl (by decide))
  · apply (hiff.2 2).mpr
    rw [if_pos (by decide)]
    decide

/-- "@" equals a backquote, "" is read behind its terminator for " ", and "ab" differs from itself
with a bound of 5. -/
theorem casecmp_fails :
    ¬ Tells (strcasecmp false ([64] ++ [0]) ([96] ++ [0])) (CaseEqual [64] [96]) ∧
    strcasecmp false ([] ++ [0]) ([32] ++ [0]) = none ∧
    ¬ Tells (strncasecmp false ([97,98] ++ [0]) ([97,98] ++ [0]) 5) (CasePrefix 5 [97,98] [97,98]) := by
  refine ⟨?_,by decide,?_⟩
  · rintro ⟨v,hv,hzero⟩
    have hrun : strcasecmp false ([64] ++ [0]) ([96] ++ [0]) = some 0 := by decide
    obtain rfl := Option.some.inj (hrun.symm.trans hv)
    exact absurd (hzero.mp rfl) (by decide)
  · rintro ⟨v,hv,hzero⟩
    have hrun : strncasecmp false ([97,98] ++ [0]) ([97,98] ++ [0]) 5 = some 1 := by decide
    obtain rfl := Option.some.inj (hrun.symm.trans hv)
    exact absurd (hzero.mpr rfl) (by decide)

end FmacSdk.Strcasecmp
