import Mathlib.Data.List.Basic
import Mathlib.Data.List.TakeWhile
import Mathlib.Tactic.Cases

/-! # Strings that end in a zero byte, and buffers that may lack one

A string is its bytes before the terminator, a buffer is memory addressed from
its start. The comparisons return how many bytes of the buffer they read, which
shows whether they ran past the part that was written.
-/
namespace FmacSdk.CString

/-- The buffer after strncpy of `s` with bound `n`: padded with zeros up to the
bound, unterminated if the string is longer, and as before behind it. -/
def strncpy (n : ℕ) (s : List UInt8) (old : ℕ → UInt8) (i : ℕ) : UInt8 :=
  if i < n then s.getD i 0 else old i

/-- strcmp against a buffer: whether they agree, and the bytes read. -/
def strcmp : List UInt8 → (ℕ → UInt8) → Bool × ℕ
  | [], b => (b 0 == 0,1)
  | c :: s, b =>
    if b 0 = c then ((strcmp s fun i => b (i + 1)).1,(strcmp s fun i => b (i + 1)).2 + 1)
    else (false,1)

/-- strncmp against a buffer. -/
def strncmp : ℕ → List UInt8 → (ℕ → UInt8) → Bool × ℕ
  | 0, _, _ => (true,0)
  | _ + 1, [], b => (b 0 == 0,1)
  | n + 1, c :: s, b =>
    if b 0 = c then ((strncmp n s fun i => b (i + 1)).1,(strncmp n s fun i => b (i + 1)).2 + 1)
    else (false,1)

/-- The string that strncpy with bound `n` takes from a buffer, and the bytes read. -/
def strncpyFrom (n : ℕ) (b : ℕ → UInt8) : List UInt8 × ℕ :=
  let s := ((List.range n).map b).takeWhile fun c => c ≠ 0
  (s,min n (s.length + 1))

variable {n : ℕ} {s t : List UInt8} {b : ℕ → UInt8}

theorem take_eq_self_iff_length : s.take n = s ↔ s.length ≤ n :=
  ⟨fun h => h ▸ List.length_take_le n s,List.take_of_length_le⟩

theorem strncpy_shift (a : UInt8) :
    (fun i => strncpy (n + 1) (a :: t) b (i + 1)) = strncpy n t fun i => b (i + 1) := by
  funext i
  simp [strncpy]

/-- Two strings that both go on are compared in their first bytes and then behind them. -/
theorem strcmp_strncpy_cons (c a : UInt8) :
    strcmp (c :: s) (strncpy (n + 1) (a :: t) b) =
      if a = c then ((strcmp s (strncpy n t fun i => b (i + 1))).1,(strcmp s (strncpy n t fun i => b (i + 1))).2 + 1)
      else (false,1) := by
  have hhead : strncpy (n + 1) (a :: t) b 0 = a := by simp [strncpy]
  rw [strcmp,hhead,strncpy_shift]

theorem strncmp_snd_le (n : ℕ) (s : List UInt8) (b : ℕ → UInt8) : (strncmp n s b).2 ≤ n := by
  induction n generalizing s b with
  | zero => rfl
  | succ n ih =>
    cases s with
    | nil => simp [strncmp]
    | cons c s =>
      unfold strncmp
      split
      · exact Nat.succ_le_succ (ih s _)
      · exact Nat.succ_le_succ (Nat.zero_le n)

/-- strncmp compares the two prefixes. -/
theorem strncmp_fst_iff (hs : 0 ∉ s) (ht : 0 ∉ t) :
    (strncmp n s (strncpy n t b)).1 = true ↔ s.take n = t.take n := by
  induction n generalizing s t b with
  | zero => simp [strncmp]
  | succ n ih =>
    cases s with
    | nil =>
      cases t with
      | nil => simp [strncmp,strncpy]
      | cons a t =>
        have ha : a ≠ 0 := (List.ne_of_not_mem_cons ht).symm
        simp [strncmp,strncpy,ha]
    | cons c s =>
      have hc : c ≠ 0 := (List.ne_of_not_mem_cons hs).symm
      have hs' : 0 ∉ s := List.not_mem_of_not_mem_cons hs
      cases t with
      | nil => simp [strncmp,strncpy,hc.symm]
      | cons a t =>
        have ht' : 0 ∉ t := List.not_mem_of_not_mem_cons ht
        have hhead : strncpy (n + 1) (a :: t) b 0 = a := by simp [strncpy]
        rw [strncmp,hhead,strncpy_shift]
        by_cases hac : a = c
        · simp [hac,ih hs' ht']
        · simp [hac,Ne.symm hac]

/-- strcmp agrees with the copied prefix, but behind a full one it also depends
on the byte that was never written. -/
theorem strcmp_fst_iff (hs : 0 ∉ s) (ht : 0 ∉ t) (hn : s.length ≤ n) :
    (strcmp s (strncpy n t b)).1 = true ↔ s = t.take n ∧ (s.length = n → b n = 0) := by
  induction n generalizing s t b with
  | zero =>
    obtain rfl := List.length_eq_zero_iff.mp (Nat.le_zero.mp hn)
    simp [strcmp,strncpy]
  | succ n ih =>
    cases s with
    | nil =>
      cases t with
      | nil => simp [strcmp,strncpy]
      | cons a t =>
        have ha : a ≠ 0 := (List.ne_of_not_mem_cons ht).symm
        simp [strcmp,strncpy,ha]
    | cons c s =>
      have hc : c ≠ 0 := (List.ne_of_not_mem_cons hs).symm
      have hs' : 0 ∉ s := List.not_mem_of_not_mem_cons hs
      cases t with
      | nil => simp [strcmp,strncpy,hc.symm]
      | cons a t =>
        have ht' : 0 ∉ t := List.not_mem_of_not_mem_cons ht
        rw [strcmp_strncpy_cons]
        by_cases hac : a = c
        · simp [hac,ih hs' ht' (Nat.le_of_succ_le_succ hn)]
        · simp [hac,Ne.symm hac]

/-- In a buffer of zeros the copy is terminated, and strcmp compares with the copied prefix. -/
theorem strcmp_zeros_iff (hs : 0 ∉ s) (ht : 0 ∉ t) :
    (strcmp s (strncpy n t fun _ => 0)).1 = true ↔ t.take n = s := by
  induction n generalizing s t with
  | zero =>
    cases s with
    | nil => simp [strcmp,strncpy]
    | cons c s =>
      have hc : c ≠ 0 := (List.ne_of_not_mem_cons hs).symm
      simp [strcmp,strncpy,hc.symm]
  | succ n ih =>
    cases s with
    | nil =>
      cases t with
      | nil => simp [strcmp,strncpy]
      | cons a t =>
        have ha : a ≠ 0 := (List.ne_of_not_mem_cons ht).symm
        simp [strcmp,strncpy,ha]
    | cons c s =>
      have hc : c ≠ 0 := (List.ne_of_not_mem_cons hs).symm
      have hs' : 0 ∉ s := List.not_mem_of_not_mem_cons hs
      cases t with
      | nil => simp [strcmp,strncpy,hc.symm]
      | cons a t =>
        have ht' : 0 ∉ t := List.not_mem_of_not_mem_cons ht
        rw [strcmp_strncpy_cons]
        by_cases hac : a = c
        · simp [hac,ih hs' ht']
        · simp [hac]

/-- strcmp stays within the copied bytes unless it meets a full equal prefix. -/
theorem strcmp_snd_le_iff (hs : 0 ∉ s) (ht : 0 ∉ t) (hn : s.length ≤ n) :
    (strcmp s (strncpy n t b)).2 ≤ n ↔ ¬ (s.length = n ∧ s = t.take n) := by
  induction n generalizing s t b with
  | zero =>
    obtain rfl := List.length_eq_zero_iff.mp (Nat.le_zero.mp hn)
    simp [strcmp]
  | succ n ih =>
    cases s with
    | nil => simp [strcmp]
    | cons c s =>
      have hc : c ≠ 0 := (List.ne_of_not_mem_cons hs).symm
      have hs' : 0 ∉ s := List.not_mem_of_not_mem_cons hs
      cases t with
      | nil => simp [strcmp,strncpy,hc.symm]
      | cons a t =>
        have ht' : 0 ∉ t := List.not_mem_of_not_mem_cons ht
        rw [strcmp_strncpy_cons]
        by_cases hac : a = c
        · simp [hac,ih hs' ht' (Nat.le_of_succ_le_succ hn)]
        · simp [hac,Ne.symm hac]

theorem strncpyFrom_snd_le (n : ℕ) (b : ℕ → UInt8) : (strncpyFrom n b).2 ≤ n := Nat.min_le_left _ _

/-- What is copied out of the buffer is what was copied into it. -/
theorem strncpyFrom_strncpy (ht : 0 ∉ t) : (strncpyFrom n (strncpy n t b)).1 = t.take n := by
  induction n generalizing t b with
  | zero => rfl
  | succ n ih =>
    have hstep (b : ℕ → UInt8) : (strncpyFrom (n + 1) b).1 =
        if b 0 ≠ 0 then b 0 :: (strncpyFrom n fun i => b (i + 1)).1 else [] := by
      simp only [strncpyFrom,List.range_succ_eq_map,List.map_cons,List.map_map,List.takeWhile_cons,
        decide_eq_true_eq]
      rfl
    rw [hstep]
    cases t with
    | nil => simp [strncpy]
    | cons a t =>
      have ha : a ≠ 0 := (List.ne_of_not_mem_cons ht).symm
      have hhead : strncpy (n + 1) (a :: t) b 0 = a := by simp [strncpy]
      rw [hhead,strncpy_shift,if_pos ha,ih (List.not_mem_of_not_mem_cons ht)]
      rfl

end FmacSdk.CString
