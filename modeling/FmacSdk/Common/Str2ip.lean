import FmacSdk.Foundation.Ascii
import Mathlib.Data.List.DropRight
import Mathlib.Algebra.Group.Nat.Even
import Mathlib.Tactic.IntervalCases

/-! # Addresses in dotted decimal

str2ip moves on by one character behind each field, and by one more at each dot. The
text is an object that ends with its terminator, and a pointer is what is left of it.
-/
namespace FmacSdk.Str2ip
open Ascii

/-- The decimal digits at a pointer, read up to what ends them. -/
def atoiFrom (v : ℕ) : List UInt8 → Option ℕ
  | [] => none
  | c :: p => if IsDigit c then atoiFrom (10 * v + (c.toNat - 48)) p else some v

def osAtoi (p : List UInt8) : Option UInt32 := (atoiFrom 0 p).map UInt32.ofNat

def osHtonl (x : UInt32) : UInt32 :=
  (x &&& 0xff) <<< 24 ||| (x &&& 0xff00) <<< 8 ||| (x &&& 0xff0000) >>> 8 ||| (x &&& 0xff000000) >>> 24

/-- do { .. } while (*ptr), with a dot as 46 -/
def str2ipLoop (ip : UInt32) : List UInt8 → Option UInt32
  | [] => none
  | c :: p =>
    if c = 46 then
      match p with
      | _ :: d :: q => do
        let field ← osAtoi p
        if d = 0 then some (ip <<< 8 ||| field) else str2ipLoop (ip <<< 8 ||| field) (d :: q)
      | _ => none
    else
      match p with
      | [] => none
      | d :: q => if d = 0 then some ip else str2ipLoop ip (d :: q)

def str2ip (ipstr : List UInt8) : Option UInt32 := do
  let ip ← osAtoi ipstr
  let ip ← str2ipLoop ip ipstr
  some (osHtonl ip)

/-- The word as it lies in memory, the low byte first. -/
def bytesOf (x : UInt32) : List UInt8 := [x.toUInt8,(x >>> 8).toUInt8,(x >>> 16).toUInt8,(x >>> 24).toUInt8]

def dotted (a b c d : UInt8) : List UInt8 :=
  decimal a.toNat ++ 46 :: (decimal b.toNat ++ 46 :: (decimal c.toNat ++ 46 :: decimal d.toNat))

/-- How many dots the text ends with. -/
def dots (s : List UInt8) : ℕ := (s.rtakeWhile fun c => c = 46).length

section Scan
variable {s ds r : List UInt8} {c d : UInt8} {v : ℕ} {ip : UInt32}

theorem atoiFrom_isSome (v : ℕ) (s : List UInt8) : (atoiFrom v (s ++ [0])).isSome := by
  induction s generalizing v with
  | nil => rfl
  | cons c s ih =>
    rw [List.cons_append,atoiFrom]
    split_ifs with hdigit
    · exact ih _
    · rfl

theorem atoiFrom_digits (hds : ∀ c ∈ ds, IsDigit c) (hc : ¬ IsDigit c) :
    atoiFrom v (ds ++ c :: r) = some (number v ds) := by
  induction ds generalizing v with
  | nil => rw [List.nil_append,atoiFrom,if_neg hc]; rfl
  | cons e ds ih =>
    rw [List.cons_append,atoiFrom,if_pos (hds e List.mem_cons_self)]
    exact ih fun f hf => hds f (List.mem_cons_of_mem _ hf)

theorem osAtoi_decimal (n : ℕ) (hc : ¬ IsDigit c) : osAtoi (decimal n ++ c :: r) = some (UInt32.ofNat n) := by
  rw [osAtoi,atoiFrom_digits (fun _ => isDigit_of_mem_decimal) hc,number_decimal]
  rfl

/-- A dot in front counts where all that follows are dots. -/
theorem dots_cons (c : UInt8) (s : List UInt8) :
    dots (c :: s) = if dots s = s.length ∧ c = 46 then s.length + 1 else dots s := by
  simp only [dots,List.rtakeWhile,List.length_reverse,List.reverse_cons,List.takeWhile_append]
  by_cases hall : (s.reverse.takeWhile fun c => decide (c = 46)).length = s.length
  · by_cases hc : c = 46
    · simp [hall,hc]
    · simp [hall,hc]
  · simp [hall]

theorem dots_le (s : List UInt8) : dots s ≤ s.length := (List.rtakeWhile_suffix _ s).length_le

/-- A dot and the character behind it do not change whether the dots at the end are even. -/
theorem even_dots_dot (c : UInt8) (s : List UInt8) : Even (dots (46 :: c :: s)) ↔ Even (dots s) := by
  have hle := dots_le s
  rw [dots_cons,dots_cons]
  by_cases hall : dots s = s.length ∧ c = 46
  · rw [if_pos hall,List.length_cons,if_pos ⟨rfl,rfl⟩,hall.1]
    show Even (s.length + 2) ↔ Even s.length
    simp [Nat.even_add]
  · have hshort : ¬ dots s = (c :: s).length := by
      rw [List.length_cons]
      omega
    rw [if_neg hall,if_neg fun h => hshort h.1]

theorem loop_last (ip : UInt32) (c : UInt8) : (str2ipLoop ip [c,0]).isSome ↔ c ≠ 46 := by
  by_cases hc : c = 46
  · simp [str2ipLoop,hc]
  · simp [str2ipLoop,hc]

/-- One round of the scan in front of a string that goes on. -/
theorem loop_next (ip : UInt32) (hc : c ≠ 46) (hd : d ≠ 0) : str2ipLoop ip (c :: d :: r) = str2ipLoop ip (d :: r) := by
  conv_lhs => rw [str2ipLoop.eq_def]
  simp only [if_neg hc,if_neg hd]

theorem loop_dot (ip : UInt32) (c : UInt8) {field : UInt32} (hfield : osAtoi (c :: d :: r) = some field) :
    str2ipLoop ip (46 :: c :: d :: r) =
      if d = 0 then some (ip <<< 8 ||| field) else str2ipLoop (ip <<< 8 ||| field) (d :: r) := by
  rw [str2ipLoop,if_pos rfl]
  simp only [hfield]
  rfl

/-- The scan ends at the terminator exactly if an even number of dots is in front of it. -/
theorem loop_isSome_iff (n : ℕ) (ip : UInt32) (s : List UInt8) (hn : s.length = n) (hs : 0 ∉ s) (hne : s ≠ []) :
    (str2ipLoop ip (s ++ [0])).isSome ↔ Even (dots s) := by
  induction n using Nat.strong_induction_on generalizing s ip with
  | _ n ih =>
    match s with
    | [] => exact absurd rfl hne
    | [c] =>
      rw [List.singleton_append,loop_last,dots_cons]
      by_cases hc : c = 46
      · simp [hc,dots]
      · simp [hc,dots]
    | c :: d :: t =>
      have hd : d ≠ 0 := fun h => hs (by simp [h])
      have ht : 0 ∉ t := fun h => hs (by simp [h])
      by_cases hc : c = 46
      · obtain ⟨field,hfield⟩ := Option.isSome_iff_exists.mp (atoiFrom_isSome 0 (d :: t))
        have hatoi : osAtoi (d :: t ++ [0]) = some (UInt32.ofNat field) := by rw [osAtoi,hfield]; rfl
        rw [hc,even_dots_dot]
        cases t with
        | nil =>
          have hend := loop_dot ip d hatoi
          rw [if_pos rfl] at hend
          rw [List.cons_append,List.cons_append,List.nil_append,hend]
          exact iff_of_true rfl (by simp [dots])
        | cons e t =>
          have he : e ≠ 0 := (List.ne_of_not_mem_cons ht).symm
          have hgo : str2ipLoop ip (46 :: d :: e :: t ++ [0]) =
              str2ipLoop (ip <<< 8 ||| UInt32.ofNat field) (e :: t ++ [0]) := (loop_dot ip d hatoi).trans (if_neg he)
          rw [hgo]
          exact ih (t.length + 1) (by simp at hn; omega) _ (e :: t) rfl ht (by simp)
      · have hdots : dots (c :: d :: t) = dots (d :: t) := by rw [dots_cons,if_neg fun h => hc h.2]
        have hgo : str2ipLoop ip (c :: d :: t ++ [0]) = str2ipLoop ip (d :: t ++ [0]) := loop_next ip hc hd
        rw [hdots,hgo]
        have hrest : 0 ∉ d :: t := List.not_mem_of_not_mem_cons hs
        exact ih (t.length + 1) (by simp at hn; omega) ip (d :: t) rfl hrest (by simp)

theorem str2ip_isSome_iff (hs : 0 ∉ s) : (str2ip (s ++ [0])).isSome ↔ s ≠ [] ∧ Even (dots s) := by
  obtain ⟨v,hv⟩ := Option.isSome_iff_exists.mp (atoiFrom_isSome 0 s)
  have hatoi : osAtoi (s ++ [0]) = some (UInt32.ofNat v) := by rw [osAtoi,hv]; rfl
  have hloop : (str2ip (s ++ [0])).isSome ↔ (str2ipLoop (UInt32.ofNat v) (s ++ [0])).isSome := by
    rw [str2ip,hatoi]
    cases hscan : str2ipLoop (UInt32.ofNat v) (s ++ [0]) with
    | none => simp [hscan]
    | some ip => simp [hscan]
  rw [hloop]
  by_cases hempty : s = []
  · rw [hempty]
    exact iff_of_false (by simp [str2ipLoop]) fun h => h.1 rfl
  · rw [loop_isSome_iff s.length _ s rfl hs hempty,and_iff_right hempty]

end Scan

/-! ## Addresses -/

section Addresses
variable {ds r : List UInt8} {c e : UInt8} {ip : UInt32}

theorem byte_ext {a b : UInt8} (h : ∀ i < 8, a.toBitVec.getLsbD i = b.toBitVec.getLsbD i) : a = b := by
  apply UInt8.eq_of_toBitVec_eq
  exact BitVec.eq_of_getLsbD_eq h

theorem bytesOf_eq {x : UInt32} {a b c d : UInt8} (h : ∀ i < 8, x.toBitVec.getLsbD i = a.toBitVec.getLsbD i ∧
    x.toBitVec.getLsbD (8 + i) = b.toBitVec.getLsbD i ∧ x.toBitVec.getLsbD (16 + i) = c.toBitVec.getLsbD i ∧
    x.toBitVec.getLsbD (24 + i) = d.toBitVec.getLsbD i) : bytesOf x = [a,b,c,d] := by
  have h0 : x.toUInt8 = a := byte_ext fun i hi => by simpa [hi] using (h i hi).1
  have h1 : (x >>> 8).toUInt8 = b := byte_ext fun i hi => by simpa [hi] using (h i hi).2.1
  have h2 : (x >>> 16).toUInt8 = c := byte_ext fun i hi => by simpa [hi] using (h i hi).2.2.1
  have h3 : (x >>> 24).toUInt8 = d := byte_ext fun i hi => by simpa [hi] using (h i hi).2.2.2
  rw [bytesOf,h0,h1,h2,h3]

/-- One more field behind the last byte. -/
theorem bytesOf_shift (x : UInt32) (b : UInt8) :
    bytesOf (x <<< 8 ||| UInt32.ofNat b.toNat) = b :: (bytesOf x).take 3 := by
  apply bytesOf_eq
  intro i hi
  interval_cases i <;> simp

theorem bytesOf_osHtonl (x : UInt32) : bytesOf (osHtonl x) = (bytesOf x).reverse := by
  apply bytesOf_eq
  intro i hi
  interval_cases i <;> simp [osHtonl]

theorem IsDigit.ne_dot (hc : IsDigit c) : c ≠ 46 := by
  rintro rfl
  revert hc
  decide

theorem IsDigit.ne_zero (hc : IsDigit c) : c ≠ 0 := by
  rintro rfl
  revert hc
  decide

/-- Digits are passed one by one. -/
theorem loop_digits (hc : IsDigit c) (hds : ∀ c ∈ ds, IsDigit c) :
    str2ipLoop ip (c :: (ds ++ e :: r)) = if e = 0 then some ip else str2ipLoop ip (e :: r) := by
  induction ds generalizing c with
  | nil =>
    conv_lhs => rw [str2ipLoop.eq_def]
    simp [IsDigit.ne_dot hc]
  | cons d ds ih =>
    have hd := hds d List.mem_cons_self
    rw [List.cons_append,loop_next ip (IsDigit.ne_dot hc) (IsDigit.ne_zero hd)]
    exact ih hd fun f hf => hds f (List.mem_cons_of_mem _ hf)

/-- The number in front of what ends it. -/
theorem loop_decimal (ip : UInt32) (n : ℕ) (e : UInt8) (r : List UInt8) :
    str2ipLoop ip (decimal n ++ e :: r) = if e = 0 then some ip else str2ipLoop ip (e :: r) := by
  have hdigits : ∀ c ∈ decimal n, IsDigit c := fun c => isDigit_of_mem_decimal
  cases hn : decimal n with
  | nil => exact absurd hn (decimal_ne_nil n)
  | cons c ds =>
    rw [hn] at hdigits
    exact loop_digits (hdigits c List.mem_cons_self) fun d hd => hdigits d (List.mem_cons_of_mem _ hd)

/-- A field: the dot, the number, and what ends it. -/
theorem loop_field (ip : UInt32) (n : ℕ) (he : ¬ IsDigit e) (r : List UInt8) :
    str2ipLoop ip (46 :: (decimal n ++ e :: r)) =
      if e = 0 then some (ip <<< 8 ||| UInt32.ofNat n) else str2ipLoop (ip <<< 8 ||| UInt32.ofNat n) (e :: r) := by
  have hfield : osAtoi (decimal n ++ e :: r) = some (UInt32.ofNat n) := osAtoi_decimal n he
  have hdigits : ∀ c ∈ decimal n, IsDigit c := fun c => isDigit_of_mem_decimal
  cases hn : decimal n with
  | nil => exact absurd hn (decimal_ne_nil n)
  | cons c ds =>
    rw [hn] at hdigits hfield
    cases ds with
    | nil => exact loop_dot ip c hfield
    | cons d ds =>
      have hd : IsDigit d := hdigits d (by simp)
      have hgo := loop_dot ip c hfield
      rw [if_neg (IsDigit.ne_zero hd)] at hgo
      refine hgo.trans (loop_digits hd fun f hf => hdigits f ?_)
      simp [hf]

theorem str2ip_dotted (a b c d : UInt8) :
    ∃ v, str2ip (dotted a b c d ++ [0]) = some v ∧ bytesOf v = [a,b,c,d] := by
  have hdot : ¬ IsDigit 46 := by decide
  have hend : ¬ IsDigit 0 := by decide
  have htext : dotted a b c d ++ [0] = decimal a.toNat ++ 46 :: (decimal b.toNat ++ 46 ::
      (decimal c.toNat ++ 46 :: (decimal d.toNat ++ [0]))) := by simp [dotted]
  have hfirst := osAtoi_decimal (r := decimal b.toNat ++ 46 :: (decimal c.toNat ++ 46 :: (decimal d.toNat ++ [0])))
    a.toNat hdot
  have hval : str2ip (dotted a b c d ++ [0]) = some (osHtonl (((UInt32.ofNat a.toNat <<< 8 |||
      UInt32.ofNat b.toNat) <<< 8 ||| UInt32.ofNat c.toNat) <<< 8 ||| UInt32.ofNat d.toNat)) := by
    rw [htext,str2ip,hfirst]
    show (str2ipLoop _ _).bind _ = _
    rw [loop_decimal,if_neg (by decide),loop_field _ _ hdot,if_neg (by decide),loop_field _ _ hdot,
      if_neg (by decide),loop_field _ _ hend,if_pos rfl]
    rfl
  have hlow : (bytesOf a.toUInt32).take 1 = [a] := by simp [bytesOf]
  refine ⟨_,hval,?_⟩
  rw [bytesOf_osHtonl,bytesOf_shift,bytesOf_shift,bytesOf_shift]
  simp [hlow,List.take_take]

/-- Every address is read back. The scan of a text stays in front of its end exactly if the
text is not empty and the number of dots at its end is even. -/
theorem str2ip_iff (a b c d : UInt8) (s : List UInt8) (hs : 0 ∉ s) :
    (∃ v, str2ip (dotted a b c d ++ [0]) = some v ∧ bytesOf v = [a,b,c,d]) ∧
      ((str2ip (s ++ [0])).isSome ↔ s ≠ [] ∧ Even (dots s)) := by
  constructor
  · exact str2ip_dotted a b c d
  · exact str2ip_isSome_iff hs

theorem str2ip_iff_fields :
    (∃ v, str2ip (dotted 10 0 0 1 ++ [0]) = some v ∧ bytesOf v = [10,0,0,1]) ∧
      (0 ∉ ([49,46,46] : List UInt8) ∧ (str2ip ([49,46,46] ++ [0])).isSome) ∧
      0 ∉ ([49,46] : List UInt8) ∧ ¬ (str2ip ([49,46] ++ [0])).isSome := by
  have htwo : 0 ∉ ([49,46,46] : List UInt8) := by decide
  have hone : 0 ∉ ([49,46] : List UInt8) := by decide
  have heven := str2ip_iff 10 0 0 1 [49,46,46] htwo
  refine ⟨heven.1,⟨htwo,heven.2.mpr (by decide)⟩,hone,fun h => ?_⟩
  exact absurd ((str2ip_iff 10 0 0 1 [49,46] hone).2.mp h) (by decide)

/-- The empty text, and a number with a dot behind it. -/
theorem str2ip_fails : ¬ (str2ip ([] ++ [0])).isSome ∧ ¬ (str2ip ([49,46] ++ [0])).isSome := by decide

end Addresses

end FmacSdk.Str2ip
