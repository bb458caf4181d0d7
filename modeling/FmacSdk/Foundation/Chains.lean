import Mathlib.Data.List.Basic
import Mathlib.Logic.Function.Basic

/-! # Chains of nodes

A node names the next one or none. A chain is followed from an optional node; the
walks over it are bounded, so that one that does not end has no answer.
-/
namespace FmacSdk.Chains
variable {δ : Type*}

/-- Following the chain from `p` meets the nodes of the list and arrives at `q`. -/
def Seg (next : δ → Option δ) : Option δ → List δ → Option δ → Prop
  | p, [], q => p = q
  | p, d :: l, q => p = some d ∧ Seg next (next d) l q

def Reaches (next : δ → Option δ) (p : Option δ) (d : δ) : Prop := ∃ pre, Seg next p pre (some d)

/-- Some node that is met comes back to itself. -/
def Loops (next : δ → Option δ) (p : Option δ) : Prop :=
  ∃ d loop, Reaches next p d ∧ loop ≠ [] ∧ Seg next (some d) loop (some d)

/-- The first node with the property, at most `n` nodes away. -/
def search (next : δ → Option δ) (f : δ → Bool) : ℕ → Option δ → Option (Option δ)
  | _, none => some none
  | 0, some _ => none
  | n + 1, some d => if f d then some (some d) else search next f n (next d)

/-- The nodes in the order in which they are met, if they are at most `n`. -/
def walk (next : δ → Option δ) : ℕ → Option δ → Option (List δ)
  | _, none => some []
  | 0, some _ => none
  | n + 1, some d => (walk next n (next d)).map (d :: ·)

variable {next : δ → Option δ} {p q r : Option δ} {d e : δ} {l l' : List δ} {f : δ → Bool} {m n : ℕ}

theorem Seg.append (h : Seg next p l q) (h' : Seg next q l' r) : Seg next p (l ++ l') r := by
  induction l generalizing p with
  | nil =>
    cases h
    exact h'
  | cons d l ih => exact ⟨h.1,ih h.2⟩

theorem Seg.split (h : Seg next p (l ++ l') q) : ∃ r, Seg next p l r ∧ Seg next r l' q := by
  induction l generalizing p with
  | nil => exact ⟨p,rfl,h⟩
  | cons d l ih =>
    obtain ⟨r,hl,hr⟩ := ih h.2
    exact ⟨r,⟨h.1,hl⟩,hr⟩

/-- A chain that ends has one list of nodes. -/
theorem Seg.unique (h : Seg next p l none) (h' : Seg next p l' none) : l = l' := by
  induction l generalizing p l' with
  | nil =>
    cases h
    cases l' with
    | nil => rfl
    | cons e l' => exact absurd h'.1 (Option.some_ne_none e).symm
  | cons d l ih =>
    cases l' with
    | nil => exact absurd (h.1.symm.trans h') (Option.some_ne_none d)
    | cons e l' =>
      obtain rfl : d = e := Option.some.inj (h.1.symm.trans h'.1)
      rw [ih h.2 h'.2]

/-- What is met on the way to the end is behind what was met before. -/
theorem Seg.suffix (h : Seg next p l none) {pre : List δ} (hpre : Seg next p pre (some d)) :
    ∃ rest, l = pre ++ d :: rest ∧ Seg next (some d) (d :: rest) none := by
  induction pre generalizing p l with
  | nil =>
    cases hpre
    cases l with
    | nil => exact absurd h (Option.some_ne_none d)
    | cons e l =>
      obtain rfl : d = e := Option.some.inj h.1
      exact ⟨l,rfl,h⟩
  | cons c pre ih =>
    cases l with
    | nil => exact absurd (hpre.1.symm.trans h) (Option.some_ne_none c)
    | cons e l =>
      obtain rfl : c = e := Option.some.inj (hpre.1.symm.trans h.1)
      obtain ⟨rest,rfl,hrest⟩ := ih h.2 hpre.2
      exact ⟨rest,rfl,hrest⟩

theorem Seg.no_loop (h : Seg next p l none) : ¬ Loops next p := by
  rintro ⟨d,loop,⟨pre,hpre⟩,hne,hloop⟩
  obtain ⟨rest,-,hrest⟩ := h.suffix hpre
  have heq := hrest.unique (hloop.append hrest)
  exact hne (List.self_eq_append_left.mp heq)

theorem Seg.reaches_iff (h : Seg next p l none) : Reaches next p d ↔ d ∈ l := by
  constructor
  · rintro ⟨pre,hpre⟩
    obtain ⟨rest,rfl,-⟩ := h.suffix hpre
    exact List.mem_append_right pre List.mem_cons_self
  · intro hd
    obtain ⟨pre,rest,rfl⟩ := List.append_of_mem hd
    obtain ⟨r,hpre,hr⟩ := h.split
    obtain rfl : r = some d := hr.1
    exact ⟨pre,hpre⟩

/-- A chain that ends meets no node twice. -/
theorem Seg.nodup (h : Seg next p l none) : l.Nodup := by
  induction l generalizing p with
  | nil => exact List.nodup_nil
  | cons d l ih =>
    refine List.nodup_cons.mpr ⟨fun hd => ?_,ih h.2⟩
    obtain ⟨pre,hpre⟩ := h.2.reaches_iff.mpr hd
    exact h.no_loop ⟨d,d :: pre,⟨[],h.1⟩,List.cons_ne_nil d pre,rfl,hpre⟩

theorem search_mono {a : Option δ} (h : search next f n p = some a) (hle : n ≤ m) :
    search next f m p = some a := by
  induction n generalizing p m with
  | zero =>
    cases p with
    | none =>
      cases m <;> exact h
    | some d => cases h
  | succ n ih =>
    obtain ⟨m,rfl⟩ := Nat.exists_eq_add_of_le' (Nat.one_le_of_lt hle)
    cases p with
    | none => exact h
    | some d =>
      unfold search at h ⊢
      split at h
      · rename_i hf
        rw [if_pos hf]
        exact h
      · rename_i hf
        rw [if_neg hf]
        exact ih h (Nat.le_of_succ_le_succ hle)

/-- The answer does not depend on the bound. -/
theorem search_unique {a b : Option δ} (ha : search next f n p = some a) (hb : search next f m p = some b) :
    a = b := by
  have hmax := search_mono ha (Nat.le_max_left n m)
  rw [search_mono hb (Nat.le_max_right n m)] at hmax
  exact (Option.some.inj hmax).symm

theorem search_some (h : search next f n p = some (some d)) : f d = true := by
  induction n generalizing p with
  | zero =>
    cases p with
    | none => cases h
    | some e => cases h
  | succ n ih =>
    cases p with
    | none => cases h
    | some e =>
      unfold search at h
      split at h
      · rename_i hf
        cases h
        exact hf
      · exact ih h

theorem Seg.search (h : Seg next p l none) (f : δ → Bool) : search next f l.length p = some (l.find? f) := by
  induction l generalizing p with
  | nil =>
    cases h
    rfl
  | cons d l ih =>
    obtain ⟨rfl,hl⟩ := h
    show (if f d then some (some d) else Chains.search next f l.length (next d)) = _
    cases hf : f d with
    | true => rw [List.find?_cons_of_pos hf,if_pos rfl]
    | false =>
      rw [List.find?_cons_of_neg (Bool.eq_false_iff.mp hf),if_neg Bool.false_ne_true]
      exact ih hl

theorem Seg.walk (h : Seg next p l none) : walk next l.length p = some l := by
  induction l generalizing p with
  | nil =>
    cases h
    rfl
  | cons d l ih =>
    obtain ⟨rfl,hl⟩ := h
    exact congrArg (Option.map (d :: ·)) (ih hl)

section Insertion
variable [DecidableEq δ]

theorem Seg.update (h : Seg next p l q) (hd : d ∉ l) : Seg (Function.update next d r) p l q := by
  induction l generalizing p with
  | nil => exact h
  | cons e l ih =>
    refine ⟨h.1,?_⟩
    rw [Function.update_of_ne (List.ne_of_not_mem_cons hd).symm]
    exact ih h.2 (List.not_mem_of_not_mem_cons hd)

/-- A new node in front. -/
theorem Seg.push (h : Seg next p l q) (hd : d ∉ l) : Seg (Function.update next d p) (some d) (d :: l) q := by
  refine ⟨rfl,?_⟩
  rw [Function.update_self]
  exact h.update hd

/-- A node that is put in front although the chain meets it makes the chain a loop. -/
theorem Seg.push_loops (h : Seg next p l none) (hd : d ∈ l) : Loops (Function.update next d p) (some d) := by
  obtain ⟨pre,hpre⟩ := h.reaches_iff.mpr hd
  have hnew : d ∉ pre := by
    obtain ⟨rest,rfl,-⟩ := h.suffix hpre
    intro hmem
    exact (List.nodup_append.mp h.nodup).2.2 d hmem d List.mem_cons_self rfl
  exact ⟨d,d :: pre,⟨[],rfl⟩,List.cons_ne_nil d pre,hpre.push hnew⟩

end Insertion

end FmacSdk.Chains
