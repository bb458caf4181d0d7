import FmacSdk.Heap.Alloc

/-! # realloc and calloc

realloc is not told how long the old block is and copies as many bytes as the new one
has. calloc forms its product in 32 bits and asks the heap for what is left of it.
-/
namespace FmacSdk.Alloc
open Objects

/-- A call of realloc that came back. -/
structure Reallocated (heap : SysHeap) (ptr : Ptr) (size : Int32) (h : Heaps) (r : Ptr × Heaps) : Prop where
  failed : r.1 = none → r.2 = h
  copied : ∀ p, r.1 = some p → ∃ new, r.2.live heap p = some new ∧ (new.length : ℤ) = size.toInt ∧
    ∀ q old, ptr = some q → h.live heap q = some old →
      new.take (min old.length new.length) = old.take (min old.length new.length)
  released : ∀ p q, r.1 = some p → ptr = some q → r.2.live heap q = none
  freed : ∀ p, r.1 = some p → r.2.freed = match ptr with
    | some q => (heap,q) :: h.freed
    | none => h.freed

/-- It stays inside the two blocks, and does what it is for. -/
def Reallocs (a : Sysheap) (heap : SysHeap) (v : Variant) (ptr : Ptr) (size : Int32) (h : Heaps) : Prop :=
  ∃ r, v.realloc a heap ptr size h = some r ∧ Reallocated heap ptr size h r

/-- The old block has all the bytes that the new one will have. -/
def Covers (heap : SysHeap) (ptr : Ptr) (size : Int32) (h : Heaps) : Prop :=
  ∃ q old, ptr = some q ∧ h.live heap q = some old ∧ size.toInt ≤ old.length

/-- It is zeros, and as many as the product says, or NULL. -/
def Callocs (a : Sysheap) (heap : SysHeap) (v : Variant) (nmemb size : UInt32) (h : Heaps) : Prop :=
  ∃ r, v.calloc a heap nmemb size h = some r ∧
    (∀ p, r.1 = some p → ∃ b, r.2.live heap p = some b ∧
      nmemb.toNat * size.toNat ≤ b.length ∧ ∀ x ∈ b, x = 0) ∧
    (2 ^ 31 ≤ nmemb.toNat * size.toNat → r.1 = none)

section Lengths
variable {size : Int32} {n : UInt32}

theorem toNat_of_pos (h : 0 ≤ size.toInt) : (size.toUInt32.toNat : ℤ) = size.toInt := by
  have hnat : size.toUInt32.toNat = size.toNatClampNeg :=
    Int32.toNat_toUInt32_of_le (Int32.le_iff_toInt_le.mpr h)
  have hclamp : size.toInt.toNat = size.toNatClampNeg := Int32.toNat_toInt size
  omega

/-- The lower half of a size_t is what an int can hold. -/
theorem toInt32_nonneg_iff : 0 ≤ n.toInt32.toInt ↔ n.toNat < 2 ^ 31 := by
  have hcond : n.toInt32.toInt = if 2 * n.toNat < 2 ^ 32 then (n.toNat : ℤ) else n.toNat - 2 ^ 32 :=
    BitVec.toInt_eq_toNat_cond n.toBitVec
  have hlt := n.toNat_lt
  rw [hcond]
  split_ifs with hhalf
  · exact iff_of_true (Int.natCast_nonneg _) (by omega)
  · exact iff_of_false (by omega) (by omega)

end Lengths

section Copies
variable {a : Sysheap} {heap : SysHeap} {v : Variant} {site : Site} {h : Heaps} {ptr : Ptr} {size : Int32}
variable {p q : Addr} {b old : List UInt8}

theorem ne_of_fresh (hfresh : h.live heap p = none) (hq : h.live heap q = some old) : q ≠ p := by
  rintro rfl
  rw [hfresh] at hq
  cases hq

theorem osMemcpy_eq (hq : h.live heap q = some old) (hp : h.live heap p = some b)
    {n : UInt32} (hb : b.length = n.toNat) :
    osMemcpy heap p (some q) n h =
      if n.toNat ≤ old.length then some (h.set heap p (some (old.take n.toNat))) else none := by
  simp only [osMemcpy,Option.bind_eq_bind,Option.bind_some,hq,hp]
  split_ifs with hcovers
  · have htake : (old.take n.toNat).length = n.toNat := List.length_take_of_le hcovers
    have hrest : b.drop n.toNat = [] := List.drop_of_length_le hb.le
    rw [read_zero hcovers,Option.bind_some,write_zero _ _ (by omega),Option.bind_some,htake,hrest,List.append_nil]
  · have hover : old.length < 0 + n.toNat := by omega
    rw [read_eq_none_iff.mpr hover]
    rfl

theorem realloc_refused (halloc : a.alloc h heap size v.site = none) : Reallocs a heap v ptr size h := by
  have hrun : v.realloc a heap ptr size h = some (none,h) := by
    rw [Variant.realloc_eq,realloc,sysheapAlloc,halloc]
  refine ⟨_,hrun,fun _ => rfl,?_,?_,?_⟩
  · intro p hp
    cases hp
  · intro p q hp
    cases hp
  · intro p hp
    cases hp

/-- With a new block: the run ends exactly if the old one covers it. -/
theorem realloc_answered (halloc : a.alloc h heap size site = some (p,b)) (hq : h.live heap q = some old) :
    realloc a heap site (some q) size h =
      if size.toInt ≤ old.length then
        some (some p,{ (h.set heap p (some (old.take size.toUInt32.toNat))).set heap q none with
          freed := (heap,q) :: h.freed })
      else none := by
  obtain ⟨hlength,hpos,hfresh,hrun⟩ := alloc_some halloc
  have hne := ne_of_fresh hfresh hq
  have hlive : (h.set heap p (some b)).live heap q = some old := by rw [Heaps.set_ne hne,hq]
  have hsize := toNat_of_pos hpos
  have hcopy := osMemcpy_eq hlive Heaps.set_self hlength
  rw [realloc,hrun]
  dsimp only
  rw [hcopy]
  by_cases hcovers : size.toInt ≤ old.length
  · have hfits : size.toUInt32.toNat ≤ old.length := by omega
    have hset : (h.set heap p (some b)).set heap p (some (old.take size.toUInt32.toNat)) =
        h.set heap p (some (old.take size.toUInt32.toNat)) := by simp [Heaps.set]
    have hlive' : (h.set heap p (some (old.take size.toUInt32.toNat))).live heap q = some old := by
      rw [Heaps.set_ne hne,hq]
    rw [if_pos hfits,if_pos hcovers,hset]
    simp [free,sysheapFree,hlive']
  · rw [if_neg hcovers,if_neg (by omega)]
    rfl

/-- For both heaps and all variants: realloc is right exactly where the old block covers the new
size, or there is no new block. -/
theorem realloc_iff (a : Sysheap) (heap : SysHeap) (v : Variant) (h : Heaps) {ptr : Ptr} {size : Int32}
    (hptr : ∀ q, ptr = some q → (h.live heap q).isSome) :
    Reallocs a heap v ptr size h ↔ a.alloc h heap size v.site = none ∨ Covers heap ptr size h := by
  cases halloc : a.alloc h heap size v.site with
  | none => exact iff_of_true (realloc_refused halloc) (Or.inl rfl)
  | some r =>
    obtain ⟨p,b⟩ := r
    obtain ⟨hlength,hpos,hfresh,hrun⟩ := alloc_some halloc
    rw [Reallocs,Variant.realloc_eq,or_iff_right (by simp)]
    cases ptr with
    | none =>
      have hnull : realloc a heap v.site none size h = none := by
        rw [realloc,hrun]
        rfl
      refine iff_of_false ?_ ?_
      · rintro ⟨r,hr,-⟩
        rw [hnull] at hr
        cases hr
      · rintro ⟨q,old,hq,-⟩
        cases hq
    | some q =>
      obtain ⟨old,hq⟩ := Option.isSome_iff_exists.mp (hptr q rfl)
      have hcovers : Covers heap (some q) size h ↔ size.toInt ≤ old.length := by
        constructor
        · rintro ⟨q',old',hq',hold',hle⟩
          obtain rfl := Option.some.inj hq'
          rw [hq] at hold'
          obtain rfl := Option.some.inj hold'
          exact hle
        · intro hle
          exact ⟨q,old,rfl,hq,hle⟩
      rw [realloc_answered halloc hq,hcovers]
      split_ifs with hle
      · refine iff_of_true ⟨_,rfl,?_,?_,?_,?_⟩ hle
        · intro hp
          cases hp
        · intro p' hp'
          obtain rfl := Option.some.inj hp'
          have hne := (ne_of_fresh hfresh hq).symm
          have hsize' := toNat_of_pos hpos
          have htake : (old.take size.toUInt32.toNat).length = size.toUInt32.toNat :=
            List.length_take_of_le (by omega)
          refine ⟨old.take size.toUInt32.toNat,?_,by rw [htake,hsize'],?_⟩
          · show ((h.set heap p _).set heap q none).live heap p = _
            rw [Heaps.set_ne hne,Heaps.set_self]
          · intro q' old' hq' hold'
            obtain rfl := Option.some.inj hq'
            rw [hq] at hold'
            obtain rfl := Option.some.inj hold'
            have hmin : min old.length (old.take size.toUInt32.toNat).length = size.toUInt32.toNat := by omega
            rw [hmin,List.take_take,min_self]
        · intro p' q' hp' hq'
          obtain rfl := Option.some.inj hq'
          exact Heaps.set_self
        · intro p' hp'
          rfl
      · refine iff_of_false ?_ hle
        rintro ⟨r,hr,-⟩
        cases hr

end Copies

section Zeros
variable {a : Sysheap} {heap : SysHeap} {site : Site} {h : Heaps} {nmemb size : UInt32} {p : Addr} {b : List UInt8}

theorem osMemset_eq {n : UInt32} {c : UInt8} (hp : h.live heap p = some b) (hb : b.length = n.toNat) :
    osMemset heap p c n h = some (h.set heap p (some (List.replicate n.toNat c))) := by
  have hrest : b.drop n.toNat = [] := List.drop_of_length_le hb.le
  have hwrite : write b 0 (List.replicate n.toNat c) = some (List.replicate n.toNat c) := by
    rw [write_zero _ _ (by simp [hb]),List.length_replicate,hrest,List.append_nil]
  simp only [osMemset,Option.bind_eq_bind,Option.bind_some,hp,hwrite]

theorem calloc_refused (halloc : a.alloc h heap (nmemb * size).toInt32 site = none) :
    calloc a heap site nmemb size h = some (none,h) := by
  rw [calloc,sysheapAlloc,halloc]

/-- A new block is filled as a whole, and is as long as the product in 32 bits. -/
theorem calloc_answered (halloc : a.alloc h heap (nmemb * size).toInt32 site = some (p,b)) :
    (nmemb * size).toNat < 2 ^ 31 ∧ ∃ h', calloc a heap site nmemb size h = some (some p,h') ∧
      h'.live heap p = some (List.replicate (nmemb * size).toNat 0) := by
  obtain ⟨hlength,hpos,-,hrun⟩ := alloc_some halloc
  have hset := osMemset_eq (h := h.set heap p (some b)) (c := 0) Heaps.set_self hlength
  rw [UInt32.toUInt32_toInt32] at hset
  refine ⟨toInt32_nonneg_iff.mp hpos,
    (h.set heap p (some b)).set heap p (some (List.replicate (nmemb * size).toNat 0)),?_,Heaps.set_self⟩
  rw [calloc,hrun]
  dsimp only
  rw [hset]
  rfl

/-- For both heaps and all variants: calloc is right exactly where an int can hold the product, or
the heap refuses what is left of it. -/
theorem calloc_iff (a : Sysheap) (heap : SysHeap) (v : Variant) (nmemb size : UInt32) (h : Heaps) :
    Callocs a heap v nmemb size h ↔
      nmemb.toNat * size.toNat < 2 ^ 31 ∨ a.alloc h heap (nmemb * size).toInt32 v.site = none := by
  rw [Callocs,Variant.calloc_eq]
  cases halloc : a.alloc h heap (nmemb * size).toInt32 v.site with
  | none =>
    refine iff_of_true ⟨_,calloc_refused halloc,?_,fun _ => rfl⟩ (Or.inr rfl)
    intro p hp
    cases hp
  | some r =>
    obtain ⟨p,b⟩ := r
    obtain ⟨hsmall,h',hrun,hlive⟩ := calloc_answered halloc
    rw [or_iff_left (by simp)]
    constructor
    · rintro ⟨r,hr,-,hlarge⟩
      rw [hrun] at hr
      obtain rfl := Option.some.inj hr
      by_contra hover
      cases hlarge (not_lt.mp hover)
    · intro hfits
      have hproduct : (nmemb * size).toNat = nmemb.toNat * size.toNat := by
        rw [UInt32.toNat_mul,Nat.mod_eq_of_lt (by omega)]
      refine ⟨_,hrun,?_,fun hlarge => absurd hlarge (not_le.mpr hfits)⟩
      intro p' hp'
      obtain rfl := Option.some.inj hp'
      refine ⟨_,hlive,?_,?_⟩
      · rw [List.length_replicate,hproduct]
      · intro x hx
        exact List.eq_of_mem_replicate hx

end Zeros

/-- A heap with room for one block. -/
def oneBlock : Sysheap where
  alloc h _ size _ :=
    if 0 ≤ size.toInt ∧ h.live .sram 0x20001000 = none ∧ h.live .psram 0x20001000 = none then
      some (0x20001000,List.replicate size.toInt.toNat 0xA5)
    else none
  fresh := by
    intro h heap size site p b halloc k
    split_ifs at halloc with hroom
    obtain ⟨rfl,-⟩ := Prod.mk.inj (Option.some.inj halloc)
    cases k with
    | sram => exact hroom.2.1
    | psram => exact hroom.2.2
  sized := by
    intro h heap size site p b halloc
    split_ifs at halloc with hroom
    obtain ⟨-,rfl⟩ := Prod.mk.inj (Option.some.inj halloc)
    rw [List.length_replicate]
    exact Int.toNat_of_nonneg hroom.1

def threeBytes : Heaps where
  live heap p := if heap = .sram ∧ p = 0x20000100 then some [1,2,3] else none
  freed := []

theorem realloc_iff_shrunk : Reallocs oneBlock .sram (.plain 0) (some 0x20000100) 2 threeBytes := by
  apply (realloc_iff oneBlock .sram (.plain 0) threeBytes ?_).mpr
  · exact Or.inr ⟨0x20000100,[1,2,3],rfl,rfl,by decide⟩
  · intro q hq
    obtain rfl := Option.some.inj hq
    rfl

/-- One byte more than the old block has, and no old block at all. -/
theorem realloc_fails : ¬ Reallocs oneBlock .sram (.plain 0) (some 0x20000100) 4 threeBytes ∧
    ¬ Reallocs oneBlock .sram (.plain 0) none 4 threeBytes := by
  constructor
  · rintro ⟨r,hr,-⟩
    have hover : (Variant.plain 0).realloc oneBlock .sram (some 0x20000100) 4 threeBytes = none := by decide +kernel
    rw [hover] at hr
    cases hr
  · rintro ⟨r,hr,-⟩
    have hnull : (Variant.plain 0).realloc oneBlock .sram none 4 threeBytes = none := by decide +kernel
    rw [hnull] at hr
    cases hr

/-- 2 ^ 32 + 2 bytes are asked for, and the block has two. -/
theorem calloc_fails : ∃ h' : Heaps,
    (Variant.plain 0).calloc oneBlock .sram 0x80000001 2 threeBytes = some (some 0x20001000,h') ∧
    h'.live .sram 0x20001000 = some [0,0] ∧ ¬ Callocs oneBlock .sram (.plain 0) 0x80000001 2 threeBytes := by
  have halloc : oneBlock.alloc threeBytes .sram (0x80000001 * 2 : UInt32).toInt32 ⟨0,0⟩ =
      some (0x20001000,[0xA5,0xA5]) := by decide +kernel
  obtain ⟨-,h',hrun,hlive⟩ := calloc_answered halloc
  refine ⟨h',hrun,hlive,?_⟩
  rintro ⟨r,hr,-,hlarge⟩
  have hr' := hrun.symm.trans hr
  obtain rfl := Option.some.inj hr'
  cases hlarge (by decide)

end FmacSdk.Alloc
