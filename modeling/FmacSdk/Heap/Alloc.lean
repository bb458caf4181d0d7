import FmacSdk.Foundation.Objects
import Mathlib.Data.UInt
import Mathlib.Logic.Function.Basic

/-! # The allocation functions over the two heaps

A block is an object of its own, so a copy that leaves one has no result. The heaps
are not part of this code: sysheap_alloc answers NULL or a fresh block of the size
that it is asked for, and sysheap_free takes any live block.
-/
namespace FmacSdk.Alloc
open Objects

inductive SysHeap
  | sram | psram
deriving DecidableEq, Repr

abbrev Addr := UInt32

/-- A pointer; `none` is NULL. -/
abbrev Ptr := Option Addr

/-- What a heap records with a block. -/
structure Site where
  func : Addr
  line : Int32

/-- The live blocks, and what sysheap_free was called with, latest first. -/
structure Heaps where
  live : SysHeap → Addr → Option (List UInt8)
  freed : List (SysHeap × Addr)

def Heaps.set (h : Heaps) (heap : SysHeap) (p : Addr) (b : Option (List UInt8)) : Heaps :=
  { h with live := Function.update h.live heap (Function.update (h.live heap) p b) }

/-- sysheap_alloc, with the bytes that it leaves in a block. -/
structure Sysheap where
  alloc : Heaps → SysHeap → Int32 → Site → Option (Addr × List UInt8)
  fresh : ∀ {h heap size site p b}, alloc h heap size site = some (p,b) → ∀ k, h.live k p = none
  sized : ∀ {h heap size site p b}, alloc h heap size site = some (p,b) → (b.length : ℤ) = size.toInt

section Code
variable (a : Sysheap) (heap : SysHeap) (site : Site)

def sysheapAlloc (size : Int32) (h : Heaps) : Ptr × Heaps :=
  match a.alloc h heap size site with
  | some (p,b) => (some p,h.set heap p (some b))
  | none => (none,h)

def sysheapFree (p : Addr) (h : Heaps) : Option Heaps :=
  if (h.live heap p).isSome then some { h.set heap p none with freed := (heap,p) :: h.freed } else none

def osMemset (p : Addr) (c : UInt8) (n : UInt32) (h : Heaps) : Option Heaps := do
  let b ← h.live heap p
  let b ← write b 0 (List.replicate n.toNat c)
  some (h.set heap p (some b))

def osMemcpy (dst : Addr) (src : Ptr) (n : UInt32) (h : Heaps) : Option Heaps := do
  let q ← src
  let b ← h.live heap q
  let bytes ← read b 0 n.toNat
  let b ← h.live heap dst
  let b ← write b 0 bytes
  some (h.set heap dst (some b))

def free (ptr : Ptr) (h : Heaps) : Option Heaps :=
  match ptr with
  | some p => sysheapFree heap p h
  | none => some h

def zalloc (size : Int32) (h : Heaps) : Option (Ptr × Heaps) :=
  match sysheapAlloc a heap site size h with
  | (some p,h) => (osMemset heap p 0 size.toUInt32 h).map fun h => (some p,h)
  | (none,h) => some (none,h)

/-- The product is a size_t for os_memset, and an int for sysheap_alloc. -/
def calloc (nmemb size : UInt32) (h : Heaps) : Option (Ptr × Heaps) :=
  match sysheapAlloc a heap site (nmemb * size).toInt32 h with
  | (some p,h) => (osMemset heap p 0 (nmemb * size) h).map fun h => (some p,h)
  | (none,h) => some (none,h)

def realloc (ptr : Ptr) (size : Int32) (h : Heaps) : Option (Ptr × Heaps) :=
  match sysheapAlloc a heap site size h with
  | (some p,h) => do
    let h ← osMemcpy heap p ptr size.toUInt32 h
    let h ← free heap ptr h
    some (some p,h)
  | (none,h) => some (none,h)

end Code

/-! ## The functions

The plain ones record RETURN_ADDR() and 0, the traced ones a function and a line.
-/
section Functions
variable (a : Sysheap) (ra : Addr) (func : Addr) (line : Int32)

def osRealloc (ptr : Ptr) (size : Int32) : Heaps → Option (Ptr × Heaps) := realloc a .sram ⟨ra,0⟩ ptr size
def osReallocT (ptr : Ptr) (size : Int32) : Heaps → Option (Ptr × Heaps) := realloc a .sram ⟨func,line⟩ ptr size
def osReallocPsram (ptr : Ptr) (size : Int32) : Heaps → Option (Ptr × Heaps) := realloc a .psram ⟨ra,0⟩ ptr size
def osReallocPsramT (ptr : Ptr) (size : Int32) : Heaps → Option (Ptr × Heaps) :=
  realloc a .psram ⟨func,line⟩ ptr size

def osZallocT (size : Int32) : Heaps → Option (Ptr × Heaps) := zalloc a .sram ⟨func,line⟩ size
def osZallocPsramT (size : Int32) : Heaps → Option (Ptr × Heaps) := zalloc a .psram ⟨func,line⟩ size

def osCalloc (nmemb size : UInt32) : Heaps → Option (Ptr × Heaps) := calloc a .sram ⟨ra,0⟩ nmemb size
def osCallocT (nmemb size : UInt32) : Heaps → Option (Ptr × Heaps) := osZallocT a func line (nmemb * size).toInt32
def osCallocPsram (nmemb size : UInt32) : Heaps → Option (Ptr × Heaps) := calloc a .psram ⟨ra,0⟩ nmemb size
def osCallocPsramT (nmemb size : UInt32) : Heaps → Option (Ptr × Heaps) :=
  osZallocPsramT a func line (nmemb * size).toInt32

end Functions

/-- Which of the four copies of a function is called, and what it records. -/
inductive Variant
  | plain (ra : Addr)
  | traced (func : Addr) (line : Int32)

def Variant.site : Variant → Site
  | .plain ra => ⟨ra,0⟩
  | .traced func line => ⟨func,line⟩

def Variant.realloc (a : Sysheap) : SysHeap → Variant → Ptr → Int32 → Heaps → Option (Ptr × Heaps)
  | .sram, .plain ra => osRealloc a ra
  | .sram, .traced func line => osReallocT a func line
  | .psram, .plain ra => osReallocPsram a ra
  | .psram, .traced func line => osReallocPsramT a func line

def Variant.calloc (a : Sysheap) : SysHeap → Variant → UInt32 → UInt32 → Heaps → Option (Ptr × Heaps)
  | .sram, .plain ra => osCalloc a ra
  | .sram, .traced func line => osCallocT a func line
  | .psram, .plain ra => osCallocPsram a ra
  | .psram, .traced func line => osCallocPsramT a func line

section Lemmas
variable {a : Sysheap} {heap : SysHeap} {site : Site} {h : Heaps} {p q : Addr} {b : Option (List UInt8)}
variable {size : Int32} {v : Variant}

@[simp] theorem Heaps.set_self : (h.set heap p b).live heap p = b := by simp [set]

theorem Heaps.set_ne (hne : q ≠ p) : (h.set heap p b).live heap q = h.live heap q := by
  simp [set,hne]

@[simp] theorem Heaps.set_freed : (h.set heap p b).freed = h.freed := rfl

/-- What an allocation leaves is a live block with the bytes that were asked for. -/
theorem alloc_some {c : List UInt8} (halloc : a.alloc h heap size site = some (p,c)) :
    c.length = size.toUInt32.toNat ∧ 0 ≤ size.toInt ∧ h.live heap p = none ∧
      sysheapAlloc a heap site size h = (some p,h.set heap p (some c)) := by
  have hsized := a.sized halloc
  have hpos : 0 ≤ size.toInt := hsized ▸ Int.natCast_nonneg _
  have hnat : size.toUInt32.toNat = size.toNatClampNeg :=
    Int32.toNat_toUInt32_of_le (Int32.le_iff_toInt_le.mpr hpos)
  have hclamp : size.toInt.toNat = size.toNatClampNeg := Int32.toNat_toInt size
  have hlength : c.length = size.toUInt32.toNat := by omega
  have hrun : sysheapAlloc a heap site size h = (some p,h.set heap p (some c)) := by rw [sysheapAlloc,halloc]
  exact ⟨hlength,hpos,a.fresh halloc heap,hrun⟩

/-- The four copies of realloc are one function. -/
theorem Variant.realloc_eq (a : Sysheap) (heap : SysHeap) (v : Variant) :
    v.realloc a heap = Alloc.realloc a heap v.site := by
  cases v with
  | plain ra => cases heap <;> rfl
  | traced func line => cases heap <;> rfl

/-- Those of calloc too: the traced ones hand the product on as an int. -/
theorem Variant.calloc_eq (a : Sysheap) (heap : SysHeap) (v : Variant) :
    v.calloc a heap = Alloc.calloc a heap v.site := by
  cases v with
  | plain ra => cases heap <;> rfl
  | traced func line => cases heap <;> rfl

end Lemmas

end FmacSdk.Alloc
