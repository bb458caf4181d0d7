import Mathlib.Logic.Function.Basic

/-! # Heaps whose blocks have owners

A partial map from addresses to blocks, each with its owner. What one owner does
with its own block, or with a free address, no other owner sees.
-/
namespace FmacSdk.OwnedHeap

abbrev Heap (A O B : Type*) := A → Option (O × B)

variable {A O B : Type*} [DecidableEq A] {h : Heap A O B} {a a' : A} {o o' : O} {b b' : B}

theorem update_of_free (hfree : h a = none) (h' : h a' = some (o',b')) (x : Option (O × B)) :
    Function.update h a x a' = some (o',b') := by
  have hne : a' ≠ a := by
    rintro rfl
    simp [hfree] at h'
  rw [Function.update_of_ne hne,h']

theorem update_of_owner_ne (hown : h a = some (o,b)) (h' : h a' = some (o',b')) (hne : o' ≠ o)
    (x : Option (O × B)) : Function.update h a x a' = some (o',b') := by
  have haddr : a' ≠ a := by
    rintro rfl
    exact hne (Prod.mk.inj (Option.some.inj (h'.symm.trans hown))).1
  rw [Function.update_of_ne haddr,h']

theorem update_of_block_ne (hown : h a = some (o,b)) (h' : h a' = some (o',b')) (hne : b' ≠ b)
    (x : Option (O × B)) : Function.update h a x a' = some (o',b') := by
  have haddr : a' ≠ a := by
    rintro rfl
    exact hne (Prod.mk.inj (Option.some.inj (h'.symm.trans hown))).2
  rw [Function.update_of_ne haddr,h']

end FmacSdk.OwnedHeap
