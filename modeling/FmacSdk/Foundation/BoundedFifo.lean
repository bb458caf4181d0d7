import Mathlib.Data.List.Basic

/-! # Bounded first-in first-out queues

A queue carries the bound on its length. Appending to a full queue and removing
from an empty one change nothing. A holder keeps the value removed last, which
is what a reader with one result variable sees.
-/
namespace FmacSdk.BoundedFifo

/-- The stored elements, oldest first, never more than the capacity. -/
structure Fifo (α : Type*) (cap : ℕ) where
  elems : List α
  bound : elems.length ≤ cap

variable {α : Type*} {cap : ℕ}

@[ext] theorem Fifo.ext {f g : Fifo α cap} (h : f.elems = g.elems) : f = g := by
  cases f
  cases g
  simpa using h

def Fifo.empty : Fifo α cap := ⟨[],Nat.zero_le _⟩

/-- Append when there is room. -/
def Fifo.push (f : Fifo α cap) (v : α) : Fifo α cap :=
  if h : f.elems.length < cap then ⟨f.elems ++ [v],by simpa using Nat.succ_le_of_lt h⟩ else f

/-- Remove the oldest element. -/
def Fifo.pop (f : Fifo α cap) : Fifo α cap :=
  ⟨f.elems.tail,by have := f.bound; simp; omega⟩

/-- The operations of a user of the queue. -/
inductive Op (α : Type*)
  | push (v : α)
  | pop

/-- One operation on the queue and on the value removed last. -/
def Fifo.step (s : Fifo α cap × α) : Op α → Fifo α cap × α
  | .push v => (s.1.push v,s.2)
  | .pop => (s.1.pop,s.1.elems.head?.getD s.2)

def Fifo.run (s : Fifo α cap × α) (ops : List (Op α)) : Fifo α cap × α := ops.foldl step s

theorem Fifo.push_elems_of_lt {f : Fifo α cap} (h : f.elems.length < cap) (v : α) :
    (f.push v).elems = f.elems ++ [v] := by
  simp [push,h]

theorem Fifo.push_of_full {f : Fifo α cap} (h : f.elems.length = cap) (v : α) : f.push v = f := by
  simp [push,h]

@[simp] theorem Fifo.pop_elems (f : Fifo α cap) : f.pop.elems = f.elems.tail := rfl

theorem Fifo.pop_of_empty {f : Fifo α cap} (h : f.elems = []) : f.pop = f := by
  apply Fifo.ext
  simp [h]

end FmacSdk.BoundedFifo
