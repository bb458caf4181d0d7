import Mathlib.Data.List.Basic
import Mathlib.Data.List.Infix

/-! # A queue whose head is offered until it is answered for good

Elements arrive in a list, and a consumer is offered one after the other; each
offer records its element and whether the answer was final. The account of such
a queue says that the finally answered elements and the waiting ones make up the
arrivals, and that every offer was of the oldest element then waiting.
-/
namespace FmacSdk.RetryQueue
variable {α β : Type*} (elem : β → α) (final : β → Bool)

/-- The elements that got a final answer, in the order of the answers. -/
def finals (offers : List β) : List α := (offers.filter final).map elem

variable {elem final}

theorem finals_append_final {offers : List β} {o : β} (h : final o = true) :
    finals elem final (offers ++ [o]) = finals elem final offers ++ [elem o] := by
  simp [finals,h]

theorem finals_append_retry {offers : List β} {o : β} (h : final o = false) :
    finals elem final (offers ++ [o]) = finals elem final offers := by
  simp [finals,h]

variable (elem final)

/-- Every offer is of the element that follows those answered before it. -/
def InOrder (arrived : List α) (offers : List β) : Prop :=
  ∀ pre o post, offers = pre ++ o :: post → finals elem final pre ++ [elem o] <+: arrived

/-- The answered elements and the queue make up the arrivals. -/
structure Account (arrived : List α) (offers : List β) (queue : List α) : Prop where
  sum : finals elem final offers ++ queue = arrived
  order : InOrder elem final arrived offers

variable {elem final} {arrived queue : List α} {offers : List β}

theorem Account.empty : Account elem final [] [] [] :=
  ⟨rfl,fun pre o post h => by simp at h⟩

theorem Account.arrive (h : Account elem final arrived offers queue) (a : α) :
    Account elem final (arrived ++ [a]) offers (queue ++ [a]) := by
  refine ⟨by rw [← List.append_assoc,h.sum],?_⟩
  intro pre o post ho
  exact (h.order pre o post ho).trans (List.prefix_append _ _)

/-- An offer of the head keeps the order, whatever the answer. -/
theorem Account.order_offer (h : Account elem final arrived offers queue) {o : β}
    {rest : List α} (hq : queue = elem o :: rest) : InOrder elem final arrived (offers ++ [o]) := by
  intro pre p post hp
  rcases List.eq_nil_or_concat post with rfl | ⟨init,last,rfl⟩
  · obtain ⟨rfl,hlast⟩ := List.append_inj' hp rfl
    obtain rfl : o = p := by simpa using hlast
    refine ⟨rest,?_⟩
    rw [← h.sum,hq,List.append_assoc,List.singleton_append]
  · have hassoc : pre ++ p :: (init ++ [last]) = (pre ++ p :: init) ++ [last] := by simp
    rw [List.concat_eq_append,hassoc] at hp
    exact h.order pre p init (List.append_inj' hp rfl).1

theorem Account.answer (h : Account elem final arrived offers queue) {o : β} {rest : List α}
    (hq : queue = elem o :: rest) (ho : final o = true) :
    Account elem final arrived (offers ++ [o]) rest := by
  refine ⟨?_,h.order_offer hq⟩
  rw [finals_append_final ho, ← h.sum,hq,List.append_assoc,List.singleton_append]

theorem Account.retry (h : Account elem final arrived offers queue) {o : β} {rest : List α}
    (hq : queue = elem o :: rest) (ho : final o = false) :
    Account elem final arrived (offers ++ [o]) queue :=
  ⟨by rw [finals_append_retry ho,h.sum],h.order_offer hq⟩

end FmacSdk.RetryQueue
