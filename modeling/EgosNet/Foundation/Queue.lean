import Mathlib.Data.List.Perm.Subperm
import Mathlib.Data.List.Nodup

/-!
# A queue that is known by its operations

A program that includes a queue library relies on what the operations do, not on how the nodes are
linked.  `Queue α` is that reliance: a type of queues, the list of elements met when the nodes are
walked from the head, and for each operation its effect on that list.  Removing an element is
described only for a queue in which nothing occurs twice, where taking out one occurrence and taking
out all of them are the same.

Lists are queues (`Queue.list`).
-/

namespace EgosNet
namespace Foundation

/-- A first-in first-out queue of elements of `α`, with the laws its users rely on. -/
structure Queue (α : Type*) [DecidableEq α] where
  /-- The queues. -/
  Carrier : Type
  /-- The elements, in the order in which the nodes are linked. -/
  items : Carrier → List α
  /-- An initialised queue. -/
  init : Carrier
  /-- Append an element. -/
  enqueue : Carrier → α → Carrier
  /-- Take out the first element, if there is one. -/
  dequeue : Carrier → Option α × Carrier
  /-- Take out an element, wherever it is. -/
  tryRmItem : Carrier → α → Carrier
  items_init : items init = []
  items_enqueue : ∀ q x, items (enqueue q x) = items q ++ [x]
  dequeue_nil : ∀ q, items q = [] → (dequeue q).1 = none ∧ items (dequeue q).2 = []
  dequeue_cons : ∀ q x l, items q = x :: l → (dequeue q).1 = some x ∧ items (dequeue q).2 = l
  items_tryRmItem : ∀ q x, (items q).Nodup → items (tryRmItem q x) = (items q).erase x

namespace Queue

variable {α : Type*} [DecidableEq α]

attribute [simp] items_init items_enqueue

/-- Lists are queues. -/
def list (α : Type) [DecidableEq α] : Queue α where
  Carrier := List α
  items q := q
  init := []
  enqueue q x := q ++ [x]
  dequeue q := (q.head?, q.tail)
  tryRmItem q x := q.erase x
  items_init := rfl
  items_enqueue _ _ := rfl
  dequeue_nil := by
    intro q hq
    rw [hq]
    exact ⟨rfl, rfl⟩
  dequeue_cons := by
    intro q x l hq
    rw [hq]
    exact ⟨rfl, rfl⟩
  items_tryRmItem _ _ _ := rfl

end Queue
end Foundation
end EgosNet
