import EgosNet.Foundation.Run
import Mathlib.Data.Finset.Card
import Mathlib.Data.Finset.Image
import Mathlib.Data.Nat.ModEq

/-!
# First in, first out, and the ring that implements it

A bounded channel between two parties is specified by one sentence: what comes
out is what went in, in order, and nothing else.  `fifo` is the machine that does
exactly that --- its state is the list of elements under way --- and
`Run.gets_append` is the sentence: over any run, the elements taken out followed
by the elements still under way are the elements put in.

A ring of `N` slots implements it by counting modulo `N`.  Three facts about the
counting are all that a ring's invariant needs:

* `ring_injective`: `N` consecutive positions are in `N` different slots;
* `card_ringSlots`: so `n ≤ N` consecutive positions fill `n` slots;
* `ring_distance`: the distance from the first slot to the one after the last is
  `n` modulo `N` --- and therefore `0` for the full ring, the one case in which
  the two indices do not tell how many slots are in use.
-/

namespace EgosNet
namespace Foundation

/-! ## The channel -/

/-- What may happen to a channel in one step. -/
inductive FifoOp (α : Type*) where
  | put (x : α)
  | get (x : α)
  | skip

/-- The channel that hands over its elements in order. -/
def fifo {α : Type*} [DecidableEq α] (q : List α) : FifoOp α → Option (List α × Unit)
  | .put x => some (q ++ [x], ())
  | .get x =>
    match q with
    | [] => none
    | y :: q' => if y = x then some (q', ()) else none
  | .skip => some (q, ())

variable {α : Type*}

/-- The elements put in. -/
def puts : List (FifoOp α) → List α := List.filterMap fun
  | .put x => some x
  | _ => none

/-- The elements taken out. -/
def gets : List (FifoOp α) → List α := List.filterMap fun
  | .get x => some x
  | _ => none

/-- **Nothing is lost, repeated or reordered.**  What was taken out, followed by
what is still under way, is what was put in. -/
theorem Run.gets_append [DecidableEq α] {ops : List (FifoOp α)} {us : List Unit} {q : List α}
    (h : Run fifo Free [] ops us q) : gets ops ++ q = puts ops := by
  induction h with
  | nil => rfl
  | @snoc ops us q q' op u _ _ hstep ih =>
    cases op with
    | put x =>
      obtain rfl : q ++ [x] = q' := by simpa [fifo] using hstep
      have hgets : gets (ops ++ [FifoOp.put x]) = gets ops := by simp [gets]
      have hputs : puts (ops ++ [FifoOp.put x]) = puts ops ++ [x] := by simp [puts]
      rw [hgets, hputs, ← List.append_assoc, ih]
    | get x =>
      cases q with
      | nil => simp [fifo] at hstep
      | cons y q =>
        obtain ⟨rfl, rfl⟩ : y = x ∧ q = q' := by simpa [fifo] using hstep
        simpa [gets, puts] using ih
    | skip =>
      obtain rfl : q = q' := by simpa [fifo] using hstep
      simpa [gets, puts] using ih

/-- An element of a channel into which one more has been put is an old one or that
one. -/
theorem getElem?_put {q : List α} {x y : α} {k : ℕ} (h : (q ++ [x])[k]? = some y) :
    (k < q.length ∧ q[k]? = some y) ∨ (k = q.length ∧ x = y) := by
  rcases Nat.lt_or_ge k q.length with hk | hk
  · rw [List.getElem?_append_left hk] at h
    exact Or.inl ⟨hk, h⟩
  · rw [List.getElem?_append_right hk, List.getElem?_singleton] at h
    obtain ⟨hk0, hxy⟩ : k - q.length = 0 ∧ x = y := by simpa using h
    exact Or.inr ⟨by omega, hxy⟩

/-! ## Counting modulo the size of a ring -/

variable {N i j k n : ℕ}

/-- Consecutive positions, fewer than the ring has slots, are in different slots. -/
theorem ring_injective (hj : j < N) (hk : k < N) (h : (i + j) % N = (i + k) % N) : j = k := by
  have hmod : j ≡ k [MOD N] := Nat.ModEq.add_left_cancel' i h
  rwa [Nat.ModEq, Nat.mod_eq_of_lt hj, Nat.mod_eq_of_lt hk] at hmod

/-- The slots of the `n` positions from `i` on. -/
def ringSlots (N i n : ℕ) : Finset ℕ := (Finset.range n).image fun k => (i + k) % N

theorem mem_ringSlots : j ∈ ringSlots N i n ↔ ∃ k, k < n ∧ (i + k) % N = j := by
  simp [ringSlots]

theorem card_ringSlots (h : n ≤ N) : (ringSlots N i n).card = n := by
  rw [ringSlots, Finset.card_image_of_injOn, Finset.card_range]
  intro j hj k hk hjk
  have hj' : j < n := by simpa using hj
  have hk' : k < n := by simpa using hk
  exact ring_injective (by omega) (by omega) hjk

/-- How far the slot after the last position is from the slot of the first. -/
theorem ring_distance (hi : i < N) : ((i + n) % N + N - i) % N = n % N := by
  have hlt : (i + n) % N < N := Nat.mod_lt _ (by omega)
  have hsum : (i + n) % N + N - i + i = (i + n) % N + N := by omega
  have hmod : (i + n) % N + N - i + i ≡ n + i [MOD N] := by
    rw [hsum, Nat.ModEq, Nat.add_mod_right, Nat.mod_mod, Nat.add_comm]
  exact Nat.ModEq.add_right_cancel' i hmod

end Foundation
end EgosNet
