import Mathlib.Data.List.Basic
import Mathlib.Logic.Function.Basic

/-!
# A table that caches what was last said

Somebody announces values for keys, and may announce another value for the same key later.  A table
with finitely many places keeps some of what was said.  It is *consistent* when no valid key stands
in it twice and every value in it is the last one that was said for its key; so a table that forgets
is still consistent, but one that holds an old value is not.

The operation is to write what has just been said to some place.  It keeps the table consistent
as long as the key stands nowhere else (`Consistent.place`), whatever stood in that place before, so
refreshing an entry, filling an empty place and throwing an entry away are the same thing here.  A
table may also forget something of its own accord (`Consistent.forget`).
-/

namespace EgosNet
namespace Foundation

variable {ι κ ν : Type*} [DecidableEq κ]

/-- What was last said for `k`.  The history has the latest first. -/
def lastSaid (history : List (κ × ν)) (k : κ) : Option ν :=
  (history.find? fun e => e.1 = k).map Prod.snd

section LastSaid

variable {history : List (κ × ν)} {k k' : κ} {v : ν}

@[simp] theorem lastSaid_cons_self : lastSaid ((k, v) :: history) k = some v := by
  simp [lastSaid]

theorem lastSaid_cons_of_ne (h : k' ≠ k) :
    lastSaid ((k', v) :: history) k = lastSaid history k := by
  simp [lastSaid, h]

end LastSaid

/-- The table agrees with what was said, for the keys that count. -/
structure Consistent (valid : κ → Prop) (t : ι → κ × ν) (history : List (κ × ν)) : Prop where
  sound : ∀ i, valid (t i).1 → lastSaid history (t i).1 = some (t i).2
  unique : ∀ i j, valid (t i).1 → (t i).1 = (t j).1 → i = j

variable {valid : κ → Prop} {t : ι → κ × ν} {history : List (κ × ν)} {i : ι} {k : κ} {v : ν}

/-- A table without a valid key says nothing. -/
theorem consistent_empty (h : ∀ i, ¬ valid (t i).1) : Consistent valid t history :=
  ⟨fun i hi => absurd hi (h i), fun i _ hi => absurd hi (h i)⟩

/-- **What has just been said goes to a place** outside which its key does not stand. -/
theorem Consistent.place [DecidableEq ι] (h : Consistent valid t history)
    (hother : ∀ j, j ≠ i → valid k → (t j).1 ≠ k) :
    Consistent valid (Function.update t i (k, v)) ((k, v) :: history) := by
  constructor
  · intro j hvalid
    by_cases hj : j = i
    · subst hj
      rw [Function.update_self, lastSaid_cons_self]
    · rw [Function.update_of_ne hj] at hvalid ⊢
      have hne : k ≠ (t j).1 := fun heq => hother j hj (heq ▸ hvalid) heq.symm
      rw [lastSaid_cons_of_ne hne]
      exact h.sound j hvalid
  · intro a b hvalid heq
    by_cases ha : a = i <;> by_cases hb : b = i
    · rw [ha, hb]
    · subst ha
      rw [Function.update_self] at hvalid heq
      rw [Function.update_of_ne hb] at heq
      exact absurd heq.symm (hother b hb hvalid)
    · subst hb
      rw [Function.update_self] at heq
      rw [Function.update_of_ne ha] at hvalid heq
      have hk : (t a).1 = k := heq
      exact absurd hk (hother a ha (hk ▸ hvalid))
    · rw [Function.update_of_ne ha] at hvalid heq
      rw [Function.update_of_ne hb] at heq
      exact h.unique a b hvalid heq

/-- A table may forget. -/
theorem Consistent.forget {t' : ι → κ × ν} (h : Consistent valid t history)
    (hsub : ∀ i, valid (t' i).1 → t' i = t i) : Consistent valid t' history := by
  constructor
  · intro i hvalid
    rw [hsub i hvalid]
    exact h.sound i (hsub i hvalid ▸ hvalid)
  · intro i j hvalid heq
    have hj : t' j = t j := hsub j (heq ▸ hvalid)
    exact h.unique i j (hsub i hvalid ▸ hvalid) (by rw [← hsub i hvalid, ← hj, heq])

end Foundation
end EgosNet
