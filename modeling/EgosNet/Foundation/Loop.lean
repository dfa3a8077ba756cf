import Mathlib.Data.Fintype.Card
import Mathlib.Data.Fintype.Pigeonhole
import Mathlib.Logic.Relation

/-!
# Loops that may not end

The body of a loop goes on in another state or leaves with a result: `f : α → α ⊕ β`.  A model can
only try so many rounds, so `runLoop` is given a number of them and answers `none` when they are
used up.  That may mean that the loop does not end, or that it was not given rounds enough.

If the states are finitely many, as many rounds as there are states tell the two apart: a loop that
has not left by then has been in some state twice, and what it did in between it does for ever.

* `endless_iff_card`: enough rounds are the number of states.
* `endless_iff_cycle`: the loop is endless exactly when it comes to a state that leads back to
  itself.
-/

namespace EgosNet
namespace Foundation

variable {α β : Type*} {f : α → α ⊕ β} {a b c : α} {r : β} {j k n : ℕ}

/-- The loop with body `f`, for so many rounds. -/
def runLoop (f : α → α ⊕ β) : ℕ → α → Option β
  | 0, _ => none
  | k + 1, a =>
    match f a with
    | .inl b => runLoop f k b
    | .inr r => some r

/-- The state after so many rounds, if the loop has not ended. -/
def loopState (f : α → α ⊕ β) : ℕ → α → Option α
  | 0, a => some a
  | k + 1, a =>
    match f a with
    | .inl b => loopState f k b
    | .inr _ => none

/-- A round in which the loop goes on. -/
def GoesOn (f : α → α ⊕ β) (a b : α) : Prop := f a = .inl b

/-- The loop does not end, whatever number of rounds it is given. -/
def Endless (f : α → α ⊕ β) (a : α) : Prop := ∀ k, runLoop f k a = none

/-- Either the loop has ended, or it is in some state. -/
theorem runLoop_eq_none_iff : runLoop f k a = none ↔ ∃ b, loopState f k a = some b := by
  induction k generalizing a with
  | zero => simp [runLoop, loopState]
  | succ k ih =>
    simp only [runLoop, loopState]
    cases f a with
    | inl b => exact ih
    | inr r => simp

theorem loopState_add :
    loopState f (j + k) a = (loopState f j a).bind (loopState f k) := by
  induction j generalizing a with
  | zero => rw [Nat.zero_add]; rfl
  | succ j ih =>
    rw [Nat.succ_add]
    simp only [loopState]
    cases f a with
    | inl b => exact ih
    | inr r => rfl

/-- A loop that has come so far has come to every place before. -/
theorem loopState_of_le (hjk : j ≤ k) (h : loopState f k a = some b) :
    ∃ c, loopState f j a = some c := by
  obtain ⟨i, rfl⟩ := Nat.exists_eq_add_of_le hjk
  rw [loopState_add] at h
  obtain ⟨c, hc, -⟩ := Option.bind_eq_some_iff.mp h
  exact ⟨c, hc⟩

/-- A state that leads back to itself does so again and again. -/
theorem loopState_cycle (h : loopState f n a = some a) (k : ℕ) :
    loopState f (k * n) a = some a := by
  induction k with
  | zero => rw [Nat.zero_mul]; rfl
  | succ k ih => rw [Nat.succ_mul, loopState_add, ih, Option.bind_some, h]

/-- A loop that comes to a state that leads back to itself is endless. -/
theorem endless_of_cycle (hj : loopState f j a = some c) (hn : 0 < n)
    (hc : loopState f n c = some c) : Endless f a := by
  intro k
  have hfar : loopState f (j + k * n) a = some c := by
    rw [loopState_add, hj, Option.bind_some]
    exact loopState_cycle hc k
  have hle : k ≤ j + k * n := by
    have := Nat.le_mul_of_pos_right k hn
    omega
  exact runLoop_eq_none_iff.mpr (loopState_of_le hle hfar)

/-- **A loop that uses up as many rounds as there are states has been in one of them twice.** -/
theorem exists_cycle [Fintype α] (h : runLoop f (Fintype.card α) a = none) :
    ∃ j n c, loopState f j a = some c ∧ 0 < n ∧ loopState f n c = some c := by
  obtain ⟨last, hlast⟩ := runLoop_eq_none_iff.mp h
  have hstate : ∀ k : Fin (Fintype.card α + 1), ∃ b, loopState f k a = some b :=
    fun k => loopState_of_le (Nat.le_of_lt_succ k.isLt) hlast
  choose at' hat using hstate
  obtain ⟨x, y, hxy, heq⟩ := Fintype.exists_ne_map_eq_of_card_lt at' (by simp)
  -- the earlier of the two moments comes first
  wlog hlt : x < y generalizing x y
  · exact this y x hxy.symm heq.symm (lt_of_le_of_ne (not_lt.mp hlt) hxy.symm)
  refine ⟨x, y - x, at' x, hat x, Nat.sub_pos_of_lt hlt, ?_⟩
  have hsum : loopState f (x + (y - x)) a = some (at' y) := by
    rw [Nat.add_sub_cancel' (le_of_lt hlt)]
    exact hat y
  rw [loopState_add, hat x, Option.bind_some] at hsum
  rw [hsum, heq]

/-- **Enough rounds are the number of states.** -/
theorem endless_iff_card [Fintype α] : Endless f a ↔ runLoop f (Fintype.card α) a = none := by
  constructor
  · intro h
    exact h _
  · intro h
    obtain ⟨j, n, c, hj, hn, hc⟩ := exists_cycle h
    exact endless_of_cycle hj hn hc

theorem reflTransGen_of_loopState (h : loopState f k a = some b) :
    Relation.ReflTransGen (GoesOn f) a b := by
  induction k generalizing a with
  | zero =>
    obtain rfl := Option.some.inj h
    exact .refl
  | succ k ih =>
    simp only [loopState] at h
    split at h
    · rename_i d hd
      exact .head hd (ih h)
    · exact absurd h (by simp)

theorem exists_loopState (h : Relation.ReflTransGen (GoesOn f) a b) :
    ∃ k, loopState f k a = some b := by
  induction h using Relation.ReflTransGen.head_induction_on with
  | refl => exact ⟨0, rfl⟩
  | head hstep _ ih =>
    obtain ⟨k, hk⟩ := ih
    exact ⟨k + 1, by simp only [loopState, show f _ = _ from hstep, hk]⟩

/-- **The loop is endless exactly when it comes to a state that leads back to itself.** -/
theorem endless_iff_cycle [Finite α] : Endless f a ↔
    ∃ c, Relation.ReflTransGen (GoesOn f) a c ∧ Relation.TransGen (GoesOn f) c c := by
  constructor
  · intro h
    have := Fintype.ofFinite α
    obtain ⟨j, n, c, hj, hn, hc⟩ := exists_cycle (h _)
    obtain ⟨m, rfl⟩ := Nat.exists_eq_succ_of_ne_zero hn.ne'
    refine ⟨c, reflTransGen_of_loopState hj, ?_⟩
    simp only [loopState] at hc
    split at hc
    · rename_i d hd
      exact .head' hd (reflTransGen_of_loopState hc)
    · exact absurd hc (by simp)
  · rintro ⟨c, hac, hcc⟩
    obtain ⟨j, hj⟩ := exists_loopState hac
    obtain ⟨d, hcd, hdc⟩ := Relation.TransGen.head'_iff.mp hcc
    obtain ⟨k, hk⟩ := exists_loopState hdc
    have hround : loopState f (k + 1) c = some c := by
      simp only [loopState, show f c = .inl d from hcd, hk]
    exact endless_of_cycle hj (Nat.succ_pos k) hround

end Foundation
end EgosNet
