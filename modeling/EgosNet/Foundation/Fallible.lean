import Mathlib.Data.List.Infix
import Mathlib.Logic.Basic

/-!
# Computations that may stop

A function of the program that can run into a fatal error is a computation in `Except ε`.  What is
proved about it has two sides: what is true when it returns, and when it may stop.  `Ends x Q E`
says both at once --- `Q` of the value, `E` of the reason --- and the rules below are those of a
program logic: one for each way of putting computations together, with an invariant for the loop.

* `Ends.bind`: one computation after another.
* `ends_ensure`: an assertion; the rest may use it, and if it fails there must be a reason.
* `Ends.foldlM`: a loop over a list, with an invariant that speaks of what has been done so far.
* `foldl_range`: a counting loop in which nothing can fail.
-/

namespace EgosNet
namespace Foundation

universe u v

variable {ε : Type u} {α β : Type v} {x : Except ε α} {f : α → Except ε β} {Q : α → Prop}
  {R : β → Prop} {E : ε → Prop}

/-- The computation returns a value with `Q`, or stops for a reason with `E`. -/
def Ends (x : Except ε α) (Q : α → Prop) (E : ε → Prop) : Prop :=
  match x with
  | .ok a => Q a
  | .error e => E e

theorem ends_ok {a : α} (h : Q a) : Ends (.ok a) Q E := h

theorem ends_pure {a : α} (h : Q a) : Ends (pure a) Q E := h

theorem ends_error {e : ε} (h : E e) : Ends (.error e) Q E := h

theorem Ends.of_ok {a : α} (h : Ends x Q E) (hx : x = .ok a) : Q a := by
  rw [hx] at h
  exact h

/-- Weaker conclusions. -/
theorem Ends.mono {Q' : α → Prop} {E' : ε → Prop} (h : Ends x Q E) (hQ : ∀ a, Q a → Q' a)
    (hE : ∀ e, E e → E' e) : Ends x Q' E' := by
  cases x with
  | ok a => exact hQ a h
  | error e => exact hE e h

/-- **One computation after another.** -/
theorem Ends.bind (h : Ends x Q E) (hf : ∀ a, Q a → Ends (f a) R E) : Ends (x >>= f) R E := by
  cases x with
  | ok a => exact hf a h
  | error e => exact h

/-- Stop for the reason `e` unless the condition holds. -/
def ensure (c : Prop) [Decidable c] (e : ε) : Except ε PUnit :=
  if c then .ok ⟨⟩ else .error e

/-- **An assertion.**  What comes after it may rely on the condition. -/
theorem ends_ensure {c : Prop} [Decidable c] {e : ε} {f : PUnit → Except ε β} (hE : ¬ c → E e)
    (hf : c → Ends (f ⟨⟩) R E) : Ends (ensure c e >>= f) R E := by
  unfold ensure
  split_ifs with hc
  · exact hf hc
  · exact hE hc

/-- An assertion that holds. -/
theorem ensure_of {c : Prop} [Decidable c] {e : ε} (hc : c) : ensure c e = .ok ⟨⟩ := if_pos hc

/-- **A loop.**  The invariant speaks of the part of the list that has been dealt with. -/
theorem Ends.foldlM {ι σ : Type v} {f : σ → ι → Except ε σ} {P : List ι → σ → Prop} {s : σ}
    (l : List ι) (h0 : P [] s)
    (hstep : ∀ before i after s, l = before ++ i :: after → P before s →
      Ends (f s i) (P (before ++ [i])) E) : Ends (l.foldlM f s) (P l) E := by
  -- generalised to the part that is left, after any part that has been dealt with
  have hrest : ∀ (after before : List ι) (s : σ), l = before ++ after → P before s →
      Ends (after.foldlM f s) (P l) E := by
    intro after
    induction after with
    | nil =>
      intro before s hl hs
      rw [List.append_nil] at hl
      rw [hl]
      exact ends_pure hs
    | cons i after ih =>
      intro before s hl hs
      rw [List.foldlM_cons]
      refine (hstep before i after s hl hs).bind fun s' hs' => ?_
      exact ih (before ++ [i]) s' (by simpa using hl) hs'
  exact hrest l [] s rfl h0

/-- **A counting loop that does not stop.**  The invariant speaks of the number of rounds. -/
theorem foldl_range {σ : Type v} {f : σ → ℕ → σ} {P : ℕ → σ → Prop} {s : σ} (n : ℕ) (h0 : P 0 s)
    (hstep : ∀ k < n, ∀ s, P k s → P (k + 1) (f s k)) : P n ((List.range n).foldl f s) := by
  induction n with
  | zero => exact h0
  | succ n ih =>
    rw [List.range_succ, List.foldl_append]
    exact hstep n (Nat.lt_succ_self n) _ (ih fun k hk => hstep k (Nat.lt_succ_of_lt hk))

end Foundation
end EgosNet
