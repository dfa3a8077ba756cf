import Mathlib.Data.List.Infix
import Mathlib.Data.Nat.ModEq

/-!
# A stream in numbered pieces

A sender cuts a stream into pieces and gives each the number of its first element, counted from some
base and modulo the size of a counter.  The pieces may be cut anew for every transmission, they may
arrive in any order, more than once, or never.  A receiver that knows nothing but how much it has,
and takes a piece exactly when it begins there, holds a prefix of the stream at every moment
(`IsPiece.append`), as long as the stream is shorter than the counter (`offset_next`).
-/

namespace EgosNet
namespace Foundation

variable {α : Type*} {S d data : List α} {off : ℕ}

/-- The elements `data` stand in the stream `S` from `off` on. -/
def IsPiece (S : List α) (off : ℕ) (data : List α) : Prop := data <+: S.drop off

instance [DecidableEq α] (S : List α) (off : ℕ) (data : List α) : Decidable (IsPiece S off data) :=
  inferInstanceAs (Decidable (_ <+: _))

/-- **The next piece.**  It leaves the receiver with a prefix. -/
theorem IsPiece.append (h : IsPiece S d.length data) (hd : d <+: S) : d ++ data <+: S := by
  obtain ⟨rest, hrest⟩ := h
  refine ⟨rest, ?_⟩
  rw [List.append_assoc, hrest]
  conv_lhs => rw [List.prefix_iff_eq_take.mp hd, List.length_take]
  rw [Nat.min_eq_left hd.length_le, List.take_append_drop]

/-- The number `x` less the base `b`, on a counter of size `M`. -/
def offset (M b x : ℕ) : ℕ := (x + M - b) % M

/-- **The number of the next piece** is how much the receiver has. -/
theorem offset_next {M b k : ℕ} (hb : b ≤ M) (hk : k < M) : offset M b ((b + k) % M) = k := by
  have hM : 0 < M := by omega
  have hmod : ((b + k) % M + M - b) % M = ((b + k) % M + (M - b)) % M := by
    rw [Nat.add_sub_assoc hb]
  rw [offset, hmod, Nat.mod_add_mod, show b + k + (M - b) = k + M by omega, Nat.add_mod_right,
    Nat.mod_eq_of_lt hk]

end Foundation
end EgosNet
