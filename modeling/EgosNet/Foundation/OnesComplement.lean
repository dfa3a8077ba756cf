import EgosNet.Foundation.Memory
import Mathlib.Data.Nat.ModEq
import Mathlib.Algebra.BigOperators.Group.List.Basic
import Mathlib.Tactic.Ring

/-!
# Sums with the carry brought around

Ones'-complement arithmetic on the numbers `0, …, M` adds as usual and, when the result is larger
than `M`, takes `M` away again: the carry comes around and is added at the other end.  So the
numbers stand for the residues modulo `M`, each for one, but for the residue `0`, which is both `0`
and `M`.  Which of the two comes out is decided too: a sum is `0` only if there was nothing but
zeros to add.

That is all there is to know about such a sum, whatever the order of the additions:

* `endAroundSum_modEq`: it is the ordinary sum modulo `M`;
* `endAroundSum_eq_top_iff`: it is `M` exactly when the ordinary sum is a multiple of `M` other than
  zero.

A checksum is a number that is put next to the data to make the sum `M`.  `words` cuts bytes into
the sixteen-bit numbers that are summed, and `wordSum` is their ordinary sum; what is appended at
an even distance is added (`wordSum_append`).
-/

namespace EgosNet
namespace Foundation

section EndAround

variable {M s t : ℕ} {ws : List ℕ}

/-- Addition on `0, …, M` with the carry brought around. -/
def endAround (M s t : ℕ) : ℕ := if s + t ≤ M then s + t else s + t - M

/-- The numbers `ws` added to `s` one after the other. -/
def endAroundSum (M : ℕ) (s : ℕ) (ws : List ℕ) : ℕ := ws.foldl (endAround M) s

theorem endAround_le (hs : s ≤ M) (ht : t ≤ M) : endAround M s t ≤ M := by
  unfold endAround
  split_ifs <;> omega

theorem endAround_modEq : endAround M s t ≡ s + t [MOD M] := by
  unfold endAround
  split_ifs with h
  · exact Nat.ModEq.refl _
  · have hle : M ≤ s + t := by omega
    exact ((Nat.modEq_iff_dvd' (Nat.sub_le _ _)).mpr (by simp [Nat.sub_sub_self hle]))

/-- A sum is zero only if nothing was added. -/
theorem endAround_eq_zero_iff (hs : s ≤ M) : endAround M s t = 0 ↔ s = 0 ∧ t = 0 := by
  unfold endAround
  split_ifs <;> omega

theorem endAroundSum_le (hs : s ≤ M) (hws : ∀ w ∈ ws, w ≤ M) : endAroundSum M s ws ≤ M := by
  induction ws generalizing s with
  | nil => exact hs
  | cons w ws ih =>
    have hw : w ≤ M := hws w (by simp)
    exact ih (endAround_le hs hw) fun v hv => hws v (by simp [hv])

/-- **The sum modulo `M`.** -/
theorem endAroundSum_modEq : endAroundSum M s ws ≡ s + ws.sum [MOD M] := by
  induction ws generalizing s with
  | nil => exact Nat.ModEq.refl _
  | cons w ws ih =>
    calc endAroundSum M s (w :: ws) ≡ endAround M s w + ws.sum [MOD M] := ih
      _ ≡ s + w + ws.sum [MOD M] := endAround_modEq.add_right _
      _ = s + (w :: ws).sum := by rw [List.sum_cons, Nat.add_assoc]

theorem endAroundSum_eq_zero_iff (hs : s ≤ M) (hws : ∀ w ∈ ws, w ≤ M) :
    endAroundSum M s ws = 0 ↔ s + ws.sum = 0 := by
  induction ws generalizing s with
  | nil => simp [endAroundSum]
  | cons w ws ih =>
    have hw : w ≤ M := hws w (by simp)
    have htail := ih (endAround_le hs hw) fun v hv => hws v (by simp [hv])
    have hhead := endAround_eq_zero_iff (t := w) hs
    rw [List.sum_cons]
    constructor
    · intro h
      have hzero := htail.mp h
      obtain ⟨h1, h2⟩ := hhead.mp (by omega)
      omega
    · intro h
      have hzero : endAround M s w = 0 := hhead.mpr (by omega)
      exact htail.mpr (by omega)

/-- **When the sum is `M`.** -/
theorem endAroundSum_eq_top_iff (hM : 0 < M) (hs : s ≤ M) (hws : ∀ w ∈ ws, w ≤ M) :
    endAroundSum M s ws = M ↔ s + ws.sum ≠ 0 ∧ M ∣ s + ws.sum := by
  have hle := endAroundSum_le hs hws
  have hzero := endAroundSum_eq_zero_iff hs hws
  have hmod : endAroundSum M s ws ≡ s + ws.sum [MOD M] := endAroundSum_modEq
  constructor
  · intro h
    refine ⟨fun h0 => ?_, ?_⟩
    · have := hzero.mpr h0
      omega
    · rw [h] at hmod
      exact (hmod.dvd_iff (dvd_refl M)).mp (dvd_refl M)
  · rintro ⟨hne, hdvd⟩
    obtain ⟨k, hk⟩ := (hmod.dvd_iff (dvd_refl M)).mpr hdvd
    have hpos : endAroundSum M s ws ≠ 0 := fun h => hne (hzero.mp h)
    -- a multiple of `M` from `1` to `M`
    have hk1 : k = 1 := by
      rcases Nat.lt_or_ge k 1 with h0 | h1
      · exact absurd (by rw [hk, Nat.lt_one_iff.mp h0, Nat.mul_zero]) hpos
      · refine Nat.le_antisymm ?_ h1
        by_contra hlt
        have h2 : M * 2 ≤ M * k := Nat.mul_le_mul_left M (by omega)
        omega
    rw [hk, hk1, Nat.mul_one]

end EndAround

/-! ## Bytes as sixteen-bit numbers -/

/-- The bytes in pairs, high byte first; a last byte without a partner is a high byte. -/
def words : List UInt8 → List ℕ
  | [] => []
  | [x] => [x.toNat * 256]
  | x :: y :: rest => (x.toNat * 256 + y.toNat) :: words rest

/-- The sum of the numbers. -/
def wordSum (bs : List UInt8) : ℕ := (words bs).sum

theorem words_le (bs : List UInt8) : ∀ w ∈ words bs, w ≤ 65535 := by
  induction bs using words.induct with
  | case1 => simp [words]
  | case2 x =>
    have hx := x.toNat_lt
    simp only [words, List.mem_singleton, forall_eq]
    omega
  | case3 x y rest ih =>
    have hx := x.toNat_lt
    have hy := y.toNat_lt
    simp only [words, List.mem_cons, forall_eq_or_imp]
    exact ⟨by omega, ih⟩

@[simp] theorem wordSum_nil : wordSum [] = 0 := rfl

theorem wordSum_cons_cons (x y : UInt8) (rest : List UInt8) :
    wordSum (x :: y :: rest) = x.toNat * 256 + y.toNat + wordSum rest :=
  List.sum_cons

@[simp] theorem wordSum_pair (x y : UInt8) : wordSum [x, y] = x.toNat * 256 + y.toNat := by
  rw [wordSum_cons_cons, wordSum_nil, Nat.add_zero]

/-- Nothing but zeros adds up to zero. -/
theorem wordSum_eq_zero_iff (bs : List UInt8) : wordSum bs = 0 ↔ ∀ b ∈ bs, b = 0 := by
  have hzero (x : UInt8) : x = 0 ↔ x.toNat = 0 := by rw [← UInt8.toNat_inj]; rfl
  induction bs using words.induct with
  | case1 => simp
  | case2 x => simp [wordSum, words, hzero]
  | case3 x y rest ih =>
    have hsplit : x.toNat * 256 + y.toNat + wordSum rest = 0 ↔
        x.toNat = 0 ∧ y.toNat = 0 ∧ wordSum rest = 0 := by omega
    rw [wordSum_cons_cons, hsplit, List.forall_mem_cons, List.forall_mem_cons, hzero, hzero]
    exact and_congr_right fun _ => and_congr_right fun _ => ih

/-- **What is appended after an even number of bytes is added.** -/
theorem wordSum_append {xs : List UInt8} (h : Even xs.length) (ys : List UInt8) :
    wordSum (xs ++ ys) = wordSum xs + wordSum ys := by
  induction xs using words.induct with
  | case1 => simp
  | case2 x => simp at h
  | case3 x y rest ih =>
    have heven : Even rest.length := by
      rw [List.length_cons, List.length_cons, Nat.add_assoc] at h
      exact (Nat.even_add.mp h).mpr even_two
    rw [List.cons_append, List.cons_append, wordSum_cons_cons, wordSum_cons_cons, ih heven]
    exact (Nat.add_assoc _ _ _).symm

/-! ## Bytes in memory -/

/-- A block of memory in two parts. -/
theorem wordSum_load_add (m : Mem) (off : ℕ) {a : ℕ} (ha : Even a) (b : ℕ) :
    wordSum (m.load off (a + b)) = wordSum (m.load off a) + wordSum (m.load (off + a) b) := by
  have hsplit : m.load off (a + b) = m.load off a ++ m.load (off + a) b := by
    rw [← List.take_append_drop a (m.load off (a + b)), Mem.load_take _ _ (Nat.le_add_right a b),
      Mem.load_drop, Nat.add_sub_cancel_left]
  rw [hsplit, wordSum_append (by rwa [Mem.length_load])]

/-- A block of zeros. -/
theorem wordSum_load_eq_zero_iff (m : Mem) (off n : ℕ) :
    wordSum (m.load off n) = 0 ↔ ∀ a, off ≤ a → a < off + n → m a = 0 := by
  rw [wordSum_eq_zero_iff]
  simp only [Mem.load, List.mem_map, List.mem_range, forall_exists_index, and_imp,
    forall_apply_eq_imp_iff₂]
  constructor
  · intro h a h1 h2
    have hbyte := h (a - off) (by omega)
    rwa [Nat.add_sub_cancel' h1] at hbyte
  · intro h k hk
    exact h _ (Nat.le_add_right _ _) (by omega)

/-- **Writing a number into a block that had zero there adds it to the sum.** -/
theorem wordSum_load_store {m : Mem} (off a n : ℕ) {x y : UInt8} (ha : Even a) (hn : a + 2 ≤ n)
    (hzero : m.load (off + a) 2 = [0, 0]) :
    wordSum ((m.store (off + a) [x, y]).load off n) =
      wordSum (m.load off n) + (x.toNat * 256 + y.toNat) := by
  obtain ⟨b, rfl⟩ := Nat.exists_eq_add_of_le hn
  rw [Nat.add_assoc]
  have hbefore : (m.store (off + a) [x, y]).load off a = m.load off a :=
    Mem.load_store_of_disjoint (Or.inl (Nat.le_refl _))
  have hafter : (m.store (off + a) [x, y]).load (off + a + 2) b = m.load (off + a + 2) b :=
    Mem.load_store_of_disjoint (Or.inr (Nat.le_refl _))
  have hat : (m.store (off + a) [x, y]).load (off + a) 2 = [x, y] := Mem.load_store m _ [x, y]
  rw [wordSum_load_add _ _ ha, wordSum_load_add _ _ even_two, wordSum_load_add _ _ ha,
    wordSum_load_add _ _ even_two, hbefore, hafter, hat, hzero]
  simp only [wordSum_pair, UInt8.toNat_zero]
  omega

end Foundation
end EgosNet
