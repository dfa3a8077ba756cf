import Mathlib.Data.List.Basic
import Mathlib.Tactic.Common

/-!
# Byte memory

A memory is a total function from addresses to bytes.  Totality is the point: a
read past the end of an array is a read of whatever the memory holds there, and
no side condition has to be carried to say so.  Whether an access stays inside an
array is a question about its offset and length, asked where it is made.

`store m off bs` writes the bytes `bs` from address `off` on and `load m off n`
reads `n` bytes from there.  The four rules a proof needs are the pointwise ones
(`store_apply_of_lt`, `store_apply_of_ge`, `store_apply`) and the two block rules:
a block reads back (`load_store`), and a block disjoint from the write is
unchanged (`load_store_of_disjoint`).

A `Copy` is a block copy into an array of a declared size.  It is `Within` the array
if no byte from the end of the array on changes, whatever the memory held; that comes
down to the offset and the length (`Copy.within_iff`), and so can be decided.
-/

namespace EgosNet
namespace Foundation

/-- A memory: the byte at every address. -/
abbrev Mem := ℕ → UInt8

namespace Mem

variable {m m' : Mem} {off a b n : ℕ} {bs : List UInt8}

/-- Write the bytes `bs` from address `off` on. -/
def store (m : Mem) (off : ℕ) (bs : List UInt8) : Mem := fun a =>
  if a < off then m a else (bs[a - off]?).getD (m a)

/-- The `n` bytes from address `off` on. -/
def load (m : Mem) (off n : ℕ) : List UInt8 := (List.range n).map fun k => m (off + k)

@[simp] theorem length_load (m : Mem) (off n : ℕ) : (m.load off n).length = n := by
  simp [load]

@[simp] theorem load_zero (m : Mem) (off : ℕ) : m.load off 0 = [] := rfl

theorem load_succ (m : Mem) (off n : ℕ) : m.load off (n + 1) = m.load off n ++ [m (off + n)] := by
  simp [load, List.range_succ]

theorem getElem?_load (m : Mem) (off n k : ℕ) (hk : k < n) :
    (m.load off n)[k]? = some (m (off + k)) := by
  simp [load, hk]

theorem getElem?_load_of_ge (m : Mem) (off : ℕ) {n k : ℕ} (hk : n ≤ k) :
    (m.load off n)[k]? = none :=
  List.getElem?_eq_none (by rwa [length_load])

theorem load_congr (h : ∀ k, k < n → m (a + k) = m' (b + k)) : m.load a n = m'.load b n := by
  apply List.ext_getElem?
  intro k
  by_cases hk : k < n
  · rw [getElem?_load m a n k hk, getElem?_load m' b n k hk, h k hk]
  · rw [getElem?_load_of_ge m a (by omega), getElem?_load_of_ge m' b (by omega)]

/-- Equal blocks are equal byte by byte. -/
theorem eq_of_load_eq (h : m.load a n = m'.load b n) {k : ℕ} (hk : k < n) :
    m (a + k) = m' (b + k) := by
  have hget := congrArg (fun l : List UInt8 => l[k]?) h
  simp only [getElem?_load _ _ _ _ hk] at hget
  exact Option.some.inj hget

theorem store_apply_of_lt (h : a < off) : m.store off bs a = m a := by
  simp [store, h]

theorem store_apply_of_ge (h : off + bs.length ≤ a) : m.store off bs a = m a := by
  have hlt : ¬ a < off := by omega
  have hnone : bs[a - off]? = none := List.getElem?_eq_none (by omega)
  simp [store, hlt, hnone]

theorem store_apply (h : n < bs.length) : m.store off bs (off + n) = bs[n] := by
  have hlt : ¬ off + n < off := by omega
  simp [store, hlt, h]

/-- A block that was written reads back. -/
theorem load_store (m : Mem) (off : ℕ) (bs : List UInt8) :
    (m.store off bs).load off bs.length = bs := by
  apply List.ext_getElem?
  intro k
  by_cases hk : k < bs.length
  · rw [getElem?_load _ _ _ k hk, store_apply hk, List.getElem?_eq_getElem hk]
  · rw [getElem?_load_of_ge _ _ (by omega), List.getElem?_eq_none (by omega)]

/-- The beginning of a block that was written reads back. -/
theorem load_store_take (m : Mem) (off : ℕ) (bs : List UInt8) (h : n ≤ bs.length) :
    (m.store off bs).load off n = bs.take n := by
  have hlen : (bs.take n).length = n := by simp [h]
  have hwhole := load_store m off (bs.take n)
  rw [hlen] at hwhole
  rw [← hwhole]
  refine load_congr fun k hk => ?_
  have hk' : k < (bs.take n).length := by omega
  rw [store_apply (by omega), store_apply hk', List.getElem_take]

/-- A write leaves a block that it does not meet as it was. -/
theorem load_store_of_disjoint (h : a + n ≤ off ∨ off + bs.length ≤ a) :
    (m.store off bs).load a n = m.load a n := by
  refine load_congr fun k hk => ?_
  rcases h with h | h
  · exact store_apply_of_lt (by omega)
  · exact store_apply_of_ge (by omega)

/-- One more byte of a block that is written from its beginning on. -/
theorem load_store_next (hload : m.load off n = bs.take n) (h : n < bs.length) :
    (m.store (off + n) [bs[n]]).load off (n + 1) = bs.take (n + 1) := by
  have hbefore : (m.store (off + n) [bs[n]]).load off n = bs.take n := by
    rw [load_store_of_disjoint (Or.inl (Nat.le_refl _)), hload]
  have hat : m.store (off + n) [bs[n]] (off + n) = bs[n] := store_apply (n := 0) (by simp)
  rw [load_succ, hbefore, hat, List.take_succ_eq_append_getElem h]

/-- Reading a prefix of a block. -/
theorem load_take (m : Mem) (off : ℕ) (h : a ≤ n) : (m.load off n).take a = m.load off a := by
  apply List.ext_getElem?
  intro k
  by_cases hk : k < a
  · rw [List.getElem?_take_of_lt hk, getElem?_load m off n k (by omega),
      getElem?_load m off a k hk]
  · rw [List.getElem?_take_eq_none (by omega), getElem?_load_of_ge m off (by omega)]

/-- Skipping the beginning of a block. -/
theorem load_drop (m : Mem) (off n k : ℕ) : (m.load off n).drop k = m.load (off + k) (n - k) := by
  apply List.ext_getElem?
  intro j
  rw [List.getElem?_drop]
  by_cases hj : j < n - k
  · rw [getElem?_load m off n (k + j) (by omega), getElem?_load m (off + k) (n - k) j hj,
      Nat.add_assoc]
  · rw [getElem?_load_of_ge m off (by omega), getElem?_load_of_ge m (off + k) (by omega)]

end Mem

/-! ## Copies into an array -/

/-- The bytes `data` are copied to `offset` in an array of `size` bytes, which begins at
address `0`. -/
structure Copy where
  size : ℕ
  offset : ℕ
  data : List UInt8

namespace Copy

/-- The memory after the copy. -/
def into (c : Copy) (m : Mem) : Mem := m.store c.offset c.data

/-- Nothing behind the array changes. -/
def Within (c : Copy) : Prop := ∀ (m : Mem) (a : ℕ), c.size ≤ a → c.into m a = m a

/-- **A copy stays within its array exactly when it ends there**, or copies nothing. -/
theorem within_iff (c : Copy) : c.Within ↔ c.data = [] ∨ c.offset + c.data.length ≤ c.size := by
  constructor
  · intro h
    by_contra hnot
    push Not at hnot
    obtain ⟨hne, hlt⟩ := hnot
    have hpos : 0 < c.data.length := List.length_pos_iff.mpr hne
    -- the first address behind the array that is written to, in a memory that holds another byte
    obtain ⟨k, hk, hsize⟩ : ∃ k, k < c.data.length ∧ c.size ≤ c.offset + k :=
      ⟨c.size - c.offset, by omega, by omega⟩
    have hsame := h (fun _ => c.data[k] + 1) (c.offset + k) hsize
    rw [into, Mem.store_apply hk] at hsame
    exact absurd hsame (by simp)
  · rintro (hnil | hle) m a ha
    · rw [into, hnil]
      by_cases hlt : a < c.offset <;> simp [Mem.store, hlt]
    · exact Mem.store_apply_of_ge (Nat.le_trans hle ha)

instance (c : Copy) : Decidable c.Within := decidable_of_iff _ c.within_iff.symm

end Copy

end Foundation
end EgosNet
