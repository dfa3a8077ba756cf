import EgosNet.Foundation.Memory
import Mathlib.Data.UInt

/-!
# An `int` in memory

On a machine of 32 bits an `int` is four bytes, the lowest first, in two's complement.  `writeInt`
stores one and `readInt` reads one.  A number that is no `int` is cut to one when it is stored, and
what is read is then the `int` it was cut to: `Int.bmod v 4294967296`, which is `v` itself if `v` is
an `int`.

* `readInt_writeInt`: what was stored is read.
* `readInt_store`, `readInt_writeInt_of_disjoint`: what is stored elsewhere makes no difference.
-/

namespace EgosNet
namespace Foundation
namespace Mem

variable {m : Mem} {a b off : ℕ} {bs : List UInt8}

/-- The bytes of an `int`. -/
def intBytes (v : ℤ) : List UInt8 :=
  let u := (v % 2 ^ 32).toNat
  [UInt8.ofNat u, UInt8.ofNat (u / 2 ^ 8), UInt8.ofNat (u / 2 ^ 16), UInt8.ofNat (u / 2 ^ 24)]

@[simp] theorem length_intBytes (v : ℤ) : (intBytes v).length = 4 := rfl

/-- The `int` with the given bytes. -/
def intOf (b0 b1 b2 b3 : UInt8) : ℤ :=
  let u : ℕ := b0.toNat + 2 ^ 8 * b1.toNat + 2 ^ 16 * b2.toNat + 2 ^ 24 * b3.toNat
  if u < 2 ^ 31 then u else u - 2 ^ 32

/-- The `int` at address `a`. -/
def readInt (m : Mem) (a : ℕ) : ℤ := intOf (m a) (m (a + 1)) (m (a + 2)) (m (a + 3))

/-- Store an `int` at address `a`. -/
def writeInt (m : Mem) (a : ℕ) (v : ℤ) : Mem := m.store a (intBytes v)

/-- The `int` at an address depends on four bytes. -/
theorem readInt_congr {m' : Mem} (h : ∀ k, k < 4 → m (a + k) = m' (b + k)) :
    m.readInt a = m'.readInt b := by
  have h0 : m a = m' b := h 0 (by decide)
  rw [readInt, readInt, h0, h 1 (by decide), h 2 (by decide), h 3 (by decide)]

/-- The bytes of a number below `2 ^ 32` make the number, as an `int`. -/
theorem intOf_bytes (u : ℕ) (hu : u < 2 ^ 32) :
    intOf (UInt8.ofNat u) (UInt8.ofNat (u / 2 ^ 8)) (UInt8.ofNat (u / 2 ^ 16))
      (UInt8.ofNat (u / 2 ^ 24)) = Int.bmod u (2 ^ 32) := by
  have hsum : (UInt8.ofNat u).toNat + 2 ^ 8 * (UInt8.ofNat (u / 2 ^ 8)).toNat +
      2 ^ 16 * (UInt8.ofNat (u / 2 ^ 16)).toNat +
      2 ^ 24 * (UInt8.ofNat (u / 2 ^ 24)).toNat = u := by
    simp only [UInt8.toNat_ofNat']
    omega
  have hmod : (u : ℤ) % (2 ^ 32 : ℕ) = u := Int.emod_eq_of_lt (by omega) (by exact_mod_cast hu)
  simp only [intOf, hsum]
  by_cases hsmall : u < 2 ^ 31
  · rw [if_pos hsmall, Int.bmod_eq_emod_of_lt (by rw [hmod]; omega), hmod]
  · rw [if_neg hsmall, Int.bmod_neg _ _ (by rw [hmod]; omega), hmod]
    rfl

/-- **What was stored is read**, as an `int`. -/
theorem readInt_writeInt (m : Mem) (a : ℕ) (v : ℤ) :
    (m.writeInt a v).readInt a = Int.bmod v (2 ^ 32) := by
  have hnonneg : 0 ≤ v % 2 ^ 32 := Int.emod_nonneg v (by decide)
  have hlt : v % 2 ^ 32 < 2 ^ 32 := Int.emod_lt_of_pos v (by decide)
  have hbyte {k : ℕ} (hk : k < (intBytes v).length) : m.writeInt a v (a + k) = (intBytes v)[k] :=
    store_apply hk
  have h0 : m.writeInt a v a = (intBytes v)[0] := hbyte (k := 0) (by simp)
  have hu : (((v % 2 ^ 32).toNat : ℕ) : ℤ) = v % 2 ^ 32 := Int.toNat_of_nonneg hnonneg
  have h1 : m.writeInt a v (a + 1) = (intBytes v)[1] := hbyte (by simp)
  have h2 : m.writeInt a v (a + 2) = (intBytes v)[2] := hbyte (by simp)
  have h3 : m.writeInt a v (a + 3) = (intBytes v)[3] := hbyte (by simp)
  rw [readInt, h0, h1, h2, h3]
  have hbytes := intOf_bytes (v % 2 ^ 32).toNat (by omega)
  rw [hu] at hbytes
  exact hbytes.trans (Int.emod_bmod v (2 ^ 32))

/-- What is stored elsewhere makes no difference. -/
theorem readInt_store (h : a + 4 ≤ off ∨ off + bs.length ≤ a) :
    (m.store off bs).readInt a = m.readInt a := by
  refine readInt_congr fun k hk => ?_
  rcases h with h | h
  · exact store_apply_of_lt (by omega)
  · exact store_apply_of_ge (by omega)

theorem readInt_writeInt_of_disjoint (v : ℤ) (h : a + 4 ≤ b ∨ b + 4 ≤ a) :
    (m.writeInt b v).readInt a = m.readInt a :=
  readInt_store (by simpa using h)

/-- A block beside the `int` is as it was. -/
theorem load_writeInt_of_disjoint {n : ℕ} (v : ℤ) (h : a + n ≤ b ∨ b + 4 ≤ a) :
    (m.writeInt b v).load a n = m.load a n :=
  load_store_of_disjoint (by simpa using h)

end Mem
end Foundation
end EgosNet
