import Mathlib.Data.UInt
import Mathlib.Tactic.Common

/-!
# Words kept as bytes

A protocol stack for small machines keeps the numbers it exchanges with its peers
as the bytes they are on the wire: a port is two bytes, an address and a sequence
number four.  `Word16` and `Word32` are those, byte by byte in memory order, and
`Word32.toNat` is the number a big-endian `Word32` stands for.
-/

namespace EgosNet
namespace Foundation

/-- Two bytes in memory order. -/
@[ext] structure Word16 where
  b0 : UInt8
  b1 : UInt8
  deriving DecidableEq, Repr

/-- Four bytes in memory order. -/
@[ext] structure Word32 where
  b0 : UInt8
  b1 : UInt8
  b2 : UInt8
  b3 : UInt8
  deriving DecidableEq, Repr

namespace Word16

def toBytes (w : Word16) : List UInt8 := [w.b0, w.b1]

@[simp] theorem length_toBytes (w : Word16) : w.toBytes.length = 2 := rfl

/-- The number in big-endian byte order, truncated to sixteen bits. -/
def ofNat (n : ℕ) : Word16 := ⟨UInt8.ofNat (n / 256), UInt8.ofNat n⟩

/-- The complement of every bit. -/
def compl (w : Word16) : Word16 := ⟨~~~w.b0, ~~~w.b1⟩

end Word16

namespace Word32

def toBytes (w : Word32) : List UInt8 := [w.b0, w.b1, w.b2, w.b3]

@[simp] theorem length_toBytes (w : Word32) : w.toBytes.length = 4 := rfl

/-- The number the bytes stand for in big-endian order. -/
def toNat (w : Word32) : ℕ :=
  w.b0.toNat * 2 ^ 24 + w.b1.toNat * 2 ^ 16 + w.b2.toNat * 2 ^ 8 + w.b3.toNat

theorem toNat_lt (w : Word32) : w.toNat < 2 ^ 32 := by
  have h0 := w.b0.toNat_lt
  have h1 := w.b1.toNat_lt
  have h2 := w.b2.toNat_lt
  have h3 := w.b3.toNat_lt
  unfold toNat
  omega

end Word32

end Foundation
end EgosNet
