import EgosNet.Foundation.OnesComplement
import EgosNet.Uip.Output

/-!
# The checksums that uIP computes

`chksum` adds sixteen-bit words and brings the carry around, in a loop that finds the carry by
comparing the sum with what was added.  It is the sum of `Foundation.OnesComplement`, so it can be
forgotten: a header is valid when an ordinary sum is a multiple of 65535 (`uipIpchksum_valid_iff`,
`uipTcpchksum_valid_iff`), and the complement of the checksum, put into a field that was zero, is
what is missing (`chksumResult_compl`).

What leaves uIP is measured with it in `Uip.Wire`.
-/

namespace EgosNet
namespace Uip

open Foundation

/-! ## The loop -/

theorem addCarry_eq {s t : ℕ} (hs : s ≤ 65535) (ht : t ≤ 65535) :
    addCarry s t = endAround 65535 s t := by
  simp only [addCarry, endAround]
  rcases Nat.lt_or_ge 65535 (s + t) with h | h
  · have hmod : (s + t) % 65536 = s + t - 65536 := by omega
    rw [hmod, if_pos (by omega), if_neg (by omega)]
    omega
  · have hmod : (s + t) % 65536 = s + t := Nat.mod_eq_of_lt (by omega)
    rw [hmod, if_neg (by omega), if_pos h]

/-- **`chksum` is the sum with the carry brought around.** -/
theorem chksum_eq {s : ℕ} (hs : s ≤ 65535) (bs : List UInt8) :
    chksum s bs = endAroundSum 65535 s (words bs) := by
  induction bs using words.induct generalizing s with
  | case1 => rfl
  | case2 x =>
    have hx := x.toNat_lt
    exact addCarry_eq hs (by omega)
  | case3 x y rest ih =>
    have hx := x.toNat_lt
    have hy := y.toNat_lt
    have hadd : addCarry s (x.toNat * 256 + y.toNat) =
        endAround 65535 s (x.toNat * 256 + y.toNat) := addCarry_eq hs (by omega)
    rw [chksum, hadd, ih (endAround_le hs (by omega))]
    rfl

theorem chksum_le {s : ℕ} (hs : s ≤ 65535) (bs : List UInt8) : chksum s bs ≤ 65535 := by
  rw [chksum_eq hs]
  exact endAroundSum_le hs (words_le bs)

theorem chksum_modEq {s : ℕ} (hs : s ≤ 65535) (bs : List UInt8) :
    chksum s bs ≡ s + wordSum bs [MOD 65535] := by
  rw [chksum_eq hs]
  exact endAroundSum_modEq

/-- **The sum is all ones exactly when the ordinary sum is a multiple of 65535 other than zero.** -/
theorem chksum_eq_ones_iff (bs : List UInt8) :
    chksum 0 bs = 0xffff ↔ wordSum bs ≠ 0 ∧ 65535 ∣ wordSum bs := by
  have htop := endAroundSum_eq_top_iff (M := 65535) (s := 0) (by decide) (Nat.zero_le _)
    (words_le bs)
  rw [Nat.zero_add] at htop
  rw [chksum_eq (Nat.zero_le _)]
  exact htop

/-! ## The result and its complement -/

theorem toNat_ofNat_div {n : ℕ} (h : n < 65536) : (UInt8.ofNat (n / 256)).toNat = n / 256 := by
  rw [UInt8.toNat_ofNat']
  omega

theorem toNat_ofNat_mod (n : ℕ) : (UInt8.ofNat n).toNat = n % 256 := UInt8.toNat_ofNat' ..

/-- The two bytes of a number add up to it. -/
theorem wordSum_ofNat {n : ℕ} (h : n < 65536) : wordSum (Word16.ofNat n).toBytes = n := by
  simp only [Word16.ofNat, Word16.toBytes, wordSum_pair, toNat_ofNat_div h, toNat_ofNat_mod]
  omega

theorem toNat_compl (x : UInt8) : (~~~x).toNat = 255 - x.toNat := by
  rw [UInt8.toNat_not]
  rfl

/-- A number and its complement add up to ones. -/
theorem wordSum_compl (w : Word16) : wordSum w.toBytes + wordSum w.compl.toBytes = 65535 := by
  have h0 := w.b0.toNat_lt
  have h1 := w.b1.toNat_lt
  simp only [Word16.toBytes, Word16.compl, wordSum_pair, toNat_compl]
  omega

theorem chksumResult_modEq {s : ℕ} (hs : s ≤ 65535) :
    wordSum (chksumResult s).toBytes ≡ s [MOD 65535] := by
  unfold chksumResult
  split_ifs with h
  · rw [h]
    decide
  · rw [wordSum_ofNat (by omega)]

/-- **The complement of the checksum is what is missing to a multiple of 65535.** -/
theorem chksumResult_compl {s total : ℕ} (hs : s ≤ 65535) (h : s ≡ total [MOD 65535]) :
    65535 ∣ total + wordSum (chksumResult s).compl.toBytes := by
  have hsum := wordSum_compl (chksumResult s)
  have hmod : wordSum (chksumResult s).toBytes + wordSum (chksumResult s).compl.toBytes ≡
      total + wordSum (chksumResult s).compl.toBytes [MOD 65535] :=
    ((chksumResult_modEq hs).trans h).add_right _
  rw [hsum] at hmod
  exact (hmod.dvd_iff (dvd_refl _)).mp (dvd_refl _)

/-- The tests of `uip_process` pass when the sum is either zero. -/
theorem chksumResult_eq_ones_iff {s : ℕ} (hs : s ≤ 65535) :
    chksumResult s = ⟨0xff, 0xff⟩ ↔ 65535 ∣ s := by
  constructor
  · intro h
    have hmod := chksumResult_modEq hs
    rw [h] at hmod
    exact (hmod.dvd_iff (dvd_refl _)).mp (by decide)
  · rintro ⟨k, rfl⟩
    have hk : k = 0 ∨ k = 1 := by omega
    rcases hk with rfl | rfl <;> decide

theorem chksumResult_ones_of_modEq {s total : ℕ} (hs : s ≤ 65535) (h : s ≡ total [MOD 65535]) :
    chksumResult s = ⟨0xff, 0xff⟩ ↔ 65535 ∣ total := by
  rw [chksumResult_eq_ones_iff hs]
  exact h.dvd_iff (dvd_refl _)

/-! ## The IP header -/

/-- The sum of the IP header. -/
def ipSum (m : Mem) : ℕ := wordSum (m.load UIP_LLH_LEN UIP_IPH_LEN)

theorem chksum_ipSum (m : Mem) :
    chksum 0 (m.load UIP_LLH_LEN UIP_IPH_LEN) ≡ ipSum m [MOD 65535] := by
  have hmod := chksum_modEq (s := 0) (Nat.zero_le _) (m.load UIP_LLH_LEN UIP_IPH_LEN)
  rwa [Nat.zero_add] at hmod

/-- **An IP header passes the test exactly when its sum is a multiple of 65535.** -/
theorem uipIpchksum_valid_iff (m : Mem) : uipIpchksum m = ⟨0xff, 0xff⟩ ↔ 65535 ∣ ipSum m :=
  chksumResult_ones_of_modEq (chksum_le (Nat.zero_le _) _) (chksum_ipSum m)

/-- The header is valid when its checksum has been put in. -/
theorem uipIpchksum_store {m : Mem} (hzero : m.load Hdr.ipchksum 2 = [0, 0]) :
    uipIpchksum (m.store Hdr.ipchksum (uipIpchksum m).compl.toBytes) = ⟨0xff, 0xff⟩ := by
  rw [uipIpchksum_valid_iff]
  have hadd : ipSum (m.store Hdr.ipchksum (uipIpchksum m).compl.toBytes) =
      ipSum m + wordSum (uipIpchksum m).compl.toBytes := by
    have hstore := wordSum_load_store 14 10 20 (x := (uipIpchksum m).compl.b0)
      (y := (uipIpchksum m).compl.b1) (by decide) (by decide) hzero
    rwa [← wordSum_pair] at hstore
  rw [hadd]
  exact chksumResult_compl (chksum_le (Nat.zero_le _) _) (chksum_ipSum m)

theorem uipIpchksum_congr {m m' : Mem} (h : ∀ a, 14 ≤ a → a < 34 → m a = m' a) :
    uipIpchksum m = uipIpchksum m' := by
  have hload : m.load UIP_LLH_LEN UIP_IPH_LEN = m'.load UIP_LLH_LEN UIP_IPH_LEN := by
    refine Mem.load_congr fun k hk => h _ ?_ ?_
    · exact Nat.le_add_right 14 k
    · have hlen : UIP_LLH_LEN + UIP_IPH_LEN = 34 := rfl
      omega
  rw [uipIpchksum, uipIpchksum, hload]

/-! ## The TCP segment -/

/-- The length of the TCP segment, in sixteen bits. -/
def tcpLength (m : Mem) : ℕ := (num16 m Hdr.len + 65536 - UIP_IPH_LEN) % 65536

/-- The sum of the TCP segment and its pseudo header. -/
def tcpSum (m : Mem) : ℕ :=
  (tcpLength m + UIP_PROTO_TCP.toNat) % 65536 + wordSum (m.load Hdr.srcipaddr 8) +
    wordSum (m.load 34 (tcpLength m))

/-- `uip_tcpchksum` before the result is made of it. -/
def tcpChksumSum (m : Mem) : ℕ :=
  chksum (chksum ((tcpLength m + UIP_PROTO_TCP.toNat) % 65536) (m.load Hdr.srcipaddr 8))
    (m.load 34 (tcpLength m))

theorem uipTcpchksum_eq (m : Mem) : uipTcpchksum m = chksumResult (tcpChksumSum m) := rfl

theorem tcpChksumSum_le (m : Mem) : tcpChksumSum m ≤ 65535 := by
  have h0 : (tcpLength m + UIP_PROTO_TCP.toNat) % 65536 ≤ 65535 :=
    Nat.le_of_lt_succ (Nat.mod_lt _ (by decide))
  exact chksum_le (chksum_le h0 _) _

theorem tcpChksumSum_modEq (m : Mem) : tcpChksumSum m ≡ tcpSum m [MOD 65535] := by
  have h0 : (tcpLength m + UIP_PROTO_TCP.toNat) % 65536 ≤ 65535 :=
    Nat.le_of_lt_succ (Nat.mod_lt _ (by decide))
  exact (chksum_modEq (chksum_le h0 _) _).trans ((chksum_modEq h0 _).add_right _)

/-- **A TCP segment passes the test exactly when its sum is a multiple of 65535.** -/
theorem uipTcpchksum_valid_iff (m : Mem) : uipTcpchksum m = ⟨0xff, 0xff⟩ ↔ 65535 ∣ tcpSum m :=
  chksumResult_ones_of_modEq (tcpChksumSum_le m) (tcpChksumSum_modEq m)

theorem num16_congr {m m' : Mem} {off : ℕ} (h0 : m off = m' off) (h1 : m (off + 1) = m' (off + 1)) :
    num16 m off = num16 m' off := by
  rw [num16, num16, h0, h1]

/-- The segment is valid when its checksum has been put in. -/
theorem uipTcpchksum_store {m : Mem} (hzero : m.load Hdr.tcpchksum 2 = [0, 0])
    (hlen : 18 ≤ tcpLength m) :
    uipTcpchksum (m.store Hdr.tcpchksum (uipTcpchksum m).compl.toBytes) = ⟨0xff, 0xff⟩ := by
  rw [uipTcpchksum_valid_iff]
  set c := (uipTcpchksum m).compl with hc
  have hlength : tcpLength (m.store Hdr.tcpchksum c.toBytes) = tcpLength m := by
    unfold tcpLength
    rw [num16_congr (Mem.store_apply_of_lt (by decide)) (Mem.store_apply_of_lt (by decide))]
  have haddr : (m.store Hdr.tcpchksum c.toBytes).load Hdr.srcipaddr 8 = m.load Hdr.srcipaddr 8 :=
    Mem.load_store_of_disjoint (Or.inl (by decide))
  have hseg : wordSum ((m.store Hdr.tcpchksum c.toBytes).load 34 (tcpLength m)) =
      wordSum (m.load 34 (tcpLength m)) + wordSum c.toBytes := by
    have hstore := wordSum_load_store 34 16 (tcpLength m) (x := c.b0) (y := c.b1) (by decide) hlen
      hzero
    rwa [← wordSum_pair] at hstore
  rw [tcpSum, hlength, haddr, hseg, ← Nat.add_assoc]
  exact chksumResult_compl (tcpChksumSum_le m) (tcpChksumSum_modEq m)

/-- The test looks at the length, at the addresses and at the segment. -/
theorem uipTcpchksum_congr {m m' : Mem} (h0 : m Hdr.len = m' Hdr.len)
    (h1 : m (Hdr.len + 1) = m' (Hdr.len + 1))
    (h : ∀ a, 26 ≤ a → a < 34 + tcpLength m → m a = m' a) : uipTcpchksum m = uipTcpchksum m' := by
  have hlength : tcpLength m = tcpLength m' := by
    unfold tcpLength
    rw [num16_congr h0 h1]
  have haddr : m.load Hdr.srcipaddr 8 = m'.load Hdr.srcipaddr 8 :=
    Mem.load_congr fun k hk => h _ (Nat.le_add_right 26 k) (by simp; omega)
  have hseg : m.load 34 (tcpLength m) = m'.load 34 (tcpLength m) :=
    Mem.load_congr fun k hk => h _ (by omega) (by omega)
  rw [uipTcpchksum_eq, uipTcpchksum_eq, tcpChksumSum, tcpChksumSum, ← hlength, haddr, hseg]

end Uip
end EgosNet
