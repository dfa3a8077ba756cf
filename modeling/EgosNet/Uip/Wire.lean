import EgosNet.Uip.Checksum

/-!
# Packets as they go out

A packet leaves uIP through `tcp_send_noconn`, or it is an echo request turned around.  `IpHeader`
and `TcpSegment` are the tests that `uip_process` makes on a packet that arrives, with the address
of this host as that of the sender; what uIP sends passes them.

* `tcpSend_segment`, `reset_segment`: whatever the connection and whatever was in the buffer, the
  reply is a `TcpSegment` of the length it was given.
* `icmpEcho_turned`: no checksum of the answer to an echo request is ever computed.  That of the IP
  header is right because that of the request was, and the two addresses change places.  That of the
  message is adjusted for the byte that changes, and is right when that of the request was, which
  uIP does not test.  There is one exception.  A message of zeros has no right checksum, since no
  sum of zeros is ones, and if the request has nothing but its type and its checksum, the adjusted
  checksum is zero like the rest.
-/

namespace EgosNet
namespace Uip

open Foundation

/-- The packet of `n` bytes passes the tests of `uip_process` on its IP header, and comes from this
host. -/
structure IpHeader (m : Mem) (n : ℕ) : Prop where
  vhl : m Hdr.vhl = 0x45
  len : num16 m Hdr.len = n
  ipoffset : m Hdr.ipoffset &&& 0x3f = 0 ∧ m (Hdr.ipoffset + 1) = 0
  srcipaddr : word32 m Hdr.srcipaddr = uipHostaddr
  ipchksum : uipIpchksum m = ⟨0xff, 0xff⟩

/-- It is a TCP segment and passes the test on its checksum. -/
structure TcpSegment (m : Mem) (n : ℕ) : Prop extends IpHeader m n where
  proto : m Hdr.proto = UIP_PROTO_TCP
  size : UIP_IPTCPH_LEN ≤ n
  tcpchksum : uipTcpchksum m = ⟨0xff, 0xff⟩

theorem word32_congr {m m' : Mem} {off : ℕ} (h : ∀ k, k < 4 → m (off + k) = m' (off + k)) :
    word32 m off = word32 m' off := by
  have h0 := h 0 (by decide)
  have h1 := h 1 (by decide)
  have h2 := h 2 (by decide)
  have h3 := h 3 (by decide)
  rw [Nat.add_zero] at h0
  rw [word32, word32, h0, h1, h2, h3]

theorem word16_congr {b b' : Mem} (off : ℕ) (h0 : b off = b' off)
    (h1 : b (off + 1) = b' (off + 1)) : word16 b off = word16 b' off := by
  rw [word16, word16, h0, h1]

/-- Only the header matters. -/
theorem IpHeader.congr {m m' : Mem} {n : ℕ} (h : IpHeader m n)
    (heq : ∀ a, 14 ≤ a → a < 34 → m a = m' a) : IpHeader m' n where
  vhl := heq 14 (by decide) (by decide) ▸ h.vhl
  len := by
    rw [← h.len]
    exact num16_congr (heq 16 (by decide) (by decide)).symm (heq 17 (by decide) (by decide)).symm
  ipoffset :=
    ⟨heq 20 (by decide) (by decide) ▸ h.ipoffset.1, heq 21 (by decide) (by decide) ▸ h.ipoffset.2⟩
  srcipaddr := by
    rw [← h.srcipaddr]
    exact word32_congr fun k hk => (heq (26 + k) (by omega) (by omega)).symm
  ipchksum := by
    rw [← h.ipchksum]
    exact uipIpchksum_congr fun a h1 h2 => (heq a h1 h2).symm

/-- Only the packet matters. -/
theorem TcpSegment.congr {m m' : Mem} {n : ℕ} (h : TcpSegment m n)
    (heq : ∀ a, 14 ≤ a → a < 14 + n → m a = m' a) : TcpSegment m' n := by
  have hsize : 40 ≤ n := h.size
  have hlength : 34 + tcpLength m ≤ 14 + n := by
    have hlen := h.len
    have hiph : UIP_IPH_LEN = 20 := rfl
    unfold tcpLength
    omega
  refine ⟨h.toIpHeader.congr fun a h1 h2 => heq a h1 (by omega), ?_, h.size, ?_⟩
  · exact heq 23 (by decide) (by omega) ▸ h.proto
  · rw [← h.tcpchksum]
    exact (uipTcpchksum_congr (heq 16 (by decide) (by omega)) (heq 17 (by decide) (by omega))
      fun a h1 h2 => heq a (by omega) (by omega)).symm

/-! ## Replies of the TCP layer -/

section Reply

variable (u : Stack) {a n : ℕ}

/-- What `ip_send_nolen` leaves alone. -/
theorem ipSendNolen_buf_of_kept (h : a = 16 ∨ a = 17 ∨ a = 22 ∨ a = 23 ∨ 26 ≤ a) :
    (ipSendNolen u).buf a = u.buf a := by
  rcases h with rfl | rfl | rfl | rfl | h
  · rfl
  · rfl
  · rfl
  · rfl
  · exact ipSendNolen_buf u h

/-- **A header completed in `tcp_send_noconn` is valid**, if the protocol and the address of the
sender have been filled in and there is room for the checksum. -/
theorem tcpSendNoconn_segment (hproto : u.buf Hdr.proto = UIP_PROTO_TCP)
    (hsrc : word32 u.buf Hdr.srcipaddr = uipHostaddr) (hlo : UIP_IPTCPH_LEN ≤ u.len)
    (hhi : u.len < 65536) : TcpSegment (tcpSendNoconn u).buf u.len := by
  have hlo' : 40 ≤ u.len := hlo
  -- the buffer before the checksum is filled in
  set v : Stack := ((((u.put Hdr.ttl [UIP_TTL]).put Hdr.len (bytes16 u.len)).put Hdr.urgp
    [0, 0]).put Hdr.tcpchksum [0, 0]) with hv
  set w : Stack := v.put Hdr.tcpchksum (uipTcpchksum v.buf).compl.toBytes with hw
  have hout : tcpSendNoconn u = ipSendNolen w := rfl
  have hwlen : num16 w.buf Hdr.len = u.len := by
    have h0 : w.buf 16 = UInt8.ofNat (u.len / 256) := rfl
    have h1 : w.buf 17 = UInt8.ofNat u.len := rfl
    simp only [num16, Hdr.len, Nat.reduceAdd, h0, h1, toNat_ofNat_div hhi, toNat_ofNat_mod]
    omega
  have hwtcp : uipTcpchksum w.buf = ⟨0xff, 0xff⟩ := by
    refine uipTcpchksum_store rfl ?_
    have hlen : num16 v.buf Hdr.len = u.len := by
      rw [← hwlen]
      exact (num16_congr (Stack.put_buf_of_lt v (by decide) _)
        (Stack.put_buf_of_lt v (by decide) _)).symm
    have hiph : UIP_IPH_LEN = 20 := rfl
    unfold tcpLength
    omega
  have hoffset : (ipSendNolen w).buf Hdr.ipoffset = 0 := rfl
  have h16 : (ipSendNolen w).buf Hdr.len = w.buf Hdr.len := ipSendNolen_buf_of_kept w (by simp)
  have h17 : (ipSendNolen w).buf (Hdr.len + 1) = w.buf (Hdr.len + 1) :=
    ipSendNolen_buf_of_kept w (by simp)
  rw [hout]
  refine ⟨⟨rfl, ?_, ⟨by rw [hoffset]; rfl, rfl⟩, ?_, uipIpchksum_store rfl⟩, ?_, hlo, ?_⟩
  · rw [← hwlen]
    exact num16_congr h16 h17
  · rw [← hsrc]
    rfl
  · rw [← hproto]
    rfl
  · rw [← hwtcp]
    refine uipTcpchksum_congr h16 h17 fun a ha _ => ?_
    exact ipSendNolen_buf_of_kept w (by omega)

/-- The first half of the TCP header is not touched by `tcp_send_noconn`. -/
theorem word32_tcpSendNoconn {off : ℕ} (h : 26 ≤ off) (h' : off + 4 ≤ 50) :
    word32 (tcpSendNoconn u).buf off = word32 u.buf off :=
  word32_congr fun k hk => tcpSendNoconn_buf u (by omega) (.inl (by omega))

theorem word16_tcpSendNoconn {off : ℕ} (h : 26 ≤ off) (h' : off + 2 ≤ 50) :
    word16 (tcpSendNoconn u).buf off = word16 u.buf off :=
  word16_congr _ (tcpSendNoconn_buf u (by omega) (.inl (by omega)))
    (tcpSendNoconn_buf u (by omega) (.inl (by omega)))

/-- What `tcp_send` fills in. -/
theorem tcpSend_fields (i : Slot) :
    word16 (tcpSend u i).buf Hdr.srcport = (u.conns i).lport ∧
      word16 (tcpSend u i).buf Hdr.destport = (u.conns i).rport ∧
      word32 (tcpSend u i).buf Hdr.destipaddr = (u.conns i).ripaddr ∧
      word32 (tcpSend u i).buf Hdr.ackno = (u.conns i).rcvNxt := by
  unfold tcpSend
  dsimp only
  rw [word16_tcpSendNoconn _ (by decide) (by decide), word16_tcpSendNoconn _ (by decide) (by decide),
    word32_tcpSendNoconn _ (by decide) (by decide), word32_tcpSendNoconn _ (by decide) (by decide)]
  exact ⟨rfl, rfl, rfl, rfl⟩

/-- **What a connection sends is valid.** -/
theorem tcpSend_segment (i : Slot) (hlo : UIP_IPTCPH_LEN ≤ u.len) (hhi : u.len < 65536) :
    TcpSegment (tcpSend u i).buf u.len :=
  tcpSendNoconn_segment _ rfl rfl hlo hhi

/-- **A reset is valid**, as the packet it answers was a TCP segment. -/
theorem reset_segment (hproto : u.buf Hdr.proto = UIP_PROTO_TCP) (hpos : 0 < (reset u).len) :
    TcpSegment (reset u).buf (reset u).len := by
  unfold reset at hpos ⊢
  split_ifs at hpos ⊢ with hrst
  · exact absurd hpos (lt_irrefl _)
  · exact tcpSendNoconn_segment _ hproto rfl (Nat.le_refl _) (show 40 < 65536 by decide)

end Reply

/-! ## Answers to echo requests -/

/-- The test that a receiver makes on an ICMP message of `n` bytes. -/
def IcmpValid (m : Mem) (n : ℕ) : Prop := chksum 0 (m.load Hdr.icmpType n) = 0xffff

/-- Of a message in a packet of `n` bytes, everything but the type and the checksum is zero. -/
def Blank (m : Mem) (n : ℕ) : Prop :=
  m (Hdr.icmpType + 1) = 0 ∧ ∀ a, 38 ≤ a → a < UIP_LLH_LEN + n → m a = 0

/-- `m'` has the IP header of an answer to `m`, for a packet of `n` bytes. -/
structure EchoHeader (m m' : Mem) (n : ℕ) : Prop extends IpHeader m' n where
  proto : m' Hdr.proto = UIP_PROTO_ICMP
  destipaddr : word32 m' Hdr.destipaddr = word32 m Hdr.srcipaddr

/-- `m'` is the answer to the echo request `m`; both packets have `n` bytes. -/
structure EchoReply (m m' : Mem) (n : ℕ) : Prop extends EchoHeader m m' n where
  reply : m' Hdr.icmpType = ICMP_ECHO_REPLY
  code : m' (Hdr.icmpType + 1) = m (Hdr.icmpType + 1)
  data : ∀ a, 38 ≤ a → a < UIP_LLH_LEN + n → m' a = m a
  valid : IcmpValid m' (n - UIP_IPH_LEN) ↔ IcmpValid m (n - UIP_IPH_LEN) ∧ ¬ Blank m n

/-- A packet of `n` bytes in `m` has been turned around, as far as there are bytes of it: the header
up to the addresses is as it was; if there is room for an IP header, it is that of an answer; and if
there is room for the first four bytes of a message, this is an answer. -/
structure Turned (m m' : Mem) (n : ℕ) : Prop where
  kept : ∀ a, UIP_LLH_LEN ≤ a → a < Hdr.srcipaddr → a < UIP_LLH_LEN + n → m' a = m a
  header : UIP_IPH_LEN ≤ n → EchoHeader m m' n
  reply : UIP_IPH_LEN + 4 ≤ n → EchoReply m m' n

theorem IcmpValid.congr_iff {m m' : Mem} {n : ℕ} (hn : UIP_IPH_LEN ≤ n)
    (heq : ∀ a, 14 ≤ a → a < 14 + n → m a = m' a) :
    IcmpValid m (n - UIP_IPH_LEN) ↔ IcmpValid m' (n - UIP_IPH_LEN) := by
  have hiph : UIP_IPH_LEN = 20 := rfl
  have hload : m.load Hdr.icmpType (n - UIP_IPH_LEN) = m'.load Hdr.icmpType (n - UIP_IPH_LEN) :=
    Mem.load_congr fun k hk => heq (34 + k) (by omega) (by omega)
  rw [IcmpValid, IcmpValid, hload]

theorem EchoHeader.congr {m m₁ m₂ : Mem} {n : ℕ} (h : EchoHeader m m₁ n) (hn : UIP_IPH_LEN ≤ n)
    (heq : ∀ a, 14 ≤ a → a < 14 + n → m₁ a = m₂ a) : EchoHeader m m₂ n := by
  have hn' : 20 ≤ n := hn
  refine ⟨h.toIpHeader.congr fun a h1 h2 => heq a h1 (by omega), ?_, ?_⟩
  · exact heq 23 (by decide) (by omega) ▸ h.proto
  · rw [← h.destipaddr]
    exact word32_congr fun k hk => (heq (30 + k) (by omega) (by omega)).symm

theorem EchoReply.congr {m m₁ m₂ : Mem} {n : ℕ} (h : EchoReply m m₁ n)
    (hn : UIP_IPH_LEN + 4 ≤ n) (heq : ∀ a, 14 ≤ a → a < 14 + n → m₁ a = m₂ a) :
    EchoReply m m₂ n := by
  have hn' : 24 ≤ n := hn
  have hiph : UIP_IPH_LEN ≤ n := by omega
  refine ⟨h.toEchoHeader.congr hiph heq, ?_, ?_, ?_, ?_⟩
  · exact heq 34 (by decide) (by omega) ▸ h.reply
  · exact heq 35 (by decide) (by omega) ▸ h.code
  · intro a h1 h2
    rw [← heq a (by omega) h2]
    exact h.data a h1 h2
  · rw [← h.valid]
    exact (IcmpValid.congr_iff hiph heq).symm

/-- Only the packet matters. -/
theorem Turned.congr {m m₁ m₂ : Mem} {n : ℕ} (h : Turned m m₁ n)
    (heq : ∀ a, 14 ≤ a → a < 14 + n → m₁ a = m₂ a) : Turned m m₂ n where
  kept a h1 h2 h3 := (heq a h1 h3).symm.trans (h.kept a h1 h2 h3)
  header hn := (h.header hn).congr hn heq
  reply hn := (h.reply hn).congr hn heq

/-- The checksum field after it has been adjusted, read as a big-endian number.  `uip_process` adds
to it as a little-endian one. -/
theorem adjusted_modEq {b0 b1 sum : ℕ} (h0 : b0 < 256) (h1 : b1 < 256)
    (hsum : sum = if 0xfff7 ≤ b0 + 256 * b1 then (b0 + 256 * b1 + 9) % 65536
      else (b0 + 256 * b1 + 8) % 65536) :
    sum % 256 * 256 + sum / 256 ≡ b0 * 256 + b1 + 2048 [MOD 65535] := by
  have hlt : sum < 65536 := by
    rw [hsum]
    split_ifs
    · exact Nat.mod_lt _ (by decide)
    · exact Nat.mod_lt _ (by decide)
  -- a byte swap is a multiplication by 256
  have hswap : ∀ x y : ℕ, x * 256 + y ≡ 256 * (x + 256 * y) [MOD 65535] := by
    intro x y
    have hsplit : 256 * (x + 256 * y) = x * 256 + y + 65535 * y := by ring
    rw [hsplit]
    exact (Nat.modEq_iff_dvd' (Nat.le_add_right _ _)).mpr (by simp)
  have hsum' : sum ≡ b0 + 256 * b1 + 8 [MOD 65535] := by
    rw [hsum]
    split_ifs with hwrap
    · have hmod : (b0 + 256 * b1 + 9) % 65536 + 65535 = b0 + 256 * b1 + 8 := by omega
      rw [← hmod]
      exact (Nat.modEq_iff_dvd' (Nat.le_add_right _ _)).mpr (by simp)
    · rw [Nat.mod_eq_of_lt (by omega)]
  calc sum % 256 * 256 + sum / 256
      ≡ 256 * (sum % 256 + 256 * (sum / 256)) [MOD 65535] := hswap _ _
    _ = 256 * sum := by rw [Nat.mod_add_div]
    _ ≡ 256 * (b0 + 256 * b1 + 8) [MOD 65535] := hsum'.mul_left _
    _ = 256 * (b0 + 256 * b1) + 2048 := by ring
    _ ≡ b0 * 256 + b1 + 2048 [MOD 65535] := (hswap _ _).symm.add_right _

/-- The first four bytes of a message, and the rest. -/
theorem wordSum_icmp (m : Mem) (k : ℕ) : wordSum (m.load Hdr.icmpType (2 + (2 + k))) =
    (m 34).toNat * 256 + (m 35).toNat + ((m 36).toNat * 256 + (m 37).toNat) +
      wordSum (m.load 38 k) := by
  have h0 : wordSum (m.load 34 2) = (m 34).toNat * 256 + (m 35).toNat := wordSum_pair _ _
  have h1 : wordSum (m.load 36 2) = (m 36).toNat * 256 + (m 37).toNat := wordSum_pair _ _
  rw [wordSum_load_add _ _ even_two, wordSum_load_add _ _ even_two, ← h0, ← h1]
  exact (Nat.add_assoc _ _ _).symm

/-- Two addresses that change places leave the sum of the header as it was. -/
theorem ipSum_swap {m m' : Mem} (hbefore : m'.load 14 12 = m.load 14 12)
    (hsrc : m'.load 26 4 = m.load 30 4) (hdest : m'.load 30 4 = m.load 26 4) :
    ipSum m' = ipSum m := by
  have hparts : ∀ m : Mem, ipSum m =
      wordSum (m.load 14 12) + (wordSum (m.load 26 4) + wordSum (m.load 30 4)) := by
    intro m
    have h1 := wordSum_load_add m 14 (a := 12) (by decide) (4 + 4)
    have h2 := wordSum_load_add m 26 (a := 4) (by decide) 4
    rw [h2] at h1
    exact h1
  rw [hparts, hparts, hbefore, hsrc, hdest]
  omega

/-- A message of zeros, and no other, has the sum zero. -/
theorem wordSum_icmp_eq_zero_iff (m : Mem) (k : ℕ) :
    wordSum (m.load Hdr.icmpType (2 + (2 + k))) = 0 ↔
      m 34 = 0 ∧ m 36 = 0 ∧ m 37 = 0 ∧ Blank m (UIP_IPH_LEN + 4 + k) := by
  have hbyte (x : UInt8) : x = 0 ↔ x.toNat = 0 := by rw [← UInt8.toNat_inj]; rfl
  have hsize : UIP_LLH_LEN + (UIP_IPH_LEN + 4 + k) = 38 + k := by
    have hiph : UIP_IPH_LEN = 20 := rfl
    have hllh : UIP_LLH_LEN = 14 := rfl
    omega
  rw [wordSum_icmp, Blank, hsize, ← wordSum_load_eq_zero_iff, hbyte, hbyte, hbyte, hbyte]
  show _ ↔ _ ∧ _ ∧ _ ∧ (m 35).toNat = 0 ∧ _
  omega

/-- **Which echo requests have an answer of zeros.**  If a request that passes the test is blank,
its checksum field is what is missing to its type, and the adjusted one is zero. -/
theorem adjusted_eq_zero {b0 b1 sum : ℕ} (h0 : b0 < 256) (h1 : b1 < 256)
    (hsum : sum = if 0xfff7 ≤ b0 + 256 * b1 then (b0 + 256 * b1 + 9) % 65536
      else (b0 + 256 * b1 + 8) % 65536) (hdvd : 65535 ∣ 2048 + (b0 * 256 + b1)) : sum = 0 := by
  obtain ⟨k, hk⟩ := hdvd
  obtain rfl : k = 1 := by omega
  obtain rfl : b0 = 247 := by omega
  obtain rfl : b1 = 255 := by omega
  exact hsum

/-- **The message of the answer** is valid if that of the request is, and has a byte to show for it;
`m'` is `m` with the type and the checksum field changed. -/
theorem icmpValid_adjusted {m m' : Mem} {j sum : ℕ}
    (hsum : sum = if 0xfff7 ≤ (m 36).toNat + 256 * (m 37).toNat
      then ((m 36).toNat + 256 * (m 37).toNat + 9) % 65536
      else ((m 36).toNat + 256 * (m 37).toNat + 8) % 65536)
    (hecho : m 34 = ICMP_ECHO) (h34 : m' 34 = ICMP_ECHO_REPLY) (h35 : m' 35 = m 35)
    (h36 : m' 36 = UInt8.ofNat sum) (h37 : m' 37 = UInt8.ofNat (sum / 256))
    (hrest : ∀ a, 38 ≤ a → m' a = m a) :
    IcmpValid m' (2 + (2 + j)) ↔
      IcmpValid m (2 + (2 + j)) ∧ ¬ Blank m (UIP_IPH_LEN + 4 + j) := by
  have hload : m'.load 38 j = m.load 38 j := Mem.load_congr fun i _ => hrest _ (by omega)
  have h0 := (m 36).toNat_lt
  have h1 := (m 37).toNat_lt
  have hreply : ICMP_ECHO_REPLY.toNat = 0 := rfl
  have hreq : ICMP_ECHO.toNat = 8 := rfl
  -- the two sums are the same modulo 65535
  have hdvd : 65535 ∣ wordSum (m'.load Hdr.icmpType (2 + (2 + j))) ↔
      65535 ∣ wordSum (m.load Hdr.icmpType (2 + (2 + j))) := by
    have hlt : sum < 65536 := by
      rw [hsum]
      split_ifs
      · exact Nat.mod_lt _ (by decide)
      · exact Nat.mod_lt _ (by decide)
    have hfield := adjusted_modEq h0 h1 hsum
    rw [wordSum_icmp, wordSum_icmp, hload, h34, h35, h36, h37, toNat_ofNat_div hlt,
      toNat_ofNat_mod, hecho]
    refine Nat.ModEq.dvd_iff ?_ (dvd_refl 65535)
    rw [hreply, hreq]
    calc 0 * 256 + (m 35).toNat + (sum % 256 * 256 + sum / 256) + wordSum (m.load 38 j)
        ≡ 0 * 256 + (m 35).toNat + ((m 36).toNat * 256 + (m 37).toNat + 2048) +
            wordSum (m.load 38 j) [MOD 65535] := (hfield.add_left _).add_right _
      _ = 8 * 256 + (m 35).toNat + ((m 36).toNat * 256 + (m 37).toNat) +
            wordSum (m.load 38 j) := by ring
  -- that of the request is not zero
  have hne : wordSum (m.load Hdr.icmpType (2 + (2 + j))) ≠ 0 := by
    rw [wordSum_icmp, hecho, hreq]
    omega
  -- that of the answer is zero if the request is blank, and not otherwise
  have hblank (hvalid : 65535 ∣ wordSum (m.load Hdr.icmpType (2 + (2 + j)))) :
      wordSum (m'.load Hdr.icmpType (2 + (2 + j))) = 0 ↔ Blank m (UIP_IPH_LEN + 4 + j) := by
    have hsame : Blank m' (UIP_IPH_LEN + 4 + j) ↔ Blank m (UIP_IPH_LEN + 4 + j) := by
      refine and_congr (iff_of_eq (congrArg (· = 0) h35)) (forall₃_congr fun a ha _ => ?_)
      rw [hrest a ha]
    rw [wordSum_icmp_eq_zero_iff, hsame]
    refine ⟨fun h => h.2.2.2, fun hb => ?_⟩
    have hcode : m 35 = 0 := hb.1
    have hdata : wordSum (m.load 38 j) = 0 := by
      refine (wordSum_load_eq_zero_iff _ _ _).mpr fun a h1 h2 => hb.2 a h1 ?_
      have hsize : UIP_LLH_LEN + (UIP_IPH_LEN + 4 + j) = 38 + j := by
        rw [← Nat.add_assoc, ← Nat.add_assoc]
        rfl
      omega
    rw [wordSum_icmp, hecho, hreq, hcode, hdata] at hvalid
    have hzero : sum = 0 := adjusted_eq_zero h0 h1 hsum (by simpa using hvalid)
    rw [h34, h36, h37, hzero]
    exact ⟨rfl, rfl, rfl, hb⟩
  rw [IcmpValid, IcmpValid, chksum_eq_ones_iff, chksum_eq_ones_iff]
  constructor
  · rintro ⟨hpos, hmul⟩
    have hvalid := hdvd.mp hmul
    exact ⟨⟨hne, hvalid⟩, fun hb => hpos ((hblank hvalid).mpr hb)⟩
  · rintro ⟨⟨-, hvalid⟩, hb⟩
    exact ⟨fun hz => hb ((hblank hvalid).mp hz), hdvd.mpr hvalid⟩

/-- **An echo request is turned around.**  Everything but the type, the checksum and the addresses
is as it was; the IP header is valid as that of the request was, and so is the message, but for the
one exception. -/
theorem icmpEcho_turned {u : Stack} {n : ℕ} (hvhl : u.buf Hdr.vhl = 0x45)
    (hlen : num16 u.buf Hdr.len = n)
    (hoffset : u.buf Hdr.ipoffset &&& 0x3f = 0 ∧ u.buf (Hdr.ipoffset + 1) = 0)
    (hdest : word32 u.buf Hdr.destipaddr = uipHostaddr)
    (hsum : uipIpchksum u.buf = ⟨0xff, 0xff⟩) (hproto : u.buf Hdr.proto = UIP_PROTO_ICMP)
    (hecho : u.buf Hdr.icmpType = ICMP_ECHO) : Turned u.buf (icmpEcho u).buf n := by
  set sum := (u.buf Hdr.icmpchksum).toNat + 256 * (u.buf (Hdr.icmpchksum + 1)).toNat with hle
  set sum' := if 0xfff7 ≤ sum then (sum + 9) % 65536 else (sum + 8) % 65536 with hadj
  have hout : (icmpEcho u).buf = ((((u.put Hdr.icmpType [ICMP_ECHO_REPLY]).put Hdr.icmpchksum
      [UInt8.ofNat sum', UInt8.ofNat (sum' / 256)]).put Hdr.destipaddr
      (word32 u.buf Hdr.srcipaddr).toBytes).put Hdr.srcipaddr uipHostaddr.toBytes).buf := by
    unfold icmpEcho
    rw [if_neg (by simpa using hecho)]
    rfl
  generalize hm : (icmpEcho u).buf = m' at hout ⊢
  have hlow : ∀ a, a < 26 → m' a = u.buf a := by
    intro a ha
    rw [hout]
    simp (disch := simp; omega) only [Stack.put_buf_of_lt]
  have hhigh : ∀ a, 38 ≤ a → m' a = u.buf a := by
    intro a ha
    rw [hout]
    simp (disch := simp; omega) only [Stack.put_buf_of_ge]
  have hsrc' : word32 m' Hdr.srcipaddr = uipHostaddr := by rw [hout]; rfl
  have hdest' : word32 m' Hdr.destipaddr = word32 u.buf Hdr.srcipaddr := by rw [hout]; rfl
  have h34 : m' 34 = ICMP_ECHO_REPLY := by rw [hout]; rfl
  have h35 : m' 35 = u.buf 35 := by rw [hout]; rfl
  have h36 : m' 36 = UInt8.ofNat sum' := by rw [hout]; rfl
  have h37 : m' 37 = UInt8.ofNat (sum' / 256) := by rw [hout]; rfl
  have hheader : EchoHeader u.buf m' n := by
    refine ⟨⟨(hlow _ (by decide)).trans hvhl, ?_, ?_, hsrc', ?_⟩,
      (hlow _ (by decide)).trans hproto, hdest'⟩
    · rw [← hlen]
      exact num16_congr (hlow _ (by decide)) (hlow _ (by decide))
    · rw [hlow _ (by decide), hlow _ (by decide)]
      exact hoffset
    · rw [uipIpchksum_valid_iff] at hsum ⊢
      rwa [ipSum_swap (m := u.buf) (Mem.load_congr fun k hk => hlow _ (by omega))
        (congrArg Word32.toBytes (hsrc'.trans hdest.symm)) (congrArg Word32.toBytes hdest')]
  refine ⟨fun a _ h2 _ => hlow a h2, fun _ => hheader, fun hn => ?_⟩
  refine ⟨hheader, h34, h35, fun a h1 _ => hhigh a h1, ?_⟩
  obtain ⟨j, rfl⟩ := Nat.exists_eq_add_of_le hn
  rw [show UIP_IPH_LEN + 4 + j - UIP_IPH_LEN = 2 + (2 + j) by omega]
  exact icmpValid_adjusted hadj hecho h34 h35 h36 h37 hhigh

end Uip
end EgosNet
