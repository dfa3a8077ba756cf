import EgosNet.Foundation.Memory
import EgosNet.Foundation.Words
import Mathlib.Data.Fin.Basic
import Mathlib.Data.List.FinRange
import Mathlib.Tactic.Linarith

/-!
# The state of uIP

The variables of `library/uip/uip.c` as the service configures it
(`uip-conf.h`, `uipopt.h`): forty connection slots, forty listening ports, one
packet buffer of `UIP_BUFSIZE + 2` bytes that holds the incoming and then the
outgoing packet, and the handful of globals through which `uip_process` and the
application talk.

What the configuration compiles out is not here: no UDP, no reassembly, no urgent
data buffer, no IPv6.  Neither is what nothing in the service calls: the service
never opens a connection itself (`uip_connect`, and with it the state `SYN_SENT`),
never stops one (`uip_stop`, the flag `UIP_STOPPED`), and never runs the periodic
timer (`UIP_TIMER`), so the initial sequence number stays what it is at start-up.

Multi-byte header fields and the connection fields copied from them are kept as
the bytes they are on the wire (`Word16`, `Word32`), so that copying a field is
copying bytes and comparing ports or addresses is comparing bytes.
-/

namespace EgosNet
namespace Uip

open Foundation

def UIP_CONNS : ℕ := 40
def UIP_LISTENPORTS : ℕ := 40
def UIP_BUFSIZE : ℕ := 420
def UIP_LLH_LEN : ℕ := 14
def UIP_IPH_LEN : ℕ := 20
def UIP_TCPH_LEN : ℕ := 20
def UIP_IPTCPH_LEN : ℕ := UIP_TCPH_LEN + UIP_IPH_LEN
def UIP_TCP_MSS : ℕ := UIP_BUFSIZE - UIP_LLH_LEN - UIP_IPTCPH_LEN
def UIP_RECEIVE_WINDOW : ℕ := UIP_TCP_MSS
def UIP_RTO : UInt8 := 3
def UIP_TTL : UInt8 := 64

def UIP_PROTO_ICMP : UInt8 := 1
def UIP_PROTO_TCP : UInt8 := 6

def TCP_FIN : UInt8 := 0x01
def TCP_SYN : UInt8 := 0x02
def TCP_RST : UInt8 := 0x04
def TCP_PSH : UInt8 := 0x08
def TCP_ACK : UInt8 := 0x10
def TCP_URG : UInt8 := 0x20
def TCP_CTL : UInt8 := 0x3f

def TCP_OPT_END : UInt8 := 0
def TCP_OPT_NOOP : UInt8 := 1
def TCP_OPT_MSS : UInt8 := 2
def TCP_OPT_MSS_LEN : UInt8 := 4

def ICMP_ECHO_REPLY : UInt8 := 0
def ICMP_ECHO : UInt8 := 8

/-- The address `main` of the service gives this host, the default router and the
network mask. -/
def uipHostaddr : Word32 := ⟨10, 0, 2, 15⟩
def uipDraddr : Word32 := ⟨10, 0, 2, 2⟩
def uipNetmask : Word32 := ⟨255, 255, 255, 0⟩

/-- The initial sequence number; only the periodic timer changes it. -/
def iss : Word32 := ⟨0, 0, 0, 0⟩

/-- `HTONS`: the two bytes of a 16-bit number in network order.  An `int` argument
is truncated to 16 bits first. -/
def HTONS (n : ℤ) : Word16 := Word16.ofNat (n % 65536).toNat

/-! ## Connections -/

/-- The TCP states of `tcpstateflags`. -/
inductive TcpState where
  | closed | synRcvd | established | finWait1 | finWait2 | closing | timeWait | lastAck
  deriving DecidableEq, Repr

/-- `struct uip_conn`. -/
structure UipConn where
  ripaddr : Word32 := ⟨0, 0, 0, 0⟩
  lport : Word16 := ⟨0, 0⟩
  rport : Word16 := ⟨0, 0⟩
  rcvNxt : Word32 := ⟨0, 0, 0, 0⟩
  sndNxt : Word32 := ⟨0, 0, 0, 0⟩
  len : ℕ := 0
  mss : ℕ := 0
  initialmss : ℕ := 0
  sa : UInt8 := 0
  sv : UInt8 := 0
  rto : UInt8 := 0
  tcpstateflags : TcpState := .closed
  timer : UInt8 := 0
  nrtx : UInt8 := 0
  deriving DecidableEq, Repr

/-- An index into `uip_conns`. -/
abbrev Slot := Fin 40

/-- `uip_flags`, one field for each bit. -/
structure UipFlags where
  ackdata : Bool := false
  newdata : Bool := false
  rexmit : Bool := false
  poll : Bool := false
  close : Bool := false
  abort : Bool := false
  connected : Bool := false
  timedout : Bool := false
  deriving DecidableEq, Repr

/-- How the service may stop: a copy past the end of an array, an `ASSERT` that
fails, or a loop that does not end. -/
inductive Fault where
  | overrun
  | assertion
  | hang
  deriving DecidableEq, Repr

/-- The globals of uIP.

`buf` is the memory from the start of `uip_buf` on, so a read past the end of the
array is a read of what follows it.  `appdata` is `uip_appdata` as an offset into
`buf`.  `fault` is not a variable of the source: it records the first fault, after
which nothing the model computes is a behaviour of the program. -/
structure Stack where
  buf : Mem
  len : ℕ := 0
  slen : ℕ := 0
  appdata : ℕ := 0
  flags : UipFlags := {}
  conns : Slot → UipConn
  listenports : Slot → Word16
  ipid : ℕ := 0
  fault : Option Fault := none

/-- The state after `uip_init`. -/
def uipInit : Stack where
  buf _ := 0
  conns _ := {}
  listenports _ := ⟨0, 0⟩

namespace Stack

variable (u : Stack)

/-- Replace one connection. -/
def setConn (i : Slot) (c : UipConn) : Stack := { u with conns := Function.update u.conns i c }

/-- Store bytes in `uip_buf`. -/
def put (off : ℕ) (bytes : List UInt8) : Stack := { u with buf := u.buf.store off bytes }

/-- Record a fault, unless there is one already. -/
def raise (f : Fault) : Stack := { u with fault := u.fault <|> some f }

@[simp] theorem setConn_conns_self (i : Slot) (c : UipConn) : (u.setConn i c).conns i = c := by
  simp [setConn]

theorem setConn_conns_of_ne {i j : Slot} (h : j ≠ i) (c : UipConn) :
    (u.setConn i c).conns j = u.conns j := by
  simp [setConn, h]

@[simp] theorem setConn_flags (i : Slot) (c : UipConn) : (u.setConn i c).flags = u.flags := rfl

theorem put_buf_of_lt {off a : ℕ} (h : a < off) (bs : List UInt8) :
    (u.put off bs).buf a = u.buf a :=
  Mem.store_apply_of_lt h

theorem put_buf_of_ge {off a : ℕ} {bs : List UInt8} (h : off + bs.length ≤ a) :
    (u.put off bs).buf a = u.buf a :=
  Mem.store_apply_of_ge h

theorem put_buf_self (off : ℕ) (b : UInt8) : (u.put off [b]).buf off = b := by
  simp [put, Mem.store]

@[simp] theorem put_conns (off : ℕ) (bs : List UInt8) : (u.put off bs).conns = u.conns := rfl
@[simp] theorem put_len (off : ℕ) (bs : List UInt8) : (u.put off bs).len = u.len := rfl

end Stack

/-! ## The header fields of the packet in `uip_buf`

`struct uip_tcpip_hdr` starts at `UIP_LLH_LEN`.  The names are its fields, the
values their offsets in `uip_buf`. -/

namespace Hdr

@[simp] def vhl : ℕ := 14
@[simp] def tos : ℕ := 15
@[simp] def len : ℕ := 16
@[simp] def ipid : ℕ := 18
@[simp] def ipoffset : ℕ := 20
@[simp] def ttl : ℕ := 22
@[simp] def proto : ℕ := 23
@[simp] def ipchksum : ℕ := 24
@[simp] def srcipaddr : ℕ := 26
@[simp] def destipaddr : ℕ := 30
@[simp] def srcport : ℕ := 34
@[simp] def destport : ℕ := 36
@[simp] def seqno : ℕ := 38
@[simp] def ackno : ℕ := 42
@[simp] def tcpoffset : ℕ := 46
@[simp] def flags : ℕ := 47
@[simp] def wnd : ℕ := 48
@[simp] def tcpchksum : ℕ := 50
@[simp] def urgp : ℕ := 52
@[simp] def optdata : ℕ := 54
@[simp] def icmpType : ℕ := 34
@[simp] def icmpchksum : ℕ := 36

end Hdr

/-- A two-byte field. -/
def word16 (m : Mem) (off : ℕ) : Word16 := ⟨m off, m (off + 1)⟩

/-- A four-byte field. -/
def word32 (m : Mem) (off : ℕ) : Word32 := ⟨m off, m (off + 1), m (off + 2), m (off + 3)⟩

/-- A 16-bit number sent as its high and its low byte. -/
def num16 (m : Mem) (off : ℕ) : ℕ := (m off).toNat * 256 + (m (off + 1)).toNat

/-- The two bytes of a 16-bit number, high byte first. -/
def bytes16 (n : ℕ) : List UInt8 := (Word16.ofNat n).toBytes

@[simp] theorem length_bytes16 (n : ℕ) : (bytes16 n).length = 2 := rfl

/-! ## 32-bit addition

`uip_add32` adds a 16-bit number to a big-endian 32-bit one byte by byte. -/

/-- `++` on the high bytes after a carry out of the byte below. -/
def carry2 (b1 b0 : UInt8) : UInt8 × UInt8 :=
  let b1 := b1 + 1
  if b1 = 0 then (b1, b0 + 1) else (b1, b0)

def uipAdd32 (op32 : Word32) (op16 : ℕ) : Word32 :=
  let lo := UInt8.ofNat op16
  let hi := UInt8.ofNat (op16 / 256)
  let a3 := op32.b3 + lo
  let a2 := op32.b2 + hi
  let (a1, a0) := if a2 < hi then carry2 op32.b1 op32.b0 else (op32.b1, op32.b0)
  if a3 < lo then
    let a2 := a2 + 1
    if a2 = 0 then
      let (a1, a0) := carry2 a1 a0
      ⟨a0, a1, a2, a3⟩
    else ⟨a0, a1, a2, a3⟩
  else ⟨a0, a1, a2, a3⟩

/-- Adding bytes wraps around exactly when the sum is below an operand. -/
theorem byte_add (x y : UInt8) :
    (x + y < y ∧ (x + y).toNat + 256 = x.toNat + y.toNat) ∨
      (¬ x + y < y ∧ (x + y).toNat = x.toNat + y.toNat) := by
  have hx := x.toNat_lt
  have hy := y.toNat_lt
  rw [UInt8.lt_iff_toNat_lt, UInt8.toNat_add]
  omega

theorem byte_succ (x : UInt8) :
    (x + 1 = 0 ∧ x.toNat = 255) ∨ (x + 1 ≠ 0 ∧ (x + 1).toNat = x.toNat + 1) := by
  have hx := x.toNat_lt
  have hs : (x + 1).toNat = (x.toNat + 1) % 256 := UInt8.toNat_add x 1
  rw [ne_eq, ← UInt8.toNat_inj, UInt8.toNat_zero, hs]
  by_cases h : x.toNat = 255
  · exact Or.inl ⟨by omega, h⟩
  · exact Or.inr ⟨by omega, by omega⟩

/-- The carry goes into the high half, which wraps around. -/
theorem carry2_toNat (b1 b0 : UInt8) :
    ∃ k, b0.toNat * 256 + b1.toNat + 1 =
      (carry2 b1 b0).2.toNat * 256 + (carry2 b1 b0).1.toNat + 65536 * k := by
  simp only [carry2]
  rcases byte_succ b1 with ⟨h, hb1⟩ | ⟨h, hb1⟩
  · rcases byte_succ b0 with ⟨h', hb0⟩ | ⟨h', hb0⟩
    · exact ⟨1, by simp [h, h', hb1, hb0]⟩
    · refine ⟨0, ?_⟩
      simp only [h, if_true, UInt8.toNat_zero, hb0]
      omega
  · refine ⟨0, ?_⟩
    simp only [h, if_false, hb1]
    omega

/-- **`uip_add32` is addition modulo `2 ^ 32`.** -/
theorem toNat_uipAdd32 (w : Word32) {n : ℕ} (hn : n < 65536) :
    (uipAdd32 w n).toNat = (w.toNat + n) % 2 ^ 32 := by
  obtain ⟨b0, b1, b2, b3⟩ := w
  have h2 := b2.toNat_lt
  have hlo : (UInt8.ofNat n).toNat = n % 256 := by simp
  have hhi : (UInt8.ofNat (n / 256)).toNat = n / 256 := by
    simp only [UInt8.toNat_ofNat']
    omega
  have hhi' := (UInt8.ofNat (n / 256)).toNat_lt
  have hn' : n = (UInt8.ofNat (n / 256)).toNat * 256 + (UInt8.ofNat n).toNat := by omega
  -- it is enough that the two sides differ by a multiple of `2 ^ 32`
  suffices hmod : ∃ k, (⟨b0, b1, b2, b3⟩ : Word32).toNat + n =
      (uipAdd32 ⟨b0, b1, b2, b3⟩ n).toNat + 2 ^ 32 * k by
    obtain ⟨k, hk⟩ := hmod
    rw [hk, Nat.add_mul_mod_self_left, Nat.mod_eq_of_lt (Word32.toNat_lt _)]
  simp only [uipAdd32]
  generalize UInt8.ofNat n = lo at *
  generalize UInt8.ofNat (n / 256) = hi at *
  clear hlo hhi hn
  subst hn'
  obtain ⟨k, hc⟩ := carry2_toNat b1 b0
  have e3 := byte_add b3 lo
  have e2 := byte_add b2 hi
  have es := byte_succ (b2 + hi)
  generalize b3 + lo = s3 at *
  generalize b2 + hi = s2 at *
  generalize s2 + 1 = s2' at *
  obtain ⟨hl, e3⟩ | ⟨hl, e3⟩ := e3
  · obtain ⟨hh, e2⟩ | ⟨hh, e2⟩ := e2
    · obtain ⟨hs, es⟩ | ⟨hs, es⟩ := es
      · omega
      · refine ⟨k, ?_⟩
        simp only [hl, hh, hs, if_true, if_false, Word32.toNat]
        linarith
    · obtain ⟨hs, es⟩ | ⟨hs, es⟩ := es
      · refine ⟨k, ?_⟩
        simp only [hl, hh, hs, if_true, if_false, Word32.toNat, UInt8.toNat_zero]
        linarith
      · refine ⟨0, ?_⟩
        simp only [hl, hh, hs, if_true, if_false, Word32.toNat]
        linarith
  · obtain ⟨hh, e2⟩ | ⟨hh, e2⟩ := e2
    · refine ⟨k, ?_⟩
      simp only [hl, hh, if_true, if_false, Word32.toNat]
      linarith
    · refine ⟨0, ?_⟩
      simp only [hl, hh, if_false, Word32.toNat]
      linarith

/-! ## Checksums -/

/-- One step of the ones'-complement sum: add a 16-bit word and wrap the carry
around. -/
def addCarry (sum t : ℕ) : ℕ :=
  let sum := (sum + t) % 65536
  if sum < t then (sum + 1) % 65536 else sum

/-- `chksum`. -/
def chksum (sum : ℕ) : List UInt8 → ℕ
  | [] => sum
  | [x] => addCarry sum (x.toNat * 256)
  | x :: y :: rest => chksum (addCarry sum (x.toNat * 256 + y.toNat)) rest

/-- What `uip_ipchksum` and `upper_layer_chksum` return for a sum. -/
def chksumResult (sum : ℕ) : Word16 := if sum = 0 then ⟨0xff, 0xff⟩ else Word16.ofNat sum

/-- `uip_ipchksum`. -/
def uipIpchksum (m : Mem) : Word16 := chksumResult (chksum 0 (m.load UIP_LLH_LEN UIP_IPH_LEN))

/-- `uip_tcpchksum`, that is `upper_layer_chksum(UIP_PROTO_TCP)`.  The length is
computed in 16 bits, so an IP length below the header's own wraps around. -/
def uipTcpchksum (m : Mem) : Word16 :=
  let upperLayerLen := (num16 m Hdr.len + 65536 - UIP_IPH_LEN) % 65536
  let sum := (upperLayerLen + UIP_PROTO_TCP.toNat) % 65536
  let sum := chksum sum (m.load Hdr.srcipaddr 8)
  let sum := chksum sum (m.load (UIP_IPH_LEN + UIP_LLH_LEN) upperLayerLen)
  chksumResult sum

end Uip
end EgosNet
