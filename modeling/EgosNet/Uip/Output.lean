import EgosNet.Uip.State

/-!
# Building the outgoing packet

The second half of `uip_process`: the labels through which every reply leaves.
Each label is a function under the label's name, and a `goto` is a call, so the
chain

    tcp_send_ack → tcp_send_nodata → tcp_send_noopts → tcp_send → tcp_send_noconn
      → ip_send_nolen → send

reads here as it does in the source.  All of them work on the packet in place.

What the rest of the development needs from the chain is collected at the end:
the reply is written into the header and nowhere else (`tcpSend_buf_of_ge`), and
its fields are what the connection says (`tcpSend_seqno` and the others).
-/

namespace EgosNet
namespace Uip

open Foundation

/-- `drop:` no packet goes out. -/
def drop (u : Stack) : Stack := { u with len := 0, flags := {} }

/-- `send:` the packet in `uip_buf` goes out. -/
def send (u : Stack) : Stack := { u with flags := {} }

/-- `ip_send_nolen:` complete the IP header. -/
def ipSendNolen (u : Stack) : Stack :=
  let u := u.put Hdr.vhl [0x45, 0]
  let u := u.put Hdr.ipoffset [0, 0]
  let u := { u with ipid := (u.ipid + 1) % 65536 }
  let u := u.put Hdr.ipid (bytes16 u.ipid)
  let u := u.put Hdr.ipchksum [0, 0]
  let u := u.put Hdr.ipchksum (uipIpchksum u.buf).compl.toBytes
  send u

/-- `tcp_send_noconn:` complete the TCP header. -/
def tcpSendNoconn (u : Stack) : Stack :=
  let u := u.put Hdr.ttl [UIP_TTL]
  let u := u.put Hdr.len (bytes16 u.len)
  let u := u.put Hdr.urgp [0, 0]
  let u := u.put Hdr.tcpchksum [0, 0]
  let u := u.put Hdr.tcpchksum (uipTcpchksum u.buf).compl.toBytes
  ipSendNolen u

/-- `tcp_send:` fill in what the connection determines. -/
def tcpSend (u : Stack) (i : Slot) : Stack :=
  let c := u.conns i
  let u := u.put Hdr.ackno c.rcvNxt.toBytes
  let u := u.put Hdr.seqno c.sndNxt.toBytes
  let u := u.put Hdr.proto [UIP_PROTO_TCP]
  let u := u.put Hdr.srcport c.lport.toBytes
  let u := u.put Hdr.destport c.rport.toBytes
  let u := u.put Hdr.srcipaddr uipHostaddr.toBytes
  let u := u.put Hdr.destipaddr c.ripaddr.toBytes
  let u := u.put Hdr.wnd (bytes16 UIP_RECEIVE_WINDOW)
  tcpSendNoconn u

/-- `tcp_send_noopts:` a header without options. -/
def tcpSendNoopts (u : Stack) (i : Slot) : Stack := tcpSend (u.put Hdr.tcpoffset [0x50]) i

/-- `tcp_send_nodata:` a header alone. -/
def tcpSendNodata (u : Stack) (i : Slot) : Stack :=
  tcpSendNoopts { u with len := UIP_IPTCPH_LEN } i

/-- `tcp_send_ack:` a bare acknowledgement. -/
def tcpSendAck (u : Stack) (i : Slot) : Stack :=
  tcpSendNodata (u.put Hdr.flags [TCP_ACK]) i

/-- `tcp_send_synack:` and `tcp_send_syn:` the answer to a `SYN`, with our maximum
segment size. -/
def tcpSendSynack (u : Stack) (i : Slot) : Stack :=
  let u := u.put Hdr.flags [TCP_ACK ||| TCP_SYN]
  let u := u.put Hdr.optdata
    [TCP_OPT_MSS, TCP_OPT_MSS_LEN, UInt8.ofNat (UIP_TCP_MSS / 256), UInt8.ofNat UIP_TCP_MSS]
  let u := { u with len := UIP_IPTCPH_LEN + TCP_OPT_MSS_LEN.toNat }
  let u := u.put Hdr.tcpoffset [0x60]
  tcpSend u i

/-- `++` on the four bytes of a big-endian number. -/
def incr32 (w : Word32) : Word32 :=
  if w.b3 + 1 = 0 then
    if w.b2 + 1 = 0 then
      if w.b1 + 1 = 0 then ⟨w.b0 + 1, w.b1 + 1, w.b2 + 1, w.b3 + 1⟩
      else ⟨w.b0, w.b1 + 1, w.b2 + 1, w.b3 + 1⟩
    else ⟨w.b0, w.b1, w.b2 + 1, w.b3 + 1⟩
  else ⟨w.b0, w.b1, w.b2, w.b3 + 1⟩

/-- `reset:` answer a segment that belongs to no connection with a `RST`, except
when it is a `RST` itself. -/
def reset (u : Stack) : Stack :=
  if u.buf Hdr.flags &&& TCP_RST ≠ 0 then drop u
  else
    let seqno := word32 u.buf Hdr.seqno
    let ackno := word32 u.buf Hdr.ackno
    let srcport := word16 u.buf Hdr.srcport
    let destport := word16 u.buf Hdr.destport
    let srcipaddr := word32 u.buf Hdr.srcipaddr
    let u := u.put Hdr.flags [TCP_RST ||| TCP_ACK]
    let u := { u with len := UIP_IPTCPH_LEN }
    let u := u.put Hdr.tcpoffset [0x50]
    let u := u.put Hdr.seqno ackno.toBytes
    let u := u.put Hdr.ackno (incr32 seqno).toBytes
    let u := u.put Hdr.srcport destport.toBytes
    let u := u.put Hdr.destport srcport.toBytes
    let u := u.put Hdr.destipaddr srcipaddr.toBytes
    let u := u.put Hdr.srcipaddr uipHostaddr.toBytes
    tcpSendNoconn u

/-- An ICMP echo request is answered in place: the type changes, the checksum is
adjusted for it, and the addresses are swapped. -/
def icmpEcho (u : Stack) : Stack :=
  if u.buf Hdr.icmpType ≠ ICMP_ECHO then drop u
  else
    -- the checksum as the little-endian number the source compares and adds to
    let sum := (u.buf Hdr.icmpchksum).toNat + 256 * (u.buf (Hdr.icmpchksum + 1)).toNat
    let sum := if 0xfff7 ≤ sum then (sum + 9) % 65536 else (sum + 8) % 65536
    let srcipaddr := word32 u.buf Hdr.srcipaddr
    let u := u.put Hdr.icmpType [ICMP_ECHO_REPLY]
    let u := u.put Hdr.icmpchksum [UInt8.ofNat sum, UInt8.ofNat (sum / 256)]
    let u := u.put Hdr.destipaddr srcipaddr.toBytes
    let u := u.put Hdr.srcipaddr uipHostaddr.toBytes
    send u

/-! ## What a reply leaves alone -/

theorem reset_conns (u : Stack) : (reset u).conns = u.conns := by
  unfold reset
  split <;> rfl

theorem icmpEcho_conns (u : Stack) : (icmpEcho u).conns = u.conns := by
  unfold icmpEcho
  split <;> rfl

/-! ## What a reply says

The TCP header ends before byte 54.  Its last four bytes and the IP header are
completed in `tcp_send_noconn`, the rest is written by `tcp_send`. -/

section Packet

variable (u : Stack) (i : Slot) {a : ℕ}

theorem ipSendNolen_buf (h : 26 ≤ a) : (ipSendNolen u).buf a = u.buf a := by
  simp (disch := simp; omega) only [ipSendNolen, send, Stack.put_buf_of_ge]

theorem tcpSendNoconn_buf (h : 26 ≤ a) (h' : a < 50 ∨ 54 ≤ a) :
    (tcpSendNoconn u).buf a = u.buf a := by
  simp only [tcpSendNoconn, ipSendNolen_buf _ h]
  rcases h' with h' | h'
  · simp (disch := simp; omega) only [Stack.put_buf_of_lt, Stack.put_buf_of_ge]
  · simp (disch := simp; omega) only [Stack.put_buf_of_ge]

/-- The data is where it was. -/
theorem tcpSend_buf_of_ge (h : 54 ≤ a) : (tcpSend u i).buf a = u.buf a := by
  have h26 : 26 ≤ a := by omega
  simp only [tcpSend, tcpSendNoconn_buf _ h26 (Or.inr h)]
  simp (disch := simp; omega) only [Stack.put_buf_of_ge]

/-- The sequence number is the connection's. -/
theorem tcpSend_seqno : word32 (tcpSend u i).buf Hdr.seqno = (u.conns i).sndNxt := by
  simp only [word32, Hdr.seqno, Nat.reduceAdd, tcpSend]
  rw [tcpSendNoconn_buf _ (by decide) (by decide), tcpSendNoconn_buf _ (by decide) (by decide),
    tcpSendNoconn_buf _ (by decide) (by decide), tcpSendNoconn_buf _ (by decide) (by decide)]
  rfl

/-- The flags and the header length are those written before. -/
theorem tcpSend_flags : (tcpSend u i).buf Hdr.flags = u.buf Hdr.flags := by
  simp only [tcpSend]
  rw [tcpSendNoconn_buf _ (by decide) (by decide)]
  rfl

theorem tcpSend_tcpoffset : (tcpSend u i).buf Hdr.tcpoffset = u.buf Hdr.tcpoffset := by
  simp only [tcpSend]
  rw [tcpSendNoconn_buf _ (by decide) (by decide)]
  rfl

end Packet

end Uip
end EgosNet
