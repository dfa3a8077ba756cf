import EgosNet.Uip.Output

/-!
# `uip_process`, up to the application

`uip_process(UIP_DATA)` takes the packet in `uip_buf` through the IP checks, finds
the connection it belongs to, updates that connection, and, when there is
something to report, calls the application.  What it does afterwards depends on
what the application did.

The application is called from seven places and at most once for each packet, so
the function is cut there.  `Verdict` is what the first half comes to: the packet
has been dealt with, or the application is to be called, and `Resume` is the
label at which `uip_process` goes on.  The two halves are put together where the
application is known, in `Service.Httpd`.

Every TCP state is a function of its own (`inSynRcvd`, `inEstablished`, …), as it
is a `case` of its own in the source.
-/

namespace EgosNet
namespace Uip

open Foundation

/-- Where `uip_process` goes on after `UIP_APPCALL`. -/
inductive Resume where
  | appsend
  | drop
  | finack
  | ack
  deriving DecidableEq, Repr

/-- How far a packet, or a poll, gets before the application is called. -/
inductive Verdict where
  /-- Dealt with, and not as part of a connection. -/
  | done (u : Stack)
  /-- A segment of connection `i` that the application need not hear of. -/
  | quiet (i : Slot) (u : Stack)
  /-- A new connection in slot `i`. -/
  | listen (i : Slot) (u : Stack)
  /-- The application is called for connection `i`. -/
  | appcall (i : Slot) (u : Stack) (k : Resume)

/-- The length of the TCP header in words of four bytes. -/
def tcpHeaderWords (m : Mem) : ℕ := (m Hdr.tcpoffset >>> (4 : UInt8)).toNat

/-- `uip_add_rcv_nxt`, the argument truncated to 16 bits. -/
def uipAddRcvNxt (u : Stack) (i : Slot) (n : ℕ) : Stack :=
  u.setConn i { u.conns i with rcvNxt := uipAdd32 (u.conns i).rcvNxt (n % 65536) }

/-! ## New connections -/

/-- The option loop for the maximum segment size, from option byte `c` on.  `c` is
an 8-bit variable, so a length byte can also move it backwards: a loop that has
not ended after 256 rounds has come back to a `c` it has seen and does not end.
`none` is that case; `some none` is a header without the option. -/
def parseMss (m : Mem) (bound : ℕ) : ℕ → ℕ → Option (Option ℕ)
  | 0, _ => none
  | fuel + 1, c =>
    if c < bound then
      if m (Hdr.optdata + c) = TCP_OPT_END then some none
      else if m (Hdr.optdata + c) = TCP_OPT_NOOP then parseMss m bound fuel ((c + 1) % 256)
      else if m (Hdr.optdata + c) = TCP_OPT_MSS ∧ m (Hdr.optdata + 1 + c) = TCP_OPT_MSS_LEN then
        some (some (num16 m (Hdr.optdata + 2 + c)))
      else if m (Hdr.optdata + 1 + c) = 0 then some none
      else parseMss m bound fuel ((c + (m (Hdr.optdata + 1 + c)).toNat) % 256)
    else some none

/-- The slot for a new connection: the first closed one, or else the one that has
been in `TIME_WAIT` for the longest time. -/
def freeSlot (conns : Slot → UipConn) : Option Slot → List Slot → Option Slot
  | best, [] => best
  | best, i :: rest =>
    if (conns i).tcpstateflags = .closed then some i
    else if (conns i).tcpstateflags = .timeWait then
      match best with
      | none => freeSlot conns (some i) rest
      | some b =>
        if (conns b).timer < (conns i).timer then freeSlot conns (some i) rest
        else freeSlot conns best rest
    else freeSlot conns best rest

/-- The connection a `SYN` creates in a slot, but for the segment size, which keeps
the value the slot had until the option is read. -/
def synConn (m : Mem) (c : UipConn) : UipConn :=
  { c with
    rto := UIP_RTO, timer := UIP_RTO, sa := 0, sv := 4, nrtx := 0
    lport := word16 m Hdr.destport
    rport := word16 m Hdr.srcport
    ripaddr := word32 m Hdr.srcipaddr
    tcpstateflags := .synRcvd
    sndNxt := iss
    len := 1
    rcvNxt := uipAdd32 (word32 m Hdr.seqno) 1 }

/-- `found_listen:` open a connection and answer with a `SYNACK`. -/
def foundListen (u : Stack) : Verdict :=
  match freeSlot u.conns none (List.finRange 40) with
  | none => .done (drop u)
  | some i =>
    let words := tcpHeaderWords u.buf
    match if 5 < words then parseMss u.buf ((words - 5) * 4) 256 0 else some none with
    | none => .done (u.raise .hang)
    | some mss =>
      let c := synConn u.buf (u.conns i)
      let c :=
        match mss with
        | none => c
        | some n => { c with initialmss := min n UIP_TCP_MSS, mss := min n UIP_TCP_MSS }
      .listen i (tcpSendSynack (u.setConn i c) i)

/-! ## Segments of a connection -/

/-- The round-trip time estimate, in 8-bit arithmetic. -/
def rttEstimate (c : UipConn) : UipConn :=
  if c.nrtx = 0 then
    let m := c.rto - c.timer
    let m := m - (c.sa >>> 3)
    let sa := c.sa + m
    let m := if 128 ≤ m then 0 - m else m
    let m := m - (c.sv >>> 2)
    let sv := c.sv + m
    { c with sa := sa, sv := sv, rto := (sa >>> 3) + sv }
  else c

/-- The segment acknowledges everything that is outstanding. -/
def acksAll (m : Mem) (c : UipConn) : Bool :=
  m Hdr.flags &&& TCP_ACK ≠ 0 ∧ c.len ≠ 0 ∧ word32 m Hdr.ackno = uipAdd32 c.sndNxt c.len

/-- A connection whose outstanding data has been acknowledged. -/
def ackedConn (c : UipConn) : UipConn :=
  let c := rttEstimate { c with sndNxt := uipAdd32 c.sndNxt c.len }
  { c with timer := c.rto, len := 0 }

/-- Check whether the segment acknowledges outstanding data. -/
def ackInput (u : Stack) (i : Slot) : Stack :=
  if acksAll u.buf (u.conns i) then
    { u.setConn i (ackedConn (u.conns i)) with flags := { ackdata := true } }
  else u

/-- `if(uip_len > 0)`: data is flagged, and will be acknowledged. -/
def noteNewdata (u : Stack) (i : Slot) : Stack :=
  if 0 < u.len then uipAddRcvNxt { u with flags := { u.flags with newdata := true } } i u.len
  else u

/-- In `SYN_RCVD` the acknowledgement of our `SYNACK` establishes the connection,
and may bring data. -/
def inSynRcvd (u : Stack) (i : Slot) : Verdict :=
  if u.flags.ackdata then
    let u := u.setConn i { u.conns i with tcpstateflags := .established, len := 0 }
    let u := noteNewdata { u with flags := { connected := true } } i
    .appcall i { u with slen := 0 } .appsend
  else .quiet i (drop u)

/-- The segment size for the window a segment advertises. -/
def mssForWindow (c : UipConn) (wnd : ℕ) : ℕ :=
  if c.initialmss < wnd ∨ wnd = 0 then c.initialmss else wnd

/-- The segment size follows the window of the peer. -/
def updateMss (u : Stack) (i : Slot) : Stack :=
  u.setConn i { u.conns i with mss := mssForWindow (u.conns i) (num16 u.buf Hdr.wnd) }

/-- The urgent data is skipped, in 16-bit arithmetic. -/
def skipUrgent (u : Stack) : Stack :=
  if u.buf Hdr.flags &&& TCP_URG ≠ 0 then
    { u with
      appdata := u.appdata + num16 u.buf Hdr.urgp
      len := (u.len + 65536 - num16 u.buf Hdr.urgp) % 65536 }
  else u

/-- In `ESTABLISHED` a `FIN` closes the connection from this side too, unless data
is outstanding; otherwise new data and acknowledgements are reported. -/
def inEstablished (u : Stack) (i : Slot) : Verdict :=
  if u.buf Hdr.flags &&& TCP_FIN ≠ 0 then
    if (u.conns i).len ≠ 0 then .quiet i (drop u)
    else
      let u := uipAddRcvNxt u i (1 + u.len)
      let newdata := if 0 < u.len then true else u.flags.newdata
      .appcall i { u with flags := { u.flags with close := true, newdata := newdata } } .finack
  else
    let u := updateMss (noteNewdata (skipUrgent u) i) i
    if u.flags.newdata ∨ u.flags.ackdata then .appcall i { u with slen := 0 } .appsend
    else .quiet i (drop u)

/-- In `LAST_ACK` the acknowledgement of our `FIN` ends the connection. -/
def inLastAck (u : Stack) (i : Slot) : Verdict :=
  if u.flags.ackdata then
    let u := u.setConn i { u.conns i with tcpstateflags := .closed }
    .appcall i { u with flags := { close := true } } .drop
  else .quiet i (drop u)

/-- In `FIN_WAIT_1` we wait for the peer's `FIN` and for the acknowledgement of
ours. -/
def inFinWait1 (u : Stack) (i : Slot) : Verdict :=
  let u := if 0 < u.len then uipAddRcvNxt u i u.len else u
  if u.buf Hdr.flags &&& TCP_FIN ≠ 0 then
    let u :=
      if u.flags.ackdata then
        u.setConn i { u.conns i with tcpstateflags := .timeWait, timer := 0, len := 0 }
      else u.setConn i { u.conns i with tcpstateflags := .closing }
    let u := uipAddRcvNxt u i 1
    .appcall i { u with flags := { close := true } } .ack
  else if u.flags.ackdata then
    .quiet i (drop (u.setConn i { u.conns i with tcpstateflags := .finWait2, len := 0 }))
  else if 0 < u.len then .quiet i (tcpSendAck u i)
  else .quiet i (drop u)

/-- In `FIN_WAIT_2` we wait for the peer's `FIN`. -/
def inFinWait2 (u : Stack) (i : Slot) : Verdict :=
  let u := if 0 < u.len then uipAddRcvNxt u i u.len else u
  if u.buf Hdr.flags &&& TCP_FIN ≠ 0 then
    let u := u.setConn i { u.conns i with tcpstateflags := .timeWait, timer := 0 }
    let u := uipAddRcvNxt u i 1
    .appcall i { u with flags := { close := true } } .ack
  else if 0 < u.len then .quiet i (tcpSendAck u i)
  else .quiet i (drop u)

/-- In `CLOSING` the acknowledgement of our `FIN` is all that is missing. -/
def inClosing (u : Stack) (i : Slot) : Verdict :=
  if u.flags.ackdata then
    .quiet i (drop (u.setConn i { u.conns i with tcpstateflags := .timeWait, timer := 0 }))
  else .quiet i (drop u)

/-- The `switch` on the state of the connection. -/
def byState (u : Stack) (i : Slot) : Verdict :=
  match (u.conns i).tcpstateflags with
  | .synRcvd => inSynRcvd u i
  | .established => inEstablished u i
  | .lastAck => inLastAck u i
  | .finWait1 => inFinWait1 u i
  | .finWait2 => inFinWait2 u i
  | .timeWait => .quiet i (tcpSendAck u i)
  | .closing => inClosing u i
  | .closed => .quiet i (drop u)

/-- The segment takes up sequence space that does not start where it should. -/
def outOfOrder (u : Stack) (i : Slot) : Bool :=
  (0 < u.len ∨ u.buf Hdr.flags &&& (TCP_SYN ||| TCP_FIN) ≠ 0) ∧
    word32 u.buf Hdr.seqno ≠ (u.conns i).rcvNxt

/-- `found:` a segment of the connection in slot `i`.  The length of its data is
computed in 16 bits. -/
def found (u : Stack) (i : Slot) : Verdict :=
  let u := { u with flags := {} }
  if u.buf Hdr.flags &&& TCP_RST ≠ 0 then
    let u := u.setConn i { u.conns i with tcpstateflags := .closed }
    .appcall i { u with flags := { abort := true } } .drop
  else
    let hlen := tcpHeaderWords u.buf * 4
    let u := { u with len := (u.len + 65536 - (hlen + UIP_IPH_LEN)) % 65536 }
    if outOfOrder u i then .quiet i (tcpSendAck u i)
    else byState (ackInput u i) i

/-! ## Packets -/

/-- The connection in this slot is the one the packet belongs to. -/
def isFor (m : Mem) (c : UipConn) : Bool :=
  c.tcpstateflags ≠ .closed ∧ word16 m Hdr.destport = c.lport ∧
    word16 m Hdr.srcport = c.rport ∧ word32 m Hdr.srcipaddr = c.ripaddr

/-- `tcp_input:` find the connection the segment belongs to, or the listening port
a `SYN` is for. -/
def tcpInput (u : Stack) : Verdict :=
  if uipTcpchksum u.buf ≠ ⟨0xff, 0xff⟩ then .done (drop u)
  else
    match (List.finRange 40).find? fun i => isFor u.buf (u.conns i) with
    | some i => found u i
    | none =>
      if u.buf Hdr.flags &&& TCP_CTL ≠ TCP_SYN then .done (reset u)
      else if (List.finRange 40).any fun i => word16 u.buf Hdr.destport = u.listenports i then
        foundListen u
      else .done (reset u)

/-- `uip_process(UIP_DATA)`, up to the application. -/
def uipProcessData (u : Stack) : Verdict :=
  let u := { u with appdata := UIP_IPTCPH_LEN + UIP_LLH_LEN }
  if u.buf Hdr.vhl ≠ 0x45 then .done (drop u)
  else if ¬ num16 u.buf Hdr.len ≤ u.len then .done (drop u)
  else
    let u := { u with len := num16 u.buf Hdr.len }
    if u.buf Hdr.ipoffset &&& 0x3f ≠ 0 ∨ u.buf (Hdr.ipoffset + 1) ≠ 0 then .done (drop u)
    else if word32 u.buf Hdr.destipaddr ≠ uipHostaddr then .done (drop u)
    else if uipIpchksum u.buf ≠ ⟨0xff, 0xff⟩ then .done (drop u)
    else if u.buf Hdr.proto = UIP_PROTO_TCP then tcpInput u
    else if u.buf Hdr.proto = UIP_PROTO_ICMP then .done (icmpEcho u)
    else .done (drop u)

/-- `uip_process(UIP_POLL_REQUEST)` for the connection in slot `i`, up to the
application.  Note that `uip_slen` is not reset. -/
def uipProcessPoll (u : Stack) (i : Slot) : Verdict :=
  let u := { u with appdata := UIP_IPTCPH_LEN + UIP_LLH_LEN }
  if (u.conns i).tcpstateflags = .established ∧ (u.conns i).len = 0 then
    .appcall i { u with flags := { poll := true } } .appsend
  else .done (drop u)

/-! ## After the application -/

/-- `apprexmit:` send what the application wants sent, or acknowledge new data. -/
def apprexmit (u : Stack) (i : Slot) : Stack :=
  let u := { u with appdata := UIP_IPTCPH_LEN + UIP_LLH_LEN }
  if 0 < u.slen ∧ 0 < (u.conns i).len then
    let u := { u with len := ((u.conns i).len + UIP_IPTCPH_LEN) % 65536 }
    tcpSendNoopts (u.put Hdr.flags [TCP_ACK ||| TCP_PSH]) i
  else if u.flags.newdata then
    let u := { u with len := UIP_IPTCPH_LEN }
    tcpSendNoopts (u.put Hdr.flags [TCP_ACK]) i
  else drop u

/-- The application has data: send at most a segment of it, and exactly as much as
before if it is already in transit. -/
def takeData (u : Stack) (i : Slot) : Stack :=
  if 0 < u.slen then
    let c := u.conns i
    let c := if u.flags.ackdata then { c with len := 0 } else c
    if c.len = 0 then
      let n := min u.slen c.mss
      { u.setConn i { c with len := n } with slen := n }
    else { u.setConn i c with slen := c.len }
  else u

/-- `appsend:` do what the application asked for. -/
def appsend (u : Stack) (i : Slot) : Stack :=
  if u.flags.abort then
    let u := { u with slen := 0 }
    let u := u.setConn i { u.conns i with tcpstateflags := .closed }
    tcpSendNodata (u.put Hdr.flags [TCP_RST ||| TCP_ACK]) i
  else if u.flags.close then
    let u := { u with slen := 0 }
    let u := u.setConn i { u.conns i with len := 1, tcpstateflags := .finWait1, nrtx := 0 }
    tcpSendNodata (u.put Hdr.flags [TCP_FIN ||| TCP_ACK]) i
  else
    let u := takeData u i
    let u := u.setConn i { u.conns i with nrtx := 0 }
    apprexmit u i

/-- The rest of `uip_process`, from the label the call returns to. -/
def Resume.run (u : Stack) (i : Slot) : Resume → Stack
  | .appsend => Uip.appsend u i
  | .drop => Uip.drop u
  | .finack =>
    let u := u.setConn i { u.conns i with len := 1, tcpstateflags := .lastAck, nrtx := 0 }
    tcpSendNodata (u.put Hdr.flags [TCP_FIN ||| TCP_ACK]) i
  | .ack => tcpSendAck u i

end Uip
end EgosNet
