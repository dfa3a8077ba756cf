import EgosNet.Service.Httpd
import EgosNet.Uip.Arp
import EgosNet.Foundation.Run

/-!
# The network service

`apps/system/sys_net.c`: the process that owns uIP and the network card and serves
the socket requests of the others.  It is a loop that receives a request, handles
it and replies, so its runs are sequences of requests; every socket request but
`NET_SOCK_LISTEN` first takes at most one frame from the card (`net_poll`).

A step of the model is one request together with the frame, if any, that is
waiting when it is handled.  `step` is a function of the two, and `none` where the
program itself has no further behaviour to speak of: a copy beyond the end of an
array, a failed `ASSERT`, or a loop that does not end.

The socket variables come twice, `sock_*` here and `httpd_socket_*` in the bridge,
and `sync_socket_state` copies the second over the first after every frame and
every poll of a connection.  The two sets need not agree in between.

`earth->net_send` is taken at its interface: it asserts that the length is in
range and hands the bytes to the card.  What becomes of them in the ring is
`Earth.TxRing`.
-/

namespace EgosNet
namespace Service

open Foundation Uip

def NET_BUF_SIZE : ℕ := 512
def NET_CONN_NONE : ℤ := -1
def E1000_TX_BUF_SIZE : ℕ := 2048
def E1000_RX_BUF_SIZE : ℕ := 2048

/-! ## State, requests and replies -/

/-- The static variables of `sys_net.c`. -/
structure Sock where
  listenPort : ℤ := -1
  connId : ℤ := 1
  connOpen : Bool := false
  connPending : Bool := false
  connClosed : Bool := false
  rxBuf : Mem := fun _ => 0
  rxLen : ℕ := 0
  txBuf : Mem := fun _ => 0
  txLen : ℕ := 0
  txPending : Bool := false

/-- The state of the service. -/
structure Net where
  uip : Stack
  arp : ArpTable
  httpd : Httpd
  sock : Sock

/-- The state when `main` enters its loop. -/
def Net.init : Net where
  uip := uipInit
  arp := uipArpInit
  httpd := {}
  sock := {}

/-- `struct net_request`, with the fields each request type uses. -/
inductive Request where
  | netSend (length : ℤ) (buf : Mem)
  | netRecv
  | sockListen (port : ℤ)
  | sockAccept
  | sockRecv (connId length : ℤ)
  | sockSend (connId length : ℤ) (buf : Mem)
  | sockClose (connId : ℤ)

inductive NetStatus where
  | ok | error | wouldBlock | closed | invalid
  deriving DecidableEq, Repr

/-- `struct net_reply`, with the bytes the handler put into it. -/
structure Reply where
  status : NetStatus
  connId : ℤ
  length : ℤ
  buf : List UInt8 := []
  deriving DecidableEq, Repr

/-- What the card has when it is asked: a frame, empty if there is none.  `beyond`
is the memory past the end of `uip_buf`, which uIP can be made to read. -/
structure Rx where
  frame : List UInt8 := []
  beyond : Mem := fun _ => 0

/-- A request and what arrives while it is handled. -/
structure Input where
  request : Request
  rx : Rx := {}

/-- What a step shows: the request, what happened, in order, and then the reply. -/
structure Outcome where
  request : Request
  events : List Event
  reply : Reply

/-- The request polls the card. -/
def polling : Request → Bool
  | .sockAccept | .sockRecv _ _ | .sockSend _ _ _ | .sockClose _ => true
  | _ => false

/-- The step is a `sock_accept` that answers `NET_OK`. -/
def isAccept (o : Outcome) : Bool :=
  match o.request, o.reply.status with
  | .sockAccept, .ok => true
  | _, _ => false

/-- The value of the status in `enum net_status`. -/
def NetStatus.code : NetStatus → ℤ
  | .ok => 0
  | .error => 1
  | .wouldBlock => 2
  | .closed => 3
  | .invalid => 4

/-- What `sock_send` of `library/syscall/servers.c` returns for a reply. -/
def sockSend (length : ℤ) (reply : Reply) : ℤ :=
  if reply.status = .ok then length else -reply.status.code

/-- The payload for which `sock_send` returns a positive count, cut to that count. -/
def payloadOf (o : Outcome) : Option (List UInt8) :=
  match o.request with
  | .sockSend _ length buf =>
    if 0 < sockSend length o.reply then some (buf.load 0 (sockSend length o.reply).toNat) else none
  | _ => none

/-! ## Frames -/

/-- Record a fault. -/
def Net.raise (n : Net) (f : Fault) : Net := { n with uip := n.uip.raise f }

/-- `earth->net_send`. -/
def earthNetSend (n : Net) (length : ℤ) (packet : Mem) : Net × List Event :=
  if 0 < length ∧ length ≤ E1000_TX_BUF_SIZE then (n, [.netSend (packet.load 0 length.toNat)])
  else (n.raise .assertion, [])

/-- `earth->net_recv` into `uip_buf`, when there is a frame. -/
def earthNetRecv (u : Stack) (rx : Rx) : Stack :=
  let u := if rx.frame.length ≤ E1000_RX_BUF_SIZE then u else u.raise .assertion
  let u := if rx.frame.length ≤ uipBufLen then u else u.raise .overrun
  { u with
    buf := fun a => if a < uipBufLen then u.buf.store 0 rx.frame a else rx.beyond a
    len := rx.frame.length }

/-- `uip_arp_out` and `net_send`, if there is a packet. -/
def sendPacket (n : Net) : Net × List Event :=
  if 0 < n.uip.len then
    let n := { n with uip := uipArpOut n.uip n.arp }
    earthNetSend n n.uip.len n.uip.buf
  else (n, [])

/-- `uip_process` and the packet that comes out of it. -/
def process (n : Net) (v : Verdict) : Net × List Event :=
  let ((u, h), ev) := complete n.httpd v
  let (n, ev') := sendPacket { n with uip := u, httpd := h }
  (n, ev ++ ev')

/-- `sync_socket_state`. -/
def syncSocketState (n : Net) : Net :=
  let n := { n with
    sock := { n.sock with
      connOpen := n.httpd.connOpen
      connPending := n.httpd.connPending
      connClosed := n.httpd.connClosed
      txPending := n.httpd.txPending } }
  if 0 < n.httpd.rxLen then
    let rxLen := min n.httpd.rxLen NET_BUF_SIZE
    { n with
      sock := { n.sock with
        rxLen := rxLen
        rxBuf := n.sock.rxBuf.store 0 (n.httpd.rxBuf.load 0 rxLen) }
      httpd := { n.httpd with rxLen := 0 } }
  else n

/-- The ARP branch of `net_poll`. -/
def arpInput (n : Net) : Net × List Event :=
  let (u, t) := uipArpArpin n.uip n.arp
  let n := { n with uip := u, arp := t }
  if 0 < n.uip.len then earthNetSend n n.uip.len n.uip.buf else (n, [])

/-- The frame in `uip_buf`, by its Ethernet type. -/
def frameInput (n : Net) : Net × List Event :=
  if word16 n.uip.buf ArpHdr.type = HTONS UIP_ETHTYPE_IP then process n (uipProcessData n.uip)
  else if word16 n.uip.buf ArpHdr.type = HTONS UIP_ETHTYPE_ARP then arpInput n
  else ({ n with uip := { n.uip with len := 0 } }, [])

/-- `net_poll`. -/
def netPoll (n : Net) (rx : Rx) : Net × List Event :=
  if rx.frame = [] then ({ n with uip := { n.uip with len := 0 } }, [])
  else
    let (n, ev) := frameInput { n with uip := earthNetRecv n.uip rx }
    (syncSocketState n, ev)

/-! ## Kicking the connection -/

/-- The slot `kick_active_connection` stops at: the first active one with the
listening port. -/
def activeSlot (n : Net) : Option Slot :=
  (List.finRange 40).find? fun i =>
    (n.uip.conns i).tcpstateflags ≠ .closed ∧ (n.uip.conns i).lport = HTONS n.sock.listenPort

/-- `kick_active_connection`. -/
def kickActiveConnection (n : Net) : Net × List Event :=
  if n.sock.listenPort < 0 then (n, [])
  else
    match activeSlot n with
    | none => (syncSocketState n, [])
    | some i =>
      let (n, ev) := process n (uipProcessPoll n.uip i)
      (syncSocketState n, .polled i :: ev)

/-- `net_kick_tx`. -/
def netKickTx (n : Net) : Net × List Event :=
  if n.sock.txPending then kickActiveConnection n else (n, [])

/-- `net_kick_close`. -/
def netKickClose (n : Net) : Net × List Event := kickActiveConnection n

/-! ## Requests -/

/-- `clamp_net_length`. -/
def clampNetLength (length : ℤ) : ℤ := if length > NET_BUF_SIZE then NET_BUF_SIZE else length

/-- `socket_conn_valid`. -/
def socketConnValid (s : Sock) (connId : ℤ) : Bool :=
  s.listenPort ≥ 0 ∧ s.connOpen ∧ connId = s.connId

/-- `reset_socket_state`. -/
def resetSocketState (n : Net) : Net :=
  { n with
    sock := { n.sock with
      connId := 1, connOpen := false, connPending := false, connClosed := false
      rxLen := 0, txLen := 0, txPending := false }
    httpd := { n.httpd with
      connOpen := false, connPending := false, connClosed := false
      rxLen := 0, txLen := 0, txPending := false, closePending := false } }

/-- `uip_listen`: the port goes into the first free entry, if there is one. -/
def uipListen (u : Stack) (port : Word16) : Stack :=
  match (List.finRange 40).find? fun i => u.listenports i = ⟨0, 0⟩ with
  | some i => { u with listenports := Function.update u.listenports i port }
  | none => u

/-- `handle_net_send`. -/
def handleNetSend (n : Net) (length : ℤ) (buf : Mem) : Net × List Event × Reply :=
  let (n, ev) := earthNetSend n length buf
  (n, ev, ⟨.ok, NET_CONN_NONE, 0, []⟩)

/-- `handle_net_recv`. -/
def handleNetRecv (n : Net) (rx : Rx) : Net × List Event × Reply :=
  let n := if rx.frame.length ≤ NET_BUF_SIZE then n else n.raise .overrun
  (n, [], ⟨.ok, NET_CONN_NONE, rx.frame.length, rx.frame⟩)

/-- `handle_sock_listen`. -/
def handleSockListen (n : Net) (port : ℤ) : Net × List Event × Reply :=
  if port ≤ 0 then (n, [], ⟨.invalid, NET_CONN_NONE, 0, []⟩)
  else
    let n := { n with sock := { n.sock with listenPort := port } }
    let n := resetSocketState n
    let n := { n with uip := uipListen n.uip (HTONS port) }
    (n, [], ⟨.ok, NET_CONN_NONE, 0, []⟩)

/-- The pending connection has been reported. -/
def clearPending (n : Net) : Net :=
  { n with
    sock := { n.sock with connPending := false }
    httpd := { n.httpd with connPending := false } }

/-- `handle_sock_accept`. -/
def handleSockAccept (n : Net) (rx : Rx) : Net × List Event × Reply :=
  let (n, ev) := netPoll n rx
  if n.sock.connPending then (clearPending n, ev, ⟨.ok, n.sock.connId, 0, []⟩)
  else (n, ev, ⟨.wouldBlock, NET_CONN_NONE, 0, []⟩)

/-- `handle_sock_recv`.  A negative length would be a copy of that many bytes. -/
def handleSockRecv (n : Net) (connId length : ℤ) (rx : Rx) : Net × List Event × Reply :=
  let (n, ev) := netPoll n rx
  if n.sock.listenPort < 0 ∨ connId ≠ n.sock.connId then (n, ev, ⟨.invalid, connId, 0, []⟩)
  else if 0 < n.sock.rxLen then
    let rxLen : ℤ := if (n.sock.rxLen : ℤ) > length then length else n.sock.rxLen
    let data := n.sock.rxBuf.load 0 rxLen.toNat
    let n := if rxLen < 0 then n.raise .overrun else n
    ({ n with sock := { n.sock with rxLen := 0 } }, ev, ⟨.ok, connId, rxLen, data⟩)
  else if n.sock.connClosed ∨ ¬ n.sock.connOpen then (n, ev, ⟨.closed, connId, 0, []⟩)
  else (n, ev, ⟨.wouldBlock, connId, 0, []⟩)

/-- The part of `handle_sock_send` that takes the payload over.  The array in the
bridge holds `UIP_BUFSIZE` bytes, fewer than the request may bring. -/
def takePayload (n : Net) (txLen : ℤ) (buf : Mem) : Net :=
  let n := if 0 ≤ txLen ∧ txLen ≤ UIP_BUFSIZE then n else n.raise .overrun
  let len := txLen.toNat
  let n := { n with
    sock := { n.sock with txLen := len, txBuf := n.sock.txBuf.store 0 (buf.load 0 len) } }
  { n with
    httpd := { n.httpd with
      txBuf := n.httpd.txBuf.store 0 (n.sock.txBuf.load 0 len), txLen := len, txPending := true }
    sock := { n.sock with txPending := true } }

/-- `handle_sock_send`. -/
def handleSockSend (n : Net) (connId length : ℤ) (buf : Mem) (rx : Rx) :
    Net × List Event × Reply :=
  let (n, ev) := netPoll n rx
  if n.sock.listenPort < 0 ∨ ¬ socketConnValid n.sock connId then
    (n, ev, ⟨.invalid, connId, 0, []⟩)
  else if n.sock.txPending then (n, ev, ⟨.wouldBlock, connId, 0, []⟩)
  else
    let txLen := clampNetLength length
    let (n, ev') := netKickTx (takePayload n txLen buf)
    (n, ev ++ ev', ⟨.ok, connId, txLen, []⟩)

/-- The bridge is asked to close. -/
def askClose (n : Net) : Net := { n with httpd := { n.httpd with closePending := true } }

/-- The sockets forget the connection. -/
def forgetConn (n : Net) : Net :=
  { n with
    sock := { n.sock with
      connOpen := false, connPending := false, txPending := false, rxLen := 0 } }

/-- `handle_sock_close`. -/
def handleSockClose (n : Net) (connId : ℤ) (rx : Rx) : Net × List Event × Reply :=
  let (n, ev) := netPoll n rx
  if ¬ socketConnValid n.sock connId then (n, ev, ⟨.invalid, connId, 0, []⟩)
  else
    let (n, ev') := netKickClose (askClose n)
    (forgetConn n, ev ++ ev', ⟨.ok, connId, 0, []⟩)

/-- The `switch` in `main`. -/
def handle (n : Net) (i : Input) : Net × List Event × Reply :=
  match i.request with
  | .netSend length buf => handleNetSend n length buf
  | .netRecv => handleNetRecv n i.rx
  | .sockListen port => handleSockListen n port
  | .sockAccept => handleSockAccept n i.rx
  | .sockRecv connId length => handleSockRecv n connId length i.rx
  | .sockSend connId length buf => handleSockSend n connId length buf i.rx
  | .sockClose connId => handleSockClose n connId i.rx

/-- One round of the loop in `main`. -/
def step (n : Net) (i : Input) : Option (Net × Outcome) :=
  let (n', ev, r) := handle n i
  if n'.uip.fault = none then some (n', ⟨i.request, ev, r⟩) else none

end Service
end EgosNet
