import EgosNet.Foundation.Int32
import EgosNet.Service.Buffers
import EgosNet.Service.ReceiveStream

/-!
# The reply over the request

`main` has one buffer for a request and for the reply to it, and `req` and `reply` point to the same
address.  The two structures do not agree in what is where: `conn_id`, `length` and `buf` of the
reply lie over `port`, `conn_id` and `length` of the request.  So a handler destroys a field of the
request with every field of the reply that it writes, and whether it still reads what the caller
sent depends on the order of its statements.

Here the handlers are written once more, on the bytes of the message, statement by statement; where
`SysNet` has a request and a reply, they have a memory and two pointers into it.  They refine those
handlers whether the two structures lie over each other or beside each other (`refines_handle`).
There is one statement where it matters.  `handle_sock_recv` copies the data into the reply before
it reads `conn_id` of the request for the last time, and `conn_id` ends where `buf` of the reply
begins (`reqConnId_store`).

The reply is the same, then, but for one thing that no handler writes.  `handle_sock_send` answers
with the number of bytes it has taken over, and that is not the length of anything in the reply:
what is there is what the buffer held, which is the request if the two share it.

* `refines_handle`: on a message, the handlers do what the model says of the request it holds.
* `inplace_eq_separate`: over each other or beside each other, the reply and the state are the same,
  but for the bytes behind the reply to a send.
* `inplace_ne_separate_send`: and those are not.
-/

namespace EgosNet
namespace Service

open Foundation Uip

/-! ## The two structures -/

/-- `req` and `reply`. -/
structure Pointers where
  req : ℕ
  reply : ℕ

namespace Pointers

/-- The size of `struct net_request`. -/
def sizeofRequest : ℕ := 16 + NET_BUF_SIZE

/-- The size of `struct net_reply`. -/
def sizeofReply : ℕ := 12 + NET_BUF_SIZE

/-- One buffer for both, as `main` has it. -/
def Shared (p : Pointers) : Prop := p.reply = p.req

/-- Two buffers. -/
def Apart (p : Pointers) : Prop :=
  p.reply + sizeofReply ≤ p.req ∨ p.req + sizeofRequest ≤ p.reply

variable (p : Pointers) (m : Mem)

def reqType : ℤ := m.readInt p.req
def reqPort : ℤ := m.readInt (p.req + 4)
def reqConnId : ℤ := m.readInt (p.req + 8)
def reqLength : ℤ := m.readInt (p.req + 12)
def reqBuf : Mem := fun a => m (p.req + 16 + a)

def replyStatus : ℤ := m.readInt p.reply
def replyConnId : ℤ := m.readInt (p.reply + 4)
def replyLength : ℤ := m.readInt (p.reply + 8)

/-- The address of `reply->buf`. -/
def replyBuf : ℕ := p.reply + 12

end Pointers

inductive NetRequestType where
  | netSend | netRecv | sockListen | sockAccept | sockRecv | sockSend | sockClose
  deriving DecidableEq, Repr

namespace NetRequestType

/-- The value in `enum net_request_type`. -/
def code : NetRequestType → ℤ
  | .netSend => 0
  | .netRecv => 1
  | .sockListen => 2
  | .sockAccept => 3
  | .sockRecv => 4
  | .sockSend => 5
  | .sockClose => 6

/-- The type with the given value, if there is one. -/
def ofCode (v : ℤ) : Option NetRequestType :=
  [netSend, netRecv, sockListen, sockAccept, sockRecv, sockSend, sockClose].find? fun t =>
    t.code = v

end NetRequestType

/-! ## The handlers, on the message -/

namespace Overlay

/-- The state, the events, and the message that is sent. -/
abbrev Answer := Net × List Event × Mem

/-- `send_net_reply`.  Its arguments are evaluated before it writes. -/
def sendNetReply (p : Pointers) (m : Mem) (status : NetStatus) (connId length : ℤ) : Mem :=
  let m := m.writeInt p.reply status.code
  let m := m.writeInt (p.reply + 4) connId
  m.writeInt (p.reply + 8) length

/-- `handle_net_send`. -/
def handleNetSend (p : Pointers) (n : Net) (m : Mem) : Answer :=
  let (n, ev) := earthNetSend n (p.reqLength m) (p.reqBuf m)
  (n, ev, sendNetReply p m .ok NET_CONN_NONE 0)

/-- `handle_net_recv`. -/
def handleNetRecv (p : Pointers) (n : Net) (m : Mem) (rx : Rx) : Answer :=
  let n := if rx.frame.length ≤ NET_BUF_SIZE then n else n.raise .overrun
  let m := m.store p.replyBuf rx.frame
  let m := m.writeInt (p.reply + 8) rx.frame.length
  (n, [], sendNetReply p m .ok NET_CONN_NONE (p.replyLength m))

/-- `handle_sock_listen`. -/
def handleSockListen (p : Pointers) (n : Net) (m : Mem) : Answer :=
  if p.reqPort m ≤ 0 then (n, [], sendNetReply p m .invalid NET_CONN_NONE 0)
  else
    let n := { n with sock := { n.sock with listenPort := p.reqPort m } }
    let n := resetSocketState n
    let n := { n with uip := uipListen n.uip (HTONS (p.reqPort m)) }
    (n, [], sendNetReply p m .ok NET_CONN_NONE 0)

/-- `handle_sock_accept`. -/
def handleSockAccept (p : Pointers) (n : Net) (m : Mem) (rx : Rx) : Answer :=
  let (n, ev) := netPoll n rx
  if n.sock.connPending then (clearPending n, ev, sendNetReply p m .ok n.sock.connId 0)
  else (n, ev, sendNetReply p m .wouldBlock NET_CONN_NONE 0)

/-- `handle_sock_recv`. -/
def handleSockRecv (p : Pointers) (n : Net) (m : Mem) (rx : Rx) : Answer :=
  let (n, ev) := netPoll n rx
  if n.sock.listenPort < 0 ∨ p.reqConnId m ≠ n.sock.connId then
    (n, ev, sendNetReply p m .invalid (p.reqConnId m) 0)
  else if 0 < n.sock.rxLen then
    let rxLen : ℤ := if (n.sock.rxLen : ℤ) > p.reqLength m then p.reqLength m else n.sock.rxLen
    let m := m.store p.replyBuf (n.sock.rxBuf.load 0 rxLen.toNat)
    let n := if rxLen < 0 then n.raise .overrun else n
    ({ n with sock := { n.sock with rxLen := 0 } }, ev,
      sendNetReply p m .ok (p.reqConnId m) rxLen)
  else if n.sock.connClosed ∨ ¬ n.sock.connOpen then
    (n, ev, sendNetReply p m .closed (p.reqConnId m) 0)
  else (n, ev, sendNetReply p m .wouldBlock (p.reqConnId m) 0)

/-- `handle_sock_send`. -/
def handleSockSend (p : Pointers) (n : Net) (m : Mem) (rx : Rx) : Answer :=
  let (n, ev) := netPoll n rx
  if n.sock.listenPort < 0 ∨ ¬ socketConnValid n.sock (p.reqConnId m) then
    (n, ev, sendNetReply p m .invalid (p.reqConnId m) 0)
  else if n.sock.txPending then (n, ev, sendNetReply p m .wouldBlock (p.reqConnId m) 0)
  else
    let txLen := clampNetLength (p.reqLength m)
    let (n, ev') := netKickTx (takePayload n txLen (p.reqBuf m))
    (n, ev ++ ev', sendNetReply p m .ok (p.reqConnId m) txLen)

/-- `handle_sock_close`. -/
def handleSockClose (p : Pointers) (n : Net) (m : Mem) (rx : Rx) : Answer :=
  let (n, ev) := netPoll n rx
  if ¬ socketConnValid n.sock (p.reqConnId m) then
    (n, ev, sendNetReply p m .invalid (p.reqConnId m) 0)
  else
    let (n, ev') := netKickClose (askClose n)
    (forgetConn n, ev ++ ev', sendNetReply p m .ok (p.reqConnId m) 0)

/-- The `switch` in `main`, `none` for `FATAL`. -/
def handle (p : Pointers) (n : Net) (m : Mem) (rx : Rx) : Option Answer :=
  (NetRequestType.ofCode (p.reqType m)).map fun t =>
    match t with
    | .netSend => handleNetSend p n m
    | .netRecv => handleNetRecv p n m rx
    | .sockListen => handleSockListen p n m
    | .sockAccept => handleSockAccept p n m rx
    | .sockRecv => handleSockRecv p n m rx
    | .sockSend => handleSockSend p n m rx
    | .sockClose => handleSockClose p n m rx

end Overlay

/-! ## The request in the message, and the reply -/

namespace Pointers

variable (p : Pointers) (m : Mem)

/-- The bytes of `req->buf`. -/
def reqBytes : Mem := payload (m.load (p.req + 16) NET_BUF_SIZE)

/-- The request of the given type that the message holds. -/
def decodeAs : NetRequestType → Request
  | .netSend => .netSend (p.reqLength m) (p.reqBytes m)
  | .netRecv => .netRecv
  | .sockListen => .sockListen (p.reqPort m)
  | .sockAccept => .sockAccept
  | .sockRecv => .sockRecv (p.reqConnId m) (p.reqLength m)
  | .sockSend => .sockSend (p.reqConnId m) (p.reqLength m) (p.reqBytes m)
  | .sockClose => .sockClose (p.reqConnId m)

/-- The request that the message holds. -/
def decode : Option Request := (NetRequestType.ofCode (p.reqType m)).map (p.decodeAs m)

/-- The message holds the reply. -/
structure Carries (r : Reply) : Prop where
  status : p.replyStatus m = r.status.code
  connId : p.replyConnId m = Int.bmod r.connId (2 ^ 32)
  length : p.replyLength m = Int.bmod r.length (2 ^ 32)
  buf : m.load p.replyBuf r.buf.length = r.buf

variable {p m}

/-- The request is in the bytes of the structure, wherever it is. -/
theorem decode_congr {p' : Pointers} {m' : Mem}
    (h : m'.load p'.req sizeofRequest = m.load p.req sizeofRequest) :
    p'.decode m' = p.decode m := by
  have hint (k : ℕ) (hk : k + 4 ≤ sizeofRequest) :
      m'.readInt (p'.req + k) = m.readInt (p.req + k) :=
    Mem.readInt_congr fun j hj => by
      rw [Nat.add_assoc, Nat.add_assoc]
      exact Mem.eq_of_load_eq h (by omega)
  have hbytes : p'.reqBytes m' = p.reqBytes m := by
    refine congrArg payload (Mem.load_congr fun k hk => ?_)
    have hlt : 16 + k < sizeofRequest := Nat.add_lt_add_left hk 16
    have hbyte := Mem.eq_of_load_eq h hlt
    rwa [← Nat.add_assoc, ← Nat.add_assoc] at hbyte
  have htype : p'.reqType m' = p.reqType m := hint 0 (by decide)
  have hport : p'.reqPort m' = p.reqPort m := hint 4 (by decide)
  have hconn : p'.reqConnId m' = p.reqConnId m := hint 8 (by decide)
  have hlength : p'.reqLength m' = p.reqLength m := hint 12 (by decide)
  have hdecode : p'.decodeAs m' = p.decodeAs m := by
    funext t
    cases t <;> simp only [decodeAs, hport, hconn, hlength, hbytes]
  rw [decode, decode, htype, hdecode]

/-- As many bytes of `req->buf` as it has. -/
theorem load_reqBuf {k : ℕ} (hk : k ≤ NET_BUF_SIZE) :
    (p.reqBuf m).load 0 k = (p.reqBytes m).load 0 k := by
  have hlen : k ≤ (m.load (p.req + 16) NET_BUF_SIZE).length := by rwa [Mem.length_load]
  rw [reqBytes, payload, Mem.load_store_take _ _ _ hlen, Mem.load_take _ _ hk]
  exact Mem.load_congr fun j _ => by rw [reqBuf, Nat.zero_add]

/-- **`conn_id` is still there when the data has been copied**: it ends where `reply->buf` begins,
or is not in the way at all. -/
theorem reqConnId_store (hp : p.Shared ∨ p.Apart) {bs : List UInt8}
    (hbs : bs.length ≤ NET_BUF_SIZE) : p.reqConnId (m.store p.replyBuf bs) = p.reqConnId m := by
  have hreq : sizeofRequest = 16 + NET_BUF_SIZE := rfl
  have hreply : sizeofReply = 12 + NET_BUF_SIZE := rfl
  refine Mem.readInt_store ?_
  rw [replyBuf]
  rcases hp with hp | hp | hp
  · have hsame : p.reply = p.req := hp
    omega
  · omega
  · omega

end Pointers

/-! ## The handlers on the message refine the handlers -/

/-- The status of a reply is an `int`. -/
theorem NetStatus.code_bmod (s : NetStatus) : Int.bmod s.code (2 ^ 32) = s.code := by
  cases s <;> decide

/-- The reply that was sent is in the message. -/
theorem carries_sendNetReply {p : Pointers} {m : Mem} {status : NetStatus} {connId length : ℤ}
    {buf : List UInt8} (hbuf : m.load p.replyBuf buf.length = buf) :
    p.Carries (Overlay.sendNetReply p m status connId length) ⟨status, connId, length, buf⟩ := by
  constructor
  · rw [Pointers.replyStatus, Overlay.sendNetReply,
      Mem.readInt_writeInt_of_disjoint _ (Or.inl (by omega)),
      Mem.readInt_writeInt_of_disjoint _ (Or.inl (by omega)), Mem.readInt_writeInt]
    exact status.code_bmod
  · rw [Pointers.replyConnId, Overlay.sendNetReply,
      Mem.readInt_writeInt_of_disjoint _ (Or.inl (by omega)), Mem.readInt_writeInt]
  · rw [Pointers.replyLength, Overlay.sendNetReply, Mem.readInt_writeInt]
  · rw [Overlay.sendNetReply, Mem.load_writeInt_of_disjoint _ (Or.inr ?_),
      Mem.load_writeInt_of_disjoint _ (Or.inr ?_), Mem.load_writeInt_of_disjoint _ (Or.inr ?_),
      hbuf]
    all_goals
      simp only [Pointers.replyBuf]
      omega

/-- The same without data. -/
theorem carries_empty (p : Pointers) (m : Mem) (status : NetStatus) (connId length : ℤ) :
    p.Carries (Overlay.sendNetReply p m status connId length) ⟨status, connId, length, []⟩ :=
  carries_sendNetReply rfl

/-- The state and the events are those of the handler, and the message holds its reply. -/
structure Refines (p : Pointers) (a : Overlay.Answer) (b : Net × List Event × Reply) : Prop where
  state : a.1 = b.1
  events : a.2.1 = b.2.1
  reply : p.Carries a.2.2 b.2.2

/-- The lengths that fit into the message, a send being no longer than a segment. -/
def Admitted : Request → Prop
  | .netSend length _ => 1 ≤ length ∧ length ≤ NET_BUF_SIZE
  | .sockRecv _ length => 0 ≤ length ∧ length ≤ NET_BUF_SIZE
  | .sockSend _ length _ => 0 ≤ length ∧ length ≤ UIP_TCP_MSS
  | _ => True

/-- A packet is sent as far as it goes. -/
theorem earthNetSend_congr (n : Net) {length : ℤ} {packet packet' : Mem}
    (h : packet.load 0 length.toNat = packet'.load 0 length.toNat) :
    earthNetSend n length packet = earthNetSend n length packet' := by
  rw [earthNetSend, earthNetSend, h]

/-- And so is a payload taken over. -/
theorem takePayload_congr (n : Net) {txLen : ℤ} {buf buf' : Mem}
    (h : buf.load 0 txLen.toNat = buf'.load 0 txLen.toNat) :
    takePayload n txLen buf = takePayload n txLen buf' := by
  simp only [takePayload, h]

section Handlers

variable {p : Pointers} {m : Mem} (n : Net) (rx : Rx)

theorem refines_netSend (hlen : p.reqLength m ≤ NET_BUF_SIZE) :
    Refines p (Overlay.handleNetSend p n m)
      (handleNetSend n (p.reqLength m) (p.reqBytes m)) := by
  have hload : (p.reqBuf m).load 0 (p.reqLength m).toNat =
      (p.reqBytes m).load 0 (p.reqLength m).toNat := Pointers.load_reqBuf (by omega)
  have hsend := earthNetSend_congr n hload
  simp only [Overlay.handleNetSend, handleNetSend, hsend]
  exact ⟨rfl, rfl, carries_empty p m _ _ _⟩

/-- **A frame**: its length is written twice, first as the result of `net_recv`. -/
theorem refines_netRecv : Refines p (Overlay.handleNetRecv p n m rx) (handleNetRecv n rx) := by
  refine ⟨rfl, rfl, ?_⟩
  simp only [Overlay.handleNetRecv, handleNetRecv]
  set w := (m.store p.replyBuf rx.frame).writeInt (p.reply + 8) rx.frame.length with hw
  have hlength : p.replyLength w = Int.bmod rx.frame.length (2 ^ 32) := Mem.readInt_writeInt _ _ _
  have hbehind : p.reply + 8 + 4 ≤ p.replyBuf := le_refl (p.reply + 12)
  have hbuf : w.load p.replyBuf rx.frame.length = rx.frame := by
    rw [hw, Mem.load_writeInt_of_disjoint _ (Or.inr hbehind), Mem.load_store]
  have h : p.Carries (Overlay.sendNetReply p w .ok NET_CONN_NONE (p.replyLength w))
      ⟨.ok, NET_CONN_NONE, p.replyLength w, rx.frame⟩ := carries_sendNetReply hbuf
  exact ⟨h.status, h.connId, h.length.trans (by rw [hlength, Int.bmod_bmod]), h.buf⟩

theorem refines_sockListen :
    Refines p (Overlay.handleSockListen p n m) (handleSockListen n (p.reqPort m)) := by
  simp only [Overlay.handleSockListen, handleSockListen]
  split_ifs
  · exact ⟨rfl, rfl, carries_empty p m _ _ _⟩
  · exact ⟨rfl, rfl, carries_empty p m _ _ _⟩

theorem refines_sockAccept :
    Refines p (Overlay.handleSockAccept p n m rx) (handleSockAccept n rx) := by
  simp only [Overlay.handleSockAccept, handleSockAccept]
  split_ifs
  · exact ⟨rfl, rfl, carries_empty p m _ _ _⟩
  · exact ⟨rfl, rfl, carries_empty p m _ _ _⟩

/-- **A read**: the data is copied before `conn_id` is read for the reply. -/
theorem refines_sockRecv (hp : p.Shared ∨ p.Apart) (hlen : p.reqLength m ≤ NET_BUF_SIZE) :
    Refines p (Overlay.handleSockRecv p n m rx)
      (handleSockRecv n (p.reqConnId m) (p.reqLength m) rx) := by
  simp only [Overlay.handleSockRecv, handleSockRecv]
  set rxLen : ℤ := if ((netPoll n rx).1.sock.rxLen : ℤ) > p.reqLength m then p.reqLength m
    else (netPoll n rx).1.sock.rxLen with hrx
  have hle : rxLen.toNat ≤ NET_BUF_SIZE := by
    rw [hrx]
    split_ifs <;> omega
  have hdata : ((netPoll n rx).1.sock.rxBuf.load 0 rxLen.toNat).length ≤ NET_BUF_SIZE := by
    rwa [Mem.length_load]
  rw [Pointers.reqConnId_store hp hdata]
  split_ifs
  · exact ⟨rfl, rfl, carries_empty p m _ _ _⟩
  · exact ⟨rfl, rfl, carries_sendNetReply (Mem.load_store _ _ _)⟩
  · exact ⟨rfl, rfl, carries_sendNetReply (Mem.load_store _ _ _)⟩
  · exact ⟨rfl, rfl, carries_empty p m _ _ _⟩
  · exact ⟨rfl, rfl, carries_empty p m _ _ _⟩

theorem refines_sockSend :
    Refines p (Overlay.handleSockSend p n m rx)
      (handleSockSend n (p.reqConnId m) (p.reqLength m) (p.reqBytes m) rx) := by
  have hclamp := clampNetLength_le (p.reqLength m)
  have htake := takePayload_congr (netPoll n rx).1 (Pointers.load_reqBuf (p := p) (m := m) hclamp)
  simp only [Overlay.handleSockSend, handleSockSend, htake]
  split_ifs
  · exact ⟨rfl, rfl, carries_empty p m _ _ _⟩
  · exact ⟨rfl, rfl, carries_empty p m _ _ _⟩
  · exact ⟨rfl, rfl, carries_empty p m _ _ _⟩

theorem refines_sockClose :
    Refines p (Overlay.handleSockClose p n m rx) (handleSockClose n (p.reqConnId m) rx) := by
  simp only [Overlay.handleSockClose, handleSockClose]
  split_ifs
  · exact ⟨rfl, rfl, carries_empty p m _ _ _⟩
  · exact ⟨rfl, rfl, carries_empty p m _ _ _⟩

end Handlers

/-- **On a message, the handlers do what the model says of the request it holds**, whether the two
structures lie over each other or beside each other. -/
theorem refines_handle {p : Pointers} {m : Mem} {r : Request} (n : Net) (rx : Rx)
    (hp : p.Shared ∨ p.Apart) (hr : p.decode m = some r) (hadm : Admitted r) :
    ∃ a, Overlay.handle p n m rx = some a ∧ Refines p a (handle n ⟨r, rx⟩) := by
  obtain ⟨t, ht, rfl⟩ := Option.map_eq_some_iff.mp hr
  rw [Overlay.handle, ht]
  refine ⟨_, rfl, ?_⟩
  cases t with
  | netSend => exact refines_netSend n hadm.2
  | netRecv => exact refines_netRecv n rx
  | sockListen => exact refines_sockListen n
  | sockAccept => exact refines_sockAccept n rx
  | sockRecv => exact refines_sockRecv n rx hp hadm.2
  | sockSend => exact refines_sockSend n rx
  | sockClose => exact refines_sockClose n rx

/-! ## Over each other and beside each other -/

/-- The reply says that a payload was taken over. -/
def takenOver (r : Request) (reply : Reply) : Bool :=
  match r, reply.status with
  | .sockSend _ _ _, .ok => true
  | _, _ => false

/-- The length of the reply is that of its data, and the message has room for it. -/
def Measured (reply : Reply) : Prop :=
  reply.length = reply.buf.length ∧ reply.buf.length ≤ NET_BUF_SIZE

theorem measured_empty (status : NetStatus) (connId : ℤ) : Measured ⟨status, connId, 0, []⟩ :=
  ⟨rfl, Nat.zero_le _⟩

theorem measured_load (status : NetStatus) (connId : ℤ) (m : Mem) {length : ℤ} (h0 : 0 ≤ length)
    (hle : length ≤ NET_BUF_SIZE) : Measured ⟨status, connId, length, m.load 0 length.toNat⟩ := by
  simp only [Measured, Mem.length_load]
  omega

/-- **The length of a reply is that of its data**, unless it is that of a payload taken over. -/
theorem measured_reply {r : Request} (n : Net) (rx : Rx) (hadm : Admitted r)
    (hframe : rx.frame.length ≤ UIP_BUFSIZE)
    (htaken : takenOver r (handle n ⟨r, rx⟩).2.2 = false) : Measured (handle n ⟨r, rx⟩).2.2 := by
  cases r with
  | netSend length buf => exact measured_empty _ _
  | netRecv => exact ⟨rfl, hframe.trans (by decide)⟩
  | sockListen port =>
    simp only [handle, handleSockListen]
    split_ifs <;> exact measured_empty _ _
  | sockAccept =>
    simp only [handle, handleSockAccept]
    split_ifs <;> exact measured_empty _ _
  | sockRecv connId length =>
    simp only [handle, handleSockRecv]
    obtain ⟨h0, hle⟩ : 0 ≤ length ∧ length ≤ NET_BUF_SIZE := hadm
    split_ifs
    · exact measured_empty _ _
    · exact measured_load _ _ _ h0 hle
    · exact measured_load _ _ _ h0 hle
    · exact measured_load _ _ _ (by omega) (by omega)
    · exact measured_load _ _ _ (by omega) (by omega)
    · exact measured_empty _ _
    · exact measured_empty _ _
  | sockSend connId length buf =>
    revert htaken
    simp only [handle, handleSockSend]
    split_ifs
    · exact fun _ => measured_empty _ _
    · exact fun _ => measured_empty _ _
    · intro htaken
      simp [takenOver] at htaken
  | sockClose connId =>
    simp only [handle, handleSockClose]
    split_ifs <;> exact measured_empty _ _

/-- **A reply over the request is the reply beside it.**  Let the same request stand in one buffer
for both structures and in a buffer of its own.  The handler leaves the same state in both cases,
after the same events, and sends the same status, `conn_id` and `length`, and as many bytes of data
as `length` says, unless that is the length of a payload that was taken over. -/
theorem inplace_eq_separate {n : Net} {rx : Rx} {p p' : Pointers} {m m' : Mem} {r : Request}
    (hp : p.Shared) (hp' : p'.Apart)
    (hsame : m'.load p'.req Pointers.sizeofRequest = m.load p.req Pointers.sizeofRequest)
    (hr : p.decode m = some r) (hadm : Admitted r) (hframe : rx.frame.length ≤ UIP_BUFSIZE) :
    ∃ s ev w w', Overlay.handle p n m rx = some (s, ev, w) ∧
      Overlay.handle p' n m' rx = some (s, ev, w') ∧
      p.replyStatus w = p'.replyStatus w' ∧ p.replyConnId w = p'.replyConnId w' ∧
      p.replyLength w = p'.replyLength w' ∧
      (takenOver r (handle n ⟨r, rx⟩).2.2 = false →
        w.load p.replyBuf (p.replyLength w).toNat =
          w'.load p'.replyBuf (p.replyLength w).toNat) := by
  have hr' : p'.decode m' = some r := (Pointers.decode_congr hsame).trans hr
  obtain ⟨⟨s, ev, w⟩, ha, href⟩ := refines_handle n rx (Or.inl hp) hr hadm
  obtain ⟨⟨s', ev', w'⟩, ha', href'⟩ := refines_handle n rx (Or.inr hp') hr' hadm
  obtain rfl : s = s' := href.state.trans href'.state.symm
  obtain rfl : ev = ev' := href.events.trans href'.events.symm
  refine ⟨s, ev, w, w', ha, ha', href.reply.status.trans href'.reply.status.symm,
    href.reply.connId.trans href'.reply.connId.symm,
    href.reply.length.trans href'.reply.length.symm, fun htaken => ?_⟩
  obtain ⟨hlen, hle⟩ := measured_reply n rx hadm hframe htaken
  have hlength : (p.replyLength w).toNat = (handle n ⟨r, rx⟩).2.2.buf.length := by
    have hnet : NET_BUF_SIZE = 512 := rfl
    rw [href.reply.length, hlen, Int.bmod_eq_of_le (by omega) (by omega)]
    rfl
  rw [hlength, href.reply.buf, href'.reply.buf]

/-! ## A read and a send -/

/-- A request of the given type, for the accepted connection. -/
def message (t : NetRequestType) (length : ℤ) (data : List UInt8) : List UInt8 :=
  Mem.intBytes t.code ++ Mem.intBytes 0 ++ Mem.intBytes 1 ++ Mem.intBytes length ++ data

/-- One buffer. -/
def onePlace : Pointers := ⟨0, 0⟩

/-- The request behind the reply. -/
def twoPlaces : Pointers := ⟨524, 0⟩

/-- Two bytes are read, into the request and beside it. -/
theorem inplace_eq_separate_read :
    ∃ os n s ev w w', Run step Free Net.init twoBytes os n ∧
      Overlay.handle onePlace n (payload (message .sockRecv 512 [])) {} = some (s, ev, w) ∧
      Overlay.handle twoPlaces n (Mem.store (fun _ => 0) 524 (message .sockRecv 512 [])) {} =
        some (s, ev, w') ∧
      onePlace.replyLength w = 2 ∧ twoPlaces.replyLength w' = 2 ∧
      w.load onePlace.replyBuf 2 = w'.load twoPlaces.replyBuf 2 := by
  have htype : NetRequestType.ofCode (onePlace.reqType (payload (message .sockRecv 512 []))) =
      some .sockRecv := by decide +kernel
  have hconn : onePlace.reqConnId (payload (message .sockRecv 512 [])) = 1 := by decide +kernel
  have hlength : onePlace.reqLength (payload (message .sockRecv 512 [])) = 512 := by decide +kernel
  have hr : onePlace.decode (payload (message .sockRecv 512 [])) = some (.sockRecv 1 512) := by
    rw [Pointers.decode, htype, Option.map_some, Pointers.decodeAs, hconn, hlength]
  have hsame : (Mem.store (fun _ => 0) 524 (message .sockRecv 512 [])).load twoPlaces.req
      Pointers.sizeofRequest =
        (payload (message .sockRecv 512 [])).load onePlace.req Pointers.sizeofRequest := by
    decide +kernel
  have hexec : ((exec step Net.init twoBytes).bind fun r =>
      (Overlay.handle onePlace r.1 (payload (message .sockRecv 512 [])) {}).map fun a =>
        (takenOver (.sockRecv 1 512) (handle r.1 ⟨.sockRecv 1 512, {}⟩).2.2,
          onePlace.replyLength a.2.2)) = some (false, 2) := by decide +kernel
  obtain ⟨⟨n, os⟩, hrun, hval⟩ := Option.bind_eq_some_iff.mp hexec
  obtain ⟨a, ha, hval⟩ := Option.map_eq_some_iff.mp hval
  obtain ⟨htaken, hlen⟩ := Prod.mk.inj hval
  have hadm : Admitted (.sockRecv 1 512) := ⟨by decide, by decide⟩
  have hnothing : ({} : Rx).frame.length ≤ UIP_BUFSIZE := Nat.zero_le _
  have hapart : twoPlaces.Apart := Or.inl (le_refl 524)
  obtain ⟨s, ev, w, w', hone, htwo, -, -, hlen', hbuf⟩ :=
    inplace_eq_separate (n := n) (p := onePlace) rfl hapart hsame hr hadm hnothing
  obtain rfl : a = (s, ev, w) := Option.some.inj (ha.symm.trans hone)
  have hdata := hbuf htaken
  rw [hlen] at hdata hlen'
  exact ⟨os, n, s, ev, w, w', run_of_exec hrun, hone, htwo, hlen, hlen'.symm, hdata⟩

/-- **The reply to a send is not the same behind its header**: one byte is taken over, and both
replies say so, but where the data of a reply would be there is the length of the request in the
one, and what the buffer held in the other. -/
theorem inplace_ne_separate_send :
    ∃ os n, Run step Free Net.init smallSegments os n ∧
      (Mem.store (fun _ => 0) 524 (message .sockSend 1 [65])).load twoPlaces.req
          Pointers.sizeofRequest =
        (payload (message .sockSend 1 [65])).load onePlace.req Pointers.sizeofRequest ∧
      ((Overlay.handle onePlace n (payload (message .sockSend 1 [65])) {}).map fun a =>
        (onePlace.replyStatus a.2.2, onePlace.replyLength a.2.2,
          a.2.2.load onePlace.replyBuf 1)) = some (0, 1, [1]) ∧
      ((Overlay.handle twoPlaces n (Mem.store (fun _ => 0) 524 (message .sockSend 1 [65])) {}).map
        fun a => (twoPlaces.replyStatus a.2.2, twoPlaces.replyLength a.2.2,
          a.2.2.load twoPlaces.replyBuf 1)) = some (0, 1, [0]) := by
  have hexec : ((exec step Net.init smallSegments).map fun r =>
      ((Overlay.handle onePlace r.1 (payload (message .sockSend 1 [65])) {}).map fun a =>
        (onePlace.replyStatus a.2.2, onePlace.replyLength a.2.2, a.2.2.load onePlace.replyBuf 1),
      (Overlay.handle twoPlaces r.1 (Mem.store (fun _ => 0) 524 (message .sockSend 1 [65])) {}).map
        fun a => (twoPlaces.replyStatus a.2.2, twoPlaces.replyLength a.2.2,
          a.2.2.load twoPlaces.replyBuf 1))) = some (some (0, 1, [1]), some (0, 1, [0])) := by
    decide +kernel
  obtain ⟨⟨n, os⟩, hrun, hval⟩ := Option.map_eq_some_iff.mp hexec
  obtain ⟨hone, htwo⟩ := Prod.mk.inj hval
  exact ⟨os, n, run_of_exec hrun, by decide +kernel, hone, htwo⟩

end Service
end EgosNet
