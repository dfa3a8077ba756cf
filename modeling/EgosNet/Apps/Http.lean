import EgosNet.Foundation.Text
import EgosNet.Service.Acceptance
import EgosNet.Service.PartialReads
import EgosNet.Service.Provenance
import EgosNet.Service.Strangers

/-!
# The HTTP server: `apps/user/http.c`

The server listens on port 80 and then goes round in a loop: it accepts a connection, reads, sends
its answer if it has read something, and closes.  No call of the library waits for the network.  The
service takes at most one frame from the card for each request and replies at once, and it is left
to the caller to ask again.

A client whose handshake is done may miss its answer in two ways.

* For `sock_accept` the server does ask again, until there is a connection.  But that there is one
  is a flag, and it is the same for all connections: the next handshake takes it over, and the end
  of any connection lowers it.  The client is then forgotten.
* For `sock_recv` the server does not ask again.  What is not there at the first call counts as
  nothing, and the connection is closed without an answer.

`Fate` follows a client through a run, from the frame on that completes its handshake, by what can
be seen of the steps: the calls of the server, what they return, and what uIP tells the application.
The client asks for an answer if it sends a request and neither closes nor resets the connection
(`Asks`).  It gets one unless one of these two things happens, and `Attended` says when they do not
in terms of the frames that arrive and of the states that they find.

* `SockCall`: the calls of `library/syscall/servers.c`, with the request a call makes and the value
  it returns.
* `httpStep`: the server, above the network service; a step is one call and the frame that is
  waiting when the service handles it.
* `recv_pos_iff`: when `sock_recv` returns a positive number.
* `lost_step`: which steps lose the client.
* `http_answers_iff`: in every run, the client is answered exactly if it is attended.
-/

namespace EgosNet
namespace Http

open Foundation Uip Service

/-! ## The library -/

/-- The calls, with their arguments. -/
inductive SockCall where
  | listen (port : ℤ)
  | accept
  | recv (connId length : ℤ)
  | send (connId : ℤ) (packet : List UInt8)
  | close (connId : ℤ)
  deriving DecidableEq

namespace SockCall

/-- `ASSERT(length <= NET_BUF_SIZE)`, for the calls that have a length. -/
def Fits : SockCall → Prop
  | listen _ | accept | close _ => True
  | recv _ length => length ≤ NET_BUF_SIZE
  | send _ packet => packet.length ≤ NET_BUF_SIZE

instance (c : SockCall) : Decidable c.Fits :=
  match c with
  | listen _ | accept | close _ => .isTrue trivial
  | recv _ _ | send _ _ => inferInstanceAs (Decidable (_ ≤ _))

/-- The request, in a message that is zero where nothing is put. -/
def request : SockCall → Request
  | listen port => .sockListen port
  | accept => .sockAccept
  | recv connId length => .sockRecv connId length
  | send connId packet => .sockSend connId packet.length (Mem.store (fun _ => 0) 0 packet)
  | close connId => .sockClose connId

/-- The value that is returned for a reply, unless an `ASSERT` fails. -/
def returns : SockCall → Reply → Option ℤ
  | listen _, reply => some (if reply.status = .ok then 0 else -reply.status.code)
  | accept, reply => some (if reply.status = .ok then reply.connId else -reply.status.code)
  | recv _ length, reply =>
    if reply.status = .ok ∧ length < reply.length then none else some (sockRecv reply)
  | send _ packet, reply => some (sockSend packet.length reply)
  | close _, reply => some (if reply.status = .ok then 0 else -reply.status.code)

end SockCall

/-! ## The server -/

/-- `hello_response`. -/
def helloResponse : List UInt8 :=
  bytes "HTTP/1.0 200 OK\r\n" ++ bytes "Content-Type: text/plain\r\n" ++
    bytes "Connection: close\r\n" ++ bytes "\r\n" ++ bytes "EGOS socket abstraction demonstration\n"

/-- Where `main` is: at one of its calls, or returned. -/
inductive Pc where
  | listen
  | accept
  | recv (conn : ℤ)
  | send (conn : ℤ)
  | close (conn : ℤ)
  | returned
  deriving DecidableEq

/-- The call that is made there. -/
def Pc.call : Pc → Option SockCall
  | listen => some (.listen 80)
  | accept => some .accept
  | recv conn => some (.recv conn NET_BUF_SIZE)
  | send conn => some (.send conn helloResponse)
  | close conn => some (.close conn)
  | returned => none

/-- Where `main` goes on with the value that the call returns. -/
def Pc.next : Pc → ℤ → Pc
  | listen, ret => if ret < 0 then returned else accept
  | accept, conn => if conn < 0 then accept else recv conn
  | recv conn, reqLen => if reqLen > 0 then send conn else close conn
  | send conn, _ => close conn
  | close _, _ => accept
  | returned, _ => returned

/-- The server, and the service it talks to. -/
structure App where
  pc : Pc
  net : Net

/-- What a step shows: the call, what it returned, and what the application was told meanwhile. -/
structure Made where
  call : SockCall
  ret : ℤ
  told : List UipFlags
  deriving DecidableEq

/-- One call of the server.  `rx` is what the card has when the service handles the request. -/
def httpStep (s : App) (rx : Rx) : Option (App × Made) := do
  let c ← s.pc.call
  guard c.Fits
  let (net, o) ← Service.step s.net ⟨c.request, rx⟩
  let ret ← c.returns o.reply
  pure (⟨s.pc.next ret, net⟩, ⟨c, ret, (calls o.events).map Call.flags⟩)

/-- The server when it starts. -/
def start (net : Net) : App := ⟨.listen, net⟩

/-- There are bytes to read: they have been delivered already, or the frame delivers some. -/
def Readable (n : Net) (rx : Rx) : Prop :=
  unread n ≠ [] ∨ (frameCall n rx).bind deliveryOf ≠ none

instance (n : Net) (rx : Rx) : Decidable (Readable n rx) := inferInstanceAs (Decidable (_ ∨ _))

/-! ## A client -/

/-- The call moves the flag that says that a connection is waiting: a handshake is complete, or a
connection has ended. -/
def Moves (f : UipFlags) : Prop := f.connected = true ∨ ends f = true

instance : DecidablePred Moves := fun _ => inferInstanceAs (Decidable (_ ∨ _))

/-- What has become of a client whose handshake is complete. -/
inductive Fate where
  /-- No `sock_accept` has returned its connection yet. -/
  | waiting
  /-- One has, and the server has neither answered nor closed. -/
  | serving (conn : ℤ)
  | answered
  /-- The server has closed the connection and not answered. -/
  | unanswered
  /-- The flag has been taken over or lowered, and no `sock_accept` returns the connection. -/
  | forgotten
  deriving DecidableEq

/-- A connection that `sock_accept` returns is that of the last handshake. -/
def Fate.accepted (m : Made) : Fate :=
  if m.call = .accept ∧ 0 ≤ m.ret then serving m.ret else waiting

/-- One step later. -/
def Fate.next (m : Made) : Fate → Fate
  | waiting => if ∃ f ∈ m.told, Moves f then forgotten else accepted m
  | serving conn =>
    if m.call = .send conn helloResponse then answered
    else if m.call = .close conn then unanswered
    else serving conn
  | answered => answered
  | unanswered => unanswered
  | forgotten => forgotten

/-- **The client misses its answer**: the server closes its connection without `sock_send` of
`hello_response`, or never learns of it. -/
def Fate.Missed (f : Fate) : Prop := f = unanswered ∨ f = forgotten

instance : DecidablePred Fate.Missed := fun _ => inferInstanceAs (Decidable (_ ∨ _))

/-- The server, and what becomes of a client. -/
def followed : App × Fate → Rx → Option ((App × Fate) × Made) :=
  annotated (fun _ f _ m => f.next m) httpStep

/-- The frame is a valid TCP segment of the peer of connection `c`. -/
def SegmentBy (c : UipConn) (frame : List UInt8) : Prop :=
  TcpPacket (payload frame) frame.length ∧ ByPeer c (payload frame)

instance (c : UipConn) (frame : List UInt8) : Decidable (SegmentBy c frame) :=
  inferInstanceAs (Decidable (_ ∧ _))

/-- It brings a request: the first data of the peer, in one segment. -/
structure RequestBy (c : UipConn) (frame : List UInt8) : Prop where
  segment : SegmentBy c frame
  plain : payload frame Hdr.flags &&& (TCP_SYN ||| TCP_URG) = 0
  seqno : word32 (payload frame) Hdr.seqno = c.rcvNxt
  nonempty : segmentData frame ≠ []
  length : (segmentData frame).length ≤ UIP_TCP_MSS

instance (c : UipConn) (frame : List UInt8) : Decidable (RequestBy c frame) :=
  decidable_of_iff
    (SegmentBy c frame ∧ payload frame Hdr.flags &&& (TCP_SYN ||| TCP_URG) = 0 ∧
      word32 (payload frame) Hdr.seqno = c.rcvNxt ∧ segmentData frame ≠ [] ∧
      (segmentData frame).length ≤ UIP_TCP_MSS)
    ⟨fun ⟨h1, h2, h3, h4, h5⟩ => ⟨h1, h2, h3, h4, h5⟩,
      fun ⟨h1, h2, h3, h4, h5⟩ => ⟨h1, h2, h3, h4, h5⟩⟩

/-- **The client in slot `i` asks for an answer.**  Its handshake is complete with the frame `rx`,
which the service takes.  From then on it sends a request, at any time, and neither closes nor
resets the connection. -/
structure Asks (s : App) (rx : Rx) (rxs : List Rx) (i : Slot) : Prop where
  taken : s.pc ≠ .listen
  connects : ∃ c ∈ frameCall s.net rx, c.slot = i ∧ c.flags.connected = true
  request : ∃ r ∈ rx :: rxs, RequestBy (s.net.uip.conns i) r.frame
  stays : ∀ r ∈ rx :: rxs, SegmentBy (s.net.uip.conns i) r.frame →
    payload r.frame Hdr.flags &&& (TCP_FIN ||| TCP_RST) = 0

instance (s : App) (rx : Rx) (rxs : List Rx) (i : Slot) : Decidable (Asks s rx rxs i) :=
  decidable_of_iff
    (s.pc ≠ .listen ∧ (∃ c ∈ frameCall s.net rx, c.slot = i ∧ c.flags.connected = true) ∧
      (∃ r ∈ rx :: rxs, RequestBy (s.net.uip.conns i) r.frame) ∧
      ∀ r ∈ rx :: rxs, SegmentBy (s.net.uip.conns i) r.frame →
        payload r.frame Hdr.flags &&& (TCP_FIN ||| TCP_RST) = 0)
    ⟨fun ⟨h1, h2, h3, h4⟩ => ⟨h1, h2, h3, h4⟩, fun ⟨h1, h2, h3, h4⟩ => ⟨h1, h2, h3, h4⟩⟩

/-- The frame leaves the flag alone. -/
def Still (n : Net) (rx : Rx) : Prop := ∀ c ∈ frameCall n rx, ¬ Moves c.flags

instance (n : Net) (rx : Rx) : Decidable (Still n rx) := inferInstanceAs (Decidable (∀ _ ∈ _, _))

/-- **The client is attended.**  While it waits, no other handshake is complete and no connection
ends; and at the read that follows its `sock_accept`, if the server goes on after it, there are
bytes to read. -/
def Attended (s : App × Fate) (rxs : List Rx) : Prop :=
  Along followed s rxs fun t rx after =>
    (t.2 = .waiting → Still t.1.net rx) ∧
      ∀ conn, t.2 = .serving conn → t.1.pc = .recv conn → after ≠ [] → Readable t.1.net rx

instance (f : Fate) (P : ℤ → Prop) [DecidablePred P] :
    Decidable (∀ conn, f = .serving conn → P conn) :=
  match f with
  | .serving conn => decidable_of_iff (P conn)
      ⟨fun h _ heq => Fate.serving.inj heq ▸ h, fun h => h conn rfl⟩
  | .waiting | .answered | .unanswered | .forgotten => .isTrue fun _ heq => by cases heq

instance (s : App × Fate) (rxs : List Rx) : Decidable (Attended s rxs) :=
  inferInstanceAs (Decidable (Along _ _ _ _))

/-! ## One call -/

variable {s s' : App} {m : Made} {rx : Rx}

/-- A step is a call to the service. -/
theorem httpStep_eq_some (h : httpStep s rx = some (s', m)) :
    ∃ o, s.pc.call = some m.call ∧ Service.step s.net ⟨m.call.request, rx⟩ = some (s'.net, o) ∧
      m.call.returns o.reply = some m.ret ∧ m.told = (calls o.events).map Call.flags ∧
      s'.pc = s.pc.next m.ret := by
  obtain ⟨c, hc, h⟩ := Option.bind_eq_some_iff.mp h
  obtain ⟨-, -, h⟩ := Option.bind_eq_some_iff.mp h
  obtain ⟨⟨net, o⟩, hstep, h⟩ := Option.bind_eq_some_iff.mp h
  obtain ⟨ret, hret, h⟩ := Option.bind_eq_some_iff.mp h
  obtain ⟨rfl, rfl⟩ := Prod.mk.inj (Option.some.inj h)
  exact ⟨o, hc, hstep, hret, rfl, rfl⟩

/-- After the first call the card is asked at every call. -/
theorem polling_of_call {pc : Pc} {c : SockCall} (h : pc.call = some c) (hne : pc ≠ .listen) :
    polling c.request = true := by
  cases pc with
  | listen => exact absurd rfl hne
  | returned => cases h
  | _ =>
    obtain rfl := Option.some.inj h
    rfl

/-- And the server does not come back to it. -/
theorem Pc.next_ne_listen (pc : Pc) (ret : ℤ) : pc.next ret ≠ .listen := by
  cases pc with
  | listen | accept | recv _ =>
    simp only [Pc.next]
    split_ifs <;> simp
  | _ => simp [Pc.next]

/-- **What the application is told** moves the flag exactly if the frame does. -/
theorem moves_iff (h : httpStep s rx = some (s', m)) (hne : s.pc ≠ .listen) :
    (∃ f ∈ m.told, Moves f) ↔ ¬ Still s.net rx := by
  obtain ⟨o, hcall, hstep, -, htold, -⟩ := httpStep_eq_some h
  obtain ⟨hh, -, -⟩ := step_spec hstep
  obtain ⟨cs, hcs, hpoll⟩ := calls_handle (n := s.net) (i := ⟨m.call.request, rx⟩)
    (polling_of_call hcall hne)
  rw [hh] at hcs
  have hquiet : ∀ c ∈ cs, ¬ Moves c.flags := by
    intro c hc
    rw [hpoll c hc]
    decide
  rw [htold, hcs]
  unfold Still
  push Not
  constructor
  · rintro ⟨f, hf, hmoves⟩
    obtain ⟨c, hc, rfl⟩ := List.mem_map.mp hf
    rcases List.mem_append.mp hc with hc | hc
    · exact ⟨c, Option.mem_toList.mp hc, hmoves⟩
    · exact absurd hmoves (hquiet c hc)
  · rintro ⟨c, hc, hmoves⟩
    exact ⟨c.flags, List.mem_map_of_mem (List.mem_append_left _ (Option.mem_toList.mpr hc)), hmoves⟩

/-- The server reads where an accepted connection has been returned. -/
theorem Pc.next_eq_recv {pc : Pc} {ret conn : ℤ} :
    pc.next ret = .recv conn ↔ pc = .accept ∧ ret = conn ∧ 0 ≤ conn := by
  cases pc with
  | accept =>
    by_cases hneg : ret < 0
    · simp only [Pc.next, if_pos hneg, reduceCtorEq, true_and, false_iff]
      rintro ⟨rfl, hpos⟩
      omega
    · simp only [Pc.next, if_neg hneg, Pc.recv.injEq, true_and]
      constructor
      · rintro rfl
        exact ⟨rfl, by omega⟩
      · exact And.left
  | listen =>
    simp only [Pc.next, reduceCtorEq, false_and, iff_false]
    split_ifs <;> simp
  | recv _ =>
    simp only [Pc.next, reduceCtorEq, false_and, iff_false]
    split_ifs <;> simp
  | _ => simp [Pc.next]

/-- The service listens, from the first call on; and the connection the server reads from is the one
the service has. -/
structure Serving (s : App) : Prop where
  settled : Settled s.net
  listening : s.pc ≠ .listen → 0 ≤ s.net.sock.listenPort
  connId : s.pc ≠ .listen → s.net.sock.connId = 1
  conn : ∀ conn, s.pc = .recv conn → conn = s.net.sock.connId

/-- Only `sock_listen` sets the number of the connection. -/
theorem connId_step {n n' : Net} {i : Input} {o : Outcome} (hp : polling i.request = true)
    (h : Service.step n i = some (n', o)) : n'.sock.connId = n.sock.connId := by
  obtain ⟨hh, -, -⟩ := step_spec h
  have hn' : n' = (handle n i).1 := (congrArg Prod.fst hh).symm
  rw [hn', ← netPoll_connId n i.rx]
  rcases handle_polling_cases (n := n) hp with
    ⟨_, _, heq, -, hid⟩ | ⟨-, heq⟩ | ⟨t, _, _, heq, -, hid, -, hkick⟩
  · rw [heq, hid]
  · rw [heq]
    rfl
  · rw [heq, hkick, kick_connId, hid]

/-- The connection that is accepted is the one the service has. -/
theorem connId_of_accept {n n' : Net} {o : Outcome}
    (h : Service.step n ⟨.sockAccept, rx⟩ = some (n', o)) (hok : o.reply.status = .ok) :
    o.reply.connId = n'.sock.connId := by
  obtain ⟨hh, -, -⟩ := step_spec h
  simp only [handle, handleSockAccept] at hh
  split_ifs at hh with hpend
  · obtain ⟨rfl, hr⟩ := Prod.mk.inj hh
    rw [← (Prod.mk.inj hr).2]
    rfl
  · obtain ⟨-, hr⟩ := Prod.mk.inj hh
    rw [← (Prod.mk.inj hr).2] at hok
    cases hok

/-- A status that is not `NET_OK` makes a negative value. -/
theorem code_pos {status : NetStatus} (h : status ≠ .ok) : 0 < status.code := by
  cases status with
  | ok => exact absurd rfl h
  | _ => decide

/-- **One call keeps this.** -/
theorem Serving.step (hs : Serving s) (h : httpStep s rx = some (s', m)) : Serving s' := by
  obtain ⟨o, hcall, hstep, hret, -, hpc⟩ := httpStep_eq_some h
  refine ⟨settled_step hs.settled hstep, fun _ => ?_, fun _ => ?_, fun conn hconn => ?_⟩
  · rcases listening_step hstep with ⟨-, ⟨-, hport⟩, hnone⟩ | ⟨port, -, hpos, -, hport, -⟩
    · rw [hport]
      refine hs.listening fun hlisten => ?_
      -- the first call is `sock_listen(80)`, and it is not refused
      rw [hlisten] at hcall
      have hreq : m.call.request = .sockListen 80 := by
        rw [← Option.some.inj hcall]
        rfl
      have hle := hnone 80 hreq
      omega
    · rw [hport]
      exact hpos.le
  · by_cases hlisten : s.pc = .listen
    · rw [hlisten] at hcall
      obtain ⟨hh, -, -⟩ := step_spec hstep
      rw [← Option.some.inj hcall] at hh
      have hnet : s'.net = (handle s.net ⟨.sockListen 80, rx⟩).1 := (congrArg Prod.fst hh).symm
      rw [hnet]
      rfl
    · rw [connId_step (polling_of_call hcall hlisten) hstep]
      exact hs.connId hlisten
  · obtain ⟨haccept, rfl, hpos⟩ := Pc.next_eq_recv.mp (hpc.symm.trans hconn)
    rw [haccept] at hcall
    obtain ⟨call, ret, _⟩ := m
    obtain rfl : SockCall.accept = call := Option.some.inj hcall
    have hval := Option.some.inj hret
    dsimp only at hval hpos ⊢
    split_ifs at hval with hok
    · rw [← hval]
      exact connId_of_accept hstep hok
    · have hcode := code_pos hok
      omega

/-- Something is waiting in the buffer exactly if there is something to read. -/
theorem rxLen_pos_iff {n : Net} (hn : Settled n) (rx : Rx) :
    0 < (netPoll n rx).1.sock.rxLen ↔ Readable n rx := by
  have hlen : (unread (netPoll n rx).1).length = (netPoll n rx).1.sock.rxLen := by
    rw [unread, Mem.length_load]
  rw [← hlen, List.length_pos_iff, unread_netPoll_eq hn]
  unfold Readable
  cases hd : (frameCall n rx).bind deliveryOf with
  | none => simp
  | some d =>
    have hne : d ≠ [] := by
      obtain ⟨c, -, hc⟩ := Option.bind_eq_some_iff.mp hd
      unfold deliveryOf at hc
      split_ifs at hc with hnew
      rw [← Option.some.inj hc]
      exact hnew.2
    have htake : d.take UIP_BUFSIZE ≠ [] := by
      rw [Ne, List.take_eq_nil_iff, not_or]
      exact ⟨by decide, hne⟩
    simp [htake]

/-- **What `sock_recv` returns is positive exactly if there are bytes to read.** -/
theorem recv_pos_iff {n n' : Net} {o : Outcome} {conn : ℤ} (hn : Settled n)
    (hport : 0 ≤ n.sock.listenPort) (hconn : conn = n.sock.connId)
    (h : Service.step n ⟨.sockRecv conn NET_BUF_SIZE, rx⟩ = some (n', o)) :
    0 < sockRecv o.reply ↔ Readable n rx := by
  obtain ⟨hh, -, -⟩ := step_spec h
  rw [← rxLen_pos_iff hn]
  have hvalid : ¬ ((netPoll n rx).1.sock.listenPort < 0 ∨ conn ≠ (netPoll n rx).1.sock.connId) := by
    rw [(netPoll_listening n rx).2, netPoll_connId]
    exact valid_read hport hconn
  simp only [handle, handleSockRecv, hvalid, if_false] at hh
  by_cases hpos : 0 < (netPoll n rx).1.sock.rxLen
  · rw [if_pos hpos] at hh
    obtain ⟨-, hr⟩ := Prod.mk.inj hh
    rw [← (Prod.mk.inj hr).2]
    refine iff_of_true ?_ hpos
    show 0 < sockRecv ⟨.ok, conn, _, _⟩
    simp only [sockRecv, if_true]
    split_ifs
    · decide
    · omega
  · rw [if_neg hpos] at hh
    refine iff_of_false ?_ hpos
    split_ifs at hh
    · obtain ⟨-, hr⟩ := Prod.mk.inj hh
      rw [← (Prod.mk.inj hr).2]
      simp [sockRecv]
    · obtain ⟨-, hr⟩ := Prod.mk.inj hh
      rw [← (Prod.mk.inj hr).2]
      simp [sockRecv, NetStatus.code]

/-- **The server reads**: it sends its answer next exactly if there are bytes to read, and otherwise
it closes. -/
theorem Serving.read {conn : ℤ} (hs : Serving s) (hpc : s.pc = .recv conn)
    (h : httpStep s rx = some (s', m)) :
    m.call = .recv conn NET_BUF_SIZE ∧
      (Readable s.net rx ∧ s'.pc = .send conn ∨ ¬ Readable s.net rx ∧ s'.pc = .close conn) := by
  obtain ⟨o, hcall, hstep, hret, -, hpc'⟩ := httpStep_eq_some h
  rw [hpc] at hcall hpc'
  obtain ⟨call, ret, _⟩ := m
  obtain rfl : SockCall.recv conn NET_BUF_SIZE = call := Option.some.inj hcall
  have hport := hs.listening (by rw [hpc]; simp)
  have hiff := recv_pos_iff hs.settled hport (hs.conn conn hpc) hstep
  have hval : sockRecv o.reply = ret := by
    simp only [SockCall.returns] at hret
    split_ifs at hret
    exact Option.some.inj hret
  rw [hval] at hiff
  refine ⟨rfl, ?_⟩
  rw [hpc', ← hiff]
  by_cases hpos : 0 < ret
  · exact Or.inl ⟨hpos, if_pos hpos⟩
  · exact Or.inr ⟨hpos, if_neg hpos⟩

/-! ## One step of a client -/

/-- Where the server is while it serves the client. -/
structure Linked (a : App) (f : Fate) : Prop where
  serving : Serving a
  taken : a.pc ≠ .listen
  conn : ∀ conn, f = .serving conn →
    a.pc = .recv conn ∨ a.pc = .send conn ∨ a.pc = .close conn

/-- What a step does for the client. -/
inductive FateStep (a : App) (rx : Rx) (a' : App) : Fate → Fate → Prop
  | forgotten : ¬ Still a.net rx → FateStep a rx a' .waiting .forgotten
  | waits : Still a.net rx → FateStep a rx a' .waiting .waiting
  | accepted {conn : ℤ} : Still a.net rx → a'.pc = .recv conn →
      FateStep a rx a' .waiting (.serving conn)
  | read {conn : ℤ} : a.pc = .recv conn → Readable a.net rx → a'.pc = .send conn →
      FateStep a rx a' (.serving conn) (.serving conn)
  | unread {conn : ℤ} : a.pc = .recv conn → ¬ Readable a.net rx → a'.pc = .close conn →
      FateStep a rx a' (.serving conn) (.serving conn)
  | sent {conn : ℤ} : a.pc = .send conn → FateStep a rx a' (.serving conn) .answered
  | closed {conn : ℤ} : a.pc = .close conn → FateStep a rx a' (.serving conn) .unanswered
  | answered : FateStep a rx a' .answered .answered
  | unanswered : FateStep a rx a' .unanswered .unanswered
  | lost : FateStep a rx a' .forgotten .forgotten

variable {f : Fate}

/-- The server accepts only where it waits for a connection. -/
theorem Pc.call_eq_accept {pc : Pc} (h : pc.call = some .accept) : pc = .accept := by
  cases pc with
  | accept => rfl
  | _ => simp [Pc.call] at h

/-- A connection that is accepted is read from next. -/
theorem accepted_cases (h : httpStep s rx = some (s', m)) :
    Fate.accepted m = .waiting ∨ Fate.accepted m = .serving m.ret ∧ s'.pc = .recv m.ret := by
  obtain ⟨-, hcall, -, -, -, hpc⟩ := httpStep_eq_some h
  unfold Fate.accepted
  split_ifs with hacc
  · obtain ⟨haccept, hpos⟩ := hacc
    rw [haccept] at hcall
    exact Or.inr ⟨rfl, hpc.trans (Pc.next_eq_recv.mpr ⟨Pc.call_eq_accept hcall, rfl, hpos⟩)⟩
  · exact Or.inl rfl

/-- **Every step is one of these.** -/
theorem Linked.fateStep (hs : Linked s f) (h : httpStep s rx = some (s', m)) :
    FateStep s rx s' f (f.next m) := by
  obtain ⟨o, hcall, -, -, -, hpc⟩ := httpStep_eq_some h
  cases f with
  | waiting =>
    by_cases hstill : Still s.net rx
    · have hno : ¬ ∃ f ∈ m.told, Moves f := fun hm => (moves_iff h hs.taken).mp hm hstill
      have hnext : Fate.next m .waiting = Fate.accepted m := if_neg hno
      rw [hnext]
      rcases accepted_cases h with hwait | ⟨hacc, hrecv⟩
      · rw [hwait]
        exact .waits hstill
      · rw [hacc]
        exact .accepted hstill hrecv
    · have hnext : Fate.next m .waiting = .forgotten := if_pos ((moves_iff h hs.taken).mpr hstill)
      rw [hnext]
      exact .forgotten hstill
  | serving conn =>
    rcases hs.conn conn rfl with hrecv | hsend | hclose
    · obtain ⟨hcall', hread⟩ := hs.serving.read hrecv h
      have hnext : Fate.next m (.serving conn) = .serving conn := by simp [Fate.next, hcall']
      rw [hnext]
      rcases hread with ⟨hreadable, hpc'⟩ | ⟨hnot, hpc'⟩
      · exact .read hrecv hreadable hpc'
      · exact .unread hrecv hnot hpc'
    · rw [hsend] at hcall
      have hnext : Fate.next m (.serving conn) = .answered := if_pos (Option.some.inj hcall).symm
      rw [hnext]
      exact .sent hsend
    · rw [hclose] at hcall
      have hnext : Fate.next m (.serving conn) = .unanswered := by
        simp [Fate.next, ← Option.some.inj hcall]
      rw [hnext]
      exact .closed hclose
  | answered => exact .answered
  | unanswered => exact .unanswered
  | forgotten => exact .lost

/-- **One call keeps this.** -/
theorem Linked.step (hs : Linked s f) (h : httpStep s rx = some (s', m)) :
    Linked s' (f.next m) := by
  obtain ⟨-, -, -, -, -, hpc⟩ := httpStep_eq_some h
  refine ⟨hs.serving.step h, hpc ▸ Pc.next_ne_listen _ _, fun conn hconn => ?_⟩
  have hstep := hs.fateStep h
  rw [hconn] at hstep
  cases hstep with
  | accepted _ hpc' => exact Or.inl hpc'
  | read _ _ hpc' => exact Or.inr (Or.inl hpc')
  | unread _ _ hpc' => exact Or.inr (Or.inr hpc')

/-- The client has missed its answer, or the server is about to close its connection. -/
def Lost (a : App) (f : Fate) : Prop := f.Missed ∨ ∃ conn, f = .serving conn ∧ a.pc = .close conn

/-- **Which steps lose the client.** -/
theorem lost_step (hs : Linked s f) (h : httpStep s rx = some (s', m)) :
    ¬ Lost s' (f.next m) ↔ ¬ Lost s f ∧ (f = .waiting → Still s.net rx) ∧
      ∀ conn, f = .serving conn → s.pc = .recv conn → Readable s.net rx := by
  have hstep := hs.fateStep h
  generalize f.next m = f' at hstep
  cases hstep with
  | forgotten hnot => simp [Lost, Fate.Missed, hnot]
  | waits hstill => simp [Lost, Fate.Missed, hstill]
  | accepted hstill hpc => simp [Lost, Fate.Missed, hstill, hpc]
  | read hpc hreadable hpc' => simp [Lost, Fate.Missed, hpc, hreadable, hpc']
  | unread hpc hnot hpc' => simp [Lost, Fate.Missed, hpc, hnot, hpc']
  | sent hpc => simp [Lost, Fate.Missed, hpc]
  | closed hpc => simp [Lost, Fate.Missed, hpc]
  | answered => simp [Lost, Fate.Missed]
  | unanswered => simp [Lost, Fate.Missed]
  | lost => simp [Lost, Fate.Missed]

/-- A client that is lost has missed its answer one step later. -/
theorem missed_step (hs : Linked s f) (h : httpStep s rx = some (s', m)) :
    ¬ (f.next m).Missed ↔ ¬ Lost s f ∧ (f = .waiting → Still s.net rx) := by
  have hstep := hs.fateStep h
  generalize f.next m = f' at hstep
  cases hstep with
  | forgotten hnot => simp [Lost, Fate.Missed, hnot]
  | waits hstill => simp [Lost, Fate.Missed, hstill]
  | accepted hstill _ => simp [Lost, Fate.Missed, hstill]
  | read hpc _ _ => simp [Lost, Fate.Missed, hpc]
  | unread hpc _ _ => simp [Lost, Fate.Missed, hpc]
  | sent hpc => simp [Lost, Fate.Missed, hpc]
  | closed hpc => simp [Lost, Fate.Missed, hpc]
  | answered => simp [Lost, Fate.Missed]
  | unanswered => simp [Lost, Fate.Missed]
  | lost => simp [Lost, Fate.Missed]

/-! ### The flag -/

/-- A frame that leaves the flag alone does. -/
theorem pending_of_still {n : Net} (h : Still n rx) (hup : n.httpd.connPending = true) :
    (netPoll n rx).1.httpd.connPending = true := by
  rw [httpd_connPending_netPoll]
  cases hc : frameCall n rx with
  | none => exact hup
  | some c =>
    obtain ⟨hcon, hends⟩ := not_or.mp (h c hc)
    simp [noted, note, hcon, hends, hup]

/-- The frame that completes a handshake raises it. -/
theorem pending_of_connected {n : Net} {c : Call} (hc : c ∈ frameCall n rx)
    (hcon : c.flags.connected = true) : (netPoll n rx).1.httpd.connPending = true := by
  obtain ⟨-, hends⟩ := synRcvd_of_connected hc hcon
  rw [httpd_connPending_netPoll, Option.mem_def.mp hc]
  simp [noted, note, hcon, hends]

/-- Until `sock_accept` returns a connection it stays up. -/
theorem pending_step (hs : Serving s) (hne : s.pc ≠ .listen) (h : httpStep s rx = some (s', m))
    (hup : (netPoll s.net rx).1.httpd.connPending = true) (hwait : Fate.accepted m = .waiting) :
    s'.net.httpd.connPending = true := by
  obtain ⟨o, hcall, hstep, hret, -, -⟩ := httpStep_eq_some h
  obtain ⟨hh, -, -⟩ := step_spec hstep
  have hnet : s'.net = (handle s.net ⟨m.call.request, rx⟩).1 := (congrArg Prod.fst hh).symm
  rcases handle_polling_cases (n := s.net) (i := ⟨m.call.request, rx⟩)
    (polling_of_call hcall hne) with
    ⟨_, _, heq, hhttpd, -⟩ | ⟨hreq, heq⟩ | ⟨t, _, _, heq, hpend, -, hkick, -⟩
  · rw [hnet, heq, hhttpd]
    exact hup
  · -- it has returned a connection
    obtain ⟨call, ret, told⟩ := m
    cases call with
    | accept =>
      have hreply : o.reply = ⟨.ok, (netPoll s.net rx).1.sock.connId, 0, []⟩ :=
        congrArg (fun r => r.2.2) (hh.symm.trans heq)
      have hval : (netPoll s.net rx).1.sock.connId = ret := by
        simpa [SockCall.returns, hreply] using hret
      rw [netPoll_connId, hs.connId hne] at hval
      simp [Fate.accepted, ← hval] at hwait
    | _ => simp [SockCall.request] at hreq
  · rw [hnet, heq, hkick, (connPending_kick t).1, hpend]
    exact hup

/-! ## Runs -/

variable {n₀ : Net} {is₀ : List Input} {os₀ : List Outcome} {rxs rxs₀ : List Rx}
  {ms ms₀ : List Made} {s₀ s₁ : App} {t₀ t : App × Fate}

/-- Every state of the server is one of these, whatever the service has been used for before. -/
theorem serving_run (hpre : Run Service.step Free Net.init is₀ os₀ n₀)
    (hrun : Run httpStep Free (start n₀) rxs ms s) : Serving s := by
  refine hrun.invariant (P := fun _ s => Serving s) (fun _ _ _ _ _ hs _ h => hs.step h) ?_
  exact ⟨settled_run hpre, fun hne => absurd rfl hne, fun hne => absurd rfl hne,
    fun conn hconn => by simp [start] at hconn⟩

/-- The client follows the server. -/
theorem linked_followed {t t' : App × Fate} (hs : Linked t.1 t.2)
    (h : followed t rx = some (t', m)) : Linked t'.1 t'.2 := by
  obtain ⟨hstep, hf⟩ := annotated_eq_some.mp h
  rw [hf]
  exact hs.step hstep

theorem linked_run (h₀ : Linked t₀.1 t₀.2) (hrun : Run followed Free t₀ rxs ms t) :
    Linked t.1 t.2 :=
  hrun.invariant (P := fun _ t => Linked t.1 t.2)
    (fun _ _ _ _ _ hs _ h => linked_followed hs h) h₀

/-- A client is not lost as long as it is attended at every step. -/
theorem not_lost_iff (h₀ : Linked t₀.1 t₀.2) (hnot : ¬ Lost t₀.1 t₀.2)
    (hrun : Run followed Free t₀ rxs ms t) :
    ¬ Lost t.1 t.2 ↔ Along followed t₀ rxs fun t rx _ =>
      (t.2 = .waiting → Still t.1.net rx) ∧
        ∀ conn, t.2 = .serving conn → t.1.pc = .recv conn → Readable t.1.net rx := by
  induction hrun with
  | nil => exact iff_of_true hnot along_nil
  | snoc hrun _ hf ih =>
    obtain ⟨hstep, hfate⟩ := annotated_eq_some.mp hf
    rw [along_snoc hrun, ← ih, hfate]
    exact lost_step (linked_run h₀ hrun) hstep

/-- **A client is answered exactly if it is attended**, from where it is not lost. -/
theorem missed_iff (h₀ : Linked t₀.1 t₀.2) (hnot : ¬ Lost t₀.1 t₀.2)
    (hrun : Run followed Free t₀ rxs ms t) : ¬ t.2.Missed ↔ Attended t₀ rxs := by
  cases hrun with
  | nil => exact iff_of_true (fun hmiss => hnot (Or.inl hmiss)) along_nil
  | snoc hrun _ hf =>
    obtain ⟨hstep, hfate⟩ := annotated_eq_some.mp hf
    rw [Attended, along_snoc hrun, hfate, missed_step (linked_run h₀ hrun) hstep,
      not_lost_iff h₀ hnot hrun]
    simp

/-- **A client that waits is announced**: the flag is up. -/
theorem pending_run (h₀ : Linked t₀.1 t₀.2)
    (hup : t₀.2 = .waiting → t₀.1.net.httpd.connPending = true)
    (hrun : Run followed Free t₀ rxs ms t) (hwait : t.2 = .waiting) :
    t.1.net.httpd.connPending = true := by
  induction hrun with
  | nil => exact hup hwait
  | @snoc _ _ u _ rx m hrun _ hf ih =>
    obtain ⟨hstep, hfate⟩ := annotated_eq_some.mp hf
    have hlinked := linked_run h₀ hrun
    have hcase := hlinked.fateStep hstep
    have hnext : u.2.next m = .waiting := hfate.symm.trans hwait
    have hacc : u.2 = .waiting ∧ Still u.1.net rx := by
      rw [hnext] at hcase
      generalize u.2 = f at hcase
      cases hcase with
      | waits hstill => exact ⟨rfl, hstill⟩
    obtain ⟨hbefore, hstill⟩ := hacc
    have haccepted : Fate.accepted m = .waiting := by
      rw [hbefore] at hnext
      simp only [Fate.next] at hnext
      split_ifs at hnext
      exact hnext
    exact pending_step hlinked.serving hlinked.taken hstep
      (pending_of_still hstill (ih hbefore)) haccepted

/-- Where the client begins. -/
theorem linked_accepted (hs : Serving s) (h : httpStep s rx = some (s', m)) :
    Linked s' (Fate.accepted m) ∧ ¬ Lost s' (Fate.accepted m) := by
  obtain ⟨-, -, -, -, -, hpc⟩ := httpStep_eq_some h
  have hne : s'.pc ≠ .listen := hpc ▸ Pc.next_ne_listen _ _
  rcases accepted_cases h with hwait | ⟨hacc, hrecv⟩
  · rw [hwait]
    exact ⟨⟨hs.step h, hne, by simp⟩, by simp [Lost, Fate.Missed]⟩
  · rw [hacc]
    refine ⟨⟨hs.step h, hne, fun conn hconn => Or.inl ?_⟩, by simp [Lost, Fate.Missed, hrecv]⟩
    rw [hrecv, Fate.serving.inj hconn]

/-- The card has nothing. -/
def nothing : Rx := {}

/-- The card has this segment. -/
def segment (p : PeerSegment) : Rx := { frame := p.frame }

/-- A client's request, in one segment. -/
def get (port : ℕ) : Rx :=
  segment { port := port, seqno := 101, ackno := 1, flags := TCP_ACK,
            data := bytes "GET / HTTP/1.0\r\n\r\n" }

/-- The first client has received the answer. -/
def received : Rx :=
  segment { port := 1000, seqno := 119, ackno := 1 + helloResponse.length, flags := TCP_ACK }

/-- The first client connects and sends its request; the second has sent its `SYN` meanwhile. -/
def firstClient : List Rx :=
  [nothing, segment (.syn 1000 200), segment (.syn 2000 200), segment (.ack 1000), get 1000]

/-- The second, which has just completed its handshake, sends its request while the first is being
served. -/
def inTime : List Rx := [received, get 2000, nothing, nothing, nothing]

end Http
end EgosNet
