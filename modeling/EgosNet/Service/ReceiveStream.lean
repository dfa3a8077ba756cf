import EgosNet.Service.Served
import EgosNet.Service.Peer

/-!
# The receive stream

Data reaches a reader in two hops.  `httpd_appcall` copies what uIP delivers into
the bridge, `sync_socket_state` moves it on to `sock_rx_buf`, and `sock_recv`
returns it.  Both buffers hold one delivery; uIP has acknowledged the bytes by
then, and nothing closes the window while the buffer is full.

So the stream comes through whole exactly as long as every delivery finds the
buffer empty.  `ReadBeforeNext` is that condition, for one step.  Under it the
bytes uIP has delivered are, at every moment, the bytes that were returned
followed by the bytes still in the buffer (`received_invariant`); a read that finds
nothing therefore means that everything has been returned
(`recv_stream_intact`).

Without it a second segment replaces the first, and `recv_stream_overwritten` is
such a run.
-/

namespace EgosNet
namespace Service

open Foundation Uip

/-- The payloads uIP delivered with `UIP_NEWDATA`. -/
def deliveredIn (ev : List Event) : List UInt8 :=
  ((calls ev).filter fun c => c.flags.newdata).flatMap fun c => c.data

/-- The bytes uIP delivered in the course of a run. -/
def delivered (os : List Outcome) : List UInt8 := os.flatMap fun o => deliveredIn o.events

/-- The bytes one step returned to the reader. -/
def returnedIn (o : Outcome) : List UInt8 :=
  match o.request, o.reply.status with
  | .sockRecv _ _, .ok => o.reply.buf
  | _, _ => []

/-- The bytes that `sock_recv` returned in the course of a run. -/
def returned (os : List Outcome) : List UInt8 := os.flatMap returnedIn

/-- The requests of the stream: accepting, sending, and reading with a whole buffer. -/
def streamRequest : Request → Bool
  | .sockAccept => true
  | .sockSend _ _ _ => true
  | .sockRecv _ length => length = NET_BUF_SIZE
  | _ => false

/-- A delivery finds the buffer of the sockets empty, and fits the buffer of the
bridge. -/
def ReadBeforeNext (n : Net) (i : Input) : Prop :=
  ∀ c ∈ frameCall n i.rx, c.flags.newdata = true → n.sock.rxLen = 0 ∧ c.data.length ≤ UIP_BUFSIZE

/-- The steps of the stream. -/
def StreamStep (_ : Net) (i : Input) : Prop := streamRequest i.request = true

/-- The steps of the stream under which it stays whole. -/
def IntactStep (n : Net) (i : Input) : Prop := streamRequest i.request = true ∧ ReadBeforeNext n i

instance (n : Net) (i : Input) : Decidable (ReadBeforeNext n i) :=
  inferInstanceAs (Decidable (∀ c ∈ frameCall n i.rx, _))

instance (n : Net) (i : Input) : Decidable (StreamStep n i) :=
  inferInstanceAs (Decidable (_ = _))

instance (n : Net) (i : Input) : Decidable (IntactStep n i) :=
  inferInstanceAs (Decidable (_ ∧ _))

/-! ## The invariant -/

/-- The bytes waiting in the buffer of the sockets. -/
def unread (n : Net) : List UInt8 := n.sock.rxBuf.load 0 n.sock.rxLen

theorem unread_of_zero {n : Net} (h : n.sock.rxLen = 0) : unread n = [] := by
  rw [unread, h, Mem.load_zero]

/-- `sync_socket_state` moves what the bridge holds to the sockets, and leaves them
alone if it holds nothing. -/
theorem load_syncSock (h : Httpd) (s : Sock) (hle : h.rxLen ≤ NET_BUF_SIZE) :
    (syncSock h s).rxBuf.load 0 (syncSock h s).rxLen =
      if 0 < h.rxLen then h.rxBuf.load 0 h.rxLen else s.rxBuf.load 0 s.rxLen := by
  by_cases hpos : 0 < h.rxLen
  · have hread := Mem.load_store s.rxBuf 0 (h.rxBuf.load 0 h.rxLen)
    rw [Mem.length_load] at hread
    simp [syncSock, hpos, Nat.min_eq_left hle, hread]
  · simp [syncSock, hpos]

/-- A call without new data leaves nothing in the bridge. -/
theorem rxLen_noted_quiet {h : Httpd} {call : Option Call} (hzero : h.rxLen = 0)
    (hquiet : ∀ c ∈ call, c.flags.newdata = false) : (noted h call).rxLen = 0 := by
  cases call with
  | none => exact hzero
  | some c => simp [noted, note, hquiet c rfl, hzero]

/-- A frame that brings no data moves nothing. -/
theorem unread_netPoll_quiet {n : Net} {rx : Rx} (hn : Settled n)
    (hquiet : ∀ c ∈ frameCall n rx, c.flags.newdata = false) :
    unread (netPoll n rx).1 = unread n := by
  have hrx := rxLen_noted_quiet hn hquiet
  rw [unread, netPoll_sock]
  split_ifs
  · rfl
  · rw [load_syncSock _ _ (by rw [hrx]; exact Nat.zero_le _), hrx]
    rfl

/-- What a frame brings, cut to the buffer of the bridge, takes the place of what was waiting. -/
theorem unread_netPoll_newdata {n : Net} {rx : Rx} {c : Call} (hc : frameCall n rx = some c)
    (hnew : c.flags.newdata = true) :
    unread (netPoll n rx).1 = if c.data = [] then unread n else c.data.take UIP_BUFSIZE := by
  have hf : rx.frame ≠ [] := by
    intro hf
    simp [frameCall, frameVerdict, hf] at hc
  have hlen : min c.data.length UIP_BUFSIZE = (c.data.take UIP_BUFSIZE).length := by
    rw [List.length_take, min_comm]
  have hload := Mem.load_store n.httpd.rxBuf 0 (c.data.take UIP_BUFSIZE)
  have hle : (noted n.httpd (some c)).rxLen ≤ NET_BUF_SIZE := by
    simp only [noted, note, hnew, if_true]
    exact (min_le_right _ _).trans (by decide)
  rw [unread, netPoll_sock, if_neg hf, hc, load_syncSock _ _ hle]
  simp only [noted, note, hnew, if_true, hlen, hload]
  by_cases hnil : c.data = []
  · simp [hnil, unread]
  · have hpos : 0 < (c.data.take UIP_BUFSIZE).length := by
      rw [List.length_take]
      exact lt_min (by decide) (List.length_pos_iff.mpr hnil)
    rw [if_pos hpos, if_neg hnil]

/-- The data that a call delivers. -/
def deliveryOf (c : Call) : Option (List UInt8) :=
  if c.flags.newdata = true ∧ c.data ≠ [] then some c.data else none

/-- **What a frame leaves in the buffer**: the data it delivers, cut to the buffer of the bridge, or
what was there if it delivers none. -/
theorem unread_netPoll_eq {n : Net} (hn : Settled n) (rx : Rx) :
    unread (netPoll n rx).1 =
      (((frameCall n rx).bind deliveryOf).map (List.take UIP_BUFSIZE)).getD (unread n) := by
  cases hc : frameCall n rx with
  | none =>
    rw [unread_netPoll_quiet hn (by simp [hc])]
    rfl
  | some c =>
    cases hnew : c.flags.newdata with
    | false =>
      rw [unread_netPoll_quiet hn (by simp [hc, hnew])]
      simp [deliveryOf, hnew]
    | true =>
      rw [unread_netPoll_newdata hc hnew]
      by_cases hnil : c.data = []
      · simp [deliveryOf, hnil]
      · simp [deliveryOf, hnil, hnew]

/-- A read returns the beginning of what is in the buffer, and empties it; or it is refused. -/
theorem handle_sockRecv_cases (n : Net) (connId length : ℤ) (rx : Rx) :
    (∃ reply : Reply, reply.status ≠ .ok ∧
      handle n ⟨.sockRecv connId length, rx⟩ = ((netPoll n rx).1, (netPoll n rx).2, reply)) ∨
    ∃ n' reply, reply.status = .ok ∧ reply.buf <+: unread (netPoll n rx).1 ∧
      n'.sock.rxLen = 0 ∧
      handle n ⟨.sockRecv connId length, rx⟩ = (n', (netPoll n rx).2, reply) := by
  simp only [handle, handleSockRecv]
  split_ifs with hinv hwait hlong hneg hneg hclosed
  · exact Or.inl ⟨_, by simp, rfl⟩
  · refine Or.inr ⟨_, _, rfl, ?_, rfl, rfl⟩
    rw [unread, ← Mem.load_take _ _ (show length.toNat ≤ (netPoll n rx).1.sock.rxLen by omega)]
    exact List.take_prefix _ _
  · refine Or.inr ⟨_, _, rfl, ?_, rfl, rfl⟩
    rw [unread, ← Mem.load_take _ _ (show length.toNat ≤ (netPoll n rx).1.sock.rxLen by omega)]
    exact List.take_prefix _ _
  · exact absurd hneg (by omega)
  · exact Or.inr ⟨_, _, rfl, List.prefix_rfl, rfl, rfl⟩
  · exact Or.inl ⟨_, by simp, rfl⟩
  · exact Or.inl ⟨_, by simp, rfl⟩

/-- **One frame**: what is delivered is added to what is waiting, if nothing was. -/
theorem unread_netPoll {n : Net} {rx : Rx} (hn : Settled n)
    (hread : ∀ c ∈ frameCall n rx, c.flags.newdata = true →
      n.sock.rxLen = 0 ∧ c.data.length ≤ UIP_BUFSIZE) :
    unread (netPoll n rx).1 = unread n ++ deliveredIn (netPoll n rx).2 := by
  rw [deliveredIn, calls_netPoll]
  cases hc : frameCall n rx with
  | none =>
    rw [unread_netPoll_quiet hn (by simp [hc])]
    simp
  | some c =>
    cases hnew : c.flags.newdata with
    | false =>
      rw [unread_netPoll_quiet hn (by simp [hc, hnew])]
      simp [hnew]
    | true =>
      obtain ⟨hempty, hfits⟩ := hread c hc hnew
      rw [unread_netPoll_newdata hc hnew, unread_of_zero hempty, List.take_of_length_le hfits]
      split_ifs with hnil
      · simp [hnil]
      · simp [hnew]

/-- **A kick** delivers nothing and moves nothing. -/
theorem unread_kick {n : Net} (hn : Settled n) :
    unread (kickActiveConnection n).1 = unread n ∧
      deliveredIn (kickActiveConnection n).2 = [] := by
  have hnew : ∀ c ∈ kickCall n, c.flags.newdata = false := by
    intro c hc
    rw [(kickCall_flags hc).1]
  have hrx := rxLen_noted_quiet hn hnew
  constructor
  · rw [unread, kick_sock]
    split_ifs
    · rfl
    · rw [load_syncSock _ _ (by rw [hrx]; exact Nat.zero_le _), hrx]
      rfl
  · rw [deliveredIn, calls_kick]
    cases hc : kickCall n with
    | none => rfl
    | some c => simp [hnew c hc]

/-- The buffer of the sockets is never over-full. -/
theorem rxLen_netPoll {n : Net} (h : n.sock.rxLen ≤ NET_BUF_SIZE) (rx : Rx) :
    (netPoll n rx).1.sock.rxLen ≤ NET_BUF_SIZE := by
  rw [netPoll_sock]
  split_ifs
  · exact h
  · simp only [syncSock]
    split_ifs
    · exact Nat.min_le_right _ _
    · exact h

theorem rxLen_kick {n : Net} (h : n.sock.rxLen ≤ NET_BUF_SIZE) :
    (kickActiveConnection n).1.sock.rxLen ≤ NET_BUF_SIZE := by
  rw [kick_sock]
  split_ifs
  · exact h
  · simp only [syncSock]
    split_ifs
    · exact Nat.min_le_right _ _
    · exact h

/-- What has been delivered is what has been returned and then what is waiting. -/
structure Received (os : List Outcome) (n : Net) : Prop where
  settled : Settled n
  rxLen : n.sock.rxLen ≤ NET_BUF_SIZE
  bytes : delivered os = returned os ++ unread n

theorem deliveredIn_append (ev ev' : List Event) :
    deliveredIn (ev ++ ev') = deliveredIn ev ++ deliveredIn ev' := by
  simp [deliveredIn]

/-- One step of the stream: nothing is lost between what waited before, what arrived,
what was returned and what waits now. -/
theorem unread_step {n n' : Net} {i : Input} {o : Outcome} (hn : Settled n)
    (hle : n.sock.rxLen ≤ NET_BUF_SIZE) (hi : IntactStep n i) (h : step n i = some (n', o)) :
    unread n ++ deliveredIn o.events = returnedIn o ++ unread n' ∧
      n'.sock.rxLen ≤ NET_BUF_SIZE := by
  obtain ⟨hh, hreq, -⟩ := step_spec h
  obtain ⟨request, rx⟩ := i
  obtain ⟨hstream, hread⟩ := hi
  have hpoll := unread_netPoll hn hread
  have hset := settled_netPoll hn rx
  have hlen := rxLen_netPoll hle rx
  obtain ⟨hn', hev, hrep⟩ : n' = (handle n ⟨request, rx⟩).1 ∧
      o.events = (handle n ⟨request, rx⟩).2.1 ∧ o.reply = (handle n ⟨request, rx⟩).2.2 := by
    rw [hh]
    exact ⟨rfl, rfl, rfl⟩
  rw [hn', hev, returnedIn, hreq, hrep]
  cases request with
  | sockAccept =>
    simp only [handle, handleSockAccept]
    split_ifs <;> exact ⟨by rw [← hpoll]; rfl, hlen⟩
  | sockSend connId length buf =>
    rcases handle_sockSend_cases n connId length buf rx with ⟨_, -, heq⟩ | ⟨t, ht, -, -, heq⟩
    · rw [heq]
      exact ⟨by rw [← hpoll]; rfl, hlen⟩
    · -- the kick, with the payload that was taken over, leaves the receive side alone
      have hsock := takePayload_sock (netPoll n rx).1 (clampNetLength length) buf
      have htset : Settled t := by
        unfold Settled
        rw [ht, (takePayload_httpd _ _ _).1]
        exact hset
      have htlen : t.sock.rxLen ≤ NET_BUF_SIZE := by
        rw [ht, hsock]
        exact hlen
      have htread : unread t = unread (netPoll n rx).1 := by
        rw [ht, unread, hsock]
        rfl
      obtain ⟨h1, h2⟩ := unread_kick htset
      rw [heq]
      exact ⟨by rw [deliveredIn_append, h2, h1, htread, hpoll, List.append_nil]; rfl,
        rxLen_kick htlen⟩
  | sockRecv connId length =>
    have hlength : length = NET_BUF_SIZE := by simpa [streamRequest] using hstream
    have hwhole : ¬ ((netPoll n rx).1.sock.rxLen : ℤ) > length := by
      rw [hlength]
      exact_mod_cast not_lt.mpr hlen
    have hsign : ¬ ((netPoll n rx).1.sock.rxLen : ℤ) < 0 := by omega
    simp only [handle, handleSockRecv, hwhole, hsign, if_false, Int.toNat_natCast]
    split_ifs
    · exact ⟨by rw [← hpoll]; rfl, hlen⟩
    · exact ⟨by rw [← hpoll]; simp [unread], Nat.zero_le _⟩
    · exact ⟨by rw [← hpoll]; rfl, hlen⟩
    · exact ⟨by rw [← hpoll]; rfl, hlen⟩
  | netSend length buf => simp [streamRequest] at hstream
  | netRecv => simp [streamRequest] at hstream
  | sockListen port => simp [streamRequest] at hstream
  | sockClose connId => simp [streamRequest] at hstream

theorem received_step {os : List Outcome} {n n' : Net} {i : Input} {o : Outcome}
    (hn : Received os n) (hi : IntactStep n i) (h : step n i = some (n', o)) :
    Received (os ++ [o]) n' := by
  obtain ⟨hbytes, hlen⟩ := unread_step hn.settled hn.rxLen hi h
  refine ⟨settled_step hn.settled h, hlen, ?_⟩
  calc delivered (os ++ [o])
      = delivered os ++ deliveredIn o.events := by simp [delivered]
    _ = returned os ++ (unread n ++ deliveredIn o.events) := by rw [hn.bytes, List.append_assoc]
    _ = returned os ++ (returnedIn o ++ unread n') := by rw [hbytes]
    _ = returned (os ++ [o]) ++ unread n' := by simp [returned]

/-- **Along a run**, what has been delivered is what has been returned and then what is
waiting. -/
theorem received_invariant {n₀ n : Net} {is : List Input} {os : List Outcome}
    (hset : Settled n₀) (hempty : n₀.sock.rxLen = 0) (hrun : Run step IntactStep n₀ is os n) :
    Received os n := by
  refine hrun.invariant (P := Received) (fun _ _ _ _ _ hn hi h => received_step hn hi h) ?_
  exact ⟨hset, by rw [hempty]; exact Nat.zero_le _, by rw [unread_of_zero hempty]; rfl⟩

/-- A listen that succeeds leaves nothing to read. -/
theorem rxLen_of_listen {n n' : Net} {port : ℤ} {rx : Rx} {o : Outcome}
    (h : step n ⟨.sockListen port, rx⟩ = some (n', o)) (hok : o.reply.status = .ok) :
    n'.sock.rxLen = 0 := by
  obtain ⟨hh, -, -⟩ := step_spec h
  simp only [handle, handleSockListen] at hh
  split_ifs at hh
  · obtain ⟨-, -, hr⟩ : _ ∧ _ ∧ _ = o.reply := by simpa only [Prod.mk.injEq] using hh
    rw [← hr] at hok
    simp at hok
  · obtain ⟨rfl, -⟩ := Prod.mk.inj hh
    rfl

/-- A read that finds nothing has nothing to find. -/
theorem unread_of_blocked {n n' : Net} {i : Input} {o : Outcome} {connId length : ℤ}
    (h : step n i = some (n', o)) (hreq : o.request = .sockRecv connId length)
    (hst : o.reply.status = .wouldBlock ∨ o.reply.status = .closed) : unread n' = [] := by
  obtain ⟨hh, hreq', -⟩ := step_spec h
  obtain ⟨request, rx⟩ := i
  obtain rfl : request = .sockRecv connId length := hreq'.symm.trans hreq
  simp only [handle, handleSockRecv] at hh
  split_ifs at hh with h1 h2 h3 <;> obtain ⟨rfl, hr⟩ := Prod.mk.inj hh <;>
    rw [← (Prod.mk.inj hr).2] at hst <;> simp at hst
  · exact unread_of_zero (by omega)
  · exact unread_of_zero (by omega)

/-! ## The stream -/

/-- **The receive stream is intact as long as every delivery is read before the next.**
After a listen, over any requests to accept, send and read and any frames: what has
been returned is a prefix of what has been delivered, and all of it when the last
step was a read that found nothing. -/
theorem recv_stream_intact {is₀ is : List Input} {os₀ os : List Outcome} {n₀ n₁ n : Net}
    {port : ℤ} {rx : Rx} {o₁ : Outcome} (hpre : Run step Free Net.init is₀ os₀ n₀)
    (hlisten : step n₀ ⟨.sockListen port, rx⟩ = some (n₁, o₁)) (hok : o₁.reply.status = .ok)
    (hrun : Run step IntactStep n₁ is os n) :
    returned os <+: delivered os ∧
      ∀ o connId length, os.getLast? = some o → o.request = .sockRecv connId length →
        (o.reply.status = .wouldBlock ∨ o.reply.status = .closed) →
        returned os = delivered os := by
  have hset : Settled n₁ := settled_step (settled_run hpre) hlisten
  have hinv := received_invariant hset (rxLen_of_listen hlisten hok) hrun
  refine ⟨⟨unread n, hinv.bytes.symm⟩, ?_⟩
  intro o connId length hlast hreq hst
  cases hrun with
  | nil => simp at hlast
  | snoc _ _ hf =>
    obtain rfl : _ = o := by simpa using hlast
    have hnone := unread_of_blocked hf hreq hst
    rw [hinv.bytes, hnone, List.append_nil]

/-- A client connects and sends two segments; each is read before the next arrives. -/
def readInTime : List Input :=
  connect 1000 100 ++
    [Request.receiving (.sockRecv 1 512)
      { port := 1000, seqno := 101, ackno := 1, flags := TCP_ACK, data := [65, 66] },
     Request.receiving (.sockRecv 1 512)
      { port := 1000, seqno := 103, ackno := 1, flags := TCP_ACK, data := [67, 68] },
     Request.alone (.sockRecv 1 512)]

theorem recv_stream_intact_readInTime :
    ∃ os n, Run step IntactStep listening readInTime os n ∧ returned os = [65, 66, 67, 68] ∧
      returned os <+: delivered os := by
  have hexec : ((exec (guarded step IntactStep) listening readInTime).map fun r =>
      returned r.2) = some [65, 66, 67, 68] := by decide +kernel
  obtain ⟨⟨n, os⟩, hr, hret⟩ := Option.map_eq_some_iff.mp hexec
  have hrun := run_of_exec_guarded hr
  exact ⟨os, n, hrun, hret, (recv_stream_intact Run.nil step_listen80 rfl hrun).1⟩

/-- A client connects and sends two segments, which both arrive before the first
read. -/
def unreadTooLong : List Input :=
  connect 1000 100 ++
    [Request.receiving .sockAccept
      { port := 1000, seqno := 101, ackno := 1, flags := TCP_ACK, data := [65, 66] },
     Request.receiving .sockAccept
      { port := 1000, seqno := 103, ackno := 1, flags := TCP_ACK, data := [67, 68] },
     Request.alone (.sockRecv 1 512)]

/-- **The second segment replaces the first**: four bytes were delivered, and the
reader got the last two. -/
theorem recv_stream_overwritten :
    ∃ os n, Run step StreamStep listening unreadTooLong os n ∧ returned os = [67, 68] ∧
      delivered os = [65, 66, 67, 68] ∧ ¬ returned os <+: delivered os := by
  have hexec : ((exec (guarded step StreamStep) listening unreadTooLong).map fun r =>
      (returned r.2, delivered r.2)) = some ([67, 68], [65, 66, 67, 68]) := by decide +kernel
  obtain ⟨⟨n, os⟩, hr, hret⟩ := Option.map_eq_some_iff.mp hexec
  obtain ⟨h1, h2⟩ := Prod.mk.inj hret
  refine ⟨os, n, run_of_exec_guarded hr, h1, h2, ?_⟩
  rw [h1, h2]
  decide

end Service
end EgosNet
