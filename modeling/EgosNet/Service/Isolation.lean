import EgosNet.Service.ReceiveStream
import EgosNet.Uip.Transitions

/-!
# One connection and the others

uIP keeps up to forty connections; the bridge keeps one set of variables and does
not look at which connection it is called for.  This file says exactly when a
frame of another client leaves alone what the owner of the accepted connection can
observe (`isolation_iff`).

Two things go into the answer.  One is the call of the application that the frame
leads to: an event of the other client is noted as if it were the owner's.  The
other is that every frame makes `sync_socket_state` copy the variables of the
bridge, so even a frame without an event shows where the copies had been changed
since the last time (by `sock_close`).  `Harmless` lists the cases.

Which connection has been accepted is not recorded anywhere in the program.
`acceptedSlot` reads it off what was observed: the last connection that uIP
reported as connected when `sock_accept` answered `NET_OK`, until uIP reports its
end.
-/

namespace EgosNet
namespace Service

open Foundation Uip

/-! ## The accepted connection -/

/-- The connection last reported as connected, and the accepted one. -/
structure Tracking where
  connected : Option Slot := none
  accepted : Option Slot := none

/-- The last connection reported as connected in the course of a step. -/
def connectedIn (ev : List Event) : Option Slot :=
  (((calls ev).filter fun c => c.flags.connected).getLast?).map fun c => c.slot

/-- uIP reports the end of the connection in slot `a`. -/
def endedIn (ev : List Event) (a : Slot) : Bool :=
  (calls ev).any fun c => ends c.flags ∧ c.slot = a

def track (t : Tracking) (o : Outcome) : Tracking :=
  let connected := (connectedIn o.events).or t.connected
  { connected := connected
    accepted :=
      if isAccept o then connected else t.accepted.filter fun a => ¬ endedIn o.events a }

/-- The slot of the connection that has been accepted and has not ended. -/
def acceptedSlot (os : List Outcome) : Option Slot := (os.foldl track {}).accepted

/-! ## What the owner observes -/

/-- What the owner of the accepted connection can observe is the same. -/
structure SameView (n n' : Net) : Prop where
  connOpen : n'.sock.connOpen = n.sock.connOpen
  connClosed : n'.sock.connClosed = n.sock.connClosed
  rxLen : n'.sock.rxLen = n.sock.rxLen
  data : unread n' = unread n
  txPending : n'.sock.txPending = n.sock.txPending
  closePending : n'.httpd.closePending = n.httpd.closePending

/-- The frame is a TCP segment to the listening port from another client than the one
in slot `a`. -/
def Foreign (n : Net) (a : Slot) (rx : Rx) : Prop :=
  rx.frame ≠ [] ∧
    word16 (earthNetRecv n.uip rx).buf ArpHdr.type = HTONS UIP_ETHTYPE_IP ∧
    (earthNetRecv n.uip rx).buf Hdr.proto = UIP_PROTO_TCP ∧
    word16 (earthNetRecv n.uip rx).buf Hdr.destport = HTONS n.sock.listenPort ∧
    (word16 (earthNetRecv n.uip rx).buf Hdr.srcport ≠ (n.uip.conns a).rport ∨
      word32 (earthNetRecv n.uip rx).buf Hdr.srcipaddr ≠ (n.uip.conns a).ripaddr)

instance (n : Net) (a : Slot) (rx : Rx) : Decidable (Foreign n a rx) :=
  inferInstanceAs (Decidable (_ ∧ _))

/-- Without an event the copies must agree with the variables of the bridge. -/
def HarmlessSync (n : Net) : Prop :=
  n.sock.connOpen = n.httpd.connOpen ∧ n.sock.connClosed = n.httpd.connClosed ∧
    n.sock.txPending = n.httpd.txPending

instance (n : Net) : Decidable (HarmlessSync n) := inferInstanceAs (Decidable (_ ∧ _))

/-- An event must be one that the owner has already seen the like of: an end when the
socket is closed, a connection when it is open, an acknowledgement when nothing is
pending, the very data that is waiting; and no close may be pending. -/
structure HarmlessCall (n : Net) (c : Call) : Prop where
  ended : ends c.flags = true → n.sock.connOpen = false ∧ n.sock.connClosed = true
  connected : ends c.flags = false → c.flags.connected = true →
    n.sock.connOpen = true ∧ n.sock.connClosed = false
  neither : ends c.flags = false → c.flags.connected = false →
    n.sock.connOpen = n.httpd.connOpen ∧ n.sock.connClosed = n.httpd.connClosed
  acked : c.flags.ackdata = true → n.sock.txPending = false
  unacked : c.flags.ackdata = false → n.sock.txPending = n.httpd.txPending
  newdata : c.flags.newdata = true → c.data = [] ∨ c.data.take UIP_BUFSIZE = unread n
  closePending : n.httpd.closePending = false

/-- The frame does no harm. -/
def Harmless (n : Net) (rx : Rx) : Prop :=
  match frameCall n rx with
  | none => HarmlessSync n
  | some c => HarmlessCall n c

/-- The view after a frame, in terms of what the bridge has noted. -/
theorem sameView_iff {n : Net} {rx : Rx} (hf : rx.frame ≠ []) {h : Httpd}
    (hnoted : noted n.httpd (frameCall n rx) = h) (hle : h.rxLen ≤ NET_BUF_SIZE) :
    SameView n (netPoll n rx).1 ↔
      (n.sock.connOpen = h.connOpen ∧ n.sock.connClosed = h.connClosed) ∧
        n.sock.txPending = h.txPending ∧ n.httpd.closePending = h.closePending ∧
        (0 < h.rxLen → h.rxBuf.load 0 h.rxLen = unread n) := by
  have hsock : (netPoll n rx).1.sock = syncSock h n.sock := by rw [netPoll_sock, if_neg hf, hnoted]
  have hhttpd : (netPoll n rx).1.httpd.closePending = h.closePending := by
    rw [netPoll_httpd, if_neg hf, hnoted]
  have hread : unread (netPoll n rx).1 = if 0 < h.rxLen then h.rxBuf.load 0 h.rxLen
      else unread n := by rw [unread, hsock, load_syncSock h n.sock hle, unread]
  have hlen : ∀ m : Net, (unread m).length = m.sock.rxLen := fun m => Mem.length_load _ _ _
  constructor
  · rintro ⟨h1, h2, -, h4, h5, h6⟩
    rw [hsock] at h1 h2 h5
    rw [hhttpd] at h6
    rw [hread] at h4
    refine ⟨⟨h1.symm, h2.symm⟩, h5.symm, h6.symm, fun hpos => ?_⟩
    rwa [if_pos hpos] at h4
  · rintro ⟨⟨h1, h2⟩, h3, h4, h5⟩
    have hdata : unread (netPoll n rx).1 = unread n := by
      rw [hread]
      split_ifs with hpos
      · exact h5 hpos
      · rfl
    refine ⟨by rw [hsock, h1]; rfl, by rw [hsock, h2]; rfl, ?_, hdata, by rw [hsock, h3]; rfl, ?_⟩
    · rw [← hlen, ← hlen, hdata]
    · rw [hhttpd, h4]

/-- **A frame leaves the view alone exactly when it is harmless.** -/
theorem sameView_netPoll_iff {n : Net} {rx : Rx} (hn : Settled n) (hf : rx.frame ≠ []) :
    SameView n (netPoll n rx).1 ↔ Harmless n rx := by
  have hzero : n.httpd.rxLen = 0 := hn
  unfold Harmless
  cases hc : frameCall n rx with
  | none =>
    rw [sameView_iff hf (h := n.httpd) (by rw [hc]; rfl) (by rw [hzero]; exact Nat.zero_le _)]
    simp only [hzero, lt_irrefl, false_implies, and_true, HarmlessSync, and_assoc]
  | some c =>
    have hfits : (note c.flags c.data n.httpd).rxLen ≤ NET_BUF_SIZE := by
      simp only [note]
      split_ifs
      · exact (Nat.min_le_right _ _).trans (by decide)
      · rw [hzero]
        exact Nat.zero_le _
    have hdata : (0 < (note c.flags c.data n.httpd).rxLen →
        (note c.flags c.data n.httpd).rxBuf.load 0 (note c.flags c.data n.httpd).rxLen =
          unread n) ↔
        (c.flags.newdata = true → c.data = [] ∨ c.data.take UIP_BUFSIZE = unread n) := by
      cases hnew : c.flags.newdata with
      | false => simp [note, hnew, hzero]
      | true =>
        have hload := Mem.load_store n.httpd.rxBuf 0 (c.data.take UIP_BUFSIZE)
        rw [List.length_take, Nat.min_comm] at hload
        simp only [note, hnew, if_true, hload, true_implies]
        constructor
        · intro h
          by_cases hnil : c.data = []
          · exact Or.inl hnil
          · refine Or.inr (h ?_)
            have hpos := List.length_pos_iff.mpr hnil
            exact Nat.lt_min.mpr ⟨hpos, by decide⟩
        · rintro (hnil | h) hpos
          · simp [hnil] at hpos
          · exact h
    rw [sameView_iff hf (h := note c.flags c.data n.httpd) (by rw [hc]; rfl) hfits, hdata]
    constructor
    · rintro ⟨⟨h1, h2⟩, h3, h4, h5⟩
      simp only [note] at h1 h2 h3 h4
      exact ⟨fun he => by simpa [he] using And.intro h1 h2,
        fun he hcon => by simpa [he, hcon] using And.intro h1 h2,
        fun he hcon => by simpa [he, hcon] using And.intro h1 h2,
        fun ha => by simpa [ha] using h3, fun ha => by simpa [ha] using h3, h5, h4⟩
    · rintro ⟨h1, h2, h3, h4, h5, h6, h7⟩
      refine ⟨?_, ?_, by rw [h7]; rfl, h6⟩
      · cases he : ends c.flags with
        | true => simpa [note, he] using h1 he
        | false =>
          cases hcon : c.flags.connected with
          | true => simpa [note, he, hcon] using h2 he hcon
          | false => simpa [note, he, hcon] using h3 he hcon
      · cases ha : c.flags.ackdata with
        | true => simpa [note, ha] using h4 ha
        | false => simpa [note, ha] using h5 ha

/-- A frame of another client is not an event of the connection in slot `a`. -/
theorem slot_ne_of_foreign {n : Net} {a : Slot} {rx : Rx} (hforeign : Foreign n a rx) :
    ∀ c ∈ frameCall n rx, c.slot ≠ a := by
  obtain ⟨-, -, -, -, hother⟩ := hforeign
  intro c hc
  obtain ⟨i, u, k, -, hdef, rfl⟩ := frameCall_eq_some hc
  have hfor := isFor_of_appcall hdef
  rintro rfl
  simp only [isFor, decide_eq_true_eq, earthNetRecv_conns] at hfor
  exact hother.elim (fun h => h hfor.2.2.1) (fun h => h hfor.2.2.2)

/-- **Isolation.**  In every reachable state, a frame of another client than the one in
slot `a` is no event of that connection, and it leaves what the owner of the socket
observes alone exactly when it is harmless.  This is so for every slot, and so for the
connection that has been accepted. -/
theorem isolation_iff {is : List Input} {os : List Outcome} {n : Net} {a : Slot} {rx : Rx}
    (hrun : Run step Free Net.init is os n) (hforeign : Foreign n a rx) :
    (∀ c ∈ frameCall n rx, c.slot ≠ a) ∧ (SameView n (netPoll n rx).1 ↔ Harmless n rx) :=
  ⟨slot_ne_of_foreign hforeign, sameView_netPoll_iff (settled_run hrun) hforeign.1⟩

/-! ## Two frames of another client -/

/-- One client has been accepted and a second one has started to connect. -/
def twoClients : List Input :=
  listen80 :: connect 1000 100 ++ [Request.receiving .sockAccept (.syn 1001 100)]

/-- The second client completes its handshake. -/
def secondAck : Rx := { frame := (PeerSegment.ack 1001).frame }

/-- The second client gives up. -/
def secondRst : Rx :=
  { frame := PeerSegment.frame { port := 1001, seqno := 101, flags := TCP_RST } }

/-- The application is called, but it has been told of a connection before. -/
theorem isolation_iff_secondAck :
    ∃ os n c, Run step Free Net.init twoClients os n ∧ acceptedSlot os = some 0 ∧
      Foreign n 0 secondAck ∧ frameCall n secondAck = some c ∧ c.slot ≠ 0 ∧
      c.flags = { connected := true } ∧ SameView n (netPoll n secondAck).1 := by
  have hexec : ((exec step Net.init twoClients).map fun r =>
      decide (acceptedSlot r.2 = some 0 ∧ Foreign r.1 0 secondAck ∧
        (frameCall r.1 secondAck).map Call.flags = some { connected := true } ∧
        (r.1.sock.connOpen = true ∧ r.1.sock.connClosed = false) ∧
        r.1.sock.txPending = r.1.httpd.txPending ∧ r.1.httpd.closePending = false)) =
      some true := by decide +kernel
  obtain ⟨⟨n, os⟩, hr, hval⟩ := Option.map_eq_some_iff.mp hexec
  obtain ⟨hacc, hforeign, hcall, hopen, htx, hclose⟩ := of_decide_eq_true hval
  obtain ⟨c, hc, hflags⟩ := Option.map_eq_some_iff.mp hcall
  have hrun := run_of_exec hr
  obtain ⟨hother, hview⟩ := isolation_iff hrun hforeign
  refine ⟨os, n, c, hrun, hacc, hforeign, hc, hother c hc, hflags, hview.mpr ?_⟩
  have hends : ends c.flags = false := by rw [hflags]; rfl
  rw [Harmless, hc]
  exact ⟨fun h => by simp [hends] at h, fun _ _ => hopen, fun _ h => by simp [hflags] at h,
    fun h => by simp [hflags] at h, fun _ => htx, fun h => by simp [hflags] at h, hclose⟩

/-- **The second client's `RST` closes the first one's socket.** -/
theorem isolation_broken_by_rst :
    ∃ os n, Run step Free Net.init twoClients os n ∧ acceptedSlot os = some 0 ∧
      Foreign n 0 secondRst ∧ ¬ SameView n (netPoll n secondRst).1 := by
  have hexec : ((exec step Net.init twoClients).map fun r =>
      (acceptedSlot r.2, decide (Foreign r.1 0 secondRst), r.1.sock.connOpen,
        (netPoll r.1 secondRst).1.sock.connOpen)) = some (some 0, true, true, false) := by
    decide +kernel
  obtain ⟨⟨n, os⟩, hr, hval⟩ := Option.map_eq_some_iff.mp hexec
  simp only [Prod.mk.injEq, decide_eq_true_eq] at hval
  obtain ⟨hacc, hforeign, hbefore, hafter⟩ := hval
  refine ⟨os, n, run_of_exec hr, hacc, hforeign, fun hsame => ?_⟩
  have hopen := hsame.connOpen
  rw [hbefore, hafter] at hopen
  simp at hopen

end Service
end EgosNet
