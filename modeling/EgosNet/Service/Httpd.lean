import EgosNet.Uip.Input

/-!
# The bridge between uIP and the sockets

`library/uip/httpd.c`.  uIP calls `httpd_appcall` when something happens on a
connection; the function turns the event into changes of nine global variables,
the only ones the socket service sees, and asks uIP to send or to close.  It does
not look at which connection it is called for.

With the application known, the two halves of `uip_process` can be put together:
`Verdict.complete` takes what the first half came to, calls `httpd_appcall` if
that is what it asks for, and runs the second half.  It also records what can be
observed of the call from outside: the connection that was opened, the call of the
application, and the segment that was built.

`note` is the part of `httpd_appcall` that does not concern uIP: how one call
changes the nine variables.  Everything the socket service does rests on it alone
(`httpdAppcall_snd`).
-/

namespace EgosNet
namespace Service

open Foundation Uip

/-- The global variables of `httpd.c`. -/
structure Httpd where
  connOpen : Bool := false
  connPending : Bool := false
  connClosed : Bool := false
  rxLen : ℕ := 0
  rxBuf : Mem := fun _ => 0
  txLen : ℕ := 0
  txPending : Bool := false
  txBuf : Mem := fun _ => 0
  closePending : Bool := false

/-- The size of `uip_buf`. -/
def uipBufLen : ℕ := UIP_BUFSIZE + 2

/-- `uip_send`.  The length is kept in 16 bits; a copy that does not fit into
`uip_buf` is a fault. -/
def uipSend (u : Stack) (data : Mem) (len : ℕ) : Stack :=
  if 0 < len then
    let slen := len % 65536
    let off := UIP_IPTCPH_LEN + UIP_LLH_LEN
    let u := if off + slen ≤ uipBufLen then u else u.raise .overrun
    { u.put off (data.load 0 slen) with slen := slen }
  else u

/-- `uip_close`, which replaces whatever flags were set. -/
def uipClose (u : Stack) : Stack := { u with flags := { close := true } }

/-! `httpd_appcall` is a sequence of six `if` statements; the first four only change
variables of the bridge. -/

/-- `if (uip_connected())` -/
def onConnected (f : UipFlags) (h : Httpd) : Httpd :=
  if f.connected then { h with connOpen := true, connPending := true, connClosed := false } else h

/-- `if (uip_closed() || uip_aborted() || uip_timedout())` -/
def onEnd (f : UipFlags) (h : Httpd) : Httpd :=
  if f.close ∨ f.abort ∨ f.timedout then
    { h with connOpen := false, connPending := false, connClosed := true }
  else h

/-- `if (uip_newdata())` -/
def onNewdata (u : Stack) (h : Httpd) : Httpd :=
  if u.flags.newdata then
    let rxLen := min u.len UIP_BUFSIZE
    { h with rxBuf := h.rxBuf.store 0 (u.buf.load u.appdata rxLen), rxLen := rxLen }
  else h

/-- `if (uip_acked())` -/
def onAcked (f : UipFlags) (h : Httpd) : Httpd :=
  if f.ackdata then { h with txPending := false, txLen := 0 } else h

/-- `if (httpd_socket_close_pending)` -/
def onClosePending (u : Stack) (h : Httpd) : Stack × Httpd :=
  if h.closePending then (uipClose u, { h with closePending := false }) else (u, h)

/-- `if (httpd_socket_tx_pending && ...)` -/
def onTxPending (u : Stack) (h : Httpd) : Stack :=
  if h.txPending ∧ (u.flags.poll ∨ u.flags.ackdata ∨ u.flags.rexmit ∨ u.flags.newdata) then
    uipSend u h.txBuf h.txLen
  else u

/-- `httpd_appcall`. -/
def httpdAppcall (u : Stack) (h : Httpd) : Stack × Httpd :=
  let h := onConnected u.flags h
  let h := onEnd u.flags h
  let h := onNewdata u h
  let h := onAcked u.flags h
  let (u, h) := onClosePending u h
  (onTxPending u h, h)

/-! ## What can be observed -/

/-- A call of the application: the connection and its state at that moment, the
flags, the data that has arrived, whether `httpd_appcall` answers with
`uip_close`, and where `uip_process` goes on. -/
structure Call where
  slot : Slot
  conn : UipConn
  flags : UipFlags
  data : List UInt8
  closing : Bool
  resume : Resume
  deriving DecidableEq

/-- A TCP segment, as far as it is looked at. -/
structure Segment where
  seqno : Word32
  flags : UInt8
  data : List UInt8
  deriving DecidableEq

/-- The segment in `uip_buf`. -/
def segmentOf (u : Stack) : Segment where
  seqno := word32 u.buf Hdr.seqno
  flags := u.buf Hdr.flags
  data :=
    let hlen := UIP_IPH_LEN + tcpHeaderWords u.buf * 4
    u.buf.load (UIP_LLH_LEN + hlen) (u.len - hlen)

inductive Event where
  /-- `found_listen` gave slot `i` to a new connection. -/
  | opened (i : Slot)
  /-- The service polls the connection in slot `i`. -/
  | polled (i : Slot)
  | call (c : Call)
  /-- uIP built a segment for the connection in slot `i`. -/
  | segment (i : Slot) (s : Segment)
  /-- A frame was handed to `earth->net_send`. -/
  | netSend (frame : List UInt8)
  deriving DecidableEq

/-- The segment uIP leaves in `uip_buf` for connection `i`, if any. -/
def segments (i : Slot) (u : Stack) : List Event :=
  if 0 < u.len then [.segment i (segmentOf u)] else []

/-- The call of the application for connection `i`. -/
def callOf (i : Slot) (u : Stack) (h : Httpd) (k : Resume) : Call where
  slot := i
  conn := u.conns i
  flags := u.flags
  data := u.buf.load u.appdata u.len
  closing := h.closePending
  resume := k

/-- `uip_process`, from what its first half came to. -/
def complete (h : Httpd) : Verdict → (Stack × Httpd) × List Event
  | .done u => ((u, h), [])
  | .quiet i u => ((u, h), segments i u)
  | .listen i u => ((u, h), .opened i :: segments i u)
  | .appcall i u k =>
    let (u', h') := httpdAppcall u h
    let v := k.run u' i
    ((v, h'), .call (callOf i u h k) :: segments i v)

/-! ## One call, seen from the sockets -/

/-- The call ends the connection. -/
def ends (f : UipFlags) : Bool := f.close ∨ f.abort ∨ f.timedout

/-- How a call with flags `f` and data `d` changes the variables. -/
def note (f : UipFlags) (d : List UInt8) (h : Httpd) : Httpd where
  connOpen := if ends f then false else if f.connected then true else h.connOpen
  connPending := if ends f then false else if f.connected then true else h.connPending
  connClosed := if ends f then true else if f.connected then false else h.connClosed
  rxLen := if f.newdata then min d.length UIP_BUFSIZE else h.rxLen
  rxBuf := if f.newdata then h.rxBuf.store 0 (d.take UIP_BUFSIZE) else h.rxBuf
  txLen := if f.ackdata then 0 else h.txLen
  txPending := if f.ackdata then false else h.txPending
  txBuf := h.txBuf
  closePending := false

theorem load_min (m : Mem) (off n : ℕ) : m.load off (min n UIP_BUFSIZE) =
    (m.load off n).take UIP_BUFSIZE := by
  rcases le_total n UIP_BUFSIZE with h | h
  · rw [min_eq_left h, List.take_of_length_le (by simpa using h)]
  · rw [min_eq_right h, Mem.load_take m off h]

theorem onClosePending_snd (u : Stack) (h : Httpd) :
    (onClosePending u h).2 = { h with closePending := false } := by
  obtain ⟨_, _, _, _, _, _, _, _, closePending⟩ := h
  cases closePending <;> rfl

/-- **A call changes the variables as its flags and its data say.** -/
theorem httpdAppcall_snd (u : Stack) (h : Httpd) :
    (httpdAppcall u h).2 = note u.flags (u.buf.load u.appdata u.len) h := by
  have hrx : (u.buf.load u.appdata u.len).take UIP_BUFSIZE =
      u.buf.load u.appdata (min u.len UIP_BUFSIZE) := (load_min _ _ _).symm
  simp only [httpdAppcall, onClosePending_snd]
  by_cases he : u.flags.close ∨ u.flags.abort ∨ u.flags.timedout <;>
    by_cases hc : u.flags.connected <;> by_cases hn : u.flags.newdata <;>
    by_cases ha : u.flags.ackdata <;>
    simp [onConnected, onEnd, onNewdata, onAcked, note, ends, hrx, he, hc, hn, ha]

/-! ## One call, seen from uIP -/

/-- The call ends in `uip_send`: data is pending, it has not just been acknowledged,
and no close is pending. -/
def offers (f : UipFlags) (h : Httpd) : Bool :=
  h.closePending = false ∧ h.txPending ∧ f.ackdata = false ∧ (f.poll ∨ f.rexmit ∨ f.newdata)

/-- **What a call asks of uIP.**  A pending close comes first, and then nothing is
sent. -/
theorem httpdAppcall_fst (u : Stack) (h : Httpd) :
    (httpdAppcall u h).1 =
      if h.closePending then uipClose u
      else if offers u.flags h then uipSend u h.txBuf h.txLen
      else u := by
  have hsnd := httpdAppcall_snd u h
  have hclose : (onAcked u.flags (onNewdata u (onEnd u.flags
      (onConnected u.flags h)))).closePending = h.closePending := by
    simp only [onAcked, onNewdata, onEnd, onConnected]
    split_ifs <;> rfl
  have hfst : (httpdAppcall u h).1 =
      onTxPending (if h.closePending then uipClose u else u) (httpdAppcall u h).2 := by
    cases hc : h.closePending <;> simp [httpdAppcall, onClosePending, hclose, hc]
  rw [hfst, hsnd]
  cases hc : h.closePending
  · cases ha : u.flags.ackdata <;> simp [onTxPending, note, offers, hc, ha]
  · cases ha : u.flags.ackdata <;> simp [onTxPending, note, uipClose, ha]

end Service
end EgosNet
