import EgosNet.Uip.Delivery
import EgosNet.Uip.Options

/-!
# One connection on its own

`uip_process` works on a table of forty connections and on a buffer in which the packet that came in
turns into the one that goes out.  Seen from a single connection none of this is there: a segment
arrives, the connection changes, and it may be that the application is to hear of it.  `receive` is
that automaton.  It knows a `Header`, which is what the segment says, and a connection, and nothing
else.

`realises_found` connects it with the code: for the connection that a packet belongs to,
`uip_process` does what `receive` says, it leaves every other connection alone, and it calls the
application exactly when `receive` does and with the same flags.  The other two ways in which a
connection changes are a `SYN`, for which it is made (`synConn`), and what uIP does when the
application has returned (`Answered`).

What holds of a connection in every run is then a matter of these three.
-/

namespace EgosNet
namespace Uip

open Foundation

/-! ## The automaton -/

/-- What a segment says.  `length` is the length of its data, in sixteen bits. -/
structure Header where
  seqno : Word32
  ackno : Word32
  flags : UInt8
  wnd : ℕ
  urgp : ℕ
  length : ℕ
  deriving DecidableEq

/-- The header of the packet in the buffer. -/
def headerOf (m : Mem) : Header where
  seqno := word32 m Hdr.seqno
  ackno := word32 m Hdr.ackno
  flags := m Hdr.flags
  wnd := num16 m Hdr.wnd
  urgp := num16 m Hdr.urgp
  length := segmentLength m

namespace Header

/-- The segment has one of these flags. -/
def has (s : Header) (f : UInt8) : Bool := s.flags &&& f ≠ 0

/-- It acknowledges everything that is outstanding. -/
def acks (s : Header) (c : UipConn) : Bool :=
  s.has TCP_ACK ∧ c.len ≠ 0 ∧ s.ackno = uipAdd32 c.sndNxt c.len

/-- It takes up sequence space that does not start where it should. -/
def outOfOrder (s : Header) (c : UipConn) : Bool :=
  (0 < s.length ∨ s.has (TCP_SYN ||| TCP_FIN)) ∧ s.seqno ≠ c.rcvNxt

/-- The length of the data without the urgent data, in sixteen bits. -/
def dataLen (s : Header) : ℕ :=
  if s.has TCP_URG then (s.length + 65536 - s.urgp) % 65536 else s.length

end Header

/-- The connection expects the bytes after the next `n`. -/
def UipConn.advance (c : UipConn) (n : ℕ) : UipConn :=
  if 0 < n then { c with rcvNxt := uipAdd32 c.rcvNxt (n % 65536) } else c

section Fields

variable (c : UipConn) (n : ℕ)

theorem advance_eq : ∃ w, c.advance n = { c with rcvNxt := w } := by
  unfold UipConn.advance
  split_ifs
  · exact ⟨_, rfl⟩
  · exact ⟨c.rcvNxt, rfl⟩

@[simp] theorem advance_state : (c.advance n).tcpstateflags = c.tcpstateflags := by
  unfold UipConn.advance
  split_ifs <;> rfl

@[simp] theorem advance_outstanding : (c.advance n).len = c.len := by
  unfold UipConn.advance
  split_ifs <;> rfl

/-- What the round-trip time does not touch. -/
theorem rttEstimate_fields : (rttEstimate c).tcpstateflags = c.tcpstateflags ∧
    (rttEstimate c).mss = c.mss ∧ (rttEstimate c).initialmss = c.initialmss ∧
    (rttEstimate c).rcvNxt = c.rcvNxt ∧ (rttEstimate c).nrtx = c.nrtx ∧
    SamePeer c (rttEstimate c) := by
  unfold rttEstimate
  split_ifs <;> exact ⟨rfl, rfl, rfl, rfl, rfl, rfl, rfl, rfl⟩

@[simp] theorem ackedConn_state : (ackedConn c).tcpstateflags = c.tcpstateflags :=
  (rttEstimate_fields _).1

@[simp] theorem ackedConn_outstanding : (ackedConn c).len = 0 := rfl

@[simp] theorem ackedConn_rcvNxt : (ackedConn c).rcvNxt = c.rcvNxt :=
  (rttEstimate_fields _).2.2.2.1

theorem ackedConn_peer : SamePeer c (ackedConn c) := (rttEstimate_fields _).2.2.2.2.2

end Fields

/-- A connection after a segment, and the call of the application, with its flags and the label
after it. -/
structure Reaction where
  conn : UipConn
  call : Option (UipFlags × Resume) := none

/-- In `SYN_RCVD`. -/
def receiveSynRcvd (s : Header) (c : UipConn) (acked : Bool) : Reaction :=
  if acked then
    { conn := { c with tcpstateflags := .established, len := 0 }.advance s.length
      call := some ({ connected := true, newdata := decide (0 < s.length) }, .appsend) }
  else { conn := c }

/-- In `ESTABLISHED`. -/
def receiveEstablished (s : Header) (c : UipConn) (acked : Bool) : Reaction :=
  if s.has TCP_FIN then
    if c.len ≠ 0 then { conn := c }
    else
      { conn := c.advance (1 + s.length)
        call := some ({ ackdata := acked, newdata := decide (0 < s.length), close := true },
          .finack) }
  else
    { conn := { c.advance s.dataLen with mss := mssForWindow c s.wnd }
      call :=
        if 0 < s.dataLen ∨ acked then
          some ({ ackdata := acked, newdata := decide (0 < s.dataLen) }, .appsend)
        else none }

/-- In `FIN_WAIT_1`. -/
def receiveFinWait1 (s : Header) (c : UipConn) (acked : Bool) : Reaction :=
  let c := c.advance s.length
  if s.has TCP_FIN then
    let c :=
      if acked then { c with tcpstateflags := .timeWait, timer := 0, len := 0 }
      else { c with tcpstateflags := .closing }
    { conn := c.advance 1, call := some ({ close := true }, .ack) }
  else if acked then { conn := { c with tcpstateflags := .finWait2, len := 0 } }
  else { conn := c }

/-- In `FIN_WAIT_2`. -/
def receiveFinWait2 (s : Header) (c : UipConn) : Reaction :=
  let c := c.advance s.length
  if s.has TCP_FIN then
    { conn := { c with tcpstateflags := .timeWait, timer := 0 }.advance 1
      call := some ({ close := true }, .ack) }
  else { conn := c }

/-- In the other states. -/
def receiveLate (c : UipConn) (acked : Bool) : Reaction :=
  match c.tcpstateflags, acked with
  | .lastAck, true =>
    { conn := { c with tcpstateflags := .closed }, call := some ({ close := true }, .drop) }
  | .closing, true => { conn := { c with tcpstateflags := .timeWait, timer := 0 } }
  | _, _ => { conn := c }

/-- **A segment arrives at its connection.** -/
def receive (s : Header) (c : UipConn) : Reaction :=
  if s.has TCP_RST then
    { conn := { c with tcpstateflags := .closed }, call := some ({ abort := true }, .drop) }
  else if s.outOfOrder c then { conn := c }
  else
    let acked := s.acks c
    let c := if acked then ackedConn c else c
    match c.tcpstateflags with
    | .synRcvd => receiveSynRcvd s c acked
    | .established => receiveEstablished s c acked
    | .finWait1 => receiveFinWait1 s c acked
    | .finWait2 => receiveFinWait2 s c
    | _ => receiveLate c acked

/-- What a segment may change in a connection, whatever its state.  The first step is the
acknowledgement. -/
structure Changed (c c' : UipConn) : Prop where
  peer : SamePeer c c'
  initialmss : c'.initialmss = c.initialmss
  mss : c'.mss = c.mss ∨ c'.mss ≤ c.initialmss
  len : c'.len = c.len ∨ c'.len = 0
  nrtx : c'.nrtx = c.nrtx

theorem Changed.refl (c : UipConn) : Changed c c :=
  ⟨SamePeer.refl c, rfl, Or.inl rfl, Or.inl rfl, rfl⟩

/-- The window makes the segment size smaller, never larger than it was at first. -/
theorem mssForWindow_le (c : UipConn) (wnd : ℕ) : mssForWindow c wnd ≤ c.initialmss := by
  unfold mssForWindow
  split_ifs with h
  · exact Nat.le_refl _
  · omega

section Changed

variable {c c₁ : UipConn} {s : Header} {acked : Bool}

theorem Changed.trans {c₂ : UipConn} (h : Changed c c₁) (h' : Changed c₁ c₂) : Changed c c₂ := by
  refine ⟨h.peer.trans h'.peer, h'.initialmss.trans h.initialmss, ?_, ?_, h'.nrtx.trans h.nrtx⟩
  · rcases h'.mss with hm | hm
    · rw [hm]
      exact h.mss
    · exact Or.inr (h.initialmss ▸ hm)
  · rcases h'.len with hl | hl
    · rw [hl]
      exact h.len
    · exact Or.inr hl

theorem changed_ackedConn (c : UipConn) : Changed c (ackedConn c) :=
  ⟨ackedConn_peer c, (rttEstimate_fields _).2.2.1, Or.inl (rttEstimate_fields _).2.1, Or.inr rfl,
    (rttEstimate_fields _).2.2.2.2.1⟩

theorem changed_advance (c : UipConn) (n : ℕ) : Changed c (c.advance n) := by
  obtain ⟨w, hw⟩ := advance_eq c n
  rw [hw]
  exact ⟨SamePeer.refl c, rfl, Or.inl rfl, Or.inl rfl, rfl⟩

/-- A change of the state, and of nothing that `Changed` speaks of but what is outstanding. -/
theorem changed_state (c : UipConn) (st : TcpState) (t : UInt8) :
    Changed c { c with tcpstateflags := st, timer := t } ∧
      Changed c { c with tcpstateflags := st, timer := t, len := 0 } :=
  ⟨⟨SamePeer.refl c, rfl, Or.inl rfl, Or.inl rfl, rfl⟩,
    ⟨SamePeer.refl c, rfl, Or.inl rfl, Or.inr rfl, rfl⟩⟩

theorem changed_receiveSynRcvd : Changed c (receiveSynRcvd s c acked).conn := by
  unfold receiveSynRcvd
  split_ifs
  · exact (changed_state c .established c.timer).2.trans (changed_advance _ _)
  · exact Changed.refl c

theorem changed_receiveEstablished : Changed c (receiveEstablished s c acked).conn := by
  have hmss : ∀ c' : UipConn, Changed c c' →
      Changed c { c' with mss := mssForWindow c s.wnd } := fun c' h =>
    ⟨h.peer, h.initialmss, Or.inr (mssForWindow_le c s.wnd), h.len, h.nrtx⟩
  unfold receiveEstablished
  split_ifs
  · exact Changed.refl c
  · exact changed_advance c _
  · exact hmss _ (changed_advance c _)
  · exact hmss _ (changed_advance c _)

theorem changed_receiveFinWait1 : Changed c (receiveFinWait1 s c acked).conn := by
  have hadv := changed_advance c s.length
  simp only [receiveFinWait1]
  generalize c.advance s.length = c' at *
  split_ifs
  · exact (hadv.trans (changed_state c' .timeWait 0).2).trans (changed_advance _ 1)
  · exact (hadv.trans (changed_state c' .closing c'.timer).1).trans (changed_advance _ 1)
  · exact hadv.trans (changed_state c' .finWait2 c'.timer).2
  · exact hadv

theorem changed_receiveFinWait2 : Changed c (receiveFinWait2 s c).conn := by
  have hadv := changed_advance c s.length
  simp only [receiveFinWait2]
  generalize c.advance s.length = c' at *
  split_ifs
  · exact (hadv.trans (changed_state c' .timeWait 0).1).trans (changed_advance _ 1)
  · exact hadv

theorem changed_receiveLate : Changed c (receiveLate c acked).conn := by
  unfold receiveLate
  split
  · exact (changed_state c .closed c.timer).1
  · exact (changed_state c .timeWait 0).1
  · exact Changed.refl c

/-- **What no segment changes**: the endpoints, the largest segment size and the number of attempts;
the segment size stays below the largest, and what is outstanding is acknowledged as a whole or not
at all. -/
theorem changed_receive (s : Header) (c : UipConn) : Changed c (receive s c).conn := by
  unfold receive
  split_ifs with hrst hout
  · exact (changed_state c .closed c.timer).1
  · exact Changed.refl c
  · have hacked : Changed c (if s.acks c then ackedConn c else c) := by
      split_ifs
      · exact changed_ackedConn c
      · exact Changed.refl c
    dsimp only
    refine hacked.trans ?_
    generalize (if s.acks c then ackedConn c else c) = c'
    split
    · exact changed_receiveSynRcvd
    · exact changed_receiveEstablished
    · exact changed_receiveFinWait1
    · exact changed_receiveFinWait2
    · exact changed_receiveLate

end Changed

/-! ## The code does what the automaton does -/

/-- The verdict `v` on a packet is the reaction `r` of the connection in slot `i`, in a table that
is `conns` before. -/
def Realises (conns : Slot → UipConn) (i : Slot) (r : Reaction) (v : Verdict) : Prop :=
  match r.call with
  | none => ∃ u, v = .quiet i u ∧ u.conns = Function.update conns i r.conn
  | some (f, k) =>
    ∃ u, v = .appcall i u k ∧ u.conns = Function.update conns i r.conn ∧ u.flags = f

section Found

variable {conns : Slot → UipConn} {u : Stack} {i : Slot} {c c' : UipConn} {s : Header}

/-- The table is `conns` but for the connection `c` in slot `i`. -/
def Holds (conns : Slot → UipConn) (u : Stack) (i : Slot) (c : UipConn) : Prop :=
  u.conns = Function.update conns i c

theorem Holds.self (h : Holds conns u i c) : u.conns i = c := by
  rw [h, Function.update_self]

theorem Holds.setConn (h : Holds conns u i c) : Holds conns (u.setConn i c') i c' := by
  unfold Holds at h ⊢
  rw [Stack.setConn, h, Function.update_idem]

theorem Holds.advance (h : Holds conns u i c) {n : ℕ} (hn : 0 < n) :
    Holds conns (uipAddRcvNxt u i n) i (c.advance n) := by
  rw [uipAddRcvNxt, h.self, UipConn.advance, if_pos hn]
  exact h.setConn

/-- The data of a segment, if there is any, advances the connection. -/
theorem Holds.advance_len (h : Holds conns u i c) :
    Holds conns (if 0 < u.len then uipAddRcvNxt u i u.len else u) i (c.advance u.len) := by
  split_ifs with hpos
  · exact h.advance hpos
  · rwa [UipConn.advance, if_neg hpos]

theorem Holds.noteNewdata (h : Holds conns u i c) :
    Holds conns (noteNewdata u i) i (c.advance u.len) := by
  unfold Uip.noteNewdata
  split_ifs with hpos
  · exact Holds.advance (u := { u with flags := { u.flags with newdata := true } }) h hpos
  · rwa [UipConn.advance, if_neg hpos]

/-- The packet `s` when `uip_process` looks at the state of its connection: the acknowledgement has
been noted. -/
structure Noted (conns : Slot → UipConn) (s : Header) (u : Stack) (i : Slot) (c : UipConn)
    (acked : Bool) : Prop where
  holds : Holds conns u i c
  header : headerOf u.buf = s
  len : u.len = s.length
  flags : u.flags = { ackdata := acked }

variable {acked : Bool}

/-- A flag that is tested in the buffer. -/
theorem Noted.has (h : Noted conns s u i c acked) (f : UInt8) :
    (u.buf Hdr.flags &&& f ≠ 0) ↔ s.has f = true := by
  rw [← h.header]
  exact (decide_eq_true_iff).symm

theorem realises_inSynRcvd (h : Noted conns s u i c acked) :
    Realises conns i (receiveSynRcvd s c acked) (inSynRcvd u i) := by
  unfold inSynRcvd receiveSynRcvd
  rw [h.flags]
  cases acked with
  | false => exact ⟨_, rfl, h.holds⟩
  | true =>
    set v : Stack :=
      { u.setConn i { u.conns i with tcpstateflags := .established, len := 0 } with
        flags := { connected := true } } with hv
    have hvlen : v.len = s.length := h.len
    have hholds : Holds conns v i { c with tcpstateflags := .established, len := 0 } := by
      rw [hv, h.holds.self]
      exact h.holds.setConn
    have hnote := hholds.noteNewdata
    have hflags := (noteNewdata_spec v i).1
    rw [hvlen] at hnote hflags
    refine ⟨_, rfl, hnote, ?_⟩
    show (noteNewdata v i).flags = _
    rw [hflags]
    simp [hv]

/-- Skipping the urgent data concerns the length alone. -/
theorem Noted.skipUrgent (h : Noted conns s u i c acked) :
    Holds conns (skipUrgent u) i c ∧ (skipUrgent u).len = s.dataLen ∧
      (skipUrgent u).flags = u.flags ∧ (skipUrgent u).buf = u.buf := by
  obtain ⟨hconns, -, hflags⟩ := skipUrgent_frame u
  have hurg := h.has TCP_URG
  have hurgp : num16 u.buf Hdr.urgp = s.urgp := by rw [← h.header]; rfl
  refine ⟨hconns.trans h.holds, ?_, hflags, ?_⟩
  · unfold Uip.skipUrgent Header.dataLen
    by_cases hset : s.has TCP_URG = true
    · rw [if_pos (hurg.mpr hset), if_pos hset, ← h.len, ← hurgp]
    · rw [if_neg (fun hne => hset (hurg.mp hne)), if_neg hset, h.len]
  · unfold Uip.skipUrgent
    split_ifs <;> rfl

theorem realises_inEstablished (h : Noted conns s u i c acked) :
    Realises conns i (receiveEstablished s c acked) (inEstablished u i) := by
  have hfin := h.has TCP_FIN
  unfold inEstablished receiveEstablished
  by_cases hset : s.has TCP_FIN = true
  · rw [if_pos (hfin.mpr hset), if_pos hset, h.holds.self]
    split_ifs with hlen
    · exact ⟨_, rfl, h.holds⟩
    · have hadv := h.holds.advance (n := 1 + u.len) (by omega)
      rw [h.len] at hadv
      refine ⟨_, rfl, by rw [h.len]; exact hadv, ?_⟩
      show ({ u.flags with close := true, newdata := if 0 < u.len then true else u.flags.newdata } :
        UipFlags) = _
      rw [h.flags, h.len]
      by_cases hpos : 0 < s.length <;> simp [hpos]
  · rw [if_neg (fun hne => hset (hfin.mp hne)), if_neg hset]
    obtain ⟨hholds, hlen, hflags, hbuf⟩ := h.skipUrgent
    set v := skipUrgent u with hv
    have hnote := hholds.noteNewdata
    have hnoted := (noteNewdata_spec v i).1
    have hnbuf := (noteNewdata_data v i).1
    rw [hlen] at hnote hnoted
    rw [hflags, h.flags] at hnoted
    have hwnd : num16 (noteNewdata v i).buf Hdr.wnd = s.wnd := by
      rw [hnbuf, hbuf, ← h.header]
      rfl
    have hmss : mssForWindow (c.advance s.dataLen) s.wnd = mssForWindow c s.wnd := by
      unfold UipConn.advance mssForWindow
      split_ifs <;> rfl
    have hupdate : Holds conns (updateMss (noteNewdata v i) i) i
        { c.advance s.dataLen with mss := mssForWindow c s.wnd } := by
      rw [updateMss, hnote.self, hwnd, hmss]
      exact hnote.setConn
    have hnew : (updateMss (noteNewdata v i) i).flags =
        { ackdata := acked, newdata := decide (0 < s.dataLen) } := by
      show (noteNewdata v i).flags = _
      rw [hnoted]
      simp
    have hcall : ((updateMss (noteNewdata v i) i).flags.newdata = true ∨
        (updateMss (noteNewdata v i) i).flags.ackdata = true) ↔ (0 < s.dataLen ∨ acked = true) := by
      rw [hnew, decide_eq_true_iff]
    by_cases hhears : 0 < s.dataLen ∨ acked = true
    · simp only [if_pos (hcall.mpr hhears), if_pos hhears]
      exact ⟨_, rfl, hupdate, hnew⟩
    · simp only [if_neg (fun hne => hhears (hcall.mp hne)), if_neg hhears]
      exact ⟨_, rfl, hupdate⟩

theorem realises_inFinWait1 (h : Noted conns s u i c acked) :
    Realises conns i (receiveFinWait1 s c acked) (inFinWait1 u i) := by
  have hfin := h.has TCP_FIN
  have hadv := h.holds.advance_len
  have hvb : (if 0 < u.len then uipAddRcvNxt u i u.len else u).buf = u.buf ∧
      (if 0 < u.len then uipAddRcvNxt u i u.len else u).flags = u.flags := by
    split_ifs <;> exact ⟨rfl, rfl⟩
  obtain ⟨hbuf, hflags⟩ := hvb
  rw [h.flags] at hflags
  simp only [inFinWait1, receiveFinWait1]
  rw [← h.len]
  generalize (if 0 < u.len then uipAddRcvNxt u i u.len else u) = v at *
  rw [hbuf, hflags]
  by_cases hset : s.has TCP_FIN = true
  · rw [if_pos (hfin.mpr hset), if_pos hset, hadv.self]
    cases acked with
    | true => exact ⟨_, rfl, (hadv.setConn.advance Nat.one_pos :), rfl⟩
    | false => exact ⟨_, rfl, (hadv.setConn.advance Nat.one_pos :), rfl⟩
  · rw [if_neg (fun hne => hset (hfin.mp hne)), if_neg hset, hadv.self]
    cases acked with
    | true => exact ⟨_, rfl, (hadv.setConn :)⟩
    | false =>
      rw [if_neg Bool.false_ne_true, if_neg Bool.false_ne_true]
      split_ifs <;> exact ⟨_, rfl, hadv⟩

theorem realises_inFinWait2 (h : Noted conns s u i c acked) :
    Realises conns i (receiveFinWait2 s c) (inFinWait2 u i) := by
  have hfin := h.has TCP_FIN
  have hadv := h.holds.advance_len
  have hbuf : (if 0 < u.len then uipAddRcvNxt u i u.len else u).buf = u.buf := by
    split_ifs <;> rfl
  simp only [inFinWait2, receiveFinWait2]
  rw [← h.len]
  generalize (if 0 < u.len then uipAddRcvNxt u i u.len else u) = v at *
  rw [hbuf]
  by_cases hset : s.has TCP_FIN = true
  · rw [if_pos (hfin.mpr hset), if_pos hset, hadv.self]
    exact ⟨_, rfl, (hadv.setConn.advance Nat.one_pos :), rfl⟩
  · rw [if_neg (fun hne => hset (hfin.mp hne)), if_neg hset]
    split_ifs <;> exact ⟨_, rfl, hadv⟩

theorem realises_byState (h : Noted conns s u i c acked) :
    Realises conns i
      (match c.tcpstateflags with
        | .synRcvd => receiveSynRcvd s c acked
        | .established => receiveEstablished s c acked
        | .finWait1 => receiveFinWait1 s c acked
        | .finWait2 => receiveFinWait2 s c
        | _ => receiveLate c acked) (byState u i) := by
  unfold byState
  rw [h.holds.self]
  cases hs : c.tcpstateflags with
  | synRcvd => exact realises_inSynRcvd h
  | established => exact realises_inEstablished h
  | finWait1 => exact realises_inFinWait1 h
  | finWait2 => exact realises_inFinWait2 h
  | timeWait =>
    have hlate : receiveLate c acked = { conn := c } := by
      cases acked <;> simp only [receiveLate, hs]
    show Realises conns i (receiveLate c acked) _
    rw [hlate]
    exact ⟨_, rfl, h.holds⟩
  | closed =>
    have hlate : receiveLate c acked = { conn := c } := by
      cases acked <;> simp only [receiveLate, hs]
    show Realises conns i (receiveLate c acked) _
    rw [hlate]
    exact ⟨_, rfl, h.holds⟩
  | lastAck =>
    simp only [inLastAck, h.flags, receiveLate, hs, h.holds.self]
    cases acked with
    | true => exact ⟨_, rfl, (h.holds.setConn :), rfl⟩
    | false => exact ⟨_, rfl, h.holds⟩
  | closing =>
    simp only [inClosing, h.flags, receiveLate, hs, h.holds.self]
    cases acked with
    | true => exact ⟨_, rfl, (h.holds.setConn :)⟩
    | false => exact ⟨_, rfl, h.holds⟩

/-- What `found` tests is what the automaton tests. -/
theorem outOfOrder_eq {v : Stack} (hlen : v.len = segmentLength v.buf) :
    Uip.outOfOrder v i = (headerOf v.buf).outOfOrder (v.conns i) := by
  have hsyn : (headerOf v.buf).has (TCP_SYN ||| TCP_FIN) = true ↔
      v.buf Hdr.flags &&& (TCP_SYN ||| TCP_FIN) ≠ 0 := decide_eq_true_iff
  simp only [Uip.outOfOrder, Header.outOfOrder, hsyn, hlen]
  rfl

theorem acks_eq (m : Mem) (c : UipConn) : (headerOf m).acks c = acksAll m c := by
  have hack : (headerOf m).has TCP_ACK = true ↔ m Hdr.flags &&& TCP_ACK ≠ 0 := decide_eq_true_iff
  simp only [Header.acks, acksAll, hack]
  rfl

/-- **The code does what the automaton does**, for a segment of the connection in slot `i`. -/
theorem realises_found (hlen : u.len = num16 u.buf Hdr.len) :
    Realises u.conns i (receive (headerOf u.buf) (u.conns i)) (found u i) := by
  have hself : Holds u.conns u i (u.conns i) := (Function.update_eq_self i u.conns).symm
  have hrst : (u.buf Hdr.flags &&& TCP_RST ≠ 0) ↔ (headerOf u.buf).has TCP_RST = true :=
    decide_eq_true_iff.symm
  simp only [found, receive]
  by_cases hset : (headerOf u.buf).has TCP_RST = true
  · rw [if_pos (hrst.mpr hset), if_pos hset]
    exact ⟨_, rfl, (hself.setConn :), rfl⟩
  · rw [if_neg (fun hne => hset (hrst.mp hne)), if_neg hset]
    set v : Stack := { u with
      flags := {}
      len := (u.len + 65536 - (tcpHeaderWords u.buf * 4 + UIP_IPH_LEN)) % 65536 } with hv
    have hvlen : v.len = segmentLength v.buf := by
      show (u.len + 65536 - (tcpHeaderWords u.buf * 4 + UIP_IPH_LEN)) % 65536 = _
      rw [hlen]
      rfl
    have horder : Uip.outOfOrder v i = (headerOf u.buf).outOfOrder (u.conns i) :=
      outOfOrder_eq hvlen
    rw [horder, acks_eq]
    split_ifs with hout hacks
    · exact ⟨_, rfl, hself⟩
    · refine realises_byState ⟨?_, ?_, ?_, ?_⟩
      · rw [ackInput, if_pos (show acksAll v.buf (v.conns i) = true from hacks)]
        exact (Holds.setConn (u := v) hself :)
      · rw [(ackInput_data v i).1]
      · rw [(ackInput_data v i).2.2.1, hvlen]
        rfl
      · rw [ackInput, if_pos (show acksAll v.buf (v.conns i) = true from hacks), hacks]
    · have hnot : acksAll v.buf (v.conns i) = false := by simpa using hacks
      rw [ackInput, hnot, if_neg Bool.false_ne_true]
      exact realises_byState ⟨hself, rfl, hvlen, rfl⟩

end Found

/-! ## A packet, and the table -/

/-- The connection `c'` that a `SYN` makes in the place of `c`. -/
inductive Opened (m : Mem) (c : UipConn) : UipConn → Prop
  | noOption : synOptions m = some none → Opened m c (synConn m c)
  | option (n : ℕ) : synOptions m = some (some n) →
      Opened m c { synConn m c with initialmss := min n UIP_TCP_MSS, mss := min n UIP_TCP_MSS }

theorem Opened.state {m : Mem} {c c' : UipConn} (h : Opened m c c') :
    c'.tcpstateflags = .synRcvd ∧ c'.rcvNxt = uipAdd32 (word32 m Hdr.seqno) 1 := by
  cases h <;> exact ⟨rfl, rfl⟩

/-- What a packet does to the table of connections. -/
inductive Ruling (u : Stack) : Verdict → Prop
  /-- Nothing. -/
  | ignored {u' : Stack} : u'.conns = u.conns → Ruling u (.done u')
  /-- It is a segment of a connection. -/
  | received {i : Slot} {v : Verdict} : isFor u.buf (u.conns i) = true →
      Realises u.conns i (receive (headerOf u.buf) (u.conns i)) v → Ruling u v
  /-- It opens a connection, where there was none with its endpoints. -/
  | opened {i : Slot} {u' : Stack} {c : UipConn} : (∀ j, isFor u.buf (u.conns j) = false) →
      (u.conns i).tcpstateflags = .closed ∨ (u.conns i).tcpstateflags = .timeWait →
      Opened u.buf (u.conns i) c → u'.conns = Function.update u.conns i c →
      Ruling u (.listen i u')

/-- Only the table and the packet matter. -/
theorem Ruling.congr {u v : Stack} {w : Verdict} (h : Ruling v w) (hc : v.conns = u.conns)
    (hb : v.buf = u.buf) : Ruling u w := by
  cases h with
  | ignored h1 => exact .ignored (h1.trans hc)
  | received h1 h2 =>
    rw [hc, hb] at h1 h2
    exact .received h1 h2
  | opened h1 h2 h3 h4 =>
    rw [hc, hb] at h3
    rw [hc] at h2 h4
    exact .opened (fun j => by rw [← hb, ← hc]; exact h1 j) h2 h3 h4

theorem ruling_foundListen {u : Stack} (hnone : ∀ j, isFor u.buf (u.conns j) = false) :
    Ruling u (foundListen u) := by
  unfold foundListen
  split
  · exact .ignored rfl
  · rename_i i hi
    have hfree := freeSlot_unused (by simp) hi
    dsimp only
    split
    · exact .ignored rfl
    · rename_i mss hmss
      cases mss with
      | none => exact .opened hnone hfree (.noOption hmss) rfl
      | some n => exact .opened hnone hfree (.option n hmss) rfl

theorem ruling_tcpInput {u : Stack} (hlen : u.len = num16 u.buf Hdr.len) :
    Ruling u (tcpInput u) := by
  unfold tcpInput
  generalize uipTcpchksum u.buf = sum
  split_ifs
  · exact .ignored rfl
  all_goals
    split
    · rename_i i hi
      exact .received (List.find?_some hi :) (realises_found hlen)
    · rename_i hi
      first
      | exact .ignored (reset_conns u)
      | exact ruling_foundListen fun j => by
          simpa using List.find?_eq_none.mp hi j (List.mem_finRange j)

/-- **What a packet does to the table.** -/
theorem ruling_uipProcessData (u : Stack) : Ruling u (uipProcessData u) := by
  simp only [uipProcessData]
  generalize uipIpchksum u.buf = sum
  split_ifs
  · exact .ignored rfl
  · exact .ignored rfl
  · exact .ignored rfl
  · exact .ignored rfl
  · exact (ruling_tcpInput rfl).congr rfl rfl
  · exact .ignored (icmpEcho_conns _)
  · exact .ignored rfl
  · exact .ignored rfl

/-! ## After the application -/

/-- The connection after the application has returned: it is left as it was, it is ended, or `n`
bytes of it are outstanding. -/
inductive Answered (c : UipConn) : Resume → UipConn → Prop
  | drop : Answered c .drop c
  | ack : Answered c .ack c
  | finack : Answered c .finack { c with len := 1, tcpstateflags := .lastAck, nrtx := 0 }
  | abort : Answered c .appsend { c with tcpstateflags := .closed }
  | close : Answered c .appsend { c with len := 1, tcpstateflags := .finWait1, nrtx := 0 }
  | send (n : ℕ) : n = c.len ∨ n ≤ c.mss → Answered c .appsend { c with len := n, nrtx := 0 }

theorem Answered.peer {c c' : UipConn} {k : Resume} (h : Answered c k c') : SamePeer c c' := by
  cases h <;> exact ⟨rfl, rfl, rfl⟩

/-- `takeData` chooses how many bytes are outstanding. -/
theorem takeData_holds (u : Stack) (i : Slot) : ∃ n, (n = (u.conns i).len ∨ n ≤ (u.conns i).mss) ∧
    Holds u.conns (takeData u i) i { u.conns i with len := n } := by
  have hself : Holds u.conns u i (u.conns i) := (Function.update_eq_self i u.conns).symm
  unfold takeData
  dsimp only
  split_ifs
  · exact ⟨min u.slen (u.conns i).mss, Or.inr (Nat.min_le_right _ _), (hself.setConn :)⟩
  · exact ⟨0, Or.inr (Nat.zero_le _), (hself.setConn :)⟩
  · exact ⟨min u.slen (u.conns i).mss, Or.inr (Nat.min_le_right _ _), (hself.setConn :)⟩
  · exact ⟨_, Or.inl rfl, (hself.setConn :)⟩
  · exact ⟨_, Or.inl rfl, hself⟩

theorem apprexmit_conns (w : Stack) (i : Slot) : (apprexmit w i).conns = w.conns := by
  simp only [apprexmit]
  split_ifs <;> rfl

/-- **What uIP does with a connection after the application.** -/
theorem answered_resume (w : Stack) (i : Slot) (k : Resume) :
    ∃ c, Answered (w.conns i) k c ∧ (k.run w i).conns = Function.update w.conns i c := by
  have hself : Holds w.conns w i (w.conns i) := (Function.update_eq_self i w.conns).symm
  cases k with
  | drop => exact ⟨_, .drop, hself⟩
  | ack => exact ⟨_, .ack, hself⟩
  | finack => exact ⟨_, .finack, (hself.setConn :)⟩
  | appsend =>
    have happ : (Resume.run w i .appsend).conns = (appsend w i).conns := rfl
    rw [happ]
    unfold appsend
    split_ifs
    · exact ⟨_, .abort, (hself.setConn :)⟩
    · exact ⟨_, .close, (hself.setConn :)⟩
    · obtain ⟨n, hn, hholds⟩ := takeData_holds w i
      refine ⟨_, .send n hn, ?_⟩
      dsimp only
      rw [apprexmit_conns, hholds.self]
      exact (hholds.setConn :)

/-! ## Endpoints -/

/-- The endpoints of a connection. -/
def endpoints (c : UipConn) : Word16 × Word16 × Word32 := (c.lport, c.rport, c.ripaddr)

theorem endpoints_eq {c c' : UipConn} (h : SamePeer c c') : endpoints c' = endpoints c := by
  unfold endpoints
  rw [h.1, h.2.1, h.2.2]

/-- A packet is for the connections with its endpoints. -/
theorem isFor_iff {m : Mem} {c : UipConn} : isFor m c = true ↔ c.tcpstateflags ≠ .closed ∧
    endpoints c = (word16 m Hdr.destport, word16 m Hdr.srcport, word32 m Hdr.srcipaddr) := by
  simp only [isFor, endpoints, decide_eq_true_eq, Prod.mk.injEq]
  constructor
  · rintro ⟨h0, h1, h2, h3⟩
    exact ⟨h0, h1.symm, h2.symm, h3.symm⟩
  · rintro ⟨h0, h1, h2, h3⟩
    exact ⟨h0, h1.symm, h2.symm, h3.symm⟩

/-- The connection that a `SYN` makes has the endpoints of the packet. -/
theorem Opened.endpoints {m : Mem} {c c' : UipConn} (h : Opened m c c') : endpoints c' =
    (word16 m Hdr.destport, word16 m Hdr.srcport, word32 m Hdr.srcipaddr) := by
  cases h <;> rfl

/-! ## The states -/

/-- The state of a connection before a segment, the call of the application, and the state after it.
-/
inductive Moves : TcpState → Option (UipFlags × Resume) → TcpState → Prop
  | stay {st : TcpState} : Moves st none st
  | reset {st : TcpState} : Moves st (some ({ abort := true }, .drop)) .closed
  | handshake {new : Bool} :
      Moves .synRcvd (some ({ connected := true, newdata := new }, .appsend)) .established
  | data {acked new : Bool} :
      Moves .established (some ({ ackdata := acked, newdata := new }, .appsend)) .established
  | fin {acked new : Bool} : Moves .established
      (some ({ ackdata := acked, newdata := new, close := true }, .finack)) .established
  | finWait2 : Moves .finWait1 none .finWait2
  | finUnacked : Moves .finWait1 (some ({ close := true }, .ack)) .closing
  | finAcked : Moves .finWait1 (some ({ close := true }, .ack)) .timeWait
  | finLast : Moves .finWait2 (some ({ close := true }, .ack)) .timeWait
  | closingAck : Moves .closing none .timeWait
  | lastAck : Moves .lastAck (some ({ close := true }, .drop)) .closed

section States

variable {c : UipConn} (s : Header) (acked : Bool)

theorem moves_receiveEstablished (hs : c.tcpstateflags = .established) :
    Moves c.tcpstateflags (receiveEstablished s c acked).call
      (receiveEstablished s c acked).conn.tcpstateflags := by
  unfold receiveEstablished
  split_ifs
  · exact .stay
  · rw [advance_state, hs]
    exact .fin
  · rw [show ({ c.advance s.dataLen with mss := mssForWindow c s.wnd } : UipConn).tcpstateflags =
      c.tcpstateflags from advance_state c s.dataLen, hs]
    exact .data
  · rw [show ({ c.advance s.dataLen with mss := mssForWindow c s.wnd } : UipConn).tcpstateflags =
      c.tcpstateflags from advance_state c s.dataLen]
    exact .stay

theorem moves_receiveFinWait1 (hs : c.tcpstateflags = .finWait1) :
    Moves c.tcpstateflags (receiveFinWait1 s c acked).call
      (receiveFinWait1 s c acked).conn.tcpstateflags := by
  simp only [receiveFinWait1]
  split_ifs
  · rw [advance_state, hs]
    exact .finAcked
  · rw [advance_state, hs]
    exact .finUnacked
  · rw [hs]
    exact .finWait2
  · rw [advance_state]
    exact .stay

theorem moves_receiveFinWait2 (hs : c.tcpstateflags = .finWait2) :
    Moves c.tcpstateflags (receiveFinWait2 s c).call (receiveFinWait2 s c).conn.tcpstateflags := by
  simp only [receiveFinWait2]
  split_ifs
  · rw [advance_state, hs]
    exact .finLast
  · rw [advance_state]
    exact .stay

/-- **What a segment does to the state of a connection.** -/
theorem moves_receive (s : Header) (c : UipConn) :
    Moves c.tcpstateflags (receive s c).call (receive s c).conn.tcpstateflags := by
  unfold receive
  split_ifs
  · exact .reset
  · exact .stay
  · have hacked : (if s.acks c then ackedConn c else c).tcpstateflags = c.tcpstateflags := by
      split_ifs
      · exact ackedConn_state c
      · rfl
    dsimp only
    generalize (if s.acks c then ackedConn c else c) = c' at hacked
    rw [← hacked]
    cases hs : c'.tcpstateflags with
    | synRcvd =>
      cases s.acks c with
      | false =>
        show Moves _ none c'.tcpstateflags
        rw [hs]
        exact .stay
      | true =>
        simp only [receiveSynRcvd, if_true, advance_state]
        exact .handshake
    | established =>
      have hmoves := moves_receiveEstablished s (s.acks c) hs
      rwa [hs] at hmoves
    | finWait1 =>
      have hmoves := moves_receiveFinWait1 s (s.acks c) hs
      rwa [hs] at hmoves
    | finWait2 =>
      have hmoves := moves_receiveFinWait2 s hs
      rwa [hs] at hmoves
    | closing =>
      cases s.acks c with
      | false =>
        simp only [receiveLate, hs]
        exact .stay
      | true =>
        simp only [receiveLate, hs]
        exact .closingAck
    | lastAck =>
      cases s.acks c with
      | false =>
        simp only [receiveLate, hs]
        exact .stay
      | true =>
        simp only [receiveLate, hs]
        exact .lastAck
    | _ =>
      cases s.acks c <;> simp only [receiveLate, hs] <;> exact .stay

/-- And what follows a call does to it. -/
theorem Answered.state {c c' : UipConn} {k : Resume} (h : Answered c k c') :
    c'.tcpstateflags = c.tcpstateflags ∧ k ≠ .finack ∨
      k = .finack ∧ c'.tcpstateflags = .lastAck ∨
      k = .appsend ∧ (c'.tcpstateflags = .closed ∨ c'.tcpstateflags = .finWait1) := by
  cases h with
  | drop => exact .inl ⟨rfl, by decide⟩
  | ack => exact .inl ⟨rfl, by decide⟩
  | finack => exact .inr (.inl ⟨rfl, rfl⟩)
  | abort => exact .inr (.inr ⟨rfl, .inl rfl⟩)
  | close => exact .inr (.inr ⟨rfl, .inr rfl⟩)
  | send n _ => exact .inl ⟨rfl, by decide⟩

end States

/-! ## Data -/

/-- The application may still be given data. -/
def TcpState.live : TcpState → Bool
  | .synRcvd | .established => true
  | _ => false

/-- How many bytes of a segment the application is given, if none of them are urgent. -/
def Reaction.taken (r : Reaction) (s : Header) : ℕ :=
  match r.call with
  | some (f, _) => if f.newdata then s.length else 0
  | none => 0

section Data

variable {s : Header} {c : UipConn}

@[simp] theorem advance_zero (c : UipConn) : c.advance 0 = c := rfl

/-- Only the expected byte counts. -/
theorem advance_rcvNxt {c c' : UipConn} (h : c'.rcvNxt = c.rcvNxt) (n : ℕ) :
    (c'.advance n).rcvNxt = (c.advance n).rcvNxt := by
  unfold UipConn.advance
  split_ifs
  · rw [h]
  · exact h

/-- Data that is looked at begins where it should. -/
theorem seqno_of_inOrder (h : s.outOfOrder c = false) (hpos : 0 < s.length) :
    s.seqno = c.rcvNxt := by
  by_contra hne
  simp [Header.outOfOrder, hpos, hne] at h

/-- What the application is told of the data in the end: a segment without urgent data is taken as a
whole or not at all, it is taken only where it should begin, and the connection then expects what
follows it.  A `FIN` is the exception, which is followed by nothing. -/
structure Takes (s : Header) (c : UipConn) (r : Reaction) : Prop where
  order : 0 < r.taken s → s.seqno = c.rcvNxt
  next : (∀ f, r.call ≠ some (f, .finack)) → r.conn.rcvNxt = (c.advance (r.taken s)).rcvNxt

theorem takes_receiveSynRcvd {acked : Bool} (horder : 0 < s.length → s.seqno = c.rcvNxt) :
    Takes s c (receiveSynRcvd s c acked) := by
  cases acked with
  | false => exact ⟨fun h => absurd h (lt_irrefl _), fun _ => rfl⟩
  | true =>
    have htaken : (receiveSynRcvd s c true).taken s = s.length := by
      by_cases hpos : 0 < s.length <;> simp [receiveSynRcvd, Reaction.taken, hpos]
      omega
    refine ⟨?_, fun _ => ?_⟩
    · rwa [htaken]
    · rw [htaken]
      show ({ c with tcpstateflags := .established, len := 0 }.advance s.length).rcvNxt = _
      unfold UipConn.advance
      split_ifs <;> rfl

theorem takes_receiveEstablished {acked : Bool} (hurg : s.has TCP_URG = false)
    (horder : 0 < s.length → s.seqno = c.rcvNxt) : Takes s c (receiveEstablished s c acked) := by
  have hdata : s.dataLen = s.length := by simp [Header.dataLen, hurg]
  have hle : (receiveEstablished s c acked).taken s ≤ s.length := by
    unfold Reaction.taken
    split
    · split_ifs
      · exact Nat.le_refl _
      · exact Nat.zero_le _
    · exact Nat.zero_le _
  refine ⟨fun hpos => horder (by omega), fun hfin => ?_⟩
  unfold receiveEstablished at hfin ⊢
  by_cases hset : s.has TCP_FIN = true
  · rw [if_pos hset] at hfin ⊢
    split_ifs at hfin ⊢
    · rfl
    · exact absurd rfl (hfin _)
  · rw [if_neg hset, hdata]
    by_cases hpos : 0 < s.length
    · simp [Reaction.taken, hpos]
    · have hzero : s.length = 0 := by omega
      cases acked <;> simp [Reaction.taken, hzero]

/-- **Data is taken in order.** -/
theorem takes_receive (hurg : s.has TCP_URG = false) (hlive : c.tcpstateflags.live = true) :
    Takes s c (receive s c) := by
  unfold receive
  split_ifs with hrst hout
  · exact ⟨fun h => absurd h (lt_irrefl _), fun _ => rfl⟩
  · exact ⟨fun h => absurd h (lt_irrefl _), fun _ => rfl⟩
  · have horder := seqno_of_inOrder (by simpa using hout)
    have hacked : (if s.acks c then ackedConn c else c).rcvNxt = c.rcvNxt ∧
        (if s.acks c then ackedConn c else c).tcpstateflags = c.tcpstateflags := by
      split_ifs
      · exact ⟨ackedConn_rcvNxt c, ackedConn_state c⟩
      · exact ⟨rfl, rfl⟩
    dsimp only
    generalize (if s.acks c then ackedConn c else c) = c' at hacked
    rw [hacked.2]
    have horder' : 0 < s.length → s.seqno = c'.rcvNxt := fun hpos =>
      (horder hpos).trans hacked.1.symm
    have hback {r : Reaction} (h : Takes s c' r) : Takes s c r :=
      ⟨fun hpos => (h.order hpos).trans hacked.1,
        fun hfin => (h.next hfin).trans (advance_rcvNxt hacked.1 _)⟩
    cases hs : c.tcpstateflags with
    | synRcvd => exact hback (takes_receiveSynRcvd horder')
    | established => exact hback (takes_receiveEstablished hurg horder')
    | _ => simp [hs, TcpState.live] at hlive

/-- A connection that is given no more data never will be, and it does not come back. -/
theorem over_receive (hover : c.tcpstateflags.live = false) :
    (receive s c).conn.tcpstateflags.live = false ∧
      ∀ f k, (receive s c).call = some (f, k) → f.newdata = false ∧ f.connected = false := by
  have hmoves := moves_receive s c
  generalize (receive s c).call = call at hmoves
  generalize (receive s c).conn.tcpstateflags = st at hmoves
  generalize c.tcpstateflags = st₀ at hmoves hover
  cases hmoves with
  | stay => exact ⟨hover, by rintro f k ⟨⟩⟩
  | handshake | data | fin => simp [TcpState.live] at hover
  | finWait2 | closingAck => exact ⟨rfl, by rintro f k ⟨⟩⟩
  | _ => exact ⟨rfl, by rintro f k ⟨⟩; exact ⟨rfl, rfl⟩⟩

/-- Nor does what follows a call bring it back. -/
theorem Answered.live {c c' : UipConn} {k : Resume} (h : Answered c k c') :
    c'.rcvNxt = c.rcvNxt ∧
      (c'.tcpstateflags.live = true → c.tcpstateflags.live = true ∧ k ≠ .finack) := by
  cases h with
  | drop => exact ⟨rfl, fun hl => ⟨hl, by decide⟩⟩
  | ack => exact ⟨rfl, fun hl => ⟨hl, by decide⟩⟩
  | finack => exact ⟨rfl, fun hl => absurd hl (by simp [TcpState.live])⟩
  | abort => exact ⟨rfl, fun hl => absurd hl (by simp [TcpState.live])⟩
  | close => exact ⟨rfl, fun hl => absurd hl (by simp [TcpState.live])⟩
  | send n _ => exact ⟨rfl, fun hl => ⟨hl, by decide⟩⟩

end Data

end Uip
end EgosNet
