import EgosNet.Service.Coherence

/-!
# Sequence numbers on one connection

The data that goes out on a connection has a place in a stream: the first byte has
the sequence number after the initial one, and a segment carries the bytes from its
own number on.  `Wire` reads the stream off the segments that were observed.  A
segment that starts where the stream ends extends it, any other is a repetition.

uIP keeps two numbers for this, the first sequence number in flight (`sndNxt`) and
how many there are (`len`).  `Aligned` says that together they point to the end of
the stream.  That this is kept is the one thing about sequence numbers that the
files after this one need, and it holds in every run with a single connection,
whatever arrives (`phase_run`).

`Phase` is the invariant.  A connection is being set up, in use, or over, and the
bridge is in a state that goes with it.  `Move` lists the ways in which a connection
changes in one run of `uip_process`: it stays as it is, it becomes established,
what is in flight is acknowledged, fresh data goes out, or it is over.
-/

namespace EgosNet
namespace Service

open Foundation Uip

/-! ## The stream -/

/-- Everything that happened in the course of a run. -/
def history (os : List Outcome) : List Event := os.flatMap fun o => o.events

@[simp] theorem history_nil : history [] = [] := rfl

@[simp] theorem history_append (os : List Outcome) (o : Outcome) :
    history (os ++ [o]) = history os ++ o.events := by
  simp [history]

/-- The stream after a segment: the segment extends it if it starts where the stream
ends. -/
def carried (sent : List UInt8) (s : Segment) : List UInt8 :=
  if s.seqno.toNat = (1 + sent.length) % 2 ^ 32 then sent ++ s.data else sent

/-- The bytes of the stream that were sent, and those that were acknowledged. -/
structure Wire where
  sent : List UInt8 := []
  acked : List UInt8 := []

def Wire.event (w : Wire) : Event → Wire
  | .segment _ s => { w with sent := carried w.sent s }
  | .call c => if c.flags.ackdata then { w with acked := w.sent } else w
  | _ => w

@[simp] theorem Wire.event_segment (w : Wire) (i : Slot) (s : Segment) :
    w.event (.segment i s) = { w with sent := carried w.sent s } := rfl

/-- The stream, as observed. -/
def wire (os : List Outcome) : Wire := (history os).foldl Wire.event {}

theorem wire_append (os : List Outcome) (o : Outcome) :
    wire (os ++ [o]) = o.events.foldl Wire.event (wire os) := by
  rw [wire, history_append, List.foldl_append, wire]

/-- Only the events of the connections matter. -/
theorem foldl_connEvents (w : Wire) (ev : List Event) :
    (connEvents ev).foldl Wire.event w = ev.foldl Wire.event w := by
  induction ev generalizing w with
  | nil => rfl
  | cons e ev ih =>
    cases e with
    | polled i => exact ih w
    | netSend f => exact ih w
    | opened i => exact ih (w.event (.opened i))
    | call c => exact ih (w.event (.call c))
    | segment i s => exact ih (w.event (.segment i s))

theorem openings_connEvents (ev : List Event) : openings (connEvents ev) = openings ev := by
  induction ev with
  | nil => rfl
  | cons e ev ih =>
    cases e with
    | polled i => exact ih
    | netSend f => exact ih
    | opened i => exact congrArg (i :: ·) ih
    | call c => exact ih
    | segment i s => exact ih

theorem emitted_connEvents (ev : List Event) : emitted (connEvents ev) = emitted ev := by
  induction ev with
  | nil => rfl
  | cons e ev ih =>
    cases e with
    | polled i => exact ih
    | netSend f => exact ih
    | opened i => exact ih
    | call c => exact ih
    | segment i s => exact congrArg ((i, s) :: ·) ih

theorem calls_connEvents (ev : List Event) : calls (connEvents ev) = calls ev := by
  induction ev with
  | nil => rfl
  | cons e ev ih =>
    cases e with
    | polled i => exact ih
    | netSend f => exact ih
    | opened i => exact ih
    | call c => exact congrArg (c :: ·) ih
    | segment i s => exact ih

theorem emitted_segs (i : Slot) (segs : List Segment) :
    emitted (segs.map (Event.segment i)) = segs.map fun s => (i, s) := by
  rw [emitted, List.filterMap_map]
  exact List.filterMap_eq_map ▸ rfl

theorem openings_segs (i : Slot) (segs : List Segment) :
    openings (segs.map (Event.segment i)) = [] := by
  simp [openings, List.filterMap_map]

theorem foldl_segments (w : Wire) (i : Slot) (segs : List Segment) :
    ((segs.map (Event.segment i)).foldl Wire.event w).sent = segs.foldl carried w.sent := by
  induction segs generalizing w with
  | nil => rfl
  | cons s segs ih => exact ih (w.event (.segment i s))

theorem foldl_call (w : Wire) (i : Slot) (c : Call) (segs : List Segment) :
    ((Event.call c :: segs.map (Event.segment i)).foldl Wire.event w).sent =
      segs.foldl carried w.sent := by
  have hcall : (w.event (.call c)).sent = w.sent := by
    simp only [Wire.event]
    split_ifs <;> rfl
  rw [List.foldl_cons, foldl_segments, hcall]

/-- A segment without data leaves the stream alone. -/
theorem carried_nil {sent : List UInt8} {s : Segment} (h : s.data = []) :
    carried sent s = sent := by
  simp [carried, h]

theorem foldl_carried_nil {sent : List UInt8} {segs : List Segment}
    (h : ∀ s ∈ segs, s.data = []) : segs.foldl carried sent = sent := by
  induction segs with
  | nil => rfl
  | cons s segs ih =>
    rw [List.foldl_cons, carried_nil (h s (by simp))]
    exact ih fun s hs => h s (by simp [hs])

theorem prefix_carried (sent : List UInt8) (s : Segment) : sent <+: carried sent s := by
  unfold carried
  split_ifs
  · exact List.prefix_append _ _
  · exact List.prefix_rfl

/-- The stream only grows. -/
theorem sent_prefix_foldl (w : Wire) (ev : List Event) :
    w.sent <+: (ev.foldl Wire.event w).sent := by
  induction ev generalizing w with
  | nil => exact List.prefix_rfl
  | cons e ev ih =>
    refine List.IsPrefix.trans ?_ (ih (w.event e))
    cases e with
    | segment i s =>
      rw [Wire.event_segment]
      exact prefix_carried w.sent s
    | call c =>
      simp only [Wire.event]
      split_ifs <;> exact List.prefix_rfl
    | opened i => exact List.prefix_rfl
    | polled i => exact List.prefix_rfl
    | netSend f => exact List.prefix_rfl

theorem acked_prefix_event {w : Wire} (h : w.acked <+: w.sent) (e : Event) :
    (w.event e).acked <+: (w.event e).sent := by
  cases e with
  | segment i s =>
    rw [Wire.event_segment]
    exact h.trans (prefix_carried w.sent s)
  | call c =>
    simp only [Wire.event]
    split_ifs
    · exact List.prefix_rfl
    · exact h
  | opened i => exact h
  | polled i => exact h
  | netSend f => exact h

/-- **What was acknowledged was sent.** -/
theorem acked_prefix_sent (os : List Outcome) : (wire os).acked <+: (wire os).sent := by
  have hfold : ∀ (ev : List Event) (w : Wire), w.acked <+: w.sent →
      (ev.foldl Wire.event w).acked <+: (ev.foldl Wire.event w).sent := by
    intro ev
    induction ev with
    | nil => exact fun w hw => hw
    | cons e ev ih => exact fun w hw => ih _ (acked_prefix_event hw e)
  exact hfold _ _ List.prefix_rfl

/-! ## The place of a connection in the stream -/

/-- What is in flight is the end of the stream. -/
def Aligned (c : UipConn) (sent : List UInt8) : Prop :=
  ∃ p, p + c.len = sent.length ∧ c.sndNxt.toNat = (1 + p) % 2 ^ 32

/-- An acknowledgement moves the place to the end of the stream. -/
theorem Aligned.acked {c c' : UipConn} {sent : List UInt8} (h : Aligned c sent)
    (hack : Acked c c') (hlen : c.len < 65536) : Aligned c' sent := by
  obtain ⟨p, hp, hseq⟩ := h
  obtain ⟨-, hnxt, hzero⟩ := hack
  refine ⟨sent.length, by omega, ?_⟩
  rw [hnxt, toNat_uipAdd32 _ hlen, hseq, Nat.mod_add_mod, ← hp]
  congr 1
  omega

theorem Aligned.sendSide {c c' : UipConn} {sent : List UInt8} {a : Bool} (h : Aligned c sent)
    (hside : SendSide a c c') (hlen : c.len < 65536) : Aligned c' sent := by
  cases a with
  | true => exact h.acked hside hlen
  | false =>
    obtain ⟨p, hp, hseq⟩ := h
    exact ⟨p, by rw [hside.2]; exact hp, by rw [hside.1]; exact hseq⟩

/-- With nothing in flight, a segment extends the stream. -/
theorem Aligned.carried_fresh {c : UipConn} {sent data : List UInt8} {flags : UInt8}
    (h : Aligned c sent) (hlen : c.len = 0) :
    carried sent ⟨c.sndNxt, flags, data⟩ = sent ++ data := by
  obtain ⟨p, hp, hseq⟩ := h
  obtain rfl : p = sent.length := by omega
  simp [carried, hseq]

/-- With something in flight, it is a repetition. -/
theorem Aligned.carried_again {c : UipConn} {sent data : List UInt8} {flags : UInt8}
    (h : Aligned c sent) (hpos : c.len ≠ 0) (hlen : c.len < 65536) :
    carried sent ⟨c.sndNxt, flags, data⟩ = sent := by
  obtain ⟨p, hp, hseq⟩ := h
  have hne : ¬ (1 + p) % 2 ^ 32 = (1 + sent.length) % 2 ^ 32 := by omega
  unfold carried
  rw [hseq, if_neg hne]

/-- Neither being set up nor in use. -/
def Over (c : UipConn) : Prop :=
  c.tcpstateflags ≠ .synRcvd ∧ c.tcpstateflags ≠ .established

theorem over_of_state {c : UipConn} {s : TcpState} (hc : c.tcpstateflags = s)
    (hsyn : s ≠ .synRcvd) (hest : s ≠ .established) : Over c :=
  ⟨fun h => hsyn (hc.symm.trans h), fun h => hest (hc.symm.trans h)⟩

/-! ## How a connection changes -/

/-- What is to be sent is the same, and the bridge is not more open than before. -/
structure SameTx (h h' : Httpd) : Prop where
  txPending : h'.txPending = h.txPending
  txLen : h'.txLen = h.txLen
  txBuf : h'.txBuf = h.txBuf
  connOpen : h'.connOpen = true → h.connOpen = true

/-- The ways in which a connection `c` changes, with the bridge, in one run of
`uip_process` with the given call, and the data by which the stream grows. -/
inductive Move (h : Httpd) (c : UipConn) (call : Option Call) (h' : Httpd) (c' : UipConn) :
    List UInt8 → Prop
  | stay : c'.tcpstateflags = c.tcpstateflags → Kept c c' → SameTx h h' → Move h c call h' c' []
  | connect : c.tcpstateflags = .synRcvd → c'.tcpstateflags = .established → Acked c c' →
      h'.txPending = false → Move h c call h' c' []
  | acked : c.tcpstateflags = .established → c'.tcpstateflags = .established → Acked c c' →
      h'.txPending = false → (h'.connOpen = true → h.connOpen = true) → Move h c call h' c' []
  | fresh {k : Call} : call = some k → c.tcpstateflags = .established →
      c'.tcpstateflags = .established → offers k.flags h = true → k.conn.len = 0 → c.len = 0 →
      c'.len = min h.txLen k.conn.mss → c'.sndNxt = c.sndNxt → 0 < h.txLen → SameTx h h' →
      Move h c call h' c' (h.txBuf.load 0 (min h.txLen k.conn.mss))
  | ended : Over c' → Move h c call h' c' []

theorem SameTx.refl (h : Httpd) : SameTx h h := ⟨rfl, rfl, rfl, id⟩

/-- A call without an acknowledgement does not change what is to be sent. -/
theorem sameTx_note {h : Httpd} {f : UipFlags} {d : List UInt8} (hack : f.ackdata = false)
    (hopen : f.connected = false ∨ ends f = true) : SameTx h (note f d h) := by
  refine ⟨by simp [note, hack], by simp [note, hack], rfl, fun h' => ?_⟩
  rcases hopen with hopen | hopen
  · cases he : ends f <;> simp_all [note]
  · simp [note, hopen] at h'

/-- A connection that is over is not brought back by a call. -/
theorem over_answer {h : Httpd} {c c' : UipConn} {k : Call} {segs : List Segment} (hover : Over c)
    (hstep : CallStep c k.conn k.flags k.resume ∨ PollStep c k) (hans : Answer h k c' segs) :
    Over c' ∧ (∀ s ∈ segs, s.flags = TCP_ACK ∧ s.data = []) ∧ k.flags.ackdata = false ∧
      ends k.flags = true ∧ k.resume ≠ .appsend ∧ k.resume ≠ .finack := by
  obtain ⟨slot, conn, flags, data, closing, resume⟩ := k
  have hends : Over conn ∧ flags.ackdata = false ∧ ends flags = true ∧
      (resume = .drop ∨ resume = .ack) := by
    rcases hstep with hstep | hpoll
    · cases hstep with
      | aborted hc => exact ⟨over_of_state hc (by decide) (by decide), rfl, rfl, Or.inl rfl⟩
      | connected _ hs _ _ => exact absurd hs hover.1
      | established _ _ hs _ _ _ => exact absurd hs hover.2
      | fin _ _ hs _ _ _ => exact absurd hs hover.2
      | closed _ hc => exact ⟨over_of_state hc (by decide) (by decide), rfl, rfl, Or.inl rfl⟩
      | finished _ hc =>
        refine ⟨?_, rfl, rfl, Or.inr rfl⟩
        rcases hc with hc | hc <;> exact over_of_state hc (by decide) (by decide)
    · exact absurd hpoll.established hover.2
  obtain ⟨hconn, hack, hend, hres⟩ := hends
  refine ⟨?_, ?_, hack, hend, ?_, ?_⟩
  · cases hans <;> simp_all
  · cases hans <;> simp_all
  · rcases hres with rfl | rfl <;> simp
  · rcases hres with rfl | rfl <;> simp

section Answers

variable {h : Httpd} {c c' : UipConn} {k : Call} {segs : List Segment} {sent : List UInt8}

/-- After a call that is not followed by `appsend` the connection is over. -/
theorem move_ended (hans : Answer h k c' segs) (hres : k.resume ≠ .appsend)
    (hconn : k.resume ≠ .finack → Over k.conn) :
    segs.foldl carried sent = sent ∧ Over c' := by
  cases hans with
  | drop hk => exact ⟨rfl, hconn (by simp [hk])⟩
  | ack hk => exact ⟨foldl_carried_nil (by simp), hconn (by simp [hk])⟩
  | finack _ => exact ⟨foldl_carried_nil (by simp), by simp [Over]⟩
  | close hk _ => exact absurd hk hres
  | fresh hk _ _ _ _ _ => exact absurd hk hres
  | again hk _ _ _ _ => exact absurd hk hres
  | idle hk _ _ => exact absurd hk hres

theorem ackIf_data (newdata : Bool) (c : UipConn) : ∀ s ∈ ackIf newdata c, s.data = [] := by
  cases newdata <;> simp [ackIf]

/-- The handshake completes; nothing is pending. -/
theorem move_connected (hs : c.tcpstateflags = .synRcvd)
    (hest : k.conn.tcpstateflags = .established) (hack : Acked c k.conn)
    (hflags : k.flags.ackdata = false) (htx : h.txPending = false)
    (hres : k.resume = .appsend) (hans : Answer h k c' segs) :
    segs.foldl carried sent = sent ∧ Move h c (some k) (note k.flags k.data h) c' [] := by
  have hoff : offers k.flags h = false := by simp [offers, htx]
  cases hans with
  | drop hk => simp [hres] at hk
  | ack hk => simp [hres] at hk
  | finack hk => simp [hres] at hk
  | close _ _ => exact ⟨foldl_carried_nil (by simp), .ended (by simp [Over])⟩
  | fresh _ _ hoff' _ _ _ => simp [hoff] at hoff'
  | again _ _ hoff' _ _ => simp [hoff] at hoff'
  | idle _ _ _ =>
    refine ⟨foldl_carried_nil (ackIf_data _ _), .connect hs hest hack ?_⟩
    simp [note, hflags, htx]

/-- A call for a connection in use, without an acknowledgement. -/
theorem move_kept (hs : c.tcpstateflags = .established)
    (hest : k.conn.tcpstateflags = .established) (hkept : Kept c k.conn)
    (hflags : k.flags.ackdata = false ∧ k.flags.connected = false) (hres : k.resume = .appsend)
    (hal : Aligned c sent) (hfits : h.txLen ≤ NET_BUF_SIZE) (hans : Answer h k c' segs) :
    ∃ data, segs.foldl carried sent = sent ++ data ∧
      Move h c (some k) (note k.flags k.data h) c' data := by
  have hnet : NET_BUF_SIZE = 512 := rfl
  have hsame : SameTx h (note k.flags k.data h) := sameTx_note hflags.1 (Or.inl hflags.2)
  cases hans with
  | drop hk => simp [hres] at hk
  | ack hk => simp [hres] at hk
  | finack hk => simp [hres] at hk
  | close _ _ =>
    exact ⟨[], by rw [foldl_carried_nil (by simp), List.append_nil], .ended (by simp [Over])⟩
  | fresh _ _ hoff hpos hlen _ =>
    have hlen' : c.len = 0 := hkept.2 ▸ hlen
    refine ⟨_, ?_, .fresh rfl hs hest hoff hlen hlen' rfl hkept.1 hpos hsame⟩
    rw [List.foldl_cons, List.foldl_nil, hkept.1, hal.carried_fresh hlen']
  | again _ _ _ hlen hle =>
    have hlen' : c.len ≠ 0 := hkept.2 ▸ hlen
    refine ⟨[], ?_, .stay (hest.trans hs.symm) hkept hsame⟩
    rw [List.foldl_cons, List.foldl_nil, hkept.1,
      hal.carried_again hlen' (by rw [← hkept.2]; omega), List.append_nil]
  | idle _ _ _ =>
    refine ⟨[], ?_, .stay (hest.trans hs.symm) hkept hsame⟩
    rw [foldl_carried_nil (ackIf_data _ _), List.append_nil]

/-- A call for a connection in use, with an acknowledgement. -/
theorem move_acked (hs : c.tcpstateflags = .established)
    (hest : k.conn.tcpstateflags = .established) (hack : Acked c k.conn)
    (hflags : k.flags.ackdata = true ∧ k.flags.connected = false) (hres : k.resume = .appsend)
    (hans : Answer h k c' segs) :
    segs.foldl carried sent = sent ∧ Move h c (some k) (note k.flags k.data h) c' [] := by
  have hoff : offers k.flags h = false := by simp [offers, hflags.1]
  cases hans with
  | drop hk => simp [hres] at hk
  | ack hk => simp [hres] at hk
  | finack hk => simp [hres] at hk
  | close _ _ => exact ⟨foldl_carried_nil (by simp), .ended (by simp [Over])⟩
  | fresh _ _ hoff' _ _ _ => simp [hoff] at hoff'
  | again _ _ hoff' _ _ => simp [hoff] at hoff'
  | idle _ _ _ =>
    refine ⟨foldl_carried_nil (ackIf_data _ _), .acked hs hest hack ?_ ?_⟩
    · simp [note, hflags.1]
    · intro hopen
      cases he : ends k.flags <;> simp_all [note]

/-- **A call makes one of the moves.** -/
theorem move_call (hsyn : c.tcpstateflags = .synRcvd → h.txPending = false)
    (hal : c.tcpstateflags = .established → Aligned c sent) (hfits : h.txLen ≤ NET_BUF_SIZE)
    (hstep : CallStep c k.conn k.flags k.resume ∨ PollStep c k) (hans : Answer h k c' segs) :
    ∃ data, segs.foldl carried sent = sent ++ data ∧
      Move h c (some k) (note k.flags k.data h) c' data := by
  have hnil : segs.foldl carried sent = sent ∧ Move h c (some k) (note k.flags k.data h) c' [] →
      ∃ data, segs.foldl carried sent = sent ++ data ∧
        Move h c (some k) (note k.flags k.data h) c' data :=
    fun hm => ⟨[], by rw [hm.1, List.append_nil], hm.2⟩
  have hover : segs.foldl carried sent = sent ∧ Over c' → _ := fun hm => hnil ⟨hm.1, .ended hm.2⟩
  obtain ⟨slot, conn, flags, data, closing, resume⟩ := k
  rcases hstep with hstep | hpoll
  · cases hstep with
    | aborted hc =>
      exact hover (move_ended hans (by simp) fun _ => over_of_state hc (by decide) (by decide))
    | connected d hs hest hack => exact hnil (move_connected hs hest hack rfl (hsyn hs) rfl hans)
    | established a d hs hest hside _ =>
      cases a with
      | true => exact hnil (move_acked hs hest hside ⟨rfl, rfl⟩ rfl hans)
      | false => exact move_kept hs hest hside ⟨rfl, rfl⟩ rfl (hal hs) hfits hans
    | fin _ _ _ _ _ _ => exact hover (move_ended hans (by simp) (by simp))
    | closed _ hc =>
      exact hover (move_ended hans (by simp) fun _ => over_of_state hc (by decide) (by decide))
    | finished _ hc =>
      refine hover (move_ended hans (by simp) fun _ => ?_)
      rcases hc with hc | hc <;> exact over_of_state hc (by decide) (by decide)
  · obtain ⟨rfl, hs, -, rfl, rfl⟩ := hpoll
    exact move_kept hs hs ⟨rfl, rfl⟩ ⟨rfl, rfl⟩ rfl (hal hs) hfits hans

end Answers

/-- **How the one connection moves.**  The others are over and stay so. -/
theorem move_effect {h : Httpd} {conns conns' : Slot → UipConn} {call : Option Call}
    {ev : List Event} {w : Wire} {a : Slot} (heff : Effect h conns conns' call ev)
    (hothers : ∀ j, j ≠ a → Over (conns j)) (hopen : openings ev = [])
    (hsyn : (conns a).tcpstateflags = .synRcvd → h.txPending = false)
    (hal : (conns a).tcpstateflags = .established → Aligned (conns a) w.sent)
    (hfits : h.txLen ≤ NET_BUF_SIZE) :
    (∀ j, j ≠ a → Over (conns' j)) ∧ ∃ data, (ev.foldl Wire.event w).sent = w.sent ++ data ∧
      Move h (conns a) call (noted h call) (conns' a) data := by
  have hstay : ∀ {h'}, SameTx h h' → Move h (conns a) call h' (conns a) [] :=
    fun hsame => .stay rfl ⟨rfl, rfl⟩ hsame
  have hupd : ∀ (i : Slot) (c' : UipConn), (i ≠ a → Over c') →
      ∀ j, j ≠ a → Over (Function.update conns i c' j) := by
    intro i c' hc' j hj
    by_cases hji : j = i
    · rw [hji, Function.update_self]
      exact hc' (hji ▸ hj)
    · rw [Function.update_of_ne hji]
      exact hothers j hj
  cases heff with
  | nothing => exact ⟨hothers, [], by simp, hstay (SameTx.refl h)⟩
  | @quiet i c' segs hq hsegs =>
    have hsent : ((segs.map (Event.segment i)).foldl Wire.event w).sent = w.sent ++ [] := by
      rw [foldl_segments, foldl_carried_nil fun s hs => (hsegs s hs).2, List.append_nil]
    have hover : Over (conns i) → Over c' := fun ho =>
      ⟨fun hc => ho.1 (hq.synRcvd.mp hc), fun hc => ho.2 (hq.established.mp hc)⟩
    refine ⟨hupd i c' fun hi => hover (hothers i hi), [], hsent, ?_⟩
    by_cases hi : i = a
    · subst hi
      rw [Function.update_self]
      by_cases hs : (conns i).tcpstateflags = .synRcvd
      · exact .stay ((hq.synRcvd.mpr hs).trans hs.symm) (hq.kept (Or.inl hs)) (SameTx.refl h)
      · by_cases hs' : (conns i).tcpstateflags = .established
        · exact .stay ((hq.established.mpr hs').trans hs'.symm) (hq.kept (Or.inr hs'))
            (SameTx.refl h)
        · exact .ended (hover ⟨hs, hs'⟩)
    · rw [Function.update_of_ne (Ne.symm hi)]
      exact hstay (SameTx.refl h)
  | opened _ _ _ => simp [openings] at hopen
  | @call k c' segs hstep _ hans =>
    rw [foldl_call]
    by_cases hi : k.slot = a
    · obtain ⟨data, hsent, hmove⟩ := move_call (hi ▸ hsyn) (hi ▸ hal) hfits hstep hans
      refine ⟨hupd _ c' fun hne => absurd hi hne, data, hsent, ?_⟩
      rw [← hi, Function.update_self]
      exact hmove
    · obtain ⟨hover, hdata, hack, hend, -⟩ := over_answer (hothers _ hi) hstep hans
      refine ⟨hupd _ c' fun _ => hover, [], ?_, ?_⟩
      · rw [foldl_carried_nil fun s hs => (hdata s hs).2, List.append_nil]
      · rw [Function.update_of_ne (Ne.symm hi)]
        exact hstay (sameTx_note hack (Or.inr hend))

/-! ## The life of the connection -/

/-- The state of the table and of the bridge after the bytes `sent`, when at most one
connection has been opened; the list holds its slot. -/
inductive Phase (h : Httpd) (conns : Slot → UipConn) (sent : List UInt8) : List Slot → Prop
  | unopened : (∀ j, Over (conns j)) → h.connOpen = false → h.txPending = false → sent = [] →
      Phase h conns sent []
  | handshake {a : Slot} : (∀ j, j ≠ a → Over (conns j)) →
      (conns a).tcpstateflags = .synRcvd → (conns a).sndNxt = iss → (conns a).len = 1 →
      h.connOpen = false → h.txPending = false → sent = [] → Phase h conns sent [a]
  /-- What is in flight is what is pending; after a second `NET_SOCK_LISTEN` it need not
  be, but then the socket does not open again. -/
  | inUse {a : Slot} : (∀ j, j ≠ a → Over (conns j)) →
      (conns a).tcpstateflags = .established → Aligned (conns a) sent →
      (conns a).len ≤ NET_BUF_SIZE → (h.txPending = true → (conns a).len ≤ h.txLen) →
      (h.txPending = false → h.connOpen = true → (conns a).len = 0) → Phase h conns sent [a]
  | ended {a : Slot} : (∀ j, Over (conns j)) → Phase h conns sent [a]

/-- Of the bridge, a phase is about the connection and the payload that is pending. -/
theorem Phase.congr {h h' : Httpd} {conns : Slot → UipConn} {sent : List UInt8} {l : List Slot}
    (hp : Phase h conns sent l) (hopen : h'.connOpen = h.connOpen)
    (hpend : h'.txPending = h.txPending) (hlen : h'.txLen = h.txLen) :
    Phase h' conns sent l := by
  cases hp with
  | unopened h1 h2 h3 h4 => exact .unopened h1 (hopen.trans h2) (hpend.trans h3) h4
  | handshake h1 h2 h3 h4 h5 h6 h7 =>
    exact .handshake h1 h2 h3 h4 (hopen.trans h5) (hpend.trans h6) h7
  | inUse h1 h2 h3 h4 h5 h6 =>
    rw [← hpend, ← hlen] at h5
    rw [← hpend, ← hopen] at h6
    exact .inUse h1 h2 h3 h4 h5 h6
  | ended h1 => exact .ended h1

/-- When every connection is over, nothing comes of a packet or a poll. -/
theorem over_effect {h : Httpd} {conns conns' : Slot → UipConn} {call : Option Call}
    {ev : List Event} {w : Wire} (heff : Effect h conns conns' call ev)
    (hover : ∀ j, Over (conns j)) (hopen : openings ev = []) :
    (∀ j, Over (conns' j)) ∧ (ev.foldl Wire.event w).sent = w.sent ∧
      SameTx h (noted h call) := by
  have hupd : ∀ (i : Slot) (c' : UipConn), Over c' →
      ∀ j, Over (Function.update conns i c' j) := by
    intro i c' hc' j
    by_cases hji : j = i
    · rwa [hji, Function.update_self]
    · rw [Function.update_of_ne hji]
      exact hover j
  cases heff with
  | nothing => exact ⟨hover, rfl, SameTx.refl h⟩
  | @quiet i c' segs hq hsegs =>
    refine ⟨hupd i c' ⟨fun hc => (hover i).1 (hq.synRcvd.mp hc),
      fun hc => (hover i).2 (hq.established.mp hc)⟩, ?_, SameTx.refl h⟩
    rw [foldl_segments, foldl_carried_nil fun s hs => (hsegs s hs).2]
  | opened _ _ _ => simp [openings] at hopen
  | @call k c' segs hstep _ hans =>
    obtain ⟨hc', hdata, hack, hend, -⟩ := over_answer (hover _) hstep hans
    refine ⟨hupd _ c' hc', ?_, sameTx_note hack (Or.inr hend)⟩
    rw [foldl_call, foldl_carried_nil fun s hs => (hdata s hs).2]

/-- When every connection is over, at most a new one is opened. -/
theorem opened_effect {h : Httpd} {conns conns' : Slot → UipConn} {call : Option Call}
    {ev : List Event} {w : Wire} (heff : Effect h conns conns' call ev)
    (hover : ∀ j, Over (conns j)) (hopen : openings ev ≠ []) :
    ∃ i, openings ev = [i] ∧ call = none ∧ (ev.foldl Wire.event w).sent = w.sent ∧
      (∀ j, j ≠ i → Over (conns' j)) ∧ OpenStep (conns i) (conns' i) := by
  cases heff with
  | nothing => simp at hopen
  | @quiet i c' segs _ _ => exact absurd (openings_segs i segs) hopen
  | @opened i c' s hstep _ hdata =>
    refine ⟨i, rfl, rfl, ?_, fun j hj => ?_, ?_⟩
    · change ((w.event (.opened i)).event (.segment i s)).sent = w.sent
      rw [Wire.event_segment]
      exact carried_nil hdata
    · rw [Function.update_of_ne hj]
      exact hover j
    · rw [Function.update_self]
      exact hstep
  | @call k c' segs _ _ _ => exact absurd (openings_segs k.slot segs) hopen

section Moves

variable {h h' : Httpd} {conns conns' : Slot → UipConn} {call : Option Call} {a : Slot}
  {sent data : List UInt8}

theorem over_of_others (hothers : ∀ j, j ≠ a → Over (conns j)) (hover : Over (conns a)) (j : Slot) :
    Over (conns j) := by
  by_cases hj : j = a
  · exact hj ▸ hover
  · exact hothers j hj

theorem SameTx.connOpen_eq_false (hsame : SameTx h h') (hopen : h.connOpen = false) :
    h'.connOpen = false := by
  by_contra hc
  have hc' := hsame.connOpen (by simpa using hc)
  simp [hopen] at hc'

theorem phase_handshake (hmove : Move h (conns a) call h' (conns' a) data)
    (hothers : ∀ j, j ≠ a → Over (conns' j)) (hsyn : (conns a).tcpstateflags = .synRcvd)
    (hnxt : (conns a).sndNxt = iss) (hlen : (conns a).len = 1) (hopen : h.connOpen = false)
    (htx : h.txPending = false) : Phase h' conns' data [a] := by
  cases hmove with
  | stay hs hk hsame =>
    exact .handshake hothers (hs.trans hsyn) (hk.1.trans hnxt) (hk.2.trans hlen)
      (hsame.connOpen_eq_false hopen) (hsame.txPending.trans htx) rfl
  | connect _ hest hack htx' =>
    have hnil : Aligned (conns' a) [] := by
      refine ⟨0, by simpa using hack.2.2, ?_⟩
      rw [hack.2.1, hnxt, hlen, toNat_uipAdd32 _ (by decide)]
      rfl
    exact .inUse hothers hest hnil (by rw [hack.2.2]; exact Nat.zero_le _) (by simp [htx'])
      (fun _ _ => hack.2.2)
  | acked hest _ _ _ _ => simp [hsyn] at hest
  | fresh _ hest _ _ _ _ _ _ _ _ => simp [hsyn] at hest
  | ended hover => exact .ended (over_of_others hothers hover)

theorem phase_inUse (hmove : Move h (conns a) call h' (conns' a) data)
    (hothers : ∀ j, j ≠ a → Over (conns' j)) (hest : (conns a).tcpstateflags = .established)
    (hal : Aligned (conns a) sent) (hbound : (conns a).len ≤ NET_BUF_SIZE)
    (hpend : h.txPending = true → (conns a).len ≤ h.txLen)
    (hidle : h.txPending = false → h.connOpen = true → (conns a).len = 0)
    (hfits : h.txLen ≤ NET_BUF_SIZE) : Phase h' conns' (sent ++ data) [a] := by
  have hnet : NET_BUF_SIZE = 512 := rfl
  cases hmove with
  | stay hs hk hsame =>
    rw [List.append_nil]
    obtain ⟨p, hp, hseq⟩ := hal
    refine .inUse hothers (hs.trans hest) ⟨p, by rw [hk.2]; exact hp, by rw [hk.1]; exact hseq⟩
      (by rw [hk.2]; exact hbound) ?_ ?_
    · rw [hk.2, hsame.txPending, hsame.txLen]
      exact hpend
    · rw [hk.2, hsame.txPending]
      exact fun htx hopen => hidle htx (hsame.connOpen hopen)
  | connect hsyn _ _ _ => simp [hest] at hsyn
  | acked _ hest' hack htx _ =>
    rw [List.append_nil]
    exact .inUse hothers hest' (hal.acked hack (by omega))
      (by rw [hack.2.2]; exact Nat.zero_le _) (by simp [htx]) (fun _ _ => hack.2.2)
  | @fresh k _ _ hest' hoff hk hzero hlen hnxt hpos hsame =>
    have htx : h.txPending = true := by
      simp only [offers, decide_eq_true_eq] at hoff
      exact hoff.2.1
    have hle : (conns' a).len ≤ h.txLen := by
      rw [hlen]
      exact Nat.min_le_left _ _
    have hal' : Aligned (conns' a) (sent ++ h.txBuf.load 0 (min h.txLen k.conn.mss)) := by
      obtain ⟨p, hp, hseq⟩ := hal
      refine ⟨p, ?_, by rw [hnxt]; exact hseq⟩
      rw [List.length_append, Mem.length_load, hlen]
      omega
    refine .inUse hothers hest' hal' (hle.trans hfits) ?_ ?_
    · rw [hsame.txLen]
      exact fun _ => hle
    · rw [hsame.txPending, htx]
      simp
  | ended hover => exact .ended (over_of_others hothers hover)

end Moves

/-- No second connection is opened. -/
theorem openings_eq_nil {l l' : List Slot} (hone : (l ++ l').length ≤ 1) (hl : l ≠ []) :
    l' = [] := by
  have hpos := List.length_pos_iff.mpr hl
  rw [List.length_append] at hone
  exact List.length_eq_zero_iff.mp (by omega)

/-- **Each run of `uip_process` leads from one phase to another.** -/
theorem phase_effect {h : Httpd} {conns conns' : Slot → UipConn} {call : Option Call}
    {ev : List Event} {w : Wire} {l : List Slot} (hp : Phase h conns w.sent l)
    (heff : Effect h conns conns' call ev) (hfits : h.txLen ≤ NET_BUF_SIZE)
    (hone : (l ++ openings ev).length ≤ 1) :
    Phase (noted h call) conns' (ev.foldl Wire.event w).sent (l ++ openings ev) := by
  cases hp with
  | unopened hover hopen htx hsent =>
    by_cases hev : openings ev = []
    · obtain ⟨hover', hsent', hsame⟩ := over_effect (w := w) heff hover hev
      rw [hev, hsent', List.append_nil]
      exact .unopened hover' (hsame.connOpen_eq_false hopen) (hsame.txPending.trans htx) hsent
    · obtain ⟨i, hi, rfl, hsent', hothers, hstep⟩ := opened_effect (w := w) heff hover hev
      rw [hi, hsent', List.nil_append]
      exact .handshake hothers hstep.synRcvd hstep.sndNxt hstep.len hopen htx hsent
  | @handshake a hothers hsyn hnxt hlen hopen htx hsent =>
    have hev := openings_eq_nil hone (by simp)
    obtain ⟨hothers', data, hsent', hmove⟩ := move_effect (w := w) heff hothers hev
      (fun _ => htx) (fun hest => by simp [hsyn] at hest) hfits
    rw [hev, List.append_nil, hsent', hsent, List.nil_append]
    exact phase_handshake hmove hothers' hsyn hnxt hlen hopen htx
  | @inUse a hothers hest hal hbound hpend hidle =>
    have hev := openings_eq_nil hone (by simp)
    obtain ⟨hothers', data, hsent', hmove⟩ := move_effect (w := w) heff hothers hev
      (fun hsyn => by simp [hest] at hsyn) (fun _ => hal) hfits
    rw [hev, List.append_nil, hsent']
    exact phase_inUse hmove hothers' hest hal hbound hpend hidle hfits
  | ended hover =>
    have hev := openings_eq_nil hone (by simp)
    rw [hev, List.append_nil]
    exact .ended (over_effect (w := w) heff hover hev).1

/-! ## Runs -/

/-- The bridge hears of a frame through the call alone. -/
theorem netPoll_noted (n : Net) (rx : Rx) :
    ∃ r, (netPoll n rx).1.httpd = { noted n.httpd (frameCall n rx) with rxLen := r } := by
  rw [netPoll_httpd]
  by_cases hf : rx.frame = []
  · have hnone : frameCall n rx = none := by simp [frameCall, frameVerdict, hf]
    rw [if_pos hf, hnone]
    exact ⟨n.httpd.rxLen, rfl⟩
  · rw [if_neg hf]
    exact ⟨0, rfl⟩

theorem kick_noted (n : Net) :
    ∃ r, (kickActiveConnection n).1.httpd = { noted n.httpd (kickCall n) with rxLen := r } := by
  rw [kick_httpd]
  by_cases hl : n.sock.listenPort < 0
  · have hnone : kickCall n = none := by simp [kickCall, kickVerdict, hl]
    rw [if_pos hl, hnone]
    exact ⟨n.httpd.rxLen, rfl⟩
  · rw [if_neg hl]
    exact ⟨0, rfl⟩

/-- A connection that is not over is the one that was opened. -/
theorem Phase.of_live {h : Httpd} {conns : Slot → UipConn} {sent : List UInt8} {l : List Slot}
    {i : Slot} (hp : Phase h conns sent l) (hlive : ¬ Over (conns i)) :
    l = [i] ∧ (∀ j, j ≠ i → Over (conns j)) ∧
      ((conns i).tcpstateflags = .synRcvd ∧ (conns i).sndNxt = iss ∧ (conns i).len = 1 ∧
          sent = [] ∨
        (conns i).tcpstateflags = .established ∧ Aligned (conns i) sent ∧
          (conns i).len ≤ NET_BUF_SIZE ∧ (h.txPending = true → (conns i).len ≤ h.txLen)) := by
  cases hp with
  | unopened hover _ _ _ => exact absurd (hover i) hlive
  | @handshake a hothers hs hnxt hlen _ _ hsent =>
    obtain rfl : i = a := by
      by_contra hne
      exact hlive (hothers i hne)
    exact ⟨rfl, hothers, Or.inl ⟨hs, hnxt, hlen, hsent⟩⟩
  | @inUse a hothers hs hal hbound hpend _ =>
    obtain rfl : i = a := by
      by_contra hne
      exact hlive (hothers i hne)
    exact ⟨rfl, hothers, Or.inr ⟨hs, hal, hbound, hpend⟩⟩
  | ended hover => exact absurd (hover i) hlive

/-- What is offered is no less than what is in flight. -/
theorem Phase.inFlight_le {h : Httpd} {conns : Slot → UipConn} {sent : List UInt8} {l : List Slot}
    {k : Call} (hp : Phase h conns sent l) (hstep : CallStep (conns k.slot) k.conn k.flags k.resume)
    (hoff : offers k.flags h = true) : k.conn.len ≤ h.txLen := by
  obtain ⟨slot, conn, flags, data, closing, resume⟩ := k
  simp only [offers, decide_eq_true_eq] at hoff
  obtain ⟨-, htx, hack, hkind⟩ := hoff
  cases hstep with
  | aborted _ => simp at hkind
  | connected d _ _ hacked =>
    rw [show conn.len = 0 from hacked.2.2]
    exact Nat.zero_le _
  | established a d hs _ hside _ =>
    obtain rfl : a = false := hack
    have hkept : Kept (conns slot) conn := hside
    rw [hkept.2]
    obtain ⟨-, -, ⟨hsyn, -⟩ | ⟨-, -, -, hpend⟩⟩ := hp.of_live (i := slot) fun hover => hover.2 hs
    · exact absurd (hsyn.symm.trans hs) (by decide)
    · exact hpend htx
  | fin _ _ _ _ _ hzero =>
    rw [show conn.len = 0 from hzero]
    exact Nat.zero_le _
  | closed _ _ => simp at hkind
  | finished _ _ => simp at hkind

section Steps

variable {n : Net} {w : Wire} {l : List Slot}

/-- The effect of a frame on the one connection. -/
theorem Phase.effect_netPoll (hp : Phase n.httpd n.uip.conns w.sent l) (hn : Coherent n)
    (rx : Rx) : Effect n.httpd n.uip.conns (netPoll n rx).1.uip.conns (frameCall n rx)
      (connEvents (netPoll n rx).2) :=
  Service.effect_netPoll hn.fits fun _ hk _ hoff => hp.inFlight_le (callStep_of_frameCall hk) hoff

theorem phase_netPoll (hp : Phase n.httpd n.uip.conns w.sent l) (hn : Coherent n) (rx : Rx)
    (hone : (l ++ openings (netPoll n rx).2).length ≤ 1) :
    Phase (netPoll n rx).1.httpd (netPoll n rx).1.uip.conns
      ((netPoll n rx).2.foldl Wire.event w).sent (l ++ openings (netPoll n rx).2) := by
  have heff := hp.effect_netPoll hn rx
  rw [← openings_connEvents] at hone ⊢
  have hphase := phase_effect hp heff hn.fits hone
  rw [foldl_connEvents] at hphase
  obtain ⟨r, hr⟩ := netPoll_noted n rx
  rw [hr]
  exact hphase.congr rfl rfl rfl

/-- A kick opens no connection. -/
theorem openings_kick (n : Net) : openings (kickActiveConnection n).2 = [] := by
  rcases kick_cases n with ⟨-, -, heq⟩ | ⟨-, -, heq⟩ | ⟨-, i, -, -, heq⟩
  · rw [heq, openings_nil]
  · rw [heq, openings_nil]
  · have hop : openings (kickActiveConnection n).2 =
        openings (process n (uipProcessPoll n.uip i)).2 := by rw [heq]; rfl
    rw [hop, openings_process]
    rcases uipProcessPoll_cases n.uip i with ⟨u', hu, -⟩ | ⟨u', hu, -⟩
    · rw [hu]
      rfl
    · rw [hu]
      exact openings_segments i _

theorem phase_kick (hp : Phase n.httpd n.uip.conns w.sent l) (hn : Coherent n)
    (hslen : Drained n) (hone : l.length ≤ 1) :
    Phase (kickActiveConnection n).1.httpd (kickActiveConnection n).1.uip.conns
      ((kickActiveConnection n).2.foldl Wire.event w).sent l := by
  have heff := effect_kick hn.fits hslen
  have hop : openings (connEvents (kickActiveConnection n).2) = [] := by
    rw [openings_connEvents, openings_kick]
  have hphase := phase_effect hp heff hn.fits (by rwa [hop, List.append_nil])
  rw [foldl_connEvents, hop, List.append_nil] at hphase
  obtain ⟨r, hr⟩ := kick_noted n
  rw [hr]
  exact hphase.congr rfl rfl rfl

/-- A payload is taken over only when the connection is in use with nothing in flight,
or over. -/
theorem phase_taken {t : Net} {i : Input} (ht : taken n i = some t)
    (hm : Coherent (netPoll n i.rx).1)
    (hp : Phase (netPoll n i.rx).1.httpd (netPoll n i.rx).1.uip.conns w.sent l) :
    Phase t.httpd t.uip.conns w.sent l := by
  obtain ⟨hopen, htx, -⟩ := idle_of_taken ht hm
  obtain ⟨hconns, -, htx', -⟩ := taken_frame ht
  rw [hconns]
  cases hp with
  | unopened _ hclosed _ _ => simp [hopen] at hclosed
  | handshake _ _ _ _ hclosed _ _ => simp [hopen] at hclosed
  | inUse hothers hest hal hbound _ hidle =>
    refine .inUse hothers hest hal hbound (fun _ => ?_) (by simp [htx'])
    rw [hidle htx hopen]
    exact Nat.zero_le _
  | ended hover => exact .ended hover

/-- Asking the bridge to close changes nothing yet. -/
theorem phase_askClose (hp : Phase n.httpd n.uip.conns w.sent l) :
    Phase (askClose n).httpd (askClose n).uip.conns w.sent l :=
  hp.congr rfl rfl rfl

theorem phase_reset (hp : Phase n.httpd n.uip.conns w.sent l) :
    Phase (resetSocketState n).httpd n.uip.conns w.sent l := by
  cases hp with
  | unopened h1 _ _ h4 => exact .unopened h1 rfl rfl h4
  | handshake h1 h2 h3 h4 _ _ h7 => exact .handshake h1 h2 h3 h4 rfl rfl h7
  | inUse h1 h2 h3 h4 _ _ =>
    refine .inUse h1 h2 h3 h4 (fun htx => ?_) (fun _ hopen => ?_)
    · simp [resetSocketState] at htx
    · simp [resetSocketState] at hopen
  | ended h1 => exact .ended h1

theorem phase_clearPending (hp : Phase n.httpd n.uip.conns w.sent l) :
    Phase (clearPending n).httpd n.uip.conns w.sent l :=
  hp.congr rfl rfl rfl

/-- **Every step leads from one phase to another.** -/
theorem phase_step {n' : Net} {i : Input} {o : Outcome} (hn : Coherent n)
    (hp : Phase n.httpd n.uip.conns w.sent l) (h : step n i = some (n', o))
    (hone : (l ++ openings o.events).length ≤ 1) :
    Phase n'.httpd n'.uip.conns (o.events.foldl Wire.event w).sent (l ++ openings o.events) := by
  have hserved := served_step h
  generalize o.events = ev at hserved hone ⊢
  generalize payloadOf o = pay at hserved
  generalize isAccept o = acc at hserved
  have hm := coherent_netPoll hn i.rx
  cases hserved with
  | card hev hsame =>
    rw [← foldl_connEvents, ← openings_connEvents, hev, hsame.1, hsame.2]
    simpa using hp
  | listened hsame =>
    rw [hsame.1, hsame.2]
    have hreset := phase_reset hp
    simpa [resetSocketState] using hreset
  | polled _ hsame =>
    rw [hsame.1, hsame.2]
    exact phase_netPoll hp hn i.rx hone
  | accepted _ _ hsame =>
    rw [hsame.1, hsame.2]
    exact phase_clearPending (phase_netPoll hp hn i.rx hone)
  | @sent t pay ht hsame _ _ =>
    rw [openings_append, openings_kick, List.append_nil] at hone ⊢
    obtain ⟨hct, hslen⟩ := coherent_taken ht hm
    rw [hsame.1, hsame.2, List.foldl_append]
    exact phase_kick (phase_taken ht hm (phase_netPoll hp hn i.rx hone)) hct hslen hone
  | closed _ hsame =>
    rw [openings_append, openings_kick, List.append_nil] at hone ⊢
    obtain ⟨hct, hslen⟩ := coherent_askClose hm
    rw [hsame.1, hsame.2, List.foldl_append]
    exact phase_kick (phase_askClose (phase_netPoll hp hn i.rx hone)) hct hslen hone

end Steps

theorem coherent_run {C : Net → Input → Prop} {is : List Input} {os : List Outcome} {n : Net}
    (hrun : Run step C Net.init is os n) : Coherent n :=
  hrun.invariant (P := fun _ n => Coherent n) (fun _ _ _ _ _ hn _ hs => coherent_step hn hs)
    coherent_init

/-- **The phase of the connection**, in every run with at most one. -/
theorem phase_run {C : Net → Input → Prop} {is : List Input} {os : List Outcome} {n : Net}
    (hrun : Run step C Net.init is os n) (hone : (openings (history os)).length ≤ 1) :
    Phase n.httpd n.uip.conns (wire os).sent (openings (history os)) := by
  induction hrun with
  | nil => exact .unopened (fun j => by simp [Net.init, uipInit, Over]) rfl rfl rfl
  | @snoc is os n n' i o hrun _ hs ih =>
    rw [history_append, openings_append] at hone ⊢
    rw [wire_append]
    refine phase_step (coherent_run hrun) (ih ?_) hs hone
    rw [List.length_append] at hone
    omega

end Service
end EgosNet
