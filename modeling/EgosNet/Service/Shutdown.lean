import EgosNet.Service.Sequence
import EgosNet.Service.Peer

/-!
# The place of a `FIN`

`sock_close` asks the bridge to close and polls the connection.  uIP ignores the
poll while data is in flight, and the request stays with the bridge until uIP calls
it for some other reason.  Then `uip_close` is called, whatever the reason, and uIP
builds a `FIN` at the first sequence number in flight.

So the `FIN` comes after the data only if nothing is in flight at that call.  An
acknowledgement leaves nothing in flight.  The one call that does is for a segment
that brings data and acknowledges nothing, and `Unhurried` excludes that such a
segment arrives while a close is waiting.

* `fin_follows_data`: in every run with a single connection whose frames are
  unhurried, nothing is in flight when the close becomes a `FIN`, the `FIN` has the
  number after the last byte of the stream, and no byte has its number.
* `fin_overtakes_data`: a run with one segment that does not wait, in which the
  `FIN` has the number of the first byte sent.
-/

namespace EgosNet
namespace Service

open Foundation Uip

def Segment.isFin (s : Segment) : Bool := s.flags &&& TCP_FIN ≠ 0

/-- A frame that brings data and does not acknowledge what is in flight does not find
a close pending. -/
def Unhurried (n : Net) (i : Input) : Prop :=
  polling i.request = true → n.httpd.closePending = true → ∀ c ∈ frameCall n i.rx,
    c.flags.newdata = true → c.flags.ackdata = false → c.flags.connected = false →
      (n.uip.conns c.slot).len = 0

instance (n : Net) (i : Input) : Decidable (Unhurried n i) := inferInstanceAs (Decidable (_ → _))

/-! ## Segments -/

/-- The segments that answer a call: a `FIN` comes after the stream, and data is part
of it. -/
theorem answer_segments {h : Httpd} {c' : UipConn} {k : Call} {segs : List Segment}
    {sent : List UInt8} (hans : Answer h k c' segs)
    (hal : k.resume = .appsend ∨ k.resume = .finack → Aligned k.conn sent)
    (hclose : h.closePending = true → k.resume = .appsend → k.conn.len = 0)
    (hfin : k.resume = .finack → k.conn.len = 0) (hfits : h.txLen ≤ NET_BUF_SIZE) :
    ∀ s ∈ segs,
      (s.isFin = true → s.seqno.toNat = (1 + (segs.foldl carried sent).length) % 2 ^ 32 ∧
        Over c' ∧ (k.resume = .appsend ∨ k.resume = .finack)) ∧
      (s.data ≠ [] → ∃ p, s.seqno.toNat = (1 + p) % 2 ^ 32 ∧
        p + s.data.length ≤ (segs.foldl carried sent).length) := by
  have hnet : NET_BUF_SIZE = 512 := rfl
  -- a bare segment at the end of the stream
  have hend : ∀ flags : UInt8, Aligned k.conn sent → k.conn.len = 0 →
      k.conn.sndNxt.toNat =
        (1 + ([(⟨k.conn.sndNxt, flags, []⟩ : Segment)].foldl carried sent).length) % 2 ^ 32 := by
    rintro flags ⟨p, hp, hseq⟩ hlen
    rw [foldl_carried_nil (by simp), hseq, ← hp, hlen, Nat.add_zero]
  intro s hs
  cases hans with
  | drop _ => simp at hs
  | ack _ =>
    obtain rfl := List.mem_singleton.mp hs
    exact ⟨fun hf => absurd hf (by simp [Segment.isFin]; decide), fun hd => absurd rfl hd⟩
  | finack hk =>
    obtain rfl := List.mem_singleton.mp hs
    exact ⟨fun _ => ⟨hend _ (hal (Or.inr hk)) (hfin hk), by simp [Over], Or.inr hk⟩,
      fun hd => absurd rfl hd⟩
  | close hk hpend =>
    obtain rfl := List.mem_singleton.mp hs
    exact ⟨fun _ => ⟨hend _ (hal (Or.inl hk)) (hclose hpend hk), by simp [Over], Or.inl hk⟩,
      fun hd => absurd rfl hd⟩
  | fresh hk _ _ _ hlen _ =>
    obtain rfl := List.mem_singleton.mp hs
    refine ⟨fun hf => absurd hf (by simp [Segment.isFin]; decide), fun _ => ?_⟩
    have hal' := hal (Or.inl hk)
    rw [List.foldl_cons, List.foldl_nil, hal'.carried_fresh hlen, List.length_append]
    obtain ⟨p, hp, hseq⟩ := hal'
    exact ⟨p, hseq, by dsimp only; omega⟩
  | again hk _ _ hlen hle =>
    obtain rfl := List.mem_singleton.mp hs
    refine ⟨fun hf => absurd hf (by simp [Segment.isFin]; decide), fun _ => ?_⟩
    have hal' := hal (Or.inl hk)
    rw [List.foldl_cons, List.foldl_nil, hal'.carried_again hlen (by omega)]
    obtain ⟨p, hp, hseq⟩ := hal'
    exact ⟨p, hseq, by rw [Mem.length_load]; omega⟩
  | idle _ _ _ =>
    unfold ackIf at hs
    split_ifs at hs
    · obtain rfl := List.mem_singleton.mp hs
      exact ⟨fun hf => absurd hf (by simp [Segment.isFin]; decide), fun hd => absurd rfl hd⟩
    · simp at hs

/-- Where uIP goes on to send, the connection of the call has its place in the
stream. -/
theorem Phase.aligned_call {h : Httpd} {conns : Slot → UipConn} {sent : List UInt8} {l : List Slot}
    {k : Call} (hp : Phase h conns sent l)
    (hstep : CallStep (conns k.slot) k.conn k.flags k.resume ∨ PollStep (conns k.slot) k)
    (hres : k.resume = .appsend ∨ k.resume = .finack) :
    l = [k.slot] ∧ (∀ j, j ≠ k.slot → Over (conns j)) ∧ Aligned k.conn sent ∧
      (k.resume = .finack → k.conn.len = 0) := by
  have hnet : NET_BUF_SIZE = 512 := rfl
  obtain ⟨slot, conn, flags, data, closing, resume⟩ := k
  rcases hstep with hstep | hpoll
  · cases hstep with
    | aborted _ => simp at hres
    | connected d hs _ hack =>
      obtain ⟨hl, hothers, ⟨-, hnxt, hlen, rfl⟩ | ⟨hest, -⟩⟩ :=
        hp.of_live (i := slot) fun hover => hover.1 hs
      · refine ⟨hl, hothers, ⟨0, by simpa using hack.2.2, ?_⟩, by simp⟩
        rw [hack.2.1, hnxt, hlen, toNat_uipAdd32 _ (by decide)]
        rfl
      · exact absurd (hs.symm.trans hest) (by decide)
    | established a d hs _ hside _ =>
      obtain ⟨hl, hothers, ⟨hsyn, -⟩ | ⟨-, hal, hbound, -⟩⟩ :=
        hp.of_live (i := slot) fun hover => hover.2 hs
      · exact absurd (hsyn.symm.trans hs) (by decide)
      · exact ⟨hl, hothers, hal.sendSide hside (by omega), by simp⟩
    | fin a d hs _ hside hzero =>
      obtain ⟨hl, hothers, ⟨hsyn, -⟩ | ⟨-, hal, hbound, -⟩⟩ :=
        hp.of_live (i := slot) fun hover => hover.2 hs
      · exact absurd (hsyn.symm.trans hs) (by decide)
      · exact ⟨hl, hothers, hal.sendSide hside (by omega), fun _ => hzero⟩
    | closed _ _ => simp at hres
    | finished _ _ => simp at hres
  · obtain ⟨hconn, hs, hzero, -, -⟩ := hpoll
    dsimp only at hconn hs hzero
    obtain ⟨hl, hothers, ⟨hsyn, -⟩ | ⟨-, hal, -⟩⟩ :=
      hp.of_live (i := slot) fun hover => hover.2 hs
    · exact absurd (hsyn.symm.trans hs) (by decide)
    · exact ⟨hl, hothers, hconn ▸ hal, fun _ => hconn ▸ hzero⟩

/-! ## The invariant -/

/-- What has been observed of closes, of `FIN`s and of data, when the stream is
`sent`. -/
structure Shutdown (ev : List Event) (conns : Slot → UipConn) (sent : List UInt8)
    (l : List Slot) : Prop where
  idle : ∀ c ∈ calls ev, c.closing = true → c.resume = .appsend → c.conn.len = 0
  /-- After a `FIN` the connection is over, so the stream has ended. -/
  fin : ∀ s ∈ emitted ev, s.2.isFin = true →
    s.2.seqno.toNat = (1 + sent.length) % 2 ^ 32 ∧ (∀ j, Over (conns j)) ∧ l ≠ []
  data : ∀ s ∈ emitted ev, s.2.data ≠ [] →
    ∃ p, s.2.seqno.toNat = (1 + p) % 2 ^ 32 ∧ p + s.2.data.length ≤ sent.length

section Effects

variable {h : Httpd} {conns conns' : Slot → UipConn} {call : Option Call} {evs ev : List Event}
  {w : Wire} {l : List Slot}

/-- The segments of one run of `uip_process`. -/
theorem segments_effect (hp : Phase h conns w.sent l) (heff : Effect h conns conns' call ev)
    (hfits : h.txLen ≤ NET_BUF_SIZE)
    (hcall : ∀ k ∈ call, k.closing = true → k.resume = .appsend → k.conn.len = 0) :
    ∀ s ∈ emitted ev,
      (s.2.isFin = true → s.2.seqno.toNat = (1 + (ev.foldl Wire.event w).sent.length) % 2 ^ 32 ∧
        (∀ j, Over (conns' j)) ∧ l ≠ []) ∧
      (s.2.data ≠ [] → ∃ p, s.2.seqno.toNat = (1 + p) % 2 ^ 32 ∧
        p + s.2.data.length ≤ (ev.foldl Wire.event w).sent.length) := by
  have hbare : ∀ s : Segment, s.flags = TCP_ACK ∨ s.flags = TCP_ACK ||| TCP_SYN → s.data = [] →
      ∀ {P Q : Prop}, (s.isFin = true → P) ∧ (s.data ≠ [] → Q) := by
    intro s hf hd P Q
    refine ⟨fun hfin => ?_, fun hne => absurd hd hne⟩
    rcases hf with hf | hf <;> simp [Segment.isFin, hf] at hfin <;> exact absurd hfin (by decide)
  intro s hs
  cases heff with
  | nothing => simp at hs
  | @quiet i c' segs _ hsegs =>
    rw [emitted_segs] at hs
    obtain ⟨t, ht, rfl⟩ := List.mem_map.mp hs
    exact hbare t (Or.inl (hsegs t ht).1) (hsegs t ht).2
  | @opened i c' t _ hf hd =>
    obtain rfl : s = (i, t) := by simpa [emitted] using hs
    exact hbare t (Or.inr hf) hd
  | @call k c' segs hstep hclosing hans =>
    have hem : emitted (Event.call k :: segs.map (Event.segment k.slot)) =
        segs.map fun t => (k.slot, t) := emitted_segs k.slot segs
    rw [hem] at hs
    obtain ⟨t, ht, rfl⟩ := List.mem_map.mp hs
    rw [foldl_call]
    have hal := fun hres => hp.aligned_call hstep hres
    have hplace : k.resume = .appsend ∨ k.resume = .finack → Aligned k.conn w.sent :=
      fun hres => (hal hres).2.2.1
    obtain ⟨hfin, hdata⟩ := answer_segments hans hplace
      (fun hc hres => hcall k rfl (hclosing.trans hc) hres)
      (fun hres => (hal (Or.inr hres)).2.2.2 hres) hfits t ht
    refine ⟨fun hf => ?_, hdata⟩
    obtain ⟨hseq, hover, hres⟩ := hfin hf
    obtain ⟨hl, hothers, -⟩ := hal hres
    refine ⟨hseq, fun j => ?_, by simp [hl]⟩
    by_cases hj : j = k.slot
    · rwa [hj, Function.update_self]
    · rw [Function.update_of_ne hj]
      exact hothers j hj

/-- **One run of `uip_process` keeps the invariant**, if nothing is in flight when a
close becomes a `FIN`. -/
theorem shutdown_effect (hsd : Shutdown evs conns w.sent l) (hp : Phase h conns w.sent l)
    (heff : Effect h conns conns' call ev) (hfits : h.txLen ≤ NET_BUF_SIZE)
    (hone : (l ++ openings ev).length ≤ 1)
    (hcall : ∀ k ∈ call, k.closing = true → k.resume = .appsend → k.conn.len = 0) :
    Shutdown (evs ++ ev) conns' (ev.foldl Wire.event w).sent (l ++ openings ev) := by
  have hnew := segments_effect hp heff hfits hcall
  have hgrow : w.sent.length ≤ (ev.foldl Wire.event w).sent.length :=
    (sent_prefix_foldl w ev).length_le
  refine ⟨?_, ?_, ?_⟩
  · intro c hc
    rw [calls_append, List.mem_append] at hc
    rcases hc with hc | hc
    · exact hsd.idle c hc
    · exact hcall c (heff.mem_call hc)
  · intro s hs hf
    rw [emitted_append, List.mem_append] at hs
    rcases hs with hs | hs
    · obtain ⟨hseq, hover, hl⟩ := hsd.fin s hs hf
      have hev : openings ev = [] := openings_eq_nil hone hl
      obtain ⟨hover', hsent, -⟩ := over_effect (w := w) heff hover hev
      exact ⟨by rw [hsent]; exact hseq, hover', by simp [hl]⟩
    · obtain ⟨hseq, hover, hl⟩ := (hnew s hs).1 hf
      exact ⟨hseq, hover, by simp [hl]⟩
  · intro s hs hd
    rw [emitted_append, List.mem_append] at hs
    rcases hs with hs | hs
    · obtain ⟨p, hseq, hle⟩ := hsd.data s hs hd
      exact ⟨p, hseq, hle.trans hgrow⟩
    · exact (hnew s hs).2 hd

end Effects

/-! ## Runs -/

/-- Only the calls and the segments matter. -/
theorem Shutdown.connEvents {evs ev : List Event} {conns : Slot → UipConn} {sent : List UInt8}
    {l : List Slot} (h : Shutdown (evs ++ connEvents ev) conns sent l) :
    Shutdown (evs ++ ev) conns sent l := by
  obtain ⟨h1, h2, h3⟩ := h
  rw [calls_append, calls_connEvents, ← calls_append] at h1
  rw [emitted_append, emitted_connEvents, ← emitted_append] at h2 h3
  exact ⟨h1, h2, h3⟩

section Steps

variable {n : Net} {w : Wire} {l : List Slot} {evs : List Event}

/-- In an unhurried frame nothing is in flight when a close becomes a `FIN`. -/
theorem idle_of_unhurried {i : Input} (hpoll : polling i.request = true) (hu : Unhurried n i) :
    ∀ k ∈ frameCall n i.rx, k.closing = true → k.resume = .appsend → k.conn.len = 0 := by
  intro k hk hclosing hres
  obtain ⟨v, -, hv⟩ := Option.bind_eq_some_iff.mp hk
  have hpend : n.httpd.closePending = true := (callIn_closing hv).symm.trans hclosing
  have hstep := callStep_of_frameCall hk
  have hguard := hu hpoll hpend k hk
  obtain ⟨slot, conn, flags, data, closing, resume⟩ := k
  cases hstep with
  | aborted _ => cases hres
  | connected _ _ _ hack => exact hack.2.2
  | established a d _ _ hside had =>
    cases a with
    | true => exact hside.2.2
    | false =>
      have hlen : (n.uip.conns slot).len = 0 := hguard (by simpa using had) rfl rfl
      exact (show conn.len = _ from hside.2).trans hlen
  | fin _ _ _ _ _ _ => cases hres
  | closed _ _ => cases hres
  | finished _ _ => cases hres

theorem shutdown_netPoll {i : Input} (hsd : Shutdown evs n.uip.conns w.sent l)
    (hp : Phase n.httpd n.uip.conns w.sent l) (hn : Coherent n)
    (hpoll : polling i.request = true) (hu : Unhurried n i)
    (hone : (l ++ openings (netPoll n i.rx).2).length ≤ 1) :
    Shutdown (evs ++ (netPoll n i.rx).2) (netPoll n i.rx).1.uip.conns
      ((netPoll n i.rx).2.foldl Wire.event w).sent (l ++ openings (netPoll n i.rx).2) := by
  rw [← foldl_connEvents]
  rw [← openings_connEvents] at hone ⊢
  exact (shutdown_effect hsd hp (hp.effect_netPoll hn i.rx) hn.fits hone
    (idle_of_unhurried hpoll hu)).connEvents

theorem shutdown_kick (hsd : Shutdown evs n.uip.conns w.sent l)
    (hp : Phase n.httpd n.uip.conns w.sent l) (hn : Coherent n)
    (hslen : Drained n) (hone : l.length ≤ 1) :
    Shutdown (evs ++ (kickActiveConnection n).2) (kickActiveConnection n).1.uip.conns
      ((kickActiveConnection n).2.foldl Wire.event w).sent l := by
  have hop : openings (connEvents (kickActiveConnection n).2) = [] := by
    rw [openings_connEvents, openings_kick]
  have hsd' := shutdown_effect hsd hp (effect_kick hn.fits hslen) hn.fits
    (by rwa [hop, List.append_nil]) fun k hk _ _ => (kickCall_flags hk).2.2
  rw [foldl_connEvents, hop, List.append_nil] at hsd'
  exact hsd'.connEvents

/-- **Every unhurried step keeps the invariant.** -/
theorem shutdown_step {n' : Net} {i : Input} {o : Outcome} (hn : Coherent n)
    (hp : Phase n.httpd n.uip.conns w.sent l) (hsd : Shutdown evs n.uip.conns w.sent l)
    (hu : Unhurried n i) (h : step n i = some (n', o))
    (hone : (l ++ openings o.events).length ≤ 1) :
    Shutdown (evs ++ o.events) n'.uip.conns (o.events.foldl Wire.event w).sent
      (l ++ openings o.events) := by
  have hserved := served_step h
  generalize o.events = ev at hserved hone ⊢
  generalize payloadOf o = pay at hserved
  generalize isAccept o = acc at hserved
  have hm := coherent_netPoll hn i.rx
  cases hserved with
  | card hev hsame =>
    refine Shutdown.connEvents ?_
    rw [← foldl_connEvents, ← openings_connEvents, hev, hsame.1]
    simpa using hsd
  | listened hsame =>
    rw [hsame.1]
    simpa [resetSocketState] using hsd
  | polled hpoll hsame =>
    rw [hsame.1]
    exact shutdown_netPoll hsd hp hn hpoll hu hone
  | accepted hpoll _ hsame =>
    rw [hsame.1]
    exact shutdown_netPoll hsd hp hn hpoll hu hone
  | @sent t pay ht hsame _ _ =>
    rw [openings_append, openings_kick, List.append_nil] at hone ⊢
    obtain ⟨hct, hslen⟩ := coherent_taken ht hm
    have hsdm := shutdown_netPoll hsd hp hn (taken_spec ht).1 hu hone
    rw [← (taken_frame ht).1] at hsdm
    rw [hsame.1, List.foldl_append, ← List.append_assoc]
    exact shutdown_kick hsdm (phase_taken ht hm (phase_netPoll hp hn i.rx hone)) hct hslen hone
  | closed hpoll hsame =>
    rw [openings_append, openings_kick, List.append_nil] at hone ⊢
    obtain ⟨hct, hslen⟩ := coherent_askClose hm
    have hsdm : Shutdown (evs ++ (netPoll n i.rx).2) (askClose (netPoll n i.rx).1).uip.conns
        ((netPoll n i.rx).2.foldl Wire.event w).sent (l ++ openings (netPoll n i.rx).2) :=
      shutdown_netPoll hsd hp hn hpoll hu hone
    rw [hsame.1, List.foldl_append, ← List.append_assoc]
    exact shutdown_kick hsdm (phase_askClose (phase_netPoll hp hn i.rx hone)) hct hslen hone

end Steps

theorem shutdown_run {is : List Input} {os : List Outcome} {n : Net}
    (hrun : Run step Unhurried Net.init is os n) (hone : (openings (history os)).length ≤ 1) :
    Shutdown (history os) n.uip.conns (wire os).sent (openings (history os)) := by
  induction hrun with
  | nil => exact ⟨by simp, by simp, by simp⟩
  | @snoc is os n n' i o hrun hu hs ih =>
    have hone' : (openings (history os)).length ≤ 1 := by
      rw [history_append, openings_append, List.length_append] at hone
      omega
    rw [history_append, openings_append] at hone ⊢
    rw [wire_append]
    exact shutdown_step (coherent_run hrun) (phase_run hrun hone') (ih hone') hu hs hone

/-- **The `FIN` follows the data.**  In every run with a single connection in which no
frame is hurried: when the bridge turns a close into a `FIN`, nothing is in flight; the
`FIN` has the number after the last byte ever sent; every data segment lies before it
in the stream, and so, unless the numbers wrap around, no byte has its number. -/
theorem fin_follows_data {is : List Input} {os : List Outcome} {n : Net}
    (hrun : Run step Unhurried Net.init is os n) (hone : (openings (history os)).length ≤ 1) :
    (∀ c ∈ calls (history os), c.closing = true → c.resume = .appsend → c.conn.len = 0) ∧
    (∀ f ∈ emitted (history os), f.2.isFin = true →
      f.2.seqno.toNat = (1 + (wire os).sent.length) % 2 ^ 32) ∧
    (∀ s ∈ emitted (history os), s.2.data ≠ [] →
      ∃ p, s.2.seqno.toNat = (1 + p) % 2 ^ 32 ∧ p + s.2.data.length ≤ (wire os).sent.length) ∧
    (∀ f ∈ emitted (history os), f.2.isFin = true → ∀ s ∈ emitted (history os),
      ∀ j, j < s.2.data.length → (wire os).sent.length < 2 ^ 32 →
        (s.2.seqno.toNat + j) % 2 ^ 32 ≠ f.2.seqno.toNat) := by
  obtain ⟨hidle, hfin, hdata⟩ := shutdown_run hrun hone
  refine ⟨hidle, fun f hf hisFin => (hfin f hf hisFin).1, hdata, ?_⟩
  intro f hf hisFin s hs j hj hwrap
  have hne : s.2.data ≠ [] := by
    rintro hnil
    simp [hnil] at hj
  obtain ⟨p, hseq, hle⟩ := hdata s hs hne
  rw [(hfin f hf hisFin).1, hseq, Nat.mod_add_mod]
  omega

/-! ## A close with data in flight -/

/-- Three bytes are sent to a client, and the socket is closed before they are
acknowledged. -/
def closedEarly : List Input :=
  listen80 :: connect 1000 100 ++
    [Request.alone (.sockSend 1 3 (payload [104, 105, 10])), Request.alone (.sockClose 1)]

/-- The client acknowledges the bytes. -/
def acksData : PeerSegment := { port := 1000, seqno := 101, ackno := 4, flags := TCP_ACK }

/-- The client sends a byte of its own and acknowledges nothing new. -/
def sendsData : PeerSegment :=
  { port := 1000, seqno := 101, ackno := 1, flags := TCP_ACK ||| TCP_PSH, data := [120] }

theorem fin_follows_data_acksData :
    ∃ os n f, Run step Unhurried Net.init
        (closedEarly ++ [Request.receiving .sockAccept acksData]) os n ∧
      (openings (history os)).length ≤ 1 ∧ f ∈ emitted (history os) ∧ f.2.isFin = true ∧
      (wire os).sent = [104, 105, 10] ∧
      f.2.seqno.toNat = (1 + (wire os).sent.length) % 2 ^ 32 := by
  have hexec : ((exec (guarded step Unhurried) Net.init
      (closedEarly ++ [Request.receiving .sockAccept acksData])).map fun r =>
      (decide ((openings (history r.2)).length ≤ 1),
        (emitted (history r.2)).any fun f => f.2.isFin, (wire r.2).sent)) =
      some (true, true, [104, 105, 10]) := by decide +kernel
  obtain ⟨⟨n, os⟩, hr, hval⟩ := Option.map_eq_some_iff.mp hexec
  simp only [Prod.mk.injEq, decide_eq_true_eq, List.any_eq_true] at hval
  obtain ⟨hone, ⟨f, hf, hisFin⟩, hsent⟩ := hval
  have hrun := run_of_exec_guarded hr
  exact ⟨os, n, f, hrun, hone, hf, hisFin, hsent, (fin_follows_data hrun hone).2.1 f hf hisFin⟩

/-- **The `FIN` takes the number of the first byte** when the client's data arrives
before its acknowledgement. -/
theorem fin_overtakes_data :
    ∃ os n, Run step Free Net.init
        (closedEarly ++ [Request.receiving .sockAccept sendsData]) os n ∧
      (openings (history os)).length ≤ 1 ∧
      (∃ c ∈ calls (history os), c.closing = true ∧ c.resume = .appsend ∧ c.conn.len = 3) ∧
      ∃ s ∈ emitted (history os), ∃ f ∈ emitted (history os),
        s.2.data = [104, 105, 10] ∧ f.2.isFin = true ∧ f.2.seqno = s.2.seqno := by
  have hexec : ((exec step Net.init
      (closedEarly ++ [Request.receiving .sockAccept sendsData])).map fun r =>
      (decide ((openings (history r.2)).length ≤ 1),
        (calls (history r.2)).any fun c => c.closing = true ∧ c.resume = .appsend ∧ c.conn.len = 3,
        (emitted (history r.2)).any fun s => (emitted (history r.2)).any fun f =>
          s.2.data = [104, 105, 10] ∧ f.2.isFin = true ∧ f.2.seqno = s.2.seqno)) =
      some (true, true, true) := by decide +kernel
  obtain ⟨⟨n, os⟩, hr, hval⟩ := Option.map_eq_some_iff.mp hexec
  simp only [Prod.mk.injEq, decide_eq_true_eq, List.any_eq_true] at hval
  obtain ⟨hone, hcall, hseg⟩ := hval
  exact ⟨os, n, run_of_exec hr, hone, hcall, hseg⟩

end Service
end EgosNet
