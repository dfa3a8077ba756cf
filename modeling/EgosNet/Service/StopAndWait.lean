import EgosNet.Service.Acceptance
import EgosNet.Service.SendStream

/-!
# Stop and wait

uIP keeps no copy of what it has sent.  When a segment has to be sent again, the application is
asked for the same bytes once more, and the bridge answers with what is in `httpd_socket_tx_buf`.
So a repetition is a repetition only as long as nobody has written to that buffer: it must not
change from the first time a segment goes out until the peer has acknowledged it, and the length
that uIP remembers must not change either, whatever windows the peer advertises in the meantime.

The flag that protects the buffer exists twice, in the bridge and in the sockets.  `sock_send` looks
at the copy in the sockets, and the acknowledgement clears the one in the bridge.  This file shows
that the two together are enough while one connection is in use and is neither closed nor listened
over (`Steady`).

* `inFlight`: the data segment that has been sent since the last acknowledgement, read off the
  events.
* `Stable`: along a list of events, every data segment repeats the one in flight, if there is one.
* `Turn`: what one run of `uip_process` does for a connection in use --- it says nothing new, notes
  an acknowledgement, or sends data.
* `Waits`: the invariant.  What is in flight is the beginning of the buffer, at the number uIP
  keeps.
* `stop_and_wait`: the three parts together, for every step of every run.
-/

namespace EgosNet
namespace Service

open Foundation Uip

/-! ## What is in flight -/

/-- The application is told that what was in flight has been acknowledged.  This is when `snd_nxt`
advances. -/
def advances : Event → Bool
  | .call c => c.flags.ackdata
  | _ => false

/-- The data segment sent since the last acknowledgement, after one more event. -/
def inFlight (f : Option Segment) : Event → Option Segment
  | .call c => if c.flags.ackdata then none else f
  | .segment _ s => if s.data = [] then f else some s
  | _ => f

/-- A data segment repeats the one in flight, if there is one. -/
def Repeats (f : Option Segment) : Event → Prop
  | .segment _ s => s.data ≠ [] → ∀ s' ∈ f, s = s'
  | _ => True

/-- The same, all along a list of events. -/
def Stable (f : Option Segment) : List Event → Prop
  | [] => True
  | e :: ev => Repeats f e ∧ Stable (inFlight f e) ev

theorem stable_append (f : Option Segment) (ev ev' : List Event) :
    Stable f (ev ++ ev') ↔ Stable f ev ∧ Stable (ev.foldl inFlight f) ev' := by
  induction ev generalizing f with
  | nil => simp [Stable]
  | cons e ev ih => simp [Stable, ih, and_assoc]

/-- As long as nothing is acknowledged, the segment in flight stays in flight. -/
theorem Stable.foldl_inFlight {s : Segment} {ev : List Event} (h : Stable (some s) ev)
    (hno : ∀ e ∈ ev, advances e = false) : ev.foldl inFlight (some s) = some s := by
  induction ev with
  | nil => rfl
  | cons e ev ih =>
    have hstay : inFlight (some s) e = some s := by
      cases e with
      | call c => simp [inFlight, show c.flags.ackdata = false from hno _ List.mem_cons_self]
      | segment i s' =>
        by_cases hs' : s'.data = []
        · simp [inFlight, hs']
        · have heq : s' = s := h.1 hs' s rfl
          simp [inFlight, heq]
      | opened i => rfl
      | polled i => rfl
      | netSend f => rfl
    rw [List.foldl_cons, hstay]
    exact ih (by simpa [hstay] using h.2) fun e he => hno e (List.mem_cons_of_mem _ he)

/-- **Two data segments with no acknowledgement between them are the same.** -/
theorem Stable.eq_of_between {f : Option Segment} {a a' : Slot} {s s' : Segment}
    {e₁ e₂ e₃ : List Event}
    (h : Stable f (e₁ ++ .segment a s :: (e₂ ++ .segment a' s' :: e₃)))
    (hs : s.data ≠ []) (hs' : s'.data ≠ []) (hno : ∀ e ∈ e₂, advances e = false) : s' = s := by
  obtain ⟨-, hrest⟩ := (stable_append f e₁ _).mp h
  have hfirst : inFlight (e₁.foldl inFlight f) (.segment a s) = some s := by simp [inFlight, hs]
  have hafter := hrest.2
  rw [hfirst, stable_append] at hafter
  obtain ⟨hbetween, hsecond⟩ := hafter
  rw [hbetween.foldl_inFlight hno] at hsecond
  exact hsecond.1 hs' s rfl

/-! ## Events that say nothing new -/

/-- The event carries no data. -/
def Dataless : Event → Prop
  | .segment _ s => s.data = []
  | _ => True

/-- Nor does it acknowledge any. -/
def Silent : Event → Prop
  | .segment _ s => s.data = []
  | .call c => c.flags.ackdata = false
  | _ => True

theorem Silent.dataless {e : Event} (h : Silent e) : Dataless e := by
  cases e with
  | segment i s => exact h
  | _ => trivial

theorem Silent.inFlight_eq {e : Event} (h : Silent e) (f : Option Segment) : inFlight f e = f := by
  cases e with
  | segment i s => simp [inFlight, show s.data = [] from h]
  | call c => simp [inFlight, show c.flags.ackdata = false from h]
  | _ => rfl

theorem Silent.event_eq {e : Event} (h : Silent e) (w : Wire) : w.event e = w := by
  cases e with
  | segment i s => rw [Wire.event_segment, carried_nil h]
  | call c => simp [Wire.event, show c.flags.ackdata = false from h]
  | _ => rfl

theorem Silent.advances_eq {e : Event} (h : Silent e) : advances e = false := by
  cases e with
  | call c => exact h
  | _ => rfl

theorem foldl_inFlight_silent {ev : List Event} (h : ∀ e ∈ ev, Silent e) (f : Option Segment) :
    ev.foldl inFlight f = f := by
  induction ev with
  | nil => rfl
  | cons e ev ih =>
    rw [List.foldl_cons, (h e List.mem_cons_self).inFlight_eq]
    exact ih fun e he => h e (List.mem_cons_of_mem _ he)

theorem foldl_event_silent {ev : List Event} (h : ∀ e ∈ ev, Silent e) (w : Wire) :
    ev.foldl Wire.event w = w := by
  induction ev with
  | nil => rfl
  | cons e ev ih =>
    rw [List.foldl_cons, (h e List.mem_cons_self).event_eq]
    exact ih fun e he => h e (List.mem_cons_of_mem _ he)

theorem stable_dataless {ev : List Event} (h : ∀ e ∈ ev, Dataless e) (f : Option Segment) :
    Stable f ev := by
  induction ev generalizing f with
  | nil => trivial
  | cons e ev ih =>
    refine ⟨?_, ih (fun e he => h e (List.mem_cons_of_mem _ he)) _⟩
    have he := h e List.mem_cons_self
    cases e with
    | segment i s => exact fun hs => absurd he hs
    | _ => trivial

/-- Every data segment is the beginning of the payload `p`. -/
def Latest (p : Option (List UInt8)) (ev : List Event) : Prop :=
  ∀ x ∈ emitted ev, x.2.data ≠ [] → ∃ q, p = some q ∧ x.2.data <+: q

theorem latest_dataless {ev : List Event} (h : ∀ e ∈ ev, Dataless e) (p : Option (List UInt8)) :
    Latest p ev := by
  intro x hx hdata
  obtain ⟨e, he, hmatch⟩ := List.mem_filterMap.mp hx
  have hless := h e he
  cases e with
  | segment i s =>
    obtain rfl : (i, s) = x := by simpa using hmatch
    exact absurd hless hdata
  | _ => simp at hmatch

/-- The data segments among the events `ev` that leave the bridge as `h'`. -/
structure Sends (h' : Httpd) (f : Option Segment) (p : Option (List UInt8)) (ev : List Event) :
    Prop where
  stable : Stable f ev
  latest : Latest p ev
  idle : h'.txPending = false → ∀ e ∈ ev, Dataless e

theorem sends_dataless {ev : List Event} (h : ∀ e ∈ ev, Dataless e) (h' : Httpd)
    (f : Option Segment) (p : Option (List UInt8)) : Sends h' f p ev :=
  ⟨stable_dataless h f, latest_dataless h p, fun _ => h⟩

/-- Only the events of the connections matter. -/
theorem foldl_inFlight_connEvents (ev : List Event) (f : Option Segment) :
    (connEvents ev).foldl inFlight f = ev.foldl inFlight f := by
  induction ev generalizing f with
  | nil => rfl
  | cons e ev ih =>
    cases e with
    | polled i => exact ih f
    | netSend g => exact ih f
    | opened i => exact ih f
    | call c => exact ih (inFlight f (.call c))
    | segment i s => exact ih (inFlight f (.segment i s))

theorem stable_connEvents (ev : List Event) (f : Option Segment) :
    Stable f (connEvents ev) ↔ Stable f ev := by
  induction ev generalizing f with
  | nil => exact Iff.rfl
  | cons e ev ih =>
    cases e with
    | polled i => exact (ih f).trans ⟨fun h => ⟨trivial, h⟩, And.right⟩
    | netSend g => exact (ih f).trans ⟨fun h => ⟨trivial, h⟩, And.right⟩
    | opened i => exact and_congr_right fun _ => ih f
    | call c => exact and_congr_right fun _ => ih _
    | segment i s => exact and_congr_right fun _ => ih _

/-! ## The connection in use -/

/-- What one run of `uip_process` does for a connection that is in use before and after it: how it
changes, what becomes of the bridge, and what happens. -/
inductive Turn (h : Httpd) (c c' : UipConn) (h' : Httpd) : List Event → Prop
  | silent {ev : List Event} : Kept c c' → SameTx h h' → h'.connOpen = h.connOpen →
      (∀ e ∈ ev, Silent e) → Turn h c c' h' ev
  | acked {k : Call} {ev : List Event} : k.flags.ackdata = true → Acked c c' →
      h'.txPending = false → h'.connOpen = h.connOpen → (∀ e ∈ ev, Silent e) →
      Turn h c c' h' (.call k :: ev)
  /-- If something is in flight it is sent again, in the same length. -/
  | data {k : Call} {i : Slot} : k.flags.ackdata = false → c'.sndNxt = c.sndNxt → c'.len ≠ 0 →
      (c.len ≠ 0 → c'.len = c.len) → c'.len ≤ h.txLen → h.txPending = true → SameTx h h' →
      h'.connOpen = h.connOpen →
      Turn h c c' h'
        [.call k, .segment i ⟨c.sndNxt, TCP_ACK ||| TCP_PSH, h.txBuf.load 0 c'.len⟩]

/-- The state of a connection in use: `f` is in flight, `w` is the stream, `p` the latest payload.
-/
structure Waits (h : Httpd) (c : UipConn) (f : Option Segment) (w : Wire)
    (p : Option (List UInt8)) : Prop where
  connOpen : h.connOpen = true
  clear : c.len = 0 → f = none ∧ w.acked = w.sent
  flight : c.len ≠ 0 → h.txPending = true ∧
    f = some ⟨c.sndNxt, TCP_ACK ||| TCP_PSH, h.txBuf.load 0 c.len⟩
  latest : h.txPending = true → p = some (h.txBuf.load 0 h.txLen)

section Turns

variable {h h' : Httpd} {c c' : UipConn} {f : Option Segment} {w : Wire} {p : Option (List UInt8)}
  {ev : List Event}

theorem Waits.kept (hw : Waits h c f w p) (hk : Kept c c') (hsame : SameTx h h')
    (hopen : h'.connOpen = h.connOpen) : Waits h' c' f w p where
  connOpen := hopen.trans hw.connOpen
  clear hlen := hw.clear (hk.2.symm.trans hlen)
  flight hlen := by
    rw [hk.2] at hlen
    rw [hsame.txPending, hsame.txBuf, hk.1, hk.2]
    exact hw.flight hlen
  latest htx := by
    rw [hsame.txPending] at htx
    rw [hsame.txBuf, hsame.txLen]
    exact hw.latest htx

/-- **A turn keeps the invariant**: what it sends repeats what is in flight, and is the beginning of
the latest payload. -/
theorem Turn.waits (ht : Turn h c c' h' ev) (hw : Waits h c f w p) :
    Waits h' c' (ev.foldl inFlight f) (ev.foldl Wire.event w) p ∧ Sends h' f p ev := by
  cases ht with
  | silent hk hsame hopen hev =>
    have hless : ∀ e ∈ ev, Dataless e := fun e he => (hev e he).dataless
    rw [foldl_inFlight_silent hev, foldl_event_silent hev]
    exact ⟨hw.kept hk hsame hopen, sends_dataless hless h' f p⟩
  | @acked k ev hack hacked htx hopen hev =>
    have hless : ∀ e ∈ Event.call k :: ev, Dataless e := by
      intro e he
      rcases List.mem_cons.mp he with rfl | he
      · trivial
      · exact (hev e he).dataless
    refine ⟨⟨hopen.trans hw.connOpen, fun _ => ?_, fun hlen => absurd hacked.2.2 hlen,
      fun htx' => by simp [htx] at htx'⟩, sends_dataless hless h' f p⟩
    rw [List.foldl_cons, List.foldl_cons, foldl_inFlight_silent hev, foldl_event_silent hev]
    simp [inFlight, Wire.event, hack]
  | @data k i hack hnxt hlen hagain hle htx hsame hopen =>
    have hdata : (h.txBuf.load 0 c'.len) ≠ [] := by
      intro hnil
      exact hlen (by simpa using congrArg List.length hnil)
    have hf : inFlight f (.call k) = f := by simp [inFlight, hack]
    have htx' : h'.txPending = true := hsame.txPending.trans htx
    refine ⟨⟨hopen.trans hw.connOpen, fun hzero => absurd hzero hlen, fun _ => ?_, fun _ => ?_⟩,
      ⟨trivial, ?_, trivial⟩, ?_, fun hidle => ?_⟩
    · rw [List.foldl_cons, List.foldl_cons, List.foldl_nil, hf]
      refine ⟨htx', ?_⟩
      simp [inFlight, hdata, hsame.txBuf, hnxt]
    · rw [hsame.txBuf, hsame.txLen]
      exact hw.latest htx
    · -- either nothing is in flight, or it is the same bytes at the same number
      rw [hf]
      intro _ s' hs'
      by_cases hzero : c.len = 0
      · rw [(hw.clear hzero).1] at hs'
        exact absurd hs' (by simp)
      · rw [(hw.flight hzero).2] at hs'
        obtain rfl := Option.some.inj hs'
        rw [hagain hzero]
    · intro x hx _
      obtain rfl : x = (i, _) := by simpa [emitted] using hx
      refine ⟨_, hw.latest htx, ?_⟩
      rw [← Mem.load_take h.txBuf 0 hle]
      exact List.take_prefix _ _
    · simp [htx'] at hidle

end Turns

/-! ## The turns of `uip_process` -/

theorem silent_segs (i : Slot) {segs : List Segment} (h : ∀ s ∈ segs, s.data = []) :
    ∀ e ∈ segs.map (Event.segment i), Silent e := by
  intro e he
  obtain ⟨s, hs, rfl⟩ := List.mem_map.mp he
  exact h s hs

section Effects

variable {h : Httpd} {conns conns' : Slot → UipConn} {ev : List Event} {k : Call} {c c' : UipConn}
  {segs : List Segment}

/-- Without a call, nothing is said, no connection comes into use, and a handshake is begun only
when a connection is opened. -/
theorem silent_effect (heff : Effect h conns conns' none ev) :
    (∀ e ∈ ev, Silent e) ∧
      (∀ a, (conns' a).tcpstateflags = .established →
        (conns a).tcpstateflags = .established ∧ Kept (conns a) (conns' a)) ∧
      (openings ev = [] → ∀ a, (conns' a).tcpstateflags = .synRcvd →
        (conns a).tcpstateflags = .synRcvd) := by
  generalize hcall : (none : Option Call) = call at heff
  cases heff with
  | nothing => exact ⟨by simp, fun a ha => ⟨ha, rfl, rfl⟩, fun _ a ha => ha⟩
  | @quiet i c' segs hq hsegs =>
    refine ⟨silent_segs i fun s hs => (hsegs s hs).2, fun a ha => ?_, fun _ a ha => ?_⟩
    · by_cases hai : a = i
      · subst hai
        rw [Function.update_self] at ha ⊢
        have hest := hq.established.mp ha
        exact ⟨hest, hq.kept (Or.inr hest)⟩
      · rw [Function.update_of_ne hai] at ha ⊢
        exact ⟨ha, rfl, rfl⟩
    · by_cases hai : a = i
      · subst hai
        rw [Function.update_self] at ha
        exact hq.synRcvd.mp ha
      · rwa [Function.update_of_ne hai] at ha
  | @opened i c' s hstep _ hdata =>
    refine ⟨fun e he => ?_, fun a ha => ?_, fun hopen => by simp [openings] at hopen⟩
    · rcases List.mem_pair.mp he with rfl | rfl
      · trivial
      · exact hdata
    · by_cases hai : a = i
      · rw [hai, Function.update_self, hstep.synRcvd] at ha
        exact absurd ha (by simp)
      · rw [Function.update_of_ne hai] at ha ⊢
        exact ⟨ha, rfl, rfl⟩
  | call _ _ _ => cases hcall

theorem silent_call (hack : k.flags.ackdata = false) (hsegs : ∀ s ∈ segs, s.data = []) (i : Slot) :
    ∀ e ∈ Event.call k :: segs.map (Event.segment i), Silent e := by
  intro e he
  rcases List.mem_cons.mp he with rfl | he
  · exact hack
  · exact silent_segs i hsegs e he

/-- The turn of a call without an acknowledgement. -/
theorem turn_kept (hk : Kept c k.conn) (hflags : k.flags.ackdata = false)
    (hends : ends k.flags = false) (hcon : k.flags.connected = false) (hres : k.resume = .appsend)
    (hclose : h.closePending = false) (hans : Answer h k c' segs) (i : Slot) :
    Turn h c c' (note k.flags k.data h) (.call k :: segs.map (.segment i)) := by
  have hsame : SameTx h (note k.flags k.data h) := sameTx_note hflags (Or.inl hcon)
  have hopen : (note k.flags k.data h).connOpen = h.connOpen := by simp [note, hends, hcon]
  have htx : offers k.flags h = true → h.txPending = true := by
    intro hoff
    simp only [offers, decide_eq_true_eq] at hoff
    exact hoff.2.1
  cases hans with
  | drop hr => simp [hres] at hr
  | ack hr => simp [hres] at hr
  | finack hr => simp [hres] at hr
  | close _ hc => simp [hclose] at hc
  | fresh _ _ hoff hpos hlen hmss =>
    rw [List.map_cons, List.map_nil, hk.1]
    exact .data hflags hk.1 (Nat.pos_iff_ne_zero.mp (lt_min hpos hmss))
      (fun hne => absurd (hk.2.symm.trans hlen) hne) (Nat.min_le_left _ _) (htx hoff) hsame hopen
  | again _ _ hoff hlen hle =>
    rw [List.map_cons, List.map_nil, hk.1]
    exact .data hflags hk.1 hlen (fun _ => hk.2) hle (htx hoff) hsame hopen
  | idle _ _ _ => exact .silent hk hsame hopen (silent_call hflags (ackIf_data _ _) i)

/-- The turn of an acknowledgement. -/
theorem turn_acked (hacked : Acked c k.conn) (hflags : k.flags.ackdata = true)
    (hends : ends k.flags = false) (hcon : k.flags.connected = false) (hres : k.resume = .appsend)
    (hclose : h.closePending = false) (hans : Answer h k c' segs) (i : Slot) :
    Turn h c c' (note k.flags k.data h) (.call k :: segs.map (.segment i)) := by
  have hopen : (note k.flags k.data h).connOpen = h.connOpen := by simp [note, hends, hcon]
  have hoff : offers k.flags h = false := by simp [offers, hflags]
  cases hans with
  | drop hr => simp [hres] at hr
  | ack hr => simp [hres] at hr
  | finack hr => simp [hres] at hr
  | close _ hc => simp [hclose] at hc
  | fresh _ _ hoff' _ _ _ => simp [hoff] at hoff'
  | again _ _ hoff' _ _ => simp [hoff] at hoff'
  | idle _ _ _ =>
    exact .acked hflags hacked (by simp [note, hflags]) hopen (silent_segs i (ackIf_data _ _))

/-- **The turn of the connection in use**, if the call is for it. -/
theorem turn_call (hest : c.tcpstateflags = .established) (hest' : c'.tcpstateflags = .established)
    (hclose : h.closePending = false)
    (hstep : CallStep c k.conn k.flags k.resume ∨ PollStep c k) (hans : Answer h k c' segs)
    (i : Slot) : Turn h c c' (note k.flags k.data h) (.call k :: segs.map (.segment i)) := by
  have hended (hres : k.resume ≠ .appsend) (hconn : k.resume ≠ .finack → Over k.conn) : False := by
    obtain ⟨-, hover⟩ : segs.foldl carried [] = [] ∧ Over c' := move_ended hans hres hconn
    exact hover.2 hest'
  obtain ⟨slot, conn, flags, data, closing, resume⟩ := k
  rcases hstep with hstep | hpoll
  · cases hstep with
    | aborted hc =>
      have hconn : Over conn := by simp [Over, show conn.tcpstateflags = _ from hc]
      exact (hended (by simp) fun _ => hconn).elim
    | connected _ hs _ _ => exact absurd (hs.symm.trans hest) (by simp)
    | established a d _ _ hside _ =>
      cases a with
      | true => exact turn_acked hside rfl rfl rfl rfl hclose hans i
      | false => exact turn_kept hside rfl rfl rfl rfl hclose hans i
    | fin _ _ _ _ _ _ => exact (hended (by simp) (by simp)).elim
    | closed hs _ => exact absurd (hs.symm.trans hest) (by simp)
    | finished hs _ => rcases hs with hs | hs <;> exact absurd (hs.symm.trans hest) (by simp)
  · obtain ⟨rfl, -, -, rfl, rfl⟩ := hpoll
    exact turn_kept ⟨rfl, rfl⟩ rfl rfl rfl rfl hclose hans i

/-- The same, for any run of `uip_process` that calls the application for no other connection. -/
theorem turn_effect {call : Option Call} {a : Slot} (heff : Effect h conns conns' call ev)
    (hmine : ∀ k ∈ call, k.slot = a) (hclose : h.closePending = false)
    (hest : (conns a).tcpstateflags = .established)
    (hest' : (conns' a).tcpstateflags = .established) :
    Turn h (conns a) (conns' a) (noted h call) ev := by
  cases call with
  | none =>
    obtain ⟨hev, hkept, -⟩ := silent_effect heff
    exact .silent (hkept a hest').2 (SameTx.refl h) rfl hev
  | some k =>
    obtain rfl := hmine k rfl
    generalize hcall : some k = call at heff
    cases heff with
    | nothing => cases hcall
    | quiet _ _ => cases hcall
    | opened _ _ _ => cases hcall
    | call hstep _ hans =>
      obtain rfl := Option.some.inj hcall
      rw [Function.update_self] at hest' ⊢
      exact turn_call hest hest' hclose hstep hans k.slot

/-- **`snd_nxt` moves exactly when the application is told so.** -/
theorem Turn.advances_iff {h' : Httpd} (ht : Turn h c c' h' ev) (hlen : c.len < 65536) :
    c'.sndNxt ≠ c.sndNxt ↔ ∃ e ∈ ev, advances e = true := by
  cases ht with
  | silent hk _ _ hev =>
    refine ⟨fun hne => absurd hk.1 hne, fun ⟨e, he, hadv⟩ => ?_⟩
    simp [(hev e he).advances_eq] at hadv
  | @acked k _ hack hacked _ _ _ =>
    refine ⟨fun _ => ⟨.call k, List.mem_cons_self, hack⟩, fun _ heq => ?_⟩
    -- less than a whole turn of the counter is in flight
    have hnat := congrArg Word32.toNat (hacked.2.1.symm.trans heq)
    rw [toNat_uipAdd32 _ hlen] at hnat
    have hlt := Word32.toNat_lt c.sndNxt
    have hne := hacked.1
    omega
  | @data k i hack hnxt _ _ _ _ _ _ =>
    refine ⟨fun hne => absurd hnxt hne, fun ⟨e, he, hadv⟩ => ?_⟩
    rcases List.mem_pair.mp he with rfl | rfl
    · simp [advances, hack] at hadv
    · simp [advances] at hadv

/-- A call after which the connection is not in use sends no data, if nothing is pending before it
is. -/
theorem dataless_call (hsyn : c.tcpstateflags = .synRcvd → h.txPending = false)
    (hest : c.tcpstateflags = .established → c'.tcpstateflags ≠ .established)
    (hstep : CallStep c k.conn k.flags k.resume ∨ PollStep c k) (hans : Answer h k c' segs)
    (i : Slot) : ∀ e ∈ Event.call k :: segs.map (Event.segment i), Dataless e := by
  have hsegs : ∀ s ∈ segs, s.data = [] := by
    have hnot : offers k.flags h = true → k.resume = .appsend →
        c'.tcpstateflags ≠ k.conn.tcpstateflags := by
      intro hoff hres hsame
      simp only [offers, decide_eq_true_eq] at hoff
      obtain ⟨slot, conn, flags, data, closing, resume⟩ := k
      rcases hstep with hstep | hpoll
      · cases hstep with
        | connected _ hs _ _ => exact absurd (hsyn hs) (by simp [hoff.2.1])
        | established _ _ hs hs' _ _ => exact hest hs (hsame.trans hs')
        | _ => cases hres
      · have hconn := (congrArg _ hpoll.conn).trans hpoll.established
        exact hest hpoll.established (hsame.trans hconn)
    cases hans with
    | fresh hr _ hoff _ _ _ => exact absurd rfl (hnot hoff hr)
    | again hr _ hoff _ _ => exact absurd rfl (hnot hoff hr)
    | idle _ _ _ => exact ackIf_data _ _
    | _ => simp
  intro e he
  rcases List.mem_cons.mp he with rfl | he
  · trivial
  · exact (silent_segs i hsegs e he).dataless

/-- The call that reports the handshake: nothing is in flight and nothing is pending. -/
theorem waits_connected {f : Option Segment} {w : Wire} (p : Option (List UInt8))
    (hs : c.tcpstateflags = .synRcvd) (hest' : c'.tcpstateflags = .established)
    (htx : h.txPending = false) (hclose : h.closePending = false)
    (hclear : f = none ∧ w.acked = w.sent)
    (hstep : CallStep c k.conn k.flags k.resume ∨ PollStep c k) (hans : Answer h k c' segs) :
    Waits (note k.flags k.data h) c' f w p ∧ k.flags.ackdata = false ∧
      ∀ s ∈ segs, s.data = [] := by
  obtain ⟨slot, conn, flags, data, closing, resume⟩ := k
  have hoff : offers flags h = false := by simp [offers, htx]
  rcases hstep with hstep | hpoll
  · cases hstep with
    | aborted hc =>
      cases hans with
      | drop _ => exact absurd (hc.symm.trans hest') (by simp)
      | _ => simp_all
    | connected d _ _ hacked =>
      cases hans with
      | close _ hc => simp [hclose] at hc
      | fresh _ _ hoff' _ _ _ => simp [hoff] at hoff'
      | again _ _ hoff' _ _ => simp [hoff] at hoff'
      | idle _ _ _ =>
        refine ⟨⟨by simp [note, ends], fun _ => hclear, fun hlen => absurd hacked.2.2 hlen,
          fun htx' => ?_⟩, rfl, ackIf_data _ _⟩
        simp [note, htx] at htx'
      | _ => simp_all
    | established _ _ hs' _ _ _ => exact absurd (hs.symm.trans hs') (by simp)
    | fin _ _ hs' _ _ _ => exact absurd (hs.symm.trans hs') (by simp)
    | closed hs' _ => exact absurd (hs.symm.trans hs') (by simp)
    | finished hs' _ => rcases hs' with hs' | hs' <;> exact absurd (hs.symm.trans hs') (by simp)
  · exact absurd (hs.symm.trans hpoll.established) (by simp)

end Effects

/-! ## The life of the connection -/

/-- The invariant, whatever the connection is doing; the list holds its slot. -/
structure Waiting (h : Httpd) (conns : Slot → UipConn) (f : Option Segment) (w : Wire)
    (p : Option (List UInt8)) (l : List Slot) : Prop where
  closePending : h.closePending = false
  untouched : (l = [] ∨ ∃ a, (conns a).tcpstateflags = .synRcvd) → f = none ∧ w.acked = w.sent
  inUse : ∀ a, (conns a).tcpstateflags = .established → Waits h (conns a) f w p

/-- The others are over. -/
theorem Phase.others {h : Httpd} {conns : Slot → UipConn} {sent : List UInt8} {a j : Slot}
    (hp : Phase h conns sent [a]) (hj : j ≠ a) : Over (conns j) := by
  cases hp with
  | handshake hothers _ _ _ _ _ _ => exact hothers j hj
  | inUse hothers _ _ _ _ _ => exact hothers j hj
  | ended hover => exact hover j

theorem Phase.txPending_of_synRcvd {h : Httpd} {conns : Slot → UipConn} {sent : List UInt8}
    {l : List Slot} {a : Slot} (hp : Phase h conns sent l)
    (hs : (conns a).tcpstateflags = .synRcvd) : h.txPending = false := by
  cases hp with
  | unopened _ _ htx _ => exact htx
  | handshake _ _ _ _ _ htx _ => exact htx
  | @inUse b hothers hest _ _ _ _ =>
    by_cases hab : a = b
    · rw [hab, hest] at hs
      exact absurd hs (by simp)
    · exact absurd hs (hothers a hab).1
  | ended hover => exact absurd hs (hover a).1

section Life

variable {h : Httpd} {conns conns' : Slot → UipConn} {ev : List Event} {f : Option Segment}
  {w : Wire} {p : Option (List UInt8)} {l : List Slot}

/-- A run of `uip_process` that does not call the application. -/
theorem waiting_silent (hw : Waiting h conns f w p l) (heff : Effect h conns conns' none ev)
    (hone : (l ++ openings ev).length ≤ 1) :
    Waiting h conns' (ev.foldl inFlight f) (ev.foldl Wire.event w) p (l ++ openings ev) ∧
      Sends h f p ev := by
  obtain ⟨hev, hest, hsyn⟩ := silent_effect heff
  have hless : ∀ e ∈ ev, Dataless e := fun e he => (hev e he).dataless
  rw [foldl_inFlight_silent hev, foldl_event_silent hev]
  refine ⟨⟨hw.closePending, fun hun => hw.untouched ?_, fun a ha => ?_⟩,
    sends_dataless hless h f p⟩
  · by_cases hl : l = []
    · exact Or.inl hl
    · rcases hun with hnil | ⟨a, ha⟩
      · exact Or.inl (List.append_eq_nil_iff.mp hnil).1
      · exact Or.inr ⟨a, hsyn (openings_eq_nil hone hl) a ha⟩
  · obtain ⟨hold, hkept⟩ := hest a ha
    exact (hw.inUse a hold).kept hkept (SameTx.refl h) rfl

/-- A run of `uip_process` that calls the application for the one connection. -/
theorem waiting_call {k : Call} {c' : UipConn} {segs : List Segment}
    (hw : Waiting h conns f w p [k.slot]) (hp : Phase h conns w.sent [k.slot])
    (hstep : CallStep (conns k.slot) k.conn k.flags k.resume ∨ PollStep (conns k.slot) k)
    (hans : Answer h k c' segs) :
    Waiting (note k.flags k.data h) (Function.update conns k.slot c')
      ((Event.call k :: segs.map (Event.segment k.slot)).foldl inFlight f)
      ((Event.call k :: segs.map (Event.segment k.slot)).foldl Wire.event w) p [k.slot] ∧
    Sends (note k.flags k.data h) f p (.call k :: segs.map (.segment k.slot)) := by
  have hwaiting {f' : Option Segment} {w' : Wire}
      (hc' : c'.tcpstateflags = .established → Waits (note k.flags k.data h) c' f' w' p) :
      Waiting (note k.flags k.data h) (Function.update conns k.slot c') f' w' p [k.slot] := by
    refine ⟨rfl, fun hun => ?_, fun a ha => ?_⟩
    · rcases hun with hnil | ⟨a, ha⟩
      · exact absurd hnil (by simp)
      · by_cases hak : a = k.slot
        · rw [hak, Function.update_self] at ha
          exact absurd ha (answer_not_synRcvd hstep hans)
        · rw [Function.update_of_ne hak] at ha
          exact absurd ha (hp.others hak).1
    · by_cases hak : a = k.slot
      · rw [hak, Function.update_self] at ha ⊢
        exact hc' ha
      · rw [Function.update_of_ne hak] at ha
        exact absurd ha (hp.others hak).2
  by_cases hest' : c'.tcpstateflags = .established
  · by_cases hs : (conns k.slot).tcpstateflags = .synRcvd
    · obtain ⟨hwaits, hack, hsegs⟩ := waits_connected p hs hest' (hp.txPending_of_synRcvd hs)
        hw.closePending (hw.untouched (Or.inr ⟨_, hs⟩)) hstep hans
      have hev := silent_call hack hsegs k.slot
      have hless := fun e he => (hev e he).dataless
      rw [foldl_inFlight_silent hev, foldl_event_silent hev]
      exact ⟨hwaiting fun _ => hwaits, sends_dataless hless _ f p⟩
    · have hest : (conns k.slot).tcpstateflags = .established := by
        by_contra hne
        exact (over_answer ⟨hs, hne⟩ hstep hans).1.2 hest'
      obtain ⟨hwaits, hsends⟩ :=
        (turn_call hest hest' hw.closePending hstep hans k.slot).waits (hw.inUse _ hest)
      exact ⟨hwaiting fun _ => hwaits, hsends⟩
  · have hless := dataless_call (fun hs => hp.txPending_of_synRcvd hs) (fun _ => hest') hstep hans
      k.slot
    exact ⟨hwaiting fun ha => absurd ha hest', sends_dataless hless _ f p⟩

/-- **One run of `uip_process` keeps the invariant**, if it calls the application for no connection
but the one that was opened. -/
theorem waiting_effect {call : Option Call} (hw : Waiting h conns f w p l)
    (hp : Phase h conns w.sent l) (heff : Effect h conns conns' call ev)
    (hone : (l ++ openings ev).length ≤ 1) (hmine : ∀ k ∈ call, k.slot ∈ l) :
    Waiting (noted h call) conns' (ev.foldl inFlight f) (ev.foldl Wire.event w) p
      (l ++ openings ev) ∧ Sends (noted h call) f p ev := by
  cases call with
  | none => exact waiting_silent hw heff hone
  | some k =>
    obtain rfl : l = [k.slot] := by
      have hmem := hmine k rfl
      obtain ⟨a, rfl⟩ : ∃ a, l = [a] := List.length_eq_one_iff.mp <| by
        have hpos := List.length_pos_of_mem hmem
        rw [List.length_append] at hone
        omega
      rw [List.mem_singleton.mp hmem]
    generalize hcall : some k = call at heff
    cases heff with
    | nothing => cases hcall
    | quiet _ _ => cases hcall
    | opened _ _ _ => cases hcall
    | @call k' c' segs hstep _ hans =>
      obtain rfl := Option.some.inj hcall
      have hnone : openings (Event.call k :: segs.map (Event.segment k.slot)) = [] :=
        openings_segs k.slot segs
      rw [hnone, List.append_nil]
      exact waiting_call hw hp hstep hans

end Life

/-! ## Requests -/

/-- The payload of a `sock_send` fits into a segment and is not empty. -/
def oneSegment : Request → Bool
  | .sockSend _ length _ => 1 ≤ length ∧ length ≤ UIP_TCP_MSS
  | _ => true

/-- There is no `sock_close`, no `sock_listen` while a connection is in use, and every `sock_send`
is of one segment. -/
def Steady (n : Net) (i : Input) : Prop :=
  asksClose i.request = none ∧ (asksListen i.request = true → ∀ a, ¬ Established n a) ∧
    oneSegment i.request = true

instance (n : Net) (i : Input) : Decidable (Steady n i) := inferInstanceAs (Decidable (_ ∧ _ ∧ _))

/-- The state of the service after the outputs `os`. -/
structure Held (os : List Outcome) (n : Net) : Prop where
  waiting : Waiting n.httpd n.uip.conns ((history os).foldl inFlight none) (wire os)
    (payloads os).getLast? (openings (history os))
  synced : n.sock.connOpen = n.httpd.connOpen
  unopened : ∀ a, a ∉ openings (history os) → (n.uip.conns a).tcpstateflags = .closed

section Steps

variable {n : Net} {f : Option Segment} {w : Wire} {p : Option (List UInt8)} {l : List Slot}

theorem Sends.of_connEvents {h : Httpd} {ev : List Event} (hs : Sends h f p (connEvents ev))
    (r : ℕ) :
    Sends { h with rxLen := r } f p ev := by
  obtain ⟨hstable, hlatest, hidle⟩ := hs
  refine ⟨(stable_connEvents ev f).mp hstable, ?_, fun htx e he => ?_⟩
  · rwa [Latest, emitted_connEvents] at hlatest
  · by_cases hconn : e.ofConn = true
    · exact hidle htx e (List.mem_filter.mpr ⟨he, hconn⟩)
    · cases e with
      | segment i s => exact absurd rfl hconn
      | _ => trivial

/-- The data that has arrived plays no role. -/
theorem Waiting.rxLen {h : Httpd} {conns : Slot → UipConn} (hw : Waiting h conns f w p l) (r : ℕ) :
    Waiting { h with rxLen := r } conns f w p l :=
  ⟨hw.closePending, hw.untouched, fun a ha =>
    ⟨(hw.inUse a ha).connOpen, (hw.inUse a ha).clear, (hw.inUse a ha).flight,
      (hw.inUse a ha).latest⟩⟩

theorem waiting_netPoll (rx : Rx) (hw : Waiting n.httpd n.uip.conns f w p l)
    (hp : Phase n.httpd n.uip.conns w.sent l) (hn : Coherent n)
    (hclosed : ∀ a, a ∉ l → (n.uip.conns a).tcpstateflags = .closed)
    (hone : (l ++ openings (netPoll n rx).2).length ≤ 1) :
    Waiting (netPoll n rx).1.httpd (netPoll n rx).1.uip.conns
      ((netPoll n rx).2.foldl inFlight f) ((netPoll n rx).2.foldl Wire.event w) p
      (l ++ openings (netPoll n rx).2) ∧
    Sends (netPoll n rx).1.httpd f p (netPoll n rx).2 := by
  have hmine : ∀ k ∈ frameCall n rx, k.slot ∈ l := by
    intro k hk
    by_contra hout
    exact frameCall_active hk (hclosed _ hout)
  rw [← openings_connEvents] at hone ⊢
  obtain ⟨hwait, hsends⟩ := waiting_effect hw hp (hp.effect_netPoll hn rx) hone hmine
  rw [foldl_inFlight_connEvents, foldl_connEvents] at hwait
  obtain ⟨r, hr⟩ := netPoll_noted n rx
  rw [hr]
  exact ⟨hwait.rxLen r, hsends.of_connEvents r⟩

theorem waiting_kick (hw : Waiting n.httpd n.uip.conns f w p l)
    (hp : Phase n.httpd n.uip.conns w.sent l) (hn : Coherent n) (hslen : Drained n)
    (hone : l.length ≤ 1) :
    Waiting (kickActiveConnection n).1.httpd (kickActiveConnection n).1.uip.conns
      ((kickActiveConnection n).2.foldl inFlight f) ((kickActiveConnection n).2.foldl Wire.event w)
      p l ∧
    Sends (kickActiveConnection n).1.httpd f p (kickActiveConnection n).2 := by
  have heff := effect_kick hn.fits hslen
  have hop : openings (connEvents (kickActiveConnection n).2) = [] := by
    rw [openings_connEvents, openings_kick]
  have hmine : ∀ k ∈ kickCall n, k.slot ∈ l := by
    intro k hk
    have hest := kickCall_established hk
    obtain ⟨hl, -⟩ := hp.of_live fun hover => hover.2 hest
    rw [hl]
    exact List.mem_singleton_self _
  obtain ⟨hwait, hsends⟩ := waiting_effect hw hp heff (by rwa [hop, List.append_nil]) hmine
  rw [foldl_inFlight_connEvents, foldl_connEvents, hop, List.append_nil] at hwait
  obtain ⟨r, hr⟩ := kick_noted n
  rw [hr]
  exact ⟨hwait.rxLen r, hsends.of_connEvents r⟩

/-- **Taking a payload over**: nothing is in flight, so nobody needs the old one. -/
theorem waiting_taken {t : Net} {i : Input} {pay : Option (List UInt8)}
    (ht : taken n i = some t) (hm : Coherent (netPoll n i.rx).1)
    (hw : Waiting (netPoll n i.rx).1.httpd (netPoll n i.rx).1.uip.conns f w p l)
    (hpay : pay = some (t.httpd.txBuf.load 0 t.httpd.txLen)) :
    Waiting t.httpd t.uip.conns f w pay l := by
  obtain ⟨-, htx, -⟩ := idle_of_taken ht hm
  obtain ⟨hconns, -, -, -⟩ := taken_frame ht
  have hhttpd : t.httpd.closePending = (netPoll n i.rx).1.httpd.closePending ∧
      t.httpd.connOpen = (netPoll n i.rx).1.httpd.connOpen := by
    obtain ⟨-, -, -, length, buf, rfl⟩ := taken_spec ht
    rw [(takePayload_httpd _ _ _).1]
    exact ⟨rfl, rfl⟩
  refine ⟨hhttpd.1.trans hw.closePending, ?_, ?_⟩
  · rw [hconns]
    exact hw.untouched
  · intro a ha
    rw [hconns] at ha ⊢
    have hwa := hw.inUse a ha
    have hzero : ((netPoll n i.rx).1.uip.conns a).len = 0 := by
      by_contra hlen
      simp [(hwa.flight hlen).1] at htx
    exact ⟨hhttpd.2.trans hwa.connOpen, hwa.clear, fun hlen => absurd hzero hlen, fun _ => hpay⟩

/-! ### Whether a connection is open -/

theorem synced_netPoll (h : n.sock.connOpen = n.httpd.connOpen) (rx : Rx) :
    (netPoll n rx).1.sock.connOpen = (netPoll n rx).1.httpd.connOpen := by
  rw [netPoll_sock, netPoll_httpd]
  split_ifs
  · exact h
  · rfl

theorem synced_kick (h : n.sock.connOpen = n.httpd.connOpen) :
    (kickActiveConnection n).1.sock.connOpen = (kickActiveConnection n).1.httpd.connOpen := by
  rw [kick_sock, kick_httpd]
  split_ifs
  · exact h
  · rfl

/-- Only `sock_close` makes the sockets forget a connection that the bridge knows. -/
theorem synced_step {n' : Net} {i : Input} {o : Outcome} (h : n.sock.connOpen = n.httpd.connOpen)
    (hclose : asksClose i.request = none) (hs : step n i = some (n', o)) :
    n'.sock.connOpen = n'.httpd.connOpen := by
  obtain ⟨hh, -, -⟩ := step_spec hs
  obtain ⟨request, rx⟩ := i
  have hp := synced_netPoll h rx
  have hn' : n' = (handle n ⟨request, rx⟩).1 := by rw [hh]
  rw [hn']
  cases request with
  | netSend length buf =>
    have hu := earthNetSend_undisturbed n length buf
    show (earthNetSend n length buf).1.sock.connOpen = (earthNetSend n length buf).1.httpd.connOpen
    rw [hu.sock, hu.httpd, h]
  | netRecv =>
    simp only [handle, handleNetRecv]
    split_ifs <;> exact h
  | sockListen port =>
    simp only [handle, handleSockListen]
    split_ifs
    · exact h
    · rfl
  | sockAccept =>
    simp only [handle, handleSockAccept]
    split_ifs <;> exact hp
  | sockRecv connId length =>
    simp only [handle, handleSockRecv]
    split_ifs <;> exact hp
  | sockSend connId length buf =>
    rcases handle_sockSend_cases n connId length buf rx with ⟨_, -, heq⟩ | ⟨t, ht, -, -, heq⟩
    · rw [heq]
      exact hp
    · rw [heq, ht]
      refine synced_kick ?_
      rw [takePayload_sock, (takePayload_httpd _ _ _).1]
      exact hp
  | sockClose connId => simp [asksClose] at hclose

/-! ### The step -/

/-- A payload that is taken over is not empty. -/
theorem txLen_pos_of_taken {t : Net} {i : Input} (ht : taken n i = some t)
    (hone : oneSegment i.request = true) : 0 < t.httpd.txLen := by
  obtain ⟨request, rx⟩ := i
  cases request with
  | sockSend connId length buf =>
    obtain ⟨hpos, -⟩ : 1 ≤ length ∧ length ≤ UIP_TCP_MSS := by simpa [oneSegment] using hone
    simp only [taken] at ht
    split_ifs at ht
    obtain rfl := Option.some.inj ht
    rw [(takePayload_httpd _ _ _).1]
    have hnet : (NET_BUF_SIZE : ℤ) = 512 := rfl
    show 0 < (clampNetLength length).toNat
    unfold clampNetLength
    split_ifs <;> omega
  | _ => simp [taken] at ht

end Steps

section Runs

variable {n n' : Net} {i : Input} {o : Outcome} {os : List Outcome}

/-- What a step consists of when there is no `sock_close`: the payload it takes over, if any, is not
empty. -/
inductive SteadyStep (n : Net) (i : Input) (n' : Net) : List Event → Option (List UInt8) → Prop
  | card {ev : List Event} : connEvents ev = [] → SameConns n n' → SteadyStep n i n' ev none
  | listened : (∀ a, ¬ Established n a) → SameConns (resetSocketState n) n' →
      SteadyStep n i n' [] none
  | polled : SameConns (netPoll n i.rx).1 n' ∨ SameConns (clearPending (netPoll n i.rx).1) n' →
      SteadyStep n i n' (netPoll n i.rx).2 none
  | sent {t : Net} : taken n i = some t → SameConns (kickActiveConnection t).1 n' →
      SteadyStep n i n' ((netPoll n i.rx).2 ++ (kickActiveConnection t).2)
        (some (t.httpd.txBuf.load 0 t.httpd.txLen))

theorem steadyStep (hC : Steady n i) (hs : step n i = some (n', o)) :
    SteadyStep n i n' o.events (payloadOf o) := by
  obtain ⟨hh, hreq, hfault⟩ := step_spec hs
  obtain ⟨request, rx⟩ := i
  obtain ⟨request', events, reply⟩ := o
  obtain rfl : request' = request := hreq
  obtain ⟨hclose, hlisten, hone⟩ := hC
  cases request' with
  | netSend length buf =>
    obtain ⟨rfl, rfl, rfl⟩ : _ ∧ _ ∧ _ := by
      simpa only [handle, handleNetSend, Prod.mk.injEq] using hh
    have hu := earthNetSend_undisturbed n length buf
    exact .card (earthNetSend_onlyFrames n length buf).connEvents ⟨hu.conns, hu.httpd⟩
  | netRecv =>
    obtain ⟨rfl, rfl, rfl⟩ : _ ∧ _ ∧ _ := by
      simpa only [handle, handleNetRecv, Prod.mk.injEq] using hh
    refine .card rfl ?_
    split_ifs <;> exact ⟨rfl, rfl⟩
  | sockListen port =>
    simp only [handle, handleSockListen] at hh
    split_ifs at hh with hport
    · obtain ⟨rfl, rfl, rfl⟩ : _ ∧ _ ∧ _ := by simpa only [Prod.mk.injEq] using hh
      exact .card rfl ⟨rfl, rfl⟩
    · obtain ⟨rfl, rfl, rfl⟩ : _ ∧ _ ∧ _ := by simpa only [Prod.mk.injEq] using hh
      refine .listened (hlisten (by simpa [asksListen] using hport)) ⟨?_, rfl⟩
      simp only [uipListen]
      split <;> rfl
  | sockAccept =>
    simp only [handle, handleSockAccept] at hh
    split_ifs at hh
    · obtain ⟨rfl, rfl, rfl⟩ : _ ∧ _ ∧ _ := by simpa only [Prod.mk.injEq] using hh
      exact .polled (Or.inr ⟨rfl, rfl⟩)
    · obtain ⟨rfl, rfl, rfl⟩ : _ ∧ _ ∧ _ := by simpa only [Prod.mk.injEq] using hh
      exact .polled (Or.inl ⟨rfl, rfl⟩)
  | sockRecv connId length =>
    simp only [handle, handleSockRecv] at hh
    have hsame : (netPoll n rx).2 = events ∧ SameConns (netPoll n rx).1 n' := by
      split_ifs at hh <;>
        obtain ⟨rfl, rfl, -⟩ : _ ∧ _ ∧ _ := by simpa only [Prod.mk.injEq] using hh
      all_goals exact ⟨rfl, rfl, rfl⟩
    obtain ⟨rfl, hsame⟩ := hsame
    exact .polled (Or.inl hsame)
  | sockSend connId length buf =>
    rcases handle_sockSend_cases n connId length buf rx with ⟨r, hr, heq⟩ | ⟨t, ht, htaken, -, heq⟩
    · obtain ⟨rfl, rfl, rfl⟩ : _ ∧ _ ∧ _ := by simpa only [heq, Prod.mk.injEq] using hh
      rw [payloadOf_refused hr]
      exact .polled (Or.inl ⟨rfl, rfl⟩)
    · obtain ⟨rfl, rfl, rfl⟩ : _ ∧ _ ∧ _ := by simpa only [heq, Prod.mk.injEq] using hh
      have hpos := txLen_pos_of_taken htaken hone
      have hclamp := clampNetLength_of_le (le_of_fault_takePayload (ht ▸ fault_kick hfault))
      obtain ⟨hhttpd, hload⟩ := takePayload_httpd (netPoll n rx).1 (clampNetLength length) buf
      rw [← ht, hclamp] at hhttpd hload
      have hlen : t.httpd.txLen = length.toNat := by rw [hhttpd]
      have hpay : payloadOf ⟨.sockSend connId length buf,
          (netPoll n rx).2 ++ (kickActiveConnection t).2,
          ⟨.ok, connId, clampNetLength length, []⟩⟩ =
          some (t.httpd.txBuf.load 0 t.httpd.txLen) := by
        have hlength : 0 < length := by omega
        simp only [payloadOf, sockSend, if_true]
        rw [if_pos hlength, hlen, hload]
      rw [hpay]
      exact .sent htaken ⟨rfl, rfl⟩
  | sockClose connId => simp [asksClose] at hclose

/-- **Every step keeps the invariant**, and what it sends is as it should be. -/
theorem held_step (hn : Coherent n)
    (hp : Phase n.httpd n.uip.conns (wire os).sent (openings (history os))) (hh : Held os n)
    (hC : Steady n i) (hs : step n i = some (n', o))
    (hone : (openings (history (os ++ [o]))).length ≤ 1) :
    Held (os ++ [o]) n' ∧ Stable ((history os).foldl inFlight none) o.events ∧
      Latest (payloads (os ++ [o])).getLast? o.events := by
  have hsynced := synced_step hh.synced hC.1 hs
  have hm := coherent_netPoll hn i.rx
  rw [history_append, openings_append] at hone
  -- what is left to show is about the connections, and `SteadyStep` says what becomes of them
  suffices hsuff : Waiting n'.httpd n'.uip.conns
        (o.events.foldl inFlight ((history os).foldl inFlight none))
        (o.events.foldl Wire.event (wire os)) (payloads (os ++ [o])).getLast?
        (openings (history os) ++ openings o.events) ∧
      (∀ a, a ∉ openings (history os) ++ openings o.events →
        (n'.uip.conns a).tcpstateflags = .closed) ∧
      Stable ((history os).foldl inFlight none) o.events ∧
      Latest (payloads (os ++ [o])).getLast? o.events by
    obtain ⟨hwait, hclosed, hstable, hlatest⟩ := hsuff
    refine ⟨⟨?_, hsynced, ?_⟩, hstable, hlatest⟩
    · rwa [history_append, List.foldl_append, openings_append, wire_append]
    · rwa [history_append, openings_append]
  have hlast : (payloads (os ++ [o])).getLast? = (payloadOf o).or (payloads os).getLast? := by
    rw [payloads_append, List.getLast?_append, getLast?_toList]
  have hclosed : ∀ a, a ∉ openings (history os) ++ openings (netPoll n i.rx).2 →
      ((netPoll n i.rx).1.uip.conns a).tcpstateflags = .closed := by
    intro a ha
    rw [List.mem_append, not_or] at ha
    exact closed_netPoll (hh.unopened a ha.1) ha.2
  have hpoll := waiting_netPoll i.rx hh.waiting hp hn hh.unopened
  have hstep := steadyStep hC hs
  rw [hlast]
  generalize o.events = ev at hstep hone ⊢
  generalize payloadOf o = pay at hstep ⊢
  cases hstep with
  | card hev hconns =>
    have hfree : ∀ e ∈ ev, Silent e := by
      intro e he
      have hout : e.ofConn = false := by
        simpa using List.filter_eq_nil_iff.mp hev e he
      cases e with
      | polled _ => trivial
      | netSend _ => trivial
      | _ => simp [Event.ofConn] at hout
    have hless : ∀ e ∈ ev, Dataless e := fun e he => (hfree e he).dataless
    have hnone : openings ev = [] := by rw [← openings_connEvents, hev]; rfl
    rw [foldl_inFlight_silent hfree, foldl_event_silent hfree, hnone, List.append_nil, hconns.1,
      hconns.2]
    exact ⟨hh.waiting, hh.unopened, stable_dataless hless _, latest_dataless hless _⟩
  | listened hidle hconns =>
    rw [hconns.1, hconns.2, openings_nil, List.append_nil]
    exact ⟨⟨rfl, hh.waiting.untouched, fun a ha => absurd ha (hidle a)⟩, hh.unopened, trivial,
      by simp [Latest]⟩
  | polled hconns =>
    obtain ⟨hwait, hsends⟩ := hpoll hone
    rcases hconns with hconns | hconns
    · rw [hconns.1, hconns.2]
      exact ⟨hwait, hclosed, hsends.stable, hsends.latest⟩
    · rw [hconns.1, hconns.2]
      refine ⟨⟨hwait.closePending, hwait.untouched, fun a ha => ?_⟩, hclosed, hsends.stable,
        hsends.latest⟩
      have hwa := hwait.inUse a ha
      exact ⟨hwa.connOpen, hwa.clear, hwa.flight, hwa.latest⟩
  | @sent t ht hconns =>
    rw [openings_append, openings_kick, List.append_nil] at hone ⊢
    obtain ⟨hwait, hsends⟩ := hpoll hone
    have hpm := phase_netPoll hp hn i.rx hone
    obtain ⟨hct, hslen⟩ := coherent_taken ht hm
    obtain ⟨-, htx, -⟩ := idle_of_taken ht hm
    obtain ⟨hwait', hsends'⟩ := waiting_kick (waiting_taken ht hm hwait rfl) (phase_taken ht hm hpm)
      hct hslen hone
    rw [List.foldl_append, List.foldl_append, hconns.1, hconns.2]
    refine ⟨hwait', fun a ha => closed_kick ?_, ?_, ?_⟩
    · rw [(taken_frame ht).1]
      exact hclosed a ha
    · exact (stable_append _ _ _).mpr ⟨hsends.stable, hsends'.stable⟩
    · -- a frame after which nothing is pending has sent nothing
      intro x hx
      rw [emitted_append, List.mem_append] at hx
      exact hx.elim (latest_dataless (hsends.idle htx) _ x) (hsends'.latest x)

/-! ### Acknowledgements -/

/-- A kick is not answered by an acknowledgement. -/
theorem advances_kick (n : Net) : ∀ e ∈ (kickActiveConnection n).2, advances e = false := by
  intro e he
  cases e with
  | call c =>
    have hmem : c ∈ calls (kickActiveConnection n).2 := List.mem_filterMap.mpr ⟨.call c, he, rfl⟩
    rw [calls_kick, Option.mem_toList] at hmem
    obtain ⟨hflags, -, -⟩ := kickCall_flags hmem
    show c.flags.ackdata = false
    rw [hflags]
  | _ => rfl

theorem exists_advances_connEvents (ev : List Event) :
    (∃ e ∈ connEvents ev, advances e = true) ↔ ∃ e ∈ ev, advances e = true := by
  constructor
  · rintro ⟨e, he, hadv⟩
    exact ⟨e, List.mem_of_mem_filter he, hadv⟩
  · rintro ⟨e, he, hadv⟩
    refine ⟨e, List.mem_filter.mpr ⟨he, ?_⟩, hadv⟩
    cases e with
    | call c => rfl
    | _ => simp [advances] at hadv

/-- A frame moves `snd_nxt` exactly when the application is told of an acknowledgement. -/
theorem sndNxt_netPoll {a : Slot} {rx : Rx} (hn : Coherent n)
    (hp : Phase n.httpd n.uip.conns (wire os).sent (openings (history os))) (hh : Held os n)
    (hest : Established n a) (hest' : Established (netPoll n rx).1 a) :
    ((netPoll n rx).1.uip.conns a).sndNxt ≠ (n.uip.conns a).sndNxt ↔
      ∃ e ∈ (netPoll n rx).2, advances e = true := by
  obtain ⟨hl, -, ⟨hsyn, -⟩ | ⟨-, -, hbound, -⟩⟩ := hp.of_live (i := a) fun hover => hover.2 hest
  · exact absurd (hsyn.symm.trans hest) (by simp)
  · have hmine : ∀ k ∈ frameCall n rx, k.slot = a := by
      intro k hk
      by_contra hne
      refine frameCall_active hk (hh.unopened _ ?_)
      rw [hl]
      simpa using hne
    have hnet : NET_BUF_SIZE = 512 := rfl
    have hturn := turn_effect (hp.effect_netPoll hn rx) hmine hh.waiting.closePending hest hest'
    rw [hturn.advances_iff (by omega), exists_advances_connEvents]

/-- A kick does not move it. -/
theorem sndNxt_kick {a : Slot} {w : Wire} {l : List Slot} (hn : Coherent n) (hslen : Drained n)
    (hp : Phase n.httpd n.uip.conns w.sent l) (hclose : n.httpd.closePending = false)
    (hest : Established n a) (hest' : Established (kickActiveConnection n).1 a) :
    ((kickActiveConnection n).1.uip.conns a).sndNxt = (n.uip.conns a).sndNxt := by
  have hlive : ¬ Over (n.uip.conns a) := fun hover => hover.2 hest
  obtain ⟨-, hothers, ⟨hsyn, -⟩ | ⟨-, -, hbound, -⟩⟩ := hp.of_live hlive
  · exact absurd (hsyn.symm.trans hest) (by simp)
  · have hmine : ∀ k ∈ kickCall n, k.slot = a := by
      intro k hk
      by_contra hne
      exact (hothers _ hne).2 (kickCall_established hk)
    have hnet : NET_BUF_SIZE = 512 := rfl
    have hturn := turn_effect (effect_kick hn.fits hslen) hmine hclose hest hest'
    by_contra hne
    rw [← ne_eq, hturn.advances_iff (by omega), exists_advances_connEvents] at hne
    obtain ⟨e, he, hadv⟩ := hne
    simp [advances_kick n e he] at hadv

theorem sndNxt_step {a : Slot} (hn : Coherent n)
    (hp : Phase n.httpd n.uip.conns (wire os).sent (openings (history os))) (hh : Held os n)
    (hC : Steady n i) (hs : step n i = some (n', o))
    (hone : (openings (history (os ++ [o]))).length ≤ 1) (hest : Established n a)
    (hest' : Established n' a) :
    (n'.uip.conns a).sndNxt ≠ (n.uip.conns a).sndNxt ↔ ∃ e ∈ o.events, advances e = true := by
  have hm := coherent_netPoll hn i.rx
  have hstep := steadyStep hC hs
  rw [history_append, openings_append] at hone
  generalize o.events = ev at hstep hone ⊢
  generalize payloadOf o = pay at hstep
  unfold Established at hest'
  cases hstep with
  | card hev hconns =>
    rw [hconns.1, ← exists_advances_connEvents, hev]
    simp
  | listened hidle _ => exact absurd hest (hidle a)
  | polled hconns =>
    have hsame : n'.uip.conns = (netPoll n i.rx).1.uip.conns := by
      rcases hconns with hconns | hconns
      · exact hconns.1
      · exact hconns.1
    rw [hsame] at hest' ⊢
    exact sndNxt_netPoll hn hp hh hest hest'
  | @sent t ht hconns =>
    rw [openings_append, openings_kick, List.append_nil] at hone
    have hpm := phase_netPoll hp hn i.rx hone
    obtain ⟨hwait, -⟩ := waiting_netPoll i.rx hh.waiting hp hn hh.unopened hone
    obtain ⟨hct, hslen⟩ := coherent_taken ht hm
    have hclose : t.httpd.closePending = false := (waiting_taken ht hm hwait rfl).closePending
    rw [hconns.1] at hest' ⊢
    have htest : Established t a := (established_kick hest').1
    have hmest : Established (netPoll n i.rx).1 a := by
      unfold Established at htest ⊢
      rwa [(taken_frame ht).1] at htest
    rw [sndNxt_kick hct hslen (phase_taken ht hm hpm) hclose htest hest', (taken_frame ht).1,
      sndNxt_netPoll hn hp hh hest hmest]
    simp only [List.mem_append, or_and_right, exists_or]
    refine ⟨Or.inl, fun hadv => hadv.resolve_right ?_⟩
    rintro ⟨e, he, hadv⟩
    simp [advances_kick t e he] at hadv

/-! ### The answer to `sock_send` -/

/-- A frame after which something is pending has left the buffer alone. -/
theorem tx_netPoll {rx : Rx} (htx : (netPoll n rx).1.httpd.txPending = true) :
    (netPoll n rx).1.httpd.txBuf = n.httpd.txBuf ∧
      (netPoll n rx).1.httpd.txLen = n.httpd.txLen := by
  obtain ⟨r, hr⟩ := netPoll_noted n rx
  rw [hr] at htx ⊢
  cases hcall : frameCall n rx with
  | none => exact ⟨rfl, rfl⟩
  | some c =>
    rw [hcall] at htx
    have hack : c.flags.ackdata = false := by
      by_contra hack
      simp [noted, note, hack] at htx
    exact ⟨rfl, by simp [noted, note, hack]⟩

/-- **A `sock_send` on the connection in use** is answered `NET_OK` when nothing is in flight;
otherwise it is answered `NET_WOULD_BLOCK`, and the buffer stays as it was. -/
theorem send_answer {connId length : ℤ} {buf : Mem} {a : Slot} (hn : Coherent n)
    (hp : Phase n.httpd n.uip.conns (wire os).sent (openings (history os))) (hh : Held os n)
    (hreq : i.request = .sockSend connId length buf) (hs : step n i = some (n', o))
    (hone : (openings (history (os ++ [o]))).length ≤ 1) (hport : 0 ≤ n.sock.listenPort)
    (hid : connId = n.sock.connId) (hest' : Established n' a) :
    (o.reply.status = .ok ∧ ((netPoll n i.rx).1.uip.conns a).len = 0 ∧
        ((netPoll n i.rx).2.foldl Wire.event (wire os)).acked =
          ((netPoll n i.rx).2.foldl Wire.event (wire os)).sent) ∨
      (o.reply.status = .wouldBlock ∧ n'.httpd.txBuf = n.httpd.txBuf ∧
        n'.httpd.txLen = n.httpd.txLen) := by
  obtain ⟨hhandle, -, -⟩ := step_spec hs
  obtain ⟨request, rx⟩ := i
  obtain rfl : request = _ := hreq
  obtain ⟨request, events, reply⟩ := o
  rw [history_append, openings_append] at hone
  have hm := coherent_netPoll hn rx
  have hsynced := synced_netPoll hh.synced rx
  -- after the frame: the connection is open, and what is in flight is pending
  have hafter (hev : (openings (history os) ++ openings (netPoll n rx).2).length ≤ 1)
      (hest : Established (netPoll n rx).1 a) :
      socketConnValid (netPoll n rx).1.sock connId = true ∧
        Waits (netPoll n rx).1.httpd ((netPoll n rx).1.uip.conns a)
          ((netPoll n rx).2.foldl inFlight ((history os).foldl inFlight none))
          ((netPoll n rx).2.foldl Wire.event (wire os)) (payloads os).getLast? := by
    have hwaits := (waiting_netPoll rx hh.waiting hp hn hh.unopened hev).1.inUse a hest
    refine ⟨?_, hwaits⟩
    simp only [socketConnValid, decide_eq_true_eq]
    refine ⟨?_, hsynced.trans hwaits.connOpen, hid.trans (netPoll_connId n rx).symm⟩
    rw [(netPoll_listening n rx).2]
    exact hport
  have hlisten : ¬ (netPoll n rx).1.sock.listenPort < 0 := by
    rw [(netPoll_listening n rx).2]
    exact not_lt.mpr hport
  simp only [handle, handleSockSend] at hhandle
  split_ifs at hhandle with hinv hpend
  · obtain ⟨rfl, rfl, rfl⟩ : _ ∧ _ ∧ _ := by simpa only [Prod.mk.injEq] using hhandle
    exact absurd (hafter hone hest').1 (hinv.resolve_left hlisten)
  · obtain ⟨rfl, rfl, rfl⟩ : _ ∧ _ ∧ _ := by simpa only [Prod.mk.injEq] using hhandle
    obtain ⟨-, hwaits⟩ := hafter hone hest'
    have htx := (hm.copies (hsynced.trans hwaits.connOpen)).2.2
    exact Or.inr ⟨rfl, tx_netPoll (htx.symm.trans hpend)⟩
  · rw [netKickTx, if_pos (by rw [takePayload_sock])] at hhandle
    obtain ⟨rfl, rfl, rfl⟩ : _ ∧ _ ∧ _ := by simpa only [Prod.mk.injEq] using hhandle
    rw [openings_append, openings_kick, List.append_nil] at hone
    have hest : Established (netPoll n rx).1 a := by
      have hkick := (established_kick hest').1
      rwa [(takePayload_uip _ _ _).1] at hkick
    obtain ⟨-, hwaits⟩ := hafter hone hest
    have htx := (hm.copies (hsynced.trans hwaits.connOpen)).2.2
    have hzero : ((netPoll n rx).1.uip.conns a).len = 0 := by
      by_contra hlen
      exact hpend (htx.trans (hwaits.flight hlen).1)
    exact Or.inl ⟨rfl, hzero, (hwaits.clear hzero).2⟩

/-! ### Runs -/

/-- Once a `sock_listen` has been answered `NET_OK` there is a listening port. -/
theorem listenPort_nonneg {C : Net → Input → Prop} {is : List Input}
    (hrun : Run step C Net.init is os n) (hl : ∃ o ∈ os, (listenedPort o).isSome = true) :
    0 ≤ n.sock.listenPort := by
  obtain ⟨o, ho, hsome⟩ := hl
  obtain ⟨port, hport⟩ := Option.isSome_iff_exists.mp hsome
  have hmem : port ∈ listenedPorts os := List.mem_filterMap.mpr ⟨o, ho, hport⟩
  have hlast := List.getLast?_eq_some_getLast (List.ne_nil_of_mem hmem)
  obtain ⟨heq, hpos⟩ := (listenPort_run hrun.free).1 _ hlast
  rw [heq]
  exact le_of_lt hpos

theorem held_run {is : List Input} (hrun : Run step Steady Net.init is os n)
    (hone : (openings (history os)).length ≤ 1) : Held os n ∧ Stable none (history os) := by
  induction hrun with
  | nil =>
    have hclosed : ∀ a, (Net.init.uip.conns a).tcpstateflags = .closed := fun a => rfl
    refine ⟨⟨⟨rfl, fun _ => ⟨rfl, rfl⟩, fun a ha => ?_⟩, rfl, fun a _ => hclosed a⟩, trivial⟩
    exact absurd ((hclosed a).symm.trans ha) (by simp)
  | @snoc is os n n' i o hrun hC hs ih =>
    have hone' : (openings (history os)).length ≤ 1 := by
      rw [history_append, openings_append, List.length_append] at hone
      omega
    obtain ⟨hh, hstable⟩ := ih hone'
    obtain ⟨hh', hstable', -⟩ :=
      held_step (coherent_run hrun) (phase_run hrun hone') hh hC hs hone
    refine ⟨hh', ?_⟩
    rw [history_append, stable_append]
    exact ⟨hstable, hstable'⟩

/-- **Stop and wait.**  In every run with a single connection that meets `Steady`:

* two data segments between which `snd_nxt` has not advanced carry the same number and the same
  bytes;
* every data segment is the beginning of the payload of the latest `sock_send` that was answered
  `NET_OK`;
* `snd_nxt` of the connection in use moves exactly in the steps in which the application is told of
  an acknowledgement;
* a `sock_send` with the id of the connection in use is answered `NET_OK` only if everything that
  was sent before has been acknowledged, and otherwise it is answered `NET_WOULD_BLOCK` and the
  buffer of the bridge and its length are as before. -/
theorem stop_and_wait {is : List Input} (hrun : Run step Steady Net.init is os n)
    (hC : Steady n i) (hs : step n i = some (n', o))
    (hone : (openings (history (os ++ [o]))).length ≤ 1) :
    (∀ a a' s s' e₁ e₂ e₃,
      history (os ++ [o]) = e₁ ++ .segment a s :: (e₂ ++ .segment a' s' :: e₃) →
      s.data ≠ [] → s'.data ≠ [] → (∀ e ∈ e₂, advances e = false) →
      s'.seqno = s.seqno ∧ s'.data = s.data) ∧
    (∀ a s, (a, s) ∈ emitted o.events → s.data ≠ [] →
      ∃ q, (payloads (os ++ [o])).getLast? = some q ∧ s.data <+: q) ∧
    (∀ a, Established n a → Established n' a →
      ((n'.uip.conns a).sndNxt ≠ (n.uip.conns a).sndNxt ↔ ∃ e ∈ o.events, advances e = true)) ∧
    (∀ a connId length buf, i.request = .sockSend connId length buf → connId = n.sock.connId →
      (∃ p ∈ os, (listenedPort p).isSome = true) → Established n' a →
      (o.reply.status = .ok ∧ ((netPoll n i.rx).1.uip.conns a).len = 0 ∧
          ((netPoll n i.rx).2.foldl Wire.event (wire os)).acked =
            ((netPoll n i.rx).2.foldl Wire.event (wire os)).sent) ∨
        (o.reply.status = .wouldBlock ∧ n'.httpd.txBuf = n.httpd.txBuf ∧
          n'.httpd.txLen = n.httpd.txLen)) := by
  have hone' : (openings (history os)).length ≤ 1 := by
    rw [history_append, openings_append, List.length_append] at hone
    omega
  have hn := coherent_run hrun
  have hp := phase_run hrun hone'
  obtain ⟨hh, hstable⟩ := held_run hrun hone'
  obtain ⟨-, hstable', hlatest⟩ := held_step hn hp hh hC hs hone
  refine ⟨?_, ?_, ?_, ?_⟩
  · intro a a' s s' e₁ e₂ e₃ heq hdata hdata' hno
    have hall : Stable none (history (os ++ [o])) := by
      rw [history_append, stable_append]
      exact ⟨hstable, hstable'⟩
    rw [heq] at hall
    obtain rfl := hall.eq_of_between hdata hdata' hno
    exact ⟨rfl, rfl⟩
  · exact fun a s hmem hdata => hlatest (a, s) hmem hdata
  · exact fun a hest hest' => sndNxt_step hn hp hh hC hs hone hest hest'
  · intro a connId length buf hreq hid hl hest'
    exact send_answer hn hp hh hreq hs hone (listenPort_nonneg hrun hl) hid hest'

/-! ### A payload that is sent twice -/

/-- A client is sent three bytes, and sends two of its own before it acknowledges them. -/
def sentTwice : List Input :=
  listen80 :: connect 1000 100 ++
    [Request.alone (.sockSend 1 3 (payload [1, 2, 3])),
      Request.receiving (.sockRecv 1 10)
        { port := 1000, seqno := 101, ackno := 1, flags := TCP_ACK, data := [7, 8] }]

/-- The next payload, before the acknowledgement. -/
def sendTooSoon : Input := Request.alone (.sockSend 1 2 (payload [4, 5]))

theorem stop_and_wait_sentTwice :
    ∃ os n n' o, Run step Steady Net.init sentTwice os n ∧ Steady n sendTooSoon ∧
      step n sendTooSoon = some (n', o) ∧ (openings (history (os ++ [o]))).length ≤ 1 ∧
      ((emitted (history os)).map fun x => x.2.data) = [[], [1, 2, 3], [1, 2, 3]] ∧
      o.reply.status = .wouldBlock ∧ n'.httpd.txBuf = n.httpd.txBuf := by
  have hexec : ((exec (guarded step Steady) Net.init sentTwice).bind fun r =>
      (guarded step Steady r.1 sendTooSoon).map fun q =>
        (decide ((openings (history (r.2 ++ [q.2]))).length ≤ 1),
          (emitted (history r.2)).map (fun x => x.2.data), q.2.reply.status,
          decide (Established q.1 0), r.1.sock.connId,
          r.2.any fun p => (listenedPort p).isSome)) =
      some (true, [[], [1, 2, 3], [1, 2, 3]], .wouldBlock, true, 1, true) := by decide +kernel
  obtain ⟨⟨n, os⟩, hr, hrest⟩ := Option.bind_eq_some_iff.mp hexec
  obtain ⟨⟨n', o⟩, hlast, hval⟩ := Option.map_eq_some_iff.mp hrest
  simp only [Prod.mk.injEq, decide_eq_true_eq] at hval
  obtain ⟨hone, hdata, hstatus, hest, hid, hl⟩ := hval
  unfold guarded at hlast
  split_ifs at hlast with hC
  have hrun := run_of_exec_guarded hr
  obtain ⟨-, -, -, hsend⟩ := stop_and_wait hrun hC hlast hone
  have hlistened : ∃ p ∈ os, (listenedPort p).isSome = true := by simpa using hl
  rcases hsend 0 1 2 _ rfl hid.symm hlistened hest with ⟨hok, -⟩ | ⟨-, hbuf, -⟩
  · exact absurd (hok.symm.trans hstatus) (by simp)
  · exact ⟨os, n, n', o, hrun, hC, hlast, hone, hdata, hstatus, hbuf⟩

end Runs

end Service
end EgosNet
