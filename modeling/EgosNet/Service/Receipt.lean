import EgosNet.Service.Handover
import EgosNet.Service.Provenance

/-!
# Whose data a read returns

The buffer of the sockets belongs to no connection.  What is in it stays until it is read, or
replaced by the next delivery, or thrown away by `sock_close` or `sock_listen`; that the connection
ends is no reason to empty it, nor is that another one is accepted.  So bytes of one connection may
be returned to the reader of the next.  And what is put into it are the bytes to which
`uip_appdata` points, which need not be data of the segment at all (`Service.Provenance`).

`Receipts` is the bookkeeping that the program does not do.  It numbers the connections, and records
which of them is the accepted one until it ends, and which frames were delivered for which of them.
What a frame brings is read off the frame, by its headers, and not off what uIP makes of it
(`segmentData`).

A read returns data of the accepted connection as long as every step is `Unmixed`: a connection is
accepted only when the buffer is empty or holds data of that very connection, and while there is an
accepted connection no data of another is delivered; and the frames in question fit.

* `source_netPoll`: what a frame leaves in the buffer, and where it is from.
* `traced_step`: what is in the buffer was delivered last, and for the accepted connection.
* `recv_genuine`: in every run with unmixed steps, what a read returns is part of the data of a
  segment that was received on the accepted connection.  The connections need not even follow one
  another.
* `recv_stale`: a client sends two bytes and resets its connection; the next client is accepted, and
  the two bytes are read.
-/

namespace EgosNet
namespace Service

open Foundation Uip

/-! ## The receipts -/

/-- A frame of which the application was given data: the number of the connection, the frame, and
whether it fits. -/
structure Delivery where
  conn : ℕ
  frame : List UInt8
  fits : Bool

structure Receipts where
  /-- How many connections have been opened. -/
  opened : ℕ := 0
  /-- The number of the connection in each slot. -/
  conn : Slot → ℕ := fun _ => 0
  /-- The number of the connection last reported as connected. -/
  connected : ℕ := 0
  /-- The accepted connection, until it ends. -/
  accepted : Option ℕ := none
  /-- The frames that were delivered. -/
  delivered : List Delivery := []

/-- The frame fits, if it is delivered for the connection in slot `i`. -/
def FrameFits (n : Net) (rx : Rx) (i : Slot) : Prop :=
  ReadsData (earthNetRecv n.uip rx).buf (n.uip.conns i).tcpstateflags rx.frame.length

instance (n : Net) (rx : Rx) (i : Slot) : Decidable (FrameFits n rx i) :=
  inferInstanceAs (Decidable (ReadsData _ _ _))

/-- What a call adds, when the request was made in state `n` and `rx` was found. -/
def Receipts.call (n : Net) (rx : Rx) (l : Receipts) (c : Call) : Receipts :=
  { l with
    connected := if c.flags.connected then l.conn c.slot else l.connected
    accepted :=
      if ends c.flags = true ∧ l.accepted = some (l.conn c.slot) then none else l.accepted
    delivered := l.delivered ++
      ((deliveryOf c).map fun _ =>
        ⟨l.conn c.slot, rx.frame, decide (FrameFits n rx c.slot)⟩).toList }

def Receipts.event (n : Net) (rx : Rx) (l : Receipts) : Event → Receipts
  | .opened i => { l with opened := l.opened + 1, conn := Function.update l.conn i (l.opened + 1) }
  | .call c => l.call n rx c
  | _ => l

/-- The step is a `sock_close` that answers `NET_OK`. -/
def isClose (o : Outcome) : Bool :=
  match o.request, o.reply.status with
  | .sockClose _, .ok => true
  | _, _ => false

/-- What a step adds: its events, and then the acceptance or the end of a connection. -/
def Receipts.record (n : Net) (l : Receipts) (i : Input) (o : Outcome) : Receipts :=
  let l := o.events.foldl (Receipts.event n i.rx) l
  if isAccept o then { l with accepted := some l.connected }
  else if isClose o then { l with accepted := none }
  else l

/-- The service with the receipts. -/
def receipted : Net × Receipts → Input → Option ((Net × Receipts) × Outcome) :=
  annotated Receipts.record step

/-- **What a read returns is genuine**: if a connection has been accepted and has not ended when the
request is made, the bytes are part of the data of a segment that was delivered for that connection,
at the latest in this step. -/
def Genuine (s : Net × Receipts) (i : Input) (o : Outcome) : Prop :=
  ∀ b ∈ s.2.accepted, returnedIn o ≠ [] →
    ∃ d ∈ (s.2.record s.1 i o).delivered, d.conn = b ∧ returnedIn o <:+: segmentData d.frame

/-! ## Unmixed steps -/

def asksAccept : Request → Bool
  | .sockAccept => true
  | _ => false

/-- The receipts when the frame has been looked at. -/
def receiptsAfterPoll (s : Net × Receipts) (i : Input) : Receipts :=
  (netPoll s.1 i.rx).2.foldl (Receipts.event s.1 i.rx) s.2

/-- While a connection is accepted, data is delivered for that one only, in frames that fit; and
when one is accepted, what is in the buffer was delivered for it, in a frame that fits. -/
structure Unmixed (s : Net × Receipts) (i : Input) : Prop where
  deliver : polling i.request = true → ∀ b ∈ s.2.accepted, ∀ c ∈ frameCall s.1 i.rx,
    (deliveryOf c).isSome = true → s.2.conn c.slot = b ∧ FrameFits s.1 i.rx c.slot
  accept : asksAccept i.request = true → (netPoll s.1 i.rx).1.sock.connPending = true →
    0 < (netPoll s.1 i.rx).1.sock.rxLen →
    ∀ d ∈ (receiptsAfterPoll s i).delivered.getLast?,
      d.conn = (receiptsAfterPoll s i).connected ∧ d.fits = true

/-! ## Events -/

section Events

variable {m : Net} {rx₀ : Rx}

/-- Events that are no business of the receipts. -/
theorem receipts_quiet (l : Receipts) {ev : List Event}
    (h : ∀ e ∈ ev, ∀ l : Receipts, l.event m rx₀ e = l) :
    ev.foldl (Receipts.event m rx₀) l = l := by
  induction ev generalizing l with
  | nil => rfl
  | cons e ev ih =>
    rw [List.foldl_cons, h e (List.mem_cons_self ..)]
    exact ih l fun e' he' => h e' (List.mem_cons_of_mem _ he')

theorem receipts_onlyFrames (l : Receipts) {ev : List Event} (h : OnlyFrames ev) :
    ev.foldl (Receipts.event m rx₀) l = l := by
  refine receipts_quiet l fun e he l => ?_
  obtain ⟨f, rfl⟩ := h e he
  rfl

theorem receipts_segments (l : Receipts) (i : Slot) (u : Stack) :
    (segments i u).foldl (Receipts.event m rx₀) l = l := by
  unfold segments
  split_ifs <;> rfl

/-- What a run of `uip_process` adds: the call, or perhaps a new connection. -/
theorem receipts_process (l : Receipts) (n : Net) (v : Verdict) :
    (∀ c ∈ callIn n.httpd v,
        (process n v).2.foldl (Receipts.event m rx₀) l = l.call m rx₀ c) ∧
      (callIn n.httpd v = none →
        ((process n v).2.foldl (Receipts.event m rx₀) l).accepted = l.accepted ∧
          ((process n v).2.foldl (Receipts.event m rx₀) l).delivered = l.delivered) := by
  have hframes (l' : Receipts) : (process n v).2.foldl (Receipts.event m rx₀) l' =
      (complete n.httpd v).2.foldl (Receipts.event m rx₀) l' := by
    simp only [process, List.foldl_append]
    exact receipts_onlyFrames _ (sendPacket_onlyFrames _)
  rw [hframes]
  cases v with
  | done u => exact ⟨by simp [callIn], fun _ => ⟨rfl, rfl⟩⟩
  | quiet i u =>
    have hq : (complete n.httpd (.quiet i u)).2.foldl (Receipts.event m rx₀) l = l :=
      receipts_segments l i u
    rw [hq]
    exact ⟨by simp [callIn], fun _ => ⟨rfl, rfl⟩⟩
  | listen i u =>
    have hq : (complete n.httpd (.listen i u)).2.foldl (Receipts.event m rx₀) l =
        l.event m rx₀ (.opened i) := receipts_segments _ i u
    rw [hq]
    exact ⟨by simp [callIn], fun _ => ⟨rfl, rfl⟩⟩
  | appcall i u k =>
    have hq : (complete n.httpd (.appcall i u k)).2.foldl (Receipts.event m rx₀) l =
        l.call m rx₀ (callOf i u n.httpd k) := receipts_segments _ i _
    rw [hq]
    refine ⟨fun c hc => ?_, fun hnone => absurd hnone (by simp [callIn])⟩
    obtain rfl := Option.some.inj hc
    rfl

/-- The same of a frame. -/
theorem receipts_netPoll (l : Receipts) (n : Net) (rx : Rx) :
    (∀ c ∈ frameCall n rx,
        (netPoll n rx).2.foldl (Receipts.event n rx) l = l.call n rx c) ∧
      (frameCall n rx = none →
        ((netPoll n rx).2.foldl (Receipts.event n rx) l).accepted = l.accepted ∧
          ((netPoll n rx).2.foldl (Receipts.event n rx) l).delivered = l.delivered) := by
  rcases netPoll_cases n rx with ⟨-, hv, -, hev⟩ | ⟨-, hv, n', -, -, hev⟩ | ⟨-, v, hv, -, heq⟩
  · rw [hev]
    exact ⟨by simp [frameCall, hv], fun _ => ⟨rfl, rfl⟩⟩
  · rw [receipts_onlyFrames l hev]
    exact ⟨by simp [frameCall, hv], fun _ => ⟨rfl, rfl⟩⟩
  · have hcall : frameCall n rx = callIn n.httpd v := by rw [frameCall, hv]; rfl
    rw [heq, hcall]
    exact receipts_process l { n with uip := earthNetRecv n.uip rx } v

/-- A kick adds nothing. -/
theorem receipts_kick (l : Receipts) (n : Net) :
    (kickActiveConnection n).2.foldl (Receipts.event m rx₀) l = l := by
  rcases kick_cases n with ⟨-, -, heq⟩ | ⟨-, -, heq⟩ | ⟨-, i, -, hv, heq⟩
  · rw [heq]
    rfl
  · rw [heq]
    rfl
  · rw [heq]
    have hcall : kickCall n = callIn n.httpd (uipProcessPoll n.uip i) := by rw [kickCall, hv]; rfl
    show (process n (uipProcessPoll n.uip i)).2.foldl (Receipts.event m rx₀) l = l
    cases hc : kickCall n with
    | some c =>
      obtain ⟨hf, -, -⟩ := kickCall_flags hc
      rw [(receipts_process l n _).1 c (hcall.symm.trans hc)]
      simp [Receipts.call, deliveryOf, ends, hf]
    | none =>
      have hdone : ∃ u, uipProcessPoll n.uip i = .done u := by
        rcases uipProcessPoll_cases n.uip i with ⟨u, hu, -⟩ | ⟨u, hu, -⟩
        · exact ⟨u, hu⟩
        · rw [hcall, hu] at hc
          exact absurd hc (by simp [callIn])
      obtain ⟨u, hu⟩ := hdone
      rw [hu]
      simp only [process, complete, List.nil_append]
      exact receipts_onlyFrames l (sendPacket_onlyFrames _)

end Events

/-! ## The buffer -/

/-- What is in the buffer was delivered last: it is data of that segment, if the frame fits; and if
there is an accepted connection, it does and was delivered for that one. -/
structure Traced (n : Net) (l : Receipts) : Prop where
  settled : Settled n
  source : unread n ≠ [] →
    ∃ d ∈ l.delivered.getLast?, (d.fits = true → unread n <:+: segmentData d.frame) ∧
      ∀ b ∈ l.accepted, d.conn = b ∧ d.fits = true

section Buffer

variable {n n' : Net} {l l' : Receipts} {rx : Rx}

/-- Nothing in the buffer, nothing to trace. -/
theorem Traced.of_empty (h : Settled n) (hu : unread n = []) : Traced n l :=
  ⟨h, fun hne => absurd hu hne⟩

/-- The buffer and what is delivered stay; at most an acceptance is forgotten. -/
theorem Traced.congr (h : Traced n l) (hn' : Settled n') (hu : unread n' = unread n)
    (hd : l'.delivered = l.delivered) (ha : ∀ b ∈ l'.accepted, b ∈ l.accepted) :
    Traced n' l' := by
  refine ⟨hn', fun hne => ?_⟩
  rw [hu] at hne ⊢
  rw [hd]
  obtain ⟨d, hd, hdata, hacc⟩ := h.source hne
  exact ⟨d, hd, hdata, fun b hb => hacc b (ha b hb)⟩

/-- What a delivery leaves in the buffer, if the frame fits. -/
theorem take_infix_segmentData {c : Call} {d : List UInt8} (hcall : frameCall n rx = some c)
    (hd : deliveryOf c = some d) (hlen : rx.frame.length ≤ uipBufLen)
    (hfits : FrameFits n rx c.slot) : d.take UIP_BUFSIZE <:+: segmentData rx.frame := by
  obtain ⟨-, -, hload⟩ := frameCall_delivery hcall hd
  have hdata := readsData_infix hlen hfits
  rw [← hload] at hdata
  exact (List.take_prefix _ _).isInfix.trans hdata

/-- **A frame**: what is in the buffer then was delivered for the connection that was accepted when
the request was made. -/
theorem source_netPoll (h : Traced n l) (hlen : rx.frame.length ≤ uipBufLen)
    (hdeliver : ∀ b ∈ l.accepted, ∀ c ∈ frameCall n rx, (deliveryOf c).isSome = true →
      l.conn c.slot = b ∧ FrameFits n rx c.slot) :
    (unread (netPoll n rx).1 ≠ [] →
      ∃ d ∈ ((netPoll n rx).2.foldl (Receipts.event n rx) l).delivered.getLast?,
        (d.fits = true → unread (netPoll n rx).1 <:+: segmentData d.frame) ∧
          ∀ b ∈ l.accepted, d.conn = b ∧ d.fits = true) ∧
    ∀ b ∈ ((netPoll n rx).2.foldl (Receipts.event n rx) l).accepted, b ∈ l.accepted := by
  rw [unread_netPoll_eq h.settled]
  obtain ⟨hcall, hnone⟩ := receipts_netPoll l n rx
  cases hc : frameCall n rx with
  | none =>
    obtain ⟨hacc, hdel⟩ := hnone hc
    rw [hacc, hdel]
    exact ⟨h.source, fun _ hb => hb⟩
  | some c =>
    rw [hcall c hc]
    refine ⟨?_, fun b hb => ?_⟩
    · cases hd : deliveryOf c with
      | none =>
        have hdel : (l.call n rx c).delivered = l.delivered := by simp [Receipts.call, hd]
        rw [hdel]
        simpa [hd] using h.source
      | some d =>
        have hdel : (l.call n rx c).delivered.getLast? =
            some ⟨l.conn c.slot, rx.frame, decide (FrameFits n rx c.slot)⟩ := by
          simp [Receipts.call, hd]
        rw [hdel]
        intro _
        refine ⟨_, rfl, fun hfits => ?_, fun b hb => ?_⟩
        · simpa [hd] using take_infix_segmentData hc hd hlen (of_decide_eq_true hfits)
        · obtain ⟨hconn, hfits⟩ := hdeliver b hb c hc (by rw [hd]; rfl)
          exact ⟨hconn, decide_eq_true hfits⟩
    · have hacc : (l.call n rx c).accepted = if ends c.flags = true ∧
          l.accepted = some (l.conn c.slot) then none else l.accepted := rfl
      rw [hacc] at hb
      split_ifs at hb
      · exact absurd hb (by simp)
      · exact hb

end Buffer

/-! ## Steps -/

/-- The receipts of a step that neither accepts nor closes. -/
theorem record_of_plain {n : Net} {l : Receipts} {i : Input} {o : Outcome}
    (ha : isAccept o = false) (hc : isClose o = false) :
    l.record n i o = o.events.foldl (Receipts.event n i.rx) l := by
  simp [Receipts.record, ha, hc]

/-- A step that returns nothing returns nothing false. -/
theorem genuine_of_nil {s : Net × Receipts} {i : Input} {o : Outcome} (h : returnedIn o = []) :
    Genuine s i o :=
  fun _ _ hne => absurd h hne

/-- A step polls no frame that is longer than the buffer. -/
theorem length_le_of_step {n n' : Net} {i : Input} {o : Outcome} (hs : step n i = some (n', o))
    (hp : polling i.request = true) : i.rx.frame.length ≤ uipBufLen := by
  obtain ⟨hh, -, hfault⟩ := step_spec hs
  have hpoll : (netPoll n i.rx).1.uip.fault = none := fault_handle hp (by rw [hh]; exact hfault)
  by_cases hnil : i.rx.frame = []
  · rw [hnil]
    exact Nat.zero_le _
  · exact length_le_of_fault (fault_netPoll hnil hpoll)

/-- **Every step with the guard traces the buffer, and returns genuine data.** -/
theorem traced_step {n n' : Net} {l : Receipts} {i : Input} {o : Outcome} (h : Traced n l)
    (hC : Unmixed (n, l) i) (hs : step n i = some (n', o)) :
    Traced n' (l.record n i o) ∧ Genuine (n, l) i o := by
  have hset : Settled n' := settled_step h.settled hs
  have hlen := length_le_of_step hs
  obtain ⟨hh, hreq, -⟩ := step_spec hs
  obtain ⟨request, rx⟩ := i
  obtain ⟨request', events, reply⟩ := o
  obtain rfl : request' = request := hreq
  have hset' := settled_netPoll h.settled rx
  -- what the frame leaves, for the requests that look at it
  have hpoll (hp : polling request' = true) := source_netPoll h (hlen hp) (hC.deliver hp)
  have hpolled (hp : polling request' = true) :
      Traced (netPoll n rx).1 ((netPoll n rx).2.foldl (Receipts.event n rx) l) := by
    obtain ⟨hsource, hkeep⟩ := hpoll hp
    refine ⟨hset', fun hne => ?_⟩
    obtain ⟨d, hd, hdata, hacc⟩ := hsource hne
    exact ⟨d, hd, hdata, fun b hb => hacc b (hkeep b hb)⟩
  cases request' with
  | netSend length buf =>
    obtain ⟨rfl, rfl, -⟩ : _ ∧ _ ∧ _ := by
      simpa only [handle, handleNetSend, Prod.mk.injEq] using hh
    refine ⟨?_, genuine_of_nil rfl⟩
    rw [record_of_plain rfl rfl, receipts_onlyFrames l (earthNetSend_onlyFrames n length buf)]
    have hsock := (earthNetSend_undisturbed n length buf).sock
    exact h.congr hset (by rw [unread, hsock]; rfl) rfl fun _ hb => hb
  | netRecv =>
    obtain ⟨rfl, rfl, -⟩ : _ ∧ _ ∧ _ := by
      simpa only [handle, handleNetRecv, Prod.mk.injEq] using hh
    refine ⟨?_, genuine_of_nil rfl⟩
    rw [record_of_plain rfl rfl]
    refine h.congr hset ?_ rfl fun _ hb => hb
    split_ifs <;> rfl
  | sockListen port =>
    simp only [handle, handleSockListen] at hh
    split_ifs at hh
    · obtain ⟨rfl, rfl, -⟩ : _ ∧ _ ∧ _ := by simpa only [Prod.mk.injEq] using hh
      exact ⟨h, genuine_of_nil rfl⟩
    · obtain ⟨rfl, rfl, -⟩ : _ ∧ _ ∧ _ := by simpa only [Prod.mk.injEq] using hh
      exact ⟨Traced.of_empty hset (unread_of_zero rfl), genuine_of_nil rfl⟩
  | sockAccept =>
    simp only [handle, handleSockAccept] at hh
    split_ifs at hh with hpend
    · obtain ⟨rfl, rfl, rfl⟩ : _ ∧ _ ∧ _ := by simpa only [Prod.mk.injEq] using hh
      refine ⟨⟨hset, fun hne => ?_⟩, genuine_of_nil rfl⟩
      have hne' : unread (netPoll n rx).1 ≠ [] := hne
      have hpos : 0 < (netPoll n rx).1.sock.rxLen := by
        by_contra h0
        exact hne' (unread_of_zero (by omega))
      obtain ⟨d, hd, hdata, -⟩ := (hpolled rfl).source hne'
      refine ⟨d, hd, hdata, fun b hb => ?_⟩
      obtain rfl : ((netPoll n rx).2.foldl (Receipts.event n rx) l).connected = b :=
        Option.some.inj hb
      exact hC.accept rfl hpend hpos d hd
    · obtain ⟨rfl, rfl, rfl⟩ : _ ∧ _ ∧ _ := by simpa only [Prod.mk.injEq] using hh
      exact ⟨hpolled rfl, genuine_of_nil rfl⟩
  | sockRecv connId length =>
    rcases handle_sockRecv_cases n connId length rx with ⟨r, hr, heq⟩ | ⟨m, r, hr, hbuf, hzero, heq⟩
    · obtain ⟨rfl, rfl, rfl⟩ : _ ∧ _ ∧ _ := by simpa only [heq, Prod.mk.injEq] using hh
      refine ⟨hpolled rfl, genuine_of_nil ?_⟩
      unfold returnedIn
      split
      · rename_i hok
        exact absurd hok hr
      · rfl
    · obtain ⟨rfl, rfl, rfl⟩ : _ ∧ _ ∧ _ := by simpa only [heq, Prod.mk.injEq] using hh
      refine ⟨Traced.of_empty hset (unread_of_zero hzero), fun b hb hne => ?_⟩
      have hret : returnedIn ⟨.sockRecv connId length, (netPoll n rx).2, r⟩ = r.buf := by
        simp [returnedIn, hr]
      rw [hret] at hne ⊢
      have hne' : unread (netPoll n rx).1 ≠ [] := by
        intro hnil
        rw [hnil] at hbuf
        exact hne (List.prefix_nil.mp hbuf)
      obtain ⟨d, hd, hdata, hacc⟩ := (hpoll rfl).1 hne'
      obtain ⟨hconn, hfits⟩ := hacc b hb
      exact ⟨d, List.mem_of_getLast? hd, hconn, hbuf.isInfix.trans (hdata hfits)⟩
  | sockSend connId length buf =>
    rcases handle_sockSend_cases n connId length buf rx with ⟨r, -, heq⟩ | ⟨t, ht, -, -, heq⟩
    · obtain ⟨rfl, rfl, rfl⟩ : _ ∧ _ ∧ _ := by simpa only [heq, Prod.mk.injEq] using hh
      exact ⟨hpolled rfl, genuine_of_nil rfl⟩
    · obtain ⟨rfl, rfl, rfl⟩ : _ ∧ _ ∧ _ := by simpa only [heq, Prod.mk.injEq] using hh
      refine ⟨?_, genuine_of_nil rfl⟩
      have htset : Settled t := by
        unfold Settled
        rw [ht, (takePayload_httpd _ _ _).1]
        exact hset'
      have htread : unread t = unread (netPoll n rx).1 := by
        rw [ht, unread, takePayload_sock]
        rfl
      rw [record_of_plain rfl rfl, List.foldl_append, receipts_kick]
      exact (hpolled rfl).congr hset ((unread_kick htset).1.trans htread) rfl fun _ hb => hb
  | sockClose connId =>
    simp only [handle, handleSockClose, netKickClose] at hh
    split_ifs at hh
    · obtain ⟨rfl, rfl, rfl⟩ : _ ∧ _ ∧ _ := by simpa only [Prod.mk.injEq] using hh
      exact ⟨Traced.of_empty hset (unread_of_zero rfl), genuine_of_nil rfl⟩
    · obtain ⟨rfl, rfl, rfl⟩ : _ ∧ _ ∧ _ := by simpa only [Prod.mk.injEq] using hh
      exact ⟨hpolled rfl, genuine_of_nil rfl⟩

/-! ## Runs -/

/-- **A read returns data of the accepted connection.**  In every run with unmixed steps, the bytes
that a `sock_recv` returns, made after a connection was accepted and before it has ended, are part
of the data of a segment that was received on that connection. -/
theorem recv_genuine {is : List Input} {os : List Outcome} {s s' : Net × Receipts} {i : Input}
    {o : Outcome} (hrun : Run receipted Unmixed (Net.init, {}) is os s) (hC : Unmixed s i)
    (hs : receipted s i = some (s', o)) : Genuine s i o := by
  have hinit : Traced Net.init {} := .of_empty rfl (unread_of_zero rfl)
  have htraced : Traced s.1 s.2 := by
    refine hrun.invariant (P := fun _ s => Traced s.1 s.2) ?_ hinit
    intro _ s i s' o h hC hs
    obtain ⟨hstep, hl⟩ := annotated_eq_some.mp hs
    rw [hl]
    exact (traced_step h hC hstep).1
  exact (traced_step htraced hC (annotated_eq_some.mp hs).1).2

/-! ## Two clients, one after the other -/

instance (s : Net × Receipts) (i : Input) : Decidable (Unmixed s i) :=
  decidable_of_iff
    ((polling i.request = true → ∀ b ∈ s.2.accepted, ∀ c ∈ frameCall s.1 i.rx,
        (deliveryOf c).isSome = true → s.2.conn c.slot = b ∧ FrameFits s.1 i.rx c.slot) ∧
      (asksAccept i.request = true → (netPoll s.1 i.rx).1.sock.connPending = true →
        0 < (netPoll s.1 i.rx).1.sock.rxLen →
        ∀ d ∈ (receiptsAfterPoll s i).delivered.getLast?,
          d.conn = (receiptsAfterPoll s i).connected ∧ d.fits = true))
    ⟨fun ⟨h1, h2⟩ => ⟨h1, h2⟩, fun ⟨h1, h2⟩ => ⟨h1, h2⟩⟩

/-- The two bytes are read. -/
theorem recv_genuine_twoBytes :
    ∃ os s s' o, Run receipted Unmixed (Net.init, {}) twoBytes os s ∧
      receipted s (Request.alone (.sockRecv 1 512)) = some (s', o) ∧ s.2.accepted = some 1 ∧
      returnedIn o = [65, 66] ∧ Genuine s (Request.alone (.sockRecv 1 512)) o := by
  have hexec : ((exec (guarded receipted Unmixed) (Net.init, {}) twoBytes).bind fun r =>
      (receipted r.1 (Request.alone (.sockRecv 1 512))).map fun q =>
        decide (Unmixed r.1 (Request.alone (.sockRecv 1 512)) ∧ r.1.2.accepted = some 1 ∧
          returnedIn q.2 = [65, 66])) = some true := by decide +kernel
  obtain ⟨⟨s, os⟩, hr, hnext⟩ := Option.bind_eq_some_iff.mp hexec
  obtain ⟨⟨s', o⟩, hs, hval⟩ := Option.map_eq_some_iff.mp hnext
  obtain ⟨hC, hacc, hret⟩ := of_decide_eq_true hval
  have hrun := run_of_exec_guarded hr
  exact ⟨os, s, s', o, hrun, hs, hacc, hret, recv_genuine hrun hC hs⟩

/-- **The bytes of the first client are read as the second's**: the first resets its connection
before they are read, and the second is accepted. -/
theorem recv_stale :
    ∃ os s s' o, Run receipted Free (Net.init, {}) (twoBytes ++ secondClient) os s ∧
      receipted s (Request.alone (.sockRecv 1 512)) = some (s', o) ∧
      sequential false (os ++ [o]) = true ∧ s.2.accepted = some 2 ∧
      returnedIn o = [65, 66] ∧ ¬ Genuine s (Request.alone (.sockRecv 1 512)) o := by
  have hexec : ((exec receipted (Net.init, {}) (twoBytes ++ secondClient)).bind fun r =>
      (receipted r.1 (Request.alone (.sockRecv 1 512))).map fun q =>
        decide (sequential false (r.2 ++ [q.2]) = true ∧ r.1.2.accepted = some 2 ∧
          returnedIn q.2 = [65, 66] ∧ q.1.2.delivered.map Delivery.conn = [1])) = some true := by
    decide +kernel
  obtain ⟨⟨s, os⟩, hr, hnext⟩ := Option.bind_eq_some_iff.mp hexec
  obtain ⟨⟨s', o⟩, hs, hval⟩ := Option.map_eq_some_iff.mp hnext
  obtain ⟨hseq, hacc, hret, hconns⟩ := of_decide_eq_true hval
  refine ⟨os, s, s', o, run_of_exec hr, hs, hseq, hacc, hret, fun hgenuine => ?_⟩
  obtain ⟨d, hmem, hconn, -⟩ := hgenuine 2 hacc (by rw [hret]; simp)
  rw [← (annotated_eq_some.mp hs).2] at hmem
  have hone := List.mem_map_of_mem (f := Delivery.conn) hmem
  rw [hconns, hconn] at hone
  simp at hone

end Service
end EgosNet
