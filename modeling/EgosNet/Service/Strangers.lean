import EgosNet.Service.Answers

/-!
# What a stranger can do to the service

Anybody on the network can send a `SYN`.  Two things in `found_listen` make that enough to keep
everybody else out, and each has an exact description.

The first is the loop that reads the options.  Its position is an 8-bit variable, so the length of
an option can lead it back, and if it comes to a position that leads back to itself it does not end.
`hangs_iff` says that the service fails to come back from a request exactly when such a `SYN` has
arrived, and nothing else makes it hang: not a segment of a connection, not the call of the
application, not a poll.

The second is that uIP has a timer for connections, and the service never runs it.  A connection
that is waiting for its peer is left as it is until a packet of that peer arrives, in every run and
whatever else happens (`waits_for_peer`).  So forty handshakes that nobody completes are the end of
it: there is no slot left, and there never will be one (`table_exhausted`).
-/

namespace EgosNet
namespace Service

open Foundation Uip

/-! ## Options in a circle -/

/-- A `SYN` whose options lead in a circle, where there is room for a connection. -/
structure Endlessly (u : Stack) (len : ℕ) : Prop extends TcpPacket u.buf len where
  stranger : ∀ j, isFor u.buf (u.conns j) = false
  knocks : Knocks u.listenports u.buf
  room : ∃ j, Replaceable u.conns j
  circle : ∃ c, Relation.ReflTransGen (LeadsTo u.buf) 0 c ∧ Relation.TransGen (LeadsTo u.buf) c c

section Hang

variable {u : Stack} {n : Net} {i : Slot}

/-- uIP does not come back. -/
def Hung (u : Stack) : Prop := u.fault = some .hang

theorem hung_of_fault {v : Stack} (h : v.fault = u.fault) : Hung v ↔ Hung u := by
  unfold Hung
  rw [h]

/-- Another fault is not this one. -/
theorem hung_raise {f : Fault} (hf : f ≠ .hang) : Hung (u.raise f) ↔ Hung u := by
  unfold Hung Stack.raise
  cases u.fault <;> simp [hf]

/-- **When a new connection does.**  A stack with another fault has come to its end already. -/
theorem hung_foundListen (h : ¬ Hung u) : Hung (stackOf (foundListen u)) ↔
    u.fault = none ∧ (∃ j, Replaceable u.conns j) ∧ synOptions u.buf = none := by
  by_cases hroom : ∃ j, Replaceable u.conns j
  · obtain ⟨i, hi, -⟩ := freeSlot_preferred hroom
    cases hmss : synOptions u.buf with
    | none =>
      have hverdict : foundListen u = .done (u.raise .hang) := by
        simp only [synOptions, optionBytes] at hmss
        simp only [foundListen, hi]
        rw [hmss]
      rw [hverdict]
      unfold Hung at h ⊢
      cases hfault : u.fault <;> simp_all [stackOf, Stack.raise]
    | some mss =>
      rw [foundListen_eq hi hmss]
      exact iff_of_false h (by simp)
  · have hverdict : foundListen u = .done (drop u) := by
      simp only [foundListen, freeSlot_eq_none (fun j hj => hroom ⟨j, hj⟩)]
    rw [hverdict]
    exact iff_of_false h fun hall => hroom hall.2.1

/-- **When a TCP segment makes uIP hang.** -/
theorem hung_tcpInput (h : ¬ Hung u) : Hung (stackOf (tcpInput u)) ↔
    u.fault = none ∧ uipTcpchksum u.buf = ⟨0xff, 0xff⟩ ∧
      (∀ j, isFor u.buf (u.conns j) = false) ∧ Knocks u.listenports u.buf ∧
      (∃ j, Replaceable u.conns j) ∧ synOptions u.buf = none := by
  have hcalm {v : Stack} (hv : v.fault = u.fault) : ¬ Hung v := (hung_of_fault hv).not.mpr h
  by_cases hsum : uipTcpchksum u.buf = ⟨0xff, 0xff⟩
  · by_cases hnone : ∀ j, isFor u.buf (u.conns j) = false
    · by_cases hknock : Knocks u.listenports u.buf
      · rw [tcpInput_foundListen hsum hnone hknock, hung_foundListen h]
        simp only [hsum, hnone, hknock, implies_true, true_and]
      · rw [tcpInput_reset hsum hnone hknock]
        exact iff_of_false (hcalm (reset_fault u)) fun hall => hknock hall.2.2.2.1
    · refine iff_of_false ?_ fun hall => hnone hall.2.2.1
      cases hfind : (List.finRange 40).find? fun i => isFor u.buf (u.conns i) with
      | none =>
        have hmiss := List.find?_eq_none.mp hfind
        exact absurd (fun j => by simpa using hmiss j (List.mem_finRange j)) hnone
      | some i =>
        have hverdict : tcpInput u = found u i := by
          unfold tcpInput
          rw [if_neg (not_not.mpr hsum), hfind]
        rw [hverdict]
        exact hcalm (found_fault u i)
  · have hverdict : tcpInput u = .done (drop u) := if_pos hsum
    rw [hverdict]
    exact iff_of_false (hcalm rfl) fun hall => hsum hall.2.1

/-- **When a packet does.** -/
theorem hung_uipProcessData (h : ¬ Hung u) (hfits : u.fault = none → u.len ≤ uipBufLen)
    (htype : word16 u.buf ArpHdr.type = HTONS UIP_ETHTYPE_IP) :
    Hung (stackOf (uipProcessData u)) ↔ u.fault = none ∧ Endlessly u u.len := by
  have hcalm {v : Stack} (hv : v.fault = u.fault) : ¬ Hung v := (hung_of_fault hv).not.mpr h
  by_cases hip : IpPacket u.buf u.len UIP_PROTO_TCP
  · rw [uipProcessData_tcp hip, hung_tcpInput (u := trimmed u) h]
    constructor
    · rintro ⟨hfault, hsum, hnone, hknock, hroom, hmss⟩
      exact ⟨hfault, ⟨hip, hsum⟩, hnone, hknock, hroom, synOptions_eq_none_iff.mp hmss⟩
    · rintro ⟨hfault, hend⟩
      exact ⟨hfault, hend.tcpchksum, hend.stranger, hend.knocks, hend.room,
        synOptions_eq_none_iff.mpr hend.circle⟩
  · refine iff_of_false ?_ fun hend => hip hend.2.toIpPacket
    simp only [uipProcessData]
    generalize hck : uipIpchksum u.buf = sum
    split_ifs with hvhl hlen hoff hdest hsum htcp hicmp
    · exact hcalm rfl
    · exact hcalm rfl
    · exact hcalm rfl
    · exact hcalm rfl
    · show ¬ Hung (stackOf (tcpInput (trimmed u)))
      rw [hung_tcpInput (u := trimmed u) h]
      rintro ⟨hfault, -⟩
      rw [not_or, not_not, not_not] at hoff
      exact hip ⟨hfits hfault, htype, not_not.mp hvhl, hlen, hoff, not_not.mp hdest,
        hck.trans (not_not.mp hsum), htcp⟩
    · exact hcalm ((icmpEcho_fault _).trans rfl)
    · exact hcalm rfl
    · exact hcalm rfl

/-! ### Nothing else hangs -/

theorem hung_httpdAppcall (u : Stack) (h : Httpd) : Hung (httpdAppcall u h).1 ↔ Hung u := by
  rw [httpdAppcall_fst]
  split_ifs
  · exact hung_of_fault rfl
  · unfold uipSend
    dsimp only
    split_ifs
    · exact hung_of_fault rfl
    · exact hung_raise (u := u) (f := .overrun) (by decide)
    · exact Iff.rfl
  · exact Iff.rfl

/-- The application and what follows it. -/
theorem hung_complete (h : Httpd) (v : Verdict) :
    Hung (complete h v).1.1 ↔ Hung (stackOf v) := by
  cases v with
  | done u => exact Iff.rfl
  | quiet i u => exact Iff.rfl
  | listen i u => exact Iff.rfl
  | appcall i u k =>
    refine (hung_of_fault ?_).trans (hung_httpdAppcall u h)
    show (k.run (httpdAppcall u h).1 i).fault = _
    cases k with
    | appsend => exact appsend_fault _ i
    | drop => rfl
    | finack => rfl
    | ack => rfl

theorem hung_earthNetSend (n : Net) (length : ℤ) (packet : Mem) :
    Hung (earthNetSend n length packet).1.uip ↔ Hung n.uip := by
  unfold earthNetSend
  split_ifs
  · exact Iff.rfl
  · exact hung_raise (by decide)

theorem hung_process (n : Net) (v : Verdict) :
    Hung (process n v).1.uip ↔ Hung (stackOf v) := by
  refine Iff.trans ?_ (hung_complete n.httpd v)
  simp only [process, sendPacket]
  split_ifs
  · exact (hung_earthNetSend _ _ _).trans (hung_of_fault (uipArpOut_frame _ _).2.2.2)
  · exact Iff.rfl

theorem hung_kick (n : Net) : Hung (kickActiveConnection n).1.uip ↔ Hung n.uip := by
  rcases kick_cases n with ⟨-, -, heq⟩ | ⟨-, -, heq⟩ | ⟨-, i, -, -, heq⟩
  · rw [heq]
  · rw [heq, syncSocketState_uip]
  · rw [heq, syncSocketState_uip, hung_process]
    simp only [uipProcessPoll]
    split_ifs <;> exact hung_of_fault rfl

theorem hung_earthNetRecv (u : Stack) (rx : Rx) : Hung (earthNetRecv u rx) ↔ Hung u := by
  have hassertion : Hung (u.raise .assertion) ↔ Hung u := hung_raise (by decide)
  simp only [earthNetRecv]
  split_ifs
  · exact Iff.rfl
  · exact hassertion
  · exact hung_raise (u := u) (f := .overrun) (by decide)
  · exact (hung_raise (u := u.raise .assertion) (f := .overrun) (by decide)).trans hassertion

/-- A frame that is too long is a fault of its own. -/
theorem earthNetRecv_fault {rx : Rx} (h : u.fault = none) :
    (earthNetRecv u rx).fault = none ↔ rx.frame.length ≤ uipBufLen := by
  refine ⟨length_le_of_fault, fun hfits => ?_⟩
  have hcard : rx.frame.length ≤ E1000_RX_BUF_SIZE := hfits.trans (by decide)
  simp only [earthNetRecv, if_pos hfits, if_pos hcard]
  exact h

/-- **When a frame makes the service hang.** -/
theorem hung_netPoll {rx : Rx} (h : n.uip.fault = none) : Hung (netPoll n rx).1.uip ↔
    rx.frame ≠ [] ∧ Endlessly (earthNetRecv n.uip rx) rx.frame.length := by
  have hcalm : ¬ Hung n.uip := by simp [Hung, h]
  have hrecv : ¬ Hung (earthNetRecv n.uip rx) := (hung_earthNetRecv n.uip rx).not.mpr hcalm
  by_cases hpos : rx.frame = []
  · refine iff_of_false ?_ fun hend => hend.1 hpos
    simp only [netPoll, if_pos hpos]
    exact hcalm
  · simp only [ne_eq, hpos, not_false_eq_true, true_and]
    by_cases hip : word16 (earthNetRecv n.uip rx).buf ArpHdr.type = HTONS UIP_ETHTYPE_IP
    · rw [netPoll_ip hpos hip rfl, syncSocketState_uip, hung_process,
        hung_uipProcessData hrecv (fun hfault => (earthNetRecv_fault h).mp hfault) hip]
      exact ⟨fun hend => hend.2, fun hend => ⟨(earthNetRecv_fault h).mpr hend.fits, hend⟩⟩
    · refine iff_of_false ?_ fun hend => hip hend.type
      simp only [netPoll, if_neg hpos, frameInput, if_neg hip, arpInput]
      rw [syncSocketState_uip]
      split_ifs
      · rw [hung_earthNetSend]
        exact (hung_of_fault (uipArpArpin_frame _ _).2.2.2).not.mpr hrecv
      · exact (hung_of_fault (uipArpArpin_frame _ _).2.2.2).not.mpr hrecv
      · exact hrecv

/-- A request hangs when its poll does. -/
theorem hung_handle {i : Input} (h : ¬ Hung n.uip) : Hung (handle n i).1.uip ↔
    polling i.request = true ∧ Hung (netPoll n i.rx).1.uip := by
  have hoverrun (m : Net) : Hung (m.raise .overrun).uip ↔ Hung m.uip := hung_raise (by decide)
  obtain ⟨request, rx⟩ := i
  cases request with
  | netSend length buf =>
    refine iff_of_false ?_ (by simp [polling])
    simp only [handle, handleNetSend]
    rwa [hung_earthNetSend]
  | netRecv =>
    refine iff_of_false ?_ (by simp [polling])
    simp only [handle, handleNetRecv]
    split_ifs
    · exact h
    · rwa [hoverrun]
  | sockListen port =>
    refine iff_of_false ?_ (by simp [polling])
    simp only [handle, handleSockListen]
    split_ifs
    · exact h
    · have hlisten (u : Stack) (port : Word16) : (uipListen u port).fault = u.fault := by
        unfold uipListen
        split <;> rfl
      exact (hung_of_fault (hlisten n.uip (HTONS port))).not.mpr h
  | sockAccept =>
    simp only [handle, handleSockAccept, polling, true_and]
    split_ifs <;> exact Iff.rfl
  | sockRecv connId length =>
    simp only [handle, handleSockRecv, polling, true_and]
    split_ifs
    all_goals first
      | exact Iff.rfl
      | exact hoverrun _
  | sockSend connId length buf =>
    simp only [polling, true_and]
    rcases handle_sockSend_cases n connId length buf rx with ⟨r, -, heq⟩ | ⟨t, ht, -, -, heq⟩
    · rw [heq]
    · rw [heq, hung_kick, ht]
      simp only [takePayload]
      split_ifs
      · exact Iff.rfl
      · exact hoverrun _
  | sockClose connId =>
    simp only [handle, handleSockClose, polling, true_and]
    split_ifs
    · exact hung_kick (askClose (netPoll n rx).1)
    · exact Iff.rfl

/-- **When the service hangs**: there is no other way than that such a `SYN` arrives. -/
theorem hangs_iff {n : Net} {i : Input} (h : n.uip.fault = none) :
    (handle n i).1.uip.fault = some .hang ↔
      polling i.request = true ∧ i.rx.frame ≠ [] ∧
        Endlessly (earthNetRecv n.uip i.rx) i.rx.frame.length := by
  have hcalm : ¬ Hung n.uip := by simp [Hung, h]
  exact (hung_handle hcalm).trans (and_congr_right fun _ => hung_netPoll h)

end Hang

/-- A filler, and an option of 255 bytes. -/
def circularSyn : PeerSegment :=
  { port := 1000, seqno := 100, flags := TCP_SYN, options := [TCP_OPT_NOOP, 3, 255, 0] }

/-- One such packet is enough. -/
theorem hangs_iff_circularSyn :
    (handle listening (Request.receiving .sockAccept circularSyn)).1.uip.fault = some .hang := by
  refine (hangs_iff rfl).mpr ⟨rfl, by decide +kernel, ⟨⟨?_, by decide +kernel⟩, by decide +kernel,
    ⟨by decide +kernel, 0, by decide +kernel⟩, ⟨0, .inl (by decide +kernel)⟩, 0, .refl, ?_⟩⟩
  · constructor <;> decide +kernel
  · set m := (earthNetRecv listening.uip (Request.receiving .sockAccept circularSyn).rx).buf
    have hback : (1 : Fin 256) + (m (Hdr.optdata + 1 + (1 : Fin 256))).toFin = 0 := by
      decide +kernel
    have hfirst : LeadsTo m 0 1 := .noop (by decide +kernel) (by decide +kernel)
    have hsecond : LeadsTo m 1 (1 + (m (Hdr.optdata + 1 + (1 : Fin 256))).toFin) :=
      .other (by decide +kernel) (by decide +kernel) (by decide +kernel) (by decide +kernel)
        (by decide +kernel)
    rw [hback] at hsecond
    exact .tail (.single hfirst) hsecond

/-! ## No timer -/

/-- The connection waits for its peer: it is not over, and uIP has nothing to send on it. -/
def AwaitsPeer (c : UipConn) : Prop :=
  c.tcpstateflags ≠ .closed ∧ c.tcpstateflags ≠ .timeWait ∧
    (c.tcpstateflags = .established → c.len ≠ 0)

instance (c : UipConn) : Decidable (AwaitsPeer c) := inferInstanceAs (Decidable (_ ∧ _ ∧ _))

/-- The packet comes from the peer of the connection. -/
def ByPeer (c : UipConn) (m : Mem) : Prop :=
  endpoints c = (word16 m Hdr.destport, word16 m Hdr.srcport, word32 m Hdr.srcipaddr)

instance (c : UipConn) (m : Mem) : Decidable (ByPeer c m) := inferInstanceAs (Decidable (_ = _))

section Waiting

variable {n₀ n n' : Net} {inp : Input} {o : Outcome} {is : List Input} {os : List Outcome} {m : Mem}
  {t t' : Slot → UipConn} {cs : List Call} {opens : List Slot} {i : Slot}

/-- Another packet does not concern it. -/
theorem FrameStep.awaitsPeer (h : FrameStep m t t' cs opens) (hi : AwaitsPeer (t i))
    (hm : ¬ ByPeer (t i) m) : t' i = t i ∧ (∀ k ∈ cs, k.slot ≠ i) ∧ i ∉ opens := by
  have hother : ∀ j, isFor m (t j) = true → i ≠ j := by
    rintro j hj rfl
    exact hm (isFor_iff.mp hj).2
  cases h with
  | same => exact ⟨rfl, by simp, by simp⟩
  | @quiet j hj _ => exact ⟨Function.update_of_ne (hother j hj) _ _, by simp, by simp⟩
  | @called k c hk _ _ _ =>
    refine ⟨Function.update_of_ne (hother _ hk) _ _, ?_, by simp⟩
    simpa using (hother _ hk).symm
  | @opened j c _ hfree _ =>
    have hne : i ≠ j := by
      rintro rfl
      exact hfree.elim hi.1 hi.2.1
    exact ⟨Function.update_of_ne hne _ _, by simp, by simpa using hne⟩

/-- Nor does a kick. -/
theorem KickStep.awaitsPeer (h : KickStep t t' cs) (hi : AwaitsPeer (t i)) :
    t' i = t i ∧ ∀ k ∈ cs, k.slot ≠ i := by
  cases h with
  | same => exact ⟨rfl, by simp⟩
  | @polled k c _ hest hlen _ =>
    have hne : i ≠ k.slot := by
      rintro rfl
      exact hi.2.2 hest hlen
    exact ⟨Function.update_of_ne hne _ _, by simpa using hne.symm⟩

/-- Nor a poll of the card, if no packet of the peer is found. -/
theorem CardStep.awaitsPeer {rx : Rx} (h : CardStep n rx t cs opens)
    (hi : AwaitsPeer (n.uip.conns i))
    (hm : rx.frame ≠ [] → ¬ ByPeer (n.uip.conns i) (earthNetRecv n.uip rx).buf) :
    t i = n.uip.conns i ∧ (∀ k ∈ cs, k.slot ≠ i) ∧ i ∉ opens := by
  cases h with
  | empty _ => exact ⟨rfl, by simp, by simp⟩
  | frame hne hframe => exact hframe.awaitsPeer hi (hm hne)

/-- What a request without a packet of the peer does to a connection that waits for it: nothing; and
it is not heard of. -/
structure Untouched (n n' : Net) (o : Outcome) (i : Slot) : Prop where
  conn : n'.uip.conns i = n.uip.conns i
  calls : ∀ k ∈ calls o.events, k.slot ≠ i
  openings : i ∉ openings o.events
  emitted : ∀ x ∈ emitted o.events, x.1 ≠ i

theorem untouched_step (hi : AwaitsPeer (n.uip.conns i))
    (hm : Bringing (fun m _ => ¬ ByPeer (n.uip.conns i) m) n inp)
    (hs : step n inp = some (n', o)) : Untouched n n' o i := by
  have hemitted : ∀ x ∈ Service.emitted o.events, x.1 ≠ i := by
    rintro x hx rfl
    obtain ⟨hp, hsends⟩ := emitted_step hs hx
    obtain ⟨hconn, -, hopens⟩ := (cardStep_netPoll n inp.rx).awaitsPeer hi (hm hp)
    rw [hconn] at hsends
    rcases hsends with ⟨hne, hfor | hopen⟩ | ⟨hest, hlen⟩
    · exact hm hp hne (isFor_iff.mp hfor).2
    · exact hopens hopen
    · exact hi.2.2 hest hlen
  cases tableStep_step hs with
  | idle hsame hcalls hopens =>
    exact ⟨congrFun hsame i, by simp [hcalls], by simp [hopens], hemitted⟩
  | @served t cs cs' hp hcard hkick hcalls hopens =>
    obtain ⟨ht, hcs, hnot⟩ := hcard.awaitsPeer hi (hm hp)
    rw [← ht] at hi
    obtain ⟨ht', hcs'⟩ := hkick.awaitsPeer hi
    refine ⟨ht'.trans ht, fun k hk => ?_, by rwa [hopens], hemitted⟩
    rw [hcalls] at hk
    exact (List.mem_append.mp hk).elim (hcs k) (hcs' k)

/-- **A connection that waits for its peer is left alone** until a packet of that peer arrives:
there is no retransmission, and it is never given up. -/
theorem waits_for_peer (h : AwaitsPeer (n₀.uip.conns i))
    (hrun : Run step (Bringing fun m _ => ¬ ByPeer (n₀.uip.conns i) m) n₀ is os n) :
    n.uip.conns i = n₀.uip.conns i ∧
      ∀ o ∈ os, (∀ k ∈ calls o.events, k.slot ≠ i) ∧ ∀ x ∈ emitted o.events, x.1 ≠ i := by
  refine hrun.invariant (P := fun os (n : Net) => n.uip.conns i = n₀.uip.conns i ∧
    ∀ o ∈ os, (∀ k ∈ calls o.events, k.slot ≠ i) ∧ ∀ x ∈ emitted o.events, x.1 ≠ i) ?_
    ⟨rfl, by simp⟩
  rintro os n inp n' o ⟨hn, hos⟩ hm hs
  rw [← hn] at h hm ⊢
  have hstep := untouched_step h hm hs
  refine ⟨hstep.conn, fun o' ho' => ?_⟩
  rcases List.mem_append.mp ho' with ho' | ho'
  · exact hos o' ho'
  · rw [List.mem_singleton.mp ho']
    exact ⟨hstep.calls, hstep.emitted⟩

/-- **A table that is full of such connections stays as it is**, whoever else asks for a connection,
and however often: no connection is opened, the application is not called, and no connection
sends. -/
theorem table_exhausted (h : ∀ i, AwaitsPeer (n₀.uip.conns i))
    (hrun : Run step (Bringing fun m _ => ∀ i, ¬ ByPeer (n₀.uip.conns i) m) n₀ is os n) :
    n.uip.conns = n₀.uip.conns ∧
      ∀ o ∈ os, calls o.events = [] ∧ openings o.events = [] ∧ emitted o.events = [] := by
  refine hrun.invariant (P := fun os (n : Net) => n.uip.conns = n₀.uip.conns ∧
    ∀ o ∈ os, calls o.events = [] ∧ openings o.events = [] ∧ emitted o.events = []) ?_
    ⟨rfl, by simp⟩
  rintro os n inp n' o ⟨hn, hos⟩ hm hs
  rw [← hn] at h hm ⊢
  have hstep := fun i => untouched_step (h i) (fun hp hne => hm hp hne i) hs
  refine ⟨funext fun i => (hstep i).conn, fun o' ho' => ?_⟩
  rcases List.mem_append.mp ho' with ho' | ho'
  · exact hos o' ho'
  · rw [List.mem_singleton.mp ho']
    refine ⟨?_, ?_, ?_⟩
    · exact List.eq_nil_iff_forall_not_mem.mpr fun k hk => (hstep k.slot).calls k hk rfl
    · exact List.eq_nil_iff_forall_not_mem.mpr fun i hi => (hstep i).openings hi
    · exact List.eq_nil_iff_forall_not_mem.mpr fun x hx => (hstep x.1).emitted x hx rfl

end Waiting

/-- Nothing arrives, and then another client. -/
def otherClient : List Input := ⟨.sockAccept, {}⟩ :: connect 2000 100

/-- A handshake that is never completed is there for good: other clients come and go. -/
theorem waits_for_peer_halfOpen : ∃ os₀ n₀ os n,
    Run step Free Net.init [listen80, Request.receiving .sockAccept (.syn 1000 100)] os₀ n₀ ∧
      Run step (Bringing fun m _ => ¬ ByPeer (n₀.uip.conns 0) m) n₀ otherClient os n ∧
      (callsOf os).length = 1 ∧ (n₀.uip.conns 0).tcpstateflags = .synRcvd ∧
      n.uip.conns 0 = n₀.uip.conns 0 ∧
      ∀ o ∈ os, (∀ k ∈ calls o.events, k.slot ≠ 0) ∧ ∀ x ∈ emitted o.events, x.1 ≠ 0 := by
  have hexec : ((exec step Net.init [listen80, Request.receiving .sockAccept (.syn 1000 100)]).bind
      fun r => (exec (guarded step (Bringing fun m _ => ¬ ByPeer (r.1.uip.conns 0) m)) r.1
        otherClient).map fun s =>
          ((callsOf s.2).length, (r.1.uip.conns 0).tcpstateflags)) = some (1, .synRcvd) := by
    decide +kernel
  obtain ⟨⟨n₀, os₀⟩, hr, hnext⟩ := Option.bind_eq_some_iff.mp hexec
  obtain ⟨⟨n, os⟩, hs, heq⟩ := Option.map_eq_some_iff.mp hnext
  obtain ⟨hlen, hstate⟩ := Prod.mk.inj heq
  replace hstate : (n₀.uip.conns 0).tcpstateflags = .synRcvd := hstate
  have hawaits : AwaitsPeer (n₀.uip.conns 0) := by simp [AwaitsPeer, hstate]
  have hrun := run_of_exec_guarded hs
  exact ⟨os₀, n₀, os, n, run_of_exec hr, hrun, hlen, hstate, waits_for_peer hawaits hrun⟩

/-- Forty clients that never complete their handshakes. -/
def flood : List Input :=
  listen80 :: (List.range 40).map fun k => Request.receiving .sockAccept (.syn (1000 + k) 100)

/-- The next one is not heard any more. -/
theorem table_exhausted_flood : ∃ os₀ n₀ os n, Run step Free Net.init flood os₀ n₀ ∧
    Run step (Bringing fun m _ => ∀ i, ¬ ByPeer (n₀.uip.conns i) m) n₀ otherClient os n ∧
    n.uip.conns = n₀.uip.conns ∧
    ∀ o ∈ os, calls o.events = [] ∧ openings o.events = [] ∧ emitted o.events = [] := by
  have hexec : ((exec step Net.init flood).bind fun r =>
      (exec (guarded step (Bringing fun m _ => ∀ i, ¬ ByPeer (r.1.uip.conns i) m)) r.1
        otherClient).map fun _ => decide (∀ i, AwaitsPeer (r.1.uip.conns i))) =
      some true := by decide +kernel
  obtain ⟨⟨n₀, os₀⟩, hr, hnext⟩ := Option.bind_eq_some_iff.mp hexec
  obtain ⟨⟨n, os⟩, hs, hawaits⟩ := Option.map_eq_some_iff.mp hnext
  have hrun := run_of_exec_guarded hs
  exact ⟨os₀, n₀, os, n, run_of_exec hr, hrun,
    table_exhausted (of_decide_eq_true hawaits) hrun⟩

end Service
end EgosNet
