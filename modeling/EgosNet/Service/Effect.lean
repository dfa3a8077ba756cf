import EgosNet.Service.Resume
import EgosNet.Service.Served

/-!
# The effect of a frame and of a kick

`Service.Poll` says what a frame and a kick do to the bridge and to the sockets;
this file says what they do to the connections.  One run of `uip_process` has one
of four effects (`Effect`): nothing, a change that the application does not hear
of, a new connection, or a call of the application followed by what uIP makes of
its wishes (`Answer`).  Everything that is proved about the data that is sent goes
through these two relations.

They hold of every frame and every kick that does not make uIP send bytes which no
one gave it (`Orderly`).  That this never happens is `Service.Coherence`.
-/

namespace EgosNet
namespace Service

open Foundation Uip

/-! ## What uIP makes of a call -/

/-- What becomes of the connection after call `c`, with the bridge as `h`, and the
segments that go out for it. -/
inductive Answer (h : Httpd) (c : Call) : UipConn → List Segment → Prop
  | drop : c.resume = .drop → Answer h c c.conn []
  | ack : c.resume = .ack → Answer h c c.conn [⟨c.conn.sndNxt, TCP_ACK, []⟩]
  | finack : c.resume = .finack →
      Answer h c { c.conn with len := 1, tcpstateflags := .lastAck, nrtx := 0 }
        [⟨c.conn.sndNxt, TCP_FIN ||| TCP_ACK, []⟩]
  /-- A pending close. -/
  | close : c.resume = .appsend → h.closePending = true →
      Answer h c { c.conn with len := 1, tcpstateflags := .finWait1, nrtx := 0 }
        [⟨c.conn.sndNxt, TCP_FIN ||| TCP_ACK, []⟩]
  /-- Data, and nothing in flight. -/
  | fresh : c.resume = .appsend → h.closePending = false → offers c.flags h = true →
      0 < h.txLen → c.conn.len = 0 → 0 < c.conn.mss →
      Answer h c { c.conn with len := min h.txLen c.conn.mss, nrtx := 0 }
        [⟨c.conn.sndNxt, TCP_ACK ||| TCP_PSH, h.txBuf.load 0 (min h.txLen c.conn.mss)⟩]
  /-- Data, and some in flight. -/
  | again : c.resume = .appsend → h.closePending = false → offers c.flags h = true →
      c.conn.len ≠ 0 → c.conn.len ≤ h.txLen →
      Answer h c { c.conn with nrtx := 0 }
        [⟨c.conn.sndNxt, TCP_ACK ||| TCP_PSH, h.txBuf.load 0 c.conn.len⟩]
  /-- No data, or no room for it. -/
  | idle : c.resume = .appsend → h.closePending = false →
      (offers c.flags h = true → h.txLen = 0 ∨ c.conn.mss = 0 ∧ c.conn.len = 0) →
      Answer h c { c.conn with nrtx := 0 } (ackIf c.flags.newdata c.conn)

/-- What is offered is no less than what is in flight, and when nothing is offered
uIP has nothing left over from before. -/
structure Orderly (h : Httpd) (u : Stack) (i : Slot) : Prop where
  fits : h.txLen ≤ NET_BUF_SIZE
  inFlight : offers u.flags h = true → (u.conns i).len ≤ h.txLen
  slen : (offers u.flags h = true → h.txLen = 0) → u.slen = 0
  abort : u.flags.abort = false
  close : u.flags.close = false

/-- **Every call is answered in one of these ways.** -/
theorem answer_complete {h : Httpd} {u : Stack} {i : Slot} {k : Resume}
    (ho : k = .appsend → h.closePending = false → Orderly h u i) :
    ∃ c' segs, Answer h (callOf i u h k) c' segs ∧
      Leaves u (complete h (.appcall i u k)) i c' segs := by
  cases k with
  | drop => exact ⟨_, _, .drop rfl, complete_drop⟩
  | ack => exact ⟨_, _, .ack rfl, complete_ack⟩
  | finack => exact ⟨_, _, .finack rfl, complete_finack⟩
  | appsend =>
    cases hclose : h.closePending with
    | true => exact ⟨_, _, .close rfl hclose, complete_appsend_close hclose⟩
    | false =>
      obtain ⟨hfits, hflight, hslen, hab, hcl⟩ := ho rfl hclose
      cases hoff : offers u.flags h with
      | false =>
        exact ⟨_, _, .idle rfl hclose (by simp [callOf, hoff]),
          complete_appsend_idle hclose hab hcl (Or.inl hoff) (hslen (by simp [hoff]))⟩
      | true =>
        by_cases hzero : h.txLen = 0
        · exact ⟨_, _, .idle rfl hclose fun _ => Or.inl hzero,
            complete_appsend_idle hclose hab hcl (Or.inr hzero) (hslen fun _ => hzero)⟩
        · have hpos : 0 < h.txLen := Nat.pos_of_ne_zero hzero
          by_cases hlen : (u.conns i).len = 0
          · by_cases hmss : (u.conns i).mss = 0
            · exact ⟨_, _, .idle rfl hclose fun _ => Or.inr ⟨hmss, hlen⟩,
                complete_appsend_zero hclose hab hcl hoff hpos hfits hlen hmss⟩
            · have hmss' := Nat.pos_of_ne_zero hmss
              exact ⟨_, _, .fresh rfl hclose hoff hpos hlen hmss',
                (complete_appsend_fresh hclose hab hcl hoff hpos hfits hlen hmss').1⟩
          · exact ⟨_, _, .again rfl hclose hoff hlen (hflight hoff),
              complete_appsend_again hclose hab hcl hoff hfits hlen (hflight hoff)⟩

/-! ## What uIP makes of a packet or a poll -/

/-- The call answers a poll: the connection is in use and nothing is in flight. -/
structure PollStep (c : UipConn) (call : Call) : Prop where
  conn : call.conn = c
  established : c.tcpstateflags = .established
  len : c.len = 0
  flags : call.flags = { poll := true }
  resume : call.resume = .appsend

/-- The effect of one run of `uip_process` on the table `conns`: the table after it,
the call of the application and the events, the bridge being `h`. -/
inductive Effect (h : Httpd) (conns : Slot → UipConn) :
    (Slot → UipConn) → Option Call → List Event → Prop
  | nothing : Effect h conns conns none []
  | quiet {i : Slot} {c' : UipConn} {segs : List Segment} : QuietStep (conns i) c' →
      (∀ s ∈ segs, s.flags = TCP_ACK ∧ s.data = []) →
      Effect h conns (Function.update conns i c') none (segs.map (.segment i))
  | opened {i : Slot} {c' : UipConn} {s : Segment} : OpenStep (conns i) c' →
      s.flags = TCP_ACK ||| TCP_SYN → s.data = [] →
      Effect h conns (Function.update conns i c') none [.opened i, .segment i s]
  | call {c : Call} {c' : UipConn} {segs : List Segment} :
      CallStep (conns c.slot) c.conn c.flags c.resume ∨ PollStep (conns c.slot) c →
      c.closing = h.closePending → Answer h c c' segs →
      Effect h conns (Function.update conns c.slot c') (some c)
        (.call c :: segs.map (.segment c.slot))

/-- The calls that are observed. -/
theorem Effect.mem_call {h : Httpd} {conns conns' : Slot → UipConn} {call : Option Call}
    {ev : List Event} {c : Call} (heff : Effect h conns conns' call ev) (hc : c ∈ calls ev) :
    c ∈ call := by
  cases heff with
  | nothing => simp at hc
  | quiet _ _ => simp [calls, List.filterMap_map] at hc
  | opened _ _ _ => simp [calls] at hc
  | call _ _ _ =>
    simp only [calls, List.filterMap_cons, List.filterMap_map] at hc
    simp_all

theorem Leaves.conns_eq {u : Stack} {r : (Stack × Httpd) × List Event} {i : Slot} {c : UipConn}
    {segs : List Segment} (h : Leaves u r i c segs) :
    r.1.1.conns = Function.update u.conns i c := by
  funext j
  by_cases hj : j = i
  · rw [hj, Function.update_self, h.conn]
  · rw [Function.update_of_ne hj, h.conns j hj]

/-- The events of a call are the call and the segments. -/
theorem Leaves.events_eq {h : Httpd} {u : Stack} {i : Slot} {k : Resume} {c : UipConn}
    {segs : List Segment} (hl : Leaves u (complete h (.appcall i u k)) i c segs) :
    (complete h (.appcall i u k)).2 = .call (callOf i u h k) :: segs.map (.segment i) := by
  have hev : (complete h (.appcall i u k)).2 = .call (callOf i u h k) ::
      segments i (k.run (httpdAppcall u h).1 i) := rfl
  have hem : Service.emitted (segments i (k.run (httpdAppcall u h).1 i)) =
      segs.map fun s => (i, s) := hl.emitted
  rw [hev]
  refine congrArg _ ?_
  unfold segments at hem ⊢
  split_ifs at hem ⊢ with hpos
  · change [(i, segmentOf (k.run (httpdAppcall u h).1 i))] = _ at hem
    obtain ⟨s, rfl⟩ := List.length_eq_one_iff.mp
      (show segs.length = 1 by simpa using (congrArg List.length hem).symm)
    have hs : segmentOf (k.run (httpdAppcall u h).1 i) = s := by simpa using hem
    rw [hs]
    rfl
  · obtain rfl : segs = [] := by simpa [Service.emitted] using hem.symm
    rfl

theorem update_of_others {conns conns' : Slot → UipConn} {i : Slot}
    (h : ∀ j, j ≠ i → conns' j = conns j) : conns' = Function.update conns i (conns' i) := by
  funext j
  by_cases hj : j = i
  · rw [hj, Function.update_self]
  · rw [Function.update_of_ne hj, h j hj]

theorem effect_call {h : Httpd} {u₀ u : Stack} {i : Slot} {k : Resume}
    (hothers : ∀ j, j ≠ i → u.conns j = u₀.conns j)
    (hstep : CallStep (u₀.conns i) (u.conns i) u.flags k ∨ PollStep (u₀.conns i) (callOf i u h k))
    (ho : k = .appsend → h.closePending = false → Orderly h u i) :
    Effect h u₀.conns (complete h (.appcall i u k)).1.1.conns (some (callOf i u h k))
      (complete h (.appcall i u k)).2 := by
  obtain ⟨c', segs, hans, hleaves⟩ := answer_complete ho
  have hupd : Function.update u.conns i c' = Function.update u₀.conns i c' := by
    funext j
    by_cases hj : j = i
    · rw [hj, Function.update_self, Function.update_self]
    · rw [Function.update_of_ne hj, Function.update_of_ne hj, hothers j hj]
  rw [hleaves.conns_eq, hleaves.events_eq, hupd]
  exact Effect.call (c := callOf i u h k) hstep rfl hans

/-- **The effect of a packet.** -/
theorem effect_of_sound {h : Httpd} {u : Stack} {v : Verdict} (hs : Sound u v)
    (ho : ∀ i u', v = .appcall i u' .appsend → h.closePending = false → Orderly h u' i) :
    Effect h u.conns (complete h v).1.1.conns (callIn h v) (complete h v).2 := by
  cases hs with
  | done hc _ =>
    change Effect h u.conns _ none []
    rw [show (complete h (.done _)).1.1.conns = u.conns from hc]
    exact Effect.nothing
  | @quiet i u' honly hq hseg =>
    change Effect h u.conns u'.conns none (segments i u')
    rw [update_of_others honly.conns]
    rcases hseg with hlen | ⟨v, rfl⟩
    · rw [segments_of_zero hlen]
      have hnone : ∀ s ∈ ([] : List Segment), s.flags = TCP_ACK ∧ s.data = [] := by simp
      exact (Effect.quiet hq hnone :)
    · rw [segments_of_pos (v := tcpSendAck v i) (show 0 < UIP_IPTCPH_LEN by decide)]
      have hack : ∀ s ∈ [segmentOf (tcpSendAck v i)], s.flags = TCP_ACK ∧ s.data = [] := by
        simp [segmentOf_tcpSendAck]
      exact (Effect.quiet hq hack :)
  | @listen i u' hothers _ hopen _ hseg =>
    obtain ⟨v, rfl⟩ := hseg
    have hev : segments i (tcpSendSynack v i) = [.segment i (segmentOf (tcpSendSynack v i))] :=
      segments_of_pos (show 0 < UIP_IPTCPH_LEN + TCP_OPT_MSS_LEN.toNat by decide)
    change Effect h u.conns (tcpSendSynack v i).conns none (.opened i :: segments i _)
    rw [hev, update_of_others hothers]
    obtain ⟨hflags, hdata⟩ := segmentOf_tcpSendSynack v i
    exact Effect.opened hopen hflags hdata
  | @appcall i u' k honly hstep hslen =>
    exact effect_call honly.conns (Or.inl hstep) fun hk => ho i u' (hk ▸ rfl)

/-- The call that a frame leads to is one of the six. -/
theorem callStep_of_frameCall {n : Net} {rx : Rx} {c : Call} (h : frameCall n rx = some c) :
    CallStep (n.uip.conns c.slot) c.conn c.flags c.resume := by
  obtain ⟨i, u, k, -, hdef, rfl⟩ := frameCall_eq_some h
  have hsound := sound_uipProcessData (earthNetRecv n.uip rx)
  rw [hdef] at hsound
  cases hsound with
  | appcall _ hstep _ =>
    rw [earthNetRecv_conns] at hstep
    exact hstep

/-- After a call no connection is being set up. -/
theorem answer_not_synRcvd {h : Httpd} {c c' : UipConn} {k : Call} {segs : List Segment}
    (hstep : CallStep c k.conn k.flags k.resume ∨ PollStep c k) (hans : Answer h k c' segs) :
    c'.tcpstateflags ≠ .synRcvd := by
  have hconn : k.conn.tcpstateflags ≠ .synRcvd := by
    obtain ⟨slot, conn, flags, data, closing, resume⟩ := k
    rcases hstep with hstep | hpoll
    · cases hstep with
      | aborted hc => simp [show conn.tcpstateflags = _ from hc]
      | connected _ _ hc _ => simp [show conn.tcpstateflags = _ from hc]
      | established _ _ _ hc _ _ => simp [show conn.tcpstateflags = _ from hc]
      | fin _ _ _ hc _ _ => simp [show conn.tcpstateflags = _ from hc]
      | closed _ hc => simp [show conn.tcpstateflags = _ from hc]
      | finished _ hc => rcases hc with hc | hc <;> simp [show conn.tcpstateflags = _ from hc]
    · rw [hpoll.conn, hpoll.established]
      simp
  cases hans with
  | finack _ => simp
  | close _ _ => simp
  | _ => exact hconn

/-- Where `uip_process` goes on sending, the connection is not ending. -/
theorem flags_of_appsend {c c' : UipConn} {f : UipFlags} {k : Resume}
    (h : CallStep c c' f k) (hk : k = .appsend) : f.abort = false ∧ f.close = false := by
  cases h <;> simp_all

/-- **The effect of a frame.** -/
theorem effect_netPoll {n : Net} {rx : Rx} (hfits : n.httpd.txLen ≤ NET_BUF_SIZE)
    (hflight : ∀ c ∈ frameCall n rx, c.resume = .appsend → offers c.flags n.httpd = true →
      c.conn.len ≤ n.httpd.txLen) :
    Effect n.httpd n.uip.conns (netPoll n rx).1.uip.conns (frameCall n rx)
      (connEvents (netPoll n rx).2) := by
  rcases netPoll_cases n rx with ⟨-, hv, hu, hev⟩ | ⟨-, hv, n', hu, heq, hev⟩ |
    ⟨-, v, hv, hdef, heq⟩
  · rw [hu.conns, hev, frameCall, hv]
    exact Effect.nothing
  · rw [heq, syncSocketState_uip, hu.conns, hev.connEvents, frameCall, hv]
    exact Effect.nothing
  · have hsound : Sound (earthNetRecv n.uip rx) v := hdef ▸ sound_uipProcessData _
    have hcall : frameCall n rx = callIn n.httpd v := by rw [frameCall, hv]; rfl
    have heff := effect_of_sound (h := n.httpd) hsound fun i u' hv' hclose => by
      subst hv'
      obtain @⟨_, _, _⟩ | @⟨_, _, _⟩ | @⟨_, _, _⟩ | ⟨honly, hstep, hslen⟩ := hsound
      obtain ⟨hab, hcl⟩ := flags_of_appsend hstep rfl
      refine ⟨hfits, fun hoff => ?_, fun _ => hslen rfl, hab, hcl⟩
      exact hflight (callOf i u' n.httpd .appsend) (by rw [hcall]; rfl) rfl hoff
    rw [earthNetRecv_conns] at heff
    rw [heq, syncSocketState_uip, process_conns, connEvents_process, hcall]
    exact heff

/-- A poll that offers nothing finds nothing left over in uIP. -/
def Drained (n : Net) : Prop :=
  n.httpd.closePending = false → (n.httpd.txPending = true → n.httpd.txLen = 0) → n.uip.slen = 0

/-- **The effect of a kick.** -/
theorem effect_kick {n : Net} (hfits : n.httpd.txLen ≤ NET_BUF_SIZE) (hslen : Drained n) :
    Effect n.httpd n.uip.conns (kickActiveConnection n).1.uip.conns (kickCall n)
      (connEvents (kickActiveConnection n).2) := by
  rcases kick_cases n with ⟨-, hv, heq⟩ | ⟨-, hv, heq⟩ | ⟨-, i, -, hv, heq⟩
  · rw [heq, kickCall, hv]
    exact Effect.nothing
  · rw [heq, syncSocketState_uip, kickCall, hv]
    exact Effect.nothing
  · have hcall : kickCall n = callIn n.httpd (uipProcessPoll n.uip i) := by rw [kickCall, hv]; rfl
    have hev : connEvents (.polled i :: (process n (uipProcessPoll n.uip i)).2) =
        (complete n.httpd (uipProcessPoll n.uip i)).2 := connEvents_process n _
    rw [heq, syncSocketState_uip, process_conns, hev, hcall]
    rcases uipProcessPoll_cases n.uip i with ⟨u', hu, hc, -⟩ |
      ⟨u', hu, hc, -, hf, hs, -, hest, hlen⟩
    · rw [hu, show (complete n.httpd (.done u')).1.1.conns = n.uip.conns from hc]
      exact Effect.nothing
    · rw [hu]
      have hpoll : PollStep (n.uip.conns i) (callOf i u' n.httpd .appsend) :=
        ⟨congrFun hc i, hest, hlen, hf, rfl⟩
      refine effect_call (fun j _ => congrFun hc j) (Or.inr hpoll) fun _ hclose => ?_
      refine ⟨hfits, fun _ => ?_, fun hoff => ?_, by rw [hf], by rw [hf]⟩
      · rw [congrFun hc i, hlen]
        exact Nat.zero_le _
      · rw [hs]
        refine hslen hclose fun htx => hoff ?_
        simp [offers, hclose, htx, hf]

end Service
end EgosNet
