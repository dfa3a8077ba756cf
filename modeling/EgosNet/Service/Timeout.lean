import EgosNet.Service.StopAndWait
import EgosNet.Service.Strangers
import EgosNet.Uip.Timer

/-!
# What the timer would do

The service never calls `uip_periodic`, and `waits_for_peer` says what comes of that.  The function
is there, though, and it is the remedy: `given_up` says that in every state that the service
reaches, every connection that waits for its peer would be closed after a number of calls that can
be computed from it, and is never more than 501.

It takes two facts about the connections of the service, which hold because nothing else ever
changes `nrtx`: no attempt has been made to send anything again, and where something should be
outstanding, something is (`Pending`).

`resent_in_flight` is about the segment that then goes out in `ESTABLISHED`.  uIP keeps no copy, so
the application has to supply the payload once more; the bridge does, out of the buffer that
`stop_and_wait` is about.  In every run in which that theorem protects the buffer, each attempt has
the number, the flags and the data of the segment in flight, and it is valid.
-/

namespace EgosNet
namespace Service

open Foundation Uip

/-! ## The timer and the application -/

/-- `uip_process(UIP_TIMER)`, with the application. -/
def completeTimer (h : Httpd) (i : Slot) : TimerVerdict → Stack × Httpd
  | .done u => (u, h)
  | .appcall u k =>
    let (u', h') := httpdAppcall u h
    (k.run u' i, h')

/-- `uip_periodic`. -/
def uipPeriodic (i : Slot) (s : Stack × Httpd) : Stack × Httpd :=
  completeTimer s.2 i (uipProcessTimer s.1 i)

section Periodic

variable {s : Stack × Httpd} {i : Slot} {u : Stack} {h : Httpd}

/-- The application is asked for data only when nothing is outstanding. -/
theorem uipProcessTimer_appsend {v : Stack} (hv : uipProcessTimer u i = .appcall v .appsend) :
    (u.conns i).tcpstateflags = .established ∧ (u.conns i).len = 0 := by
  unfold uipProcessTimer at hv
  dsimp only at hv
  by_cases hlen : (u.conns i).len = 0
  · rw [if_neg (not_not.mpr hlen)] at hv
    split_ifs at hv with hwait hopen hest
    exact ⟨hest, hlen⟩
  · rw [if_pos hlen] at hv
    split_ifs at hv
    · simp at hv
    · unfold retransmit at hv
      split at hv <;> simp at hv

/-- **`uip_periodic` does to the connection what the automaton does.** -/
theorem uipPeriodic_conns
    (h : (s.1.conns i).tcpstateflags = .established → (s.1.conns i).len ≠ 0) :
    (uipPeriodic i s).1.conns = Function.update s.1.conns i (tick (s.1.conns i)) := by
  have hconns := uipProcessTimer_conns s.1 i
  have hasks := @uipProcessTimer_appsend i s.1
  unfold uipPeriodic
  generalize uipProcessTimer s.1 i = v at hconns hasks
  cases v with
  | done u => exact hconns
  | appcall u k =>
    show (k.run (httpdAppcall u s.2).1 i).conns = _
    have happ : (httpdAppcall u s.2).1.conns = Function.update s.1.conns i (tick (s.1.conns i)) :=
      (httpdAppcall_conns u s.2).1.trans hconns
    cases k with
    | nodata => exact happ
    | apprexmit => exact (apprexmit_conns _ i).trans happ
    | appsend =>
      obtain ⟨hest, hlen⟩ := hasks rfl
      exact absurd hlen (h hest)

/-- And so it does again and again. -/
theorem uipPeriodic_iterate (h : Timed (s.1.conns i)) (k : ℕ) :
    ((uipPeriodic i)^[k] s).1.conns i = tick^[k] (s.1.conns i) := by
  have htimed (k : ℕ) : Timed (tick^[k] (s.1.conns i)) := by
    induction k with
    | zero => exact h
    | succ k ih =>
      rw [Function.iterate_succ_apply']
      exact (lifetime_tick ih).1
  induction k with
  | zero => rfl
  | succ k ih =>
    have hlen : ((uipPeriodic i)^[k] s).1.conns i = tick^[k] (s.1.conns i) →
        (((uipPeriodic i)^[k] s).1.conns i).tcpstateflags = .established →
          (((uipPeriodic i)^[k] s).1.conns i).len ≠ 0 := by
      intro heq hest
      rw [heq] at hest ⊢
      exact (htimed k (by rw [hest]; rfl)).1
    rw [Function.iterate_succ_apply', Function.iterate_succ_apply', uipPeriodic_conns (hlen ih),
      Function.update_self, ih]

end Periodic

/-- What is closed stays closed. -/
theorem uipPeriodic_closed {s : Stack × Httpd} {i : Slot}
    (h : (s.1.conns i).tcpstateflags = .closed) :
    ((uipPeriodic i s).1.conns i).tcpstateflags = .closed := by
  rw [uipPeriodic_conns fun hest => absurd (h.symm.trans hest) (by simp), Function.update_self]
  unfold tick
  rw [h]
  exact h

/-! ## The connections of the service -/

theorem untimed_opened {m : Mem} {c c' : UipConn} (h : Opened m c c') : Untimed c' := by
  cases h <;> exact ⟨rfl, fun _ => Nat.one_ne_zero⟩

theorem untimed_update {t : Slot → UipConn} (ht : ∀ i, Untimed (t i)) {i : Slot} {c : UipConn}
    (hc : Untimed c) : ∀ j, Untimed (Function.update t i c j) := by
  intro j
  by_cases hj : j = i
  · rw [hj, Function.update_self]
    exact hc
  · rw [Function.update_of_ne hj]
    exact ht j

/-- **So it is in every state of the service.** -/
theorem maintained_untimed : Maintained fun t => ∀ i, Untimed (t i) := by
  constructor
  · intro m t t' cs opens ht hs
    cases hs with
    | same => exact ht
    | @quiet i _ _ => exact untimed_update ht ((ht i).receive _)
    | @called k c _ hcall _ ha =>
      refine untimed_update ht (((ht k.slot).receive _).answered ha fun happ => ?_)
      have hmoves := moves_receive (headerOf m) (t k.slot)
      rw [hcall, happ] at hmoves
      exact hmoves.appsend
    | opened _ _ ho => exact untimed_update ht (untimed_opened ho)
  · intro t t' cs ht hs
    cases hs with
    | same => exact ht
    | @polled k c _ hest _ ha => exact untimed_update ht ((ht k.slot).answered ha fun _ => hest)

theorem untimed_init (i : Slot) : Untimed (Net.init.uip.conns i) := ⟨rfl, pending_of_state rfl⟩

/-- What waits for its peer is what the timer runs for. -/
theorem timed_of_awaitsPeer {c : UipConn} (h : Untimed c) (hawaits : AwaitsPeer c) : Timed c := by
  intro hs
  refine ⟨?_, by rw [h.nrtx]; exact Nat.zero_le _⟩
  cases hst : c.tcpstateflags with
  | established => exact hawaits.2.2 hst
  | closed | timeWait | finWait2 => simp [hst, TcpState.sending] at hs
  | _ => exact h.pending (by rw [hst]; rfl)

/-- **No connection would wait for ever**: in every state of every run, one that waits for its peer
would be closed after `lifetime` calls of the timer, and not before; and in the meantime it would
have sent again what is outstanding as often as uIP ever does.  What counts as sending again is what
the code does then. -/
theorem given_up {C : Net → Input → Prop} {is : List Input} {os : List Outcome} {n : Net}
    (hrun : Run step C Net.init is os n) {i : Slot} (h : AwaitsPeer (n.uip.conns i)) :
    (∀ k, (((uipPeriodic i)^[k] (n.uip, n.httpd)).1.conns i).tcpstateflags = .closed ↔
        lifetime (n.uip.conns i) ≤ k) ∧
      lifetime (n.uip.conns i) ≤ 501 ∧
      ((List.range (lifetime (n.uip.conns i))).countP fun k =>
          resends (((uipPeriodic i)^[k] (n.uip, n.httpd)).1.conns i)) =
        (if (n.uip.conns i).tcpstateflags = .finWait2 then 0
        else maxRtx (n.uip.conns i).tcpstateflags) ∧
      ∀ k, resends (((uipPeriodic i)^[k] (n.uip, n.httpd)).1.conns i) = true ↔
        SendsAgain i (((uipPeriodic i)^[k] (n.uip, n.httpd)).1.conns i)
          (uipProcessTimer ((uipPeriodic i)^[k] (n.uip, n.httpd)).1 i) := by
  have huntimed := maintained_untimed.run untimed_init hrun i
  have htimed := timed_of_awaitsPeer huntimed h
  have hiter (k : ℕ) := uipPeriodic_iterate (s := (n.uip, n.httpd)) htimed k
  refine ⟨fun k => ?_, lifetime_le htimed, ?_, fun _ => resends_iff⟩
  · rw [hiter]
    exact closed_iff_lifetime htimed k
  · simp only [hiter]
    rw [count_resends htimed]
    obtain ⟨hclosed, htime, -⟩ := h
    unfold triesLeft
    rw [huntimed.nrtx]
    cases hst : (n.uip.conns i).tcpstateflags <;> simp_all [TcpState.sending]

/-- A handshake that is never completed would be given up after 102 calls. -/
theorem given_up_halfOpen : ∃ os n,
    Run step Free Net.init [listen80, Request.receiving .sockAccept (.syn 1000 100)] os n ∧
      (∀ k, (((uipPeriodic 0)^[k] (n.uip, n.httpd)).1.conns 0).tcpstateflags = .closed ↔
        102 ≤ k) ∧
      ((List.range 102).countP fun k =>
        resends (((uipPeriodic 0)^[k] (n.uip, n.httpd)).1.conns 0)) = 5 := by
  have hexec : (exec step Net.init
      [listen80, Request.receiving .sockAccept (.syn 1000 100)]).map (fun r =>
        ((r.1.uip.conns 0).tcpstateflags, lifetime (r.1.uip.conns 0))) = some (.synRcvd, 102) := by
    decide +kernel
  obtain ⟨⟨n, os⟩, hr, heq⟩ := Option.map_eq_some_iff.mp hexec
  obtain ⟨hstate, hlife⟩ := Prod.mk.inj heq
  replace hstate : (n.uip.conns 0).tcpstateflags = .synRcvd := hstate
  replace hlife : lifetime (n.uip.conns 0) = 102 := hlife
  have hawaits : AwaitsPeer (n.uip.conns 0) := by simp [AwaitsPeer, hstate]
  obtain ⟨hclosed, -, hcount, -⟩ := given_up (run_of_exec hr) hawaits
  rw [hlife] at hcount
  refine ⟨os, n, run_of_exec hr, fun k => by rw [hclosed, hlife], ?_⟩
  rw [hcount, hstate]
  rfl

/-! ## What is sent again -/

section Rexmit

variable {u : Stack} {h : Httpd} {i : Slot}

/-- The timer asks the application for what is outstanding. -/
theorem uipProcessTimer_rexmit (hest : (u.conns i).tcpstateflags = .established)
    (hr : resends (u.conns i) = true) : ∃ v, uipProcessTimer u i = .appcall v .apprexmit ∧
      v.flags = { rexmit := true } ∧ v.slen = 0 ∧ v.fault = u.fault ∧
      (v.conns i).tcpstateflags = .established ∧ (v.conns i).len = (u.conns i).len ∧
      (v.conns i).sndNxt = (u.conns i).sndNxt := by
  obtain ⟨hs, hlen, htimer, hex⟩ := of_decide_eq_true hr
  have htick : tick (u.conns i) = { u.conns i with
      timer := backoff (u.conns i).nrtx, nrtx := (u.conns i).nrtx + 1 } := by
    rw [tick_sending hs hlen, countDown, if_pos htimer, if_neg hex]
  set w := u.cleared with hw
  have hself : (w.setConn i (tick (u.conns i))).conns i = tick (u.conns i) :=
    Stack.setConn_conns_self w i _
  have hstate : (tick (u.conns i)).tcpstateflags = .established := by rw [htick, ← hest]
  refine ⟨{ w.setConn i (tick (u.conns i)) with flags := { rexmit := true } }, ?_, rfl, rfl, rfl,
    ?_, ?_, ?_⟩
  · rw [uipProcessTimer_of_resends hr, retransmit, hself, hstate]
  · show ((w.setConn i (tick (u.conns i))).conns i).tcpstateflags = _
    rw [hself]
    exact hstate
  · show ((w.setConn i (tick (u.conns i))).conns i).len = _
    rw [hself, htick]
  · show ((w.setConn i (tick (u.conns i))).conns i).sndNxt = _
    rw [hself, htick]

/-- The connection is in use, and what it has outstanding is the beginning of what is pending. -/
structure Outstanding (s : Stack × Httpd) (i : Slot) (seg : Segment) : Prop where
  established : (s.1.conns i).tcpstateflags = .established
  len : (s.1.conns i).len ≠ 0
  closePending : s.2.closePending = false
  txPending : s.2.txPending = true
  txLen : s.2.txLen ≤ UIP_TCP_MSS
  covered : (s.1.conns i).len ≤ s.2.txLen
  seg : seg = ⟨(s.1.conns i).sndNxt, TCP_ACK ||| TCP_PSH, s.2.txBuf.load 0 (s.1.conns i).len⟩

/-- **A segment is sent again as it was**: the application has to supply it, and does. -/
theorem Outstanding.resent {s : Stack × Httpd} {seg : Segment} (ho : Outstanding s i seg)
    (hr : resends (s.1.conns i) = true) :
    Outstanding (uipPeriodic i s) i seg ∧ (uipPeriodic i s).1.fault = s.1.fault ∧
      TcpSegment (uipPeriodic i s).1.buf (uipPeriodic i s).1.len ∧
      segments i (uipPeriodic i s).1 = [.segment i seg] := by
  obtain ⟨u, h⟩ := s
  obtain ⟨hest, hlen, hclose, hpend, hfits, hcovered, hseg⟩ := ho
  dsimp only at hest hlen hclose hpend hfits hcovered hseg hr
  obtain ⟨v, hv, hflags, hslen, hfault, hvest, hvlen, hvnxt⟩ := uipProcessTimer_rexmit hest hr
  have hmss : UIP_TCP_MSS = 366 := rfl
  have hpos : 0 < (u.conns i).len := Nat.pos_of_ne_zero hlen
  have hoffers : offers v.flags h = true := by simp [offers, hclose, hpend, hflags]
  obtain ⟨hcalled, -, hc, -, -, hs, hb⟩ := httpdAppcall_offers (u := v) hclose hoffers
    (by omega) (show h.txLen ≤ 512 by omega)
  have hperiodic : uipPeriodic i (u, h) =
      (apprexmit (uipSend v h.txBuf h.txLen) i, (httpdAppcall v h).2) := by
    rw [← hcalled]
    unfold uipPeriodic
    rw [hv]
    rfl
  have hkeep : (httpdAppcall v h).2 = h := by
    obtain ⟨_, _, _, _, _, _, _, _, closePending⟩ := h
    rw [httpdAppcall_snd, hflags]
    dsimp only at hclose
    rw [hclose]
    rfl
  have hfault' : (uipSend v h.txBuf h.txLen).fault = u.fault := by
    rw [← hfault]
    unfold uipSend
    have hroom : UIP_IPTCPH_LEN + UIP_LLH_LEN + h.txLen % 65536 ≤ uipBufLen := by
      show 54 + _ ≤ 422
      omega
    rw [if_pos (by omega)]
    dsimp only
    rw [if_pos hroom]
    rfl
  rw [hperiodic, hkeep]
  generalize uipSend v h.txBuf h.txLen = w at hc hs hb hfault'
  have hwlen : (w.conns i).len = (u.conns i).len := by rw [hc, hvlen]
  have hdata := apprexmit_data (w := w) (i := i) (by omega) (by omega) (by
    show _ + 40 < _
    omega)
  rw [hwlen, hc, hvnxt, hb, Mem.load_store_take _ _ _ (by simpa using hcovered),
    Mem.load_take _ _ hcovered, ← hseg] at hdata
  refine ⟨⟨?_, ?_, hclose, hpend, hfits, ?_, ?_⟩, ?_, ?_, hdata⟩
  · show ((apprexmit w i).conns i).tcpstateflags = _
    rw [apprexmit_conns, hc, hvest]
  · show ((apprexmit w i).conns i).len ≠ 0
    rw [apprexmit_conns, hwlen]
    exact hlen
  · show ((apprexmit w i).conns i).len ≤ h.txLen
    rw [apprexmit_conns, hwlen]
    exact hcovered
  · show seg = ⟨((apprexmit w i).conns i).sndNxt, _, h.txBuf.load 0 ((apprexmit w i).conns i).len⟩
    rw [apprexmit_conns, hwlen, hc, hvnxt]
    exact hseg
  · rw [← hfault']
    exact apprexmit_fault w i
  · have hmod : ((w.conns i).len + UIP_IPTCPH_LEN) % 65536 = (w.conns i).len + UIP_IPTCPH_LEN :=
      Nat.mod_eq_of_lt (show _ + 40 < _ by omega)
    have hwhen : 0 < w.slen ∧ 0 < (w.conns i).len := ⟨by omega, by omega⟩
    unfold apprexmit tcpSendNoopts
    dsimp only
    rw [if_pos hwhen, hmod]
    exact tcpSend_segment _ i (Nat.le_add_left _ _) (show _ + 40 < _ by omega)

/-- Between two attempts nothing happens, and after the last the connection is closed. -/
theorem Outstanding.waits {s : Stack × Httpd} {seg : Segment} (ho : Outstanding s i seg)
    (hr : resends (s.1.conns i) = false) :
    ((uipPeriodic i s).1.conns i).tcpstateflags = .closed ∨
      Outstanding (uipPeriodic i s) i seg ∧ (uipPeriodic i s).1.fault = s.1.fault ∧
        (uipPeriodic i s).1.len = 0 := by
  obtain ⟨hest, hlen, hclose, hpend, hfits, hcovered, hseg⟩ := ho
  have hconn : (uipPeriodic i s).1.conns i = countDown (s.1.conns i) := by
    rw [uipPeriodic_conns fun _ => hlen, Function.update_self]
    exact tick_sending (by rw [hest]; rfl) hlen
  by_cases htimer : (s.1.conns i).timer = 0
  · left
    have hex : exhausted (s.1.conns i) = true := by
      by_contra hnot
      exact absurd hr (by simp [resends, hest, TcpState.sending, hlen, htimer, hnot])
    rw [hconn, countDown, if_pos htimer, if_pos hex]
  · right
    have hverdict : uipProcessTimer s.1 i = .done (drop (Stack.setConn
        { s.1 with appdata := UIP_IPTCPH_LEN + UIP_LLH_LEN, len := 0, slen := 0 } i
        { s.1.conns i with timer := (s.1.conns i).timer - 1 })) := by
      unfold uipProcessTimer
      dsimp only
      rw [if_neg (by simp [hest]), if_pos (by simp [hest]), if_pos hlen, if_neg htimer]
    rw [countDown, if_neg htimer] at hconn
    unfold uipPeriodic at hconn ⊢
    rw [hverdict] at hconn ⊢
    refine ⟨⟨?_, ?_, hclose, hpend, hfits, ?_, ?_⟩, rfl, rfl⟩
    · rw [hconn]
      exact hest
    · rw [hconn]
      exact hlen
    · rw [hconn]
      exact hcovered
    · rw [hconn]
      exact hseg

/-! ### In a run -/

theorem noted_txLen (h : Httpd) (c : Option Call) : (noted h c).txLen ≤ h.txLen := by
  cases c with
  | none => exact Nat.le_refl _
  | some c =>
    simp only [noted, note]
    split_ifs
    · exact Nat.zero_le _
    · exact Nat.le_refl _

theorem netPoll_txLen (n : Net) (rx : Rx) : (netPoll n rx).1.httpd.txLen ≤ n.httpd.txLen := by
  rw [netPoll_httpd]
  split_ifs
  · exact Nat.le_refl _
  · exact noted_txLen _ _

theorem kick_txLen (n : Net) : (kickActiveConnection n).1.httpd.txLen ≤ n.httpd.txLen := by
  rw [kick_httpd]
  split_ifs
  · exact Nat.le_refl _
  · exact noted_txLen _ _

/-- What is taken over fits into a segment, if every `sock_send` is of one segment. -/
theorem txLen_le_of_taken {n t : Net} {i : Input} (ht : taken n i = some t)
    (hone : oneSegment i.request = true) : t.httpd.txLen ≤ UIP_TCP_MSS := by
  obtain ⟨request, rx⟩ := i
  cases request with
  | sockSend connId length buf =>
    obtain ⟨-, hlen⟩ : 1 ≤ length ∧ length ≤ UIP_TCP_MSS := by simpa [oneSegment] using hone
    simp only [taken] at ht
    split_ifs at ht
    obtain rfl := Option.some.inj ht
    rw [(takePayload_httpd _ _ _).1]
    have hmss : (UIP_TCP_MSS : ℤ) = 366 := rfl
    have hnet : (NET_BUF_SIZE : ℤ) = 512 := rfl
    show (clampNetLength length).toNat ≤ 366
    unfold clampNetLength
    split_ifs <;> omega
  | _ => simp [taken] at ht

theorem txLen_run {is : List Input} {os : List Outcome} {n : Net}
    (hrun : Run step Steady Net.init is os n) : n.httpd.txLen ≤ UIP_TCP_MSS := by
  induction hrun with
  | nil => exact Nat.zero_le _
  | @snoc is os n n' i o _ hC hs ih =>
    have hpoll := (netPoll_txLen n i.rx).trans ih
    have hstep := steadyStep hC hs
    generalize o.events = ev at hstep
    generalize payloadOf o = pay at hstep
    cases hstep with
    | card _ hsame =>
      rw [hsame.2]
      exact ih
    | listened _ hsame =>
      rw [hsame.2]
      exact Nat.zero_le _
    | polled hsame =>
      rcases hsame with hsame | hsame
      · rw [hsame.2]
        exact hpoll
      · rw [hsame.2]
        exact hpoll
    | sent htaken hsame =>
      rw [hsame.2]
      exact (kick_txLen _).trans (txLen_le_of_taken htaken hC.2.2)

/-- What a run leaves outstanding is what is in flight. -/
theorem outstanding_run {is : List Input} {os : List Outcome} {n : Net}
    (hrun : Run step Steady Net.init is os n) (hone : (openings (history os)).length ≤ 1)
    (hest : Established n i) (hlen : (n.uip.conns i).len ≠ 0) :
    ∃ seg, (history os).foldl inFlight none = some seg ∧
      Outstanding (n.uip, n.httpd) i seg := by
  have hwaiting := (held_run hrun hone).1.waiting
  obtain ⟨hpend, hflight⟩ := (hwaiting.inUse i hest).flight hlen
  have hcovered : (n.uip.conns i).len ≤ n.httpd.txLen := by
    have hphase := phase_run hrun hone
    generalize openings (history os) = l at hphase
    cases hphase with
    | unopened hover => exact absurd hest (hover i).2
    | @handshake a hothers hstate =>
      by_cases hia : i = a
      · rw [hia] at hest
        exact absurd (hstate.symm.trans hest) (by simp)
      · exact absurd hest (hothers i hia).2
    | @inUse a hothers _ _ _ hcov _ =>
      by_cases hia : i = a
      · rw [hia]
        exact hcov hpend
      · exact absurd hest (hothers i hia).2
    | ended hover => exact absurd hest (hover i).2
  exact ⟨_, hflight, hest, hlen, hwaiting.closePending, hpend, txLen_run hrun, hcovered, rfl⟩

/-- **What the timer sends is what is in flight**: in every run with a single connection that meets
`Steady`, while a payload is outstanding, every attempt puts into the buffer the very segment that
went out before, as a valid one; and in every other call, up to the one that closes the connection,
nothing goes out. -/
theorem resent_in_flight {is : List Input} {os : List Outcome} {n : Net}
    (hrun : Run step Steady Net.init is os n) (hone : (openings (history os)).length ≤ 1)
    (hest : Established n i) (hlen : (n.uip.conns i).len ≠ 0) :
    ∃ seg, (history os).foldl inFlight none = some seg ∧
      ∀ k, (((uipPeriodic i)^[k + 1] (n.uip, n.httpd)).1.conns i).tcpstateflags ≠ .closed →
        ((uipPeriodic i)^[k + 1] (n.uip, n.httpd)).1.fault = n.uip.fault ∧
        if resends (((uipPeriodic i)^[k] (n.uip, n.httpd)).1.conns i) then
          TcpSegment ((uipPeriodic i)^[k + 1] (n.uip, n.httpd)).1.buf
              ((uipPeriodic i)^[k + 1] (n.uip, n.httpd)).1.len ∧
            segments i ((uipPeriodic i)^[k + 1] (n.uip, n.httpd)).1 = [.segment i seg]
        else ((uipPeriodic i)^[k + 1] (n.uip, n.httpd)).1.len = 0 := by
  obtain ⟨seg, hseg, hout⟩ := outstanding_run hrun hone hest hlen
  refine ⟨seg, hseg, ?_⟩
  have hopen (k : ℕ) :
      ((((uipPeriodic i)^[k] (n.uip, n.httpd)).1.conns i).tcpstateflags = .closed) ∨
        Outstanding ((uipPeriodic i)^[k] (n.uip, n.httpd)) i seg ∧
          ((uipPeriodic i)^[k] (n.uip, n.httpd)).1.fault = n.uip.fault := by
    induction k with
    | zero => exact .inr ⟨hout, rfl⟩
    | succ k ih =>
      rw [Function.iterate_succ_apply']
      rcases ih with hclosed | ⟨ho, hfault⟩
      · exact .inl (uipPeriodic_closed hclosed)
      · cases hr : resends (((uipPeriodic i)^[k] (n.uip, n.httpd)).1.conns i) with
        | true =>
          obtain ⟨ho', hfault', -⟩ := ho.resent hr
          exact .inr ⟨ho', hfault'.trans hfault⟩
        | false =>
          rcases ho.waits hr with hclosed | ⟨ho', hfault', -⟩
          · exact .inl hclosed
          · exact .inr ⟨ho', hfault'.trans hfault⟩
  intro k hk
  rw [Function.iterate_succ_apply'] at hk ⊢
  rcases hopen k with hclosed | ⟨ho, hfault⟩
  · exact absurd (uipPeriodic_closed hclosed) hk
  · cases hr : resends (((uipPeriodic i)^[k] (n.uip, n.httpd)).1.conns i) with
    | true =>
      obtain ⟨-, hfault', hsegment, hsent⟩ := ho.resent hr
      exact ⟨hfault'.trans hfault, hsegment, hsent⟩
    | false =>
      rcases ho.waits hr with hclosed | ⟨-, hfault', hnone⟩
      · exact absurd hclosed hk
      · exact ⟨hfault'.trans hfault, hnone⟩

/-- Three bytes, which go out again in the fourth call. -/
theorem resent_in_flight_threeBytes : ∃ os n,
    Run step Steady Net.init
        (listen80 :: connect 1000 100 ++ [Request.alone (.sockSend 1 3 (payload [1, 2, 3]))]) os n ∧
      segments 0 ((uipPeriodic 0)^[4] (n.uip, n.httpd)).1 =
        [.segment 0 ⟨⟨0, 0, 0, 1⟩, TCP_ACK ||| TCP_PSH, [1, 2, 3]⟩] := by
  have hexec : (exec (guarded step Steady) Net.init
      (listen80 :: connect 1000 100 ++
        [Request.alone (.sockSend 1 3 (payload [1, 2, 3]))])).map (fun r =>
        decide ((openings (history r.2)).length ≤ 1 ∧ Established r.1 0 ∧
          (r.1.uip.conns 0).len = 3 ∧
          (history r.2).foldl inFlight none =
            some ⟨⟨0, 0, 0, 1⟩, TCP_ACK ||| TCP_PSH, [1, 2, 3]⟩ ∧
          resends (tick^[3] (r.1.uip.conns 0)) = true ∧
          (tick^[4] (r.1.uip.conns 0)).tcpstateflags = .established)) = some true := by
    decide +kernel
  obtain ⟨⟨n, os⟩, hr, heq⟩ := Option.map_eq_some_iff.mp hexec
  obtain ⟨hone, hest, hlen, hflight, hresends, hopen⟩ := of_decide_eq_true heq
  dsimp only at hone hest hlen hflight hresends hopen
  have hrun := run_of_exec_guarded hr
  have hne : (n.uip.conns 0).len ≠ 0 := by rw [hlen]; decide
  have htimed : Timed (n.uip.conns 0) := timed_of_awaitsPeer
    (maintained_untimed.run untimed_init hrun 0)
    ⟨by rw [hest]; decide, by rw [hest]; decide, fun _ => hne⟩
  obtain ⟨seg, hseg, hall⟩ := resent_in_flight hrun hone hest hne
  obtain rfl := Option.some.inj (hflight.symm.trans hseg)
  have hsent := hall 3 (by rw [uipPeriodic_iterate htimed, hopen]; decide)
  rw [uipPeriodic_iterate htimed, if_pos hresends] at hsent
  exact ⟨os, n, hrun, hsent.2.2⟩

end Rexmit

end Service
end EgosNet
