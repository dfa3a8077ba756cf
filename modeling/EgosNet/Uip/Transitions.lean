import EgosNet.Uip.Input

/-!
# What a packet does to the connections

The first half of `uip_process` is a long case distinction, on the packet and on
the state of the connection it belongs to.  Most of it does not matter to what the
service does with a connection; what matters is collected here, once for every
kind of outcome, and the rest of the development uses nothing else.

A connection keeps the first unacknowledged sequence number (`sndNxt`) and the
number of sequence numbers in flight from there (`len`).  A packet either
acknowledges all of them (`Acked`) or none (`Kept`); `SendSide` is the choice
between the two, with the flag that reports it to the application.

* `CallStep`: the six ways in which a packet makes uIP call the application, with
  the flags of the call and the label after it.
* `QuietStep`: a packet of a connection of which the application does not hear.
* `Sound`: what a verdict says about the whole table.  `sound_uipProcessData` says
  that every verdict is sound, and `uipProcessPoll_cases` is the same for a poll.
-/

namespace EgosNet
namespace Uip

open Foundation

/-! ## Steps of one connection -/

section Steps

variable {a : Bool} {c c' c'' : UipConn}

/-- The endpoints of the connection are the same. -/
def SamePeer (c c' : UipConn) : Prop :=
  c'.lport = c.lport ∧ c'.rport = c.rport ∧ c'.ripaddr = c.ripaddr

/-- Everything in flight has been acknowledged. -/
def Acked (c c' : UipConn) : Prop :=
  c.len ≠ 0 ∧ c'.sndNxt = uipAdd32 c.sndNxt c.len ∧ c'.len = 0

/-- Nothing in flight has been acknowledged. -/
def Kept (c c' : UipConn) : Prop := c'.sndNxt = c.sndNxt ∧ c'.len = c.len

/-- The one or the other, as the flag says. -/
def SendSide (a : Bool) (c c' : UipConn) : Prop := if a then Acked c c' else Kept c c'

theorem SamePeer.refl (c : UipConn) : SamePeer c c := ⟨rfl, rfl, rfl⟩

theorem SamePeer.trans (h : SamePeer c c') (h' : SamePeer c' c'') : SamePeer c c'' :=
  ⟨h'.1.trans h.1, h'.2.1.trans h.2.1, h'.2.2.trans h.2.2⟩

theorem SendSide.trans_kept (h : SendSide a c c') (h' : Kept c' c'') : SendSide a c c'' := by
  cases a
  · exact ⟨h'.1.trans h.1, h'.2.trans h.2⟩
  · exact ⟨h.1, h'.1.trans h.2.1, h'.2.trans h.2.2⟩

/-- Acknowledged data leaves nothing in flight. -/
theorem SendSide.eq_false (h : SendSide a c c') (hlen : c'.len ≠ 0) : a = false := by
  cases a
  · rfl
  · exact absurd h.2.2 hlen

/-- How a packet that makes uIP call the application changes the connection, the
flags of the call, and where `uip_process` goes on afterwards. -/
inductive CallStep (c c' : UipConn) : UipFlags → Resume → Prop
  /-- A `RST`. -/
  | aborted : c'.tcpstateflags = .closed → CallStep c c' { abort := true } .drop
  /-- The handshake completes, possibly with the first data. -/
  | connected (d : Bool) : c.tcpstateflags = .synRcvd → c'.tcpstateflags = .established →
      Acked c c' → CallStep c c' { connected := true, newdata := d } .appsend
  /-- An acknowledgement, data, or both. -/
  | established (a d : Bool) : c.tcpstateflags = .established →
      c'.tcpstateflags = .established → SendSide a c c' → (a = true ∨ d = true) →
      CallStep c c' { ackdata := a, newdata := d } .appsend
  /-- The peer's `FIN`. -/
  | fin (a d : Bool) : c.tcpstateflags = .established → c'.tcpstateflags = .established →
      SendSide a c c' → c'.len = 0 →
      CallStep c c' { ackdata := a, newdata := d, close := true } .finack
  /-- The acknowledgement of our `FIN`, after the peer's. -/
  | closed : c.tcpstateflags = .lastAck → c'.tcpstateflags = .closed →
      CallStep c c' { close := true } .drop
  /-- The peer's `FIN`, after ours. -/
  | finished : c.tcpstateflags = .finWait1 ∨ c.tcpstateflags = .finWait2 →
      c'.tcpstateflags = .timeWait ∨ c'.tcpstateflags = .closing →
      CallStep c c' { close := true } .ack

/-- A packet of which the application does not hear leaves a connection that is
being set up or is in use alone, and does not bring one to life. -/
structure QuietStep (c c' : UipConn) : Prop where
  synRcvd : c'.tcpstateflags = .synRcvd ↔ c.tcpstateflags = .synRcvd
  established : c'.tcpstateflags = .established ↔ c.tcpstateflags = .established
  kept : c.tcpstateflags = .synRcvd ∨ c.tcpstateflags = .established → Kept c c'

/-- A step that keeps the state and what is in flight is quiet. -/
theorem QuietStep.of_kept (hs : c'.tcpstateflags = c.tcpstateflags) (hk : Kept c c') :
    QuietStep c c' :=
  ⟨by rw [hs], by rw [hs], fun _ => hk⟩

/-- A step between states after the connection's use is quiet. -/
theorem QuietStep.of_after (hs : c.tcpstateflags ≠ .synRcvd ∧ c.tcpstateflags ≠ .established)
    (hs' : c'.tcpstateflags ≠ .synRcvd ∧ c'.tcpstateflags ≠ .established) : QuietStep c c' :=
  ⟨iff_of_false hs'.1 hs.1, iff_of_false hs'.2 hs.2, fun h => (h.elim hs.1 hs.2).elim⟩

/-- The connection a `SYN` creates. -/
structure OpenStep (c c' : UipConn) : Prop where
  unused : c.tcpstateflags = .closed ∨ c.tcpstateflags = .timeWait
  synRcvd : c'.tcpstateflags = .synRcvd
  sndNxt : c'.sndNxt = iss
  len : c'.len = 1

end Steps

/-! ## Verdicts -/

/-- Only connection `i` has changed, and not its endpoints. -/
structure OnlyAt (u u' : Stack) (i : Slot) : Prop where
  conns : ∀ j, j ≠ i → u'.conns j = u.conns j
  listenports : u'.listenports = u.listenports
  peer : SamePeer (u.conns i) (u'.conns i)

/-- What a verdict on a packet says about the connections. -/
inductive Sound (u : Stack) : Verdict → Prop
  | done {u' : Stack} : u'.conns = u.conns → u'.listenports = u.listenports → Sound u (.done u')
  | quiet {i : Slot} {u' : Stack} : OnlyAt u u' i → QuietStep (u.conns i) (u'.conns i) →
      (u'.len = 0 ∨ ∃ v, u' = tcpSendAck v i) → Sound u (.quiet i u')
  | listen {i : Slot} {u' : Stack} : (∀ j, j ≠ i → u'.conns j = u.conns j) →
      u'.listenports = u.listenports → OpenStep (u.conns i) (u'.conns i) →
      (u'.conns i).lport = word16 u.buf Hdr.destport → (∃ v, u' = tcpSendSynack v i) →
      Sound u (.listen i u')
  | appcall {i : Slot} {u' : Stack} {k : Resume} : OnlyAt u u' i →
      CallStep (u.conns i) (u'.conns i) u'.flags k → (k = .appsend → u'.slen = 0) →
      Sound u (.appcall i u' k)

/-- What `found` has established when it looks at the state of the connection: at
most the acknowledgement has been noted. -/
structure AckStep (u u' : Stack) (i : Slot) : Prop where
  only : OnlyAt u u' i
  state : (u'.conns i).tcpstateflags = (u.conns i).tcpstateflags
  flags : u'.flags = { ackdata := u'.flags.ackdata }
  sendSide : SendSide u'.flags.ackdata (u.conns i) (u'.conns i)

theorem OnlyAt.refl (u : Stack) (i : Slot) : OnlyAt u u i := ⟨fun _ _ => rfl, rfl, SamePeer.refl _⟩

theorem OnlyAt.setConn {u u' : Stack} {i : Slot} (h : OnlyAt u u' i) {c : UipConn}
    (hc : SamePeer (u'.conns i) c) : OnlyAt u (u'.setConn i c) i := by
  refine ⟨fun j hj => ?_, h.listenports, ?_⟩
  · rw [Stack.setConn_conns_of_ne _ hj, h.conns j hj]
  · rw [Stack.setConn_conns_self]
    exact h.peer.trans hc

/-- Only the table and the ports matter. -/
theorem OnlyAt.congr {u u' v : Stack} {i : Slot} (h : OnlyAt u u' i) (hc : v.conns = u'.conns)
    (hl : v.listenports = u'.listenports) : OnlyAt u v i :=
  ⟨fun j hj => by rw [hc, h.conns j hj], by rw [hl, h.listenports], by rw [hc]; exact h.peer⟩

theorem ackInput_ackStep {u : Stack} {i : Slot} (hf : u.flags = {}) :
    AckStep u (ackInput u i) i := by
  have hrtt : ∀ c : UipConn, (rttEstimate c).sndNxt = c.sndNxt ∧ SamePeer c (rttEstimate c) ∧
      (rttEstimate c).tcpstateflags = c.tcpstateflags := by
    intro c
    simp only [rttEstimate]
    split_ifs <;> exact ⟨rfl, ⟨rfl, rfl, rfl⟩, rfl⟩
  unfold ackInput
  split_ifs with h
  · obtain ⟨-, hlen, -⟩ : _ ∧ (u.conns i).len ≠ 0 ∧ _ := of_decide_eq_true h
    obtain ⟨h1, ⟨h2, h3, h4⟩, h5⟩ := hrtt
      { u.conns i with sndNxt := uipAdd32 (u.conns i).sndNxt (u.conns i).len }
    have honly : OnlyAt u (u.setConn i (ackedConn (u.conns i))) i :=
      (OnlyAt.refl u i).setConn ⟨h2, h3, h4⟩
    refine ⟨honly.congr rfl rfl, ?_, rfl, ?_⟩
    · simpa [ackedConn] using h5
    · exact ⟨hlen, by simpa [ackedConn] using h1, by simp [ackedConn]⟩
  · exact ⟨OnlyAt.refl u i, rfl, by rw [hf], by rw [hf]; exact ⟨rfl, rfl⟩⟩

/-! ## The states, one by one -/

section States

variable {u₀ u : Stack} {i : Slot}

/-- Advancing the receive side changes nothing else. -/
theorem OnlyAt.uipAddRcvNxt (h : OnlyAt u₀ u i) (n : ℕ) : OnlyAt u₀ (uipAddRcvNxt u i n) i :=
  h.setConn ⟨rfl, rfl, rfl⟩

theorem sound_drop (h : OnlyAt u₀ u i) (hq : QuietStep (u₀.conns i) (u.conns i)) :
    Sound u₀ (.quiet i (drop u)) :=
  .quiet (h.congr rfl rfl) hq (Or.inl rfl)

theorem sound_tcpSendAck (h : OnlyAt u₀ u i) (hq : QuietStep (u₀.conns i) (u.conns i)) :
    Sound u₀ (.quiet i (tcpSendAck u i)) :=
  .quiet (h.congr rfl rfl) hq (Or.inr ⟨u, rfl⟩)

/-- Without an acknowledgement the connection is as before. -/
theorem AckStep.quiet (h : AckStep u₀ u i) (ha : u.flags.ackdata = false) :
    QuietStep (u₀.conns i) (u.conns i) := by
  have hk := h.sendSide
  rw [ha] at hk
  exact QuietStep.of_kept h.state hk

/-- What is noted about data concerns the receive side only. -/
theorem noteNewdata_spec (u : Stack) (i : Slot) :
    (noteNewdata u i).flags = { u.flags with newdata := u.flags.newdata || decide (0 < u.len) } ∧
      (∀ j, j ≠ i → (noteNewdata u i).conns j = u.conns j) ∧
      (noteNewdata u i).listenports = u.listenports ∧
      ∃ w, (noteNewdata u i).conns i = { u.conns i with rcvNxt := w } := by
  unfold noteNewdata
  split_ifs with h
  · refine ⟨?_, ?_, rfl, _, Stack.setConn_conns_self _ _ _⟩
    · simp [uipAddRcvNxt, h]
    · exact fun j hj => Stack.setConn_conns_of_ne _ hj _
  · exact ⟨by simp [h], fun _ _ => rfl, rfl, (u.conns i).rcvNxt, rfl⟩

theorem OnlyAt.noteNewdata (h : OnlyAt u₀ u i) : OnlyAt u₀ (noteNewdata u i) i := by
  obtain ⟨-, hj, hl, w, hw⟩ := noteNewdata_spec u i
  refine ⟨fun j hne => by rw [hj j hne, h.conns j hne], hl.trans h.listenports, ?_⟩
  rw [hw]
  exact h.peer

theorem sound_inSynRcvd (h : AckStep u₀ u i) (hs : (u₀.conns i).tcpstateflags = .synRcvd) :
    Sound u₀ (inSynRcvd u i) := by
  unfold inSynRcvd
  split_ifs with ha
  · have hacked : Acked (u₀.conns i) (u.conns i) := by simpa [SendSide, ha] using h.sendSide
    set v : Stack :=
      { u.setConn i { u.conns i with tcpstateflags := .established, len := 0 } with
        flags := { connected := true } } with hv
    have honly : OnlyAt u₀ v i :=
      (h.only.setConn (c := { u.conns i with tcpstateflags := .established, len := 0 })
        ⟨rfl, rfl, rfl⟩).congr rfl rfl
    obtain ⟨hflags, -, -, w, hw⟩ := noteNewdata_spec v i
    have hvi : v.conns i = { u.conns i with tcpstateflags := .established, len := 0 } := by
      simp [hv]
    refine .appcall (honly.noteNewdata.congr rfl rfl) ?_ fun _ => rfl
    change CallStep _ ((noteNewdata v i).conns i) (noteNewdata v i).flags .appsend
    rw [hflags, hw, hvi]
    exact CallStep.connected _ hs rfl ⟨hacked.1, hacked.2.1, rfl⟩
  · exact sound_drop h.only (h.quiet (by simpa using ha))

theorem skipUrgent_frame (u : Stack) :
    (skipUrgent u).conns = u.conns ∧ (skipUrgent u).listenports = u.listenports ∧
      (skipUrgent u).flags = u.flags := by
  unfold skipUrgent
  split_ifs <;> exact ⟨rfl, rfl, rfl⟩

theorem sound_inEstablished (h : AckStep u₀ u i)
    (hs : (u₀.conns i).tcpstateflags = .established) : Sound u₀ (inEstablished u i) := by
  have hnew : u.flags.newdata = false := by rw [h.flags]
  unfold inEstablished
  split_ifs with hfin hlen
  · -- a `FIN` while data is in flight
    exact sound_drop h.only (h.quiet (h.sendSide.eq_false hlen))
  · -- a `FIN` that is taken
    have hstep : CallStep (u₀.conns i) ((uipAddRcvNxt u i (1 + u.len)).conns i)
        { ackdata := u.flags.ackdata, newdata := decide (0 < u.len), close := true }
        .finack := by
      refine CallStep.fin _ _ hs ?_ ?_ ?_
      · simpa [uipAddRcvNxt] using h.state.trans hs
      · exact h.sendSide.trans_kept (by simp [Kept, uipAddRcvNxt])
      · simpa [uipAddRcvNxt] using hlen
    refine .appcall ((h.only.uipAddRcvNxt (1 + u.len)).congr rfl rfl) ?_ (by simp)
    convert hstep using 1
    rw [show (uipAddRcvNxt u i (1 + u.len)).flags = u.flags from rfl,
      show (uipAddRcvNxt u i (1 + u.len)).len = u.len from rfl, h.flags]
    by_cases hpos : 0 < u.len <;> simp [hpos]
  · -- an acknowledgement, data, or neither
    obtain ⟨h1, h2, h3⟩ := skipUrgent_frame u
    set v := skipUrgent u with hv
    obtain ⟨hflags, -, -, w, hw⟩ := noteNewdata_spec v i
    have honly : OnlyAt u₀ (updateMss (noteNewdata v i) i) i :=
      (h.only.congr h1 h2).noteNewdata.setConn ⟨rfl, rfl, rfl⟩
    have hconn : Kept (u.conns i) ((updateMss (noteNewdata v i) i).conns i) ∧
        ((updateMss (noteNewdata v i) i).conns i).tcpstateflags = (u.conns i).tcpstateflags := by
      simp [updateMss, hw, h1, Kept]
    have hside := h.sendSide.trans_kept hconn.1
    have hstate := hconn.2.trans h.state
    have hflags' : (updateMss (noteNewdata v i) i).flags =
        { ackdata := u.flags.ackdata, newdata := decide (0 < v.len) } := by
      change (noteNewdata v i).flags = _
      rw [hflags, h3, h.flags]
      simp
    by_cases hcall : 0 < v.len ∨ u.flags.ackdata = true
    · rw [if_pos (by rw [hflags']; simpa using hcall)]
      refine .appcall (honly.congr rfl rfl) ?_ fun _ => rfl
      change CallStep _ ((updateMss (noteNewdata v i) i).conns i)
        (updateMss (noteNewdata v i) i).flags .appsend
      rw [hflags']
      exact CallStep.established _ _ hs (hstate.trans hs) hside (by simpa [or_comm] using hcall)
    · rw [if_neg (by rw [hflags']; simpa using hcall)]
      have ha : u.flags.ackdata = false := by
        simpa using fun ha => hcall (Or.inr ha)
      rw [ha] at hside
      exact sound_drop honly (QuietStep.of_kept hstate hside)

theorem sound_inLastAck (h : AckStep u₀ u i) (hs : (u₀.conns i).tcpstateflags = .lastAck) :
    Sound u₀ (inLastAck u i) := by
  unfold inLastAck
  split_ifs with ha
  · have honly : OnlyAt u₀ (u.setConn i { u.conns i with tcpstateflags := .closed }) i :=
      h.only.setConn ⟨rfl, rfl, rfl⟩
    exact .appcall (honly.congr rfl rfl) (CallStep.closed hs (by simp)) (by simp)
  · exact sound_drop h.only (h.quiet (by simpa using ha))

/-- Once our `FIN` is out, nothing brings the connection back into use. -/
theorem quiet_after {c c' : UipConn}
    (hs : c.tcpstateflags = .finWait1 ∨ c.tcpstateflags = .finWait2 ∨
      c.tcpstateflags = .closing ∨ c.tcpstateflags = .timeWait ∨ c.tcpstateflags = .closed)
    (hs' : c'.tcpstateflags = c.tcpstateflags ∨ c'.tcpstateflags = .finWait2 ∨
      c'.tcpstateflags = .timeWait) : QuietStep c c' := by
  have hc : c.tcpstateflags ≠ .synRcvd ∧ c.tcpstateflags ≠ .established := by
    rcases hs with hs | hs | hs | hs | hs <;> simp [hs]
  refine QuietStep.of_after hc ?_
  rcases hs' with hs' | hs' | hs'
  · rwa [hs']
  · simp [hs']
  · simp [hs']

/-- The data that arrives after our `FIN` is acknowledged and not looked at. -/
theorem rcvData_spec (h : AckStep u₀ u i) :
    OnlyAt u₀ (if 0 < u.len then uipAddRcvNxt u i u.len else u) i ∧
      ((if 0 < u.len then uipAddRcvNxt u i u.len else u).conns i).tcpstateflags =
        (u₀.conns i).tcpstateflags := by
  split_ifs
  · refine ⟨h.only.uipAddRcvNxt u.len, ?_⟩
    simpa [uipAddRcvNxt] using h.state
  · exact ⟨h.only, h.state⟩

theorem sound_inFinWait1 (h : AckStep u₀ u i) (hs : (u₀.conns i).tcpstateflags = .finWait1) :
    Sound u₀ (inFinWait1 u i) := by
  obtain ⟨honly, hstate⟩ := rcvData_spec h
  simp only [inFinWait1]
  set v := if 0 < u.len then uipAddRcvNxt u i u.len else u
  split_ifs with hfin ha ha hlen
  · have honly' : OnlyAt u₀
        (v.setConn i { v.conns i with tcpstateflags := .timeWait, timer := 0, len := 0 }) i :=
      honly.setConn ⟨rfl, rfl, rfl⟩
    refine .appcall ((honly'.uipAddRcvNxt 1).congr rfl rfl) ?_ (by simp)
    exact CallStep.finished (Or.inl hs) (Or.inl (by simp [uipAddRcvNxt]))
  · have honly' : OnlyAt u₀ (v.setConn i { v.conns i with tcpstateflags := .closing }) i :=
      honly.setConn ⟨rfl, rfl, rfl⟩
    refine .appcall ((honly'.uipAddRcvNxt 1).congr rfl rfl) ?_ (by simp)
    exact CallStep.finished (Or.inl hs) (Or.inr (by simp [uipAddRcvNxt]))
  · refine sound_drop (honly.setConn ⟨rfl, rfl, rfl⟩) ?_
    exact quiet_after (Or.inl hs) (Or.inr (Or.inl (by simp)))
  · exact sound_tcpSendAck honly (quiet_after (Or.inl hs) (Or.inl hstate))
  · exact sound_drop honly (quiet_after (Or.inl hs) (Or.inl hstate))

theorem sound_inFinWait2 (h : AckStep u₀ u i) (hs : (u₀.conns i).tcpstateflags = .finWait2) :
    Sound u₀ (inFinWait2 u i) := by
  obtain ⟨honly, hstate⟩ := rcvData_spec h
  simp only [inFinWait2]
  set v := if 0 < u.len then uipAddRcvNxt u i u.len else u
  split_ifs with hfin hlen
  · have honly' : OnlyAt u₀
        (v.setConn i { v.conns i with tcpstateflags := .timeWait, timer := 0 }) i :=
      honly.setConn ⟨rfl, rfl, rfl⟩
    refine .appcall ((honly'.uipAddRcvNxt 1).congr rfl rfl) ?_ (by simp)
    exact CallStep.finished (Or.inr hs) (Or.inl (by simp [uipAddRcvNxt]))
  · exact sound_tcpSendAck honly (quiet_after (Or.inr (Or.inl hs)) (Or.inl hstate))
  · exact sound_drop honly (quiet_after (Or.inr (Or.inl hs)) (Or.inl hstate))

theorem sound_inClosing (h : AckStep u₀ u i) (hs : (u₀.conns i).tcpstateflags = .closing) :
    Sound u₀ (inClosing u i) := by
  unfold inClosing
  split_ifs
  · refine sound_drop (h.only.setConn ⟨rfl, rfl, rfl⟩) ?_
    exact quiet_after (Or.inr (Or.inr (Or.inl hs))) (Or.inr (Or.inr (by simp)))
  · exact sound_drop h.only (quiet_after (Or.inr (Or.inr (Or.inl hs))) (Or.inl h.state))

theorem sound_byState (h : AckStep u₀ u i) : Sound u₀ (byState u i) := by
  unfold byState
  split
  case h_1 hs => exact sound_inSynRcvd h (h.state.symm.trans hs)
  case h_2 hs => exact sound_inEstablished h (h.state.symm.trans hs)
  case h_3 hs => exact sound_inLastAck h (h.state.symm.trans hs)
  case h_4 hs => exact sound_inFinWait1 h (h.state.symm.trans hs)
  case h_5 hs => exact sound_inFinWait2 h (h.state.symm.trans hs)
  case h_6 hs =>
    have hs' := h.state.symm.trans hs
    exact sound_tcpSendAck h.only
      (quiet_after (Or.inr (Or.inr (Or.inr (Or.inl hs')))) (Or.inl h.state))
  case h_7 hs => exact sound_inClosing h (h.state.symm.trans hs)
  case h_8 hs =>
    have hs' := h.state.symm.trans hs
    exact sound_drop h.only
      (quiet_after (Or.inr (Or.inr (Or.inr (Or.inr hs')))) (Or.inl h.state))

end States

/-! ## The whole of the input -/

/-- `Sound` looks at the table, the ports and the packet. -/
theorem Sound.congr {u v : Stack} {w : Verdict} (h : Sound v w) (hc : v.conns = u.conns)
    (hl : v.listenports = u.listenports) (hb : v.buf = u.buf) : Sound u w := by
  have honly : ∀ {u' : Stack} {i : Slot}, OnlyAt v u' i → OnlyAt u u' i := by
    rintro u' i ⟨h1, h2, h3⟩
    rw [hc] at h1 h3
    exact ⟨h1, h2.trans hl, h3⟩
  cases h with
  | done h1 h2 => exact .done (h1.trans hc) (h2.trans hl)
  | quiet h1 h2 h3 =>
    rw [hc] at h2
    exact .quiet (honly h1) h2 h3
  | listen h1 h2 h3 h4 h5 =>
    rw [hc] at h1 h3
    rw [hb] at h4
    exact .listen h1 (h2.trans hl) h3 h4 h5
  | appcall h1 h2 h3 =>
    rw [hc] at h2
    exact .appcall (honly h1) h2 h3

theorem sound_found (u : Stack) (i : Slot) : Sound u (found u i) := by
  have hzero : OnlyAt u { u with flags := {} } i := (OnlyAt.refl u i).congr rfl rfl
  simp only [found]
  split_ifs with hrst hord
  · have honly : OnlyAt u (Stack.setConn { u with flags := {} } i
        { u.conns i with tcpstateflags := .closed }) i := hzero.setConn ⟨rfl, rfl, rfl⟩
    exact .appcall (honly.congr rfl rfl) (CallStep.aborted (by simp)) (by simp)
  · exact sound_tcpSendAck (hzero.congr rfl rfl) (QuietStep.of_kept rfl ⟨rfl, rfl⟩)
  · exact (sound_byState (ackInput_ackStep rfl)).congr rfl rfl rfl

/-- The search for a slot ends at one that is not in use. -/
theorem freeSlot_unused {conns : Slot → UipConn} {best : Option Slot} {l : List Slot} {i : Slot}
    (hbest : ∀ b, best = some b → (conns b).tcpstateflags = .timeWait)
    (h : freeSlot conns best l = some i) :
    (conns i).tcpstateflags = .closed ∨ (conns i).tcpstateflags = .timeWait := by
  induction l generalizing best with
  | nil => exact Or.inr (hbest i h)
  | cons j rest ih =>
    unfold freeSlot at h
    split_ifs at h with hc ht
    · obtain rfl : j = i := by simpa using h
      exact Or.inl hc
    · have hj : ∀ b, some j = some b → (conns b).tcpstateflags = .timeWait := by
        rintro b ⟨⟩
        exact ht
      split at h
      · exact ih hj h
      · split_ifs at h
        · exact ih hj h
        · exact ih hbest h
    · exact ih hbest h

theorem sound_foundListen (u : Stack) : Sound u (foundListen u) := by
  unfold foundListen
  split
  · exact .done rfl rfl
  · rename_i i hi
    have hfree := freeSlot_unused (by simp) hi
    simp only
    split
    · exact .done rfl rfl
    · rename_i mss hmss
      have hconn : ∀ c, (tcpSendSynack (u.setConn i c) i).conns i = c :=
        fun c => Stack.setConn_conns_self u i c
      refine .listen (fun j hj => Stack.setConn_conns_of_ne u hj _) rfl ?_ ?_ ⟨_, rfl⟩
      · rw [hconn]
        cases mss <;> exact ⟨hfree, rfl, rfl, rfl⟩
      · rw [hconn]
        cases mss <;> rfl

theorem reset_listenports (u : Stack) : (reset u).listenports = u.listenports := by
  unfold reset
  split <;> rfl

theorem icmpEcho_listenports (u : Stack) : (icmpEcho u).listenports = u.listenports := by
  unfold icmpEcho
  split <;> rfl

theorem sound_tcpInput (u : Stack) : Sound u (tcpInput u) := by
  have hreset : Sound u (.done (reset u)) := .done (reset_conns u) (reset_listenports u)
  unfold tcpInput
  -- the value of the checksum plays no role
  generalize uipTcpchksum u.buf = sum
  split_ifs
  · exact .done rfl rfl
  · split
    · exact sound_found u _
    · exact hreset
  · split
    · exact sound_found u _
    · exact sound_foundListen u
  · split
    · exact sound_found u _
    · exact hreset

/-- **What a packet does to the connections.** -/
theorem sound_uipProcessData (u : Stack) : Sound u (uipProcessData u) := by
  simp only [uipProcessData]
  generalize uipIpchksum u.buf = sum
  split_ifs
  · exact .done rfl rfl
  · exact .done rfl rfl
  · exact .done rfl rfl
  · exact .done rfl rfl
  · exact (sound_tcpInput _).congr rfl rfl rfl
  · exact .done (icmpEcho_conns _) (icmpEcho_listenports _)
  · exact .done rfl rfl
  · exact .done rfl rfl

/-! ## Which connection the application is called for -/

/-- The verdict concerns no connection but the one in slot `i`. -/
def Concerns (i : Slot) : Verdict → Prop
  | .quiet j _ => j = i
  | .appcall j _ _ => j = i
  | _ => False

theorem concerns_byState (u : Stack) (i : Slot) : Concerns i (byState u i) := by
  unfold byState
  split
  · unfold inSynRcvd
    split_ifs <;> rfl
  · unfold inEstablished
    split_ifs <;> first | rfl | (dsimp only; split_ifs <;> rfl)
  · unfold inLastAck
    split_ifs <;> rfl
  · simp only [inFinWait1]
    split_ifs <;> rfl
  · simp only [inFinWait2]
    split_ifs <;> rfl
  · rfl
  · unfold inClosing
    split_ifs <;> rfl
  · rfl

theorem concerns_found (u : Stack) (i : Slot) : Concerns i (found u i) := by
  simp only [found]
  split_ifs
  · rfl
  · rfl
  · exact concerns_byState _ i

theorem not_concerns_foundListen (u : Stack) (i : Slot) {v : Verdict} (hv : foundListen u = v) :
    ¬ Concerns i v := by
  unfold foundListen at hv
  split at hv
  · exact hv ▸ id
  · dsimp only at hv
    split at hv <;> exact hv ▸ id

theorem isFor_of_concerns_tcp {u : Stack} {i : Slot} {v : Verdict} (hv : tcpInput u = v)
    (h : Concerns i v) : isFor u.buf (u.conns i) = true := by
  have hfound : ∀ j, (List.finRange 40).find? (fun i => isFor u.buf (u.conns i)) = some j →
      found u j = v → isFor u.buf (u.conns i) = true := by
    intro j hj hfound
    have hcon := concerns_found u j
    rw [hfound] at hcon
    obtain rfl : i = j := by
      cases v with
      | done w => exact h.elim
      | quiet k w => exact h.symm.trans hcon
      | listen k w => exact h.elim
      | appcall k w r => exact h.symm.trans hcon
    exact (List.find?_some hj :)
  unfold tcpInput at hv
  generalize uipTcpchksum u.buf = sum at hv
  split_ifs at hv
  · exact (hv ▸ h : Concerns i (.done _)).elim
  all_goals
    split at hv
    · rename_i j hj
      exact hfound j hj hv
    · first
      | exact absurd h (not_concerns_foundListen u i hv)
      | exact (hv ▸ h : Concerns i (.done _)).elim

/-- Only the connection that the packet belongs to is concerned. -/
theorem isFor_of_concerns {u : Stack} {i : Slot} {v : Verdict} (hv : uipProcessData u = v)
    (h : Concerns i v) : isFor u.buf (u.conns i) = true := by
  simp only [uipProcessData] at hv
  generalize uipIpchksum u.buf = sum at hv
  split_ifs at hv
  · exact (hv ▸ h : Concerns i (.done _)).elim
  · exact (hv ▸ h : Concerns i (.done _)).elim
  · exact (hv ▸ h : Concerns i (.done _)).elim
  · exact (hv ▸ h : Concerns i (.done _)).elim
  · exact (isFor_of_concerns_tcp hv h :)
  · exact (hv ▸ h : Concerns i (.done _)).elim
  · exact (hv ▸ h : Concerns i (.done _)).elim
  · exact (hv ▸ h : Concerns i (.done _)).elim

/-- The application is called for the connection that the packet belongs to. -/
theorem isFor_of_appcall {u u' : Stack} {i : Slot} {k : Resume}
    (h : uipProcessData u = .appcall i u' k) : isFor u.buf (u.conns i) = true :=
  isFor_of_concerns h rfl

/-! ## `uip_slen` -/

/-- The value of `uip_slen`, if the application is not called; otherwise `n`. -/
def Verdict.slenOr (n : ℕ) : Verdict → ℕ
  | .done u | .quiet _ u | .listen _ u => u.slen
  | .appcall _ _ _ => n

/-- `uip_slen` is as it was, unless the application is to be called. -/
def KeepsSlen (u : Stack) (v : Verdict) : Prop := v.slenOr u.slen = u.slen

theorem KeepsSlen.congr {u v : Stack} {w : Verdict} (hw : KeepsSlen v w)
    (hv : v.slen = u.slen) : KeepsSlen u w := by
  rw [KeepsSlen, hv] at hw
  exact hw

theorem keepsSlen_inEstablished (u : Stack) (i : Slot) : KeepsSlen u (inEstablished u i) := by
  have hskip : (skipUrgent u).slen = u.slen := by
    unfold skipUrgent
    split_ifs <;> rfl
  have hnote : (noteNewdata (skipUrgent u) i).slen = u.slen := by
    rw [← hskip, noteNewdata]
    split_ifs <;> rfl
  unfold inEstablished
  split_ifs
  · rfl
  · rfl
  · dsimp only
    split_ifs
    · rfl
    · exact hnote

theorem keepsSlen_byState (u : Stack) (i : Slot) : KeepsSlen u (byState u i) := by
  unfold byState
  split
  · unfold inSynRcvd
    split_ifs
    · rfl
    · rfl
  · exact keepsSlen_inEstablished u i
  · unfold inLastAck
    split_ifs
    · rfl
    · rfl
  · simp only [inFinWait1]
    split_ifs <;> rfl
  · simp only [inFinWait2]
    split_ifs <;> rfl
  · rfl
  · unfold inClosing
    split_ifs <;> rfl
  · rfl

theorem keepsSlen_found (u : Stack) (i : Slot) : KeepsSlen u (found u i) := by
  have hack : ∀ v : Stack, (ackInput v i).slen = v.slen := by
    intro v
    unfold ackInput
    split_ifs <;> rfl
  simp only [found]
  split_ifs
  · rfl
  · rfl
  · exact (keepsSlen_byState _ i).congr (hack _)

theorem keepsSlen_tcpInput (u : Stack) : KeepsSlen u (tcpInput u) := by
  have hreset : (reset u).slen = u.slen := by
    unfold reset
    split <;> rfl
  have hlisten : KeepsSlen u (foundListen u) := by
    unfold foundListen
    split
    · rfl
    · dsimp only
      split <;> rfl
  unfold tcpInput
  generalize uipTcpchksum u.buf = sum
  split_ifs
  · rfl
  all_goals
    split
    · exact keepsSlen_found u _
    · first | exact hreset | exact hlisten

/-- **Only a call of the application changes `uip_slen`.** -/
theorem keepsSlen_uipProcessData (u : Stack) : KeepsSlen u (uipProcessData u) := by
  have hicmp : ∀ v : Stack, (icmpEcho v).slen = v.slen := by
    intro v
    unfold icmpEcho
    split <;> rfl
  simp only [uipProcessData]
  generalize uipIpchksum u.buf = sum
  split_ifs
  · rfl
  · rfl
  · rfl
  · rfl
  · exact (keepsSlen_tcpInput _).congr rfl
  · exact hicmp _
  · rfl
  · rfl

/-- **What a poll does before the application is called**: nothing, and it is called
only when the connection is in use and nothing is in flight. -/
theorem uipProcessPoll_cases (u : Stack) (i : Slot) :
    (∃ u', uipProcessPoll u i = .done u' ∧ u'.conns = u.conns ∧
      u'.listenports = u.listenports) ∨
    (∃ u', uipProcessPoll u i = .appcall i u' .appsend ∧ u'.conns = u.conns ∧
      u'.listenports = u.listenports ∧ u'.flags = { poll := true } ∧ u'.slen = u.slen ∧
      u'.buf = u.buf ∧ (u.conns i).tcpstateflags = .established ∧ (u.conns i).len = 0) := by
  simp only [uipProcessPoll]
  split_ifs with h
  · exact Or.inr ⟨_, rfl, rfl, rfl, rfl, rfl, rfl, h.1, h.2⟩
  · exact Or.inl ⟨_, rfl, rfl, rfl⟩

end Uip
end EgosNet
