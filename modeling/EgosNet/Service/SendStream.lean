import EgosNet.Service.Sequence
import EgosNet.Service.Peer

/-!
# What is sent

`sock_send` reports the whole length of a payload as sent.  uIP sends at most a
segment of what it is offered and leaves it to the application to come back with the
rest; the bridge does not, and takes the acknowledgement of the part for that of the
whole.  So what is sent is what was reported only if every payload fits into one
segment at the moment it is offered.  The segment size changes with every window the
peer advertises, so this is a condition on each call (`Whole`), and `WholeStep`
collects the calls of a step.

* `send_stream_intact`: in every run with a single connection whose payloads all
  fit, the stream consists of the first so-and-so many payloads, whole and in order,
  and what is acknowledged is a prefix of them all.
* `send_stream_cut`: with a segment size of two, the third byte of a payload is lost
  and the next payload takes its place.
-/

namespace EgosNet
namespace Service

open Foundation Uip

/-- The payloads for which `sock_send` returned a positive count, each cut to it. -/
def payloads (os : List Outcome) : List (List UInt8) := os.filterMap payloadOf

theorem payloads_append (os : List Outcome) (o : Outcome) :
    payloads (os ++ [o]) = payloads os ++ (payloadOf o).toList := by
  have hone : [o].filterMap payloadOf = (payloadOf o).toList := by
    cases h : payloadOf o <;> simp [h]
  rw [payloads, List.filterMap_append, hone, payloads]

/-- If the call offers a payload that is not in flight yet, a segment has room for
it. -/
def Whole (h : Httpd) (c : Call) : Prop :=
  offers c.flags h = true → c.conn.len = 0 → h.txLen ≤ c.conn.mss

/-- Every payload that is offered in the step fits. -/
def WholeStep (n : Net) (i : Input) : Prop :=
  (polling i.request = true → ∀ c ∈ frameCall n i.rx, Whole n.httpd c) ∧
    ∀ t ∈ taken n i, ∀ c ∈ kickCall t, Whole t.httpd c

instance (h : Httpd) (c : Call) : Decidable (Whole h c) := inferInstanceAs (Decidable (_ → _))

instance (n : Net) (i : Input) : Decidable (WholeStep n i) := inferInstanceAs (Decidable (_ ∧ _))

/-! ## The invariant -/

/-- The stream `sent` against the payloads `ps`. -/
structure Content (h : Httpd) (conns : Slot → UipConn) (sent : List UInt8)
    (ps : List (List UInt8)) (l : List Slot) : Prop where
  whole : ∃ k, sent = (ps.take k).flatten
  unopened : l = [] → ps = []
  handshake : ∀ a, (conns a).tcpstateflags = .synRcvd → ps = []
  /-- The pending payload is the last one, and it is in flight or not yet sent. -/
  pending : ∀ a, (conns a).tcpstateflags = .established → h.txPending = true →
    ∃ k, ps.flatten = (ps.take k).flatten ++ h.txBuf.load 0 h.txLen ∧
      ((conns a).len = 0 → sent = (ps.take k).flatten) ∧
      ((conns a).len ≠ 0 → sent = ps.flatten)
  idle : ∀ a, (conns a).tcpstateflags = .established → h.txPending = false →
    h.connOpen = true → sent = ps.flatten

section Effects

variable {h h' : Httpd} {conns conns' : Slot → UipConn} {sent : List UInt8}
  {ps : List (List UInt8)} {l : List Slot}

/-- Once every connection is over there is nothing more to say. -/
theorem content_over (hover : ∀ j, Over (conns j)) (hwhole : ∃ k, sent = (ps.take k).flatten)
    (hl : l = [] → ps = []) : Content h conns sent ps l :=
  ⟨hwhole, hl, fun a hs => absurd hs (hover a).1, fun a hs => absurd hs (hover a).2,
    fun a hs => absurd hs (hover a).2⟩

/-- The same, when one connection is established. -/
theorem content_established {a : Slot} (hothers : ∀ j, j ≠ a → Over (conns j))
    (hest : (conns a).tcpstateflags = .established) (hl : l = [] → ps = [])
    (hwhole : ∃ k, sent = (ps.take k).flatten)
    (hpend : h.txPending = true →
      ∃ k, ps.flatten = (ps.take k).flatten ++ h.txBuf.load 0 h.txLen ∧
        ((conns a).len = 0 → sent = (ps.take k).flatten) ∧
        ((conns a).len ≠ 0 → sent = ps.flatten))
    (hidle : h.txPending = false → h.connOpen = true → sent = ps.flatten) :
    Content h conns sent ps l := by
  have heq : ∀ j, (conns j).tcpstateflags = .established → j = a := by
    intro j hj
    by_contra hne
    exact (hothers j hne).2 hj
  refine ⟨hwhole, hl, fun j hj => ?_, fun j hj => ?_, fun j hj => ?_⟩
  · by_cases hja : j = a
    · rw [hja, hest] at hj
      cases hj
    · exact absurd hj (hothers j hja).1
  · obtain rfl := heq j hj
    exact hpend
  · obtain rfl := heq j hj
    exact hidle

/-- The connection that is being set up makes a move. -/
theorem content_handshake {a : Slot} {call : Option Call} {data : List UInt8}
    (hmove : Move h (conns a) call h' (conns' a) data) (hothers : ∀ j, j ≠ a → Over (conns' j))
    (hsyn : (conns a).tcpstateflags = .synRcvd) (hps : ps = []) (hl : l = [] → ps = []) :
    Content h' conns' data ps l := by
  have hwhole : ∃ k, ([] : List UInt8) = (ps.take k).flatten := ⟨0, by simp⟩
  cases hmove with
  | stay hs _ _ =>
    have hest : ∀ j, (conns' j).tcpstateflags ≠ .established := by
      intro j
      by_cases hj : j = a
      · rw [hj, hs, hsyn]
        simp
      · exact (hothers j hj).2
    exact ⟨hwhole, hl, fun _ _ => hps, fun j hj => absurd hj (hest j),
      fun j hj => absurd hj (hest j)⟩
  | connect _ hest _ htx =>
    exact content_established hothers hest hl hwhole (by simp [htx]) fun _ _ => by simp [hps]
  | acked hest _ _ _ _ => simp [hsyn] at hest
  | fresh _ hest _ _ _ _ _ _ _ _ => simp [hsyn] at hest
  | ended hover => exact content_over (over_of_others hothers hover) hwhole hl

/-- The connection in use makes a move. -/
theorem content_inUse {a : Slot} {call : Option Call} {data : List UInt8}
    (hc : Content h conns sent ps l) (hest : (conns a).tcpstateflags = .established)
    (hidle : h.txPending = false → h.connOpen = true → (conns a).len = 0)
    (hw : ∀ k ∈ call, Whole h k) (hmove : Move h (conns a) call h' (conns' a) data)
    (hothers : ∀ j, j ≠ a → Over (conns' j)) : Content h' conns' (sent ++ data) ps l := by
  cases hmove with
  | stay hs hk hsame =>
    rw [List.append_nil]
    refine content_established hothers (hs.trans hest) hc.unopened hc.whole ?_ ?_
    · rw [hsame.txPending, hsame.txLen, hsame.txBuf, hk.2]
      exact hc.pending a hest
    · rw [hsame.txPending]
      exact fun htx hopen => hc.idle a hest htx (hsame.connOpen hopen)
  | connect hsyn _ _ _ => simp [hest] at hsyn
  | acked _ hest' hack htx hopen =>
    rw [List.append_nil]
    refine content_established hothers hest' hc.unopened hc.whole (by simp [htx]) ?_
    -- what was in flight was the last payload
    intro _ hopen'
    cases htx' : h.txPending with
    | true =>
      obtain ⟨k, -, -, hall⟩ := hc.pending a hest htx'
      exact hall hack.1
    | false => exact absurd (hidle htx' (hopen hopen')) hack.1
  | @fresh k hk _ hest' hoff hlen hzero hlen' _ hpos hsame =>
    have hmin : min h.txLen k.conn.mss = h.txLen := Nat.min_eq_left (hw k hk hoff hlen)
    have htx : h.txPending = true := by
      simp only [offers, decide_eq_true_eq] at hoff
      exact hoff.2.1
    obtain ⟨m, hps, hsent, -⟩ := hc.pending a hest htx
    have hall : sent ++ h.txBuf.load 0 (min h.txLen k.conn.mss) = ps.flatten := by
      rw [hmin, hsent hzero, hps]
    rw [hall]
    refine content_established hothers hest' hc.unopened ⟨ps.length, by rw [List.take_length]⟩
      (fun _ => ?_) (by simp [hsame.txPending, htx])
    rw [hsame.txLen, hsame.txBuf]
    exact ⟨m, hps, fun hz => by omega, fun _ => rfl⟩
  | ended hover =>
    rw [List.append_nil]
    exact content_over (over_of_others hothers hover) hc.whole hc.unopened

end Effects

/-- **One run of `uip_process` keeps the invariant**, if what is offered fits. -/
theorem content_effect {h : Httpd} {conns conns' : Slot → UipConn} {call : Option Call}
    {ev : List Event} {w : Wire} {ps : List (List UInt8)} {l : List Slot}
    (hc : Content h conns w.sent ps l) (hp : Phase h conns w.sent l)
    (heff : Effect h conns conns' call ev) (hfits : h.txLen ≤ NET_BUF_SIZE)
    (hone : (l ++ openings ev).length ≤ 1) (hw : ∀ k ∈ call, Whole h k) :
    Content (noted h call) conns' (ev.foldl Wire.event w).sent ps (l ++ openings ev) := by
  have hl : l ++ openings ev = [] → ps = [] := fun hnil =>
    hc.unopened (List.append_eq_nil_iff.mp hnil).1
  cases hp with
  | unopened hover _ _ _ =>
    by_cases hev : openings ev = []
    · obtain ⟨hover', hsent', -⟩ := over_effect (w := w) heff hover hev
      rw [hsent']
      exact content_over hover' hc.whole hl
    · obtain ⟨i, -, rfl, hsent', hothers, hstep⟩ := opened_effect (w := w) heff hover hev
      rw [hsent']
      have hest : ∀ j, (conns' j).tcpstateflags ≠ .established := by
        intro j
        by_cases hj : j = i
        · rw [hj, hstep.synRcvd]
          simp
        · exact (hothers j hj).2
      exact ⟨hc.whole, hl, fun _ _ => hc.unopened rfl, fun j hj => absurd hj (hest j),
        fun j hj => absurd hj (hest j)⟩
  | @handshake a hothers hsyn _ _ _ htx hsent =>
    have hev := openings_eq_nil hone (by simp)
    have hps := hc.handshake a hsyn
    obtain ⟨hothers', data, hsent', hmove⟩ := move_effect (w := w) heff hothers hev
      (fun _ => htx) (fun hest => by simp [hsyn] at hest) hfits
    rw [hsent', hsent, List.nil_append]
    exact content_handshake hmove hothers' hsyn hps hl
  | @inUse a hothers hest hal _ _ hidle =>
    have hev := openings_eq_nil hone (by simp)
    obtain ⟨hothers', data, hsent', hmove⟩ := move_effect (w := w) heff hothers hev
      (fun hsyn => by simp [hest] at hsyn) (fun _ => hal) hfits
    rw [hsent', hev, List.append_nil]
    exact content_inUse hc hest hidle hw hmove hothers'
  | ended hover =>
    have hev := openings_eq_nil hone (by simp)
    obtain ⟨hover', hsent', -⟩ := over_effect (w := w) heff hover hev
    rw [hsent']
    exact content_over hover' hc.whole hl

/-! ## Runs -/

section Steps

variable {n : Net} {w : Wire} {l : List Slot} {ps : List (List UInt8)}

/-- The data that has arrived plays no role. -/
theorem Content.rxLen {h : Httpd} {conns : Slot → UipConn} {sent : List UInt8}
    (hc : Content h conns sent ps l) (r : ℕ) : Content { h with rxLen := r } conns sent ps l :=
  ⟨hc.whole, hc.unopened, hc.handshake, hc.pending, hc.idle⟩

theorem content_netPoll {rx : Rx} (hc : Content n.httpd n.uip.conns w.sent ps l)
    (hp : Phase n.httpd n.uip.conns w.sent l) (hn : Coherent n)
    (hw : ∀ c ∈ frameCall n rx, Whole n.httpd c)
    (hone : (l ++ openings (netPoll n rx).2).length ≤ 1) :
    Content (netPoll n rx).1.httpd (netPoll n rx).1.uip.conns
      ((netPoll n rx).2.foldl Wire.event w).sent ps (l ++ openings (netPoll n rx).2) := by
  rw [← openings_connEvents] at hone ⊢
  have hc' := content_effect hc hp (hp.effect_netPoll hn rx) hn.fits hone hw
  rw [foldl_connEvents] at hc'
  obtain ⟨r, hr⟩ := netPoll_noted n rx
  rw [hr]
  exact hc'.rxLen r

theorem content_kick (hc : Content n.httpd n.uip.conns w.sent ps l)
    (hp : Phase n.httpd n.uip.conns w.sent l) (hn : Coherent n)
    (hslen : Drained n) (hw : ∀ c ∈ kickCall n, Whole n.httpd c) (hone : l.length ≤ 1) :
    Content (kickActiveConnection n).1.httpd (kickActiveConnection n).1.uip.conns
      ((kickActiveConnection n).2.foldl Wire.event w).sent ps l := by
  have hop : openings (connEvents (kickActiveConnection n).2) = [] := by
    rw [openings_connEvents, openings_kick]
  have hc' := content_effect hc hp (effect_kick hn.fits hslen) hn.fits
    (by rwa [hop, List.append_nil]) hw
  rw [foldl_connEvents, hop, List.append_nil] at hc'
  obtain ⟨r, hr⟩ := kick_noted n
  rw [hr]
  exact hc'.rxLen r

/-- **Taking a payload over**: everything before it has been sent. -/
theorem content_taken {t : Net} {i : Input} {sent : List UInt8} {pay : Option (List UInt8)}
    (ht : taken n i = some t) (hm : Coherent (netPoll n i.rx).1)
    (hp : Phase (netPoll n i.rx).1.httpd (netPoll n i.rx).1.uip.conns sent l)
    (hc : Content (netPoll n i.rx).1.httpd (netPoll n i.rx).1.uip.conns sent ps l)
    (hpay : pay.getD [] = t.httpd.txBuf.load 0 t.httpd.txLen) :
    Content t.httpd t.uip.conns sent (ps ++ pay.toList) l := by
  obtain ⟨hopen, htx, -⟩ := idle_of_taken ht hm
  obtain ⟨hconns, -, htpend, -⟩ := taken_frame ht
  have hflat : (ps ++ pay.toList).flatten = ps.flatten ++ t.httpd.txBuf.load 0 t.httpd.txLen := by
    rw [← hpay]
    cases pay <;> simp
  rw [hconns]
  cases hp with
  | unopened _ hclosed _ _ => simp [hopen] at hclosed
  | handshake _ _ _ _ hclosed _ _ => simp [hopen] at hclosed
  | @inUse a hothers hest _ _ _ hidle =>
    have hsent := hc.idle a hest htx hopen
    have htake : ((ps ++ pay.toList).take ps.length).flatten = ps.flatten := by
      rw [List.take_left]
    refine content_established hothers hest (by simp) ⟨ps.length, by rw [htake, hsent]⟩
      (fun _ => ⟨ps.length, by rw [hflat, htake], fun _ => by rw [htake, hsent], fun hlen => ?_⟩)
      (by simp [htpend])
    exact absurd (hidle htx hopen) hlen
  | ended hover =>
    obtain ⟨k, hk⟩ := hc.whole
    refine content_over hover ⟨min k ps.length, ?_⟩ (by simp)
    rw [List.take_append_of_le_length (Nat.min_le_right _ _), hk]
    congr 1
    rw [List.take_eq_take_iff]
    omega

/-- **Every step keeps the invariant**, if what is offered fits. -/
theorem content_step {n' : Net} {i : Input} {o : Outcome} (hn : Coherent n)
    (hp : Phase n.httpd n.uip.conns w.sent l) (hc : Content n.httpd n.uip.conns w.sent ps l)
    (hw : WholeStep n i) (h : step n i = some (n', o))
    (hone : (l ++ openings o.events).length ≤ 1) :
    Content n'.httpd n'.uip.conns (o.events.foldl Wire.event w).sent
      (ps ++ (payloadOf o).toList) (l ++ openings o.events) := by
  have hserved := served_step h
  generalize o.events = ev at hserved hone ⊢
  generalize payloadOf o = pay at hserved ⊢
  generalize isAccept o = acc at hserved
  have hm := coherent_netPoll hn i.rx
  cases hserved with
  | card hev hsame =>
    rw [← foldl_connEvents, ← openings_connEvents, hev, hsame.1, hsame.2]
    simpa using hc
  | listened hsame =>
    rw [hsame.1, hsame.2]
    have hreset : Content (resetSocketState n).httpd n.uip.conns w.sent ps l :=
      ⟨hc.whole, hc.unopened, hc.handshake, fun _ _ htx => by simp [resetSocketState] at htx,
        fun _ _ _ hopen => by simp [resetSocketState] at hopen⟩
    simpa [resetSocketState] using hreset
  | polled hpoll hsame =>
    rw [hsame.1, hsame.2, Option.toList_none, List.append_nil]
    exact content_netPoll hc hp hn (hw.1 hpoll) hone
  | accepted hpoll _ hsame =>
    rw [hsame.1, hsame.2, Option.toList_none, List.append_nil]
    have hc' := content_netPoll hc hp hn (hw.1 hpoll) hone
    exact ⟨hc'.whole, hc'.unopened, hc'.handshake, hc'.pending, hc'.idle⟩
  | @sent t pay ht hsame _ hpay =>
    rw [openings_append, openings_kick, List.append_nil] at hone ⊢
    have hpm := phase_netPoll hp hn i.rx hone
    have hcm := content_netPoll hc hp hn (hw.1 (taken_spec ht).1) hone
    obtain ⟨hct, hslen⟩ := coherent_taken ht hm
    rw [hsame.1, hsame.2, List.foldl_append]
    exact content_kick (content_taken ht hm hpm hcm hpay) (phase_taken ht hm hpm) hct hslen
      (hw.2 t ht) hone
  | closed hpoll hsame =>
    rw [openings_append, openings_kick, List.append_nil] at hone ⊢
    have hcm := content_netPoll hc hp hn (hw.1 hpoll) hone
    obtain ⟨hct, hslen⟩ := coherent_askClose hm
    rw [hsame.1, hsame.2, List.foldl_append, Option.toList_none, List.append_nil]
    -- a call that closes offers nothing
    have hoff : ∀ c ∈ kickCall (askClose (netPoll n i.rx).1),
        Whole (askClose (netPoll n i.rx).1).httpd c := by
      intro c _ hoff
      simp [offers, askClose] at hoff
    have hca : Content (askClose (netPoll n i.rx).1).httpd (askClose (netPoll n i.rx).1).uip.conns
        ((netPoll n i.rx).2.foldl Wire.event w).sent ps (l ++ openings (netPoll n i.rx).2) :=
      ⟨hcm.whole, hcm.unopened, hcm.handshake, hcm.pending, hcm.idle⟩
    exact content_kick hca (phase_askClose (phase_netPoll hp hn i.rx hone)) hct hslen hoff hone

end Steps

theorem content_run {is : List Input} {os : List Outcome} {n : Net}
    (hrun : Run step WholeStep Net.init is os n) (hone : (openings (history os)).length ≤ 1) :
    Content n.httpd n.uip.conns (wire os).sent (payloads os) (openings (history os)) := by
  induction hrun with
  | nil => exact content_over (fun j => by simp [Net.init, uipInit, Over]) ⟨0, rfl⟩ fun _ => rfl
  | @snoc is os n n' i o hrun hw hs ih =>
    have hone' : (openings (history os)).length ≤ 1 := by
      rw [history_append, openings_append, List.length_append] at hone
      omega
    rw [history_append, openings_append] at hone ⊢
    rw [wire_append, payloads_append]
    exact content_step (coherent_run hrun) (phase_run hrun hone') (ih hone') hw hs hone

/-- **The stream is what was reported.**  In every run with a single connection in
which every payload fits when it is offered: what the peer has acknowledged is a prefix
of the payloads for which `sock_send` returned a positive count, and what was sent is
the first so-and-so many of them, each of them whole. -/
theorem send_stream_intact {is : List Input} {os : List Outcome} {n : Net}
    (hrun : Run step WholeStep Net.init is os n) (hone : (openings (history os)).length ≤ 1) :
    (wire os).acked <+: (payloads os).flatten ∧
      ∃ k, (wire os).sent = ((payloads os).take k).flatten := by
  obtain ⟨k, hk⟩ := (content_run hrun hone).whole
  refine ⟨(acked_prefix_sent os).trans ?_, k, hk⟩
  rw [hk]
  refine ⟨((payloads os).drop k).flatten, ?_⟩
  rw [← List.flatten_append, List.take_append_drop]

/-! ## Two payloads -/

/-- A client that takes segments of `mss` bytes is sent three bytes and then two.  It
acknowledges them with the numbers `first` and `second`. -/
def twoPayloads (mss first second : ℕ) : List Input :=
  listen80 :: connect 1000 mss ++
    [Request.alone (.sockSend 1 3 (payload [1, 2, 3])),
      Request.receiving .sockAccept
        { port := 1000, seqno := 101, ackno := first, flags := TCP_ACK },
      Request.alone (.sockSend 1 2 (payload [4, 5])),
      Request.receiving .sockAccept
        { port := 1000, seqno := 101, ackno := second, flags := TCP_ACK }]

theorem send_stream_intact_twoPayloads :
    ∃ os n, Run step WholeStep Net.init (twoPayloads 100 4 6) os n ∧
      (openings (history os)).length ≤ 1 ∧ (wire os).acked = [1, 2, 3, 4, 5] ∧
      (wire os).acked <+: (payloads os).flatten := by
  have hexec : ((exec (guarded step WholeStep) Net.init (twoPayloads 100 4 6)).map fun r =>
      (decide ((openings (history r.2)).length ≤ 1), (wire r.2).acked)) =
      some (true, [1, 2, 3, 4, 5]) := by decide +kernel
  obtain ⟨⟨n, os⟩, hr, hval⟩ := Option.map_eq_some_iff.mp hexec
  simp only [Prod.mk.injEq, decide_eq_true_eq] at hval
  obtain ⟨hone, hacked⟩ := hval
  have hrun := run_of_exec_guarded hr
  exact ⟨os, n, hrun, hone, hacked, (send_stream_intact hrun hone).1⟩

/-- **The third byte is lost** when a segment has room for two. -/
theorem send_stream_cut :
    ∃ os n, Run step Free Net.init (twoPayloads 2 3 5) os n ∧
      (openings (history os)).length ≤ 1 ∧ payloads os = [[1, 2, 3], [4, 5]] ∧
      (wire os).acked = [1, 2, 4, 5] ∧ ¬ (wire os).acked <+: (payloads os).flatten := by
  have hexec : ((exec step Net.init (twoPayloads 2 3 5)).map fun r =>
      (decide ((openings (history r.2)).length ≤ 1), payloads r.2, (wire r.2).acked)) =
      some (true, [[1, 2, 3], [4, 5]], [1, 2, 4, 5]) := by decide +kernel
  obtain ⟨⟨n, os⟩, hr, hval⟩ := Option.map_eq_some_iff.mp hexec
  simp only [Prod.mk.injEq, decide_eq_true_eq] at hval
  obtain ⟨hone, hps, hacked⟩ := hval
  refine ⟨os, n, run_of_exec hr, hone, hps, hacked, ?_⟩
  rw [hps, hacked]
  decide

end Service
end EgosNet
