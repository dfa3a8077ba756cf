import EgosNet.Service.Peer
import EgosNet.Service.Sequence
import EgosNet.Uip.Connection

/-!
# The table of connections, along runs

A frame and a kick are the only things that change the table of connections, and each changes at
most one slot of it.  `FrameStep` and `KickStep` say how, in terms of the automaton of
`Uip.Connection`, and `tableStep_step` says that a step of the service is one after the other.  Two
rules follow.  `Followed.run` is the general one, for what relates the table to the calls of the
application so far; `Maintained.run` is for the table alone: what a frame and a kick keep holds in
every state of every run, whatever is requested and whatever arrives.

Two things are proved with it.

* `sized_run`: the segment size of a connection, and with it what may be outstanding, never
  exceeds `UIP_TCP_MSS`, although the size is taken from the peer's option and then from every
  window that the peer advertises, and although a connection opened without the option keeps the
  size of the one that had the slot before.
* `endpoints_unique`: no two connections have the same endpoints.  `uip_process` looks for a
  connection of a packet from the first slot on and takes the first that fits; that there is no
  other makes the order irrelevant (`endpoints_unique`).
-/

namespace EgosNet
namespace Service

open Foundation Uip

/-! ## Steps of the table -/

/-- What a frame, with `m` in the buffer, does to the table; with the calls of the application and
the slots given to new connections. -/
inductive FrameStep (m : Mem) (t : Slot → UipConn) :
    (Slot → UipConn) → List Call → List Slot → Prop
  | same : FrameStep m t t [] []
  | quiet {i : Slot} : isFor m (t i) = true → (receive (headerOf m) (t i)).call = none →
      FrameStep m t (Function.update t i (receive (headerOf m) (t i)).conn) [] []
  | called {k : Call} {c : UipConn} : isFor m (t k.slot) = true →
      (receive (headerOf m) (t k.slot)).call = some (k.flags, k.resume) →
      (k.flags.newdata = true → k.data =
        m.load (UIP_IPTCPH_LEN + UIP_LLH_LEN + skipped m (t k.slot).tcpstateflags)
          (dataLength m (t k.slot).tcpstateflags)) →
      Answered (receive (headerOf m) (t k.slot)).conn k.resume c →
      FrameStep m t (Function.update t k.slot c) [k] []
  | opened {i : Slot} {c : UipConn} : (∀ j, isFor m (t j) = false) →
      (t i).tcpstateflags = .closed ∨ (t i).tcpstateflags = .timeWait → Opened m (t i) c →
      FrameStep m t (Function.update t i c) [] [i]

/-- What a kick does to it. -/
inductive KickStep (t : Slot → UipConn) : (Slot → UipConn) → List Call → Prop
  | same : KickStep t t []
  | polled {k : Call} {c : UipConn} : k.flags = { poll := true } →
      (t k.slot).tcpstateflags = .established → (t k.slot).len = 0 →
      Answered (t k.slot) .appsend c → KickStep t (Function.update t k.slot c) [k]

section Steps

variable {n : Net} {rx : Rx}

/-- The application leaves the table to uIP. -/
theorem conns_complete_appcall (h : Httpd) (u : Stack) (i : Slot) (k : Resume) :
    ∃ c, Answered (u.conns i) k c ∧
      (complete h (.appcall i u k)).1.1.conns = Function.update u.conns i c := by
  obtain ⟨c, hc, hconns⟩ := answered_resume (httpdAppcall u h).1 i k
  rw [(httpdAppcall_conns u h).1] at hc hconns
  exact ⟨c, hc, hconns⟩

/-- **What a frame does to the table.** -/
theorem frameStep_netPoll (n : Net) (rx : Rx) :
    FrameStep (earthNetRecv n.uip rx).buf n.uip.conns (netPoll n rx).1.uip.conns
      (calls (netPoll n rx).2) (openings (netPoll n rx).2) := by
  rcases netPoll_cases n rx with ⟨-, -, hu, hev⟩ | ⟨-, -, n', hu, heq, hev⟩ | ⟨-, v, -, hdef, heq⟩
  · rw [hu.conns, hev]
    exact .same
  · rw [heq, syncSocketState_uip, hu.conns, hev.calls, hev.openings]
    exact .same
  · have hruling := ruling_uipProcessData (earthNetRecv n.uip rx)
    rw [← hdef] at hruling
    rw [heq, syncSocketState_uip, process_conns, calls_process, openings_process]
    dsimp only
    cases hruling with
    | @ignored u' hc =>
      rw [show (complete n.httpd (.done u')).1.1.conns = u'.conns from rfl, hc, earthNetRecv_conns]
      exact .same
    | @received i v hfor hreal =>
      rw [earthNetRecv_conns] at hfor hreal
      unfold Realises at hreal
      split at hreal
      · rename_i hcall
        obtain ⟨u', rfl, hc⟩ := hreal
        rw [show (complete n.httpd (.quiet i u')).1.1.conns = u'.conns from rfl, hc,
          show openings (complete n.httpd (.quiet i u')).2 = [] from openings_segments i u']
        exact .quiet hfor hcall
      · rename_i f k hcall
        obtain ⟨u', rfl, hc, rfl⟩ := hreal
        obtain ⟨c, hanswer, hconns⟩ := conns_complete_appcall n.httpd u' i k
        rw [hc, Function.update_self] at hanswer
        rw [hconns, hc, Function.update_idem,
          show openings (complete n.httpd (.appcall i u' k)).2 = [] from openings_segments i _]
        refine .called (k := callOf i u' n.httpd k) hfor hcall (fun hnew => ?_) hanswer
        obtain ⟨hbuf, happ, hlen⟩ := delivers_uipProcessData hdef.symm hnew
        rw [earthNetRecv_conns] at happ hlen
        show u'.buf.load u'.appdata u'.len = _
        rw [hbuf, happ, hlen]
        rfl
    | @opened i u' c hnone hfree hopened hc =>
      rw [earthNetRecv_conns] at hnone hfree hopened hc
      rw [show (complete n.httpd (.listen i u')).1.1.conns = u'.conns from rfl, hc,
        show openings (complete n.httpd (.listen i u')).2 = [i] from
          congrArg (i :: ·) (openings_segments i u')]
      exact .opened hnone hfree hopened

/-- **What a kick does to the table.** -/
theorem kickStep_kick (n : Net) : KickStep n.uip.conns (kickActiveConnection n).1.uip.conns
    (calls (kickActiveConnection n).2) := by
  rw [calls_kick, kickCall]
  rcases kick_cases n with ⟨-, hv, heq⟩ | ⟨-, hv, heq⟩ | ⟨-, i, -, hv, heq⟩
  · rw [heq, hv]
    exact .same
  · rw [heq, hv, syncSocketState_uip]
    exact .same
  · rw [heq, hv, syncSocketState_uip, process_conns]
    rcases uipProcessPoll_cases n.uip i with ⟨u', hu, hc, -⟩ | ⟨u', hu, hc, -, hf, -, -, hest, hlen⟩
    · rw [hu, show (complete n.httpd (.done u')).1.1.conns = u'.conns from rfl, hc]
      exact .same
    · obtain ⟨c, hanswer, hconns⟩ := conns_complete_appcall n.httpd u' i .appsend
      rw [hc] at hanswer hconns
      rw [hu, hconns]
      exact .polled (k := callOf i u' n.httpd .appsend) hf hest hlen hanswer

end Steps

/-- What the poll of the card does to it: nothing, if no frame has arrived. -/
inductive CardStep (n : Net) (rx : Rx) : (Slot → UipConn) → List Call → List Slot → Prop
  | empty : rx.frame = [] → CardStep n rx n.uip.conns [] []
  | frame {t : Slot → UipConn} {cs : List Call} {opens : List Slot} : rx.frame ≠ [] →
      FrameStep (earthNetRecv n.uip rx).buf n.uip.conns t cs opens → CardStep n rx t cs opens

theorem cardStep_netPoll (n : Net) (rx : Rx) :
    CardStep n rx (netPoll n rx).1.uip.conns (calls (netPoll n rx).2)
      (openings (netPoll n rx).2) := by
  by_cases hnil : rx.frame = []
  · have hsame : (netPoll n rx).1.uip.conns = n.uip.conns ∧ (netPoll n rx).2 = [] := by
      rw [netPoll, if_pos hnil]
      exact ⟨rfl, rfl⟩
    rw [hsame.1, hsame.2]
    exact .empty hnil
  · exact .frame hnil (frameStep_netPoll n rx)

/-- What a request does to the table: nothing, or first what the frame does and then what the kick
does, if there is one. -/
inductive TableStep (n : Net) (i : Input) (n' : Net) (o : Outcome) : Prop
  | idle : n'.uip.conns = n.uip.conns → calls o.events = [] → openings o.events = [] →
      TableStep n i n' o
  | served {t : Slot → UipConn} {cs cs' : List Call} : polling i.request = true →
      CardStep n i.rx t cs (openings (netPoll n i.rx).2) →
      KickStep t n'.uip.conns cs' → calls o.events = cs ++ cs' →
      openings o.events = openings (netPoll n i.rx).2 → TableStep n i n' o

/-- **Every step is one of these.** -/
theorem tableStep_step {n n' : Net} {i : Input} {o : Outcome} (h : step n i = some (n', o)) :
    TableStep n i n' o := by
  have hframe := cardStep_netPoll n i.rx
  have hserved := served_step h
  generalize hev : o.events = ev at hserved
  generalize payloadOf o = pay at hserved
  generalize isAccept o = acc at hserved
  cases hserved with
  | card hconn hsame =>
    refine .idle hsame.1 ?_ ?_
    · rw [hev, ← calls_connEvents, hconn, calls_nil]
    · rw [hev, ← openings_connEvents, hconn, openings_nil]
  | listened hsame =>
    refine .idle hsame.1 ?_ ?_
    · rw [hev, calls_nil]
    · rw [hev, openings_nil]
  | polled hp hsame =>
    refine .served hp hframe ?_ (by rw [hev, List.append_nil]) (by rw [hev])
    rw [hsame.1]
    exact .same
  | accepted hp _ hsame =>
    refine .served hp hframe ?_ (by rw [hev, List.append_nil]) (by rw [hev])
    rw [hsame.1]
    exact .same
  | sent ht hsame _ _ =>
    refine .served (taken_spec ht).1 hframe ?_ (by rw [hev, calls_append])
      (by rw [hev, openings_append, openings_kick, List.append_nil])
    rw [hsame.1, ← (taken_frame ht).1]
    exact kickStep_kick _
  | closed hp hsame =>
    refine .served hp hframe ?_ (by rw [hev, calls_append])
      (by rw [hev, openings_append, openings_kick, List.append_nil])
    rw [hsame.1]
    exact kickStep_kick (askClose (netPoll n i.rx).1)

/-- The connection that a step opens: the `SYN` has made it, and the kick, if there was one, has
left it alone. -/
theorem opened_step {n n' : Net} {inp : Input} {o : Outcome} {i : Slot}
    (h : step n inp = some (n', o)) (hi : i ∈ openings o.events) :
    Opened (earthNetRecv n.uip inp.rx).buf (n.uip.conns i) (n'.uip.conns i) := by
  cases tableStep_step h with
  | idle _ _ hopens =>
    rw [hopens] at hi
    simp at hi
  | @served t cs cs' _ hcard hkick _ hopens =>
    rw [hopens] at hi
    generalize openings (netPoll n inp.rx).2 = opens at hcard hi
    obtain - | ⟨-, hframe⟩ := hcard
    · simp at hi
    cases hframe with
    | same => simp at hi
    | quiet _ _ => simp at hi
    | called _ _ _ _ => simp at hi
    | @opened j c _ _ hopened =>
      obtain rfl : i = j := by simpa using hi
      have hself : Function.update n.uip.conns i c i = c := by rw [Function.update_self]
      generalize Function.update n.uip.conns i c = t at hkick hself
      generalize n'.uip.conns = t' at hkick ⊢
      cases hkick with
      | same =>
        rw [hself]
        exact hopened
      | @polled k c' _ hest _ _ =>
        have hki : i ≠ k.slot := by
          intro hki
          rw [← hki, hself, hopened.state.1] at hest
          exact absurd hest (by decide)
        rw [Function.update_of_ne hki, hself]
        exact hopened

/-! ## Who sends -/

/-- The segments of a packet are those of the connection it belongs to. -/
theorem emitted_complete {h : Httpd} {v : Verdict} {x : Slot × Segment}
    (hx : x ∈ emitted (complete h v).2) :
    (∃ u, v = .quiet x.1 u) ∨ (∃ u, v = .listen x.1 u) ∨ ∃ u k, v = .appcall x.1 u k := by
  have hslot {i : Slot} {u : Stack} (hx : x ∈ emitted (segments i u)) : x.1 = i := by
    unfold segments at hx
    split_ifs at hx
    · rw [List.mem_singleton.mp hx]
    · simp at hx
  cases v with
  | done u => exact absurd hx List.not_mem_nil
  | quiet i u => exact .inl ⟨u, by rw [hslot hx]⟩
  | listen i u => exact .inr (.inl ⟨u, by rw [hslot (i := i) (u := u) hx]⟩)
  | appcall i u k =>
    exact .inr (.inr ⟨u, k, by rw [hslot (i := i) (u := k.run (httpdAppcall u h).1 i) hx]⟩)

theorem emitted_process (n : Net) (v : Verdict) :
    emitted (process n v).2 = emitted (complete n.httpd v).2 := by
  rw [← emitted_connEvents, connEvents_process]

/-- Of a frame, they are those of the connection that the packet is for, or that it opens. -/
theorem emitted_netPoll {n : Net} {rx : Rx} {x : Slot × Segment}
    (hx : x ∈ emitted (netPoll n rx).2) : rx.frame ≠ [] ∧
      (isFor (earthNetRecv n.uip rx).buf (n.uip.conns x.1) = true ∨
        x.1 ∈ openings (netPoll n rx).2) := by
  rcases netPoll_cases n rx with ⟨-, -, -, hev⟩ | ⟨-, -, n', -, -, hev⟩ | ⟨hne, v, -, hdef, heq⟩
  · rw [hev] at hx
    exact absurd hx List.not_mem_nil
  · rw [← emitted_connEvents, hev.connEvents] at hx
    exact absurd hx List.not_mem_nil
  · have hruling := ruling_uipProcessData (earthNetRecv n.uip rx)
    rw [← hdef] at hruling
    rw [heq, emitted_process] at hx
    rw [heq, openings_process]
    refine ⟨hne, ?_⟩
    dsimp only at hx ⊢
    have hv := emitted_complete hx
    cases hruling with
    | ignored _ => simp at hv
    | @received i v hfor hreal =>
      rw [earthNetRecv_conns] at hfor
      have hslot : x.1 = i := by
        unfold Realises at hreal
        split at hreal
        · obtain ⟨u, rfl, -⟩ := hreal
          simpa [eq_comm] using hv
        · obtain ⟨u, rfl, -, -⟩ := hreal
          simpa [eq_comm] using hv
      rw [hslot]
      exact .inl hfor
    | @opened i u _ _ _ _ _ =>
      have hslot : x.1 = i := by simpa [eq_comm] using hv
      rw [hslot]
      exact .inr List.mem_cons_self

/-- Of a kick, they are those of a connection that is in use and has nothing outstanding. -/
theorem emitted_kick {n : Net} {x : Slot × Segment}
    (hx : x ∈ emitted (kickActiveConnection n).2) :
    (n.uip.conns x.1).tcpstateflags = .established ∧ (n.uip.conns x.1).len = 0 := by
  rcases kick_cases n with ⟨-, -, heq⟩ | ⟨-, -, heq⟩ | ⟨-, i, -, -, heq⟩
  · rw [heq] at hx
    exact absurd hx List.not_mem_nil
  · rw [heq] at hx
    exact absurd hx List.not_mem_nil
  · rw [heq] at hx
    replace hx : x ∈ emitted (process n (uipProcessPoll n.uip i)).2 := hx
    rw [emitted_process] at hx
    have hv := emitted_complete hx
    rcases uipProcessPoll_cases n.uip i with ⟨u, hu, -⟩ | ⟨u, hu, -, -, -, -, -, hest, hlen⟩
    · simp [hu] at hv
    · have hslot : x.1 = i := by simpa [hu, eq_comm] using hv
      rw [hslot]
      exact ⟨hest, hlen⟩

/-- **Who sends in a step**: the connection that the frame is for, the one it opens, and the one
that is polled afterwards. -/
theorem emitted_step {n n' : Net} {i : Input} {o : Outcome} (h : step n i = some (n', o))
    {x : Slot × Segment} (hx : x ∈ emitted o.events) : polling i.request = true ∧
      (i.rx.frame ≠ [] ∧ (isFor (earthNetRecv n.uip i.rx).buf (n.uip.conns x.1) = true ∨
          x.1 ∈ openings (netPoll n i.rx).2) ∨
        ((netPoll n i.rx).1.uip.conns x.1).tcpstateflags = .established ∧
          ((netPoll n i.rx).1.uip.conns x.1).len = 0) := by
  have hserved := served_step h
  generalize o.events = ev at hserved hx
  generalize payloadOf o = pay at hserved
  generalize isAccept o = acc at hserved
  cases hserved with
  | card hconn _ =>
    rw [← emitted_connEvents, hconn] at hx
    exact absurd hx List.not_mem_nil
  | listened _ => exact absurd hx List.not_mem_nil
  | polled hp _ => exact ⟨hp, .inl (emitted_netPoll hx)⟩
  | accepted hp _ _ => exact ⟨hp, .inl (emitted_netPoll hx)⟩
  | sent ht _ _ _ =>
    refine ⟨(taken_spec ht).1, ?_⟩
    rw [emitted_append, List.mem_append] at hx
    refine hx.imp emitted_netPoll fun hx => ?_
    rw [← (taken_frame ht).1]
    exact emitted_kick hx
  | closed hp _ =>
    rw [emitted_append, List.mem_append] at hx
    exact ⟨hp, hx.imp emitted_netPoll fun hx => emitted_kick (n := askClose (netPoll n i.rx).1) hx⟩

/-! ## Runs -/

/-- The calls of the application in a run. -/
def callsOf (os : List Outcome) : List Call := os.flatMap fun o => calls o.events

@[simp] theorem callsOf_nil : callsOf [] = [] := rfl

@[simp] theorem callsOf_append (os : List Outcome) (o : Outcome) :
    callsOf (os ++ [o]) = callsOf os ++ calls o.events := by
  simp [callsOf]

/-- A frame and a kick keep `P`, which speaks of the table and of the calls so far.  `G` is what is
assumed of the packet and of the slots that it opens. -/
structure Followed (G : Mem → List Slot → Prop) (P : List Call → (Slot → UipConn) → Prop) :
    Prop where
  frame : ∀ m past t t' cs opens, P past t → FrameStep m t t' cs opens → G m opens →
    P (past ++ cs) t'
  kick : ∀ past t t' cs, P past t → KickStep t t' cs → P (past ++ cs) t'

/-- What is assumed of the frame that arrives with a request, if one does. -/
def Bringing (G : Mem → List Slot → Prop) (n : Net) (i : Input) : Prop :=
  polling i.request = true → i.rx.frame ≠ [] →
    G (earthNetRecv n.uip i.rx).buf (openings (netPoll n i.rx).2)

instance (G : Mem → List Slot → Prop) [∀ m opens, Decidable (G m opens)] (n : Net) (i : Input) :
    Decidable (Bringing G n i) :=
  inferInstanceAs (Decidable (_ → _ → _))

/-- **The rule of the table**: what a frame and a kick keep holds in every run. -/
theorem Followed.run {G : Mem → List Slot → Prop} {P : List Call → (Slot → UipConn) → Prop}
    (h : Followed G P) {is : List Input} {os : List Outcome} {n₀ n : Net}
    (h0 : P [] n₀.uip.conns) (hrun : Run step (Bringing G) n₀ is os n) :
    P (callsOf os) n.uip.conns := by
  refine hrun.invariant (P := fun os (n : Net) => P (callsOf os) n.uip.conns) ?_ h0
  intro os n i n' o hn hG hs
  rw [callsOf_append]
  cases tableStep_step hs with
  | idle hconns hcalls _ =>
    rw [hconns, hcalls, List.append_nil]
    exact hn
  | @served t cs cs' hp hcard hkick hcalls _ =>
    have hG := hG hp
    generalize openings (netPoll n i.rx).2 = opens at hcard hG
    rw [hcalls, ← List.append_assoc]
    refine h.kick _ _ _ _ ?_ hkick
    cases hcard with
    | empty _ =>
      rw [List.append_nil]
      exact hn
    | frame hne hframe => exact h.frame _ _ _ _ _ _ hn hframe (hG hne)

/-- A frame and a kick keep `P`, which speaks of the table alone. -/
structure Maintained (P : (Slot → UipConn) → Prop) : Prop where
  frame : ∀ m t t' cs opens, P t → FrameStep m t t' cs opens → P t'
  kick : ∀ t t' cs, P t → KickStep t t' cs → P t'

/-- The rule for such a property. -/
theorem Maintained.run {P : (Slot → UipConn) → Prop} (h : Maintained P) (h0 : P Net.init.uip.conns)
    {C : Net → Input → Prop} {is : List Input} {os : List Outcome} {n : Net}
    (hrun : Run step C Net.init is os n) : P n.uip.conns := by
  have hfollowed : Followed (fun _ _ => True) fun _ t => P t :=
    ⟨fun m _ t t' cs opens ht hs _ => h.frame m t t' cs opens ht hs,
      fun _ t t' cs ht hs => h.kick t t' cs ht hs⟩
  exact hfollowed.run h0 (hrun.mono fun _ _ _ _ _ => trivial)

/-! ## The segment size -/

/-- Neither the segment size nor what is outstanding exceeds `UIP_TCP_MSS`. -/
structure Sized (c : UipConn) : Prop where
  initialmss : c.initialmss ≤ UIP_TCP_MSS
  mss : c.mss ≤ UIP_TCP_MSS
  len : c.len ≤ UIP_TCP_MSS

theorem Sized.changed {c c' : UipConn} (h : Sized c) (hc : Changed c c') : Sized c' := by
  have h1 := h.initialmss
  have h2 := h.mss
  have h3 := h.len
  refine ⟨hc.initialmss.trans_le h1, ?_, ?_⟩
  · rcases hc.mss with hm | hm <;> omega
  · rcases hc.len with hl | hl <;> omega

theorem Sized.answered {c c' : UipConn} {k : Resume} (h : Sized c) (ha : Answered c k c') :
    Sized c' := by
  have hone : 1 ≤ UIP_TCP_MSS := by decide
  cases ha with
  | drop => exact h
  | ack => exact h
  | finack => exact ⟨h.initialmss, h.mss, hone⟩
  | abort => exact ⟨h.initialmss, h.mss, h.len⟩
  | close => exact ⟨h.initialmss, h.mss, hone⟩
  | send n hn =>
    refine ⟨h.initialmss, h.mss, ?_⟩
    rcases hn with rfl | hn
    · exact h.len
    · exact hn.trans h.mss

theorem Sized.opened {m : Mem} {c c' : UipConn} (h : Sized c) (ho : Opened m c c') :
    Sized c' := by
  have hone : 1 ≤ UIP_TCP_MSS := by decide
  cases ho with
  | noOption _ => exact ⟨h.initialmss, h.mss, hone⟩
  | option n _ => exact ⟨Nat.min_le_right _ _, Nat.min_le_right _ _, hone⟩

/-- A property of every single connection that segments, the application and a `SYN` keep. -/
theorem Maintained.pointwise {Q : UipConn → Prop} (hchanged : ∀ s c, Q c → Q (receive s c).conn)
    (hanswered : ∀ c k c', Q c → Answered c k c' → Q c')
    (hopened : ∀ m c c', Q c → Opened m c c' → Q c') : Maintained fun t => ∀ i, Q (t i) := by
  have hupdate : ∀ (t : Slot → UipConn) i c, (∀ j, Q (t j)) → Q c →
      ∀ j, Q (Function.update t i c j) := by
    intro t i c ht hc j
    by_cases hj : j = i
    · subst hj
      rwa [Function.update_self]
    · rw [Function.update_of_ne hj]
      exact ht j
  constructor
  · intro m t t' cs opens ht hstep
    cases hstep with
    | same => exact ht
    | @quiet i _ _ => exact hupdate t i _ ht (hchanged _ _ (ht i))
    | @called k c _ _ _ ha => exact hupdate t _ c ht (hanswered _ _ _ (hchanged _ _ (ht _)) ha)
    | @opened i c _ _ ho => exact hupdate t i c ht (hopened _ _ _ (ht i) ho)
  · intro t t' cs ht hstep
    cases hstep with
    | same => exact ht
    | @polled k c _ _ _ ha => exact hupdate t _ c ht (hanswered _ _ _ (ht _) ha)

/-- A frame and a kick keep the bounds. -/
theorem maintained_sized : Maintained fun t => ∀ i, Sized (t i) :=
  .pointwise (fun s c h => h.changed (changed_receive s c)) (fun _ _ _ h ha => h.answered ha)
    fun _ _ _ h ho => h.opened ho

/-- The table is empty at first. -/
theorem sized_init (i : Slot) : Sized (Net.init.uip.conns i) :=
  ⟨Nat.zero_le _, Nat.zero_le _, Nat.zero_le _⟩

/-- **No connection has more outstanding than a segment**, in any run. -/
theorem sized_run {C : Net → Input → Prop} {is : List Input} {os : List Outcome} {n : Net}
    (hrun : Run step C Net.init is os n) (i : Slot) : Sized (n.uip.conns i) :=
  maintained_sized.run sized_init hrun i

/-- A client asks for segments of 1460 bytes. -/
theorem sized_run_largest : ∃ os n, Run step Free Net.init (listen80 :: connect 1000 1460) os n ∧
    (n.uip.conns 0).tcpstateflags = .established ∧ (n.uip.conns 0).mss = UIP_TCP_MSS ∧
    Sized (n.uip.conns 0) := by
  have hexec : ((exec step Net.init (listen80 :: connect 1000 1460)).map fun r =>
      decide ((r.1.uip.conns 0).tcpstateflags = .established ∧
        (r.1.uip.conns 0).mss = UIP_TCP_MSS)) = some true := by decide +kernel
  obtain ⟨⟨n, os⟩, hr, hstate⟩ := Option.map_eq_some_iff.mp hexec
  obtain ⟨hest, hmss⟩ := of_decide_eq_true hstate
  have hrun := run_of_exec hr
  exact ⟨os, n, hrun, hest, hmss, sized_run hrun 0⟩

/-! ## The endpoints -/

/-- No two connections that exist have the same endpoints. -/
def Unique (t : Slot → UipConn) : Prop :=
  ∀ i j, (t i).tcpstateflags ≠ .closed → (t j).tcpstateflags ≠ .closed →
    endpoints (t i) = endpoints (t j) → i = j

/-- A connection may change in any way but its endpoints, if it existed before. -/
theorem Unique.update {t : Slot → UipConn} (h : Unique t) {i : Slot} {c : UipConn}
    (hactive : (t i).tcpstateflags ≠ .closed) (hpeer : SamePeer (t i) c) :
    Unique (Function.update t i c) := by
  have hself : ∀ j, (Function.update t i c j).tcpstateflags ≠ .closed →
      (t j).tcpstateflags ≠ .closed ∧ endpoints (Function.update t i c j) = endpoints (t j) := by
    intro j hj
    by_cases hji : j = i
    · subst hji
      rw [Function.update_self]
      exact ⟨hactive, endpoints_eq hpeer⟩
    · rw [Function.update_of_ne hji] at hj ⊢
      exact ⟨hj, rfl⟩
  intro a b ha hb heq
  obtain ⟨ha', ea⟩ := hself a ha
  obtain ⟨hb', eb⟩ := hself b hb
  exact h a b ha' hb' (ea.symm.trans (heq.trans eb))

/-- A connection may be opened where no other has the endpoints of the packet. -/
theorem Unique.opened {m : Mem} {t : Slot → UipConn} (h : Unique t) {i : Slot} {c : UipConn}
    (hnone : ∀ j, isFor m (t j) = false) (hopened : Opened m (t i) c) :
    Unique (Function.update t i c) := by
  have hnot : ∀ j, (t j).tcpstateflags ≠ .closed → endpoints (t j) ≠ endpoints c := by
    intro j hj heq
    rw [hopened.endpoints] at heq
    exact Bool.false_ne_true ((hnone j).symm.trans (isFor_iff.mpr ⟨hj, heq⟩))
  intro a b ha hb heq
  by_cases hai : a = i <;> by_cases hbi : b = i
  · rw [hai, hbi]
  · subst hai
    rw [Function.update_self, Function.update_of_ne hbi] at *
    exact absurd heq.symm (hnot b hb)
  · subst hbi
    rw [Function.update_self, Function.update_of_ne hai] at *
    exact absurd heq (hnot a ha)
  · rw [Function.update_of_ne hai, Function.update_of_ne hbi] at *
    exact h a b ha hb heq

/-- **A frame and a kick keep the endpoints unique.** -/
theorem maintained_unique : Maintained Unique := by
  constructor
  · intro m t t' cs opens ht hstep
    cases hstep with
    | same => exact ht
    | quiet hfor _ => exact ht.update (isFor_iff.mp hfor).1 (changed_receive _ _).peer
    | called hfor _ _ ha =>
      exact ht.update (isFor_iff.mp hfor).1 ((changed_receive _ _).peer.trans ha.peer)
    | opened hnone _ hopened => exact ht.opened hnone hopened
  · intro t t' cs ht hstep
    cases hstep with
    | same => exact ht
    | polled _ hest _ ha => exact ht.update (by rw [hest]; decide) ha.peer

/-- **A packet belongs to one connection.**  In every run, whatever has been opened, closed and
opened again: of the connections that exist no two have the same endpoints; and the connection that
`uip_process` finds for a packet, the first that fits, is the only one that does. -/
theorem endpoints_unique {C : Net → Input → Prop} {is : List Input} {os : List Outcome} {n : Net}
    (hrun : Run step C Net.init is os n) :
    Unique n.uip.conns ∧ ∀ (m : Mem) (i : Slot),
      (List.finRange 40).find? (fun j => isFor m (n.uip.conns j)) = some i ↔
        isFor m (n.uip.conns i) = true := by
  have hunique : Unique n.uip.conns :=
    maintained_unique.run (fun _ _ h _ _ => absurd rfl h) hrun
  refine ⟨hunique, fun m i => ⟨fun h => (List.find?_some h :), fun h => ?_⟩⟩
  cases hfind : (List.finRange 40).find? (fun j => isFor m (n.uip.conns j)) with
  | none =>
    have hnone := List.find?_eq_none.mp hfind i (List.mem_finRange i)
    exact absurd h hnone
  | some j =>
    have hj : isFor m (n.uip.conns j) = true := (List.find?_some hfind :)
    obtain ⟨hi1, hi2⟩ := isFor_iff.mp h
    obtain ⟨hj1, hj2⟩ := isFor_iff.mp hj
    rw [hunique j i hj1 hi1 (hj2.trans hi2.symm)]

/-- Two clients of one host connect from two ports. -/
def portPair : List Input := listen80 :: (connect 1000 100 ++ connect 2000 100)

theorem endpoints_unique_portPair : ∃ os n, Run step Free Net.init portPair os n ∧
    (n.uip.conns 0).tcpstateflags = .established ∧ (n.uip.conns 1).tcpstateflags = .established ∧
    Unique n.uip.conns := by
  have hexec : ((exec step Net.init portPair).map fun r =>
      decide ((r.1.uip.conns 0).tcpstateflags = .established ∧
        (r.1.uip.conns 1).tcpstateflags = .established)) = some true := by decide +kernel
  obtain ⟨⟨n, os⟩, hr, hstate⟩ := Option.map_eq_some_iff.mp hexec
  obtain ⟨h0, h1⟩ := of_decide_eq_true hstate
  have hrun := run_of_exec hr
  exact ⟨os, n, hrun, h0, h1, (endpoints_unique hrun).1⟩

end Service
end EgosNet
