import EgosNet.Service.Sequence
import EgosNet.Service.Peer

/-!
# From one connection to the next

The payload that is waiting to be sent belongs to no connection: the bridge offers it
whenever uIP calls, for whatever connection that is.  When a connection ends before its
last payload is acknowledged, the payload stays, and the next connection gets it.

`Ledger` is the bookkeeping that the program does not do.  It numbers the connections
in the order in which they were opened, and records which data went out on which of
them, which payloads were taken over, and how many there were when a connection was
accepted.  `NoCrossing` says that an accepted connection carries nothing that was taken
over before.

It holds as long as every step is `Clean`: no handshake completes while a payload is
waiting, no payload is taken over while a new connection has not been accepted, and no
more bytes are asked for than the payload has --- for then uIP sends what is left in its
buffer.

* `handover_clean`: in every run with clean steps, nothing crosses, and a connection is
  accepted only when nothing is waiting.  The connections need not even follow one
  another.
* `handover_leaks`: a client resets its connection before it acknowledges three bytes;
  the next client is sent these bytes.
-/

namespace EgosNet
namespace Service

open Foundation Uip

/-! ## The ledger -/

structure Ledger where
  /-- How many connections have been opened. -/
  opened : ℕ := 0
  /-- The number of the connection in each slot. -/
  conn : Slot → ℕ := fun _ => 0
  /-- The number of the connection last reported as connected. -/
  connected : ℕ := 0
  /-- The data that went out, with the number of the connection. -/
  sent : List (ℕ × List UInt8) := []
  payloads : List (List UInt8) := []
  /-- The accepted connections, with the number of payloads before. -/
  accepted : List (ℕ × ℕ) := []

def Ledger.event (l : Ledger) : Event → Ledger
  | .opened i => { l with opened := l.opened + 1, conn := Function.update l.conn i (l.opened + 1) }
  | .call c => if c.flags.connected then { l with connected := l.conn c.slot } else l
  | .segment i s => if s.data = [] then l else { l with sent := l.sent ++ [(l.conn i, s.data)] }
  | _ => l

/-- What a step adds: its events, the payload it takes over and whether it accepts a
connection. -/
def Ledger.record (l : Ledger) (ev : List Event) (pay : Option (List UInt8)) (acc : Bool) :
    Ledger :=
  let l := ev.foldl Ledger.event l
  { l with
    payloads := l.payloads ++ pay.toList
    accepted := if acc then l.accepted ++ [(l.connected, l.payloads.length)] else l.accepted }

/-- The ledger after a run. -/
def ledger (os : List Outcome) : Ledger :=
  os.foldl (fun l o => l.record o.events (payloadOf o) (isAccept o)) {}

/-- **Nothing crosses**: what went out on an accepted connection is the beginning of a
payload that was taken over after the connection was accepted. -/
def NoCrossing (l : Ledger) : Prop :=
  ∀ a ∈ l.accepted, ∀ s ∈ l.sent, s.1 = a.1 →
    ∃ m P, a.2 ≤ m ∧ l.payloads[m]? = some P ∧ s.2 <+: P

/-! ## Clean steps -/

/-- A call completes a handshake only when nothing is waiting, and asks for no more
than the payload has. -/
structure CleanCall (h : Httpd) (c : Call) : Prop where
  connected : c.flags.connected = true → h.txPending = false
  inFlight : offers c.flags h = true → c.conn.len ≤ h.txLen

/-- A step whose calls are clean, and which takes a payload over only after the last
connection has been accepted. -/
structure Clean (n : Net) (i : Input) : Prop where
  frame : polling i.request = true → ∀ c ∈ frameCall n i.rx, CleanCall n.httpd c
  taken : ∀ t ∈ taken n i, t.sock.connPending = false

instance (h : Httpd) (c : Call) : Decidable (CleanCall h c) :=
  decidable_of_iff ((c.flags.connected = true → h.txPending = false) ∧
    (offers c.flags h = true → c.conn.len ≤ h.txLen))
    ⟨fun ⟨h1, h2⟩ => ⟨h1, h2⟩, fun ⟨h1, h2⟩ => ⟨h1, h2⟩⟩

instance (n : Net) (i : Input) : Decidable (Clean n i) :=
  decidable_of_iff ((polling i.request = true → ∀ c ∈ frameCall n i.rx, CleanCall n.httpd c) ∧
    ∀ t ∈ Service.taken n i, t.sock.connPending = false)
    ⟨fun ⟨h1, h2⟩ => ⟨h1, h2⟩, fun ⟨h1, h2⟩ => ⟨h1, h2⟩⟩

/-! ## The invariant -/

/-- The ledger against the state of the bridge and of the connections. -/
structure Balanced (l : Ledger) (h : Httpd) (conns : Slot → UipConn) : Prop where
  crossing : NoCrossing l
  accepted : ∀ a ∈ l.accepted, a.2 ≤ l.payloads.length
  /-- What is waiting is the last payload, taken over after every acceptance. -/
  waiting : h.txPending = true → h.txLen = 0 ∨
    ∃ ps, l.payloads = ps ++ [h.txBuf.load 0 h.txLen] ∧ ∀ a ∈ l.accepted, a.2 ≤ ps.length
  /-- Until a connection is accepted nothing is waiting, and nothing went out on it. -/
  pending : h.connPending = true → h.txPending = false ∧ ∀ s ∈ l.sent, s.1 ≠ l.connected
  handshake : ∀ i, (conns i).tcpstateflags = .synRcvd → ∀ s ∈ l.sent, s.1 ≠ l.conn i
  live : ∀ i, ¬ Over (conns i) → l.conn i ≠ 0
  inj : ∀ i j, l.conn i = l.conn j → l.conn i ≠ 0 → i = j
  bound : ∀ i, l.conn i ≤ l.opened
  sent : ∀ s ∈ l.sent, s.1 ≤ l.opened

/-! ## Effects -/

section Effects

variable {l : Ledger} {h : Httpd} {conns conns' : Slot → UipConn} {call : Option Call}
  {ev : List Event}

theorem ledger_connEvents (l : Ledger) (ev : List Event) :
    (connEvents ev).foldl Ledger.event l = ev.foldl Ledger.event l := by
  induction ev generalizing l with
  | nil => rfl
  | cons e ev ih =>
    cases e with
    | polled i => exact ih l
    | netSend f => exact ih l
    | opened i => exact ih (l.event (.opened i))
    | call c => exact ih (l.event (.call c))
    | segment i s => exact ih (l.event (.segment i s))

/-- Segments without data leave the ledger alone. -/
theorem ledger_bare (l : Ledger) (i : Slot) {segs : List Segment} (hd : ∀ s ∈ segs, s.data = []) :
    (segs.map (Event.segment i)).foldl Ledger.event l = l := by
  induction segs with
  | nil => rfl
  | cons s segs ih =>
    have hs : l.event (.segment i s) = l := by simp [Ledger.event, hd s (by simp)]
    rw [List.map_cons, List.foldl_cons, hs]
    exact ih fun t ht => hd t (by simp [ht])

/-- Where uIP goes on to send after a handshake, the connection was in use. -/
theorem established_of_appsend {c : UipConn} {k : Call}
    (hstep : CallStep c k.conn k.flags k.resume ∨ PollStep c k) (hres : k.resume = .appsend)
    (hcon : k.flags.connected = false) : c.tcpstateflags = .established := by
  obtain ⟨slot, conn, flags, data, closing, resume⟩ := k
  rcases hstep with hstep | hpoll
  · cases hstep with
    | established _ _ hs _ _ _ => exact hs
    | connected _ _ _ _ => simp at hcon
    | _ => simp at hres
  · exact hpoll.established

/-- The answer to a call adds the beginning of what is offered, or nothing. -/
theorem ledger_answer {k : Call} {c' : UipConn} {segs : List Segment} (l : Ledger) (i : Slot)
    (hans : Answer h k c' segs) :
    (segs.map (Event.segment i)).foldl Ledger.event l = l ∨
      offers k.flags h = true ∧ k.resume = .appsend ∧ ∃ d, d ≠ [] ∧ h.txLen ≠ 0 ∧
        d <+: h.txBuf.load 0 h.txLen ∧
        (segs.map (Event.segment i)).foldl Ledger.event l =
          { l with sent := l.sent ++ [(l.conn i, d)] } := by
  have hdata : ∀ {s : Segment} {m : ℕ}, s.data = h.txBuf.load 0 m → 0 < m → m ≤ h.txLen →
      offers k.flags h = true → k.resume = .appsend →
      offers k.flags h = true ∧ k.resume = .appsend ∧ ∃ d, d ≠ [] ∧ h.txLen ≠ 0 ∧
        d <+: h.txBuf.load 0 h.txLen ∧
        ([s].map (Event.segment i)).foldl Ledger.event l =
          { l with sent := l.sent ++ [(l.conn i, d)] } := by
    intro s m hs hpos hle hoff hk
    have hne : s.data ≠ [] := by
      intro hnil
      rw [hs] at hnil
      have hlen := congrArg List.length hnil
      rw [Mem.length_load, List.length_nil] at hlen
      omega
    refine ⟨hoff, hk, s.data, hne, by omega, ?_, ?_⟩
    · rw [hs, ← Mem.load_take _ _ hle]
      exact List.take_prefix _ _
    · simp [Ledger.event, hne]
  cases hans with
  | drop _ => exact Or.inl rfl
  | ack _ => exact Or.inl (ledger_bare l i (by simp))
  | finack _ => exact Or.inl (ledger_bare l i (by simp))
  | close _ _ => exact Or.inl (ledger_bare l i (by simp))
  | fresh hk _ hoff hpos _ hmss =>
    exact Or.inr (hdata rfl (by omega) (Nat.min_le_left _ _) hoff hk)
  | again hk _ hoff hlen hle => exact Or.inr (hdata rfl (by omega) hle hoff hk)
  | idle _ _ _ => exact Or.inl (ledger_bare l i (ackIf_data _ _))

/-- Connections that are not brought to life do not matter. -/
theorem Balanced.of_conns (hb : Balanced l h conns)
    (hsyn : ∀ i, (conns' i).tcpstateflags = .synRcvd → (conns i).tcpstateflags = .synRcvd)
    (hlive : ∀ i, ¬ Over (conns' i) → ¬ Over (conns i)) : Balanced l h conns' where
  crossing := hb.crossing
  accepted := hb.accepted
  waiting := hb.waiting
  pending := hb.pending
  handshake i hi := hb.handshake i (hsyn i hi)
  live i hi := hb.live i (hlive i hi)
  inj := hb.inj
  bound := hb.bound
  sent := hb.sent

/-- A new connection gets a new number. -/
theorem balanced_opened {i : Slot} {c' : UipConn} (hb : Balanced l h conns) :
    Balanced (l.event (.opened i)) h (Function.update conns i c') := by
  have hne : ∀ j, j ≠ i → (l.event (.opened i)).conn j = l.conn j :=
    fun j hj => Function.update_of_ne hj _ _
  have hself : (l.event (.opened i)).conn i = l.opened + 1 := Function.update_self _ _ _
  refine ⟨hb.crossing, hb.accepted, hb.waiting, hb.pending, ?_, ?_, ?_, ?_, ?_⟩
  · intro j hj s hs
    by_cases hji : j = i
    · have hle : s.1 ≤ l.opened := hb.sent s hs
      rw [hji, hself]
      omega
    · rw [hne j hji]
      rw [Function.update_of_ne hji] at hj
      exact hb.handshake j hj s hs
  · intro j hj
    by_cases hji : j = i
    · rw [hji, hself]
      exact Nat.succ_ne_zero _
    · rw [hne j hji]
      rw [Function.update_of_ne hji] at hj
      exact hb.live j hj
  · intro j j' heq hz
    by_cases hj : j = i <;> by_cases hj' : j' = i
    · rw [hj, hj']
    · rw [hj, hself, hne j' hj'] at heq
      have hle := hb.bound j'
      omega
    · rw [hj', hself, hne j hj] at heq
      have hle := hb.bound j
      omega
    · rw [hne j hj, hne j' hj'] at heq
      rw [hne j hj] at hz
      exact hb.inj j j' heq hz
  · intro j
    by_cases hji : j = i
    · rw [hji, hself]
      rfl
    · rw [hne j hji]
      exact (hb.bound j).trans (Nat.le_succ _)
  · exact fun s hs => (hb.sent s hs).trans (Nat.le_succ _)

/-- What a call changes in the ledger and in the bridge. -/
theorem balanced_call {k : Call} (hb : Balanced l h conns)
    (hstep : CallStep (conns k.slot) k.conn k.flags k.resume ∨ PollStep (conns k.slot) k)
    (hclean : CleanCall h k) : Balanced (l.event (.call k)) (note k.flags k.data h) conns := by
  have hsyn : k.flags.connected = true → (conns k.slot).tcpstateflags = .synRcvd := by
    intro hcon
    obtain ⟨slot, conn, flags, data, closing, resume⟩ := k
    rcases hstep with hstep | hpoll
    · cases hstep with
      | connected _ hs _ _ => exact hs
      | _ => simp at hcon
    · rw [hpoll.flags] at hcon
      simp at hcon
  have hwait : (note k.flags k.data h).txPending = true →
      k.flags.ackdata = false ∧ h.txPending = true := by
    intro htx
    cases ha : k.flags.ackdata <;> simp_all [note]
  have hpend : (note k.flags k.data h).connPending = true →
      k.flags.connected = true ∨ h.connPending = true := by
    intro hc
    cases he : ends k.flags <;> cases hcon : k.flags.connected <;> simp_all [note]
  have hidle : h.txPending = false → (note k.flags k.data h).txPending = false := by
    intro htx
    cases ha : k.flags.ackdata <;> simp [note, ha, htx]
  have hl : l.event (.call k) = { l with
      connected := if k.flags.connected then l.conn k.slot else l.connected } := by
    simp only [Ledger.event]
    split_ifs <;> rfl
  rw [hl]
  refine ⟨hb.crossing, hb.accepted, fun htx => ?_, fun hc => ?_, hb.handshake, hb.live, hb.inj,
    hb.bound, hb.sent⟩
  · obtain ⟨hack, htx'⟩ := hwait htx
    have hlen : (note k.flags k.data h).txLen = h.txLen := by simp [note, hack]
    rw [hlen]
    exact hb.waiting htx'
  · cases hcon : k.flags.connected with
    | true => exact ⟨hidle (hclean.connected hcon), hb.handshake k.slot (hsyn hcon)⟩
    | false =>
      obtain ⟨htx, hsent⟩ := hb.pending ((hpend hc).resolve_left (by simp [hcon]))
      exact ⟨hidle htx, hsent⟩

/-- The beginning of what is waiting goes out on a connection in use. -/
theorem balanced_sent {i : Slot} {d : List UInt8} (hb : Balanced l h conns)
    (htx : h.txPending = true) (hlen : h.txLen ≠ 0) (hd : d <+: h.txBuf.load 0 h.txLen)
    (hest : (conns i).tcpstateflags = .established) :
    Balanced { l with sent := l.sent ++ [(l.conn i, d)] } h conns := by
  obtain ⟨ps, hps, hacc⟩ := (hb.waiting htx).resolve_left hlen
  have hmem : ∀ {s}, s ∈ l.sent ++ [(l.conn i, d)] → s ∈ l.sent ∨ s = (l.conn i, d) := by
    intro s hs
    simpa using hs
  refine ⟨?_, hb.accepted, hb.waiting, fun hc => ?_, ?_, hb.live, hb.inj, hb.bound, ?_⟩
  · intro a ha s hs heq
    rcases hmem hs with hs | rfl
    · exact hb.crossing a ha s hs heq
    · refine ⟨ps.length, h.txBuf.load 0 h.txLen, hacc a ha, ?_, hd⟩
      change l.payloads[ps.length]? = _
      rw [hps, List.getElem?_concat_length]
  · have hidle := (hb.pending hc).1
    simp [htx] at hidle
  · intro j hj s hs
    rcases hmem hs with hs | rfl
    · exact hb.handshake j hj s hs
    · -- the two connections are in different slots
      intro heq
      have hij := hb.inj i j heq (hb.live i fun hover => hover.2 hest)
      rw [← hij, hest] at hj
      cases hj
  · intro s hs
    rcases hmem hs with hs | rfl
    · exact hb.sent s hs
    · exact hb.bound i

/-- **One run of `uip_process` keeps the ledger balanced**, if the call is clean. -/
theorem balanced_effect (hb : Balanced l h conns) (heff : Effect h conns conns' call ev)
    (hclean : ∀ k ∈ call, CleanCall h k) :
    Balanced (ev.foldl Ledger.event l) (noted h call) conns' := by
  cases heff with
  | nothing => exact hb
  | @quiet i c' segs hq hsegs =>
    rw [ledger_bare l i fun s hs => (hsegs s hs).2]
    refine hb.of_conns (fun j hj => ?_) fun j hj hover => hj ?_
    · by_cases hji : j = i
      · rw [hji, Function.update_self] at hj
        rw [hji]
        exact hq.synRcvd.mp hj
      · rwa [Function.update_of_ne hji] at hj
    · by_cases hji : j = i
      · rw [hji] at hover
        rw [hji, Function.update_self]
        exact ⟨fun hs => hover.1 (hq.synRcvd.mp hs), fun hs => hover.2 (hq.established.mp hs)⟩
      · rwa [Function.update_of_ne hji]
  | @opened i c' s _ _ hdata =>
    have hbare : ∀ t ∈ [s], t.data = [] := by simpa using hdata
    have hev : [Event.opened i, .segment i s].foldl Ledger.event l = l.event (.opened i) :=
      ledger_bare (l.event (.opened i)) i hbare
    rw [hev]
    exact balanced_opened hb
  | @call k c' segs hstep _ hans =>
    have hk := hclean k rfl
    have hb' := balanced_call hb hstep hk
    -- the table changes in one place, to a connection that is not being set up
    have htable : ∀ {l'}, Balanced l' (note k.flags k.data h) conns →
        Balanced l' (note k.flags k.data h) (Function.update conns k.slot c') := by
      intro l' hl'
      refine hl'.of_conns (fun j hj => ?_) fun j hj hover => hj ?_
      · by_cases hji : j = k.slot
        · rw [hji, Function.update_self] at hj
          exact absurd hj (answer_not_synRcvd hstep hans)
        · rwa [Function.update_of_ne hji] at hj
      · by_cases hji : j = k.slot
        · rw [hji] at hover
          rw [hji, Function.update_self]
          exact (over_answer hover hstep hans).1
        · rwa [Function.update_of_ne hji]
    refine htable ?_
    rw [List.foldl_cons]
    rcases ledger_answer (l.event (.call k)) k.slot hans with
      heq | ⟨hoff, hres, d, -, hlen, hd, heq⟩
    · rw [heq]
      exact hb'
    · have hoff' := hoff
      simp only [offers, decide_eq_true_eq] at hoff'
      obtain ⟨-, htx, hack, -⟩ := hoff'
      have hcon : k.flags.connected = false := by
        by_contra hc
        have hidle := hk.connected (by simpa using hc)
        simp [htx] at hidle
      rw [heq]
      refine balanced_sent hb' (by simp [note, hack, htx]) (by simpa [note, hack] using hlen) ?_
        (established_of_appsend hstep hres hcon)
      have hlen' : (note k.flags k.data h).txLen = h.txLen := by simp [note, hack]
      rw [hlen']
      exact hd

end Effects

/-! ## Runs -/

section Steps

variable {l : Ledger} {n : Net}

/-- A step that takes no payload over and accepts nothing adds its events. -/
theorem record_events (l : Ledger) (ev : List Event) :
    l.record ev none false = ev.foldl Ledger.event l := by
  simp [Ledger.record]

/-- The events do not depend on the payloads. -/
theorem foldl_payloads (l : Ledger) (ps : List (List UInt8)) (ev : List Event) :
    ev.foldl Ledger.event { l with payloads := ps } =
      { ev.foldl Ledger.event l with payloads := ps } := by
  have hevent : ∀ (l : Ledger) (e : Event),
      Ledger.event { l with payloads := ps } e = { l.event e with payloads := ps } := by
    intro l e
    cases e with
    | call c =>
      simp only [Ledger.event]
      split_ifs <;> rfl
    | segment i s =>
      simp only [Ledger.event]
      split_ifs <;> rfl
    | opened i => rfl
    | polled i => rfl
    | netSend f => rfl
  induction ev generalizing l with
  | nil => rfl
  | cons e ev ih => rw [List.foldl_cons, hevent, ih, List.foldl_cons]

/-- A payload may be added before the events of the kick that follows. -/
theorem record_sent (l : Ledger) (ev ev' : List Event) (pay : Option (List UInt8)) :
    l.record (ev ++ ev') pay false =
      ev'.foldl Ledger.event { ev.foldl Ledger.event l with
        payloads := (ev.foldl Ledger.event l).payloads ++ pay.toList } := by
  have hsame : ∀ (l : Ledger), (ev'.foldl Ledger.event l).payloads = l.payloads := by
    intro l
    have hfold := foldl_payloads l l.payloads ev'
    exact (congrArg Ledger.payloads hfold :)
  rw [foldl_payloads]
  simp [Ledger.record, List.foldl_append, hsame]

theorem Balanced.rxLen {h : Httpd} {conns : Slot → UipConn} (hb : Balanced l h conns) (r : ℕ) :
    Balanced l { h with rxLen := r } conns :=
  ⟨hb.crossing, hb.accepted, hb.waiting, hb.pending, hb.handshake, hb.live, hb.inj, hb.bound,
    hb.sent⟩

theorem balanced_netPoll {rx : Rx} (hb : Balanced l n.httpd n.uip.conns) (hn : Coherent n)
    (hclean : ∀ c ∈ frameCall n rx, CleanCall n.httpd c) :
    Balanced ((netPoll n rx).2.foldl Ledger.event l) (netPoll n rx).1.httpd
      (netPoll n rx).1.uip.conns := by
  have heff : Effect n.httpd n.uip.conns (netPoll n rx).1.uip.conns (frameCall n rx)
      (connEvents (netPoll n rx).2) :=
    effect_netPoll hn.fits fun c hc _ => (hclean c hc).inFlight
  have hb' := balanced_effect hb heff hclean
  rw [ledger_connEvents] at hb'
  obtain ⟨r, hr⟩ := netPoll_noted n rx
  rw [hr]
  exact hb'.rxLen r

theorem balanced_kick (hb : Balanced l n.httpd n.uip.conns) (hn : Coherent n)
    (hslen : Drained n) :
    Balanced ((kickActiveConnection n).2.foldl Ledger.event l) (kickActiveConnection n).1.httpd
      (kickActiveConnection n).1.uip.conns := by
  have hclean : ∀ c ∈ kickCall n, CleanCall n.httpd c := by
    intro c hc
    obtain ⟨hflags, -, hlen⟩ := kickCall_flags hc
    refine ⟨fun hcon => ?_, fun _ => hlen ▸ Nat.zero_le _⟩
    simp [hflags] at hcon
  have hb' := balanced_effect hb (effect_kick hn.fits hslen) hclean
  rw [ledger_connEvents] at hb'
  obtain ⟨r, hr⟩ := kick_noted n
  rw [hr]
  exact hb'.rxLen r

/-- **Taking a payload over**, when no connection waits to be accepted. -/
theorem balanced_taken {t : Net} {i : Input} {pay : Option (List UInt8)}
    (ht : taken n i = some t) (hm : Coherent (netPoll n i.rx).1)
    (hb : Balanced l (netPoll n i.rx).1.httpd (netPoll n i.rx).1.uip.conns)
    (hpend : t.sock.connPending = false)
    (hpay : pay.getD [] = t.httpd.txBuf.load 0 t.httpd.txLen) :
    Balanced { l with payloads := l.payloads ++ pay.toList } t.httpd t.uip.conns := by
  obtain ⟨-, -, hcopy⟩ := idle_of_taken ht hm
  obtain ⟨hconns, hsock, -, hcon⟩ := taken_frame ht
  have hclosed : t.httpd.connPending = false := by rw [hcon, hcopy, ← hsock, hpend]
  rw [hconns]
  refine ⟨?_, ?_, fun _ => ?_, fun hc => ?_, hb.handshake, hb.live, hb.inj, hb.bound, hb.sent⟩
  · intro a ha s hs heq
    obtain ⟨m, P, hle, hm', hP⟩ := hb.crossing a ha s hs heq
    refine ⟨m, P, hle, ?_, hP⟩
    change (l.payloads ++ pay.toList)[m]? = some P
    rw [List.getElem?_append_left (List.getElem?_eq_some_iff.mp hm').1, hm']
  · intro a ha
    have hle := hb.accepted a ha
    simp only [List.length_append]
    omega
  · cases pay with
    | none =>
      have hlen := congrArg List.length hpay
      rw [Mem.length_load] at hlen
      exact Or.inl hlen.symm
    | some P =>
      obtain rfl : P = t.httpd.txBuf.load 0 t.httpd.txLen := hpay
      exact Or.inr ⟨l.payloads, rfl, hb.accepted⟩
  · simp [hclosed] at hc

/-- **Accepting a connection**: nothing is waiting, and nothing went out on it. -/
theorem balanced_accepted (hb : Balanced l n.httpd n.uip.conns)
    (hpend : n.httpd.connPending = true) :
    Balanced { l with accepted := l.accepted ++ [(l.connected, l.payloads.length)] }
      (clearPending n).httpd n.uip.conns := by
  obtain ⟨htx, hsent⟩ := hb.pending hpend
  have hmem : ∀ {a}, a ∈ l.accepted ++ [(l.connected, l.payloads.length)] →
      a ∈ l.accepted ∨ a = (l.connected, l.payloads.length) := by
    intro a ha
    simpa using ha
  refine ⟨?_, ?_, fun htx' => ?_, fun hc => ?_, hb.handshake, hb.live, hb.inj, hb.bound, hb.sent⟩
  · intro a ha s hs heq
    rcases hmem ha with ha | rfl
    · exact hb.crossing a ha s hs heq
    · exact absurd heq (hsent s hs)
  · intro a ha
    rcases hmem ha with ha | rfl
    · exact hb.accepted a ha
    · exact le_rfl
  · rw [show (clearPending n).httpd.txPending = n.httpd.txPending from rfl, htx] at htx'
    cases htx'
  · simp [clearPending] at hc

/-- **Every clean step keeps the ledger balanced**, and accepts a connection only when
nothing is waiting. -/
theorem balanced_step {n' : Net} {i : Input} {o : Outcome} (hn : Coherent n)
    (hb : Balanced l n.httpd n.uip.conns) (hclean : Clean n i) (h : step n i = some (n', o)) :
    Balanced (l.record o.events (payloadOf o) (isAccept o)) n'.httpd n'.uip.conns ∧
      (isAccept o = true → n'.httpd.txPending = false) := by
  have hserved := served_step h
  generalize o.events = ev at hserved ⊢
  generalize payloadOf o = pay at hserved ⊢
  generalize isAccept o = acc at hserved ⊢
  have hm := coherent_netPoll hn i.rx
  cases hserved with
  | card hev hsame =>
    rw [record_events, ← ledger_connEvents, hev, hsame.1, hsame.2]
    exact ⟨hb, by simp⟩
  | listened hsame =>
    rw [record_events, hsame.1, hsame.2]
    refine ⟨⟨hb.crossing, hb.accepted, fun htx => ?_, fun hc => ?_, hb.handshake, hb.live, hb.inj,
      hb.bound, hb.sent⟩, by simp⟩
    · simp [resetSocketState] at htx
    · simp [resetSocketState] at hc
  | polled hpoll hsame =>
    rw [record_events, hsame.1, hsame.2]
    exact ⟨balanced_netPoll hb hn (hclean.frame hpoll), by simp⟩
  | accepted hpoll hpend hsame =>
    have hbm := balanced_netPoll hb hn (hclean.frame hpoll)
    have hpend' := hm.pending hpend
    rw [hsame.1, hsame.2]
    have hrecord : l.record (netPoll n i.rx).2 none true =
        { (netPoll n i.rx).2.foldl Ledger.event l with
          accepted := ((netPoll n i.rx).2.foldl Ledger.event l).accepted ++
            [(((netPoll n i.rx).2.foldl Ledger.event l).connected,
              ((netPoll n i.rx).2.foldl Ledger.event l).payloads.length)] } := by
      simp [Ledger.record]
    rw [hrecord]
    exact ⟨balanced_accepted hbm hpend', fun _ => (hbm.pending hpend').1⟩
  | @sent t pay ht hsame _ hpay =>
    obtain ⟨hct, hslen⟩ := coherent_taken ht hm
    have hbm := balanced_netPoll hb hn (hclean.frame (taken_spec ht).1)
    rw [record_sent, hsame.1, hsame.2]
    exact ⟨balanced_kick (balanced_taken ht hm hbm (hclean.taken t ht) hpay) hct hslen, by simp⟩
  | closed hpoll hsame =>
    obtain ⟨hct, hslen⟩ := coherent_askClose hm
    have hbm := balanced_netPoll hb hn (hclean.frame hpoll)
    have hba : Balanced ((netPoll n i.rx).2.foldl Ledger.event l)
        (askClose (netPoll n i.rx).1).httpd (askClose (netPoll n i.rx).1).uip.conns :=
      ⟨hbm.crossing, hbm.accepted, hbm.waiting, hbm.pending, hbm.handshake, hbm.live, hbm.inj,
        hbm.bound, hbm.sent⟩
    rw [record_events, hsame.1, hsame.2, List.foldl_append]
    exact ⟨balanced_kick hba hct hslen, by simp⟩

end Steps

theorem balanced_init : Balanced {} Net.init.httpd Net.init.uip.conns where
  crossing a ha := by simp at ha
  accepted a ha := by simp at ha
  waiting htx := by simp [Net.init] at htx
  pending hc := by simp [Net.init] at hc
  handshake i hi s hs := by simp at hs
  live i hi := absurd (by simp [Net.init, uipInit, Over]) hi
  inj i j _ hz := absurd rfl hz
  bound i := le_rfl
  sent s hs := by simp at hs

theorem ledger_append (os : List Outcome) (o : Outcome) :
    ledger (os ++ [o]) = (ledger os).record o.events (payloadOf o) (isAccept o) := by
  rw [ledger, List.foldl_append]
  rfl

/-- **Nothing crosses from one connection to the next.**  In every run with clean
steps, what goes out on an accepted connection was taken over after it was accepted;
and whenever a connection has just been accepted, nothing is waiting to be sent. -/
theorem handover_clean {is : List Input} {os : List Outcome} {n : Net}
    (hrun : Run step Clean Net.init is os n) :
    NoCrossing (ledger os) ∧
      ∀ o ∈ os.getLast?, isAccept o = true → n.httpd.txPending = false := by
  have hinv : Balanced (ledger os) n.httpd n.uip.conns ∧
      ∀ o ∈ os.getLast?, isAccept o = true → n.httpd.txPending = false := by
    induction hrun with
    | nil => exact ⟨balanced_init, by simp⟩
    | @snoc is os n n' i o hrun hclean hs ih =>
      obtain ⟨hb, hidle⟩ := balanced_step (coherent_run hrun) ih.1 hclean hs
      rw [ledger_append]
      refine ⟨hb, fun o' ho' => ?_⟩
      obtain rfl : o = o' := by simpa using ho'
      exact hidle
  exact ⟨hinv.1.crossing, hinv.2⟩

/-! ## Two clients, one after the other -/

/-- A connection ends in the step: uIP reports it, or it is closed. -/
def endsIn (o : Outcome) : Bool :=
  (calls o.events).any (fun c => ends c.flags) ||
    match o.request, o.reply.status with
    | .sockClose _, .ok => true
    | _, _ => false

/-- A connection is opened only after the one before has ended; `live` says that there
is one which has not. -/
def sequential (live : Bool) : List Outcome → Bool
  | [] => true
  | o :: os =>
    let opens := !(openings o.events).isEmpty
    !(live && opens) && sequential ((live || opens) && !endsIn o) os

/-- A client is sent three bytes. -/
def firstClient : List Input :=
  listen80 :: connect 1000 100 ++ [Request.alone (.sockSend 1 3 (payload [1, 2, 3]))]

/-- It resets the connection, and another client is accepted. -/
def secondClient : List Input :=
  Request.receiving .sockAccept { port := 1000, seqno := 101, flags := TCP_RST } :: connect 1001 100

/-- The first client acknowledges the bytes before it resets; the second is sent two
bytes of its own. -/
theorem handover_clean_acknowledged :
    ∃ os n, Run step Clean Net.init
        (firstClient ++
          Request.receiving .sockAccept
            { port := 1000, seqno := 101, ackno := 4, flags := TCP_ACK } ::
          secondClient ++ [Request.alone (.sockSend 1 2 (payload [4, 5]))]) os n ∧
      (ledger os).accepted = [(1, 0), (2, 1)] ∧ (ledger os).sent = [(1, [1, 2, 3]), (2, [4, 5])] ∧
      NoCrossing (ledger os) := by
  have hexec : ((exec (guarded step Clean) Net.init
        (firstClient ++
          Request.receiving .sockAccept
            { port := 1000, seqno := 101, ackno := 4, flags := TCP_ACK } ::
          secondClient ++ [Request.alone (.sockSend 1 2 (payload [4, 5]))])).map fun r =>
      ((ledger r.2).accepted, (ledger r.2).sent)) =
      some ([(1, 0), (2, 1)], [(1, [1, 2, 3]), (2, [4, 5])]) := by decide +kernel
  obtain ⟨⟨n, os⟩, hr, hval⟩ := Option.map_eq_some_iff.mp hexec
  simp only [Prod.mk.injEq] at hval
  have hrun := run_of_exec_guarded hr
  exact ⟨os, n, hrun, hval.1, hval.2, (handover_clean hrun).1⟩

/-- **The second client is sent what the first one did not acknowledge.**  The payload
is still waiting when the second one is accepted, and goes out with the answer to its
first byte. -/
theorem handover_leaks :
    ∃ os n n' o, Run step Free Net.init (firstClient ++ secondClient) os n ∧
      (∃ last ∈ os.getLast?, isAccept last = true) ∧ n.httpd.txPending = true ∧
      step n (Request.receiving .sockAccept
        { port := 1001, seqno := 101, ackno := 1, flags := TCP_ACK, data := [120] }) =
          some (n', o) ∧
      sequential false (os ++ [o]) = true ∧ (2, [1, 2, 3]) ∈ (ledger (os ++ [o])).sent ∧
      ¬ NoCrossing (ledger (os ++ [o])) := by
  have hexec : ((exec step Net.init (firstClient ++ secondClient)).bind fun r =>
      (step r.1 (Request.receiving .sockAccept
        { port := 1001, seqno := 101, ackno := 1, flags := TCP_ACK, data := [120] })).map fun s =>
      (r.2.getLast?.map isAccept, r.1.httpd.txPending, sequential false (r.2 ++ [s.2]),
        decide ((ledger (r.2 ++ [s.2])).accepted = [(1, 0), (2, 1)] ∧
          (ledger (r.2 ++ [s.2])).sent = [(1, [1, 2, 3]), (2, [1, 2, 3])] ∧
          (ledger (r.2 ++ [s.2])).payloads = [[1, 2, 3]]))) =
      some (some true, true, true, true) := by decide +kernel
  obtain ⟨⟨n, os⟩, hr, hval⟩ := Option.bind_eq_some_iff.mp hexec
  obtain ⟨⟨n', o⟩, hs, hval⟩ := Option.map_eq_some_iff.mp hval
  simp only [Prod.mk.injEq, decide_eq_true_eq] at hval
  obtain ⟨hlast, htx, hseq, hacc, hsent, hps⟩ := hval
  refine ⟨os, n, n', o, run_of_exec hr, ?_, htx, hs, hseq, by simp [hsent], fun hno => ?_⟩
  · obtain ⟨last, hmem, hl⟩ := Option.map_eq_some_iff.mp hlast
    exact ⟨last, hmem, hl⟩
  · obtain ⟨m, P, hle, hm, -⟩ :=
      hno (2, 1) (by simp [hacc]) (2, [1, 2, 3]) (by simp [hsent]) rfl
    rw [hps, List.getElem?_eq_none (by simpa using hle)] at hm
    cases hm

end Service
end EgosNet
