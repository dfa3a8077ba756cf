import EgosNet.Service.Poll

/-!
# The parts of a step

A request is served by a poll, and then perhaps by taking a payload over, by a kick,
or by clearing a flag.  `Served` says which of these a step consists of, as far as
the connections and the bridge are concerned, and `served_step` that every step is of
this form: what holds along runs is proved by its six cases, and nothing but this
file looks into the handlers for it.

A payload that is longer than the array of the bridge is a fault, so in a step without
a fault nothing has been clamped and `sock_send` has told the truth about the length
it took (`clampNetLength_of_le`).
-/

namespace EgosNet
namespace Service

open Foundation Uip

/-! ## The events of the connections -/

/-- The event concerns a connection, and not only the card. -/
def Event.ofConn : Event → Bool
  | .polled _ | .netSend _ => false
  | _ => true

/-- The events that concern the connections. -/
def connEvents (ev : List Event) : List Event := ev.filter Event.ofConn

@[simp] theorem connEvents_append (ev ev' : List Event) :
    connEvents (ev ++ ev') = connEvents ev ++ connEvents ev' :=
  List.filter_append _ _

theorem OnlyFrames.connEvents {ev : List Event} (h : OnlyFrames ev) : connEvents ev = [] := by
  refine List.filter_eq_nil_iff.mpr fun e he => ?_
  obtain ⟨f, rfl⟩ := h e he
  simp [Event.ofConn]

theorem connEvents_segments (i : Slot) (u : Stack) : connEvents (segments i u) = segments i u := by
  unfold segments
  split_ifs <;> rfl

theorem connEvents_complete (h : Httpd) (v : Verdict) :
    connEvents (complete h v).2 = (complete h v).2 := by
  cases v with
  | done u => rfl
  | quiet i u => exact connEvents_segments i u
  | listen i u => exact congrArg (Event.opened i :: ·) (connEvents_segments i u)
  | appcall i u k => exact congrArg (Event.call (callOf i u h k) :: ·) (connEvents_segments i _)

theorem connEvents_process (n : Net) (v : Verdict) :
    connEvents (process n v).2 = (complete n.httpd v).2 := by
  simp only [process, connEvents_append, (sendPacket_onlyFrames _).connEvents,
    connEvents_complete, List.append_nil]

/-! ## Taking a payload over -/

theorem clampNetLength_le (length : ℤ) : (clampNetLength length).toNat ≤ NET_BUF_SIZE := by
  have hnet : NET_BUF_SIZE = 512 := rfl
  unfold clampNetLength
  split_ifs <;> omega

theorem takePayload_httpd (n : Net) (txLen : ℤ) (buf : Mem) :
    (takePayload n txLen buf).httpd =
      { n.httpd with
        txBuf := (takePayload n txLen buf).httpd.txBuf, txLen := txLen.toNat, txPending := true } ∧
      (takePayload n txLen buf).httpd.txBuf.load 0 txLen.toNat = buf.load 0 txLen.toNat := by
  constructor
  · simp only [takePayload]
    split_ifs <;> rfl
  · simp only [takePayload]
    have hload : ∀ m m' : Mem, (Mem.store m 0 (Mem.load (Mem.store m' 0
        (buf.load 0 txLen.toNat)) 0 txLen.toNat)).load 0 txLen.toNat = buf.load 0 txLen.toNat := by
      intro m m'
      have h1 := Mem.load_store m' 0 (buf.load 0 txLen.toNat)
      have h2 := Mem.load_store m 0 (buf.load 0 txLen.toNat)
      rw [Mem.length_load] at h1 h2
      rw [h1, h2]
    split_ifs <;> exact hload _ _

theorem takePayload_sock (n : Net) (txLen : ℤ) (buf : Mem) :
    (takePayload n txLen buf).sock =
      { n.sock with
        txBuf := (takePayload n txLen buf).sock.txBuf
        txLen := txLen.toNat
        txPending := true } := by
  simp only [takePayload]
  split_ifs <;> rfl

theorem takePayload_uip (n : Net) (txLen : ℤ) (buf : Mem) :
    (takePayload n txLen buf).uip.conns = n.uip.conns ∧
      (takePayload n txLen buf).uip.listenports = n.uip.listenports := by
  simp only [takePayload]
  split_ifs <;> exact ⟨rfl, rfl⟩

theorem takePayload_slen (n : Net) (txLen : ℤ) (buf : Mem) :
    (takePayload n txLen buf).uip.slen = n.uip.slen := by
  simp only [takePayload]
  split_ifs <;> rfl

/-! ## Faults stay -/

theorem fault_uipSend {u : Stack} {data : Mem} {len : ℕ}
    (h : (uipSend u data len).fault = none) : u.fault = none := by
  simp only [uipSend] at h
  split_ifs at h
  · exact h
  · simp [Stack.put, Stack.raise] at h
  · exact h

theorem fault_httpdAppcall {u : Stack} {h : Httpd} (hf : (httpdAppcall u h).1.fault = none) :
    u.fault = none := by
  rw [httpdAppcall_fst] at hf
  split_ifs at hf
  · exact hf
  · exact fault_uipSend hf
  · exact hf

theorem takeData_fault (u : Stack) (i : Slot) : (takeData u i).fault = u.fault := by
  simp only [takeData]
  split_ifs <;> rfl

theorem apprexmit_fault (u : Stack) (i : Slot) : (apprexmit u i).fault = u.fault := by
  simp only [apprexmit]
  split_ifs <;> rfl

theorem appsend_fault (u : Stack) (i : Slot) : (appsend u i).fault = u.fault := by
  unfold appsend
  split_ifs
  · rfl
  · rfl
  · rw [apprexmit_fault]
    exact takeData_fault u i

/-- The stack when the packet has been dealt with, or the application is called. -/
def stackOf : Verdict → Stack
  | .done u => u
  | .quiet _ u => u
  | .listen _ u => u
  | .appcall _ u _ => u

theorem reset_fault (u : Stack) : (reset u).fault = u.fault := by
  unfold reset
  split <;> rfl

theorem icmpEcho_fault (u : Stack) : (icmpEcho u).fault = u.fault := by
  unfold icmpEcho
  split <;> rfl

theorem noteNewdata_fault (u : Stack) (i : Slot) : (noteNewdata u i).fault = u.fault := by
  unfold noteNewdata
  split <;> rfl

theorem skipUrgent_fault (u : Stack) : (skipUrgent u).fault = u.fault := by
  unfold skipUrgent
  split <;> rfl

theorem inEstablished_fault (u : Stack) (i : Slot) :
    (stackOf (inEstablished u i)).fault = u.fault := by
  have hnoted : (updateMss (noteNewdata (skipUrgent u) i) i).fault = u.fault :=
    (noteNewdata_fault _ i).trans (skipUrgent_fault u)
  unfold inEstablished
  dsimp only
  split_ifs
  · rfl
  · rfl
  · rfl
  · exact hnoted
  · exact hnoted

/-- The two states in which data is taken without being looked at. -/
theorem inFinWait_fault (u : Stack) (i : Slot) :
    (stackOf (inFinWait1 u i)).fault = u.fault ∧ (stackOf (inFinWait2 u i)).fault = u.fault := by
  have hadv : (if 0 < u.len then uipAddRcvNxt u i u.len else u).fault = u.fault := by
    split <;> rfl
  unfold inFinWait1 inFinWait2
  dsimp only
  generalize (if 0 < u.len then uipAddRcvNxt u i u.len else u) = v at hadv
  constructor <;> split_ifs <;> exact hadv

theorem byState_fault (u : Stack) (i : Slot) : (stackOf (byState u i)).fault = u.fault := by
  unfold byState
  cases (u.conns i).tcpstateflags with
  | synRcvd =>
    unfold inSynRcvd
    dsimp only
    split_ifs
    · exact noteNewdata_fault _ i
    · rfl
  | established => exact inEstablished_fault u i
  | lastAck =>
    unfold inLastAck
    dsimp only
    split_ifs <;> rfl
  | finWait1 => exact (inFinWait_fault u i).1
  | finWait2 => exact (inFinWait_fault u i).2
  | closing =>
    unfold inClosing
    dsimp only
    split_ifs <;> rfl
  | timeWait => rfl
  | closed => rfl

/-- A segment of a connection is no fault. -/
theorem found_fault (u : Stack) (i : Slot) : (stackOf (found u i)).fault = u.fault := by
  have hack : ∀ v : Stack, (ackInput v i).fault = v.fault := by
    intro v
    unfold ackInput
    split_ifs <;> rfl
  unfold found
  dsimp only
  split_ifs
  · rfl
  · rfl
  · exact (byState_fault _ i).trans (hack _)

/-- A fault before the packet is a fault after it. -/
theorem fault_uipProcessData {u : Stack} (h : (stackOf (uipProcessData u)).fault = none) :
    u.fault = none := by
  have htcp : ∀ v : Stack, (stackOf (tcpInput v)).fault = none → v.fault = none := by
    intro v hv
    have hlisten : (stackOf (foundListen v)).fault = none → v.fault = none := by
      intro hfault
      unfold foundListen at hfault
      split at hfault
      · exact hfault
      · dsimp only at hfault
        split at hfault
        · cases hv' : v.fault <;> simp [stackOf, Stack.raise, hv'] at hfault
        · exact hfault
    unfold tcpInput at hv
    generalize uipTcpchksum v.buf = sum at hv
    split_ifs at hv
    · exact hv
    all_goals
      split at hv
      · exact (found_fault v _).symm.trans hv
      · first
          | exact (reset_fault v).symm.trans hv
          | exact hlisten hv
  simp only [uipProcessData] at h
  generalize uipIpchksum u.buf = sum at h
  split_ifs at h
  · exact h
  · exact h
  · exact h
  · exact h
  · exact (htcp _ h :)
  · exact ((icmpEcho_fault _).symm.trans h :)
  · exact h
  · exact h

/-- Nor does the application take one back. -/
theorem fault_complete {h : Httpd} {v : Verdict} (hf : (complete h v).1.1.fault = none) :
    (stackOf v).fault = none := by
  cases v with
  | done u => exact hf
  | quiet i u => exact hf
  | listen i u => exact hf
  | appcall i u k =>
    refine fault_httpdAppcall (h := h) ?_
    rw [← hf]
    show _ = (k.run (httpdAppcall u h).1 i).fault
    cases k with
    | appsend => exact (appsend_fault _ i).symm
    | drop => rfl
    | finack => rfl
    | ack => rfl

theorem fault_earthNetSend {n : Net} {length : ℤ} {packet : Mem}
    (h : (earthNetSend n length packet).1.uip.fault = none) : n.uip.fault = none := by
  simp only [earthNetSend] at h
  split_ifs at h
  · exact h
  · simp [Net.raise, Stack.raise] at h

theorem fault_sendPacket {n : Net} (h : (sendPacket n).1.uip.fault = none) :
    n.uip.fault = none := by
  simp only [sendPacket] at h
  split_ifs at h
  · exact (uipArpOut_frame n.uip n.arp).2.2.2 ▸ fault_earthNetSend h
  · exact h

theorem fault_process {n : Net} {v : Verdict} (h : (process n v).1.uip.fault = none) :
    (stackOf v).fault = none :=
  fault_complete (h := n.httpd) (fault_sendPacket h :)

/-- A frame that has been received without one is in the buffer as a whole. -/
theorem length_le_of_fault {u : Stack} {rx : Rx} (h : (earthNetRecv u rx).fault = none) :
    rx.frame.length ≤ uipBufLen := by
  by_contra hgt
  cases hu : u.fault <;> simp [earthNetRecv, hgt, Stack.raise] at h

/-- **A frame that does not fit is a fault of the poll.** -/
theorem fault_netPoll {n : Net} {rx : Rx} (hne : rx.frame ≠ [])
    (h : (netPoll n rx).1.uip.fault = none) : (earthNetRecv n.uip rx).fault = none := by
  simp only [netPoll, if_neg hne, frameInput, syncSocketState_uip] at h
  split_ifs at h
  · exact fault_uipProcessData (fault_process h)
  · simp only [arpInput] at h
    split_ifs at h
    · exact (uipArpArpin_frame _ _).2.2.2 ▸ fault_earthNetSend h
    · exact (uipArpArpin_frame _ _).2.2.2 ▸ h
  · exact h

/-- A fault before the kick is a fault after it. -/
theorem fault_kick {n : Net} (h : (kickActiveConnection n).1.uip.fault = none) :
    n.uip.fault = none := by
  rcases kick_cases n with ⟨-, -, heq⟩ | ⟨-, -, heq⟩ | ⟨-, i, -, -, heq⟩
  · rwa [heq] at h
  · rwa [heq, syncSocketState_uip] at h
  · rw [heq, syncSocketState_uip] at h
    have h' := fault_sendPacket h
    simp only [uipProcessPoll] at h'
    split_ifs at h'
    · have happ : (httpdAppcall _ n.httpd).1.fault = none := (appsend_fault _ _).symm.trans h'
      exact (fault_httpdAppcall happ :)
    · exact h'

/-- A payload that was taken over without a fault fits. -/
theorem le_of_fault_takePayload {n : Net} {txLen : ℤ} {buf : Mem}
    (h : (takePayload n txLen buf).uip.fault = none) : txLen ≤ UIP_BUFSIZE := by
  by_contra hgt
  have hnot : ¬ (0 ≤ txLen ∧ txLen ≤ UIP_BUFSIZE) := fun hle => hgt hle.2
  simp only [takePayload, hnot, if_false] at h
  simp [Net.raise, Stack.raise] at h

/-- A length that fits is not clamped. -/
theorem clampNetLength_of_le {length : ℤ} (h : clampNetLength length ≤ UIP_BUFSIZE) :
    clampNetLength length = length := by
  have hbuf : (UIP_BUFSIZE : ℤ) = 420 := rfl
  have hnet : (NET_BUF_SIZE : ℤ) = 512 := rfl
  unfold clampNetLength at h ⊢
  split_ifs at h ⊢
  · omega
  · rfl

/-! ## The parts of a step -/

/-- A step is what the handler does, if there is no fault. -/
theorem step_spec {n n' : Net} {i : Input} {o : Outcome} (h : step n i = some (n', o)) :
    handle n i = (n', o.events, o.reply) ∧ o.request = i.request ∧ n'.uip.fault = none := by
  unfold step at h
  split at h
  rename_i m ev r hm
  split_ifs at h with hf
  obtain ⟨rfl, rfl⟩ := Prod.mk.inj (Option.some.inj h)
  exact ⟨hm, rfl, hf⟩

/-- The tables and the bridge are the same. -/
def SameConns (n n' : Net) : Prop := n'.uip.conns = n.uip.conns ∧ n'.httpd = n.httpd

/-- The state in which an accepted payload is offered to uIP. -/
def taken (n : Net) (i : Input) : Option Net :=
  match i.request with
  | .sockSend connId length buf =>
    let m := (netPoll n i.rx).1
    if m.sock.listenPort < 0 ∨ ¬ socketConnValid m.sock connId ∨ m.sock.txPending then none
    else some (takePayload m (clampNetLength length) buf)
  | _ => none

theorem taken_spec {n t : Net} {i : Input} (h : taken n i = some t) :
    polling i.request = true ∧ (netPoll n i.rx).1.sock.connOpen = true ∧
      (netPoll n i.rx).1.sock.txPending = false ∧
      ∃ length buf, t = takePayload (netPoll n i.rx).1 (clampNetLength length) buf := by
  obtain ⟨request, rx⟩ := i
  cases request with
  | sockSend connId length buf =>
    simp only [taken] at h
    split_ifs at h with hrej
    obtain rfl := Option.some.inj h
    push Not at hrej
    obtain ⟨-, hvalid, htx⟩ := hrej
    simp only [socketConnValid, decide_eq_true_eq] at hvalid
    exact ⟨rfl, hvalid.2.1, by simpa using htx, length, buf, rfl⟩
  | _ => simp [taken] at h

/-- What taking a payload over leaves alone. -/
theorem taken_frame {n t : Net} {i : Input} (ht : taken n i = some t) :
    t.uip.conns = (netPoll n i.rx).1.uip.conns ∧
      t.sock.connPending = (netPoll n i.rx).1.sock.connPending ∧ t.httpd.txPending = true ∧
      t.httpd.connPending = (netPoll n i.rx).1.httpd.connPending := by
  obtain ⟨-, -, -, length, buf, rfl⟩ := taken_spec ht
  have hhttpd := (takePayload_httpd (netPoll n i.rx).1 (clampNetLength length) buf).1
  refine ⟨(takePayload_uip _ _ _).1, ?_, ?_, ?_⟩
  · rw [takePayload_sock]
  · rw [hhttpd]
  · rw [hhttpd]

/-- **A send** is refused after the poll, or its payload is taken over and a connection
is kicked. -/
theorem handle_sockSend_cases (n : Net) (connId length : ℤ) (buf : Mem) (rx : Rx) :
    (∃ reply : Reply, reply.status ≠ .ok ∧
      handle n ⟨.sockSend connId length buf, rx⟩ = ((netPoll n rx).1, (netPoll n rx).2, reply)) ∨
    ∃ t, t = takePayload (netPoll n rx).1 (clampNetLength length) buf ∧
      taken n ⟨.sockSend connId length buf, rx⟩ = some t ∧
      0 ≤ (netPoll n rx).1.sock.listenPort ∧
      handle n ⟨.sockSend connId length buf, rx⟩ =
        ((kickActiveConnection t).1, (netPoll n rx).2 ++ (kickActiveConnection t).2,
          ⟨.ok, connId, clampNetLength length, []⟩) := by
  simp only [handle, handleSockSend]
  split_ifs with hinv hpend
  · exact Or.inl ⟨_, by simp, rfl⟩
  · exact Or.inl ⟨_, by simp, rfl⟩
  · push Not at hinv
    obtain ⟨hport, hvalid⟩ := hinv
    refine Or.inr ⟨_, rfl, ?_, hport, ?_⟩
    · simp only [taken]
      rw [if_neg]
      push Not
      exact ⟨hport, by simpa using hvalid, by simpa using hpend⟩
    · rw [netKickTx, if_pos (by rw [takePayload_sock])]

theorem fault_takePayload {n : Net} {txLen : ℤ} {buf : Mem}
    (h : (takePayload n txLen buf).uip.fault = none) : n.uip.fault = none := by
  simp only [takePayload] at h
  split_ifs at h
  · exact h
  · cases hn : n.uip.fault <;> simp [Net.raise, Stack.raise, hn] at h

/-- **A fault of the poll is a fault of the request.** -/
theorem fault_handle {n : Net} {i : Input} (hp : polling i.request = true)
    (h : (handle n i).1.uip.fault = none) : (netPoll n i.rx).1.uip.fault = none := by
  obtain ⟨request, rx⟩ := i
  cases request with
  | netSend length buf => simp [polling] at hp
  | netRecv => simp [polling] at hp
  | sockListen port => simp [polling] at hp
  | sockAccept =>
    simp only [handle, handleSockAccept] at h
    split_ifs at h
    · exact h
    · exact h
  | sockRecv connId length =>
    simp only [handle, handleSockRecv] at h
    split_ifs at h
    all_goals first
      | exact h
      | cases hm : (netPoll n rx).1.uip.fault <;> simp [Net.raise, Stack.raise, hm] at h
  | sockSend connId length buf =>
    rcases handle_sockSend_cases n connId length buf rx with ⟨r, -, heq⟩ | ⟨t, ht, -, -, heq⟩
    · rwa [heq] at h
    · rw [heq] at h
      exact fault_takePayload (ht ▸ fault_kick h)
  | sockClose connId =>
    simp only [handle, handleSockClose, netKickClose] at h
    split_ifs at h
    · exact (fault_kick h :)
    · exact h

/-- **A request that polls** is the poll and nothing more that concerns the bridge, or a
`sock_accept` that returns a connection, or it kicks a connection in the end. -/
theorem handle_polling_cases {n : Net} {i : Input} (hp : polling i.request = true) :
    (∃ n' r, handle n i = (n', (netPoll n i.rx).2, r) ∧ n'.httpd = (netPoll n i.rx).1.httpd ∧
        n'.sock.connId = (netPoll n i.rx).1.sock.connId) ∨
      (i.request = .sockAccept ∧ handle n i = (clearPending (netPoll n i.rx).1,
        (netPoll n i.rx).2, ⟨.ok, (netPoll n i.rx).1.sock.connId, 0, []⟩)) ∨
      ∃ t n' r, handle n i = (n', (netPoll n i.rx).2 ++ (kickActiveConnection t).2, r) ∧
        t.httpd.connPending = (netPoll n i.rx).1.httpd.connPending ∧
        t.sock.connId = (netPoll n i.rx).1.sock.connId ∧
        n'.httpd = (kickActiveConnection t).1.httpd ∧
        n'.sock.connId = (kickActiveConnection t).1.sock.connId := by
  obtain ⟨request, rx⟩ := i
  cases request with
  | netSend length buf => simp [polling] at hp
  | netRecv => simp [polling] at hp
  | sockListen port => simp [polling] at hp
  | sockAccept =>
    simp only [handle, handleSockAccept]
    split_ifs
    · exact Or.inr (Or.inl ⟨trivial, rfl⟩)
    · exact Or.inl ⟨_, _, rfl, rfl, rfl⟩
  | sockRecv connId length =>
    simp only [handle, handleSockRecv]
    split_ifs <;> exact Or.inl ⟨_, _, rfl, rfl, rfl⟩
  | sockSend connId length buf =>
    rcases handle_sockSend_cases n connId length buf rx with ⟨r, -, heq⟩ | ⟨t, ht, htaken, -, heq⟩
    · exact Or.inl ⟨_, _, heq, rfl, rfl⟩
    · exact Or.inr (Or.inr ⟨t, _, _, heq, (taken_frame htaken).2.2.2,
        by rw [ht, takePayload_sock], rfl, rfl⟩)
  | sockClose connId =>
    simp only [handle, handleSockClose, netKickClose]
    split_ifs
    · exact Or.inr (Or.inr ⟨askClose (netPoll n rx).1, _, _, rfl, rfl, rfl, rfl, rfl⟩)
    · exact Or.inl ⟨_, _, rfl, rfl, rfl⟩

/-- **The calls of the application**: that of the frame, and perhaps one that polls. -/
theorem calls_handle {n : Net} {i : Input} (hp : polling i.request = true) :
    ∃ cs, calls (handle n i).2.1 = (frameCall n i.rx).toList ++ cs ∧
      ∀ c ∈ cs, c.flags = { poll := true } := by
  rcases handle_polling_cases (n := n) hp with ⟨n', r, heq, -⟩ | ⟨-, heq⟩ | ⟨t, n', r, heq, -⟩
  · exact ⟨[], by rw [heq, calls_netPoll, List.append_nil], by simp⟩
  · exact ⟨[], by rw [heq, calls_netPoll, List.append_nil], by simp⟩
  · refine ⟨(kickCall t).toList, by rw [heq, calls_append, calls_netPoll, calls_kick], ?_⟩
    exact fun c hc => (kickCall_flags (Option.mem_toList.mp hc)).1

/-- What a step does to the connections and the bridge: the state it leads to, the
events, the payload it takes over, and whether it accepts a connection. -/
inductive Served (n : Net) (i : Input) (n' : Net) : List Event → Option (List UInt8) → Bool → Prop
  /-- A request that does not concern the sockets, or is refused. -/
  | card {ev : List Event} : connEvents ev = [] → SameConns n n' → Served n i n' ev none false
  | listened : SameConns (resetSocketState n) n' → Served n i n' [] none false
  /-- Nothing but the poll. -/
  | polled : polling i.request = true → SameConns (netPoll n i.rx).1 n' →
      Served n i n' (netPoll n i.rx).2 none false
  | accepted : polling i.request = true → (netPoll n i.rx).1.sock.connPending = true →
      SameConns (clearPending (netPoll n i.rx).1) n' → Served n i n' (netPoll n i.rx).2 none true
  | sent {t : Net} {pay : Option (List UInt8)} : taken n i = some t →
      SameConns (kickActiveConnection t).1 n' → pay ≠ some [] →
      pay.getD [] = t.httpd.txBuf.load 0 t.httpd.txLen →
      Served n i n' ((netPoll n i.rx).2 ++ (kickActiveConnection t).2) pay false
  | closed : polling i.request = true →
      SameConns (kickActiveConnection (askClose (netPoll n i.rx).1)).1 n' →
      Served n i n'
        ((netPoll n i.rx).2 ++ (kickActiveConnection (askClose (netPoll n i.rx).1)).2) none false

section Payload

variable {connId length : ℤ} {buf : Mem} {ev : List Event} {r : Reply}

/-- A send that is refused takes nothing over. -/
theorem payloadOf_refused (hr : r.status ≠ .ok) :
    payloadOf ⟨.sockSend connId length buf, ev, r⟩ = none := by
  have hcode : ¬ 0 < -r.status.code := by
    cases r.status <;> simp [NetStatus.code]
  simp only [payloadOf, sockSend, hr, if_false, hcode]

/-- A send that succeeds takes over as many bytes as it says, none if that is not a
positive number. -/
theorem payloadOf_ok (hr : r.status = .ok) :
    payloadOf ⟨.sockSend connId length buf, ev, r⟩ ≠ some [] ∧
      (payloadOf ⟨.sockSend connId length buf, ev, r⟩).getD [] = buf.load 0 length.toNat := by
  simp only [payloadOf, sockSend, hr, if_true]
  split_ifs with hpos
  · refine ⟨fun hnil => ?_, rfl⟩
    have hlen := congrArg List.length (Option.some.inj hnil)
    rw [Mem.length_load, List.length_nil] at hlen
    omega
  · refine ⟨by simp, ?_⟩
    rw [Int.toNat_of_nonpos (not_lt.mp hpos)]
    rfl

end Payload

/-- **Every step is one of these.** -/
theorem served_step {n n' : Net} {i : Input} {o : Outcome} (h : step n i = some (n', o)) :
    Served n i n' o.events (payloadOf o) (isAccept o) := by
  obtain ⟨hh, hreq, hfault⟩ := step_spec h
  obtain ⟨request, rx⟩ := i
  obtain ⟨request', events, reply⟩ := o
  obtain rfl : request' = request := hreq
  cases request' with
  | netSend length buf =>
    obtain ⟨rfl, rfl, rfl⟩ : _ ∧ _ ∧ _ := by
      simpa only [handle, handleNetSend, Prod.mk.injEq] using hh
    have hu := earthNetSend_undisturbed n length buf
    exact .card (earthNetSend_onlyFrames n length buf).connEvents ⟨hu.conns, hu.httpd⟩
  | netRecv =>
    obtain ⟨rfl, rfl, rfl⟩ : _ ∧ _ ∧ _ := by
      simpa only [handle, handleNetRecv, Prod.mk.injEq] using hh
    refine .card rfl ?_
    split_ifs <;> exact ⟨rfl, rfl⟩
  | sockListen port =>
    simp only [handle, handleSockListen] at hh
    split_ifs at hh
    · obtain ⟨rfl, rfl, rfl⟩ : _ ∧ _ ∧ _ := by simpa only [Prod.mk.injEq] using hh
      exact .card rfl ⟨rfl, rfl⟩
    · obtain ⟨rfl, rfl, rfl⟩ : _ ∧ _ ∧ _ := by simpa only [Prod.mk.injEq] using hh
      refine .listened ⟨?_, rfl⟩
      simp only [uipListen]
      split <;> rfl
  | sockAccept =>
    simp only [handle, handleSockAccept] at hh
    split_ifs at hh with hpend
    · obtain ⟨rfl, rfl, rfl⟩ : _ ∧ _ ∧ _ := by simpa only [Prod.mk.injEq] using hh
      exact .accepted rfl hpend ⟨rfl, rfl⟩
    · obtain ⟨rfl, rfl, rfl⟩ : _ ∧ _ ∧ _ := by simpa only [Prod.mk.injEq] using hh
      exact .polled rfl ⟨rfl, rfl⟩
  | sockRecv connId length =>
    simp only [handle, handleSockRecv] at hh
    have hsame : (netPoll n rx).2 = events ∧ SameConns (netPoll n rx).1 n' := by
      split_ifs at hh <;>
        obtain ⟨rfl, rfl, -⟩ : _ ∧ _ ∧ _ := by simpa only [Prod.mk.injEq] using hh
      all_goals exact ⟨rfl, rfl, rfl⟩
    obtain ⟨rfl, hsame⟩ := hsame
    exact .polled rfl hsame
  | sockSend connId length buf =>
    rcases handle_sockSend_cases n connId length buf rx with ⟨r, hr, heq⟩ | ⟨t, ht, htaken, -, heq⟩
    · obtain ⟨rfl, rfl, rfl⟩ : _ ∧ _ ∧ _ := by
        simpa only [heq, Prod.mk.injEq] using hh
      rw [payloadOf_refused hr]
      exact .polled rfl ⟨rfl, rfl⟩
    · obtain ⟨rfl, rfl, rfl⟩ : _ ∧ _ ∧ _ := by
        simpa only [heq, Prod.mk.injEq] using hh
      have hclamp := clampNetLength_of_le (le_of_fault_takePayload (ht ▸ fault_kick hfault))
      obtain ⟨hhttpd, hload⟩ := takePayload_httpd (netPoll n rx).1 (clampNetLength length) buf
      rw [← ht, hclamp] at hhttpd hload
      have hlen : t.httpd.txLen = length.toNat := by rw [hhttpd]
      refine .sent htaken ⟨rfl, rfl⟩ (payloadOf_ok rfl).1 ?_
      rw [(payloadOf_ok rfl).2, hlen, hload]
  | sockClose connId =>
    simp only [handle, handleSockClose] at hh
    split_ifs at hh
    · obtain ⟨rfl, rfl, rfl⟩ : _ ∧ _ ∧ _ := by simpa only [Prod.mk.injEq] using hh
      exact .closed rfl ⟨rfl, rfl⟩
    · obtain ⟨rfl, rfl, rfl⟩ : _ ∧ _ ∧ _ := by simpa only [Prod.mk.injEq] using hh
      exact .polled rfl ⟨rfl, rfl⟩

/-! ## Between requests -/

/-- What has arrived has moved on to the sockets. -/
def Settled (n : Net) : Prop := n.httpd.rxLen = 0

theorem settled_netPoll {n : Net} (h : Settled n) (rx : Rx) : Settled (netPoll n rx).1 := by
  unfold Settled
  rw [netPoll_httpd]
  split_ifs
  · exact h
  · rfl

theorem settled_kick {n : Net} (h : Settled n) : Settled (kickActiveConnection n).1 := by
  unfold Settled
  rw [kick_httpd]
  split_ifs
  · exact h
  · rfl

/-- **Nothing is left in the bridge between requests.** -/
theorem settled_step {n n' : Net} {i : Input} {o : Outcome} (hn : Settled n)
    (h : step n i = some (n', o)) : Settled n' := by
  have hp := settled_netPoll hn i.rx
  have hserved := served_step h
  generalize o.events = ev at hserved
  generalize payloadOf o = pay at hserved
  generalize isAccept o = acc at hserved
  unfold Settled at hn hp ⊢
  cases hserved with
  | card _ hsame => rwa [hsame.2]
  | listened hsame =>
    rw [hsame.2]
    rfl
  | polled _ hsame => rwa [hsame.2]
  | accepted _ _ hsame =>
    rw [hsame.2]
    exact hp
  | sent ht hsame _ _ =>
    obtain ⟨-, -, -, length, buf, rfl⟩ := taken_spec ht
    rw [hsame.2]
    refine settled_kick ?_
    unfold Settled
    rw [(takePayload_httpd _ _ _).1]
    exact hp
  | closed _ hsame =>
    rw [hsame.2]
    exact settled_kick (n := askClose (netPoll n i.rx).1) hp

/-- The same, for every run from the start. -/
theorem settled_run {C : Net → Input → Prop} {is : List Input} {os : List Outcome} {n : Net}
    (h : Run step C Net.init is os n) : Settled n := by
  have h0 : Settled Net.init := rfl
  exact h.invariant (P := fun _ n => Settled n) (fun _ _ _ _ _ hn _ hs => settled_step hn hs) h0

end Service
end EgosNet
