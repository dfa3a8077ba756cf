import EgosNet.Service.Poll

/-!
# The two copies of the connection state

Whether there is a connection, whether it waits to be accepted, whether it has ended, and whether
data waits to be sent, is written down twice: in the bridge, where the callback changes it, and in
the socket variables, where the handlers read it.  `sync_socket_state` copies the first over the
second, but not always: no frame, no copy; no listening port, no copy; and `sock_close` and
`sock_recv` change one side after the copy.

What ties the copies together does not depend on TCP.  Here uIP is replaced by an arbitrary source
of callbacks: when a frame has arrived, `httpd_appcall` is called any number of times, each time
with any flags, any length and any data.  `serve` is the code of the handlers with `net_poll` and
`kick_active_connection` left open, and `handle_eq_serve` says that it is that code.

* `Bridged`: the invariant between two requests.
* `bridged_bridgeStep`: no request breaks it, whatever uIP calls back.
* `bridge_coherence`: it holds in every run, and the clamp in `sync_socket_state` cuts nothing.
* `exists_bridgeStep`: uIP as it is makes some of these callbacks; hence `bridged_run`, about the
  service itself.
-/

namespace EgosNet
namespace Service

open Foundation Uip

/-! ## The handlers, with uIP left open -/

/-- The state after a request, with `net_poll` and `kick_active_connection` as parameters. -/
def serve (poll kick : Net → Net) (n : Net) : Request → Net
  | .netSend length buf => (handleNetSend n length buf).1
  | .netRecv => n
  | .sockListen port => (handleSockListen n port).1
  | .sockAccept =>
    let n := poll n
    if n.sock.connPending then clearPending n else n
  | .sockRecv connId _ =>
    let n := poll n
    if n.sock.listenPort < 0 ∨ connId ≠ n.sock.connId then n
    else if 0 < n.sock.rxLen then { n with sock := { n.sock with rxLen := 0 } }
    else n
  | .sockSend connId length buf =>
    let n := poll n
    if n.sock.listenPort < 0 ∨ ¬ socketConnValid n.sock connId then n
    else if n.sock.txPending then n
    else
      let n := takePayload n (clampNetLength length) buf
      if n.sock.txPending then kick n else n
  | .sockClose connId =>
    let n := poll n
    if ¬ socketConnValid n.sock connId then n else forgetConn (kick (askClose n))

/-- The calls of `httpd_appcall` that uIP makes, one after the other. -/
def callbacks (us : List Stack) (h : Httpd) : Httpd :=
  us.foldl (fun h u => (httpdAppcall u h).2) h

/-- `net_poll`: nothing without a frame; with one, whatever uIP calls back and then the copy. -/
def pollBy (polled : Option (List Stack)) (n : Net) : Net :=
  match polled with
  | none => n
  | some us => syncSocketState { n with httpd := callbacks us n.httpd }

/-- `kick_active_connection`: nothing without a listening port. -/
def kickBy (kicked : List Stack) (n : Net) : Net :=
  if n.sock.listenPort < 0 then n
  else syncSocketState { n with httpd := callbacks kicked n.httpd }

/-- A request, the callbacks for the frame that was polled, if there was one, and the callbacks of
the kick. -/
structure BridgeInput where
  request : Request
  polled : Option (List Stack)
  kicked : List Stack

/-- One request, with uIP as an arbitrary source of callbacks. -/
def bridgeStep (n : Net) (i : BridgeInput) : Option (Net × Unit) :=
  some (serve (pollBy i.polled) (kickBy i.kicked) n i.request, ())

/-- The lengths the callers pass. -/
def lengthOk : Request → Bool
  | .netSend length _ => 0 ≤ length ∧ length ≤ NET_BUF_SIZE
  | .sockRecv _ length => 0 ≤ length ∧ length ≤ NET_BUF_SIZE
  | .sockSend _ length _ => 0 ≤ length ∧ length ≤ UIP_TCP_MSS
  | _ => true

/-- The lengths are in range, and `uip_len` has 16 bits. -/
def WellFormed (_ : Net) (i : BridgeInput) : Prop :=
  lengthOk i.request = true ∧ (∀ us ∈ i.polled, ∀ u ∈ us, u.len < 65536) ∧
    ∀ u ∈ i.kicked, u.len < 65536

instance (n : Net) (i : BridgeInput) : Decidable (WellFormed n i) :=
  inferInstanceAs (Decidable (_ ∧ _ ∧ _))

/-! ## The invariant -/

/-- How the two copies agree between two requests. -/
structure Bridged (n : Net) : Prop where
  handedOver : n.httpd.rxLen = 0
  rxLen : n.sock.rxLen ≤ UIP_BUFSIZE
  httpdPending : n.httpd.connPending = true → n.httpd.connOpen = true
  sockPending : n.sock.connPending = true → n.sock.connOpen = true
  httpdClosed : ¬ (n.httpd.connOpen = true ∧ n.httpd.connClosed = true)
  sockClosed : ¬ (n.sock.connOpen = true ∧ n.sock.connClosed = true)
  connClosed : n.sock.connClosed = n.httpd.connClosed
  connOpen : n.sock.connOpen = true → n.httpd.connOpen = true
  connPending : n.sock.connPending = true → n.httpd.connPending = true
  txPending : n.sock.txPending = true → n.httpd.txPending = true

/-- The part of the invariant that is about the bridge alone, with a bound on what waits there. -/
structure BridgeSound (h : Httpd) : Prop where
  rxLen : h.rxLen ≤ UIP_BUFSIZE
  pending : h.connPending = true → h.connOpen = true
  closed : ¬ (h.connOpen = true ∧ h.connClosed = true)

theorem Bridged.sound {n : Net} (h : Bridged n) : BridgeSound n.httpd :=
  ⟨by rw [h.handedOver]; exact Nat.zero_le _, h.httpdPending, h.httpdClosed⟩

/-- A callback keeps the bridge sound, whatever its flags say. -/
theorem bridgeSound_note {f : UipFlags} {d : List UInt8} {h : Httpd} (hs : BridgeSound h) :
    BridgeSound (note f d h) := by
  constructor
  · show (if f.newdata then min d.length UIP_BUFSIZE else h.rxLen) ≤ UIP_BUFSIZE
    split_ifs
    · exact min_le_right _ _
    · exact hs.rxLen
  · show (if ends f then false else if f.connected then true else h.connPending) = true →
      (if ends f then false else if f.connected then true else h.connOpen) = true
    split_ifs
    · exact id
    · exact id
    · exact hs.pending
  · show ¬ ((if ends f then false else if f.connected then true else h.connOpen) = true ∧
      (if ends f then true else if f.connected then false else h.connClosed) = true)
    split_ifs
    · simp
    · simp
    · exact hs.closed

/-- So do any number of them. -/
theorem bridgeSound_callbacks (us : List Stack) {h : Httpd} (hs : BridgeSound h) :
    BridgeSound (callbacks us h) := by
  induction us generalizing h with
  | nil => exact hs
  | cons u us ih =>
    show BridgeSound (callbacks us (httpdAppcall u h).2)
    rw [httpdAppcall_snd]
    exact ih (bridgeSound_note hs)

/-- What is waiting in the bridge fits into the socket's buffer. -/
theorem clamp_callbacks (us : List Stack) {h : Httpd} (hs : BridgeSound h) :
    min (callbacks us h).rxLen NET_BUF_SIZE = (callbacks us h).rxLen :=
  min_eq_left ((bridgeSound_callbacks us hs).rxLen.trans (by decide))

/-- **After the copy the two sides agree.** -/
theorem bridged_sync {n : Net} (hs : BridgeSound n.httpd) (hrx : n.sock.rxLen ≤ UIP_BUFSIZE) :
    Bridged (syncSocketState n) where
  handedOver := by rw [syncSocketState_httpd]
  rxLen := by
    rw [syncSocketState_sock]
    show (if 0 < n.httpd.rxLen then min n.httpd.rxLen NET_BUF_SIZE else n.sock.rxLen) ≤ UIP_BUFSIZE
    split_ifs
    · exact (min_le_left _ _).trans hs.rxLen
    · exact hrx
  httpdPending := by
    rw [syncSocketState_httpd]
    exact hs.pending
  sockPending := by
    rw [syncSocketState_sock]
    exact hs.pending
  httpdClosed := by
    rw [syncSocketState_httpd]
    exact hs.closed
  sockClosed := by
    rw [syncSocketState_sock]
    exact hs.closed
  connClosed := by
    rw [syncSocketState_sock, syncSocketState_httpd]
    rfl
  connOpen := by
    rw [syncSocketState_sock, syncSocketState_httpd]
    exact id
  connPending := by
    rw [syncSocketState_sock, syncSocketState_httpd]
    exact id
  txPending := by
    rw [syncSocketState_sock, syncSocketState_httpd]
    exact id

theorem bridged_pollBy {n : Net} (h : Bridged n) (polled : Option (List Stack)) :
    Bridged (pollBy polled n) := by
  cases polled with
  | none => exact h
  | some us => exact bridged_sync (bridgeSound_callbacks us h.sound) h.rxLen

theorem bridged_kickBy {n : Net} (h : Bridged n) (kicked : List Stack) :
    Bridged (kickBy kicked n) := by
  unfold kickBy
  split_ifs
  · exact h
  · exact bridged_sync (bridgeSound_callbacks kicked h.sound) h.rxLen

/-! ### What the handlers do themselves -/

theorem bridged_reset (n : Net) : Bridged (resetSocketState n) := by
  constructor <;> simp [resetSocketState]

theorem Bridged.clearPending {n : Net} (h : Bridged n) : Bridged (clearPending n) where
  handedOver := h.handedOver
  rxLen := h.rxLen
  httpdPending := by simp [Service.clearPending]
  sockPending := by simp [Service.clearPending]
  httpdClosed := h.httpdClosed
  sockClosed := h.sockClosed
  connClosed := h.connClosed
  connOpen := h.connOpen
  connPending := by simp [Service.clearPending]
  txPending := h.txPending

theorem Bridged.drained {n : Net} (h : Bridged n) :
    Bridged { n with sock := { n.sock with rxLen := 0 } } :=
  { h with rxLen := Nat.zero_le _ }

/-- Only the variables of the two copies matter. -/
theorem Bridged.congr {n n' : Net} (h : Bridged n) (hh : n'.httpd = n.httpd)
    (hs : n'.sock = n.sock) : Bridged n' := by
  constructor
  · rw [hh]; exact h.handedOver
  · rw [hs]; exact h.rxLen
  · rw [hh]; exact h.httpdPending
  · rw [hs]; exact h.sockPending
  · rw [hh]; exact h.httpdClosed
  · rw [hs]; exact h.sockClosed
  · rw [hh, hs]; exact h.connClosed
  · rw [hh, hs]; exact h.connOpen
  · rw [hh, hs]; exact h.connPending
  · rw [hh, hs]; exact h.txPending

theorem Bridged.takePayload {n : Net} (h : Bridged n) (txLen : ℤ) (buf : Mem) :
    Bridged (takePayload n txLen buf) := by
  unfold Service.takePayload
  dsimp only
  split_ifs
  · exact { h with txPending := fun _ => rfl }
  · exact { h with txPending := fun _ => rfl }

theorem Bridged.askClose {n : Net} (h : Bridged n) : Bridged (askClose n) :=
  { h with }

theorem Bridged.forgetConn {n : Net} (h : Bridged n) : Bridged (forgetConn n) where
  handedOver := h.handedOver
  rxLen := Nat.zero_le _
  httpdPending := h.httpdPending
  sockPending := by simp [Service.forgetConn]
  httpdClosed := h.httpdClosed
  sockClosed := by simp [Service.forgetConn]
  connClosed := h.connClosed
  connOpen := by simp [Service.forgetConn]
  connPending := by simp [Service.forgetConn]
  txPending := by simp [Service.forgetConn]

/-- **No request breaks the agreement**, if polling and kicking do not. -/
theorem bridged_serve {poll kick : Net → Net} (hpoll : ∀ n, Bridged n → Bridged (poll n))
    (hkick : ∀ n, Bridged n → Bridged (kick n)) {n : Net} (h : Bridged n) (r : Request) :
    Bridged (serve poll kick n r) := by
  cases r with
  | netSend length buf =>
    have hu := earthNetSend_undisturbed n length buf
    exact h.congr hu.httpd hu.sock
  | netRecv => exact h
  | sockListen port =>
    show Bridged (handleSockListen n port).1
    unfold handleSockListen
    split_ifs
    · exact h
    · exact (bridged_reset _).congr rfl rfl
  | sockAccept =>
    show Bridged (if (poll n).sock.connPending = true then clearPending (poll n) else poll n)
    split_ifs
    · exact (hpoll n h).clearPending
    · exact hpoll n h
  | sockRecv connId length =>
    unfold serve
    dsimp only
    split_ifs
    · exact hpoll n h
    · exact (hpoll n h).drained
    · exact hpoll n h
  | sockSend connId length buf =>
    unfold serve
    dsimp only
    split_ifs
    · exact hpoll n h
    · exact hpoll n h
    · exact hkick _ ((hpoll n h).takePayload _ _)
    · exact (hpoll n h).takePayload _ _
  | sockClose connId =>
    unfold serve
    dsimp only
    split_ifs
    · exact (hkick _ (hpoll n h).askClose).forgetConn
    · exact hpoll n h

theorem bridged_bridgeStep {n n' : Net} {i : BridgeInput} {o : Unit} (h : Bridged n)
    (hs : bridgeStep n i = some (n', o)) : Bridged n' := by
  obtain ⟨rfl, -⟩ := Prod.mk.inj (Option.some.inj hs)
  exact bridged_serve (fun _ h => bridged_pollBy h _) (fun _ h => bridged_kickBy h _) h i.request

theorem bridged_init : Bridged Net.init := by
  constructor <;> simp [Net.init]

/-- A state in which a handler comes to a kick, if it began in `n`. -/
inductive Kicks (n : Net) : Net → Prop
  | send (polled : Option (List Stack)) (txLen : ℤ) (buf : Mem) :
      Kicks n (takePayload (pollBy polled n) txLen buf)
  | close (polled : Option (List Stack)) : Kicks n (askClose (pollBy polled n))

theorem bridged_kicks {n t : Net} (h : Bridged n) (ht : Kicks n t) : Bridged t := by
  cases ht with
  | send polled txLen buf => exact (bridged_pollBy h polled).takePayload txLen buf
  | close polled => exact (bridged_pollBy h polled).askClose

/-- **The bridge and the sockets agree.**  Whatever uIP calls back, in every state between two
requests the invariant holds; and however uIP goes on to call back, be it in the poll or in the kick
of a request, what it leaves for `sync_socket_state` is not cut. -/
theorem bridge_coherence {is : List BridgeInput} {us : List Unit} {n : Net}
    (hrun : Run bridgeStep WellFormed Net.init is us n) :
    Bridged n ∧ ∀ t, t = n ∨ Kicks n t → ∀ us : List Stack,
      min (callbacks us t.httpd).rxLen NET_BUF_SIZE = (callbacks us t.httpd).rxLen := by
  have h : Bridged n := hrun.invariant (P := fun _ n => Bridged n)
    (fun _ _ _ _ _ h _ hs => bridged_bridgeStep h hs) bridged_init
  refine ⟨h, fun t ht us => clamp_callbacks us ?_⟩
  rcases ht with rfl | ht
  · exact h.sound
  · exact (bridged_kicks h ht).sound

/-! ### A connection, data, and its end -/

/-- uIP calls back with these flags and this length. -/
def calling (flags : UipFlags) (len : ℕ) : Stack := { uipInit with flags := flags, len := len }

/-- A connection is announced while it sends data, is accepted, and ends while the service sends. -/
def announcedAndEnded : List BridgeInput :=
  [⟨.sockListen 80, none, []⟩,
    ⟨.sockAccept, some [calling { connected := true, newdata := true } 65535], []⟩,
    ⟨.sockSend 1 4 fun _ => 0, none, [calling { poll := true } 0, calling { close := true } 0]⟩]

theorem bridge_coherence_announcedAndEnded :
    ∃ us n, Run bridgeStep WellFormed Net.init announcedAndEnded us n ∧ n.sock.rxLen = UIP_BUFSIZE ∧
      n.sock.connClosed = true ∧ Bridged n := by
  have hexec : ((exec (guarded bridgeStep WellFormed) Net.init announcedAndEnded).map fun r =>
      (r.1.sock.rxLen, r.1.sock.connClosed)) = some (UIP_BUFSIZE, true) := by decide +kernel
  obtain ⟨⟨n, us⟩, hr, hval⟩ := Option.map_eq_some_iff.mp hexec
  obtain ⟨hrx, hclosed⟩ := Prod.mk.inj hval
  have hrun := run_of_exec_guarded hr
  exact ⟨us, n, hrun, hrx, hclosed, (bridge_coherence hrun).1⟩

/-! ## uIP as it is -/

/-- The two copies are the same in both states. -/
def SameVars (a n : Net) : Prop := n.httpd = a.httpd ∧ n.sock = a.sock

/-- The handlers are `serve`, with `net_poll` and `kick_active_connection` as they are. -/
theorem handle_eq_serve (n : Net) (i : Input) :
    SameVars (serve (fun n => (netPoll n i.rx).1) (fun n => (kickActiveConnection n).1) n i.request)
      (handle n i).1 := by
  obtain ⟨request, rx⟩ := i
  cases request with
  | netSend length buf => exact ⟨rfl, rfl⟩
  | netRecv =>
    simp only [handle, handleNetRecv, serve]
    split_ifs <;> exact ⟨rfl, rfl⟩
  | sockListen port => exact ⟨rfl, rfl⟩
  | sockAccept =>
    simp only [handle, handleSockAccept, serve]
    split_ifs <;> exact ⟨rfl, rfl⟩
  | sockRecv connId length =>
    simp only [handle, handleSockRecv, serve]
    split_ifs <;> exact ⟨rfl, rfl⟩
  | sockSend connId length buf =>
    simp only [handle, handleSockSend, netKickTx, serve]
    split_ifs <;> exact ⟨rfl, rfl⟩
  | sockClose connId =>
    simp only [handle, handleSockClose, netKickClose, serve]
    split_ifs <;> exact ⟨rfl, rfl⟩

/-- A callback with the flags and the data of a call; what exceeds the buffer of the bridge is not
looked at. -/
def callbackOf (c : Call) : Stack :=
  { uipInit with
    flags := c.flags
    buf := Mem.store (fun _ => 0) 0 (c.data.take UIP_BUFSIZE)
    appdata := 0
    len := (c.data.take UIP_BUFSIZE).length }

theorem note_take (f : UipFlags) (d : List UInt8) (h : Httpd) :
    note f (d.take UIP_BUFSIZE) h = note f d h := by
  have hlen : min (d.take UIP_BUFSIZE).length UIP_BUFSIZE = min d.length UIP_BUFSIZE := by
    rw [List.length_take]
    omega
  simp only [note, hlen, List.take_take, min_self]

/-- The callbacks of a call, if there is one. -/
theorem callbacks_call (c : Option Call) (h : Httpd) :
    callbacks (c.map callbackOf).toList h = noted h c := by
  cases c with
  | none => rfl
  | some c =>
    show (httpdAppcall (callbackOf c) h).2 = note c.flags c.data h
    rw [httpdAppcall_snd, ← note_take c.flags c.data]
    exact congrArg (note c.flags · h) (Mem.load_store _ 0 _)

/-- The callbacks that a frame leads to. -/
def polledBy (n : Net) (rx : Rx) : Option (List Stack) :=
  if rx.frame = [] then none else some ((frameCall n rx).map callbackOf).toList

theorem sameVars_pollBy {a n : Net} (h : SameVars a n) (rx : Rx) :
    SameVars (pollBy (polledBy n rx) a) (netPoll n rx).1 := by
  refine ⟨?_, ?_⟩
  · rw [netPoll_httpd]
    unfold polledBy
    split_ifs
    · exact h.1
    · rw [pollBy, syncSocketState_httpd, callbacks_call, ← h.1]
  · rw [netPoll_sock]
    unfold polledBy
    split_ifs
    · exact h.2
    · rw [pollBy, syncSocketState_sock, callbacks_call, ← h.1, ← h.2]

theorem sameVars_kickBy {a n : Net} (h : SameVars a n) :
    SameVars (kickBy ((kickCall n).map callbackOf).toList a) (kickActiveConnection n).1 := by
  refine ⟨?_, ?_⟩
  · rw [kick_httpd, kickBy, ← h.2]
    split_ifs
    · exact h.1
    · rw [syncSocketState_httpd, callbacks_call, ← h.1]
  · rw [kick_sock, kickBy, ← h.2]
    split_ifs
    · exact h.2
    · rw [syncSocketState_sock, callbacks_call, ← h.1]

section SameVars

variable {a n : Net} (h : SameVars a n)
include h

theorem SameVars.clearPending : SameVars (clearPending a) (clearPending n) :=
  ⟨congrArg (fun h => { h with connPending := false }) h.1,
    congrArg (fun s => { s with connPending := false }) h.2⟩

theorem SameVars.askClose : SameVars (askClose a) (askClose n) :=
  ⟨congrArg (fun h => { h with closePending := true }) h.1, h.2⟩

theorem SameVars.forgetConn : SameVars (forgetConn a) (forgetConn n) :=
  ⟨h.1, congrArg (fun s => { s with
    connOpen := false, connPending := false, txPending := false, rxLen := 0 }) h.2⟩

theorem SameVars.takePayload (txLen : ℤ) (buf : Mem) :
    SameVars (takePayload a txLen buf) (takePayload n txLen buf) := by
  unfold SameVars Service.takePayload
  dsimp only
  split_ifs
  · rw [h.1, h.2]
    exact ⟨rfl, rfl⟩
  · simp only [Net.raise, h.1, h.2, and_self]

end SameVars

/-- **uIP as it is.**  Whatever a request does to the two copies, it does with some callbacks. -/
theorem exists_bridgeStep {a n : Net} (h : SameVars a n) (i : Input) :
    ∃ polled kicked a', bridgeStep a ⟨i.request, polled, kicked⟩ = some (a', ()) ∧
      SameVars a' (handle n i).1 := by
  obtain ⟨request, rx⟩ := i
  have hp := sameVars_pollBy h rx
  have hserve := handle_eq_serve n ⟨request, rx⟩
  -- it is enough to match `serve` with the callbacks that were made
  suffices hmatch : ∃ kicked, SameVars (serve (pollBy (polledBy n rx)) (kickBy kicked) a request)
      (serve (fun n => (netPoll n rx).1) (fun n => (kickActiveConnection n).1) n request) by
    obtain ⟨kicked, hs⟩ := hmatch
    exact ⟨polledBy n rx, kicked, _, rfl, hserve.1.trans hs.1, hserve.2.trans hs.2⟩
  cases request with
  | netSend length buf =>
    have ha := earthNetSend_undisturbed a length buf
    have hn := earthNetSend_undisturbed n length buf
    exact ⟨[], (hn.httpd.trans h.1).trans ha.httpd.symm, (hn.sock.trans h.2).trans ha.sock.symm⟩
  | netRecv => exact ⟨[], h⟩
  | sockListen port =>
    refine ⟨[], ?_⟩
    simp only [serve, handleSockListen, resetSocketState]
    split_ifs
    · exact h
    · refine ⟨?_, ?_⟩ <;> simp only [h.1, h.2]
  | sockAccept =>
    refine ⟨[], ?_⟩
    simp only [serve, ← hp.2]
    split_ifs
    · exact hp.clearPending
    · exact hp
  | sockRecv connId length =>
    refine ⟨[], ?_⟩
    simp only [serve, ← hp.2]
    split_ifs
    · exact hp
    · exact ⟨hp.1, rfl⟩
    · exact hp
  | sockSend connId length buf =>
    have ht := hp.takePayload (clampNetLength length) buf
    refine ⟨((kickCall (takePayload (netPoll n rx).1 (clampNetLength length) buf)).map
      callbackOf).toList, ?_⟩
    simp only [serve, ← hp.2, ← ht.2]
    split_ifs
    · exact hp
    · exact hp
    · exact sameVars_kickBy ht
    · exact ht
  | sockClose connId =>
    refine ⟨((kickCall (askClose (netPoll n rx).1)).map callbackOf).toList, ?_⟩
    simp only [serve, ← hp.2]
    split_ifs
    · exact (sameVars_kickBy hp.askClose).forgetConn
    · exact hp

theorem bridged_netPoll {n : Net} (h : Bridged n) (rx : Rx) : Bridged (netPoll n rx).1 := by
  have hsame := sameVars_pollBy (a := n) ⟨rfl, rfl⟩ rx
  exact (bridged_pollBy h (polledBy n rx)).congr hsame.1 hsame.2

/-- No step of the service breaks the agreement. -/
theorem bridged_step {n n' : Net} {i : Input} {o : Outcome} (h : Bridged n)
    (hs : step n i = some (n', o)) : Bridged n' := by
  obtain ⟨polled, kicked, a', hstep, hsame⟩ := exists_bridgeStep (a := n) ⟨rfl, rfl⟩ i
  have heq : (handle n i).1 = n' := by
    unfold step at hs
    dsimp only at hs
    split_ifs at hs
    exact (Prod.mk.inj (Option.some.inj hs)).1
  rw [← heq]
  exact (bridged_bridgeStep h hstep).congr hsame.1 hsame.2

/-- **The two copies agree in every run of the service.** -/
theorem bridged_run {C : Net → Input → Prop} {is : List Input} {os : List Outcome} {n : Net}
    (hrun : Run step C Net.init is os n) : Bridged n :=
  hrun.invariant (P := fun _ n => Bridged n) (fun _ _ _ _ _ h _ hs => bridged_step h hs)
    bridged_init

end Service
end EgosNet
