import EgosNet.Service.SysNet

/-!
# What a frame and a kick do

`net_poll` and `kick_active_connection` are the two ways the service enters uIP,
and every socket request is made of them.  Both come down to one run of
`uip_process`, in which the application is called at most once, followed by the
transmission of what uIP left in its buffer and by `sync_socket_state`.

This file says what that does to each part of the state, so that nothing later has
to look into `net_poll` again.  `frameVerdict` is what uIP makes of the frame and
`frameCall` the call of the application it leads to; `kickVerdict` and `kickCall`
are the same for a kick.  Then

* the bridge is changed by the call and by nothing else (`netPoll_httpd`,
  `kick_httpd`);
* the sockets see the bridge through `syncSock` (`netPoll_sock`, `kick_sock`);
* the connections are what `uip_process` makes of them (`process_conns`).
-/

namespace EgosNet
namespace Service

open Foundation Uip

/-! ## Reading the events -/

/-- The calls of the application. -/
def calls (ev : List Event) : List Call :=
  ev.filterMap fun e => match e with
    | .call c => some c
    | _ => none

/-- The segments uIP built, with the slots of their connections. -/
def emitted (ev : List Event) : List (Slot × Segment) :=
  ev.filterMap fun e => match e with
    | .segment i s => some (i, s)
    | _ => none

/-- The slots given to new connections. -/
def openings (ev : List Event) : List Slot :=
  ev.filterMap fun e => match e with
    | .opened i => some i
    | _ => none

/-- The frames handed to the card. -/
def transmitted (ev : List Event) : List (List UInt8) :=
  ev.filterMap fun e => match e with
    | .netSend f => some f
    | _ => none

/-- The slots that were polled. -/
def polls (ev : List Event) : List Slot :=
  ev.filterMap fun e => match e with
    | .polled i => some i
    | _ => none

section Append

variable (ev ev' : List Event)

@[simp] theorem calls_append : calls (ev ++ ev') = calls ev ++ calls ev' :=
  List.filterMap_append

@[simp] theorem emitted_append : emitted (ev ++ ev') = emitted ev ++ emitted ev' :=
  List.filterMap_append

@[simp] theorem openings_append : openings (ev ++ ev') = openings ev ++ openings ev' :=
  List.filterMap_append

@[simp] theorem polls_append : polls (ev ++ ev') = polls ev ++ polls ev' :=
  List.filterMap_append

@[simp] theorem calls_nil : calls [] = [] := rfl
@[simp] theorem emitted_nil : emitted [] = [] := rfl
@[simp] theorem openings_nil : openings [] = [] := rfl
@[simp] theorem polls_nil : polls [] = [] := rfl

end Append

/-! ## Transmission

Handing a packet to the card leaves everything but the fault alone. -/

/-- `n'` is `n` but for the packet being built, the ARP table and a fault. -/
structure Undisturbed (n n' : Net) : Prop where
  httpd : n'.httpd = n.httpd
  sock : n'.sock = n.sock
  conns : n'.uip.conns = n.uip.conns
  listenports : n'.uip.listenports = n.uip.listenports
  slen : n'.uip.slen = n.uip.slen

theorem Undisturbed.refl (n : Net) : Undisturbed n n := ⟨rfl, rfl, rfl, rfl, rfl⟩

theorem Undisturbed.trans {n n' n'' : Net} (h : Undisturbed n n') (h' : Undisturbed n' n'') :
    Undisturbed n n'' :=
  ⟨h'.httpd.trans h.httpd, h'.sock.trans h.sock, h'.conns.trans h.conns,
    h'.listenports.trans h.listenports, h'.slen.trans h.slen⟩

/-- Events that are frames handed to the card. -/
def OnlyFrames (ev : List Event) : Prop := ∀ e ∈ ev, ∃ f, e = .netSend f

/-- Whatever is read off the other events is not found among them. -/
theorem OnlyFrames.filterMap {α : Type*} {g : Event → Option α} {ev : List Event}
    (h : OnlyFrames ev) (hg : ∀ f, g (.netSend f) = none) : ev.filterMap g = [] := by
  refine List.filterMap_eq_nil_iff.mpr fun e he => ?_
  obtain ⟨f, rfl⟩ := h e he
  exact hg f

section OnlyFrames

variable {ev : List Event} (h : OnlyFrames ev)
include h

theorem OnlyFrames.calls : calls ev = [] := h.filterMap fun _ => rfl

theorem OnlyFrames.openings : openings ev = [] := h.filterMap fun _ => rfl

theorem OnlyFrames.polls : polls ev = [] := h.filterMap fun _ => rfl

end OnlyFrames

theorem earthNetSend_undisturbed (n : Net) (length : ℤ) (packet : Mem) :
    Undisturbed n (earthNetSend n length packet).1 := by
  unfold earthNetSend
  split_ifs <;> exact ⟨rfl, rfl, rfl, rfl, rfl⟩

theorem earthNetSend_onlyFrames (n : Net) (length : ℤ) (packet : Mem) :
    OnlyFrames (earthNetSend n length packet).2 := by
  unfold earthNetSend OnlyFrames
  split_ifs <;> simp

theorem sendPacket_undisturbed (n : Net) : Undisturbed n (sendPacket n).1 := by
  simp only [sendPacket]
  split_ifs
  · obtain ⟨h1, h2, h3, -⟩ := uipArpOut_frame n.uip n.arp
    have harp : Undisturbed n { n with uip := uipArpOut n.uip n.arp } := ⟨rfl, rfl, h1, h2, h3⟩
    exact harp.trans (earthNetSend_undisturbed _ _ _)
  · exact Undisturbed.refl n

theorem sendPacket_onlyFrames (n : Net) : OnlyFrames (sendPacket n).2 := by
  simp only [sendPacket]
  split_ifs
  · exact earthNetSend_onlyFrames _ _ _
  · simp [OnlyFrames]

theorem arpInput_undisturbed (n : Net) : Undisturbed n (arpInput n).1 := by
  obtain ⟨h1, h2, h3, -⟩ := uipArpArpin_frame n.uip n.arp
  have harp : Undisturbed n
      { n with uip := (uipArpArpin n.uip n.arp).1, arp := (uipArpArpin n.uip n.arp).2 } :=
    ⟨rfl, rfl, h1, h2, h3⟩
  simp only [arpInput]
  split_ifs
  · exact harp.trans (earthNetSend_undisturbed _ _ _)
  · exact harp

theorem arpInput_onlyFrames (n : Net) : OnlyFrames (arpInput n).2 := by
  simp only [arpInput]
  split_ifs
  · exact earthNetSend_onlyFrames _ _ _
  · simp [OnlyFrames]

theorem earthNetRecv_conns (u : Stack) (rx : Rx) : (earthNetRecv u rx).conns = u.conns := by
  simp only [earthNetRecv]
  split_ifs <;> rfl

theorem earthNetRecv_listenports (u : Stack) (rx : Rx) :
    (earthNetRecv u rx).listenports = u.listenports := by
  simp only [earthNetRecv]
  split_ifs <;> rfl

theorem earthNetRecv_slen (u : Stack) (rx : Rx) : (earthNetRecv u rx).slen = u.slen := by
  simp only [earthNetRecv]
  split_ifs <;> rfl

/-! ## One run of `uip_process` -/

/-- The call of the application that a verdict leads to. -/
def callIn (h : Httpd) : Verdict → Option Call
  | .appcall i u k => some (callOf i u h k)
  | _ => none

theorem callIn_eq_some {h : Httpd} {v : Verdict} {c : Call} (hc : callIn h v = some c) :
    ∃ i u k, v = .appcall i u k ∧ c = callOf i u h k := by
  cases v with
  | done u => simp [callIn] at hc
  | quiet i u => simp [callIn] at hc
  | listen i u => simp [callIn] at hc
  | appcall i u k => exact ⟨i, u, k, rfl, (Option.some.inj hc).symm⟩

/-- The bridge after the call, if there was one. -/
def noted (h : Httpd) : Option Call → Httpd
  | none => h
  | some c => note c.flags c.data h

theorem complete_httpd (h : Httpd) (v : Verdict) : (complete h v).1.2 = noted h (callIn h v) := by
  cases v with
  | done u => rfl
  | quiet i u => rfl
  | listen i u => rfl
  | appcall i u k => exact httpdAppcall_snd u h

/-- Whatever is not read off segments is not found among the segments for a
connection. -/
theorem filterMap_segments {α : Type*} {g : Event → Option α} (i : Slot) (u : Stack)
    (hg : ∀ s, g (.segment i s) = none) : (segments i u).filterMap g = [] := by
  unfold segments
  split_ifs
  · simp [hg]
  · rfl

theorem calls_segments (i : Slot) (u : Stack) : calls (segments i u) = [] :=
  filterMap_segments i u fun _ => rfl

theorem openings_segments (i : Slot) (u : Stack) : openings (segments i u) = [] :=
  filterMap_segments i u fun _ => rfl

theorem polls_segments (i : Slot) (u : Stack) : polls (segments i u) = [] :=
  filterMap_segments i u fun _ => rfl

theorem calls_complete (h : Httpd) (v : Verdict) :
    calls (complete h v).2 = (callIn h v).toList := by
  cases v with
  | done u => rfl
  | quiet i u => exact calls_segments i u
  | listen i u => exact calls_segments i u
  | appcall i u k => exact congrArg (callOf i u h k :: ·) (calls_segments i _)

theorem polls_complete (h : Httpd) (v : Verdict) : polls (complete h v).2 = [] := by
  cases v with
  | done u => rfl
  | quiet i u => exact polls_segments i u
  | listen i u => exact polls_segments i u
  | appcall i u k => exact polls_segments i _

theorem process_httpd (n : Net) (v : Verdict) :
    (process n v).1.httpd = noted n.httpd (callIn n.httpd v) :=
  (sendPacket_undisturbed _).httpd.trans (complete_httpd n.httpd v)

theorem process_sock (n : Net) (v : Verdict) : (process n v).1.sock = n.sock :=
  (sendPacket_undisturbed _).sock

theorem process_conns (n : Net) (v : Verdict) :
    (process n v).1.uip.conns = (complete n.httpd v).1.1.conns :=
  (sendPacket_undisturbed _).conns

theorem calls_process (n : Net) (v : Verdict) :
    calls (process n v).2 = (callIn n.httpd v).toList := by
  simp only [process, calls_append, (sendPacket_onlyFrames _).calls, calls_complete,
    List.append_nil]

theorem openings_process (n : Net) (v : Verdict) :
    openings (process n v).2 = openings (complete n.httpd v).2 := by
  simp only [process, openings_append, (sendPacket_onlyFrames _).openings, List.append_nil]

theorem polls_process (n : Net) (v : Verdict) : polls (process n v).2 = [] := by
  simp only [process, polls_append, (sendPacket_onlyFrames _).polls, polls_complete,
    List.append_nil]

/-! ## `sync_socket_state` -/

/-- How the sockets see the bridge after `sync_socket_state`. -/
def syncSock (h : Httpd) (s : Sock) : Sock :=
  { s with
    connOpen := h.connOpen
    connPending := h.connPending
    connClosed := h.connClosed
    txPending := h.txPending
    rxLen := if 0 < h.rxLen then min h.rxLen NET_BUF_SIZE else s.rxLen
    rxBuf :=
      if 0 < h.rxLen then s.rxBuf.store 0 (h.rxBuf.load 0 (min h.rxLen NET_BUF_SIZE))
      else s.rxBuf }

theorem syncSocketState_sock (n : Net) : (syncSocketState n).sock = syncSock n.httpd n.sock := by
  simp only [syncSocketState, syncSock]
  split_ifs <;> rfl

theorem syncSocketState_httpd (n : Net) :
    (syncSocketState n).httpd = { n.httpd with rxLen := 0 } := by
  obtain ⟨u, t, ⟨_, _, _, rxLen, _, _, _, _, _⟩, s⟩ := n
  cases rxLen <;> rfl

theorem syncSocketState_uip (n : Net) : (syncSocketState n).uip = n.uip := by
  simp only [syncSocketState]
  split_ifs <;> rfl

/-! ## `net_poll` -/

/-- What uIP makes of the frame, if it gets to see it. -/
def frameVerdict (n : Net) (rx : Rx) : Option Verdict :=
  if rx.frame = [] then none
  else
    let u := earthNetRecv n.uip rx
    if word16 u.buf ArpHdr.type = HTONS UIP_ETHTYPE_IP then some (uipProcessData u) else none

/-- The call of the application that the frame leads to. -/
def frameCall (n : Net) (rx : Rx) : Option Call := (frameVerdict n rx).bind (callIn n.httpd)

/-- A call comes from a run of `uip_process` on the frame. -/
theorem frameCall_eq_some {n : Net} {rx : Rx} {c : Call} (hc : frameCall n rx = some c) :
    ∃ i u k, frameVerdict n rx = some (.appcall i u k) ∧
      uipProcessData (earthNetRecv n.uip rx) = .appcall i u k ∧ c = callOf i u n.httpd k := by
  obtain ⟨v, hv, hcall⟩ := Option.bind_eq_some_iff.mp hc
  obtain ⟨i, u, k, rfl, rfl⟩ := callIn_eq_some hcall
  refine ⟨i, u, k, hv, ?_, rfl⟩
  simp only [frameVerdict] at hv
  split_ifs at hv
  exact Option.some.inj hv

/-- A frame either reaches uIP, and then it is one run of `uip_process`, or it leaves
the connections, the bridge and the sockets alone. -/
theorem netPoll_cases (n : Net) (rx : Rx) :
    (rx.frame = [] ∧ frameVerdict n rx = none ∧ Undisturbed n (netPoll n rx).1 ∧
      (netPoll n rx).2 = []) ∨
    (rx.frame ≠ [] ∧ frameVerdict n rx = none ∧ ∃ n', Undisturbed n n' ∧
      (netPoll n rx).1 = syncSocketState n' ∧ OnlyFrames (netPoll n rx).2) ∨
    (rx.frame ≠ [] ∧ ∃ v, frameVerdict n rx = some v ∧ v = uipProcessData (earthNetRecv n.uip rx) ∧
      netPoll n rx =
        (syncSocketState (process { n with uip := earthNetRecv n.uip rx } v).1,
          (process { n with uip := earthNetRecv n.uip rx } v).2)) := by
  by_cases hf : rx.frame = []
  · refine Or.inl ⟨hf, by simp [frameVerdict, hf], ?_, by simp [netPoll, hf]⟩
    simp only [netPoll, hf, if_true]
    exact ⟨rfl, rfl, rfl, rfl, rfl⟩
  · have hin : Undisturbed n { n with uip := earthNetRecv n.uip rx } :=
      ⟨rfl, rfl, earthNetRecv_conns _ _, earthNetRecv_listenports _ _, earthNetRecv_slen _ _⟩
    by_cases hip : word16 (earthNetRecv n.uip rx).buf ArpHdr.type = HTONS UIP_ETHTYPE_IP
    · refine Or.inr (Or.inr ⟨hf, _, ?_, rfl, ?_⟩)
      · simp only [frameVerdict, hf, hip, if_true, if_false]
      · simp only [netPoll, frameInput, hf, hip, if_true, if_false]
    · refine Or.inr (Or.inl ⟨hf, by simp only [frameVerdict, hf, hip, if_false], ?_⟩)
      simp only [netPoll, frameInput, hf, hip, if_false]
      split_ifs
      · exact ⟨_, hin.trans (arpInput_undisturbed _), rfl, arpInput_onlyFrames _⟩
      · refine ⟨_, ?_, rfl, by simp [OnlyFrames]⟩
        exact ⟨rfl, rfl, hin.conns, hin.listenports, hin.slen⟩

/-- Without a frame nothing is copied; otherwise the bridge hears of the call and the
data moves on to the sockets. -/
theorem netPoll_httpd (n : Net) (rx : Rx) :
    (netPoll n rx).1.httpd =
      if rx.frame = [] then n.httpd else { noted n.httpd (frameCall n rx) with rxLen := 0 } := by
  rcases netPoll_cases n rx with ⟨hf, -, hu, -⟩ | ⟨hf, hv, n', hu, heq, -⟩ | ⟨hf, v, hv, -, heq⟩
  · rw [if_pos hf, hu.httpd]
  · rw [if_neg hf, heq, syncSocketState_httpd, hu.httpd, frameCall, hv]
    rfl
  · rw [if_neg hf, heq, syncSocketState_httpd, process_httpd, frameCall, hv]
    rfl

theorem netPoll_sock (n : Net) (rx : Rx) :
    (netPoll n rx).1.sock =
      if rx.frame = [] then n.sock else syncSock (noted n.httpd (frameCall n rx)) n.sock := by
  rcases netPoll_cases n rx with ⟨hf, -, hu, -⟩ | ⟨hf, hv, n', hu, heq, -⟩ | ⟨hf, v, hv, -, heq⟩
  · rw [if_pos hf, hu.sock]
  · rw [if_neg hf, heq, syncSocketState_sock, hu.httpd, hu.sock, frameCall, hv]
    rfl
  · rw [if_neg hf, heq, syncSocketState_sock, process_httpd, process_sock, frameCall, hv]
    rfl

theorem netPoll_connId (n : Net) (rx : Rx) : (netPoll n rx).1.sock.connId = n.sock.connId := by
  rw [netPoll_sock]
  split_ifs <;> rfl

theorem calls_netPoll (n : Net) (rx : Rx) : calls (netPoll n rx).2 = (frameCall n rx).toList := by
  rcases netPoll_cases n rx with ⟨-, hv, -, hev⟩ | ⟨-, hv, n', -, -, hev⟩ | ⟨-, v, hv, -, heq⟩
  · rw [hev, frameCall, hv]
    rfl
  · rw [hev.calls, frameCall, hv]
    rfl
  · rw [heq, calls_process, frameCall, hv]
    rfl

/-! ## `kick_active_connection` -/

/-- What uIP makes of the poll, if the service finds a connection to poll. -/
def kickVerdict (n : Net) : Option Verdict :=
  if n.sock.listenPort < 0 then none else (activeSlot n).map (uipProcessPoll n.uip)

/-- The call of the application that a kick leads to. -/
def kickCall (n : Net) : Option Call := (kickVerdict n).bind (callIn n.httpd)

theorem kick_cases (n : Net) :
    (n.sock.listenPort < 0 ∧ kickVerdict n = none ∧ kickActiveConnection n = (n, [])) ∨
    (0 ≤ n.sock.listenPort ∧ kickVerdict n = none ∧
      kickActiveConnection n = (syncSocketState n, [])) ∨
    (0 ≤ n.sock.listenPort ∧ ∃ i, activeSlot n = some i ∧
      kickVerdict n = some (uipProcessPoll n.uip i) ∧
      kickActiveConnection n = (syncSocketState (process n (uipProcessPoll n.uip i)).1,
        .polled i :: (process n (uipProcessPoll n.uip i)).2)) := by
  by_cases hl : n.sock.listenPort < 0
  · exact Or.inl ⟨hl, by simp [kickVerdict, hl], by simp [kickActiveConnection, hl]⟩
  · cases ha : activeSlot n with
    | none =>
      refine Or.inr (Or.inl ⟨not_lt.mp hl, by simp [kickVerdict, ha], ?_⟩)
      simp only [kickActiveConnection, hl, ha, if_false]
    | some i =>
      refine Or.inr (Or.inr ⟨not_lt.mp hl, i, rfl, by simp [kickVerdict, hl, ha], ?_⟩)
      simp only [kickActiveConnection, hl, ha, if_false]

theorem kick_httpd (n : Net) :
    (kickActiveConnection n).1.httpd =
      if n.sock.listenPort < 0 then n.httpd
      else { noted n.httpd (kickCall n) with rxLen := 0 } := by
  rcases kick_cases n with ⟨hl, -, heq⟩ | ⟨hl, hv, heq⟩ | ⟨hl, i, -, hv, heq⟩
  · rw [if_pos hl, heq]
  · rw [if_neg (not_lt.mpr hl), heq, syncSocketState_httpd, kickCall, hv]
    rfl
  · rw [if_neg (not_lt.mpr hl), heq, syncSocketState_httpd, process_httpd, kickCall, hv]
    rfl

theorem kick_sock (n : Net) :
    (kickActiveConnection n).1.sock =
      if n.sock.listenPort < 0 then n.sock else syncSock (noted n.httpd (kickCall n)) n.sock := by
  rcases kick_cases n with ⟨hl, -, heq⟩ | ⟨hl, hv, heq⟩ | ⟨hl, i, -, hv, heq⟩
  · rw [if_pos hl, heq]
  · rw [if_neg (not_lt.mpr hl), heq, syncSocketState_sock, kickCall, hv]
    rfl
  · rw [if_neg (not_lt.mpr hl), heq, syncSocketState_sock, process_httpd, process_sock, kickCall,
      hv]
    rfl

theorem kick_connId (n : Net) : (kickActiveConnection n).1.sock.connId = n.sock.connId := by
  rw [kick_sock]
  split_ifs <;> rfl

theorem calls_kick (n : Net) : calls (kickActiveConnection n).2 = (kickCall n).toList := by
  rcases kick_cases n with ⟨-, hv, heq⟩ | ⟨-, hv, heq⟩ | ⟨-, i, -, hv, heq⟩
  · rw [heq, kickCall, hv]
    rfl
  · rw [heq, kickCall, hv]
    rfl
  · rw [heq, kickCall, hv]
    exact calls_process n (uipProcessPoll n.uip i)

/-- A poll raises no event but itself, and it is not answered while something is in
flight. -/
theorem kickCall_flags {n : Net} {c : Call} (h : kickCall n = some c) :
    c.flags = { poll := true } ∧ c.resume = .appsend ∧ c.conn.len = 0 := by
  obtain ⟨v, hv, hc⟩ := Option.bind_eq_some_iff.mp h
  rcases kick_cases n with ⟨-, hv', -⟩ | ⟨-, hv', -⟩ | ⟨-, i, -, hv', -⟩
  · simp [hv'] at hv
  · simp [hv'] at hv
  · obtain rfl : uipProcessPoll n.uip i = v := by simpa [hv'] using hv
    simp only [uipProcessPoll] at hc
    split_ifs at hc with hready
    · obtain rfl : _ = c := Option.some.inj hc
      exact ⟨rfl, rfl, hready.2⟩
    · simp [callIn] at hc

/-- What a call records of a pending close. -/
theorem callIn_closing {h : Httpd} {v : Verdict} {c : Call} (hc : callIn h v = some c) :
    c.closing = h.closePending := by
  obtain ⟨i, u, k, -, rfl⟩ := callIn_eq_some hc
  rfl

end Service
end EgosNet
