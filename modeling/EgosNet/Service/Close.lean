import EgosNet.Service.Served
import EgosNet.Service.Peer

/-!
# Closing

`handle_sock_close` clears the copies of the flags that the sockets keep.  The
originals in the bridge stay as they are until uIP reports the end of the
connection, and `sync_socket_state` copies them back with the next frame, whatever
it is.  So the socket stays closed as long as no frame finds the original flag
still set --- unless the frame is the one that ends the connection --- and brings
neither a new connection nor data.  `Quiescent` is that condition on a frame.

* `close_is_final`: while every frame is quiescent, nothing but `NET_INVALID` and
  `NET_CLOSED` is answered.
* `close_is_undone`: the acknowledgement of our `FIN` is not quiescent, and the next
  send is answered `NET_OK`.
-/

namespace EgosNet
namespace Service

open Foundation Uip

/-- The request is addressed to connection `id`. -/
def addressedTo (id : ℤ) : Request → Bool
  | .sockRecv connId _ | .sockSend connId _ _ | .sockClose connId => connId = id
  | _ => false

/-- The frame leaves a closed socket closed: there is none, or it ends the
connection, or it finds the connection ended and does not open another; and it
brings no data. -/
def Quiescent (n : Net) (rx : Rx) : Prop :=
  rx.frame = [] ∨
    (∃ c ∈ frameCall n rx, ends c.flags = true ∧ c.flags.newdata = false) ∨
    (n.httpd.connOpen = false ∧
      ∀ c ∈ frameCall n rx, c.flags.connected = false ∧ c.flags.newdata = false)

/-- Every frame that is polled is quiescent. -/
def QuiescentStep (n : Net) (i : Input) : Prop := polling i.request = true → Quiescent n i.rx

instance (n : Net) (rx : Rx) : Decidable (Quiescent n rx) :=
  inferInstanceAs (Decidable (_ ∨ _ ∨ _))

instance (n : Net) (i : Input) : Decidable (QuiescentStep n i) :=
  inferInstanceAs (Decidable (_ → _))

/-- The socket is closed, with nothing to read. -/
structure Shut (n : Net) : Prop where
  settled : Settled n
  connOpen : n.sock.connOpen = false
  rxLen : n.sock.rxLen = 0

/-- **A quiescent frame keeps the socket closed.** -/
theorem shut_netPoll {n : Net} {rx : Rx} (hn : Shut n) (hq : Quiescent n rx) :
    Shut (netPoll n rx).1 := by
  have hzero : n.httpd.rxLen = 0 := hn.settled
  -- the bridge has no data, and its flag is clear
  have hnoted : rx.frame = [] ∨ ((noted n.httpd (frameCall n rx)).connOpen = false ∧
      (noted n.httpd (frameCall n rx)).rxLen = 0) := by
    rcases hq with hf | ⟨c, hc, hend, hnew⟩ | ⟨hopen, hcall⟩
    · exact Or.inl hf
    · rw [show frameCall n rx = some c from hc]
      exact Or.inr ⟨by simp [noted, note, hend], by simp [noted, note, hnew, hzero]⟩
    · refine Or.inr ?_
      cases hc : frameCall n rx with
      | none => exact ⟨hopen, hzero⟩
      | some c =>
        obtain ⟨hcon, hnew⟩ := hcall c hc
        exact ⟨by simp [noted, note, hcon, hopen], by simp [noted, note, hnew, hzero]⟩
  refine ⟨settled_netPoll hn.settled rx, ?_, ?_⟩
  · rw [netPoll_sock]
    split_ifs with hf
    · exact hn.connOpen
    · exact (hnoted.resolve_left hf).1
  · rw [netPoll_sock]
    split_ifs with hf
    · exact hn.rxLen
    · simp [syncSock, (hnoted.resolve_left hf).2, hn.rxLen]

/-- A request that is not addressed to a connection, or is refused. -/
def Refused (o : Outcome) : Prop :=
  ∀ id, addressedTo id o.request = true → o.reply.status = .invalid ∨ o.reply.status = .closed

theorem shut_step {n n' : Net} {i : Input} {o : Outcome} (hn : Shut n) (hi : QuiescentStep n i)
    (h : step n i = some (n', o)) : Shut n' ∧ Refused o := by
  have hset := settled_step hn.settled h
  obtain ⟨hh, hreq, -⟩ := step_spec h
  obtain ⟨request, rx⟩ := i
  obtain ⟨hn', hrep⟩ : n' = (handle n ⟨request, rx⟩).1 ∧
      o.reply = (handle n ⟨request, rx⟩).2.2 := by
    rw [hh]
    exact ⟨rfl, rfl⟩
  unfold Refused
  rw [hreq, hrep]
  rw [hn'] at hset ⊢
  cases request with
  | netSend length buf =>
    have hu := earthNetSend_undisturbed n length buf
    refine ⟨⟨hset, ?_, ?_⟩, by simp [addressedTo]⟩
    · exact (congrArg Sock.connOpen hu.sock).trans hn.connOpen
    · exact (congrArg Sock.rxLen hu.sock).trans hn.rxLen
  | netRecv =>
    refine ⟨⟨hset, ?_, ?_⟩, by simp [addressedTo]⟩ <;> simp only [handle, handleNetRecv]
    · split_ifs <;> exact hn.connOpen
    · split_ifs <;> exact hn.rxLen
  | sockListen port =>
    refine ⟨⟨hset, ?_, ?_⟩, by simp [addressedTo]⟩ <;> simp only [handle, handleSockListen]
    · split_ifs
      · exact hn.connOpen
      · rfl
    · split_ifs
      · exact hn.rxLen
      · rfl
  | sockAccept =>
    have hm := shut_netPoll hn (hi rfl)
    refine ⟨⟨hset, ?_, ?_⟩, by simp [addressedTo]⟩ <;> simp only [handle, handleSockAccept]
    · split_ifs <;> exact hm.connOpen
    · split_ifs <;> exact hm.rxLen
  | sockRecv connId length =>
    have hm := shut_netPoll hn (hi rfl)
    have hcl : (netPoll n rx).1.sock.connClosed = true ∨ ¬ (netPoll n rx).1.sock.connOpen = true :=
      Or.inr (by simp [hm.connOpen])
    have hrx : ¬ 0 < (netPoll n rx).1.sock.rxLen := by simp [hm.rxLen]
    simp only [handle, handleSockRecv, hrx, if_pos hcl, if_false]
    split_ifs
    · exact ⟨hm, fun _ _ => Or.inl rfl⟩
    · exact ⟨hm, fun _ _ => Or.inr rfl⟩
  | sockSend connId length buf =>
    have hm := shut_netPoll hn (hi rfl)
    have hinv : (netPoll n rx).1.sock.listenPort < 0 ∨
        ¬ socketConnValid (netPoll n rx).1.sock connId = true :=
      Or.inr (by simp [socketConnValid, hm.connOpen])
    simp only [handle, handleSockSend, if_pos hinv]
    exact ⟨hm, fun _ _ => Or.inl trivial⟩
  | sockClose connId =>
    have hm := shut_netPoll hn (hi rfl)
    have hinv : ¬ socketConnValid (netPoll n rx).1.sock connId = true := by
      simp [socketConnValid, hm.connOpen]
    simp only [handle, handleSockClose, if_pos hinv]
    exact ⟨hm, fun _ _ => Or.inl trivial⟩

/-- A close that succeeds shuts the socket. -/
theorem shut_of_close {n n' : Net} {connId : ℤ} {rx : Rx} {o : Outcome} (hn : Settled n)
    (h : step n ⟨.sockClose connId, rx⟩ = some (n', o)) (hok : o.reply.status = .ok) :
    Shut n' := by
  have hset := settled_step hn h
  obtain ⟨hh, -, -⟩ := step_spec h
  simp only [handle, handleSockClose] at hh
  split_ifs at hh
  · obtain ⟨rfl, -⟩ := Prod.mk.inj hh
    exact ⟨hset, rfl, rfl⟩
  · obtain ⟨-, hr⟩ := Prod.mk.inj hh
    rw [← (Prod.mk.inj hr).2] at hok
    simp at hok

/-- **A close is final as long as every frame is quiescent.** -/
theorem close_is_final {is₀ is : List Input} {os₀ os : List Outcome} {n₀ n₁ n : Net} {id : ℤ}
    {rx : Rx} {o₁ : Outcome} (hpre : Run step Free Net.init is₀ os₀ n₀)
    (hclose : step n₀ ⟨.sockClose id, rx⟩ = some (n₁, o₁)) (hok : o₁.reply.status = .ok)
    (hrun : Run step QuiescentStep n₁ is os n) :
    ∀ o ∈ os, addressedTo id o.request = true →
      o.reply.status = .invalid ∨ o.reply.status = .closed := by
  have h0 : Shut n₁ := shut_of_close (settled_run hpre) hclose hok
  have hinv : Shut n ∧ ∀ o ∈ os, Refused o := by
    refine hrun.invariant (P := fun os n => Shut n ∧ ∀ o ∈ os, Refused o) ?_ ⟨h0, by simp⟩
    rintro os n i n' o ⟨hn, hos⟩ hi h
    obtain ⟨hn', ho⟩ := shut_step hn hi h
    refine ⟨hn', fun o' ho' => ?_⟩
    rcases List.mem_append.mp ho' with ho' | ho'
    · exact hos o' ho'
    · rwa [List.mem_singleton.mp ho']
  exact fun o ho => hinv.2 o ho id

/-! ## Two runs

A client connects and is accepted, and the socket is closed: our `FIN` goes out. -/

/-- The statuses a run after the close answers with: `before` leads up to the close
of connection 1, and `after` follows it, with the guard `C`. -/
def statusesAfterClose (C : Net → Input → Prop) [∀ n i, Decidable (C n i)]
    (before after : List Input) : Option (NetStatus × List NetStatus) :=
  (exec step Net.init before).bind fun r₀ =>
    (step r₀.1 (Request.alone (.sockClose 1))).bind fun r₁ =>
      (exec (guarded step C) r₁.1 after).map fun r =>
        (r₁.2.reply.status, r.2.map fun o => o.reply.status)

/-- What such a computation says about runs. -/
theorem runs_of_statusesAfterClose {C : Net → Input → Prop} [∀ n i, Decidable (C n i)]
    {before after : List Input} {st : NetStatus} {sts : List NetStatus}
    (h : statusesAfterClose C before after = some (st, sts)) :
    ∃ os₀ n₀ o₁ n₁ os n, Run step Free Net.init before os₀ n₀ ∧
      step n₀ (Request.alone (.sockClose 1)) = some (n₁, o₁) ∧ o₁.reply.status = st ∧
      Run step C n₁ after os n ∧ os.map (fun o => o.reply.status) = sts := by
  obtain ⟨⟨n₀, os₀⟩, h0, h⟩ := Option.bind_eq_some_iff.mp h
  obtain ⟨⟨n₁, o₁⟩, h1, h⟩ := Option.bind_eq_some_iff.mp h
  obtain ⟨⟨n, os⟩, h2, h⟩ := Option.map_eq_some_iff.mp h
  obtain ⟨hst, hsts⟩ := Prod.mk.inj h
  exact ⟨os₀, n₀, o₁, n₁, os, n, run_of_exec h0, h1, hst, run_of_exec_guarded h2, hsts⟩

/-- The peer resets the connection, and then a send, a read and a close are tried. -/
def triedAfterReset : List Input :=
  [Request.receiving (.sockSend 1 1 (payload [65]))
    { port := 1000, seqno := 101, ackno := 2, flags := TCP_RST },
   Request.alone (.sockRecv 1 512), Request.alone (.sockClose 1)]

theorem close_is_final_triedAfterReset :
    ∃ n₁ os n, Run step QuiescentStep n₁ triedAfterReset os n ∧
      os.map (fun o => o.reply.status) = [.invalid, .closed, .invalid] ∧
      ∀ o ∈ os, addressedTo 1 o.request = true →
        o.reply.status = .invalid ∨ o.reply.status = .closed := by
  have hexec : statusesAfterClose QuiescentStep (listen80 :: connect 1000 100) triedAfterReset =
      some (.ok, [.invalid, .closed, .invalid]) := by decide +kernel
  obtain ⟨os₀, n₀, o₁, n₁, os, n, hpre, hclose, hok, hrun, hsts⟩ :=
    runs_of_statusesAfterClose hexec
  exact ⟨n₁, os, n, hrun, hsts, close_is_final hpre hclose hok hrun⟩

/-- The peer acknowledges our `FIN`, and a send is tried. -/
def triedAfterAck : List Input :=
  [Request.receiving (.sockSend 1 1 (payload [65]))
    { port := 1000, seqno := 101, ackno := 2, flags := TCP_ACK }]

/-- **The close is undone**: the acknowledgement of the `FIN` makes the next send
succeed. -/
theorem close_is_undone :
    ∃ os₀ n₀ o₁ n₁ os n, Run step Free Net.init (listen80 :: connect 1000 100) os₀ n₀ ∧
      step n₀ (Request.alone (.sockClose 1)) = some (n₁, o₁) ∧ o₁.reply.status = .ok ∧
      Run step Free n₁ triedAfterAck os n ∧
      ¬ ∀ o ∈ os, addressedTo 1 o.request = true →
        o.reply.status = .invalid ∨ o.reply.status = .closed := by
  have hexec : statusesAfterClose (fun _ i => addressedTo 1 i.request = true)
      (listen80 :: connect 1000 100) triedAfterAck = some (.ok, [.ok]) := by decide +kernel
  obtain ⟨os₀, n₀, o₁, n₁, os, n, hpre, hclose, hok, hrun, hsts⟩ :=
    runs_of_statusesAfterClose hexec
  refine ⟨os₀, n₀, o₁, n₁, os, n, hpre, hclose, hok, hrun.free, fun hall => ?_⟩
  -- the one outcome of the run is addressed to the connection and answered `NET_OK`
  have haddr : ∀ o ∈ os, addressedTo 1 o.request = true := by
    refine hrun.invariant (P := fun os _ => ∀ o ∈ os, addressedTo 1 o.request = true) ?_ (by simp)
    intro os n i n' o hos hi hs o' ho'
    rcases List.mem_append.mp ho' with ho' | ho'
    · exact hos o' ho'
    · rw [List.mem_singleton.mp ho', (step_spec hs).2.1]
      exact hi
  obtain ⟨o, rfl, ho⟩ : ∃ o, os = [o] ∧ o.reply.status = .ok := by
    obtain ⟨o, rfl, ho⟩ := List.map_eq_singleton_iff.mp hsts
    exact ⟨o, rfl, ho⟩
  rcases hall o (by simp) (haddr o (by simp)) with h | h <;> simp [ho] at h

end Service
end EgosNet
