import EgosNet.Foundation.Fifo
import EgosNet.Service.Bridge
import EgosNet.Service.Lifecycle
import EgosNet.Service.Listen

/-!
# Every connection is accepted once

A connection is announced through a flag.  The call that reports a handshake raises it,
`sock_accept` answers `NET_OK` and lowers it; what it does not say is which connection it stands
for.  So two handshakes raise it once, the end of one connection lowers it for another, and
`sock_close` and `sock_listen` lower it for whatever connection is waiting.

That the flag is never lowered by `sock_accept` more often than a handshake raised it is true in
every run (`accepts_le_connects`).  That no connection is forgotten is true as long as the flag is
not used for two connections at once, which is what `Announced` says: while a connection waits to be
accepted, no other handshake completes, the end of no other connection is reported, there is no
`sock_listen`, and a `sock_close` closes no other connection.

* `AcceptStep`, `acceptStep`: what a step does to the flag, in both copies.
* `Awaited`: the flag is up for the connection that waits.
* `Accounted`: every other connection in use has been reported by a `sock_accept` of its own.
* `accepted_once`: the two together, in every run after a `sock_listen`.
-/

namespace EgosNet
namespace Service

open Foundation Uip

/-! ## What can be seen of a step -/

/-- The connections whose handshakes are reported. -/
def connectedSlots (ev : List Event) : List Slot :=
  (calls ev).filterMap fun c => if c.flags.connected then some c.slot else none

/-- The step is a `sock_accept` that answers `NET_WOULD_BLOCK`. -/
def isBlocked (o : Outcome) : Bool :=
  match o.request, o.reply.status with
  | .sockAccept, .wouldBlock => true
  | _, _ => false

/-- The connection in this slot is in use. -/
def Established (n : Net) (a : Slot) : Prop := (n.uip.conns a).tcpstateflags = .established

instance (n : Net) (a : Slot) : Decidable (Established n a) :=
  inferInstanceAs (Decidable (_ = _))

/-- The connection whose handshake a call reports. -/
def connectedBy (c : Option Call) : Option Slot :=
  c.bind fun c => if c.flags.connected then some c.slot else none

/-- What a step does to the flag in the bridge and to its copy in the sockets. -/
inductive AcceptStep (n : Net) (i : Input) (n' : Net) (o : Outcome) : Prop
  /-- No frame is looked at. -/
  | card : (∀ a, Established n' a → Established n a) → n'.httpd.connPending = n.httpd.connPending →
      n'.sock.connPending = n.sock.connPending → connectedSlots o.events = [] →
      isAccept o = false → isBlocked o = false → listenedPort o = none → AcceptStep n i n' o
  | listened (port : ℤ) : i.request = .sockListen port → 0 < port →
      (∀ a, Established n' a → Established n a) → n'.httpd.connPending = false →
      n'.sock.connPending = false → connectedSlots o.events = [] → isAccept o = false →
      isBlocked o = false → listenedPort o = some port → AcceptStep n i n' o
  /-- The frame, and perhaps a kick. -/
  | polled : polling i.request = true →
      (∀ a, Established n' a → Established (netPoll n i.rx).1 a) →
      n'.httpd.connPending = (netPoll n i.rx).1.httpd.connPending →
      (n'.sock.connPending = (netPoll n i.rx).1.sock.connPending ∨
        n'.sock.connPending = (netPoll n i.rx).1.httpd.connPending) →
      connectedSlots o.events = (connectedBy (frameCall n i.rx)).toList → isAccept o = false →
      (isBlocked o = true → n'.sock.connPending = false) → listenedPort o = none →
      AcceptStep n i n' o
  | accepted : polling i.request = true →
      (∀ a, Established n' a → Established (netPoll n i.rx).1 a) →
      (netPoll n i.rx).1.sock.connPending = true → n'.httpd.connPending = false →
      connectedSlots o.events = (connectedBy (frameCall n i.rx)).toList → isAccept o = true →
      isBlocked o = false → listenedPort o = none → AcceptStep n i n' o
  /-- A `sock_close` that is granted. -/
  | closed (connId : ℤ) : i.request = .sockClose connId →
      socketConnValid (netPoll n i.rx).1.sock connId = true →
      (∀ a, Established n' a → Established (netPoll n i.rx).1 a ∧
        ∀ c ∈ kickCall (askClose (netPoll n i.rx).1), c.slot ≠ a) →
      n'.httpd.connPending = (netPoll n i.rx).1.httpd.connPending →
      connectedSlots o.events = (connectedBy (frameCall n i.rx)).toList → isAccept o = false →
      isBlocked o = false → listenedPort o = none → AcceptStep n i n' o

theorem connectedSlots_append (ev ev' : List Event) :
    connectedSlots (ev ++ ev') = connectedSlots ev ++ connectedSlots ev' := by
  rw [connectedSlots, calls_append, List.filterMap_append]
  rfl

theorem connectedSlots_netPoll (n : Net) (rx : Rx) :
    connectedSlots (netPoll n rx).2 = (connectedBy (frameCall n rx)).toList := by
  rw [connectedSlots, calls_netPoll]
  cases frameCall n rx with
  | none => rfl
  | some c => by_cases hc : c.flags.connected = true <;> simp [connectedBy, hc]

/-- A kick reports no handshake. -/
theorem connectedSlots_kick (n : Net) : connectedSlots (kickActiveConnection n).2 = [] := by
  rw [connectedSlots, calls_kick]
  cases h : kickCall n with
  | none => rfl
  | some c =>
    obtain ⟨hf, -, -⟩ := kickCall_flags h
    simp [hf]

/-- A kick leaves the flag alone, and copies it where there is a listening port. -/
theorem connPending_kick (n : Net) :
    (kickActiveConnection n).1.httpd.connPending = n.httpd.connPending ∧
      (0 ≤ n.sock.listenPort →
        (kickActiveConnection n).1.sock.connPending = n.httpd.connPending) := by
  have hnoted : (noted n.httpd (kickCall n)).connPending = n.httpd.connPending := by
    cases h : kickCall n with
    | none => rfl
    | some c =>
      obtain ⟨hf, -, -⟩ := kickCall_flags h
      simp [noted, note, ends, hf]
  constructor
  · rw [kick_httpd]
    split_ifs
    · rfl
    · exact hnoted
  · intro hport
    rw [kick_sock, if_neg (not_lt.mpr hport)]
    exact hnoted

/-- **Every step is one of these.** -/
theorem acceptStep {n n' : Net} {i : Input} {o : Outcome} (h : step n i = some (n', o)) :
    AcceptStep n i n' o := by
  obtain ⟨hh, hreq, -⟩ := step_spec h
  obtain ⟨request, rx⟩ := i
  obtain ⟨request', events, reply⟩ := o
  obtain rfl : request' = request := hreq
  cases request' with
  | netSend length buf =>
    obtain ⟨rfl, rfl, -⟩ : _ ∧ _ ∧ _ := by
      simpa only [handle, handleNetSend, Prod.mk.injEq] using hh
    have hu := earthNetSend_undisturbed n length buf
    have hcalls : connectedSlots (earthNetSend n length buf).2 = [] := by
      rw [connectedSlots, (earthNetSend_onlyFrames n length buf).calls]
      rfl
    refine .card (fun a ha => ?_) (congrArg Httpd.connPending hu.httpd)
      (congrArg Sock.connPending hu.sock) hcalls rfl rfl rfl
    unfold Established at ha ⊢
    rwa [hu.conns] at ha
  | netRecv =>
    obtain ⟨rfl, rfl, -⟩ : _ ∧ _ ∧ _ := by
      simpa only [handle, handleNetRecv, Prod.mk.injEq] using hh
    split_ifs
    · exact .card (fun _ ha => ha) rfl rfl rfl rfl rfl rfl
    · exact .card (fun _ ha => ha) rfl rfl rfl rfl rfl rfl
  | sockListen port =>
    simp only [handle, handleSockListen] at hh
    split_ifs at hh with hport
    · obtain ⟨rfl, rfl, rfl⟩ : _ ∧ _ ∧ _ := by simpa only [Prod.mk.injEq] using hh
      exact .card (fun _ ha => ha) rfl rfl rfl rfl rfl rfl
    · obtain ⟨rfl, rfl, rfl⟩ : _ ∧ _ ∧ _ := by simpa only [Prod.mk.injEq] using hh
      refine .listened port rfl (not_le.mp hport) (fun a ha => ?_) rfl rfl rfl rfl rfl rfl
      have hconns : (uipListen n.uip (HTONS port)).conns = n.uip.conns := by
        unfold uipListen
        split <;> rfl
      unfold Established at ha ⊢
      rw [← hconns]
      exact ha
  | sockAccept =>
    simp only [handle, handleSockAccept] at hh
    split_ifs at hh with hpend
    · obtain ⟨rfl, rfl, rfl⟩ : _ ∧ _ ∧ _ := by simpa only [Prod.mk.injEq] using hh
      exact .accepted rfl (fun _ ha => ha) hpend rfl (connectedSlots_netPoll n rx) rfl rfl rfl
    · obtain ⟨rfl, rfl, rfl⟩ : _ ∧ _ ∧ _ := by simpa only [Prod.mk.injEq] using hh
      exact .polled rfl (fun _ ha => ha) rfl (Or.inl rfl) (connectedSlots_netPoll n rx) rfl
        (fun _ => by simpa using hpend) rfl
  | sockRecv connId length =>
    simp only [handle, handleSockRecv] at hh
    split_ifs at hh <;>
      obtain ⟨rfl, rfl, -⟩ : _ ∧ _ ∧ _ := by simpa only [Prod.mk.injEq] using hh
    all_goals
      exact .polled rfl (fun _ ha => ha) rfl (Or.inl rfl) (connectedSlots_netPoll n rx) rfl
        (fun hb => absurd hb (by simp [isBlocked])) rfl
  | sockSend connId length buf =>
    rcases handle_sockSend_cases n connId length buf rx with ⟨r, -, heq⟩ | ⟨t, ht, -, hport, heq⟩
    · obtain ⟨rfl, rfl, -⟩ : _ ∧ _ ∧ _ := by simpa only [heq, Prod.mk.injEq] using hh
      exact .polled rfl (fun _ ha => ha) rfl (Or.inl rfl) (connectedSlots_netPoll n rx) rfl
        (fun hb => absurd hb (by simp [isBlocked])) rfl
    · obtain ⟨rfl, rfl, -⟩ : _ ∧ _ ∧ _ := by simpa only [heq, Prod.mk.injEq] using hh
      have hconns : t.uip.conns = (netPoll n rx).1.uip.conns := by
        rw [ht]
        exact (takePayload_uip _ _ _).1
      have hpend : t.httpd.connPending = (netPoll n rx).1.httpd.connPending := by
        rw [ht, (takePayload_httpd _ _ _).1]
      have hlp : 0 ≤ t.sock.listenPort := by
        rw [ht, takePayload_sock]
        exact hport
      obtain ⟨hhttpd, hsock⟩ := connPending_kick t
      refine .polled rfl (fun a ha => ?_) (hhttpd.trans hpend) (Or.inr ((hsock hlp).trans hpend)) ?_
        rfl (fun hb => absurd hb (by simp [isBlocked])) rfl
      · have ht' := (established_kick ha).1
        rwa [hconns] at ht'
      · rw [connectedSlots_append, connectedSlots_netPoll, connectedSlots_kick, List.append_nil]
  | sockClose connId =>
    simp only [handle, handleSockClose, netKickClose] at hh
    split_ifs at hh with hvalid
    · obtain ⟨rfl, rfl, -⟩ : _ ∧ _ ∧ _ := by simpa only [Prod.mk.injEq] using hh
      have hkick := connPending_kick (askClose (netPoll n rx).1)
      refine .closed connId rfl hvalid (fun a ha => ?_) hkick.1 ?_ rfl rfl rfl
      · obtain ⟨hest, hclose⟩ := established_kick (n := askClose (netPoll n rx).1) ha
        exact ⟨hest, hclose rfl⟩
      · rw [connectedSlots_append, connectedSlots_netPoll, connectedSlots_kick, List.append_nil]
    · obtain ⟨rfl, rfl, -⟩ : _ ∧ _ ∧ _ := by simpa only [Prod.mk.injEq] using hh
      exact .polled rfl (fun _ ha => ha) rfl (Or.inl rfl) (connectedSlots_netPoll n rx) rfl
        (fun hb => absurd hb (by simp [isBlocked])) rfl

/-! ## The flag after a frame -/

theorem httpd_connPending_netPoll (n : Net) (rx : Rx) :
    (netPoll n rx).1.httpd.connPending = (noted n.httpd (frameCall n rx)).connPending := by
  rw [netPoll_httpd]
  split_ifs with hf
  · have hcall : frameCall n rx = none := by simp [frameCall, frameVerdict, hf]
    rw [hcall]
    rfl
  · rfl

/-- The copy is made when there is a frame. -/
theorem sock_connPending_netPoll (n : Net) (rx : Rx) :
    (frameCall n rx = none ∧ (netPoll n rx).1.sock.connPending = n.sock.connPending) ∨
      (netPoll n rx).1.sock.connPending = (noted n.httpd (frameCall n rx)).connPending := by
  rw [netPoll_sock]
  split_ifs with hf
  · exact Or.inl ⟨by simp [frameCall, frameVerdict, hf], rfl⟩
  · exact Or.inr rfl

theorem connectedBy_eq_some {call : Option Call} {a : Slot} (h : connectedBy call = some a) :
    ∃ c, call = some c ∧ c.flags.connected = true ∧ c.slot = a := by
  cases call with
  | none => simp [connectedBy] at h
  | some c =>
    by_cases hc : c.flags.connected = true
    · exact ⟨c, rfl, hc, by simpa [connectedBy, hc] using h⟩
    · simp [connectedBy, hc] at h

/-! ## No connection is accepted twice -/

/-- How many times a connection has been accepted. -/
def accepts (os : List Outcome) : ℕ := os.countP isAccept

/-- How many handshakes have been reported. -/
def connects (os : List Outcome) : ℕ := (os.flatMap fun o => connectedSlots o.events).length

/-- A frame raises the flag only with the report of a handshake. -/
theorem connPending_le (n : Net) (rx : Rx) :
    (netPoll n rx).1.httpd.connPending.toNat ≤
      n.httpd.connPending.toNat + (connectedBy (frameCall n rx)).toList.length := by
  rw [httpd_connPending_netPoll]
  cases frameCall n rx with
  | none => exact Nat.le_add_right _ _
  | some c =>
    by_cases hcon : c.flags.connected = true
    · have hone : (connectedBy (some c)).toList.length = 1 := by simp [connectedBy, hcon]
      have hle := Bool.toNat_le (noted n.httpd (some c)).connPending
      omega
    · have hle : (noted n.httpd (some c)).connPending.toNat ≤ n.httpd.connPending.toNat := by
        by_cases he : ends c.flags = true <;> simp [noted, note, he, hcon]
      omega

/-- The handshakes reported are no fewer than the connections accepted, and one more while the flag
is up. -/
def Counted (os : List Outcome) (n : Net) : Prop :=
  accepts os + n.httpd.connPending.toNat ≤ connects os

theorem counted_step {os : List Outcome} {n n' : Net} {i : Input} {o : Outcome} (hb : Bridged n)
    (h : Counted os n) (hs : step n i = some (n', o)) : Counted (os ++ [o]) n' := by
  have hle := connPending_le n i.rx
  unfold Counted at h ⊢
  have hacc : accepts (os ++ [o]) = accepts os + (isAccept o).toNat := by
    rw [accepts, List.countP_append]
    cases ho : isAccept o <;> simp [accepts, ho]
  have hcon : connects (os ++ [o]) = connects os + (connectedSlots o.events).length := by
    simp [connects]
  rw [hacc, hcon]
  cases acceptStep hs with
  | card _ hpend _ hslots hno _ _ =>
    rw [hpend, hslots, hno]
    exact h
  | listened _ _ _ _ hpend _ hslots hno _ _ =>
    rw [hpend, hslots, hno]
    exact (Nat.le_add_right _ _).trans h
  | polled _ _ hpend _ hslots hno _ _ =>
    rw [hpend, hslots, hno, Bool.toNat_false]
    omega
  | accepted _ _ hraised hpend hslots hyes _ _ =>
    have hup := (bridged_netPoll hb i.rx).connPending hraised
    rw [hup, Bool.toNat_true] at hle
    rw [hpend, hslots, hyes, Bool.toNat_true, Bool.toNat_false]
    omega
  | closed _ _ _ _ hpend hslots hno _ _ =>
    rw [hpend, hslots, hno, Bool.toNat_false]
    omega

/-! ## The connection that waits -/

/-- The connection that waits to be accepted, after a step. -/
def awaits (w : Option Slot) (o : Outcome) : Option Slot :=
  if isAccept o = true ∨ (listenedPort o).isSome = true then none
  else (connectedSlots o.events).getLast?.or w

/-- The connection whose handshake was reported last, if none has been accepted since. -/
def awaiting (os : List Outcome) : Option Slot := os.foldl awaits none

theorem awaiting_snoc (os : List Outcome) (o : Outcome) :
    awaiting (os ++ [o]) = awaits (awaiting os) o := by
  simp [awaiting]

theorem getLast?_toList {α : Type*} (x : Option α) : x.toList.getLast? = x := by
  cases x <;> rfl

/-- The port a request asks for, if it is one that is granted. -/
def asksListen : Request → Bool
  | .sockListen port => 0 < port
  | _ => false

/-- The connection a request asks to be closed. -/
def asksClose : Request → Option ℤ
  | .sockClose connId => some connId
  | _ => none

/-- **The flag stands for one connection.**  While a connection that is in use waits to be accepted,
no other handshake completes and the end of no other connection is reported; there is no
`sock_listen`; and a `sock_close` that is granted closes that connection. -/
structure Announced (s : Net × List Outcome) (i : Input) : Prop where
  frame : polling i.request = true → ∀ p ∈ awaiting s.2, Established s.1 p →
    ∀ c ∈ frameCall s.1 i.rx, c.flags.connected = false ∧ (ends c.flags = true → c.slot = p)
  listen : asksListen i.request = true → ∀ p ∈ awaiting s.2, ¬ Established s.1 p
  close : ∀ connId ∈ asksClose i.request,
    socketConnValid (netPoll s.1 i.rx).1.sock connId = true →
    ∀ p ∈ (connectedBy (frameCall s.1 i.rx)).or (awaiting s.2),
      Established (netPoll s.1 i.rx).1 p →
      ∃ c ∈ kickCall (askClose (netPoll s.1 i.rx).1), c.slot = p

/-- The flag is up, in both copies, for the connection that waits. -/
def Awaited (os : List Outcome) (n : Net) : Prop :=
  ∀ p ∈ awaiting os, Established n p → n.httpd.connPending = true ∧ n.sock.connPending = true

/-- **A frame keeps the flag up for the connection that waits.** -/
theorem awaited_netPoll {os : List Outcome} {n : Net} {i : Input} (h : Awaited os n)
    (hC : Announced (n, os) i) (hpoll : polling i.request = true) :
    ∀ p ∈ (connectedBy (frameCall n i.rx)).or (awaiting os), Established (netPoll n i.rx).1 p →
      (netPoll n i.rx).1.httpd.connPending = true ∧
        (netPoll n i.rx).1.sock.connPending = true := by
  intro p hp hest
  have hup : (noted n.httpd (frameCall n i.rx)).connPending = true ∧
      (frameCall n i.rx = none → n.sock.connPending = true) := by
    cases hcon : connectedBy (frameCall n i.rx) with
    | some q =>
      obtain ⟨c, hcall, hc, -⟩ := connectedBy_eq_some hcon
      obtain ⟨-, hends⟩ := synRcvd_of_connected hcall hc
      rw [hcall]
      exact ⟨by simp [noted, note, hends, hc], by simp⟩
    | none =>
      rw [hcon] at hp
      rcases established_netPoll hest with ⟨hold, hkept⟩ | ⟨c, hmem, hslot, hc⟩
      · obtain ⟨hhttpd, hsock⟩ := h p hp hold
        refine ⟨?_, fun _ => hsock⟩
        cases hcall : frameCall n i.rx with
        | none => exact hhttpd
        | some c =>
          obtain ⟨hno, hother⟩ := hC.frame hpoll p hp hold c hcall
          have hends : ends c.flags = false := by
            by_contra he
            have hslot := hother (by simpa using he)
            exact he (hkept c hcall hslot)
          simp [noted, note, hends, hno, hhttpd]
      · have hsome : frameCall n i.rx = some c := hmem
        rw [hsome] at hcon
        simp [connectedBy, hc] at hcon
  rw [httpd_connPending_netPoll]
  refine ⟨hup.1, ?_⟩
  rcases sock_connPending_netPoll n i.rx with ⟨hnone, hsame⟩ | hsame
  · rw [hsame]
    exact hup.2 hnone
  · rw [hsame]
    exact hup.1

theorem awaited_step {os : List Outcome} {n n' : Net} {i : Input} {o : Outcome}
    (h : Awaited os n) (hC : Announced (n, os) i) (hs : step n i = some (n', o)) :
    Awaited (os ++ [o]) n' := by
  intro p hp hest
  rw [awaiting_snoc, awaits] at hp
  cases acceptStep hs with
  | card hkept hhttpd hsock hslots hno _ hnl =>
    rw [if_neg (by simp [hno, hnl]), hslots] at hp
    rw [hhttpd, hsock]
    exact h p hp (hkept p hest)
  | listened port _ _ _ _ _ _ _ _ hl =>
    rw [if_pos (by simp [hl])] at hp
    exact absurd hp (by simp)
  | polled hpoll hkept hhttpd hsock hslots hno _ hnl =>
    rw [if_neg (by simp [hno, hnl]), hslots, getLast?_toList] at hp
    obtain ⟨hup, hup'⟩ := awaited_netPoll h hC hpoll p hp (hkept p hest)
    rw [hhttpd]
    refine ⟨hup, ?_⟩
    rcases hsock with hsock | hsock
    · rw [hsock, hup']
    · rw [hsock, hup]
  | accepted _ _ _ _ _ hyes _ _ =>
    rw [if_pos (by simp [hyes])] at hp
    exact absurd hp (by simp)
  | closed connId hreq hvalid hkept _ hslots hno _ hnl =>
    rw [if_neg (by simp [hno, hnl]), hslots, getLast?_toList] at hp
    obtain ⟨hest', hnot⟩ := hkept p hest
    have hid : connId ∈ asksClose i.request := by
      rw [hreq]
      rfl
    obtain ⟨c, hc, hslot⟩ := hC.close connId hid hvalid p hp hest'
    exact absurd hslot (hnot c hc)

/-! ## No connection is forgotten -/

/-- In step `k` the handshake of the connection in slot `a` is reported. -/
def ConnectedAt (os : List Outcome) (k : ℕ) (a : Slot) : Prop :=
  ∃ o, os[k]? = some o ∧ a ∈ connectedSlots o.events

/-- Step `k` is a `sock_accept` that answers `NET_OK`. -/
def AcceptedAt (os : List Outcome) (k : ℕ) : Prop := ∃ o, os[k]? = some o ∧ isAccept o = true

/-- A connection whose handshake was reported in the run and that is still in use. -/
def Standing (os : List Outcome) (n : Net) (a : Slot) : Prop :=
  Established n a ∧ ∃ k, ConnectedAt os k a

/-- Every such connection has been reported, by a `sock_accept` of its own that came no earlier than
its handshake. -/
def Reported (os : List Outcome) (n : Net) : Prop :=
  ∃ f : Slot → ℕ,
    (∀ a, Standing os n a → AcceptedAt os (f a) ∧ ∀ k, ConnectedAt os k a → k ≤ f a) ∧
    ∀ a b, Standing os n a → Standing os n b → f a = f b → a = b

/-- The same, but for the connection that waits. -/
def Accounted (os : List Outcome) (n : Net) : Prop :=
  ∃ f : Slot → ℕ,
    (∀ a, Standing os n a → awaiting os ≠ some a →
      AcceptedAt os (f a) ∧ ∀ k, ConnectedAt os k a → k ≤ f a) ∧
    ∀ a b, Standing os n a → awaiting os ≠ some a → Standing os n b → awaiting os ≠ some b →
      f a = f b → a = b

section Past

variable {os : List Outcome} {o : Outcome} {k : ℕ} {a : Slot}

theorem connectedAt_snoc : ConnectedAt (os ++ [o]) k a ↔
    ConnectedAt os k a ∨ (k = os.length ∧ a ∈ connectedSlots o.events) := by
  constructor
  · rintro ⟨p, hp, ha⟩
    rcases getElem?_put hp with ⟨-, hp⟩ | ⟨hk, rfl⟩
    · exact Or.inl ⟨p, hp, ha⟩
    · exact Or.inr ⟨hk, ha⟩
  · rintro (⟨p, hp, ha⟩ | ⟨rfl, ha⟩)
    · have hk : k < os.length := (List.getElem?_eq_some_iff.mp hp).1
      exact ⟨p, by rw [List.getElem?_append_left hk, hp], ha⟩
    · exact ⟨o, List.getElem?_concat_length, ha⟩

theorem AcceptedAt.snoc (h : AcceptedAt os k) : AcceptedAt (os ++ [o]) k := by
  obtain ⟨p, hp, ha⟩ := h
  have hk : k < os.length := (List.getElem?_eq_some_iff.mp hp).1
  exact ⟨p, by rw [List.getElem?_append_left hk, hp], ha⟩

theorem AcceptedAt.lt (h : AcceptedAt os k) : k < os.length := by
  obtain ⟨p, hp, -⟩ := h
  exact (List.getElem?_eq_some_iff.mp hp).1

theorem ConnectedAt.lt (h : ConnectedAt os k a) : k < os.length := by
  obtain ⟨p, hp, -⟩ := h
  exact (List.getElem?_eq_some_iff.mp hp).1

end Past

/-- **Who stands after a step.**  A connection that stands after a step whose handshakes are those
of `call`, and that is not the one that waits then, stood before and did not wait. -/
theorem standing_old {os : List Outcome} {n n' : Net} {o : Outcome} {w : Option Slot} {a : Slot}
    (hslots : connectedSlots o.events = w.toList)
    (hkept : w ≠ some a → Established n' a → Established n a)
    (hguard : ∀ p ∈ awaiting os, Established n p → w = none)
    (ha : Standing (os ++ [o]) n' a) (hw : w.or (awaiting os) ≠ some a) :
    Standing os n a ∧ awaiting os ≠ some a ∧
      ∀ k, ConnectedAt (os ++ [o]) k a → ConnectedAt os k a := by
  have hwa : w ≠ some a := by
    rintro rfl
    exact hw rfl
  have hnew (k : ℕ) (hk : ConnectedAt (os ++ [o]) k a) : ConnectedAt os k a := by
    rcases connectedAt_snoc.mp hk with hk | ⟨-, hmem⟩
    · exact hk
    · rw [hslots, Option.mem_toList] at hmem
      exact absurd hmem hwa
  obtain ⟨hest, k, hk⟩ := ha
  have hest' := hkept hwa hest
  refine ⟨⟨hest', k, hnew k hk⟩, fun hawait => ?_, hnew⟩
  rw [hguard a hawait hest'] at hw
  exact hw hawait

/-- A step after which the waiting connection waits on. -/
theorem Accounted.wait {os : List Outcome} {n n' : Net} {o : Outcome} {w : Option Slot}
    (h : Accounted os n) (hslots : connectedSlots o.events = w.toList)
    (hkept : ∀ a, w ≠ some a → Established n' a → Established n a)
    (hguard : ∀ p ∈ awaiting os, Established n p → w = none)
    (hawait : awaiting (os ++ [o]) = w.or (awaiting os)) : Accounted (os ++ [o]) n' := by
  obtain ⟨f, hf, hinj⟩ := h
  refine ⟨f, fun a ha hw => ?_, fun a b ha hwa hb hwb => ?_⟩
  · rw [hawait] at hw
    obtain ⟨hold, hnot, hpast⟩ := standing_old hslots (hkept a) hguard ha hw
    obtain ⟨hacc, hle⟩ := hf a hold hnot
    exact ⟨hacc.snoc, fun k hk => hle k (hpast k hk)⟩
  · rw [hawait] at hwa hwb
    obtain ⟨hold, hnot, -⟩ := standing_old hslots (hkept a) hguard ha hwa
    obtain ⟨hold', hnot', -⟩ := standing_old hslots (hkept b) hguard hb hwb
    exact hinj a b hold hnot hold' hnot'

/-- A step in which the waiting connection is accepted. -/
theorem Accounted.accept {os : List Outcome} {n n' : Net} {o : Outcome} {w : Option Slot}
    (h : Accounted os n) (hslots : connectedSlots o.events = w.toList)
    (hkept : ∀ a, w ≠ some a → Established n' a → Established n a)
    (hguard : ∀ p ∈ awaiting os, Established n p → w = none)
    (hacc : isAccept o = true) : Accounted (os ++ [o]) n' := by
  obtain ⟨f, hf, hinj⟩ := h
  have hlast : AcceptedAt (os ++ [o]) os.length := ⟨o, List.getElem?_concat_length, hacc⟩
  -- the step is the `sock_accept` of the connection that waited
  refine ⟨fun a => if w.or (awaiting os) = some a then os.length else f a,
    fun a ha _ => ?_, fun a b ha _ hb _ heq => ?_⟩
  · dsimp only
    split_ifs with hw
    · refine ⟨hlast, fun k hk => ?_⟩
      have hlt := hk.lt
      rw [List.length_append, List.length_singleton] at hlt
      omega
    · obtain ⟨hold, hnot, hpast⟩ := standing_old hslots (hkept a) hguard ha hw
      obtain ⟨hacc, hle⟩ := hf a hold hnot
      exact ⟨hacc.snoc, fun k hk => hle k (hpast k hk)⟩
  · dsimp only at heq
    split_ifs at heq with hwa hwb hwb
    · exact Option.some.inj (hwa.symm.trans hwb)
    · obtain ⟨hold, hnot, -⟩ := standing_old hslots (hkept b) hguard hb hwb
      have hlt := (hf b hold hnot).1.lt
      omega
    · obtain ⟨hold, hnot, -⟩ := standing_old hslots (hkept a) hguard ha hwa
      have hlt := (hf a hold hnot).1.lt
      omega
    · obtain ⟨hold, hnot, -⟩ := standing_old hslots (hkept a) hguard ha hwa
      obtain ⟨hold', hnot', -⟩ := standing_old hslots (hkept b) hguard hb hwb
      exact hinj a b hold hnot hold' hnot' heq

theorem accounted_step {os : List Outcome} {n n' : Net} {i : Input} {o : Outcome}
    (h : Accounted os n) (hC : Announced (n, os) i) (hs : step n i = some (n', o)) :
    Accounted (os ++ [o]) n' := by
  -- a connection that a frame leaves in use was in use before, unless its handshake was reported
  have hframe (a : Slot) (hne : connectedBy (frameCall n i.rx) ≠ some a)
      (hest : Established (netPoll n i.rx).1 a) : Established n a := by
    rcases established_netPoll hest with ⟨hold, -⟩ | ⟨c, hmem, hslot, hc⟩
    · exact hold
    · have hsome : frameCall n i.rx = some c := hmem
      exact absurd (by simp [connectedBy, hsome, hc, hslot]) hne
  have hguard (hpoll : polling i.request = true) :
      ∀ p ∈ awaiting os, Established n p → connectedBy (frameCall n i.rx) = none := by
    intro p hp hest
    cases hcon : connectedBy (frameCall n i.rx) with
    | none => rfl
    | some q =>
      obtain ⟨c, hcall, hc, -⟩ := connectedBy_eq_some hcon
      have hno := (hC.frame hpoll p hp hest c hcall).1
      exact absurd hc (by simp [hno])
  cases acceptStep hs with
  | card hkept _ _ hslots hno _ hnl =>
    refine h.wait (w := none) hslots (fun a _ hest => hkept a hest) (fun _ _ _ => rfl) ?_
    rw [awaiting_snoc, awaits, if_neg (by simp [hno, hnl]), hslots]
    rfl
  | listened port hreq hport hkept _ _ hslots _ _ hl =>
    have hasks : asksListen i.request = true := by
      rw [hreq]
      exact decide_eq_true hport
    obtain ⟨f, hf, hinj⟩ := h
    have hpast (a : Slot) (ha : Standing (os ++ [o]) n' a) : Standing os n a ∧
        awaiting os ≠ some a ∧ ∀ k, ConnectedAt (os ++ [o]) k a → ConnectedAt os k a := by
      have hest := hkept a ha.1
      have hnot : awaiting os ≠ some a := fun hw => hC.listen hasks a hw hest
      exact standing_old (w := none) hslots (fun _ h => hkept a h) (fun _ _ _ => rfl) ha hnot
    refine ⟨f, fun a ha _ => ?_, fun a b ha _ hb _ => ?_⟩
    · obtain ⟨hold, hnot, hnew⟩ := hpast a ha
      obtain ⟨hacc, hle⟩ := hf a hold hnot
      exact ⟨hacc.snoc, fun k hk => hle k (hnew k hk)⟩
    · obtain ⟨hold, hnot, -⟩ := hpast a ha
      obtain ⟨hold', hnot', -⟩ := hpast b hb
      exact hinj a b hold hnot hold' hnot'
  | polled hpoll hkept _ _ hslots hno _ hnl =>
    refine h.wait hslots (fun a hne hest => hframe a hne (hkept a hest)) (hguard hpoll) ?_
    rw [awaiting_snoc, awaits, if_neg (by simp [hno, hnl]), hslots, getLast?_toList]
  | accepted hpoll hkept _ _ hslots hyes _ _ =>
    exact h.accept hslots (fun a hne hest => hframe a hne (hkept a hest)) (hguard hpoll) hyes
  | closed connId hreq _ hkept _ hslots hno _ hnl =>
    have hpoll : polling i.request = true := by
      rw [hreq]
      rfl
    refine h.wait hslots (fun a hne hest => hframe a hne (hkept a hest).1) (hguard hpoll) ?_
    rw [awaiting_snoc, awaits, if_neg (by simp [hno, hnl]), hslots, getLast?_toList]

/-- When a `sock_accept` finds nothing, nothing waits. -/
theorem reported_of_blocked {os : List Outcome} {n n' : Net} {i : Input} {o : Outcome}
    (hs : step n i = some (n', o)) (hblocked : isBlocked o = true)
    (hawaited : Awaited (os ++ [o]) n') (hacc : Accounted (os ++ [o]) n') :
    Reported (os ++ [o]) n' := by
  have hdown : n'.sock.connPending = false := by
    cases acceptStep hs with
    | polled _ _ _ _ _ _ hsock _ => exact hsock hblocked
    | card _ _ _ _ _ hno _ => exact absurd hblocked (by simp [hno])
    | listened _ _ _ _ _ _ _ _ hno _ => exact absurd hblocked (by simp [hno])
    | accepted _ _ _ _ _ _ hno _ => exact absurd hblocked (by simp [hno])
    | closed _ _ _ _ _ _ _ hno _ => exact absurd hblocked (by simp [hno])
  have hnone (a : Slot) (ha : Standing (os ++ [o]) n' a) : awaiting (os ++ [o]) ≠ some a := by
    intro hw
    have hup := (hawaited a hw ha.1).2
    exact absurd hup (by simp [hdown])
  obtain ⟨f, hf, hinj⟩ := hacc
  exact ⟨f, fun a ha => hf a ha (hnone a ha),
    fun a b ha hb => hinj a b ha (hnone a ha) hb (hnone b hb)⟩

/-- After a `sock_listen` the flag is down. -/
theorem connPending_of_listened {n n' : Net} {i : Input} {o : Outcome}
    (hs : step n i = some (n', o)) (hl : (listenedPort o).isSome = true) :
    n'.httpd.connPending = false := by
  cases acceptStep hs with
  | listened _ _ _ _ hdown _ _ _ _ _ => exact hdown
  | card _ _ _ _ _ _ hno => exact absurd hl (by simp [hno])
  | polled _ _ _ _ _ _ _ hno => exact absurd hl (by simp [hno])
  | accepted _ _ _ _ _ _ _ hno => exact absurd hl (by simp [hno])
  | closed _ _ _ _ _ _ _ _ hno => exact absurd hl (by simp [hno])

/-- **Every connection is accepted once.**  After a `sock_listen`, there are never more
`sock_accept`s answered `NET_OK` than handshakes reported.  And as long as the flag stands for one
connection (`Announced`), whenever a `sock_accept` is answered `NET_WOULD_BLOCK` every connection
whose handshake was reported and that is still in use has been reported by a `sock_accept` of its
own. -/
theorem accepted_once {is₀ is : List Input} {os₀ os : List Outcome} {n₀ n₁ n : Net} {i₁ : Input}
    {o₁ : Outcome} (hbefore : Run step Free Net.init is₀ os₀ n₀)
    (hlisten : step n₀ i₁ = some (n₁, o₁)) (hport : (listenedPort o₁).isSome = true)
    (hrun : Run step Free n₁ is os n) :
    accepts os ≤ connects os ∧
      (Run (recorded step) Announced (n₁, []) is os (n, os) →
        ∀ o, os.getLast? = some o → isBlocked o = true → Reported os n) := by
  have hdown := connPending_of_listened hlisten hport
  have hb₁ : Bridged n₁ := bridged_step (bridged_run hbefore) hlisten
  constructor
  · have hcounted : Bridged n ∧ Counted os n := by
      refine hrun.invariant (P := fun os n => Bridged n ∧ Counted os n)
        (fun os n i n' o ih _ hs => ⟨bridged_step ih.1 hs, counted_step ih.1 ih.2 hs⟩) ⟨hb₁, ?_⟩
      unfold Counted
      rw [hdown]
      exact Nat.le_refl _
    exact (Nat.le_add_right _ _).trans hcounted.2
  · intro hguarded
    -- along the run: the flag is up for the one that waits, and the others are accounted for
    have hinv : ∀ {js : List Input} {ps : List Outcome} {t : Net × List Outcome},
        Run (recorded step) Announced (n₁, []) js ps t →
        t.2 = ps ∧ Awaited ps t.1 ∧ Accounted ps t.1 ∧
          ∀ o, ps.getLast? = some o → isBlocked o = true → Reported ps t.1 := by
      intro js ps t ht
      induction ht with
      | nil =>
        refine ⟨rfl, fun p hp => absurd hp (by simp [awaiting]), ?_, by simp⟩
        have hnone (a : Slot) : ¬ Standing [] n₁ a := by
          rintro ⟨-, k, o, ho, -⟩
          simp at ho
        exact ⟨fun _ => 0, fun a ha => absurd ha (hnone a), fun a _ ha => absurd ha (hnone a)⟩
      | @snoc js ps s s' i o _ hC hf ih =>
        obtain ⟨hpast, hawaited, haccounted, -⟩ := ih
        obtain ⟨hs, hpast'⟩ := recorded_eq_some.mp hf
        have hC' : Announced (s.1, ps) i := by
          rw [← hpast]
          exact hC
        have hawaited' := awaited_step hawaited hC' hs
        have haccounted' := accounted_step haccounted hC' hs
        refine ⟨by rw [hpast', hpast], hawaited', haccounted', fun o' ho' hb => ?_⟩
        obtain rfl : o = o' := by simpa using ho'
        exact reported_of_blocked hs hb hawaited' haccounted'
    exact (hinv hguarded).2.2.2

/-! ## One client, and two at once -/

instance (s : Net × List Outcome) (i : Input) : Decidable (Announced s i) :=
  decidable_of_iff
    ((polling i.request = true → ∀ p ∈ awaiting s.2, Established s.1 p →
        ∀ c ∈ frameCall s.1 i.rx, c.flags.connected = false ∧ (ends c.flags = true → c.slot = p)) ∧
      (asksListen i.request = true → ∀ p ∈ awaiting s.2, ¬ Established s.1 p) ∧
      ∀ connId ∈ asksClose i.request,
        socketConnValid (netPoll s.1 i.rx).1.sock connId = true →
        ∀ p ∈ (connectedBy (frameCall s.1 i.rx)).or (awaiting s.2),
          Established (netPoll s.1 i.rx).1 p →
          ∃ c ∈ kickCall (askClose (netPoll s.1 i.rx).1), c.slot = p)
    ⟨fun ⟨h1, h2, h3⟩ => ⟨h1, h2, h3⟩, fun ⟨h1, h2, h3⟩ => ⟨h1, h2, h3⟩⟩

/-- A client connects and is accepted, and then there is no other. -/
def oneAccepted : List Input := connect 1000 100 ++ [Request.alone .sockAccept]

theorem accepted_once_one :
    ∃ os n, Run (recorded step) Announced (listening, []) oneAccepted os (n, os) ∧
      os.map isAccept = [false, true, false] ∧ os.map isBlocked = [true, false, true] ∧
      Established n 0 ∧ accepts os ≤ connects os ∧ Reported os n := by
  have hexec : ((exec (guarded (recorded step) Announced) (listening, []) oneAccepted).map fun r =>
      (r.2.map isAccept, r.2.map isBlocked, decide (Established r.1.1 0))) =
      some ([false, true, false], [true, false, true], true) := by decide +kernel
  obtain ⟨⟨⟨n, past⟩, os⟩, hr, hval⟩ := Option.map_eq_some_iff.mp hexec
  simp only [Prod.mk.injEq, decide_eq_true_eq] at hval
  obtain ⟨hacc, hblocked, hest⟩ := hval
  have hrun := run_of_exec_guarded hr
  obtain ⟨hfree, hpast⟩ := hrun.of_recorded
  obtain rfl : past = os := hpast
  obtain ⟨hle, hreported⟩ := accepted_once (Run.nil (C := Free)) step_listen80 rfl hfree
  -- the last step is the `sock_accept` that finds nothing
  obtain ⟨o₀, o₁, o₂, rfl⟩ : ∃ o₀ o₁ o₂, past = [o₀, o₁, o₂] :=
    List.length_eq_three.mp (by simpa using congrArg List.length hacc)
  have hlast : isBlocked o₂ = true := by
    simp only [List.map_cons, List.cons.injEq] at hblocked
    exact hblocked.2.2.1
  exact ⟨_, n, hrun, hacc, hblocked, hest, hle, hreported hrun o₂ rfl hlast⟩

/-- Two clients complete their handshakes while the service looks for data, and then connections are
accepted. -/
def twoHandshakes : List Input :=
  [Request.receiving (.sockRecv 1 0) (.syn 1000 100), Request.receiving (.sockRecv 1 0) (.ack 1000),
    Request.receiving (.sockRecv 1 0) (.syn 1001 100),
    Request.receiving (.sockRecv 1 0) (.ack 1001),
    Request.alone .sockAccept, Request.alone .sockAccept]

/-- **Two handshakes, one flag**: both connections are in use, one has been accepted, and there is
nothing more to accept. -/
theorem accepted_once_broken :
    ∃ os n, Run step Free listening twoHandshakes os n ∧
      (∃ o, os.getLast? = some o ∧ isBlocked o = true) ∧ Established n 0 ∧ Established n 1 ∧
      ¬ Reported os n := by
  have hexec : ((exec step listening twoHandshakes).map fun r =>
      (r.2.map isAccept, r.2.map (fun o => connectedSlots o.events), r.2.getLast?.map isBlocked,
        decide (Established r.1 0), decide (Established r.1 1))) =
      some ([false, false, false, false, true, false], [[], [0], [], [1], [], []], some true, true,
        true) := by decide +kernel
  obtain ⟨⟨n, os⟩, hr, hval⟩ := Option.map_eq_some_iff.mp hexec
  simp only [Prod.mk.injEq, decide_eq_true_eq] at hval
  obtain ⟨hacc, hcon, hlast, h0, h1⟩ := hval
  refine ⟨os, n, run_of_exec hr, Option.map_eq_some_iff.mp hlast, h0, h1, ?_⟩
  have hconnected (k : ℕ) (a : Slot)
      (hk : ([[], [0], [], [1], [], []] : List (List Slot))[k]? = some [a]) :
      ConnectedAt os k a := by
    rw [← hcon, List.getElem?_map] at hk
    obtain ⟨o, ho, hslots⟩ := Option.map_eq_some_iff.mp hk
    exact ⟨o, ho, by rw [hslots]; exact List.mem_singleton_self a⟩
  have honly (k : ℕ) (hk : AcceptedAt os k) : k = 4 := by
    obtain ⟨o, ho, hyes⟩ := hk
    have hk' : ([false, false, false, false, true, false] : List Bool)[k]? = some true := by
      rw [← hacc, List.getElem?_map, ho, Option.map_some, hyes]
    have hlt : k < 6 := (List.getElem?_eq_some_iff.mp hk').1
    have hall : ∀ k < 6, ([false, false, false, false, true, false] : List Bool)[k]? = some true →
        k = 4 := by decide
    exact hall k hlt hk'
  rintro ⟨f, hf, hinj⟩
  have hs0 : Standing os n 0 := ⟨h0, 1, hconnected 1 0 rfl⟩
  have hs1 : Standing os n 1 := ⟨h1, 3, hconnected 3 1 rfl⟩
  have heq : f 0 = f 1 := (honly _ (hf 0 hs0).1).trans (honly _ (hf 1 hs1).1).symm
  exact absurd (hinj 0 1 hs0 hs1 heq) (by decide)

end Service
end EgosNet
