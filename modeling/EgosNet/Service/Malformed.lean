import EgosNet.Service.Buffers
import EgosNet.Service.ReceiveStream

/-!
# Requests with an impossible length

The length of a request is an `int` out of the message of another process.  `NET_SEND` hands it to
the driver as it is; `NET_SOCK_SEND` cuts it to the size of the message, but from above only;
`NET_SOCK_RECV` takes the smaller of it and of what has arrived.  None of the three looks at its
sign, and the `ASSERT`s of the callers let a negative one pass.

Such a request is still refused where something else is wrong with it, or where there is nothing to
do for it.  `Rejectable` says when that is, and it is the whole of it: where the length is used, it
is used as it stands.

* `rejected_iff`: a malformed request is refused exactly when it is refusable.
* `malformed_served`: a packet of no bytes stops the service, one of 513 is sent; and with a
  connection accepted, a payload of -1 bytes is taken over and a read of -1 bytes is made.
-/

namespace EgosNet
namespace Service

open Foundation Uip

/-- The length of the request cannot be served. -/
def Malformed : Request → Prop
  | .netSend length _ => length ≤ 0 ∨ (NET_BUF_SIZE : ℤ) < length
  | .sockRecv _ length => length < 0
  | .sockSend _ length _ => length < 0
  | _ => False

/-- The state that `net_poll` alone would leave, if the request polls at all. -/
def polled (n : Net) (i : Input) : Net := if polling i.request then (netPoll n i.rx).1 else n

/-- **The request is refused, and is not fatal**: no `ASSERT` fails and no copy leaves its array,
the status of the reply is not `NET_OK`, and nothing has changed but by the poll. -/
structure Rejected (n : Net) (i : Input) : Prop where
  sound : (handle n i).1.uip.fault = none
  status : (handle n i).2.2.status ≠ .ok
  state : (handle n i).1 = polled n i

/-- There is another reason to refuse the request, or nothing to do for it.  Of a packet neither is
ever the case. -/
def Rejectable (n : Net) (i : Input) : Prop :=
  match i.request with
  | .sockSend connId _ _ =>
    (polled n i).uip.fault = none ∧
      (socketConnValid (polled n i).sock connId = false ∨ (polled n i).sock.txPending = true)
  | .sockRecv connId _ =>
    (polled n i).uip.fault = none ∧
      ((polled n i).sock.listenPort < 0 ∨ connId ≠ (polled n i).sock.connId ∨
        (polled n i).sock.rxLen = 0)
  | _ => False

/-- When nothing happens but the poll, the poll has to be sound. -/
theorem rejected_iff_of_polled {n : Net} {i : Input} {ev : List Event} {r : Reply}
    (h : handle n i = (polled n i, ev, r)) (hr : r.status ≠ .ok) :
    Rejected n i ↔ (polled n i).uip.fault = none := by
  constructor
  · intro href
    have hsound := href.sound
    rwa [h] at hsound
  · intro hfault
    exact ⟨by rwa [h], by rwa [h], by rw [h]⟩

section Requests

variable {n : Net} {connId length : ℤ} {buf : Mem} {rx : Rx}

/-- **A send** is refused when the connection is not valid or a payload is pending, whatever the
length is. -/
theorem rejected_sockSend :
    Rejected n ⟨.sockSend connId length buf, rx⟩ ↔
      Rejectable n ⟨.sockSend connId length buf, rx⟩ := by
  set i : Input := ⟨.sockSend connId length buf, rx⟩ with hi
  have hpolled : polled n i = (netPoll n rx).1 := rfl
  show _ ↔ (polled n i).uip.fault = none ∧ (socketConnValid (polled n i).sock connId = false ∨
    (polled n i).sock.txPending = true)
  rcases handle_sockSend_cases n connId length buf rx with ⟨r, hr, heq⟩ | ⟨t, -, htaken, -, heq⟩
  · rw [rejected_iff_of_polled heq hr]
    refine ⟨fun hfault => ⟨hfault, ?_⟩, fun h => h.1⟩
    by_contra hnot
    push Not at hnot
    obtain ⟨hvalid, hpend⟩ := hnot
    rw [hpolled] at hvalid hpend
    have hport : ¬ (netPoll n rx).1.sock.listenPort < 0 := by
      have hv : socketConnValid (netPoll n rx).1.sock connId = true := by simpa using hvalid
      simp only [socketConnValid, decide_eq_true_eq] at hv
      omega
    -- then the payload would have been taken over
    have hok : (handle n i).2.2.status = .ok := by
      simp only [hi, handle, handleSockSend]
      rw [if_neg (by simpa [hport] using hvalid), if_neg hpend]
    rw [heq] at hok
    exact hr hok
  · constructor
    · intro h
      exact absurd (by rw [heq]) h.status
    · rintro ⟨-, hcond⟩
      simp only [taken] at htaken
      split_ifs at htaken with hrej
      push Not at hrej
      rcases hcond with hcond | hcond
      · exact absurd hrej.2.1 (by simp [← hpolled, hcond])
      · exact absurd hcond hrej.2.2

/-- **A read** is refused when it is not for the connection, or when nothing has arrived, whatever
the length is. -/
theorem rejected_sockRecv :
    Rejected n ⟨.sockRecv connId length, rx⟩ ↔ Rejectable n ⟨.sockRecv connId length, rx⟩ := by
  set i : Input := ⟨.sockRecv connId length, rx⟩ with hi
  show _ ↔ (polled n i).uip.fault = none ∧ ((polled n i).sock.listenPort < 0 ∨
    connId ≠ (polled n i).sock.connId ∨ (polled n i).sock.rxLen = 0)
  have hhandle : handle n i = handleSockRecv n connId length rx := rfl
  have hpolled : polled n i = (netPoll n rx).1 := rfl
  rw [hpolled]
  by_cases hinv : (netPoll n rx).1.sock.listenPort < 0 ∨ connId ≠ (netPoll n rx).1.sock.connId
  · have heq : handle n i = (polled n i, (netPoll n rx).2, ⟨.invalid, connId, 0, []⟩) := by
      simp only [hhandle, hpolled, handleSockRecv, hinv, if_true]
    rw [rejected_iff_of_polled heq (by simp)]
    exact ⟨fun hfault => ⟨hfault, or_assoc.mp (Or.inl hinv)⟩, fun h => h.1⟩
  · by_cases hpos : 0 < (netPoll n rx).1.sock.rxLen
    · constructor
      · intro h
        refine absurd ?_ h.status
        simp only [hhandle, handleSockRecv, hinv, hpos, if_true, if_false]
      · rintro ⟨-, hcond⟩
        rcases or_assoc.mpr hcond with hcond | hcond
        · exact absurd hcond hinv
        · omega
    · have heq : ∃ r : Reply, r.status ≠ .ok ∧
          handle n i = (polled n i, (netPoll n rx).2, r) := by
        simp only [hhandle, hpolled, handleSockRecv, hinv, hpos, if_false]
        split_ifs
        · exact ⟨_, by simp, rfl⟩
        · exact ⟨_, by simp, rfl⟩
      obtain ⟨r, hr, heq⟩ := heq
      rw [rejected_iff_of_polled heq hr]
      exact ⟨fun hfault => ⟨hfault, Or.inr (Or.inr (by omega))⟩, fun h => h.1⟩

end Requests

/-- **A malformed request is refused exactly when it is refusable**: it is no packet, the poll
before it goes well, and in the state the poll leaves there is no valid connection or a payload
pending, for a send, and another connection or nothing to read, for a read. -/
theorem rejected_iff (n : Net) (i : Input) (h : Malformed i.request) :
    Rejected n i ↔ Rejectable n i := by
  obtain ⟨request, rx⟩ := i
  cases request with
  | netSend length buf => exact ⟨fun href => href.status rfl, False.elim⟩
  | sockSend connId length buf => exact rejected_sockSend
  | sockRecv connId length => exact rejected_sockRecv
  | netRecv => exact h.elim
  | sockListen port => exact h.elim
  | sockAccept => exact h.elim
  | sockClose connId => exact h.elim

/-- A read of -1 bytes finds nothing, and is refused. -/
theorem rejected_iff_nothing :
    ∃ os n, Run step Free Net.init smallSegments os n ∧
      Rejected n (Request.alone (.sockRecv 1 (-1))) := by
  have hexec : ((exec step Net.init smallSegments).map fun r =>
      ((polled r.1 (Request.alone (.sockRecv 1 (-1)))).uip.fault,
        (polled r.1 (Request.alone (.sockRecv 1 (-1)))).sock.rxLen)) = some (none, 0) := by
    decide +kernel
  obtain ⟨⟨n, os⟩, hr, hval⟩ := Option.map_eq_some_iff.mp hexec
  obtain ⟨hfault, hzero⟩ := Prod.mk.inj hval
  have hmal : Malformed (Request.alone (.sockRecv 1 (-1))).request :=
    show (-1 : ℤ) < 0 by decide
  exact ⟨os, n, run_of_exec hr, (rejected_iff n _ hmal).mpr ⟨hfault, Or.inr (Or.inr hzero)⟩⟩

/-- **Four malformed requests that are not refused.**  A packet of no bytes fails the `ASSERT` of
the driver, and one of 513 bytes is sent; a payload of -1 bytes is taken over, and -1 bytes are
read where two have arrived, which are copies of `2 ^ 32 - 1` bytes. -/
theorem malformed_served :
    (handle Net.init (Request.alone (.netSend 0 (payload [])))).1.uip.fault = some .assertion ∧
      ¬ Rejected Net.init (Request.alone (.netSend 0 (payload []))) ∧
      ¬ Rejected Net.init (Request.alone (.netSend 513 (payload []))) ∧
      (∃ os n, Run step Free Net.init smallSegments os n ∧ ¬ Rejected n (sendTo (-1))) ∧
      ∃ os n, Run step Free Net.init twoBytes os n ∧
        ¬ Rejected n (Request.alone (.sockRecv 1 (-1))) := by
  refine ⟨by decide, fun h => h.status rfl, fun h => h.status rfl, ?_, ?_⟩
  · have hexec : ((exec step Net.init smallSegments).map fun r =>
        (handle r.1 (sendTo (-1))).2.2.status) = some .ok := by decide +kernel
    obtain ⟨⟨n, os⟩, hr, hok⟩ := Option.map_eq_some_iff.mp hexec
    exact ⟨os, n, run_of_exec hr, fun h => h.status hok⟩
  · have hexec : ((exec step Net.init twoBytes).map fun r =>
        (handle r.1 (Request.alone (.sockRecv 1 (-1)))).2.2.status) = some .ok := by decide +kernel
    obtain ⟨⟨n, os⟩, hr, hok⟩ := Option.map_eq_some_iff.mp hexec
    exact ⟨os, n, run_of_exec hr, fun h => h.status hok⟩

end Service
end EgosNet
