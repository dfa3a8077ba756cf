import Mathlib.Logic.Function.Iterate
import Mathlib.Tactic.IntervalCases
import EgosNet.Uip.Connection

/-!
# The periodic timer

`uip_process(UIP_TIMER)` is to be called for every connection twice in a second or so.  It sends
again what has not been acknowledged, waits longer each time, gives up in the end, and forgets
connections that only wait to be forgotten.

`uipProcessTimer` is the code, up to the application; `tick` is what it does to one connection.  The
automaton counts down: `lifetime` is the number of calls after which a connection is closed, if
nothing else happens, and each call lowers it by one (`lifetime_tick`), whichever of its branches is
taken.  So `closed_iff_lifetime` is exact, in spite of the exponential backoff, of the two limits on
the number of attempts, and of the 8-bit timer, which in `FIN_WAIT_2` starts wherever the
retransmission timer has left it and may have to go round.

In the source the call also increments `iss`, which nothing else in this module reads.
-/

namespace EgosNet
namespace Uip

open Foundation

def UIP_MAXRTX : UInt8 := 8
def UIP_MAXSYNRTX : UInt8 := 5
def UIP_TIME_WAIT_TIMEOUT : UInt8 := 120

/-! ## The code -/

/-- Where `uip_process` goes on after the application. -/
inductive TimerResume where
  | nodata
  | apprexmit
  | appsend
  deriving DecidableEq, Repr

/-- How far the timer gets before the application is called. -/
inductive TimerVerdict where
  | done (u : Stack)
  | appcall (u : Stack) (k : TimerResume)

/-- The next attempt would be one too many. -/
def exhausted (c : UipConn) : Bool :=
  c.nrtx = UIP_MAXRTX ∨ c.tcpstateflags = .synRcvd ∧ c.nrtx = UIP_MAXSYNRTX

/-- `UIP_RTO << (nrtx > 4 ? 4 : nrtx)` -/
def backoff (nrtx : UInt8) : UInt8 := UIP_RTO <<< (if 4 < nrtx then 4 else nrtx)

/-- `tcp_send_finack:` -/
def tcpSendFinack (u : Stack) (i : Slot) : Stack :=
  tcpSendNodata (u.put Hdr.flags [TCP_FIN ||| TCP_ACK]) i

/-- The retransmission, by the state of the connection. -/
def retransmit (u : Stack) (i : Slot) : TimerVerdict :=
  match (u.conns i).tcpstateflags with
  | .synRcvd => .done (tcpSendSynack u i)
  | .established => .appcall { u with flags := { rexmit := true } } .apprexmit
  | .finWait1 | .closing | .lastAck => .done (tcpSendFinack u i)
  | _ => .done (drop u)

/-- `uip_process(UIP_TIMER)` for the connection in slot `i`, up to the application. -/
def uipProcessTimer (u : Stack) (i : Slot) : TimerVerdict :=
  let u := { u with appdata := UIP_IPTCPH_LEN + UIP_LLH_LEN, len := 0, slen := 0 }
  let c := u.conns i
  if c.tcpstateflags = .timeWait ∨ c.tcpstateflags = .finWait2 then
    let c := { c with timer := c.timer + 1 }
    let c := if c.timer = UIP_TIME_WAIT_TIMEOUT then { c with tcpstateflags := .closed } else c
    .done (drop (u.setConn i c))
  else if c.tcpstateflags ≠ .closed then
    if c.len ≠ 0 then
      let timer := c.timer
      let c := { c with timer := c.timer - 1 }
      if timer = 0 then
        if exhausted c then
          let u := u.setConn i { c with tcpstateflags := .closed }
          .appcall { u with flags := { timedout := true } } .nodata
        else
          retransmit (u.setConn i { c with timer := backoff c.nrtx, nrtx := c.nrtx + 1 }) i
      else .done (drop (u.setConn i c))
    else if c.tcpstateflags = .established then
      .appcall { u with flags := { poll := true } } .appsend
    else .done (drop u)
  else .done (drop u)

/-- The rest of `uip_process`, from the label the call returns to. -/
def TimerResume.run (u : Stack) (i : Slot) : TimerResume → Stack
  | .nodata => tcpSendNodata (u.put Hdr.flags [TCP_RST ||| TCP_ACK]) i
  | .apprexmit => Uip.apprexmit u i
  | .appsend => Uip.appsend u i

/-! ## One connection -/

/-- What a call of the timer does to a connection that only waits to be forgotten. -/
def countUp (c : UipConn) : UipConn :=
  if c.timer + 1 = UIP_TIME_WAIT_TIMEOUT then
    { c with timer := c.timer + 1, tcpstateflags := .closed }
  else { c with timer := c.timer + 1 }

/-- And to one with something outstanding. -/
def countDown (c : UipConn) : UipConn :=
  if c.timer = 0 then
    if exhausted c then { c with timer := c.timer - 1, tcpstateflags := .closed }
    else { c with timer := backoff c.nrtx, nrtx := c.nrtx + 1 }
  else { c with timer := c.timer - 1 }

/-- **A call of the timer.** -/
def tick (c : UipConn) : UipConn :=
  match c.tcpstateflags with
  | .closed => c
  | .timeWait | .finWait2 => countUp c
  | _ => if c.len = 0 then c else countDown c

/-- The stack as the timer leaves it to the application, if it calls it. -/
def TimerVerdict.stack : TimerVerdict → Stack
  | .done u => u
  | .appcall u _ => u

section Code

variable (u : Stack) (i : Slot)

theorem retransmit_conns : (retransmit u i).stack.conns = u.conns := by
  unfold retransmit
  cases (u.conns i).tcpstateflags <;> rfl

/-- **The code does to the connection what the automaton does**, and to no other anything. -/
theorem uipProcessTimer_conns : (uipProcessTimer u i).stack.conns =
    Function.update u.conns i (tick (u.conns i)) := by
  have hself : u.conns = Function.update u.conns i (u.conns i) :=
    (Function.update_eq_self i u.conns).symm
  have hdown : ∀ st, (u.conns i).tcpstateflags = st → st ≠ .closed → st ≠ .timeWait →
      st ≠ .finWait2 → (uipProcessTimer u i).stack.conns = Function.update u.conns i
        (if (u.conns i).len = 0 then u.conns i else countDown (u.conns i)) := by
    intro st hst hclosed htime hfin
    rw [← hst] at hclosed htime hfin
    unfold uipProcessTimer
    dsimp only
    rw [if_neg (not_or.mpr ⟨htime, hfin⟩), if_pos hclosed]
    unfold countDown
    by_cases hlen : (u.conns i).len = 0
    · rw [if_neg (not_not.mpr hlen), if_pos hlen]
      split_ifs <;> exact hself
    · rw [if_pos hlen, if_neg hlen, show exhausted { u.conns i with
        timer := (u.conns i).timer - 1 } = exhausted (u.conns i) from rfl]
      split_ifs with htimer hex
      · rfl
      · exact retransmit_conns _ i
      · rfl
  have hup : (u.conns i).tcpstateflags = .timeWait ∨ (u.conns i).tcpstateflags = .finWait2 →
      (uipProcessTimer u i).stack.conns = Function.update u.conns i (countUp (u.conns i)) := by
    intro hwait
    unfold uipProcessTimer
    dsimp only
    rw [if_pos hwait]
    unfold countUp
    split_ifs <;> rfl
  unfold tick
  cases hstate : (u.conns i).tcpstateflags with
  | closed =>
    unfold uipProcessTimer
    dsimp only
    rw [if_neg (by simp [hstate]), if_neg (not_not.mpr hstate)]
    exact hself
  | timeWait => exact hup (.inl hstate)
  | finWait2 => exact hup (.inr hstate)
  | synRcvd => exact hdown _ hstate (by decide) (by decide) (by decide)
  | established => exact hdown _ hstate (by decide) (by decide) (by decide)
  | finWait1 => exact hdown _ hstate (by decide) (by decide) (by decide)
  | closing => exact hdown _ hstate (by decide) (by decide) (by decide)
  | lastAck => exact hdown _ hstate (by decide) (by decide) (by decide)

end Code

/-! ## How long a connection lasts -/

/-- The number of attempts that are made before the last. -/
def maxRtx (st : TcpState) : ℕ := if st = .synRcvd then UIP_MAXSYNRTX.toNat else UIP_MAXRTX.toNat

/-- The calls it takes to make the last `m` attempts, out of `limit`. -/
def attempts (limit : ℕ) : ℕ → ℕ
  | 0 => 0
  | m + 1 => (backoff (UInt8.ofNat (limit - (m + 1)))).toNat + 1 + attempts limit m

/-- The number of calls after which a connection is closed. -/
def lifetime (c : UipConn) : ℕ :=
  match c.tcpstateflags with
  | .closed => 0
  | .timeWait | .finWait2 => (UIP_TIME_WAIT_TIMEOUT - 1 - c.timer).toNat + 1
  | st => c.timer.toNat + 1 + attempts (maxRtx st) (maxRtx st - c.nrtx.toNat)

/-- Something can be outstanding in this state. -/
def TcpState.sending : TcpState → Bool
  | .closed | .timeWait | .finWait2 => false
  | _ => true

/-- The timer runs for the connection: where something can be outstanding, something is, and not too
many attempts have been made. -/
def Timed (c : UipConn) : Prop :=
  c.tcpstateflags.sending = true → c.len ≠ 0 ∧ c.nrtx.toNat ≤ maxRtx c.tcpstateflags

section Lifetime

variable {c : UipConn}

theorem lifetime_eq_zero : lifetime c = 0 ↔ c.tcpstateflags = .closed := by
  unfold lifetime
  cases c.tcpstateflags <;> simp

/-- A byte that is not zero, less one. -/
theorem toNat_sub_one {x : UInt8} (h : x ≠ 0) : (x - 1).toNat = x.toNat - 1 := by
  have hne : x.toNat ≠ 0 := fun hz => h (UInt8.toNat_inj.mp hz)
  exact UInt8.toNat_sub_of_le x 1 (UInt8.le_iff_toNat_le.mpr (Nat.one_le_iff_ne_zero.mpr hne))

theorem lifetime_countUp (h : c.tcpstateflags = .timeWait ∨ c.tcpstateflags = .finWait2) :
    Timed (countUp c) ∧ lifetime (countUp c) = lifetime c - 1 := by
  have hlife : lifetime c = (UIP_TIME_WAIT_TIMEOUT - 1 - c.timer).toNat + 1 := by
    unfold lifetime
    rcases h with h | h <;> rw [h]
  rw [hlife, Nat.add_sub_cancel]
  unfold countUp
  split_ifs with hlast
  · have hzero : UIP_TIME_WAIT_TIMEOUT - 1 - c.timer = 0 := by
      rw [← hlast]
      simp
    rw [hzero]
    exact ⟨fun hs => absurd hs (by simp [TcpState.sending]), rfl⟩
  · have hne : UIP_TIME_WAIT_TIMEOUT - 1 - c.timer ≠ 0 := by
      intro hzero
      exact hlast (by rw [← sub_eq_zero.mp hzero]; rfl)
    have hpos : (UIP_TIME_WAIT_TIMEOUT - 1 - c.timer).toNat ≠ 0 :=
      fun hz => hne (UInt8.toNat_inj.mp hz)
    have hsub : UIP_TIME_WAIT_TIMEOUT - 1 - (c.timer + 1) =
        UIP_TIME_WAIT_TIMEOUT - 1 - c.timer - 1 := sub_add_eq_sub_sub _ _ _
    have hnext : lifetime { c with timer := c.timer + 1 } =
        (UIP_TIME_WAIT_TIMEOUT - 1 - c.timer - 1).toNat + 1 := by
      rw [← hsub]
      unfold lifetime
      rcases h with h | h <;> simp only [h]
    have hquiet : c.tcpstateflags.sending = false := by rcases h with h | h <;> rw [h] <;> rfl
    refine ⟨fun hs => absurd hs (by simp [hquiet]), ?_⟩
    rw [hnext, toNat_sub_one hne]
    omega

/-- The lifetime while something is outstanding. -/
theorem lifetime_sending (h : c.tcpstateflags.sending = true) : lifetime c = c.timer.toNat + 1 +
    attempts (maxRtx c.tcpstateflags) (maxRtx c.tcpstateflags - c.nrtx.toNat) := by
  unfold lifetime
  cases hstate : c.tcpstateflags <;> simp [hstate, TcpState.sending] at h ⊢

/-- The attempt that `exhausted` stops is the last. -/
theorem exhausted_iff (hrtx : c.nrtx.toNat ≤ maxRtx c.tcpstateflags) :
    exhausted c = true ↔ c.nrtx.toNat = maxRtx c.tcpstateflags := by
  have hmax : UIP_MAXRTX.toNat = 8 := rfl
  have hsyn : UIP_MAXSYNRTX.toNat = 5 := rfl
  unfold maxRtx at hrtx ⊢
  simp only [exhausted, decide_eq_true_eq, ← UInt8.toNat_inj]
  split_ifs at hrtx ⊢ with hstate
  · simp only [hstate, true_and]
    omega
  · simp only [hstate, false_and, or_false]

/-- There is another. -/
theorem nrtx_succ (hrtx : c.nrtx.toNat ≤ maxRtx c.tcpstateflags) (hex : ¬ exhausted c = true) :
    c.nrtx.toNat < maxRtx c.tcpstateflags ∧ (c.nrtx + 1).toNat = c.nrtx.toNat + 1 := by
  have hmore : c.nrtx.toNat < maxRtx c.tcpstateflags :=
    lt_of_le_of_ne hrtx fun heq => hex ((exhausted_iff hrtx).mpr heq)
  have hmax : maxRtx c.tcpstateflags ≤ 8 := by
    unfold maxRtx
    split_ifs <;> decide
  have hadd : (c.nrtx + 1).toNat = (c.nrtx.toNat + 1) % 256 := UInt8.toNat_add c.nrtx 1
  exact ⟨hmore, by rw [hadd]; exact Nat.mod_eq_of_lt (by omega)⟩

theorem lifetime_countDown (hs : c.tcpstateflags.sending = true) (hlen : c.len ≠ 0)
    (hrtx : c.nrtx.toNat ≤ maxRtx c.tcpstateflags) :
    Timed (countDown c) ∧ lifetime (countDown c) = lifetime c - 1 := by
  rw [lifetime_sending hs]
  unfold countDown
  split_ifs with htimer hex
  · have hlast := (exhausted_iff hrtx).mp hex
    refine ⟨fun h => absurd h (by simp [TcpState.sending]), ?_⟩
    rw [hlast, htimer, Nat.sub_self]
    rfl
  · obtain ⟨hmore, hnext⟩ := nrtx_succ hrtx hex
    obtain ⟨m, hm⟩ := Nat.exists_eq_add_of_lt hmore
    have hleft : maxRtx c.tcpstateflags - c.nrtx.toNat = m + 1 := by omega
    have hleft' : maxRtx c.tcpstateflags - (c.nrtx + 1).toNat = m := by omega
    have hbackoff : UInt8.ofNat (maxRtx c.tcpstateflags - (m + 1)) = c.nrtx := by
      rw [show maxRtx c.tcpstateflags - (m + 1) = c.nrtx.toNat by omega]
      simp
    refine ⟨fun _ => ⟨hlen, show (c.nrtx + 1).toNat ≤ maxRtx c.tcpstateflags by omega⟩, ?_⟩
    have hlife := lifetime_sending
      (c := { c with timer := backoff c.nrtx, nrtx := c.nrtx + 1 }) hs
    rw [hlife, hleft, attempts, hbackoff, htimer]
    dsimp only
    rw [hleft']
    simp
  · refine ⟨fun _ => ⟨hlen, hrtx⟩, ?_⟩
    have hpos : c.timer.toNat ≠ 0 := fun hz => htimer (UInt8.toNat_inj.mp hz)
    have hlife := lifetime_sending (c := { c with timer := c.timer - 1 }) hs
    rw [hlife]
    dsimp only
    rw [toNat_sub_one htimer]
    omega

/-- The call while something is outstanding. -/
theorem tick_sending (hs : c.tcpstateflags.sending = true) (hlen : c.len ≠ 0) :
    tick c = countDown c := by
  unfold tick
  cases hstate : c.tcpstateflags <;> simp [hstate, TcpState.sending, hlen] at hs ⊢

/-- **Every call of the timer lowers the lifetime by one.** -/
theorem lifetime_tick (h : Timed c) : Timed (tick c) ∧ lifetime (tick c) = lifetime c - 1 := by
  by_cases hs : c.tcpstateflags.sending = true
  · obtain ⟨hlen, hrtx⟩ := h hs
    rw [tick_sending hs hlen]
    exact lifetime_countDown hs hlen hrtx
  · unfold tick
    cases hstate : c.tcpstateflags with
    | closed =>
      refine ⟨h, ?_⟩
      rw [lifetime_eq_zero.mpr hstate]
    | timeWait => exact lifetime_countUp (.inl hstate)
    | finWait2 => exact lifetime_countUp (.inr hstate)
    | _ => simp [hstate, TcpState.sending] at hs

theorem attempts_le {m limit : ℕ} (hm : m ≤ limit) (hlimit : limit = 5 ∨ limit = 8) :
    attempts limit m ≤ 245 := by
  rcases hlimit with rfl | rfl <;> interval_cases m <;> decide

/-- It is never long. -/
theorem lifetime_le (h : Timed c) : lifetime c ≤ 501 := by
  have hbyte := c.timer.toNat_lt
  by_cases hs : c.tcpstateflags.sending = true
  · obtain ⟨-, hrtx⟩ := h hs
    have hmax : maxRtx c.tcpstateflags = 5 ∨ maxRtx c.tcpstateflags = 8 := by
      unfold maxRtx
      split_ifs
      · exact .inl rfl
      · exact .inr rfl
    have hattempts := attempts_le (Nat.sub_le (maxRtx c.tcpstateflags) c.nrtx.toNat) hmax
    rw [lifetime_sending hs]
    omega
  · have hcount := (UIP_TIME_WAIT_TIMEOUT - 1 - c.timer).toNat_lt
    unfold lifetime
    cases hstate : c.tcpstateflags with
    | closed => exact Nat.zero_le _
    | timeWait | finWait2 => dsimp only; omega
    | _ => simp [hstate, TcpState.sending] at hs

/-- **Exactly when a connection is closed**, if nothing happens but the timer. -/
theorem closed_iff_lifetime (h : Timed c) (k : ℕ) :
    (tick^[k] c).tcpstateflags = .closed ↔ lifetime c ≤ k := by
  have hcount : Timed (tick^[k] c) ∧ lifetime (tick^[k] c) = lifetime c - k := by
    induction k with
    | zero => exact ⟨h, rfl⟩
    | succ k ih =>
      rw [Function.iterate_succ_apply']
      obtain ⟨htimed, hlife⟩ := lifetime_tick ih.1
      exact ⟨htimed, by rw [hlife, ih.2, Nat.sub_sub]⟩
  rw [← lifetime_eq_zero, hcount.2, Nat.sub_eq_zero_iff_le]

/-! ### Attempts -/

/-- A call of the timer in which something is sent again. -/
def resends (c : UipConn) : Bool :=
  c.tcpstateflags.sending ∧ c.len ≠ 0 ∧ c.timer = 0 ∧ ¬ exhausted c

/-- How often that will be. -/
def triesLeft (c : UipConn) : ℕ :=
  if c.tcpstateflags.sending then maxRtx c.tcpstateflags - c.nrtx.toNat else 0

theorem triesLeft_eq_zero (h : c.tcpstateflags.sending = false) : triesLeft c = 0 := by
  simp [triesLeft, h]

/-- Where nothing is outstanding, nothing will be. -/
theorem sending_tick (h : c.tcpstateflags.sending = false) :
    (tick c).tcpstateflags.sending = false := by
  have hup : (countUp c).tcpstateflags.sending = false := by
    unfold countUp
    split_ifs
    · rfl
    · exact h
  unfold tick
  cases hstate : c.tcpstateflags with
  | closed => exact h
  | timeWait | finWait2 => exact hup
  | _ => simp [hstate, TcpState.sending] at h

theorem triesLeft_tick (h : Timed c) :
    triesLeft c = triesLeft (tick c) + if resends c then 1 else 0 := by
  cases hs : c.tcpstateflags.sending with
  | false =>
    rw [triesLeft_eq_zero hs, triesLeft_eq_zero (sending_tick hs)]
    simp [resends, hs]
  | true =>
    obtain ⟨hlen, hrtx⟩ := h hs
    have htries : ∀ c' : UipConn, c'.tcpstateflags = c.tcpstateflags →
        triesLeft c' = maxRtx c.tcpstateflags - c'.nrtx.toNat := by
      intro c' hst
      rw [triesLeft, hst, if_pos hs]
    rw [htries c rfl, tick_sending hs hlen]
    unfold countDown
    split_ifs with htimer hex hr hr hr
    · simp [resends, hex] at hr
    · have hclosed : triesLeft { c with timer := c.timer - 1, tcpstateflags := .closed } = 0 :=
        triesLeft_eq_zero rfl
      rw [(exhausted_iff hrtx).mp hex, Nat.sub_self, hclosed]
    · obtain ⟨hmore, hnext⟩ := nrtx_succ hrtx hex
      rw [htries { c with timer := backoff c.nrtx, nrtx := c.nrtx + 1 } rfl]
      dsimp only
      omega
    · simp [resends, hs, hlen, htimer, hex] at hr
    · simp [resends, htimer] at hr
    · rw [htries { c with timer := c.timer - 1 } rfl, Nat.add_zero]

/-- **The number of attempts**, up to the call in which the connection is closed. -/
theorem count_resends (h : Timed c) :
    (List.range (lifetime c)).countP (fun k => resends (tick^[k] c)) = triesLeft c := by
  have hcount (k : ℕ) : Timed (tick^[k] c) ∧
      triesLeft c = triesLeft (tick^[k] c) +
        (List.range k).countP fun j => resends (tick^[j] c) := by
    induction k with
    | zero => exact ⟨h, rfl⟩
    | succ k ih =>
      obtain ⟨htimed, hleft⟩ := ih
      rw [Function.iterate_succ_apply', List.range_succ, List.countP_append]
      refine ⟨(lifetime_tick htimed).1, ?_⟩
      rw [hleft, triesLeft_tick htimed, List.countP_singleton]
      omega
  have hclosed := (closed_iff_lifetime h (lifetime c)).mpr (le_refl _)
  have hnone : triesLeft (tick^[lifetime c] c) = 0 := triesLeft_eq_zero (by rw [hclosed]; rfl)
  have hall := (hcount (lifetime c)).2
  omega

end Lifetime

/-- What an attempt to send again is: our `SYNACK`, our `FIN`, or a call that asks the application
for the data. -/
inductive SendsAgain (i : Slot) (c : UipConn) : TimerVerdict → Prop
  | synack {u : Stack} : c.tcpstateflags = .synRcvd → u.conns i = tick c →
      SendsAgain i c (.done (tcpSendSynack u i))
  | rexmit {u : Stack} : c.tcpstateflags = .established → u.conns i = tick c →
      u.flags = { rexmit := true } → SendsAgain i c (.appcall u .apprexmit)
  | finack {u : Stack} :
      c.tcpstateflags = .finWait1 ∨ c.tcpstateflags = .closing ∨ c.tcpstateflags = .lastAck →
      u.conns i = tick c → SendsAgain i c (.done (tcpSendFinack u i))

section SendsAgain

variable {u : Stack} {i : Slot}

/-- The stack with which the timer begins. -/
def Stack.cleared (u : Stack) : Stack :=
  { u with appdata := UIP_IPTCPH_LEN + UIP_LLH_LEN, len := 0, slen := 0 }

/-- The timer comes to the retransmission. -/
theorem uipProcessTimer_of_resends (hr : resends (u.conns i) = true) :
    uipProcessTimer u i = retransmit (u.cleared.setConn i (tick (u.conns i))) i := by
  obtain ⟨hs, hlen, htimer, hex⟩ := of_decide_eq_true hr
  have hwait : ¬ ((u.conns i).tcpstateflags = .timeWait ∨ (u.conns i).tcpstateflags = .finWait2) := by
    rintro (h | h) <;> simp [h, TcpState.sending] at hs
  have hopen : (u.conns i).tcpstateflags ≠ .closed := fun h => by
    simp [h, TcpState.sending] at hs
  rw [tick_sending hs hlen, countDown, if_pos htimer, if_neg hex]
  unfold uipProcessTimer
  dsimp only
  rw [if_neg hwait, if_pos hopen, if_pos hlen, if_pos htimer, show exhausted { u.conns i with
    timer := (u.conns i).timer - 1 } = exhausted (u.conns i) from rfl, if_neg hex]
  rfl

/-- Else it ends in silence, or the application is called for another reason. -/
theorem uipProcessTimer_of_not_resends (hr : resends (u.conns i) = false) :
    (∃ v, uipProcessTimer u i = .done v ∧ v.len = 0) ∨
      ∃ v k, uipProcessTimer u i = .appcall v k ∧ k ≠ .apprexmit := by
  unfold uipProcessTimer
  dsimp only
  by_cases hwait : (u.conns i).tcpstateflags = .timeWait ∨ (u.conns i).tcpstateflags = .finWait2
  · rw [if_pos hwait]
    exact .inl ⟨_, rfl, rfl⟩
  rw [if_neg hwait]
  split_ifs with hopen hlen htimer hex hest
  · exact .inr ⟨_, _, rfl, by decide⟩
  · have hs : (u.conns i).tcpstateflags.sending = true := by
      cases hst : (u.conns i).tcpstateflags <;> simp_all [TcpState.sending]
    have hex' : ¬ exhausted (u.conns i) = true := hex
    exact absurd hr (by simp [resends, hs, hlen, htimer, hex'])
  · exact .inl ⟨_, rfl, rfl⟩
  · exact .inr ⟨_, _, rfl, by decide⟩
  · exact .inl ⟨_, rfl, rfl⟩
  · exact .inl ⟨_, rfl, rfl⟩

/-- **When the code makes an attempt.** -/
theorem resends_iff : resends (u.conns i) = true ↔
    SendsAgain i (u.conns i) (uipProcessTimer u i) := by
  constructor
  · intro hr
    obtain ⟨hs, hlen, htimer, hex⟩ := of_decide_eq_true hr
    have htick : (tick (u.conns i)).tcpstateflags = (u.conns i).tcpstateflags := by
      rw [tick_sending hs hlen, countDown, if_pos htimer, if_neg hex]
    have hself := Stack.setConn_conns_self u.cleared i (tick (u.conns i))
    rw [uipProcessTimer_of_resends hr, retransmit, hself, htick]
    cases hst : (u.conns i).tcpstateflags with
    | synRcvd => exact .synack hst hself
    | established => exact .rexmit hst hself rfl
    | finWait1 => exact .finack (.inl hst) hself
    | closing => exact .finack (.inr (.inl hst)) hself
    | lastAck => exact .finack (.inr (.inr hst)) hself
    | _ => simp [hst, TcpState.sending] at hs
  · intro h
    by_contra hr
    have hnot := uipProcessTimer_of_not_resends (Bool.eq_false_of_not_eq_true hr)
    generalize uipProcessTimer u i = v at h hnot
    cases h with
    | synack _ _ =>
      obtain ⟨w, hw, hlen⟩ | ⟨w, k, hw, -⟩ := hnot
      · rw [← TimerVerdict.done.inj hw] at hlen
        exact absurd hlen (by decide : UIP_IPTCPH_LEN + TCP_OPT_MSS_LEN.toNat ≠ 0)
      · simp at hw
    | rexmit _ _ _ =>
      obtain ⟨w, hw, -⟩ | ⟨w, k, hw, hk⟩ := hnot
      · simp at hw
      · exact hk (TimerVerdict.appcall.inj hw).2.symm
    | finack _ _ =>
      obtain ⟨w, hw, hlen⟩ | ⟨w, k, hw, -⟩ := hnot
      · rw [← TimerVerdict.done.inj hw] at hlen
        exact absurd hlen (by decide : UIP_IPTCPH_LEN ≠ 0)
      · simp at hw

end SendsAgain

/-! ## Connections for which it has never been called -/

/-- Our `SYN` or `FIN` is outstanding in this state. -/
def TcpState.owes : TcpState → Bool
  | .synRcvd | .finWait1 | .closing | .lastAck => true
  | _ => false

/-- Where it should be outstanding, it is. -/
def Pending (c : UipConn) : Prop := c.tcpstateflags.owes = true → c.len ≠ 0

section Pending

variable {c c' : UipConn} {s : Header} {acked : Bool}

theorem pending_of_state (h : c.tcpstateflags.owes = false) : Pending c :=
  fun howes => absurd howes (by simp [h])

theorem Pending.congr (h : Pending c) (hst : c'.tcpstateflags = c.tcpstateflags)
    (hlen : c'.len = c.len) : Pending c' := by
  unfold Pending at h ⊢
  rwa [hst, hlen]

theorem pending_receiveEstablished (hst : c.tcpstateflags = .established) :
    Pending (receiveEstablished s c acked).conn := by
  refine pending_of_state ?_
  have hadv (n : ℕ) : (c.advance n).tcpstateflags.owes = false := by
    rw [advance_state, hst]
    rfl
  unfold receiveEstablished
  split_ifs
  · rw [hst]
    rfl
  · exact hadv _
  · exact hadv s.dataLen
  · exact hadv s.dataLen

theorem pending_receiveFinWait1 (h : Pending c) (hst : c.tcpstateflags = .finWait1) :
    Pending (receiveFinWait1 s c false).conn := by
  have hlen : (c.advance s.length).len ≠ 0 := by
    rw [advance_outstanding]
    exact h (by rw [hst]; rfl)
  unfold receiveFinWait1
  dsimp only
  split_ifs
  · simp at *
  · intro _
    rw [advance_outstanding]
    exact hlen
  · simp at *
  · exact fun _ => hlen

/-- In `FIN_WAIT_2` nothing is outstanding any more. -/
theorem pending_receiveFinWait2 (hst : c.tcpstateflags = .finWait2) :
    Pending (receiveFinWait2 s c).conn := by
  refine pending_of_state ?_
  unfold receiveFinWait2
  dsimp only
  split_ifs
  · rw [advance_state]
    rfl
  · rw [advance_state, hst]
    rfl

/-- **A segment that acknowledges our `SYN` or `FIN` ends the state that waits for it.** -/
theorem pending_receive (h : Pending c) : Pending (receive s c).conn := by
  unfold receive
  split_ifs with hrst hout
  · exact pending_of_state rfl
  · exact h
  · cases hacked : s.acks c with
    | false =>
      simp only [if_neg Bool.false_ne_true]
      cases hst : c.tcpstateflags with
      | synRcvd => exact h
      | established => exact pending_receiveEstablished hst
      | finWait1 => exact pending_receiveFinWait1 h hst
      | finWait2 => exact pending_receiveFinWait2 hst
      | _ =>
        simp only [receiveLate, hst]
        exact h
    | true =>
      simp only [if_true]
      have hst' : (ackedConn c).tcpstateflags = c.tcpstateflags := ackedConn_state c
      generalize ackedConn c = c' at hst'
      rw [hst']
      cases hst : c.tcpstateflags with
      | synRcvd =>
        refine pending_of_state ?_
        simp only [receiveSynRcvd, if_true, advance_state]
        rfl
      | established => exact pending_receiveEstablished (hst'.trans hst)
      | finWait1 =>
        refine pending_of_state ?_
        simp only [receiveFinWait1, if_true]
        split_ifs
        · rw [advance_state]
          rfl
        · rfl
      | finWait2 => exact pending_receiveFinWait2 (hst'.trans hst)
      | closed | timeWait =>
        refine pending_of_state ?_
        simp only [receiveLate, hst', hst]
        rfl
      | closing | lastAck =>
        refine pending_of_state ?_
        simp only [receiveLate, hst', hst]
        rfl

end Pending

/-- What the timer relies on. -/
structure Untimed (c : UipConn) : Prop where
  nrtx : c.nrtx = 0
  pending : Pending c

section Untimed

variable {c c' : UipConn}

theorem Untimed.receive (h : Untimed c) (s : Header) : Untimed (receive s c).conn :=
  ⟨(changed_receive s c).nrtx.trans h.nrtx, pending_receive h.pending⟩

/-- The application can be asked for data in one state only. -/
theorem Moves.appsend {st st' : TcpState} {f : UipFlags}
    (h : Moves st (some (f, .appsend)) st') : st' = .established := by
  cases h <;> rfl

theorem Untimed.answered {k : Resume} (h : Untimed c) (ha : Answered c k c')
    (hest : k = .appsend → c.tcpstateflags = .established) : Untimed c' := by
  cases ha with
  | drop => exact h
  | ack => exact h
  | finack => exact ⟨rfl, fun _ => Nat.one_ne_zero⟩
  | abort => exact ⟨h.nrtx, pending_of_state rfl⟩
  | close => exact ⟨rfl, fun _ => Nat.one_ne_zero⟩
  | send n hn => exact ⟨rfl, pending_of_state (by rw [show _ = _ from hest rfl]; rfl)⟩

end Untimed

end Uip
end EgosNet
