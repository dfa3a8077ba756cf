import EgosNet.Service.ReceiveStream

/-!
# Reading in parts

`handle_sock_recv` returns as many bytes as the caller asks for, at most those that have arrived,
and then sets `sock_rx_len` to zero.  The bytes that were not asked for are gone with it, and the
next call is told that there are none.

`KeepsRest` is what reading in parts would be: the calls return one part of the bytes after the
other, and only when no byte is left is one told to wait, or that the connection is closed.  It is
a statement about what `sock_recv` of `library/syscall/servers.c` makes of the replies, and the
program meets it only where nothing is left over: with a single call, or with a first call for all
the bytes.

* `step_read`, `step_read_nothing`: one call, with and without bytes to read.
* `keepsRest_nothing`: when nothing is left, any further calls are answered as they should be.
* `reads_keep_rest_iff`: when the calls keep the rest.
* `reads_lose_rest`: two bytes arrive and are read one at a time; the second call is told to wait.
-/

namespace EgosNet
namespace Service

open Foundation Uip

/-- What `sock_recv` returns for a reply. -/
def sockRecv (reply : Reply) : ℤ :=
  if reply.status = .ok then reply.length
  else if reply.status = .closed then 0
  else -reply.status.code

/-- The calls of `sock_recv` for the given lengths, with no frame arriving. -/
def reads (connId : ℤ) (lengths : List ℤ) : List Input :=
  lengths.map fun length => Request.alone (.sockRecv connId length)

/-- No more data can arrive, and `sock_recv` says so. -/
def connOver (n : Net) : Bool := n.sock.connClosed ∨ ¬ n.sock.connOpen

/-- **The calls return the bytes `rest` in order**, each as many as it asks for while there are so
many.  A positive request is answered with 0 only when the connection is closed and no byte is left,
and `NET_CLOSED` is not the answer while one is. -/
def KeepsRest (closed : Bool) : List UInt8 → List ℤ → List Reply → Prop
  | rest, length :: lengths, reply :: replies =>
    (rest ≠ [] → reply.status = .ok ∧ sockRecv reply = min length rest.length ∧
      reply.buf = rest.take length.toNat) ∧
    (0 < length → sockRecv reply = 0 → closed = true ∧ rest = []) ∧
    (reply.status = .closed → rest = []) ∧
    KeepsRest closed (rest.drop length.toNat) lengths replies
  | _, [], [] => True
  | _, _, _ => False

/-- What a call leaves: nothing to read. -/
def afterRead (n : Net) : Net :=
  { n with
    uip := { n.uip with len := 0 }
    sock := { n.sock with rxLen := 0 } }

/-- The reply to a call for bytes that are there. -/
def readReply (n : Net) (connId length : ℤ) : Reply :=
  ⟨.ok, connId, min length n.sock.rxLen, (unread n).take length.toNat⟩

/-- The reply to a call when there are none. -/
def emptyReply (n : Net) (connId : ℤ) : Reply :=
  ⟨if connOver n then .closed else .wouldBlock, connId, 0, []⟩

section Call

variable {n : Net} {connId : ℤ} (length : ℤ) (hfault : n.uip.fault = none)
  (hport : 0 ≤ n.sock.listenPort) (hconn : connId = n.sock.connId)

/-- No frame, no change. -/
theorem netPoll_nothing (n : Net) :
    netPoll n {} = ({ n with uip := { n.uip with len := 0 } }, []) := by
  simp [netPoll]

include hport hconn in
theorem valid_read : ¬ (n.sock.listenPort < 0 ∨ connId ≠ n.sock.connId) := by
  rintro (h | h)
  · omega
  · exact h hconn

include hfault hport hconn

/-- **A call with bytes to read** returns the first of them, and drops the others. -/
theorem step_read (hpos : 0 < n.sock.rxLen) (hlength : 0 ≤ length) :
    step n (Request.alone (.sockRecv connId length)) =
      some (afterRead n, ⟨.sockRecv connId length, [], readReply n connId length⟩) := by
  have hvalid := valid_read hport hconn
  have hmin : (if (n.sock.rxLen : ℤ) > length then length else n.sock.rxLen) =
      min length n.sock.rxLen := by
    split_ifs <;> omega
  have hneg : ¬ min length (n.sock.rxLen : ℤ) < 0 := by omega
  have htake : n.sock.rxBuf.load 0 (min length n.sock.rxLen).toNat =
      (unread n).take length.toNat := by
    rcases le_total length n.sock.rxLen with hle | hle
    · rw [min_eq_left hle, unread, Mem.load_take _ _ (by omega)]
    · rw [min_eq_right hle, Int.toNat_natCast, unread,
        List.take_of_length_le (by rw [Mem.length_load]; omega)]
  simp only [step, handle, handleSockRecv, Request.alone, netPoll_nothing, hvalid, hpos, hmin,
    hneg, htake, hfault, if_true, if_false, readReply, afterRead]

/-- **A call with nothing to read** says whether to wait. -/
theorem step_read_nothing (hzero : n.sock.rxLen = 0) :
    step n (Request.alone (.sockRecv connId length)) =
      some (afterRead n, ⟨.sockRecv connId length, [], emptyReply n connId⟩) := by
  have hvalid := valid_read hport hconn
  have hnone : ¬ 0 < n.sock.rxLen := by omega
  have hafter : afterRead n = { n with uip := { n.uip with len := 0 } } := by
    rw [afterRead, ← hzero]
  rw [hafter, emptyReply]
  by_cases hover : n.sock.connClosed = true ∨ ¬ n.sock.connOpen = true
  · have hover' : connOver n = true := decide_eq_true hover
    simp only [step, handle, handleSockRecv, Request.alone, netPoll_nothing, hvalid, hnone, hfault,
      hover, hover', if_true, if_false]
  · have hover' : connOver n = false := decide_eq_false hover
    simp only [step, handle, handleSockRecv, Request.alone, netPoll_nothing, hvalid, hnone, hfault,
      hover, hover', if_true, if_false, Bool.false_eq_true]

end Call

/-! ## The calls -/

/-- **When nothing is left, the calls say so**, or that the connection is closed. -/
theorem keepsRest_nothing {connId : ℤ} (lengths : List ℤ) {n : Net} (hfault : n.uip.fault = none)
    (hport : 0 ≤ n.sock.listenPort) (hconn : connId = n.sock.connId) (hzero : n.sock.rxLen = 0) :
    ∃ n' os, exec step n (reads connId lengths) = some (n', os) ∧
      KeepsRest (connOver n) [] lengths (os.map Outcome.reply) := by
  induction lengths generalizing n with
  | nil => exact ⟨n, [], rfl, trivial⟩
  | cons length lengths ih =>
    have hstep := step_read_nothing length hfault hport hconn hzero
    obtain ⟨n', os, hexec, hkeeps⟩ := ih (n := afterRead n) hfault hport hconn rfl
    refine ⟨n', _, exec_cons hstep hexec, ?_⟩
    simp only [List.map_cons, KeepsRest, List.drop_nil]
    refine ⟨fun h => absurd rfl h, fun _ hret => ?_, fun _ => trivial, hkeeps⟩
    cases hover : connOver n with
    | true => exact ⟨rfl, trivial⟩
    | false => simp [sockRecv, emptyReply, hover, NetStatus.code] at hret

/-- The first call is answered as it should be. -/
theorem keepsRest_read {n : Net} {connId length : ℤ} {lengths : List ℤ} {replies : List Reply}
    (hunread : 0 < n.sock.rxLen) :
    KeepsRest (connOver n) (unread n) (length :: lengths) (readReply n connId length :: replies) ↔
      KeepsRest (connOver n) ((unread n).drop length.toNat) lengths replies := by
  have hlen : (unread n).length = n.sock.rxLen := by rw [unread, Mem.length_load]
  simp only [KeepsRest]
  constructor
  · intro h
    exact h.2.2.2
  · intro h
    refine ⟨fun _ => ⟨rfl, ?_, rfl⟩, fun hpos hret => ?_, by simp [readReply], h⟩
    · simp [sockRecv, readReply, hlen]
    · simp only [sockRecv, readReply, if_true] at hret
      omega

/-- A call that finds nothing although bytes are left. -/
theorem not_keepsRest_empty {n : Net} {closed : Bool} {rest : List UInt8} {connId length : ℤ}
    {lengths : List ℤ} {replies : List Reply} (hrest : rest ≠ []) :
    ¬ KeepsRest closed rest (length :: lengths) (emptyReply n connId :: replies) := by
  intro h
  have hok := (h.1 hrest).1
  simp only [emptyReply] at hok
  split_ifs at hok

/-- No fault in a state that was reached. -/
theorem fault_of_run {C : Net → Input → Prop} {is : List Input} {os : List Outcome} {n : Net}
    (h : Run step C Net.init is os n) : n.uip.fault = none := by
  have h0 : Net.init.uip.fault = none := rfl
  exact h.invariant (P := fun _ n => n.uip.fault = none)
    (fun _ _ _ _ _ _ _ hs => (step_spec hs).2.2) h0

/-- **When reading in parts keeps the rest**: in every reachable state with unread bytes, any calls
for the valid connection are answered, and they return the bytes in order exactly when there is at
most one call, or the first asks for all the bytes. -/
theorem reads_keep_rest_iff {is : List Input} {os : List Outcome} {n : Net} {connId : ℤ}
    {lengths : List ℤ} (hrun : Run step Free Net.init is os n) (hunread : 0 < n.sock.rxLen)
    (hport : 0 ≤ n.sock.listenPort) (hconn : connId = n.sock.connId)
    (hlengths : ∀ length ∈ lengths, 0 ≤ length ∧ length ≤ NET_BUF_SIZE) :
    ∃ n' os', exec step n (reads connId lengths) = some (n', os') ∧
      (KeepsRest (connOver n) (unread n) lengths (os'.map Outcome.reply) ↔
        lengths.length ≤ 1 ∨ ∀ length ∈ lengths.head?, (n.sock.rxLen : ℤ) ≤ length) := by
  have hfault := fault_of_run hrun
  cases lengths with
  | nil => exact ⟨n, [], rfl, by simp [KeepsRest]⟩
  | cons length lengths =>
    have hstep := step_read length hfault hport hconn hunread (hlengths length (by simp)).1
    obtain ⟨n', os', hexec, hkeeps⟩ :=
      keepsRest_nothing lengths (n := afterRead n) hfault hport hconn rfl
    have hlen : (unread n).length = n.sock.rxLen := by rw [unread, Mem.length_load]
    have hhead : (∀ l ∈ (length :: lengths).head?, (n.sock.rxLen : ℤ) ≤ l) ↔
        (n.sock.rxLen : ℤ) ≤ length := by simp
    refine ⟨n', _, exec_cons hstep hexec, ?_⟩
    rw [List.map_cons, keepsRest_read hunread, hhead]
    by_cases hle : (n.sock.rxLen : ℤ) ≤ length
    · have hdrop : (unread n).drop length.toNat = [] :=
        List.drop_eq_nil_of_le (by rw [hlen]; omega)
      rw [hdrop]
      exact ⟨fun _ => Or.inr hle, fun _ => hkeeps⟩
    · have hrest : (unread n).drop length.toNat ≠ [] := by
        rw [← List.length_pos_iff, List.length_drop, hlen]
        omega
      cases lengths with
      | nil =>
        obtain ⟨-, rfl⟩ : _ ∧ [] = os' := by simpa [reads, exec] using hexec
        exact ⟨fun _ => Or.inl (le_refl 1), fun _ => trivial⟩
      | cons length' lengths =>
        obtain ⟨m', ps, hexec', -⟩ :=
          keepsRest_nothing lengths (n := afterRead (afterRead n)) hfault hport hconn rfl
        have hsecond := step_read_nothing (n := afterRead n) length' hfault hport hconn rfl
        obtain ⟨-, rfl⟩ := Prod.mk.inj
          (Option.some.inj (hexec.symm.trans (exec_cons hsecond hexec')))
        constructor
        · intro h
          exact absurd h (not_keepsRest_empty hrest)
        · rintro (h | h)
          · simp at h
          · exact absurd h hle

/-! ## Two bytes -/

/-- Both bytes are read at once, and then there are none. -/
theorem reads_keep_rest_iff_both :
    ∃ os n n' os', Run step Free Net.init twoBytes os n ∧
      exec step n (reads 1 [512, 512]) = some (n', os') ∧
      KeepsRest (connOver n) [65, 66] [512, 512] (os'.map Outcome.reply) := by
  have hexec : ((exec step Net.init twoBytes).map fun r =>
      (r.1.sock.listenPort, r.1.sock.connId, r.1.sock.rxLen, unread r.1)) =
      some (80, 1, 2, [65, 66]) := by decide +kernel
  obtain ⟨⟨n, os⟩, hr, hval⟩ := Option.map_eq_some_iff.mp hexec
  simp only [Prod.mk.injEq] at hval
  obtain ⟨hport, hconn, hlen, hunread⟩ := hval
  have hrun := run_of_exec hr
  have hlengths : ∀ length ∈ [(512 : ℤ), 512], 0 ≤ length ∧ length ≤ NET_BUF_SIZE := by decide
  obtain ⟨n', os', hreads, hiff⟩ :=
    reads_keep_rest_iff hrun (by omega) (by omega) hconn.symm hlengths
  rw [hunread] at hiff
  exact ⟨os, n, n', os', hrun, hreads, hiff.mpr (Or.inr (by simp [hlen]))⟩

/-- **The second byte is lost**: it is not returned to a second call. -/
theorem reads_lose_rest :
    ∃ os n n' os', Run step Free Net.init twoBytes os n ∧ unread n = [65, 66] ∧
      exec step n (reads 1 [1, 1]) = some (n', os') ∧
      os'.map Outcome.reply = [⟨.ok, 1, 1, [65]⟩, ⟨.wouldBlock, 1, 0, []⟩] ∧
      ¬ KeepsRest (connOver n) [65, 66] [1, 1] (os'.map Outcome.reply) := by
  have hexec : ((exec step Net.init twoBytes).bind fun r =>
      (exec step r.1 (reads 1 [1, 1])).map fun s => (unread r.1, s.2.map Outcome.reply)) =
      some ([65, 66], [⟨.ok, 1, 1, [65]⟩, ⟨.wouldBlock, 1, 0, []⟩]) := by decide +kernel
  obtain ⟨⟨n, os⟩, hr, hval⟩ := Option.bind_eq_some_iff.mp hexec
  obtain ⟨⟨n', os'⟩, hs, hval⟩ := Option.map_eq_some_iff.mp hval
  obtain ⟨hunread, hreplies⟩ := Prod.mk.inj hval
  refine ⟨os, n, n', os', run_of_exec hr, hunread, hs, hreplies, ?_⟩
  have hreplies' : os'.map Outcome.reply = [⟨.ok, 1, 1, [65]⟩, ⟨.wouldBlock, 1, 0, []⟩] := hreplies
  rw [hreplies']
  simp [KeepsRest]

end Service
end EgosNet
