import EgosNet.Service.Served
import EgosNet.Service.Peer

/-!
# The arrays a payload and a frame pass through

A payload is copied three times on its way out.  `handle_sock_send` copies it into
`sock_tx_buf` and from there into the array of the bridge, and `uip_send` copies it into
`uip_buf`, behind the headers, each time uIP asks for it.  A frame is copied by the driver,
which is not told how large the destination is: into `uip_buf` for every request of the
sockets, and into the message for `NET_RECV`, whose caller copies it once more.

The arrays have 512, 420 and 422 bytes, and nothing compares a length with the array it is
used for, but for the clamp to 512 in `handle_sock_send`.  So the last array decides.  A
payload fits behind the headers if it has at most `UIP_SENDSIZE` bytes, and a frame fits if it
is no longer than where it goes.

`sendCopies` and `recvCopies` list the copies of a step.  That they are the copies the model
makes is said beside them: `httpdAppcall_buf` and `takePayload_bufs` for a payload, and for a
frame `earthNetRecv_copies` (the driver, into `uip_buf`), `handleNetRecv_copies` (the driver,
into the message) and `netRecv_copies` (the caller), which `Copied` puts together.
`recvCopies_of_step` draws the conclusion: a request whose copies leave their arrays has no step.

* `txLen_step`: a step that takes over no more than `UIP_SENDSIZE` bytes leaves no more to be
  sent again.
* `sendCopies_within`: in every run whose payloads have at most that many bytes, every copy of
  a payload stays within its array.
* `sendCopies_overrun`: one of 400 bytes leaves `uip_buf`, and one of 512 the array of the
  bridge, although the peer takes segments of no more than 100 bytes.
* `recvCopies_within_iff`: the copies of a frame stay within their arrays exactly when the frame
  is not longer than the last of them.
-/

namespace EgosNet
namespace Service

open Foundation Uip

/-! ## Copies of a payload -/

/-- The number of bytes `memcpy` copies when it is given an `int`. -/
def memcpyLength (length : ℤ) : ℕ := (length % 4294967296).toNat

theorem memcpyLength_of_nonneg {length : ℤ} (h : 0 ≤ length) (hle : length ≤ NET_BUF_SIZE) :
    memcpyLength length = length.toNat := by
  have hnet : (NET_BUF_SIZE : ℤ) = 512 := rfl
  unfold memcpyLength
  omega

/-- What fits into `uip_buf` behind the headers. -/
def UIP_SENDSIZE : ℕ := uipBufLen - (UIP_IPTCPH_LEN + UIP_LLH_LEN)

/-- The copy of `uip_send`, if the call ends in one. -/
def callCopies (h : Httpd) : Option Call → List Copy
  | none => []
  | some c =>
    if offers c.flags h ∧ 0 < h.txLen then
      [⟨uipBufLen, UIP_IPTCPH_LEN + UIP_LLH_LEN, h.txBuf.load 0 (h.txLen % 65536)⟩]
    else []

/-- The two copies of `handle_sock_send`. -/
def payloadCopies (n : Net) (txLen : ℤ) (buf : Mem) : List Copy :=
  let c : Copy := ⟨NET_BUF_SIZE, 0, buf.load 0 (memcpyLength txLen)⟩
  [c, ⟨UIP_BUFSIZE, 0, (c.into n.sock.txBuf).load 0 (memcpyLength txLen)⟩]

/-- The payload is copied when the frame is looked at, if it is sent again, and by the request
itself. -/
def sendCopies (n : Net) (i : Input) : List Copy :=
  let m := (netPoll n i.rx).1
  let resent := callCopies n.httpd (frameCall n i.rx)
  match i.request with
  | .sockAccept | .sockRecv _ _ => resent
  | .sockSend _ length buf =>
    match taken n i with
    | none => resent
    | some t =>
      resent ++ payloadCopies m (clampNetLength length) buf ++ callCopies t.httpd (kickCall t)
  | .sockClose connId =>
    if socketConnValid m.sock connId then
      resent ++ callCopies (askClose m).httpd (kickCall (askClose m))
    else resent
  | _ => []

/-- What a call writes into `uip_buf` are its copies. -/
theorem httpdAppcall_buf (i : Slot) (u : Stack) (h : Httpd) (k : Resume) :
    (httpdAppcall u h).1.buf =
      (callCopies h (some (callOf i u h k))).foldl (fun m c => c.into m) u.buf := by
  have hflags : (callOf i u h k).flags = u.flags := rfl
  rw [httpdAppcall_fst, callCopies, hflags]
  by_cases hc : h.closePending = true
  · have hoff : offers u.flags h = false := by simp [offers, hc]
    rw [if_pos hc, hoff]
    simp [uipClose]
  · rw [if_neg hc]
    cases hoff : offers u.flags h with
    | false => simp
    | true =>
      by_cases hpos : 0 < h.txLen
      · simp only [uipSend, hpos, if_true, and_self, List.foldl_cons, List.foldl_nil, Copy.into]
        split_ifs <;> rfl
      · simp [uipSend, hpos]

/-- What `handle_sock_send` writes into the two arrays are its copies. -/
theorem takePayload_bufs (n : Net) {txLen : ℤ} (buf : Mem) (h0 : 0 ≤ txLen)
    (hle : txLen ≤ NET_BUF_SIZE) :
    ∃ c c', payloadCopies n txLen buf = [c, c'] ∧
      (takePayload n txLen buf).sock.txBuf = c.into n.sock.txBuf ∧
      (takePayload n txLen buf).httpd.txBuf = c'.into n.httpd.txBuf := by
  refine ⟨_, _, rfl, ?_, ?_⟩ <;>
    · simp only [takePayload, Copy.into, memcpyLength_of_nonneg h0 hle]
      split_ifs <;> rfl

/-! ## What is there to be sent -/

theorem txLen_noted (h : Httpd) (c : Option Call) : (noted h c).txLen ≤ h.txLen := by
  cases c with
  | none => exact le_rfl
  | some c =>
    simp only [noted, note]
    split_ifs
    · exact Nat.zero_le _
    · exact le_rfl

/-- A frame adds nothing to what is to be sent. -/
theorem txLen_netPoll (n : Net) (rx : Rx) : (netPoll n rx).1.httpd.txLen ≤ n.httpd.txLen := by
  rw [netPoll_httpd]
  split_ifs
  · exact le_rfl
  · exact txLen_noted n.httpd _

/-- Nor does a kick. -/
theorem txLen_kick (n : Net) : (kickActiveConnection n).1.httpd.txLen ≤ n.httpd.txLen := by
  rw [kick_httpd]
  split_ifs
  · exact le_rfl
  · exact txLen_noted n.httpd _

/-- The payload the request brings, if it is taken over, fits into `uip_buf`. -/
def ShortSend (n : Net) (i : Input) : Prop :=
  match i.request with
  | .sockSend _ length _ => taken n i ≠ none → 0 ≤ length ∧ length ≤ UIP_SENDSIZE
  | _ => True

theorem clampNetLength_of_short {length : ℤ} (h : length ≤ UIP_SENDSIZE) :
    clampNetLength length = length := by
  have hsend : (UIP_SENDSIZE : ℤ) = 368 := rfl
  have hnet : (NET_BUF_SIZE : ℤ) = 512 := rfl
  unfold clampNetLength
  rw [if_neg (by omega)]

/-- A short payload that is taken over. -/
theorem taken_short {n t : Net} {i : Input} (h : ShortSend n i) (ht : taken n i = some t) :
    ∃ connId length buf, i.request = .sockSend connId length buf ∧ 0 ≤ length ∧
      length ≤ UIP_SENDSIZE ∧ clampNetLength length = length ∧
      t = takePayload (netPoll n i.rx).1 length buf := by
  obtain ⟨request, rx⟩ := i
  cases request with
  | sockSend connId length buf =>
    obtain ⟨h0, hle⟩ : 0 ≤ length ∧ length ≤ UIP_SENDSIZE := h (by simp [ht])
    have hclamp := clampNetLength_of_short hle
    simp only [taken] at ht
    split_ifs at ht
    obtain rfl := Option.some.inj ht
    exact ⟨connId, length, buf, rfl, h0, hle, hclamp, by rw [hclamp]⟩
  | _ => simp [taken] at ht

/-- A short payload leaves a short payload in the bridge. -/
theorem txLen_taken {n t : Net} {i : Input} (h : ShortSend n i) (ht : taken n i = some t) :
    t.httpd.txLen ≤ UIP_SENDSIZE := by
  obtain ⟨connId, length, buf, -, h0, hle, -, rfl⟩ := taken_short h ht
  rw [(takePayload_httpd _ length buf).1]
  show length.toNat ≤ UIP_SENDSIZE
  omega

/-- **A step that takes over a short payload, or none, leaves a short one.** -/
theorem txLen_step {n n' : Net} {i : Input} {o : Outcome} (hn : n.httpd.txLen ≤ UIP_SENDSIZE)
    (hC : ShortSend n i) (h : step n i = some (n', o)) : n'.httpd.txLen ≤ UIP_SENDSIZE := by
  have hp := (txLen_netPoll n i.rx).trans hn
  have hserved := served_step h
  generalize o.events = ev at hserved
  generalize payloadOf o = pay at hserved
  generalize isAccept o = acc at hserved
  cases hserved with
  | card _ hsame => rwa [hsame.2]
  | listened hsame =>
    rw [hsame.2]
    exact Nat.zero_le _
  | polled _ hsame => rwa [hsame.2]
  | accepted _ _ hsame =>
    rw [hsame.2]
    exact hp
  | sent ht hsame _ _ =>
    rw [hsame.2]
    exact (txLen_kick _).trans (txLen_taken hC ht)
  | closed _ hsame =>
    rw [hsame.2]
    exact (txLen_kick _).trans hp

/-! ## The copies of a run -/

/-- A short payload fits behind the headers. -/
theorem callCopies_within {h : Httpd} (hlen : h.txLen ≤ UIP_SENDSIZE) (c : Option Call) :
    ∀ p ∈ callCopies h c, p.Within := by
  intro p hp
  cases c with
  | none => simp [callCopies] at hp
  | some c =>
    simp only [callCopies] at hp
    split_ifs at hp
    · obtain rfl := List.mem_singleton.mp hp
      refine (Copy.within_iff _).mpr (Or.inr ?_)
      have hsend : UIP_SENDSIZE = 368 := rfl
      have hbuf : uipBufLen = 422 := rfl
      have hhdr : UIP_IPTCPH_LEN + UIP_LLH_LEN = 54 := rfl
      simp only [Mem.length_load]
      omega
    · simp at hp

/-- And into the two arrays before. -/
theorem payloadCopies_within (n : Net) {txLen : ℤ} (buf : Mem) (h0 : 0 ≤ txLen)
    (hle : txLen ≤ UIP_SENDSIZE) : ∀ p ∈ payloadCopies n txLen buf, p.Within := by
  have hsend : UIP_SENDSIZE = 368 := rfl
  have hnet : NET_BUF_SIZE = 512 := rfl
  have hbuf : UIP_BUFSIZE = 420 := rfl
  have hlen : memcpyLength txLen = txLen.toNat := memcpyLength_of_nonneg h0 (by omega)
  intro p hp
  refine (Copy.within_iff p).mpr (Or.inr ?_)
  simp only [payloadCopies, List.mem_cons, List.not_mem_nil, or_false] at hp
  rcases hp with rfl | rfl <;>
    · simp only [Mem.length_load, hlen]
      omega

/-- **The send path stays in its arrays.**  In every run in which every payload that is taken over
has at most `UIP_SENDSIZE` bytes, every copy of a payload that a further such request makes stays
within its array: the copies of `handle_sock_send` itself, and those of `uip_send`, at once or when
the payload is sent again. -/
theorem sendCopies_within {is : List Input} {os : List Outcome} {n : Net} {i : Input}
    (hrun : Run step ShortSend Net.init is os n) (hC : ShortSend n i) :
    ∀ c ∈ sendCopies n i, c.Within := by
  have hn : n.httpd.txLen ≤ UIP_SENDSIZE := by
    have h0 : Net.init.httpd.txLen ≤ UIP_SENDSIZE := Nat.zero_le _
    exact hrun.invariant (P := fun _ n => n.httpd.txLen ≤ UIP_SENDSIZE)
      (fun _ _ _ _ _ hn hC hs => txLen_step hn hC hs) h0
  have hp := (txLen_netPoll n i.rx).trans hn
  have hresent := callCopies_within hn (frameCall n i.rx)
  intro c hc
  simp only [sendCopies] at hc
  split at hc
  · exact hresent c hc
  · exact hresent c hc
  · rename_i connId length buf hreq
    split at hc
    · exact hresent c hc
    · rename_i t ht
      obtain ⟨connId', length', buf', hreq', h0, hle, hclamp, -⟩ := taken_short hC ht
      obtain ⟨rfl, rfl, rfl⟩ : connId = connId' ∧ length = length' ∧ buf = buf' := by
        simpa using hreq.symm.trans hreq'
      rw [hclamp] at hc
      rcases List.mem_append.mp hc with hc | hc
      · rcases List.mem_append.mp hc with hc | hc
        · exact hresent c hc
        · exact payloadCopies_within _ buf h0 hle c hc
      · exact callCopies_within (txLen_taken hC ht) _ c hc
  · split_ifs at hc
    · rcases List.mem_append.mp hc with hc | hc
      · exact hresent c hc
      · exact callCopies_within (h := (askClose (netPoll n i.rx).1).httpd) hp _ c hc
    · exact hresent c hc
  · simp at hc

/-! ## A payload that fits, and two that do not -/

/-- A client that takes segments of at most 100 bytes is accepted. -/
def smallSegments : List Input := listen80 :: connect 1000 100

/-- The service sends `length` bytes to it. -/
def sendTo (length : ℤ) : Input := Request.alone (.sockSend 1 length (payload []))

instance (n : Net) (i : Input) : Decidable (ShortSend n i) :=
  match i with
  | ⟨.sockSend connId length buf, rx⟩ =>
    inferInstanceAs (Decidable (taken n ⟨.sockSend connId length buf, rx⟩ ≠ none →
      0 ≤ length ∧ length ≤ UIP_SENDSIZE))
  | ⟨.netSend _ _, _⟩ | ⟨.netRecv, _⟩ | ⟨.sockListen _, _⟩ | ⟨.sockAccept, _⟩ | ⟨.sockRecv _ _, _⟩
  | ⟨.sockClose _, _⟩ => .isTrue trivial

/-- The longest payload that fits is copied three times. -/
theorem sendCopies_within_longest :
    ∃ os n, Run step ShortSend Net.init smallSegments os n ∧
      ((sendCopies n (sendTo 368)).map fun c => (c.size, c.offset, c.data.length)) =
        [(512, 0, 368), (420, 0, 368), (422, 54, 368)] ∧
      ∀ c ∈ sendCopies n (sendTo 368), c.Within := by
  have hexec : ((exec (guarded step ShortSend) Net.init smallSegments).map fun r =>
      (decide (ShortSend r.1 (sendTo 368)),
        (sendCopies r.1 (sendTo 368)).map fun c => (c.size, c.offset, c.data.length))) =
      some (true, [(512, 0, 368), (420, 0, 368), (422, 54, 368)]) := by decide +kernel
  obtain ⟨⟨n, os⟩, hr, hval⟩ := Option.map_eq_some_iff.mp hexec
  obtain ⟨hshort, hcopies⟩ := Prod.mk.inj hval
  have hrun := run_of_exec_guarded hr
  exact ⟨os, n, hrun, hcopies, sendCopies_within hrun (of_decide_eq_true hshort)⟩

/-- **Two payloads that do not fit**, both of a length that `sock_send` admits: of 400 bytes the
last copy leaves `uip_buf`, and of 512 bytes the second already leaves the array of the bridge. -/
theorem sendCopies_overrun :
    ∃ os n, Run step Free Net.init smallSegments os n ∧
      (sendCopies n (sendTo 400)).map (fun c => decide c.Within) = [true, true, false] ∧
      (sendCopies n (sendTo 512)).map (fun c => decide c.Within) = [true, false, false] ∧
      ¬ (∀ c ∈ sendCopies n (sendTo 400), c.Within) ∧
      ¬ ∀ c ∈ sendCopies n (sendTo 512), c.Within := by
  have hexec : ((exec step Net.init smallSegments).map fun r =>
      ((sendCopies r.1 (sendTo 400)).map (fun c => decide c.Within),
        (sendCopies r.1 (sendTo 512)).map fun c => decide c.Within)) =
      some ([true, true, false], [true, false, false]) := by decide +kernel
  obtain ⟨⟨n, os⟩, hr, hval⟩ := Option.map_eq_some_iff.mp hexec
  obtain ⟨h400, h512⟩ := Prod.mk.inj hval
  have hnot {cs : List Copy} (h : false ∈ cs.map fun c => decide c.Within) :
      ¬ ∀ c ∈ cs, c.Within := by
    intro hall
    obtain ⟨c, hc, hfalse⟩ := List.mem_map.mp h
    exact of_decide_eq_false hfalse (hall c hc)
  refine ⟨os, n, run_of_exec hr, h400, h512, hnot ?_, hnot ?_⟩
  · rw [h400]
    simp
  · rw [h512]
    simp

/-! ## Copies of a frame -/

/-- The copy of `net_recv` of the driver into an array of `size` bytes.  Its `ASSERT` comes before
the copy; what it is given of the array is the address. -/
def driverCopies (size : ℕ) (rx : Rx) : List Copy :=
  if rx.frame.length ≤ E1000_RX_BUF_SIZE then [⟨size, 0, rx.frame⟩] else []

/-- `net_recv` of `library/syscall/servers.c`: what it returns, and the packet of the caller. -/
def netRecv (packet : Mem) (reply : Reply) : ℤ × Mem :=
  if reply.status ≠ .ok then (-1, packet)
  else
    (reply.length,
      if 0 < reply.length then packet.store 0 (reply.buf.take reply.length.toNat) else packet)

/-- Its copy into a packet of `packetSize` bytes. -/
def netRecvCopies (packetSize : ℕ) (reply : Reply) : List Copy :=
  if reply.status = .ok ∧ 0 < reply.length then
    [⟨packetSize, 0, reply.buf.take reply.length.toNat⟩]
  else []

/-- The frame is copied by the driver, into `uip_buf` or into a message, and if it goes into a
message, by the caller of the service, whose packet has `packetSize` bytes. -/
def recvCopies (n : Net) (i : Input) (packetSize : ℕ) : List Copy :=
  match i.request with
  | .netRecv => driverCopies NET_BUF_SIZE i.rx ++ netRecvCopies packetSize (handle n i).2.2
  | r => if polling r then driverCopies uipBufLen i.rx else []

/-- A frame stays within an array exactly when it is not longer. -/
theorem within_frame (size : ℕ) (frame : List UInt8) :
    (⟨size, 0, frame⟩ : Copy).Within ↔ frame.length ≤ size := by
  rw [Copy.within_iff]
  constructor
  · rintro (hnil | hle)
    · have hframe : frame = [] := hnil
      simp [hframe]
    · simpa using hle
  · intro hle
    exact Or.inr (by simpa using hle)

theorem driverCopies_within {size : ℕ} {rx : Rx} (h : rx.frame.length ≤ E1000_RX_BUF_SIZE) :
    (∀ c ∈ driverCopies size rx, c.Within) ↔ rx.frame.length ≤ size := by
  rw [driverCopies, if_pos h, List.forall_mem_singleton, within_frame]

section Links

variable {n n' : Net} {u : Stack} {i : Input} {rx : Rx} {o : Outcome}

/-- **What the driver writes into `uip_buf` is its copy**, and it goes wrong exactly where the copy
leaves the array. -/
theorem earthNetRecv_copies (h : rx.frame.length ≤ E1000_RX_BUF_SIZE) :
    (∀ a < uipBufLen, (earthNetRecv u rx).buf a =
      (driverCopies uipBufLen rx).foldl (fun m c => c.into m) u.buf a) ∧
    ((earthNetRecv u rx).fault = none ↔
      u.fault = none ∧ ∀ c ∈ driverCopies uipBufLen rx, c.Within) := by
  have hcopies : driverCopies uipBufLen rx = [⟨uipBufLen, 0, rx.frame⟩] := if_pos h
  constructor
  · intro a ha
    rw [hcopies]
    simp only [earthNetRecv, if_pos ha, List.foldl_cons, List.foldl_nil, Copy.into, if_pos h]
    split_ifs <;> rfl
  · rw [driverCopies_within h]
    simp only [earthNetRecv, if_pos h]
    split_ifs with hfits
    · exact ⟨fun hu => ⟨hu, hfits⟩, And.left⟩
    · refine iff_of_false ?_ fun hboth => hfits hboth.2
      cases hu : u.fault <;> simp [Stack.raise, hu]

/-- **What it writes into the message**, likewise: the reply is read off the message, and whatever
the message held before is gone as far as the frame reaches. -/
theorem handleNetRecv_copies (h : rx.frame.length ≤ E1000_RX_BUF_SIZE) (message : Mem) :
    (handleNetRecv n rx).2.2.buf =
      ((driverCopies NET_BUF_SIZE rx).foldl (fun m c => c.into m) message).load 0
        (handleNetRecv n rx).2.2.length.toNat ∧
    ((handleNetRecv n rx).1.uip.fault = none ↔
      n.uip.fault = none ∧ ∀ c ∈ driverCopies NET_BUF_SIZE rx, c.Within) := by
  have hcopies : driverCopies NET_BUF_SIZE rx = [⟨NET_BUF_SIZE, 0, rx.frame⟩] := if_pos h
  constructor
  · rw [hcopies]
    exact (Mem.load_store message 0 rx.frame).symm
  · rw [driverCopies_within h]
    simp only [handleNetRecv]
    split_ifs with hfits
    · exact ⟨fun hn => ⟨hn, hfits⟩, And.left⟩
    · refine iff_of_false ?_ fun hboth => hfits hboth.2
      cases hn : n.uip.fault <;> simp [Net.raise, Stack.raise, hn]

/-- **What the caller writes into its packet is its copy.** -/
theorem netRecv_copies (packetSize : ℕ) (packet : Mem) (reply : Reply) :
    (netRecv packet reply).2 =
      (netRecvCopies packetSize reply).foldl (fun m c => c.into m) packet := by
  unfold netRecv netRecvCopies
  by_cases hok : reply.status = .ok
  · by_cases hpos : 0 < reply.length <;> simp [hok, hpos, Copy.into]
  · simp [hok]

/-- **A request that is served has copied the frame within its arrays.**  Where a copy leaves its
array, `step` says `none`. -/
theorem recvCopies_of_step (h : step n i = some (n', o))
    (hframe : i.rx.frame.length ≤ E1000_RX_BUF_SIZE) :
    ∀ c ∈ recvCopies n i NET_BUF_SIZE, c.Within := by
  obtain ⟨hh, -, hfault⟩ := step_spec h
  have hpolled (hp : polling i.request = true) : ∀ c ∈ driverCopies uipBufLen i.rx, c.Within := by
    have hpoll : (netPoll n i.rx).1.uip.fault = none := fault_handle hp (by rw [hh]; exact hfault)
    by_cases hnil : i.rx.frame = []
    · rw [driverCopies_within hframe, hnil]
      exact Nat.zero_le _
    · exact ((earthNetRecv_copies hframe).2.mp (fault_netPoll hnil hpoll)).2
  obtain ⟨request, rx⟩ := i
  cases request with
  | netRecv =>
    have hmessage : (handleNetRecv n rx).1.uip.fault = none := by
      rw [show handleNetRecv n rx = (n', o.events, o.reply) from hh]
      exact hfault
    have hwithin := ((handleNetRecv_copies hframe fun _ => 0).2.mp hmessage).2
    intro c hc
    rcases List.mem_append.mp hc with hc | hc
    · exact hwithin c hc
    · -- the caller copies the same bytes into an array of the same size
      have hfits := (driverCopies_within hframe).mp hwithin
      simp only [netRecvCopies, handle, handleNetRecv] at hc
      split_ifs at hc
      · obtain rfl := List.mem_singleton.mp hc
        rw [within_frame, Int.toNat_natCast, List.take_length]
        exact hfits
      · simp at hc
  | netSend length buf => simp [recvCopies, polling]
  | sockListen port => simp [recvCopies, polling]
  | sockAccept => exact hpolled rfl
  | sockRecv connId length => exact hpolled rfl
  | sockSend connId length buf => exact hpolled rfl
  | sockClose connId => exact hpolled rfl

end Links

/-- The caller copies as much as the driver did. -/
theorem netRecvCopies_within_iff (n : Net) (rx : Rx) (packetSize : ℕ) :
    (∀ c ∈ netRecvCopies packetSize (handle n ⟨.netRecv, rx⟩).2.2, c.Within) ↔
      rx.frame.length ≤ packetSize := by
  have hreply : (handle n ⟨.netRecv, rx⟩).2.2 =
      ⟨.ok, NET_CONN_NONE, rx.frame.length, rx.frame⟩ := rfl
  rw [hreply, netRecvCopies]
  by_cases hpos : 0 < rx.frame.length
  · simp [hpos, within_frame]
  · have hzero : rx.frame.length = 0 := by omega
    simp [hzero]

/-- **These are the copies of the receive path**: a request of the sockets that polls leaves in
`uip_buf` what they leave there; and for `NET_RECV` the first of them make the bytes of the reply,
and the others what the caller finds in its packet. -/
structure Copied (n : Net) (i : Input) (cs : List Copy) : Prop where
  polled : polling i.request = true → ∀ a < uipBufLen,
    (earthNetRecv n.uip i.rx).buf a = cs.foldl (fun m (c : Copy) => c.into m) n.uip.buf a
  received : i.request = .netRecv → ∃ driver caller : List Copy, cs = driver ++ caller ∧
    (∀ message, (handle n i).2.2.buf = (driver.foldl (fun m (c : Copy) => c.into m) message).load 0
      (handle n i).2.2.length.toNat) ∧
    ∀ packet, (netRecv packet (handle n i).2.2).2 = caller.foldl (fun m (c : Copy) => c.into m) packet

theorem copied_recvCopies (n : Net) (i : Input) (packetSize : ℕ)
    (hframe : i.rx.frame.length ≤ E1000_RX_BUF_SIZE) : Copied n i (recvCopies n i packetSize) := by
  obtain ⟨request, rx⟩ := i
  constructor
  · intro hp a ha
    have hcopies : recvCopies n ⟨request, rx⟩ packetSize = driverCopies uipBufLen rx := by
      cases request with
      | netSend _ _ | netRecv | sockListen _ => simp [polling] at hp
      | _ => rfl
    rw [hcopies]
    exact (earthNetRecv_copies hframe).1 a ha
  · rintro rfl
    exact ⟨_, _, rfl, fun message => (handleNetRecv_copies hframe message).1,
      fun packet => netRecv_copies packetSize packet _⟩

/-- **The receive path stays in its arrays exactly when the frame fits**: into `uip_buf` if the
request is one of the sockets that poll, and into the packet of the caller if it is `NET_RECV`. -/
theorem recvCopies_within_iff (n : Net) (i : Input) {packetSize : ℕ}
    (hframe : i.rx.frame.length ≤ E1000_RX_BUF_SIZE) (hpacket : packetSize ≤ NET_BUF_SIZE) :
    Copied n i (recvCopies n i packetSize) ∧
      ((∀ c ∈ recvCopies n i packetSize, c.Within) ↔
        (polling i.request = true → i.rx.frame.length ≤ uipBufLen) ∧
          (i.request = .netRecv → i.rx.frame.length ≤ packetSize)) := by
  refine ⟨copied_recvCopies n i packetSize hframe, ?_⟩
  obtain ⟨request, rx⟩ := i
  have hdriver (size : ℕ) : (∀ c ∈ driverCopies size rx, c.Within) ↔ rx.frame.length ≤ size :=
    driverCopies_within hframe
  cases request with
  | netRecv =>
    simp only [recvCopies, List.forall_mem_append, hdriver, netRecvCopies_within_iff, polling,
      Bool.false_eq_true, false_implies, true_implies, true_and]
    exact ⟨fun h => h.2, fun h => ⟨le_trans h hpacket, h⟩⟩
  | netSend length buf => simp [recvCopies, polling]
  | sockListen port => simp [recvCopies, polling]
  | sockAccept => simp [recvCopies, polling, hdriver]
  | sockRecv connId length => simp [recvCopies, polling, hdriver]
  | sockSend connId length buf => simp [recvCopies, polling, hdriver]
  | sockClose connId => simp [recvCopies, polling, hdriver]

/-- A frame of `length` zeros. -/
def zeros (length : ℕ) : Rx := { frame := List.replicate length 0 }

/-- The longest frame a caller of `net_recv` can have, received twice. -/
theorem recvCopies_within_longest :
    (recvCopies Net.init ⟨.netRecv, zeros 512⟩ 512).length = 2 ∧
      ∀ c ∈ recvCopies Net.init ⟨.netRecv, zeros 512⟩ 512, c.Within := by
  have hlen : (zeros 512).frame.length = 512 := List.length_replicate
  refine ⟨by decide +kernel, (recvCopies_within_iff Net.init _ ?_ (le_refl 512)).2.mpr ?_⟩
  · show (zeros 512).frame.length ≤ E1000_RX_BUF_SIZE
    rw [hlen]
    decide
  · exact ⟨fun h => absurd h (by simp [polling]), fun _ => hlen.le⟩

/-- **Two frames that do not fit**, both such as the driver returns: of 423 bytes for a request of
the sockets, and of 513 bytes for `NET_RECV`. -/
theorem recvCopies_overrun :
    (zeros 423).frame.length ≤ E1000_RX_BUF_SIZE ∧ (zeros 513).frame.length ≤ E1000_RX_BUF_SIZE ∧
      ¬ (∀ c ∈ recvCopies Net.init ⟨.sockAccept, zeros 423⟩ 512, c.Within) ∧
      ¬ ∀ c ∈ recvCopies Net.init ⟨.netRecv, zeros 513⟩ 512, c.Within := by
  decide +kernel

end Service
end EgosNet
