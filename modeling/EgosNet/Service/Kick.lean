import EgosNet.Service.Buffers
import EgosNet.Service.Isolation
import EgosNet.Service.WireFormat

/-!
# Which connection a send reaches

After `handle_sock_send` has taken a payload over, `kick_active_connection` polls a
connection so that uIP asks for the data at once.  It polls the first slot of the
table that is not closed and has the listening port, and no other.

`send_reaches_iff` says when that does what it is for: exactly when no slot before
the connection is in use on the same port, and the payload has at most
`UIP_SENDSIZE` bytes, as a longer one is copied beyond `uip_buf` or before that
beyond the array of the bridge.  Then the data goes out before the reply --- as a
segment, or as the ARP request that stands in for it.  The program frees slots only
at the end of a handshake of closing, so slots of earlier clients stay in use;
`send_misses` is a run in which a client that never finished its handshake is
polled in place of the accepted one.
-/

namespace EgosNet
namespace Service

open Foundation Uip

/-- No slot before `a` is in use on the listening port, which is the port of `a`. -/
def FirstOnPort (n : Net) (a : Slot) : Prop :=
  (n.uip.conns a).lport = HTONS n.sock.listenPort ∧
    ∀ j, j < a → (n.uip.conns j).tcpstateflags = .closed ∨
      (n.uip.conns j).lport ≠ HTONS n.sock.listenPort

instance (n : Net) (a : Slot) : Decidable (FirstOnPort n a) :=
  inferInstanceAs (Decidable (_ ∧ _))

/-- The first index with a property. -/
theorem find?_finRange_eq_some {m : ℕ} {p : Fin m → Bool} {a : Fin m} :
    (List.finRange m).find? p = some a ↔ p a = true ∧ ∀ j, j < a → p j = false := by
  rw [List.find?_eq_some_iff_getElem]
  constructor
  · rintro ⟨hp, k, hk, rfl, hbefore⟩
    refine ⟨hp, fun j hj => ?_⟩
    have hjk : (j : ℕ) < k := by simpa using Fin.lt_def.mp hj
    simpa using hbefore j hjk
  · rintro ⟨hp, hbefore⟩
    refine ⟨hp, a, by simp, by simp, fun j hj => ?_⟩
    have hj' : (⟨j, hj.trans a.isLt⟩ : Fin m) < a := Fin.lt_def.mpr hj
    simpa using hbefore _ hj'

/-- The slot that is polled. -/
theorem activeSlot_eq_some {n : Net} {a : Slot} :
    activeSlot n = some a ↔ (n.uip.conns a).tcpstateflags ≠ .closed ∧ FirstOnPort n a := by
  rw [activeSlot, find?_finRange_eq_some]
  simp only [decide_eq_true_eq, decide_eq_false_iff_not, FirstOnPort, not_and_or, not_not]
  tauto

/-! ## Frames -/

/-- An Ethernet frame with an IP packet whose data, after headers of the usual
length, is `data`. -/
def CarriesData (frame data : List UInt8) : Prop :=
  frame.length = 54 + data.length ∧ frame.drop 54 = data ∧
    (frame.drop 12).take 2 = (HTONS UIP_ETHTYPE_IP).toBytes

/-- **What is handed to the card for a packet with data**: the packet in its frame, or
the question for the next hop.  Nothing goes wrong. -/
theorem sendPacket_data {n : Net} {k : ℕ} {data : List UInt8}
    (hlen : n.uip.len = k + UIP_IPTCPH_LEN) (hk : k ≤ NET_BUF_SIZE)
    (hdata : n.uip.buf.load 54 k = data) :
    (sendPacket n).1.uip.fault = n.uip.fault ∧
      ∃ frame, (sendPacket n).2 = [.netSend frame] ∧
        (CarriesData frame data ∨
          IsArpRequest (hopFor (word32 n.uip.buf Hdr.destipaddr)) frame) := by
  have hk' : k ≤ 512 := hk
  have hlen' : n.uip.len = k + 40 := hlen
  have hpos : 0 < n.uip.len := by omega
  have hsend : ∀ u : Stack, uipArpOut n.uip n.arp = u → 0 < u.len → u.len ≤ 2048 →
      (sendPacket n).1.uip.fault = n.uip.fault ∧
        (sendPacket n).2 = [.netSend (u.buf.load 0 u.len)] := by
    rintro u rfl h0 h1
    have hrange : (0 : ℤ) < (uipArpOut n.uip n.arp).len ∧
        ((uipArpOut n.uip n.arp).len : ℤ) ≤ E1000_TX_BUF_SIZE := by
      refine ⟨by exact_mod_cast h0, ?_⟩
      exact_mod_cast h1
    simp only [sendPacket, hpos, if_true, earthNetSend, hrange, and_self, Int.toNat_natCast]
    exact ⟨(uipArpOut_frame n.uip n.arp).2.2.2, trivial⟩
  rcases uipArpOut_cases n.uip n.arp with ⟨dest, hout, -⟩ | ⟨hout, -⟩
  · have hl : (ethHeader n.uip dest).len = k + 54 := by
      change (n.uip.len + 14) % 65536 = k + 54
      rw [hlen']
      omega
    obtain ⟨hfault, hev⟩ := hsend _ hout (by omega) (by omega)
    refine ⟨hfault, _, hev, Or.inl ⟨?_, ?_, ?_⟩⟩
    · rw [Mem.length_load, hl, ← hdata, Mem.length_load]
      omega
    · rw [Mem.load_drop, hl, Nat.add_sub_cancel, ← hdata]
      refine Mem.load_congr fun j _ => ?_
      rw [Nat.zero_add, ethHeader_buf_of_ge _ _ (by omega)]
    · rw [Mem.load_drop, Mem.load_take _ _ (by omega)]
      exact ethHeader_type _ _
  · have hl : (arpRequest n.uip (nextHop n.uip)).len = 42 := rfl
    obtain ⟨hfault, hev⟩ := hsend _ hout (by omega) (by omega)
    exact ⟨hfault, _, hev, Or.inr (arpRequest_frame n.uip (nextHop n.uip))⟩

/-! ## The poll -/

theorem polls_netPoll (n : Net) (rx : Rx) : polls (netPoll n rx).2 = [] := by
  rcases netPoll_cases n rx with ⟨-, -, -, hev⟩ | ⟨-, -, n', -, -, hev⟩ | ⟨-, v, -, -, heq⟩
  · rw [hev]
    rfl
  · exact hev.polls
  · rw [heq]
    exact polls_process _ v

/-- The last things to happen are that connection `a` is polled, that uIP answers
with a segment carrying `data`, and that a frame goes out for it, which if it is not
the segment asks for the next hop on the way to `ripaddr`; and no other connection
is polled. -/
structure Reaches (ev : List Event) (a : Slot) (ripaddr : Word32) (data : List UInt8) :
    Prop where
  polled : polls ev = [a]
  sent : ∃ before c seg frame,
    ev = before ++ [.polled a, .call c, .segment a seg, .netSend frame] ∧ seg.data = data ∧
      (CarriesData frame data ∨ IsArpRequest (hopFor ripaddr) frame)

/-- What goes out after a call is addressed to the peer of the connection. -/
theorem appsend_destipaddr {u : Stack} {i : Slot} (h : 0 < (appsend u i).len) :
    word32 (appsend u i).buf Hdr.destipaddr = (u.conns i).ripaddr := by
  have hsent (v : Stack) (c : UipConn) (hc : v.conns i = c)
      (hip : c.ripaddr = (u.conns i).ripaddr) :
      word32 (tcpSend v i).buf Hdr.destipaddr = (u.conns i).ripaddr := by
    rw [(tcpSend_fields v i).2.2.1, hc, hip]
  unfold appsend at h ⊢
  split_ifs at h ⊢
  · exact hsent _ _ (Stack.setConn_conns_self u i _) rfl
  · exact hsent _ _ (Stack.setConn_conns_self u i _) rfl
  · obtain ⟨n, -, hholds⟩ := takeData_holds u i
    have hself := Stack.setConn_conns_self (takeData u i) i { (takeData u i).conns i with nrtx := 0 }
    have hip : ((takeData u i).conns i).ripaddr = (u.conns i).ripaddr := by rw [hholds.self]
    simp only [apprexmit] at h ⊢
    split_ifs at h ⊢
    · exact hsent _ _ hself hip
    · exact hsent _ _ hself hip
    · exact absurd h (lt_irrefl _)

/-- When `uip_send` copies within `uip_buf`. -/
theorem uipSend_fault_iff {u : Stack} {data : Mem} {len : ℕ} (hlen : len ≤ NET_BUF_SIZE) :
    (uipSend u data len).fault = none ↔ u.fault = none ∧ len ≤ UIP_SENDSIZE := by
  have hnet : NET_BUF_SIZE = 512 := rfl
  have hbuf : uipBufLen = 422 := rfl
  have hsend : UIP_SENDSIZE = 368 := rfl
  have hhdr : UIP_IPTCPH_LEN + UIP_LLH_LEN = 54 := rfl
  have hmod : len % 65536 = len := Nat.mod_eq_of_lt (by omega)
  simp only [uipSend, hmod]
  split_ifs with hpos hfits
  · exact ⟨fun h => ⟨h, by omega⟩, And.left⟩
  · refine iff_of_false ?_ fun h => hfits (by omega)
    show ¬ (u.raise .overrun).fault = none
    cases hu : u.fault <;> simp [Stack.raise, hu]
  · exact ⟨fun h => ⟨h, by omega⟩, And.left⟩

/-- A poll that reaches the application has done no harm on the way. -/
theorem uipProcessPoll_fault {u u' : Stack} {i : Slot} {k : Resume}
    (h : uipProcessPoll u i = .appcall i u' k) : u'.fault = u.fault := by
  simp only [uipProcessPoll] at h
  split_ifs at h
  cases h
  rfl

/-- **A poll of a connection that is ready sends what is pending.**  It goes well if
what is pending fits behind the headers. -/
theorem process_poll {n : Net} {a : Slot} (hclose : n.httpd.closePending = false)
    (htx : n.httpd.txPending = true) (hpos : 0 < n.httpd.txLen)
    (hle : n.httpd.txLen ≤ NET_BUF_SIZE) (hest : (n.uip.conns a).tcpstateflags = .established)
    (hlen : (n.uip.conns a).len = 0) (hmss : 0 < (n.uip.conns a).mss) :
    ((process n (uipProcessPoll n.uip a)).1.uip.fault = none ↔
        n.uip.fault = none ∧ n.httpd.txLen ≤ UIP_SENDSIZE) ∧
      ∃ c seg frame, (process n (uipProcessPoll n.uip a)).2 =
          [.call c, .segment a seg, .netSend frame] ∧
        seg.data = n.httpd.txBuf.load 0 (min n.httpd.txLen (n.uip.conns a).mss) ∧
        (CarriesData frame seg.data ∨
          IsArpRequest (hopFor (n.uip.conns a).ripaddr) frame) := by
  rcases uipProcessPoll_cases n.uip a with ⟨u', hu, -⟩ | ⟨u', hu, hc, -, hf, -⟩
  · simp [uipProcessPoll, hest, hlen] at hu
  · have hfault : u'.fault = n.uip.fault :=
      uipProcessPoll_fault hu
    have hoff : offers u'.flags n.httpd = true := by simp [offers, hclose, htx, hf]
    rw [← hc] at hlen hmss ⊢
    obtain ⟨hleaves, hplen, hpbuf⟩ := complete_appsend_fresh hclose (by rw [hf]) (by rw [hf])
      hoff hpos hle hlen hmss
    set r := complete n.httpd (.appcall a u' .appsend) with hr
    set k := min n.httpd.txLen (u'.conns a).mss with hk
    have hpacket : 0 < r.1.1.len := by
      rw [hplen]
      exact Nat.succ_pos _
    obtain ⟨hsound, frame, hframe, hkind⟩ := sendPacket_data
      (n := { n with uip := r.1.1, httpd := r.1.2 }) hplen ((Nat.min_le_left _ _).trans hle) hpbuf
    -- the stack the packet goes out from, and its fault
    have hsend : (httpdAppcall u' n.httpd).1 = uipSend u' n.httpd.txBuf n.httpd.txLen := by
      rw [httpdAppcall_fst, if_neg (by simp [hclose]), if_pos hoff]
    have hconns : (httpdAppcall u' n.httpd).1.conns = u'.conns := (httpdAppcall_conns u' n.httpd).1
    have hdest : word32 r.1.1.buf Hdr.destipaddr = (u'.conns a).ripaddr := by
      rw [← hconns]
      exact appsend_destipaddr hpacket
    have hrfault : r.1.1.fault = (uipSend u' n.httpd.txBuf n.httpd.txLen).fault := by
      rw [← hsend]
      exact appsend_fault _ a
    have hev : r.2 = [.call (callOf a u' n.httpd .appsend), .segment a (segmentOf r.1.1)] :=
      congrArg (_ :: ·) (segments_of_pos (i := a) hpacket)
    have hdata : (segmentOf r.1.1).data = n.httpd.txBuf.load 0 k := by
      have hem := hleaves.emitted
      rw [hev] at hem
      have hseg : segmentOf r.1.1 = _ := congrArg Prod.snd (List.singleton_inj.mp hem)
      rw [hseg]
    refine ⟨?_, callOf a u' n.httpd .appsend, segmentOf r.1.1, frame, ?_, hdata, ?_⟩
    · have hprocess : (process n (uipProcessPoll n.uip a)).1.uip.fault = r.1.1.fault := by
        rw [hu]
        exact hsound
      rw [hprocess, hrfault, uipSend_fault_iff hle, hfault]
    · simp only [process, hu, ← hr, hframe, hev]
      rfl
    · rw [hdata, ← hdest]
      exact hkind

/-- The conditions under which the accepted connection should be reached. -/
def ReadyToSend (n : Net) (a : Slot) : Prop :=
  (n.uip.conns a).tcpstateflags = .established ∧ 0 < (n.uip.conns a).mss ∧
    (n.uip.conns a).len = 0 ∧ n.httpd.closePending = false

instance (n : Net) (a : Slot) : Decidable (ReadyToSend n a) :=
  inferInstanceAs (Decidable (_ ∧ _))

/-- What `handle_sock_send` has done when it answers `NET_OK`. -/
theorem sockSend_ok {n n' : Net} {connId length : ℤ} {buf : Mem} {rx : Rx} {ev : List Event}
    {reply : Reply} (h : handle n ⟨.sockSend connId length buf, rx⟩ = (n', ev, reply))
    (hok : reply.status = .ok) :
    0 ≤ (netPoll n rx).1.sock.listenPort ∧
      n' = (kickActiveConnection
        (takePayload (netPoll n rx).1 (clampNetLength length) buf)).1 ∧
      ev = (netPoll n rx).2 ++
        (kickActiveConnection (takePayload (netPoll n rx).1 (clampNetLength length) buf)).2 := by
  rcases handle_sockSend_cases n connId length buf rx with ⟨r, hr, heq⟩ | ⟨t, ht, -, hport, heq⟩
  · obtain ⟨-, -, hrep⟩ : _ ∧ _ ∧ r = reply := by simpa [heq] using h
    exact absurd (hrep ▸ hok) hr
  · obtain ⟨hn', hev, -⟩ : _ = n' ∧ _ = ev ∧ _ = reply := by
      simpa only [heq, Prod.mk.injEq] using h
    rw [← hn', ← hev, ht]
    exact ⟨hport, rfl, rfl⟩

/-- **Where a send goes.**  When `sock_send` answers `NET_OK` for a payload of any
length, and the connection in slot `a` is in use and ready to send, then no copy
leaves its array, that connection is polled and the payload goes out on it, exactly
when the frame taken before has done no harm, the connection is the first one on the
port, and the payload fits behind the headers.  This is so in every state and for
every slot, so it is in every state of a run, and for the connection that was accepted
last. -/
theorem send_reaches_iff {n n' : Net} {a : Slot} {connId length : ℤ} {buf : Mem} {rx : Rx}
    {ev : List Event} {reply : Reply}
    (hsend : handle n ⟨.sockSend connId length buf, rx⟩ = (n', ev, reply))
    (hok : reply.status = .ok) (hpos : 0 < length) (hready : ReadyToSend (netPoll n rx).1 a) :
    n'.uip.fault = none ∧ Reaches ev a ((netPoll n rx).1.uip.conns a).ripaddr
        (buf.load 0 (min length.toNat ((netPoll n rx).1.uip.conns a).mss)) ↔
      (netPoll n rx).1.uip.fault = none ∧ FirstOnPort (netPoll n rx).1 a ∧
        length ≤ UIP_SENDSIZE := by
  have hsize : (UIP_SENDSIZE : ℤ) = 368 := rfl
  have hbuf : (UIP_BUFSIZE : ℤ) = 420 := rfl
  obtain ⟨hest, hmss, hlen, hclose⟩ := hready
  obtain ⟨hport, rfl, rfl⟩ := sockSend_ok hsend hok
  set m := (netPoll n rx).1 with hm
  set t := takePayload m (clampNetLength length) buf with ht
  obtain ⟨hthttpd, htbuf⟩ := takePayload_httpd m (clampNetLength length) buf
  obtain ⟨htconns, -⟩ := takePayload_uip m (clampNetLength length) buf
  have htsock := takePayload_sock m (clampNetLength length) buf
  rw [← ht] at hthttpd htbuf htconns htsock
  have htport : t.sock.listenPort = m.sock.listenPort := by rw [htsock]
  have hfirst : FirstOnPort t a ↔ FirstOnPort m a := by
    simp only [FirstOnPort, htconns, htport]
  have hnotneg : ¬ t.sock.listenPort < 0 := by omega
  have hactive : activeSlot t = some a ↔ FirstOnPort m a := by
    rw [activeSlot_eq_some, hfirst, htconns, hest]
    simp
  have htlen : t.httpd.txLen = (clampNetLength length).toNat := by rw [hthttpd]
  have htle : t.httpd.txLen ≤ NET_BUF_SIZE := htlen ▸ clampNetLength_le length
  have htpos : 0 < t.httpd.txLen := by
    have hnet : (NET_BUF_SIZE : ℤ) = 512 := rfl
    rw [htlen]
    unfold clampNetLength
    split_ifs <;> omega
  -- the poll of `a`, if it is the one that is polled
  have hpoll (hlength : length ≤ UIP_BUFSIZE) := process_poll (n := t) (a := a)
    (by rw [hthttpd]; exact hclose) (by rw [hthttpd])
    htpos htle (by rw [htconns]; exact hest)
    (by rw [htconns]; exact hlen) (by rw [htconns]; exact hmss)
  constructor
  · rintro ⟨hfault, hpolls, -⟩
    have htfault : t.uip.fault = none := fault_kick hfault
    have hlength : length ≤ UIP_BUFSIZE := by
      have hfits := le_of_fault_takePayload (ht ▸ htfault)
      exact clampNetLength_of_le hfits ▸ hfits
    have hclamp : clampNetLength length = length := by
      have hnet : (NET_BUF_SIZE : ℤ) = 512 := rfl
      unfold clampNetLength
      rw [if_neg (by omega)]
    rw [polls_append, polls_netPoll, List.nil_append] at hpolls
    rcases kick_cases t with ⟨hneg, -⟩ | ⟨-, -, heq⟩ | ⟨-, i, hi, -, heq⟩
    · exact absurd hneg hnotneg
    · rw [heq] at hpolls
      simp at hpolls
    · rw [heq] at hpolls hfault
      have hcons : polls (.polled i :: (process t (uipProcessPoll t.uip i)).2) =
          i :: polls (process t (uipProcessPoll t.uip i)).2 := rfl
      rw [hcons, polls_process] at hpolls
      obtain rfl : i = a := by simpa using hpolls
      rw [syncSocketState_uip] at hfault
      have hfits := ((hpoll hlength).1.mp hfault).2
      rw [htlen, hclamp] at hfits
      exact ⟨fault_takePayload (ht ▸ htfault), hactive.mp hi, by omega⟩
  · rintro ⟨hmfault, hf, hfits⟩
    have hlength : length ≤ UIP_BUFSIZE := by omega
    have hclamp := clampNetLength_of_short hfits
    have htfault : t.uip.fault = none := by
      rw [ht, hclamp]
      simp only [takePayload]
      rw [if_pos ⟨by omega, hlength⟩]
      exact hmfault
    have hi := hactive.mpr hf
    rcases kick_cases t with ⟨hneg, -⟩ | ⟨-, hv, -⟩ | ⟨-, i, hi', -, heq⟩
    · exact absurd hneg hnotneg
    · simp [kickVerdict, hnotneg, hi] at hv
    · obtain rfl : i = a := Option.some.inj (hi'.symm.trans hi)
      rw [hclamp] at htlen
      have hload : t.httpd.txBuf.load 0 (min length.toNat (m.uip.conns i).mss) =
          buf.load 0 (min length.toNat (m.uip.conns i).mss) := by
        rw [hclamp] at htbuf
        have htake := congrArg (List.take (min length.toNat (m.uip.conns i).mss)) htbuf
        rwa [Mem.load_take _ _ (Nat.min_le_left _ _), Mem.load_take _ _ (Nat.min_le_left _ _)]
          at htake
      obtain ⟨hsound, c, seg, frame, hproc, hdata, hkind⟩ := hpoll hlength
      rw [htlen, htconns, hload] at hdata
      rw [htconns, hdata] at hkind
      have hevents : (netPoll n rx).2 ++ (kickActiveConnection t).2 =
          (netPoll n rx).2 ++ [.polled i, .call c, .segment i seg, .netSend frame] := by
        rw [heq, hproc]
      refine ⟨?_, ?_, _, c, seg, frame, hevents, hdata, hkind⟩
      · rw [heq, syncSocketState_uip]
        exact hsound.mpr ⟨htfault, by omega⟩
      · rw [hevents, polls_append, polls_netPoll]
        rfl

/-! ## A client that does not finish its handshake -/

/-- One client is accepted. -/
def oneClient : List Input := listen80 :: connect 1000 100

/-- A first client sends nothing but a `SYN`; a second one is accepted. -/
def halfOpen : List Input :=
  listen80 :: Request.receiving .sockAccept (.syn 1000 100) :: connect 1001 100

/-- Three bytes to send. -/
def hello : Mem := payload [104, 105, 10]

theorem send_reaches_iff_oneClient :
    ∃ os n n' ev reply, Run step Free Net.init oneClient os n ∧ acceptedSlot os = some 0 ∧
      handle n ⟨.sockSend 1 3 hello, {}⟩ = (n', ev, reply) ∧ reply.status = .ok ∧
      ReadyToSend (netPoll n {}).1 0 ∧ n'.uip.fault = none ∧
      Reaches ev 0 ((netPoll n {}).1.uip.conns 0).ripaddr
        (hello.load 0 (min (3 : ℤ).toNat ((netPoll n {}).1.uip.conns 0).mss)) := by
  have hexec : ((exec step Net.init oneClient).map fun r =>
      decide (acceptedSlot r.2 = some 0 ∧
        (handle r.1 ⟨.sockSend 1 3 hello, {}⟩).2.2.status = .ok ∧
        ReadyToSend (netPoll r.1 {}).1 0 ∧ (netPoll r.1 {}).1.uip.fault = none ∧
        FirstOnPort (netPoll r.1 {}).1 0)) = some true := by
    decide +kernel
  obtain ⟨⟨n, os⟩, hr, hval⟩ := Option.map_eq_some_iff.mp hexec
  obtain ⟨hacc, hok, hready, hfault, hfirst⟩ := of_decide_eq_true hval
  have hsend : handle n ⟨.sockSend 1 3 hello, {}⟩ =
    (_, (handle n ⟨.sockSend 1 3 hello, {}⟩).2.1, _) := rfl
  obtain ⟨hsound, hreaches⟩ := (send_reaches_iff hsend hok (by decide) hready).mpr
    ⟨hfault, hfirst, by decide⟩
  exact ⟨os, n, _, _, _, run_of_exec hr, hacc, rfl, hok, hready, hsound, hreaches⟩

/-- **The client that does not answer is polled**, and the payload for the accepted
one does not go out. -/
theorem send_misses :
    ∃ os n n' o, Run step Free Net.init halfOpen os n ∧ acceptedSlot os = some 1 ∧
      step n ⟨.sockSend 1 3 hello, {}⟩ = some (n', o) ∧ o.reply.status = .ok ∧
      ReadyToSend (netPoll n {}).1 1 ∧ polls o.events = [0] ∧ transmitted o.events = [] ∧
      ∀ ripaddr,
        ¬ Reaches o.events 1 ripaddr
          (hello.load 0 (min 3 ((netPoll n {}).1.uip.conns 1).mss)) := by
  have hexec : ((exec step Net.init halfOpen).bind fun r =>
      (step r.1 ⟨.sockSend 1 3 hello, {}⟩).map fun s =>
        (acceptedSlot r.2, s.2.reply.status, decide (ReadyToSend (netPoll r.1 {}).1 1),
          decide (polls s.2.events = [0] ∧ transmitted s.2.events = []))) =
      some (some 1, .ok, true, true) := by
    decide +kernel
  obtain ⟨⟨n, os⟩, hr, hval⟩ := Option.bind_eq_some_iff.mp hexec
  obtain ⟨⟨n', o⟩, hs, hval⟩ := Option.map_eq_some_iff.mp hval
  simp only [Prod.mk.injEq, decide_eq_true_eq] at hval
  obtain ⟨hacc, hok, hready, ⟨hpolls, hsent⟩⟩ := hval
  refine ⟨os, n, n', o, run_of_exec hr, hacc, hs, hok, hready, hpolls, hsent, fun _ hreach => ?_⟩
  have hpolled := hreach.polled
  rw [hpolls] at hpolled
  simp at hpolled

end Service
end EgosNet
