import EgosNet.Service.Peer
import EgosNet.Service.Table
import EgosNet.Uip.Wire

/-!
# What the service puts on the wire

Three kinds of frame leave the service on its own account, and only three: an ARP packet, a TCP
segment, and an echo request turned around.  A host that receives one of them makes the tests of
`Uip.Wire` on it, and they succeed: `frames_wellFormed` says so of every frame of every run.  What
a process sends with `NET_SEND` is its own business, and the only exception.

The packet is built in the buffer in which the last one arrived, so nothing about it is right by
itself.  A segment is right because `tcp_send` and what follows write every field of the header
(`ready_tcpSend`).  Its length is that of what is outstanding, and no connection ever has more than
`UIP_TCP_MSS` bytes outstanding (`Sized`).  The answer to an echo request is right because
the request was, as far as uIP has tested it (`Turned`).  That test does not compare the length with
the size of an IP header, so an answer may end in the middle of one, and is then right as far as it
goes.
-/

namespace EgosNet
namespace Service

open Foundation Uip

/-! ## Packets -/

/-- The packet in a frame of `len` bytes passes the tests of `uip_process` on its IP header. -/
structure IpPacket (m : Mem) (len : ℕ) (protocol : UInt8) : Prop where
  fits : len ≤ uipBufLen
  type : word16 m ArpHdr.type = HTONS UIP_ETHTYPE_IP
  vhl : m Hdr.vhl = 0x45
  length : num16 m Hdr.len ≤ len
  ipoffset : m Hdr.ipoffset &&& 0x3f = 0 ∧ m (Hdr.ipoffset + 1) = 0
  destipaddr : word32 m Hdr.destipaddr = uipHostaddr
  ipchksum : uipIpchksum m = ⟨0xff, 0xff⟩
  proto : m Hdr.proto = protocol

instance (m : Mem) (len : ℕ) (protocol : UInt8) : Decidable (IpPacket m len protocol) :=
  decidable_of_iff
    (len ≤ uipBufLen ∧ word16 m ArpHdr.type = HTONS UIP_ETHTYPE_IP ∧ m Hdr.vhl = 0x45 ∧
      num16 m Hdr.len ≤ len ∧ (m Hdr.ipoffset &&& 0x3f = 0 ∧ m (Hdr.ipoffset + 1) = 0) ∧
      word32 m Hdr.destipaddr = uipHostaddr ∧ uipIpchksum m = ⟨0xff, 0xff⟩ ∧
      m Hdr.proto = protocol)
    ⟨fun ⟨h1, h2, h3, h4, h5, h6, h7, h8⟩ => ⟨h1, h2, h3, h4, h5, h6, h7, h8⟩,
      fun ⟨h1, h2, h3, h4, h5, h6, h7, h8⟩ => ⟨h1, h2, h3, h4, h5, h6, h7, h8⟩⟩

/-- It is an echo request.  The message itself is not tested. -/
structure EchoRequest (m : Mem) (len : ℕ) : Prop extends IpPacket m len UIP_PROTO_ICMP where
  request : m Hdr.icmpType = ICMP_ECHO

/-- The packet that may go out in answer to `m`, of whose frame `len` bytes have arrived. -/
inductive Ready (m : Mem) (len : ℕ) (u : Stack) : Prop
  | none : u.len = 0 → Ready m len u
  | segment : TcpSegment u.buf u.len → u.len ≤ UIP_BUFSIZE - UIP_LLH_LEN → Ready m len u
  | echo : EchoRequest m len → u.len = num16 m Hdr.len → Turned m u.buf u.len → Ready m len u

section Ready

variable {m : Mem} {len : ℕ} {u : Stack} {i : Slot}

theorem ready_drop : Ready m len (drop u) := .none rfl

theorem tcpSend_len (u : Stack) (i : Slot) : (tcpSend u i).len = u.len := rfl

/-- A connection sends a segment of `n` bytes. -/
theorem ready_tcpSend {n : ℕ} (hn : u.len = n) (hlo : UIP_IPTCPH_LEN ≤ n)
    (hhi : n ≤ UIP_BUFSIZE - UIP_LLH_LEN) : Ready m len (tcpSend u i) := by
  have hsize : UIP_BUFSIZE - UIP_LLH_LEN < 65536 := by decide
  subst hn
  have hsegment := tcpSend_segment u i hlo (hhi.trans_lt hsize)
  refine .segment ?_ ?_
  · rwa [tcpSend_len]
  · rwa [tcpSend_len]

theorem ready_tcpSendNodata : Ready m len (tcpSendNodata u i) := by
  unfold tcpSendNodata tcpSendNoopts
  exact ready_tcpSend (n := UIP_IPTCPH_LEN) rfl (by decide) (by decide)

theorem ready_tcpSendAck : Ready m len (tcpSendAck u i) := by
  unfold tcpSendAck
  exact ready_tcpSendNodata

theorem ready_tcpSendSynack : Ready m len (tcpSendSynack u i) := by
  unfold tcpSendSynack
  exact ready_tcpSend (n := UIP_IPTCPH_LEN + TCP_OPT_MSS_LEN.toNat) rfl (by decide) (by decide)

/-- Data goes out in one segment. -/
theorem ready_apprexmit (h : Sized (u.conns i)) : Ready m len (apprexmit u i) := by
  have hmss : UIP_TCP_MSS = 366 := rfl
  have hhdr : UIP_IPTCPH_LEN = 40 := rfl
  have hsize : UIP_BUFSIZE - UIP_LLH_LEN = 406 := rfl
  have hlen := h.len
  simp only [apprexmit]
  split_ifs
  · have hmod : ((u.conns i).len + UIP_IPTCPH_LEN) % 65536 = (u.conns i).len + UIP_IPTCPH_LEN :=
      Nat.mod_eq_of_lt (by omega)
    unfold tcpSendNoopts
    exact ready_tcpSend (n := (u.conns i).len + UIP_IPTCPH_LEN) hmod (by omega) (by omega)
  · unfold tcpSendNoopts
    exact ready_tcpSend (n := UIP_IPTCPH_LEN) rfl (by decide) (by decide)
  · exact ready_drop

theorem ready_appsend (h : Sized (u.conns i)) : Ready m len (appsend u i) := by
  unfold appsend
  split_ifs
  · exact ready_tcpSendNodata
  · exact ready_tcpSendNodata
  · obtain ⟨n, hn, hholds⟩ := takeData_holds u i
    refine ready_apprexmit ?_
    rw [Stack.setConn_conns_self, hholds.self]
    have hlen := h.len
    have hmss := h.mss
    exact ⟨h.initialmss, h.mss, by rcases hn with rfl | hn; exacts [hlen, hn.trans hmss]⟩

theorem ready_resume (h : Sized (u.conns i)) (k : Resume) : Ready m len (k.run u i) := by
  cases k with
  | appsend => exact ready_appsend h
  | drop => exact ready_drop
  | finack => exact ready_tcpSendNodata
  | ack => exact ready_tcpSendAck

/-- A segment of no connection is answered by a reset. -/
theorem ready_reset (hproto : u.buf Hdr.proto = UIP_PROTO_TCP) : Ready m len (reset u) := by
  rcases Nat.eq_zero_or_pos (reset u).len with hzero | hpos
  · exact .none hzero
  · refine .segment (reset_segment u hproto hpos) ?_
    unfold reset at hpos ⊢
    split_ifs at hpos ⊢
    · exact Nat.zero_le _
    · exact (show 40 ≤ 406 by decide)

end Ready

/-! ## What `uip_process` leaves in the buffer -/

/-- If the application is not called, what is in the buffer may go out. -/
inductive Emits (m : Mem) (len : ℕ) : Verdict → Prop
  | done {u : Stack} : (u.fault = none → Ready m len u) → Emits m len (.done u)
  | quiet {i : Slot} {u : Stack} : Ready m len u → Emits m len (.quiet i u)
  | listen {i : Slot} {u : Stack} : Ready m len u → Emits m len (.listen i u)
  | appcall {i : Slot} {u : Stack} {k : Resume} : Emits m len (.appcall i u k)

section Emits

variable {m : Mem} {len : ℕ} {u : Stack} {i : Slot}

theorem emits_byState : Emits m len (byState u i) := by
  unfold byState
  split
  · unfold inSynRcvd
    split_ifs
    exacts [.appcall, .quiet ready_drop]
  · unfold inEstablished
    dsimp only
    split_ifs
    all_goals first | exact .appcall | exact .quiet ready_drop
  · unfold inLastAck
    split_ifs
    exacts [.appcall, .quiet ready_drop]
  · simp only [inFinWait1]
    split_ifs <;>
      first | exact .appcall | exact .quiet ready_drop | exact .quiet ready_tcpSendAck
  · simp only [inFinWait2]
    split_ifs <;>
      first | exact .appcall | exact .quiet ready_drop | exact .quiet ready_tcpSendAck
  · exact .quiet ready_tcpSendAck
  · unfold inClosing
    split_ifs
    exacts [.quiet ready_drop, .quiet ready_drop]
  · exact .quiet ready_drop

theorem emits_found : Emits m len (found u i) := by
  simp only [found]
  split_ifs
  · exact .appcall
  · exact .quiet ready_tcpSendAck
  · exact emits_byState

/-- A `SYN` whose options never end is a fault. -/
theorem emits_foundListen : Emits m len (foundListen u) := by
  unfold foundListen
  split
  · exact .done fun _ => ready_drop
  · dsimp only
    split
    · refine .done fun hfault => ?_
      cases hf : u.fault <;> simp [Stack.raise, hf] at hfault
    · exact .listen ready_tcpSendSynack

theorem emits_tcpInput (hproto : u.buf Hdr.proto = UIP_PROTO_TCP) :
    Emits m len (tcpInput u) := by
  unfold tcpInput
  generalize uipTcpchksum u.buf = sum
  split_ifs
  · exact .done fun _ => ready_drop
  all_goals
    split
    · exact emits_found
    · first | exact .done fun _ => ready_reset hproto | exact emits_foundListen

/-- **What `uip_process` leaves in the buffer may go out.** -/
theorem emits_uipProcessData (hbuf : u.fault = none → u.len ≤ uipBufLen)
    (htype : word16 u.buf ArpHdr.type = HTONS UIP_ETHTYPE_IP) :
    Emits u.buf u.len (uipProcessData u) := by
  simp only [uipProcessData]
  generalize hsum : uipIpchksum u.buf = sum
  split_ifs with hvhl hlen hoffset hdest hvalid htcp hicmp
  · exact .done fun _ => ready_drop
  · exact .done fun _ => ready_drop
  · exact .done fun _ => ready_drop
  · exact .done fun _ => ready_drop
  · exact emits_tcpInput htcp
  · refine .done fun hfault => ?_
    by_cases hecho : u.buf Hdr.icmpType = ICMP_ECHO
    · rw [ne_eq, not_not] at hvhl hdest hvalid
      rw [not_or, ne_eq, not_not, ne_eq, not_not] at hoffset
      rw [hvalid] at hsum
      set v : Stack := { u with
        appdata := UIP_IPTCPH_LEN + UIP_LLH_LEN, len := num16 u.buf Hdr.len } with hv
      have hout : (icmpEcho v).len = num16 v.buf Hdr.len ∧ (icmpEcho v).fault = u.fault := by
        unfold icmpEcho
        rw [if_neg (by simpa using hecho)]
        exact ⟨rfl, rfl⟩
      have hrequest : EchoRequest u.buf u.len :=
        ⟨⟨hbuf (hout.2.symm.trans hfault), htype, hvhl, hlen, hoffset, hdest, hsum, hicmp⟩, hecho⟩
      exact .echo hrequest hout.1
        (icmpEcho_turned (u := v) hvhl hout.1.symm hoffset hdest hsum hicmp hecho)
    · unfold icmpEcho
      rw [if_pos (by simpa using hecho)]
      exact ready_drop
  · exact .done fun _ => ready_drop
  · exact .done fun _ => ready_drop

/-- A poll leaves nothing. -/
theorem emits_uipProcessPoll (u : Stack) (i : Slot) : Emits m len (uipProcessPoll u i) := by
  simp only [uipProcessPoll]
  split_ifs
  · exact .appcall
  · exact .done fun _ => ready_drop

end Emits

/-! ## Frames -/

/-- The Ethernet header of a frame from this host. -/
structure Ethernet (f : List UInt8) (ethtype : ℤ) : Prop where
  src : ethAddr (payload f) ArpHdr.src = uipEthaddr
  type : word16 (payload f) ArpHdr.type = HTONS ethtype

/-- An ARP packet from this host. -/
structure ArpFrame (f : List UInt8) : Prop extends Ethernet f UIP_ETHTYPE_ARP where
  length : f.length = arpHdrLen
  opcode : word16 (payload f) ArpHdr.opcode = HTONS ARP_REQUEST ∨
    word16 (payload f) ArpHdr.opcode = HTONS ARP_REPLY
  shwaddr : ethAddr (payload f) ArpHdr.shwaddr = uipEthaddr
  sipaddr : word32 (payload f) ArpHdr.sipaddr = uipHostaddr

/-- The question of this host for the Ethernet address of `ipaddr`, put to all hosts. -/
structure IsArpRequest (ipaddr : Word32) (f : List UInt8) : Prop extends ArpFrame f where
  dest : ethAddr (payload f) ArpHdr.dest = broadcastEthaddr
  request : word16 (payload f) ArpHdr.opcode = HTONS ARP_REQUEST
  dipaddr : word32 (payload f) ArpHdr.dipaddr = ipaddr

/-- A TCP segment, which fits the buffer. -/
structure SegmentFrame (f : List UInt8) : Prop extends Ethernet f UIP_ETHTYPE_IP where
  length : f.length ≤ UIP_BUFSIZE
  segment : TcpSegment (payload f) (f.length - UIP_LLH_LEN)

/-- The answer to the echo request `m`, of whose frame `len` bytes have arrived.  The length is that
of the IP header, which may be more than has arrived. -/
structure EchoFrame (m : Mem) (len : ℕ) (f : List UInt8) : Prop extends
    Ethernet f UIP_ETHTYPE_IP where
  request : EchoRequest m len
  pos : UIP_LLH_LEN < f.length
  length : f.length = num16 m Hdr.len + UIP_LLH_LEN
  turned : Turned m (payload f) (f.length - UIP_LLH_LEN)

/-- **What the service may put on the wire**, while `m` is the packet that has arrived. -/
inductive Outgoing (m : Mem) (len : ℕ) (f : List UInt8) : Prop
  | arp : ArpFrame f → Outgoing m len f
  | segment : SegmentFrame f → Outgoing m len f
  | echo : EchoFrame m len f → Outgoing m len f

/-- The host to which a packet for `ipaddr` goes first: that host itself, or the router. -/
def hopFor (ipaddr : Word32) : Word32 :=
  if uipIpaddrMaskcmp ipaddr uipHostaddr uipNetmask then ipaddr else uipDraddr

section Frames

variable {m : Mem} {len n : ℕ} {u : Stack} {a : ℕ}

/-- The bytes of a frame that was read off a buffer. -/
theorem payload_load (b : Mem) (h : a < n) : payload (b.load 0 n) a = b a := by
  have hlen : a < (b.load 0 n).length := by rwa [Mem.length_load]
  rw [payload_eq hlen]
  simp [Mem.load]

theorem ethAddr_congr {b b' : Mem} {off : ℕ} (h : ∀ k, k < 6 → b (off + k) = b' (off + k)) :
    ethAddr b off = ethAddr b' off := by
  simp only [ethAddr, EthAddr.mk.injEq]
  exact Mem.load_congr h

/-- An Ethernet header read off the buffer. -/
theorem ethernet_load {b : Mem} {ethtype : ℤ} (hn : ethHdrLen ≤ n)
    (hsrc : ethAddr b ArpHdr.src = uipEthaddr) (htype : word16 b ArpHdr.type = HTONS ethtype) :
    Ethernet (b.load 0 n) ethtype := by
  have hn' : 14 ≤ n := hn
  constructor
  · rw [← hsrc]
    exact ethAddr_congr fun k hk => payload_load b (by simp; omega)
  · rw [← htype]
    exact word16_congr _ (payload_load b (by simp; omega)) (payload_load b (by simp; omega))

/-- An ARP packet read off the buffer. -/
theorem arpFrame_load {b : Mem} (hsrc : ethAddr b ArpHdr.src = uipEthaddr)
    (htype : word16 b ArpHdr.type = HTONS UIP_ETHTYPE_ARP)
    (hop : word16 b ArpHdr.opcode = HTONS ARP_REQUEST ∨
      word16 b ArpHdr.opcode = HTONS ARP_REPLY)
    (hsh : ethAddr b ArpHdr.shwaddr = uipEthaddr) (hsip : word32 b ArpHdr.sipaddr = uipHostaddr) :
    ArpFrame (b.load 0 arpHdrLen) := by
  have hlen : arpHdrLen = 42 := rfl
  have hop' : word16 (payload (b.load 0 arpHdrLen)) ArpHdr.opcode = word16 b ArpHdr.opcode :=
    word16_congr _ (payload_load b (by decide)) (payload_load b (by decide))
  refine ⟨ethernet_load (by decide) hsrc htype, Mem.length_load _ _ _, by rwa [hop'], ?_, ?_⟩
  · rw [← hsh]
    exact ethAddr_congr fun k hk => payload_load b (by simp; omega)
  · rw [← hsip]
    exact word32_congr fun k hk => payload_load b (by simp; omega)

theorem arpRequest_len (u : Stack) (ipaddr : Word32) : (arpRequest u ipaddr).len = arpHdrLen := rfl

theorem arpRequest_frame (u : Stack) (ipaddr : Word32) :
    IsArpRequest ipaddr ((arpRequest u ipaddr).buf.load 0 arpHdrLen) := by
  have hlen : arpHdrLen = 42 := rfl
  have hdest : ethAddr (arpRequest u ipaddr).buf ArpHdr.dest = broadcastEthaddr := rfl
  have hop : word16 (arpRequest u ipaddr).buf ArpHdr.opcode = HTONS ARP_REQUEST := rfl
  have hip : word32 (arpRequest u ipaddr).buf ArpHdr.dipaddr = ipaddr := rfl
  refine ⟨arpFrame_load rfl rfl (.inl rfl) rfl rfl, ?_, ?_, ?_⟩
  · rw [← hdest]
    exact ethAddr_congr fun k hk => payload_load _ (by simp; omega)
  · rw [← hop]
    exact word16_congr _ (payload_load _ (by decide)) (payload_load _ (by decide))
  · rw [← hip]
    exact word32_congr fun k hk => payload_load _ (by simp; omega)

theorem arpReply_frame (u : Stack) : ArpFrame ((arpReply u).buf.load 0 arpHdrLen) :=
  arpFrame_load rfl rfl (.inr rfl) rfl rfl

/-- A packet with an Ethernet header before it. -/
theorem ethHeader_ethernet (u : Stack) (dest : EthAddr) (hn : ethHdrLen ≤ n) :
    Ethernet ((ethHeader u dest).buf.load 0 n) UIP_ETHTYPE_IP :=
  ethernet_load hn rfl rfl

/-- The length of the frame, and the packet in it. -/
theorem ethHeader_packet (u : Stack) (dest : EthAddr) (h : u.len ≤ uipBufLen) :
    (ethHeader u dest).len = u.len + UIP_LLH_LEN ∧ ∀ a, 14 ≤ a → a < 14 + u.len →
      u.buf a = payload ((ethHeader u dest).buf.load 0 (u.len + UIP_LLH_LEN)) a := by
  have hbuf : uipBufLen = 422 := rfl
  have hllh : UIP_LLH_LEN = 14 := rfl
  constructor
  · show (u.len + 14) % 65536 = u.len + 14
    exact Nat.mod_eq_of_lt (by omega)
  · intro a h1 h2
    rw [payload_load _ (by omega), ethHeader_buf_of_ge u dest h1]

/-- The answer to an echo request, in its frame. -/
theorem echoFrame_ethHeader (dest : EthAddr) (hpos : 0 < u.len) (hreq : EchoRequest m len)
    (hlen : u.len = num16 m Hdr.len) (hturned : Turned m u.buf u.len) :
    EchoFrame m len ((ethHeader u dest).buf.load 0 (ethHeader u dest).len) := by
  have hllh : UIP_LLH_LEN = 14 := rfl
  have heth : ethHdrLen = 14 := rfl
  have hfits : u.len ≤ uipBufLen := (hlen.trans_le hreq.length).trans hreq.fits
  obtain ⟨hout, hkept⟩ := ethHeader_packet u dest hfits
  rw [hout]
  refine ⟨ethHeader_ethernet u dest (by omega), hreq, ?_, ?_, ?_⟩
  · rw [Mem.length_load]
    omega
  · rw [Mem.length_load, hlen]
  · rw [Mem.length_load, Nat.add_sub_cancel]
    exact hturned.congr hkept

/-- A segment, in its frame. -/
theorem segmentFrame_ethHeader (dest : EthAddr) (hseg : TcpSegment u.buf u.len)
    (hle : u.len ≤ UIP_BUFSIZE - UIP_LLH_LEN) :
    SegmentFrame ((ethHeader u dest).buf.load 0 (ethHeader u dest).len) := by
  have hbuf : uipBufLen = 422 := rfl
  have hsize : UIP_BUFSIZE = 420 := rfl
  have hllh : UIP_LLH_LEN = 14 := rfl
  have heth : ethHdrLen = 14 := rfl
  obtain ⟨hout, hkept⟩ := ethHeader_packet u dest (by omega)
  rw [hout]
  refine ⟨ethHeader_ethernet u dest (by omega), ?_, ?_⟩
  · rw [Mem.length_load]
    omega
  · rw [Mem.length_load, Nat.add_sub_cancel]
    exact hseg.congr hkept

/-- **What `uip_arp_out` makes of a packet**: its frame, for all hosts or for the next hop, or the
question for the next hop. -/
theorem uipArpOut_cases (u : Stack) (t : ArpTable) :
    (∃ dest, uipArpOut u t = ethHeader u dest ∧
      (word32 u.buf Hdr.destipaddr = broadcastIpaddr ∧ dest = broadcastEthaddr ∨
        ∃ j, (t j).ipaddr = nextHop u ∧ dest = (t j).ethaddr)) ∨
      uipArpOut u t = arpRequest u (nextHop u) ∧ ∀ j, (t j).ipaddr ≠ nextHop u := by
  unfold uipArpOut
  split_ifs with hall
  · exact .inl ⟨_, rfl, .inl ⟨hall, rfl⟩⟩
  · split
    · rename_i hnone
      refine .inr ⟨rfl, fun j hj => ?_⟩
      have hmiss := List.find?_eq_none.mp hnone j (List.mem_finRange j)
      exact hmiss (by simpa using hj.symm)
    · rename_i j hj
      have hfound : nextHop u = (t j).ipaddr := by simpa using List.find?_some hj
      exact .inl ⟨_, rfl, .inr ⟨j, hfound.symm, rfl⟩⟩

/-- **A packet that may go out makes a frame that may.** -/
theorem outgoing_uipArpOut {u : Stack} (t : ArpTable) (h : Ready m len u) (hpos : 0 < u.len) :
    Outgoing m len ((uipArpOut u t).buf.load 0 (uipArpOut u t).len) := by
  rcases uipArpOut_cases u t with ⟨dest, heq, -⟩ | ⟨heq, -⟩
  · rw [heq]
    cases h with
    | none hzero => omega
    | segment hseg hle => exact .segment (segmentFrame_ethHeader dest hseg hle)
    | echo hreq hlen hturned => exact .echo (echoFrame_ethHeader dest hpos hreq hlen hturned)
  · rw [heq]
    exact .arp (arpRequest_frame u _).toArpFrame

end Frames

/-! ## The service -/

section Net

variable {n : Net} {rx : Rx} {m : Mem} {len : ℕ} {f : List UInt8}

@[simp] theorem transmitted_append (ev ev' : List Event) :
    transmitted (ev ++ ev') = transmitted ev ++ transmitted ev' :=
  List.filterMap_append

theorem transmitted_complete (h : Httpd) (v : Verdict) : transmitted (complete h v).2 = [] := by
  have hsegments : ∀ i u, transmitted (segments i u) = [] := by
    intro i u
    exact filterMap_segments i u fun _ => rfl
  cases v with
  | done u => rfl
  | quiet i u => exact hsegments i u
  | listen i u => exact hsegments i u
  | appcall i u k => exact hsegments i _

/-- `earth->net_send` puts the bytes on the wire that it is given. -/
theorem mem_transmitted_earthNetSend {length : ℤ} {packet : Mem}
    (hf : f ∈ transmitted (earthNetSend n length packet).2) : f = packet.load 0 length.toNat := by
  unfold earthNetSend at hf
  split_ifs at hf
  · simpa [transmitted] using hf
  · simp [transmitted] at hf

/-- A packet goes out with its Ethernet header, or not at all. -/
theorem outgoing_sendPacket (h : Ready m len n.uip) (hf : f ∈ transmitted (sendPacket n).2) :
    Outgoing m len f := by
  simp only [sendPacket] at hf
  split_ifs at hf with hpos
  · rw [mem_transmitted_earthNetSend hf, Int.toNat_natCast]
    exact outgoing_uipArpOut n.arp h hpos
  · simp [transmitted] at hf

/-- What uIP has to say in the end. -/
theorem ready_complete {h : Httpd} {v : Verdict} (hv : Emits m len v)
    (hsized : ∀ i u k, v = .appcall i u k → Sized (u.conns i))
    (hfault : (complete h v).1.1.fault = none) : Ready m len (complete h v).1.1 := by
  cases hv with
  | done hready => exact hready hfault
  | quiet hready => exact hready
  | listen hready => exact hready
  | @appcall i u k =>
    show Ready m len (k.run (httpdAppcall u h).1 i)
    refine ready_resume ?_ k
    rw [(httpdAppcall_conns u h).1]
    exact hsized i u k rfl

/-- **One run of `uip_process`.** -/
theorem outgoing_process {v : Verdict} (hv : Emits m len v)
    (hsized : ∀ i u k, v = .appcall i u k → Sized (u.conns i))
    (hfault : (process n v).1.uip.fault = none) (hf : f ∈ transmitted (process n v).2) :
    Outgoing m len f := by
  simp only [process, transmitted_append, transmitted_complete, List.nil_append] at hf
  have hready := ready_complete (h := n.httpd) hv hsized (fault_sendPacket hfault :)
  exact outgoing_sendPacket (n := { n with
    uip := (complete n.httpd v).1.1, httpd := (complete n.httpd v).1.2 }) hready hf

/-- The connection of a call, as the packet has left it. -/
theorem sized_appcall {u u' : Stack} {i : Slot} {k : Resume} (h : ∀ j, Sized (u.conns j))
    (hv : uipProcessData u = .appcall i u' k) : Sized (u'.conns i) := by
  have hruling := ruling_uipProcessData u
  rw [hv] at hruling
  cases hruling with
  | received _ hreal =>
    unfold Realises at hreal
    split at hreal
    · obtain ⟨w, hw, -⟩ := hreal
      simp at hw
    · obtain ⟨w, hw, hconns, -⟩ := hreal
      obtain ⟨rfl, rfl, -⟩ := Verdict.appcall.inj hw
      rw [hconns, Function.update_self]
      exact (h i).changed (changed_receive _ _)

/-- An ARP packet is answered by an ARP packet. -/
theorem arpFrame_arpInput (hf : f ∈ transmitted (arpInput n).2) : ArpFrame f := by
  simp only [arpInput] at hf
  split_ifs at hf with hpos
  · rw [mem_transmitted_earthNetSend hf, Int.toNat_natCast]
    simp only [uipArpArpin] at hpos ⊢
    split_ifs at hpos ⊢
    · exact absurd hpos (lt_irrefl _)
    · exact arpReply_frame _
    all_goals exact absurd hpos (lt_irrefl _)
  · simp [transmitted] at hf

/-- **What a frame makes the service send.** -/
theorem outgoing_netPoll (h : ∀ i, Sized (n.uip.conns i))
    (hfault : (netPoll n rx).1.uip.fault = none) (hf : f ∈ transmitted (netPoll n rx).2) :
    Outgoing (earthNetRecv n.uip rx).buf rx.frame.length f := by
  simp only [netPoll, frameInput] at hfault hf
  split_ifs at hfault hf with hnil htype
  · simp [transmitted] at hf
  · rw [syncSocketState_uip] at hfault
    have hbuf : (earthNetRecv n.uip rx).fault = none →
        (earthNetRecv n.uip rx).len ≤ uipBufLen := length_le_of_fault
    refine outgoing_process (emits_uipProcessData hbuf htype) (fun i u k hv => ?_) hfault hf
    refine sized_appcall (fun j => ?_) hv
    rw [earthNetRecv_conns]
    exact h j
  · exact .arp (arpFrame_arpInput hf)
  · simp [transmitted] at hf

/-- **What a kick makes it send.** -/
theorem outgoing_kick (h : ∀ i, Sized (n.uip.conns i))
    (hfault : (kickActiveConnection n).1.uip.fault = none)
    (hf : f ∈ transmitted (kickActiveConnection n).2) : Outgoing m len f := by
  rcases kick_cases n with ⟨-, -, heq⟩ | ⟨-, -, heq⟩ | ⟨-, i, -, -, heq⟩
  · rw [heq] at hf
    simp [transmitted] at hf
  · rw [heq] at hf
    simp [transmitted] at hf
  · rw [heq] at hf hfault
    rw [syncSocketState_uip] at hfault
    have hf' : f ∈ transmitted (process n (uipProcessPoll n.uip i)).2 := by
      simpa [transmitted] using hf
    refine outgoing_process (emits_uipProcessPoll n.uip i) (fun j u k hv => ?_) hfault hf'
    rcases uipProcessPoll_cases n.uip i with ⟨u', hu, -⟩ | ⟨u', hu, hc, -⟩
    · rw [hu] at hv
      simp at hv
    · rw [hu] at hv
      obtain ⟨rfl, rfl, -⟩ := Verdict.appcall.inj hv
      rw [hc]
      exact h i

theorem takePayload_arp (n : Net) (txLen : ℤ) (buf : Mem) :
    (takePayload n txLen buf).arp = n.arp := by
  simp only [takePayload]
  split_ifs <;> rfl

/-- The request is not one to send a packet as it is. -/
def sendsRaw : Request → Bool
  | .netSend _ _ => true
  | _ => false

/-- Only what polls the card sends anything else. -/
theorem polling_of_transmitted {i : Input} (hraw : sendsRaw i.request = false)
    (hf : f ∈ transmitted (handle n i).2.1) : polling i.request = true := by
  obtain ⟨request, rx⟩ := i
  cases request with
  | netSend length buf => simp [sendsRaw] at hraw
  | netRecv => simp [handle, handleNetRecv, transmitted] at hf
  | sockListen port =>
    simp only [handle, handleSockListen] at hf
    split_ifs at hf <;> simp [transmitted] at hf
  | _ => rfl

/-- **What goes out in the course of a request**: first what the frame leads to, and then what the
kick does. -/
theorem transmitted_handle {P : List UInt8 → Prop} {i : Input} (hraw : sendsRaw i.request = false)
    (hpoll : (netPoll n i.rx).1.uip.fault = none → f ∈ transmitted (netPoll n i.rx).2 → P f)
    (hkick : ∀ t : Net, t.uip.conns = (netPoll n i.rx).1.uip.conns →
      t.arp = (netPoll n i.rx).1.arp → (kickActiveConnection t).1.uip.fault = none →
      f ∈ transmitted (kickActiveConnection t).2 → P f)
    (hfault : (handle n i).1.uip.fault = none) (hf : f ∈ transmitted (handle n i).2.1) : P f := by
  have hboth : ∀ t : Net, t.uip.conns = (netPoll n i.rx).1.uip.conns →
      t.arp = (netPoll n i.rx).1.arp →
      (t.uip.fault = none → (netPoll n i.rx).1.uip.fault = none) →
      (kickActiveConnection t).1.uip.fault = none →
      f ∈ transmitted ((netPoll n i.rx).2 ++ (kickActiveConnection t).2) → P f := by
    intro t hconns harp hback hfk hmem
    rw [transmitted_append, List.mem_append] at hmem
    rcases hmem with hmem | hmem
    · exact hpoll (hback (fault_kick hfk)) hmem
    · exact hkick t hconns harp hfk hmem
  have hpolling := polling_of_transmitted hraw hf
  obtain ⟨request, rx⟩ := i
  cases request with
  | netSend length buf => simp [sendsRaw] at hraw
  | netRecv => simp [polling] at hpolling
  | sockListen port => simp [polling] at hpolling
  | sockAccept =>
    simp only [handle, handleSockAccept] at hf hfault
    split_ifs at hf hfault
    · exact hpoll hfault hf
    · exact hpoll hfault hf
  | sockRecv connId length =>
    simp only [handle, handleSockRecv] at hf hfault
    split_ifs at hf hfault
    all_goals first
      | exact hpoll hfault hf
      | cases hu : (netPoll n rx).1.uip.fault <;> simp [Net.raise, Stack.raise, hu] at hfault
  | sockSend connId length buf =>
    rcases handle_sockSend_cases n connId length buf rx with ⟨r, -, heq⟩ | ⟨t, ht, htaken, -, heq⟩
    · rw [heq] at hf hfault
      exact hpoll hfault hf
    · rw [heq] at hf hfault
      refine hboth t (taken_frame htaken).1 ?_ (fun hft => ?_) hfault hf
      · rw [ht, takePayload_arp]
      · exact fault_takePayload (ht ▸ hft)
  | sockClose connId =>
    simp only [handle, handleSockClose] at hf hfault
    split_ifs at hf hfault
    · exact hboth (askClose (netPoll n rx).1) rfl rfl id hfault hf
    · exact hpoll hfault hf

/-- One step from a state in which the connections are bounded. -/
theorem outgoing_step {n' : Net} {i : Input} {o : Outcome}
    (hsized : ∀ j, Sized (n.uip.conns j)) (hstep : step n i = some (n', o))
    (hraw : sendsRaw i.request = false) :
    ∀ f ∈ transmitted o.events, Outgoing (earthNetRecv n.uip i.rx).buf i.rx.frame.length f := by
  intro f hf
  obtain ⟨hhandle, -, hfault⟩ := step_spec hstep
  have hpoll : ∀ j, Sized ((netPoll n i.rx).1.uip.conns j) :=
    maintained_sized.frame _ _ _ _ _ hsized (frameStep_netPoll n i.rx)
  refine transmitted_handle (n := n) hraw (outgoing_netPoll hsized) (fun t hconns _ hfk hmem => ?_)
    (by rwa [hhandle]) (by rwa [hhandle])
  exact outgoing_kick (fun j => by rw [hconns]; exact hpoll j) hfk hmem

end Net

/-- The Ethernet address of the host `10.0.2.2`. -/
def peerEthaddr : List UInt8 := [0x52, 0x55, 10, 0, 2, 2]

/-- The ARP request of a host for the address of this one. -/
def arpFrom (sipaddr : Word32) (shwaddr : List UInt8) : List UInt8 :=
  broadcastEthaddr.addr ++ shwaddr ++ (HTONS UIP_ETHTYPE_ARP).toBytes ++
    (HTONS ARP_HWTYPE_ETH).toBytes ++ (HTONS UIP_ETHTYPE_IP).toBytes ++ [6, 4] ++
    (HTONS ARP_REQUEST).toBytes ++ shwaddr ++ sipaddr.toBytes ++ List.replicate 6 0 ++
    uipHostaddr.toBytes

/-- A request that finds such a packet waiting. -/
def asked (sipaddr : Word32) (shwaddr : List UInt8) : Input :=
  { request := .sockAccept, rx := { frame := arpFrom sipaddr shwaddr } }

/-- The host asks for the address, and is answered. -/
def resolved : List Input := [listen80, asked uipDraddr peerEthaddr]

end Service
end EgosNet
