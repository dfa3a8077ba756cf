import EgosNet.Service.ReceiveStream
import EgosNet.Uip.Delivery

/-!
# Where received bytes come from

The bridge copies `uip_len` bytes from `uip_appdata` on, cut to the size of its array, and what is
there is for the sockets the data that has arrived.  That these are bytes of the frame, and bytes
behind its headers, is nowhere checked.  It depends on three numbers of the frame that its sender
chooses: the length in the IP header, the length of the TCP header, and the urgent pointer.

* With a TCP header of more than twenty bytes the pointer is in the middle of the header, and the
  options are taken for data.
* The length in the IP header is compared with that of the frame, which has fourteen bytes more, so
  it may be larger than the packet; the bytes behind the frame are of an earlier one.
* A segment that says it is shorter than its headers and its urgent data has, in 16 bits, more than
  65000 bytes of data.

`FitsFrame` is that none of this happens, and it is exact.

* `ownBytes_iff`: the bytes that a frame leaves for the sockets are its own exactly when it fits.
* `ownBytes_violated`: a segment whose options are read as data, and one without data of which 420
  bytes are read.
-/

namespace EgosNet
namespace Service

open Foundation Uip

/-- Where `uip_appdata` points when the application is called. -/
def offsetIn : Verdict → Option ℕ
  | .appcall _ u _ => some u.appdata
  | _ => none

/-- Where in `uip_buf` the application finds the data of the frame. -/
def dataOffset (n : Net) (rx : Rx) : Option ℕ := (frameVerdict n rx).bind offsetIn

/-- **What the frame leaves for the sockets are bytes of its own**: they are read from an offset
behind the headers and not beyond the end of the frame, and are no more than the frame has behind
headers without options. -/
def OwnBytes (n : Net) (rx : Rx) : Prop :=
  ∃ o ∈ dataOffset n rx,
    (netPoll n rx).1.sock.rxLen + (UIP_LLH_LEN + UIP_IPTCPH_LEN) ≤ rx.frame.length ∧
      UIP_LLH_LEN + UIP_IPH_LEN + tcpHeaderLen (earthNetRecv n.uip rx).buf ≤ o ∧
      o + (netPoll n rx).1.sock.rxLen ≤ rx.frame.length ∧
      unread (netPoll n rx).1 = (rx.frame.drop o).take (netPoll n rx).1.sock.rxLen

/-- The three numbers in the packet `m` fit a frame of `size` bytes, on a connection in state `s`:
no options are taken for data, the packet is as long as its headers and what is skipped, and its
data ends where the frame does, or before. -/
structure FitsFrame (m : Mem) (s : TcpState) (size : ℕ) : Prop where
  header : tcpHeaderLen m ≤ UIP_TCPH_LEN + skipped m s
  packet : tcpHeaderLen m + UIP_IPH_LEN + skipped m s ≤ num16 m Hdr.len
  frame : num16 m Hdr.len + (UIP_LLH_LEN + UIP_TCPH_LEN) ≤ size + tcpHeaderLen m

instance (m : Mem) (s : TcpState) (size : ℕ) : Decidable (FitsFrame m s size) :=
  decidable_of_iff
    (tcpHeaderLen m ≤ UIP_TCPH_LEN + skipped m s ∧
      tcpHeaderLen m + UIP_IPH_LEN + skipped m s ≤ num16 m Hdr.len ∧
      num16 m Hdr.len + (UIP_LLH_LEN + UIP_TCPH_LEN) ≤ size + tcpHeaderLen m)
    ⟨fun ⟨h1, h2, h3⟩ => ⟨h1, h2, h3⟩, fun ⟨h1, h2, h3⟩ => ⟨h1, h2, h3⟩⟩

/-- The data of the TCP segment in a frame, as its headers have it: what is behind the TCP header,
as far as the packet and the frame go. -/
def segmentData (frame : List UInt8) : List UInt8 :=
  (frame.drop (UIP_LLH_LEN + UIP_IPH_LEN + tcpHeaderLen (payload frame))).take
    (num16 (payload frame) Hdr.len - (UIP_IPH_LEN + tcpHeaderLen (payload frame)))

/-- The packet fits, and its TCP header has at least the length that every TCP header has.  With a
shorter one the application reads beyond the end of the packet, into what fills the frame up. -/
structure ReadsData (m : Mem) (s : TcpState) (size : ℕ) : Prop extends FitsFrame m s size where
  words : UIP_TCPH_LEN ≤ tcpHeaderLen m

instance (m : Mem) (s : TcpState) (size : ℕ) : Decidable (ReadsData m s size) :=
  decidable_of_iff (FitsFrame m s size ∧ UIP_TCPH_LEN ≤ tcpHeaderLen m)
    ⟨fun ⟨h1, h2⟩ => ⟨h1, h2⟩, fun ⟨h1, h2⟩ => ⟨h1, h2⟩⟩

/-! ## The frame in the buffer -/

/-- A frame that fits into `uip_buf` is there. -/
theorem load_earthNetRecv (u : Stack) (rx : Rx) (h : rx.frame.length ≤ uipBufLen) :
    (earthNetRecv u rx).buf.load 0 rx.frame.length = rx.frame := by
  refine Eq.trans (Mem.load_congr fun k hk => ?_) (Mem.load_store u.buf 0 rx.frame)
  have hlt : 0 + k < uipBufLen := by omega
  simp only [earthNetRecv, hlt, if_true]
  split_ifs <;> rfl

/-- The bytes of a frame in the buffer, read from the frame. -/
theorem load_earthNetRecv_drop (u : Stack) {rx : Rx} (hfits : rx.frame.length ≤ uipBufLen)
    {off len : ℕ} (h : off + len ≤ rx.frame.length) :
    (earthNetRecv u rx).buf.load off len = (rx.frame.drop off).take len := by
  conv_rhs => rw [← load_earthNetRecv u rx hfits]
  rw [Mem.load_drop, Nat.zero_add, Mem.load_take]
  exact Nat.le_sub_of_add_le' h

/-- A frame that delivers data: the application finds it in the frame as it came. -/
theorem frameCall_delivery {n : Net} {rx : Rx} {c : Call} {d : List UInt8}
    (hcall : frameCall n rx = some c) (hdel : deliveryOf c = some d) :
    dataOffset n rx = some (UIP_IPTCPH_LEN + UIP_LLH_LEN +
        skipped (earthNetRecv n.uip rx).buf (n.uip.conns c.slot).tcpstateflags) ∧
      d ≠ [] ∧
      d = (earthNetRecv n.uip rx).buf.load
        (UIP_IPTCPH_LEN + UIP_LLH_LEN +
          skipped (earthNetRecv n.uip rx).buf (n.uip.conns c.slot).tcpstateflags)
        (dataLength (earthNetRecv n.uip rx).buf (n.uip.conns c.slot).tcpstateflags) := by
  obtain ⟨i, u, k, hv, hu, rfl⟩ := frameCall_eq_some hcall
  have hd : u.flags.newdata = true ∧ u.buf.load u.appdata u.len ≠ [] ∧
      d = u.buf.load u.appdata u.len := by
    unfold deliveryOf at hdel
    split_ifs at hdel with hcond
    exact ⟨hcond.1, hcond.2, (Option.some.inj hdel).symm⟩
  obtain ⟨hnew, hne, hd⟩ := hd
  obtain ⟨hbuf, happ, hlen⟩ := delivers_uipProcessData hu hnew
  rw [earthNetRecv_conns] at happ hlen
  have hslot : (callOf i u n.httpd k).slot = i := rfl
  rw [hslot]
  refine ⟨?_, hd ▸ hne, ?_⟩
  · rw [dataOffset, hv, ← happ]
    rfl
  · rw [hd, hbuf, happ, hlen]

/-- The arithmetic of it: of a frame of `size` bytes, with `total` bytes of packet, a TCP header of
`header` bytes and `skip` bytes of urgent data, `len` bytes are data. -/
theorem within_iff_fits {size total header skip len : ℕ} (hsize : size ≤ UIP_BUFSIZE)
    (hpos : 0 < len)
    (hlen : header + UIP_IPH_LEN + skip ≤ total → len = total - (header + UIP_IPH_LEN + skip))
    (hwrap : total < header + UIP_IPH_LEN + skip →
      total + 65536 ≤ header + UIP_IPH_LEN + skip + len) :
    (min UIP_BUFSIZE len + (UIP_LLH_LEN + UIP_IPTCPH_LEN) ≤ size ∧
      UIP_LLH_LEN + UIP_IPH_LEN + header ≤ UIP_IPTCPH_LEN + UIP_LLH_LEN + skip ∧
      UIP_IPTCPH_LEN + UIP_LLH_LEN + skip + min UIP_BUFSIZE len ≤ size) ↔
    header ≤ UIP_TCPH_LEN + skip ∧ header + UIP_IPH_LEN + skip ≤ total ∧
      total + (UIP_LLH_LEN + UIP_TCPH_LEN) ≤ size + header := by
  have hbuf : UIP_BUFSIZE = 420 := rfl
  have hllh : UIP_LLH_LEN = 14 := rfl
  have hiph : UIP_IPH_LEN = 20 := rfl
  have htcph : UIP_TCPH_LEN = 20 := rfl
  have hiptcph : UIP_IPTCPH_LEN = 40 := rfl
  rw [hbuf, hllh, hiptcph, hiph, htcph]
  rw [hiph] at hlen hwrap
  rw [hbuf] at hsize
  by_cases hpacket : header + 20 + skip ≤ total
  · -- nothing wraps around, and no more is read than the packet says
    have hdata := hlen hpacket
    omega
  · -- the data wraps around, and its end is far beyond the frame
    have hfar := hwrap (not_le.mp hpacket)
    omega

/-- **The bytes are the frame's own exactly when it fits.**  In every reachable state, let a frame
of at most `UIP_BUFSIZE` bytes deliver data. -/
theorem ownBytes_iff {is : List Input} {os : List Outcome} {n : Net} {rx : Rx} {c : Call}
    {d : List UInt8} (hrun : Run step Free Net.init is os n)
    (hframe : rx.frame.length ≤ UIP_BUFSIZE) (hcall : frameCall n rx = some c)
    (hdel : deliveryOf c = some d) :
    OwnBytes n rx ↔ FitsFrame (earthNetRecv n.uip rx).buf (n.uip.conns c.slot).tcpstateflags
      rx.frame.length := by
  obtain ⟨hoff, hne, hd⟩ := frameCall_delivery hcall hdel
  have hunread : unread (netPoll n rx).1 = d.take UIP_BUFSIZE := by
    rw [unread_netPoll_eq (settled_run hrun), hcall]
    simp [hdel]
  have hload {off len : ℕ} (h : off + len ≤ rx.frame.length) :=
    load_earthNetRecv_drop n.uip (hframe.trans (by decide)) h
  unfold OwnBytes
  generalize (earthNetRecv n.uip rx).buf = m at *
  generalize (n.uip.conns c.slot).tcpstateflags = s at *
  have hrx : (netPoll n rx).1.sock.rxLen = min UIP_BUFSIZE (dataLength m s) := by
    have hlen := congrArg List.length hunread
    rwa [unread, Mem.length_load, List.length_take, hd, Mem.length_load] at hlen
  have hpos : 0 < dataLength m s := by
    rw [hd] at hne
    have hlen := List.length_pos_iff.mpr hne
    rwa [Mem.length_load] at hlen
  have hfits := within_iff_fits hframe hpos dataLength_of_le dataLength_wrap
  rw [hrx]
  constructor
  · rintro ⟨o, ho, hmax, hhdr, hend, -⟩
    obtain rfl := Option.some.inj (hoff.symm.trans ho)
    obtain ⟨hheader, hpacket, hsize⟩ := hfits.mp ⟨hmax, hhdr, hend⟩
    exact ⟨hheader, hpacket, hsize⟩
  · rintro ⟨hheader, hpacket, hsize⟩
    obtain ⟨hmax, hhdr, hend⟩ := hfits.mpr ⟨hheader, hpacket, hsize⟩
    refine ⟨_, hoff, hmax, hhdr, hend, ?_⟩
    -- both are the bytes from the offset on, as many as are read
    rw [hunread, hd, ← load_min, min_comm]
    exact hload hend

/-! ## The data of the segment -/

/-- A part of a part of a list. -/
theorem drop_take_infix {α : Type*} (l : List α) {a b n k : ℕ} (hab : a ≤ b)
    (hend : b + k ≤ a + n) : (l.drop b).take k <:+: (l.drop a).take n := by
  have hdrop : ((l.drop a).take n).drop (b - a) = (l.drop b).take (n - (b - a)) := by
    rw [List.drop_take, List.drop_drop, Nat.add_sub_cancel' hab]
  have hpart : ((l.drop b).take (n - (b - a))).take k = (l.drop b).take k := by
    rw [List.take_take, Nat.min_eq_left (by omega)]
  rw [← hpart, ← hdrop]
  exact (List.take_prefix k _).isInfix.trans (List.drop_suffix _ _).isInfix

/-- **What the application reads is data of the segment**, if the three numbers are right. -/
theorem readsData_infix {u : Stack} {rx : Rx} {s : TcpState}
    (hfits : rx.frame.length ≤ uipBufLen)
    (h : ReadsData (earthNetRecv u rx).buf s rx.frame.length) :
    (earthNetRecv u rx).buf.load
        (UIP_IPTCPH_LEN + UIP_LLH_LEN + skipped (earthNetRecv u rx).buf s)
        (dataLength (earthNetRecv u rx).buf s) <:+: segmentData rx.frame := by
  have hllh : UIP_LLH_LEN = 14 := rfl
  have hiph : UIP_IPH_LEN = 20 := rfl
  have htcph : UIP_TCPH_LEN = 20 := rfl
  have hiptcph : UIP_IPTCPH_LEN = 40 := rfl
  obtain ⟨⟨hheader, hpacket, hframe⟩, hwords⟩ := h
  have hlen := dataLength_of_le hpacket
  have hbuf {a : ℕ} (ha : a < 54) : payload rx.frame a = (earthNetRecv u rx).buf a :=
    (earthNetRecv_buf u (by omega) (by omega)).symm
  have htotal : num16 (payload rx.frame) Hdr.len = num16 (earthNetRecv u rx).buf Hdr.len := by
    rw [num16, num16, hbuf (by decide), hbuf (by decide)]
  have hhdr : tcpHeaderLen (payload rx.frame) = tcpHeaderLen (earthNetRecv u rx).buf := by
    rw [tcpHeaderLen, tcpHeaderLen, tcpHeaderWords, tcpHeaderWords, hbuf (by decide)]
  rw [load_earthNetRecv_drop u hfits (by omega), segmentData, htotal, hhdr]
  exact drop_take_infix rx.frame (by omega) (by omega)

/-! ## Three segments -/

/-- The numbers of a delivery: the data, the length of the TCP header, what is skipped, and the
length in the IP header. -/
def delivery (n : Net) (rx : Rx) : Option (List UInt8 × ℕ × ℕ × ℕ) :=
  (frameCall n rx).bind fun c => (deliveryOf c).map fun d =>
    (d, tcpHeaderLen (earthNetRecv n.uip rx).buf,
      skipped (earthNetRecv n.uip rx).buf (n.uip.conns c.slot).tcpstateflags,
      num16 (earthNetRecv n.uip rx).buf Hdr.len)

/-- Two bytes of data. -/
def plainData : Rx :=
  { frame := PeerSegment.frame
      { port := 1000, seqno := 101, ackno := 1, flags := TCP_ACK, data := [65, 66] } }

/-- The two bytes are the segment's own. -/
theorem ownBytes_iff_plain :
    ∃ os n, Run step Free Net.init (listen80 :: connect 1000 100) os n ∧
      unread (netPoll n plainData).1 = [65, 66] ∧ OwnBytes n plainData := by
  have hexec : ((exec step Net.init (listen80 :: connect 1000 100)).bind fun r =>
      (delivery r.1 plainData).map fun e => (e, unread (netPoll r.1 plainData).1)) =
      some (([65, 66], 20, 0, 42), [65, 66]) := by decide +kernel
  obtain ⟨⟨n, os⟩, hr, hval⟩ := Option.bind_eq_some_iff.mp hexec
  obtain ⟨e, hdelivery, hval⟩ := Option.map_eq_some_iff.mp hval
  obtain ⟨rfl, hunread⟩ := Prod.mk.inj hval
  obtain ⟨c, hcall, hdelivery⟩ := Option.bind_eq_some_iff.mp hdelivery
  obtain ⟨d, hdel, hnumbers⟩ := Option.map_eq_some_iff.mp hdelivery
  simp only [Prod.mk.injEq] at hnumbers
  obtain ⟨-, hheader, hskip, htotal⟩ := hnumbers
  have hrun := run_of_exec hr
  have hsize : plainData.frame.length = 56 := by decide +kernel
  refine ⟨os, n, hrun, hunread, (ownBytes_iff hrun (by rw [hsize]; decide) hcall hdel).mpr ?_⟩
  refine ⟨?_, ?_, ?_⟩
  · rw [hheader, hskip]
    decide
  · rw [hheader, hskip, htotal]
    decide
  · rw [hheader, htotal, hsize]
    decide

/-- The frame of a segment with an urgent pointer. -/
def PeerSegment.urgentFrame (s : PeerSegment) (urgp : ℕ) : List UInt8 :=
  let tcp (sum : List UInt8) := (s.tcp sum).take 18 ++ bytes16 urgp ++ (s.tcp sum).drop 20
  let length := (tcp [0, 0]).length
  let pseudo := chksum (length + UIP_PROTO_TCP.toNat) addresses
  let segment := tcp (checksumFor (chksum pseudo (tcp [0, 0])))
  let header := ip length (checksumFor (chksum 0 (ip length [0, 0])))
  uipEthaddr.addr ++ [0x52, 0x55, 10, 0, 2, 2] ++ (HTONS UIP_ETHTYPE_IP).toBytes ++ header ++
    segment

/-- One byte of data behind four bytes of options. -/
def dataBehindOptions : Rx :=
  { frame := PeerSegment.frame
      { port := 1000, seqno := 101, ackno := 1, flags := TCP_ACK, options := [1, 1, 1, 0],
        data := [65] } }

/-- No data, and one byte of urgent data. -/
def urgentNothing : Rx :=
  { frame := PeerSegment.urgentFrame
      { port := 1000, seqno := 101, ackno := 1, flags := TCP_ACK ||| TCP_URG } 1 }

/-- **Bytes that are not the segment's data**: the first of four bytes of options is received for
the one byte behind them, and a frame of 54 bytes, which has no data, leaves 420 bytes. -/
theorem ownBytes_violated :
    ∃ os n, Run step Free Net.init (listen80 :: connect 1000 100) os n ∧
      (unread (netPoll n dataBehindOptions).1 = [1] ∧ ¬ OwnBytes n dataBehindOptions) ∧
      urgentNothing.frame.length = 54 ∧ (netPoll n urgentNothing).1.sock.rxLen = 420 ∧
      ¬ OwnBytes n urgentNothing := by
  have hexec : ((exec step Net.init (listen80 :: connect 1000 100)).map fun r =>
      (unread (netPoll r.1 dataBehindOptions).1, dataOffset r.1 dataBehindOptions,
        tcpHeaderLen (earthNetRecv r.1.uip dataBehindOptions).buf,
        (netPoll r.1 urgentNothing).1.sock.rxLen)) = some ([1], some 54, 24, 420) := by
    decide +kernel
  have hsize : urgentNothing.frame.length = 54 := by decide +kernel
  obtain ⟨⟨n, os⟩, hr, hval⟩ := Option.map_eq_some_iff.mp hexec
  simp only [Prod.mk.injEq] at hval
  obtain ⟨hunread, hoffset, hheader, hrx⟩ := hval
  refine ⟨os, n, run_of_exec hr, ⟨hunread, ?_⟩, hsize, hrx, ?_⟩
  · rintro ⟨o, ho, -, hbehind, -⟩
    obtain rfl := Option.some.inj (hoffset.symm.trans ho)
    rw [hheader] at hbehind
    exact absurd hbehind (by decide)
  · rintro ⟨o, -, hmax, -⟩
    rw [hrx, hsize] at hmax
    exact absurd hmax (by decide)

end Service
end EgosNet
