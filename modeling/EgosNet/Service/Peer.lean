import EgosNet.Service.SysNet

/-!
# What a peer sends

Well-formed frames, as a host on the local network would send them to the service:
a segment is wrapped into a TCP header, an IP header and an Ethernet header, with
the checksums filled in.  They are the inputs of the concrete runs in the files
that follow.
-/

namespace EgosNet
namespace Service

open Foundation Uip

/-- A segment from port `port` of the host `10.0.2.2` to port 80 of this one. -/
structure PeerSegment where
  port : ℕ
  seqno : ℕ
  ackno : ℕ := 0
  flags : UInt8
  wnd : ℕ := 8192
  options : List UInt8 := []
  data : List UInt8 := []

def bytes32 (n : ℕ) : List UInt8 := bytes16 (n / 65536) ++ bytes16 n

/-- The checksum field that makes the sum come out as `0xffff`. -/
def checksumFor (sum : ℕ) : List UInt8 := (Word16.ofNat sum).compl.toBytes

namespace PeerSegment

def addresses : List UInt8 := [10, 0, 2, 2] ++ uipHostaddr.toBytes

/-- The TCP header and the data, with the given checksum. -/
def tcp (s : PeerSegment) (sum : List UInt8) : List UInt8 :=
  bytes16 s.port ++ bytes16 80 ++ bytes32 s.seqno ++ bytes32 s.ackno ++
    [UInt8.ofNat ((5 + s.options.length / 4) * 16), s.flags] ++ bytes16 s.wnd ++ sum ++ [0, 0] ++
    s.options ++ s.data

/-- The IP header before `length` bytes, with the given checksum. -/
def ip (length : ℕ) (sum : List UInt8) : List UInt8 :=
  [0x45, 0] ++ bytes16 (20 + length) ++ [0, 0, 0, 0, 64, UIP_PROTO_TCP] ++ sum ++ addresses

/-- The frame on the wire. -/
def frame (s : PeerSegment) : List UInt8 :=
  let length := (s.tcp [0, 0]).length
  let pseudo := chksum (length + UIP_PROTO_TCP.toNat) addresses
  let segment := s.tcp (checksumFor (chksum pseudo (s.tcp [0, 0])))
  let header := ip length (checksumFor (chksum 0 (ip length [0, 0])))
  uipEthaddr.addr ++ [0x52, 0x55, 10, 0, 2, 2] ++ (HTONS UIP_ETHTYPE_IP).toBytes ++ header ++
    segment

/-- The first segment of a handshake, with a maximum segment size. -/
def syn (port mss : ℕ) : PeerSegment :=
  { port := port, seqno := 100, flags := TCP_SYN,
    options := [TCP_OPT_MSS, TCP_OPT_MSS_LEN] ++ bytes16 mss }

/-- The last segment of a handshake. -/
def ack (port : ℕ) : PeerSegment := { port := port, seqno := 101, ackno := 1, flags := TCP_ACK }

end PeerSegment

/-- A request that finds a segment waiting. -/
def Request.receiving (r : Request) (s : PeerSegment) : Input :=
  { request := r, rx := { frame := s.frame } }

/-- A request that finds nothing waiting. -/
def Request.alone (r : Request) : Input := { request := r }

/-- The memory that holds the given bytes. -/
def payload (bytes : List UInt8) : Mem := Mem.store (fun _ => 0) 0 bytes

theorem payload_eq {bytes : List UInt8} {a : ℕ} (h : a < bytes.length) :
    payload bytes a = bytes[a] := by
  have hstore : Mem.store (fun _ => 0) 0 bytes (0 + a) = bytes[a] := Mem.store_apply h
  rwa [Nat.zero_add] at hstore

/-- A frame that has been received is in the buffer. -/
theorem earthNetRecv_buf (u : Stack) {rx : Rx} {a : ℕ} (ha : a < rx.frame.length)
    (hbuf : a < uipBufLen) : (earthNetRecv u rx).buf a = payload rx.frame a := by
  have hstore : u.buf.store 0 rx.frame (0 + a) = rx.frame[a] := Mem.store_apply ha
  rw [Nat.zero_add] at hstore
  rw [payload_eq ha]
  simp only [earthNetRecv, if_pos hbuf]
  split_ifs <;> exact hstore

/-- Listen on port 80. -/
def listen80 : Input := Request.alone (.sockListen 80)

/-- The service after that. -/
def listening : Net := (handle Net.init listen80).1

theorem step_listen80 :
    step Net.init listen80 = some (listening, ⟨.sockListen 80, [], ⟨.ok, NET_CONN_NONE, 0, []⟩⟩) :=
  rfl

/-- The two requests in which a client connects from `port` and is accepted. -/
def connect (port mss : ℕ) : List Input :=
  [Request.receiving .sockAccept (.syn port mss), Request.receiving .sockAccept (.ack port)]

/-- A client is accepted and sends two bytes. -/
def twoBytes : List Input :=
  listen80 :: connect 1000 100 ++
    [Request.receiving .sockAccept
      { port := 1000, seqno := 101, ackno := 1, flags := TCP_ACK, data := [65, 66] }]

end Service
end EgosNet
