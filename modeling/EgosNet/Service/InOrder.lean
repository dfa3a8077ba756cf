import EgosNet.Foundation.Pieces
import EgosNet.Service.Table

/-!
# The bytes of a peer, in order

TCP promises its user that the bytes of the peer arrive in order, each once, whatever the network
does to the segments that carry them.  uIP keeps no segment back: it takes one that begins with the
byte it expects, as a whole, and throws every other away.

The peer is here the stream `S` that it sends and its initial sequence number.  A segment of its
connection is an honest one (`PieceOf`) when its data stands in `S` where its sequence number says,
and when it has neither options nor urgent data, which uIP would look for in the wrong place.  How
the stream is cut, and which segments are lost, repeated or overtaken by others, is left to the
network: `FromPeer` says of every frame that arrives only this, and of all other connections
nothing.

`received_in_order`: from the `SYN` on that opens a connection, what the application has been given
of it is at every moment a prefix of `S`; and as long as the connection is not closed from either
side, what uIP acknowledges is exactly this prefix.
-/

namespace EgosNet
namespace Service

open Foundation Uip

/-- The bytes that the application was given of the connection in slot `i`. -/
def deliveredTo (i : Slot) (cs : List Call) : List UInt8 :=
  (cs.filter fun k => k.slot = i ∧ k.flags.newdata).flatMap fun k => k.data

/-- Where the data of the segment stands in the stream of a peer that began with `isn`.  The `SYN`
has a number of its own. -/
def streamOffset (isn : Word32) (m : Mem) : ℕ :=
  offset (2 ^ 32) (isn.toNat + 1) (word32 m Hdr.seqno).toNat

/-- The segment in the buffer is an honest one of this peer. -/
structure PieceOf (isn : Word32) (S : List UInt8) (m : Mem) : Prop where
  plain : m Hdr.flags &&& TCP_URG = 0
  options : 0 < segmentLength m → tcpHeaderLen m = UIP_TCPH_LEN
  data : 0 < segmentLength m → IsPiece S (streamOffset isn m)
    (m.load (UIP_LLH_LEN + UIP_IPH_LEN + tcpHeaderLen m) (segmentLength m))

theorem pieceOf_iff {isn : Word32} {S : List UInt8} {m : Mem} : PieceOf isn S m ↔
    m Hdr.flags &&& TCP_URG = 0 ∧ (0 < segmentLength m → tcpHeaderLen m = UIP_TCPH_LEN) ∧
      (0 < segmentLength m → IsPiece S (streamOffset isn m)
        (m.load (UIP_LLH_LEN + UIP_IPH_LEN + tcpHeaderLen m) (segmentLength m))) :=
  ⟨fun h => ⟨h.plain, h.options, h.data⟩, fun h => ⟨h.1, h.2.1, h.2.2⟩⟩

instance (isn : Word32) (S : List UInt8) (m : Mem) : Decidable (PieceOf isn S m) :=
  decidable_of_iff _ pieceOf_iff.symm

theorem PieceOf.not_urgent {isn : Word32} {S : List UInt8} {m : Mem} (h : PieceOf isn S m) :
    (headerOf m).has TCP_URG = false :=
  decide_eq_false (not_not.mpr h.plain)

/-- The endpoints of the connection a packet belongs to. -/
def packetEndpoints (m : Mem) : Word16 × Word16 × Word32 :=
  (word16 m Hdr.destport, word16 m Hdr.srcport, word32 m Hdr.srcipaddr)

/-- Of the packets of the connection between `ep`, those that arrive are honest; and slot `i` is not
given to another. -/
def FromPeer (i : Slot) (ep : Word16 × Word16 × Word32) (isn : Word32) (S : List UInt8) (m : Mem)
    (opens : List Slot) : Prop :=
  i ∉ opens ∧ (packetEndpoints m = ep → PieceOf isn S m)

instance (i : Slot) (ep : Word16 × Word16 × Word32) (isn : Word32) (S : List UInt8) (m : Mem)
    (opens : List Slot) : Decidable (FromPeer i ep isn S m opens) :=
  inferInstanceAs (Decidable (_ ∧ _))

section Delivered

variable {i : Slot} {cs : List Call} {k : Call}

@[simp] theorem deliveredTo_nil (i : Slot) : deliveredTo i [] = [] := rfl

/-- A call for another connection, or without data. -/
theorem deliveredTo_other (h : k.slot = i → k.flags.newdata = false) :
    deliveredTo i (cs ++ [k]) = deliveredTo i cs := by
  by_cases hslot : k.slot = i
  · simp [deliveredTo, h hslot]
  · simp [deliveredTo, hslot]

theorem deliveredTo_data (hslot : k.slot = i) (hnew : k.flags.newdata = true) :
    deliveredTo i (cs ++ [k]) = deliveredTo i cs ++ k.data := by
  simp [deliveredTo, hslot, hnew]

end Delivered

/-! ## The invariant -/

/-- The connection in slot `i` is that between `ep`; what has been delivered is a prefix of the
stream, and as long as more may be delivered, uIP expects what follows it. -/
structure InOrder (i : Slot) (ep : Word16 × Word16 × Word32) (isn : Word32) (S : List UInt8)
    (past : List Call) (t : Slot → UipConn) : Prop where
  peer : endpoints (t i) = ep
  bytes : deliveredTo i past <+: S
  next : (t i).tcpstateflags.live = true →
    (t i).rcvNxt.toNat = (isn.toNat + 1 + (deliveredTo i past).length) % 2 ^ 32

section InOrder

variable {i : Slot} {ep : Word16 × Word16 × Word32} {isn : Word32} {S : List UInt8}
  {past : List Call} {t : Slot → UipConn} {m : Mem} {c : UipConn} {k : Call}

/-- The rest of the table does not matter. -/
theorem InOrder.elsewhere (h : InOrder i ep isn S past t) {j : Slot} (hj : j ≠ i) (c : UipConn) :
    InOrder i ep isn S past (Function.update t j c) := by
  have hself : Function.update t j c i = t i := Function.update_of_ne (Ne.symm hj) c t
  exact ⟨by rw [hself]; exact h.peer, h.bytes, by rw [hself]; exact h.next⟩

/-- The connection changes, and nothing is delivered. -/
theorem InOrder.undelivered (h : InOrder i ep isn S past t) (hpeer : SamePeer (t i) c)
    (hnext : c.tcpstateflags.live = true →
      (t i).tcpstateflags.live = true ∧ c.rcvNxt = (t i).rcvNxt) :
    InOrder i ep isn S past (Function.update t i c) := by
  refine ⟨?_, h.bytes, ?_⟩
  · rw [Function.update_self, endpoints_eq hpeer]
    exact h.peer
  · rw [Function.update_self]
    intro hlive
    obtain ⟨hbefore, hsame⟩ := hnext hlive
    rw [hsame]
    exact h.next hbefore

/-- A call that brings no data changes nothing of what is delivered. -/
theorem InOrder.call (h : InOrder i ep isn S past t) (hk : k.slot = i → k.flags.newdata = false) :
    InOrder i ep isn S (past ++ [k]) t := by
  refine ⟨h.peer, ?_, ?_⟩
  · rw [deliveredTo_other hk]
    exact h.bytes
  · rw [deliveredTo_other hk]
    exact h.next

/-- The data that uIP takes is the next piece of the stream. -/
theorem isPiece_next (hS : S.length < 2 ^ 32) (h : InOrder i ep isn S past t)
    (hpiece : PieceOf isn S m) (hlive : (t i).tcpstateflags.live = true)
    (hpos : 0 < segmentLength m) (hseq : word32 m Hdr.seqno = (t i).rcvNxt) :
    IsPiece S (deliveredTo i past).length
      (m.load (UIP_IPTCPH_LEN + UIP_LLH_LEN) (segmentLength m)) := by
  have hdata := hpiece.data hpos
  have hisn := isn.toNat_lt
  have hle := h.bytes.length_le
  rw [streamOffset, hseq, h.next hlive, offset_next (by omega) (by omega),
    hpiece.options hpos] at hdata
  exact hdata

/-- What the call is given when there is no urgent data. -/
theorem data_of_plain (hplain : m Hdr.flags &&& TCP_URG = 0) (s : TcpState) :
    skipped m s = 0 ∧ dataLength m s = segmentLength m := by
  have hskip : skipped m s = 0 := by
    rw [skipped, if_neg fun hcond => hcond.2.2 hplain]
  exact ⟨hskip, dataLength_of_no_skip hskip⟩

/-- The number of the byte that is expected. -/
theorem toNat_advance (c : UipConn) {n : ℕ} (hn : n < 65536) :
    (c.advance n).rcvNxt.toNat = (c.rcvNxt.toNat + n) % 2 ^ 32 := by
  unfold UipConn.advance
  split_ifs with hpos
  · rw [Nat.mod_eq_of_lt hn]
    exact toNat_uipAdd32 _ hn
  · rw [Nat.eq_zero_of_not_pos hpos, Nat.add_zero, Nat.mod_eq_of_lt (Word32.toNat_lt _)]

/-- A call that brings the data of an honest segment. -/
theorem InOrder.delivered (hS : S.length < 2 ^ 32) (h : InOrder i ep isn S past t)
    (hpiece : PieceOf isn S m) (hlive : (t i).tcpstateflags.live = true) (hslot : k.slot = i)
    (hnew : k.flags.newdata = true)
    (hk : k.data = m.load (UIP_IPTCPH_LEN + UIP_LLH_LEN) (segmentLength m))
    (horder : 0 < segmentLength m → word32 m Hdr.seqno = (t i).rcvNxt) (hpeer : SamePeer (t i) c)
    (hnext : c.tcpstateflags.live = true →
      c.rcvNxt = ((t i).advance (segmentLength m)).rcvNxt) :
    InOrder i ep isn S (past ++ [k]) (Function.update t i c) := by
  have hnextpiece : IsPiece S (deliveredTo i past).length k.data := by
    rw [hk]
    rcases Nat.eq_zero_or_pos (segmentLength m) with hzero | hpos
    · rw [hzero, Mem.load_zero]
      exact List.nil_prefix
    · exact isPiece_next hS h hpiece hlive hpos (horder hpos)
  refine ⟨?_, ?_, ?_⟩
  · rw [Function.update_self, endpoints_eq hpeer]
    exact h.peer
  · rw [deliveredTo_data hslot hnew]
    exact hnextpiece.append h.bytes
  · rw [Function.update_self]
    intro hl
    rw [hnext hl, toNat_advance _ (segmentLength_lt m), h.next hlive, Nat.mod_add_mod,
      deliveredTo_data hslot hnew, List.length_append, hk, Mem.length_load, ← Nat.add_assoc]

/-- **A segment of the connection**, with the call that it leads to. -/
theorem InOrder.called (hS : S.length < 2 ^ 32) (h : InOrder i ep isn S past t)
    (hfrom : packetEndpoints m = ep → PieceOf isn S m) (hfor : isFor m (t i) = true)
    (hslot : k.slot = i) (hcall : (receive (headerOf m) (t i)).call = some (k.flags, k.resume))
    (hdata : k.flags.newdata = true → k.data =
      m.load (UIP_IPTCPH_LEN + UIP_LLH_LEN + skipped m (t i).tcpstateflags)
        (dataLength m (t i).tcpstateflags))
    (ha : Answered (receive (headerOf m) (t i)).conn k.resume c) :
    InOrder i ep isn S (past ++ [k]) (Function.update t i c) := by
  have hpiece : PieceOf isn S m := hfrom ((isFor_iff.mp hfor).2.symm.trans h.peer)
  have hpeer : SamePeer (t i) c := (changed_receive _ _).peer.trans ha.peer
  obtain ⟨hkeep, hback⟩ := ha.live
  cases hlive : (t i).tcpstateflags.live with
  | false =>
    obtain ⟨hover, hnone⟩ := over_receive (s := headerOf m) hlive
    refine (h.call fun _ => (hnone _ _ hcall).1).undelivered hpeer fun hl => ?_
    rw [(hback hl).1] at hover
    exact absurd hover (by decide)
  | true =>
    have htakes := takes_receive hpiece.not_urgent hlive
    have hnext : c.tcpstateflags.live = true → c.rcvNxt =
        ((t i).advance ((receive (headerOf m) (t i)).taken (headerOf m))).rcvNxt := by
      intro hl
      refine hkeep.trans (htakes.next fun f hf => ?_)
      rw [hcall] at hf
      exact (hback hl).2 (Prod.mk.inj (Option.some.inj hf)).2
    have horder := htakes.order
    simp only [Reaction.taken, hcall] at hnext horder
    cases hnew : k.flags.newdata with
    | false =>
      rw [hnew, if_neg Bool.false_ne_true, advance_zero] at hnext
      exact (h.call fun _ => hnew).undelivered hpeer fun hl => ⟨hlive, hnext hl⟩
    | true =>
      rw [hnew, if_pos rfl] at hnext horder
      obtain ⟨hskip, hlen⟩ := data_of_plain hpiece.plain (t i).tcpstateflags
      have hk := hdata hnew
      rw [hskip, Nat.add_zero, hlen] at hk
      exact h.delivered hS hpiece hlive hslot hnew hk horder hpeer hnext

/-- A segment of the connection that the application does not hear of. -/
theorem InOrder.quiet (h : InOrder i ep isn S past t)
    (hfrom : packetEndpoints m = ep → PieceOf isn S m) (hfor : isFor m (t i) = true)
    (hcall : (receive (headerOf m) (t i)).call = none) :
    InOrder i ep isn S past (Function.update t i (receive (headerOf m) (t i)).conn) := by
  have hpiece : PieceOf isn S m := hfrom ((isFor_iff.mp hfor).2.symm.trans h.peer)
  refine h.undelivered (changed_receive _ _).peer fun hl => ?_
  cases hlive : (t i).tcpstateflags.live with
  | false =>
    rw [(over_receive hlive).1] at hl
    exact absurd hl (by decide)
  | true =>
    have hnext := (takes_receive hpiece.not_urgent hlive).next (by simp [hcall])
    rw [Reaction.taken, hcall, advance_zero] at hnext
    exact ⟨rfl, hnext⟩

/-- **A frame and a kick keep the order.** -/
theorem followed_inOrder (hS : S.length < 2 ^ 32) :
    Followed (FromPeer i ep isn S) (InOrder i ep isn S) := by
  constructor
  · intro m past t t' cs opens h hstep hG
    obtain ⟨hopens, hfrom⟩ := hG
    cases hstep with
    | same =>
      rw [List.append_nil]
      exact h
    | @quiet j hfor hcall =>
      rw [List.append_nil]
      by_cases hj : j = i
      · subst hj
        exact h.quiet hfrom hfor hcall
      · exact h.elsewhere hj _
    | @called k c hfor hcall hdata ha =>
      by_cases hj : k.slot = i
      · rw [hj] at hfor hcall hdata ha ⊢
        exact h.called hS hfrom hfor hj hcall hdata ha
      · exact (h.call fun hslot => absurd hslot hj).elsewhere hj _
    | @opened j c _ _ _ =>
      rw [List.append_nil]
      have hj : j ≠ i := fun hj => hopens (by simp [hj])
      exact h.elsewhere hj _
  · intro past t t' cs h hstep
    cases hstep with
    | same =>
      rw [List.append_nil]
      exact h
    | @polled k c hflags hest hlen ha =>
      have hquiet : k.slot = i → k.flags.newdata = false := fun _ => by rw [hflags]
      by_cases hj : k.slot = i
      · rw [hj] at ha ⊢
        obtain ⟨hkeep, hback⟩ := ha.live
        exact (h.call hquiet).undelivered ha.peer fun hl => ⟨(hback hl).1, hkeep⟩
      · exact (h.call hquiet).elsewhere hj _

end InOrder

/-! ## Runs -/

/-- The last segment of the handshake, and four bytes in two segments: the second overtakes the
first, which arrives twice, and the second is then sent again, together with one more byte. -/
def shuffled : List Input :=
  [Request.receiving .sockAccept (.ack 1000),
   Request.receiving (.sockRecv 1 512)
    { port := 1000, seqno := 103, ackno := 1, flags := TCP_ACK, data := [67, 68] },
   Request.receiving (.sockRecv 1 512)
    { port := 1000, seqno := 101, ackno := 1, flags := TCP_ACK, data := [65, 66] },
   Request.receiving (.sockRecv 1 512)
    { port := 1000, seqno := 101, ackno := 1, flags := TCP_ACK, data := [65, 66] },
   Request.receiving (.sockRecv 1 512)
    { port := 1000, seqno := 103, ackno := 1, flags := TCP_ACK, data := [67, 68, 69] }]

/-- The endpoints of that connection. -/
def peerEndpoints : Word16 × Word16 × Word32 := (HTONS 80, HTONS 1000, uipDraddr)

end Service
end EgosNet
