import EgosNet.Uip.Transitions

/-!
# Where the data of a segment is

When uIP calls the application with new data, `uip_appdata` points to the data and `uip_len` says
how much there is.  Neither is taken from the packet as such.  The pointer is set before the packet
is looked at, to where the data of a segment without TCP options would begin, and only urgent data
moves it.  The length is what the IP header says, less the length of the two headers and of the
urgent data, in 16 bits and without a comparison, so it may wrap around.

Data is noted in two states only, and urgent data is skipped in one of them, so both numbers can be
read off the packet and the state of the connection: `skipped` is by how much the pointer has moved,
`dataLength` is the length.

* `delivers_uipProcessData`: when the application is called with new data, the packet is in the
  buffer as it came, and pointer and length are these.
* `dataLength_of_le`, `dataLength_wrap`: the length when it does not wrap around, and when it does.
-/

namespace EgosNet
namespace Uip

open Foundation

/-- The length of the TCP header, in bytes, as the packet has it. -/
def tcpHeaderLen (m : Mem) : ℕ := tcpHeaderWords m * 4

/-- By how much `uip_appdata` is moved. -/
def skipped (m : Mem) (s : TcpState) : ℕ :=
  if s = .established ∧ m Hdr.flags &&& TCP_FIN = 0 ∧ m Hdr.flags &&& TCP_URG ≠ 0 then
    num16 m Hdr.urgp
  else 0

/-- The length of the segment's data before any is skipped. -/
def segmentLength (m : Mem) : ℕ :=
  (num16 m Hdr.len + 65536 - (tcpHeaderLen m + UIP_IPH_LEN)) % 65536

/-- `uip_len` when the application is called. -/
def dataLength (m : Mem) (s : TcpState) : ℕ := (segmentLength m + 65536 - skipped m s) % 65536

theorem num16_lt (m : Mem) (off : ℕ) : num16 m off < 65536 := by
  have h0 := (m off).toNat_lt
  have h1 := (m (off + 1)).toNat_lt
  unfold num16
  omega

theorem tcpHeaderLen_le (m : Mem) : tcpHeaderLen m ≤ 60 := by
  have hbyte := (m Hdr.tcpoffset).toNat_lt
  have hwords : tcpHeaderWords m = (m Hdr.tcpoffset).toNat / 16 := by
    rw [tcpHeaderWords, UInt8.toNat_shiftRight, Nat.shiftRight_eq_div_pow]
    rfl
  rw [tcpHeaderLen, hwords]
  omega

theorem skipped_lt (m : Mem) (s : TcpState) : skipped m s < 65536 := by
  unfold skipped
  split_ifs
  · exact num16_lt m _
  · decide

theorem segmentLength_lt (m : Mem) : segmentLength m < 65536 := Nat.mod_lt _ (by decide)

theorem dataLength_of_no_skip {m : Mem} {s : TcpState} (h : skipped m s = 0) :
    dataLength m s = segmentLength m := by
  have hlt := segmentLength_lt m
  rw [dataLength, h]
  generalize segmentLength m = len at *
  omega

/-- The length when the packet is as long as it has to be. -/
theorem dataLength_of_le {m : Mem} {s : TcpState}
    (h : tcpHeaderLen m + UIP_IPH_LEN + skipped m s ≤ num16 m Hdr.len) :
    dataLength m s = num16 m Hdr.len - (tcpHeaderLen m + UIP_IPH_LEN + skipped m s) := by
  have hlen := num16_lt m Hdr.len
  unfold dataLength segmentLength
  generalize num16 m Hdr.len = total at *
  generalize tcpHeaderLen m = header at *
  generalize skipped m s = skip at *
  omega

/-- Otherwise the pointer and the length together lead far away. -/
theorem dataLength_wrap {m : Mem} {s : TcpState}
    (h : num16 m Hdr.len < tcpHeaderLen m + UIP_IPH_LEN + skipped m s) :
    num16 m Hdr.len + 65536 ≤
      tcpHeaderLen m + UIP_IPH_LEN + skipped m s + dataLength m s := by
  have hskip := skipped_lt m s
  have hhdr := tcpHeaderLen_le m
  have hiph : UIP_IPH_LEN = 20 := rfl
  unfold dataLength segmentLength
  rw [hiph] at h ⊢
  generalize num16 m Hdr.len = total at *
  generalize tcpHeaderLen m = header at *
  generalize skipped m s = skip at *
  omega

/-! ## State by state -/

/-- If the application is called with new data, the data is where it should be. -/
inductive Delivers (m : Mem) (conns : Slot → UipConn) : Verdict → Prop
  | done {u : Stack} : Delivers m conns (.done u)
  | quiet {i : Slot} {u : Stack} : Delivers m conns (.quiet i u)
  | listen {i : Slot} {u : Stack} : Delivers m conns (.listen i u)
  | appcall {i : Slot} {u : Stack} {k : Resume} :
      (u.flags.newdata = true → u.buf = m ∧
        u.appdata = UIP_IPTCPH_LEN + UIP_LLH_LEN + skipped m (conns i).tcpstateflags ∧
        u.len = dataLength m (conns i).tcpstateflags) →
      Delivers m conns (.appcall i u k)

/-- A call without new data. -/
theorem Delivers.of_no_data {m : Mem} {conns : Slot → UipConn} {i : Slot} {u : Stack} {k : Resume}
    (h : u.flags.newdata = false) : Delivers m conns (.appcall i u k) :=
  .appcall fun hnew => absurd hnew (by simp [h])

/-- The packet `m` when its connection, in state `s` before it, has been found. -/
structure Arrived (m : Mem) (s : TcpState) (u : Stack) (i : Slot) : Prop where
  buf : u.buf = m
  appdata : u.appdata = UIP_IPTCPH_LEN + UIP_LLH_LEN
  len : u.len = segmentLength m
  state : (u.conns i).tcpstateflags = s
  newdata : u.flags.newdata = false

/-- What is noted about data leaves the data alone. -/
theorem noteNewdata_data (u : Stack) (i : Slot) :
    (noteNewdata u i).buf = u.buf ∧ (noteNewdata u i).appdata = u.appdata ∧
      (noteNewdata u i).len = u.len := by
  unfold noteNewdata
  split_ifs <;> exact ⟨rfl, rfl, rfl⟩

/-- Nor does an acknowledgement touch it. -/
theorem ackInput_data (u : Stack) (i : Slot) :
    (ackInput u i).buf = u.buf ∧ (ackInput u i).appdata = u.appdata ∧
      (ackInput u i).len = u.len ∧
      (u.flags.newdata = false → (ackInput u i).flags.newdata = false) := by
  unfold ackInput
  split_ifs
  · exact ⟨rfl, rfl, rfl, fun _ => rfl⟩
  · exact ⟨rfl, rfl, rfl, id⟩

section States

variable {m : Mem} {conns : Slot → UipConn} {u : Stack} {i : Slot}

/-- In `SYN_RCVD` nothing is skipped. -/
theorem delivers_inSynRcvd (h : Arrived m (conns i).tcpstateflags u i)
    (hs : (conns i).tcpstateflags = .synRcvd) : Delivers m conns (inSynRcvd u i) := by
  have hskip : skipped m (conns i).tcpstateflags = 0 := by simp [skipped, hs]
  unfold inSynRcvd
  split_ifs
  · refine .appcall fun _ => ?_
    obtain ⟨hbuf, happ, hlen⟩ := noteNewdata_data
      { u.setConn i { u.conns i with tcpstateflags := .established, len := 0 } with
        flags := { connected := true } } i
    rw [hskip, dataLength_of_no_skip hskip]
    exact ⟨hbuf.trans h.buf, happ.trans h.appdata, hlen.trans h.len⟩
  · exact .quiet

/-- Where urgent data is skipped, the pointer is moved by as much as the length is cut. -/
theorem skipUrgent_data (h : Arrived m (conns i).tcpstateflags u i)
    (hs : (conns i).tcpstateflags = .established) (hnofin : m Hdr.flags &&& TCP_FIN = 0) :
    (skipUrgent u).buf = m ∧
      (skipUrgent u).appdata =
        UIP_IPTCPH_LEN + UIP_LLH_LEN + skipped m (conns i).tcpstateflags ∧
      (skipUrgent u).len = dataLength m (conns i).tcpstateflags := by
  unfold skipUrgent
  rw [h.buf]
  split_ifs with hurg
  · have hskip : skipped m (conns i).tcpstateflags = num16 m Hdr.urgp := by
      rw [skipped, if_pos ⟨hs, hnofin, hurg⟩]
    rw [dataLength, hskip, ← h.appdata, ← h.len]
    exact ⟨rfl, rfl, rfl⟩
  · have hskip : skipped m (conns i).tcpstateflags = 0 := by
      rw [skipped, if_neg fun hcond => hurg hcond.2.2]
    rw [hskip, dataLength_of_no_skip hskip]
    exact ⟨h.buf, h.appdata, h.len⟩

/-- In `ESTABLISHED` urgent data is skipped, unless the segment is a `FIN`. -/
theorem delivers_inEstablished (h : Arrived m (conns i).tcpstateflags u i)
    (hs : (conns i).tcpstateflags = .established) : Delivers m conns (inEstablished u i) := by
  unfold inEstablished
  split_ifs with hfin
  · exact .quiet
  · refine .appcall fun _ => ?_
    rw [h.buf] at hfin
    have hskip : skipped m (conns i).tcpstateflags = 0 := by
      rw [skipped, if_neg fun hcond => hfin hcond.2.1]
    rw [hskip, dataLength_of_no_skip hskip]
    exact ⟨h.buf, h.appdata, h.len⟩
  · have hnofin : m Hdr.flags &&& TCP_FIN = 0 := by
      rw [h.buf] at hfin
      simpa using hfin
    have hskip := skipUrgent_data h hs hnofin
    obtain ⟨hbuf, happ, hlen⟩ := noteNewdata_data (skipUrgent u) i
    dsimp only
    split_ifs
    · exact .appcall fun _ =>
        ⟨hbuf.trans hskip.1, happ.trans hskip.2.1, hlen.trans hskip.2.2⟩
    · exact .quiet

/-- In the other states the application is called without data, if at all. -/
theorem delivers_byState (h : Arrived m (conns i).tcpstateflags u i) :
    Delivers m conns (byState u i) := by
  unfold byState
  rw [h.state]
  cases hs : (conns i).tcpstateflags with
  | synRcvd => exact delivers_inSynRcvd h hs
  | established => exact delivers_inEstablished h hs
  | lastAck =>
    simp only [inLastAck]
    split_ifs
    · exact .of_no_data rfl
    · exact .quiet
  | finWait1 =>
    simp only [inFinWait1]
    split_ifs <;> first | exact .of_no_data rfl | exact .quiet
  | finWait2 =>
    simp only [inFinWait2]
    split_ifs <;> first | exact .of_no_data rfl | exact .quiet
  | closing =>
    simp only [inClosing]
    split_ifs <;> exact .quiet
  | timeWait => exact .quiet
  | closed => exact .quiet

end States

/-! ## Packets -/

theorem delivers_found {m : Mem} {u : Stack} {i : Slot} (hbuf : u.buf = m)
    (happ : u.appdata = UIP_IPTCPH_LEN + UIP_LLH_LEN) (hlen : u.len = num16 m Hdr.len) :
    Delivers m u.conns (found u i) := by
  simp only [found]
  split_ifs
  · exact .of_no_data rfl
  · exact .quiet
  · refine delivers_byState ?_
    set v : Stack := { u with
      flags := {}
      len := (u.len + 65536 - (tcpHeaderWords u.buf * 4 + UIP_IPH_LEN)) % 65536 } with hv
    have hstate := (ackInput_ackStep (u := v) (i := i) rfl).state
    obtain ⟨h1, h2, h3, h4⟩ := ackInput_data v i
    refine ⟨h1.trans hbuf, h2.trans happ, h3.trans ?_, hstate, h4 rfl⟩
    show (u.len + 65536 - (tcpHeaderWords u.buf * 4 + UIP_IPH_LEN)) % 65536 = segmentLength m
    rw [hlen, hbuf, segmentLength, tcpHeaderLen]

theorem delivers_tcpInput {m : Mem} {u : Stack} (hbuf : u.buf = m)
    (happ : u.appdata = UIP_IPTCPH_LEN + UIP_LLH_LEN) (hlen : u.len = num16 m Hdr.len) :
    Delivers m u.conns (tcpInput u) := by
  have hlisten : Delivers m u.conns (foundListen u) := by
    unfold foundListen
    split
    · exact .done
    · dsimp only
      split
      · exact .done
      · exact .listen
  unfold tcpInput
  generalize uipTcpchksum u.buf = sum
  split_ifs
  · exact .done
  all_goals
    split
    · exact delivers_found hbuf happ hlen
    · first | exact .done | exact hlisten

/-- **Where the application finds its data**: the packet is in the buffer as it came, the pointer is
where a segment without options has its data, or behind the urgent data that is skipped, and the
length is what the headers say, in 16 bits. -/
theorem delivers_uipProcessData {u u' : Stack} {i : Slot} {k : Resume}
    (h : uipProcessData u = .appcall i u' k) (hnew : u'.flags.newdata = true) :
    u'.buf = u.buf ∧
      u'.appdata = UIP_IPTCPH_LEN + UIP_LLH_LEN + skipped u.buf (u.conns i).tcpstateflags ∧
      u'.len = dataLength u.buf (u.conns i).tcpstateflags := by
  have htcp {v : Stack} (hv : tcpInput v = .appcall i u' k) (hbuf : v.buf = u.buf)
      (hconns : v.conns = u.conns) (happ : v.appdata = UIP_IPTCPH_LEN + UIP_LLH_LEN)
      (hlen : v.len = num16 u.buf Hdr.len) : u'.buf = u.buf ∧
        u'.appdata = UIP_IPTCPH_LEN + UIP_LLH_LEN + skipped u.buf (u.conns i).tcpstateflags ∧
        u'.len = dataLength u.buf (u.conns i).tcpstateflags := by
    have hdel := delivers_tcpInput hbuf happ hlen
    rw [hv, hconns] at hdel
    cases hdel with
    | appcall hdata => exact hdata hnew
  simp only [uipProcessData] at h
  generalize uipIpchksum u.buf = sum at h
  split_ifs at h
  exact htcp h rfl rfl rfl rfl

end Uip
end EgosNet
