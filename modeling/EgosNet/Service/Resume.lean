import EgosNet.Service.Poll
import EgosNet.Uip.Transitions

/-!
# After the application

The second half of `uip_process`, with `httpd_appcall` before it: what becomes of
the connection and which segment goes out.  The label after the call decides.  At
`appsend`, where a connection in use goes on, there are four cases:

* a close is pending: a `FIN` goes out, whatever is in flight
  (`complete_appsend_close`);
* data is offered and none is in flight: as much of it as the segment size allows
  goes out (`complete_appsend_fresh`);
* data is offered and some is in flight: as many bytes as are in flight go out
  again, from the beginning of what is offered (`complete_appsend_again`);
* nothing is offered: at most an acknowledgement goes out
  (`complete_appsend_idle`).
-/

namespace EgosNet
namespace Service

open Foundation Uip

/-! ## Segments -/

section Segments

variable (u : Stack) (i : Slot)

theorem segmentOf_tcpSendNoopts :
    segmentOf (tcpSendNoopts u i) =
      ⟨(u.conns i).sndNxt, u.buf Hdr.flags, u.buf.load 54 (u.len - UIP_IPTCPH_LEN)⟩ := by
  have hwords : tcpHeaderWords (tcpSendNoopts u i).buf = 5 := by
    simp only [tcpHeaderWords, tcpSendNoopts, tcpSend_tcpoffset, Stack.put_buf_self]
    decide
  have hflags : (tcpSendNoopts u i).buf Hdr.flags = u.buf Hdr.flags := by
    simp only [tcpSendNoopts, tcpSend_flags]
    exact Stack.put_buf_of_ge _ (by simp)
  have hdata : (tcpSendNoopts u i).buf.load 54 (u.len - UIP_IPTCPH_LEN) =
      u.buf.load 54 (u.len - UIP_IPTCPH_LEN) := by
    refine Mem.load_congr fun k _ => ?_
    rw [tcpSendNoopts, tcpSend_buf_of_ge _ _ (by omega)]
    exact Stack.put_buf_of_ge _ (by simp; omega)
  have hseq : word32 (tcpSendNoopts u i).buf Hdr.seqno = (u.conns i).sndNxt := tcpSend_seqno _ _
  rw [segmentOf, hwords, hseq, hflags]
  exact congrArg _ hdata

/-- A header alone carries no data. -/
theorem segmentOf_tcpSendNodata :
    segmentOf (tcpSendNodata u i) = ⟨(u.conns i).sndNxt, u.buf Hdr.flags, []⟩ :=
  segmentOf_tcpSendNoopts _ i

theorem segmentOf_tcpSendAck :
    segmentOf (tcpSendAck u i) = ⟨(u.conns i).sndNxt, TCP_ACK, []⟩ :=
  segmentOf_tcpSendNodata _ i

/-- A `SYNACK` carries an option and no data. -/
theorem segmentOf_tcpSendSynack :
    (segmentOf (tcpSendSynack u i)).flags = TCP_ACK ||| TCP_SYN ∧
      (segmentOf (tcpSendSynack u i)).data = [] := by
  have hwords : tcpHeaderWords (tcpSendSynack u i).buf = 6 := by
    simp only [tcpHeaderWords, tcpSendSynack, tcpSend_tcpoffset, Stack.put_buf_self]
    decide
  constructor
  · simp only [segmentOf, tcpSendSynack, tcpSend_flags]
    rfl
  · simp only [segmentOf, hwords]
    rfl

end Segments

/-! ## What the application leaves in uIP -/

section Application

variable {u : Stack} {h : Httpd} {i : Slot}

theorem uipSend_spec {data : Mem} {len : ℕ} (hpos : 0 < len) (hlen : len < 65536) :
    (uipSend u data len).conns = u.conns ∧ (uipSend u data len).listenports = u.listenports ∧
      (uipSend u data len).flags = u.flags ∧ (uipSend u data len).slen = len ∧
      (uipSend u data len).buf = u.buf.store 54 (data.load 0 len) := by
  have hmod : len % 65536 = len := Nat.mod_eq_of_lt hlen
  unfold uipSend
  rw [if_pos hpos, hmod]
  dsimp only
  split_ifs <;> exact ⟨rfl, rfl, rfl, rfl, rfl⟩

theorem uipSend_conns (data : Mem) (len : ℕ) :
    (uipSend u data len).conns = u.conns ∧ (uipSend u data len).listenports = u.listenports := by
  simp only [uipSend]
  split_ifs <;> exact ⟨rfl, rfl⟩

theorem httpdAppcall_conns (u : Stack) (h : Httpd) :
    (httpdAppcall u h).1.conns = u.conns ∧
      (httpdAppcall u h).1.listenports = u.listenports := by
  rw [httpdAppcall_fst]
  split_ifs
  · exact ⟨rfl, rfl⟩
  · exact uipSend_conns _ _
  · exact ⟨rfl, rfl⟩

/-- What `uip_process` has done when it returns: the table is as it was but for
connection `i`, which is now `c`, and the segments `segs` went out for it. -/
structure Leaves (u : Stack) (r : (Stack × Httpd) × List Event) (i : Slot) (c : UipConn)
    (segs : List Segment) : Prop where
  conn : r.1.1.conns i = c
  conns : ∀ j, j ≠ i → r.1.1.conns j = u.conns j
  listenports : r.1.1.listenports = u.listenports
  emitted : emitted r.2 = segs.map fun s => (i, s)

theorem segments_of_pos {v : Stack} (hv : 0 < v.len) : segments i v = [.segment i (segmentOf v)] :=
  if_pos hv

theorem segments_of_zero {v : Stack} (hv : v.len = 0) : segments i v = [] :=
  if_neg (by omega)

theorem complete_drop : Leaves u (complete h (.appcall i u .drop)) i (u.conns i) [] := by
  obtain ⟨hc, hl⟩ := httpdAppcall_conns u h
  exact ⟨congrFun hc i, fun j _ => congrFun hc j, hl, rfl⟩

theorem complete_ack :
    Leaves u (complete h (.appcall i u .ack)) i (u.conns i)
      [⟨(u.conns i).sndNxt, TCP_ACK, []⟩] := by
  obtain ⟨hc, hl⟩ := httpdAppcall_conns u h
  refine ⟨congrFun hc i, fun j _ => congrFun hc j, hl, ?_⟩
  have hseg := segmentOf_tcpSendAck (httpdAppcall u h).1 i
  rw [hc] at hseg
  exact congrArg (fun s => [(i, s)]) hseg

/-- After the peer's `FIN`, ours goes out. -/
theorem complete_finack :
    Leaves u (complete h (.appcall i u .finack)) i
      { u.conns i with len := 1, tcpstateflags := .lastAck, nrtx := 0 }
      [⟨(u.conns i).sndNxt, TCP_FIN ||| TCP_ACK, []⟩] := by
  obtain ⟨hc, hl⟩ := httpdAppcall_conns u h
  set w := (httpdAppcall u h).1 with hw
  set v := w.setConn i { w.conns i with len := 1, tcpstateflags := .lastAck, nrtx := 0 } with hv
  have hvi : v.conns i = { u.conns i with len := 1, tcpstateflags := .lastAck, nrtx := 0 } := by
    rw [hv, Stack.setConn_conns_self, hc]
  have hseg := segmentOf_tcpSendNodata (v.put Hdr.flags [TCP_FIN ||| TCP_ACK]) i
  rw [Stack.put_conns, hvi, Stack.put_buf_self] at hseg
  refine ⟨hvi, fun j hj => ?_, hl, ?_⟩
  · exact (Stack.setConn_conns_of_ne w hj _).trans (congrFun hc j)
  · exact congrArg (fun s => [(i, s)]) hseg

/-! ### `appsend` -/

/-- **A pending close** becomes a `FIN` at the first sequence number in flight. -/
theorem complete_appsend_close (hclose : h.closePending = true) :
    Leaves u (complete h (.appcall i u .appsend)) i
      { u.conns i with len := 1, tcpstateflags := .finWait1, nrtx := 0 }
      [⟨(u.conns i).sndNxt, TCP_FIN ||| TCP_ACK, []⟩] := by
  have hw : (httpdAppcall u h).1 = uipClose u := by rw [httpdAppcall_fst, if_pos hclose]
  set v : Stack := Stack.setConn { uipClose u with slen := 0 } i
    { u.conns i with len := 1, tcpstateflags := .finWait1, nrtx := 0 } with hv
  have hvi : v.conns i = { u.conns i with len := 1, tcpstateflags := .finWait1, nrtx := 0 } :=
    Stack.setConn_conns_self _ _ _
  have hrun : appsend (uipClose u) i = tcpSendNodata (v.put Hdr.flags [TCP_FIN ||| TCP_ACK]) i := by
    simp only [appsend, uipClose]
    rfl
  have hseg := segmentOf_tcpSendNodata (v.put Hdr.flags [TCP_FIN ||| TCP_ACK]) i
  rw [Stack.put_conns, hvi, Stack.put_buf_self] at hseg
  simp only [complete, Resume.run, hw, hrun]
  refine ⟨hvi, fun j hj => Stack.setConn_conns_of_ne _ hj _, rfl, ?_⟩
  exact congrArg (fun s => [(i, s)]) hseg

theorem apprexmit_frame (w : Stack) :
    (apprexmit w i).conns = w.conns ∧ (apprexmit w i).listenports = w.listenports := by
  simp only [apprexmit]
  split_ifs <;> exact ⟨rfl, rfl⟩

/-- The data segment that `apprexmit` builds. -/
theorem apprexmit_data {w : Stack} (hs : 0 < w.slen) (hpos : 0 < (w.conns i).len)
    (hlen : (w.conns i).len + UIP_IPTCPH_LEN < 65536) :
    segments i (apprexmit w i) =
      [.segment i ⟨(w.conns i).sndNxt, TCP_ACK ||| TCP_PSH, w.buf.load 54 (w.conns i).len⟩] := by
  have hmod : ((w.conns i).len + UIP_IPTCPH_LEN) % 65536 = (w.conns i).len + UIP_IPTCPH_LEN :=
    Nat.mod_eq_of_lt hlen
  unfold apprexmit
  rw [if_pos ⟨hs, hpos⟩, segments_of_pos]
  · rw [segmentOf_tcpSendNoopts, Stack.put_buf_self]
    have hdata : ∀ (v : Stack) (n : ℕ), (v.put Hdr.flags [TCP_ACK ||| TCP_PSH]).buf.load 54 n =
        v.buf.load 54 n := fun v n => Mem.load_store_of_disjoint (Or.inr (by simp))
    simp only [hdata, Stack.put_conns, Stack.put_len, hmod, Nat.add_sub_cancel]
  · change 0 < ((w.conns i).len + UIP_IPTCPH_LEN) % 65536
    rw [hmod]
    omega

/-- The packet that carries the data. -/
theorem apprexmit_packet {w : Stack} (hs : 0 < w.slen) (hpos : 0 < (w.conns i).len)
    (hlen : (w.conns i).len + UIP_IPTCPH_LEN < 65536) (n : ℕ) :
    (apprexmit w i).len = (w.conns i).len + UIP_IPTCPH_LEN ∧
      (apprexmit w i).buf.load 54 n = w.buf.load 54 n := by
  unfold apprexmit
  rw [if_pos ⟨hs, hpos⟩]
  refine ⟨Nat.mod_eq_of_lt hlen, Mem.load_congr fun k _ => ?_⟩
  rw [tcpSendNoopts, tcpSend_buf_of_ge _ _ (by omega), Stack.put_buf_of_ge _ (by simp; omega)]
  exact Stack.put_buf_of_ge _ (by simp; omega)

/-- What `apprexmit` does when there is nothing to send. -/
theorem apprexmit_idle {w : Stack} (hs : w.slen = 0 ∨ (w.conns i).len = 0) :
    segments i (apprexmit w i) =
      if w.flags.newdata then [.segment i ⟨(w.conns i).sndNxt, TCP_ACK, []⟩] else [] := by
  have hnot : ¬ (0 < w.slen ∧ 0 < (w.conns i).len) := by omega
  unfold apprexmit
  rw [if_neg hnot]
  by_cases hn : w.flags.newdata = true
  · rw [if_pos hn, if_pos hn, segments_of_pos (show 0 < UIP_IPTCPH_LEN by decide),
      segmentOf_tcpSendNoopts, Stack.put_buf_self]
    rfl
  · rw [if_neg hn, if_neg hn]
    exact segments_of_zero rfl

/-- The bare acknowledgement that answers new data when there is nothing to send. -/
def ackIf (newdata : Bool) (c : UipConn) : List Segment :=
  if newdata then [⟨c.sndNxt, TCP_ACK, []⟩] else []

section Open

variable {w : Stack} {c : UipConn} {n : ℕ} {segs : List Segment}

/-- The stack that `apprexmit` works on, once the length to send is settled. -/
def settledStack (w : Stack) (i : Slot) (c : UipConn) (n : ℕ) : Stack :=
  Stack.setConn { w.setConn i c with slen := n } i { c with nrtx := 0 }

@[simp] theorem settledStack_conns_self (w : Stack) (i : Slot) (c : UipConn) (n : ℕ) :
    (settledStack w i c n).conns i = { c with nrtx := 0 } :=
  Stack.setConn_conns_self _ _ _

@[simp] theorem settledStack_buf (w : Stack) (i : Slot) (c : UipConn) (n : ℕ) :
    (settledStack w i c n).buf = w.buf := rfl

@[simp] theorem settledStack_flags (w : Stack) (i : Slot) (c : UipConn) (n : ℕ) :
    (settledStack w i c n).flags = w.flags := rfl

@[simp] theorem settledStack_slen (w : Stack) (i : Slot) (c : UipConn) (n : ℕ) :
    (settledStack w i c n).slen = n := rfl

/-- Once the application is done with the stack (`w`) and the length to send is
settled (`c`, `n`), the rest is `apprexmit`. -/
theorem complete_appsend_eq (hw : (httpdAppcall u h).1 = w) (hab : w.flags.abort = false)
    (hcl : w.flags.close = false) (htake : takeData w i = { w.setConn i c with slen := n }) :
    complete h (.appcall i u .appsend) =
      ((apprexmit (settledStack w i c n) i, (httpdAppcall u h).2),
        .call (callOf i u h .appsend) :: segments i (apprexmit (settledStack w i c n) i)) := by
  have hrun : appsend w i = apprexmit (settledStack w i c n) i := by
    have hci : ({ w.setConn i c with slen := n } : Stack).conns i = c :=
      Stack.setConn_conns_self w i c
    simp [appsend, hab, hcl, htake, hci, settledStack]
  simp only [complete, Resume.run, hw, hrun]

theorem complete_appsend_open (hw : (httpdAppcall u h).1 = w) (hab : w.flags.abort = false)
    (hcl : w.flags.close = false) (hc : w.conns = u.conns) (hl : w.listenports = u.listenports)
    (htake : takeData w i = { w.setConn i c with slen := n })
    (hsegs : segments i (apprexmit (settledStack w i c n) i) = segs.map fun s => .segment i s) :
    Leaves u (complete h (.appcall i u .appsend)) i { c with nrtx := 0 } segs := by
  obtain ⟨hconns, hports⟩ := apprexmit_frame (i := i) (settledStack w i c n)
  rw [complete_appsend_eq hw hab hcl htake]
  refine ⟨?_, fun j hj => ?_, ?_, ?_⟩
  · exact (congrFun hconns i).trans (Stack.setConn_conns_self _ _ _)
  · rw [hconns, settledStack, Stack.setConn_conns_of_ne _ hj]
    exact (Stack.setConn_conns_of_ne w hj c).trans (congrFun hc j)
  · exact hports.trans hl
  · change emitted (segments i _) = _
    rw [hsegs, emitted, List.filterMap_map]
    exact List.filterMap_eq_map ▸ rfl

variable (hclose : h.closePending = false) (hab : u.flags.abort = false)
  (hcl : u.flags.close = false)

include hclose hab hcl

omit hab hcl in
/-- The stack after a call that offers data. -/
theorem httpdAppcall_offers (hoff : offers u.flags h = true) (hpos : 0 < h.txLen)
    (htx : h.txLen ≤ NET_BUF_SIZE) :
    (httpdAppcall u h).1 = uipSend u h.txBuf h.txLen ∧ u.flags.ackdata = false ∧
      (uipSend u h.txBuf h.txLen).conns = u.conns ∧
      (uipSend u h.txBuf h.txLen).listenports = u.listenports ∧
      (uipSend u h.txBuf h.txLen).flags = u.flags ∧
      (uipSend u h.txBuf h.txLen).slen = h.txLen ∧
      (uipSend u h.txBuf h.txLen).buf = u.buf.store 54 (h.txBuf.load 0 h.txLen) := by
  have htx' : h.txLen ≤ 512 := htx
  refine ⟨?_, ?_, uipSend_spec hpos (by omega)⟩
  · rw [httpdAppcall_fst, if_neg (by simp [hclose]), if_pos hoff]
  · simp only [offers, decide_eq_true_eq] at hoff
    exact hoff.2.2.1

/-- **Fresh data**: as much as the segment size allows goes out. -/
theorem complete_appsend_fresh (hoff : offers u.flags h = true) (hpos : 0 < h.txLen)
    (htx : h.txLen ≤ NET_BUF_SIZE) (hlen : (u.conns i).len = 0) (hmss : 0 < (u.conns i).mss) :
    Leaves u (complete h (.appcall i u .appsend)) i
        { u.conns i with len := min h.txLen (u.conns i).mss, nrtx := 0 }
        [⟨(u.conns i).sndNxt, TCP_ACK ||| TCP_PSH,
          h.txBuf.load 0 (min h.txLen (u.conns i).mss)⟩] ∧
      (complete h (.appcall i u .appsend)).1.1.len =
        min h.txLen (u.conns i).mss + UIP_IPTCPH_LEN ∧
      (complete h (.appcall i u .appsend)).1.1.buf.load 54 (min h.txLen (u.conns i).mss) =
        h.txBuf.load 0 (min h.txLen (u.conns i).mss) := by
  have htx' : h.txLen ≤ 512 := htx
  obtain ⟨hw, hack, hc, hl, hf, hs, hb⟩ := httpdAppcall_offers (u := u) hclose hoff hpos htx
  have hab' : (uipSend u h.txBuf h.txLen).flags.abort = false := by rw [hf, hab]
  have hcl' : (uipSend u h.txBuf h.txLen).flags.close = false := by rw [hf, hcl]
  set n := min h.txLen (u.conns i).mss with hn
  have hnle : n ≤ h.txLen := Nat.min_le_left _ _
  have hnpos : 0 < n := by omega
  have htake : takeData (uipSend u h.txBuf h.txLen) i =
      { (uipSend u h.txBuf h.txLen).setConn i { u.conns i with len := n } with slen := n } := by
    simp only [takeData, hs, hpos, hf, hack, hc, hlen, if_true, Bool.false_eq_true, if_false, ← hn]
  have hpay : (uipSend u h.txBuf h.txLen).buf.load 54 n = h.txBuf.load 0 n := by
    rw [hb, Mem.load_store_take _ _ _ (by simpa using hnle), Mem.load_take _ _ hnle]
  set v := settledStack (uipSend u h.txBuf h.txLen) i { u.conns i with len := n } n with hv
  have hvi : v.conns i = { u.conns i with len := n, nrtx := 0 } := settledStack_conns_self _ _ _ _
  have hvs : 0 < v.slen := hnpos
  have hvpos : 0 < (v.conns i).len := by rw [hvi]; exact hnpos
  have hvlen : (v.conns i).len + UIP_IPTCPH_LEN < 65536 := by
    rw [hvi]
    change n + 40 < 65536
    omega
  refine ⟨?_, ?_⟩
  · refine complete_appsend_open hw hab' hcl' hc hl htake ?_
    rw [apprexmit_data hvs hvpos hvlen, hvi]
    change [Event.segment i ⟨_, _, (uipSend u h.txBuf h.txLen).buf.load 54 n⟩] = _
    rw [hpay]
    rfl
  · obtain ⟨h1, h2⟩ := apprexmit_packet hvs hvpos hvlen n
    rw [complete_appsend_eq hw hab' hcl' htake]
    exact ⟨by rw [h1, hvi], h2.trans hpay⟩

/-- **Data in flight**: as many bytes as are in flight go out again. -/
theorem complete_appsend_again (hoff : offers u.flags h = true) (htx : h.txLen ≤ NET_BUF_SIZE)
    (hlen : (u.conns i).len ≠ 0) (hle : (u.conns i).len ≤ h.txLen) :
    Leaves u (complete h (.appcall i u .appsend)) i { u.conns i with nrtx := 0 }
      [⟨(u.conns i).sndNxt, TCP_ACK ||| TCP_PSH, h.txBuf.load 0 (u.conns i).len⟩] := by
  have htx' : h.txLen ≤ 512 := htx
  have hpos : 0 < h.txLen := by omega
  obtain ⟨hw, hack, hc, hl, hf, hs, hb⟩ := httpdAppcall_offers (u := u) hclose hoff hpos htx
  refine complete_appsend_open (n := (u.conns i).len) (c := u.conns i) hw (by rw [hf, hab])
    (by rw [hf, hcl]) hc hl ?_ ?_
  · simp only [takeData, hs, hpos, hf, hack, hc, hlen, if_true, Bool.false_eq_true, if_false]
  · rw [apprexmit_data]
    · have hpay : (uipSend u h.txBuf h.txLen).buf.load 54 (u.conns i).len =
          h.txBuf.load 0 (u.conns i).len := by
        rw [hb, Mem.load_store_take _ _ _ (by simpa using hle), Mem.load_take _ _ hle]
      simp [hpay]
    · simp only [settledStack_slen]
      omega
    · simp only [settledStack_conns_self]
      omega
    · simp only [settledStack_conns_self]
      change (u.conns i).len + 40 < 65536
      omega

/-- **Nothing offered**: new data is acknowledged, and that is all. -/
theorem complete_appsend_idle (hoff : offers u.flags h = false ∨ h.txLen = 0)
    (hslen : u.slen = 0) :
    Leaves u (complete h (.appcall i u .appsend)) i { u.conns i with nrtx := 0 }
      (ackIf u.flags.newdata (u.conns i)) := by
  have hw : (httpdAppcall u h).1 = u := by
    rw [httpdAppcall_fst, if_neg (by simp [hclose])]
    rcases hoff with hoff | hoff
    · rw [if_neg (by simp [hoff])]
    · simp [uipSend, hoff]
  refine complete_appsend_open (n := 0) (c := u.conns i) hw hab hcl rfl rfl ?_ ?_
  · simp only [takeData, hslen, lt_irrefl, if_false, Stack.setConn, Function.update_eq_self]
    rw [← hslen]
  · rw [apprexmit_idle (Or.inl rfl)]
    simp only [settledStack_conns_self, settledStack_flags, ackIf]
    cases hn : u.flags.newdata <;> rfl

/-- **No room**: with a segment size of zero nothing is sent. -/
theorem complete_appsend_zero (hoff : offers u.flags h = true) (hpos : 0 < h.txLen)
    (htx : h.txLen ≤ NET_BUF_SIZE) (hlen : (u.conns i).len = 0) (hmss : (u.conns i).mss = 0) :
    Leaves u (complete h (.appcall i u .appsend)) i { u.conns i with nrtx := 0 }
      (ackIf u.flags.newdata (u.conns i)) := by
  have htx' : h.txLen ≤ 512 := htx
  obtain ⟨hw, hack, hc, hl, hf, hs, -⟩ := httpdAppcall_offers (u := u) hclose hoff hpos htx
  have hmin : min h.txLen (u.conns i).mss = 0 := by rw [hmss, Nat.min_zero]
  have hconn : ({ u.conns i with nrtx := 0 } : UipConn) =
      { u.conns i with len := min h.txLen (u.conns i).mss, nrtx := 0 } := by rw [hmin, ← hlen]
  rw [hconn]
  refine complete_appsend_open (n := min h.txLen (u.conns i).mss)
    (c := { u.conns i with len := min h.txLen (u.conns i).mss }) hw (by rw [hf, hab])
    (by rw [hf, hcl]) hc hl ?_ ?_
  · simp only [takeData, hs, hpos, hf, hack, hc, hlen, if_true, Bool.false_eq_true, if_false]
  · rw [apprexmit_idle (Or.inl hmin)]
    simp only [settledStack_conns_self, settledStack_flags, ackIf, hf]
    cases hn : u.flags.newdata <;> rfl

end Open

end Application

end Service
end EgosNet
