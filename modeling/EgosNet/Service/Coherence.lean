import EgosNet.Service.Effect

/-!
# What is true in every state

`uip_process` does not always reset `uip_slen`: a poll starts with what was left of
the last packet, and if the application offers nothing then uIP sends that many bytes
of its own buffer.  The effects of `Service.Effect` are those of runs in which this
does not happen, and this file shows that it does not.

`Coherent` collects what is true of the variables of uIP, of the bridge and of the
sockets in every state, whatever arrives.  It says in particular that a payload is
only taken over when `uip_slen` is zero (`coherent_taken`).
-/

namespace EgosNet
namespace Service

open Foundation Uip

/-! ## `uip_slen` after a frame and a kick -/

theorem appsend_slen {w : Stack} {i : Slot} (h : w.flags.close = true ∨ w.slen = 0) :
    (appsend w i).slen = 0 := by
  have hexmit : ∀ v : Stack, (apprexmit v i).slen = v.slen := by
    intro v
    simp only [apprexmit]
    split_ifs <;> rfl
  unfold appsend
  split_ifs with hab hcl
  · rfl
  · rfl
  · have hs : w.slen = 0 := h.resolve_left hcl
    rw [hexmit, takeData, if_neg (by omega)]
    exact hs

/-- A call that offers nothing leaves `uip_slen` at zero. -/
theorem slen_complete {h : Httpd} {u : Stack} {i : Slot} (hoff : offers u.flags h = false)
    (hs : h.closePending = true ∨ u.slen = 0) :
    (complete h (.appcall i u .appsend)).1.1.slen = 0 := by
  change (appsend (httpdAppcall u h).1 i).slen = 0
  apply appsend_slen
  rw [httpdAppcall_fst]
  cases hclose : h.closePending with
  | true => exact Or.inl rfl
  | false =>
    rw [if_neg (by simp), if_neg (by simp [hoff])]
    exact Or.inr (hs.resolve_left (by simp [hclose]))

theorem process_slen (n : Net) (v : Verdict) :
    (process n v).1.uip.slen = (complete n.httpd v).1.1.slen :=
  (sendPacket_undisturbed _).slen

theorem slen_netPoll (n : Net) (rx : Rx) :
    (frameCall n rx = none → (netPoll n rx).1.uip.slen = n.uip.slen) ∧
      ∀ c ∈ frameCall n rx, c.resume = .appsend → offers c.flags n.httpd = false →
        (netPoll n rx).1.uip.slen = 0 := by
  rcases netPoll_cases n rx with ⟨-, hv, hu, -⟩ | ⟨-, hv, n', hu, heq, -⟩ | ⟨-, v, hv, hdef, heq⟩
  · exact ⟨fun _ => hu.slen, by simp [frameCall, hv]⟩
  · refine ⟨fun _ => ?_, by simp [frameCall, hv]⟩
    rw [heq, syncSocketState_uip, hu.slen]
  · have hcall : frameCall n rx = callIn n.httpd v := by rw [frameCall, hv]; rfl
    have hslen : (netPoll n rx).1.uip.slen = (complete n.httpd v).1.1.slen := by
      rw [heq, syncSocketState_uip, process_slen]
    have hkeep := keepsSlen_uipProcessData (earthNetRecv n.uip rx)
    have hsound := sound_uipProcessData (earthNetRecv n.uip rx)
    rw [← hdef] at hkeep hsound
    rw [KeepsSlen, earthNetRecv_slen] at hkeep
    rw [hcall, hslen]
    cases hsound with
    | done _ _ => exact ⟨fun _ => hkeep, by simp [callIn]⟩
    | quiet _ _ _ => exact ⟨fun _ => hkeep, by simp [callIn]⟩
    | listen _ _ _ _ _ => exact ⟨fun _ => hkeep, by simp [callIn]⟩
    | @appcall i u' k _ _ hzero =>
      refine ⟨by simp [callIn], fun c hc hk hoff => ?_⟩
      obtain rfl := Option.some.inj hc
      obtain rfl : k = .appsend := hk
      exact slen_complete hoff (Or.inr (hzero rfl))

theorem slen_kick (n : Net) :
    (kickCall n = none → (kickActiveConnection n).1.uip.slen = n.uip.slen) ∧
      ∀ c ∈ kickCall n, offers c.flags n.httpd = false →
        n.httpd.closePending = true ∨ n.uip.slen = 0 →
        (kickActiveConnection n).1.uip.slen = 0 := by
  rcases kick_cases n with ⟨-, hv, heq⟩ | ⟨-, hv, heq⟩ | ⟨-, i, -, hv, heq⟩
  · exact ⟨fun _ => by rw [heq], by simp [kickCall, hv]⟩
  · exact ⟨fun _ => by rw [heq, syncSocketState_uip], by simp [kickCall, hv]⟩
  · have hcall : kickCall n = callIn n.httpd (uipProcessPoll n.uip i) := by rw [kickCall, hv]; rfl
    have hslen : (kickActiveConnection n).1.uip.slen =
        (complete n.httpd (uipProcessPoll n.uip i)).1.1.slen := by
      rw [heq, syncSocketState_uip, process_slen]
    rw [hcall, hslen]
    simp only [uipProcessPoll]
    split_ifs
    · refine ⟨by simp [callIn], fun c hc hoff hs => ?_⟩
      obtain rfl := Option.some.inj hc
      exact slen_complete hoff hs
    · exact ⟨fun _ => rfl, by simp [callIn]⟩

/-! ## What is true in every state -/

/-- The variables of uIP, of the bridge and of the sockets fit together: nothing is
left over in uIP while the bridge is open and idle, and while a socket is open its
copies agree with the variables of the bridge. -/
structure Coherent (n : Net) : Prop where
  fits : n.httpd.txLen ≤ NET_BUF_SIZE
  slen : n.httpd.connOpen = true → n.httpd.txPending = false → n.uip.slen = 0
  copies : n.sock.connOpen = true → n.httpd.connOpen = true ∧
    n.sock.connPending = n.httpd.connPending ∧ n.sock.txPending = n.httpd.txPending
  pending : n.sock.connPending = true → n.httpd.connPending = true

/-- A call that does not end the connection is one after which uIP goes on sending. -/
theorem appsend_of_not_ends {c c' : UipConn} {f : UipFlags} {k : Resume} (h : CallStep c c' f k)
    (he : ends f = false) : k = .appsend := by
  cases h with
  | aborted _ => simp [ends] at he
  | connected _ _ _ _ => rfl
  | established _ _ _ _ _ _ => rfl
  | fin _ _ _ _ _ _ => simp [ends] at he
  | closed _ _ => simp [ends] at he
  | finished _ _ => simp [ends] at he

theorem noted_txLen_le {h : Httpd} (c : Option Call) (hle : h.txLen ≤ NET_BUF_SIZE) :
    (noted h c).txLen ≤ NET_BUF_SIZE := by
  cases c with
  | none => exact hle
  | some c =>
    simp only [noted, note]
    split_ifs
    · exact Nat.zero_le _
    · exact hle

theorem coherent_netPoll {n : Net} (hn : Coherent n) (rx : Rx) : Coherent (netPoll n rx).1 := by
  by_cases hf : rx.frame = []
  · rcases netPoll_cases n rx with ⟨-, -, hu, -⟩ | ⟨hf', -⟩ | ⟨hf', -⟩
    · obtain ⟨h1, h2, h3, h4⟩ := hn
      rw [← hu.httpd, ← hu.sock, ← hu.slen] at *
      exact ⟨h1, h2, h3, h4⟩
    · exact absurd hf hf'
    · exact absurd hf hf'
  · have hhttpd := netPoll_httpd n rx
    have hsock := netPoll_sock n rx
    rw [if_neg hf] at hhttpd hsock
    obtain ⟨hnone, hsome⟩ := slen_netPoll n rx
    refine ⟨?_, ?_, ?_, ?_⟩
    · rw [hhttpd]
      exact noted_txLen_le _ hn.fits
    · rw [hhttpd]
      intro hopen htx
      cases hc : frameCall n rx with
      | none =>
        rw [hc] at hopen htx
        rw [hnone hc]
        exact hn.slen hopen htx
      | some c =>
        rw [hc] at hopen htx
        have hends : ends c.flags = false := by
          by_contra he
          simp [noted, note, he] at hopen
        refine hsome c hc (appsend_of_not_ends (callStep_of_frameCall hc) hends) ?_
        by_contra hoff
        have hoff' : offers c.flags n.httpd = true := by simpa using hoff
        simp only [offers, decide_eq_true_eq] at hoff'
        obtain ⟨-, htx', hack, -⟩ := hoff'
        simp [noted, note, hack, htx'] at htx
    · rw [hsock, hhttpd]
      exact fun hopen => ⟨hopen, rfl, rfl⟩
    · rw [hsock, hhttpd]
      exact id

theorem coherent_kick {n : Net} (hn : Coherent n) : Coherent (kickActiveConnection n).1 := by
  by_cases hl : n.sock.listenPort < 0
  · rcases kick_cases n with ⟨-, -, heq⟩ | ⟨hl', -⟩ | ⟨hl', -⟩
    · rwa [heq]
    · exact absurd hl (not_lt.mpr hl')
    · exact absurd hl (not_lt.mpr hl')
  · have hhttpd := kick_httpd n
    have hsock := kick_sock n
    rw [if_neg hl] at hhttpd hsock
    obtain ⟨hnone, hsome⟩ := slen_kick n
    refine ⟨?_, ?_, ?_, ?_⟩
    · rw [hhttpd]
      exact noted_txLen_le _ hn.fits
    · rw [hhttpd]
      intro hopen htx
      cases hc : kickCall n with
      | none =>
        rw [hc] at hopen htx
        rw [hnone hc]
        exact hn.slen hopen htx
      | some c =>
        obtain ⟨hflags, -⟩ := kickCall_flags hc
        have hopen' : n.httpd.connOpen = true := by
          simpa [hc, noted, note, hflags, ends] using hopen
        have htx' : n.httpd.txPending = false := by simpa [hc, noted, note, hflags] using htx
        exact hsome c hc (by simp [offers, htx']) (Or.inr (hn.slen hopen' htx'))
    · rw [hsock, hhttpd]
      exact fun hopen => ⟨hopen, rfl, rfl⟩
    · rw [hsock, hhttpd]
      exact id

theorem coherent_takePayload {n : Net} (hn : Coherent n) (length : ℤ) (buf : Mem) :
    Coherent (takePayload n (clampNetLength length) buf) := by
  have hhttpd := (takePayload_httpd n (clampNetLength length) buf).1
  have hsock := takePayload_sock n (clampNetLength length) buf
  refine ⟨?_, ?_, ?_, ?_⟩
  · rw [hhttpd]
    exact clampNetLength_le length
  · rw [hhttpd]
    simp
  · rw [hsock, hhttpd]
    intro hopen
    obtain ⟨h1, h2, -⟩ := hn.copies hopen
    exact ⟨h1, h2, rfl⟩
  · rw [hsock, hhttpd]
    exact hn.pending

/-- **Every step keeps the variables coherent.** -/
theorem coherent_step {n n' : Net} {i : Input} {o : Outcome} (hn : Coherent n)
    (h : step n i = some (n', o)) : Coherent n' := by
  obtain ⟨hh, -, -⟩ := step_spec h
  obtain ⟨request, rx⟩ := i
  have hp := coherent_netPoll hn rx
  have hn' : n' = (handle n ⟨request, rx⟩).1 := by rw [hh]
  rw [hn']
  cases request with
  | netSend length buf =>
    have hu := earthNetSend_undisturbed n length buf
    obtain ⟨h1, h2, h3, h4⟩ := hn
    rw [← hu.httpd, ← hu.sock, ← hu.slen] at *
    exact ⟨h1, h2, h3, h4⟩
  | netRecv =>
    simp only [handle, handleNetRecv]
    split_ifs <;> exact ⟨hn.fits, hn.slen, hn.copies, hn.pending⟩
  | sockListen port =>
    simp only [handle, handleSockListen]
    split_ifs
    · exact hn
    · exact ⟨Nat.zero_le _, by simp [resetSocketState], by simp [resetSocketState],
        by simp [resetSocketState]⟩
  | sockAccept =>
    simp only [handle, handleSockAccept]
    split_ifs
    · refine ⟨hp.fits, hp.slen, fun hopen => ?_, by simp [clearPending]⟩
      obtain ⟨h1, -, h3⟩ := hp.copies hopen
      exact ⟨h1, rfl, h3⟩
    · exact hp
  | sockRecv connId length =>
    simp only [handle, handleSockRecv]
    split_ifs <;> exact ⟨hp.fits, hp.slen, hp.copies, hp.pending⟩
  | sockSend connId length buf =>
    rcases handle_sockSend_cases n connId length buf rx with ⟨_, -, heq⟩ | ⟨t, ht, -, -, heq⟩
    · rw [heq]
      exact hp
    · rw [heq, ht]
      exact coherent_kick (coherent_takePayload hp length buf)
  | sockClose connId =>
    by_cases hv : socketConnValid (netPoll n rx).1.sock connId = true
    · simp only [handle, handleSockClose, hv, not_true, if_false]
      have hask : Coherent (askClose (netPoll n rx).1) := ⟨hp.fits, hp.slen, hp.copies, hp.pending⟩
      have hk := coherent_kick hask
      exact ⟨hk.fits, hk.slen, by simp [forgetConn], by simp [forgetConn]⟩
    · simp only [handle, handleSockClose, hv]
      exact hp

theorem coherent_init : Coherent Net.init :=
  ⟨Nat.zero_le _, by simp [Net.init], by simp [Net.init], by simp [Net.init]⟩

/-! ## Before a kick -/

/-- A payload is taken over only while the bridge is open and nothing is pending. -/
theorem idle_of_taken {n t : Net} {i : Input} (ht : taken n i = some t)
    (hm : Coherent (netPoll n i.rx).1) :
    (netPoll n i.rx).1.httpd.connOpen = true ∧ (netPoll n i.rx).1.httpd.txPending = false ∧
      (netPoll n i.rx).1.httpd.connPending = (netPoll n i.rx).1.sock.connPending := by
  obtain ⟨-, hopen, htx, -⟩ := taken_spec ht
  obtain ⟨hopen', hpend, htx'⟩ := hm.copies hopen
  exact ⟨hopen', htx'.symm.trans htx, hpend.symm⟩

theorem coherent_taken {n t : Net} {i : Input} (ht : taken n i = some t)
    (hm : Coherent (netPoll n i.rx).1) : Coherent t ∧ Drained t := by
  obtain ⟨hopen, htx, -⟩ := idle_of_taken ht hm
  obtain ⟨-, -, -, length, buf, rfl⟩ := taken_spec ht
  refine ⟨coherent_takePayload hm length buf, fun _ _ => ?_⟩
  rw [takePayload_slen]
  exact hm.slen hopen htx

theorem coherent_askClose {n : Net} (hn : Coherent n) :
    Coherent (askClose n) ∧ Drained (askClose n) :=
  ⟨⟨hn.fits, hn.slen, hn.copies, hn.pending⟩, fun hclose => by simp [askClose] at hclose⟩

end Service
end EgosNet
