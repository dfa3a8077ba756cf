import EgosNet.Service.Effect

/-!
# Which connections are in use

The state of a connection decides which calls of the application are possible, and the calls decide
what the service knows.  This file says how the connections in the state `ESTABLISHED` come and go,
whatever arrives and whatever is sent: a connection enters the state in the call that reports the
handshake, and the calls that report its end leave it in another state.

* `established_netPoll`: a connection that is in use after a frame was in use before, and the frame
  did not lead to the report of its end; or the frame led to the report of its handshake.
* `established_kick`: a kick brings no connection to life, and a pending close ends the connection
  that is polled.
* `frameCall_active`, `closed_netPoll`, `closed_kick`: a slot without a connection is called for
  nothing, and stays without one until a connection is opened in it.
-/

namespace EgosNet
namespace Service

open Foundation Uip

section Lifecycle

variable {n : Net} {rx : Rx} {a i j : Slot} {w : Stack} {k : Resume} {c : Call}

/-! ## The rest of `uip_process` -/

/-- Taking data leaves the state of the connection, and the others alone. -/
theorem takeData_conns : ∃ c : UipConn, (takeData w i).conns = Function.update w.conns i c ∧
    c.tcpstateflags = (w.conns i).tcpstateflags := by
  unfold takeData
  dsimp only
  split_ifs
  · exact ⟨_, rfl, rfl⟩
  · exact ⟨_, rfl, rfl⟩
  · exact ⟨_, rfl, rfl⟩
  · exact ⟨_, rfl, rfl⟩
  · exact ⟨w.conns i, (Function.update_eq_self i w.conns).symm, rfl⟩

theorem appsend_conns_of_ne (hj : j ≠ i) : (appsend w i).conns j = w.conns j := by
  obtain ⟨c, htake, -⟩ := takeData_conns (w := w) (i := i)
  unfold appsend
  split_ifs
  · exact Stack.setConn_conns_of_ne _ hj _
  · exact Stack.setConn_conns_of_ne _ hj _
  · dsimp only
    rw [(apprexmit_frame _).1, Stack.setConn_conns_of_ne _ hj, htake, Function.update_of_ne hj]

/-- `appsend:` ends the connection if the application asks for it, and otherwise leaves its state.
-/
theorem appsend_state : ((appsend w i).conns i).tcpstateflags =
    if w.flags.abort then .closed else if w.flags.close then .finWait1
    else (w.conns i).tcpstateflags := by
  obtain ⟨c, htake, hstate⟩ := takeData_conns (w := w) (i := i)
  unfold appsend
  split_ifs
  · exact congrArg UipConn.tcpstateflags (Stack.setConn_conns_self _ i _)
  · exact congrArg UipConn.tcpstateflags (Stack.setConn_conns_self _ i _)
  · dsimp only
    rw [(apprexmit_frame _).1, Stack.setConn_conns_self, htake, Function.update_self]
    exact hstate

/-- What is in use when `uip_process` is done was in use when the application returned. -/
theorem established_resume (h : ((k.run w i).conns a).tcpstateflags = .established) :
    (w.conns a).tcpstateflags = .established ∧ (k = .finack → a ≠ i) ∧
      (k = .appsend → w.flags.close = true → a ≠ i) := by
  cases k with
  | appsend =>
    by_cases hai : a = i
    · subst hai
      have hstate := appsend_state (w := w) (i := a)
      rw [show (appsend w a).conns a = ((Resume.appsend).run w a).conns a from rfl, h] at hstate
      split_ifs at hstate with hab hcl
      exact ⟨hstate.symm, by simp, fun _ hclose => absurd hclose hcl⟩
    · have hstay : ((Resume.appsend).run w i).conns a = w.conns a := appsend_conns_of_ne hai
      rw [hstay] at h
      exact ⟨h, fun _ => hai, fun _ _ => hai⟩
  | drop => exact ⟨h, by simp, by simp⟩
  | finack =>
    have hai : a ≠ i := by
      rintro rfl
      have hself : ((Resume.finack).run w a).conns a =
          { w.conns a with len := 1, tcpstateflags := .lastAck, nrtx := 0 } :=
        Stack.setConn_conns_self w a _
      rw [hself] at h
      exact absurd h (by simp)
    have hstay : ((Resume.finack).run w i).conns a = w.conns a := Stack.setConn_conns_of_ne w hai _
    rw [hstay] at h
    exact ⟨h, fun _ => hai, by simp⟩
  | ack => exact ⟨h, by simp, by simp⟩

/-! ## A frame -/

/-- **What is in use after a frame** was in use before, and its end was not reported; or its
handshake was. -/
theorem established_netPoll
    (h : ((netPoll n rx).1.uip.conns a).tcpstateflags = .established) :
    ((n.uip.conns a).tcpstateflags = .established ∧
      ∀ c ∈ frameCall n rx, c.slot = a → ends c.flags = false) ∨
    ∃ c ∈ frameCall n rx, c.slot = a ∧ c.flags.connected = true := by
  rcases netPoll_cases n rx with ⟨-, hv, hu, -⟩ | ⟨-, hv, n', hu, heq, -⟩ | ⟨-, v, hv, hdef, heq⟩
  · rw [hu.conns] at h
    exact Or.inl ⟨h, by simp [frameCall, hv]⟩
  · rw [heq, syncSocketState_uip, hu.conns] at h
    exact Or.inl ⟨h, by simp [frameCall, hv]⟩
  · have hcall : frameCall n rx = callIn n.httpd v := by rw [frameCall, hv]; rfl
    have hsound : Sound (earthNetRecv n.uip rx) v := hdef ▸ sound_uipProcessData _
    rw [heq, syncSocketState_uip, process_conns] at h
    rw [hcall]
    cases hsound with
    | @done u' hc _ =>
      rw [show (complete n.httpd (.done u')).1.1.conns = u'.conns from rfl, hc,
        earthNetRecv_conns] at h
      exact Or.inl ⟨h, by simp [callIn]⟩
    | @quiet i u' honly hquiet _ =>
      rw [show (complete n.httpd (.quiet i u')).1.1.conns = u'.conns from rfl] at h
      refine Or.inl ⟨?_, by simp [callIn]⟩
      by_cases hai : a = i
      · subst hai
        rw [hquiet.established, earthNetRecv_conns] at h
        exact h
      · rwa [honly.conns a hai, earthNetRecv_conns] at h
    | @listen i u' hothers _ hopen _ _ =>
      rw [show (complete n.httpd (.listen i u')).1.1.conns = u'.conns from rfl] at h
      refine Or.inl ⟨?_, by simp [callIn]⟩
      by_cases hai : a = i
      · subst hai
        rw [hopen.synRcvd] at h
        exact absurd h (by simp)
      · rwa [hothers a hai, earthNetRecv_conns] at h
    | @appcall i u' k honly hstep _ =>
      obtain ⟨hest, hfin, -⟩ := established_resume (w := (httpdAppcall u' n.httpd).1) (k := k)
        (i := i) h
      rw [(httpdAppcall_conns u' n.httpd).1] at hest
      by_cases hai : a = i
      · subst hai
        have hmem : callOf a u' n.httpd k ∈ callIn n.httpd (.appcall a u' k) := rfl
        rw [earthNetRecv_conns] at hstep
        have hslot {f : UipFlags} (hf : u'.flags = f) (he : ends f = false) :
            ∀ c ∈ callIn n.httpd (.appcall a u' k), c.slot = a → ends c.flags = false := by
          intro c hc _
          obtain rfl := Option.some.inj hc
          show ends u'.flags = false
          rw [hf, he]
        generalize hf : u'.flags = f at hstep
        cases hstep with
        | aborted hc => exact absurd (hc.symm.trans hest) (by simp)
        | connected d _ _ _ => exact Or.inr ⟨_, hmem, rfl, by rw [callOf, hf]⟩
        | established _ _ hs _ _ _ => exact Or.inl ⟨hs, hslot hf rfl⟩
        | fin _ _ _ _ _ _ => exact absurd rfl (hfin rfl)
        | closed _ hc => exact absurd (hc.symm.trans hest) (by simp)
        | finished _ hc =>
          rcases hc with hc | hc
          · exact absurd (hc.symm.trans hest) (by simp)
          · exact absurd (hc.symm.trans hest) (by simp)
      · rw [honly.conns a hai, earthNetRecv_conns] at hest
        refine Or.inl ⟨hest, fun c hc hslot => ?_⟩
        obtain rfl := Option.some.inj hc
        exact absurd hslot.symm hai

/-- A handshake is reported for a connection that was not in use. -/
theorem synRcvd_of_connected (hc : c ∈ frameCall n rx) (hcon : c.flags.connected = true) :
    (n.uip.conns c.slot).tcpstateflags = .synRcvd ∧ ends c.flags = false := by
  have hstep := callStep_of_frameCall hc
  obtain ⟨slot, conn, flags, data, closing, resume⟩ := c
  cases hstep with
  | connected d hs _ _ => exact ⟨hs, rfl⟩
  | _ => simp at hcon

/-! ## A kick -/

/-- **What is in use after a kick** was in use before, and was not the one that a pending close has
closed. -/
theorem established_kick
    (h : ((kickActiveConnection n).1.uip.conns a).tcpstateflags = .established) :
    (n.uip.conns a).tcpstateflags = .established ∧
      (n.httpd.closePending = true → ∀ c ∈ kickCall n, c.slot ≠ a) := by
  rcases kick_cases n with ⟨-, hv, heq⟩ | ⟨-, hv, heq⟩ | ⟨-, i, -, hv, heq⟩
  · rw [heq] at h
    exact ⟨h, by simp [kickCall, hv]⟩
  · rw [heq, syncSocketState_uip] at h
    exact ⟨h, by simp [kickCall, hv]⟩
  · have hcall : kickCall n = callIn n.httpd (uipProcessPoll n.uip i) := by rw [kickCall, hv]; rfl
    rw [heq, syncSocketState_uip, process_conns] at h
    rw [hcall]
    rcases uipProcessPoll_cases n.uip i with ⟨u', hu, hc, -⟩ | ⟨u', hu, hc, -⟩
    · rw [hu] at h ⊢
      rw [show (complete n.httpd (.done u')).1.1.conns = u'.conns from rfl, hc] at h
      exact ⟨h, by simp [callIn]⟩
    · rw [hu] at h ⊢
      obtain ⟨hest, -, hclose⟩ := established_resume (w := (httpdAppcall u' n.httpd).1)
        (k := .appsend) (i := i) h
      rw [(httpdAppcall_conns u' n.httpd).1, hc] at hest
      refine ⟨hest, fun hpend c hmem hslot => ?_⟩
      obtain rfl := Option.some.inj hmem
      refine hclose rfl ?_ hslot.symm
      rw [httpdAppcall_fst, if_pos hpend]
      rfl

/-- A kick calls the application for a connection in use. -/
theorem kickCall_established (hc : c ∈ kickCall n) :
    (n.uip.conns c.slot).tcpstateflags = .established := by
  obtain ⟨v, hv, hcall⟩ := Option.bind_eq_some_iff.mp hc
  rcases kick_cases n with ⟨-, hv', -⟩ | ⟨-, hv', -⟩ | ⟨-, i, -, hv', -⟩
  · simp [hv'] at hv
  · simp [hv'] at hv
  · obtain rfl : uipProcessPoll n.uip i = v := by simpa [hv'] using hv
    simp only [uipProcessPoll] at hcall
    split_ifs at hcall with hready
    · obtain rfl := Option.some.inj hcall
      exact hready.1
    · simp [callIn] at hcall

/-! ## A slot without a connection -/

/-- The application is called for a connection that exists. -/
theorem frameCall_active (hc : c ∈ frameCall n rx) :
    (n.uip.conns c.slot).tcpstateflags ≠ .closed := by
  obtain ⟨i, u, k, -, hdef, rfl⟩ := frameCall_eq_some hc
  have hfor := isFor_of_appcall hdef
  simp only [isFor, decide_eq_true_eq, earthNetRecv_conns] at hfor
  exact hfor.1

theorem resume_conns_of_ne (hj : j ≠ i) : (k.run w i).conns j = w.conns j := by
  cases k with
  | appsend => exact appsend_conns_of_ne hj
  | drop => rfl
  | finack => exact Stack.setConn_conns_of_ne w hj _
  | ack => rfl

/-- **A slot stays empty** until a connection is opened in it. -/
theorem closed_netPoll (h : (n.uip.conns a).tcpstateflags = .closed)
    (hopen : a ∉ openings (netPoll n rx).2) :
    ((netPoll n rx).1.uip.conns a).tcpstateflags = .closed := by
  rcases netPoll_cases n rx with ⟨-, hv, hu, -⟩ | ⟨-, hv, n', hu, heq, -⟩ | ⟨-, v, hv, hdef, heq⟩
  · rwa [hu.conns]
  · rwa [heq, syncSocketState_uip, hu.conns]
  · have hsound : Sound (earthNetRecv n.uip rx) v := hdef ▸ sound_uipProcessData _
    have hidle : ¬ Concerns a v := by
      intro hcon
      have hfor := isFor_of_concerns hdef.symm hcon
      simp only [isFor, decide_eq_true_eq, earthNetRecv_conns] at hfor
      exact hfor.1 h
    have hev : openings (netPoll n rx).2 = openings (complete n.httpd v).2 := by
      rw [heq]
      exact openings_process _ v
    rw [hev] at hopen
    rw [heq, syncSocketState_uip, process_conns]
    cases hsound with
    | @done u' hc _ =>
      rwa [show (complete n.httpd (.done u')).1.1.conns = u'.conns from rfl, hc,
        earthNetRecv_conns]
    | @quiet i u' honly _ _ =>
      have hai : a ≠ i := fun hai => hidle hai.symm
      rwa [show (complete n.httpd (.quiet i u')).1.1.conns = u'.conns from rfl,
        honly.conns a hai, earthNetRecv_conns]
    | @listen i u' hothers _ _ _ _ =>
      have hai : a ≠ i := by
        rintro rfl
        exact hopen (List.mem_cons_self)
      rwa [show (complete n.httpd (.listen i u')).1.1.conns = u'.conns from rfl,
        hothers a hai, earthNetRecv_conns]
    | @appcall i u' k honly _ _ =>
      have hai : a ≠ i := fun hai => hidle hai.symm
      have hstay : (complete n.httpd (.appcall i u' k)).1.1.conns a = u'.conns a := by
        have hresume := resume_conns_of_ne (w := (httpdAppcall u' n.httpd).1) (k := k) hai
        rwa [(httpdAppcall_conns u' n.httpd).1] at hresume
      rwa [hstay, honly.conns a hai, earthNetRecv_conns]

theorem closed_kick (h : (n.uip.conns a).tcpstateflags = .closed) :
    ((kickActiveConnection n).1.uip.conns a).tcpstateflags = .closed := by
  rcases kick_cases n with ⟨-, -, heq⟩ | ⟨-, -, heq⟩ | ⟨-, i, -, -, heq⟩
  · rwa [heq]
  · rwa [heq, syncSocketState_uip]
  · rw [heq, syncSocketState_uip, process_conns]
    rcases uipProcessPoll_cases n.uip i with ⟨u', hu, hc, -⟩ | ⟨u', hu, hc, -, -, -, -, hest, -⟩
    · rwa [hu, show (complete n.httpd (.done u')).1.1.conns = u'.conns from rfl, hc]
    · have hai : a ≠ i := by
        rintro rfl
        exact absurd (h.symm.trans hest) (by simp)
      have hresume := resume_conns_of_ne (w := (httpdAppcall u' n.httpd).1) (k := .appsend) hai
      rw [(httpdAppcall_conns u' n.httpd).1, hc] at hresume
      rw [hu, show (complete n.httpd (.appcall i u' .appsend)).1.1.conns a = n.uip.conns a from
        hresume]
      exact h

end Lifecycle

end Service
end EgosNet
