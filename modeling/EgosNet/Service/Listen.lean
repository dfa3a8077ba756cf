import EgosNet.Service.Kick
import EgosNet.Service.Peer

/-!
# The listening port

The service supports one listening port.  It keeps the number in `sock_listen_port`, and uIP keeps a
table of forty ports of which nothing is ever taken out: `sock_listen` puts the port into the first
entry that is zero, if there is one, and answers `NET_OK` in any case.  So the number and the table
part ways as soon as a second port is asked for, or a port that does not fit into the sixteen bits
of an entry.

A free entry is a zero, and a `SYN` is compared with all forty entries.  As long as one of them is
free, a `SYN` for port zero is therefore accepted, whatever the service listens on.

* `listening_step`: the table changes in `sock_listen` only.
* `SamePort`: a positive port fits, and is the one that was listened on before, if any was.
* `one_port_iff`: the table holds exactly the port of the last `sock_listen`, all along a run,
  exactly if every step meets `SamePort`; and then it is known for which ports a `SYN` is accepted.
-/

namespace EgosNet
namespace Service

open Foundation Uip

/-! ## What changes the table -/

/-- The rest of `uip_process` leaves the table alone. -/
theorem Resume.run_listenports (k : Resume) (u : Stack) (i : Slot) :
    (k.run u i).listenports = u.listenports := by
  cases k with
  | appsend =>
    show (appsend u i).listenports = u.listenports
    unfold appsend
    split_ifs
    · rfl
    · rfl
    · have htake : (takeData u i).listenports = u.listenports := by
        unfold takeData
        dsimp only
        split_ifs <;> rfl
      exact (apprexmit_frame _).2.trans htake
  | drop => rfl
  | finack => rfl
  | ack => rfl

theorem complete_listenports {h : Httpd} {u : Stack} {v : Verdict} (hs : Sound u v) :
    (complete h v).1.1.listenports = u.listenports := by
  cases hs with
  | done _ hl => exact hl
  | quiet honly _ _ => exact honly.listenports
  | listen _ hl _ _ _ => exact hl
  | @appcall i u' k honly _ _ =>
    have hcall := (httpdAppcall_conns u' h).2
    exact (Resume.run_listenports k _ i).trans (hcall.trans honly.listenports)

/-- The table, and the number the service keeps. -/
def SameListening (n n' : Net) : Prop :=
  n'.uip.listenports = n.uip.listenports ∧ n'.sock.listenPort = n.sock.listenPort

theorem process_listening {n : Net} {v : Verdict} (hs : Sound n.uip v) :
    SameListening n (process n v).1 := by
  have hu := sendPacket_undisturbed
    { n with uip := (complete n.httpd v).1.1, httpd := (complete n.httpd v).1.2 }
  exact ⟨hu.listenports.trans (complete_listenports hs), congrArg Sock.listenPort hu.sock⟩

theorem syncSocketState_listening (n : Net) : SameListening n (syncSocketState n) := by
  refine ⟨by rw [syncSocketState_uip], ?_⟩
  rw [syncSocketState_sock]
  rfl

theorem SameListening.trans {n n' n'' : Net} (h : SameListening n n') (h' : SameListening n' n'') :
    SameListening n n'' :=
  ⟨h'.1.trans h.1, h'.2.trans h.2⟩

theorem netPoll_listening (n : Net) (rx : Rx) : SameListening n (netPoll n rx).1 := by
  rcases netPoll_cases n rx with ⟨-, -, hu, -⟩ | ⟨-, -, n', hu, heq, -⟩ | ⟨-, v, -, hv, heq⟩
  · exact ⟨hu.listenports, congrArg Sock.listenPort hu.sock⟩
  · have hn' : SameListening n n' := ⟨hu.listenports, congrArg Sock.listenPort hu.sock⟩
    rw [heq]
    exact hn'.trans (syncSocketState_listening n')
  · have hin : SameListening n { n with uip := earthNetRecv n.uip rx } :=
      ⟨earthNetRecv_listenports _ _, rfl⟩
    rw [heq]
    refine (hin.trans (process_listening ?_)).trans (syncSocketState_listening _)
    rw [hv]
    exact sound_uipProcessData _

theorem kick_listening (n : Net) : SameListening n (kickActiveConnection n).1 := by
  rcases kick_cases n with ⟨-, -, heq⟩ | ⟨-, -, heq⟩ | ⟨-, i, -, -, heq⟩
  · rw [heq]
    exact ⟨rfl, rfl⟩
  · rw [heq]
    exact syncSocketState_listening n
  · have hkick : SameListening n (process n (uipProcessPoll n.uip i)).1 := by
      have hu := sendPacket_undisturbed { n with
        uip := (complete n.httpd (uipProcessPoll n.uip i)).1.1
        httpd := (complete n.httpd (uipProcessPoll n.uip i)).1.2 }
      refine ⟨hu.listenports.trans ?_, congrArg Sock.listenPort hu.sock⟩
      rcases uipProcessPoll_cases n.uip i with ⟨u', hv, -, hl⟩ | ⟨u', hv, -, hl, -⟩
      · rw [hv]
        exact hl
      · rw [hv]
        exact (Resume.run_listenports .appsend _ i).trans
          ((httpdAppcall_conns u' n.httpd).2.trans hl)
    rw [heq]
    exact hkick.trans (syncSocketState_listening _)

/-- The port a step starts to listen on: that of a `sock_listen` answered `NET_OK`. -/
def listenedPort (o : Outcome) : Option ℤ :=
  match o.request, o.reply.status with
  | .sockListen port, .ok => some port
  | _, _ => none

/-- **Only `sock_listen` changes the table and the number**, and it does so whenever the port is
positive. -/
theorem listening_step {n n' : Net} {i : Input} {o : Outcome} (h : step n i = some (n', o)) :
    (listenedPort o = none ∧ SameListening n n' ∧ ∀ port, i.request = .sockListen port → port ≤ 0) ∨
      ∃ port, i.request = .sockListen port ∧ 0 < port ∧ listenedPort o = some port ∧
        n'.sock.listenPort = port ∧ n'.uip = uipListen n.uip (HTONS port) := by
  obtain ⟨hh, hreq, -⟩ := step_spec h
  obtain ⟨request, rx⟩ := i
  obtain ⟨request', events, reply⟩ := o
  obtain rfl : request' = request := hreq
  cases request' with
  | netSend length buf =>
    obtain ⟨rfl, -, -⟩ : _ ∧ _ ∧ _ := by
      simpa only [handle, handleNetSend, Prod.mk.injEq] using hh
    have hu := earthNetSend_undisturbed n length buf
    exact Or.inl ⟨rfl, ⟨hu.listenports, congrArg Sock.listenPort hu.sock⟩, by simp⟩
  | netRecv =>
    obtain ⟨rfl, -, -⟩ : _ ∧ _ ∧ _ := by
      simpa only [handle, handleNetRecv, Prod.mk.injEq] using hh
    refine Or.inl ⟨rfl, ?_, by simp⟩
    split_ifs <;> exact ⟨rfl, rfl⟩
  | sockListen port =>
    simp only [handle, handleSockListen] at hh
    split_ifs at hh with hport
    · obtain ⟨rfl, -, rfl⟩ : _ ∧ _ ∧ _ := by simpa only [Prod.mk.injEq] using hh
      refine Or.inl ⟨rfl, ⟨rfl, rfl⟩, fun p hp => ?_⟩
      obtain rfl := Request.sockListen.inj hp
      exact hport
    · obtain ⟨rfl, -, rfl⟩ : _ ∧ _ ∧ _ := by simpa only [Prod.mk.injEq] using hh
      exact Or.inr ⟨port, rfl, not_le.mp hport, rfl, rfl, rfl⟩
  | sockAccept =>
    refine Or.inl ⟨rfl, ?_, by simp⟩
    have hp := netPoll_listening n rx
    simp only [handle, handleSockAccept] at hh
    split_ifs at hh <;>
      obtain ⟨rfl, -, -⟩ : _ ∧ _ ∧ _ := by simpa only [Prod.mk.injEq] using hh
    all_goals exact hp
  | sockRecv connId length =>
    refine Or.inl ⟨rfl, ?_, by simp⟩
    have hp := netPoll_listening n rx
    simp only [handle, handleSockRecv] at hh
    split_ifs at hh <;>
      obtain ⟨rfl, -, -⟩ : _ ∧ _ ∧ _ := by simpa only [Prod.mk.injEq] using hh
    all_goals exact hp
  | sockSend connId length buf =>
    refine Or.inl ⟨rfl, ?_, by simp⟩
    have hp := netPoll_listening n rx
    rcases handle_sockSend_cases n connId length buf rx with ⟨r, -, heq⟩ | ⟨t, ht, -, -, heq⟩
    · obtain ⟨rfl, -, -⟩ : _ ∧ _ ∧ _ := by simpa only [heq, Prod.mk.injEq] using hh
      exact hp
    · obtain ⟨rfl, -, -⟩ : _ ∧ _ ∧ _ := by simpa only [heq, Prod.mk.injEq] using hh
      have htaken : SameListening (netPoll n rx).1 t := by
        rw [ht]
        exact ⟨(takePayload_uip _ _ _).2, by rw [takePayload_sock]⟩
      exact (hp.trans htaken).trans (kick_listening t)
  | sockClose connId =>
    refine Or.inl ⟨rfl, ?_, by simp⟩
    have hp := netPoll_listening n rx
    simp only [handle, handleSockClose] at hh
    split_ifs at hh <;>
      obtain ⟨rfl, -, -⟩ : _ ∧ _ ∧ _ := by simpa only [Prod.mk.injEq] using hh
    · have hask : SameListening (netPoll n rx).1 (askClose (netPoll n rx).1) := ⟨rfl, rfl⟩
      exact (hp.trans hask).trans (kick_listening _)
    · exact hp

/-! ## Ports in sixteen bits -/

/-- Ports that fit are told apart by the table. -/
theorem HTONS_injective {a b : ℤ} (ha : 0 ≤ a ∧ a ≤ 65535) (hb : 0 ≤ b ∧ b ≤ 65535)
    (h : HTONS a = HTONS b) : a = b := by
  have hhi := congrArg (fun w : Word16 => w.b0.toNat) h
  have hlo := congrArg (fun w : Word16 => w.b1.toNat) h
  simp only [HTONS, Word16.ofNat, UInt8.toNat_ofNat'] at hhi hlo
  omega

theorem HTONS_ne_zero {port : ℤ} (h : 1 ≤ port ∧ port ≤ 65535) : HTONS port ≠ ⟨0, 0⟩ := by
  intro h0
  have hzero : HTONS 0 = ⟨0, 0⟩ := by decide
  have := HTONS_injective (a := port) (b := 0) ⟨by omega, h.2⟩ (by omega) (h0.trans hzero.symm)
  omega

/-! ## The table -/

/-- The entries that are not free. -/
def entries (u : Stack) : Set Word16 := {w | w ≠ ⟨0, 0⟩ ∧ ∃ i, u.listenports i = w}

/-- The table holds this port, which is a port, and no other. -/
def OnlyPort (u : Stack) (port : ℤ) : Prop :=
  1 ≤ port ∧ port ≤ 65535 ∧ entries u = {HTONS port}

/-- The port goes into the first free entry, if there is one. -/
theorem uipListen_cases (u : Stack) (w : Word16) :
    (∃ i, u.listenports i = ⟨0, 0⟩ ∧ (∀ j, j < i → u.listenports j ≠ ⟨0, 0⟩) ∧
      (uipListen u w).listenports = Function.update u.listenports i w) ∨
    ((∀ i, u.listenports i ≠ ⟨0, 0⟩) ∧ (uipListen u w).listenports = u.listenports) := by
  unfold uipListen
  split
  · rename_i i hi
    obtain ⟨hfree, hbefore⟩ := find?_finRange_eq_some.mp hi
    exact Or.inl ⟨i, by simpa using hfree, fun j hj => by simpa using hbefore j hj, rfl⟩
  · rename_i hnone
    refine Or.inr ⟨fun i => ?_, rfl⟩
    simpa using List.find?_eq_none.mp hnone i (List.mem_finRange i)

/-- Nothing is taken out. -/
theorem entries_subset_uipListen (u : Stack) (w : Word16) :
    entries u ⊆ entries (uipListen u w) := by
  rintro v ⟨hv, j, hj⟩
  refine ⟨hv, j, ?_⟩
  rcases uipListen_cases u w with ⟨i, hi, -, heq⟩ | ⟨-, heq⟩
  · have hji : j ≠ i := by
      rintro rfl
      exact hv (hj.symm.trans hi)
    rw [heq, Function.update_of_ne hji]
    exact hj
  · rw [heq]
    exact hj

/-- And at most the port is put in. -/
theorem entries_uipListen_subset (u : Stack) (w : Word16) :
    entries (uipListen u w) ⊆ insert w (entries u) := by
  rintro v ⟨hv, j, hj⟩
  rcases uipListen_cases u w with ⟨i, -, -, heq⟩ | ⟨-, heq⟩
  · rw [heq] at hj
    by_cases hji : j = i
    · subst hji
      rw [Function.update_self] at hj
      exact Or.inl hj.symm
    · rw [Function.update_of_ne hji] at hj
      exact Or.inr ⟨hv, j, hj⟩
  · rw [heq] at hj
    exact Or.inr ⟨hv, j, hj⟩

/-- In an empty table there is room. -/
theorem entries_uipListen_of_empty {u : Stack} {w : Word16} (h : entries u = ∅) (hw : w ≠ ⟨0, 0⟩) :
    entries (uipListen u w) = {w} := by
  have hfree (j : Slot) : u.listenports j = ⟨0, 0⟩ := by
    by_contra hj
    have hmem : u.listenports j ∈ entries u := ⟨hj, j, rfl⟩
    rw [h] at hmem
    exact hmem
  apply Set.Subset.antisymm
  · have hsub := entries_uipListen_subset u w
    rw [h, insert_empty_eq] at hsub
    exact hsub
  · rintro v rfl
    rcases uipListen_cases u v with ⟨i, -, -, heq⟩ | ⟨hfull, -⟩
    · exact ⟨hw, i, by rw [heq, Function.update_self]⟩
    · exact absurd (hfree 0) (hfull 0)

/-- **Listening on a second port** leaves the table with that port alone exactly if it is the first
port again. -/
theorem onlyPort_uipListen_iff {u : Stack} {p port : ℤ} (h : OnlyPort u p) (hport : 0 < port) :
    OnlyPort (uipListen u (HTONS port)) port ↔ port ≤ 65535 ∧ p = port := by
  obtain ⟨hp1, hp2, hent⟩ := h
  constructor
  · rintro ⟨h1, h2, hone⟩
    have hmem : HTONS p ∈ entries (uipListen u (HTONS port)) :=
      entries_subset_uipListen u _ (by rw [hent]; rfl)
    rw [hone] at hmem
    exact ⟨h2, HTONS_injective ⟨by omega, hp2⟩ ⟨by omega, h2⟩ hmem⟩
  · rintro ⟨h2, rfl⟩
    refine ⟨hp1, hp2, Set.Subset.antisymm ?_ ?_⟩
    · have hsub := entries_uipListen_subset u (HTONS p)
      rw [hent, Set.pair_eq_singleton] at hsub
      exact hsub
    · rw [← hent]
      exact entries_subset_uipListen u _

/-! ## Runs -/

/-- A positive port fits into an entry, and is the one that was listened on before, if any was. -/
def SamePort (n : Net) (i : Input) : Prop :=
  match i.request with
  | .sockListen port =>
    port ≤ 0 ∨ port ≤ 65535 ∧ (n.sock.listenPort < 0 ∨ n.sock.listenPort = port)
  | _ => True

instance (n : Net) : (i : Input) → Decidable (SamePort n i)
  | ⟨.sockListen port, _⟩ =>
    inferInstanceAs
      (Decidable (port ≤ 0 ∨ port ≤ 65535 ∧ (n.sock.listenPort < 0 ∨ n.sock.listenPort = port)))
  | ⟨.netSend .., _⟩ | ⟨.netRecv, _⟩ | ⟨.sockAccept, _⟩ | ⟨.sockRecv .., _⟩ | ⟨.sockSend .., _⟩
  | ⟨.sockClose _, _⟩ => isTrue trivial

/-- The ports listened on in a run, in order. -/
def listenedPorts (os : List Outcome) : List ℤ := os.filterMap listenedPort

theorem listenedPorts_snoc (os : List Outcome) (o : Outcome) :
    listenedPorts (os ++ [o]) = listenedPorts os ++ (listenedPort o).toList := by
  rw [listenedPorts, List.filterMap_append]
  cases h : listenedPort o <;> simp [listenedPorts, h]

/-- The number the service keeps is the last port listened on. -/
theorem listenPort_run {C : Net → Input → Prop} {is : List Input} {os : List Outcome} {n : Net}
    (hrun : Run step C Net.init is os n) :
    (∀ port, (listenedPorts os).getLast? = some port → n.sock.listenPort = port ∧ 0 < port) ∧
      ((listenedPorts os).getLast? = none → n.sock.listenPort = -1 ∧ entries n.uip = ∅) := by
  refine hrun.invariant (P := fun os n =>
    (∀ port, (listenedPorts os).getLast? = some port → n.sock.listenPort = port ∧ 0 < port) ∧
      ((listenedPorts os).getLast? = none → n.sock.listenPort = -1 ∧ entries n.uip = ∅))
    (fun os n i n' o ih _ hs => ?_) ?_
  · rcases listening_step hs with ⟨hnone, hsame, -⟩ | ⟨port, -, hport, hl, hlp, -⟩
    · have hent : entries n'.uip = entries n.uip := by
        unfold entries
        rw [hsame.1]
      rw [listenedPorts_snoc, hnone, Option.toList_none, List.append_nil, hsame.2, hent]
      exact ih
    · rw [listenedPorts_snoc, hl]
      refine ⟨fun p hp => ?_, fun h => absurd h (by simp)⟩
      obtain rfl : port = p := by simpa using hp
      exact ⟨hlp, hport⟩
  · refine ⟨fun port h => absurd h (by simp [listenedPorts]), fun _ => ⟨rfl, ?_⟩⟩
    refine Set.eq_empty_of_forall_notMem ?_
    rintro w ⟨hw, i, hi⟩
    exact hw hi.symm

/-- The property of the claimed port as one of the state: where the service listens, the table holds
the port it keeps and no other. -/
def OneListening (n : Net) : Prop := 0 ≤ n.sock.listenPort → OnlyPort n.uip n.sock.listenPort

/-- **A step keeps the one port exactly when it meets `SamePort`.** -/
theorem oneListening_step_iff {n n' : Net} {i : Input} {o : Outcome}
    (hempty : n.sock.listenPort < 0 → entries n.uip = ∅) (h1 : OneListening n)
    (hs : step n i = some (n', o)) : OneListening n' ↔ SamePort n i := by
  rcases listening_step hs with ⟨-, hsame, hreq⟩ | ⟨port, hreq, hport, -, hlp, huip⟩
  · have hone : OneListening n' := by
      unfold OneListening OnlyPort entries
      rw [hsame.1, hsame.2]
      exact h1
    refine iff_of_true hone ?_
    unfold SamePort
    split
    · rename_i port hr
      exact Or.inl (hreq port hr)
    · trivial
  · have hone : OneListening n' ↔ OnlyPort (uipListen n.uip (HTONS port)) port := by
      unfold OneListening
      rw [hlp, huip]
      exact ⟨fun h => h hport.le, fun h _ => h⟩
    have hsamePort : SamePort n i ↔
        port ≤ 65535 ∧ (n.sock.listenPort < 0 ∨ n.sock.listenPort = port) := by
      unfold SamePort
      rw [hreq]
      exact or_iff_right (not_le.mpr hport)
    rw [hone, hsamePort]
    rcases lt_or_ge n.sock.listenPort 0 with hneg | hpos
    · refine ⟨fun h => ⟨h.2.1, Or.inl hneg⟩, fun h => ⟨hport, h.1, ?_⟩⟩
      exact entries_uipListen_of_empty (hempty hneg) (HTONS_ne_zero ⟨hport, h.1⟩)
    · rw [onlyPort_uipListen_iff (h1 hpos) hport, or_iff_right (not_lt.mpr hpos)]

/-! ## Which `SYN` is accepted -/

/-- A `SYN` with a good checksum that belongs to none of the connections. -/
structure NewSyn (u : Stack) : Prop where
  checksum : uipTcpchksum u.buf = ⟨0xff, 0xff⟩
  noConn : ∀ i, isFor u.buf (u.conns i) = false
  syn : u.buf Hdr.flags &&& TCP_CTL = TCP_SYN

/-- Such a `SYN` is accepted if its port is one of the forty entries, the free ones included. -/
theorem tcpInput_newSyn {u : Stack} (h : NewSyn u) :
    tcpInput u =
      if ∃ i, u.listenports i = word16 u.buf Hdr.destport then foundListen u
      else .done (reset u) := by
  have hnone : (List.finRange 40).find? (fun i => isFor u.buf (u.conns i)) = none :=
    List.find?_eq_none.mpr fun i _ => by simp [h.noConn i]
  have hany : ((List.finRange 40).any fun i => word16 u.buf Hdr.destport = u.listenports i) = true ↔
      ∃ i, u.listenports i = word16 u.buf Hdr.destport := by
    rw [List.any_eq_true]
    constructor
    · rintro ⟨i, -, hi⟩
      exact ⟨i, (of_decide_eq_true hi).symm⟩
    · rintro ⟨i, hi⟩
      exact ⟨i, List.mem_finRange i, decide_eq_true hi.symm⟩
  unfold tcpInput
  rw [if_neg (not_not.mpr h.checksum), hnone]
  dsimp only
  rw [if_neg (not_not.mpr h.syn)]
  by_cases hlisten : ∃ i, u.listenports i = word16 u.buf Hdr.destport
  · rw [if_pos (hany.mpr hlisten), if_pos hlisten]
  · rw [if_neg (fun hc => hlisten (hany.mp hc)), if_neg hlisten]

/-- The first `k` entries hold the port, the others are free. -/
def Filled (u : Stack) (k : ℕ) (w : Word16) : Prop :=
  ∀ i, u.listenports i = if i.val < k then w else ⟨0, 0⟩

/-- One more entry is filled, if there is one. -/
theorem Filled.uipListen {u : Stack} {k : ℕ} {w : Word16} (h : Filled u k w) (hw : w ≠ ⟨0, 0⟩) :
    Filled (uipListen u w) (k + 1) w := by
  intro j
  rcases uipListen_cases u w with ⟨i, hi, hbefore, heq⟩ | ⟨hfull, heq⟩
  · -- the first free entry is the one after the `k` that are filled
    have hik : i.val = k := by
      have hge : ¬ i.val < k := by
        intro hlt
        rw [h i, if_pos hlt] at hi
        exact hw hi
      by_contra hne
      have hlt : k < i.val := by omega
      refine hbefore ⟨k, hlt.trans i.isLt⟩ (Fin.lt_def.mpr hlt) ?_
      rw [h]
      exact if_neg (lt_irrefl k)
    rw [heq]
    by_cases hji : j = i
    · subst hji
      rw [Function.update_self, if_pos (by omega)]
    · have hval : j.val ≠ k := fun hv => hji (Fin.ext (hv.trans hik.symm))
      rw [Function.update_of_ne hji, h j]
      exact if_congr (by omega) rfl rfl
  · have hj : j.val < k := by
      by_contra hge
      exact hfull j (by rw [h j, if_neg hge])
    rw [heq, h j, if_pos hj, if_pos (by omega)]

/-- In a run that meets `SamePort` the table is filled with the port, once for each time it was
listened on. -/
theorem filled_run {is : List Input} {os : List Outcome} {n : Net}
    (hrun : Run step SamePort Net.init is os n) :
    (∀ port ∈ listenedPorts os, port = n.sock.listenPort ∧ 1 ≤ port ∧ port ≤ 65535) ∧
      Filled n.uip (listenedPorts os).length (HTONS n.sock.listenPort) := by
  induction hrun with
  | nil => exact ⟨by simp [listenedPorts], fun _ => rfl⟩
  | @snoc is os s s' i o hs hC hstep ih =>
    obtain ⟨hports, hfilled⟩ := ih
    rcases listening_step hstep with ⟨hnone, hsame, -⟩ | ⟨port, hreq, hport, hl, hlp, huip⟩
    · rw [listenedPorts_snoc, hnone, Option.toList_none, List.append_nil, hsame.2]
      refine ⟨hports, fun j => ?_⟩
      rw [hsame.1]
      exact hfilled j
    · have hguard : port ≤ 65535 ∧ (s.sock.listenPort < 0 ∨ s.sock.listenPort = port) := by
        have hC' : SamePort s i := hC
        unfold SamePort at hC'
        rw [hreq] at hC'
        exact hC'.resolve_left (not_le.mpr hport)
      have hold : listenedPorts os = [] ∨ s.sock.listenPort = port := by
        rcases hguard.2 with hneg | hsame
        · refine Or.inl (List.eq_nil_iff_forall_not_mem.mpr fun p hp => ?_)
          have := hports p hp
          omega
        · exact Or.inr hsame
      have hfilled' : Filled s.uip (listenedPorts os).length (HTONS port) := by
        rcases hold with hnil | hsame
        · intro j
          have hj := hfilled j
          rw [hnil] at hj ⊢
          exact hj
        · rw [← hsame]
          exact hfilled
      rw [listenedPorts_snoc, hl, hlp, huip, Option.toList_some, List.length_append]
      refine ⟨fun p hp => ?_, hfilled'.uipListen (HTONS_ne_zero ⟨hport, hguard.1⟩)⟩
      rcases List.mem_append.mp hp with hp | hp
      · rcases hold with hnil | hsame
        · rw [hnil] at hp
          exact absurd hp (by simp)
        · rw [← hsame]
          exact hports p hp
      · obtain rfl := List.mem_singleton.mp hp
        exact ⟨rfl, hport, hguard.1⟩

/-- **One listening port.**  All along a run, after each `sock_listen` answered `NET_OK`, the table
holds its port and no other, exactly if every step of the run meets `SamePort`.  In such a run a
`SYN` is accepted for that port and for no other but zero; and for zero as long as there have been
fewer than forty of these requests. -/
theorem one_port_iff {is : List Input} {os : List Outcome} {n : Net}
    (hrun : Run step Free Net.init is os n) :
    ((∀ js ps t, js <+: is → Run step Free Net.init js ps t →
        ∀ port, (listenedPorts ps).getLast? = some port → OnlyPort t.uip port) ↔
      Run step SamePort Net.init is os n) ∧
    (Run step SamePort Net.init is os n → ∀ port, (listenedPorts os).getLast? = some port →
      ∀ u, u.listenports = n.uip.listenports → NewSyn u →
        tcpInput u =
          if word16 u.buf Hdr.destport = HTONS port ∨
            (word16 u.buf Hdr.destport = ⟨0, 0⟩ ∧ (listenedPorts os).length < 40)
          then foundListen u else .done (reset u)) := by
  constructor
  · -- the port of the last request is the number the service keeps
    have hstate {js : List Input} {ps : List Outcome} {t : Net}
        (ht : Run step Free Net.init js ps t) :
        (∀ port, (listenedPorts ps).getLast? = some port → OnlyPort t.uip port) ↔
          OneListening t := by
      obtain ⟨hsome, hnone⟩ := listenPort_run ht
      rcases hlast : (listenedPorts ps).getLast? with _ | port
      · refine iff_of_true (fun p hp => absurd hp (by simp)) fun hpos => ?_
        have := (hnone hlast).1
        omega
      · obtain ⟨hport, hpos⟩ := hsome port hlast
        unfold OneListening
        rw [hport]
        exact ⟨fun h _ => h port rfl, fun h p hp => by
          obtain rfl := Option.some.inj hp
          exact h hpos.le⟩
    have hiff := Run.guarded_iff (f := step) (C := SamePort)
      (I := fun n => n.sock.listenPort < 0 → entries n.uip = ∅) (P := OneListening)
      (fun s i s' o hI hs hneg => ?_) (fun _ => ((listenPort_run (Run.nil (C := Free))).2 rfl).2)
      (fun h => absurd h (by decide))
      (fun s i s' o hI hP hs => oneListening_step_iff hI hP hs) hrun
    · rw [← hiff]
      exact ⟨fun h js ps t hjs ht => (hstate ht).mp (h js ps t hjs ht),
        fun h js ps t hjs ht => (hstate ht).mpr (h js ps t hjs ht)⟩
    · rcases listening_step hs with ⟨-, hsame, -⟩ | ⟨port, -, hport, -, hlp, -⟩
      · unfold entries
        rw [hsame.1]
        exact hI (hsame.2 ▸ hneg)
      · omega
  · intro hsame port hlast u hu hsyn
    obtain ⟨hports, hfilled⟩ := filled_run hsame
    have hmem : port ∈ listenedPorts os := List.mem_of_getLast? hlast
    obtain ⟨hport, -, -⟩ := hports port hmem
    have hpos : 0 < (listenedPorts os).length := List.length_pos_of_mem hmem
    rw [tcpInput_newSyn hsyn, hu]
    refine if_congr ?_ rfl rfl
    constructor
    · rintro ⟨i, hi⟩
      rw [hfilled i, ← hport] at hi
      split_ifs at hi with hik
      · exact Or.inl hi.symm
      · exact Or.inr ⟨hi.symm, by omega⟩
    · rintro (hdest | ⟨hdest, hfree⟩)
      · refine ⟨0, ?_⟩
        rw [hfilled 0, ← hport, hdest]
        exact if_pos hpos
      · refine ⟨⟨(listenedPorts os).length, hfree⟩, ?_⟩
        rw [hfilled, hdest]
        exact if_neg (lt_irrefl _)

/-! ## Two ports -/

/-- A second port is asked for. -/
def twoPorts : List Input := [listen80, Request.alone (.sockListen 81)]

theorem one_port_iff_repeated :
    ∃ os n, Run step Free Net.init [listen80, listen80] os n ∧ listenedPorts os = [80, 80] ∧
      OnlyPort n.uip 80 := by
  have hexec : ((exec (guarded step SamePort) Net.init [listen80, listen80]).map fun r =>
      listenedPorts r.2) = some [80, 80] := by decide +kernel
  obtain ⟨⟨n, os⟩, hr, hports⟩ := Option.map_eq_some_iff.mp hexec
  have hrun := run_of_exec_guarded hr
  refine ⟨os, n, hrun.free, hports, ?_⟩
  refine (one_port_iff hrun.free).1.mpr hrun _ os n List.prefix_rfl hrun.free 80 ?_
  have hports' : listenedPorts os = [80, 80] := hports
  rw [hports']
  rfl

/-- **A second port is added to the first**: both requests are answered `NET_OK`, and the table
holds 80 as well. -/
theorem one_port_broken :
    ∃ os n, Run step Free Net.init twoPorts os n ∧ (listenedPorts os).getLast? = some 81 ∧
      HTONS 80 ∈ entries n.uip ∧ HTONS 81 ∈ entries n.uip ∧ ¬ OnlyPort n.uip 81 := by
  have hexec : ((exec step Net.init twoPorts).map fun r =>
      ((listenedPorts r.2).getLast?, r.1.uip.listenports 0, r.1.uip.listenports 1)) =
      some (some 81, HTONS 80, HTONS 81) := by decide +kernel
  obtain ⟨⟨n, os⟩, hr, hval⟩ := Option.map_eq_some_iff.mp hexec
  simp only [Prod.mk.injEq] at hval
  obtain ⟨hlast, h80, h81⟩ := hval
  have hm80 : HTONS 80 ∈ entries n.uip := ⟨by decide, 0, h80⟩
  refine ⟨os, n, run_of_exec hr, hlast, hm80, ⟨by decide, 1, h81⟩, ?_⟩
  rintro ⟨-, -, hone⟩
  rw [hone] at hm80
  exact absurd hm80 (by decide)

end Service
end EgosNet
