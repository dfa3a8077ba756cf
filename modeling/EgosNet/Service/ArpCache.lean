import EgosNet.Foundation.Cache
import EgosNet.Service.WireFormat

/-!
# The address table, along runs

`uip_arp.c` learns the Ethernet address of a host from the ARP packets of that host, and
`uip_arp_out` looks it up for every packet that goes out.  The table has eight entries.  The service
never lets them grow old, so an entry is lost only when the table is full and another host takes its
place, which is then always the first.

`lesson` is what an ARP packet teaches: the two addresses of its sender, if the packet is a request
or a reply and asks for this host, or answers it.  Nothing else teaches anything; a packet that is
answered does not, and neither does one between two other hosts.

* `arp_current`: in every run, the Ethernet address to which `uip_arp_out` sends is the one that the
  next hop itself announced last, however often it has changed it, and whatever other hosts have
  announced in between.
* `arp_keeps`: all entries but the first are kept for ever.
-/

namespace EgosNet
namespace Service

open Foundation Uip

/-! ## What a packet teaches -/

/-- The addresses of the sender of an ARP packet for this host. -/
def lesson (f : List UInt8) : Option (Word32 × EthAddr) :=
  let m := payload f
  if arpHdrLen ≤ f.length ∧ word16 m ArpHdr.type = HTONS UIP_ETHTYPE_ARP ∧
      (word16 m ArpHdr.opcode = HTONS ARP_REQUEST ∨ word16 m ArpHdr.opcode = HTONS ARP_REPLY) ∧
      word32 m ArpHdr.dipaddr = uipHostaddr then
    some (word32 m ArpHdr.sipaddr, ethAddr m ArpHdr.shwaddr)
  else none

/-- What arrives with a request teaches, if the request polls the card. -/
def lessonOf (i : Input) : Option (Word32 × EthAddr) :=
  if polling i.request then lesson i.rx.frame else none

/-- All that has been taught, the latest first. -/
def lessons (is : List Input) : List (Word32 × EthAddr) := (is.filterMap lessonOf).reverse

/-- The table after a lesson, if there was one. -/
def learn (t : ArpTable) : Option (Word32 × EthAddr) → ArpTable
  | none => t
  | some (ipaddr, ethaddr) => uipArpUpdate t ipaddr ethaddr

/-- An address that the table recognizes when it comes again: neither half of it is zero. -/
def usable (ipaddr : Word32) : Prop :=
  (ipaddr.b0 ≠ 0 ∨ ipaddr.b1 ≠ 0) ∧ (ipaddr.b2 ≠ 0 ∨ ipaddr.b3 ≠ 0)

theorem used_iff (e : ArpEntry) : e.used = true ↔ usable e.ipaddr := by
  simp [ArpEntry.used, usable]

/-! ## The table as a cache -/

/-- The entries as pairs. -/
def pairs (t : ArpTable) (i : Fin 8) : Word32 × EthAddr := ((t i).ipaddr, (t i).ethaddr)

section Update

variable {t : ArpTable} {ipaddr : Word32} {ethaddr : EthAddr} {history : List (Word32 × EthAddr)}

theorem pairs_update (t : ArpTable) (i : Fin 8) (e : ArpEntry) :
    pairs (Function.update t i e) = Function.update (pairs t) i (e.ipaddr, e.ethaddr) := by
  funext j
  by_cases hj : j = i
  · subst hj
    simp [pairs]
  · simp [pairs, hj]

/-- **Where a lesson goes**: to the place of the address, if it stands anywhere and the table
recognizes it; otherwise to an empty one, or to the first. -/
theorem uipArpUpdate_place (t : ArpTable) (ipaddr : Word32) (ethaddr : EthAddr) :
    ∃ i, uipArpUpdate t ipaddr ethaddr = Function.update t i ⟨ipaddr, ethaddr⟩ ∧
      (∀ j, usable ipaddr → (t j).ipaddr = ipaddr → (t i).ipaddr = ipaddr) ∧
      (i = 0 ∨ (t i).ipaddr = ipaddr ∨ (t i).ipaddr = ⟨0, 0, 0, 0⟩) := by
  unfold uipArpUpdate
  split
  · rename_i i hi
    have hfound := List.find?_some hi
    simp only [Bool.decide_and, Bool.and_eq_true, decide_eq_true_eq] at hfound
    obtain ⟨-, heq⟩ := hfound
    refine ⟨i, ?_, fun _ _ _ => heq.symm, .inr (.inl heq.symm)⟩
    rw [heq]
  · rename_i hnone
    have hother : ∀ j, usable ipaddr → (t j).ipaddr ≠ ipaddr := by
      intro j husable hip
      have hmiss := List.find?_eq_none.mp hnone j (List.mem_finRange j)
      have hused : (t j).used = true := (used_iff _).mpr (hip ▸ husable)
      exact hmiss (by simpa [hused] using hip.symm)
    split
    · rename_i i hi
      have hempty : (t i).ipaddr = ⟨0, 0, 0, 0⟩ := by simpa using List.find?_some hi
      exact ⟨i, rfl, fun j hu hj => absurd hj (hother j hu), .inr (.inr hempty)⟩
    · exact ⟨0, rfl, fun j hu hj => absurd hj (hother j hu), .inl rfl⟩

/-- **A lesson keeps the table consistent.** -/
theorem consistent_update (h : Consistent usable (pairs t) history) :
    Consistent usable (pairs (uipArpUpdate t ipaddr ethaddr)) ((ipaddr, ethaddr) :: history) := by
  obtain ⟨i, heq, hsame, -⟩ := uipArpUpdate_place t ipaddr ethaddr
  rw [heq, pairs_update]
  refine h.place fun j hj husable hjip => hj ?_
  have hip : (pairs t i).1 = ipaddr := hsame j husable hjip
  exact h.unique j i (hjip ▸ husable) (hjip.trans hip.symm)

end Update

/-! ## The table of the service -/

section Net

variable (n : Net) (rx : Rx)

theorem earthNetSend_arp (length : ℤ) (packet : Mem) :
    (earthNetSend n length packet).1.arp = n.arp := by
  unfold earthNetSend
  split_ifs <;> rfl

theorem sendPacket_arp : (sendPacket n).1.arp = n.arp := by
  simp only [sendPacket]
  split_ifs
  · exact earthNetSend_arp _ _ _
  · rfl

theorem syncSocketState_arp : (syncSocketState n).arp = n.arp := by
  simp only [syncSocketState]
  split_ifs <;> rfl

theorem process_arp (v : Verdict) : (process n v).1.arp = n.arp := sendPacket_arp _

theorem kick_arp : (kickActiveConnection n).1.arp = n.arp := by
  rcases kick_cases n with ⟨-, -, heq⟩ | ⟨-, -, heq⟩ | ⟨-, i, -, -, heq⟩
  · rw [heq]
  · rw [heq, syncSocketState_arp]
  · rw [heq, syncSocketState_arp, process_arp]

/-- When `uip_arp_arpin` learns. -/
theorem uipArpArpin_snd (u : Stack) (t : ArpTable) : (uipArpArpin u t).2 =
    if arpHdrLen ≤ u.len ∧
        (word16 u.buf ArpHdr.opcode = HTONS ARP_REQUEST ∨
          word16 u.buf ArpHdr.opcode = HTONS ARP_REPLY) ∧
        word32 u.buf ArpHdr.dipaddr = uipHostaddr then
      uipArpUpdate t (word32 u.buf ArpHdr.sipaddr) (ethAddr u.buf ArpHdr.shwaddr)
    else t := by
  have hne : HTONS ARP_REPLY ≠ HTONS ARP_REQUEST := by decide
  simp only [uipArpArpin]
  by_cases hlen : u.len < arpHdrLen
  · rw [if_pos hlen, if_neg fun h => absurd h.1 (not_le.mpr hlen)]
  · have hge : arpHdrLen ≤ u.len := not_lt.mp hlen
    generalize word32 u.buf ArpHdr.dipaddr = dipaddr
    generalize word16 u.buf ArpHdr.opcode = opcode
    by_cases hus : dipaddr = uipHostaddr <;> by_cases hreq : opcode = HTONS ARP_REQUEST <;>
      by_cases hrep : opcode = HTONS ARP_REPLY <;> simp [hlen, hge, hus, hreq, hrep, hne]

/-- An ARP packet that is long enough is read as it has arrived. -/
theorem uipArpArpin_learn (n : Net) (rx : Rx)
    (htype : word16 (earthNetRecv n.uip rx).buf ArpHdr.type = HTONS UIP_ETHTYPE_ARP) :
    (uipArpArpin (earthNetRecv n.uip rx) n.arp).2 = learn n.arp (lesson rx.frame) := by
  have hulen : (earthNetRecv n.uip rx).len = rx.frame.length := rfl
  rw [uipArpArpin_snd, hulen]
  by_cases hlen : arpHdrLen ≤ rx.frame.length
  · have harp : arpHdrLen = 42 := rfl
    have hbuf : uipBufLen = 422 := rfl
    have hsame : ∀ a, a < 42 → (earthNetRecv n.uip rx).buf a = payload rx.frame a := fun a ha =>
      earthNetRecv_buf n.uip (by omega) (by omega)
    have htype' := word16_congr 12 (hsame 12 (by decide)) (hsame 13 (by decide))
    have hopcode := word16_congr 20 (hsame 20 (by decide)) (hsame 21 (by decide))
    have hdip : word32 (earthNetRecv n.uip rx).buf ArpHdr.dipaddr =
        word32 (payload rx.frame) ArpHdr.dipaddr :=
      word32_congr fun k hk => hsame _ (by simp; omega)
    have hsip : word32 (earthNetRecv n.uip rx).buf ArpHdr.sipaddr =
        word32 (payload rx.frame) ArpHdr.sipaddr :=
      word32_congr fun k hk => hsame _ (by simp; omega)
    have hshw : ethAddr (earthNetRecv n.uip rx).buf ArpHdr.shwaddr =
        ethAddr (payload rx.frame) ArpHdr.shwaddr :=
      ethAddr_congr fun k hk => hsame _ (by simp; omega)
    have htype'' : word16 (payload rx.frame) ArpHdr.type = HTONS UIP_ETHTYPE_ARP :=
      htype'.symm.trans htype
    rw [lesson, hsip, hshw, hdip, show word16 (earthNetRecv n.uip rx).buf ArpHdr.opcode =
      word16 (payload rx.frame) ArpHdr.opcode from hopcode]
    split_ifs with hcond hlesson hlesson
    · rfl
    · exact absurd ⟨hlen, htype'', hcond.2⟩ hlesson
    · exact absurd ⟨hlen, hlesson.2.2⟩ hcond
    · rfl
  · rw [if_neg fun h => hlen h.1, lesson, if_neg fun h => hlen h.1]
    rfl

/-- A packet of another kind teaches nothing. -/
theorem lesson_of_type (n : Net) (rx : Rx)
    (htype : word16 (earthNetRecv n.uip rx).buf ArpHdr.type ≠ HTONS UIP_ETHTYPE_ARP) :
    lesson rx.frame = none := by
  rw [lesson, if_neg]
  rintro ⟨hlen, hthis, -⟩
  have harp : arpHdrLen = 42 := rfl
  have hbuf : uipBufLen = 422 := rfl
  refine htype (Eq.trans ?_ hthis)
  exact word16_congr _ (earthNetRecv_buf n.uip (by simp; omega) (by simp; omega))
    (earthNetRecv_buf n.uip (by simp; omega) (by simp; omega))

/-- **What a frame does to the table.** -/
theorem netPoll_arp : (netPoll n rx).1.arp = learn n.arp (lesson rx.frame) := by
  have hne : HTONS UIP_ETHTYPE_IP ≠ HTONS UIP_ETHTYPE_ARP := by decide
  simp only [netPoll, frameInput]
  split_ifs with hframe hip harp
  · rw [hframe]
    rfl
  · rw [syncSocketState_arp, process_arp, lesson_of_type n rx (by rw [hip]; exact hne)]
    rfl
  · rw [syncSocketState_arp, ← uipArpArpin_learn n rx harp]
    simp only [arpInput]
    split_ifs
    · exact earthNetSend_arp _ _ _
    · rfl
  · rw [syncSocketState_arp, lesson_of_type n rx harp]
    rfl

/-- **What a request does to it.** -/
theorem handle_arp (i : Input) : (handle n i).1.arp = learn n.arp (lessonOf i) := by
  obtain ⟨request, rx⟩ := i
  cases request with
  | netSend length buf => exact earthNetSend_arp n length buf
  | netRecv =>
    simp only [handle, handleNetRecv]
    split_ifs <;> rfl
  | sockListen port =>
    simp only [handle, handleSockListen]
    split_ifs <;> rfl
  | sockAccept =>
    show _ = learn n.arp (lesson rx.frame)
    rw [← netPoll_arp n rx]
    simp only [handle, handleSockAccept]
    split_ifs <;> rfl
  | sockRecv connId length =>
    show _ = learn n.arp (lesson rx.frame)
    rw [← netPoll_arp n rx]
    simp only [handle, handleSockRecv]
    split_ifs <;> rfl
  | sockSend connId length buf =>
    show _ = learn n.arp (lesson rx.frame)
    rw [← netPoll_arp n rx]
    rcases handle_sockSend_cases n connId length buf rx with ⟨r, -, heq⟩ | ⟨t, ht, -, -, heq⟩
    · rw [heq]
    · rw [heq, ← takePayload_arp (netPoll n rx).1 (clampNetLength length) buf, ← ht]
      exact kick_arp t
  | sockClose connId =>
    show _ = learn n.arp (lesson rx.frame)
    rw [← netPoll_arp n rx]
    simp only [handle, handleSockClose]
    split_ifs
    · exact kick_arp (askClose (netPoll n rx).1)
    · rfl

end Net

/-! ## The frames -/

/-- The Ethernet frame with an IP packet goes to all hosts, as the packet does, or to the next hop
as the table has it. -/
def Addressed (t : ArpTable) (f : List UInt8) : Prop :=
  word16 (payload f) ArpHdr.type = HTONS UIP_ETHTYPE_IP → UIP_LLH_LEN + UIP_IPH_LEN ≤ f.length →
    word32 (payload f) Hdr.destipaddr = broadcastIpaddr ∧
        ethAddr (payload f) ArpHdr.dest = broadcastEthaddr ∨
      ∃ j, (t j).ipaddr = hopFor (word32 (payload f) Hdr.destipaddr) ∧
        ethAddr (payload f) ArpHdr.dest = (t j).ethaddr

section Frames

variable {n : Net} {rx : Rx} {f : List UInt8}

theorem ethHeader_dest (u : Stack) (dest : EthAddr) :
    ethAddr (ethHeader u dest).buf ArpHdr.dest = dest := by
  have hstore := Mem.load_store u.buf ArpHdr.dest dest.addr
  rw [dest.length_addr] at hstore
  have hkept : (ethHeader u dest).buf.load ArpHdr.dest 6 =
      (u.buf.store ArpHdr.dest dest.addr).load ArpHdr.dest 6 := by
    simp only [ethHeader, Stack.put]
    rw [Mem.load_store_of_disjoint (.inl (by decide)),
      Mem.load_store_of_disjoint (.inl (by decide))]
  obtain ⟨addr, hlen⟩ := dest
  simp only [ethAddr, EthAddr.mk.injEq]
  exact hkept.trans hstore

/-- An ARP packet is no such frame. -/
theorem addressed_arpFrame (t : ArpTable) (h : ArpFrame f) : Addressed t f := by
  intro htype
  rw [h.type] at htype
  exact absurd htype (by decide)

theorem addressed_uipArpOut (u : Stack) (t : ArpTable) :
    Addressed t ((uipArpOut u t).buf.load 0 (uipArpOut u t).len) := by
  rcases uipArpOut_cases u t with ⟨dest, heq, hdest⟩ | ⟨heq, -⟩
  · rw [heq]
    intro _ hlen
    rw [Mem.length_load] at hlen
    have hllh : UIP_LLH_LEN + UIP_IPH_LEN = 34 := rfl
    have hfield : ethAddr (payload ((ethHeader u dest).buf.load 0 (ethHeader u dest).len))
        ArpHdr.dest = dest := by
      refine Eq.trans ?_ (ethHeader_dest u dest)
      exact ethAddr_congr fun k hk => payload_load _ (by simp; omega)
    have hip : word32 (payload ((ethHeader u dest).buf.load 0 (ethHeader u dest).len))
        Hdr.destipaddr = word32 u.buf Hdr.destipaddr := by
      refine word32_congr fun k hk => ?_
      rw [payload_load _ (by simp; omega), ethHeader_buf_of_ge u dest (by simp; omega)]
    rw [hfield, hip]
    rcases hdest with hall | ⟨j, hj, hdest⟩
    · exact .inl hall
    · exact .inr ⟨j, hj, hdest⟩
  · rw [heq]
    exact addressed_arpFrame t (arpRequest_frame u _).toArpFrame

theorem addressed_process {v : Verdict} (hf : f ∈ transmitted (process n v).2) :
    Addressed n.arp f := by
  simp only [process, transmitted_append, transmitted_complete, List.nil_append, sendPacket] at hf
  split_ifs at hf
  · rw [mem_transmitted_earthNetSend hf, Int.toNat_natCast]
    exact addressed_uipArpOut _ _
  · simp [transmitted] at hf

theorem addressed_netPoll (hf : f ∈ transmitted (netPoll n rx).2) :
    Addressed (netPoll n rx).1.arp f := by
  have harp := netPoll_arp n rx
  simp only [netPoll, frameInput] at hf harp ⊢
  split_ifs at hf harp ⊢
  · simp [transmitted] at hf
  · rw [syncSocketState_arp, process_arp]
    exact addressed_process hf
  · exact addressed_arpFrame _ (arpFrame_arpInput hf)
  · simp [transmitted] at hf

theorem addressed_kick (hf : f ∈ transmitted (kickActiveConnection n).2) : Addressed n.arp f := by
  rcases kick_cases n with ⟨-, -, heq⟩ | ⟨-, -, heq⟩ | ⟨-, i, -, -, heq⟩
  · rw [heq] at hf
    simp [transmitted] at hf
  · rw [heq] at hf
    simp [transmitted] at hf
  · rw [heq] at hf
    exact addressed_process (v := uipProcessPoll n.uip i) (by simpa [transmitted] using hf)

end Frames

/-! ## Runs -/

/-- The next hop has an address that the table recognizes. -/
theorem usable_hopFor (ipaddr : Word32) : usable (hopFor ipaddr) := by
  unfold hopFor
  split_ifs with hlocal
  · obtain ⟨h0, -, h2, -⟩ := of_decide_eq_true hlocal
    refine ⟨.inl fun hzero => ?_, .inl fun hzero => ?_⟩
    · rw [hzero] at h0
      exact absurd h0 (by decide)
    · rw [hzero] at h2
      exact absurd h2 (by decide)
  · exact ⟨.inl (by decide), .inl (by decide)⟩

theorem lessons_append (is : List Input) (i : Input) :
    lessons (is ++ [i]) = (lessonOf i).toList ++ lessons is := by
  cases h : lessonOf i <;> simp [lessons, h]

/-- One request. -/
theorem consistent_step {n n' : Net} {i : Input} {o : Outcome} {is : List Input}
    (h : Consistent usable (pairs n.arp) (lessons is)) (hs : step n i = some (n', o)) :
    Consistent usable (pairs n'.arp) (lessons (is ++ [i])) := by
  have harp := handle_arp n i
  rw [(step_spec hs).1] at harp
  rw [harp, lessons_append]
  cases lessonOf i with
  | none => exact h
  | some l => exact consistent_update h

/-- **The table of the service is a cache of what has been announced**, in every run. -/
theorem consistent_run {C : Net → Input → Prop} {is : List Input} {os : List Outcome} {n : Net}
    (hrun : Run step C Net.init is os n) : Consistent usable (pairs n.arp) (lessons is) := by
  induction hrun with
  | nil =>
    exact consistent_empty fun i h => absurd h (by simp [pairs, usable, Net.init, uipArpInit])
  | snoc _ _ hs ih => exact consistent_step ih hs

/-- **No packet goes to an outdated address.**  In every run, a frame in which the service sends an
IP packet goes to all hosts, if the packet does, or to the Ethernet address that the next hop has
announced last.  Whatever other hosts have said in between, and however often the next hop itself
has changed its mind, makes no difference. -/
theorem arp_current {C : Net → Input → Prop} {is : List Input} {os : List Outcome} {n n' : Net}
    {i : Input} {o : Outcome} (hrun : Run step C Net.init is os n)
    (hstep : step n i = some (n', o)) (hraw : sendsRaw i.request = false) :
    ∀ f ∈ transmitted o.events, word16 (payload f) ArpHdr.type = HTONS UIP_ETHTYPE_IP →
      UIP_LLH_LEN + UIP_IPH_LEN ≤ f.length →
      word32 (payload f) Hdr.destipaddr = broadcastIpaddr ∧
          ethAddr (payload f) ArpHdr.dest = broadcastEthaddr ∨
        lastSaid (lessons (is ++ [i])) (hopFor (word32 (payload f) Hdr.destipaddr)) =
          some (ethAddr (payload f) ArpHdr.dest) := by
  intro f hf htype hlen
  obtain ⟨hhandle, -, hfault⟩ := step_spec hstep
  have hconsistent := consistent_step (consistent_run hrun) hstep
  have harp := handle_arp n i
  rw [hhandle] at harp
  have hpolling : polling i.request = true :=
    polling_of_transmitted (n := n) hraw (by rwa [hhandle])
  have hpolled : (netPoll n i.rx).1.arp = n'.arp := by
    rw [harp, netPoll_arp, lessonOf, if_pos hpolling]
  have haddressed : Addressed n'.arp f := by
    refine transmitted_handle (n := n) hraw (fun _ hmem => ?_) (fun t _ ht _ hmem => ?_)
      (by rwa [hhandle]) (by rwa [hhandle])
    · exact hpolled ▸ addressed_netPoll hmem
    · exact (ht.trans hpolled) ▸ addressed_kick hmem
  rcases haddressed htype hlen with hall | ⟨j, hj, hdest⟩
  · exact .inl hall
  · refine .inr ?_
    have hkey : (pairs n'.arp j).1 = hopFor (word32 (payload f) Hdr.destipaddr) := hj
    have hsound := hconsistent.sound j (hkey ▸ usable_hopFor _)
    rw [← hkey, hsound, hdest]
    rfl

/-- The same host announces a new Ethernet address, and connects. -/
def readdressed : List Input := resolved ++ [asked uipDraddr [0x52, 0x55, 10, 0, 2, 3]]

theorem arp_current_readdressed : ∃ os n n' o f, Run step Free Net.init readdressed os n ∧
    step n (Request.receiving .sockAccept (.syn 1000 100)) = some (n', o) ∧
    transmitted o.events = [f] ∧
      (ethAddr (payload f) ArpHdr.dest).addr = [0x52, 0x55, 10, 0, 2, 3] ∧
    (word32 (payload f) Hdr.destipaddr = broadcastIpaddr ∧
        ethAddr (payload f) ArpHdr.dest = broadcastEthaddr ∨
      lastSaid (lessons (readdressed ++ [Request.receiving .sockAccept (.syn 1000 100)]))
          (hopFor (word32 (payload f) Hdr.destipaddr)) =
        some (ethAddr (payload f) ArpHdr.dest)) := by
  have hexec : ((exec step Net.init readdressed).bind fun r =>
      (step r.1 (Request.receiving .sockAccept (.syn 1000 100))).map fun s =>
        (transmitted s.2.events).map fun f => decide (
          word16 (payload f) ArpHdr.type = HTONS UIP_ETHTYPE_IP ∧
          UIP_LLH_LEN + UIP_IPH_LEN ≤ f.length ∧
          (ethAddr (payload f) ArpHdr.dest).addr = [0x52, 0x55, 10, 0, 2, 3])) = some [true] := by
    decide +kernel
  obtain ⟨⟨n, os⟩, hr, hnext⟩ := Option.bind_eq_some_iff.mp hexec
  obtain ⟨⟨n', o⟩, hstep, hframes⟩ := Option.map_eq_some_iff.mp hnext
  obtain ⟨f, rest, hf, hthis, hnone⟩ := List.map_eq_cons_iff.mp hframes
  obtain rfl := List.map_eq_nil_iff.mp hnone
  obtain ⟨htype, hlen, hdest⟩ := of_decide_eq_true hthis
  have hrun := run_of_exec hr
  exact ⟨os, n, n', o, f, hrun, hstep, hf, hdest,
    arp_current hrun hstep rfl f (hf ▸ List.mem_singleton_self f) htype hlen⟩

/-- **Only the first place of the table is ever given to another host**: between any two moments of
a run, an entry in another place that is not empty keeps its address. -/
theorem arp_keeps {C : Net → Input → Prop} {is : List Input} {os : List Outcome} {n₀ n : Net}
    (hrun : Run step C n₀ is os n) {j : Fin 8} (hj : j ≠ 0)
    (hfull : (n₀.arp j).ipaddr ≠ ⟨0, 0, 0, 0⟩) : (n.arp j).ipaddr = (n₀.arp j).ipaddr := by
  induction hrun with
  | nil => rfl
  | @snoc is os n n' i o _ _ hs ih =>
    have harp := handle_arp n i
    rw [(step_spec hs).1] at harp
    rw [← ih, harp]
    cases lessonOf i with
    | none => rfl
    | some l =>
      obtain ⟨ipaddr, ethaddr⟩ := l
      obtain ⟨k, heq, -, hplace⟩ := uipArpUpdate_place n.arp ipaddr ethaddr
      rw [learn, heq]
      by_cases hk : j = k
      · subst hk
        rw [Function.update_self]
        rcases hplace with hzero | hsame | hempty
        · exact absurd hzero hj
        · exact hsame.symm
        · exact absurd (ih.symm.trans hempty) hfull
      · rw [Function.update_of_ne hk]

/-- A second host is entered in the second place, and stays there when a third one comes. -/
theorem arp_keeps_second : ∃ os n₀ os' n,
    Run step Free Net.init (resolved ++ [asked ⟨10, 0, 2, 3⟩ peerEthaddr]) os n₀ ∧
      Run step Free n₀ [asked ⟨10, 0, 2, 4⟩ peerEthaddr] os' n ∧
      (n₀.arp 1).ipaddr = ⟨10, 0, 2, 3⟩ ∧ (n.arp 1).ipaddr = (n₀.arp 1).ipaddr := by
  have hexec : ((exec step Net.init (resolved ++ [asked ⟨10, 0, 2, 3⟩ peerEthaddr])).bind fun r =>
      (exec step r.1 [asked ⟨10, 0, 2, 4⟩ peerEthaddr]).map fun _ => (r.1.arp 1).ipaddr) =
        some ⟨10, 0, 2, 3⟩ := by decide +kernel
  obtain ⟨⟨n₀, os⟩, hr, hnext⟩ := Option.bind_eq_some_iff.mp hexec
  obtain ⟨⟨n, os'⟩, hr', hsecond⟩ := Option.map_eq_some_iff.mp hnext
  have hrun := run_of_exec hr'
  exact ⟨os, n₀, os', n, run_of_exec hr, hrun, hsecond,
    arp_keeps hrun (by decide) (by rw [hsecond]; decide)⟩

end Service
end EgosNet
