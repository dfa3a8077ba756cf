import EgosNet.Uip.State

/-!
# The address resolution table

`library/uip/uip_arp.c`: the table of eight entries, the processing of an incoming
ARP packet, and `uip_arp_out`, which puts an Ethernet header before the IP packet
in `uip_buf` or, when the address of the next hop is unknown, replaces the packet
by an ARP request.

The service does not run `uip_arp_timer`, so `arptime` and the age of every entry
stay zero, and the entry thrown away when the table is full is always the first.
That is the table the service has here, `ArpTable`; `AgedTable` is the table with
the clock, for `uip_arp_timer`.  `uip_arp_ipin` is an empty macro.
-/

namespace EgosNet
namespace Uip

open Foundation

def UIP_ARPTAB_SIZE : ℕ := 8
def UIP_ARP_MAXAGE : ℤ := 120
def UIP_ETHTYPE_ARP : ℤ := 0x0806
def UIP_ETHTYPE_IP : ℤ := 0x0800
def ARP_REQUEST : ℤ := 1
def ARP_REPLY : ℤ := 2
def ARP_HWTYPE_ETH : ℤ := 1

/-- `sizeof(struct uip_eth_hdr)` and `sizeof(struct arp_hdr)`. -/
def ethHdrLen : ℕ := 14
def arpHdrLen : ℕ := 42

/-- `struct uip_eth_addr`. -/
structure EthAddr where
  addr : List UInt8
  length_addr : addr.length = 6
  deriving DecidableEq, Repr

/-- The Ethernet address at an offset. -/
def ethAddr (m : Mem) (off : ℕ) : EthAddr := ⟨m.load off 6, Mem.length_load m off 6⟩

/-- `uip_ethaddr`, as `main` of the service sets it. -/
def uipEthaddr : EthAddr := ⟨[0x52, 0x54, 0x00, 0x00, 0x00, 0x01], rfl⟩

def broadcastEthaddr : EthAddr := ⟨[0xff, 0xff, 0xff, 0xff, 0xff, 0xff], rfl⟩
def broadcastIpaddr : Word32 := ⟨0xff, 0xff, 0xff, 0xff⟩

/-- `struct arp_entry`, without its age. -/
structure ArpEntry where
  ipaddr : Word32 := ⟨0, 0, 0, 0⟩
  ethaddr : EthAddr := ⟨[0, 0, 0, 0, 0, 0], rfl⟩
  deriving DecidableEq, Repr

/-- `arp_table`. -/
abbrev ArpTable := Fin 8 → ArpEntry

/-- The table after `uip_arp_init`. -/
def uipArpInit : ArpTable := fun _ => {}

/-! ## Offsets in `struct uip_eth_hdr` and `struct arp_hdr` -/

namespace ArpHdr

@[simp] def dest : ℕ := 0
@[simp] def src : ℕ := 6
@[simp] def type : ℕ := 12
@[simp] def hwtype : ℕ := 14
@[simp] def protocol : ℕ := 16
@[simp] def hwlen : ℕ := 18
@[simp] def protolen : ℕ := 19
@[simp] def opcode : ℕ := 20
@[simp] def shwaddr : ℕ := 22
@[simp] def sipaddr : ℕ := 28
@[simp] def dhwaddr : ℕ := 32
@[simp] def dipaddr : ℕ := 38

end ArpHdr

/-- `tabptr->ipaddr[0] != 0 && tabptr->ipaddr[1] != 0`: an entry counts as used when
both halves of its address are nonzero. -/
def ArpEntry.used (e : ArpEntry) : Bool :=
  (e.ipaddr.b0 ≠ 0 ∨ e.ipaddr.b1 ≠ 0) ∧ (e.ipaddr.b2 ≠ 0 ∨ e.ipaddr.b3 ≠ 0)

/-- `uip_arp_update`: refresh the entry for an address, or else fill the first empty
one, or else the first. -/
def uipArpUpdate (t : ArpTable) (ipaddr : Word32) (ethaddr : EthAddr) : ArpTable :=
  match (List.finRange 8).find? fun i => (t i).used ∧ ipaddr = (t i).ipaddr with
  | some i => Function.update t i { t i with ethaddr := ethaddr }
  | none =>
    match (List.finRange 8).find? fun i => (t i).ipaddr = ⟨0, 0, 0, 0⟩ with
    | some i => Function.update t i ⟨ipaddr, ethaddr⟩
    | none => Function.update t 0 ⟨ipaddr, ethaddr⟩

/-- The reply to an ARP request, built in place of the request. -/
def arpReply (u : Stack) : Stack :=
  let u := u.put ArpHdr.opcode (HTONS 2).toBytes
  let u := u.put ArpHdr.dhwaddr (ethAddr u.buf ArpHdr.shwaddr).addr
  let u := u.put ArpHdr.shwaddr uipEthaddr.addr
  let u := u.put ArpHdr.src uipEthaddr.addr
  let u := u.put ArpHdr.dest (ethAddr u.buf ArpHdr.dhwaddr).addr
  let u := u.put ArpHdr.dipaddr (word32 u.buf ArpHdr.sipaddr).toBytes
  let u := u.put ArpHdr.sipaddr uipHostaddr.toBytes
  let u := u.put ArpHdr.type (HTONS UIP_ETHTYPE_ARP).toBytes
  { u with len := arpHdrLen }

/-- `uip_arp_arpin`. -/
def uipArpArpin (u : Stack) (t : ArpTable) : Stack × ArpTable :=
  if u.len < arpHdrLen then ({ u with len := 0 }, t)
  else
    let u := { u with len := 0 }
    let learn := uipArpUpdate t (word32 u.buf ArpHdr.sipaddr) (ethAddr u.buf ArpHdr.shwaddr)
    if word16 u.buf ArpHdr.opcode = HTONS ARP_REQUEST then
      if word32 u.buf ArpHdr.dipaddr = uipHostaddr then (arpReply u, learn) else (u, t)
    else if word16 u.buf ArpHdr.opcode = HTONS ARP_REPLY then
      if word32 u.buf ArpHdr.dipaddr = uipHostaddr then (u, learn) else (u, t)
    else (u, t)

/-- `uip_ipaddr_maskcmp`. -/
def uipIpaddrMaskcmp (a b m : Word32) : Bool :=
  a.b0 &&& m.b0 = b.b0 &&& m.b0 ∧ a.b1 &&& m.b1 = b.b1 &&& m.b1 ∧
    a.b2 &&& m.b2 = b.b2 &&& m.b2 ∧ a.b3 &&& m.b3 = b.b3 &&& m.b3

/-- The ARP request that replaces the packet. -/
def arpRequest (u : Stack) (ipaddr : Word32) : Stack :=
  let u := u.put ArpHdr.dest broadcastEthaddr.addr
  let u := u.put ArpHdr.dhwaddr (List.replicate 6 0)
  let u := u.put ArpHdr.src uipEthaddr.addr
  let u := u.put ArpHdr.shwaddr uipEthaddr.addr
  let u := u.put ArpHdr.dipaddr ipaddr.toBytes
  let u := u.put ArpHdr.sipaddr uipHostaddr.toBytes
  let u := u.put ArpHdr.opcode (HTONS ARP_REQUEST).toBytes
  let u := u.put ArpHdr.hwtype (HTONS ARP_HWTYPE_ETH).toBytes
  let u := u.put ArpHdr.protocol (HTONS UIP_ETHTYPE_IP).toBytes
  let u := u.put ArpHdr.hwlen [6]
  let u := u.put ArpHdr.protolen [4]
  let u := u.put ArpHdr.type (HTONS UIP_ETHTYPE_ARP).toBytes
  { u with appdata := UIP_IPTCPH_LEN + UIP_LLH_LEN, len := arpHdrLen }

/-- The Ethernet header before the packet. -/
def ethHeader (u : Stack) (dest : EthAddr) : Stack :=
  let u := u.put ArpHdr.dest dest.addr
  let u := u.put ArpHdr.src uipEthaddr.addr
  let u := u.put ArpHdr.type (HTONS UIP_ETHTYPE_IP).toBytes
  { u with len := (u.len + ethHdrLen) % 65536 }

/-- The address whose entry `uip_arp_out` looks for: the destination itself on the
local network, otherwise the default router. -/
def nextHop (u : Stack) : Word32 :=
  let dest := word32 u.buf Hdr.destipaddr
  if uipIpaddrMaskcmp dest uipHostaddr uipNetmask then dest else uipDraddr

/-- `uip_arp_out`. -/
def uipArpOut (u : Stack) (t : ArpTable) : Stack :=
  if word32 u.buf Hdr.destipaddr = broadcastIpaddr then ethHeader u broadcastEthaddr
  else
    match (List.finRange 8).find? fun i => nextHop u = (t i).ipaddr with
    | none => arpRequest u (nextHop u)
    | some i => ethHeader u (t i).ethaddr

/-! ## The table with its ages -/

/-- `struct arp_entry`, whole. -/
structure AgedEntry extends ArpEntry where
  time : UInt8 := 0
  deriving DecidableEq

/-- `arp_table` and `arptime`. -/
structure AgedTable where
  table : Fin 8 → AgedEntry := fun _ => {}
  arptime : UInt8 := 0

/-- The table without the ages. -/
def AgedTable.forget (s : AgedTable) : ArpTable := fun i => (s.table i).toArpEntry

/-- `arptime - tabptr->time`, computed in `int`. -/
def age (arptime time : UInt8) : ℤ := arptime.toNat - time.toNat

/-- `uip_arp_timer`. -/
def uipArpTimer (s : AgedTable) : AgedTable where
  arptime := s.arptime + 1
  table i :=
    let e := s.table i
    if e.ipaddr ≠ ⟨0, 0, 0, 0⟩ ∧ UIP_ARP_MAXAGE ≤ age (s.arptime + 1) e.time then
      { e with ipaddr := ⟨0, 0, 0, 0⟩ }
    else e

/-- The loop that looks for the oldest entry, from `tmpage` and `c` on. -/
def oldest (s : AgedTable) : UInt8 → Fin 8 → List (Fin 8) → Fin 8
  | _, c, [] => c
  | tmpage, c, i :: is =>
    if tmpage.toNat < age s.arptime (s.table i).time then
      oldest s (s.arptime - (s.table i).time) i is
    else oldest s tmpage c is

/-- `uip_arp_update`, with the age of the entries. -/
def agedUpdate (s : AgedTable) (ipaddr : Word32) (ethaddr : EthAddr) : AgedTable :=
  match (List.finRange 8).find? fun i => (s.table i).used ∧ ipaddr = (s.table i).ipaddr with
  | some i => { s with table := Function.update s.table i { s.table i with
      ethaddr := ethaddr, time := s.arptime } }
  | none =>
    match (List.finRange 8).find? fun i => (s.table i).ipaddr = ⟨0, 0, 0, 0⟩ with
    | some i => { s with table := Function.update s.table i ⟨⟨ipaddr, ethaddr⟩, s.arptime⟩ }
    | none =>
      let i := oldest s 0 0 (List.finRange 8)
      { s with table := Function.update s.table i ⟨⟨ipaddr, ethaddr⟩, s.arptime⟩ }

/-! ## What address resolution leaves alone -/

section Frame

variable (u : Stack) (t : ArpTable)

theorem uipArpArpin_frame :
    (uipArpArpin u t).1.conns = u.conns ∧ (uipArpArpin u t).1.listenports = u.listenports ∧
      (uipArpArpin u t).1.slen = u.slen ∧ (uipArpArpin u t).1.fault = u.fault := by
  simp only [uipArpArpin]
  split_ifs <;> exact ⟨rfl, rfl, rfl, rfl⟩

theorem uipArpOut_frame :
    (uipArpOut u t).conns = u.conns ∧ (uipArpOut u t).listenports = u.listenports ∧
      (uipArpOut u t).slen = u.slen ∧ (uipArpOut u t).fault = u.fault := by
  unfold uipArpOut
  split_ifs
  · exact ⟨rfl, rfl, rfl, rfl⟩
  · split <;> exact ⟨rfl, rfl, rfl, rfl⟩

end Frame

/-! ## The frame on the wire -/

section Wire

variable (u : Stack) {a : ℕ}

/-- The header is written before the packet. -/
theorem ethHeader_buf_of_ge (dest : EthAddr) (h : 14 ≤ a) :
    (ethHeader u dest).buf a = u.buf a := by
  have hlen := dest.length_addr
  simp only [ethHeader]
  rw [Stack.put_buf_of_ge _ (by simp; omega),
    Stack.put_buf_of_ge _ (by simp [uipEthaddr]; omega), Stack.put_buf_of_ge _ (by simp; omega)]

theorem ethHeader_type (dest : EthAddr) :
    (ethHeader u dest).buf.load ArpHdr.type 2 = (HTONS UIP_ETHTYPE_IP).toBytes :=
  Mem.load_store _ _ _

end Wire

end Uip
end EgosNet
