import EgosNet.Foundation.Fifo
import EgosNet.Foundation.Memory

/-!
# The receive ring of the E1000 driver

`earth/dev_net.c` receives through a ring of sixteen descriptors shared with the
device.  Who owns a slot is written down three times: in the descriptor's `DD`
bit, in the device registers `RDH` and `RDT`, and in the driver's `rx_index`.
The device works through the slots from `RDH` up to, and not including, `RDT`;
the driver looks only at the `DD` bit of slot `rx_index`, and hands a slot back by
moving `RDT` onto it.

The model interleaves the two parties freely.  A device step stores one whole
frame; a driver step is one statement of `net_recv` --- one byte of its `memcpy`,
one of its volatile stores to the descriptor, the store to `RDT`, the increment
of `rx_index`.  A call that finds no frame is one step.

`RxOwns s q` is the invariant: the frames `q` are in the slots from `rx_index`
on, every other slot is free, and `RDH` and `RDT` delimit exactly the free ones
but one.  It is also a simulation: the ring, seen through it, is the channel
`fifo`, and the theorem of this file is what `fifo` guarantees.
-/

namespace EgosNet
namespace Earth

open Foundation

/-- An Ethernet frame, as the bytes of a buffer. -/
abbrev Frame := List UInt8

def E1000_RX_RING_SIZE : ℕ := 16
def E1000_RX_BUF_SIZE : ℕ := 2048
def E1000_RXD_STAT_DD : UInt8 := 1
def E1000_RXD_STAT_EOP : UInt8 := 2

/-- A receive descriptor.  `bufferAddr` is the index of the buffer whose address
the descriptor holds. -/
structure RxDesc where
  bufferAddr : ℕ
  length : ℕ
  csum : ℕ
  status : UInt8
  errors : ℕ
  special : ℕ

/-- The descriptor fields `net_recv` clears, in this order. -/
inductive RxField where
  | length | csum | status | errors | special
  deriving DecidableEq

/-- Where the driver is inside `net_recv`, with the locals it needs from there on:
the length read from the descriptor and the bytes copied so far. -/
inductive RxPc where
  | idle
  | testEop
  | readLength
  | copy (len : ℕ) (out : Frame)
  | clear (field : RxField) (out : Frame)
  | writeTail (out : Frame)
  | advance (out : Frame)
  | fatal
  deriving DecidableEq

/-- The descriptors, the buffers, the registers `RDH` and `RDT`, and the driver. -/
structure RxRing where
  ring : ℕ → RxDesc
  bufs : ℕ → Mem
  rdh : ℕ
  rdt : ℕ
  rxIndex : ℕ
  pc : RxPc

/-- What one step of either party does next: the device stores a frame, or the
driver executes its next statement. -/
inductive RxInput where
  | device (frame : Frame)
  | driver
  deriving DecidableEq

/-- What a step did, with the slot it was done in. -/
inductive RxEvent where
  | stored (slot : ℕ) (frame : Frame)
  | returned (slot : ℕ) (frame : Frame)
  | quiet
  deriving DecidableEq

/-- `e1000_rx_init`: every descriptor clear and pointing at its own buffer, all
slots but the last given to the device. -/
def e1000RxInit (bufs : ℕ → Mem) : RxRing where
  ring i := { bufferAddr := i, length := 0, csum := 0, status := 0, errors := 0, special := 0 }
  bufs := bufs
  rdh := 0
  rdt := E1000_RX_RING_SIZE - 1
  rxIndex := 0
  pc := .idle

/-- The device: while `RDH ≠ RDT` it may store a whole frame in slot `RDH`, set the
length and the `DD` and `EOP` bits, and advance `RDH`. -/
def rxDevice (s : RxRing) (frame : Frame) : Option (RxRing × RxEvent) :=
  if s.rdh ≠ s.rdt ∧ frame.length ≤ E1000_RX_BUF_SIZE then
    let d := s.ring s.rdh
    let d' := { d with
      length := frame.length
      status := d.status ||| (E1000_RXD_STAT_DD ||| E1000_RXD_STAT_EOP) }
    some ({ s with
      ring := Function.update s.ring s.rdh d'
      bufs := Function.update s.bufs d.bufferAddr ((s.bufs d.bufferAddr).store 0 frame)
      rdh := (s.rdh + 1) % E1000_RX_RING_SIZE }, .stored s.rdh frame)
  else none

/-- One store to a descriptor field, and the statement that follows it. -/
def clearField (d : RxDesc) (out : Frame) : RxField → RxDesc × RxPc
  | .length => ({ d with length := 0 }, .clear .csum out)
  | .csum => ({ d with csum := 0 }, .clear .status out)
  | .status => ({ d with status := 0 }, .clear .errors out)
  | .errors => ({ d with errors := 0 }, .clear .special out)
  | .special => ({ d with special := 0 }, .writeTail out)

/-- The next statement of `net_recv`.  `fatal` is where `FATAL` and a failed
`ASSERT` leave the driver. -/
def netRecv (s : RxRing) : RxRing × RxEvent :=
  let d := s.ring s.rxIndex
  match s.pc with
  | .idle =>
    if d.status &&& E1000_RXD_STAT_DD = 0 then (s, .quiet)  -- return 0
    else ({ s with pc := .testEop }, .quiet)
  | .testEop =>
    if d.status &&& E1000_RXD_STAT_EOP = 0 then ({ s with pc := .fatal }, .quiet)
    else ({ s with pc := .readLength }, .quiet)
  | .readLength =>
    if d.length ≤ E1000_RX_BUF_SIZE then ({ s with pc := .copy d.length [] }, .quiet)
    else ({ s with pc := .fatal }, .quiet)
  | .copy len out =>
    if out.length < len then
      ({ s with pc := .copy len (out ++ [s.bufs s.rxIndex out.length]) }, .quiet)
    else ({ s with pc := .clear .length out }, .quiet)
  | .clear field out =>
    let (d', pc) := clearField d out field
    ({ s with ring := Function.update s.ring s.rxIndex d', pc := pc }, .quiet)
  | .writeTail out => ({ s with rdt := s.rxIndex, pc := .advance out }, .quiet)
  | .advance out =>
    ({ s with rxIndex := (s.rxIndex + 1) % E1000_RX_RING_SIZE, pc := .idle },
      .returned s.rxIndex out)
  | .fatal => (s, .quiet)

/-- A step of the device or of the driver. -/
def rxStep (s : RxRing) : RxInput → Option (RxRing × RxEvent)
  | .device frame => rxDevice s frame
  | .driver => some (netRecv s)

/-! ## What the run has done so far -/

/-- The frames the device stored, each with its slot. -/
def storedFrames : List RxEvent → List (ℕ × Frame) := List.filterMap fun
  | .stored slot frame => some (slot, frame)
  | _ => none

/-- The frames `net_recv` returned, each with its slot. -/
def returnedFrames : List RxEvent → List (ℕ × Frame) := List.filterMap fun
  | .returned slot frame => some (slot, frame)
  | _ => none

/-- A step as an operation on the channel the ring implements. -/
def rxOp : RxEvent → FifoOp (ℕ × Frame)
  | .stored slot frame => .put (slot, frame)
  | .returned slot frame => .get (slot, frame)
  | .quiet => .skip

theorem puts_map_rxOp (os : List RxEvent) : puts (os.map rxOp) = storedFrames os := by
  rw [puts, storedFrames, List.filterMap_map]
  congr 1
  funext o
  cases o <;> rfl

theorem gets_map_rxOp (os : List RxEvent) : gets (os.map rxOp) = returnedFrames os := by
  rw [gets, returnedFrames, List.filterMap_map]
  congr 1
  funext o
  cases o <;> rfl

/-! ## The invariant -/

/-- Slot `i` holds `frame`, ready for the driver. -/
structure SlotHolds (s : RxRing) (i : ℕ) (frame : Frame) : Prop where
  status : (s.ring i).status = 3
  length : (s.ring i).length = frame.length
  data : (s.bufs i).load 0 frame.length = frame
  bound : frame.length ≤ E1000_RX_BUF_SIZE

/-- One more slot is free for the device between the store to `RDT` and the
increment of `rx_index`. -/
def RxPc.released : RxPc → ℕ
  | .advance _ => 1
  | _ => 0

/-- The driver has not begun to clear the descriptor it is working on. -/
def RxPc.Intact : RxPc → Prop
  | .clear _ _ | .writeTail _ | .advance _ => False
  | _ => True

/-- What the driver's position says about the oldest frame of the ring. -/
def AtPc (s : RxRing) (q : List (ℕ × Frame)) : Prop :=
  match s.pc with
  | .idle => True
  | .testEop | .readLength => q ≠ []
  | .copy len out => ∃ slot frame q', q = (slot, frame) :: q' ∧ len = frame.length ∧
      out = frame.take out.length ∧ out.length ≤ len
  | .clear field out => (∃ slot q', q = (slot, out) :: q') ∧
      (field = .errors ∨ field = .special → (s.ring s.rxIndex).status = 0)
  | .writeTail out | .advance out => (∃ slot q', q = (slot, out) :: q') ∧
      (s.ring s.rxIndex).status = 0
  | .fatal => False

/-- **The ownership invariant.**  The frames `q`, oldest first, are in the slots
from `rx_index` on; all other slots are free; `RDH` is the first free slot and
`RDT` the last slot before `rx_index`. -/
structure RxOwns (s : RxRing) (q : List (ℕ × Frame)) : Prop where
  index_lt : s.rxIndex < 16
  addr : ∀ i, (s.ring i).bufferAddr = i
  head : s.rdh = (s.rxIndex + q.length) % 16
  tail : s.rdt = (s.rxIndex + 15 + s.pc.released) % 16
  bound : q.length ≤ 15 + s.pc.released
  slot : ∀ k x, q[k]? = some x → x.1 = (s.rxIndex + k) % 16
  full : ∀ k x, q[k]? = some x → (k = 0 → s.pc.Intact) →
    SlotHolds s ((s.rxIndex + k) % 16) x.2
  free : ∀ k, q.length ≤ k → k < 16 → (s.ring ((s.rxIndex + k) % 16)).status = 0
  atPc : AtPc s q

theorem rxOwns_init (bufs : ℕ → Mem) : RxOwns (e1000RxInit bufs) [] where
  index_lt := Nat.zero_lt_succ 15
  addr _ := rfl
  head := rfl
  tail := rfl
  bound := Nat.zero_le _
  slot := by simp
  full := by simp
  free _ _ _ := rfl
  atPc := trivial

theorem RxPc.released_le (pc : RxPc) : pc.released ≤ 1 := by
  cases pc <;> simp [RxPc.released]

/-- A frame added at the young end leaves the driver's position as it was, as long
as the descriptor the driver is working on does. -/
theorem AtPc.append {s s' : RxRing} {q : List (ℕ × Frame)} {x : ℕ × Frame} (h : AtPc s q)
    (hpc : s'.pc = s.pc)
    (hstatus : q ≠ [] → (s'.ring s'.rxIndex).status = (s.ring s.rxIndex).status) :
    AtPc s' (q ++ [x]) := by
  unfold AtPc at h ⊢
  rw [hpc]
  cases hp : s.pc with
  | idle => trivial
  | testEop => simp
  | readLength => simp
  | copy len out =>
    simp only [hp] at h ⊢
    obtain ⟨slot, frame, q', rfl, hcopy⟩ := h
    exact ⟨slot, frame, q' ++ [x], rfl, hcopy⟩
  | clear field out =>
    simp only [hp] at h ⊢
    obtain ⟨⟨slot, q', rfl⟩, hst⟩ := h
    exact ⟨⟨slot, q' ++ [x], rfl⟩, by rwa [hstatus (by simp)]⟩
  | writeTail out =>
    simp only [hp] at h ⊢
    obtain ⟨⟨slot, q', rfl⟩, hst⟩ := h
    exact ⟨⟨slot, q' ++ [x], rfl⟩, by rwa [hstatus (by simp)]⟩
  | advance out =>
    simp only [hp] at h ⊢
    obtain ⟨⟨slot, q', rfl⟩, hst⟩ := h
    exact ⟨⟨slot, q' ++ [x], rfl⟩, by rwa [hstatus (by simp)]⟩
  | fatal => simp only [hp] at h

/-- The device stores into a slot that holds no frame, and the frame it stores is
the youngest. -/
theorem RxOwns.device {s s' : RxRing} {q : List (ℕ × Frame)} {frame : Frame} {o : RxEvent}
    (h : RxOwns s q) (hs : rxDevice s frame = some (s', o)) :
    o = .stored s.rdh frame ∧ RxOwns s' (q ++ [(s.rdh, frame)]) := by
  unfold rxDevice at hs
  split at hs
  next hcond =>
    obtain ⟨hne, hlen⟩ := hcond
    simp only [h.addr, Option.some.injEq, Prod.mk.injEq] at hs
    obtain ⟨rfl, rfl⟩ := hs
    have hhead := h.head
    have htail := h.tail
    have hbound := h.bound
    have hidx := h.index_lt
    have hrel := s.pc.released_le
    -- the ring is not full, since `RDH` has not reached `RDT`
    have hroom : q.length < 15 + s.pc.released := by
      rcases Nat.lt_or_ge q.length (15 + s.pc.released) with hlt | hge
      · exact hlt
      · exact absurd (by rw [hhead, htail]; omega) hne
    have hother : ∀ k, k < q.length → (s.rxIndex + k) % 16 ≠ s.rdh := by
      intro k hk
      rw [hhead]
      omega
    have hfreeSlot : (s.ring s.rdh).status = 0 := by
      rw [hhead]
      exact h.free q.length le_rfl (by omega)
    refine ⟨rfl, ?_⟩
    constructor
    case index_lt => exact hidx
    case addr =>
      intro i
      by_cases hi : i = s.rdh
      · subst hi
        simp
      · simp [hi, h.addr]
    case head => simp only [List.length_append, List.length_singleton, E1000_RX_RING_SIZE]; omega
    case tail => exact htail
    case bound => simp only [List.length_append, List.length_singleton]; omega
    case slot =>
      intro k x hx
      rcases getElem?_put hx with ⟨-, hx⟩ | ⟨rfl, rfl⟩
      · exact h.slot k x hx
      · exact hhead
    case full =>
      intro k x hx hk0
      rcases getElem?_put hx with ⟨hk, hx⟩ | ⟨rfl, rfl⟩
      · have hold := h.full k x hx hk0
        have hne' := hother k hk
        exact ⟨by simp [hne', hold.status], by simp [hne', hold.length],
          by simp [hne', hold.data], hold.bound⟩
      · rw [← hhead]
        refine ⟨?_, by simp, ?_, hlen⟩
        · simp only [Function.update_self, hfreeSlot]
          rfl
        · simp only [Function.update_self]
          exact Mem.load_store _ 0 frame
    case free =>
      intro k hk hk16
      simp only [List.length_append, List.length_singleton] at hk
      have hne' : (s.rxIndex + k) % 16 ≠ s.rdh := by rw [hhead]; omega
      simp only [Function.update_of_ne hne']
      exact h.free k (by omega) hk16
    case atPc =>
      refine h.atPc.append (by rfl) (fun hq => ?_)
      have h0 := hother 0 (List.length_pos_iff.mpr hq)
      rw [Nat.add_zero, Nat.mod_eq_of_lt hidx] at h0
      simp [h0]
  next => exact absurd hs (by simp)

/-! ## The driver keeps it -/

/-- A statement that only moves the driver on. -/
theorem RxOwns.withPc {s : RxRing} {q : List (ℕ × Frame)} (h : RxOwns s q) (pc : RxPc)
    (hrel : pc.released = s.pc.released) (hint : pc.Intact → s.pc.Intact)
    (hat : AtPc { s with pc := pc } q) : RxOwns { s with pc := pc } q where
  index_lt := h.index_lt
  addr := h.addr
  head := h.head
  tail := by
    have htail := h.tail
    rw [← hrel] at htail
    exact htail
  bound := by
    have hbound := h.bound
    rw [← hrel] at hbound
    exact hbound
  slot := h.slot
  full k x hx hk := by
    have hold := h.full k x hx fun hk0 => hint (hk hk0)
    exact ⟨hold.status, hold.length, hold.data, hold.bound⟩
  free := h.free
  atPc := hat

/-- A store to the descriptor the driver is working on. -/
theorem RxOwns.withDesc {s : RxRing} {q : List (ℕ × Frame)} (h : RxOwns s q) (hq : q ≠ [])
    {d : RxDesc} {pc : RxPc} (hd : d.bufferAddr = s.rxIndex)
    (hrel : pc.released = s.pc.released) (hint : ¬ pc.Intact)
    (hat : AtPc { s with ring := Function.update s.ring s.rxIndex d, pc := pc } q) :
    RxOwns { s with ring := Function.update s.ring s.rxIndex d, pc := pc } q := by
  have hidx := h.index_lt
  have hpos : 0 < q.length := List.length_pos_iff.mpr hq
  have hother : ∀ k, 0 < k → k < 16 → (s.rxIndex + k) % 16 ≠ s.rxIndex := by omega
  have hlen : q.length ≤ 16 := by
    have hbound := h.bound
    have hle := s.pc.released_le
    omega
  constructor
  case index_lt => exact hidx
  case addr =>
    intro i
    by_cases hi : i = s.rxIndex
    · subst hi
      simp [hd]
    · simp [hi, h.addr]
  case head => exact h.head
  case tail => simpa only [hrel] using h.tail
  case bound => simpa only [hrel] using h.bound
  case slot => exact h.slot
  case full =>
    intro k x hx hk
    have hk0 : 0 < k := Nat.pos_of_ne_zero fun hk0 => hint (hk hk0)
    have hk16 : k < 16 := by
      have := (List.getElem?_eq_some_iff.mp hx).1
      omega
    have hne := hother k hk0 hk16
    have hold := h.full k x hx (by omega)
    exact ⟨by simp [hne, hold.status], by simp [hne, hold.length], hold.data, hold.bound⟩
  case free =>
    intro k hk hk16
    simp only [Function.update_of_ne (hother k (by omega) hk16)]
    exact h.free k hk hk16
  case atPc => exact hat

/-- The store to `RDT` gives the cleared slot to the device. -/
theorem RxOwns.writeTail {s : RxRing} {q : List (ℕ × Frame)} {out : Frame} (h : RxOwns s q)
    (hpc : s.pc = .writeTail out) :
    RxOwns { s with rdt := s.rxIndex, pc := .advance out } q := by
  have hat := h.atPc
  have hbound := h.bound
  have hidx := h.index_lt
  simp only [AtPc, hpc, RxPc.released] at hat hbound
  constructor
  case index_lt => exact hidx
  case addr => exact h.addr
  case head => exact h.head
  case tail => simp only [RxPc.released]; omega
  case bound => simp only [RxPc.released]; omega
  case slot => exact h.slot
  case full =>
    intro k x hx hk
    have hold := h.full k x hx fun hk0 => absurd (hk hk0) (by simp [RxPc.Intact])
    exact ⟨hold.status, hold.length, hold.data, hold.bound⟩
  case free => exact h.free
  case atPc => exact hat

/-- The increment of `rx_index` takes the oldest frame out of the ring. -/
theorem RxOwns.advance {s : RxRing} {q : List (ℕ × Frame)} {out : Frame} (h : RxOwns s q)
    (hpc : s.pc = .advance out) :
    ∃ q', q = (s.rxIndex, out) :: q' ∧
      RxOwns { s with rxIndex := (s.rxIndex + 1) % E1000_RX_RING_SIZE, pc := .idle } q' := by
  have hat := h.atPc
  have hbound := h.bound
  have hidx := h.index_lt
  have htail := h.tail
  have hhead := h.head
  simp only [AtPc, hpc, RxPc.released] at hat hbound htail
  obtain ⟨⟨slot, q', rfl⟩, hstatus⟩ := hat
  obtain rfl : slot = s.rxIndex := by
    simpa [Nat.mod_eq_of_lt hidx] using h.slot 0 _ rfl
  simp only [List.length_cons] at hbound hhead
  have hshift : ∀ k, ((s.rxIndex + 1) % 16 + k) % 16 = (s.rxIndex + (k + 1)) % 16 := by omega
  refine ⟨q', rfl, ?_⟩
  constructor
  case index_lt => exact Nat.mod_lt _ (by decide)
  case addr => exact h.addr
  case head => simp only [E1000_RX_RING_SIZE]; omega
  case tail => simp only [E1000_RX_RING_SIZE, RxPc.released]; omega
  case bound => simp only [RxPc.released]; omega
  case slot =>
    intro k x hx
    simp only [E1000_RX_RING_SIZE, hshift]
    exact h.slot (k + 1) x (by simpa using hx)
  case full =>
    intro k x hx _
    have hold := h.full (k + 1) x (by simpa using hx) (by omega)
    rw [← hshift] at hold
    exact ⟨hold.status, hold.length, hold.data, hold.bound⟩
  case free =>
    intro k hk hk16
    simp only [E1000_RX_RING_SIZE, hshift]
    rcases Nat.lt_or_ge (k + 1) 16 with hlt | hge
    · exact h.free (k + 1) (by simpa using hk) hlt
    · -- the slot just given back, now the last one before `rx_index`
      have hself : (s.rxIndex + (k + 1)) % 16 = s.rxIndex := by omega
      rw [hself]
      exact hstatus
  case atPc => trivial

/-- The driver works on the slot of the oldest frame. -/
theorem RxOwns.oldest {s : RxRing} {x : ℕ × Frame} {q : List (ℕ × Frame)} (h : RxOwns s (x :: q))
    (hint : s.pc.Intact) : SlotHolds s s.rxIndex x.2 := by
  have hfull := h.full 0 x rfl fun _ => hint
  rwa [Nat.add_zero, Nat.mod_eq_of_lt h.index_lt] at hfull

/-- **Every statement of `net_recv` keeps the invariant**, and the only one that
changes what the ring holds is the last, which returns the oldest frame. -/
theorem RxOwns.netRecv_step {s s' : RxRing} {q : List (ℕ × Frame)} {o : RxEvent} (h : RxOwns s q)
    (hs : netRecv s = (s', o)) :
    (o = .quiet ∧ RxOwns s' q) ∨
      ∃ x q', o = .returned x.1 x.2 ∧ q = x :: q' ∧ RxOwns s' q' := by
  have hat := h.atPc
  unfold netRecv at hs
  cases hpc : s.pc with
  | idle =>
    simp only [hpc] at hs
    split at hs
    next =>
      obtain ⟨rfl, rfl⟩ := Prod.mk.inj hs
      exact Or.inl ⟨rfl, h⟩
    next hdd =>
      obtain ⟨rfl, rfl⟩ := Prod.mk.inj hs
      refine Or.inl ⟨rfl, h.withPc _ (by rw [hpc]; rfl) (by rw [hpc]; exact id) ?_⟩
      rintro rfl
      have hfree := h.free 0 le_rfl (by decide)
      rw [Nat.add_zero, Nat.mod_eq_of_lt h.index_lt] at hfree
      exact hdd (by rw [hfree]; rfl)
  | testEop =>
    simp only [hpc, AtPc] at hs hat
    obtain ⟨x, q', rfl⟩ := List.exists_cons_of_ne_nil hat
    have hfull := h.oldest (by simp [hpc, RxPc.Intact])
    rw [if_neg (by rw [hfull.status]; decide)] at hs
    obtain ⟨rfl, rfl⟩ := Prod.mk.inj hs
    exact Or.inl ⟨rfl, h.withPc _ (by rw [hpc]; rfl) (by rw [hpc]; exact id) hat⟩
  | readLength =>
    simp only [hpc, AtPc] at hs hat
    obtain ⟨x, q', rfl⟩ := List.exists_cons_of_ne_nil hat
    have hfull := h.oldest (by simp [hpc, RxPc.Intact])
    rw [if_pos (by rw [hfull.length]; exact hfull.bound)] at hs
    obtain ⟨rfl, rfl⟩ := Prod.mk.inj hs
    refine Or.inl ⟨rfl, h.withPc _ (by rw [hpc]; rfl) (by rw [hpc]; exact id) ?_⟩
    exact ⟨x.1, x.2, q', rfl, hfull.length, by simp, by simp⟩
  | copy len out =>
    simp only [hpc, AtPc] at hs hat
    obtain ⟨slot, frame, q', rfl, rfl, hout, hle⟩ := hat
    have hfull := h.oldest (by simp [hpc, RxPc.Intact])
    split at hs
    next hlt =>
      obtain ⟨rfl, rfl⟩ := Prod.mk.inj hs
      refine Or.inl ⟨rfl, h.withPc _ (by rw [hpc]; rfl) (by rw [hpc]; exact id) ?_⟩
      have hbyte : s.bufs s.rxIndex out.length = frame[out.length] := by
        have hget := Mem.getElem?_load (s.bufs s.rxIndex) 0 frame.length out.length hlt
        rw [hfull.data, List.getElem?_eq_getElem hlt, Nat.zero_add] at hget
        exact (Option.some.inj hget).symm
      refine ⟨slot, frame, q', rfl, rfl, ?_, by
        simp only [List.length_append, List.length_singleton]; omega⟩
      rw [hbyte, List.length_append, List.length_singleton, List.take_succ_eq_append_getElem hlt,
        ← hout]
    next hge =>
      obtain ⟨rfl, rfl⟩ := Prod.mk.inj hs
      have hall : out = frame := by
        rw [hout, List.take_of_length_le (by omega)]
      refine Or.inl ⟨rfl, h.withPc _ (by rw [hpc]; rfl) (by simp [RxPc.Intact]) ?_⟩
      exact ⟨⟨slot, q', by rw [hall]⟩, by simp⟩
  | clear field out =>
    simp only [hpc, AtPc] at hs hat
    obtain ⟨⟨slot, q', rfl⟩, hstatus⟩ := hat
    obtain ⟨rfl, rfl⟩ := Prod.mk.inj hs
    refine Or.inl ⟨rfl, h.withDesc (by simp) ?_ ?_ ?_ ?_⟩
    · cases field <;> exact h.addr _
    · rw [hpc]
      cases field <;> rfl
    · cases field <;> simp [clearField, RxPc.Intact]
    · cases field <;> simp_all [AtPc, clearField]
  | writeTail out =>
    simp only [hpc] at hs
    obtain ⟨rfl, rfl⟩ := Prod.mk.inj hs
    exact Or.inl ⟨rfl, h.writeTail hpc⟩
  | advance out =>
    simp only [hpc] at hs
    obtain ⟨rfl, rfl⟩ := Prod.mk.inj hs
    obtain ⟨q', hq, hown⟩ := h.advance hpc
    exact Or.inr ⟨(s.rxIndex, out), q', rfl, hq, hown⟩
  | fatal => simp only [hpc, AtPc] at hat

/-! ## The ring is the channel -/

/-- The ring simulates `fifo`. -/
theorem rxOwns_simulates (s : RxRing) (q : List (ℕ × Frame)) (i : RxInput) (s' : RxRing)
    (o : RxEvent) (h : RxOwns s q) (_ : Free s i) (hs : rxStep s i = some (s', o)) :
    ∃ q', fifo q (rxOp o) = some (q', ()) ∧ RxOwns s' q' := by
  cases i with
  | device frame =>
    obtain ⟨rfl, hown⟩ := h.device hs
    exact ⟨_, rfl, hown⟩
  | driver =>
    rcases h.netRecv_step (Option.some.inj hs) with ⟨rfl, hown⟩ | ⟨x, q', rfl, rfl, hown⟩
    · exact ⟨q, rfl, hown⟩
    · exact ⟨q', by simp [fifo, rxOp], hown⟩

/-- In every reachable state the ring owns exactly the frames stored and not yet
returned. -/
theorem rxOwns_of_run {bufs : ℕ → Mem} {is : List RxInput} {os : List RxEvent} {s : RxRing}
    (h : Run rxStep Free (e1000RxInit bufs) is os s) :
    ∃ q, RxOwns s q ∧ returnedFrames os ++ q = storedFrames os := by
  obtain ⟨q, us, hfifo, hown⟩ := h.simulate (rxOwns_init bufs) rxOwns_simulates
  refine ⟨q, hown, ?_⟩
  rw [← gets_map_rxOp, ← puts_map_rxOp]
  exact hfifo.gets_append

/-- **Exactly once and in order.**  In every state reached by any interleaving of
device steps with the statements of `net_recv` calls: between calls
`RDT = (rx_index + 15) mod 16`; the driver has not stopped in `FATAL`; the next
slot the device would write holds no frame that has been stored and not yet
returned; and the frames returned are, slot and bytes, the first of the frames
stored. -/
theorem netRecv_exactly_once {bufs : ℕ → Mem} {is : List RxInput} {os : List RxEvent}
    {s : RxRing} (h : Run rxStep Free (e1000RxInit bufs) is os s) :
    (s.pc = .idle → s.rdt = (s.rxIndex + 15) % E1000_RX_RING_SIZE) ∧
    s.pc ≠ .fatal ∧
    (∀ frame s' o, rxStep s (.device frame) = some (s', o) →
      o = .stored s.rdh frame ∧
      ∀ x ∈ (storedFrames os).drop (returnedFrames os).length, x.1 ≠ s.rdh) ∧
    returnedFrames os <+: storedFrames os := by
  obtain ⟨q, hown, hq⟩ := rxOwns_of_run h
  refine ⟨fun hpc => ?_, fun hpc => ?_, fun frame s' o hs => ?_, ⟨q, hq⟩⟩
  · have htail := hown.tail
    rwa [hpc] at htail
  · have hat := hown.atPc
    simp only [AtPc, hpc] at hat
  · obtain ⟨rfl, hown'⟩ := hown.device hs
    refine ⟨rfl, fun x hx => ?_⟩
    rw [← hq, List.drop_left] at hx
    obtain ⟨k, hk, rfl⟩ := List.getElem_of_mem hx
    have hk' : q[k]? = some q[k] := List.getElem?_eq_getElem hk
    rw [hown.slot k _ hk', hown.head]
    have hbound := hown'.bound
    have hle := s'.pc.released_le
    simp only [List.length_append, List.length_singleton] at hbound
    omega

/-- The device stores ten frames, the driver fetches six and begins with the seventh, the device
stores nine more, and the driver goes on until eighteen are fetched. -/
def aroundTheRing : List RxInput :=
  let store (k : ℕ) : List RxInput := (List.range k).map fun j => .device [UInt8.ofNat (k + j)]
  store 10 ++ List.replicate 77 .driver ++ store 9 ++ List.replicate 139 .driver

/-- Both indices have gone round the ring; the frames came out as they went in, and the next one
would be stored where none is waiting. -/
theorem netRecv_exactly_once_aroundTheRing :
    ∃ os s, Run rxStep Free (e1000RxInit fun _ _ => 0) aroundTheRing os s ∧
      (returnedFrames os).map Prod.fst = List.range 16 ++ [0, 1] ∧
      (s.rdh, s.rdt, s.rxIndex) = (3, 1, 2) ∧ returnedFrames os <+: storedFrames os ∧
      ∃ s', rxStep s (.device [7]) = some (s', .stored 3 [7]) ∧
        ∀ x ∈ (storedFrames os).drop (returnedFrames os).length, x.1 ≠ s.rdh := by
  have hexec : ((exec rxStep (e1000RxInit fun _ _ => 0) aroundTheRing).bind fun r =>
      (rxStep r.1 (.device [7])).map fun t =>
        decide ((returnedFrames r.2).map Prod.fst = List.range 16 ++ [0, 1] ∧
          (r.1.rdh, r.1.rdt, r.1.rxIndex) = (3, 1, 2) ∧ t.2 = .stored 3 [7])) = some true := by
    decide +kernel
  obtain ⟨⟨s, os⟩, hr, hval⟩ := Option.bind_eq_some_iff.mp hexec
  obtain ⟨⟨s', o⟩, hnext, hval⟩ := Option.map_eq_some_iff.mp hval
  obtain ⟨hslots, hregisters, rfl⟩ := of_decide_eq_true hval
  have hrun := run_of_exec hr
  obtain ⟨-, -, hfree, hprefix⟩ := netRecv_exactly_once hrun
  exact ⟨os, s, hrun, hslots, hregisters, hprefix, s', hnext, (hfree [7] s' _ hnext).2⟩

end Earth
end EgosNet
