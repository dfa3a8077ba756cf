import EgosNet.Foundation.Fifo
import EgosNet.Foundation.Memory
import EgosNet.Earth.RxRing

/-!
# The transmit ring of the E1000 driver

`net_send` waits for the `DD` bit of slot `tx_index`, copies the frame into that
slot's buffer, fills in the descriptor field by field, and submits it by moving
`TDT`.  The device works through the slots from `TDH` up to, and not including,
`TDT`, and sets `DD` on each when it is done.

As in the receive ring, the two parties are interleaved freely and a driver step
is one statement: one test of the wait loop, one byte of the `memcpy`, one of the
seven volatile stores to the descriptor, the store to `TDT`, the update of
`tx_index`.

`TxOwns s p` is the ownership invariant, with `p` the frames submitted and not
yet transmitted.  Two things follow from it.

* The ring is the channel `fifo`: frames go out in the order they were passed to
  `net_send`, byte for byte, and `net_send` never touches a slot the device has
  not finished (`netSend_in_order`).  This holds at every fill level.
* `DD` lets the driver use all sixteen slots, but the registers can only tell
  fifteen frames from sixteen by calling sixteen none.  So the frames in the ring
  are the frames the device sees exactly as long as no send fills the last slot
  (`netSend_visible_iff`); one that does leaves sixteen frames the device will
  never look at, and the next call spins into `FATAL`.
-/

namespace EgosNet
namespace Earth

open Foundation

def E1000_TX_RING_SIZE : ℕ := 16
def E1000_TX_BUF_SIZE : ℕ := 2048
def E1000_TX_WAIT_SPINS : ℕ := 2 ^ 24
def E1000_TXD_STAT_DD : UInt8 := 1
def E1000_TXD_CMD_EOP : ℕ := 1
def E1000_TXD_CMD_IFCS : ℕ := 2
def E1000_TXD_CMD_RS : ℕ := 8

/-- A transmit descriptor.  `bufferAddr` is the index of the buffer whose address
the descriptor holds. -/
structure TxDesc where
  bufferAddr : ℕ
  length : ℕ
  cso : ℕ
  cmd : ℕ
  status : UInt8
  css : ℕ
  special : ℕ

/-- The descriptor fields `net_send` stores, in this order. -/
inductive TxField where
  | bufferAddr | length | cso | cmd | status | css | special
  deriving DecidableEq

/-- Where the driver is inside `net_send`, with its arguments and locals. -/
inductive TxPc where
  | idle
  | wait (frame : Frame) (spinCount : ℕ)
  | copy (frame : Frame) (k : ℕ)
  | store (field : TxField) (frame : Frame)
  | writeTail (frame : Frame)
  | advance (nextIndex : ℕ)
  | fatal (frame : Frame)
  deriving DecidableEq

/-- The descriptors, the buffers, the registers `TDH` and `TDT`, and the driver. -/
structure TxRing where
  ring : ℕ → TxDesc
  bufs : ℕ → Mem
  tdh : ℕ
  tdt : ℕ
  txIndex : ℕ
  pc : TxPc

/-- A caller enters `net_send` with a frame, the driver executes its next
statement, or the device transmits. -/
inductive TxInput where
  | call (frame : Frame)
  | driver
  | device
  deriving DecidableEq

/-- What a step did, with the slot it was done in. -/
inductive TxEvent where
  | called (frame : Frame)
  | submitted (slot : ℕ) (frame : Frame)
  | transmitted (slot : ℕ) (frame : Frame)
  | quiet
  deriving DecidableEq

/-- `e1000_tx_init`: every descriptor done and pointing at its own buffer, the ring
empty. -/
def e1000TxInit (bufs : ℕ → Mem) : TxRing where
  ring i :=
    { bufferAddr := i, length := 0, cso := 0, cmd := 0, status := E1000_TXD_STAT_DD, css := 0,
      special := 0 }
  bufs := bufs
  tdh := 0
  tdt := 0
  txIndex := 0
  pc := .idle

/-- The device: while `TDH ≠ TDT` it transmits the buffer of slot `TDH` with that
slot's length, sets the slot's `DD` bit and advances `TDH`. -/
def txDevice (s : TxRing) : Option (TxRing × TxEvent) :=
  if s.tdh ≠ s.tdt then
    let d := s.ring s.tdh
    let d' := { d with status := d.status ||| E1000_TXD_STAT_DD }
    some ({ s with
      ring := Function.update s.ring s.tdh d'
      tdh := (s.tdh + 1) % E1000_TX_RING_SIZE },
      .transmitted s.tdh ((s.bufs d.bufferAddr).load 0 d.length))
  else none

/-- One store to a descriptor field, and the statement that follows it. -/
def storeField (d : TxDesc) (txIndex : ℕ) (frame : Frame) : TxField → TxDesc × TxPc
  | .bufferAddr => ({ d with bufferAddr := txIndex }, .store .length frame)
  | .length => ({ d with length := frame.length }, .store .cso frame)
  | .cso => ({ d with cso := 0 }, .store .cmd frame)
  | .cmd =>
    ({ d with cmd := E1000_TXD_CMD_EOP ||| E1000_TXD_CMD_IFCS ||| E1000_TXD_CMD_RS },
      .store .status frame)
  | .status => ({ d with status := 0 }, .store .css frame)
  | .css => ({ d with css := 0 }, .store .special frame)
  | .special => ({ d with special := 0 }, .writeTail frame)

/-- The next statement of `net_send`.  `fatal` is where `FATAL` and a failed
`ASSERT` leave the driver. -/
def netSend (s : TxRing) : Option (TxRing × TxEvent) :=
  let d := s.ring s.txIndex
  match s.pc with
  | .idle => none
  | .wait frame spinCount =>
    if d.status &&& E1000_TXD_STAT_DD = 0 then
      if spinCount + 1 = E1000_TX_WAIT_SPINS then some ({ s with pc := .fatal frame }, .quiet)
      else some ({ s with pc := .wait frame (spinCount + 1) }, .quiet)
    else some ({ s with pc := .copy frame 0 }, .quiet)
  | .copy frame k =>
    match frame[k]? with
    | some byte =>
      some ({ s with
        bufs := Function.update s.bufs s.txIndex ((s.bufs s.txIndex).store k [byte])
        pc := .copy frame (k + 1) }, .quiet)
    | none => some ({ s with pc := .store .bufferAddr frame }, .quiet)
  | .store field frame =>
    let (d', pc) := storeField d s.txIndex frame field
    some ({ s with ring := Function.update s.ring s.txIndex d', pc := pc }, .quiet)
  | .writeTail frame =>
    let nextIndex := (s.txIndex + 1) % E1000_TX_RING_SIZE
    some ({ s with tdt := nextIndex, pc := .advance nextIndex }, .submitted s.txIndex frame)
  | .advance nextIndex => some ({ s with txIndex := nextIndex, pc := .idle }, .quiet)
  | .fatal _ => none

/-- Entering `net_send`, up to its two `ASSERT`s. -/
def netSendCall (s : TxRing) (frame : Frame) : Option (TxRing × TxEvent) :=
  if s.pc = .idle then
    if 0 < frame.length ∧ frame.length ≤ E1000_TX_BUF_SIZE then
      some ({ s with pc := .wait frame 0 }, .called frame)
    else some ({ s with pc := .fatal frame }, .called frame)
  else none

/-- A step of the caller, of the driver or of the device. -/
def txStep (s : TxRing) : TxInput → Option (TxRing × TxEvent)
  | .call frame => netSendCall s frame
  | .driver => netSend s
  | .device => txDevice s

/-! ## What the run has done so far -/

/-- The frames passed to `net_send`. -/
def calledFrames : List TxEvent → List Frame := List.filterMap fun
  | .called frame => some frame
  | _ => none

/-- The frames submitted to the device, each with its slot. -/
def submittedFrames : List TxEvent → List (ℕ × Frame) := List.filterMap fun
  | .submitted slot frame => some (slot, frame)
  | _ => none

/-- The frames the device transmitted, each with its slot. -/
def transmittedFrames : List TxEvent → List (ℕ × Frame) := List.filterMap fun
  | .transmitted slot frame => some (slot, frame)
  | _ => none

/-- A step as an operation on the channel the ring implements. -/
def txOp : TxEvent → FifoOp (ℕ × Frame)
  | .submitted slot frame => .put (slot, frame)
  | .transmitted slot frame => .get (slot, frame)
  | _ => .skip

theorem puts_map_txOp (os : List TxEvent) : puts (os.map txOp) = submittedFrames os := by
  rw [puts, submittedFrames, List.filterMap_map]
  congr 1
  funext o
  cases o <;> rfl

theorem gets_map_txOp (os : List TxEvent) : gets (os.map txOp) = transmittedFrames os := by
  rw [gets, transmittedFrames, List.filterMap_map]
  congr 1
  funext o
  cases o <;> rfl

/-! ## The invariant -/

/-- Slot `i` holds `frame`, submitted and not yet transmitted. -/
structure TxSlotHolds (s : TxRing) (i : ℕ) (frame : Frame) : Prop where
  status : (s.ring i).status = 0
  length : (s.ring i).length = frame.length
  data : (s.bufs i).load 0 frame.length = frame

theorem txSlotHolds_iff {s : TxRing} {i : ℕ} {frame : Frame} :
    TxSlotHolds s i frame ↔ (s.ring i).status = 0 ∧ (s.ring i).length = frame.length ∧
      (s.bufs i).load 0 frame.length = frame :=
  ⟨fun h => ⟨h.status, h.length, h.data⟩, fun h => ⟨h.1, h.2.1, h.2.2⟩⟩

/-- The descriptor's length is stored before this field is. -/
def TxField.LengthStored : TxField → Prop
  | .bufferAddr | .length => False
  | _ => True

/-- The descriptor's status is cleared before this field is stored. -/
def TxField.StatusStored : TxField → Prop
  | .css | .special => True
  | _ => False

/-- The descriptor being prepared has lost its `DD` bit and is not submitted yet. -/
def TxPc.Prepared : TxPc → Prop
  | .store field _ => field.StatusStored
  | .writeTail _ => True
  | _ => False

instance : DecidablePred TxField.StatusStored := fun
  | .css | .special => .isTrue trivial
  | .bufferAddr | .length | .cso | .cmd | .status => .isFalse id

instance : DecidablePred TxPc.Prepared := fun
  | .store field _ => inferInstanceAs (Decidable field.StatusStored)
  | .writeTail _ => .isTrue trivial
  | .idle | .wait _ _ | .copy _ _ | .advance _ | .fatal _ => .isFalse id

/-- The next slot to fill is the one at `TDT`, also while the new value of
`tx_index` is still in a register. -/
def IndexAtTail (s : TxRing) : Prop :=
  match s.pc with
  | .advance nextIndex => nextIndex = s.tdt
  | _ => s.txIndex = s.tdt

/-- What the driver's position says about the slot it is filling. -/
def TxAtPc (s : TxRing) (p : List (ℕ × Frame)) : Prop :=
  match s.pc with
  | .copy frame k => p.length < 16 ∧ k ≤ frame.length ∧
      (s.bufs s.txIndex).load 0 k = frame.take k
  | .store field frame => p.length < 16 ∧ (s.bufs s.txIndex).load 0 frame.length = frame ∧
      (field.LengthStored → (s.ring s.txIndex).length = frame.length) ∧
      (field.StatusStored → (s.ring s.txIndex).status = 0)
  | .writeTail frame => p.length < 16 ∧ TxSlotHolds s s.txIndex frame
  | _ => True

/-- **The ownership invariant.**  The frames `p`, oldest first, are in the slots
from `TDH` on with `DD` clear; `TDT` is the first slot after them, and it and all
slots up to `TDH` again have `DD` set, but for the one `net_send` is filling. -/
structure TxOwns (s : TxRing) (p : List (ℕ × Frame)) : Prop where
  tdh_lt : s.tdh < 16
  addr : ∀ i, (s.ring i).bufferAddr = i
  tail : s.tdt = (s.tdh + p.length) % 16
  index : IndexAtTail s
  bound : p.length ≤ 16
  slot : ∀ k x, p[k]? = some x → x.1 = (s.tdh + k) % 16
  full : ∀ k x, p[k]? = some x → TxSlotHolds s ((s.tdh + k) % 16) x.2
  free : ∀ k, p.length ≤ k → k < 16 → (k = p.length → ¬ s.pc.Prepared) →
    (s.ring ((s.tdh + k) % 16)).status = 1
  atPc : TxAtPc s p

theorem txOwns_init (bufs : ℕ → Mem) : TxOwns (e1000TxInit bufs) [] where
  tdh_lt := Nat.zero_lt_succ 15
  addr _ := rfl
  tail := rfl
  index := rfl
  bound := Nat.zero_le _
  slot := by simp
  full := by simp
  free _ _ _ _ := rfl
  atPc := trivial

/-- The slot being filled is none of the slots of submitted frames. -/
theorem TxOwns.filling_ne {s : TxRing} {p : List (ℕ × Frame)} (h : TxOwns s p)
    (hidx : s.txIndex = s.tdt) (hroom : p.length < 16) {k : ℕ} (hk : k < p.length) :
    (s.tdh + k) % 16 ≠ s.txIndex := by
  rw [hidx, h.tail]
  omega

/-- **The device transmits the oldest frame**, byte for byte, and its slot becomes
the last free one. -/
theorem TxOwns.device {s s' : TxRing} {p : List (ℕ × Frame)} {o : TxEvent} (h : TxOwns s p)
    (hs : txDevice s = some (s', o)) :
    ∃ x p', p = x :: p' ∧ o = .transmitted x.1 x.2 ∧ TxOwns s' p' ∧ s'.pc = s.pc := by
  unfold txDevice at hs
  split at hs
  next hne =>
    have htdh := h.tdh_lt
    have htail := h.tail
    have hbound := h.bound
    obtain ⟨x, p', rfl⟩ : ∃ x p', p = x :: p' := by
      cases p with
      | nil => exact absurd (by rw [htail]; simp [Nat.mod_eq_of_lt htdh]) hne
      | cons x p' => exact ⟨x, p', rfl⟩
    have hself : (s.tdh + 0) % 16 = s.tdh := by omega
    have hfull := h.full 0 x rfl
    have hslot := h.slot 0 x rfl
    rw [hself] at hfull hslot
    simp only [h.addr, hfull.length, hfull.data, Option.some.injEq, Prod.mk.injEq] at hs
    obtain ⟨rfl, rfl⟩ := hs
    rw [List.length_cons] at htail hbound
    -- `TDH` and `TDT` differ, so at least one slot is free
    have hroom : p'.length + 1 < 16 := by
      rcases Nat.lt_or_ge (p'.length + 1) 16 with hlt | hge
      · exact hlt
      · exact absurd (by rw [htail]; omega) hne
    have hother : ∀ k, 0 < k → k < 16 → (s.tdh + k) % 16 ≠ s.tdh := by omega
    have hshift : ∀ k, ((s.tdh + 1) % 16 + k) % 16 = (s.tdh + (k + 1)) % 16 := by omega
    have htdt : s.tdt ≠ s.tdh := hne.symm
    refine ⟨x, p', rfl, by rw [hslot], ?_, rfl⟩
    constructor
    case tdh_lt => exact Nat.mod_lt _ (by decide)
    case addr =>
      intro i
      by_cases hi : i = s.tdh
      · subst hi
        simp
      · simp [hi, h.addr]
    case tail => simp only [E1000_TX_RING_SIZE]; omega
    case index => exact h.index
    case bound => omega
    case slot =>
      intro k y hy
      simp only [E1000_TX_RING_SIZE, hshift]
      exact h.slot (k + 1) y (by simpa using hy)
    case full =>
      intro k y hy
      have hk : k < p'.length := (List.getElem?_eq_some_iff.mp hy).1
      have hold := h.full (k + 1) y (by simpa using hy)
      simp only [E1000_TX_RING_SIZE, hshift]
      have hne' := hother (k + 1) (by omega) (by omega)
      exact ⟨by simp [hne', hold.status], by simp [hne', hold.length], hold.data⟩
    case free =>
      intro k hk hk16 hprep
      simp only [E1000_TX_RING_SIZE, hshift]
      rcases Nat.lt_or_ge (k + 1) 16 with hlt | hge
      · simp only [Function.update_of_ne (hother (k + 1) (by omega) hlt)]
        refine h.free (k + 1) (by simpa using hk) hlt fun hk' => hprep ?_
        rw [List.length_cons] at hk'
        omega
      · -- the slot just transmitted, now the last one before `TDH`
        have hlast : (s.tdh + (k + 1)) % 16 = s.tdh := by omega
        simp only [hlast, Function.update_self, hfull.status]
        rfl
    case atPc =>
      have hat := h.atPc
      have hindex := h.index
      unfold TxAtPc IndexAtTail at *
      cases hpc : s.pc with
      | copy frame k =>
        simp only [hpc, List.length_cons] at hat ⊢
        exact ⟨by omega, hat.2⟩
      | store field frame =>
        simp only [hpc, List.length_cons] at hat hindex ⊢
        have hne' : s.txIndex ≠ s.tdh := by rwa [hindex]
        obtain ⟨-, hdata, hlen, hst⟩ := hat
        exact ⟨by omega, hdata, by simpa [hne'] using hlen, by simpa [hne'] using hst⟩
      | writeTail frame =>
        simp only [hpc, List.length_cons] at hat hindex ⊢
        have hne' : s.txIndex ≠ s.tdh := by rwa [hindex]
        obtain ⟨-, hold⟩ := hat
        exact ⟨by omega, by simp [hne', hold.status], by simp [hne', hold.length], hold.data⟩
      | idle => trivial
      | wait frame n => trivial
      | advance n => trivial
      | fatal frame => trivial
  next => exact absurd hs (by simp)

/-! ## The driver keeps it -/

/-- A statement that only moves the driver on, and not past the store to `status`. -/
theorem TxOwns.withPc {s : TxRing} {p : List (ℕ × Frame)} (h : TxOwns s p) (pc : TxPc)
    (hindex : IndexAtTail { s with pc := pc }) (hprep : s.pc.Prepared → pc.Prepared)
    (hat : TxAtPc { s with pc := pc } p) : TxOwns { s with pc := pc } p where
  tdh_lt := h.tdh_lt
  addr := h.addr
  tail := h.tail
  index := hindex
  bound := h.bound
  slot := h.slot
  full k x hx := by
    have hold := h.full k x hx
    exact ⟨hold.status, hold.length, hold.data⟩
  free k hk hk16 hp := h.free k hk hk16 fun hk' hpre => hp hk' (hprep hpre)
  atPc := hat

/-- A byte stored to the buffer of the slot being filled. -/
theorem TxOwns.withBuf {s : TxRing} {p : List (ℕ × Frame)} (h : TxOwns s p) {m : Mem}
    {pc : TxPc} (hidx : s.txIndex = s.tdt) (hroom : p.length < 16)
    (hindex : IndexAtTail { s with pc := pc }) (hprep : s.pc.Prepared → pc.Prepared)
    (hat : TxAtPc { s with bufs := Function.update s.bufs s.txIndex m, pc := pc } p) :
    TxOwns { s with bufs := Function.update s.bufs s.txIndex m, pc := pc } p where
  tdh_lt := h.tdh_lt
  addr := h.addr
  tail := h.tail
  index := hindex
  bound := h.bound
  slot := h.slot
  full k x hx := by
    have hold := h.full k x hx
    have hne := h.filling_ne hidx hroom (List.getElem?_eq_some_iff.mp hx).1
    exact ⟨hold.status, hold.length, by simp [hne, hold.data]⟩
  free k hk hk16 hp := h.free k hk hk16 fun hk' hpre => hp hk' (hprep hpre)
  atPc := hat

/-- A store to the descriptor of the slot being filled. -/
theorem TxOwns.withDesc {s : TxRing} {p : List (ℕ × Frame)} (h : TxOwns s p) {d : TxDesc}
    {pc : TxPc} (hidx : s.txIndex = s.tdt) (hroom : p.length < 16)
    (hd : d.bufferAddr = s.txIndex) (hindex : IndexAtTail { s with pc := pc })
    (hprep : ¬ pc.Prepared → ¬ s.pc.Prepared ∧ d.status = (s.ring s.txIndex).status)
    (hat : TxAtPc { s with ring := Function.update s.ring s.txIndex d, pc := pc } p) :
    TxOwns { s with ring := Function.update s.ring s.txIndex d, pc := pc } p := by
  constructor
  case tdh_lt => exact h.tdh_lt
  case addr =>
    intro i
    by_cases hi : i = s.txIndex
    · subst hi
      simp [hd]
    · simp [hi, h.addr]
  case tail => exact h.tail
  case index => exact hindex
  case bound => exact h.bound
  case slot => exact h.slot
  case full =>
    intro k x hx
    have hold := h.full k x hx
    have hne := h.filling_ne hidx hroom (List.getElem?_eq_some_iff.mp hx).1
    exact ⟨by simp [hne, hold.status], by simp [hne, hold.length], hold.data⟩
  case free =>
    intro k hk hk16 hp
    have htail := h.tail
    by_cases hk' : k = p.length
    · subst hk'
      obtain ⟨hpre, hst⟩ := hprep (hp rfl)
      have hfree := h.free p.length hk hk16 fun _ => hpre
      rw [← htail, ← hidx] at hfree ⊢
      simp only [Function.update_self]
      rw [hst, hfree]
    · have hne : (s.tdh + k) % 16 ≠ s.txIndex := by rw [hidx, htail]; omega
      simp only [Function.update_of_ne hne]
      exact h.free k hk hk16 fun hk'' => absurd hk'' hk'
  case atPc => exact hat

/-- The store to `TDT` submits the frame. -/
theorem TxOwns.writeTail {s : TxRing} {p : List (ℕ × Frame)} {frame : Frame} (h : TxOwns s p)
    (hpc : s.pc = .writeTail frame) :
    TxOwns { s with
      tdt := (s.txIndex + 1) % E1000_TX_RING_SIZE
      pc := .advance ((s.txIndex + 1) % E1000_TX_RING_SIZE) } (p ++ [(s.txIndex, frame)]) := by
  have hat := h.atPc
  have hindex := h.index
  have htail := h.tail
  simp only [TxAtPc, IndexAtTail, hpc] at hat hindex
  obtain ⟨hroom, hhere⟩ := hat
  rw [hindex, htail] at hhere ⊢
  constructor
  case tdh_lt => exact h.tdh_lt
  case addr => exact h.addr
  case tail => simp only [E1000_TX_RING_SIZE, List.length_append, List.length_singleton]; omega
  case index => rfl
  case bound => simp only [List.length_append, List.length_singleton]; omega
  case slot =>
    intro k x hx
    rcases getElem?_put hx with ⟨-, hx⟩ | ⟨rfl, rfl⟩
    · exact h.slot k x hx
    · rfl
  case full =>
    intro k x hx
    rcases getElem?_put hx with ⟨-, hx⟩ | ⟨rfl, rfl⟩
    · have hold := h.full k x hx
      exact ⟨hold.status, hold.length, hold.data⟩
    · exact ⟨hhere.status, hhere.length, hhere.data⟩
  case free =>
    intro k hk hk16 _
    simp only [List.length_append, List.length_singleton] at hk
    exact h.free k (by omega) hk16 fun hk' => absurd hk' (by omega)
  case atPc => trivial

/-- The increment of `tx_index`. -/
theorem TxOwns.advance {s : TxRing} {p : List (ℕ × Frame)} {nextIndex : ℕ} (h : TxOwns s p)
    (hpc : s.pc = .advance nextIndex) : TxOwns { s with txIndex := nextIndex, pc := .idle } p where
  tdh_lt := h.tdh_lt
  addr := h.addr
  tail := h.tail
  index := by
    have hindex := h.index
    simp only [IndexAtTail, hpc] at hindex
    exact hindex
  bound := h.bound
  slot := h.slot
  full k x hx := by
    have hold := h.full k x hx
    exact ⟨hold.status, hold.length, hold.data⟩
  free k hk hk16 _ := h.free k hk hk16 (by simp [hpc, TxPc.Prepared])
  atPc := trivial

/-- The frame `net_send` has been given and has not submitted. -/
def TxPc.current : TxPc → List Frame
  | .idle | .advance _ => []
  | .wait frame _ | .copy frame _ | .store _ frame | .writeTail frame | .fatal frame => [frame]

/-- Waiting for `DD` ends only at a slot that holds no frame. -/
theorem TxOwns.room_of_dd {s : TxRing} {p : List (ℕ × Frame)} (h : TxOwns s p)
    (hidx : s.txIndex = s.tdt) (hdd : (s.ring s.txIndex).status &&& E1000_TXD_STAT_DD ≠ 0) :
    p.length < 16 := by
  rcases Nat.lt_or_ge p.length 16 with hlt | hge
  · exact hlt
  · have hbound := h.bound
    have htail := h.tail
    have htdh := h.tdh_lt
    obtain ⟨x, p', rfl⟩ := List.exists_cons_of_length_pos (show 0 < p.length by omega)
    have hfull := h.full 0 x rfl
    have hself : (s.tdh + 0) % 16 = s.txIndex := by rw [hidx, htail]; omega
    rw [hself] at hfull
    exact absurd (by rw [hfull.status]; rfl) hdd

/-- **Every statement of `net_send` keeps the invariant**, and the only one that
changes what the ring holds is the store to `TDT`. -/
theorem TxOwns.netSend_step {s s' : TxRing} {p : List (ℕ × Frame)} {o : TxEvent} (h : TxOwns s p)
    (hs : netSend s = some (s', o)) :
    (o = .quiet ∧ TxOwns s' p ∧ s'.pc.current = s.pc.current ∧ ∀ frame, s.pc ≠ .writeTail frame) ∨
      ∃ frame, s.pc = .writeTail frame ∧ o = .submitted s.txIndex frame ∧
        TxOwns s' (p ++ [(s.txIndex, frame)]) ∧ s'.pc.current = [] := by
  have hindex := h.index
  have hat := h.atPc
  unfold netSend at hs
  cases hpc : s.pc with
  | idle => simp [hpc] at hs
  | wait frame n =>
    simp only [hpc, IndexAtTail] at hs hindex
    split at hs
    next hdd =>
      split at hs
      next =>
        obtain ⟨rfl, rfl⟩ := Prod.mk.inj (Option.some.inj hs)
        exact Or.inl ⟨rfl, h.withPc _ hindex (by rw [hpc]; exact id) trivial, rfl, by simp⟩
      next =>
        obtain ⟨rfl, rfl⟩ := Prod.mk.inj (Option.some.inj hs)
        exact Or.inl ⟨rfl, h.withPc _ hindex (by rw [hpc]; exact id) trivial, rfl, by simp⟩
    next hdd =>
      obtain ⟨rfl, rfl⟩ := Prod.mk.inj (Option.some.inj hs)
      have hroom := h.room_of_dd hindex hdd
      refine Or.inl ⟨rfl, h.withPc _ hindex (by rw [hpc]; exact id) ?_, rfl, by simp⟩
      exact ⟨hroom, Nat.zero_le _, by simp⟩
  | copy frame k =>
    simp only [hpc, IndexAtTail, TxAtPc] at hs hindex hat
    obtain ⟨hroom, hk, hload⟩ := hat
    split at hs
    next byte hbyte =>
      obtain ⟨rfl, rfl⟩ := Prod.mk.inj (Option.some.inj hs)
      obtain ⟨hlt, rfl⟩ := List.getElem?_eq_some_iff.mp hbyte
      refine Or.inl ⟨rfl, h.withBuf hindex hroom hindex (by rw [hpc]; exact id) ?_, rfl, by simp⟩
      have hnext := Mem.load_store_next hload hlt
      rw [Nat.zero_add] at hnext
      exact ⟨hroom, hlt, by simpa only [Function.update_self] using hnext⟩
    next hnone =>
      obtain ⟨rfl, rfl⟩ := Prod.mk.inj (Option.some.inj hs)
      have hge : frame.length ≤ k := List.getElem?_eq_none_iff.mp hnone
      obtain rfl : k = frame.length := by omega
      refine Or.inl ⟨rfl, h.withPc _ hindex (by rw [hpc]; exact False.elim) ?_, rfl, by simp⟩
      exact ⟨hroom, by rw [hload, List.take_length], False.elim, False.elim⟩
  | store field frame =>
    simp only [hpc, IndexAtTail, TxAtPc] at hs hindex hat
    obtain ⟨hroom, hload, hlen, hst⟩ := hat
    obtain ⟨rfl, rfl⟩ := Prod.mk.inj (Option.some.inj hs)
    refine Or.inl ⟨rfl, h.withDesc hindex hroom ?_ ?_ ?_ ?_, ?_, by simp⟩
    · cases field <;> first | exact h.addr _ | rfl
    · cases field <;> exact hindex
    · cases field <;> simp [storeField, TxPc.Prepared, TxField.StatusStored, hpc]
    · cases field <;>
        simp_all [storeField, TxAtPc, TxField.LengthStored, TxField.StatusStored,
          txSlotHolds_iff]
    · cases field <;> rfl
  | writeTail frame =>
    simp only [hpc] at hs
    obtain ⟨rfl, rfl⟩ := Prod.mk.inj (Option.some.inj hs)
    exact Or.inr ⟨frame, rfl, rfl, h.writeTail hpc, rfl⟩
  | advance nextIndex =>
    simp only [hpc] at hs
    obtain ⟨rfl, rfl⟩ := Prod.mk.inj (Option.some.inj hs)
    exact Or.inl ⟨rfl, h.advance hpc, rfl, by simp⟩
  | fatal frame => simp [hpc] at hs

/-- Entering `net_send` only moves the driver. -/
theorem TxOwns.netSendCall_step {s s' : TxRing} {p : List (ℕ × Frame)} {frame : Frame} {o : TxEvent}
    (h : TxOwns s p) (hs : netSendCall s frame = some (s', o)) :
    o = .called frame ∧ TxOwns s' p ∧ s.pc = .idle ∧ s'.pc.current = [frame] := by
  have hindex := h.index
  unfold netSendCall at hs
  split at hs
  next hidle =>
    simp only [IndexAtTail, hidle] at hindex
    split at hs
    next =>
      obtain ⟨rfl, rfl⟩ := Prod.mk.inj (Option.some.inj hs)
      exact ⟨rfl, h.withPc _ hindex (by rw [hidle]; exact id) trivial, hidle, rfl⟩
    next =>
      obtain ⟨rfl, rfl⟩ := Prod.mk.inj (Option.some.inj hs)
      exact ⟨rfl, h.withPc _ hindex (by rw [hidle]; exact id) trivial, hidle, rfl⟩
  next => exact absurd hs (by simp)

/-- **`net_send` never writes a slot the device has not finished.** -/
theorem TxOwns.untouched {s s' : TxRing} {p : List (ℕ × Frame)} {o : TxEvent} (h : TxOwns s p)
    (hs : netSend s = some (s', o)) :
    ∀ x ∈ p, s'.ring x.1 = s.ring x.1 ∧ s'.bufs x.1 = s.bufs x.1 := by
  intro x hx
  obtain ⟨k, hk, rfl⟩ := List.getElem_of_mem hx
  have hslot := h.slot k _ (List.getElem?_eq_getElem hk)
  have hindex := h.index
  have hat := h.atPc
  unfold netSend at hs
  cases hpc : s.pc with
  | idle => simp [hpc] at hs
  | wait frame n =>
    simp only [hpc] at hs
    split at hs
    · split at hs <;> obtain ⟨rfl, rfl⟩ := Prod.mk.inj (Option.some.inj hs) <;> exact ⟨rfl, rfl⟩
    · obtain ⟨rfl, rfl⟩ := Prod.mk.inj (Option.some.inj hs)
      exact ⟨rfl, rfl⟩
  | copy frame n =>
    simp only [hpc, IndexAtTail, TxAtPc] at hs hindex hat
    have hne := h.filling_ne hindex hat.1 hk
    rw [← hslot] at hne
    split at hs
    · obtain ⟨rfl, rfl⟩ := Prod.mk.inj (Option.some.inj hs)
      exact ⟨rfl, by simp [hne]⟩
    · obtain ⟨rfl, rfl⟩ := Prod.mk.inj (Option.some.inj hs)
      exact ⟨rfl, rfl⟩
  | store field frame =>
    simp only [hpc, IndexAtTail, TxAtPc] at hs hindex hat
    have hne := h.filling_ne hindex hat.1 hk
    rw [← hslot] at hne
    obtain ⟨rfl, rfl⟩ := Prod.mk.inj (Option.some.inj hs)
    exact ⟨by simp [hne], rfl⟩
  | writeTail frame =>
    simp only [hpc] at hs
    obtain ⟨rfl, rfl⟩ := Prod.mk.inj (Option.some.inj hs)
    exact ⟨rfl, rfl⟩
  | advance n =>
    simp only [hpc] at hs
    obtain ⟨rfl, rfl⟩ := Prod.mk.inj (Option.some.inj hs)
    exact ⟨rfl, rfl⟩
  | fatal frame => simp [hpc] at hs

/-! ## In order and unaltered -/

/-- The ring simulates `fifo`. -/
theorem txOwns_simulates (s : TxRing) (p : List (ℕ × Frame)) (i : TxInput) (s' : TxRing)
    (o : TxEvent) (h : TxOwns s p) (_ : Free s i) (hs : txStep s i = some (s', o)) :
    ∃ p', fifo p (txOp o) = some (p', ()) ∧ TxOwns s' p' := by
  cases i with
  | call frame =>
    obtain ⟨rfl, hown, -, -⟩ := h.netSendCall_step hs
    exact ⟨p, rfl, hown⟩
  | driver =>
    rcases h.netSend_step hs with ⟨rfl, hown, -, -⟩ | ⟨frame, -, rfl, hown, -⟩
    · exact ⟨p, rfl, hown⟩
    · exact ⟨_, rfl, hown⟩
  | device =>
    obtain ⟨x, p', rfl, rfl, hown, -⟩ := h.device hs
    exact ⟨p', by simp [fifo, txOp], hown⟩

section Runs

variable {bufs : ℕ → Mem} {is : List TxInput} {os : List TxEvent} {s : TxRing}

/-- In every reachable state the ring owns exactly the frames submitted and not
yet transmitted. -/
theorem txOwns_of_run (h : Run txStep Free (e1000TxInit bufs) is os s) :
    ∃ p, TxOwns s p ∧ transmittedFrames os ++ p = submittedFrames os := by
  obtain ⟨p, us, hfifo, hown⟩ := h.simulate (txOwns_init bufs) txOwns_simulates
  refine ⟨p, hown, ?_⟩
  rw [← gets_map_txOp, ← puts_map_txOp]
  exact hfifo.gets_append

/-- The frames passed to `net_send` are those submitted and the one it is working
on. -/
theorem calledFrames_of_run (h : Run txStep Free (e1000TxInit bufs) is os s) :
    calledFrames os = (submittedFrames os).map Prod.snd ++ s.pc.current := by
  refine (h.invariant (P := fun os s => (∃ p, TxOwns s p) ∧
    calledFrames os = (submittedFrames os).map Prod.snd ++ s.pc.current)
    ?_ ⟨⟨[], txOwns_init bufs⟩, rfl⟩).2
  rintro os s i s' o ⟨⟨p, hown⟩, hcalled⟩ hfree hs
  obtain ⟨p', -, hown'⟩ := txOwns_simulates s p i s' o hown hfree hs
  refine ⟨⟨p', hown'⟩, ?_⟩
  cases i with
  | call frame =>
    obtain ⟨rfl, -, hidle, hcur⟩ := hown.netSendCall_step hs
    have hnone : s.pc.current = [] := by rw [hidle]; rfl
    rw [hnone] at hcalled
    rw [hcur]
    simpa [calledFrames, submittedFrames] using hcalled
  | driver =>
    rcases hown.netSend_step hs with ⟨rfl, -, hcur, -⟩ | ⟨frame, hpc, rfl, -, hcur⟩
    · simpa [calledFrames, submittedFrames, hcur] using hcalled
    · have hframe : s.pc.current = [frame] := by rw [hpc]; rfl
      rw [hframe] at hcalled
      rw [hcur]
      simpa [calledFrames, submittedFrames] using hcalled
  | device =>
    obtain ⟨x, p'', -, rfl, -, hpc⟩ := hown.device hs
    simpa [calledFrames, submittedFrames, hpc] using hcalled

/-- **In order and unaltered.**  In every state reached by any interleaving of
device steps with the statements of `net_send` calls: between calls
`TDT = tx_index`; the next statement of `net_send` leaves the descriptor and the
buffer of every frame submitted and not yet transmitted as they are; and the
frames the device has transmitted are, byte for byte, the first of the frames
passed to `net_send`, all of which have been submitted but for the one a call is working on. -/
theorem netSend_in_order (h : Run txStep Free (e1000TxInit bufs) is os s) :
    (s.pc = .idle → s.tdt = s.txIndex) ∧
    (∀ s' o, txStep s .driver = some (s', o) →
      ∀ x ∈ (submittedFrames os).drop (transmittedFrames os).length,
        s'.ring x.1 = s.ring x.1 ∧ s'.bufs x.1 = s.bufs x.1) ∧
    (transmittedFrames os).map Prod.snd <+: calledFrames os ∧
    calledFrames os = (submittedFrames os).map Prod.snd ++ s.pc.current := by
  obtain ⟨p, hown, hp⟩ := txOwns_of_run h
  refine ⟨fun hpc => ?_, fun s' o hs x hx => ?_, ?_, calledFrames_of_run h⟩
  · have hindex := hown.index
    simp only [IndexAtTail, hpc] at hindex
    exact hindex.symm
  · rw [← hp, List.drop_left] at hx
    exact hown.untouched hs x hx
  · rw [calledFrames_of_run h, ← hp, List.map_append, List.append_assoc]
    exact List.prefix_append _ _

/-- Calls of `net_send` with these one-byte frames, at a slot that is done. -/
def sends (bytes : List UInt8) : List TxInput :=
  bytes.flatMap fun byte => .call [byte] :: List.replicate 12 .driver

/-- Fifteen frames are sent, the device transmits three of them, three more are sent, the device
transmits another two, and a call begins to copy the next frame. -/
def aroundTxRing : List TxInput :=
  sends [1, 2, 3, 4, 5, 6, 7, 8, 9, 10, 11, 12, 13, 14, 15] ++ List.replicate 3 .device ++
    sends [16, 17, 18] ++ List.replicate 2 .device ++ [.call [19], .driver]

/-- `tx_index` has gone round the ring; five frames have left, in order, thirteen wait in their
slots, and the next statement touches none of them. -/
theorem netSend_in_order_aroundTxRing :
    ∃ os s, Run txStep Free (e1000TxInit fun _ _ => 0) aroundTxRing os s ∧
      (transmittedFrames os).map Prod.snd = [[1], [2], [3], [4], [5]] ∧
      (submittedFrames os).length = 18 ∧ (s.tdh, s.tdt, s.txIndex) = (5, 2, 2) ∧
      (transmittedFrames os).map Prod.snd <+: calledFrames os ∧
      calledFrames os = (submittedFrames os).map Prod.snd ++ [[19]] ∧
      ∃ s', txStep s .driver = some (s', .quiet) ∧ s'.bufs 2 0 = 19 ∧
        ∀ x ∈ (submittedFrames os).drop 5,
          s'.ring x.1 = s.ring x.1 ∧ s'.bufs x.1 = s.bufs x.1 := by
  have hexec : ((exec txStep (e1000TxInit fun _ _ => 0) aroundTxRing).bind fun r =>
      (txStep r.1 .driver).map fun t =>
        decide ((transmittedFrames r.2).map Prod.snd = [[1], [2], [3], [4], [5]] ∧
          (submittedFrames r.2).length = 18 ∧ (r.1.tdh, r.1.tdt, r.1.txIndex) = (5, 2, 2) ∧
          r.1.pc.current = [[19]] ∧ t.2 = .quiet ∧ t.1.bufs 2 0 = 19)) = some true := by
    decide +kernel
  obtain ⟨⟨s, os⟩, hr, hval⟩ := Option.bind_eq_some_iff.mp hexec
  obtain ⟨⟨s', o⟩, hnext, hval⟩ := Option.map_eq_some_iff.mp hval
  obtain ⟨hsent, hsubmitted, hregisters, hcurrent, rfl, hbyte⟩ := of_decide_eq_true hval
  have hrun := run_of_exec hr
  obtain ⟨-, huntouched, hprefix, hcalled⟩ := netSend_in_order hrun
  have hfive : (transmittedFrames os).length = 5 := by
    rw [← List.length_map (f := Prod.snd), hsent]
    rfl
  rw [hcurrent] at hcalled
  refine ⟨os, s, hrun, hsent, hsubmitted, hregisters, hprefix, hcalled, s', hnext, hbyte, ?_⟩
  rw [← hfive]
  exact huntouched s' _ hnext

end Runs

/-! ## What the device can see -/

/-- The submitted descriptors whose `DD` bit is clear.  A descriptor between its
`status` store and the store to `TDT` is not submitted yet. -/
def pendingSlots (s : TxRing) : Finset ℕ :=
  (Finset.range E1000_TX_RING_SIZE).filter fun i =>
    (s.ring i).status &&& E1000_TXD_STAT_DD = 0 ∧ (i = s.txIndex → ¬ s.pc.Prepared)

/-- The pending slots are the slots of the frames the ring owns. -/
theorem TxOwns.pendingSlots_eq {s : TxRing} {p : List (ℕ × Frame)} (h : TxOwns s p) :
    pendingSlots s = ringSlots 16 s.tdh p.length := by
  have htdh := h.tdh_lt
  have hbound := h.bound
  ext i
  rw [mem_ringSlots, pendingSlots, Finset.mem_filter, Finset.mem_range, E1000_TX_RING_SIZE]
  constructor
  · rintro ⟨hi, hdd, hprep⟩
    -- the position of slot `i` in the ring, counted from `TDH`
    have hpos : (s.tdh + (i + 16 - s.tdh) % 16) % 16 = i := by omega
    refine ⟨(i + 16 - s.tdh) % 16, ?_, hpos⟩
    by_contra hge
    have hfree := h.free ((i + 16 - s.tdh) % 16) (by omega) (by omega) fun hlast => by
      have hat : i = s.tdt := by rw [h.tail, ← hlast, hpos]
      have hindex := h.index
      unfold IndexAtTail at hindex
      cases hpc : s.pc with
      | advance n => simp [TxPc.Prepared]
      | idle => simp [TxPc.Prepared]
      | wait frame n => simp [TxPc.Prepared]
      | copy frame n => simp [TxPc.Prepared]
      | fatal frame => simp [TxPc.Prepared]
      | store field frame =>
        simp only [hpc] at hindex hprep
        exact hprep (by rw [hat, hindex])
      | writeTail frame =>
        simp only [hpc] at hindex hprep
        exact hprep (by rw [hat, hindex])
    rw [hpos] at hfree
    rw [hfree] at hdd
    exact absurd hdd (by decide)
  · rintro ⟨k, hk, rfl⟩
    have hfull := h.full k p[k] (List.getElem?_eq_getElem hk)
    refine ⟨Nat.mod_lt _ (by decide), by rw [hfull.status]; rfl, fun hidx hprep => ?_⟩
    have hat := h.atPc
    have hindex := h.index
    unfold IndexAtTail at hindex
    unfold TxAtPc at hat
    cases hpc : s.pc with
    | store field frame =>
      simp only [hpc] at hindex hat
      exact h.filling_ne hindex hat.1 hk hidx
    | writeTail frame =>
      simp only [hpc] at hindex hat
      exact h.filling_ne hindex hat.1 hk hidx
    | idle => simp [hpc, TxPc.Prepared] at hprep
    | wait frame n => simp [hpc, TxPc.Prepared] at hprep
    | copy frame n => simp [hpc, TxPc.Prepared] at hprep
    | advance n => simp [hpc, TxPc.Prepared] at hprep
    | fatal frame => simp [hpc, TxPc.Prepared] at hprep

/-- The device sees every frame in the ring: the number of submitted descriptors
with a clear `DD` bit is the distance from `TDH` to `TDT`; so there is work for
the device whenever there is one, and `net_send` never waits at a slot while the
device has none. -/
def NoInvisibleFrame (s : TxRing) : Prop :=
  (pendingSlots s).card = (s.tdt + E1000_TX_RING_SIZE - s.tdh) % E1000_TX_RING_SIZE ∧
  ((pendingSlots s).Nonempty → s.tdh ≠ s.tdt) ∧
  ∀ frame n, s.pc = .wait frame n →
    (s.ring s.txIndex).status &&& E1000_TXD_STAT_DD = 0 → s.tdh ≠ s.tdt

/-- Everything in the ring is visible exactly if the ring is not full. -/
theorem TxOwns.noInvisibleFrame_iff {s : TxRing} {p : List (ℕ × Frame)} (h : TxOwns s p) :
    NoInvisibleFrame s ↔ p.length < 16 := by
  have htdh := h.tdh_lt
  have hbound := h.bound
  have htail := h.tail
  have hcard : (pendingSlots s).card = p.length := by
    rw [h.pendingSlots_eq, card_ringSlots hbound]
  have hdist : (s.tdt + 16 - s.tdh) % 16 = p.length % 16 := by
    rw [htail]
    exact ring_distance htdh
  rw [NoInvisibleFrame, hcard, E1000_TX_RING_SIZE, hdist]
  constructor
  · rintro ⟨hlen, -, -⟩
    have := Nat.mod_lt p.length (show 0 < 16 by decide)
    omega
  · intro hlt
    refine ⟨(Nat.mod_eq_of_lt hlt).symm, fun hne => ?_, fun frame n hpc hdd => ?_⟩
    · rw [← Finset.card_pos, hcard] at hne
      rw [htail]
      omega
    · -- with room in the ring the slot at `TDT` is free, so `net_send` does not wait
      have hindex := h.index
      simp only [IndexAtTail, hpc] at hindex
      have hfree := h.free p.length le_rfl hlt (by simp [hpc, TxPc.Prepared])
      rw [← htail, ← hindex] at hfree
      rw [hfree] at hdd
      exact absurd hdd (by decide)

/-- The step does not submit a frame into the last free slot. -/
def LeavesGap (s : TxRing) (i : TxInput) : Prop :=
  i = .driver → ∀ frame, s.pc = .writeTail frame →
    (s.txIndex + 1) % E1000_TX_RING_SIZE ≠ s.tdh

/-- A step keeps every frame visible exactly when it leaves a gap. -/
theorem noInvisibleFrame_step {s s' : TxRing} {i : TxInput} {o : TxEvent}
    {p : List (ℕ × Frame)} (h : TxOwns s p) (hvis : NoInvisibleFrame s)
    (hs : txStep s i = some (s', o)) : NoInvisibleFrame s' ↔ LeavesGap s i := by
  rw [h.noInvisibleFrame_iff] at hvis
  cases i with
  | call frame =>
    obtain ⟨-, hown, -, -⟩ := h.netSendCall_step hs
    exact ⟨fun _ hi => absurd hi (by simp), fun _ => hown.noInvisibleFrame_iff.mpr hvis⟩
  | device =>
    obtain ⟨x, p', rfl, -, hown, -⟩ := h.device hs
    rw [List.length_cons] at hvis
    exact ⟨fun _ hi => absurd hi (by simp),
      fun _ => hown.noInvisibleFrame_iff.mpr (by omega)⟩
  | driver =>
    rcases h.netSend_step hs with ⟨-, hown, -, hpc⟩ | ⟨frame, hpc, -, hown, -⟩
    · exact ⟨fun _ _ frame hp => absurd hp (hpc frame),
        fun _ => hown.noInvisibleFrame_iff.mpr hvis⟩
    · have hindex := h.index
      have htail := h.tail
      have htdh := h.tdh_lt
      simp only [IndexAtTail, hpc] at hindex
      rw [hown.noInvisibleFrame_iff, List.length_append, List.length_singleton]
      have hgap : LeavesGap s .driver ↔ (s.txIndex + 1) % 16 ≠ s.tdh := by
        simp [LeavesGap, hpc, E1000_TX_RING_SIZE]
      rw [hgap, hindex, htail]
      omega

/-- **No invisible frame, exactly as long as no send fills the ring.**  Over any
run, every state reached has all its frames visible to the device if and only if
no store to `TDT` of the run made `TDT` meet `TDH`. -/
theorem netSend_visible_iff {bufs : ℕ → Mem} {is : List TxInput} {os : List TxEvent}
    {s : TxRing} (h : Run txStep Free (e1000TxInit bufs) is os s) :
    (∀ js ps t, js <+: is → Run txStep Free (e1000TxInit bufs) js ps t → NoInvisibleFrame t) ↔
      Run txStep LeavesGap (e1000TxInit bufs) is os s := by
  refine h.guarded_iff (I := fun s => ∃ p, TxOwns s p) ?_ ⟨[], txOwns_init bufs⟩ ?_ ?_
  · rintro s i s' o ⟨p, hown⟩ hs
    obtain ⟨p', -, hown'⟩ := txOwns_simulates s p i s' o hown trivial hs
    exact ⟨p', hown'⟩
  · exact (txOwns_init bufs).noInvisibleFrame_iff.mpr (by decide)
  · rintro s i s' o ⟨p, hown⟩ hvis hs
    exact noInvisibleFrame_step hown hvis hs

instance (s : TxRing) (i : TxInput) : Decidable (LeavesGap s i) :=
  match i, h : s.pc with
  | .driver, .writeTail frame =>
    decidable_of_iff ((s.txIndex + 1) % E1000_TX_RING_SIZE ≠ s.tdh)
      ⟨fun hgap _ _ _ => hgap, fun hgap => hgap rfl frame h⟩
  | .driver, .idle | .driver, .wait _ _ | .driver, .copy _ _ | .driver, .store _ _
  | .driver, .advance _ | .driver, .fatal _ =>
    .isTrue fun _ frame hpc => absurd (h.symm.trans hpc) (by simp)
  | .call _, _ | .device, _ => .isTrue fun hi => absurd hi (by simp)

/-- Eighteen frames are submitted in this run, one of them into the fifteenth slot that is not done;
as none goes into the sixteenth, the device sees them all at every step, and the distance of the
registers at the end is that of the frames that wait. -/
theorem netSend_visible_iff_aroundTxRing :
    ∃ os s, Run txStep LeavesGap (e1000TxInit fun _ _ => 0) aroundTxRing os s ∧
      (submittedFrames os).length = 18 ∧ (pendingSlots s).card = 13 ∧
      (s.tdh, s.tdt) = (5, 2) ∧
      ∀ js ps t, js <+: aroundTxRing → Run txStep Free (e1000TxInit fun _ _ => 0) js ps t →
        NoInvisibleFrame t := by
  have hexec : ((exec (guarded txStep LeavesGap) (e1000TxInit fun _ _ => 0) aroundTxRing).map
      fun r => decide ((submittedFrames r.2).length = 18 ∧ (pendingSlots r.1).card = 13 ∧
        (r.1.tdh, r.1.tdt) = (5, 2))) = some true := by
    decide +kernel
  obtain ⟨⟨s, os⟩, hr, hval⟩ := Option.map_eq_some_iff.mp hexec
  obtain ⟨hsubmitted, hpending, hregisters⟩ := of_decide_eq_true hval
  have hrun := run_of_exec_guarded hr
  exact ⟨os, s, hrun, hsubmitted, hpending, hregisters,
    (netSend_visible_iff hrun.free).mpr hrun⟩

/-- Sixteen frames handed to `net_send` while the device does nothing. -/
def sixteenSends : List TxInput :=
  (List.replicate 16 (TxInput.call [7] :: List.replicate 12 .driver)).flatten

/-- **The full ring is invisible.**  After sixteen sends to a device that has not
yet transmitted, all sixteen descriptors are pending and `TDH = TDT`. -/
theorem netSend_fills_ring :
    ¬ ∀ is os s, Run txStep Free (e1000TxInit fun _ _ => 0) is os s → NoInvisibleFrame s := by
  intro hall
  have hexec : ((exec txStep (e1000TxInit fun _ _ => 0) sixteenSends).map fun r =>
      decide ((pendingSlots r.1).card = 16 ∧ r.1.tdh = r.1.tdt)) = some true := by
    decide +kernel
  obtain ⟨⟨s, os⟩, hrun, hfull⟩ := Option.map_eq_some_iff.mp hexec
  obtain ⟨hcard, htdh⟩ := of_decide_eq_true hfull
  refine (hall _ os s (run_of_exec hrun)).2.1 ?_ htdh
  rw [← Finset.card_pos, hcard]
  decide

end Earth
end EgosNet
