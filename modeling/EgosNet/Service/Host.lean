import EgosNet.Earth.RxRing
import EgosNet.Earth.TxRing
import EgosNet.Foundation.Parts
import EgosNet.Service.Answers
import EgosNet.Service.ArpCache

/-!
# The host: the service, the driver and the card

The service of `sys_net.c` calls the driver of `dev_net.c`, and the driver shares two rings with the
card, which works on its own.  The three have been modelled one by one; here they are one machine.
At every step the card may store a frame that has arrived, or send one that is due, and this between
any two statements of `net_recv` and `net_send`; and a process may make its request, when the
service waits for one.

The service itself touches nothing that the card can see, so what it does with a frame is one step.
The frames it hands to `net_send` meanwhile are sent one after the other before the next request.

* `host_between_channels`: seen from outside, the host is the service between two channels.  It is
  given the frames that arrived, in their order, each once, and nothing else; and what leaves is
  what it sends, in its order, each once, and nothing else.  No more than sixteen frames are ever
  under way on one side, apart from those that the service is still sending.
* `wire_wellFormed`: and so what has been shown of the frames that the service sends is true of
  those on the wire.
-/

namespace EgosNet
namespace Service

open Foundation Uip

/-! ## The machine -/

/-- Where the service is: in `sys_recv`; in `net_recv`, with the request that it is for; or sending,
with the frames that `net_send` has still to be given. -/
inductive Cpu where
  | idle
  | receiving (request : Request)
  | sending (frames : List Earth.Frame)

structure Host where
  net : Net
  rx : Earth.RxRing
  tx : Earth.TxRing
  cpu : Cpu

/-- The state after `net_init` and the beginning of `main`. -/
def Host.init (rxBufs txBufs : ℕ → Mem) : Host where
  net := Net.init
  rx := Earth.e1000RxInit rxBufs
  tx := Earth.e1000TxInit txBufs
  cpu := .idle

/-- A frame arrives; a frame leaves; a process makes a request; or the processor executes a
statement.  `beyond` is the memory past the end of `uip_buf`. -/
inductive HostInput where
  | arrive (frame : Earth.Frame)
  | depart
  | request (request : Request) (beyond : Mem)
  | statement (beyond : Mem)

/-- The steps of the parts that a step of the host consists of. -/
structure HostEvent where
  rx : Option (Earth.RxInput × Earth.RxEvent) := none
  tx : Option (Earth.TxInput × Earth.TxEvent) := none
  served : Option (Input × Outcome) := none

/-- The request asks the card for a frame. -/
def takesFrame : Request → Bool
  | .netRecv => true
  | r => polling r

/-- The handler of a request, which has been given its frame. -/
def hostServe (h : Host) (i : Input) (rx : Option (Earth.RxInput × Earth.RxEvent)) :
    Option (Host × HostEvent) :=
  (step h.net i).map fun (net, o) =>
    ({ h with net := net, cpu := .sending (transmitted o.events) },
      { rx := rx, served := some (i, o) })

/-- The next statement of the service or of the driver on its behalf. -/
def statement (h : Host) (beyond : Mem) : Option (Host × HostEvent) :=
  match h.cpu with
  | .idle => none
  | .receiving r =>
    let (rx, o) := Earth.netRecv h.rx
    match o with
    | .returned _ frame => hostServe { h with rx := rx } ⟨r, ⟨frame, beyond⟩⟩ (some (.driver, o))
    | _ =>
      if rx.pc = .idle then hostServe { h with rx := rx } ⟨r, ⟨[], beyond⟩⟩ (some (.driver, o))
      else some ({ h with rx := rx }, { rx := some (.driver, o) })
  | .sending frames =>
    if h.tx.pc = .idle then
      match frames with
      | [] => some ({ h with cpu := .idle }, {})
      | frame :: frames =>
        (Earth.txStep h.tx (.call frame)).map fun (tx, o) =>
          ({ h with tx := tx, cpu := .sending frames }, { tx := some (.call frame, o) })
    else
      (Earth.txStep h.tx .driver).map fun (tx, o) =>
        ({ h with tx := tx }, { tx := some (.driver, o) })

/-- A step of the host. -/
def hostStep (h : Host) : HostInput → Option (Host × HostEvent)
  | .arrive frame =>
    (Earth.rxStep h.rx (.device frame)).map fun (rx, o) =>
      ({ h with rx := rx }, { rx := some (.device frame, o) })
  | .depart =>
    (Earth.txStep h.tx .device).map fun (tx, o) =>
      ({ h with tx := tx }, { tx := some (.device, o) })
  | .request r beyond =>
    match h.cpu with
    | .idle =>
      if takesFrame r then some ({ h with cpu := .receiving r }, {})
      else hostServe h ⟨r, ⟨[], beyond⟩⟩ none
    | _ => none
  | .statement beyond => statement h beyond

/-! ## What has happened so far -/

/-- What the receive ring did. -/
def rxEvents (es : List HostEvent) : List Earth.RxEvent := (es.filterMap HostEvent.rx).map Prod.snd

/-- What the transmit ring did. -/
def txEvents (es : List HostEvent) : List Earth.TxEvent := (es.filterMap HostEvent.tx).map Prod.snd

/-- The requests, each with the frame that the service was given for it, and what came of them. -/
def servings (es : List HostEvent) : List (Input × Outcome) := es.filterMap HostEvent.served

/-- The frames that have arrived from the wire; an empty one is none. -/
def arrivedFrames (es : List HostEvent) : List Earth.Frame :=
  ((Earth.storedFrames (rxEvents es)).map Prod.snd).filter (· ≠ [])

/-- The frames that the service was given. -/
def givenFrames (es : List HostEvent) : List Earth.Frame :=
  ((servings es).map fun x => x.1.rx.frame).filter (· ≠ [])

/-- The frames that the service sent. -/
def sentFrames (es : List HostEvent) : List Earth.Frame :=
  (servings es).flatMap fun x => transmitted x.2.events

/-- The frames that have left. -/
def departedFrames (es : List HostEvent) : List Earth.Frame :=
  (Earth.transmittedFrames (txEvents es)).map Prod.snd

section Append

variable (es es' : List HostEvent)

@[simp] theorem rxEvents_append : rxEvents (es ++ es') = rxEvents es ++ rxEvents es' := by
  simp [rxEvents]

@[simp] theorem txEvents_append : txEvents (es ++ es') = txEvents es ++ txEvents es' := by
  simp [txEvents]

@[simp] theorem servings_append : servings (es ++ es') = servings es ++ servings es' :=
  List.filterMap_append

@[simp] theorem givenFrames_append :
    givenFrames (es ++ es') = givenFrames es ++ givenFrames es' := by
  simp [givenFrames]

@[simp] theorem sentFrames_append : sentFrames (es ++ es') = sentFrames es ++ sentFrames es' := by
  simp [sentFrames]

end Append

/-! ## One step -/

/-- The frames that `net_send` has still to be given. -/
def Cpu.pending : Cpu → List Earth.Frame
  | .sending frames => frames
  | _ => []

@[simp] theorem Cpu.pending_idle : Cpu.idle.pending = [] := rfl

@[simp] theorem Cpu.pending_receiving (r : Request) : (Cpu.receiving r).pending = [] := rfl

@[simp] theorem Cpu.pending_sending (frames : List Earth.Frame) :
    (Cpu.sending frames).pending = frames := rfl

/-- The service is at work on the frames it sends. -/
def Cpu.isSending : Cpu → Bool
  | .sending _ => true
  | _ => false

/-- The frames that `net_recv` returned. -/
def fetchedFrames (es : List HostEvent) : List Earth.Frame :=
  ((Earth.returnedFrames (rxEvents es)).map Prod.snd).filter (· ≠ [])

@[simp] theorem fetchedFrames_append (es es' : List HostEvent) :
    fetchedFrames (es ++ es') = fetchedFrames es ++ fetchedFrames es' := by
  simp [fetchedFrames, Earth.returnedFrames]

/-- **What a step of the host is**: at most one step of each part; a frame that `net_recv` returns
is given to the service, and a frame that the service sends is given to `net_send`; which is at rest
whenever the service is not sending. -/
structure HostParts (h h' : Host) (e : HostEvent) : Prop where
  rx : OneStep Earth.rxStep h.rx h'.rx e.rx
  tx : OneStep Earth.txStep h.tx h'.tx e.tx
  net : OneStep step h.net h'.net e.served
  given : givenFrames [e] = fetchedFrames [e]
  sent : h.cpu.pending ++ sentFrames [e] =
    Earth.calledFrames (txEvents [e]) ++ h'.cpu.pending
  rest : (h.cpu.isSending = false → h.tx.pc = .idle) → h'.cpu.isSending = false → h'.tx.pc = .idle

section Step

variable {h h' : Host} {e : HostEvent} {i : Input} {rx : Option (Earth.RxInput × Earth.RxEvent)}

theorem serve_eq_some (hs : hostServe h i rx = some (h', e)) :
    ∃ net o, step h.net i = some (net, o) ∧
    h' = { h with net := net, cpu := .sending (transmitted o.events) } ∧
    e = { rx := rx, served := some (i, o) } := by
  obtain ⟨⟨net, o⟩, hstep, hout⟩ := Option.map_eq_some_iff.mp hs
  obtain ⟨rfl, rfl⟩ := Prod.mk.inj hout
  exact ⟨net, o, hstep, rfl, rfl⟩

/-- The card does not return frames. -/
theorem event_rxDevice {s s' : Earth.RxRing} {frame : Earth.Frame} {o : Earth.RxEvent}
    (hs : Earth.rxStep s (.device frame) = some (s', o)) : Earth.returnedFrames [o] = [] := by
  simp only [Earth.rxStep, Earth.rxDevice] at hs
  split_ifs at hs
  obtain ⟨-, rfl⟩ := Prod.mk.inj (Option.some.inj hs)
  rfl

/-- Nor does it call `net_send`, or move it on. -/
theorem event_txDevice {s s' : Earth.TxRing} {o : Earth.TxEvent}
    (hs : Earth.txStep s .device = some (s', o)) :
    Earth.calledFrames [o] = [] ∧ s'.pc = s.pc := by
  simp only [Earth.txStep, Earth.txDevice] at hs
  split_ifs at hs
  obtain ⟨rfl, rfl⟩ := Prod.mk.inj (Option.some.inj hs)
  exact ⟨rfl, rfl⟩

/-- `net_send` does not call itself. -/
theorem event_netSend {s s' : Earth.TxRing} {o : Earth.TxEvent}
    (hs : Earth.txStep s .driver = some (s', o)) : Earth.calledFrames [o] = [] := by
  simp only [Earth.txStep, Earth.netSend] at hs
  split at hs
  · exact absurd hs (by simp)
  · split_ifs at hs <;> (obtain ⟨-, rfl⟩ := Prod.mk.inj (Option.some.inj hs); rfl)
  · split at hs <;> (obtain ⟨-, rfl⟩ := Prod.mk.inj (Option.some.inj hs); rfl)
  · obtain ⟨-, rfl⟩ := Prod.mk.inj (Option.some.inj hs)
    rfl
  · obtain ⟨-, rfl⟩ := Prod.mk.inj (Option.some.inj hs)
    rfl
  · obtain ⟨-, rfl⟩ := Prod.mk.inj (Option.some.inj hs)
    rfl
  · exact absurd hs (by simp)

theorem event_netSendCall {s s' : Earth.TxRing} {frame : Earth.Frame} {o : Earth.TxEvent}
    (hs : Earth.txStep s (.call frame) = some (s', o)) : o = .called frame := by
  simp only [Earth.txStep, Earth.netSendCall] at hs
  split_ifs at hs <;> (obtain ⟨-, rfl⟩ := Prod.mk.inj (Option.some.inj hs); rfl)

/-- The handler of a request; `rx` is the last statement of `net_recv`, if there was one. -/
theorem hostParts_serve {rx' : Earth.RxRing} (hrx : OneStep Earth.rxStep h.rx rx' rx)
    (hgiven : ([i.rx.frame].filter (· ≠ [])) = fetchedFrames [{ rx := rx }])
    (hcpu : h.cpu.pending = []) (hs : hostServe { h with rx := rx' } i rx = some (h', e)) :
    HostParts h h' e := by
  obtain ⟨net, o, hstep, rfl, rfl⟩ := serve_eq_some hs
  refine ⟨hrx, .still, .moved hstep, hgiven, ?_, fun _ hsending => ?_⟩
  · simp [hcpu, sentFrames, servings, txEvents, Earth.calledFrames]
  · simp [Cpu.isSending] at hsending

theorem hostParts_statement {beyond : Mem} (hs : statement h beyond = some (h', e)) :
    HostParts h h' e := by
  unfold statement at hs
  cases hcpu : h.cpu with
  | idle => simp [hcpu] at hs
  | receiving r =>
    have hpending : h.cpu.pending = [] := by rw [hcpu]; rfl
    simp only [hcpu] at hs
    have hmoved : OneStep Earth.rxStep h.rx (Earth.netRecv h.rx).1
        (some (.driver, (Earth.netRecv h.rx).2)) := .moved rfl
    cases ho : (Earth.netRecv h.rx).2 with
    | returned slot frame =>
      rw [ho] at hmoved
      simp only [ho] at hs
      exact hostParts_serve hmoved rfl hpending hs
    | stored slot frame =>
      rw [ho] at hmoved
      simp only [ho] at hs
      split_ifs at hs
      · exact hostParts_serve hmoved rfl hpending hs
      · obtain ⟨rfl, rfl⟩ := Prod.mk.inj (Option.some.inj hs)
        exact ⟨hmoved, .still, .still, rfl, by simp [hcpu, sentFrames, servings, txEvents,
          Earth.calledFrames], fun hrest _ => hrest (by rw [hcpu]; rfl)⟩
    | quiet =>
      rw [ho] at hmoved
      simp only [ho] at hs
      split_ifs at hs
      · exact hostParts_serve hmoved rfl hpending hs
      · obtain ⟨rfl, rfl⟩ := Prod.mk.inj (Option.some.inj hs)
        exact ⟨hmoved, .still, .still, rfl, by simp [hcpu, sentFrames, servings, txEvents,
          Earth.calledFrames], fun hrest _ => hrest (by rw [hcpu]; rfl)⟩
  | sending frames =>
    simp only [hcpu] at hs
    split_ifs at hs with hidle
    · cases frames with
      | nil =>
        obtain ⟨rfl, rfl⟩ := Prod.mk.inj (Option.some.inj hs)
        exact ⟨.still, .still, .still, rfl, by simp [hcpu, sentFrames, servings, txEvents,
          Earth.calledFrames], fun _ _ => hidle⟩
      | cons frame frames =>
        obtain ⟨⟨tx, o⟩, htx, hout⟩ := Option.map_eq_some_iff.mp hs
        obtain ⟨rfl, rfl⟩ := Prod.mk.inj hout
        obtain rfl := event_netSendCall htx
        exact ⟨.still, .moved htx, .still, rfl, by simp [hcpu, sentFrames, servings, txEvents,
          Earth.calledFrames], fun _ hsending => by simp [Cpu.isSending] at hsending⟩
    · obtain ⟨⟨tx, o⟩, htx, hout⟩ := Option.map_eq_some_iff.mp hs
      obtain ⟨rfl, rfl⟩ := Prod.mk.inj hout
      have hcalled : Earth.calledFrames [o] = [] := event_netSend htx
      exact ⟨.still, .moved htx, .still, rfl, by simp [hcpu, sentFrames, servings, txEvents,
        hcalled], fun _ hsending => by simp [Cpu.isSending] at hsending⟩

/-- **Every step of the host is made of steps of its parts.** -/
theorem hostParts_step {i : HostInput} (hs : hostStep h i = some (h', e)) : HostParts h h' e := by
  cases i with
  | arrive frame =>
    obtain ⟨⟨rx, o⟩, hrx, hout⟩ := Option.map_eq_some_iff.mp hs
    obtain ⟨rfl, rfl⟩ := Prod.mk.inj hout
    have hreturned := event_rxDevice hrx
    refine ⟨.moved hrx, .still, .still, ?_, ?_, fun hrest hsending => hrest hsending⟩
    · simp [givenFrames, servings, fetchedFrames, rxEvents, hreturned]
    · simp [sentFrames, servings, txEvents, Earth.calledFrames]
  | depart =>
    obtain ⟨⟨tx, o⟩, htx, hout⟩ := Option.map_eq_some_iff.mp hs
    obtain ⟨rfl, rfl⟩ := Prod.mk.inj hout
    obtain ⟨hcalled, hpc⟩ := event_txDevice htx
    refine ⟨.still, .moved htx, .still, rfl, ?_, fun hrest hsending => hpc.trans (hrest hsending)⟩
    simp [sentFrames, servings, txEvents, hcalled]
  | request r beyond =>
    simp only [hostStep] at hs
    split at hs
    · rename_i hcpu
      have hpending : h.cpu.pending = [] := by rw [hcpu]; rfl
      split_ifs at hs
      · obtain ⟨rfl, rfl⟩ := Prod.mk.inj (Option.some.inj hs)
        refine ⟨.still, .still, .still, rfl, ?_, fun hrest _ => hrest (by rw [hcpu]; rfl)⟩
        simp [hpending, sentFrames, servings, txEvents, Earth.calledFrames]
      · exact hostParts_serve .still rfl hpending hs
    · exact absurd hs (by simp)
  | statement beyond => exact hostParts_statement hs

end Step

/-! ## Runs -/

section Runs

variable {C : Host → HostInput → Prop} {rxBufs txBufs : ℕ → Mem} {is : List HostInput}
  {es : List HostEvent} {h : Host}

/-- What the service was given is what `net_recv` returned, and what it has sent is what `net_send`
was given and what it will be given next. -/
structure Linked (es : List HostEvent) (h : Host) : Prop where
  given : givenFrames es = fetchedFrames es
  sent : sentFrames es = Earth.calledFrames (txEvents es) ++ h.cpu.pending
  rest : h.cpu.isSending = false → h.tx.pc = .idle

theorem linked_run (hrun : Run hostStep C (Host.init rxBufs txBufs) is es h) : Linked es h := by
  refine hrun.invariant (P := Linked) ?_ ⟨rfl, rfl, fun _ => rfl⟩
  rintro es h i h' e hl - hs
  have hparts := hostParts_step hs
  refine ⟨?_, ?_, hparts.rest hl.rest⟩
  · rw [givenFrames_append, fetchedFrames_append, hl.given, hparts.given]
  · rw [sentFrames_append, hl.sent, List.append_assoc, hparts.sent, txEvents_append,
      ← List.append_assoc, Earth.calledFrames, List.filterMap_append]

/-- The requests and the frames that the host has served are a run of the service. -/
theorem servings_run (hrun : Run hostStep C (Host.init rxBufs txBufs) is es h) :
    Run step Free Net.init ((servings es).map Prod.fst) ((servings es).map Prod.snd) h.net :=
  hrun.part fun _ _ _ _ hs => (hostParts_step hs).net

/-- What the service was given is what has arrived, but for what waits in the ring. -/
theorem givenFrames_run (hrun : Run hostStep C (Host.init rxBufs txBufs) is es h) :
    ∃ waiting, givenFrames es ++ waiting = arrivedFrames es ∧ waiting.length ≤ 16 := by
  have hrx : Run Earth.rxStep Free (Earth.e1000RxInit rxBufs) _ (rxEvents es) h.rx :=
    hrun.part fun _ _ _ _ hs => (hostParts_step hs).rx
  obtain ⟨q, hown, hq⟩ := Earth.rxOwns_of_run hrx
  have hbound := hown.bound
  have hle := h.rx.pc.released_le
  refine ⟨(q.map Prod.snd).filter (· ≠ []), ?_, ?_⟩
  · rw [(linked_run hrun).given, fetchedFrames, arrivedFrames, ← hq, List.map_append,
      List.filter_append]
  · have hfilter := List.length_filter_le (fun f : Earth.Frame => decide (f ≠ [])) (q.map Prod.snd)
    rw [List.length_map] at hfilter
    omega

/-- What has left is what the service sent, but for what is in the ring, what `net_send` is working
on and what it has still to be given. -/
theorem departedFrames_run (hrun : Run hostStep C (Host.init rxBufs txBufs) is es h) :
    ∃ held, held.length ≤ 16 ∧
      departedFrames es ++ held ++ h.tx.pc.current ++ h.cpu.pending = sentFrames es := by
  have htx : Run Earth.txStep Free (Earth.e1000TxInit txBufs) _ (txEvents es) h.tx :=
    hrun.part fun _ _ _ _ hs => (hostParts_step hs).tx
  obtain ⟨p, hown, hp⟩ := Earth.txOwns_of_run htx
  refine ⟨p.map Prod.snd, ?_, ?_⟩
  · rw [List.length_map]
    exact hown.bound
  · rw [(linked_run hrun).sent, Earth.calledFrames_of_run htx, departedFrames, ← hp, List.map_append]

/-- While the service is not sending, `net_send` has nothing to do. -/
theorem nothingToSend_run (hrun : Run hostStep C (Host.init rxBufs txBufs) is es h)
    (hsending : h.cpu.isSending = false) : h.tx.pc.current = [] ∧ h.cpu.pending = [] := by
  refine ⟨by rw [(linked_run hrun).rest hsending]; rfl, ?_⟩
  cases hcpu : h.cpu with
  | sending frames => simp [hcpu, Cpu.isSending] at hsending
  | _ => rfl

/-- **The host is the service between two channels.**  In every run, whatever the card does between
two statements of the driver: the service has run, on the requests and the frames it was given; what
it was given are the frames that have arrived, in order, but for the at most sixteen that wait in
the ring; and what has left are the frames that it sent, in order, but for the at most sixteen that
are in the ring, the one that `net_send` is working on, and those it has still to be given, and when
the service is not sending there are none of these two. -/
theorem host_between_channels (hrun : Run hostStep C (Host.init rxBufs txBufs) is es h) :
    Run step Free Net.init ((servings es).map Prod.fst) ((servings es).map Prod.snd) h.net ∧
    (∃ waiting, givenFrames es ++ waiting = arrivedFrames es ∧ waiting.length ≤ 16) ∧
    (∃ held, held.length ≤ 16 ∧
      departedFrames es ++ held ++ h.tx.pc.current ++ h.cpu.pending = sentFrames es) ∧
    (h.cpu.isSending = false → h.tx.pc.current = [] ∧ h.cpu.pending = []) :=
  ⟨servings_run hrun, givenFrames_run hrun, departedFrames_run hrun, nothingToSend_run hrun⟩

/-! ## The wire -/

/-- No process sends packets of its own. -/
def OwnAccount (_ : Host) : HostInput → Prop
  | .request r _ => sendsRaw r = false
  | _ => True

instance (h : Host) (i : HostInput) : Decidable (OwnAccount h i) := by
  cases i <;> unfold OwnAccount <;> infer_instance

/-- The frame `f` is the answer to the echo request in the frame `g`.  The IP length of a request
may exceed what has arrived by the length of an Ethernet header; what the answer then says in the
end is what an earlier packet left in the buffer, so it answers what was in the buffer with `g`. -/
def EchoOf (g f : Earth.Frame) : Prop :=
  ∃ m : Mem, (∀ a, a < g.length → m a = payload g a) ∧ EchoFrame m g.length f

/-- A frame that the service sends, given the frame it was given. -/
theorem wire_of_outgoing {u : Stack} {rx : Rx} {f : Earth.Frame}
    (ho : Outgoing (earthNetRecv u rx).buf rx.frame.length f) :
    ArpFrame f ∨ SegmentFrame f ∨ rx.frame ≠ [] ∧ EchoOf rx.frame f := by
  cases ho with
  | arp harp => exact .inl harp
  | segment hseg => exact .inr (.inl hseg)
  | echo hecho =>
    have hfits := hecho.request.fits
    refine .inr (.inr ⟨fun hnil => ?_, _, fun a ha => ?_, hecho⟩)
    · -- with nothing received the length of the packet would be zero
      have hpos := hecho.pos
      have hlength := hecho.length
      have hle := hecho.request.length
      rw [hnil, List.length_nil] at hle
      omega
    · exact earthNetRecv_buf u ha (by omega)

/-- The request is made in this step, or the service is at work on it. -/
def InHand (h : Host) (i : HostInput) (r : Request) : Prop :=
  h.cpu = .receiving r ∨ ∃ beyond, i = .request r beyond

theorem inHand_serve {h₀ h h' : Host} {i : HostInput} {e : HostEvent} {j : Input}
    {rx : Option (Earth.RxInput × Earth.RxEvent)} (hr : InHand h₀ i j.request)
    (hs : hostServe h j rx = some (h', e)) :
    (∀ x ∈ servings [e], InHand h₀ i x.1.request) ∧ ∀ r, h'.cpu = .receiving r → InHand h₀ i r := by
  obtain ⟨net, o, -, rfl, rfl⟩ := serve_eq_some hs
  refine ⟨fun x hx => ?_, fun r hcpu => by simp at hcpu⟩
  obtain rfl : x = (j, o) := by simpa [servings] using hx
  exact hr

/-- What is served has been requested, and so has what the service is at work on afterwards. -/
theorem inHand_step {h h' : Host} {i : HostInput} {e : HostEvent}
    (hs : hostStep h i = some (h', e)) :
    (∀ x ∈ servings [e], InHand h i x.1.request) ∧ ∀ r, h'.cpu = .receiving r → InHand h i r := by
  cases i with
  | arrive frame =>
    obtain ⟨⟨rx, o⟩, -, hout⟩ := Option.map_eq_some_iff.mp hs
    obtain ⟨rfl, rfl⟩ := Prod.mk.inj hout
    exact ⟨by simp [servings], fun r hcpu => .inl hcpu⟩
  | depart =>
    obtain ⟨⟨tx, o⟩, -, hout⟩ := Option.map_eq_some_iff.mp hs
    obtain ⟨rfl, rfl⟩ := Prod.mk.inj hout
    exact ⟨by simp [servings], fun r hcpu => .inl hcpu⟩
  | request r beyond =>
    have hr : InHand h (.request r beyond) r := .inr ⟨beyond, rfl⟩
    simp only [hostStep] at hs
    split at hs
    · split_ifs at hs
      · obtain ⟨rfl, rfl⟩ := Prod.mk.inj (Option.some.inj hs)
        refine ⟨by simp [servings], fun r' hcpu => ?_⟩
        obtain rfl := Cpu.receiving.inj hcpu
        exact hr
      · exact inHand_serve hr hs
    · exact absurd hs (by simp)
  | statement beyond =>
    simp only [hostStep, statement] at hs
    split at hs
    · exact absurd hs (by simp)
    · rename_i r hcpu
      have hr : InHand h (.statement beyond) r := .inl hcpu
      split at hs
      · exact inHand_serve hr hs
      · split_ifs at hs
        · exact inHand_serve hr hs
        · obtain ⟨rfl, rfl⟩ := Prod.mk.inj (Option.some.inj hs)
          exact ⟨by simp [servings], fun r' hcpu' => .inl hcpu'⟩
    · rename_i frames hcpu
      split_ifs at hs
      · split at hs
        · obtain ⟨rfl, rfl⟩ := Prod.mk.inj (Option.some.inj hs)
          exact ⟨by simp [servings], fun r' hcpu' => by simp at hcpu'⟩
        · obtain ⟨⟨tx, o⟩, -, hout⟩ := Option.map_eq_some_iff.mp hs
          obtain ⟨rfl, rfl⟩ := Prod.mk.inj hout
          exact ⟨by simp [servings], fun r' hcpu' => by simp at hcpu'⟩
      · obtain ⟨⟨tx, o⟩, -, hout⟩ := Option.map_eq_some_iff.mp hs
        obtain ⟨rfl, rfl⟩ := Prod.mk.inj hout
        exact ⟨by simp [servings], fun r' hcpu' => .inl hcpu'⟩

/-- Such a host serves no request to send a packet. -/
theorem sendsRaw_of_servings (hrun : Run hostStep OwnAccount (Host.init rxBufs txBufs) is es h) :
    ∀ x ∈ servings es, sendsRaw x.1.request = false := by
  have hinv : (∀ x ∈ servings es, sendsRaw x.1.request = false) ∧
      ∀ r, h.cpu = .receiving r → sendsRaw r = false := by
    refine hrun.invariant (P := fun es (h : Host) =>
      (∀ x ∈ servings es, sendsRaw x.1.request = false) ∧
        ∀ r, h.cpu = .receiving r → sendsRaw r = false) ?_ ⟨by simp [servings], by simp [Host.init]⟩
    rintro es h i h' e ⟨hserved, hcpu⟩ hown hs
    have hraw : ∀ r, InHand h i r → sendsRaw r = false := by
      rintro r (hr | ⟨beyond, rfl⟩)
      · exact hcpu r hr
      · exact hown
    obtain ⟨hnew, hnext⟩ := inHand_step hs
    refine ⟨fun x hx => ?_, fun r hr => hraw r (hnext r hr)⟩
    rw [servings_append, List.mem_append] at hx
    rcases hx with hx | hx
    · exact hserved x hx
    · exact hraw _ (hnew x hx)
  exact hinv.1

/-- **Every frame on the wire is well-formed**, as long as no process sends packets of its own: it
is an ARP packet of this host, a TCP segment with both checksums right, or the answer to an echo
request that has arrived. -/
theorem wire_wellFormed (hrun : Run hostStep OwnAccount (Host.init rxBufs txBufs) is es h) :
    ∀ f ∈ departedFrames es,
      ArpFrame f ∨ SegmentFrame f ∨ ∃ g ∈ arrivedFrames es, EchoOf g f := by
  intro f hf
  obtain ⟨waiting, hgiven, -⟩ := givenFrames_run hrun
  obtain ⟨held, -, hsent⟩ := departedFrames_run hrun
  have hmem : f ∈ sentFrames es := by
    rw [← hsent, List.append_assoc, List.append_assoc]
    exact List.mem_append_left _ hf
  obtain ⟨x, hx, hfx⟩ := List.mem_flatMap.mp hmem
  obtain ⟨js, ps, n, n', hservice, hstep⟩ := (servings_run hrun).mem_step x hx
  have hraw := sendsRaw_of_servings hrun x hx
  have hsized := maintained_sized.run sized_init hservice
  rcases wire_of_outgoing (outgoing_step hsized hstep hraw f hfx)
    with harp | hseg | ⟨hne, hecho⟩
  · exact .inl harp
  · exact .inr (.inl hseg)
  · refine .inr (.inr ⟨x.1.rx.frame, ?_, hecho⟩)
    rw [← hgiven, List.mem_append, givenFrames, List.mem_filter]
    exact .inl ⟨List.mem_map_of_mem hx, by simpa using hne⟩

end Runs

/-! ## Two hosts at work -/

/-- The processor executes statements. -/
def statements (k : ℕ) : List HostInput := List.replicate k (.statement fun _ => 0)

/-- The host with its buffers cleared. -/
def host : Host := Host.init (fun _ _ => 0) fun _ _ => 0

/-- A process receives a frame, while another one arrives, and sends one, which leaves. -/
def fetchAndSend : List HostInput :=
  [.arrive [9], .request .netRecv fun _ => 0] ++ statements 5 ++ [.arrive [8]] ++ statements 8 ++
    [.request (.netSend 1 fun _ => 7) fun _ => 0] ++ statements 14 ++ [.depart]

theorem host_between_channels_fetchAndSend : ∃ es h, Run hostStep Free host fetchAndSend es h ∧
    givenFrames es = [[9]] ∧ departedFrames es = [[7]] ∧
    Run step Free Net.init ((servings es).map Prod.fst) ((servings es).map Prod.snd) h.net ∧
    (∃ waiting, givenFrames es ++ waiting = arrivedFrames es ∧ waiting.length ≤ 16) ∧
    (∃ held, held.length ≤ 16 ∧
      departedFrames es ++ held ++ h.tx.pc.current ++ h.cpu.pending = sentFrames es) ∧
    (h.cpu.isSending = false → h.tx.pc.current = [] ∧ h.cpu.pending = []) := by
  have hexec : ((exec hostStep host fetchAndSend).map fun r =>
      decide (givenFrames r.2 = [[9]] ∧ departedFrames r.2 = [[7]])) = some true := by
    decide +kernel
  obtain ⟨⟨h, es⟩, hr, hframes⟩ := Option.map_eq_some_iff.mp hexec
  obtain ⟨hgiven, hdeparted⟩ := of_decide_eq_true hframes
  have hrun := run_of_exec hr
  exact ⟨es, h, hrun, hgiven, hdeparted, host_between_channels hrun⟩

/-- A process waits for a connection when an ARP request of the router arrives, and again when a
ping does; the answers leave. -/
def pinging : List HostInput :=
  [.arrive (arpFrom uipDraddr peerEthaddr), .request .sockAccept fun _ => 0] ++ statements 108 ++
    [.depart, .arrive peerPing, .request .sockAccept fun _ => 0] ++ statements 116 ++ [.depart]

theorem wire_wellFormed_pinging : ∃ es h, Run hostStep OwnAccount host pinging es h ∧
    (departedFrames es).map List.length = [42, 46] ∧
    ∀ f ∈ departedFrames es,
      ArpFrame f ∨ SegmentFrame f ∨ ∃ g ∈ arrivedFrames es, EchoOf g f := by
  have hexec : ((exec (guarded hostStep OwnAccount) host pinging).map fun r =>
      (departedFrames r.2).map List.length) = some [42, 46] := by decide +kernel
  obtain ⟨⟨h, es⟩, hr, hlength⟩ := Option.map_eq_some_iff.mp hexec
  have hrun := run_of_exec_guarded hr
  exact ⟨es, h, hrun, hlength, wire_wellFormed hrun⟩

end Service
end EgosNet
