import Reticulum.Carrying
import Reticulum.StepCases
import Reticulum.Sample

/-!
# Plain messages to a neighbour

A PLAIN packet carries no nonce, so two sends of one payload are one packet to
the dedup map of the receiver. What is sent is delivered, in order, as long as
no frame arrives while the receiver remembers the hash of its packet.
-/

namespace Reticulum

open Node

/-! ## One frame -/

/-- A frame that carries a payload to the PLAIN destination `d`, straight or readdressed to a relay. -/
structure CarriesPlain [Crypto] (d : Arr 16) (pt : Bytes) (q : Packet) : Prop where
  content : SameContent (Packet.dataFor PLAIN d pt) q
  wellFormed : q.WellFormed
  hops : q.hops = 0

namespace Node

/-- One copy of a packet for `d` goes out over the interface: the node broadcasts and has the interface once, or it has
a route over it that tells the next hop if there is one. -/
def Hands (n : Node) (i : UInt16) (d : Arr 16) : Prop :=
  match n.prunePaths.paths.get d with
  | none => n.interfaces.count i = 1
  | some path => path.interface = i ∧ (path.hops > 1 → path.nextHopTransportId.isSome = true)

/-- The frames on one interface. -/
def framesOn (i : UInt16) (fs : List (UInt16 × Bytes)) : List Bytes :=
  fs.filterMap fun f => if f.1 = i then some f.2 else none

theorem framesOn_broadcast (i : UInt16) (is : List UInt16) (b : Bytes) :
    framesOn i (is.map fun i => (i, b)) = List.replicate (is.count i) b := by
  induction is with
  | nil => rfl
  | cons j is ih =>
    rw [List.map_cons, framesOn, List.filterMap_cons, ← framesOn, ih, List.count_cons]
    by_cases hj : j = i
    · simp [hj, List.replicate_succ]
    · simp [hj]

variable [Crypto] {n : Node} {i : UInt16} {d : Arr 16}

/-- A call hands one frame with its payload to the interface. -/
theorem Hands.sends (h : n.Hands i d) (pt : Bytes) : (n.sendPlainMessage d pt).2 = .ok () ∧
    ∃ q, CarriesPlain d pt q ∧ framesOn i (n.enqueued (n.sendPlainMessage d pt).1) = [q.encode] := by
  have hw : (Packet.dataFor PLAIN d pt).WellFormed := wellFormed_dataFor (by decide) d pt
  unfold Hands at h
  unfold sendPlainMessage enqueueDestinationPacket
  dsimp only
  split at h
  · -- no route: one copy on each interface
    rename_i hroute
    have hsome : ¬ n.prunePaths.interfaces = [] := by
      intro hnil
      rw [show n.interfaces = [] from hnil] at h
      cases h
    rw [hroute]
    dsimp only
    rw [if_neg hsome, pushAll_eq_emit]
    refine ⟨rfl, Packet.dataFor PLAIN d pt, ⟨⟨rfl, rfl, rfl, rfl, rfl⟩, hw, rfl⟩, ?_⟩
    have hout := enqueued_emit (n := n) (m := n.prunePaths) rfl
      (n.prunePaths.interfaces.map fun j => (j, Packet.dataFor PLAIN d pt))
    rw [List.map_map, Function.comp_def] at hout
    dsimp only at hout ⊢
    rw [hout, framesOn_broadcast, prunePaths_interfaces, h]
    rfl
  · rename_i path hroute
    obtain ⟨hi, hnext⟩ := h
    obtain ⟨q, hr⟩ : ∃ q, route path (Packet.dataFor PLAIN d pt) = .ok q := by
      unfold route
      split
      · obtain ⟨t, ht⟩ := Option.isSome_iff_exists.mp (hnext ‹_›)
        exact ⟨_, by rw [ht]⟩
      · exact ⟨_, rfl⟩
    have hhops : q.hops = 0 := by
      rcases route_ok hr with rfl | ⟨t, -, rfl⟩ <;> rfl
    rw [hroute]
    dsimp only
    rw [hr]
    refine ⟨rfl, q, ⟨route_sameContent hr, route_wellFormed hw hr, hhops⟩, ?_⟩
    have hout := enqueued_emit (n := n) (m := n.prunePaths) rfl [(path.interface, q)]
    dsimp only
    rw [push_eq_emit, hout]
    simp [framesOn, hi]

/-- A packet for `d` that the node delivers when it arrives: not remembered, not a path request, not readdressed to
another node, and for a PLAIN destination. -/
structure HearsPlain (n : Node) (d : Arr 16) (q : Packet) : Prop where
  unseen : (n.maybePrune n.nowSecs).seenPackets.contains q.packetHash = false
  notRequest : d ≠ Packet.pathRequestDestinationHash
  forUs : n.addressedElsewhere q = false
  plain : (n.locals.find? (·.destHash = d)).map (·.kind) = some .plain

variable [Rmp] [Bzip2] {pt : Bytes} {q : Packet}

/-- What becomes of the packet past the dedup map. -/
theorem dispatch_plain_iff (hq : SameContent (Packet.dataFor PLAIN d pt) q) (rng : Option Entropy) :
    (n.dispatch q d i rng).2 = [.message d pt] ↔
      d ≠ Packet.pathRequestDestinationHash ∧ n.addressedElsewhere q = false ∧
        (n.locals.find? (·.destHash = d)).map (·.kind) = some .plain := by
  have htype : q.packetType = DATA := hq.packetType
  have hdest : q.destType = PLAIN := hq.destType
  have hdata : q.data = pt := hq.data
  have hkinds : PLAIN ≠ LINK ∧ PLAIN ≠ SINGLE ∧ PLAIN ≠ GROUP := by decide
  by_cases hreq : d = Packet.pathRequestDestinationHash
  · have hnone : (n.dispatch q d i rng).2 = [] := by
      unfold dispatch
      rw [if_pos ⟨htype, hdest, hreq⟩]
    rw [hnone]
    simp [hreq]
  · rw [dispatch_data htype (hdest ▸ hkinds.1) fun h => hreq h.2]
    unfold handleData
    cases helse : n.addressedElsewhere q with
    | true => simp
    | false =>
      cases hl : n.locals.find? (·.destHash = d) with
      | none => simp
      | some l =>
        cases hkind : l.kind with
        | plain => simp [openLocal, hdest, hdata, hreq, hkind]
        | single | group => simp [openLocal, hdest, hkinds, hkind]

theorem hearsPlain_iff (hq : CarriesPlain d pt q) (rng : Option Entropy) :
    (n.handleInboundInner q.encode i rng).2 = [.message d pt] ↔ n.HearsPlain d q := by
  have hdecode : Packet.decode q.encode = .ok q := Packet.decode_encode hq.wellFormed
  have hhops : q.hops < PATHFINDER_MAX_HOPS := by
    rw [hq.hops]
    decide
  cases hseen : (n.maybePrune n.nowSecs).seenPackets.contains q.packetHash with
  | true =>
    have hnone : (n.handleInboundInner q.encode i rng).2 = [] := by
      have hc := n.handleInboundInner_cases q.encode i rng
      generalize n.handleInboundInner q.encode i rng = out at hc
      cases hc with
      | malformed | duplicate => rfl
      | admitted ha =>
        cases hdecode.symm.trans ha.decoded
        rw [ha.unseen] at hseen
        cases hseen
    rw [hnone]
    refine ⟨fun h => (List.cons_ne_nil _ _ h.symm).elim, fun h => ?_⟩
    rw [h.unseen] at hseen
    cases hseen
  | false =>
    have ha : n.Admits q.encode q d := ⟨hdecode, hhops, hseen, hq.content.destHash⟩
    have hcontent : SameContent (Packet.dataFor PLAIN d pt) (received q) :=
      ⟨hq.content.packetType, hq.content.destType, hq.content.destHash, hq.content.context, hq.content.data⟩
    have helse : (n.admitted q).addressedElsewhere (received q) = n.addressedElsewhere q := by
      simp [addressedElsewhere, received]
    rw [handleInboundInner_of_admits ha, dispatch_plain_iff hcontent, helse, admitted_locals, (n.maybePrune_keeps _).2.2.1]
    exact ⟨fun ⟨hreq, hus, hplain⟩ => ⟨hseen, hreq, hus, hplain⟩, fun h => ⟨h.notRequest, h.forUs, h.plain⟩⟩

end Node

/-! ## Two neighbours -/

/-- A sender and a receiver, and the frames of the plain sends on the way between them, oldest first. -/
structure PlainWire where
  sender : Node
  receiver : Node
  inFlight : List Bytes

/-- An operation of the sender, one of the receiver, or the arrival of the oldest frame on the way. -/
inductive PlainLabel
  | sender (l : Label)
  | receiver (l : Label)
  | arrival (l : Label)

/-- The payload of a plain send to `d`. -/
def Op.plainPayload? (d : Arr 16) : Op → Option Bytes
  | .sendPlainMessage destHash plaintext => if destHash = d then some plaintext else none
  | _ => none

/-- The payloads of the plain sends to `d`. -/
def plainCalls (d : Arr 16) (tr : List PlainLabel) : List Bytes :=
  tr.filterMap fun l => match l with
    | .sender l => l.1.plainPayload? d
    | _ => none

/-- The events the receiver returns when the frames arrive. -/
def arrivalEvents (tr : List PlainLabel) : List Event :=
  tr.flatMap fun l => match l with
    | .arrival l => l.2.events
    | _ => []

theorem plainCalls_append (d : Arr 16) (tr tr' : List PlainLabel) :
    plainCalls d (tr ++ tr') = plainCalls d tr ++ plainCalls d tr' := List.filterMap_append ..

theorem arrivalEvents_append (tr tr' : List PlainLabel) :
    arrivalEvents (tr ++ tr') = arrivalEvents tr ++ arrivalEvents tr' := List.flatMap_append ..

section
variable [Crypto] [Rmp] [Bzip2] {i j : UInt16} {d : Arr 16}

/-- A frame that a plain send to `d` enqueues on `i` arrives on `j`, once, after those before it. -/
inductive PlainStep (i j : UInt16) (d : Arr 16) (s : PlainWire) : PlainLabel → PlainWire → Prop
  | call {l : Label} {n : Node} : NodeStep s.sender l n → (l.1.plainPayload? d).isSome = true →
    PlainStep i j d s (.sender l) { s with sender := n, inFlight := s.inFlight ++ framesOn i (s.sender.enqueued n) }
  | sender {l : Label} {n : Node} : NodeStep s.sender l n → l.1.plainPayload? d = none →
    PlainStep i j d s (.sender l) { s with sender := n }
  | receiver {l : Label} {n : Node} : NodeStep s.receiver l n → PlainStep i j d s (.receiver l) { s with receiver := n }
  | arrival {l : Label} {n : Node} {frame : Bytes} {rest : List Bytes} {rng : Option Entropy} :
    s.inFlight = frame :: rest → l.1.inbound? = some (frame, j, rng) → NodeStep s.receiver l n →
    PlainStep i j d s (.arrival l) { s with receiver := n, inFlight := rest }

/-- A plain send hands its frame to the interface, and a frame that arrives is one the receiver hears. -/
def PlainHeard (i : UInt16) (d : Arr 16) (s : PlainWire) : PlainLabel → Prop
  | .sender l => (l.1.plainPayload? d).isSome = true → s.sender.Hands i d
  | .receiver _ => True
  | .arrival _ => ∀ frame q, s.inFlight.head? = some frame → Packet.decode frame = .ok q → s.receiver.HearsPlain d q

/-- The payloads that have not arrived are those of the frames on the way. -/
structure OnTheWay (d : Arr 16) (tr : List PlainLabel) (s : PlainWire) (late : List (Bytes × Packet)) : Prop where
  frames : s.inFlight = late.map fun w => w.2.encode
  carried : ∀ w ∈ late, CarriesPlain d w.1 w.2
  calls : (plainCalls d tr).map (.message d) = arrivalEvents tr ++ late.map fun w => .message d w.1

theorem OnTheWay.step {tr : List PlainLabel} {s s' : PlainWire} {l : PlainLabel} {late : List (Bytes × Packet)}
    (h : OnTheWay d tr s late) (hok : PlainHeard i d s l) (hst : PlainStep i j d s l s') :
    ∃ late', OnTheWay d (tr ++ [l]) s' late' := by
  cases hst with
  | @call l n hn hcall =>
    obtain ⟨op, out⟩ := l
    cases op with
    | sendPlainMessage d' pt =>
      have hd : d' = d := by
        by_contra hne
        simp [Op.plainPayload?, hne] at hcall
      subst hd
      obtain ⟨-, q, hq, hframe⟩ := (hok hcall).sends pt
      have hn' : n = (s.sender.sendPlainMessage d' pt).1 := (Prod.mk.inj (Option.some.inj hn)).1.symm
      refine ⟨late ++ [(pt, q)], ?_, ?_, ?_⟩
      · dsimp only
        rw [hn', hframe, h.frames, List.map_append]
        rfl
      · intro w hw
        rcases List.mem_append.mp hw with hw | hw
        · exact h.carried w hw
        · cases List.mem_singleton.mp hw
          exact hq
      · have hnew : plainCalls d' [.sender (.sendPlainMessage d' pt, out)] = [pt] := by
          simp [plainCalls, Op.plainPayload?]
        have hquiet : arrivalEvents [.sender (.sendPlainMessage d' pt, out)] = [] := rfl
        rw [plainCalls_append, arrivalEvents_append, hnew, hquiet, List.map_append, h.calls, List.map_append]
        simp
    | _ => cases hcall
  | @sender l n hn hcall =>
    have hnone : plainCalls d [.sender l] = [] := by simp [plainCalls, hcall]
    have hquiet : arrivalEvents [.sender l] = [] := rfl
    refine ⟨late, h.frames, h.carried, ?_⟩
    rw [plainCalls_append, arrivalEvents_append, hnone, hquiet, List.append_nil, List.append_nil]
    exact h.calls
  | @receiver l n hn =>
    have hnone : plainCalls d [.receiver l] = [] := rfl
    have hquiet : arrivalEvents [.receiver l] = [] := rfl
    refine ⟨late, h.frames, h.carried, ?_⟩
    rw [plainCalls_append, arrivalEvents_append, hnone, hquiet, List.append_nil, List.append_nil]
    exact h.calls
  | @arrival l n frame rest rng hhead hop hn =>
    have hframes := h.frames
    rw [hhead] at hframes
    cases late with
    | nil => cases hframes
    | cons w late =>
      obtain ⟨hw, hrest⟩ := List.cons.inj hframes
      have hq := h.carried w List.mem_cons_self
      have hhears : s.receiver.HearsPlain d w.2 := by
        refine hok w.2.encode w.2 ?_ (Packet.decode_encode hq.wellFormed)
        rw [hhead, hw]
        rfl
      have hevents : l.2.events = [.message d w.1] := by
        have hout := hn.inbound hop
        rw [hw] at hout
        have hmessage := (hearsPlain_iff (n := s.receiver) (i := j) hq rng).mpr hhears
        rw [hout] at hmessage
        exact hmessage
      have hnone : plainCalls d [.arrival l] = [] := rfl
      have hnew : arrivalEvents [.arrival l] = [.message d w.1] := by simp [arrivalEvents, hevents]
      refine ⟨late, hrest, fun w hw => h.carried w (List.mem_cons_of_mem _ hw), ?_⟩
      rw [plainCalls_append, arrivalEvents_append, hnone, hnew, List.append_nil, h.calls, List.map_cons]
      simp

/-- When every plain send hands its frame to the interface and every frame is heard as it arrives, the receiver has
returned the payloads in the order of the calls, up to those of the frames still on the way. -/
theorem plain_sends_delivered {tr : List PlainLabel} {s s' : PlainWire} (h₀ : s.inFlight = [])
    (h : Lts.Run (fun s l s' => PlainHeard i d s l ∧ PlainStep i j d s l s') s tr s') :
    arrivalEvents tr <+: (plainCalls d tr).map (.message d) ∧
      (s'.inFlight = [] → arrivalEvents tr = (plainCalls d tr).map (.message d)) := by
  have hinv : ∃ late, OnTheWay d tr s' late := by
    refine h.history (I := fun tr s => ∃ late, OnTheWay d tr s late) ⟨[], h₀, by simp, rfl⟩ ?_
    rintro tr t l u ⟨late, hlate⟩ ⟨hok, hst⟩
    exact hlate.step hok hst
  obtain ⟨late, hlate⟩ := hinv
  refine ⟨⟨_, hlate.calls.symm⟩, fun hempty => ?_⟩
  have hnil : late = [] := by
    have hframes := hlate.frames
    rw [hempty] at hframes
    exact List.map_eq_nil_iff.mp hframes.symm
  rw [hlate.calls, hnil, List.map_nil, List.append_nil]

end

/-! ## Two payloads, and one payload twice -/

section
open Sample

def squareDest : Arr 16 := ((withClock (identity 1) 100).registerPlainDestination "square" []).2

/-- A node on interface 0 with the PLAIN destination. -/
def onSquare (seed : UInt8) : Node :=
  (((withClock (identity seed) 100).registerInterface 0).registerPlainDestination "square" []).1

theorem onSquare_run (seed : UInt8) : Lts.Run NodeStep (withClock (identity seed) 100)
    [(.registerInterface 0, {}), (.registerPlainDestination "square" [], { ret := .dest squareDest })] (onSquare seed) :=
  .cons rfl (.single rfl)

def squareStart : PlainWire := ⟨onSquare 1, onSquare 2, []⟩

def squareFrame (pt : Bytes) : Bytes := (Packet.dataFor PLAIN squareDest pt).encode

/-- The sender after one send, the receiver after one frame. -/
def squareSent (n : Node) (pt : Bytes) : Node := (n.sendPlainMessage squareDest pt).1

def squareHeard (n : Node) (pt : Bytes) : Node × List Event := n.handleInbound (squareFrame pt) 0

theorem square_send {n : Node} (hroute : n.prunePaths.paths.get squareDest = none) (hi : n.interfaces = [0]) (pt : Bytes) :
    n.sendPlainMessage squareDest pt =
      ({ n.prunePaths with outbound := n.outbound ++ [(0, squareFrame pt)] }, .ok ()) := by
  unfold sendPlainMessage enqueueDestinationPacket
  dsimp only
  rw [hroute]
  dsimp only
  rw [if_neg (by simp [hi])]
  simp [pushAll, hi, squareFrame]

theorem square_call {s : PlainWire} (hroute : s.sender.prunePaths.paths.get squareDest = none)
    (hi : s.sender.interfaces = [0]) (pt : Bytes) :
    PlainStep 0 0 squareDest s (.sender (.sendPlainMessage squareDest pt, { ret := .sent (.ok ()) }))
      { s with sender := squareSent s.sender pt, inFlight := s.inFlight ++ [squareFrame pt] } := by
  have hsend := square_send hroute hi pt
  have hstep : NodeStep s.sender (.sendPlainMessage squareDest pt, { ret := .sent (.ok ()) }) (squareSent s.sender pt) := by
    simp only [NodeStep, Node.step, squareSent, hsend]
  have hframes : framesOn 0 (s.sender.enqueued (squareSent s.sender pt)) = [squareFrame pt] := by
    rw [squareSent, hsend, enqueued_of_append rfl]
    rfl
  rw [← hframes]
  exact .call hstep (by simp [Op.plainPayload?])

theorem square_arrival {s : PlainWire} {pt : Bytes} {rest : List Bytes} (h : s.inFlight = squareFrame pt :: rest) :
    PlainStep 0 0 squareDest s
      (.arrival (.handleInbound (squareFrame pt) 0, { events := (squareHeard s.receiver pt).2 }))
      { s with receiver := (squareHeard s.receiver pt).1, inFlight := rest } :=
  .arrival h rfl (step_handleInbound _ _ _)

def squareCalled : PlainWire := ⟨squareSent squareStart.sender [7], onSquare 2, [squareFrame [7]]⟩

def squareCalledTwice (pt : Bytes) : PlainWire :=
  ⟨squareSent squareCalled.sender pt, onSquare 2, [squareFrame [7], squareFrame pt]⟩

def squareArrived (pt : Bytes) : PlainWire :=
  ⟨(squareCalledTwice pt).sender, (squareHeard (squareCalledTwice pt).receiver [7]).1, [squareFrame pt]⟩

def squareEnd (pt : Bytes) : PlainWire :=
  ⟨(squareArrived pt).sender, (squareHeard (squareArrived pt).receiver pt).1, []⟩

/-- Two sends, then the two frames. -/
def squareRun (pt : Bytes) : List PlainLabel :=
  [.sender (.sendPlainMessage squareDest [7], { ret := .sent (.ok ()) }),
    .sender (.sendPlainMessage squareDest pt, { ret := .sent (.ok ()) }),
    .arrival (.handleInbound (squareFrame [7]) 0, { events := (squareHeard (squareCalledTwice pt).receiver [7]).2 }),
    .arrival (.handleInbound (squareFrame pt) 0, { events := (squareHeard (squareArrived pt).receiver pt).2 })]

/-- The run, under a condition that its four steps meet. -/
theorem square_run (ok : PlainWire → PlainLabel → Prop) (pt : Bytes) (hcall : ∀ l, ok squareStart (.sender l))
    (hcall' : ∀ l, ok squareCalled (.sender l)) (harrival : ∀ l, ok (squareCalledTwice pt) (.arrival l))
    (harrival' : ∀ l, ok (squareArrived pt) (.arrival l)) :
    Lts.Run (fun s l s' => ok s l ∧ PlainStep 0 0 squareDest s l s') squareStart (squareRun pt) (squareEnd pt) := by
  have hfirst : PlainStep 0 0 squareDest squareStart _ squareCalled :=
    square_call (s := squareStart) (by decide +kernel) (by decide +kernel) [7]
  have hsecond : PlainStep 0 0 squareDest squareCalled _ (squareCalledTwice pt) :=
    square_call (s := squareCalled) (by decide +kernel) (by decide +kernel) pt
  have hthird : PlainStep 0 0 squareDest (squareCalledTwice pt) _ (squareArrived pt) := square_arrival rfl
  have hfourth : PlainStep 0 0 squareDest (squareArrived pt) _ (squareEnd pt) := square_arrival rfl
  exact .cons ⟨hcall _, hfirst⟩ (.cons ⟨hcall' _, hsecond⟩ (.cons ⟨harrival _, hthird⟩ (.single ⟨harrival' _, hfourth⟩)))

theorem square_hears {pt : Bytes} {l : Label} {s : PlainWire} (hs : s.inFlight.head? = some (squareFrame pt))
    (h : s.receiver.HearsPlain squareDest (Packet.dataFor PLAIN squareDest pt)) : PlainHeard 0 squareDest s (.arrival l) := by
  intro frame q hframe hq
  have hdecode : Packet.decode (squareFrame pt) = .ok (Packet.dataFor PLAIN squareDest pt) :=
    Packet.decode_encode (wellFormed_dataFor (by decide) _ _)
  rw [hs] at hframe
  cases hframe
  cases hdecode.symm.trans hq
  exact h

theorem plain_sends_delivered_square :
    arrivalEvents (squareRun [8]) = [.message squareDest [7], .message squareDest [8]] := by
  have hhands : squareStart.sender.Hands 0 squareDest ∧ squareCalled.sender.Hands 0 squareDest := by
    have hroute : squareStart.sender.prunePaths.paths.get squareDest = none ∧
      squareCalled.sender.prunePaths.paths.get squareDest = none := by decide +kernel
    rw [Hands, Hands, hroute.1, hroute.2]
    decide +kernel
  have hhears : (squareCalledTwice [8]).receiver.HearsPlain squareDest (Packet.dataFor PLAIN squareDest [7]) :=
    ⟨by decide +kernel, by decide +kernel, by decide +kernel, by decide +kernel⟩
  have hhears' : (squareArrived [8]).receiver.HearsPlain squareDest (Packet.dataFor PLAIN squareDest [8]) :=
    ⟨by decide +kernel, by decide +kernel, by decide +kernel, by decide +kernel⟩
  have hcall {s : PlainWire} (hs : s.sender.Hands 0 squareDest) (l : Label) :
    PlainHeard 0 squareDest s (.sender l) := fun _ => hs
  have hrun := square_run (PlainHeard 0 squareDest) [8] (hcall hhands.1) (hcall hhands.2)
    (fun _ => square_hears rfl hhears) fun _ => square_hears rfl hhears'
  rw [(plain_sends_delivered rfl hrun).2 rfl]
  rfl

/-- A step of the sends alone: a send to `d`, a reading of a clock, an arrival. -/
def PlainLabel.ofSends (d : Arr 16) : PlainLabel → Prop
  | .sender (.sendPlainMessage destHash _, _) => destHash = d
  | .sender (.setClock _, _) => True
  | .receiver (.setClock _, _) => True
  | .arrival _ => True
  | _ => False

/-- Of two equal payloads the second is lost. -/
theorem plain_sends_lost : ¬ ∀ (identity identity' : Identity) (clock clock' : UInt64) (trs trr : List Label)
    (sender receiver : Node) (i j : UInt16) (d : Arr 16) (appName : String) (aspects : List String)
    (tr : List PlainLabel) (s' : PlainWire), Lts.Run NodeStep (withClock identity clock) trs sender →
    Lts.Run NodeStep (withClock identity' clock') trr receiver → i ∈ sender.interfaces → j ∈ receiver.interfaces →
    (.registerPlainDestination appName aspects, { ret := .dest d }) ∈ trs →
    (.registerPlainDestination appName aspects, { ret := .dest d }) ∈ trr →
    Lts.Run (PlainStep i j d) ⟨sender, receiver, []⟩ tr s' → (∀ l ∈ tr, l.ofSends d) → s'.inFlight = [] →
    arrivalEvents tr = (plainCalls d tr).map (.message d) := by
  intro h
  have hrun : Lts.Run (PlainStep 0 0 squareDest) squareStart (squareRun [7]) (squareEnd [7]) :=
    (square_run (fun _ _ => True) [7] (fun _ => trivial) (fun _ => trivial) (fun _ => trivial) fun _ => trivial).mono
      fun _ _ _ hst => hst.2
  have hinterface : 0 ∈ (onSquare 1).interfaces ∧ 0 ∈ (onSquare 2).interfaces := by decide +kernel
  have hall := h _ _ _ _ _ _ _ _ 0 0 squareDest "square" [] _ _ (onSquare_run 1) (onSquare_run 2) hinterface.1
    hinterface.2 (by simp) (by simp) hrun (by simp [squareRun, PlainLabel.ofSends]) rfl
  have hone : arrivalEvents (squareRun [7]) = [.message squareDest [7]] := by decide +kernel
  rw [hone] at hall
  cases hall

end

end Reticulum
