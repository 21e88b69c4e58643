import Reticulum.Lib.Flow
import Reticulum.Lib.Framed
import Reticulum.Lib.Network
import Reticulum.Lib.Simulation
import Reticulum.Sample
import Reticulum.Step
import Reticulum.Uart

/-!
# Stations on a serial line

`run_uart` reads what has come, hands whole packets to the node, and writes
what the node has for its interface. Two stations on one line are two nodes
that hand each other packets.
-/

namespace Reticulum

open Kiss KissStreamDecoder
open Lts (Side)

/-! ## One station -/

/-- What the clock and the entropy source give at one call. -/
structure Moment where
  now : UInt64
  rng : Entropy

inductive UartPumpError
  | io
  | endOfStream
  deriving DecidableEq

/-- What `select` comes back with: the read, or the timer. -/
inductive Wake
  | read (bytes : Bytes)
  | failed
  | timer

/-- What a station meets on one way round its loop. The device takes `room` more bytes before a write fails, or any
number of them. -/
structure Turn where
  wake : Wake
  moments : Nat → Moment
  room : Option Nat
  flushes : Bool

/-- The loop over `poll_outbound`: what is left, what is written, and how it ended. -/
def writeOut (interface : UInt16) : Option Nat → List (UInt16 × Bytes) →
    List (UInt16 × Bytes) × Bytes × Option UartPumpError
  | _, [] => ([], [], none)
  | room, (outboundInterface, packet) :: rest =>
    if outboundInterface = interface then
      match room with
      | none =>
        let (left, written, error) := writeOut interface none rest
        (left, frame packet ++ written, error)
      | some k =>
        if k < (frame packet).length then (rest, (frame packet).take k, some .io)
        else
          let (left, written, error) := writeOut interface (some (k - (frame packet).length)) rest
          (left, frame packet ++ written, error)
    else writeOut interface room rest

structure Station where
  node : Node
  decoder : KissStreamDecoder

section
variable [Crypto] [Rmp] [Bzip2]

/-- Feed serial bytes into a node and return the protocol events they produced. -/
def pumpInbound (interface : UInt16) (n : Node) (decoder : KissStreamDecoder) (moments : Nat → Moment) :
    Bytes → Node × KissStreamDecoder × List Event
  | [] => (n, decoder, [])
  | byte :: rest =>
    match decoder.push byte with
    | (decoder, some packet) =>
      let (n, events) := { n with clock := (moments 0).now }.handleInboundWithEntropy packet interface (moments 0).rng
      let (n, decoder, more) := pumpInbound interface n decoder (fun k => moments (k + 1)) rest
      (n, decoder, events ++ more)
    | (decoder, none) => pumpInbound interface n decoder moments rest

namespace Station

/-- The arms of `select`, with the events they give to `on_event`. -/
def woken (interface : UInt16) (s : Station) (t : Turn) : Except UartPumpError (Station × List Event) :=
  match t.wake with
  | .read [] => .error .endOfStream
  | .read bytes =>
    let (n, decoder, events) := pumpInbound interface s.node s.decoder t.moments bytes
    .ok (⟨n, decoder⟩, events)
  | .failed => .error .io
  | .timer =>
    let (n, events) := { s.node with clock := (t.moments 0).now }.tickWithEntropy (t.moments 0).rng
    .ok (⟨n, s.decoder⟩, events)

/-- Once round the loop of `run_uart`: the station after it, its events, what it wrote, and what it returned. -/
def turn (interface : UInt16) (s : Station) (t : Turn) : Station × List Event × Bytes × Option UartPumpError :=
  match s.woken interface t with
  | .error error => (s, [], [], some error)
  | .ok (s, events) =>
    let (left, written, error) := writeOut interface t.room s.node.outbound
    (⟨{ s.node with outbound := left }, s.decoder⟩, events, written, error <|> if t.flushes then none else some .io)

/-- What `run_uart` begins with. -/
def start (interface : UInt16) (maxPacketLen : Nat) (n : Node) : Station := ⟨n.registerInterface interface, new maxPacketLen⟩

end Station

end

/-! ## Two stations -/

/-- The arguments of `run_uart`. -/
structure Outlet where
  interface : UInt16
  maxPacketLen : Nat

/-- One end of the line, with the bytes on their way to it and what `run_uart` returned, if it did. -/
structure LineEnd where
  station : Station
  wire : Bytes
  ended : Option UartPumpError

/-- The longest read, `input.len()`. -/
def INPUT_LEN : Nat := 256

def Wake.bytes : Wake → Bytes
  | .read bytes => bytes
  | _ => []

/-- The ends after one of them went round its loop. -/
def takeTurn (s : Side → LineEnd) (side : Side) (station : Station) (rest written : Bytes)
    (error : Option UartPumpError) : Side → LineEnd :=
  fun v => if v = side then ⟨station, rest, error⟩ else { s v with wire := (s v).wire ++ written }

section
variable [Crypto] [Rmp] [Bzip2]

/-- One station goes round its loop. What it reads has come over its wire, in any portions; what it writes is on its
way to the other one. -/
inductive LineStep (outlet : Side → Outlet) (s : Side → LineEnd) : Side × Turn × List Event → (Side → LineEnd) → Prop
  | turn {side : Side} {t : Turn} {rest written : Bytes} {station : Station} {events : List Event}
    {error : Option UartPumpError} (hrunning : (s side).ended = none) (hread : (s side).wire = t.wake.bytes ++ rest)
    (hlen : t.wake.bytes.length ≤ INPUT_LEN)
    (hturn : (s side).station.turn (outlet side).interface t = (station, events, written, error)) :
    LineStep outlet s (side, t, events) (takeTurn s side station rest written error)

def poweredOn (outlet : Side → Outlet) (nodes : Side → Node) : Side → LineEnd :=
  fun side => ⟨.start (outlet side).interface (outlet side).maxPacketLen (nodes side), [], none⟩

/-! ## Two nodes -/

/-- A node and the packets on their way to it. -/
structure Terminal where
  node : Node
  queue : List Bytes
  running : Bool

inductive Act
  | call (l : Label)
  /-- A call whose packet was not written in full. -/
  | lost (l : Label)
  | stopped

/-- What a station does to its node besides handing packets over. -/
def Op.Upkeep : Op → Prop
  | .setClock _ | .tickWithEntropy _ => True
  | _ => False

def polled (i : UInt16) (packet : Bytes) : Label := (.pollOutbound, { ret := .frame (some (i, packet)) })

/-- The nodes take turns in any order. A packet that is polled for the line is the last one of the other's queue, if
the other has room for it. -/
inductive PacketStep (outlet : Side → Outlet) (s : Side → Terminal) : Side × Act → (Side → Terminal) → Prop
  | receive {side : Side} {packet : Bytes} {rest : List Bytes} {rng : Entropy} {out : Outcome} {n : Node}
    (hrunning : (s side).running = true) (hqueue : (s side).queue = packet :: rest)
    (hn : NodeStep (s side).node (.handleInboundWithEntropy packet (outlet side).interface rng, out) n) :
    PacketStep outlet s (side, .call (.handleInboundWithEntropy packet (outlet side).interface rng, out))
      (Function.update s side ⟨n, rest, true⟩)
  | upkeep {side : Side} {op : Op} {out : Outcome} {n : Node} (hrunning : (s side).running = true) (hop : op.Upkeep)
    (hn : NodeStep (s side).node (op, out) n) :
    PacketStep outlet s (side, .call (op, out)) (Function.update s side { s side with node := n })
  | transmit {side : Side} {i : UInt16} {packet : Bytes} {n : Node} (hrunning : (s side).running = true)
    (hn : NodeStep (s side).node (polled i packet) n) :
    PacketStep outlet s (side, .call (polled i packet)) fun v =>
      if v = side then { s v with node := n }
      else if i = (outlet side).interface then
        { s v with queue := (s v).queue ++ [packet].filter (fits (outlet v).maxPacketLen) }
      else s v
  | lose {side : Side} {packet : Bytes} {n : Node} (hrunning : (s side).running = true)
    (hn : NodeStep (s side).node (polled (outlet side).interface packet) n) :
    PacketStep outlet s (side, .lost (polled (outlet side).interface packet))
      (Function.update s side { s side with node := n, running := false })
  | stop {side : Side} (hrunning : (s side).running = true) :
    PacketStep outlet s (side, .stopped) (Function.update s side { s side with running := false })

end

/-- An end of the line as the other one sees it. -/
def LineEnd.terminal (e : LineEnd) : Terminal := ⟨e.station.node, e.station.decoder.packets e.wire, e.ended.isNone⟩

namespace Act

def events : Act → List Event
  | call l | lost l => l.2.events
  | stopped => []

def label? : Act → Option Label
  | call l | lost l => some l
  | stopped => none

/-- The packet that the node was given. -/
def received? : Act → Option Bytes
  | call (.handleInboundWithEntropy packet _ _, _) => some packet
  | _ => none

/-- The packet that was written for the interface. -/
def written? (interface : UInt16) : Act → Option Bytes
  | call (.pollOutbound, { ret := .frame (some (i, packet)), .. }) => if i = interface then some packet else none
  | _ => none

end Act

/-! ## Frames on a wire -/

namespace KissStreamDecoder

variable {d : KissStreamDecoder} {max : Nat}

theorem feed_push (d : KissStreamDecoder) (b : Bytes) : Framed.feed push d b = ((d.pushAll b).1, d.packets b) := by
  induction b generalizing d with
  | nil => rfl
  | cons x b ih =>
    rw [Framed.feed, packets_cons, pushAll_cons]
    dsimp only
    rw [ih]

/-- Between two frames, or before the first. -/
def AtRest (max : Nat) (d : KissStreamDecoder) : Prop := d = new max ∨ d = opened max

theorem AtRest.push_fend (h : AtRest max d) : d.push FEND = (opened max, none) := by
  rcases h with rfl | rfl <;> rfl

theorem fend_not_mem_segment (p : Bytes) : FEND ∉ CMD_DATA :: p.flatMap escape := by
  rw [List.mem_cons, not_or]
  exact ⟨by decide, fend_not_mem_escaped p⟩

theorem frame_eq_segment (p : Bytes) : frame p = FEND :: ((CMD_DATA :: p.flatMap escape) ++ [FEND]) := rfl

theorem accepted_segment (max : Nat) (p : Bytes) :
    (accepted max (CMD_DATA :: p.flatMap escape)).toList = [p].filter (fits max) := by
  rw [accepted, ← frame_eq_segment, deframe_frame, Option.filter_some]
  by_cases h : fits max p <;> simp [h]

theorem framing (max : Nat) : Framed.Framing push frame (fits max) (AtRest max) where
  rest {d p} h := by
    have hmax : d.packet.length ≤ d.maxPacketLen ∧ d.maxPacketLen = max := by
      rcases h with rfl | rfl <;> exact ⟨Nat.zero_le _, rfl⟩
    have hopened := pushAll_opened hmax.1 (FEND :: CMD_DATA :: p.flatMap escape)
    rw [hmax.2] at hopened
    rw [feed_push]
    exact .inr hopened
  whole {d p} h := by
    have hsegment := @opened_packets_cons max _ (fend_not_mem_segment p) []
    rw [feed_push, frame_eq_segment, packets_cons, h.push_fend]
    dsimp only [Option.toList_none]
    rw [List.nil_append, hsegment, accepted_segment]
    exact List.append_nil _
  cut {d p n} h hn := by
    rw [feed_push]
    cases n with
    | zero => rfl
    | succ n =>
      rw [frame_eq_segment] at hn ⊢
      rw [List.take_succ_cons, packets_cons, h.push_fend, List.take_append_of_le_length (by simp at hn ⊢; omega)]
      exact packets_of_not_mem (fun hmem => fend_not_mem_segment p (List.mem_of_mem_take hmem)) _

end KissStreamDecoder

/-! ## A turn as calls of the node -/

/-- The line as two nodes. -/
def terminals (s : Side → LineEnd) : Side → Terminal := fun side => (s side).terminal

/-- The decoder of an end is at rest behind all that is on the way to it. -/
def Calm (outlet : Side → Outlet) (s : Side → LineEnd) (v : Side) : Prop :=
  AtRest (outlet v).maxPacketLen ((s v).station.decoder.pushAll (s v).wire).1

theorem LineEnd.packets_eq (e : LineEnd) : e.terminal.queue = Framed.waiting push e.station.decoder e.wire := by
  rw [Framed.waiting, feed_push]
  rfl

theorem Calm.feed {outlet : Side → Outlet} {s : Side → LineEnd} {v : Side} (h : Calm outlet s v) :
    AtRest (outlet v).maxPacketLen (Framed.feed push (s v).station.decoder (s v).wire).1 := by
  rwa [feed_push]

theorem takeTurn_self {s : Side → LineEnd} {side : Side} {station : Station} (h : station = (s side).station) :
    takeTurn s side station (s side).wire [] (s side).ended = s := by
  funext v
  unfold takeTurn
  by_cases hv : v = side
  · subst hv
    rw [if_pos rfl, h]
  · rw [if_neg hv, List.append_nil]

theorem takeTurn_takeTurn (s : Side → LineEnd) (side : Side) (station station' : Station) (rest rest' written written' : Bytes)
    (error error' : Option UartPumpError) :
    takeTurn (takeTurn s side station rest written error) side station' rest' written' error' =
      takeTurn s side station' rest' (written ++ written') error' := by
  funext v
  unfold takeTurn
  by_cases hv : v = side
  · rw [if_pos hv, if_pos hv]
  · rw [if_neg hv, if_neg hv, if_neg hv]
    dsimp only
    rw [List.append_assoc]

/-- An end is calm for as long as the other one runs. -/
def Sound (outlet : Side → Outlet) (s : Side → LineEnd) : Prop := ∀ v w, v ≠ w → (s w).ended = none → Calm outlet s v

theorem Sound.takeTurn {outlet : Side → Outlet} {side : Side} {s : Side → LineEnd} (hs : Sound outlet s) {station : Station} {rest written : Bytes}
    {error : Option UartPumpError}
    (hread : (station.decoder.pushAll rest).1 = ((s side).station.decoder.pushAll (s side).wire).1)
    (hwrite : error = none → ∀ v, v ≠ side → Calm outlet (takeTurn s side station rest written error) v) :
    Sound outlet (takeTurn s side station rest written error) := by
  intro v w hvw hw
  by_cases hv : v = side
  · subst hv
    have hother : (s w).ended = none := by rwa [Reticulum.takeTurn, if_neg (Ne.symm hvw)] at hw
    have hcalm := hs v w hvw hother
    unfold Calm at hcalm ⊢
    rw [Reticulum.takeTurn, if_pos rfl]
    dsimp only
    rwa [hread]
  · have hside : w = side := Side.eq_of_ne (Ne.symm hvw) (Ne.symm hv)
    subst hside
    rw [Reticulum.takeTurn, if_pos rfl] at hw
    exact hwrite hw v hv

section
variable [Crypto] [Rmp] [Bzip2] {outlet : Side → Outlet} {side : Side}

abbrev actsOf (side : Side) (acts : List Act) : List (Side × Act) := acts.map fun act => (side, act)

theorem polled_step {n : Node} {i : UInt16} {packet : Bytes} {rest : List (UInt16 × Bytes)}
    (h : n.outbound = (i, packet) :: rest) : NodeStep n (polled i packet) { n with outbound := rest } := by
  simp [NodeStep, Node.step, Node.pollOutbound, h, polled]

theorem decoder_pumpInbound (interface : UInt16) (n : Node) (d : KissStreamDecoder) (moments : Nat → Moment) (bytes : Bytes) :
    (pumpInbound interface n d moments bytes).2.1 = (d.pushAll bytes).1 := by
  induction bytes generalizing n d moments with
  | nil => rfl
  | cons byte rest ih =>
    rw [pumpInbound, pushAll_cons]
    rcases d.push byte with ⟨d', packet | packet⟩
    · exact ih ..
    · exact ih ..

/-- The packets of a read are handed to the node one after the other. -/
theorem pumpInbound_run {s : Side → Terminal} {d : KissStreamDecoder} (moments : Nat → Moment) {bytes : Bytes}
    {later : List Bytes} (hrunning : (s side).running = true) (hqueue : (s side).queue = d.packets bytes ++ later) :
    ∃ acts, Lts.Run (PacketStep outlet) s (actsOf side acts)
        (Function.update s side ⟨(pumpInbound (outlet side).interface (s side).node d moments bytes).1, later, true⟩) ∧
      (pumpInbound (outlet side).interface (s side).node d moments bytes).2.2 = acts.flatMap Act.events := by
  induction bytes generalizing s d moments with
  | nil =>
    have hsame : s side = ⟨(s side).node, later, true⟩ := by
      rw [← hrunning, ← show (s side).queue = later from hqueue]
    refine ⟨[], ?_, rfl⟩
    have hsame : Function.update s side ⟨(s side).node, later, true⟩ = s := by
      rw [← hsame, Function.update_eq_self]
    rw [pumpInbound, hsame]
    exact .nil
  | cons byte rest ih =>
    rw [packets_cons] at hqueue
    rw [pumpInbound]
    rcases hpush : d.push byte with ⟨d', packet | packet⟩
    · rw [hpush] at hqueue
      exact ih moments hrunning hqueue
    · rw [hpush] at hqueue
      let m := moments 0
      let n : Node := { (s side).node with clock := m.now }
      let s₁ := Function.update s side { s side with node := n }
      let handled := n.handleInboundWithEntropy packet (outlet side).interface m.rng
      let s₂ := Function.update s₁ side ⟨handled.1, d'.packets rest ++ later, true⟩
      have hclock : PacketStep outlet s (side, .call (.setClock m.now, {})) s₁ :=
        .upkeep hrunning trivial ((s side).node.step_setClock m.now)
      have hreceive : PacketStep outlet s₁
          (side, .call (.handleInboundWithEntropy packet (outlet side).interface m.rng, { events := handled.2 })) s₂ :=
        .receive (by simpa [s₁] using hrunning) (by simpa [s₁] using hqueue)
          (by simpa [s₁] using n.step_handleInboundWithEntropy packet (outlet side).interface m.rng)
      obtain ⟨acts, hrun, hevents⟩ := ih (s := s₂) (d := d') (fun k => moments (k + 1)) (by simp [s₂]) (by simp [s₂])
      have hnode : (s₂ side).node = handled.1 := by simp [s₂]
      rw [hnode] at hrun hevents
      refine ⟨_ :: _ :: acts, .cons hclock (.cons hreceive ?_), ?_⟩
      · rw [Function.update_idem, Function.update_idem] at hrun
        exact hrun
      · rw [List.flatMap_cons, List.flatMap_cons, ← hevents]
        rfl

theorem woken_run {s : Side → LineEnd} {t : Turn} {rest : Bytes} {station : Station} {events : List Event}
    (hrunning : (s side).ended = none) (hread : (s side).wire = t.wake.bytes ++ rest)
    (hwoken : (s side).station.woken (outlet side).interface t = .ok (station, events)) :
    (∃ acts, Lts.Run (PacketStep outlet) (terminals s) (actsOf side acts) (terminals (takeTurn s side station rest [] none)) ∧
      events = acts.flatMap Act.events) ∧ station.decoder = ((s side).station.decoder.pushAll t.wake.bytes).1 := by
  have hup : (terminals s side).running = true := by simp [terminals, LineEnd.terminal, hrunning]
  have hqueue : (terminals s side).queue =
      (s side).station.decoder.packets t.wake.bytes ++ ((s side).station.decoder.pushAll t.wake.bytes).1.packets rest := by
    rw [← packets_append, ← hread]
    rfl
  -- the other end is as it was
  have hend (station : Station) (n : Node) (later : List Bytes) (hn : station.node = n)
      (hd : station.decoder.packets rest = later) :
      Function.update (terminals s) side ⟨n, later, true⟩ = terminals (takeTurn s side station rest [] none) := by
    funext v
    by_cases hv : v = side
    · subst hv
      simp [terminals, LineEnd.terminal, takeTurn, hn, hd]
    · simp [terminals, LineEnd.terminal, takeTurn, hv]
  unfold Station.woken at hwoken
  split at hwoken
  · cases hwoken
  · next bytes _ hwake =>
    rw [hwake] at hqueue ⊢
    obtain ⟨acts, hrun, hevents⟩ := @pumpInbound_run _ _ _ outlet side _ _ t.moments _ _ hup hqueue
    have hdecoder := decoder_pumpInbound (outlet side).interface (s side).station.node (s side).station.decoder t.moments bytes
    cases hwoken
    refine ⟨⟨acts, ?_, hevents⟩, hdecoder⟩
    rw [← hend ⟨_, _⟩ _ _ rfl (congrArg (packets · rest) hdecoder)]
    exact hrun
  · cases hwoken
  · next hwake =>
    rw [hwake] at hqueue ⊢
    cases hwoken
    let n : Node := { (s side).station.node with clock := (t.moments 0).now }
    let ticked := n.tickWithEntropy (t.moments 0).rng
    let s₁ := Function.update (terminals s) side { terminals s side with node := n }
    have hclock : PacketStep outlet (terminals s) (side, .call (.setClock (t.moments 0).now, {})) s₁ :=
      .upkeep hup trivial ((s side).station.node.step_setClock (t.moments 0).now)
    have htick : PacketStep outlet s₁ (side, .call (.tickWithEntropy (t.moments 0).rng, { events := ticked.2 }))
        (Function.update s₁ side { s₁ side with node := ticked.1 }) :=
      .upkeep (by simpa [s₁] using hup) trivial (by simpa [s₁] using n.step_tickWithEntropy (t.moments 0).rng)
    have hnext : Function.update s₁ side { s₁ side with node := ticked.1 } =
        terminals (takeTurn s side ⟨ticked.1, (s side).station.decoder⟩ rest [] none) := by
      rw [← hend ⟨ticked.1, (s side).station.decoder⟩ _ _ rfl rfl]
      simp only [s₁, Function.update_self, Function.update_idem]
      rw [hup, hqueue]
      rfl
    rw [hnext] at htick
    exact ⟨⟨[_, _], .cons hclock (.single htick), (List.append_nil ticked.2).symm⟩, rfl⟩

/-- What `poll_outbound` gives is written in full if it is for the line. -/
theorem transmit_step {s : Side → LineEnd} {i : UInt16} {packet : Bytes} {rest : List (UInt16 × Bytes)}
    (hrunning : (s side).ended = none) (hcalm : ∀ v, v ≠ side → Calm outlet s v)
    (hout : (s side).station.node.outbound = (i, packet) :: rest) :
    PacketStep outlet (terminals s) (side, .call (polled i packet))
      (terminals (takeTurn s side ⟨{ (s side).station.node with outbound := rest }, (s side).station.decoder⟩ (s side).wire
        (if i = (outlet side).interface then frame packet else []) none)) := by
  have hup : (terminals s side).running = true := by simp [terminals, LineEnd.terminal, hrunning]
  refine cast (congrArg (PacketStep outlet (terminals s) _) ?_) (PacketStep.transmit hup (polled_step hout))
  funext v
  by_cases hv : v = side
  · subst hv
    simp [terminals, LineEnd.terminal, takeTurn, hrunning]
  · simp only [terminals, takeTurn, if_neg hv]
    by_cases hi : i = (outlet side).interface
    · rw [if_pos hi, if_pos hi]
      have hwrite := (framing (outlet v).maxPacketLen).waiting_write (hcalm v hv).feed packet
      rw [← LineEnd.packets_eq] at hwrite
      simp only [LineEnd.terminal] at hwrite ⊢
      rw [← hwrite, Framed.waiting, feed_push]
    · rw [if_neg hi, if_neg hi, List.append_nil]

theorem writeOut_run {s : Side → LineEnd} {room : Option Nat} {outbound : List (UInt16 × Bytes)}
    (hrunning : (s side).ended = none) (hcalm : ∀ v, v ≠ side → Calm outlet s v)
    (hout : (s side).station.node.outbound = outbound) {left : List (UInt16 × Bytes)} {written : Bytes}
    {error : Option UartPumpError} (hwrite : writeOut (outlet side).interface room outbound = (left, written, error))
    {u : Side → LineEnd} (hu : u = takeTurn s side ⟨{ (s side).station.node with outbound := left },
      (s side).station.decoder⟩ (s side).wire written error) :
    (∃ acts, Lts.Run (PacketStep outlet) (terminals s) (actsOf side acts) (terminals u) ∧ acts.flatMap Act.events = []) ∧
      (error = none → ∀ v, v ≠ side → Calm outlet u v) := by
  induction outbound generalizing s room written with
  | nil =>
    cases hwrite
    have hsame : u = s := by
      rw [hu, ← hrunning]
      exact takeTurn_self (by rw [← hout])
    rw [hsame]
    exact ⟨⟨[], .nil, rfl⟩, fun _ => hcalm⟩
  | cons frame' rest ih =>
    obtain ⟨i, packet⟩ := frame'
    let b : Bytes := if i = (outlet side).interface then frame packet else []
    let s₁ := takeTurn s side ⟨{ (s side).station.node with outbound := rest }, (s side).station.decoder⟩ (s side).wire b none
    have hside : s₁ side = ⟨⟨{ (s side).station.node with outbound := rest }, (s side).station.decoder⟩, (s side).wire, none⟩ :=
      if_pos rfl
    have hstep : PacketStep outlet (terminals s) (side, .call (polled i packet)) (terminals s₁) :=
      transmit_step hrunning hcalm hout
    have hcalm₁ (v : Side) (hv : v ≠ side) : Calm outlet s₁ v := by
      have hother : s₁ v = { s v with wire := (s v).wire ++ b } := if_neg hv
      unfold Calm
      rw [hother]
      by_cases hi : i = (outlet side).interface
      · have hrest := (framing (outlet v).maxPacketLen).rest_write (hcalm v hv).feed packet
        simp only [b, if_pos hi]
        rwa [feed_push] at hrest
      · simp only [b, if_neg hi, List.append_nil]
        exact hcalm v hv
    -- the packet is passed over or written, and the loop goes on
    have hnext {room' : Option Nat} {more : Bytes}
        (hrest : writeOut (outlet side).interface room' rest = (left, more, error)) (hmore : written = b ++ more) :
        (∃ acts, Lts.Run (PacketStep outlet) (terminals s) (actsOf side acts) (terminals u) ∧ acts.flatMap Act.events = []) ∧
          (error = none → ∀ v, v ≠ side → Calm outlet u v) := by
      obtain ⟨⟨acts, hrun, hevents⟩, hquiet⟩ := ih (s := s₁) (by rw [hside]) hcalm₁ (by rw [hside]) hrest (by
        rw [hu, hside, hmore, takeTurn_takeTurn])
      exact ⟨⟨_ :: acts, .cons hstep hrun, by rw [List.flatMap_cons, hevents]; rfl⟩, hquiet⟩
    unfold writeOut at hwrite
    split at hwrite
    · next hi =>
      have hb : b = frame packet := if_pos hi
      split at hwrite
      · rcases hrest : writeOut (outlet side).interface none rest with ⟨left', more, error'⟩
        rw [hrest] at hwrite
        cases hwrite
        exact hnext hrest (by rw [hb])
      · next k =>
        split at hwrite
        · next hshort =>
          cases hwrite
          refine ⟨⟨[.lost (polled i packet)], .single ?_, rfl⟩, nofun⟩
          have hup : (terminals s side).running = true := by simp [terminals, LineEnd.terminal, hrunning]
          rw [hi] at hout ⊢
          refine cast (congrArg (PacketStep outlet (terminals s) _) ?_) (PacketStep.lose hup (polled_step hout))
          rw [hu]
          funext v
          by_cases hv : v = side
          · subst hv
            simp [terminals, LineEnd.terminal, takeTurn]
          · have hcut := (framing (outlet v).maxPacketLen).waiting_cut (hcalm v hv).feed hshort
            rw [← LineEnd.packets_eq] at hcut
            simp only [LineEnd.terminal, terminals, takeTurn, if_neg hv, Function.update_of_ne hv] at hcut ⊢
            rw [← hcut, Framed.waiting, feed_push]
        · rcases hrest : writeOut (outlet side).interface (some (k - (frame packet).length)) rest with ⟨left', more, error'⟩
          rw [hrest] at hwrite
          cases hwrite
          exact hnext hrest (by rw [hb])
    · next hi => exact hnext hwrite (by simp [b, hi])

/-- The acts of a turn are of one side and have its events. -/
def Told (l : Side × Turn × List Event) (acts : List (Side × Act)) : Prop :=
  ∃ own, acts = actsOf l.1 own ∧ l.2.2 = own.flatMap Act.events

theorem bytes_of_woken_error {interface : UInt16} {station : Station} {t : Turn} {error : UartPumpError}
    (h : station.woken interface t = .error error) : t.wake.bytes = [] := by
  unfold Station.woken at h
  split at h
  · next hwake => rw [hwake]; rfl
  · cases h
  · next hwake => rw [hwake]; rfl
  · cases h

/-- Once round the loop is a run of the nodes. -/
theorem LineStep.simulate {s u : Side → LineEnd} {l : Side × Turn × List Event} (hs : Sound outlet s)
    (h : LineStep outlet s l u) :
    Sound outlet u ∧ ∃ acts, Lts.Run (PacketStep outlet) (terminals s) acts (terminals u) ∧ Told l acts := by
  cases h with
  | @turn side t rest written station events error hrunning hread _ hturn =>
  have hstop {v : Side → LineEnd} {station : Station} {rest written : Bytes} {error : UartPumpError}
      (hv : v = Reticulum.takeTurn s side station rest written none) :
      PacketStep outlet (terminals v) (side, .stopped)
        (terminals (Reticulum.takeTurn s side station rest written (some error))) := by
    refine cast (congrArg (PacketStep outlet (terminals v) _) ?_) (@PacketStep.stop _ _ _ outlet (terminals v) side ?_)
    · rw [hv]
      funext w
      by_cases hw : w = side
      · subst hw
        simp [terminals, LineEnd.terminal, Reticulum.takeTurn]
      · simp [terminals, LineEnd.terminal, Reticulum.takeTurn, hw]
    · rw [hv]
      simp [terminals, LineEnd.terminal, Reticulum.takeTurn]
  unfold Station.turn at hturn
  rcases hwoken : (s side).station.woken (outlet side).interface t with e | ⟨station₀, events₀⟩
  · rw [hwoken] at hturn
    cases hturn
    rw [bytes_of_woken_error hwoken, List.nil_append] at hread
    subst hread
    have hself := @takeTurn_self s side _ rfl
    rw [hrunning] at hself
    exact ⟨hs.takeTurn rfl nofun, _, .single (hstop hself.symm), [.stopped], rfl, rfl⟩
  · rw [hwoken] at hturn
    dsimp only at hturn
    rcases hwrite : writeOut (outlet side).interface t.room station₀.node.outbound with ⟨left, written₀, error₀⟩
    rw [hwrite] at hturn
    cases hturn
    obtain ⟨⟨acts, hrun, hevents⟩, hdecoder⟩ := woken_run hrunning hread hwoken
    let s₁ := Reticulum.takeTurn s side station₀ rest [] none
    have hside : s₁ side = ⟨station₀, rest, none⟩ := if_pos rfl
    have hcalm₁ (v : Side) (hv : v ≠ side) : Calm outlet s₁ v := by
      have hcalm := hs v side hv hrunning
      unfold Calm at hcalm ⊢
      rwa [show s₁ v = { s v with wire := (s v).wire ++ [] } from if_neg hv, List.append_nil]
    obtain ⟨⟨acts', hrun', hquiet⟩, hcalm⟩ := writeOut_run (s := s₁) (by rw [hside]) hcalm₁ (by rw [hside]) hwrite rfl
    rw [hside, takeTurn_takeTurn] at hrun' hcalm
    refine ⟨hs.takeTurn ?_ ?_, ?_⟩
    · rw [hread, pushAll_append, hdecoder]
    · intro herror v hv
      obtain ⟨rfl, -⟩ : error₀ = none ∧ t.flushes = true := by
        cases error₀ <;> cases hf : t.flushes <;> simp_all
      have hc := hcalm rfl v hv
      unfold Calm at hc ⊢
      simp only [Reticulum.takeTurn, if_neg hv] at hc ⊢
      exact hc
    · have hboth := hrun.append hrun'
      have hall : (acts ++ acts').flatMap Act.events = events := by
        rw [List.flatMap_append, hquiet, List.append_nil, hevents]
      rw [← List.map_append] at hboth
      cases error₀ with
      | some e => exact ⟨_, hboth, _, rfl, hall.symm⟩
      | none =>
        by_cases hf : t.flushes = true
        · rw [if_pos hf]
          exact ⟨_, hboth, _, rfl, hall.symm⟩
        · rw [if_neg hf]
          refine ⟨_, hboth.snoc (hstop rfl), acts ++ acts' ++ [.stopped], ?_, ?_⟩
          · simp [actsOf]
          · rw [List.flatMap_append, hall]
            exact (List.append_nil _).symm

/-! ## The line -/

/-- The packets for a node that were written by the other one, and those that it was given. -/
theorem PacketStep.fifo {v w : Side} (hvw : v ≠ w) : Lts.Fifo (PacketStep outlet)
    (fun l => if l.1 = w then (l.2.written? (outlet w).interface).toList.filter (fits (outlet v).maxPacketLen) else [])
    (fun l => if l.1 = v then l.2.received?.toList else []) fun s => (s v).queue := by
  intro s l u hst
  cases hst with
  | @receive side packet rest rng out n hrunning hqueue hn =>
    by_cases hv : side = v
    · subst hv
      simp [hvw, hqueue, Act.received?]
    · simp [hv, Ne.symm hv, Act.written?]
  | @upkeep side op out n hrunning hop hn =>
    have hidle : (Act.call (op, out)).written? (outlet w).interface = none ∧ (Act.call (op, out)).received? = none := by
      cases op <;> first | exact ⟨rfl, rfl⟩ | cases hop
    by_cases hv : side = v
    · subst hv
      simp [hidle]
    · simp [hidle, Ne.symm hv]
  | @transmit side i packet n hrunning hn =>
    by_cases hv : side = v
    · subst hv
      simp [hvw, polled, Act.received?]
    · have hside : side = w := Side.eq_of_ne hv (Ne.symm hvw)
      subst hside
      by_cases hi : i = (outlet side).interface
      · simp [hvw, Ne.symm hvw, polled, Act.written?, hi]
      · simp [hvw, Ne.symm hvw, polled, Act.written?, hi]
  | @lose side packet n hrunning hn =>
    by_cases hv : side = v
    · subst hv
      simp [Act.written?, Act.received?]
    · simp [Ne.symm hv, Act.written?, Act.received?]
  | @stop side hrunning =>
    by_cases hv : side = v
    · subst hv
      simp [Act.written?, Act.received?]
    · simp [Ne.symm hv, Act.written?, Act.received?]

theorem PacketStep.node_run {s u : Side → Terminal} {acts : List (Side × Act)} (h : Lts.Run (PacketStep outlet) s acts u)
    (v : Side) : Lts.Run NodeStep (s v).node ((Lts.own v acts).filterMap Act.label?) (u v).node := by
  refine h.history (I := fun acts u => Lts.Run NodeStep (s v).node ((Lts.own v acts).filterMap Act.label?) (u v).node) .nil
    fun acts t l u ih hst => ?_
  rw [Lts.own_append, List.filterMap_append]
  -- a step of the other side leaves the node as it is
  have hother {side : Side} {act : Act} (hv : side ≠ v) (hnode : (u v).node = (t v).node) :
      Lts.Run NodeStep (s v).node
        ((Lts.own v acts).filterMap Act.label? ++ (Lts.own v [(side, act)]).filterMap Act.label?) (u v).node := by
    rw [show Lts.own v [(side, act)] = [] by simp [Lts.own, hv], hnode]
    simpa using ih
  have hown {act : Act} {l : Label} (hl : act.label? = some l) (hn : NodeStep (t v).node l (u v).node) :
      Lts.Run NodeStep (s v).node
        ((Lts.own v acts).filterMap Act.label? ++ (Lts.own v [(v, act)]).filterMap Act.label?) (u v).node := by
    rw [show Lts.own v [(v, act)] = [act] by simp [Lts.own], List.filterMap_cons_some hl]
    exact .snoc ih hn
  cases hst with
  | @receive side packet rest rng out n hrunning hqueue hn =>
    by_cases hv : side = v
    · subst hv
      exact hown rfl (by simpa using hn)
    · exact hother hv (by simp [Ne.symm hv])
  | @upkeep side op out n hrunning hop hn =>
    by_cases hv : side = v
    · subst hv
      exact hown rfl (by simpa using hn)
    · exact hother hv (by simp [Ne.symm hv])
  | @transmit side i packet n hrunning hn =>
    by_cases hv : side = v
    · subst hv
      exact hown rfl (by simpa using hn)
    · refine hother hv ?_
      dsimp only
      rw [if_neg (Ne.symm hv)]
      split <;> rfl
  | @lose side packet n hrunning hn =>
    by_cases hv : side = v
    · subst hv
      exact hown rfl (by simpa using hn)
    · exact hother hv (by simp [Ne.symm hv])
  | @stop side hrunning =>
    by_cases hv : side = v
    · subst hv
      rw [show Lts.own side [(side, Act.stopped)] = [.stopped] by simp [Lts.own], Function.update_self,
        List.filterMap_cons_none rfl, List.filterMap_nil, List.append_nil]
      exact ih
    · exact hother hv (by simp [Ne.symm hv])

/-- The turns of two stations as acts of two nodes. -/
structure Carries (outlet : Side → Outlet) (nodes : Side → Node) (turns : List (Side × Turn × List Event))
    (s : Side → LineEnd) (acts : List (Side × Act)) : Prop where
  run : Lts.Run (PacketStep outlet) (terminals (poweredOn outlet nodes)) acts (terminals s)
  events : ∀ side, (Lts.own side turns).flatMap Prod.snd = (Lts.own side acts).flatMap Act.events
  node : ∀ side, Lts.Run NodeStep ((nodes side).registerInterface (outlet side).interface)
    ((Lts.own side acts).filterMap Act.label?) (s side).station.node
  /-- What one writes is what the other is given, and what is still on the way. -/
  packets : ∀ v w, v ≠ w →
    ((Lts.own w acts).filterMap (Act.written? (outlet w).interface)).filter (fits (outlet v).maxPacketLen) =
      (Lts.own v acts).filterMap Act.received? ++ (s v).station.decoder.packets (s v).wire

/-- Whatever portions the bytes come in and whatever fails, two stations on a line do what two nodes do that hand each
other packets, and the packets that are written in full and fit arrive unchanged and in order. -/
theorem line_carries_packets (outlet : Side → Outlet) (nodes : Side → Node) {turns : List (Side × Turn × List Event)}
    {s : Side → LineEnd} (h : Lts.Run (LineStep outlet) (poweredOn outlet nodes) turns s) :
    ∃ acts, Carries outlet nodes turns s acts := by
  have hstart : Sound outlet (poweredOn outlet nodes) := fun _ _ _ _ => .inl rfl
  obtain ⟨-, trs, hrun, htold⟩ := h.simulate (I := Sound outlet) (fun _ _ _ hs hst => hst.simulate hs) hstart
  refine ⟨trs.flatten, hrun, fun side => ?_, fun side => PacketStep.node_run hrun side, fun v w hvw => ?_⟩
  · rw [Lts.flatMap_own, Lts.flatMap_own]
    refine Lts.flatMap_eq_of_forall₂ (fun l acts hl => ?_) htold
    obtain ⟨own, rfl, hevents⟩ := hl
    rw [← Lts.flatMap_own side Act.events]
    by_cases hside : l.1 = side
    · rw [if_pos hside, hevents]
      simp [Lts.own, actsOf, hside, List.filterMap_map]
    · rw [if_neg hside]
      simp [Lts.own, actsOf, hside, List.filterMap_map]
  · have hfifo := (PacketStep.fifo hvw).run hrun
    rw [List.filterMap_eq_flatMap_toList, List.filter_flatMap, List.filterMap_eq_flatMap_toList, Lts.flatMap_own, Lts.flatMap_own]
    exact hfifo

end

open Sample

def cable : Side → Outlet := fun _ => ⟨7, 500⟩

/-- One of them has a packet for the line. -/
def cableNodes : Side → Node
  | .near => { Node.withClock (identity 1) 0 with outbound := [(7, [FEND, 1, FESC])] }
  | .far => .withClock (identity 2) 0

def cableTurn (wake : Wake) : Turn := ⟨wake, fun _ => ⟨5, entropy 1⟩, none, true⟩

def cableTurns : List (Side × Turn × List Event) :=
  [(.near, cableTurn .timer, []), (.far, cableTurn (.read [FEND, CMD_DATA, FESC]), []),
    (.far, cableTurn (.read [TFEND, 1, FESC, TFESC, FEND]), [])]

theorem cable_run : ∃ s, Lts.Run (LineStep cable) (poweredOn cable cableNodes) cableTurns s :=
  ⟨_, .cons (.turn rfl rfl (by decide) rfl) (.cons (.turn rfl rfl (by decide) rfl) (.single (.turn rfl rfl (by decide) rfl)))⟩

/-- The packet is written on a timer and read in two portions, the first of which ends behind an escape. -/
theorem line_carries_packets_cable : ∃ s acts, Carries cable cableNodes cableTurns s acts := by
  obtain ⟨s, hrun⟩ := cable_run
  obtain ⟨acts, hcarries⟩ := line_carries_packets cable cableNodes hrun
  exact ⟨s, acts, hcarries⟩

end Reticulum
