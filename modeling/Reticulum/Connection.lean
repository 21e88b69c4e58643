import Reticulum.Conservation
import Reticulum.Lib.Network
import Reticulum.Tcp

/-!
# Two drivers on a connection

A frame goes through three queues before it is written to the connection, and
a packet through two more behind it. In between it is a part of a byte stream
that is read in pieces. All this together is one queue from node to node.
-/

namespace Reticulum

open Driver Hdlc TcpClientInterface
open Lts (Side)

/-- A driver, the read buffer at its end of the connection, and the bytes on their way to it. -/
structure TcpPeer (N : Type) where
  driver : Driver N
  readBuffer : Bytes
  stream : Bytes

/-- The interface of the connection, and the task that has it. -/
structure TcpPort where
  interface : UInt16
  task : Nat

/-- The bytes of a packet that is given to the node. -/
def Inbound.bytes? : Inbound → Option Bytes
  | .packet _ bytes => some bytes
  | _ => none

/-- What a step writes to the connection. A write that fails has written a part of its frame. -/
inductive Puts (k : Nat) (p : Option Passage) : Bytes → Prop
  | whole {b : Bytes} : p = some (.transmitted k b) → Puts k p (frame b)
  | part {b : Bytes} {m : Inbound} {n : Nat} : p = some (.failed k b m) → n < (frame b).length → Puts k p ((frame b).take n)
  | nothing : p.bind (Passage.offered? k) = none → Puts k p []

/-- What a step leaves in the read buffer. A packet that a task has for the driver was taken from it. -/
inductive Takes (k : Nat) (buffer : Bytes) (p : Option Passage) : Bytes → Prop
  | packet {i : UInt16} {b left : Bytes} : p.bind (Passage.raised? k) = some (.packet i b) →
    takePacket buffer = (some b, left) → Takes k buffer p left
  | nothing : (p.bind (Passage.raised? k)).bind Inbound.bytes? = none → Takes k buffer p buffer

section
variable {N : Type}

/-- One of the two drivers takes a step, or a task reads what has come. -/
inductive Connected (W : Side → World N) (port : Side → TcpPort) (s : Side → TcpPeer N) :
    Side × Option Leg → (Side → TcpPeer N) → Prop
  | step {side : Side} {l : Leg} {d : Driver N} {buffer written : Bytes} (h : Observed (W side) (s side).driver l d)
    (hputs : Puts (port side).task l.2 written) (htakes : Takes (port side).task (s side).readBuffer l.2 buffer) :
    Connected W port s (side, some l) fun v =>
      if v = side then { s v with driver := d, readBuffer := buffer } else { s v with stream := (s v).stream ++ written }
  | read {side : Side} {t : InterfaceTask} {left chunk rest : Bytes} (ht : (s side).driver.tasks[(port side).task]? = some t)
    (hpc : t.pc = .select) (htake : takePacket (s side).readBuffer = (none, left)) (hstream : (s side).stream = chunk ++ rest)
    (hlen : 1 ≤ chunk.length ∧ chunk.length ≤ READ_CHUNK) :
    Connected W port s (side, none) (Function.update s side { s side with
      readBuffer := if (left ++ chunk).length > MAX_BUFFER then [] else left ++ chunk
      stream := rest })

/-- The steps of one of the drivers. -/
def legsOf (side : Side) (tr : List (Side × Option Leg)) : List Leg := (Lts.own side tr).filterMap id

theorem legsOf_append (side : Side) (tr tr' : List (Side × Option Leg)) :
    legsOf side (tr ++ tr') = legsOf side tr ++ legsOf side tr' := by
  rw [legsOf, Lts.own_append, List.filterMap_append]
  rfl

theorem legsOf_step (side : Side) (l : Leg) : legsOf side [(side, some l)] = [l] := by simp [legsOf, Lts.own]

theorem legsOf_read (side v : Side) : legsOf v [(side, none)] = [] := by
  by_cases hv : side = v <;> simp [legsOf, Lts.own, hv]

theorem legsOf_other {side v : Side} (hv : side ≠ v) (l : Option Leg) : legsOf v [(side, l)] = [] := by
  simp [legsOf, Lts.own, hv]

variable {W : Side → World N} {port : Side → TcpPort} {s₀ s : Side → TcpPeer N} {tr : List (Side × Option Leg)}

/-- What a driver does on a connection it could do alone. -/
theorem driver_run (h : Lts.Run (Connected W port) s₀ tr s) (v : Side) :
    Lts.Run (Observed (W v)) (s₀ v).driver (legsOf v tr) (s v).driver := by
  refine h.history (I := fun tr s => Lts.Run (Observed (W v)) (s₀ v).driver (legsOf v tr) (s v).driver) .nil
    fun tr t l u ih hst => ?_
  rw [legsOf_append]
  cases hst with
  | @step side l d buffer written h _ _ =>
    by_cases hv : side = v
    · subst hv
      rw [legsOf_step]
      refine .snoc ih ?_
      simpa using h
    · rw [legsOf_other hv, List.append_nil]
      simpa [Ne.symm hv] using ih
  | @read side =>
    rw [legsOf_read, List.append_nil]
    by_cases hv : side = v
    · subst hv
      simpa using ih
    · simpa [Ne.symm hv] using ih

/-! ## The stream -/

/-- A packet whose frame leaves room for a read in the buffer, however it is escaped. -/
def Small (b : Bytes) : Prop := 2 * b.length ≤ MAX_BUFFER - READ_CHUNK - 1

theorem length_escaped (b : Bytes) : (b.flatMap escape).length ≤ 2 * b.length := by
  induction b with
  | nil => exact Nat.le_refl _
  | cons x b ih =>
    have hx : (escape x).length ≤ 2 := by
      unfold escape
      split <;> simp
    rw [List.flatMap_cons, List.length_append, List.length_cons]
    omega

theorem bounded_frames {ps : List Bytes} (h : ∀ p ∈ ps, Small p) : Bounded (ps.flatMap frame) := by
  induction ps with
  | nil => exact .nil
  | cons p ps ih =>
    obtain ⟨hp, hps⟩ := List.forall_mem_cons.mp h
    have hsplit : (p :: ps).flatMap frame = [] ++ FLAG :: (p.flatMap escape ++ FLAG :: ps.flatMap frame) := by
      rw [List.flatMap_cons, frame_eq]
      simp
    rw [hsplit]
    exact .segment (Nat.zero_le _) (.segment (Nat.le_trans (length_escaped p) hp) (ih hps))

/-- A stream that frames are written behind is at the end of one. -/
theorem ends_of_suffix {w : Bytes} {ps : List Bytes} (h : w <:+ ps.flatMap frame) : w = [] ∨ ∃ w', w = w' ++ [FLAG] := by
  rcases List.eq_nil_or_concat' w with rfl | ⟨w', x, rfl⟩
  · exact .inl rfl
  · rcases List.eq_nil_or_concat' ps with rfl | ⟨init, p, rfl⟩
    · simp at h
    · have hlast : (init ++ [p]).flatMap frame = (init.flatMap frame ++ FLAG :: p.flatMap escape) ++ [FLAG] := by
        rw [List.flatMap_append, List.flatMap_singleton, frame_eq, List.append_assoc]
        rfl
      rw [hlast] at h
      obtain ⟨before, hbefore⟩ := h
      rw [← List.append_assoc] at hbefore
      obtain ⟨-, hx⟩ := List.append_inj' hbefore rfl
      exact .inr ⟨w', by rw [hx]⟩

theorem packets_frame (p : Bytes) : (Delimited.closed FLAG (frame p)).filterMap accepted = [p].filter (· ≠ []) := by
  have hsplit : frame p = [] ++ FLAG :: (p.flatMap escape ++ FLAG :: []) := rfl
  rw [hsplit, Delimited.closed_segment List.not_mem_nil, Delimited.closed_segment (flag_not_mem_escaped p),
    Delimited.closed_of_not_mem List.not_mem_nil, List.filterMap_cons_none rfl]
  by_cases hp : p = []
  · subst hp
    rfl
  · rw [List.filterMap_cons_some (accepted_escaped hp)]
    simp [hp]

theorem packets_write {w : Bytes} (h : w = [] ∨ ∃ w', w = w' ++ [FLAG]) (p : Bytes) :
    packets (w ++ frame p) = packets w ++ [p].filter (· ≠ []) := by
  rcases h with rfl | ⟨w', rfl⟩
  · have hopen : frame p = FLAG :: (p.flatMap escape ++ FLAG :: []) := rfl
    have hclosed := packets_frame p
    have hflag : (Delimited.closed FLAG (frame p)).filterMap accepted = packets (frame p) := by
      rw [hopen, packets_flag, ← List.nil_append (FLAG :: (p.flatMap escape ++ FLAG :: [])),
        Delimited.closed_segment List.not_mem_nil, List.filterMap_cons_none rfl]
    rw [List.nil_append, ← hflag, hclosed]
    rfl
  · rw [List.append_assoc, List.singleton_append, packets, Delimited.between_append, List.filterMap_append, packets_frame]
    rfl

/-! ## From one task to the other -/

/-- The packets that were written to the connection. -/
def writtenBy (k : Nat) (legs : List Leg) : List Bytes := legs.flatMap (Leg.gather (Passage.transmitted? k))

/-- The packets that were taken from it. -/
def takenBy (k : Nat) (legs : List Leg) : List Bytes := (legs.flatMap (Leg.gather (Passage.raised? k))).filterMap Inbound.bytes?

/-- The stream holds the frames that are written and not yet taken. -/
structure Trail (sent taken : List Bytes) (buffer stream : Bytes) : Prop where
  suffix : buffer ++ stream <:+ sent.flatMap frame
  packets : sent.filter (· ≠ []) = taken ++ packets (buffer ++ stream)

variable {sent taken : List Bytes} {buffer stream : Bytes}

theorem Trail.write (h : Trail sent taken buffer stream) (p : Bytes) :
    Trail (sent ++ [p]) taken buffer (stream ++ frame p) := by
  have hjoin : buffer ++ (stream ++ frame p) = buffer ++ stream ++ frame p := (List.append_assoc ..).symm
  constructor
  · obtain ⟨before, hbefore⟩ := h.suffix
    refine ⟨before, ?_⟩
    rw [hjoin, ← List.append_assoc, hbefore, List.flatMap_append, List.flatMap_singleton]
  · rw [hjoin, packets_write (ends_of_suffix h.suffix), List.filter_append, h.packets, List.append_assoc]

theorem Trail.take (h : Trail sent taken buffer stream) {b left : Bytes} (htake : takePacket buffer = (some b, left)) :
    Trail sent (taken ++ [b]) left stream := by
  cases taken_of_eq htake with
  | packet _ suffix hpackets =>
    constructor
    · obtain ⟨before, hbefore⟩ := suffix
      refine .trans ⟨before, ?_⟩ h.suffix
      rw [← hbefore, List.append_assoc]
    · rw [h.packets, hpackets, List.append_assoc]
      rfl

theorem Trail.read (h : Trail sent taken buffer stream) (hsmall : ∀ p ∈ sent, Small p) {left chunk rest : Bytes}
    (htake : takePacket buffer = (none, left)) (hstream : stream = chunk ++ rest) (hlen : chunk.length ≤ READ_CHUNK) :
    Trail sent taken (if (left ++ chunk).length > MAX_BUFFER then [] else left ++ chunk) rest := by
  cases taken_of_eq htake with
  | none suffix hopen hpackets =>
    have hsuffix : left ++ stream <:+ sent.flatMap frame := by
      obtain ⟨before, hbefore⟩ := suffix
      refine .trans ⟨before, ?_⟩ h.suffix
      rw [← hbefore, List.append_assoc]
    -- the frames written are short enough for the buffer
    have hroom := room_for_read hopen hlen ((bounded_frames hsmall).of_suffix hsuffix)
    have hjoin : left ++ chunk ++ rest = left ++ stream := by rw [hstream, List.append_assoc]
    rw [if_neg hroom]
    constructor
    · rwa [hjoin]
    · rw [hjoin, h.packets, hpackets]

/-- What one task writes the other one takes, if nothing fails and the packets are small. -/
theorem trail_run (h : Lts.Run (Connected W port) s₀ tr s) {a b : Side} (hab : a ≠ b)
    (hfresh : (s₀ b).readBuffer = [] ∧ (s₀ b).stream = []) (hunfailed : ∀ l ∈ legsOf a tr, Unfailed (port a).task l)
    (hsmall : ∀ p ∈ writtenBy (port a).task (legsOf a tr), Small p) :
    Trail (writtenBy (port a).task (legsOf a tr)) (takenBy (port b).task (legsOf b tr)) (s b).readBuffer (s b).stream := by
  induction h with
  | nil =>
    rw [hfresh.1, hfresh.2]
    exact ⟨List.nil_suffix, rfl⟩
  | @snoc tr t l u hrun hst ih =>
    rw [legsOf_append] at hunfailed hsmall
    rw [legsOf_append, legsOf_append]
    have hsent (l : Side × Option Leg) : writtenBy (port a).task (legsOf a tr ++ legsOf a [l]) =
        writtenBy (port a).task (legsOf a tr) ++ writtenBy (port a).task (legsOf a [l]) := List.flatMap_append
    have htaken (l : Side × Option Leg) : takenBy (port b).task (legsOf b tr ++ legsOf b [l]) =
        takenBy (port b).task (legsOf b tr) ++ takenBy (port b).task (legsOf b [l]) := by
      rw [takenBy, List.flatMap_append, List.filterMap_append]
      rfl
    rw [hsent] at hsmall
    rw [hsent, htaken]
    have hsmall' (p : Bytes) (hp : p ∈ writtenBy (port a).task (legsOf a tr)) : Small p := hsmall p (List.mem_append_left _ hp)
    have ih := ih (fun l hl => hunfailed l (List.mem_append_left _ hl)) hsmall'
    cases hst with
    | @step side l d buffer written _ hputs htakes =>
      by_cases hside : side = b
      · subst hside
        have hnothing : writtenBy (port a).task [] = [] := rfl
        rw [legsOf_other (Ne.symm hab), legsOf_step, hnothing, List.append_nil]
        dsimp only
        rw [if_pos rfl]
        cases htakes with
        | @packet i p left hraised htake =>
          have hone : takenBy (port side).task [l] = [p] := by simp [takenBy, Leg.gather, hraised, Inbound.bytes?]
          rw [hone]
          exact ih.take htake
        | nothing hnone =>
          have hempty : takenBy (port side).task [l] = [] := by
            rw [takenBy, List.flatMap_singleton, Leg.gather]
            cases hr : l.2.bind (Passage.raised? (port side).task) with
            | none => rfl
            | some m =>
              rw [hr] at hnone
              exact List.filterMap_cons_none hnone
          rw [hempty, List.append_nil]
          exact ih
      · obtain rfl : side = a := Side.eq_of_ne hside hab
        have hnothing : takenBy (port b).task [] = [] := rfl
        rw [legsOf_step, legsOf_other hside, hnothing, List.append_nil]
        dsimp only
        rw [if_neg (Ne.symm hside)]
        have hfailed := hunfailed l (List.mem_append_right _ (by rw [legsOf_step]; exact List.mem_singleton_self l))
        cases hputs with
        | @whole p hp =>
          have hone : writtenBy (port side).task [l] = [p] := by simp [writtenBy, Leg.gather, hp]
          rw [hone]
          exact ih.write p
        | part hp _ => simp [Unfailed, Leg.gather, hp] at hfailed
        | nothing hnone =>
          have hempty : writtenBy (port side).task [l] = [] := by
            rw [writtenBy, List.flatMap_singleton, ← hfailed, Leg.gather, hnone]
            rfl
          rw [hempty, List.append_nil, List.append_nil]
          exact ih
    | @read side t' left chunk rest _ _ htake hstream hlen =>
      have hnothing : writtenBy (port a).task [] = [] ∧ takenBy (port b).task [] = [] := ⟨rfl, rfl⟩
      rw [legsOf_read, legsOf_read, hnothing.1, hnothing.2, List.append_nil, List.append_nil]
      by_cases hside : side = b
      · subst hside
        rw [Function.update_self]
        exact ih.read hsmall' htake hstream hlen.2
      · rw [Function.update_of_ne (Ne.symm hside)]
        exact ih

/-! ## From one node to the other -/

/-- The packets on their way from `a` to `b`, the next one first. -/
def underWay (port : Side → TcpPort) (a b : Side) (s : Side → TcpPeer N) : List Bytes :=
  ((s b).driver.incoming (port b).interface (port b).task).filterMap Inbound.bytes? ++
    packets ((s b).readBuffer ++ (s b).stream) ++
    ((s a).driver.waiting (port a).interface (port a).task).filter (· ≠ [])

/-- What a node leaves for the connection. -/
def leftFor (port : TcpPort) (legs : List Leg) : List Bytes := (legs.flatMap Leg.answered).filterMap (bytesFor port.interface)

/-- What a node is given from it. -/
def givenFrom (port : TcpPort) (legs : List Leg) : List Bytes :=
  ((legs.flatMap (Leg.gather Passage.consumed?)).filterMap (messageFrom port.interface)).filterMap Inbound.bytes?

/-- For as long as the task of the one driver runs and that of the other is the only one of its interface, the
connection is a queue from node to node: what the one leaves for it the other is given, in the same order, each packet
once, and whatever the two drivers do meanwhile. -/
theorem connection_is_a_queue (W : Side → World N) (port : Side → TcpPort) (node : Side → N) (keepAlive : Side → Bool)
    (interfaces : Side → List UInt16) {before : Side → List DriverMove}
    (h₀ : ∀ v, Lts.Run (DriverStep (W v)) (build (node v) (keepAlive v) (interfaces v)) (before v) (s₀ v).driver)
    (h : Lts.Run (Connected W port) s₀ tr s) {a b : Side} (hab : a ≠ b)
    (hfresh : (s₀ b).readBuffer = [] ∧ (s₀ b).stream = [])
    (hstart : (s₀ a).driver.interfaces[(port a).interface]? = some (port a).task)
    (hend : (s a).driver.interfaces[(port a).interface]? = some (port a).task) {t : InterfaceTask}
    (ht : (s a).driver.tasks[(port a).task]? = some t) (hlive : t.Live)
    (hsole : (s b).driver.Sole (port b).interface (port b).task)
    (hsmall : ∀ p ∈ (s₀ a).driver.waiting (port a).interface (port a).task ++ leftFor (port a) (legsOf a tr), Small p) :
    underWay port a b s₀ ++ (leftFor (port a) (legsOf a tr)).filter (· ≠ []) =
      givenFrom (port b) (legsOf b tr) ++ underWay port a b s := by
  obtain ⟨hlt, -, hleft⟩ := offered_in_order (h₀ a) (driver_run h a) hstart hend
  have hunfailed := unfailed_run (driver_run h a) hlt ht hlive
  have hoffered : (s₀ a).driver.waiting (port a).interface (port a).task ++ leftFor (port a) (legsOf a tr) =
      writtenBy (port a).task (legsOf a tr) ++ (s a).driver.waiting (port a).interface (port a).task :=
    hleft.trans (congrArg (· ++ _) (List.flatMap_congr hunfailed))
  have htrail := trail_run h hab hfresh hunfailed fun p hp => hsmall p (hoffered ▸ List.mem_append_left _ hp)
  have hlabelled : (s₀ b).driver.Labelled :=
    (h₀ b).preserve (fun _ _ _ hi hst => hst.labelled hi) (build_labelled _ _ _)
  have harrive := (fifo_incoming (W b) (port b).interface (port b).task).run (sole_run hlabelled (driver_run h b) hsole)
  have hgiven := congrArg (List.filterMap Inbound.bytes?) harrive
  have hleft := congrArg (List.filter fun p : Bytes => p ≠ []) hoffered
  rw [List.filterMap_append, List.filterMap_append, ← List.filterMap_flatMap] at hgiven
  rw [List.filter_append, List.filter_append, htrail.packets] at hleft
  have hnone : packets ((s₀ b).readBuffer ++ (s₀ b).stream) = [] := by
    rw [hfresh.1, hfresh.2]
    rfl
  unfold underWay givenFrom
  rw [hnone, List.append_nil, List.append_assoc, hleft, takenBy, ← List.append_assoc, ← List.append_assoc, hgiven]
  simp only [List.append_assoc]

/-! ## An echo that is passed on -/

def echoPort : Side → TcpPort := fun _ => ⟨0, 0⟩

def echoPeers (near far : TcpPeer Unit) : Side → TcpPeer Unit
  | .near => near
  | .far => far

def echoStart : Side → TcpPeer Unit := echoPeers ⟨answered 2, [], []⟩ ⟨build () false [0], [], []⟩

def echoEnd : Side → TcpPeer Unit :=
  echoPeers ⟨handedOver .select [], [], []⟩
    ⟨(build () false [0]).withTask 0 (burstTask .select []) (.delivering (.packet 0 [7])) [], [FLAG], []⟩

def echoTrace : List (Side × Option Leg) :=
  [(.near, some (.sent, some (.drained (0, [7]) (some 0)))), (.near, some (.task 0, none)),
    (.near, some (.task 0, some (.transmitted 0 [7]))), (.far, none),
    (.far, some (.task 0, some (.arrived 0 (.packet 0 [7]))))]

theorem echo_connected : Lts.Run (Connected (fun _ => burst 2) echoPort) echoStart echoTrace echoEnd := by
  have harrived : Observed (burst 2) (build () false [0]) (.task 0, some (.arrived 0 (.packet 0 [7])))
      ((build () false [0]).withTask 0 (burstTask .select []) (.delivering (.packet 0 [7])) []) :=
    ⟨.task (by decide) rfl (.receive (r := .packet [7]) rfl ⟨[7], rfl⟩), rfl⟩
  have hmove {near far near' far' : TcpPeer Unit} (side : Side) {l : Leg} {d : Driver Unit} {buffer written : Bytes}
      (h : Observed (burst 2) (echoPeers near far side).driver l d) (hputs : Puts 0 l.2 written)
      (htakes : Takes 0 (echoPeers near far side).readBuffer l.2 buffer)
      (hu : ∀ v, echoPeers near' far' v = if v = side then { echoPeers near far v with driver := d, readBuffer := buffer }
        else { echoPeers near far v with stream := (echoPeers near far v).stream ++ written }) :
      Connected (fun _ => burst 2) echoPort (echoPeers near far) (side, some l) (echoPeers near' far') := by
    rw [funext hu]
    exact .step h hputs htakes
  have hempty : takePacket [] = (none, []) := by
    rw [takePacket, takeRound_of_not_mem List.not_mem_nil]
  have htaken : takePacket (frame [7]) = (some [7], [FLAG]) := by
    rw [takePacket]
    rfl
  have hread : Connected (fun _ => burst 2) echoPort
      (echoPeers ⟨handedOver .select [], [], []⟩ ⟨build () false [0], [], frame [7]⟩) (.far, none)
      (echoPeers ⟨handedOver .select [], [], []⟩ ⟨build () false [0], frame [7], []⟩) := by
    refine cast (congrArg (Connected _ _ _ _) ?_) (@Connected.read Unit (fun _ => burst 2) echoPort _ .far
      (burstTask .select []) [] (frame [7]) [] rfl rfl hempty rfl (by decide))
    funext v
    cases v <;> rfl
  have hsent : Connected (fun _ => burst 2) echoPort echoStart (.near, some _)
      (echoPeers ⟨handedOver .select [[7]], [], []⟩ ⟨build () false [0], [], []⟩) :=
    hmove .near burst_handed (.nothing rfl) (.nothing rfl) fun v => by cases v <;> rfl
  have hwriting : Connected (fun _ => burst 2) echoPort
      (echoPeers ⟨handedOver .select [[7]], [], []⟩ ⟨build () false [0], [], []⟩) (.near, some _)
      (echoPeers ⟨handedOver (.sending [7]) [], [], []⟩ ⟨build () false [0], [], []⟩) :=
    hmove .near burst_taken (.nothing rfl) (.nothing rfl) fun v => by cases v <;> rfl
  have hwritten : Connected (fun _ => burst 2) echoPort
      (echoPeers ⟨handedOver (.sending [7]) [], [], []⟩ ⟨build () false [0], [], []⟩) (.near, some _)
      (echoPeers ⟨handedOver .select [], [], []⟩ ⟨build () false [0], [], frame [7]⟩) :=
    hmove .near burst_transmitted (.whole rfl) (.nothing rfl) fun v => by cases v <;> rfl
  have htook : Connected (fun _ => burst 2) echoPort
      (echoPeers ⟨handedOver .select [], [], []⟩ ⟨build () false [0], frame [7], []⟩) (.far, some _) echoEnd :=
    hmove .far harrived (.nothing rfl) (.packet rfl htaken) fun v => by cases v <;> rfl
  exact .cons hsent (.cons hwriting (.cons hwritten (.cons hread (.single htook))))

/-- Of two frames for the connection one has reached the other driver, and one is still with the first. -/
theorem connection_is_a_queue_echo :
    underWay echoPort .near .far echoStart ++ (leftFor (echoPort .near) (legsOf .near echoTrace)).filter (· ≠ []) =
      givenFrom (echoPort .far) (legsOf .far echoTrace) ++ underWay echoPort .near .far echoEnd := by
  let before : Side → List DriverMove
    | .near => [.task 0, .task 0, .received 0 [7] (List.replicate 2 (0, [7])), .emitted]
    | .far => []
  have h₀ (v : Side) : Lts.Run (DriverStep (burst 2)) (build () false [0]) (before v) (echoStart v).driver := by
    cases v with
    | near => exact (burst_run 2).mono fun _ _ _ h => h.2
    | far => exact .nil
  refine connection_is_a_queue (fun _ => burst 2) echoPort (fun _ => ()) (fun _ => false) (fun _ => [0]) h₀ echo_connected nofun
    ⟨rfl, rfl⟩ (by decide) (by decide) (t := burstTask .select []) rfl ⟨nofun, nofun⟩ ?_ ?_
  · intro k t ht
    have hk : k = 0 := Nat.lt_one_iff.mp (List.getElem?_eq_some_iff.mp ht).1
    subst hk
    cases ht
    exact ⟨fun _ => rfl, fun _ => rfl⟩
  · intro p hp
    have hp : p ∈ [[7], [7]] := hp
    obtain rfl : p = [7] := by simpa using hp
    unfold Small
    decide

end

end Reticulum
