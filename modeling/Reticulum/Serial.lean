import Reticulum.Uart
import Reticulum.Lib.Delimited

/-!
# KISS over a serial port

`serial.rs`: the reader thread keeps the segment it is in, or nothing while it
waits for a delimiter. The buffer counts escaped bytes, and it has room for
every packet the medium may carry.
-/

namespace Reticulum

open Delimited Kiss

namespace SerialInterface

def SERIAL_HW_MTU : Nat := 564
def READ_CAPACITY : Nat := SERIAL_HW_MTU * 2 + 3

/-- What the reader tells apart of `io::ErrorKind`. -/
inductive ErrorKind
  | timedOut
  | wouldBlock
  | other
  deriving DecidableEq

/-- One byte: the buffer `framed`, and the packet that is sent to the receiver. An empty buffer waits for a delimiter. -/
def readByte (framed : Bytes) (byte : UInt8) : Bytes × Option Bytes :=
  if byte = FEND then ([FEND], if framed.length ≥ 2 then deframe (framed ++ [FEND]) else none)
  else if framed ≠ [] then
    if framed.length < READ_CAPACITY then (framed ++ [byte], none) else ([], none)
  else (framed, none)

def readChunk (framed : Bytes) : Bytes → Bytes × List Bytes
  | [] => (framed, [])
  | byte :: rest =>
    let (framed, packet) := readByte framed byte
    let (framed, packets) := readChunk framed rest
    (framed, packet.toList ++ packets)

/-- The loop of the reader thread on what the port returns, and what it sends to the receiver. -/
def readLoop (framed : Bytes) : List (Except ErrorKind Bytes) → List (Except ErrorKind Bytes)
  | [] => []
  | .ok chunk :: reads =>
    let (framed, packets) := readChunk framed chunk
    packets.map .ok ++ readLoop framed reads
  | .error .timedOut :: reads => readLoop framed reads
  | .error .wouldBlock :: reads => readLoop framed reads
  | .error .other :: _ => [.error .other]

/-! ## A segment -/

/-- The buffer behind a delimiter and the bytes after it. -/
def held (segment : Bytes) : Bytes := if segment.length < READ_CAPACITY then FEND :: segment else []

/-- What a segment between two delimiters is delivered as. -/
def accepted (segment : Bytes) : Option Bytes :=
  if 1 ≤ segment.length ∧ segment.length ≤ READ_CAPACITY - 1 then deframe (FEND :: (segment ++ [FEND])) else none

/-- A byte of the segment is kept, or it is the one that does not fit and the segment is given up. -/
theorem readByte_held {byte : UInt8} (h : byte ≠ FEND) (segment : Bytes) :
    readByte (held segment) byte = (held (segment ++ [byte]), none) := by
  have hlen : (segment ++ [byte]).length = segment.length + 1 := by simp
  unfold readByte
  rw [if_neg h]
  by_cases hroom : segment.length < READ_CAPACITY
  · have hheld : held segment = FEND :: segment := if_pos hroom
    rw [hheld, if_pos (List.cons_ne_nil FEND segment), List.length_cons]
    by_cases hlast : segment.length + 1 < READ_CAPACITY
    · rw [if_pos hlast, held, hlen, if_pos hlast]
      rfl
    · rw [if_neg hlast, held, hlen, if_neg hlast]
  · have hheld : held segment = [] := if_neg hroom
    rw [hheld, if_neg (not_not_intro rfl), held, hlen, if_neg (by omega)]

/-- The delimiter delivers the segment it closes, and opens the next one. -/
theorem readByte_fend (segment : Bytes) : readByte (held segment) FEND = (held [], accepted segment) := by
  unfold readByte accepted
  rw [if_pos rfl]
  refine Prod.ext rfl ?_
  dsimp only
  by_cases hroom : segment.length < READ_CAPACITY
  · have hheld : held segment = FEND :: segment := if_pos hroom
    rw [hheld, List.length_cons, List.cons_append]
    by_cases hpos : 1 ≤ segment.length
    · rw [if_pos (by omega), if_pos ⟨hpos, by omega⟩]
    · rw [if_neg (by omega), if_neg fun h => hpos h.1]
  · have hheld : held segment = [] := if_neg hroom
    have hpos : 0 < READ_CAPACITY := by decide
    rw [hheld, if_neg (by decide), if_neg (by omega)]

/-! ## A stream -/

theorem readChunk_append (framed a b : Bytes) :
    readChunk framed (a ++ b) = ((readChunk (readChunk framed a).1 b).1, (readChunk framed a).2 ++ (readChunk (readChunk framed a).1 b).2) := by
  induction a generalizing framed with
  | nil => rfl
  | cons byte a ih =>
    simp only [List.cons_append, readChunk, ih, List.append_assoc]

theorem readChunk_held {rest : Bytes} (h : FEND ∉ rest) (segment : Bytes) :
    readChunk (held segment) rest = (held (segment ++ rest), []) := by
  induction rest generalizing segment with
  | nil => rw [List.append_nil, readChunk]
  | cons byte rest ih =>
    obtain ⟨hbyte, hrest⟩ := not_or.mp (List.mem_cons.not.mp h)
    rw [readChunk, readByte_held (Ne.symm hbyte)]
    dsimp only
    rw [ih hrest, List.append_assoc]
    rfl

theorem readChunk_idle {skipped : Bytes} (h : FEND ∉ skipped) : readChunk [] skipped = ([], []) := by
  induction skipped with
  | nil => rfl
  | cons byte skipped ih =>
    obtain ⟨hbyte, hskipped⟩ := not_or.mp (List.mem_cons.not.mp h)
    have hidle : readByte [] byte = ([], none) := by simp [readByte, Ne.symm hbyte]
    rw [readChunk, hidle]
    dsimp only
    rw [ih hskipped]
    rfl

/-- Behind a delimiter every closed segment is delivered, or dropped as a whole. -/
theorem readChunk_closed (stream : Bytes) : (readChunk (held []) stream).2 = (closed FEND stream).filterMap accepted := by
  induction stream using segment_induction (d := FEND) with
  | opened segment h =>
    rw [readChunk_held h, closed_of_not_mem h]
    rfl
  | segment segment rest h ih =>
    rw [readChunk_append, readChunk_held h, List.nil_append, readChunk, readByte_fend, closed_segment h, List.filterMap_cons]
    dsimp only
    rw [ih]
    cases accepted segment <;> rfl

/-- The packets of a stream. -/
def packets (stream : Bytes) : List Bytes := (between FEND stream).filterMap accepted

theorem readChunk_packets (stream : Bytes) : (readChunk [] stream).2 = packets stream := by
  unfold packets
  by_cases hmem : FEND ∈ stream
  · obtain ⟨skipped, rest, rfl, hskipped⟩ := List.eq_append_cons_of_mem hmem
    have hfirst : readByte [] FEND = (held [], none) := rfl
    rw [readChunk_append, readChunk_idle hskipped, readChunk, hfirst, between_segment hskipped]
    exact readChunk_closed rest
  · rw [readChunk_idle hmem, between_of_not_mem hmem]
    rfl

/-! ## Reading -/

/-- The bytes of the reads that returned some. -/
def bytesOf (reads : List (Except ErrorKind Bytes)) : Bytes := reads.flatMap fun read => read.toOption.getD []

/-- No read ends the loop. -/
def Alive (reads : List (Except ErrorKind Bytes)) : Prop := Except.error ErrorKind.other ∉ reads

/-- The loop on some reads and on those after them: how the bytes are cut, and what times out in between, does not matter. -/
theorem readLoop_append {reads : List (Except ErrorKind Bytes)} (h : Alive reads) (framed : Bytes)
    (more : List (Except ErrorKind Bytes)) : readLoop framed (reads ++ more) =
      (readChunk framed (bytesOf reads)).2.map .ok ++ readLoop (readChunk framed (bytesOf reads)).1 more := by
  induction reads generalizing framed with
  | nil => rfl
  | cons read reads ih =>
    obtain ⟨hread, hreads⟩ := not_or.mp (List.mem_cons.not.mp h)
    cases read with
    | ok chunk =>
      have hbytes : bytesOf (.ok chunk :: reads) = chunk ++ bytesOf reads := rfl
      rw [hbytes, readChunk_append, List.cons_append, readLoop]
      dsimp only
      rw [ih hreads, List.map_append, List.append_assoc]
    | error e =>
      have hbytes : bytesOf (.error e :: reads) = bytesOf reads := rfl
      cases e with
      | timedOut => exact hbytes ▸ ih hreads framed
      | wouldBlock => exact hbytes ▸ ih hreads framed
      | other => exact absurd rfl hread

theorem readLoop_eq {reads : List (Except ErrorKind Bytes)} (h : Alive reads) :
    readLoop [] reads = (packets (bytesOf reads)).map .ok := by
  have hloop := readLoop_append h [] []
  rw [List.append_nil, readChunk_packets] at hloop
  rw [hloop]
  exact List.append_nil _

/-! ## Framed packets -/

theorem length_escaped_le (p : Bytes) : (p.flatMap escape).length ≤ 2 * p.length := by
  induction p with
  | nil => exact Nat.le_refl 0
  | cons b p ih =>
    have hb : (escape b).length ≤ 2 := by
      unfold escape
      split
      · exact Nat.le_refl 2
      · split
        · exact Nat.le_refl 2
        · exact Nat.le_succ 1
    rw [List.flatMap_cons, List.length_append, List.length_cons]
    omega

theorem accepted_frame {p : Bytes} (h : p.length ≤ SERIAL_HW_MTU) : accepted (CMD_DATA :: p.flatMap escape) = some p := by
  have hlen := length_escaped_le p
  have hconst : 1 + 2 * SERIAL_HW_MTU ≤ READ_CAPACITY - 1 := by decide
  have hframe := deframe_frame p
  rw [frame_eq, ← List.cons_append] at hframe
  rw [accepted, if_pos ⟨by simp, by rw [List.length_cons]; omega⟩, hframe]

theorem packets_frame (garbage : Bytes) {p : Bytes} (h : p.length ≤ SERIAL_HW_MTU) (after : Bytes) :
    packets (garbage ++ (frame p ++ after)) = packets (garbage ++ [FEND]) ++ p :: packets (FEND :: after) := by
  have hsplit : frame p ++ after = FEND :: ((CMD_DATA :: p.flatMap escape) ++ FEND :: after) := by
    rw [frame_eq]
    simp
  have hseg : FEND ∉ CMD_DATA :: p.flatMap escape := by
    rw [List.mem_cons, not_or]
    exact ⟨by decide, fend_not_mem_escaped p⟩
  have hafter : between FEND (FEND :: after) = closed FEND after := between_segment (List.not_mem_nil (a := FEND)) after
  rw [packets, packets, packets, hsplit, between_append, closed_segment hseg, List.filterMap_append, List.filterMap_cons,
    accepted_frame h, hafter]

/-- The reader delivers the segments that are not longer than its buffer, each as the frame decoder has it, until a read
fails, and so every framed packet the medium may carry, whatever it holds and whatever comes before and after it. -/
theorem reader_lossless :
    (∀ reads : List (Except ErrorKind Bytes), Alive reads →
      readLoop [] reads = ((between FEND (bytesOf reads)).filterMap accepted).map .ok) ∧
    (∀ reads more : List (Except ErrorKind Bytes), Alive reads →
      readLoop [] (reads ++ .error .other :: more) = readLoop [] reads ++ [.error .other]) ∧
    ∀ (reads : List (Except ErrorKind Bytes)) (garbage p after : Bytes), Alive reads →
      bytesOf reads = garbage ++ (frame p ++ after) → 1 ≤ p.length → p.length ≤ SERIAL_HW_MTU →
      readLoop [] reads = (packets (garbage ++ [FEND]) ++ p :: packets (FEND :: after)).map .ok := by
  refine ⟨fun reads h => readLoop_eq h, fun reads more h => ?_, fun reads garbage p after h hstream _ hlen => ?_⟩
  · rw [readLoop_append h, readLoop_eq h, readChunk_packets]
    rfl
  · rw [readLoop_eq h, hstream, packets_frame garbage hlen after]

/-- A frame in three reads, with nothing to read in between. -/
def pieces : List (Except ErrorKind Bytes) :=
  [.ok [0x11, FEND, CMD_DATA, 1], .error .timedOut, .ok [FESC], .error .wouldBlock, .ok [TFEND, FEND]]

theorem reader_lossless_pieces :
    readLoop [] pieces = [.ok [1, FEND]] ∧ readLoop [] (pieces ++ [.error .other, .ok (frame [2])]) = [.ok [1, FEND], .error .other] := by
  obtain ⟨-, hfailed, hframe⟩ := reader_lossless
  have halive : Alive pieces := by simp [Alive, pieces]
  have hread : readLoop [] pieces = [.ok [1, FEND]] := by
    rw [hframe pieces [0x11] [1, FEND] [] halive (by decide) (by decide) (by decide)]
    decide
  refine ⟨hread, ?_⟩
  rw [hfailed pieces [.ok (frame [2])] halive, hread]
  rfl

end SerialInterface

end Reticulum
