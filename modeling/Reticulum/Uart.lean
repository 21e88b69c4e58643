import Reticulum.Framing
import Reticulum.Lib.Delimited

/-!
# KISS over a serial line

`kiss.rs` decodes one whole frame, `uart.rs` a stream byte by byte with six
fields of state. Between two delimiters the two do the same, whatever the
state of the stream decoder was before the first of them.
-/

namespace Reticulum

namespace Kiss

/-- The loop of `deframe`, with its two variables. -/
def unescape (out : Bytes) (escaped : Bool) : Bytes → Option Bytes
  | [] => if escaped then none else some out
  | byte :: rest =>
    if escaped then
      if byte = TFEND then unescape (out ++ [FEND]) false rest
      else if byte = TFESC then unescape (out ++ [FESC]) false rest
      else none
    else if byte = FESC then unescape out true rest
    else if byte = FEND then none
    else unescape (out ++ [byte]) false rest

/-- Decode one complete KISS data frame. -/
def deframe (framed : Bytes) : Option Bytes :=
  match framed with
  | first :: command :: third :: rest =>
    if first ≠ FEND ∨ framed.getLast? ≠ some FEND then none
    else if command &&& 0x0F ≠ CMD_DATA then none
    else unescape [] false (third :: rest).dropLast
  | _ => none

/-! ## One frame -/

/-- What `frame` writes for a byte. -/
def escape (b : UInt8) : Bytes :=
  if b = FEND then [FESC, TFEND] else if b = FESC then [FESC, TFESC] else [b]

theorem frame_eq (data : Bytes) : frame data = FEND :: CMD_DATA :: (data.flatMap escape ++ [FEND]) := rfl

theorem fend_ne_fesc : FEND ≠ FESC := by decide

theorem tfend_ne : TFEND ≠ FEND := by decide

theorem tfesc_ne : TFESC ≠ FEND ∧ TFESC ≠ TFEND := by decide

theorem fend_not_mem_escape (b : UInt8) : FEND ∉ escape b := by
  unfold escape
  split
  · decide
  · split
    · decide
    · rename_i h _
      simpa using Ne.symm h

theorem fend_not_mem_escaped (data : Bytes) : FEND ∉ data.flatMap escape := by
  intro h
  obtain ⟨b, -, hb⟩ := List.mem_flatMap.mp h
  exact fend_not_mem_escape b hb

/-- Each byte comes back from what is written for it. -/
theorem unescape_escaped (data out : Bytes) : unescape out false (data.flatMap escape) = some (out ++ data) := by
  induction data generalizing out with
  | nil => simp [unescape]
  | cons b data ih =>
    rw [List.flatMap_cons]
    by_cases hend : b = FEND
    · subst hend
      change unescape (out ++ [FEND]) false (data.flatMap escape) = _
      rw [ih, List.append_assoc]
      rfl
    · by_cases hesc : b = FESC
      · subst hesc
        change unescape (out ++ [FESC]) false (data.flatMap escape) = _
        rw [ih, List.append_assoc]
        rfl
      · rw [escape, if_neg hend, if_neg hesc, List.singleton_append, unescape, if_neg Bool.false_ne_true, if_neg hesc, if_neg hend,
          ih, List.append_assoc]
        rfl

/-- A segment between two delimiters: a command byte that names a data frame, and the escaped data. -/
theorem deframe_segment (segment : Bytes) :
    deframe (FEND :: (segment ++ [FEND])) = match segment with
      | [] => none
      | command :: rest => if command &&& 0x0F ≠ CMD_DATA then none else unescape [] false rest := by
  cases segment with
  | nil => rfl
  | cons command rest =>
    have hlast : (FEND :: command :: (rest ++ [FEND])).getLast? = some FEND := by
      rw [List.getLast?_cons_cons, List.getLast?_cons_of_ne_nil (by simp), List.getLast?_concat]
    have hdrop : (rest ++ [FEND]).dropLast = rest := List.dropLast_concat
    change deframe (FEND :: command :: (rest ++ [FEND])) = _
    obtain ⟨third, rest', heq⟩ := List.exists_cons_of_ne_nil (List.append_ne_nil_of_right_ne_nil rest (List.cons_ne_nil FEND []))
    rw [heq] at hlast hdrop ⊢
    unfold deframe
    dsimp only
    rw [if_neg (by simp [hlast]), hdrop]

theorem deframe_frame (data : Bytes) : deframe (frame data) = some data := by
  rw [frame_eq]
  change deframe (FEND :: ((CMD_DATA :: data.flatMap escape) ++ [FEND])) = _
  rw [deframe_segment]
  dsimp only
  rw [if_neg (by decide), unescape_escaped, List.nil_append]

theorem length_le_of_unescape {out rest data : Bytes} {escaped : Bool} (h : unescape out escaped rest = some data) :
    out.length ≤ data.length := by
  induction rest generalizing out escaped with
  | nil =>
    unfold unescape at h
    split at h
    · cases h
    · cases h
      exact Nat.le_refl _
  | cons byte rest ih =>
    have hgrow {b : UInt8} (h : (out ++ [b]).length ≤ data.length) : out.length ≤ data.length := by
      rw [List.length_append] at h
      exact Nat.le_trans (Nat.le_add_right _ _) h
    unfold unescape at h
    split at h
    · split at h
      · exact hgrow (ih h)
      · split at h
        · exact hgrow (ih h)
        · cases h
    · split at h
      · exact ih h
      · split at h
        · cases h
        · exact hgrow (ih h)

end Kiss

open Kiss

/-! ## The stream decoder -/

structure KissStreamDecoder where
  packet : Bytes
  maxPacketLen : Nat
  inFrame : Bool
  hasCommand : Bool
  escaped : Bool
  invalid : Bool
  deriving DecidableEq

namespace KissStreamDecoder

def new (maxPacketLen : Nat) : KissStreamDecoder where
  packet := []
  maxPacketLen := maxPacketLen
  inFrame := false
  hasCommand := false
  escaped := false
  invalid := false

/-- The end of `push`: one more byte of the packet, if there is room for it. -/
def append (s : KissStreamDecoder) (decoded : UInt8) : KissStreamDecoder :=
  if s.packet.length = s.maxPacketLen then { s with packet := [], invalid := true }
  else { s with packet := s.packet ++ [decoded] }

/-- Consume one serial byte, returning a complete port-zero data packet. -/
def push (s : KissStreamDecoder) (byte : UInt8) : KissStreamDecoder × Option Bytes :=
  if byte = FEND then
    let complete :=
      if s.inFrame ∧ s.hasCommand ∧ ¬ s.escaped ∧ ¬ s.invalid ∧ s.packet ≠ [] then some s.packet else none
    ({ s with packet := [], inFrame := true, hasCommand := false, escaped := false, invalid := false }, complete)
  else if ¬ s.inFrame ∨ s.invalid then (s, none)
  else if ¬ s.hasCommand then ({ s with hasCommand := true, invalid := byte &&& 0x0f ≠ CMD_DATA }, none)
  else if s.escaped then
    let s := { s with escaped := false }
    if byte = TFEND then (s.append FEND, none)
    else if byte = TFESC then (s.append FESC, none)
    else ({ s with invalid := true }, none)
  else if byte = FESC then ({ s with escaped := true }, none)
  else (s.append byte, none)

/-- A stream pushed byte by byte, with what every push returned. -/
def pushAll (s : KissStreamDecoder) : Bytes → KissStreamDecoder × List (Option Bytes)
  | [] => (s, [])
  | byte :: rest =>
    let (s, returned) := s.push byte
    let (s, more) := s.pushAll rest
    (s, returned :: more)

/-- The packets returned for a stream, in order. -/
def packets (s : KissStreamDecoder) (stream : Bytes) : List Bytes := (s.pushAll stream).2.filterMap id

/-! ## One byte -/

variable {s : KissStreamDecoder} {max : Nat}

/-- Behind a delimiter. -/
def opened (max : Nat) : KissStreamDecoder := { new max with inFrame := true }

/-- Behind the command byte of a data frame. -/
def reading (max : Nat) (out : Bytes) (escaped : Bool) : KissStreamDecoder where
  packet := out
  maxPacketLen := max
  inFrame := true
  hasCommand := true
  escaped := escaped
  invalid := false

theorem push_fend (s : KissStreamDecoder) : (s.push FEND).1 = opened s.maxPacketLen := by
  unfold push
  rw [if_pos rfl]
  rfl

/-- Nothing is returned before a delimiter. -/
theorem push_snd_of_ne {byte : UInt8} (h : byte ≠ FEND) (s : KissStreamDecoder) : (s.push byte).2 = none := by
  unfold push
  rw [if_neg h]
  split
  · rfl
  · split
    · rfl
    · split
      · dsimp only
        split
        · rfl
        · split <;> rfl
      · split <;> rfl

theorem push_fend_snd_of_invalid (h : s.invalid = true) : (s.push FEND).2 = none := by
  simp [push, h]

theorem push_of_invalid {byte : UInt8} (hb : byte ≠ FEND) (h : s.invalid = true) : (s.push byte).1 = s := by
  unfold push
  rw [if_neg hb, if_pos (.inr h)]

theorem append_cases (s : KissStreamDecoder) (b : UInt8) :
    (s.packet.length = s.maxPacketLen ∧ s.append b = { s with packet := [], invalid := true }) ∨
    (s.packet.length ≠ s.maxPacketLen ∧ s.append b = { s with packet := s.packet ++ [b] }) := by
  unfold append
  by_cases h : s.packet.length = s.maxPacketLen
  · exact .inl ⟨h, if_pos h⟩
  · exact .inr ⟨h, if_neg h⟩

theorem push_bounded (h : s.packet.length ≤ s.maxPacketLen) (byte : UInt8) :
    (s.push byte).1.packet.length ≤ s.maxPacketLen ∧ (s.push byte).1.maxPacketLen = s.maxPacketLen := by
  have happend (s : KissStreamDecoder) (h : s.packet.length ≤ s.maxPacketLen) (b : UInt8) :
      (s.append b).packet.length ≤ s.maxPacketLen ∧ (s.append b).maxPacketLen = s.maxPacketLen := by
    rcases s.append_cases b with ⟨-, heq⟩ | ⟨hne, heq⟩
    · rw [heq]
      exact ⟨Nat.zero_le _, rfl⟩
    · rw [heq, List.length_append, List.length_singleton]
      exact ⟨by omega, rfl⟩
  unfold push
  split
  · exact ⟨Nat.zero_le _, rfl⟩
  · split
    · exact ⟨h, rfl⟩
    · split
      · exact ⟨h, rfl⟩
      · split
        · dsimp only
          split
          · exact happend { s with escaped := false } h FEND
          · split
            · exact happend { s with escaped := false } h FESC
            · exact ⟨h, rfl⟩
        · split
          · exact ⟨h, rfl⟩
          · exact happend s h byte

/-! ## A segment -/

theorem pushAll_cons (s : KissStreamDecoder) (x : UInt8) (b : Bytes) :
    s.pushAll (x :: b) = (((s.push x).1.pushAll b).1, (s.push x).2 :: ((s.push x).1.pushAll b).2) := rfl

theorem pushAll_append (s : KissStreamDecoder) (a b : Bytes) :
    s.pushAll (a ++ b) = (((s.pushAll a).1.pushAll b).1, (s.pushAll a).2 ++ ((s.pushAll a).1.pushAll b).2) := by
  induction a generalizing s with
  | nil => rfl
  | cons x a ih =>
    rw [List.cons_append, pushAll_cons, pushAll_cons, ih]
    rfl

theorem pushAll_concat (s : KissStreamDecoder) (a : Bytes) (x : UInt8) :
    s.pushAll (a ++ [x]) = (((s.pushAll a).1.push x).1, (s.pushAll a).2 ++ [((s.pushAll a).1.push x).2]) :=
  s.pushAll_append a [x]

@[simp] theorem length_pushAll (s : KissStreamDecoder) (b : Bytes) : (s.pushAll b).2.length = b.length := by
  induction b generalizing s with
  | nil => rfl
  | cons x b ih =>
    rw [pushAll_cons, List.length_cons, List.length_cons, ih]

theorem pushAll_bounded (h : s.packet.length ≤ s.maxPacketLen) (b : Bytes) :
    (s.pushAll b).1.packet.length ≤ s.maxPacketLen ∧ (s.pushAll b).1.maxPacketLen = s.maxPacketLen := by
  induction b generalizing s with
  | nil => exact ⟨h, rfl⟩
  | cons x b ih =>
    obtain ⟨hlen, hmax⟩ := push_bounded h x
    rw [← hmax] at hlen
    have hrest := ih hlen
    rw [hmax] at hrest
    exact hrest

theorem packets_of_not_mem {b : Bytes} (h : FEND ∉ b) (s : KissStreamDecoder) : s.packets b = [] := by
  induction b generalizing s with
  | nil => rfl
  | cons x b ih =>
    obtain ⟨hx, hb⟩ := not_or.mp (List.mem_cons.not.mp h)
    have hnone := push_snd_of_ne (Ne.symm hx) s
    have hrest := ih hb (s.push x).1
    unfold packets at hrest ⊢
    rw [pushAll_cons, hnone, List.filterMap_cons_none rfl, hrest]

theorem pushAll_of_invalid {b : Bytes} (hb : FEND ∉ b) (h : s.invalid = true) : (s.pushAll b).1 = s := by
  induction b with
  | nil => rfl
  | cons x b ih =>
    obtain ⟨hx, hb⟩ := not_or.mp (List.mem_cons.not.mp hb)
    have hsame := push_of_invalid (Ne.symm hx) h
    rw [pushAll_cons, hsame]
    exact ih hb

/-- A packet as the stream decoder lets it through. -/
def fits (max : Nat) (p : Bytes) : Bool := p ≠ [] ∧ p.length ≤ max

theorem filter_fits_eq_none {out rest : Bytes} {escaped : Bool} (h : max < out.length) :
    (unescape out escaped rest).filter (fits max) = none := by
  cases hu : unescape out escaped rest with
  | none => rfl
  | some data =>
    have hle := length_le_of_unescape hu
    rw [Option.filter_some, if_neg]
    simp only [fits, decide_eq_true_eq, not_and, Nat.not_le]
    intro _
    omega

/-- What the decoder returns at the delimiter is what the loop of the frame decoder makes of the rest. -/
theorem reading_returns {out rest : Bytes} (escaped : Bool) (hout : out.length ≤ max) (hrest : FEND ∉ rest) :
    (((reading max out escaped).pushAll rest).1.push FEND).2 = (unescape out escaped rest).filter (fits max) := by
  induction rest generalizing out escaped with
  | nil =>
    cases escaped with
    | true => rfl
    | false =>
      rw [unescape, if_neg Bool.false_ne_true, Option.filter_some]
      by_cases hne : out = []
      · subst hne
        rfl
      · simp [pushAll, push, reading, fits, hne, hout]
  | cons byte rest ih =>
    obtain ⟨hbyte, hrest⟩ := not_or.mp (List.mem_cons.not.mp hrest)
    have hbyte : byte ≠ FEND := Ne.symm hbyte
    -- a decoded byte goes into the buffer, or finds it full
    have hdecoded (b : UInt8) (hp : ((reading max out escaped).push byte).1 = (reading max out false).append b) :
        (((reading max out escaped).pushAll (byte :: rest)).1.push FEND).2 =
          (unescape (out ++ [b]) false rest).filter (fits max) := by
      rw [pushAll_cons, hp]
      rcases (reading max out false).append_cases b with ⟨hfull, heq⟩ | ⟨hroom, heq⟩
      · have hlong : max < (out ++ [b]).length := by
          have : out.length = max := hfull
          rw [List.length_append, List.length_singleton]
          omega
        rw [heq, pushAll_of_invalid hrest rfl, filter_fits_eq_none hlong]
        exact push_fend_snd_of_invalid rfl
      · have hshort : (out ++ [b]).length ≤ max := by
          have : out.length ≠ max := hroom
          rw [List.length_append, List.length_singleton]
          omega
        rw [heq]
        exact ih false hshort hrest
    cases escaped with
    | true =>
      rw [unescape, if_pos rfl]
      by_cases hend : byte = TFEND
      · rw [if_pos hend]
        exact hdecoded FEND (by simp [push, reading, hend, tfend_ne])
      · rw [if_neg hend]
        by_cases hesc : byte = TFESC
        · rw [if_pos hesc]
          exact hdecoded FESC (by simp [push, reading, hesc, tfesc_ne.1, tfesc_ne.2])
        · rw [if_neg hesc]
          have hp : ((reading max out true).push byte).1 = { reading max out false with invalid := true } := by
            simp [push, reading, hbyte, hend, hesc]
          rw [pushAll_cons, hp, pushAll_of_invalid hrest rfl]
          exact push_fend_snd_of_invalid rfl
    | false =>
      rw [unescape, if_neg Bool.false_ne_true]
      by_cases hesc : byte = FESC
      · rw [if_pos hesc]
        have hp : ((reading max out false).push byte).1 = reading max out true := by
          simp [push, reading, hesc, fend_ne_fesc.symm]
        rw [pushAll_cons, hp]
        exact ih true hout hrest
      · rw [if_neg hesc, if_neg hbyte]
        exact hdecoded byte (by simp [push, reading, hbyte, hesc])

/-- What the frame decoder makes of a segment between its two delimiters, if the stream decoder has room for it. -/
def accepted (max : Nat) (segment : Bytes) : Option Bytes := (deframe (FEND :: (segment ++ [FEND]))).filter (fits max)

/-- From one delimiter to the next. -/
theorem opened_returns {segment : Bytes} (hseg : FEND ∉ segment) :
    (((opened max).pushAll segment).1.push FEND).2 = accepted max segment := by
  rw [accepted, deframe_segment]
  cases segment with
  | nil => rfl
  | cons command rest =>
    obtain ⟨hcommand, hrest⟩ := not_or.mp (List.mem_cons.not.mp hseg)
    have hcommand : command ≠ FEND := Ne.symm hcommand
    have hp : ((opened max).push command).1 =
        { reading max [] false with invalid := command &&& 0x0F ≠ CMD_DATA } := by
      simp [push, opened, new, reading, hcommand]
    rw [pushAll_cons, hp]
    dsimp only
    by_cases hdata : command &&& 0x0F = CMD_DATA
    · rw [if_neg (not_not.mpr hdata)]
      have hvalid : decide (command &&& 0x0F ≠ CMD_DATA) = false := by simpa using hdata
      rw [hvalid]
      exact reading_returns false (Nat.zero_le max) hrest
    · have hinvalid : decide (command &&& 0x0F ≠ CMD_DATA) = true := by simpa using hdata
      rw [if_pos hdata, hinvalid, pushAll_of_invalid hrest rfl]
      exact push_fend_snd_of_invalid rfl

/-! ## A stream -/

theorem packets_append (s : KissStreamDecoder) (a b : Bytes) :
    s.packets (a ++ b) = s.packets a ++ (s.pushAll a).1.packets b := by
  unfold packets
  rw [pushAll_append, List.filterMap_append]

theorem packets_cons (s : KissStreamDecoder) (x : UInt8) (b : Bytes) :
    s.packets (x :: b) = (s.push x).2.toList ++ (s.push x).1.packets b := by
  unfold packets
  rw [pushAll_cons, List.filterMap_cons]
  cases (s.push x).2 <;> rfl

/-- Whatever the decoder went through, a delimiter opens the next segment. -/
theorem pushAll_opened (h : s.packet.length ≤ s.maxPacketLen) (b : Bytes) :
    (s.pushAll (b ++ [FEND])).1 = opened s.maxPacketLen := by
  rw [pushAll_concat, push_fend, (pushAll_bounded h b).2]

theorem opened_packets_cons {segment : Bytes} (hseg : FEND ∉ segment) (rest : Bytes) :
    (opened max).packets (segment ++ FEND :: rest) = (accepted max segment).toList ++ (opened max).packets rest := by
  have hmax := (pushAll_bounded (s := opened max) (Nat.zero_le max) segment).2
  rw [packets_append, packets_of_not_mem hseg, packets_cons, opened_returns hseg, push_fend, hmax, List.nil_append]
  rfl

/-- Behind a delimiter: segment after segment, the last one being open. -/
theorem opened_packets (max : Nat) (stream : Bytes) :
    (opened max).packets stream = (Delimited.closed FEND stream).filterMap (accepted max) := by
  induction stream using Delimited.segment_induction (d := FEND) with
  | opened segment hseg =>
    rw [packets_of_not_mem hseg, Delimited.closed_of_not_mem hseg]
    rfl
  | segment segment rest hseg ih =>
    rw [opened_packets_cons hseg, ih, Delimited.closed_segment hseg, List.filterMap_cons]
    cases accepted max segment <;> rfl

theorem new_push_fend (max : Nat) {before : Bytes} (h : FEND ∉ before) :
    (((new max).pushAll before).1.push FEND).2 = none := by
  have hidle : ((new max).pushAll before).1 = new max := by
    induction before with
    | nil => rfl
    | cons x before ih =>
      obtain ⟨hx, hbefore⟩ := not_or.mp (List.mem_cons.not.mp h)
      have hsame : ((new max).push x).1 = new max := by simp [push, new, Ne.symm hx]
      rw [pushAll_cons, hsame]
      exact ih hbefore
  rw [hidle]
  rfl

theorem new_packets (max : Nat) (stream : Bytes) :
    (new max).packets stream = (Delimited.between FEND stream).filterMap (accepted max) := by
  by_cases hmem : FEND ∈ stream
  · obtain ⟨skipped, rest, rfl, hskipped⟩ := List.eq_append_cons_of_mem hmem
    have hmax := (pushAll_bounded (s := new max) (Nat.zero_le max) skipped).2
    rw [packets_append, packets_of_not_mem hskipped, packets_cons, new_push_fend max hskipped, push_fend, hmax,
      Delimited.between_segment hskipped]
    exact opened_packets max rest
  · rw [packets_of_not_mem hmem, Delimited.between_of_not_mem hmem]
    rfl

/-- Framed packets come out one by one, behind what the first delimiter closes. -/
theorem packets_frames (h : s.packet.length ≤ s.maxPacketLen) (ps : List Bytes)
    (hps : ∀ p ∈ ps, 1 ≤ p.length ∧ p.length ≤ s.maxPacketLen) :
    s.packets (ps.flatMap frame) = s.packets ((ps.flatMap frame).take 1) ++ ps := by
  induction ps generalizing s with
  | nil => rfl
  | cons p ps ih =>
    obtain ⟨hp, hps⟩ := List.forall_mem_cons.mp hps
    have hseg : FEND ∉ CMD_DATA :: p.flatMap escape := by
      rw [List.mem_cons, not_or]
      exact ⟨by decide, fend_not_mem_escaped p⟩
    have haccepted : accepted s.maxPacketLen (CMD_DATA :: p.flatMap escape) = some p := by
      have hfits : fits s.maxPacketLen p = true := by
        simp only [fits, decide_eq_true_eq]
        exact ⟨List.length_pos_iff.mp hp.1, hp.2⟩
      have hframe := deframe_frame p
      rw [frame_eq, ← List.cons_append] at hframe
      rw [accepted, hframe, Option.filter_some, if_pos hfits]
    have hrest := ih (s := opened s.maxPacketLen) (Nat.zero_le _) hps
    have hfirst : (opened s.maxPacketLen).packets ((ps.flatMap frame).take 1) = [] := by
      cases ps <;> rfl
    rw [hfirst, List.nil_append] at hrest
    have hsplit : (p :: ps).flatMap frame = FEND :: ((CMD_DATA :: p.flatMap escape) ++ FEND :: ps.flatMap frame) := by
      rw [List.flatMap_cons, frame_eq]
      simp
    rw [hsplit, packets_cons, push_fend, opened_packets_cons hseg, haccepted, hrest, List.take_succ_cons, List.take_zero,
      packets_cons]
    simp [packets, pushAll]

/-- On every stream the stream decoder returns what the frame decoder makes of each segment, when its delimiter
comes, and keeps within its buffer; so every packet that fits comes through, whatever came before. -/
theorem equals_frame_decoder (max : Nat) :
    (∀ stream : Bytes, (new max).packets stream = (stream.splitOn FEND).tail.dropLast.filterMap (accepted max)) ∧
    (∀ stream : Bytes, ((new max).pushAll stream).1.packet.length ≤ max) ∧
    (∀ (before : Bytes) (byte : UInt8), byte ≠ FEND → (((new max).pushAll before).1.push byte).2 = none) ∧
    (∀ before : Bytes, FEND ∉ before → (((new max).pushAll before).1.push FEND).2 = none) ∧
    (∀ before segment : Bytes, FEND ∉ segment →
      (((new max).pushAll (before ++ FEND :: segment)).1.push FEND).2 = accepted max segment) ∧
    (∀ (garbage : Bytes) (ps : List Bytes), (∀ p ∈ ps, 1 ≤ p.length ∧ p.length ≤ max) →
      (new max).packets (garbage ++ ps.flatMap frame) =
        (new max).packets (garbage ++ (ps.flatMap frame).take 1) ++ ps) ∧
    (∀ p : Bytes, deframe (frame p) = some p) := by
  have hempty : (new max).packet.length ≤ (new max).maxPacketLen := Nat.zero_le max
  refine ⟨new_packets max, fun stream => (pushAll_bounded hempty stream).1, ?_, fun _ h => new_push_fend max h, ?_, ?_,
    deframe_frame⟩
  · intro before byte hbyte
    exact push_snd_of_ne hbyte _
  · intro before segment hseg
    have hopen := pushAll_opened hempty before
    rw [← List.singleton_append, ← List.append_assoc, pushAll_append, hopen]
    exact opened_returns hseg
  · intro garbage ps hps
    obtain ⟨hlen, hmax⟩ := pushAll_bounded hempty garbage
    rw [← hmax] at hlen
    rw [packets_append, packets_append, List.append_assoc, packets_frames hlen ps (by rw [hmax]; exact hps)]

/-- Noise in front, then two frames whose packets hold a delimiter and an escape byte. -/
theorem equals_frame_decoder_escaped :
    (((new 4).pushAll [0x11, FEND]).1.push CMD_DATA).2 = none ∧
    (((new 4).pushAll [0x11]).1.push FEND).2 = none ∧
    (((new 4).pushAll ([0x11] ++ FEND :: [CMD_DATA, 1, FESC, TFEND])).1.push FEND).2 = some [1, FEND] ∧
    (new 4).packets ([0x11, FEND, 9] ++ [[FEND, 1], [2, 3, FESC, 4]].flatMap frame) = [[FEND, 1], [2, 3, FESC, 4]] := by
  obtain ⟨-, -, hbyte, hfirst, hsegment, hframes, -⟩ := equals_frame_decoder 4
  refine ⟨hbyte [0x11, FEND] CMD_DATA (by decide), hfirst [0x11] (by decide), ?_, ?_⟩
  · rw [hsegment [0x11] [CMD_DATA, 1, FESC, TFEND] (by decide)]
    decide
  · rw [hframes [0x11, FEND, 9] [[FEND, 1], [2, 3, FESC, 4]] (by decide)]
    decide

end KissStreamDecoder

end Reticulum
