import Reticulum.Framing
import Reticulum.Lib.Delimited

/-!
# HDLC over TCP

`hdlc.rs` decodes one whole frame; `tcp.rs` keeps a buffer of what it has
read and takes frames from its front. The flag that closes a frame stays in
the buffer and opens the next one, so the packets are those of the segments
of the stream, however it was read.
-/

namespace Reticulum

open Delimited

namespace Hdlc

/-- The loop of `deframe`, with its two variables. -/
def unescape (out : Bytes) (esc : Bool) : Bytes → Option Bytes
  | [] => if esc then none else some out
  | b :: rest =>
    if esc then unescape (out ++ [b ^^^ ESC_MASK]) false rest
    else if b = ESC then unescape out true rest
    else if b = FLAG then none
    else unescape (out ++ [b]) false rest

/-- Decode a single well-formed frame. -/
def deframe (framed : Bytes) : Option Bytes :=
  if framed.length < 2 ∨ framed.head? ≠ some FLAG ∨ framed.getLast? ≠ some FLAG then none
  else unescape [] false ((framed.drop 1).take (framed.length - 2))

/-! ## One frame -/

/-- What a segment between two flags stands for: an escape byte changes the byte behind it, and needs one. -/
def contents : Bytes → Option Bytes
  | [] => some []
  | [b] => if b = ESC then none else some [b]
  | b :: c :: rest => if b = ESC then (contents rest).map ((c ^^^ ESC_MASK) :: ·) else (contents (c :: rest)).map (b :: ·)

/-- What `frame` writes for a byte. -/
def escape (b : UInt8) : Bytes := if b = FLAG ∨ b = ESC then [ESC, b ^^^ ESC_MASK] else [b]

theorem frame_eq (data : Bytes) : frame data = FLAG :: (data.flatMap escape ++ [FLAG]) := rfl

theorem flag_not_mem_escape (b : UInt8) : FLAG ∉ escape b := by
  unfold escape
  split
  · rename_i h
    rcases h with rfl | rfl <;> decide
  · rename_i h
    rw [List.mem_singleton]
    exact fun hb => h (.inl hb.symm)

theorem flag_not_mem_escaped (data : Bytes) : FLAG ∉ data.flatMap escape := by
  intro h
  obtain ⟨b, -, hb⟩ := List.mem_flatMap.mp h
  exact flag_not_mem_escape b hb

theorem contents_cons {b : UInt8} (h : b ≠ ESC) (rest : Bytes) : contents (b :: rest) = (contents rest).map (b :: ·) := by
  cases rest with
  | nil => simp [contents, h]
  | cons c rest => rw [contents, if_neg h]

/-- Each byte comes back from what is written for it. -/
theorem contents_escaped (data : Bytes) : contents (data.flatMap escape) = some data := by
  induction data with
  | nil => rfl
  | cons b data ih =>
    rw [List.flatMap_cons]
    by_cases hb : b = FLAG ∨ b = ESC
    · have hback : b ^^^ ESC_MASK ^^^ ESC_MASK = b := by
        rw [UInt8.xor_assoc, UInt8.xor_self, UInt8.xor_zero]
      rw [escape, if_pos hb]
      change contents (ESC :: (b ^^^ ESC_MASK) :: data.flatMap escape) = _
      rw [contents, if_pos rfl, ih, Option.map_some, hback]
    · rw [escape, if_neg hb, List.singleton_append, contents_cons (fun h => hb (.inr h)), ih, Option.map_some]

/-- The loop returns the contents of a segment, behind what it has. -/
theorem unescape_eq {segment : Bytes} (h : FLAG ∉ segment) (out : Bytes) :
    unescape out false segment = (contents segment).map (out ++ ·) := by
  induction segment using contents.induct generalizing out with
  | case1 => simp [unescape, contents]
  | case2 => simp [unescape, contents]
  | case3 b hb =>
    have hflag : b ≠ FLAG := fun heq => h (heq ▸ List.mem_singleton_self b)
    simp [unescape, contents, hb, hflag]
  | case4 c rest ih =>
    rw [List.mem_cons, List.mem_cons, not_or, not_or] at h
    change unescape (out ++ [c ^^^ ESC_MASK]) false rest = _
    rw [ih h.2.2, contents, if_pos rfl, Option.map_map]
    congr 1
    funext b
    simp
  | case5 b c rest hb ih =>
    rw [List.mem_cons, not_or] at h
    rw [unescape, if_neg Bool.false_ne_true, if_neg hb, if_neg (Ne.symm h.1), ih h.2, contents, if_neg hb, Option.map_map]
    congr 1
    funext b
    simp

theorem deframe_segment {segment : Bytes} (h : FLAG ∉ segment) : deframe (FLAG :: (segment ++ [FLAG])) = contents segment := by
  have hlast : (FLAG :: (segment ++ [FLAG])).getLast? = some FLAG := by
    rw [← List.cons_append, List.getLast?_concat]
  have hlen : (FLAG :: (segment ++ [FLAG])).length = segment.length + 2 := by simp
  have hbody : ((FLAG :: (segment ++ [FLAG])).drop 1).take (segment.length + 2 - 2) = segment := by simp
  have hid : (contents segment).map ([] ++ ·) = contents segment := by simp
  rw [deframe, if_neg (by simp [hlast]), hlen, hbody, unescape_eq h, hid]

theorem deframe_frame (data : Bytes) : deframe (frame data) = some data := by
  rw [frame_eq, deframe_segment (flag_not_mem_escaped data), contents_escaped]

end Hdlc

open Hdlc

/-! ## Taking frames from the buffer -/

namespace TcpClientInterface

def READ_CHUNK : Nat := 4096
def MAX_BUFFER : Nat := 512 * 1024

/-- How one round of the loop of `take_packet` ends, and the buffer it leaves. -/
inductive Round
  | stop (buffer : Bytes)
  | next (buffer : Bytes)
  | packet (packet buffer : Bytes)

def takeRound (buffer : Bytes) : Round :=
  match buffer.findIdx? (· = FLAG) with
  | none => .stop buffer
  | some start =>
    let buffer := buffer.drop start
    match (buffer.drop 1).findIdx? (· = FLAG) with
    | none => .stop buffer
    | some offset =>
      let stop := offset + 1
      let framed := buffer.take (stop + 1)
      -- the closing flag stays in the buffer
      let buffer := buffer.drop stop
      if framed.length = 2 then .next buffer
      else
        match deframe framed with
        | some packet => .packet packet buffer
        | none => .next buffer

/-- What a segment between two flags is delivered as. -/
def accepted (segment : Bytes) : Option Bytes := if segment = [] then none else contents segment

theorem findIdx_eq_none {buffer : Bytes} (h : FLAG ∉ buffer) : buffer.findIdx? (· = FLAG) = none := by
  rw [List.findIdx?_eq_none_iff]
  intro b hb
  rw [decide_eq_false_iff_not]
  exact fun heq => h (heq ▸ hb)

theorem findIdx_flag {skipped : Bytes} (h : FLAG ∉ skipped) (rest : Bytes) :
    (skipped ++ FLAG :: rest).findIdx? (· = FLAG) = some skipped.length := by
  simp [List.findIdx?_append, findIdx_eq_none h, List.findIdx?_cons]

theorem takeRound_of_not_mem {buffer : Bytes} (h : FLAG ∉ buffer) : takeRound buffer = .stop buffer := by
  rw [takeRound, findIdx_eq_none h]

theorem takeRound_opened {skipped opened : Bytes} (hs : FLAG ∉ skipped) (ho : FLAG ∉ opened) :
    takeRound (skipped ++ FLAG :: opened) = .stop (FLAG :: opened) := by
  rw [takeRound, findIdx_flag hs]
  dsimp only
  rw [List.drop_left, List.drop_succ_cons, List.drop_zero, findIdx_eq_none ho]

theorem takeRound_segment {skipped segment : Bytes} (hs : FLAG ∉ skipped) (hseg : FLAG ∉ segment) (rest : Bytes) :
    takeRound (skipped ++ FLAG :: (segment ++ FLAG :: rest)) = match accepted segment with
      | some packet => .packet packet (FLAG :: rest)
      | none => .next (FLAG :: rest) := by
  have hframed : (FLAG :: (segment ++ FLAG :: rest)).take (segment.length + 1 + 1) = FLAG :: (segment ++ [FLAG]) := by
    simp [List.take_append]
  have hrest : (FLAG :: (segment ++ FLAG :: rest)).drop (segment.length + 1) = FLAG :: rest := by simp
  rw [takeRound, findIdx_flag hs]
  dsimp only
  rw [List.drop_left, List.drop_succ_cons, List.drop_zero, findIdx_flag hseg]
  dsimp only
  rw [hframed, hrest, deframe_segment hseg, accepted]
  by_cases hnil : segment = []
  · subst hnil
    rfl
  · have hlen : ¬ (FLAG :: (segment ++ [FLAG])).length = 2 := by
      have := List.length_pos_iff.mpr hnil
      simp only [List.length_cons, List.length_append, List.length_nil]
      omega
    rw [if_neg hlen, if_neg hnil]

/-- A buffer without a flag, with one, or with two. -/
theorem buffer_cases (buffer : Bytes) : FLAG ∉ buffer ∨
    (∃ skipped opened, buffer = skipped ++ FLAG :: opened ∧ FLAG ∉ skipped ∧ FLAG ∉ opened) ∨
    ∃ skipped segment rest, buffer = skipped ++ FLAG :: (segment ++ FLAG :: rest) ∧ FLAG ∉ skipped ∧ FLAG ∉ segment := by
  by_cases hmem : FLAG ∈ buffer
  · obtain ⟨skipped, behind, rfl, hs⟩ := List.eq_append_cons_of_mem hmem
    by_cases hmem : FLAG ∈ behind
    · obtain ⟨segment, rest, rfl, hseg⟩ := List.eq_append_cons_of_mem hmem
      exact .inr (.inr ⟨skipped, segment, rest, rfl, hs, hseg⟩)
    · exact .inr (.inl ⟨skipped, behind, rfl, hs, hmem⟩)
  · exact .inl hmem

theorem length_lt_of_next {buffer buffer' : Bytes} (h : takeRound buffer = .next buffer') : buffer'.length < buffer.length := by
  rcases buffer_cases buffer with hnone | ⟨skipped, opened, rfl, hs, ho⟩ | ⟨skipped, segment, rest, rfl, hs, hseg⟩
  · rw [takeRound_of_not_mem hnone] at h
    cases h
  · rw [takeRound_opened hs ho] at h
    cases h
  · rw [takeRound_segment hs hseg] at h
    split at h
    · cases h
    · cases h
      simp only [List.length_append, List.length_cons]
      omega

def takePacket (buffer : Bytes) : Option Bytes × Bytes :=
  match _h : takeRound buffer with
  | .stop buffer => (none, buffer)
  | .packet packet buffer => (some packet, buffer)
  | .next buffer => takePacket buffer
termination_by buffer.length
decreasing_by exact length_lt_of_next ‹_›

/-- `recv_packet` on the reads that are still to come: the packet, the buffer and the reads that are left. An empty
read is the end of the stream, and so is the end of the list. -/
def recvPacket : List Bytes → Bytes → Option Bytes × Bytes × List Bytes
  | [], buffer =>
    let (packet, buffer) := takePacket buffer
    (packet, buffer, [])
  | chunk :: reads, buffer =>
    match takePacket buffer with
    | (some packet, buffer) => (some packet, buffer, chunk :: reads)
    | (none, buffer) =>
      if chunk = [] then (none, buffer, reads)
      else
        let buffer := buffer ++ chunk
        recvPacket reads (if buffer.length > MAX_BUFFER then [] else buffer)

/-! ## What a buffer holds -/

/-- The packets of a stream. -/
def packets (stream : Bytes) : List Bytes := (between FLAG stream).filterMap accepted

theorem packets_of_not_mem {stream : Bytes} (h : FLAG ∉ stream) : packets stream = [] := by
  rw [packets, between_of_not_mem h]
  rfl

theorem packets_opened {skipped opened : Bytes} (hs : FLAG ∉ skipped) (ho : FLAG ∉ opened) :
    packets (skipped ++ FLAG :: opened) = [] := by
  rw [packets, between_segment hs, closed_of_not_mem ho]
  rfl

theorem packets_flag (rest : Bytes) : packets (FLAG :: rest) = (closed FLAG rest).filterMap accepted := by
  have hbetween := between_segment (List.not_mem_nil (a := FLAG)) rest
  rw [List.nil_append] at hbetween
  rw [packets, hbetween]

/-- What is before the first flag does not count. -/
theorem packets_skip {skipped : Bytes} (hs : FLAG ∉ skipped) (rest : Bytes) :
    packets (skipped ++ FLAG :: rest) = packets (FLAG :: rest) := by
  rw [packets, between_segment hs, packets_flag]

theorem packets_segment {skipped segment : Bytes} (hs : FLAG ∉ skipped) (hseg : FLAG ∉ segment) (rest : Bytes) :
    packets (skipped ++ FLAG :: (segment ++ FLAG :: rest)) = (accepted segment).toList ++ packets (FLAG :: rest) := by
  rw [packets_skip hs, packets_flag, packets_flag, closed_segment hseg, List.filterMap_cons]
  cases accepted segment <;> rfl

/-- What a call of `take_packet` leaves in the buffer: a packet less, or no packet with at most one flag in front. -/
inductive Taken (buffer : Bytes) : Option Bytes → Bytes → Prop
  | packet {p buffer' : Bytes} (shorter : buffer'.length < buffer.length) (suffix : buffer' <:+ buffer)
      (packets : ∀ rest, packets (buffer ++ rest) = p :: packets (buffer' ++ rest)) : Taken buffer (some p) buffer'
  | none {buffer' : Bytes} (suffix : buffer' <:+ buffer) (opened : FLAG ∉ buffer'.drop 1)
      (packets : ∀ rest, packets (buffer ++ rest) = packets (buffer' ++ rest)) : Taken buffer none buffer'

theorem takePacket_taken (buffer : Bytes) : Taken buffer (takePacket buffer).1 (takePacket buffer).2 := by
  induction hn : buffer.length using Nat.strongRecOn generalizing buffer with
  | ind n ih =>
    rw [takePacket]
    rcases buffer_cases buffer with hnone | ⟨skipped, opened, rfl, hs, ho⟩ | ⟨skipped, segment, rest, rfl, hs, hseg⟩
    · rw [takeRound_of_not_mem hnone]
      exact .none List.suffix_rfl (fun hmem => hnone (List.mem_of_mem_drop hmem)) fun _ => rfl
    · rw [takeRound_opened hs ho]
      refine .none (List.suffix_append ..) ho fun rest => ?_
      rw [List.append_assoc]
      exact packets_skip hs _
    · have hsuffix : FLAG :: rest <:+ skipped ++ FLAG :: (segment ++ FLAG :: rest) := by
        rw [← List.cons_append, ← List.append_assoc]
        exact List.suffix_append ..
      have hshorter : (FLAG :: rest).length < (skipped ++ FLAG :: (segment ++ FLAG :: rest)).length := by
        simp only [List.length_append, List.length_cons]
        omega
      have hpackets (more : Bytes) : packets (skipped ++ FLAG :: (segment ++ FLAG :: rest) ++ more) =
          (accepted segment).toList ++ packets (FLAG :: rest ++ more) := by
        rw [List.append_assoc, List.cons_append, List.append_assoc, List.cons_append]
        exact packets_segment hs hseg _
      rw [takeRound_segment hs hseg]
      cases haccepted : accepted segment with
      | some packet =>
        rw [haccepted] at hpackets
        exact .packet hshorter hsuffix hpackets
      | none =>
        rw [haccepted] at hpackets
        dsimp only
        rcases htaken : takePacket (FLAG :: rest) with ⟨packet, buffer'⟩
        have hrest := ih _ (hn ▸ hshorter) (FLAG :: rest) rfl
        rw [htaken] at hrest
        cases hrest with
        | packet shorter suffix packets =>
          exact .packet (shorter.trans hshorter) (suffix.trans hsuffix) fun more => (hpackets more).trans (packets more)
        | none suffix opened packets =>
          exact .none (suffix.trans hsuffix) opened fun more => (hpackets more).trans (packets more)

theorem taken_of_eq {buffer left : Bytes} {packet : Option Bytes} (h : takePacket buffer = (packet, left)) :
    Taken buffer packet left := by
  have htaken := takePacket_taken buffer
  rwa [h] at htaken

/-! ## Receiving -/

theorem recvPacket_shorter {reads reads' : List Bytes} {buffer buffer' p : Bytes}
    (h : recvPacket reads buffer = (some p, buffer', reads')) :
    buffer'.length + reads'.flatten.length < buffer.length + reads.flatten.length := by
  induction reads generalizing buffer with
  | nil =>
    obtain ⟨hp, hrest⟩ := Prod.mk.inj h
    obtain ⟨hbuffer, rfl⟩ := Prod.mk.inj hrest
    cases taken_of_eq (Prod.ext hp hbuffer) with
    | packet shorter => omega
  | cons chunk reads ih =>
    unfold recvPacket at h
    split at h
    · rename_i packet left hcall
      cases h
      cases taken_of_eq hcall with
      | packet shorter => omega
    · rename_i left hcall
      split at h
      · cases h
      · have hrest := ih h
        have hle : (if (left ++ chunk).length > MAX_BUFFER then [] else left ++ chunk).length ≤ left.length + chunk.length := by
          split <;> simp
        cases taken_of_eq hcall with
        | none suffix =>
          have := suffix.length_le
          rw [List.flatten_cons, List.length_append]
          omega

/-- The packets of one call of `recv_packet` after the other, until there is none. -/
def received (reads : List Bytes) (buffer : Bytes) : List Bytes :=
  match _h : recvPacket reads buffer with
  | (some packet, buffer', reads') => packet :: received reads' buffer'
  | (none, _, _) => []
termination_by buffer.length + reads.flatten.length
decreasing_by exact recvPacket_shorter ‹_›

/-- The reads a socket makes. -/
def Reads (reads : List Bytes) : Prop := ∀ chunk ∈ reads, 1 ≤ chunk.length ∧ chunk.length ≤ READ_CHUNK

/-- What the buffer can hold, next to one more read. -/
abbrev Bounded (stream : Bytes) : Prop := RunsWithin FLAG (MAX_BUFFER - READ_CHUNK - 1) stream

/-- With at most one flag in front the buffer has room for a read. -/
theorem room_for_read {buffer chunk rest : Bytes} (hopen : FLAG ∉ buffer.drop 1) (hchunk : chunk.length ≤ READ_CHUNK)
    (hruns : Bounded (buffer ++ rest)) : ¬ (buffer ++ chunk).length > MAX_BUFFER := by
  have hinfix : buffer.drop 1 <:+: buffer ++ rest := (List.drop_suffix 1 buffer).isInfix.trans (List.prefix_append ..).isInfix
  have hrun := hruns _ hinfix hopen
  have hconst : MAX_BUFFER - READ_CHUNK - 1 + 1 + READ_CHUNK = MAX_BUFFER := by decide
  rw [List.length_drop] at hrun
  rw [List.length_append]
  omega

/-- A call returns the next packet of the buffer and the reads, or there is none in them. -/
theorem recvPacket_spec {reads : List Bytes} {buffer : Bytes} (hreads : Reads reads) (hruns : Bounded (buffer ++ reads.flatten)) :
    (∃ buffer', recvPacket reads buffer = (none, buffer', []) ∧ packets (buffer ++ reads.flatten) = []) ∨
    ∃ p buffer' reads', recvPacket reads buffer = (some p, buffer', reads') ∧ reads' <:+ reads ∧
      buffer' ++ reads'.flatten <:+ buffer ++ reads.flatten ∧
      packets (buffer ++ reads.flatten) = p :: packets (buffer' ++ reads'.flatten) := by
  induction reads generalizing buffer with
  | nil =>
    change (∃ buffer', ((takePacket buffer).1, (takePacket buffer).2, []) = (none, buffer', []) ∧ _) ∨
      ∃ p buffer' reads', ((takePacket buffer).1, (takePacket buffer).2, []) = (some p, buffer', reads') ∧ _
    rcases hcall : takePacket buffer with ⟨packet, left⟩
    cases taken_of_eq hcall with
    | packet _ suffix hpackets =>
      refine .inr ⟨_, left, [], rfl, List.suffix_rfl, ?_, hpackets []⟩
      simpa using suffix
    | none _ opened hpackets =>
      refine .inl ⟨left, rfl, (hpackets []).trans ?_⟩
      rw [List.append_nil]
      rcases left with _ | ⟨first, left⟩
      · exact packets_of_not_mem List.not_mem_nil
      · by_cases hfirst : first = FLAG
        · rw [hfirst]
          exact packets_opened List.not_mem_nil opened
        · exact packets_of_not_mem (List.not_mem_cons_of_ne_of_not_mem (Ne.symm hfirst) opened)
  | cons chunk reads ih =>
    unfold recvPacket
    rcases hcall : takePacket buffer with ⟨packet, left⟩
    cases taken_of_eq hcall with
    | packet _ suffix hpackets =>
      refine .inr ⟨_, left, chunk :: reads, rfl, List.suffix_rfl, ?_, hpackets _⟩
      obtain ⟨before, rfl⟩ := suffix
      rw [List.append_assoc]
      exact List.suffix_append ..
    | none suffix opened hpackets =>
      obtain ⟨hchunk, hreads⟩ := List.forall_mem_cons.mp hreads
      have hne : chunk ≠ [] := List.length_pos_iff.mp hchunk.1
      have hsuffix : left ++ (chunk :: reads).flatten <:+ buffer ++ (chunk :: reads).flatten := by
        obtain ⟨before, rfl⟩ := suffix
        rw [List.append_assoc]
        exact List.suffix_append ..
      have hruns := hruns.of_suffix hsuffix
      have hroom := room_for_read opened hchunk.2 hruns
      have hjoin : left ++ (chunk :: reads).flatten = left ++ chunk ++ reads.flatten := by
        rw [List.flatten_cons, List.append_assoc]
      dsimp only
      rw [if_neg hne, if_neg hroom, hpackets]
      rw [hjoin] at hsuffix hruns ⊢
      rcases ih hreads hruns with ⟨buffer', hcall, hnone⟩ | ⟨p, buffer', reads', hcall, hleft, hstream, hsome⟩
      · exact .inl ⟨buffer', hcall, hnone⟩
      · exact .inr ⟨p, buffer', reads', hcall, hleft.trans (List.suffix_cons ..), hstream.trans hsuffix, hsome⟩

/-- What is received is what the stream holds, however it was read. -/
theorem received_eq {reads : List Bytes} {buffer : Bytes} (hreads : Reads reads) (hruns : Bounded (buffer ++ reads.flatten)) :
    received reads buffer = packets (buffer ++ reads.flatten) := by
  induction hn : buffer.length + reads.flatten.length using Nat.strongRecOn generalizing buffer reads with
  | ind n ih =>
    rw [received]
    rcases recvPacket_spec hreads hruns with ⟨buffer', hcall, hnone⟩ | ⟨p, buffer', reads', hcall, hleft, hstream, hsome⟩
    · rw [hcall, hnone]
    · rw [hcall, hsome]
      have hshorter := recvPacket_shorter hcall
      have hreads' : Reads reads' := fun chunk hmem => hreads chunk (hleft.mem hmem)
      exact congrArg (p :: ·) (ih _ (hn ▸ hshorter) hreads' (hruns.of_suffix hstream) rfl)

/-! ## Framed packets -/

theorem accepted_escaped {p : Bytes} (h : p ≠ []) : accepted (p.flatMap escape) = some p := by
  have hne : p.flatMap escape ≠ [] := by
    intro hnil
    have hcontents := contents_escaped p
    rw [hnil] at hcontents
    exact h (Option.some.inj hcontents).symm
  rw [accepted, if_neg hne, contents_escaped]

/-- Behind a flag every frame adds an empty segment and its packet. -/
theorem closed_frames {ps : List Bytes} (hps : ∀ p ∈ ps, p ≠ []) :
    (closed FLAG (ps.flatMap frame)).filterMap accepted = ps := by
  induction ps with
  | nil => rw [List.flatMap_nil, closed_of_not_mem List.not_mem_nil, List.filterMap_nil]
  | cons p ps ih =>
    obtain ⟨hp, hps⟩ := List.forall_mem_cons.mp hps
    have hsplit : (p :: ps).flatMap frame = [] ++ FLAG :: (p.flatMap escape ++ FLAG :: ps.flatMap frame) := by
      rw [List.flatMap_cons, frame_eq]
      simp
    rw [hsplit, closed_segment List.not_mem_nil, closed_segment (flag_not_mem_escaped p), List.filterMap_cons,
      List.filterMap_cons, accepted_escaped hp, ih hps]
    rfl

/-- Framed packets follow one by one on what their first flag closes. -/
theorem packets_frames (garbage : Bytes) {ps : List Bytes} (hps : ∀ p ∈ ps, p ≠ []) :
    packets (garbage ++ ps.flatMap frame) = packets (garbage ++ (ps.flatMap frame).take 1) ++ ps := by
  cases ps with
  | nil => simp
  | cons p ps =>
    obtain ⟨hp, hps⟩ := List.forall_mem_cons.mp hps
    have hsplit : (p :: ps).flatMap frame = FLAG :: (p.flatMap escape ++ FLAG :: ps.flatMap frame) := by
      rw [List.flatMap_cons, frame_eq]
      simp
    rw [hsplit, List.take_succ_cons, List.take_zero, packets, packets, between_append, closed_segment (flag_not_mem_escaped p),
      List.filterMap_append, List.filterMap_cons, accepted_escaped hp, closed_frames hps]

/-- Over every stream whose runs without a flag leave room for a read, what is received is what the segments between the
flags stand for, however the stream was cut into reads; so every framed packet comes through behind any garbage. -/
theorem reception_lossless :
    (∀ reads : List Bytes, Reads reads → Bounded reads.flatten →
      received reads [] = (between FLAG reads.flatten).filterMap accepted) ∧
    (∀ (reads : List Bytes) (garbage : Bytes) (ps : List Bytes), Reads reads → Bounded reads.flatten →
      reads.flatten = garbage ++ ps.flatMap frame → (∀ p ∈ ps, p ≠ []) →
      received reads [] = packets (garbage ++ (ps.flatMap frame).take 1) ++ ps) ∧
    (∀ p : Bytes, deframe (frame p) = some p) ∧
    ∀ buffer buffer' : Bytes, takeRound buffer = .next buffer' → buffer'.length < buffer.length := by
  have hall (reads : List Bytes) (hreads : Reads reads) (hruns : Bounded reads.flatten) :
      received reads [] = packets reads.flatten := @received_eq reads [] hreads hruns
  refine ⟨hall, fun reads garbage ps hreads hruns hstream hps => ?_, deframe_frame, fun _ _ => length_lt_of_next⟩
  rw [hall reads hreads hruns, hstream, packets_frames garbage hps]

/-- Two frames behind garbage, in three reads. -/
def pieces : List Bytes := [[0x11, FLAG, 5, FLAG, ESC], [FLAG ^^^ ESC_MASK, FLAG, FLAG, 1], [ESC, ESC ^^^ ESC_MASK, FLAG]]

theorem reception_lossless_pieces : received pieces [] = [[5], [FLAG], [1, ESC]] ∧
    ∃ buffer', takeRound [0x11, FLAG, FLAG, 1] = .next buffer' ∧ buffer'.length < [0x11, FLAG, FLAG, 1].length := by
  obtain ⟨-, hframes, -, hround⟩ := reception_lossless
  have hreads : Reads pieces := by simp [Reads, pieces, READ_CHUNK]
  have hbounded : Bounded pieces.flatten := fun run hrun _ => Nat.le_trans hrun.length_le (by decide)
  have hstream : pieces.flatten = [0x11, FLAG, 5] ++ [[FLAG], [1, ESC]].flatMap frame := by decide
  refine ⟨?_, [FLAG, 1], rfl, hround _ _ rfl⟩
  rw [hframes pieces [0x11, FLAG, 5] [[FLAG], [1, ESC]] hreads hbounded hstream (by decide)]
  decide

end TcpClientInterface

end Reticulum
