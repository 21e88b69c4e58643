import Reticulum.ResourceState

/-!
# What the two halves of a transfer can do

The answer to a request cut into its parts: the parts asked for, and the next
segment of the map.
-/

namespace Reticulum

namespace OutboundResource

/-- How far the resource hash of a request stands behind its flag. -/
def requestPad (flag : UInt8) : Nat := if flag = HASHMAP_IS_EXHAUSTED then 1 + MAPHASH_LEN else 1

/-- The parts of the map hashes that are known. -/
def partsFor (r : OutboundResource) (requested : List Bytes) : List ResourceOutput :=
  requested.filterMap fun requestedHash =>
    match r.entries.findIdx? (· = requestedHash) with
    | some index => (r.parts[index]?).map .part
    | none => none

/-- The bytes of one segment of the map. -/
def segmentMap (r : OutboundResource) (segment : Nat) : Bytes :=
  (r.map.drop (segment * HASHMAP_MAX_LEN * MAPHASH_LEN)).take
    (min ((segment + 1) * HASHMAP_MAX_LEN * MAPHASH_LEN) r.map.length - segment * HASHMAP_MAX_LEN * MAPHASH_LEN)

variable [Rmp]

/-- The segment behind the last known entry, when that entry ends one. -/
def mapUpdateFor (r : OutboundResource) (known : Bytes) : List ResourceOutput :=
  match r.entries.findIdx? (· = known) with
  | some index =>
    let segment := (index + 1) / HASHMAP_MAX_LEN
    if (index + 1) % HASHMAP_MAX_LEN = 0 then
      if segment * HASHMAP_MAX_LEN * MAPHASH_LEN < min ((segment + 1) * HASHMAP_MAX_LEN * MAPHASH_LEN) r.map.length then
        [.hashmapUpdate (packHashmapUpdate r.hash (min segment (2 ^ 32 - 1)) (r.segmentMap segment))]
      else []
    else []
  | none => []

/-- A request for this resource, with the map hashes it asks for. -/
structure Requests (r : OutboundResource) (request : Bytes) (flag : UInt8) (requested : Bytes) : Prop where
  head : ∃ rest, request = flag :: rest
  long : requestPad flag + 32 ≤ request.length
  hash : (request.drop (requestPad flag)).take 32 = r.hash.1
  rest : requested = request.drop (requestPad flag + 32)
  whole : requested.length % MAPHASH_LEN = 0

/-- What a request is answered with. -/
def answerTo (r : OutboundResource) (request : Bytes) (flag : UInt8) (requested : Bytes) : List ResourceOutput :=
  r.partsFor (Bytes.chunksExact MAPHASH_LEN requested) ++
    if flag = HASHMAP_IS_EXHAUSTED then r.mapUpdateFor ((request.drop 1).take MAPHASH_LEN) else []

theorem onRequest_cons (r : OutboundResource) (flag : UInt8) (rest : Bytes) (now : Nat) :
    r.onRequest (flag :: rest) now =
      if (flag :: rest).length < requestPad flag + 32 ∨ ((flag :: rest).drop (requestPad flag)).take 32 ≠ r.hash.1 then
        (r, [])
      else if ((flag :: rest).drop (requestPad flag + 32)).length % MAPHASH_LEN ≠ 0 then (r, [])
      else
        ({ r with lastActivity := now }, r.answerTo (flag :: rest) flag ((flag :: rest).drop (requestPad flag + 32))) :=
  rfl

theorem Requests.onRequest {r : OutboundResource} {request : Bytes} {flag : UInt8} {requested : Bytes}
    (h : r.Requests request flag requested) (now : Nat) :
    r.onRequest request now = ({ r with lastActivity := now }, r.answerTo request flag requested) := by
  obtain ⟨rest, rfl⟩ := h.head
  rw [onRequest_cons, if_neg (not_or.mpr ⟨Nat.not_lt.mpr h.long, not_not.mpr h.hash⟩), ← h.rest,
    if_neg (not_not.mpr h.whole)]

/-- A request is ignored, or it is one for this resource. -/
theorem onRequest_cases (r : OutboundResource) (request : Bytes) (now : Nat) :
    r.onRequest request now = (r, []) ∨ ∃ flag requested, r.Requests request flag requested := by
  cases request with
  | nil => exact .inl rfl
  | cons flag rest =>
    rw [onRequest_cons]
    split
    · exact .inl rfl
    · rename_i h
      obtain ⟨hlong, hhash⟩ := not_or.mp h
      split
      · exact .inl rfl
      · exact .inr ⟨flag, _, ⟨rest, rfl⟩, Nat.not_lt.mp hlong, not_not.mp hhash, rfl, not_not.mp ‹_›⟩

end OutboundResource

end Reticulum
