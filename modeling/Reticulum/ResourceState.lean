import Reticulum.Token
import Reticulum.Resource
import Reticulum.PathTable

/-!
# Resource transfers

`resource_state.rs`: the sender's and the receiver's half of one transfer.
-/

namespace Reticulum

def RESOURCE_SDU : Nat := 464
def WINDOW : Nat := 4
def WINDOW_MIN : Nat := 2
def WINDOW_MAX : Nat := 75
def MAX_RETRIES : Nat := 16
def HASHMAP_MAX_LEN : Nat := 74
def REQUEST_TIMEOUT_SECS : Nat := 2
def HASHMAP_IS_NOT_EXHAUSTED : UInt8 := 0x00
def HASHMAP_IS_EXHAUSTED : UInt8 := 0xFF

inductive ResourceOutput
  | part (part : Bytes)
  | hashmapUpdate (update : Bytes)
  deriving DecidableEq

structure OutboundResource where
  hash : Arr 32
  size : Nat
  totalSize : Nat
  parts : List Bytes
  map : Bytes
  randomHash : Arr 4
  expectedProof : Arr 32
  completed : Bool
  lastActivity : Nat
  deriving DecidableEq

namespace OutboundResource

/-- The collision guard: each entry against the last `2 * WINDOW_MAX + HASHMAP_MAX_LEN` before it. -/
def collides : List Bytes → List Bytes → Bool
  | _, [] => false
  | hashes, entry :: rest =>
    if entry ∈ hashes then true
    else
      let hashes := hashes ++ [entry]
      collides (if hashes.length > 2 * WINDOW_MAX + HASHMAP_MAX_LEN then hashes.drop 1 else hashes) rest

variable [Crypto] [Rmp] [Bzip2]

/-- The loop that draws random hashes until the map has no collision, for at most `fuel` draws. -/
def drawMap (parts : List Bytes) : Nat → Entropy → Option (Arr 4 × Bytes × Entropy)
  | 0, _ => none
  | fuel + 1, rng =>
    let (hashRandom, rng) := Reticulum.randomHash rng
    let map := hashmap parts hashRandom
    if collides [] (Bytes.chunksExact MAPHASH_LEN map) then drawMap parts fuel rng
    else some (hashRandom, map, rng)

/-- `None` is a loop still running after `fuel` draws. -/
def new (fuel : Nat) (data : Bytes) (linkKey : Arr 64) (rng : Entropy) (now : Nat) :
    Option (Except CoreError (OutboundResource × Bytes) × Entropy) :=
  if data = [] ∨ data.length > MAX_EFFICIENT_SIZE then some (.error .invalidField, rng)
  else
    let (transmitted, compressed) := compressIfUseful data
    let (pre, rng) := Reticulum.randomHash rng
    let stream := pre.1 ++ transmitted
    let (iv, rng) := rng.fill 16
    let encrypted := Token.sealWithKey linkKey stream iv
    let parts := splitParts encrypted RESOURCE_SDU
    match drawMap parts fuel rng with
    | none => none
    | some (hashRandom, map, rng) =>
      let hash := resourceHash data hashRandom
      let advertisedMapLen := min parts.length HASHMAP_MAX_LEN * MAPHASH_LEN
      -- the lengths fit their fields: `data` has at most `MAX_EFFICIENT_SIZE` bytes
      let advertisement : ResourceAdvertisement :=
        { t := encrypted.length, d := data.length, n := parts.length, h := hash.1, r := hashRandom.1, o := hash.1,
          i := 1, l := 1, q := none, f := (0x01 : UInt8) ||| (compressed.toUInt8 <<< 1), m := map.take advertisedMapLen }
      some (.ok ({ hash := hash
                   size := advertisement.t
                   totalSize := advertisement.d
                   parts := parts
                   map := map
                   randomHash := hashRandom
                   expectedProof := resourceProof data hash
                   completed := false
                   lastActivity := now }, advertisement.pack), rng)

/-- The map entries, in slot order. -/
def entries (r : OutboundResource) : List Bytes := Bytes.chunksExact MAPHASH_LEN r.map

def onRequest (r : OutboundResource) (request : Bytes) (now : Nat) : OutboundResource × List ResourceOutput :=
  match request with
  | [] => (r, [])
  | flag :: _ =>
    let wantsMap := flag = HASHMAP_IS_EXHAUSTED
    let pad := if wantsMap then 1 + MAPHASH_LEN else 1
    if request.length < pad + 32 ∨ (request.drop pad).take 32 ≠ r.hash.1 then (r, [])
    else
      let requested := request.drop (pad + 32)
      if requested.length % MAPHASH_LEN ≠ 0 then (r, [])
      else
        let partOutputs := (Bytes.chunksExact MAPHASH_LEN requested).filterMap fun requestedHash =>
          match r.entries.findIdx? (· = requestedHash) with
          | some index => (r.parts[index]?).map .part
          | none => none
        let mapOutputs :=
          if wantsMap then
            match r.entries.findIdx? (· = (request.drop 1).take MAPHASH_LEN) with
            | some index =>
              let segment := (index + 1) / HASHMAP_MAX_LEN
              if (index + 1) % HASHMAP_MAX_LEN = 0 then
                let start := segment * HASHMAP_MAX_LEN * MAPHASH_LEN
                let stop := min ((segment + 1) * HASHMAP_MAX_LEN * MAPHASH_LEN) r.map.length
                if start < stop then
                  [.hashmapUpdate (packHashmapUpdate r.hash (min segment (2 ^ 32 - 1))
                    ((r.map.drop start).take (stop - start)))]
                else []
              else []
            | none => []
          else []
        ({ r with lastActivity := now }, partOutputs ++ mapOutputs)

omit [Crypto] [Rmp] [Bzip2] in
def onProof (r : OutboundResource) (proofData : Bytes) : OutboundResource × Bool :=
  let completed := r.completed ||
    decide (proofData.length = 64 ∧ proofData.take 32 = r.hash.1 ∧ proofData.drop 32 = r.expectedProof.1)
  ({ r with completed := completed }, completed)

end OutboundResource

structure InboundResource where
  hash : Arr 32
  size : Nat
  totalSize : Nat
  randomHash : Arr 4
  compressed : Bool
  map : List (Option (Arr 4))
  parts : List (Option Bytes)
  outstanding : List (Arr 4)
  window : Nat
  retries : Nat
  lastRequest : Nat
  waitingForHmu : Bool
  deriving DecidableEq

namespace InboundResource

/-- The loop that writes map entries from slot `start` on; it stops at the first slot outside the
map and keeps what it wrote before. -/
def writeEntries (map : List (Option (Arr 4))) (start : Nat) : List Bytes → List (Option (Arr 4)) × Bool
  | [] => (map, true)
  | entry :: rest =>
    if start < map.length then
      match Arr.ofSlice? 4 entry with
      | some entry => writeEntries (map.set start (some entry)) (start + 1) rest
      | none => (map, false)
    else (map, false)

def fromAdvertisement (a : ResourceAdvertisement) : Except CoreError InboundResource :=
  if a.encrypted = false ∨ a.n = 0 ∨ a.n > MAX_EFFICIENT_SIZE / MAPHASH_LEN then .error .invalidField
  else
    match Arr.ofSlice? 32 a.h, Arr.ofSlice? 4 a.r with
    | some hash, some randomHash =>
      match writeEntries (List.replicate a.n none) 0 (Bytes.chunksExact MAPHASH_LEN a.m) with
      | (_, false) => .error .invalidField
      | (map, true) =>
        .ok { hash := hash
              size := a.t
              totalSize := a.d
              randomHash := randomHash
              compressed := a.compressed
              map := map
              parts := List.replicate a.n none
              outstanding := []
              window := WINDOW
              retries := 0
              lastRequest := 0
              waitingForHmu := false }
    | _, _ => .error .invalidField

def isComplete (r : InboundResource) : Bool := r.parts.all Option.isSome

def receivedParts (r : InboundResource) : Nat := (r.parts.filter Option.isSome).length

def totalParts (r : InboundResource) : Nat := r.parts.length

def readyForRequest (r : InboundResource) : Bool :=
  !r.isComplete && r.outstanding.isEmpty && !r.waitingForHmu

/-- The missing slots of the window starting at `first` whose map entry is known. -/
def windowHashes (r : InboundResource) (first : Nat) : List (Arr 4) :=
  (List.range' first (min (first + r.window) r.parts.length - first)).filterMap fun index =>
    if r.parts[index]? = some none then (r.map[index]?).join else none

def nextRequest (r : InboundResource) (now : Nat) : InboundResource × Option Bytes :=
  if r.isComplete then (r, none)
  else
    match r.parts.findIdx? Option.isNone with
    | none => (r, none)
    | some firstMissing =>
      match (r.map[firstMissing]?).join with
      | none =>
        match ((r.map.take firstMissing).reverse.filterMap id).head? with
        | none => (r, none)
        | some known =>
          ({ r with waitingForHmu := true, lastRequest := now },
            some (HASHMAP_IS_EXHAUSTED :: (known.1 ++ r.hash.1)))
      | some _ =>
        let outstanding := r.windowHashes firstMissing
        if outstanding = [] then ({ r with outstanding := outstanding }, none)
        else
          ({ r with outstanding := outstanding, lastRequest := now },
            some (HASHMAP_IS_NOT_EXHAUSTED :: (r.hash.1 ++ outstanding.flatMap (·.1))))

def retryDue (r : InboundResource) (now : Nat) : InboundResource × Except CoreError (Option Bytes) :=
  if r.lastRequest = 0 ∨ now - r.lastRequest < REQUEST_TIMEOUT_SECS ∨ r.isComplete then (r, .ok none)
  else if r.retries ≥ MAX_RETRIES then (r, .error .unsupported)
  else
    let r := { r with retries := r.retries + 1, window := max (r.window - 1) WINDOW_MIN }
    let (r, request) := r.nextRequest now
    (r, .ok request)

section
variable [Crypto]

def onPart (r : InboundResource) (part : Bytes) : InboundResource × Bool :=
  let hash := mapHash part r.randomHash
  match (r.map.zip r.parts).findIdx? fun (expected, have_) => expected = some hash && have_.isNone with
  | none => (r, false)
  | some index =>
    let outstanding := r.outstanding.filter (· ≠ hash)
    if outstanding = [] then
      ({ r with
          parts := r.parts.set index (some part), outstanding := outstanding,
          window := min (r.window + 1) WINDOW_MAX, retries := 0 }, true)
    else ({ r with parts := r.parts.set index (some part), outstanding := outstanding }, true)

def proofPacket (r : InboundResource) (data : Bytes) : Bytes := r.hash.1 ++ (resourceProof data r.hash).1

end

section
variable [Rmp]

def onHashmapUpdate (r : InboundResource) (data : Bytes) : InboundResource × Except CoreError Unit :=
  match unpackHashmapUpdate data with
  | .error e => (r, .error e)
  | .ok (hash, segment, update) =>
    if hash ≠ r.hash then (r, .error .invalidField)
    else
      let start := segment * HASHMAP_MAX_LEN
      match writeEntries r.map start (Bytes.chunksExact MAPHASH_LEN update) with
      | (map, false) => ({ r with map := map }, .error .invalidField)
      | (map, true) => ({ r with map := map, waitingForHmu := false }, .ok ())

end

section
variable [Crypto] [Bzip2]

/-- The received parts opened and decompressed: what `finalize` then checks. -/
def payload (r : InboundResource) (linkKey : Arr 64) : Except CoreError Bytes := do
  let stream ← Token.openWithKey linkKey (reassemble (r.parts.filterMap id))
  if stream.length < RANDOM_HASH_SIZE then throw .truncated
  let payload := stream.drop RANDOM_HASH_SIZE
  if r.compressed then decompressPayload payload else return payload

def finalize (r : InboundResource) (linkKey : Arr 64) : Except CoreError Bytes :=
  if r.isComplete = false then .error .truncated
  else do
    let data ← r.payload linkKey
    if data.length ≠ r.totalSize ∨ resourceHash data r.randomHash ≠ r.hash then throw .decryptFailed
    return data

end

end InboundResource

end Reticulum
