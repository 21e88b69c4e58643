import Mathlib.Tactic.Simps.Basic
import Reticulum.Announce
import Reticulum.Link
import Reticulum.ResourceState

/-!
# The node: state and local operations

`lib.rs`, `link_state.rs` and the first half of `node.rs`: everything a node
does on its own account, registrations, sends, links and the tick.
-/

namespace Reticulum

def PATH_EXPIRY_SECS : Nat := 604800
def PATHFINDER_MAX_HOPS : UInt8 := 128
def PACKET_HASH_TTL_SECS : Nat := 60
def LINK_KEEPALIVE_SECS : Nat := 360
def LINK_STALE_SECS : Nat := 720
def RECEIPT_TIMEOUT_SECS : Nat := 30

/-- Errors surfaced by node operations. -/
inductive NodeError
  | core (error : CoreError)
  | unknown
  deriving DecidableEq

inductive Event
  | announce (destHash : Arr 16) (hops : UInt8)
  | message (destHash : Arr 16) (plaintext : Bytes)
  | delivered (packetHash : Arr 32)
  | linkEstablished (linkId : Arr 16)
  | linkData (linkId : Arr 16) (plaintext : Bytes)
  | linkClosed (linkId : Arr 16)
  | resourceStarted (linkId : Arr 16) (hash : Arr 32) (size : Nat)
  /-- The source divides the two counts into one fraction. -/
  | resourceProgress (linkId : Arr 16) (hash : Arr 32) (received total : Nat)
  | resourceComplete (linkId : Arr 16) (hash : Arr 32) (data : Bytes)
  | resourceFailed (linkId : Arr 16) (hash : Arr 32)
  | error (error : NodeError)
  deriving DecidableEq

/-! ## `link_state.rs` -/

inductive LinkStatus
  | pending
  | handshake
  | active
  | closed
  deriving DecidableEq, Repr

structure LinkEntry where
  status : LinkStatus
  initiator : Bool
  ephemeral : LinkEphemeral
  peerX25519Pub : Option (Arr 32)
  destinationPublic : Option PublicIdentity
  derivedKey : Option (Arr 64)
  interface : UInt16
  lastActivity : Nat
  lastKeepalive : Nat
  deriving DecidableEq

/-- Its methods are those of the map. -/
abbrev LinkRegistry := BTreeMap (Arr 16) LinkEntry

/-! ## Node state -/

inductive LocalDestinationKind
  | single (prove : Bool)
  | group (key : Arr 64)
  | plain
  deriving DecidableEq

def LocalDestinationKind.isSingle : LocalDestinationKind → Bool
  | .single _ => true
  | _ => false

structure LocalDestination where
  nameHash : Arr 10
  destHash : Arr 16
  kind : LocalDestinationKind
  deriving DecidableEq

structure PendingReceipt where
  destinationPublic : PublicIdentity
  expiresAt : Nat
  deriving DecidableEq

/-- The link id and the hash of a resource. -/
abbrev ResourceKey := Arr 16 × Arr 32

structure Node where
  identity : Identity
  /-- What `clock.now_secs()` reads. -/
  clock : UInt64
  locals : List LocalDestination
  paths : PathTable
  interfaces : List UInt16
  transportEnabled : Bool
  seenAnnounces : BTreeMap (Arr 16 × Arr 10) Nat
  seenPathRequests : BTreeMap (Arr 16 × Arr 16) Nat
  seenPackets : BTreeMap (Arr 16) Nat
  cachedAnnounces : BTreeMap (Arr 16) Packet
  outbound : List (UInt16 × Bytes)
  links : LinkRegistry
  pendingEvents : List Event
  pendingReceipts : BTreeMap (Arr 32) PendingReceipt
  outboundResources : BTreeMap ResourceKey OutboundResource
  inboundResources : BTreeMap ResourceKey InboundResource
  lastPrune : Nat
  /-- Ghost: every message handed to `identity.sign`, oldest first. Nothing reads it. -/
  signed : List Bytes

namespace Node

def withClock (identity : Identity) (clock : UInt64) : Node where
  identity := identity
  clock := clock
  locals := []
  paths := PathTable.new
  interfaces := []
  transportEnabled := false
  seenAnnounces := ∅
  seenPathRequests := ∅
  seenPackets := ∅
  cachedAnnounces := ∅
  outbound := []
  links := ∅
  pendingEvents := []
  pendingReceipts := ∅
  outboundResources := ∅
  inboundResources := ∅
  lastPrune := 0
  signed := []

def nowSecs (n : Node) : Nat := n.clock.toNat

/-- `outbound.push_back((interface, packet.encode()))` -/
def push (n : Node) (interface : UInt16) (packet : Packet) : Node :=
  { n with outbound := n.outbound ++ [(interface, packet.encode)] }

/-- One copy on each of the listed interfaces. -/
def pushAll (n : Node) (interfaces : List UInt16) (packet : Packet) : Node :=
  { n with outbound := n.outbound ++ interfaces.map fun i => (i, packet.encode) }

/-- Amortized expiry of the dedup maps: at most one sweep per second. -/
def maybePrune (n : Node) (now : Nat) : Node :=
  if n.lastPrune ≠ 0 ∧ now - n.lastPrune < 1 then n
  else
    { n with
      lastPrune := now
      seenPackets := n.seenPackets.filter fun _ expiresAt => expiresAt > now
      seenAnnounces := n.seenAnnounces.filter fun _ expiresAt => expiresAt > now
      seenPathRequests := n.seenPathRequests.filter fun _ expiresAt => expiresAt > now }

/-! ## Configuration -/

def enableTransport (n : Node) (enabled : Bool) : Node := { n with transportEnabled := enabled }

def registerInterface (n : Node) (interface : UInt16) : Node :=
  if interface ∈ n.interfaces then n else { n with interfaces := n.interfaces ++ [interface] }

def unregisterInterface (n : Node) (interface : UInt16) : Node :=
  { n with interfaces := n.interfaces.filter (· ≠ interface) }

def addLocal (n : Node) (nameHash : Arr 10) (destHash : Arr 16) (kind : LocalDestinationKind) : Node :=
  { n with locals := n.locals ++ [⟨nameHash, destHash, kind⟩] }

/-- The first local destination with the hash gets its flag set, if it is a SINGLE one. -/
def setProveIn (destHash : Arr 16) (enabled : Bool) : List LocalDestination → List LocalDestination × Bool
  | [] => ([], false)
  | l :: rest =>
    if l.destHash = destHash then
      match l.kind with
      | .single _ => ({ l with kind := .single enabled } :: rest, true)
      | _ => (l :: rest, false)
    else
      let (rest, found) := setProveIn destHash enabled rest
      (l :: rest, found)

def setProve (n : Node) (destHash : Arr 16) (enabled : Bool) : Node × Bool :=
  let (locals, found) := setProveIn destHash enabled n.locals
  ({ n with locals := locals }, found)

@[simps] def prunePaths (n : Node) : Node := { n with paths := n.paths.prune n.nowSecs }

def pollOutbound (n : Node) : Node × Option (UInt16 × Bytes) :=
  match n.outbound with
  | [] => (n, none)
  | frame :: rest => ({ n with outbound := rest }, some frame)

section
variable [Crypto]

def registerSingleDestination (n : Node) (appName : String) (aspects : List String) : Node × Arr 16 :=
  let nameHash := nameHash appName aspects
  let destHash := destinationHash nameHash n.identity.hash
  (n.addLocal nameHash destHash (.single false), destHash)

def registerGroupDestinationWithIdentity (n : Node) (appName : String) (aspects : List String)
    (identityHash : Arr 16) (groupKey : Arr 64) : Node × Arr 16 :=
  let destHash := groupDestinationHashWithIdentity appName aspects identityHash
  (n.addLocal (nameHash appName aspects) destHash (.group groupKey), destHash)

/-- The shared key doubles as the private material of the address identity. -/
def registerGroupDestination (n : Node) (appName : String) (aspects : List String) (groupKey : Arr 64) :
    Node × Arr 16 :=
  let identityHash :=
    (Identity.fromPrivateBytes (groupKey.prefixOf 32 half_le) (groupKey.suffixFrom 32)).hash
  n.registerGroupDestinationWithIdentity appName aspects identityHash groupKey

def registerPlainDestination (n : Node) (appName : String) (aspects : List String) : Node × Arr 16 :=
  let destHash := groupDestinationHash appName aspects
  (n.addLocal (nameHash appName aspects) destHash .plain, destHash)

/-! ## Announces and path requests -/

def sendAnnounce (n : Node) (destHash : Arr 16) (appData : Bytes) (rng : Entropy) (interface : UInt16) : Node :=
  match n.locals.find? fun l => l.destHash = destHash ∧ l.kind.isSingle with
  | none => n
  | some l =>
    let (randomHash, _) := rng.fill 10
    let announce := Announce.build n.identity destHash l.nameHash randomHash appData
    let packet := Packet.announce destHash announce.toPayload
    { n with
      cachedAnnounces := n.cachedAnnounces.insert destHash packet
      signed := n.signed ++
        [Announce.signedData destHash announce.pub announce.nameHash announce.randomHash none appData]
      : Node }.push interface packet

def requestPath (n : Node) (destHash : Arr 16) (rng : Entropy) : Node :=
  let (tag, _) := rng.fill 16
  let transportId := if n.transportEnabled then some n.identity.hash else none
  n.pushAll n.interfaces (Packet.pathRequest destHash transportId tag)

/-! ## Destination sends -/

/-- A packet readdressed to the next hop of a route longer than one hop. -/
def viaNextHop (packet : Packet) (nextHop : Arr 16) : Packet :=
  { packet with headerType := HEADER_2, propagation := TRANSPORT, transportId := some nextHop }

/-- The packet as it leaves towards a route: readdressed when the route has a relay. -/
def route (entry : PathEntry) (packet : Packet) : Except NodeError Packet :=
  if entry.hops > 1 then
    match entry.nextHopTransportId with
    | none => .error .unknown
    | some nextHop => .ok (viaNextHop packet nextHop)
  else .ok packet

def sendSingleMessage (n : Node) (destHash : Arr 16) (plaintext : Bytes) (rng : Entropy) (createReceipt : Bool) :
    Node × Except NodeError (Option (Arr 32)) :=
  let n := n.prunePaths
  match n.paths.get destHash with
  | none => (n, .error .unknown)
  | some entry =>
    let (ephemeral, rng) := rng.fill 32
    let (iv, _) := rng.fill 16
    let ciphertext := Token.encrypt entry.pub plaintext ephemeral iv
    match route entry (Packet.dataSingle destHash ciphertext) with
    | .error e => (n, .error e)
    | .ok packet =>
      let packetHash := packet.fullPacketHash
      let n := n.push entry.interface packet
      if createReceipt then
        ({ n with
            pendingReceipts := n.pendingReceipts.insert packetHash
              ⟨entry.pub, satAdd n.nowSecs RECEIPT_TIMEOUT_SECS⟩ }, .ok (some packetHash))
      else (n, .ok none)

def sendMessage (n : Node) (destHash : Arr 16) (plaintext : Bytes) (rng : Entropy) : Node × Except NodeError Unit :=
  match n.sendSingleMessage destHash plaintext rng false with
  | (n, .error e) => (n, .error e)
  | (n, .ok _) => (n, .ok ())

def sendMessageWithReceipt (n : Node) (destHash : Arr 16) (plaintext : Bytes) (rng : Entropy) :
    Node × Except NodeError (Arr 32) :=
  match n.sendSingleMessage destHash plaintext rng true with
  | (n, .error e) => (n, .error e)
  | (n, .ok (some h)) => (n, .ok h)
  | (n, .ok none) => (n, .error .unknown)

def enqueueDestinationPacket (n : Node) (packet : Packet) (destHash : Arr 16) : Node × Except NodeError Unit :=
  let n := n.prunePaths
  match n.paths.get destHash with
  | some path =>
    match route path packet with
    | .error e => (n, .error e)
    | .ok packet => (n.push path.interface packet, .ok ())
  | none =>
    if n.interfaces = [] then (n, .error .unknown)
    else (n.pushAll n.interfaces packet, .ok ())

/-- The key of the first GROUP destination with the hash. -/
def groupKey (n : Node) (destHash : Arr 16) : Option (Arr 64) :=
  n.locals.findSome? fun l =>
    if l.destHash = destHash then
      match l.kind with
      | .group key => some key
      | _ => none
    else none

def sendGroupMessage (n : Node) (destHash : Arr 16) (plaintext : Bytes) (rng : Entropy) :
    Node × Except NodeError Unit :=
  match n.groupKey destHash with
  | none => (n, .error .unknown)
  | some key =>
    let (iv, _) := rng.fill 16
    let ciphertext := Token.sealWithKey key plaintext iv
    n.enqueueDestinationPacket (Packet.dataFor GROUP destHash ciphertext) destHash

def sendPlainMessage (n : Node) (destHash : Arr 16) (plaintext : Bytes) : Node × Except NodeError Unit :=
  n.enqueueDestinationPacket (Packet.dataFor PLAIN destHash plaintext) destHash

/-! ## Links -/

def establishLink (n : Node) (destHash : Arr 16) (rng : Entropy) : Node × Except NodeError (Arr 16) :=
  let n := n.prunePaths
  match n.paths.get destHash with
  | none => (n, .error .unknown)
  | some entry =>
    let (ephemeral, _) := LinkEphemeral.generate rng
    let packet := Packet.linkRequest destHash (linkRequestPayload ephemeral)
    let linkId := linkIdFromRequest packet
    match route entry packet with
    | .error e => (n, .error e)
    | .ok packet =>
      let now := n.nowSecs
      let n := { n with
        links := n.links.insert linkId
          { status := .pending
            initiator := true
            ephemeral := ephemeral
            peerX25519Pub := none
            destinationPublic := some entry.pub
            derivedKey := none
            interface := entry.interface
            lastActivity := now
            lastKeepalive := now } }
      (n.push entry.interface packet, .ok linkId)

/-- The key and the interface of an Active link. -/
def activeLink (n : Node) (linkId : Arr 16) : Option (Arr 64 × UInt16) :=
  match n.links[linkId]? with
  | none => none
  | some link =>
    if link.status = .active then link.derivedKey.map fun key => (key, link.interface) else none

def linkSend (n : Node) (linkId : Arr 16) (plaintext : Bytes) (rng : Entropy) : Node × Except NodeError Unit :=
  match n.activeLink linkId with
  | none => (n, .error .unknown)
  | some (key, interface) =>
    let (iv, _) := rng.fill 16
    let ciphertext := Token.sealWithKey key plaintext iv
    let n := n.push interface (Packet.linkData linkId ciphertext)
    ({ n with links := n.links.modify linkId fun link => { link with lastActivity := n.nowSecs } }, .ok ())

def enqueueEncryptedLinkContext (n : Node) (linkId : Arr 16) (interface : UInt16) (context : UInt8)
    (plaintext : Bytes) (key : Arr 64) (rng : Entropy) : Node × Entropy :=
  let (iv, rng) := rng.fill 16
  let encrypted := Token.sealWithKey key plaintext iv
  (n.push interface (Packet.linkContext linkId context encrypted), rng)

/-- `None` when the search for a collision-free map is still running after `fuel` draws. -/
def sendResource [Rmp] [Bzip2] (n : Node) (fuel : Nat) (linkId : Arr 16) (data : Bytes) (rng : Entropy) :
    Option (Node × Except NodeError (Arr 32)) :=
  match n.activeLink linkId with
  | none => some (n, .error .unknown)
  | some (key, interface) =>
    match OutboundResource.new fuel data key rng n.nowSecs with
    | none => none
    | some (.error e, _) => some (n, .error (.core e))
    | some (.ok (resource, advertisement), rng) =>
      let hash := resource.hash
      let n := { n with outboundResources := n.outboundResources.insert (linkId, hash) resource }
      some ((n.enqueueEncryptedLinkContext linkId interface RESOURCE_ADV advertisement key rng).1, .ok hash)

end

def closeLink (n : Node) (linkId : Arr 16) : Node :=
  match n.links[linkId]? with
  | none => n
  | some link =>
    if link.status ≠ .closed then
      { n with
        links := n.links.insert linkId { link with status := .closed }
        pendingEvents := n.pendingEvents ++ [.linkClosed linkId] }
    else n

/-! ## Tick -/

/-- What the tick does to one link. -/
inductive LinkTick
  | idle
  | stale
  | keepalive
  deriving DecidableEq

def linkTick (now : Nat) (link : LinkEntry) : LinkTick :=
  if link.status ≠ .active then .idle
  else if now - link.lastActivity ≥ LINK_STALE_SECS then .stale
  else if link.initiator ∧ now - link.lastKeepalive ≥ LINK_KEEPALIVE_SECS then .keepalive
  else .idle

def tickedLink (now : Nat) (link : LinkEntry) : LinkEntry :=
  match linkTick now link with
  | .idle => link
  | .stale => { link with status := .closed }
  | .keepalive => { link with lastKeepalive := now }

/-- The link ids the tick finds stale, in key order. -/
def staleLinks (n : Node) (now : Nat) : List (Arr 16) :=
  n.links.toList.filterMap fun (id, link) => if linkTick now link = .stale then some id else none

/-- The interface and id of the links due a keepalive, in key order. -/
def keepaliveLinks (n : Node) (now : Nat) : List (UInt16 × Arr 16) :=
  n.links.toList.filterMap fun (id, link) =>
    if linkTick now link = .keepalive then some (link.interface, id) else none

def keepaliveFrame (byte : UInt8) (interface : UInt16) (linkId : Arr 16) : UInt16 × Bytes :=
  (interface, (Packet.linkDataWithContext linkId [byte] KEEPALIVE).encode)

/-- Receipts and links: the first half of the tick. -/
def tickLinks (n : Node) : Node :=
  let now := n.nowSecs
  { n with
    pendingReceipts := n.pendingReceipts.filter fun _ receipt => receipt.expiresAt > now
    links := n.links.map fun _ link => tickedLink now link
    outbound := n.outbound ++ (n.keepaliveLinks now).map fun (interface, id) => keepaliveFrame 0xFF interface id
    pendingEvents := n.pendingEvents ++ (n.staleLinks now).map .linkClosed }

section
variable [Crypto]

/-- One pass of the retry loop over the inbound resources. -/
def tickResource (s : Node × Option Entropy) (key : ResourceKey) : Node × Option Entropy :=
  let (n, rng) := s
  match n.inboundResources[key]? with
  | none => (n, rng)
  | some resource =>
    let (resource, retry) := resource.retryDue n.nowSecs
    let n := { n with inboundResources := n.inboundResources.insert key resource }
    match retry with
    | .ok (some request) =>
      match rng, (n.links[key.1]?).bind fun link => link.derivedKey.map fun k => (link.interface, k) with
      | some rng, some (interface, k) =>
        let (n, rng) := n.enqueueEncryptedLinkContext key.1 interface RESOURCE_REQ request k rng
        (n, some rng)
      | _, _ => (n, rng)
    | .error _ =>
      ({ n with
          inboundResources := n.inboundResources.erase key
          pendingEvents := n.pendingEvents ++ [.resourceFailed key.1 key.2] }, rng)
    | .ok none => (n, rng)

def tickResources (n : Node) (rng : Option Entropy) : Node :=
  (n.inboundResources.keys.foldl tickResource (n, rng)).1

def drainEvents (n : Node) : Node × List Event := ({ n with pendingEvents := [] }, n.pendingEvents)

def tickInner (n : Node) (rng : Option Entropy) : Node × List Event :=
  (n.tickLinks.tickResources rng).drainEvents

def tick (n : Node) : Node × List Event := n.tickInner none

def tickWithEntropy (n : Node) (rng : Entropy) : Node × List Event := n.tickInner (some rng)

end

end Node

end Reticulum
