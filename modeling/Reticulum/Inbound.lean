import Reticulum.Node

/-!
# The node: inbound frames

The second half of `node.rs`: `handle_inbound` with its dedup map and the
handler of each packet type.
-/

namespace Reticulum

namespace Node

variable [Crypto]

/-! ## Links -/

def hasSingle (n : Node) (destHash : Arr 16) : Bool :=
  n.locals.any fun l => l.destHash = destHash ∧ l.kind.isSingle

/-- A HEADER_2 packet names the relay it is for. -/
def addressedElsewhere (n : Node) (packet : Packet) : Bool :=
  packet.headerType = HEADER_2 ∧ (n.transportEnabled = false ∨ packet.transportId ≠ some n.identity.hash)

def handleLinkRequest (n : Node) (packet : Packet) (destHash : Arr 16) (interface : UInt16) (rng : Entropy) :
    Node × List Event :=
  if n.addressedElsewhere packet then (n, [])
  else if n.hasSingle destHash = false then (n, [])
  else
    match parseLinkRequest packet.data with
    | .error _ => (n, [])
    | .ok (peerX25519Pub, _) =>
      let linkId := linkIdFromRequest packet
      match n.links[linkId]? with
      | some _ => (n, [])
      | none =>
        let (ephemeral, _) := LinkEphemeral.generate rng
        let key := deriveLinkKey ephemeral.x25519Prv peerX25519Pub linkId
        let proof := buildLinkProof n.identity linkId ephemeral
        let now := n.nowSecs
        let n := { n with
          signed := n.signed ++ [linkProofMessage linkId ephemeral.x25519Pub n.identity.public.sigPub []]
          links := n.links.insert linkId
            { status := .active
              initiator := false
              ephemeral := ephemeral
              peerX25519Pub := some peerX25519Pub
              destinationPublic := none
              derivedKey := some key
              interface := interface
              lastActivity := now
              lastKeepalive := now } }
        (n.push interface (Packet.proof linkId proof LRPROOF), [.linkEstablished linkId])

/-- The MessagePack float the initiator finishes the handshake with. -/
def rttPlaintext : Bytes := [0xCB, 0, 0, 0, 0, 0, 0, 0, 0]

def handleLinkProof (n : Node) (packet : Packet) (linkId : Arr 16) (rng : Option Entropy) : Node × List Event :=
  match n.links[linkId]? with
  | none => (n, [])
  | some link =>
    if ¬ (link.status = .pending ∧ link.initiator) then (n, [])
    else
      match link.destinationPublic with
      | none => (n, [])
      | some destinationPublic =>
        match verifyLinkProof destinationPublic linkId packet.data with
        | .error e => (n, [.error (.core e)])
        | .ok peerX25519Pub =>
          let key := deriveLinkKey link.ephemeral.x25519Prv peerX25519Pub linkId
          let n := { n with
            links := n.links.insert linkId
              { link with
                status := .active
                peerX25519Pub := some peerX25519Pub
                derivedKey := some key
                lastActivity := n.nowSecs } }
          let n := match rng with
            | some rng => (n.enqueueEncryptedLinkContext linkId link.interface LRRTT rttPlaintext key rng).1
            | none => n
          (n, [.linkEstablished linkId])

/-! ## Resources -/

section
variable [Rmp]

/-- Sends one output of `on_request`. -/
def sendOutput (linkId : Arr 16) (interface : UInt16) (key : Arr 64) (s : Node × Entropy) (output : ResourceOutput) :
    Node × Entropy :=
  let (n, rng) := s
  match output with
  | .part part => (n.push interface (Packet.linkContext linkId RESOURCE part), rng)
  | .hashmapUpdate update => n.enqueueEncryptedLinkContext linkId interface RESOURCE_HMU update key rng

/-- Asks for the next parts of a resource, when it has any to ask for. -/
def requestNext (n : Node) (linkId : Arr 16) (interface : UInt16) (key : Arr 64) (hash : Arr 32) (rng : Entropy) :
    Node :=
  match n.inboundResources[(linkId, hash)]? with
  | none => n
  | some resource =>
    let (resource, request) := resource.nextRequest n.nowSecs
    let n := { n with inboundResources := n.inboundResources.insert (linkId, hash) resource }
    match request with
    | some request => (n.enqueueEncryptedLinkContext linkId interface RESOURCE_REQ request key rng).1
    | none => n

/-- The resource hash a request names: behind the flag, and behind the map hash when it asks for more map. -/
def requestHash (plaintext : Bytes) : Option (Arr 32) :=
  if plaintext.head? = some 0xFF then Arr.slice? plaintext 5 32 else Arr.slice? plaintext 1 32

def handleResourceContext (n : Node) (linkId : Arr 16) (interface : UInt16) (key : Arr 64) (context : UInt8)
    (plaintext : Bytes) (rng : Entropy) : Node × List Event :=
  if context = RESOURCE_ADV then
    match ResourceAdvertisement.unpack plaintext with
    | .error e => (n, [.error (.core e)])
    | .ok advertisement =>
      match InboundResource.fromAdvertisement advertisement with
      | .error e => (n, [.error (.core e)])
      | .ok resource =>
        let hash := resource.hash
        let n := { n with inboundResources := n.inboundResources.insert (linkId, hash) resource }
        (n.requestNext linkId interface key hash rng, [.resourceStarted linkId hash resource.totalSize])
  else if context = RESOURCE_REQ then
    match requestHash plaintext with
    | none => (n, [])
    | some hash =>
      match n.outboundResources[(linkId, hash)]? with
      | none => (n, [])
      | some resource =>
        let (resource, outputs) := resource.onRequest plaintext n.nowSecs
        let n := { n with outboundResources := n.outboundResources.insert (linkId, hash) resource }
        ((outputs.foldl (sendOutput linkId interface key) (n, rng)).1, [])
  else if context = RESOURCE_HMU then
    match Arr.slice? plaintext 0 32 with
    | none => (n, [])
    | some hash =>
      match n.inboundResources[(linkId, hash)]? with
      | none => (n, [])
      | some resource =>
        let (resource, result) := resource.onHashmapUpdate plaintext
        let n := { n with inboundResources := n.inboundResources.insert (linkId, hash) resource }
        match result with
        | .error _ => (n, [])
        | .ok () => (n.requestNext linkId interface key hash rng, [])
  else if context = RESOURCE_ICL ∨ context = RESOURCE_RCL then
    match Arr.slice? plaintext 0 32 with
    | none => (n, [])
    | some hash =>
      ({ n with
          inboundResources := n.inboundResources.erase (linkId, hash)
          outboundResources := n.outboundResources.erase (linkId, hash) }, [.resourceFailed linkId hash])
  else (n, [])

end

section
variable [Bzip2]

/-- What follows an accepted part: the end of the transfer, or the next request once the last one is
served. The source drops a request made while the resource still counts retries. -/
def partAccepted (n : Node) (linkId : Arr 16) (interface : UInt16) (key : Arr 64) (hash : Arr 32)
    (resource : InboundResource) (rng : Option Entropy) : Node × List Event :=
  let progress := Event.resourceProgress linkId hash resource.receivedParts resource.totalParts
  if resource.isComplete then
    let n := { n with inboundResources := n.inboundResources.erase (linkId, hash) }
    match resource.finalize key with
    | .ok data =>
      (n.push interface (Packet.proof linkId (resource.proofPacket data) RESOURCE_PRF),
        [progress, .resourceComplete linkId hash data])
    | .error _ => (n, [progress, .resourceFailed linkId hash])
  else
    match rng with
    | none => (n, [progress])
    | some rng =>
      if resource.readyForRequest then
        let (resource, request) := resource.nextRequest n.nowSecs
        let n := { n with inboundResources := n.inboundResources.insert (linkId, hash) resource }
        match request.filter fun _ => resource.retries = 0 with
        | some request => ((n.enqueueEncryptedLinkContext linkId interface RESOURCE_REQ request key rng).1, [progress])
        | none => (n, [progress])
      else (n, [progress])

/-- The loop over the candidate resources: the first that accepts the part takes it. -/
def offerPart (n : Node) (linkId : Arr 16) (interface : UInt16) (key : Arr 64) (part : Bytes)
    (rng : Option Entropy) : List ResourceKey → Node × List Event
  | [] => (n, [])
  | resourceKey :: rest =>
    match n.inboundResources[resourceKey]? with
    | none => offerPart n linkId interface key part rng rest
    | some resource =>
      let (resource, accepted) := resource.onPart part
      if accepted = false then offerPart n linkId interface key part rng rest
      else
        let n := { n with inboundResources := n.inboundResources.insert resourceKey resource }
        n.partAccepted linkId interface key resourceKey.2 resource rng

def handleResourcePart (n : Node) (linkId : Arr 16) (interface : UInt16) (key : Arr 64) (part : Bytes)
    (rng : Option Entropy) : Node × List Event :=
  offerPart n linkId interface key part rng (n.inboundResources.keys.filter (·.1 = linkId))

end

omit [Crypto] in
def handleResourceProof (n : Node) (packet : Packet) (linkId : Arr 16) : Node × List Event :=
  match Arr.slice? packet.data 0 32 with
  | none => (n, [])
  | some hash =>
    match n.outboundResources[(linkId, hash)]? with
    | none => (n, [])
    | some resource =>
      let (resource, completed) := resource.onProof packet.data
      if completed then
        ({ n with outboundResources := n.outboundResources.erase (linkId, hash) },
          [.resourceComplete linkId hash []])
      else ({ n with outboundResources := n.outboundResources.insert (linkId, hash) resource }, [])

/-! ## Link data -/

/-- `link.last_activity = self.clock.now_secs()` -/
@[simps] def touch (n : Node) (linkId : Arr 16) (link : LinkEntry) : Node :=
  { n with links := n.links.insert linkId { link with lastActivity := n.nowSecs } }

def handleLinkData [Rmp] [Bzip2] (n : Node) (packet : Packet) (linkId : Arr 16) (interface : UInt16)
    (rng : Option Entropy) : Node × List Event :=
  match n.links[linkId]? with
  | none => (n, [])
  | some link =>
    if ¬ (link.status = .active ∧ link.interface = interface) then (n, [])
    else
      match link.derivedKey with
      | none => (n, [])
      | some key =>
        if packet.context = RESOURCE then n.handleResourcePart linkId interface key packet.data rng
        else if packet.context = KEEPALIVE then
          let n := if packet.data = [0xFF] then
              n.push interface (Packet.linkDataWithContext linkId [0xFE] KEEPALIVE)
            else n
          (n.touch linkId link, [])
        else
          match Token.openWithKey key packet.data with
          | .error e => (n, [.error (.core e)])
          | .ok plaintext =>
            let n := n.touch linkId link
            if packet.context = LRRTT then (n, [])
            else if packet.context = LINKCLOSE then
              if plaintext = linkId.1 then (n.closeLink linkId).tick else (n, [])
            else if packet.context = 0 then (n, [.linkData linkId plaintext])
            else
              -- the five resource contexts; the handler ignores every other one
              match rng with
              | some rng => n.handleResourceContext linkId interface key packet.context plaintext rng
              | none => (n, [])

/-! ## Delivery proofs -/

def handleDeliveryProof (n : Node) (packet : Packet) (proofDestination : Arr 16) : Node × List Event :=
  match Arr.slice? packet.data 0 32 with
  | none => (n, [])
  | some packetHash =>
    if proofDestinationHash packetHash ≠ proofDestination then (n, [])
    else
      match n.pendingReceipts[packetHash]? with
      | none => (n, [])
      | some receipt =>
        if verifyProof receipt.destinationPublic packet.data ≠ .ok packetHash then (n, [])
        else ({ n with pendingReceipts := n.pendingReceipts.erase packetHash }, [.delivered packetHash])

/-! ## Announces -/

/-- The emission time carried by bytes 5 to 9 of the random hash, big-endian. -/
def announceTimestamp (randomHash : Arr 10) : Nat :=
  (randomHash.1.drop 5).foldl (fun value byte => value * 256 + byte.toNat) 0

/-- The path entry an announce offers. -/
def announcedEntry (packet : Packet) (announce : Announce) (pub : PublicIdentity) (interface : UInt16)
    (now : Nat) : PathEntry where
  interface := interface
  nextHopTransportId := if packet.headerType = HEADER_2 then packet.transportId else none
  hops := packet.hops
  expiresAt := satAdd now PATH_EXPIRY_SECS
  timestamp := announceTimestamp announce.randomHash
  pub := pub
  ratchet := announce.ratchet

/-- An announce as a transport node passes it on. -/
def rebroadcast (n : Node) (packet : Packet) : Packet :=
  { packet with headerType := HEADER_2, propagation := TRANSPORT, transportId := some n.identity.hash }

def handleAnnounce (n : Node) (packet : Packet) (destHash : Arr 16) (interface : UInt16) : Node × List Event :=
  if n.locals.any (·.destHash = destHash) then (n, [])
  else
    match Announce.parse packet.data packet.contextFlag with
    | .error _ => (n, [])
    | .ok announce =>
      match announce.verify destHash with
      | .error e => (n, [.error (.core e)])
      | .ok () =>
        let now := n.nowSecs
        let seenKey := (destHash, announce.randomHash)
        if n.seenAnnounces.contains seenKey then (n, [])
        else
          let n := { n with seenAnnounces := n.seenAnnounces.insert seenKey (satAdd now PATH_EXPIRY_SECS) }
          match PublicIdentity.fromBytes announce.pub.1 with
          | .error e => (n, [.error (.core e)])
          | .ok pub =>
            let (paths, accepted) :=
              n.paths.update destHash (announcedEntry packet announce pub interface now) now
            if accepted = false then (n, [])
            else
              let n := { n with paths := paths, cachedAnnounces := n.cachedAnnounces.insert destHash packet }
              let n := if n.transportEnabled ∧ packet.hops < PATHFINDER_MAX_HOPS ∧ packet.context ≠ PATH_RESPONSE then
                  n.pushAll (n.interfaces.filter (· ≠ interface)) (n.rebroadcast packet)
                else n
              (n, [.announce destHash packet.hops])

/-! ## Path requests -/

/-- The cached announce as an answer to a path request. -/
def pathResponse (n : Node) (isLocal : Bool) (path : Option PathEntry) (cached : Packet) : Packet :=
  let response := { cached with context := PATH_RESPONSE }
  if isLocal then
    { response with headerType := HEADER_1, propagation := BROADCAST, hops := 0, transportId := none }
  else
    match path with
    | some path =>
      { response with
        headerType := HEADER_2, propagation := TRANSPORT, hops := path.hops, transportId := some n.identity.hash }
    | none => response

/-- The target, the requesting transport node and the tag of a path request. -/
def parsePathRequest (data : Bytes) : Option (Arr 16 × Option (Arr 16) × Arr 16) := do
  let target ← Arr.slice? data 0 16
  let requester ← if data.length ≥ 48 then some <$> Arr.slice? data 16 16 else some none
  let tag ← Arr.slice? data (if data.length ≥ 48 then 32 else 16) 16
  return (target, requester, tag)

def handlePathRequest (n : Node) (packet : Packet) (interface : UInt16) : Node :=
  match parsePathRequest packet.data with
  | none => n
  | some (target, requester, tag) =>
    let now := n.nowSecs
    if n.seenPathRequests.contains (target, tag) then n
    else
      let n := { n with seenPathRequests := n.seenPathRequests.insert (target, tag) (satAdd now 15) }
      let isLocal := n.locals.any (·.destHash = target)
      let path := n.paths.get target
      if isLocal = false ∧ (n.transportEnabled = false ∨ path = none) then n
      else if requester.isSome ∧ path.any (·.nextHopTransportId = requester) then n
      else
        match n.cachedAnnounces[target]? with
        | none => n
        | some cached => n.push interface (n.pathResponse isLocal path cached)

/-! ## Data -/

/-- A packet as it leaves towards the next hop of a route, or to a destination one hop away. -/
def forwardPacket (path : PathEntry) (packet : Packet) : Option Packet :=
  if path.hops > 1 then path.nextHopTransportId.map fun nextHop => { packet with transportId := some nextHop }
  else some { packet with headerType := HEADER_1, propagation := BROADCAST, transportId := none }

def forwardData (n : Node) (packet : Packet) (destHash : Arr 16) (interface : UInt16) : Node :=
  if packet.headerType = HEADER_2 ∧ packet.hops < PATHFINDER_MAX_HOPS then
    let n := n.prunePaths
    match (n.paths.get destHash).filter (·.interface ≠ interface) with
    | none => n
    | some path =>
      match forwardPacket path packet with
      | none => n
      | some forwarded => n.push path.interface forwarded
  else n

/-- The plaintext of a packet for a local destination, and whether to prove it. -/
def openLocal (n : Node) (kind : LocalDestinationKind) (packet : Packet) : Option (Except CoreError Bytes × Bool) :=
  match kind with
  | .single prove => if packet.destType = SINGLE then some (Token.decrypt n.identity packet.data, prove) else none
  | .group key => if packet.destType = GROUP then some (Token.openWithKey key packet.data, false) else none
  | .plain => if packet.destType = PLAIN then some (.ok packet.data, false) else none

def handleData (n : Node) (packet : Packet) (destHash : Arr 16) (interface : UInt16) : Node × List Event :=
  if n.addressedElsewhere packet then (n, [])
  else
    match n.locals.find? (·.destHash = destHash) with
    | none => (n.forwardData packet destHash interface, [])
    | some l =>
      match n.openLocal l.kind packet with
      | none => (n, [])
      | some (.error e, _) => (n, [.error (.core e)])
      | some (.ok plaintext, prove) =>
        let n := if prove then
            let packetHash := packet.fullPacketHash
            let proof := buildProof n.identity packetHash
            ({ n with signed := n.signed ++ [packetHash.1] } : Node).push interface
              (Packet.explicitProof (proofDestinationHash packetHash) proof)
          else n
        (n, [.message destHash plaintext])

/-! ## Dispatch -/

variable [Rmp] [Bzip2]

/-- The handler of an admitted packet. -/
def dispatch (n : Node) (packet : Packet) (destHash : Arr 16) (interface : UInt16) (rng : Option Entropy) :
    Node × List Event :=
  if packet.packetType = DATA ∧ packet.destType = PLAIN ∧ destHash = Packet.pathRequestDestinationHash then
    (n.handlePathRequest packet interface, [])
  else if packet.packetType = LINKREQUEST then
    match rng with
    | some rng => n.handleLinkRequest packet destHash interface rng
    | none => (n, [])
  else if packet.packetType = PROOF ∧ packet.destType = LINK ∧ packet.context = LRPROOF then
    n.handleLinkProof packet destHash rng
  else if packet.packetType = PROOF ∧ packet.destType = SINGLE then n.handleDeliveryProof packet destHash
  else if packet.packetType = PROOF ∧ packet.destType = LINK ∧ packet.context = RESOURCE_PRF then
    n.handleResourceProof packet destHash
  else if packet.packetType = DATA ∧ packet.destType = LINK then n.handleLinkData packet destHash interface rng
  else if packet.packetType = ANNOUNCE then n.handleAnnounce packet destHash interface
  else if packet.packetType = DATA then n.handleData packet destHash interface
  else (n, [])

/-- `u8::saturating_add(1)` -/
def satSucc (hops : UInt8) : UInt8 := if hops = 255 then 255 else hops + 1

/-- Everything before the dispatch: the hop limit, the sweep and the dedup map. `None` drops the
frame, with the node as it then is. -/
def admission (n : Node) (bytes : Bytes) : Node × Option (Packet × Arr 16) :=
  match Packet.decode bytes with
  | .error _ => (n, none)
  | .ok packet =>
    if packet.hops ≥ PATHFINDER_MAX_HOPS then (n, none)
    else
      let now := n.nowSecs
      let n := n.maybePrune now
      let packetHash := packet.packetHash
      if n.seenPackets.contains packetHash then (n, none)
      else
        let n := { n with seenPackets := n.seenPackets.insert packetHash (satAdd now PACKET_HASH_TTL_SECS) }
        let packet := { packet with hops := satSucc packet.hops }
        match Arr.ofSlice? 16 packet.destHash with
        | none => (n, none)
        | some destHash => (n, some (packet, destHash))

def handleInboundInner (n : Node) (bytes : Bytes) (interface : UInt16) (rng : Option Entropy) : Node × List Event :=
  match n.admission bytes with
  | (n, none) => (n, [])
  | (n, some (packet, destHash)) => n.dispatch packet destHash interface rng

def handleInbound (n : Node) (bytes : Bytes) (interface : UInt16) : Node × List Event :=
  n.handleInboundInner bytes interface none

def handleInboundWithEntropy (n : Node) (bytes : Bytes) (interface : UInt16) (rng : Entropy) : Node × List Event :=
  n.handleInboundInner bytes interface (some rng)

end Node

end Reticulum
