import Reticulum.Cases

/-!
# What each handler can do

The inversion lemmas of the inbound side: how a frame is admitted, which
handler gets it, and every way that handler can end.
-/

namespace Reticulum

namespace Node

/-! ## Admission -/

@[simp] theorem maybePrune_keeps (n : Node) (now : Nat) :
    (n.maybePrune now).identity = n.identity ∧ (n.maybePrune now).clock = n.clock ∧
      (n.maybePrune now).locals = n.locals ∧ (n.maybePrune now).paths = n.paths ∧
      (n.maybePrune now).interfaces = n.interfaces ∧ (n.maybePrune now).transportEnabled = n.transportEnabled ∧
      (n.maybePrune now).cachedAnnounces = n.cachedAnnounces ∧ (n.maybePrune now).outbound = n.outbound ∧
      (n.maybePrune now).links = n.links ∧ (n.maybePrune now).pendingEvents = n.pendingEvents ∧
      (n.maybePrune now).pendingReceipts = n.pendingReceipts ∧
      (n.maybePrune now).outboundResources = n.outboundResources ∧
      (n.maybePrune now).inboundResources = n.inboundResources ∧ (n.maybePrune now).signed = n.signed := by
  unfold maybePrune
  split <;> simp

/-- A decoded packet as the handlers see it. -/
def received (p : Packet) : Packet := { p with hops := p.hops + 1 }

theorem received_wellFormed {p : Packet} (h : p.WellFormed) : (received p).WellFormed := h.withHops _

theorem satSucc_of_lt {hops : UInt8} (h : hops < PATHFINDER_MAX_HOPS) : satSucc hops = hops + 1 := by
  unfold satSucc
  split
  · rename_i h255
    subst h255
    exact absurd h (by decide)
  · rfl

variable [Crypto]

/-- The node once a packet has passed the dedup map. -/
@[simps] def admitted (n : Node) (p : Packet) : Node :=
  { n.maybePrune n.nowSecs with
    seenPackets := (n.maybePrune n.nowSecs).seenPackets.insert p.packetHash (satAdd n.nowSecs PACKET_HASH_TTL_SECS) }

/-- A frame that passes the hop limit and the dedup map. -/
structure Admits (n : Node) (b : Bytes) (p : Packet) (d : Arr 16) : Prop where
  decoded : Packet.decode b = .ok p
  hops : p.hops < PATHFINDER_MAX_HOPS
  unseen : (n.maybePrune n.nowSecs).seenPackets.contains p.packetHash = false
  dest : p.destHash = d.1

/-- What becomes of a frame before the dispatch. -/
inductive AdmitCase (n : Node) (b : Bytes) : Node × Option (Packet × Arr 16) → Prop
  | malformed (h : ∀ p, Packet.decode b = .ok p → ¬ p.hops < PATHFINDER_MAX_HOPS) : AdmitCase n b (n, none)
  | duplicate {p : Packet} : Packet.decode b = .ok p → p.hops < PATHFINDER_MAX_HOPS →
    (n.maybePrune n.nowSecs).seenPackets.contains p.packetHash = true →
    AdmitCase n b (n.maybePrune n.nowSecs, none)
  | admitted {p : Packet} {d : Arr 16} : n.Admits b p d → AdmitCase n b (n.admitted p, some (received p, d))

theorem admission_cases (n : Node) (b : Bytes) : AdmitCase n b (n.admission b) := by
  unfold admission
  split
  · rename_i hdec
    exact .malformed fun p hp => by simp [hdec] at hp
  · rename_i p hdec
    split
    · rename_i hhops
      refine .malformed fun p' hp' => ?_
      cases hdec.symm.trans hp'
      exact UInt8.not_lt.mpr hhops
    · have hhops : p.hops < PATHFINDER_MAX_HOPS := UInt8.not_le.mp ‹_›
      dsimp only
      split
      · exact .duplicate hdec hhops ‹_›
      · rename_i hunseen
        have hd := Arr.ofSlice?_of_length (Packet.decode_wellFormed hdec).destHash
        simp only [hd, satSucc_of_lt hhops]
        exact .admitted ⟨hdec, hhops, Bool.eq_false_iff.mpr hunseen, rfl⟩

/-- What `Admits` says, the other way round. -/
theorem Admits.admission_eq {n : Node} {b : Bytes} {p : Packet} {d : Arr 16} (h : n.Admits b p d) :
    n.admission b = (n.admitted p, some (received p, d)) := by
  have hd := Arr.ofSlice?_eq_some.mpr h.dest
  simp only [admission, h.decoded, UInt8.not_le.mpr h.hops, if_false, h.unseen, Bool.false_eq_true, hd,
    satSucc_of_lt h.hops]
  rfl

/-! ## Path requests -/

/-- The path requests a node remembers after one. -/
def pathRequestSeen (n : Node) (p : Packet) : BTreeMap (Arr 16 × Arr 16) Nat :=
  match parsePathRequest p.data with
  | none => n.seenPathRequests
  | some (target, _, tag) =>
    if n.seenPathRequests.contains (target, tag) then n.seenPathRequests
    else n.seenPathRequests.insert (target, tag) (satAdd n.nowSecs 15)

/-- A path request that a cached announce answers: its target and what is known of it. -/
structure Answers (n : Node) (p : Packet) (target : Arr 16) (cached : Packet) : Prop where
  parsed : ∃ requester tag, parsePathRequest p.data = some (target, requester, tag) ∧
    n.seenPathRequests.contains (target, tag) = false ∧
    ¬ (requester.isSome ∧ (n.paths.get target).any (·.nextHopTransportId = requester) = true)
  known : n.locals.any (·.destHash = target) = true ∨ (n.transportEnabled = true ∧ n.paths.get target ≠ none)
  cached : n.cachedAnnounces[target]? = some cached

/-- The answer to a path request for a destination. -/
def answerFor (n : Node) (target : Arr 16) (cached : Packet) : Packet :=
  n.pathResponse (n.locals.any (·.destHash = target)) (n.paths.get target) cached

/-- How a path request ends. -/
inductive PathRequestCase (n : Node) (p : Packet) (i : UInt16) : Node → Prop
  | silent : PathRequestCase n p i { n with seenPathRequests := n.pathRequestSeen p }
  | answered {target : Arr 16} {cached : Packet} : n.Answers p target cached →
    PathRequestCase n p i
      (({ n with seenPathRequests := n.pathRequestSeen p } : Node).emit [(i, n.answerFor target cached)])

theorem handlePathRequest_case (n : Node) (p : Packet) (i : UInt16) : PathRequestCase n p i (n.handlePathRequest p i) := by
  have hsilent : PathRequestCase n p i { n with seenPathRequests := n.pathRequestSeen p } := .silent
  unfold handlePathRequest
  split
  · rename_i hparse
    simpa only [pathRequestSeen, hparse] using hsilent
  · rename_i target requester tag hparse
    dsimp only
    split
    · rename_i hseen
      simpa only [pathRequestSeen, hparse, hseen, if_true] using hsilent
    · rename_i hseen
      have hmap : n.pathRequestSeen p = n.seenPathRequests.insert (target, tag) (satAdd n.nowSecs 15) := by
        simp only [pathRequestSeen, hparse, hseen, Bool.false_eq_true, if_false]
      rw [hmap] at hsilent
      split
      · exact hsilent
      · rename_i hknown
        split
        · exact hsilent
        · rename_i hreq
          split
          · exact hsilent
          · rename_i cached hc
            have ha : n.Answers p target cached :=
              ⟨⟨requester, tag, hparse, Bool.eq_false_iff.mpr hseen, hreq⟩, by
                cases hloc : n.locals.any (·.destHash = target) with
                | true => exact .inl rfl
                | false =>
                  obtain ⟨ht, hp⟩ := not_or.mp fun h => hknown ⟨hloc, h⟩
                  exact .inr ⟨Bool.not_eq_false _ ▸ ht, hp⟩, hc⟩
            have h : PathRequestCase n p i _ := .answered ha
            rw [hmap] at h
            exact h

/-- A path request is answered, if at all, by the cached announce on its own interface. -/
theorem handlePathRequest_cases (n : Node) (p : Packet) (i : UInt16) :
    ∃ seen ps, n.handlePathRequest p i = ({ n with seenPathRequests := seen } : Node).emit ps ∧
      ∀ q ∈ ps, ∃ (target : Arr 16) (isLocal : Bool) (path : Option PathEntry) (cached : Packet),
        n.cachedAnnounces[target]? = some cached ∧ q = (i, n.pathResponse isLocal path cached) := by
  have h := n.handlePathRequest_case p i
  generalize n.handlePathRequest p i = m at h
  cases h with
  | silent => exact ⟨_, [], (emit_nil _).symm, by simp⟩
  | answered ha => exact ⟨_, [_], rfl, fun q hq => ⟨_, _, _, _, ha.cached, List.mem_singleton.mp hq⟩⟩

/-! ## Links -/

/-- The entry a responder makes for an accepted request. -/
def acceptedLink (n : Node) (id : Arr 16) (eph : LinkEphemeral) (peer : Arr 32) (i : UInt16) : LinkEntry where
  status := .active
  initiator := false
  ephemeral := eph
  peerX25519Pub := some peer
  destinationPublic := none
  derivedKey := some (deriveLinkKey eph.x25519Prv peer id)
  interface := i
  lastActivity := n.nowSecs
  lastKeepalive := n.nowSecs

/-- How a link request ends. -/
inductive LinkRequestCase (n : Node) (p : Packet) (d : Arr 16) (i : UInt16) (rng : Entropy) :
    Node × List Event → Prop
  | ignored : LinkRequestCase n p d i rng (n, [])
  | accepted {eph : LinkEphemeral} {peer other : Arr 32} : n.addressedElsewhere p = false → n.hasSingle d = true →
    parseLinkRequest p.data = .ok (peer, other) → n.links[linkIdFromRequest p]? = none →
    eph = (LinkEphemeral.generate rng).1 →
    LinkRequestCase n p d i rng
      (((n.addSigned
            (linkProofMessage (linkIdFromRequest p) eph.x25519Pub n.identity.public.sigPub [])).setLink
          (linkIdFromRequest p) (n.acceptedLink (linkIdFromRequest p) eph peer i)).emit
        [(i, Packet.proof (linkIdFromRequest p) (buildLinkProof n.identity (linkIdFromRequest p) eph) LRPROOF)],
        [.linkEstablished (linkIdFromRequest p)])

theorem handleLinkRequest_cases (n : Node) (p : Packet) (d : Arr 16) (i : UInt16) (rng : Entropy) :
    LinkRequestCase n p d i rng (n.handleLinkRequest p d i rng) := by
  unfold handleLinkRequest
  split
  · exact .ignored
  · split
    · exact .ignored
    · split
      · exact .ignored
      · rename_i helse hsingle _ _ _ hparse
        dsimp only
        split
        · exact .ignored
        · exact .accepted (Bool.eq_false_iff.mpr helse) (Bool.not_eq_false _ ▸ hsingle) hparse ‹_› rfl

/-- The initiator's entry once the proof is verified. -/
def provenLink (n : Node) (link : LinkEntry) (id : Arr 16) (peer : Arr 32) : LinkEntry :=
  { link with
    status := .active
    peerX25519Pub := some peer
    derivedKey := some (deriveLinkKey link.ephemeral.x25519Prv peer id)
    lastActivity := n.nowSecs }

/-- How a link proof ends. -/
inductive LinkProofCase (n : Node) (p : Packet) (id : Arr 16) (rng : Option Entropy) : Node × List Event → Prop
  | ignored : LinkProofCase n p id rng (n, [])
  | badProof (e : CoreError) : LinkProofCase n p id rng (n, [.error (.core e)])
  | proven {link : LinkEntry} {pub : PublicIdentity} {peer : Arr 32} {ps : List (UInt16 × Packet)} :
    n.links[id]? = some link → link.status = .pending → link.initiator = true →
    link.destinationPublic = some pub → verifyLinkProof pub id p.data = .ok peer →
    (∀ q ∈ ps, ∃ ct, q = (link.interface, Packet.linkContext id LRRTT ct)) →
    LinkProofCase n p id rng ((n.setLink id (n.provenLink link id peer)).emit ps, [.linkEstablished id])

theorem handleLinkProof_cases (n : Node) (p : Packet) (id : Arr 16) (rng : Option Entropy) :
    LinkProofCase n p id rng (n.handleLinkProof p id rng) := by
  unfold handleLinkProof
  split
  · exact .ignored
  · rename_i link hl
    split
    · exact .ignored
    · rename_i hst
      obtain ⟨hpend, hinit⟩ := Decidable.not_not.mp hst
      split
      · exact .ignored
      · rename_i pub hpub
        split
        · exact .badProof _
        · rename_i peer hv
          dsimp only
          cases rng with
          | none =>
            have h : LinkProofCase n p id none ((n.setLink id (n.provenLink link id peer)).emit [], _) :=
              .proven hl hpend hinit hpub hv (by simp)
            rwa [emit_nil] at h
          | some rng =>
            exact .proven hl hpend hinit hpub hv fun q hq => ⟨_, List.mem_singleton.mp hq⟩

/-! ## Delivery proofs -/

/-- How an explicit proof ends. -/
inductive DeliveryProofCase (n : Node) (p : Packet) : Node × List Event → Prop
  | ignored : DeliveryProofCase n p (n, [])
  | delivered {h : Arr 32} {receipt : PendingReceipt} : n.pendingReceipts[h]? = some receipt →
    verifyProof receipt.destinationPublic p.data = .ok h →
    DeliveryProofCase n p ({ n with pendingReceipts := n.pendingReceipts.erase h }, [.delivered h])

theorem handleDeliveryProof_cases (n : Node) (p : Packet) (d : Arr 16) :
    DeliveryProofCase n p (n.handleDeliveryProof p d) := by
  unfold handleDeliveryProof
  split
  · exact .ignored
  · split
    · exact .ignored
    · split
      · exact .ignored
      · split
        · exact .ignored
        · exact .delivered ‹_› (Decidable.not_not.mp ‹_›)

/-! ## Announces -/

/-- The node once a verified announce is noted in the dedup map. -/
@[simps] def noted (n : Node) (d : Arr 16) (a : Announce) : Node :=
  { n with
    seenAnnounces := n.seenAnnounces.insert (d, a.randomHash) (satAdd n.nowSecs PATH_EXPIRY_SECS) }

/-- The node with the announced path and the announce kept. -/
@[simps] def learned (n : Node) (p : Packet) (d : Arr 16) (a : Announce) (pub : PublicIdentity) (i : UInt16) : Node :=
  { n.noted d a with
    paths := ⟨n.paths.entries.insert d (announcedEntry p a pub i n.nowSecs)⟩
    cachedAnnounces := n.cachedAnnounces.insert d p }

/-- A verified announce for a destination of another node, not seen before. -/
structure Announces (n : Node) (p : Packet) (d : Arr 16) (a : Announce) : Prop where
  foreign : n.locals.any (·.destHash = d) = false
  parsed : Announce.parse p.data p.contextFlag = .ok a
  verified : a.verify d = .ok ()
  unseen : n.seenAnnounces.contains (d, a.randomHash) = false

/-- Whether an accepted announce is passed on. -/
def rebroadcasts (n : Node) (p : Packet) : Prop :=
  n.transportEnabled = true ∧ p.hops < PATHFINDER_MAX_HOPS ∧ p.context ≠ PATH_RESPONSE

instance (n : Node) (p : Packet) : Decidable (n.rebroadcasts p) := inferInstanceAs (Decidable (_ ∧ _ ∧ _))

/-- The copies of an accepted announce that are passed on. -/
def rebroadcastCopies (n : Node) (p : Packet) (i : UInt16) : List (UInt16 × Packet) :=
  if n.rebroadcasts p then (n.interfaces.filter (· ≠ i)).map fun j => (j, n.rebroadcast p) else []

/-- How an announce ends. -/
inductive AnnounceCase (n : Node) (p : Packet) (d : Arr 16) (i : UInt16) : Node × List Event → Prop
  | ignored : AnnounceCase n p d i (n, [])
  | badSignature (e : CoreError) : AnnounceCase n p d i (n, [.error (.core e)])
  | notBetter {a : Announce} {pub : PublicIdentity} : n.Announces p d a →
    PublicIdentity.fromBytes a.pub.1 = .ok pub → AnnounceCase n p d i (n.noted d a, [])
  | accepted {a : Announce} {pub : PublicIdentity} : n.Announces p d a →
    PublicIdentity.fromBytes a.pub.1 = .ok pub →
    n.paths.update d (announcedEntry p a pub i n.nowSecs) n.nowSecs =
      (⟨n.paths.entries.insert d (announcedEntry p a pub i n.nowSecs)⟩, true) →
    AnnounceCase n p d i
      ((n.learned p d a pub i).emit (n.rebroadcastCopies p i), [.announce d p.hops])

theorem handleAnnounce_cases (n : Node) (p : Packet) (d : Arr 16) (i : UInt16) :
    AnnounceCase n p d i (n.handleAnnounce p d i) := by
  unfold handleAnnounce
  split
  · exact .ignored
  · rename_i hforeign
    split
    · exact .ignored
    · rename_i a hparse
      split
      · exact .badSignature _
      · rename_i hverify
        dsimp only
        split
        · exact .ignored
        · rename_i hunseen
          have ha : n.Announces p d a :=
            ⟨Bool.eq_false_iff.mpr hforeign, hparse, hverify, Bool.eq_false_iff.mpr hunseen⟩
          obtain ⟨pub, hpub⟩ := PublicIdentity.fromBytes_arr a.pub
          simp only [hpub]
          rcases n.paths.update_cases d (announcedEntry p a pub i n.nowSecs) n.nowSecs with hu | hu
          · simp only [hu, if_true]
            exact .notBetter ha hpub
          · simp only [hu, Bool.true_eq_false, if_false]
            have hacc := AnnounceCase.accepted (i := i) ha hpub hu
            split
            · rename_i hr
              rw [rebroadcastCopies, if_pos (show n.rebroadcasts p from hr)] at hacc
              rw [pushAll_eq_emit]
              exact hacc
            · rename_i hr
              rw [rebroadcastCopies, if_neg (show ¬ n.rebroadcasts p from hr), emit_nil] at hacc
              exact hacc

/-! ## Data -/

/-- A route a HEADER_2 packet is forwarded along, and what leaves. -/
structure Forwards (n : Node) (p : Packet) (d : Arr 16) (i : UInt16) (path : PathEntry) (q : Packet) : Prop where
  header : p.headerType = HEADER_2
  hops : p.hops < PATHFINDER_MAX_HOPS
  route : n.prunePaths.paths.get d = some path
  away : path.interface ≠ i
  forwarded : forwardPacket path p = some q

omit [Crypto] in
/-- A forwarded packet differs from the received one in its header only. -/
theorem forwardPacket_sameContent {path : PathEntry} {p q : Packet} (h : forwardPacket path p = some q) :
    SameContent p q ∧ q.hops = p.hops := by
  unfold forwardPacket at h
  split at h
  · obtain ⟨_, -, rfl⟩ := Option.map_eq_some_iff.mp h
    exact ⟨⟨rfl, rfl, rfl, rfl, rfl⟩, rfl⟩
  · cases h
    exact ⟨⟨rfl, rfl, rfl, rfl, rfl⟩, rfl⟩

omit [Crypto] in
theorem forwardPacket_wellFormed {path : PathEntry} {p q : Packet} (hp : p.WellFormed) (h2 : p.headerType = HEADER_2)
    (h : forwardPacket path p = some q) : q.WellFormed := by
  unfold forwardPacket at h
  split at h
  · obtain ⟨t, -, rfl⟩ := Option.map_eq_some_iff.mp h
    exact hp.withTransportId h2 t
  · cases h
    exact hp.toHeader1

/-- How a packet for another destination ends. -/
inductive ForwardCase (n : Node) (p : Packet) (d : Arr 16) (i : UInt16) : Node → Prop
  | dropped : ForwardCase n p d i n
  | noRoute : ForwardCase n p d i n.prunePaths
  | forwarded {path : PathEntry} {q : Packet} : n.Forwards p d i path q →
    ForwardCase n p d i (n.prunePaths.emit [(path.interface, q)])

omit [Crypto] in
theorem forwardData_cases (n : Node) (p : Packet) (d : Arr 16) (i : UInt16) :
    ForwardCase n p d i (n.forwardData p d i) := by
  unfold forwardData
  split
  · rename_i h
    dsimp only
    split
    · exact .noRoute
    · rename_i path hp
      rw [Option.filter_eq_some_iff] at hp
      split
      · exact .noRoute
      · exact .forwarded ⟨h.1, h.2, hp.1, by simpa using hp.2, ‹_›⟩
  · exact .dropped

/-- How a packet for a destination ends. -/
inductive DataCase (n : Node) (p : Packet) (d : Arr 16) (i : UInt16) : Node × List Event → Prop
  | ignored : DataCase n p d i (n, [])
  | badToken (e : CoreError) : DataCase n p d i (n, [.error (.core e)])
  | relayed : n.addressedElsewhere p = false → n.locals.find? (·.destHash = d) = none →
    DataCase n p d i (n.forwardData p d i, [])
  | message {l : LocalDestination} {pt : Bytes} : n.addressedElsewhere p = false →
    n.locals.find? (·.destHash = d) = some l → n.openLocal l.kind p = some (.ok pt, false) →
    DataCase n p d i (n, [.message d pt])
  | provenMessage {l : LocalDestination} {pt : Bytes} : n.addressedElsewhere p = false →
    n.locals.find? (·.destHash = d) = some l → n.openLocal l.kind p = some (.ok pt, true) →
    DataCase n p d i
      ((n.addSigned p.fullPacketHash.1).emit
        [(i, Packet.explicitProof (proofDestinationHash p.fullPacketHash) (buildProof n.identity p.fullPacketHash))],
        [.message d pt])

theorem handleData_cases (n : Node) (p : Packet) (d : Arr 16) (i : UInt16) :
    DataCase n p d i (n.handleData p d i) := by
  unfold handleData
  split
  · exact .ignored
  · rename_i helse
    have helse : n.addressedElsewhere p = false := Bool.eq_false_iff.mpr helse
    split
    · exact .relayed helse ‹_›
    · split
      · exact .ignored
      · exact .badToken _
      · rename_i l hl _ pt prove ho
        cases prove with
        | false => exact .message helse hl ho
        | true => exact .provenMessage helse hl ho

/-! ## Resources -/

/-- How a resource proof ends. -/
inductive ResourceProofCase (n : Node) (p : Packet) (id : Arr 16) : Node × List Event → Prop
  | ignored : ResourceProofCase n p id (n, [])
  | completed {hash : Arr 32} {r : OutboundResource} : Arr.slice? p.data 0 32 = some hash →
    n.outboundResources[(id, hash)]? = some r → (r.onProof p.data).2 = true →
    ResourceProofCase n p id (n.dropOutbound (id, hash), [.resourceComplete id hash []])
  | kept {hash : Arr 32} {r : OutboundResource} : Arr.slice? p.data 0 32 = some hash →
    n.outboundResources[(id, hash)]? = some r → (r.onProof p.data).2 = false →
    ResourceProofCase n p id (n.setOutbound (id, hash) (r.onProof p.data).1, [])

omit [Crypto] in
theorem handleResourceProof_cases (n : Node) (p : Packet) (id : Arr 16) :
    ResourceProofCase n p id (n.handleResourceProof p id) := by
  unfold handleResourceProof
  split
  · exact .ignored
  · split
    · exact .ignored
    · dsimp only
      split
      · exact .completed ‹_› ‹_› ‹_›
      · rename_i h
        exact .kept ‹_› ‹_› (Bool.eq_false_iff.mpr h)

/-- Frames on one interface, all of them link packets of one id with one of the contexts. -/
def LinkFrames (id : Arr 16) (i : UInt16) (contexts : List UInt8) (ps : List (UInt16 × Packet)) : Prop :=
  ∀ q ∈ ps, ∃ c ∈ contexts, ∃ data, q = (i, Packet.linkContext id c data)

omit [Crypto] in
theorem LinkFrames.nil (id : Arr 16) (i : UInt16) (contexts : List UInt8) : LinkFrames id i contexts [] :=
  fun _ hq => nomatch hq

omit [Crypto] in
theorem LinkFrames.single {id : Arr 16} {i : UInt16} {contexts : List UInt8} {c : UInt8} (hc : c ∈ contexts)
    (data : Bytes) : LinkFrames id i contexts [(i, Packet.linkContext id c data)] :=
  fun _ hq => ⟨c, hc, data, List.mem_singleton.mp hq⟩

omit [Crypto] in
theorem LinkFrames.append {id : Arr 16} {i : UInt16} {contexts : List UInt8} {ps qs : List (UInt16 × Packet)}
    (hp : LinkFrames id i contexts ps) (hq : LinkFrames id i contexts qs) : LinkFrames id i contexts (ps ++ qs) :=
  fun q h => (List.mem_append.mp h).elim (hp q) (hq q)

theorem sendOutput_eq [Rmp] (id : Arr 16) (i : UInt16) (key : Arr 64) (s : Node × Entropy) (o : ResourceOutput) :
    ∃ ps, (sendOutput id i key s o).1 = s.1.emit ps ∧ LinkFrames id i [RESOURCE, RESOURCE_HMU] ps := by
  cases o with
  | part part => exact ⟨[_], push_eq_emit _ _ _, LinkFrames.single (by simp) _⟩
  | hashmapUpdate update => exact ⟨[_], push_eq_emit _ _ _, LinkFrames.single (by simp) _⟩

theorem sendOutputs_eq [Rmp] (id : Arr 16) (i : UInt16) (key : Arr 64) (outputs : List ResourceOutput)
    (s : Node × Entropy) :
    ∃ ps, (outputs.foldl (sendOutput id i key) s).1 = s.1.emit ps ∧
      LinkFrames id i [RESOURCE, RESOURCE_HMU] ps := by
  induction outputs generalizing s with
  | nil => exact ⟨[], (emit_nil _).symm, LinkFrames.nil _ _ _⟩
  | cons o rest ih =>
    obtain ⟨ps, hps, hf⟩ := sendOutput_eq id i key s o
    obtain ⟨qs, hqs, hg⟩ := ih (sendOutput id i key s o)
    refine ⟨ps ++ qs, ?_, hf.append hg⟩
    rw [List.foldl_cons, hqs, hps, emit_emit]

/-- Asking for more leaves the resource's next state and at most one request. -/
theorem requestNext_eq (n : Node) (id : Arr 16) (i : UInt16) (key : Arr 64) (hash : Arr 32) {r : InboundResource}
    (hr : n.inboundResources[(id, hash)]? = some r) (rng : Entropy) :
    ∃ ps, n.requestNext id i key hash rng =
        (n.setInbound (id, hash) (r.nextRequest n.nowSecs).1).emit ps ∧ LinkFrames id i [RESOURCE_REQ] ps := by
  unfold requestNext
  simp only [hr]
  split
  · exact ⟨[_], push_eq_emit _ _ _, LinkFrames.single (by simp) _⟩
  · exact ⟨[], (emit_nil _).symm, LinkFrames.nil _ _ _⟩

/-- How an opened frame of a resource context ends. -/
inductive ResourceContextCase [Rmp] (n : Node) (id : Arr 16) (i : UInt16) (context : UInt8) (pt : Bytes) :
    Node × List Event → Prop
  | ignored : ResourceContextCase n id i context pt (n, [])
  | badAdvertisement (e : CoreError) : ResourceContextCase n id i context pt (n, [.error (.core e)])
  | advertised {a : ResourceAdvertisement} {r : InboundResource} {ps : List (UInt16 × Packet)} :
    context = RESOURCE_ADV → ResourceAdvertisement.unpack pt = .ok a →
    InboundResource.fromAdvertisement a = .ok r → LinkFrames id i [RESOURCE_REQ] ps →
    ResourceContextCase n id i context pt
      ((n.setInbound (id, r.hash) (r.nextRequest n.nowSecs).1).emit ps, [.resourceStarted id r.hash r.totalSize])
  | served {hash : Arr 32} {r : OutboundResource} {ps : List (UInt16 × Packet)} :
    n.outboundResources[(id, hash)]? = some r → LinkFrames id i [RESOURCE, RESOURCE_HMU] ps →
    ResourceContextCase n id i context pt
      ((n.setOutbound (id, hash) (r.onRequest pt n.nowSecs).1).emit ps, [])
  | badUpdate {hash : Arr 32} {r : InboundResource} : n.inboundResources[(id, hash)]? = some r →
    ResourceContextCase n id i context pt (n.setInbound (id, hash) (r.onHashmapUpdate pt).1, [])
  | updated {hash : Arr 32} {r : InboundResource} {ps : List (UInt16 × Packet)} :
    n.inboundResources[(id, hash)]? = some r → LinkFrames id i [RESOURCE_REQ] ps →
    ResourceContextCase n id i context pt
      ((n.setInbound (id, hash) ((r.onHashmapUpdate pt).1.nextRequest n.nowSecs).1).emit ps, [])
  | cancelled (hash : Arr 32) :
    ResourceContextCase n id i context pt
      ((n.dropInbound (id, hash)).dropOutbound (id, hash), [.resourceFailed id hash])

omit [Crypto] in
theorem setInbound_setInbound (n : Node) (key : ResourceKey) (r r' : InboundResource) :
    (n.setInbound key r).setInbound key r' = n.setInbound key r' := by
  simp only [setInbound, BTreeMap.insert_insert]

theorem handleResourceContext_cases [Rmp] (n : Node) (id : Arr 16) (i : UInt16) (key : Arr 64) (context : UInt8)
    (pt : Bytes) (rng : Entropy) :
    ResourceContextCase n id i context pt (n.handleResourceContext id i key context pt rng) := by
  unfold handleResourceContext
  split
  · -- RESOURCE_ADV
    rename_i hctx
    split
    · exact .badAdvertisement _
    · split
      · exact .badAdvertisement _
      · rename_i a hun _ r hfrom
        obtain ⟨ps, heq, hps⟩ := requestNext_eq (n.setInbound (id, r.hash) r) id i key r.hash (r := r)
          (by simp) rng
        rw [setInbound_setInbound] at heq
        have h := ResourceContextCase.advertised (n := n) hctx hun hfrom hps
        simp only [setInbound, nowSecs] at heq h ⊢
        rwa [heq]
  · split
    · -- RESOURCE_REQ
      split
      · exact .ignored
      · split
        · exact .ignored
        · rename_i hash _ _ r hr
          obtain ⟨ps, heq, hps⟩ := sendOutputs_eq id i key (r.onRequest pt n.nowSecs).2
            (n.setOutbound (id, hash) (r.onRequest pt n.nowSecs).1, rng)
          have h : ResourceContextCase n id i context pt _ := .served hr hps
          simp only [setOutbound] at heq h ⊢
          rwa [heq]
    · split
      · -- RESOURCE_HMU
        split
        · exact .ignored
        · split
          · exact .ignored
          · rename_i hash _ _ r hr
            dsimp only
            split
            · exact .badUpdate hr
            · obtain ⟨ps, heq, hps⟩ := requestNext_eq (n.setInbound (id, hash) (r.onHashmapUpdate pt).1) id i key
                hash (r := (r.onHashmapUpdate pt).1) (by simp) rng
              rw [setInbound_setInbound] at heq
              have h : ResourceContextCase n id i context pt _ := .updated hr hps
              simp only [setInbound, nowSecs] at heq h ⊢
              rwa [heq]
      · split
        · -- RESOURCE_ICL and RESOURCE_RCL
          split
          · exact .ignored
          · exact .cancelled _
        · exact .ignored

section
variable [Bzip2]

/-- How an accepted part ends. The first event is always the progress. -/
inductive PartCase (n : Node) (id : Arr 16) (i : UInt16) (key : Arr 64) (hash : Arr 32) (r : InboundResource) :
    Node × List Event → Prop
  | completed {data : Bytes} : r.isComplete = true → r.finalize key = .ok data →
    PartCase n id i key hash r
      ((n.dropInbound (id, hash)).emit [(i, Packet.proof id (r.proofPacket data) RESOURCE_PRF)],
        [.resourceProgress id hash r.receivedParts r.totalParts, .resourceComplete id hash data])
  | corrupt {e : CoreError} : r.isComplete = true → r.finalize key = .error e →
    PartCase n id i key hash r
      (n.dropInbound (id, hash),
        [.resourceProgress id hash r.receivedParts r.totalParts, .resourceFailed id hash])
  | waiting : r.isComplete = false →
    PartCase n id i key hash r (n, [.resourceProgress id hash r.receivedParts r.totalParts])
  | requested {ps : List (UInt16 × Packet)} : r.isComplete = false → LinkFrames id i [RESOURCE_REQ] ps →
    PartCase n id i key hash r
      ((n.setInbound (id, hash) (r.nextRequest n.nowSecs).1).emit ps,
        [.resourceProgress id hash r.receivedParts r.totalParts])

theorem partAccepted_cases (n : Node) (id : Arr 16) (i : UInt16) (key : Arr 64) (hash : Arr 32)
    (r : InboundResource) (rng : Option Entropy) :
    PartCase n id i key hash r (n.partAccepted id i key hash r rng) := by
  unfold partAccepted
  dsimp only
  split
  · split
    · exact .completed ‹_› ‹_›
    · exact .corrupt ‹_› ‹_›
  · rename_i hc
    have hc : r.isComplete = false := Bool.eq_false_iff.mpr hc
    split
    · exact .waiting hc
    · split
      · split
        · exact .requested hc (LinkFrames.single (List.mem_singleton_self _) _)
        · have h : PartCase n id i key hash r _ := .requested hc (LinkFrames.nil id i [RESOURCE_REQ])
          rwa [emit_nil] at h
      · exact .waiting hc

/-- How a part ends: refused by every resource of the link, or taken by one. -/
inductive OfferCase (n : Node) (id : Arr 16) (i : UInt16) (key : Arr 64) (part : Bytes) :
    Node × List Event → Prop
  | refused : OfferCase n id i key part (n, [])
  | taken {hash : Arr 32} {r : InboundResource} {out : Node × List Event} :
    n.inboundResources[(id, hash)]? = some r → (r.onPart part).2 = true →
    PartCase (n.setInbound (id, hash) (r.onPart part).1) id i key hash (r.onPart part).1 out →
    OfferCase n id i key part out

theorem offerPart_cases (n : Node) (id : Arr 16) (i : UInt16) (key : Arr 64) (part : Bytes) (rng : Option Entropy)
    (keys : List ResourceKey) (hkeys : ∀ k ∈ keys, k.1 = id) :
    OfferCase n id i key part (n.offerPart id i key part rng keys) := by
  induction keys with
  | nil => exact .refused
  | cons k rest ih =>
    obtain ⟨id', hash⟩ := k
    obtain rfl : id' = id := hkeys _ List.mem_cons_self
    have ih := ih fun k hk => hkeys k (List.mem_cons_of_mem _ hk)
    unfold offerPart
    split
    · exact ih
    · dsimp only
      split
      · exact ih
      · rename_i hacc
        exact .taken ‹_› (Bool.not_eq_false _ ▸ hacc) (partAccepted_cases _ _ _ _ _ _ _)

theorem handleResourcePart_cases (n : Node) (id : Arr 16) (i : UInt16) (key : Arr 64) (part : Bytes)
    (rng : Option Entropy) : OfferCase n id i key part (n.handleResourcePart id i key part rng) :=
  offerPart_cases _ _ _ _ _ _ _ fun k hk => by simpa using (List.mem_filter.mp hk).2

end

/-! ## Link data -/

variable [Rmp] [Bzip2]

/-- How a link data frame ends. -/
inductive LinkDataCase (n : Node) (p : Packet) (id : Arr 16) (i : UInt16) : Node × List Event → Prop
  | ignored : LinkDataCase n p id i (n, [])
  | part {link : LinkEntry} {key : Arr 64} {out : Node × List Event} : n.ActiveOn id i link key →
    p.context = RESOURCE → OfferCase n id i key p.data out → LinkDataCase n p id i out
  | keepalive {link : LinkEntry} {key : Arr 64} {ps : List (UInt16 × Packet)} : n.ActiveOn id i link key →
    LinkFrames id i [KEEPALIVE] ps → LinkDataCase n p id i ((n.touch id link).emit ps, [])
  | badToken {link : LinkEntry} {key : Arr 64} (e : CoreError) : n.ActiveOn id i link key →
    LinkDataCase n p id i (n, [.error (.core e)])
  | touched {link : LinkEntry} {key : Arr 64} : n.ActiveOn id i link key →
    LinkDataCase n p id i (n.touch id link, [])
  | closed {link : LinkEntry} {key : Arr 64} : n.ActiveOn id i link key →
    LinkDataCase n p id i ((n.touch id link).closeLink id).tick
  | data {link : LinkEntry} {key : Arr 64} {pt : Bytes} : n.ActiveOn id i link key → p.context = 0 →
    Token.openWithKey key p.data = .ok pt → LinkDataCase n p id i (n.touch id link, [.linkData id pt])
  | resource {link : LinkEntry} {key : Arr 64} {pt : Bytes} {out : Node × List Event} : n.ActiveOn id i link key →
    Token.openWithKey key p.data = .ok pt → ResourceContextCase (n.touch id link) id i p.context pt out →
    LinkDataCase n p id i out

theorem handleLinkData_cases (n : Node) (p : Packet) (id : Arr 16) (i : UInt16) (rng : Option Entropy) :
    LinkDataCase n p id i (n.handleLinkData p id i rng) := by
  unfold handleLinkData
  split
  · exact .ignored
  · rename_i link hl
    split
    · exact .ignored
    · rename_i hst
      obtain ⟨hst, hi⟩ := Decidable.not_not.mp hst
      split
      · exact .ignored
      · rename_i key hkey
        have hact : n.ActiveOn id i link key := ⟨hl, hst, hi, hkey⟩
        split
        · exact .part hact ‹_› (handleResourcePart_cases _ _ _ _ _ _)
        · split
          · dsimp only
            split
            · exact .keepalive hact (LinkFrames.single (List.mem_singleton_self _) _)
            · exact .touched hact
          · split
            · exact .badToken _ hact
            · rename_i pt hopen
              dsimp only
              split
              · exact .touched hact
              · split
                · split
                  · exact .closed hact
                  · exact .touched hact
                · split
                  · exact .data hact ‹_› hopen
                  · split
                    · exact .resource hact hopen (handleResourceContext_cases _ _ _ _ _ _ _)
                    · exact .touched hact

/-! ## Dispatch -/

/-- Which handler an admitted packet goes to. -/
inductive DispatchCase (n : Node) (p : Packet) (d : Arr 16) (i : UInt16) : Node × List Event → Prop
  | ignored : DispatchCase n p d i (n, [])
  | pathRequest : p.packetType = DATA → p.destType = PLAIN → d = Packet.pathRequestDestinationHash →
    DispatchCase n p d i (n.handlePathRequest p i, [])
  | linkRequest {rng : Entropy} {out : Node × List Event} : p.packetType = LINKREQUEST →
    LinkRequestCase n p d i rng out → DispatchCase n p d i out
  | linkProof {rng : Option Entropy} {out : Node × List Event} : p.packetType = PROOF → p.destType = LINK →
    p.context = LRPROOF → LinkProofCase n p d rng out → DispatchCase n p d i out
  | deliveryProof {out : Node × List Event} : p.packetType = PROOF → DeliveryProofCase n p out →
    DispatchCase n p d i out
  | resourceProof {out : Node × List Event} : p.packetType = PROOF → p.destType = LINK →
    p.context = RESOURCE_PRF → ResourceProofCase n p d out → DispatchCase n p d i out
  | linkData {out : Node × List Event} : p.packetType = DATA → p.destType = LINK → LinkDataCase n p d i out →
    DispatchCase n p d i out
  | announce {out : Node × List Event} : p.packetType = ANNOUNCE → AnnounceCase n p d i out →
    DispatchCase n p d i out
  | data {out : Node × List Event} : p.packetType = DATA → p.destType ≠ LINK →
    ¬ (p.destType = PLAIN ∧ d = Packet.pathRequestDestinationHash) → DataCase n p d i out →
    DispatchCase n p d i out

theorem dispatch_cases (n : Node) (p : Packet) (d : Arr 16) (i : UInt16) (rng : Option Entropy) :
    DispatchCase n p d i (n.dispatch p d i rng) := by
  unfold dispatch
  split
  · rename_i h
    exact .pathRequest h.1 h.2.1 h.2.2
  · rename_i hpr
    split
    · split
      · exact .linkRequest ‹_› (handleLinkRequest_cases _ _ _ _ _)
      · exact .ignored
    · split
      · rename_i h
        exact .linkProof h.1 h.2.1 h.2.2 (handleLinkProof_cases _ _ _ _)
      · split
        · rename_i h
          exact .deliveryProof h.1 (handleDeliveryProof_cases _ _ _)
        · split
          · rename_i h
            exact .resourceProof h.1 h.2.1 h.2.2 (handleResourceProof_cases _ _ _)
          · split
            · rename_i h
              exact .linkData h.1 h.2 (handleLinkData_cases _ _ _ _ _)
            · rename_i hlink
              split
              · exact .announce ‹_› (handleAnnounce_cases _ _ _ _)
              · split
                · rename_i hdata
                  exact .data hdata (fun h => hlink ⟨hdata, h⟩) (fun h => hpr ⟨hdata, h.1, h.2⟩)
                    (handleData_cases _ _ _ _)
                · exact .ignored

/-- How an inbound frame ends. -/
inductive InboundCase (n : Node) (b : Bytes) (i : UInt16) : Node × List Event → Prop
  | malformed : (∀ p, Packet.decode b = .ok p → ¬ p.hops < PATHFINDER_MAX_HOPS) → InboundCase n b i (n, [])
  | duplicate {p : Packet} : Packet.decode b = .ok p → p.hops < PATHFINDER_MAX_HOPS →
    (n.maybePrune n.nowSecs).seenPackets.contains p.packetHash = true →
    InboundCase n b i (n.maybePrune n.nowSecs, [])
  | admitted {p : Packet} {d : Arr 16} {out : Node × List Event} : n.Admits b p d →
    DispatchCase (n.admitted p) (received p) d i out → InboundCase n b i out

theorem handleInboundInner_cases (n : Node) (b : Bytes) (i : UInt16) (rng : Option Entropy) :
    InboundCase n b i (n.handleInboundInner b i rng) := by
  have h := n.admission_cases b
  unfold handleInboundInner
  generalize n.admission b = r at h
  cases h with
  | malformed h => exact .malformed h
  | duplicate hd hh hs => exact .duplicate hd hh hs
  | admitted ha => exact .admitted ha (dispatch_cases _ _ _ _ _)

end Node

end Reticulum
