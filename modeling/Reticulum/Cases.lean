import Mathlib.Tactic.Simps.Basic
import Reticulum.Step
import Reticulum.Codec

/-!
# What each local operation can do

One inversion lemma per operation: every way it can end, with the guards that
lead there. Later proofs split on these cases and unfold no operation again.
-/

namespace Reticulum

namespace Node

/-! ## Updates -/

/-- The node with the packets encoded at the end of its queue. -/
@[simps] def emit (n : Node) (ps : List (UInt16 × Packet)) : Node :=
  { n with outbound := n.outbound ++ ps.map fun s => (s.1, s.2.encode) }

@[simps] def setLink (n : Node) (id : Arr 16) (link : LinkEntry) : Node :=
  { n with links := n.links.insert id link }

@[simps] def setInbound (n : Node) (key : ResourceKey) (r : InboundResource) : Node :=
  { n with inboundResources := n.inboundResources.insert key r }

@[simps] def dropInbound (n : Node) (key : ResourceKey) : Node :=
  { n with inboundResources := n.inboundResources.erase key }

@[simps] def setOutbound (n : Node) (key : ResourceKey) (r : OutboundResource) : Node :=
  { n with outboundResources := n.outboundResources.insert key r }

@[simps] def dropOutbound (n : Node) (key : ResourceKey) : Node :=
  { n with outboundResources := n.outboundResources.erase key }

@[simps] def addSigned (n : Node) (msg : Bytes) : Node := { n with signed := n.signed ++ [msg] }

@[simps] def addReceipt (n : Node) (h : Arr 32) (r : PendingReceipt) : Node :=
  { n with pendingReceipts := n.pendingReceipts.insert h r }

theorem emit_nil (n : Node) : n.emit [] = n := by simp [emit]

theorem push_eq_emit (n : Node) (i : UInt16) (p : Packet) : n.push i p = n.emit [(i, p)] := rfl

theorem pushAll_eq_emit (n : Node) (is : List UInt16) (p : Packet) :
    n.pushAll is p = n.emit (is.map fun i => (i, p)) := by simp [pushAll, emit, Function.comp_def]

theorem emit_emit (n : Node) (ps qs : List (UInt16 × Packet)) : (n.emit ps).emit qs = n.emit (ps ++ qs) := by
  simp [emit]

/-- The frames a step puts in the queue. Taking one out adds none. -/
def enqueued (n n' : Node) : List (UInt16 × Bytes) := n'.outbound.drop n.outbound.length

theorem enqueued_of_append {n n' : Node} {fs : List (UInt16 × Bytes)} (h : n'.outbound = n.outbound ++ fs) :
    n.enqueued n' = fs := by simp [enqueued, h]

theorem enqueued_emit {n m : Node} (h : m.outbound = n.outbound) (ps : List (UInt16 × Packet)) :
    n.enqueued (m.emit ps) = ps.map fun s => (s.1, s.2.encode) :=
  enqueued_of_append (by rw [emit_outbound, h])

/-- A link entry that is Active on an interface, with its key. -/
structure ActiveOn (n : Node) (id : Arr 16) (i : UInt16) (link : LinkEntry) (key : Arr 64) : Prop where
  get : n.links[id]? = some link
  status : link.status = .active
  interface : link.interface = i
  key : link.derivedKey = some key

theorem activeLink_eq_some {n : Node} {id : Arr 16} {key : Arr 64} {i : UInt16}
    (h : n.activeLink id = some (key, i)) : ∃ link, n.ActiveOn id i link key := by
  unfold activeLink at h
  split at h
  · cases h
  · rename_i link hl
    split at h
    · rename_i hst
      obtain ⟨k, hk, hki⟩ := Option.map_eq_some_iff.mp h
      cases hki
      exact ⟨link, hl, hst, rfl, hk⟩
    · cases h

/-! ## Routing -/

/-- A route readdresses a packet to the next hop, or leaves it as it is. -/
theorem route_ok {e : PathEntry} {p q : Packet} (h : route e p = .ok q) :
    q = p ∨ ∃ t, e.nextHopTransportId = some t ∧ q = viaNextHop p t := by
  unfold route at h
  split at h
  · split at h
    · cases h
    · rename_i t ht
      cases h
      exact .inr ⟨t, ht, rfl⟩
  · cases h
    exact .inl rfl

/-- What routing never touches. -/
structure SameContent (p q : Packet) : Prop where
  packetType : q.packetType = p.packetType
  destType : q.destType = p.destType
  destHash : q.destHash = p.destHash
  context : q.context = p.context
  data : q.data = p.data

theorem SameContent.hashablePart {p q : Packet} (h : SameContent p q) : q.hashablePart = p.hashablePart := by
  simp only [Packet.hashablePart, h.packetType, h.destType, h.destHash, h.context, h.data]

theorem route_sameContent {e : PathEntry} {p q : Packet} (h : route e p = .ok q) : SameContent p q := by
  rcases route_ok h with rfl | ⟨t, _, rfl⟩ <;> exact ⟨rfl, rfl, rfl, rfl, rfl⟩

theorem route_wellFormed {e : PathEntry} {p q : Packet} (hp : p.WellFormed) (h : route e p = .ok q) :
    q.WellFormed := by
  rcases route_ok h with rfl | ⟨t, _, rfl⟩
  · exact hp
  · exact hp.toHeader2 t

/-- How a GROUP or PLAIN packet is enqueued. -/
inductive EnqueueCase (n : Node) (p : Packet) (d : Arr 16) : Node × Except NodeError Unit → Prop
  | failed (err : NodeError) : EnqueueCase n p d (n.prunePaths, .error err)
  | routed {e : PathEntry} {q : Packet} : n.prunePaths.paths.get d = some e → route e p = .ok q →
    EnqueueCase n p d (n.prunePaths.emit [(e.interface, q)], .ok ())
  | broadcast : n.prunePaths.paths.get d = none →
    EnqueueCase n p d (n.prunePaths.emit (n.interfaces.map fun i => (i, p)), .ok ())

theorem enqueueDestinationPacket_cases (n : Node) (p : Packet) (d : Arr 16) :
    EnqueueCase n p d (n.enqueueDestinationPacket p d) := by
  unfold enqueueDestinationPacket
  dsimp only
  split
  · split
    · exact .failed _
    · exact .routed ‹_› ‹_›
  · split
    · exact .failed _
    · rw [pushAll_eq_emit]
      exact .broadcast ‹_›

variable [Crypto]

/-! ## Sends -/

/-- The ciphertext of a message to a SINGLE destination. -/
def sealedFor (e : PathEntry) (pt : Bytes) (rng : Entropy) : Bytes :=
  Token.encrypt e.pub pt (rng.fill 32).1 ((rng.fill 32).2.fill 16).1

/-- How a send to a SINGLE destination ends. -/
inductive SendSingleCase (n : Node) (d : Arr 16) (pt : Bytes) (rng : Entropy) (receipt : Bool) :
    Node × Except NodeError (Option (Arr 32)) → Prop
  | failed (err : NodeError) : SendSingleCase n d pt rng receipt (n.prunePaths, .error err)
  | sent {e : PathEntry} {p : Packet} : n.prunePaths.paths.get d = some e →
    route e (Packet.dataSingle d (sealedFor e pt rng)) = .ok p → receipt = false →
    SendSingleCase n d pt rng receipt (n.prunePaths.emit [(e.interface, p)], .ok none)
  | sentWithReceipt {e : PathEntry} {p : Packet} : n.prunePaths.paths.get d = some e →
    route e (Packet.dataSingle d (sealedFor e pt rng)) = .ok p → receipt = true →
    SendSingleCase n d pt rng receipt
      ((n.prunePaths.emit [(e.interface, p)]).addReceipt p.fullPacketHash
        ⟨e.pub, satAdd n.nowSecs RECEIPT_TIMEOUT_SECS⟩, .ok (some p.fullPacketHash))

theorem sendSingleMessage_cases (n : Node) (d : Arr 16) (pt : Bytes) (rng : Entropy) (receipt : Bool) :
    SendSingleCase n d pt rng receipt (n.sendSingleMessage d pt rng receipt) := by
  unfold sendSingleMessage
  dsimp only
  split
  · exact .failed _
  · split
    · exact .failed _
    · cases receipt with
      | true => exact .sentWithReceipt ‹_› ‹_› rfl
      | false => exact .sent ‹_› ‹_› rfl

theorem sendMessage_fst (n : Node) (d : Arr 16) (pt : Bytes) (rng : Entropy) :
    (n.sendMessage d pt rng).1 = (n.sendSingleMessage d pt rng false).1 := by
  unfold sendMessage
  split <;> simp_all only

theorem sendMessageWithReceipt_fst (n : Node) (d : Arr 16) (pt : Bytes) (rng : Entropy) :
    (n.sendMessageWithReceipt d pt rng).1 = (n.sendSingleMessage d pt rng true).1 := by
  unfold sendMessageWithReceipt
  split <;> simp_all only

/-- The announce that `send_announce` makes for a local destination. -/
def announceFor (n : Node) (l : LocalDestination) (appData : Bytes) (rng : Entropy) : Announce :=
  Announce.build n.identity l.destHash l.nameHash (rng.fill 10).1 appData

/-- How `send_announce` ends. -/
inductive SendAnnounceCase (n : Node) (d : Arr 16) (appData : Bytes) (rng : Entropy) (i : UInt16) : Node → Prop
  | unknown : SendAnnounceCase n d appData rng i n
  | sent {l : LocalDestination} : l ∈ n.locals → l.destHash = d →
    SendAnnounceCase n d appData rng i
      ((({ n with
            cachedAnnounces :=
              n.cachedAnnounces.insert d (Packet.announce d (n.announceFor l appData rng).toPayload) } : Node).addSigned
          (Announce.signedData d n.identity.public.toBytes l.nameHash (rng.fill 10).1 none appData)).emit
        [(i, Packet.announce d (n.announceFor l appData rng).toPayload)])

theorem sendAnnounce_cases (n : Node) (d : Arr 16) (appData : Bytes) (rng : Entropy) (i : UInt16) :
    SendAnnounceCase n d appData rng i (n.sendAnnounce d appData rng i) := by
  unfold sendAnnounce
  split
  · exact .unknown
  · rename_i l hl
    have hd : l.destHash = d := by simpa using (List.find?_some hl : _ = true) |> fun h => (decide_eq_true_eq.mp h).1
    subst hd
    exact .sent (List.mem_of_find?_eq_some hl) rfl

/-! ## Links -/

/-- The entry of a link just requested. -/
def requestedLink (n : Node) (e : PathEntry) (eph : LinkEphemeral) : LinkEntry where
  status := .pending
  initiator := true
  ephemeral := eph
  peerX25519Pub := none
  destinationPublic := some e.pub
  derivedKey := none
  interface := e.interface
  lastActivity := n.nowSecs
  lastKeepalive := n.nowSecs

/-- The request that `establish_link` sends, before routing. -/
def linkRequestFor (d : Arr 16) (rng : Entropy) : Packet :=
  Packet.linkRequest d (linkRequestPayload (LinkEphemeral.generate rng).1)

theorem linkRequestFor_wellFormed (d : Arr 16) (rng : Entropy) : (linkRequestFor d rng).WellFormed :=
  Packet.wellFormed_newHeader1 (by decide) (by decide) _ _ _

/-- How `establish_link` ends. -/
inductive EstablishCase (n : Node) (d : Arr 16) (rng : Entropy) : Node × Except NodeError (Arr 16) → Prop
  | failed (err : NodeError) : EstablishCase n d rng (n.prunePaths, .error err)
  | requested {e : PathEntry} {q : Packet} : n.prunePaths.paths.get d = some e →
    route e (linkRequestFor d rng) = .ok q →
    EstablishCase n d rng
      ((n.prunePaths.setLink (linkIdFromRequest (linkRequestFor d rng))
          (n.requestedLink e (LinkEphemeral.generate rng).1)).emit [(e.interface, q)],
        .ok (linkIdFromRequest (linkRequestFor d rng)))

theorem establishLink_cases (n : Node) (d : Arr 16) (rng : Entropy) :
    EstablishCase n d rng (n.establishLink d rng) := by
  unfold establishLink
  dsimp only
  split
  · exact .failed _
  · split
    · exact .failed _
    · exact .requested ‹_› ‹_›

/-- How `link_send` ends. -/
inductive LinkSendCase (n : Node) (id : Arr 16) (pt : Bytes) (rng : Entropy) : Node × Except NodeError Unit → Prop
  | failed (err : NodeError) : LinkSendCase n id pt rng (n, .error err)
  | sent {i : UInt16} {link : LinkEntry} {key : Arr 64} : n.ActiveOn id i link key →
    LinkSendCase n id pt rng
      ((n.touch id link).emit [(i, Packet.linkData id (Token.sealWithKey key pt (rng.fill 16).1))], .ok ())

theorem linkSend_cases (n : Node) (id : Arr 16) (pt : Bytes) (rng : Entropy) :
    LinkSendCase n id pt rng (n.linkSend id pt rng) := by
  unfold linkSend
  split
  · exact .failed _
  · rename_i key i hact
    obtain ⟨link, h⟩ := activeLink_eq_some hact
    have hmod := BTreeMap.modify_eq_insert h.get fun link => { link with lastActivity := n.nowSecs }
    have hsent : LinkSendCase n id pt rng _ := .sent h
    simp only [touch, emit, ← hmod] at hsent
    exact hsent

/-- How `send_resource` ends when it returns. -/
inductive SendResourceCase [Rmp] [Bzip2] (n : Node) (fuel : Nat) (id : Arr 16) (data : Bytes) (rng : Entropy) :
    Node × Except NodeError (Arr 32) → Prop
  | failed (err : NodeError) : SendResourceCase n fuel id data rng (n, .error err)
  | sent {i : UInt16} {link : LinkEntry} {key : Arr 64} {r : OutboundResource} {adv : Bytes} {rng' : Entropy} :
    n.ActiveOn id i link key → OutboundResource.new fuel data key rng n.nowSecs = some (.ok (r, adv), rng') →
    SendResourceCase n fuel id data rng
      ((n.setOutbound (id, r.hash) r).emit
        [(i, Packet.linkContext id RESOURCE_ADV (Token.sealWithKey key adv (rng'.fill 16).1))], .ok r.hash)

theorem sendResource_cases [Rmp] [Bzip2] {n : Node} {fuel : Nat} {id : Arr 16} {data : Bytes} {rng : Entropy}
    {r : Node × Except NodeError (Arr 32)} (h : n.sendResource fuel id data rng = some r) :
    SendResourceCase n fuel id data rng r := by
  unfold sendResource at h
  split at h
  · cases h
    exact .failed _
  · obtain ⟨link, hact⟩ := activeLink_eq_some ‹_›
    split at h
    · cases h
    · cases h
      exact .failed _
    · cases h
      exact .sent hact ‹_›

/-- How `close_link` ends. -/
inductive CloseCase (n : Node) (id : Arr 16) : Node → Prop
  | unknown : n.links[id]? = none → CloseCase n id n
  | already {link : LinkEntry} : n.links[id]? = some link → link.status = .closed → CloseCase n id n
  | closed {link : LinkEntry} : n.links[id]? = some link → link.status ≠ .closed →
    CloseCase n id
      { n.setLink id { link with status := .closed } with pendingEvents := n.pendingEvents ++ [.linkClosed id] }

omit [Crypto] in
theorem closeLink_cases (n : Node) (id : Arr 16) : CloseCase n id (n.closeLink id) := by
  unfold closeLink
  split
  · exact .unknown ‹_›
  · split
    · exact .closed ‹_› ‹_›
    · exact .already ‹_› (by simpa using ‹¬ _ ≠ _›)

/-! ## Tick -/

/-- What the retry loop does with one resource. -/
inductive TickResourceCase (n : Node) (rng : Option Entropy) (key : ResourceKey) : Node × Option Entropy → Prop
  | gone : n.inboundResources[key]? = none → TickResourceCase n rng key (n, rng)
  | failed {r : InboundResource} {e : CoreError} : n.inboundResources[key]? = some r →
    (r.retryDue n.nowSecs).2 = .error e →
    TickResourceCase n rng key
      ({ (n.setInbound key (r.retryDue n.nowSecs).1).dropInbound key with
          pendingEvents := n.pendingEvents ++ [.resourceFailed key.1 key.2] }, rng)
  | kept {r : InboundResource} : n.inboundResources[key]? = some r →
    TickResourceCase n rng key (n.setInbound key (r.retryDue n.nowSecs).1, rng)
  | requested {r : InboundResource} {request : Bytes} {rng' : Entropy} {link : LinkEntry} {k : Arr 64} :
    n.inboundResources[key]? = some r → (r.retryDue n.nowSecs).2 = .ok (some request) → rng = some rng' →
    n.links[key.1]? = some link → link.derivedKey = some k →
    TickResourceCase n rng key
      ((n.setInbound key (r.retryDue n.nowSecs).1).emit
        [(link.interface, Packet.linkContext key.1 RESOURCE_REQ (Token.sealWithKey k request (rng'.fill 16).1))],
        some (rng'.fill 16).2)

theorem tickResource_cases (n : Node) (rng : Option Entropy) (key : ResourceKey) :
    TickResourceCase n rng key (tickResource (n, rng) key) := by
  unfold tickResource
  dsimp only
  split
  · exact .gone ‹_›
  · rename_i r hr
    split
    · rename_i request hreq
      split
      · rename_i rng' i k hlink
        simp only [Option.bind_eq_some_iff, Option.map_eq_some_iff, Prod.mk.injEq] at hlink
        obtain ⟨link, hl, k', hk, rfl, rfl⟩ := hlink
        exact .requested hr hreq rfl hl hk
      · exact .kept hr
    · exact .failed hr ‹_›
    · exact .kept hr

end Node

end Reticulum
