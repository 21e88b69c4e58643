import Mathlib.Data.List.Nodup
import Reticulum.InboundCases

/-!
# What a step can do

The tick and the other public operations, sorted by the part of the node they
touch. An invariant over runs looks at these cases only.
-/

namespace Reticulum

namespace Node

variable [Crypto]

@[simp] theorem nowSecs_admitted (n : Node) (p : Packet) : (n.admitted p).nowSecs = n.nowSecs := by
  simp [nowSecs]

/-! ## Tick -/

/-- A request of the retry loop: which resource is due it, and over which link it goes. -/
structure RetryRequest (n : Node) (q : UInt16 × Packet) (key : ResourceKey) (r : InboundResource)
    (link : LinkEntry) : Prop where
  resource : n.inboundResources[key]? = some r
  due : ∃ request, (r.retryDue n.nowSecs).2 = .ok (some request)
  linked : n.links[key.1]? = some link
  keyed : link.derivedKey.isSome = true
  frame : ∃ data, q = (link.interface, Packet.linkContext key.1 RESOURCE_REQ data)

/-- What the retry loop over `keys` leaves: new resource states and the requests it sends. -/
structure RetryResult (n : Node) (rng : Option Entropy) (keys : List ResourceKey)
    (resources : BTreeMap ResourceKey InboundResource) (requests : List (UInt16 × Packet)) : Prop where
  other : ∀ k : ResourceKey, k ∉ keys → resources[k]? = n.inboundResources[k]?
  retried : ∀ (k : ResourceKey) (r' : InboundResource), resources[k]? = some r' →
    ∃ r : InboundResource, n.inboundResources[k]? = some r ∧ (r' = r ∨ r' = (r.retryDue n.nowSecs).1)
  justified : ∀ q ∈ requests, rng.isSome = true ∧ ∃ (key : ResourceKey) (r : InboundResource) (link : LinkEntry),
    key ∈ keys ∧ RetryRequest n q key r link

/-- The node after the retry loop. -/
@[simps] def retriedWith (n : Node) (resources : BTreeMap ResourceKey InboundResource)
    (failures : List (Arr 16 × Arr 32)) : Node :=
  { n with
    inboundResources := resources
    pendingEvents := n.pendingEvents ++ failures.map fun k => .resourceFailed k.1 k.2 }

theorem tickResource_result (n : Node) (rng : Option Entropy) (key : ResourceKey) :
    ∃ (resources : BTreeMap ResourceKey InboundResource) (failures : List (Arr 16 × Arr 32))
      (requests : List (UInt16 × Packet)),
      (tickResource (n, rng) key).1 = (n.retriedWith resources failures).emit requests ∧
      (tickResource (n, rng) key).2.isSome = rng.isSome ∧ RetryResult n rng [key] resources requests := by
  have h := tickResource_cases n rng key
  generalize tickResource (n, rng) key = out at h
  -- the map with the retried resource in its slot
  have hset (r : InboundResource) (hr : n.inboundResources[key]? = some r) :
      RetryResult n rng [key] (n.inboundResources.insert key (r.retryDue n.nowSecs).1) [] := by
    refine ⟨fun k hk => ?_, fun k r' hr' => ?_, by simp⟩
    · exact BTreeMap.getElem?_insert_ne fun h => hk (List.mem_singleton.mpr h.symm)
    · rw [Std.ExtTreeMap.getElem?_insert] at hr'
      split at hr'
      · rename_i hk
        obtain rfl : key = k := by simpa using hk
        exact ⟨r, hr, .inr (Option.some.inj hr').symm⟩
      · exact ⟨r', hr', .inl rfl⟩
  cases h with
  | gone hr =>
    refine ⟨n.inboundResources, [], [], ?_, rfl, fun _ _ => rfl, fun k r' hr' => ⟨r', hr', .inl rfl⟩, by simp⟩
    simp [retriedWith, emit_nil]
  | failed hr _ =>
    rename_i r e _
    refine ⟨(n.inboundResources.insert key (r.retryDue n.nowSecs).1).erase key, [key], [], ?_, rfl, ?_, ?_, by simp⟩
    · simp [retriedWith, emit_nil, dropInbound, setInbound]
    · intro k hk
      rw [BTreeMap.getElem?_erase_ne fun h => hk (List.mem_singleton.mpr h.symm)]
      exact (hset r hr).other k hk
    · intro k r' hr'
      rw [Std.ExtTreeMap.getElem?_erase] at hr'
      split at hr'
      · cases hr'
      · exact (hset r hr).retried k r' hr'
  | kept hr =>
    exact ⟨_, [], [], by simp [retriedWith, emit_nil, setInbound], rfl, hset _ hr⟩
  | requested hr hdue hrng hl hk =>
    refine ⟨_, [], [_], by simp only [retriedWith, List.map_nil, List.append_nil]; rfl, by simp [hrng],
      (hset _ hr).other, (hset _ hr).retried, fun q hq => ?_⟩
    have hreq : RetryRequest n q key _ _ := ⟨hr, ⟨_, hdue⟩, hl, by simp [hk], _, List.mem_singleton.mp hq⟩
    exact ⟨by simp [hrng], key, _, _, List.mem_singleton_self _, hreq⟩

/-- The retry loop takes each resource once, so the state before the loop decides what it does. -/
theorem retryLoop_result (keys : List ResourceKey) (hnd : keys.Nodup) (n : Node) (rng : Option Entropy) :
    ∃ (resources : BTreeMap ResourceKey InboundResource) (failures : List (Arr 16 × Arr 32))
      (requests : List (UInt16 × Packet)),
      (keys.foldl tickResource (n, rng)).1 = (n.retriedWith resources failures).emit requests ∧
      RetryResult n rng keys resources requests := by
  induction keys generalizing n rng with
  | nil =>
    refine ⟨n.inboundResources, [], [], ?_, fun _ _ => rfl, fun k r' hr' => ⟨r', hr', .inl rfl⟩, by simp⟩
    simp [retriedWith, emit_nil]
  | cons key rest ih =>
    obtain ⟨hkey, hrest⟩ := List.nodup_cons.mp hnd
    obtain ⟨res₁, fail₁, req₁, heq₁, hrng, h₁⟩ := tickResource_result n rng key
    obtain ⟨res₂, fail₂, req₂, heq₂, h₂⟩ :=
      ih hrest (tickResource (n, rng) key).1 (tickResource (n, rng) key).2
    rw [heq₁] at h₂
    have hother : ∀ k, k ≠ key → res₁[k]? = n.inboundResources[k]? := fun k hk => h₁.other k (by simpa using hk)
    refine ⟨res₂, fail₁ ++ fail₂, req₁ ++ req₂, ?_, ?_, ?_, ?_⟩
    · refine heq₂.trans ?_
      rw [heq₁]
      simp [retriedWith, emit]
    · intro k hk
      rw [List.mem_cons, not_or] at hk
      rw [h₂.other k hk.2]
      exact hother k hk.1
    · intro k r' hr'
      by_cases hk : k = key
      · subst hk
        rw [h₂.other k hkey] at hr'
        exact h₁.retried k r' hr'
      · obtain ⟨r, hr, hcase⟩ := h₂.retried k r' hr'
        exact ⟨r, (hother k hk).symm.trans hr, hcase⟩
    · intro q hq
      rcases List.mem_append.mp hq with hq | hq
      · obtain ⟨hs, k, r, link, hk, hreq⟩ := h₁.justified q hq
        exact ⟨hs, k, r, link, List.mem_cons.mpr (.inl (List.mem_singleton.mp hk)), hreq⟩
      · obtain ⟨hs, k, r, link, hk, hreq⟩ := h₂.justified q hq
        refine ⟨hrng ▸ hs, k, r, link, List.mem_cons_of_mem _ hk, ?_, hreq.due, hreq.linked, hreq.keyed, hreq.frame⟩
        exact (hother k fun h => hkey (h ▸ hk)).symm.trans hreq.resource

omit [Crypto] in
theorem linkTick_active (now : Nat) {link : LinkEntry} (h : linkTick now link ≠ .idle) : link.status = .active := by
  unfold linkTick at h
  split at h
  · exact absurd rfl h
  · exact Decidable.not_not.mp ‹_›

/-- The keepalive packets of a tick. -/
def keepalives (n : Node) : List (UInt16 × Packet) :=
  (n.keepaliveLinks n.nowSecs).map fun l => (l.1, Packet.linkContext l.2 KEEPALIVE [0xFF])

/-- A tick closes the stale links, reports them after the pending events, and sends keepalives and requests. -/
theorem tickInner_result (n : Node) (rng : Option Entropy) :
    ∃ (resources : BTreeMap ResourceKey InboundResource) (failures : List (Arr 16 × Arr 32))
      (requests : List (UInt16 × Packet)),
      RetryResult n rng n.inboundResources.keys resources requests ∧
      n.tickInner rng =
        (({ n with
            pendingReceipts := n.pendingReceipts.filter fun _ receipt => receipt.expiresAt > n.nowSecs
            links := n.links.map fun _ link => tickedLink n.nowSecs link
            pendingEvents := []
            inboundResources := resources } : Node).emit (n.keepalives ++ requests),
          n.pendingEvents ++ (n.staleLinks n.nowSecs).map .linkClosed ++
            failures.map fun k => .resourceFailed k.1 k.2) := by
  obtain ⟨res, fail, req, heq, h⟩ :=
    retryLoop_result n.tickLinks.inboundResources.keys Std.ExtTreeMap.nodup_keys n.tickLinks rng
  refine ⟨res, fail, req, ⟨h.other, h.retried, fun q hq => ?_⟩, ?_⟩
  · obtain ⟨hs, key, r, link, hk, hreq⟩ := h.justified q hq
    have hl := hreq.linked
    simp only [tickLinks, Std.ExtTreeMap.getElem?_map, Option.map_eq_some_iff] at hl
    obtain ⟨link', hl', rfl⟩ := hl
    have hkeep : (tickedLink n.nowSecs link').derivedKey = link'.derivedKey ∧
        (tickedLink n.nowSecs link').interface = link'.interface := by
      unfold tickedLink
      split <;> exact ⟨rfl, rfl⟩
    exact ⟨hs, key, r, link', hk, hreq.resource, hreq.due, hl', hkeep.1 ▸ hreq.keyed, hkeep.2 ▸ hreq.frame⟩
  · unfold tickInner tickResources
    rw [heq]
    simp only [drainEvents, emit, retriedWith, tickLinks, keepalives, List.map_append, List.map_map,
      List.append_assoc]
    rfl

/-! ## Frames -/

/-- What no handler touches: the configuration, the clock and the dedup map of packets. -/
structure SameConfig (n n' : Node) : Prop where
  identity : n'.identity = n.identity
  clock : n'.clock = n.clock
  locals : n'.locals = n.locals
  interfaces : n'.interfaces = n.interfaces
  transportEnabled : n'.transportEnabled = n.transportEnabled
  seenPackets : n'.seenPackets = n.seenPackets
  lastPrune : n'.lastPrune = n.lastPrune

/-- What traffic on links leaves alone besides. -/
structure SameRoutes (n n' : Node) : Prop extends SameConfig n n' where
  paths : n'.paths = n.paths
  seenAnnounces : n'.seenAnnounces = n.seenAnnounces
  seenPathRequests : n'.seenPathRequests = n.seenPathRequests
  cachedAnnounces : n'.cachedAnnounces = n.cachedAnnounces
  signed : n'.signed = n.signed

theorem tickInner_sameRoutes (n : Node) (rng : Option Entropy) : n.SameRoutes (n.tickInner rng).1 := by
  obtain ⟨_, _, _, -, heq⟩ := tickInner_result n rng
  rw [heq]
  constructor
  · constructor <;> rfl
  all_goals rfl

theorem LinkDataCase.sameRoutes [Rmp] [Bzip2] {n : Node} {p : Packet} {id : Arr 16} {i : UInt16}
    {out : Node × List Event} (h : LinkDataCase n p id i out) : n.SameRoutes out.1 := by
  have hrfl {m : Node} (h : m = { n with
      links := m.links
      outbound := m.outbound
      pendingEvents := m.pendingEvents
      outboundResources := m.outboundResources
      inboundResources := m.inboundResources }) : n.SameRoutes m := by
    rw [h]
    constructor
    · constructor <;> rfl
    all_goals rfl
  cases h with
  | part _ _ ho =>
    cases ho with
    | refused => exact hrfl rfl
    | taken _ _ hp => cases hp <;> exact hrfl rfl
  | @closed link _ ha =>
    have hclose : n.SameRoutes ((n.touch id link).closeLink id) := by
      have hc := closeLink_cases (n.touch id link) id
      generalize (n.touch id link).closeLink id = m at hc
      cases hc <;> exact hrfl rfl
    have ht := tickInner_sameRoutes ((n.touch id link).closeLink id) none
    exact ⟨⟨ht.identity.trans hclose.identity, ht.clock.trans hclose.clock, ht.locals.trans hclose.locals,
      ht.interfaces.trans hclose.interfaces, ht.transportEnabled.trans hclose.transportEnabled,
      ht.seenPackets.trans hclose.seenPackets, ht.lastPrune.trans hclose.lastPrune⟩, ht.paths.trans hclose.paths,
      ht.seenAnnounces.trans hclose.seenAnnounces, ht.seenPathRequests.trans hclose.seenPathRequests,
      ht.cachedAnnounces.trans hclose.cachedAnnounces, ht.signed.trans hclose.signed⟩
  | resource _ _ hr => cases hr <;> exact hrfl rfl
  | _ => exact hrfl rfl

theorem DispatchCase.sameConfig [Rmp] [Bzip2] {n : Node} {p : Packet} {d : Arr 16} {i : UInt16}
    {out : Node × List Event} (h : DispatchCase n p d i out) : n.SameConfig out.1 := by
  cases h with
  | pathRequest =>
    obtain ⟨_, _, heq, -⟩ := handlePathRequest_cases n p i
    rw [heq]
    constructor <;> rfl
  | ignored => constructor <;> rfl
  | linkRequest _ hr => cases hr <;> constructor <;> rfl
  | linkProof _ _ _ hr => cases hr <;> constructor <;> rfl
  | deliveryProof _ hr => cases hr <;> constructor <;> rfl
  | resourceProof _ _ _ hr => cases hr <;> constructor <;> rfl
  | linkData _ _ hr => exact hr.sameRoutes.toSameConfig
  | announce _ hr => cases hr <;> constructor <;> rfl
  | data _ _ _ hr =>
    cases hr with
    | relayed =>
      have hf := forwardData_cases n p d i
      generalize n.forwardData p d i = m at hf
      cases hf <;> constructor <;> rfl
    | _ => constructor <;> rfl

/-! ## Steps -/

/-- A step that sets the node up, or takes from it: it sends nothing and forgets at most expired paths. -/
structure Configured (n n' : Node) : Prop where
  eq : n' = { n with
    clock := n'.clock
    locals := n'.locals
    paths := n'.paths
    interfaces := n'.interfaces
    transportEnabled := n'.transportEnabled
    outbound := n'.outbound }
  paths : n'.paths = n.paths ∨ n'.paths = n.paths.prune n.nowSecs
  outbound : n'.outbound <:+ n.outbound
  interfaces : n.interfaces.Nodup → n'.interfaces.Nodup

/-- A step that sends DATA packets outside any link. -/
structure Sends (n n' : Node) (ps : List (UInt16 × Packet)) : Prop where
  eq : n' = ({ n with paths := n'.paths, pendingReceipts := n'.pendingReceipts } : Node).emit ps
  paths : n'.paths = n.paths ∨ n'.paths = n.paths.prune n.nowSecs
  frames : ∀ q ∈ ps, q.2.packetType = DATA ∧ q.2.destType ≠ LINK ∧ q.2.WellFormed

omit [Crypto] in
/-- A pruned path table has no entry that was not there. -/
theorem get_of_pruned {n n' : Node} (h : n'.paths = n.paths ∨ n'.paths = n.paths.prune n.nowSecs) {d : Arr 16}
    {e : PathEntry} (he : n'.paths.get d = some e) : n.paths.get d = some e := by
  rcases h with h | h
  · rwa [h] at he
  · rw [h] at he
    exact (PathTable.get_of_get_prune he).1

omit [Crypto] in
theorem registerInterface_nodup {n : Node} {i : UInt16} (h : n.interfaces.Nodup) :
    (n.registerInterface i).interfaces.Nodup := by
  unfold registerInterface
  split
  · exact h
  · rename_i hi
    exact List.nodup_append.mpr ⟨h, List.nodup_singleton i, by simpa using fun j hj => by rintro rfl; exact hi hj⟩

omit [Crypto] in
theorem route_sends {n : Node} {p q : Packet} {e : PathEntry} (hp : p.WellFormed) (ht : p.packetType = DATA)
    (hd : p.destType ≠ LINK) (h : route e p = .ok q) :
    n.Sends (n.prunePaths.emit [(e.interface, q)]) [(e.interface, q)] := by
  refine ⟨rfl, .inr rfl, ?_⟩
  rintro _ hmem
  rw [List.mem_singleton.mp hmem]
  have hs := route_sameContent h
  exact ⟨hs.packetType.trans ht, fun h' => hd (hs.destType.symm.trans h'), route_wellFormed hp h⟩

theorem sendSingleMessage_sends (n : Node) (d : Arr 16) (pt : Bytes) (rng : Entropy) (receipt : Bool) :
    ∃ ps, n.Sends (n.sendSingleMessage d pt rng receipt).1 ps := by
  have h := n.sendSingleMessage_cases d pt rng receipt
  have hw (ct : Bytes) : (Packet.dataSingle d ct).WellFormed :=
    Packet.wellFormed_newHeader1 (by decide) (by decide) _ _ _
  generalize n.sendSingleMessage d pt rng receipt = r at h
  cases h with
  | failed => exact ⟨[], by rw [emit_nil]; rfl, .inr rfl, by simp⟩
  | sent _ hr _ => exact ⟨_, route_sends (hw _) rfl (by decide : SINGLE ≠ LINK) hr⟩
  | sentWithReceipt _ hr _ =>
    exact ⟨_, rfl, .inr rfl, (route_sends (n := n) (hw _) rfl (by decide : SINGLE ≠ LINK) hr).frames⟩

omit [Crypto] in
theorem enqueueDestinationPacket_sends (n : Node) {p : Packet} (hp : p.WellFormed) (ht : p.packetType = DATA)
    (hd : p.destType ≠ LINK) (d : Arr 16) : ∃ ps, n.Sends (n.enqueueDestinationPacket p d).1 ps := by
  have h := n.enqueueDestinationPacket_cases p d
  generalize n.enqueueDestinationPacket p d = r at h
  cases h with
  | failed => exact ⟨[], by rw [emit_nil]; rfl, .inr rfl, by simp⟩
  | routed _ hr => exact ⟨_, route_sends hp ht hd hr⟩
  | broadcast =>
    refine ⟨_, rfl, .inr rfl, fun q hq => ?_⟩
    obtain ⟨i, -, rfl⟩ := List.mem_map.mp hq
    exact ⟨ht, hd, hp⟩

omit [Crypto] in
theorem wellFormed_linkContext (id : Arr 16) (c : UInt8) (data : Bytes) :
    (Packet.linkContext id c data).WellFormed := Packet.wellFormed_newHeader1 (by decide) (by decide) _ _ _

omit [Crypto] in
theorem wellFormed_proof (id : Arr 16) (data : Bytes) (c : UInt8) : (Packet.proof id data c).WellFormed :=
  Packet.wellFormed_newHeader1 (by decide) (by decide) _ _ _

omit [Crypto] in
theorem wellFormed_dataFor {t : UInt8} (ht : t < 4) (d : Arr 16) (data : Bytes) : (Packet.dataFor t d data).WellFormed :=
  Packet.wellFormed_newHeader1 ht (by decide) _ _ _

theorem pathResponse_wellFormed (n : Node) {p : Packet} (hp : p.WellFormed) (isLocal : Bool) (path : Option PathEntry) :
    (n.pathResponse isLocal path p).WellFormed := by
  have hc : Packet.WellFormed { p with context := PATH_RESPONSE } := ⟨hp.1, hp.2, hp.3, hp.4, hp.5, hp.6⟩
  unfold pathResponse
  dsimp only
  split
  · exact hc.toHeader1.withHops 0
  · split
    · exact (hc.toHeader2 _).withHops _
    · exact hc

theorem pathResponse_packetType (n : Node) (isLocal : Bool) (path : Option PathEntry) (p : Packet) :
    (n.pathResponse isLocal path p).packetType = p.packetType := by
  unfold pathResponse
  dsimp only
  split
  · rfl
  · split <;> rfl

theorem sendGroupMessage_sends (n : Node) (d : Arr 16) (pt : Bytes) (rng : Entropy) :
    ∃ ps, n.Sends (n.sendGroupMessage d pt rng).1 ps := by
  unfold sendGroupMessage
  split
  · exact ⟨[], by rw [emit_nil], .inl rfl, by simp⟩
  · exact enqueueDestinationPacket_sends n (wellFormed_dataFor (by decide) _ _) rfl (by decide : GROUP ≠ LINK) d

theorem requestPath_sends (n : Node) (d : Arr 16) (rng : Entropy) : ∃ ps, n.Sends (n.requestPath d rng) ps := by
  unfold requestPath
  dsimp only
  rw [pushAll_eq_emit]
  refine ⟨_, rfl, .inl rfl, fun q hq => ?_⟩
  obtain ⟨i, -, rfl⟩ := List.mem_map.mp hq
  exact ⟨rfl, (by decide : PLAIN ≠ LINK), (by decide : HEADER_1 < 2), (by decide : DATA < 4), (by decide : PLAIN < 4),
    (by decide : BROADCAST < 2), Packet.pathRequestDestinationHash.2, by simp [Packet.pathRequest]; decide⟩

variable [Rmp] [Bzip2]

/-- What a step can do, by the operation of its label. -/
inductive StepCase (n : Node) : Label → Node → Prop
  | config {op : Op} {ret : Ret} {n' : Node} : op.inbound? = none → n.Configured n' →
    (∀ i ∈ n'.interfaces, i ∈ n.interfaces ∨ op = .registerInterface i) → StepCase n (op, { ret := ret }) n'
  | announce {d : Arr 16} {appData : Bytes} {rng : Entropy} {i : UInt16} {n' : Node} :
    SendAnnounceCase n d appData rng i n' → StepCase n (.sendAnnounce d appData rng i, {}) n'
  | sent {op : Op} {ret : Ret} {n' : Node} {ps : List (UInt16 × Packet)} : op.inbound? = none → n.Sends n' ps →
    StepCase n (op, { ret := ret }) n'
  | establish {d : Arr 16} {rng : Entropy} {n' : Node} {r : Except NodeError (Arr 16)} :
    EstablishCase n d rng (n', r) → StepCase n (.establishLink d rng, { ret := .link r }) n'
  | linkSend {id : Arr 16} {pt : Bytes} {rng : Entropy} {n' : Node} {r : Except NodeError Unit} :
    LinkSendCase n id pt rng (n', r) → StepCase n (.linkSend id pt rng, { ret := .sent r }) n'
  | sendResource {fuel : Nat} {id : Arr 16} {data : Bytes} {rng : Entropy} {n' : Node}
    {r : Except NodeError (Arr 32)} : SendResourceCase n fuel id data rng (n', r) →
    StepCase n (.sendResource fuel id data rng, { ret := .hash r }) n'
  | close {id : Arr 16} {n' : Node} : CloseCase n id n' → StepCase n (.closeLink id, {}) n'
  | tick {op : Op} {rng : Option Entropy} : op.tick? = some rng →
    StepCase n (op, { events := (n.tickInner rng).2 }) (n.tickInner rng).1
  | inbound {op : Op} {b : Bytes} {i : UInt16} {rng : Option Entropy} {n' : Node} {events : List Event} :
    op.inbound? = some (b, i, rng) → InboundCase n b i (n', events) → StepCase n (op, { events := events }) n'

end Node

open Node in
theorem NodeStep.cases [Rmp] [Bzip2] [Crypto] {n n' : Node} {l : Label} (h : NodeStep n l n') : n.StepCase l n' := by
  obtain ⟨op, out⟩ := l
  unfold NodeStep at h
  have hconfig {n' : Node} (he : n' = { n with
      clock := n'.clock
      locals := n'.locals
      paths := n'.paths
      interfaces := n'.interfaces
      transportEnabled := n'.transportEnabled
      outbound := n'.outbound }) (hp : n'.paths = n.paths) (ho : n'.outbound = n.outbound)
      (hi : n'.interfaces = n.interfaces) : n.Configured n' :=
    ⟨he, .inl hp, ho ▸ List.suffix_refl _, hi ▸ id⟩
  cases op with
  | setClock | enableTransport | registerSingleDestination | registerGroupDestination
  | registerGroupDestinationWithIdentity | registerPlainDestination | setProve =>
    cases h
    exact .config rfl (hconfig rfl rfl rfl rfl) fun _ => .inl
  | registerInterface i =>
    cases h
    refine .config rfl ⟨?_, ?_, ?_, registerInterface_nodup⟩ ?_ <;> unfold registerInterface <;> split
    all_goals first | rfl | exact .inl rfl | exact List.suffix_refl _ | skip
    · exact fun _ => .inl
    · intro j hj
      rcases List.mem_append.mp hj with hj | hj
      · exact .inl hj
      · exact .inr (by rw [List.mem_singleton.mp hj])
  | unregisterInterface i =>
    cases h
    exact .config rfl ⟨rfl, .inl rfl, List.suffix_refl _, List.Nodup.filter _⟩ fun _ hi => .inl (List.mem_of_mem_filter hi)
  | prunePaths =>
    cases h
    exact .config rfl ⟨rfl, .inr rfl, List.suffix_refl _, id⟩ fun _ => .inl
  | pollOutbound =>
    simp only [Node.step, pollOutbound] at h
    split at h
    · cases h
      exact .config rfl (hconfig rfl rfl rfl rfl) fun _ => .inl
    · rename_i f rest ho
      cases h
      exact .config rfl ⟨rfl, .inl rfl, ho ▸ List.suffix_cons f rest, id⟩ fun _ => .inl
  | sendAnnounce d appData rng i =>
    cases h
    exact .announce (sendAnnounce_cases _ _ _ _ _)
  | requestPath d rng =>
    cases h
    exact .sent rfl (requestPath_sends n d rng).choose_spec
  | sendMessage d pt rng =>
    cases h
    obtain ⟨ps, hs⟩ := sendSingleMessage_sends n d pt rng false
    rw [← sendMessage_fst] at hs
    exact .sent rfl hs
  | sendMessageWithReceipt d pt rng =>
    cases h
    obtain ⟨ps, hs⟩ := sendSingleMessage_sends n d pt rng true
    rw [← sendMessageWithReceipt_fst] at hs
    exact .sent rfl hs
  | sendGroupMessage d pt rng =>
    cases h
    obtain ⟨ps, hs⟩ := sendGroupMessage_sends n d pt rng
    exact .sent rfl hs
  | sendPlainMessage d pt =>
    cases h
    obtain ⟨ps, hs⟩ := n.enqueueDestinationPacket_sends (wellFormed_dataFor (by decide) d pt) rfl
      (by decide : PLAIN ≠ LINK) d
    exact .sent rfl hs
  | establishLink d rng =>
    cases h
    exact .establish (establishLink_cases n d rng)
  | linkSend id pt rng =>
    cases h
    exact .linkSend (linkSend_cases n id pt rng)
  | sendResource fuel id data rng =>
    simp only [Node.step, Option.map_eq_some_iff] at h
    obtain ⟨r, hr, h⟩ := h
    cases h
    exact .sendResource (sendResource_cases hr)
  | closeLink id =>
    cases h
    exact .close (closeLink_cases n id)
  | tick =>
    cases h
    exact .tick rfl
  | tickWithEntropy rng =>
    cases h
    exact .tick rfl
  | handleInbound b i =>
    cases h
    exact .inbound rfl (handleInboundInner_cases n b i none)
  | handleInboundWithEntropy b i rng =>
    cases h
    exact .inbound rfl (handleInboundInner_cases n b i (some rng))

open Node in
theorem NodeStep.identity [Crypto] [Rmp] [Bzip2] {n n' : Node} {l : Label} (h : NodeStep n l n') :
    n'.identity = n.identity := by
  cases h.cases with
  | config _ hc => rw [hc.eq]
  | announce hc => cases hc <;> rfl
  | sent _ hc => rw [hc.eq]; rfl
  | establish hc => cases hc <;> rfl
  | linkSend hc => cases hc <;> rfl
  | sendResource hc => cases hc <;> rfl
  | close hc => cases hc <;> rfl
  | @tick _ rng => exact (tickInner_sameRoutes n rng).identity
  | inbound _ hc =>
    generalize hout : (n', _) = out at hc
    cases hc with
    | malformed => cases hout; rfl
    | duplicate => cases hout; simp
    | admitted _ hd =>
      subst hout
      exact hd.sameConfig.identity.trans (by simp)

open Node in
/-- An interface is registered by its own call only. -/
theorem NodeStep.interface [Crypto] [Rmp] [Bzip2] {n n' : Node} {l : Label} {i : UInt16} (h : NodeStep n l n')
    (hi : i ∈ n'.interfaces) : i ∈ n.interfaces ∨ l.1 = .registerInterface i := by
  cases h.cases with
  | config _ _ hreg => exact hreg i hi
  | announce hc => cases hc <;> exact .inl hi
  | sent _ hc =>
    rw [hc.eq] at hi
    exact .inl hi
  | establish hc => cases hc <;> exact .inl hi
  | linkSend hc => cases hc <;> exact .inl hi
  | sendResource hc => cases hc <;> exact .inl hi
  | close hc => cases hc <;> exact .inl hi
  | @tick _ rng =>
    rw [(tickInner_sameRoutes n rng).interfaces] at hi
    exact .inl hi
  | inbound _ hc =>
    generalize hout : (n', _) = out at hc
    cases hc with
    | malformed =>
      cases hout
      exact .inl hi
    | duplicate =>
      cases hout
      exact .inl (by simpa using hi)
    | admitted _ hd =>
      subst hout
      have hsame := hd.sameConfig.interfaces
      rw [hsame] at hi
      exact .inl (by simpa using hi)

/-! ## Cached announces -/

section
variable [Crypto] [Rmp] [Bzip2] {n n' : Node} {l : Label} {t : Arr 16} {q : Packet}

/-- A cached announce was there before, or it is a new one for its destination. -/
def Node.CachedFrom (n : Node) (t : Arr 16) (q : Packet) : Prop :=
  n.cachedAnnounces[t]? = some q ∨ (q.packetType = ANNOUNCE ∧ q.WellFormed ∧ q.destHash = t.1)

omit [Crypto] [Rmp] [Bzip2] in
theorem Node.CachedFrom.insert {d : Arr 16} {p : Packet} (hk : p.packetType = ANNOUNCE) (hw : p.WellFormed)
    (hd : p.destHash = d.1) {m : BTreeMap (Arr 16) Packet} (hm : m = n.cachedAnnounces.insert d p)
    (h : m[t]? = some q) : n.CachedFrom t q := by
  rw [hm, Std.ExtTreeMap.getElem?_insert] at h
  split at h
  · rename_i ht
    obtain rfl : d = t := by simpa using ht
    cases h
    exact .inr ⟨hk, hw, hd⟩
  · exact .inl h

theorem Node.DispatchCase.cached {p : Packet} {d : Arr 16} {i : UInt16} {out : Node × List Event}
    (h : DispatchCase n p d i out) (hp : p.WellFormed) (hd : p.destHash = d.1)
    (hq : out.1.cachedAnnounces[t]? = some q) : n.CachedFrom t q := by
  cases h with
  | ignored => exact .inl hq
  | pathRequest =>
    obtain ⟨_, _, heq, -⟩ := handlePathRequest_cases n p i
    rw [heq] at hq
    exact .inl hq
  | linkRequest _ hr => cases hr <;> exact .inl hq
  | linkProof _ _ _ hr => cases hr <;> exact .inl hq
  | deliveryProof _ hr => cases hr <;> exact .inl hq
  | resourceProof _ _ _ hr => cases hr <;> exact .inl hq
  | linkData _ _ hr =>
    rw [hr.sameRoutes.cachedAnnounces] at hq
    exact .inl hq
  | announce hk hr =>
    cases hr with
    | accepted => exact .insert hk hp hd rfl hq
    | _ => exact .inl hq
  | data _ _ _ hr =>
    cases hr with
    | relayed =>
      have hf := forwardData_cases n p d i
      dsimp only at hq
      generalize n.forwardData p d i = m at hf hq
      cases hf <;> exact .inl hq
    | _ => exact .inl hq

theorem NodeStep.cached (h : NodeStep n l n') (hq : n'.cachedAnnounces[t]? = some q) : n.CachedFrom t q := by
  have hsame {m : Node} (hm : m.cachedAnnounces = n.cachedAnnounces) (hq : m.cachedAnnounces[t]? = some q) :
      n.CachedFrom t q := .inl (hm ▸ hq)
  cases h.cases with
  | config _ h => exact hsame (by rw [h.eq]) hq
  | announce h =>
    cases h with
    | unknown => exact .inl hq
    | sent => exact .insert rfl (Packet.wellFormed_announce _ _) rfl rfl hq
  | sent _ h => exact hsame (by rw [h.eq]; rfl) hq
  | establish h => cases h <;> exact .inl hq
  | linkSend h => cases h <;> exact .inl hq
  | sendResource h => cases h <;> exact .inl hq
  | close h => cases h <;> exact .inl hq
  | tick => exact hsame (Node.tickInner_sameRoutes _ _).cachedAnnounces hq
  | inbound _ h =>
    cases h with
    | malformed => exact .inl hq
    | duplicate => exact hsame (by simp) hq
    | admitted ha h =>
      have hw := Node.received_wellFormed (Packet.decode_wellFormed ha.decoded)
      rcases h.cached hw ha.dest hq with hq | hq
      · exact .inl (by simpa using hq)
      · exact .inr hq

end

end Reticulum
