import Reticulum.LinkLifecycle

/-!
# Closed links

Which link a step may still speak for, in frames or in events. Every handler
asks whether the link is Active, except the retry loop of the tick and the
handler of resource proofs.
-/

namespace Reticulum

open Node

/-! ## Frames of a link -/

/-- A packet between the two ends of a link. Announces and link requests are for destinations. -/
def Packet.ToLink (p : Packet) (id : Arr 16) : Prop :=
  (p.packetType = DATA ∨ p.packetType = PROOF) ∧ p.destType = LINK ∧ p.destHash = id.1

instance (p : Packet) (id : Arr 16) : Decidable (p.ToLink id) := inferInstanceAs (Decidable (_ ∧ _ ∧ _))

namespace Node

/-- Every cached announce is a well-formed ANNOUNCE packet. -/
def CachedOk (n : Node) : Prop :=
  ∀ (t : Arr 16) (p : Packet), n.cachedAnnounces[t]? = some p → p.packetType = ANNOUNCE ∧ p.WellFormed

/-- The packets a step sends: each is well formed, and those of a link are of one that `ok` allows. -/
def Sent (n n' : Node) (ok : Arr 16 → Prop) : Prop :=
  ∃ ps : List (UInt16 × Packet), n'.outbound = n.outbound ++ ps.map (fun s => (s.1, s.2.encode)) ∧
    ∀ q ∈ ps, q.2.WellFormed ∧ ∀ id, q.2.ToLink id → ok id

variable {n n' : Node} {ok : Arr 16 → Prop}

theorem Sent.none (h : n'.outbound = n.outbound) : n.Sent n' ok := ⟨[], by simp [h], by simp⟩

theorem Sent.of_eq {m : Node} (h : m.Sent n' ok) (he : m.outbound = n.outbound) : n.Sent n' ok := by
  obtain ⟨ps, hps, hq⟩ := h
  exact ⟨ps, he ▸ hps, hq⟩

theorem Sent.mono {ok' : Arr 16 → Prop} (h : n.Sent n' ok) (hok : ∀ id, ok id → ok' id) : n.Sent n' ok' := by
  obtain ⟨ps, hps, hq⟩ := h
  exact ⟨ps, hps, fun q hm => ⟨(hq q hm).1, fun id hl => hok id ((hq q hm).2 id hl)⟩⟩

theorem Sent.emit {m : Node} {ps : List (UInt16 × Packet)} (hm : m.outbound = n.outbound)
    (h : ∀ q ∈ ps, q.2.WellFormed ∧ ∀ id, q.2.ToLink id → ok id) : n.Sent (m.emit ps) ok :=
  ⟨ps, by rw [emit_outbound, hm], h⟩

/-- Packets of a single link. -/
theorem Sent.linkFrames {m : Node} {ps : List (UInt16 × Packet)} {id : Arr 16} {i : UInt16} {cs : List UInt8}
    (hm : m.outbound = n.outbound) (h : LinkFrames id i cs ps) (hok : ok id) : n.Sent (m.emit ps) ok := by
  refine Sent.emit hm fun q hq => ?_
  obtain ⟨c, -, data, rfl⟩ := h q hq
  exact ⟨wellFormed_linkContext _ _ _, fun id' hl => Subtype.ext hl.2.2 ▸ hok⟩

theorem Sent.offLink {m : Node} {i : UInt16} {p : Packet} (hm : m.outbound = n.outbound) (hw : p.WellFormed)
    (h : (p.packetType ≠ DATA ∧ p.packetType ≠ PROOF) ∨ p.destType ≠ LINK) : n.Sent (m.emit [(i, p)]) ok := by
  refine Sent.emit hm fun q hq => ?_
  cases List.mem_singleton.mp hq
  refine ⟨hw, fun id hl => ?_⟩
  rcases h with ⟨hd, hp⟩ | hd
  · exact absurd hl.1 (not_or.mpr ⟨hd, hp⟩)
  · exact absurd hl.2.1 hd

/-! ## Handlers -/

/-- A link that a resource retry may still speak for. -/
def RetryDue (n : Node) (id : Arr 16) : Prop :=
  ∃ (hash : Arr 32) (r : InboundResource) (request : Bytes), n.inboundResources[(id, hash)]? = some r ∧
    (r.retryDue n.nowSecs).2 = .ok (some request)

section
variable [Crypto]

theorem tickInner_sent (n : Node) (rng : Option Entropy) :
    n.Sent (n.tickInner rng).1 fun id => n.statusOf id = some .active ∨ rng.isSome = true ∧ n.RetryDue id := by
  obtain ⟨_, _, requests, hr, heq⟩ := tickInner_result n rng
  rw [heq]
  refine Sent.emit rfl fun q hq => ?_
  rcases List.mem_append.mp hq with hq | hq
  · simp only [keepalives, keepaliveLinks, List.map_filterMap, List.mem_filterMap, Prod.exists] at hq
    obtain ⟨id, link, hmem, hq⟩ := hq
    split at hq
    · rename_i ht
      obtain rfl : q = (link.interface, Packet.linkContext id KEEPALIVE [0xFF]) := by simpa using hq.symm
      refine ⟨wellFormed_linkContext _ _ _, fun id' hl => .inl ?_⟩
      obtain rfl : id = id' := Subtype.ext hl.2.2
      rw [statusOf_eq (Std.ExtTreeMap.mem_toList_iff_getElem?_eq_some.mp hmem),
        linkTick_active n.nowSecs (by simp [ht])]
    · cases hq
  · obtain ⟨hrng, key, r, link, -, hreq⟩ := hr.justified q hq
    obtain ⟨data, rfl⟩ := hreq.frame
    refine ⟨wellFormed_linkContext _ _ _, fun id' hl => .inr ⟨hrng, ?_⟩⟩
    obtain rfl : key.1 = id' := Subtype.ext hl.2.2
    obtain ⟨request, hdue⟩ := hreq.due
    exact ⟨key.2, r, request, hreq.resource, hdue⟩

theorem OfferCase.sent [Bzip2] {id : Arr 16} {i : UInt16} {key : Arr 64} {part : Bytes} {out : Node × List Event}
    (h : OfferCase n id i key part out) (hok : ok id) : n.Sent out.1 ok := by
  cases h with
  | refused => exact .none rfl
  | taken _ _ hp =>
    cases hp with
    | completed =>
      refine Sent.emit rfl fun q hq => ?_
      cases List.mem_singleton.mp hq
      exact ⟨wellFormed_proof _ _ _, fun id' hl => Subtype.ext hl.2.2 ▸ hok⟩
    | corrupt | waiting => exact .none rfl
    | requested _ hps => exact .linkFrames rfl hps hok

omit [Crypto] in
theorem ResourceContextCase.sent [Rmp] {id : Arr 16} {i : UInt16} {context : UInt8} {pt : Bytes}
    {out : Node × List Event} (h : ResourceContextCase n id i context pt out) (hok : ok id) : n.Sent out.1 ok := by
  cases h with
  | advertised _ _ _ hps | served _ hps | updated _ hps => exact .linkFrames rfl hps hok
  | _ => exact .none rfl

/-- A link data frame makes the node speak for Active links only. -/
theorem LinkDataCase.sent [Rmp] [Bzip2] {p : Packet} {id : Arr 16} {i : UInt16} {out : Node × List Event}
    (h : LinkDataCase n p id i out) : n.Sent out.1 fun id => n.statusOf id = some .active := by
  have hok {link : LinkEntry} {key : Arr 64} (ha : n.ActiveOn id i link key) : n.statusOf id = some .active :=
    ha.status ▸ statusOf_eq ha.get
  cases h with
  | ignored | badToken | touched | data => exact .none rfl
  | part ha _ ho => exact ho.sent (hok ha)
  | keepalive ha hps => exact .linkFrames rfl hps (hok ha)
  | @closed link _ ha =>
    rw [closeLink_touch n id ha.status]
    refine ((tickInner_sent (n.closedByPeer id link) none).of_eq rfl).mono fun id' h => ?_
    rcases h with h | ⟨h, -⟩
    · by_cases hid : id = id'
      · subst hid
        simp [statusOf] at h
      · rwa [statusOf, closedByPeer_links, BTreeMap.getElem?_insert_ne hid] at h
    · cases h
  | resource ha _ hr => exact (hr.sent (hok ha)).of_eq rfl

theorem handlePathRequest_sent (hc : n.CachedOk) (p : Packet) (i : UInt16) : n.Sent (n.handlePathRequest p i) ok := by
  obtain ⟨_, ps, heq, hps⟩ := handlePathRequest_cases n p i
  rw [heq]
  refine Sent.emit rfl fun q hq => ?_
  obtain ⟨target, isLocal, path, cached, hcached, rfl⟩ := hps q hq
  obtain ⟨hkind, hw⟩ := hc target cached hcached
  refine ⟨pathResponse_wellFormed _ hw _ _, fun id hl => ?_⟩
  have hkind' := (pathResponse_packetType n isLocal path cached).trans hkind
  rcases hl.1 with h | h <;> exact absurd (hkind'.symm.trans h) (by decide)

theorem DataCase.sent {p : Packet} {d : Arr 16} {i : UInt16} {out : Node × List Event} (hp : p.WellFormed)
    (hd : p.destType ≠ LINK) (h : DataCase n p d i out) : n.Sent out.1 ok := by
  cases h with
  | ignored | badToken | message => exact .none rfl
  | relayed =>
    have hf := forwardData_cases n p d i
    generalize n.forwardData p d i = m at hf
    cases hf with
    | dropped | noRoute => exact .none rfl
    | forwarded hf =>
      refine Sent.offLink rfl (forwardPacket_wellFormed hp hf.header hf.forwarded) (.inr ?_)
      rwa [(forwardPacket_sameContent hf.forwarded).1.destType]
  | provenMessage =>
    exact .offLink rfl (Packet.wellFormed_newHeader1 (by decide) (by decide) _ _ _) (.inr (by decide : SINGLE ≠ LINK))

theorem AnnounceCase.sent {p : Packet} {d : Arr 16} {i : UInt16} {out : Node × List Event} (hp : p.WellFormed)
    (hk : p.packetType = ANNOUNCE) (h : AnnounceCase n p d i out) : n.Sent out.1 ok := by
  cases h with
  | accepted =>
    refine Sent.emit rfl fun q hq => ?_
    simp only [rebroadcastCopies] at hq
    split at hq
    · obtain ⟨j, -, rfl⟩ := List.mem_map.mp hq
      refine ⟨hp.toHeader2 _, fun id hl => ?_⟩
      rcases hl.1 with h | h <;> exact absurd (hk.symm.trans h) (by decide)
    · cases hq
  | _ => exact .none rfl

theorem DispatchCase.sent [Rmp] [Bzip2] {p : Packet} {d : Arr 16} {i : UInt16} {out : Node × List Event}
    (hc : n.CachedOk) (hp : p.WellFormed) (h : DispatchCase n p d i out) :
    n.Sent out.1 fun id => n.statusOf id ≠ some .closed := by
  cases h with
  | ignored => exact .none rfl
  | pathRequest => exact handlePathRequest_sent hc p i
  | linkRequest _ hr =>
    cases hr with
    | ignored => exact .none rfl
    | accepted _ _ _ hfresh _ =>
      refine Sent.emit rfl fun q hq => ?_
      cases List.mem_singleton.mp hq
      refine ⟨wellFormed_proof _ _ _, fun id hl => ?_⟩
      obtain rfl : linkIdFromRequest p = id := Subtype.ext hl.2.2
      simp [statusOf, hfresh]
  | linkProof _ _ _ hr =>
    cases hr with
    | ignored | badProof => exact .none rfl
    | proven hl hpend _ _ _ hps =>
      refine Sent.emit rfl fun q hq => ?_
      obtain ⟨ct, rfl⟩ := hps q hq
      refine ⟨wellFormed_linkContext _ _ _, fun id hto => ?_⟩
      obtain rfl : d = id := Subtype.ext hto.2.2
      simp [statusOf_eq hl, hpend]
  | deliveryProof _ hr => cases hr <;> exact .none rfl
  | resourceProof _ _ _ hr => cases hr <;> exact .none rfl
  | linkData _ _ hr => exact hr.sent.mono fun id h => by simp [h]
  | announce hk hr => exact hr.sent hp hk
  | data _ hd _ hr => exact hr.sent hp hd

end

end Node

section
variable [Crypto] [Rmp] [Bzip2]

/-- A step may speak for a link that is not closed, or that is due a retry in a tick with entropy. -/
def MaySpeak (n : Node) (l : Label) (id : Arr 16) : Prop :=
  n.statusOf id ≠ some .closed ∨ (∃ rng, l.1.tick? = some (some rng)) ∧ n.RetryDue id

/-- What a step puts in the queue: nothing, or packets of links it may speak for and of no link. -/
theorem NodeStep.sent {n n' : Node} {l : Label} (hc : n.CachedOk) (h : NodeStep n l n') :
    n'.outbound <:+ n.outbound ∨ n.Sent n' (MaySpeak n l) := by
  have hactive {id : Arr 16} {i : UInt16} {link : LinkEntry} {key : Arr 64} (ha : n.ActiveOn id i link key) :
      MaySpeak n l id := .inl (by simp [statusOf_eq ha.get, ha.status])
  cases h.cases with
  | config _ hc => exact .inl hc.outbound
  | announce hc =>
    cases hc with
    | unknown => exact .inr (.none rfl)
    | sent =>
      have hkind : ANNOUNCE ≠ DATA ∧ ANNOUNCE ≠ PROOF := by decide
      exact .inr (.offLink rfl (Packet.wellFormed_announce _ _) (.inl hkind))
  | sent _ hs =>
    refine .inr ?_
    rw [hs.eq]
    exact Sent.emit rfl fun q hq => ⟨(hs.frames q hq).2.2, fun id hl => absurd hl.2.1 (hs.frames q hq).2.1⟩
  | establish hc =>
    cases hc with
    | failed => exact .inr (.none rfl)
    | requested _ hr =>
      refine .inr (.offLink rfl (route_wellFormed (linkRequestFor_wellFormed _ _) hr) (.inr ?_))
      rw [(route_sameContent hr).destType]
      exact (by decide : SINGLE ≠ LINK)
  | linkSend hc =>
    cases hc with
    | failed => exact .inr (.none rfl)
    | sent ha => exact .inr (.linkFrames rfl (LinkFrames.single (List.mem_singleton_self _) _) (hactive ha))
  | sendResource hc =>
    cases hc with
    | failed => exact .inr (.none rfl)
    | sent ha _ => exact .inr (.linkFrames rfl (LinkFrames.single (List.mem_singleton_self _) _) (hactive ha))
  | close hc => cases hc <;> exact .inr (.none rfl)
  | @tick op rng hop =>
    refine .inr ((tickInner_sent n rng).mono fun id h => ?_)
    rcases h with h | ⟨hrng, hdue⟩
    · exact .inl (by simp [h])
    · obtain ⟨rng, rfl⟩ := Option.isSome_iff_exists.mp hrng
      exact .inr ⟨⟨rng, hop⟩, hdue⟩
  | inbound _ hc =>
    generalize hout : (n', _) = out at hc
    cases hc with
    | malformed => cases hout; exact .inr (.none rfl)
    | duplicate => cases hout; exact .inr (.none (by simp))
    | admitted ha hd =>
      subst hout
      have hw := received_wellFormed (Packet.decode_wellFormed ha.decoded)
      have hs := (hd.sent (fun t p h => hc t p (by simpa using h)) hw).of_eq (n := n) (by simp)
      exact .inr (hs.mono fun id h => .inl (by simpa [statusOf] using h))

/-! ## Events of a link -/

/-- The link whose data or transfers an event reports. -/
def Event.traffic? : Event → Option (Arr 16)
  | .linkData id _ => some id
  | .resourceProgress id _ _ _ => some id
  | .resourceComplete id _ _ => some id
  | _ => none

namespace Node

variable {n : Node} {e : Event} {id' : Arr 16}

/-- A resource proof that completes an outbound resource of the link. -/
structure ProofCompletes (n : Node) (p : Packet) (id : Arr 16) (hash : Arr 32) (r : OutboundResource) : Prop where
  kind : p.packetType = PROOF ∧ p.destType = LINK ∧ p.context = RESOURCE_PRF
  named : Arr.slice? p.data 0 32 = some hash
  resource : n.outboundResources[(id, hash)]? = some r
  proves : (r.onProof p.data).2 = true

omit [Rmp] in
theorem OfferCase.traffic {id : Arr 16} {i : UInt16} {key : Arr 64} {part : Bytes} {out : Node × List Event}
    (h : OfferCase n id i key part out) (he : e ∈ out.2) (ht : e.traffic? = some id') : id' = id := by
  cases h with
  | refused => cases he
  | taken _ _ hp =>
    cases hp with
    | completed | corrupt =>
      simp only [List.mem_cons, List.not_mem_nil, or_false] at he
      rcases he with rfl | rfl <;> simp [Event.traffic?] at ht <;> exact ht.symm
    | waiting | requested =>
      cases List.mem_singleton.mp he
      simpa [Event.traffic?, eq_comm] using ht

omit [Crypto] [Bzip2] in
theorem ResourceContextCase.traffic {id : Arr 16} {i : UInt16} {context : UInt8} {pt : Bytes}
    {out : Node × List Event} (h : ResourceContextCase n id i context pt out) (he : e ∈ out.2) : e.traffic? = none := by
  cases h <;> simp only [List.mem_singleton, List.not_mem_nil] at he <;> subst he <;> rfl

theorem LinkDataCase.traffic {p : Packet} {id : Arr 16} {i : UInt16} {out : Node × List Event} (hn : n.PendingOk)
    (h : LinkDataCase n p id i out) (he : e ∈ out.2) (ht : e.traffic? = some id') :
    n.statusOf id' = some .active := by
  have hok {link : LinkEntry} {key : Arr 64} (ha : n.ActiveOn id i link key) (hid : id' = id) :
      n.statusOf id' = some .active := hid ▸ ha.status ▸ statusOf_eq ha.get
  cases h with
  | ignored | keepalive | touched => cases he
  | badToken =>
    cases List.mem_singleton.mp he
    cases ht
  | part ha _ ho => exact hok ha (ho.traffic he ht)
  | @closed link _ ha =>
    rw [closeLink_touch n id ha.status] at he
    rcases mem_tickInner_events (hn.closedByPeer id link) he with ⟨_, rfl⟩ | ⟨_, _, rfl⟩ <;> cases ht
  | data ha =>
    cases List.mem_singleton.mp he
    cases ht
    exact hok ha rfl
  | resource ha _ hr =>
    rw [hr.traffic he] at ht
    cases ht

theorem DispatchCase.traffic {p : Packet} {d : Arr 16} {i : UInt16} {out : Node × List Event} (hn : n.PendingOk)
    (h : DispatchCase n p d i out) (he : e ∈ out.2) (ht : e.traffic? = some id') :
    n.statusOf id' = some .active ∨ id' = d ∧ ∃ hash r, n.ProofCompletes p id' hash r := by
  have hno (h : e.traffic? = none) : n.statusOf id' = some .active ∨ id' = d ∧ ∃ hash r, n.ProofCompletes p id' hash r := by
    rw [h] at ht
    cases ht
  cases h with
  | ignored | pathRequest => cases he
  | linkRequest _ hr => cases hr <;> simp at he; subst he; exact hno rfl
  | linkProof _ _ _ hr => cases hr <;> simp at he <;> subst he <;> exact hno rfl
  | deliveryProof _ hr => cases hr <;> simp at he; subst he; exact hno rfl
  | resourceProof hp hd hc hr =>
    cases hr with
    | ignored | kept => cases he
    | completed hs hg hproof =>
      cases List.mem_singleton.mp he
      cases ht
      exact .inr ⟨rfl, _, _, ⟨hp, hd, hc⟩, hs, hg, hproof⟩
  | linkData _ _ hr => exact .inl (hr.traffic hn he ht)
  | announce _ hr => cases hr <;> simp at he <;> subst he <;> exact hno rfl
  | data _ _ _ hr => cases hr <;> simp at he <;> subst he <;> exact hno rfl

end Node

/-- A step reports traffic of an Active link, or the completion of a transfer by a resource proof. -/
theorem NodeStep.traffic {n n' : Node} {l : Label} (hn : n.PendingOk) (h : NodeStep n l n') {e : Event} {id : Arr 16}
    (he : e ∈ l.2.events) (ht : e.traffic? = some id) :
    n.statusOf id = some .active ∨ ∃ b p hash r, l.1.inbound?.map (·.1) = some b ∧ n.Admits b p id ∧
      n.ProofCompletes p id hash r := by
  have hnone (h : e ∈ ([] : List Event)) : False := by simp at h
  cases h.cases with
  | config | announce | sent | establish | linkSend | sendResource | close => exact (hnone he).elim
  | tick => rcases mem_tickInner_events hn he with ⟨_, rfl⟩ | ⟨_, _, rfl⟩ <;> cases ht
  | @inbound _ b _ _ _ _ hop hc =>
    generalize hout : (n', _) = out at hc
    cases hc with
    | malformed => cases hout; exact (hnone he).elim
    | duplicate => cases hout; exact (hnone he).elim
    | @admitted p d _ ha hd =>
      subst hout
      rcases hd.traffic (hn.of_eq (by simp)) he ht with h | ⟨rfl, hash, r, hp⟩
      · exact .inl (by simpa [statusOf] using h)
      · exact .inr ⟨b, p, hash, r, by simp [hop], ha, hp.kind, hp.named, by simpa using hp.resource, hp.proves⟩

/-! ## Cached announces -/

theorem NodeStep.cachedOk {n n' : Node} {l : Label} (hc : n.CachedOk) (h : NodeStep n l n') : n'.CachedOk := by
  intro t p hp
  rcases h.cached hp with hp | ⟨ht, hw, -⟩
  · exact hc t p hp
  · exact ⟨ht, hw⟩

/-! ## Silence -/

/-- The steps that reach neither unguarded path for a link: no tick with entropy while a resource of the
link is due a request, and no resource proof that completes one. -/
structure Spares (id : Arr 16) (n : Node) (l : Label) : Prop where
  retry : ∀ rng, l.1.tick? = some (some rng) → ¬ n.RetryDue id
  proof : ∀ b p hash r, l.1.inbound?.map (·.1) = some b → n.Admits b p id → ¬ n.ProofCompletes p id hash r

/-- No frame of the link is enqueued and no traffic of it reported. -/
def Silent (id : Arr 16) (n : Node) (l : Label) (n' : Node) : Prop :=
  (∀ f ∈ n.enqueued n', ∀ p, Packet.decode f.2 = .ok p → ¬ p.ToLink id) ∧ ∀ e ∈ l.2.events, e.traffic? ≠ some id

/-- One step that spares a closed link is silent about it. -/
theorem silent_step {n n' : Node} {l : Label} {id : Arr 16} (hn : n.PendingOk) (hca : n.CachedOk)
    (hc : n.statusOf id = some .closed) (hs : Spares id n l) (h : NodeStep n l n') : Silent id n l n' := by
  refine ⟨fun f hf p hp hto => ?_, fun e he ht => ?_⟩
  · rcases h.sent hca with hsub | ⟨ps, hps, hok⟩
    · rw [enqueued, List.drop_eq_nil_of_le hsub.length_le] at hf
      cases hf
    · rw [enqueued_of_append hps] at hf
      obtain ⟨q, hq, rfl⟩ := List.mem_map.mp hf
      obtain ⟨hw, hmay⟩ := hok q hq
      cases (Packet.decode_encode hw).symm.trans hp
      rcases hmay id hto with hopen | ⟨⟨rng, hop⟩, hdue⟩
      · exact hopen hc
      · exact hs.retry rng hop hdue
  · rcases h.traffic hn he ht with hact | ⟨b, p, hash, r, hop, ha, hp⟩
    · rw [hc] at hact
      cases hact
    · exact hs.proof b p hash r hop ha hp

theorem closed_step {n n' : Node} {l : Label} {id : Arr 16} (hn : n.PendingOk) (hc : n.statusOf id = some .closed)
    (h : FreshStep n l n') : n'.statusOf id = some .closed := by
  cases h.statusChange hn id with
  | stay hs => exact hs.trans hc
  | request hb => rw [hc] at hb; cases hb
  | establish hb => rcases hb with hb | hb <;> rw [hc] at hb <;> cases hb
  | close _ _ ha => exact ha

/-- From any reachable state in which a link is closed, every later step that spares the link is silent about it. -/
theorem closed_link_silent {identity : Identity} {clock : UInt64} {tr tr' : List Label} {n n' n'' : Node} {l : Label}
    {id : Arr 16} (h : Lts.Run NodeStep (withClock identity clock) tr n) (hc : n.statusOf id = some .closed)
    (h' : Lts.Run FreshStep n tr' n') (hs : Spares id n' l) (hst : FreshStep n' l n'') : Silent id n' l n'' := by
  have hinv : n.PendingOk ∧ n.CachedOk := by
    refine h.preserve (I := fun n => n.PendingOk ∧ n.CachedOk) ?_ ⟨fun _ h => (nomatch h), by simp [CachedOk, withClock]⟩
    exact fun _ _ _ hi hst => ⟨hst.pendingOk hi.1, hst.cachedOk hi.2⟩
  have hlater : n'.PendingOk ∧ n'.CachedOk ∧ n'.statusOf id = some .closed := by
    refine h'.preserve (I := fun n => n.PendingOk ∧ n.CachedOk ∧ n.statusOf id = some .closed) ?_ ⟨hinv.1, hinv.2, hc⟩
    exact fun _ _ _ hi hst => ⟨hst.2.pendingOk hi.1, hst.2.cachedOk hi.2.1, closed_step hi.1 hi.2.2 hst⟩
  exact silent_step hlater.1 hlater.2.1 hlater.2.2 hs hst.2

end

/-! ## A transfer in progress when the link is closed -/

section
open Sample

/-- The key both ends derive for the link. -/
def chatKey : Arr 64 :=
  deriveLinkKey (LinkEphemeral.generate (entropy 2)).1.x25519Prv (LinkEphemeral.generate (entropy 1)).1.x25519Pub chatLink

/-- An advertisement of a resource with one part. -/
def chatAdvertisement : ResourceAdvertisement where
  t := 100
  d := 10
  n := 1
  h := (arr 32 9).1
  r := (arr 4 1).1
  o := (arr 32 9).1
  i := 1
  l := 1
  q := none
  f := 1
  m := (arr 4 5).1

/-- The resource it is about. -/
def chatResource : ResourceKey := (chatLink, arr 32 9)

/-- The destination accepts the link and the advertisement, and closes the link before the part comes. -/
def midwayOps : List Op :=
  [.registerSingleDestination "chat" [], .handleInboundWithEntropy chatRequest.encode 0 (entropy 2),
    .handleInboundWithEntropy
      (Packet.linkContext chatLink RESOURCE_ADV (Token.sealWithKey chatKey chatAdvertisement.pack (arr 16 4))).encode 0
      (entropy 3),
    .closeLink chatLink]

def midway : Node := (((withClock (identity 3) 100).exec midwayOps).map (·.1)).getD (withClock (identity 3) 100)

theorem midway_run : ∃ tr, Lts.Run NodeStep (withClock (identity 3) 100) tr midway := by
  obtain ⟨⟨n, tr⟩, hexec⟩ : ∃ r, (withClock (identity 3) 100).exec midwayOps = some r :=
    Option.isSome_iff_exists.mp (by decide +kernel)
  have hn : midway = n := by simp [midway, hexec]
  exact ⟨tr, hn ▸ exec_run hexec⟩

theorem midway_closed : midway.statusOf chatLink = some .closed := by decide +kernel

def tenSecondsLater : Node := { midway with clock := 110 }

theorem midway_tenSecondsLater : Lts.Run FreshStep midway [(.setClock 110, {})] tenSecondsLater :=
  .single ⟨by simp [FreshLink], midway.step_setClock 110⟩

/-- A tick without entropy spares the link, after one with entropy too. -/
theorem closed_link_silent_tick :
    ∃ tr tr' n, Lts.Run NodeStep (withClock (identity 3) 100) tr midway ∧ midway.statusOf chatLink = some .closed ∧
      Lts.Run FreshStep midway tr' n ∧ tr'.map (·.1) = [.setClock 110, .tickWithEntropy (entropy 4)] ∧
      Silent chatLink n (.tick, { events := n.tick.2 }) n.tick.1 := by
  obtain ⟨tr, hrun⟩ := midway_run
  have hlater := midway_tenSecondsLater.snoc
    (⟨by simp [FreshLink], tenSecondsLater.step_tickWithEntropy (entropy 4)⟩ : FreshStep tenSecondsLater _ _)
  generalize (tenSecondsLater.tickWithEntropy (entropy 4)).1 = n at hlater
  have hspares : Spares chatLink n (.tick, { events := n.tick.2 }) :=
    ⟨by simp [Op.tick?], by simp [Op.inbound?]⟩
  have hfresh : FreshStep n (.tick, { events := n.tick.2 }) n.tick.1 := ⟨by simp [FreshLink], n.step_tick⟩
  exact ⟨tr, _, n, hrun, midway_closed, hlater, rfl, closed_link_silent hrun midway_closed hlater hspares hfresh⟩

/-- Ten seconds later a tick with entropy asks for the part, over the closed link. -/
theorem closed_link_speaks : ¬ ∀ (identity : Identity) (clock : UInt64) (tr tr' : List Label) (n n' n'' : Node)
    (l : Label) (id : Arr 16), Lts.Run NodeStep (withClock identity clock) tr n → n.statusOf id = some .closed →
    Lts.Run FreshStep n tr' n' → FreshStep n' l n'' → Silent id n' l n'' := by
  intro h
  obtain ⟨tr, hrun⟩ := midway_run
  have hsilent := h _ _ _ _ _ _ _ _ _ hrun midway_closed midway_tenSecondsLater
    ⟨by simp [FreshLink], tenSecondsLater.step_tickWithEntropy (entropy 4)⟩
  have hspeaks : (tenSecondsLater.enqueued (tenSecondsLater.tickWithEntropy (entropy 4)).1).any (fun f =>
      match Packet.decode f.2 with
      | .ok p => decide (p.ToLink chatLink)
      | .error _ => false) = true := by decide +kernel
  obtain ⟨f, hf, hto⟩ := List.any_eq_true.mp hspeaks
  split at hto
  · exact hsilent.1 f hf _ ‹_› (of_decide_eq_true hto)
  · cases hto

end

end Reticulum
