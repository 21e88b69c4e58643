import Reticulum.ClosedLink
import Reticulum.InboundSteps
import Reticulum.KeyAgreement
import Reticulum.Lib.Reader
import Reticulum.Sender

/-!
# What the two ends of a transfer agree on

Two nodes over a network that loses, repeats, reorders, delays and injects
frames; only the resource proofs of their link come from nobody else. The
receiver completes what the sender sent, at most once for each advertisement
it accepts, and the sender completes after the receiver.
-/

namespace Reticulum

open Node

section
variable [Crypto] [Rmp] [Bzip2]

/-! ## Completions -/

/-- The call is handed a frame of one packet type. -/
def Label.Hands (l : Label) (packetType : UInt8) : Prop :=
  ∃ b i rng p, l.1.inbound? = some (b, i, rng) ∧ Packet.decode b = .ok p ∧ p.packetType = packetType

/-- The receiver's completion of a transfer: a DATA frame brings the last part. -/
def Receives (key : ResourceKey) (data : Bytes) (l : Label) : Prop :=
  l.Hands DATA ∧ .resourceComplete key.1 key.2 data ∈ l.2.events

/-- The sender's completion of a transfer: a PROOF frame ends it. -/
def Concludes (key : ResourceKey) (l : Label) : Prop :=
  l.Hands PROOF ∧ .resourceComplete key.1 key.2 [] ∈ l.2.events

/-- Where a completion comes from: the last part of an inbound resource, or the proof of an outbound one. -/
inductive Completion (n : Node) (l : Label) (n' : Node) (key : ResourceKey) (data : Bytes) : Prop
  | received {r : InboundResource} {part : Bytes} {k : Arr 64} : l.Hands DATA → n.inboundResources[key]? = some r →
    (r.onPart part).1.finalize k = .ok data → n'.inboundResources[key]? = none → Completion n l n' key data
  | proven {b : Bytes} {i : UInt16} {rng : Option Entropy} {p : Packet} : l.1.inbound? = some (b, i, rng) →
    Packet.decode b = .ok p → p.packetType = PROOF → p.destType = LINK → p.context = RESOURCE_PRF → p.destHash = key.1.1 →
    Arr.slice? p.data 0 32 = some key.2 → data = [] → Completion n l n' key data

variable {n n' : Node} {l : Label} {id : Arr 16} {hash : Arr 32} {data : Bytes}

omit [Crypto] [Rmp] [Bzip2] in
theorem Label.Hands.unique {t t' : UInt8} (h : l.Hands t) (h' : l.Hands t') : t = t' := by
  obtain ⟨b, i, rng, p, hb, hp, rfl⟩ := h
  obtain ⟨b', i', rng', p', hb', hp', rfl⟩ := h'
  cases hb.symm.trans hb'
  cases hp.symm.trans hp'
  rfl

omit [Rmp] in
theorem Node.OfferCase.completion {i : UInt16} {k : Arr 64} {d : Arr 16} {part : Bytes} {out : Node × List Event}
    (h : OfferCase n d i k part out) (he : .resourceComplete id hash data ∈ out.2) :
    ∃ r, n.inboundResources[(id, hash)]? = some r ∧ (r.onPart part).1.finalize k = .ok data ∧
      out.1.inboundResources[(id, hash)]? = none := by
  cases h with
  | refused => cases he
  | taken hr _ hp =>
    cases hp with
    | completed _ hfin =>
      simp only [List.mem_cons, List.not_mem_nil, or_false, reduceCtorEq, false_or, Event.resourceComplete.injEq] at he
      obtain ⟨rfl, rfl, rfl⟩ := he
      exact ⟨_, hr, hfin, by simp⟩
    | corrupt | waiting | requested => simp at he

/-- What a link frame completes is the inbound resource whose last part it is. -/
theorem Node.LinkDataCase.completion {p : Packet} {d : Arr 16} {i : UInt16} {out : Node × List Event} (hn : n.PendingOk)
    (h : LinkDataCase n p d i out) (he : .resourceComplete id hash data ∈ out.2) :
    ∃ r k, n.inboundResources[(id, hash)]? = some r ∧ (r.onPart p.data).1.finalize k = .ok data ∧
      out.1.inboundResources[(id, hash)]? = none := by
  cases h with
  | ignored | keepalive | touched => cases he
  | badToken | data => simp at he
  | part _ _ ho =>
    obtain ⟨r, h⟩ := ho.completion he
    exact ⟨r, _, h⟩
  | @closed link _ ha =>
    rw [closeLink_touch n d ha.status] at he
    rcases mem_tickInner_events (hn.closedByPeer d link) he with ⟨_, heq⟩ | ⟨_, _, heq⟩ <;> cases heq
  | resource _ _ hr => cases hr.traffic he

theorem NodeStep.completion (hn : n.PendingOk) (h : NodeStep n l n') (he : .resourceComplete id hash data ∈ l.2.events) :
    Completion n l n' (id, hash) data := by
  have hnone (h : .resourceComplete id hash data ∈ ([] : List Event)) : False := by simp at h
  cases h.cases with
  | config | announce | sent | establish | linkSend | sendResource | close => exact (hnone he).elim
  | tick => rcases mem_tickInner_events hn he with ⟨_, heq⟩ | ⟨_, _, heq⟩ <;> cases heq
  | @inbound _ b i rng _ _ hop hc =>
    generalize hout : (n', _) = out at hc
    cases hc with
    | malformed => cases hout; exact (hnone he).elim
    | duplicate => cases hout; exact (hnone he).elim
    | @admitted p d _ ha hd =>
      subst hout
      cases hd with
      | ignored | pathRequest => exact (hnone he).elim
      | linkRequest _ hr => generalize hout : (n', _) = out at hr; cases hr <;> cases hout <;> simp at he
      | linkProof _ _ _ hr => generalize hout : (n', _) = out at hr; cases hr <;> cases hout <;> simp at he
      | deliveryProof _ hr => generalize hout : (n', _) = out at hr; cases hr <;> cases hout <;> simp at he
      | resourceProof hk ht hctx hr =>
        generalize hout : (n', _) = out at hr
        cases hr with
        | ignored | kept => cases hout; exact (hnone he).elim
        | completed hs =>
          cases hout
          cases List.mem_singleton.mp he
          exact .proven hop ha.decoded hk ht hctx ha.dest hs rfl
      | linkData hk _ hr =>
        obtain ⟨r, k, hr, hfin, hgone⟩ := hr.completion (hn.of_eq (by simp)) he
        exact .received ⟨b, i, rng, p, hop, ha.decoded, hk⟩ (by simpa using hr) hfin hgone
      | announce _ hr => generalize hout : (n', _) = out at hr; cases hr <;> cases hout <;> simp at he
      | data _ _ _ hr => generalize hout : (n', _) = out at hr; cases hr <;> cases hout <;> simp at he

/-! ## Resource proofs -/

/-- A resource proof of the link. -/
def Packet.ProvesResource (id : Arr 16) (p : Packet) : Prop :=
  p.packetType = PROOF ∧ p.destType = LINK ∧ p.context = RESOURCE_PRF ∧ p.destHash = id.1

instance (id : Arr 16) (p : Packet) : Decidable (p.ProvesResource id) := inferInstanceAs (Decidable (_ ∧ _ ∧ _ ∧ _))

/-- A resource proof is that of data which was received. -/
def Packet.Backed (backing : ResourceKey → Bytes → Prop) (p : Packet) : Prop :=
  ∀ id, p.ProvesResource id → ∃ hash data, p.data = hash.1 ++ (resourceProof data hash).1 ∧ backing (id, hash) data

/-- What a step sends: packets whose frames decode, and no resource proof of what it does not receive. -/
def Node.SendsBacked (n n' : Node) (backing : ResourceKey → Bytes → Prop) : Prop :=
  ∃ ps : List (UInt16 × Packet), n'.outbound = n.outbound ++ ps.map (fun s => (s.1, s.2.encode)) ∧
    ∀ q ∈ ps, q.2.WellFormed ∧ q.2.Backed backing

omit [Rmp] [Bzip2] in
theorem Packet.backed_of_other {p : Packet} {backing : ResourceKey → Bytes → Prop}
    (h : p.packetType ≠ PROOF ∨ p.destType ≠ LINK ∨ p.context ≠ RESOURCE_PRF) : p.Backed backing := by
  intro id hp
  rcases h with h | h | h
  · exact absurd hp.1 h
  · exact absurd hp.2.1 h
  · exact absurd hp.2.2.1 h

namespace Node

/-- Every inbound resource is kept under its own hash. -/
def NamedResources (n : Node) : Prop :=
  ∀ (key : ResourceKey) (r : InboundResource), n.inboundResources[key]? = some r → r.hash = key.2

variable {backing : ResourceKey → Bytes → Prop}

omit [Rmp] [Bzip2] in
theorem SendsBacked.none (h : n'.outbound = n.outbound) : n.SendsBacked n' backing := ⟨[], by simp [h], by simp⟩

omit [Rmp] [Bzip2] in
theorem SendsBacked.of_eq {m : Node} (h : m.SendsBacked n' backing) (he : m.outbound = n.outbound) : n.SendsBacked n' backing := by
  obtain ⟨ps, hps, hq⟩ := h
  exact ⟨ps, he ▸ hps, hq⟩

omit [Rmp] [Bzip2] in
theorem SendsBacked.emit {m : Node} {ps : List (UInt16 × Packet)} (hm : m.outbound = n.outbound)
    (h : ∀ q ∈ ps, q.2.WellFormed ∧ q.2.Backed backing) : n.SendsBacked (m.emit ps) backing :=
  ⟨ps, by rw [emit_outbound, hm], h⟩

omit [Rmp] [Bzip2] in
theorem SendsBacked.emit_one {m : Node} {i : UInt16} {p : Packet} (hm : m.outbound = n.outbound) (hw : p.WellFormed)
    (h : p.Backed backing) : n.SendsBacked (m.emit [(i, p)]) backing :=
  .emit hm fun _ hq => List.mem_singleton.mp hq ▸ ⟨hw, h⟩

omit [Rmp] [Bzip2] in
/-- Data packets of a link prove nothing. -/
theorem backed_linkContext (id : Arr 16) (c : UInt8) (data : Bytes) :
    (Packet.linkContext id c data).WellFormed ∧ (Packet.linkContext id c data).Backed backing :=
  ⟨wellFormed_linkContext _ _ _, Packet.backed_of_other (.inl (by decide : DATA ≠ PROOF))⟩

omit [Rmp] [Bzip2] in
theorem SendsBacked.linkFrames {m : Node} {ps : List (UInt16 × Packet)} {i : UInt16} {cs : List UInt8}
    (hm : m.outbound = n.outbound) (h : LinkFrames id i cs ps) : n.SendsBacked (m.emit ps) backing := by
  refine .emit hm fun q hq => ?_
  obtain ⟨c, -, data, rfl⟩ := h q hq
  exact backed_linkContext id c data

omit [Rmp] [Bzip2] in
theorem tickInner_sendsBacked (n : Node) (rng : Option Entropy) : n.SendsBacked (n.tickInner rng).1 backing := by
  obtain ⟨_, _, requests, hr, heq⟩ := tickInner_result n rng
  rw [heq]
  refine .emit rfl fun q hq => ?_
  rcases List.mem_append.mp hq with hq | hq
  · obtain ⟨f, -, rfl⟩ := List.mem_map.mp hq
    exact backed_linkContext f.2 KEEPALIVE [0xFF]
  · obtain ⟨-, key, _, _, -, hreq⟩ := hr.justified q hq
    obtain ⟨data, rfl⟩ := hreq.frame
    exact backed_linkContext key.1 RESOURCE_REQ data

omit [Rmp] in
/-- The proof that follows the last part is that of the resource it completes. -/
theorem OfferCase.sendsBacked {i : UInt16} {k : Arr 64} {part : Bytes} {out : Node × List Event} (hn : n.NamedResources)
    (ht : ∀ hash data, .resourceComplete id hash data ∈ out.2 → backing (id, hash) data)
    (h : OfferCase n id i k part out) : n.SendsBacked out.1 backing := by
  cases h with
  | refused => exact .none rfl
  | @taken hash r _ hr _ hp =>
    cases hp with
    | @completed data _ hfin =>
      refine .emit_one rfl (wellFormed_proof _ _ _) fun id' hid => ?_
      obtain rfl : id = id' := Subtype.ext hid.2.2.2
      refine ⟨hash, data, ?_, ht hash data (by simp)⟩
      have hname : (r.onPart part).1.hash = hash := (InboundResource.onPart_hash r part).trans (hn _ _ hr)
      simp only [Packet.proof, Packet.newHeader1, InboundResource.proofPacket, hname]
    | corrupt | waiting => exact .none rfl
    | requested _ hps => exact .linkFrames rfl hps

omit [Crypto] [Bzip2] in
theorem ResourceContextCase.sendsBacked [Crypto] {i : UInt16} {context : UInt8} {pt : Bytes} {out : Node × List Event}
    (h : ResourceContextCase n id i context pt out) : n.SendsBacked out.1 backing := by
  cases h with
  | advertised _ _ _ hps | served _ hps | updated _ hps => exact .linkFrames rfl hps
  | _ => exact .none rfl

theorem LinkDataCase.sendsBacked {p : Packet} {i : UInt16} {out : Node × List Event} (hn : n.NamedResources)
    (ht : ∀ hash data, .resourceComplete id hash data ∈ out.2 → backing (id, hash) data)
    (h : LinkDataCase n p id i out) : n.SendsBacked out.1 backing := by
  cases h with
  | ignored | badToken | touched | data => exact .none rfl
  | part _ _ ho => exact ho.sendsBacked hn ht
  | keepalive _ hps => exact .linkFrames rfl hps
  | @closed link _ ha =>
    rw [closeLink_touch n id ha.status]
    exact (tickInner_sendsBacked (n.closedByPeer id link) none).of_eq rfl
  | resource _ _ hr => exact hr.sendsBacked.of_eq rfl

omit [Rmp] [Bzip2] in
theorem handlePathRequest_sendsBacked (hc : n.CachedOk) (p : Packet) (i : UInt16) :
    n.SendsBacked (n.handlePathRequest p i) backing := by
  obtain ⟨_, ps, heq, hps⟩ := handlePathRequest_cases n p i
  rw [heq]
  refine .emit rfl fun q hq => ?_
  obtain ⟨target, isLocal, path, cached, hcached, rfl⟩ := hps q hq
  obtain ⟨hkind, hw⟩ := hc target cached hcached
  refine ⟨pathResponse_wellFormed _ hw _ _, Packet.backed_of_other (.inl ?_)⟩
  rw [pathResponse_packetType, hkind]
  decide

theorem DispatchCase.sendsBacked {p : Packet} {d : Arr 16} {i : UInt16} {out : Node × List Event} (hn : n.NamedResources)
    (hc : n.CachedOk) (hp : p.WellFormed)
    (ht : p.packetType = DATA → ∀ hash data, .resourceComplete d hash data ∈ out.2 → backing (d, hash) data)
    (h : DispatchCase n p d i out) : n.SendsBacked out.1 backing := by
  cases h with
  | ignored => exact .none rfl
  | pathRequest => exact handlePathRequest_sendsBacked hc p i
  | linkRequest _ hr =>
    cases hr with
    | ignored => exact .none rfl
    | accepted =>
      exact .emit_one rfl (wellFormed_proof _ _ _)
        (Packet.backed_of_other (.inr (.inr (by decide : LRPROOF ≠ RESOURCE_PRF))))
  | linkProof _ _ _ hr =>
    cases hr with
    | ignored | badProof => exact .none rfl
    | proven _ _ _ _ _ hps =>
      refine .emit rfl fun q hq => ?_
      obtain ⟨ct, rfl⟩ := hps q hq
      exact backed_linkContext d LRRTT ct
  | deliveryProof _ hr => cases hr <;> exact .none rfl
  | resourceProof _ _ _ hr => cases hr <;> exact .none rfl
  | linkData hk _ hr => exact hr.sendsBacked hn (ht hk)
  | announce hk hr =>
    cases hr with
    | accepted =>
      refine .emit rfl fun q hq => ?_
      unfold rebroadcastCopies at hq
      split at hq
      · obtain ⟨j, -, rfl⟩ := List.mem_map.mp hq
        refine ⟨hp.toHeader2 _, Packet.backed_of_other (.inl ?_)⟩
        rw [show (n.rebroadcast p).packetType = p.packetType from rfl, hk]
        decide
      · cases hq
    | _ => exact .none rfl
  | data hk _ _ hr =>
    cases hr with
    | ignored | badToken | message => exact .none rfl
    | relayed =>
      have hf := forwardData_cases n p d i
      dsimp only
      generalize n.forwardData p d i = m at hf
      cases hf with
      | dropped | noRoute => exact .none rfl
      | forwarded hf =>
        refine .emit_one rfl (forwardPacket_wellFormed hp hf.header hf.forwarded) (Packet.backed_of_other (.inl ?_))
        rw [(forwardPacket_sameContent hf.forwarded).1.packetType, hk]
        decide
    | provenMessage =>
      exact .emit_one rfl (Packet.wellFormed_newHeader1 (by decide) (by decide) _ _ _)
        (Packet.backed_of_other (.inr (.inl (by decide : SINGLE ≠ LINK))))

end Node

/-- What a step puts in the queue is nothing, or backed by what the step itself receives. -/
theorem NodeStep.sendsBacked (hn : n.NamedResources) (hc : n.CachedOk) (h : NodeStep n l n') :
    n'.outbound <:+ n.outbound ∨ n.SendsBacked n' fun key data => Receives key data l := by
  cases h.cases with
  | config _ hc => exact .inl hc.outbound
  | announce hc =>
    cases hc with
    | unknown => exact .inr (.none rfl)
    | sent =>
      exact .inr (.emit_one rfl (Packet.wellFormed_announce _ _) (Packet.backed_of_other (.inl (by decide : ANNOUNCE ≠ PROOF))))
  | sent _ hs =>
    refine .inr ?_
    rw [hs.eq]
    refine .emit rfl fun q hq => ?_
    obtain ⟨-, hd, hw⟩ := hs.frames q hq
    exact ⟨hw, Packet.backed_of_other (.inr (.inl hd))⟩
  | establish hc =>
    cases hc with
    | failed => exact .inr (.none rfl)
    | requested _ hr =>
      refine .inr (.emit_one rfl (route_wellFormed (linkRequestFor_wellFormed _ _) hr) (Packet.backed_of_other (.inl ?_)))
      rw [(route_sameContent hr).packetType]
      exact (by decide : LINKREQUEST ≠ PROOF)
  | linkSend hc =>
    cases hc with
    | failed => exact .inr (.none rfl)
    | sent => exact .inr (.linkFrames rfl (LinkFrames.single (List.mem_singleton_self _) _))
  | sendResource hc =>
    cases hc with
    | failed => exact .inr (.none rfl)
    | sent => exact .inr (.linkFrames rfl (LinkFrames.single (List.mem_singleton_self _) _))
  | close hc => cases hc <;> exact .inr (.none rfl)
  | @tick _ rng => exact .inr (tickInner_sendsBacked n rng)
  | @inbound op b i rng _ events hop hin =>
    generalize hout : (n', events) = out at hin
    cases hin with
    | malformed => cases hout; exact .inr (.none rfl)
    | duplicate => cases hout; exact .inr (.none (by simp))
    | @admitted p d _ ha hd =>
      subst hout
      have hw := received_wellFormed (Packet.decode_wellFormed ha.decoded)
      refine .inr ((hd.sendsBacked (fun key r hr => hn key r (by simpa using hr)) (fun t p h => hc t p (by simpa using h)) hw
        fun hk hash data he => ?_).of_eq (by simp))
      exact ⟨⟨b, i, rng, p, hop, ha.decoded, hk⟩, he⟩

/-! ## Advertisements -/

/-- The frame is an advertisement that the node accepts. -/
def Node.AcceptsAdvertisement (n : Node) (l : Label) (key : ResourceKey) : Prop :=
  ∃ pt a r, n.Opens l key.1 RESOURCE_ADV pt ∧ ResourceAdvertisement.unpack pt = .ok a ∧
    InboundResource.fromAdvertisement a = .ok r ∧ r.hash = key.2

/-- Since the last accepted advertisement of the resource, nothing has been received for it. -/
def Outstanding (start : Node) (tr : List Label) (key : ResourceKey) : Prop :=
  ∃ tr₀ l₀ tr' m, tr = tr₀ ++ l₀ :: tr' ∧ Lts.Run NodeStep start tr₀ m ∧ m.AcceptsAdvertisement l₀ key ∧
    ∀ l ∈ tr', ∀ data, ¬ Receives key data l

theorem NodeStep.receives (hn : n.PendingOk) (h : NodeStep n l n') {key : ResourceKey} (hr : Receives key data l) :
    (∃ r part k, n.inboundResources[key]? = some r ∧ (InboundResource.onPart r part).1.finalize k = .ok data) ∧
      n'.inboundResources[key]? = none := by
  cases h.completion hn hr.2 with
  | received _ hget hfin hgone => exact ⟨⟨_, _, _, hget, hfin⟩, hgone⟩
  | proven hop hdec hk => exact absurd (hr.1.unique ⟨_, _, _, _, hop, hdec, hk⟩) (by decide)

/-- An inbound resource is there before the step, or the step accepts its advertisement. -/
theorem NodeStep.inbound_origin (hn : n.NonePending) (h : NodeStep n l n') {key : ResourceKey} {r' : InboundResource}
    (hr : n'.inboundResources[key]? = some r') :
    n.AcceptsAdvertisement l key ∨ ∃ r : InboundResource, n.inboundResources[key]? = some r := by
  cases h.inboundChange hn key with
  | kept hk | proven _ hk => exact .inr ⟨r', hk ▸ hr⟩
  | ticked _ hk =>
    obtain ⟨r, hr, -⟩ := Option.bind_eq_some_iff.mp (hk.symm.trans hr)
    exact .inr ⟨r, hr⟩
  | @frame i rng p link k hframe hf =>
    cases hf with
    | kept hk => exact .inr ⟨r', hk ▸ hr⟩
    | started _ hctx hrng hopen hun hfrom hhash =>
      obtain ⟨g, rfl⟩ := Option.isSome_iff_exists.mp hrng
      exact .inl ⟨_, _, _, ⟨i, g, p, link, k, hframe, hctx, hopen⟩, hun, hfrom, hhash⟩
    | updated _ _ _ _ _ hget | progressed _ _ hget => exact .inr ⟨_, hget⟩
    | cancelled _ _ _ _ _ hgone | ended _ _ _ _ _ _ hgone => cases hgone.symm.trans hr

/-- A resource that is coming in is one that was advertised and not received since. -/
theorem outstanding_of_run {identity : Identity} {clock : UInt64} {tr : List Label}
    (h : Lts.Run NodeStep (withClock identity clock) tr n) (key : ResourceKey) {r : InboundResource}
    (hr : n.inboundResources[key]? = some r) : Outstanding (withClock identity clock) tr key := by
  induction h generalizing r with
  | nil => simp [withClock] at hr
  | @snoc tr m l u hrun hst ih =>
    have hsilent (data : Bytes) : ¬ Receives key data l := by
      intro hrec
      have hgone := (hst.receives (pendingOk_of_run hrun) hrec).2
      cases hgone.symm.trans hr
    rcases hst.inbound_origin (resourcesOk_of_run hrun).pending hr with hacc | ⟨r₀, hr₀⟩
    · exact ⟨tr, l, [], m, rfl, hrun, hacc, by simp⟩
    · obtain ⟨tr₀, l₀, tr', m₀, rfl, hrun₀, hacc, hnone⟩ := ih hr₀
      refine ⟨tr₀, l₀, tr' ++ [l], m₀, by simp, hrun₀, hacc, fun l' hl' => ?_⟩
      rcases List.mem_append.mp hl' with hl' | hl'
      · exact hnone l' hl'
      · rw [List.mem_singleton.mp hl']
        exact hsilent

/-! ## The network -/

/-- The frame that a call takes out of the queue. -/
def Label.polled (l : Label) : List Bytes :=
  match l.2.ret with
  | .frame (some (_, b)) => [b]
  | _ => []

def Party.other : Party → Party
  | .initiator => .responder
  | .responder => .initiator

/-- The identity of an end. -/
def Party.identity (a b : Identity) : Party → Identity
  | .initiator => a
  | .responder => b

/-- The two ends, and every frame that has left either of them. -/
structure Network where
  node : Party → Node
  sent : Party → List Bytes

/-- A step of one end. It is handed what the other end has sent, any number of times and in any order, or any frame
that is not a resource proof of the link. -/
structure TransferStep (id : Arr 16) (s : Network) (l : Party × Label) (s' : Network) : Prop where
  step : Lts.Interleave NodeStep s.node l s'.node
  sent : s'.sent = Function.update s.sent l.1 (s.sent l.1 ++ l.2.polled)
  carried : ∀ b, l.2.1.inbound?.map (·.1) = some b → b ∈ s.sent l.1.other ∨
    ∀ p, Packet.decode b = .ok p → ¬ p.ProvesResource id

/-- Two nodes that have done nothing yet. -/
def Network.fresh (a b : Identity) (clock : Party → UInt64) : Network := ⟨twoNodes a b clock, fun _ => []⟩

theorem NodeStep.polled (h : NodeStep n l n') {b : Bytes} (hb : b ∈ l.polled) : b ∈ n.outbound.map (·.2) := by
  obtain ⟨op, out⟩ := l
  cases op with
  | pollOutbound =>
    simp only [NodeStep, Node.step, pollOutbound] at h
    split at h
    · cases h
      cases hb
    · rename_i f rest ho
      cases h
      rw [ho, List.mem_singleton.mp hb]
      exact List.mem_cons_self
  | sendResource =>
    obtain ⟨r, -, h⟩ := Option.map_eq_some_iff.mp h
    obtain ⟨-, rfl⟩ := Prod.mk.inj h
    cases hb
  | _ =>
    obtain ⟨-, rfl⟩ := Prod.mk.inj (Option.some.inj h)
    cases hb

section
variable {a b : Identity} {clock : Party → UInt64} {tr : List (Party × Label)} {s : Network}

omit [Crypto] [Rmp] [Bzip2] in
theorem twoNodes_eq (a b : Identity) (clock : Party → UInt64) (v : Party) :
    twoNodes a b clock v = withClock (v.identity a b) (clock v) := by
  cases v <;> rfl

/-- Each end has a run of its own from its first state. -/
theorem TransferStep.node_run (h : Lts.Run (TransferStep id) (.fresh a b clock) tr s) (v : Party) :
    Lts.Run NodeStep (withClock (v.identity a b) (clock v)) (Lts.own v tr) (s.node v) := by
  rw [← twoNodes_eq]
  exact (h.map Network.node fun _ _ _ hst => hst.step).project v

omit [Crypto] [Rmp] [Bzip2] in
theorem cachedOk_fresh (identity : Identity) (clock : UInt64) : (withClock identity clock).CachedOk := by
  simp [CachedOk, withClock]

theorem cachedOk_of_run {identity : Identity} {clock : UInt64} {tr : List Label}
    (h : Lts.Run NodeStep (withClock identity clock) tr n) : n.CachedOk :=
  h.preserve (fun _ _ _ hi hst => hst.cachedOk hi) (cachedOk_fresh identity clock)

/-- A frame of an end, if it proves a resource of the link, proves one which that end has received. -/
def Backed (id : Arr 16) (tr : List Label) (b : Bytes) : Prop :=
  ∀ p, Packet.decode b = .ok p → p.ProvesResource id →
    ∃ l ∈ tr, ∃ hash data, p.data = hash.1 ++ (resourceProof data hash).1 ∧ Receives (id, hash) data l

omit [Rmp] [Bzip2] in
theorem Backed.mono {tr tr' : List Label} {f : Bytes} (h : Backed id tr f) (hsub : tr ⊆ tr') : Backed id tr' f := by
  intro p hp hpr
  obtain ⟨l, hl, hrec⟩ := h p hp hpr
  exact ⟨l, hsub hl, hrec⟩

/-- What a node has in its queue stays backed, and what it adds is. -/
theorem NodeStep.backed {tr : List Label} (hn : n.NamedResources) (hc : n.CachedOk) (h : NodeStep n l n')
    (hq : ∀ f ∈ n.outbound.map (·.2), Backed id tr f) : ∀ f ∈ n'.outbound.map (·.2), Backed id (tr ++ [l]) f := by
  have hold (f : Bytes) (hf : f ∈ n.outbound.map (·.2)) : Backed id (tr ++ [l]) f :=
    (hq f hf).mono (List.subset_append_left _ _)
  intro f hf
  rcases h.sendsBacked hn hc with hsub | ⟨ps, hps, hback⟩
  · exact hold f ((hsub.map _).subset hf)
  · rw [hps, List.map_append, List.mem_append] at hf
    rcases hf with hf | hf
    · exact hold f hf
    · rw [List.map_map] at hf
      obtain ⟨q, hq, rfl⟩ := List.mem_map.mp hf
      obtain ⟨hw, hbacked⟩ := hback q hq
      intro p hp hpr
      cases (Packet.decode_encode hw).symm.trans hp
      obtain ⟨hash, data, hdata, hrec⟩ := hbacked id hpr
      exact ⟨l, by simp, hash, data, hdata, hrec⟩

/-- Every frame of an end, waiting or sent, is backed by what that end has received. -/
theorem backed_of_run (h : Lts.Run (TransferStep id) (.fresh a b clock) tr s) (v : Party) {f : Bytes}
    (hf : f ∈ s.sent v ∨ f ∈ (s.node v).outbound.map (·.2)) : Backed id (Lts.own v tr) f := by
  induction h generalizing f with
  | nil => cases v <;> simp [Network.fresh, twoNodes, withClock] at hf
  | @snoc tr t l u hrun hst ih =>
    have hrunv := TransferStep.node_run hrun v
    obtain ⟨w, l⟩ := l
    rw [Lts.own_append]
    by_cases hw : w = v
    · subst hw
      have hown : Lts.own w [(w, l)] = [l] := by simp [Lts.own]
      have hstep : NodeStep (t.node w) l (u.node w) := hst.step.1
      rw [hown]
      rcases hf with hf | hf
      · rw [hst.sent, Function.update_self, List.mem_append] at hf
        rcases hf with hf | hf
        · exact (ih (.inl hf)).mono (List.subset_append_left _ _)
        · exact (ih (.inr (hstep.polled hf))).mono (List.subset_append_left _ _)
      · exact hstep.backed (resourcesOk_of_run hrunv).named (cachedOk_of_run hrunv) (fun f hf => ih (.inr hf)) f hf
    · have hsame : u.node v = t.node v := hst.step.2 v (Ne.symm hw)
      rw [hst.sent, Function.update_of_ne (Ne.symm hw), hsame] at hf
      exact (ih hf).mono (List.subset_append_left _ _)

/-! ## Agreement -/

omit [Rmp] in
theorem InboundResource.finalize_hash {r : InboundResource} {k : Arr 64} (h : r.finalize k = .ok data) :
    resourceHash data r.randomHash = r.hash := by
  unfold InboundResource.finalize at h
  split at h
  · cases h
  · obtain ⟨data', -, h⟩ := Reader.bind_eq_ok.mp h
    dsimp only at h
    split at h
    · cases h
    · rename_i hok
      cases h
      exact not_not.mp (not_or.mp hok).2

/-- The call sends the data as a resource and returns its hash. -/
def SendsData (data : Bytes) (hash : Arr 32) (l : Label) : Prop :=
  (∃ fuel id rng, l.1 = .sendResource fuel id data rng) ∧ l.2.ret = .hash (.ok hash)

/-- The hash that a send returns is that of its data with four more bytes. -/
theorem NodeStep.sent_hash (h : NodeStep n l n') (hs : SendsData data hash l) : ∃ random, hash = resourceHash data random := by
  obtain ⟨op, out⟩ := l
  obtain ⟨⟨fuel, id, rng, hop⟩, hret⟩ := hs
  dsimp only at hop hret
  subst hop
  obtain ⟨⟨m, result⟩, hsend, heq⟩ := Option.map_eq_some_iff.mp h
  obtain ⟨rfl, rfl⟩ := Prod.mk.inj heq
  cases sendResource_cases hsend with
  | failed => cases hret
  | sent _ hnew =>
    cases hret
    exact ⟨_, (OutboundResource.new_made hnew).hash⟩

/-- The strings whose hashes name the resources of a run: the data sent and the data completed, each with four more bytes. -/
def NamesResource (tr : List (Party × Label)) (m : Bytes) : Prop :=
  ∃ v l data, (v, l) ∈ tr ∧ (∃ random : Arr 4, m = data ++ random.1) ∧
    ((∃ hash, SendsData data hash l) ∨ ∃ id hash, .resourceComplete id hash data ∈ l.2.events)

/-- SHA-256 does not collide on the strings that name the resources of the run. -/
def NamesApart (tr : List (Party × Label)) : Prop :=
  ∀ m m', NamesResource tr m → NamesResource tr m' → Crypto.sha256 m = Crypto.sha256 m' → m = m'

/-- The event completes the resource. -/
def Event.completes (key : ResourceKey) : Event → Bool
  | .resourceComplete id hash _ => (id, hash) = key
  | _ => false

omit [Crypto] [Rmp] [Bzip2] in
theorem Event.resource?_of_completes {key : ResourceKey} {e : Event} (h : e.completes key = true) : e.resource? = some key := by
  cases e <;> simp only [Event.completes, Bool.false_eq_true, decide_eq_true_eq] at h
  exact congrArg some h

/-- One call completes a resource at most once. -/
theorem NodeStep.completes_once (hn : n.NonePending) (h : NodeStep n l n') (key : ResourceKey) :
    l.2.events.countP (·.completes key) ≤ 1 := by
  have hcount : l.2.events.countP (·.completes key) = (eventsFor key l.2.events).countP (·.completes key) := by
    rw [eventsFor, List.countP_filter]
    refine List.countP_congr fun e _ => ?_
    simpa using fun h => Event.resource?_of_completes h
  have hone (e : Event) : [e].countP (·.completes key) ≤ 1 := List.countP_le_length
  rw [hcount]
  cases h.inboundChange hn key with
  | kept _ he => simp [he]
  | proven _ _ he =>
    rw [he]
    exact hone _
  | ticked _ _ he =>
    rw [he]
    split
    · exact hone _
    · simp
  | frame _ hf =>
    cases hf with
    | kept _ he | updated _ _ _ _ _ _ _ _ he => simp [he]
    | started _ _ _ _ _ _ _ _ he | cancelled _ _ _ _ _ _ he | progressed _ _ _ _ _ _ _ he =>
      rw [he]
      exact hone _
    | ended _ _ _ _ _ _ _ he =>
      rw [he, List.countP_cons]
      simpa [Event.completes] using hone _

/-- What the two ends of the link agree on. Every completion is the receiver's or the sender's; the receiver completes a
resource that the other end sent with its data, once for an advertisement that it accepted; and the sender completes it
when the receiver has. -/
structure TransfersAgree (id : Arr 16) (start : Party → Node) (tr : List (Party × Label)) : Prop where
  sides : ∀ {v l hash data}, (v, l) ∈ tr → .resourceComplete id hash data ∈ l.2.events →
    Receives (id, hash) data l ∨ Concludes (id, hash) l ∧ data = []
  data : ∀ {v l l' hash data data'}, (v, l) ∈ tr → Receives (id, hash) data l → (v.other, l') ∈ tr → SendsData data' hash l' →
    data = data'
  single : ∀ {v l} hash, (v, l) ∈ tr → l.2.events.countP (·.completes (id, hash)) ≤ 1
  advertised : ∀ {v tr₁ l tr₂ hash data}, Lts.own v tr = tr₁ ++ l :: tr₂ → Receives (id, hash) data l →
    Outstanding (start v) tr₁ (id, hash)
  order : ∀ {v tr₁ l tr₂ hash}, tr = tr₁ ++ (v, l) :: tr₂ → Concludes (id, hash) l →
    ∃ l' data, (v.other, l') ∈ tr₁ ∧ Receives (id, hash) data l'

/-- The two ends of a link agree on every transfer, in every run over such a network. -/
theorem transfers_agree (h : Lts.Run (TransferStep id) (.fresh a b clock) tr s) (hapart : NamesApart tr) :
    TransfersAgree id (twoNodes a b clock) tr where
  sides := by
    intro v l hash data hl he
    obtain ⟨tr₁, tr₂, n, n', -, hrun, hst, -⟩ := (TransferStep.node_run h v).mem_step (Lts.mem_own.mpr hl)
    cases hst.completion (pendingOk_of_run hrun) he with
    | received hhands => exact .inl ⟨hhands, he⟩
    | proven hop hdec hk _ _ _ _ hdata => exact .inr ⟨⟨⟨_, _, _, _, hop, hdec, hk⟩, hdata ▸ he⟩, hdata⟩
  data := by
    intro v l l' hash data data' hl hrec hl' hsent
    obtain ⟨tr₁, tr₂, n, n', -, hrun, hst, -⟩ := (TransferStep.node_run h v).mem_step (Lts.mem_own.mpr hl)
    obtain ⟨-, -, m, m', -, -, hst', -⟩ := (TransferStep.node_run h v.other).mem_step (Lts.mem_own.mpr hl')
    obtain ⟨⟨r, part, k, hr, hfin⟩, -⟩ := hst.receives (pendingOk_of_run hrun) hrec
    obtain ⟨random', hhash'⟩ := hst'.sent_hash hsent
    have hhash : resourceHash data (r.onPart part).1.randomHash = hash := by
      rw [InboundResource.finalize_hash hfin, InboundResource.onPart_hash]
      exact (resourcesOk_of_run hrun).named (id, hash) r hr
    have heq := hapart _ _ ⟨v, l, data, hl, ⟨_, rfl⟩, .inr ⟨id, hash, hrec.2⟩⟩
      ⟨v.other, l', data', hl', ⟨random', rfl⟩, .inl ⟨hash, hsent⟩⟩ (hhash.trans hhash')
    exact (List.append_inj' heq ((r.onPart part).1.randomHash.2.trans random'.2.symm)).1
  single := by
    intro v l hash hl
    obtain ⟨tr₁, tr₂, n, n', -, hrun, hst, -⟩ := (TransferStep.node_run h v).mem_step (Lts.mem_own.mpr hl)
    exact hst.completes_once (resourcesOk_of_run hrun).pending (id, hash)
  advertised := by
    intro v tr₁ l tr₂ hash data htr hrec
    have hrun := TransferStep.node_run h v
    rw [htr] at hrun
    obtain ⟨n, hrun, hrest⟩ := hrun.split
    obtain ⟨n', hst, -⟩ := hrest.cons_inv
    obtain ⟨⟨r, -, -, hr, -⟩, -⟩ := hst.receives (pendingOk_of_run hrun) hrec
    rw [twoNodes_eq]
    exact outstanding_of_run hrun (id, hash) hr
  order := by
    intro v tr₁ l tr₂ hash htr hcon
    subst htr
    obtain ⟨t, hrun, hrest⟩ := h.split
    obtain ⟨u, hst, -⟩ := hrest.cons_inv
    have hstep : NodeStep (t.node v) l (u.node v) := hst.step.1
    cases hstep.completion (pendingOk_of_run (TransferStep.node_run hrun v)) hcon.2 with
    | received hhands => exact absurd (hcon.1.unique hhands) (by decide)
    | @proven f i rng p hop hdec hk ht hctx hdest hslice =>
      have hproves : p.ProvesResource id := ⟨hk, ht, hctx, hdest⟩
      rcases hst.carried f (by simp [hop]) with hsent | hother
      · obtain ⟨l', hl', hash', data, hdata, hrec⟩ := backed_of_run hrun v.other (.inl hsent) p hdec hproves
        have hname : Arr.slice? (hash'.1 ++ (resourceProof data hash').1) 0 32 = some hash' :=
          Arr.slice?_append List.length_nil hash' (resourceProof data hash').1
        rw [← hdata] at hname
        cases hname.symm.trans hslice
        exact ⟨l', data, Lts.mem_own.mp hl', hrec⟩
      · exact absurd hproves (hother p hdec)

end

/-! ## Scripts -/

/-- One entry of a script: a call of an end, or the frame that the other end sent as number `k`. -/
inductive Cue
  | call (op : Op)
  | hand (k : Nat) (rng : Option Entropy)

/-- The call that an entry stands for. A call that brings a frame of its own is none. -/
def Cue.op? (sent : List Bytes) : Cue → Option Op
  | .call op => if op.inbound?.isNone then some op else none
  | .hand k none => (sent[k]?).map fun b => .handleInbound b 0
  | .hand k (some rng) => (sent[k]?).map fun b => .handleInboundWithEntropy b 0 rng

/-- The script played, with what each call returned. -/
def Network.play (s : Network) : List (Party × Cue) → Option (Network × List (Party × Label))
  | [] => some (s, [])
  | (v, cue) :: script =>
    match cue.op? (s.sent v.other) with
    | none => none
    | some op =>
      match (s.node v).step op with
      | none => none
      | some (n, out) =>
        match play ⟨Function.update s.node v n, Function.update s.sent v (s.sent v ++ Label.polled (op, out))⟩ script with
        | none => none
        | some (s, tr) => some (s, (v, (op, out)) :: tr)

omit [Crypto] [Rmp] [Bzip2] in
theorem Cue.op?_carried {sent : List Bytes} {cue : Cue} {op : Op} (h : cue.op? sent = some op) {b : Bytes}
    (hb : op.inbound?.map (·.1) = some b) : b ∈ sent := by
  have hhand {k : Nat} {f : Bytes → Op} (hf : ∀ b, (f b).inbound?.map (·.1) = some b)
      (h : (sent[k]?).map f = some op) : b ∈ sent := by
    obtain ⟨b', hb', rfl⟩ := Option.map_eq_some_iff.mp h
    cases (hf b').symm.trans hb
    exact List.mem_of_getElem? hb'
  cases cue with
  | call op' =>
    obtain ⟨hnone, h⟩ := Option.ite_none_right_eq_some.mp h
    cases h
    rw [Option.isNone_iff_eq_none.mp hnone] at hb
    cases hb
  | hand k rng =>
    cases rng with
    | none => exact hhand (fun _ => rfl) h
    | some rng => exact hhand (fun _ => rfl) h

/-- A script is played over a network that hands over nothing but what was sent. -/
theorem Network.play_run {s s' : Network} {script : List (Party × Cue)} {tr : List (Party × Label)}
    (h : s.play script = some (s', tr)) (id : Arr 16) : Lts.Run (TransferStep id) s tr s' := by
  induction script generalizing s tr with
  | nil =>
    cases h
    exact .nil
  | cons entry script ih =>
    obtain ⟨v, cue⟩ := entry
    unfold play at h
    split at h
    · cases h
    · rename_i op hop
      split at h
      · cases h
      · rename_i n out hstep
        split at h
        · cases h
        · rename_i s' tr' hplay
          cases h
          refine .cons ⟨⟨?_, fun w hw => Function.update_of_ne hw ..⟩, rfl, fun b hb => .inl ?_⟩ (ih hplay)
          · simpa [NodeStep] using hstep
          · exact Cue.op?_carried hop hb

end

section
open Sample

/-- The responder announces itself, the link is made, and the initiator sends a resource over it. -/
def transferScript : List (Party × Cue) :=
  [(.responder, .call (.registerSingleDestination "chat" [])),
    (.responder, .call (.sendAnnounce chatDest [] (entropy 9) 0)), (.responder, .call .pollOutbound),
    (.initiator, .hand 0 none), (.initiator, .call (.establishLink chatDest (entropy 1))),
    (.initiator, .call .pollOutbound), (.responder, .hand 0 (some (entropy 2))), (.responder, .call .pollOutbound),
    (.initiator, .hand 1 none), (.initiator, .call (.sendResource 1 chatLink [1, 2, 3] (entropy 5))),
    (.initiator, .call .pollOutbound), (.responder, .hand 1 (some (entropy 3))), (.responder, .call .pollOutbound),
    (.initiator, .hand 2 (some (entropy 4))), (.initiator, .call .pollOutbound), (.responder, .hand 2 none),
    (.responder, .call .pollOutbound), (.initiator, .hand 3 none)]

/-- The hash of the resource, with the bytes that the call draws for it. -/
def transferHash : Arr 32 :=
  resourceHash [1, 2, 3] (Reticulum.randomHash ((Reticulum.randomHash (entropy 5)).2.fill 16).2).1

def chatNetwork : Network := .fresh (identity 7) (identity 3) fun _ => 100

/-- The data that a call sends or completes is short. -/
def Label.isShort (l : Label) : Bool :=
  (match l.1 with | .sendResource _ _ data _ => data.length ≤ 3 | _ => true) &&
    l.2.events.all fun | .resourceComplete _ _ data => data.length ≤ 3 | _ => true

/-- Short strings have digests of their own. -/
theorem namesApart_of_short {tr : List (Party × Label)} (h : tr.all (fun e => e.2.isShort) = true) : NamesApart tr := by
  have hlen {m : Bytes} (hm : NamesResource tr m) : m.length ≤ 15 := by
    obtain ⟨v, l, data, hl, ⟨random, rfl⟩, hdata⟩ := hm
    obtain ⟨hop, hev⟩ := Bool.and_eq_true_iff.mp (List.all_eq_true.mp h (v, l) hl)
    have hshort : data.length ≤ 3 := by
      rcases hdata with ⟨_, ⟨_, _, _, hsend⟩, -⟩ | ⟨_, _, hmem⟩
      · simpa [hsend] using hop
      · simpa using List.all_eq_true.mp hev _ hmem
    rw [List.length_append, random.2]
    omega
  exact fun m m' hm hm' heq => digest_injective (hlen hm) (hlen hm') heq

theorem transfers_agree_chat : ∃ tr s, Lts.Run (TransferStep chatLink) chatNetwork tr s ∧
    TransfersAgree chatLink (twoNodes (identity 7) (identity 3) fun _ => 100) tr ∧
    (∃ l, (.responder, l) ∈ tr ∧ .resourceComplete chatLink transferHash [1, 2, 3] ∈ l.2.events) ∧
    ∃ l, (.initiator, l) ∈ tr ∧ .resourceComplete chatLink transferHash [] ∈ l.2.events := by
  have hread : (chatNetwork.play transferScript).any (fun r => r.2.all (fun e => e.2.isShort) ∧
      (r.2.any fun e => e.1 = .responder ∧ .resourceComplete chatLink transferHash [1, 2, 3] ∈ e.2.2.events) ∧
      r.2.any fun e => e.1 = .initiator ∧ .resourceComplete chatLink transferHash [] ∈ e.2.2.events) = true := by
    decide +kernel
  obtain ⟨⟨s, tr⟩, hplay, hread⟩ := (Option.any_eq_true _ _).mp hread
  obtain ⟨hshort, hreceived, hconcluded⟩ := of_decide_eq_true hread
  have hrun := Network.play_run hplay chatLink
  have hend {v : Party} {e : Event} (h : tr.any (fun l => l.1 = v ∧ e ∈ l.2.2.events) = true) :
      ∃ l, (v, l) ∈ tr ∧ e ∈ l.2.events := by
    obtain ⟨⟨w, l⟩, hl, hmem⟩ := List.any_eq_true.mp h
    obtain ⟨rfl, he⟩ := of_decide_eq_true hmem
    exact ⟨l, hl, he⟩
  exact ⟨tr, s, hrun, transfers_agree hrun (namesApart_of_short hshort), hend hreceived, hend hconcluded⟩

end

end Reticulum
