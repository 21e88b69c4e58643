import Reticulum.StepCases

/-!
# What a step says, and where

Every frame a step enqueues, with the reason for the interface it goes out on:
the caller's choice, a path, a link, the interface list, or the interface the
frame before it came in on.
-/

namespace Reticulum

namespace Node

/-- A link that is not closed, or that still has a resource coming in. -/
structure InUse (n : Node) (id : Arr 16) (link : LinkEntry) : Prop where
  get : n.links[id]? = some link
  used : link.status ≠ .closed ∨ ∃ (h : Arr 32) (r : InboundResource), n.inboundResources[(id, h)]? = some r

theorem InUse.of_open {n : Node} {id : Arr 16} {link : LinkEntry} (h : n.links[id]? = some link)
    (hs : link.status ≠ .closed) : n.InUse id link := ⟨h, .inl hs⟩

theorem InUse.congr {n m : Node} {id : Arr 16} {link : LinkEntry} (h : m.InUse id link) (hl : m.links = n.links)
    (hr : m.inboundResources = n.inboundResources) : n.InUse id link := ⟨hl ▸ h.get, hr ▸ h.used⟩

variable [Crypto]

/-- A packet that a step may send on an interface. -/
inductive Speech (n : Node) (l : Label) : UInt16 × Packet → Prop
  | announce {d : Arr 16} {appData : Bytes} {rng : Entropy} {i : UInt16} (payload : Bytes) :
    l.1 = .sendAnnounce d appData rng i → Speech n l (i, Packet.announce d payload)
  | broadcast {i : UInt16} {p : Packet} : l.1.inbound? = none → i ∈ n.interfaces → p.WellFormed → p.packetType = DATA →
    Speech n l (i, p)
  | routed {d : Arr 16} {e : PathEntry} {p : Packet} : l.1.inbound? = none → n.prunePaths.paths.get d = some e →
    p.WellFormed → p.packetType = DATA ∨ p.packetType = LINKREQUEST → Speech n l (e.interface, p)
  | onLink {id : Arr 16} {link : LinkEntry} (c : UInt8) (data : Bytes) : n.InUse id link →
    Speech n l (link.interface, Packet.linkContext id c data)
  | reply {b : Bytes} {i : UInt16} {rng : Option Entropy} {p : Packet} : l.1.inbound? = some (b, i, rng) →
    p.WellFormed → p.packetType = PROOF → Speech n l (i, p)
  | answer {b : Bytes} {i : UInt16} {rng : Option Entropy} {p cached : Packet} {target : Arr 16} :
    l.1.inbound? = some (b, i, rng) → n.Admits b p Packet.pathRequestDestinationHash → p.packetType = DATA →
    p.destType = PLAIN → (n.admitted p).Answers (received p) target cached →
    Speech n l (i, (n.admitted p).answerFor target cached)
  | forward {b : Bytes} {i : UInt16} {rng : Option Entropy} {p q : Packet} {d : Arr 16} {path : PathEntry} :
    l.1.inbound? = some (b, i, rng) → n.Admits b p d → p.packetType = DATA →
    (n.admitted p).Forwards (received p) d i path q → Speech n l (path.interface, q)
  | rebroadcast {b : Bytes} {i j : UInt16} {rng : Option Entropy} {p : Packet} {d : Arr 16} {a : Announce}
    {pub : PublicIdentity} : l.1.inbound? = some (b, i, rng) → n.Admits b p d → p.packetType = ANNOUNCE →
    (n.admitted p).Announces (received p) d a → PublicIdentity.fromBytes a.pub.1 = .ok pub →
    (n.paths.update d (announcedEntry (received p) a pub i n.nowSecs) n.nowSecs).2 = true → j ∈ n.interfaces → j ≠ i →
    Speech n l (j, n.rebroadcast (received p))

/-- The frames a step enqueues are packets it may send. -/
def Speaks (n : Node) (l : Label) (n' : Node) : Prop :=
  ∃ ps : List (UInt16 × Packet), n.enqueued n' = ps.map (fun s => (s.1, s.2.encode)) ∧ ∀ q ∈ ps, n.Speech l q

variable {n n' : Node} {l : Label}

/-- Every packet that is sent has a frame that decodes. -/
theorem Speech.wellFormed (hc : ∀ (t : Arr 16) (p : Packet), n.cachedAnnounces[t]? = some p → p.WellFormed) {s : UInt16 × Packet}
    (h : n.Speech l s) : s.2.WellFormed := by
  cases h with
  | announce => exact Packet.wellFormed_announce _ _
  | broadcast _ _ hw | routed _ _ hw | reply _ hw => exact hw
  | onLink => exact wellFormed_linkContext _ _ _
  | answer _ _ _ _ ha =>
    have hcached := ha.cached
    simp only [admitted_cachedAnnounces, maybePrune_keeps] at hcached
    exact pathResponse_wellFormed _ (hc _ _ hcached) _ _
  | forward _ ha _ hf =>
    have hw := received_wellFormed (Packet.decode_wellFormed ha.decoded)
    exact forwardPacket_wellFormed hw hf.header hf.forwarded
  | rebroadcast _ ha =>
    have hw := received_wellFormed (Packet.decode_wellFormed ha.decoded)
    exact hw.toHeader2 _

theorem Speaks.silent (h : n'.outbound <:+ n.outbound) : n.Speaks l n' := by
  refine ⟨[], ?_, by simp⟩
  exact List.drop_of_length_le h.length_le

theorem Speaks.none (h : n'.outbound = n.outbound) : n.Speaks l n' := .silent (h ▸ List.suffix_rfl)

theorem Speaks.emit {m : Node} {ps : List (UInt16 × Packet)} (hm : m.outbound = n.outbound)
    (h : ∀ q ∈ ps, n.Speech l q) : n.Speaks l (m.emit ps) := ⟨ps, enqueued_emit hm ps, h⟩

theorem Speaks.emit_one {m : Node} {q : UInt16 × Packet} (hm : m.outbound = n.outbound) (h : n.Speech l q) :
    n.Speaks l (m.emit [q]) :=
  .emit hm fun _ hq => List.mem_singleton.mp hq ▸ h

/-! ## Local operations -/

theorem sendSingleMessage_speaks (hl : l.1.inbound? = none) (d : Arr 16) (pt : Bytes) (rng : Entropy) (receipt : Bool) :
    n.Speaks l (n.sendSingleMessage d pt rng receipt).1 := by
  have h := n.sendSingleMessage_cases d pt rng receipt
  have hw (ct : Bytes) : (Packet.dataSingle d ct).WellFormed :=
    Packet.wellFormed_newHeader1 (by decide) (by decide) _ _ _
  generalize n.sendSingleMessage d pt rng receipt = r at h
  cases h with
  | failed => exact .none rfl
  | sent he hr _ | sentWithReceipt he hr _ =>
    exact .emit_one rfl (.routed hl he (route_wellFormed (hw _) hr) (.inl (route_sameContent hr).packetType))

theorem enqueueDestinationPacket_speaks (hl : l.1.inbound? = none) {p : Packet} (hp : p.WellFormed)
    (ht : p.packetType = DATA) (d : Arr 16) : n.Speaks l (n.enqueueDestinationPacket p d).1 := by
  have h := n.enqueueDestinationPacket_cases p d
  generalize n.enqueueDestinationPacket p d = r at h
  cases h with
  | failed => exact .none rfl
  | routed he hr =>
    exact .emit_one rfl (.routed hl he (route_wellFormed hp hr) (.inl ((route_sameContent hr).packetType.trans ht)))
  | broadcast =>
    refine .emit rfl fun q hq => ?_
    obtain ⟨i, hi, rfl⟩ := List.mem_map.mp hq
    exact .broadcast hl hi hp ht

theorem sendGroupMessage_speaks (hl : l.1.inbound? = none) (d : Arr 16) (pt : Bytes) (rng : Entropy) :
    n.Speaks l (n.sendGroupMessage d pt rng).1 := by
  unfold sendGroupMessage
  split
  · exact .none rfl
  · exact enqueueDestinationPacket_speaks hl (wellFormed_dataFor (by decide) _ _) rfl d

theorem requestPath_speaks (hl : l.1.inbound? = none) (d : Arr 16) (rng : Entropy) :
    n.Speaks l (n.requestPath d rng) := by
  unfold requestPath
  dsimp only
  rw [pushAll_eq_emit]
  refine .emit rfl fun q hq => ?_
  obtain ⟨i, hi, rfl⟩ := List.mem_map.mp hq
  refine .broadcast hl hi ?_ rfl
  exact ⟨(by decide : HEADER_1 < 2), (by decide : DATA < 4), (by decide : PLAIN < 4), (by decide : BROADCAST < 2),
    Packet.pathRequestDestinationHash.2, by simp [Packet.pathRequest]; decide⟩

theorem sendAnnounce_speaks {d : Arr 16} {appData : Bytes} {rng : Entropy} {i : UInt16}
    (hl : l.1 = .sendAnnounce d appData rng i) : n.Speaks l (n.sendAnnounce d appData rng i) := by
  have h := n.sendAnnounce_cases d appData rng i
  generalize n.sendAnnounce d appData rng i = m at h
  cases h with
  | unknown => exact .none rfl
  | sent => exact .emit_one rfl (.announce _ hl)

theorem establishLink_speaks (hl : l.1.inbound? = none) (d : Arr 16) (rng : Entropy) :
    n.Speaks l (n.establishLink d rng).1 := by
  have h := n.establishLink_cases d rng
  generalize n.establishLink d rng = r at h
  cases h with
  | failed => exact .none rfl
  | requested he hr =>
    have hs := (route_sameContent hr).packetType
    exact .emit_one rfl (.routed hl he (route_wellFormed (linkRequestFor_wellFormed _ _) hr) (.inr hs))

theorem ActiveOn.onLink {id : Arr 16} {i : UInt16} {link : LinkEntry} {key : Arr 64} (h : n.ActiveOn id i link key)
    (c : UInt8) (data : Bytes) : n.Speech l (i, Packet.linkContext id c data) := by
  rw [← h.interface]
  exact .onLink c data (.of_open h.get (by simp [h.status]))

theorem linkSend_speaks (id : Arr 16) (pt : Bytes) (rng : Entropy) : n.Speaks l (n.linkSend id pt rng).1 := by
  have h := n.linkSend_cases id pt rng
  generalize n.linkSend id pt rng = r at h
  cases h with
  | failed => exact .none rfl
  | sent ha => exact .emit_one rfl (ha.onLink _ _)

omit [Crypto] in
theorem closeLink_outbound (id : Arr 16) : (n.closeLink id).outbound = n.outbound := by
  unfold closeLink
  split
  · rfl
  · split <;> rfl

/-- The links in use of `m` are in use in `n`, over the same interfaces. -/
def SameLinkInterfaces (n m : Node) : Prop :=
  ∀ (id : Arr 16) (link : LinkEntry), m.InUse id link → ∃ link', n.InUse id link' ∧ link'.interface = link.interface

theorem tickInner_speaks {m : Node} (hm : m.outbound = n.outbound) (hlinks : n.SameLinkInterfaces m)
    (rng : Option Entropy) : n.Speaks l (m.tickInner rng).1 := by
  obtain ⟨_, _, requests, hr, heq⟩ := tickInner_result m rng
  rw [heq]
  refine .emit hm fun q hq => ?_
  rcases List.mem_append.mp hq with hq | hq
  · simp only [keepalives, keepaliveLinks, List.map_filterMap, List.mem_filterMap, Prod.exists] at hq
    obtain ⟨id, link, hmem, hq⟩ := hq
    split at hq
    · obtain rfl : q = (link.interface, Packet.linkContext id KEEPALIVE [0xFF]) := by simpa using hq.symm
      have hactive : link.status = .active := linkTick_active m.nowSecs (by simp [‹linkTick _ _ = _›])
      have hopen : m.InUse id link :=
        .of_open (Std.ExtTreeMap.mem_toList_iff_getElem?_eq_some.mp hmem) (by simp [hactive])
      obtain ⟨link', hl', hi⟩ := hlinks id link hopen
      rw [← hi]
      exact .onLink _ _ hl'
    · cases hq
  · obtain ⟨-, key, r, link, -, hreq⟩ := hr.justified q hq
    obtain ⟨data, rfl⟩ := hreq.frame
    obtain ⟨link', hl', hi⟩ := hlinks key.1 link ⟨hreq.linked, .inr ⟨key.2, r, hreq.resource⟩⟩
    rw [← hi]
    exact .onLink _ _ hl'

/-! ## Handlers -/

variable {m : Node} {b : Bytes} {i : UInt16} {rng : Option Entropy}

/-- A node in the middle of a step: its queue and its links' interfaces are still those of `n`. -/
structure Underway (n m : Node) : Prop where
  outbound : m.outbound = n.outbound
  links : n.SameLinkInterfaces m

omit [Crypto] in
/-- A link of a node in the middle of a step may change, but not its interface, and it is not opened again. -/
theorem Underway.setLink {id : Arr 16} {link link' : LinkEntry} (h : n.Underway m) (hl : m.links[id]? = some link)
    (hopen : link.status ≠ .closed) (hi : link'.interface = link.interface) : n.Underway (m.setLink id link') := by
  refine ⟨h.outbound, fun id' link'' hl'' => ?_⟩
  have hget := hl''.get
  rw [setLink_links, Std.ExtTreeMap.getElem?_insert] at hget
  split at hget
  · rename_i hid
    obtain rfl : id = id' := by simpa using hid
    cases hget
    obtain ⟨l', hl', hi'⟩ := h.links id link (.of_open hl hopen)
    exact ⟨l', hl', hi'.trans hi.symm⟩
  · exact h.links id' link'' ⟨hget, hl''.used⟩

theorem Underway.linkFrames (h : n.Underway m) {id : Arr 16} {link : LinkEntry} {key : Arr 64}
    (ha : m.ActiveOn id i link key) {m' : Node} (hm : m'.outbound = m.outbound) {ps : List (UInt16 × Packet)}
    {cs : List UInt8} (hps : LinkFrames id i cs ps) : n.Speaks l (m'.emit ps) := by
  refine .emit (hm.trans h.outbound) fun q hq => ?_
  obtain ⟨c, -, data, rfl⟩ := hps q hq
  obtain ⟨link', hl', hi⟩ := h.links id link (.of_open ha.get (by simp [ha.status]))
  rw [← hi.trans ha.interface]
  exact .onLink _ _ hl'

theorem LinkDataCase.speaks [Rmp] [Bzip2] (hop : l.1.inbound? = some (b, i, rng)) {p : Packet} {id : Arr 16}
    {out : Node × List Event} (hm : n.Underway m) (h : LinkDataCase m p id i out) : n.Speaks l out.1 := by
  cases h with
  | ignored | badToken | touched | data => exact .none hm.outbound
  | part ha _ ho =>
    cases ho with
    | refused => exact .none hm.outbound
    | taken _ _ hp =>
      cases hp with
      | completed => exact .emit_one hm.outbound (.reply hop (wellFormed_proof _ _ _) rfl)
      | corrupt | waiting => exact .none hm.outbound
      | requested _ hps => exact hm.linkFrames ha rfl hps
  | keepalive ha hps => exact hm.linkFrames ha rfl hps
  | @closed link key ha =>
    have ht : n.Underway (m.setLink id { link with lastActivity := m.nowSecs }) :=
      hm.setLink ha.get (by simp [ha.status]) rfl
    have ht : n.Underway (m.touch id link) := ht
    have hc := closeLink_cases (m.touch id link) id
    unfold tick
    generalize (m.touch id link).closeLink id = k at hc
    cases hc with
    | unknown | already => exact tickInner_speaks ht.outbound ht.links none
    | @closed link' hl hopen =>
      have hk : n.Underway ((m.touch id link).setLink id { link' with status := .closed }) := ht.setLink hl hopen rfl
      refine tickInner_speaks ?_ (fun id' link'' h => ?_) none
      · exact hk.outbound
      · exact hk.links id' link'' (h.congr rfl rfl)
  | @resource link _ _ _ ha _ hr =>
    cases hr with
    | advertised _ _ _ hps | served _ hps | updated _ hps => exact hm.linkFrames ha rfl hps
    | _ => exact .none hm.outbound

theorem DispatchCase.speaks [Rmp] [Bzip2] (hop : l.1.inbound? = some (b, i, rng)) {p : Packet} {d : Arr 16}
    (ha : n.Admits b p d) {out : Node × List Event} (h : DispatchCase (n.admitted p) (received p) d i out) :
    n.Speaks l out.1 := by
  have hout : (n.admitted p).outbound = n.outbound := by simp
  have hm : n.Underway (n.admitted p) :=
    ⟨hout, fun id link hl => ⟨link, hl.congr (by simp) (by simp), rfl⟩⟩
  cases h with
  | ignored => exact .none hout
  | pathRequest ht hd hreq =>
    subst hreq
    have hc := (n.admitted p).handlePathRequest_case (received p) i
    dsimp only
    generalize (n.admitted p).handlePathRequest (received p) i = k at hc
    cases hc with
    | silent => exact .none hout
    | answered hans => exact .emit_one hout (.answer hop ha ht hd hans)
  | linkRequest _ hr =>
    cases hr with
    | ignored => exact .none hout
    | accepted => exact .emit_one hout (.reply hop (wellFormed_proof _ _ _) rfl)
  | linkProof _ _ _ hr =>
    cases hr with
    | ignored | badProof => exact .none hout
    | proven hl hpending _ _ _ hps =>
      refine .emit hout fun q hq => ?_
      obtain ⟨ct, rfl⟩ := hps q hq
      exact .onLink _ _ (.of_open (by simpa using hl) (by simp [hpending]))
  | deliveryProof _ hr => cases hr <;> exact .none hout
  | resourceProof _ _ _ hr => cases hr <;> exact .none hout
  | linkData _ _ hr => exact hr.speaks hop hm
  | announce ht hr =>
    cases hr with
    | ignored | badSignature | notBetter => exact .none hout
    | accepted hann hpub hu =>
      refine .emit hout fun q hq => ?_
      unfold rebroadcastCopies at hq
      split at hq
      · obtain ⟨j, hj, rfl⟩ := List.mem_map.mp hq
        rw [admitted_interfaces, List.mem_filter] at hj
        have hpref := congrArg Prod.snd hu
        rw [nowSecs_admitted, show (n.admitted p).paths = n.paths by simp] at hpref
        have hsame : (n.admitted p).rebroadcast (received p) = n.rebroadcast (received p) := by simp [rebroadcast]
        rw [hsame]
        exact .rebroadcast hop ha ht hann hpub hpref (by simpa using hj.1) (by simpa using hj.2)
      · cases hq
  | data ht _ _ hr =>
    cases hr with
    | ignored | badToken | message => exact .none hout
    | provenMessage =>
      refine .emit_one hout (.reply hop ?_ rfl)
      exact Packet.wellFormed_newHeader1 (by decide) (by decide) _ _ _
    | relayed =>
      have hf := forwardData_cases (n.admitted p) (received p) d i
      dsimp only
      generalize (n.admitted p).forwardData (received p) d i = k at hf
      cases hf with
      | dropped | noRoute => exact .none hout
      | forwarded hfw => exact .emit_one hout (.forward hop ha ht hfw)

theorem handleInboundInner_speaks [Rmp] [Bzip2] (hop : l.1.inbound? = some (b, i, rng)) :
    n.Speaks l (n.handleInboundInner b i rng).1 := by
  have hc := n.handleInboundInner_cases b i rng
  generalize n.handleInboundInner b i rng = out at hc
  cases hc with
  | malformed => exact .none rfl
  | duplicate => exact .none (by simp)
  | admitted ha hd => exact hd.speaks hop ha

end Node

open Node in
theorem NodeStep.speaks [Crypto] [Rmp] [Bzip2] {n n' : Node} {l : Label} (h : NodeStep n l n') : n.Speaks l n' := by
  obtain ⟨op, out⟩ := l
  cases op with
  | setClock | enableTransport | unregisterInterface | registerSingleDestination | registerGroupDestination
  | registerGroupDestinationWithIdentity | registerPlainDestination | setProve | prunePaths =>
    cases h
    exact .none rfl
  | registerInterface i =>
    cases h
    refine .none ?_
    unfold registerInterface
    split <;> rfl
  | pollOutbound =>
    simp only [NodeStep, Node.step, pollOutbound] at h
    split at h
    · cases h
      exact .none rfl
    · rename_i f rest ho
      cases h
      exact .silent (ho ▸ List.suffix_cons f rest)
  | sendAnnounce d appData rng i =>
    cases h
    exact sendAnnounce_speaks rfl
  | requestPath d rng =>
    cases h
    exact requestPath_speaks rfl d rng
  | sendMessage d pt rng =>
    have hs := sendSingleMessage_speaks (n := n) (l := (.sendMessage d pt rng, out)) rfl d pt rng false
    rw [← sendMessage_fst] at hs
    obtain ⟨rfl, -⟩ := Prod.mk.inj (Option.some.inj h)
    exact hs
  | sendMessageWithReceipt d pt rng =>
    have hs := sendSingleMessage_speaks (n := n) (l := (.sendMessageWithReceipt d pt rng, out)) rfl d pt rng true
    rw [← sendMessageWithReceipt_fst] at hs
    obtain ⟨rfl, -⟩ := Prod.mk.inj (Option.some.inj h)
    exact hs
  | sendGroupMessage d pt rng =>
    cases h
    exact sendGroupMessage_speaks rfl d pt rng
  | sendPlainMessage d pt =>
    cases h
    exact enqueueDestinationPacket_speaks rfl (wellFormed_dataFor (by decide) d pt) rfl d
  | establishLink d rng =>
    cases h
    exact establishLink_speaks rfl d rng
  | linkSend id pt rng =>
    cases h
    exact linkSend_speaks id pt rng
  | sendResource fuel id data rng =>
    simp only [NodeStep, Node.step, Option.map_eq_some_iff] at h
    obtain ⟨r, hr, h⟩ := h
    obtain ⟨rfl, -⟩ := Prod.mk.inj h
    cases sendResource_cases hr with
    | failed => exact .none rfl
    | sent ha => exact .emit_one rfl (ha.onLink _ _)
  | closeLink id =>
    cases h
    exact .none (closeLink_outbound id)
  | tick | tickWithEntropy =>
    cases h
    exact tickInner_speaks rfl (fun id link hl => ⟨link, hl, rfl⟩) _
  | handleInbound b i =>
    obtain ⟨rfl, -⟩ := Prod.mk.inj (Option.some.inj h)
    exact handleInboundInner_speaks (b := b) (i := i) rfl
  | handleInboundWithEntropy b i rng =>
    obtain ⟨rfl, -⟩ := Prod.mk.inj (Option.some.inj h)
    exact handleInboundInner_speaks (b := b) (i := i) rfl

end Reticulum
