import Reticulum.Lib.Network
import Reticulum.LinkLifecycle

/-!
# Link key agreement

An initiator and a responder over a network that may deliver any frame. What
the responder signs names an entry it holds, so a verified proof leads from
the initiator's entry to the responder's, and the link id to the same request.
-/

namespace Reticulum

open Node

/-! ## Signatures -/

section
variable [Crypto]

/-- What the entry a responder made for a request keeps for good. -/
structure Answers (id : Arr 16) (p : Packet) (link : LinkEntry) : Prop where
  initiator : link.initiator = false
  ephemeral : link.ephemeral.x25519Pub = Crypto.x25519Public link.ephemeral.x25519Prv
  request : id = linkIdFromRequest p
  keys : ∃ peer other, parseLinkRequest p.data = .ok (peer, other) ∧ link.peerX25519Pub = some peer ∧
    link.derivedKey = some (deriveLinkKey link.ephemeral.x25519Prv peer id)

/-- What a step signs: a packet hash, an announce, or the answer to a link request. -/
inductive Signing (n : Node) (l : Label) (n' : Node) : Prop
  | none (signed : n'.signed = n.signed)
  | packetHash (h : Arr 32) (signed : n'.signed = n.signed ++ [h.1])
  | announce {d : Arr 16} {nameHash randomHash : Arr 10} {appData : Bytes}
    (signed : n'.signed = n.signed ++
      [Announce.signedData d n.identity.public.toBytes nameHash randomHash none appData])
  | link {b : Bytes} {p : Packet} {id : Arr 16} {link : LinkEntry} (op : l.1.inbound?.map (·.1) = some b)
    (decoded : Packet.decode b = .ok p) (kind : p.packetType = LINKREQUEST) (links : n'.links[id]? = some link)
    (answers : Answers id p link)
    (signed : n'.signed =
      n.signed ++ [linkProofMessage id link.ephemeral.x25519Pub n.identity.public.sigPub []])

theorem generate_ephemeral (rng : Entropy) :
    (LinkEphemeral.generate rng).1.x25519Pub = Crypto.x25519Public (LinkEphemeral.generate rng).1.x25519Prv := rfl

theorem Node.DispatchCase.signing [Rmp] [Bzip2] {n n' : Node} {p : Packet} {d : Arr 16} {i : UInt16} {b : Bytes}
    {l : Label} {events : List Event} (hop : l.1.inbound?.map (·.1) = some b) (ha : n.Admits b p d)
    (h : DispatchCase (n.admitted p) (received p) d i (n', events)) : Signing n l n' := by
  have hsame : (n.admitted p).signed = n.signed := by simp
  have hnone (hs : n'.signed = (n.admitted p).signed) : Signing n l n' := .none (hs.trans hsame)
  generalize hout : (n', events) = out at h
  cases h with
  | ignored => cases hout; exact hnone rfl
  | pathRequest =>
    obtain ⟨_, _, heq, -⟩ := handlePathRequest_cases (n.admitted p) (received p) i
    apply hnone
    rw [(Prod.mk.inj hout).1, heq]
    rfl
  | linkRequest ht hr =>
    cases hr with
    | ignored => cases hout; exact hnone rfl
    | accepted _ _ hparse _ heph =>
      obtain ⟨rfl, -⟩ := Prod.mk.inj hout
      refine .link hop ha.decoded ht Std.ExtTreeMap.getElem?_insert_self ?_ ?_
      · exact ⟨rfl, heph ▸ generate_ephemeral _, rfl, _, _, hparse, rfl, rfl⟩
      · simp [acceptedLink]
  | linkProof _ _ _ hr => cases hr <;> cases hout <;> exact hnone rfl
  | deliveryProof _ hr => cases hr <;> cases hout <;> exact hnone rfl
  | resourceProof _ _ _ hr => cases hr <;> cases hout <;> exact hnone rfl
  | linkData _ _ hr =>
    apply hnone
    rw [show n' = out.1 from congrArg Prod.fst hout]
    exact hr.sameRoutes.signed
  | announce _ hr => cases hr <;> cases hout <;> exact hnone rfl
  | data _ _ _ hr =>
    cases hr with
    | relayed =>
      have hf := forwardData_cases (n.admitted p) (received p) d i
      rw [show n' = (n.admitted p).forwardData (received p) d i from congrArg Prod.fst hout]
      generalize (n.admitted p).forwardData (received p) d i = m at hf
      cases hf <;> exact .none hsame
    | provenMessage =>
      cases hout
      exact .packetHash _ (by rw [emit_signed, addSigned_signed, hsame])
    | _ => cases hout; exact hnone rfl

theorem NodeStep.signing [Rmp] [Bzip2] {n n' : Node} {l : Label} (h : NodeStep n l n') : Signing n l n' := by
  cases h.cases with
  | config _ hc => exact .none (by rw [hc.eq])
  | announce hc =>
    cases hc with
    | unknown => exact .none rfl
    | sent => exact .announce rfl
  | sent _ hc => exact .none (by rw [hc.eq]; rfl)
  | establish hc => cases hc <;> exact .none rfl
  | linkSend hc => cases hc <;> exact .none rfl
  | sendResource hc => cases hc <;> exact .none rfl
  | close hc => cases hc <;> exact .none rfl
  | @tick _ rng => exact .none (tickInner_sameRoutes n rng).signed
  | inbound hop hc =>
    generalize hout : (n', _) = out at hc
    cases hc with
    | malformed => cases hout; exact .none rfl
    | duplicate => cases hout; exact .none (by simp)
    | admitted ha hd =>
      subst hout
      exact hd.signing (by simp [hop]) ha

theorem Signing.prefix {n n' : Node} {l : Label} (h : Signing n l n') : n.signed <+: n'.signed := by
  cases h with
  | none h => exact h ▸ List.prefix_rfl
  | packetHash _ h => rw [h]; exact List.prefix_append ..
  | announce h => rw [h]; exact List.prefix_append ..
  | link _ _ _ _ _ h => rw [h]; exact List.prefix_append ..

end

/-! ## The two ends -/

section
variable [Crypto] [Rmp] [Bzip2]

/-- A link request among the frames that arrived. -/
def Arrived (tr : List Label) (p : Packet) : Prop :=
  ∃ l ∈ tr, ∃ b, l.1.inbound?.map (·.1) = some b ∧ Packet.decode b = .ok p ∧ p.packetType = LINKREQUEST

/-- A link request that the node made, before routing. -/
def Requested (tr : List Label) (p : Packet) : Prop :=
  ∃ l ∈ tr, ∃ d rng, l.1 = .establishLink d rng ∧ p = linkRequestFor d rng

/-- What a node has signed: nothing of the length of a proof, apart from answers that it still holds. -/
def Accountable (tr : List Label) (n : Node) : Prop :=
  ∀ m ∈ n.signed, m.length = 32 ∨ 100 ≤ m.length ∨ ∃ id p link, Arrived tr p ∧ n.links[id]? = some link ∧
    Answers id p link ∧ m = linkProofMessage id link.ephemeral.x25519Pub n.identity.public.sigPub []

theorem Answers.step {n n' : Node} {l : Label} {id : Arr 16} {p : Packet} {link : LinkEntry} (hn : n.PendingOk)
    (h : FreshStep n l n') (hl : n.links[id]? = some link) (ha : Answers id p link) :
    ∃ link', n'.links[id]? = some link' ∧ Answers id p link' ∧
      link'.ephemeral.x25519Pub = link.ephemeral.x25519Pub := by
  have hkeep {link' : LinkEntry} (h : n'.links[id]? = some link') (hi : link'.initiator = link.initiator)
      (he : link'.ephemeral = link.ephemeral) (hp : link'.peerX25519Pub = link.peerX25519Pub)
      (hk : link'.derivedKey = link.derivedKey) : ∃ link', n'.links[id]? = some link' ∧ Answers id p link' ∧
        link'.ephemeral.x25519Pub = link.ephemeral.x25519Pub := by
    refine ⟨link', h, ⟨hi.trans ha.initiator, he ▸ ha.ephemeral, ha.request, ?_⟩, by rw [he]⟩
    obtain ⟨peer, other, hparse, hpeer, hkey⟩ := ha.keys
    exact ⟨peer, other, hparse, hp.trans hpeer, hk.trans (he ▸ hkey)⟩
  cases h.2.linkChange hn id with
  | activity hc =>
    cases hc with
    | kept h => exact hkeep (h.trans hl) rfl rfl rfl rfl
    | touched hb _ h | keepalive hb _ h | closed hb _ _ h =>
      cases hb.symm.trans hl
      exact hkeep h rfl rfl rfl rfl
  | requested op ret => simp [h.1 _ _ _ op ret] at hl
  | accepted _ _ _ _ _ _ hfresh => simp [hfresh] at hl
  | proven _ _ _ hb _ hi =>
    cases hb.symm.trans hl
    exact absurd ha.initiator (by simp [hi])

omit [Crypto] [Rmp] [Bzip2] in
theorem Arrived.append {tr tr' : List Label} {p : Packet} (h : Arrived tr p) : Arrived (tr ++ tr') p := by
  obtain ⟨l, hl, h⟩ := h
  exact ⟨l, List.mem_append_left _ hl, h⟩

omit [Rmp] [Bzip2] in
theorem Requested.append {tr tr' : List Label} {p : Packet} (h : Requested tr p) : Requested (tr ++ tr') p := by
  obtain ⟨l, hl, h⟩ := h
  exact ⟨l, List.mem_append_left _ hl, h⟩

theorem accountable_of_run {identity : Identity} {clock : UInt64} {tr : List Label} {n : Node}
    (h : Lts.Run FreshStep (withClock identity clock) tr n) :
    n.PendingOk ∧ n.identity = identity ∧ Accountable tr n := by
  refine h.history (I := fun tr n => n.PendingOk ∧ n.identity = identity ∧ Accountable tr n)
    ⟨by simp [PendingOk, withClock], rfl, by simp [Accountable, withClock]⟩ fun tr n l n' ⟨hp, hid, ha⟩ hst => ?_
  have hid' := hst.2.identity
  refine ⟨hst.2.pendingOk hp, hid'.trans hid, fun m hm => ?_⟩
  -- what was signed before is still accounted for
  have hold (hm : m ∈ n.signed) : m.length = 32 ∨ 100 ≤ m.length ∨ ∃ id p link, Arrived (tr ++ [l]) p ∧
      n'.links[id]? = some link ∧ Answers id p link ∧
      m = linkProofMessage id link.ephemeral.x25519Pub n'.identity.public.sigPub [] := by
    rcases ha m hm with h | h | ⟨id, p, link, hp', hl, hans, rfl⟩
    · exact .inl h
    · exact .inr (.inl h)
    · obtain ⟨link', hl', hans', he⟩ := hans.step hp hst hl
      exact .inr (.inr ⟨id, p, link', hp'.append, hl', hans', by rw [he, hid']⟩)
  cases hst.2.signing with
  | none hs => exact hold (hs ▸ hm)
  | packetHash h hs =>
    rw [hs, List.mem_append, List.mem_singleton] at hm
    rcases hm with hm | rfl
    · exact hold hm
    · exact .inl h.2
  | @announce d nameHash randomHash _ hs =>
    rw [hs, List.mem_append, List.mem_singleton] at hm
    rcases hm with hm | rfl
    · exact hold hm
    · refine .inr (.inl ?_)
      have hpub := n.identity.public.toBytes.2
      simp only [Announce.signedData, List.length_append, d.2, hpub, nameHash.2, randomHash.2]
      omega
  | link op hdec ht hl hans hs =>
    rw [hs, List.mem_append, List.mem_singleton] at hm
    rcases hm with hm | rfl
    · exact hold hm
    · exact .inr (.inr ⟨_, _, _, ⟨l, by simp, _, op, hdec, ht⟩, hl, hans, by rw [hid']⟩)

/-- What the entry of a link that the node asked for keeps. -/
structure Asks (id : Arr 16) (p : Packet) (link : LinkEntry) : Prop where
  ephemeral : link.ephemeral.x25519Pub = Crypto.x25519Public link.ephemeral.x25519Prv
  request : id = linkIdFromRequest p
  payload : ∃ d, p = Packet.linkRequest d (linkRequestPayload link.ephemeral)
  active : link.status = .active → link.peerX25519Pub.isSome = true
  keyed : ∀ peer, link.peerX25519Pub = some peer →
    link.derivedKey = some (deriveLinkKey link.ephemeral.x25519Prv peer id)

theorem asks_of_run {identity : Identity} {clock : UInt64} {tr : List Label} {n : Node}
    (h : Lts.Run NodeStep (withClock identity clock) tr n) :
    n.PendingOk ∧ ∀ id link, n.links[id]? = some link → link.initiator = true →
      ∃ p, Requested tr p ∧ Asks id p link := by
  refine h.history (I := fun tr n => n.PendingOk ∧ ∀ id link, n.links[id]? = some link → link.initiator = true →
    ∃ p, Requested tr p ∧ Asks id p link) ⟨by simp [PendingOk, withClock], by simp [withClock]⟩ ?_
  rintro tr n l n' ⟨hp, ha⟩ hst
  refine ⟨hst.pendingOk hp, fun id link hl hi => ?_⟩
  cases hst.linkChange hp id with
  | activity hc =>
    cases hc with
    | kept h =>
      obtain ⟨p, hreq, hasks⟩ := ha id link (h ▸ hl) hi
      exact ⟨p, hreq.append, hasks⟩
    | touched hb _ h | keepalive hb _ h =>
      cases h.symm.trans hl
      obtain ⟨p, hreq, hasks⟩ := ha id _ hb hi
      exact ⟨p, hreq.append, hasks.1, hasks.2, hasks.3, hasks.4, hasks.5⟩
    | closed hb _ _ h =>
      cases h.symm.trans hl
      obtain ⟨p, hreq, hasks⟩ := ha id _ hb hi
      exact ⟨p, hreq.append, hasks.1, hasks.2, hasks.3, by rintro ⟨⟩, hasks.5⟩
  | @requested d rng _ hop _ _ hid h =>
    cases h.symm.trans hl
    refine ⟨linkRequestFor d rng, ⟨l, by simp, d, rng, hop, rfl⟩, rfl, hid, ⟨d, rfl⟩, by rintro ⟨⟩, ?_⟩
    rintro _ ⟨⟩
  | accepted _ _ _ _ _ _ _ _ h =>
    cases h.symm.trans hl
    cases hi
  | proven _ _ _ hb _ hinit _ _ h =>
    cases h.symm.trans hl
    obtain ⟨p, hreq, hasks⟩ := ha id _ hb hinit
    refine ⟨p, hreq.append, hasks.1, hasks.2, hasks.3, fun _ => rfl, fun peer hpeer => ?_⟩
    cases hpeer
    rfl

end

/-! ## The network -/

inductive Party
  | initiator
  | responder
  deriving DecidableEq

section
variable [Crypto] [Rmp] [Bzip2]

/-- A frame that holds no forged proof: what it proves for the signer's key, the signer has signed. -/
def Unforged (signer : Node) (b : Bytes) : Prop :=
  ∀ p id peer, Packet.decode b = .ok p → p.packetType = PROOF → p.destHash = id.1 →
    verifyLinkProof signer.identity.public id p.data = .ok peer →
    linkProofMessage id peer signer.identity.public.sigPub (p.data.drop 96) ∈ signer.signed

/-- A step of one of the two nodes. The network hands either of them any frame that is not a forgery. -/
structure HandshakeStep (s : Party → Node) (l : Party × Label) (s' : Party → Node) : Prop where
  step : Lts.Interleave NodeStep s l s'
  fresh : l.1 = .responder → FreshLink (s .responder) l.2
  unforged : l.1 = .initiator → ∀ b, l.2.1.inbound?.map (·.1) = some b → Unforged (s .responder) b

/-- No two link requests of the run, one made and one arrived, share an id without sharing what it is made from. -/
def CollisionFree (tr : List (Party × Label)) : Prop :=
  ∀ p q, Requested (Lts.own .initiator tr) p → Arrived (Lts.own .responder tr) q →
    linkIdFromRequest p = linkIdFromRequest q → linkIdInput p = linkIdInput q

/-- Two nodes that have done nothing yet. -/
def twoNodes (a b : Identity) (clock : Party → UInt64) : Party → Node
  | .initiator => withClock a (clock .initiator)
  | .responder => withClock b (clock .responder)

omit [Rmp] [Bzip2] in
theorem verifyLinkProof_length {pub : PublicIdentity} {id : Arr 16} {data : Bytes} {peer : Arr 32}
    (h : verifyLinkProof pub id data = .ok peer) : (data.drop 96).length = 0 ∨ (data.drop 96).length = 3 := by
  unfold verifyLinkProof at h
  split at h
  · cases h
  · split at h
    · cases h
    · simp only [LINK_SIGNALLING_LEN] at *
      rw [List.length_drop]
      omega

omit [Rmp] [Bzip2] in
theorem verifyLinkProof_peer {pub : PublicIdentity} {id : Arr 16} {data : Bytes} {peer : Arr 32}
    (h : verifyLinkProof pub id data = .ok peer) : peer.1 = (data.drop 64).take 32 := by
  unfold verifyLinkProof at h
  split at h
  · cases h
  · split at h
    · cases h
    · dsimp only at h
      split at h
      · cases h
      · cases h
        rfl

omit [Rmp] [Bzip2] in
/-- The proof that the responder sends for an entry of its own is no forgery. -/
theorem unforged_of_answer {n : Node} {id : Arr 16} {e : LinkEphemeral}
    (h : linkProofMessage id e.x25519Pub n.identity.public.sigPub [] ∈ n.signed) :
    Unforged n (Packet.proof id (buildLinkProof n.identity id e) LRPROOF).encode := by
  intro p id' peer hdec _ hid hv
  have hw : (Packet.proof id (buildLinkProof n.identity id e) LRPROOF).WellFormed :=
    Packet.wellFormed_newHeader1 (by decide) (by decide) _ _ _
  cases (Packet.decode_encode hw).symm.trans hdec
  obtain rfl : id = id' := Subtype.ext hid
  have hpeer : peer = e.x25519Pub := by
    apply Subtype.ext
    rw [verifyLinkProof_peer hv]
    simp only [Packet.proof, Packet.newHeader1, buildLinkProof]
    rw [List.drop_left' (n.identity.sign _).2, List.take_of_length_le e.x25519Pub.2.le]
  have hrest : (Packet.proof id (buildLinkProof n.identity id e) LRPROOF).data.drop 96 = [] := by
    apply List.drop_eq_nil_of_le
    simp [Packet.proof, Packet.newHeader1, buildLinkProof, (n.identity.sign _).2, e.x25519Pub.2]
  rw [hrest, hpeer]
  exact h

/-- A key that the initiator took from a proof is one that the responder signed for the link. -/
def Signed (pub : PublicIdentity) (s : Party → Node) : Prop :=
  ∀ id link peer, (s .initiator).links[id]? = some link → link.initiator = true →
    link.destinationPublic = some pub → link.peerX25519Pub = some peer →
    ∃ signalling : Bytes, (signalling.length = 0 ∨ signalling.length = 3) ∧
      linkProofMessage id peer pub.sigPub signalling ∈ (s .responder).signed

theorem HandshakeStep.signed {s s' : Party → Node} {l : Party × Label} {pub : PublicIdentity}
    (hn : (s .initiator).PendingOk) (hpub : (s .responder).identity.public = pub) (hs : Signed pub s)
    (h : HandshakeStep s l s') : Signed pub s' := by
  obtain ⟨v, l⟩ := l
  have hstep : NodeStep (s v) l (s' v) := h.step.1
  cases v with
  | responder =>
    have hsame : s' .initiator = s .initiator := h.step.2 .initiator (by simp)
    intro id link peer hl hi hd hp
    rw [hsame] at hl
    obtain ⟨sig, hlen, hmem⟩ := hs id link peer hl hi hd hp
    exact ⟨sig, hlen, hstep.signing.prefix.subset hmem⟩
  | initiator =>
    have hsame : s' .responder = s .responder := h.step.2 .responder (by simp)
    intro id link peer hl hi hd hp
    rw [hsame]
    cases hstep.linkChange hn id with
    | activity hc =>
      cases hc with
      | kept h => exact hs id link peer (h ▸ hl) hi hd hp
      | touched hb _ h | keepalive hb _ h | closed hb _ _ h =>
        cases h.symm.trans hl
        exact hs id _ peer hb hi hd hp
    | requested _ _ _ _ h =>
      cases h.symm.trans hl
      cases hp
    | accepted _ _ _ _ _ _ _ _ h =>
      cases h.symm.trans hl
      cases hi
    | proven hop ha ht _ _ _ hk hv h' =>
      cases h'.symm.trans hl
      cases hp
      cases hk.symm.trans hd
      subst hpub
      exact ⟨_, verifyLinkProof_length hv, h.unforged rfl _ hop _ id peer ha.decoded ht ha.dest hv⟩

theorem HandshakeStep.initiator_run {s s' : Party → Node} {tr : List (Party × Label)}
    (h : Lts.Run HandshakeStep s tr s') :
    Lts.Run NodeStep (s .initiator) (Lts.own .initiator tr) (s' .initiator) :=
  (h.mono fun _ _ _ hst => hst.step).project .initiator

/-- The responder's part of a run, with its fresh ephemerals. -/
theorem HandshakeStep.responder_run {s s' : Party → Node} {tr : List (Party × Label)}
    (h : Lts.Run HandshakeStep s tr s') :
    Lts.Run FreshStep (s .responder) (Lts.own .responder tr) (s' .responder) :=
  h.project_of (fun _ _ _ hst => ⟨hst.fresh rfl, hst.step.1⟩) fun _ _ _ hst hv => hst.step.2 _ (Ne.symm hv)

theorem signed_of_run {a b : Identity} {clock : Party → UInt64} {tr : List (Party × Label)} {s : Party → Node}
    (h : Lts.Run HandshakeStep (twoNodes a b clock) tr s) : Signed b.public s := by
  induction h with
  | nil => exact fun id link _ hl => by simp [twoNodes, withClock] at hl
  | snoc hr hst ih =>
    refine hst.signed (asks_of_run (HandshakeStep.initiator_run hr)).1 ?_ ih
    rw [(accountable_of_run (HandshakeStep.responder_run hr)).2.1]

/-! ## Agreement -/

omit [Crypto] [Rmp] [Bzip2] in
theorem linkProofMessage_inj {id id' : Arr 16} {x x' k : Arr 32} {sig : Bytes}
    (h : linkProofMessage id x k sig = linkProofMessage id' x' k []) : id = id' ∧ x = x' := by
  simp only [linkProofMessage, List.append_assoc] at h
  obtain ⟨h1, h⟩ := List.append_inj h (by rw [id.2, id'.2])
  obtain ⟨h2, -⟩ := List.append_inj h (by rw [x.2, x'.2])
  exact ⟨Subtype.ext h1, Subtype.ext h2⟩

omit [Crypto] [Rmp] [Bzip2] in
/-- What the id of a link request is made from: its keys, and nothing after them. -/
theorem linkIdInput_eq {p : Packet} (h : 64 ≤ p.data.length) :
    linkIdInput p = (((p.destType &&& 0x3) <<< 2) ||| (p.packetType &&& 0x3)) ::
      (p.destHash ++ p.context :: p.data.take 64) := by
  unfold linkIdInput
  dsimp only
  split
  · have hsplit : p.hashablePart = ((((p.destType &&& 0x3) <<< 2) ||| (p.packetType &&& 0x3)) ::
        (p.destHash ++ [p.context])) ++ p.data := by simp [Packet.hashablePart]
    have hlen : p.hashablePart.length - (p.data.length - LINK_REQUEST_LEN) =
        ((((p.destType &&& 0x3) <<< 2) ||| (p.packetType &&& 0x3)) :: (p.destHash ++ [p.context])).length + 64 := by
      rw [hsplit, List.length_append, LINK_REQUEST_LEN]
      omega
    rw [hlen, hsplit, List.take_length_add_append]
    simp
  · rename_i hle
    rw [LINK_REQUEST_LEN] at hle
    rw [List.take_of_length_le (by omega)]
    rfl

omit [Crypto] [Rmp] [Bzip2] in
/-- Requests of one id, made and arrived: the arrived one carries the initiator's key. -/
theorem peer_of_request {d : Arr 16} {e : LinkEphemeral} {q : Packet} {peer other : Arr 32}
    (hw : q.WellFormed) (hq : parseLinkRequest q.data = .ok (peer, other))
    (h : linkIdInput (Packet.linkRequest d (linkRequestPayload e)) = linkIdInput q) : peer = e.x25519Pub := by
  have hlen : (linkRequestPayload e).length = 64 := by simp [linkRequestPayload, e.x25519Pub.2, e.ed25519Pub.2]
  unfold parseLinkRequest at hq
  split at hq
  · cases hq
  · rename_i hql
    have hql : 64 ≤ q.data.length := by
      simp only [LINK_REQUEST_LEN, LINK_SIGNALLING_LEN] at hql
      omega
    rw [linkIdInput_eq (p := Packet.linkRequest d (linkRequestPayload e)) hlen.ge, linkIdInput_eq hql] at h
    obtain ⟨-, h⟩ := List.cons.inj h
    obtain ⟨-, h⟩ := List.append_inj h (by rw [hw.destHash]; exact d.2)
    have hdata : (linkRequestPayload e).take 64 = q.data.take 64 := (List.cons.inj h).2
    have hkey : q.data.take 32 = e.x25519Pub.1 := by
      calc q.data.take 32 = (q.data.take 64).take 32 := by rw [List.take_take]; rfl
        _ = (linkRequestPayload e).take 32 := by rw [← hdata, List.take_take]; rfl
        _ = e.x25519Pub.1 := List.take_left' e.x25519Pub.2
    cases hq
    exact Subtype.ext hkey

/-- Whenever the initiator holds an Active link that it asked the responder for, the responder holds a link
of the same id with the same key, and each of the two has the other's ephemeral public key. -/
theorem link_key_agreement (hdh : Crypto.DhCommutes) {a b : Identity} {clock : Party → UInt64}
    {tr : List (Party × Label)} {s : Party → Node} (h : Lts.Run HandshakeStep (twoNodes a b clock) tr s)
    (hcf : CollisionFree tr) {id : Arr 16} {link : LinkEntry} (hl : (s .initiator).links[id]? = some link)
    (hst : link.status = .active) (hi : link.initiator = true) (hd : link.destinationPublic = some b.public) :
    ∃ link', (s .responder).links[id]? = some link' ∧ link'.initiator = false ∧ link.derivedKey.isSome = true ∧
      link'.derivedKey = link.derivedKey ∧ link.peerX25519Pub = some link'.ephemeral.x25519Pub ∧
      link'.peerX25519Pub = some link.ephemeral.x25519Pub := by
  obtain ⟨p, hreq, hasks⟩ := (asks_of_run (HandshakeStep.initiator_run h)).2 id link hl hi
  obtain ⟨peer, hpeer⟩ := Option.isSome_iff_exists.mp (hasks.active hst)
  have hkey := hasks.keyed peer hpeer
  obtain ⟨-, hid, hacc⟩ := accountable_of_run (HandshakeStep.responder_run h)
  -- the proof was signed, so the responder still holds the entry it answered with
  obtain ⟨sig, hsig, hmem⟩ := signed_of_run h id link peer hl hi hd hpeer
  have hlen : (linkProofMessage id peer b.public.sigPub sig).length = 80 + sig.length := by
    simp [linkProofMessage, id.2, peer.2, b.public.sigPub.2]
    omega
  obtain ⟨id', q, link', harr, hl', hans, heq⟩ :
      ∃ id' q link', Arrived (Lts.own .responder tr) q ∧ (s .responder).links[id']? = some link' ∧
        Answers id' q link' ∧
        linkProofMessage id peer b.public.sigPub sig =
          linkProofMessage id' link'.ephemeral.x25519Pub b.public.sigPub [] := by
    rcases hacc _ hmem with h | h | h
    · omega
    · omega
    · rwa [hid] at h
  obtain ⟨rfl, rfl⟩ := linkProofMessage_inj heq
  -- both ids come from one request
  obtain ⟨peer', other, hparse, hpeer', hkey'⟩ := hans.keys
  have ⟨_, _, _, _, hdec, _⟩ := harr
  obtain ⟨d, rfl⟩ := hasks.payload
  have hcross : peer' = link.ephemeral.x25519Pub := peer_of_request (Packet.decode_wellFormed hdec) hparse
    (hcf _ _ hreq harr (hasks.request.symm.trans hans.request))
  subst hcross
  refine ⟨link', hl', hans.initiator, by rw [hkey]; rfl, ?_, hpeer, hpeer'⟩
  rw [hkey, hkey', deriveLinkKey, deriveLinkKey, hasks.ephemeral, hans.ephemeral, hdh]

end

section
open Sample

/-- The announce, the request's answer, and what the two sides do with them. -/
def chatAnnounce : Packet :=
  Packet.announce chatDest (Announce.build (identity 3) chatDest (nameHash "chat" []) (arr 10 5) []).toPayload

def chatProof : Packet :=
  Packet.proof chatLink (buildLinkProof (identity 3) chatLink (LinkEphemeral.generate (entropy 2)).1) LRPROOF

def askingOps : List Op := [.handleInbound chatAnnounce.encode 0, .establishLink chatDest (entropy 1)]

def answeringOps : List Op :=
  [.registerSingleDestination "chat" [], .handleInboundWithEntropy chatRequest.encode 0 (entropy 2)]

def provingOps : List Op := [.handleInbound chatProof.encode 0]

/-- Steps of the initiator over frames that are no forgeries. -/
theorem initiator_part {s : Party → Node} {n : Node} {tr : List Label} (h : Lts.Run NodeStep (s .initiator) tr n)
    (hu : ∀ l ∈ tr, ∀ b, l.1.inbound?.map (·.1) = some b → Unforged (s .responder) b) :
    Lts.Run HandshakeStep s (tr.map fun l => (.initiator, l)) (Function.update s .initiator n) := by
  have hok : ∀ (_ : Node), ∀ l ∈ tr, ∀ b, l.1.inbound?.map (·.1) = some b → Unforged (s .responder) b := fun _ => hu
  refine (h.restrict hok).lift_of fun t l u hst => ⟨Lts.interleave_update hst.2, fun h => (nomatch h), fun _ => ?_⟩
  simpa using hst.1

theorem responder_part {s : Party → Node} {n : Node} {tr : List Label} (h : Lts.Run FreshStep (s .responder) tr n) :
    Lts.Run HandshakeStep s (tr.map fun l => (.responder, l)) (Function.update s .responder n) := by
  refine h.lift_of fun t l u hst => ⟨Lts.interleave_update hst.2, fun _ => ?_, fun h => (nomatch h)⟩
  simpa using hst.1

theorem mem_ops {n n' : Node} {ops : List Op} {tr : List Label} (h : n.exec ops = some (n', tr)) {l : Label}
    (hl : l ∈ tr) : l.1 ∈ ops := by
  rw [← exec_labels h]
  exact List.mem_map_of_mem hl

/-- A destination announces itself, the link is asked for, answered and proved. -/
theorem link_key_agreement_chat : ∃ tr s,
    Lts.Run HandshakeStep (twoNodes (identity 7) (identity 3) fun _ => 100) tr s ∧
      ∃ link link', (s .initiator).links[chatLink]? = some link ∧ link.status = .active ∧
        (s .responder).links[chatLink]? = some link' ∧ link.derivedKey.isSome = true ∧
        link'.derivedKey = link.derivedKey := by
  obtain ⟨⟨n, tr⟩, hask⟩ : ∃ r, (withClock (identity 7) 100).exec askingOps = some r :=
    Option.isSome_iff_exists.mp (by decide +kernel)
  obtain ⟨⟨m, tr'⟩, hans⟩ : ∃ r, (withClock (identity 3) 100).exec answeringOps = some r :=
    Option.isSome_iff_exists.mp (by decide +kernel)
  obtain ⟨⟨n', tr''⟩, hprove⟩ : ∃ r, n.exec provingOps = some r := by
    have h : (((withClock (identity 7) 100).exec askingOps).bind fun r => r.1.exec provingOps).isSome = true := by
      decide +kernel
    rw [hask] at h
    exact Option.isSome_iff_exists.mp h
  have hlink : ∃ link, n'.links[chatLink]? = some link ∧ link.status = .active ∧ link.initiator = true ∧
      link.destinationPublic = some (identity 3).public := by
    have h : (((withClock (identity 7) 100).exec askingOps).bind fun r => r.1.exec provingOps).any (fun r =>
        r.1.links[chatLink]?.any fun link => link.status = .active ∧ link.initiator = true ∧
          link.destinationPublic = some (identity 3).public) = true := by decide +kernel
    rw [hask, Option.bind_some, hprove, Option.any_some] at h
    cases hl : n'.links[chatLink]? with
    | none => simp [hl] at h
    | some link =>
      rw [hl] at h
      exact ⟨link, rfl, of_decide_eq_true h⟩
  have hsigned : m.identity = identity 3 ∧ linkProofMessage chatLink (LinkEphemeral.generate (entropy 2)).1.x25519Pub
      (identity 3).public.sigPub [] ∈ m.signed := by
    have h : ((withClock (identity 3) 100).exec answeringOps).any (fun r => r.1.identity = identity 3 ∧
        linkProofMessage chatLink (LinkEphemeral.generate (entropy 2)).1.x25519Pub
          (identity 3).public.sigPub [] ∈ r.1.signed) = true := by decide +kernel
    rw [hans, Option.any_some] at h
    exact of_decide_eq_true h
  obtain ⟨link, hl, hst, hi, hd⟩ := hlink
  -- the three parts of the run
  have h₁ := initiator_part (s := twoNodes (identity 7) (identity 3) fun _ => 100) (exec_run hask) fun l hl b hb => by
    have hmem := mem_ops hask hl
    simp only [askingOps, List.mem_cons, List.not_mem_nil, or_false] at hmem
    rcases hmem with h | h <;> rw [h] at hb <;> cases hb
    intro p id peer hdec ht
    cases (Packet.decode_encode (Packet.wellFormed_announce _ _)).symm.trans hdec
    cases ht
  have hfresh : Lts.Run FreshStep (withClock (identity 3) 100) tr' m :=
    (exec_run hans).restrict fun t l hl d rng id hop => by
      have hmem := mem_ops hans hl
      simp [answeringOps, hop] at hmem
  have h₂ := h₁.append (responder_part (show Lts.Run FreshStep _ tr' m by simpa [twoNodes] using hfresh))
  have h₃ := h₂.append (initiator_part (show Lts.Run NodeStep _ tr'' n' by simpa using exec_run hprove) fun l hl b hb => by
    have hmem := mem_ops hprove hl
    simp only [provingOps, List.mem_singleton] at hmem
    rw [hmem] at hb
    cases hb
    have h : Unforged m (Packet.proof chatLink (buildLinkProof m.identity chatLink
        (LinkEphemeral.generate (entropy 2)).1) LRPROOF).encode :=
      unforged_of_answer (by rw [hsigned.1]; exact hsigned.2)
    rw [hsigned.1] at h
    simpa [chatProof] using h)
  refine ⟨_, _, h₃, link, ?_⟩
  have hcf : CollisionFree (tr.map (fun l => (Party.initiator, l)) ++ tr'.map (fun l => (Party.responder, l)) ++
      tr''.map fun l => (Party.initiator, l)) := by
    rintro p q ⟨l, hl, d, rng, hop, rfl⟩ ⟨l', hl', b, hop', hdec, -⟩ -
    have hp : linkRequestFor d rng = chatRequest := by
      have hmem : l.1 ∈ askingOps ∨ l.1 ∈ provingOps := by
        have h : l ∈ tr ∨ l ∈ tr'' := by simpa using hl
        exact h.imp (mem_ops hask) (mem_ops hprove)
      rw [hop] at hmem
      simp only [askingOps, provingOps, List.mem_cons, List.not_mem_nil, or_false, reduceCtorEq, false_or,
        Op.establishLink.injEq] at hmem
      rw [hmem.1, hmem.2, chatRequest]
    have hq : q = chatRequest := by
      have hmem := mem_ops hans (show l' ∈ tr' by simpa using hl')
      simp only [answeringOps, List.mem_cons, List.not_mem_nil, or_false] at hmem
      rcases hmem with h | h <;> rw [h] at hop' <;> cases hop'
      cases (Packet.decode_encode (linkRequestFor_wellFormed _ _)).symm.trans hdec
      rfl
    rw [hp, hq]
  obtain ⟨link', hl', -, hk, hsame, -⟩ := link_key_agreement dhCommutes h₃ hcf (by simpa using hl) hst hi hd
  exact ⟨link', by simpa using hl, hst, hl', hk, hsame⟩

end

end Reticulum
